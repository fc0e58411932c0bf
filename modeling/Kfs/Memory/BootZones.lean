import Kfs.Memory.BootPages

/-!
# Splitting a table into zones

`boot_allocator_init_zones` cuts each region at the two zone borders. What it appends to a zone is
what the regions have in the range of the zone, and the loop over a region comes to its end because
the cursor leaves a zone in each turn. The range of the last zone ends at `0xFFFFFFFF`, which no
`uintptr_t` end exceeds.
-/

namespace Kfs.Memory

open Kfs.Lib

/-! ## The ranges of the zones -/

namespace Zone

/-- The ranges follow one another. -/
theorem range_apart {z z' : Zone} (h : z ≠ z') : z.stop ≤ z'.start ∨ z'.stop ≤ z.start := by
  cases z <;> cases z' <;> first | exact absurd rfl h | decide

/-- Every address below the last one lies in the range of a zone. -/
theorem exists_range {p : ℕ} (h : p < highmemEnd) : ∃ z : Zone, z.start ≤ p ∧ p < z.stop := by
  by_cases hdma : p < lowmemStart
  · exact ⟨.dma, Nat.zero_le p, hdma⟩
  by_cases hlow : p < highmemStart
  · exact ⟨.lowmem, not_lt.mp hdma, hlow⟩
  exact ⟨.highmem, not_lt.mp hlow, h⟩

end Zone

/-! ## What a region has in a zone -/

/-- The part of a region in the range of a zone, if there is one. -/
def Region.inZone (reg : Region) (z : Zone) : List Region :=
  [⟨max reg.start z.start, min reg.stop z.stop⟩].filter fun part => part.start < part.stop

namespace Region

variable {reg part : Region} {z : Zone} {p : ℕ}

theorem mem_inZone : part ∈ reg.inZone z ↔
    part = ⟨max reg.start z.start, min reg.stop z.stop⟩ ∧ part.start < part.stop := by
  simp [inZone]

theorem inZone_eq_nil (h : min reg.stop z.stop ≤ max reg.start z.start) : reg.inZone z = [] := by
  simp only [inZone, List.filter_eq_nil_iff, List.mem_singleton, decide_eq_true_eq, not_lt]
  rintro part rfl
  exact h

theorem inZone_eq_singleton (h : max reg.start z.start < min reg.stop z.stop) :
    reg.inZone z = [⟨max reg.start z.start, min reg.stop z.stop⟩] := by
  simp only [inZone, List.filter_eq_self, List.mem_singleton, decide_eq_true_eq]
  rintro part rfl
  exact h

theorem length_inZone : (reg.inZone z).length ≤ 1 := List.length_filter_le _ _

theorem covers_inZone : Covers (reg.inZone z) p ↔ reg.Has p ∧ z.start ≤ p ∧ p < z.stop := by
  constructor
  · rintro ⟨part, hpart, hlow, hhigh⟩
    obtain ⟨rfl, -⟩ := mem_inZone.mp hpart
    exact ⟨⟨(le_max_left _ _).trans hlow, hhigh.trans_le (min_le_left _ _)⟩,
      (le_max_right _ _).trans hlow, hhigh.trans_le (min_le_right _ _)⟩
  · rintro ⟨⟨hlow, hhigh⟩, hzlow, hzhigh⟩
    have hmax : max reg.start z.start ≤ p := max_le hlow hzlow
    have hmin : p < min reg.stop z.stop := lt_min hhigh hzhigh
    exact ⟨_, mem_inZone.mpr ⟨rfl, hmax.trans_lt hmin⟩, hmax, hmin⟩

end Region

/-! ## One region -/

/-- The zones from this one up. -/
def Zone.rank : Zone → ℕ
  | .dma => 3
  | .lowmem => 2
  | .highmem => 1

/-- The turns that the loop still makes for `[cur, regionEnd)`. -/
def turnsLeft (cur regionEnd : ℕ) : ℕ := if regionEnd ≤ cur then 0 else (getAddrZone cur).rank

theorem turnsLeft_of_lt {cur regionEnd : ℕ} (h : cur < regionEnd) :
    turnsLeft cur regionEnd = (getAddrZone cur).rank := if_neg (not_le.mpr h)

/-- From the end of its zone on the region takes a turn less. -/
theorem turnsLeft_stop {cur regionEnd : ℕ} (h : cur < regionEnd) (hend : regionEnd ≤ highmemEnd) :
    turnsLeft (getAddrZone cur).stop regionEnd < turnsLeft cur regionEnd := by
  rw [turnsLeft_of_lt h]
  unfold turnsLeft
  split
  · cases getAddrZone cur <;> decide
  next hlt =>
    -- there is no zone above the last one
    cases hzone : getAddrZone cur with
    | dma => decide
    | lowmem => decide
    | highmem =>
      rw [hzone] at hlt
      exact absurd hend hlt

/-- The rest of a region, without what its first zone has of it. -/
theorem Region.inZone_rest {cur regionEnd next : ℕ} {zone : Zone} (hzone : getAddrZone cur = zone)
    (hlt : cur < regionEnd) (hend : regionEnd ≤ highmemEnd) (hnext : min regionEnd zone.stop = next)
    (z : Zone) : Region.inZone ⟨cur, regionEnd⟩ z =
      (if z = zone then [⟨cur, next⟩] else []) ++ Region.inZone ⟨next, regionEnd⟩ z := by
  have hstart : zone.start ≤ cur := hzone ▸ getAddrZone_start_le cur
  have hstop : cur < zone.stop := by
    by_contra hge
    have hhigh := getAddrZone_stop_le (hzone ▸ not_lt.mp hge)
    rw [hzone] at hhigh
    rw [hhigh] at hge
    exact hge (hlt.trans_le hend)
  have hcur : cur < next := hnext ▸ lt_min hlt hstop
  by_cases hz : z = zone
  · subst hz
    have hmax : max cur z.start = cur := max_eq_left hstart
    rw [if_pos rfl, Region.inZone_eq_singleton, Region.inZone_eq_nil, List.append_nil]
    · simp only [hmax, hnext]
    · exact hnext.le.trans (le_max_left _ _)
    · simp only [hmax, hnext, hcur]
  · rw [if_neg hz, List.nil_append]
    rcases Zone.range_apart hz with hbelow | habove
    · have hempty : ∀ c, cur ≤ c → Region.inZone ⟨c, regionEnd⟩ z = [] := fun c hc =>
        Region.inZone_eq_nil
          ((min_le_right _ _).trans (hbelow.trans (hstart.trans (hc.trans (le_max_left _ _)))))
      rw [hempty cur le_rfl, hempty next hcur.le]
    · have hmax : ∀ c, c ≤ zone.stop → max c z.start = z.start := fun c hc =>
        max_eq_right (hc.trans habove)
      have hle : next ≤ zone.stop := hnext ▸ min_le_right _ _
      simp only [Region.inZone, hmax cur hstop.le, hmax next hle]

/-- **The inner loop of `boot_allocator_init_zones`** comes to its end and appends to each zone what
the region has there. -/
theorem zoneParts_exact {regionEnd : ℕ} (hend : regionEnd ≤ highmemEnd) (turns : ℕ) :
    ∀ {cur : ℕ} {zones : Zone → List Region}, turnsLeft cur regionEnd < turns →
    (∀ z, cur < z.stop → cur < regionEnd → (zones z).length < maxRegions) →
    zoneParts regionEnd turns cur zones =
      .ok fun z => zones z ++ Region.inZone ⟨cur, regionEnd⟩ z := by
  -- On the turns of the loop; each ends at the end of the region or of a zone.
  induction turns with
  | zero => exact fun h => absurd h (Nat.not_lt_zero _)
  | succ turns ih =>
    intro cur zones hturns hroom
    unfold zoneParts
    by_cases hlt : cur < regionEnd
    · rw [if_pos hlt, zoneOf_eq]
      dsimp only
      have hleft := turnsLeft_stop hlt hend
      generalize hzone : getAddrZone cur = zone at hleft
      -- The shorter of the two ends, as the code picks it.
      have hmin : (if regionEnd < zone.stop then regionEnd else zone.stop) =
          min regionEnd zone.stop := by
        split
        next h => exact (min_eq_left h.le).symm
        next h => exact (min_eq_right (not_lt.mp h)).symm
      generalize hnext : min regionEnd zone.stop = next at hmin
      have hstop : cur < zone.stop := by
        by_contra hge
        have hhigh := getAddrZone_stop_le (hzone ▸ not_lt.mp hge)
        rw [hzone] at hhigh
        rw [hhigh] at hge
        exact hge (hlt.trans_le hend)
      have hcur : cur < next := hnext ▸ lt_min hlt hstop
      rw [hmin, if_pos hcur, if_neg (not_le.mpr (hroom zone hstop hlt)), ih]
      · -- the part of this turn and those of the later turns
        congr 1
        funext z
        rw [Region.inZone_rest hzone hlt hend hnext z]
        by_cases hz : z = zone
        · rw [if_pos hz, if_pos hz, hz, List.append_assoc]
        · rw [if_neg hz, if_neg hz, List.nil_append]
      · -- either the region ends here or the next zone begins
        rcases le_total regionEnd zone.stop with hle | hle
        · have hdone : turnsLeft next regionEnd = 0 :=
            if_pos (hnext ▸ (min_eq_left hle).ge)
          omega
        · have heq : next = zone.stop := hnext ▸ min_eq_right hle
          rw [heq]
          omega
      · -- The zones that are still to come have got nothing in this turn.
        intro z hz hrest
        have hne : z ≠ zone := by
          intro heq
          have hmin' : next < min regionEnd zone.stop := lt_min hrest (heq ▸ hz)
          exact absurd (hnext ▸ hmin') (lt_irrefl next)
        rw [if_neg hne]
        exact hroom z (hcur.trans hz) hlt
    · rw [if_neg hlt]
      have hempty : ∀ z, Region.inZone ⟨cur, regionEnd⟩ z = [] := fun z =>
        Region.inZone_eq_nil
          ((min_le_left _ _).trans ((not_lt.mp hlt).trans (le_max_left _ _)))
      simp only [hempty, List.append_nil]

/-! ## The table -/

/-- **`boot_allocator_init_zones`** appends to each zone what the regions have there, in their order,
as long as the arrays have room for a part of every region. -/
theorem initZones_exact (regions : List Region) : ∀ {zones : Zone → List Region},
    (∀ reg ∈ regions, reg.stop < 2 ^ 32) →
    (∀ z, (zones z).length + regions.length ≤ maxRegions) →
    initZones regions zones = .ok fun z => zones z ++ regions.flatMap fun reg => reg.inZone z := by
  induction regions with
  | nil =>
    intro zones _ _
    simp only [List.flatMap_nil, List.append_nil]
    rfl
  | cons reg regions ih =>
    intro zones hword hroom
    have hend : reg.stop ≤ highmemEnd := by
      have hlt := hword reg List.mem_cons_self
      unfold highmemEnd
      omega
    have hturns : turnsLeft reg.start reg.stop < 4 := by
      unfold turnsLeft
      split
      · decide
      · cases getAddrZone reg.start <;> decide
    have hfirst : ∀ z, (zones z).length < maxRegions := fun z => by
      have hz := hroom z
      rw [List.length_cons] at hz
      omega
    unfold initZones
    rw [List.foldlM_cons, zoneParts_exact hend 4 hturns fun z _ _ => hfirst z, ok_bind]
    refine (ih (fun r hr => hword r (List.mem_cons_of_mem reg hr)) fun z => ?_).trans ?_
    · have hz := hroom z
      have hone : (Region.inZone ⟨reg.start, reg.stop⟩ z).length ≤ 1 := Region.length_inZone
      rw [List.length_cons] at hz
      rw [List.length_append]
      omega
    · simp only [List.flatMap_cons, List.append_assoc]

section Partition

variable {regions : List Region}

theorem covers_flatMap_inZone {z : Zone} {p : ℕ} :
    Covers (regions.flatMap fun reg => reg.inZone z) p ↔
      Covers regions p ∧ z.start ≤ p ∧ p < z.stop := by
  induction regions with
  | nil => simp
  | cons reg regions ih =>
    rw [List.flatMap_cons, covers_append, ih, Region.covers_inZone, covers_cons]
    tauto

theorem length_flatMap_inZone (z : Zone) :
    (regions.flatMap fun reg => reg.inZone z).length ≤ regions.length := by
  induction regions with
  | nil => exact le_rfl
  | cons reg regions ih =>
    have hone : (reg.inZone z).length ≤ 1 := Region.length_inZone
    rw [List.flatMap_cons, List.length_append, List.length_cons]
    omega

/-- Parts of regions that are apart are apart. -/
theorem pairwise_flatMap_inZone (z : Zone) (h : regions.Pairwise Region.Apart) :
    (regions.flatMap fun reg => reg.inZone z).Pairwise Region.Apart := by
  induction regions with
  | nil => exact List.Pairwise.nil
  | cons reg regions ih =>
    obtain ⟨hhead, htail⟩ := List.pairwise_cons.mp h
    rw [List.flatMap_cons]
    refine List.pairwise_append.mpr ⟨?_, ih htail, fun a ha c hc p hpa hpc => ?_⟩
    · exact List.Pairwise.filter _ (List.pairwise_singleton _ _)
    · obtain ⟨src, hsrc, hcsrc⟩ := List.mem_flatMap.mp hc
      have hpreg := (Region.covers_inZone.mp ⟨a, ha, hpa⟩).1
      have hpsrc := (Region.covers_inZone.mp ⟨c, hcsrc, hpc⟩).1
      exact hhead src hsrc p hpreg hpsrc

end Partition

/-- **Zone splitting partitions memory.** From empty zones the loops come to their end. Every zone
gets at most `MAX_REGIONS` regions, all of them non-empty and within its range; all these regions are
pairwise apart and have exactly the bytes of the table. -/
theorem initZones_partition {regions : List Region} (hlen : regions.length ≤ maxRegions)
    (hapart : regions.Pairwise Region.Apart) (hword : ∀ reg ∈ regions, reg.stop < 2 ^ 32) :
    ∃ zones, initZones regions (fun _ => []) = .ok zones ∧
      (∀ z, (zones z).length ≤ maxRegions ∧ (zones z).Pairwise Region.Apart ∧
        ∀ part ∈ zones z, part.start < part.stop ∧ z.start ≤ part.start ∧ part.stop ≤ z.stop) ∧
      (∀ z z', z ≠ z' → ∀ a ∈ zones z, ∀ c ∈ zones z', a.Apart c) ∧
      ∀ p, (∃ z, Covers (zones z) p) ↔ Covers regions p := by
  refine ⟨_, initZones_exact regions hword fun z => by simpa using hlen, fun z => ?_, ?_, fun p => ?_⟩
  · rw [List.nil_append]
    refine ⟨(length_flatMap_inZone z).trans hlen, pairwise_flatMap_inZone z hapart, ?_⟩
    intro part hpart
    obtain ⟨reg, -, hin⟩ := List.mem_flatMap.mp hpart
    obtain ⟨rfl, hlt⟩ := Region.mem_inZone.mp hin
    exact ⟨hlt, le_max_right _ _, min_le_right _ _⟩
  · intro z z' hz a ha c hc p hpa hpc
    have hpz := (covers_flatMap_inZone.mp ⟨a, ha, hpa⟩).2
    have hpz' := (covers_flatMap_inZone.mp ⟨c, hc, hpc⟩).2
    rcases Zone.range_apart hz with hle | hle
    · omega
    · omega
  · simp only [List.nil_append, covers_flatMap_inZone]
    constructor
    · rintro ⟨z, hp, -⟩
      exact hp
    · rintro hp
      obtain ⟨reg, hreg, hpreg⟩ := hp
      have hend : p < highmemEnd := by
        have hlt := hword reg hreg
        have hstop := hpreg.2
        unfold highmemEnd
        omega
      obtain ⟨z, hz⟩ := Zone.exists_range hend
      exact ⟨z, ⟨reg, hreg, hpreg⟩, hz⟩

/-- A region across both borders and one that ends at the last address. -/
theorem initZones_partition_threeZones :
    ∃ zones, initZones [⟨0x100000, 0x40000000⟩, ⟨0xFF000000, 0xFFFFFFFF⟩] (fun _ => []) = .ok zones ∧
      zones .dma = [⟨0x100000, 0x1000000⟩] ∧ (zones .highmem).length = 2 ∧
      ∀ p, (∃ z, Covers (zones z) p) ↔ Covers [⟨0x100000, 0x40000000⟩, ⟨0xFF000000, 0xFFFFFFFF⟩] p := by
  have hapart : [(⟨0x100000, 0x40000000⟩ : Region), ⟨0xFF000000, 0xFFFFFFFF⟩].Pairwise
      Region.Apart := by
    refine List.pairwise_pair.mpr fun p ha hb => ?_
    obtain ⟨_, hhigh⟩ := ha
    obtain ⟨hlow, _⟩ := hb
    dsimp only at hhigh hlow
    omega
  obtain ⟨zones, hrun, -, -, hbytes⟩ := initZones_partition (by decide) hapart (by decide)
  refine ⟨zones, hrun, ?_, ?_, hbytes⟩
  · have hview : (initZones [⟨0x100000, 0x40000000⟩, ⟨0xFF000000, 0xFFFFFFFF⟩] fun _ => []).toOption.map
        (fun zones => zones .dma) = some [⟨0x100000, 0x1000000⟩] := by decide
    rw [hrun] at hview
    exact Option.some.inj hview
  · have hview : (initZones [⟨0x100000, 0x40000000⟩, ⟨0xFF000000, 0xFFFFFFFF⟩] fun _ => []).toOption.map
        (fun zones => (zones .highmem).length) = some 2 := by decide
    rw [hrun] at hview
    exact Option.some.inj hview

end Kfs.Memory
