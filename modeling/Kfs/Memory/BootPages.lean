import Kfs.Memory.BootMemory
import Kfs.Memory.BootRuns
import Kfs.Memory.BuddyRuns

/-!
# From free bytes to free pages

`page_descriptor_init` looks at the first byte of a page. The free regions are byte-granular: a region
may end inside a page, because a reserved range starts there, the memory map ends there or a boot
allocation was taken from there. The page with the end of such a region is `AVAILABLE` although only
its first bytes are free. `PageEnds` excludes this, and nothing else goes wrong: on the tables of
`boot_allocator_init` and of the runs after it no two free regions touch, so a page whose first byte
is free is free as a whole exactly when the region of that byte ends on a page boundary.
-/

namespace Kfs.Memory

open Kfs.Lib Kfs.Lib.Word32

/-! ## Separated regions -/

/-- At least one byte lies between the regions. -/
def Region.Separate (a b : Region) : Prop := a.stop < b.start ∨ b.stop < a.start

theorem Region.Separate.apart {a b : Region} (h : a.Separate b) : a.Apart b := by
  intro p ha hb
  obtain ⟨ha₁, ha₂⟩ := ha
  obtain ⟨hb₁, hb₂⟩ := hb
  rcases h with h | h
  · omega
  · omega

theorem cutRel_separate : CutRel Region.Separate where
  symm := Or.symm
  shrink hlow hhigh h := by
    rcases h with h | h
    · exact .inl (by omega)
    · exact .inr (by omega)
  remainders hlt := .inl hlt

theorem Gapped.separate {regions : List Region} (h : Gapped regions) :
    regions.Pairwise Region.Separate :=
  List.Pairwise.imp (fun {_ _} hlt => .inl hlt) h

/-! ## The free table of any map -/

section FreeTable

variable {m m' : BootMem}

/-- The free table during the free pass: its regions are not empty and do not overlap. -/
def FreeApart (m : BootMem) : Prop :=
  NonEmptyRegions (m.regions .free) ∧ (m.regions .free).Pairwise Region.Apart

/-- A piece is only added where it overlaps nothing. -/
theorem addFreePiece_apart (hm : FreeApart m) {start stop : ℕ}
    (h : addFreePiece m start stop = .ok m') : FreeApart m' := by
  unfold addFreePiece at h
  split at h
  next hcond =>
    obtain ⟨hlt, hover⟩ := hcond
    rcases addRegion_cases h with ⟨_, rfl⟩ | ⟨_, _, rfl⟩
    · exact hm
    · unfold FreeApart
      rw [BootMem.setRegions_self]
      refine ⟨fun reg hreg => ?_, List.pairwise_append.mpr
        ⟨hm.2, List.pairwise_singleton _ _, fun reg hreg new hnew p hp hpnew => ?_⟩⟩
      · rcases List.mem_append.mp hreg with hreg | hreg
        · exact hm.1 reg hreg
        · rw [List.mem_singleton.mp hreg]
          exact hlt
      · -- a common byte would have stopped `boot_allocator_range_overlaps`
        rw [List.mem_singleton.mp hnew] at hpnew
        obtain ⟨hp₁, hp₂⟩ := hp
        obtain ⟨hn₁, hn₂⟩ := hpnew
        have hnone : rangeOverlaps m start stop .free = false := by simpa using hover
        have hreg' := List.any_eq_false.mp hnone reg hreg
        simp only [Bool.not_eq_true', Bool.or_eq_false_iff, decide_eq_false_iff_not, not_le,
          not_and, not_lt] at hreg'
        dsimp only at hn₁ hn₂
        have := hreg' (by omega)
        omega
  next =>
    obtain rfl : m = m' := Except.ok.inj h
    exact hm

theorem freeLoop_apart (stop : ℕ) (table : List Region) : ∀ {cur : ℕ} {m m' : BootMem},
    FreeApart m → freeLoop stop table cur m = .ok m' → FreeApart m' := by
  induction table with
  | nil => exact fun hm h => addFreePiece_apart hm h
  | cons res table ih =>
    intro cur m m' hm h
    unfold freeLoop at h
    split at h
    · exact ih hm h
    · rw [bind_eq_ok] at h
      obtain ⟨m₁, h₁, h₂⟩ := h
      have hm₁ := addFreePiece_apart hm h₁
      dsimp only at h₂
      generalize (if res.stop > cur then res.stop else cur) = next at h₂
      split at h₂
      · obtain rfl : m₁ = m' := Except.ok.inj h₂
        exact hm₁
      · exact ih hm₁ h₂

theorem mb2MmapIter_apart (entries : List MmapEntry) : ∀ {m m' : BootMem}, FreeApart m →
    mb2MmapIter entries freeHandler true m = .ok m' → FreeApart m' := by
  induction entries with
  | nil =>
    intro m m' hm h
    obtain rfl : m = m' := Except.ok.inj h
    exact hm
  | cons entry entries ih =>
    intro m m' hm h
    unfold mb2MmapIter at h
    rw [List.foldlM_cons, bind_eq_ok] at h
    obtain ⟨m₁, h₁, h₂⟩ := h
    refine ih ?_ h₂
    split at h₁
    · obtain rfl : m = m₁ := Except.ok.inj h₁
      exact hm
    · split at h₁
      · obtain rfl : m = m₁ := Except.ok.inj h₁
        exact hm
      · exact freeLoop_apart _ _ hm h₁

/-- The two tables after the passes, for any map: gaps between the free regions, and no free byte in
the reserved table. -/
theorem initRegions_tables {b : BootInput} (h : initRegions b m = .ok m') :
    NonEmptyRegions (m'.regions .free) ∧ Gapped (m'.regions .free) ∧
      ∀ p, Covers (m'.regions .free) p → ¬ Covers (m'.regions .reserved) p := by
  obtain ⟨table, m₂, m₃, hvalid, htable, htab, hempty, hfree, hmerge, hreserved⟩ :=
    initRegions_stages h
  have hsorted : ByStart (m₂.regions .reserved) := by
    rw [htab]
    exact (sortAndMerge_reserved hvalid htable).1
  obtain ⟨added, hadded, hpieces⟩ := mb2MmapIter_free b.mmap hsorted hfree
  have hapart : FreeApart m₃ := by
    refine mb2MmapIter_apart b.mmap ?_ hfree
    unfold FreeApart
    rw [hempty]
    exact ⟨fun reg hreg => absurd hreg (by simp), List.Pairwise.nil⟩
  obtain ⟨hne, hbytes⟩ := sortAndMerge_covers hapart.1 hmerge
  refine ⟨hne, sortAndMerge_gapped hapart.1 hapart.2 hmerge, fun p hp => ?_⟩
  rw [hbytes, hadded.free, hempty, List.nil_append] at hp
  obtain ⟨reg, hreg, hpr⟩ := hp
  obtain ⟨_, _, hpiece⟩ := hpieces reg hreg
  rw [hreserved, hadded.reserved]
  exact hpiece.apart p hpr

end FreeTable

/-! ## Zones -/

/-- The zone of an address, as `boot_allocator_init_zones` picks it. -/
theorem zoneOf_eq (cur : ℕ) : zoneOf cur = (getAddrZone cur, (getAddrZone cur).stop) := by
  unfold zoneOf getAddrZone
  split
  · rfl
  · split
    · rfl
    · rfl

theorem getAddrZone_start_le (cur : ℕ) : (getAddrZone cur).start ≤ cur := by
  unfold getAddrZone
  split
  next h => exact h
  next =>
    split
    next h => exact h
    next => exact Nat.zero_le cur

/-- An address at or above the end of its zone is the last one of the address space. -/
theorem getAddrZone_stop_le {cur : ℕ} (h : (getAddrZone cur).stop ≤ cur) :
    getAddrZone cur = .highmem := by
  unfold getAddrZone at h ⊢
  split
  next => rfl
  next hlow =>
    rw [if_neg hlow] at h
    split at h
    · exact absurd h hlow
    next hdma => exact absurd h hdma

/-- From the end of the last zone the loop does not come to an end. -/
theorem zoneParts_highmemEnd {regionEnd : ℕ} (hlt : highmemEnd < regionEnd) (turns : ℕ)
    (zones : Zone → List Region) : zoneParts regionEnd turns highmemEnd zones = .error .fault := by
  induction turns with
  | zero => rfl
  | succ turns ih =>
    have hzone : zoneOf highmemEnd = (.highmem, highmemEnd) := by decide
    unfold zoneParts
    rw [if_pos hlt, hzone]
    dsimp only
    rw [if_neg (not_lt.mpr hlt.le), if_neg (lt_irrefl highmemEnd)]
    exact ih

/-- The parts of the zones that one region gives. -/
structure ZonePart (cur regionEnd : ℕ) (parts : Zone → List Region) : Prop where
  nonEmpty : ∀ z, NonEmptyRegions (parts z)
  inZone : ∀ z, ∀ reg ∈ parts z, z.start ≤ reg.start ∧ reg.stop ≤ z.stop
  inRegion : ∀ z, ∀ reg ∈ parts z, cur ≤ reg.start ∧ reg.stop ≤ regionEnd
  single : ∀ z, (parts z).length ≤ 1

/-- **The inner loop of `boot_allocator_init_zones`** appends at most one part to each zone. -/
theorem zoneParts_spec (regionEnd : ℕ) (turns : ℕ) : ∀ {cur : ℕ} {zones zones' : Zone → List Region},
    zoneParts regionEnd turns cur zones = .ok zones' →
    ∃ parts, (∀ z, zones' z = zones z ++ parts z) ∧ ZonePart cur regionEnd parts := by
  induction turns with
  | zero =>
    intro cur zones zones' h
    cases h
  | succ turns ih =>
    intro cur zones zones' h
    unfold zoneParts at h
    split at h
    next hlt =>
      rw [zoneOf_eq] at h
      dsimp only at h
      have hstart := getAddrZone_start_le cur
      generalize hzone : getAddrZone cur = zone at h hstart
      obtain ⟨subEnd, hsub, hle, hle'⟩ : ∃ subEnd,
          (if regionEnd < zone.stop then regionEnd else zone.stop) = subEnd ∧
          subEnd ≤ regionEnd ∧ subEnd ≤ zone.stop := by
        refine ⟨_, rfl, ?_⟩
        split <;> omega
      rw [hsub] at h
      split at h
      next hpos =>
        split at h
        · cases h
        · obtain ⟨parts, hparts, hspec⟩ := ih h
          -- what comes later starts above this part, so it is in other zones
          have hnone : parts zone = [] := by
            refine List.eq_nil_iff_forall_not_mem.mpr fun reg hreg => ?_
            have h₁ := hspec.nonEmpty zone reg hreg
            have h₂ := hspec.inZone zone reg hreg
            have h₃ := hspec.inRegion zone reg hreg
            split at hsub <;> omega
          refine ⟨fun z => if z = zone then [⟨cur, subEnd⟩] else parts z, fun z => ?_, ?_⟩
          · rw [hparts]
            dsimp only
            by_cases hz : z = zone
            · rw [if_pos hz, if_pos hz, hz, hnone, List.append_nil]
            · rw [if_neg hz, if_neg hz]
          · refine ⟨fun z => ?_, fun z => ?_, fun z => ?_, fun z => ?_⟩
            · split
              · simpa [NonEmptyRegions] using hpos
              · exact hspec.nonEmpty z
            · split
              next hz =>
                subst hz
                simpa using ⟨hstart, hle'⟩
              · exact hspec.inZone z
            · split
              · simpa using hle
              · intro reg hreg
                have hreg' := hspec.inRegion z reg hreg
                exact ⟨by omega, hreg'.2⟩
            · split
              · simp
              · exact hspec.single z
      next hstuck =>
        -- only the last address of the space does not lie below the end of its zone
        have hstop : zone.stop ≤ cur := by
          split at hsub <;> omega
        have hhigh : zone = .highmem := by
          rw [← hzone] at hstop ⊢
          exact getAddrZone_stop_le hstop
        have hend : subEnd = highmemEnd := by
          rw [← hsub, if_neg (by omega), hhigh]
          rfl
        have hregion : highmemEnd < regionEnd := by
          rw [hhigh] at hstop
          exact hstop.trans_lt hlt
        rw [hend, zoneParts_highmemEnd hregion] at h
        cases h
    next =>
      obtain rfl : zones = zones' := Except.ok.inj h
      exact ⟨fun _ => [], fun z => (List.append_nil _).symm, by simp [NonEmptyRegions], by simp,
        by simp, by simp⟩

/-- **`boot_allocator_init_zones`**: every part lies in its zone and in one region of the table, and
parts of separated regions are separated. -/
theorem initZones_spec (regions : List Region) : ∀ {zones zones' : Zone → List Region},
    initZones regions zones = .ok zones' → ∃ parts : Zone → List Region,
      (∀ z, zones' z = zones z ++ parts z) ∧
      (∀ z, ∀ reg ∈ parts z, reg.start < reg.stop ∧ (z.start ≤ reg.start ∧ reg.stop ≤ z.stop) ∧
        ∃ src ∈ regions, src.start ≤ reg.start ∧ reg.stop ≤ src.stop) ∧
      (regions.Pairwise Region.Separate → ∀ z, (parts z).Pairwise Region.Separate) := by
  induction regions with
  | nil =>
    intro zones zones' h
    obtain rfl : zones = zones' := Except.ok.inj h
    exact ⟨fun _ => [], fun z => (List.append_nil _).symm, by simp, by simp⟩
  | cons src regions ih =>
    intro zones zones' h
    unfold initZones at h
    rw [List.foldlM_cons, bind_eq_ok] at h
    obtain ⟨zones₁, h₁, h₂⟩ := h
    obtain ⟨first, hfirst, hspec⟩ := zoneParts_spec _ _ h₁
    obtain ⟨later, hlater, hregs, hsep⟩ := ih h₂
    refine ⟨fun z => first z ++ later z, fun z => ?_, fun z reg hreg => ?_, fun hpair z => ?_⟩
    · rw [hlater, hfirst, List.append_assoc]
    · rcases List.mem_append.mp hreg with hreg | hreg
      · exact ⟨hspec.nonEmpty z reg hreg, hspec.inZone z reg hreg, src, List.mem_cons_self,
          hspec.inRegion z reg hreg⟩
      · obtain ⟨hlt, hzone, src', hsrc', hin⟩ := hregs z reg hreg
        exact ⟨hlt, hzone, src', List.mem_cons_of_mem src hsrc', hin⟩
    · obtain ⟨hhead, htail⟩ := List.pairwise_cons.mp hpair
      refine List.pairwise_append.mpr ⟨?_, hsep htail z, fun a ha c hc => ?_⟩
      · cases hone : first z with
        | nil => exact List.Pairwise.nil
        | cons a rest =>
          have hlen := hspec.single z
          rw [hone] at hlen
          obtain rfl : rest = [] := List.length_eq_zero_iff.mp (by simpa using hlen)
          exact List.pairwise_singleton _ _
      · obtain ⟨_, _, src', hsrc', hin⟩ := hregs z c hc
        have hina := hspec.inRegion z a ha
        have hsrc := cutRel_separate.shrink hina.1 hina.2 (hhead src' hsrc')
        exact cutRel_separate.symm
          (cutRel_separate.shrink hin.1 hin.2 (cutRel_separate.symm hsrc))

theorem mergeZones_spec {zones merged : Zone → List Region} (h : mergeZones zones = .ok merged)
    (z : Zone) : sortAndMerge (zones z) = .ok (merged z) := by
  unfold mergeZones at h
  simp only [bind_eq_ok] at h
  obtain ⟨lowmem, hlowmem, dma, hdma, highmem, hhighmem, hout⟩ := h
  rw [← Except.ok.inj hout]
  cases z with
  | lowmem => exact hlowmem
  | dma => exact hdma
  | highmem => exact hhighmem

/-- The zone tables of a table of regions. -/
theorem zoneTable_spec {regions : List Region} {zones merged : Zone → List Region}
    (hinit : initZones regions (fun _ => []) = .ok zones) (hmerge : mergeZones zones = .ok merged)
    (z : Zone) : NonEmptyRegions (merged z) ∧
      (∀ reg ∈ merged z, z.start ≤ reg.start ∧ reg.stop ≤ z.stop) ∧
      (∀ p, Covers (merged z) p → Covers regions p) ∧
      (regions.Pairwise Region.Separate → (merged z).Pairwise Region.Separate) := by
  obtain ⟨parts, hparts, hregs, hsep⟩ := initZones_spec regions hinit
  have hzones : zones z = parts z := by rw [hparts, List.nil_append]
  have hone := mergeZones_spec hmerge z
  rw [hzones] at hone
  have hne : NonEmptyRegions (parts z) := fun reg hreg => (hregs z reg hreg).1
  obtain ⟨hmergedNe, hbytes⟩ := sortAndMerge_covers hne hone
  refine ⟨hmergedNe, fun reg hreg => ?_, fun p hp => ?_, fun hpair => ?_⟩
  · -- the first and the last byte of a merged region are bytes of parts
    have hlt := hmergedNe reg hreg
    obtain ⟨a, ha, hpa⟩ := (hbytes reg.start).mp ⟨reg, hreg, le_rfl, hlt⟩
    obtain ⟨c, hc, hpc⟩ := (hbytes (reg.stop - 1)).mp ⟨reg, hreg, by omega, by omega⟩
    have hza := (hregs z a ha).2.1
    have hzc := (hregs z c hc).2.1
    obtain ⟨h₁, _⟩ := hpa
    obtain ⟨_, h₂⟩ := hpc
    exact ⟨hza.1.trans h₁, by omega⟩
  · obtain ⟨reg, hreg, hpr⟩ := (hbytes p).mp hp
    obtain ⟨_, _, src, hsrc, hlow, hhigh⟩ := hregs z reg hreg
    exact ⟨src, hsrc, hlow.trans hpr.1, hpr.2.trans_le hhigh⟩
  · have hapart := (hsep hpair z).imp fun {a c} => Region.Separate.apart
    exact (sortAndMerge_gapped hne hapart hone).separate

/-- The byte is in a reserved region of some zone. -/
def BootMem.ResByte (m : BootMem) (p : ℕ) : Prop := ∃ z, Covers (m.resZones z) p

/-- **The zone tables that `boot_allocator_init` leaves**, for any map. -/
theorem bootAllocatorInit_zones {b : BootInput} {m : BootMem}
    (h : bootAllocatorInit b .zero = .ok m) : ZoneTables Region.Separate m ∧
      (∀ p, m.FreeByte p → Covers (m.regions .free) p) ∧ ∀ p, m.FreeByte p → ¬ m.ResByte p := by
  obtain ⟨m₁, hinit, hfree, hres, fz, rz, hfz, hrz, hmergeF, hmergeR⟩ := bootAllocatorInit_stages h
  obtain ⟨_, hgapped, hapart⟩ := initRegions_tables hinit
  rw [← hfree] at hgapped hapart
  rw [← hres] at hapart
  have hF := zoneTable_spec hfz hmergeF
  have hR := zoneTable_spec hrz hmergeR
  have hfreeBytes : ∀ p, m.FreeByte p → Covers (m.regions .free) p :=
    fun p ⟨z, hz⟩ => (hF z).2.2.1 p hz
  refine ⟨⟨fun z => (hF z).1, fun z => (hF z).2.2.2 hgapped.separate, fun z => (hF z).2.1,
    fun z => (hR z).1⟩, hfreeBytes, ?_⟩
  rintro p hp ⟨z, hz⟩
  exact hapart p (hfreeBytes p hp) ((hR z).2.2.1 p hz)

/-! ## Runs after the initialisation -/

section Runs

variable {m₀ : BootMem} {r : BootRun}

/-- A free byte of a run is not reserved, and it was free at the start. -/
theorem freeByte_of_reachable (hm₀ : ZoneTables Region.Separate m₀)
    (hdis : ∀ p, m₀.FreeByte p → ¬ m₀.ResByte p) (hr : (bootSystem m₀).Reachable r) :
    ∀ p, r.mem.FreeByte p → ¬ r.mem.ResByte p ∧ m₀.FreeByte p := by
  have hall : ZoneTables Region.Separate r.mem ∧
      ∀ p, r.mem.FreeByte p → ¬ r.mem.ResByte p ∧ m₀.FreeByte p := by
    apply hr.invariant
    · rintro r₀ ⟨rfl, -⟩
      exact ⟨hm₀, fun p hp => ⟨hdis p hp, hp⟩⟩
    · rintro r₁ call r₂ ⟨htables, hfree⟩ ⟨hwrap, ret, m', hrun, rfl⟩
      rcases bootStep_spec htables hwrap hrun with ⟨-, rfl⟩ | halloc
      · exact ⟨htables, hfree⟩
      · refine ⟨halloc.zoneTables cutRel_separate htables, fun p hp => ?_⟩
        have hapart := htables.apart fun a c => Region.Separate.apart
        obtain ⟨hold, hout⟩ := (halloc.freeByte hapart p).mp hp
        obtain ⟨hnot, hstart⟩ := hfree p hold
        refine ⟨?_, hstart⟩
        -- the reserved bytes have grown by the block only
        rintro ⟨z, hz⟩
        by_cases heq : z = call.zone
        · rw [heq, halloc.reserved] at hz
          rcases hz with hz | hz
          · exact hnot ⟨call.zone, hz⟩
          · exact hout hz
        · rw [(halloc.others z heq).2] at hz
          exact hnot ⟨z, hz⟩
  exact hall.2

end Runs

/-! ## Pages -/

section Pages

variable {m : BootMem}

theorem pageAddrIsInReg_iff {regions : List Region} {addr : ℕ} :
    pageAddrIsInReg regions addr = true ↔ Covers regions addr := by
  simp [pageAddrIsInReg, Covers, Region.Has]

/-- A page is `AVAILABLE` exactly if its first byte is free. -/
theorem available_iff (hdis : ∀ p, m.FreeByte p → ¬ m.ResByte p) {i : ℕ} (hi : i < maxPages) :
    pageGetState (pageDescriptorInit m.freeZones m.resZones i) = pageStateAvailable ↔
      m.FreeByte (i * 4096) := by
  rw [(pageDescriptorInit_flags _ _ i).1, pageToPhys_eq hi]
  unfold pageGetStateFlag
  constructor
  · intro h
    cases hfind : Zone.all.findSome? _ with
    | none =>
      rw [hfind] at h
      exact absurd h (by decide)
    | some st =>
      obtain ⟨z, -, hz⟩ := List.exists_of_findSome?_eq_some hfind
      rw [hfind] at h
      split at hz
      next hin => exact ⟨z, pageAddrIsInReg_iff.mp hin⟩
      next =>
        split at hz
        · obtain rfl := Option.some.inj hz
          exact absurd h (by decide)
        · cases hz
  · rintro ⟨z, hz⟩
    -- no zone before `z` claims the address: none has it reserved
    have hres : ∀ z', pageAddrIsInReg (m.resZones z') (i * 4096) = false := by
      intro z'
      by_contra hc
      rw [Bool.not_eq_false, pageAddrIsInReg_iff] at hc
      exact hdis _ ⟨z, hz⟩ ⟨z', hc⟩
    have hin := pageAddrIsInReg_iff.mpr hz
    simp only [hres, Bool.false_eq_true, if_false]
    cases hfind : Zone.all.findSome? _ with
    | none =>
      have hz' := List.findSome?_eq_none_iff.mp hfind z (Zone.mem_all z)
      rw [if_pos hin] at hz'
      cases hz'
    | some st =>
      obtain ⟨z', -, hz'⟩ := List.exists_of_findSome?_eq_some hfind
      split at hz'
      · exact (Option.some.inj hz').symm
      · cases hz'

end Pages

end Kfs.Memory
