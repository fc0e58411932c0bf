import Kfs.Lib.Outcome
import Kfs.Memory.BootExact
import Kfs.Memory.BootPages

/-!
# The holes between the regions

`boot_allocator_fill_gaps_as_holes` sorts the two tables together by start and takes what lies
between the end of an entry and the start of the next for a hole. Every address that no region has
becomes part of a hole, but the holes of a table with nested regions need not be holes: between the
end of a nested region and the next start lies memory of the region around it. `GapsOpen` says that
this does not happen.

A region with `end = 0` reaches to the end of the address space.
-/

namespace Kfs.Memory

open Kfs.Lib

/-! ## What regions describe -/

/-- Where a region ends. -/
def Region.top (reg : Region) : ℕ := if reg.stop = 0 then 2 ^ 32 else reg.stop

/-- The addresses that a region describes. -/
def Region.Spans (reg : Region) (p : ℕ) : Prop := reg.start ≤ p ∧ p < reg.top

instance (reg : Region) (p : ℕ) : Decidable (reg.Spans p) := inferInstanceAs (Decidable (_ ∧ _))

/-- The regions of the two tables, in the order of `boot_allocator_get_all_regions`. -/
def BootMem.memoryRegions (m : BootMem) : List Region := m.regions .free ++ m.regions .reserved

/-- No hole has an address of a region of memory, and every address from the lowest start of such a
region up to the highest end belongs to a region or a hole. -/
structure HolesReal (m : BootMem) : Prop where
  disjoint : ∀ hole ∈ m.regions .holes, ∀ reg ∈ m.memoryRegions, ∀ p, hole.Spans p → ¬ reg.Spans p
  covered : ∀ p, (∃ reg ∈ m.memoryRegions, reg.start ≤ p) → (∃ reg ∈ m.memoryRegions, p < reg.top) →
    ∃ reg ∈ getAllRegions m, reg.Spans p

/-- Where an entry of the table in the order of starts ends below the start of the next, no entry up
to there reaches further than it. -/
def GapsOpen (regions : List Region) : Prop :=
  ∀ front reg next rest, sortRegions regions = front ++ reg :: next :: rest →
    reg.stop < next.start → ∀ r ∈ front ++ [reg], r.top ≤ reg.stop

theorem Region.top_of_ne {reg : Region} (h : reg.stop ≠ 0) : reg.top = reg.stop := if_neg h

/-! ## Gaps of a list -/

/-- The gaps between neighbours. -/
def gaps : List Region → List Region
  | reg :: next :: rest =>
    (if reg.stop < next.start then [⟨reg.stop, next.start⟩] else []) ++ gaps (next :: rest)
  | _ => []

section Gaps

variable {regions : List Region} {gap : Region}

theorem mem_gaps : gap ∈ gaps regions ↔ ∃ front reg next rest,
    regions = front ++ reg :: next :: rest ∧ reg.stop < next.start ∧
      gap = ⟨reg.stop, next.start⟩ := by
  induction regions with
  | nil =>
    simp [gaps]
  | cons reg regions ih =>
    cases regions with
    | nil =>
      simp only [gaps, List.not_mem_nil, false_iff]
      rintro ⟨front, a, c, rest, heq, -⟩
      have hlen := congrArg List.length heq
      simp only [List.length_append, List.length_cons, List.length_nil] at hlen
      omega
    | cons next rest =>
      rw [gaps, List.mem_append, ih]
      constructor
      · rintro (hgap | ⟨front, a, c, rest', heq, hlt, rfl⟩)
        · split at hgap
          next hlt => exact ⟨[], reg, next, rest, rfl, hlt, List.mem_singleton.mp hgap⟩
          next => exact absurd hgap List.not_mem_nil
        · exact ⟨reg :: front, a, c, rest', congrArg (reg :: ·) heq, hlt, rfl⟩
      · rintro ⟨front, a, c, rest', heq, hlt, rfl⟩
        cases front with
        | nil =>
          obtain ⟨rfl, htail⟩ := List.cons.inj heq
          obtain ⟨rfl, rfl⟩ := List.cons.inj htail
          exact .inl (by rw [if_pos hlt]; exact List.mem_singleton.mpr rfl)
        | cons first front =>
          exact .inr ⟨front, a, c, rest', (List.cons.inj heq).2, hlt, rfl⟩

/-- The gaps look at the first region only for its end. -/
theorem gaps_congr {a c : Region} (h : a.stop = c.stop) (rest : List Region) :
    gaps (a :: rest) = gaps (c :: rest) := by
  cases rest with
  | nil => rfl
  | cons next rest => rw [gaps, gaps, h]

/-- Merging starts where the first region starts. -/
theorem mergeLoop_head (rest : List Region) : ∀ cur : Region,
    ∃ first tail, mergeLoop cur rest = first :: tail ∧ first.start = cur.start := by
  induction rest with
  | nil => exact fun cur => ⟨cur, [], rfl, rfl⟩
  | cons next rest ih =>
    intro cur
    unfold mergeLoop
    split
    · obtain ⟨first, tail, heq, hstart⟩ := ih { cur with stop := next.stop }
      exact ⟨first, tail, heq, hstart⟩
    · exact ⟨cur, _, rfl, rfl⟩

/-- Merging closes seams and no gaps. -/
theorem gaps_mergeLoop (rest : List Region) : ∀ cur : Region,
    gaps (mergeLoop cur rest) = gaps (cur :: rest) := by
  induction rest with
  | nil => exact fun cur => rfl
  | cons next rest ih =>
    intro cur
    unfold mergeLoop
    split
    next htouch =>
      rw [ih, gaps, if_neg (by omega), List.nil_append]
      exact gaps_congr (by rfl) rest
    next =>
      obtain ⟨first, tail, heq, hstart⟩ := mergeLoop_head rest next
      rw [heq, gaps, gaps, hstart, ← heq, ih]

theorem gaps_nonEmpty (regions : List Region) : NonEmptyRegions (gaps regions) := by
  intro gap hgap
  obtain ⟨_, _, _, _, _, hlt, rfl⟩ := mem_gaps.mp hgap
  exact hlt

end Gaps

/-! ## The tables before the holes -/

/-- No table is longer than its array. -/
def BootMem.TablesFit (m : BootMem) : Prop := ∀ type, (m.regions type).length ≤ maxRegions

/-- The tables before `boot_allocator_fill_gaps_as_holes`: no table is longer than its array, and
there are no holes. -/
structure TablesReady (m : BootMem) : Prop where
  fit : m.TablesFit
  noHoles : m.regions .holes = []

section Ready

variable {b : BootInput} {m m' : BootMem}

theorem BootMem.TablesFit.setRegions (h : m.TablesFit) {type : MemType} {regions : List Region}
    (hlen : regions.length ≤ maxRegions) : (m.setRegions type regions).TablesFit := by
  intro t
  by_cases ht : t = type
  · rw [ht, BootMem.setRegions_self]
    exact hlen
  · rw [BootMem.setRegions_of_ne _ _ ht]
    exact h t

theorem TablesReady.setRegions (h : TablesReady m) {type : MemType} (htype : type ≠ .holes)
    {regions : List Region} (hlen : regions.length ≤ maxRegions) :
    TablesReady (m.setRegions type regions) where
  fit := h.fit.setRegions hlen
  noHoles := by
    rw [BootMem.setRegions_of_ne _ _ htype.symm]
    exact h.noHoles

theorem addRegion_ready (h : TablesReady m) {type : MemType} (htype : type ≠ .holes)
    (start stop : ℕ) : Meets (addRegion m start stop type) TablesReady fun _ => True := by
  unfold addRegion
  split
  · trivial
  · split
    · exact h
    · split
      · trivial
      next hlen =>
        refine h.setRegions htype ?_
        rw [List.length_append, List.length_singleton]
        omega

theorem addFreePiece_ready (h : TablesReady m) (start stop : ℕ) :
    Meets (addFreePiece m start stop) TablesReady fun _ => True := by
  unfold addFreePiece
  split
  · exact addRegion_ready h (by simp) _ _
  · exact h

theorem freeLoop_ready (stop : ℕ) (table : List Region) : ∀ {cur : ℕ} {m : BootMem},
    TablesReady m → Meets (freeLoop stop table cur m) TablesReady fun _ => True := by
  induction table with
  | nil => exact fun h => addFreePiece_ready h _ _
  | cons res table ih =>
    intro cur m h
    unfold freeLoop
    split
    · exact ih h
    · refine (addFreePiece_ready h _ _).bind fun m₁ h₁ => ?_
      dsimp only
      generalize (if res.stop > cur then res.stop else cur) = next
      split
      · exact h₁
      · exact ih h₁

theorem mb2MmapIter_ready {handler : BootMem → ℕ → ℕ → Kern BootMem} (entries : List MmapEntry)
    (free : Bool)
    (hhandler : ∀ m start stop, TablesReady m → Meets (handler m start stop) TablesReady fun _ => True)
    (h : TablesReady m) : Meets (mb2MmapIter entries handler free m) TablesReady fun _ => True := by
  unfold mb2MmapIter
  refine Meets.foldlM (fun m' entry _ h' => ?_) h
  split
  · exact h'
  · split
    · exact h'
    · exact hhandler m' _ _ h'

theorem reserveFixed_ready (h : TablesReady m) :
    Meets (reserveFixed b m) TablesReady fun _ => True := by
  have hadd : ∀ {m : BootMem} (start stop : ℕ), TablesReady m →
      Meets (addRegion m start stop .reserved) TablesReady fun _ => True :=
    fun start stop h => addRegion_ready h (by simp) start stop
  have hphys : ∀ vAddr, Meets (virtToPhysChecked vAddr) (fun _ => True) fun _ => True := by
    intro vAddr
    unfold virtToPhysChecked
    split
    · trivial
    · trivial
  unfold reserveFixed
  refine (hadd _ _ h).bind fun m₁ h₁ => ?_
  refine (hphys _).bind fun gdtStart _ => (hphys _).bind fun gdtEnd _ => ?_
  refine (hadd _ _ h₁).bind fun m₂ h₂ => ?_
  refine (hphys _).bind fun idtStart _ => (hphys _).bind fun idtEnd _ => ?_
  refine (hadd _ _ h₂).bind fun m₃ h₃ => ?_
  refine (hadd _ _ h₃).bind fun m₄ h₄ => ?_
  refine (hadd _ _ h₄).bind fun m₅ h₅ => ?_
  refine (hphys _).bind fun kernelStart _ => (hphys _).bind fun kernelEnd _ => ?_
  exact (hadd _ _ h₅).bind fun m₆ h₆ => hadd _ _ h₆

theorem sortAndMerge_fits {regions : List Region} (hlen : regions.length ≤ maxRegions) :
    Meets (sortAndMerge regions) (fun merged => merged.length ≤ maxRegions) fun _ => True := by
  obtain ⟨merged, hmerged, hle⟩ := sortAndMerge_ok hlen
  rw [hmerged]
  exact hle.trans hlen

/-- `boot_allocator_init` up to the merge of the reserved table. -/
def reservedPass (b : BootInput) (m : BootMem) : Kern BootMem := do
  let m ← reserveFixed b { m with allocations := [], regions := fun _ => [] }
  mb2MmapIter b.mmap reservedWrapper false m

/-- `boot_allocator_init` up to the merge of the free table. -/
def freePass (b : BootInput) (m : BootMem) : Kern BootMem := do
  let m ← reservedPass b m
  let reserved ← sortAndMerge (m.regions .reserved)
  mb2MmapIter b.mmap freeHandler true (m.setRegions .reserved reserved)

theorem initRegions_eq_freePass (b : BootInput) (m : BootMem) : initRegions b m = (do
    let m ← freePass b m
    let free ← sortAndMerge (m.regions .free)
    .ok (m.setRegions .free free)) := by
  simp only [initRegions, freePass, reservedPass, bind_assoc]

theorem reservedPass_ready (b : BootInput) (m : BootMem) :
    Meets (reservedPass b m) TablesReady fun _ => True := by
  unfold reservedPass
  refine (reserveFixed_ready ⟨fun _ => Nat.zero_le _, rfl⟩).bind fun m₁ h₁ => ?_
  exact mb2MmapIter_ready b.mmap false (fun m' start stop h' => addRegion_ready h' (by simp) _ _) h₁

theorem freePass_ready (b : BootInput) (m : BootMem) :
    Meets (freePass b m) TablesReady fun _ => True := by
  unfold freePass
  refine (reservedPass_ready b m).bind fun m₁ h₁ => ?_
  refine (sortAndMerge_fits (h₁.fit .reserved)).bind fun reserved hreserved => ?_
  apply mb2MmapIter_ready b.mmap true
  · exact fun m' start stop h' => freeLoop_ready _ _ h'
  · exact h₁.setRegions (by simp) hreserved

theorem initRegions_ready (h : initRegions b m = .ok m') : TablesReady m' := by
  have hall : Meets (initRegions b m) TablesReady fun _ => True := by
    rw [initRegions_eq_freePass]
    refine (freePass_ready b m).bind fun m₁ h₁ => ?_
    exact (sortAndMerge_fits (h₁.fit .free)).bind fun free hfree => h₁.setRegions (by simp) hfree
  exact hall.result h

/-- Merging keeps what `boot_allocator_add_region` has checked. -/
theorem mergeLoop_valid (rest : List Region) : ∀ {cur : Region},
    ByStart (cur :: rest) → (∀ reg ∈ cur :: rest, reg.Valid) →
    ∀ out ∈ mergeLoop cur rest, out.Valid := by
  induction rest with
  | nil => exact fun _ hvalid out hout => hvalid out hout
  | cons next rest ih =>
    intro cur hsorted hvalid out hout
    have htail : ByStart (next :: rest) := (List.pairwise_cons.mp hsorted).2
    have hnext := hvalid next (by simp)
    unfold mergeLoop at hout
    split at hout
    next htouch =>
      have hle : cur.start ≤ next.start := (List.pairwise_cons.mp hsorted).1 next (by simp)
      refine @ih { cur with stop := next.stop } ?_ ?_ out hout
      · refine List.pairwise_cons.mpr ⟨fun r hr => ?_, (List.pairwise_cons.mp htail).2⟩
        exact (List.pairwise_cons.mp hsorted).1 r (List.mem_cons_of_mem next hr)
      · intro reg hreg
        rcases List.mem_cons.mp hreg with rfl | hreg
        · exact hnext.imp (fun hlt => hle.trans_lt hlt) id
        · exact hvalid reg (by simp [hreg])
    next =>
      rcases List.mem_cons.mp hout with rfl | hout
      · exact hvalid out List.mem_cons_self
      · exact ih htail (fun reg hreg => hvalid reg (List.mem_cons_of_mem cur hreg)) out hout

/-- **The regions that the two passes leave**: none is empty, and one starts at address 0. -/
theorem initRegions_memory (h : initRegions b m = .ok m') :
    (∀ reg ∈ m'.memoryRegions, reg.Valid) ∧ ∃ reg ∈ m'.memoryRegions, reg.start = 0 := by
  obtain ⟨table, m₂, m₃, hvalid, htable, htab, hempty, hfree, hmerge, hreserved⟩ :=
    initRegions_stages h
  have hsorted : ByStart (m₂.regions .reserved) := by
    rw [htab]
    exact (sortAndMerge_reserved hvalid htable).1
  obtain ⟨added, hadded, -⟩ := mb2MmapIter_free b.mmap hsorted hfree
  have hres : m'.regions .reserved = table := by rw [hreserved, hadded.reserved, htab]
  have hlow : (⟨0, 0x1000⟩ : Region) ∈ b.reservedRegions := by
    refine List.mem_filter.mpr ⟨List.mem_map.mpr ⟨⟨0x0, 0x1000⟩, ?_, rfl⟩, by simp⟩
    simp [BootInput.reserved, BootInput.fixedRanges]
  rcases sortAndMerge_eq htable with ⟨hnil, -⟩ | ⟨cur, rest, hs, rfl⟩
  · rw [hnil] at hlow
    exact absurd hlow List.not_mem_nil
  have hmem : ∀ reg, reg ∈ cur :: rest ↔ reg ∈ b.reservedRegions := fun reg =>
    hs ▸ (sortRegions_perm b.reservedRegions).mem_iff
  have hbystart : ByStart (cur :: rest) := hs ▸ sortRegions_byStart b.reservedRegions
  refine ⟨fun reg hreg => ?_, ?_⟩
  · rcases List.mem_append.mp hreg with hreg | hreg
    · exact .inl ((initRegions_tables h).1 reg hreg)
    · rw [hres] at hreg
      exact mergeLoop_valid rest hbystart (fun r hr => hvalid r ((hmem r).mp hr)) reg hreg
  · -- the first region starts at or below the first page
    obtain ⟨first, tail, heq, hstart⟩ := mergeLoop_head rest cur
    have hzero : cur.start = 0 := by
      rcases List.mem_cons.mp ((hmem _).mpr hlow) with hhead | htail
      · rw [← hhead]
      · exact Nat.le_zero.mp ((List.pairwise_cons.mp hbystart).1 _ htail)
    refine ⟨first, List.mem_append_right _ ?_, hstart.trans hzero⟩
    rw [hres, heq]
    exact List.mem_cons_self

end Ready

/-! ## The holes -/

section Holes

variable {b : BootInput} {m m' : BootMem}

/-- The loop over the neighbours adds the gaps. -/
theorem fillGaps_holes (all : List Region) : ∀ {m m' : BootMem}, fillGaps all m = .ok m' →
    m'.regions .holes = m.regions .holes ++ gaps all := by
  induction all with
  | nil =>
    intro m m' h
    rw [← Except.ok.inj h]
    exact (List.append_nil _).symm
  | cons reg rest ih =>
    intro m m' h
    cases rest with
    | nil =>
      rw [← Except.ok.inj h]
      exact (List.append_nil _).symm
    | cons next rest =>
      unfold fillGaps at h
      rw [bind_eq_ok] at h
      obtain ⟨m₁, h₁, h₂⟩ := h
      rw [ih h₂, gaps, ← List.append_assoc]
      congr 1
      unfold fillGap at h₁
      split at h₁
      next hlt =>
        rcases addRegion_cases h₁ with ⟨heq, -⟩ | ⟨-, -, rfl⟩
        · exact absurd heq hlt.ne
        · rw [if_pos hlt, BootMem.setRegions_self]
      next hle =>
        rw [← Except.ok.inj h₁, if_neg hle, List.append_nil]

/-- **`boot_allocator_fill_gaps_as_holes`**: the holes have exactly the addresses of the gaps between
neighbours in the order of starts. -/
theorem fillGapsAsHoles_holes (hready : TablesReady m) (h : fillGapsAsHoles m = .ok m') :
    NonEmptyRegions (m'.regions .holes) ∧
      ∀ p, Covers (m'.regions .holes) p ↔ Covers (gaps (sortRegions m.memoryRegions)) p := by
  have htake : (getAllRegions m).take ((m.regions .reserved).length + (m.regions .free).length) =
      m.memoryRegions := by
    have hlen : (m.regions .reserved).length + (m.regions .free).length =
        m.memoryRegions.length := by
      rw [BootMem.memoryRegions, List.length_append, Nat.add_comm]
    rw [hlen]
    exact List.take_left
  unfold fillGapsAsHoles at h
  rw [htake] at h
  split at h
  next hzero =>
    -- there are no regions at all
    obtain rfl : m = m' := Except.ok.inj h
    have hnil : m.memoryRegions = [] := by
      apply List.length_eq_zero_iff.mp
      rw [BootMem.memoryRegions, List.length_append]
      omega
    rw [hready.noHoles, hnil]
    exact ⟨fun reg hreg => absurd hreg List.not_mem_nil, fun p => Iff.rfl⟩
  next =>
    simp only [bind_eq_ok] at h
    obtain ⟨all, hall, m₁, hgaps, holes, hmerge, hout⟩ := h
    have hholes : m₁.regions .holes = gaps (sortRegions m.memoryRegions) := by
      rw [fillGaps_holes all hgaps, hready.noHoles, List.nil_append]
      rcases sortAndMerge_eq hall with ⟨hnil, rfl⟩ | ⟨cur, rest, hs, rfl⟩
      · rw [hnil]
        rfl
      · rw [gaps_mergeLoop, hs]
    rw [hholes] at hmerge
    rw [← Except.ok.inj hout, BootMem.setRegions_self]
    exact sortAndMerge_covers (gaps_nonEmpty _) hmerge

/-- The neighbour after which an address without a region lies. -/
theorem exists_gap {regions : List Region} {p : ℕ} (hsorted : ByStart regions)
    (hnone : ∀ reg ∈ regions, ¬ reg.Spans p) (hlow : ∃ reg ∈ regions, reg.start ≤ p)
    (hhigh : ∃ reg ∈ regions, p < reg.top) : Covers (gaps regions) p := by
  induction regions with
  | nil =>
    obtain ⟨reg, hreg, -⟩ := hlow
    exact absurd hreg List.not_mem_nil
  | cons reg regions ih =>
    obtain ⟨hhead, htail⟩ := List.pairwise_cons.mp hsorted
    have hstart : reg.start ≤ p := by
      obtain ⟨r, hr, hle⟩ := hlow
      rcases List.mem_cons.mp hr with rfl | hr
      · exact hle
      · exact (hhead r hr).trans hle
    -- the first region ends at or below the address, so a later one reaches above it
    have htop : reg.top ≤ p := not_lt.mp fun hlt => hnone reg List.mem_cons_self ⟨hstart, hlt⟩
    have hlater : ∃ r ∈ regions, p < r.top := by
      obtain ⟨r, hr, hlt⟩ := hhigh
      rcases List.mem_cons.mp hr with rfl | hr
      · exact absurd htop (not_le.mpr hlt)
      · exact ⟨r, hr, hlt⟩
    cases regions with
    | nil =>
      obtain ⟨r, hr, -⟩ := hlater
      exact absurd hr List.not_mem_nil
    | cons next rest =>
      rw [gaps, covers_append]
      by_cases hnext : next.start ≤ p
      · refine .inr (ih htail (fun r hr => hnone r (List.mem_cons_of_mem reg hr)) ?_ hlater)
        exact ⟨next, List.mem_cons_self, hnext⟩
      · have hstop : reg.stop ≤ p := by
          unfold Region.top at htop
          split at htop
          next hzero => omega
          next => exact htop
        refine .inl ?_
        rw [if_pos (by omega)]
        exact ⟨_, List.mem_singleton.mpr rfl, hstop, not_le.mp hnext⟩

/-- An address of a region below its neighbour's gap is the end of an earlier region. -/
theorem gap_apart_iff {regions : List Region} (hsorted : ByStart regions)
    (hvalid : ∀ reg ∈ regions, reg.Valid) (hzero : ∃ reg ∈ regions, reg.start = 0)
    {front rest : List Region} {reg next : Region} (heq : regions = front ++ reg :: next :: rest)
    (hlt : reg.stop < next.start) :
    (∀ r ∈ front ++ [reg], r.top ≤ reg.stop) ↔
      ∀ r ∈ regions, ∀ p, reg.stop ≤ p → p < next.start → ¬ r.Spans p := by
  have hsplit : regions = (front ++ [reg]) ++ next :: rest := by
    rw [heq, List.append_assoc, List.singleton_append]
  have hpair := List.pairwise_append.mp (hsplit ▸ hsorted)
  constructor
  · intro hopen r hr p hlow hhigh hspan
    rcases List.mem_append.mp (hsplit ▸ hr) with hr | hr
    · exact absurd (hspan.2.trans_le (hopen r hr)) (not_lt.mpr hlow)
    · -- the next region and those after it start above the gap
      have hle : next.start ≤ r.start := by
        rcases List.mem_cons.mp hr with rfl | hr
        · exact le_rfl
        · exact (List.pairwise_cons.mp hpair.2.1).1 r hr
      exact absurd (hle.trans hspan.1) (not_le.mpr hhigh)
  · intro hnone r hr
    by_contra htop
    have hrmem : r ∈ regions := hsplit ▸ List.mem_append_left _ hr
    have hregmem : reg ∈ regions := by
      rw [heq]
      simp
    rcases hvalid reg hregmem with hpos | hstop
    · -- the address right after the region belongs to the one that reaches further
      refine hnone r hrmem reg.stop le_rfl hlt ⟨?_, not_le.mp htop⟩
      refine le_trans ?_ hpos.le
      rcases List.mem_append.mp hr with hr | hr
      · exact (List.pairwise_append.mp hpair.1).2.2 r hr reg (List.mem_singleton.mpr rfl)
      · rw [List.mem_singleton.mp hr]
    · -- the region ends at `2 ^ 32`, and the gap below the next one begins at 0
      obtain ⟨low, hlow, hstart⟩ := hzero
      refine hnone low hlow 0 hstop.le (by omega) ⟨hstart.le, ?_⟩
      unfold Region.top
      split
      · norm_num
      · omega

end Holes

/-- **When holes are holes.** After the two passes over any memory map, the holes that
`boot_allocator_fill_gaps_as_holes` finds are apart from all regions and complete their cover exactly
if no region reaches beyond a later one that a gap follows. -/
theorem holes_real_iff {b : BootInput} {m₀ m m' : BootMem} (hinit : initRegions b m₀ = .ok m)
    (h : fillGapsAsHoles m = .ok m') : HolesReal m' ↔ GapsOpen m.memoryRegions := by
  obtain ⟨hne, hbytes⟩ := fillGapsAsHoles_holes (initRegions_ready hinit) h
  obtain ⟨hvalid, hzero⟩ := initRegions_memory hinit
  have hsame : m'.memoryRegions = m.memoryRegions := by
    unfold BootMem.memoryRegions
    rw [fillGapsAsHoles_of_ne (by simp) h, fillGapsAsHoles_of_ne (by simp) h]
  have hall : getAllRegions m' = m.memoryRegions ++ m'.regions .holes := by
    rw [← hsame]
    rfl
  generalize hsort : sortRegions m.memoryRegions = sorted at hbytes
  have hperm : ∀ reg, reg ∈ sorted ↔ reg ∈ m.memoryRegions := fun reg =>
    hsort ▸ (sortRegions_perm m.memoryRegions).mem_iff
  have hsorted : ByStart sorted := hsort ▸ sortRegions_byStart m.memoryRegions
  have hvalid' : ∀ reg ∈ sorted, reg.Valid := fun reg hreg => hvalid reg ((hperm reg).mp hreg)
  have hzero' : ∃ reg ∈ sorted, reg.start = 0 := by
    obtain ⟨reg, hreg, hstart⟩ := hzero
    exact ⟨reg, (hperm reg).mpr hreg, hstart⟩
  -- a hole ends above 0
  have hspan : ∀ hole ∈ m'.regions .holes, ∀ p, hole.Spans p ↔ hole.Has p := by
    intro hole hhole p
    have hlt := hne hole hhole
    unfold Region.Spans Region.Has
    rw [Region.top_of_ne (by omega)]
  constructor
  · intro hreal front reg next rest heq hlt
    rw [hsort] at heq
    refine (gap_apart_iff hsorted hvalid' hzero' heq hlt).mpr fun r hr p hlow hhigh hp => ?_
    obtain ⟨hole, hhole, hpole⟩ := (hbytes p).mpr
      ⟨_, mem_gaps.mpr ⟨front, reg, next, rest, heq, hlt, rfl⟩, hlow, hhigh⟩
    refine hreal.disjoint hole hhole r ?_ p ((hspan hole hhole p).mpr hpole) hp
    rw [hsame]
    exact (hperm r).mp hr
  · intro hopen
    refine ⟨fun hole hhole reg hreg p hpole hp => ?_, fun p _ hhigh => ?_⟩
    · obtain ⟨gap, hgap, hpgap⟩ :=
        (hbytes p).mp ⟨hole, hhole, (hspan hole hhole p).mp hpole⟩
      obtain ⟨front, a, next, rest, heq, hlt, rfl⟩ := mem_gaps.mp hgap
      have hnone := (gap_apart_iff hsorted hvalid' hzero' heq hlt).mp
        (hopen front a next rest (hsort.trans heq) hlt)
      rw [hsame] at hreg
      exact hnone reg ((hperm reg).mpr hreg) p hpgap.1 hpgap.2 hp
    · by_cases hin : ∃ reg ∈ sorted, reg.Spans p
      · obtain ⟨reg, hreg, hp⟩ := hin
        refine ⟨reg, ?_, hp⟩
        rw [hall]
        exact List.mem_append_left _ ((hperm reg).mp hreg)
      · -- the address lies in a gap, and that is part of a hole
        have hreach : ∃ reg ∈ sorted, p < reg.top := by
          obtain ⟨reg, hreg, hlt⟩ := hhigh
          rw [hsame] at hreg
          exact ⟨reg, (hperm reg).mpr hreg, hlt⟩
        obtain ⟨low, hlow, hstart⟩ := hzero'
        obtain ⟨hole, hhole, hp⟩ := (hbytes p).mpr (exists_gap hsorted
          (fun reg hreg hp => hin ⟨reg, hreg, hp⟩) ⟨low, hlow, by omega⟩ hreach)
        refine ⟨hole, ?_, (hspan hole hhole p).mpr hp⟩
        rw [hall]
        exact List.mem_append_right _ hhole

/-! ## Two machines -/

/-- The condition of `GapsOpen` on a sorted table, from left to right; `reach` is how far the entries
before reach. -/
def openFrom : ℕ → List Region → Bool
  | reach, reg :: next :: rest =>
    (decide (next.start ≤ reg.stop) || decide (max reach reg.top ≤ reg.stop)) &&
      openFrom (max reach reg.top) (next :: rest)
  | _, _ => true

theorem openFrom_iff (regions : List Region) : ∀ {reach : ℕ}, openFrom reach regions = true ↔
    ∀ front reg next rest, regions = front ++ reg :: next :: rest → reg.stop < next.start →
      reach ≤ reg.stop ∧ ∀ r ∈ front ++ [reg], r.top ≤ reg.stop := by
  induction regions with
  | nil =>
    intro reach
    simp [openFrom]
  | cons first regions ih =>
    intro reach
    cases regions with
    | nil =>
      simp only [openFrom, true_iff]
      intro front a c rest heq
      have hlen := congrArg List.length heq
      simp only [List.length_append, List.length_cons, List.length_nil] at hlen
      omega
    | cons second regions =>
      simp only [openFrom, Bool.and_eq_true, Bool.or_eq_true, decide_eq_true_eq, ih]
      constructor
      · rintro ⟨hfirst, hlater⟩ front a c rest heq hlt
        cases front with
        | nil =>
          obtain ⟨rfl, htail⟩ := List.cons.inj heq
          obtain ⟨rfl, rfl⟩ := List.cons.inj htail
          have hmax := hfirst.resolve_left (not_le.mpr hlt)
          refine ⟨(le_max_left _ _).trans hmax, fun r hr => ?_⟩
          rw [List.mem_singleton.mp hr]
          exact (le_max_right _ _).trans hmax
        | cons b front =>
          obtain ⟨rfl, htail⟩ := List.cons.inj heq
          obtain ⟨hreach, hfront⟩ := hlater front a c rest htail hlt
          refine ⟨(le_max_left _ _).trans hreach, fun r hr => ?_⟩
          rcases List.mem_cons.mp hr with rfl | hr
          · exact (le_max_right _ _).trans hreach
          · exact hfront r hr
      · intro hall
        constructor
        · by_cases hle : second.start ≤ first.stop
          · exact .inl hle
          · obtain ⟨hreach, hfirst⟩ := hall [] first second regions rfl (not_le.mp hle)
            exact .inr (max_le hreach (hfirst first (by simp)))
        · intro front a c rest heq hlt
          obtain ⟨hreach, hfront⟩ := hall (first :: front) a c rest (congrArg (first :: ·) heq) hlt
          refine ⟨max_le hreach (hfront first (by simp)), fun r hr => ?_⟩
          exact hfront r (List.mem_cons_of_mem first hr)

theorem gapsOpen_iff {regions : List Region} :
    GapsOpen regions ↔ openFrom 0 (sortRegions regions) = true := by
  rw [openFrom_iff]
  simp only [Nat.zero_le, true_and]
  rfl

instance (regions : List Region) : Decidable (GapsOpen regions) :=
  decidable_of_iff _ gapsOpen_iff.symm

/-- A machine whose descriptor tables lie after the kernel image, with nothing between its memory and
its devices. -/
def apartPc : BootInput :=
  { smallPc with
    mmap := [⟨⟨0x100000, 0x3f00000⟩, 1, by decide, by decide⟩,
      ⟨⟨0xfec00000, 0x1000⟩, 2, by decide, by decide⟩]
    gdtrBase := 0xC0200400
    idtrBase := 0xC0200800
    gdtr_lt := by decide
    idtr_lt := by decide }

/-- There the holes are holes. -/
theorem holes_real_apartPc : ∃ m₁ m, initRegions apartPc .zero = .ok m₁ ∧
    fillGapsAsHoles m₁ = .ok m ∧
    m.regions .holes = [⟨0x9fc00, 0xa0000⟩, ⟨0x4000000, 0xfec00000⟩] ∧ HolesReal m := by
  have hview : ((initRegions apartPc .zero).toOption.bind fun m => (fillGapsAsHoles m).toOption.map
      fun m' => (decide (GapsOpen m.memoryRegions), m'.regions .holes)) =
      some (true, [⟨0x9fc00, 0xa0000⟩, ⟨0x4000000, 0xfec00000⟩]) := by decide
  obtain ⟨m₁, hinit, hview⟩ := Option.bind_eq_some_iff.mp hview
  obtain ⟨m, hfill, hview⟩ := Option.map_eq_some_iff.mp hview
  obtain ⟨hopen, hholes⟩ := Prod.mk.inj hview
  have hinit := eq_ok_of_toOption hinit
  have hfill := eq_ok_of_toOption hfill
  exact ⟨m₁, m, hinit, hfill, hholes, (holes_real_iff hinit hfill).mpr (of_decide_eq_true hopen)⟩

/-- On the small machine, whose descriptor tables lie inside the kernel image, the kernel between the
two tables is in a hole. -/
theorem not_holes_real_smallPc : ∃ m₁ m, initRegions smallPc .zero = .ok m₁ ∧
    fillGapsAsHoles m₁ = .ok m ∧ ¬ HolesReal m := by
  have hview : ((initRegions smallPc .zero).toOption.bind fun m => (fillGapsAsHoles m).toOption.map
      fun m' => decide (⟨0x101030, 0x102000⟩ ∈ m'.regions .holes ∧
        ⟨0xf0000, 0x200000⟩ ∈ m'.memoryRegions)) = some true := by decide
  obtain ⟨m₁, hinit, hview⟩ := Option.bind_eq_some_iff.mp hview
  obtain ⟨m, hfill, hview⟩ := Option.map_eq_some_iff.mp hview
  obtain ⟨hhole, hkernel⟩ := of_decide_eq_true hview
  refine ⟨m₁, m, eq_ok_of_toOption hinit, eq_ok_of_toOption hfill, fun hreal => ?_⟩
  exact hreal.disjoint _ hhole _ hkernel 0x101030 (by decide) (by decide)

end Kfs.Memory
