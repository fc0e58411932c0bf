import Kfs.Memory.BootAllocator
import Mathlib.Data.List.Sort

/-!
# What the boot allocator leaves in its tables

The reserved pass adds one region for each reserved range, narrowed to 32 bits; sorting and merging
then keep every byte of a region unless the region is joined to one whose `end` is 0 (`LostEnd`).
The free pass cuts the reserved table out of each narrowed type-1 range. Together: a byte of the free
table is offered by some type-1 range and blocked by no reserved one.
-/

namespace Kfs.Memory

open Kfs.Lib

/-! ## Regions as sets of bytes -/

/-- The bytes of a region. A region with `end = 0` has none for the comparisons of the code. -/
def Region.Has (reg : Region) (p : ℕ) : Prop := reg.start ≤ p ∧ p < reg.stop

instance (reg : Region) (p : ℕ) : Decidable (reg.Has p) := inferInstanceAs (Decidable (_ ∧ _))

/-- Some region of the table has the byte. -/
def Covers (regions : List Region) (p : ℕ) : Prop := ∃ reg ∈ regions, reg.Has p

/-- The order of a sorted table. -/
def ByStart (regions : List Region) : Prop := regions.Pairwise fun a b => a.start ≤ b.start

/-! ## Sorting -/

section Sorting

variable {regions : List Region}

/-- The inner loop is insertion into a list that is sorted downwards. -/
theorem insertRegion_eq (current : Region) (before : List Region) :
    insertRegion current before =
      before.orderedInsert (fun a b => b.start ≤ a.start) current := by
  induction before with
  | nil => rfl
  | cons reg before ih =>
    unfold insertRegion
    rw [List.orderedInsert_cons, ih]
    by_cases h : reg.start ≤ current.start
    · rw [if_neg (by omega), if_pos h]
    · rw [if_pos (by omega), if_neg h]

theorem insertRegion_perm (current : Region) (before : List Region) :
    (insertRegion current before).Perm (current :: before) := by
  rw [insertRegion_eq]
  exact List.perm_orderedInsert _ current before

theorem insertRegion_sorted (current : Region) {before : List Region}
    (h : before.Pairwise fun a b => b.start ≤ a.start) :
    (insertRegion current before).Pairwise fun a b => b.start ≤ a.start := by
  rw [insertRegion_eq]
  have : Std.Total (fun a b : Region => b.start ≤ a.start) := ⟨fun a b => Nat.le_total _ _⟩
  have : IsTrans Region (fun a b : Region => b.start ≤ a.start) :=
    ⟨fun _ _ _ hab hbc => Nat.le_trans hbc hab⟩
  exact List.Pairwise.orderedInsert current before h

/-- The outer loop, from any sorted prefix. -/
theorem sortLoop_spec (regions : List Region) : ∀ {sorted : List Region},
    sorted.Pairwise (fun a b => b.start ≤ a.start) →
    (regions.foldl (fun sorted current => insertRegion current sorted) sorted).Perm
        (regions ++ sorted) ∧
      (regions.foldl (fun sorted current => insertRegion current sorted) sorted).Pairwise
        fun a b => b.start ≤ a.start := by
  induction regions with
  | nil => exact fun h => ⟨List.Perm.refl _, h⟩
  | cons current rest ih =>
    intro sorted h
    obtain ⟨hperm, hsorted⟩ := ih (insertRegion_sorted current h)
    refine ⟨hperm.trans ?_, hsorted⟩
    exact ((insertRegion_perm current sorted).append_left rest).trans List.perm_middle

theorem sortRegions_perm (regions : List Region) : (sortRegions regions).Perm regions := by
  have h := (sortLoop_spec regions List.Pairwise.nil).1
  rw [List.append_nil] at h
  exact (List.reverse_perm _).trans h

theorem sortRegions_byStart (regions : List Region) : ByStart (sortRegions regions) :=
  List.pairwise_reverse.mpr (sortLoop_spec regions List.Pairwise.nil).2

/-- The loop leaves a table that is sorted already as it is. -/
theorem sortLoop_of_byStart (regions : List Region) : ∀ {sorted : List Region},
    ByStart (sorted.reverse ++ regions) →
    regions.foldl (fun sorted current => insertRegion current sorted) sorted =
      regions.reverse ++ sorted := by
  induction regions with
  | nil => exact fun _ => rfl
  | cons current rest ih =>
    intro sorted h
    have hins : insertRegion current sorted = current :: sorted := by
      cases sorted with
      | nil => rfl
      | cons last before =>
        have hle : last.start ≤ current.start :=
          (List.pairwise_append.mp h).2.2 last (by simp) current (by simp)
        unfold insertRegion
        rw [if_neg (by omega)]
    rw [List.foldl_cons, hins, ih (by simpa using h)]
    simp

theorem sortRegions_of_byStart (h : ByStart regions) : sortRegions regions = regions := by
  unfold sortRegions
  rw [sortLoop_of_byStart regions (by simpa using h)]
  simp

end Sorting

/-! ## Merging -/

/-- The ends from which a chain of touching regions of `regions` leads to `end = 0`. Merging may
turn a region with such an end into one that no comparison of the code sees. -/
inductive LostEnd (regions : List Region) : ℕ → Prop where
  | zero : LostEnd regions 0
  | step {reg : Region} : reg ∈ regions → LostEnd regions reg.stop → LostEnd regions reg.start

/-- What `boot_allocator_add_region` lets into a table. -/
def Region.Valid (reg : Region) : Prop := reg.start < reg.stop ∨ reg.stop = 0

section Merging

variable {regions : List Region} {p : ℕ}

/-- Merging starts where the first region starts and keeps the order. -/
theorem mergeLoop_byStart (rest : List Region) : ∀ {cur : Region}, ByStart (cur :: rest) →
    ByStart (mergeLoop cur rest) ∧ ∀ reg ∈ mergeLoop cur rest, cur.start ≤ reg.start := by
  induction rest with
  | nil =>
    intro cur h
    simpa [mergeLoop] using h
  | cons reg rest ih =>
    intro cur h
    have hle : cur.start ≤ reg.start := (List.pairwise_cons.mp h).1 reg (by simp)
    have htail : ByStart (reg :: rest) := (List.pairwise_cons.mp h).2
    unfold mergeLoop
    split
    · have hjoined : ByStart ({ cur with stop := reg.stop } :: rest) := by
        refine List.pairwise_cons.mpr ⟨fun next hnext => ?_, (List.pairwise_cons.mp htail).2⟩
        exact (List.pairwise_cons.mp h).1 next (List.mem_cons_of_mem reg hnext)
      exact ih hjoined
    · obtain ⟨hsorted, hlow⟩ := ih htail
      refine ⟨List.pairwise_cons.mpr ⟨fun next hnext => hle.trans (hlow next hnext), hsorted⟩, ?_⟩
      intro next hnext
      rcases List.mem_cons.mp hnext with rfl | hnext
      · exact le_rfl
      · exact hle.trans (hlow next hnext)

/-- Merging keeps the bytes of every region that is not joined to one with `end = 0`. -/
theorem mergeLoop_covers (hvalid : ∀ reg ∈ regions, reg.Valid) (rest : List Region) :
    ∀ {cur : Region}, ByStart (cur :: rest) → (∀ reg ∈ rest, reg ∈ regions) →
      ∀ reg ∈ cur :: rest, ¬ LostEnd regions reg.stop → reg.Has p →
        Covers (mergeLoop cur rest) p := by
  induction rest with
  | nil =>
    intro cur _ _ reg hreg _ hp
    exact ⟨reg, hreg, hp⟩
  | cons next rest ih =>
    intro cur hsorted hsub reg hreg hkept hp
    have hle : cur.start ≤ next.start := (List.pairwise_cons.mp hsorted).1 next (by simp)
    have htail : ByStart (next :: rest) := (List.pairwise_cons.mp hsorted).2
    have hnext : next ∈ regions := hsub next (by simp)
    have hrest : ∀ reg ∈ rest, reg ∈ regions := fun r hr => hsub r (List.mem_cons_of_mem next hr)
    unfold mergeLoop
    split
    next htouch =>
      have hjoined : ByStart ({ cur with stop := next.stop } :: rest) := by
        refine List.pairwise_cons.mpr ⟨fun r hr => ?_, (List.pairwise_cons.mp htail).2⟩
        exact (List.pairwise_cons.mp hsorted).1 r (List.mem_cons_of_mem next hr)
      rcases List.mem_cons.mp hreg with rfl | hreg
      · -- the region grows: `next` is not lost either, so it ends above its start
        have hnextKept : ¬ LostEnd regions next.stop := fun h =>
          hkept (htouch ▸ LostEnd.step hnext h)
        have hlt : next.start < next.stop := by
          rcases hvalid next hnext with h | h
          · exact h
          · exact absurd (h ▸ LostEnd.zero) hnextKept
        refine ih hjoined hrest { reg with stop := next.stop } (by simp) hnextKept ⟨hp.1, ?_⟩
        exact hp.2.trans (htouch ▸ hlt)
      · rcases List.mem_cons.mp hreg with rfl | hreg
        · exact ih hjoined hrest { cur with stop := reg.stop } (by simp) hkept
            ⟨hle.trans hp.1, hp.2⟩
        · exact ih hjoined hrest reg (List.mem_cons_of_mem _ hreg) hkept hp
    next =>
      rcases List.mem_cons.mp hreg with rfl | hreg
      · exact ⟨reg, List.mem_cons_self, hp⟩
      · obtain ⟨out, hout, hpo⟩ := ih htail hrest reg hreg hkept hp
        exact ⟨out, List.mem_cons_of_mem cur hout, hpo⟩

/-- Merging non-empty regions adds no byte. -/
theorem mergeLoop_sub (rest : List Region) : ∀ {cur : Region},
    (∀ reg ∈ cur :: rest, reg.start < reg.stop) →
    ∀ out ∈ mergeLoop cur rest, out.start < out.stop ∧
      ∀ p, out.Has p → Covers (cur :: rest) p := by
  induction rest with
  | nil =>
    intro cur hlt out hout
    exact ⟨hlt out hout, fun p hp => ⟨out, hout, hp⟩⟩
  | cons next rest ih =>
    intro cur hlt out hout
    have hcur := hlt cur (by simp)
    have hnext := hlt next (by simp)
    unfold mergeLoop at hout
    split at hout
    next htouch =>
      have hlt' : ∀ reg ∈ { cur with stop := next.stop } :: rest, reg.start < reg.stop := by
        intro reg hreg
        rcases List.mem_cons.mp hreg with rfl | hreg
        · exact hcur.trans (htouch ▸ hnext)
        · exact hlt reg (by simp [hreg])
      obtain ⟨ho, hbytes⟩ := ih hlt' out hout
      refine ⟨ho, fun p hp => ?_⟩
      obtain ⟨reg, hreg, hpr⟩ := hbytes p hp
      rcases List.mem_cons.mp hreg with rfl | hreg
      · -- a byte of the joined region is on one side of the seam
        rcases Nat.lt_or_ge p cur.stop with hside | hside
        · exact ⟨cur, by simp, hpr.1, hside⟩
        · exact ⟨next, by simp, htouch ▸ hside, hpr.2⟩
      · exact ⟨reg, by simp [hreg], hpr⟩
    next =>
      rcases List.mem_cons.mp hout with rfl | hout
      · exact ⟨hcur, fun p hp => ⟨out, by simp, hp⟩⟩
      · obtain ⟨ho, hbytes⟩ := ih (fun reg hreg => hlt reg (List.mem_cons_of_mem cur hreg)) out hout
        refine ⟨ho, fun p hp => ?_⟩
        obtain ⟨reg, hreg, hpr⟩ := hbytes p hp
        exact ⟨reg, List.mem_cons_of_mem cur hreg, hpr⟩

/-- `BOOT_ALLOCATOR_SORT_AND_MERGE` in one piece: the merge loop over the sorted table. -/
theorem sortAndMerge_eq {merged : List Region} (h : sortAndMerge regions = .ok merged) :
    (regions = [] ∧ merged = []) ∨ ∃ cur rest, sortRegions regions = cur :: rest ∧
      merged = mergeLoop cur rest := by
  unfold sortAndMerge at h
  cases hs : sortRegions regions with
  | nil =>
    rw [hs] at h
    refine .inl ⟨List.perm_nil.mp (hs ▸ (sortRegions_perm regions).symm), ?_⟩
    exact (Except.ok.inj h).symm
  | cons cur rest =>
    have hsorted : ByStart (cur :: rest) := hs ▸ sortRegions_byStart regions
    simp only [hs, mergeContiguousRegions, sortRegions_of_byStart hsorted, List.tail_cons] at h
    split at h
    · cases h
    · exact .inr ⟨cur, rest, rfl, (Except.ok.inj h).symm⟩

/-- The reserved table after sorting and merging. -/
theorem sortAndMerge_reserved {merged : List Region} (hvalid : ∀ reg ∈ regions, reg.Valid)
    (h : sortAndMerge regions = .ok merged) : ByStart merged ∧
      ∀ reg ∈ regions, ¬ LostEnd regions reg.stop → ∀ p, reg.Has p → Covers merged p := by
  rcases sortAndMerge_eq h with ⟨rfl, rfl⟩ | ⟨cur, rest, hs, rfl⟩
  · exact ⟨List.Pairwise.nil, fun reg hreg => absurd hreg (by simp)⟩
  · have hsorted : ByStart (cur :: rest) := hs ▸ sortRegions_byStart regions
    have hmem : ∀ reg, reg ∈ cur :: rest ↔ reg ∈ regions := fun reg =>
      hs ▸ (sortRegions_perm regions).mem_iff
    refine ⟨(mergeLoop_byStart rest hsorted).1, fun reg hreg hkept p hp => ?_⟩
    exact mergeLoop_covers hvalid rest hsorted
      (fun r hr => (hmem r).mp (List.mem_cons_of_mem cur hr)) reg ((hmem reg).mpr hreg) hkept hp

/-- The free table after sorting and merging. -/
theorem sortAndMerge_free {merged : List Region} (hlt : ∀ reg ∈ regions, reg.start < reg.stop)
    (h : sortAndMerge regions = .ok merged) :
    ∀ out ∈ merged, out.start < out.stop ∧ ∀ p, out.Has p → Covers regions p := by
  rcases sortAndMerge_eq h with ⟨rfl, rfl⟩ | ⟨cur, rest, hs, rfl⟩
  · exact fun out hout => absurd hout (by simp)
  · have hmem : ∀ reg, reg ∈ cur :: rest ↔ reg ∈ regions := fun reg =>
      hs ▸ (sortRegions_perm regions).mem_iff
    intro out hout
    obtain ⟨ho, hbytes⟩ := mergeLoop_sub rest (fun reg hreg => hlt reg ((hmem reg).mp hreg)) out hout
    refine ⟨ho, fun p hp => ?_⟩
    obtain ⟨reg, hreg, hpr⟩ := hbytes p hp
    exact ⟨reg, (hmem reg).mp hreg, hpr⟩

end Merging

/-! ## Adding regions -/

/-- `boot_allocator_add_region` where it returns: an empty region is ignored. -/
theorem addRegion_cases {m m' : BootMem} {start stop : ℕ} {type : MemType}
    (h : addRegion m start stop type = .ok m') :
    (start = stop ∧ m' = m) ∨ (start ≠ stop ∧ (start < stop ∨ stop = 0) ∧
      m' = m.setRegions type (m.regions type ++ [⟨start, stop⟩])) := by
  unfold addRegion at h
  split at h
  · cases h
  · split at h
    next heq => exact .inl ⟨heq, (Except.ok.inj h).symm⟩
    next hinvalid hne =>
      split at h
      · cases h
      · refine .inr ⟨hne, ?_, (Except.ok.inj h).symm⟩
        omega

/-- From `m` to `m'` the reserved table received the regions `added`, less the empty ones. -/
structure Reserves (added : List Region) (m m' : BootMem) : Prop where
  reserved : m'.regions .reserved =
    m.regions .reserved ++ added.filter fun reg => reg.start ≠ reg.stop
  free : m'.regions .free = m.regions .free
  valid : ∀ reg ∈ added, reg.start ≠ reg.stop → reg.Valid

namespace Reserves

variable {m m' m'' : BootMem} {added added' : List Region}

theorem nil (m : BootMem) : Reserves [] m m := ⟨by simp, rfl, by simp⟩

theorem append (h : Reserves added m m') (h' : Reserves added' m' m'') :
    Reserves (added ++ added') m m'' where
  reserved := by
    rw [h'.reserved, h.reserved, List.filter_append, List.append_assoc]
  free := h'.free.trans h.free
  valid reg hreg := by
    rcases List.mem_append.mp hreg with hreg | hreg
    · exact h.valid reg hreg
    · exact h'.valid reg hreg

theorem addRegion {start stop : ℕ} (h : addRegion m start stop .reserved = .ok m') :
    Reserves [⟨start, stop⟩] m m' := by
  rcases addRegion_cases h with ⟨heq, rfl⟩ | ⟨hne, hvalid, rfl⟩
  · exact ⟨by simp [heq], rfl, by simp [heq]⟩
  · refine ⟨by simp [hne], BootMem.setRegions_of_ne _ _ (by simp), fun reg hreg _ => ?_⟩
    rw [List.mem_singleton.mp hreg]
    exact hvalid

end Reserves

/-! ## The reserved pass -/

/-- The entries of a type other than 1. -/
def BootInput.reservedEntries (b : BootInput) : List PhysRange :=
  (b.mmap.filter fun entry => entry.type ≠ 1).map MmapEntry.range

/-- The type-1 entries. -/
def BootInput.usable (b : BootInput) : List PhysRange :=
  (b.mmap.filter fun entry => entry.type = 1).map MmapEntry.range

/-- The ranges that are reserved whatever the memory map says. -/
def BootInput.fixedRanges (b : BootInput) : List PhysRange :=
  [⟨0xa0000, 0x60000⟩,
    ⟨b.gdtrBase - kernelVaddrBase, b.gdtrLimit + 1⟩,
    ⟨b.idtrBase - kernelVaddrBase, b.idtrLimit + 1⟩,
    ⟨0x0, 0x1000⟩,
    ⟨0x1000, 0x9ec00⟩,
    ⟨b.kernelStart - kernelVaddrBase, b.kernelEnd - b.kernelStart⟩,
    ⟨b.mb2info, b.totalSize⟩]

/-- All reserved ranges. -/
def BootInput.reserved (b : BootInput) : List PhysRange := b.fixedRanges ++ b.reservedEntries

theorem virtToPhysChecked_ok {vAddr pAddr : ℕ} (h : virtToPhysChecked vAddr = .ok pAddr) :
    kernelVaddrBase ≤ vAddr ∧ pAddr = vAddr - kernelVaddrBase := by
  unfold virtToPhysChecked at h
  split at h
  next hle => exact ⟨hle, (Except.ok.inj h).symm⟩
  next => cases h

/-- A descriptor table in the linear map: its range narrows to the bounds the code computes. -/
theorem narrow_of_table {base limit start stop : ℕ} (hlt : base < 2 ^ 32 ∧ limit < 2 ^ 16)
    (hstart : virtToPhysChecked base = .ok start)
    (hstop : virtToPhysChecked ((base + limit + 1) % 2 ^ 32) = .ok stop) :
    PhysRange.narrow ⟨base - kernelVaddrBase, limit + 1⟩ = ⟨start, stop⟩ := by
  obtain ⟨hbase, hs⟩ := virtToPhysChecked_ok hstart
  obtain ⟨hend, he⟩ := virtToPhysChecked_ok hstop
  unfold kernelVaddrBase at hbase hend hs he ⊢
  unfold PhysRange.narrow
  -- the end does not wrap: a wrapped one would be below the linear map
  have hwrap : base + limit + 1 < 2 ^ 32 := by omega
  rw [Nat.mod_eq_of_lt hwrap] at he
  rw [Region.mk.injEq]
  dsimp only
  exact ⟨by omega, by omega⟩

/-- The fixed ranges narrow to the bounds that the code computes. -/
theorem fixedRanges_narrow {b : BootInput} {gs ge is ie ks ke : ℕ}
    (hgs : virtToPhysChecked b.gdtrBase = .ok gs)
    (hge : virtToPhysChecked ((b.gdtrBase + b.gdtrLimit + 1) % 2 ^ 32) = .ok ge)
    (his : virtToPhysChecked b.idtrBase = .ok is)
    (hie : virtToPhysChecked ((b.idtrBase + b.idtrLimit + 1) % 2 ^ 32) = .ok ie)
    (hks : virtToPhysChecked b.kernelStart = .ok ks)
    (hke : virtToPhysChecked b.kernelEnd = .ok ke) :
    b.fixedRanges.map PhysRange.narrow =
      [⟨0xa0000, 0x100000⟩] ++ ([⟨gs, ge⟩] ++ ([⟨is, ie⟩] ++ ([⟨0x0, 0x1000⟩] ++
        ([⟨0x1000, 0x9fc00⟩] ++ ([⟨ks, ke⟩] ++
          [⟨b.mb2info, (b.mb2info + b.totalSize) % 2 ^ 32⟩]))))) := by
  have hkernel : PhysRange.narrow ⟨b.kernelStart - kernelVaddrBase, b.kernelEnd - b.kernelStart⟩ =
      ⟨ks, ke⟩ := by
    obtain ⟨hs, hse⟩ := virtToPhysChecked_ok hks
    obtain ⟨he, hee⟩ := virtToPhysChecked_ok hke
    have hle := b.kernel_le
    unfold kernelVaddrBase at hs he hse hee ⊢
    unfold PhysRange.narrow
    rw [Region.mk.injEq]
    dsimp only
    exact ⟨by omega, by omega⟩
  have hinfo : PhysRange.narrow ⟨b.mb2info, b.totalSize⟩ =
      ⟨b.mb2info, (b.mb2info + b.totalSize) % 2 ^ 32⟩ := by
    unfold PhysRange.narrow
    rw [Nat.mod_eq_of_lt b.mb2info_lt.1]
  simp only [BootInput.fixedRanges, List.map_cons, List.map_nil, hkernel, hinfo,
    narrow_of_table b.gdtr_lt hgs hge, narrow_of_table b.idtr_lt his hie]
  rfl

theorem reserveFixed_spec {b : BootInput} {m m' : BootMem} (h : reserveFixed b m = .ok m') :
    Reserves (b.fixedRanges.map PhysRange.narrow) m m' := by
  unfold reserveFixed at h
  simp only [bind_eq_ok] at h
  obtain ⟨m₁, h₁, gs, hgs, ge, hge, m₂, h₂, is, his, ie, hie, m₃, h₃, m₄, h₄, m₅, h₅, ks, hks,
    ke, hke, m₆, h₆, h₇⟩ := h
  rw [fixedRanges_narrow hgs hge his hie hks hke]
  exact (Reserves.addRegion h₁).append ((Reserves.addRegion h₂).append
    ((Reserves.addRegion h₃).append ((Reserves.addRegion h₄).append
      ((Reserves.addRegion h₅).append ((Reserves.addRegion h₆).append
        (Reserves.addRegion h₇))))))

/-- The reserved pass over the memory map. -/
theorem mb2MmapIter_reserved (entries : List MmapEntry) : ∀ {m m' : BootMem},
    mb2MmapIter entries reservedWrapper false m = .ok m' →
    Reserves (((entries.filter fun entry => entry.type ≠ 1).map MmapEntry.range).map
      PhysRange.narrow) m m' := by
  induction entries with
  | nil =>
    intro m m' h
    obtain rfl : m = m' := Except.ok.inj h
    exact Reserves.nil m
  | cons entry entries ih =>
    intro m m' h
    unfold mb2MmapIter at h
    rw [List.foldlM_cons, bind_eq_ok] at h
    obtain ⟨m₁, h₁, h₂⟩ := h
    have hrest := ih h₂
    by_cases htype : entry.type = 1
    · simp only [htype, ne_eq, not_true_eq_false, if_false, Bool.false_eq_true,
        not_false_eq_true, and_self, if_true] at h₁
      obtain rfl : m = m₁ := Except.ok.inj h₁
      simpa [htype] using hrest
    · simp only [htype, ne_eq, not_false_eq_true, Bool.false_eq_true, and_false, if_false,
        false_and] at h₁
      have hone := Reserves.addRegion h₁
      simpa [htype] using hone.append hrest

/-! ## The free pass -/

/-- From `m` to `m'` the free table received the pieces `added`. -/
structure Frees (added : List Region) (m m' : BootMem) : Prop where
  free : m'.regions .free = m.regions .free ++ added
  reserved : m'.regions .reserved = m.regions .reserved

theorem Frees.append {m m' m'' : BootMem} {added added' : List Region} (h : Frees added m m')
    (h' : Frees added' m' m'') : Frees (added ++ added') m m'' where
  free := by rw [h'.free, h.free, List.append_assoc]
  reserved := h'.reserved.trans h.reserved

/-- A piece is added as it is or skipped. -/
theorem addFreePiece_spec {m m' : BootMem} {start stop : ℕ}
    (h : addFreePiece m start stop = .ok m') :
    ∃ added, Frees added m m' ∧ ∀ reg ∈ added, reg = ⟨start, stop⟩ ∧ start < stop := by
  unfold addFreePiece at h
  split at h
  next hcond =>
    rcases addRegion_cases h with ⟨heq, rfl⟩ | ⟨_, _, rfl⟩
    · exact ⟨[], ⟨by simp, rfl⟩, by simp⟩
    · exact ⟨[⟨start, stop⟩], ⟨by simp, BootMem.setRegions_of_ne _ _ (by simp)⟩,
        fun reg hreg => ⟨List.mem_singleton.mp hreg, hcond.1⟩⟩
  next =>
    obtain rfl : m = m' := Except.ok.inj h
    exact ⟨[], ⟨by simp, rfl⟩, by simp⟩

/-- A piece of `[cur, stop)` that no region of `table` meets. -/
structure FreePiece (table : List Region) (cur stop : ℕ) (reg : Region) : Prop where
  nonempty : reg.start < reg.stop
  low : cur ≤ reg.start
  high : reg.stop ≤ stop
  apart : ∀ p, reg.Has p → ¬ Covers table p

/-- One more region in front of the table, which ends below the piece or starts above it. -/
theorem FreePiece.cons {table : List Region} {cur cur' stop : ℕ} {reg res : Region}
    (h : FreePiece table cur' stop reg) (hcur : cur ≤ cur')
    (hres : res.stop ≤ cur' ∨ stop ≤ res.start) : FreePiece (res :: table) cur stop reg where
  nonempty := h.nonempty
  low := hcur.trans h.low
  high := h.high
  apart p hp := by
    rintro ⟨q, hq, hpq⟩
    rcases List.mem_cons.mp hq with rfl | hq
    · have hlow := h.low
      have hhigh := h.high
      obtain ⟨hp₁, hp₂⟩ := hp
      obtain ⟨hq₁, hq₂⟩ := hpq
      omega
    · exact h.apart p hp ⟨q, hq, hpq⟩

/-- The loop of `boot_allocator_free_handler` cuts the sorted table out of `[cur, stop)`. -/
theorem freeLoop_spec (stop : ℕ) (table : List Region) : ∀ {cur : ℕ} {m m' : BootMem},
    ByStart table → freeLoop stop table cur m = .ok m' →
    ∃ added, Frees added m m' ∧ ∀ reg ∈ added, FreePiece table cur stop reg := by
  induction table with
  | nil =>
    intro cur m m' _ h
    obtain ⟨added, hfrees, hpieces⟩ := addFreePiece_spec h
    refine ⟨added, hfrees, fun reg hreg => ?_⟩
    obtain ⟨rfl, hlt⟩ := hpieces reg hreg
    exact ⟨hlt, le_rfl, le_rfl, fun p _ ⟨q, hq, _⟩ => absurd hq (by simp)⟩
  | cons res table ih =>
    intro cur m m' hsorted h
    have hafter : ∀ q ∈ table, res.start ≤ q.start := (List.pairwise_cons.mp hsorted).1
    have htail : ByStart table := (List.pairwise_cons.mp hsorted).2
    unfold freeLoop at h
    split at h
    next hskip =>
      -- `res` does not meet what is left of the range
      obtain ⟨added, hfrees, hpieces⟩ := ih htail h
      refine ⟨added, hfrees, fun reg hreg => ?_⟩
      exact (hpieces reg hreg).cons le_rfl hskip
    next hmeet =>
      rw [bind_eq_ok] at h
      obtain ⟨m₁, h₁, h₂⟩ := h
      obtain ⟨first, hfirst, hfirstPieces⟩ := addFreePiece_spec h₁
      have hbelow : ∀ reg ∈ first, FreePiece (res :: table) cur stop reg := by
        intro reg hreg
        obtain ⟨rfl, hlt⟩ := hfirstPieces reg hreg
        refine ⟨hlt, le_rfl, by dsimp only; omega, fun p hp ⟨q, hq, hpq⟩ => ?_⟩
        -- every later region starts at or above the end of the piece
        have hstart : res.start ≤ q.start := by
          rcases List.mem_cons.mp hq with rfl | hq
          · exact le_rfl
          · exact hafter q hq
        obtain ⟨_, hp₂⟩ := hp
        obtain ⟨hq₁, _⟩ := hpq
        dsimp only at hp₂
        omega
      have hcur : (if res.stop > cur then res.stop else cur) = res.stop := if_pos (by omega)
      simp only [hcur] at h₂
      split at h₂
      · obtain rfl : m₁ = m' := Except.ok.inj h₂
        exact ⟨first, hfirst, hbelow⟩
      · obtain ⟨later, hlater, hlaterPieces⟩ := ih htail h₂
        refine ⟨first ++ later, hfirst.append hlater, fun reg hreg => ?_⟩
        rcases List.mem_append.mp hreg with hreg | hreg
        · exact hbelow reg hreg
        · exact (hlaterPieces reg hreg).cons (by omega) (.inl le_rfl)

/-- The free pass over the memory map. -/
theorem mb2MmapIter_free (entries : List MmapEntry) : ∀ {m m' : BootMem},
    ByStart (m.regions .reserved) → mb2MmapIter entries freeHandler true m = .ok m' →
    ∃ added, Frees added m m' ∧ ∀ reg ∈ added,
      ∃ range ∈ (entries.filter fun entry => entry.type = 1).map MmapEntry.range,
        FreePiece (m.regions .reserved) range.narrow.start range.narrow.stop reg := by
  induction entries with
  | nil =>
    intro m m' _ h
    obtain rfl : m = m' := Except.ok.inj h
    exact ⟨[], ⟨by simp, rfl⟩, by simp⟩
  | cons entry entries ih =>
    intro m m' hsorted h
    unfold mb2MmapIter at h
    rw [List.foldlM_cons, bind_eq_ok] at h
    obtain ⟨m₁, h₁, h₂⟩ := h
    by_cases htype : entry.type = 1
    · simp only [htype, ne_eq, not_true_eq_false, false_and, if_false, and_false] at h₁
      obtain ⟨first, hfirst, hfirstPieces⟩ := freeLoop_spec _ _ hsorted h₁
      obtain ⟨later, hlater, hlaterPieces⟩ := ih (by rw [hfirst.reserved]; exact hsorted) h₂
      rw [hfirst.reserved] at hlaterPieces
      refine ⟨first ++ later, hfirst.append hlater, fun reg hreg => ?_⟩
      rcases List.mem_append.mp hreg with hreg | hreg
      · exact ⟨entry.range, by simp [htype], hfirstPieces reg hreg⟩
      · obtain ⟨range, hrange, hpiece⟩ := hlaterPieces reg hreg
        refine ⟨range, ?_, hpiece⟩
        rw [List.filter_cons_of_pos (by simpa using htype), List.map_cons]
        exact List.mem_cons_of_mem _ hrange
    · simp only [htype, ne_eq, not_false_eq_true, and_self, if_true] at h₁
      obtain rfl : m = m₁ := Except.ok.inj h₁
      obtain ⟨later, hlater, hlaterPieces⟩ := ih hsorted h₂
      exact ⟨later, hlater, by simpa [htype] using hlaterPieces⟩

end Kfs.Memory
