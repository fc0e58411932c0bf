import Kfs.Memory.BootMerges

/-!
# Sorting and merging in place

`boot_allocator_sort_regions` sorts the first entries of an array by moving a hole down, and
`BOOT_ALLOCATOR_SORT_AND_MERGE` merges them afterwards through a buffer that is copied over the array.
On the array the sort is `sortRegions`, and the merge leaves the same addresses covered whatever the
regions have to do with each other: only an end that is the start of the next region disappears.
-/

namespace Kfs.Memory

open Kfs.Lib

/-! ## The array -/

/-- The inner loop of `boot_allocator_sort_regions` and the store after it; the hole is at `j`. -/
def shiftRegions (current : Region) : ℕ → List Region → List Region
  | 0, reg => reg.set 0 current
  | j + 1, reg =>
    let before := reg.getD j ⟨0, 0⟩
    if before.start > current.start then shiftRegions current j (reg.set (j + 1) before)
    else reg.set (j + 1) current

/-- `boot_allocator_sort_regions` on the first `count` entries of an array. -/
def sortArray (reg : List Region) (count : ℕ) : List Region :=
  (List.range' 1 (count - 1)).foldl (fun reg i => shiftRegions (reg.getD i ⟨0, 0⟩) i reg) reg

/-- `BOOT_ALLOCATOR_SORT_AND_MERGE`: the new count and the array. -/
def sortAndMergeArray (reg : List Region) (count : ℕ) : Kern (ℕ × List Region) :=
  mergeContiguousArray (sortArray reg count) count

/-- `sorted` has the entries of `regions` in the order of their starts, those with the same start in
the order in which they were. -/
structure StableSort (regions sorted : List Region) : Prop where
  perm : sorted.Perm regions
  byStart : ByStart sorted
  stable : ∀ start, sorted.filter (fun reg => reg.start = start) =
    regions.filter fun reg => reg.start = start

/-- No region ends exactly where the next one starts. -/
def NoneTouch (regions : List Region) : Prop := regions.IsChain fun a b => a.stop ≠ b.start

section SortArray

/-- **The hole moves down** past the entries that start later, as in the list of the entries before
it. -/
theorem shiftRegions_eq (current : Region) (before : List Region) : ∀ (hole : Region)
    (behind : List Region), shiftRegions current before.length (before.reverse ++ hole :: behind) =
      (insertRegion current before).reverse ++ behind := by
  induction before with
  | nil => exact fun hole behind => rfl
  | cons last before ih =>
    intro hole behind
    have hlast : ((last :: before).reverse ++ hole :: behind).getD before.length ⟨0, 0⟩ = last := by
      simp [List.getD_eq_getElem?_getD]
    have hset : ∀ reg, ((last :: before).reverse ++ hole :: behind).set (before.length + 1) reg =
        (last :: before).reverse ++ reg :: behind := by
      intro reg
      simp
    rw [List.length_cons, shiftRegions, hlast, hset, hset]
    unfold insertRegion
    split
    · rw [List.reverse_cons, List.append_assoc, List.singleton_append, ih, List.reverse_cons,
        List.append_assoc, List.singleton_append]
    · simp

/-- The outer loop, with the entries `sorted` behind it. -/
theorem sortArray_loop (rest : List Region) : ∀ (sorted stale : List Region),
    (List.range' sorted.length rest.length).foldl
        (fun reg i => shiftRegions (reg.getD i ⟨0, 0⟩) i reg) (sorted.reverse ++ (rest ++ stale)) =
      (rest.foldl (fun sorted current => insertRegion current sorted) sorted).reverse ++ stale := by
  induction rest with
  | nil => exact fun sorted stale => rfl
  | cons current rest ih =>
    intro sorted stale
    have hcurrent : (sorted.reverse ++ (current :: rest ++ stale)).getD sorted.length ⟨0, 0⟩ =
        current := by
      simp [List.getD_eq_getElem?_getD]
    have hlen : (insertRegion current sorted).length = sorted.length + 1 :=
      (insertRegion_perm current sorted).length_eq
    rw [List.length_cons, List.range'_succ, List.foldl_cons, hcurrent, List.cons_append,
      shiftRegions_eq, List.foldl_cons, ← hlen]
    exact ih (insertRegion current sorted) stale

/-- **The sort of an array** is the sort of its first entries. -/
theorem sortArray_eq (table stale : List Region) :
    sortArray (table ++ stale) table.length = sortRegions table ++ stale := by
  cases table with
  | nil => rfl
  | cons first rest =>
    have hloop := sortArray_loop rest [first] stale
    exact hloop

/-- An insertion keeps the order of the entries with one start, and puts the new one before them. -/
theorem filter_insertRegion (current : Region) (start : ℕ) (before : List Region) :
    (insertRegion current before).filter (fun reg => reg.start = start) =
      (current :: before).filter fun reg => reg.start = start := by
  induction before with
  | nil => rfl
  | cons reg before ih =>
    unfold insertRegion
    split
    · next hlater =>
      rw [List.filter_cons, ih]
      by_cases hstart : current.start = start
      · have hne : reg.start ≠ start := by omega
        simp [hstart, hne]
      · simp [List.filter_cons, hstart]
    · rfl

theorem filter_sortLoop (start : ℕ) (regions : List Region) : ∀ sorted : List Region,
    (regions.foldl (fun sorted current => insertRegion current sorted) sorted).filter
        (fun reg => reg.start = start) =
      (regions.reverse ++ sorted).filter fun reg => reg.start = start := by
  induction regions with
  | nil => exact fun sorted => rfl
  | cons current regions ih =>
    intro sorted
    rw [List.foldl_cons, ih, List.filter_append, filter_insertRegion, ← List.filter_append,
      List.reverse_cons, List.append_assoc, List.singleton_append]

/-- **The sort is stable.** -/
theorem sortRegions_stable (regions : List Region) : StableSort regions (sortRegions regions) where
  perm := sortRegions_perm regions
  byStart := sortRegions_byStart regions
  stable start := by
    unfold sortRegions
    rw [List.filter_reverse, filter_sortLoop, List.append_nil, List.filter_reverse, List.reverse_reverse]

end SortArray

section Merge

variable {table stale : List Region}

/-- The merge leaves no two neighbours that touch. -/
theorem mergeLoop_noneTouch (rest : List Region) : ∀ cur : Region, NoneTouch (mergeLoop cur rest) := by
  induction rest with
  | nil => exact fun cur => List.IsChain.singleton cur
  | cons next rest ih =>
    intro cur
    unfold mergeLoop
    split
    · exact ih _
    · next hbreak =>
      obtain ⟨first, tail, hmerged, hstart⟩ := mergeLoop_head rest next
      have htail := ih next
      rw [hmerged] at htail ⊢
      refine List.IsChain.cons_cons ?_ htail
      rw [hstart]
      exact hbreak

/-- It has nothing to do then. -/
theorem mergeLoop_of_noneTouch (rest : List Region) : ∀ {cur : Region}, NoneTouch (cur :: rest) →
    mergeLoop cur rest = cur :: rest := by
  induction rest with
  | nil => exact fun _ => rfl
  | cons next rest ih =>
    intro cur h
    obtain ⟨hbreak, htail⟩ := List.isChain_cons_cons.mp h
    rw [mergeLoop, if_neg hbreak, ih htail]

theorem mergedTable_of_noneTouch (hsorted : ByStart table) (h : NoneTouch table) :
    mergedTable table = table := by
  unfold mergedTable
  rw [sortRegions_of_byStart hsorted]
  cases table with
  | nil => rfl
  | cons cur rest => exact mergeLoop_of_noneTouch rest h

/-- **The merged regions** are sorted, do not touch and cover the same addresses. -/
theorem mergedTable_spec (hne : NonEmptyRegions table) (hlen : table.length ≤ maxRegions) :
    ByStart (mergedTable table) ∧ NoneTouch (mergedTable table) ∧
      ∀ p, Covers (mergedTable table) p ↔ Covers table p := by
  obtain ⟨merged, hrun, -⟩ := sortAndMerge_ok hlen
  have hcovers := (sortAndMerge_covers hne hrun).2
  have hsorted := sortRegions_byStart table
  unfold mergedTable
  rcases sortAndMerge_eq hrun with ⟨rfl, rfl⟩ | ⟨cur, rest, hs, rfl⟩
  · exact ⟨List.Pairwise.nil, List.IsChain.nil, hcovers⟩
  · rw [hs] at hsorted ⊢
    exact ⟨(mergeLoop_byStart rest hsorted).1, mergeLoop_noneTouch rest cur, hcovers⟩

/-- **`BOOT_ALLOCATOR_SORT_AND_MERGE` on an array**, as far as its buffer is concerned. -/
theorem sortAndMergeArray_eq (hlen : table.length ≤ maxRegions) (harray : table ++ stale ≠ []) :
    ∃ stale', sortAndMergeArray (table ++ stale) table.length =
        .ok ((mergedTable table).length, mergedTable table ++ stale') ∧
      (table = [] → stale' = stale) ∧
      (table ≠ [] → stale' = List.replicate (maxRegions - (mergedTable table).length) ⟨0, 0⟩ ++
        (table ++ stale).drop maxRegions) := by
  unfold sortAndMergeArray
  rw [sortArray_eq]
  by_cases htable : table = []
  · subst htable
    refine ⟨stale, ?_, fun _ => rfl, fun hc => absurd rfl hc⟩
    cases stale with
    | nil => exact absurd rfl harray
    | cons first stale => rfl
  · have hle := (mergedTable_length_le table).trans hlen
    have hsorted : (sortRegions table).length ≤ maxRegions :=
      (sortRegions_perm table).length_eq.le.trans hlen
    have hsame : (sortRegions table ++ stale).drop maxRegions = (table ++ stale).drop maxRegions := by
      rw [List.drop_append, List.drop_append, List.drop_eq_nil_of_le hsorted,
        List.drop_eq_nil_of_le hlen, (sortRegions_perm table).length_eq]
    rw [mergeContiguousArray_eq htable, if_neg (Nat.not_lt.mpr hle)]
    exact ⟨_, by rw [List.append_assoc, hsame], fun hc => absurd hc htable, fun _ => rfl⟩

/-- A second time nothing changes. -/
theorem sortAndMergeArray_again (hlen : table.length ≤ maxRegions) {merged : List Region}
    (hsorted : ByStart merged) (hnone : NoneTouch merged) (hle : merged.length ≤ table.length)
    {stale' behind : List Region} (harray : merged ++ stale' ≠ [])
    (hstale : merged ≠ [] → stale' = List.replicate (maxRegions - merged.length) ⟨0, 0⟩ ++ behind) :
    sortAndMergeArray (merged ++ stale') merged.length = .ok (merged.length, merged ++ stale') := by
  obtain ⟨stale'', hrun, hempty, hcopied⟩ := sortAndMergeArray_eq (hle.trans hlen) harray
  rw [mergedTable_of_noneTouch hsorted hnone] at hrun hcopied
  rw [hrun]
  by_cases hmerged : merged = []
  · rw [hempty hmerged]
  · -- the copy has filled the array up to `MAX_REGIONS` entries
    have hfull : merged.length + (maxRegions - merged.length) = maxRegions :=
      Nat.add_sub_cancel' (hle.trans hlen)
    have hdrop : (merged ++ stale').drop maxRegions = behind := by
      rw [hstale hmerged, ← List.append_assoc]
      exact List.drop_left' (by rw [List.length_append, List.length_replicate, hfull])
    rw [hcopied hmerged, hdrop, ← hstale hmerged]

end Merge

/-- **Sorting and merging is sound**: the sort is a stable permutation of the first entries and leaves
the others alone; the merged entries are not more, sorted, do not touch and cover the same addresses,
and a second call changes nothing. -/
theorem sortAndMerge_sound {reg : List Region} {count : ℕ} (harray : reg ≠ [])
    (hcount : count ≤ reg.length) (hmax : count ≤ maxRegions)
    (hne : NonEmptyRegions (reg.take count)) :
    StableSort (reg.take count) ((sortArray reg count).take count) ∧
      (sortArray reg count).drop count = reg.drop count ∧
      ∃ m reg', sortAndMergeArray reg count = .ok (m, reg') ∧ m ≤ count ∧ ByStart (reg'.take m) ∧
        NoneTouch (reg'.take m) ∧ (∀ p, Covers (reg'.take m) p ↔ Covers (reg.take count) p) ∧
        sortAndMergeArray reg' m = .ok (m, reg') := by
  obtain ⟨table, stale, rfl, rfl⟩ : ∃ table stale, reg = table ++ stale ∧ count = table.length :=
    ⟨reg.take count, reg.drop count, (List.take_append_drop count reg).symm,
      (List.length_take_of_le hcount).symm⟩
  rw [List.take_left] at hne ⊢
  have hlen : (sortRegions table).length = table.length := (sortRegions_perm table).length_eq
  obtain ⟨hsorted, hnone, hcovers⟩ := mergedTable_spec hne hmax
  obtain ⟨stale', hrun, hempty, hcopied⟩ := sortAndMergeArray_eq hmax harray
  have hle := mergedTable_length_le table
  have hstale : mergedTable table ≠ [] → stale' = _ :=
    fun hmerged => hcopied fun htable => hmerged (by rw [htable]; rfl)
  have harray' : mergedTable table ++ stale' ≠ [] := by
    intro hc
    obtain ⟨hmerged, hnil⟩ := List.append_eq_nil_iff.mp hc
    by_cases htable : table = []
    · rw [hempty htable] at hnil
      exact harray (by rw [htable, hnil]; rfl)
    · have hlength := mergedTable_length htable
      rw [hmerged, List.length_nil] at hlength
      omega
  refine ⟨?_, ?_, _, _, hrun, hle, ?_⟩
  · rw [sortArray_eq, ← hlen, List.take_left]
    exact sortRegions_stable table
  · rw [sortArray_eq, List.drop_left, ← hlen, List.drop_left]
  · rw [List.take_left]
    exact ⟨hsorted, hnone, hcovers,
      sortAndMergeArray_again hmax hsorted hnone hle harray' hstale⟩

/-- Nested regions, two that touch, and two with the same start. -/
def nestedRegions : List Region :=
  [⟨0x3000, 0x4000⟩, ⟨0x1000, 0x8000⟩, ⟨0x2000, 0x3000⟩, ⟨0x1000, 0x1800⟩, ⟨0, 0⟩]

theorem sortAndMerge_sound_nestedRegions :
    (sortArray nestedRegions 4).take 4 =
        [⟨0x1000, 0x8000⟩, ⟨0x1000, 0x1800⟩, ⟨0x2000, 0x3000⟩, ⟨0x3000, 0x4000⟩] ∧
      StableSort (nestedRegions.take 4) ((sortArray nestedRegions 4).take 4) ∧
      ∃ reg', sortAndMergeArray nestedRegions 4 = .ok (3, reg') ∧ NoneTouch (reg'.take 3) := by
  have hne : NonEmptyRegions (nestedRegions.take 4) := by
    intro reg hreg
    fin_cases hreg <;> decide
  obtain ⟨hstable, -, m, reg', hrun, -, -, hnone, -⟩ :=
    sortAndMerge_sound (show nestedRegions ≠ [] from List.cons_ne_nil _ _) (by decide) (by decide) hne
  have hcount : (sortAndMergeArray nestedRegions 4).toOption.map (fun r => r.1) = some 3 := by
    decide
  rw [hrun] at hcount
  obtain rfl := Option.some.inj hcount
  exact ⟨by decide, hstable, reg', hrun, hnone⟩

end Kfs.Memory
