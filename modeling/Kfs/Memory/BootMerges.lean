import Kfs.Memory.BootHoles
import Kfs.Memory.BootZones

/-!
# The buffer of the merge

`boot_allocator_merge_contiguous_regions` collects the merged regions in a local array of
`MAX_REGIONS` entries and copies that over the caller's array. Each table of the boot allocator fits
into `MAX_REGIONS` entries, so its merged regions fit into the buffer. The table of all regions is two
or three tables long, and there the stores stay inside only if enough neighbours touch.
-/

namespace Kfs.Memory

open Kfs.Lib

/-! ## The array and the buffer -/

/-- `merged[merged_count++] = reg`. -/
def storeMerged (merged : List Region) (reg : Region) : Kern (List Region) :=
  if merged.length ≥ maxRegions then .error .fault else .ok (merged ++ [reg])

/-- The loop of `boot_allocator_merge_contiguous_regions` and the store after it. -/
def mergeBuffer (cur : Region) (merged : List Region) : List Region → Kern (List Region)
  | [] => storeMerged merged cur
  | reg :: rest =>
    if cur.stop = reg.start then mergeBuffer { cur with stop := reg.stop } merged rest
    else do
      let merged ← storeMerged merged cur
      mergeBuffer reg merged rest

/-- `boot_allocator_merge_contiguous_regions` on an array: the count and the array after the copy of
the whole buffer. -/
def mergeContiguousArray (reg : List Region) (count : ℕ) : Kern (ℕ × List Region) :=
  match reg with
  | [] => .error .fault
  | cur :: _ =>
    if count = 0 then .ok (0, reg)
    else do
      let merged ← mergeBuffer cur [] (sortRegions (reg.take count)).tail
      .ok (merged.length,
        merged ++ List.replicate (maxRegions - merged.length) ⟨0, 0⟩ ++ reg.drop maxRegions)

/-- The neighbours of a list that do not touch. -/
def breaks : List Region → ℕ
  | reg :: next :: rest => (if reg.stop = next.start then 0 else 1) + breaks (next :: rest)
  | _ => 0

/-- The merged regions of a table. -/
def mergedTable (regions : List Region) : List Region :=
  match sortRegions regions with
  | [] => []
  | cur :: rest => mergeLoop cur rest

/-- On an array with the sorted table in front, the buffer is not overrun, the count is the number of
merged regions, and these are in front of the array afterwards. -/
def MergesInBounds (table : List Region) : Prop :=
  ∀ stale : List Region, sortRegions table ++ stale ≠ [] → ∃ n reg,
    mergeContiguousArray (sortRegions table ++ stale) table.length = .ok (n, reg) ∧
      n ≤ maxRegions ∧ n = (mergedTable table).length ∧ reg.take n = mergedTable table

section Buffer

/-- The loop stores one region for each seam that does not touch, and one at the end. -/
theorem mergeLoop_length_eq (rest : List Region) : ∀ cur : Region,
    (mergeLoop cur rest).length = breaks (cur :: rest) + 1 := by
  induction rest with
  | nil => exact fun cur => rfl
  | cons next rest ih =>
    intro cur
    unfold mergeLoop
    split
    next htouch =>
      rw [ih, breaks, if_pos htouch, Nat.zero_add]
      cases rest with
      | nil => rfl
      | cons c rest => rfl
    next hbreak =>
      rw [List.length_cons, ih, breaks, if_neg hbreak]
      omega

/-- The loop over the buffer is the loop over lists, up to the length of the buffer. -/
theorem mergeBuffer_eq (rest : List Region) : ∀ {cur : Region} {merged : List Region},
    mergeBuffer cur merged rest =
      if merged.length + (mergeLoop cur rest).length > maxRegions then .error .fault
      else .ok (merged ++ mergeLoop cur rest) := by
  induction rest with
  | nil =>
    intro cur merged
    unfold mergeBuffer storeMerged mergeLoop
    rw [List.length_singleton]
    exact if_congr Nat.lt_succ_iff.symm rfl rfl
  | cons next rest ih =>
    intro cur merged
    unfold mergeBuffer mergeLoop
    split
    · exact ih
    · unfold storeMerged
      split
      next hfull =>
        rw [if_pos (by rw [List.length_cons]; omega)]
        rfl
      next =>
        rw [ok_bind, ih, List.length_append, List.length_singleton, List.length_cons,
          List.append_assoc, List.singleton_append]
        exact if_congr (by rw [Nat.add_assoc, Nat.add_comm 1]) rfl rfl

theorem mergedTable_length {regions : List Region} (h : regions ≠ []) :
    (mergedTable regions).length = breaks (sortRegions regions) + 1 := by
  unfold mergedTable
  cases hs : sortRegions regions with
  | nil => exact absurd (List.perm_nil.mp (hs ▸ (sortRegions_perm regions).symm)) h
  | cons cur rest => exact mergeLoop_length_eq rest cur

theorem mergedTable_length_le (regions : List Region) :
    (mergedTable regions).length ≤ regions.length := by
  unfold mergedTable
  cases hs : sortRegions regions with
  | nil => exact Nat.zero_le _
  | cons cur rest =>
    rw [← (sortRegions_perm regions).length_eq, hs]
    exact mergeLoop_length rest

/-- The merge of an array with a sorted table in front. -/
theorem mergeContiguousArray_eq {table stale : List Region} (h : table ≠ []) :
    mergeContiguousArray (sortRegions table ++ stale) table.length =
      if (mergedTable table).length > maxRegions then .error .fault
      else .ok ((mergedTable table).length, mergedTable table ++
        List.replicate (maxRegions - (mergedTable table).length) ⟨0, 0⟩ ++
        (sortRegions table ++ stale).drop maxRegions) := by
  have hlen : (sortRegions table).length = table.length := (sortRegions_perm table).length_eq
  have hsorted := sortRegions_byStart table
  unfold mergedTable
  generalize hs : sortRegions table = sorted at hlen hsorted
  cases sorted with
  | nil => exact absurd (List.length_eq_zero_iff.mp hlen.symm) h
  | cons cur rest =>
    have htake : (cur :: rest ++ stale).take table.length = cur :: rest := by
      rw [← hlen]
      exact List.take_left
    have hne : table.length ≠ 0 := by
      rw [← hlen]
      exact Nat.succ_ne_zero _
    simp only [List.cons_append] at htake ⊢
    simp only [mergeContiguousArray, if_neg hne, htake, sortRegions_of_byStart hsorted,
      List.tail_cons, mergeBuffer_eq, List.length_nil, Nat.zero_add, List.nil_append]
    split
    · rfl
    · rfl

/-- **When the merge stays inside its buffer.** -/
theorem mergesInBounds_iff {table : List Region} :
    MergesInBounds table ↔ breaks (sortRegions table) < maxRegions := by
  by_cases h : table = []
  · subst h
    refine ⟨fun _ => by decide, fun _ stale hstale => ⟨0, stale, ?_, Nat.zero_le _, rfl, rfl⟩⟩
    cases stale with
    | nil => exact absurd rfl hstale
    | cons first stale => rfl
  · have hlen := mergedTable_length h
    have hne : sortRegions table ≠ [] := fun hs =>
      h (List.perm_nil.mp (hs ▸ (sortRegions_perm table).symm))
    constructor
    · intro hall
      obtain ⟨n, reg, hrun, hle, hn, -⟩ := hall [] (by rw [List.append_nil]; exact hne)
      omega
    · intro hlt stale _
      have hfit : ¬ (mergedTable table).length > maxRegions := by omega
      refine ⟨_, _, (mergeContiguousArray_eq h).trans (if_neg hfit), not_lt.mp hfit, rfl, ?_⟩
      rw [List.append_assoc]
      exact List.take_left

/-- A table that fits into the array merges inside the buffer. -/
theorem mergesInBounds_of_fits {table : List Region} (h : table.length ≤ maxRegions) :
    MergesInBounds table := by
  by_cases hnil : table = []
  · exact mergesInBounds_iff.mpr (hnil ▸ by decide)
  · have hlen := mergedTable_length hnil
    have hle := mergedTable_length_le table
    exact mergesInBounds_iff.mpr (by omega)

end Buffer

/-! ## The calls of `boot_allocator_init` -/

/-- `boot_allocator_fill_gaps_as_holes` up to the merge of the holes. -/
def gapPass (m : BootMem) : Kern BootMem := do
  let all ← sortAndMerge m.memoryRegions
  fillGaps all m

/-- The tables that `boot_allocator_init` sorts and merges on the map `b`, each as it is when the run
comes to the call. -/
inductive MergeCall (b : BootInput) : List Region → Prop where
  | reserved {m : BootMem} (hpass : reservedPass b .zero = .ok m) : MergeCall b (m.regions .reserved)
  | free {m : BootMem} (hpass : freePass b .zero = .ok m) : MergeCall b (m.regions .free)
  | memory {m : BootMem} (hinit : initRegions b .zero = .ok m) : MergeCall b m.memoryRegions
  | holes {m m' : BootMem} (hinit : initRegions b .zero = .ok m) (hgaps : gapPass m = .ok m') :
      MergeCall b (m'.regions .holes)
  | all {m m' : BootMem} (hinit : initRegions b .zero = .ok m) (hfill : fillGapsAsHoles m = .ok m') :
      MergeCall b (getAllRegions m')
  | freeZone {m m' : BootMem} {ram : ℕ} {zones : Zone → List Region} (z : Zone)
      (hinit : initRegions b .zero = .ok m) (hfill : fillGapsAsHoles m = .ok m')
      (hram : getTotalVisibaleRam m' = .ok ram)
      (hzones : initZones (m'.regions .free) BootMem.zero.freeZones = .ok zones) :
      MergeCall b (zones z)
  | resZone {m m' : BootMem} {ram : ℕ} {zones : Zone → List Region} (z : Zone)
      (hinit : initRegions b .zero = .ok m) (hfill : fillGapsAsHoles m = .ok m')
      (hram : getTotalVisibaleRam m' = .ok ram)
      (hzones : initZones (m'.regions .reserved) BootMem.zero.resZones = .ok zones) :
      MergeCall b (zones z)

/-- In the two tables of all regions fewer than `MAX_REGIONS` neighbours do not touch. -/
structure CombinedFits (b : BootInput) : Prop where
  memory : ∀ m, initRegions b .zero = .ok m → breaks (sortRegions m.memoryRegions) < maxRegions
  all : ∀ m m', initRegions b .zero = .ok m → fillGapsAsHoles m = .ok m' →
    breaks (sortRegions (getAllRegions m')) < maxRegions

section Calls

variable {b : BootInput} {m m' : BootMem}

/-- Each region is checked against the length of its table. -/
theorem addRegion_fits (h : m.TablesFit) (start stop : ℕ) (type : MemType) :
    Meets (addRegion m start stop type) BootMem.TablesFit fun _ => True := by
  unfold addRegion
  split
  · trivial
  · split
    · exact h
    · split
      · trivial
      next hlen =>
        refine h.setRegions ?_
        rw [List.length_append, List.length_singleton]
        omega

/-- The holes are added one by one. -/
theorem fillGaps_fits (all : List Region) : ∀ {m : BootMem}, m.TablesFit →
    Meets (fillGaps all m) BootMem.TablesFit fun _ => True := by
  induction all with
  | nil => exact fun h => h
  | cons reg rest ih =>
    intro m h
    cases rest with
    | nil => exact h
    | cons next rest =>
      have hgap : Meets (fillGap m reg next) BootMem.TablesFit fun _ => True := by
        unfold fillGap
        split
        · exact addRegion_fits h _ _ .holes
        · exact h
      exact hgap.bind fun m₁ h₁ => ih h₁

theorem gapPass_fits (h : m.TablesFit) (hrun : gapPass m = .ok m') : m'.TablesFit := by
  obtain ⟨all, -, hfill⟩ := (bind_eq_ok ..).mp hrun
  exact (fillGaps_fits all h).result hfill

/-- A zone is stored to only while it has room. -/
theorem zoneParts_fits (regionEnd turns : ℕ) : ∀ {cur : ℕ} {zones : Zone → List Region},
    (∀ z, (zones z).length ≤ maxRegions) →
    Meets (zoneParts regionEnd turns cur zones) (fun out => ∀ z, (out z).length ≤ maxRegions)
      fun _ => True := by
  induction turns with
  | zero => exact fun _ => trivial
  | succ turns ih =>
    intro cur zones h
    unfold zoneParts
    split
    · dsimp only
      generalize (if regionEnd < (zoneOf cur).2 then regionEnd else (zoneOf cur).2) = subEnd
      split
      · split
        · trivial
        next hroom =>
          apply ih
          intro z
          split
          · rw [List.length_append, List.length_singleton]
            omega
          · exact h z
      · exact ih h
    · exact h

theorem initZones_fits {regions : List Region} {zones : Zone → List Region}
    (hrun : initZones regions (fun _ => []) = .ok zones) (z : Zone) :
    (zones z).length ≤ maxRegions := by
  have hall : Meets (initZones regions fun _ => []) (fun out => ∀ z, (out z).length ≤ maxRegions)
      fun _ => True :=
    Meets.foldlM (fun _ reg _ h => zoneParts_fits reg.stop 4 h) fun _ => Nat.zero_le _
  exact hall.result hrun z

/-- **The buffer of the merge.** Every call of `boot_allocator_init` stays inside the buffer and
returns the count of the merged regions exactly if the two calls on the table of all regions find
fewer than `MAX_REGIONS` neighbours that do not touch. -/
theorem merges_inBounds_iff :
    (∀ table, MergeCall b table → MergesInBounds table) ↔ CombinedFits b := by
  constructor
  · intro hall
    exact ⟨fun m hinit => mergesInBounds_iff.mp (hall _ (.memory hinit)),
      fun m m' hinit hfill => mergesInBounds_iff.mp (hall _ (.all hinit hfill))⟩
  · intro hfits table hcall
    cases hcall with
    | reserved hpass =>
      exact mergesInBounds_of_fits (((reservedPass_ready b .zero).result hpass).fit .reserved)
    | free hpass => exact mergesInBounds_of_fits (((freePass_ready b .zero).result hpass).fit .free)
    | memory hinit => exact mergesInBounds_iff.mpr (hfits.memory _ hinit)
    | holes hinit hgaps =>
      exact mergesInBounds_of_fits (gapPass_fits (initRegions_ready hinit).fit hgaps .holes)
    | all hinit hfill => exact mergesInBounds_iff.mpr (hfits.all _ _ hinit hfill)
    | freeZone z _ _ _ hzones => exact mergesInBounds_of_fits (initZones_fits hzones z)
    | resZone z _ _ _ hzones => exact mergesInBounds_of_fits (initZones_fits hzones z)

end Calls

/-! ## A map with too many regions in all -/

/-- Entry `i` of the map below: reserved and usable pages in turn, with a page between them. -/
def stripe (i : ℕ) : MmapEntry where
  range := ⟨(0x400000 + 0x2000 * i) % 2 ^ 64, 0x1000⟩
  type := 1 + i % 2
  addr_lt := Nat.mod_lt _ (Nat.two_pow_pos 64)
  len_lt := (by decide : 0x1000 < 2 ^ 64)

/-- A map with 130 usable and 130 reserved entries. -/
def stripedPc : BootInput := { smallPc with mmap := (List.range 260).map stripe }

/-- The two tables of that map fit, and in the table of both 256 neighbours or more do not touch. -/
theorem stripedPc_breaks : ((initRegions stripedPc .zero).toOption.map fun m =>
    decide (breaks (sortRegions m.memoryRegions) < maxRegions)) = some false := by
  decide +kernel

theorem not_merges_inBounds_stripedPc :
    ¬ ∀ table, MergeCall stripedPc table → MergesInBounds table := by
  intro hall
  obtain ⟨m, hinit, hbreaks⟩ := exists_ok_of_toOption_map stripedPc_breaks
  have hmerge := mergesInBounds_iff.mp (hall _ (.memory hinit))
  exact absurd hmerge (of_decide_eq_false hbreaks)

end Kfs.Memory
