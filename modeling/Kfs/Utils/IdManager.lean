import Kfs.Utils.Bitmap

/-!
# The id manager

`src/utils/id_manager.c`: ids below a bound, the held ones marked in a bitmap, with the next id to
hand out kept beside it. `next_free` is `-1` (here `none`) when every id is held.
-/

namespace Kfs.Utils

/-- `struct id_manager`. -/
structure IdManager where
  bitmap : Bitmap
  nextFree : Option ℕ

/-- `id_manager_create` in memory that `kmalloc` does not clear. -/
def idManagerCreate (maxId : ℕ) (garbage : ℕ → BitVec 8) : IdManager where
  bitmap := Bitmap.clear { nbBits := maxId, data := garbage }
  nextFree := some 0

/-- `id_manager_alloc`: the id, or `none` for `-1`. -/
def idManagerAlloc (mgr : IdManager) : Option ℕ × IdManager :=
  match mgr.nextFree with
  | none => (none, mgr)
  | some allocated =>
    let map := mgr.bitmap.set allocated
    let next :=
      match bitmapFindNextZeroFrom map.nbBits map.data (allocated + 1) with
      | some next => some next
      | none => bitmapFindNextZero map.nbBits map.data
    (some allocated, { bitmap := map, nextFree := next })

/-- `id_manager_free`. -/
def idManagerFree (mgr : IdManager) (id : ℕ) : IdManager where
  bitmap := mgr.bitmap.unset id
  nextFree :=
    match mgr.nextFree with
    | none => some id
    | some next => if id < next then some id else some next

namespace IdManager

variable {mgr : IdManager} {id : ℕ}

/-- The id is held. -/
def Held (mgr : IdManager) (id : ℕ) : Prop := mgr.bitmap.check id = true

/-- `next_free` is the smallest id that is not held. -/
structure Valid (mgr : IdManager) : Prop where
  next_some : ∀ n, mgr.nextFree = some n →
    n < mgr.bitmap.nbBits ∧ ¬ mgr.Held n ∧ ∀ j < n, mgr.Held j
  next_none : mgr.nextFree = none → ∀ j < mgr.bitmap.nbBits, mgr.Held j

theorem Held.lt (h : mgr.Held id) : id < mgr.bitmap.nbBits := Bitmap.check_lt h

theorem held_iff_bitAt {map : Bitmap} (h : id < map.nbBits) :
    map.check id = true ↔ bitAt map.data id = true := by
  unfold Bitmap.check
  rw [if_neg (by omega)]

theorem create_valid {maxId : ℕ} (h : 0 < maxId) (garbage : ℕ → BitVec 8) :
    (idManagerCreate maxId garbage).Valid where
  next_some n hn := by
    obtain rfl : 0 = n := Option.some.inj hn
    refine ⟨h, ?_, fun j hj => absurd hj (Nat.not_lt_zero j)⟩
    simp [Held, idManagerCreate, Bitmap.check_clear]
  next_none h := nomatch h

theorem create_held (maxId : ℕ) (garbage : ℕ → BitVec 8) :
    ¬ (idManagerCreate maxId garbage).Held id := by
  simp [Held, idManagerCreate, Bitmap.check_clear]

/-- An id is handed out when there is one, and it was not held. -/
theorem alloc_some (hm : mgr.Valid) (h : (idManagerAlloc mgr).1 = some id) :
    id < mgr.bitmap.nbBits ∧ ¬ mgr.Held id ∧
      ∀ j, (idManagerAlloc mgr).2.Held j ↔ j = id ∨ mgr.Held j := by
  unfold idManagerAlloc at h ⊢
  cases hn : mgr.nextFree with
  | none => simp [hn] at h
  | some n =>
    simp only [hn, Option.some.injEq] at h
    subst h
    obtain ⟨hlt, hfree, _⟩ := hm.next_some n hn
    refine ⟨hlt, hfree, fun j => ?_⟩
    simp [Held, Bitmap.check_set _ hlt]

theorem alloc_none (h : (idManagerAlloc mgr).1 = none) : (idManagerAlloc mgr).2 = mgr := by
  unfold idManagerAlloc at h ⊢
  cases hn : mgr.nextFree with
  | none => rfl
  | some n => simp [hn] at h

@[simp] theorem alloc_nbBits (mgr : IdManager) :
    (idManagerAlloc mgr).2.bitmap.nbBits = mgr.bitmap.nbBits := by
  unfold idManagerAlloc
  cases mgr.nextFree with
  | none => rfl
  | some n => exact Bitmap.set_nbBits _ _

@[simp] theorem free_nbBits (mgr : IdManager) (id : ℕ) :
    (idManagerFree mgr id).bitmap.nbBits = mgr.bitmap.nbBits := Bitmap.unset_nbBits _ _

/-- The first zero of the bitmap is the smallest id that is not held. -/
theorem next_of_isNextZero {start n : ℕ} {map : Bitmap}
    (h : IsNextZero map.nbBits map.data start n) (hbelow : ∀ j < start, map.check j = true) :
    n < map.nbBits ∧ ¬ map.check n = true ∧ ∀ j < n, map.check j = true := by
  refine ⟨h.lt, ?_, fun j hj => ?_⟩
  · rw [held_iff_bitAt h.lt, h.zero]
    decide
  · by_cases hs : j < start
    · exact hbelow j hs
    · exact (held_iff_bitAt (hj.trans h.lt)).mpr (h.set_below j (not_lt.mp hs) hj)

theorem alloc_valid (hm : mgr.Valid) : (idManagerAlloc mgr).2.Valid := by
  cases hn : mgr.nextFree with
  | none => simpa [idManagerAlloc, hn] using hm
  | some n =>
    obtain ⟨hlt, _, hbelow⟩ := hm.next_some n hn
    -- every id up to the one handed out is held now
    have hset : ∀ j < n + 1, (mgr.bitmap.set n).check j = true := by
      intro j hj
      rw [Bitmap.check_set _ hlt]
      by_cases hjn : j = n
      · simp [hjn]
      · simp only [Bool.or_eq_true]
        exact .inr (hbelow j (by omega))
    simp only [idManagerAlloc, hn]
    cases hfrom : bitmapFindNextZeroFrom (mgr.bitmap.set n).nbBits (mgr.bitmap.set n).data
        (n + 1) with
    | some m =>
      refine ⟨fun m' hm' => ?_, fun h => nomatch h⟩
      obtain rfl : m = m' := Option.some.inj hm'
      exact next_of_isNextZero (bitmapFindNextZeroFrom_some hfrom) hset
    | none =>
      refine ⟨fun m' hm' => ?_, fun _ j hj => ?_⟩
      · exact next_of_isNextZero (bitmapFindNextZeroFrom_some hm') fun j hj => by omega
      · by_cases hjn : j < n + 1
        · exact hset j hjn
        · exact (held_iff_bitAt hj).mpr (bitmapFindNextZeroFrom_none hfrom (not_lt.mp hjn) hj)

/-- **An id that is given back at once** leaves the manager as it was. -/
theorem free_alloc {mgr' : IdManager} (hm : mgr.Valid) (h : idManagerAlloc mgr = (some id, mgr')) :
    idManagerFree mgr' id = mgr := by
  have hvalid : mgr'.Valid := by
    have := alloc_valid hm
    rw [h] at this
    exact this
  have hheld : ∀ j, mgr'.Held j ↔ j = id ∨ mgr.Held j := by
    have := (alloc_some hm (congrArg Prod.fst h)).2.2
    rw [h] at this
    exact this
  unfold idManagerAlloc at h
  cases hn : mgr.nextFree with
  | none =>
    rw [hn] at h
    cases h
  | some n =>
    obtain ⟨hlt, hfree, hbelow⟩ := hm.next_some n hn
    rw [hn] at h
    obtain ⟨hid, rfl⟩ := Prod.mk.inj h
    obtain rfl : n = id := Option.some.inj hid
    have hbitmap : (mgr.bitmap.set n).unset n = mgr.bitmap := Bitmap.unset_set hlt (by simpa [Held] using hfree)
    unfold idManagerFree
    dsimp only at hvalid ⊢
    rw [hbitmap]
    -- the next id to hand out is larger than the one that was
    have hnext : ∀ m, (match bitmapFindNextZeroFrom (mgr.bitmap.set n).nbBits (mgr.bitmap.set n).data
        (n + 1) with
      | some next => some next
      | none => bitmapFindNextZero (mgr.bitmap.set n).nbBits (mgr.bitmap.set n).data) = some m →
        n < m := by
      intro m hm'
      have hnot := (hvalid.next_some m hm').2.1
      rw [hheld] at hnot
      by_contra hle
      rcases Nat.lt_or_eq_of_le (not_lt.mp hle) with hlt | heq
      · exact hnot (Or.inr (hbelow m hlt))
      · exact hnot (Or.inl heq)
    cases hfind : (match bitmapFindNextZeroFrom (mgr.bitmap.set n).nbBits (mgr.bitmap.set n).data
        (n + 1) with
      | some next => some next
      | none => bitmapFindNextZero (mgr.bitmap.set n).nbBits (mgr.bitmap.set n).data) with
    | none =>
      dsimp only
      rw [← hn]
    | some m =>
      dsimp only
      rw [if_pos (hnext m hfind), ← hn]

theorem free_held (hid : id < mgr.bitmap.nbBits) (j : ℕ) :
    (idManagerFree mgr id).Held j ↔ j ≠ id ∧ mgr.Held j := by
  unfold Held idManagerFree
  simp [Bitmap.check_unset _ hid]

theorem free_valid (hm : mgr.Valid) (hid : id < mgr.bitmap.nbBits) :
    (idManagerFree mgr id).Valid := by
  cases hn : mgr.nextFree with
  | none =>
    have hall := hm.next_none hn
    refine ⟨fun n h => ?_, fun h => ?_⟩
    · obtain rfl : id = n := by simpa [idManagerFree, hn] using h
      refine ⟨by simpa using hid, ?_, fun j hj => ?_⟩
      · simp [free_held hid]
      · exact (free_held hid j).mpr ⟨by omega, hall j (by omega)⟩
    · simp [idManagerFree, hn] at h
  | some next =>
    obtain ⟨hlt, hfree, hbelow⟩ := hm.next_some next hn
    refine ⟨fun n h => ?_, fun h => ?_⟩
    · have hn' : n = if id < next then id else next := by
        simp only [idManagerFree, hn] at h
        split at h <;> simp_all
      have hle : n ≤ next := by split at hn' <;> omega
      refine ⟨by rw [free_nbBits]; omega, ?_, fun j hj => ?_⟩
      · rw [free_held hid]
        rintro ⟨hne, hheld⟩
        split at hn'
        · exact hne hn'
        · exact hfree (hn' ▸ hheld)
      · refine (free_held hid j).mpr ⟨?_, hbelow j (by omega)⟩
        split at hn' <;> omega
    · simp only [idManagerFree, hn] at h
      split at h <;> cases h

end IdManager

end Kfs.Utils
