import Kfs.Lib.TransitionSystem
import Kfs.Utils.IdManager

/-!
# Runs of the id manager

Any sequence of `id_manager_alloc`, `id_manager_free` and `id_manager_reserve_id` on a fresh manager.
Beside the manager a run keeps the ids that are held, as their users see it: an id is held from the
call that hands it out or reserves it until it is freed. The bitmap and `next_free` describe exactly
these ids.

Ids are below `2 ^ 31`, so that `ssize_t` holds each of them.
-/

namespace Kfs.Utils

open Kfs.Lib

/-- `id_manager_reserve_id`. -/
def idManagerReserveId (mgr : IdManager) (id : ℕ) : Bool × IdManager :=
  if mgr.bitmap.check id || decide (id ≥ mgr.bitmap.nbBits) then (false, mgr)
  else
    let map := mgr.bitmap.set id
    if some id = mgr.nextFree then
      let next :=
        match bitmapFindNextZeroFrom map.nbBits map.data (id + 1) with
        | some next => some next
        | none => bitmapFindNextZero map.nbBits map.data
      (true, { bitmap := map, nextFree := next })
    else (true, { bitmap := map, nextFree := mgr.nextFree })

namespace IdManager

variable {mgr : IdManager} {id : ℕ}

/-- An id can be reserved exactly if it exists and is not held. -/
theorem reserveId_eq_true_iff :
    (idManagerReserveId mgr id).1 = true ↔ id < mgr.bitmap.nbBits ∧ ¬ mgr.Held id := by
  unfold idManagerReserveId Held
  by_cases hlt : id < mgr.bitmap.nbBits
  · cases hheld : mgr.bitmap.check id with
    | true => simp
    | false =>
      simp only [Bool.false_or, ge_iff_le, Nat.not_le.mpr hlt, decide_false, Bool.false_eq_true,
        if_false, hlt, not_false_eq_true, and_self, iff_true]
      split
      · rfl
      · rfl
  · simp [hlt, Nat.not_lt.mp hlt]

/-- A call that returns `false` changes nothing. -/
theorem reserveId_eq_of_false (h : (idManagerReserveId mgr id).1 = false) :
    (idManagerReserveId mgr id).2 = mgr := by
  unfold idManagerReserveId at h ⊢
  split at h
  · next hc => rw [if_pos hc]
  · simp only at h
    split at h
    · cases h
    · cases h

/-- Reserving the next id is what `id_manager_alloc` does with it. -/
theorem reserveId_next (hnext : mgr.nextFree = some id)
    (h : (idManagerReserveId mgr id).1 = true) :
    (idManagerReserveId mgr id).2 = (idManagerAlloc mgr).2 := by
  obtain ⟨hlt, hheld⟩ := reserveId_eq_true_iff.mp h
  have hfree : ¬ (mgr.bitmap.check id || decide (id ≥ mgr.bitmap.nbBits)) = true := by
    simpa [Held, hlt] using hheld
  unfold idManagerReserveId
  rw [if_neg hfree, if_pos hnext.symm]
  obtain ⟨bitmap, next⟩ := mgr
  obtain rfl : next = some id := hnext
  rfl

theorem reserveId_other (hnext : mgr.nextFree ≠ some id)
    (h : (idManagerReserveId mgr id).1 = true) :
    (idManagerReserveId mgr id).2 = { bitmap := mgr.bitmap.set id, nextFree := mgr.nextFree } := by
  obtain ⟨hlt, hheld⟩ := reserveId_eq_true_iff.mp h
  have hcheck : mgr.bitmap.check id = false := by simpa [Held] using hheld
  unfold idManagerReserveId
  simp [hcheck, Nat.not_le.mpr hlt, Ne.symm hnext]

/-- A reserved id is held, and nothing else changes. -/
theorem reserveId_held (h : (idManagerReserveId mgr id).1 = true) (j : ℕ) :
    (idManagerReserveId mgr id).2.Held j ↔ j = id ∨ mgr.Held j := by
  obtain ⟨hlt, -⟩ := reserveId_eq_true_iff.mp h
  by_cases hnext : mgr.nextFree = some id
  · rw [reserveId_next hnext h]
    unfold idManagerAlloc Held
    simp [hnext, Bitmap.check_set _ hlt]
  · rw [reserveId_other hnext h]
    simp [Held, Bitmap.check_set _ hlt]

@[simp] theorem reserveId_nbBits (mgr : IdManager) (id : ℕ) :
    (idManagerReserveId mgr id).2.bitmap.nbBits = mgr.bitmap.nbBits := by
  cases h : (idManagerReserveId mgr id).1 with
  | false => rw [reserveId_eq_of_false h]
  | true =>
    by_cases hnext : mgr.nextFree = some id
    · rw [reserveId_next hnext h, alloc_nbBits]
    · rw [reserveId_other hnext h]
      exact Bitmap.set_nbBits _ _

/-- **`id_manager_reserve_id`** keeps `next_free` right. -/
theorem reserveId_valid (hm : mgr.Valid) : (idManagerReserveId mgr id).2.Valid := by
  cases h : (idManagerReserveId mgr id).1 with
  | false =>
    rw [reserveId_eq_of_false h]
    exact hm
  | true =>
    obtain ⟨hlt, hheld⟩ := reserveId_eq_true_iff.mp h
    by_cases hnext : mgr.nextFree = some id
    · rw [reserveId_next hnext h]
      exact alloc_valid hm
    · have hset := reserveId_held h
      have hbits := reserveId_nbBits mgr id
      have hsame : (idManagerReserveId mgr id).2.nextFree = mgr.nextFree := by
        rw [reserveId_other hnext h]
      refine ⟨fun n hn => ?_, fun hn j _ => ?_⟩
      · rw [hsame] at hn
        obtain ⟨hn₁, hn₂, hn₃⟩ := hm.next_some n hn
        refine ⟨hbits.symm ▸ hn₁, fun hc => ?_, fun j hj => (hset j).mpr (Or.inr (hn₃ j hj))⟩
        rcases (hset n).mp hc with rfl | hc
        · exact hnext hn
        · exact hn₂ hc
      · -- with every id held the call would have failed
        rw [hsame] at hn
        exact absurd (hm.next_none hn id hlt) hheld

/-- What `id_manager_alloc` returns is the smallest id that is not held. -/
theorem alloc_eq_some_iff (hm : mgr.Valid) :
    (idManagerAlloc mgr).1 = some id ↔
      id < mgr.bitmap.nbBits ∧ ¬ mgr.Held id ∧ ∀ j < id, mgr.Held j := by
  have hnext : (idManagerAlloc mgr).1 = mgr.nextFree := by
    unfold idManagerAlloc
    cases mgr.nextFree with
    | none => rfl
    | some n => rfl
  rw [hnext]
  constructor
  · exact hm.next_some id
  · rintro ⟨hlt, hfree, hbelow⟩
    cases hn : mgr.nextFree with
    | none => exact absurd (hm.next_none hn id hlt) hfree
    | some n =>
      obtain ⟨-, hnfree, hnbelow⟩ := hm.next_some n hn
      rcases lt_trichotomy n id with hlt | rfl | hgt
      · exact absurd (hbelow n hlt) hnfree
      · rfl
      · exact absurd (hnbelow id hgt) hfree

theorem alloc_eq_none_iff (hm : mgr.Valid) :
    (idManagerAlloc mgr).1 = none ↔ ∀ j < mgr.bitmap.nbBits, mgr.Held j := by
  constructor
  · intro h
    refine hm.next_none ?_
    unfold idManagerAlloc at h
    cases hn : mgr.nextFree with
    | none => rfl
    | some n => simp [hn] at h
  · intro hall
    cases h : (idManagerAlloc mgr).1 with
    | none => rfl
    | some n =>
      obtain ⟨hlt, hfree, -⟩ := (alloc_eq_some_iff hm).mp h
      exact absurd (hall n hlt) hfree

end IdManager

/-! ## Runs -/

/-- The calls. -/
inductive IdCall where
  | alloc
  | free (id : ℕ)
  | reserve (id : ℕ)
  deriving DecidableEq, Repr

/-- Only ids below the bound are freed. -/
def IdCall.Valid (maxId : ℕ) : IdCall → Prop
  | .free id => id < maxId
  | _ => True

/-- The manager, and the ids that its users hold. -/
structure IdRun where
  mgr : IdManager
  held : ℕ → Bool

/-- An id becomes held or is given up. -/
def setHeld (held : ℕ → Bool) (id : ℕ) (value : Bool) : ℕ → Bool :=
  fun j => if j = id then value else held j

/-- One call, with the users' record of it. -/
def idStep (r : IdRun) : IdCall → IdRun
  | .alloc =>
    let (id, mgr) := idManagerAlloc r.mgr
    { mgr := mgr, held := id.elim r.held fun id => setHeld r.held id true }
  | .free id => { mgr := idManagerFree r.mgr id, held := setHeld r.held id false }
  | .reserve id =>
    let (ok, mgr) := idManagerReserveId r.mgr id
    { mgr := mgr, held := if ok then setHeld r.held id true else r.held }

/-- The runs of a manager from `id_manager_create(maxId)`. -/
def idSystem (maxId : ℕ) : System IdRun IdCall where
  init r := (∃ garbage, r.mgr = idManagerCreate maxId garbage) ∧ r.held = fun _ => false
  step r call r' := call.Valid maxId ∧ r' = idStep r call

/-- The bitmap marks the ids that are held. -/
structure IdRun.Inv (maxId : ℕ) (r : IdRun) : Prop where
  valid : r.mgr.Valid
  bits : r.mgr.bitmap.nbBits = maxId
  held : ∀ id, r.mgr.Held id ↔ r.held id = true

theorem setHeld_true {held : ℕ → Bool} {id j : ℕ} :
    setHeld held id true j = true ↔ j = id ∨ held j = true := by
  unfold setHeld
  split
  · next h => simp [h]
  · next h => simp [h]

theorem setHeld_false {held : ℕ → Bool} {id j : ℕ} :
    setHeld held id false j = true ↔ j ≠ id ∧ held j = true := by
  unfold setHeld
  split
  · next h => simp [h]
  · next h => simp [h]

/-- **One call.** -/
theorem IdRun.Inv.step {maxId : ℕ} {r : IdRun} (h : r.Inv maxId) {call : IdCall}
    (hvalid : call.Valid maxId) : (idStep r call).Inv maxId := by
  cases call with
  | alloc =>
    have hmgr : (idStep r .alloc).mgr = (idManagerAlloc r.mgr).2 := rfl
    refine ⟨hmgr ▸ IdManager.alloc_valid h.valid, ?_, fun id => ?_⟩
    · rw [hmgr, IdManager.alloc_nbBits, h.bits]
    · have hheld : (idStep r .alloc).held =
          (idManagerAlloc r.mgr).1.elim r.held fun id => setHeld r.held id true := rfl
      rw [hmgr, hheld]
      cases halloc : (idManagerAlloc r.mgr).1 with
      | none =>
        rw [IdManager.alloc_none halloc]
        exact h.held id
      | some n =>
        rw [(IdManager.alloc_some h.valid halloc).2.2 id, h.held id]
        exact setHeld_true.symm
  | free id =>
    have hlt : id < r.mgr.bitmap.nbBits := h.bits.symm ▸ hvalid
    refine ⟨IdManager.free_valid h.valid hlt, ?_, fun j => ?_⟩
    · exact (IdManager.free_nbBits r.mgr id).trans h.bits
    · show (idManagerFree r.mgr id).Held j ↔ _
      rw [IdManager.free_held hlt, h.held j]
      exact setHeld_false.symm
  | reserve id =>
    have hmgr : (idStep r (.reserve id)).mgr = (idManagerReserveId r.mgr id).2 := rfl
    refine ⟨hmgr ▸ IdManager.reserveId_valid h.valid, ?_, fun j => ?_⟩
    · rw [hmgr, IdManager.reserveId_nbBits, h.bits]
    · have hheld : (idStep r (.reserve id)).held =
          if (idManagerReserveId r.mgr id).1 then setHeld r.held id true else r.held := rfl
      rw [hmgr, hheld]
      cases hok : (idManagerReserveId r.mgr id).1 with
      | false =>
        rw [IdManager.reserveId_eq_of_false hok]
        exact h.held j
      | true =>
        rw [IdManager.reserveId_held hok, h.held j]
        exact setHeld_true.symm

/-- **The smallest free id.** In every state of every run: `id_manager_alloc` returns the smallest id
below the bound that is not held, and `-1` exactly if all are; `id_manager_reserve_id` succeeds
exactly for the ids below the bound that are not held. -/
theorem idManager_smallest_free {maxId : ℕ} (hpos : 0 < maxId) {r : IdRun}
    (hr : (idSystem maxId).Reachable r) :
    (∀ id, (idManagerAlloc r.mgr).1 = some id ↔
      id < maxId ∧ r.held id = false ∧ ∀ j < id, r.held j = true) ∧
    ((idManagerAlloc r.mgr).1 = none ↔ ∀ j < maxId, r.held j = true) ∧
    (∀ id, (idManagerReserveId r.mgr id).1 = true ↔ id < maxId ∧ r.held id = false) ∧
    ∀ id, r.held id = true → id < maxId := by
  have hinv : r.Inv maxId := by
    apply hr.invariant
    · rintro r₀ ⟨⟨garbage, hmgr⟩, hheld⟩
      refine ⟨hmgr ▸ IdManager.create_valid hpos garbage, by rw [hmgr]; rfl, fun id => ?_⟩
      rw [hmgr, hheld]
      exact iff_of_false (IdManager.create_held maxId garbage) Bool.false_ne_true
    · rintro r₁ call r₂ h ⟨hvalid, rfl⟩
      exact h.step hvalid
  have hnot : ∀ id, ¬ r.mgr.Held id ↔ r.held id = false := by
    intro id
    rw [hinv.held id, Bool.not_eq_true]
  refine ⟨fun id => ?_, ?_, fun id => ?_, fun id hid => ?_⟩
  · rw [IdManager.alloc_eq_some_iff hinv.valid, hinv.bits, hnot id]
    simp only [hinv.held]
  · rw [IdManager.alloc_eq_none_iff hinv.valid, hinv.bits]
    simp only [hinv.held]
  · rw [IdManager.reserveId_eq_true_iff, hinv.bits, hnot id]
  · exact hinv.bits ▸ ((hinv.held id).mpr hid).lt

/-- Valid calls lead from a reached state to a reached state. -/
theorem idSystem_foldl {maxId : ℕ} {calls : List IdCall} :
    ∀ {r : IdRun}, (idSystem maxId).Reachable r → (∀ call ∈ calls, call.Valid maxId) →
      (idSystem maxId).Reachable (calls.foldl idStep r) := by
  induction calls with
  | nil =>
    intro r hr _
    exact hr
  | cons call calls ih =>
    intro r hr hvalid
    have hnext : (idSystem maxId).Reachable (idStep r call) :=
      hr.step ⟨hvalid call List.mem_cons_self, rfl⟩
    exact ih hnext fun c hc => hvalid c (List.mem_cons_of_mem _ hc)

/-- A bound that is no multiple of 8, with ids reserved, handed out, freed and refused. -/
def fullIds : IdRun :=
  [IdCall.reserve 1, .alloc, .alloc, .free 1, .reserve 9].foldl idStep
    { mgr := idManagerCreate 3 fun _ => 0xA5, held := fun _ => false }

theorem idManager_smallest_free_fullIds :
    (idManagerAlloc fullIds.mgr).1 = some 1 ∧ fullIds.held 0 = true ∧ fullIds.held 2 = true := by
  have hreach : (idSystem 3).Reachable fullIds := by
    apply idSystem_foldl (.init ⟨⟨fun _ => 0xA5, rfl⟩, rfl⟩)
    simp [IdCall.Valid]
  have hall := idManager_smallest_free (by decide) hreach
  have h0 : fullIds.held 0 = true := by decide
  refine ⟨(hall.1 1).mpr ⟨by decide, by decide, fun j hj => ?_⟩, h0, by decide⟩
  obtain rfl : j = 0 := by omega
  exact h0

end Kfs.Utils
