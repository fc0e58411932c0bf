import Mathlib.Data.List.Nodup
import Mathlib.Data.List.Range
import Mathlib.Logic.Function.Basic
import Mathlib.Tactic.Common

/-!
# Singly linked chains

A chain is a list of cells threaded through a successor function `next` and ended by `null`: what a
pointer to its first cell represents. Cells hold nothing but their link, so a chain survives every
change of `next` outside its cells.
-/

namespace Kfs.Lib

universe u

variable {α : Type u} {next next' : α → α} {null a x : α} {l : List α}

/-- Following `next` from `a` visits exactly the cells of the list and ends at `null`. -/
def Chain (next : α → α) (null : α) : α → List α → Prop
  | a, [] => a = null
  | a, x :: l => a = x ∧ x ≠ null ∧ Chain next null (next x) l

/-- A chain only reads the links of its cells. -/
theorem Chain.frame (h : Chain next null a l) (hl : ∀ x ∈ l, next' x = next x) :
    Chain next' null a l := by
  induction l generalizing a with
  | nil => exact h
  | cons x l ih =>
    obtain ⟨hax, hne, hrest⟩ := h
    refine ⟨hax, hne, ?_⟩
    rw [hl x List.mem_cons_self]
    exact ih hrest fun y hy => hl y (List.mem_cons_of_mem x hy)

/-- The pointer is `null` exactly when there is no cell. -/
theorem Chain.eq_null_iff (h : Chain next null a l) : a = null ↔ l = [] := by
  cases l with
  | nil => exact ⟨fun _ => rfl, fun _ => h⟩
  | cons x l =>
    obtain ⟨rfl, hne, -⟩ := h
    exact ⟨fun ha => absurd ha hne, fun hl => nomatch hl⟩

/-- A new first cell. -/
theorem Chain.push [DecidableEq α] (h : Chain next null a l) (hx : x ≠ null) (hxl : x ∉ l) :
    Chain (Function.update next x a) null x (x :: l) := by
  refine ⟨rfl, hx, ?_⟩
  rw [Function.update_self]
  apply h.frame
  intro y hy
  exact Function.update_of_ne (ne_of_mem_of_not_mem hy hxl) a next

/-- The chain of `n + 1` cells that a loop builds front to back, each cell linked to the one
after it. -/
theorem Chain.ofFn {f : ℕ → α} {n : ℕ} (hnull : ∀ i ≤ n, f i ≠ null)
    (hnext : ∀ i < n, next (f i) = f (i + 1)) (hlast : next (f n) = null) :
    Chain next null (f 0) ((List.range (n + 1)).map f) := by
  -- from the back: the chain that starts at cell `i` has the cells `i, …, n`
  suffices h : ∀ m i, i + m = n → Chain next null (f i) ((List.range' i (m + 1)).map f) by
    rw [List.range_eq_range']
    exact h n 0 (Nat.zero_add n)
  intro m
  induction m with
  | zero =>
    intro i hi
    obtain rfl : i = n := hi
    exact ⟨rfl, hnull i le_rfl, hlast⟩
  | succ m ih =>
    intro i hi
    rw [List.range'_succ, List.map_cons]
    refine ⟨rfl, hnull i (by omega), ?_⟩
    rw [hnext i (by omega)]
    exact ih (i + 1) (by omega)

end Kfs.Lib
