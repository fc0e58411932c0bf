import Mathlib.Data.List.Chain
import Mathlib.Tactic.Common

/-!
# Lists that tile an interval

Pieces with a start and a size tile `[a, b)` when they follow one another without gaps, in list
order, and none is empty.
-/

namespace Kfs.Lib

universe u

variable {α : Type u} {start size : α → ℕ}

/-- The pieces fill `[a, b)` in list order and have positive sizes. -/
def Tiles (start size : α → ℕ) (a b : ℕ) : List α → Prop
  | [] => a = b
  | x :: l => start x = a ∧ 0 < size x ∧ Tiles start size (a + size x) b l

theorem tiles_append {a b : ℕ} {l l' : List α} :
    Tiles start size a b (l ++ l') ↔ ∃ m, Tiles start size a m l ∧ Tiles start size m b l' := by
  induction l generalizing a with
  | nil =>
    constructor
    · exact fun h => ⟨a, rfl, h⟩
    · rintro ⟨m, rfl, h⟩
      exact h
  | cons x l ih =>
    simp only [List.cons_append, Tiles, ih]
    constructor
    · rintro ⟨h1, h2, m, h3, h4⟩
      exact ⟨m, ⟨h1, h2, h3⟩, h4⟩
    · rintro ⟨m, ⟨h1, h2, h3⟩, h4⟩
      exact ⟨h1, h2, m, h3, h4⟩

theorem Tiles.le {a b : ℕ} {l : List α} (h : Tiles start size a b l) : a ≤ b := by
  induction l generalizing a with
  | nil => exact Nat.le_of_eq h
  | cons x l ih =>
    have := ih h.2.2
    omega

/-- Every piece lies inside the interval. -/
theorem Tiles.mem {a b : ℕ} {l : List α} (h : Tiles start size a b l) {x : α} (hx : x ∈ l) :
    a ≤ start x ∧ 0 < size x ∧ start x + size x ≤ b := by
  obtain ⟨l₁, l₂, rfl⟩ := List.append_of_mem hx
  obtain ⟨m, h₁, h₂⟩ := tiles_append.mp h
  rw [h₂.1]
  exact ⟨h₁.le, h₂.2.1, h₂.2.2.le⟩

/-- Every point of the interval lies in a piece. -/
theorem Tiles.covers {a b : ℕ} {l : List α} (h : Tiles start size a b l) {x : ℕ} (ha : a ≤ x)
    (hb : x < b) : ∃ y ∈ l, start y ≤ x ∧ x < start y + size y := by
  induction l generalizing a with
  | nil =>
    obtain rfl : a = b := h
    omega
  | cons y l ih =>
    obtain ⟨hstart, hpos, hrest⟩ := h
    by_cases hx : x < a + size y
    · exact ⟨y, List.mem_cons_self, by omega, by omega⟩
    · obtain ⟨z, hz, hcov⟩ := ih hrest (by omega)
      exact ⟨z, List.mem_cons_of_mem y hz, hcov⟩

/-- The pieces follow one another. -/
theorem Tiles.pairwise {a b : ℕ} {l : List α} (h : Tiles start size a b l) :
    l.Pairwise fun x y => start x + size x ≤ start y := by
  induction l generalizing a with
  | nil => exact List.Pairwise.nil
  | cons x l ih =>
    refine List.pairwise_cons.mpr ⟨fun y hy => ?_, ih h.2.2⟩
    rw [h.1]
    exact (h.2.2.mem hy).1

/-- Two pieces are equal or disjoint. -/
theorem Tiles.eq_or_disjoint {a b : ℕ} {l : List α} (h : Tiles start size a b l) {x y : α}
    (hx : x ∈ l) (hy : y ∈ l) :
    x = y ∨ start x + size x ≤ start y ∨ start y + size y ≤ start x := by
  by_cases hne : x = y
  · exact Or.inl hne
  · right
    have hsymm : Std.Symm fun x y : α => start x + size x ≤ start y ∨
        start y + size y ≤ start x := ⟨fun _ _ hd => hd.symm⟩
    have hpw : l.Pairwise fun x y => start x + size x ≤ start y ∨ start y + size y ≤ start x :=
      h.pairwise.imp fun hle => Or.inl hle
    exact hpw.forall hx hy hne

end Kfs.Lib
