import Mathlib.Tactic.Common

/-!
# Words between separators

The words of a list are its longest parts without a separator that are not empty. `Splits` says
that a list is made of these words and the runs of separators around them; it determines the words
(`Splits.eq_splitOn`), gives the list back (`Splits.join`), and they can be counted by looking one
element ahead (`Splits.length_eq`).
-/

namespace Kfs.Lib

universe u

variable {α : Type u} {c x : α} {s t g w rest : List α} {ws : List (List α)}

/-- The list consists of the words, with separators before, between and behind them. A word ends
where the list does or at a separator. -/
inductive Splits (c : α) : List α → List (List α) → Prop where
  | gap {g : List α} (hg : ∀ x ∈ g, x = c) : Splits c g []
  | word {g w rest : List α} {ws : List (List α)} (hg : ∀ x ∈ g, x = c) (hw : w ≠ [])
      (hc : c ∉ w) (hrest : ∀ x ∈ rest.head?, x = c) (h : Splits c rest ws) :
      Splits c (g ++ (w ++ rest)) (w :: ws)

/-- One more separator in front. -/
theorem Splits.cons_separator (h : Splits c s ws) : Splits c (c :: s) ws := by
  cases h with
  | gap hg => exact .gap (List.forall_mem_cons.mpr ⟨rfl, hg⟩)
  | @word g w rest ws hg hw hc hrest h =>
    exact .word (g := c :: g) (List.forall_mem_cons.mpr ⟨rfl, hg⟩) hw hc hrest h

/-- The separators skipped and the words give the list back. -/
theorem Splits.join (h : Splits c s ws) :
    ∃ gaps last, gaps.length = ws.length ∧ (∀ g ∈ last :: gaps, ∀ x ∈ g, x = c) ∧
      (List.zipWith (· ++ ·) gaps ws).flatten ++ last = s := by
  induction h with
  | @gap g hg => exact ⟨[], g, rfl, by simpa using hg, rfl⟩
  | @word g w rest ws hg _ _ _ _ ih =>
    obtain ⟨gaps, last, hlen, hgaps, hjoin⟩ := ih
    obtain ⟨hlast, hgaps⟩ := List.forall_mem_cons.mp hgaps
    refine ⟨g :: gaps, last, by simp [hlen], ?_, ?_⟩
    · exact List.forall_mem_cons.mpr ⟨hlast, List.forall_mem_cons.mpr ⟨hg, hgaps⟩⟩
    · simp [← hjoin]

/-- There are no more words than elements. -/
theorem Splits.length_le (h : Splits c s ws) : ws.length ≤ s.length := by
  induction h with
  | gap _ => exact Nat.zero_le _
  | word _ hw _ _ _ ih =>
    have hpos := List.length_pos_iff.mpr hw
    simp only [List.length_cons, List.length_append]
    omega

section Decidable

variable [DecidableEq α]

/-- A list that does not start with a separator starts with a word. -/
theorem exists_word (hx : x ≠ c) (s : List α) :
    ∃ w rest, x :: s = w ++ rest ∧ w ≠ [] ∧ c ∉ w ∧ ∀ y ∈ rest.head?, y = c := by
  induction s generalizing x with
  | nil => exact ⟨[x], [], rfl, List.cons_ne_nil x [], by simpa using hx.symm, by simp⟩
  | cons y s ih =>
    by_cases hy : y = c
    · exact ⟨[x], y :: s, rfl, List.cons_ne_nil x [], by simpa using hx.symm, by simpa using hy⟩
    · obtain ⟨w, rest, hs, -, hc, hrest⟩ := ih hy
      refine ⟨x :: w, rest, by rw [hs, List.cons_append], List.cons_ne_nil x w, ?_, hrest⟩
      exact fun hmem => (List.mem_cons.mp hmem).elim (fun h => hx h.symm) hc

/-- The words are the non-empty parts between the separators. -/
theorem Splits.eq_splitOn (h : Splits c s ws) :
    ws = (s.splitOn c).filter (fun w => !w.isEmpty) := by
  have hgap : ∀ (g t : List α), (∀ x ∈ g, x = c) →
      ((g ++ t).splitOn c).filter (fun w => !w.isEmpty) =
        (t.splitOn c).filter (fun w => !w.isEmpty) := by
    intro g t hg
    induction g with
    | nil => rfl
    | cons x g ih =>
      obtain ⟨rfl, hg⟩ := List.forall_mem_cons.mp hg
      rw [List.cons_append, List.splitOn_cons_eq_if_modifyHead, if_pos (beq_self_eq_true x)]
      exact ih hg
  induction h with
  | @gap g hg =>
    have h := hgap g [] hg
    rw [List.append_nil] at h
    rw [h]
    rfl
  | @word g w rest ws hg hw hc hrest _ ih =>
    rw [hgap _ _ hg, ih]
    cases rest with
    | nil =>
      rw [List.append_nil, List.splitOn_eq_singleton hc]
      simp [hw]
    | cons y rest =>
      obtain rfl : y = c := hrest y rfl
      rw [List.splitOn_cons_eq_if_modifyHead, if_pos (beq_self_eq_true y),
        List.splitOn_append_cons_of_beq w rest (beq_self_eq_true y),
        List.splitOn_eq_singleton hc]
      simp [hw]

/-- Whether a word starts at the front. -/
def startsWord (c : α) : List α → ℕ
  | [] => 0
  | x :: _ => if x = c then 0 else 1

/-- The words that start behind a separator. -/
def laterWords (c : α) : List α → ℕ
  | [] => 0
  | x :: t => (if x = c then startsWord c t else 0) + laterWords c t

theorem laterWords_word (hc : c ∉ w) : laterWords c (w ++ rest) = laterWords c rest := by
  induction w with
  | nil => rfl
  | cons x w ih =>
    obtain ⟨hx, hw⟩ := not_or.mp (mt List.mem_cons.mpr hc)
    rw [List.cons_append, laterWords, if_neg (Ne.symm hx), ih hw, Nat.zero_add]

theorem startsWord_rest (hrest : ∀ x ∈ rest.head?, x = c) : startsWord c rest = 0 := by
  cases rest with
  | nil => rfl
  | cons y rest =>
    obtain rfl : y = c := hrest y rfl
    exact if_pos rfl

/-- **Counting by looking ahead**: a word at the front and the words behind separators are all. -/
theorem Splits.length_eq (h : Splits c s ws) : startsWord c s + laterWords c s = ws.length := by
  have hgap : ∀ (g t : List α), (∀ x ∈ g, x = c) →
      startsWord c (g ++ t) + laterWords c (g ++ t) = startsWord c t + laterWords c t := by
    intro g t hg
    induction g with
    | nil => rfl
    | cons x g ih =>
      obtain ⟨rfl, hg⟩ := List.forall_mem_cons.mp hg
      rw [← ih hg, List.cons_append, laterWords, startsWord, if_pos rfl, if_pos rfl, Nat.zero_add]
  induction h with
  | @gap g hg =>
    have h := hgap g [] hg
    rw [List.append_nil] at h
    exact h
  | @word g w rest ws hg hw hc hrest _ ih =>
    rw [startsWord_rest hrest, Nat.zero_add] at ih
    obtain ⟨x, t, rfl⟩ := List.exists_cons_of_ne_nil hw
    have hx : x ≠ c := fun hx => hc (hx ▸ List.mem_cons_self)
    rw [hgap _ _ hg, laterWords_word hc, ih, List.cons_append, startsWord, if_neg hx,
      List.length_cons, Nat.add_comm]

end Decidable

end Kfs.Lib
