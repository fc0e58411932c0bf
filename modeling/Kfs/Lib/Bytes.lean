import Mathlib.Data.List.Lemmas
import Mathlib.Order.Interval.Set.Disjoint
import Mathlib.Tactic.Common
import Mathlib.Order.CompletePartialOrder

/-!
# Byte-addressed memory

A memory gives every address a byte. `slice` reads a range, `copy` writes one byte after byte, as
`memcpy` does, and `strLen` looks for the end of a string. An operation is described by what it
changes in the range that it writes and by the fact that it changes nothing outside it.
-/

namespace Kfs.Lib.Bytes

variable {m m' : ℕ → ℕ} {p q n k a : ℕ}

/-! ## Operations -/

/-- The memory with one byte stored. -/
def store (m : ℕ → ℕ) (p byte : ℕ) : ℕ → ℕ := fun a => if a = p then byte else m a

/-- The memory with a range cleared. -/
def zero (m : ℕ → ℕ) (p n : ℕ) : ℕ → ℕ := fun a => if p ≤ a ∧ a < p + n then 0 else m a

/-- Copies `n` bytes, lowest address first. -/
def copy (m : ℕ → ℕ) (dest src : ℕ) : ℕ → ℕ → ℕ
  | 0 => m
  | n + 1 => copy (store m dest (m src)) (dest + 1) (src + 1) n

/-- The bytes of a range. -/
def slice (m : ℕ → ℕ) (p n : ℕ) : List ℕ := (List.range n).map fun i => m (p + i)

/-- The number of bytes from `p` on before a zero, if one of the first `n` bytes is zero. -/
def strLen (m : ℕ → ℕ) : ℕ → ℕ → Option ℕ
  | 0, _ => none
  | n + 1, p => if m p = 0 then some 0 else (strLen m n (p + 1)).map (· + 1)

/-- Two ranges, each given by its start and its length, have no address in common. -/
def RangesApart (r r' : ℕ × ℕ) : Prop := r.1 + r.2 ≤ r'.1 ∨ r'.1 + r'.2 ≤ r.1

instance (r r' : ℕ × ℕ) : Decidable (RangesApart r r') := inferInstanceAs (Decidable (_ ∨ _))

theorem RangesApart.symm {r r' : ℕ × ℕ} (h : RangesApart r r') : RangesApart r' r := Or.symm h

/-! ## Slices -/

@[simp] theorem slice_length (m : ℕ → ℕ) (p n : ℕ) : (slice m p n).length = n := by simp [slice]

theorem slice_getElem? (m : ℕ → ℕ) (p n i : ℕ) :
    (slice m p n)[i]? = if i < n then some (m (p + i)) else none := by
  simp only [slice, List.getElem?_map]
  split
  · next hi => simp [hi]
  · next hi => simp [hi]

/-- Two slices are equal exactly if they agree byte by byte. -/
theorem slice_eq_iff : slice m p n = slice m' q n ↔ ∀ i < n, m (p + i) = m' (q + i) := by
  simp [slice, List.map_inj_left]

theorem slice_congr (h : ∀ i < n, m (p + i) = m' (p + i)) : slice m p n = slice m' p n :=
  slice_eq_iff.mpr h

/-! ## What the operations change -/

theorem store_self (m : ℕ → ℕ) (p byte : ℕ) : store m p byte p = byte := if_pos rfl

theorem store_of_ne (m : ℕ → ℕ) (byte : ℕ) (h : a ≠ p) : store m p byte a = m a := if_neg h

theorem zero_outside (m : ℕ → ℕ) (h : a < p ∨ p + n ≤ a) : zero m p n a = m a :=
  if_neg (by omega)

/-- A copy changes nothing outside its destination. -/
theorem copy_outside (src : ℕ) (h : a < p ∨ p + n ≤ a) : copy m p src n a = m a := by
  induction n generalizing m p src with
  | zero => rfl
  | succ n ih =>
    rw [copy, ih (src + 1) (by omega), store_of_ne m _ (by omega)]

/-- A copy between ranges that are apart reproduces its source. -/
theorem copy_inside {dest src : ℕ} (h : RangesApart (dest, n) (src, n)) :
    ∀ i < n, copy m dest src n (dest + i) = m (src + i) := by
  unfold RangesApart at h
  dsimp only at h
  induction n generalizing m dest src with
  | zero =>
    intro i hi
    omega
  | succ n ih =>
    intro i hi
    rw [copy]
    cases i with
    | zero =>
      simp only [Nat.add_zero]
      rw [copy_outside _ (by omega), store_self]
    | succ i =>
      -- the rest of the source is not where the first byte went
      have hrest := @ih (store m dest (m src)) (dest + 1) (src + 1) (by omega) i (by omega)
      rw [show dest + (i + 1) = dest + 1 + i by omega, hrest, store_of_ne m _ (by omega)]
      congr 1
      omega

theorem slice_store (m : ℕ → ℕ) (byte : ℕ) (h : RangesApart (p, 1) (q, n)) :
    slice (store m p byte) q n = slice m q n := by
  unfold RangesApart at h
  exact slice_congr fun i hi => store_of_ne m byte (by dsimp only at h; omega)

theorem slice_zero (m : ℕ → ℕ) (h : RangesApart (p, k) (q, n)) :
    slice (zero m p k) q n = slice m q n := by
  unfold RangesApart at h
  exact slice_congr fun i hi => zero_outside m (by dsimp only at h; omega)

/-- A copy leaves a range alone that is apart from its destination. -/
theorem slice_copy (m : ℕ → ℕ) (src : ℕ) (h : RangesApart (p, k) (q, n)) :
    slice (copy m p src k) q n = slice m q n := by
  unfold RangesApart at h
  exact slice_congr fun i hi => copy_outside src (by dsimp only at h; omega)

/-- A copy puts its source into its destination. -/
theorem slice_copy_self (m : ℕ → ℕ) {dest src : ℕ} (h : RangesApart (dest, n) (src, n)) :
    slice (copy m dest src n) dest n = slice m src n :=
  slice_eq_iff.mpr (copy_inside h)

/-! ## Several copies -/

/-- Copies of `n` bytes each, one after the other, from a list of destinations and sources. -/
def copies (m : ℕ → ℕ) (n : ℕ) (l : List (ℕ × ℕ)) : ℕ → ℕ :=
  l.foldl (fun m c => copy m c.1 c.2 n) m

theorem copies_nil (m : ℕ → ℕ) (n : ℕ) : copies m n [] = m := rfl

theorem copies_cons (m : ℕ → ℕ) (n : ℕ) (c : ℕ × ℕ) (l : List (ℕ × ℕ)) :
    copies m n (c :: l) = copies (copy m c.1 c.2 n) n l := rfl

/-- The copies leave a range alone that is apart from every destination. -/
theorem slice_copies_of_apart {l : List (ℕ × ℕ)} (h : ∀ c ∈ l, RangesApart (c.1, n) (q, k)) :
    slice (copies m n l) q k = slice m q k := by
  induction l generalizing m with
  | nil => rfl
  | cons c l ih =>
    rw [copies_cons, ih fun d hd => h d (List.mem_cons_of_mem c hd)]
    exact slice_copy m c.2 (h c List.mem_cons_self)

/-- Copies to destinations that are apart from each other and from every source reproduce all the
sources. -/
theorem slice_copies {l : List (ℕ × ℕ)} (hdest : (l.map fun c => (c.1, n)).Pairwise RangesApart)
    (hsrc : ∀ c ∈ l, ∀ d ∈ l, RangesApart (c.1, n) (d.2, n)) :
    ∀ c ∈ l, slice (copies m n l) c.1 n = slice m c.2 n := by
  induction l generalizing m with
  | nil => simp
  | cons c l ih =>
    rw [List.map_cons, List.pairwise_cons] at hdest
    intro d hd
    rw [copies_cons]
    rcases List.mem_cons.mp hd with rfl | hd
    · -- the later copies go elsewhere
      rw [slice_copies_of_apart fun e he => (hdest.1 (e.1, n) (List.mem_map_of_mem he)).symm]
      exact slice_copy_self m (hsrc d List.mem_cons_self d List.mem_cons_self)
    · rw [ih hdest.2 (fun e he f hf => hsrc e (List.mem_cons_of_mem c he) f
        (List.mem_cons_of_mem c hf)) d hd]
      exact slice_copy m c.2 (hsrc c List.mem_cons_self d (List.mem_cons_of_mem c hd))

/-! ## Strings -/

/-- The length of a string is the distance to its first zero. -/
theorem strLen_eq_some {fuel : ℕ} : strLen m fuel p = some n ↔
    n < fuel ∧ (∀ i < n, m (p + i) ≠ 0) ∧ m (p + n) = 0 := by
  induction fuel generalizing p n with
  | zero => simp [strLen]
  | succ fuel ih =>
    rw [strLen]
    split
    · next hz =>
      constructor
      · intro h
        obtain rfl := Option.some.inj h
        exact ⟨by omega, by simp, hz⟩
      · rintro ⟨-, hne, -⟩
        cases n with
        | zero => rfl
        | succ n => exact absurd hz (hne 0 (Nat.succ_pos n))
    · next hz =>
      cases n with
      | zero => simpa using fun h : m p = 0 => absurd h hz
      | succ n =>
        simp only [Option.map_eq_some_iff, Nat.succ.injEq, exists_eq_right, ih]
        constructor
        · rintro ⟨hlt, hne, hend⟩
          refine ⟨by omega, fun i hi => ?_, ?_⟩
          · cases i with
            | zero => exact hz
            | succ i => exact (show p + (i + 1) = p + 1 + i by omega) ▸ hne i (by omega)
          · exact (show p + (n + 1) = p + 1 + n by omega) ▸ hend
        · rintro ⟨hlt, hne, hend⟩
          refine ⟨by omega, fun i hi => ?_, ?_⟩
          · exact (show p + (i + 1) = p + 1 + i by omega) ▸ hne (i + 1) (by omega)
          · exact (show p + (n + 1) = p + 1 + n by omega) ▸ hend

end Kfs.Lib.Bytes
