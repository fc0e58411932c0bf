import Mathlib.Data.Nat.Bitwise
import Mathlib.Tactic

/-!
# Unsigned 32-bit arithmetic on `ℕ`

Machine words are natural numbers below `2 ^ 32`. The operations here are the ones a C
compiler emits for `unsigned int`: sums and differences reduce modulo `2 ^ 32`, masks with the
complement of `2 ^ k - 1` clear the low bits, and rounding up adds before it masks, so it wraps
near the top of the range.

Each operation comes with the lemma that removes the wrap when the operands allow it. The sums are
irreducible, so that no unification ever unfolds `2 ^ 32` into successors.
-/

namespace Kfs.Lib.Word32

/-! ## Sums and differences -/

/-- `a + b` on 32-bit words. -/
@[irreducible] def add32 (a b : ℕ) : ℕ := (a + b) % 2 ^ 32

/-- `a - b` on 32-bit words. -/
@[irreducible] def sub32 (a b : ℕ) : ℕ := (a + (2 ^ 32 - b)) % 2 ^ 32

theorem add32_lt (a b : ℕ) : add32 a b < 2 ^ 32 := by
  unfold add32
  exact Nat.mod_lt _ (by norm_num)

theorem add32_eq {a b : ℕ} (h : a + b < 2 ^ 32) : add32 a b = a + b := by
  unfold add32
  exact Nat.mod_eq_of_lt h

theorem sub32_eq {a b : ℕ} (ha : a < 2 ^ 32) (hb : b ≤ a) : sub32 a b = a - b := by
  unfold sub32
  have h : a + (2 ^ 32 - b) = (a - b) + 2 ^ 32 := by omega
  rw [h, Nat.add_mod_right]
  exact Nat.mod_eq_of_lt (by omega)

/-! ## Masks and rounding -/

/-- The mask `~(2 ^ k - 1)` of a 32-bit word. -/
def highMask (k : ℕ) : ℕ := 2 ^ 32 - 2 ^ k

/-- Masking with `~(2 ^ k - 1)` rounds down to a multiple of `2 ^ k`. -/
theorem and_highMask {x k : ℕ} (hx : x < 2 ^ 32) (hk : k ≤ 32) :
    x &&& highMask k = x / 2 ^ k * 2 ^ k := by
  have hmask : highMask k = 2 ^ k * (2 ^ (32 - k) - 1) := by
    unfold highMask
    rw [Nat.mul_sub, ← pow_add, Nat.add_sub_cancel' hk, mul_one]
  apply Nat.eq_of_testBit_eq
  intro i
  rw [Nat.testBit_and, hmask, Nat.testBit_two_pow_mul, Nat.testBit_two_pow_sub_one,
    Nat.testBit_mul_two_pow, Nat.testBit_div_two_pow]
  by_cases hki : k ≤ i
  · simp only [ge_iff_le, hki, decide_true, Bool.true_and, Nat.sub_add_cancel hki]
    by_cases hi : i < 32
    · have : i - k < 32 - k := by omega
      simp [this]
    · have hbit : x.testBit i = false :=
        Nat.testBit_lt_two_pow (lt_of_lt_of_le hx (Nat.pow_le_pow_right (by norm_num) (by omega)))
      simp [hbit]
  · simp [hki]

/-- `ALIGN_DOWN(x, 2 ^ k)`. -/
def alignDown32 (x k : ℕ) : ℕ := x &&& highMask k

/-- `ALIGN(x, 2 ^ k)`: add `2 ^ k - 1` with wrap, then mask. -/
def alignUp32 (x k : ℕ) : ℕ := add32 x (2 ^ k - 1) &&& highMask k

/-- `DIV_ROUND_UP(x, y)`: the sum `x + y - 1` wraps before the division. -/
def divRoundUp32 (x y : ℕ) : ℕ := add32 x (y - 1) / y

theorem alignDown32_eq {x k : ℕ} (hx : x < 2 ^ 32) (hk : k ≤ 32) :
    alignDown32 x k = x / 2 ^ k * 2 ^ k := and_highMask hx hk

theorem alignUp32_eq {x k : ℕ} (hk : k ≤ 32) (h : x + (2 ^ k - 1) < 2 ^ 32) :
    alignUp32 x k = (x + (2 ^ k - 1)) / 2 ^ k * 2 ^ k := by
  unfold alignUp32
  rw [add32_eq h, and_highMask h hk]

theorem divRoundUp32_eq {x y : ℕ} (h : x + (y - 1) < 2 ^ 32) :
    divRoundUp32 x y = (x + (y - 1)) / y := by
  unfold divRoundUp32
  rw [add32_eq h]

end Kfs.Lib.Word32
