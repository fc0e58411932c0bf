import Mathlib.Data.Nat.Bitwise
import Mathlib.Order.Interval.Set.Basic
import Mathlib.Tactic
import Mathlib.Order.CompletePartialOrder

/-!
# Aligned power-of-two blocks

The index set `ℕ` is cut into blocks of `2 ^ k` consecutive indices starting at multiples of
`2 ^ k`. Two such blocks are nested or disjoint, and the two halves of a block of order `k + 1`
are each other's *buddy*: their start indices differ in bit `k` only.

The last part is the uniqueness result behind eager coalescing: a set of indices has at most one
decomposition into disjoint aligned blocks in which no two buddies occur together, and the
decomposition consists of the maximal aligned blocks inside the set.
-/

namespace Kfs.Lib.Dyadic

/-! ## Blocks -/

/-- The `2 ^ k` indices starting at `i`. -/
def block (i k : ℕ) : Set ℕ := Set.Ico i (i + 2 ^ k)

/-- A start index of a block of order `k`. -/
def Aligned (i k : ℕ) : Prop := 2 ^ k ∣ i

instance (i k : ℕ) : Decidable (Aligned i k) := inferInstanceAs (Decidable (2 ^ k ∣ i))

@[simp] theorem mem_block {i j k : ℕ} : j ∈ block i k ↔ i ≤ j ∧ j < i + 2 ^ k := Iff.rfl

theorem self_mem_block (i k : ℕ) : i ∈ block i k :=
  ⟨le_rfl, Nat.lt_add_of_pos_right (Nat.two_pow_pos k)⟩

@[simp] theorem block_zero (i : ℕ) : block i 0 = {i} := by
  ext j
  simp only [mem_block, pow_zero, Set.mem_singleton_iff]
  omega

/-- Inside an aligned block all indices have the same quotient by the block size. -/
theorem mem_block_iff_div {i j k : ℕ} (h : Aligned i k) : j ∈ block i k ↔ j / 2 ^ k * 2 ^ k = i := by
  obtain ⟨q, rfl⟩ := h
  have hpos : 0 < 2 ^ k := Nat.two_pow_pos k
  rw [mem_block, mul_comm (2 ^ k) q, Nat.mul_left_inj hpos.ne', Nat.div_eq_iff hpos]
  constructor
  · rintro ⟨h1, h2⟩
    exact ⟨h1, by omega⟩
  · rintro ⟨h1, h2⟩
    exact ⟨h1, by omega⟩

/-- Alignment is inherited by smaller orders. -/
theorem Aligned.mono {i k k' : ℕ} (h : Aligned i k') (hk : k ≤ k') : Aligned i k :=
  dvd_trans (pow_dvd_pow 2 hk) h

/-- Two aligned blocks that meet are nested, the one of smaller order inside. -/
theorem block_subset_of_mem {i i' j k k' : ℕ} (h : Aligned i k) (h' : Aligned i' k') (hk : k ≤ k')
    (hj : j ∈ block i k) (hj' : j ∈ block i' k') : block i k ⊆ block i' k' := by
  obtain ⟨d, rfl⟩ := Nat.exists_eq_add_of_le hk
  intro x hx
  rw [mem_block_iff_div h] at hj hx
  rw [mem_block_iff_div h'] at hj' ⊢
  have hq : x / 2 ^ k = j / 2 ^ k := by
    have hmul : x / 2 ^ k * 2 ^ k = j / 2 ^ k * 2 ^ k := by rw [hx, hj]
    exact Nat.eq_of_mul_eq_mul_right (Nat.two_pow_pos k) hmul
  rw [pow_add, ← Nat.div_div_eq_div_mul] at hj' ⊢
  rw [hq, hj']

/-- An aligned block lies in the block of any larger order around its start. -/
theorem block_subset_div {i k K : ℕ} (h : Aligned i k) (hk : k ≤ K) :
    block i k ⊆ block (i / 2 ^ K * 2 ^ K) K := by
  have h' : Aligned (i / 2 ^ K * 2 ^ K) K := ⟨i / 2 ^ K, mul_comm _ _⟩
  exact block_subset_of_mem h h' hk (self_mem_block i k) ((mem_block_iff_div h').mpr rfl)

/-- Aligned blocks of one order that meet are equal. -/
theorem eq_of_mem_block {i i' j k : ℕ} (h : Aligned i k) (h' : Aligned i' k)
    (hj : j ∈ block i k) (hj' : j ∈ block i' k) : i = i' := by
  rw [mem_block_iff_div h] at hj
  rw [mem_block_iff_div h'] at hj'
  rw [← hj, ← hj']

/-- A block of order `k + 1` is the union of its two halves. -/
theorem block_succ (i k : ℕ) : block i (k + 1) = block i k ∪ block (i + 2 ^ k) k := by
  ext j
  simp only [mem_block, Set.mem_union, pow_succ]
  have := Nat.two_pow_pos k
  omega

/-! ## Buddies -/

/-- The other half of the block of order `k + 1` around the block `i` of order `k`. -/
def buddy (i k : ℕ) : ℕ := i ^^^ 2 ^ k

/-- The start of the block of order `k + 1` around the block `i` of order `k`. -/
def parent (i k : ℕ) : ℕ := min i (buddy i k)

/-- The buddy of a lower half is the upper half. -/
theorem buddy_of_aligned_succ {i k : ℕ} (h : Aligned i (k + 1)) : buddy i k = i + 2 ^ k := by
  obtain ⟨m, rfl⟩ := h
  unfold buddy
  apply Nat.eq_of_testBit_eq
  intro t
  have hone : 2 ^ k < 2 ^ (k + 1) := Nat.pow_lt_pow_right (by norm_num) (Nat.lt_succ_self k)
  rw [Nat.testBit_xor, Nat.testBit_two_pow_mul_add m hone, Nat.testBit_two_pow_mul]
  -- below bit `k + 1` only the power of two has bits, from there on only the multiple
  by_cases ht : t < k + 1
  · simp [ht, Nat.not_le.mpr ht]
  · have hne : Nat.testBit (2 ^ k) t = false := Nat.testBit_two_pow_of_ne (by omega)
    simp [ht, Nat.not_lt.mp ht, hne]

theorem buddy_buddy (i k : ℕ) : buddy (buddy i k) k = i := by
  unfold buddy
  rw [Nat.xor_assoc, Nat.xor_self, Nat.xor_zero]

/-- The buddy of an upper half is the lower half. -/
theorem buddy_add_two_pow {i k : ℕ} (h : Aligned i (k + 1)) : buddy (i + 2 ^ k) k = i := by
  rw [← buddy_of_aligned_succ h, buddy_buddy]

/-- An aligned block is the lower or the upper half of the block around it. -/
theorem aligned_cases {i k : ℕ} (h : Aligned i k) :
    Aligned i (k + 1) ∨ ∃ i', Aligned i' (k + 1) ∧ i = i' + 2 ^ k := by
  obtain ⟨q, rfl⟩ := h
  rcases Nat.even_or_odd' q with ⟨m, rfl | rfl⟩
  · exact Or.inl ⟨m, by ring⟩
  · exact Or.inr ⟨2 ^ (k + 1) * m, ⟨m, rfl⟩, by ring⟩

theorem Aligned.add_two_pow {i k : ℕ} (h : Aligned i k) : Aligned (i + 2 ^ k) k := dvd_add h dvd_rfl

/-- Flipping bit `k` of a multiple of `2 ^ k` adds or subtracts `2 ^ k`. -/
theorem buddy_cases {i k : ℕ} (h : Aligned i k) :
    (Aligned i (k + 1) ∧ buddy i k = i + 2 ^ k) ∨
      (Aligned (buddy i k) (k + 1) ∧ i = buddy i k + 2 ^ k) := by
  rcases aligned_cases h with hal | ⟨i', hal, rfl⟩
  · exact Or.inl ⟨hal, buddy_of_aligned_succ hal⟩
  · rw [buddy_add_two_pow hal]
    exact Or.inr ⟨hal, rfl⟩

/-- Buddies are the same relative to any base that is a multiple of a larger block size. -/
theorem buddy_add_base {b i k K : ℕ} (hb : Aligned b K) (hk : k < K) (h : Aligned i k) :
    buddy (b + i) k = b + buddy i k := by
  have hb' : Aligned b (k + 1) := hb.mono hk
  rcases aligned_cases h with hal | ⟨i', hal, rfl⟩
  · rw [buddy_of_aligned_succ hal, buddy_of_aligned_succ (i := b + i) (dvd_add hb' hal), add_assoc]
  · rw [← add_assoc, buddy_add_two_pow hal, buddy_add_two_pow (i := b + i') (dvd_add hb' hal)]

theorem Aligned.buddy {i k : ℕ} (h : Aligned i k) : Aligned (buddy i k) k := by
  rcases buddy_cases h with ⟨-, heq⟩ | ⟨hal, -⟩
  · rw [heq]
    exact h.add_two_pow
  · exact hal.mono (Nat.le_succ k)

theorem buddy_ne_self (i k : ℕ) : buddy i k ≠ i := by
  intro h
  have hz : i ^^^ (i ^^^ 2 ^ k) = i ^^^ i := congrArg (i ^^^ ·) h
  rw [← Nat.xor_assoc, Nat.xor_self, Nat.zero_xor] at hz
  exact (Nat.two_pow_pos k).ne' hz

private theorem buddy_le {i k : ℕ} (heq : i = buddy i k + 2 ^ k) : buddy i k ≤ i :=
  (Nat.le_add_right _ _).trans_eq heq.symm

/-- A block and its buddy make up the block around them. -/
theorem block_parent {i k : ℕ} (h : Aligned i k) :
    block (parent i k) (k + 1) = block i k ∪ block (buddy i k) k := by
  unfold parent
  rcases buddy_cases h with ⟨-, heq⟩ | ⟨-, heq⟩
  · rw [heq, min_eq_left (Nat.le_add_right _ _), block_succ]
  · rw [min_eq_right (buddy_le heq), block_succ, ← heq, Set.union_comm]

theorem aligned_parent {i k : ℕ} (h : Aligned i k) : Aligned (parent i k) (k + 1) := by
  unfold parent
  rcases buddy_cases h with ⟨hal, heq⟩ | ⟨hal, heq⟩
  · rwa [heq, min_eq_left (Nat.le_add_right _ _)]
  · rwa [min_eq_right (buddy_le heq)]

theorem disjoint_block_buddy {i k : ℕ} (h : Aligned i k) :
    Disjoint (block i k) (block (buddy i k) k) := by
  rw [Set.disjoint_left]
  intro j hj hj'
  exact buddy_ne_self i k (eq_of_mem_block h h.buddy hj hj').symm

/-- An aligned block of larger order that meets `block i k` contains its parent. -/
theorem block_parent_subset {i i' j k k' : ℕ} (h : Aligned i k) (h' : Aligned i' k') (hk : k < k')
    (hj : j ∈ block i k) (hj' : j ∈ block i' k') : block (parent i k) (k + 1) ⊆ block i' k' :=
  block_subset_of_mem (aligned_parent h) h' hk
    (by rw [block_parent h]; exact Or.inl hj) hj'

/-! ## Canonical tilings -/

/-- `T` is a set of disjoint aligned blocks of order at most `K` (given as start and order) that
covers exactly `S`. -/
structure IsTiling (K : ℕ) (T : Set (ℕ × ℕ)) (S : Set ℕ) : Prop where
  aligned : ∀ {i k}, (i, k) ∈ T → Aligned i k
  order_le : ∀ {i k}, (i, k) ∈ T → k ≤ K
  disjoint : ∀ {i k i' k' j}, (i, k) ∈ T → (i', k') ∈ T → j ∈ block i k → j ∈ block i' k' →
    i = i' ∧ k = k'
  cover : ∀ j, j ∈ S ↔ ∃ i k, (i, k) ∈ T ∧ j ∈ block i k

/-- No two buddies of order below `K` are both in `T`. -/
def NoBuddies (K : ℕ) (T : Set (ℕ × ℕ)) : Prop :=
  ∀ {i k}, (i, k) ∈ T → k < K → (buddy i k, k) ∉ T

/-- Removing a tile removes its block from the covered set. -/
theorem IsTiling.erase {K : ℕ} {T : Set (ℕ × ℕ)} {S : Set ℕ} (hT : IsTiling K T S) {i k : ℕ}
    (hmem : (i, k) ∈ T) : IsTiling K (T \ {(i, k)}) (S \ block i k) where
  aligned h := hT.aligned h.1
  order_le h := hT.order_le h.1
  disjoint h h' := hT.disjoint h.1 h'.1
  cover j := by
    constructor
    · rintro ⟨hj, hnot⟩
      obtain ⟨i', k', hmem', hj'⟩ := (hT.cover j).mp hj
      refine ⟨i', k', ⟨hmem', ?_⟩, hj'⟩
      intro heq
      obtain ⟨rfl, rfl⟩ := Prod.mk.inj (Set.mem_singleton_iff.mp heq)
      exact hnot hj'
    · rintro ⟨i', k', ⟨hmem', hne⟩, hj'⟩
      refine ⟨(hT.cover j).mpr ⟨i', k', hmem', hj'⟩, fun hj => hne ?_⟩
      obtain ⟨rfl, rfl⟩ := hT.disjoint hmem hmem' hj hj'
      rfl

/-- Adding a block that does not meet the covered set. -/
theorem IsTiling.insert {K : ℕ} {T : Set (ℕ × ℕ)} {S : Set ℕ} (hT : IsTiling K T S) {i k : ℕ}
    (hal : Aligned i k) (hk : k ≤ K) (hdis : Disjoint (block i k) S) :
    IsTiling K (insert (i, k) T) (S ∪ block i k) where
  aligned h := by
    rcases h with heq | h
    · obtain ⟨rfl, rfl⟩ := Prod.mk.inj heq
      exact hal
    · exact hT.aligned h
  order_le h := by
    rcases h with heq | h
    · obtain ⟨rfl, rfl⟩ := Prod.mk.inj heq
      exact hk
    · exact hT.order_le h
  disjoint := by
    have hcross : ∀ {i' k' j}, (i', k') ∈ T → j ∈ block i k → j ∈ block i' k' → False :=
      fun hm hj hj' => Set.disjoint_left.mp hdis hj ((hT.cover _).mpr ⟨_, _, hm, hj'⟩)
    rintro i₁ k₁ i₂ k₂ j (heq₁ | h₁) (heq₂ | h₂) hj₁ hj₂
    · obtain ⟨rfl, rfl⟩ := Prod.mk.inj heq₁
      obtain ⟨rfl, rfl⟩ := Prod.mk.inj heq₂
      exact ⟨rfl, rfl⟩
    · obtain ⟨rfl, rfl⟩ := Prod.mk.inj heq₁
      exact (hcross h₂ hj₁ hj₂).elim
    · obtain ⟨rfl, rfl⟩ := Prod.mk.inj heq₂
      exact (hcross h₁ hj₂ hj₁).elim
    · exact hT.disjoint h₁ h₂ hj₁ hj₂
  cover j := by
    constructor
    · rintro (hj | hj)
      · obtain ⟨i', k', hmem', hj'⟩ := (hT.cover j).mp hj
        exact ⟨i', k', Or.inr hmem', hj'⟩
      · exact ⟨i, k, Or.inl rfl, hj⟩
    · rintro ⟨i', k', heq | hmem', hj'⟩
      · obtain ⟨rfl, rfl⟩ := Prod.mk.inj heq
        exact Or.inr hj'
      · exact Or.inl ((hT.cover j).mpr ⟨i', k', hmem', hj'⟩)

/-- The empty tiling covers the empty set. -/
theorem IsTiling.empty (K : ℕ) : IsTiling K ∅ ∅ where
  aligned h := h.elim
  order_le h := h.elim
  disjoint h := h.elim
  cover j := by simp

section Canonical

variable {K : ℕ} {T : Set (ℕ × ℕ)} {S : Set ℕ}

/-- If every tile that meets an aligned block inside `S` is no larger than it, the block is
itself a tile: otherwise its two halves would both be tiles, and they are buddies. -/
theorem IsTiling.mem_of_small (hT : IsTiling K T S) (hN : NoBuddies K T) :
    ∀ {k b : ℕ}, k ≤ K → Aligned b k → block b k ⊆ S →
      (∀ {i' k' j}, (i', k') ∈ T → j ∈ block b k → j ∈ block i' k' → k' ≤ k) → (b, k) ∈ T := by
  intro k
  induction k with
  | zero =>
    intro b _ _ hsub hsmall
    obtain ⟨i', k', hmem, hj⟩ := (hT.cover b).mp (hsub (self_mem_block b 0))
    have hk' : k' = 0 := Nat.le_zero.mp (hsmall hmem (self_mem_block b 0) hj)
    subst hk'
    simp only [block_zero, Set.mem_singleton_iff] at hj
    rwa [hj]
  | succ k ih =>
    intro b hk hal hsub hsmall
    by_contra hnot
    -- a tile of order `k + 1` meeting the block would be the block itself
    have hsmall' : ∀ {i' k' j}, (i', k') ∈ T → j ∈ block b (k + 1) → j ∈ block i' k' → k' ≤ k := by
      intro i' k' j hmem hj hj'
      have hle := hsmall hmem hj hj'
      rcases Nat.lt_or_ge k' (k + 1) with hlt | hge
      · omega
      · have heq : k' = k + 1 := by omega
        subst heq
        have hbi := eq_of_mem_block hal (hT.aligned hmem) hj hj'
        exact absurd (hbi ▸ hmem) hnot
    have hlow : Aligned b k := hal.mono (Nat.le_succ k)
    have hhigh : Aligned (b + 2 ^ k) k := hlow.add_two_pow
    have hleft : block b k ⊆ block b (k + 1) := by rw [block_succ]; exact Set.subset_union_left
    have hright : block (b + 2 ^ k) k ⊆ block b (k + 1) := by
      rw [block_succ]; exact Set.subset_union_right
    have hl : (b, k) ∈ T :=
      ih (by omega) hlow (hleft.trans hsub) (fun hm hj hj' => hsmall' hm (hleft hj) hj')
    have hr : (b + 2 ^ k, k) ∈ T :=
      ih (by omega) hhigh (hright.trans hsub) (fun hm hj hj' => hsmall' hm (hright hj) hj')
    exact hN hl (by omega) (buddy_of_aligned_succ hal ▸ hr)

/-- **The tiles of a buddy-free tiling are the maximal aligned blocks of the set.** -/
theorem IsTiling.mem_iff_maximal (hT : IsTiling K T S) (hN : NoBuddies K T) {i k : ℕ} :
    (i, k) ∈ T ↔
      k ≤ K ∧ Aligned i k ∧ block i k ⊆ S ∧ (k < K → ¬ block (parent i k) (k + 1) ⊆ S) := by
  constructor
  · intro hmem
    have hal := hT.aligned hmem
    refine ⟨hT.order_le hmem, hal, fun j hj => (hT.cover j).mpr ⟨i, k, hmem, hj⟩, ?_⟩
    intro hk hpar
    rw [block_parent hal] at hpar
    -- a larger tile meeting the buddy would contain `block i k` as well
    have hsmall : ∀ {i' k' j}, (i', k') ∈ T → j ∈ block (buddy i k) k → j ∈ block i' k' →
        k' ≤ k := by
      intro i' k' j hmem' hj hj'
      by_contra hlt
      have hsub := block_parent_subset hal.buddy (hT.aligned hmem') (not_le.mp hlt) hj hj'
      rw [block_parent hal.buddy, buddy_buddy] at hsub
      have heq := hT.disjoint hmem hmem' (self_mem_block i k) (hsub (Or.inr (self_mem_block i k)))
      omega
    have hbud := hT.mem_of_small hN hk.le hal.buddy (fun j hj => hpar (Or.inr hj)) hsmall
    exact hN hmem hk hbud
  · rintro ⟨hk, hal, hsub, hmax⟩
    apply hT.mem_of_small hN hk hal hsub
    intro i' k' j hmem hj hj'
    by_contra hlt
    have hk' := hT.order_le hmem
    apply hmax (by omega)
    intro x hx
    exact (hT.cover x).mpr
      ⟨i', k', hmem, block_parent_subset hal (hT.aligned hmem) (not_le.mp hlt) hj hj' hx⟩

/-- **Uniqueness**: two buddy-free tilings of one set are equal. -/
theorem IsTiling.unique {T' : Set (ℕ × ℕ)} (hT : IsTiling K T S) (hN : NoBuddies K T)
    (hT' : IsTiling K T' S) (hN' : NoBuddies K T') : T = T' := by
  ext ⟨i, k⟩
  rw [hT.mem_iff_maximal hN, hT'.mem_iff_maximal hN']

end Canonical

end Kfs.Lib.Dyadic
