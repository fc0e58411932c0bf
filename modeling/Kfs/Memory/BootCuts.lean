import Kfs.Memory.BootTables
import Mathlib.Data.List.Perm.Basic

/-!
# What one boot allocation does

Both allocators cut a block out of one free region and put what is left of the region back in some
order: `boot_alloc` shortens the region at its end, `boot_alloc_at` leaves up to two remainders, and a
region that is used up is replaced by the last entry of the array. `Cut` says this up to the order
of the table; bytes, gaps and bounds of the free table follow from it alone.
-/

namespace Kfs.Memory

open Kfs.Lib Kfs.Lib.Word32

/-! ## Cutting a region -/

/-- What `[r, stop)` leaves of a region. -/
def Region.without (reg : Region) (r stop : ℕ) : List Region :=
  [⟨reg.start, r⟩, ⟨stop, reg.stop⟩].filter fun rest => rest.start < rest.stop

/-- The block of `size` bytes at `r` has been cut out of one region of the table. -/
structure Cut (size r : ℕ) (free free' : List Region) (reg : Region) (others : List Region) :
    Prop where
  before : free.Perm (reg :: others)
  low : reg.start ≤ r
  high : r + size ≤ reg.stop
  after : free'.Perm (reg.without r (r + size) ++ others)

/-- What a relation between the regions of a table needs in order to survive cuts. -/
structure CutRel (R : Region → Region → Prop) : Prop where
  symm : ∀ {a b}, R a b → R b a
  shrink : ∀ {a a' b}, a.start ≤ a'.start → a'.stop ≤ a.stop → R a b → R a' b
  remainders : ∀ {a b}, a.stop < b.start → R a b

theorem cutRel_apart : CutRel Region.Apart where
  symm := Region.Apart.symm
  shrink hlow hhigh h p hp := h p ⟨hlow.trans hp.1, hp.2.trans_le hhigh⟩
  remainders hlt p ha hb := by
    obtain ⟨_, ha₂⟩ := ha
    obtain ⟨hb₁, _⟩ := hb
    omega

section Without

variable {reg rest : Region} {r stop : ℕ}

theorem Region.mem_without (h : rest ∈ reg.without r stop) :
    rest.start < rest.stop ∧ (rest = ⟨reg.start, r⟩ ∨ rest = ⟨stop, reg.stop⟩) := by
  obtain ⟨hmem, hlt⟩ := List.mem_filter.mp h
  refine ⟨by simpa using hlt, ?_⟩
  simpa using hmem

/-- A remainder lies in the region. -/
theorem Region.without_sub (h : rest ∈ reg.without r stop) (hlow : reg.start ≤ stop)
    (hhigh : r ≤ reg.stop) : reg.start ≤ rest.start ∧ rest.stop ≤ reg.stop := by
  obtain ⟨_, rfl | rfl⟩ := Region.mem_without h
  · exact ⟨le_rfl, hhigh⟩
  · exact ⟨hlow, le_rfl⟩

theorem Region.covers_without {p : ℕ} (hlow : reg.start ≤ r) (hle : r ≤ stop)
    (hhigh : stop ≤ reg.stop) :
    Covers (reg.without r stop) p ↔ reg.Has p ∧ ¬ (r ≤ p ∧ p < stop) := by
  constructor
  · rintro ⟨rest, hrest, hp⟩
    obtain ⟨_, rfl | rfl⟩ := Region.mem_without hrest
    · obtain ⟨h₁, h₂⟩ := hp
      dsimp only at h₁ h₂
      exact ⟨⟨h₁, by omega⟩, by omega⟩
    · obtain ⟨h₁, h₂⟩ := hp
      dsimp only at h₁ h₂
      exact ⟨⟨by omega, h₂⟩, by omega⟩
  · rintro ⟨⟨h₁, h₂⟩, hout⟩
    rcases Nat.lt_or_ge p r with hside | hside
    · refine ⟨⟨reg.start, r⟩, List.mem_filter.mpr ⟨by simp, ?_⟩, h₁, hside⟩
      exact decide_eq_true (by dsimp only; omega)
    · have hstop : stop ≤ p := by omega
      refine ⟨⟨stop, reg.stop⟩, List.mem_filter.mpr ⟨by simp, ?_⟩, hstop, h₂⟩
      exact decide_eq_true (by dsimp only; omega)

end Without

namespace Cut

variable {size r : ℕ} {free free' others : List Region} {reg : Region}

theorem reg_mem (h : Cut size r free free' reg others) : reg ∈ free :=
  h.before.mem_iff.mpr List.mem_cons_self

/-- The cut takes exactly the bytes of the block, if no other region has them. -/
theorem covers (h : Cut size r free free' reg others) (hapart : free.Pairwise Region.Apart) (p : ℕ) :
    Covers free' p ↔ Covers free p ∧ ¬ (r ≤ p ∧ p < r + size) := by
  have hlow := h.low
  have hhigh := h.high
  have hapart' : (reg :: others).Pairwise Region.Apart :=
    (h.before.pairwise_iff fun {a b} => Region.Apart.symm).mp hapart
  have hothers : r ≤ p ∧ p < r + size → ¬ Covers others p := by
    rintro ⟨h₁, h₂⟩ ⟨q, hq, hpq⟩
    exact (List.pairwise_cons.mp hapart').1 q hq p ⟨by omega, by omega⟩ hpq
  rw [Covers.perm h.after, Covers.perm h.before, covers_append, covers_cons,
    Region.covers_without hlow (Nat.le_add_right r size) hhigh]
  tauto

/-- What holds of every part of a region and of the other regions holds after the cut. -/
theorem forall_mem {P : Region → Prop} (h : Cut size r free free' reg others)
    (hP : ∀ q ∈ free, P q)
    (hsub : ∀ rest, reg.start ≤ rest.start → rest.stop ≤ reg.stop → rest.start < rest.stop →
      P reg → P rest) : ∀ q ∈ free', P q := by
  have hlow := h.low
  have hhigh := h.high
  intro q hq
  rcases List.mem_append.mp (h.after.mem_iff.mp hq) with hq | hq
  · obtain ⟨hle, hge⟩ := Region.without_sub hq (by omega) (by omega)
    exact hsub q hle hge (Region.mem_without hq).1 (hP reg h.reg_mem)
  · exact hP q (h.before.mem_iff.mpr (List.mem_cons_of_mem reg hq))

/-- The relations of a table survive. -/
theorem pairwise {R : Region → Region → Prop} (hR : CutRel R) (h : Cut size r free free' reg others)
    (hsize : 0 < size) (hfree : free.Pairwise R) : free'.Pairwise R := by
  have hlow := h.low
  have hhigh := h.high
  obtain ⟨hreg, hothers⟩ :=
    List.pairwise_cons.mp ((h.before.pairwise_iff fun {a b} => hR.symm).mp hfree)
  refine (h.after.pairwise_iff fun {a b} => hR.symm).mpr ?_
  refine List.pairwise_append.mpr ⟨?_, hothers, fun rest hrest q hq => ?_⟩
  · refine List.Pairwise.filter _ (List.pairwise_pair.mpr (hR.remainders ?_))
    dsimp only
    omega
  · obtain ⟨hle, hge⟩ := Region.without_sub hrest (by omega) (by omega)
    exact hR.shrink hle hge (hreg q hq)

end Cut

/-! ## The table operations -/

/-- Replacing an entry by the last one and dropping that removes the entry. -/
theorem replaceByLast_perm {regions : List Region} {i : ℕ} (hi : i < regions.length) :
    (replaceByLast regions i).Perm (regions.eraseIdx i) := by
  obtain ⟨front, last, rfl⟩ : ∃ front last, regions = front ++ [last] := by
    refine ⟨regions.dropLast, regions.getLast (List.ne_nil_of_length_pos (by omega)), ?_⟩
    exact (List.dropLast_append_getLast _).symm
  unfold replaceByLast
  rw [List.getLast?_concat]
  dsimp only
  rw [List.length_append, List.length_singleton] at hi
  rcases Nat.lt_or_ge i front.length with hlt | hge
  · rw [List.set_append_left _ _ hlt, List.dropLast_concat, List.eraseIdx_append_of_lt_length hlt]
    exact (List.set_perm_cons_eraseIdx hlt last).trans (List.perm_append_singleton last _).symm
  · -- the entry is the last one itself
    obtain rfl : i = front.length := by omega
    rw [List.set_append_right _ _ le_rfl, List.eraseIdx_append_of_length_le le_rfl, Nat.sub_self,
      List.set_cons_zero, List.dropLast_concat, List.eraseIdx_cons_zero, List.append_nil]

/-- Shortening an entry, or removing it if nothing is left. -/
theorem shorten_perm {regions : List Region} {i : ℕ} (hi : i < regions.length) {reg : Region} {r : ℕ}
    {c : Prop} [Decidable c] (hc : c ↔ ¬ reg.start < r) :
    (if c then replaceByLast (regions.set i { reg with stop := r }) i
      else regions.set i { reg with stop := r }).Perm
      ([⟨reg.start, r⟩].filter (fun rest => rest.start < rest.stop) ++ regions.eraseIdx i) := by
  have hset := List.set_perm_cons_eraseIdx hi { reg with stop := r }
  by_cases h : c
  · have herase : (regions.set i { reg with stop := r }).eraseIdx i = regions.eraseIdx i := by
      rw [List.eraseIdx_set_eq]
    rw [if_pos h, List.filter_cons_of_neg (by simpa using hc.mp h), List.filter_nil,
      List.nil_append, ← herase]
    exact replaceByLast_perm (by rw [List.length_set]; exact hi)
  · have hlt : reg.start < r := not_not.mp (mt hc.mpr h)
    rw [if_neg h, List.filter_cons_of_pos (by simpa using hlt), List.filter_nil]
    exact hset

/-- The entry that a search found, and the rest of the table. -/
theorem perm_of_getElem? {regions : List Region} {i : ℕ} {reg : Region}
    (h : regions[i]? = some reg) : i < regions.length ∧
      regions.Perm (reg :: regions.eraseIdx i) := by
  obtain ⟨hi, rfl⟩ := List.getElem?_eq_some_iff.mp h
  exact ⟨hi, (List.getElem_cons_eraseIdx_perm hi).symm⟩

theorem findLast_some {f : Region → Option ℕ} {regions : List Region} {reg : Region} {ret i : ℕ} :
    ∀ {n : ℕ}, findLast f regions n = some (i, reg, ret) →
      regions[i]? = some reg ∧ f reg = some ret := by
  intro n
  induction n with
  | zero =>
    intro h
    cases h
  | succ n ih =>
    intro h
    unfold findLast at h
    split at h
    · cases h
    next q hq =>
      split at h
      next r hr =>
        obtain ⟨rfl, rfl, rfl⟩ : n = i ∧ q = reg ∧ r = ret := by simpa using h
        exact ⟨hq, hr⟩
      next => exact ih h

theorem findFirst_some {f : Region → Option ℕ} (regions : List Region) {reg : Region} {ret i : ℕ} :
    ∀ {n : ℕ}, findFirst f regions n = some (i, reg, ret) →
      n ≤ i ∧ regions[i - n]? = some reg ∧ f reg = some ret := by
  induction regions with
  | nil =>
    intro n h
    cases h
  | cons q rest ih =>
    intro n h
    unfold findFirst at h
    split at h
    next r hr =>
      obtain ⟨rfl, rfl, rfl⟩ : n = i ∧ q = reg ∧ r = ret := by simpa using h
      exact ⟨le_rfl, by simp, hr⟩
    next =>
      obtain ⟨hle, hget, hf⟩ := ih h
      refine ⟨by omega, ?_, hf⟩
      rw [show i - n = (i - (n + 1)) + 1 by omega, List.getElem?_cons_succ]
      exact hget

end Kfs.Memory
