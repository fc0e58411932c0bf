import Mathlib.Data.BitVec
import Mathlib.Tactic.Common

/-!
# Words in a byte memory with 32-bit addresses

Addresses are 32-bit words and wrap, so that two accesses that are a constant distance apart can be
compared without knowing where they are. A range is given by its first address and its length; an
address lies in it when its distance from the first one is below the length.

`WordsAt m a ws` says that the words `ws` lie from `a` upwards. It is how the rules speak of a stack
that grows downwards: a push puts a word in front, a pop takes it off, and a write outside of the
range changes nothing.
-/

namespace Kfs.Lib

/-- A 32-bit word, also as an address. -/
abbrev Word := BitVec 32

/-- A byte for every address. -/
abbrev Memory := Word → BitVec 8

namespace WordMemory

variable {m m' m'' : Memory} {a b w v : Word} {n k : ℕ} {ws vs : List Word}

/-! ## Access -/

/-- The little-endian word at an address. -/
def load (m : Memory) (a : Word) : Word := m (a + 3) ++ m (a + 2) ++ m (a + 1) ++ m a

/-- The memory with a word stored, little-endian. -/
def store (m : Memory) (a w : Word) : Memory := fun x =>
  if (x - a).toNat < 4 then w.extractLsb' (8 * (x - a).toNat) 8 else m x

/-- The address lies in the range of `n` bytes from `a` on. -/
def InRange (a : Word) (n : ℕ) (x : Word) : Prop := (x - a).toNat < n

instance (a : Word) (n : ℕ) (x : Word) : Decidable (InRange a n x) :=
  inferInstanceAs (Decidable (_ < _))

/-- Two ranges have no address in common. -/
def Apart (a : Word) (n : ℕ) (b : Word) (k : ℕ) : Prop := ∀ x, InRange a n x → ¬ InRange b k x

/-- The two memories agree on a range. -/
def SameOn (a : Word) (n : ℕ) (m m' : Memory) : Prop := ∀ x, InRange a n x → m' x = m x

theorem Apart.symm (h : Apart a n b k) : Apart b k a n := fun x hb ha => h x ha hb

theorem SameOn.refl (a : Word) (n : ℕ) (m : Memory) : SameOn a n m m := fun _ _ => rfl

theorem SameOn.trans (h : SameOn a n m m') (h' : SameOn a n m' m'') : SameOn a n m m'' :=
  fun x hx => (h' x hx).trans (h x hx)

theorem SameOn.symm (h : SameOn a n m m') : SameOn a n m' m := fun x hx => (h x hx).symm

/-- A range inside of another one. -/
theorem InRange.mono {x : Word} (hx : InRange b k x) (h : (b - a).toNat + k ≤ n) (hn : n ≤ 2 ^ 32) :
    InRange a n x := by
  unfold InRange at *
  -- distances add up, and here without a carry
  have hsplit : x - a = (x - b) + (b - a) := by
    apply BitVec.eq_of_toNat_eq
    simp only [BitVec.toNat_add, BitVec.toNat_sub]
    omega
  rw [hsplit, BitVec.toNat_add, Nat.mod_eq_of_lt (by omega)]
  omega

/-- The two memories agree but on a range. -/
def SameBut (a : Word) (n : ℕ) (m m' : Memory) : Prop := ∀ x, ¬ InRange a n x → m' x = m x

theorem SameBut.refl (a : Word) (n : ℕ) (m : Memory) : SameBut a n m m := fun _ _ => rfl

theorem SameBut.trans (h : SameBut a n m m') (h' : SameBut a n m' m'') : SameBut a n m m'' :=
  fun x hx => (h' x hx).trans (h x hx)

theorem SameBut.mono (hs : SameBut b k m m') (h : (b - a).toNat + k ≤ n) (hn : n ≤ 2 ^ 32) :
    SameBut a n m m' := fun x hx => hs x fun hb => hx (hb.mono h hn)

/-- What changes only one range leaves the ones apart from it. -/
theorem SameBut.sameOn (h : SameBut a n m m') (hap : Apart a n b k) : SameOn b k m m' :=
  fun x hb => h x fun ha => hap x ha hb

/-- A part of a range that is apart from another one. -/
theorem Apart.mono {c : Word} {j : ℕ} (hap : Apart a n c j) (h : (b - a).toNat + k ≤ n)
    (hn : n ≤ 2 ^ 32) : Apart b k c j := fun x hb => hap x (hb.mono h hn)

theorem SameOn.mono (hs : SameOn a n m m') (h : (b - a).toNat + k ≤ n) (hn : n ≤ 2 ^ 32) :
    SameOn b k m m' := fun x hx => hs x (hx.mono h hn)

/-! ## One word -/

theorem load_congr (h : SameOn a 4 m m') : load m' a = load m a := by
  have hbyte : ∀ i : Word, i.toNat < 4 → m' (a + i) = m (a + i) := by
    intro i hi
    apply h
    unfold InRange
    rw [BitVec.add_comm, BitVec.add_sub_cancel]
    exact hi
  -- the first byte is read at the address itself
  have h0 : m' a = m a := by simpa using hbyte 0 (by decide)
  unfold load
  rw [hbyte 3 (by decide), hbyte 2 (by decide), hbyte 1 (by decide), h0]

/-- What was stored is read back. -/
theorem load_store (m : Memory) (a w : Word) : load (store m a w) a = w := by
  have hbyte : ∀ i : Word, i.toNat < 4 → store m a w (a + i) = w.extractLsb' (8 * i.toNat) 8 := by
    intro i hi
    have hoff : a + i - a = i := by rw [BitVec.add_comm, BitVec.add_sub_cancel]
    simp only [store, hoff, hi, if_true]
  have h0 : store m a w a = w.extractLsb' 0 8 := by simpa using hbyte 0 (by decide)
  unfold load
  rw [hbyte 3 (by decide), hbyte 2 (by decide), hbyte 1 (by decide), h0]
  -- the four bytes of a word make the word
  apply BitVec.eq_of_getLsbD_eq
  intro i hi
  simp only [BitVec.getLsbD_append, BitVec.getLsbD_extractLsb']
  grind

/-- A store changes its own four bytes only. -/
theorem store_outside (h : ¬ InRange a 4 b) : store m a w b = m b := if_neg h

theorem SameBut.store (h : (b - a).toNat + 4 ≤ n) (hn : n ≤ 2 ^ 32) (m : Memory) (w : Word) :
    SameBut a n m (store m b w) := fun _ hx => store_outside fun hb => hx (hb.mono h hn)

theorem SameOn.store (h : Apart a 4 b k) : SameOn b k m (store m a w) :=
  fun x hb => store_outside fun ha => h x ha hb

theorem load_store_of_apart (h : Apart a 4 b 4) : load (store m a w) b = load m b :=
  load_congr (.store h)

/-- Accesses at a constant distance. -/
theorem apart_of_sub (h : n ≤ (b - a).toNat) (h' : k ≤ (a - b).toNat) : Apart a n b k := by
  intro x ha hb
  unfold InRange at ha hb
  simp only [BitVec.toNat_sub] at *
  omega

/-! ## Several words -/

/-- The words lie one after the other from an address on. -/
def WordsAt (m : Memory) (a : Word) : List Word → Prop
  | [] => True
  | w :: ws => load m a = w ∧ WordsAt m (a + 4) ws

@[simp] theorem wordsAt_nil : WordsAt m a [] ↔ True := Iff.rfl

@[simp] theorem wordsAt_cons : WordsAt m a (w :: ws) ↔ load m a = w ∧ WordsAt m (a + 4) ws := Iff.rfl

theorem WordsAt.head (h : WordsAt m a (w :: ws)) : load m a = w := h.1

theorem WordsAt.tail (h : WordsAt m a (w :: ws)) : WordsAt m (a + 4) ws := h.2

theorem wordsAt_append : WordsAt m a (ws ++ vs) ↔
    WordsAt m a ws ∧ WordsAt m (a + BitVec.ofNat 32 (4 * ws.length)) vs := by
  induction ws generalizing a with
  | nil => simp
  | cons w ws ih =>
    have hnext : a + 4 + BitVec.ofNat 32 (4 * ws.length) =
        a + BitVec.ofNat 32 (4 * (ws.length + 1)) := by
      rw [BitVec.add_assoc, show (4 : Word) = BitVec.ofNat 32 4 from rfl, ← BitVec.ofNat_add,
        Nat.mul_succ, Nat.add_comm]
    simp only [List.cons_append, wordsAt_cons, ih, List.length_cons, hnext, and_assoc]

/-- Words are read from their own bytes only. -/
theorem WordsAt.congr (h : WordsAt m a ws) (hlen : 4 * ws.length ≤ 2 ^ 32)
    (hs : SameOn a (4 * ws.length) m m') : WordsAt m' a ws := by
  induction ws generalizing a with
  | nil => trivial
  | cons w ws ih =>
    rw [List.length_cons] at hlen hs
    -- the first word and the others are two parts of the range
    have hself : (a - a).toNat + 4 ≤ 4 * (ws.length + 1) := by
      rw [BitVec.sub_self]
      show 0 + 4 ≤ _
      omega
    have hrest : (a + 4 - a).toNat + 4 * ws.length ≤ 4 * (ws.length + 1) := by
      rw [BitVec.add_comm, BitVec.add_sub_cancel]
      show 4 + _ ≤ _
      omega
    refine ⟨(load_congr (hs.mono hself hlen)).trans h.1, ?_⟩
    exact ih h.2 (by omega) (hs.mono hrest hlen)

/-- **Push**: the word below the others. -/
theorem WordsAt.push (h : WordsAt m a ws) (hlen : 4 * (ws.length + 1) ≤ 2 ^ 32) (w : Word) :
    WordsAt (store m (a - 4) w) (a - 4) (w :: ws) := by
  have hback : a - 4 + 4 = a := BitVec.sub_add_cancel a 4
  refine ⟨load_store m _ w, ?_⟩
  rw [hback]
  apply h.congr (by omega)
  -- the new word ends where the others begin
  apply SameOn.store
  intro x hlow hx
  unfold InRange at hlow hx
  have hsplit : x - (a - 4) = (x - a) + 4 := by
    apply BitVec.eq_of_toNat_eq
    simp only [BitVec.toNat_add, BitVec.toNat_sub]
    omega
  rw [hsplit, BitVec.toNat_add, Nat.mod_eq_of_lt (by show _ + 4 < _; omega)] at hlow
  have hfour : (4 : Word).toNat = 4 := rfl
  omega

/-- The word at an index. -/
theorem WordsAt.get (h : WordsAt m a ws) {i : ℕ} {v : Word} (hi : ws[i]? = some v) :
    load m (a + BitVec.ofNat 32 (4 * i)) = v := by
  obtain ⟨hlt, rfl⟩ := List.getElem?_eq_some_iff.mp hi
  -- the words from the index on begin with it
  have hsplit : WordsAt m a (ws.take i ++ ws.drop i) := by
    rw [List.take_append_drop]
    exact h
  obtain ⟨-, hdrop⟩ := wordsAt_append.mp hsplit
  rw [List.length_take_of_le hlt.le, List.drop_eq_getElem_cons hlt] at hdrop
  exact hdrop.head

/-- Writing the word at an index. -/
theorem WordsAt.set (h : WordsAt m a ws) (hlen : 4 * ws.length ≤ 2 ^ 32) {i : ℕ}
    (hi : i < ws.length) (w : Word) :
    WordsAt (store m (a + BitVec.ofNat 32 (4 * i)) w) a (ws.set i w) := by
  induction ws generalizing a i with
  | nil => exact absurd hi (Nat.not_lt_zero _)
  | cons v ws ih =>
    rw [List.length_cons] at hi hlen
    cases i with
    | zero =>
      rw [Nat.mul_zero, BitVec.add_zero]
      refine ⟨load_store m a w, h.tail.congr (by omega) (.store ?_)⟩
      -- the other words begin behind this one
      intro x hx hrest
      unfold InRange at hx hrest
      simp only [BitVec.toNat_sub, BitVec.toNat_add] at hx hrest
      have hfour : (4 : Word).toNat = 4 := rfl
      omega
    | succ i =>
      have hnext : a + BitVec.ofNat 32 (4 * (i + 1)) = a + 4 + BitVec.ofNat 32 (4 * i) := by
        rw [BitVec.add_assoc, show (4 : Word) = BitVec.ofNat 32 4 from rfl, ← BitVec.ofNat_add,
          Nat.mul_succ, Nat.add_comm]
      rw [hnext]
      refine ⟨?_, ih h.tail (by omega) (by omega)⟩
      refine (load_store_of_apart ?_).trans h.head
      -- the first word ends before the place that is written
      intro x hx hself
      unfold InRange at hx hself
      simp only [BitVec.toNat_sub, BitVec.toNat_add, BitVec.toNat_ofNat] at hx hself
      have hfour : (4 : Word).toNat = 4 := rfl
      omega

/-- The memory with words stored one after the other. -/
def storeWords (m : Memory) (a : Word) : List Word → Memory
  | [] => m
  | w :: ws => store (storeWords m (a + 4) ws) a w

/-- What was stored is read back. -/
theorem wordsAt_storeWords (m : Memory) (a : Word) (ws : List Word) (hlen : 4 * ws.length ≤ 2 ^ 32) :
    WordsAt (storeWords m a ws) a ws := by
  induction ws generalizing a with
  | nil => trivial
  | cons w ws ih =>
    rw [List.length_cons] at hlen
    have hpush := (ih (a + 4) (by omega)).push (by omega) w
    rw [BitVec.add_sub_cancel] at hpush
    exact hpush

theorem storeWords_sameBut (m : Memory) (a : Word) (ws : List Word) (hlen : 4 * ws.length ≤ 2 ^ 32) :
    SameBut a (4 * ws.length) m (storeWords m a ws) := by
  induction ws generalizing a with
  | nil => exact .refl _ _ _
  | cons w ws ih =>
    rw [List.length_cons] at hlen ⊢
    refine SameBut.trans ((ih (a + 4) (by omega)).mono ?_ (by omega)) (.store ?_ (by omega) _ _)
    · bv_omega
    · rw [BitVec.sub_self]
      show 0 + 4 ≤ _
      omega

/-! ## Bytes -/

/-- The `n` bytes from an address on. -/
def bytes (m : Memory) (a : Word) (n : ℕ) : List (BitVec 8) :=
  (List.range n).map fun i => m (a + BitVec.ofNat 32 i)

theorem bytes_congr (hn : n ≤ 2 ^ 32) (h : SameOn a n m m') : bytes m' a n = bytes m a n := by
  unfold bytes
  apply List.map_congr_left
  intro i hi
  apply h
  unfold InRange
  rw [BitVec.add_comm, BitVec.add_sub_cancel, BitVec.toNat_ofNat,
    Nat.mod_eq_of_lt (by have := List.mem_range.mp hi; omega)]
  exact List.mem_range.mp hi

/-- Equal bytes are a memory that agrees. -/
theorem sameOn_of_bytes (h : bytes m' a n = bytes m a n) : SameOn a n m m' := by
  intro x hx
  have hoff : a + BitVec.ofNat 32 (x - a).toNat = x := by
    rw [BitVec.ofNat_toNat, BitVec.setWidth_eq, BitVec.add_comm, BitVec.sub_add_cancel]
  unfold bytes at h
  have hall := List.map_inj_left.mp h (x - a).toNat (List.mem_range.mpr hx)
  simp only [hoff] at hall
  exact hall

/-! ## Filling and copying -/

/-- The memory with a range filled. -/
def fill (m : Memory) (a : Word) (n : ℕ) (b : BitVec 8) : Memory := fun x =>
  if InRange a n x then b else m x

/-- The memory with a range copied to another one that is apart from it. -/
def copy (m : Memory) (dst src : Word) (n : ℕ) : Memory := fun x =>
  if InRange dst n x then m (src + (x - dst)) else m x

theorem fill_sameBut (m : Memory) (a : Word) (n : ℕ) (v : BitVec 8) : SameBut a n m (fill m a n v) :=
  fun _ hx => if_neg hx

theorem copy_sameBut (m : Memory) (dst src : Word) (n : ℕ) : SameBut dst n m (copy m dst src n) :=
  fun _ hx => if_neg hx

/-- Words of zeros. -/
theorem wordsAt_fill (m : Memory) (a : Word) (k : ℕ) :
    WordsAt (fill m a (4 * k) 0) a (List.replicate k 0) := by
  -- any part of the range: the induction leaves its start behind
  suffices h : ∀ (j : ℕ) (b : Word), (b - a).toNat + 4 * j ≤ 4 * k →
      WordsAt (fill m a (4 * k) 0) b (List.replicate j 0) by
    apply h k a
    rw [BitVec.sub_self]
    show 0 + _ ≤ _
    omega
  intro j
  induction j with
  | zero => exact fun _ _ => trivial
  | succ j ih =>
    intro b hb
    refine ⟨?_, ih (b + 4) ?_⟩
    · have hbyte : ∀ i : Word, i.toNat < 4 → fill m a (4 * k) 0 (b + i) = 0 := by
        intro i hi
        apply if_pos
        unfold InRange
        bv_omega
      have h0 : fill m a (4 * k) 0 b = 0 := by simpa using hbyte 0 (by decide)
      unfold load
      rw [hbyte 3 (by decide), hbyte 2 (by decide), hbyte 1 (by decide), h0]
      rfl
    · bv_omega

/-- A copy has the words of its source. -/
theorem load_copy {dst src k : Word} (hk : k.toNat + 4 ≤ n) (hn : n ≤ 2 ^ 32) :
    load (copy m dst src n) (dst + k) = load m (src + k) := by
  have hbyte : ∀ i : Word, i.toNat < 4 →
      copy m dst src n (dst + k + i) = m (src + k + i) := by
    intro i hi
    have hoff : dst + k + i - dst = k + i := by grind
    have hin : InRange dst n (dst + k + i) := by
      unfold InRange
      bv_omega
    have hbyte : copy m dst src n (dst + k + i) = m (src + (dst + k + i - dst)) := if_pos hin
    rw [hbyte, hoff, BitVec.add_assoc]
  have h0 : copy m dst src n (dst + k) = m (src + k) := by simpa using hbyte 0 (by decide)
  unfold load
  rw [hbyte 3 (by decide), hbyte 2 (by decide), hbyte 1 (by decide), h0]

theorem WordsAt.copy {dst src k : Word} (h : WordsAt m (src + k) ws)
    (hk : k.toNat + 4 * ws.length ≤ n) (hn : n < 2 ^ 32) :
    WordsAt (copy m dst src n) (dst + k) ws := by
  induction ws generalizing k with
  | nil => trivial
  | cons w ws ih =>
    rw [List.length_cons] at hk
    refine ⟨(load_copy (by omega) hn.le).trans h.head, ?_⟩
    have htail := h.tail
    rw [BitVec.add_assoc] at htail ⊢
    -- the offset stays inside only while there are words left
    cases ws with
    | nil => trivial
    | cons v ws =>
      rw [List.length_cons] at hk ih
      apply ih htail
      bv_omega

end WordMemory

end Kfs.Lib
