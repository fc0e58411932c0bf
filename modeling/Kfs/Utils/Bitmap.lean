import Mathlib.Data.BitVec
import Mathlib.Data.List.Basic
import Mathlib.Tactic.Common

/-!
# Bitmaps

`lib/data_structs/bitmap`. The bits are stored eight to a byte; a bitmap may end inside its last
byte, whose other bits nothing reads. `Bitmap.check` is the view of a bitmap that the other
operations are described in.

The `NULL` checks of the source do not appear: every caller passes a bitmap with its data.
-/

namespace Kfs.Utils

/-- `t_bitmap`. -/
structure Bitmap where
  nbBits : ℕ
  data : ℕ → BitVec 8

/-- `BITS_TO_BYTES`. -/
def bitsToBytes (nbBits : ℕ) : ℕ := (nbBits + 7) / 8

/-! ## The operations -/

/-- The bit at an index, wherever it is. -/
def bitAt (data : ℕ → BitVec 8) (index : ℕ) : Bool := (data (index / 8)).getLsbD (index % 8)

/-- `bitmap_check`. -/
def Bitmap.check (map : Bitmap) (index : ℕ) : Bool :=
  if index ≥ map.nbBits then false else bitAt map.data index

/-- The mask of `bitmap_set` and `bitmap_unset`. -/
def bitMask (index : ℕ) : BitVec 8 := 1#8 <<< (index % 8)

/-- Writes a byte. -/
def setByte (data : ℕ → BitVec 8) (i : ℕ) (byte : BitVec 8) : ℕ → BitVec 8 :=
  fun k => if k = i then byte else data k

/-- `bitmap_set`. -/
def Bitmap.set (map : Bitmap) (index : ℕ) : Bitmap :=
  if index ≥ map.nbBits then map
  else { map with data := setByte map.data (index / 8) (map.data (index / 8) ||| bitMask index) }

/-- `bitmap_unset`. -/
def Bitmap.unset (map : Bitmap) (index : ℕ) : Bitmap :=
  if index ≥ map.nbBits then map
  else { map with data := setByte map.data (index / 8) (map.data (index / 8) &&& ~~~bitMask index) }

/-- `bitmap_clear`. -/
def Bitmap.clear (map : Bitmap) : Bitmap :=
  { map with data := fun i => if i < bitsToBytes map.nbBits then 0 else map.data i }

/-- The inner loop of `bitmap_find_next_zero_from`: the first zero of a byte from an offset on. -/
def findZeroInByte (byte : BitVec 8) (offset : ℕ) : Option ℕ :=
  (List.range' offset (8 - offset)).find? fun j => !byte.getLsbD j

/-- The outer loop of `bitmap_find_next_zero_from` over the bytes still to look at. -/
def findZeroInBytes (nbBits : ℕ) (data : ℕ → BitVec 8) (byteStart bitOffset : ℕ) :
    List ℕ → Option ℕ
  | [] => none
  | i :: bytes =>
    if data i = 255#8 then findZeroInBytes nbBits data byteStart bitOffset bytes
    else
      match findZeroInByte (data i) (if i = byteStart then bitOffset else 0) with
      | none => findZeroInBytes nbBits data byteStart bitOffset bytes
      | some j => if i * 8 + j ≥ nbBits then none else some (i * 8 + j)

/-- `bitmap_find_next_zero_from`; `none` is `-1`. -/
def bitmapFindNextZeroFrom (nbBits : ℕ) (data : ℕ → BitVec 8) (bitStart : ℕ) : Option ℕ :=
  if bitStart ≥ nbBits then none
  else
    findZeroInBytes nbBits data (bitStart / 8) (bitStart % 8)
      (List.range' (bitStart / 8) (bitsToBytes nbBits - bitStart / 8))

/-- `bitmap_find_next_zero`. -/
def bitmapFindNextZero (nbBits : ℕ) (data : ℕ → BitVec 8) : Option ℕ :=
  bitmapFindNextZeroFrom nbBits data 0

/-! ## Reading after writing -/

@[simp] theorem Bitmap.set_nbBits (map : Bitmap) (index : ℕ) :
    (map.set index).nbBits = map.nbBits := by
  unfold Bitmap.set
  split <;> rfl

@[simp] theorem Bitmap.unset_nbBits (map : Bitmap) (index : ℕ) :
    (map.unset index).nbBits = map.nbBits := by
  unfold Bitmap.unset
  split <;> rfl

@[simp] theorem Bitmap.clear_nbBits (map : Bitmap) : map.clear.nbBits = map.nbBits := rfl

theorem bitMask_getLsbD (index i : ℕ) (hi : i < 8) :
    (bitMask index).getLsbD i = decide (i = index % 8) := by
  unfold bitMask
  have h := BitVec.getLsbD_twoPow (w := 8) (index % 8) i
  rw [BitVec.twoPow] at h
  rw [h]
  by_cases heq : i = index % 8
  · simp [heq]
    omega
  · simp [heq]
    omega

theorem bitAt_setByte (data : ℕ → BitVec 8) (k : ℕ) (byte : BitVec 8) (i : ℕ) :
    bitAt (setByte data k byte) i = if i / 8 = k then byte.getLsbD (i % 8) else bitAt data i := by
  unfold bitAt setByte
  split <;> rfl

theorem Bitmap.check_set (map : Bitmap) {index : ℕ} (h : index < map.nbBits) (i : ℕ) :
    (map.set index).check i = (decide (i = index) || map.check i) := by
  have hmod : i % 8 < 8 := Nat.mod_lt _ (by decide)
  simp only [check, set_nbBits]
  by_cases hi : i ≥ map.nbBits
  · have hne : i ≠ index := by omega
    simp [hi, hne]
  · rw [if_neg hi, if_neg hi, set, if_neg (by omega)]
    dsimp only
    rw [bitAt_setByte]
    by_cases hb : i / 8 = index / 8
    · rw [if_pos hb, BitVec.getLsbD_or, bitMask_getLsbD _ _ hmod, ← hb]
      have : (i = index) ↔ i % 8 = index % 8 := by omega
      simp [bitAt, this, Bool.or_comm]
    · have hne : i ≠ index := fun h => hb (by rw [h])
      simp [hb, hne]

theorem Bitmap.check_unset (map : Bitmap) {index : ℕ} (h : index < map.nbBits) (i : ℕ) :
    (map.unset index).check i = (decide (i ≠ index) && map.check i) := by
  have hmod : i % 8 < 8 := Nat.mod_lt _ (by decide)
  simp only [check, unset_nbBits]
  by_cases hi : i ≥ map.nbBits
  · simp [hi]
  · rw [if_neg hi, if_neg hi, unset, if_neg (by omega)]
    dsimp only
    rw [bitAt_setByte]
    by_cases hb : i / 8 = index / 8
    · rw [if_pos hb, BitVec.getLsbD_and, BitVec.getLsbD_not, bitMask_getLsbD _ _ hmod, ← hb]
      have : (i = index) ↔ i % 8 = index % 8 := by omega
      simp [bitAt, this, hmod, Bool.and_comm]
    · have hne : i ≠ index := fun h => hb (by rw [h])
      simp [hb, hne]

theorem Bitmap.check_clear (map : Bitmap) (i : ℕ) : map.clear.check i = false := by
  unfold check
  by_cases hi : i ≥ map.nbBits
  · exact if_pos hi
  · have hbyte : i / 8 < bitsToBytes map.nbBits := by
      unfold bitsToBytes
      omega
    rw [clear_nbBits, if_neg hi]
    simp [bitAt, clear, hbyte]

/-- Setting a bit that is clear and clearing it again. -/
theorem Bitmap.unset_set {map : Bitmap} {index : ℕ} (h : index < map.nbBits)
    (hclear : map.check index = false) : (map.set index).unset index = map := by
  have hbit : bitAt map.data index = false := by
    unfold check at hclear
    rw [if_neg (by omega)] at hclear
    exact hclear
  have hbyte : (map.data (index / 8) ||| bitMask index) &&& ~~~bitMask index = map.data (index / 8) := by
    refine BitVec.eq_of_getLsbD_eq fun j hj => ?_
    rw [BitVec.getLsbD_and, BitVec.getLsbD_or, BitVec.getLsbD_not, bitMask_getLsbD _ _ hj]
    by_cases heq : j = index % 8
    · rw [heq]
      unfold bitAt at hbit
      simp [hbit]
    · simp [heq, hj]
  unfold unset
  rw [set_nbBits, if_neg (by omega)]
  unfold set
  rw [if_neg (by omega)]
  obtain ⟨nbBits, data⟩ := map
  congr
  funext k
  unfold setByte
  by_cases hk : k = index / 8
  · simp only [hk, if_true]
    exact hbyte
  · simp only [hk, if_false]

theorem Bitmap.check_lt {map : Bitmap} {i : ℕ} (h : map.check i = true) : i < map.nbBits := by
  by_contra hi
  simp [check, not_lt.mp hi] at h

/-! ## The search -/

/-- `i` is the first zero at or after `start`. -/
structure IsNextZero (nbBits : ℕ) (data : ℕ → BitVec 8) (start i : ℕ) : Prop where
  ge : start ≤ i
  lt : i < nbBits
  zero : bitAt data i = false
  set_below : ∀ j, start ≤ j → j < i → bitAt data j = true

theorem byte_full_iff (byte : BitVec 8) : byte = 255#8 ↔ ∀ j < 8, byte.getLsbD j = true := by
  constructor
  · rintro rfl
    decide
  · intro h
    refine BitVec.eq_of_getLsbD_eq fun j hj => ?_
    rw [h j hj]
    revert j
    decide

theorem findZeroInByte_some {byte : BitVec 8} {offset j : ℕ}
    (h : findZeroInByte byte offset = some j) :
    offset ≤ j ∧ j < 8 ∧ byte.getLsbD j = false ∧
      ∀ k, offset ≤ k → k < j → byte.getLsbD k = true := by
  unfold findZeroInByte at h
  have hmem := List.mem_of_find?_eq_some h
  have hzero := List.find?_some h
  rw [List.mem_range'_1] at hmem
  refine ⟨hmem.1, by omega, by simpa using hzero, fun k hk hkj => ?_⟩
  have hall := List.find?_range'_eq_some.mp h
  simpa using hall.2.2 k hk hkj

theorem findZeroInByte_none {byte : BitVec 8} {offset : ℕ}
    (h : findZeroInByte byte offset = none) {k : ℕ} (hk : offset ≤ k) (hk8 : k < 8) :
    byte.getLsbD k = true := by
  unfold findZeroInByte at h
  rw [List.find?_eq_none] at h
  simpa using h k (List.mem_range'_1.mpr ⟨hk, by omega⟩)

/-- The bits of a byte, from the first one the search looks at. -/
theorem set_upTo_of_byte {data : ℕ → BitVec 8} {byteStart bitOffset i m : ℕ}
    (hm : m ≤ 8)
    (hdone : ∀ k, byteStart * 8 + bitOffset ≤ k → k < i * 8 → bitAt data k = true)
    (hbyte : ∀ j, (if i = byteStart then bitOffset else 0) ≤ j → j < m →
      (data i).getLsbD j = true) :
    ∀ k, byteStart * 8 + bitOffset ≤ k → k < i * 8 + m → bitAt data k = true := by
  intro k hk hki
  by_cases hlow : k < i * 8
  · exact hdone k hk hlow
  · have hdiv : k / 8 = i := by omega
    have hoff : (if i = byteStart then bitOffset else 0) ≤ k % 8 := by
      split
      · omega
      · exact Nat.zero_le _
    unfold bitAt
    rw [hdiv]
    exact hbyte (k % 8) hoff (by omega)

/-- The outer loop: every bit before byte `i` is known to be set. -/
theorem findZeroInBytes_spec {nbBits : ℕ} {data : ℕ → BitVec 8} {byteStart bitOffset : ℕ}
    (hoff : bitOffset < 8) (n : ℕ) : ∀ i, byteStart ≤ i →
    (∀ k, byteStart * 8 + bitOffset ≤ k → k < i * 8 → bitAt data k = true) →
    (∀ r, findZeroInBytes nbBits data byteStart bitOffset (List.range' i n) = some r →
      IsNextZero nbBits data (byteStart * 8 + bitOffset) r) ∧
    (findZeroInBytes nbBits data byteStart bitOffset (List.range' i n) = none →
      ∀ k, byteStart * 8 + bitOffset ≤ k → k < nbBits → k < (i + n) * 8 →
        bitAt data k = true) := by
  induction n with
  | zero =>
    intro i _ hdone
    refine ⟨fun r hr => (nomatch hr), fun _ k hk _ hki => hdone k hk (by omega)⟩
  | succ n ih =>
    intro i hle hdone
    -- a byte without a zero: the loop goes on with one more byte known
    have hnext : (∀ j, (if i = byteStart then bitOffset else 0) ≤ j → j < 8 →
        (data i).getLsbD j = true) → _ := fun hfull =>
      ih (i + 1) (by omega) fun k hk hki =>
        set_upTo_of_byte le_rfl hdone hfull k hk (by omega)
    have harith : i + 1 + n = i + (n + 1) := by omega
    rw [harith] at hnext
    rw [List.range'_succ, findZeroInBytes]
    by_cases hb : data i = 255#8
    · rw [if_pos hb]
      exact hnext fun j _ hj => (byte_full_iff _).mp hb j hj
    · rw [if_neg hb]
      cases hf : findZeroInByte (data i) (if i = byteStart then bitOffset else 0) with
      | none => exact hnext fun j hj hj8 => findZeroInByte_none hf hj hj8
      | some j =>
        obtain ⟨hj, hj8, hzero, hset⟩ := findZeroInByte_some hf
        have hbelow := set_upTo_of_byte (by omega) hdone hset
        dsimp only
        by_cases hend : i * 8 + j ≥ nbBits
        · rw [if_pos hend]
          exact ⟨fun r hr => (nomatch hr), fun _ k hk hkn _ => hbelow k hk (by omega)⟩
        · rw [if_neg hend]
          refine ⟨fun r hr => ?_, fun hr => (nomatch hr)⟩
          obtain rfl := Option.some.inj hr
          refine ⟨?_, by omega, ?_, hbelow⟩
          · split at hj <;> omega
          · unfold bitAt
            have hdiv : (i * 8 + j) / 8 = i := by omega
            have hmod : (i * 8 + j) % 8 = j := by omega
            rw [hdiv, hmod, hzero]

/-- **The search**: a result is the first zero from `start` on. -/
theorem bitmapFindNextZeroFrom_some {nbBits : ℕ} {data : ℕ → BitVec 8} {start r : ℕ}
    (h : bitmapFindNextZeroFrom nbBits data start = some r) : IsNextZero nbBits data start r := by
  unfold bitmapFindNextZeroFrom at h
  split at h
  · cases h
  · have hstart : start / 8 * 8 + start % 8 = start := by omega
    have hspec : IsNextZero nbBits data (start / 8 * 8 + start % 8) r :=
      (findZeroInBytes_spec (Nat.mod_lt _ (by decide)) _ (start / 8) le_rfl
        (fun k hk hki => by omega)).1 r h
    rwa [hstart] at hspec

/-- Without a result there is no zero. -/
theorem bitmapFindNextZeroFrom_none {nbBits : ℕ} {data : ℕ → BitVec 8} {start : ℕ}
    (h : bitmapFindNextZeroFrom nbBits data start = none) {k : ℕ} (hk : start ≤ k)
    (hkn : k < nbBits) : bitAt data k = true := by
  unfold bitmapFindNextZeroFrom at h
  rw [if_neg (by omega)] at h
  refine (findZeroInBytes_spec (Nat.mod_lt _ (by decide)) _ (start / 8) le_rfl
    (fun k hk hki => by omega)).2 h k (by omega) hkn ?_
  unfold bitsToBytes
  omega

/-! ## The result as a number -/

/-- What the caller gets as `ssize_t`. -/
def ssizeOf : Option ℕ → ℤ
  | none => -1
  | some index => (BitVec.ofNat 32 index).toInt

/-- An index below `2 ^ 31` is not changed by the cast. -/
theorem ssizeOf_some {index : ℕ} (h : index < 2 ^ 31) : ssizeOf (some index) = index := by
  show (BitVec.ofNat 32 index).toInt = index
  rw [BitVec.toInt_ofNat']
  exact Int.bmod_eq_of_le (by omega) (by omega)

theorem IsNextZero.unique {nbBits : ℕ} {data : ℕ → BitVec 8} {start i j : ℕ}
    (hi : IsNextZero nbBits data start i) (hj : IsNextZero nbBits data start j) : i = j := by
  rcases lt_trichotomy i j with hlt | heq | hgt
  · have hset := hj.set_below i hi.ge hlt
    rw [hi.zero] at hset
    cases hset
  · exact heq
  · have hset := hi.set_below j hj.ge hgt
    rw [hj.zero] at hset
    cases hset

/-- A bitmap with the same bits up to its end has the same first zero. -/
theorem IsNextZero.congr {nbBits : ℕ} {data data' : ℕ → BitVec 8} {start i : ℕ}
    (h : IsNextZero nbBits data start i) (hsame : ∀ j < nbBits, bitAt data' j = bitAt data j) :
    IsNextZero nbBits data' start i where
  ge := h.ge
  lt := h.lt
  zero := (hsame i h.lt).trans h.zero
  set_below j hj hji := (hsame j (hji.trans h.lt)).trans (h.set_below j hj hji)

/-- There is no zero exactly if every bit is set. -/
theorem bitmapFindNextZeroFrom_eq_none {nbBits : ℕ} {data : ℕ → BitVec 8} {start : ℕ} :
    bitmapFindNextZeroFrom nbBits data start = none ↔
      ∀ i, start ≤ i → i < nbBits → bitAt data i = true := by
  constructor
  · exact fun h i hi hlt => bitmapFindNextZeroFrom_none h hi hlt
  · intro hall
    cases hfind : bitmapFindNextZeroFrom nbBits data start with
    | none => rfl
    | some r =>
      have hr := bitmapFindNextZeroFrom_some hfind
      have hset := hall r hr.ge hr.lt
      rw [hr.zero] at hset
      cases hset

theorem bitmapFindNextZeroFrom_eq_some {nbBits : ℕ} {data : ℕ → BitVec 8} {start i : ℕ} :
    bitmapFindNextZeroFrom nbBits data start = some i ↔ IsNextZero nbBits data start i := by
  constructor
  · exact bitmapFindNextZeroFrom_some
  · intro h
    cases hfind : bitmapFindNextZeroFrom nbBits data start with
    | none =>
      have hset := bitmapFindNextZeroFrom_none hfind h.ge h.lt
      rw [h.zero] at hset
      cases hset
    | some r => rw [(bitmapFindNextZeroFrom_some hfind).unique h]

/-- **The search finds the least zero**: the result is `-1` exactly if there is none, it is an index
exactly if that is the first zero, and no bit from the end of the bitmap on plays a part. -/
theorem bitmapFindNextZeroFrom_least {nbBits : ℕ} (h : nbBits < 2 ^ 31) (data : ℕ → BitVec 8)
    (start : ℕ) :
    (ssizeOf (bitmapFindNextZeroFrom nbBits data start) = -1 ↔
      ∀ i, start ≤ i → i < nbBits → bitAt data i = true) ∧
    (∀ i : ℕ, ssizeOf (bitmapFindNextZeroFrom nbBits data start) = i ↔
      IsNextZero nbBits data start i) ∧
    ∀ data' : ℕ → BitVec 8, (∀ i < nbBits, bitAt data' i = bitAt data i) →
      bitmapFindNextZeroFrom nbBits data' start = bitmapFindNextZeroFrom nbBits data start := by
  have hcast : ∀ r, bitmapFindNextZeroFrom nbBits data start = some r →
      ssizeOf (bitmapFindNextZeroFrom nbBits data start) = r := by
    intro r hr
    rw [hr]
    exact ssizeOf_some ((bitmapFindNextZeroFrom_some hr).lt.trans h)
  refine ⟨?_, fun i => ?_, fun data' hsame => ?_⟩
  · rw [← bitmapFindNextZeroFrom_eq_none]
    cases hfind : bitmapFindNextZeroFrom nbBits data start with
    | none => exact iff_of_true rfl rfl
    | some r =>
      have hr := hcast r hfind
      rw [hfind] at hr
      refine iff_of_false (fun hneg => ?_) (Option.some_ne_none r)
      omega
  · rw [← bitmapFindNextZeroFrom_eq_some]
    cases hfind : bitmapFindNextZeroFrom nbBits data start with
    | none =>
      refine iff_of_false (fun hneg => ?_) (Option.some_ne_none i).symm
      have hneg : (-1 : ℤ) = i := hneg
      omega
    | some r =>
      have hr := hcast r hfind
      rw [hfind] at hr
      rw [hr, Option.some.injEq]
      exact Int.ofNat_inj
  · cases hfind : bitmapFindNextZeroFrom nbBits data start with
    | none =>
      rw [bitmapFindNextZeroFrom_eq_none] at hfind ⊢
      exact fun i hi hlt => (hsame i hlt).trans (hfind i hi hlt)
    | some r =>
      rw [bitmapFindNextZeroFrom_eq_some] at hfind ⊢
      exact hfind.congr hsame

/-- Twelve bits, of which the first nine are set; the byte of the last four has a zero behind them. -/
theorem bitmapFindNextZeroFrom_least_twelveBits :
    ssizeOf (bitmapFindNextZeroFrom 12 (fun i => if i = 0 then 0xFF else 0x71) 3) = (9 : ℕ) ∧
      IsNextZero 12 (fun i => if i = 0 then 0xFF else 0x71) 3 9 := by
  have hrun : ssizeOf (bitmapFindNextZeroFrom 12 (fun i => if i = 0 then 0xFF else 0x71) 3) =
      (9 : ℕ) := by decide
  exact ⟨hrun, ((bitmapFindNextZeroFrom_least (by decide) _ 3).2.1 9).mp hrun⟩

end Kfs.Utils
