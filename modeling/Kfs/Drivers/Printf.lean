import Kfs.Drivers.Keyboard
import Mathlib.Tactic.IntervalCases

/-!
# Formatted printing

`vga_vprintf` of `src/drivers/vga/vga.c`, in the release build. A pointer is, as in `ft_split`, the
list of the bytes from there to the end of the object that holds them, and `mem` finds it for an
address; the argument list is the list of the words on the stack. The two calls of a sum are made
from left to right.

## Layers

- `ftPutnbr`, `ftPuthexa`, `vgaVprintf`: the code;
- `putDigits`: a recursion that prints the quotient and then the remainder prints the digits;
- `ftPutnbr_eq`, `ftPutunsignednbr_eq`, `ftPuthexa_eq`: what is printed for a number.
-/

namespace Kfs.Drivers

open Kfs.Lib Kfs.Utils

/-! ## Strings and numbers -/

/-- `while (str[++i]) ft_putchar(str[i]);` -/
def putstrLoop : List UInt8 → Tty → Kern Tty
  | [], _ => .error .fault
  | c :: str, t =>
    if c = 0 then .ok t
    else do
      let t ← ftPutchar c t
      putstrLoop str t

def nullText : List UInt8 := [0x28, 0x6E, 0x75, 0x6C, 0x6C, 0x29] -- "(null)"

/-- `ft_putstr` of an address. -/
def ftPutstrAt (mem : UInt32 → List UInt8) (str : UInt32) (t : Tty) : Kern Tty :=
  if str = 0 then putstrLoop (nullText ++ [0]) t else putstrLoop (mem str) t

/-- `ft_putnbr` with `n` nested calls allowed. -/
def ftPutnbrN : ℕ → Int32 → Tty → Kern Tty
  | 0, _, _ => .error .fault
  | n + 1, nb, t =>
    if nb = -2147483648 then do
      let t ← ftPutnbrN n (-21474) t
      ftPutnbrN n 83648 t
    else if nb < 0 then do
      let t ← ftPutchar 0x2D t -- '-'
      ftPutnbrN n (nb * -1) t
    else if 10 ≤ nb then do
      let t ← ftPutnbrN n (nb / 10) t
      ftPutnbrN n (nb % 10) t
    else ftPutchar (nb + 0x30).toInt8.toUInt8 t -- '0'

/-- `ft_putnbr`. -/
def ftPutnbr (nb : Int32) (t : Tty) : Kern Tty := ftPutnbrN 12 nb t

/-- `ft_putunsignednbr`. -/
def ftPutunsignednbr (nb : UInt32) (t : Tty) : Kern Tty :=
  if 10 ≤ nb then do
    let t ← ftPutnbr (nb / 10).toInt32 t
    ftPutnbr (nb % 10).toInt32 t
  else ftPutchar (nb + 0x30).toUInt8 t

/-- The characters of `dict`. -/
def hexDict (upper : Bool) : List UInt8 :=
  [0x30, 0x31, 0x32, 0x33, 0x34, 0x35, 0x36, 0x37, 0x38, 0x39] ++
    if upper then [0x41, 0x42, 0x43, 0x44, 0x45, 0x46] else [0x61, 0x62, 0x63, 0x64, 0x65, 0x66]

/-- `ft_puthexa` with `n` nested calls allowed. -/
def ftPuthexaN : ℕ → UInt32 → Bool → Bool → Tty → Kern Tty
  | 0, _, _, _, _ => .error .fault
  | n + 1, nb, upper, addr, t =>
    if addr then do
      let t ← ftPutstr [0x30, 0x78] t -- "0x"
      ftPuthexaN n nb upper false t
    else if nb < 16 then do
      let c ← loadByte ((hexDict upper).drop nb.toNat)
      ftPutchar c t
    else do
      let t ← ftPuthexaN n (nb / 16) upper false t
      ftPuthexaN n (nb % 16) upper false t

/-- `ft_puthexa`. -/
def ftPuthexa (nb : UInt32) (upper addr : Bool) (t : Tty) : Kern Tty := ftPuthexaN 10 nb upper addr t

/-! ## The format -/

/-- `va_arg`: every type that `vga_vprintf` asks for takes one word of the stack. -/
def vaArg : List UInt32 → Kern (UInt32 × List UInt32)
  | [] => .error .fault
  | w :: ap => .ok (w, ap)

/-- The conversions that take an argument: what is done with it. -/
def conversion (mem : UInt32 → List UInt8) (c : UInt8) : Option (UInt32 → Tty → Kern Tty) :=
  if c = 0x73 then some (ftPutstrAt mem) -- 's'
  else if c = 0x69 ∨ c = 0x64 then some fun w => ftPutnbr w.toInt32 -- 'i', 'd'
  else if c = 0x75 then some ftPutunsignednbr -- 'u'
  else if c = 0x78 then some fun w => ftPuthexa w false false -- 'x'
  else if c = 0x58 then some fun w => ftPuthexa w true false -- 'X'
  else if c = 0x70 then some fun w => ftPuthexa w false true -- 'p'
  else if c = 0x63 then some fun w => ftPutchar w.toUInt8 -- 'c'
  else none

/-- The `switch` of `vga_vprintf`. -/
def convert (mem : UInt32 → List UInt8) (c : UInt8) (ap : List UInt32) (t : Tty) :
    Kern (List UInt32 × Tty) :=
  match conversion mem c with
  | some put => do
    let (w, ap) ← vaArg ap
    let t ← put w t
    .ok (ap, t)
  | none =>
    if c = 0x25 then do -- '%'
      let t ← ftPutchar 0x25 t
      .ok (ap, t)
    else .ok (ap, t)

/-- The loop of `vga_vprintf` from `fmt + i` on. -/
def vprintfLoop (mem : UInt32 → List UInt8) : List UInt8 → List UInt32 → Tty → Kern Tty
  | [], _, _ => .error .fault
  | x :: fmt, ap, t =>
    if x = 0 then .ok t
    else if x = 0x25 then
      match fmt with
      | [] => .error .fault
      | c :: fmt => do
        -- The byte behind `%` is skipped whatever it is, the null byte as well.
        let (ap, t) ← convert mem c ap t
        vprintfLoop mem fmt ap t
    else do
      let t ← ftPutchar x t
      vprintfLoop mem fmt ap t

/-- `vga_vprintf`. -/
def vgaVprintf (mem : UInt32 → List UInt8) (fmt : List UInt8) (ap : List UInt32) (t : Tty) :
    Kern Tty := do
  let t ← vprintfLoop mem fmt ap t
  let _ ← vgaRefreshScreen t
  .ok t

/-! ## Printing text -/

@[simp] theorem ftPutstr_nil (t : Tty) : ftPutstr [] t = .ok t := rfl

@[simp] theorem ftPutstr_singleton (c : UInt8) (t : Tty) : ftPutstr [c] t = ftPutchar c t := by
  unfold ftPutstr
  rw [List.foldlM_cons]
  exact bind_pure (ftPutchar c t)

theorem ftPutstr_cons (c : UInt8) (text : List UInt8) (t : Tty) :
    ftPutstr (c :: text) t = ftPutchar c t >>= ftPutstr text := by
  unfold ftPutstr
  rw [List.foldlM_cons]

theorem ftPutstr_append (text text' : List UInt8) (t : Tty) :
    ftPutstr (text ++ text') t = ftPutstr text t >>= ftPutstr text' := by
  unfold ftPutstr
  rw [List.foldlM_append]

/-- The bytes before the first null byte, if there is one. -/
def cString : List UInt8 → Option (List UInt8)
  | [] => none
  | c :: str => if c = 0 then some [] else (cString str).map (c :: ·)

/-- A string is printed up to its null byte. -/
theorem putstrLoop_eq {str text : List UInt8} (h : cString str = some text) (t : Tty) :
    putstrLoop str t = ftPutstr text t := by
  induction str generalizing text t with
  | nil => cases h
  | cons c str ih =>
    unfold cString at h
    unfold putstrLoop
    by_cases hc : c = 0
    · rw [if_pos hc] at h
      rw [if_pos hc, ← Option.some.inj h]
      rfl
    · rw [if_neg hc, Option.map_eq_some_iff] at h
      obtain ⟨text', htext', rfl⟩ := h
      rw [if_neg hc, ftPutstr_cons]
      congr 1
      funext t'
      exact ih htext' t'

/-- A string with a null byte behind it. -/
theorem cString_append {text : List UInt8} (h : (0 : UInt8) ∉ text) (rest : List UInt8) :
    cString (text ++ 0 :: rest) = some text := by
  induction text with
  | nil => rfl
  | cons c text ih =>
    rw [List.mem_cons, not_or] at h
    simp [cString, ih h.2, Ne.symm h.1]

/-! ## Digits -/

/-- **Digit rule**: a recursion that prints the quotient and then the remainder prints the digits.
`P n k` prints `k` with `n` nested calls allowed. -/
theorem putDigits {b N : ℕ} {f : Char → UInt8} {P : ℕ → ℕ → Tty → Kern Tty} (hb : 1 < b)
    (hdigit : ∀ n k t, k < b → P (n + 1) k t = ftPutchar (f k.digitChar) t)
    (hmore : ∀ n k t, b ≤ k → k ≤ N → P (n + 1) k t = P n (k / b) t >>= P n (k % b))
    (n : ℕ) {k : ℕ} (hbound : k ≤ N) (hk : k < b ^ (n + 1)) (t : Tty) :
    P (n + 1) k t = ftPutstr ((Nat.toDigits b k).map f) t := by
  induction n generalizing k t with
  | zero =>
    have hlt : k < b := by simpa using hk
    rw [hdigit 0 k t hlt, Nat.toDigits_of_lt_base hlt]
    simp
  | succ n ih =>
    by_cases hlt : k < b
    · rw [hdigit (n + 1) k t hlt, Nat.toDigits_of_lt_base hlt]
      simp
    · have hle : b ≤ k := Nat.le_of_not_lt hlt
      have hquot : k / b < b ^ (n + 1) := by
        apply Nat.div_lt_of_lt_mul
        rwa [← Nat.pow_succ']
      have hrem : ∀ t', P (n + 1) (k % b) t' = ftPutstr [f (k % b).digitChar] t' := by
        intro t'
        rw [hdigit n _ t' (Nat.mod_lt k (by omega)), ftPutstr_singleton]
      rw [hmore (n + 1) k t hle hbound, ih ((Nat.div_le_self k b).trans hbound) hquot,
        Nat.toDigits_of_base_le hb hle, List.map_append, ftPutstr_append]
      congr 1
      funext t'
      exact hrem t'

/-- The digits of a number. -/
def digitsText (b n : ℕ) : List UInt8 := (Nat.toDigits b n).map Char.toUInt8

/-- A number with its sign. -/
def signedText : ℤ → List UInt8
  | .ofNat n => digitsText 10 n
  | .negSucc n => 0x2D :: digitsText 10 (n + 1)

theorem toInt_ofNat {k : ℕ} (hk : k < 2 ^ 31) : (Int32.ofNat k).toInt = k :=
  Int32.toInt_ofNat_of_lt hk

theorem putnbr_digit (n : ℕ) {k : ℕ} (hk : k < 10) (t : Tty) :
    ftPutnbrN (n + 1) (Int32.ofNat k) t = ftPutchar k.digitChar.toUInt8 t := by
  unfold ftPutnbrN
  interval_cases k <;> rfl

theorem putnbr_more (n : ℕ) {k : ℕ} (hk : 10 ≤ k) (hbound : k ≤ 2 ^ 31 - 1) (t : Tty) :
    ftPutnbrN (n + 1) (Int32.ofNat k) t =
      ftPutnbrN n (Int32.ofNat (k / 10)) t >>= ftPutnbrN n (Int32.ofNat (k % 10)) := by
  have hint := toInt_ofNat (k := k) (by omega)
  have hmin : Int32.ofNat k ≠ -2147483648 := by
    intro h
    have := congrArg Int32.toInt h
    rw [hint] at this
    have hval : (-2147483648 : Int32).toInt = -2147483648 := by decide
    omega
  have hneg : ¬ Int32.ofNat k < 0 := by
    rw [Int32.lt_iff_toInt_lt, hint]
    have hzero : (0 : Int32).toInt = 0 := by decide
    omega
  have hten : (10 : Int32) ≤ Int32.ofNat k := by
    rw [Int32.le_iff_toInt_le, hint]
    have hval : (10 : Int32).toInt = 10 := by decide
    omega
  have hdiv : Int32.ofNat k / 10 = Int32.ofNat (k / 10) :=
    (Int32.ofNat_div (by omega) (by decide)).symm
  have hmod : Int32.ofNat k % 10 = Int32.ofNat (k % 10) :=
    (Int32.ofNat_mod (by omega) (by decide)).symm
  rw [ftPutnbrN, if_neg hmin, if_neg hneg, if_pos hten, hdiv, hmod]

theorem putnbr_nat {k : ℕ} (hbound : k ≤ 2 ^ 31 - 1) {n : ℕ} (hn : 10 ≤ n) (t : Tty) :
    ftPutnbrN n (Int32.ofNat k) t = ftPutstr (digitsText 10 k) t := by
  obtain ⟨n, rfl⟩ : ∃ m, n = m + 1 := ⟨n - 1, by omega⟩
  have hpow : 10 ^ 10 ≤ 10 ^ (n + 1) := Nat.pow_le_pow_right (by decide) hn
  exact putDigits (P := fun n k => ftPutnbrN n (Int32.ofNat k)) (by decide)
    (fun n k t hk => putnbr_digit n hk t) (fun n k t hk hbound => putnbr_more n hk hbound t)
    n hbound (by omega) t

/-- A negative number that can be negated. -/
theorem putnbr_neg (n : ℕ) {k : ℕ} (hk : k + 1 < 2 ^ 31) (t : Tty) :
    ftPutnbrN (n + 1) (Int32.ofInt (.negSucc k)) t =
      ftPutchar 0x2D t >>= ftPutnbrN n (Int32.ofNat (k + 1)) := by
  have hint : (Int32.ofInt (.negSucc k)).toInt = .negSucc k :=
    Int32.toInt_ofInt_of_le (by omega) (by omega)
  have hmin : Int32.ofInt (.negSucc k) ≠ -2147483648 := by
    intro h
    have hval := congrArg Int32.toInt h
    rw [hint] at hval
    have hconst : (-2147483648 : Int32).toInt = -2147483648 := by decide
    omega
  have hneg : Int32.ofInt (.negSucc k) < 0 := by
    rw [Int32.lt_iff_toInt_lt, hint]
    exact Int.negSucc_lt_zero k
  have hmul : Int32.ofInt (.negSucc k) * -1 = Int32.ofNat (k + 1) := by
    rw [Int32.mul_neg, Int32.mul_one, ← Int32.ofInt_neg]
    rfl
  rw [ftPutnbrN, if_neg hmin, if_pos hneg, hmul]

/-- `ft_putnbr` prints every number, the one without an opposite in two parts. -/
theorem ftPutnbr_eq (nb : Int32) (t : Tty) :
    ftPutnbr nb t = ftPutstr (signedText nb.toInt) t := by
  unfold ftPutnbr
  have hlt := nb.toInt_lt
  have hge := nb.le_toInt
  cases hsign : nb.toInt with
  | ofNat k =>
    rw [hsign] at hlt
    have hk : k < 2 ^ 31 := Int.ofNat_lt.mp hlt
    have hnb : nb = Int32.ofNat k := by
      apply Int32.toInt_inj.mp
      rw [toInt_ofNat hk, hsign]
      rfl
    rw [hnb]
    exact putnbr_nat (by omega) (by decide) t
  | negSucc k =>
    rw [hsign] at hge
    have hk : k + 1 ≤ 2 ^ 31 := by omega
    have hnb : nb = Int32.ofInt (.negSucc k) := by
      apply Int32.toInt_inj.mp
      rw [Int32.toInt_ofInt_of_le (by omega) (by omega), hsign]
    by_cases hmin : k + 1 = 2 ^ 31
    · have hparts : signedText (.negSucc k) = 0x2D :: digitsText 10 21474 ++ digitsText 10 83648 := by
        obtain rfl : k = 2147483647 := by omega
        decide
      have hfirst : (-21474 : Int32) = Int32.ofInt (.negSucc 21473) := by decide
      have hsecond : (83648 : Int32) = Int32.ofNat 83648 := by decide
      have hmost : nb = -2147483648 := by
        obtain rfl : k = 2147483647 := by omega
        rw [hnb]
        decide
      rw [ftPutnbrN, if_pos hmost, hfirst, hsecond, putnbr_neg 10 (by decide), hparts, ftPutstr_append,
        ftPutstr_cons]
      congr 1
      · congr 1
        funext t'
        exact putnbr_nat (by decide) (by decide) t'
      · funext t'
        exact putnbr_nat (by decide) (by decide) t'
    · rw [hnb, putnbr_neg 11 (by omega), signedText, ftPutstr_cons]
      congr 1
      funext t'
      exact putnbr_nat (by omega) (by decide) t'

theorem toInt32_eq (w : UInt32) : w.toInt32 = Int32.ofNat w.toNat := by
  apply Int32.toBitVec_inj.mp
  simp

theorem ftPutunsignednbr_eq (nb : UInt32) (t : Tty) :
    ftPutunsignednbr nb t = ftPutstr (digitsText 10 nb.toNat) t := by
  have hlt := nb.toNat_lt
  unfold ftPutunsignednbr ftPutnbr
  by_cases hten : 10 ≤ nb
  · have hle : 10 ≤ nb.toNat := UInt32.le_iff_toNat_le.mp hten
    have hquot : (nb / 10).toNat = nb.toNat / 10 := UInt32.toNat_div nb 10
    have hrem : (nb % 10).toNat = nb.toNat % 10 := UInt32.toNat_mod nb 10
    have hdigits : digitsText 10 nb.toNat =
        digitsText 10 (nb.toNat / 10) ++ digitsText 10 (nb.toNat % 10) := by
      unfold digitsText
      rw [Nat.toDigits_of_base_le (by decide) hle,
        Nat.toDigits_of_lt_base (Nat.mod_lt _ (by decide)), List.map_append]
    rw [if_pos hten, toInt32_eq, toInt32_eq, hquot, hrem, hdigits, ftPutstr_append,
      putnbr_nat (by omega) (by decide)]
    congr 1
    funext t'
    exact putnbr_nat (by omega) (by decide) t'
  · have hsmall : nb.toNat < 10 := by
      rw [UInt32.le_iff_toNat_le] at hten
      exact Nat.lt_of_not_le hten
    have hnb : nb = UInt32.ofNat nb.toNat := UInt32.ofNat_toNat.symm
    rw [if_neg hten, digitsText, Nat.toDigits_of_lt_base hsmall, List.map_singleton,
      ftPutstr_singleton, hnb]
    congr 1
    generalize nb.toNat = k at hsmall
    interval_cases k <;> rfl

/-- The digits of `dict`. -/
theorem loadByte_hexDict (upper : Bool) {k : ℕ} (hk : k < 16) :
    loadByte ((hexDict upper).drop k) =
      .ok (if upper then k.digitChar.toUpper else k.digitChar).toUInt8 := by
  cases upper <;> interval_cases k <;> rfl

/-- A number in base 16. -/
def hexText (upper : Bool) (n : ℕ) : List UInt8 :=
  (Nat.toDigits 16 n).map fun c => (if upper then c.toUpper else c).toUInt8

theorem toNat_ofNat {k : ℕ} (hk : k < 2 ^ 32) : (UInt32.ofNat k).toNat = k :=
  UInt32.toNat_ofNat_of_lt' hk

theorem puthexa_nat (upper : Bool) {k : ℕ} (hbound : k ≤ 2 ^ 32 - 1) {n : ℕ} (hn : 8 ≤ n) (t : Tty) :
    ftPuthexaN n (UInt32.ofNat k) upper false t = ftPutstr (hexText upper k) t := by
  obtain ⟨n, rfl⟩ : ∃ m, n = m + 1 := ⟨n - 1, by omega⟩
  have hpow : 16 ^ 8 ≤ 16 ^ (n + 1) := Nat.pow_le_pow_right (by decide) hn
  refine putDigits (P := fun n k => ftPuthexaN n (UInt32.ofNat k) upper false)
    (N := 2 ^ 32 - 1) (by decide) ?_ ?_ n hbound (by omega) t
  · intro n k t hk
    have hlt : UInt32.ofNat k < 16 := by
      rw [UInt32.lt_iff_toNat_lt, toNat_ofNat (by omega)]
      exact hk
    have hval : (UInt32.ofNat k).toNat = k := toNat_ofNat (by omega)
    show ftPuthexaN (n + 1) (UInt32.ofNat k) upper false t = _
    rw [ftPuthexaN, if_neg (by simp), if_pos hlt, hval, loadByte_hexDict upper hk, ok_bind]
  · intro n k t hk hbound
    have hval : (UInt32.ofNat k).toNat = k := toNat_ofNat (by omega)
    have hge : ¬ UInt32.ofNat k < 16 := by
      rw [UInt32.lt_iff_toNat_lt, hval]
      exact Nat.not_lt_of_le hk
    have hdiv : UInt32.ofNat k / 16 = UInt32.ofNat (k / 16) :=
      (UInt32.ofNat_div (by omega) (by decide)).symm
    have hmod : UInt32.ofNat k % 16 = UInt32.ofNat (k % 16) :=
      (UInt32.ofNat_mod (by omega) (by decide)).symm
    show ftPuthexaN (n + 1) (UInt32.ofNat k) upper false t = _
    rw [ftPuthexaN, if_neg (by simp), if_neg hge, hdiv, hmod]

theorem ftPuthexa_eq (nb : UInt32) (upper : Bool) (t : Tty) :
    ftPuthexa nb upper false t = ftPutstr (hexText upper nb.toNat) t := by
  have hlt := nb.toNat_lt
  have hnat : ftPuthexaN 10 (UInt32.ofNat nb.toNat) upper false t = _ :=
    puthexa_nat upper (by omega) (by decide) t
  rw [UInt32.ofNat_toNat] at hnat
  exact hnat

theorem ftPuthexa_addr_eq (nb : UInt32) (upper : Bool) (t : Tty) :
    ftPuthexa nb upper true t = ftPutstr ([0x30, 0x78] ++ hexText upper nb.toNat) t := by
  have hlt := nb.toNat_lt
  unfold ftPuthexa
  rw [ftPuthexaN, if_pos rfl, ftPutstr_append]
  congr 1
  funext t'
  have hnat : ftPuthexaN 9 (UInt32.ofNat nb.toNat) upper false t' = _ :=
    puthexa_nat upper (by omega) (by decide) t'
  rw [UInt32.ofNat_toNat] at hnat
  exact hnat

end Kfs.Drivers
