import Kfs.Kernel.Panic
import Kfs.Lib.Words
import Mathlib.Algebra.Group.Nat.Defs

/-!
# Splitting a string

`lib/libutils/ft_split.c`. A pointer into a string is the list of the bytes from there to the end
of the object that holds the string; reading past that end faults. An allocated array is the list
of its elements, and so does writing past it. Indices count modulo 2³² as addresses do, so a
natural number reaches the same bytes.
-/

namespace Kfs.Utils

open Kfs.Lib

/-- `*p`. -/
def loadByte : List UInt8 → Kern UInt8
  | [] => .error .fault
  | x :: _ => .ok x

/-- `ft_strlen`. -/
def ftStrlen : List UInt8 → Kern ℕ
  | [] => .error .fault
  | x :: s => if x = 0 then .ok 0 else do
    let n ← ftStrlen s
    .ok (n + 1)

/-- The loop of `ft_strndup`: the bytes it has copied. -/
def copyBytes : ℕ → List UInt8 → Kern (List UInt8)
  | 0, _ => .ok []
  | _ + 1, [] => .error .fault
  | n + 1, x :: s => do
    let dest ← copyBytes n s
    .ok (x :: dest)

/-- `ft_strndup`, where `kmalloc` says which requests are granted. -/
def ftStrndup (kmalloc : ℕ → Bool) (s : List UInt8) (n : ℕ) : Kern (Option (List UInt8)) :=
  if kmalloc (n + 1) then do
    let dest ← copyBytes n s
    .ok (some (dest ++ [0]))
  else .ok none

/-- The loop of `ft_countwords` from `str + i` on. -/
def countLoop (set : UInt8) : List UInt8 → ℕ → Kern ℕ
  | [], _ => .error .fault
  | x :: s, len =>
    if x = 0 then .ok len
    else if x = set then do
      let y ← loadByte s
      countLoop set s (if y ≠ set ∧ y ≠ 0 then len + 1 else len)
    else countLoop set s len

/-- `ft_countwords`. -/
def ftCountwords (str : List UInt8) (set : UInt8) : Kern ℕ := do
  if (← ftStrlen str) = 0 then .ok 0
  else
    let x ← loadByte str
    countLoop set str (if x ≠ set then 1 else 0)

/-- An element of the array that `ft_split` returns: `NULL` or an allocated string. -/
abbrev Slot := Option (List UInt8)

/-- `ft_calloc` of an array of pointers: `count * size` bytes, counted in 32 bits, all zero. -/
def ftCalloc (kmalloc : ℕ → Bool) (count size : ℕ) : Option (List Slot) :=
  let bytes := count * size % 2 ^ 32
  if kmalloc bytes then some (List.replicate (bytes / 4) none) else none

/-- `tab[m] = word`. -/
def storeSlot (tab : List Slot) (m : ℕ) (word : Slot) : Kern (List Slot) :=
  if m < tab.length then .ok (tab.set m word) else .error .fault

/-- The inner loop of `ft_split`: `len_word` from `str + i` on. -/
def wordLen (set : UInt8) : List UInt8 → Kern ℕ
  | [] => .error .fault
  | x :: s => if x ≠ set ∧ x ≠ 0 then do
      let n ← wordLen set s
      .ok (n + 1)
    else .ok 0

/-- The loop of `ft_split` from `str + i` on. Every turn takes a byte, so as many turns as there are
bytes are enough. -/
def splitLoop (kmalloc : ℕ → Bool) (set : UInt8) :
    ℕ → List UInt8 → List Slot → ℕ → Kern (List Slot × ℕ)
  | 0, _, _, _ => .error .fault
  | turns + 1, str, tab, mTab => do
    let x ← loadByte str
    if x = 0 then .ok (tab, mTab)
    else if x = set then splitLoop kmalloc set turns (str.drop 1) tab mTab
    else
      let lenWord ← wordLen set str
      let word ← ftStrndup kmalloc str lenWord
      let tab ← storeSlot tab mTab word
      splitLoop kmalloc set turns (str.drop lenWord) tab (mTab + 1)

/-- `ft_split`. -/
def ftSplit (kmalloc : ℕ → Bool) (str : Option (List UInt8)) (set : UInt8) :
    Kern (Option (List Slot)) :=
  match str with
  | none => .ok none
  | some str => do
    let words ← ftCountwords str set
    match ftCalloc kmalloc 4 (words + 1) with
    | none => .ok none
    | some tab => do
      let (tab, mTab) ← splitLoop kmalloc set str.length str tab 0
      let tab ← storeSlot tab mTab none
      .ok (some tab)

/-! ## The loops -/

variable {kmalloc : ℕ → Bool} {set : UInt8} {s t w rest obj : List UInt8} {ws : List (List UInt8)}

/-- `ft_strlen` of a string in an object of memory. -/
theorem ftStrlen_eq (hs : (0 : UInt8) ∉ s) : ftStrlen (s ++ 0 :: obj) = .ok s.length := by
  induction s with
  | nil => rfl
  | cons x s ih =>
    obtain ⟨hx, hs⟩ := not_or.mp (mt List.mem_cons.mpr hs)
    rw [List.cons_append, ftStrlen, if_neg (Ne.symm hx), ih hs]
    rfl

theorem copyBytes_eq (w rest : List UInt8) : copyBytes w.length (w ++ rest) = .ok w := by
  induction w with
  | nil => rfl
  | cons x w ih =>
    rw [List.cons_append, List.length_cons, copyBytes, ih]
    rfl

/-- `ft_countwords` looks one byte ahead. -/
theorem countLoop_eq (hs : (0 : UInt8) ∉ s) (len : ℕ) :
    countLoop set (s ++ 0 :: obj) len = .ok (len + laterWords set s) := by
  induction s generalizing len with
  | nil => rfl
  | cons x s ih =>
    obtain ⟨hx, hs⟩ := not_or.mp (mt List.mem_cons.mpr hs)
    rw [List.cons_append, countLoop, if_neg (Ne.symm hx), laterWords]
    by_cases hset : x = set
    · -- Behind a separator a word starts unless another separator or the end follows.
      rw [if_pos hset, if_pos hset]
      cases s with
      | nil =>
        rw [List.nil_append, loadByte, ok_bind, if_neg (by simp)]
        rfl
      | cons y s =>
        obtain ⟨hy, -⟩ := not_or.mp (mt List.mem_cons.mpr hs)
        rw [List.cons_append, loadByte, ok_bind, ← List.cons_append, ih hs, startsWord]
        by_cases hyset : y = set
        · rw [if_neg (by simp [hyset]), if_pos hyset, Nat.zero_add]
        · rw [if_pos ⟨hyset, Ne.symm hy⟩, if_neg hyset, Nat.add_assoc]
    · rw [if_neg hset, if_neg hset, ih hs, Nat.zero_add]

/-- `ft_countwords` counts the words. -/
theorem ftCountwords_eq (obj : List UInt8) (hs : (0 : UInt8) ∉ s) (h : Splits set s ws) :
    ftCountwords (s ++ 0 :: obj) set = .ok ws.length := by
  unfold ftCountwords
  rw [ftStrlen_eq hs, ok_bind, ← h.length_eq]
  cases s with
  | nil => rfl
  | cons x s =>
    rw [if_neg (by simp), List.cons_append, loadByte, ok_bind, ← List.cons_append,
      countLoop_eq hs, startsWord]
    by_cases hx : x = set
    · rw [if_neg (by simp [hx]), if_pos hx]
    · rw [if_pos hx, if_neg hx]

/-- The inner loop stops behind a word. -/
theorem wordLen_eq (hw : (0 : UInt8) ∉ w) (hset : set ∉ w)
    (hrest : ∀ x ∈ rest.head?, x = set ∨ x = 0) (hne : rest ≠ []) :
    wordLen set (w ++ rest) = .ok w.length := by
  induction w with
  | nil =>
    -- The byte behind the word stops the loop.
    obtain ⟨x, rest, rfl⟩ := List.exists_cons_of_ne_nil hne
    rw [List.nil_append, wordLen, if_neg]
    · rfl
    · rintro ⟨hx, hx0⟩
      exact (hrest x rfl).elim hx hx0
  | cons x w ih =>
    obtain ⟨hx, hw⟩ := not_or.mp (mt List.mem_cons.mpr hw)
    obtain ⟨hxs, hset⟩ := not_or.mp (mt List.mem_cons.mpr hset)
    rw [List.cons_append, wordLen, if_pos ⟨Ne.symm hxs, Ne.symm hx⟩, ih hw hset]
    rfl

/-- A word as `ft_strndup` returns it. -/
def wordSlot (kmalloc : ℕ → Bool) (w : List UInt8) : Slot :=
  if kmalloc (w.length + 1) then some (w ++ [0]) else none

/-- The next free slot of an array takes a word. -/
theorem storeSlot_eq (filled : List Slot) (word : Slot) (n : ℕ) :
    storeSlot (filled ++ List.replicate (n + 1) none) filled.length word =
      .ok ((filled ++ [word]) ++ List.replicate n none) := by
  unfold storeSlot
  rw [if_pos (by simp), List.set_append_right _ _ (Nat.le_refl _), Nat.sub_self,
    List.replicate_succ, List.set_cons_zero, List.append_assoc]
  rfl

/-- **Run** of the loop: it stores the words in order into the slots that are free, if there are
enough of them. -/
theorem splitLoop_eq (kmalloc : ℕ → Bool) (set : UInt8) (obj : List UInt8) {turns : ℕ} (hs : (0 : UInt8) ∉ s)
    (hturns : s.length < turns) :
    ∃ ws, Splits set s ws ∧ ∀ (filled : List Slot) (n : ℕ),
      splitLoop kmalloc set turns (s ++ 0 :: obj)
          (filled ++ List.replicate (ws.length + n) none) filled.length =
        .ok (filled ++ ws.map (wordSlot kmalloc) ++ List.replicate n none, filled.length + ws.length) := by
  -- The array has the slots filled so far in front, and free ones for the words to come.
  induction turns generalizing s with
  | zero => exact absurd hturns (Nat.not_lt_zero _)
  | succ turns ih =>
    cases s with
    | nil =>
      refine ⟨[], .gap (by simp), fun filled n => ?_⟩
      rw [List.nil_append, splitLoop, loadByte, ok_bind, if_pos rfl]
      simp
    | cons x s =>
      have hx : x ≠ 0 := fun hx => hs (hx ▸ List.mem_cons_self)
      by_cases hset : x = set
      · -- A separator is skipped.
        subst hset
        obtain ⟨ws, hsplits, hloop⟩ := ih (s := s) (fun h => hs (List.mem_cons_of_mem x h))
          (Nat.lt_of_succ_lt_succ hturns)
        refine ⟨ws, hsplits.cons_separator, fun filled n => ?_⟩
        rw [List.cons_append, splitLoop, loadByte, ok_bind, if_neg hx, if_pos rfl]
        exact hloop filled n
      · -- A word is copied and skipped.
        obtain ⟨w, rest, heq, hne, hc, hrest⟩ := exists_word hset s
        rw [heq] at hs hturns
        obtain ⟨ws, hsplits, hloop⟩ := ih (s := rest)
          (fun h => hs (List.mem_append_right w h)) (by
            rw [List.length_append] at hturns
            have hpos := List.length_pos_iff.mpr hne
            omega)
        refine ⟨w :: ws, ?_, fun filled n => ?_⟩
        · rw [heq]
          exact .word (g := []) (by simp) hne hc hrest hsplits
        · have hlen : wordLen set (w ++ (rest ++ 0 :: obj)) = .ok w.length := by
            apply wordLen_eq (fun h => hs (List.mem_append_left rest h)) hc
            · intro y hy
              cases rest with
              | nil => exact Or.inr (Option.some.inj hy).symm
              | cons z rest => exact Or.inl (hrest y hy)
            · simp
          have hcopy : ftStrndup kmalloc (w ++ (rest ++ 0 :: obj)) w.length =
              .ok (wordSlot kmalloc w) := by
            unfold ftStrndup wordSlot
            rw [copyBytes_eq]
            split <;> rfl
          have hstore := storeSlot_eq filled (wordSlot kmalloc w) (ws.length + n)
          have hrun := hloop (filled ++ [wordSlot kmalloc w]) n
          have hslots : (w :: ws).length + n = ws.length + n + 1 := by
            rw [List.length_cons]
            omega
          rw [List.cons_append, splitLoop, loadByte, ok_bind, if_neg hx, if_neg hset,
            ← List.cons_append, heq, List.append_assoc, hlen, ok_bind, hcopy, ok_bind, hslots,
            hstore, ok_bind, List.drop_left]
          rw [List.length_append, List.length_singleton] at hrun
          rw [hrun, List.map_cons, List.length_cons]
          simp [Nat.add_comm, Nat.add_left_comm]

/-! ## Splitting -/

/-- Whatever `kmalloc` grants, `ft_split` stays inside the string and inside its array. -/
theorem ftSplit_eq (kmalloc : ℕ → Bool) (set : UInt8) (obj : List UInt8) (hs : (0 : UInt8) ∉ s) :
    ∃ ws, Splits set s ws ∧ (4 * (ws.length + 1) < 2 ^ 32 →
      ftSplit kmalloc (some (s ++ 0 :: obj)) set =
        .ok (if kmalloc (4 * (ws.length + 1)) then some (ws.map (wordSlot kmalloc) ++ [none])
          else none)) := by
  have hturns : s.length < (s ++ 0 :: obj).length := by simp
  obtain ⟨ws, hsplits, hloop⟩ := splitLoop_eq kmalloc set obj hs hturns
  refine ⟨ws, hsplits, fun hfits => ?_⟩
  have hcount := ftCountwords_eq obj hs hsplits
  have hstore := storeSlot_eq (ws.map (wordSlot kmalloc)) none 0
  have hrun := hloop [] 1
  rw [List.nil_append, List.nil_append, List.length_nil, Nat.zero_add] at hrun
  rw [List.length_map, List.replicate_zero, List.append_nil] at hstore
  -- One slot for each word and one for the `NULL` at the end.
  have hcalloc : ftCalloc kmalloc 4 (ws.length + 1) =
      if kmalloc (4 * (ws.length + 1)) then some (List.replicate (ws.length + 1) none)
      else none := by
    unfold ftCalloc
    dsimp only
    rw [Nat.mod_eq_of_lt hfits, Nat.mul_div_cancel_left _ (by decide)]
  unfold ftSplit
  simp only [hcount, ok_bind, hcalloc]
  by_cases hk : kmalloc (4 * (ws.length + 1)) = true
  · simp only [hk, if_true, hrun, ok_bind, hstore]
  · simp only [hk, if_false, Bool.false_eq_true]

/-- The allocations of `ft_split` succeed: `kmalloc` grants every request, and the array of pointers
is one that fits into the address space, so that its size is the one that is requested. -/
structure AllocationsSucceed (kmalloc : ℕ → Bool) (str : List UInt8) (set : UInt8) : Prop where
  granted : ∀ size, kmalloc size = true
  fits : ∀ count, ftCountwords str set = .ok count → 4 * (count + 1) < 2 ^ 32

/-- **`ft_split` is exact.** Of a string `s` in an object of memory it stores the words between the
separators, each with its end, and `NULL` behind them, and this fills the array it has allocated.
The words and the separators skipped give the string back. -/
theorem ftSplit_exact (kmalloc : ℕ → Bool) (s obj : List UInt8) (set : UInt8)
    (hs : (0 : UInt8) ∉ s) (hk : AllocationsSucceed kmalloc (s ++ 0 :: obj) set) :
    ∃ (ws : List (List UInt8)) (tab : List Slot) (count : ℕ),
      ftSplit kmalloc (some (s ++ 0 :: obj)) set = .ok (some tab) ∧
      tab = ws.map (fun w => some (w ++ [0])) ++ [none] ∧
      ftCountwords (s ++ 0 :: obj) set = .ok count ∧ tab.length = count + 1 ∧
      ws = (s.splitOn set).filter (fun w => !w.isEmpty) ∧
      ∃ gaps last, gaps.length = ws.length ∧ (∀ g ∈ last :: gaps, ∀ x ∈ g, x = set) ∧
        (List.zipWith (· ++ ·) gaps ws).flatten ++ last = s := by
  obtain ⟨ws, hsplits, hsplit⟩ := ftSplit_eq kmalloc set obj hs
  have hcount := ftCountwords_eq obj hs hsplits
  have hresult := hsplit (hk.fits _ hcount)
  rw [if_pos (hk.granted _)] at hresult
  have hwords : ws.map (wordSlot kmalloc) = ws.map fun w => some (w ++ [0]) := by
    apply List.map_congr_left
    intro w _
    exact if_pos (hk.granted _)
  rw [hwords] at hresult
  exact ⟨ws, _, ws.length, hresult, rfl, hcount, by simp, hsplits.eq_splitOn, hsplits.join⟩

/-- `" ls  -l "` with its end, split at the spaces. -/
theorem ftSplit_exact_twoWords :
    ftSplit (fun _ => true) (some [32, 108, 115, 32, 32, 45, 108, 32, 0]) 32 =
      .ok (some [some [108, 115, 0], some [45, 108, 0], none]) := by
  obtain ⟨ws, tab, -, hsplit, htab, -, -, hws, -⟩ :=
    ftSplit_exact (fun _ => true) [32, 108, 115, 32, 32, 45, 108, 32] [] 32 (by decide)
      ⟨fun _ => rfl, fun count hcount => by
        have heq : (Except.ok 2 : Kern ℕ) = .ok count := hcount
        obtain rfl := Except.ok.inj heq
        decide⟩
  rw [htab, hws] at hsplit
  exact hsplit

end Kfs.Utils
