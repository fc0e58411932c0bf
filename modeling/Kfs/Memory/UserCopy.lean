import Kfs.Memory.VmmSpec

/-!
# Copying from and to user space

`src/memory/usercopy.c`, `include/memory/usercopy.h` and `vmm_verify_range_flags` of
`src/memory/vmm.c`. Physical memory is a map from byte addresses to bytes; a word of a page table
is read from four of them. `copy_to_user` and `copy_from_user` check the user range against the page
tables of the current task and then copy byte by byte through the memory management unit, whose
translation is that of the tables before the copy.

A range of pages is verified directory entry by directory entry. `verifyPdes_eq_zero_iff` carries the
argument: at each entry the pages still to be verified start at a page `q` of that entry, and the
number of entries left is the number of entries that these pages meet.
-/

namespace Kfs.Memory

open Kfs.Lib Kfs.Lib.Word32

/-! ## The code -/

/-- `access_ok`. -/
def accessOk (ptr size : ℕ) : Bool :=
  !(add32 ptr size < ptr || add32 ptr size > kernelVaddrBase)

/-- The little-endian word at a physical address. -/
def readWord (bytes : ℕ → ℕ) (addr : ℕ) : ℕ :=
  bytes addr + bytes (addr + 1) * 2 ^ 8 + bytes (addr + 2) * 2 ^ 16 + bytes (addr + 3) * 2 ^ 24

/-- `(entry & flags) == flags`. -/
def hasFlags (entry flags : ℕ) : Bool := entry &&& flags == flags

/-- The inner loop of `vmm_verify_range_flags`, over entries of one table from `j` on: the number of
pages that remain for the next table, or `none` where the code returns -1. -/
def verifyPtes (bytes : ℕ → ℕ) (ptVirt pteFlags : ℕ) : ℕ → ℕ → Option ℕ
  | 0, _ => some 0
  | remainingPage + 1, j =>
    if j < 1024 then
      if !hasFlags (readWord bytes (ptVirt + 4 * j)) pteFlags then none
      else verifyPtes bytes ptVirt pteFlags remainingPage (j + 1)
    else some (remainingPage + 1)

/-- The outer loop of `vmm_verify_range_flags`, with `k` turns left and `i` turns made. -/
def verifyPdes (bytes : ℕ → ℕ) (pdVirt vaddr pdeFlags pteFlags : ℕ) : ℕ → ℕ → ℕ → Kern ℤ
  | 0, _, _ => .ok 0
  | k + 1, i, remainingPage => do
    let pde := readWord bytes (pdVirt + 4 * (getPdeIndex vaddr + i))
    if !hasFlags pde pdeFlags then .ok (-1)
    else do
      let curVaddr := add32 vaddr (i * (1024 * pageSize))
      let ptVirt ← physLinear (getEntryAddr pde)
      let j := if i = 0 then getPteIndex curVaddr else 0
      match verifyPtes bytes ptVirt pteFlags remainingPage j with
      | none => .ok (-1)
      | some remainingPage => verifyPdes bytes pdVirt vaddr pdeFlags pteFlags k (i + 1) remainingPage

/-- `vmm_verify_range_flags`. -/
def vmmVerifyRangeFlags (bytes : ℕ → ℕ) (pdVirt vaddr n pdeFlags pteFlags : ℕ) : Kern ℤ :=
  if n = 0 then .ok 0
  else
    let pdeStart := getPdeIndex vaddr
    let pdeEnd := getPdeIndex (sub32 (add32 vaddr n) 1)
    let pdeRange := add32 (sub32 pdeEnd pdeStart) 1
    let pagesToVerify := divRoundUp32 (add32 (vaddr % pageSize) n) pageSize
    verifyPdes bytes pdVirt vaddr (pdeFlags ||| pdePresentBit) (pteFlags ||| ptePresentBit) pdeRange
      0 pagesToVerify

/-- The physical address that the memory management unit finds for a virtual one. -/
def translate (bytes : ℕ → ℕ) (pd v : ℕ) : Option ℕ :=
  let pde := readWord bytes (pd + 4 * getPdeIndex v)
  if flagIsSet pde pdePresentBit then
    let pte := readWord bytes (getEntryAddr pde + 4 * getPteIndex v)
    if flagIsSet pte ptePresentBit then some (getEntryAddr pte + v % pageSize) else none
  else none

/-- Writes a byte. -/
def writeByte (bytes : ℕ → ℕ) (addr byte : ℕ) : ℕ → ℕ := fun a => if a = addr then byte else bytes a

/-- `ft_memcpy` under a translation. -/
def ftMemcpy (tr : ℕ → Option ℕ) (dest src : ℕ) : ℕ → (ℕ → ℕ) → Kern (ℕ → ℕ)
  | 0, bytes => .ok bytes
  | n + 1, bytes =>
    match tr dest, tr src with
    | some d, some s => ftMemcpy tr (add32 dest 1) (add32 src 1) n (writeByte bytes d (bytes s))
    | _, _ => .error .fault

/-- The copy of `usercopy` after the checks. -/
def copyBytes (cr3 kernelBuf userBuf n : ℕ) (copyIntoKbuf : Bool) (bytes : ℕ → ℕ) : Kern (ℕ → ℕ) :=
  if copyIntoKbuf then ftMemcpy (translate bytes cr3) kernelBuf userBuf n bytes
  else ftMemcpy (translate bytes cr3) userBuf kernelBuf n bytes

/-- `usercopy`, with the page directory of the current task as an argument. -/
def usercopy (cr3 kernelBuf userBuf n : ℕ) (copyIntoKbuf : Bool) (bytes : ℕ → ℕ) :
    Kern (ℕ × (ℕ → ℕ)) :=
  if !accessOk userBuf n then .ok (n, bytes)
  else do
    let pdVirt ← physLinear cr3
    let flags := if copyIntoKbuf then pdeUsBit else pdeUsBit ||| pdeRwBit
    let ret ← vmmVerifyRangeFlags bytes pdVirt userBuf n flags flags
    if ret ≠ 0 then .ok ((ret % 2 ^ 32).toNat, bytes)
    else do
      let bytes ← copyBytes cr3 kernelBuf userBuf n copyIntoKbuf bytes
      .ok (0, bytes)

/-- `copy_from_user`. -/
def copyFromUser (cr3 dest src n : ℕ) (bytes : ℕ → ℕ) : Kern (ℕ × (ℕ → ℕ)) :=
  usercopy cr3 dest src n true bytes

/-- `copy_to_user`. -/
def copyToUser (cr3 dest src n : ℕ) (bytes : ℕ → ℕ) : Kern (ℕ × (ℕ → ℕ)) :=
  usercopy cr3 src dest n false bytes

/-! ## The range check -/

section Check

variable {bytes : ℕ → ℕ} {pd pdeFlags pteFlags : ℕ}

/-- The range neither wraps nor leaves user space. -/
theorem accessOk_iff {u n : ℕ} (hu : u < 2 ^ 32) (hn : n < 2 ^ 32) :
    accessOk u n = true ↔ (n = 0 ∧ u ≤ kernelVaddrBase) ∨ (0 < n ∧ u + n ≤ kernelVaddrBase) := by
  unfold accessOk
  simp only [Bool.not_eq_true', Bool.or_eq_false_iff, decide_eq_false_iff_not, not_lt, gt_iff_lt]
  rcases Nat.lt_or_ge (u + n) (2 ^ 32) with hlt | hge
  · rw [add32_eq hlt]
    omega
  · -- the sum wraps and comes out below `u`
    have hwrap : add32 u n = u + n - 2 ^ 32 := by
      unfold add32
      rw [Nat.mod_eq_sub_mod hge, Nat.mod_eq_of_lt (by omega)]
    have hbase : kernelVaddrBase < 2 ^ 32 := by decide
    rw [hwrap]
    omega

/-- The directory entry and the table entry of page `q` have the flags. -/
def PageHas (bytes : ℕ → ℕ) (pd pdeFlags pteFlags q : ℕ) : Prop :=
  hasFlags (readWord bytes (pd + 4 * (q / 1024))) pdeFlags = true ∧
  hasFlags (readWord bytes (getEntryAddr (readWord bytes (pd + 4 * (q / 1024))) +
    4 * (q % 1024))) pteFlags = true

/-- The tables of the user half that are present lie in linearly mapped memory. -/
def TablesLinear (bytes : ℕ → ℕ) (pd : ℕ) : Prop :=
  ∀ i < userPdes, flagIsSet (readWord bytes (pd + 4 * i)) pdePresentBit = true →
    getEntryAddr (readWord bytes (pd + 4 * i)) < highmemStart

/-- The inner loop looks at the pages up to the end of the table. -/
theorem verifyPtes_spec (pt : ℕ) (remainingPage : ℕ) : ∀ {j : ℕ}, j ≤ 1024 →
    verifyPtes bytes pt pteFlags remainingPage j =
      if ∀ t < min remainingPage (1024 - j),
          hasFlags (readWord bytes (pt + 4 * (j + t))) pteFlags = true
      then some (remainingPage - (1024 - j)) else none := by
  induction remainingPage with
  | zero =>
    intro j hj
    simp [verifyPtes]
  | succ remainingPage ih =>
    intro j hj
    unfold verifyPtes
    by_cases hlt : j < 1024
    · rw [if_pos hlt]
      by_cases hflag : hasFlags (readWord bytes (pt + 4 * j)) pteFlags = true
      · have hhead : (!hasFlags (readWord bytes (pt + 4 * j)) pteFlags) = false := by simp [hflag]
        rw [hhead, if_neg (by simp), ih hlt]
        have hrest : remainingPage + 1 - (1024 - j) = remainingPage - (1024 - (j + 1)) := by omega
        rw [hrest]
        refine if_congr ⟨fun hall t ht => ?_, fun hall t ht => ?_⟩ rfl rfl
        · cases t with
          | zero => exact hflag
          | succ t =>
            rw [show j + (t + 1) = j + 1 + t by omega]
            exact hall t (by omega)
        · have hnext := hall (t + 1) (by omega)
          rw [show j + (t + 1) = j + 1 + t by omega] at hnext
          exact hnext
      · have hhead : (!hasFlags (readWord bytes (pt + 4 * j)) pteFlags) = true := by simp [hflag]
        rw [hhead, if_pos rfl, if_neg]
        intro hall
        exact hflag (hall 0 (by omega))
    · rw [if_neg hlt, if_pos]
      · rw [show 1024 - j = 0 by omega, Nat.sub_zero]
      · intro t ht
        omega

/-- Pages of one table have one directory entry. -/
theorem pageHas_add {q t : ℕ} (ht : q % 1024 + t < 1024) :
    PageHas bytes pd pdeFlags pteFlags (q + t) ↔
      hasFlags (readWord bytes (pd + 4 * (q / 1024))) pdeFlags = true ∧
      hasFlags (readWord bytes (getEntryAddr (readWord bytes (pd + 4 * (q / 1024))) +
        4 * (q % 1024 + t))) pteFlags = true := by
  unfold PageHas
  rw [show (q + t) / 1024 = q / 1024 by omega, show (q + t) % 1024 = q % 1024 + t by omega]

/-- **The outer loop**: it returns 0 exactly if all the remaining pages have the flags. -/
theorem verifyPdes_eq_zero_iff {u : ℕ} (htables : TablesLinear bytes pd)
    (hpresent : ∀ entry, hasFlags entry pdeFlags = true → flagIsSet entry pdePresentBit = true)
    (k : ℕ) : ∀ {i q remainingPage : ℕ}, q / 1024 = getPdeIndex u + i →
    (if i = 0 then getPteIndex (add32 u (i * (1024 * pageSize))) else 0) = q % 1024 →
    0 < remainingPage → k = (q + remainingPage - 1) / 1024 - q / 1024 + 1 →
    q + remainingPage ≤ userPdes * 1024 →
    ∃ ret, verifyPdes bytes pd u pdeFlags pteFlags k i remainingPage = .ok ret ∧
      (ret = 0 ∨ ret = -1) ∧
      (ret = 0 ↔ ∀ t < remainingPage, PageHas bytes pd pdeFlags pteFlags (q + t)) := by
  -- On the directory entries that are left; `q` is the first page of this one.
  induction k with
  | zero =>
    intro i q remainingPage _ _ _ hk _
    omega
  | succ k ih =>
    intro i q remainingPage hq hj hpos hk hlast
    unfold verifyPdes
    rw [← hq]
    dsimp only
    rw [hj]
    by_cases hpde : hasFlags (readWord bytes (pd + 4 * (q / 1024))) pdeFlags = true
    · -- the entry is present, so its table can be read
      have hlinear := htables (q / 1024) (by omega) (hpresent _ hpde)
      have hhead : (!hasFlags (readWord bytes (pd + 4 * (q / 1024))) pdeFlags) = false := by
        simp [hpde]
      have hmod : q % 1024 < 1024 := Nat.mod_lt q (by norm_num)
      rw [hhead, if_neg (by simp), physLinear_eq hlinear, ok_bind, verifyPtes_spec _ _ hmod.le]
      -- The walk stops at the first table with a page that lacks the flags.
      by_cases hptes : ∀ t < min remainingPage (1024 - q % 1024), hasFlags (readWord bytes
          (getEntryAddr (readWord bytes (pd + 4 * (q / 1024))) + 4 * (q % 1024 + t))) pteFlags = true
      · rw [if_pos hptes]
        dsimp only
        have hfirst : ∀ t < min remainingPage (1024 - q % 1024),
            PageHas bytes pd pdeFlags pteFlags (q + t) :=
          fun t ht => (pageHas_add (by omega)).mpr ⟨hpde, hptes t ht⟩
        rcases Nat.lt_or_ge (1024 - q % 1024) remainingPage with hmore | hdone
        · -- the pages that remain start at the next entry
          obtain ⟨q', hq'⟩ : ∃ q', q' = q + (1024 - q % 1024) := ⟨_, rfl⟩
          have hdiv' : q' / 1024 = getPdeIndex u + (i + 1) := by omega
          have hmod' : q' % 1024 = 0 := by omega
          obtain ⟨ret, hrun, hret, hiff⟩ := ih (i := i + 1) (q := q') hdiv'
            (by rw [if_neg (Nat.succ_ne_zero i), hmod'])
            (show 0 < remainingPage - (1024 - q % 1024) by omega) (by omega) (by omega)
          refine ⟨ret, hrun, hret, hiff.trans ⟨fun hall t ht => ?_, fun hall t ht => ?_⟩⟩
          · rcases Nat.lt_or_ge t (1024 - q % 1024) with hside | hside
            · exact hfirst t (by omega)
            · have hlater := hall (t - (1024 - q % 1024)) (by omega)
              rwa [show q' + (t - (1024 - q % 1024)) = q + t by omega] at hlater
          · have hlater := hall (t + (1024 - q % 1024)) (by omega)
            rwa [show q + (t + (1024 - q % 1024)) = q' + t by omega] at hlater
        · -- this was the last entry
          obtain rfl : k = 0 := by omega
          refine ⟨0, rfl, .inl rfl, iff_of_true rfl fun t ht => hfirst t (by omega)⟩
      · rw [if_neg hptes]
        refine ⟨-1, rfl, .inr rfl, iff_of_false (by norm_num) fun hall => hptes fun t ht => ?_⟩
        exact ((pageHas_add (by omega)).mp (hall t (by omega))).2
    · have hhead : (!hasFlags (readWord bytes (pd + 4 * (q / 1024))) pdeFlags) = true := by
        simp [hpde]
      rw [hhead, if_pos rfl]
      refine ⟨-1, rfl, .inr rfl, iff_of_false (by norm_num) fun hall => hpde ?_⟩
      exact (hall 0 hpos).1

theorem hasFlags_or_present {flags : ℕ} (entry : ℕ)
    (h : hasFlags entry (flags ||| pdePresentBit) = true) :
    flagIsSet entry pdePresentBit = true := by
  have heq : entry &&& (flags ||| pdePresentBit) = flags ||| pdePresentBit := by
    simpa [hasFlags] using h
  have hbit : (entry &&& (flags ||| pdePresentBit)).testBit 0 = true := by
    rw [heq, Nat.testBit_or]
    simp [pdePresentBit]
  have hentry : entry.testBit 0 = true := by
    rw [Nat.testBit_and] at hbit
    exact (Bool.and_eq_true _ _ ▸ hbit).1
  unfold flagIsSet pdePresentBit
  rw [Nat.and_one_is_mod]
  have hodd := Nat.testBit_zero entry
  rw [hentry] at hodd
  have : entry % 2 = 1 := by simpa using hodd.symm
  simp [this]

/-- **`vmm_verify_range_flags`** on a range below the kernel. -/
theorem vmmVerifyRangeFlags_spec {u n : ℕ} (flags : ℕ) (htables : TablesLinear bytes pd) (hn : 0 < n)
    (hrange : u + n ≤ kernelVaddrBase) :
    ∃ ret, vmmVerifyRangeFlags bytes pd u n flags flags = .ok ret ∧ (ret = 0 ∨ ret = -1) ∧
      (ret = 0 ↔ ∀ v, u ≤ v → v < u + n →
        PageHas bytes pd (flags ||| pdePresentBit) (flags ||| ptePresentBit) (v / 4096)) := by
  have hbase : u + n ≤ 0xC0000000 := hrange
  have hend : getPdeIndex (sub32 (add32 u n) 1) = (u + n - 1) / 4096 / 1024 := by
    rw [add32_eq (by omega), sub32_eq (by omega) (by omega), getPdeIndex_eq]
  have hstart := getPdeIndex_eq u
  have hpages : divRoundUp32 (add32 (u % pageSize) n) pageSize =
      (u + n - 1) / 4096 - u / 4096 + 1 := by
    unfold pageSize
    rw [add32_eq (by omega), divRoundUp32_eq (by omega)]
    omega
  have hturns : add32 (sub32 (getPdeIndex (sub32 (add32 u n) 1)) (getPdeIndex u)) 1 =
      (u + n - 1) / 4096 / 1024 - u / 4096 / 1024 + 1 := by
    rw [hend, hstart, sub32_eq (by omega) (by omega), add32_eq (by omega)]
  have hmono : u / 4096 ≤ (u + n - 1) / 4096 := Nat.div_le_div_right (by omega)
  have hlast : u / 4096 + ((u + n - 1) / 4096 - u / 4096 + 1) - 1 = (u + n - 1) / 4096 := by omega
  unfold vmmVerifyRangeFlags
  rw [if_neg (by omega)]
  dsimp only
  rw [hturns, hpages]
  obtain ⟨ret, hrun, hret, hiff⟩ := verifyPdes_eq_zero_iff (u := u) (i := 0) (q := u / 4096)
    htables (fun entry => hasFlags_or_present entry)
    ((u + n - 1) / 4096 / 1024 - u / 4096 / 1024 + 1) (by rw [hstart, Nat.add_zero])
    (by rw [if_pos rfl, zero_mul, add32_eq (by omega), Nat.add_zero, getPteIndex_eq])
    (Nat.succ_pos _) (by rw [hlast]) (by unfold userPdes; omega)
  refine ⟨ret, hrun, hret, hiff.trans ⟨fun hall v hlow hhigh => ?_, fun hall t ht => ?_⟩⟩
  · have hpage := hall (v / 4096 - u / 4096) (by omega)
    rwa [show u / 4096 + (v / 4096 - u / 4096) = v / 4096 by omega] at hpage
  · -- a page of the range has a byte of the range
    have hpage := hall (max u ((u / 4096 + t) * 4096)) (by omega) (by omega)
    rwa [show max u ((u / 4096 + t) * 4096) / 4096 = u / 4096 + t by omega] at hpage

end Check

/-! ## The copy -/

/-- The bytes behind `[dest, dest + n)` have received those behind `[src, src + n)`. Where two pages
of the destination are one frame, the later byte stays. -/
structure Copied (tr : ℕ → Option ℕ) (dest src n : ℕ) (bytes bytes' : ℕ → ℕ) : Prop where
  frame : ∀ p, (∀ i < n, tr (dest + i) ≠ some p) → bytes' p = bytes p
  value : ∀ i < n, ∀ p q, tr (dest + i) = some p → tr (src + i) = some q →
    (∀ j, i < j → j < n → tr (dest + j) ≠ some p) → bytes' p = bytes q

section Copy

variable {tr : ℕ → Option ℕ}

/-- The pointers do not wrap before the last byte. -/
theorem ftMemcpy_next {dest src n : ℕ} (hdest : dest + (n + 1) ≤ 2 ^ 32)
    (hsrc : src + (n + 1) ≤ 2 ^ 32) (bytes : ℕ → ℕ) :
    ftMemcpy tr (add32 dest 1) (add32 src 1) n bytes = ftMemcpy tr (dest + 1) (src + 1) n bytes := by
  cases n with
  | zero => rfl
  | succ n => rw [add32_eq (by omega), add32_eq (by omega)]

/-- **`ft_memcpy`** between ranges that are mapped and have no byte in common. -/
theorem ftMemcpy_spec (n : ℕ) : ∀ (dest src : ℕ) (bytes : ℕ → ℕ), dest + n ≤ 2 ^ 32 →
    src + n ≤ 2 ^ 32 → (∀ i < n, tr (dest + i) ≠ none) → (∀ i < n, tr (src + i) ≠ none) →
    (∀ i < n, ∀ j < n, tr (dest + i) ≠ tr (src + j)) →
    ∃ bytes', ftMemcpy tr dest src n bytes = .ok bytes' ∧ Copied tr dest src n bytes bytes' := by
  induction n with
  | zero =>
    intro dest src bytes _ _ _ _ _
    exact ⟨bytes, rfl, fun _ _ => rfl, fun i hi => absurd hi (by simp)⟩
  | succ n ih =>
    intro dest src bytes hdest hsrc hd hs hne
    obtain ⟨d, hd₀⟩ := Option.ne_none_iff_exists'.mp (hd 0 (Nat.succ_pos n))
    obtain ⟨s, hs₀⟩ := Option.ne_none_iff_exists'.mp (hs 0 (Nat.succ_pos n))
    rw [Nat.add_zero] at hd₀ hs₀
    have hshift : ∀ a i, a + 1 + i = a + (i + 1) := by
      intro a i
      omega
    unfold ftMemcpy
    rw [hd₀, hs₀]
    dsimp only
    rw [ftMemcpy_next hdest hsrc]
    obtain ⟨bytes', hrun, hcopied⟩ := ih (dest + 1) (src + 1) (writeByte bytes d (bytes s))
      (by omega) (by omega)
      (fun i hi => by rw [hshift]; exact hd (i + 1) (by omega))
      (fun i hi => by rw [hshift]; exact hs (i + 1) (by omega))
      (fun i hi j hj => by rw [hshift, hshift]; exact hne (i + 1) (by omega) (j + 1) (by omega))
    refine ⟨bytes', hrun, fun p hp => ?_, fun i hi p q hp hq hlast => ?_⟩
    · have hpd : p ≠ d := by
        rintro rfl
        exact hp 0 (Nat.succ_pos n) hd₀
      rw [hcopied.frame p fun i hi => by rw [hshift]; exact hp (i + 1) (by omega)]
      exact if_neg hpd
    · cases i with
      | zero =>
        obtain rfl : d = p := Option.some.inj (hd₀.symm.trans hp)
        obtain rfl : s = q := Option.some.inj (hs₀.symm.trans hq)
        rw [hcopied.frame d fun i hi => by
          rw [hshift]
          exact hlast (i + 1) (Nat.succ_pos i) (by omega)]
        exact if_pos rfl
      | succ i =>
        -- the source byte has not been overwritten by the bytes before
        have hqd : q ≠ d := by
          rintro rfl
          exact hne 0 (Nat.succ_pos n) (i + 1) hi (by rw [Nat.add_zero, hd₀, hq])
        rw [hcopied.value i (by omega) p q (by rw [hshift]; exact hp) (by rw [hshift]; exact hq)
          fun j hj hjn => by rw [hshift]; exact hlast (j + 1) (by omega) (by omega)]
        exact if_neg hqd

end Copy

/-! ## The entry points -/

/-- The whole range lies below the kernel, and every page it touches has the flags in both entries. -/
def Accessible (bytes : ℕ → ℕ) (cr3 flags u n : ℕ) : Prop :=
  u + n ≤ kernelVaddrBase ∧ ∀ v, u ≤ v → v < u + n → PageHas bytes cr3 flags flags (v / 4096)

section Entry

variable {bytes : ℕ → ℕ} {cr3 : ℕ}

/-- A page with the present bit in both entries is translated. -/
theorem translate_of_pageHas {flags v : ℕ}
    (h : PageHas bytes cr3 (flags ||| pdePresentBit) (flags ||| ptePresentBit) (v / 4096)) :
    translate bytes cr3 v ≠ none := by
  obtain ⟨hpde, hpte⟩ := h
  have hpde' := hasFlags_or_present _ hpde
  have hpte' : flagIsSet _ ptePresentBit = true := hasFlags_or_present _ hpte
  unfold translate
  dsimp only
  rw [getPdeIndex_eq, getPteIndex_eq, if_pos hpde', if_pos hpte']
  exact Option.some_ne_none _

/-- The bits that `usercopy` asks for. -/
def usercopyFlags (copyIntoKbuf : Bool) : ℕ :=
  (if copyIntoKbuf then pdeUsBit else pdeUsBit ||| pdeRwBit) ||| pdePresentBit

/-- The copy between a user range that is accessible and a kernel buffer outside of it. -/
theorem copyBytes_spec {k u n : ℕ} (copyIntoKbuf : Bool) (hu : u + n ≤ 2 ^ 32) (hk : k + n ≤ 2 ^ 32)
    (huser : ∀ i < n, translate bytes cr3 (u + i) ≠ none)
    (hkernel : ∀ i < n, translate bytes cr3 (k + i) ≠ none)
    (hapart : ∀ i < n, ∀ j < n, translate bytes cr3 (k + i) ≠ translate bytes cr3 (u + j)) :
    ∃ bytes', copyBytes cr3 k u n copyIntoKbuf bytes = .ok bytes' ∧
      if copyIntoKbuf then Copied (translate bytes cr3) k u n bytes bytes'
      else Copied (translate bytes cr3) u k n bytes bytes' := by
  cases copyIntoKbuf with
  | true => exact ftMemcpy_spec n k u bytes hk hu hkernel huser hapart
  | false =>
    exact ftMemcpy_spec n u k bytes hu hk huser hkernel fun i hi j hj => (hapart j hj i hi).symm

/-- **`usercopy`**, in both directions. -/
theorem usercopy_spec {k u n : ℕ} (copyIntoKbuf : Bool) (hu : u < 2 ^ 32) (hn : n < 2 ^ 32)
    (hcr3 : cr3 < highmemStart) (htables : TablesLinear bytes cr3) (hk : k + n ≤ 2 ^ 32)
    (hmapped : ∀ i < n, translate bytes cr3 (k + i) ≠ none)
    (hapart : ∀ i < n, ∀ j < n, translate bytes cr3 (k + i) ≠ translate bytes cr3 (u + j)) :
    ∃ ret bytes', usercopy cr3 k u n copyIntoKbuf bytes = .ok (ret, bytes') ∧
      (ret = 0 ↔ n = 0 ∨ Accessible bytes cr3 (usercopyFlags copyIntoKbuf) u n) ∧
      (ret = 0 → if copyIntoKbuf then Copied (translate bytes cr3) k u n bytes bytes'
        else Copied (translate bytes cr3) u k n bytes bytes') ∧
      (ret ≠ 0 → bytes' = bytes) := by
  have hempty : ∀ dest src, Copied (translate bytes cr3) dest src 0 bytes bytes :=
    fun dest src => ⟨fun _ _ => rfl, fun i hi => absurd hi (by simp)⟩
  unfold usercopy
  -- The range check, the walk over the directory, the copy.
  by_cases hok : accessOk u n = true
  · have hhead : (!accessOk u n) = false := by simp [hok]
    rw [hhead, if_neg (by simp), physLinear_eq hcr3, ok_bind]
    dsimp only
    rcases (accessOk_iff hu hn).mp hok with ⟨rfl, -⟩ | ⟨hpos, hrange⟩
    · -- nothing to verify and nothing to copy
      refine ⟨0, bytes, ?_, iff_of_true rfl (.inl rfl), fun _ => ?_, fun hne => absurd rfl hne⟩
      · unfold vmmVerifyRangeFlags copyBytes
        rw [if_pos rfl, ok_bind, if_neg (by simp)]
        cases copyIntoKbuf <;> rfl
      · cases copyIntoKbuf with
        | true => exact hempty k u
        | false => exact hempty u k
    · -- The walk finds every page with the flags that the direction needs.
      obtain ⟨ret, hverify, hret, hiff⟩ := vmmVerifyRangeFlags_spec
        (if copyIntoKbuf then pdeUsBit else pdeUsBit ||| pdeRwBit) htables hpos hrange
      have haccess : ret = 0 ↔ n = 0 ∨ Accessible bytes cr3 (usercopyFlags copyIntoKbuf) u n := by
        rw [hiff]
        constructor
        · exact fun hall => .inr ⟨hrange, hall⟩
        · rintro (hzero | hall)
          · omega
          · exact hall.2
      rw [hverify, ok_bind]
      -- With every page there the copy cannot fault.
      rcases hret with rfl | rfl
      · have huser : ∀ i < n, translate bytes cr3 (u + i) ≠ none := fun i hi =>
          translate_of_pageHas (hiff.mp rfl (u + i) (Nat.le_add_right u i) (by omega))
        have hbase : kernelVaddrBase < 2 ^ 32 := by decide
        obtain ⟨bytes', hcopy, hcopied⟩ :=
          copyBytes_spec copyIntoKbuf (by omega) hk huser hmapped hapart
        rw [if_neg (by simp), hcopy, ok_bind]
        exact ⟨0, bytes', rfl, iff_of_true rfl (haccess.mp rfl), fun _ => hcopied,
          fun hne => absurd rfl hne⟩
      · rw [if_pos (by norm_num)]
        refine ⟨2 ^ 32 - 1, bytes, rfl, ?_, fun hzero => absurd hzero (by norm_num), fun _ => rfl⟩
        exact iff_of_false (by norm_num) fun hc => absurd (haccess.mpr hc) (by norm_num)
  · have hhead : (!accessOk u n) = true := by simp [hok]
    -- Outside of user memory the call returns the size.
    rw [hhead, if_pos rfl]
    refine ⟨n, bytes, rfl, ⟨.inl, ?_⟩, fun hzero => ?_, fun _ => rfl⟩
    · rintro (hzero | hall)
      · exact hzero
      · -- an accessible range passes the check
        by_contra hne
        exact hok ((accessOk_iff hu hn).mpr (.inr ⟨Nat.pos_of_ne_zero hne, hall.1⟩))
    · subst hzero
      cases copyIntoKbuf with
      | true => exact hempty k u
      | false => exact hempty u k

end Entry

/-- **User copies are safe and exact.** For every user pointer `u`, length `n` and kernel buffer `k`
whose pages are mapped and share no byte with the user range, over any page tables in linearly
mapped memory: both calls return; they return 0 exactly if `n = 0` or the whole range lies below the
kernel and every page of it has the present and user bits, and for `copy_to_user` the writable bit,
in both of its entries. Then the destination bytes, and no others, have received the source bytes;
otherwise no byte has changed. -/
theorem usercopy_exact {bytes : ℕ → ℕ} {cr3 k u n : ℕ} (hu : u < 2 ^ 32) (hn : n < 2 ^ 32)
    (hcr3 : cr3 < highmemStart) (htables : TablesLinear bytes cr3)
    (hk : kernelVaddrBase ≤ k ∧ k + n ≤ 2 ^ 32)
    (hmapped : ∀ i < n, translate bytes cr3 (k + i) ≠ none)
    (hapart : ∀ i < n, ∀ j < n, translate bytes cr3 (k + i) ≠ translate bytes cr3 (u + j)) :
    (∃ ret bytes', copyToUser cr3 u k n bytes = .ok (ret, bytes') ∧
      (ret = 0 ↔ n = 0 ∨ Accessible bytes cr3 (pdeUsBit ||| pdeRwBit ||| pdePresentBit) u n) ∧
      (ret = 0 → Copied (translate bytes cr3) u k n bytes bytes') ∧
      (ret ≠ 0 → bytes' = bytes)) ∧
    (∃ ret bytes', copyFromUser cr3 k u n bytes = .ok (ret, bytes') ∧
      (ret = 0 ↔ n = 0 ∨ Accessible bytes cr3 (pdeUsBit ||| pdePresentBit) u n) ∧
      (ret = 0 → Copied (translate bytes cr3) k u n bytes bytes') ∧
      (ret ≠ 0 → bytes' = bytes)) :=
  ⟨usercopy_spec false hu hn hcr3 htables hk.2 hmapped hapart,
    usercopy_spec true hu hn hcr3 htables hk.2 hmapped hapart⟩

/-- Physical memory with a directory at `0x1000`: the user page `0x5000` is the frame `0x3000`, the
kernel page `0xC0006000` is the frame `0x6000`. -/
def twoPageMemory : ℕ → ℕ := fun a =>
  if a = 0x1000 then 0x07 else if a = 0x1001 then 0x20 -- the table of the user half at 0x2000
  else if a = 0x1C00 then 0x03 else if a = 0x1C01 then 0x40 -- that of the kernel half at 0x4000
  else if a = 0x2014 then 0x07 else if a = 0x2015 then 0x30
  else if a = 0x4018 then 0x03 else if a = 0x4019 then 0x60
  else if a = 0x6000 then 0xAB else 0

/-- Two bytes into the user page. -/
theorem usercopy_exact_twoPageMemory : ∃ bytes',
    copyToUser 0x1000 0x5000 0xC0006000 2 twoPageMemory = .ok (0, bytes') ∧
      bytes' 0x3000 = 0xAB := by
  have hall : ∃ ret bytes', copyToUser 0x1000 0x5000 0xC0006000 2 twoPageMemory = .ok (ret, bytes') ∧
      _ ∧ (ret = 0 → Copied (translate twoPageMemory 0x1000) 0x5000 0xC0006000 2 twoPageMemory
        bytes') ∧ _ :=
    (usercopy_exact (by decide) (by decide) (by decide) (by unfold TablesLinear; decide +kernel)
      (by decide) (by decide) (by decide)).1
  obtain ⟨ret, bytes', hrun, -, hcopied, -⟩ := hall
  have hret : (copyToUser 0x1000 0x5000 0xC0006000 2 twoPageMemory).toOption.map Prod.fst =
      some 0 := by
    decide +kernel
  obtain rfl : ret = 0 := by
    rw [hrun] at hret
    exact Option.some.inj hret
  refine ⟨bytes', hrun, (hcopied rfl).value 0 (by norm_num) 0x3000 0x6000 (by decide)
    (by decide) ?_⟩
  intro j hj hj'
  obtain rfl : j = 1 := by omega
  decide

end Kfs.Memory
