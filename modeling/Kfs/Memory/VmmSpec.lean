import Kfs.Memory.Vmm

/-!
# What the page-table operations do

A slot is a directory and an index into it. `PageTables` ties the words of a set of slots to the
page allocator: present slots own distinct tables, and the live blocks are the tables and a set that
the mapping code never touches. `lookup` is the translation that a slot and an index in its table
encode; each operation changes it at one place.
-/

namespace Kfs.Memory

open Kfs.Lib Kfs.Lib.Word32 Kfs.Lib.Dyadic

/-! ## Words of an entry -/

@[simp] theorem flagIsSet_zero (flag : ℕ) : flagIsSet 0 flag = false := by simp [flagIsSet]

theorem flagIsSet_or (a b flag : ℕ) :
    flagIsSet (a ||| b) flag = (flagIsSet a flag || flagIsSet b flag) := by
  unfold flagIsSet
  rw [Nat.and_or_distrib_right, Bool.eq_iff_iff]
  simp only [bne_iff_ne, ne_eq, Bool.or_eq_true, Nat.or_eq_zero_iff]
  tauto

/-- An aligned address has no flag below the page size. -/
theorem flagIsSet_of_dvd {p flag : ℕ} (hp : 4096 ∣ p) (hflag : flag < 4096) :
    flagIsSet p flag = false := by
  obtain ⟨q, rfl⟩ := hp
  have hzero : 2 ^ 12 * q &&& flag = 0 := by
    apply Nat.eq_of_testBit_eq
    intro i
    rw [Nat.testBit_and, Nat.testBit_two_pow_mul, Nat.zero_testBit]
    by_cases hi : 12 ≤ i
    · have : flag.testBit i = false :=
        Nat.testBit_lt_two_pow
          (hflag.trans_le (Nat.pow_le_pow_right (by norm_num : 0 < 2) hi : 2 ^ 12 ≤ 2 ^ i))
      rw [this, Bool.and_false]
    · simp [hi]
  have hzero' : 4096 * q &&& flag = 0 := hzero
  simp [flagIsSet, hzero']

theorem getEntryAddr_dvd (e : ℕ) : 4096 ∣ getEntryAddr e := by
  have hmask : getEntryAddr e = (e % 2 ^ 32) &&& highMask 12 := by
    unfold getEntryAddr
    apply Nat.eq_of_testBit_eq
    intro i
    rw [Nat.testBit_and, Nat.testBit_and, Nat.testBit_mod_two_pow]
    by_cases hi : i < 32
    · simp [hi]
    · have : (highMask 12).testBit i = false := by
        apply Nat.testBit_lt_two_pow
        exact lt_of_lt_of_le (by decide : highMask 12 < 2 ^ 32)
          (Nat.pow_le_pow_right (by norm_num) (not_lt.mp hi))
      simp [this]
  rw [hmask, and_highMask (Nat.mod_lt _ (by norm_num)) (by norm_num)]
  exact Dvd.intro_left _ rfl

/-- Flags below the page size do not change the address of an entry. -/
theorem getEntryAddr_or {e f : ℕ} (hf : f < 4096) : getEntryAddr (e ||| f) = getEntryAddr e := by
  have hzero : f &&& highMask 12 = 0 := by
    rw [and_highMask (hf.trans (by norm_num)) (by norm_num),
      Nat.div_eq_of_lt (show f < 2 ^ 12 from hf), zero_mul]
  unfold getEntryAddr
  rw [Nat.and_or_distrib_right, hzero, Nat.or_zero]

theorem getEntryAddr_of_dvd {p : ℕ} (hp : 4096 ∣ p) (hlt : p < 2 ^ 32) : getEntryAddr p = p := by
  unfold getEntryAddr
  rw [and_highMask hlt (by norm_num)]
  exact Nat.div_mul_cancel hp

theorem getEntryAddr_lt (e : ℕ) : getEntryAddr e < 2 ^ 32 :=
  lt_of_le_of_lt Nat.and_le_right (by decide : highMask 12 < 2 ^ 32)

/-- Word addresses in aligned pages coincide only for the same page and index. -/
theorem wordAddr_inj {a b i j : ℕ} (ha : 4096 ∣ a) (hb : 4096 ∣ b) (hi : i < 1024) (hj : j < 1024)
    (h : a + 4 * i = b + 4 * j) : a = b ∧ i = j := by
  obtain ⟨x, rfl⟩ := ha
  obtain ⟨y, rfl⟩ := hb
  omega

/-- A word address is inside an aligned page only if that is its page. -/
theorem wordAddr_mem_page {a b i : ℕ} (ha : 4096 ∣ a) (hb : 4096 ∣ b) (hi : i < 1024) :
    (b ≤ a + 4 * i ∧ a + 4 * i < b + pageSize) ↔ a = b := by
  obtain ⟨x, rfl⟩ := ha
  obtain ⟨y, rfl⟩ := hb
  unfold pageSize
  omega

theorem physLinear_eq {p : ℕ} (h : p < highmemStart) : physLinear p = .ok p := by
  unfold highmemStart at h
  unfold physLinear kernelVaddrBase highmemStart
  rw [if_neg (by omega), if_pos h]

theorem getPteIndex_lt (v : ℕ) : getPteIndex v < 1024 := by
  unfold getPteIndex
  exact Nat.and_lt_two_pow _ (by norm_num : (0x3FF : ℕ) < 2 ^ 10)

theorem getPdeIndex_eq (v : ℕ) : getPdeIndex v = v / 4096 / 1024 := by
  unfold getPdeIndex
  rw [Nat.shiftRight_eq_div_pow, Nat.div_div_eq_div_mul]

theorem getPteIndex_eq (v : ℕ) : getPteIndex v = v / 4096 % 1024 := by
  unfold getPteIndex
  rw [Nat.shiftRight_eq_div_pow, show (0x3FF : ℕ) = 2 ^ 10 - 1 by norm_num,
    Nat.and_two_pow_sub_one_eq_mod]

/-! ## Slots -/

section Slots

variable {σ : Type}

/-- The address of a slot, given as directory and index. -/
def slotAddr (w : ℕ × ℕ) : ℕ := w.1 + 4 * w.2

/-- The slot holds a present entry. -/
def slotPresent (s : Phys σ) (w : ℕ × ℕ) : Bool := flagIsSet (s.mem (slotAddr w)) pdePresentBit

/-- The table that a slot names. -/
def tableOf (s : Phys σ) (w : ℕ × ℕ) : ℕ := getEntryAddr (s.mem (slotAddr w))

theorem tableOf_dvd (s : Phys σ) (w : ℕ × ℕ) : 4096 ∣ tableOf s w := getEntryAddr_dvd _

/-- The frame that entry `j` of the table of a slot maps. -/
def lookup (s : Phys σ) (w : ℕ × ℕ) (j : ℕ) : Option ℕ :=
  if slotPresent s w && flagIsSet (s.mem (tableOf s w + 4 * j)) ptePresentBit then
    some (getEntryAddr (s.mem (tableOf s w + 4 * j)))
  else none

/-- Entry `j` of the table of a slot, if it is present. -/
def pte (s : Phys σ) (w : ℕ × ℕ) (j : ℕ) : Option ℕ :=
  if slotPresent s w && flagIsSet (s.mem (tableOf s w + 4 * j)) ptePresentBit then
    some (s.mem (tableOf s w + 4 * j))
  else none

/-- The frame is the address in the entry. -/
theorem lookup_eq_map (s : Phys σ) (w : ℕ × ℕ) (j : ℕ) :
    lookup s w j = (pte s w j).map getEntryAddr := by
  unfold lookup pte
  split
  · rfl
  · rfl

theorem lookup_eq_none_iff {s : Phys σ} {w : ℕ × ℕ} {j : ℕ} : lookup s w j = none ↔ pte s w j = none := by
  rw [lookup_eq_map, Option.map_eq_none_iff]

/-- The tables of the slots of `W`, as blocks of the page allocator. -/
def tables (W : Set (ℕ × ℕ)) (s : Phys σ) : Set (ℕ × ℕ) :=
  { b | ∃ w ∈ W, slotPresent s w = true ∧ b = (tableOf s w / 4096, 0) }

/-- The slots of `W` encode translations: `L` are the live blocks that are no tables. -/
structure PageTables (V : PageAlloc.View σ) (W L : Set (ℕ × ℕ)) (s : Phys σ) : Prop where
  inv : V.Inv s.alloc
  dir : ∀ w ∈ W, 4096 ∣ w.1 ∧ w.1 < highmemStart ∧ w.2 < 1024 ∧ w.1 / 4096 ∉ V.free s.alloc
  table : ∀ w ∈ W, slotPresent s w = true → tableOf s w < highmemStart ∧
    (tableOf s w / 4096, 0) ∉ L ∧ ∀ w' ∈ W, tableOf s w ≠ w'.1
  inj : ∀ w ∈ W, ∀ w' ∈ W, slotPresent s w = true → slotPresent s w' = true →
    tableOf s w = tableOf s w' → w = w'
  live : V.live s.alloc = L ∪ tables W s

variable {V : PageAlloc.View σ} {W L : Set (ℕ × ℕ)} {s s' : Phys σ} {w : ℕ × ℕ}

/-- Distinct slots have distinct addresses. -/
theorem PageTables.slotAddr_inj (h : PageTables V W L s) (hw : w ∈ W) {w' : ℕ × ℕ} (hw' : w' ∈ W)
    (heq : slotAddr w = slotAddr w') : w = w' := by
  obtain ⟨hal, -, hlt, -⟩ := h.dir w hw
  obtain ⟨hal', -, hlt', -⟩ := h.dir w' hw'
  obtain ⟨h1, h2⟩ := wordAddr_inj hal hal' hlt hlt' heq
  exact Prod.ext h1 h2

/-- The entries of a table are not slots. -/
theorem PageTables.slotAddr_ne (h : PageTables V W L s) (hw : w ∈ W)
    (hpres : slotPresent s w = true) {w' : ℕ × ℕ} (hw' : w' ∈ W) {j : ℕ} (hj : j < 1024) :
    slotAddr w' ≠ tableOf s w + 4 * j := by
  intro heq
  obtain ⟨hal', -, hlt', -⟩ := h.dir w' hw'
  obtain ⟨h1, -⟩ := wordAddr_inj hal' (tableOf_dvd s w) hlt' hj heq
  exact (h.table w hw hpres).2.2 w' hw' h1.symm

/-- Entries of the tables of two slots coincide only for the same slot and index. -/
theorem PageTables.entryAddr_inj (h : PageTables V W L s) (hw : w ∈ W)
    (hpres : slotPresent s w = true) {w' : ℕ × ℕ} (hw' : w' ∈ W)
    (hpres' : slotPresent s w' = true) {j j' : ℕ} (hj : j < 1024) (hj' : j' < 1024)
    (heq : tableOf s w + 4 * j = tableOf s w' + 4 * j') : w = w' ∧ j = j' := by
  obtain ⟨h1, h2⟩ := wordAddr_inj (tableOf_dvd s w) (tableOf_dvd s w') hj hj' heq
  exact ⟨h.inj w hw w' hw' hpres hpres' h1, h2⟩

/-- A table page is live, so it is not free. -/
theorem PageTables.table_notFree {A : PageAlloc σ} (hA : A.Lawful V) (h : PageTables V W L s)
    (hw : w ∈ W) (hpres : slotPresent s w = true) : tableOf s w / 4096 ∉ V.free s.alloc := by
  have hlive : (tableOf s w / 4096, 0) ∈ V.live s.alloc := by
    rw [h.live]
    exact Or.inr ⟨w, hw, hpres, rfl⟩
  exact Set.disjoint_left.mp (hA.notFree h.inv hlive) (self_mem_block _ _)

/-- A slot whose table maps something is present. -/
theorem slotPresent_of_lookup {j : ℕ} (h : lookup s w j ≠ none) : slotPresent s w = true := by
  by_contra hpres
  simp [lookup, hpres] at h

/-- A slot whose table has a present entry is present. -/
theorem slotPresent_of_pte {j : ℕ} (h : pte s w j ≠ none) : slotPresent s w = true := by
  by_contra hpres
  simp [pte, hpres] at h

/-- A slot that is not present maps nothing. -/
theorem pte_of_absent (h : slotPresent s w = false) (j : ℕ) : pte s w j = none := by
  simp [pte, h]

/-- The frames follow the entries. -/
theorem lookup_of_pte {c : Prop} [Decidable c] {j : ℕ} {e : Option ℕ}
    (h : pte s' w j = if c then e else pte s w j) :
    lookup s' w j = if c then e.map getEntryAddr else lookup s w j := by
  rw [lookup_eq_map, h, lookup_eq_map]
  split
  · rfl
  · rfl

/-! ## Changes that keep the slots -/

/-- The invariant reads the slots only. -/
theorem PageTables.of_slots (h : PageTables V W L s) (halloc : s'.alloc = s.alloc)
    (hslot : ∀ w ∈ W, slotPresent s' w = slotPresent s w ∧ tableOf s' w = tableOf s w) :
    PageTables V W L s' where
  inv := by rw [halloc]; exact h.inv
  dir := by rw [halloc]; exact h.dir
  table w hw hpres := by
    rw [(hslot w hw).1] at hpres
    rw [(hslot w hw).2]
    exact h.table w hw hpres
  inj w hw w' hw' hpres hpres' heq := by
    rw [(hslot w hw).1] at hpres
    rw [(hslot w' hw').1] at hpres'
    rw [(hslot w hw).2, (hslot w' hw').2] at heq
    exact h.inj w hw w' hw' hpres hpres' heq
  live := by
    have htables : tables W s' = tables W s := by
      ext b
      constructor
      · rintro ⟨w, hw, hpres, rfl⟩
        rw [(hslot w hw).1] at hpres
        exact ⟨w, hw, hpres, by rw [(hslot w hw).2]⟩
      · rintro ⟨w, hw, hpres, rfl⟩
        rw [← (hslot w hw).1] at hpres
        exact ⟨w, hw, hpres, by rw [(hslot w hw).2]⟩
    rw [halloc, htables]
    exact h.live

/-- Setting the user bit of a present slot changes no translation. -/
theorem PageTables.setUs (h : PageTables V W L s) (hw : w ∈ W) :
    PageTables V W L (s.write (slotAddr w) (s.mem (slotAddr w) ||| pdeUsBit)) ∧
    (∀ w' ∈ W, slotPresent (s.write (slotAddr w) (s.mem (slotAddr w) ||| pdeUsBit)) w' =
        slotPresent s w' ∧
      tableOf (s.write (slotAddr w) (s.mem (slotAddr w) ||| pdeUsBit)) w' = tableOf s w') ∧
    ∀ w' ∈ W, ∀ j < 1024,
      pte (s.write (slotAddr w) (s.mem (slotAddr w) ||| pdeUsBit)) w' j = pte s w' j := by
  generalize hs' : s.write (slotAddr w) (s.mem (slotAddr w) ||| pdeUsBit) = s'
  have hslot : ∀ w' ∈ W, slotPresent s' w' = slotPresent s w' ∧ tableOf s' w' = tableOf s w' := by
    intro w' hw'
    unfold slotPresent tableOf
    rw [← hs', Phys.write_mem]
    by_cases heq : slotAddr w' = slotAddr w
    · rw [if_pos heq, heq]
      refine ⟨?_, getEntryAddr_or (by decide)⟩
      rw [flagIsSet_or, show flagIsSet pdeUsBit pdePresentBit = false by decide, Bool.or_false]
    · rw [if_neg heq]
      exact ⟨rfl, rfl⟩
  have hentry : ∀ w' ∈ W, slotPresent s w' = true → ∀ j < 1024,
      s'.mem (tableOf s w' + 4 * j) = s.mem (tableOf s w' + 4 * j) := by
    intro w' hw' hpres' j hj
    rw [← hs', Phys.write_mem, if_neg (h.slotAddr_ne hw' hpres' hw hj).symm]
  refine ⟨h.of_slots (by rw [← hs']; rfl) hslot, hslot, fun w' hw' j hj => ?_⟩
  unfold pte
  rw [(hslot w' hw').1, (hslot w' hw').2]
  by_cases hpres' : slotPresent s w' = true
  · rw [hentry w' hw' hpres' j hj]
  · simp [hpres']

/-- Writing an entry of a table changes one translation. -/
theorem PageTables.setEntry (h : PageTables V W L s) (hw : w ∈ W) (hpres : slotPresent s w = true)
    {j e : ℕ} (hj : j < 1024) :
    PageTables V W L (s.write (tableOf s w + 4 * j) e) ∧
    (∀ w' ∈ W, slotPresent (s.write (tableOf s w + 4 * j) e) w' = slotPresent s w' ∧
      tableOf (s.write (tableOf s w + 4 * j) e) w' = tableOf s w') ∧
    ∀ w' ∈ W, ∀ j' < 1024, pte (s.write (tableOf s w + 4 * j) e) w' j' =
      if w' = w ∧ j' = j then (if flagIsSet e ptePresentBit then some e else none)
      else pte s w' j' := by
  generalize hs' : s.write (tableOf s w + 4 * j) e = s'
  have hmem : ∀ a, s'.mem a = if a = tableOf s w + 4 * j then e else s.mem a := by
    intro a
    rw [← hs']
    rfl
  have hslot : ∀ w' ∈ W, slotPresent s' w' = slotPresent s w' ∧ tableOf s' w' = tableOf s w' := by
    intro w' hw'
    unfold slotPresent
    rw [tableOf, hmem, if_neg (h.slotAddr_ne hw hpres hw' hj)]
    exact ⟨rfl, rfl⟩
  have hentry : ∀ w' ∈ W, slotPresent s w' = true → ∀ j' < 1024,
      s'.mem (tableOf s w' + 4 * j') =
        if w' = w ∧ j' = j then e else s.mem (tableOf s w' + 4 * j') := by
    intro w' hw' hpres' j' hj'
    rw [hmem]
    refine if_congr ⟨fun heq => ?_, ?_⟩ rfl rfl
    · exact h.entryAddr_inj hw' hpres' hw hpres hj' hj heq
    · rintro ⟨rfl, rfl⟩
      rfl
  refine ⟨h.of_slots (by rw [← hs']; rfl) hslot, hslot, fun w' hw' j' hj' => ?_⟩
  unfold pte
  rw [(hslot w' hw').1, (hslot w' hw').2]
  by_cases hpres' : slotPresent s w' = true
  · rw [hentry w' hw' hpres' j' hj']
    by_cases heq : w' = w ∧ j' = j
    · simp [heq, hpres]
    · simp only [if_neg heq]
  · have hne : ¬ (w' = w ∧ j' = j) := fun hc => hpres' (hc.1 ▸ hpres)
    simp [hpres', hne]

/-! ## A new table -/

/-- A page of `LOWMEM` is linearly mapped. -/
theorem lowmem_lt {p : ℕ} (hz : zoneOfPage p = .lowmem) : p * 4096 < highmemStart := by
  unfold zoneOfPage at hz
  unfold highmemStart
  split at hz
  · cases hz
  · omega

/-- A page of `HIGHMEM` is not linearly mapped. -/
theorem highmem_le {p : ℕ} (hz : zoneOfPage p = .highmem) : highmemStart ≤ p * 4096 := by
  unfold zoneOfPage at hz
  unfold highmemStart
  split at hz
  · omega
  · split at hz
    · cases hz
    · cases hz

/-- The frames of the table are 32-bit addresses. -/
theorem frame_lt {p : ℕ} (h : p < maxPages) : p * 4096 < 2 ^ 32 := by
  unfold maxPages at h
  omega

/-- A free page is neither a directory nor a table. -/
theorem PageTables.free_ne {A : PageAlloc σ} (hA : A.Lawful V) (h : PageTables V W L s) {p : ℕ}
    (hp : p ∈ V.free s.alloc) :
    (∀ w ∈ W, w.1 ≠ p * 4096) ∧
    (∀ w ∈ W, slotPresent s w = true → tableOf s w ≠ p * 4096) ∧ (p, 0) ∉ V.live s.alloc := by
  refine ⟨fun w hw heq => ?_, fun w hw hpres heq => ?_, fun hlive => ?_⟩
  · apply (h.dir w hw).2.2.2
    rw [heq, Nat.mul_div_cancel p (by norm_num)]
    exact hp
  · apply h.table_notFree hA hw hpres
    rw [heq, Nat.mul_div_cancel p (by norm_num)]
    exact hp
  · exact Set.disjoint_left.mp (hA.notFree h.inv hlive) (self_mem_block _ _) hp

/-- Installing a fresh table with one entry in a slot that was not present. -/
theorem PageTables.newTable {A : PageAlloc σ} (hA : A.Lawful V) (h : PageTables V W L s)
    (s' : Phys σ) (hw : w ∈ W) (habs : slotPresent s w = false) {a' : σ} {p : ℕ}
    (htaken : PageAlloc.Taken V s.alloc a' .lowmem p 0) {j e f : ℕ} (hj : j < 1024)
    (he : getEntryAddr e = p * 4096) (hepres : flagIsSet e pdePresentBit = true)
    (hmem : ∀ a, s'.mem a = if a = p * 4096 + 4 * j then f else if a = slotAddr w then e
      else if p * 4096 ≤ a ∧ a < p * 4096 + pageSize then 0 else s.mem a)
    (halloc : s'.alloc = a') :
    PageTables V W L s' ∧
    (∀ w' ∈ W, slotPresent s' w' = (if w' = w then true else slotPresent s w') ∧
      tableOf s' w' = if w' = w then p * 4096 else tableOf s w') ∧
    ∀ w' ∈ W, ∀ j' < 1024, pte s' w' j' =
      if w' = w ∧ j' = j then (if flagIsSet f ptePresentBit then some f else none)
      else pte s w' j' := by
  have hal : 4096 ∣ p * 4096 := Dvd.intro_left p rfl
  have hpfree : p ∈ V.free s.alloc := htaken.subset (self_mem_block p 0)
  obtain ⟨hdir, htab, hnlive⟩ := h.free_ne hA hpfree
  have hzone := lowmem_lt (htaken.zone p (self_mem_block p 0))
  -- the slots: only the slot of `w` has changed
  have hslotmem : ∀ w' ∈ W, s'.mem (slotAddr w') =
      if w' = w then e else s.mem (slotAddr w') := by
    intro w' hw'
    obtain ⟨hal', -, hlt', -⟩ := h.dir w' hw'
    have hentry : slotAddr w' ≠ p * 4096 + 4 * j :=
      fun heq => hdir w' hw' (wordAddr_inj hal' hal hlt' hj heq).1
    have hpage : ¬ (p * 4096 ≤ slotAddr w' ∧ slotAddr w' < p * 4096 + pageSize) :=
      fun hc => hdir w' hw' ((wordAddr_mem_page hal' hal hlt').mp hc)
    rw [hmem, if_neg hentry]
    by_cases heq : w' = w
    · rw [if_pos heq, heq, if_pos rfl]
    · rw [if_neg heq, if_neg fun hc => heq (h.slotAddr_inj hw' hw hc), if_neg hpage]
  have hpresent : ∀ w' ∈ W, slotPresent s' w' = if w' = w then true else slotPresent s w' := by
    intro w' hw'
    unfold slotPresent
    rw [hslotmem w' hw']
    split
    · exact hepres
    · rfl
  have htable : ∀ w' ∈ W, tableOf s' w' = if w' = w then p * 4096 else tableOf s w' := by
    intro w' hw'
    unfold tableOf
    rw [hslotmem w' hw']
    split
    · exact he
    · rfl
  -- the entries: the new table holds one, the others are untouched
  have hnew : ∀ j' < 1024, s'.mem (p * 4096 + 4 * j') = if j' = j then f else 0 := by
    intro j' hj'
    rw [hmem]
    by_cases heq : j' = j
    · rw [if_pos (by rw [heq]), if_pos heq]
    · have hslot : p * 4096 + 4 * j' ≠ slotAddr w := by
        obtain ⟨hal', -, hlt', -⟩ := h.dir w hw
        exact fun hc => hdir w hw (wordAddr_inj hal hal' hj' hlt' hc).1.symm
      rw [if_neg (by omega), if_neg hslot, if_pos ((wordAddr_mem_page hal hal hj').mpr rfl),
        if_neg heq]
  have hold : ∀ w' ∈ W, slotPresent s w' = true → ∀ j' < 1024,
      s'.mem (tableOf s w' + 4 * j') = s.mem (tableOf s w' + 4 * j') := by
    intro w' hw' hpres' j' hj'
    have hne := htab w' hw' hpres'
    have hentry : tableOf s w' + 4 * j' ≠ p * 4096 + 4 * j :=
      fun heq => hne (wordAddr_inj (tableOf_dvd s w') hal hj' hj heq).1
    rw [hmem, if_neg hentry, if_neg (h.slotAddr_ne hw' hpres' hw hj').symm,
      if_neg fun hc => hne ((wordAddr_mem_page (tableOf_dvd s w') hal hj').mp hc)]
  have hcases : ∀ w' ∈ W, slotPresent s' w' = true → w' = w ∨ w' ≠ w ∧ slotPresent s w' = true := by
    intro w' hw' hpres'
    rw [hpresent w' hw'] at hpres'
    by_cases heq : w' = w
    · exact Or.inl heq
    · rw [if_neg heq] at hpres'
      exact Or.inr ⟨heq, hpres'⟩
  refine ⟨{
    inv := by rw [halloc]; exact htaken.inv
    dir := fun w' hw' => ?_
    table := fun w' hw' hpres' => ?_
    inj := fun w₁ hw₁ w₂ hw₂ hp₁ hp₂ heq => ?_
    live := ?_ }, fun w' hw' => ⟨hpresent w' hw', htable w' hw'⟩, fun w' hw' j' hj' => ?_⟩
  · obtain ⟨h1, h2, h3, h4⟩ := h.dir w' hw'
    rw [halloc, htaken.free]
    exact ⟨h1, h2, h3, fun hc => h4 hc.1⟩
  · rw [htable w' hw']
    rcases hcases w' hw' hpres' with rfl | ⟨hne, hpres'⟩
    · rw [if_pos rfl, Nat.mul_div_cancel p (by norm_num)]
      refine ⟨hzone, fun hL => hnlive ?_, fun w'' hw'' heq => hdir w'' hw'' heq.symm⟩
      rw [h.live]
      exact Or.inl hL
    · rw [if_neg hne]
      exact h.table w' hw' hpres'
  · rw [htable w₁ hw₁, htable w₂ hw₂] at heq
    rcases hcases w₁ hw₁ hp₁ with rfl | ⟨hne₁, hp₁⟩
    · rcases hcases w₂ hw₂ hp₂ with rfl | ⟨hne₂, hp₂⟩
      · rfl
      · rw [if_pos rfl, if_neg hne₂] at heq
        exact absurd heq.symm (htab w₂ hw₂ hp₂)
    · rcases hcases w₂ hw₂ hp₂ with rfl | ⟨hne₂, hp₂⟩
      · rw [if_pos rfl, if_neg hne₁] at heq
        exact absurd heq (htab w₁ hw₁ hp₁)
      · rw [if_neg hne₁, if_neg hne₂] at heq
        exact h.inj w₁ hw₁ w₂ hw₂ hp₁ hp₂ heq
  · have htables : tables W s' = insert (p, 0) (tables W s) := by
      ext b
      constructor
      · rintro ⟨w', hw', hpres', rfl⟩
        rw [htable w' hw']
        rcases hcases w' hw' hpres' with rfl | ⟨hne, hpres'⟩
        · left
          rw [if_pos rfl, Nat.mul_div_cancel p (by norm_num)]
        · right
          rw [if_neg hne]
          exact ⟨w', hw', hpres', rfl⟩
      · rintro (rfl | ⟨w', hw', hpres', rfl⟩)
        · refine ⟨w, hw, by rw [hpresent w hw, if_pos rfl], ?_⟩
          rw [htable w hw, if_pos rfl, Nat.mul_div_cancel p (by norm_num)]
        · have hne : w' ≠ w := by
            rintro rfl
            rw [habs] at hpres'
            cases hpres'
          refine ⟨w', hw', by rw [hpresent w' hw', if_neg hne]; exact hpres', ?_⟩
          rw [htable w' hw', if_neg hne]
    rw [halloc, htaken.live, htables, h.live, Set.union_insert]
  · unfold pte
    rw [hpresent w' hw', htable w' hw']
    by_cases heq : w' = w
    · subst heq
      simp only [if_true, Bool.true_and, habs, Bool.false_and, Bool.false_eq_true, if_false]
      rw [hnew j' hj']
      by_cases hjj : j' = j
      · simp [hjj]
      · simp [hjj]
    · have hne : ¬ (w' = w ∧ j' = j) := fun hc => heq hc.1
      simp only [if_neg heq, if_neg hne]
      by_cases hpres' : slotPresent s w' = true
      · rw [hold w' hw' hpres' j' hj']
      · simp [hpres']

/-! ## Giving a table back -/

/-- Clearing a slot and giving its table back; what is left in the page of the table is nobody's. -/
theorem PageTables.removeTable (h : PageTables V W L s) (s' : Phys σ)
    (hw : w ∈ W) (hpres : slotPresent s w = true) {a' : σ}
    (hret : PageAlloc.Returned V s.alloc a' (tableOf s w / 4096) 0)
    (hslot : s'.mem (slotAddr w) = 0)
    (hmem : ∀ a, a ≠ slotAddr w → ¬ (tableOf s w ≤ a ∧ a < tableOf s w + pageSize) →
      s'.mem a = s.mem a)
    (halloc : s'.alloc = a') :
    PageTables V W L s' ∧
    (∀ w' ∈ W, slotPresent s' w' = (if w' = w then false else slotPresent s w') ∧
      (w' ≠ w → tableOf s' w' = tableOf s w')) ∧
    ∀ w' ∈ W, ∀ j' < 1024, pte s' w' j' = if w' = w then none else pte s w' j' := by
  -- The word of the slot is the only word of a directory that changes.
  have hslotmem : ∀ w' ∈ W, s'.mem (slotAddr w') = if w' = w then 0 else s.mem (slotAddr w') := by
    intro w' hw'
    by_cases heq : w' = w
    · rw [if_pos heq, heq, hslot]
    · rw [if_neg heq]
      apply hmem
      · exact fun hc => heq (h.slotAddr_inj hw' hw hc)
      · obtain ⟨hal', -, hlt', -⟩ := h.dir w' hw'
        exact fun hc => (h.table w hw hpres).2.2 w' hw'
          ((wordAddr_mem_page hal' (tableOf_dvd s w) hlt').mp hc).symm
  have hkept : ∀ w' ∈ W, w' ≠ w → slotPresent s' w' = slotPresent s w' ∧
      tableOf s' w' = tableOf s w' := by
    intro w' hw' hne
    unfold slotPresent
    rw [tableOf, hslotmem w' hw', if_neg hne]
    exact ⟨rfl, rfl⟩
  have hgone : slotPresent s' w = false := by
    unfold slotPresent
    rw [hslot, flagIsSet_zero]
  have hpresent : ∀ w' ∈ W, slotPresent s' w' = true → w' ≠ w ∧ slotPresent s w' = true := by
    intro w' hw' hpres'
    have hne : w' ≠ w := by
      rintro rfl
      rw [hgone] at hpres'
      cases hpres'
    exact ⟨hne, (hkept w' hw' hne).1 ▸ hpres'⟩
  -- The table that is given back shares no word with the other tables.
  have hold : ∀ w' ∈ W, w' ≠ w → slotPresent s w' = true → ∀ j' < 1024,
      s'.mem (tableOf s w' + 4 * j') = s.mem (tableOf s w' + 4 * j') := by
    intro w' hw' hne hpres' j' hj'
    apply hmem
    · exact (h.slotAddr_ne hw' hpres' hw hj').symm
    · exact fun hc => hne (h.inj w' hw' w hw hpres' hpres
        ((wordAddr_mem_page (tableOf_dvd s w') (tableOf_dvd s w) hj').mp hc))
  refine ⟨{
    inv := by rw [halloc]; exact hret.inv
    dir := fun w' hw' => ?_
    table := fun w' hw' hpres' => ?_
    inj := fun w₁ hw₁ w₂ hw₂ hp₁ hp₂ heq => ?_
    live := ?_ }, fun w' hw' => ⟨?_, fun hne => (hkept w' hw' hne).2⟩, fun w' hw' j' hj' => ?_⟩
  · obtain ⟨h1, h2, h3, h4⟩ := h.dir w' hw'
    rw [halloc, hret.free, block_zero]
    refine ⟨h1, h2, h3, ?_⟩
    rintro (hc | hc)
    · exact h4 hc
    · -- a directory is not a table
      apply (h.table w hw hpres).2.2 w' hw'
      have hdvd := tableOf_dvd s w
      have hpage : w'.1 / 4096 = tableOf s w / 4096 := hc
      omega
  · obtain ⟨hne, hpres'⟩ := hpresent w' hw' hpres'
    rw [(hkept w' hw' hne).2]
    exact h.table w' hw' hpres'
  · obtain ⟨hne₁, hp₁⟩ := hpresent w₁ hw₁ hp₁
    obtain ⟨hne₂, hp₂⟩ := hpresent w₂ hw₂ hp₂
    rw [(hkept w₁ hw₁ hne₁).2, (hkept w₂ hw₂ hne₂).2] at heq
    exact h.inj w₁ hw₁ w₂ hw₂ hp₁ hp₂ heq
  · -- The block of the table has left the blocks of the tables.
    have htables : tables W s' = tables W s \ {(tableOf s w / 4096, 0)} := by
      ext b
      constructor
      · rintro ⟨w', hw', hpres', rfl⟩
        obtain ⟨hne, hpres'⟩ := hpresent w' hw' hpres'
        rw [(hkept w' hw' hne).2]
        refine ⟨⟨w', hw', hpres', rfl⟩, fun hc => hne ?_⟩
        have hpage : tableOf s w' / 4096 = tableOf s w / 4096 := (Prod.mk.inj hc).1
        have hdvd := tableOf_dvd s w
        have hdvd' := tableOf_dvd s w'
        exact h.inj w' hw' w hw hpres' hpres (by omega)
      · rintro ⟨⟨w', hw', hpres', rfl⟩, hne⟩
        have hne' : w' ≠ w := by
          rintro rfl
          exact hne rfl
        refine ⟨w', hw', by rw [(hkept w' hw' hne').1]; exact hpres', ?_⟩
        rw [(hkept w' hw' hne').2]
    have hL : L \ {(tableOf s w / 4096, 0)} = L := by
      apply Set.sdiff_singleton_eq_self
      exact (h.table w hw hpres).2.1
    rw [halloc, hret.live, htables, h.live, Set.union_sdiff_distrib, hL]
  · by_cases heq : w' = w
    · rw [if_pos heq, heq, hgone]
    · rw [if_neg heq, (hkept w' hw' heq).1]
  · by_cases heq : w' = w
    · rw [if_pos heq, heq]
      exact pte_of_absent hgone j'
    · rw [if_neg heq]
      unfold pte
      rw [(hkept w' hw' heq).1, (hkept w' hw' heq).2]
      -- An absent slot maps nothing whatever its table would hold.
      by_cases hpres' : slotPresent s w' = true
      · rw [hold w' hw' heq hpres' j' hj']
      · simp [hpres']

/-! ## The operations -/

variable {A : PageAlloc σ}

/-- The frame and the flags of the entry that `vmm_map_page` writes. -/
theorem vmmMapPage_entry {p flags : ℕ} (hp : 4096 ∣ p) (hlt : p < 2 ^ 32) (hf : flags < 4096) :
    getEntryAddr (p ||| flags) = p ∧ getEntryFlags (p ||| flags) = flags := by
  constructor
  · rw [getEntryAddr_or hf, getEntryAddr_of_dvd hp hlt]
  · have hlow : p &&& 0xFFF = 0 := by
      rw [show (0xFFF : ℕ) = 2 ^ 12 - 1 by norm_num, Nat.and_two_pow_sub_one_eq_mod]
      exact Nat.mod_eq_zero_of_dvd hp
    have hkeep : flags &&& 0xFFF = flags := by
      rw [show (0xFFF : ℕ) = 2 ^ 12 - 1 by norm_num, Nat.and_two_pow_sub_one_eq_mod]
      exact Nat.mod_eq_of_lt hf
    unfold getEntryFlags
    rw [Nat.and_or_distrib_right, hlow, hkeep, Nat.zero_or]

/-- The word that `vmm_map_page` writes into a slot for a new table at page `p`. -/
theorem vmmMapPage_pde {p : ℕ} (hp : p * 4096 < highmemStart) (flags : ℕ) :
    getEntryAddr (p * 4096 ||| pdePresentBit ||| pdeRwBit ||| (flags &&& pdeUsBit)) = p * 4096 ∧
    flagIsSet (p * 4096 ||| pdePresentBit ||| pdeRwBit ||| (flags &&& pdeUsBit)) pdePresentBit =
      true := by
  have hus : flags &&& pdeUsBit < 4096 := lt_of_le_of_lt Nat.and_le_right (by decide)
  have hlt : p * 4096 < 2 ^ 32 := hp.trans (by decide)
  constructor
  · rw [getEntryAddr_or hus, getEntryAddr_or (by decide), getEntryAddr_or (by decide),
      getEntryAddr_of_dvd (Dvd.intro_left p rfl) hlt]
  · rw [flagIsSet_or, flagIsSet_or, flagIsSet_or,
      show flagIsSet pdePresentBit pdePresentBit = true by decide]
    simp

/-- The scan finds a present entry or there is none. -/
theorem isPtEmpty_iff {mem : ℕ → ℕ} {pt : ℕ} :
    isPtEmpty mem pt = true ↔ ∀ i < 1024, flagIsSet (mem (pt + 4 * i)) ptePresentBit = false := by
  unfold isPtEmpty
  rw [List.all_eq_true]
  constructor
  · intro hall i hi
    simpa using hall i (List.mem_range.mpr hi)
  · intro hall i hi
    simpa using hall i (List.mem_range.mp hi)

/-! ## What a call writes -/

/-- The cells that **`vmm_map_page`** writes: an entry of a table, and the slot of the table if it is
new or becomes a table of user pages. -/
inductive MapWrites (A : PageAlloc σ) (pd v p flags : ℕ) (s : Phys σ) : Bool → Phys σ → Prop where
  | noTable {a : σ} : slotPresent s (pd, getPdeIndex v) = false →
      A.buddyAllocPages pageSize .lowmem s.alloc = .ok (0, a) →
      MapWrites A pd v p flags s false { s with alloc := a }
  | newTable {a : σ} {pt : ℕ} : slotPresent s (pd, getPdeIndex v) = false →
      A.buddyAllocPages pageSize .lowmem s.alloc = .ok (pt, a) → pt ≠ 0 → pt < highmemStart →
      MapWrites A pd v p flags s true
        (((({ s with alloc := a } : Phys σ).zeroPage pt).write (slotAddr (pd, getPdeIndex v))
          (pt ||| pdePresentBit ||| pdeRwBit ||| (flags &&& pdeUsBit))).write
            (pt + 4 * getPteIndex v) (p ||| flags))
  | userTable : slotPresent s (pd, getPdeIndex v) = true → flagIsSet flags pdeUsBit = true →
      flagIsSet (s.mem (slotAddr (pd, getPdeIndex v))) pdeUsBit = false →
      MapWrites A pd v p flags s true
        ((s.write (slotAddr (pd, getPdeIndex v))
          (s.mem (slotAddr (pd, getPdeIndex v)) ||| pdeUsBit)).write
            (tableOf s (pd, getPdeIndex v) + 4 * getPteIndex v) (p ||| flags))
  | table : slotPresent s (pd, getPdeIndex v) = true →
      (flagIsSet flags pdeUsBit = true →
        flagIsSet (s.mem (slotAddr (pd, getPdeIndex v))) pdeUsBit = true) →
      MapWrites A pd v p flags s true
        (s.write (tableOf s (pd, getPdeIndex v) + 4 * getPteIndex v) (p ||| flags))

theorem physLinear_ok {p q : ℕ} (h : physLinear p = .ok q) : p = q ∧ p < highmemStart := by
  unfold physLinear at h
  split at h
  · cases h
  · split at h
    · next hlt => exact ⟨Except.ok.inj h, hlt⟩
    · cases h

/-- Every call of `vmm_map_page` that returns. -/
theorem vmmMapPage_writes {pd v p flags : ℕ} {ok : Bool}
    (h : vmmMapPage A pd v p flags s = .ok (ok, s')) : MapWrites A pd v p flags s ok s' := by
  unfold vmmMapPage at h
  rw [bind_eq_ok] at h
  obtain ⟨pdVirt, hpd, h⟩ := h
  obtain ⟨rfl, -⟩ := physLinear_ok hpd
  simp only at h
  split at h
  · -- No table yet: one is allocated, or the call fails.
    next habs =>
    have habs : slotPresent s (pd, getPdeIndex v) = false := by
      simpa [slotPresent, slotAddr] using habs
    rw [bind_eq_ok] at h
    obtain ⟨⟨pt, a⟩, halloc, h⟩ := h
    simp only at h
    split at h
    · next hnull =>
      subst hnull
      obtain ⟨rfl, rfl⟩ := Prod.mk.inj (Except.ok.inj h)
      exact .noTable habs halloc
    · next hne =>
      rw [bind_eq_ok] at h
      obtain ⟨ptVirt, hpt, h⟩ := h
      obtain ⟨rfl, hlow⟩ := physLinear_ok hpt
      obtain ⟨rfl, rfl⟩ := Prod.mk.inj (Except.ok.inj h)
      exact .newTable habs halloc hne hlow
  · next hpres =>
    have hpres : slotPresent s (pd, getPdeIndex v) = true := by
      simpa [slotPresent, slotAddr] using hpres
    rw [bind_eq_ok] at h
    obtain ⟨ptVirt, hpt, h⟩ := h
    obtain ⟨rfl, -⟩ := physLinear_ok hpt
    obtain ⟨rfl, rfl⟩ := Prod.mk.inj (Except.ok.inj h)
    -- A table of the kernel is opened to the user when the flags ask for it.
    by_cases hus : flagIsSet flags pdeUsBit = true ∧
        flagIsSet (s.mem (slotAddr (pd, getPdeIndex v))) pdeUsBit = false
    · have hcond : (flagIsSet flags pdeUsBit &&
          !flagIsSet (s.mem (pd + 4 * getPdeIndex v)) pdeUsBit) = true := by
        rw [hus.1, Bool.true_and]
        exact congrArg not hus.2
      rw [if_pos hcond]
      -- The bit that is set is not one of the address.
      have htable : getEntryAddr ((s.write (pd + 4 * getPdeIndex v)
          (s.mem (pd + 4 * getPdeIndex v) ||| pdeUsBit)).mem (pd + 4 * getPdeIndex v)) =
          tableOf s (pd, getPdeIndex v) := by
        rw [Phys.write_mem, if_pos rfl, getEntryAddr_or (by decide)]
        rfl
      rw [htable]
      exact .userTable hpres hus.1 hus.2
    · have hcond : ¬ (flagIsSet flags pdeUsBit &&
          !flagIsSet (s.mem (pd + 4 * getPdeIndex v)) pdeUsBit) = true := by
        rw [Bool.and_eq_true, Bool.not_eq_true']
        exact hus
      rw [if_neg hcond]
      refine .table hpres fun hflag => ?_
      by_contra hno
      exact hus ⟨hflag, by simpa using hno⟩

/-- The cells that **`vmm_unmap_page`** writes: an entry of a table, and the slot of the table if
that was the last one. -/
inductive UnmapWrites (A : PageAlloc σ) (pd v : ℕ) (s : Phys σ) : Bool → Phys σ → Prop where
  | absent : pte s (pd, getPdeIndex v) (getPteIndex v) = none → UnmapWrites A pd v s false s
  | entry {i : ℕ} : pte s (pd, getPdeIndex v) (getPteIndex v) ≠ none → i < 1024 →
      i ≠ getPteIndex v → pte s (pd, getPdeIndex v) i ≠ none →
      UnmapWrites A pd v s true (s.write (tableOf s (pd, getPdeIndex v) + 4 * getPteIndex v) 0)
  | last {a : σ} : pte s (pd, getPdeIndex v) (getPteIndex v) ≠ none →
      (∀ i < 1024, i ≠ getPteIndex v → pte s (pd, getPdeIndex v) i = none) →
      A.buddyFreeBlock (tableOf s (pd, getPdeIndex v)) s.alloc = .ok a →
      UnmapWrites A pd v s true
        { (s.write (tableOf s (pd, getPdeIndex v) + 4 * getPteIndex v) 0).write
            (slotAddr (pd, getPdeIndex v)) 0 with alloc := a }

/-- Every call of `vmm_unmap_page` that returns. -/
theorem vmmUnmapPage_writes {pd v : ℕ} {ok : Bool}
    (h : vmmUnmapPage A pd v s = .ok (ok, s')) : UnmapWrites A pd v s ok s' := by
  unfold vmmUnmapPage at h
  rw [bind_eq_ok] at h
  obtain ⟨pdVirt, hpd, h⟩ := h
  obtain ⟨rfl, -⟩ := physLinear_ok hpd
  simp only at h
  split at h
  · next habs =>
    have habs : slotPresent s (pd, getPdeIndex v) = false := by
      simpa [slotPresent, slotAddr] using habs
    obtain ⟨rfl, rfl⟩ := Prod.mk.inj (Except.ok.inj h)
    exact .absent (pte_of_absent habs _)
  · next hpres =>
    have hpres : slotPresent s (pd, getPdeIndex v) = true := by
      simpa [slotPresent, slotAddr] using hpres
    rw [bind_eq_ok] at h
    obtain ⟨ptVirt, hpt, h⟩ := h
    obtain ⟨rfl, -⟩ := physLinear_ok hpt
    have htable : getEntryAddr (s.mem (pd + 4 * getPdeIndex v)) = tableOf s (pd, getPdeIndex v) := rfl
    rw [htable] at h
    split at h
    · next hnone =>
      obtain ⟨rfl, rfl⟩ := Prod.mk.inj (Except.ok.inj h)
      refine .absent ?_
      have hnone : flagIsSet (s.mem (tableOf s (pd, getPdeIndex v) + 4 * getPteIndex v))
          ptePresentBit = false := by simpa using hnone
      simp [pte, hnone]
    · next hset =>
      have hset : flagIsSet (s.mem (tableOf s (pd, getPdeIndex v) + 4 * getPteIndex v))
          ptePresentBit = true := by simpa using hset
      have hmapped : pte s (pd, getPdeIndex v) (getPteIndex v) ≠ none := by simp [pte, hpres, hset]
      split at h
      · next hempty =>
        rw [bind_eq_ok] at h
        obtain ⟨a, hfree, h⟩ := h
        obtain ⟨rfl, rfl⟩ := Prod.mk.inj (Except.ok.inj h)
        refine .last hmapped (fun i hi hne => ?_) hfree
        -- the scan has read every other entry as it was
        have hread := isPtEmpty_iff.mp hempty i hi
        rw [Phys.write_mem, if_neg (by omega)] at hread
        simp [pte, hread]
      · next hfull =>
        obtain ⟨rfl, rfl⟩ := Prod.mk.inj (Except.ok.inj h)
        obtain ⟨i, hi, hread⟩ : ∃ i < 1024, flagIsSet ((s.write
            (tableOf s (pd, getPdeIndex v) + 4 * getPteIndex v) 0).mem
            (tableOf s (pd, getPdeIndex v) + 4 * i)) ptePresentBit = true := by
          by_contra hnone
          push Not at hnone
          exact hfull (isPtEmpty_iff.mpr fun i hi => by simpa using hnone i hi)
        have hne : i ≠ getPteIndex v := by
          rintro rfl
          rw [Phys.write_mem, if_pos rfl, flagIsSet_zero] at hread
          cases hread
        rw [Phys.write_mem, if_neg (by omega)] at hread
        exact .entry hmapped hi hne (by simp [pte, hpres, hread])

/-! ## What the operations do -/

/-- **`vmm_map_page`** does not stop. -/
theorem PageTables.vmmMapPage_returns (hA : A.Lawful V) (h : PageTables V W L s) {pd v : ℕ}
    (hw : (pd, getPdeIndex v) ∈ W) (p flags : ℕ) :
    ∃ ok s', vmmMapPage A pd v p flags s = .ok (ok, s') := by
  unfold vmmMapPage
  rw [physLinear_eq (h.dir _ hw).2.1, ok_bind]
  simp only
  cases hpres : slotPresent s (pd, getPdeIndex v) with
  | false =>
    have habs : flagIsSet (s.mem (pd + 4 * getPdeIndex v)) pdePresentBit = false := hpres
    simp only [habs, Bool.not_false, if_true]
    rcases hA.alloc h.inv pageSize .lowmem with hnull | ⟨q, a', hrun, htaken⟩
    · rw [hnull, ok_bind]
      exact ⟨_, _, rfl⟩
    · have hne : q * 4096 ≠ 0 := by
        have := htaken.ne_zero
        omega
      rw [hrun, ok_bind]
      simp only [hne, if_false]
      rw [physLinear_eq (lowmem_lt (htaken.zone q (self_mem_block q _))), ok_bind]
      exact ⟨_, _, rfl⟩
  | true =>
    have hpres' : flagIsSet (s.mem (pd + 4 * getPdeIndex v)) pdePresentBit = true := hpres
    simp only [hpres', Bool.not_true, Bool.false_eq_true, if_false]
    -- the user bit does not change the address of the table
    have htable : getEntryAddr ((if flagIsSet flags pdeUsBit &&
        !flagIsSet (s.mem (pd + 4 * getPdeIndex v)) pdeUsBit then
          s.write (pd + 4 * getPdeIndex v) (s.mem (pd + 4 * getPdeIndex v) ||| pdeUsBit)
        else s).mem (pd + 4 * getPdeIndex v)) = tableOf s (pd, getPdeIndex v) := by
      split
      · rw [Phys.write_mem, if_pos rfl, getEntryAddr_or (by decide)]
        rfl
      · rfl
    rw [htable, physLinear_eq (h.table _ hw hpres).1, ok_bind]
    exact ⟨_, _, rfl⟩

/-- **What `vmm_map_page` changes**, for any flags. -/
theorem PageTables.of_mapWrites (hA : A.Lawful V) (h : PageTables V W L s) {pd v p flags : ℕ}
    {ok : Bool} (hw : (pd, getPdeIndex v) ∈ W) (hrun : MapWrites A pd v p flags s ok s') :
    (ok = false ∧ s' = s ∧ slotPresent s (pd, getPdeIndex v) = false) ∨
    (ok = true ∧ PageTables V W L s' ∧
      (∀ w ∈ W, w ≠ (pd, getPdeIndex v) →
        slotPresent s' w = slotPresent s w ∧ tableOf s' w = tableOf s w) ∧
      ∀ w ∈ W, ∀ j < 1024, pte s' w j =
        if w = (pd, getPdeIndex v) ∧ j = getPteIndex v then
          (if flagIsSet (p ||| flags) ptePresentBit then some (p ||| flags) else none)
        else pte s w j) := by
  have hj := getPteIndex_lt v
  cases hrun with
  | noTable habs halloc =>
    left
    rcases hA.alloc h.inv pageSize .lowmem with hnull | ⟨q, a', hrun, htaken⟩
    · obtain ⟨-, rfl⟩ := Prod.mk.inj (Except.ok.inj (hnull.symm.trans halloc))
      exact ⟨rfl, rfl, habs⟩
    · -- the address of a page that is handed out is not `NULL`
      have haddr := (Prod.mk.inj (Except.ok.inj (hrun.symm.trans halloc))).1
      have := htaken.ne_zero
      omega
  | newTable habs halloc hne hlow =>
    right
    rcases hA.alloc h.inv pageSize .lowmem with hnull | ⟨q, a', hrun, htaken⟩
    · exact absurd (Prod.mk.inj (Except.ok.inj (hnull.symm.trans halloc))).1.symm hne
    · obtain ⟨rfl, rfl⟩ := Prod.mk.inj (Except.ok.inj (hrun.symm.trans halloc))
      rw [sizeToOrder_pageSize] at htaken
      obtain ⟨hpdeAddr, hpdePres⟩ := vmmMapPage_pde hlow flags
      obtain ⟨hinv, hslots, hlook⟩ := h.newTable hA { mem := _, alloc := a' } hw habs htaken hj hpdeAddr hpdePres
        (fun a => rfl) rfl
      refine ⟨rfl, hinv, fun w hw hne => ?_, hlook⟩
      have hslot := hslots w hw
      rw [if_neg hne, if_neg hne] at hslot
      exact hslot
  | userTable hpres hflag hus =>
    right
    obtain ⟨hinv₁, hslots₁, hlook₁⟩ := h.setUs hw
    have hpres₁ := (hslots₁ _ hw).1.trans hpres
    obtain ⟨hinv, hslots, hlook⟩ := hinv₁.setEntry (e := p ||| flags) hw hpres₁ hj
    rw [(hslots₁ _ hw).2] at hinv hslots hlook
    refine ⟨rfl, hinv, fun w hw _ => ?_, fun w hw j hj => ?_⟩
    · exact ⟨(hslots w hw).1.trans (hslots₁ w hw).1, (hslots w hw).2.trans (hslots₁ w hw).2⟩
    · rw [hlook w hw j hj, hlook₁ w hw j hj]
  | table hpres hus =>
    right
    obtain ⟨hinv, hslots, hlook⟩ := h.setEntry (e := p ||| flags) hw hpres hj
    exact ⟨rfl, hinv, fun w hw _ => hslots w hw, hlook⟩

/-- The cells that **`vmm_map_page`** does not write. -/
theorem MapWrites.frame (hA : A.Lawful V) (hinv : V.Inv s.alloc) {pd v p flags : ℕ} {ok : Bool}
    (hrun : MapWrites A pd v p flags s ok s') {a : ℕ} (hslot : a ≠ slotAddr (pd, getPdeIndex v))
    (hfree : a / 4096 ∉ V.free s.alloc)
    (htable : slotPresent s (pd, getPdeIndex v) = true →
      tableOf s (pd, getPdeIndex v) / 4096 ≠ a / 4096) : s'.mem a = s.mem a := by
  have hj := getPteIndex_lt v
  have hentry : ∀ {t}, 4096 ∣ t → t / 4096 ≠ a / 4096 → a ≠ t + 4 * getPteIndex v := by
    intro t hdvd hne heq
    apply hne
    omega
  cases hrun with
  | noTable habs halloc => rfl
  | newTable habs halloc hne hlow =>
    rcases hA.alloc hinv pageSize .lowmem with hnull | ⟨q, a', hrun, htaken⟩
    · exact absurd (Prod.mk.inj (Except.ok.inj (hnull.symm.trans halloc))).1.symm hne
    · obtain ⟨rfl, rfl⟩ := Prod.mk.inj (Except.ok.inj (hrun.symm.trans halloc))
      have hpage : q * 4096 / 4096 ≠ a / 4096 := by
        rw [Nat.mul_div_cancel q (by norm_num)]
        exact fun heq => hfree (heq ▸ htaken.subset (self_mem_block q _))
      rw [Phys.write_mem, if_neg (hentry (Dvd.intro_left q rfl) hpage), Phys.write_mem,
        if_neg hslot, Phys.zeroPage_mem, if_neg]
      intro hc
      apply hpage
      unfold pageSize at hc
      omega
  | userTable hpres hflag hus =>
    rw [Phys.write_mem, if_neg (hentry (tableOf_dvd s _) (htable hpres)), Phys.write_mem,
      if_neg hslot]
  | table hpres hus =>
    rw [Phys.write_mem, if_neg (hentry (tableOf_dvd s _) (htable hpres))]

/-- **`vmm_map_page`** returns `false` and changes nothing where it needs a table and gets none;
otherwise exactly the translation of its page is set, and no other slot changes. -/
theorem PageTables.vmmMapPage_spec (hA : A.Lawful V) (h : PageTables V W L s) {pd v p flags : ℕ}
    (hw : (pd, getPdeIndex v) ∈ W) (hflag : flagIsSet flags ptePresentBit = true) :
    (vmmMapPage A pd v p flags s = .ok (false, s) ∧ slotPresent s (pd, getPdeIndex v) = false) ∨
    ∃ s', vmmMapPage A pd v p flags s = .ok (true, s') ∧ PageTables V W L s' ∧
      (∀ w ∈ W, w ≠ (pd, getPdeIndex v) →
        slotPresent s' w = slotPresent s w ∧ tableOf s' w = tableOf s w) ∧
      ∀ w ∈ W, ∀ j < 1024, pte s' w j =
        if w = (pd, getPdeIndex v) ∧ j = getPteIndex v then some (p ||| flags) else pte s w j := by
  have hentry : flagIsSet (p ||| flags) ptePresentBit = true := by
    rw [flagIsSet_or, hflag, Bool.or_true]
  obtain ⟨ok, s', hrun⟩ := h.vmmMapPage_returns hA hw p flags
  rcases h.of_mapWrites hA hw (vmmMapPage_writes hrun) with ⟨rfl, rfl, habs⟩ |
    ⟨rfl, hinv, hslots, hpte⟩
  · exact Or.inl ⟨hrun, habs⟩
  · refine Or.inr ⟨s', hrun, hinv, hslots, fun w hw j hj => ?_⟩
    rw [hpte w hw j hj, if_pos hentry]

/-- **What `vmm_unmap_page` changes.** -/
theorem PageTables.of_unmapWrites (hA : A.Lawful V) (h : PageTables V W L s) {pd v : ℕ} {ok : Bool}
    (hw : (pd, getPdeIndex v) ∈ W) (hrun : UnmapWrites A pd v s ok s') :
    (ok = false ∧ s' = s ∧ pte s (pd, getPdeIndex v) (getPteIndex v) = none) ∨
    (ok = true ∧ PageTables V W L s' ∧ pte s (pd, getPdeIndex v) (getPteIndex v) ≠ none ∧
      (∀ w ∈ W, slotPresent s' w = true → slotPresent s w = true ∧ tableOf s' w = tableOf s w) ∧
      (∀ w ∈ W, w ≠ (pd, getPdeIndex v) → slotPresent s' w = slotPresent s w) ∧
      (slotPresent s' (pd, getPdeIndex v) = true →
        ∃ j < 1024, pte s' (pd, getPdeIndex v) j ≠ none) ∧
      ∀ w ∈ W, ∀ j < 1024, pte s' w j =
        if w = (pd, getPdeIndex v) ∧ j = getPteIndex v then none else pte s w j) := by
  have hj := getPteIndex_lt v
  -- Nothing was mapped, other entries are left, or the table goes with its last entry.
  cases hrun with
  | absent hnone => exact Or.inl ⟨rfl, rfl, hnone⟩
  | entry hmapped hi hne hother =>
    right
    have hpres := slotPresent_of_pte hmapped
    -- The entry is cleared; the slots are as they were.
    obtain ⟨hinv, hslots, hlook⟩ := h.setEntry (e := 0) hw hpres hj
    refine ⟨rfl, hinv, hmapped, fun w hw hpres' => ?_, fun w hw _ => (hslots w hw).1, fun _ => ?_,
      fun w hw j hj => ?_⟩
    · exact ⟨(hslots w hw).1 ▸ hpres', (hslots w hw).2⟩
    · refine ⟨_, hi, ?_⟩
      rw [hlook _ hw _ hi, if_neg fun hc => hne hc.2]
      exact hother
    · rw [hlook w hw j hj, flagIsSet_zero]
      rfl
  | last hmapped hempty hfree =>
    right
    have hpres := slotPresent_of_pte hmapped
    -- The table is live as long as its slot is present, so it can be given back.
    have hlive : (tableOf s (pd, getPdeIndex v) / 4096, 0) ∈ V.live s.alloc := by
      rw [h.live]
      exact Or.inr ⟨_, hw, hpres, rfl⟩
    obtain ⟨a', hrun, hret⟩ := hA.release h.inv hlive
    rw [Nat.div_mul_cancel (tableOf_dvd s _)] at hrun
    obtain rfl := Except.ok.inj (hrun.symm.trans hfree)
    obtain ⟨hinv, hslots, hlook⟩ := h.removeTable
      { (s.write (tableOf s (pd, getPdeIndex v) + 4 * getPteIndex v) 0).write
          (slotAddr (pd, getPdeIndex v)) 0 with alloc := a' } hw hpres hret (if_pos rfl)
      (fun a hslot hpage => by
        have hentry : a ≠ tableOf s (pd, getPdeIndex v) + 4 * getPteIndex v := by
          unfold pageSize at hpage
          omega
        simp only [Phys.write_mem, if_neg hslot, if_neg hentry]) rfl
    refine ⟨rfl, hinv, hmapped, fun w hw hpres' => ?_, fun w hw hne => ?_, fun hpres' => ?_,
      fun w hw j hj => ?_⟩
    · by_cases heq : w = (pd, getPdeIndex v)
      · rw [(hslots w hw).1, if_pos heq] at hpres'
        cases hpres'
      · rw [(hslots w hw).1, if_neg heq] at hpres'
        exact ⟨hpres', (hslots w hw).2 heq⟩
    · rw [(hslots w hw).1, if_neg hne]
    · rw [(hslots _ hw).1, if_pos rfl] at hpres'
      cases hpres'
    · -- the entries that went with the table were not present
      rw [hlook w hw j hj]
      by_cases heq : w = (pd, getPdeIndex v)
      · rw [if_pos heq, heq]
        by_cases hjj : j = getPteIndex v
        · rw [if_pos ⟨rfl, hjj⟩]
        · rw [if_neg fun hc => hjj hc.2, hempty j hj hjj]
      · rw [if_neg heq, if_neg fun hc => heq hc.1]

/-- The cells that **`vmm_unmap_page`** does not write. -/
theorem UnmapWrites.frame {pd v : ℕ} {ok : Bool} (hrun : UnmapWrites A pd v s ok s') {a : ℕ}
    (hslot : a ≠ slotAddr (pd, getPdeIndex v))
    (htable : slotPresent s (pd, getPdeIndex v) = true →
      tableOf s (pd, getPdeIndex v) / 4096 ≠ a / 4096) : s'.mem a = s.mem a := by
  have hj := getPteIndex_lt v
  have hentry : slotPresent s (pd, getPdeIndex v) = true →
      a ≠ tableOf s (pd, getPdeIndex v) + 4 * getPteIndex v := by
    intro hpres heq
    have hdvd := tableOf_dvd s (pd, getPdeIndex v)
    apply htable hpres
    omega
  cases hrun with
  | absent hnone => rfl
  | entry hmapped hi hne hother => exact if_neg (hentry (slotPresent_of_pte hmapped))
  | last hmapped hempty hfree =>
    exact (if_neg hslot).trans (if_neg (hentry (slotPresent_of_pte hmapped)))

/-- **`vmm_unmap_page`** does not stop. -/
theorem PageTables.vmmUnmapPage_returns (hA : A.Lawful V) (h : PageTables V W L s) {pd v : ℕ}
    (hw : (pd, getPdeIndex v) ∈ W) : ∃ ok s', vmmUnmapPage A pd v s = .ok (ok, s') := by
  have htab : getEntryAddr (s.mem (pd + 4 * getPdeIndex v)) = tableOf s (pd, getPdeIndex v) := rfl
  unfold vmmUnmapPage
  rw [physLinear_eq (h.dir _ hw).2.1, ok_bind]
  simp only
  split
  · exact ⟨_, _, rfl⟩
  · next hset =>
    have hpres : slotPresent s (pd, getPdeIndex v) = true := by
      simpa [slotPresent, slotAddr] using hset
    have hlive : (tableOf s (pd, getPdeIndex v) / 4096, 0) ∈ V.live s.alloc := by
      rw [h.live]
      exact Or.inr ⟨_, hw, hpres, rfl⟩
    obtain ⟨a', hfree, -⟩ := hA.release h.inv hlive
    rw [Nat.div_mul_cancel (tableOf_dvd s _)] at hfree
    rw [htab, physLinear_eq (h.table _ hw hpres).1, ok_bind]
    split
    · exact ⟨_, _, rfl⟩
    · split
      · simp only [Phys.write_alloc]
        rw [hfree, ok_bind]
        exact ⟨_, _, rfl⟩
      · exact ⟨_, _, rfl⟩

/-- **`vmm_unmap_page`** returns `false` and changes nothing where the page is not mapped; otherwise
exactly the translation of its page is removed, and the table with it if that was the last one. -/
theorem PageTables.vmmUnmapPage_spec (hA : A.Lawful V) (h : PageTables V W L s) {pd v : ℕ}
    (hw : (pd, getPdeIndex v) ∈ W) :
    (vmmUnmapPage A pd v s = .ok (false, s) ∧
      pte s (pd, getPdeIndex v) (getPteIndex v) = none) ∨
    ∃ s', vmmUnmapPage A pd v s = .ok (true, s') ∧ PageTables V W L s' ∧
      pte s (pd, getPdeIndex v) (getPteIndex v) ≠ none ∧
      (∀ w ∈ W, slotPresent s' w = true → slotPresent s w = true ∧ tableOf s' w = tableOf s w) ∧
      (∀ w ∈ W, w ≠ (pd, getPdeIndex v) → slotPresent s' w = slotPresent s w) ∧
      (slotPresent s' (pd, getPdeIndex v) = true →
        ∃ j < 1024, pte s' (pd, getPdeIndex v) j ≠ none) ∧
      ∀ w ∈ W, ∀ j < 1024, pte s' w j =
        if w = (pd, getPdeIndex v) ∧ j = getPteIndex v then none else pte s w j := by
  obtain ⟨ok, s', hrun⟩ := h.vmmUnmapPage_returns hA hw
  rcases h.of_unmapWrites hA hw (vmmUnmapPage_writes hrun) with ⟨rfl, rfl, hnone⟩ | ⟨rfl, hspec⟩
  · exact Or.inl ⟨hrun, hnone⟩
  · exact Or.inr ⟨s', hrun, hspec⟩

/-- **`vmm_get_mapping`** reads the translation. -/
theorem PageTables.vmmGetMapping_eq (h : PageTables V W L s) {pd v : ℕ}
    (hw : (pd, getPdeIndex v) ∈ W) :
    vmmGetMapping pd v s = .ok ((lookup s (pd, getPdeIndex v) (getPteIndex v)).elim 0
      fun frame => frame + (v &&& 0xFFF)) := by
  unfold vmmGetMapping
  rw [physLinear_eq (h.dir _ hw).2.1, ok_bind]
  simp only
  have htab : getEntryAddr (s.mem (pd + 4 * getPdeIndex v)) = tableOf s (pd, getPdeIndex v) := rfl
  cases hpres : slotPresent s (pd, getPdeIndex v) with
  | false =>
    have habs : flagIsSet (s.mem (pd + 4 * getPdeIndex v)) pdePresentBit = false := hpres
    simp [habs, lookup, hpres]
  | true =>
    have hpres' : flagIsSet (s.mem (pd + 4 * getPdeIndex v)) pdePresentBit = true := hpres
    simp only [hpres', Bool.not_true, Bool.false_eq_true, if_false]
    rw [htab, physLinear_eq (h.table _ hw hpres).1, ok_bind]
    cases hentry : flagIsSet (s.mem (tableOf s (pd, getPdeIndex v) + 4 * getPteIndex v))
        ptePresentBit with
    | false => simp [lookup, hentry]
    | true =>
      -- an aligned frame and an offset in the page do not wrap
      have hsum : ∀ e, add32 (getEntryAddr e) (v &&& 0xFFF) = getEntryAddr e + (v &&& 0xFFF) := by
        intro e
        have hoff : v &&& 0xFFF < 4096 := Nat.and_lt_two_pow _ (by norm_num : (0xFFF : ℕ) < 2 ^ 12)
        obtain ⟨q, hq⟩ := getEntryAddr_dvd e
        have hlt := getEntryAddr_lt e
        exact add32_eq (by omega)
      simp [lookup, hpres, hentry, hsum]

end Slots

end Kfs.Memory
