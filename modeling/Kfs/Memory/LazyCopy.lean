import Kfs.Memory.PageCalls
import Kfs.Memory.Spaces
import Kfs.Memory.UserCopy

/-!
# User copies and lazy areas

A page of a lazy area is mapped when user code touches it: `page_fault_handler` maps the whole area.
`copy_from_user` and `copy_to_user` only look at the page tables, so they refuse a range that has not
been touched. This module connects the two: the bytes that `usercopy` reads are those of the memory
in which the page tables of an area run lie, and the directory entries of user pages let user code
through (`OpenSlots`), as `vmm_map_page` writes them.
-/

namespace Kfs.Memory

open Kfs.Lib Kfs.Lib.Word32 Kfs.Lib.Dyadic

/-! ## Flags -/

/-- A mask below `2 ^ n` sees the low bits only. -/
theorem mod_two_pow_and {w f n : ℕ} (hf : f < 2 ^ n) : w % 2 ^ n &&& f = w &&& f := by
  apply Nat.eq_of_testBit_eq
  intro i
  rw [Nat.testBit_and, Nat.testBit_and, Nat.testBit_mod_two_pow]
  by_cases hi : i < n
  · simp [hi]
  · have hbit : f.testBit i = false :=
      Nat.testBit_lt_two_pow (hf.trans_le (Nat.pow_le_pow_right (by norm_num) (not_lt.mp hi)))
    simp [hbit]

theorem hasFlags_or (e f g : ℕ) : hasFlags e (f ||| g) = (hasFlags e f && hasFlags e g) := by
  unfold hasFlags
  rw [Bool.eq_iff_iff, Bool.and_eq_true, beq_iff_eq, beq_iff_eq, beq_iff_eq]
  constructor
  · intro h
    refine ⟨Nat.eq_of_testBit_eq fun i => ?_, Nat.eq_of_testBit_eq fun i => ?_⟩
    all_goals
      have hbit := congrArg (fun x => x.testBit i) h
      simp only [Nat.testBit_and, Nat.testBit_or] at hbit ⊢
      revert hbit
      cases e.testBit i <;> cases f.testBit i <;> cases g.testBit i <;> decide
  · rintro ⟨hf, hg⟩
    rw [Nat.and_or_distrib_left, hf, hg]

/-- One bit is there or it is not. -/
theorem hasFlags_two_pow (e i : ℕ) : hasFlags e (2 ^ i) = flagIsSet e (2 ^ i) := by
  unfold hasFlags flagIsSet
  rw [Nat.and_two_pow]
  have hpos : (0 : ℕ) ≠ 2 ^ i := (Nat.two_pow_pos i).ne
  cases e.testBit i with
  | false => simpa using hpos
  | true => simp

theorem hasFlags_present (e : ℕ) : hasFlags e pdePresentBit = flagIsSet e pdePresentBit :=
  hasFlags_two_pow e 0

theorem hasFlags_rw (e : ℕ) : hasFlags e pdeRwBit = flagIsSet e pdeRwBit := hasFlags_two_pow e 1

theorem hasFlags_us (e : ℕ) : hasFlags e pdeUsBit = flagIsSet e pdeUsBit := hasFlags_two_pow e 2

/-! ## Memory by bytes -/

section Bytes

variable {σ : Type} {V : PageAlloc.View σ} {W L : Set (ℕ × ℕ)} {s s' : Phys σ}

/-- The bytes of memory. Below `HIGHMEM` a cell is a word. -/
def Phys.bytes (s : Phys σ) (a : ℕ) : ℕ :=
  if a < highmemStart then s.mem (a / 4 * 4) / 2 ^ (8 * (a % 4)) % 2 ^ 8 else s.mem a

/-- The word at an address is the word that its bytes are of. -/
theorem readWord_bytes {a : ℕ} (hdvd : 4 ∣ a) (hlt : a < highmemStart) :
    readWord s.bytes a = s.mem a % 2 ^ 32 := by
  obtain ⟨q, rfl⟩ := hdvd
  have hbyte : ∀ i < 4, s.bytes (4 * q + i) = s.mem (4 * q) / 2 ^ (8 * i) % 2 ^ 8 := by
    intro i hi
    have hlt' : 4 * q + i < highmemStart := by
      unfold highmemStart at hlt ⊢
      omega
    unfold Phys.bytes
    rw [if_pos hlt', show (4 * q + i) / 4 * 4 = 4 * q by omega, show (4 * q + i) % 4 = i by omega]
  have h0 := hbyte 0 (by norm_num)
  rw [Nat.add_zero] at h0
  unfold readWord
  rw [h0, hbyte 1 (by norm_num), hbyte 2 (by norm_num), hbyte 3 (by norm_num)]
  norm_num
  omega

/-- The word of a slot, as `usercopy` reads it. -/
theorem PageTables.readWord_slot (h : PageTables V W L s) {pd i : ℕ} (hw : (pd, i) ∈ W) :
    readWord s.bytes (pd + 4 * i) = s.mem (slotAddr (pd, i)) % 2 ^ 32 := by
  obtain ⟨hdvd, hlt, hi, -⟩ := h.dir _ hw
  refine readWord_bytes (Nat.dvd_add ((by norm_num : 4 ∣ 4096).trans hdvd) (Dvd.intro i rfl)) ?_
  exact wordAddr_lt hdvd hlt hi

theorem getEntryAddr_mod (w : ℕ) : getEntryAddr (w % 2 ^ 32) = getEntryAddr w :=
  mod_two_pow_and (by decide : highMask 12 < 2 ^ 32)

theorem flagIsSet_mod (w : ℕ) {f : ℕ} (hf : f < 2 ^ 32) :
    flagIsSet (w % 2 ^ 32) f = flagIsSet w f := by
  unfold flagIsSet
  rw [mod_two_pow_and hf]

theorem hasFlags_mod (w : ℕ) {f : ℕ} (hf : f < 2 ^ 32) : hasFlags (w % 2 ^ 32) f = hasFlags w f := by
  unfold hasFlags
  rw [mod_two_pow_and hf]

/-- The tables that `usercopy` walks are linearly mapped. -/
theorem PageTables.tablesLinear (h : PageTables V W L s) {pd : ℕ}
    (hpd : ∀ i < userPdes, (pd, i) ∈ W) : TablesLinear s.bytes pd := by
  intro i hi hpres
  rw [h.readWord_slot (hpd i hi), flagIsSet_mod _ (by decide)] at hpres
  rw [h.readWord_slot (hpd i hi), getEntryAddr_mod]
  exact (h.table _ (hpd i hi) hpres).1

/-- A page has flags with the present bit among them if it is mapped and both entries have them. -/
theorem PageTables.pageHas_iff (h : PageTables V W L s) {pd q flags : ℕ} (hw : (pd, q / 1024) ∈ W)
    (hf : flags < 2 ^ 32) :
    PageHas s.bytes pd (flags ||| pdePresentBit) (flags ||| ptePresentBit) q ↔
      ∃ e, entryAt s pd q = some e ∧ hasFlags (s.mem (slotAddr (pd, q / 1024))) flags = true ∧
        hasFlags e flags = true := by
  have hf' : flags ||| pdePresentBit < 2 ^ 32 := Nat.or_lt_two_pow hf (by decide)
  unfold PageHas entryAt pte
  rw [h.readWord_slot hw, getEntryAddr_mod, hasFlags_mod _ hf', hasFlags_or, hasFlags_present]
  cases hpres : slotPresent s (pd, q / 1024) with
  | false =>
    have habs : flagIsSet (s.mem (slotAddr (pd, q / 1024))) pdePresentBit = false := hpres
    simp [habs]
  | true =>
    have hset : flagIsSet (s.mem (slotAddr (pd, q / 1024))) pdePresentBit = true := hpres
    have hlow := (h.table _ hw hpres).1
    have htable : getEntryAddr (s.mem (slotAddr (pd, q / 1024))) = tableOf s (pd, q / 1024) := rfl
    have hmod : q % 1024 < 1024 := Nat.mod_lt q (by norm_num)
    have hread : readWord s.bytes (tableOf s (pd, q / 1024) + 4 * (q % 1024)) =
        s.mem (tableOf s (pd, q / 1024) + 4 * (q % 1024)) % 2 ^ 32 := by
      refine readWord_bytes (Nat.dvd_add ((by norm_num : 4 ∣ 4096).trans (tableOf_dvd s _))
        (Dvd.intro _ rfl)) ?_
      exact wordAddr_lt (tableOf_dvd s _) hlow hmod
    have hpte : hasFlags (s.mem (tableOf s (pd, q / 1024) + 4 * (q % 1024)))
        (flags ||| ptePresentBit) = (hasFlags (s.mem (tableOf s (pd, q / 1024) + 4 * (q % 1024)))
          flags && flagIsSet (s.mem (tableOf s (pd, q / 1024) + 4 * (q % 1024))) ptePresentBit) := by
      rw [hasFlags_or]
      exact congrArg (_ && ·) (hasFlags_present _)
    rw [htable, hread, hasFlags_mod _ (Nat.or_lt_two_pow hf (by decide)), hpte, hset]
    simp only [Bool.true_and, Bool.and_true, Bool.and_eq_true]
    constructor
    · rintro ⟨hpde, he, hp⟩
      exact ⟨_, if_pos hp, hpde, he⟩
    · rintro ⟨e, he, hpde, hflags⟩
      split at he
      · next hp =>
        obtain rfl := Option.some.inj he
        exact ⟨hpde, hflags, hp⟩
      · cases he

end Bytes

/-! ## Directory entries that let user code through -/

section Open

variable {σ : Type} {A : PageAlloc σ} {V : PageAlloc.View σ} {W L : Set (ℕ × ℕ)} {s s' : Phys σ}

/-- The slot is writable, and it is a user slot if one of its pages is a user page. -/
def OpenSlot (s : Phys σ) (w : ℕ × ℕ) : Prop :=
  slotPresent s w = true → flagIsSet (s.mem (slotAddr w)) pdeRwBit = true ∧
    ∀ j < 1024, ∀ e, pte s w j = some e → flagIsSet e pteUsBit = true →
      flagIsSet (s.mem (slotAddr w)) pdeUsBit = true

/-- The slots are as `vmm_map_page` writes them. -/
def OpenSlots (W : Set (ℕ × ℕ)) (s : Phys σ) : Prop := ∀ w ∈ W, OpenSlot s w

/-- A step that changes no entry of a slot to a user page keeps it open. -/
theorem OpenSlot.of_word {w : ℕ × ℕ} (h : OpenSlot s w)
    (hslot : s'.mem (slotAddr w) = s.mem (slotAddr w))
    (hpte : ∀ j < 1024, ∀ e, pte s' w j = some e → flagIsSet e pteUsBit = true →
      pte s w j = some e ∨ flagIsSet (s.mem (slotAddr w)) pdeUsBit = true) : OpenSlot s' w := by
  intro hpres
  have hpres : slotPresent s w = true := by
    unfold slotPresent at hpres ⊢
    rwa [hslot] at hpres
  obtain ⟨hrw, hus⟩ := h hpres
  rw [hslot]
  refine ⟨hrw, fun j hj e he hflag => ?_⟩
  rcases hpte j hj e he hflag with hold | hset
  · exact hus j hj e hold hflag
  · exact hset

/-- The entry that `vmm_map_page` writes is a user page only if the flags say so. -/
theorem flagIsSet_us {p flags : ℕ} (hp : 4096 ∣ p) (h : flagIsSet (p ||| flags) pteUsBit = true) :
    flagIsSet flags pdeUsBit = true := by
  rw [flagIsSet_or, flagIsSet_of_dvd hp (by decide), Bool.false_or] at h
  exact h

/-- The words that `vmm_map_page` leaves in slots. -/
theorem PageTables.vmmMapPage_slot (hA : A.Lawful V) (h : PageTables V W L s) {pd v p flags : ℕ}
    (hw : (pd, getPdeIndex v) ∈ W) {ok : Bool} (hrun : vmmMapPage A pd v p flags s = .ok (ok, s')) :
    (∀ w ∈ W, w ≠ (pd, getPdeIndex v) → s'.mem (slotAddr w) = s.mem (slotAddr w)) ∧
    ((s'.mem (slotAddr (pd, getPdeIndex v)) = s.mem (slotAddr (pd, getPdeIndex v)) ∧
      (ok = true → slotPresent s (pd, getPdeIndex v) = true ∧
        (flagIsSet flags pdeUsBit = true →
          flagIsSet (s.mem (slotAddr (pd, getPdeIndex v))) pdeUsBit = true))) ∨
     (slotPresent s (pd, getPdeIndex v) = true ∧ flagIsSet flags pdeUsBit = true ∧
       s'.mem (slotAddr (pd, getPdeIndex v)) = s.mem (slotAddr (pd, getPdeIndex v)) ||| pdeUsBit) ∨
     (slotPresent s (pd, getPdeIndex v) = false ∧ ∃ pt, 4096 ∣ pt ∧
       s'.mem (slotAddr (pd, getPdeIndex v)) =
         pt ||| pdePresentBit ||| pdeRwBit ||| (flags &&& pdeUsBit))) := by
  have hj := getPteIndex_lt v
  -- a slot is no entry of a table
  have hentry : slotPresent s (pd, getPdeIndex v) = true → ∀ w ∈ W,
      slotAddr w ≠ tableOf s (pd, getPdeIndex v) + 4 * getPteIndex v :=
    fun hpres w hw' => h.slotAddr_ne hw hpres hw' hj
  have hslot : ∀ w ∈ W, w ≠ (pd, getPdeIndex v) → slotAddr w ≠ slotAddr (pd, getPdeIndex v) :=
    fun w hw' hne heq => hne (h.slotAddr_inj hw' hw heq)
  cases vmmMapPage_writes hrun with
  | noTable => exact ⟨fun w hw' hne => rfl, Or.inl ⟨rfl, fun hc => (nomatch hc)⟩⟩
  | @newTable a pt habs halloc hne hlow =>
    obtain ⟨q, hq, hfree⟩ : ∃ q, pt = q * 4096 ∧ q ∈ V.free s.alloc := by
      rcases hA.alloc h.inv pageSize .lowmem with hnull | ⟨q, a', hok, ht⟩
      · exact absurd (Prod.mk.inj (Except.ok.inj (hnull.symm.trans halloc))).1.symm hne
      · refine ⟨q, (Prod.mk.inj (Except.ok.inj (halloc.symm.trans hok))).1, ?_⟩
        exact ht.subset (self_mem_block q _)
    have hdvd : 4096 ∣ pt := hq ▸ Dvd.intro_left q rfl
    -- the page of the new table holds no slot
    have hpage : ∀ w ∈ W, ¬ (pt ≤ slotAddr w ∧ slotAddr w < pt + pageSize) := by
      intro w hw' hc
      obtain ⟨hal, -, hi, -⟩ := h.dir w hw'
      exact (h.free_ne hA hfree).1 w hw' (((wordAddr_mem_page hal hdvd hi).mp hc).trans hq)
    have hword : ∀ w ∈ W, slotAddr w ≠ pt + 4 * getPteIndex v := by
      intro w hw' heq
      refine hpage w hw' ?_
      unfold pageSize
      omega
    refine ⟨fun w hw' hne' => ?_, Or.inr (Or.inr ⟨habs, pt, hdvd, ?_⟩)⟩
    · rw [Phys.write_mem, if_neg (hword w hw'), Phys.write_mem, if_neg (hslot w hw' hne'),
        Phys.zeroPage_mem, if_neg (hpage w hw')]
    · rw [Phys.write_mem, if_neg (hword _ hw), Phys.write_mem, if_pos rfl]
  | userTable hpres hus hno =>
    refine ⟨fun w hw' hne => ?_, Or.inr (Or.inl ⟨hpres, hus, ?_⟩)⟩
    · rw [Phys.write_mem, if_neg (hentry hpres w hw'), Phys.write_mem, if_neg (hslot w hw' hne)]
    · rw [Phys.write_mem, if_neg (hentry hpres _ hw), Phys.write_mem, if_pos rfl]
  | table hpres hus =>
    refine ⟨fun w hw' hne => ?_, Or.inl ⟨?_, fun _ => ⟨hpres, hus⟩⟩⟩
    · rw [Phys.write_mem, if_neg (hentry hpres w hw')]
    · rw [Phys.write_mem, if_neg (hentry hpres _ hw)]

/-- **`vmm_map_page` keeps slots open.** -/
theorem OpenSlots.vmmMapPage (hA : A.Lawful V) (h : PageTables V W L s) (hopen : OpenSlots W s)
    {pd v p flags : ℕ} (hw : (pd, v / 4096 / 1024) ∈ W)
    (hflag : flagIsSet flags ptePresentBit = true) (hp : 4096 ∣ p) {ok : Bool}
    (hrun : vmmMapPage A pd v p flags s = .ok (ok, s')) : OpenSlots W s' := by
  rw [← getPdeIndex_eq] at hw
  rcases h.vmmMapPage_spec (p := p) hA hw hflag with ⟨hfail, -⟩ | ⟨s₁, hok, -, -, hpte⟩
  · obtain ⟨-, rfl⟩ := Prod.mk.inj (Except.ok.inj (hfail.symm.trans hrun))
    exact hopen
  obtain ⟨rfl, rfl⟩ := Prod.mk.inj (Except.ok.inj (hok.symm.trans hrun))
  obtain ⟨hother, hself⟩ := h.vmmMapPage_slot hA hw hrun
  intro w hw'
  by_cases hww : w = (pd, getPdeIndex v)
  · subst hww
    have hentry : ∀ j < 1024, ∀ e, pte s₁ (pd, getPdeIndex v) j = some e →
        flagIsSet e pteUsBit = true →
        pte s (pd, getPdeIndex v) j = some e ∨ flagIsSet flags pdeUsBit = true := by
      intro j hj e he hus
      rw [hpte _ hw j hj] at he
      split at he
      · obtain rfl := Option.some.inj he
        exact Or.inr (flagIsSet_us hp hus)
      · exact Or.inl he
    rcases hself with ⟨hword, hsame⟩ | ⟨hpres, hus, hword⟩ | ⟨habs, pt, hdvd, hword⟩
    · refine (hopen _ hw).of_word hword fun j hj e he hus => ?_
      exact (hentry j hj e he hus).imp id (hsame rfl).2
    · intro _
      rw [hword, flagIsSet_or, flagIsSet_or]
      refine ⟨by rw [((hopen _ hw) hpres).1, Bool.true_or], fun j hj e _ _ => ?_⟩
      rw [show flagIsSet pdeUsBit pdeUsBit = true by decide, Bool.or_true]
    · intro _
      have hbits : ∀ f < 4096, flagIsSet (pt ||| pdePresentBit ||| pdeRwBit ||| (flags &&& pdeUsBit))
          f = (flagIsSet pdePresentBit f || flagIsSet pdeRwBit f || flagIsSet (flags &&& pdeUsBit) f) := by
        intro f hf
        rw [flagIsSet_or, flagIsSet_or, flagIsSet_or, flagIsSet_of_dvd hdvd hf, Bool.false_or]
      rw [hword, hbits _ (by decide), hbits _ (by decide)]
      refine ⟨by rw [show flagIsSet pdeRwBit pdeRwBit = true by decide]; simp, fun j hj e he hus => ?_⟩
      rcases hentry j hj e he hus with hold | hus
      · rw [pte_of_absent habs] at hold
        cases hold
      · have hmask : flagIsSet (flags &&& pdeUsBit) pdeUsBit = flagIsSet flags pdeUsBit := by
          unfold flagIsSet
          rw [Nat.and_assoc, Nat.and_self]
        rw [hmask, hus, Bool.or_true]
  · refine (hopen w hw').of_word (hother w hw' hww) fun j hj e he _ => Or.inl ?_
    rw [hpte w hw' j hj, if_neg fun hc => hww hc.1] at he
    exact he

/-- **`vmm_unmap_page` keeps slots open.** -/
theorem OpenSlots.vmmUnmapPage (hA : A.Lawful V) (h : PageTables V W L s) (hopen : OpenSlots W s)
    {pd v : ℕ} (hw : (pd, v / 4096 / 1024) ∈ W) {ok : Bool}
    (hrun : vmmUnmapPage A pd v s = .ok (ok, s')) : OpenSlots W s' := by
  rw [← getPdeIndex_eq] at hw
  have hj := getPteIndex_lt v
  have hwrites := vmmUnmapPage_writes hrun
  rcases h.vmmUnmapPage_spec hA hw with ⟨hfail, -⟩ | ⟨s₁, hok, -, hmapped, -, -, -, hpte⟩
  · obtain ⟨-, rfl⟩ := Prod.mk.inj (Except.ok.inj (hfail.symm.trans hrun))
    exact hopen
  obtain ⟨rfl, rfl⟩ := Prod.mk.inj (Except.ok.inj (hok.symm.trans hrun))
  have hentry : ∀ w ∈ W, slotAddr w ≠ tableOf s (pd, getPdeIndex v) + 4 * getPteIndex v :=
    fun w hw' => h.slotAddr_ne hw (slotPresent_of_pte hmapped) hw' hj
  have hold : ∀ w ∈ W, ∀ j < 1024, ∀ e, pte s₁ w j = some e → pte s w j = some e := by
    intro w hw' j hj' e he
    rw [hpte w hw' j hj'] at he
    split at he
    · cases he
    · exact he
  intro w hw'
  cases hwrites with
  | entry _ _ _ _ =>
    refine (hopen w hw').of_word ?_ fun j hj' e he _ => Or.inl (hold w hw' j hj' e he)
    rw [Phys.write_mem, if_neg (hentry w hw')]
  | last _ _ _ =>
    by_cases hww : w = (pd, getPdeIndex v)
    · -- the slot is gone
      intro hpres'
      unfold slotPresent at hpres'
      rw [hww] at hpres'
      simp only [Phys.write_mem, if_true, flagIsSet_zero] at hpres'
      cases hpres'
    · refine (hopen w hw').of_word ?_ fun j hj' e he _ => Or.inl (hold w hw' j hj' e he)
      have hne : slotAddr w ≠ slotAddr (pd, getPdeIndex v) := fun heq =>
        hww (h.slotAddr_inj hw' hw heq)
      simp only [Phys.write_mem, if_neg hne, if_neg (hentry w hw')]

/-- **Page-table calls keep slots open.** -/
theorem OpenSlots.pageCall (hopen : OpenSlots W s) (h : PageCall A W s s') : OpenSlots W s' := by
  cases h with
  | quiet hmem =>
    intro w hw
    refine (hopen w hw).of_word (by rw [hmem]) fun j hj e he _ => Or.inl ?_
    rw [← he]
    exact ((SameSlot.of_mem hmem w).entry j hj).symm
  | map hA htables hw hflag hp hrun => exact hopen.vmmMapPage hA htables hw hflag hp hrun
  | unmap hA htables hw hrun => exact hopen.vmmUnmapPage hA htables hw hrun

/-- Empty slots are open. -/
theorem OpenSlots.of_absent (h : ∀ w ∈ W, slotPresent s w = false) : OpenSlots W s := by
  intro w hw hpres
  rw [h w hw] at hpres
  cases hpres

end Open

/-! ## Runs -/

section Runs

variable {σ : Type} {V : PageAlloc.View σ} {K : KernelAlloc σ} {objs : σ → Set ℕ} {D : Set ℕ}
  {L : Set (ℕ × ℕ)} {O : Set ℕ} {pd start stop : ℕ} {r r' : AreaRun σ} {a : VmArea}

/-- The runs of a task on directories whose user halves `vmm_map_page` has written. -/
def userAreaSystem (K : KernelAlloc σ) (V : PageAlloc.View σ) (objs : σ → Set ℕ) (D : Set ℕ)
    (L : Set (ℕ × ℕ)) (O : Set ℕ) (pd start stop : ℕ) : System (AreaRun σ) AreaCall where
  init r := r.Initial V objs D L O pd start stop ∧ OpenSlots (userSlots D) r.phys
  step r call r' := call.Valid ∧ areaStep K.vmaEnv pd r call = .ok r'

/-- What holds in every state of such a run. -/
structure AreaRun.UserInv (V : PageAlloc.View σ) (objs : σ → Set ℕ) (D : Set ℕ) (L : Set (ℕ × ℕ))
    (O : Set ℕ) (pd start stop : ℕ) (r : AreaRun σ) : Prop extends r.Inv V objs D L O pd start stop where
  opened : OpenSlots (userSlots D) r.phys

/-- One call. -/
theorem AreaRun.UserInv.step (hK : K.Lawful V objs) (hpd : pd ∈ D) (hlow : stop ≤ kernelVaddrBase)
    (h : r.UserInv V objs D L O pd start stop) {call : AreaCall} (hvalid : call.Valid)
    (hrun : areaStep K.vmaEnv pd r call = .ok r') : r'.UserInv V objs D L O pd start stop where
  toInv := h.toInv.step hK hpd hlow hvalid hrun
  opened := by
    have hcalls := h.agree.areaStep_calls hK (fun i hi => ⟨hpd, hi⟩) hvalid hrun
    exact hcalls.keeps (fun hcall hopen => hopen.pageCall hcall) h.opened

theorem AreaRun.UserInv.of_reachable (hK : K.Lawful V objs) (hpd : pd ∈ D) (hstart : 4096 ∣ start)
    (hstop : 4096 ∣ stop) (hlt : start < stop) (hlow : stop ≤ kernelVaddrBase)
    (hr : (userAreaSystem K V objs D L O pd start stop).Reachable r) :
    r.UserInv V objs D L O pd start stop := by
  apply hr.invariant
  · intro r₀ hr₀
    exact ⟨AreaRun.Inv.of_initial hstart hstop hlt hlow hr₀.1, hr₀.2⟩
  · intro r₁ call r₂ h hstep
    exact h.step hK hpd hlow hstep.1 hstep.2

/-! ## What user code may touch -/

/-- The bits that a load needs, and a store if the area is writable. -/
def accessFlags (store : Bool) : ℕ := if store then pdeUsBit ||| pdeRwBit else pdeUsBit

theorem mmapFlags_us (prot : ℕ) : hasFlags (mmapFlags prot) pdeUsBit = true := by
  unfold mmapFlags
  split
  · decide
  · decide

theorem mmapFlags_rw {prot : ℕ} (h : flagIsSet prot protWrite = true) :
    hasFlags (mmapFlags prot) pdeRwBit = true := by
  unfold mmapFlags
  rw [if_pos h]
  decide

/-- Flags that an entry contains are flags of the entry. -/
theorem hasFlags_of_or {p e f : ℕ} (h : hasFlags e f = true) : hasFlags (p ||| e) f = true := by
  unfold hasFlags at h ⊢
  rw [beq_iff_eq] at h ⊢
  rw [Nat.and_or_distrib_right, h]
  apply Nat.eq_of_testBit_eq
  intro i
  rw [Nat.testBit_or, Nat.testBit_and]
  cases p.testBit i <;> cases f.testBit i <;> decide

/-- **User code may touch the pages of an allocated area**, and write to them if it is writable. -/
theorem AreaRun.UserInv.accessible (h : r.UserInv V objs D L O pd start stop) (hpd : pd ∈ D)
    (ha : a ∈ r.areas) (hstate : a.state = .allocated) {prot : ℕ} (hprot : a.pteFlags = mmapFlags prot)
    {u n : ℕ} (hlo : a.startVaddr ≤ u) (hhi : u + n ≤ a.startVaddr + a.size) (store : Bool)
    (hstore : store = true → flagIsSet prot protWrite = true) :
    Accessible r.phys.bytes pd (accessFlags store ||| pdePresentBit) u n := by
  have hpart := h.agree.hold.part a ha
  obtain ⟨p, hp⟩ := Option.ne_none_iff_exists'.mp ((h.agree.maps a ha).allocated hstate).1
  obtain ⟨-, hsize⟩ := hpart.length p hp
  refine ⟨hhi.trans hpart.low, fun v hv hvn => ?_⟩
  -- the page of the byte has an entry with the flags of the area
  obtain ⟨i, hi, hpage⟩ : ∃ i, i < a.nrPages ∧ v / 4096 = a.startVaddr / 4096 + i := by
    have hdvd := hpart.start
    exact ⟨v / 4096 - a.startVaddr / 4096, by omega, by omega⟩
  obtain ⟨-, hentry⟩ := ((h.agree.maps a ha).allocated hstate).2 i hi
  have hslot : (pd, v / 4096 / 1024) ∈ userSlots D := by
    rw [hpage]
    exact hpart.slot (W := userSlots D) (fun i hi => ⟨hpd, hi⟩) (hpart.covers_iff.mpr ⟨i, by omega, rfl⟩)
  rw [← hpage, hprot] at hentry
  obtain ⟨e, he⟩ : ∃ e, e = a.frames.getD i 0 ||| mmapFlags prot := ⟨_, rfl⟩
  rw [← he] at hentry
  have hus : hasFlags e pdeUsBit = true := he ▸ hasFlags_of_or (mmapFlags_us prot)
  have hpres : slotPresent r.phys (pd, v / 4096 / 1024) = true := by
    by_contra habs
    rw [entryAt, pte_of_absent (by simpa using habs)] at hentry
    cases hentry
  obtain ⟨hrw, hopen⟩ := h.opened _ hslot hpres
  have husPde := hopen _ (Nat.mod_lt (v / 4096) (by norm_num)) e hentry (hasFlags_us e ▸ hus)
  refine (h.agree.hold.tables.pageHas_iff hslot ?_).mpr ⟨e, hentry, ?_, ?_⟩
  · cases store <;> decide
  · cases store with
    | false => exact (hasFlags_us _).trans husPde
    | true =>
      show hasFlags _ (pdeUsBit ||| pdeRwBit) = true
      rw [hasFlags_or, hasFlags_us, hasFlags_rw, husPde, hrw]
      decide
  · cases store with
    | false => exact hus
    | true =>
      show hasFlags _ (pdeUsBit ||| pdeRwBit) = true
      rw [hasFlags_or, hus, he, hasFlags_of_or (mmapFlags_rw (hstore rfl))]
      decide

/-- The pages of a lazy area are not mapped. -/
theorem AreaRun.UserInv.not_accessible (h : r.UserInv V objs D L O pd start stop) (hpd : pd ∈ D)
    (ha : a ∈ r.areas) (hstate : a.state ≠ .allocated) {u n : ℕ} (hn : 0 < n)
    (hlo : a.startVaddr ≤ u) (hhi : u + n ≤ a.startVaddr + a.size) {flags : ℕ} (hf : flags < 2 ^ 32) :
    ¬ Accessible r.phys.bytes pd (flags ||| pdePresentBit) u n := by
  rintro ⟨-, hall⟩
  have hpart := h.agree.hold.part a ha
  have hdvd := hpart.start
  have hsize := hpart.size
  obtain ⟨i, hi, hpage⟩ : ∃ i, i * 4096 < a.size ∧ u / 4096 = a.startVaddr / 4096 + i :=
    ⟨u / 4096 - a.startVaddr / 4096, by omega, by omega⟩
  have hslot : (pd, u / 4096 / 1024) ∈ userSlots D := by
    rw [hpage]
    exact hpart.slot (W := userSlots D) (fun i hi => ⟨hpd, hi⟩) (hpart.covers_iff.mpr ⟨i, hi, rfl⟩)
  have hnone : entryAt r.phys pd (u / 4096) = none := by
    rw [hpage]
    refine hpart.unset i hi ?_
    have hzero := (h.agree.maps a ha).frames_eq_zero hstate
    by_cases hlen : i < a.frames.length
    · rw [List.getD_eq_getElem _ _ hlen]
      exact hzero _ (List.getElem_mem hlen)
    · exact List.getD_eq_default _ _ (not_lt.mp hlen)
  obtain ⟨e, he, -⟩ := (h.agree.hold.tables.pageHas_iff hslot hf).mp (hall u le_rfl (by omega))
  rw [hnone] at he
  cases he

/-- What user code may do with the bytes: load them, and store to them if the area is writable. -/
def UserAccesses (bytes : ℕ → ℕ) (cr3 prot u n : ℕ) : Prop :=
  Accessible bytes cr3 (accessFlags false ||| pdePresentBit) u n ∧
  (flagIsSet prot protWrite = true → Accessible bytes cr3 (accessFlags true ||| pdePresentBit) u n)

theorem AreaRun.UserInv.userAccesses (h : r.UserInv V objs D L O pd start stop) (hpd : pd ∈ D)
    (ha : a ∈ r.areas) (hstate : a.state = .allocated) {prot : ℕ} (hprot : a.pteFlags = mmapFlags prot)
    {u n : ℕ} (hlo : a.startVaddr ≤ u) (hhi : u + n ≤ a.startVaddr + a.size) :
    UserAccesses r.phys.bytes pd prot u n :=
  ⟨h.accessible hpd ha hstate hprot hlo hhi false fun hc => (nomatch hc),
    fun hwrite => h.accessible hpd ha hstate hprot hlo hhi true fun _ => hwrite⟩

/-- The area of a page fault is the one that contains the address, and it becomes an allocated
one. -/
theorem AreaRun.Inv.fault_area (hK : K.Lawful V objs) (h : r.Inv V objs D L O pd start stop)
    (hpd : pd ∈ D) (ha : a ∈ r.areas) {addr : ℕ} (hlo : a.startVaddr ≤ addr)
    (hhi : addr < a.startVaddr + a.size) (hrun : areaStep K.vmaEnv pd r (.fault addr) = .ok r') :
    ∃ b ∈ r'.areas, b.state = .allocated ∧ b.startVaddr = a.startVaddr ∧ b.size = a.size ∧
      b.pteFlags = a.pteFlags := by
  have hrun : (pageFaultHandler K.vmaEnv r.areas pd addr r.phys >>= fun out =>
    Except.ok { areas := out.1, phys := out.2 }) = .ok r' := hrun
  rw [bind_eq_ok] at hrun
  obtain ⟨⟨areas, s⟩, hcall, hrun⟩ := hrun
  obtain rfl := Except.ok.inj hrun
  unfold pageFaultHandler at hcall
  cases hfind : vmaFindByAddr addr r.areas with
  | none =>
    rw [hfind] at hcall
    cases hcall
  | some c =>
    rw [hfind] at hcall
    obtain ⟨hlist, hc⟩ := findArea_some hfind
    have hlist : c.toList = r.areas := hlist
    have hagree : AreasAgree V objs (userSlots D) L O pd (c.area :: c.others) r.phys :=
      h.agree.perm (hlist ▸ c.toList_perm)
    have hmem : c.area ∈ r.areas := hlist ▸ VmaCursor.mem_toList.mpr (Or.inr (Or.inl rfl))
    -- two areas that contain the address are one area
    have hlow := (h.agree.hold.part _ hmem).low
    have hbase : kernelVaddrBase < 2 ^ 32 := by decide
    simp only [Bool.and_eq_true, decide_eq_true_eq] at hc
    rw [add32_eq (by omega)] at hc
    obtain rfl : c.area = a := by
      rcases h.tiling.tiles.eq_or_disjoint hmem ha with heq | hdis | hdis
      · exact heq
      · omega
      · omega
    simp only at hcall
    split at hcall
    · next hlazy =>
      rw [bind_eq_ok] at hcall
      obtain ⟨⟨ok, area, s₁⟩, hmap, hcall⟩ := hcall
      have hmaps := hagree.maps c.area List.mem_cons_self
      obtain ⟨ptr, hpages⟩ := hmaps.lazy hlazy
      have hflag := (hmaps.flags (by rw [hlazy]; decide)).2
      obtain ⟨frames, rfl, -⟩ := hagree.hold.vmaMapArea_spec hK
        (fun i hi => (⟨hpd, hi⟩ : (pd, i) ∈ userSlots D)) hpages hflag hmap
      cases ok with
      | false => cases hcall
      | true =>
        obtain ⟨rfl, rfl⟩ := Prod.mk.inj (Except.ok.inj hcall)
        exact ⟨_, VmaCursor.mem_toList.mpr (Or.inr (Or.inl rfl)), rfl, rfl, rfl, rfl⟩
    · cases hcall

/-! ## The copies -/

/-- Both copies between the user range and the kernel buffer return 0, the one into user space if the
area may be written. -/
def CopiesSucceed (bytes : ℕ → ℕ) (cr3 prot k u n : ℕ) : Prop :=
  (∃ bytes', copyFromUser cr3 k u n bytes = .ok (0, bytes')) ∧
  (flagIsSet prot protWrite = true → ∃ bytes', copyToUser cr3 u k n bytes = .ok (0, bytes'))

/-- **User copies on areas.** In every state of every run, for every non-empty range inside an area
that `mmap` has made, and every kernel buffer that is mapped and shares no byte with the range: the
copies succeed exactly if the area has been touched. User code succeeds after the page fault that
maps the area. -/
theorem userCopies_iff_allocated (hK : K.Lawful V objs) (hpd : pd ∈ D) (hstart : 4096 ∣ start)
    (hstop : 4096 ∣ stop) (hlt : start < stop) (hlow : stop ≤ kernelVaddrBase)
    (hr : (userAreaSystem K V objs D L O pd start stop).Reachable r) (ha : a ∈ r.areas)
    {prot : ℕ} (hprot : a.pteFlags = mmapFlags prot) {k u n : ℕ} (hn : 0 < n)
    (hlo : a.startVaddr ≤ u) (hhi : u + n ≤ a.startVaddr + a.size)
    (hk : kernelVaddrBase ≤ k ∧ k + n ≤ 2 ^ 32)
    (hmapped : ∀ i < n, translate r.phys.bytes pd (k + i) ≠ none)
    (hapart : ∀ i < n, ∀ j < n,
      translate r.phys.bytes pd (k + i) ≠ translate r.phys.bytes pd (u + j)) :
    (CopiesSucceed r.phys.bytes pd prot k u n ↔ a.state = .allocated) ∧
    (a.state = .allocated → UserAccesses r.phys.bytes pd prot u n) ∧
    ∀ addr r', a.startVaddr ≤ addr → addr < a.startVaddr + a.size →
      areaStep K.vmaEnv pd r (.fault addr) = .ok r' → UserAccesses r'.phys.bytes pd prot u n := by
  have hinv := AreaRun.UserInv.of_reachable hK hpd hstart hstop hlt hlow hr
  refine ⟨?_, fun halloc => hinv.userAccesses hpd ha halloc hprot hlo hhi,
    fun addr r' haddr haddr' hrun => ?_⟩
  swap
  · have hvalid : (AreaCall.fault addr).Valid := trivial
    obtain ⟨b, hb, hstate, hbstart, hbsize, hbflags⟩ :=
      hinv.toInv.fault_area hK hpd ha haddr haddr' hrun
    exact (hinv.step hK hpd hlow hvalid hrun).userAccesses hpd hb hstate (hbflags.trans hprot)
      (by omega) (by omega)
  have hpart := hinv.agree.hold.part a ha
  have hend := hhi.trans hpart.low
  have hbase : kernelVaddrBase < 2 ^ 32 := by decide
  have htables := hinv.agree.hold.tables
  have hslots : ∀ i < userPdes, (pd, i) ∈ userSlots D := fun i hi => ⟨hpd, hi⟩
  obtain ⟨ret, bytes₁, hto, htoIff, -⟩ := usercopy_spec (k := k) (u := u) false (by omega)
    (by omega) (htables.dir _ (hslots 0 (by decide))).2.1 (htables.tablesLinear hslots) hk.2 hmapped
    hapart
  obtain ⟨ret', bytes₂, hfrom, hfromIff, -⟩ := usercopy_spec (k := k) (u := u) true (by omega)
    (by omega) (htables.dir _ (hslots 0 (by decide))).2.1 (htables.tablesLinear hslots) hk.2 hmapped
    hapart
  constructor
  · rintro ⟨⟨bytes', hcopy⟩, -⟩
    by_contra hno
    have hzero : ret' = 0 := (Prod.mk.inj (Except.ok.inj (hfrom.symm.trans hcopy))).1
    rcases hfromIff.mp hzero with hempty | hacc
    · omega
    · exact hinv.not_accessible hpd ha hno hn hlo hhi (by decide) hacc
  · intro halloc
    obtain ⟨hload, hstore⟩ := hinv.userAccesses hpd ha halloc hprot hlo hhi
    refine ⟨⟨bytes₂, ?_⟩, fun hwrite => ⟨bytes₁, ?_⟩⟩
    · rw [← hfromIff.mpr (Or.inr hload)]
      exact hfrom
    · rw [← htoIff.mpr (Or.inr (hstore hwrite))]
      exact hto

end Runs

/-! ### A run with a kernel buffer -/

/-- The machine of `freshAreas`, with the kernel page `0xC0006000` mapped to the frame `0x6000`. -/
def bufferedAreas : AreaRun (BuddyRun × BumpHeap) where
  areas := freshAreas.areas
  phys := { freshAreas.phys with
    mem := fun a => if a = 0x1C00 then 0x4003 else if a = 0x4018 then 0x6003 else 0 }

theorem bufferedAreas_initial : bufferedAreas.Initial (bumpView buddyView) bumpObjs {0x1000} ∅ ∅
    0x1000 0x10000 0x20000 ∧ OpenSlots (userSlots {0x1000}) bufferedAreas.phys := by
  obtain ⟨node, hnode, hareas, htables, -⟩ := freshAreas_initial
  -- the user half of the directory is empty
  have habs : ∀ w ∈ userSlots {0x1000}, bufferedAreas.phys.mem (slotAddr w) = 0 := by
    rintro ⟨pd, i⟩ ⟨rfl, hi⟩
    have hi : i < 768 := hi
    show (if 0x1000 + 4 * i = 0x1C00 then 0x4003 else if 0x1000 + 4 * i = 0x4018 then 0x6003 else 0) = 0
    rw [if_neg (by omega), if_neg (by omega)]
  have hslot : ∀ w ∈ userSlots {0x1000}, slotPresent bufferedAreas.phys w = slotPresent freshAreas.phys w ∧
      tableOf bufferedAreas.phys w = tableOf freshAreas.phys w := by
    intro w hw
    unfold slotPresent tableOf
    rw [habs w hw]
    exact ⟨rfl, rfl⟩
  have hnone : ∀ w ∈ userSlots {0x1000}, slotPresent bufferedAreas.phys w = false := by
    intro w hw
    unfold slotPresent
    rw [habs w hw, flagIsSet_zero]
  refine ⟨⟨node, hnode, hareas, htables.of_slots rfl hslot, fun n _ hn => ?_⟩, .of_absent hnone⟩
  unfold entryAt
  apply pte_of_absent
  apply hnone
  exact ⟨rfl, show n / 1024 < 768 by omega⟩

/-- A writable area is mapped lazily. -/
def untouchedArea : Kern (AreaRun (BuddyRun × BumpHeap)) :=
  areaStep (bumpKernel buddyPageAlloc).vmaEnv 0x1000 bufferedAreas (.mmap 0 5000 2)

/-- User code touches it. -/
def touchedArea : Kern (AreaRun (BuddyRun × BumpHeap)) := do
  let r ← untouchedArea
  areaStep (bumpKernel buddyPageAlloc).vmaEnv 0x1000 r (.fault 0x10800)

/-- What the copies of one byte between `0x10000` and `0xC0006000` depend on, and what
`copy_from_user` returns. -/
def copyView (r : AreaRun (BuddyRun × BumpHeap)) :
    List (VmAreaState × ℕ × ℕ × ℕ) × Option ℕ × Option ℕ × Option ℕ :=
  (r.areas.map fun a => (a.state, a.startVaddr, a.size, a.pteFlags),
    translate r.phys.bytes 0x1000 0xC0006000, translate r.phys.bytes 0x1000 0x10000,
    (copyFromUser 0x1000 0xC0006000 0x10000 1 r.phys.bytes).toOption.map Prod.fst)

theorem untouchedArea_view : untouchedArea.toOption.map copyView =
    some ([(.lazy, 0x10000, 0x2000, 7), (.free, 0x12000, 0xE000, 0)], some 0x6000, none,
      some 0xFFFFFFFF) := by
  decide +kernel

theorem touchedArea_view : touchedArea.toOption.map copyView =
    some ([(.allocated, 0x10000, 0x2000, 7), (.free, 0x12000, 0xE000, 0)], some 0x6000,
      some 0x38000000, some 0) := by
  decide +kernel

/-- The area that the run has made. -/
theorem exists_area {r : AreaRun (BuddyRun × BumpHeap)} {state : VmAreaState} {b : VmAreaState × ℕ × ℕ × ℕ}
    (h : (r.areas.map fun a => (a.state, a.startVaddr, a.size, a.pteFlags)) =
      [(state, 0x10000, 0x2000, 7), b]) :
    ∃ a ∈ r.areas, a.state = state ∧ a.startVaddr = 0x10000 ∧ a.size = 0x2000 ∧ a.pteFlags = 7 := by
  have hmem : (state, 0x10000, 0x2000, 7) ∈
      r.areas.map fun a => (a.state, a.startVaddr, a.size, a.pteFlags) := by
    rw [h]
    exact List.mem_cons_self
  obtain ⟨a, ha, heq⟩ := List.mem_map.mp hmem
  simp only [Prod.mk.injEq] at heq
  exact ⟨a, ha, heq⟩

/-- The buffer is mapped, and shares no byte with the user page. -/
theorem copyView_apart {bytes : ℕ → ℕ} {p : Option ℕ}
    (hk : translate bytes 0x1000 0xC0006000 = some 0x6000) (hu : translate bytes 0x1000 0x10000 = p)
    (hne : some 0x6000 ≠ p) :
    (∀ i < 1, translate bytes 0x1000 (0xC0006000 + i) ≠ none) ∧
    ∀ i < 1, ∀ j < 1, translate bytes 0x1000 (0xC0006000 + i) ≠ translate bytes 0x1000 (0x10000 + j) := by
  refine ⟨fun i hi => ?_, fun i hi j hj => ?_⟩
  · obtain rfl : i = 0 := Nat.lt_one_iff.mp hi
    rw [Nat.add_zero, hk]
    exact Option.some_ne_none _
  · obtain rfl : i = 0 := Nat.lt_one_iff.mp hi
    obtain rfl : j = 0 := Nat.lt_one_iff.mp hj
    rw [Nat.add_zero, Nat.add_zero, hk, hu]
    exact hne

/-- The runs of that machine. -/
abbrev bufferedSystem : System (AreaRun (BuddyRun × BumpHeap)) AreaCall :=
  userAreaSystem (bumpKernel buddyPageAlloc) (bumpView buddyView) bumpObjs {0x1000} ∅ ∅ 0x1000 0x10000
    0x20000

theorem userCopies_iff_allocated_touchedArea : ∃ r, bufferedSystem.Reachable r ∧
    ∃ a ∈ r.areas, a.state = .allocated ∧
      CopiesSucceed r.phys.bytes 0x1000 2 0xC0006000 0x10000 1 := by
  obtain ⟨r, hr, hview⟩ := Option.map_eq_some_iff.mp touchedArea_view
  simp only [copyView, Prod.mk.injEq] at hview
  obtain ⟨hareas, hk, hu, -⟩ := hview
  obtain ⟨r₁, h₁, h₂⟩ := bind_eq_ok.mp (eq_ok_of_toOption hr)
  have hvalid₁ : (AreaCall.mmap 0 5000 2).Valid := trivial
  have hvalid₂ : (AreaCall.fault 0x10800).Valid := trivial
  have hreach : bufferedSystem.Reachable r :=
    .step (.step (.init bufferedAreas_initial) ⟨hvalid₁, h₁⟩) ⟨hvalid₂, h₂⟩
  obtain ⟨a, ha, hstate, hstart, hsize, hflags⟩ := exists_area hareas
  obtain ⟨hmapped, hapart⟩ := copyView_apart hk hu (by decide)
  refine ⟨r, hreach, a, ha, hstate, ?_⟩
  exact (userCopies_iff_allocated (bumpKernel_lawful buddyPageAlloc_lawful) (Set.mem_singleton _)
    (by decide) (by decide) (by decide) (by decide) hreach ha (hflags.trans (by decide))
    Nat.zero_lt_one (by omega) (by omega) (by decide) hmapped hapart).1.mpr hstate

/-- A byte of a lazy area that has not been touched cannot be copied from. -/
theorem not_userCopies : ¬ ∀ (r : AreaRun (BuddyRun × BumpHeap)) (a : VmArea) (prot k u n : ℕ),
    bufferedSystem.Reachable r → a ∈ r.areas → a.state ≠ .free → a.pteFlags = mmapFlags prot →
    0 < n → a.startVaddr ≤ u → u + n ≤ a.startVaddr + a.size →
    kernelVaddrBase ≤ k ∧ k + n ≤ 2 ^ 32 →
    (∀ i < n, translate r.phys.bytes 0x1000 (k + i) ≠ none) →
    (∀ i < n, ∀ j < n,
      translate r.phys.bytes 0x1000 (k + i) ≠ translate r.phys.bytes 0x1000 (u + j)) →
    CopiesSucceed r.phys.bytes 0x1000 prot k u n := by
  intro hall
  obtain ⟨r, hr, hview⟩ := Option.map_eq_some_iff.mp untouchedArea_view
  simp only [copyView, Prod.mk.injEq] at hview
  obtain ⟨hareas, hk, hu, hret⟩ := hview
  have hvalid : (AreaCall.mmap 0 5000 2).Valid := trivial
  have hreach : bufferedSystem.Reachable r :=
    .step (.init bufferedAreas_initial) ⟨hvalid, eq_ok_of_toOption hr⟩
  obtain ⟨a, ha, hstate, hstart, hsize, hflags⟩ := exists_area hareas
  obtain ⟨hmapped, hapart⟩ := copyView_apart hk hu (by decide)
  obtain ⟨⟨bytes', hcopy⟩, -⟩ := hall r a 2 0xC0006000 0x10000 1 hreach ha (by rw [hstate]; decide)
    (hflags.trans (by decide)) Nat.zero_lt_one (by omega) (by omega) (by decide) hmapped hapart
  rw [hcopy] at hret
  cases hret

end Kfs.Memory
