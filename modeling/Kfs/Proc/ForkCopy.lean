import Kfs.Memory.SlotFrames
import Kfs.Proc.DirectorySpec
import Kfs.Proc.FreshFrames

/-!
# The address space that `fork` copies

`sys_fork` walks the user half of the parent's directory with two nested loops. For each directory
entry that is present the child gets a table, and for each page there a frame: the frame is mapped at
the kernel window of the parent, which may take a table of its own and give it back, then into the
half-built child, and the page is copied through the two mappings. The invariant of the loops relates
memory to what it was when they started, up to the entry that they have come to.
-/

namespace Kfs.Userspace

open Kfs.Lib Kfs.Lib.Word32 Kfs.Lib.Dyadic Kfs.Memory

section Fork

variable {σ : Type} {K : KernelAlloc σ} {V : PageAlloc.View σ} {objs : σ → Set ℕ} {O : Set ℕ}
  {W L : Set (ℕ × ℕ)} {s s' s₀ : Phys σ}

/-- **The page-table invariant of a user half**: its slots and the one of the kernel window are in
order, every frame lies in a block that others do not look after as a directory or a table, and a
page of the user lies in a table of the user. -/
structure UserHalf (W L : Set (ℕ × ℕ)) (pd : ℕ) (s : Phys σ) : Prop where
  slots : ∀ i < userPdes, (pd, i) ∈ W
  window : (pd, 1023) ∈ W
  frames : ∀ n < userPdes * 1024, ∀ e, entryAt s pd n = some e →
    ∀ off < 4096, HeldCell W L (getEntryAddr e + off)
  user : ∀ n < userPdes * 1024, ∀ e, entryAt s pd n = some e → flagIsSet e pteUsBit = true →
    flagIsSet (s.mem (slotAddr (pd, n / 1024))) pdeUsBit = true

/-! ## One page -/

/-- The slots that `fork` works on. -/
structure ForkSlots (W : Set (ℕ × ℕ)) (current new : ℕ) : Prop where
  parent : ∀ i < userPdes, (current, i) ∈ W
  window : (current, 1023) ∈ W
  child : ∀ i < userPdes, (new, i) ∈ W
  ne : current ≠ new

/-- What the copy of page `n` with entry `e` has done: the page is at frame `p * 4096`. -/
structure NewPage (V : PageAlloc.View σ) (W L : Set (ℕ × ℕ)) (current new n e p : ℕ)
    (s s' : Phys σ) : Prop where
  tables : PageTables V W (insert (p, 0) L) s'
  kept : Kept V W L {(current, 1023), (new, n / 1024)} s s'
  free : p ∈ V.free s.alloc
  high : highmemStart ≤ p * 4096
  lt : p < maxPages
  pde : s'.mem (slotAddr (new, n / 1024)) = s.mem (slotAddr (new, n / 1024))
  entry : ∀ m < userPdes * 1024, entryAt s' new m =
    if m = n then some (p * 4096 ||| getEntryFlags e) else entryAt s new m
  bytes : ∀ off < 4096, s'.mem (p * 4096 + off) = s.mem (getEntryAddr e + off)

/-- `vmm_map_page` leaves a slot alone that is present and lets the user in where it is to. -/
theorem MapWrites.slot_word {A : PageAlloc σ} {pd v p flags : ℕ} {ok : Bool}
    (h : PageTables V W L s) (hw : (pd, getPdeIndex v) ∈ W)
    (hpres : slotPresent s (pd, getPdeIndex v) = true)
    (hus : flagIsSet flags pdeUsBit = true →
      flagIsSet (s.mem (slotAddr (pd, getPdeIndex v))) pdeUsBit = true)
    (hrun : MapWrites A pd v p flags s ok s') :
    s'.mem (slotAddr (pd, getPdeIndex v)) = s.mem (slotAddr (pd, getPdeIndex v)) := by
  cases hrun with
  | noTable habs => exact absurd (hpres.symm.trans habs) (by decide)
  | newTable habs => exact absurd (hpres.symm.trans habs) (by decide)
  | userTable _ hflag hno => exact absurd ((hus hflag).symm.trans hno) (by decide)
  | table =>
    rw [Phys.write_mem, if_neg]
    exact h.slotAddr_ne hw hpres hw (getPteIndex_lt v)

/-- The flags of an entry determine what is set below the page size. -/
theorem flagIsSet_getEntryFlags (e : ℕ) {flag : ℕ} (hflag : 0xFFF &&& flag = flag) :
    flagIsSet (getEntryFlags e) flag = flagIsSet e flag := by
  unfold flagIsSet getEntryFlags
  rw [Nat.and_assoc, hflag]

/-- The calls of `sys_fork` that copy a page, one after the other; `flags` are those of the page. -/
structure PageCalls (K : KernelAlloc σ) (current new vaddr flags page dst src : ℕ)
    (s s₁ s₂ s₃ s' : Phys σ) : Prop where
  alloc : K.allocOn pageSize .highmem s = .ok (page, s₁)
  ne_zero : page ≠ 0
  kmap : vmmKmap K.toPageAlloc current page s₁ = .ok (vmmKmapVaddr, s₂)
  map : vmmMapPage K.toPageAlloc new vaddr page flags s₂ = .ok (true, s₃)
  window : accessAt current vmmKmapVaddr s₃ = .ok dst
  source : accessAt current vaddr s₃ = .ok src
  kunmap : vmmKunmap K.toPageAlloc current (s₃.memcpy dst src pageSize) = .ok s'

theorem forkPage_calls (hA : K.toPageAlloc.Lawful V) (h : PageTables V W L s)
    {current new i j e : ℕ} (hslots : ForkSlots W current new) (hi : i < userPdes) (hj : j < 1024)
    (he : pte s (current, i) j = some e)
    (hrun : forkPage K current new (tableOf s (current, i)) i s j = .ok (true, s')) :
    ∃ page dst src s₁ s₂ s₃, PageCalls K current new ((i <<< 22) ||| (j <<< 12)) (getEntryFlags e)
      page dst src s s₁ s₂ s₃ s' := by
  obtain ⟨-, hword, hset⟩ := pte_word he
  unfold forkPage at hrun
  rw [hword, if_pos hset] at hrun
  rw [bind_eq_ok] at hrun
  obtain ⟨⟨page, s₁⟩, halloc, hrun⟩ := hrun
  dsimp only at hrun
  split at hrun
  · cases (Prod.mk.inj (Except.ok.inj hrun)).1
  · next hpne =>
    rw [bind_eq_ok] at hrun
    obtain ⟨⟨window, s₂⟩, hkmap, hrun⟩ := hrun
    dsimp only at hrun
    split at hrun
    · obtain ⟨s₃, -, hrun⟩ := bind_eq_ok.mp hrun
      cases (Prod.mk.inj (Except.ok.inj hrun)).1
    · next hwne =>
      -- the window does not touch the entry of the parent
      obtain ⟨p, rfl, hblk⟩ := h.alloc_ok hA halloc hpne
      have he₁ : pte s₁ (current, i) j = some e := ((SameSlot.of_mem hblk.mem _).entry j hj).trans he
      obtain ⟨-, -, hword₂⟩ := kmap_word hA hblk.tables hslots.window (hslots.parent i hi) hi hj hkmap
        hwne he₁
      rw [tableOf_congr hblk.mem] at hword₂
      rw [hword₂] at hrun
      obtain ⟨rfl, -⟩ := hblk.tables.kmap_slots hA hslots.window hkmap hwne
      rw [bind_eq_ok] at hrun
      obtain ⟨⟨ok, s₃⟩, hmap, hrun⟩ := hrun
      cases ok with
      | false =>
        obtain ⟨s₄, -, hrun⟩ := bind_eq_ok.mp hrun
        obtain ⟨s₅, -, hrun⟩ := bind_eq_ok.mp hrun
        cases (Prod.mk.inj (Except.ok.inj hrun)).1
      | true =>
        simp only [Bool.not_true, Bool.false_eq_true, if_false] at hrun
        rw [bind_eq_ok] at hrun
        obtain ⟨dst, hdst, hrun⟩ := hrun
        rw [bind_eq_ok] at hrun
        obtain ⟨src, hsrc, hrun⟩ := hrun
        rw [bind_eq_ok] at hrun
        obtain ⟨s₄, hkunmap, hrun⟩ := hrun
        obtain ⟨-, rfl⟩ := Prod.mk.inj (Except.ok.inj hrun)
        exact ⟨_, dst, src, s₁, s₂, s₃, halloc, hpne, hkmap, hmap, hdst, hsrc, hkunmap⟩

/-- What the calls have done before the copy: the window leads to the new frame, and the child's page
does too. -/
structure PageOpen (V : PageAlloc.View σ) (W L : Set (ℕ × ℕ)) (current new n e p : ℕ)
    (s s' : Phys σ) : Prop where
  tables : PageTables V W (insert (p, 0) L) s'
  kept : Kept V W L {(current, 1023), (new, n / 1024)} s s'
  pde : s'.mem (slotAddr (new, n / 1024)) = s.mem (slotAddr (new, n / 1024))
  entry : ∀ pd m, (pd, m / 1024) ∈ W → m < userPdes * 1024 → entryAt s' pd m =
    if pd = new ∧ m = n then some (p * 4096 ||| getEntryFlags e) else entryAt s pd m
  access : ∀ {frame}, accessAt current vmmKmapVaddr s' = .ok frame → frame = p * 4096

variable {current new : ℕ}

/-- The slots that a page copy edits. -/
theorem ForkSlots.edited (h : ForkSlots W current new) (i : ℕ) :
    {(current, 1023)} ⊆ W ∧ (new, i) ∉ ({(current, 1023)} : Set (ℕ × ℕ)) ∧
      {(current, 1023)} ⊆ ({(current, 1023), (new, i)} : Set (ℕ × ℕ)) ∧
      {(new, i)} ⊆ ({(current, 1023), (new, i)} : Set (ℕ × ℕ)) := by
  refine ⟨Set.singleton_subset_iff.mpr h.window, fun hc => ?_, by simp, by simp⟩
  exact h.ne (Prod.mk.inj hc).1.symm

/-- **The two mappings of a page copy.** -/
theorem PageCalls.pageOpen (hA : K.toPageAlloc.Lawful V) (h : PageTables V W L s)
    {n vaddr e p dst src : ℕ} {s₁ s₂ s₃ : Phys σ} (hslots : ForkSlots W current new)
    (hn : n < userPdes * 1024) (hv : vaddr / 4096 = n) (hset : flagIsSet e ptePresentBit = true)
    (hblk : NewBlock V W L s s₁ .highmem p 0) (hpres : slotPresent s (new, n / 1024) = true)
    (hus : flagIsSet e pteUsBit = true → flagIsSet (s.mem (slotAddr (new, n / 1024))) pdeUsBit = true)
    (hcalls : PageCalls K current new vaddr (getEntryFlags e) (p * 4096) dst src s s₁ s₂ s₃ s') :
    PageOpen V W L current new n e p s s₃ := by
  have hi : n / 1024 < userPdes := by omega
  have hslot : getPdeIndex vaddr = n / 1024 := by rw [getPdeIndex_eq, hv]
  have hnewW := hslots.child _ hi
  have hnewV : (new, getPdeIndex vaddr) ∈ W := by
    rw [hslot]
    exact hnewW
  have hnewV' : (new, vaddr / 4096 / 1024) ∈ W := by
    rw [hv]
    exact hnewW
  obtain ⟨hwin, hother, hsubWin, hsubNew⟩ := hslots.edited (n / 1024)
  have h₁ := hblk.tables
  have hwrites := vmmMapPage_writes hcalls.map
  obtain ⟨-, h₂, -, -⟩ := h₁.kmap_slots hA hslots.window hcalls.kmap (by decide)
  have hkept₁ : Kept V W L {(current, 1023), (new, n / 1024)} s s₁ := hA.allocOn_kept h.inv hcalls.alloc
  have hkept₂ := h₁.kmap_kept hA hslots.window hcalls.kmap
  have hkept₃ := MapWrites.kept hA h₂ hnewV hwrites
  rw [hslot] at hkept₃
  have hL : L ⊆ insert (p, 0) L := Set.subset_insert _ _
  have hopen := frameOpen hA h₁ hslots.window hnewV' (hv ▸ hn) (Dvd.intro_left _ rfl)
    (frame_lt (hblk.inTable p (self_mem_block p 0))) (getEntryFlags_present hset) hcalls.kmap
    (by decide) hcalls.map
  refine {
    tables := ?_
    kept := hkept₁.trans ((hkept₂.mono hsubWin hL).trans (hkept₃.mono hsubNew hL))
    pde := ?_
    entry := fun pd m hw hm => ?_
    access := hopen.access }
  · rcases h₂.of_mapWrites hA hnewV hwrites with ⟨hfail, -⟩ | ⟨-, h₃, -⟩
    · cases hfail
    · exact h₃
  · -- the slot of the child is present and lets the user in if the page does
    have hpde₂ : s₂.mem (slotAddr (new, n / 1024)) = s.mem (slotAddr (new, n / 1024)) := by
      rw [hkept₂.slot_word h₁ hwin hnewW hother, hblk.mem]
    have hpres₂ : slotPresent s₂ (new, n / 1024) = true := by
      unfold slotPresent at hpres ⊢
      rw [hpde₂]
      exact hpres
    rw [← hpde₂, ← hslot]
    rw [← hslot] at hpres₂ hpde₂
    apply MapWrites.slot_word h₂ hnewV hpres₂ _ hwrites
    intro hflag
    rw [hpde₂, hslot]
    apply hus
    exact (flagIsSet_getEntryFlags e (by decide)).symm.trans hflag
  · rw [hopen.entry pd m hw hm, hv, entryAt_congr hblk.mem]

/-- **The copy of one page.** -/
theorem forkPage_copies (hA : K.toPageAlloc.Lawful V) (h : PageTables V W L s) {i j e : ℕ}
    (hslots : ForkSlots W current new) (hi : i < userPdes) (hj : j < 1024)
    (he : pte s (current, i) j = some e)
    (hheld : ∀ off < 4096, HeldCell W L (getEntryAddr e + off))
    (hpres : slotPresent s (new, i) = true)
    (hus : flagIsSet e pteUsBit = true → flagIsSet (s.mem (slotAddr (new, i))) pdeUsBit = true)
    (hrun : forkPage K current new (tableOf s (current, i)) i s j = .ok (true, s')) :
    ∃ p, NewPage V W L current new (i * 1024 + j) e p s s' := by
  obtain ⟨page, dst, src, s₁, s₂, s₃, hcalls⟩ := forkPage_calls hA h hslots hi hj he hrun
  obtain ⟨hvaddr, hvdvd⟩ := forkVaddr_eq (i := i) hj
  generalize (i <<< 22) ||| (j <<< 12) = vaddr at hvaddr hvdvd hcalls
  have huser : i * 1024 + j < userPdes * 1024 := by omega
  have hidx : (i * 1024 + j) / 1024 = i ∧ (i * 1024 + j) % 1024 = j := by omega
  obtain ⟨p, rfl, hblk⟩ := h.alloc_ok hA hcalls.alloc hcalls.ne_zero
  rw [sizeToOrder_pageSize] at hblk
  have hself := self_mem_block p 0
  have hfree := hblk.subset hself
  have hopen := hcalls.pageOpen hA h hslots huser hvaddr (pte_word he).2.2 hblk
    (hidx.1.symm ▸ hpres) (hidx.1.symm ▸ hus)
  -- where the two accesses go
  obtain rfl := hopen.access hcalls.window
  have hsrcW : (current, vaddr / 4096 / 1024) ∈ W := by
    rw [hvaddr, hidx.1]
    exact hslots.parent i hi
  have hentry : entryAt s₃ current (vaddr / 4096) = some e := by
    rw [hopen.entry _ _ hsrcW (hvaddr ▸ huser), if_neg fun hc => hslots.ne hc.1]
    unfold entryAt
    rw [hvaddr, hidx.1, hidx.2, he]
  obtain rfl := accessAt_frame hopen.tables hsrcW hentry hvdvd hcalls.source
  have hkunmap := hcalls.kunmap
  generalize hs₄ : s₃.memcpy (p * 4096) (getEntryAddr e) pageSize = s₄ at hkunmap
  have halloc₄ : s₄.alloc = s₃.alloc := by
    rw [← hs₄]
    rfl
  -- the new page is in none of the blocks of others
  have hdir : ∀ w ∈ W, w.1 ≠ p * 4096 := (h.free_ne hA hfree).1
  have hnot : ∀ b ∈ L, p ∉ block b.1 b.2 := by
    intro b hb hin
    have hlive : b ∈ V.live s.alloc := by
      rw [h.live]
      exact Or.inl hb
    exact Set.disjoint_left.mp (hA.notFree h.inv hlive) hin hfree
  have hmem₄ : ∀ a, s₄.mem a = if p * 4096 ≤ a ∧ a < p * 4096 + pageSize then
      s₃.mem (getEntryAddr e + (a - p * 4096)) else s₃.mem a := by
    intro a
    rw [← hs₄]
    rfl
  have hout : ∀ a, ¬ (p * 4096 ≤ a ∧ a < p * 4096 + pageSize) → s₄.mem a = s₃.mem a := by
    intro a ha
    rw [hmem₄, if_neg ha]
  obtain ⟨h₄, hsame₄⟩ := hopen.tables.of_page halloc₄ (Set.mem_insert _ _) hdir hout
  obtain ⟨h₅, hkept₅⟩ := h₄.kunmap_kept hA hslots.window hkunmap
  have hL : L ⊆ insert (p, 0) L := Set.subset_insert _ _
  obtain ⟨hwin, hother, hsubWin, -⟩ := hslots.edited i
  refine ⟨p, h₅, ?_, hfree, highmem_le (hblk.zone p hself), hblk.inTable p hself, ?_, fun m hm => ?_,
    fun off hoff => ?_⟩
  · have hkept₄ : Kept V W L {(current, 1023), (new, (i * 1024 + j) / 1024)} s₃ s₄ :=
      Kept.of_page hopen.tables hnot hdir halloc₄ hout
    rw [← hidx.1] at hsubWin
    exact hopen.kept.trans (hkept₄.trans (hkept₅.mono hsubWin hL))
  · have hnewW := hslots.child i hi
    rw [← hopen.pde, hidx.1, hkept₅.slot_word h₄ hwin hnewW hother]
    apply hout
    obtain ⟨hdvd, -, hi', -⟩ := h.dir _ hnewW
    unfold slotAddr
    rw [wordAddr_mem_page hdvd (Dvd.intro_left p rfl) hi']
    exact hdir _ hnewW
  · have hw : (new, m / 1024) ∈ W := hslots.child _ (by omega)
    rw [(hkept₅.slot _ hw (user_ne_window hm)).entryAt_eq, (hsame₄ _ hw).entryAt_eq,
      hopen.entry _ _ hw hm]
    exact if_congr (and_iff_right rfl) rfl rfl
  · have hnew : HeldCell W (insert (p, 0) L) (p * 4096 + off) := by
      refine ⟨(p, 0), Set.mem_insert _ _, ?_, fun w hw hc => hdir w hw ?_⟩
      · rw [show (p * 4096 + off) / 4096 = p by omega]
        exact hself
      · rw [block_zero] at hc
        have hc : w.1 / 4096 = p := hc
        have hdvd := (h.dir w hw).1
        omega
    have hin : p * 4096 ≤ p * 4096 + off ∧ p * 4096 + off < p * 4096 + pageSize := by
      unfold pageSize
      omega
    calc s'.mem (p * 4096 + off)
      _ = s₄.mem (p * 4096 + off) := hkept₅.held _ hnew
      _ = s₃.mem (getEntryAddr e + off) := by rw [hmem₄, if_pos hin, Nat.add_sub_cancel_left]
      _ = s.mem (getEntryAddr e + off) := hopen.kept.held _ (hheld off hoff)

/-! ## The invariant of the loops -/

theorem page_bound {i m : ℕ} (hi : i < userPdes) (hm : m < (i + 1) * 1024) : m < userPdes * 1024 :=
  hm.trans_le (Nat.mul_le_mul_right _ hi)

theorem table_bound {m : ℕ} (hm : m < userPdes * 1024) : m / 1024 < userPdes := by
  unfold userPdes at hm ⊢
  omega

/-- What has become of page `n`: the parent has none, or the child has a copy in one of the frames
`F`. -/
inductive PageCopy (F : Set ℕ) (current new n : ℕ) (s₀ s : Phys σ) : Prop where
  | absent : entryAt s₀ current n = none → entryAt s new n = none → PageCopy F current new n s₀ s
  | copy {e p : ℕ} : entryAt s₀ current n = some e →
      entryAt s new n = some (p * 4096 ||| getEntryFlags e) → p ∈ F → p < maxPages →
      highmemStart ≤ p * 4096 →
      (∀ off < 4096, s.mem (p * 4096 + off) = s₀.mem (getEntryAddr e + off)) →
      PageCopy F current new n s₀ s

/-- The slots that `fork` edits. -/
def forkEdits (current new : ℕ) : Set (ℕ × ℕ) :=
  { w | w = (current, 1023) ∨ (w.1 = new ∧ w.2 < userPdes) }

/-- The frames as blocks of the page allocator. -/
def frameBlocks (F : Set ℕ) : Set (ℕ × ℕ) := { b | b.1 ∈ F ∧ b.2 = 0 }

/-- The loops have come to table `i` and page `n`; `s₀` is memory before them and `F` are the frames
of the child. -/
structure Copying (V : PageAlloc.View σ) (W L : Set (ℕ × ℕ)) (current new : ℕ) (s₀ : Phys σ)
    (i n : ℕ) (F : Set ℕ) (s : Phys σ) : Prop where
  tables : PageTables V W (L ∪ frameBlocks F) s
  kept : Kept V W L (forkEdits current new) s₀ s
  pdes : ∀ k < i, slotPresent s (new, k) = slotPresent s₀ (current, k) ∧
    (slotPresent s₀ (current, k) = true →
      getEntryFlags (s.mem (slotAddr (new, k))) = getEntryFlags (s₀.mem (slotAddr (current, k))))
  rest : ∀ k, i ≤ k → k < userPdes → s.mem (slotAddr (new, k)) = 0
  free : ∀ p ∈ F, p ∈ V.free s₀.alloc
  pages : ∀ m < n, PageCopy F current new m s₀ s
  empty : ∀ m, n ≤ m → m < userPdes * 1024 → entryAt s new m = none
  distinct : ∀ m < n, ∀ m' < n, ∀ e e', entryAt s new m = some e → entryAt s new m' = some e' →
    getEntryAddr e = getEntryAddr e' → m = m'

theorem frameBlocks_insert (p : ℕ) (F : Set ℕ) :
    L ∪ frameBlocks (insert p F) = insert (p, 0) (L ∪ frameBlocks F) := by
  ext ⟨q, k⟩
  simp only [frameBlocks, Set.mem_union, Set.mem_ofPred_eq, Set.mem_insert_iff, Prod.mk.injEq]
  tauto

theorem slotPresent_of_zero {w : ℕ × ℕ} (h : s.mem (slotAddr w) = 0) : slotPresent s w = false := by
  unfold slotPresent
  rw [h, flagIsSet_zero]

/-- Equal flags have equal bits. -/
theorem flagIsSet_congr {e e' : ℕ} (h : getEntryFlags e = getEntryFlags e') {flag : ℕ}
    (hflag : 0xFFF &&& flag = flag) : flagIsSet e flag = flagIsSet e' flag := by
  rw [← flagIsSet_getEntryFlags e hflag, h, flagIsSet_getEntryFlags e' hflag]

/-- The slots of the parent's user half are not edited. -/
theorem ForkSlots.not_edited (h : ForkSlots W current new) {i : ℕ} (hi : i < userPdes) :
    (current, i) ∉ forkEdits current new := by
  rintro (heq | ⟨heq, -⟩)
  · have hidx := (Prod.mk.inj heq).2
    unfold userPdes at hi
    omega
  · exact h.ne heq

/-- A page copy edits two of the slots. -/
theorem forkEdits_page {i : ℕ} (hi : i < userPdes) :
    {(current, 1023), (new, i)} ⊆ forkEdits current new := by
  rintro w (rfl | rfl)
  · exact Or.inl rfl
  · exact Or.inr ⟨rfl, hi⟩

/-- A frame of the child is a held block, and none of its pages is a directory. -/
theorem Copying.frame_held {i n : ℕ} {F : Set ℕ} (h₀ : PageTables V W L s₀)
    (h : Copying V W L current new s₀ i n F s) {p off : ℕ} (hp : p ∈ F) (hoff : off < 4096) :
    HeldCell W (L ∪ frameBlocks F) (p * 4096 + off) := by
  have hpage : (p * 4096 + off) / 4096 = p := by omega
  refine ⟨(p, 0), Or.inr ⟨hp, rfl⟩, ?_, fun w hw hc => ?_⟩
  · rw [hpage]
    exact self_mem_block p 0
  · rw [block_zero] at hc
    have hc : w.1 / 4096 = p := hc
    apply (h₀.dir w hw).2.2.2
    rw [hc]
    exact h.free p hp

/-- What a later step keeps of a page that has been copied. -/
theorem PageCopy.keep {F F' : Set ℕ} {n : ℕ} (h : PageCopy F current new n s₀ s) (hF : F ⊆ F')
    (hentry : entryAt s' new n = entryAt s new n)
    (hframe : ∀ p ∈ F, ∀ off < 4096, s'.mem (p * 4096 + off) = s.mem (p * 4096 + off)) :
    PageCopy F' current new n s₀ s' := by
  cases h with
  | absent hnone hnone' => exact .absent hnone (hentry.trans hnone')
  | copy he hnew hp hlt hhigh hbytes =>
    refine .copy he (hentry.trans hnew) (hF hp) hlt hhigh fun off hoff => ?_
    rw [hframe _ hp off hoff, hbytes off hoff]

/-- **The turn of the inner loop** copies one page. -/
theorem Copying.page (hA : K.toPageAlloc.Lawful V) (h₀ : PageTables V W L s₀)
    (hparent : UserHalf W L current s₀) (hslots : ForkSlots W current new) {i j : ℕ} {F : Set ℕ}
    (hi : i < userPdes) (hj : j < 1024) (hpres : slotPresent s₀ (current, i) = true)
    (h : Copying V W L current new s₀ (i + 1) (i * 1024 + j) F s)
    (hrun : forkPage K current new (tableOf s₀ (current, i)) i s j = .ok (true, s')) :
    ∃ F', Copying V W L current new s₀ (i + 1) (i * 1024 + (j + 1)) F' s' := by
  have huser : i * 1024 + j < userPdes * 1024 := by omega
  have hidx : (i * 1024 + j) / 1024 = i ∧ (i * 1024 + j) % 1024 = j := by omega
  have hsame := h.kept.slot _ (hslots.parent i hi) (hslots.not_edited hi)
  have hentry : entryAt s₀ current (i * 1024 + j) = pte s (current, i) j := by
    unfold entryAt
    rw [hidx.1, hidx.2, hsame.entry j hj]
  rw [← hsame.table hpres] at hrun
  cases he : pte s (current, i) j with
  | none =>
    -- there is nothing to copy
    have hclear : flagIsSet (s.mem (tableOf s (current, i) + 4 * j)) ptePresentBit = false := by
      by_contra hset
      unfold pte at he
      rw [hsame.present, hpres] at he
      simp [hset] at he
    unfold forkPage at hrun
    rw [hclear] at hrun
    obtain ⟨-, rfl⟩ := Prod.mk.inj (Except.ok.inj hrun)
    have hnone := h.empty _ le_rfl huser
    have hlast : ∀ {m e}, m < i * 1024 + (j + 1) → entryAt s new m = some e → m < i * 1024 + j := by
      intro m e hm hme
      by_contra hge
      rw [show m = i * 1024 + j by omega, hnone] at hme
      cases hme
    refine ⟨F, { h with
      pages := fun m hm => ?_
      empty := fun m hm hlt => h.empty m (by omega) hlt
      distinct := fun m hm m' hm' e e' hme hme' =>
        h.distinct m (hlast hm hme) m' (hlast hm' hme') e e' hme hme' }⟩
    by_cases hlt : m < i * 1024 + j
    · exact h.pages m hlt
    · rw [show m = i * 1024 + j by omega]
      exact .absent (hentry.trans he) hnone
  | some e =>
    rw [he] at hentry
    obtain ⟨hpde, hflags⟩ := h.pdes i (Nat.lt_succ_self i)
    have hheld : ∀ off < 4096, HeldCell W (L ∪ frameBlocks F) (getEntryAddr e + off) :=
      fun off hoff => (hparent.frames _ huser e hentry off hoff).mono Set.subset_union_left
    have hus : flagIsSet e pteUsBit = true → flagIsSet (s.mem (slotAddr (new, i))) pdeUsBit = true := by
      intro hset
      rw [flagIsSet_congr (hflags hpres) (by decide)]
      have huser := hparent.user _ huser e hentry hset
      rw [hidx.1] at huser
      exact huser
    obtain ⟨p, hnew⟩ := forkPage_copies hA h.tables hslots hi hj he hheld (hpde.trans hpres) hus hrun
    have hL : L ⊆ L ∪ frameBlocks F := Set.subset_union_left
    have hfree₀ : p ∈ V.free s₀.alloc := h.kept.free_high hA h₀ h.tables hL hnew.free hnew.high
    have hword : ∀ k < userPdes, s'.mem (slotAddr (new, k)) = s.mem (slotAddr (new, k)) := by
      intro k hk
      by_cases hki : k = i
      · have hpde := hnew.pde
        rw [hidx.1] at hpde
        rw [hki]
        exact hpde
      · apply hnew.kept.slot_word h.tables ?_ (hslots.child k hk)
        · rw [hidx.1]
          rintro (heq | heq)
          · exact hslots.ne (Prod.mk.inj heq).1.symm
          · exact hki (Prod.mk.inj heq).2
        · rw [hidx.1]
          rintro w (rfl | rfl)
          · exact hslots.window
          · exact hslots.child i hi
    have hframe : ∀ q ∈ F, ∀ off < 4096, s'.mem (q * 4096 + off) = s.mem (q * 4096 + off) :=
      fun q hq off hoff => hnew.kept.held _ (h.frame_held h₀ hq hoff)
    have hold : ∀ m < i * 1024 + j, entryAt s' new m = entryAt s new m := by
      intro m hm
      rw [hnew.entry m (hm.trans huser), if_neg hm.ne]
    have hadded : entryAt s' new (i * 1024 + j) = some (p * 4096 ||| getEntryFlags e) := by
      rw [hnew.entry _ huser, if_pos rfl]
    have hpAddr : getEntryAddr (p * 4096 ||| getEntryFlags e) = p * 4096 :=
      (vmmMapPage_entry (Dvd.intro_left _ rfl) (frame_lt hnew.lt) (getEntryFlags_lt e)).1
    -- the new frame was free, those of the child were not
    have hfresh : ∀ m < i * 1024 + j, ∀ e', entryAt s' new m = some e' →
        getEntryAddr e' ≠ p * 4096 := by
      intro m hm e' he' heq
      rw [hold m hm] at he'
      cases h.pages m hm with
      | absent _ hnone =>
        rw [hnone] at he'
        cases he'
      | @copy e₀ q _ hcopy hq hlt _ _ =>
        obtain rfl := Option.some.inj (hcopy.symm.trans he')
        rw [(vmmMapPage_entry (Dvd.intro_left _ rfl) (frame_lt hlt) (getEntryFlags_lt e₀)).1] at heq
        have hqp : q = p := by omega
        have hq : HeldCell W (L ∪ frameBlocks F) (q * 4096 + 0) := h.frame_held h₀ hq (by norm_num)
        apply hq.notFree hA h.tables
        rw [show (q * 4096 + 0) / 4096 = p by omega]
        exact hnew.free
    refine ⟨insert p F, {
      tables := by
        rw [frameBlocks_insert]
        exact hnew.tables
      kept := h.kept.trans (hnew.kept.mono (by rw [hidx.1]; exact forkEdits_page hi) hL)
      pdes := fun k hk => ?_
      rest := fun k hk hk' => (hword k hk').trans (h.rest k hk hk')
      free := ?_
      pages := fun m hm => ?_
      empty := fun m hm hlt => ?_
      distinct := fun m hm m' hm' e₁ e₂ he₁ he₂ heq => ?_ }⟩
    · unfold slotPresent
      rw [hword k (by omega)]
      exact h.pdes k hk
    · rintro q (rfl | hq)
      · exact hfree₀
      · exact h.free q hq
    · by_cases hlt : m < i * 1024 + j
      · exact (h.pages m hlt).keep (Set.subset_insert _ _) (hold m hlt) hframe
      · rw [show m = i * 1024 + j by omega]
        refine .copy hentry hadded (Set.mem_insert _ _) hnew.lt hnew.high fun off hoff => ?_
        rw [hnew.bytes off hoff]
        exact h.kept.held _ (hparent.frames _ huser e hentry off hoff)
    · rw [hnew.entry m hlt, if_neg (by omega)]
      exact h.empty m (by omega) hlt
    · by_cases hlt : m < i * 1024 + j
      · by_cases hlt' : m' < i * 1024 + j
        · rw [hold m hlt] at he₁
          rw [hold m' hlt'] at he₂
          exact h.distinct m hlt m' hlt' e₁ e₂ he₁ he₂ heq
        · rw [show m' = i * 1024 + j by omega, hadded] at he₂
          obtain rfl := Option.some.inj he₂
          exact absurd (heq.trans hpAddr) (hfresh m hlt e₁ he₁)
      · rw [show m = i * 1024 + j by omega, hadded] at he₁
        obtain rfl := Option.some.inj he₁
        by_cases hlt' : m' < i * 1024 + j
        · exact absurd (heq.symm.trans hpAddr) (hfresh m' hlt' e₂ he₂)
        · omega

/-- The flags of the word that `fork` writes into the child's slot are those of the parent's. -/
theorem forkTable_flags (pt e : ℕ) :
    getEntryFlags (getEntryAddr pt ||| getEntryFlags e) = getEntryFlags e := by
  have hlow : getEntryAddr pt &&& 0xFFF = 0 := by
    rw [show (0xFFF : ℕ) = 2 ^ 12 - 1 by norm_num, Nat.and_two_pow_sub_one_eq_mod]
    exact Nat.mod_eq_zero_of_dvd (getEntryAddr_dvd pt)
  unfold getEntryFlags
  rw [Nat.and_or_distrib_right, hlow, Nat.zero_or, Nat.and_assoc, Nat.and_self]

/-- What the head of a turn of the outer loop does: it skips an entry that is absent, or gives the
child an empty table with the parent's flags. -/
theorem forkTableHead_ok {A : PageAlloc σ} (hA : A.Lawful V) (h : PageTables V W L s)
    (hslots : ForkSlots W current new) {i : ℕ} {pt : Option ℕ} (hi : i < userPdes)
    (hzero : s.mem (slotAddr (new, i)) = 0)
    (hrun : forkTableHead A current new s i = .ok (true, pt, s')) :
    (slotPresent s (current, i) = false ∧ pt = none ∧ s' = s) ∨
    (slotPresent s (current, i) = true ∧ pt = some (tableOf s (current, i)) ∧ PageTables V W L s' ∧
      Kept V W L {(new, i)} s s' ∧ slotPresent s' (new, i) = true ∧
      getEntryFlags (s'.mem (slotAddr (new, i))) = getEntryFlags (s.mem (slotAddr (current, i))) ∧
      ∀ w ∈ W, ∀ j < 1024, pte s' w j = pte s w j) := by
  have habs := slotPresent_of_zero hzero
  have hcurW := hslots.parent i hi
  have hne : slotAddr (current, i) ≠ slotAddr (new, i) := by
    intro heq
    exact hslots.ne (Prod.mk.inj (h.slotAddr_inj hcurW (hslots.child i hi) heq)).1
  unfold forkTableHead at hrun
  rw [bind_eq_ok] at hrun
  obtain ⟨currentPd, hcur, hrun⟩ := hrun
  obtain ⟨rfl, -⟩ := physLinear_ok hcur
  rw [bind_eq_ok] at hrun
  obtain ⟨newPd, hnew, hrun⟩ := hrun
  obtain ⟨rfl, -⟩ := physLinear_ok hnew
  -- The parent has a table here or it has none.
  split at hrun
  · next hpres =>
    have hpres : slotPresent s (current, i) = true := hpres
    rw [bind_eq_ok] at hrun
    obtain ⟨⟨newPt, s₁⟩, halloc, hrun⟩ := hrun
    dsimp only at hrun
    split at hrun
    · -- Without a page for the table the call fails.
      cases (Prod.mk.inj (Except.ok.inj hrun)).1
    · next hpt =>
      obtain ⟨hcall, hmem⟩ := PageAlloc.allocOn_ok halloc
      -- The table is new, and the flags of its slot are copied.
      obtain ⟨htables, hword, haddr, hset, hpte, hframe⟩ :=
        forkTable_tables hA h (hslots.child i hi) habs hpres halloc hpt
      rw [bind_eq_ok] at hrun
      obtain ⟨currentPt, hcurPt, hrun⟩ := hrun
      obtain ⟨rfl, -⟩ := physLinear_ok hcurPt
      rw [bind_eq_ok] at hrun
      obtain ⟨newPtVirt, hnewPt, hrun⟩ := hrun
      obtain ⟨rfl, -⟩ := physLinear_ok hnewPt
      obtain ⟨-, hrun⟩ := Prod.mk.inj (Except.ok.inj hrun)
      obtain ⟨rfl, hs'⟩ := Prod.mk.inj hrun
      rw [Phys.write_mem, if_pos rfl] at hs'
      obtain rfl : _ = s' := hs'
      refine Or.inr ⟨hpres, ?_, htables, ?_, ?_, ?_, hpte⟩
      · show some (getEntryAddr (if slotAddr (current, i) = slotAddr (new, i) then _
          else s₁.mem (slotAddr (current, i)))) = _
        -- The slot of the child is written, not that of the parent.
        rw [if_neg hne, hmem]
        rfl
      · refine Kept.of_cells hA h (hslots.child i hi) (fun a hslot hfree _ => hframe a hslot hfree) ?_
        exact hA.alloc_pages h.inv hcall
      · exact (congrArg (flagIsSet · pdePresentBit) hword).trans hset
      · refine (congrArg getEntryFlags hword).trans ?_
        rw [forkTable_flags, hmem]
  · next hclear =>
    obtain ⟨-, hrun⟩ := Prod.mk.inj (Except.ok.inj hrun)
    obtain ⟨rfl, rfl⟩ := Prod.mk.inj hrun
    exact Or.inl ⟨by simpa [slotPresent, slotAddr] using hclear, rfl, rfl⟩

/-- There is a table to go through only where the turn goes on. -/
theorem forkTableHead_some {A : PageAlloc σ} {i pt : ℕ} {ok : Bool}
    (h : forkTableHead A current new s i = .ok (ok, some pt, s')) : ok = true := by
  unfold forkTableHead at h
  simp only [bind_eq_ok] at h
  obtain ⟨currentPd, -, newPd, -, h⟩ := h
  split at h
  · obtain ⟨⟨newPt, s₁⟩, -, h⟩ := bind_eq_ok.mp h
    dsimp only at h
    split at h
    · cases (Prod.mk.inj (Prod.mk.inj (Except.ok.inj h)).2).1
    · obtain ⟨_, -, h⟩ := bind_eq_ok.mp h
      obtain ⟨_, -, h⟩ := bind_eq_ok.mp h
      exact (Prod.mk.inj (Except.ok.inj h)).1.symm
  · cases (Prod.mk.inj (Prod.mk.inj (Except.ok.inj h)).2).1

/-- The next table, with none of its pages copied. -/
theorem Copying.table (hA : K.toPageAlloc.Lawful V) (h₀ : PageTables V W L s₀)
    (hslots : ForkSlots W current new) {i : ℕ} {F : Set ℕ} {pt : Option ℕ} (hi : i < userPdes)
    (h : Copying V W L current new s₀ i (i * 1024) F s)
    (hrun : forkTableHead K.toPageAlloc current new s i = .ok (true, pt, s')) :
    (pt = none ∧ Copying V W L current new s₀ (i + 1) ((i + 1) * 1024) F s') ∨
    (slotPresent s₀ (current, i) = true ∧ pt = some (tableOf s₀ (current, i)) ∧
      Copying V W L current new s₀ (i + 1) (i * 1024) F s') := by
  -- The slot of the parent is as it was before the copy.
  have hsame := h.kept.slot _ (hslots.parent i hi) (hslots.not_edited hi)
  have hpde : s.mem (slotAddr (current, i)) = s₀.mem (slotAddr (current, i)) := by
    apply h.kept.slot_word h₀ ?_ (hslots.parent i hi) (hslots.not_edited hi)
    rintro ⟨q, k⟩ (heq | ⟨rfl, hk⟩)
    · rw [heq]
      exact hslots.window
    · exact hslots.child k hk
  have hzero := h.rest i le_rfl hi
  rcases forkTableHead_ok hA h.tables hslots hi hzero hrun with
    ⟨habs, rfl, rfl⟩ | ⟨hpres, rfl, htables, hkept, hpres', hflags, hpte⟩
  · -- the parent has no table here, so it has no page here
    rw [hsame.present] at habs
    have hnone : ∀ m, i * 1024 ≤ m → m < (i + 1) * 1024 → entryAt s' new m = none :=
      fun m hm hlt => h.empty m hm (page_bound hi hlt)
    have hle : i * 1024 ≤ (i + 1) * 1024 := Nat.mul_le_mul_right _ (Nat.le_succ i)
    have hlast : ∀ {m e}, m < (i + 1) * 1024 → entryAt s' new m = some e → m < i * 1024 := by
      intro m e hm hme
      by_contra hge
      rw [hnone m (by omega) hm] at hme
      cases hme
    refine Or.inl ⟨rfl, { h with
      pdes := fun k hk => ?_
      rest := fun k hk hk' => h.rest k (Nat.le_of_succ_le hk) hk'
      pages := fun m hm => ?_
      empty := fun m hm hlt => h.empty m (hle.trans hm) hlt
      distinct := fun m hm m' hm' e e' hme hme' =>
        h.distinct m (hlast hm hme) m' (hlast hm' hme') e e' hme hme' }⟩
    · -- The slot that was skipped is absent in both directories.
      by_cases hki : k = i
      · rw [hki, habs, slotPresent_of_zero hzero]
        exact ⟨rfl, nofun⟩
      · exact h.pdes k (by omega)
    · by_cases hlt : m < i * 1024
      · exact h.pages m hlt
      · -- Behind an absent slot neither side has a page.
        refine .absent (pte_of_absent ?_ _) (hnone m (by omega) hm)
        rw [show m / 1024 = i by omega]
        exact habs
  · -- the child's new table has no page
    have hL : L ⊆ L ∪ frameBlocks F := Set.subset_union_left
    have hedit : {(new, i)} ⊆ forkEdits current new := by
      rintro w rfl
      exact Or.inr ⟨rfl, hi⟩
    -- The new table changes no entry: it is empty, and so was the slot.
    have hentry : ∀ m < userPdes * 1024, entryAt s' new m = entryAt s new m := fun m hm =>
      hpte _ (hslots.child _ (table_bound hm)) _ (Nat.mod_lt m (by norm_num))
    have hold : ∀ m < i * 1024, entryAt s' new m = entryAt s new m := fun m hm =>
      hentry m (hm.trans (Nat.mul_lt_mul_of_pos_right hi (by norm_num)))
    have hword : ∀ k < userPdes, k ≠ i → s'.mem (slotAddr (new, k)) = s.mem (slotAddr (new, k)) := by
      intro k hk hne
      apply hkept.slot_word h.tables ?_ (hslots.child k hk) fun heq => hne (Prod.mk.inj heq).2
      exact Set.singleton_subset_iff.mpr (hslots.child i hi)
    have hpres₀ : slotPresent s₀ (current, i) = true := hsame.present ▸ hpres
    refine Or.inr ⟨hpres₀, by rw [hsame.table hpres₀], {
      tables := htables
      kept := h.kept.trans (hkept.mono hedit hL)
      pdes := fun k hk => ?_
      rest := fun k hk hk' => (hword k hk' (by omega)).trans (h.rest k (by omega) hk')
      free := h.free
      pages := fun m hm => ?_
      empty := fun m hm hlt => (hentry m hlt).trans (h.empty m hm hlt)
      distinct := fun m hm m' hm' e e' hme hme' => ?_ }⟩
    · by_cases hki : k = i
      · rw [hki, hpres', hpres₀]
        exact ⟨rfl, fun _ => by rw [hflags, hpde]⟩
      · unfold slotPresent
        rw [hword k (by omega) hki]
        exact h.pdes k (by omega)
    · exact (h.pages m hm).keep subset_rfl (hold m hm) fun p hp off hoff =>
        -- The frames that are copied already are not written.
        hkept.held _ (h.frame_held h₀ hp hoff)
    · rw [hold m hm] at hme
      rw [hold m' hm'] at hme'
      exact h.distinct m hm m' hm' e e' hme hme'

/-- **A turn of the outer loop.** -/
theorem Copying.turn (hA : K.toPageAlloc.Lawful V) (h₀ : PageTables V W L s₀)
    (hparent : UserHalf W L current s₀) (hslots : ForkSlots W current new) {i : ℕ} {F : Set ℕ}
    (hi : i < userPdes) (h : Copying V W L current new s₀ i (i * 1024) F s)
    (hrun : forkTable K current new s i = .ok (true, s')) :
    ∃ F', Copying V W L current new s₀ (i + 1) ((i + 1) * 1024) F' s' := by
  rw [forkTable_eq, bind_eq_ok] at hrun
  obtain ⟨⟨ok, pt, s₁⟩, hhead, hrun⟩ := hrun
  cases pt with
  | none =>
    obtain ⟨rfl, rfl⟩ := Prod.mk.inj (Except.ok.inj hrun)
    rcases h.table hA h₀ hslots hi hhead with ⟨-, hnext⟩ | ⟨-, hpt, -⟩
    · exact ⟨F, hnext⟩
    · cases hpt
  | some pt =>
    have hok : ok = true := forkTableHead_some hhead
    subst hok
    rcases h.table hA h₀ hslots hi hhead with ⟨hpt, -⟩ | ⟨hpres, hpt, hnext⟩
    · cases hpt
    · obtain rfl := Option.some.inj hpt
      have hstart : Copying V W L current new s₀ (i + 1) (i * 1024 + 0) F s₁ := by
        rw [Nat.add_zero (i * 1024)]
        exact hnext
      have hloop := whileOk_range' (Q := fun _ => True)
        (I := fun j s => ∃ F, Copying V W L current new s₀ (i + 1) (i * 1024 + j) F s)
        (fun j b b' ok _ hj hI hturn => by
          cases ok with
          | false => trivial
          | true =>
            obtain ⟨F₁, h₁⟩ := hI
            exact h₁.page hA h₀ hparent hslots hi (Nat.zero_add 1024 ▸ hj) hpres hturn)
        ⟨F, hstart⟩ hrun
      obtain ⟨F', hdone⟩ := hloop
      rw [show i * 1024 + (0 + 1024) = (i + 1) * 1024 by ring] at hdone
      exact ⟨F', hdone⟩

/-- Before the loops. -/
theorem Copying.start (h : PageTables V W L s) (hzero : ∀ i < userPdes, s.mem (slotAddr (new, i)) = 0) :
    Copying V W L current new s 0 0 ∅ s where
  tables := by
    have hempty : frameBlocks ∅ = ∅ := by
      ext b
      simp [frameBlocks]
    rw [hempty, Set.union_empty]
    exact h
  kept := .refl V W L _ s
  pdes k hk := absurd hk (Nat.not_lt_zero k)
  rest k _ hk := hzero k hk
  free p hp := absurd hp (Set.notMem_empty p)
  pages m hm := absurd hm (Nat.not_lt_zero m)
  empty m _ hm := pte_of_absent (slotPresent_of_zero (hzero _ (table_bound hm))) _
  distinct m hm := absurd hm (Nat.not_lt_zero m)

end Fork

end Kfs.Userspace
