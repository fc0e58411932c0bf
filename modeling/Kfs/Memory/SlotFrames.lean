import Kfs.Memory.TwoRuns

/-!
# What a step on a few slots leaves alone

The paging code edits a directory while others hold pages: `vmm_map_page` and `vmm_unmap_page` write
one slot, its table and pages that were free. `Kept X s s'` says what is left alone by steps that
edit the slots `X`: the other cells of the directories, the tables of the other slots, the contents
of the blocks that others hold, and the pages that the allocator looks after. Each operation is
described once, and descriptions of consecutive steps compose.
-/

namespace Kfs.Memory

open Kfs.Lib Kfs.Lib.Word32 Kfs.Lib.Dyadic

/-! ## The pages of an allocator -/

/-- The pages that the allocator looks after: the free ones and those of the live blocks. -/
def PageAlloc.View.pages {σ : Type} (V : PageAlloc.View σ) (a : σ) : Set ℕ :=
  V.free a ∪ { p | ∃ b ∈ V.live a, p ∈ block b.1 b.2 }

section Frames

variable {σ : Type} {A : PageAlloc σ} {V : PageAlloc.View σ} {W L L' X X' : Set (ℕ × ℕ)}
  {s s' s'' : Phys σ} {w : ℕ × ℕ}

/-- A block that is handed out was free. -/
theorem PageAlloc.Taken.pages {a a' : σ} {zone : Zone} {p k : ℕ} (h : PageAlloc.Taken V a a' zone p k) :
    V.pages a' = V.pages a := by
  ext j
  unfold PageAlloc.View.pages
  rw [h.free, h.live]
  constructor
  · rintro (⟨hfree, -⟩ | ⟨b, rfl | hb, hj⟩)
    · exact Or.inl hfree
    · exact Or.inl (h.subset hj)
    · exact Or.inr ⟨b, hb, hj⟩
  · rintro (hfree | ⟨b, hb, hj⟩)
    · by_cases hj : j ∈ block p k
      · exact Or.inr ⟨(p, k), Set.mem_insert _ _, hj⟩
      · exact Or.inl ⟨hfree, hj⟩
    · exact Or.inr ⟨b, Set.mem_insert_of_mem _ hb, hj⟩

/-- A block that is given back is free. -/
theorem PageAlloc.Returned.pages {a a' : σ} {p k : ℕ} (h : PageAlloc.Returned V a a' p k)
    (hb : (p, k) ∈ V.live a) : V.pages a' = V.pages a := by
  ext j
  unfold PageAlloc.View.pages
  rw [h.free, h.live]
  constructor
  · rintro ((hfree | hj) | ⟨b, ⟨hlive, -⟩, hj⟩)
    · exact Or.inl hfree
    · exact Or.inr ⟨(p, k), hb, hj⟩
    · exact Or.inr ⟨b, hlive, hj⟩
  · rintro (hfree | ⟨b, hlive, hj⟩)
    · exact Or.inl (Or.inl hfree)
    · by_cases hbp : b = (p, k)
      · rw [hbp] at hj
        exact Or.inl (Or.inr hj)
      · exact Or.inr ⟨b, ⟨hlive, hbp⟩, hj⟩

/-- **`buddy_alloc_pages`** looks after the same pages. -/
theorem PageAlloc.Lawful.alloc_pages (hA : A.Lawful V) {a a' : σ} (hinv : V.Inv a) {size ptr : ℕ}
    {zone : Zone} (hrun : A.buddyAllocPages size zone a = .ok (ptr, a')) : V.pages a' = V.pages a := by
  rcases hA.alloc hinv size zone with hnull | ⟨p, a₁, hok, htaken⟩
  · rw [(Prod.mk.inj (Except.ok.inj (hrun.symm.trans hnull))).2]
  · rw [(Prod.mk.inj (Except.ok.inj (hrun.symm.trans hok))).2, htaken.pages]

/-- So does **`buddy_free_block`** for a live block. -/
theorem PageAlloc.Lawful.free_pages (hA : A.Lawful V) {a a' : σ} (hinv : V.Inv a) {p k : ℕ}
    (hb : (p, k) ∈ V.live a) (hrun : A.buddyFreeBlock (p * 4096) a = .ok a') :
    V.pages a' = V.pages a := by
  obtain ⟨a₁, hok, hret⟩ := hA.release hinv hb
  obtain rfl := Except.ok.inj (hok.symm.trans hrun)
  exact hret.pages hb

/-- What is live determines what is free. -/
theorem PageAlloc.Lawful.free_eq (hA : A.Lawful V) {a a' : σ} (hinv : V.Inv a) (hinv' : V.Inv a')
    (hpages : V.pages a' = V.pages a) (hlive : V.live a' = V.live a) : V.free a' = V.free a := by
  have hsub : ∀ {b b' : σ}, V.Inv b → V.pages b' = V.pages b → V.live b' = V.live b →
      V.free b ⊆ V.free b' := by
    intro b b' hb hpages hlive j hj
    have hmem : j ∈ V.pages b' := by
      rw [hpages]
      exact Or.inl hj
    rcases hmem with hfree | ⟨c, hc, hin⟩
    · exact hfree
    · rw [hlive] at hc
      exact absurd hj (Set.disjoint_left.mp (hA.notFree hb hc) hin)
  exact Set.Subset.antisymm (hsub hinv' hpages.symm hlive.symm) (hsub hinv hpages hlive)

/-! ## Cells -/

/-- The cell lies in one of the blocks `L`, which holds no directory. -/
def HeldCell (W L : Set (ℕ × ℕ)) (a : ℕ) : Prop :=
  ∃ b ∈ L, a / 4096 ∈ block b.1 b.2 ∧ ∀ w ∈ W, w.1 / 4096 ∉ block b.1 b.2

theorem HeldCell.mono (hL : L ⊆ L') {a : ℕ} (h : HeldCell W L a) : HeldCell W L' a := by
  obtain ⟨b, hb, hin, hdir⟩ := h
  exact ⟨b, hL hb, hin, hdir⟩

/-- A held cell is in no free page. -/
theorem HeldCell.notFree (hA : A.Lawful V) (h : PageTables V W L s) {a : ℕ} (ha : HeldCell W L a) :
    a / 4096 ∉ V.free s.alloc := by
  obtain ⟨b, hb, hin, -⟩ := ha
  have hlive : b ∈ V.live s.alloc := by
    rw [h.live]
    exact Or.inl hb
  exact Set.disjoint_left.mp (hA.notFree h.inv hlive) hin

/-- Nor is it in a table. -/
theorem HeldCell.ne_table (hA : A.Lawful V) (h : PageTables V W L s) {a : ℕ} (ha : HeldCell W L a)
    (hw : w ∈ W) (hpres : slotPresent s w = true) : tableOf s w / 4096 ≠ a / 4096 := by
  obtain ⟨b, hb, hin, -⟩ := ha
  have hlive : b ∈ V.live s.alloc := by
    rw [h.live]
    exact Or.inl hb
  have hlive' : (tableOf s w / 4096, 0) ∈ V.live s.alloc := by
    rw [h.live]
    exact Or.inr ⟨w, hw, hpres, rfl⟩
  have hne : (tableOf s w / 4096, 0) ≠ b := by
    rintro rfl
    exact (h.table w hw hpres).2.1 hb
  intro heq
  rw [← heq] at hin
  exact Set.disjoint_left.mp (hA.disjoint h.inv hlive' hlive hne) (self_mem_block _ _) hin

/-- Nor in a directory. -/
theorem HeldCell.ne_dir {a : ℕ} (ha : HeldCell W L a) (hw : w ∈ W) : w.1 / 4096 ≠ a / 4096 := by
  obtain ⟨b, -, hin, hdir⟩ := ha
  intro heq
  apply hdir w hw
  rw [heq]
  exact hin

/-- The page of a slot is the directory. -/
theorem PageTables.slot_page (h : PageTables V W L s) (hw : w ∈ W) : slotAddr w / 4096 = w.1 / 4096 := by
  obtain ⟨hdvd, -, hi, -⟩ := h.dir w hw
  unfold slotAddr
  omega

/-- The page of an entry is the table. -/
theorem entry_page (s : Phys σ) (w : ℕ × ℕ) {j : ℕ} (hj : j < 1024) :
    (tableOf s w + 4 * j) / 4096 = tableOf s w / 4096 := by
  have hdvd := tableOf_dvd s w
  omega

/-- A directory is no table. -/
theorem PageTables.dir_ne_table (h : PageTables V W L s) (hw : w ∈ W) (hpres : slotPresent s w = true)
    {w' : ℕ × ℕ} (hw' : w' ∈ W) : tableOf s w / 4096 ≠ w'.1 / 4096 := by
  intro heq
  have hdvd := tableOf_dvd s w
  have hdvd' := (h.dir w' hw').1
  apply (h.table w hw hpres).2.2 w' hw'
  omega

/-! ## Steps -/

/-- What steps that edit the slots `X` leave alone; `L` are blocks that others hold. -/
structure Kept (V : PageAlloc.View σ) (W L X : Set (ℕ × ℕ)) (s s' : Phys σ) : Prop where
  dir : ∀ w ∈ W, ∀ a, a / 4096 = w.1 / 4096 → (∀ x ∈ X, a ≠ slotAddr x) → s'.mem a = s.mem a
  slot : ∀ w ∈ W, w ∉ X → SameSlot s s' w
  held : ∀ a, HeldCell W L a → s'.mem a = s.mem a
  pages : V.pages s'.alloc = V.pages s.alloc

theorem Kept.refl (V : PageAlloc.View σ) (W L X : Set (ℕ × ℕ)) (s : Phys σ) : Kept V W L X s s where
  dir _ _ _ _ _ := rfl
  slot w _ _ := .refl s w
  held _ _ := rfl
  pages := rfl

theorem Kept.trans (h : Kept V W L X s s') (h' : Kept V W L X s' s'') : Kept V W L X s s'' where
  dir w hw a ha hX := (h'.dir w hw a ha hX).trans (h.dir w hw a ha hX)
  slot w hw hX := (h.slot w hw hX).trans (h'.slot w hw hX)
  held a ha := (h'.held a ha).trans (h.held a ha)
  pages := h'.pages.trans h.pages

/-- More slots and fewer blocks. -/
theorem Kept.mono (h : Kept V W L' X s s') (hX : X ⊆ X') (hL : L ⊆ L') : Kept V W L X' s s' where
  dir w hw a ha hne := h.dir w hw a ha fun x hx => hne x (hX hx)
  slot w hw hnot := h.slot w hw fun hx => hnot (hX hx)
  held a ha := h.held a (ha.mono hL)
  pages := h.pages

/-- The word of a slot that is not edited. -/
theorem Kept.slot_word (hk : Kept V W L X s s') (h : PageTables V W L' s) (hX : X ⊆ W) (hw : w ∈ W)
    (hnot : w ∉ X) : s'.mem (slotAddr w) = s.mem (slotAddr w) := by
  apply hk.dir w hw _ (h.slot_page hw)
  intro x hx heq
  exact hnot (h.slotAddr_inj hw (hX hx) heq ▸ hx)

/-- A call that leaves memory alone. -/
theorem Kept.of_mem (hmem : s'.mem = s.mem) (hpages : V.pages s'.alloc = V.pages s.alloc) :
    Kept V W L X s s' where
  dir _ _ a _ _ := congrFun hmem a
  slot w _ _ := .of_mem hmem w
  held a _ := congrFun hmem a
  pages := hpages

/-- A step on the slot `w` that leaves alone what is neither the slot nor in its table, and not in a
page that was free. -/
theorem Kept.of_cells (hA : A.Lawful V) (h : PageTables V W L s) (hw : w ∈ W)
    (hcells : ∀ a, a ≠ slotAddr w → a / 4096 ∉ V.free s.alloc →
      (slotPresent s w = true → tableOf s w / 4096 ≠ a / 4096) → s'.mem a = s.mem a)
    (hpages : V.pages s'.alloc = V.pages s.alloc) : Kept V W L {w} s s' := by
  have hdir : ∀ w' ∈ W, ∀ a, a / 4096 = w'.1 / 4096 → a ≠ slotAddr w → s'.mem a = s.mem a := by
    intro w' hw' a ha hne
    apply hcells a hne
    · rw [ha]
      exact (h.dir w' hw').2.2.2
    · intro hpres
      rw [ha]
      exact h.dir_ne_table hw hpres hw'
  refine ⟨fun w' hw' a ha hX => hdir w' hw' a ha (hX w rfl), fun w' hw' hne => ?_, fun a ha => ?_,
    hpages⟩
  · apply SameSlot.of_cells
    · exact hdir w' hw' _ (h.slot_page hw') fun heq => hne (h.slotAddr_inj hw' hw heq)
    · intro hpres' j hj
      apply hcells
      · exact (h.slotAddr_ne hw' hpres' hw hj).symm
      · rw [entry_page s w' hj]
        exact h.table_notFree hA hw' hpres'
      · intro hpres heq
        rw [entry_page s w' hj] at heq
        have hdvd := tableOf_dvd s w
        have hdvd' := tableOf_dvd s w'
        exact hne (h.inj w' hw' w hw hpres' hpres (by omega))
  · apply hcells a
    · intro heq
      apply ha.ne_dir hw
      rw [heq, h.slot_page hw]
    · exact ha.notFree hA h
    · exact ha.ne_table hA h hw

/-- **`vmm_map_page`**. -/
theorem MapWrites.kept (hA : A.Lawful V) (h : PageTables V W L s) {pd v p flags : ℕ} {ok : Bool}
    (hw : (pd, getPdeIndex v) ∈ W) (hrun : MapWrites A pd v p flags s ok s') :
    Kept V W L {(pd, getPdeIndex v)} s s' := by
  apply Kept.of_cells hA h hw
  · exact fun a hslot hfree htable => hrun.frame hA h.inv hslot hfree htable
  · cases hrun with
    | noTable habs halloc => exact hA.alloc_pages h.inv halloc
    | newTable habs halloc hne hlow => exact hA.alloc_pages h.inv halloc
    | userTable hpres hflag hus => rfl
    | table hpres hus => rfl

/-- `vmm_map_page` leaves the tables that are there. -/
theorem MapWrites.table_kept (hA : A.Lawful V) (h : PageTables V W L s) {pd v p flags : ℕ} {ok : Bool}
    (hw : (pd, getPdeIndex v) ∈ W) (hrun : MapWrites A pd v p flags s ok s') {w : ℕ × ℕ} (hw' : w ∈ W)
    (hpres : slotPresent s w = true) : slotPresent s' w = true ∧ tableOf s' w = tableOf s w := by
  by_cases hslot : w = (pd, getPdeIndex v)
  · subst hslot
    have hj := getPteIndex_lt v
    cases hrun with
    | noTable habs => exact absurd (hpres.symm.trans habs) (by decide)
    | newTable habs => exact absurd (hpres.symm.trans habs) (by decide)
    | userTable hset hflag hus =>
      -- the user bit is not part of the address
      obtain ⟨h₁, hus, -⟩ := h.setUs hw
      have hset₁ := (hus _ hw).1.trans hset
      obtain ⟨-, hslots, -⟩ := h₁.setEntry (e := p ||| flags) hw hset₁ hj
      rw [(hus _ hw).2] at hslots
      exact ⟨(hslots _ hw).1.trans hset₁, (hslots _ hw).2.trans (hus _ hw).2⟩
    | table hset hus =>
      obtain ⟨-, hslots, -⟩ := h.setEntry (e := p ||| flags) hw hset hj
      exact ⟨(hslots _ hw).1.trans hset, (hslots _ hw).2⟩
  · have hsame := (hrun.kept hA h hw).slot w hw' hslot
    exact ⟨hsame.present.trans hpres, hsame.table hpres⟩

/-- **`vmm_unmap_page`**. -/
theorem UnmapWrites.kept (hA : A.Lawful V) (h : PageTables V W L s) {pd v : ℕ} {ok : Bool}
    (hw : (pd, getPdeIndex v) ∈ W) (hrun : UnmapWrites A pd v s ok s') :
    Kept V W L {(pd, getPdeIndex v)} s s' := by
  apply Kept.of_cells hA h hw
  · exact fun a hslot _ htable => hrun.frame hslot htable
  · cases hrun with
    | absent hnone => rfl
    | entry hmapped hi hne hother => rfl
    | last hmapped hempty hfree =>
      have hlive : (tableOf s (pd, getPdeIndex v) / 4096, 0) ∈ V.live s.alloc := by
        rw [h.live]
        exact Or.inr ⟨_, hw, slotPresent_of_pte hmapped, rfl⟩
      apply hA.free_pages h.inv hlive
      rw [Nat.div_mul_cancel (tableOf_dvd s _)]
      exact hfree

/-- **`vmm_kmap`**. -/
theorem PageTables.kmap_kept (hA : A.Lawful V) (h : PageTables V W L s) {cur p window : ℕ}
    (hw : (cur, 1023) ∈ W) (hrun : vmmKmap A cur p s = .ok (window, s')) :
    Kept V W L {(cur, 1023)} s s' := by
  unfold vmmKmap at hrun
  rw [bind_eq_ok] at hrun
  obtain ⟨⟨ok, s₁⟩, hmap, hrun⟩ := hrun
  obtain ⟨-, rfl⟩ := Prod.mk.inj (Except.ok.inj hrun)
  have hkept := (vmmMapPage_writes hmap).kept hA h (kmap_mem hw)
  rw [getPdeIndex_eq, kmap_slot] at hkept
  exact hkept

/-- **`vmm_kunmap`**. -/
theorem PageTables.kunmap_kept (hA : A.Lawful V) (h : PageTables V W L s) {cur : ℕ}
    (hw : (cur, 1023) ∈ W) (hrun : vmmKunmap A cur s = .ok s') :
    PageTables V W L s' ∧ Kept V W L {(cur, 1023)} s s' := by
  unfold vmmKunmap at hrun
  rw [bind_eq_ok] at hrun
  obtain ⟨⟨ok, s₁⟩, hunmap, hrun⟩ := hrun
  obtain rfl := Except.ok.inj hrun
  have hwrites := vmmUnmapPage_writes hunmap
  have hkept := hwrites.kept hA h (kmap_mem hw)
  rw [getPdeIndex_eq, kmap_slot] at hkept
  refine ⟨?_, hkept⟩
  rcases h.of_unmapWrites hA (kmap_mem hw) hwrites with ⟨-, rfl, -⟩ | ⟨-, htables, -⟩
  · exact h
  · exact htables

/-- **`buddy_alloc_pages`** leaves memory alone. -/
theorem PageAlloc.Lawful.allocOn_kept (hA : A.Lawful V) (hinv : V.Inv s.alloc) {size ptr : ℕ}
    {zone : Zone} (hrun : A.allocOn size zone s = .ok (ptr, s')) : Kept V W L X s s' := by
  obtain ⟨hcall, hmem⟩ := PageAlloc.allocOn_ok hrun
  exact Kept.of_mem hmem (hA.alloc_pages hinv hcall)

/-- A step that writes a live page outside the blocks `L` that is neither a directory nor a table. -/
theorem Kept.of_page {p : ℕ} (h : PageTables V W (insert (p, 0) L) s)
    (hnot : ∀ b ∈ L, p ∉ block b.1 b.2) (hdir : ∀ w ∈ W, w.1 ≠ p * 4096)
    (halloc : s'.alloc = s.alloc)
    (hmem : ∀ a, ¬ (p * 4096 ≤ a ∧ a < p * 4096 + pageSize) → s'.mem a = s.mem a) :
    Kept V W L X s s' := by
  have hout : ∀ a, a / 4096 ≠ p → s'.mem a = s.mem a := by
    intro a ha
    apply hmem
    unfold pageSize
    omega
  obtain ⟨-, hsame⟩ := h.of_page halloc (Set.mem_insert _ _) hdir hmem
  refine ⟨fun w hw a ha _ => hout a fun heq => ?_, fun w hw _ => hsame w hw, fun a ha => hout a ?_, ?_⟩
  · have hdvd := (h.dir w hw).1
    apply hdir w hw
    omega
  · obtain ⟨b, hb, hin, -⟩ := ha
    rintro rfl
    exact hnot b hb hin
  · rw [halloc]

/-- **A page of `HIGHMEM` that is free now was free at the start**: meanwhile blocks may have been
handed out, and only tables have been given back. -/
theorem Kept.free_high (hA : A.Lawful V) (hk : Kept V W L X s s') (h : PageTables V W L s)
    (h' : PageTables V W L' s') (hL : L ⊆ L') {p : ℕ} (hp : p ∈ V.free s'.alloc)
    (hhigh : highmemStart ≤ p * 4096) : p ∈ V.free s.alloc := by
  have hmem : p ∈ V.pages s.alloc := by
    rw [← hk.pages]
    exact Or.inl hp
  rcases hmem with hfree | ⟨b, hb, hin⟩
  · exact hfree
  · rw [h.live] at hb
    rcases hb with hb | ⟨w, hw, hpres, rfl⟩
    · have hlive : b ∈ V.live s'.alloc := by
        rw [h'.live]
        exact Or.inl (hL hb)
      exact absurd hp (Set.disjoint_left.mp (hA.notFree h'.inv hlive) hin)
    · -- tables lie below `HIGHMEM`
      have hlow := (h.table w hw hpres).1
      rw [block_zero] at hin
      have hin : p = tableOf s w / 4096 := hin
      have hdvd := tableOf_dvd s w
      omega

end Frames

end Kfs.Memory
