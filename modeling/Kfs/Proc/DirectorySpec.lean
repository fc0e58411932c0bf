import Kfs.Proc.Directories

/-!
# What the calls on directories keep

The 224 tables that `vmm_finalize` fills are shared: `userspace_map_kernel` and `fork` copy the
directory entries for them. `SpaceInv` ties the stages of the directories to memory: the slots of
their own have tables of their own, and every directory that is in use has the kernel's entries. The
cells of the kernel stand apart from everything that the calls write, and each step keeps the
invariant.
-/

namespace Kfs.Userspace

open Kfs.Lib Kfs.Lib.Word32 Kfs.Lib.Dyadic Kfs.Memory

/-! ## The invariant -/

/-- What the allocator shows, with the pages of the kernel directory and its tables set apart. -/
def kernelView {σ : Type} (V : PageAlloc.View σ) (kernelDir ptPool : ℕ) : PageAlloc.View σ :=
  V.and (V.Spares (kernelPages kernelDir ptPool))

/-- What every call keeps. -/
structure SpaceInv {σ : Type} (V : PageAlloc.View σ) (kernelDir ptPool : ℕ) (r : SpaceRun σ) :
    Prop where
  tables : PageTables (kernelView V kernelDir ptPool) r.slots (r.blocks kernelDir) r.phys
  kernel : r.stage kernelDir = .live
  held : ∀ pd, r.stage pd ≠ .absent → pd ≠ kernelDir → (pd / 4096, 0) ∉ r.held
  filling : ∀ pd next, r.stage pd = .filling next → ∀ j, next ≤ j → j < 1024 →
    r.phys.mem (pd + 4 * j) = 0
  dirs : ∀ pd, r.stage pd = .live → LinearDir ptPool pd r.phys.mem
  pool : LinearTables ptPool r.phys.mem

/-- The cells that the invariant reads besides the slots. -/
def KernelCell {σ : Type} (ptPool : ℕ) (r : SpaceRun σ) (a : ℕ) : Prop :=
  (∃ pd i, r.Fixed pd i ∧ a = pd + 4 * i) ∨
    ∃ i < ptCount, ∃ j < 1024, a = ptPool + i * 4096 + 4 * j

section Invariant

variable {σ : Type} {A : PageAlloc σ} {V : PageAlloc.View σ} {kernelDir ptPool : ℕ}
  {r r' : SpaceRun σ}

theorem OwnSlot.lt {i : ℕ} (h : OwnSlot i) : i < 1024 := by
  unfold OwnSlot userPdes at h
  omega

theorem ownSlot_zero : OwnSlot 0 := Or.inl (by decide)

/-- Every slot of a directory is its own or fixed. -/
theorem SpaceRun.fixed_lt {pd i : ℕ} (h : r.Fixed pd i) : i < 1024 ∧ r.stage pd ≠ .absent := by
  unfold SpaceRun.Fixed at h
  split at h
  · cases h
  · next heq => exact ⟨h.2, by rw [heq]; simp⟩
  · next heq =>
    refine ⟨?_, by rw [heq]; simp⟩
    unfold userPdes ptCount at h
    omega

theorem SpaceRun.editable_own {pd i : ℕ} (h : r.Editable pd i) :
    r.stage pd ≠ .absent ∧ OwnSlot i := by
  unfold SpaceRun.Editable at h
  split at h
  · cases h
  · next heq => exact ⟨by rw [heq]; simp, Or.inl h.2⟩
  · next heq => exact ⟨by rw [heq]; simp, h⟩

theorem SpaceRun.editable_not_fixed {pd i : ℕ} (h : r.Editable pd i) : ¬ r.Fixed pd i := by
  unfold SpaceRun.Editable at h
  unfold SpaceRun.Fixed
  split at h
  · cases h
  · omega
  · unfold OwnSlot at h
    omega

/-- A directory is a page below `HIGHMEM` that is not free. -/
theorem SpaceInv.dir (h : SpaceInv V kernelDir ptPool r) {pd : ℕ} (hpd : r.stage pd ≠ .absent) :
    4096 ∣ pd ∧ pd < highmemStart ∧ pd / 4096 ∉ V.free r.phys.alloc := by
  obtain ⟨h1, h2, -, h4⟩ := h.tables.dir (pd, 0) ⟨hpd, ownSlot_zero⟩
  exact ⟨h1, h2, h4⟩

/-- A page of the pool is not a directory. -/
theorem SpaceInv.pool_ne (hmap : KernelMap kernelDir ptPool) (h : SpaceInv V kernelDir ptPool r)
    {pd : ℕ} (hpd : r.stage pd ≠ .absent) {i : ℕ} (hi : i < ptCount) : ptPool + i * 4096 ≠ pd := by
  by_cases heq : pd = kernelDir
  · rw [heq]
    exact hmap.apart i hi
  · -- a user directory is a live block
    have hlive : (pd / 4096, 0) ∈ V.live r.phys.alloc := by
      have hl := h.tables.live
      show _ ∈ (kernelView V kernelDir ptPool).live _
      rw [hl]
      exact Or.inl (Or.inr ⟨pd, hpd, heq, rfl⟩)
    have hdis := h.tables.inv.2.live _ _ hlive
    rintro rfl
    refine Set.disjoint_left.mp hdis (Or.inr ⟨i, hi, ?_⟩) (self_mem_block _ _)
    have hdvd := hmap.pool_dvd
    omega

/-- **The cells of the kernel stand apart**: they are in no free page, in no table of the user half
and in no slot that a call may change. -/
theorem SpaceInv.cell_apart (hmap : KernelMap kernelDir ptPool) (h : SpaceInv V kernelDir ptPool r)
    {a : ℕ} (ha : KernelCell ptPool r a) : a / 4096 ∉ V.free r.phys.alloc ∧
    (∀ w ∈ r.slots, slotPresent r.phys w = true → tableOf r.phys w / 4096 ≠ a / 4096) ∧
    ∀ pd i, r.Editable pd i → a ≠ pd + 4 * i := by
  rcases ha with ⟨pd, j, hfix, rfl⟩ | ⟨i, hi, j, hj, rfl⟩
  · obtain ⟨hj, hpd⟩ := SpaceRun.fixed_lt hfix
    obtain ⟨hdvd, -, hfree⟩ := h.dir hpd
    have hpage : (pd + 4 * j) / 4096 = pd / 4096 := by omega
    rw [hpage]
    refine ⟨hfree, fun w hw hpres heq => ?_, fun pd' i hedit heq => ?_⟩
    · have hdvd' := tableOf_dvd r.phys w
      exact (h.tables.table w hw hpres).2.2 (pd, 0) ⟨hpd, ownSlot_zero⟩ (by omega)
    · obtain ⟨hpd', hown⟩ := SpaceRun.editable_own hedit
      obtain ⟨rfl, rfl⟩ := wordAddr_inj hdvd (h.dir hpd').1 hj hown.lt heq
      exact SpaceRun.editable_not_fixed hedit hfix
  · have hdvd := hmap.pool_dvd
    have hpage : (ptPool + i * 4096 + 4 * j) / 4096 = ptPool / 4096 + i := by omega
    have hmem : ptPool / 4096 + i ∈ kernelPages kernelDir ptPool := Or.inr ⟨i, hi, rfl⟩
    rw [hpage]
    refine ⟨fun hfree => ?_, fun w hw hpres heq => ?_, fun pd i' hedit heq => ?_⟩
    · exact Set.disjoint_left.mp h.tables.inv.2.free hmem hfree
    · have hlive : (tableOf r.phys w / 4096, 0) ∈ V.live r.phys.alloc := by
        show _ ∈ (kernelView V kernelDir ptPool).live _
        rw [h.tables.live]
        exact Or.inr ⟨w, hw, hpres, rfl⟩
      exact Set.disjoint_left.mp (h.tables.inv.2.live _ _ hlive) hmem (heq ▸ self_mem_block _ _)
    · obtain ⟨hpd, hown⟩ := SpaceRun.editable_own hedit
      have hdvd' : 4096 ∣ ptPool + i * 4096 := Nat.dvd_add hdvd (Dvd.intro_left i rfl)
      exact h.pool_ne hmap hpd hi (wordAddr_inj hdvd' (h.dir hpd).1 hj hown.lt heq).1

/-- A call that keeps the stages and the cells of the kernel. -/
theorem SpaceInv.of_cells (h : SpaceInv V kernelDir ptPool r) (hstage : r'.stage = r.stage)
    (htables : PageTables (kernelView V kernelDir ptPool) r'.slots (r'.blocks kernelDir) r'.phys)
    (hheld : ∀ pd, r'.stage pd ≠ .absent → pd ≠ kernelDir → (pd / 4096, 0) ∉ r'.held)
    (hcells : ∀ a, KernelCell ptPool r a → r'.phys.mem a = r.phys.mem a) :
    SpaceInv V kernelDir ptPool r' where
  tables := htables
  kernel := by rw [hstage]; exact h.kernel
  held := hheld
  filling pd next hst j hle hj := by
    rw [hstage] at hst
    rw [hcells _ (Or.inl ⟨pd, j, ?_, rfl⟩)]
    · exact h.filling pd next hst j hle hj
    · unfold SpaceRun.Fixed
      rw [hst]
      exact ⟨hle, hj⟩
  dirs pd hst i hi := by
    rw [hstage] at hst
    rw [hcells _ (Or.inl ⟨pd, userPdes + i, ?_, rfl⟩)]
    · exact h.dirs pd hst i hi
    · unfold SpaceRun.Fixed
      rw [hst]
      exact ⟨Nat.le_add_right _ _, Nat.add_lt_add_left hi _⟩
  pool i hi j hj := by
    rw [hcells _ (Or.inr ⟨i, hi, j, hj, rfl⟩)]
    exact h.pool i hi j hj

/-! ## Calls on slots -/

/-- A call that leaves the stages and the other blocks alone. -/
theorem SpaceInv.of_phys (h : SpaceInv V kernelDir ptPool r) {s : Phys σ}
    (htables : PageTables (kernelView V kernelDir ptPool) r.slots (r.blocks kernelDir) s)
    (hcells : ∀ a, KernelCell ptPool r a → s.mem a = r.phys.mem a) :
    SpaceInv V kernelDir ptPool { r with phys := s } :=
  h.of_cells rfl htables h.held hcells

/-- **`vmm_map_page`** on a slot that may be edited. -/
theorem SpaceInv.mapPage (hA : A.Lawful (kernelView V kernelDir ptPool))
    (hmap : KernelMap kernelDir ptPool) (h : SpaceInv V kernelDir ptPool r) {pd v p flags : ℕ}
    {ok : Bool} {s : Phys σ} (hedit : r.Editable pd (getPdeIndex v))
    (hrun : vmmMapPage A pd v p flags r.phys = .ok (ok, s)) :
    SpaceInv V kernelDir ptPool { r with phys := s } := by
  have hw : (pd, getPdeIndex v) ∈ r.slots := SpaceRun.editable_own hedit
  have hwrites := vmmMapPage_writes hrun
  refine h.of_phys ?_ fun a ha => ?_
  · rcases h.tables.of_mapWrites hA hw hwrites with ⟨-, rfl, -⟩ | ⟨-, htables, -⟩
    · exact h.tables
    · exact htables
  · obtain ⟨hfree, htable, hslot⟩ := h.cell_apart hmap ha
    exact hwrites.frame hA h.tables.inv (hslot pd _ hedit) hfree fun hpres => htable _ hw hpres

/-- **`vmm_unmap_page`** on a slot that may be edited. -/
theorem SpaceInv.unmapPage (hA : A.Lawful (kernelView V kernelDir ptPool))
    (hmap : KernelMap kernelDir ptPool) (h : SpaceInv V kernelDir ptPool r) {pd v : ℕ} {ok : Bool}
    {s : Phys σ} (hedit : r.Editable pd (getPdeIndex v))
    (hrun : vmmUnmapPage A pd v r.phys = .ok (ok, s)) :
    SpaceInv V kernelDir ptPool { r with phys := s } := by
  have hw : (pd, getPdeIndex v) ∈ r.slots := SpaceRun.editable_own hedit
  have hwrites := vmmUnmapPage_writes hrun
  refine h.of_phys ?_ fun a ha => ?_
  · rcases h.tables.of_unmapWrites hA hw hwrites with ⟨-, rfl, -⟩ | ⟨-, htables, -⟩
    · exact h.tables
    · exact htables
  · obtain ⟨-, htable, hslot⟩ := h.cell_apart hmap ha
    exact hwrites.frame (hslot pd _ hedit) fun hpres => htable _ hw hpres

/-- The window lies in the last slot. -/
theorem SpaceRun.editable_window {cur : ℕ} (h : r.stage cur = .live) :
    r.Editable cur (getPdeIndex vmmKmapVaddr) := by
  unfold SpaceRun.Editable
  rw [h]
  exact Or.inr (by decide)

theorem vmmKmap_ok {cur p window : ℕ} {s s' : Phys σ} (h : vmmKmap A cur p s = .ok (window, s')) :
    ∃ ok, vmmMapPage A cur vmmKmapVaddr p (ptePresentBit ||| pteRwBit) s = .ok (ok, s') := by
  unfold vmmKmap at h
  rw [bind_eq_ok] at h
  obtain ⟨⟨ok, s₁⟩, hrun, h⟩ := h
  obtain ⟨-, rfl⟩ := Prod.mk.inj (Except.ok.inj h)
  exact ⟨ok, hrun⟩

theorem vmmKunmap_ok {cur : ℕ} {s s' : Phys σ} (h : vmmKunmap A cur s = .ok s') :
    ∃ ok, vmmUnmapPage A cur vmmKmapVaddr s = .ok (ok, s') := by
  unfold vmmKunmap at h
  rw [bind_eq_ok] at h
  obtain ⟨⟨ok, s₁⟩, hrun, h⟩ := h
  obtain rfl := Except.ok.inj h
  exact ⟨ok, hrun⟩

/-! ## Blocks and other memory -/

/-- **`buddy_alloc_pages`** for a block of others. -/
theorem SpaceInv.alloc (hA : A.Lawful (kernelView V kernelDir ptPool))
    (h : SpaceInv V kernelDir ptPool r) {size ptr : ℕ} {zone : Zone} {s : Phys σ}
    (hrun : A.allocOn size zone r.phys = .ok (ptr, s)) :
    SpaceInv V kernelDir ptPool { r with
      phys := s
      held := if ptr = 0 then r.held else insert (ptr / 4096, sizeToOrder size) r.held } := by
  rcases h.tables.alloc_spec hA size zone with hnull | ⟨p, s', hok, hnew⟩
  · obtain ⟨rfl, rfl⟩ := Prod.mk.inj (Except.ok.inj (hrun.symm.trans hnull))
    rw [if_pos rfl]
    exact h
  · obtain ⟨rfl, rfl⟩ := Prod.mk.inj (Except.ok.inj (hrun.symm.trans hok))
    have hne : p * 4096 ≠ 0 := by
      have := hnew.ne_zero
      omega
    rw [if_neg hne, Nat.mul_div_cancel p (by norm_num)]
    refine h.of_cells rfl ?_ (fun pd hpd hk hmem => ?_) fun a _ => congrFun hnew.mem a
    · show PageTables _ r.slots _ s
      have hblocks : (SpaceRun.blocks { r with
          phys := s, held := insert (p, sizeToOrder size) r.held } kernelDir) =
          insert (p, sizeToOrder size) (r.blocks kernelDir) := Set.insert_union
      rw [hblocks]
      exact hnew.tables
    · rcases hmem with heq | hmem
      · -- the new block is not a directory
        apply hnew.fresh
        exact Or.inr ⟨pd, hpd, hk, heq.symm⟩
      · exact h.held pd hpd hk hmem

/-- A page that was asked for and not handed out. -/
theorem SpaceInv.allocFails (hA : A.Lawful (kernelView V kernelDir ptPool))
    (h : SpaceInv V kernelDir ptPool r) {size : ℕ} {zone : Zone} {s : Phys σ}
    (hrun : A.allocOn size zone r.phys = .ok (0, s)) :
    SpaceInv V kernelDir ptPool { r with phys := s } := by
  have hinv := h.alloc hA hrun
  rw [if_pos rfl] at hinv
  exact hinv

/-- **`buddy_free_block`** for a block of others. -/
theorem SpaceInv.free (hA : A.Lawful (kernelView V kernelDir ptPool))
    (h : SpaceInv V kernelDir ptPool r) {p k : ℕ} (hb : (p, k) ∈ r.held) {s : Phys σ}
    (hrun : A.freeOn (p * 4096) r.phys = .ok s) :
    SpaceInv V kernelDir ptPool { r with phys := s, held := r.held \ {(p, k)} } := by
  have hlive : (p, k) ∈ V.live r.phys.alloc := by
    show _ ∈ (kernelView V kernelDir ptPool).live _
    rw [h.tables.live]
    exact Or.inl (Or.inl hb)
  -- a block of others holds no directory
  have hdir : ∀ w ∈ r.slots, w.1 / 4096 ∉ block p k := by
    rintro ⟨pd, i⟩ ⟨hpd, -⟩ hmem
    by_cases hk : pd = kernelDir
    · refine Set.disjoint_left.mp (h.tables.inv.2.live _ _ hlive) (Or.inl rfl) ?_
      rw [← hk]
      exact hmem
    · have hlive' : (pd / 4096, 0) ∈ V.live r.phys.alloc := by
        show _ ∈ (kernelView V kernelDir ptPool).live _
        rw [h.tables.live]
        exact Or.inl (Or.inr ⟨pd, hpd, hk, rfl⟩)
      have hne : (pd / 4096, 0) ≠ (p, k) := fun heq => h.held pd hpd hk (heq ▸ hb)
      exact Set.disjoint_left.mp (hA.disjoint h.tables.inv hlive' hlive hne) (self_mem_block _ _) hmem
  obtain ⟨s', hok, hmem, htables, -⟩ := h.tables.free_spec hA (Or.inl hb) hdir
  obtain rfl := Except.ok.inj (hok.symm.trans hrun)
  refine h.of_cells rfl ?_ (fun pd hpd hk hheld => h.held pd hpd hk hheld.1)
    fun a _ => congrFun hmem a
  show PageTables _ r.slots _ s'
  have hblocks : (SpaceRun.blocks { r with phys := s', held := r.held \ {(p, k)} } kernelDir) =
      r.blocks kernelDir \ {(p, k)} := by
    unfold SpaceRun.blocks
    rw [Set.union_sdiff_distrib]
    congr 1
    refine (Set.sdiff_singleton_eq_self ?_).symm
    rintro ⟨pd, hpd, hk, heq⟩
    exact h.held pd hpd hk (heq ▸ hb)
  rw [hblocks]
  exact htables

/-- The tables of the pool are named by the kernel directory. -/
theorem SpaceInv.pool_table (hmap : KernelMap kernelDir ptPool) (h : SpaceInv V kernelDir ptPool r)
    {pd : ℕ} (hpd : r.stage pd = .live) {i : ℕ} (hi : i < ptCount) :
    slotPresent r.phys (pd, userPdes + i) = true ∧
      tableOf r.phys (pd, userPdes + i) = ptPool + i * 4096 := by
  have hword : r.phys.mem (slotAddr (pd, userPdes + i)) = linearPde ptPool i := h.dirs pd hpd i hi
  have hdvd : 4096 ∣ ptPool + i * pageSize := Nat.dvd_add hmap.pool_dvd (Dvd.intro_left i rfl)
  have hlt : ptPool + i * pageSize < 2 ^ 32 := by
    have hle := hmap.pool_lt
    unfold mibSize ptCount at *
    unfold pageSize
    omega
  unfold slotPresent tableOf
  rw [hword]
  obtain ⟨haddr, hset, -, -⟩ := linearEntry_spec hdvd hlt
  exact ⟨hset, haddr⟩

/-- A write outside directories and tables. -/
theorem SpaceInv.store (hmap : KernelMap kernelDir ptPool) (h : SpaceInv V kernelDir ptPool r)
    {a : ℕ} (ha : ¬ r.PagingCell a) (word : ℕ) :
    SpaceInv V kernelDir ptPool { r with phys := r.phys.write a word } := by
  -- the cells of directories and tables are not written
  have hdir : ∀ pd i, r.stage pd ≠ .absent → i < 1024 → pd + 4 * i ≠ a := by
    rintro pd i hpd hi rfl
    have hdvd := (h.dir hpd).1
    exact ha ⟨pd, hpd, Or.inl (by omega)⟩
  have htable : ∀ pd i, r.stage pd ≠ .absent → i < 1024 → slotPresent r.phys (pd, i) = true →
      ∀ j < 1024, tableOf r.phys (pd, i) + 4 * j ≠ a := by
    rintro pd i hpd hi hpres j hj rfl
    have hdvd := tableOf_dvd r.phys (pd, i)
    exact ha ⟨pd, hpd, Or.inr ⟨i, hi, hpres, by omega⟩⟩
  refine h.of_phys ?_ fun c hc => if_neg ?_
  · refine (h.tables.of_cells (Phys.write_alloc r.phys a word) (fun w hw => if_neg ?_)
      fun w hw hpres j hj => if_neg ?_).1
    · exact hdir w.1 w.2 hw.1 hw.2.lt
    · exact htable w.1 w.2 hw.1 hw.2.lt hpres j hj
  · rcases hc with ⟨pd, i, hfix, rfl⟩ | ⟨i, hi, j, hj, rfl⟩
    · obtain ⟨hlt, hpd⟩ := SpaceRun.fixed_lt hfix
      exact hdir pd i hpd hlt
    · obtain ⟨hpres, htab⟩ := h.pool_table hmap h.kernel hi
      rw [← htab]
      refine htable kernelDir _ (by rw [h.kernel]; simp) ?_ hpres j hj
      unfold userPdes
      unfold ptCount at hi
      omega

/-! ## New directories -/

theorem SpaceRun.setStage_self (r : SpaceRun σ) (pd : ℕ) (st : DirStage) :
    (r.setStage pd st).stage pd = st := Function.update_self _ _ _

theorem SpaceRun.setStage_of_ne (r : SpaceRun σ) {pd pd' : ℕ} (st : DirStage) (h : pd' ≠ pd) :
    (r.setStage pd st).stage pd' = r.stage pd' := Function.update_of_ne h _ _

/-- The slots of one more directory. -/
theorem SpaceRun.slots_setStage_new {pd : ℕ} {st : DirStage} (habs : r.stage pd = .absent)
    (hst : st ≠ .absent) :
    (r.setStage pd st).slots = r.slots ∪ { w | w.1 = pd ∧ w.2 ∈ { i | OwnSlot i } } := by
  ext ⟨q, i⟩
  by_cases hq : q = pd
  · subst hq
    simp only [SpaceRun.slots, Set.mem_ofPred_eq, Set.mem_union, r.setStage_self, habs]
    tauto
  · simp only [SpaceRun.slots, Set.mem_ofPred_eq, Set.mem_union, r.setStage_of_ne st hq, hq]
    tauto

/-- Its block is one more live block. -/
theorem SpaceRun.blocks_setStage_new {pd : ℕ} {st : DirStage} (habs : r.stage pd = .absent)
    (hst : st ≠ .absent) (hk : pd ≠ kernelDir) :
    (r.setStage pd st).blocks kernelDir = insert (pd / 4096, 0) (r.blocks kernelDir) := by
  ext b
  constructor
  · rintro (hheld | ⟨q, hq, hqk, rfl⟩)
    · exact Or.inr (Or.inl hheld)
    · by_cases heq : q = pd
      · rw [heq]
        exact Set.mem_insert _ _
      · rw [r.setStage_of_ne st heq] at hq
        exact Or.inr (Or.inr ⟨q, hq, hqk, rfl⟩)
  · rintro (rfl | hheld | ⟨q, hq, hqk, rfl⟩)
    · refine Or.inr ⟨pd, ?_, hk, rfl⟩
      rw [r.setStage_self]
      exact hst
    · exact Or.inl hheld
    · have heq : q ≠ pd := by
        rintro rfl
        exact hq habs
      refine Or.inr ⟨q, ?_, hqk, rfl⟩
      rw [r.setStage_of_ne st heq]
      exact hq

/-- **A new directory**: its own slots are empty, and the others are either those of the kernel or
empty too. -/
theorem SpaceInv.addDirectory (hA : A.Lawful (kernelView V kernelDir ptPool))
    (hmap : KernelMap kernelDir ptPool) (h : SpaceInv V kernelDir ptPool r) {pd : ℕ}
    {s₁ s₂ : Phys σ} {st : DirStage}
    (hrun : A.allocOn pageSize .lowmem r.phys = .ok (pd, s₁)) (hne : pd ≠ 0)
    (halloc : s₂.alloc = s₁.alloc)
    (hout : ∀ a, ¬ (pd ≤ a ∧ a < pd + pageSize) → s₂.mem a = s₁.mem a)
    (hown : ∀ i, OwnSlot i → s₂.mem (pd + 4 * i) = 0)
    (hst : (st = .live ∧ LinearDir ptPool pd s₂.mem) ∨
      (st = .filling 0 ∧ ∀ j < 1024, s₂.mem (pd + 4 * j) = 0)) :
    SpaceInv V kernelDir ptPool ({ r with phys := s₂ }.setStage pd st) := by
  obtain ⟨p, rfl, hnew⟩ := h.tables.alloc_ok hA hrun hne
  rw [sizeToOrder_pageSize] at hnew
  have hdvd : 4096 ∣ p * 4096 := Dvd.intro_left p rfl
  have hdiv : p * 4096 / 4096 = p := Nat.mul_div_cancel p (by norm_num)
  have hself : p * 4096 / 4096 ∈ block p 0 := hdiv.symm ▸ self_mem_block p 0
  have hstage : st ≠ .absent := by
    rcases hst with ⟨rfl, -⟩ | ⟨rfl, -⟩
    · simp
    · simp
  -- the page was free, so it was no directory
  have habs : r.stage (p * 4096) = .absent := by
    by_contra hpd
    exact (h.dir hpd).2.2 (hnew.subset hself)
  have hother : ∀ pd, r.stage pd ≠ .absent → pd ≠ p * 4096 := by
    rintro pd hpd rfl
    exact hpd habs
  have hkernel : kernelDir ≠ p * 4096 := hother kernelDir (by rw [h.kernel]; simp)
  have hkeep : ∀ pd, pd ≠ p * 4096 → (SpaceRun.setStage { r with phys := s₂ } (p * 4096) st).stage pd =
      r.stage pd := fun pd hpd => SpaceRun.setStage_of_ne { r with phys := s₂ } st hpd
  have hset := SpaceRun.setStage_self { r with phys := s₂ } (p * 4096) st
  -- the directories that were there are as they were
  have hpage : ∀ pd j, r.stage pd ≠ .absent → j < 1024 →
      s₂.mem (pd + 4 * j) = r.phys.mem (pd + 4 * j) := by
    intro pd j hpd hj
    rw [hout _ fun hc => hother pd hpd ((wordAddr_mem_page (h.dir hpd).1 hdvd hj).mp hc), hnew.mem]
  obtain ⟨htables, -⟩ := hnew.tables.of_page halloc (Set.mem_insert _ _)
    (fun w hw => hother w.1 hw.1) hout
  have hlive : (p, 0) ∈ (kernelView V kernelDir ptPool).live s₂.alloc := by
    rw [htables.live]
    exact Or.inl (Set.mem_insert _ _)
  refine {
    tables := ?_
    kernel := (hkeep kernelDir hkernel).trans h.kernel
    held := fun pd hpd hk hmem => ?_
    filling := fun pd next hfill j hle hj => ?_
    dirs := fun pd hlive => ?_
    pool := fun i hi j hj => ?_ }
  · rw [SpaceRun.slots_setStage_new (r := { r with phys := s₂ }) habs hstage,
      SpaceRun.blocks_setStage_new (r := { r with phys := s₂ }) habs hstage hkernel.symm, hdiv]
    refine htables.addDirectory hdvd (hdiv ▸ lowmem_lt (hnew.zone _ hself)) (fun i hi => OwnSlot.lt hi)
      (Set.disjoint_left.mp (hA.notFree htables.inv hlive) hself)
      (hdiv.symm ▸ Set.mem_insert _ _) fun i hi => ?_
    unfold slotPresent slotAddr
    dsimp only
    rw [hown i hi, flagIsSet_zero]
  · by_cases heq : pd = p * 4096
    · rw [heq, hdiv] at hmem
      exact hnew.fresh (Or.inl hmem)
    · rw [hkeep pd heq] at hpd
      exact h.held pd hpd hk hmem
  · by_cases heq : pd = p * 4096
    · rw [heq, hset] at hfill
      rcases hst with ⟨rfl, -⟩ | ⟨-, hzero⟩
      · cases hfill
      · rw [heq]
        exact hzero j hj
    · rw [hkeep pd heq] at hfill
      exact (hpage pd j (by rw [hfill]; simp) hj).trans (h.filling pd next hfill j hle hj)
  · by_cases heq : pd = p * 4096
    · rw [heq, hset] at hlive
      rcases hst with ⟨-, hdir⟩ | ⟨rfl, -⟩
      · rw [heq]
        exact hdir
      · cases hlive
    · rw [hkeep pd heq] at hlive
      intro i hi
      refine (hpage pd _ (by rw [hlive]; simp) ?_).trans (h.dirs pd hlive i hi)
      unfold userPdes
      unfold ptCount at hi
      omega
  · have hfree := (h.cell_apart hmap (Or.inr ⟨i, hi, j, hj, rfl⟩)).1
    refine (hout _ fun hc => hfree ?_).trans ((congrFun hnew.mem _).trans (h.pool i hi j hj))
    have hpool : (ptPool + i * 4096 + 4 * j) / 4096 = p * 4096 / 4096 := by
      unfold pageSize at hc
      omega
    rw [hpool]
    exact hnew.subset hself

/-- `userspace_map_kernel` where there is a kernel directory. -/
theorem userspaceMapKernel_ok {pd : ℕ} {s s' : Phys σ} {ok : Bool} (hk : kernelDir ≠ 0)
    (h : userspaceMapKernel kernelDir pd s = .ok (ok, s')) : ok = true ∧
      s' = (s.zeroPage pd).memcpy (pd + 4 * userPdes) (kernelDir + 4 * userPdes) (224 * 4) := by
  unfold userspaceMapKernel at h
  rw [bind_eq_ok] at h
  obtain ⟨pdVirt, hpd, h⟩ := h
  obtain ⟨rfl, -⟩ := physLinear_ok hpd
  simp only [if_neg hk] at h
  rw [bind_eq_ok] at h
  obtain ⟨kspaceVirt, hkernel, h⟩ := h
  obtain ⟨rfl, -⟩ := physLinear_ok hkernel
  obtain ⟨rfl, rfl⟩ := Prod.mk.inj (Except.ok.inj h)
  exact ⟨rfl, rfl⟩

/-- The cells that the copy of the kernel's directory entries writes. -/
theorem shareEntries_mem (s : Phys σ) (src dst : ℕ) (a : ℕ) :
    (∀ i < ptCount, a = dst + 4 * (userPdes + i) →
      (s.memcpy (dst + 4 * userPdes) (src + 4 * userPdes) (224 * 4)).mem a =
        s.mem (src + 4 * (userPdes + i))) ∧
    (¬ (dst + 4 * userPdes ≤ a ∧ a < dst + 4 * userPdes + 224 * 4) →
      (s.memcpy (dst + 4 * userPdes) (src + 4 * userPdes) (224 * 4)).mem a = s.mem a) := by
  refine ⟨fun i hi heq => ?_, fun hout => if_neg hout⟩
  have hin : dst + 4 * userPdes ≤ a ∧ a < dst + 4 * userPdes + 224 * 4 := by
    unfold ptCount at hi
    omega
  refine (if_pos hin).trans (congrArg s.mem ?_)
  omega

/-- The own slots of a directory are not among the entries that are copied. -/
theorem OwnSlot.not_shared {pd i : ℕ} (h : OwnSlot i) :
    ¬ (pd + 4 * userPdes ≤ pd + 4 * i ∧ pd + 4 * i < pd + 4 * userPdes + 224 * 4) := by
  unfold OwnSlot ptCount at h
  omega

/-- **`userspace_map_kernel`** on a new page. -/
theorem SpaceInv.mapKernel (hA : A.Lawful (kernelView V kernelDir ptPool))
    (hmap : KernelMap kernelDir ptPool) (h : SpaceInv V kernelDir ptPool r) {pd : ℕ}
    {s s' : Phys σ} {ok : Bool} (hrun : A.allocOn pageSize .lowmem r.phys = .ok (pd, s))
    (hne : pd ≠ 0) (hkern : userspaceMapKernel kernelDir pd s = .ok (ok, s')) :
    SpaceInv V kernelDir ptPool
      ({ r with phys := s' }.setStage pd (if ok then .live else .filling 0)) := by
  obtain ⟨rfl, rfl⟩ := userspaceMapKernel_ok hmap.dir_ne hkern
  rw [if_pos rfl]
  have hshare := shareEntries_mem (s.zeroPage pd) kernelDir pd
  obtain ⟨hpd, hmem, hfresh⟩ : 4096 ∣ pd ∧ s.mem = r.phys.mem ∧ pd ≠ kernelDir := by
    obtain ⟨p, rfl, hnew⟩ := h.tables.alloc_ok hA hrun hne
    refine ⟨Dvd.intro_left p rfl, hnew.mem, ?_⟩
    rintro rfl
    apply (h.dir (by rw [h.kernel]; simp)).2.2
    rw [Nat.mul_div_cancel p (by norm_num)]
    exact hnew.subset (self_mem_block p _)
  refine h.addDirectory hA hmap hrun hne rfl (fun a ha => ?_) (fun i hi => ?_)
    (Or.inl ⟨rfl, fun i hi => ?_⟩)
  · rw [(hshare a).2 fun hc => ha ?_]
    · exact if_neg ha
    · unfold userPdes at hc
      unfold pageSize
      omega
  · rw [(hshare _).2 hi.not_shared]
    exact if_pos ((wordAddr_mem_page hpd hpd hi.lt).mpr rfl)
  · -- the entry of the kernel directory
    have hlt : userPdes + i < 1024 := by
      unfold userPdes
      unfold ptCount at hi
      omega
    rw [(hshare _).1 i hi rfl, Phys.zeroPage_mem, if_neg, hmem]
    · exact h.dirs kernelDir h.kernel i hi
    · rw [wordAddr_mem_page hmap.dir_dvd hpd hlt]
      exact hfresh.symm

/-- **`task_clone`** on a new page. -/
theorem SpaceInv.clone (hA : A.Lawful (kernelView V kernelDir ptPool))
    (hmap : KernelMap kernelDir ptPool) (h : SpaceInv V kernelDir ptPool r) {pd pdVirt : ℕ}
    {s : Phys σ} (hrun : A.allocOn pageSize .lowmem r.phys = .ok (pd, s)) (hne : pd ≠ 0)
    (hvirt : physLinear pd = .ok pdVirt) :
    SpaceInv V kernelDir ptPool ({ r with phys := s.zeroPage pdVirt }.setStage pd (.filling 0)) := by
  obtain ⟨rfl, -⟩ := physLinear_ok hvirt
  have hpd : 4096 ∣ pd := by
    obtain ⟨p, rfl, -⟩ := h.tables.alloc_ok hA hrun hne
    exact Dvd.intro_left p rfl
  have hzero : ∀ j < 1024, (s.zeroPage pd).mem (pd + 4 * j) = 0 :=
    fun j hj => if_pos ((wordAddr_mem_page hpd hpd hj).mpr rfl)
  exact h.addDirectory hA hmap hrun hne rfl (fun a ha => if_neg ha) (fun i hi => hzero i hi.lt)
    (Or.inr ⟨rfl, hzero⟩)

/-! ## `fork` -/

/-- A directory that stays one keeps its slots and its block. -/
theorem SpaceRun.setStage_present (r : SpaceRun σ) (kernelDir : ℕ) {pd : ℕ} {st : DirStage}
    (hold : r.stage pd ≠ .absent) (hst : st ≠ .absent) :
    (∀ q, (r.setStage pd st).stage q ≠ .absent ↔ r.stage q ≠ .absent) ∧
    (r.setStage pd st).slots = r.slots ∧
    (r.setStage pd st).blocks kernelDir = r.blocks kernelDir := by
  have habs : ∀ q, (r.setStage pd st).stage q ≠ .absent ↔ r.stage q ≠ .absent := by
    intro q
    by_cases heq : q = pd
    · rw [heq, r.setStage_self]
      exact iff_of_true hst hold
    · rw [r.setStage_of_ne _ heq]
  refine ⟨habs, ?_, ?_⟩
  · ext w
    exact and_congr_left fun _ => habs w.1
  · unfold SpaceRun.blocks
    simp only [habs]
    rfl

/-- The child's directory with more entries done. -/
theorem SpaceInv.advance (h : SpaceInv V kernelDir ptPool r) {new i j : ℕ}
    (hst : r.stage new = .filling i) (hle : i ≤ j) :
    SpaceInv V kernelDir ptPool (r.setStage new (.filling j)) := by
  have hold : r.stage new ≠ .absent := by rw [hst]; simp
  obtain ⟨habs, hslots, hblocks⟩ := r.setStage_present kernelDir hold
    (show DirStage.filling j ≠ .absent by simp)
  have hlive : ∀ pd, (r.setStage new (.filling j)).stage pd = .live ↔ r.stage pd = .live := by
    intro pd
    by_cases heq : pd = new
    · rw [heq, r.setStage_self, hst]
      simp
    · rw [r.setStage_of_ne _ heq]
  exact {
    tables := by
      rw [hslots, hblocks]
      exact h.tables
    kernel := (hlive kernelDir).mpr h.kernel
    held := fun pd hpd hk => h.held pd ((habs pd).mp hpd) hk
    filling := by
      intro pd next hfill k hk hk'
      by_cases heq : pd = new
      · rw [heq, r.setStage_self] at hfill
        obtain rfl := DirStage.filling.inj hfill
        rw [heq]
        exact h.filling new i hst k (hle.trans hk) hk'
      · rw [r.setStage_of_ne _ heq] at hfill
        exact h.filling pd next hfill k hk hk'
    dirs := fun pd hpd => h.dirs pd ((hlive pd).mp hpd)
    pool := h.pool }

/-- What the turn of `fork` does to memory, where it returns. -/
inductive ForkTableWrites (A : PageAlloc σ) (current new i : ℕ) (s : Phys σ) :
    Bool → Phys σ → Prop where
  | skip : ForkTableWrites A current new i s true s
  | fail {s' : Phys σ} : A.allocOn pageSize .lowmem s = .ok (0, s') →
      ForkTableWrites A current new i s false s'
  | table {s' : Phys σ} {pt : ℕ} : slotPresent s (current, i) = true →
      A.allocOn pageSize .lowmem s = .ok (pt, s') → pt ≠ 0 →
      ForkTableWrites A current new i s true
        ((s'.write (slotAddr (new, i))
          (getEntryAddr pt ||| getEntryFlags (s'.mem (slotAddr (current, i))))).zeroPage
            (getEntryAddr (getEntryAddr pt ||| getEntryFlags (s'.mem (slotAddr (current, i))))))

theorem forkTableHead_writes {current new i : ℕ} {s s' : Phys σ} {ok : Bool} {pt : Option ℕ}
    (h : forkTableHead A current new s i = .ok (ok, pt, s')) :
    ForkTableWrites A current new i s ok s' := by
  unfold forkTableHead at h
  rw [bind_eq_ok] at h
  obtain ⟨currentPd, hcur, h⟩ := h
  obtain ⟨rfl, -⟩ := physLinear_ok hcur
  rw [bind_eq_ok] at h
  obtain ⟨newPd, hnew, h⟩ := h
  obtain ⟨rfl, -⟩ := physLinear_ok hnew
  split at h
  · next hpres =>
    rw [bind_eq_ok] at h
    obtain ⟨⟨newPt, s₁⟩, halloc, h⟩ := h
    simp only at h
    split at h
    · next hnull =>
      subst hnull
      obtain ⟨rfl, heq⟩ := Prod.mk.inj (Except.ok.inj h)
      obtain ⟨-, rfl⟩ := Prod.mk.inj heq
      exact .fail halloc
    · next hne =>
      rw [bind_eq_ok] at h
      obtain ⟨currentPt, -, h⟩ := h
      rw [bind_eq_ok] at h
      obtain ⟨newPtVirt, hvirt, h⟩ := h
      obtain ⟨rfl, -⟩ := physLinear_ok hvirt
      obtain ⟨rfl, heq⟩ := Prod.mk.inj (Except.ok.inj h)
      obtain ⟨-, rfl⟩ := Prod.mk.inj heq
      rw [Phys.write_mem, if_pos rfl]
      exact .table hpres halloc hne
  · obtain ⟨rfl, heq⟩ := Prod.mk.inj (Except.ok.inj h)
    obtain ⟨-, rfl⟩ := Prod.mk.inj heq
    exact .skip

/-- The word that `fork` writes into the child's slot. -/
theorem forkTable_pde {pt e : ℕ} (hdvd : 4096 ∣ pt) (hlt : pt < 2 ^ 32)
    (he : flagIsSet e pdePresentBit = true) :
    getEntryAddr (getEntryAddr pt ||| getEntryFlags e) = pt ∧
      flagIsSet (getEntryAddr pt ||| getEntryFlags e) pdePresentBit = true := by
  have hflags : getEntryFlags e < 4096 :=
    lt_of_le_of_lt Nat.and_le_right (by norm_num : (0xFFF : ℕ) < 4096)
  have hkeep : flagIsSet (getEntryFlags e) pdePresentBit = flagIsSet e pdePresentBit := by
    unfold flagIsSet getEntryFlags
    rw [Nat.and_assoc]
    rfl
  rw [getEntryAddr_of_dvd hdvd hlt]
  constructor
  · rw [getEntryAddr_or hflags, getEntryAddr_of_dvd hdvd hlt]
  · rw [flagIsSet_or, hkeep, he, Bool.or_true]

/-- **A turn of `fork`** that finds a table: the child's slot names a new page of zeros, and no
translation has changed. -/
theorem forkTable_tables {W L : Set (ℕ × ℕ)} {s s₁ : Phys σ} (hA : A.Lawful V)
    (h : PageTables V W L s) {current new i pt : ℕ} (hw : (new, i) ∈ W)
    (habs : slotPresent s (new, i) = false) (hpres : slotPresent s (current, i) = true)
    (halloc : A.allocOn pageSize .lowmem s = .ok (pt, s₁)) (hne : pt ≠ 0) :
    let e := getEntryAddr pt ||| getEntryFlags (s₁.mem (slotAddr (current, i)))
    let s' := (s₁.write (slotAddr (new, i)) e).zeroPage (getEntryAddr e)
    PageTables V W L s' ∧ s'.mem (slotAddr (new, i)) = e ∧ getEntryAddr e = pt ∧
      flagIsSet e pdePresentBit = true ∧ (∀ w ∈ W, ∀ j < 1024, pte s' w j = pte s w j) ∧
      ∀ a, a ≠ slotAddr (new, i) → a / 4096 ∉ V.free s.alloc → s'.mem a = s.mem a := by
  intro e s'
  obtain ⟨hcall, hmem₁⟩ := PageAlloc.allocOn_ok halloc
  obtain ⟨p, rfl, htaken⟩ : ∃ p, pt = p * 4096 ∧
      PageAlloc.Taken V s.alloc s₁.alloc .lowmem p 0 := by
    rcases hA.alloc h.inv pageSize .lowmem with hnull | ⟨p, a', hok, ht⟩
    · exact absurd (Prod.mk.inj (Except.ok.inj (hcall.symm.trans hnull))).1 hne
    · obtain ⟨rfl, rfl⟩ := Prod.mk.inj (Except.ok.inj (hcall.symm.trans hok))
      rw [sizeToOrder_pageSize] at ht
      exact ⟨p, rfl, ht⟩
  have hdvd : 4096 ∣ p * 4096 := Dvd.intro_left p rfl
  have hlow := lowmem_lt (htaken.zone p (self_mem_block p 0))
  have hfree := htaken.subset (self_mem_block p 0)
  have he : e = getEntryAddr (p * 4096) ||| getEntryFlags (s.mem (slotAddr (current, i))) := by
    show _ ||| getEntryFlags (s₁.mem _) = _
    rw [hmem₁]
  obtain ⟨haddr, hpresent⟩ := forkTable_pde hdvd (hlow.trans (by decide)) hpres
  rw [← he] at haddr hpresent
  obtain ⟨hpd, -, hi, -⟩ := h.dir _ hw
  have hpage : ¬ (p * 4096 ≤ slotAddr (new, i) ∧ slotAddr (new, i) < p * 4096 + pageSize) := by
    unfold slotAddr
    rw [wordAddr_mem_page hpd hdvd hi]
    exact (h.free_ne hA hfree).1 (new, i) hw
  have hmem : ∀ a, s'.mem a = if p * 4096 ≤ a ∧ a < p * 4096 + pageSize then 0
      else if a = slotAddr (new, i) then e else s.mem a := by
    intro a
    rw [Phys.zeroPage_mem, Phys.write_mem, hmem₁, haddr]
  -- the slot is not in the new table
  have hcells : ∀ a, s'.mem a = if a = p * 4096 + 4 * 0 then 0 else if a = slotAddr (new, i) then e
      else if p * 4096 ≤ a ∧ a < p * 4096 + pageSize then 0 else s.mem a := by
    intro a
    rw [hmem]
    by_cases hc : p * 4096 ≤ a ∧ a < p * 4096 + pageSize
    · have hne : a ≠ slotAddr (new, i) := by
        rintro rfl
        exact hpage hc
      rw [if_pos hc, if_neg hne, if_pos hc, ite_self]
    · have hne : a ≠ p * 4096 + 4 * 0 := by
        unfold pageSize at hc
        omega
      rw [if_neg hc, if_neg hne, if_neg hc]
  obtain ⟨htables, -, hpte⟩ := h.newTable hA s' hw habs htaken (by norm_num) haddr hpresent hcells rfl
  refine ⟨htables, ?_, haddr, hpresent, fun w hw' j hj => ?_, fun a hslot hnot => ?_⟩
  · rw [hmem, if_neg hpage, if_pos rfl]
  · rw [hpte w hw' j hj]
    split
    · next heq =>
      rw [heq.1, pte_of_absent habs]
      rfl
    · rfl
  · rw [hmem, if_neg, if_neg hslot]
    intro hc
    apply hnot
    have heq : a / 4096 = p := by
      unfold pageSize at hc
      omega
    rw [heq]
    exact hfree

/-- **A turn of `fork`** up to the inner loop. -/
theorem SpaceInv.forkTable (hA : A.Lawful (kernelView V kernelDir ptPool))
    (hmap : KernelMap kernelDir ptPool) (h : SpaceInv V kernelDir ptPool r) {current new i : ℕ}
    {s : Phys σ} {ok : Bool} (hst : r.stage new = .filling i) (hi : i < userPdes)
    (hrun : ForkTableWrites A current new i r.phys ok s) :
    SpaceInv V kernelDir ptPool
      ({ r with phys := s }.setStage new (.filling (if ok then i + 1 else i))) := by
  cases hrun with
  | skip => exact h.advance hst (Nat.le_succ i)
  | fail hnull =>
    rcases h.tables.alloc_spec hA pageSize .lowmem with hnull' | ⟨p, s', hok, hnew⟩
    · obtain ⟨-, rfl⟩ := Prod.mk.inj (Except.ok.inj (hnull'.symm.trans hnull))
      exact h.advance hst le_rfl
    · have haddr := (Prod.mk.inj (Except.ok.inj (hok.symm.trans hnull))).1
      have := hnew.ne_zero
      omega
  | @table s₁ pt hpres halloc hne =>
    have h₁ := h.advance hst (Nat.le_succ i)
    have hedit : (r.setStage new (.filling (i + 1))).Editable new i := by
      unfold SpaceRun.Editable
      rw [r.setStage_self]
      exact ⟨Nat.lt_succ_self i, hi⟩
    have habs : slotPresent r.phys (new, i) = false := by
      unfold slotPresent slotAddr
      dsimp only
      rw [h.filling new i hst i le_rfl (hi.trans (by decide)), flagIsSet_zero]
    obtain ⟨htables, -, -, -, -, hframe⟩ := forkTable_tables hA h₁.tables
      (SpaceRun.editable_own hedit) habs hpres halloc hne
    refine h₁.of_phys htables fun a ha => ?_
    obtain ⟨hfree, -, hslot⟩ := h₁.cell_apart hmap ha
    exact hframe a (hslot new i hedit) hfree

/-- **The last step of `fork`**: the child gets the kernel's entries from its parent. -/
theorem SpaceInv.forkShare (hmap : KernelMap kernelDir ptPool) (h : SpaceInv V kernelDir ptPool r)
    {current new : ℕ} (hcur : r.stage current = .live) (hst : r.stage new = .filling userPdes) :
    SpaceInv V kernelDir ptPool ({ r with
      phys := r.phys.memcpy (new + 4 * userPdes) (current + 4 * userPdes) (224 * 4) }.setStage
        new .live) := by
  generalize hs : r.phys.memcpy (new + 4 * userPdes) (current + 4 * userPdes) (224 * 4) = s
  have hshare := shareEntries_mem r.phys current new
  rw [hs] at hshare
  have hnew : r.stage new ≠ .absent := by rw [hst]; simp
  have hdvd := (h.dir hnew).1
  obtain ⟨habs, hslots, hblocks⟩ := SpaceRun.setStage_present { r with phys := s } kernelDir hnew
    (show DirStage.live ≠ .absent by simp)
  -- the written cells lie in the page of the child's directory
  have hpage : ∀ {p j : ℕ}, 4096 ∣ p → p ≠ new → j < 1024 →
      s.mem (p + 4 * j) = r.phys.mem (p + 4 * j) := by
    intro p j hp hne hj
    refine (hshare _).2 fun hc => hne ?_
    apply (wordAddr_mem_page hp hdvd hj).mp
    unfold userPdes at hc
    unfold pageSize
    omega
  refine {
    tables := ?_
    kernel := ?_
    held := fun pd hpd hk => h.held pd ((habs pd).mp hpd) hk
    filling := fun pd next hfill j hle hj => ?_
    dirs := fun pd hpd => ?_
    pool := fun i hi j hj => ?_ }
  · rw [hslots, hblocks]
    refine (h.tables.of_cells (show s.alloc = r.phys.alloc by rw [← hs]; rfl) (fun w hw => ?_)
      fun w hw hpres j hj => ?_).1
    · by_cases heq : w.1 = new
      · unfold slotAddr
        rw [heq]
        exact (hshare _).2 hw.2.not_shared
      · exact hpage (h.dir hw.1).1 heq hw.2.lt
    · exact hpage (tableOf_dvd _ _)
        ((h.tables.table w hw hpres).2.2 (new, 0) ⟨hnew, ownSlot_zero⟩) hj
  · by_cases heq : kernelDir = new
    · rw [heq]
      exact SpaceRun.setStage_self _ _ _
    · rw [SpaceRun.setStage_of_ne _ _ heq]
      exact h.kernel
  · have hne : pd ≠ new := by
      rintro rfl
      rw [SpaceRun.setStage_self] at hfill
      cases hfill
    rw [SpaceRun.setStage_of_ne _ _ hne] at hfill
    have hpd : r.stage pd ≠ .absent := by
      rw [show r.stage pd = .filling next from hfill]
      simp
    exact (hpage (h.dir hpd).1 hne hj).trans (h.filling pd next hfill j hle hj)
  · intro i hi
    by_cases heq : pd = new
    · rw [heq]
      exact ((hshare _).1 i hi rfl).trans (h.dirs current hcur i hi)
    · rw [SpaceRun.setStage_of_ne _ _ heq] at hpd
      have hpd : r.stage pd = .live := hpd
      refine (hpage (h.dir (by rw [hpd]; simp)).1 heq ?_).trans (h.dirs pd hpd i hi)
      unfold userPdes
      unfold ptCount at hi
      omega
  · exact (hpage (Nat.dvd_add hmap.pool_dvd (Dvd.intro_left i rfl)) (h.pool_ne hmap hnew hi) hj).trans
      (h.pool i hi j hj)

/-! ## Destruction -/

/-- The cells that the loop of **`vmm_free_pt_range`** does not write. -/
theorem freePts_mem {pd : ℕ} (is : List ℕ) : ∀ {s s' : Phys σ}, is.foldlM (freePt A pd) s = .ok s' →
    ∀ a, (∀ i ∈ is, a ≠ pd + 4 * i) → s'.mem a = s.mem a := by
  induction is with
  | nil =>
    intro s s' h a _
    obtain rfl : s = s' := Except.ok.inj h
    rfl
  | cons i is ih =>
    intro s s' h a ha
    rw [List.foldlM_cons, bind_eq_ok] at h
    obtain ⟨s₁, hturn, h⟩ := h
    rw [ih h a fun j hj => ha j (List.mem_cons_of_mem i hj)]
    unfold freePt at hturn
    split at hturn
    · rw [bind_eq_ok] at hturn
      obtain ⟨a', -, hturn⟩ := hturn
      rw [← Except.ok.inj hturn]
      exact if_neg (ha i List.mem_cons_self)
    · obtain rfl : s = s₁ := Except.ok.inj hturn
      rfl

/-- The cells that **`vmm_destroy_user_pd`** does not write. -/
theorem vmmDestroyUserPd_mem {pd : ℕ} {s s' : Phys σ} (h : vmmDestroyUserPd A pd s = .ok s') (a : ℕ)
    (ha : ∀ i < userPdes, a ≠ pd + 4 * i) : s'.mem a = s.mem a := by
  unfold vmmDestroyUserPd vmmFreePtRange at h
  simp only [bind_eq_ok] at h
  obtain ⟨s₁, ⟨pdVirt, hpd, hloop⟩, a', -, h⟩ := h
  obtain ⟨rfl, -⟩ := physLinear_ok hpd
  rw [← Except.ok.inj h]
  refine freePts_mem _ hloop a fun i hi => ha i ?_
  have hlt := (List.mem_range'_1.mp hi).2
  omega

/-- **`vmm_destroy_user_pd`** on any directory but the kernel's. -/
theorem SpaceInv.destroy (hA : A.Lawful (kernelView V kernelDir ptPool))
    (hmap : KernelMap kernelDir ptPool) (h : SpaceInv V kernelDir ptPool r) {pd : ℕ}
    (hpd : r.stage pd ≠ .absent) (hk : pd ≠ kernelDir) {s : Phys σ}
    (hrun : vmmDestroyUserPd A pd r.phys = .ok s) :
    SpaceInv V kernelDir ptPool ({ r with
      phys := s
      held := r.held ∪ Memory.tables { w | w.1 = pd ∧ OwnSlot w.2 ∧ userPdes ≤ w.2 } r.phys }.setStage
        pd .absent) := by
  obtain ⟨hdvd, -, -⟩ := h.dir hpd
  generalize hT : Memory.tables { w | w.1 = pd ∧ OwnSlot w.2 ∧ userPdes ≤ w.2 } r.phys = T
  have hkeep : ∀ q, q ≠ pd → (SpaceRun.setStage { r with phys := s, held := r.held ∪ T } pd
      .absent).stage q = r.stage q := fun q hq => SpaceRun.setStage_of_ne _ _ hq
  have hne : ∀ q, (SpaceRun.setStage { r with phys := s, held := r.held ∪ T } pd .absent).stage q ≠
      .absent → q ≠ pd := by
    rintro q hq rfl
    exact hq (SpaceRun.setStage_self _ _ _)
  -- the tables of the last slots are nobody's from now on
  have hblock : (pd / 4096, 0) ∈ r.blocks kernelDir := Or.inr ⟨pd, hpd, hk, rfl⟩
  have htable : ∀ b ∈ T, b ∉ r.blocks kernelDir := by
    rw [← hT]
    rintro b ⟨⟨q, i⟩, ⟨rfl, hown, -⟩, hpres, rfl⟩
    exact (h.tables.table (q, i) ⟨hpd, hown⟩ hpres).2.1
  have hsub : { w ∈ r.slots | ¬ (w.1 = pd ∧ userPdes ≤ w.2) } ⊆ r.slots := fun w hw => hw.1
  have hforget := h.tables.forget hsub
  have hrest : r.slots \ { w ∈ r.slots | ¬ (w.1 = pd ∧ userPdes ≤ w.2) } =
      { w | w.1 = pd ∧ OwnSlot w.2 ∧ userPdes ≤ w.2 } := by
    ext ⟨q, i⟩
    simp only [Set.mem_sdiff, Set.mem_ofPred_eq, SpaceRun.slots]
    constructor
    · rintro ⟨⟨hq, hown⟩, hc⟩
      by_contra hno
      exact hc ⟨⟨hq, hown⟩, fun hc' => hno ⟨hc'.1, hown, hc'.2⟩⟩
    · rintro ⟨rfl, hown, hle⟩
      exact ⟨⟨hpd, hown⟩, fun hc => hc.2 ⟨rfl, hle⟩⟩
  rw [hrest, hT] at hforget
  have huser : ∀ i < userPdes, (pd, i) ∈ { w ∈ r.slots | ¬ (w.1 = pd ∧ userPdes ≤ w.2) } :=
    fun i hi => ⟨⟨hpd, Or.inl hi⟩, fun hc => absurd hc.2 (not_le.mpr hi)⟩
  obtain ⟨s', hok, htables, -⟩ := hforget.vmmDestroyUserPd_spec hA huser (Or.inl hblock)
    fun w hw heq hle => absurd ⟨heq, hle⟩ hw.2
  obtain rfl := Except.ok.inj (hok.symm.trans hrun)
  -- only slots of the directory are written
  have hmem : ∀ {p j : ℕ}, 4096 ∣ p → p ≠ pd → j < 1024 →
      s'.mem (p + 4 * j) = r.phys.mem (p + 4 * j) := by
    intro p j hp hpne hj
    refine vmmDestroyUserPd_mem hrun _ fun i hi heq => hpne ?_
    exact (wordAddr_inj hp hdvd hj (hi.trans (by decide)) heq).1
  have hslots : (SpaceRun.setStage { r with phys := s', held := r.held ∪ T } pd .absent).slots =
      { w ∈ { w ∈ r.slots | ¬ (w.1 = pd ∧ userPdes ≤ w.2) } | w.1 ≠ pd } := by
    ext ⟨q, i⟩
    constructor
    · rintro ⟨hq, hown⟩
      have hqne := hne q hq
      rw [hkeep q hqne] at hq
      exact ⟨⟨⟨hq, hown⟩, fun hc => hqne hc.1⟩, hqne⟩
    · rintro ⟨⟨⟨hq, hown⟩, -⟩, hqne⟩
      refine ⟨?_, hown⟩
      rw [hkeep q hqne]
      exact hq
  have hblocks : (SpaceRun.setStage { r with phys := s', held := r.held ∪ T } pd .absent).blocks
      kernelDir = (r.blocks kernelDir ∪ T) \ {(pd / 4096, 0)} := by
    ext b
    constructor
    · rintro ((hb | hb) | ⟨q, hq, hqk, rfl⟩)
      · refine ⟨Or.inl (Or.inl hb), ?_⟩
        rintro rfl
        exact h.held pd hpd hk hb
      · refine ⟨Or.inr hb, ?_⟩
        rintro rfl
        exact htable _ hb hblock
      · have hqne := hne q hq
        rw [hkeep q hqne] at hq
        refine ⟨Or.inl (Or.inr ⟨q, hq, hqk, rfl⟩), fun heq => hqne ?_⟩
        have hpage := (Prod.mk.inj heq).1
        have := (h.dir hq).1
        omega
    · rintro ⟨(hb | ⟨q, hq, hqk, rfl⟩) | hb, hnot⟩
      · exact Or.inl (Or.inl hb)
      · have hqne : q ≠ pd := by
          rintro rfl
          exact hnot rfl
        refine Or.inr ⟨q, ?_, hqk, rfl⟩
        rw [hkeep q hqne]
        exact hq
      · exact Or.inl (Or.inr hb)
  refine {
    tables := ?_
    kernel := (hkeep kernelDir hk.symm).trans h.kernel
    held := fun q hq hqk hmem' => ?_
    filling := fun q next hfill j hle hj => ?_
    dirs := fun q hlive i hi => ?_
    pool := fun i hi j hj => ?_ }
  · rw [hslots, hblocks]
    exact htables
  · have hqne := hne q hq
    rw [hkeep q hqne] at hq
    rcases hmem' with hb | hb
    · exact h.held q hq hqk hb
    · exact htable _ hb (Or.inr ⟨q, hq, hqk, rfl⟩)
  · have hqne := hne q (by rw [hfill]; simp)
    rw [hkeep q hqne] at hfill
    exact (hmem (h.dir (by rw [hfill]; simp)).1 hqne hj).trans (h.filling q next hfill j hle hj)
  · have hqne := hne q (by rw [hlive]; simp)
    rw [hkeep q hqne] at hlive
    refine (hmem (h.dir (by rw [hlive]; simp)).1 hqne ?_).trans (h.dirs q hlive i hi)
    unfold userPdes
    unfold ptCount at hi
    omega
  · exact (hmem (Nat.dvd_add hmap.pool_dvd (Dvd.intro_left i rfl)) (h.pool_ne hmap hpd hi) hj).trans
      (h.pool i hi j hj)

/-! ## Steps -/

/-- **Every call keeps the invariant.** -/
theorem SpaceInv.step (hA : A.Lawful (kernelView V kernelDir ptPool))
    (hmap : KernelMap kernelDir ptPool) (h : SpaceInv V kernelDir ptPool r) {call : SpaceCall}
    (hstep : spaceStep A kernelDir r call r') : SpaceInv V kernelDir ptPool r' := by
  -- Each call has its own lemma; here the relation of a step is taken apart.
  cases call with
  | mapPage pd v p flags =>
    obtain ⟨hedit, ok, s, hrun, rfl⟩ := hstep
    exact h.mapPage hA hmap hedit hrun
  | unmapPage pd v =>
    obtain ⟨hedit, ok, s, hrun, rfl⟩ := hstep
    exact h.unmapPage hA hmap hedit hrun
  | kmap cur p =>
    obtain ⟨hcur, window, s, hrun, rfl⟩ := hstep
    obtain ⟨ok, hrun⟩ := vmmKmap_ok hrun
    exact h.mapPage hA hmap (SpaceRun.editable_window hcur) hrun
  | kunmap cur =>
    obtain ⟨hcur, s, hrun, rfl⟩ := hstep
    obtain ⟨ok, hrun⟩ := vmmKunmap_ok hrun
    exact h.unmapPage hA hmap (SpaceRun.editable_window hcur) hrun
  | newSpace =>
    obtain ⟨pd, s, hrun, hnew⟩ := hstep
    split at hnew
    · next hnull =>
      subst hnull hnew
      exact h.allocFails hA hrun
    · next hne =>
      obtain ⟨ok, s', hkern, rfl⟩ := hnew
      exact h.mapKernel hA hmap hrun hne hkern
  | clone =>
    obtain ⟨pd, s, hrun, hnew⟩ := hstep
    split at hnew
    · next hnull =>
      subst hnull hnew
      exact h.allocFails hA hrun
    · next hne =>
      obtain ⟨pdVirt, hvirt, rfl⟩ := hnew
      exact h.clone hA hmap hrun hne hvirt
  | forkTable current new =>
    obtain ⟨-, i, hst, hi, ok, pt, s, hrun, rfl⟩ := hstep
    exact h.forkTable hA hmap hst hi (forkTableHead_writes hrun)
  | forkShare current new =>
    obtain ⟨hcur, hst, currentPd, newPd, hcurPd, hnewPd, rfl⟩ := hstep
    obtain ⟨rfl, -⟩ := physLinear_ok hcurPd
    obtain ⟨rfl, -⟩ := physLinear_ok hnewPd
    exact h.forkShare hmap hcur hst
  | destroy pd =>
    obtain ⟨hpd, hk, s, hrun, rfl⟩ := hstep
    exact h.destroy hA hmap hpd hk hrun
  | alloc size zone =>
    obtain ⟨ptr, s, hrun, rfl⟩ := hstep
    exact h.alloc hA hrun
  | free p k =>
    obtain ⟨hb, s, hrun, rfl⟩ := hstep
    exact h.free hA hb hrun
  | store a word =>
    obtain ⟨ha, rfl⟩ := hstep
    exact h.store hmap ha word

end Invariant

end Kfs.Userspace
