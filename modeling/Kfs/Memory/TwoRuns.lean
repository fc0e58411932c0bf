import Kfs.Lib.Outcome
import Kfs.Memory.Mmu
import Kfs.Memory.Spaces

/-!
# Two runs that differ in forgotten pages

What a page held before it was handed out must not matter. `Alike E s t` compares two states with
the same page allocator: they have the same words outside the free pages and outside the pages `E`,
which have been handed out and not been filled yet. Each operation of the paging code, run on both
states, returns the same and keeps them alike; filling a page takes it out of `E`.
-/

namespace Kfs.Memory

open Kfs.Lib Kfs.Lib.Word32 Kfs.Lib.Dyadic

section TwoRuns

variable {σ : Type} {A : PageAlloc σ} {K : KernelAlloc σ} {V : PageAlloc.View σ}
  {objs : σ → Set ℕ} {O : Set ℕ} {W L : Set (ℕ × ℕ)} {E : Set ℕ} {s s' t t' : Phys σ}

/-- A write to both states. -/
theorem Phys.write_congr {addr word c : ℕ} (h : c ≠ addr → t.mem c = s.mem c) :
    (t.write addr word).mem c = (s.write addr word).mem c := by
  rw [Phys.write_mem, Phys.write_mem]
  split
  · rfl
  · next hne => exact h hne

/-- A page of zeros in both states. -/
theorem Phys.zeroPage_congr {addr c : ℕ}
    (h : ¬ (addr ≤ c ∧ c < addr + pageSize) → t.mem c = s.mem c) :
    (t.zeroPage addr).mem c = (s.zeroPage addr).mem c := by
  rw [Phys.zeroPage_mem, Phys.zeroPage_mem]
  split
  · rfl
  · next hout => exact h hout

/-- The two states are the same but for the contents of free pages and of the pages `E`, which lie in
live blocks and hold no directories. -/
structure Alike (V : PageAlloc.View σ) (W L : Set (ℕ × ℕ)) (E : Set ℕ) (s t : Phys σ) : Prop where
  tables : PageTables V W L s
  alloc : t.alloc = s.alloc
  mem : ∀ a, a / 4096 ∉ V.free s.alloc → a / 4096 ∉ E → t.mem a = s.mem a
  blocks : ∀ p ∈ E, ∃ b ∈ L, p ∈ block b.1 b.2
  dirs : ∀ w ∈ W, w.1 / 4096 ∉ E

/-- A table is not among the pages `E`. -/
theorem Alike.table_notMem (hA : A.Lawful V) (h : Alike V W L E s t) {w : ℕ × ℕ} (hw : w ∈ W)
    (hpres : slotPresent s w = true) : tableOf s w / 4096 ∉ E := by
  intro hmem
  obtain ⟨⟨p, k⟩, hb, hin⟩ := h.blocks _ hmem
  have hlive : (p, k) ∈ V.live s.alloc := by
    rw [h.tables.live]
    exact Or.inl hb
  have hlive' : (tableOf s w / 4096, 0) ∈ V.live s.alloc := by
    rw [h.tables.live]
    exact Or.inr ⟨w, hw, hpres, rfl⟩
  have hne : (tableOf s w / 4096, 0) ≠ (p, k) := by
    intro heq
    exact (h.tables.table w hw hpres).2.1 (heq ▸ hb)
  exact Set.disjoint_left.mp (hA.disjoint h.tables.inv hlive' hlive hne) (self_mem_block _ _) hin

/-- The slots hold the same words. -/
theorem Alike.slot (h : Alike V W L E s t) {w : ℕ × ℕ} (hw : w ∈ W) :
    t.mem (slotAddr w) = s.mem (slotAddr w) := by
  obtain ⟨hdvd, -, hi, hfree⟩ := h.tables.dir w hw
  have hpage : slotAddr w / 4096 = w.1 / 4096 := by
    unfold slotAddr
    omega
  apply h.mem
  · rw [hpage]
    exact hfree
  · rw [hpage]
    exact h.dirs w hw

/-- So do the entries of their tables. -/
theorem Alike.entry (hA : A.Lawful V) (h : Alike V W L E s t) {w : ℕ × ℕ} (hw : w ∈ W)
    (hpres : slotPresent s w = true) {j : ℕ} (hj : j < 1024) :
    t.mem (tableOf s w + 4 * j) = s.mem (tableOf s w + 4 * j) := by
  have hdvd := tableOf_dvd s w
  have hpage : (tableOf s w + 4 * j) / 4096 = tableOf s w / 4096 := by omega
  apply h.mem
  · rw [hpage]
    exact h.tables.table_notFree hA hw hpres
  · rw [hpage]
    exact h.table_notMem hA hw hpres

/-- The tables of the other state. -/
theorem Alike.right (hA : A.Lawful V) (h : Alike V W L E s t) :
    PageTables V W L t ∧ ∀ w ∈ W, SameSlot s t w :=
  h.tables.of_cells h.alloc (fun _ hw => h.slot hw) fun _ hw hpres _ hj => h.entry hA hw hpres hj

/-- Both walks find the same. -/
theorem Alike.walk_eq (hA : A.Lawful V) (h : Alike V W L E s t) {pd n : ℕ}
    (hw : (pd, n / 1024) ∈ W) : walk t.mem pd n = walk s.mem pd n :=
  walk_congr (h.slot hw) fun hpres => h.entry hA hw hpres (Nat.mod_lt n (by norm_num))

/-- Two states that have been changed alike, by a step that frees no page of theirs. -/
theorem Alike.of_step (h : Alike V W L E s t) (htables : PageTables V W L s')
    (halloc : t'.alloc = s'.alloc)
    (hmem : ∀ a, a / 4096 ∉ V.free s'.alloc → a / 4096 ∉ E → t'.mem a = s'.mem a) :
    Alike V W L E s' t' where
  tables := htables
  alloc := halloc
  mem := hmem
  blocks := h.blocks
  dirs := h.dirs

/-! ## Mapping -/

/-- **`vmm_map_page`** on both states: the new table is filled with zeros. -/
theorem Alike.mapPage (hA : A.Lawful V) (h : Alike V W L E s t) {pd v : ℕ}
    (hw : (pd, getPdeIndex v) ∈ W) (p flags : ℕ) :
    Follows (fun a b => b.1 = a.1 ∧ Alike V W L E a.2 b.2) (vmmMapPage A pd v p flags s)
      (vmmMapPage A pd v p flags t) := by
  have hkeep : ∀ {ok : Bool} {s' : Phys σ}, MapWrites A pd v p flags s ok s' →
      PageTables V W L s' := by
    intro ok s' hwrites
    rcases h.tables.of_mapWrites hA hw hwrites with ⟨-, rfl, -⟩ | ⟨-, htables, -⟩
    · exact h.tables
    · exact htables
  have hslot : t.mem (pd + 4 * getPdeIndex v) = s.mem (pd + 4 * getPdeIndex v) := h.slot hw
  have hrefl : ∀ {pt : ℕ}, Follows Eq (physLinear pt) (physLinear pt) := Follows.same fun _ _ => rfl
  unfold vmmMapPage
  rw [physLinear_eq (h.tables.dir _ hw).2.1, ok_bind, ok_bind]
  simp only [hslot, h.alloc]
  refine Follows.ite (fun habs => ?_) fun hpres => ?_
  · have habs : slotPresent s (pd, getPdeIndex v) = false := by
      simpa [slotPresent, slotAddr] using habs
    refine Follows.bind (R := Eq) (Follows.same fun _ _ => rfl) ?_
    rintro ⟨pt, a⟩ _ halloc rfl
    refine Follows.ite (fun hnull => ?_) fun hne => ?_
    · subst hnull
      have htables := hkeep (.noTable habs halloc)
      refine Follows.ok ⟨rfl, h.of_step htables rfl fun c hc hE => ?_⟩
      rcases hA.alloc h.tables.inv pageSize .lowmem with hnull | ⟨q, a', hrun, htaken⟩
      · obtain ⟨-, rfl⟩ := Prod.mk.inj (Except.ok.inj (hnull.symm.trans halloc))
        exact h.mem c hc hE
      · have haddr := (Prod.mk.inj (Except.ok.inj (hrun.symm.trans halloc))).1
        have := htaken.ne_zero
        omega
    · refine Follows.bind hrefl ?_
      rintro ptVirt _ hpt rfl
      obtain ⟨rfl, hlow⟩ := physLinear_ok hpt
      have htables := hkeep (.newTable habs halloc hne hlow)
      refine Follows.ok ⟨rfl, h.of_step htables rfl fun c hc hE => ?_⟩
      rcases hA.alloc h.tables.inv pageSize .lowmem with hnull | ⟨q, a', hrun, htaken⟩
      · exact absurd (Prod.mk.inj (Except.ok.inj (hnull.symm.trans halloc))).1.symm hne
      · obtain ⟨rfl, rfl⟩ := Prod.mk.inj (Except.ok.inj (hrun.symm.trans halloc))
        -- outside the new table the cell was not free before
        refine Phys.write_congr fun _ => Phys.write_congr fun _ => Phys.zeroPage_congr fun hout => ?_
        refine h.mem c (fun hfree => hc ?_) hE
        show c / 4096 ∈ V.free a'
        rw [htaken.free, Set.mem_sdiff, sizeToOrder_pageSize, block_zero]
        refine ⟨hfree, fun heq => hout ?_⟩
        have heq := Set.mem_singleton_iff.mp heq
        unfold pageSize
        omega
  · have hpres : slotPresent s (pd, getPdeIndex v) = true := by
      simpa [slotPresent, slotAddr] using hpres
    have htable : getEntryAddr (s.mem (pd + 4 * getPdeIndex v)) = tableOf s (pd, getPdeIndex v) := rfl
    by_cases hus : (flagIsSet flags pdeUsBit &&
        !flagIsSet (s.mem (pd + 4 * getPdeIndex v)) pdeUsBit) = true
    · simp only [if_pos hus, Phys.write_mem, if_true]
      rw [getEntryAddr_or (by decide), htable]
      refine Follows.bind hrefl ?_
      rintro ptVirt _ hpt rfl
      obtain ⟨rfl, -⟩ := physLinear_ok hpt
      rw [Bool.and_eq_true] at hus
      have hnot : flagIsSet (s.mem (slotAddr (pd, getPdeIndex v))) pdeUsBit = false := by
        simpa [slotAddr] using hus.2
      refine Follows.ok ⟨rfl, h.of_step (hkeep (.userTable hpres hus.1 hnot)) h.alloc fun c hc hE => ?_⟩
      exact Phys.write_congr fun _ => Phys.write_congr fun _ => h.mem c hc hE
    · simp only [if_neg hus, hslot]
      rw [htable]
      refine Follows.bind hrefl ?_
      rintro ptVirt _ hpt rfl
      obtain ⟨rfl, -⟩ := physLinear_ok hpt
      have hset : flagIsSet flags pdeUsBit = true →
          flagIsSet (s.mem (slotAddr (pd, getPdeIndex v))) pdeUsBit = true := by
        intro hflag
        simpa [hflag, slotAddr] using hus
      refine Follows.ok ⟨rfl, h.of_step (hkeep (.table hpres hset)) h.alloc fun c hc hE => ?_⟩
      exact Phys.write_congr fun _ => h.mem c hc hE

/-- The scan of a table reads its entries. -/
theorem isPtEmpty_congr {mem mem' : ℕ → ℕ} {pt : ℕ}
    (h : ∀ i < 1024, mem' (pt + 4 * i) = mem (pt + 4 * i)) : isPtEmpty mem' pt = isPtEmpty mem pt := by
  rw [Bool.eq_iff_iff, isPtEmpty_iff, isPtEmpty_iff]
  exact forall₂_congr fun i hi => by rw [h i hi]

/-- A page that was free is free after **`vmm_unmap_page`**. -/
theorem PageTables.free_of_unmapWrites (hA : A.Lawful V) (h : PageTables V W L s) {pd v : ℕ}
    {ok : Bool} (hw : (pd, getPdeIndex v) ∈ W) (hrun : UnmapWrites A pd v s ok s') :
    V.free s.alloc ⊆ V.free s'.alloc := by
  cases hrun with
  | absent hnone => exact subset_rfl
  | entry hmapped hi hne hother => exact subset_rfl
  | last hmapped hempty hfree =>
    have hlive : (tableOf s (pd, getPdeIndex v) / 4096, 0) ∈ V.live s.alloc := by
      rw [h.live]
      exact Or.inr ⟨_, hw, slotPresent_of_pte hmapped, rfl⟩
    obtain ⟨a', hrun, hret⟩ := hA.release h.inv hlive
    rw [Nat.div_mul_cancel (tableOf_dvd s _)] at hrun
    obtain rfl := Except.ok.inj (hrun.symm.trans hfree)
    show V.free s.alloc ⊆ V.free a'
    rw [hret.free]
    exact Set.subset_union_left

/-- **`vmm_unmap_page`** on both states. -/
theorem Alike.unmapPage (hA : A.Lawful V) (h : Alike V W L E s t) {pd v : ℕ}
    (hw : (pd, getPdeIndex v) ∈ W) :
    Follows (fun a b => b.1 = a.1 ∧ Alike V W L E a.2 b.2) (vmmUnmapPage A pd v s)
      (vmmUnmapPage A pd v t) := by
  have hj := getPteIndex_lt v
  have hslot : t.mem (pd + 4 * getPdeIndex v) = s.mem (pd + 4 * getPdeIndex v) := h.slot hw
  have htable : getEntryAddr (s.mem (pd + 4 * getPdeIndex v)) = tableOf s (pd, getPdeIndex v) := rfl
  -- both runs write the same words
  have hmem : Follows (fun a b => b.1 = a.1 ∧ b.2.alloc = a.2.alloc ∧
      ∀ c, c / 4096 ∉ V.free s.alloc → c / 4096 ∉ E → b.2.mem c = a.2.mem c)
      (vmmUnmapPage A pd v s) (vmmUnmapPage A pd v t) := by
    unfold vmmUnmapPage
    rw [physLinear_eq (h.tables.dir _ hw).2.1, ok_bind, ok_bind]
    simp only [hslot]
    refine Follows.ite (fun _ => Follows.ok ⟨rfl, h.alloc, h.mem⟩) fun hpres => ?_
    have hpres : slotPresent s (pd, getPdeIndex v) = true := by
      simpa [slotPresent, slotAddr] using hpres
    rw [htable, physLinear_eq (h.tables.table _ hw hpres).1, ok_bind, ok_bind]
    simp only [h.entry hA hw hpres hj]
    refine Follows.ite (fun _ => Follows.ok ⟨rfl, h.alloc, h.mem⟩) fun _ => ?_
    have hempty : isPtEmpty (t.write (tableOf s (pd, getPdeIndex v) + 4 * getPteIndex v) 0).mem
        (tableOf s (pd, getPdeIndex v)) =
      isPtEmpty (s.write (tableOf s (pd, getPdeIndex v) + 4 * getPteIndex v) 0).mem
        (tableOf s (pd, getPdeIndex v)) :=
      isPtEmpty_congr fun i hi => Phys.write_congr fun _ => h.entry hA hw hpres hi
    rw [hempty]
    refine Follows.ite (fun _ => ?_) fun _ => ?_
    · simp only [Phys.write_alloc, h.alloc]
      refine Follows.bind (R := Eq) (Follows.same fun _ _ => rfl) ?_
      rintro a _ - rfl
      refine Follows.ok ⟨rfl, rfl, fun c hc hE => ?_⟩
      exact Phys.write_congr fun _ => Phys.write_congr fun _ => h.mem c hc hE
    · exact Follows.ok ⟨rfl, h.alloc, fun c hc hE => Phys.write_congr fun _ => h.mem c hc hE⟩
  rintro ⟨ok, s'⟩ hrun
  obtain ⟨⟨ok', t'⟩, hrun', hok, halloc, hagree⟩ := hmem _ hrun
  have hwrites := vmmUnmapPage_writes hrun
  have htables : PageTables V W L s' := by
    rcases h.tables.of_unmapWrites hA hw hwrites with ⟨-, rfl, -⟩ | ⟨-, htables, -⟩
    · exact h.tables
    · exact htables
  refine ⟨_, hrun', hok, h.of_step htables halloc fun c hc => hagree c fun hfree => hc ?_⟩
  exact h.tables.free_of_unmapWrites hA hw hwrites hfree

/-- **`vmm_get_mapping`** reads the same entry. -/
theorem Alike.getMapping_eq (hA : A.Lawful V) (h : Alike V W L E s t) {pd v : ℕ}
    (hw : (pd, getPdeIndex v) ∈ W) : vmmGetMapping pd v t = vmmGetMapping pd v s := by
  obtain ⟨htables, hsame⟩ := h.right hA
  rw [htables.vmmGetMapping_eq hw, h.tables.vmmGetMapping_eq hw, lookup_eq_map, lookup_eq_map,
    (hsame _ hw).entry _ (getPteIndex_lt v)]

/-! ## The kernel window -/

theorem kmap_mem {cur : ℕ} (hw : (cur, 1023) ∈ W) : (cur, getPdeIndex vmmKmapVaddr) ∈ W := by
  rw [getPdeIndex_eq, kmap_slot]
  exact hw

/-- **`vmm_kmap`** on both states. -/
theorem Alike.kmap (hA : A.Lawful V) (h : Alike V W L E s t) {cur : ℕ} (hw : (cur, 1023) ∈ W)
    (p : ℕ) : Follows (fun a b => b.1 = a.1 ∧ Alike V W L E a.2 b.2) (vmmKmap A cur p s)
      (vmmKmap A cur p t) := by
  unfold vmmKmap
  refine Follows.bind (h.mapPage hA (kmap_mem hw) _ _) ?_
  rintro ⟨ok, s'⟩ ⟨ok', t'⟩ - ⟨rfl, h'⟩
  exact Follows.ok ⟨rfl, h'⟩

/-- **`vmm_kunmap`** on both states. -/
theorem Alike.kunmap (hA : A.Lawful V) (h : Alike V W L E s t) {cur : ℕ} (hw : (cur, 1023) ∈ W) :
    Follows (Alike V W L E) (vmmKunmap A cur s) (vmmKunmap A cur t) := by
  unfold vmmKunmap
  refine Follows.bind (h.unmapPage hA (kmap_mem hw)) ?_
  rintro ⟨ok, s'⟩ ⟨ok', t'⟩ - ⟨-, h'⟩
  exact Follows.ok h'

/-- The slots after **`vmm_kmap`**. -/
theorem PageTables.kmap_slots (hA : A.Lawful V) (h : PageTables V W L s) {cur p window : ℕ}
    (hw : (cur, 1023) ∈ W) (hrun : vmmKmap A cur p s = .ok (window, s')) (hne : window ≠ 0) :
    window = vmmKmapVaddr ∧ PageTables V W L s' ∧
      (∀ w ∈ W, w ≠ (cur, 1023) → SameSlot s s' w) ∧
      entryAt s' cur (vmmKmapVaddr / 4096) = some (p ||| (ptePresentBit ||| pteRwBit)) := by
  unfold vmmKmap at hrun
  rw [bind_eq_ok] at hrun
  obtain ⟨⟨ok, s₁⟩, hmap, hrun⟩ := hrun
  obtain ⟨rfl, rfl⟩ := Prod.mk.inj (Except.ok.inj hrun)
  rcases h.mapPage_slots (p := p) (v := vmmKmapVaddr) hA (by rw [kmap_slot]; exact hw)
    (show flagIsSet (ptePresentBit ||| pteRwBit) ptePresentBit = true by decide) with
    ⟨hfail, -⟩ | ⟨s₂, hok, h', hsame, hpte⟩
  · obtain ⟨rfl, -⟩ := Prod.mk.inj (Except.ok.inj (hmap.symm.trans hfail))
    exact absurd rfl hne
  · obtain ⟨rfl, rfl⟩ := Prod.mk.inj (Except.ok.inj (hmap.symm.trans hok))
    rw [kmap_slot] at hsame
    refine ⟨rfl, h', hsame, ?_⟩
    unfold entryAt
    rw [hpte _ (Nat.mod_lt _ (by norm_num)), if_pos rfl]

/-- The slots after **`vmm_kunmap`**. -/
theorem PageTables.kunmap_slots (hA : A.Lawful V) (h : PageTables V W L s) {cur : ℕ}
    (hw : (cur, 1023) ∈ W) (hrun : vmmKunmap A cur s = .ok s') :
    ∀ w ∈ W, w ≠ (cur, 1023) → SameSlot s s' w := by
  unfold vmmKunmap at hrun
  rw [bind_eq_ok] at hrun
  obtain ⟨⟨ok, s₁⟩, hunmap, hrun⟩ := hrun
  obtain rfl := Except.ok.inj hrun
  obtain ⟨ok', s₂, hok, -, hsame, -⟩ := h.unmapPage_slots (v := vmmKmapVaddr) hA
    (by rw [kmap_slot]; exact hw)
  obtain ⟨-, rfl⟩ := Prod.mk.inj (Except.ok.inj (hunmap.symm.trans hok))
  rw [kmap_slot] at hsame
  exact hsame

/-! ## Blocks and pages -/

/-- **`buddy_alloc_pages`** makes no page free. -/
theorem PageAlloc.Lawful.free_subset (hA : A.Lawful V) (hinv : V.Inv s.alloc) {size ptr : ℕ}
    {zone : Zone} (hrun : A.allocOn size zone s = .ok (ptr, s')) :
    V.free s'.alloc ⊆ V.free s.alloc := by
  have hcall := (PageAlloc.allocOn_ok hrun).1
  rcases hA.alloc hinv size zone with hnull | ⟨p, a', hok, htaken⟩
  · rw [(Prod.mk.inj (Except.ok.inj (hcall.symm.trans hnull))).2]
  · rw [(Prod.mk.inj (Except.ok.inj (hcall.symm.trans hok))).2, htaken.free]
    exact Set.sdiff_subset

/-- **`buddy_alloc_pages`** on both states: the new block is to be filled. -/
theorem Alike.allocOn (hA : A.Lawful V) (h : Alike V W L E s t) (size : ℕ) (zone : Zone) :
    Follows (fun a b => b.1 = a.1 ∧ (a.1 ≠ 0 → ∃ p, a.1 = p * 4096 ∧
        NewBlock V W L s a.2 zone p (sizeToOrder size) ∧
        Alike V W (insert (p, sizeToOrder size) L) (E ∪ block p (sizeToOrder size)) a.2 b.2))
      (A.allocOn size zone s) (A.allocOn size zone t) := by
  intro a hrun
  obtain ⟨ptr, s'⟩ := a
  have hboth : A.allocOn size zone t = .ok (ptr, { t with alloc := s'.alloc }) := by
    unfold PageAlloc.allocOn
    rw [h.alloc, (PageAlloc.allocOn_ok hrun).1, ok_bind]
  refine ⟨_, hboth, rfl, fun hne => ?_⟩
  obtain ⟨p, hptr, hnew⟩ := h.tables.alloc_ok hA hrun hne
  refine ⟨p, hptr, hnew, {
    tables := hnew.tables
    alloc := rfl
    mem := fun c hc hE => ?_
    blocks := ?_
    dirs := ?_ }⟩
  · rw [hnew.mem]
    refine h.mem c (fun hfree => ?_) fun hE' => hE (Or.inl hE')
    -- a page that was free still is, or it lies in the new block
    have hcall := (PageAlloc.allocOn_ok hrun).1
    rcases hA.alloc h.tables.inv size zone with hnull | ⟨q, a', hok, htaken⟩
    · exact hne (Prod.mk.inj (Except.ok.inj (hcall.symm.trans hnull))).1
    · obtain ⟨hq, ha'⟩ := Prod.mk.inj (Except.ok.inj (hcall.symm.trans hok))
      have hqp : q = p := by omega
      rw [ha', htaken.free, hqp] at hc
      exact hc ⟨hfree, fun hblock => hE (Or.inr hblock)⟩
  · rintro j (hj | hj)
    · obtain ⟨b, hb, hin⟩ := h.blocks j hj
      exact ⟨b, Set.mem_insert_of_mem _ hb, hin⟩
    · exact ⟨_, Set.mem_insert _ L, hj⟩
  · rintro w hw (hE | hblock)
    · exact h.dirs w hw hE
    · exact (h.tables.dir w hw).2.2.2 (hnew.subset hblock)

/-- **Filling a page** of high memory in both states takes it out of `E`. -/
theorem Alike.fill (h : Alike V W L E s t) (hlow : Phys.SameLow s s') (halloc : t'.alloc = t.alloc)
    {E' : Set ℕ} (hsub : E' ⊆ E)
    (hmem : ∀ c, c / 4096 ∉ V.free s.alloc → c / 4096 ∉ E' → t'.mem c = s'.mem c) :
    Alike V W L E' s' t' where
  tables := (h.tables.of_sameLow hlow).1
  alloc := halloc.trans (h.alloc.trans hlow.alloc.symm)
  mem := by
    rw [hlow.alloc]
    exact hmem
  blocks p hp := h.blocks p (hsub hp)
  dirs w hw hmem := h.dirs w hw (hsub hmem)

/-- A page of `HIGHMEM` is copied over a page that is not filled. -/
theorem Alike.copyPage {p src : ℕ} (h : Alike V W L {p} s t) (hhigh : highmemStart ≤ p * 4096) :
    Alike V W L {p} (s.memcpy (p * 4096) src pageSize) (t.memcpy (p * 4096) src pageSize) ∧
    ∀ off < 4096, (s.memcpy (p * 4096) src pageSize).mem (p * 4096 + off) = s.mem (src + off) ∧
      (t.memcpy (p * 4096) src pageSize).mem (p * 4096 + off) = t.mem (src + off) := by
  have hcopy : ∀ (u : Phys σ) {off : ℕ}, off < 4096 →
      (u.memcpy (p * 4096) src pageSize).mem (p * 4096 + off) = u.mem (src + off) := by
    intro u off hoff
    have hin : p * 4096 ≤ p * 4096 + off ∧ p * 4096 + off < p * 4096 + pageSize := by
      unfold pageSize
      omega
    simp only [Phys.memcpy]
    rw [if_pos hin, Nat.add_sub_cancel_left]
  have halloc : (t.memcpy (p * 4096) src pageSize).alloc = t.alloc := rfl
  refine ⟨h.fill (Phys.sameLow_memcpy s src pageSize hhigh) halloc subset_rfl fun c hfree hE => ?_,
    fun off hoff => ⟨hcopy s hoff, hcopy t hoff⟩⟩
  have hout : ¬ (p * 4096 ≤ c ∧ c < p * 4096 + pageSize) := by
    intro hin
    apply hE
    unfold pageSize at hin
    exact Set.mem_singleton_iff.mpr (by omega)
  simp only [Phys.memcpy]
  rw [if_neg hout, if_neg hout, h.mem c hfree hE]

/-! ## Heap objects -/

/-- A call that shows nothing to the users of pages and leaves memory alone. -/
theorem Alike.of_heapCall {V' : PageAlloc.View σ} (h : Alike V W L E s t)
    (htables : PageTables V' W L s') (hmem : s'.mem = s.mem) (hmem' : t'.mem = t.mem)
    (halloc : t'.alloc = s'.alloc) (hfree : V'.free s'.alloc = V.free s.alloc) :
    Alike V' W L E s' t' where
  tables := htables
  alloc := halloc
  mem := by
    rw [hfree, hmem, hmem']
    exact h.mem
  blocks := h.blocks
  dirs := h.dirs

/-- **`kmalloc`** on both states. -/
theorem Alike.kmalloc (hK : K.Lawful V objs) (h : Alike (V.holding objs O) W L E s t)
    (size flags : ℕ) :
    Follows (fun a b => b.1 = a.1 ∧ a.2.mem = s.mem ∧
        if a.1 = 0 then Alike (V.holding objs O) W L E a.2 b.2
        else a.1 ∉ O ∧ Alike (V.holding objs (insert a.1 O)) W L E a.2 b.2)
      (K.kmallocOn size flags s) (K.kmallocOn size flags t) := by
  intro a hrun
  obtain ⟨ptr, s'⟩ := a
  obtain ⟨hmem, hptr⟩ := h.tables.kmalloc_spec hK hrun
  unfold KernelAlloc.kmallocOn at hrun
  rw [bind_eq_ok] at hrun
  obtain ⟨⟨ptr', a⟩, hcall, hrun⟩ := hrun
  obtain ⟨rfl, rfl⟩ := Prod.mk.inj (Except.ok.inj hrun)
  have hfree : V.free a = V.free s.alloc := (hK.kmalloc h.tables.inv.1 hcall).1.free
  refine ⟨(ptr', { t with alloc := a }), ?_, rfl, hmem, ?_⟩
  · unfold KernelAlloc.kmallocOn
    rw [h.alloc, hcall, ok_bind]
  · rcases hptr with ⟨hnull, htables⟩ | ⟨hne, hfresh, htables⟩
    · rw [if_pos hnull]
      exact h.of_heapCall htables rfl rfl rfl hfree
    · rw [if_neg hne]
      exact ⟨hfresh, h.of_heapCall htables rfl rfl rfl hfree⟩

/-- **`kfree`** on both states. -/
theorem Alike.kfree (hK : K.Lawful V objs) (h : Alike (V.holding objs O) W L E s t) {ptr : ℕ}
    (hptr : ptr ∈ O) :
    Follows (fun a b => a.mem = s.mem ∧ Alike (V.holding objs (O \ {ptr})) W L E a b)
      (K.kfreeOn ptr s) (K.kfreeOn ptr t) := by
  intro s' hrun
  obtain ⟨hmem, htables⟩ := h.tables.kfree_spec hK hptr hrun
  unfold KernelAlloc.kfreeOn at hrun
  rw [bind_eq_ok] at hrun
  obtain ⟨a, hcall, hrun⟩ := hrun
  obtain rfl := Except.ok.inj hrun
  have hfree : V.free a = V.free s.alloc :=
    (hK.kfree h.tables.inv.1 (h.tables.inv.2 ▸ hptr) hcall).1.free
  refine ⟨{ t with alloc := a }, ?_, hmem, h.of_heapCall htables rfl rfl rfl hfree⟩
  unfold KernelAlloc.kfreeOn
  rw [h.alloc, hcall, ok_bind]

/-! ## High memory -/

/-- **`vmm_map_page`** writes below `HIGHMEM`. -/
theorem PageTables.mapPage_high (hA : A.Lawful V) (h : PageTables V W L s) {pd v p flags : ℕ}
    {ok : Bool} (hw : (pd, getPdeIndex v) ∈ W) (hrun : vmmMapPage A pd v p flags s = .ok (ok, s')) {a : ℕ}
    (ha : highmemStart ≤ a) : s'.mem a = s.mem a := by
  have hj := getPteIndex_lt v
  obtain ⟨hdvd, hlt, hi, -⟩ := h.dir _ hw
  have hslot : a ≠ slotAddr (pd, getPdeIndex v) := by
    have hlow : slotAddr (pd, getPdeIndex v) < highmemStart := wordAddr_lt hdvd hlt hi
    omega
  have hentry : ∀ {pt}, 4096 ∣ pt → pt < highmemStart → a ≠ pt + 4 * getPteIndex v := by
    intro pt hdvd hlt
    have hlow := wordAddr_lt hdvd hlt hj
    omega
  cases vmmMapPage_writes hrun with
  | noTable habs halloc => rfl
  | @newTable _ pt habs halloc hne hlow =>
    obtain ⟨q, rfl⟩ : ∃ q, pt = q * 4096 := by
      rcases hA.alloc h.inv pageSize .lowmem with hnull | ⟨q, a', hok, -⟩
      · exact absurd (Prod.mk.inj (Except.ok.inj (hnull.symm.trans halloc))).1.symm hne
      · exact ⟨q, (Prod.mk.inj (Except.ok.inj (hok.symm.trans halloc))).1.symm⟩
    have hpage : ¬ (q * 4096 ≤ a ∧ a < q * 4096 + pageSize) := by
      unfold highmemStart at hlow ha
      unfold pageSize
      omega
    rw [Phys.write_mem, if_neg (hentry (Dvd.intro_left q rfl) hlow), Phys.write_mem, if_neg hslot,
      Phys.zeroPage_mem, if_neg hpage]
  | userTable hpres hflag hus =>
    rw [Phys.write_mem, if_neg (hentry (tableOf_dvd s _) (h.table _ hw hpres).1), Phys.write_mem,
      if_neg hslot]
  | table hpres hus =>
    rw [Phys.write_mem, if_neg (hentry (tableOf_dvd s _) (h.table _ hw hpres).1)]

/-- **`vmm_unmap_page`** writes below `HIGHMEM`. -/
theorem PageTables.unmapPage_high (h : PageTables V W L s) {pd v : ℕ} {ok : Bool}
    (hw : (pd, getPdeIndex v) ∈ W) (hrun : vmmUnmapPage A pd v s = .ok (ok, s')) {a : ℕ}
    (ha : highmemStart ≤ a) : s'.mem a = s.mem a := by
  obtain ⟨hdvd, hlt, hi, -⟩ := h.dir _ hw
  refine (vmmUnmapPage_writes hrun).frame ?_ fun hpres => ?_
  · have hlow : slotAddr (pd, getPdeIndex v) < highmemStart := wordAddr_lt hdvd hlt hi
    omega
  · have htable := (h.table _ hw hpres).1
    unfold highmemStart at ha htable
    omega

/-- So does **`vmm_kmap`**. -/
theorem PageTables.kmap_high (hA : A.Lawful V) (h : PageTables V W L s) {cur p window : ℕ}
    (hw : (cur, 1023) ∈ W) (hrun : vmmKmap A cur p s = .ok (window, s')) {a : ℕ}
    (ha : highmemStart ≤ a) : s'.mem a = s.mem a := by
  unfold vmmKmap at hrun
  rw [bind_eq_ok] at hrun
  obtain ⟨⟨ok, s₁⟩, hmap, hrun⟩ := hrun
  obtain ⟨-, rfl⟩ := Prod.mk.inj (Except.ok.inj hrun)
  exact h.mapPage_high hA (kmap_mem hw) hmap ha

/-- So does **`vmm_kunmap`**. -/
theorem PageTables.kunmap_high (h : PageTables V W L s) {cur : ℕ} (hw : (cur, 1023) ∈ W)
    (hrun : vmmKunmap A cur s = .ok s') {a : ℕ} (ha : highmemStart ≤ a) : s'.mem a = s.mem a := by
  unfold vmmKunmap at hrun
  rw [bind_eq_ok] at hrun
  obtain ⟨⟨ok, s₁⟩, hunmap, hrun⟩ := hrun
  obtain rfl := Except.ok.inj hrun
  exact h.unmapPage_high (kmap_mem hw) hunmap ha

end TwoRuns

end Kfs.Memory
