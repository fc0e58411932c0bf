import Kfs.Memory.KernelAlloc

/-!
# Address spaces

Directories come and go: a new one is a page of `LOWMEM` whose user half is empty, and
`vmm_destroy_user_pd` gives the tables of the user half and the directory back. This module follows
the slots of all directories together. A step is described by the slots that it leaves as they
were, tables and entries included (`SameSlot`), so that the steps of one address space say what they
do to the others.

The cell of an address is a 32-bit word below `HIGHMEM`, where directories and tables are, and a
byte from there on, where the frames of user pages are.
-/

namespace Kfs.Memory

open Kfs.Lib Kfs.Lib.Word32 Kfs.Lib.Dyadic

/-! ## Memory -/

namespace Phys

variable {σ : Type}

/-- `ft_bzero(ptr, n)`. -/
def bzero (s : Phys σ) (addr n : ℕ) : Phys σ :=
  { s with mem := fun a => if addr ≤ a ∧ a < addr + n then 0 else s.mem a }

/-- `ft_memcpy(dst, src, n)` inside physical memory. -/
def memcpy (s : Phys σ) (dst src n : ℕ) : Phys σ :=
  { s with mem := fun a => if dst ≤ a ∧ a < dst + n then s.mem (src + (a - dst)) else s.mem a }

/-- `ft_memcpy(dst, src, n)` from bytes outside it. -/
def load (s : Phys σ) (dst : ℕ) (bytes : ℕ → ℕ) (n : ℕ) : Phys σ :=
  { s with mem := fun a => if dst ≤ a ∧ a < dst + n then bytes (a - dst) else s.mem a }

/-- Nothing is written below `HIGHMEM`, and the allocator is as it was. -/
structure SameLow (s s' : Phys σ) : Prop where
  alloc : s'.alloc = s.alloc
  mem : ∀ a < highmemStart, s'.mem a = s.mem a

theorem SameLow.trans {s s' s'' : Phys σ} (h : SameLow s s') (h' : SameLow s' s'') :
    SameLow s s'' where
  alloc := h'.alloc.trans h.alloc
  mem a ha := (h'.mem a ha).trans (h.mem a ha)

theorem sameLow_bzero (s : Phys σ) {addr : ℕ} (n : ℕ) (h : highmemStart ≤ addr) :
    SameLow s (s.bzero addr n) where
  alloc := rfl
  mem _ ha := if_neg fun hc => absurd hc.1 (by omega)

theorem sameLow_zeroPage (s : Phys σ) {addr : ℕ} (h : highmemStart ≤ addr) :
    SameLow s (s.zeroPage addr) where
  alloc := rfl
  mem _ ha := if_neg fun hc => absurd hc.1 (by omega)

theorem sameLow_memcpy (s : Phys σ) {dst : ℕ} (src n : ℕ) (h : highmemStart ≤ dst) :
    SameLow s (s.memcpy dst src n) where
  alloc := rfl
  mem _ ha := if_neg fun hc => absurd hc.1 (by omega)

theorem sameLow_load (s : Phys σ) {dst : ℕ} (bytes : ℕ → ℕ) (n : ℕ) (h : highmemStart ≤ dst) :
    SameLow s (s.load dst bytes n) where
  alloc := rfl
  mem _ ha := if_neg fun hc => absurd hc.1 (by omega)

end Phys

section Slots

variable {σ : Type} {V : PageAlloc.View σ} {A : PageAlloc σ} {W W' L : Set (ℕ × ℕ)}
  {s s' s'' : Phys σ} {w : ℕ × ℕ}

/-! ## Slots that a step leaves alone -/

/-- The slot, its table and the entries there are as they were. -/
structure SameSlot (s s' : Phys σ) (w : ℕ × ℕ) : Prop where
  present : slotPresent s' w = slotPresent s w
  table : slotPresent s w = true → tableOf s' w = tableOf s w
  entry : ∀ j < 1024, pte s' w j = pte s w j

theorem SameSlot.refl (s : Phys σ) (w : ℕ × ℕ) : SameSlot s s w := ⟨rfl, fun _ => rfl, fun _ _ => rfl⟩

theorem SameSlot.trans (h : SameSlot s s' w) (h' : SameSlot s' s'' w) : SameSlot s s'' w where
  present := h'.present.trans h.present
  table hpres := (h'.table (h.present.trans hpres)).trans (h.table hpres)
  entry j hj := (h'.entry j hj).trans (h.entry j hj)

theorem SameSlot.of_mem (hmem : s'.mem = s.mem) (w : ℕ × ℕ) : SameSlot s s' w where
  present := slotPresent_congr hmem w
  table _ := tableOf_congr hmem w
  entry j _ := by
    unfold pte
    rw [slotPresent_congr hmem, tableOf_congr hmem, hmem]

/-- A slot whose word is kept and whose table keeps its words. -/
theorem SameSlot.of_cells (hslot : s'.mem (slotAddr w) = s.mem (slotAddr w))
    (hentry : slotPresent s w = true → ∀ j < 1024,
      s'.mem (tableOf s w + 4 * j) = s.mem (tableOf s w + 4 * j)) : SameSlot s s' w := by
  have hpres : slotPresent s' w = slotPresent s w := by
    unfold slotPresent
    rw [hslot]
  have htable : tableOf s' w = tableOf s w := by
    unfold tableOf
    rw [hslot]
  refine ⟨hpres, fun _ => htable, fun j hj => ?_⟩
  unfold pte
  rw [hpres, htable]
  cases hset : slotPresent s w with
  | false => rfl
  | true => rw [hentry hset j hj]

theorem SameSlot.entryAt_eq {pd n : ℕ} (h : SameSlot s s' (pd, n / 1024)) :
    entryAt s' pd n = entryAt s pd n := h.entry _ (Nat.mod_lt n (by norm_num))

/-- The tables of slots that are as they were. -/
theorem tables_eq_of_sameSlot (h : ∀ w ∈ W, SameSlot s s' w) : tables W s' = tables W s := by
  ext b
  constructor
  · rintro ⟨w, hw, hpres, rfl⟩
    rw [(h w hw).present] at hpres
    exact ⟨w, hw, hpres, by rw [(h w hw).table hpres]⟩
  · rintro ⟨w, hw, hpres, rfl⟩
    exact ⟨w, hw, (h w hw).present.trans hpres, by rw [(h w hw).table hpres]⟩

/-- A step that writes neither slots nor entries. -/
theorem PageTables.of_cells (h : PageTables V W L s) (halloc : s'.alloc = s.alloc)
    (hslot : ∀ w ∈ W, s'.mem (slotAddr w) = s.mem (slotAddr w))
    (hentry : ∀ w ∈ W, slotPresent s w = true → ∀ j < 1024,
      s'.mem (tableOf s w + 4 * j) = s.mem (tableOf s w + 4 * j)) :
    PageTables V W L s' ∧ ∀ w ∈ W, SameSlot s s' w := by
  have hsame : ∀ w ∈ W, slotPresent s' w = slotPresent s w ∧ tableOf s' w = tableOf s w := by
    intro w hw
    unfold slotPresent tableOf
    rw [hslot w hw]
    exact ⟨rfl, rfl⟩
  exact ⟨h.of_slots halloc hsame, fun w hw => .of_cells (hslot w hw) (hentry w hw)⟩

/-- A word of a page below `HIGHMEM` lies below `HIGHMEM`. -/
theorem wordAddr_lt {p i : ℕ} (hdvd : 4096 ∣ p) (hlt : p < highmemStart) (hi : i < 1024) :
    p + 4 * i < highmemStart := by
  unfold highmemStart at hlt ⊢
  omega

/-- What lies below `HIGHMEM` is all that directories and tables consist of. -/
theorem PageTables.of_sameLow (h : PageTables V W L s) (hlow : Phys.SameLow s s') :
    PageTables V W L s' ∧ ∀ w ∈ W, SameSlot s s' w := by
  refine h.of_cells hlow.alloc (fun w hw => ?_) fun w hw hpres j hj => ?_
  · obtain ⟨hdvd, hlt, hi, -⟩ := h.dir w hw
    exact hlow.mem _ (wordAddr_lt hdvd hlt hi)
  · exact hlow.mem _ (wordAddr_lt (tableOf_dvd s w) (h.table w hw hpres).1 hj)

/-- A step that writes inside a live page that is neither a directory nor a table. -/
theorem PageTables.of_page (h : PageTables V W L s) (halloc : s'.alloc = s.alloc) {p : ℕ}
    (hL : (p, 0) ∈ L) (hdir : ∀ w ∈ W, w.1 ≠ p * 4096)
    (hmem : ∀ a, ¬ (p * 4096 ≤ a ∧ a < p * 4096 + pageSize) → s'.mem a = s.mem a) :
    PageTables V W L s' ∧ ∀ w ∈ W, SameSlot s s' w := by
  have hdvd : 4096 ∣ p * 4096 := Dvd.intro_left p rfl
  refine h.of_cells halloc (fun w hw => hmem _ fun hc => ?_) fun w hw hpres j hj => hmem _ fun hc => ?_
  · obtain ⟨hdvd', -, hi, -⟩ := h.dir w hw
    exact hdir w hw ((wordAddr_mem_page hdvd' hdvd hi).mp hc)
  · have heq := (wordAddr_mem_page (tableOf_dvd s w) hdvd hj).mp hc
    apply (h.table w hw hpres).2.1
    rw [heq, Nat.mul_div_cancel p (by norm_num)]
    exact hL

/-! ## Mapping by slots -/

/-- **`vmm_map_page`** by slots. -/
theorem PageTables.mapPage_slots (hA : A.Lawful V) (h : PageTables V W L s) {pd v p flags : ℕ}
    (hw : (pd, v / 4096 / 1024) ∈ W) (hflag : flagIsSet flags ptePresentBit = true) :
    (vmmMapPage A pd v p flags s = .ok (false, s) ∧ slotPresent s (pd, v / 4096 / 1024) = false) ∨
    ∃ s', vmmMapPage A pd v p flags s = .ok (true, s') ∧ PageTables V W L s' ∧
      (∀ w ∈ W, w ≠ (pd, v / 4096 / 1024) → SameSlot s s' w) ∧
      ∀ j < 1024, pte s' (pd, v / 4096 / 1024) j =
        if j = v / 4096 % 1024 then some (p ||| flags) else pte s (pd, v / 4096 / 1024) j := by
  rw [← getPdeIndex_eq, ← getPteIndex_eq] at *
  rcases h.vmmMapPage_spec (p := p) hA hw hflag with hfail | ⟨s', hrun, hinv, hslots, hpte⟩
  · exact Or.inl hfail
  · refine Or.inr ⟨s', hrun, hinv, fun w hw' hne => ?_, fun j hj => ?_⟩
    · obtain ⟨hpres, htable⟩ := hslots w hw' hne
      refine ⟨hpres, fun _ => htable, fun j hj => ?_⟩
      rw [hpte w hw' j hj, if_neg fun hc => hne hc.1]
    · rw [hpte _ hw j hj]
      exact if_congr (and_iff_right rfl) rfl rfl

/-- **`vmm_unmap_page`** by slots: a table goes with its last entry. -/
theorem PageTables.unmapPage_slots (hA : A.Lawful V) (h : PageTables V W L s) {pd v : ℕ}
    (hw : (pd, v / 4096 / 1024) ∈ W) :
    ∃ ok s', vmmUnmapPage A pd v s = .ok (ok, s') ∧ PageTables V W L s' ∧
      (∀ w ∈ W, w ≠ (pd, v / 4096 / 1024) → SameSlot s s' w) ∧
      (∀ j < 1024, pte s' (pd, v / 4096 / 1024) j =
        if j = v / 4096 % 1024 then none else pte s (pd, v / 4096 / 1024) j) ∧
      (pte s (pd, v / 4096 / 1024) (v / 4096 % 1024) ≠ none →
        slotPresent s' (pd, v / 4096 / 1024) = true →
        ∃ j < 1024, pte s' (pd, v / 4096 / 1024) j ≠ none) := by
  rw [← getPdeIndex_eq, ← getPteIndex_eq] at *
  rcases h.vmmUnmapPage_spec hA hw with
    ⟨hrun, hnone⟩ | ⟨s', hrun, hinv, -, htable, hpres, hlast, hpte⟩
  · refine ⟨false, s, hrun, h, fun w _ _ => .refl s w, fun j _ => ?_, fun hc => absurd hnone hc⟩
    split
    · next heq => rw [heq, hnone]
    · rfl
  · refine ⟨true, s', hrun, hinv, fun w hw' hne => ?_, fun j hj => ?_, fun _ => hlast⟩
    · have heq := hpres w hw' hne
      refine ⟨heq, fun hp => (htable w hw' (heq.trans hp)).2, fun j hj => ?_⟩
      rw [hpte w hw' j hj, if_neg fun hc => hne hc.1]
    · rw [hpte _ hw j hj]
      exact if_congr (and_iff_right rfl) rfl rfl

/-! ## Directories come and go -/

/-- **A new directory**: a live page, none of whose new slots is present. -/
theorem PageTables.addDirectory (h : PageTables V W L s) {pd : ℕ} {I : Set ℕ} (hdvd : 4096 ∣ pd)
    (hlt : pd < highmemStart) (hI : ∀ i ∈ I, i < 1024) (hfree : pd / 4096 ∉ V.free s.alloc)
    (hL : (pd / 4096, 0) ∈ L) (habs : ∀ i ∈ I, slotPresent s (pd, i) = false) :
    PageTables V (W ∪ { w | w.1 = pd ∧ w.2 ∈ I }) L s := by
  have hold : ∀ w ∈ W ∪ { w | w.1 = pd ∧ w.2 ∈ I }, slotPresent s w = true → w ∈ W := by
    rintro ⟨q, i⟩ (hw | ⟨rfl, hi⟩) hpres
    · exact hw
    · rw [habs i hi] at hpres
      cases hpres
  have htables : tables (W ∪ { w | w.1 = pd ∧ w.2 ∈ I }) s = tables W s := by
    ext b
    constructor
    · rintro ⟨w, hw, hpres, rfl⟩
      exact ⟨w, hold w hw hpres, hpres, rfl⟩
    · rintro ⟨w, hw, hpres, rfl⟩
      exact ⟨w, Or.inl hw, hpres, rfl⟩
  exact {
    inv := h.inv
    dir := by
      rintro ⟨q, i⟩ (hw | ⟨rfl, hi⟩)
      · exact h.dir _ hw
      · exact ⟨hdvd, hlt, hI i hi, hfree⟩
    table := by
      intro w hw hpres
      obtain ⟨h1, h2, h3⟩ := h.table w (hold w hw hpres) hpres
      refine ⟨h1, h2, ?_⟩
      rintro ⟨q, i⟩ (hw' | ⟨rfl, -⟩) heq
      · exact h3 _ hw' heq
      · -- the directory is in `L`, a table is not
        exact h2 (heq ▸ hL)
    inj := fun w hw w' hw' hpres hpres' =>
      h.inj w (hold w hw hpres) w' (hold w' hw' hpres') hpres hpres'
    live := by
      rw [htables]
      exact h.live }

/-- **Slots that nobody looks after any more**: their tables stay live, and are only blocks now. -/
theorem PageTables.forget (h : PageTables V W L s) (hsub : W' ⊆ W) :
    PageTables V W' (L ∪ tables (W \ W') s) s where
  inv := h.inv
  dir w hw := h.dir w (hsub hw)
  table w hw hpres := by
    obtain ⟨h1, h2, h3⟩ := h.table w (hsub hw) hpres
    refine ⟨h1, ?_, fun w' hw' => h3 w' (hsub hw')⟩
    rintro (hL | ⟨w', ⟨hw', hnot⟩, hpres', heq⟩)
    · exact h2 hL
    · have hdvd := tableOf_dvd s w
      have hdvd' := tableOf_dvd s w'
      have hpage := (Prod.mk.inj heq).1
      have hsame := h.inj w (hsub hw) w' hw' hpres hpres' (by omega)
      exact hnot (hsame ▸ hw)
  inj w hw w' hw' := h.inj w (hsub hw) w' (hsub hw')
  live := by
    have hsplit : tables W s = tables (W \ W') s ∪ tables W' s := by
      ext b
      constructor
      · rintro ⟨w, hw, hpres, rfl⟩
        by_cases hw' : w ∈ W'
        · exact Or.inr ⟨w, hw', hpres, rfl⟩
        · exact Or.inl ⟨w, ⟨hw, hw'⟩, hpres, rfl⟩
      · rintro (⟨w, hw, hpres, rfl⟩ | ⟨w, hw, hpres, rfl⟩)
        · exact ⟨w, hw.1, hpres, rfl⟩
        · exact ⟨w, hsub hw, hpres, rfl⟩
    rw [h.live, hsplit, Set.union_assoc]

theorem tables_of_absent (h : ∀ w ∈ W, slotPresent s w = false) : tables W s = ∅ := by
  ext b
  constructor
  · rintro ⟨w, hw, hpres, -⟩
    rw [h w hw] at hpres
    cases hpres
  · exact fun hc => absurd hc (Set.notMem_empty b)

/-- Empty slots can be dropped. -/
theorem PageTables.dropSlots (h : PageTables V W L s) (hsub : W' ⊆ W)
    (habs : ∀ w ∈ W, w ∉ W' → slotPresent s w = false) : PageTables V W' L s := by
  have hforget := h.forget hsub
  rw [tables_of_absent fun w hw => habs w hw.1 hw.2, Set.union_empty] at hforget
  exact hforget

/-- **A page for a directory**, filled with zeros. -/
theorem PageTables.newDirectory_spec (hA : A.Lawful V) (h : PageTables V W L s) :
    A.allocOn pageSize .lowmem s = .ok (0, s) ∨
    ∃ p s₁, A.allocOn pageSize .lowmem s = .ok (p * 4096, s₁) ∧ p ≠ 0 ∧ p * 4096 < highmemStart ∧
      (p, 0) ∉ L ∧ (∀ w ∈ W, w.1 ≠ p * 4096) ∧ p ∉ V.free s₁.alloc ∧
      PageTables V W (insert (p, 0) L) (s₁.zeroPage (p * 4096)) ∧
      (∀ w ∈ W, SameSlot s (s₁.zeroPage (p * 4096)) w) ∧
      ∀ i < 1024, (s₁.zeroPage (p * 4096)).mem (p * 4096 + 4 * i) = 0 := by
  rcases h.alloc_spec hA pageSize .lowmem with hnull | ⟨p, s₁, hrun, hnew⟩
  · exact Or.inl hnull
  · rw [sizeToOrder_pageSize] at hnew
    have hself := self_mem_block p 0
    have hdir : ∀ w ∈ W, w.1 ≠ p * 4096 := by
      intro w hw heq
      apply (h.dir w hw).2.2.2
      rw [heq, Nat.mul_div_cancel p (by norm_num)]
      exact hnew.subset hself
    have hlive : (p, 0) ∈ V.live s₁.alloc := by
      rw [hnew.tables.live]
      exact Or.inl (Set.mem_insert _ L)
    obtain ⟨htables, hsame⟩ := hnew.tables.of_page
      (show (s₁.zeroPage (p * 4096)).alloc = s₁.alloc from rfl) (Set.mem_insert _ L) hdir fun a ha => if_neg ha
    refine Or.inr ⟨p, s₁, hrun, hnew.ne_zero, lowmem_lt (hnew.zone p hself), hnew.fresh, hdir, ?_,
      htables, fun w hw => (SameSlot.of_mem hnew.mem w).trans (hsame w hw), fun i hi => ?_⟩
    · exact Set.disjoint_left.mp (hA.notFree hnew.tables.inv hlive) hself
    · exact if_pos ((wordAddr_mem_page (Dvd.intro_left p rfl) (Dvd.intro_left p rfl) hi).mpr rfl)

/-- The loop of **`vmm_free_pt_range`** gives the tables of its slots back. -/
theorem PageTables.freePts_spec (hA : A.Lawful V) {pd : ℕ} (is : List ℕ) :
    ∀ {s : Phys σ}, PageTables V W L s → (∀ i ∈ is, (pd, i) ∈ W) →
    ∃ s', is.foldlM (freePt A pd) s = .ok s' ∧ PageTables V W L s' ∧
      (∀ w ∈ W, ¬ (w.1 = pd ∧ w.2 ∈ is) → SameSlot s s' w) ∧
      ∀ w ∈ W, slotPresent s' w = true → slotPresent s w = true ∧ ¬ (w.1 = pd ∧ w.2 ∈ is) := by
  induction is with
  | nil =>
    intro s h _
    exact ⟨s, rfl, h, fun w _ _ => .refl s w, fun w _ hpres => ⟨hpres, fun hc => (nomatch hc.2)⟩⟩
  | cons i is ih =>
    intro s h hW
    have hw : (pd, i) ∈ W := hW i List.mem_cons_self
    -- one turn
    obtain ⟨s₁, hrun, h₁, hsame₁, hpres₁⟩ : ∃ s₁, freePt A pd s i = .ok s₁ ∧ PageTables V W L s₁ ∧
        (∀ w ∈ W, w ≠ (pd, i) → SameSlot s s₁ w) ∧ slotPresent s₁ (pd, i) = false := by
      unfold freePt
      cases hpres : slotPresent s (pd, i) with
      | false =>
        have habs : flagIsSet (s.mem (pd + 4 * i)) pdePresentBit = false := hpres
        rw [habs]
        exact ⟨s, rfl, h, fun w _ _ => .refl s w, hpres⟩
      | true =>
        have hset : flagIsSet (s.mem (pd + 4 * i)) pdePresentBit = true := hpres
        have hlive : (tableOf s (pd, i) / 4096, 0) ∈ V.live s.alloc := by
          rw [h.live]
          exact Or.inr ⟨_, hw, hpres, rfl⟩
        obtain ⟨a', hfree, hret⟩ := hA.release h.inv hlive
        rw [Nat.div_mul_cancel (tableOf_dvd s _)] at hfree
        have hfree : A.buddyFreeBlock (getEntryAddr (s.mem (pd + 4 * i))) s.alloc = .ok a' := hfree
        rw [if_pos hset, hfree, ok_bind]
        obtain ⟨h₁, hslots, hpte⟩ := h.removeTable ({ s with alloc := a' }.write (pd + 4 * i) 0) hw
          hpres hret (if_pos rfl) (fun a ha _ => if_neg ha) rfl
        refine ⟨_, rfl, h₁, fun w hw' hne => ⟨?_, fun _ => (hslots w hw').2 hne, fun j hj => ?_⟩, ?_⟩
        · rw [(hslots w hw').1, if_neg hne]
        · rw [hpte w hw' j hj, if_neg hne]
        · rw [(hslots _ hw).1, if_pos rfl]
    obtain ⟨s', hrest, h', hsame, hpres⟩ := ih h₁ fun j hj => hW j (List.mem_cons_of_mem i hj)
    refine ⟨s', ?_, h', fun w hw' hnot => ?_, fun w hw' hp => ?_⟩
    · rw [List.foldlM_cons, hrun, ok_bind]
      exact hrest
    · have hne : w ≠ (pd, i) := by
        rintro rfl
        exact hnot ⟨rfl, List.mem_cons_self⟩
      refine (hsame₁ w hw' hne).trans (hsame w hw' fun hc => hnot ⟨hc.1, ?_⟩)
      exact List.mem_cons_of_mem i hc.2
    · obtain ⟨hp₁, hnot⟩ := hpres w hw' hp
      have hne : w ≠ (pd, i) := by
        rintro rfl
        rw [hpres₁] at hp₁
        cases hp₁
      refine ⟨(hsame₁ w hw' hne).present ▸ hp₁, fun hc => ?_⟩
      rcases List.mem_cons.mp hc.2 with heq | hmem
      · exact hne (Prod.ext hc.1 heq)
      · exact hnot ⟨hc.1, hmem⟩

/-- **`vmm_destroy_user_pd`** on a directory whose other slots are empty. -/
theorem PageTables.vmmDestroyUserPd_spec (hA : A.Lawful V) (h : PageTables V W L s) {pd : ℕ}
    (hW : ∀ i < userPdes, (pd, i) ∈ W) (hL : (pd / 4096, 0) ∈ L)
    (habs : ∀ w ∈ W, w.1 = pd → userPdes ≤ w.2 → slotPresent s w = false) :
    ∃ s', vmmDestroyUserPd A pd s = .ok s' ∧
      PageTables V { w ∈ W | w.1 ≠ pd } (L \ {(pd / 4096, 0)}) s' ∧
      ∀ w ∈ W, w.1 ≠ pd → SameSlot s s' w := by
  have hpd := h.dir _ (hW 0 (by decide))
  have hrange : List.range' 0 (userPdes - 0) = List.range userPdes := List.range_eq_range'.symm
  obtain ⟨s₁, hrun, h₁, hsame, hpres⟩ := h.freePts_spec hA (List.range userPdes) fun i hi =>
    hW i (List.mem_range.mp hi)
  have hdrop : PageTables V { w ∈ W | w.1 ≠ pd } L s₁ := by
    refine h₁.dropSlots (fun w hw => hw.1) fun w hw hnot => ?_
    have hw1 : w.1 = pd := by
      by_contra hne
      exact hnot ⟨hw, hne⟩
    by_contra hp
    obtain ⟨hp₀, hout⟩ := hpres w hw (by simpa using hp)
    by_cases hlt : w.2 < userPdes
    · exact hout ⟨hw1, List.mem_range.mpr hlt⟩
    · rw [habs w hw hw1 (not_lt.mp hlt)] at hp₀
      cases hp₀
  obtain ⟨s₂, hfree, hmem, h₂, -⟩ := hdrop.free_spec hA hL fun w hw hc => by
    rw [block_zero] at hc
    have hc : w.1 / 4096 = pd / 4096 := hc
    have hdvd := (h.dir w hw.1).1
    have hdvd' := hpd.1
    exact hw.2 (by omega)
  rw [Nat.div_mul_cancel hpd.1] at hfree
  refine ⟨s₂, ?_, h₂, fun w hw hne => (hsame w hw fun hc => hne hc.1).trans (.of_mem hmem w)⟩
  unfold vmmDestroyUserPd vmmFreePtRange
  rw [physLinear_eq hpd.2.1, ok_bind, hrange, hrun, ok_bind]
  exact hfree

/-! ## The kernel window -/

theorem kmap_slot : vmmKmapVaddr / 4096 / 1024 = 1023 := by norm_num [vmmKmapVaddr]

theorem kmap_index : vmmKmapVaddr / 4096 % 1024 = 1022 := by norm_num [vmmKmapVaddr]

/-- Where an access through a mapped page goes. -/
theorem PageTables.vmmGetMapping_entry (h : PageTables V W L s) {pd v e : ℕ}
    (hw : (pd, v / 4096 / 1024) ∈ W)
    (he : pte s (pd, v / 4096 / 1024) (v / 4096 % 1024) = some e) (hv : 4096 ∣ v) :
    vmmGetMapping pd v s = .ok (getEntryAddr e) := by
  rw [← getPdeIndex_eq, ← getPteIndex_eq] at he
  rw [← getPdeIndex_eq] at hw
  have hoff : v &&& 0xFFF = 0 := by
    rw [show (0xFFF : ℕ) = 2 ^ 12 - 1 by norm_num, Nat.and_two_pow_sub_one_eq_mod]
    exact Nat.mod_eq_zero_of_dvd hv
  rw [h.vmmGetMapping_eq hw, lookup_eq_map, he, hoff]
  rfl

end Slots

end Kfs.Memory
