import Kfs.Memory.Buddy

/-!
# The representation invariant of the buddy allocator

`FreeInv s F H` says that the free lists of `s` hold disjoint aligned blocks that cover exactly
the page set `F`, with counters, list membership, page states and `private_data` in agreement.
`H` is the block in hand: between the unlinking of a block and the last call of
`set_block_metadata` its pages are on no list although they still read `FREE`.

`buddyAllocPages_spec` and `buddyFreeBlock_spec` describe the two operations by their effect on
`F`; everything above the buddy allocator uses these two lemmas and never looks at the lists.
-/

namespace Kfs.Memory

open Kfs.Lib.Word32 Kfs.Lib.Dyadic

/-! ## Metadata of a block -/

private theorem foldl_setPageMetadata_of_le (f st : ℕ) (pages : ℕ → Page) {n j : ℕ}
    (hj : f + n ≤ j ∨ j < f) :
    (List.range n).foldl (setPageMetadata f st) pages j = pages j := by
  induction n with
  | zero => rfl
  | succ n ih =>
    rw [List.range_succ, List.foldl_append, List.foldl_cons, List.foldl_nil, setPageMetadata,
      Function.update_of_ne (by omega)]
    exact ih (by omega)

private theorem foldl_setPageMetadata (f st : ℕ) (pages : ℕ → Page) {n i : ℕ} (hi : i < n) :
    (List.range n).foldl (setPageMetadata f st) pages (f + i) =
      if i > 0 then { pageSetState (pages (f + i)) st with privateData := pageMagic }
      else pageSetState (pages (f + i)) st := by
  induction n with
  | zero => omega
  | succ n ih =>
    rw [List.range_succ, List.foldl_append, List.foldl_cons, List.foldl_nil, setPageMetadata]
    -- turn `n` writes page `f + n`, which no earlier turn has touched
    by_cases hn : i = n
    · subst hn
      rw [Function.update_self, foldl_setPageMetadata_of_le f st pages (Or.inl le_rfl)]
    · rw [Function.update_of_ne (by omega)]
      exact ih (by omega)

@[simp] theorem setBlockMetadata_areas (f k st : ℕ) (s : BuddyState) :
    (setBlockMetadata f k st s).areas = s.areas := rfl

/-- Outside the block nothing changes. -/
theorem setBlockMetadata_pages_of_notMem {f k st j : ℕ} (s : BuddyState) (hj : j ∉ block f k) :
    (setBlockMetadata f k st s).pages j = s.pages j := by
  have hpos := Nat.two_pow_pos k
  simp only [mem_block] at hj
  simp only [setBlockMetadata, pageByOrder]
  rw [foldl_setPageMetadata_of_le f st _ (by omega), Function.update_of_ne (by omega)]

/-- The head page carries the order. -/
theorem setBlockMetadata_head (f k st : ℕ) (s : BuddyState) :
    (setBlockMetadata f k st s).pages f =
      { pageSetState (s.pages f) st with privateData := k } := by
  have h := foldl_setPageMetadata f st
    (Function.update s.pages f { s.pages f with privateData := k }) (Nat.two_pow_pos k)
  simp only [add_zero, Function.update_self] at h
  exact h

/-- The other pages carry the magic number. -/
theorem setBlockMetadata_tail {f k st j : ℕ} (s : BuddyState) (hj : j ∈ block f k) (hne : j ≠ f) :
    (setBlockMetadata f k st s).pages j =
      { pageSetState (s.pages j) st with privateData := pageMagic } := by
  obtain ⟨hle, hlt⟩ := mem_block.mp hj
  obtain ⟨i, rfl⟩ := Nat.exists_eq_add_of_le hle
  have h := foldl_setPageMetadata f st
    (Function.update s.pages f { s.pages f with privateData := k }) (show i < 2 ^ k by omega)
  rw [if_pos (by omega), Function.update_of_ne hne] at h
  exact h

theorem pageGetState_setBlockMetadata {f k st j : ℕ} (s : BuddyState) (hst : st < 8)
    (hj : j ∈ block f k) : pageGetState ((setBlockMetadata f k st s).pages j) = st := by
  by_cases hne : j = f
  · subst hne
    rw [setBlockMetadata_head]
    exact pageGetState_pageSetState _ hst
  · rw [setBlockMetadata_tail s hj hne]
    exact pageGetState_pageSetState _ hst

theorem pageGetZone_setBlockMetadata {f k st j : ℕ} (s : BuddyState) (hst : st < 8) :
    pageGetZone ((setBlockMetadata f k st s).pages j) = pageGetZone (s.pages j) := by
  by_cases hj : j ∈ block f k
  · by_cases hne : j = f
    · subst hne
      rw [setBlockMetadata_head]
      exact pageGetZone_pageSetState _ hst
    · rw [setBlockMetadata_tail s hj hne]
      exact pageGetZone_pageSetState _ hst
  · rw [setBlockMetadata_pages_of_notMem s hj]

/-! ## The invariant -/

theorem setArea_areas (s : BuddyState) (z z' : Zone) (k k' : ℕ) (area : FreeArea) :
    (s.setArea z k area).areas z' k' = if z' = z ∧ k' = k then area else s.areas z' k' := by
  unfold BuddyState.setArea
  by_cases hz : z' = z
  · subst hz
    by_cases hk : k' = k
    · subst hk
      simp
    · simp [hk]
  · simp [hz]

@[simp] theorem setArea_pages (s : BuddyState) (z : Zone) (k : ℕ) (area : FreeArea) :
    (s.setArea z k area).pages = s.pages := rfl

/-- The blocks on the free lists, as head page and order. -/
def freeBlocks (s : BuddyState) : Set (ℕ × ℕ) :=
  { b | ∃ z, b.1 ∈ (s.areas z b.2).freeList }

/-- The free lists cover `F`; the pages of `H` are in hand. -/
structure FreeInv (s : BuddyState) (F H : Set ℕ) : Prop where
  zoneFlag : ∀ i < maxPages, pageGetZone (s.pages i) = pageGetZoneFlag (pageToPhys i)
  count : ∀ z k, (s.areas z k).nrFree = (s.areas z k).freeList.length
  nodup : ∀ z k, (s.areas z k).freeList.Nodup
  zone : ∀ {z k i}, i ∈ (s.areas z k).freeList → zoneOfPage i = z
  tiling : IsTiling maxOrder (freeBlocks s) F
  head : ∀ {i k}, (i, k) ∈ freeBlocks s →
    pageGetState (s.pages i) = pageStateFree ∧ (s.pages i).privateData = k
  tail : ∀ {i k j}, (i, k) ∈ freeBlocks s → j ∈ block i k → j ≠ i →
    pageGetState (s.pages j) = pageStateFree ∧ (s.pages j).privateData = pageMagic
  inTable : ∀ j ∈ F, j < maxPages
  notFree : ∀ j < maxPages, j ∉ F → j ∉ H → pageGetState (s.pages j) ≠ pageStateFree

section Invariant

variable {s : BuddyState} {F H : Set ℕ}

theorem mem_freeBlocks {i k : ℕ} : (i, k) ∈ freeBlocks s ↔ ∃ z, i ∈ (s.areas z k).freeList :=
  Iff.rfl

theorem FreeInv.mem_list (h : FreeInv s F H) {i k : ℕ} (hb : (i, k) ∈ freeBlocks s) :
    i ∈ (s.areas (zoneOfPage i) k).freeList := by
  obtain ⟨z, hz⟩ := hb
  rw [h.zone hz]
  exact hz

theorem FreeInv.lt_maxPages (h : FreeInv s F H) {i k : ℕ} (hb : (i, k) ∈ freeBlocks s) :
    i < maxPages :=
  h.inTable i ((h.tiling.cover i).mpr ⟨i, k, hb, self_mem_block i k⟩)

/-- A page is head of at most one listed block. -/
theorem FreeInv.order_unique (h : FreeInv s F H) {i k k' : ℕ} (hb : (i, k) ∈ freeBlocks s)
    (hb' : (i, k') ∈ freeBlocks s) : k = k' :=
  (h.tiling.disjoint hb hb' (self_mem_block i k) (self_mem_block i k')).2

theorem FreeInv.isLinked_iff (h : FreeInv s F H) (i : ℕ) :
    s.isLinked i = true ↔ ∃ k, (i, k) ∈ freeBlocks s := by
  unfold BuddyState.isLinked
  simp only [List.any_eq_true, List.mem_range, List.contains_iff_mem]
  constructor
  · rintro ⟨z, -, k, -, hi⟩
    exact ⟨k, z, hi⟩
  · rintro ⟨k, z, hi⟩
    have hk : k ≤ maxOrder := h.tiling.order_le ⟨z, hi⟩
    exact ⟨z, Zone.mem_all z, k, by unfold maxOrder at hk; unfold badOrder; omega, hi⟩

/-- A free list holds distinct pages of the table, so its length is far below `2 ^ 32`. -/
theorem FreeInv.length_le (h : FreeInv s F H) (z : Zone) (k : ℕ) :
    (s.areas z k).freeList.length ≤ maxPages := by
  have hsub : (s.areas z k).freeList.toFinset ⊆ Finset.range maxPages := by
    intro i hi
    exact Finset.mem_range.mpr (h.lt_maxPages ⟨z, List.mem_toFinset.mp hi⟩)
  calc (s.areas z k).freeList.length
      = (s.areas z k).freeList.toFinset.card := (List.toFinset_card_of_nodup (h.nodup z k)).symm
    _ ≤ (Finset.range maxPages).card := Finset.card_le_card hsub
    _ = maxPages := Finset.card_range maxPages

/-- The pages of the block in hand may be enlarged. -/
theorem FreeInv.weaken (h : FreeInv s F H) {H' : Set ℕ} (hH : H ⊆ H') : FreeInv s F H' :=
  { h with notFree := fun j hlt hj hj' => h.notFree j hlt hj (fun hjH => hj' (hH hjH)) }

/-- The invariant only reads the lists, the pages of `F`, and of the other pages their zone and
that they are not `FREE`. -/
theorem FreeInv.congr_pages (h : FreeInv s F H) {pages : ℕ → Page} {H' : Set ℕ}
    (hF : ∀ j ∈ F, pages j = s.pages j)
    (hzone : ∀ j < maxPages, pageGetZone (pages j) = pageGetZone (s.pages j))
    (hfree : ∀ j < maxPages, j ∉ F → j ∉ H' → pageGetState (pages j) ≠ pageStateFree) :
    FreeInv { s with pages := pages } F H' := by
  have hmem : ∀ {i k j}, (i, k) ∈ freeBlocks s → j ∈ block i k → j ∈ F :=
    fun hb hj => (h.tiling.cover _).mpr ⟨_, _, hb, hj⟩
  refine { h with
    zoneFlag := fun j hj => (hzone j hj).trans (h.zoneFlag j hj)
    head := fun {i k} hb => ?_
    tail := fun {i k j} hb hj hne => ?_
    notFree := hfree }
  · simp only
    rw [hF i (hmem hb (self_mem_block i k))]
    exact h.head hb
  · simp only
    rw [hF j (hmem hb hj)]
    exact h.tail hb hj hne

/-! ## Unlinking a block -/

/-- The state after `pop_node` and `nr_free--` on the list of order `k`. -/
def unlinked (s : BuddyState) (i k : ℕ) (z : Zone) : BuddyState :=
  s.setArea z k
    { freeList := (s.areas z k).freeList.erase i, nrFree := (s.areas z k).freeList.length - 1 }

theorem FreeInv.popNode_eq (h : FreeInv s F H) {z : Zone} {i k : ℕ}
    (hi : i ∈ (s.areas z k).freeList) :
    ∃ s₁, popNode i s = .ok s₁ ∧ decNrFree k z s₁ = unlinked s i k z := by
  have hlinked : s.isLinked i = true := (h.isLinked_iff i).mpr ⟨k, z, hi⟩
  refine ⟨_, by unfold popNode; rw [if_pos hlinked], ?_⟩
  have hlen := h.length_le z k
  have hpos : 0 < (s.areas z k).freeList.length := List.length_pos_of_mem hi
  refine BuddyState.ext (by simp only [decNrFree, unlinked, setArea_pages]) ?_
  funext z' k'
  unfold decNrFree unlinked
  rw [setArea_areas, setArea_areas]
  split
  next =>
    rw [h.count, sub32_eq (by unfold maxPages at hlen; omega) hpos]
  next hzk =>
    -- every other list is unchanged because the page is on no other list
    have hnot : i ∉ (s.areas z' k').freeList := fun hi' =>
      hzk ⟨(h.zone hi').symm.trans (h.zone hi), h.order_unique ⟨z', hi'⟩ ⟨z, hi⟩⟩
    simp only [List.erase_of_not_mem hnot]

theorem FreeInv.freeBlocks_unlinked (h : FreeInv s F H) {z : Zone} {i k : ℕ}
    (hi : i ∈ (s.areas z k).freeList) :
    freeBlocks (unlinked s i k z) = freeBlocks s \ {(i, k)} := by
  ext ⟨a, b⟩
  simp only [mem_freeBlocks, unlinked, setArea_areas, Set.mem_sdiff, Set.mem_singleton_iff,
    Prod.mk.injEq, not_and]
  constructor
  · rintro ⟨z', ha⟩
    split at ha
    next hzk =>
      obtain ⟨rfl, rfl⟩ := hzk
      have ha' := (List.Nodup.mem_erase_iff (h.nodup z' b)).mp ha
      exact ⟨⟨z', ha'.2⟩, fun hai => absurd hai ha'.1⟩
    next hzk =>
      refine ⟨⟨z', ha⟩, ?_⟩
      rintro rfl rfl
      exact hzk ⟨(h.zone ha).symm.trans (h.zone hi), rfl⟩
  · rintro ⟨⟨z', ha⟩, hne⟩
    refine ⟨z', ?_⟩
    split
    next hzk =>
      obtain ⟨rfl, rfl⟩ := hzk
      exact (List.Nodup.mem_erase_iff (h.nodup z' b)).mpr ⟨fun hai => hne hai rfl, ha⟩
    next => exact ha

/-- Unlinking moves the block from the free set into the hand. -/
theorem FreeInv.unlinked (h : FreeInv s F H) {z : Zone} {i k : ℕ}
    (hi : i ∈ (s.areas z k).freeList) :
    FreeInv (unlinked s i k z) (F \ block i k) (H ∪ block i k) where
  zoneFlag := h.zoneFlag
  count z' k' := by
    simp only [Memory.unlinked, setArea_areas]
    split
    · rw [List.length_erase_of_mem hi]
    · exact h.count z' k'
  nodup z' k' := by
    simp only [Memory.unlinked, setArea_areas]
    split
    · exact (h.nodup z k).erase i
    · exact h.nodup z' k'
  zone {z' k' j} hj := by
    simp only [Memory.unlinked, setArea_areas] at hj
    split at hj
    next hzk => rw [hzk.1]; exact h.zone (List.mem_of_mem_erase hj)
    next => exact h.zone hj
  tiling := by
    rw [h.freeBlocks_unlinked hi]
    exact h.tiling.erase ⟨z, hi⟩
  head hb := by
    rw [h.freeBlocks_unlinked hi] at hb
    exact h.head hb.1
  tail hb hj hne := by
    rw [h.freeBlocks_unlinked hi] at hb
    exact h.tail hb.1 hj hne
  inTable j hj := h.inTable j hj.1
  notFree j hlt hj hjH := by
    simp only [Set.mem_union, not_or] at hjH
    exact h.notFree j hlt (fun hjF => hj ⟨hjF, hjH.2⟩) hjH.1

/-! ## Linking a block -/

/-- The state after `set_block_metadata`, `buddy_list_add_head` and `nr_free++`. -/
def linked (s : BuddyState) (i k : ℕ) (z : Zone) : BuddyState :=
  (setBlockMetadata i k pageStateFree s).setArea z k
    { freeList := i :: (s.areas z k).freeList, nrFree := (s.areas z k).freeList.length + 1 }

theorem FreeInv.notMem_freeBlocks (h : FreeInv s F H) {i k : ℕ} (hdis : Disjoint (block i k) F) :
    ∀ k', (i, k') ∉ freeBlocks s := fun k' hb =>
  Set.disjoint_left.mp hdis (self_mem_block i k)
    ((h.tiling.cover i).mpr ⟨i, k', hb, self_mem_block i k'⟩)

theorem FreeInv.linkFreeBlock_eq (h : FreeInv s F H) {i k : ℕ} (z : Zone)
    (hdis : Disjoint (block i k) F) : linkFreeBlock i k z s = .ok (linked s i k z) := by
  have hnot : s.isLinked i = false := by
    rw [← Bool.not_eq_true, h.isLinked_iff]
    rintro ⟨k', hb⟩
    exact h.notMem_freeBlocks hdis k' hb
  have hnot' : (setBlockMetadata i k pageStateFree s).isLinked i = false := hnot
  have hlen := h.length_le z k
  simp only [linkFreeBlock, buddyListAddHead, hnot', Bool.false_eq_true, if_false, ok_bind,
    Except.ok.injEq]
  refine BuddyState.ext (by simp only [incNrFree, linked, setArea_pages]) ?_
  funext z' k'
  unfold incNrFree linked
  simp only [setArea_areas, setBlockMetadata_areas, and_self, if_true]
  split
  · rw [h.count, add32_eq (by unfold maxPages at hlen; omega)]
  · rfl

theorem freeBlocks_linked (s : BuddyState) (i k : ℕ) (z : Zone) :
    freeBlocks (linked s i k z) = insert (i, k) (freeBlocks s) := by
  ext ⟨a, b⟩
  simp only [mem_freeBlocks, linked, setArea_areas, setBlockMetadata_areas, Set.mem_insert_iff,
    Prod.mk.injEq]
  constructor
  · rintro ⟨z', ha⟩
    split at ha
    next hzk =>
      obtain ⟨rfl, rfl⟩ := hzk
      rcases List.mem_cons.mp ha with rfl | ha'
      · exact Or.inl ⟨rfl, rfl⟩
      · exact Or.inr ⟨z', ha'⟩
    next => exact Or.inr ⟨z', ha⟩
  · rintro (⟨rfl, rfl⟩ | ⟨z', ha⟩)
    · exact ⟨z, by simp⟩
    · refine ⟨z', ?_⟩
      split
      next hzk =>
        obtain ⟨rfl, rfl⟩ := hzk
        exact List.mem_cons_of_mem _ ha
      next => exact ha

/-- Linking moves the block from the hand into the free set. -/
theorem FreeInv.linked (h : FreeInv s F H) {i k : ℕ} {z : Zone} (hal : Aligned i k)
    (hk : k ≤ maxOrder) (hi : i < maxPages) (hz : zoneOfPage i = z)
    (hdis : Disjoint (block i k) F) :
    FreeInv (linked s i k z) (F ∪ block i k) (H \ block i k) where
  zoneFlag j hj := by
    simp only [Memory.linked, setArea_pages]
    rw [pageGetZone_setBlockMetadata s (by decide)]
    exact h.zoneFlag j hj
  count z' k' := by
    simp only [Memory.linked, setArea_areas, setBlockMetadata_areas]
    split
    · rfl
    · exact h.count z' k'
  nodup z' k' := by
    simp only [Memory.linked, setArea_areas, setBlockMetadata_areas]
    split
    · -- The list that gains the block; the others are as they were.
      exact List.nodup_cons.mpr ⟨fun hmem => h.notMem_freeBlocks hdis k ⟨z, hmem⟩, h.nodup z k⟩
    · exact h.nodup z' k'
  zone {z' k' j} hj := by
    simp only [Memory.linked, setArea_areas, setBlockMetadata_areas] at hj
    split at hj
    next hzk =>
      rw [hzk.1]
      rcases List.mem_cons.mp hj with rfl | hj'
      · exact hz
      · exact h.zone hj'
    next => exact h.zone hj
  tiling := by
    rw [freeBlocks_linked]
    exact h.tiling.insert hal hk hdis
  head {a b} hb := by
    simp only [Memory.linked, setArea_pages]
    rw [freeBlocks_linked] at hb
    rcases hb with heq | hb
    · obtain ⟨rfl, rfl⟩ := Prod.mk.inj heq
      exact ⟨pageGetState_setBlockMetadata s (by decide) (self_mem_block a b),
        by rw [setBlockMetadata_head]⟩
    · -- an old head page is outside the new block, so its metadata is untouched
      have hnot : a ∉ block i k := fun hmem =>
        Set.disjoint_left.mp hdis hmem ((h.tiling.cover a).mpr ⟨a, b, hb, self_mem_block a b⟩)
      rw [setBlockMetadata_pages_of_notMem s hnot]
      exact h.head hb
  tail {a b j} hb hj hne := by
    simp only [Memory.linked, setArea_pages]
    rw [freeBlocks_linked] at hb
    rcases hb with heq | hb
    · obtain ⟨rfl, rfl⟩ := Prod.mk.inj heq
      exact ⟨pageGetState_setBlockMetadata s (by decide) hj,
        by rw [setBlockMetadata_tail s hj hne]⟩
    · -- The same for the tail pages of an old block.
      have hnot : j ∉ block i k := fun hmem =>
        Set.disjoint_left.mp hdis hmem ((h.tiling.cover j).mpr ⟨a, b, hb, hj⟩)
      rw [setBlockMetadata_pages_of_notMem s hnot]
      exact h.tail hb hj hne
  inTable j hj := by
    rcases hj with hj | hj
    · exact h.inTable j hj
    · exact lt_maxPages_of_mem hal hk hi hj
  notFree j hlt hj hjH := by
    simp only [Set.mem_union, not_or] at hj
    simp only [Memory.linked, setArea_pages]
    rw [setBlockMetadata_pages_of_notMem s hj.2]
    exact h.notFree j hlt hj.1 (fun hjH' => hjH ⟨hjH', hj.2⟩)

/-- Marking the block in hand as allocated empties the hand. -/
theorem FreeInv.allocated {i k : ℕ} (h : FreeInv s F (block i k))
    (hdis : Disjoint (block i k) F) :
    FreeInv (setBlockMetadata i k pageStateAllocated s) F ∅ := by
  have hout : ∀ {j}, j ∈ F → (setBlockMetadata i k pageStateAllocated s).pages j = s.pages j :=
    fun hj => setBlockMetadata_pages_of_notMem s (Set.disjoint_right.mp hdis hj)
  refine { h with
    zoneFlag := fun j hj => ?_
    head := fun {a b} hb => ?_
    tail := fun {a b j} hb hj hne => ?_
    notFree := fun j hlt hj _ => ?_ }
  · rw [pageGetZone_setBlockMetadata s (by decide)]
    exact h.zoneFlag j hj
  · rw [hout ((h.tiling.cover a).mpr ⟨a, b, hb, self_mem_block a b⟩)]
    exact h.head hb
  · rw [hout ((h.tiling.cover j).mpr ⟨a, b, hb, hj⟩)]
    exact h.tail hb hj hne
  · by_cases hjb : j ∈ block i k
    · rw [pageGetState_setBlockMetadata s (by decide) hjb]
      decide
    · rw [setBlockMetadata_pages_of_notMem s hjb]
      exact h.notFree j hlt hj hjb

end Invariant

end Kfs.Memory
