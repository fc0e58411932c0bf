import Kfs.Memory.BuddyInvariant

/-!
# What `buddy_alloc_pages` and `buddy_free_block` do

The loops of the two operations move blocks between the free set and the hand of
`Kfs.Memory.FreeInv`. The results are `buddyAllocPages_spec` and `buddyFreeBlock_spec`, and
`buddyInit_spec` for the construction of the lists at boot.
-/

namespace Kfs.Memory

open Kfs.Lib.Word32 Kfs.Lib.Dyadic

section Allocation

variable {s : BuddyState} {F : Set ℕ}

/-! ## Splitting -/

/-- Splitting a block of order `c` in hand down to order `k` puts one block of each order
`k ≤ j < c` at the front of its list, namely the upper half at that level. -/
theorem splitBlockToOrder_spec {k : ℕ} (hk : k ≤ maxOrder) {p : ℕ} (hp : p < maxPages) {z : Zone}
    (hz : zoneOfPage p = z) :
    ∀ {c : ℕ} {s : BuddyState} {F : Set ℕ}, k ≤ c → c ≤ maxOrder → FreeInv s F (block p c) →
      Aligned p c → Disjoint (block p c) F →
      ∃ s', splitBlockToOrder k c (pageToPhys p) z s = .ok (pageToPhys p, s') ∧
        FreeInv s' (F ∪ (block p c \ block p k)) (block p k) ∧
        (∀ j ∉ block p c, s'.pages j = s.pages j) ∧
        (∀ z' j, s'.areas z' j =
          if z' = z ∧ k ≤ j ∧ j < c then
            { freeList := (p + 2 ^ j) :: (s.areas z j).freeList
              nrFree := (s.areas z j).freeList.length + 1 }
          else s.areas z' j) := by
  intro c
  induction c with
  | zero =>
    intro s F hkc _ hinv _ _
    obtain rfl : k = 0 := Nat.le_zero.mp hkc
    refine ⟨s, by simp [splitBlockToOrder, orderIsValid], ?_, fun _ _ => rfl, fun z' j => ?_⟩
    · simpa using hinv
    · rw [if_neg (by omega)]
  | succ c ih =>
    intro s F hkc hc hinv hal hdis
    have hvalid : (!orderIsValid k || !orderIsValid (c + 1)) = false := by
      simp [orderIsValid, hk, hc]
    by_cases heq : k = c + 1
    · subst heq
      refine ⟨s, by simp [splitBlockToOrder, orderIsValid, hc], ?_, fun _ _ => rfl,
        fun z' j => ?_⟩
      · simpa using hinv
      · rw [if_neg (by omega)]
    · have hlow : Aligned p c := hal.mono (Nat.le_succ c)
      have hsub : block (p + 2 ^ c) c ⊆ block p (c + 1) := by
        rw [block_succ]
        exact Set.subset_union_right
      have hmem : p + 2 ^ c ∈ block p (c + 1) := hsub (self_mem_block _ _)
      have hdis' : Disjoint (block (p + 2 ^ c) c) F := hdis.mono_left hsub
      -- the upper half is linked and leaves the hand
      have hlink := hinv.linked hlow.add_two_pow (Nat.le_of_succ_le hc)
        (lt_maxPages_of_mem hal hc hp hmem) ((zoneOfPage_eq_of_mem hal hc hmem).trans hz) hdis'
      have hhand : block p (c + 1) \ block (p + 2 ^ c) c = block p c := by
        ext j
        simp only [Set.mem_sdiff, mem_block, pow_succ]
        omega
      rw [hhand] at hlink
      have hdis'' : Disjoint (block p c) (F ∪ block (p + 2 ^ c) c) := by
        rw [Set.disjoint_union_right]
        refine ⟨hdis.mono_left (by rw [block_succ]; exact Set.subset_union_left), ?_⟩
        rw [Set.disjoint_left]
        intro j hj hj'
        simp only [mem_block] at hj hj'
        omega
      obtain ⟨s', hrun, hinv', hpages, hareas⟩ :=
        ih (by omega) (Nat.le_of_succ_le hc) hlink hlow hdis''
      refine ⟨s', ?_, ?_, ?_, ?_⟩
      · have hhead : pageAddrToPage (pageToPhys p) + pageByOrder c = p + 2 ^ c := by
          rw [pageAddrToPage_pageToPhys hp]
          rfl
        simp only [splitBlockToOrder, hvalid, Bool.false_eq_true, if_false, Ne.symm heq, hhead,
          hinv.linkFreeBlock_eq z hdis', ok_bind]
        exact hrun
      · have hset : F ∪ block (p + 2 ^ c) c ∪ (block p c \ block p k) =
            F ∪ (block p (c + 1) \ block p k) := by
          have hpow : 2 ^ k ≤ 2 ^ c := Nat.pow_le_pow_right (by norm_num) (by omega)
          ext j
          by_cases hj : j ∈ F
          · simp [hj]
          · simp only [Set.mem_union, hj, false_or, Set.mem_sdiff, mem_block, pow_succ]
            omega
        rwa [hset] at hinv'
      · intro j hj
        have hj1 : j ∉ block p c := fun h => hj (by rw [block_succ]; exact Or.inl h)
        have hj2 : j ∉ block (p + 2 ^ c) c := fun h => hj (hsub h)
        rw [hpages j hj1]
        simp only [linked, setArea_pages]
        exact setBlockMetadata_pages_of_notMem s hj2
      · intro z' j
        rw [hareas]
        simp only [linked, setArea_areas, setBlockMetadata_areas]
        by_cases hz' : z' = z
        · subst hz'
          by_cases hj : j = c
          · subst hj
            simp only [true_and, lt_irrefl, and_false, if_false, and_self, if_true]
            rw [if_pos ⟨by omega, Nat.lt_succ_self j⟩]
          · simp only [true_and, hj, if_false]
            by_cases hj' : k ≤ j ∧ j < c
            · rw [if_pos hj', if_pos (by omega)]
            · rw [if_neg hj', if_neg (by omega)]
        · simp [hz']

/-! ## The search for a non-empty list -/

theorem seekOrder_spec (z : Zone) (s : BuddyState) :
    ∀ {n cur : ℕ}, cur + n = badOrder →
      (seekOrder z s n cur = badOrder ∧ ∀ j, cur ≤ j → j ≤ maxOrder → (s.areas z j).nrFree = 0) ∨
      (∃ c, seekOrder z s n cur = c ∧ cur ≤ c ∧ c ≤ maxOrder ∧ (s.areas z c).nrFree ≠ 0 ∧
        ∀ j, cur ≤ j → j < c → (s.areas z j).nrFree = 0) := by
  intro n
  induction n with
  | zero =>
    intro cur hcur
    left
    exact ⟨hcur, fun j h1 h2 => by unfold maxOrder badOrder at *; omega⟩
  | succ n ih =>
    intro cur hcur
    have hne : cur ≠ badOrder := by omega
    by_cases hz : orderToNrFree cur z s = 0
    · have hstep : seekOrder z s (n + 1) cur = seekOrder z s n (cur + 1) := by
        simp [seekOrder, hne, hz]
      rw [hstep]
      rcases ih (by omega : cur + 1 + n = badOrder) with ⟨hbad, hall⟩ | ⟨c, hc, hle, hmax, hnz, hall⟩
      · refine Or.inl ⟨hbad, fun j h1 h2 => ?_⟩
        rcases Nat.lt_or_ge cur j with hlt | hge
        · exact hall j hlt h2
        · obtain rfl : j = cur := by omega
          exact hz
      · refine Or.inr ⟨c, hc, by omega, hmax, hnz, fun j h1 h2 => ?_⟩
        rcases Nat.lt_or_ge cur j with hlt | hge
        · exact hall j hlt h2
        · obtain rfl : j = cur := by omega
          exact hz
    · right
      refine ⟨cur, by simp [seekOrder, hz], le_rfl, ?_, hz, fun j h1 h2 => by omega⟩
      unfold maxOrder badOrder at *
      omega

theorem sizeToOrder_le (size : ℕ) : sizeToOrder size ≤ badOrder := by
  unfold sizeToOrder
  simp only
  cases hfind : (List.range badOrder).find? fun order =>
      decide (divRoundUp32 size pageSize ≤ pageByOrder order) with
  | none => simp
  | some k => exact (List.mem_range.mp (List.mem_of_find?_eq_some hfind)).le

/-- The order of a size is the least one that has enough pages. -/
theorem sizeToOrder_spec (size : ℕ) (hk : sizeToOrder size ≤ maxOrder) :
    divRoundUp32 size pageSize ≤ 2 ^ sizeToOrder size ∧
      ∀ j < sizeToOrder size, 2 ^ j < divRoundUp32 size pageSize := by
  unfold sizeToOrder at hk ⊢
  simp only at hk ⊢
  cases hfind : (List.range badOrder).find? fun order =>
      decide (divRoundUp32 size pageSize ≤ pageByOrder order) with
  | none =>
    simp only [hfind, Option.getD_none] at hk
    exact absurd hk (by decide)
  | some k =>
    simp only [Option.getD_some]
    constructor
    · have hle := List.find?_some hfind
      rw [decide_eq_true_eq] at hle
      exact hle
    · -- the search has passed every smaller order
      intro j hj
      rw [List.find?_range_eq_some] at hfind
      have hnot := hfind.2.2 j hj
      rw [Bool.not_eq_true', decide_eq_false_iff_not, not_le] at hnot
      exact hnot

/-- Without a wrap the order of a size is the least one whose blocks are large enough. -/
theorem sizeToOrder_bytes {size : ℕ} (hsize : size + (pageSize - 1) < 2 ^ 32)
    (hk : sizeToOrder size ≤ maxOrder) : size ≤ orderToBytes (sizeToOrder size) ∧
      ∀ j < sizeToOrder size, orderToBytes j < size := by
  obtain ⟨hle, hleast⟩ := sizeToOrder_spec size hk
  rw [divRoundUp32_eq hsize] at hle hleast
  unfold orderToBytes pageByOrder pageSize at *
  refine ⟨by omega, fun j hj => ?_⟩
  have hlt := hleast j hj
  omega

/-! ## Allocation -/

/-- What a successful allocation of order `k` at page `p` has done: the block popped from the
first non-empty list `c` was split, the lowest part is allocated, the rest is free again. -/
structure Allocated (s s' : BuddyState) (F : Set ℕ) (z : Zone) (k p c : ℕ) : Prop where
  order_le : k ≤ maxOrder
  found : k ≤ c ∧ c ≤ maxOrder
  smaller_empty : ∀ j, k ≤ j → j < c → (s.areas z j).freeList = []
  first : ∃ rest, (s.areas z c).freeList = p :: rest
  ne_zero : p ≠ 0
  aligned : Aligned p k
  popped_subset : block p c ⊆ F
  subset : block p k ⊆ F
  zone : zoneOfPage p = z
  inv : FreeInv s' (F \ block p k) ∅
  frame : ∀ j ∉ block p c, s'.pages j = s.pages j
  headPage : pageGetState (s'.pages p) = pageStateAllocated ∧ (s'.pages p).privateData = k
  tailPages : ∀ j ∈ block p k, j ≠ p →
    pageGetState (s'.pages j) = pageStateAllocated ∧ (s'.pages j).privateData = pageMagic
  areas : ∀ z' j, s'.areas z' j =
    if z' = z ∧ j = c then
      { freeList := (s.areas z c).freeList.tail, nrFree := (s.areas z c).freeList.length - 1 }
    else if z' = z ∧ k ≤ j ∧ j < c then { freeList := [p + 2 ^ j], nrFree := 1 }
    else s.areas z' j

/-- **`buddy_alloc_pages`** returns `NULL` and changes nothing when no list of a sufficient order
has a block, and allocates the lowest part of the first block of the first such list otherwise;
a first block at address 0 reads as `NULL` and ends in the panic. -/
theorem buddyAllocPages_cases (hinv : FreeInv s F ∅) (size : ℕ) (z : Zone) :
    (buddyAllocPages size z s = .ok (0, s) ∧
      ∀ j, sizeToOrder size ≤ j → j ≤ maxOrder → (s.areas z j).freeList = []) ∨
    (∃ p c s', buddyAllocPages size z s = .ok (pageToPhys p, s') ∧
      Allocated s s' F z (sizeToOrder size) p c) ∨
    (0 ∈ F ∧ ∃ e, buddyAllocPages size z s = .error e) := by
  have hempty : ∀ {j}, (s.areas z j).nrFree = 0 → (s.areas z j).freeList = [] := fun hj =>
    List.length_eq_zero_iff.mp ((hinv.count z _).symm.trans hj)
  generalize hk : sizeToOrder size = k
  have hk11 : k ≤ badOrder := hk ▸ sizeToOrder_le size
  by_cases hvalid : k ≤ maxOrder
  · rcases seekOrder_spec z s (show k + (badOrder - k) = badOrder by omega) with
      ⟨hbad, hall⟩ | ⟨c, hc, hkc, hcmax, hnz, hsmall⟩
    · left
      refine ⟨?_, fun j h1 h2 => hempty (hall j h1 h2)⟩
      simp [buddyAllocPages, hk, orderIsValid, hvalid, hbad, pure, Except.pure]
    · right
      obtain ⟨p, rest, hlist⟩ : ∃ p rest, (s.areas z c).freeList = p :: rest := by
        cases hl : (s.areas z c).freeList with
        | nil => exact absurd ((hinv.count z c).trans (by rw [hl]; rfl)) hnz
        | cons p rest => exact ⟨p, rest, rfl⟩
      have hpmem : p ∈ (s.areas z c).freeList := by rw [hlist]; exact List.mem_cons_self
      have hb : (p, c) ∈ freeBlocks s := ⟨z, hpmem⟩
      have hal : Aligned p c := hinv.tiling.aligned hb
      have hp : p < maxPages := hinv.lt_maxPages hb
      have hsub : block p c ⊆ F := fun j hj => (hinv.tiling.cover j).mpr ⟨p, c, hb, hj⟩
      have hpk : block p k ⊆ block p c := by
        have hpow : 2 ^ k ≤ 2 ^ c := Nat.pow_le_pow_right (by norm_num) hkc
        intro j hj
        simp only [mem_block] at hj ⊢
        omega
      -- pop the first block
      obtain ⟨s₁, hpop, hdec⟩ := hinv.popNode_eq hpmem
      have hcbad : c ≠ badOrder := by unfold maxOrder at hcmax; unfold badOrder; omega
      by_cases hp0 : p = 0
      · subst hp0
        refine Or.inr ⟨hsub (self_mem_block 0 c),
          .kpanic "nr_free mismatch in alloc_pages for order %u", ?_⟩
        have hphys : pageToPhys 0 = 0 := pageToPhys_eq (by decide)
        simp only [buddyAllocPages, hk, orderIsValid, hvalid, decide_true, Bool.not_true,
          Bool.false_eq_true, if_false, hc, hcbad, popFirstBlock, hlist, hpop, hdec, hphys,
          if_true, pure, Except.pure, bind, Except.bind, throw, throwThe, MonadExceptOf.throw]
      have hinv₁ := hinv.unlinked hpmem
      rw [Set.empty_union] at hinv₁
      have hdis : Disjoint (block p c) (F \ block p c) := Set.disjoint_sdiff_right
      -- split it
      obtain ⟨s₂, hsplit, hinv₂, hpages₂, hareas₂⟩ :=
        splitBlockToOrder_spec hvalid hp (hinv.zone hpmem) hkc hcmax hinv₁ hal hdis
      have hF : F \ block p c ∪ (block p c \ block p k) = F \ block p k := by
        ext j
        have h1 := @hsub j
        have h2 := @hpk j
        simp only [Set.mem_union, Set.mem_sdiff]
        tauto
      rw [hF] at hinv₂
      refine Or.inl ⟨p, c, setBlockMetadata p k pageStateAllocated s₂, ?_, ?_⟩
      · have hphys : pageToPhys p ≠ 0 := by
          rw [pageToPhys_eq hp]
          omega
        simp only [buddyAllocPages, hk, orderIsValid, hvalid, decide_true, Bool.not_true,
          Bool.false_eq_true, if_false, hc, hcbad, popFirstBlock, hlist, hpop, hdec, hphys,
          hsplit, pageAddrToPage_pageToPhys hp, pure, Except.pure, bind, Except.bind]
      · have hdisk : Disjoint (block p k) (F \ block p k) := Set.disjoint_sdiff_right
        exact {
          order_le := hvalid
          found := ⟨hkc, hcmax⟩
          smaller_empty := fun j h1 h2 => hempty (hsmall j h1 h2)
          first := ⟨rest, hlist⟩
          ne_zero := hp0
          aligned := hal.mono hkc
          popped_subset := hsub
          subset := hpk.trans hsub
          zone := hinv.zone hpmem
          inv := hinv₂.allocated hdisk
          frame := fun j hj => by
            rw [setBlockMetadata_pages_of_notMem s₂ (fun h => hj (hpk h)), hpages₂ j hj]
            rfl
          headPage := ⟨pageGetState_setBlockMetadata s₂ (by decide) (self_mem_block p k),
            by rw [setBlockMetadata_head]⟩
          tailPages := fun j hj hne => ⟨pageGetState_setBlockMetadata s₂ (by decide) hj,
            by rw [setBlockMetadata_tail s₂ hj hne]⟩
          areas := fun z' j => by
            rw [setBlockMetadata_areas, hareas₂]
            simp only [unlinked, setArea_areas]
            by_cases hz' : z' = z
            · subst hz'
              by_cases hj : j = c
              · subst hj
                simp [hlist]
              · simp only [true_and, hj, if_false]
                by_cases hjk : k ≤ j ∧ j < c
                · simp [hjk, hempty (hsmall j hjk.1 hjk.2)]
                · simp [hjk]
            · simp [hz'] }
  · left
    refine ⟨?_, fun j h1 h2 => by omega⟩
    simp [buddyAllocPages, hk, orderIsValid, hvalid, pure, Except.pure]

/-- With page 0 outside the free set only the first two cases remain. -/
theorem buddyAllocPages_spec (hinv : FreeInv s F ∅) (h0 : 0 ∉ F) (size : ℕ) (z : Zone) :
    (buddyAllocPages size z s = .ok (0, s) ∧
      ∀ j, sizeToOrder size ≤ j → j ≤ maxOrder → (s.areas z j).freeList = []) ∨
    (∃ p c s', buddyAllocPages size z s = .ok (pageToPhys p, s') ∧
      Allocated s s' F z (sizeToOrder size) p c) := by
  rcases buddyAllocPages_cases hinv size z with hnull | halloc | ⟨hmem, -⟩
  · exact Or.inl hnull
  · exact Or.inr halloc
  · exact absurd hmem h0

end Allocation

section Freeing

variable {s : BuddyState} {F : Set ℕ}

/-! ## The address of the buddy -/

/-- The buddy of a block of the table is in the table. -/
theorem buddy_lt_maxPages {p k : ℕ} (hal : Aligned p k) (hk : k < maxOrder) (hp : p < maxPages) :
    buddy p k < maxPages := by
  refine lt_maxPages_of_mem (aligned_parent hal) hk (lt_of_le_of_lt (min_le_left _ _) hp) ?_
  rw [block_parent hal]
  exact Or.inr (self_mem_block _ _)

/-- Relative to a zone base that is a multiple of the largest block, `WHO_IS_MY_BUDDY` flips one
bit of the page index. -/
theorem pageAddrToPage_whoIsMyBuddy {addr p k b : ℕ} (haddr : addr < 2 ^ 32)
    (hp : addr / 4096 = p) (hal : Aligned p k) (hk : k < maxOrder) (hb : Aligned b maxOrder)
    (hle : b ≤ p) : pageAddrToPage (whoIsMyBuddy addr k (b * 4096)) = buddy p k := by
  obtain ⟨r, rfl⟩ := Nat.exists_eq_add_of_le hle
  have hr : Aligned r k := by
    have := Nat.dvd_sub hal (hb.mono hk.le)
    rwa [Nat.add_sub_cancel_left] at this
  have hbud : buddy (b + r) k = b + buddy r k := buddy_add_base hb hk hr
  have hlt : buddy (b + r) k < maxPages :=
    buddy_lt_maxPages hal hk (by unfold maxPages; omega)
  -- the page part of the xor
  have hsub : sub32 addr (b * 4096) = addr - b * 4096 := sub32_eq haddr (by omega)
  have hxor : ((addr - b * 4096) ^^^ orderToBytes k) / 4096 = buddy r k := by
    have h := @Nat.xor_div_two_pow (addr - b * 4096) (orderToBytes k) 12
    rw [show (2 : ℕ) ^ 12 = 4096 by norm_num] at h
    rw [h]
    have h1 : (addr - b * 4096) / 4096 = r := by omega
    have h2 : orderToBytes k / 4096 = 2 ^ k := by
      unfold orderToBytes pageByOrder pageSize
      exact Nat.mul_div_cancel _ (by norm_num)
    rw [h1, h2]
    rfl
  unfold whoIsMyBuddy
  unfold maxPages at hlt
  rw [hsub]
  generalize (addr - b * 4096) ^^^ orderToBytes k = x at hxor ⊢
  have hfit : x + b * 4096 < 2 ^ 32 := by omega
  rw [add32_eq hfit, pageAddrToPage_eq hfit]
  omega

/-- `get_buddy_base` of the zone of a page, in pages. -/
theorem getBuddyBase_zoneOfPage (p : ℕ) :
    ∃ b, getBuddyBase (some (zoneOfPage p)) = .ok (b * 4096) ∧ Aligned b maxOrder ∧ b ≤ p := by
  unfold zoneOfPage
  split
  next h => exact ⟨229376, rfl, by decide, h⟩
  next =>
    split
    next h => exact ⟨4096, rfl, by decide, h⟩
    next => exact ⟨0, rfl, by decide, Nat.zero_le p⟩

/-- Under the invariant `get_buddy_page` finds the buddy exactly when it is a listed block of the
same order. -/
theorem FreeInv.getBuddyPage_eq {p k : ℕ} (hinv : FreeInv s F (block p k)) (hal : Aligned p k)
    (hk : k < maxOrder) {ptr : ℕ} (hptr : ptr < 2 ^ 32) (hp : ptr / 4096 = p) :
    getBuddyPage ptr k (some (zoneOfPage p)) s =
        .ok (some (buddy p k)) ∧ (buddy p k, k) ∈ freeBlocks s ∨
      getBuddyPage ptr k (some (zoneOfPage p)) s = .ok none ∧
        (buddy p k, k) ∉ freeBlocks s := by
  obtain ⟨b, hbase, hb, hle⟩ := getBuddyBase_zoneOfPage p
  have hpage := pageAddrToPage_whoIsMyBuddy hptr hp hal hk hb hle
  simp only [getBuddyPage, hbase, ok_bind, hpage, pure, Except.pure]
  by_cases hmem : (buddy p k, k) ∈ freeBlocks s
  · left
    obtain ⟨hstate, hdata⟩ := hinv.head hmem
    exact ⟨by simp [pageIsFree, hstate, hdata], hmem⟩
  · right
    refine ⟨?_, hmem⟩
    rw [if_neg]
    simp only [pageIsFree, Bool.and_eq_true, beq_iff_eq, not_and]
    intro hstate hdata
    -- a page that reads FREE is on a list or in hand; with order `k` as data it is a head page
    have hnotH : buddy p k ∉ block p k := fun h =>
      Set.disjoint_right.mp (disjoint_block_buddy hal) (self_mem_block _ k) h
    have hF : buddy p k ∈ F := by
      by_contra hnotF
      exact hinv.notFree _ (buddy_lt_maxPages hal hk (by unfold maxPages; omega)) hnotF hnotH hstate
    obtain ⟨i, k', hb', hj⟩ := (hinv.tiling.cover _).mp hF
    by_cases hhead : buddy p k = i
    · subst hhead
      have hk' : k' = k := ((hinv.head hb').2).symm.trans hdata
      exact hmem (hk' ▸ hb')
    · have hmagic := (hinv.tail hb' hj hhead).2
      rw [hdata] at hmagic
      unfold maxOrder at hk
      unfold pageMagic at hmagic
      omega

/-! ## Merging -/

/-- The merge loop: the block in hand grows by absorbing free buddies and stops at the largest
order or when the buddy is not free. -/
theorem mergeBuddies_spec :
    ∀ {n : ℕ} {s : BuddyState} {F : Set ℕ} {p k ptr : ℕ}, maxOrder ≤ k + n → k ≤ maxOrder →
      FreeInv s F (block p k) → Aligned p k → p < maxPages → Disjoint (block p k) F →
      ptr < 2 ^ 32 → ptr / 4096 = p →
      ∃ ptr' p' k' s', mergeBuddies (some (zoneOfPage p)) n ptr k s = .ok (ptr', k', s') ∧
        ptr' < 2 ^ 32 ∧ ptr' / 4096 = p' ∧ Aligned p' k' ∧ k' ≤ maxOrder ∧ p' < maxPages ∧
        zoneOfPage p' = zoneOfPage p ∧ block p k ⊆ block p' k' ∧ block p' k' ⊆ F ∪ block p k ∧
        FreeInv s' (F \ block p' k') (block p' k') ∧ s'.pages = s.pages ∧
        freeBlocks s' ⊆ freeBlocks s ∧ (k' < maxOrder → (buddy p' k', k') ∉ freeBlocks s') ∧
        (∀ z, z ≠ zoneOfPage p → s'.areas z = s.areas z) := by
  intro n
  induction n with
  | zero =>
    intro s F p k ptr hn hk hinv hal hp hdis hptr hpp
    refine ⟨ptr, p, k, s, rfl, hptr, hpp, hal, hk, hp, rfl, subset_rfl, Set.subset_union_right, ?_,
      rfl, subset_rfl, fun h => by omega, fun _ _ => rfl⟩
    rwa [hdis.symm.sdiff_eq_left]
  | succ n ih =>
    intro s F p k ptr hn hk hinv hal hp hdis hptr hpp
    by_cases hkm : k < maxOrder
    swap
    · refine ⟨ptr, p, k, s, by simp [mergeBuddies, hkm], hptr, hpp, hal, hk, hp, rfl, subset_rfl,
        Set.subset_union_right, ?_, rfl, subset_rfl, fun h => absurd h hkm, fun _ _ => rfl⟩
      rwa [hdis.symm.sdiff_eq_left]
    rcases hinv.getBuddyPage_eq hal hkm hptr hpp with ⟨hget, hmem⟩ | ⟨hget, hmem⟩
    swap
    · refine ⟨ptr, p, k, s, by simp [mergeBuddies, hkm, hget], hptr, hpp, hal, hk, hp, rfl,
        subset_rfl, Set.subset_union_right, ?_, rfl, subset_rfl, fun _ => hmem, fun _ _ => rfl⟩
      rwa [hdis.symm.sdiff_eq_left]
    -- the buddy is free: it joins the block in hand
    have hpar : Aligned (parent p k) (k + 1) := aligned_parent hal
    have hblk : block (parent p k) (k + 1) = block p k ∪ block (buddy p k) k := block_parent hal
    have hlow : block p k ⊆ block (parent p k) (k + 1) := hblk ▸ Set.subset_union_left
    have hup : block (buddy p k) k ⊆ block (parent p k) (k + 1) := hblk ▸ Set.subset_union_right
    have hpmem : p ∈ block (parent p k) (k + 1) := hlow (self_mem_block _ _)
    have hbmem : buddy p k ∈ block (parent p k) (k + 1) := hup (self_mem_block _ _)
    have hzpar : zoneOfPage (parent p k) = zoneOfPage p :=
      (zoneOfPage_eq_of_mem hpar hkm hpmem).symm
    have hzbud : zoneOfPage (buddy p k) = zoneOfPage p :=
      (zoneOfPage_eq_of_mem hpar hkm hbmem).trans hzpar
    have hbound : buddy p k < maxPages := hinv.lt_maxPages hmem
    have hlist : buddy p k ∈ (s.areas (zoneOfPage p) k).freeList := hzbud ▸ hinv.mem_list hmem
    obtain ⟨s₁, hpop, hdec⟩ := hinv.popNode_eq hlist
    have hinv₁ := hinv.unlinked hlist
    rw [← hblk] at hinv₁
    have hbudF : block (buddy p k) k ⊆ F := fun j hj =>
      (hinv.tiling.cover j).mpr ⟨_, _, hmem, hj⟩
    have hdis₁ : Disjoint (block (parent p k) (k + 1)) (F \ block (buddy p k) k) := by
      rw [hblk, Set.disjoint_union_left]
      exact ⟨hdis.mono_right Set.sdiff_subset, Set.disjoint_sdiff_right⟩
    -- `MIN(ptr, page_to_phys(buddy_page))` is an address in the first page of the larger block
    have hphys : pageToPhys (buddy p k) = buddy p k * 4096 := pageToPhys_eq hbound
    have hmin : min ptr (pageToPhys (buddy p k)) / 4096 = parent p k := by
      have hne := buddy_ne_self p k
      rw [hphys]
      unfold parent
      omega
    have hmin32 : min ptr (pageToPhys (buddy p k)) < 2 ^ 32 := by omega
    obtain ⟨ptr', p', k', s', hrun, h1, h2, h3, h4, h5, h6, h7, h8, h9, h10, h11, h12, h13⟩ :=
      ih (by omega) hkm hinv₁ hpar (lt_of_le_of_lt (min_le_left _ _) hp) hdis₁ hmin32 hmin
    refine ⟨ptr', p', k', s', ?_, h1, h2, h3, h4, h5, h6.trans hzpar, ?_, ?_, ?_, h10, ?_, h12, ?_⟩
    · rw [hzpar] at hrun
      simp only [mergeBuddies, hkm, if_true, hget, ok_bind, hpop, hdec]
      exact hrun
    · exact hlow.trans h7
    · intro j hj
      rcases h8 hj with hj' | hj'
      · exact Or.inl hj'.1
      · rw [hblk] at hj'
        exact hj'.elim Or.inr (fun hjb => Or.inl (hbudF hjb))
    · have hF : (F \ block (buddy p k) k) \ block p' k' = F \ block p' k' := by
        rw [Set.sdiff_sdiff, Set.union_eq_right.mpr (hup.trans h7)]
      rwa [hF] at h9
    · rw [hinv.freeBlocks_unlinked hlist] at h11
      exact h11.trans Set.sdiff_subset
    · intro z hz
      rw [h13 z (by rw [hzpar]; exact hz)]
      funext j
      simp [unlinked, setArea_areas, hz]

/-! ## Freeing -/

/-- **`buddy_free_block`** of a block outside the free set: the block joins the free set, no other
page changes, and the block that ends up on a list has no free buddy. -/
theorem buddyFreeBlock_spec (hinv : FreeInv s F ∅) {ptr p k : ℕ} (hptr : ptr < 2 ^ 32)
    (hpp : ptr / 4096 = p) (hal : Aligned p k) (hk : k ≤ maxOrder) (hp : p < maxPages)
    (hdis : Disjoint (block p k) F)
    (hstate : pageGetState (s.pages p) = pageStateAllocated ∨
      pageGetState (s.pages p) = pageStateAvailable)
    (hdata : (s.pages p).privateData = k) :
    ∃ s' p' k', buddyFreeBlock ptr s = .ok s' ∧ FreeInv s' (F ∪ block p k) ∅ ∧
      (∀ j, j ∉ F → j ∉ block p k → s'.pages j = s.pages j) ∧
      freeBlocks s' ⊆ insert (p', k') (freeBlocks s) ∧
      (k' < maxOrder → (buddy p' k', k') ∉ freeBlocks s') ∧
      (∀ z, z ≠ zoneOfPage p → s'.areas z = s.areas z) := by
  have hpage : pageAddrToPage ptr = p := by rw [pageAddrToPage_eq hptr, hpp]
  have hzone : pageZoneFlagsToZoneType (pageGetZone (s.pages p)) = some (zoneOfPage p) := by
    rw [hinv.zoneFlag p hp]
    exact zoneType_pageGetZoneFlag hp
  -- The loop ends at a block that has no free buddy, or at the largest order.
  obtain ⟨ptr', p', k', s₁, hrun, hptr', hpp', hal', hk', hp', hz', hsub, hsup, hinv₁, hpages,
      hblocks, hbud, hother⟩ :=
    mergeBuddies_spec (Nat.le_add_left maxOrder k) hk (hinv.weaken (Set.empty_subset _)) hal hp hdis
      hptr hpp
  have hdis' : Disjoint (block p' k') (F \ block p' k') := Set.disjoint_sdiff_right
  have hlink := hinv₁.linked hal' hk' hp' hz' hdis'
  rw [Set.sdiff_self] at hlink
  -- What it has taken from the lists is part of that block.
  have hF : F \ block p' k' ∪ block p' k' = F ∪ block p k := by
    ext j
    have h1 := @hsub j
    have h2 := @hsup j
    simp only [Set.mem_union, Set.mem_sdiff] at h2 ⊢
    tauto
  rw [hF] at hlink
  have hpage' : pageAddrToPage ptr' = p' := by rw [pageAddrToPage_eq hptr', hpp']
  refine ⟨linked s₁ p' k' (zoneOfPage p), p', k', ?_, hlink, ?_, ?_, ?_, ?_⟩
  · -- None of the tests of the head page fails.
    have h1 : pageGetState (s.pages p) ≠ pageStateFree := by
      rcases hstate with h | h <;> rw [h] <;> decide
    have h2 : ¬ (pageGetState (s.pages p) ≠ pageStateAllocated ∧
        pageGetState (s.pages p) ≠ pageStateAvailable) := by tauto
    have h3 : orderIsValid k = true := by simp [orderIsValid, hk]
    simp only [buddyFreeBlock, hpage, h1, h2, hdata, h3, hzone, hrun, if_false, Bool.not_true,
      Bool.false_eq_true, bind, Except.bind, hpage',
      hinv₁.linkFreeBlock_eq _ hdis']
  · intro j hjF hjp
    have hj : j ∉ block p' k' := fun h => (hsup h).elim hjF hjp
    simp only [linked, setArea_pages]
    rw [setBlockMetadata_pages_of_notMem s₁ hj, hpages]
  · rw [freeBlocks_linked]
    exact Set.insert_subset_insert hblocks
  · intro hlt
    rw [freeBlocks_linked]
    rintro (heq | hmem)
    · exact buddy_ne_self p' k' (Prod.mk.inj heq).1
    · exact hbud hlt hmem
  · intro z hz
    rw [← hother z hz]
    funext j
    simp [linked, setArea_areas, hz]

end Freeing

section Coalescing

variable {s s' : BuddyState} {F : Set ℕ}

/-! ## Coalescing -/

/-- A new block whose buddy is not listed keeps the lists buddy-free. -/
theorem noBuddies_of_subset_insert {p k : ℕ} (hN : NoBuddies maxOrder (freeBlocks s))
    (hsub : freeBlocks s' ⊆ insert (p, k) (freeBlocks s))
    (hbud : k < maxOrder → (buddy p k, k) ∉ freeBlocks s') :
    NoBuddies maxOrder (freeBlocks s') := by
  intro i j hi hj hmem
  rcases hsub hi with heq | hold
  · obtain ⟨rfl, rfl⟩ := Prod.mk.inj heq
    exact hbud hj hmem
  · rcases hsub hmem with heq | hold'
    · -- the new block is the buddy of an old one, which then is the buddy of the new one
      obtain ⟨rfl, rfl⟩ := Prod.mk.inj heq
      apply hbud hj
      rw [buddy_buddy]
      exact hi
    · exact hN hold hj hold'

/-- The blocks an allocation splits off are `p + 2 ^ j`, buddies of `p`, which is no longer
free. -/
theorem Allocated.noBuddies {z : Zone} {k p c : ℕ} (ha : Allocated s s' F z k p c)
    (hinv : FreeInv s F ∅) (hN : NoBuddies maxOrder (freeBlocks s)) :
    NoBuddies maxOrder (freeBlocks s') := by
  obtain ⟨rest, hlist⟩ := ha.first
  have hal : Aligned p c := hinv.tiling.aligned ⟨z, by rw [hlist]; exact List.mem_cons_self⟩
  have hcases : ∀ {i j}, (i, j) ∈ freeBlocks s' →
      (i, j) ∈ freeBlocks s ∨ (i = p + 2 ^ j ∧ j < c) := by
    rintro i j ⟨z', hi⟩
    rw [ha.areas] at hi
    split at hi
    next hzj =>
      obtain ⟨rfl, rfl⟩ := hzj
      exact Or.inl ⟨z', List.mem_of_mem_tail hi⟩
    next =>
      split at hi
      next hzj => exact Or.inr ⟨List.mem_singleton.mp hi, hzj.2.2⟩
      next => exact Or.inl ⟨z', hi⟩
  have hp : ∀ j, (p, j) ∉ freeBlocks s' := fun j hb =>
    ((ha.inv.tiling.cover p).mpr ⟨p, j, hb, self_mem_block p j⟩).2 (self_mem_block p k)
  intro i j hi hj hmem
  rcases hcases hi with hold | ⟨rfl, hjc⟩
  · rcases hcases hmem with hold' | ⟨heq, hjc⟩
    · exact hN hold hj hold'
    · apply hp j
      have hsucc : Aligned p (j + 1) := hal.mono hjc
      rw [← buddy_add_two_pow hsucc, ← heq, buddy_buddy]
      exact hi
  · rw [buddy_add_two_pow (hal.mono hjc)] at hmem
    exact hp j hmem

end Coalescing

section Counting

variable {s s' : BuddyState} {F : Set ℕ}

/-! ## Counting free pages -/

/-- The number of free pages of a zone, as the counters give it. -/
def zoneFreePages (zone : Zone) (s : BuddyState) : ℕ :=
  ∑ order ∈ Finset.range badOrder, orderToNrFree order zone s * pageByOrder order

theorem FreeInv.zoneFreePages_eq_zero_iff (h : FreeInv s F ∅) (z : Zone) :
    zoneFreePages z s = 0 ↔ ∀ j ≤ maxOrder, (s.areas z j).freeList = [] := by
  unfold zoneFreePages
  rw [Finset.sum_eq_zero_iff]
  constructor
  · intro hz j hj
    have h0 := hz j (Finset.mem_range.mpr (Nat.lt_succ_of_le hj))
    have hpow : pageByOrder j ≠ 0 := (Nat.two_pow_pos j).ne'
    rw [Nat.mul_eq_zero, or_iff_left hpow] at h0
    exact List.length_eq_zero_iff.mp ((h.count z j).symm.trans h0)
  · intro hz j hj
    have hempty := hz j (Nat.le_of_lt_succ (Finset.mem_range.mp hj))
    unfold orderToNrFree
    rw [h.count z j, hempty]
    exact Nat.zero_mul _

/-- A block of order 0 leaves one free page less: the split-off blocks are worth the block that
was split but for the page handed out. -/
theorem Allocated.zoneFreePages {z : Zone} {p c : ℕ} (ha : Allocated s s' F z 0 p c)
    (h : FreeInv s F ∅) : zoneFreePages z s' + 1 = zoneFreePages z s := by
  have hpart : ∀ n, ∑ j ∈ Finset.range n, orderToNrFree j z s' * pageByOrder j + 1 =
      ∑ j ∈ Finset.range n, orderToNrFree j z s * pageByOrder j + (if n ≤ c then 2 ^ n else 0) := by
    intro n
    -- below order `c` the new lists are worth `2 ^ n - 1`; at `c` one block is gone
    induction n with
    | zero => simp
    | succ n ih =>
      rw [Finset.sum_range_succ, Finset.sum_range_succ]
      unfold orderToNrFree pageByOrder at ih ⊢
      rw [ha.areas z n]
      rcases Nat.lt_trichotomy n c with hlt | rfl | hgt
      · have h0 : (s.areas z n).nrFree = 0 := by
          rw [h.count, ha.smaller_empty n (Nat.zero_le n) hlt]
          rfl
        rw [if_pos hlt.le] at ih
        rw [if_neg (by omega), if_pos ⟨rfl, Nat.zero_le n, hlt⟩, if_pos (Nat.succ_le_of_lt hlt), h0, pow_succ]
        simp only [one_mul, zero_mul, add_zero]
        omega
      · obtain ⟨rest, hlist⟩ := ha.first
        rw [if_pos le_rfl] at ih
        rw [if_pos ⟨rfl, rfl⟩, if_neg (by omega), h.count, hlist]
        simp only [List.length_cons, Nat.add_sub_cancel, Nat.succ_mul, add_zero]
        omega
      · rw [if_neg (by omega)] at ih
        rw [if_neg (by omega), if_neg (by omega), if_neg (by omega)]
        omega
  have hall := hpart badOrder
  have hc := ha.found.2
  rw [if_neg (by unfold maxOrder at hc; unfold badOrder; omega)] at hall
  exact hall

end Counting

section Init

variable {s : BuddyState}

/-! ## Initialisation -/

/-- The pages that `buddy_init` finds available. -/
def availablePages (totalPages : ℕ) (pages : ℕ → Page) : Set ℕ :=
  { j | j < totalPages ∧ pageGetState (pages j) = pageStateAvailable }

/-- What `buddy_init` is given: every page carries the zone flag of its address and none is
in the state `FREE`, which only the buddy allocator sets. -/
structure TableInit (pages : ℕ → Page) : Prop where
  zoneFlag : ∀ i < maxPages, pageGetZone (pages i) = pageGetZoneFlag (pageToPhys i)
  notFree : ∀ i < maxPages, pageGetState (pages i) ≠ pageStateFree

theorem freeBlocks_emptyAreas (pages : ℕ → Page) :
    freeBlocks { pages := pages, areas := emptyAreas } = ∅ := by
  ext b
  simp [freeBlocks, emptyAreas]

theorem TableInit.freeInv {pages : ℕ → Page} (h : TableInit pages) :
    FreeInv { pages := pages, areas := emptyAreas } ∅ ∅ where
  zoneFlag := h.zoneFlag
  count _ _ := rfl
  nodup _ _ := List.nodup_nil
  zone hi := (nomatch hi)
  tiling := by
    rw [freeBlocks_emptyAreas]
    exact IsTiling.empty maxOrder
  head hb := by
    rw [freeBlocks_emptyAreas] at hb
    exact hb.elim
  tail hb := by
    rw [freeBlocks_emptyAreas] at hb
    exact hb.elim
  inTable j hj := hj.elim
  notFree j hj _ _ := h.notFree j hj

/-- One available page joins the free set as a block of order 0, merged as far as it goes. -/
theorem buddyInitPage_spec {F : Set ℕ} {i : ℕ} (hinv : FreeInv s F ∅)
    (hN : NoBuddies maxOrder (freeBlocks s)) (hi : i < maxPages) (hiF : i ∉ F)
    (hav : pageGetState (s.pages i) = pageStateAvailable) :
    ∃ s', buddyInitPage s i = .ok s' ∧ FreeInv s' (insert i F) ∅ ∧
      NoBuddies maxOrder (freeBlocks s') ∧ ∀ j ∉ insert i F, s'.pages j = s.pages j := by
  generalize hpg : Function.update s.pages i { s.pages i with privateData := 0 } = pages
  have hother : ∀ {j}, j ≠ i → pages j = s.pages j := fun hj => by
    rw [← hpg, Function.update_of_ne hj]
  have hself : pages i = { s.pages i with privateData := 0 } := by
    rw [← hpg, Function.update_self]
  have hstate : pageGetState (pages i) = pageStateAvailable := by
    rw [hself]
    exact hav
  have hinv₁ : FreeInv { s with pages := pages } F ∅ := by
    apply hinv.congr_pages
    · exact fun j hj => hother fun hji => hiF (hji ▸ hj)
    · intro j _
      by_cases hj : j = i
      · rw [hj, hself]
        rfl
      · rw [hother hj]
    · intro j hj hjF hjH
      by_cases hji : j = i
      · rw [hji, hstate]
        decide
      · rw [hother hji]
        exact hinv.notFree j hj hjF hjH
  have hdis : Disjoint (block i 0) F := by
    rw [block_zero, Set.disjoint_singleton_left]
    exact hiF
  have hal : Aligned i 0 := one_dvd i
  obtain ⟨s', p', k', hfree, hinv', hframe, hsub, hbud, -⟩ :=
    buddyFreeBlock_spec hinv₁ (pageToPhys_lt i) (pageToPhys_div hi) hal (Nat.zero_le _) hi hdis
      (Or.inr hstate) (by simp only [hself])
  refine ⟨s', ?_, ?_, noBuddies_of_subset_insert hN hsub hbud, ?_⟩
  · rw [buddyInitPage, if_pos hav, hpg]
    exact hfree
  · rwa [block_zero, Set.union_singleton] at hinv'
  · intro j hj
    rw [Set.mem_insert_iff, not_or] at hj
    rw [hframe j hj.2 (by simpa using hj.1)]
    exact hother hj.1

theorem availablePages_succ (n : ℕ) (pages : ℕ → Page) :
    availablePages (n + 1) pages =
      if pageGetState (pages n) = pageStateAvailable then insert n (availablePages n pages)
      else availablePages n pages := by
  ext j
  split
  next hav =>
    simp only [availablePages, Set.mem_ofPred_eq, Set.mem_insert_iff]
    constructor
    · rintro ⟨hlt, hj⟩
      by_cases hjn : j = n
      · exact Or.inl hjn
      · exact Or.inr ⟨by omega, hj⟩
    · rintro (rfl | ⟨hlt, hj⟩)
      · exact ⟨Nat.lt_succ_self j, hav⟩
      · exact ⟨by omega, hj⟩
  next hav =>
    simp only [availablePages, Set.mem_ofPred_eq]
    constructor
    · rintro ⟨hlt, hj⟩
      have hjn : j ≠ n := fun h => hav (h ▸ hj)
      exact ⟨by omega, hj⟩
    · rintro ⟨hlt, hj⟩
      exact ⟨by omega, hj⟩

/-- `buddy_init` passes over the pages that are not available. -/
theorem buddyInit_skip {k : ℕ} (h : ∀ i < k, pageGetState (s.pages i) ≠ pageStateAvailable) (m : ℕ) :
    buddyInit (k + m) s =
      (List.range' k m).foldlM buddyInitPage { s with areas := emptyAreas } := by
  have hskip : ∀ n ≤ k, (List.range n).foldlM buddyInitPage { s with areas := emptyAreas } =
      .ok { s with areas := emptyAreas } := by
    intro n hn
    induction n with
    | zero => rfl
    | succ n ih =>
      rw [List.range_succ, List.foldlM_append, ih (Nat.le_of_succ_le hn), ok_bind,
        List.foldlM_cons, buddyInitPage, if_neg (h n hn)]
      rfl
  unfold buddyInit
  rw [List.range_add, List.foldlM_append, hskip k le_rfl, ok_bind, ← List.range'_eq_map_range]

/-- **`buddy_init`** stops nowhere and frees exactly the available pages. -/
theorem buddyInit_spec (h : TableInit s.pages) {n : ℕ} (hn : n ≤ maxPages) :
    ∃ s', buddyInit n s = .ok s' ∧ FreeInv s' (availablePages n s.pages) ∅ ∧
      NoBuddies maxOrder (freeBlocks s') ∧
      ∀ j, j ∉ availablePages n s.pages → s'.pages j = s.pages j := by
  unfold buddyInit
  -- the loop has freed the available pages below its counter and touched no other page
  induction n with
  | zero =>
    have hnone : availablePages 0 s.pages = ∅ := by
      ext j
      simp [availablePages]
    rw [hnone]
    refine ⟨_, rfl, h.freeInv, ?_, fun _ _ => rfl⟩
    intro i k hi
    rw [freeBlocks_emptyAreas] at hi
    exact hi.elim
  | succ n ih =>
    obtain ⟨s₁, hrun, hinv, hN, hframe⟩ := ih (Nat.le_of_succ_le hn)
    have hnot : n ∉ availablePages n s.pages := fun hmem => lt_irrefl n hmem.1
    rw [List.range_succ, List.foldlM_append, hrun, ok_bind, List.foldlM_cons, availablePages_succ]
    simp only [List.foldlM_nil, bind_pure]
    by_cases hav : pageGetState (s.pages n) = pageStateAvailable
    · rw [if_pos hav]
      obtain ⟨s₂, hstep, hinv₂, hN₂, hframe₂⟩ :=
        buddyInitPage_spec hinv hN hn hnot (by rw [hframe n hnot]; exact hav)
      refine ⟨s₂, hstep, hinv₂, hN₂, fun j hj => ?_⟩
      rw [hframe₂ j hj]
      exact hframe j fun hmem => hj (Set.mem_insert_of_mem n hmem)
    · rw [if_neg hav]
      refine ⟨s₁, ?_, hinv, hN, hframe⟩
      rw [buddyInitPage, if_neg (by rw [hframe n hnot]; exact hav)]

end Init

end Kfs.Memory
