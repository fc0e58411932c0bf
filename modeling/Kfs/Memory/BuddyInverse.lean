import Kfs.Memory.BuddyRuns

/-!
# Freeing undoes an allocation

`buddy_alloc_pages` splits the first block of the first non-empty list and puts an upper half on each
list below it. `buddy_free_block` on the block in hand takes these halves back one order at a time.
Reachable states are coalesced, so the merge loop stops exactly at the order that was split, and the
block returns to the front of its list.
-/

namespace Kfs.Memory

open Kfs.Lib Kfs.Lib.Word32 Kfs.Lib.Dyadic

section Merge

variable {s t : BuddyState} {F : Set ℕ} {z : Zone} {p c : ℕ}

/-- The lists while a split is undone: the block `p` has left the list of order `c`, and the upper
halves of the orders from `j` on are listed. -/
def splitAreas (s : BuddyState) (z : Zone) (p c j : ℕ) (z' : Zone) (i : ℕ) : FreeArea :=
  if z' = z ∧ i = c then
    { freeList := (s.areas z c).freeList.tail, nrFree := (s.areas z c).freeList.length - 1 }
  else if z' = z ∧ j ≤ i ∧ i < c then { freeList := [p + 2 ^ i], nrFree := 1 }
  else s.areas z' i

/-- Taking back the half of order `j`. -/
theorem unlinked_splitAreas {j : ℕ} (hj : j < c)
    (hempty : s.areas z j = { freeList := [], nrFree := 0 }) (ht : t.areas = splitAreas s z p c j) :
    (unlinked t (p + 2 ^ j) j z).areas = splitAreas s z p c (j + 1) := by
  have hlist : t.areas z j = { freeList := [p + 2 ^ j], nrFree := 1 } := by
    rw [ht, splitAreas, if_neg (by omega), if_pos ⟨rfl, Nat.le_refl j, hj⟩]
  funext z' i
  rw [unlinked, setArea_areas, hlist, ht]
  unfold splitAreas
  by_cases hzi : z' = z ∧ i = j
  · obtain ⟨rfl, rfl⟩ := hzi
    rw [if_pos ⟨rfl, rfl⟩, if_neg (by omega), if_neg (by omega), hempty]
    simp
  · rw [if_neg hzi]
    by_cases hc : z' = z ∧ i = c
    · rw [if_pos hc, if_pos hc]
    · rw [if_neg hc, if_neg hc]
      by_cases hlater : z' = z ∧ j + 1 ≤ i ∧ i < c
      · rw [if_pos ⟨hlater.1, by omega, hlater.2.2⟩, if_pos hlater]
      · have hnot : ¬ (z' = z ∧ j ≤ i ∧ i < c) := by
          rintro ⟨hz, hle, hlt⟩
          have hne : i ≠ j := fun h => hzi ⟨hz, h⟩
          exact hlater ⟨hz, by omega, hlt⟩
        rw [if_neg hlater, if_neg hnot]

/-- At the order that was split no list has gained a block. -/
theorem mem_freeBlocks_of_splitAreas {i j : ℕ} (ht : t.areas = splitAreas s z p c j)
    (hi : (i, c) ∈ freeBlocks t) : (i, c) ∈ freeBlocks s := by
  obtain ⟨z', hmem⟩ := hi
  rw [ht, splitAreas] at hmem
  split at hmem
  · exact ⟨z, List.mem_of_mem_tail hmem⟩
  · rw [if_neg (by omega)] at hmem
    exact ⟨z', hmem⟩

/-- **The merge loop** after a split takes back every half and stops at the order that was split. -/
theorem mergeBuddies_split {ptr k : ℕ} (hal : Aligned p c) (hc : c ≤ maxOrder)
    (hz : zoneOfPage p = z) (hptr : ptr < 2 ^ 32) (hpp : ptr / 4096 = p)
    (hempty : ∀ i, k ≤ i → i < c → s.areas z i = { freeList := [], nrFree := 0 })
    (hbuddy : c < maxOrder → (buddy p c, c) ∉ freeBlocks s) :
    ∀ {d j n : ℕ} {t : BuddyState}, j + d = c → k ≤ j → maxOrder ≤ j + n →
      FreeInv t (F \ block p j) (block p j) → t.areas = splitAreas s z p c j →
      ∃ t', mergeBuddies (some z) n ptr j t = .ok (ptr, c, t') ∧ t'.pages = t.pages ∧
        t'.areas = splitAreas s z p c c ∧ FreeInv t' (F \ block p c) (block p c) := by
  subst hz
  intro d
  induction d with
  | zero =>
    intro j n t hj _ _ hinv ht
    obtain rfl : j = c := hj
    refine ⟨t, ?_, rfl, ht, hinv⟩
    cases n with
    | zero => rfl
    | succ n =>
      by_cases hlt : j < maxOrder
      · -- the buddy is not free: that would have been merged before the allocation
        rcases hinv.getBuddyPage_eq hal hlt hptr hpp with ⟨-, hmem⟩ | ⟨hget, -⟩
        · exact absurd (mem_freeBlocks_of_splitAreas ht hmem) (hbuddy hlt)
        · simp [mergeBuddies, hlt, hget]
      · simp [mergeBuddies, hlt]
  | succ d ih =>
    intro j n t hj hk hn hinv ht
    have hjc : j < c := by omega
    have hjm : j < maxOrder := Nat.lt_of_lt_of_le hjc hc
    have hbud : buddy p j = p + 2 ^ j := buddy_of_aligned_succ (hal.mono hjc)
    have hlist : p + 2 ^ j ∈ (t.areas (zoneOfPage p) j).freeList := by
      rw [ht, splitAreas, if_neg (by omega), if_pos ⟨rfl, Nat.le_refl j, hjc⟩]
      exact List.mem_singleton.mpr rfl
    cases n with
    | zero => omega
    | succ n =>
      rcases hinv.getBuddyPage_eq (hal.mono hjc.le) hjm hptr hpp with ⟨hget, -⟩ | ⟨-, hmem⟩
      swap
      · rw [hbud] at hmem
        exact absurd ⟨_, hlist⟩ hmem
      rw [hbud] at hget
      obtain ⟨t₁, hpop, hdec⟩ := hinv.popNode_eq hlist
      have hinv₁ := hinv.unlinked hlist
      rw [Set.sdiff_sdiff, ← block_succ] at hinv₁
      obtain ⟨t', hrun, hpages, hareas, hinv'⟩ :=
        ih (by omega) (by omega) (by omega : maxOrder ≤ j + 1 + n) hinv₁
          (unlinked_splitAreas hjc (hempty j hk hjc) ht)
      refine ⟨t', ?_, hpages, hareas, hinv'⟩
      -- `MIN` keeps the address, which is in the lower half
      have hmin : min ptr (pageToPhys (p + 2 ^ j)) = ptr := by
        have hpos := Nat.two_pow_pos j
        rw [pageToPhys_eq (hinv.lt_maxPages ⟨_, hlist⟩)]
        omega
      simp only [mergeBuddies, hjm, if_true, hget, ok_bind, hpop, hdec, hmin]
      exact hrun

end Merge

/-! ## The inverse -/

/-- Two allocator states with the same lists, counters, page states and `private_data`. -/
structure SameBuddy (s s' : BuddyState) : Prop where
  freeLists : ∀ z k, (s'.areas z k).freeList = (s.areas z k).freeList
  counters : ∀ z k, (s'.areas z k).nrFree = (s.areas z k).nrFree
  states : ∀ j, pageGetState (s'.pages j) = pageGetState (s.pages j)
  data : ∀ j, (s'.pages j).privateData = (s.pages j).privateData

/-- Freeing what was just allocated, at any address of the first page. -/
theorem Allocated.free {s s' : BuddyState} {F : Set ℕ} {z : Zone} {k p c ptr : ℕ}
    (ha : Allocated s s' F z k p c) (hinv : FreeInv s F ∅)
    (hN : NoBuddies maxOrder (freeBlocks s)) (hptr : ptr < 2 ^ 32) (hpp : ptr / 4096 = p) :
    ∃ s'', buddyFreeBlock ptr s' = .ok s'' ∧ SameBuddy s s'' := by
  obtain ⟨rest, hlist⟩ := ha.first
  have hblock : (p, c) ∈ freeBlocks s := ⟨z, hlist ▸ List.mem_cons_self⟩
  have hp : p < maxPages := hinv.lt_maxPages hblock
  have hal : Aligned p c := hinv.tiling.aligned hblock
  have hpage : pageAddrToPage ptr = p := by rw [pageAddrToPage_eq hptr, hpp]
  have hempty : ∀ i, k ≤ i → i < c → s.areas z i = { freeList := [], nrFree := 0 } := by
    intro i hki hic
    have hcount := hinv.count z i
    have hnil := ha.smaller_empty i hki hic
    rw [hnil] at hcount
    cases harea : s.areas z i with
    | mk freeList nrFree =>
      rw [harea] at hnil hcount
      simp only at hnil hcount
      rw [hnil, hcount]
      rfl
  obtain ⟨t, hrun, hpages, hareas, hinvt⟩ :=
    mergeBuddies_split hal ha.found.2 ha.zone hptr hpp hempty (fun hlt => hN hblock hlt)
      (Nat.add_sub_cancel' ha.found.1) (Nat.le_refl k) (Nat.le_add_left maxOrder k)
      (ha.inv.weaken (Set.empty_subset _)) (funext fun z' => funext fun i => ha.areas z' i)
  have hdis : Disjoint (block p c) (F \ block p c) := Set.disjoint_sdiff_right
  have hfree : buddyFreeBlock ptr s' = .ok (linked t p c z) := by
    have hzone : pageZoneFlagsToZoneType (pageGetZone (s'.pages p)) = some z := by
      rw [ha.inv.zoneFlag p hp, zoneType_pageGetZoneFlag hp, ha.zone]
    have hstate : pageStateAllocated ≠ pageStateFree := by decide
    have horder : orderIsValid k = true := by simp [orderIsValid, ha.order_le]
    simp only [buddyFreeBlock, hpage, hstate, ha.headPage, horder, hzone, hrun, if_false,
      ne_eq, not_true_eq_false, false_and, Bool.not_true, Bool.false_eq_true, bind, Except.bind,
      hinvt.linkFreeBlock_eq _ hdis]
  refine ⟨_, hfree, ?_⟩
  -- the list of order `c` gets its first block back, the lists below it are empty again
  have harea : ∀ z' i, ((linked t p c z).areas z' i).freeList = (s.areas z' i).freeList ∧
      ((linked t p c z).areas z' i).nrFree = (s.areas z' i).nrFree := by
    intro z' i
    have htop : (t.areas z c).freeList = rest := by
      rw [hareas, splitAreas, if_pos ⟨rfl, rfl⟩, hlist]
      rfl
    rw [linked, setArea_areas]
    split
    · next hzi =>
      obtain ⟨rfl, rfl⟩ := hzi
      rw [htop, hinv.count, hlist]
      exact ⟨rfl, rfl⟩
    · next hzi =>
      rw [setBlockMetadata_areas, hareas, splitAreas, if_neg hzi, if_neg (by omega)]
      exact ⟨rfl, rfl⟩
  have hpage' : ∀ j ∉ block p c, (linked t p c z).pages j = s.pages j := by
    intro j hj
    rw [linked, setArea_pages, setBlockMetadata_pages_of_notMem t hj, hpages, ha.frame j hj]
  have hmeta : ∀ j ∈ block p c,
      pageGetState ((linked t p c z).pages j) = pageGetState (s.pages j) ∧
        ((linked t p c z).pages j).privateData = (s.pages j).privateData := by
    intro j hj
    have hstate : pageGetState ((linked t p c z).pages j) = pageStateFree :=
      pageGetState_setBlockMetadata t (by decide) hj
    by_cases hjp : j = p
    · subst hjp
      refine ⟨hstate.trans (hinv.head hblock).1.symm, ?_⟩
      rw [(hinv.head hblock).2, linked, setArea_pages, setBlockMetadata_head]
    · obtain ⟨hold, hmagic⟩ := hinv.tail hblock hj hjp
      refine ⟨hstate.trans hold.symm, ?_⟩
      rw [hmagic, linked, setArea_pages, setBlockMetadata_tail t hj hjp]
  refine ⟨fun z' i => (harea z' i).1, fun z' i => (harea z' i).2, fun j => ?_, fun j => ?_⟩
  · by_cases hj : j ∈ block p c
    · exact (hmeta j hj).1
    · rw [hpage' j hj]
  · by_cases hj : j ∈ block p c
    · exact (hmeta j hj).2
    · rw [hpage' j hj]

/-- **Allocation and freeing are inverse.** In every state of every run, freeing a block right after
its allocation, at any address of its first page, restores every list with its order, every counter,
and the state and `private_data` of every page. -/
theorem buddy_free_alloc {n : ℕ} {s : BuddyState} (hn : n ≤ maxPages) (h : TableInit s.pages)
    {r : BuddyRun} (hr : (buddySystem n s).Reachable r) {size p : ℕ} {zone : Zone}
    {s' : BuddyState} (halloc : buddyAllocPages size zone r.buddy = .ok (p, s')) (hp : p ≠ 0)
    {ptr : ℕ} (hptr : p ≤ ptr ∧ ptr < p + pageSize) :
    ∃ s'', buddyFreeBlock ptr s' = .ok s'' ∧ SameBuddy r.buddy s'' := by
  have hinv := runInv_of_reachable hn h hr
  rcases buddyAllocPages_cases hinv.free size zone with
    ⟨hnull, -⟩ | ⟨q, c, t, hrun, ha⟩ | ⟨-, e, herr⟩
  · rw [hnull] at halloc
    exact absurd (Prod.mk.inj (Except.ok.inj halloc)).1.symm hp
  · rw [hrun] at halloc
    obtain ⟨rfl, rfl⟩ := Prod.mk.inj (Except.ok.inj halloc)
    have hq : q < maxPages := hinv.free.inTable q (ha.subset (self_mem_block q _))
    rw [pageToPhys_eq hq] at hptr
    unfold pageSize at hptr
    unfold maxPages at hq
    exact ha.free hinv.free hinv.coalesced (by omega) (by omega)
  · rw [herr] at halloc
    cases halloc

/-- After `buddy_init` on the two pages of the small machine: one page, freed inside the page. -/
theorem buddy_free_alloc_twoPageTable :
    ∃ s₀ s' s'', buddyInit 0x1002 twoPageTable = .ok s₀ ∧
      buddyAllocPages 1 .lowmem s₀ = .ok (0x1000000, s') ∧
      buddyFreeBlock 0x1000123 s' = .ok s'' ∧ SameBuddy s₀ s'' := by
  have hinit := pageDescriptorInit_tableInit
    (fun z => if z = .lowmem then [{ start := 0x1000000, stop := 0x1002000 }] else []) fun _ => []
  have hready : ((buddyInit 0x1002 twoPageTable).toOption.bind fun s₀ =>
      ((buddyAllocPages 1 .lowmem s₀).toOption).map Prod.fst) = some 0x1000000 := by
    rw [buddyInit_twoPageTable]
    decide +kernel
  obtain ⟨s₀, hs₀, hready⟩ := Option.bind_eq_some_iff.mp hready
  obtain ⟨⟨p, s'⟩, hs', rfl⟩ := Option.map_eq_some_iff.mp hready
  have halloc := eq_ok_of_toOption hs'
  have hreach : (buddySystem 0x1002 twoPageTable).Reachable { buddy := s₀, live := [] } :=
    .init ⟨eq_ok_of_toOption hs₀, rfl⟩
  have hpage : 0x1000000 ≤ 0x1000123 ∧ 0x1000123 < 0x1000000 + pageSize := by decide
  obtain ⟨s'', hfree, hsame⟩ :=
    buddy_free_alloc (by decide) hinit hreach halloc (by decide) hpage
  exact ⟨s₀, s', s'', eq_ok_of_toOption hs₀, halloc, hfree, hsame⟩

end Kfs.Memory
