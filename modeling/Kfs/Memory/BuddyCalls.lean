import Kfs.Memory.BuddyRuns

/-!
# What a single call of the buddy allocator does

`Kfs.Memory.BuddyRuns` follows the free set over whole runs. This module says what one call in a
reachable state does:

- `buddy_alloc_effect`: the lists, counters and descriptors after `buddy_alloc_pages`;
- `buddy_size_honoured_iff`: which sizes get a block that is large enough.
-/

namespace Kfs.Memory

open Kfs.Lib Kfs.Lib.Word32 Kfs.Lib.Dyadic

/-! ## The effect of an allocation -/

/-- A block of `2 ^ k` pages from page `p` on is handed out: its head page carries the order. -/
structure HandedOut (s : BuddyState) (p k : ℕ) : Prop where
  inTable : ∀ j ∈ block p k, j < maxPages
  state : ∀ j ∈ block p k, pageGetState (s.pages j) = pageStateAllocated
  order : (s.pages p).privateData = k

/-- From `s` to `s'` a block of order `k` was cut from the block of order `c` at the head of its
list, which starts at page `p`. -/
structure AllocEffect (s s' : BuddyState) (z : Zone) (k c p : ℕ) : Prop where
  /-- `c` is the least order from `k` on with a free block. -/
  order_le : k ≤ c ∧ c ≤ maxOrder
  least : ∀ j, k ≤ j → j < c → (s.areas z j).nrFree = 0
  nonempty : (s.areas z c).nrFree ≠ 0
  head : (s.areas z c).freeList.head? = some p
  /-- The block leaves its list. -/
  popped : s'.areas z c =
    { freeList := (s.areas z c).freeList.tail, nrFree := (s.areas z c).nrFree - 1 }
  /-- The upper half of each level goes to the list below. -/
  halves : ∀ j, k ≤ j → j < c → s'.areas z j =
    { freeList := (p + 2 ^ j) :: (s.areas z j).freeList, nrFree := (s.areas z j).nrFree + 1 }
  /-- The lowest pages are handed out. -/
  handedOut : HandedOut s' p k
  otherAreas : ∀ z' j, ¬ (z' = z ∧ k ≤ j ∧ j ≤ c) → s'.areas z' j = s.areas z' j
  otherPages : ∀ j ∉ block p c, s'.pages j = s.pages j

section Effect

variable {s s' : BuddyState} {F : Set ℕ} {z : Zone} {k p c : ℕ}

/-- The pages of a fresh block. -/
theorem Allocated.handedOut (ha : Allocated s s' F z k p c) (hinv : FreeInv s F ∅) :
    HandedOut s' p k where
  inTable j hj := hinv.inTable j (ha.subset hj)
  state j hj := by
    by_cases hjp : j = p
    · rw [hjp]
      exact ha.headPage.1
    · exact (ha.tailPages j hj hjp).1
  order := ha.headPage.2

/-- The effect in terms of the lists and counters. -/
theorem Allocated.effect (ha : Allocated s s' F z k p c) (hinv : FreeInv s F ∅) :
    AllocEffect s s' z k c p := by
  have hcount : ∀ j, k ≤ j → j < c → (s.areas z j).nrFree = 0 := by
    intro j hkj hjc
    simp [hinv.count, ha.smaller_empty j hkj hjc]
  obtain ⟨rest, hlist⟩ := ha.first
  exact {
    order_le := ha.found
    least := hcount
    nonempty := by simp [hinv.count, hlist]
    head := by simp [hlist]
    popped := by
      rw [ha.areas, if_pos ⟨rfl, rfl⟩, hinv.count]
    halves := by
      intro j hkj hjc
      rw [ha.areas, if_neg (fun h => hjc.ne h.2), if_pos ⟨rfl, hkj, hjc⟩, hcount j hkj hjc,
        ha.smaller_empty j hkj hjc]
    handedOut := ha.handedOut hinv
    otherAreas := by
      intro z' j hout
      have hle := ha.found.1
      rw [ha.areas, if_neg, if_neg]
      · exact fun h => hout ⟨h.1, h.2.1, h.2.2.le⟩
      · exact fun h => hout ⟨h.1, h.2 ▸ hle, h.2.le⟩
    otherPages := ha.frame }

/-- `size_to_order` of a whole block. -/
theorem sizeToOrder_orderToBytes (hk : k ≤ maxOrder) : sizeToOrder (orderToBytes k) = k := by
  unfold maxOrder at hk
  interval_cases k <;> decide +kernel

end Effect

/-- **The exact effect of an allocation.** In every reachable state, a request of `2 ^ k` pages
returns `NULL` exactly when no list of the zone from order `k` on has a block, and changes nothing
then; otherwise it returns the lowest `2 ^ k` pages of the first block of the least such order. -/
theorem buddy_alloc_effect {n : ℕ} {s : BuddyState} (hn : n ≤ maxPages) (h : TableInit s.pages)
    (h0 : pageGetState (s.pages 0) ≠ pageStateAvailable) {r : BuddyRun}
    (hr : (buddySystem n s).Reachable r) (z : Zone) {k : ℕ} (hk : k ≤ maxOrder) :
    ∃ ptr s', buddyAllocPages (orderToBytes k) z r.buddy = .ok (ptr, s') ∧
      (ptr = 0 ↔ ∀ j, k ≤ j → j ≤ maxOrder → (r.buddy.areas z j).nrFree = 0) ∧
      (ptr = 0 → s' = r.buddy) ∧
      (ptr ≠ 0 → ∃ c p, ptr = p * pageSize ∧ AllocEffect r.buddy s' z k c p) := by
  have hinv := runInv_of_reachable hn h hr
  have h0F : 0 ∉ availablePages n s.pages \ livePages r.live := fun hmem => h0 hmem.1.2
  have horder := sizeToOrder_orderToBytes hk
  rcases buddyAllocPages_spec hinv.free h0F (orderToBytes k) z with
    ⟨hnull, hempty⟩ | ⟨p, c, s', hrun, ha⟩
  · -- no list has a block
    rw [horder] at hempty
    refine ⟨0, r.buddy, hnull, ?_, fun _ => rfl, fun hne => absurd rfl hne⟩
    refine iff_of_true rfl fun j hkj hj => ?_
    simp [hinv.free.count, hempty j hkj hj]
  · rw [horder] at ha
    have heff := ha.effect hinv.free
    have hp : pageToPhys p = p * pageSize :=
      pageToPhys_eq (heff.handedOut.inTable p (self_mem_block p k))
    have hne : pageToPhys p ≠ 0 := by
      have hp0 := ha.ne_zero
      unfold pageSize at hp
      omega
    refine ⟨pageToPhys p, s', hrun, ?_, fun heq => absurd heq hne, fun _ => ⟨c, p, hp, heff⟩⟩
    exact iff_of_false hne fun hall => heff.nonempty (hall c heff.order_le.1 heff.order_le.2)

/-- `buddy_init` on the two pages of the small machine leaves one block of order 1. -/
theorem twoPageTable_ready : ∃ s, (buddySystem 0x1002 twoPageTable).Reachable
    { buddy := s, live := [] } ∧ (s.areas .lowmem 0).nrFree = 0 ∧ (s.areas .lowmem 1).nrFree = 1 := by
  have hview : (buddyInit 0x1002 twoPageTable).toOption.map (fun s =>
      ((s.areas .lowmem 0).nrFree, (s.areas .lowmem 1).nrFree)) = some (0, 1) := by
    rw [buddyInit_twoPageTable]
    decide +kernel
  obtain ⟨s, hrun, hcounts⟩ := exists_ok_of_toOption_map hview
  obtain ⟨hzero, hone⟩ := Prod.mk.inj hcounts
  exact ⟨s, .init ⟨hrun, rfl⟩, hzero, hone⟩

/-- One page of that block. -/
theorem buddy_alloc_effect_twoPageTable :
    ∃ r, (buddySystem 0x1002 twoPageTable).Reachable r ∧
      ∃ ptr s', buddyAllocPages (orderToBytes 0) .lowmem r.buddy = .ok (ptr, s') ∧
        ∃ c p, ptr = p * pageSize ∧ AllocEffect r.buddy s' .lowmem 0 c p := by
  obtain ⟨s, hreach, -, hone⟩ := twoPageTable_ready
  obtain ⟨ptr, s', hrun, hnull, -, heff⟩ :=
    buddy_alloc_effect (by decide) (pageDescriptorInit_tableInit _ _) (by decide) hreach .lowmem
      (Nat.zero_le maxOrder)
  refine ⟨_, hreach, ptr, s', hrun, heff fun hptr => ?_⟩
  have hzero := hnull.mp hptr 1 (Nat.zero_le 1) (by decide)
  exact absurd (hone.symm.trans hzero) Nat.one_ne_zero

/-! ## The size of a block -/

/-- A block that a request of `size` bytes returns is the smallest one that holds the request, and
requests above the largest block return `NULL`. -/
def RequestHonoured (s : BuddyState) (size : ℕ) (zone : Zone) : Prop :=
  ∀ ptr s', buddyAllocPages size zone s = .ok (ptr, s') →
    (ptr ≠ 0 → ∃ p k, ptr = p * pageSize ∧ HandedOut s' p k ∧ size ≤ orderToBytes k ∧
      orderToBytes k < 2 * max size pageSize ∧ ∀ j < k, orderToBytes j < size) ∧
    (0x400000 < size → ptr = 0)

section Size

variable {size k : ℕ}

/-- The least block that is large enough has less than twice the size. -/
theorem orderToBytes_lt (hleast : ∀ j < k, orderToBytes j < size) :
    orderToBytes k < 2 * max size pageSize := by
  cases k with
  | zero =>
    have hone : orderToBytes 0 = pageSize := by decide
    rw [hone]
    unfold pageSize
    omega
  | succ j =>
    have hlt := hleast j (Nat.lt_succ_self j)
    have hdouble : orderToBytes (j + 1) = 2 * orderToBytes j := by
      unfold orderToBytes pageByOrder
      rw [pow_succ, mul_comm (2 ^ j) 2, mul_assoc]
    omega

/-- The rounding wraps for the last sizes of the range, and the order of a single page comes out. -/
theorem sizeToOrder_wrap (hsize : size < 2 ^ 32) (hwrap : 2 ^ 32 ≤ size + (pageSize - 1)) :
    sizeToOrder size = 0 := by
  have hpages : divRoundUp32 size pageSize = 0 := by
    unfold divRoundUp32 add32 pageSize at *
    omega
  unfold sizeToOrder
  rw [hpages]
  rfl

end Size

/-- **The size of a block.** In a reachable state a request is honoured exactly when rounding it up
to pages does not wrap, or when the zone has nothing to give. -/
theorem buddy_size_honoured_iff {n : ℕ} {s : BuddyState} (hn : n ≤ maxPages)
    (h : TableInit s.pages) (h0 : pageGetState (s.pages 0) ≠ pageStateAvailable) {r : BuddyRun}
    (hr : (buddySystem n s).Reachable r) (zone : Zone) {size : ℕ} (hsize : size < 2 ^ 32) :
    RequestHonoured r.buddy size zone ↔ size + (pageSize - 1) < 2 ^ 32 ∨
      ∀ j ≤ maxOrder, (r.buddy.areas zone j).nrFree = 0 := by
  have hinv := runInv_of_reachable hn h hr
  have h0F : 0 ∉ availablePages n s.pages \ livePages r.live := fun hmem => h0 hmem.1.2
  have hcases := buddyAllocPages_spec hinv.free h0F size zone
  constructor
  · intro hgood
    by_contra hno
    rw [not_or, not_lt] at hno
    obtain ⟨hwrap, hsome⟩ := hno
    rw [sizeToOrder_wrap hsize hwrap] at hcases
    rcases hcases with ⟨-, hempty⟩ | ⟨p, c, s', hrun, ha⟩
    · apply hsome
      intro j hj
      simp [hinv.free.count, hempty j (Nat.zero_le j) hj]
    · -- a page is returned for almost 4 GiB
      have hp : p < maxPages := hinv.free.inTable p (ha.subset (self_mem_block p 0))
      have hnull := (hgood _ _ hrun).2 (by unfold pageSize at hwrap; omega)
      rw [pageToPhys_eq hp] at hnull
      have hne := ha.ne_zero
      omega
  · intro hcond ptr s' hrun
    rcases hcases with ⟨hnull, -⟩ | ⟨p, c, s'', halloc, ha⟩
    · rw [hnull] at hrun
      obtain ⟨rfl, -⟩ := Prod.mk.inj (Except.ok.inj hrun)
      exact ⟨fun hne => absurd rfl hne, fun _ => rfl⟩
    · rw [halloc] at hrun
      obtain ⟨rfl, rfl⟩ := Prod.mk.inj (Except.ok.inj hrun)
      have heff := ha.effect hinv.free
      rcases hcond with hfits | hempty
      · obtain ⟨hle, hleast⟩ := sizeToOrder_bytes hfits ha.order_le
        have hp : pageToPhys p = p * pageSize :=
          pageToPhys_eq (heff.handedOut.inTable p (self_mem_block p _))
        refine ⟨fun _ => ⟨p, _, hp, heff.handedOut, hle, orderToBytes_lt hleast, hleast⟩,
          fun hbig => ?_⟩
        -- no order is large enough
        have hmax : orderToBytes (sizeToOrder size) ≤ 0x400000 := by
          have hpow : 2 ^ sizeToOrder size ≤ 2 ^ maxOrder :=
            Nat.pow_le_pow_right (by decide) ha.order_le
          unfold orderToBytes pageByOrder pageSize
          unfold maxOrder at hpow
          omega
        omega
      · exact absurd (hempty c heff.order_le.2) heff.nonempty

theorem buddy_size_honoured_iff_twoPageTable :
    ∃ r, (buddySystem 0x1002 twoPageTable).Reachable r ∧ RequestHonoured r.buddy 0x1001 .lowmem := by
  obtain ⟨s, hreach, -⟩ := twoPageTable_ready
  refine ⟨_, hreach, ?_⟩
  exact (buddy_size_honoured_iff (by decide) (pageDescriptorInit_tableInit _ _) (by decide) hreach
    .lowmem (by decide)).mpr (Or.inl (by decide))

/-- One page for a request of almost 4 GiB. -/
theorem not_requestHonoured_twoPageTable :
    ∃ r, (buddySystem 0x1002 twoPageTable).Reachable r ∧
      ¬ RequestHonoured r.buddy 0xFFFFF001 .lowmem := by
  have hview : (buddyInit 0x1002 twoPageTable).toOption.bind (fun s =>
      (buddyAllocPages 0xFFFFF001 .lowmem s).toOption.map Prod.fst) = some 0x1000000 := by
    rw [buddyInit_twoPageTable]
    decide +kernel
  obtain ⟨s, hinit, hview⟩ := Option.bind_eq_some_iff.mp hview
  obtain ⟨⟨ptr, s'⟩, hrun, hptr⟩ := Option.map_eq_some_iff.mp hview
  have hptr : ptr = 0x1000000 := hptr
  refine ⟨{ buddy := s, live := [] }, .init ⟨eq_ok_of_toOption hinit, rfl⟩, fun hgood => ?_⟩
  have hnull := (hgood ptr s' (eq_ok_of_toOption hrun)).2 (by decide)
  omega

end Kfs.Memory
