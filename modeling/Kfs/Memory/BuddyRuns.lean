import Kfs.Lib.TransitionSystem
import Kfs.Memory.BuddySpec

/-!
# Runs of the buddy allocator

A run starts with `buddy_init` on a descriptor table and goes on with calls of `buddy_alloc_pages`
and with calls of `buddy_free_block` on blocks that are live, that is returned and not yet freed.
The live blocks are a ghost list beside the allocator state.

The representation invariant ties the four encodings of the free set together in every state of
every run, and the lists are a function of the set of free pages.
-/

namespace Kfs.Memory

open Kfs.Lib Kfs.Lib.Word32 Kfs.Lib.Dyadic

/-! ## The transition system -/

/-- The calls of a run. -/
inductive BuddyCall where
  | alloc (size : ℕ) (zone : Zone)
  | free (ptr : ℕ)
  deriving DecidableEq, Repr

/-- The allocator and the live blocks, each as its address and its order. -/
structure BuddyRun where
  buddy : BuddyState
  live : List (ℕ × ℕ)

/-- One call. A run never goes on after a call that stops. -/
def buddyStep (r : BuddyRun) : BuddyCall → BuddyRun → Prop
  | .alloc size zone, r' => ∃ ptr s, buddyAllocPages size zone r.buddy = .ok (ptr, s) ∧
      r' = { buddy := s
             live := if ptr = 0 then r.live else (ptr, sizeToOrder size) :: r.live }
  | .free ptr, r' => ∃ k s, (ptr, k) ∈ r.live ∧ buddyFreeBlock ptr r.buddy = .ok s ∧
      r' = { buddy := s, live := r.live.erase (ptr, k) }

/-- The runs on a descriptor table. -/
def buddySystem (totalPages : ℕ) (s : BuddyState) : System BuddyRun BuddyCall where
  init r := buddyInit totalPages s = .ok r.buddy ∧ r.live = []
  step := buddyStep

/-- The pages of a live block. -/
def liveBlock (b : ℕ × ℕ) : Set ℕ := block (pageAddrToPage b.1) b.2

/-- The pages of all live blocks. -/
def livePages (live : List (ℕ × ℕ)) : Set ℕ := { j | ∃ b ∈ live, j ∈ liveBlock b }

@[simp] theorem livePages_nil : livePages [] = ∅ := by
  ext j
  simp [livePages]

@[simp] theorem livePages_cons (b : ℕ × ℕ) (live : List (ℕ × ℕ)) :
    livePages (b :: live) = liveBlock b ∪ livePages live := by
  ext j
  simp [livePages]

/-! ## The invariant of a run -/

/-- A block that the allocator has handed out. -/
structure IsLive (A : Set ℕ) (s : BuddyState) (b : ℕ × ℕ) : Prop where
  addr : b.1 = pageToPhys (pageAddrToPage b.1)
  inTable : pageAddrToPage b.1 < maxPages
  aligned : Aligned (pageAddrToPage b.1) b.2
  order_le : b.2 ≤ maxOrder
  subset : liveBlock b ⊆ A
  state : pageGetState (s.pages (pageAddrToPage b.1)) = pageStateAllocated
  order : (s.pages (pageAddrToPage b.1)).privateData = b.2

/-- Free lists and live blocks share out the page set `A`. -/
structure RunInv (A : Set ℕ) (r : BuddyRun) : Prop where
  free : FreeInv r.buddy (A \ livePages r.live) ∅
  coalesced : NoBuddies maxOrder (freeBlocks r.buddy)
  live : ∀ b ∈ r.live, IsLive A r.buddy b
  disjoint : r.live.Pairwise fun b b' => Disjoint (liveBlock b) (liveBlock b')

section Steps

variable {A : Set ℕ} {r r' : BuddyRun}

/-- A live block stays live while its head page is not touched. -/
theorem IsLive.congr {s s' : BuddyState} {b : ℕ × ℕ} (h : IsLive A s b)
    (hpage : s'.pages (pageAddrToPage b.1) = s.pages (pageAddrToPage b.1)) : IsLive A s' b :=
  { h with
    state := by rw [hpage]; exact h.state
    order := by rw [hpage]; exact h.order }

theorem liveBlock_subset_livePages {b : ℕ × ℕ} {live : List (ℕ × ℕ)} (hb : b ∈ live) :
    liveBlock b ⊆ livePages live := fun _ hj => ⟨b, hb, hj⟩

/-- Erasing a live block frees exactly its pages when live blocks are disjoint. -/
theorem livePages_erase {b : ℕ × ℕ} :
    ∀ {live : List (ℕ × ℕ)}, b ∈ live →
      (live.Pairwise fun b b' => Disjoint (liveBlock b) (liveBlock b')) →
      livePages (live.erase b) = livePages live \ liveBlock b := by
  intro live
  induction live with
  | nil => intro hb; cases hb
  | cons a live ih =>
    intro hb hpw
    obtain ⟨ha, hpw'⟩ := List.pairwise_cons.mp hpw
    by_cases hab : a = b
    · subst hab
      have hdis : Disjoint (liveBlock a) (livePages live) := by
        rw [Set.disjoint_right]
        rintro j ⟨c, hc, hj⟩ hja
        exact Set.disjoint_left.mp (ha c hc) hja hj
      rw [List.erase_cons_head, livePages_cons, Set.union_sdiff_cancel_left hdis.le_bot]
    · have hb' : b ∈ live := (List.mem_cons.mp hb).resolve_left (Ne.symm hab)
      have hdis : Disjoint (liveBlock a) (liveBlock b) := ha b hb'
      rw [List.erase_cons_tail (by simpa using hab), livePages_cons, livePages_cons,
        ih hb' hpw', Set.union_sdiff_distrib, hdis.sdiff_eq_left]

/-- Allocation takes its block from the free part. -/
theorem RunInv.alloc (h : RunInv A r) {size : ℕ} {z : Zone} {p c : ℕ} {s : BuddyState}
    (ha : Allocated r.buddy s (A \ livePages r.live) z (sizeToOrder size) p c) :
    RunInv A { buddy := s, live := (pageToPhys p, sizeToOrder size) :: r.live } := by
  have hpF : p ∈ A \ livePages r.live := ha.subset (self_mem_block p _)
  have hp : p < maxPages := h.free.inTable p hpF
  have hpage : pageAddrToPage (pageToPhys p) = p := pageAddrToPage_pageToPhys hp
  have hnew : liveBlock (pageToPhys p, sizeToOrder size) = block p (sizeToOrder size) := by
    unfold liveBlock
    rw [hpage]
  refine { free := ?_, coalesced := ha.noBuddies h.free h.coalesced, live := ?_, disjoint := ?_ }
  · have hset : A \ livePages ((pageToPhys p, sizeToOrder size) :: r.live) =
        (A \ livePages r.live) \ block p (sizeToOrder size) := by
      rw [livePages_cons, hnew, Set.union_comm, Set.sdiff_sdiff]
    rw [hset]
    exact ha.inv
  · intro b hb
    rcases List.mem_cons.mp hb with rfl | hold
    · exact {
        addr := by simp only [hpage]
        inTable := by simp only [hpage]; exact hp
        aligned := by simp only [hpage]; exact ha.aligned
        order_le := ha.order_le
        subset := by rw [hnew]; exact fun j hj => (ha.subset hj).1
        state := by simp only [hpage]; exact ha.headPage.1
        order := by simp only [hpage]; exact ha.headPage.2 }
    · -- the head page of an older block is outside the block that was split
      apply (h.live b hold).congr
      apply ha.frame
      intro hmem
      exact (ha.popped_subset hmem).2 ⟨b, hold, self_mem_block _ _⟩
  · apply List.pairwise_cons.mpr
    refine ⟨fun b hb => ?_, h.disjoint⟩
    rw [hnew, Set.disjoint_left]
    intro j hj hjb
    exact (ha.subset hj).2 ⟨b, hb, hjb⟩

/-- Freeing a live block never stops and returns its pages to the free part. -/
theorem RunInv.free_spec (h : RunInv A r) {b : ℕ × ℕ} (hb : b ∈ r.live) :
    ∃ s, buddyFreeBlock b.1 r.buddy = .ok s ∧ RunInv A { buddy := s, live := r.live.erase b } := by
  have hl := h.live b hb
  have hptr : b.1 < 2 ^ 32 := by
    rw [hl.addr]
    exact pageToPhys_lt _
  have hdis : Disjoint (block (pageAddrToPage b.1) b.2) (A \ livePages r.live) := by
    rw [Set.disjoint_left]
    intro j hj hjF
    exact hjF.2 ⟨b, hb, hj⟩
  obtain ⟨s, p', k', hrun, hinv, hframe, hsub, hbud, -⟩ :=
    buddyFreeBlock_spec h.free hptr (pageAddrToPage_eq hptr).symm hl.aligned hl.order_le hl.inTable
      hdis (Or.inl hl.state) hl.order
  have hset : A \ livePages (r.live.erase b) = A \ livePages r.live ∪ liveBlock b := by
    rw [livePages_erase hb h.disjoint]
    ext j
    have h1 := @hl.subset j
    have h2 := @liveBlock_subset_livePages _ _ hb j
    simp only [Set.mem_union, Set.mem_sdiff]
    tauto
  refine ⟨s, hrun, ?_⟩
  refine {
    free := by rw [hset]; exact hinv
    coalesced := noBuddies_of_subset_insert h.coalesced hsub hbud
    live := fun b' hb' => ?_
    disjoint := h.disjoint.erase b }
  have hold : b' ∈ r.live := List.mem_of_mem_erase hb'
  have hpages : liveBlock b' ⊆ livePages r.live \ liveBlock b := by
    rw [← livePages_erase hb h.disjoint]
    exact liveBlock_subset_livePages hb'
  have hmem := hpages (self_mem_block _ _)
  exact (h.live b' hold).congr (hframe _ (fun hF => hF.2 hmem.1) hmem.2)

/-- Every call keeps the invariant. -/
theorem RunInv.step (h : RunInv A r) {call : BuddyCall} (hs : buddyStep r call r') :
    RunInv A r' := by
  cases call with
  | alloc size zone =>
    obtain ⟨ptr, s, hrun, rfl⟩ := hs
    rcases buddyAllocPages_cases h.free size zone with
      ⟨hnull, -⟩ | ⟨p, c, s', halloc, ha⟩ | ⟨-, e, herr⟩
    · rw [hnull] at hrun
      obtain ⟨rfl, rfl⟩ := Prod.mk.inj (Except.ok.inj hrun)
      exact h
    · rw [halloc] at hrun
      obtain ⟨rfl, rfl⟩ := Prod.mk.inj (Except.ok.inj hrun)
      have hp : p < maxPages := h.free.inTable p (ha.subset (self_mem_block p _))
      have hne : pageToPhys p ≠ 0 := by
        rw [pageToPhys_eq hp]
        have := ha.ne_zero
        omega
      simp only [hne, if_false]
      exact h.alloc ha
    · rw [herr] at hrun
      cases hrun
  | free ptr =>
    obtain ⟨k, s, hmem, hrun, rfl⟩ := hs
    obtain ⟨s', hrun', hinv⟩ := h.free_spec hmem
    obtain rfl : s' = s := Except.ok.inj (hrun'.symm.trans hrun)
    exact hinv

/-- **Run invariant**: it holds in every state of every run. -/
theorem runInv_of_reachable {n : ℕ} {s : BuddyState} (hn : n ≤ maxPages) (h : TableInit s.pages)
    (hr : (buddySystem n s).Reachable r) : RunInv (availablePages n s.pages) r := by
  apply hr.invariant
  · rintro ⟨s₀, live⟩ ⟨hinit, rfl⟩
    obtain ⟨s', hrun, hinv, hN, -⟩ := buddyInit_spec h hn
    obtain rfl : s' = s₀ := Except.ok.inj (hrun.symm.trans hinit)
    exact {
      free := by simpa using hinv
      coalesced := hN
      live := fun b hb => (nomatch hb)
      disjoint := List.Pairwise.nil }
  · intro r₁ call r₂ hinv hstep
    exact hinv.step hstep

end Steps

/-! ## The representation invariant -/

/-- The pages of a block carry the state `FREE`, the head page with the order and the others with
the magic number. -/
def FreeMetadata (s : BuddyState) (i k : ℕ) : Prop :=
  pageGetState (s.pages i) = pageStateFree ∧ (s.pages i).privateData = k ∧
    ∀ j ∈ block i k, j ≠ i →
      pageGetState (s.pages j) = pageStateFree ∧ (s.pages j).privateData = pageMagic

/-- The representation invariant in the terms of the C structures; `A` is the set of pages that
the allocator was given. -/
structure BuddyRep (A : Set ℕ) (r : BuddyRun) : Prop where
  count : ∀ z, ∀ k ≤ maxOrder, (r.buddy.areas z k).nrFree = (r.buddy.areas z k).freeList.length
  nodup : ∀ z, ∀ k ≤ maxOrder, (r.buddy.areas z k).freeList.Nodup
  aligned : ∀ z, ∀ k ≤ maxOrder, ∀ i ∈ (r.buddy.areas z k).freeList,
    ∃ base, getBuddyBase (some z) = .ok base ∧ base ≤ pageToPhys i ∧
      orderToBytes k ∣ pageToPhys i - base
  inZone : ∀ z, ∀ k ≤ maxOrder, ∀ i ∈ (r.buddy.areas z k).freeList, ∀ j ∈ block i k,
    j < maxPages ∧ pageZoneFlagsToZoneType (pageGetZoneFlag (pageToPhys j)) = some z
  metadata : ∀ z, ∀ k ≤ maxOrder, ∀ i ∈ (r.buddy.areas z k).freeList, FreeMetadata r.buddy i k
  disjointFree : ∀ z, ∀ k ≤ maxOrder, ∀ i ∈ (r.buddy.areas z k).freeList,
    ∀ z', ∀ k' ≤ maxOrder, ∀ i' ∈ (r.buddy.areas z' k').freeList,
      (z, k, i) ≠ (z', k', i') → Disjoint (block i k) (block i' k')
  disjointFreeLive : ∀ z, ∀ k ≤ maxOrder, ∀ i ∈ (r.buddy.areas z k).freeList, ∀ b ∈ r.live,
    Disjoint (block i k) (liveBlock b)
  disjointLive : r.live.Pairwise fun b b' => Disjoint (liveBlock b) (liveBlock b')
  cover : ∀ j, j ∈ A ↔
    (∃ z, ∃ k ≤ maxOrder, ∃ i ∈ (r.buddy.areas z k).freeList, j ∈ block i k) ∨
      j ∈ livePages r.live

section Representation

variable {A : Set ℕ} {r : BuddyRun}

/-- A block of a zone is aligned relative to the zone's base as well. -/
theorem orderToBytes_dvd_sub_base {i k : ℕ} (hi : i < maxPages) (hal : Aligned i k)
    (hk : k ≤ maxOrder) :
    ∃ base, getBuddyBase (some (zoneOfPage i)) = .ok base ∧ base ≤ pageToPhys i ∧
      orderToBytes k ∣ pageToPhys i - base := by
  obtain ⟨b, hbase, hb, hle⟩ := getBuddyBase_zoneOfPage i
  refine ⟨b * 4096, hbase, ?_, ?_⟩
  · rw [pageToPhys_eq hi]
    exact Nat.mul_le_mul_right 4096 hle
  · rw [pageToPhys_eq hi, ← Nat.sub_mul]
    exact Nat.mul_dvd_mul_right (Nat.dvd_sub hal (hb.mono hk)) 4096

theorem RunInv.rep (h : RunInv A r) : BuddyRep A r where
  count z k _ := h.free.count z k
  nodup z k _ := h.free.nodup z k
  aligned z k hk i hi := by
    have hb : (i, k) ∈ freeBlocks r.buddy := ⟨z, hi⟩
    rw [← h.free.zone hi]
    exact orderToBytes_dvd_sub_base (h.free.lt_maxPages hb) (h.free.tiling.aligned hb) hk
  inZone z k hk i hi j hj := by
    have hb : (i, k) ∈ freeBlocks r.buddy := ⟨z, hi⟩
    have hal := h.free.tiling.aligned hb
    have hjlt : j < maxPages := lt_maxPages_of_mem hal hk (h.free.lt_maxPages hb) hj
    refine ⟨hjlt, ?_⟩
    rw [zoneType_pageGetZoneFlag hjlt, zoneOfPage_eq_of_mem hal hk hj, h.free.zone hi]
  metadata z k _ i hi := by
    have hb : (i, k) ∈ freeBlocks r.buddy := ⟨z, hi⟩
    exact ⟨(h.free.head hb).1, (h.free.head hb).2, fun j hj hne => h.free.tail hb hj hne⟩
  disjointFree z k _ i hi z' k' _ i' hi' hne := by
    rw [Set.disjoint_left]
    intro j hj hj'
    obtain ⟨rfl, rfl⟩ := h.free.tiling.disjoint ⟨z, hi⟩ ⟨z', hi'⟩ hj hj'
    exact hne (by rw [← h.free.zone hi, ← h.free.zone hi'])
  disjointFreeLive z k _ i hi b hb := by
    rw [Set.disjoint_left]
    intro j hj hjb
    have hF := (h.free.tiling.cover j).mpr ⟨i, k, ⟨z, hi⟩, hj⟩
    exact hF.2 ⟨b, hb, hjb⟩
  disjointLive := h.disjoint
  cover j := by
    constructor
    · intro hjA
      by_cases hlive : j ∈ livePages r.live
      · exact Or.inr hlive
      · obtain ⟨i, k, hb, hj⟩ := (h.free.tiling.cover j).mp ⟨hjA, hlive⟩
        have hk := h.free.tiling.order_le hb
        obtain ⟨z, hi⟩ := hb
        exact Or.inl ⟨z, k, hk, i, hi, hj⟩
    · rintro (⟨z, k, -, i, hi, hj⟩ | ⟨b, hb, hj⟩)
      · exact ((h.free.tiling.cover j).mpr ⟨i, k, ⟨z, hi⟩, hj⟩).1
      · exact (h.live b hb).subset hj

end Representation

/-- **Representation invariant of the buddy allocator.** On a table without `FREE` pages
`buddy_init` finishes; in every state of every run the invariant holds, every allocation returns
and every live block can be freed. -/
theorem buddy_representation {n : ℕ} {s : BuddyState} (hn : n ≤ maxPages) (h : TableInit s.pages)
    (h0 : pageGetState (s.pages 0) ≠ pageStateAvailable) :
    (∃ s₀, buddyInit n s = .ok s₀) ∧
    ∀ r, (buddySystem n s).Reachable r →
      BuddyRep (availablePages n s.pages) r ∧
      (∀ size zone, ∃ out, buddyAllocPages size zone r.buddy = .ok out) ∧
      (∀ b ∈ r.live, ∃ s', buddyFreeBlock b.1 r.buddy = .ok s') := by
  refine ⟨?_, ?_⟩
  · obtain ⟨s₀, hrun, -⟩ := buddyInit_spec h hn
    exact ⟨s₀, hrun⟩
  · intro r hr
    have hinv := runInv_of_reachable hn h hr
    refine ⟨hinv.rep, ?_, ?_⟩
    · intro size zone
      have h0F : 0 ∉ availablePages n s.pages \ livePages r.live := fun hmem => h0 hmem.1.2
      rcases buddyAllocPages_spec hinv.free h0F size zone with ⟨hnull, -⟩ | ⟨p, c, s', hrun, -⟩
      · exact ⟨_, hnull⟩
      · exact ⟨_, hrun⟩
    · intro b hb
      obtain ⟨s', hrun, -⟩ := hinv.free_spec hb
      exact ⟨s', hrun⟩

/-- A table built by `page_descriptor_init` has no `FREE` page. -/
theorem pageDescriptorInit_tableInit (freeZones resZones : Zone → List Region) :
    TableInit (pageDescriptorInit freeZones resZones) where
  zoneFlag i _ := (pageDescriptorInit_flags freeZones resZones i).2
  notFree i _ := by
    rw [(pageDescriptorInit_flags freeZones resZones i).1]
    rcases pageGetStateFlag_cases freeZones resZones (pageToPhys i) with h | h | h <;> rw [h] <;>
      decide

/-- A machine with two free pages of `LOWMEM`. -/
def twoPageTable : BuddyState where
  pages := pageDescriptorInit
    (fun z => if z = .lowmem then [{ start := 0x1000000, stop := 0x1002000 }] else []) fun _ => []
  areas := emptyAreas

/-- A page outside of the free regions is not available. -/
theorem pageDescriptorInit_not_available {freeZones resZones : Zone → List Region} {i : ℕ}
    (h : ∀ z, pageAddrIsInReg (freeZones z) (pageToPhys i) = false) :
    pageGetState (pageDescriptorInit freeZones resZones i) ≠ pageStateAvailable := by
  rw [(pageDescriptorInit_flags freeZones resZones i).1]
  unfold pageGetStateFlag
  cases hfind : Zone.all.findSome? _ with
  | none => decide
  | some st =>
    obtain ⟨z, -, hz⟩ := List.exists_of_findSome?_eq_some hfind
    rw [h z, if_neg Bool.false_ne_true] at hz
    split at hz
    · obtain rfl := Option.some.inj hz
      decide
    · cases hz

/-- Only two pages are freed at the start of the small machine. -/
theorem buddyInit_twoPageTable : buddyInit 0x1002 twoPageTable =
    (List.range' 0x1000 2).foldlM buddyInitPage twoPageTable := by
  refine buddyInit_skip (k := 0x1000) (fun i hi => pageDescriptorInit_not_available fun z => ?_) 2
  have haddr : pageToPhys i = i * 4096 := pageToPhys_eq (by unfold maxPages; omega)
  cases z with
  | lowmem =>
    rw [haddr]
    simp [pageAddrIsInReg]
    omega
  | dma => rfl
  | highmem => rfl

theorem buddy_representation_twoPageTable :
    (∃ s₀, buddyInit 0x1002 twoPageTable = .ok s₀) ∧
    ∀ r, (buddySystem 0x1002 twoPageTable).Reachable r →
      BuddyRep (availablePages 0x1002 twoPageTable.pages) r ∧
      (∀ size zone, ∃ out, buddyAllocPages size zone r.buddy = .ok out) ∧
      (∀ b ∈ r.live, ∃ s', buddyFreeBlock b.1 r.buddy = .ok s') :=
  buddy_representation (by decide) (pageDescriptorInit_tableInit _ _) (by decide)

/-- A table with a `FREE` page that no list holds: page 0, the buddy of the available page 1. -/
def strayFreeTable : BuddyState where
  pages i := { flags := (if i = 0 then pageStateFree else if i = 1 then pageStateAvailable
                 else pageStateUnusable) ||| pageGetZoneFlag (pageToPhys i)
               privateData := 0 }
  areas := emptyAreas

/-- `buddy_init` takes the stray page for the free buddy of page 1 and unlinks a node that is on no
list. -/
theorem buddyInit_strayFreeTable :
    (∀ i < maxPages, pageGetZone (strayFreeTable.pages i) = pageGetZoneFlag (pageToPhys i)) ∧
    pageGetState (strayFreeTable.pages 0) ≠ pageStateAvailable ∧
    buddyInit 2 strayFreeTable = .error .fault := by
  refine ⟨fun i _ => ?_, by decide, eq_error_of_stopOf (by decide +kernel)⟩
  unfold strayFreeTable pageGetZone
  simp only
  rcases pageGetZoneFlag_cases (pageToPhys i) with h | h | h <;> rw [h] <;> split
  all_goals first | decide | (split <;> decide)

/-! ## Canonical coalescing -/

/-- The pages in the state `FREE`. -/
def freePages (s : BuddyState) : Set ℕ :=
  { j | j < maxPages ∧ pageGetState (s.pages j) = pageStateFree }

/-- Under the invariant the state bits name the free set. -/
theorem FreeInv.freePages_eq {s : BuddyState} {F : Set ℕ} (h : FreeInv s F ∅) :
    freePages s = F := by
  ext j
  constructor
  · rintro ⟨hj, hstate⟩
    by_contra hF
    exact h.notFree j hj hF (Set.notMem_empty j) hstate
  · intro hF
    obtain ⟨i, k, hb, hj⟩ := (h.tiling.cover j).mp hF
    refine ⟨h.inTable j hF, ?_⟩
    by_cases hji : j = i
    · rw [hji]
      exact (h.head hb).1
    · exact (h.tail hb hj hji).1

/-- The blocks on the lists determine every list up to order and every counter. -/
theorem FreeInv.areas_of_freeBlocks_eq {s s' : BuddyState} {F F' : Set ℕ} (h : FreeInv s F ∅)
    (h' : FreeInv s' F' ∅) (heq : freeBlocks s = freeBlocks s') (z : Zone) (k : ℕ) :
    (∀ i, i ∈ (s.areas z k).freeList ↔ i ∈ (s'.areas z k).freeList) ∧
      (s.areas z k).nrFree = (s'.areas z k).nrFree := by
  have hmem : ∀ i, i ∈ (s.areas z k).freeList ↔ i ∈ (s'.areas z k).freeList := by
    intro i
    constructor
    · intro hi
      have hb : (i, k) ∈ freeBlocks s' := heq ▸ ⟨z, hi⟩
      rw [← h.zone hi]
      exact h'.mem_list hb
    · intro hi
      have hb : (i, k) ∈ freeBlocks s := heq ▸ ⟨z, hi⟩
      rw [← h'.zone hi]
      exact h.mem_list hb
  refine ⟨hmem, ?_⟩
  rw [h.count, h'.count]
  exact ((List.perm_ext_iff_of_nodup (h.nodup z k) (h'.nodup z k)).mpr hmem).length_eq

/-- **Canonical coalescing.** No two buddies below the largest order are both free in a reachable
state, and two runs from one table that end with the same free pages end with the same free blocks
of each order and the same counters. -/
theorem buddy_coalescing_canonical {n : ℕ} {s : BuddyState} (hn : n ≤ maxPages)
    (h : TableInit s.pages) :
    (∀ r, (buddySystem n s).Reachable r → ∀ z z' k i, k < maxOrder →
      i ∈ (r.buddy.areas z k).freeList → buddy i k ∉ (r.buddy.areas z' k).freeList) ∧
    (∀ r r', (buddySystem n s).Reachable r → (buddySystem n s).Reachable r' →
      freePages r.buddy = freePages r'.buddy → ∀ z k,
        (∀ i, i ∈ (r.buddy.areas z k).freeList ↔ i ∈ (r'.buddy.areas z k).freeList) ∧
          (r.buddy.areas z k).nrFree = (r'.buddy.areas z k).nrFree) := by
  refine ⟨?_, ?_⟩
  · intro r hr z z' k i hk hi hbud
    exact (runInv_of_reachable hn h hr).coalesced ⟨z, hi⟩ hk ⟨z', hbud⟩
  · intro r r' hr hr' heq z k
    have hinv := runInv_of_reachable hn h hr
    have hinv' := runInv_of_reachable hn h hr'
    rw [hinv.free.freePages_eq, hinv'.free.freePages_eq] at heq
    have htiling' := hinv'.free.tiling
    rw [← heq] at htiling'
    exact hinv.free.areas_of_freeBlocks_eq hinv'.free
      (hinv.free.tiling.unique hinv.coalesced htiling' hinv'.coalesced) z k

theorem buddy_coalescing_canonical_twoPageTable :
    (∀ r, (buddySystem 0x1002 twoPageTable).Reachable r → ∀ z z' k i, k < maxOrder →
      i ∈ (r.buddy.areas z k).freeList → buddy i k ∉ (r.buddy.areas z' k).freeList) ∧
    (∀ r r', (buddySystem 0x1002 twoPageTable).Reachable r →
      (buddySystem 0x1002 twoPageTable).Reachable r' →
      freePages r.buddy = freePages r'.buddy → ∀ z k,
        (∀ i, i ∈ (r.buddy.areas z k).freeList ↔ i ∈ (r'.buddy.areas z k).freeList) ∧
          (r.buddy.areas z k).nrFree = (r'.buddy.areas z k).nrFree) :=
  buddy_coalescing_canonical (by decide) (pageDescriptorInit_tableInit _ _)

end Kfs.Memory
