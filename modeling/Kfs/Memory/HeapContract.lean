import Kfs.Memory.KmallocRuns
import Kfs.Memory.PageLog

/-!
# The kernel heap keeps the contract

`kmalloc` and `kfree` take pages from the buddy allocator that other code uses too. `heapKernel` is
the two of them on one state, with the blocks that the other code has taken. Its pages are lawful
for the other code, and the heap keeps to its own: it keeps `KernelAlloc.Contract`, up to the first
`kmalloc` that has to reclaim an empty slab. `slab_shrink_caches` leaves such a slab on its list
after its page is gone (`kmalloc_overlap_dmaTable`), so that from there on the heap keeps to
nothing; a `kmalloc` that lacks the page for a header panics and is no call that returns.
-/

namespace Kfs.Memory

open Kfs.Lib Kfs.Lib.Word32 Kfs.Lib.Dyadic

/-- The allocators, the live pointers and the blocks that other code holds, each as its first page
and its order. -/
structure HeapRun extends KRun where
  users : List (ℕ × ℕ)

/-- The other code has taken the block of order `k` at page `p`. -/
def HeapRun.take (r : HeapRun) (buddy : BuddyState) (p k : ℕ) : HeapRun :=
  { r with state := { r.state with buddy := buddy }, users := (p, k) :: r.users }

/-- The other code has given the block at page `p` back. -/
def HeapRun.give (r : HeapRun) (buddy : BuddyState) (p : ℕ) : HeapRun :=
  { r with state := { r.state with buddy := buddy }, users := r.users.filter (·.1 ≠ p) }

/-- `buddy_alloc_pages`, `buddy_free_block`, `kmalloc` and `kfree` on one state. A `kmalloc` that has
to reclaim an empty slab is no call of it. -/
def heapKernel : KernelAlloc HeapRun where
  buddyAllocPages size zone r := do
    let (ptr, buddy) ← buddyAllocPages size zone r.state.buddy
    if ptr = 0 then .ok (0, { r with state := { r.state with buddy := buddy } })
    else .ok (ptr, r.take buddy (pageAddrToPage ptr) (sizeToOrder size))
  buddyFreeBlock ptr r := do
    let buddy ← buddyFreeBlock ptr r.state.buddy
    .ok (r.give buddy (pageAddrToPage ptr))
  kmalloc size flags r :=
    if ReclaimsNothing r.toKRun (.kmalloc size flags) then do
      let (ptr, s) ← Memory.kmalloc size flags r.state
      .ok (ptr, { r with state := s, live := addLive ptr size r.live })
    else .error .corrupted
  kfree ptr r := do
    let s ← Memory.kfree ptr r.state
    .ok { r with state := s, live := (r.live.find? (·.1 == ptr)).elim r.live r.live.erase }

/-- The pages of the blocks that other code holds. -/
def userPages (users : List (ℕ × ℕ)) : Set ℕ := { j | ∃ b ∈ users, j ∈ block b.1 b.2 }

/-- The heap and the other code share the pages `A` of the buddy allocator. -/
structure HeapRun.Shares (A : Set ℕ) (r : HeapRun) (F S L : Set ℕ) (κ : ℕ → Fill) : Prop where
  heap : HeapInv r.state r.live F S L κ
  within : heapPages r.live F S ⊆ A
  held : ∀ b ∈ r.users, HeldBlock r.state b.1 b.2 ∧ block b.1 b.2 ⊆ A ∧
    Disjoint (block b.1 b.2) (heapPages r.live F S)
  apart : r.users.Pairwise fun b c => Disjoint (block b.1 b.2) (block c.1 c.2)

/-- The view of the other code: of the pages `A` those are free that it does not hold. -/
def heapView (A : Set ℕ) : PageAlloc.View HeapRun where
  Inv r := ∃ F S L κ, r.Shares A F S L κ
  free r := A \ userPages r.users
  live r := { b | b ∈ r.users }

/-- The live pointers. -/
def heapObjs (r : HeapRun) : Set ℕ := { ptr | ∃ size, (ptr, size) ∈ r.live }

/-- A live pointer whose pages come from the buddy allocator. -/
def heapLarge (r : HeapRun) (ptr : ℕ) : Prop := ∃ size, (ptr, size) ∈ r.live ∧ maxSlabSize < size

/-- `NULL`, or a pointer into a page that reads `FREE`. -/
def heapSpent (r : HeapRun) (ptr : ℕ) : Prop :=
  ptr = 0 ∨ pageGetState (r.state.buddy.pages (pageAddrToPage (virtToPhysLinear ptr))) = pageStateFree

section Shares

variable {A : Set ℕ} {r r' : HeapRun} {F F' S S' L L' : Set ℕ} {κ κ' : ℕ → Fill} {p k : ℕ}

/-! ## The blocks of the other code -/

/-- A block depends on the descriptor of its first page. -/
theorem HeldBlock.congr {s s' : KState} (h : HeldBlock s p k)
    (hpage : s'.buddy.pages p = s.buddy.pages p) : HeldBlock s' p k :=
  { h with
    state := by rw [hpage]; exact h.state
    order := by rw [hpage]; exact h.order }

theorem HeapRun.Shares.disjoint (h : r.Shares A F S L κ) {b c : ℕ × ℕ} (hb : b ∈ r.users)
    (hc : c ∈ r.users) (hne : b ≠ c) : Disjoint (block b.1 b.2) (block c.1 c.2) := by
  have hsymm : Std.Symm fun b c : ℕ × ℕ => Disjoint (block b.1 b.2) (block c.1 c.2) :=
    ⟨fun _ _ hdis => hdis.symm⟩
  exact h.apart.forall hb hc hne

/-- The first page of a block names the block. -/
theorem HeapRun.Shares.mem_filter (h : r.Shares A F S L κ) {b : ℕ × ℕ} (hb : b ∈ r.users)
    {c : ℕ × ℕ} : c ∈ r.users.filter (·.1 ≠ b.1) ↔ c ∈ r.users ∧ c ≠ b := by
  rw [List.mem_filter, decide_eq_true_eq]
  refine and_congr_right fun hc => ⟨fun hne heq => hne (by rw [heq]), fun hne heq => ?_⟩
  exact Set.disjoint_left.mp (h.disjoint hc hb hne) (self_mem_block _ _)
    (heq ▸ self_mem_block _ _)

/-- A call of the heap keeps the blocks of the other code. -/
theorem HeapRun.Shares.of_heapCall (h : r.Shares A F S L κ) (husers : r'.users = r.users)
    (hinv : HeapInv r'.state r'.live F' S' L' κ')
    (hframe : HeapFrame r.state r.live F S r'.state r'.live F' S') : r'.Shares A F' S' L' κ' where
  heap := hinv
  within := hframe.sub.trans h.within
  held b hb := by
    obtain ⟨hheld, hin, hdis⟩ := h.held b (husers ▸ hb)
    exact ⟨hheld.congr (hframe.pages _ (Set.disjoint_left.mp hdis (self_mem_block _ _))), hin,
      hdis.mono_right hframe.sub⟩
  apart := by
    rw [husers]
    exact h.apart

/-- The other code takes a block. -/
theorem HeapRun.Shares.take (h : r.Shares A F S L κ) {zone : Zone} {c : ℕ} {b : BuddyState}
    (ha : Allocated r.state.buddy b F zone k p c) :
    (r.take b p k).Shares A (F \ block p k) S L κ := by
  obtain ⟨hinv, hheld, hframe⟩ := h.heap.takePages ha
  have hsub : block p k ⊆ heapPages r.live F S := fun j hj => Or.inl (Or.inl (ha.subset hj))
  refine ⟨hinv, hframe.sub.trans h.within, fun d hd => ?_, List.pairwise_cons.mpr
    ⟨fun d hd => ?_, h.apart⟩⟩
  · rcases List.mem_cons.mp hd with rfl | hd
    · refine ⟨hheld, hsub.trans h.within, ?_⟩
      refine Set.disjoint_union_right.mpr ⟨Set.disjoint_union_right.mpr
        ⟨Set.disjoint_sdiff_right, h.heap.inv.disjoint.mono_left ha.subset⟩, Set.disjoint_left.mpr ?_⟩
      rintro j hj ⟨a, hmem, hla, hja⟩
      exact Set.disjoint_left.mp (h.heap.large a hmem hla).notFree hja (ha.subset hj)
    · obtain ⟨hheld', hin, hdis⟩ := h.held d hd
      exact ⟨hheld'.congr (hframe.pages _ (Set.disjoint_left.mp hdis (self_mem_block _ _))), hin,
        hdis.mono_right hframe.sub⟩
  · exact ((h.held d hd).2.2.mono_right hsub).symm

/-- The other code gives a block back. -/
theorem HeapRun.Shares.give (h : r.Shares A F S L κ) (hb : (p, k) ∈ r.users) :
    ∃ b, buddyFreeBlock (p * 4096) r.state.buddy = .ok b ∧
      (r.give b p).Shares A (F ∪ block p k) S L κ := by
  obtain ⟨hheld, hin, hdis⟩ := h.held _ hb
  obtain ⟨b, hrun, hinv, hframe⟩ := h.heap.givePages hheld hdis
  have hpages : heapPages (r.give b p).live (F ∪ block p k) S = heapPages r.live F S ∪ block p k := by
    unfold heapPages HeapRun.give
    rw [Set.union_right_comm F, Set.union_right_comm]
  refine ⟨b, hrun, hinv, ?_, fun d hd => ?_, h.apart.filter _⟩
  · rw [hpages]
    exact Set.union_subset h.within hin
  · obtain ⟨hd, hne⟩ := (h.mem_filter hb).mp hd
    obtain ⟨hheld', hin', hdis'⟩ := h.held d hd
    have hblocks := h.disjoint hd hb hne
    refine ⟨hheld'.congr (hframe _ ?_ ?_), hin', ?_⟩
    · exact fun hF => Set.disjoint_left.mp hdis' (self_mem_block _ _) (Or.inl (Or.inl hF))
    · exact Set.disjoint_left.mp hblocks (self_mem_block _ _)
    · rw [hpages]
      exact Set.disjoint_union_right.mpr ⟨hdis', hblocks⟩

/-! ## The live pointers -/

/-- A live pointer is found with its size. -/
theorem HeapInv.find_live {s : KState} {live : List (ℕ × ℕ)} (h : HeapInv s live F S L κ) {a : ℕ × ℕ}
    (ha : a ∈ live) : live.find? (·.1 == a.1) = some a := by
  cases hfind : live.find? (·.1 == a.1) with
  | none => exact absurd (List.find?_eq_none.mp hfind a ha) (by simp)
  | some c =>
    have haddr : c.1 = a.1 := by simpa using List.find?_some hfind
    have hsymm : Std.Symm fun a b : ℕ × ℕ => a.1 ≠ b.1 := ⟨fun _ _ hne => hne.symm⟩
    have hc := List.mem_of_find?_eq_some hfind
    by_contra hne
    exact h.ptrs.forall hc ha (fun heq => hne (congrArg some heq)) haddr

theorem find_none_of_notMem {live : List (ℕ × ℕ)} {ptr : ℕ} (h : ∀ size, (ptr, size) ∉ live) :
    live.find? (·.1 == ptr) = none := by
  rw [List.find?_eq_none]
  rintro ⟨x, size⟩ hmem heq
  obtain rfl : x = ptr := by simpa using heq
  exact h size hmem

end Shares

/-! ## The contract -/

section Contract

variable {A : Set ℕ} {r r' : HeapRun} {ptr : ℕ}

/-- **`buddy_alloc_pages`** beside the heap. -/
theorem heapKernel_alloc (h : (heapView A).Inv r) (size : ℕ) (zone : Zone) :
    heapKernel.buddyAllocPages size zone r = .ok (0, r) ∨
    ∃ p r', heapKernel.buddyAllocPages size zone r = .ok (p * 4096, r') ∧ r'.live = r.live ∧
      sizeToOrder size ≤ maxOrder ∧ PageAlloc.Taken (heapView A) r r' zone p (sizeToOrder size) := by
  obtain ⟨F, S, L, κ, hshares⟩ := h
  rcases buddyAllocPages_spec hshares.heap.inv.buddy hshares.heap.zero size zone with
    ⟨hnull, -⟩ | ⟨p, c, b, hrun, ha⟩
  · left
    simp only [heapKernel, hnull, ok_bind, if_true]
  · have hsub : block p (sizeToOrder size) ⊆ heapPages r.live F S := fun j hj =>
      Or.inl (Or.inl (ha.subset hj))
    have hp : p < maxPages := hshares.heap.inv.buddy.inTable p (ha.subset (self_mem_block p _))
    have hlt : p * 4096 < 2 ^ 32 := by
      unfold maxPages at hp
      omega
    have hne : p * 4096 ≠ 0 := by
      have := ha.ne_zero
      omega
    refine Or.inr ⟨p, r.take b p (sizeToOrder size), ?_, rfl, ha.order_le, {
      inv := ⟨_, _, _, _, hshares.take ha⟩
      ne_zero := ha.ne_zero
      inTable := fun j hj => hshares.heap.inv.buddy.inTable j (ha.subset hj)
      zone := fun j hj => (zoneOfPage_eq_of_mem ha.aligned ha.order_le hj).trans ha.zone
      subset := fun j hj => ⟨hshares.within (hsub hj), ?_⟩
      free := ?_
      live := ?_ }⟩
    · simp only [heapKernel, hrun, ok_bind, pageToPhys_eq hp, hne, if_false, pageAddrToPage_eq hlt]
      rw [Nat.mul_div_cancel p (by norm_num)]
    · rintro ⟨d, hd, hjd⟩
      exact Set.disjoint_left.mp (hshares.held d hd).2.2 hjd (hsub hj)
    · ext j
      simp only [heapView, userPages, HeapRun.take, List.mem_cons, Set.mem_sdiff, Set.mem_ofPred_eq,
        exists_eq_or_imp, not_or]
      tauto
    · ext ⟨q, l⟩
      simp [heapView, HeapRun.take]

/-- **`buddy_free_block`** of a block of the other code. -/
theorem heapKernel_free (h : (heapView A).Inv r) {p k : ℕ} (hb : (p, k) ∈ r.users) :
    ∃ r', heapKernel.buddyFreeBlock (p * 4096) r = .ok r' ∧ r'.live = r.live ∧
      PageAlloc.Returned (heapView A) r r' p k := by
  obtain ⟨F, S, L, κ, hshares⟩ := h
  obtain ⟨hheld, hin, -⟩ := hshares.held _ hb
  have hpage : pageAddrToPage (p * 4096) = p := by
    have hp := hheld.inTable
    unfold maxPages at hp
    rw [pageAddrToPage_eq (by omega), Nat.mul_div_cancel p (by norm_num)]
  obtain ⟨b, hrun, hgiven⟩ := hshares.give hb
  refine ⟨r.give b p, by simp only [heapKernel, hrun, ok_bind, hpage], rfl, {
    inv := ⟨_, _, _, _, hgiven⟩
    free := ?_
    live := ?_ }⟩
  · ext j
    simp only [heapView, userPages, HeapRun.give, Set.mem_sdiff, Set.mem_union, Set.mem_ofPred_eq]
    constructor
    · rintro ⟨hjA, hnot⟩
      by_cases hj : j ∈ block p k
      · exact Or.inr hj
      · refine Or.inl ⟨hjA, ?_⟩
        rintro ⟨d, hd, hjd⟩
        refine hnot ⟨d, (hshares.mem_filter hb).mpr ⟨hd, ?_⟩, hjd⟩
        rintro rfl
        exact hj hjd
    · rintro (⟨hjA, hnot⟩ | hj)
      · exact ⟨hjA, fun ⟨d, hd, hjd⟩ => hnot ⟨d, ((hshares.mem_filter hb).mp hd).1, hjd⟩⟩
      · refine ⟨hin hj, ?_⟩
        rintro ⟨d, hd, hjd⟩
        obtain ⟨hd, hne⟩ := (hshares.mem_filter hb).mp hd
        exact Set.disjoint_left.mp (hshares.disjoint hd hb hne) hjd hj
  · ext c
    exact hshares.mem_filter hb

/-- **`kmalloc`** beside the other code: it holds what it held, and a pointer that is returned is
new. -/
theorem heapKernel_kmalloc (h : (heapView A).Inv r) {size flags : ℕ}
    (hrun : heapKernel.kmalloc size flags r = .ok (ptr, r')) : (heapView A).Inv r' ∧
      r'.users = r.users ∧ r'.live = addLive ptr size r.live ∧ (ptr ≠ 0 → ptr ∉ heapObjs r) := by
  obtain ⟨F, S, L, κ, hshares⟩ := h
  simp only [heapKernel] at hrun
  split at hrun
  swap
  · cases hrun
  next hcond =>
  obtain ⟨⟨x, s⟩, hcall, hrun⟩ := bind_eq_ok.mp hrun
  obtain ⟨rfl, rfl⟩ := Prod.mk.inj (Except.ok.inj hrun)
  rcases hshares.heap.kmalloc_spec size flags hcond with
    ⟨x', s', F', S', L', κ', hok, hne, hinv, hframe⟩ | hnull | ⟨-, hstop⟩
  · obtain ⟨rfl, rfl⟩ := Prod.mk.inj (Except.ok.inj (hcall.symm.trans hok))
    have hlive : addLive x size r.live = (x, size) :: r.live := if_neg hne
    refine ⟨⟨F', S', L', κ', hshares.of_heapCall rfl ?_ ?_⟩, rfl, rfl, ?_⟩
    · dsimp only
      rw [hlive]
      exact hinv
    · dsimp only
      rw [hlive]
      exact hframe
    · rintro - ⟨size', hmem⟩
      exact (List.pairwise_cons.mp hinv.ptrs).1 _ hmem rfl
  · obtain ⟨rfl, rfl⟩ := Prod.mk.inj (Except.ok.inj (hcall.symm.trans hnull))
    exact ⟨⟨F, S, L, κ, hshares⟩, rfl, rfl, fun hne => absurd rfl hne⟩
  · cases hcall.symm.trans hstop

/-- **`kfree`** of a live pointer beside the other code. -/
theorem heapKernel_kfree (h : (heapView A).Inv r) {size : ℕ} (hmem : (ptr, size) ∈ r.live)
    (hrun : heapKernel.kfree ptr r = .ok r') : (heapView A).Inv r' ∧ r'.users = r.users ∧
      heapObjs r' = heapObjs r \ {ptr} ∧ (maxSlabSize < size → heapSpent r' ptr) := by
  obtain ⟨F, S, L, κ, hshares⟩ := h
  obtain ⟨s, F', L', κ', hok, hinv, hframe, hlarge⟩ := hshares.heap.kfree_spec hmem
  simp only [heapKernel, hok, ok_bind, hshares.heap.find_live hmem, Option.elim_some] at hrun
  obtain rfl := Except.ok.inj hrun
  refine ⟨⟨F', S, L', κ', hshares.of_heapCall rfl hinv hframe⟩, rfl, ?_, fun hsize => Or.inr ?_⟩
  · ext x
    simp only [heapObjs, Set.mem_ofPred_eq, Set.mem_sdiff, Set.mem_singleton_iff,
      mem_erase_of_ptrs hshares.heap.ptrs hmem, exists_and_right]
  · exact hinv.inv.buddy.state_of_mem (hlarge hsize (self_mem_block _ _))

/-- A page that reads `FREE` still does after a block has been given back. -/
theorem heapSpent_free (h : (heapView A).Inv r) (hspent : heapSpent r ptr) {p k : ℕ}
    (hb : (p, k) ∈ r.users) (hrun : heapKernel.buddyFreeBlock (p * 4096) r = .ok r') :
    heapSpent r' ptr := by
  obtain ⟨F, S, L, κ, hshares⟩ := h
  obtain ⟨b, hok, hgiven⟩ := hshares.give hb
  simp only [heapKernel, hok, ok_bind] at hrun
  obtain rfl := Except.ok.inj hrun
  refine hspent.imp_right fun hstate => ?_
  have hpage : pageAddrToPage (virtToPhysLinear ptr) < maxPages := by
    unfold virtToPhysLinear sub32
    rw [pageAddrToPage_eq (Nat.mod_lt _ (by norm_num))]
    unfold maxPages
    omega
  have hF : pageAddrToPage (virtToPhysLinear ptr) ∈ F := by
    by_contra hnot
    exact hshares.heap.inv.buddy.notFree _ hpage hnot (Set.notMem_empty _) hstate
  exact hgiven.heap.inv.buddy.state_of_mem (Or.inl hF)

/-- `kfree` does nothing with a pointer into a free page. -/
theorem heapKernel_kfree_spent (hspent : heapSpent r ptr) (hptr : ptr ∉ heapObjs r) :
    heapKernel.kfree ptr r = .ok r := by
  have hsame : kfree ptr r.state = .ok r.state := by
    unfold kfree
    rcases hspent with rfl | hstate
    · rw [if_pos rfl]
    · split
      · rfl
      · have hslab : ¬ pageStateFree = pageStateSlab := by decide
        have halloc : ¬ pageStateFree = pageStateAllocated := by decide
        simp only [hstate, hslab, halloc, if_false]
  have hfind : r.live.find? (·.1 == ptr) = none :=
    find_none_of_notMem fun size hmem => hptr ⟨size, hmem⟩
  simp only [heapKernel, hsame, ok_bind, hfind, Option.elim_none]

/-- The heap is lawful for its users and for the users of pages. -/
theorem heapKernel_lawful (A : Set ℕ) : heapKernel.Lawful (heapView A) heapObjs where
  pages O := {
    alloc := by
      rintro r ⟨hinv, hobjs⟩ size zone
      refine (heapKernel_alloc hinv size zone).imp_right ?_
      rintro ⟨p, r', hrun, hlive, -, ht⟩
      refine ⟨p, r', hrun, ⟨ht.inv, ?_⟩, ht.ne_zero, ht.inTable, ht.zone, ht.subset, ht.free, ht.live⟩
      unfold heapObjs at hobjs ⊢
      rw [hlive]
      exact hobjs
    release := by
      rintro r ⟨hinv, hobjs⟩ p k hb
      obtain ⟨r', hrun, hlive, hret⟩ := heapKernel_free hinv hb
      refine ⟨r', hrun, ⟨hret.inv, ?_⟩, hret.free, hret.live⟩
      unfold heapObjs at hobjs ⊢
      rw [hlive]
      exact hobjs
    notFree := fun {r} _ {p k} hb => Set.disjoint_left.mpr fun j hj hfree => hfree.2 ⟨(p, k), hb, hj⟩
    disjoint := by
      rintro r ⟨⟨F, S, L, κ, hshares⟩, -⟩ p k q l hb hc hne
      exact hshares.disjoint hb hc hne }
  kmalloc := by
    intro r hinv size flags ptr r' hrun
    obtain ⟨hinv', husers, hlive, hnew⟩ := heapKernel_kmalloc hinv hrun
    refine ⟨⟨hinv', ?_, ?_⟩, ?_⟩
    · simp only [heapView, husers]
    · simp only [heapView, husers]
    · unfold addLive at hlive
      split
      · next hnull =>
        rw [if_pos hnull] at hlive
        unfold heapObjs
        rw [hlive]
      · next hne =>
        rw [if_neg hne] at hlive
        refine ⟨hnew hne, ?_⟩
        ext x
        simp [heapObjs, hlive, exists_or]
  kfree := by
    rintro r hinv ptr ⟨size, hmem⟩ r' hrun
    obtain ⟨hinv', husers, hobjs, -⟩ := heapKernel_kfree hinv hmem hrun
    refine ⟨⟨hinv', ?_, ?_⟩, hobjs⟩
    · simp only [heapView, husers]
    · simp only [heapView, husers]

/-- **The kernel heap keeps the contract** as long as nothing has to be reclaimed. -/
theorem heapKernel_contract (A : Set ℕ) :
    heapKernel.Contract (heapView A) heapObjs heapLarge heapSpent where
  toLawful := heapKernel_lawful A
  order_lt := by
    intro r hinv size zone ptr r' hrun hne
    rcases heapKernel_alloc hinv size zone with hnull | ⟨p, r₁, hok, -, horder, -⟩
    · exact absurd (Prod.mk.inj (Except.ok.inj (hrun.symm.trans hnull))).1 hne
    · exact Nat.lt_succ_of_le horder
  kmalloc_large := by
    intro r hinv size flags ptr r' hsize hrun hne
    obtain ⟨-, -, hlive, -⟩ := heapKernel_kmalloc hinv hrun
    refine ⟨size, ?_, hsize⟩
    rw [hlive, addLive, if_neg hne]
    exact List.mem_cons_self
  alloc_large := by
    rintro r hinv ptr ⟨size, hmem, hsize⟩ size' zone p r' hrun
    refine ⟨size, ?_, hsize⟩
    rcases heapKernel_alloc hinv size' zone with hnull | ⟨q, r₁, hok, hlive, -⟩
    · rw [(Prod.mk.inj (Except.ok.inj (hrun.symm.trans hnull))).2]
      exact hmem
    · rw [(Prod.mk.inj (Except.ok.inj (hrun.symm.trans hok))).2, hlive]
      exact hmem
  free_large := by
    rintro r hinv ptr ⟨size, hmem, hsize⟩ p k hb r' hrun
    obtain ⟨r₁, hok, hlive, -⟩ := heapKernel_free hinv hb
    obtain rfl := Except.ok.inj (hrun.symm.trans hok)
    exact ⟨size, hlive ▸ hmem, hsize⟩
  kfree_large := by
    rintro r hinv ptr - ⟨size, hmem, hsize⟩ r' hrun
    exact (heapKernel_kfree hinv hmem hrun).2.2.2 hsize
  free_spent hinv _ hspent _ _ hb _ hrun := heapSpent_free hinv hspent hb hrun
  spent_zero _ := Or.inl rfl
  kfree_spent _ _ hspent hptr := heapKernel_kfree_spent hspent hptr

/-- A heap without objects that nobody else has taken a page from. -/
theorem HeapInv.view_inv {s : KState} {F : Set ℕ} {κ : ℕ → Fill} (h : HeapInv s [] F ∅ ∅ κ) :
    (heapView F).Inv { state := s, live := [], users := [] } := by
  refine ⟨F, ∅, ∅, κ, h, ?_, fun b hb => (nomatch hb), List.Pairwise.nil⟩
  rintro j ((hj | hj) | ⟨a, ha, -⟩)
  · exact hj
  · exact hj.elim
  · cases ha

/-- After the boot the heap has the pages that the table calls available. -/
theorem heapView_initial {n : ℕ} {t : BuddyState} (ht : BootTable n t) {r : KRun}
    (hr : KRun.Initial n t r) :
    (heapView (availablePages n t.pages)).Inv { toKRun := r, users := [] } := by
  have hinv := HeapInv.of_initial ht hr
  obtain ⟨state, live⟩ := r
  obtain rfl : live = [] := hr.1
  exact hinv.view_inv

end Contract

/-! ## A machine with two zones -/

/-- The buddy allocator of two zones after `slab_init`. -/
def twoZoneHeap : HeapRun where
  state := slabInit
    { buddy := twoZoneBuddy, caches := fun _ i => initCache i,
      slabs := fun _ => { parentCache := (.lowmem, 0), inuse := 0, freelist := 0 },
      mem := fun _ => 0 }
  live := []
  users := []

/-- Its pages. -/
def twoZonePages : Set ℕ := { j | inTwoZones j = true }

theorem twoZoneHeap_inv : (heapView twoZonePages).Inv twoZoneHeap := by
  refine HeapInv.view_inv (HeapInv.of_slabInit twoZoneBuddy_freeInv ?_ fun p _ hslab => ?_)
  · show ¬ inTwoZones 0 = true
    decide
  · have hstate := (twoZoneBuddy_flags p).1.symm.trans hslab
    split at hstate
    · exact absurd hstate (by decide)
    · exact absurd hstate (by decide)

end Kfs.Memory
