import Kfs.Memory.BuddyRuns

/-!
# Frees that `buddy_free_block` refuses

`buddy_free_block` tells a live block from everything else by the state bits of the page and by
`private_data`, which is an order on the first page of a block and `PAGE_MAGIC` on the others.

## Layers

- `buddyFreeBlockHalt` is `buddy_free_block` with the state that a stopped call leaves;
  `buddyFreeBlockHalt_stop` ties it to `buddyFreeBlock`.
- `Guarded` says that only the first pages of live blocks carry the marks of a block; every call of
  a run keeps it.
- `buddy_free_detects` puts the two together.
-/

namespace Kfs.Memory

open Kfs.Lib Kfs.Lib.Word32 Kfs.Lib.Dyadic

/-! ## The state in which a call stops -/

/-- A stop, with the allocator state it leaves. -/
structure Halt where
  stop : Stop
  state : BuddyState

/-- A computation that, if it stops, stops in the state `s`. -/
def haltIn {α : Type} (s : BuddyState) (x : Kern α) : Except Halt α :=
  x.mapError fun e => ⟨e, s⟩

/-- The state after `set_block_metadata` and before `buddy_list_add_head` of `linkFreeBlock`. -/
def linkFreeBlockHalt (firstPage order : ℕ) (zone : Zone) (s : BuddyState) :
    Except Halt BuddyState := do
  let s := setBlockMetadata firstPage order pageStateFree s
  let s ← haltIn s (buddyListAddHead firstPage order zone s)
  .ok (incNrFree order zone s)

/-- The loop of `buddy_free_block`. -/
def mergeBuddiesHalt (zone : Option Zone) :
    ℕ → ℕ → ℕ → BuddyState → Except Halt (ℕ × ℕ × BuddyState)
  | 0, ptr, blockOrder, s => .ok (ptr, blockOrder, s)
  | n + 1, ptr, blockOrder, s =>
    if blockOrder < maxOrder then do
      match ← haltIn s (getBuddyPage ptr blockOrder zone s), zone with
      | none, _ => .ok (ptr, blockOrder, s)
      | some _, none => .error ⟨.fault, s⟩
      | some buddyPage, some z => do
        let s ← haltIn s (popNode buddyPage s)
        let s := decNrFree blockOrder z s
        mergeBuddiesHalt zone n (min ptr (pageToPhys buddyPage)) (blockOrder + 1) s
    else .ok (ptr, blockOrder, s)

/-- `buddy_free_block`. -/
def buddyFreeBlockHalt (ptr : ℕ) (s : BuddyState) : Except Halt BuddyState := do
  let page := s.pages (pageAddrToPage ptr)
  let blockOrder := page.privateData
  let currentState := pageGetState page
  if currentState = pageStateFree then
    throw ⟨.kpanic "Double free detected on address %p\n", s⟩
  else if currentState ≠ pageStateAllocated ∧ currentState ≠ pageStateAvailable then
    throw ⟨.kpanic "Attempt to free a page with invalid state (%d) at %p\n", s⟩
  else if !orderIsValid blockOrder then
    throw ⟨.kpanic "Incorrect block order: %x\n", s⟩
  let zone := pageZoneFlagsToZoneType (pageGetZone page)
  let (ptr, blockOrder, s) ← mergeBuddiesHalt zone maxOrder ptr blockOrder s
  match zone with
  | none => throw ⟨.fault, s⟩ -- INVALID_ZONE is past the end of `buddy`
  | some z => linkFreeBlockHalt (pageAddrToPage ptr) blockOrder z s

section Erasure

variable {s : BuddyState}

@[simp] theorem mapError_haltIn {α : Type} (x : Kern α) :
    (haltIn s x).mapError Halt.stop = x := by
  cases x <;> rfl

@[simp] theorem mapError_ok {α : Type} (a : α) :
    (Except.ok a : Except Halt α).mapError Halt.stop = .ok a := rfl

@[simp] theorem mapError_error {α : Type} (h : Halt) :
    (Except.error h : Except Halt α).mapError Halt.stop = .error h.stop := rfl

/-- Forgetting the state commutes with sequencing. -/
theorem mapError_bind {α β : Type} (x : Except Halt α) (f : α → Except Halt β) :
    (x >>= f).mapError Halt.stop =
      x.mapError Halt.stop >>= fun a => (f a).mapError Halt.stop := by
  cases x <;> rfl

theorem linkFreeBlockHalt_stop (firstPage order : ℕ) (zone : Zone) :
    (linkFreeBlockHalt firstPage order zone s).mapError Halt.stop =
      linkFreeBlock firstPage order zone s := by
  simp [linkFreeBlockHalt, linkFreeBlock, mapError_bind]

theorem mergeBuddiesHalt_stop (zone : Option Zone) : ∀ (n ptr blockOrder : ℕ) (s : BuddyState),
    (mergeBuddiesHalt zone n ptr blockOrder s).mapError Halt.stop =
      mergeBuddies zone n ptr blockOrder s := by
  intro n
  induction n with
  | zero => exact fun _ _ _ => rfl
  | succ n ih =>
    intro ptr blockOrder s
    unfold mergeBuddiesHalt mergeBuddies
    by_cases hlt : blockOrder < maxOrder
    · simp only [hlt, if_true, mapError_bind, mapError_haltIn]
      -- the two turns agree on what `get_buddy_page` finds
      congr 1
      funext found
      cases found with
      | none => rfl
      | some buddyPage =>
        cases zone with
        | none => rfl
        | some z => simp [mapError_bind, ih]
    · simp [hlt]

/-- The stops of `buddyFreeBlockHalt` are those of `buddyFreeBlock`. -/
theorem buddyFreeBlockHalt_stop (ptr : ℕ) :
    (buddyFreeBlockHalt ptr s).mapError Halt.stop = buddyFreeBlock ptr s := by
  unfold buddyFreeBlockHalt buddyFreeBlock
  simp only [throw, throwThe, MonadExceptOf.throw]
  split
  · rfl
  · split
    · rfl
    · split
      · rfl
      · simp only [mapError_bind, mergeBuddiesHalt_stop]
        congr 1
        funext r
        cases pageZoneFlagsToZoneType (pageGetZone (s.pages (pageAddrToPage ptr))) with
        | none => rfl
        | some z => exact linkFreeBlockHalt_stop _ _ z

end Erasure

/-! ## The marks of a block -/

/-- `buddy_free_block` refuses a page with these marks. -/
def Refused (page : Page) : Prop :=
  pageGetState page = pageStateFree ∨
    (pageGetState page ≠ pageStateAllocated ∧ pageGetState page ≠ pageStateAvailable) ∨
    orderIsValid page.privateData = false

/-- A page that is neither in the free set nor the first page of a live block is no block of the
allocator, or it lies inside of one. -/
def Guarded (A : Set ℕ) (r : BuddyRun) : Prop :=
  ∀ j < maxPages, j ∉ A \ livePages r.live → (∀ b ∈ r.live, pageAddrToPage b.1 ≠ j) →
    Refused (r.buddy.pages j)

section Marks

variable {A F : Set ℕ} {r r' : BuddyRun} {s : BuddyState}

/-- `PAGE_MAGIC` is not an order. -/
theorem refused_of_magic {page : Page} (h : page.privateData = pageMagic) : Refused page := by
  right; right
  rw [h]
  decide

/-- The pages of the free set are refused. -/
theorem FreeInv.refused {H : Set ℕ} (hinv : FreeInv s F H) {j : ℕ} (hj : j ∈ F) :
    Refused (s.pages j) := by
  obtain ⟨i, k, hb, hmem⟩ := (hinv.tiling.cover j).mp hj
  left
  by_cases hji : j = i
  · rw [hji]
    exact (hinv.head hb).1
  · exact (hinv.tail hb hmem hji).1

/-- A refused page ends the call before anything is written. -/
theorem buddyFreeBlockHalt_refused {ptr : ℕ} (h : Refused (s.pages (pageAddrToPage ptr))) :
    ∃ fmt, buddyFreeBlockHalt ptr s = .error ⟨.kpanic fmt, s⟩ := by
  unfold buddyFreeBlockHalt
  simp only [throw, throwThe, MonadExceptOf.throw]
  split
  · exact ⟨_, rfl⟩
  · split
    · exact ⟨_, rfl⟩
    · split
      · exact ⟨_, rfl⟩
      · -- the three tests have all passed
        rcases h with hfree | hstate | horder
        · contradiction
        · contradiction
        · simp_all

/-- An allocation marks the block it hands out and nothing else outside the free set. -/
theorem Guarded.alloc (hg : Guarded A r) {size p c : ℕ} {z : Zone}
    (hp : p < maxPages)
    (ha : Allocated r.buddy s (A \ livePages r.live) z (sizeToOrder size) p c) :
    Guarded A { buddy := s, live := (pageToPhys p, sizeToOrder size) :: r.live } := by
  intro j hj hout hhead
  have hpage : pageAddrToPage (pageToPhys p) = p := pageAddrToPage_pageToPhys hp
  have hnew : liveBlock (pageToPhys p, sizeToOrder size) = block p (sizeToOrder size) := by
    unfold liveBlock
    rw [hpage]
  have hjp : j ≠ p := by
    have hne := hhead _ List.mem_cons_self
    simp only [hpage] at hne
    exact hne.symm
  by_cases hblock : j ∈ block p (sizeToOrder size)
  · exact refused_of_magic (ha.tailPages j hblock hjp).2
  · -- a page outside the new block was outside the free set before
    have hF : j ∉ A \ livePages r.live := by
      intro hF
      apply hout
      simp only [livePages_cons, hnew, Set.mem_sdiff, Set.mem_union, not_or]
      exact ⟨hF.1, hblock, hF.2⟩
    rw [ha.frame j fun hmem => hF (ha.popped_subset hmem)]
    exact hg j hj hF fun b hb => hhead b (List.mem_cons_of_mem _ hb)

/-- What a free leaves outside the free set is as before. -/
theorem RunInv.free_pages (h : RunInv A r) {b : ℕ × ℕ} (hb : b ∈ r.live)
    (hrun : buddyFreeBlock b.1 r.buddy = .ok s) :
    ∀ j ∉ A \ livePages (r.live.erase b), s.pages j = r.buddy.pages j := by
  have hl := h.live b hb
  have hptr : b.1 < 2 ^ 32 := by
    rw [hl.addr]
    exact pageToPhys_lt _
  have hdis : Disjoint (block (pageAddrToPage b.1) b.2) (A \ livePages r.live) := by
    rw [Set.disjoint_left]
    intro j hj hjF
    exact hjF.2 ⟨b, hb, hj⟩
  obtain ⟨s', -, -, hrun', -, hframe, -⟩ :=
    buddyFreeBlock_spec h.free hptr (pageAddrToPage_eq hptr).symm hl.aligned hl.order_le hl.inTable
      hdis (Or.inl hl.state) hl.order
  obtain rfl : s' = s := Except.ok.inj (hrun'.symm.trans hrun)
  intro j hj
  have hset : A \ livePages (r.live.erase b) = A \ livePages r.live ∪ liveBlock b := by
    rw [livePages_erase hb h.disjoint]
    ext i
    have hsub := @hl.subset i
    have hlive := @liveBlock_subset_livePages _ _ hb i
    simp only [Set.mem_union, Set.mem_sdiff]
    tauto
  rw [hset, Set.mem_union, not_or] at hj
  exact hframe j hj.1 hj.2

/-- A free gives all pages of its block to the free set. -/
theorem Guarded.free (hg : Guarded A r) (h : RunInv A r) {b : ℕ × ℕ} (hb : b ∈ r.live)
    (hrun : buddyFreeBlock b.1 r.buddy = .ok s) :
    Guarded A { buddy := s, live := r.live.erase b } := by
  intro j hj hout hhead
  have hpages := livePages_erase hb h.disjoint
  rw [h.free_pages hb hrun j hout]
  apply hg j hj
  · -- the free set has grown
    intro hF
    apply hout
    simp only [hpages]
    exact ⟨hF.1, fun hmem => hF.2 hmem.1⟩
  · intro b' hb' heq
    by_cases hbb : b' = b
    · -- the first page of the block is free now
      subst hbb
      apply hout
      have hmem : j ∈ liveBlock b' := heq ▸ self_mem_block _ _
      simp only [hpages]
      exact ⟨(h.live b' hb).subset hmem, fun hc => hc.2 hmem⟩
    · exact hhead b' ((List.mem_erase_of_ne hbb).mpr hb') heq

/-- Every call keeps the marks. -/
theorem Guarded.step (hg : Guarded A r) (h : RunInv A r) {call : BuddyCall}
    (hs : buddyStep r call r') : Guarded A r' := by
  cases call with
  | alloc size zone =>
    obtain ⟨ptr, s, hrun, rfl⟩ := hs
    rcases buddyAllocPages_cases h.free size zone with
      ⟨hnull, -⟩ | ⟨p, c, s', halloc, ha⟩ | ⟨-, e, herr⟩
    · rw [hnull] at hrun
      obtain ⟨rfl, rfl⟩ := Prod.mk.inj (Except.ok.inj hrun)
      exact hg
    · rw [halloc] at hrun
      obtain ⟨rfl, rfl⟩ := Prod.mk.inj (Except.ok.inj hrun)
      have hp : p < maxPages := h.free.inTable p (ha.subset (self_mem_block p _))
      have hne : pageToPhys p ≠ 0 := by
        have hp0 := ha.ne_zero
        rw [pageToPhys_eq hp]
        omega
      simp only [hne, if_false]
      exact hg.alloc hp ha
    · rw [herr] at hrun
      cases hrun
  | free ptr =>
    obtain ⟨k, s, hmem, hrun, rfl⟩ := hs
    exact hg.free h hmem hrun

end Marks

/-! ## Every run -/

/-- The state before `buddy_init`: the table that `page_descriptor_init` has built. -/
def describedPages (freeZones resZones : Zone → List Region) (areas : Zone → ℕ → FreeArea) :
    BuddyState where
  pages := pageDescriptorInit freeZones resZones
  areas := areas

section Runs

variable {freeZones resZones : Zone → List Region} {areas : Zone → ℕ → FreeArea} {n : ℕ}

/-- Every state of every run is guarded. -/
theorem guarded_of_reachable (hn : n ≤ maxPages) {r : BuddyRun}
    (hr : (buddySystem n (describedPages freeZones resZones areas)).Reachable r) :
    RunInv (availablePages n (pageDescriptorInit freeZones resZones)) r ∧
      Guarded (availablePages n (pageDescriptorInit freeZones resZones)) r := by
  have htable := pageDescriptorInit_tableInit freeZones resZones
  apply hr.invariant (P := fun r => RunInv _ r ∧ Guarded _ r)
  · intro r₀ hinit
    refine ⟨runInv_of_reachable hn htable (.init hinit), fun j hj hout hhead => ?_⟩
    obtain ⟨hrun, hlive⟩ := hinit
    obtain ⟨s', hrun', -, -, hframe⟩ :=
      buddyInit_spec (s := describedPages freeZones resZones areas) htable hn
    obtain rfl : s' = r₀.buddy := Except.ok.inj (hrun'.symm.trans hrun)
    rw [hlive, livePages_nil, Set.sdiff_empty] at hout
    -- a page that is not available keeps the magic number of `page_descriptor_init`
    rw [hframe j hout]
    exact refused_of_magic rfl
  · intro r₁ call r₂ hinv hstep
    exact ⟨hinv.1.step hstep, hinv.2.step hinv.1 hstep⟩

/-- **Invalid frees are detected, and only they are.** In every state of every run from a table of
`page_descriptor_init`, `buddy_free_block` panics exactly on the addresses that do not lie in the
first page of a live block, and where it panics it has changed nothing. -/
theorem buddy_free_detects (hn : n ≤ maxPages) {r : BuddyRun}
    (hr : (buddySystem n (describedPages freeZones resZones areas)).Reachable r) {a : ℕ}
    (ha : a < 2 ^ 32) :
    ((∃ fmt s, buddyFreeBlockHalt a r.buddy = .error ⟨.kpanic fmt, s⟩) ↔
      ∀ b ∈ r.live, a / pageSize ≠ b.1 / pageSize) ∧
    ∀ fmt s, buddyFreeBlockHalt a r.buddy = .error ⟨.kpanic fmt, s⟩ → s = r.buddy := by
  obtain ⟨hinv, hguard⟩ := guarded_of_reachable hn hr
  generalize availablePages n (pageDescriptorInit freeZones resZones) = A at hinv hguard
  have hpage : pageAddrToPage a = a / pageSize := pageAddrToPage_eq ha
  have hhead : ∀ b ∈ r.live, pageAddrToPage b.1 = b.1 / pageSize := by
    intro b hb
    apply pageAddrToPage_eq
    rw [(hinv.live b hb).addr]
    exact pageToPhys_lt _
  by_cases hlive : ∃ b ∈ r.live, a / pageSize = b.1 / pageSize
  · -- the first page of a live block: the call returns
    obtain ⟨b, hb, heq⟩ := hlive
    have hl := hinv.live b hb
    have hp : a / 4096 = pageAddrToPage b.1 := heq.trans (hhead b hb).symm
    have hdis : Disjoint (block (pageAddrToPage b.1) b.2) (A \ livePages r.live) := by
      rw [Set.disjoint_left]
      intro j hj hjF
      exact hjF.2 ⟨b, hb, hj⟩
    obtain ⟨s', -, -, hrun, -⟩ :=
      buddyFreeBlock_spec hinv.free ha hp hl.aligned hl.order_le hl.inTable hdis (Or.inl hl.state)
        hl.order
    have hstop := buddyFreeBlockHalt_stop (s := r.buddy) a
    rw [hrun] at hstop
    have hok : ∀ h, buddyFreeBlockHalt a r.buddy ≠ .error h := by
      intro h herr
      rw [herr] at hstop
      cases hstop
    constructor
    · exact iff_of_false (fun ⟨fmt, s, herr⟩ => hok _ herr) fun hall => hall b hb heq
    · exact fun fmt s herr => absurd herr (hok _)
  · -- any other page: one of the three tests fails
    have hnone : ∀ b ∈ r.live, a / pageSize ≠ b.1 / pageSize := by
      intro b hb heq
      exact hlive ⟨b, hb, heq⟩
    have hlt : a / pageSize < maxPages := by
      unfold pageSize maxPages
      omega
    have hrefused : Refused (r.buddy.pages (pageAddrToPage a)) := by
      rw [hpage]
      by_cases hF : a / pageSize ∈ A \ livePages r.live
      · exact hinv.free.refused hF
      · apply hguard _ hlt hF
        intro b hb heq
        exact hnone b hb (heq.symm.trans (hhead b hb))
    obtain ⟨fmt, hpanic⟩ := buddyFreeBlockHalt_refused hrefused
    refine ⟨iff_of_true ⟨fmt, r.buddy, hpanic⟩ hnone, fun fmt' s herr => ?_⟩
    rw [hpanic] at herr
    exact (Halt.mk.inj (Except.error.inj herr)).2.symm

end Runs

/-- One page of the block of the small machine is live and the other one is free: `buddy_free_block`
takes the first one, anywhere inside it, and refuses its buddy. -/
theorem buddy_free_detects_twoPageTable :
    ∃ r, (buddySystem 0x1002 twoPageTable).Reachable r ∧ r.live = [(0x1000000, 0)] ∧
      (¬ ∃ fmt s, buddyFreeBlockHalt 0x1000123 r.buddy = .error ⟨.kpanic fmt, s⟩) ∧
      ∃ fmt s, buddyFreeBlockHalt 0x1001000 r.buddy = .error ⟨.kpanic fmt, s⟩ ∧ s = r.buddy := by
  have hready : ((buddyInit 0x1002 twoPageTable).toOption.bind fun s₀ =>
      ((buddyAllocPages 1 .lowmem s₀).toOption).map Prod.fst) = some 0x1000000 := by
    rw [buddyInit_twoPageTable]
    decide +kernel
  obtain ⟨s₀, hs₀, hready⟩ := Option.bind_eq_some_iff.mp hready
  obtain ⟨⟨p, s'⟩, hs', rfl⟩ := Option.map_eq_some_iff.mp hready
  have hinit : (buddySystem 0x1002 twoPageTable).Reachable { buddy := s₀, live := [] } :=
    .init ⟨eq_ok_of_toOption hs₀, rfl⟩
  -- the allocation splits the block of two pages
  have hreach : (buddySystem 0x1002 twoPageTable).Reachable
      { buddy := s', live := [(0x1000000, 0)] } := by
    refine .step (a := .alloc 1 .lowmem) hinit ⟨0x1000000, s', eq_ok_of_toOption hs', ?_⟩
    rw [if_neg (by decide), show sizeToOrder 1 = 0 by decide +kernel]
  have hlive := buddy_free_detects (a := 0x1000123) (by decide) hreach (by decide)
  have hbuddy := buddy_free_detects (a := 0x1001000) (by decide) hreach (by decide)
  refine ⟨_, hreach, rfl, fun hpanic => ?_, ?_⟩
  · exact hlive.1.mp hpanic (0x1000000, 0) List.mem_cons_self (by decide)
  · have hother : ∀ b ∈ [((0x1000000 : ℕ), (0 : ℕ))], 0x1001000 / pageSize ≠ b.1 / pageSize := by
      decide
    obtain ⟨fmt, s, hpanic⟩ := hbuddy.1.mpr hother
    exact ⟨fmt, s, hpanic, hbuddy.2 fmt s hpanic⟩

end Kfs.Memory
