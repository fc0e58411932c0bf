import Kfs.Memory.KernelAlloc
import Kfs.Memory.Kmalloc

/-!
# The calls of the page allocator

The process code relies on a little more than `KernelAlloc.Lawful`: requests above the largest order
fail, and `kfree` does nothing with a large object that it has already taken back, as long as no
page has been handed out since. `KernelAlloc.Contract` adds this.

`KernelAlloc.logged` records the calls of `buddy_alloc_pages` and `buddy_free_block`. A call that
stops the kernel is recorded too, and the run goes on as if it had not been made: so the runs of a
logged kernel show every call that the code makes.
-/

namespace Kfs.Memory

open Kfs.Lib Kfs.Lib.Word32 Kfs.Lib.Dyadic

universe u

/-! ## The contract -/

/-- What the process code relies on. `Large` are the objects with pages of their own, `Spent` the
pointers whose page is free. -/
structure KernelAlloc.Contract {σ : Type u} (K : KernelAlloc σ) (V : PageAlloc.View σ)
    (objs : σ → Set ℕ) (Large Spent : σ → ℕ → Prop) : Prop extends K.Lawful V objs where
  order_lt : ∀ {a : σ}, V.Inv a → ∀ {size : ℕ} {zone : Zone} {ptr : ℕ} {a' : σ},
    K.buddyAllocPages size zone a = .ok (ptr, a') → ptr ≠ 0 → sizeToOrder size < badOrder
  kmalloc_large : ∀ {a : σ}, V.Inv a → ∀ {size flags ptr : ℕ} {a' : σ}, maxSlabSize < size →
    K.kmalloc size flags a = .ok (ptr, a') → ptr ≠ 0 → Large a' ptr
  alloc_large : ∀ {a : σ}, V.Inv a → ∀ {ptr : ℕ}, Large a ptr → ∀ {size : ℕ} {zone : Zone} {p : ℕ}
    {a' : σ}, K.buddyAllocPages size zone a = .ok (p, a') → Large a' ptr
  free_large : ∀ {a : σ}, V.Inv a → ∀ {ptr : ℕ}, Large a ptr → ∀ {p k : ℕ}, (p, k) ∈ V.live a →
    ∀ {a' : σ}, K.buddyFreeBlock (p * 4096) a = .ok a' → Large a' ptr
  kfree_large : ∀ {a : σ}, V.Inv a → ∀ {ptr : ℕ}, ptr ∈ objs a → Large a ptr → ∀ {a' : σ},
    K.kfree ptr a = .ok a' → Spent a' ptr
  free_spent : ∀ {a : σ}, V.Inv a → ∀ {ptr : ℕ}, Spent a ptr → ∀ {p k : ℕ}, (p, k) ∈ V.live a →
    ∀ {a' : σ}, K.buddyFreeBlock (p * 4096) a = .ok a' → Spent a' ptr
  spent_zero : ∀ a, Spent a 0
  kfree_spent : ∀ {a : σ}, V.Inv a → ∀ {ptr : ℕ}, Spent a ptr → ptr ∉ objs a →
    K.kfree ptr a = .ok a

/-- A block that is handed out holds the request. -/
theorem sizeToOrder_fits {size : ℕ} (h : sizeToOrder size < badOrder) :
    divRoundUp32 size pageSize ≤ 2 ^ sizeToOrder size :=
  (sizeToOrder_spec size (Nat.le_of_lt_succ h)).1

/-- The pages of a request of whole pages. -/
theorem sizeToOrder_pages {size : ℕ} (h : sizeToOrder size < badOrder) (hdvd : 4096 ∣ size)
    (hle : size ≤ 0xFFFFF000) : size / 4096 ≤ 2 ^ sizeToOrder size := by
  have hfits := sizeToOrder_fits h
  unfold pageSize at hfits
  rw [divRoundUp32_eq (by omega)] at hfits
  have hdiv : (size + (4096 - 1)) / 4096 = size / 4096 := by omega
  exact hdiv ▸ hfits

/-! ## Views with more in their invariant -/

/-- The view of the states that have a property besides. -/
def PageAlloc.View.and {σ : Type u} (V : PageAlloc.View σ) (P : σ → Prop) : PageAlloc.View σ :=
  { V with Inv := fun a => V.Inv a ∧ P a }

/-- An allocator keeps a property that its two calls keep. -/
theorem PageAlloc.Lawful.and {σ : Type u} {A : PageAlloc σ} {V : PageAlloc.View σ} (hA : A.Lawful V)
    {P : σ → Prop}
    (halloc : ∀ {a : σ}, V.Inv a → P a → ∀ {size zone ptr a'},
      A.buddyAllocPages size zone a = .ok (ptr, a') → P a')
    (hfree : ∀ {a : σ}, V.Inv a → P a → ∀ {p k : ℕ}, (p, k) ∈ V.live a → ∀ {a'},
      A.buddyFreeBlock (p * 4096) a = .ok a' → P a') : A.Lawful (V.and P) where
  alloc := by
    rintro a ⟨hinv, hP⟩ size zone
    rcases hA.alloc hinv size zone with hnull | ⟨p, a', hrun, ht⟩
    · exact Or.inl hnull
    · exact Or.inr ⟨p, a', hrun, ⟨ht.inv, halloc hinv hP hrun⟩, ht.ne_zero, ht.inTable, ht.zone,
        ht.subset, ht.free, ht.live⟩
  release := by
    rintro a ⟨hinv, hP⟩ p k hb
    obtain ⟨a', hrun, hret⟩ := hA.release hinv hb
    exact ⟨a', hrun, ⟨hret.inv, hfree hinv hP hb hrun⟩, hret.free, hret.live⟩
  notFree := fun h => hA.notFree h.1
  disjoint := fun h => hA.disjoint h.1

/-- The allocator that never hands a page out. -/
def PageAlloc.refusing {σ : Type u} (A : PageAlloc σ) : PageAlloc σ where
  buddyAllocPages _ _ a := .ok (0, a)
  buddyFreeBlock := A.buddyFreeBlock

/-- Code that only gives pages back keeps what the giving back keeps. -/
theorem PageAlloc.Lawful.refusing {σ : Type u} {A : PageAlloc σ} {V : PageAlloc.View σ}
    (hA : A.Lawful V) : A.refusing.Lawful V where
  alloc _ _ _ := Or.inl rfl
  release := hA.release
  notFree := hA.notFree
  disjoint := hA.disjoint

/-! ## The log -/

/-- A call of the page allocator. -/
inductive PageEvent where
  | alloc (ptr : ℕ)
  | free (ptr : ℕ)
  deriving DecidableEq, Repr

/-- No block is freed again unless it has been handed out in between; the last call comes first. -/
def NoDoubleFree (log : List PageEvent) : Prop :=
  ∀ after between before ptr,
    log = after ++ PageEvent.free ptr :: (between ++ PageEvent.free ptr :: before) →
      PageEvent.alloc ptr ∈ between

/-- The last call on the block was not a free. -/
def NotFreed (log : List PageEvent) (ptr : ℕ) : Prop :=
  ∀ after before, log = after ++ PageEvent.free ptr :: before → PageEvent.alloc ptr ∈ after

/-- A kernel that records its page allocations and frees. -/
def KernelAlloc.logged {σ : Type u} (K : KernelAlloc σ) : KernelAlloc (σ × List PageEvent) where
  buddyAllocPages size zone a := do
    let (ptr, b) ← K.buddyAllocPages size zone a.1
    .ok (ptr, (b, if ptr = 0 then a.2 else .alloc ptr :: a.2))
  buddyFreeBlock ptr a :=
    match K.buddyFreeBlock ptr a.1 with
    | .ok b => .ok (b, .free ptr :: a.2)
    | .error _ => .ok (a.1, .free ptr :: a.2)
  kmalloc size flags a := do
    let (ptr, b) ← K.kmalloc size flags a.1
    .ok (ptr, (b, a.2))
  kfree ptr a := do
    let b ← K.kfree ptr a.1
    .ok (b, a.2)

/-- What the log says of the blocks that are live. -/
structure LogInv (live : Set (ℕ × ℕ)) (log : List PageEvent) : Prop where
  once : NoDoubleFree log
  live : ∀ p k, (p, k) ∈ live → NotFreed log (p * 4096)

/-- The view of a logged kernel. -/
def loggedView {σ : Type u} (V : PageAlloc.View σ) : PageAlloc.View (σ × List PageEvent) where
  Inv a := V.Inv a.1 ∧ LogInv (V.live a.1) a.2
  free a := V.free a.1
  live a := V.live a.1

theorem NotFreed.cons {log : List PageEvent} {ptr : ℕ} (h : NotFreed log ptr) {e : PageEvent}
    (he : e ≠ .free ptr) : NotFreed (e :: log) ptr := by
  intro after before heq
  cases after with
  | nil => exact absurd (List.cons.inj heq).1 he
  | cons x after =>
    obtain ⟨rfl, hrest⟩ := List.cons.inj heq
    exact List.mem_cons_of_mem _ (h after before hrest)

theorem NoDoubleFree.cons {log : List PageEvent} (h : NoDoubleFree log) {e : PageEvent}
    (he : ∀ ptr, e = .free ptr → NotFreed log ptr) : NoDoubleFree (e :: log) := by
  intro after between before ptr heq
  cases after with
  | nil =>
    obtain ⟨rfl, hrest⟩ := List.cons.inj heq
    exact he ptr rfl between before hrest
  | cons x after =>
    obtain ⟨-, hrest⟩ := List.cons.inj heq
    exact h after between before ptr hrest

theorem LogInv.nil (live : Set (ℕ × ℕ)) : LogInv live [] where
  once after between before ptr heq := by
    have := congrArg List.length heq
    simp at this
  live p k _ after before heq := by
    have := congrArg List.length heq
    simp at this

/-- A block is handed out. -/
theorem LogInv.alloc {live : Set (ℕ × ℕ)} {log : List PageEvent} (h : LogInv live log) (p k : ℕ) :
    LogInv (insert (p, k) live) (.alloc (p * 4096) :: log) where
  once := h.once.cons fun ptr hc => (nomatch hc)
  live q l hq := by
    rcases hq with heq | hq
    · intro after before hlog
      obtain ⟨rfl, rfl⟩ := Prod.mk.inj heq
      cases after with
      | nil => exact absurd (List.cons.inj hlog).1 (fun hc => (nomatch hc))
      | cons x after =>
        rw [← (List.cons.inj hlog).1]
        exact List.mem_cons_self
    · exact (h.live q l hq).cons fun hc => (nomatch hc)

/-- A live block is freed. -/
theorem LogInv.free {live : Set (ℕ × ℕ)} {log : List PageEvent} (h : LogInv live log) {p k : ℕ}
    (hp : (p, k) ∈ live) (hother : ∀ q l, (q, l) ∈ live → (q, l) ≠ (p, k) → q ≠ p) :
    LogInv (live \ {(p, k)}) (.free (p * 4096) :: log) where
  once := h.once.cons fun ptr hc => by
    obtain rfl := PageEvent.free.inj hc
    exact h.live p k hp
  live q l hq := by
    refine (h.live q l hq.1).cons fun hc => hother q l hq.1 hq.2 ?_
    have := PageEvent.free.inj hc
    omega

section Logged

variable {σ : Type u} {K : KernelAlloc σ} {V : PageAlloc.View σ} {objs : σ → Set ℕ}
  {Large Spent : σ → ℕ → Prop}

/-- **A logged kernel is lawful**, and its log shows no double free. -/
theorem KernelAlloc.Lawful.logged (hK : K.Lawful V objs) :
    K.logged.Lawful (loggedView V) fun a => objs a.1 where
  pages O := {
    alloc := by
      rintro ⟨a, log⟩ ⟨⟨hinv, hlog⟩, hobjs⟩ size zone
      -- The event is written only when the allocator returned a block.
      rcases (hK.pages O).alloc ⟨hinv, hobjs⟩ size zone with hnull | ⟨p, a', hrun, ht⟩
      · left
        show (K.buddyAllocPages size zone a >>= _) = _
        rw [hnull, ok_bind]
        rfl
      · right
        have hne : p * 4096 ≠ 0 := by
          have := ht.ne_zero
          omega
        have hlive : V.live a' = insert (p, sizeToOrder size) (V.live a) := ht.live
        refine ⟨p, (a', .alloc (p * 4096) :: log), ?_, ⟨⟨ht.inv.1, ?_⟩, ht.inv.2⟩, ht.ne_zero,
          ht.inTable, ht.zone, ht.subset, ht.free, ht.live⟩
        · show (K.buddyAllocPages size zone a >>= _) = _
          rw [hrun, ok_bind]
          simp only [hne, if_false]
        · show LogInv (V.live a') _
          rw [hlive]
          exact hlog.alloc p _
    release := by
      rintro ⟨a, log⟩ ⟨⟨hinv, hlog⟩, hobjs⟩ p k hb
      obtain ⟨a', hrun, hret⟩ := (hK.pages O).release ⟨hinv, hobjs⟩ hb
      have hlive : V.live a' = V.live a \ {(p, k)} := hret.live
      refine ⟨(a', .free (p * 4096) :: log), ?_, ⟨⟨hret.inv.1, ?_⟩, hret.inv.2⟩, hret.free, hret.live⟩
      · simp only [KernelAlloc.logged, hrun]
      · show LogInv (V.live a') _
        rw [hlive]
        -- Of the live blocks only this one starts at `p`.
        refine hlog.free hb fun q l hq hne heq => ?_
        subst heq
        exact Set.disjoint_left.mp ((hK.pages O).disjoint ⟨hinv, hobjs⟩ hq hb hne)
          (self_mem_block q l) (self_mem_block q k)
    notFree := fun h => (hK.pages O).notFree ⟨h.1.1, h.2⟩
    disjoint := fun h => (hK.pages O).disjoint ⟨h.1.1, h.2⟩ }
  kmalloc := by
    rintro ⟨a, log⟩ ⟨hinv, hlog⟩ size flags ptr a' hrun
    have hrun : (K.kmalloc size flags a >>= fun r => Except.ok (r.1, (r.2, log))) = .ok (ptr, a') :=
      hrun
    rw [bind_eq_ok] at hrun
    -- The heap calls write no event and keep the live blocks.
    obtain ⟨⟨ptr', b⟩, hcall, hrun⟩ := hrun
    obtain ⟨rfl, rfl⟩ := Prod.mk.inj (Except.ok.inj hrun)
    obtain ⟨hheap, hptr⟩ := hK.kmalloc hinv hcall
    refine ⟨⟨⟨hheap.inv, ?_⟩, hheap.free, hheap.live⟩, hptr⟩
    show LogInv (V.live b) log
    rw [hheap.live]
    exact hlog
  kfree := by
    rintro ⟨a, log⟩ ⟨hinv, hlog⟩ ptr hptr a' hrun
    have hrun : (K.kfree ptr a >>= fun b => Except.ok (b, log)) = .ok a' := hrun
    rw [bind_eq_ok] at hrun
    obtain ⟨b, hcall, hrun⟩ := hrun
    obtain rfl := Except.ok.inj hrun
    obtain ⟨hheap, hgone⟩ := hK.kfree hinv hptr hcall
    refine ⟨⟨⟨hheap.inv, ?_⟩, hheap.free, hheap.live⟩, hgone⟩
    show LogInv (V.live b) log
    rw [hheap.live]
    exact hlog

/-- What a logged allocation has done. -/
theorem KernelAlloc.logged_alloc {a a' : σ × List PageEvent} {size : ℕ} {zone : Zone} {ptr : ℕ}
    (h : K.logged.buddyAllocPages size zone a = .ok (ptr, a')) :
    K.buddyAllocPages size zone a.1 = .ok (ptr, a'.1) := by
  have h : (K.buddyAllocPages size zone a.1 >>= fun r =>
    Except.ok (r.1, (r.2, if r.1 = 0 then a.2 else PageEvent.alloc r.1 :: a.2))) = .ok (ptr, a') := h
  rw [bind_eq_ok] at h
  obtain ⟨⟨ptr', b⟩, hcall, h⟩ := h
  obtain ⟨rfl, rfl⟩ := Prod.mk.inj (Except.ok.inj h)
  exact hcall

/-- A logged free of a live block. -/
theorem KernelAlloc.Lawful.logged_free (hK : K.Lawful V objs) {a a' : σ × List PageEvent}
    (hinv : V.Inv a.1) {p k : ℕ} (hp : (p, k) ∈ V.live a.1)
    (h : K.logged.buddyFreeBlock (p * 4096) a = .ok a') :
    K.buddyFreeBlock (p * 4096) a.1 = .ok a'.1 := by
  obtain ⟨b, hrun, -⟩ := (hK.pages (objs a.1)).release ⟨hinv, rfl⟩ hp
  simp only [KernelAlloc.logged, hrun] at h
  obtain rfl := Except.ok.inj h
  exact hrun

/-- **A logged kernel keeps the contract.** -/
theorem KernelAlloc.Contract.logged (hK : K.Contract V objs Large Spent) :
    K.logged.Contract (loggedView V) (fun a => objs a.1) (fun a => Large a.1) fun a => Spent a.1 where
  toLawful := hK.toLawful.logged
  order_lt hinv _ _ _ _ hrun := hK.order_lt hinv.1 (K.logged_alloc hrun)
  kmalloc_large := by
    rintro ⟨a, log⟩ hinv size flags ptr a' hsize hrun
    have hrun : (K.kmalloc size flags a >>= fun r => Except.ok (r.1, (r.2, log))) = .ok (ptr, a') :=
      hrun
    rw [bind_eq_ok] at hrun
    obtain ⟨⟨ptr', b⟩, hcall, hrun⟩ := hrun
    obtain ⟨rfl, rfl⟩ := Prod.mk.inj (Except.ok.inj hrun)
    exact hK.kmalloc_large hinv.1 hsize hcall
  alloc_large hinv _ hlarge _ _ _ _ hrun := hK.alloc_large hinv.1 hlarge (K.logged_alloc hrun)
  free_large hinv _ hlarge _ _ hp _ hrun :=
    hK.free_large hinv.1 hlarge hp (hK.toLawful.logged_free hinv.1 hp hrun)
  kfree_large := by
    rintro ⟨a, log⟩ hinv ptr hptr hlarge a' hrun
    have hrun : (K.kfree ptr a >>= fun b => Except.ok (b, log)) = .ok a' := hrun
    rw [bind_eq_ok] at hrun
    obtain ⟨b, hcall, hrun⟩ := hrun
    obtain rfl := Except.ok.inj hrun
    exact hK.kfree_large hinv.1 hptr hlarge hcall
  free_spent hinv _ hspent _ _ hp _ hrun :=
    hK.free_spent hinv.1 hspent hp (hK.toLawful.logged_free hinv.1 hp hrun)
  spent_zero a := hK.spent_zero a.1
  kfree_spent := by
    rintro ⟨a, log⟩ hinv ptr hspent hptr
    show (K.kfree ptr a >>= fun b => Except.ok (b, log)) = _
    rw [hK.kfree_spent hinv.1 hspent hptr, ok_bind]

end Logged

/-! ## The heap that never uses an address twice -/

/-- Whatever is not live, that heap can free again. -/
theorem bumpKernel_contract {σ : Type} {A : PageAlloc σ} {V : PageAlloc.View σ} (hA : A.Lawful V)
    (horder : ∀ {a : σ}, V.Inv a → ∀ {size zone ptr a'},
      A.buddyAllocPages size zone a = .ok (ptr, a') → ptr ≠ 0 → sizeToOrder size < badOrder) :
    (bumpKernel A).Contract (bumpView V) bumpObjs (fun _ _ => True) fun _ _ => True where
  toLawful := bumpKernel_lawful hA
  order_lt := by
    rintro ⟨a, h⟩ ⟨hinv, -⟩ size zone ptr a' hrun hne
    have hrun : (A.buddyAllocPages size zone a >>= fun r => Except.ok (r.1, (r.2, h))) =
      .ok (ptr, a') := hrun
    rw [bind_eq_ok] at hrun
    obtain ⟨⟨ptr', b⟩, hcall, hrun⟩ := hrun
    obtain ⟨rfl, rfl⟩ := Prod.mk.inj (Except.ok.inj hrun)
    exact horder hinv hcall hne
  kmalloc_large _ _ _ _ _ _ _ _ := trivial
  alloc_large _ _ _ _ _ _ _ _ := trivial
  free_large _ _ _ _ _ _ _ _ := trivial
  kfree_large _ _ _ _ _ _ := trivial
  free_spent _ _ _ _ _ _ _ _ := trivial
  spent_zero _ := trivial
  kfree_spent := by
    rintro ⟨a, h⟩ - ptr - hptr
    have hmem : ptr ∉ h.live := hptr
    show Except.ok (a, { h with live := h.live.erase ptr }) = _
    rw [List.erase_of_not_mem hmem]

/-- The buddy allocator has no block above the largest order. -/
theorem buddyPageAlloc_order_lt {r r' : BuddyRun} {size : ℕ} {zone : Zone} {ptr : ℕ}
    (h : buddyPageAlloc.buddyAllocPages size zone r = .ok (ptr, r')) (hne : ptr ≠ 0) :
    sizeToOrder size < badOrder := by
  by_contra hbad
  have hinvalid : orderIsValid (sizeToOrder size) = false := by
    unfold orderIsValid maxOrder
    unfold badOrder at hbad
    exact decide_eq_false (by omega)
  have hcall : buddyAllocPages size zone r.buddy = .ok (0, r.buddy) := by
    unfold buddyAllocPages
    simp [hinvalid]
    rfl
  simp only [buddyPageAlloc, hcall, ok_bind] at h
  exact hne (Prod.mk.inj (Except.ok.inj h)).1.symm

end Kfs.Memory
