import Kfs.Memory.Kmalloc
import Kfs.Memory.SlabSpec

/-!
# What `kmalloc` and `kfree` do

`HeapInv` adds to the slab invariant the live pointers of the users: small ones are allocated
objects that are no headers, large ones are blocks of the buddy allocator. A call of `kmalloc`
that reclaims empty slabs leaves their nodes on the lists, so the invariant is kept by the calls
that need not reclaim (`fits`) or find nothing to reclaim (`noEmptySlabs`).
-/

namespace Kfs.Memory

open Kfs.Lib Kfs.Lib.Word32 Kfs.Lib.Dyadic

/-! ## Size classes -/

/-- The loop stops at the first power of two that is large enough. -/
theorem sizeToCacheLoop_spec {size : ℕ} (hmax : size ≤ 2 ^ 31) :
    ∀ {n k : ℕ}, size ≤ 2 ^ (k + n + 3) →
      ∃ j, sizeToCacheLoop size n (2 ^ (k + 3)) k = j ∧ k ≤ j ∧ size ≤ 2 ^ (j + 3) ∧
        (j = k ∨ 2 ^ (j + 2) < size) := by
  intro n
  induction n with
  | zero =>
    intro k hsize
    exact ⟨k, rfl, le_rfl, hsize, Or.inl rfl⟩
  | succ n ih =>
    intro k hsize
    by_cases hlt : 2 ^ (k + 3) < size
    · have hk : k + 3 < 31 := (Nat.pow_lt_pow_iff_right (by norm_num)).mp (hlt.trans_le hmax)
      have hmod : 2 ^ (k + 3) * 2 % 2 ^ 32 = 2 ^ (k + 1 + 3) := by
        rw [← pow_succ]
        exact Nat.mod_eq_of_lt (Nat.pow_lt_pow_right (by norm_num) (by omega))
      obtain ⟨j, hrun, hle, hfit, hmin⟩ := @ih (k + 1)
        (by rw [show k + 1 + n + 3 = k + (n + 1) + 3 by omega]; exact hsize)
      refine ⟨j, ?_, by omega, hfit, Or.inr ?_⟩
      · rw [sizeToCacheLoop, if_pos hlt, hmod]
        exact hrun
      · rcases hmin with rfl | hmin
        · exact hlt
        · exact hmin
    · exact ⟨k, by rw [sizeToCacheLoop, if_neg hlt], le_rfl, not_lt.mp hlt, Or.inl rfl⟩

theorem objSize_eq_two_pow {c : ℕ} (hc : c < numSlabCaches) : objSize c = 2 ^ (c + 3) := by
  have h : ∀ c < 9, objSize c = 2 ^ (c + 3) := by decide
  exact h c hc

/-- The class of a size that a slab can serve is the least one with objects that are large
enough. -/
theorem sizeToCacheSize_least {size : ℕ} (hsize : size ≤ maxSlabSize) :
    sizeToCacheSize size < numSlabCaches ∧ size ≤ 2 ^ (sizeToCacheSize size + 3) ∧
      ∀ j < sizeToCacheSize size, 2 ^ (j + 3) < size := by
  unfold maxSlabSize at hsize
  by_cases h8 : size ≤ 8
  · have hclass : sizeToCacheSize size = 0 := by
      unfold sizeToCacheSize
      rw [if_pos h8]
    rw [hclass]
    exact ⟨by decide, h8, fun j hj => absurd hj (Nat.not_lt_zero j)⟩
  · obtain ⟨j, hrun, -, hfit, hmin⟩ := @sizeToCacheLoop_spec size (hsize.trans (by norm_num)) 28 1
      (hsize.trans (by norm_num))
    have hj : j < numSlabCaches := by
      rcases hmin with rfl | hmin
      · decide
      · have hpow : 2 ^ (j + 2) < 2 ^ 11 := hmin.trans_le hsize
        have := (Nat.pow_lt_pow_iff_right (by norm_num)).mp hpow
        unfold numSlabCaches
        omega
    have hclass : sizeToCacheSize size = j := by
      unfold sizeToCacheSize
      rw [if_neg h8, show (16 : ℕ) = 2 ^ (1 + 3) by norm_num, hrun]
      simp only [not_le.mpr hj, if_false]
    rw [hclass]
    refine ⟨hj, hfit, fun i hi => ?_⟩
    rcases hmin with rfl | hmin
    · -- the loop did not turn: only class 0 is smaller
      obtain rfl : i = 0 := by omega
      exact not_le.mp h8
    · calc 2 ^ (i + 3) ≤ 2 ^ (j + 2) := Nat.pow_le_pow_right (by norm_num) (by omega)
        _ < size := hmin

/-- Every size that a slab can serve has a class with objects that are large enough. -/
theorem sizeToCacheSize_spec {size : ℕ} (hsize : size ≤ maxSlabSize) :
    sizeToCacheSize size < numSlabCaches ∧ size ≤ objSize (sizeToCacheSize size) := by
  obtain ⟨hc, hfit, -⟩ := sizeToCacheSize_least hsize
  exact ⟨hc, objSize_eq_two_pow hc ▸ hfit⟩

/-- The objects of its class hold a small size. -/
theorem size_le_objSize {size c : ℕ} (hsize : size ≤ maxSlabSize) (hc : c = sizeToCacheSize size) :
    size ≤ objSize c := by
  rw [hc]
  exact (sizeToCacheSize_spec hsize).2

/-! ## Reclaim with nothing to reclaim -/

/-- Without empty slabs `slab_shrink_caches` changes nothing. -/
theorem slabShrinkCaches_eq {s : KState} {z : Zone} (h : noEmptySlabs s z = true) :
    slabShrinkCaches z s = .ok s := by
  have hempty : ∀ c < numSlabCaches, (s.caches z c).slabsEmpty = [] := by
    intro c hc
    unfold noEmptySlabs at h
    rw [List.all_eq_true] at h
    exact List.isEmpty_iff.mp (h c (List.mem_range.mpr hc))
  unfold slabShrinkCaches
  -- every turn of the loop finds an empty list
  suffices hloop : ∀ l : List ℕ, (∀ c ∈ l, c < numSlabCaches) →
      l.foldlM (fun s i => (s.caches z i).slabsEmpty.foldlM
        (shrinkSlab (slabIsExternal (s.caches z i).objectSize)) s) s = .ok s by
    exact hloop _ fun c hc => List.mem_range.mp hc
  intro l
  induction l with
  | nil => exact fun _ => rfl
  | cons c l ih =>
    intro hl
    rw [List.foldlM_cons, hempty c (hl c List.mem_cons_self), List.foldlM_nil]
    exact ih fun d hd => hl d (List.mem_cons_of_mem c hd)

/-! ## The header of a slab -/

section Headers

variable {s : KState} {F S L : Set ℕ} {κ : ℕ → Fill} {z : Zone}

/-- `kmalloc(sizeof(struct slab), flags)` as `slab_create` calls it. -/
theorem kmallocN_header_eq (n : ℕ) (hz : z ≠ .highmem) (s : KState) :
    kmallocN (n + 1) sizeofSlab (if z = .dma then gfpKernel ||| gfpDma else gfpKernel) s = (do
      let (alloc, s) ← slabAlloc (kmallocN n) sizeofSlab z s
      if alloc = 0 then do
        let s ← slabShrinkCaches z s
        slabAlloc (kmallocN n) sizeofSlab z s
      else .ok (alloc, s)) := by
  have hzone : kmallocZone (if z = .dma then gfpKernel ||| gfpDma else gfpKernel) = z := by
    cases z with
    | highmem => exact absurd rfl hz
    | lowmem => decide
    | dma => decide
  have hzero : (if z = .dma then gfpKernel ||| gfpDma else gfpKernel) &&& gfpZero = 0 := by
    split <;> decide
  have h1 : sizeofSlab ≠ 0 := by decide
  have h2 : ¬ sizeofSlab > maxKmallocSize := by decide
  have h3 : ¬ sizeofSlab > maxSlabSize := by decide
  simp only [kmallocN, hzone, hzero, h1, h2, if_false, tryAllocWithReclaim, getAllocation, h3,
    ne_eq, not_true_eq_false, and_false]
  exact bind_pure _

theorem headerAlloc_kmallocN (n : ℕ) : HeaderAlloc (kmallocN (n + 1)) := by
  intro s F S L κ z h hfiled h0 hz
  have hclass : sizeToCacheSize sizeofSlab = 2 := by decide
  have hext : isExternal 2 = true → HeaderAlloc (kmallocN n) := fun hext => nomatch hext
  rw [kmallocN_header_eq n hz]
  have hneed := pagesNeeded_two s z
  rcases h.slabAlloc_spec hfiled h0 hz hclass (by decide) hext with
    ⟨hfit, x, s', F', S', L', κ', hrun, hserved⟩ | ⟨hlt, -, hrun⟩ | ⟨hlt, hone, -⟩
  · refine ⟨fun _ => ⟨x, s', F', S', L', κ', ?_, hserved⟩, fun hlt => absurd hfit (by omega)⟩
    have hne : x ≠ 0 := by
      obtain ⟨q, -, -, -, hobj⟩ := hserved.obj
      have hrange := objects_range (by decide : (2 : ℕ) < numSlabCaches) hobj
      unfold pageVirt kernelVaddrBase at hrange
      omega
    rw [hrun, ok_bind]
    simp only
    rw [if_neg hne]
  · refine ⟨fun hfit => absurd hlt (by omega), fun _ hempty => ?_⟩
    rw [hrun, ok_bind]
    simp only [if_true]
    rw [slabShrinkCaches_eq hempty, ok_bind, hrun]
  · -- one page is all a header needs
    split at hneed <;> omega

end Headers

/-! ## The live pointers -/

/-- The first page of a live allocation, given as pointer and requested size. -/
def largePage (a : ℕ × ℕ) : ℕ := pageAddrToPage (virtToPhysLinear a.1)

/-- The pages of a live allocation that came from the buddy allocator. -/
def largePages (a : ℕ × ℕ) : Set ℕ := block (largePage a) (sizeToOrder a.2)

/-- A live allocation that came from the buddy allocator. -/
structure LargeBlock (s : KState) (F S : Set ℕ) (a : ℕ × ℕ) : Prop where
  addr : a.1 = pageVirt (largePage a)
  ne_zero : largePage a ≠ 0
  linear : largePage a < linearPages
  order_le : sizeToOrder a.2 ≤ maxOrder
  size_le : a.2 ≤ 2 ^ sizeToOrder a.2 * 4096
  aligned : Aligned (largePage a) (sizeToOrder a.2)
  state : pageGetState (s.buddy.pages (largePage a)) = pageStateAllocated
  order : (s.buddy.pages (largePage a)).privateData = sizeToOrder a.2
  notFree : Disjoint (largePages a) F
  notSlab : Disjoint (largePages a) S

/-- The allocators below and the live pointers above agree. -/
structure HeapInv (s : KState) (live : List (ℕ × ℕ)) (F S L : Set ℕ) (κ : ℕ → Fill) : Prop where
  inv : SlabInv s F S L κ
  filed : Filed s S ∅ κ
  zero : 0 ∉ F
  slabState : ∀ p < maxPages, pageGetState (s.buddy.pages p) = pageStateSlab → p ∈ S
  ptrs : live.Pairwise fun a b => a.1 ≠ b.1
  small : ∀ a ∈ live, a.2 ≤ maxSlabSize → a.1 ∈ L \ headers s S ∧
    ∃ p ∈ S, a.1 ∈ objects p (classOf s p) ∧ classOf s p = sizeToCacheSize a.2
  cover : ∀ x ∈ L \ headers s S, ∃ a ∈ live, a.1 = x ∧ a.2 ≤ maxSlabSize
  large : ∀ a ∈ live, maxSlabSize < a.2 → LargeBlock s F S a
  apart : ∀ a ∈ live, ∀ b ∈ live, maxSlabSize < a.2 → maxSlabSize < b.2 → a ≠ b →
    Disjoint (largePages a) (largePages b)

/-- The pages of the heap: the free ones, the slabs and the large allocations. -/
def heapPages (live : List (ℕ × ℕ)) (F S : Set ℕ) : Set ℕ :=
  F ∪ S ∪ { j | ∃ a ∈ live, maxSlabSize < a.2 ∧ j ∈ largePages a }

/-- The heap went from `s` to `s'` within its pages. -/
structure HeapFrame (s : KState) (live : List (ℕ × ℕ)) (F S : Set ℕ) (s' : KState)
    (live' : List (ℕ × ℕ)) (F' S' : Set ℕ) : Prop where
  pages : ∀ j ∉ heapPages live F S, s'.buddy.pages j = s.buddy.pages j
  sub : heapPages live' F' S' ⊆ heapPages live F S

/-- A block that `buddy_free_block` accepts. -/
structure HeldBlock (s : KState) (p k : ℕ) : Prop where
  ne_zero : p ≠ 0
  inTable : p < maxPages
  order_le : k ≤ maxOrder
  aligned : Aligned p k
  state : pageGetState (s.buddy.pages p) = pageStateAllocated
  order : (s.buddy.pages p).privateData = k

section Heap

variable {s s' : KState} {live : List (ℕ × ℕ)} {F F' S S' L L' : Set ℕ} {κ κ' : ℕ → Fill} {z : Zone}

theorem heapPages_erase (live : List (ℕ × ℕ)) (F S : Set ℕ) (a : ℕ × ℕ) :
    heapPages (live.erase a) F S ⊆ heapPages live F S := by
  rintro j (hj | ⟨d, hd, hld, hjd⟩)
  · exact Or.inl hj
  · exact Or.inr ⟨d, List.mem_of_mem_erase hd, hld, hjd⟩

theorem LargeBlock.held {a : ℕ × ℕ} (ha : LargeBlock s F S a) :
    HeldBlock s (largePage a) (sizeToOrder a.2) where
  ne_zero := ha.ne_zero
  inTable := Nat.lt_trans ha.linear (by decide)
  order_le := ha.order_le
  aligned := ha.aligned
  state := ha.state
  order := ha.order

/-- A page of the free set reads `FREE`. -/
theorem FreeInv.state_of_mem {b : BuddyState} (h : FreeInv b F ∅) {j : ℕ} (hj : j ∈ F) :
    pageGetState (b.pages j) = pageStateFree := by
  obtain ⟨i, k, hb, hmem⟩ := (h.tiling.cover j).mp hj
  by_cases hji : j = i
  · rw [hji]
    exact (h.head hb).1
  · exact (h.tail hb hmem hji).1

/-- The addresses of a page outside a large block are outside its bytes. -/
theorem LargeBlock.range_page {a : ℕ × ℕ} (ha : LargeBlock s F S a) {q : ℕ}
    (hq : q ∉ largePages a) :
    pageVirt q + 4096 ≤ a.1 ∨ a.1 + a.2 ≤ pageVirt q := by
  have hsize := ha.size_le
  have haddr := ha.addr
  unfold largePages at hq
  rw [mem_block] at hq
  unfold pageVirt at haddr ⊢
  rcases Nat.lt_or_ge q (largePage a) with hlt | hge
  · left
    omega
  · right
    have hle : largePage a + 2 ^ sizeToOrder a.2 ≤ q := by
      by_contra hcon
      exact hq ⟨hge, by omega⟩
    have hmul : (largePage a + 2 ^ sizeToOrder a.2) * 4096 ≤ q * 4096 :=
      Nat.mul_le_mul_right 4096 hle
    rw [Nat.add_mul] at hmul
    omega

/-- A live pointer into a slab is one of the small ones. -/
theorem HeapInv.small_of_mem_objects (h : HeapInv s live F S L κ) {a : ℕ × ℕ} (ha : a ∈ live)
    {p : ℕ} (hp : p ∈ S) (hobj : a.1 ∈ objects p (classOf s p)) : a.2 ≤ maxSlabSize := by
  by_contra hlarge
  have hblock := h.large a ha (not_le.mp hlarge)
  obtain ⟨free, hslab⟩ := h.inv.pages p hp
  have hpage : largePage a = p := page_of_object hslab.linear hslab.class_lt hobj
  exact Set.disjoint_left.mp hblock.notSlab (self_mem_block _ _) (hpage ▸ hp)

/-- The bytes of a live allocation contain no free object. -/
theorem HeapInv.range_free (h : HeapInv s live F S L κ) {a : ℕ × ℕ} (ha : a ∈ live) {p y : ℕ}
    {free : List ℕ} (hp : p ∈ S) (hslab : SlabPage s S L p free) (hy : y ∈ free) :
    y < a.1 ∨ a.1 + a.2 ≤ y := by
  have hyobj := hslab.objs y hy
  have hyrange := objects_range hslab.class_lt hyobj
  have hysize := (class_geometry hslab.class_lt).1
  by_cases hsmall : a.2 ≤ maxSlabSize
  · obtain ⟨hL, q, hq, hobj, hcls⟩ := h.small a ha hsmall
    have hle := size_le_objSize hsmall hcls
    obtain ⟨free', hslab'⟩ := h.inv.pages q hq
    have hrange := objects_range hslab'.class_lt hobj
    by_cases hpq : p = q
    · subst hpq
      -- a free object and an allocated one of the same slab
      have hne : a.1 ≠ y := fun heq => ((hslab.live _ hobj).mp hL.1) (heq ▸ hy)
      rcases objects_apart hobj hyobj hne with hlt | hlt <;> omega
    · rcases pageVirt_le_of_ne hpq with hlt | hlt <;> omega
  · have hblock := h.large a ha (not_le.mp hsmall)
    rcases hblock.range_page (Set.disjoint_right.mp hblock.notSlab hp) with hlt | hlt <;> omega

/-- The bytes of a live allocation contain no byte of a header. -/
theorem HeapInv.range_header (h : HeapInv s live F S L κ) {a : ℕ × ℕ} (ha : a ∈ live) {q : ℕ}
    (hq : q ∈ S) : headerOf s q + sizeofSlab ≤ a.1 ∨ a.1 + a.2 ≤ headerOf s q := by
  unfold sizeofSlab
  -- the slab page that the header lies in, and its place there
  obtain ⟨r, hr, hlo, hhi, hplace⟩ : ∃ r ∈ S, pageVirt r ≤ headerOf s q ∧
      headerOf s q + 32 ≤ pageVirt r + 4096 ∧ ∀ x ∈ L \ headers s S, x ∈ objects r (classOf s r) →
        headerOf s q + 32 ≤ x ∨ x + objSize (classOf s r) ≤ headerOf s q := by
    rcases h.inv.header_cases hq with ⟨hext, heq⟩ | ⟨-, -, r, hr, hcr, hobj⟩
    · refine ⟨q, hq, heq.ge, by omega, fun x _ hx => Or.inl ?_⟩
      obtain ⟨free, hslab⟩ := h.inv.pages q hq
      have hrange := objects_range hslab.class_lt hx
      have hspace : headerSpace (classOf s q) = 32 := by
        unfold headerSpace sizeofSlab
        rw [hext]
        rfl
      omega
    · have hrange := objects_range (by decide : (2 : ℕ) < numSlabCaches) hobj
      have h32 : objSize 2 = 32 := by decide
      refine ⟨r, hr, by omega, by omega, fun x hxL hx => ?_⟩
      rw [hcr] at hx ⊢
      have hne : headerOf s q ≠ x := fun heq => hxL.2 ⟨q, hq, heq⟩
      rcases objects_apart hobj hx hne with hle | hle
      · left
        omega
      · right
        exact hle
  by_cases hsmall : a.2 ≤ maxSlabSize
  · obtain ⟨hL, p, hp, hobj, hcls⟩ := h.small a ha hsmall
    have hle := size_le_objSize hsmall hcls
    obtain ⟨free, hslab⟩ := h.inv.pages p hp
    have hrange := objects_range hslab.class_lt hobj
    by_cases hpr : p = r
    · subst hpr
      rcases hplace a.1 hL hobj with hlt | hlt <;> omega
    · rcases pageVirt_le_of_ne hpr with hlt | hlt <;> omega
  · have hblock := h.large a ha (not_le.mp hsmall)
    rcases hblock.range_page (Set.disjoint_right.mp hblock.notSlab hr) with hlt | hlt <;> omega

/-- **The bytes of live allocations are disjoint.** -/
theorem HeapInv.disjoint (h : HeapInv s live F S L κ) :
    live.Pairwise fun a b => Disjoint (Set.Ico a.1 (a.1 + a.2)) (Set.Ico b.1 (b.1 + b.2)) := by
  -- a small allocation is inside one slab page
  have hpage : ∀ a ∈ live, a.2 ≤ maxSlabSize → ∃ p ∈ S, a.1 ∈ objects p (classOf s p) ∧
      pageVirt p ≤ a.1 ∧ a.1 + a.2 ≤ pageVirt p + 4096 ∧ a.2 ≤ objSize (classOf s p) := by
    intro a ha hsmall
    obtain ⟨-, p, hp, hobj, hcls⟩ := h.small a ha hsmall
    have hle := size_le_objSize hsmall hcls
    obtain ⟨free, hslab⟩ := h.inv.pages p hp
    have hrange := objects_range hslab.class_lt hobj
    exact ⟨p, hp, hobj, by omega, by omega, hle⟩
  have hmixed : ∀ a ∈ live, ∀ b ∈ live, a.2 ≤ maxSlabSize → maxSlabSize < b.2 →
      a.1 + a.2 ≤ b.1 ∨ b.1 + b.2 ≤ a.1 := by
    intro a ha b hb hsa hlb
    obtain ⟨p, hp, -, hlo, hhi, -⟩ := hpage a ha hsa
    have hblock := h.large b hb hlb
    rcases hblock.range_page (Set.disjoint_right.mp hblock.notSlab hp) with hle | hle <;> omega
  have hsep : ∀ a ∈ live, ∀ b ∈ live, a.1 ≠ b.1 → a.1 + a.2 ≤ b.1 ∨ b.1 + b.2 ≤ a.1 := by
    intro a ha b hb hne
    by_cases hsa : a.2 ≤ maxSlabSize
    · by_cases hsb : b.2 ≤ maxSlabSize
      · obtain ⟨p, hp, hobj, hlo, hhi, hle⟩ := hpage a ha hsa
        obtain ⟨q, hq, hobj', hlo', hhi', hle'⟩ := hpage b hb hsb
        by_cases hpq : p = q
        · subst hpq
          rcases objects_apart hobj hobj' hne with hlt | hlt <;> omega
        · rcases pageVirt_le_of_ne hpq with hlt | hlt <;> omega
      · exact hmixed a ha b hb hsa (not_le.mp hsb)
    · by_cases hsb : b.2 ≤ maxSlabSize
      · exact (hmixed b hb a ha hsb (not_le.mp hsa)).symm
      · have hblock := h.large a ha (not_le.mp hsa)
        have hblock' := h.large b hb (not_le.mp hsb)
        have hdis := h.apart a ha b hb (not_le.mp hsa) (not_le.mp hsb) (fun heq => hne (heq ▸ rfl))
        have hfirst : largePage b ∉ largePages a :=
          Set.disjoint_right.mp hdis (self_mem_block _ _)
        have hfirst' : largePage a ∉ largePages b :=
          Set.disjoint_left.mp hdis (self_mem_block _ _)
        have haddr := hblock.addr
        have haddr' := hblock'.addr
        rcases hblock.range_page hfirst with hle | hle
        · rcases hblock'.range_page hfirst' with hle' | hle' <;> omega
        · omega
  refine h.ptrs.imp_of_mem ?_
  intro a b ha hb hne
  rw [Set.disjoint_left]
  intro x hx hx'
  simp only [Set.mem_Ico] at hx hx'
  rcases hsep a ha b hb hne with hle | hle <;> omega

/-! ## Allocation -/

/-- Live large blocks are framed by everything that leaves their pages alone. -/
theorem LargeBlock.congr {a : ℕ × ℕ} (ha : LargeBlock s F S a)
    (hpage : s'.buddy.pages (largePage a) = s.buddy.pages (largePage a))
    (hF : Disjoint (largePages a) F') (hS : Disjoint (largePages a) S') :
    LargeBlock s' F' S' a :=
  { ha with
    state := by rw [hpage]; exact ha.state
    order := by rw [hpage]; exact ha.order
    notFree := hF
    notSlab := hS }

/-- A served request of a small size. -/
theorem HeapInv.allocSmall (h : HeapInv s live F S L κ) {c x size : ℕ} (hc : c < numSlabCaches)
    (hsize : size ≤ maxSlabSize) (hclass : c = sizeToCacheSize size)
    (hserved : Served s F S L z c x s' F' S' L' κ') :
    HeapInv s' ((x, size) :: live) F' S' L' κ' ∧
      HeapFrame s live F S s' ((x, size) :: live) F' S' := by
  have hgrow := hserved.grow
  have hFsub : F' ⊆ F := by
    rw [hgrow.free]
    exact Set.sdiff_subset
  obtain ⟨p, hp, hcp, hzone, hobj⟩ := hserved.obj
  obtain ⟨free, hslab⟩ := hserved.inv.pages p hp
  -- large blocks are outside old and new slab pages
  have hlargeS : ∀ a ∈ live, maxSlabSize < a.2 → Disjoint (largePages a) S' := by
    intro a ha hla
    have hblock := h.large a ha hla
    rw [Set.disjoint_left]
    intro j hj hjS
    rcases hgrow.new hjS with hS | hF
    · exact Set.disjoint_left.mp hblock.notSlab hj hS
    · exact Set.disjoint_left.mp hblock.notFree hj hF
  refine ⟨?_, fun j hj => hgrow.pages j fun hjF => hj (Or.inl (Or.inl hjF)), ?_⟩
  swap
  · rintro j ((hjF | hjS) | ⟨a, ha, hla, hja⟩)
    · exact Or.inl (Or.inl (hFsub hjF))
    · exact Or.inl ((hgrow.new hjS).symm)
    · rcases List.mem_cons.mp ha with rfl | ha
      · exact absurd hsize (not_le.mpr hla)
      · exact Or.inr ⟨a, ha, hla, hja⟩
  refine {
    inv := hserved.inv
    filed := hserved.filed
    zero := fun h0 => h.zero (hFsub h0)
    slabState := fun j hj hstate => ?_
    ptrs := List.pairwise_cons.mpr ⟨fun a ha heq => ?_, h.ptrs⟩
    small := fun a ha hsa => ?_
    cover := fun y hy => ?_
    large := fun a ha hla => ?_
    apart := fun a ha b hb hla hlb hne => ?_ }
  · by_cases hjF : j ∈ F
    · by_contra hjS
      have hfree := hserved.inv.buddy.state_of_mem (by rw [hgrow.free]; exact ⟨hjF, hjS⟩)
      rw [hstate] at hfree
      exact absurd hfree (by decide)
    · rw [hgrow.pages j hjF] at hstate
      exact hgrow.slabs (h.slabState j hj hstate)
  · -- the pointer of an older allocation is either allocated or outside the slab pages
    by_cases hsa : a.2 ≤ maxSlabSize
    · have hx : x = a.1 := heq
      exact hserved.fresh (hx ▸ (h.small a ha hsa).1.1)
    · have hpage : largePage a = p := by
        unfold largePage
        rw [← heq]
        exact page_of_object hslab.linear hc hobj
      exact Set.disjoint_left.mp (hlargeS a ha (not_le.mp hsa)) (self_mem_block _ _) (hpage ▸ hp)
  · rw [hserved.live]
    rcases List.mem_cons.mp ha with rfl | ha
    · exact ⟨Set.mem_insert x _, p, hp, hcp ▸ hobj, hcp.trans hclass⟩
    · obtain ⟨hL, q, hq, hobj', hcls⟩ := h.small a ha hsa
      have hcq := hgrow.cls q hq
      exact ⟨Set.mem_insert_of_mem x hL, q, hgrow.slabs hq, hcq ▸ hobj', hcq.trans hcls⟩
  · rw [hserved.live] at hy
    rcases hy with rfl | hy
    · exact ⟨(y, size), List.mem_cons_self, rfl, hsize⟩
    · obtain ⟨a, ha, heq, hsa⟩ := h.cover y hy
      exact ⟨a, List.mem_cons_of_mem _ ha, heq, hsa⟩
  · rcases List.mem_cons.mp ha with rfl | ha
    · exact absurd hsize (not_le.mpr hla)
    · have hblock := h.large a ha hla
      refine hblock.congr (hgrow.pages _ ?_) (hblock.notFree.mono_right hFsub) (hlargeS a ha hla)
      exact Set.disjoint_left.mp hblock.notFree (self_mem_block _ _)
  · rcases List.mem_cons.mp ha with rfl | ha
    · exact absurd hsize (not_le.mpr hla)
    · rcases List.mem_cons.mp hb with rfl | hb
      · exact absurd hsize (not_le.mpr hlb)
      · exact h.apart a ha b hb hla hlb hne

/-- The order that `size_to_order` finds is large enough. -/
theorem size_le_of_sizeToOrder {size : ℕ} (hsize : size ≤ maxKmallocSize)
    (horder : sizeToOrder size ≤ maxOrder) : size ≤ 2 ^ sizeToOrder size * 4096 := by
  apply (sizeToOrder_bytes _ horder).1
  unfold maxKmallocSize at hsize
  unfold pageSize
  omega

/-- A request of pages that the buddy allocator serves, for whoever asks. -/
theorem HeapInv.takePages (h : HeapInv s live F S L κ) {p k c : ℕ} {b : BuddyState}
    (ha : Allocated s.buddy b F z k p c) :
    HeapInv { s with buddy := b } live (F \ block p k) S L κ ∧ HeldBlock { s with buddy := b } p k ∧
      HeapFrame s live F S { s with buddy := b } live (F \ block p k) S := by
  have hpF : p ∈ F := ha.subset (self_mem_block p _)
  have hframe : ∀ j ∉ F, b.pages j = s.buddy.pages j := fun j hj =>
    ha.frame j fun hmem => hj (ha.popped_subset hmem)
  have hold : ∀ j ∈ S, b.pages j = s.buddy.pages j := fun j hj => hframe j (h.inv.notMem_free hj)
  have hheaders : headers { s with buddy := b } S = headers s S := headers_congr_buddy hold
  refine ⟨{
    inv := h.inv.congr_buddy ha.inv hold
    filed := h.filed.congr_buddy hold
    zero := fun h0 => h.zero h0.1
    slabState := fun j hj hstate => ?_
    ptrs := h.ptrs
    small := fun a hmem hsa => ?_
    cover := fun y hy => h.cover y (by rw [← hheaders]; exact hy)
    large := fun a hmem hla => ?_
    apart := h.apart }, ?_, ?_⟩
  · by_cases hjF : j ∈ F
    · exfalso
      by_cases hjb : j ∈ block p k
      · have halloc : pageGetState (b.pages j) = pageStateAllocated := by
          by_cases hjp : j = p
          · rw [hjp]
            exact ha.headPage.1
          · exact (ha.tailPages j hjb hjp).1
        exact absurd (hstate.symm.trans halloc) (by decide)
      · exact absurd (hstate.symm.trans (ha.inv.state_of_mem ⟨hjF, hjb⟩)) (by decide)
    · exact h.slabState j hj (by rw [← hframe j hjF]; exact hstate)
  · obtain ⟨hL, q, hq, hobj, hcls⟩ := h.small a hmem hsa
    have hcq := classOf_congr_buddy (hold q hq)
    exact ⟨by rw [hheaders]; exact hL, q, hq, by rw [hcq]; exact hobj, by rw [hcq]; exact hcls⟩
  · have hblock := h.large a hmem hla
    have hnot : largePage a ∉ F :=
      Set.disjoint_left.mp hblock.notFree (self_mem_block _ _)
    exact hblock.congr (hframe _ hnot) (hblock.notFree.mono_right Set.sdiff_subset) hblock.notSlab
  · exact {
      ne_zero := ha.ne_zero
      inTable := h.inv.buddy.inTable p hpF
      order_le := ha.order_le
      aligned := ha.aligned
      state := ha.headPage.1
      order := ha.headPage.2 }
  · exact {
      pages := fun j hj => hframe j fun hjF => hj (Or.inl (Or.inl hjF))
      sub := Set.union_subset_union_left _ (Set.union_subset_union_left _ Set.sdiff_subset) }

/-- A large allocation whose pages are its own joins the live ones. -/
theorem HeapInv.addLarge (h : HeapInv s live F S L κ) {a : ℕ × ℕ} (hlarge : maxSlabSize < a.2)
    (hblock : LargeBlock s F S a)
    (hapart : ∀ b ∈ live, maxSlabSize < b.2 → Disjoint (largePages a) (largePages b)) :
    HeapInv s (a :: live) F S L κ := by
  refine { h with
    ptrs := List.pairwise_cons.mpr ⟨fun b hmem heq => ?_, h.ptrs⟩
    small := fun b hmem hsb => ?_
    cover := fun y hy => ?_
    large := fun b hmem hlb => ?_
    apart := fun b hmb d hmd hlb hld hne => ?_ }
  · -- two pointers into one page would be in one slab or in one block
    have hpage : largePage b = largePage a := by
      unfold largePage
      rw [heq]
    by_cases hsb : b.2 ≤ maxSlabSize
    · obtain ⟨-, q, hq, hobj, -⟩ := h.small b hmem hsb
      obtain ⟨free, hslab⟩ := h.inv.pages q hq
      have hqa : q = largePage a := by
        rw [← hpage]
        exact (page_of_object hslab.linear hslab.class_lt hobj).symm
      exact Set.disjoint_left.mp hblock.notSlab (self_mem_block _ _) (hqa ▸ hq)
    · have hself : largePage a ∈ largePages b := by
        rw [← hpage]
        exact self_mem_block _ _
      exact Set.disjoint_left.mp (hapart b hmem (not_le.mp hsb)) (self_mem_block _ _) hself
  · rcases List.mem_cons.mp hmem with rfl | hmem
    · exact absurd hsb (not_le.mpr hlarge)
    · exact h.small b hmem hsb
  · obtain ⟨b, hmem, heq, hsb⟩ := h.cover y hy
    exact ⟨b, List.mem_cons_of_mem _ hmem, heq, hsb⟩
  · rcases List.mem_cons.mp hmem with rfl | hmem
    · exact hblock
    · exact h.large b hmem hlb
  · rcases List.mem_cons.mp hmb with rfl | hb
    · rcases List.mem_cons.mp hmd with rfl | hd
      · exact absurd rfl hne
      · exact hapart d hd hld
    · rcases List.mem_cons.mp hmd with rfl | hd
      · exact (hapart b hb hlb).symm
      · exact h.apart b hb d hd hlb hld hne

/-- A served request of a large size. -/
theorem HeapInv.allocLarge (h : HeapInv s live F S L κ) {size p c : ℕ} {b : BuddyState}
    (hz : z ≠ .highmem) (hsize : maxSlabSize < size) (hmax : size ≤ maxKmallocSize)
    (ha : Allocated s.buddy b F z (sizeToOrder size) p c) :
    physToVirtLinear (pageToPhys p) = pageVirt p ∧ pageVirt p ≠ 0 ∧
    HeapInv { s with buddy := b } ((pageVirt p, size) :: live) (F \ block p (sizeToOrder size)) S L
      κ ∧
    HeapFrame s live F S { s with buddy := b } ((pageVirt p, size) :: live)
      (F \ block p (sizeToOrder size)) S := by
  have hlin : p < linearPages := by
    have hzone := ha.zone
    unfold zoneOfPage at hzone
    split at hzone
    next => exact absurd hzone.symm hz
    next hlt => exact not_le.mp hlt
  have hpage : largePage (pageVirt p, size) = p :=
    pageAddrToPage_virtToPhysLinear hlin le_rfl (by simp)
  have hpages : largePages (pageVirt p, size) = block p (sizeToOrder size) := by
    unfold largePages
    rw [hpage]
  obtain ⟨htaken, hheld, hframe⟩ := h.takePages ha
  refine ⟨physToVirtLinear_pageToPhys hlin, by unfold pageVirt kernelVaddrBase; omega,
    htaken.addLarge hsize ?_ fun a hmem hla => ?_, hframe.pages, ?_⟩
  · exact {
      addr := by rw [hpage]
      ne_zero := by rw [hpage]; exact ha.ne_zero
      linear := by rw [hpage]; exact hlin
      order_le := ha.order_le
      size_le := size_le_of_sizeToOrder hmax ha.order_le
      aligned := by rw [hpage]; exact ha.aligned
      state := by rw [hpage]; exact hheld.state
      order := by rw [hpage]; exact hheld.order
      notFree := by rw [hpages]; exact Set.disjoint_sdiff_right
      notSlab := by rw [hpages]; exact h.inv.disjoint.mono_left ha.subset }
  · -- the new block was free, so it is apart from every live one
    rw [hpages]
    exact (h.large a hmem hla).notFree.symm.mono_left ha.subset
  · rintro j (hj | ⟨a, hmem, hla, hj⟩)
    · exact hframe.sub (Or.inl hj)
    · rcases List.mem_cons.mp hmem with rfl | hmem
      · rw [hpages] at hj
        exact Or.inl (Or.inl (ha.subset hj))
      · exact Or.inr ⟨a, hmem, hla, hj⟩

/-! ## Freeing -/

/-- Erasing one of several allocations with distinct pointers. -/
theorem mem_erase_of_ptrs (hptrs : live.Pairwise fun a b => a.1 ≠ b.1) {a b : ℕ × ℕ}
    (hb : b ∈ live) : a ∈ live.erase b ↔ a ∈ live ∧ a.1 ≠ b.1 := by
  induction live with
  | nil => cases hb
  | cons d live ih =>
    obtain ⟨hd, hrest⟩ := List.pairwise_cons.mp hptrs
    by_cases hdb : d = b
    · subst hdb
      rw [List.erase_cons_head, List.mem_cons]
      constructor
      · exact fun ha => ⟨Or.inr ha, (hd a ha).symm⟩
      · rintro ⟨rfl | ha, hne⟩
        · exact absurd rfl hne
        · exact ha
    · have hb' : b ∈ live := (List.mem_cons.mp hb).resolve_left (Ne.symm hdb)
      rw [List.erase_cons_tail (by simpa using hdb), List.mem_cons, List.mem_cons, ih hrest hb']
      constructor
      · rintro (rfl | ⟨ha, hne⟩)
        · exact ⟨Or.inl rfl, hd b hb'⟩
        · exact ⟨Or.inr ha, hne⟩
      · rintro ⟨rfl | ha, hne⟩
        · exact Or.inl rfl
        · exact Or.inr ⟨ha, hne⟩

/-- `slab_free` of a live small allocation. -/
theorem HeapInv.slabFree_spec (h : HeapInv s live F S L κ) {a : ℕ × ℕ} (ha : a ∈ live)
    (hsmall : a.2 ≤ maxSlabSize) :
    ∃ s' κ', slabFree a.1 s = .ok s' ∧ HeapInv s' (live.erase a) F S (L \ {a.1}) κ' ∧
      HeapFrame s live F S s' (live.erase a) F S := by
  obtain ⟨hL, p, hp, hobj, -⟩ := h.small a ha hsmall
  obtain ⟨s', κ', hrun, hinv, hfiled, hbuddy, hclass⟩ :=
    h.inv.slabFree_spec h.filed hp hobj hL.1 hL.2
  have hheaders : headers s' S = headers s S := by
    unfold headers headerOf
    rw [hbuddy]
  have hlive : (L \ {a.1}) \ headers s' S = (L \ headers s S) \ {a.1} := by
    rw [hheaders, Set.sdiff_sdiff_comm]
  have hmem := fun b => @mem_erase_of_ptrs live h.ptrs b a ha
  refine ⟨s', κ', hrun, ?_, fun j _ => by rw [hbuddy], heapPages_erase live F S a⟩
  refine {
    inv := hinv
    filed := hfiled
    zero := h.zero
    slabState := fun j hj hstate => h.slabState j hj (by rw [← hbuddy]; exact hstate)
    ptrs := h.ptrs.erase a
    small := fun b hb hsb => ?_
    cover := fun y hy => ?_
    large := fun b hb hlb => ?_
    apart := fun b hb d hd hlb hld hne =>
      h.apart b ((hmem b).mp hb).1 d ((hmem d).mp hd).1 hlb hld hne }
  · obtain ⟨hb, hne⟩ := (hmem b).mp hb
    obtain ⟨hLb, q, hq, hobj', hcls⟩ := h.small b hb hsb
    rw [hlive]
    exact ⟨⟨hLb, hne⟩, q, hq, by rw [hclass]; exact hobj', by rw [hclass]; exact hcls⟩
  · rw [hlive] at hy
    obtain ⟨b, hb, rfl, hsb⟩ := h.cover y hy.1
    exact ⟨b, (hmem b).mpr ⟨hb, hy.2⟩, rfl, hsb⟩
  · obtain ⟨hb, -⟩ := (hmem b).mp hb
    have hblock := h.large b hb hlb
    exact hblock.congr (by rw [hbuddy]) hblock.notFree hblock.notSlab

/-- `buddy_free_block` of a block that is not the heap's. -/
theorem HeapInv.givePages (h : HeapInv s live F S L κ) {p k : ℕ} (hheld : HeldBlock s p k)
    (hapart : Disjoint (block p k) (heapPages live F S)) :
    ∃ b, buddyFreeBlock (p * 4096) s.buddy = .ok b ∧
      HeapInv { s with buddy := b } live (F ∪ block p k) S L κ ∧
      ∀ j, j ∉ F → j ∉ block p k → b.pages j = s.buddy.pages j := by
  have hpm := hheld.inTable
  unfold maxPages at hpm
  have hF : Disjoint (block p k) F :=
    hapart.mono_right (Set.subset_union_left.trans Set.subset_union_left)
  have hS : Disjoint (block p k) S :=
    hapart.mono_right (Set.subset_union_right.trans Set.subset_union_left)
  have hptr : p * 4096 < 2 ^ 32 := by omega
  have hpage : p * 4096 / 4096 = p := by omega
  -- The buddy allocator takes the block back and writes to no other block's pages.
  obtain ⟨b, p', k', hrun, hfree, hframe, -⟩ :=
    buddyFreeBlock_spec h.inv.buddy hptr hpage hheld.aligned hheld.order_le hheld.inTable hF
      (Or.inl hheld.state) hheld.order
  have hold : ∀ j ∈ S, b.pages j = s.buddy.pages j := fun j hj =>
    hframe j (h.inv.notMem_free hj) (Set.disjoint_right.mp hS hj)
  have hheaders : headers { s with buddy := b } S = headers s S := headers_congr_buddy hold
  refine ⟨b, hrun, ?_, hframe⟩
  -- The fields in turn: the slabs and the large blocks are apart from the block.
  refine {
    inv := h.inv.congr_buddy hfree hold
    filed := h.filed.congr_buddy hold
    zero := ?_
    slabState := fun j hj hstate => ?_
    ptrs := h.ptrs
    small := fun d hd hsd => ?_
    cover := fun y hy => h.cover y (by rw [← hheaders]; exact hy)
    large := fun d hd hld => ?_
    apart := h.apart }
  · rintro (h0 | h0)
    · exact h.zero h0
    · exact hheld.ne_zero (Nat.le_zero.mp (mem_block.mp h0).1)
  · by_cases hjF : j ∈ F ∪ block p k
    · exact absurd (hstate.symm.trans (hfree.state_of_mem hjF)) (by decide)
    · apply h.slabState j hj
      rw [← hframe j (fun hF => hjF (Or.inl hF)) (fun hb => hjF (Or.inr hb))]
      exact hstate
  · obtain ⟨hL, q, hq, hobj, hcls⟩ := h.small d hd hsd
    have hcq := classOf_congr_buddy (hold q hq)
    exact ⟨by rw [hheaders]; exact hL, q, hq, by rw [hcq]; exact hobj, by rw [hcq]; exact hcls⟩
  · have hother := h.large d hd hld
    have hdis : Disjoint (largePages d) (block p k) :=
      (hapart.mono_right fun j hj => Or.inr ⟨d, hd, hld, hj⟩).symm
    have hself : largePage d ∈ largePages d := self_mem_block _ _
    refine hother.congr (hframe _ ?_ ?_) ?_ hother.notSlab
    · exact Set.disjoint_left.mp hother.notFree hself
    · exact Set.disjoint_left.mp hdis hself
    · exact Set.disjoint_union_right.mpr ⟨hother.notFree, hdis⟩

/-- A large allocation leaves the live ones; its pages are no longer the heap's. -/
theorem HeapInv.dropLarge (h : HeapInv s live F S L κ) {a : ℕ × ℕ} (ha : a ∈ live)
    (hlarge : maxSlabSize < a.2) : HeapInv s (live.erase a) F S L κ ∧
      Disjoint (largePages a) (heapPages (live.erase a) F S) := by
  have hblock := h.large a ha hlarge
  have hmem := fun d => @mem_erase_of_ptrs live h.ptrs d a ha
  refine ⟨{ h with
    ptrs := h.ptrs.erase a
    small := fun d hd hsd => h.small d ((hmem d).mp hd).1 hsd
    cover := fun y hy => ?_
    large := fun d hd hld => h.large d ((hmem d).mp hd).1 hld
    apart := fun d hd e he hld hle hne =>
      h.apart d ((hmem d).mp hd).1 e ((hmem e).mp he).1 hld hle hne }, ?_⟩
  · obtain ⟨d, hd, rfl, hsd⟩ := h.cover y hy
    refine ⟨d, (hmem d).mpr ⟨hd, fun heq => ?_⟩, rfl, hsd⟩
    obtain ⟨-, q, hq, hobj, -⟩ := h.small d hd hsd
    exact absurd (h.small_of_mem_objects ha hq (heq ▸ hobj)) (not_le.mpr hlarge)
  · refine Set.disjoint_union_right.mpr
      ⟨Set.disjoint_union_right.mpr ⟨hblock.notFree, hblock.notSlab⟩, Set.disjoint_left.mpr ?_⟩
    rintro j hj ⟨d, hd, hld, hjd⟩
    obtain ⟨hd, hne⟩ := (hmem d).mp hd
    exact Set.disjoint_left.mp (h.apart a ha d hd hlarge hld fun heq => hne (heq ▸ rfl)) hj hjd

/-- `buddy_free_block` of a live large allocation. -/
theorem HeapInv.freeLarge (h : HeapInv s live F S L κ) {a : ℕ × ℕ} (ha : a ∈ live)
    (hlarge : maxSlabSize < a.2) :
    ∃ b, buddyFreeBlock (virtToPhysLinear a.1) s.buddy = .ok b ∧
      HeapInv { s with buddy := b } (live.erase a) (F ∪ largePages a) S L κ ∧
      HeapFrame s live F S { s with buddy := b } (live.erase a) (F ∪ largePages a) S := by
  have hblock := h.large a ha hlarge
  have hlin := hblock.linear
  unfold linearPages at hlin
  -- The pointer is the one of the block's first page.
  have hphys : virtToPhysLinear a.1 = largePage a * 4096 := by
    unfold virtToPhysLinear
    rw [hblock.addr]
    unfold pageVirt
    rw [sub32_eq (by unfold kernelVaddrBase; omega) (by omega), Nat.add_sub_cancel]
  obtain ⟨hdropped, hapart⟩ := h.dropLarge ha hlarge
  obtain ⟨b, hrun, hinv, hframe⟩ := hdropped.givePages hblock.held hapart
  have hpages : largePages a ⊆ heapPages live F S := fun j hj => Or.inr ⟨a, ha, hlarge, hj⟩
  refine ⟨b, by rw [hphys]; exact hrun, hinv, fun j hj => ?_, ?_⟩
  · exact hframe j (fun hjF => hj (Or.inl (Or.inl hjF))) fun hjb => hj (hpages hjb)
  · rintro j (((hjF | hja) | hjS) | ⟨d, hd, hld, hjd⟩)
    · exact Or.inl (Or.inl hjF)
    · exact hpages hja
    · exact Or.inl (Or.inr hjS)
    · exact Or.inr ⟨d, List.mem_of_mem_erase hd, hld, hjd⟩

/-- **`kfree`** of a live pointer never stops and gives exactly that allocation back. -/
theorem HeapInv.kfree_spec (h : HeapInv s live F S L κ) {a : ℕ × ℕ} (ha : a ∈ live) :
    ∃ s' F' L' κ', kfree a.1 s = .ok s' ∧ HeapInv s' (live.erase a) F' S L' κ' ∧
      HeapFrame s live F S s' (live.erase a) F' S ∧ (maxSlabSize < a.2 → largePages a ⊆ F') := by
  by_cases hsmall : a.2 ≤ maxSlabSize
  · obtain ⟨hL, p, hp, hobj, -⟩ := h.small a ha hsmall
    obtain ⟨free, hslab⟩ := h.inv.pages p hp
    obtain ⟨s', κ', hrun, hinv, hframe⟩ := h.slabFree_spec ha hsmall
    refine ⟨s', F, L \ {a.1}, κ', ?_, hinv, hframe, fun hlarge => absurd hsmall (not_le.mpr hlarge)⟩
    have hne : a.1 ≠ 0 := by
      have hrange := objects_range hslab.class_lt hobj
      unfold pageVirt kernelVaddrBase at hrange
      omega
    unfold kfree
    rw [if_neg hne]
    simp only [page_of_object hslab.linear hslab.class_lt hobj, hslab.state, if_true]
    exact hrun
  · have hblock := h.large a ha (not_le.mp hsmall)
    obtain ⟨b, hrun, hinv, hframe⟩ := h.freeLarge ha (not_le.mp hsmall)
    refine ⟨_, _, L, κ, ?_, hinv, hframe, fun _ => Set.subset_union_right⟩
    have hne : a.1 ≠ 0 := by
      rw [hblock.addr]
      unfold pageVirt kernelVaddrBase
      omega
    have hstate : pageGetState (s.buddy.pages (pageAddrToPage (virtToPhysLinear a.1))) =
        pageStateAllocated := hblock.state
    have hslab : ¬ pageStateAllocated = pageStateSlab := by decide
    unfold kfree
    rw [if_neg hne]
    simp only [hstate, hslab, if_false, if_true, hrun, ok_bind]

/-! ## `kmalloc` -/

/-- The slabs only read the links of their free objects. -/
theorem SlabInv.congr_mem (h : SlabInv s F S L κ) {mem : ℕ → ℕ}
    (hmem : ∀ p ∈ S, ∀ free, SlabPage s S L p free → ∀ y ∈ free, mem y = s.mem y) :
    SlabInv { s with mem := mem } F S L κ := by
  refine { h with pages := fun p hp => ?_ }
  obtain ⟨free, hslab⟩ := h.pages p hp
  exact ⟨free, hslab.congr rfl rfl (hmem p hp free hslab) (fun _ _ => Iff.rfl) id
    fun q hq => ⟨hq, rfl⟩⟩

/-- Clearing a live allocation touches neither a free object nor a header. -/
theorem HeapInv.bzero_spec (h : HeapInv s live F S L κ) {a : ℕ × ℕ} (ha : a ∈ live) :
    ∃ s', bzero a.1 a.2 s = .ok s' ∧ HeapInv s' live F S L κ ∧ s'.buddy = s.buddy := by
  have hlisted : s.anyListed (fun slab => slab < a.1 + a.2 && a.1 < slab + sizeofSlab) = false := by
    rw [← Bool.not_eq_true, h.inv.anyListed_iff]
    rintro ⟨q, hq, hin⟩
    simp only [Bool.and_eq_true, decide_eq_true_eq] at hin
    rcases h.range_header ha hq with hle | hle <;> omega
  refine ⟨{ s with mem := fun x => if a.1 ≤ x ∧ x < a.1 + a.2 then 0 else s.mem x }, ?_, ?_, rfl⟩
  · unfold bzero
    rw [hlisted]
    rfl
  · refine { h with
      inv := h.inv.congr_mem fun p hp free hslab y hy => ?_
      filed := h.filed
      large := fun b hb hlb => ?_ }
    · rcases h.range_free ha hp hslab hy with hlt | hle
      · exact if_neg (by omega)
      · exact if_neg (by omega)
    · have hblock := h.large b hb hlb
      exact hblock.congr rfl hblock.notFree hblock.notSlab

/-- The zone can serve a request of the given size without reclaim. -/
def fits (s : KState) (z : Zone) (size : ℕ) : Bool :=
  if size > maxSlabSize then
    (List.range badOrder).any fun k =>
      decide (sizeToOrder size ≤ k) && decide (orderToNrFree k z s.buddy ≠ 0)
  else pagesNeeded s z (sizeToCacheSize size) ≤ zoneFreePages z s.buddy

/-- The request needs a new slab of large objects, a new slab for its header as well, and the zone
has only one free page. -/
def headerStarved (s : KState) (z : Zone) (size : ℕ) : Bool :=
  decide (size ≤ maxSlabSize) && decide (pagesNeeded s z (sizeToCacheSize size) = 2) &&
    decide (zoneFreePages z s.buddy = 1)

theorem kmallocZone_ne (flags : ℕ) : kmallocZone flags ≠ .highmem := by
  unfold kmallocZone
  split <;> decide

/-- A cache needs at most a page for a slab and one for its header. -/
theorem pagesNeeded_le_two (s : KState) (z : Zone) (c : ℕ) : pagesNeeded s z c ≤ 2 := by
  unfold pagesNeeded
  split
  · omega
  · split
    · split <;> omega
    · omega

theorem fits_small {size : ℕ} (hsmall : size ≤ maxSlabSize) : fits s z size =
    decide (pagesNeeded s z (sizeToCacheSize size) ≤ zoneFreePages z s.buddy) := by
  unfold fits
  rw [if_neg (not_lt.mpr hsmall)]

/-- A large request fits if a list of blocks that are large enough is not empty. -/
theorem HeapInv.fits_large (h : HeapInv s live F S L κ) {size : ℕ} (hlarge : maxSlabSize < size) :
    fits s z size = true ↔
      ∃ k ≤ maxOrder, sizeToOrder size ≤ k ∧ (s.buddy.areas z k).freeList ≠ [] := by
  unfold fits
  rw [if_pos hlarge]
  simp only [List.any_eq_true, List.mem_range, Bool.and_eq_true, decide_eq_true_eq, ne_eq,
    orderToNrFree, h.inv.buddy.count, List.length_eq_zero_iff]
  constructor
  · rintro ⟨k, hk, hle, hne⟩
    exact ⟨k, Nat.le_of_lt_succ hk, hle, hne⟩
  · rintro ⟨k, hk, hle, hne⟩
    exact ⟨k, Nat.lt_succ_of_le hk, hle, hne⟩

theorem headerStarved_large {size : ℕ} (hlarge : maxSlabSize < size) :
    headerStarved s z size = false := by
  unfold headerStarved
  rw [decide_eq_false (not_le.mpr hlarge)]
  rfl

/-- `get_allocation` serves what fits, returns `NULL` where nothing fits, and panics on a starved
header. -/
theorem HeapInv.getAllocation_spec (h : HeapInv s live F S L κ) (hz : z ≠ .highmem) {size : ℕ}
    (hmax : size ≤ maxKmallocSize) (n : ℕ) :
    (fits s z size = true ∧ ∃ x s' F' S' L' κ',
      getAllocation (kmallocN (n + 1)) z size s = .ok (x, s') ∧ x ≠ 0 ∧
      HeapInv s' ((x, size) :: live) F' S' L' κ' ∧
      HeapFrame s live F S s' ((x, size) :: live) F' S') ∨
    (fits s z size = false ∧ headerStarved s z size = false ∧
      getAllocation (kmallocN (n + 1)) z size s = .ok (0, s)) ∨
    (fits s z size = false ∧ headerStarved s z size = true ∧ (noEmptySlabs s z = true →
      getAllocation (kmallocN (n + 1)) z size s =
        .error (.kpanic "Attempt to free a page with invalid state (%d) at %p\n"))) := by
  -- Small requests go to a slab cache, large ones to the buddy allocator.
  by_cases hsmall : size ≤ maxSlabSize
  · have hc := (sizeToCacheSize_spec hsmall).1
    have hrun : getAllocation (kmallocN (n + 1)) z size s =
        slabAlloc (kmallocN (n + 1)) size z s := by
      unfold getAllocation
      rw [if_neg (not_lt.mpr hsmall)]
    rw [hrun, fits_small hsmall]
    rcases h.inv.slabAlloc_spec h.filed h.zero hz rfl hc (fun _ => headerAlloc_kmallocN n) with
      ⟨hle, x, s', F', S', L', κ', hok, hserved⟩ | ⟨hlt, hzero, hok⟩ | ⟨hlt, hone, hstop⟩
    · -- An object of a slab page, whose virtual address is in the kernel half.
      refine Or.inl ⟨decide_eq_true hle, x, s', F', S', L', κ', hok, ?_,
        h.allocSmall hc hsmall rfl hserved⟩
      obtain ⟨p, -, -, -, hobj⟩ := hserved.obj
      have hrange := objects_range hc hobj
      unfold pageVirt kernelVaddrBase at hrange
      omega
    · -- No page is left, and the cache could ask for none.
      refine Or.inr (Or.inl ⟨decide_eq_false (not_le.mpr hlt), ?_, hok⟩)
      unfold headerStarved
      rw [hzero]
      simp
    · -- One page is left for a slab and its header: the slab's page is freed in a wrong state.
      refine Or.inr (Or.inr ⟨decide_eq_false (not_le.mpr hlt), ?_, hstop⟩)
      have hneed := pagesNeeded_le_two s z (sizeToCacheSize size)
      unfold headerStarved
      rw [decide_eq_true hsmall, decide_eq_true (by omega : _ = 2), decide_eq_true hone]
      rfl
  · have hlarge := not_le.mp hsmall
    -- The buddy allocator serves from the first list that is long enough.
    rcases buddyAllocPages_spec h.inv.buddy h.zero size z with
      ⟨hnull, hempty⟩ | ⟨p, c, b, hok, ha⟩
    · refine Or.inr (Or.inl ⟨?_, headerStarved_large hlarge, ?_⟩)
      · rw [← Bool.not_eq_true, h.fits_large hlarge]
        rintro ⟨k, hk, hle, hne⟩
        exact hne (hempty k hle hk)
      · unfold getAllocation
        rw [if_pos hlarge, hnull]
        rfl
    · obtain ⟨hvirt, hne, hinv, hframe⟩ := h.allocLarge hz hlarge hmax ha
      have hpmax := h.inv.buddy.inTable p (ha.subset (self_mem_block p _))
      have hphys : pageToPhys p ≠ 0 := by
        rw [pageToPhys_eq hpmax]
        have := ha.ne_zero
        omega
      refine Or.inl ⟨?_, pageVirt p, _, _, _, _, _, ?_, hne, hinv, hframe⟩
      · rw [h.fits_large hlarge]
        obtain ⟨rest, hlist⟩ := ha.first
        exact ⟨c, ha.found.2, ha.found.1, by rw [hlist]; exact List.cons_ne_nil _ _⟩
      · unfold getAllocation
        rw [if_pos hlarge, hok, ok_bind]
        simp only
        rw [if_pos hphys, hvirt]

/-- **`kmalloc`**, for a size that is refused, a request that fits or a zone with nothing to
reclaim: it serves what fits, returns `NULL` with the state unchanged where nothing fits, and panics
on a starved header. -/
theorem HeapInv.kmalloc_spec (h : HeapInv s live F S L κ) (size flags : ℕ)
    (hcond : size = 0 ∨ maxKmallocSize < size ∨ fits s (kmallocZone flags) size = true ∨
      noEmptySlabs s (kmallocZone flags) = true) :
    (∃ x s' F' S' L' κ', kmalloc size flags s = .ok (x, s') ∧ x ≠ 0 ∧
      HeapInv s' ((x, size) :: live) F' S' L' κ' ∧
      HeapFrame s live F S s' ((x, size) :: live) F' S') ∨
    kmalloc size flags s = .ok (0, s) ∨
    (headerStarved s (kmallocZone flags) size = true ∧ kmalloc size flags s =
      .error (.kpanic "Attempt to free a page with invalid state (%d) at %p\n")) := by
  -- The two tests of the size come first.
  by_cases h0 : size = 0
  · right; left
    unfold kmalloc kmallocN
    rw [if_pos h0]
    rfl
  by_cases hmax : size ≤ maxKmallocSize
  swap
  · right; left
    unfold kmalloc kmallocN
    rw [if_neg h0, if_pos (not_le.mp hmax)]
    rfl
  have hcond := (hcond.resolve_left h0).resolve_left (not_lt.mpr hmax)
  have hrun : kmalloc size flags s = (do
      let (ret, s) ← tryAllocWithReclaim (kmallocN 1) (kmallocZone flags) size s
      if ret ≠ 0 ∧ flags &&& gfpZero ≠ 0 then do
        let s ← bzero ret size s
        .ok (ret, s)
      else .ok (ret, s)) := by
    unfold kmalloc kmallocN
    rw [if_neg h0, if_neg (not_lt.mpr hmax)]
    rfl
  rw [hrun]
  have hempty (hfit : fits s (kmallocZone flags) size = false) :
      noEmptySlabs s (kmallocZone flags) = true :=
    hcond.resolve_left (by rw [hfit]; exact Bool.false_ne_true)
  -- What the first attempt gives decides the rest.
  rcases h.getAllocation_spec (kmallocZone_ne flags) hmax 0 with
    ⟨-, x, s', F', S', L', κ', hok, hne, hinv, hframe⟩ | ⟨hfit, -, hok⟩ | ⟨hfit, hstarved, hstop⟩
  · left
    have htry : tryAllocWithReclaim (kmallocN 1) (kmallocZone flags) size s = .ok (x, s') := by
      unfold tryAllocWithReclaim
      rw [hok, ok_bind]
      simp only
      rw [if_neg hne]
      rfl
    rw [htry, ok_bind]
    simp only
    -- `GFP_ZERO` writes only inside the new block.
    by_cases hzero : flags &&& gfpZero = 0
    · refine ⟨x, s', F', S', L', κ', ?_, hne, hinv, hframe⟩
      rw [if_neg (fun hc => hc.2 hzero)]
    · obtain ⟨s'', hbz, hinv', hbuddy⟩ := hinv.bzero_spec (a := (x, size)) List.mem_cons_self
      refine ⟨x, s'', F', S', L', κ', ?_, hne, hinv', fun j hj => ?_, hframe.sub⟩
      swap
      · rw [hbuddy]
        exact hframe.pages j hj
      rw [if_pos ⟨hne, hzero⟩]
      simp only at hbz
      rw [hbz, ok_bind]
  · right; left
    -- Without empty slabs the reclaim changes nothing, and the second attempt fails too.
    have htry : tryAllocWithReclaim (kmallocN 1) (kmallocZone flags) size s = .ok (0, s) := by
      unfold tryAllocWithReclaim
      rw [hok, ok_bind]
      simp only [if_true]
      rw [slabShrinkCaches_eq (hempty hfit), ok_bind, hok]
    rw [htry, ok_bind]
    simp only [ne_eq, not_true_eq_false, false_and, if_false]
  · right; right
    -- The panic is that of the first attempt; there is no second one.
    refine ⟨hstarved, ?_⟩
    unfold tryAllocWithReclaim
    rw [hstop (hempty hfit)]
    rfl

end Heap

end Kfs.Memory
