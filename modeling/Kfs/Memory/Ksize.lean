import Kfs.Memory.KmallocRuns

/-!
# The usable size of an allocation

`kmalloc` chooses a size class or a buddy order from the requested size; `ksize` recovers it from
the page descriptor and, for a slab, from the cache behind the header.

## Layers

- `sizeSteps`, `UsableSize`: what `ksize` should say about a pointer;
- `HeapInv.usableSize`: the heap invariant says it of every live pointer;
- `kmalloc_ksize`: every pointer keeps its usable size until it is freed.
-/

namespace Kfs.Memory

open Kfs.Lib Kfs.Lib.Word32 Kfs.Lib.Dyadic

/-! ## What `ksize` should say -/

/-- The sizes that `kmalloc` rounds up to: the object sizes of the slab caches for the small
requests, the block sizes of the buddy allocator for the others. -/
def sizeSteps (size : ℕ) : Set ℕ :=
  if size ≤ maxSlabSize then { m | ∃ c < numSlabCaches, m = 8 * 2 ^ c }
  else { m | ∃ k ≤ maxOrder, m = 4096 * 2 ^ k }

/-- The page of a pointer into the linear mapping. -/
def pageOfPtr (ptr : ℕ) : ℕ := pageAddrToPage (virtToPhysLinear ptr)

/-- The object area of slab page `p`: `available_space` bytes from the first object on. -/
def objectArea (s : KState) (p : ℕ) : Set ℕ :=
  let cache := (s.slabs (s.buddy.pages p).privateData).parentCache
  let size := (s.caches cache.1 cache.2).objectSize
  let availableSpace := if slabIsExternal size then pageSize else pageSize - sizeofSlab
  Set.Ico (firstObject p size) (firstObject p size + availableSpace)

/-- The bytes of the buddy block that starts at page `p`. -/
def blockArea (s : KState) (p : ℕ) : Set ℕ :=
  Set.Ico (physToVirtLinear (pageToPhys p))
    (physToVirtLinear (pageToPhys p) + orderToBytes (s.buddy.pages p).privateData)

/-- `ksize` of `ptr` is what a request for `size` bytes should have got, and these bytes lie inside
the slab or the block of `ptr`. -/
structure UsableSize (s : KState) (ptr size : ℕ) : Prop where
  least : IsLeast { m | m ∈ sizeSteps size ∧ size ≤ m } (ksize ptr s)
  inSlab : size ≤ maxSlabSize →
    pageGetState (s.buddy.pages (pageOfPtr ptr)) = pageStateSlab ∧
      Set.Ico ptr (ptr + ksize ptr s) ⊆ objectArea s (pageOfPtr ptr)
  inBlock : maxSlabSize < size →
    pageGetState (s.buddy.pages (pageOfPtr ptr)) = pageStateAllocated ∧
      Set.Ico ptr (ptr + ksize ptr s) ⊆ blockArea s (pageOfPtr ptr)

/-! ## The steps are the least ones that fit -/

theorem sizeToCacheSize_isLeast {size : ℕ} (hsize : size ≤ maxSlabSize) :
    IsLeast { m | m ∈ sizeSteps size ∧ size ≤ m } (objSize (sizeToCacheSize size)) := by
  obtain ⟨hc, hfit, hleast⟩ := sizeToCacheSize_least hsize
  rw [objSize_eq_two_pow hc]
  unfold sizeSteps
  rw [if_pos hsize]
  constructor
  · exact ⟨⟨sizeToCacheSize size, hc, by ring⟩, hfit⟩
  · rintro m ⟨⟨c, -, rfl⟩, hm⟩
    have hle : sizeToCacheSize size ≤ c := by
      by_contra hlt
      have hsmaller := hleast c (not_le.mp hlt)
      rw [pow_add] at hsmaller
      omega
    calc 2 ^ (sizeToCacheSize size + 3) ≤ 2 ^ (c + 3) :=
          Nat.pow_le_pow_right (by norm_num) (by omega)
      _ = 8 * 2 ^ c := by ring

theorem sizeToOrder_isLeast {size : ℕ} (hlarge : maxSlabSize < size) (hmax : size ≤ maxKmallocSize)
    (horder : sizeToOrder size ≤ maxOrder) :
    IsLeast { m | m ∈ sizeSteps size ∧ size ≤ m } (orderToBytes (sizeToOrder size)) := by
  have hwrap : size + (pageSize - 1) < 2 ^ 32 := by
    unfold maxKmallocSize at hmax
    unfold pageSize
    omega
  obtain ⟨hfit, hleast⟩ := sizeToOrder_bytes hwrap horder
  unfold sizeSteps
  rw [if_neg (not_le.mpr hlarge)]
  constructor
  · refine ⟨⟨sizeToOrder size, horder, ?_⟩, hfit⟩
    unfold orderToBytes pageByOrder pageSize
    ring
  · rintro m ⟨⟨k, -, rfl⟩, hm⟩
    have hle : sizeToOrder size ≤ k := by
      by_contra hlt
      have hsmaller := hleast k (not_le.mp hlt)
      unfold orderToBytes pageByOrder pageSize at hsmaller
      omega
    unfold orderToBytes pageByOrder pageSize
    rw [mul_comm]
    exact Nat.mul_le_mul_left 4096 (Nat.pow_le_pow_right (by norm_num) hle)

/-! ## Live pointers -/

section Live

variable {s : KState} {live : List (ℕ × ℕ)} {F S L : Set ℕ} {κ : ℕ → Fill} {a : ℕ × ℕ}

/-- `ksize` of a pointer into a slab page. -/
theorem ksize_slab (hne : a.1 ≠ 0)
    (hstate : pageGetState (s.buddy.pages (pageOfPtr a.1)) = pageStateSlab) :
    ksize a.1 s = (s.caches (s.slabs (headerOf s (pageOfPtr a.1))).parentCache.1
      (classOf s (pageOfPtr a.1))).objectSize := by
  unfold pageOfPtr at hstate
  unfold ksize
  simp only [hne, hstate, if_false, if_true]
  rfl

/-- A small live pointer. -/
theorem HeapInv.usableSmall (h : HeapInv s live F S L κ) (ha : a ∈ live)
    (hsmall : a.2 ≤ maxSlabSize) : UsableSize s a.1 a.2 := by
  obtain ⟨-, p, hp, hobj, hcls⟩ := h.small a ha hsmall
  obtain ⟨free, hslab⟩ := h.inv.pages p hp
  have hpage : pageOfPtr a.1 = p := page_of_object hslab.linear hslab.class_lt hobj
  have hsize : ∀ z, (s.caches z (classOf s p)).objectSize = objSize (classOf s p) :=
    fun z => (h.inv.caches z _ hslab.class_lt).1
  obtain ⟨hlo, hhi⟩ := objects_range hslab.class_lt hobj
  have hne : a.1 ≠ 0 := by
    unfold pageVirt kernelVaddrBase at hlo
    omega
  have hksize : ksize a.1 s = objSize (classOf s p) := by
    rw [ksize_slab hne (by rw [hpage]; exact hslab.state), hpage]
    exact hsize _
  refine ⟨?_, fun _ => ⟨by rw [hpage]; exact hslab.state, ?_⟩, fun hlarge => ?_⟩
  · rw [hksize, hcls]
    exact sizeToCacheSize_isLeast hsmall
  · -- the area runs from the first object to the end of the page
    have harea : objectArea s p = Set.Ico (pageVirt p + headerSpace (classOf s p))
        (pageVirt p + 4096) := by
      have hfirst := @firstObject_add p (classOf s p) hslab.linear 0
      unfold objAddr at hfirst
      simp only [Nat.zero_mul, Nat.add_zero] at hfirst
      unfold objectArea
      simp only
      rw [show (s.slabs (s.buddy.pages p).privateData).parentCache.2 = classOf s p from rfl, hsize,
        hfirst]
      unfold headerSpace isExternal pageSize sizeofSlab
      cases slabIsExternal (objSize (classOf s p)) <;> simp [Nat.add_assoc]
    rw [hksize, hpage, harea]
    exact Set.Ico_subset_Ico hlo hhi
  · exact absurd hsmall (not_le.mpr hlarge)

/-- A large live pointer. -/
theorem HeapInv.usableLarge (h : HeapInv s live F S L κ) (ha : a ∈ live)
    (hlarge : maxSlabSize < a.2) : UsableSize s a.1 a.2 := by
  have hblock := h.large a ha hlarge
  have hmax : a.2 ≤ maxKmallocSize := by
    have hpow : 2 ^ sizeToOrder a.2 ≤ 2 ^ maxOrder :=
      Nat.pow_le_pow_right (by decide) hblock.order_le
    have hle := hblock.size_le
    unfold maxOrder at hpow
    unfold maxKmallocSize
    omega
  have hstate : pageGetState (s.buddy.pages (pageAddrToPage (virtToPhysLinear a.1))) =
      pageStateAllocated := hblock.state
  have horder : (s.buddy.pages (pageAddrToPage (virtToPhysLinear a.1))).privateData =
      sizeToOrder a.2 := hblock.order
  have haddr : a.1 = physToVirtLinear (pageToPhys (pageOfPtr a.1)) := by
    rw [show pageOfPtr a.1 = largePage a from rfl, physToVirtLinear_pageToPhys hblock.linear]
    exact hblock.addr
  have hne : a.1 ≠ 0 := by
    rw [hblock.addr]
    unfold pageVirt kernelVaddrBase
    omega
  have hksize : ksize a.1 s = orderToBytes (sizeToOrder a.2) := by
    have hslab : ¬ pageStateAllocated = pageStateSlab := by decide
    have hmagic : ¬ sizeToOrder a.2 = pageMagic := by
      have hle := hblock.order_le
      unfold maxOrder at hle
      unfold pageMagic
      omega
    unfold ksize
    simp only [hne, hstate, horder, hslab, hmagic, if_false, if_true]
  refine ⟨?_, fun hsmall => ?_, fun _ => ⟨hblock.state, ?_⟩⟩
  · rw [hksize]
    exact sizeToOrder_isLeast hlarge hmax hblock.order_le
  · exact absurd hlarge (not_lt.mpr hsmall)
  · have hdata : (s.buddy.pages (pageOfPtr a.1)).privateData = sizeToOrder a.2 := horder
    unfold blockArea
    rw [hksize, hdata, ← haddr]

/-- The heap invariant determines the usable size of every live pointer. -/
theorem HeapInv.usableSize (h : HeapInv s live F S L κ) (ha : a ∈ live) :
    UsableSize s a.1 a.2 := by
  rcases le_or_gt a.2 maxSlabSize with hsmall | hlarge
  · exact h.usableSmall ha hsmall
  · exact h.usableLarge ha hlarge

end Live

/-! ## Runs -/

section Runs

variable {r r' : KRun}

/-- Only `kfree` of a pointer ends its life. -/
theorem mem_live_of_step {a : ℕ × ℕ} {call : KCall} (ha : a ∈ r.live) (hcall : call ≠ .kfree a.1)
    (hs : kmallocStep r call = .ok r') : a ∈ r'.live := by
  cases call with
  | kmalloc size flags =>
    obtain ⟨⟨ptr, s⟩, -, hr'⟩ := bind_eq_ok.mp hs
    obtain rfl := Except.ok.inj hr'
    simp only [addLive]
    split
    · exact ha
    · exact List.mem_cons_of_mem _ ha
  | kfree ptr =>
    simp only [Memory.kmallocStep, freeLive] at hs
    cases hfind : r.live.find? (·.1 == ptr) with
    | none =>
      rw [hfind] at hs
      cases hs
    | some b =>
      rw [hfind] at hs
      obtain ⟨s, -, hr'⟩ := bind_eq_ok.mp hs
      obtain rfl := Except.ok.inj hr'
      have hb : b.1 = ptr := by simpa using List.find?_some hfind
      have hne : a ≠ b := by
        rintro rfl
        exact hcall (by rw [hb])
      exact (List.mem_erase_of_ne hne).mpr ha

/-- A pointer that no call of a run frees stays live. -/
theorem mem_live_of_run {a : ℕ × ℕ} {calls : List KCall} (hcalls : ∀ call ∈ calls, call ≠ .kfree a.1)
    (ha : a ∈ r.live)
    (hrun : calls.foldlM (System.checkedStep ReclaimsNothing kmallocStep) r = some r') :
    a ∈ r'.live := by
  induction calls generalizing r with
  | nil =>
    obtain rfl : r = r' := Option.some.inj hrun
    exact ha
  | cons call calls ih =>
    rw [List.foldlM_cons, Option.bind_eq_bind, Option.bind_eq_some_iff] at hrun
    obtain ⟨r₁, hstep, hrest⟩ := hrun
    have hcall := hcalls call List.mem_cons_self
    have hlater : ∀ call ∈ calls, call ≠ .kfree a.1 :=
      fun c hc => hcalls c (List.mem_cons_of_mem _ hc)
    unfold System.checkedStep at hstep
    split at hstep
    · exact ih hlater (mem_live_of_step ha hcall (eq_ok_of_toOption hstep)) hrest
    · cases hstep

end Runs

/-- **`kmalloc` and `ksize` agree**, in every run of `kmalloc` and `kfree` in which no call reclaims
an empty slab: the usable size of a pointer is the least step from its requested size on, its bytes
stay inside one slab or block, and both hold until the pointer is freed. -/
theorem kmalloc_ksize {n : ℕ} {t : BuddyState} (ht : BootTable n t) {r : KRun}
    (hr : ((kmallocSystem n t).restrict ReclaimsNothing).Reachable r) {size flags ptr : ℕ}
    {s : KState} (hcall : ReclaimsNothing r (.kmalloc size flags))
    (hrun : kmalloc size flags r.state = .ok (ptr, s)) (hptr : ptr ≠ 0) {calls : List KCall}
    (hcalls : ∀ call ∈ calls, call ≠ .kfree ptr) {r' : KRun}
    (hrest : calls.foldlM (System.checkedStep ReclaimsNothing kmallocStep)
      { state := s, live := (ptr, size) :: r.live } = some r') :
    UsableSize r'.state ptr size := by
  have hstep : kmallocStep r (.kmalloc size flags) =
      .ok { state := s, live := (ptr, size) :: r.live } := by
    simp [kmallocStep, hrun, ok_bind, addLive, hptr]
  have hreach : ((kmallocSystem n t).restrict ReclaimsNothing).Reachable r' :=
    System.Reachable.foldlM_restrict (.step hr ⟨hcall, hstep⟩) hrest
  obtain ⟨F, S, L, κ, hheap⟩ := KRun.Inv.of_reachable ht hreach
  exact hheap.usableSize (a := (ptr, size)) (mem_live_of_run hcalls List.mem_cons_self hrest)

theorem kmalloc_ksize_dmaTable : ∃ r s r',
    ((kmallocSystem 4 (dmaTable 3)).restrict ReclaimsNothing).Reachable r ∧
    kmalloc 30 gfpDma r.state = .ok (0xC0001040, s) ∧
    [KCall.kmalloc 2049 gfpDma, .kfree 0xC0001020].foldlM
      (System.checkedStep ReclaimsNothing kmallocStep)
      { state := s, live := (0xC0001040, 30) :: r.live } = some r' ∧
    UsableSize r'.state 0xC0001040 30 := by
  have hview : ((runCalls ReclaimsNothing kmallocStep 4 (dmaTable 3) [.kmalloc 20 gfpDma]).bind
      fun r => (kmalloc 30 gfpDma r.state).toOption.bind fun p =>
        ([KCall.kmalloc 2049 gfpDma, .kfree 0xC0001020].foldlM
          (System.checkedStep ReclaimsNothing kmallocStep)
          { state := p.2, live := (0xC0001040, 30) :: r.live }).map fun _ =>
            (p.1, decide (ReclaimsNothing r (.kmalloc 30 gfpDma)))) = some (0xC0001040, true) := by
    decide +kernel
  obtain ⟨r, hr, hview⟩ := Option.bind_eq_some_iff.mp hview
  obtain ⟨⟨ptr, s⟩, hs, hview⟩ := Option.bind_eq_some_iff.mp hview
  obtain ⟨r', hrest, hview⟩ := Option.map_eq_some_iff.mp hview
  simp only [Prod.mk.injEq, decide_eq_true_eq] at hview
  obtain ⟨rfl, hcall⟩ := hview
  have hrun := eq_ok_of_toOption hs
  have hreach := runCalls_reachable hr
  exact ⟨r, s, r', hreach, hrun, hrest,
    kmalloc_ksize (pageDescriptorInit_bootTable (by decide) (by decide)) hreach hcall hrun
      (by decide) (by decide) hrest⟩

end Kfs.Memory
