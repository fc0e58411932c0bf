import Kfs.Lib.Chain
import Kfs.Memory.BuddySpec
import Kfs.Memory.Slab

/-!
# The representation invariant of the slab allocator

`SlabInv s F S L κ` says that the pages of `S` are slabs, that their free lists hold exactly the
objects outside `L`, and that the lists of the caches hold every slab once, namely on the list
that `κ` names for its header. `F` is the free set of the buddy allocator below. Between the
operations `κ` follows the counter of the slab (`Filed`); inside them one slab may be on the list
for the partial ones with any counter.

`S` may leave out a page in the state `SLAB`: `slab_create` sets the state before the page has a
header.
-/

namespace Kfs.Memory

open Kfs.Lib Kfs.Lib.Word32 Kfs.Lib.Dyadic

/-! ## Geometry of a slab -/

/-- `object_size` of a size class. -/
def objSize (c : ℕ) : ℕ := (initCache c).objectSize

/-- `objects_per_slab` of a size class. -/
def perSlab (c : ℕ) : ℕ := (initCache c).objectsPerSlab

/-- The slabs of the class keep their header outside their page. -/
def isExternal (c : ℕ) : Bool := slabIsExternal (objSize c)

/-- The bytes of the page before the first object. -/
def headerSpace (c : ℕ) : ℕ := if isExternal c then 0 else sizeofSlab

/-- The virtual address of a page of the linear mapping. -/
def pageVirt (p : ℕ) : ℕ := p * 4096 + kernelVaddrBase

/-- The address of object `i` of a slab of class `c` on page `p`. -/
def objAddr (p c i : ℕ) : ℕ := pageVirt p + headerSpace c + i * objSize c

/-- The objects of a slab. -/
def objects (p c : ℕ) : Set ℕ := { x | ∃ i < perSlab c, x = objAddr p c i }

/-- The pages below `HIGHMEM_START`, which the linear mapping reaches. -/
def linearPages : ℕ := 229376

theorem class_geometry {c : ℕ} (hc : c < numSlabCaches) :
    8 ≤ objSize c ∧ 2 ≤ perSlab c ∧ perSlab c < 4096 ∧
      headerSpace c + perSlab c * objSize c ≤ 4096 ∧
      (if isExternal c then pageSize else pageSize - sizeofSlab) / objSize c = perSlab c := by
  have h : ∀ c < 9, 8 ≤ objSize c ∧ 2 ≤ perSlab c ∧ perSlab c < 4096 ∧
      headerSpace c + perSlab c * objSize c ≤ 4096 ∧
      (if isExternal c then pageSize else pageSize - sizeofSlab) / objSize c = perSlab c := by
    decide
  exact h c hc

theorem physToVirtLinear_pageToPhys {p : ℕ} (hp : p < linearPages) :
    physToVirtLinear (pageToPhys p) = pageVirt p := by
  unfold linearPages at hp
  unfold physToVirtLinear pageVirt
  rw [pageToPhys_eq (by unfold maxPages; omega), add32_eq (by unfold kernelVaddrBase; omega)]

/-- An object lies in its page, behind the header if the page holds one. -/
theorem objects_range {p c x : ℕ} (hc : c < numSlabCaches) (hx : x ∈ objects p c) :
    pageVirt p + headerSpace c ≤ x ∧ x + objSize c ≤ pageVirt p + 4096 := by
  obtain ⟨i, hi, rfl⟩ := hx
  obtain ⟨-, -, -, hfit, -⟩ := class_geometry hc
  have hmul : (i + 1) * objSize c ≤ perSlab c * objSize c := Nat.mul_le_mul_right _ hi
  rw [Nat.succ_mul] at hmul
  unfold objAddr
  constructor
  · exact Nat.le_add_right _ _
  · omega

/-- The page of an address inside a page of the linear mapping. -/
theorem pageAddrToPage_virtToPhysLinear {p x : ℕ} (hp : p < linearPages) (hlo : pageVirt p ≤ x)
    (hhi : x < pageVirt p + 4096) : pageAddrToPage (virtToPhysLinear x) = p := by
  unfold linearPages at hp
  unfold pageVirt kernelVaddrBase at hlo hhi
  unfold virtToPhysLinear
  rw [sub32_eq (by omega) (by unfold kernelVaddrBase; omega),
    pageAddrToPage_eq (by unfold kernelVaddrBase; omega)]
  unfold kernelVaddrBase
  omega

theorem page_of_object {p c x : ℕ} (hp : p < linearPages) (hc : c < numSlabCaches)
    (hx : x ∈ objects p c) : pageAddrToPage (virtToPhysLinear x) = p := by
  obtain ⟨hlo, hhi⟩ := objects_range hc hx
  obtain ⟨hsize, -⟩ := class_geometry hc
  exact pageAddrToPage_virtToPhysLinear hp (by omega) (by omega)

/-- Objects of one slab start at least an object size apart. -/
theorem objects_apart {p c x y : ℕ} (hx : x ∈ objects p c) (hy : y ∈ objects p c) (hne : x ≠ y) :
    x + objSize c ≤ y ∨ y + objSize c ≤ x := by
  obtain ⟨i, -, rfl⟩ := hx
  obtain ⟨j, -, rfl⟩ := hy
  unfold objAddr at hne ⊢
  rcases Nat.lt_trichotomy i j with hij | rfl | hij
  · left
    have hmul : (i + 1) * objSize c ≤ j * objSize c := Nat.mul_le_mul_right _ hij
    rw [Nat.succ_mul] at hmul
    omega
  · exact absurd rfl hne
  · right
    have hmul : (j + 1) * objSize c ≤ i * objSize c := Nat.mul_le_mul_right _ hij
    rw [Nat.succ_mul] at hmul
    omega

theorem pageVirt_le_of_ne {p q : ℕ} (h : p ≠ q) :
    pageVirt p + 4096 ≤ pageVirt q ∨ pageVirt q + 4096 ≤ pageVirt p := by
  unfold pageVirt
  omega

/-- The addresses of the objects, in the order of the fresh free list. -/
theorem objAddr_injective {c : ℕ} (hc : c < numSlabCaches) (p : ℕ) :
    Function.Injective (objAddr p c) := by
  obtain ⟨hsize, -⟩ := class_geometry hc
  intro i j hij
  unfold objAddr at hij
  exact Nat.eq_of_mul_eq_mul_right (by omega) (Nat.add_left_cancel hij)

theorem length_le_perSlab {p c : ℕ} {l : List ℕ} (hnodup : l.Nodup)
    (hobjs : ∀ x ∈ l, x ∈ objects p c) : l.length ≤ perSlab c := by
  have hsub : l.toFinset ⊆ (Finset.range (perSlab c)).image (objAddr p c) := by
    intro x hx
    obtain ⟨i, hi, rfl⟩ := hobjs x (List.mem_toFinset.mp hx)
    exact Finset.mem_image_of_mem _ (Finset.mem_range.mpr hi)
  calc l.length = l.toFinset.card := (List.toFinset_card_of_nodup hnodup).symm
    _ ≤ ((Finset.range (perSlab c)).image (objAddr p c)).card := Finset.card_le_card hsub
    _ ≤ (Finset.range (perSlab c)).card := Finset.card_image_le
    _ = perSlab c := Finset.card_range _

/-! ## The invariant -/

section Definitions

variable (s : KState)

/-- The header address of a slab page: its `private_data`. -/
def headerOf (p : ℕ) : ℕ := (s.buddy.pages p).privateData

/-- The size class of a slab page. -/
def classOf (p : ℕ) : ℕ := (s.slabs (headerOf s p)).parentCache.2

/-- The header addresses of the slabs on the pages of `S`. -/
def headers (S : Set ℕ) : Set ℕ := { h | ∃ p ∈ S, headerOf s p = h }

/-- Page `p` is a slab whose free list holds the objects `free`. -/
structure SlabPage (S L : Set ℕ) (p : ℕ) (free : List ℕ) : Prop where
  state : pageGetState (s.buddy.pages p) = pageStateSlab
  linear : p < linearPages
  class_lt : classOf s p < numSlabCaches
  zone : (s.slabs (headerOf s p)).parentCache.1 = zoneOfPage p
  chain : Chain s.mem 0 (s.slabs (headerOf s p)).freelist free
  nodup : free.Nodup
  objs : ∀ x ∈ free, x ∈ objects p (classOf s p)
  count : free.length + (s.slabs (headerOf s p)).inuse = perSlab (classOf s p)
  live : ∀ x ∈ objects p (classOf s p), x ∈ L ↔ x ∉ free
  header : if isExternal (classOf s p) then
      headerOf s p ∈ L ∧ ∃ q ∈ S, classOf s q = 2 ∧ headerOf s p ∈ objects q 2
    else headerOf s p = pageVirt p

/-- The slab allocator represents the slab pages `S` with the allocated objects `L`. -/
structure SlabInv (F S L : Set ℕ) (κ : ℕ → Fill) : Prop where
  buddy : FreeInv s.buddy F ∅
  caches : ∀ z, ∀ c < numSlabCaches, (s.caches z c).objectSize = objSize c ∧
    (s.caches z c).objectsPerSlab = perSlab c
  pages : ∀ p ∈ S, ∃ free, SlabPage s S L p free
  inj : ∀ p ∈ S, ∀ q ∈ S, headerOf s p = headerOf s q → p = q
  objs : ∀ x ∈ L, ∃ p ∈ S, x ∈ objects p (classOf s p)
  lists : ∀ z, ∀ c < numSlabCaches, ∀ fill h, h ∈ (s.caches z c).list fill ↔
    h ∈ headers s S ∧ (s.slabs h).parentCache = (z, c) ∧ κ h = fill
  nodup : ∀ z, ∀ c < numSlabCaches, ∀ fill, ((s.caches z c).list fill).Nodup

/-- The list for a slab of class `c` with `inuse` live objects. -/
def fillOf (c inuse : ℕ) : Fill :=
  if inuse = perSlab c then .full else if inuse = 0 then .empty else .part

/-- Every slab other than those of `E` is on the list for its counter. -/
def Filed (S E : Set ℕ) (κ : ℕ → Fill) : Prop :=
  ∀ p ∈ S, p ∉ E → κ (headerOf s p) = fillOf (classOf s p) (s.slabs (headerOf s p)).inuse

end Definitions

/-- A slab page depends on its descriptor, its header, the links of its free objects and which of
its objects are allocated. -/
theorem SlabPage.congr {s s' : KState} {S S' L L' : Set ℕ} {p : ℕ} {free : List ℕ}
    (h : SlabPage s S L p free) (hpage : s'.buddy.pages p = s.buddy.pages p)
    (hslab : s'.slabs (headerOf s p) = s.slabs (headerOf s p))
    (hmem : ∀ x ∈ free, s'.mem x = s.mem x)
    (hlive : ∀ x ∈ objects p (classOf s p), x ∈ L' ↔ x ∈ L)
    (hheader : headerOf s p ∈ L → headerOf s p ∈ L')
    (hS : ∀ q ∈ S, q ∈ S' ∧ classOf s' q = classOf s q) : SlabPage s' S' L' p free := by
  have hhead : headerOf s' p = headerOf s p := by
    unfold headerOf
    rw [hpage]
  have hslab' : s'.slabs (headerOf s' p) = s.slabs (headerOf s p) := by rw [hhead, hslab]
  have hclass : classOf s' p = classOf s p := by
    unfold classOf
    rw [hslab']
  refine {
    state := by rw [hpage]; exact h.state
    linear := h.linear
    class_lt := by rw [hclass]; exact h.class_lt
    zone := by rw [hslab']; exact h.zone
    chain := by rw [hslab']; exact h.chain.frame hmem
    nodup := h.nodup
    objs := by rw [hclass]; exact h.objs
    count := by rw [hslab', hclass]; exact h.count
    live := fun x hx => ?_
    header := ?_ }
  · rw [hclass] at hx
    rw [hlive x hx]
    exact h.live x hx
  · have hold := h.header
    rw [hclass, hhead]
    split
    next hext =>
      rw [if_pos hext] at hold
      obtain ⟨hL, q, hq, hcq, hobj⟩ := hold
      exact ⟨hheader hL, q, (hS q hq).1, (hS q hq).2.trans hcq, hobj⟩
    next hext =>
      rw [if_neg hext] at hold
      exact hold

section Lists

variable {s : KState} {F S L : Set ℕ} {κ : ℕ → Fill}

/-! ## The nodes on the lists -/

theorem SlabInv.header_mem {p : ℕ} (hp : p ∈ S) : headerOf s p ∈ headers s S := ⟨p, hp, rfl⟩

/-- A slab is on a list of its cache. -/
theorem SlabInv.mem_list (h : SlabInv s F S L κ) {p : ℕ} (hp : p ∈ S) :
    headerOf s p ∈ (s.caches (s.slabs (headerOf s p)).parentCache.1
      (s.slabs (headerOf s p)).parentCache.2).list (κ (headerOf s p)) := by
  obtain ⟨free, hslab⟩ := h.pages p hp
  exact (h.lists _ _ hslab.class_lt _ _).mpr ⟨SlabInv.header_mem hp, rfl, rfl⟩

theorem KState.anyListed_iff (f : ℕ → Bool) : s.anyListed f = true ↔
    ∃ z, ∃ c < numSlabCaches, ∃ fill, ∃ h ∈ (s.caches z c).list fill, f h = true := by
  simp only [KState.anyListed, List.any_eq_true, List.mem_range]
  constructor
  · rintro ⟨z, -, c, hc, fill, -, h, hh, hf⟩
    exact ⟨z, c, hc, fill, h, hh, hf⟩
  · rintro ⟨z, c, hc, fill, h, hh, hf⟩
    exact ⟨z, Zone.mem_all z, c, hc, fill, by cases fill <;> simp, h, hh, hf⟩

/-- The listed nodes are those of the slabs. -/
theorem SlabInv.anyListed_iff (h : SlabInv s F S L κ) (f : ℕ → Bool) :
    s.anyListed f = true ↔ ∃ p ∈ S, f (headerOf s p) = true := by
  rw [KState.anyListed_iff]
  constructor
  · rintro ⟨z, c, hc, fill, hd, hmem, hf⟩
    obtain ⟨⟨p, hp, rfl⟩, -, -⟩ := (h.lists z c hc fill hd).mp hmem
    exact ⟨p, hp, hf⟩
  · rintro ⟨p, hp, hf⟩
    obtain ⟨free, hslab⟩ := h.pages p hp
    exact ⟨_, _, hslab.class_lt, _, _, h.mem_list hp, hf⟩

theorem SlabInv.isListed_iff (h : SlabInv s F S L κ) (hd : ℕ) :
    s.isListed hd = true ↔ hd ∈ headers s S := by
  unfold KState.isListed
  rw [h.anyListed_iff]
  simp only [beq_iff_eq]
  exact Iff.rfl

theorem SlabCache.list_addHead (cache : SlabCache) (hd : ℕ) (fill fill' : Fill) :
    (cache.addHead hd fill).list fill' =
      if fill' = fill then hd :: cache.list fill' else cache.list fill' := by
  cases fill <;> cases fill' <;> rfl

theorem SlabCache.list_erase (cache : SlabCache) (hd : ℕ) (fill : Fill) :
    (cache.erase hd).list fill = (cache.list fill).erase hd := by
  cases fill <;> rfl

theorem SlabCache.addHead_sizes (cache : SlabCache) (hd : ℕ) (fill : Fill) :
    (cache.addHead hd fill).objectSize = cache.objectSize ∧
      (cache.addHead hd fill).objectsPerSlab = cache.objectsPerSlab := by
  cases fill <;> exact ⟨rfl, rfl⟩

/-- The caches after a slab has left its list and has been put on a list of `cache`. -/
def refiled (s : KState) (hd : ℕ) (cache : Zone × ℕ) (fill : Fill) (z : Zone) (c : ℕ) : SlabCache :=
  if (z, c) = cache then ((s.caches z c).erase hd).addHead hd fill else (s.caches z c).erase hd

theorem list_refiled (s : KState) (hd : ℕ) (cache : Zone × ℕ) (fill fill' : Fill) (z : Zone)
    (c : ℕ) : (refiled s hd cache fill z c).list fill' =
      if (z, c) = cache ∧ fill' = fill then hd :: ((s.caches z c).list fill').erase hd
      else ((s.caches z c).list fill').erase hd := by
  unfold refiled
  by_cases hzc : (z, c) = cache
  · rw [if_pos hzc, SlabCache.list_addHead, SlabCache.list_erase]
    simp only [hzc, true_and]
  · rw [if_neg hzc, SlabCache.list_erase, if_neg (fun hc => hzc hc.1)]

/-- `pop_node` and `list_add_head` file a slab on another list of its cache. -/
theorem SlabInv.moveNode (h : SlabInv s F S L κ) {p : ℕ} (hp : p ∈ S) {cache : Zone × ℕ}
    (hcache : (s.slabs (headerOf s p)).parentCache = cache) (fill : Fill) :
    ∃ caches, s.moveNode (headerOf s p) cache fill = .ok { s with caches := caches } ∧
      SlabInv { s with caches := caches } F S L (Function.update κ (headerOf s p) fill) := by
  subst hcache
  have hlisted : s.isListed (headerOf s p) = true :=
    (h.isListed_iff _).mpr (SlabInv.header_mem hp)
  -- after `pop_node` the slab is on no list
  have hmem : ∀ z, ∀ c < numSlabCaches, ∀ fill' hd,
      hd ∈ ((s.caches z c).list fill').erase (headerOf s p) ↔
        hd ≠ headerOf s p ∧ hd ∈ (s.caches z c).list fill' := fun z c hc fill' hd =>
    List.Nodup.mem_erase_iff (h.nodup z c hc fill')
  have hnot : KState.isListed { s with caches := fun z c => (s.caches z c).erase (headerOf s p) }
      (headerOf s p) = false := by
    rw [← Bool.not_eq_true]
    unfold KState.isListed
    rw [KState.anyListed_iff]
    rintro ⟨z, c, hc, fill', hd, hhd, heq⟩
    simp only [SlabCache.list_erase] at hhd
    exact ((hmem z c hc fill' hd).mp hhd).1 (by simpa using heq)
  refine ⟨refiled s (headerOf s p) (s.slabs (headerOf s p)).parentCache fill, ?_, ?_⟩
  · simp only [KState.moveNode, KState.popNode, hlisted, if_true, ok_bind, KState.listAddHead, hnot,
      Bool.false_eq_true, if_false]
    rfl
  refine {
    buddy := h.buddy
    caches := fun z c hc => ?_
    pages := fun q hq => ?_
    inj := h.inj
    objs := h.objs
    lists := fun z c hc fill' hd => ?_
    nodup := fun z c hc fill' => ?_ }
  · simp only [refiled]
    split
    · rw [(SlabCache.addHead_sizes _ _ _).1, (SlabCache.addHead_sizes _ _ _).2]
      exact h.caches z c hc
    · exact h.caches z c hc
  · obtain ⟨free, hslab⟩ := h.pages q hq
    exact ⟨free, hslab.congr rfl rfl (fun _ _ => rfl) (fun _ _ => Iff.rfl) id
      fun r hr => ⟨hr, rfl⟩⟩
  · simp only [list_refiled]
    by_cases hhd : hd = headerOf s p
    · subst hhd
      rw [Function.update_self]
      constructor
      · intro hin
        split at hin
        next hzc => exact ⟨SlabInv.header_mem hp, hzc.1.symm, hzc.2.symm⟩
        next => exact absurd rfl ((hmem z c hc fill' _).mp hin).1
      · rintro ⟨-, hzc, hf⟩
        rw [if_pos ⟨hzc.symm, hf.symm⟩]
        exact List.mem_cons_self
    · rw [Function.update_of_ne hhd]
      have hold := h.lists z c hc fill' hd
      split
      · rw [List.mem_cons, hmem z c hc]
        simp only [hhd, false_or, ne_eq, not_false_eq_true, true_and]
        exact hold
      · rw [hmem z c hc]
        simp only [hhd, ne_eq, not_false_eq_true, true_and]
        exact hold
  · simp only [list_refiled]
    have herase := (h.nodup z c hc fill').erase (headerOf s p)
    split
    · apply List.nodup_cons.mpr
      exact ⟨fun hin => ((hmem z c hc fill' _).mp hin).1 rfl, herase⟩
    · exact herase

end Lists

section Objects

variable {s : KState} {F S L : Set ℕ} {κ : ℕ → Fill}

/-! ## Objects and headers -/

/-- A header lies in the page it describes or is an object of a slab of 32-byte objects; either
way its memory is inside one slab page. -/
theorem SlabInv.header_cases (h : SlabInv s F S L κ) {p : ℕ} (hp : p ∈ S) :
    (isExternal (classOf s p) = false ∧ headerOf s p = pageVirt p) ∨
      (isExternal (classOf s p) = true ∧ headerOf s p ∈ L ∧
        ∃ q ∈ S, classOf s q = 2 ∧ headerOf s p ∈ objects q 2) := by
  obtain ⟨free, hslab⟩ := h.pages p hp
  have hheader := hslab.header
  by_cases hext : isExternal (classOf s p) = true
  · rw [if_pos hext] at hheader
    exact Or.inr ⟨hext, hheader⟩
  · rw [if_neg hext] at hheader
    exact Or.inl ⟨Bool.not_eq_true _ ▸ hext, hheader⟩

/-- Objects of different pages differ. -/
theorem ne_of_objects {p q c d x y : ℕ} (hc : c < numSlabCaches) (hd : d < numSlabCaches)
    (hx : x ∈ objects p c) (hy : y ∈ objects q d) (hpq : p ≠ q) : x ≠ y := by
  have h1 := objects_range hc hx
  have h2 := objects_range hd hy
  have h3 := (class_geometry hc).1
  have h4 := (class_geometry hd).1
  rcases pageVirt_le_of_ne hpq with h | h <;> omega

/-- A header in its own page is below the objects of the page. -/
theorem SlabInv.object_ne_ownHeader (h : SlabInv s F S L κ) {p q x : ℕ} (hp : p ∈ S) (hq : q ∈ S)
    (hx : x ∈ objects p (classOf s p)) (hext : isExternal (classOf s q) = false) :
    x ≠ headerOf s q := by
  obtain ⟨free, hslab⟩ := h.pages p hp
  obtain ⟨hlo, hhi⟩ := objects_range hslab.class_lt hx
  have hsize := (class_geometry hslab.class_lt).1
  rcases h.header_cases hq with ⟨-, heq⟩ | ⟨hext', -⟩
  · by_cases hpq : p = q
    · subst hpq
      have hspace : headerSpace (classOf s p) = 32 := by
        unfold headerSpace sizeofSlab
        rw [hext]
        rfl
      omega
    · rcases pageVirt_le_of_ne hpq with hle | hle <;> omega
  · rw [hext] at hext'
    cases hext'

/-- A free object is not a header. -/
theorem SlabInv.notMem_headers_of_notMem (h : SlabInv s F S L κ) {p x : ℕ} (hp : p ∈ S)
    (hx : x ∈ objects p (classOf s p)) (hL : x ∉ L) : x ∉ headers s S := by
  rintro ⟨q, hq, rfl⟩
  rcases h.header_cases hq with ⟨hext, -⟩ | ⟨-, hmem, -⟩
  · exact h.object_ne_ownHeader hp hq hx hext rfl
  · exact hL hmem

/-- The first word of an object is outside the headers of the listed slabs, unless the object is
itself a header. -/
theorem SlabInv.inListedHeader_object (h : SlabInv s F S L κ) {p c x : ℕ}
    (hc : c < numSlabCaches) (hx : x ∈ objects p c) (hS : p ∈ S → c = classOf s p)
    (hnot : p ∈ S → x ∉ headers s S) : s.inListedHeader x = false := by
  rw [← Bool.not_eq_true]
  unfold KState.inListedHeader
  rw [h.anyListed_iff]
  rintro ⟨q, hq, hin⟩
  simp only [Bool.and_eq_true, decide_eq_true_eq] at hin
  unfold sizeofSlab at hin
  obtain ⟨hlo, hhi⟩ := objects_range hc hx
  have hsize := (class_geometry hc).1
  rcases h.header_cases hq with ⟨hext, heq⟩ | ⟨-, -, r, hr, hcr, hobj⟩
  · by_cases hpq : p = q
    · subst hpq
      have hspace : headerSpace c = 32 := by
        rw [hS hq]
        unfold headerSpace sizeofSlab
        rw [hext]
        rfl
      omega
    · rcases pageVirt_le_of_ne hpq with hle | hle <;> omega
  · have hobj32 := objects_range (by decide : (2 : ℕ) < numSlabCaches) hobj
    have h32 : objSize 2 = 32 := by decide
    by_cases hpr : p = r
    · subst hpr
      rw [hS hr, hcr] at hx
      by_cases hxh : x = headerOf s q
      · exact hnot hr ⟨q, hq, hxh.symm⟩
      · rcases objects_apart hx hobj hxh with hle | hle <;> omega
    · rcases pageVirt_le_of_ne hpr with hle | hle <;> omega

/-! ## Changing one slab -/

theorem classOf_setSlab {p : ℕ} {slab : Slab}
    (hparent : slab.parentCache = (s.slabs (headerOf s p)).parentCache) (q : ℕ) :
    classOf (s.setSlab (headerOf s p) slab) q = classOf s q := by
  unfold classOf KState.setSlab headerOf
  simp only
  by_cases hq : (s.buddy.pages q).privateData = (s.buddy.pages p).privateData
  · rw [hq, Function.update_self]
    exact congrArg Prod.snd hparent
  · rw [Function.update_of_ne hq]

/-- Taking and giving back an object change the header of one slab, words of its own objects, and
which of its objects are allocated; the other slabs are framed. -/
theorem SlabInv.updatePage (h : SlabInv s F S L κ) {p : ℕ} (hp : p ∈ S) {new : Slab} {mem : ℕ → ℕ}
    {L' : Set ℕ} {free : List ℕ}
    (hparent : new.parentCache = (s.slabs (headerOf s p)).parentCache)
    (hmem : ∀ a, a ∉ objects p (classOf s p) → mem a = s.mem a)
    (hL : ∀ y, y ∉ objects p (classOf s p) → (y ∈ L' ↔ y ∈ L))
    (hheaders : ∀ y ∈ headers s S, y ∈ L → y ∈ L') (hchain : Chain mem 0 new.freelist free)
    (hnodup : free.Nodup) (hobjs : ∀ y ∈ free, y ∈ objects p (classOf s p))
    (hcount : free.length + new.inuse = perSlab (classOf s p))
    (hlive : ∀ y ∈ objects p (classOf s p), y ∈ L' ↔ y ∉ free) :
    SlabInv { s.setSlab (headerOf s p) new with mem := mem } F S L' κ := by
  have hclass : ∀ q, classOf { s.setSlab (headerOf s p) new with mem := mem } q = classOf s q :=
    classOf_setSlab hparent
  have hself : (s.setSlab (headerOf s p) new).slabs (headerOf s p) = new :=
    Function.update_self _ _ _
  obtain ⟨free₀, hslab⟩ := h.pages p hp
  -- The fields in turn; only the header of `p` and the words of its objects have changed.
  refine {
    buddy := h.buddy
    caches := h.caches
    pages := fun q hq => ?_
    inj := h.inj
    objs := fun y hy => ?_
    lists := fun z c hc fill hd => ?_
    nodup := h.nodup }
  · by_cases hqp : q = p
    · -- The page itself: its new list is `free`, and its header stays where it was.
      subst hqp
      refine ⟨free, ?_⟩
      exact {
        state := hslab.state
        linear := hslab.linear
        class_lt := by rw [hclass]; exact hslab.class_lt
        zone := by
          show ((s.setSlab (headerOf s q) new).slabs (headerOf s q)).parentCache.1 = _
          rw [hself, hparent]
          exact hslab.zone
        chain := by
          show Chain mem 0 ((s.setSlab (headerOf s q) new).slabs (headerOf s q)).freelist free
          rw [hself]
          exact hchain
        nodup := hnodup
        objs := by rw [hclass]; exact hobjs
        count := by
          show free.length + ((s.setSlab (headerOf s q) new).slabs (headerOf s q)).inuse = _
          rw [hself, hclass]
          exact hcount
        live := by rw [hclass]; exact hlive
        header := by
          show if isExternal (classOf _ q) then headerOf s q ∈ L' ∧ ∃ r ∈ S, _ ∧
            headerOf s q ∈ objects r 2 else headerOf s q = pageVirt q
          rw [hclass]
          rcases h.header_cases hq with ⟨hext, heq⟩ | ⟨hext, hmemL, r, hr, hcr, hobj⟩
          · rw [hext]
            exact heq
          · rw [if_pos hext]
            exact ⟨hheaders _ (SlabInv.header_mem hq) hmemL, r, hr, (hclass r).trans hcr, hobj⟩ }
    · -- objects of another page are outside page `p`
      obtain ⟨free', hslab'⟩ := h.pages q hq
      have hout : ∀ y ∈ objects q (classOf s q), y ∉ objects p (classOf s p) := fun y hy hy' =>
        ne_of_objects hslab'.class_lt hslab.class_lt hy hy' hqp rfl
      refine ⟨free', hslab'.congr rfl ?_ ?_ ?_ (hheaders _ (SlabInv.header_mem hq)) ?_⟩
      · exact Function.update_of_ne (fun heq => hqp (h.inj q hq p hp heq)) _ _
      · exact fun y hy => hmem y (hout y (hslab'.objs y hy))
      · exact fun y hy => hL y (hout y hy)
      · exact fun r hr => ⟨hr, hclass r⟩
  · by_cases hyp : y ∈ objects p (classOf s p)
    · exact ⟨p, hp, by rw [hclass]; exact hyp⟩
    · obtain ⟨q, hq, hobj⟩ := h.objs y ((hL y hyp).mp hy)
      exact ⟨q, hq, by rw [hclass]; exact hobj⟩
  · have hold := h.lists z c hc fill hd
    have hsame : ((s.setSlab (headerOf s p) new).slabs hd).parentCache =
        (s.slabs hd).parentCache := by
      -- The cache of a header does not change, so that no header changes lists.
      by_cases hhd : hd = headerOf s p
      · subst hhd
        rw [hself, hparent]
      · exact congrArg Slab.parentCache (Function.update_of_ne hhd _ _)
    show hd ∈ (s.caches z c).list fill ↔ hd ∈ headers s S ∧
      ((s.setSlab (headerOf s p) new).slabs hd).parentCache = (z, c) ∧ κ hd = fill
    rw [hsame]
    exact hold

/-- One slab is filed anew and every other one stays where it is. -/
theorem Filed.setSlab {s' : KState} {κ' : ℕ → Fill} {p : ℕ} {new : Slab}
    (hfiled : Filed s S {p} κ) (h : SlabInv s F S L κ) (hp : p ∈ S)
    (hbuddy : s'.buddy = s.buddy) (hslabs : s'.slabs = Function.update s.slabs (headerOf s p) new)
    (hparent : new.parentCache = (s.slabs (headerOf s p)).parentCache)
    (hκ : ∀ hd, hd ≠ headerOf s p → κ' hd = κ hd)
    (hself : κ' (headerOf s p) = fillOf (classOf s p) new.inuse) : Filed s' S ∅ κ' := by
  have hhead : ∀ q, headerOf s' q = headerOf s q := fun q => by
    unfold headerOf
    rw [hbuddy]
  intro q hq _
  unfold classOf
  rw [hhead, hslabs]
  by_cases hqp : q = p
  · subst hqp
    rw [Function.update_self, hself, hparent]
    rfl
  · have hne : headerOf s q ≠ headerOf s p := fun heq => hqp (h.inj q hq p hp heq)
    rw [Function.update_of_ne hne, hκ _ hne]
    exact hfiled q hq hqp

/-- The first object of the free list becomes allocated. -/
theorem SlabInv.take (h : SlabInv s F S L κ) {p x : ℕ} {free : List ℕ} (hp : p ∈ S)
    (hslab : SlabPage s S L p (x :: free)) :
    SlabInv (s.setSlab (headerOf s p)
      { freelist := s.mem x
        inuse := (s.slabs (headerOf s p)).inuse + 1
        parentCache := (s.slabs (headerOf s p)).parentCache }) F S (insert x L) κ := by
  have hx : x ∈ objects p (classOf s p) := hslab.objs x List.mem_cons_self
  obtain ⟨hxfree, hnodup⟩ := List.nodup_cons.mp hslab.nodup
  refine h.updatePage hp rfl (fun _ _ => rfl) ?_ (fun y _ => Set.mem_insert_of_mem x)
    hslab.chain.2.2 hnodup (fun y hy => hslab.objs y (List.mem_cons_of_mem x hy)) ?_ ?_
  · intro y hy
    have hne : y ≠ x := fun heq => hy (heq ▸ hx)
    simp only [Set.mem_insert_iff, hne, false_or]
  · have hcount := hslab.count
    rw [List.length_cons] at hcount
    show free.length + ((s.slabs (headerOf s p)).inuse + 1) = _
    omega
  · intro y hy
    have hlive := hslab.live y hy
    rw [List.mem_cons, not_or] at hlive
    rw [Set.mem_insert_iff, hlive]
    by_cases hyx : y = x
    · subst hyx
      simp only [true_or, true_iff]
      exact hxfree
    · simp only [hyx, false_or, not_false_eq_true, true_and]

/-- An allocated object that is no header becomes the first of the free list. -/
theorem SlabInv.give (h : SlabInv s F S L κ) {p x : ℕ} {free : List ℕ} (hp : p ∈ S)
    (hslab : SlabPage s S L p free) (hx : x ∈ objects p (classOf s p)) (hL : x ∈ L)
    (hnot : x ∉ headers s S) :
    0 < (s.slabs (headerOf s p)).inuse ∧
    SlabInv (KState.setSlab
      { s with mem := Function.update s.mem x (s.slabs (headerOf s p)).freelist } (headerOf s p)
      { freelist := x
        inuse := (s.slabs (headerOf s p)).inuse - 1
        parentCache := (s.slabs (headerOf s p)).parentCache }) F S (L \ {x}) κ := by
  have hxfree : x ∉ free := (hslab.live x hx).mp hL
  have hx0 : x ≠ 0 := by
    have hrange := objects_range hslab.class_lt hx
    unfold pageVirt kernelVaddrBase at hrange
    omega
  -- the object is one of `objects_per_slab` and not free, so the counter is positive
  have hpos : 0 < (s.slabs (headerOf s p)).inuse := by
    have hle : (x :: free).length ≤ perSlab (classOf s p) :=
      length_le_perSlab (List.nodup_cons.mpr ⟨hxfree, hslab.nodup⟩) fun y hy =>
        (List.mem_cons.mp hy).elim (fun heq => heq ▸ hx) (hslab.objs y)
    have hcount := hslab.count
    rw [List.length_cons] at hle
    omega
  refine ⟨hpos, ?_⟩
  refine h.updatePage hp rfl ?_ ?_ ?_ (hslab.chain.push hx0 hxfree)
    (List.nodup_cons.mpr ⟨hxfree, hslab.nodup⟩) ?_ ?_ ?_
  · intro a ha
    exact Function.update_of_ne (ne_of_mem_of_not_mem hx ha).symm _ _
  · intro y hy
    have hne : y ≠ x := fun heq => hy (heq ▸ hx)
    simp only [Set.mem_sdiff, Set.mem_singleton_iff, hne, not_false_eq_true, and_true]
  · intro y hy hyL
    exact ⟨hyL, fun heq => hnot (heq ▸ hy)⟩
  · intro y hy
    rcases List.mem_cons.mp hy with rfl | hy
    · exact hx
    · exact hslab.objs y hy
  · have hcount := hslab.count
    rw [List.length_cons]
    show free.length + 1 + ((s.slabs (headerOf s p)).inuse - 1) = _
    omega
  · intro y hy
    rw [Set.mem_sdiff, hslab.live y hy, Set.mem_singleton_iff, List.mem_cons, not_or, and_comm]

end Objects

section NewSlab

variable {s : KState} {F S L : Set ℕ} {κ : ℕ → Fill}

/-! ## A new slab -/

/-- The caches after a new slab has been put on the list of the partial ones. -/
def filedNew (s : KState) (hd : ℕ) (cache : Zone × ℕ) (z : Zone) (c : ℕ) : SlabCache :=
  if (z, c) = cache then (s.caches z c).addHead hd .part else s.caches z c

/-- The state with page `p` as a fresh slab with its header at `hd`. -/
def withSlab (s : KState) (p hd : ℕ) (cache : Zone × ℕ) (mem : ℕ → ℕ) : KState where
  buddy := { s.buddy with
    pages := Function.update s.buddy.pages p { s.buddy.pages p with privateData := hd } }
  caches := filedNew s hd cache
  slabs := Function.update s.slabs hd
    { freelist := objAddr p cache.2 0, inuse := 0, parentCache := cache }
  mem := mem

/-- What `slab_create` has to establish for the page in hand. -/
structure FreshSlab (s : KState) (F S L : Set ℕ) (p hd c : ℕ) (mem : ℕ → ℕ) : Prop where
  notMem : p ∉ S
  notFree : p ∉ F
  linear : p < linearPages
  class_lt : c < numSlabCaches
  state : pageGetState (s.buddy.pages p) = pageStateSlab
  newHeader : hd ∉ headers s S
  header : if isExternal c then hd ∈ L ∧ ∃ q ∈ S, classOf s q = 2 ∧ hd ∈ objects q 2
    else hd = pageVirt p
  frame : ∀ a, a ∉ objects p c → mem a = s.mem a
  chain : Chain mem 0 (objAddr p c 0) ((List.range (perSlab c)).map (objAddr p c))

theorem mem_map_objAddr {p c x : ℕ} :
    x ∈ (List.range (perSlab c)).map (objAddr p c) ↔ x ∈ objects p c := by
  simp only [List.mem_map, List.mem_range, objects]
  constructor
  · rintro ⟨i, hi, rfl⟩
    exact ⟨i, hi, rfl⟩
  · rintro ⟨i, hi, rfl⟩
    exact ⟨i, hi, rfl⟩

/-- No object of a page outside `S` is allocated. -/
theorem SlabInv.notMem_live (h : SlabInv s F S L κ) {p c x : ℕ} (hp : p ∉ S)
    (hc : c < numSlabCaches) (hx : x ∈ objects p c) : x ∉ L := by
  intro hL
  obtain ⟨q, hq, hobj⟩ := h.objs x hL
  obtain ⟨free, hslab⟩ := h.pages q hq
  exact ne_of_objects hc hslab.class_lt hx hobj (fun heq => hp (heq ▸ hq)) rfl

section

variable {p hd c : ℕ} {mem : ℕ → ℕ}

theorem headerOf_withSlab (p hd : ℕ) (cache : Zone × ℕ) (mem : ℕ → ℕ) (q : ℕ) :
    headerOf (withSlab s p hd cache mem) q = if q = p then hd else headerOf s q := by
  unfold headerOf withSlab
  by_cases hq : q = p
  · subst hq
    simp
  · simp [hq]

theorem FreshSlab.slabs_eq (hf : FreshSlab s F S L p hd c mem) (cache : Zone × ℕ) {q : ℕ}
    (hq : q ∈ S) : (withSlab s p hd cache mem).slabs (headerOf (withSlab s p hd cache mem) q) =
      s.slabs (headerOf s q) := by
  rw [headerOf_withSlab, if_neg (ne_of_mem_of_not_mem hq hf.notMem)]
  exact Function.update_of_ne (fun heq => hf.newHeader ⟨q, hq, heq⟩) _ _

theorem FreshSlab.classOf_eq (hf : FreshSlab s F S L p hd c mem) (cache : Zone × ℕ) {q : ℕ}
    (hq : q ∈ S) : classOf (withSlab s p hd cache mem) q = classOf s q := by
  unfold classOf
  rw [hf.slabs_eq cache hq]

theorem FreshSlab.headers_eq (hf : FreshSlab s F S L p hd c mem) (cache : Zone × ℕ) :
    headers (withSlab s p hd cache mem) (insert p S) = insert hd (headers s S) := by
  ext x
  constructor
  · rintro ⟨q, rfl | hq, rfl⟩
    · left
      rw [headerOf_withSlab, if_pos rfl]
    · right
      refine ⟨q, hq, ?_⟩
      rw [headerOf_withSlab, if_neg (ne_of_mem_of_not_mem hq hf.notMem)]
  · rintro (rfl | ⟨q, hq, rfl⟩)
    · refine ⟨p, Set.mem_insert p S, ?_⟩
      rw [headerOf_withSlab, if_pos rfl]
    · refine ⟨q, Set.mem_insert_of_mem p hq, ?_⟩
      rw [headerOf_withSlab, if_neg (ne_of_mem_of_not_mem hq hf.notMem)]

/-- The fresh slab itself. -/
theorem FreshSlab.slabPage (hf : FreshSlab s F S L p hd c mem) (h : SlabInv s F S L κ) :
    SlabPage (withSlab s p hd (zoneOfPage p, c) mem) (insert p S) L p
      ((List.range (perSlab c)).map (objAddr p c)) := by
  have hhead : headerOf (withSlab s p hd (zoneOfPage p, c) mem) p = hd := by
    rw [headerOf_withSlab, if_pos rfl]
  have hslab : (withSlab s p hd (zoneOfPage p, c) mem).slabs
      (headerOf (withSlab s p hd (zoneOfPage p, c) mem) p) =
        { freelist := objAddr p c 0, inuse := 0, parentCache := (zoneOfPage p, c) } := by
    rw [hhead]
    exact Function.update_self _ _ _
  have hclass : classOf (withSlab s p hd (zoneOfPage p, c) mem) p = c := by
    unfold classOf
    rw [hslab]
  refine {
    state := ?_
    linear := hf.linear
    class_lt := by rw [hclass]; exact hf.class_lt
    zone := by rw [hslab]
    chain := by rw [hslab]; exact hf.chain
    nodup := (List.nodup_range).map (objAddr_injective hf.class_lt p)
    objs := fun x hx => by rw [hclass]; exact mem_map_objAddr.mp hx
    count := by rw [hslab, hclass]; simp
    live := fun x hx => ?_
    header := ?_ }
  · show pageGetState (Function.update s.buddy.pages p _ p) = _
    rw [Function.update_self]
    exact hf.state
  · rw [hclass] at hx
    have hL := h.notMem_live hf.notMem hf.class_lt hx
    have hfree := mem_map_objAddr.mpr hx
    tauto
  · rw [hclass, hhead]
    have hheader := hf.header
    split
    next hext =>
      rw [if_pos hext] at hheader
      obtain ⟨hL, q, hq, hcq, hobj⟩ := hheader
      exact ⟨hL, q, Set.mem_insert_of_mem p hq, (hf.classOf_eq _ hq).trans hcq, hobj⟩
    next hext =>
      rw [if_neg hext] at hheader
      exact hheader

/-- The page in hand becomes a slab on the list of the partial ones. -/
theorem SlabInv.addSlab (h : SlabInv s F S L κ) (hf : FreshSlab s F S L p hd c mem) :
    SlabInv (withSlab s p hd (zoneOfPage p, c) mem) F (insert p S) L
      (Function.update κ hd .part) := by
  have hne : ∀ {q}, q ∈ S → q ≠ p := fun hq => ne_of_mem_of_not_mem hq hf.notMem
  refine {
    buddy := ?_
    caches := fun z c' hc' => ?_
    pages := fun q hq => ?_
    inj := fun q hq r hr heq => ?_
    objs := fun x hx => ?_
    lists := fun z c' hc' fill hd' => ?_
    nodup := fun z c' hc' fill => ?_ }
  · -- The page changes its state, and it was not in a free list.
    apply h.buddy.congr_pages
    · intro j hj
      exact Function.update_of_ne (ne_of_mem_of_not_mem hj hf.notFree) _ _
    · intro j _
      by_cases hj : j = p
      · subst hj
        rw [Function.update_self]
        rfl
      · rw [Function.update_of_ne hj]
    · intro j hj hjF hjH
      by_cases hjp : j = p
      · subst hjp
        rw [Function.update_self]
        have hstate := hf.state
        unfold pageGetState at hstate ⊢
        rw [hstate]
        decide
      · rw [Function.update_of_ne hjp]
        exact h.buddy.notFree j hj hjF hjH
  · show (filedNew s hd _ z c').objectSize = _ ∧ (filedNew s hd _ z c').objectsPerSlab = _
    unfold filedNew
    split
    · rw [(SlabCache.addHead_sizes _ _ _).1, (SlabCache.addHead_sizes _ _ _).2]
      exact h.caches z c' hc'
    · exact h.caches z c' hc'
  · -- The new slab is a slab page; the old ones read nothing that has changed.
    rcases hq with rfl | hq
    · exact ⟨_, hf.slabPage h⟩
    · obtain ⟨free, hslab⟩ := h.pages q hq
      refine ⟨free, hslab.congr ?_ ?_ ?_ (fun _ _ => Iff.rfl) id ?_⟩
      · exact Function.update_of_ne (hne hq) _ _
      · exact Function.update_of_ne (fun heq => hf.newHeader ⟨q, hq, heq⟩) _ _
      · intro x hx
        apply hf.frame
        intro hxp
        exact ne_of_objects hslab.class_lt hf.class_lt (hslab.objs x hx) hxp (hne hq) rfl
      · exact fun r hr => ⟨Set.mem_insert_of_mem p hr, hf.classOf_eq _ hr⟩
  · -- Its header is new, so that no two slabs share one.
    rw [headerOf_withSlab, headerOf_withSlab] at heq
    rcases hq with rfl | hq <;> rcases hr with rfl | hr
    · rfl
    · rw [if_pos rfl, if_neg (hne hr)] at heq
      exact absurd ⟨r, hr, heq.symm⟩ hf.newHeader
    · rw [if_neg (hne hq), if_pos rfl] at heq
      exact absurd ⟨q, hq, heq⟩ hf.newHeader
    · rw [if_neg (hne hq), if_neg (hne hr)] at heq
      exact h.inj q hq r hr heq
  · obtain ⟨q, hq, hobj⟩ := h.objs x hx
    exact ⟨q, Set.mem_insert_of_mem p hq, by rw [hf.classOf_eq _ hq]; exact hobj⟩
  · -- The new header is in one list of its cache, and the others keep theirs.
    rw [hf.headers_eq]
    show hd' ∈ (filedNew s hd (zoneOfPage p, c) z c').list fill ↔ hd' ∈ insert hd (headers s S) ∧
      (Function.update s.slabs hd _ hd').parentCache = (z, c') ∧ _
    have hold := h.lists z c' hc' fill hd'
    unfold filedNew
    -- The new header is filed under `part` and nowhere else.
    by_cases hhd : hd' = hd
    · subst hhd
      rw [Function.update_self, Function.update_self]
      have hnot : hd' ∉ (s.caches z c').list fill := fun hmem => hf.newHeader (hold.mp hmem).1
      split
      next hzc =>
        rw [SlabCache.list_addHead]
        split
        next hfill =>
          rw [hfill]
          simp [hzc]
        next hfill =>
          simp only [hnot, false_iff, not_and]
          exact fun _ _ heq => hfill heq.symm
      next hzc =>
        simp only [hnot, false_iff, not_and]
        exact fun _ heq => absurd heq.symm hzc
    · rw [Function.update_of_ne hhd, Function.update_of_ne hhd, Set.mem_insert_iff]
      simp only [hhd, false_or]
      rw [← hold]
      split
      · rw [SlabCache.list_addHead]
        split
        · simp only [List.mem_cons, hhd, false_or]
        · exact Iff.rfl
      · exact Iff.rfl
  · show ((filedNew s hd (zoneOfPage p, c) z c').list fill).Nodup
    have hnot : hd ∉ (s.caches z c').list fill := fun hmem =>
      hf.newHeader ((h.lists z c' hc' fill hd).mp hmem).1
    unfold filedNew
    split
    · rw [SlabCache.list_addHead]
      split
      · exact List.nodup_cons.mpr ⟨hnot, h.nodup z c' hc' fill⟩
      · exact h.nodup z c' hc' fill
    · exact h.nodup z c' hc' fill

end

end NewSlab

end Kfs.Memory
