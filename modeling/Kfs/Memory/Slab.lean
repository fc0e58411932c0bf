import Kfs.Memory.Buddy

/-!
# The slab allocator

`src/memory/slab.c` and `kfree` of `src/memory/kmalloc.c`. The three lists of a cache are the lists
of the header addresses of their slabs, first slab first. A header (`struct slab`) is found by its
virtual address in `slabs`; its list node is represented by the lists. `mem` holds the words of the
linear mapping, of which the allocator uses the first word of every free object.

A store into the memory of a header whose node is on a list, and the linking of a node that is on a
list already, break the lists (`Stop.corrupted`).

`slab_create` calls `kmalloc`, which calls `slab_alloc` again. Here `kmalloc` is a parameter;
`Kfs.Memory.Kmalloc` closes the recursion.
-/

namespace Kfs.Memory

open Kfs.Lib.Word32

/-! ## Addresses -/

/-- `PHYS_TO_VIRT_LINEAR(p_addr)`; the assertion in it is compiled out unless debugging. -/
def physToVirtLinear (pAddr : ℕ) : ℕ := add32 pAddr kernelVaddrBase

/-- `VIRT_TO_PHYS_LINEAR(v_addr)`. -/
def virtToPhysLinear (vAddr : ℕ) : ℕ := sub32 vAddr kernelVaddrBase

/-! ## State -/

def sizeofSlab : ℕ := 32 -- sizeof(struct slab)
def numSlabCaches : ℕ := 9 -- NUM_SLAB_CACHES
def cacheSizes : List ℕ := [8, 16, 32, 64, 128, 256, 512, 1024, 2048, 4096] -- cache_sizes
def gfpKernel : ℕ := 0b00001 -- GFP_KERNEL
def gfpDma : ℕ := 0b00100 -- __GFP_DMA
def gfpZero : ℕ := 0b10000 -- __GFP_ZERO

/-- `SLAB_IS_EXTERNAL(size)`. -/
def slabIsExternal (size : ℕ) : Bool := size > 512

/-- `struct slab_cache`. -/
structure SlabCache where
  slabsFull : List ℕ
  slabsPartial : List ℕ
  slabsEmpty : List ℕ
  objectSize : ℕ
  objectsPerSlab : ℕ
  deriving DecidableEq, Repr

/-- `struct slab` without its list node; `parent_cache` is the pair of indices into
`slab_caches`. -/
structure Slab where
  freelist : ℕ
  inuse : ℕ
  parentCache : Zone × ℕ
  deriving DecidableEq, Repr

/-- The memory of the kernel allocators. -/
structure KState where
  buddy : BuddyState
  caches : Zone → ℕ → SlabCache
  slabs : ℕ → Slab
  mem : ℕ → ℕ

/-- The three lists of a cache. -/
inductive Fill where
  | full
  | part
  | empty
  deriving DecidableEq, Repr

/-- The list of a cache that holds the slabs of the given fill. -/
def SlabCache.list (cache : SlabCache) : Fill → List ℕ
  | .full => cache.slabsFull
  | .part => cache.slabsPartial
  | .empty => cache.slabsEmpty

/-- The cache without the node of `slab`. -/
def SlabCache.erase (cache : SlabCache) (slab : ℕ) : SlabCache :=
  { cache with
    slabsFull := cache.slabsFull.erase slab
    slabsPartial := cache.slabsPartial.erase slab
    slabsEmpty := cache.slabsEmpty.erase slab }

/-- The cache with the node of `slab` at the head of one of its lists. -/
def SlabCache.addHead (cache : SlabCache) (slab : ℕ) : Fill → SlabCache
  | .full => { cache with slabsFull := slab :: cache.slabsFull }
  | .part => { cache with slabsPartial := slab :: cache.slabsPartial }
  | .empty => { cache with slabsEmpty := slab :: cache.slabsEmpty }

namespace KState

/-- Some slab whose node is on a list of some cache has the property. -/
def anyListed (s : KState) (f : ℕ → Bool) : Bool :=
  Zone.all.any fun z => (List.range numSlabCaches).any fun c =>
    [Fill.full, Fill.part, Fill.empty].any fun fill => ((s.caches z c).list fill).any f

/-- The node of the slab is on a list. -/
def isListed (s : KState) (slab : ℕ) : Bool := s.anyListed (· == slab)

/-- The address lies in the memory of a header whose node is on a list. -/
def inListedHeader (s : KState) (addr : ℕ) : Bool :=
  s.anyListed fun slab => slab ≤ addr && addr < slab + sizeofSlab

/-- `pop_node(&slab->list)`. -/
def popNode (s : KState) (slab : ℕ) : Kern KState :=
  if s.isListed slab then .ok { s with caches := fun z c => (s.caches z c).erase slab }
  else .error .fault

/-- `list_add_head(&slab->list, head)` for one of the lists of the cache. -/
def listAddHead (s : KState) (slab : ℕ) (cache : Zone × ℕ) (fill : Fill) : Kern KState :=
  if s.isListed slab then .error .corrupted
  else .ok { s with caches := fun z c =>
    if (z, c) = cache then (s.caches z c).addHead slab fill else s.caches z c }

/-- `pop_node` and `list_add_head` in sequence. -/
def moveNode (s : KState) (slab : ℕ) (cache : Zone × ℕ) (fill : Fill) : Kern KState := do
  let s ← s.popNode slab
  s.listAddHead slab cache fill

/-- `*(void **)addr = value`. -/
def store (s : KState) (addr value : ℕ) : Kern KState :=
  if s.inListedHeader addr then .error .corrupted
  else .ok { s with mem := Function.update s.mem addr value }

/-- Replaces a page descriptor. -/
def setPage (s : KState) (idx : ℕ) (page : Page) : KState :=
  { s with buddy := { s.buddy with pages := Function.update s.buddy.pages idx page } }

/-- Replaces a header. -/
def setSlab (s : KState) (addr : ℕ) (slab : Slab) : KState :=
  { s with slabs := Function.update s.slabs addr slab }

end KState

/-! ## Size classes -/

/-- The loop of `size_to_cache_size`, for a bounded number of turns. -/
def sizeToCacheLoop (size : ℕ) : ℕ → ℕ → ℕ → ℕ
  | 0, _, cacheIdx => cacheIdx
  | n + 1, cacheSize, cacheIdx =>
    if cacheSize < size then sizeToCacheLoop size n (cacheSize * 2 % 2 ^ 32) (cacheIdx + 1)
    else cacheIdx

/-- `size_to_cache_size`. The 28 turns are all that sizes up to 2 GiB need; for larger ones, which
no caller passes, the loop of the code does not end. -/
def sizeToCacheSize (size : ℕ) : ℕ :=
  if size ≤ 8 then 0
  else
    let cacheIdx := sizeToCacheLoop size 28 16 1
    if cacheIdx ≥ numSlabCaches then numSlabCaches else cacheIdx

/-! ## Creation of a slab -/

/-- One turn of the loop of `slab_init_intrusive_freelist`. -/
def initFreelistStep (objSize : ℕ) (p : ℕ × KState) : Kern (ℕ × KState) := do
  let next := add32 p.1 objSize
  let s ← p.2.store p.1 next
  .ok (next, s)

/-- `slab_init_intrusive_freelist`. -/
def slabInitIntrusiveFreelist (src firstObj objSize availableSpace : ℕ) (s : KState) :
    Kern KState := do
  let endIteration := availableSpace / objSize
  let (current, s) ← (List.range (endIteration - 1)).foldlM
    (fun p _ => initFreelistStep objSize p) (firstObj, s)
  let s ← s.store current 0
  .ok (s.setSlab src { s.slabs src with freelist := firstObj })

/-- The last lines of `slab_create`, with the header at `ret`. -/
def slabSetup (cache : Zone × ℕ) (page ret firstObject availableSpace : ℕ) (s : KState) :
    Kern (ℕ × KState) := do
  let objectSize := (s.caches cache.1 cache.2).objectSize
  let s := s.setSlab ret { s.slabs ret with inuse := 0, parentCache := cache }
  let s ← slabInitIntrusiveFreelist ret firstObject objectSize availableSpace s
  .ok (ret, s.setPage page { s.buddy.pages page with privateData := ret })

/-- `slab_create`; `0` is `NULL`. -/
def slabCreate (kmalloc : ℕ → ℕ → KState → Kern (ℕ × KState)) (cache : Zone × ℕ) (zone : Zone)
    (s : KState) : Kern (ℕ × KState) := do
  let (newPagePhy, buddy) ← buddyAllocPages pageSize zone s.buddy
  let s := { s with buddy := buddy }
  if newPagePhy = 0 then return (0, s)
  let page := pageAddrToPage newPagePhy
  let s := s.setPage page (pageSetState (s.buddy.pages page) pageStateSlab)
  let newPageVirt := physToVirtLinear newPagePhy
  if slabIsExternal (s.caches cache.1 cache.2).objectSize then
    let flags := if zone = .dma then gfpKernel ||| gfpDma else gfpKernel
    let (ret, s) ← kmalloc sizeofSlab flags s
    if ret = 0 then
      let buddy ← buddyFreeBlock newPagePhy s.buddy
      return (0, { s with buddy := buddy })
    slabSetup cache page ret newPageVirt pageSize s
  else
    slabSetup cache page newPageVirt (add32 newPageVirt sizeofSlab) (pageSize - sizeofSlab) s

/-! ## Allocation and freeing of objects -/

/-- The first half of `slab_alloc`: a slab with a free object, on the list of the partial ones. -/
def chooseSlab (kmalloc : ℕ → ℕ → KState → Kern (ℕ × KState)) (cache : Zone × ℕ) (s : KState) :
    Kern (Option ℕ × KState) :=
  match (s.caches cache.1 cache.2).slabsPartial, (s.caches cache.1 cache.2).slabsEmpty with
  | slab :: _, _ => .ok (some slab, s)
  | [], slab :: _ => do
    let s ← s.moveNode slab cache .part
    .ok (some slab, s)
  | [], [] => do
    let (slab, s) ← slabCreate kmalloc cache cache.1 s
    if slab = 0 then .ok (none, s)
    else do
      let s ← s.listAddHead slab cache .part
      .ok (some slab, s)

/-- The second half of `slab_alloc`: the first free object of the slab. -/
def takeObject (slab : ℕ) (cache : Zone × ℕ) (s : KState) : Kern (ℕ × KState) := do
  let ret := (s.slabs slab).freelist
  if ret = 0 then throw .fault -- `*(void **)ret`
  let next := s.mem ret
  let s := s.setSlab slab
    { s.slabs slab with freelist := next, inuse := add32 (s.slabs slab).inuse 1 }
  if next = 0 then
    let s ← s.moveNode slab cache .full
    return (ret, s)
  else return (ret, s)

/-- `slab_alloc`; `0` is `NULL`. -/
def slabAlloc (kmalloc : ℕ → ℕ → KState → Kern (ℕ × KState)) (size : ℕ) (zone : Zone)
    (s : KState) : Kern (ℕ × KState) := do
  let slabSize := sizeToCacheSize size
  if slabSize = numSlabCaches ∨ zone = .highmem then return (0, s)
  match ← chooseSlab kmalloc (zone, slabSize) s with
  | (none, s) => return (0, s)
  | (some slab, s) => takeObject slab (zone, slabSize) s

/-- `slab_free`. -/
def slabFree (ptr : ℕ) (s : KState) : Kern KState := do
  let page := s.buddy.pages (pageAddrToPage (virtToPhysLinear ptr))
  if pageGetState page ≠ pageStateSlab then
    throw (.kpanic "Error: %s: try to free memory not handled by slab.\n")
  let slab := page.privateData
  let header := s.slabs slab
  let cache := header.parentCache
  let s ← s.store ptr header.freelist
  let inuse := sub32 header.inuse 1
  let s := s.setSlab slab { header with freelist := ptr, inuse := inuse }
  if inuse = sub32 (s.caches cache.1 cache.2).objectsPerSlab 1 then s.moveNode slab cache .part
  else if inuse = 0 then s.moveNode slab cache .empty
  else return s

/-- `kfree`. -/
def kfree (ptr : ℕ) (s : KState) : Kern KState :=
  if ptr = 0 then .ok s
  else
    let physAddr := virtToPhysLinear ptr
    let pageState := pageGetState (s.buddy.pages (pageAddrToPage physAddr))
    if pageState = pageStateSlab then slabFree ptr s
    else if pageState = pageStateAllocated then do
      let buddy ← buddyFreeBlock physAddr s.buddy
      .ok { s with buddy := buddy }
    else .ok s

/-! ## Reclaim -/

/-- The body of the inner loop of `slab_shrink_caches`: the page of an empty slab goes back to the
buddy allocator. The node of the slab stays on its list. -/
def shrinkSlab (isExternal : Bool) (s : KState) (slab : ℕ) : Kern KState := do
  let physAddrInPage := virtToPhysLinear (if isExternal then (s.slabs slab).freelist else slab)
  let page := pageAddrToPage physAddrInPage
  let s := s.setPage page (pageSetState (s.buddy.pages page) pageStateAllocated)
  let s := s.setPage page { s.buddy.pages page with privateData := 0 }
  let buddy ← buddyFreeBlock (pageToPhys page) s.buddy
  let s := { s with buddy := buddy }
  if isExternal then kfree slab s else .ok s

/-- `slab_shrink_caches`. -/
def slabShrinkCaches (zone : Zone) (s : KState) : Kern KState :=
  (List.range numSlabCaches).foldlM
    (fun s i => (s.caches zone i).slabsEmpty.foldlM
      (shrinkSlab (slabIsExternal (s.caches zone i).objectSize)) s) s

/-! ## Initialisation -/

/-- The cache that `slab_init` builds for a size class. -/
def initCache (i : ℕ) : SlabCache :=
  let size := cacheSizes.getD i 0
  { slabsFull := []
    slabsPartial := []
    slabsEmpty := []
    objectSize := size
    objectsPerSlab := (if slabIsExternal size then pageSize else pageSize - sizeofSlab) / size }

/-- `slab_init`. -/
def slabInit (s : KState) : KState := { s with caches := fun _ i => initCache i }

end Kfs.Memory
