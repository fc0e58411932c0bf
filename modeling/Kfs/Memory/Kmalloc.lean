import Kfs.Memory.Slab

/-!
# `kmalloc`

`src/memory/kmalloc.c`. `kmalloc` and `slab_create` call each other: the header of a slab of large
objects is itself a small object. `kmallocN n` allows `n` nested calls; two are enough, because the
header belongs to a class whose slabs hold their own header.
-/

namespace Kfs.Memory

open Kfs.Lib.Word32

def maxSlabSize : ℕ := 2048 -- MAX_SLAB_SIZE
def maxKmallocSize : ℕ := 0x400000 -- MAX_KMALLOC_SIZE

/-- `get_allocation`; `0` is `NULL`. -/
def getAllocation (kmalloc : ℕ → ℕ → KState → Kern (ℕ × KState)) (zone : Zone) (size : ℕ)
    (s : KState) : Kern (ℕ × KState) :=
  if size > maxSlabSize then do
    let (physAddr, buddy) ← buddyAllocPages size zone s.buddy
    let s := { s with buddy := buddy }
    if physAddr ≠ 0 then .ok (physToVirtLinear physAddr, s) else .ok (0, s)
  else slabAlloc kmalloc size zone s

/-- `try_alloc_with_reclaim`. -/
def tryAllocWithReclaim (kmalloc : ℕ → ℕ → KState → Kern (ℕ × KState)) (zone : Zone) (size : ℕ)
    (s : KState) : Kern (ℕ × KState) := do
  let (alloc, s) ← getAllocation kmalloc zone size s
  if alloc = 0 then
    let s ← slabShrinkCaches zone s
    getAllocation kmalloc zone size s
  else return (alloc, s)

/-- `ft_bzero(ret, size)` on whole words: nothing reads a word of a live object. -/
def bzero (ret size : ℕ) (s : KState) : Kern KState :=
  if s.anyListed fun slab => slab < ret + size && ret < slab + sizeofSlab then .error .corrupted
  else .ok { s with mem := fun a => if ret ≤ a ∧ a < ret + size then 0 else s.mem a }

/-- The zone that `kmalloc` allocates from. -/
def kmallocZone (flags : ℕ) : Zone := if flags &&& gfpDma ≠ 0 then .dma else .lowmem

/-- `kmalloc` with `n` nested calls allowed. -/
def kmallocN : ℕ → ℕ → ℕ → KState → Kern (ℕ × KState)
  | 0, _, _, _ => .error .fault
  | n + 1, size, flags, s => do
    let zone := kmallocZone flags
    if size = 0 then return (0, s)
    else if size > maxKmallocSize then return (0, s)
    let (ret, s) ← tryAllocWithReclaim (kmallocN n) zone size s
    if ret ≠ 0 ∧ flags &&& gfpZero ≠ 0 then
      let s ← bzero ret size s
      return (ret, s)
    else return (ret, s)

/-- `kmalloc`. -/
def kmalloc (size flags : ℕ) (s : KState) : Kern (ℕ × KState) := kmallocN 2 size flags s

/-- `ksize`. -/
def ksize (ptr : ℕ) (s : KState) : ℕ :=
  if ptr = 0 then 0
  else
    let page := s.buddy.pages (pageAddrToPage (virtToPhysLinear ptr))
    let pageState := pageGetState page
    if pageState = pageStateSlab then
      let cache := (s.slabs page.privateData).parentCache
      (s.caches cache.1 cache.2).objectSize
    else if pageState = pageStateAllocated then
      if page.privateData = pageMagic then 0 else orderToBytes page.privateData
    else 0

end Kfs.Memory
