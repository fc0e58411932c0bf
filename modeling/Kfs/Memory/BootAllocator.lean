import Kfs.Memory.Page

/-!
# The boot allocator

`src/memory/boot_allocator.c` without its printers, and `mb2_mmap_iter` of `src/kernel/mb2_info.c`.
A table of regions is the list of its first `count` entries. A region that reaches the end of the
32-bit address space has `end = 0`.

The entries of a memory map are 64 bits wide and are narrowed to `uintptr_t` on the way into the
tables. The kernel image, the descriptor tables and the multiboot information are given by the
addresses the code reads.
-/

namespace Kfs.Memory

open Kfs.Lib

def maxRegions : ℕ := 256 -- MAX_REGIONS
def highmemEnd : ℕ := 0xFFFFFFFF -- HIGHMEM_END

/-! ## Input -/

/-- Physical bytes `addr, …, addr + len - 1`, in unbounded arithmetic. -/
structure PhysRange where
  addr : ℕ
  len : ℕ
  deriving DecidableEq, Repr

/-- `struct multiboot_mmap_entry`. -/
structure MmapEntry where
  range : PhysRange
  type : ℕ
  addr_lt : range.addr < 2 ^ 64
  len_lt : range.len < 2 ^ 64

/-- What `boot_allocator_init` reads: the memory map, the descriptor-table registers, the symbols of
the linker script and the multiboot information block. -/
structure BootInput where
  mmap : List MmapEntry
  gdtrBase : ℕ
  gdtrLimit : ℕ
  idtrBase : ℕ
  idtrLimit : ℕ
  kernelStart : ℕ
  kernelEnd : ℕ
  mb2info : ℕ
  totalSize : ℕ
  gdtr_lt : gdtrBase < 2 ^ 32 ∧ gdtrLimit < 2 ^ 16
  idtr_lt : idtrBase < 2 ^ 32 ∧ idtrLimit < 2 ^ 16
  kernel_le : kernelStart ≤ kernelEnd ∧ kernelEnd < 2 ^ 32
  mb2info_lt : mb2info < 2 ^ 32 ∧ totalSize < 2 ^ 32

/-! ## State -/

/-- `enum mem_type`. -/
inductive MemType where
  | free
  | reserved
  | holes
  deriving DecidableEq, Repr

/-- `enum allocator_state`. -/
inductive AllocatorState where
  | active
  | frozen
  deriving DecidableEq, Repr

/-- `boot_alloc_entry_t`. -/
structure BootAllocEntry where
  pAddr : ℕ
  size : ℕ
  free : Bool
  deriving DecidableEq, Repr

/-- `bootmem` and the other globals of the boot allocator. -/
structure BootMem where
  state : AllocatorState
  allocations : List BootAllocEntry
  regions : MemType → List Region
  freeZones : Zone → List Region
  resZones : Zone → List Region
  totalPages : ℕ
  totalRam : ℕ

/-- The globals before `boot_allocator_init`. -/
def BootMem.zero : BootMem where
  state := .active
  allocations := []
  regions _ := []
  freeZones _ := []
  resZones _ := []
  totalPages := 0
  totalRam := 0

/-- Replaces a table. -/
def BootMem.setRegions (m : BootMem) (type : MemType) (regions : List Region) : BootMem :=
  { m with regions := fun t => if t = type then regions else m.regions t }

@[simp] theorem BootMem.setRegions_self (m : BootMem) (type : MemType) (regions : List Region) :
    (m.setRegions type regions).regions type = regions := if_pos rfl

theorem BootMem.setRegions_of_ne (m : BootMem) {type t : MemType} (regions : List Region)
    (h : t ≠ type) : (m.setRegions type regions).regions t = m.regions t := if_neg h

/-! ## Tables -/

/-- `boot_allocator_add_region`. -/
def addRegion (m : BootMem) (start stop : ℕ) (type : MemType) : Kern BootMem :=
  if start > stop ∧ stop ≠ 0 then
    .error (.kpanic "boot_alloc: %s: Invalid region start=%p end=%p\n")
  else if start = stop then .ok m
  else if (m.regions type).length ≥ maxRegions then
    .error (.kpanic "boot_alloc: %s: too many %s regions\n")
  else .ok (m.setRegions type (m.regions type ++ [⟨start, stop⟩]))

/-- The inner loop of `boot_allocator_sort_regions`: `current` moves down past the entries before it
that start later. The entries are listed from the last one down. -/
def insertRegion (current : Region) : List Region → List Region
  | [] => [current]
  | reg :: before =>
    if reg.start > current.start then reg :: insertRegion current before
    else current :: reg :: before

/-- `boot_allocator_sort_regions`. -/
def sortRegions (regions : List Region) : List Region :=
  (regions.foldl (fun sorted current => insertRegion current sorted) []).reverse

/-- The loop of `boot_allocator_merge_contiguous_regions`. -/
def mergeLoop (cur : Region) : List Region → List Region
  | [] => [cur]
  | reg :: rest =>
    if cur.stop = reg.start then mergeLoop { cur with stop := reg.stop } rest
    else cur :: mergeLoop reg rest

/-- `boot_allocator_merge_contiguous_regions`, which reads `cur` before it sorts and writes at most
`MAX_REGIONS` entries of `merged`. -/
def mergeContiguousRegions : List Region → Kern (List Region)
  | [] => .ok []
  | reg :: regions =>
    let merged := mergeLoop reg (sortRegions (reg :: regions)).tail
    if merged.length > maxRegions then .error .fault else .ok merged

/-- `BOOT_ALLOCATOR_SORT_AND_MERGE`. -/
def sortAndMerge (regions : List Region) : Kern (List Region) :=
  mergeContiguousRegions (sortRegions regions)

/-- `boot_allocator_range_overlaps`. -/
def rangeOverlaps (m : BootMem) (start stop : ℕ) (type : MemType) : Bool :=
  (m.regions type).any fun reg => !(stop ≤ reg.start || start ≥ reg.stop)

/-! ## The passes over the memory map -/

/-- The bounds that `mb2_mmap_iter` passes on: `addr` and `addr + len` as `uintptr_t`. -/
def PhysRange.narrow (r : PhysRange) : Region :=
  ⟨r.addr % 2 ^ 32, (r.addr + r.len) % 2 ^ 32⟩

/-- `mb2_mmap_iter`. -/
def mb2MmapIter (entries : List MmapEntry) (handler : BootMem → ℕ → ℕ → Kern BootMem) (free : Bool)
    (m : BootMem) : Kern BootMem :=
  entries.foldlM (fun m entry =>
    if entry.type ≠ 1 ∧ free = true then .ok m
    else if entry.type = 1 ∧ free ≠ true then .ok m
    else handler m entry.range.narrow.start entry.range.narrow.stop) m

/-- `boot_allocator_reserved_wrapper`. -/
def reservedWrapper (m : BootMem) (start stop : ℕ) : Kern BootMem := addRegion m start stop .reserved

/-- A piece that `boot_allocator_free_handler` found: it is added unless it overlaps the table. -/
def addFreePiece (m : BootMem) (start stop : ℕ) : Kern BootMem :=
  if start < stop ∧ !rangeOverlaps m start stop .free then addRegion m start stop .free else .ok m

/-- The loop of `boot_allocator_free_handler` over the reserved regions still to look at, and what
follows it. -/
def freeLoop (stop : ℕ) : List Region → ℕ → BootMem → Kern BootMem
  | [], cur, m => addFreePiece m cur stop
  | res :: rest, cur, m =>
    if res.stop ≤ cur ∨ res.start ≥ stop then freeLoop stop rest cur m
    else do
      let m ← addFreePiece m cur res.start
      let cur := if res.stop > cur then res.stop else cur
      if cur ≥ stop then .ok m else freeLoop stop rest cur m

/-- `boot_allocator_free_handler`. -/
def freeHandler (m : BootMem) (start stop : ℕ) : Kern BootMem :=
  freeLoop stop (m.regions .reserved) start m

/-- `boot_allocator_init_total_size`. -/
def initTotalSize (m : BootMem) (start stop : ℕ) : Kern BootMem :=
  let stop := if stop = 0 then 0xffffffff else stop
  .ok { m with totalRam := Word32.add32 m.totalRam (Word32.sub32 stop start) }

/-! ## Holes and zones -/

/-- `boot_allocator_get_all_regions`. -/
def getAllRegions (m : BootMem) : List Region :=
  m.regions .free ++ m.regions .reserved ++ m.regions .holes

/-- One turn of the loop of `boot_allocator_fill_gaps_as_holes`. -/
def fillGap (m : BootMem) (reg next : Region) : Kern BootMem :=
  if reg.stop < next.start then addRegion m reg.stop next.start .holes else .ok m

/-- The loop of `boot_allocator_fill_gaps_as_holes` over neighbouring regions. -/
def fillGaps : List Region → BootMem → Kern BootMem
  | reg :: next :: rest, m => do
    let m ← fillGap m reg next
    fillGaps (next :: rest) m
  | _, m => .ok m

/-- `boot_allocator_fill_gaps_as_holes`; the table of holes is empty when it is called. -/
def fillGapsAsHoles (m : BootMem) : Kern BootMem :=
  if (m.regions .reserved).length + (m.regions .free).length = 0 then .ok m
  else do
    let all ← sortAndMerge ((getAllRegions m).take
      ((m.regions .reserved).length + (m.regions .free).length))
    let m ← fillGaps all m
    let holes ← sortAndMerge (m.regions .holes)
    .ok (m.setRegions .holes holes)

/-- `boot_allocator_get_total_visibale_ram`. -/
def getTotalVisibaleRam (m : BootMem) : Kern ℕ := do
  if (m.regions .free).length + (m.regions .reserved).length + (m.regions .holes).length ≤ 0 then
    .error (.kpanic "Error: %s: this function cannot be called before memory parsing\n")
  else do
    let all ← sortAndMerge (getAllRegions m)
    match all.getLast? with
    | none => .error .fault
    | some last => .ok (if last.stop = 0 then 0xffffffff else last.stop)

/-- The zone of an address and where it ends, as `boot_allocator_init_zones` computes them. -/
def zoneOf (curStart : ℕ) : Zone × ℕ :=
  if curStart ≥ highmemStart then (.highmem, highmemEnd)
  else if curStart ≥ lowmemStart then (.lowmem, highmemStart)
  else (.dma, lowmemStart)

/-- The inner loop of `boot_allocator_init_zones`. A region has at most one part in each of the
three zones, so four turns are enough. -/
def zoneParts (regionEnd : ℕ) : ℕ → ℕ → (Zone → List Region) → Kern (Zone → List Region)
  | 0, _, _ => .error .fault
  | turns + 1, curStart, zones =>
    if curStart < regionEnd then
      let (zone, zoneEnd) := zoneOf curStart
      let subEnd := if regionEnd < zoneEnd then regionEnd else zoneEnd
      if subEnd > curStart then
        if (zones zone).length ≥ maxRegions then .error .fault
        else zoneParts regionEnd turns subEnd fun z =>
          if z = zone then zones zone ++ [⟨curStart, subEnd⟩] else zones z
      else zoneParts regionEnd turns subEnd zones
    else .ok zones

/-- `boot_allocator_init_zones`. -/
def initZones (regions : List Region) (zones : Zone → List Region) : Kern (Zone → List Region) :=
  regions.foldlM (fun zones reg => zoneParts reg.stop 4 reg.start zones) zones

/-- The last loop of `boot_allocator_init` over one family of zones. -/
def mergeZones (zones : Zone → List Region) : Kern (Zone → List Region) := do
  let lowmem ← sortAndMerge (zones .lowmem)
  let dma ← sortAndMerge (zones .dma)
  let highmem ← sortAndMerge (zones .highmem)
  .ok fun
    | .lowmem => lowmem
    | .dma => dma
    | .highmem => highmem

/-! ## Initialisation -/

/-- `VIRT_TO_PHYS_LINEAR(v_addr)` with its assertion. -/
def virtToPhysChecked (vAddr : ℕ) : Kern ℕ :=
  if vAddr ≥ kernelVaddrBase then .ok (vAddr - kernelVaddrBase)
  else .error (.kpanic "Assertion `%s' failed.")

/-- The part of `boot_allocator_init` that reserves what the kernel itself occupies. -/
def reserveFixed (b : BootInput) (m : BootMem) : Kern BootMem := do
  let m ← addRegion m 0xa0000 0x100000 .reserved
  let gdtStart ← virtToPhysChecked b.gdtrBase
  let gdtEnd ← virtToPhysChecked ((b.gdtrBase + b.gdtrLimit + 1) % 2 ^ 32)
  let m ← addRegion m gdtStart gdtEnd .reserved
  let idtStart ← virtToPhysChecked b.idtrBase
  let idtEnd ← virtToPhysChecked ((b.idtrBase + b.idtrLimit + 1) % 2 ^ 32)
  let m ← addRegion m idtStart idtEnd .reserved
  let m ← addRegion m 0x0 0x1000 .reserved
  let m ← addRegion m 0x1000 0x9fc00 .reserved
  let kernelStart ← virtToPhysChecked b.kernelStart
  let kernelEnd ← virtToPhysChecked b.kernelEnd
  let m ← addRegion m kernelStart kernelEnd .reserved
  addRegion m b.mb2info ((b.mb2info + b.totalSize) % 2 ^ 32) .reserved

/-- `boot_allocator_init` up to the two tables of memory: the reserved pass and the free pass. -/
def initRegions (b : BootInput) (m : BootMem) : Kern BootMem := do
  let m := { m with allocations := [], regions := fun _ => [] }
  let m ← reserveFixed b m
  let m ← mb2MmapIter b.mmap reservedWrapper false m
  let reserved ← sortAndMerge (m.regions .reserved)
  let m := m.setRegions .reserved reserved
  let m ← mb2MmapIter b.mmap freeHandler true m
  let free ← sortAndMerge (m.regions .free)
  .ok (m.setRegions .free free)

/-- `boot_allocator_init`. -/
def bootAllocatorInit (b : BootInput) (m : BootMem) : Kern BootMem := do
  let m ← initRegions b m
  let m ← fillGapsAsHoles m
  let m ← mb2MmapIter b.mmap initTotalSize false m
  let m ← mb2MmapIter b.mmap initTotalSize true m
  let ram ← getTotalVisibaleRam m
  let m := { m with totalPages := ram / pageSize }
  let freeZones ← initZones (m.regions .free) m.freeZones
  let resZones ← initZones (m.regions .reserved) m.resZones
  let freeZones ← mergeZones freeZones
  let resZones ← mergeZones resZones
  .ok { m with freeZones := freeZones, resZones := resZones }

/-- `boot_allocator_freeze`. -/
def bootAllocatorFreeze (m : BootMem) : BootMem := { m with state := .frozen }

/-! ## Allocation -/

/-- `boot_alloc_get_addr_zone`. -/
def getAddrZone (addr : ℕ) : Zone :=
  if addr ≥ highmemStart then .highmem else if addr ≥ lowmemStart then .lowmem else .dma

/-- `boot_allocator_add_to_zones`. -/
def addToZones (zones : Zone → List Region) (size start : ℕ) : Kern (Zone → List Region) :=
  if (zones (getAddrZone start)).length ≥ maxRegions then
    .error (.kpanic "No more space in zone %d to add a new region!")
  else do
    let merged ← sortAndMerge (zones (getAddrZone start) ++ [⟨start, Word32.add32 start size⟩])
    .ok fun z => if z = getAddrZone start then merged else zones z

/-- An entry of the log of allocations; the log is an array of `MAX_REGIONS` entries. -/
def logAllocation (m : BootMem) (pAddr size : ℕ) (freeable : Bool) : Kern BootMem :=
  if m.allocations.length ≥ maxRegions then .error .fault
  else .ok { m with allocations := m.allocations ++ [⟨pAddr, size, freeable⟩] }

/-- `*reg = free_zones[zone][--free_count[zone]]` for entry `i`. -/
def replaceByLast (regions : List Region) (i : ℕ) : List Region :=
  match regions.getLast? with
  | none => []
  | some last => (regions.set i last).dropLast

/-- Replaces the table of a zone. -/
def BootMem.setFree (m : BootMem) (zone : Zone) (regions : List Region) : BootMem :=
  { m with freeZones := fun z => if z = zone then regions else m.freeZones z }

/-- The test of `boot_alloc` on a region, and the address it takes there. -/
def bootAllocIn (size : ℕ) (reg : Region) : Option ℕ :=
  if Word32.sub32 reg.stop reg.start ≥ size then
    if Word32.sub32 reg.stop size < reg.start then none else some (Word32.sub32 reg.stop size)
  else none

/-- The loop of `boot_alloc` over the entries below `i`, from the last one down. -/
def findLast (f : Region → Option ℕ) (regions : List Region) : ℕ → Option (ℕ × Region × ℕ)
  | 0 => none
  | i + 1 =>
    match regions[i]? with
    | none => none
    | some reg =>
      match f reg with
      | some ret => some (i, reg, ret)
      | none => findLast f regions i

/-- `boot_alloc`. -/
def bootAlloc (size : ℕ) (zone : Zone) (freeable : Bool) (m : BootMem) : Kern (ℕ × BootMem) :=
  if m.state = .frozen then .ok (0, m)
  else
    match findLast (bootAllocIn size) (m.freeZones zone) (m.freeZones zone).length with
    | none => .ok (0, m)
    | some (i, reg, ret) => do
      let resZones ← addToZones m.resZones size ret
      let free := (m.freeZones zone).set i { reg with stop := ret }
      let free := if reg.start = ret then replaceByLast free i else free
      let m ← logAllocation ({ m with resZones := resZones }.setFree zone free) ret size freeable
      .ok (ret, m)

/-- `ALIGN(x, a)` for a 32-bit word `a`. -/
def alignTo (x a : ℕ) : ℕ :=
  Word32.add32 x (Word32.sub32 a 1) &&& (2 ^ 32 - 1 - Word32.sub32 a 1)

/-- The start of the window in a region that `boot_alloc_at` tries. -/
def windowStart (start : ℕ) (align : ℤ) (reg : Region) : ℕ :=
  let allocStart := if reg.start ≥ start then reg.start else start
  if align ≠ -1 then alignTo allocStart (align % 2 ^ 32).toNat else allocStart

/-- The test of `boot_alloc_at` on a region, and the address it takes there. -/
def bootAllocAtIn (size start stop : ℕ) (align : ℤ) (reg : Region) : Option ℕ :=
  if reg.start ≥ stop ∨ reg.stop ≤ start then none
  else if Word32.add32 (windowStart start align reg) size ≤
      (if reg.stop < stop then reg.stop else stop) then
    some (windowStart start align reg)
  else none

/-- The loop of `boot_alloc_at` over the entries from `i` on. -/
def findFirst (f : Region → Option ℕ) : List Region → ℕ → Option (ℕ × Region × ℕ)
  | [], _ => none
  | reg :: rest, i =>
    match f reg with
    | some ret => some (i, reg, ret)
    | none => findFirst f rest (i + 1)

/-- What `boot_alloc_at` leaves of a region above the block is appended. -/
def appendRemainder (regions : List Region) (allocEnd regEnd : ℕ) : Kern (List Region) :=
  if allocEnd < regEnd then
    if regions.length ≥ maxRegions then .error (.kpanic "No more space for free regions!")
    else .ok (regions ++ [⟨allocEnd, regEnd⟩])
  else .ok regions

/-- `boot_alloc_at`. -/
def bootAllocAt (size : ℕ) (zone : Zone) (freeable : Bool) (start stop : ℕ) (align : ℤ)
    (m : BootMem) : Kern (ℕ × BootMem) :=
  if m.state = .frozen ∨ size = 0 ∨ Word32.add32 start size > stop then .ok (0, m)
  else
    match findFirst (bootAllocAtIn size start stop align) (m.freeZones zone) 0 with
    | none => .ok (0, m)
    | some (i, reg, allocStart) => do
      let resZones ← addToZones m.resZones size allocStart
      let m ← logAllocation { m with resZones := resZones } allocStart size freeable
      let free ← appendRemainder (m.freeZones zone) (Word32.add32 allocStart size) reg.stop
      let free := free.set i { reg with stop := allocStart }
      let free := if reg.start ≥ allocStart then replaceByLast free i else free
      .ok (allocStart, m.setFree zone (sortRegions free))

end Kfs.Memory
