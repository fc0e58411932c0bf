import Kfs.Kernel.Panic
import Kfs.Lib.Word32
import Kfs.Lib.Dyadic

/-!
# Page descriptors and memory zones

`include/memory/page.h`, `include/memory/memory.h` and the address arithmetic of
`src/memory/page.c`. A page descriptor is its flag word and its `private_data`; the list node of
`struct page` is represented by the lists of the buddy allocator (`Kfs.Memory.Buddy`).

Descriptors are addressed by page index. The table has `MAX_PAGES` entries whatever the amount of
memory is, so every 32-bit address has a descriptor.
-/

namespace Kfs.Memory

open Kfs.Lib.Word32 Kfs.Lib.Dyadic

/-! ## Constants -/

def pageSize : ℕ := 4096 -- PAGE_SIZE
def maxPages : ℕ := 2 ^ 20 -- MAX_PAGES
def pageMagic : ℕ := 0xDEADBEEF -- PAGE_MAGIC
def lowmemStart : ℕ := 0x01000000 -- LOWMEM_START
def highmemStart : ℕ := 0x38000000 -- HIGHMEM_START
def kernelVaddrBase : ℕ := 0xC0000000 -- KERNEL_VADDR_BASE

/-- `enum zone_type` without `INVALID_ZONE`, which is `none` wherever the code can produce it. -/
inductive Zone where
  | lowmem
  | dma
  | highmem
  deriving DecidableEq, Repr

/-- The zones in the order of the enumeration. -/
def Zone.all : List Zone := [.lowmem, .dma, .highmem]

theorem Zone.mem_all (z : Zone) : z ∈ Zone.all := by cases z <;> decide

/-! ## Flags -/

def pageStateMask : ℕ := 0b00000111 -- PAGE_STATE_MASK
def pageZoneMask : ℕ := 0b00111000 -- PAGE_ZONE_MASK
def pageStateUnusable : ℕ := 0b000 -- PAGE_STATE_UNUSABLE: a hole
def pageStateReserved : ℕ := 0b001 -- PAGE_STATE_RESERVED: reserved by the boot allocator
def pageStateAvailable : ℕ := 0b010 -- PAGE_STATE_AVAILABLE: usable and not claimed
def pageStateFree : ℕ := 0b011 -- PAGE_STATE_FREE: in a free list of the buddy allocator
def pageStateAllocated : ℕ := 0b100 -- PAGE_STATE_ALLOCATED: handed out by the buddy allocator
def pageStateSlab : ℕ := 0b110 -- PAGE_STATE_SLAB: handed out and used by a slab cache
def pageZoneDma : ℕ := 0b00001000 -- PAGE_ZONE_DMA
def pageZoneLowmem : ℕ := 0b00010000 -- PAGE_ZONE_LOWMEM
def pageZoneHighmem : ℕ := 0b00100000 -- PAGE_ZONE_HIGHMEM

/-- `struct page` without its list node. -/
structure Page where
  flags : ℕ
  privateData : ℕ
  deriving DecidableEq, Repr

/-- `PAGE_GET_STATE(page)`. -/
def pageGetState (page : Page) : ℕ := page.flags &&& pageStateMask

/-- `PAGE_GET_ZONE(page)`. -/
def pageGetZone (page : Page) : ℕ := page.flags &&& pageZoneMask

/-- `PAGE_SET_STATE(page, state)`: `flags & ~PAGE_STATE_MASK | state`. -/
def pageSetState (page : Page) (state : ℕ) : Page :=
  { page with flags := (page.flags &&& highMask 3) ||| state }

/-- `PAGE_IS_FREE(page)`. -/
def pageIsFree (page : Page) : Bool := pageGetState page == pageStateFree

@[simp] theorem pageSetState_privateData (page : Page) (state : ℕ) :
    (pageSetState page state).privateData = page.privateData := rfl

@[simp] theorem pageGetState_pageSetState (page : Page) {state : ℕ} (h : state < 8) :
    pageGetState (pageSetState page state) = state := by
  unfold pageGetState pageSetState
  rw [Nat.and_or_distrib_right, Nat.and_assoc]
  have hm : highMask 3 &&& pageStateMask = 0 := by decide
  have hs : state &&& pageStateMask = state := by interval_cases state <;> decide
  rw [hm, hs, Nat.and_zero, Nat.zero_or]

@[simp] theorem pageGetZone_pageSetState (page : Page) {state : ℕ} (h : state < 8) :
    pageGetZone (pageSetState page state) = pageGetZone page := by
  unfold pageGetZone pageSetState
  rw [Nat.and_or_distrib_right, Nat.and_assoc]
  have hm : highMask 3 &&& pageZoneMask = pageZoneMask := by decide
  have hs : state &&& pageZoneMask = 0 := by interval_cases state <;> decide
  rw [hm, hs, Nat.or_zero]

/-! ## Addresses and indices -/

/-- `page_to_phys` of the descriptor with the given index. -/
def pageToPhys (idx : ℕ) : ℕ := idx * pageSize % 2 ^ 32

/-- `page_addr_to_page`: the index of the descriptor of an address. -/
def pageAddrToPage (addr : ℕ) : ℕ := alignDown32 addr 12 / pageSize

/-- `page_get_zone_flag`. -/
def pageGetZoneFlag (addrStart : ℕ) : ℕ :=
  if addrStart ≥ highmemStart then pageZoneHighmem
  else if addrStart ≥ lowmemStart then pageZoneLowmem
  else pageZoneDma

/-- `page_zone_flags_to_zone_type`; `none` is `INVALID_ZONE`. -/
def pageZoneFlagsToZoneType (zoneFlags : ℕ) : Option Zone :=
  if zoneFlags = pageZoneDma then some .dma
  else if zoneFlags = pageZoneLowmem then some .lowmem
  else if zoneFlags = pageZoneHighmem then some .highmem
  else none

/-! ## The descriptor table at boot -/

/-- `struct region`. -/
structure Region where
  start : ℕ
  stop : ℕ
  deriving DecidableEq, Repr

/-- `page_addr_is_in_reg`. -/
def pageAddrIsInReg (regions : List Region) (addr : ℕ) : Bool :=
  regions.any fun reg => reg.start ≤ addr && addr < reg.stop

/-- `page_get_state_flag`: the first zone with a region that contains the address decides, and in
it the free regions come first. -/
def pageGetStateFlag (freeZones resZones : Zone → List Region) (addrStart : ℕ) : ℕ :=
  (Zone.all.findSome? fun z =>
    if pageAddrIsInReg (freeZones z) addrStart then some pageStateAvailable
    else if pageAddrIsInReg (resZones z) addrStart then some pageStateReserved
    else none).getD pageStateUnusable

/-- `page_descriptor_init`: the table from the zones of the boot allocator. -/
def pageDescriptorInit (freeZones resZones : Zone → List Region) (i : ℕ) : Page :=
  { flags := pageGetStateFlag freeZones resZones (pageToPhys i) ||| pageGetZoneFlag (pageToPhys i)
    privateData := pageMagic }

theorem pageToPhys_eq {i : ℕ} (h : i < maxPages) : pageToPhys i = i * 4096 := by
  unfold pageToPhys pageSize
  unfold maxPages at h
  exact Nat.mod_eq_of_lt (by omega)

theorem pageToPhys_lt (i : ℕ) : pageToPhys i < 2 ^ 32 := Nat.mod_lt _ (by norm_num)

theorem pageToPhys_div {i : ℕ} (h : i < maxPages) : pageToPhys i / 4096 = i := by
  rw [pageToPhys_eq h]
  exact Nat.mul_div_cancel i (by norm_num)

theorem pageAddrToPage_eq {a : ℕ} (h : a < 2 ^ 32) : pageAddrToPage a = a / 4096 := by
  unfold pageAddrToPage pageSize
  rw [alignDown32_eq h (by norm_num)]
  norm_num

@[simp] theorem pageAddrToPage_pageToPhys {i : ℕ} (h : i < maxPages) :
    pageAddrToPage (pageToPhys i) = i := by
  rw [pageToPhys_eq h, pageAddrToPage_eq (by unfold maxPages at h; omega)]
  omega

theorem pageGetStateFlag_cases (freeZones resZones : Zone → List Region) (a : ℕ) :
    pageGetStateFlag freeZones resZones a = pageStateAvailable ∨
      pageGetStateFlag freeZones resZones a = pageStateReserved ∨
      pageGetStateFlag freeZones resZones a = pageStateUnusable := by
  unfold pageGetStateFlag
  cases hfind : Zone.all.findSome? _ with
  | none => exact Or.inr (Or.inr rfl)
  | some st =>
    obtain ⟨z, -, hz⟩ := List.exists_of_findSome?_eq_some hfind
    split at hz
    · cases hz
      exact Or.inl rfl
    · split at hz
      · cases hz
        exact Or.inr (Or.inl rfl)
      · cases hz

theorem pageGetZoneFlag_cases (a : ℕ) : pageGetZoneFlag a = pageZoneHighmem ∨
    pageGetZoneFlag a = pageZoneLowmem ∨ pageGetZoneFlag a = pageZoneDma := by
  unfold pageGetZoneFlag
  split
  · exact Or.inl rfl
  · split
    · exact Or.inr (Or.inl rfl)
    · exact Or.inr (Or.inr rfl)

/-- State and zone of a fresh descriptor are the two flags it was built from. -/
theorem pageDescriptorInit_flags (freeZones resZones : Zone → List Region) (i : ℕ) :
    pageGetState (pageDescriptorInit freeZones resZones i) =
        pageGetStateFlag freeZones resZones (pageToPhys i) ∧
      pageGetZone (pageDescriptorInit freeZones resZones i) = pageGetZoneFlag (pageToPhys i) := by
  unfold pageGetState pageGetZone pageDescriptorInit
  rcases pageGetStateFlag_cases freeZones resZones (pageToPhys i) with h | h | h <;>
    rcases pageGetZoneFlag_cases (pageToPhys i) with h' | h' | h' <;>
    rw [h, h'] <;> decide

/-! ## The zone of a page -/

/-- The zone whose address range contains page `i`. -/
def zoneOfPage (i : ℕ) : Zone :=
  if 229376 ≤ i then .highmem else if 4096 ≤ i then .lowmem else .dma

/-- The zone flag of a page's address names its zone. -/
theorem zoneType_pageGetZoneFlag {i : ℕ} (h : i < maxPages) :
    pageZoneFlagsToZoneType (pageGetZoneFlag (pageToPhys i)) = some (zoneOfPage i) := by
  rw [pageToPhys_eq h]
  unfold pageGetZoneFlag highmemStart lowmemStart zoneOfPage
  by_cases h1 : 229376 ≤ i
  · rw [if_pos (by omega), if_pos h1]
    decide
  · rw [if_neg (by omega), if_neg h1]
    by_cases h2 : 4096 ≤ i
    · rw [if_pos (by omega), if_pos h2]
      decide
    · rw [if_neg (by omega), if_neg h2]
      decide

/-- Zone borders are multiples of `2 ^ 10` pages, so an aligned block has one zone. -/
theorem zoneOfPage_eq_of_mem {i j k : ℕ} (hal : Aligned i k) (hk : k ≤ 10) (hj : j ∈ block i k) :
    zoneOfPage j = zoneOfPage i := by
  have h1 := block_subset_div hal hk hj
  simp only [mem_block] at h1
  unfold zoneOfPage
  congr 1
  · simp only [eq_iff_iff]
    omega
  · congr 1
    simp only [eq_iff_iff]
    omega

/-- An aligned block that starts inside the descriptor table stays inside it. -/
theorem lt_maxPages_of_mem {i j k : ℕ} (hal : Aligned i k) (hk : k ≤ 10) (hi : i < maxPages)
    (hj : j ∈ block i k) : j < maxPages := by
  have h1 := block_subset_div hal hk hj
  simp only [mem_block] at h1
  unfold maxPages at *
  omega

end Kfs.Memory
