import Kfs.Memory.Page

/-!
# The buddy allocator

`src/memory/buddy.c`. A free list is the list of the head pages of its blocks, first block first;
`nr_free` is kept beside it as the code keeps it. List nodes live inside the page descriptors, so
unlinking a page that is on no list follows pointers nobody has set (`Stop.fault`), and linking a
page that is on a list already breaks that list (`Stop.corrupted`).

Pointers are physical addresses; `0` is `NULL`.
-/

namespace Kfs.Memory

open Kfs.Lib.Word32 Kfs.Lib.Dyadic

/-! ## State -/

def maxOrder : ℕ := 10 -- MAX_ORDER
def badOrder : ℕ := 11 -- BAD_ORDER, the successor of ORDER_4MIB

/-- `PAGE_BY_ORDER(order)`. -/
def pageByOrder (order : ℕ) : ℕ := 2 ^ order

/-- `ORDER_TO_BYTES(order)`. -/
def orderToBytes (order : ℕ) : ℕ := pageByOrder order * pageSize

/-- `struct buddy_free_area`. -/
structure FreeArea where
  freeList : List ℕ
  nrFree : ℕ
  deriving DecidableEq, Repr

/-- The page descriptors and the array `buddy[zone].areas[order]`. -/
@[ext] structure BuddyState where
  pages : ℕ → Page
  areas : Zone → ℕ → FreeArea

/-- `order_is_valid`. -/
def orderIsValid (order : ℕ) : Bool := order ≤ maxOrder

/-- `order_to_nrFree`. -/
def orderToNrFree (order : ℕ) (zone : Zone) (s : BuddyState) : ℕ := (s.areas zone order).nrFree

/-- Replaces one entry of `buddy[zone].areas`. -/
def BuddyState.setArea (s : BuddyState) (zone : Zone) (order : ℕ) (area : FreeArea) : BuddyState :=
  { s with areas := Function.update s.areas zone (Function.update (s.areas zone) order area) }

/-- `buddy[zone].areas[order].nr_free++`. -/
def incNrFree (order : ℕ) (zone : Zone) (s : BuddyState) : BuddyState :=
  s.setArea zone order
    { s.areas zone order with nrFree := add32 (s.areas zone order).nrFree 1 }

/-- `buddy[zone].areas[order].nr_free--`. -/
def decNrFree (order : ℕ) (zone : Zone) (s : BuddyState) : BuddyState :=
  s.setArea zone order
    { s.areas zone order with nrFree := sub32 (s.areas zone order).nrFree 1 }

/-! ## List operations -/

/-- The page's node is on some free list. -/
def BuddyState.isLinked (s : BuddyState) (page : ℕ) : Bool :=
  Zone.all.any fun z => (List.range badOrder).any fun k => (s.areas z k).freeList.contains page

/-- `pop_node(&page->node)`: the node leaves whichever list it is on. -/
def popNode (page : ℕ) (s : BuddyState) : Kern BuddyState :=
  if s.isLinked page then
    .ok { s with areas := fun z k =>
      { s.areas z k with freeList := (s.areas z k).freeList.erase page } }
  else .error .fault

/-- `buddy_list_add_head(&page->node, order_to_free_list(order, zone))`. -/
def buddyListAddHead (page order : ℕ) (zone : Zone) (s : BuddyState) : Kern BuddyState :=
  if s.isLinked page then .error .corrupted
  else .ok (s.setArea zone order
    { s.areas zone order with freeList := page :: (s.areas zone order).freeList })

/-! ## Allocation -/

/-- `size_to_order`: the first order whose block holds `DIV_ROUND_UP(size, PAGE_SIZE)` pages. -/
def sizeToOrder (size : ℕ) : ℕ :=
  let totalPages := divRoundUp32 size pageSize
  ((List.range badOrder).find? fun order => totalPages ≤ pageByOrder order).getD badOrder

theorem sizeToOrder_pageSize : sizeToOrder pageSize = 0 := by decide +kernel

/-- `pop_first_block`. -/
def popFirstBlock (order : ℕ) (zone : Zone) (s : BuddyState) : Kern (ℕ × BuddyState) :=
  match (s.areas zone order).freeList with
  | [] => .ok (0, s)
  | first :: _ => do
    let s ← popNode first s
    let s := decNrFree order zone s
    .ok (pageToPhys first, s)

/-- One turn of the loop of `set_block_metadata`: page number `i` of the block. -/
def setPageMetadata (firstPage stateFlags : ℕ) (pages : ℕ → Page) (i : ℕ) : ℕ → Page :=
  let page := pageSetState (pages (firstPage + i)) stateFlags
  Function.update pages (firstPage + i)
    (if i > 0 then { page with privateData := pageMagic } else page)

/-- `set_block_metadata`. -/
def setBlockMetadata (firstPage blockOrder stateFlags : ℕ) (s : BuddyState) : BuddyState :=
  let pagesInBlock := pageByOrder blockOrder
  let head := { s.pages firstPage with privateData := blockOrder }
  let pages := Function.update s.pages firstPage head
  { s with pages := (List.range pagesInBlock).foldl (setPageMetadata firstPage stateFlags) pages }

/-- The three lines with which `split_block_to_order` and `buddy_free_block` put a block on its
free list: metadata, list head, counter. -/
def linkFreeBlock (firstPage order : ℕ) (zone : Zone) (s : BuddyState) : Kern BuddyState := do
  let s := setBlockMetadata firstPage order pageStateFree s
  let s ← buddyListAddHead firstPage order zone s
  .ok (incNrFree order zone s)

/-- `split_block_to_order`: the upper half goes back to the free lists until the block in hand
has the order needed. -/
def splitBlockToOrder (orderNeeded : ℕ) : ℕ → ℕ → Zone → BuddyState → Kern (ℕ × BuddyState)
  | 0, ptr, _, s =>
    if !orderIsValid orderNeeded || !orderIsValid 0 then
      .error (.kpanic "Error: %s: Invalid Order\n")
    else if 0 = orderNeeded then .ok (ptr, s)
    else .error .fault -- `cur_order--` wraps and the shift of PAGE_BY_ORDER is undefined
  | cur + 1, ptr, zone, s =>
    if !orderIsValid orderNeeded || !orderIsValid (cur + 1) then
      .error (.kpanic "Error: %s: Invalid Order\n")
    else if cur + 1 = orderNeeded then .ok (ptr, s)
    else do
      let buddyPageHead := pageAddrToPage ptr + pageByOrder cur
      let s ← linkFreeBlock buddyPageHead cur zone s
      splitBlockToOrder orderNeeded cur ptr zone s

/-- The loop `while (cur_order != BAD_ORDER && !order_to_nrFree(cur_order, zone)) cur_order++`,
with the number of orders still ahead. -/
def seekOrder (zone : Zone) (s : BuddyState) : ℕ → ℕ → ℕ
  | 0, cur => cur
  | n + 1, cur =>
    if cur ≠ badOrder ∧ orderToNrFree cur zone s = 0 then seekOrder zone s n (cur + 1) else cur

/-- `buddy_alloc_pages`. -/
def buddyAllocPages (size : ℕ) (zone : Zone) (s : BuddyState) : Kern (ℕ × BuddyState) := do
  let orderNeeded := sizeToOrder size
  if !orderIsValid orderNeeded then return (0, s)
  let curOrder := seekOrder zone s (badOrder - orderNeeded) orderNeeded
  if curOrder = badOrder then return (0, s)
  let (block, s) ← popFirstBlock curOrder zone s
  if block = 0 then
    throw (.kpanic "nr_free mismatch in alloc_pages for order %u")
  let (ret, s) ← splitBlockToOrder orderNeeded curOrder block zone s
  let firstPage := pageAddrToPage ret
  return (ret, setBlockMetadata firstPage orderNeeded pageStateAllocated s)

/-! ## Freeing -/

/-- `get_buddy_base`. -/
def getBuddyBase : Option Zone → Kern ℕ
  | some .dma => .ok 0
  | some .lowmem => .ok lowmemStart
  | some .highmem => .ok highmemStart
  | none => .error (.kpanic "get_buddy_base: Invalid zone type %d")

/-- `WHO_IS_MY_BUDDY(addr, order, base)`. -/
def whoIsMyBuddy (addr order base : ℕ) : ℕ :=
  add32 (sub32 addr base ^^^ orderToBytes order) base

/-- `get_buddy_page`; the descriptor pointer is never `NULL`, so only the second test decides. -/
def getBuddyPage (block order : ℕ) (zone : Option Zone) (s : BuddyState) : Kern (Option ℕ) := do
  let base ← getBuddyBase zone
  let buddyPage := pageAddrToPage (whoIsMyBuddy block order base)
  if pageIsFree (s.pages buddyPage) && (s.pages buddyPage).privateData == order then
    return some buddyPage
  else return none

/-- The loop of `buddy_free_block`: the block in hand grows while its buddy is free. The first
argument bounds the turns; `MAX_ORDER` of them are always enough. -/
def mergeBuddies (zone : Option Zone) : ℕ → ℕ → ℕ → BuddyState → Kern (ℕ × ℕ × BuddyState)
  | 0, ptr, blockOrder, s => .ok (ptr, blockOrder, s)
  | n + 1, ptr, blockOrder, s =>
    if blockOrder < maxOrder then do
      match ← getBuddyPage ptr blockOrder zone s, zone with
      | none, _ => .ok (ptr, blockOrder, s)
      | some _, none => .error .fault
      | some buddyPage, some z => do
        let s ← popNode buddyPage s
        let s := decNrFree blockOrder z s
        mergeBuddies zone n (min ptr (pageToPhys buddyPage)) (blockOrder + 1) s
    else .ok (ptr, blockOrder, s)

/-- `buddy_free_block`. -/
def buddyFreeBlock (ptr : ℕ) (s : BuddyState) : Kern BuddyState := do
  let page := s.pages (pageAddrToPage ptr)
  let blockOrder := page.privateData
  let currentState := pageGetState page
  if currentState = pageStateFree then
    throw (.kpanic "Double free detected on address %p\n")
  else if currentState ≠ pageStateAllocated ∧ currentState ≠ pageStateAvailable then
    throw (.kpanic "Attempt to free a page with invalid state (%d) at %p\n")
  else if !orderIsValid blockOrder then
    throw (.kpanic "Incorrect block order: %x\n")
  let zone := pageZoneFlagsToZoneType (pageGetZone page)
  let (ptr, blockOrder, s) ← mergeBuddies zone maxOrder ptr blockOrder s
  match zone with
  | none => throw .fault -- INVALID_ZONE is past the end of `buddy`
  | some z => linkFreeBlock (pageAddrToPage ptr) blockOrder z s

/-! ## Initialisation -/

/-- The body of the second loop of `buddy_init`. -/
def buddyInitPage (s : BuddyState) (i : ℕ) : Kern BuddyState :=
  if pageGetState (s.pages i) = pageStateAvailable then
    buddyFreeBlock (pageToPhys i)
      { s with pages := Function.update s.pages i { s.pages i with privateData := 0 } }
  else .ok s

/-- The first loop of `buddy_init`. -/
def emptyAreas (_zone : Zone) (_order : ℕ) : FreeArea := { freeList := [], nrFree := 0 }

/-- `buddy_init`: empty lists, then every available page is freed as a block of order 0. The call
of `boot_allocator_freeze` at the end touches nothing modelled here. -/
def buddyInit (totalPages : ℕ) (s : BuddyState) : Kern BuddyState :=
  (List.range totalPages).foldlM buddyInitPage { s with areas := emptyAreas }

end Kfs.Memory
