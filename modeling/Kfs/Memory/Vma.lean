import Kfs.Memory.Page

/-!
# Virtual memory areas

`src/memory/vma.c`. The area list of an address space is a list in the order of its links. A
pointer to an area is a cursor into the list: the areas before it, nearest first, the area, and the
areas after it, so that `prev` and `next` are the heads of the two sides.

The allocators and the page tables are services over a state `σ`. A service may fail in the ways
its C counterpart reports (`NULL`, `false`) and may stop the kernel.
-/

namespace Kfs.Memory

open Kfs.Lib Kfs.Lib.Word32

/-! ## Data -/

/-- `enum vm_area_state`. -/
inductive VmAreaState where
  | free
  | allocated
  | lazy
  deriving DecidableEq, Repr

/-- `enum vma_alloc_mode`. -/
inductive VmaAllocMode where
  | eager
  | lazy
  deriving DecidableEq, Repr

/-- The array behind `pages`: its address and its entries. -/
structure PageArray where
  addr : ℕ
  frames : List ℕ
  deriving DecidableEq, Repr

/-- `struct vm_area`, with its own address instead of its links; `pages` is `none` for `NULL`. -/
structure VmArea where
  addr : ℕ
  state : VmAreaState
  startVaddr : ℕ
  size : ℕ
  pteFlags : ℕ
  nrPages : ℕ
  pages : Option PageArray
  deriving DecidableEq, Repr

def sizeofVmArea : ℕ := 32 -- sizeof(struct vm_area) on the 32-bit target
def gfpKernelZero : ℕ := 0b00010001 -- GFP_KERNEL | __GFP_ZERO

/-- `vma_areas_are_neighbors`. -/
def vmaAreasAreNeighbors (startArea nextArea : VmArea) : Bool :=
  add32 startArea.startVaddr startArea.size == nextArea.startVaddr

/-- A pointer to an area of a list. -/
structure VmaCursor where
  before : List VmArea
  area : VmArea
  after : List VmArea
  deriving DecidableEq, Repr

/-- The list of a cursor. -/
def VmaCursor.toList (c : VmaCursor) : List VmArea := c.before.reverse ++ c.area :: c.after

/-- The first area that meets `p`, as a cursor; `before` has been passed. -/
def findArea (p : VmArea → Bool) : List VmArea → List VmArea → Option VmaCursor
  | _, [] => none
  | before, area :: after =>
    if p area then some { before := before, area := area, after := after }
    else findArea p (area :: before) after

/-- `vma_find_by_start`. -/
def vmaFindByStart (ptr : ℕ) (areas : List VmArea) : Option VmaCursor :=
  findArea (·.startVaddr == ptr) [] areas

/-- `vma_find_by_addr`. -/
def vmaFindByAddr (ptr : ℕ) (areas : List VmArea) : Option VmaCursor :=
  findArea (fun area => area.startVaddr ≤ ptr && ptr < add32 area.startVaddr area.size) [] areas

/-- `vma_first_fit_alloc`. -/
def vmaFirstFitAlloc (size : ℕ) (areas : List VmArea) : Option VmaCursor :=
  findArea (fun area => size ≤ area.size && area.state == .free) [] areas

/-! ## Services -/

/-- What `vma.c` calls. -/
structure VmaEnv (σ : Type) where
  kmalloc : ℕ → ℕ → σ → Kern (ℕ × σ)
  kfree : ℕ → σ → Kern σ
  buddyAllocPages : ℕ → Zone → σ → Kern (ℕ × σ)
  buddyFreeBlock : ℕ → σ → Kern σ
  vmmMapPage : ℕ → ℕ → ℕ → ℕ → σ → Kern (Bool × σ)
  vmmUnmapPage : ℕ → ℕ → σ → Kern (Bool × σ)

section Vma

variable {σ : Type} (env : VmaEnv σ)

/-! ## Merging -/

/-- `merge_neighbor` up to the unlinking: the first area after it has absorbed the second. -/
def mergeNeighbor (startArea nextArea : VmArea) : Option VmArea :=
  if startArea.state ≠ .free ∨ nextArea.state ≠ .free then none
  else if vmaAreasAreNeighbors startArea nextArea then
    some { startArea with size := add32 startArea.size nextArea.size }
  else none

/-- The first half of `vma_merge_area`: the area absorbs the next one. -/
def mergeNext (c : VmaCursor) (s : σ) : Kern (VmaCursor × σ) :=
  match c.after with
  | [] => .ok (c, s)
  | next :: rest =>
    match mergeNeighbor c.area next with
    | none => .ok (c, s)
    | some area => do
      let s ← env.kfree next.addr s
      .ok ({ c with area := area, after := rest }, s)

/-- The second half of `vma_merge_area`: the previous area absorbs the area. -/
def mergePrev (c : VmaCursor) (s : σ) : Kern (List VmArea × σ) :=
  match c.before with
  | [] => .ok (c.toList, s)
  | prev :: rest =>
    match mergeNeighbor prev c.area with
    | none => .ok (c.toList, s)
    | some area => do
      let s ← env.kfree c.area.addr s
      .ok (rest.reverse ++ area :: c.after, s)

/-- `vma_merge_area`. -/
def vmaMergeArea (c : VmaCursor) (s : σ) : Kern (List VmArea × σ) := do
  let (c, s) ← mergeNext env c s
  mergePrev env c s

/-! ## Pages of an area -/

/-- The first loop of `vma_map_area`, with `k` of the `nr` pages still to allocate. -/
def allocFrames (nr : ℕ) : ℕ → List ℕ → σ → Kern (Bool × List ℕ × σ)
  | 0, frames, s => .ok (true, frames, s)
  | k + 1, frames, s => do
    let (page, s) ← env.buddyAllocPages pageSize .highmem s
    if page = 0 then .ok (false, frames, s)
    else allocFrames nr k (frames.set (nr - (k + 1)) page) s

/-- The second loop of `vma_map_area`, with `k` of the `nr` pages still to map. -/
def mapFrames (pd start flags : ℕ) (frames : List ℕ) (nr : ℕ) : ℕ → σ → Kern (Bool × σ)
  | 0, s => .ok (true, s)
  | k + 1, s => do
    let i := nr - (k + 1)
    let (ok, s) ← env.vmmMapPage pd (add32 start (i * pageSize)) (frames.getD i 0) flags s
    if ok then mapFrames pd start flags frames nr k s
    else .ok (false, s)

/-- `vma_map_area`: what it returns and the area with its frames. -/
def vmaMapArea (newArea : VmArea) (pd : ℕ) (s : σ) : Kern (Bool × VmArea × σ) := do
  match newArea.pages with
  | none => .error .fault
  | some pages =>
    let (ok, frames, s) ← allocFrames env newArea.nrPages newArea.nrPages pages.frames s
    let newArea := { newArea with pages := some { pages with frames := frames } }
    if !ok then .ok (false, newArea, s)
    else do
      let (ok, s) ← mapFrames env pd newArea.startVaddr newArea.pteFlags frames newArea.nrPages
        newArea.nrPages s
      .ok (ok, newArea, s)

/-- The body of the loop that gives the frames of an area back. -/
def releaseFrame (pd start : ℕ) (frames : List ℕ) (s : σ) (i : ℕ) : Kern σ :=
  if frames.getD i 0 = 0 then .ok s
  else do
    let (_, s) ← env.vmmUnmapPage pd (add32 start (i * pageSize)) s
    env.buddyFreeBlock (frames.getD i 0) s

/-- The part that `vma_destroy_area` and `vma_destroy_areas` share: frames and page array of an
area are given back. -/
def releasePages (pd : ℕ) (area : VmArea) (s : σ) : Kern σ :=
  match area.pages with
  | none => .ok s
  | some pages => do
    let s ← (List.range area.nrPages).foldlM (releaseFrame env pd area.startVaddr pages.frames) s
    env.kfree pages.addr s

/-! ## The operations -/

/-- `vma_destroy_area`. -/
def vmaDestroyArea (c : VmaCursor) (pd : ℕ) (s : σ) : Kern (List VmArea × σ) := do
  let s ← releasePages env pd c.area s
  vmaMergeArea env { c with area := { c.area with pages := none, nrPages := 0, state := .free,
                                                   pteFlags := 0 } } s

/-- `vma_destroy_areas`. -/
def vmaDestroyAreas (areas : List VmArea) (pd : ℕ) (s : σ) : Kern σ :=
  areas.foldlM (fun s area => do
    let s ← releasePages env pd area s
    env.kfree area.addr s) s

/-- `vma_split_area`. -/
def vmaSplitArea (c : VmaCursor) (size : ℕ) (s : σ) : Kern (Option VmaCursor × σ) :=
  let neededSize := alignUp32 size 12
  let numOfPages := divRoundUp32 neededSize pageSize
  if neededSize > c.area.size then .ok (none, s)
  else if neededSize = c.area.size then
    .ok (some { c with area := { c.area with nrPages := numOfPages, state := .allocated } }, s)
  else do
    let (addr, s) ← env.kmalloc sizeofVmArea gfpKernelZero s
    if addr = 0 then .ok (none, s)
    else
      let newArea : VmArea :=
        { addr := addr, state := .allocated, startVaddr := c.area.startVaddr, size := neededSize,
          pteFlags := 0, nrPages := numOfPages, pages := none }
      let area := { c.area with startVaddr := add32 c.area.startVaddr neededSize
                                size := sub32 c.area.size neededSize }
      .ok (some { c with area := newArea, after := area :: c.after }, s)

/-- `vma_alloc_in_area`: the new area, if there is one, and the list. -/
def vmaAllocInArea (pd : ℕ) (c : VmaCursor) (size pteFlags : ℕ) (allocMode : VmaAllocMode) (s : σ) :
    Kern (Option VmArea × List VmArea × σ) := do
  let (split, s) ← vmaSplitArea env c size s
  match split with
  | none => .ok (none, c.toList, s)
  | some c => do
    let numberOfPages := divRoundUp32 size pageSize
    let (addr, s) ← env.kmalloc (4 * numberOfPages) gfpKernelZero s
    if addr = 0 then do
      let (areas, s) ← vmaDestroyArea env { c with area := { c.area with pages := none } } pd s
      .ok (none, areas, s)
    else do
      let newArea := { c.area with
        pages := some { addr := addr, frames := List.replicate numberOfPages 0 }
        nrPages := numberOfPages
        pteFlags := pteFlags }
      match allocMode with
      | .eager => do
        let (ok, newArea, s) ← vmaMapArea env newArea pd s
        let c := { c with area := newArea }
        if ok then .ok (some newArea, c.toList, s)
        else do
          let (areas, s) ← vmaDestroyArea env c pd s
          .ok (none, areas, s)
      | .lazy =>
        let newArea := { newArea with state := .lazy }
        .ok (some newArea, { c with area := newArea }.toList, s)

/-- The area that `vma_alloc` takes: the one at the hint if it is free and large enough, else the
first that is. -/
def vmaFindFree (areas : List VmArea) (size hintVaddr : ℕ) : Option VmaCursor :=
  match if hintVaddr = 0 then none else vmaFindByStart hintVaddr areas with
  | none => vmaFirstFitAlloc size areas
  | some c =>
    if c.area.state ≠ .free ∨ c.area.size < size then vmaFirstFitAlloc size areas else some c

/-- `vma_alloc`. -/
def vmaAlloc (areas : List VmArea) (pd size pteFlags hintVaddr : ℕ) (allocMode : VmaAllocMode)
    (s : σ) : Kern (Option VmArea × List VmArea × σ) :=
  match vmaFindFree areas size hintVaddr with
  | none => .ok (none, areas, s)
  | some c => vmaAllocInArea env pd c size pteFlags allocMode s

/-- `vma_init_area` on an empty list. -/
def vmaInitArea (start stop : ℕ) (s : σ) : Kern (List VmArea × σ) := do
  let (addr, s) ← env.kmalloc sizeofVmArea gfpKernelZero s
  if addr = 0 then .error (.kpanic "Failed to allocate `initial_hole'")
  else
    .ok ([{ addr := addr, state := .free, startVaddr := start, size := sub32 stop start,
            pteFlags := 0, nrPages := 0, pages := none }], s)

end Vma

end Kfs.Memory
