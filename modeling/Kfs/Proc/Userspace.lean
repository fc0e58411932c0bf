import Kfs.Lib.Outcome
import Kfs.Memory.AreaRuns
import Kfs.Memory.Spaces
import Kfs.Proc.Signal

/-!
# User address spaces

`src/proc/section.c`, `include/kernel/io_stream.h` and `src/proc/userspace.c`: how the sections of a
task become pages. The bytes of a section come from the kernel image. The kernel reaches the new
frames through the window of `vmm_kmap` in the current directory, and an access through the window
goes where the directory leads it.
-/

namespace Kfs.Userspace

open Kfs.Lib Kfs.Lib.Word32 Kfs.Memory Kfs.Proc

/-! ## Sections -/

def kernelStart : ℕ := kernelVaddrBase -- KERNEL_START
def defaultStackSize : ℕ := pageSize * 2 -- DEFAULT_STACK_SIZE
def userStackStart : ℕ := userTrampolineVaddr - pageSize -- USER_STACK_START
def userTextStart : ℕ := 0x08048000 -- USER_TEXT_START
def userSectionRo : ℕ := ptePresentBit ||| pteUsBit -- USER_SECTION_RO
def userSectionRw : ℕ := ptePresentBit ||| pteUsBit ||| pteRwBit -- USER_SECTION_RW

/-- `struct section`. -/
structure Section where
  vAddr : ℕ
  pAddr : ℕ
  dataStart : ℕ
  dataSize : ℕ
  mappingSize : ℕ
  flags : ℕ
  deriving DecidableEq, Repr

/-- A section that `ft_bzero` has cleared. -/
def Section.zero : Section :=
  { vAddr := 0, pAddr := 0, dataStart := 0, dataSize := 0, mappingSize := 0, flags := 0 }

/-- `get_next_section_start(start, size)`. -/
def getNextSectionStart (start size : ℕ) : ℕ := alignUp32 (add32 start size) 12

/-- `get_next_section_start_after_page_guard(start, size)`. -/
def getNextSectionStartAfterPageGuard (start size : ℕ) : ℕ :=
  alignUp32 (add32 start (add32 size pageSize)) 12

/-- `get_prev_section_start(end, size)`. -/
def getPrevSectionStart (stop size : ℕ) : ℕ := alignDown32 (sub32 stop size) 12

/-- `section_init_from_buffer`. -/
def sectionInitFromBuffer (vAddr start size flags : ℕ) : Option Section :=
  if start = 0 ∨ size = 0 then none
  else some { vAddr := vAddr, pAddr := 0, dataStart := start, dataSize := size,
              mappingSize := alignUp32 size 12, flags := flags }

/-- What the linker puts into the kernel image: the bytes at each address, and the two ends of the
code that tasks run. The trampoline is two instructions. -/
structure KernelImage where
  bytes : ℕ → ℕ
  sigTrampolineStart : ℕ
  sigTrampolineEnd : ℕ
  userCafeStart : ℕ
  userCafeEnd : ℕ
  userDeadStart : ℕ
  userDeadEnd : ℕ
  trampoline_size : sigTrampolineEnd - sigTrampolineStart ≤ pageSize

/-- The memory of a `struct task` that is about its address space. `cloned` tells the layout that
`task_clone` gives the sections from the one of `task_get_new`: there the name lies in the heap
section, and `name` is not used. -/
structure UserTask where
  addr : ℕ
  pid : ℕ
  cr3 : ℕ
  kernelStackPointer : ℕ
  textSec : Section
  dataSec : Section
  stackSec : Section
  heapSec : Section
  sigTrampoline : Section
  cloned : Bool
  name : List ℕ
  vmaAreas : List VmArea
  zombie : Bool
  deriving DecidableEq, Repr

section Userspace

variable {σ : Type} (K : KernelAlloc σ) (image : KernelImage)

/-! ## Streams -/

/-- `struct io_stream` over a section. -/
structure IoStream where
  addr : ℕ
  size : ℕ
  pos : ℕ
  deriving DecidableEq, Repr

def sizeofIoStream : ℕ := 36 -- sizeof(struct io_stream) + sizeof(struct io_ops)

/-- `section_create_reader` with `io_stream_get_new`. -/
def sectionCreateReader (sec : Section) (s : Phys σ) : Kern (Option IoStream × Phys σ) :=
  if sec.dataStart = 0 ∨ sec.dataSize = 0 then .ok (none, s)
  else do
    let (addr, s) ← K.kmallocOn sizeofIoStream gfpKernelZero s
    if addr = 0 then .ok (none, s)
    else .ok (some { addr := addr, size := sec.dataSize, pos := 0 }, s)

/-- `fake_read` into the page at `dest`, which lies at `frame`. -/
def fakeRead (ctx : Section) (stream : IoStream) (dest frame size : ℕ) (s : Phys σ) :
    ℤ × IoStream × Phys σ :=
  if ctx.dataStart = 0 ∨ dest = 0 then (-1, stream, s)
  else if ctx.dataSize ≤ stream.pos then (0, stream, s.bzero frame size)
  else
    let available := ctx.dataSize - stream.pos
    let bytesRead := if size < available then size else available
    let s := s.load frame (fun i => image.bytes (ctx.dataStart + stream.pos + i)) bytesRead
    let s := if bytesRead < size then s.bzero (frame + bytesRead) (size - bytesRead) else s
    (bytesRead, { stream with pos := stream.pos + bytesRead }, s)

/-- `io_close`. -/
def ioClose (stream : Option IoStream) (s : Phys σ) : Kern (Phys σ) :=
  match stream with
  | none => .ok s
  | some stream => K.kfreeOn stream.addr s

/-! ## Mapping a section -/

/-- The frame that an access at `vaddr` reaches under the directory `pd`. -/
def accessAt (pd vaddr : ℕ) (s : Phys σ) : Kern ℕ := do
  let p ← vmmGetMapping pd vaddr s
  if p = 0 then .error .fault else .ok p

/-- What the loop of `map_section` carries: `kmap_window`, the stream and memory. -/
structure MapLoop (σ : Type) where
  window : ℕ
  stream : Option IoStream
  phys : Phys σ

/-- The body of the loop of `map_section`. -/
def mapSectionPage (cur pd pool : ℕ) (sec : Section) (l : MapLoop σ) (i : ℕ) :
    Kern (Bool × MapLoop σ) := do
  let vAddr := add32 sec.vAddr (i * pageSize)
  let pAddr := add32 pool (i * pageSize)
  let (window, s) ← vmmKmap K.toPageAlloc cur pAddr l.phys
  if window = 0 then .ok (false, { l with window := 0, phys := s })
  else do
    let (ok, s) ← vmmMapPage K.toPageAlloc pd vAddr pAddr sec.flags s
    if !ok then .ok (false, { l with window := window, phys := s })
    else do
      let frame ← accessAt cur window s
      let s := s.zeroPage frame
      match l.stream with
      | none => .ok (true, { window := window, stream := none, phys := s })
      | some stream =>
        let (n, stream, s) := fakeRead image sec stream window frame pageSize s
        .ok (decide (0 ≤ n), { window := window, stream := some stream, phys := s })

/-- The code of `map_section` at `bad`. -/
def mapSectionBad (cur pool : ℕ) (l : MapLoop σ) : Kern (Phys σ) := do
  let s ← K.freeOn pool l.phys
  let s ← ioClose K l.stream s
  if l.window ≠ 0 then vmmKunmap K.toPageAlloc cur s else .ok s

/-- `map_section`: what it returns and the section with its frames. -/
def mapSection (cur pd : ℕ) (toMap : Section) (s : Phys σ) : Kern (Bool × Section × Phys σ) :=
  if toMap.mappingSize = 0 then .ok (true, toMap, s)
  else do
    let ptCount := toMap.mappingSize / pageSize
    let (pool, s) ← K.allocOn toMap.mappingSize .highmem s
    if pool = 0 then .ok (false, toMap, s)
    else do
      let hasData := decide (toMap.dataStart ≠ 0 ∧ 0 < toMap.dataSize)
      let (stream, s) ← if hasData then sectionCreateReader K toMap s else .ok (none, s)
      if hasData && stream.isNone then do
        let s ← mapSectionBad K cur pool { window := 0, stream := none, phys := s }
        .ok (false, toMap, s)
      else do
        let (ok, l) ← whileOk (mapSectionPage K image cur pd pool toMap) (List.range' 0 ptCount)
          { window := 0, stream := stream, phys := s }
        if ok then do
          let s ← ioClose K l.stream l.phys
          let s ← vmmKunmap K.toPageAlloc cur s
          .ok (true, { toMap with pAddr := pool }, s)
        else do
          let s ← mapSectionBad K cur pool l
          .ok (false, toMap, s)

/-! ## Layout -/

/-- The first part of `userspace_create_new`: the text section, or `none` for a return. -/
def layoutText (text : Section) : Option Section :=
  if text.dataSize = 0 ∨ kernelStart ≤ text.vAddr then none
  else some { text with
    vAddr := if text.vAddr = 0 then userTextStart
      else if 4096 ∣ text.vAddr then text.vAddr else alignDown32 text.vAddr 12
    flags := userSectionRo
    mappingSize := alignUp32 text.dataSize 12 }

/-- The data section, where there is data. -/
def layoutData (text data : Section) : Option Section :=
  if data.dataSize = 0 then some data
  else if data.vAddr = 0 then
    some { data with
      vAddr := getNextSectionStart text.vAddr text.mappingSize
      mappingSize := alignUp32 data.dataSize 12
      flags := userSectionRw }
  else if kernelStart ≤ data.vAddr then none
  else some { data with mappingSize := alignUp32 data.dataSize 12, flags := userSectionRw }

/-- `init_heap_section`. -/
def initHeapSection (prev : Section) : Section :=
  { Section.zero with
    vAddr := getNextSectionStartAfterPageGuard prev.vAddr prev.mappingSize
    flags := userSectionRw }

/-- `init_stack_section`. -/
def initStackSection : Section :=
  { Section.zero with
    vAddr := getPrevSectionStart userStackStart defaultStackSize
    mappingSize := alignUp32 defaultStackSize 12
    flags := userSectionRw }

/-- The sections of a task before anything is mapped, or `none` for a return. -/
def layoutSections (task : UserTask) : Option UserTask := do
  let text ← layoutText task.textSec
  let data ← layoutData text task.dataSec
  let lastSec := if 0 < data.dataSize then data else text
  some { task with
    textSec := text
    dataSec := data
    heapSec := initHeapSection lastSec
    stackSec := initStackSection }

/-! ## Creating an address space -/

/-- `userspace_map_kernel`. -/
def userspaceMapKernel (kernelDir uspacePdPhy : ℕ) (s : Phys σ) : Kern (Bool × Phys σ) := do
  let uspacePdVirt ← physLinear uspacePdPhy
  let s := s.zeroPage uspacePdVirt
  if kernelDir = 0 then .ok (false, s)
  else do
    let kspacePdVirt ← physLinear kernelDir
    .ok (true, s.memcpy (uspacePdVirt + 4 * userPdes) (kspacePdVirt + 4 * userPdes) (224 * 4))

/-- Gives the block of a section back, if it has one. -/
def freeSection (sec : Section) (s : Phys σ) : Kern (Phys σ) :=
  if sec.pAddr ≠ 0 then K.freeOn sec.pAddr s else .ok s

/-- The four calls of `map_section`, up to the first that fails. -/
def mapSections (cur pd : ℕ) (task : UserTask) (s : Phys σ) : Kern (Bool × UserTask × Phys σ) := do
  let (ok, sec, s) ← mapSection K image cur pd task.textSec s
  let task := { task with textSec := sec }
  if !ok then .ok (false, task, s)
  else do
    let (ok, sec, s) ← mapSection K image cur pd task.stackSec s
    let task := { task with stackSec := sec }
    if !ok then .ok (false, task, s)
    else do
      let (ok, sec, s) ← if 0 < task.dataSec.dataSize then mapSection K image cur pd task.dataSec s
        else .ok (true, task.dataSec, s)
      let task := { task with dataSec := sec }
      if !ok then .ok (false, task, s)
      else do
        let (ok, sec, s) ← mapSection K image cur pd task.sigTrampoline s
        .ok (ok, { task with sigTrampoline := sec }, s)

/-- `userspace_create_new`: the task with its address space, or `none` for `false`, after which no
caller looks at the sections. -/
def userspaceCreateNew (kernelDir cur : ℕ) (newTask : UserTask) (s : Phys σ) :
    Kern (Option UserTask × Phys σ) :=
  match layoutSections newTask with
  | none => .ok (none, s)
  | some task => do
    let (uspacePdPhy, s) ← K.allocOn pageSize .lowmem s
    if uspacePdPhy = 0 then .ok (none, s)
    else do
      let (ok, s) ← userspaceMapKernel kernelDir uspacePdPhy s
      let (ok, task, s) ← if ok then mapSections K image cur uspacePdPhy task s
        else .ok (false, task, s)
      if ok then .ok (some { task with cr3 := uspacePdPhy }, s)
      else do
        let s ← freeSection K task.textSec s
        let s ← freeSection K task.dataSec s
        let s ← freeSection K task.stackSec s
        let s ← freeSection K task.sigTrampoline s
        let s ← vmmDestroyUserPd K.toPageAlloc uspacePdPhy s
        .ok (none, s)

end Userspace

end Kfs.Userspace
