import Kfs.Lib.TransitionSystem
import Kfs.Proc.Userspace
import Kfs.Utils.IdManager

/-!
# The life of a process

`task_get_new`, `task_clone`, `task_exit_cleanup` and `task_release` of `src/proc/task.c`, `sys_fork`,
`sys_execve`, `do_exit` and the release of a zombie in `sys_waitpid`, as far as they concern memory:
page frames, page tables, directories and heap objects, with every failure path. The process tree
and the scheduler are the subject of `Kfs.Proc.Processes`; here any task that has not exited may
make a call at any time, and any zombie may be reaped.

Every task has a user address space: a kernel task maps nothing and owns no frames.
-/

namespace Kfs.Userspace

open Kfs.Lib Kfs.Lib.Word32 Kfs.Memory Kfs.Proc Kfs.Utils

/-! ## The name of a task -/

def sizeofTask : ℕ := 288 -- sizeof(struct task) on the 32-bit target
def sizeofSection : ℕ := 24 -- sizeof(struct section)

/-- The bytes of a word in memory. -/
def wordBytes (w : ℕ) : List ℕ := [w % 256, w / 256 % 256, w / 65536 % 256, w / 16777216 % 256]

/-- The word at an offset of a list of bytes. -/
def wordAt (bytes : List ℕ) (i : ℕ) : ℕ :=
  bytes.getD i 0 + 256 * bytes.getD (i + 1) 0 + 65536 * bytes.getD (i + 2) 0 +
    16777216 * bytes.getD (i + 3) 0

/-- The bytes of a section in memory. -/
def Section.bytes (sec : Section) : List ℕ :=
  [sec.vAddr, sec.pAddr, sec.dataStart, sec.dataSize, sec.mappingSize, sec.flags].flatMap wordBytes

/-- The section with given bytes. -/
def Section.ofBytes (bytes : List ℕ) : Section where
  vAddr := wordAt bytes 0
  pAddr := wordAt bytes 4
  dataStart := wordAt bytes 8
  dataSize := wordAt bytes 12
  mappingSize := wordAt bytes 16
  flags := wordAt bytes 20

/-- A section with bytes written over its start. -/
def Section.overlay (sec : Section) (bytes : List ℕ) : Section :=
  Section.ofBytes (bytes ++ sec.bytes.drop bytes.length)

/-- The string at `task->name`; in a clone the pointer leads into the heap section. -/
def UserTask.nameString (task : UserTask) : List ℕ :=
  if task.cloned then task.heapSec.bytes.takeWhile (· ≠ 0) else task.name

/-- Writes `name` and a `NUL` to `task->name`. -/
def UserTask.setName (task : UserTask) (name : List ℕ) : UserTask :=
  if task.cloned then { task with heapSec := task.heapSec.overlay (name ++ [0]) }
  else { task with name := name }

section Tasks

variable {σ : Type} (K : KernelAlloc σ) (image : KernelImage)

/-! ## New tasks -/

/-- The zeroed `struct task` with what `task_get_new` stores in it before `userspace_create_new`. -/
def rawTask (addr pid kstack : ℕ) (text : Section) (data : Option Section) (trampoline : Section) :
    UserTask where
  addr := addr
  pid := pid
  cr3 := 0
  kernelStackPointer := kstack
  textSec := text
  dataSec := data.getD Section.zero
  stackSec := Section.zero
  heapSec := Section.zero
  sigTrampoline := trampoline
  cloned := false
  name := []
  vmaAreas := []
  zombie := false

/-- `task_get_new` for ring 3, called under the directory `cur`. -/
def taskGetNew (kernelDir cur : ℕ) (name : List ℕ) (text : Section) (data : Option Section)
    (pids : IdManager) (s : Phys σ) : Kern (Option UserTask × IdManager × Phys σ) := do
  let name := name.take 16
  let (addr, s) ← K.kmallocOn (sizeofTask + sizeofSection * 5 + name.length + 1) gfpKernelZero s
  if addr = 0 then .ok (none, pids, s)
  else
    match idManagerAlloc pids with
    | (none, pids) => do -- free_task
      let s ← K.kfreeOn addr s
      .ok (none, pids, s)
    | (some pid, pids) => do
      let (kstack, s) ← K.kmallocOn defaultStackSize gfpKernelZero s
      if kstack = 0 then do -- free_pid
        let s ← K.kfreeOn addr s
        .ok (none, idManagerFree pids pid, s)
      else do
        let trampoline := sectionInitFromBuffer userTrampolineVaddr image.sigTrampolineStart
          (image.sigTrampolineEnd - image.sigTrampolineStart) userSectionRo
        let (new, s) ← match trampoline with
          | none => .ok (none, s)
          | some trampoline =>
            userspaceCreateNew K image kernelDir cur (rawTask addr pid kstack text data trampoline) s
        match new with
        | none => do -- free_kstack
          let s ← K.kfreeOn kstack s
          let s ← K.kfreeOn addr s
          .ok (none, idManagerFree pids pid, s)
        | some new => do
          let (areas, s) ← vmaInitArea K.vmaEnv new.heapSec.vAddr
            (sub32 new.stackSec.vAddr pageSize) s
          .ok (some { new with name := name, vmaAreas := areas }, pids, s)

/-! ## `fork` -/

/-- `task_clone`. -/
def taskClone (task : UserTask) (pids : IdManager) (s : Phys σ) :
    Kern (Option UserTask × IdManager × Phys σ) := do
  let name := task.nameString
  let (addr, s) ← K.kmallocOn (sizeofTask + sizeofSection * 5 + name.length + 1) gfpKernelZero s
  if addr = 0 then .ok (none, pids, s)
  else
    let new := { task with addr := addr, kernelStackPointer := 0, cloned := true, vmaAreas := [] }
    let new := new.setName name
    match idManagerAlloc pids with
    | (none, pids) => do
      let s ← K.kfreeOn addr s
      .ok (none, pids, s)
    | (some pid, pids) => do
      let (cr3, s) ← K.allocOn pageSize .lowmem s
      if cr3 = 0 then do
        let s ← K.kfreeOn addr s
        .ok (none, idManagerFree pids pid, s)
      else do
        let pd ← physLinear cr3
        .ok (some { new with pid := pid, cr3 := cr3 }, pids, s.zeroPage pd)

/-- The body of the inner loop of `sys_fork`: entry `j` of the table at `currentPt`. -/
def forkPage (current new currentPt i : ℕ) (s : Phys σ) (j : ℕ) : Kern (Bool × Phys σ) :=
  if flagIsSet (s.mem (currentPt + 4 * j)) ptePresentBit then do
    let (page, s) ← K.allocOn pageSize .highmem s
    if page = 0 then .ok (false, s)
    else do
      let (window, s) ← vmmKmap K.toPageAlloc current page s
      if window = 0 then do
        let s ← K.freeOn page s
        .ok (false, s)
      else do
        let vaddr := (i <<< 22) ||| (j <<< 12)
        let (ok, s) ← vmmMapPage K.toPageAlloc new vaddr page
          (getEntryFlags (s.mem (currentPt + 4 * j))) s
        if !ok then do
          let s ← vmmKunmap K.toPageAlloc current s
          let s ← K.freeOn page s
          .ok (false, s)
        else do
          let dst ← accessAt current window s
          let src ← accessAt current vaddr s
          let s ← vmmKunmap K.toPageAlloc current (s.memcpy dst src pageSize)
          .ok (true, s)
  else .ok (true, s)

/-- The body of the outer loop of `sys_fork`: entry `i` of the directory. -/
def forkTable (current new : ℕ) (s : Phys σ) (i : ℕ) : Kern (Bool × Phys σ) := do
  let currentPd ← physLinear current
  let newPd ← physLinear new
  if flagIsSet (s.mem (currentPd + 4 * i)) pdePresentBit then do
    let (newPtPhys, s) ← K.allocOn pageSize .lowmem s
    if newPtPhys = 0 then .ok (false, s)
    else do
      let s := s.write (newPd + 4 * i)
        (getEntryAddr newPtPhys ||| getEntryFlags (s.mem (currentPd + 4 * i)))
      let currentPt ← physLinear (getEntryAddr (s.mem (currentPd + 4 * i)))
      let newPt ← physLinear (getEntryAddr (s.mem (newPd + 4 * i)))
      whileOk (forkPage K current new currentPt i) (List.range' 0 1024) (s.zeroPage newPt)
  else .ok (true, s)

/-- `task_release`. -/
def taskRelease (task : UserTask) (pids : IdManager) (s : Phys σ) : Kern (IdManager × Phys σ) := do
  let pids := idManagerFree pids task.pid
  let s ← K.kfreeOn task.kernelStackPointer s
  let s ← K.kfreeOn task.addr s
  .ok (pids, s)

/-- The code of `sys_fork` at `fail_kernel_stack`. -/
def forkFail (new : UserTask) (pids : IdManager) (s : Phys σ) :
    Kern (Option UserTask × IdManager × Phys σ) := do
  let s ← vmmDestroyUserPd K.toPageAlloc new.cr3 s
  let (pids, s) ← taskRelease K new pids s
  .ok (none, pids, s)

/-- `sys_fork` of the task `current`: the child, or `none` for `-ENOMEM`. -/
def sysFork (current : UserTask) (pids : IdManager) (s : Phys σ) :
    Kern (Option UserTask × IdManager × Phys σ) := do
  let (new, pids, s) ← taskClone K current pids s
  match new with
  | none => .ok (none, pids, s)
  | some new => do
    let (kstack, s) ← K.kmallocOn defaultStackSize gfpKernelZero s
    let new := { new with kernelStackPointer := kstack }
    if kstack = 0 then forkFail K new pids s
    else do
      let new := { new with
        textSec := { new.textSec with pAddr := 0 }
        dataSec := { new.dataSec with pAddr := 0 }
        heapSec := { new.heapSec with pAddr := 0 }
        stackSec := { new.stackSec with pAddr := 0 } }
      let (ok, s) ← whileOk (forkTable K current.cr3 new.cr3) (List.range' 0 userPdes) s
      if !ok then do -- fail_page_copy
        let s ← K.kfreeOn kstack s
        forkFail K new pids s
      else do
        let currentPd ← physLinear current.cr3
        let newPd ← physLinear new.cr3
        .ok (some new, pids,
          s.memcpy (newPd + 4 * userPdes) (currentPd + 4 * userPdes) (224 * 4))

/-! ## `execve` -/

/-- `struct exec_fn_mok`. -/
structure ExecFnMok where
  name : List ℕ
  start : ℕ
  stop : ℕ
  isUser : Bool

/-- `mok_registry`; the names are "cafe" and "dead". -/
def mokRegistry : List ExecFnMok :=
  [{ name := [0x63, 0x61, 0x66, 0x65], start := image.userCafeStart, stop := image.userCafeEnd,
     isUser := true },
   { name := [0x64, 0x65, 0x61, 0x64], start := image.userDeadStart, stop := image.userDeadEnd,
     isUser := true }]

/-- `sys_execve`: the task with its new image, or `none` for an error. -/
def sysExecve (kernelDir : ℕ) (index : ℤ) (cur : UserTask) (s : Phys σ) :
    Kern (Option UserTask × Phys σ) :=
  if index < 0 then .ok (none, s) -- -EINVAL
  else
    match (mokRegistry image)[index.toNat]? with
    | none => .ok (none, s) -- -EINVAL
    | some fnInfo =>
      match sectionInitFromBuffer 0 fnInfo.start (fnInfo.stop - fnInfo.start) 0 with
      | none => .ok (none, s) -- -EFAULT
      | some text => do
        let cur := { cur with textSec := text }
        if fnInfo.isUser then do
          let (new, s) ← userspaceCreateNew K image kernelDir kernelDir cur s
          match new with
          | none => .error (.kpanic "Failed to create new clean userspace")
          | some cur => do
            let (areas, s) ← vmaInitArea K.vmaEnv cur.heapSec.vAddr
              (sub32 cur.stackSec.vAddr pageSize) s
            .ok (some ({ cur with vmaAreas := areas }.setName (fnInfo.name.take 15)), s)
        else .ok (some ({ cur with cr3 := kernelDir, vmaAreas := [] }.setName
          (fnInfo.name.take 15)), s)

/-! ## `exit` -/

/-- The four sections from `text_sec` on are cleared: in a task of `task_get_new` the fourth is the
heap section, in a clone it is the trampoline. -/
def UserTask.clearSections (task : UserTask) : UserTask :=
  let task := { task with textSec := Section.zero, dataSec := Section.zero, stackSec := Section.zero }
  if task.cloned then { task with sigTrampoline := Section.zero }
  else { task with heapSec := Section.zero }

/-- `task_exit_cleanup`. -/
def taskExitCleanup (task : UserTask) (s : Phys σ) : Kern (UserTask × Phys σ) := do
  let s ← freeSection K task.textSec s
  let s ← freeSection K task.dataSec s
  let s ← freeSection K task.stackSec s
  let s ← freeSection K task.sigTrampoline s
  let s ← vmaDestroyAreas K.vmaEnv task.vmaAreas task.cr3 s
  let s ← vmmDestroyUserPd K.toPageAlloc task.cr3 s
  .ok ({ task.clearSections with vmaAreas := [], zombie := true }, s)

/-! ## The system -/

/-- The tasks that have not been released, the pids and memory. -/
structure Tasks (σ : Type) where
  tasks : List UserTask
  pids : IdManager
  phys : Phys σ

/-- A buffer in the kernel image, for `section_init_from_buffer`. -/
structure Buffer where
  vAddr : ℕ
  start : ℕ
  size : ℕ
  deriving DecidableEq, Repr

/-- The operations. A task is named by its address; `cur` is the task under whose directory a new
task is made, or `none` for the kernel's. -/
inductive LifeOp where
  | create (cur : Option ℕ) (name : List ℕ) (text : Buffer) (data : Option Buffer)
  | fork (task : ℕ)
  | execve (task : ℕ) (index : ℤ)
  | mmap (task addr length prot : ℕ)
  | munmap (task addr length : ℕ)
  | fault (task addr : ℕ)
  | exit (task : ℕ)
  | waitpid (zombie : ℕ)
  deriving DecidableEq, Repr

/-- The task at an address, with the tasks before it, nearest first, and after it. -/
def splitTask (addr : ℕ) :
    List UserTask → List UserTask → Option (List UserTask × UserTask × List UserTask)
  | _, [] => none
  | before, task :: after =>
    if task.addr = addr then some (before, task, after) else splitTask addr (task :: before) after

/-- Runs a call of a task that has not exited, and stores the task. -/
def Tasks.onTask (k : Tasks σ) (addr : ℕ)
    (call : UserTask → Kern (Option UserTask × UserTask × IdManager × Phys σ)) : Kern (Tasks σ) :=
  match splitTask addr [] k.tasks with
  | none => .error .fault
  | some (before, task, after) =>
    if task.zombie then .error .fault
    else do
      let (new, task, pids, s) ← call task
      .ok { tasks := new.toList ++ (before.reverse ++ task :: after), pids := pids, phys := s }

/-- The directory under which a new task is made. -/
def Tasks.currentDir (k : Tasks σ) (kernelDir : ℕ) : Option ℕ → Kern ℕ
  | none => .ok kernelDir
  | some addr =>
    match splitTask addr [] k.tasks with
    | none => .error .fault
    | some (_, task, _) => if task.zombie then .error .fault else .ok task.cr3

/-- The section of a buffer. -/
def Buffer.toSection (b : Buffer) : Option Section := sectionInitFromBuffer b.vAddr b.start b.size 0

/-- What an operation does; `kitoxD` is the address of the first user task, which must not exit. -/
def lifeStep (kernelDir kitoxD : ℕ) (k : Tasks σ) : LifeOp → Kern (Tasks σ)
  | .create cur name text data => do
    let dir ← k.currentDir kernelDir cur
    match text.toSection with
    | none => .ok k
    | some text => do
      let (new, pids, s) ← taskGetNew K image kernelDir dir name text
        (data.bind Buffer.toSection) k.pids k.phys
      .ok { tasks := new.toList ++ k.tasks, pids := pids, phys := s }
  | .fork task => k.onTask task fun t => do
    let (new, pids, s) ← sysFork K t k.pids k.phys
    .ok (new, t, pids, s)
  | .execve task index => k.onTask task fun t => do
    let (new, s) ← sysExecve K image kernelDir index t k.phys
    .ok (none, new.getD t, k.pids, s)
  | .mmap task addr length prot => k.onTask task fun t => do
    let (_, areas, s) ← sysMmap K.vmaEnv t.vmaAreas t.cr3 addr length prot k.phys
    .ok (none, { t with vmaAreas := areas }, k.pids, s)
  | .munmap task addr length => k.onTask task fun t => do
    let (_, areas, s) ← sysMunmap K.vmaEnv t.vmaAreas t.cr3 addr length k.phys
    .ok (none, { t with vmaAreas := areas }, k.pids, s)
  | .fault task addr => k.onTask task fun t => do
    let (areas, s) ← pageFaultHandler K.vmaEnv t.vmaAreas t.cr3 addr k.phys
    .ok (none, { t with vmaAreas := areas }, k.pids, s)
  | .exit task =>
    if task = kitoxD then .error (.kpanic "Error: Trying to exit init or idle...")
    else k.onTask task fun t => do
      let (t, s) ← taskExitCleanup K t k.phys
      .ok (none, t, k.pids, s)
  | .waitpid zombie =>
    match splitTask zombie [] k.tasks with
    | none => .error .fault
    | some (before, task, after) =>
      if task.zombie then do
        let (pids, s) ← taskRelease K task k.pids k.phys
        .ok { tasks := before.reverse ++ after, pids := pids, phys := s }
      else .ok k -- the caller sleeps

end Tasks

end Kfs.Userspace
