import Kfs.Proc.SchedRuns
import Kfs.Proc.TreeSpec

/-!
# Processes

`exec_fn`, `task_get_new`, `task_clone` and `sys_fork` of `src/proc/task.c` and
`src/syscalls/fork.c` with their failure paths, as far as the process tree and the pids are
concerned, and `waitpid` with the release of the pid. The state is that of the scheduler with the
pid manager; `waitArg` is the argument of the `waitpid` call that a task sleeps in, which the source
keeps on the kernel stack of the task.

Which of the allocations succeed is a parameter of each operation. A task that could not be made
was never linked into the tree or a queue.
-/

namespace Kfs.Proc

open Kfs.Lib Kfs.Utils

def pidMax : ℕ := 32768 -- PID_MAX

/-- The scheduler's state, the pid manager and the calls of `waitpid` under way. -/
structure Processes where
  kernel : Kernel
  pids : IdManager
  waitArg : TaskId → Option ℤ

/-- A new task is in no `waitpid`. -/
def Processes.startTask (s : Processes) (t : TaskId) (k : Kernel) (pids : IdManager) : Processes where
  kernel := k
  pids := pids
  waitArg := fun u => if u = t then none else s.waitArg u

/-! ## New tasks -/

/-- What `exec_fn` and `task_get_new` find when they allocate. -/
structure NewTaskEnv where
  /-- `section_init_from_buffer` of the text, which a kernel task does not need. -/
  text : Bool
  /-- The address of the task, or `NULL`. -/
  addr : Option TaskId
  /-- The kernel stack can be allocated. -/
  kstack : Bool
  /-- `section_init_from_buffer` of the trampoline. -/
  trampoline : Bool
  /-- `userspace_create_new`, which a kernel task does not call. -/
  userspace : Bool
  deriving DecidableEq, Repr

/-- `task_get_new`: the address and the pid of the task. -/
def taskGetNew (env : NewTaskEnv) (pids : IdManager) : Option (TaskId × ℕ) × IdManager :=
  match env.addr with
  | none => (none, pids)
  | some t =>
    match idManagerAlloc pids with
    | (none, pids) => (none, pids) -- free_task
    | (some pid, pids) =>
      if !env.kstack then (none, idManagerFree pids pid) -- free_pid
      else if !env.trampoline then (none, idManagerFree pids pid) -- free_kstack
      else if !env.userspace then (none, idManagerFree pids pid) -- free_kstack
      else (some (t, pid), pids)

/-- `exec_fn`. -/
def Processes.execFn (env : NewTaskEnv) (s : Processes) : Kern Processes :=
  if !env.text then .ok s
  else
    match taskGetNew env s.pids with
    | (none, pids) => .ok { s with pids := pids }
    | (some (t, pid), pids) => do
      let k ← Proc.execFn t pid s.kernel
      .ok (s.startTask t k pids)

/-- What `sys_fork` and `task_clone` find when they allocate. -/
structure ForkEnv where
  /-- The address of the task, or `NULL`. -/
  addr : Option TaskId
  /-- A page for the directory. -/
  cr3 : Bool
  /-- The kernel stack can be allocated. -/
  kernelStack : Bool
  /-- Every page and page table of the parent can be copied. -/
  pageCopy : Bool
  deriving DecidableEq, Repr

/-- `task_clone`: the address and the pid of the copy. -/
def taskClone (env : ForkEnv) (pids : IdManager) : Option (TaskId × ℕ) × IdManager :=
  match env.addr with
  | none => (none, pids)
  | some t =>
    match idManagerAlloc pids with
    | (none, pids) => (none, pids)
    | (some pid, pids) =>
      if !env.cr3 then (none, idManagerFree pids pid)
      else (some (t, pid), pids)

/-- `sys_fork`. -/
def Processes.sysFork (env : ForkEnv) (s : Processes) : Kern Processes :=
  match taskClone env s.pids with
  | (none, pids) => .ok { s with pids := pids }
  | (some (t, pid), pids) =>
    if !env.kernelStack then .ok { s with pids := idManagerFree pids pid } -- fail_kernel_stack
    else if !env.pageCopy then .ok { s with pids := idManagerFree pids pid } -- fail_page_copy
    else do
      let k ← Proc.sysFork t pid s.kernel
      .ok (s.startTask t k pids)

/-! ## Waiting for children -/

/-- The pids after a turn of `sys_waitpid`: a result that is not an error is the pid of the child
that `task_release` has released. -/
def releasedPid (pids : IdManager) : WaitResult → IdManager
  | .ret (.ofNat pid) => idManagerFree pids pid
  | .ret (.negSucc _) => pids
  | .blocked => pids

/-- One turn of the loop of `sys_waitpid`. -/
def Processes.sysWaitpid (pid : ℤ) (copyOk : Bool) (s : Processes) : Kern Processes := do
  let (r, k) ← Proc.sysWaitpid pid copyOk s.kernel
  .ok {
    kernel := k
    pids := releasedPid s.pids r
    waitArg := fun t =>
      if t = s.kernel.current then (if r = .blocked then some pid else none) else s.waitArg t }

/-! ## The system -/

/-- The operations on processes. -/
inductive ProcOp where
  /-- An operation of the scheduler that neither makes nor reaps a task. -/
  | sched (op : SchedOp)
  | execFn (env : NewTaskEnv)
  | fork (env : ForkEnv)
  | waitpid (pid : ℤ) (copyOk : Bool)
  deriving DecidableEq, Repr

/-- What an operation does. -/
def procStep (s : Processes) : ProcOp → Kern Processes
  | .sched op => do
    let k ← schedStep s.kernel op
    .ok { s with kernel := k }
  | .execFn env => s.execFn env
  | .fork env => s.sysFork env
  | .waitpid pid copyOk => s.sysWaitpid pid copyOk

/-- The operations of the scheduler that `ProcOp` does not replace. -/
def SchedOp.Plain : SchedOp → Prop
  | .waitpid _ _ | .execFn _ _ | .fork _ _ => False
  | _ => True

instance (op : SchedOp) : Decidable op.Plain :=
  match op with
  | .waitpid _ _ | .execFn _ _ | .fork _ _ => isFalse id
  | .schedule | .tick | .ksleep _ | .ksleepReturn | .wakeOne _ | .wakeAll _ | .wakeSpecifiq _
  | .signalSend _ _ | .signal _ _ | .callHandlers _ | .exit _ => isTrue trivial

/-- `idle` and the boot thread make no blocking call and do not fork. -/
def ProcOp.Enabled (s : Processes) : ProcOp → Prop
  | .sched op => op.Plain ∧ op.Enabled s.kernel
  | .execFn _ => True
  | .fork _ => s.kernel.current ≠ s.kernel.idle ∧ s.kernel.current ≠ s.kernel.dummy
  | .waitpid _ _ => s.kernel.current ≠ s.kernel.idle ∧ s.kernel.current ≠ s.kernel.dummy

instance (s : Processes) (op : ProcOp) : Decidable (op.Enabled s) :=
  match op with
  | .sched _ => inferInstanceAs (Decidable (_ ∧ _))
  | .execFn _ => inferInstanceAs (Decidable True)
  | .fork _ => inferInstanceAs (Decidable (_ ∧ _))
  | .waitpid _ _ => inferInstanceAs (Decidable (_ ∧ _))

/-- The pid manager when `task_init_process` has made `idle` and `kitoxD`. -/
def initPids (garbage : ℕ → BitVec 8) : IdManager :=
  (idManagerAlloc (idManagerAlloc (idManagerCreate pidMax garbage)).2).2

/-- The states that `task_init_process` may leave. -/
def AfterInit (s : Processes) : Prop :=
  ∃ garbage, AfterInitProcess s.kernel ∧ s.pids = initPids garbage ∧ ∀ t, s.waitArg t = none

/-- The processes as a transition system. -/
def procSystem : System Processes ProcOp :=
  (System.ofStep AfterInit procStep).restrict fun s op => op.Enabled s

end Kfs.Proc
