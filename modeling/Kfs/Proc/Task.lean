import Kfs.Kernel.Panic
import Kfs.Lib.Word32

/-!
# Tasks and the queues they are linked in

`include/proc/task.h`, `include/proc/waitqueue.h` and the parts of `src/proc/task.c` that concern
scheduling and the process tree. A task is named by its address. Lists that thread through the
tasks are lists of names: `ready_queue` through `sched_node`, a wait queue through `wq_data.node`,
the children of a task through `siblings`. A node is linked in at most one list; `wqNode` is the
wait queue that `wq_data.node` is linked in, and `sched_node` is linked when the task is in
`ready_queue`.

Address spaces, sections and the saved registers are not part of this state.
-/

namespace Kfs.Proc

open Kfs.Lib

/-! ## Data -/

/-- The address of a `struct task`. -/
abbrev TaskId := ℕ

/-- `enum process_states`. -/
inductive ProcessState where
  | new
  | running
  | waiting
  | zombie
  deriving DecidableEq, Repr

/-- `enum wq_state`. -/
inductive WqState where
  | interruptible
  | uninterruptible
  deriving DecidableEq, Repr

/-- The wait queues of the kernel: `sleep_wq` and the `child_wq` of each task. -/
inductive WqHead where
  | sleep
  | child (task : TaskId)
  deriving DecidableEq, Repr

/-- An entry of `sig_handlers`: the two handlers of the kernel, or an address below
`KERNEL_VADDR_BASE`. -/
inductive SigHandler where
  | default
  | ignore
  | user (addr : ℕ)
  deriving DecidableEq, Repr

def stackCanaryMagic : ℕ := 0xABADBABE -- STACK_CANARY_MAGIC
def defaultQuantum : ℕ := 10 -- DEFAULT_QUANTUM
def ticksPerSecond : ℕ := 100 -- TICKS_PER_SECOND
def sigKill : ℕ := 9 -- SIGKILL
def sigStop : ℕ := 19 -- SIGSTOP
def sigSentinel : ℕ := 32 -- SIG_Sentinel

/-- The signals of `SIG_IGN_MASK`. -/
def sigIgnored : List ℕ := [17, 18, 19, 20, 21, 22, 23, 28, 29, 30, 16]

/-- `signal_init_default_handlers`. -/
def signalInitDefaultHandlers (sig : ℕ) : SigHandler :=
  if sig ∈ sigIgnored then .ignore else .default

/-- `struct task`; `canary` is the word at `kernel_stack_pointer`, and `wqHead` is `wq_data.head`. -/
structure Task where
  pid : ℕ
  state : ProcessState
  realParent : Option TaskId
  parent : Option TaskId
  children : List TaskId
  signalsMap : ℕ
  sigHandlers : ℕ → SigHandler
  needResched : Bool
  exitCode : ℕ
  wqNode : Option WqHead
  wqHead : Option WqHead
  wqState : WqState
  tickToWake : ℕ
  quantumRemaining : ℕ
  canary : ℕ

/-- A task as `task_get_new` leaves it: fields that it does not set are zero. -/
def newTask (pid : ℕ) : Task where
  pid := pid
  state := .new
  realParent := none
  parent := none
  children := []
  signalsMap := 0
  sigHandlers := signalInitDefaultHandlers
  needResched := false
  exitCode := 0
  wqNode := none
  wqHead := none
  wqState := .interruptible
  tickToWake := 0
  quantumRemaining := 0
  canary := stackCanaryMagic

/-- The boot thread of `task_init_dummy`, a zeroed `struct task`. -/
def dummyTask : Task :=
  { newTask 0 with state := .running, sigHandlers := fun _ => .user 0 }

/-- The tasks, the queues and the tick counter. -/
structure Kernel where
  tasks : TaskId → Option Task
  readyQueue : List TaskId
  waitQueue : WqHead → List TaskId
  current : TaskId
  idle : TaskId
  dummy : TaskId
  kitoxD : TaskId
  globalTicks : ℕ

namespace Kernel

/-- Dereferences a pointer to a task. -/
def getTask (k : Kernel) (t : TaskId) : Kern Task :=
  match k.tasks t with
  | some x => .ok x
  | none => .error .fault

/-- Writes the fields of a task. -/
def setTask (k : Kernel) (t : TaskId) (x : Task) : Kernel :=
  { k with tasks := fun u => if u = t then some x else k.tasks u }

/-- Replaces a wait queue. -/
def setQueue (k : Kernel) (h : WqHead) (queue : List TaskId) : Kernel :=
  { k with waitQueue := fun h' => if h' = h then queue else k.waitQueue h' }

@[simp] theorem setTask_readyQueue (k : Kernel) (t : TaskId) (x : Task) :
    (k.setTask t x).readyQueue = k.readyQueue := rfl

@[simp] theorem setTask_waitQueue (k : Kernel) (t : TaskId) (x : Task) :
    (k.setTask t x).waitQueue = k.waitQueue := rfl

@[simp] theorem setTask_current (k : Kernel) (t : TaskId) (x : Task) :
    (k.setTask t x).current = k.current := rfl

@[simp] theorem setTask_idle (k : Kernel) (t : TaskId) (x : Task) :
    (k.setTask t x).idle = k.idle := rfl

@[simp] theorem setTask_dummy (k : Kernel) (t : TaskId) (x : Task) :
    (k.setTask t x).dummy = k.dummy := rfl

@[simp] theorem setTask_self (k : Kernel) (t : TaskId) (x : Task) :
    (k.setTask t x).tasks t = some x := if_pos rfl

theorem setTask_tasks (k : Kernel) (t u : TaskId) (x : Task) :
    (k.setTask t x).tasks u = if u = t then some x else k.tasks u := rfl

theorem setTask_of_ne (k : Kernel) {t u : TaskId} (x : Task) (h : u ≠ t) :
    (k.setTask t x).tasks u = k.tasks u := if_neg h

@[simp] theorem setQueue_tasks (k : Kernel) (h : WqHead) (queue : List TaskId) :
    (k.setQueue h queue).tasks = k.tasks := rfl

@[simp] theorem setQueue_readyQueue (k : Kernel) (h : WqHead) (queue : List TaskId) :
    (k.setQueue h queue).readyQueue = k.readyQueue := rfl

theorem getTask_eq {k : Kernel} {t : TaskId} {x : Task} (h : k.tasks t = some x) :
    k.getTask t = .ok x := by
  unfold getTask
  rw [h]

/-- The state that `task_init_process` leaves, with the three tasks at distinct addresses. -/
def initProcess (dummy idle kitoxD : TaskId) : Kernel where
  tasks t := if t = dummy then some dummyTask
    else if t = idle then some (newTask 0)
    else if t = kitoxD then some { newTask 1 with state := .running }
    else none
  readyQueue := [kitoxD]
  waitQueue _ := []
  current := dummy
  idle := idle
  dummy := dummy
  kitoxD := kitoxD
  globalTicks := 0

end Kernel

end Kfs.Proc
