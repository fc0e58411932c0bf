import Kfs.Memory.Page
import Kfs.Proc.Task

/-!
# The scheduler and what changes its queues

`src/proc/scheduler.c`, `waitqueue.c`, `timer.c`, `signal.c` and the scheduling side of
`src/syscalls/exit.c`, `fork.c`, `waitpid.c` and of `exec_fn`. Each function runs with interrupts
off. `schedule` ends in the context of the task it switches to; what that task does after it was
switched in (the handlers of its pending signals, the reset of its wake-up tick) are functions of
their own.

`task_init_process` panics where it cannot create the idle task, so the `NULL` checks of `schedule`
do not appear. Nothing ever sets the `handler` of a wait-queue entry.
-/

namespace Kfs.Proc

open Kfs.Lib Kfs.Lib.Word32

/-! ## The ready queue -/

/-- `sched_enqueue`, whose result no caller uses. -/
def schedEnqueue (t : TaskId) (k : Kernel) : Kern Kernel :=
  if t ∈ k.readyQueue then .ok k
  else do
    let x ← k.getTask t
    let k := k.setTask t { x with state := .running }
    .ok { k with readyQueue := k.readyQueue ++ [t] }

/-- `pop_node(&task->sched_node)` if the node is linked. -/
def popSchedNode (t : TaskId) (k : Kernel) : Kernel :=
  { k with readyQueue := k.readyQueue.erase t }

/-- The context switch at the end of `schedule`. -/
def switchTo (next : TaskId) (k : Kernel) : Kern Kernel := do
  let x ← k.getTask next
  if x.canary ≠ stackCanaryMagic then .error (.kpanic "Stack overflow: (pid=%d name=%s)")
  else .ok { k.setTask next { x with quantumRemaining := defaultQuantum } with current := next }

def nonRunningPanic : Stop := -- the panic of schedule
  .kpanic "Scheduler: non-RUNNING task in ready queue (pid=%d name=%s)"

/-- `schedule` after the current task has been put back into the queue: `pick_next` and the rest. -/
def pickNext (k : Kernel) : Kern Kernel :=
  match k.readyQueue with
  | next :: rest => do
    let x ← k.getTask next
    if x.state ≠ .running then .error nonRunningPanic
    else switchTo next { k with readyQueue := rest }
  | [] =>
    if k.current = k.idle then .ok k
    else do
      let x ← k.getTask k.idle
      switchTo k.idle (k.setTask k.idle { x with state := .running })

/-- `schedule`. -/
def schedule (k : Kernel) : Kern Kernel := do
  let cur ← k.getTask k.current
  if cur.canary ≠ stackCanaryMagic then .error (.kpanic "Stack overflow: (pid=%d name=%s)")
  else do
    let k ← if cur.state = .running ∧ k.current ≠ k.idle ∧ k.current ≠ k.dummy then
        schedEnqueue k.current k
      else .ok k
    pickNext k

/-! ## Wait queues -/

/-- `pop_node(&task->wq_data.node)` if the node is linked. -/
def popWqNode (t : TaskId) (x : Task) (k : Kernel) : Kernel :=
  match x.wqNode with
  | none => k
  | some h => k.setQueue h ((k.waitQueue h).erase t)

/-- `wq_prepare`. -/
def wqPrepare (wq : WqHead) (t : TaskId) (k : Kernel) : Kern Kernel := do
  let x ← k.getTask t
  let k := popWqNode t x (popSchedNode t k)
  let k := k.setTask t { x with
    wqHead := some wq, state := .waiting, needResched := true, wqNode := some wq }
  .ok (k.setQueue wq (t :: k.waitQueue wq))

/-- `wq_finish` on the entry of a task. -/
def wqFinish (t : TaskId) (k : Kernel) : Kern Kernel := do
  let x ← k.getTask t
  if x.wqNode = none then .ok k
  else do
    let k := popWqNode t x k
    let k := k.setTask t { x with state := .running, wqNode := none }
    let k ← schedEnqueue t k
    let x ← k.getTask t
    .ok (k.setTask t { x with wqHead := none })

/-- `wq_wake_specifiq`. -/
def wqWakeSpecifiq (t : TaskId) (k : Kernel) : Kern Kernel := wqFinish t k

/-- `wq_signal_wake_up`. -/
def wqSignalWakeUp (t : TaskId) (k : Kernel) : Kern Kernel := do
  let x ← k.getTask t
  if x.wqState = .uninterruptible then .ok k else wqWakeSpecifiq t k

/-- `wq_wake_one`. -/
def wqWakeOne (wq : WqHead) (k : Kernel) : Kern Kernel :=
  match k.waitQueue wq with
  | [] => .ok k
  | t :: _ => wqFinish t k

/-- The loop of `wq_wake_all` for at most `n` entries. The entry at the head is unlinked in each
turn, so the length of the queue is enough; with a head that is not linked the loop never ends. -/
def wqWakeAllN (wq : WqHead) : ℕ → Kernel → Kern Kernel
  | 0, k => if k.waitQueue wq = [] then .ok k else .error .fault
  | n + 1, k =>
    match k.waitQueue wq with
    | [] => .ok k
    | t :: _ => do
      let k ← wqFinish t k
      wqWakeAllN wq n k

/-- `wq_wake_all`. -/
def wqWakeAll (wq : WqHead) (k : Kernel) : Kern Kernel :=
  wqWakeAllN wq (k.waitQueue wq).length k

/-! ## The timer -/

/-- The body of the loop of `task_wake_up_sleepers`. -/
def wakeSleeper (k : Kernel) (t : TaskId) : Kern Kernel := do
  let x ← k.getTask t
  if x.tickToWake ≤ k.globalTicks then wqFinish t k else .ok k

/-- `task_wake_up_sleepers`. -/
def taskWakeUpSleepers (k : Kernel) : Kern Kernel :=
  (k.waitQueue .sleep).foldlM wakeSleeper k

/-- `timer_handle`. -/
def timerHandle (k : Kernel) : Kern Kernel := do
  let k ← taskWakeUpSleepers { k with globalTicks := add32 k.globalTicks 1 }
  if k.current = k.idle then schedule k
  else do
    let cur ← k.getTask k.current
    let quantum := sub32 cur.quantumRemaining 1
    let k := k.setTask k.current { cur with quantumRemaining := quantum }
    if quantum > 0 then .ok k else schedule k

/-- `timer_ksleep` up to the switch. -/
def timerKsleep (seconds : ℕ) (k : Kernel) : Kern Kernel := do
  let cur ← k.getTask k.current
  let k := k.setTask k.current
    { cur with tickToWake := add32 k.globalTicks (seconds * ticksPerSecond % 2 ^ 32) }
  let k ← wqPrepare .sleep k.current k
  schedule k

/-- The end of `timer_ksleep`, when the sleeper is current again. -/
def timerKsleepReturn (k : Kernel) : Kern Kernel := do
  let cur ← k.getTask k.current
  .ok (k.setTask k.current { cur with tickToWake := 0 })

/-! ## Exit -/

/-- One turn of the loop of `__task_reparent_children`. -/
def reparentChild (kitoxD : TaskId) (k : Kernel) (child : TaskId) : Kern Kernel := do
  let c ← k.getTask child
  let k := k.setTask child { c with parent := some kitoxD, realParent := some kitoxD }
  let init ← k.getTask kitoxD
  .ok (k.setTask kitoxD { init with children := child :: init.children })

/-- `__task_reparent_children`. -/
def taskReparentChildren (parent : TaskId) (k : Kernel) : Kern Kernel :=
  if parent = k.kitoxD then .ok k
  else do
    let x ← k.getTask parent
    let k := k.setTask parent { x with children := [] }
    x.children.foldlM (reparentChild k.kitoxD) k

/-- `do_exit`, without `paging_reload_cr3` and `task_exit_cleanup`, which release the address space
of the task. The second can stop the kernel, as `buddy_free_block` does on a frame that is free
already; such a run of the code is one that ends before this call. -/
def doExit (status : ℕ) (k : Kernel) : Kern Kernel := do
  let cur ← k.getTask k.current
  if k.current = k.idle ∨ k.current = k.kitoxD then
    .error (.kpanic "Error: Trying to exit init or idle...")
  else do
    let k := k.setTask k.current { cur with exitCode := (status &&& 0xff) <<< 8 }
    let k := popSchedNode k.current k
    let k ← taskReparentChildren k.current k
    let x ← k.getTask k.current
    let k := k.setTask k.current { x with state := .zombie }
    match cur.realParent with
    | none => .error .fault
    | some parent => do
      let _ ← k.getTask parent
      let k ← wqWakeAll (.child parent) k
      let k' ← schedule k
      if k'.current = k.current then .error (.kpanic "Returned after `task_exit_cleanup()'")
      else .ok k'

/-! ## Signals -/

/-- `signal_is_set`. -/
def signalIsSet (sig : ℕ) (x : Task) : Bool := sig < sigSentinel && x.signalsMap.testBit sig

/-- `signal_dequeue` on the map of a task. -/
def signalDequeue (sig : ℕ) (x : Task) : Task :=
  { x with signalsMap := x.signalsMap &&& (2 ^ 32 - 1 - 2 ^ sig) }

/-- `signal_send`. -/
def signalSend (sig : ℕ) (dst : TaskId) (k : Kernel) : Kern Kernel :=
  if ¬ (0 < sig ∧ sig < sigSentinel) then .ok k
  else do
    let x ← k.getTask dst
    wqSignalWakeUp dst (k.setTask dst { x with signalsMap := x.signalsMap ||| 2 ^ sig })

/-- The loop of `signal_call_curtask_handlers` over the signals still to look at; `copyOk` says
whether `copy_to_user` finds the user stack writable. -/
def callHandlers (copyOk : Bool) : List ℕ → Kernel → Kern Kernel
  | [], k => .ok k
  | sig :: sigs, k => do
    let cur ← k.getTask k.current
    if !signalIsSet sig cur then callHandlers copyOk sigs k
    else do
      let k := k.setTask k.current (signalDequeue sig cur)
      match cur.sigHandlers sig with
      | .ignore => callHandlers copyOk sigs k
      | .default =>
        if cur.pid = 0 ∨ cur.pid = 1 then callHandlers copyOk sigs k
        else doExit (2 ^ 32 - 1) k
      | .user _ => if copyOk then .ok k else doExit (2 ^ 32 - 14) k

/-- `signal_call_curtask_handlers`. -/
def signalCallCurtaskHandlers (copyOk : Bool) (k : Kernel) : Kern Kernel :=
  callHandlers copyOk (List.range' 1 (sigSentinel - 1)) k

/-- `sys_signal`: the handler that was set before, or `none` for `-EINVAL`. -/
def sysSignal (signum handler : ℕ) (k : Kernel) : Kern (Option SigHandler × Kernel) :=
  if ¬ (0 < signum ∧ signum < sigSentinel) ∨ handler = 0 then .ok (none, k)
  else if signum = sigKill ∨ signum = sigStop then .ok (none, k)
  else if handler ≥ Memory.kernelVaddrBase then .ok (none, k)
  else do
    let cur ← k.getTask k.current
    let handlers := fun i => if i = signum then .user handler else cur.sigHandlers i
    .ok (some (cur.sigHandlers signum), k.setTask k.current { cur with sigHandlers := handlers })

/-! ## New tasks -/

/-- `task_append_child`. -/
def taskAppendChild (parent child : TaskId) (k : Kernel) : Kern Kernel := do
  let c ← k.getTask child
  let k := k.setTask child { c with parent := some parent, realParent := some parent }
  let p ← k.getTask parent
  .ok (k.setTask parent { p with children := child :: p.children })

/-- A `struct task` at the address that `kmalloc` returned, which no task uses. -/
def addTask (t : TaskId) (x : Task) (k : Kernel) : Kern Kernel :=
  match k.tasks t with
  | some _ => .error .fault
  | none => .ok ((k.setTask t x).setQueue (.child t) [])

/-- `exec_fn` from the point where `task_get_new` has succeeded. -/
def execFn (t : TaskId) (pid : ℕ) (k : Kernel) : Kern Kernel := do
  let k ← addTask t { newTask pid with state := .running } k
  let k ← taskAppendChild k.kitoxD t k
  schedEnqueue t k

/-- `sys_fork` where it succeeds: the child is a copy of the parent with queues of its own. -/
def sysFork (t : TaskId) (pid : ℕ) (k : Kernel) : Kern Kernel := do
  let cur ← k.getTask k.current
  if cur.canary ≠ stackCanaryMagic then .error (.kpanic "Assertion `%s' failed.")
  else do
    let k ← addTask t { cur with
      pid := pid, children := [], wqNode := none, wqHead := none, wqState := .interruptible
      state := .running } k
    let k ← taskAppendChild k.current t k
    schedEnqueue t k

/-! ## Waiting for children -/

/-- `find_zombie_child`. -/
def findZombieChild (children : List TaskId) (pid : ℤ) (k : Kernel) : Option TaskId :=
  children.find? fun t =>
    match k.tasks t with
    | none => false
    | some c => c.state = .zombie ∧ (pid = -1 ∨ (c.pid : ℤ) = pid)

/-- `task_has_child_pid`. -/
def taskHasChildPid (children : List TaskId) (pid : ℤ) (k : Kernel) : Bool :=
  children.any fun t =>
    match k.tasks t with
    | none => false
    | some c => (c.pid : ℤ) = pid

/-- `task_release` of a child of `parent`. -/
def taskRelease (parent t : TaskId) (k : Kernel) : Kern Kernel := do
  let p ← k.getTask parent
  let k := k.setTask parent { p with children := p.children.erase t }
  .ok { k with tasks := fun u => if u = t then none else k.tasks u }

/-- What one turn of the loop of `sys_waitpid` ends in. -/
inductive WaitResult where
  /-- The call returns. -/
  | ret (value : ℤ)
  /-- The caller sleeps on its `child_wq`. -/
  | blocked
  deriving DecidableEq, Repr

/-- `wq_prepare(&cur->child_wq, cur); schedule();` -/
def waitForChild (k : Kernel) : Kern Kernel := do
  let k ← wqPrepare (.child k.current) k.current k
  schedule k

/-- One turn of the loop of `sys_waitpid`; `copyOk` says whether the status can be written. -/
def sysWaitpid (pid : ℤ) (copyOk : Bool) (k : Kernel) : Kern (WaitResult × Kernel) :=
  if pid = 0 ∨ pid < -1 then .ok (.ret (-22), k)
  else do
    let cur ← k.getTask k.current
    if cur.children = [] then
      if k.current ≠ k.kitoxD then .ok (.ret (-10), k)
      else do
        let k ← waitForChild k
        .ok (.blocked, k)
    else if pid > 0 ∧ !taskHasChildPid cur.children pid k then .ok (.ret (-10), k)
    else
      match findZombieChild cur.children pid k with
      | some zombie => do
        let z ← k.getTask zombie
        if !copyOk then .ok (.ret (-14), k)
        else do
          let k ← taskRelease k.current zombie k
          .ok (.ret z.pid, k)
      | none => do
        let k ← waitForChild k
        .ok (.blocked, k)

end Kfs.Proc
