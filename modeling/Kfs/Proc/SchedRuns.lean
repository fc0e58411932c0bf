import Kfs.Lib.TransitionSystem
import Kfs.Proc.SchedSpec

/-!
# Runs of the scheduler

The operations that change the queues, in any order, from the state that `task_init_process`
leaves. Each is one step: it runs with interrupts off until it returns or switches to another task.
An operation of the current task is done by whichever task is current.

Two tasks never make a blocking system call: `idle` only executes `cpu_idle_loop`, and the boot
thread leaves `init` for good with its first `schedule`.
-/

namespace Kfs.Proc

open Kfs.Lib

/-! ## The system -/

/-- The operations on the queues. -/
inductive SchedOp where
  | schedule
  | tick
  | ksleep (seconds : ℕ)
  | ksleepReturn
  | waitpid (pid : ℤ) (copyOk : Bool)
  | wakeOne (wq : WqHead)
  | wakeAll (wq : WqHead)
  | wakeSpecifiq (t : TaskId)
  | signalSend (sig : ℕ) (dst : TaskId)
  | signal (signum handler : ℕ)
  | callHandlers (copyOk : Bool)
  | execFn (t : TaskId) (pid : ℕ)
  | fork (t : TaskId) (pid : ℕ)
  | exit (status : ℕ)
  deriving DecidableEq, Repr

/-- What an operation does. -/
def schedStep (k : Kernel) : SchedOp → Kern Kernel
  | .schedule => schedule k
  | .tick => timerHandle k
  | .ksleep seconds => timerKsleep seconds k
  | .ksleepReturn => timerKsleepReturn k
  | .waitpid pid copyOk => Prod.snd <$> sysWaitpid pid copyOk k
  | .wakeOne wq => wqWakeOne wq k
  | .wakeAll wq => wqWakeAll wq k
  | .wakeSpecifiq t => wqWakeSpecifiq t k
  | .signalSend sig dst => signalSend sig dst k
  | .signal signum handler => Prod.snd <$> sysSignal signum handler k
  | .callHandlers copyOk => signalCallCurtaskHandlers copyOk k
  | .execFn t pid => execFn t pid k
  | .fork t pid => sysFork t pid k
  | .exit status => doExit status k

/-- `idle` and the boot thread make no blocking call and do not fork. -/
def SchedOp.Enabled (k : Kernel) : SchedOp → Prop
  | .ksleep _ => k.current ≠ k.idle ∧ k.current ≠ k.dummy
  | .waitpid _ _ => k.current ≠ k.idle ∧ k.current ≠ k.dummy
  | .fork _ _ => k.current ≠ k.idle ∧ k.current ≠ k.dummy
  | _ => True

instance (k : Kernel) (op : SchedOp) : Decidable (op.Enabled k) :=
  match op with
  | .ksleep _ => inferInstanceAs (Decidable (_ ∧ _))
  | .waitpid _ _ => inferInstanceAs (Decidable (_ ∧ _))
  | .fork _ _ => inferInstanceAs (Decidable (_ ∧ _))
  | .schedule | .tick | .ksleepReturn | .wakeOne _ | .wakeAll _ | .wakeSpecifiq _
  | .signalSend _ _ | .signal _ _ | .callHandlers _ | .execFn _ _ | .exit _ =>
    inferInstanceAs (Decidable True)

/-- The states that `task_init_process` may leave. -/
def AfterInitProcess (k : Kernel) : Prop :=
  ∃ dummy idle kitoxD, dummy ≠ idle ∧ dummy ≠ kitoxD ∧ idle ≠ kitoxD ∧
    k = Kernel.initProcess dummy idle kitoxD

/-- The scheduler as a transition system. -/
def schedSystem : System Kernel SchedOp :=
  (System.ofStep AfterInitProcess schedStep).restrict fun k op => op.Enabled k

/-! ## The invariant in every run -/

theorem initProcess_schedInv {dummy idle kitoxD : TaskId} (hdi : dummy ≠ idle)
    (hdk : dummy ≠ kitoxD) (hik : idle ≠ kitoxD) :
    SchedInv (Kernel.initProcess dummy idle kitoxD) := by
  have htasks : ∀ t x, (Kernel.initProcess dummy idle kitoxD).tasks t = some x →
      (t = dummy ∧ x = dummyTask) ∨ (t = idle ∧ x = newTask 0) ∨
        (t = kitoxD ∧ x = { newTask 1 with state := .running }) := by
    intro t x hx
    unfold Kernel.initProcess at hx
    dsimp only at hx
    split at hx
    next h => exact .inl ⟨h, (Option.some.inj hx).symm⟩
    next =>
      split at hx
      next h => exact .inr (.inl ⟨h, (Option.some.inj hx).symm⟩)
      next =>
        split at hx
        next h => exact .inr (.inr ⟨h, (Option.some.inj hx).symm⟩)
        next => cases hx
  have hdummy : (Kernel.initProcess dummy idle kitoxD).tasks dummy = some dummyTask := if_pos rfl
  have hidle : (Kernel.initProcess dummy idle kitoxD).tasks idle = some (newTask 0) := by
    simp [Kernel.initProcess, hdi.symm]
  have hkitox : (Kernel.initProcess dummy idle kitoxD).tasks kitoxD =
      some { newTask 1 with state := .running } := by
    simp [Kernel.initProcess, hdk.symm, hik.symm]
  exact {
    ready_nodup := List.nodup_singleton kitoxD
    ready_running := fun t ht => by
      rw [List.mem_singleton.mp ht]
      exact ⟨_, hkitox, rfl⟩
    mem_waitQueue := fun h t => by
      refine ⟨fun hm => (List.not_mem_nil hm).elim, fun ⟨x, hx, hn⟩ => ?_⟩
      rcases htasks t x hx with ⟨_, rfl⟩ | ⟨_, rfl⟩ | ⟨_, rfl⟩ <;> cases hn
    wait_nodup := fun h => List.nodup_nil
    waiting_iff := fun t x hx => by
      rcases htasks t x hx with ⟨_, rfl⟩ | ⟨_, rfl⟩ | ⟨_, rfl⟩ <;> simp [dummyTask, newTask]
    running_placed := fun t ⟨x, hx, _⟩ => by
      rcases htasks t x hx with ⟨h, _⟩ | ⟨h, _⟩ | ⟨h, _⟩
      · exact .inr (.inl h)
      · exact .inl h
      · exact .inr (.inr (.inr (List.mem_singleton.mpr h)))
    new_idle := fun t ⟨x, hx, hs⟩ => by
      rcases htasks t x hx with ⟨_, rfl⟩ | ⟨h, _⟩ | ⟨_, rfl⟩
      · cases hs
      · exact h
      · cases hs
    current_some := ⟨_, hdummy⟩
    idle_state := .inl ⟨_, hidle, rfl⟩
    child_queue := fun _ _ hm => (List.not_mem_nil hm).elim
    canary := fun t x hx => by
      rcases htasks t x hx with ⟨_, rfl⟩ | ⟨_, rfl⟩ | ⟨_, rfl⟩ <;> rfl
    current_running := ⟨_, hdummy, rfl⟩ }

/-- **One step**: an operation keeps the invariant and does not reach the panic of `schedule`. -/
theorem schedStep_safe {k : Kernel} (hk : SchedInv k) {op : SchedOp} (hop : op.Enabled k) :
    Safe (schedStep k op) := by
  cases op with
  | schedule => exact hk.safe_schedule
  | tick => exact timerHandle_safe hk
  | ksleep seconds => exact timerKsleep_safe hk hop.1 seconds
  | ksleepReturn => exact timerKsleepReturn_safe hk
  | waitpid pid copyOk =>
    exact Meets.bind (sysWaitpid_safe hk hop.1 pid copyOk) fun _ h => h
  | wakeOne wq => exact Wakes.safe hk (wqWakeOne_spec hk.toQueueInv hk.not_waiting wq)
  | wakeAll wq =>
    obtain ⟨k', h', hw, _⟩ := wqWakeAll_spec hk.toQueueInv hk.not_waiting wq
    exact Wakes.safe hk ⟨k', h', hw⟩
  | wakeSpecifiq t => exact wqWakeSpecifiq_safe hk t
  | signalSend sig dst => exact signalSend_safe hk sig dst
  | signal signum handler =>
    exact Meets.bind (sysSignal_safe hk signum handler) fun _ h => h
  | callHandlers copyOk => exact callHandlers_safe copyOk _ hk
  | execFn t pid => exact execFn_safe hk t pid
  | fork t pid => exact sysFork_safe hk t pid
  | exit status => exact doExit_safe hk status

/-- **Every run**. -/
theorem schedSystem_inv {k : Kernel} (h : schedSystem.Reachable k) : SchedInv k := by
  refine h.invariant ?_ ?_
  · rintro _ ⟨dummy, idle, kitoxD, hdi, hdk, hik, rfl⟩
    exact initProcess_schedInv hdi hdk hik
  · intro k op k' hk ⟨hop, hstep⟩
    exact (schedStep_safe hk hop).result hstep

/-! ## Where a task is -/

/-- The law of the queues: what the state of a task says about where it is linked. -/
structure QueueLaw (k : Kernel) : Prop where
  /-- A ready task runs and occurs once. -/
  ready : ∀ t ∈ k.readyQueue, k.HasState t .running ∧ k.readyQueue.count t = 1
  /-- A linked task waits, occurs once, in one wait queue, and is not ready. -/
  linked : ∀ h, ∀ t ∈ k.waitQueue h, k.HasState t .waiting ∧ (k.waitQueue h).count t = 1 ∧
    (∀ h', t ∈ k.waitQueue h' → h' = h) ∧ t ∉ k.readyQueue
  /-- A waiting task is linked. -/
  waiting : ∀ t, k.HasState t .waiting → ∃ h, t ∈ k.waitQueue h
  /-- A running task runs or is ready. -/
  running : ∀ t, k.HasState t .running → t ≠ k.idle → t ≠ k.dummy →
    t = k.current ∨ t ∈ k.readyQueue
  /-- A zombie is in no queue. -/
  zombie : ∀ t, k.HasState t .zombie → t ∉ k.readyQueue ∧ ∀ h, t ∉ k.waitQueue h

theorem SchedInv.queueLaw {k : Kernel} (hk : SchedInv k) : QueueLaw k where
  ready t ht := ⟨hk.ready_running t ht, List.count_eq_one_of_mem hk.ready_nodup ht⟩
  linked h t ht := by
    have hs := hk.waiting_of_mem ht
    exact ⟨hs, List.count_eq_one_of_mem (hk.wait_nodup h) ht,
      fun h' ht' => hk.waitQueue_unique ht' ht, hk.notMem_ready hs (by simp)⟩
  waiting t ht := by
    obtain ⟨x, hx, hs⟩ := ht
    obtain ⟨h, hn⟩ := Option.ne_none_iff_exists'.mp ((hk.waiting_iff t x hx).mp hs)
    exact ⟨h, (hk.mem_wait_iff hx h).mpr hn⟩
  running t ht hidle hdummy := by
    rcases hk.running_placed t ht with h | h | h
    · exact absurd h hidle
    · exact absurd h hdummy
    · exact h
  zombie t ht := ⟨hk.notMem_ready ht (by simp), hk.notMem_wait ht (by simp)⟩

/-- In every reachable state the queues obey the law, `schedule` returns, and no operation panics
because of a task in `ready_queue` that does not run. No task is lost: apart from `idle` and the
boot thread it is current, ready, linked in a wait queue, or a zombie. -/
theorem scheduler_queueLaw {k : Kernel} (h : schedSystem.Reachable k) :
    QueueLaw k ∧ (∃ k', schedule k = .ok k') ∧
      (∀ op : SchedOp, op.Enabled k → schedStep k op ≠ .error nonRunningPanic) ∧
      ∀ t x, k.tasks t = some x → t ≠ k.idle → t ≠ k.dummy →
        t = k.current ∨ t ∈ k.readyQueue ∨ (∃ h, t ∈ k.waitQueue h) ∨ x.state = .zombie := by
  have hk := schedSystem_inv h
  have hlaw := hk.queueLaw
  obtain ⟨k', h', _⟩ := hk.schedule
  refine ⟨hlaw, ⟨k', h'⟩, fun op hop => ?_, fun t x hx hidle hdummy => ?_⟩
  · exact (schedStep_safe hk hop).ne_error (by simp)
  · cases hs : x.state with
    | new => exact absurd (hk.new_idle t ⟨x, hx, hs⟩) hidle
    | running =>
      rcases hlaw.running t ⟨x, hx, hs⟩ hidle hdummy with hc | hr
      · exact .inl hc
      · exact .inr (.inl hr)
    | waiting => exact .inr (.inr (.inl (hlaw.waiting t ⟨x, hx, hs⟩)))
    | zombie => exact .inr (.inr (.inr rfl))

/-- A run in which `kitoxD` (at 2) forks twice and waits, its first child sleeps, the second exits
and so wakes `kitoxD`, which forks again. -/
def familyRun : Option Kernel :=
  [SchedOp.schedule, .fork 3 2, .fork 4 3, .waitpid (-1) true, .ksleep 1, .exit 0, .fork 5 4].foldlM
    (System.checkedStep (fun k op => SchedOp.Enabled k op) schedStep) (Kernel.initProcess 0 1 2)

theorem familyRun_queues : familyRun.map (fun k => (k.current, k.readyQueue, k.waitQueue .sleep,
    (k.tasks 4).map Task.state)) = some (2, [5], [3], some .zombie) := by
  decide

/-- At the end of that run there is a ready, a sleeping, a dead and a current task. -/
theorem scheduler_queueLaw_familyRun : ∃ k, schedSystem.Reachable k ∧ k.current = 2 ∧
    k.readyQueue = [5] ∧ k.waitQueue .sleep = [3] ∧ k.HasState 4 .zombie ∧ QueueLaw k := by
  have hrun := familyRun_queues
  rw [Option.map_eq_some_iff] at hrun
  obtain ⟨k, hk, hview⟩ := hrun
  simp only [Prod.mk.injEq, Option.map_eq_some_iff] at hview
  obtain ⟨hcur, hready, hsleep, x, hx, hs⟩ := hview
  have hinit : schedSystem.Reachable (Kernel.initProcess 0 1 2) :=
    .init ⟨0, 1, 2, by decide, by decide, by decide, rfl⟩
  have hreach : schedSystem.Reachable k := System.Reachable.foldlM_restrict hinit hk
  exact ⟨k, hreach, hcur, hready, hsleep, ⟨x, hx, hs⟩, (scheduler_queueLaw hreach).1⟩

end Kfs.Proc
