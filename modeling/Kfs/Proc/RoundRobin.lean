import Kfs.Lib.Fifo
import Kfs.Proc.SchedSpec

/-!
# The ready queue is served in turn

`schedule`, `sched_enqueue`, `wq_prepare`, `wq_finish` and `do_exit` as operations on `ready_queue`
alone. Tasks enter it at the tail, unless they are linked already, `schedule` takes its head, and
`wq_prepare` and `do_exit` unlink from the middle. Nothing is assumed about the arguments or about
the rest of the state.

## Layers

- `readyEvents`: what an operation does to the queue, event by event;
- `readyStep_run`: the events lead from the old queue to the new one;
- `ready_queue_fair`: the laws of the queue for runs of the operations.
-/

namespace Kfs.Proc

open Kfs.Lib

/-! ## The operations -/

/-- The operations on `ready_queue`. -/
inductive ReadyOp where
  | schedule
  | schedEnqueue (t : TaskId)
  | wqPrepare (wq : WqHead) (t : TaskId)
  | wqFinish (t : TaskId)
  | doExit (status : ℕ)
  deriving DecidableEq, Repr

def readyStep (k : Kernel) : ReadyOp → Kern Kernel
  | .schedule => schedule k
  | .schedEnqueue t => schedEnqueue t k
  | .wqPrepare wq t => wqPrepare wq t k
  | .wqFinish t => wqFinish t k
  | .doExit status => doExit status k

/-! ## The events of an operation -/

/-- The events that follow once a step has led to a state. -/
def afterStep (r : Kern Kernel) (f : Kernel → List (QueueEvent TaskId)) :
    List (QueueEvent TaskId) :=
  match r with
  | .ok k => f k
  | .error _ => []

/-- `sched_enqueue`: a linked node is left where it is. -/
def enqueueEvents (t : TaskId) (k : Kernel) : List (QueueEvent TaskId) :=
  if t ∈ k.readyQueue then [] else [.enter t]

/-- `pop_node(&task->sched_node)` if the node is linked. -/
def unlinkEvents (t : TaskId) (k : Kernel) : List (QueueEvent TaskId) :=
  if t ∈ k.readyQueue then [.leave t] else []

/-- `pick_next`. -/
def pickEvents (k : Kernel) : List (QueueEvent TaskId) :=
  match k.readyQueue with
  | next :: _ => [.take next]
  | [] => [.miss]

/-- `schedule`: a current task that still runs is put back first. -/
def scheduleEvents (k : Kernel) : List (QueueEvent TaskId) :=
  match k.tasks k.current with
  | none => []
  | some cur =>
    if cur.state = .running ∧ k.current ≠ k.idle ∧ k.current ≠ k.dummy then
      enqueueEvents k.current k ++ afterStep (schedEnqueue k.current k) pickEvents
    else pickEvents k

/-- `wq_finish`: only a linked entry is woken. -/
def finishEvents (t : TaskId) (k : Kernel) : List (QueueEvent TaskId) :=
  match k.tasks t with
  | none => []
  | some x => if x.wqNode = none then [] else enqueueEvents t k

/-- The loop of `wq_wake_all`. -/
def wakeAllEvents (wq : WqHead) : ℕ → Kernel → List (QueueEvent TaskId)
  | 0, _ => []
  | n + 1, k =>
    match k.waitQueue wq with
    | [] => []
    | t :: _ => finishEvents t k ++ afterStep (wqFinish t k) (wakeAllEvents wq n)

/-- `do_exit`: the current task is unlinked, the waiters of its parent wake up, and another task is
taken. -/
def exitEvents (status : ℕ) (k : Kernel) : List (QueueEvent TaskId) :=
  match k.tasks k.current with
  | none => []
  | some cur =>
    match cur.realParent with
    | none => []
    | some parent => unlinkEvents k.current k ++ afterStep (becomeZombie status cur k) fun k =>
        wakeAllEvents (.child parent) (k.waitQueue (.child parent)).length k ++
          afterStep (wqWakeAll (.child parent) k) scheduleEvents

/-- What an operation does to `ready_queue`. -/
def readyEvents (k : Kernel) : ReadyOp → List (QueueEvent TaskId)
  | .schedule => scheduleEvents k
  | .schedEnqueue t => enqueueEvents t k
  | .wqPrepare _ t => unlinkEvents t k
  | .wqFinish t => finishEvents t k
  | .doExit status => exitEvents status k

/-- The task that the `schedule` of an operation has selected, if the operation calls it. -/
def selectedBy (k' : Kernel) : ReadyOp → List TaskId
  | .schedule => [k'.current]
  | .doExit _ => [k'.current]
  | .schedEnqueue _ | .wqPrepare _ _ | .wqFinish _ => []

/-- A run of the operations with its events and the tasks it has selected. In between anything may
be written that is not the ready queue. -/
inductive ReadyRun (k : Kernel) : List (QueueEvent TaskId) → List TaskId → Kernel → Prop
  | start : ReadyRun k [] [] k
  | step {es : List (QueueEvent TaskId)} {selected : List TaskId} {k₁ k₂ : Kernel} {op : ReadyOp}
      (run : ReadyRun k es selected k₁) (h : readyStep k₁ op = .ok k₂) :
      ReadyRun k (es ++ readyEvents k₁ op) (selected ++ selectedBy k₂ op) k₂
  | write {es : List (QueueEvent TaskId)} {selected : List TaskId} {k₁ k₂ : Kernel}
      (run : ReadyRun k es selected k₁) (hready : k₂.readyQueue = k₁.readyQueue)
      (hidle : k₂.idle = k₁.idle) : ReadyRun k es selected k₂

/-- Runs a list of operations. -/
def readyTrace (k : Kernel) (ops : List ReadyOp) :
    Kern (List (QueueEvent TaskId) × List TaskId × Kernel) :=
  ops.foldlM (fun (es, selected, k) op => do
    let k' ← readyStep k op
    .ok (es ++ readyEvents k op, selected ++ selectedBy k' op, k')) ([], [], k)

theorem readyTrace_run {k k' : Kernel} {ops : List ReadyOp} {es : List (QueueEvent TaskId)}
    {selected : List TaskId} (h : readyTrace k ops = .ok (es, selected, k')) :
    ReadyRun k es selected k' := by
  have hrun : Meets (readyTrace k ops) (fun r => ReadyRun k r.1 r.2.1 r.2.2) (fun _ => True) := by
    apply Meets.foldlM _ .start
    intro r op _ hr
    cases hop : readyStep r.2.2 op with
    | error e => simp [hop, Meets]
    | ok k₁ => simpa [hop, Meets] using hr.step hop
  exact hrun.result h

/-! ## The events of an operation lead to its queue -/

/-- What an operation has done: its events lead from one queue to the other and do not poll. -/
structure Enters (k : Kernel) (es : List (QueueEvent TaskId)) (k' : Kernel) : Prop where
  run : QueueRun k.readyQueue es k'.readyQueue
  polls : polls es = []
  idle : k'.idle = k.idle

/-- The same for an operation that polls once and selects the task that is current then. -/
structure Selects (k : Kernel) (es : List (QueueEvent TaskId)) (k' : Kernel) : Prop where
  run : QueueRun k.readyQueue es k'.readyQueue
  polls : (polls es).map (·.getD k.idle) = [k'.current]
  idle : k'.idle = k.idle

section Steps

variable {k k' k'' : Kernel} {t : TaskId} {es es' : List (QueueEvent TaskId)}

theorem Enters.refl (k : Kernel) : Enters k [] k := ⟨.nil _, rfl, rfl⟩

theorem Enters.trans (h : Enters k es k') (h' : Enters k' es' k'') : Enters k (es ++ es') k'' where
  run := h.run.append h'.run
  polls := by simp [h.polls, h'.polls]
  idle := h'.idle.trans h.idle

theorem Enters.selects (h : Enters k es k') (h' : Selects k' es' k'') :
    Selects k (es ++ es') k'' where
  run := h.run.append h'.run
  polls := by
    rw [polls_append, h.polls, ← h.idle, List.nil_append]
    exact h'.polls
  idle := h'.idle.trans h.idle

theorem unlinkEvents_run (t : TaskId) (k : Kernel) :
    QueueRun k.readyQueue (unlinkEvents t k) (k.readyQueue.erase t) := by
  unfold unlinkEvents
  split
  · rename_i hmem
    exact .leave hmem (.nil _)
  · rename_i hmem
    rw [List.erase_of_not_mem hmem]
    exact .nil _

theorem enters_schedEnqueue (h : schedEnqueue t k = .ok k') :
    Enters k (enqueueEvents t k) k' := by
  unfold schedEnqueue at h
  unfold enqueueEvents
  split at h
  · rename_i hmem
    obtain rfl := Except.ok.inj h
    rw [if_pos hmem]
    exact .refl k
  · rename_i hmem
    obtain ⟨x, -, h⟩ := bind_eq_ok.mp h
    obtain rfl := Except.ok.inj h
    rw [if_neg hmem]
    exact ⟨.enter hmem (.nil _), rfl, rfl⟩

/-- The context switch selects the task it switches to. -/
theorem switchTo_current (h : switchTo t k = .ok k') :
    k'.readyQueue = k.readyQueue ∧ k'.current = t ∧ k'.idle = k.idle := by
  obtain ⟨x, -, h⟩ := bind_eq_ok.mp h
  split at h
  · cases h
  · obtain rfl := Except.ok.inj h
    exact ⟨rfl, rfl, rfl⟩

theorem selects_pickNext (h : pickNext k = .ok k') : Selects k (pickEvents k) k' := by
  unfold pickNext at h
  unfold pickEvents
  cases hready : k.readyQueue with
  | nil =>
    simp only [hready] at h ⊢
    split at h
    · -- `idle` goes on running
      rename_i hidle
      obtain rfl := Except.ok.inj h
      exact ⟨by rw [hready]; exact .miss (.nil _), by simp [hidle], rfl⟩
    · obtain ⟨x, -, h⟩ := bind_eq_ok.mp h
      obtain ⟨hq, hcur, hi⟩ := switchTo_current h
      refine ⟨?_, by simp [hcur], hi⟩
      rw [hq, Kernel.setTask_readyQueue, hready]
      exact .miss (.nil _)
  | cons next rest =>
    simp only [hready] at h ⊢
    obtain ⟨x, -, h⟩ := bind_eq_ok.mp h
    split at h
    · cases h
    · obtain ⟨hq, hcur, hi⟩ := switchTo_current h
      refine ⟨?_, by simp [hcur], hi⟩
      rw [hq, hready]
      exact .take (.nil _)

theorem selects_schedule (h : schedule k = .ok k') : Selects k (scheduleEvents k) k' := by
  obtain ⟨cur, hcur, h⟩ := bind_eq_ok.mp h
  have hget := getTask_ok hcur
  unfold scheduleEvents
  simp only [hget]
  split at h
  · cases h
  · by_cases hrun : cur.state = .running ∧ k.current ≠ k.idle ∧ k.current ≠ k.dummy
    · rw [if_pos hrun] at h ⊢
      obtain ⟨k₁, h₁, hpick⟩ := bind_eq_ok.mp h
      rw [h₁]
      exact (enters_schedEnqueue h₁).selects (selects_pickNext hpick)
    · rw [if_neg hrun] at h ⊢
      exact selects_pickNext h

/-- Writes that leave the ready queue alone. -/
theorem Enters.of_same (hready : k'.readyQueue = k.readyQueue) (hidle : k'.idle = k.idle) :
    Enters k [] k' where
  run := by
    rw [hready]
    exact .nil _
  polls := rfl
  idle := hidle

theorem enters_unlink (hready : k'.readyQueue = k.readyQueue.erase t) (hidle : k'.idle = k.idle) :
    Enters k (unlinkEvents t k) k' where
  run := by
    rw [hready]
    exact unlinkEvents_run t k
  polls := by
    unfold unlinkEvents
    split <;> rfl
  idle := hidle

theorem popWqNode_ready (t : TaskId) (x : Task) (k : Kernel) :
    (popWqNode t x k).readyQueue = k.readyQueue ∧ (popWqNode t x k).idle = k.idle := by
  unfold popWqNode
  split <;> exact ⟨rfl, rfl⟩

theorem enters_wqPrepare {wq : WqHead} (h : wqPrepare wq t k = .ok k') :
    Enters k (unlinkEvents t k) k' := by
  obtain ⟨x, -, h⟩ := bind_eq_ok.mp h
  obtain rfl := Except.ok.inj h
  obtain ⟨hready, hidle⟩ := popWqNode_ready t x (popSchedNode t k)
  exact enters_unlink hready hidle

theorem enters_wqFinish (h : wqFinish t k = .ok k') : Enters k (finishEvents t k) k' := by
  obtain ⟨x, hx, h⟩ := bind_eq_ok.mp h
  unfold finishEvents
  simp only [getTask_ok hx]
  split at h
  · rename_i hlinked
    obtain rfl := Except.ok.inj h
    rw [if_pos hlinked]
    exact .refl k
  · rename_i hlinked
    rw [if_neg hlinked]
    obtain ⟨k₁, h₁, h⟩ := bind_eq_ok.mp h
    obtain ⟨y, -, h⟩ := bind_eq_ok.mp h
    obtain rfl := Except.ok.inj h
    -- the entry is unlinked, the task is enqueued, the entry is reset
    obtain ⟨hready, hidle⟩ := popWqNode_ready t x k
    have hent := enters_schedEnqueue h₁
    have hsame : enqueueEvents t ((popWqNode t x k).setTask t
        { x with state := .running, wqNode := none }) = enqueueEvents t k := by
      unfold enqueueEvents
      rw [Kernel.setTask_readyQueue, hready]
    rw [hsame] at hent
    have hbefore : Enters k [] ((popWqNode t x k).setTask t
        { x with state := .running, wqNode := none }) := .of_same hready hidle
    have hafter : Enters k₁ [] (k₁.setTask t { y with wqHead := none }) := .of_same rfl rfl
    have hall := (hbefore.trans hent).trans hafter
    rwa [List.nil_append, List.append_nil] at hall

theorem enters_wqWakeAllN {wq : WqHead} {n : ℕ} (h : wqWakeAllN wq n k = .ok k') :
    Enters k (wakeAllEvents wq n k) k' := by
  induction n generalizing k with
  | zero =>
    unfold wqWakeAllN at h
    split at h
    · obtain rfl := Except.ok.inj h
      exact .refl k
    · cases h
  | succ n ih =>
    unfold wqWakeAllN at h
    unfold wakeAllEvents
    cases hq : k.waitQueue wq with
    | nil =>
      simp only [hq] at h
      obtain rfl := Except.ok.inj h
      exact .refl k
    | cons t rest =>
      simp only [hq] at h
      obtain ⟨k₁, h₁, hrest⟩ := bind_eq_ok.mp h
      simp only [h₁]
      exact (enters_wqFinish h₁).trans (ih hrest)

theorem enters_becomeZombie {status : ℕ} {cur : Task} (h : becomeZombie status cur k = .ok k') :
    Enters k (unlinkEvents k.current k) k' := by
  obtain ⟨k₁, h₁, h⟩ := bind_eq_ok.mp h
  obtain ⟨x, -, h⟩ := bind_eq_ok.mp h
  obtain rfl := Except.ok.inj h
  have hsame := (taskReparentChildren_same _).result h₁
  exact enters_unlink hsame.readyQueue hsame.idle

theorem selects_doExit {status : ℕ} (h : doExit status k = .ok k') :
    Selects k (exitEvents status k) k' := by
  obtain ⟨cur, parent, k₁, k₂, hcur, -, hparent, h₁, h₂, h₃⟩ := doExit_parts h
  have hwake : Enters k₁ _ k₂ := enters_wqWakeAllN h₂
  unfold exitEvents
  simp only [hcur, hparent, h₁, h₂, afterStep]
  exact (enters_becomeZombie h₁).selects (hwake.selects (selects_schedule h₃))

/-- **One step**: the events of an operation lead to its queue, and it selects what it polls. -/
theorem readyStep_run {op : ReadyOp} (h : readyStep k op = .ok k') :
    QueueRun k.readyQueue (readyEvents k op) k'.readyQueue ∧
      (polls (readyEvents k op)).map (·.getD k.idle) = selectedBy k' op ∧ k'.idle = k.idle := by
  have enters : ∀ {es}, Enters k es k' → QueueRun k.readyQueue es k'.readyQueue ∧
      (polls es).map (·.getD k.idle) = [] ∧ k'.idle = k.idle :=
    fun he => ⟨he.run, by rw [he.polls]; rfl, he.idle⟩
  cases op with
  | schedule =>
    have hs := selects_schedule h
    exact ⟨hs.run, hs.polls, hs.idle⟩
  | schedEnqueue t => exact enters (enters_schedEnqueue h)
  | wqPrepare wq t => exact enters (enters_wqPrepare h)
  | wqFinish t => exact enters (enters_wqFinish h)
  | doExit status =>
    have hs := selects_doExit h
    exact ⟨hs.run, hs.polls, hs.idle⟩

/-- **Every run**: its events lead to the queue, and the selected tasks are the polled ones, with
`idle` where the queue was empty. -/
theorem ReadyRun.queueRun {selected : List TaskId} (h : ReadyRun k es selected k') :
    QueueRun k.readyQueue es k'.readyQueue ∧ (polls es).map (·.getD k.idle) = selected ∧
      k'.idle = k.idle := by
  induction h with
  | start => exact ⟨.nil _, rfl, rfl⟩
  | step _ h ih =>
    obtain ⟨hrun, hsel, hidle⟩ := ih
    obtain ⟨hrun', hsel', hidle'⟩ := readyStep_run h
    refine ⟨hrun.append hrun', ?_, hidle'.trans hidle⟩
    rw [polls_append, List.map_append, hsel, ← hidle, hsel']
  | write _ hready hidle ih => exact ⟨hready ▸ ih.1, ih.2.1, hidle.trans ih.2.2⟩

end Steps

/-! ## The laws of the queue -/

/-- What a run with the given events and selections does for the tasks in the queue `q`. -/
structure ServedInTurn (q : List TaskId) (es : List (QueueEvent TaskId)) (selected : List TaskId) :
    Prop where
  /-- While some task stays in the queue, no task is selected twice. -/
  once : ∀ b, StaysIn q es b → selected.Nodup
  /-- A task `b` that is behind `a` in the queue, or enters it only later, is not taken before `a`
  is taken or leaves. -/
  inOrder : ∀ es₁ es₂ es₃ q₁ a b, es = es₁ ++ es₂ ++ .take b :: es₃ → QueueRun q es₁ q₁ →
    NotAhead q₁ b a → a ≠ b → QueueEvent.leave a ∈ es₂ ∨ QueueEvent.take a ∈ es₂
  /-- The task at position `i` is one of the next `i + 1` that are selected. -/
  inTime : ∀ i b, q[i]? = some b → QueueEvent.leave b ∉ es → i < selected.length →
    b ∈ selected.take (i + 1)

/-- **Round robin without overtaking**, in every run from a state whose ready queue links no node
twice. -/
theorem ready_queue_fair {k k' : Kernel} (hk : k.readyQueue.Nodup)
    {es : List (QueueEvent TaskId)} {selected : List TaskId} (h : ReadyRun k es selected k') :
    QueueRun k.readyQueue es k'.readyQueue ∧ k'.readyQueue.Nodup ∧
      ServedInTurn k.readyQueue es selected := by
  obtain ⟨hrun, hsel, -⟩ := h.queueRun
  refine ⟨hrun, hrun.nodup hk, ?_, ?_, ?_⟩
  · intro b hstay
    obtain ⟨hleave, htake⟩ := hstay.notMem hrun hk
    obtain ⟨hnone, hnodup⟩ := hrun.takes_nodup hk (hstay [] es _ rfl (.nil _)) hleave htake
    rw [← hsel]
    -- there is no miss, so `getD` maps different answers to different tasks
    apply hnodup.map_on
    intro x hx y hy hxy
    cases x with
    | none => exact absurd hx hnone
    | some a =>
      cases y with
      | none => exact absurd hy hnone
      | some c => exact congrArg some hxy
  · rintro es₁ es₂ es₃ q₁ a b rfl hq₁ hahead hab
    rw [List.append_assoc] at hrun
    obtain ⟨q₂, h₁, h₂⟩ := hrun.split
    obtain rfl := h₁.unique hq₁
    exact h₂.fifo hahead hab
  · intro i b hi hleave hlen
    obtain ⟨hlt, hget⟩ := List.getElem?_eq_some_iff.mp hi
    have hsplit : k.readyQueue = k.readyQueue.take i ++ b :: k.readyQueue.drop (i + 1) := by
      rw [← hget, List.getElem_cons_drop, List.take_append_drop]
    have hsize : (k.readyQueue.take i).length = i := by
      rw [List.length_take]
      omega
    rw [← hsel, List.length_map] at hlen
    have htaken := hrun.taken_by hsplit hleave (by rw [hsize]; exact hlen)
    rw [hsize] at htaken
    rw [← hsel, ← List.map_take, List.mem_map]
    exact ⟨some b, htaken, rfl⟩

/-- A run from the state of `task_init_process`, with `idle` (at 1) and the boot thread (at 0) put
into the queue behind `kitoxD` (at 2). -/
theorem ready_queue_fair_initProcess : ∃ k',
    ReadyRun (Kernel.initProcess 0 1 2)
      [.take 2, .enter 1, .enter 0, .enter 2, .take 1, .leave 0, .take 2] [2, 1, 2] k' ∧
    k'.readyQueue.Nodup ∧ ServedInTurn [2]
      [.take 2, .enter 1, .enter 0, .enter 2, .take 1, .leave 0, .take 2] [2, 1, 2] := by
  have hview : (readyTrace (Kernel.initProcess 0 1 2) [.schedule, .schedEnqueue 1, .schedEnqueue 0,
      .schedule, .wqPrepare .sleep 0, .schedule]).toOption.map (fun r => (r.1, r.2.1)) =
      some ([.take 2, .enter 1, .enter 0, .enter 2, .take 1, .leave 0, .take 2], [2, 1, 2]) := by
    decide
  obtain ⟨⟨es, selected, k'⟩, htrace, hview⟩ := Option.map_eq_some_iff.mp hview
  obtain ⟨rfl, rfl⟩ := Prod.mk.inj hview
  have hrun := readyTrace_run (eq_ok_of_toOption htrace)
  obtain ⟨-, hnodup, hserved⟩ := ready_queue_fair (List.nodup_singleton 2) hrun
  exact ⟨k', hrun, hnodup, hserved⟩

end Kfs.Proc
