import Kfs.Proc.Scheduler
import Mathlib.Data.List.Nodup

/-!
# The queue invariant

Where a task is, is decided by its `state`, by `ready_queue` and by the wait queue its `wq_data`
node is linked in. `QueueInv` relates the three. It also holds inside the operations, between
`wq_prepare` or the change to `TASK_ZOMBIE` and the switch that follows; `SchedInv` adds that the
current task is running, which is true whenever an operation starts or ends.

An operation moves single tasks (`Moved`: it goes to sleep, it is woken, it is made ready, it dies),
switches to another one, or writes fields that the invariant does not read (`SameQueues`).
-/

namespace Kfs.Proc

/-! ## The invariant -/

/-- There is a task at `t` and its state is `s`. -/
def Kernel.HasState (k : Kernel) (t : TaskId) (s : ProcessState) : Prop :=
  ∃ x, k.tasks t = some x ∧ x.state = s

/-- There is a task at `t` and its `wq_data` is linked in `h`. -/
def Kernel.LinkedIn (k : Kernel) (t : TaskId) (h : WqHead) : Prop :=
  ∃ x, k.tasks t = some x ∧ x.wqNode = some h

/-- The tasks and the queues agree. -/
structure QueueInv (k : Kernel) : Prop where
  ready_nodup : k.readyQueue.Nodup
  ready_running : ∀ t ∈ k.readyQueue, k.HasState t .running
  mem_waitQueue : ∀ h t, t ∈ k.waitQueue h ↔ k.LinkedIn t h
  wait_nodup : ∀ h, (k.waitQueue h).Nodup
  waiting_iff : ∀ t x, k.tasks t = some x → (x.state = .waiting ↔ x.wqNode ≠ none)
  running_placed : ∀ t, k.HasState t .running →
    t = k.idle ∨ t = k.dummy ∨ t = k.current ∨ t ∈ k.readyQueue
  new_idle : ∀ t, k.HasState t .new → t = k.idle
  current_some : ∃ x, k.tasks k.current = some x
  idle_state : k.HasState k.idle .new ∨ k.HasState k.idle .running
  child_queue : ∀ t u, t ∈ k.waitQueue (.child u) → t = u
  canary : ∀ t x, k.tasks t = some x → x.canary = stackCanaryMagic

/-- The invariant between operations. -/
structure SchedInv (k : Kernel) : Prop extends QueueInv k where
  current_running : k.HasState k.current .running

theorem Kernel.HasState.unique {k : Kernel} {t : TaskId} {s s' : ProcessState}
    (h : k.HasState t s) (h' : k.HasState t s') : s = s' := by
  obtain ⟨x, hx, rfl⟩ := h
  obtain ⟨y, hy, rfl⟩ := h'
  rw [Option.some.inj (hx.symm.trans hy)]

section Invariant

variable {k : Kernel} {t : TaskId}

/-- The queue that holds a task is the one its node names. -/
theorem QueueInv.mem_wait_iff (hk : QueueInv k) {x : Task} (hx : k.tasks t = some x)
    (h : WqHead) : t ∈ k.waitQueue h ↔ x.wqNode = some h := by
  rw [hk.mem_waitQueue]
  simp [Kernel.LinkedIn, hx]

/-- A linked task waits. -/
theorem QueueInv.waiting_of_mem (hk : QueueInv k) {h : WqHead} (ht : t ∈ k.waitQueue h) :
    k.HasState t .waiting := by
  obtain ⟨x, hx, hn⟩ := (hk.mem_waitQueue h t).mp ht
  exact ⟨x, hx, (hk.waiting_iff t x hx).mpr (by simp [hn])⟩

/-- A waiting task is not ready. -/
theorem QueueInv.notMem_ready (hk : QueueInv k) {s : ProcessState} (hs : k.HasState t s)
    (hne : s ≠ .running) : t ∉ k.readyQueue := by
  intro ht
  exact hne (hs.unique (hk.ready_running t ht))

/-- A task that does not wait is in no wait queue. -/
theorem QueueInv.notMem_wait (hk : QueueInv k) {s : ProcessState} (hs : k.HasState t s)
    (hne : s ≠ .waiting) (h : WqHead) : t ∉ k.waitQueue h := by
  intro ht
  exact hne (hs.unique (hk.waiting_of_mem ht))

/-- A task is linked in one wait queue only. -/
theorem QueueInv.waitQueue_unique (hk : QueueInv k) {h h' : WqHead} (ht : t ∈ k.waitQueue h)
    (ht' : t ∈ k.waitQueue h') : h = h' := by
  obtain ⟨x, hx, hn⟩ := (hk.mem_waitQueue h t).mp ht
  obtain ⟨y, hy, hn'⟩ := (hk.mem_waitQueue h' t).mp ht'
  rw [hx] at hy
  rw [← Option.some.inj hy, hn] at hn'
  exact Option.some.inj hn'

/-- `idle` does not wait. -/
theorem QueueInv.idle_not_waiting (hk : QueueInv k) : ¬ k.HasState k.idle .waiting := by
  intro h
  rcases hk.idle_state with h' | h'
  · exact nomatch h.unique h'
  · exact nomatch h.unique h'

end Invariant

/-! ## Writes outside the invariant -/

/-- The two states agree on all that `QueueInv` speaks of. -/
structure SameQueues (k k' : Kernel) : Prop where
  tasks : ∀ t, (k'.tasks t).map (fun x => (x.state, x.wqNode, x.canary)) =
    (k.tasks t).map (fun x => (x.state, x.wqNode, x.canary))
  readyQueue : k'.readyQueue = k.readyQueue
  waitQueue : k'.waitQueue = k.waitQueue
  current : k'.current = k.current
  idle : k'.idle = k.idle
  dummy : k'.dummy = k.dummy

namespace SameQueues

variable {k k' k'' : Kernel} {t : TaskId}

theorem refl : SameQueues k k := ⟨fun _ => rfl, rfl, rfl, rfl, rfl, rfl⟩

theorem trans (h : SameQueues k k') (h' : SameQueues k' k'') : SameQueues k k'' where
  tasks t := (h'.tasks t).trans (h.tasks t)
  readyQueue := h'.readyQueue.trans h.readyQueue
  waitQueue := h'.waitQueue.trans h.waitQueue
  current := h'.current.trans h.current
  idle := h'.idle.trans h.idle
  dummy := h'.dummy.trans h.dummy

/-- Writing a task without touching its state, its link or its canary. -/
theorem setTask {x y : Task} (hx : k.tasks t = some x) (hs : y.state = x.state)
    (hn : y.wqNode = x.wqNode) (hc : y.canary = x.canary) : SameQueues k (k.setTask t y) where
  tasks u := by
    by_cases hu : u = t
    · subst hu
      simp [hx, hs, hn, hc]
    · rw [Kernel.setTask_of_ne k y hu]
  readyQueue := rfl
  waitQueue := rfl
  current := rfl
  idle := rfl
  dummy := rfl

theorem enqueue (h : SameQueues k k') (t : TaskId) :
    SameQueues { k with readyQueue := k.readyQueue ++ [t] }
      { k' with readyQueue := k'.readyQueue ++ [t] } where
  tasks := h.tasks
  readyQueue := congrArg (· ++ [t]) h.readyQueue
  waitQueue := h.waitQueue
  current := h.current
  idle := h.idle
  dummy := h.dummy

theorem exists_task (h : SameQueues k k') {y : Task} (hy : k'.tasks t = some y) :
    ∃ x, k.tasks t = some x ∧ y.state = x.state ∧ y.wqNode = x.wqNode ∧ y.canary = x.canary := by
  have ht := h.tasks t
  rw [hy] at ht
  cases hx : k.tasks t with
  | none => simp [hx] at ht
  | some x =>
    rw [hx] at ht
    simp only [Option.map_some, Option.some.injEq, Prod.mk.injEq] at ht
    exact ⟨x, rfl, ht⟩

theorem symm (h : SameQueues k k') : SameQueues k' k :=
  ⟨fun t => (h.tasks t).symm, h.readyQueue.symm, h.waitQueue.symm, h.current.symm, h.idle.symm,
    h.dummy.symm⟩

theorem hasState (h : SameQueues k k') {s : ProcessState} :
    k'.HasState t s ↔ k.HasState t s := by
  constructor
  · intro ⟨y, hy, hs⟩
    obtain ⟨x, hx, hsx, _⟩ := h.exists_task hy
    exact ⟨x, hx, hsx ▸ hs⟩
  · intro ⟨y, hy, hs⟩
    obtain ⟨x, hx, hsx, _⟩ := h.symm.exists_task hy
    exact ⟨x, hx, hsx ▸ hs⟩

theorem linkedIn (h : SameQueues k k') {q : WqHead} : k'.LinkedIn t q ↔ k.LinkedIn t q := by
  constructor
  · intro ⟨y, hy, hn⟩
    obtain ⟨x, hx, _, hnx, _⟩ := h.exists_task hy
    exact ⟨x, hx, hnx ▸ hn⟩
  · intro ⟨y, hy, hn⟩
    obtain ⟨x, hx, _, hnx, _⟩ := h.symm.exists_task hy
    exact ⟨x, hx, hnx ▸ hn⟩

/-- **Frame rule** of the invariant. -/
theorem queueInv (h : SameQueues k k') (hk : QueueInv k) : QueueInv k' where
  ready_nodup := h.readyQueue ▸ hk.ready_nodup
  ready_running t ht := h.hasState.mpr (hk.ready_running t (h.readyQueue ▸ ht))
  mem_waitQueue q t := by
    rw [h.waitQueue, h.linkedIn]
    exact hk.mem_waitQueue q t
  wait_nodup q := h.waitQueue ▸ hk.wait_nodup q
  waiting_iff t y hy := by
    obtain ⟨x, hx, hs, hn, _⟩ := h.exists_task hy
    rw [hs, hn]
    exact hk.waiting_iff t x hx
  running_placed t ht := by
    rw [h.idle, h.dummy, h.current, h.readyQueue]
    exact hk.running_placed t (h.hasState.mp ht)
  new_idle t ht := by
    rw [h.idle]
    exact hk.new_idle t (h.hasState.mp ht)
  current_some := by
    obtain ⟨x, hx⟩ := hk.current_some
    obtain ⟨y, hy, _⟩ := h.symm.exists_task hx
    exact ⟨y, h.current ▸ hy⟩
  idle_state := by
    rw [h.idle, h.hasState, h.hasState]
    exact hk.idle_state
  child_queue t u ht := hk.child_queue t u (h.waitQueue ▸ ht)
  canary t y hy := by
    obtain ⟨x, hx, _, _, hc⟩ := h.exists_task hy
    rw [hc]
    exact hk.canary t x hx

theorem schedInv (h : SameQueues k k') (hk : SchedInv k) : SchedInv k' where
  toQueueInv := h.queueInv hk.toQueueInv
  current_running := by
    rw [h.current, h.hasState]
    exact hk.current_running

end SameQueues

/-! ## Moving a task -/

/-- From `k` to `k'` only the task at `t` moves. It becomes `y`, whose fields say which queues of
`k'` hold it. -/
structure Moved (t : TaskId) (y : Task) (k k' : Kernel) : Prop where
  tasks : ∀ u, k'.tasks u = if u = t then some y else k.tasks u
  ready_nodup : k'.readyQueue.Nodup
  ready_of_ne : ∀ u, u ≠ t → (u ∈ k'.readyQueue ↔ u ∈ k.readyQueue)
  ready_self : t ∈ k'.readyQueue → y.state = .running
  wait_nodup : ∀ h, (k'.waitQueue h).Nodup
  wait_of_ne : ∀ h u, u ≠ t → (u ∈ k'.waitQueue h ↔ u ∈ k.waitQueue h)
  wait_self : ∀ h, t ∈ k'.waitQueue h ↔ y.wqNode = some h
  waiting_iff : y.state = .waiting ↔ y.wqNode ≠ none
  placed : y.state = .running → t = k.idle ∨ t = k.dummy ∨ t = k.current ∨ t ∈ k'.readyQueue
  new_idle : y.state = .new → t = k.idle
  idle_self : t = k.idle → y.state = .new ∨ y.state = .running
  child : ∀ u, y.wqNode = some (.child u) → t = u
  canary : y.canary = stackCanaryMagic
  current : k'.current = k.current
  idle : k'.idle = k.idle
  dummy : k'.dummy = k.dummy

namespace Moved

variable {k k' : Kernel} {t u : TaskId} {y : Task}

theorem tasks_self (h : Moved t y k k') : k'.tasks t = some y := by
  rw [h.tasks, if_pos rfl]

theorem tasks_of_ne (h : Moved t y k k') (hu : u ≠ t) : k'.tasks u = k.tasks u := by
  rw [h.tasks, if_neg hu]

theorem hasState_self (h : Moved t y k k') {s : ProcessState} :
    k'.HasState t s ↔ y.state = s := by
  unfold Kernel.HasState
  rw [h.tasks_self]
  exact ⟨fun ⟨x, hx, hs⟩ => Option.some.inj hx ▸ hs, fun hs => ⟨y, rfl, hs⟩⟩

theorem hasState_of_ne (h : Moved t y k k') (hu : u ≠ t) {s : ProcessState} :
    k'.HasState u s ↔ k.HasState u s := by
  unfold Kernel.HasState
  rw [h.tasks_of_ne hu]

/-- A move keeps the invariant. -/
theorem queueInv (h : Moved t y k k') (hk : QueueInv k) : QueueInv k' where
  ready_nodup := h.ready_nodup
  ready_running u hu := by
    by_cases hut : u = t
    · subst hut
      exact h.hasState_self.mpr (h.ready_self hu)
    · rw [h.hasState_of_ne hut]
      exact hk.ready_running u ((h.ready_of_ne u hut).mp hu)
  mem_waitQueue q u := by
    unfold Kernel.LinkedIn
    by_cases hut : u = t
    · subst hut
      rw [h.wait_self, h.tasks_self]
      exact ⟨fun hn => ⟨y, rfl, hn⟩, fun ⟨x, hx, hn⟩ => Option.some.inj hx ▸ hn⟩
    · rw [h.tasks_of_ne hut, h.wait_of_ne q u hut]
      exact hk.mem_waitQueue q u
  wait_nodup := h.wait_nodup
  waiting_iff u x hx := by
    by_cases hut : u = t
    · subst hut
      rw [h.tasks_self] at hx
      rw [← Option.some.inj hx]
      exact h.waiting_iff
    · rw [h.tasks_of_ne hut] at hx
      exact hk.waiting_iff u x hx
  running_placed u hu := by
    rw [h.idle, h.dummy, h.current]
    by_cases hut : u = t
    · subst hut
      exact h.placed (h.hasState_self.mp hu)
    · rw [h.hasState_of_ne hut] at hu
      rw [h.ready_of_ne u hut]
      exact hk.running_placed u hu
  new_idle u hu := by
    rw [h.idle]
    by_cases hut : u = t
    · subst hut
      exact h.new_idle (h.hasState_self.mp hu)
    · exact hk.new_idle u ((h.hasState_of_ne hut).mp hu)
  current_some := by
    rw [h.current]
    by_cases hc : k.current = t
    · exact ⟨y, hc ▸ h.tasks_self⟩
    · rw [h.tasks_of_ne hc]
      exact hk.current_some
  idle_state := by
    rw [h.idle]
    by_cases hi : k.idle = t
    · subst hi
      rw [h.hasState_self, h.hasState_self]
      exact h.idle_self rfl
    · rw [h.hasState_of_ne hi, h.hasState_of_ne hi]
      exact hk.idle_state
  child_queue u v hu := by
    by_cases hut : u = t
    · subst hut
      exact h.child v ((h.wait_self _).mp hu)
    · exact hk.child_queue u v ((h.wait_of_ne _ u hut).mp hu)
  canary u x hx := by
    by_cases hut : u = t
    · subst hut
      rw [h.tasks_self] at hx
      rw [← Option.some.inj hx]
      exact h.canary
    · rw [h.tasks_of_ne hut] at hx
      exact hk.canary u x hx

end Moved

/-- `t` leaves the wait queue `h` for the end of `ready_queue`. -/
def woken (t : TaskId) (x : Task) (h : WqHead) (k : Kernel) : Kernel :=
  { (k.setQueue h ((k.waitQueue h).erase t)).setTask t
      { x with state := .running, wqNode := none, wqHead := none } with
    readyQueue := k.readyQueue ++ [t] }

/-- `t`, which runs, goes to sleep in the wait queue `h`. -/
def asleep (t : TaskId) (x : Task) (h : WqHead) (k : Kernel) : Kernel :=
  { (k.setQueue h (t :: k.waitQueue h)).setTask t
      { x with wqHead := some h, state := .waiting, needResched := true, wqNode := some h } with
    readyQueue := k.readyQueue.erase t }

section Moves

variable {k : Kernel} {t : TaskId} {x : Task} {h : WqHead}

theorem setTask_setTask (y z : Task) : (k.setTask t y).setTask t z = k.setTask t z := by
  unfold Kernel.setTask
  congr 1
  funext u
  by_cases hu : u = t <;> simp [hu]

/-- `wq_finish` on a linked entry. -/
theorem wqFinish_eq (hk : QueueInv k) (hx : k.tasks t = some x) (hn : x.wqNode = some h) :
    wqFinish t k = .ok (woken t x h k) := by
  have hwait : k.HasState t .waiting := ⟨x, hx, (hk.waiting_iff t x hx).mpr (by simp [hn])⟩
  have hready : t ∉ k.readyQueue := hk.notMem_ready hwait (by simp)
  unfold wqFinish
  rw [Kernel.getTask_eq hx, ok_bind, if_neg (by simp [hn])]
  unfold popWqNode schedEnqueue
  simp only [hn, Kernel.setTask_readyQueue, Kernel.setQueue_readyQueue, hready, if_false,
    Kernel.getTask_eq (Kernel.setTask_self _ t _), ok_bind, setTask_setTask]
  rw [Kernel.getTask_eq (x := { x with state := .running, wqNode := none }) (if_pos rfl)]
  simp only [ok_bind, woken, Kernel.setTask, Except.ok.injEq, Kernel.mk.injEq, and_true]
  funext u
  by_cases hu : u = t <;> simp [hu]

/-- `wq_finish` on an entry that is not linked does nothing. -/
theorem wqFinish_of_unlinked (hx : k.tasks t = some x) (hn : x.wqNode = none) :
    wqFinish t k = .ok k := by
  unfold wqFinish
  rw [Kernel.getTask_eq hx, ok_bind, if_pos hn]

/-- `wq_prepare` of a task that is not linked. -/
theorem wqPrepare_eq (hx : k.tasks t = some x) (hn : x.wqNode = none) :
    wqPrepare h t k = .ok (asleep t x h k) := by
  unfold wqPrepare
  rw [Kernel.getTask_eq hx, ok_bind]
  unfold popWqNode popSchedNode
  simp only [hn]
  rfl

theorem woken_waitQueue (q : WqHead) : (woken t x h k).waitQueue q =
    if q = h then (k.waitQueue h).erase t else k.waitQueue q := rfl

theorem asleep_waitQueue (q : WqHead) : (asleep t x h k).waitQueue q =
    if q = h then t :: k.waitQueue h else k.waitQueue q := rfl

/-- Waking is a move. -/
theorem woken_moved (hk : QueueInv k) (hx : k.tasks t = some x) (hn : x.wqNode = some h) :
    Moved t { x with state := .running, wqNode := none, wqHead := none } k (woken t x h k) := by
  have hmem : t ∈ k.waitQueue h := (hk.mem_wait_iff hx h).mpr hn
  have hwait := hk.waiting_of_mem hmem
  have hready : t ∉ k.readyQueue := hk.notMem_ready hwait (by simp)
  exact {
    tasks := fun u => rfl
    ready_nodup := List.nodup_append_comm.mp (List.nodup_cons.mpr ⟨hready, hk.ready_nodup⟩)
    ready_of_ne := fun u hu => by simp [woken, hu]
    ready_self := fun _ => rfl
    wait_nodup := fun q => by
      rw [woken_waitQueue]
      split
      · exact (hk.wait_nodup h).erase t
      · exact hk.wait_nodup q
    wait_of_ne := fun q u hu => by
      rw [woken_waitQueue]
      split
      next hq => rw [hq, List.mem_erase_of_ne hu]
      next => rfl
    wait_self := fun q => by
      rw [woken_waitQueue]
      split
      next => simpa using List.Nodup.not_mem_erase (hk.wait_nodup h)
      next hq => simpa using fun hm => hq (hk.waitQueue_unique hm hmem)
    waiting_iff := by simp
    placed := fun _ => .inr (.inr (.inr (by simp [woken])))
    new_idle := by simp
    idle_self := fun _ => .inr rfl
    child := by simp
    canary := hk.canary t x hx
    current := rfl
    idle := rfl
    dummy := rfl }

/-- Going to sleep is a move. -/
theorem asleep_moved (hk : QueueInv k) (hx : k.tasks t = some x) (hn : x.wqNode = none)
    (hidle : t ≠ k.idle) (hchild : ∀ u, h = .child u → t = u) :
    Moved t { x with wqHead := some h, state := .waiting, needResched := true, wqNode := some h }
      k (asleep t x h k) := by
  have hnot : ∀ q, t ∉ k.waitQueue q := by
    intro q hq
    rw [hk.mem_wait_iff hx, hn] at hq
    cases hq
  exact {
    tasks := fun u => rfl
    ready_nodup := hk.ready_nodup.erase t
    ready_of_ne := fun u hu => List.mem_erase_of_ne hu
    ready_self := fun hm => absurd hm (List.Nodup.not_mem_erase hk.ready_nodup)
    wait_nodup := fun q => by
      rw [asleep_waitQueue]
      split
      · exact List.nodup_cons.mpr ⟨hnot h, hk.wait_nodup h⟩
      · exact hk.wait_nodup q
    wait_of_ne := fun q u hu => by
      rw [asleep_waitQueue]
      split
      next hq => simp [hq, hu]
      next => rfl
    wait_self := fun q => by
      rw [asleep_waitQueue]
      split
      next hq => simp [hq]
      next hq => simpa [hnot q] using fun hqh => hq hqh.symm
    waiting_iff := by simp
    placed := by simp
    new_idle := by simp
    idle_self := fun hi => absurd hi hidle
    child := fun u hu => hchild u (Option.some.inj hu)
    canary := hk.canary t x hx
    current := rfl
    idle := rfl
    dummy := rfl }

/-- Making a running task ready is a move. -/
theorem enqueued_moved (hk : QueueInv k) (hx : k.tasks t = some x) (hs : x.state = .running)
    (ht : t ∉ k.readyQueue) : Moved t { x with state := .running } k
      { k.setTask t { x with state := .running } with readyQueue := k.readyQueue ++ [t] } where
  tasks u := rfl
  ready_nodup := List.nodup_append_comm.mp (List.nodup_cons.mpr ⟨ht, hk.ready_nodup⟩)
  ready_of_ne u hu := by simp [hu]
  ready_self _ := rfl
  wait_nodup := hk.wait_nodup
  wait_of_ne _ _ _ := Iff.rfl
  wait_self q := hk.mem_wait_iff hx q
  waiting_iff := by
    have hw := hk.waiting_iff t x hx
    simp only [hs, reduceCtorEq, false_iff] at hw ⊢
    exact hw
  placed _ := .inr (.inr (.inr (by simp)))
  new_idle h := nomatch h
  idle_self _ := .inr rfl
  child u hu := hk.child_queue t u ((hk.mem_wait_iff hx _).mpr hu)
  canary := hk.canary t x hx
  current := rfl
  idle := rfl
  dummy := rfl

/-- Dying is a move. -/
theorem zombie_moved (hk : QueueInv k) (hx : k.tasks t = some x) (hs : x.state = .running)
    (ht : t ∉ k.readyQueue) (hidle : t ≠ k.idle) :
    Moved t { x with state := .zombie } k (k.setTask t { x with state := .zombie }) where
  tasks u := rfl
  ready_nodup := hk.ready_nodup
  ready_of_ne _ _ := Iff.rfl
  ready_self hm := absurd hm ht
  wait_nodup := hk.wait_nodup
  wait_of_ne _ _ _ := Iff.rfl
  wait_self q := hk.mem_wait_iff hx q
  waiting_iff := by
    have hw := hk.waiting_iff t x hx
    simp only [hs, reduceCtorEq, false_iff] at hw ⊢
    exact hw
  placed h := nomatch h
  new_idle h := nomatch h
  idle_self hi := absurd hi hidle
  child u hu := hk.child_queue t u ((hk.mem_wait_iff hx _).mpr hu)
  canary := hk.canary t x hx
  current := rfl
  idle := rfl
  dummy := rfl

/-- A new ready task. -/
theorem created_moved (hk : QueueInv k) (ht : k.tasks t = none) (hs : x.state = .running)
    (hn : x.wqNode = none) (hc : x.canary = stackCanaryMagic) : Moved t x k
      { (k.setTask t x).setQueue (.child t) [] with readyQueue := k.readyQueue ++ [t] } where
  tasks u := rfl
  ready_nodup := by
    refine List.nodup_append_comm.mp (List.nodup_cons.mpr ⟨fun hm => ?_, hk.ready_nodup⟩)
    obtain ⟨y, hy, _⟩ := hk.ready_running t hm
    rw [ht] at hy
    cases hy
  ready_of_ne u hu := by simp [hu]
  ready_self _ := hs
  wait_nodup q := by
    show (if q = .child t then ([] : List TaskId) else k.waitQueue q).Nodup
    split
    · exact List.nodup_nil
    · exact hk.wait_nodup q
  wait_of_ne q u hu := by
    show u ∈ (if q = .child t then ([] : List TaskId) else k.waitQueue q) ↔ _
    split
    next hq => simpa [hq] using fun hm => hu (hk.child_queue u t hm)
    next => rfl
  wait_self q := by
    show t ∈ (if q = .child t then ([] : List TaskId) else k.waitQueue q) ↔ _
    have hnot : t ∉ k.waitQueue q := by
      intro hm
      obtain ⟨y, hy, _⟩ := (hk.mem_waitQueue q t).mp hm
      rw [ht] at hy
      cases hy
    split <;> simp [hn, hnot]
  waiting_iff := by simp [hs, hn]
  placed _ := .inr (.inr (.inr (by simp)))
  new_idle h := by simp [hs] at h
  idle_self _ := .inr hs
  child u hu := by simp [hn] at hu
  canary := hc
  current := rfl
  idle := rfl
  dummy := rfl

/-- Starting `idle` is a move. -/
theorem idle_moved (hk : QueueInv k) (hx : k.tasks k.idle = some x) :
    Moved k.idle { x with state := .running } k
      (k.setTask k.idle { x with state := .running }) := by
  have hs : x.state ≠ .waiting := fun hs => hk.idle_not_waiting ⟨x, hx, hs⟩
  have hn : x.wqNode = none := by simpa [hs] using hk.waiting_iff k.idle x hx
  exact {
    tasks := fun u => rfl
    ready_nodup := hk.ready_nodup
    ready_of_ne := fun _ _ => Iff.rfl
    ready_self := fun _ => rfl
    wait_nodup := hk.wait_nodup
    wait_of_ne := fun _ _ _ => Iff.rfl
    wait_self := fun q => hk.mem_wait_iff hx q
    waiting_iff := by simp [hn]
    placed := fun _ => .inl rfl
    new_idle := fun _ => rfl
    idle_self := fun _ => .inr rfl
    child := fun u hu => by simp [hn] at hu
    canary := hk.canary k.idle x hx
    current := rfl
    idle := rfl
    dummy := rfl }

end Moves

/-! ## Switching and releasing -/

section Switch

variable {k : Kernel} {t : TaskId} {x : Task}

/-- A switch to `t`, which leaves `ready_queue` if it was there. -/
theorem QueueInv.switch (hk : QueueInv k) (ready : List TaskId) (hx : k.tasks t = some x)
    (hsub : ready.Sublist k.readyQueue) (hready : ∀ u, u ∈ k.readyQueue → u = t ∨ u ∈ ready)
    (hcur : k.HasState k.current .running →
      k.current = k.idle ∨ k.current = k.dummy ∨ k.current ∈ k.readyQueue) :
    QueueInv { k with readyQueue := ready, current := t } where
  ready_nodup := hk.ready_nodup.sublist hsub
  ready_running u hu := hk.ready_running u (hsub.subset hu)
  mem_waitQueue := hk.mem_waitQueue
  wait_nodup := hk.wait_nodup
  waiting_iff := hk.waiting_iff
  running_placed u hu := by
    -- a running task that is only the current one is excluded by `hcur`
    have hplace : u = k.idle ∨ u = k.dummy ∨ u ∈ k.readyQueue := by
      rcases hk.running_placed u hu with h | h | h | h
      · exact .inl h
      · exact .inr (.inl h)
      · subst h
        exact hcur hu
      · exact .inr (.inr h)
    rcases hplace with h | h | h
    · exact .inl h
    · exact .inr (.inl h)
    · exact .inr (.inr (hready u h))
  new_idle := hk.new_idle
  current_some := ⟨x, hx⟩
  idle_state := hk.idle_state
  child_queue := hk.child_queue
  canary := hk.canary

/-- The current task leaves `ready_queue` if it was there. -/
theorem SchedInv.popSchedNode (hk : SchedInv k) : SchedInv (popSchedNode k.current k) where
  ready_nodup := hk.ready_nodup.erase _
  ready_running u hu := hk.ready_running u (List.mem_of_mem_erase hu)
  mem_waitQueue := hk.mem_waitQueue
  wait_nodup := hk.wait_nodup
  waiting_iff := hk.waiting_iff
  running_placed u hu := by
    by_cases hc : u = k.current
    · exact .inr (.inr (.inl hc))
    · have hmem : u ∈ k.readyQueue.erase k.current ↔ u ∈ k.readyQueue := List.mem_erase_of_ne hc
      show u = k.idle ∨ u = k.dummy ∨ u = k.current ∨ u ∈ k.readyQueue.erase k.current
      rw [hmem]
      exact hk.running_placed u hu
  new_idle := hk.new_idle
  current_some := hk.current_some
  idle_state := hk.idle_state
  child_queue := hk.child_queue
  canary := hk.canary
  current_running := hk.current_running

/-- The release of a zombie. -/
theorem SchedInv.release (hk : SchedInv k) (ht : k.HasState t .zombie) :
    SchedInv { k with tasks := fun u => if u = t then none else k.tasks u } := by
  have hstate : ∀ u s, u ≠ t → (Kernel.HasState
      { k with tasks := fun u => if u = t then none else k.tasks u } u s ↔ k.HasState u s) := by
    intro u s hu
    simp [Kernel.HasState, hu]
  have hsome : ∀ u y, (if u = t then none else k.tasks u) = some y → k.tasks u = some y := by
    intro u y hy
    split at hy
    · cases hy
    · exact hy
  have hle : ∀ u s, Kernel.HasState
      { k with tasks := fun u => if u = t then none else k.tasks u } u s → k.HasState u s :=
    fun u s ⟨y, hy, hs⟩ => ⟨y, hsome u y hy, hs⟩
  have hcur : k.current ≠ t := by
    rintro rfl
    exact nomatch hk.current_running.unique ht
  have hidle : k.idle ≠ t := by
    rintro rfl
    rcases hk.idle_state with h | h <;> exact nomatch h.unique ht
  exact {
    ready_nodup := hk.ready_nodup
    ready_running := fun u hu => by
      refine (hstate u _ ?_).mpr (hk.ready_running u hu)
      rintro rfl
      exact hk.notMem_ready ht (by simp) hu
    mem_waitQueue := fun q u => by
      rw [hk.mem_waitQueue q u]
      unfold Kernel.LinkedIn
      by_cases hu : u = t
      · subst hu
        have := mt (hk.mem_waitQueue q u).mpr (hk.notMem_wait ht (by simp) q)
        simpa [Kernel.LinkedIn] using this
      · simp [hu]
    wait_nodup := hk.wait_nodup
    waiting_iff := fun u y hy => hk.waiting_iff u y (hsome u y hy)
    running_placed := fun u hu => hk.running_placed u (hle u _ hu)
    new_idle := fun u hu => hk.new_idle u (hle u _ hu)
    current_some := by
      obtain ⟨y, hy⟩ := hk.current_some
      exact ⟨y, by simpa [hcur] using hy⟩
    idle_state := by
      rw [hstate _ _ hidle, hstate _ _ hidle]
      exact hk.idle_state
    child_queue := hk.child_queue
    canary := fun u y hy => hk.canary u y (hsome u y hy)
    current_running := (hstate _ _ hcur).mpr hk.current_running }

end Switch

end Kfs.Proc
