import Kfs.Lib.Outcome
import Kfs.Proc.SchedInvariant

/-!
# What each scheduling operation does to the queue invariant

The wake-ups keep `QueueInv` and leave the current task alone (`Wakes`). `schedule` turns `QueueInv`
back into `SchedInv` whatever the state of the task that calls it. The operations are put together
from these two and the moves of the invariant.
-/

namespace Kfs.Proc

open Kfs.Lib

/-! ## Wake-ups -/

/-- From `k` to `k'` some tasks other than the current one were woken. -/
structure Wakes (k k' : Kernel) : Prop where
  inv : QueueInv k'
  current : k'.current = k.current
  idle : k'.idle = k.idle
  dummy : k'.dummy = k.dummy
  kitoxD : k'.kitoxD = k.kitoxD
  tasks_current : k'.tasks k.current = k.tasks k.current
  some_of_some : ∀ t x, k.tasks t = some x → ∃ y, k'.tasks t = some y

namespace Wakes

variable {k k' k'' : Kernel}

theorem refl (hk : QueueInv k) : Wakes k k :=
  ⟨hk, rfl, rfl, rfl, rfl, rfl, fun _ x hx => ⟨x, hx⟩⟩

theorem trans (h : Wakes k k') (h' : Wakes k' k'') : Wakes k k'' where
  inv := h'.inv
  current := h'.current.trans h.current
  idle := h'.idle.trans h.idle
  dummy := h'.dummy.trans h.dummy
  kitoxD := h'.kitoxD.trans h.kitoxD
  tasks_current := by
    have h'' := h'.tasks_current
    rw [h.current] at h''
    exact h''.trans h.tasks_current
  some_of_some t x hx := by
    obtain ⟨y, hy⟩ := h.some_of_some t x hx
    exact h'.some_of_some t y hy

/-- The state of the current task is as before. -/
theorem hasState_current (h : Wakes k k') {s : ProcessState} :
    k'.HasState k'.current s ↔ k.HasState k.current s := by
  unfold Kernel.HasState
  rw [h.current, h.tasks_current]

theorem schedInv (h : Wakes k k') (hk : SchedInv k) : SchedInv k' where
  toQueueInv := h.inv
  current_running := h.hasState_current.mpr hk.current_running

end Wakes

section WakeUps

variable {k : Kernel} {t : TaskId}

/-- `wq_finish` wakes a linked task and does nothing on another. -/
theorem wqFinish_spec (hk : QueueInv k) (hcur : ¬ k.HasState k.current .waiting)
    (ht : ∃ x, k.tasks t = some x) : ∃ k', wqFinish t k = .ok k' ∧ Wakes k k' := by
  obtain ⟨x, hx⟩ := ht
  cases hn : x.wqNode with
  | none => exact ⟨k, wqFinish_of_unlinked hx hn, .refl hk⟩
  | some h =>
    have hmoved := woken_moved hk hx hn
    have hne : k.current ≠ t := by
      rintro rfl
      exact hcur ⟨x, hx, (hk.waiting_iff _ x hx).mpr (by simp [hn])⟩
    refine ⟨_, wqFinish_eq hk hx hn, hmoved.queueInv hk, rfl, rfl, rfl, rfl,
      hmoved.tasks_of_ne hne, ?_⟩
    intro u y hy
    by_cases hu : u = t
    · rw [hu]
      exact ⟨_, hmoved.tasks_self⟩
    · exact ⟨y, (hmoved.tasks_of_ne hu).trans hy⟩

/-- The members of a wait queue are tasks. -/
theorem QueueInv.some_of_mem (hk : QueueInv k) {h : WqHead} (ht : t ∈ k.waitQueue h) :
    ∃ x, k.tasks t = some x := by
  obtain ⟨x, hx, _⟩ := (hk.mem_waitQueue h t).mp ht
  exact ⟨x, hx⟩

theorem wqSignalWakeUp_spec (hk : QueueInv k) (hcur : ¬ k.HasState k.current .waiting)
    (ht : ∃ x, k.tasks t = some x) : ∃ k', wqSignalWakeUp t k = .ok k' ∧ Wakes k k' := by
  obtain ⟨x, hx⟩ := ht
  unfold wqSignalWakeUp
  rw [Kernel.getTask_eq hx, ok_bind]
  split
  · exact ⟨k, rfl, .refl hk⟩
  · exact wqFinish_spec hk hcur ⟨x, hx⟩

theorem wqWakeOne_spec (hk : QueueInv k) (hcur : ¬ k.HasState k.current .waiting) (wq : WqHead) :
    ∃ k', wqWakeOne wq k = .ok k' ∧ Wakes k k' := by
  unfold wqWakeOne
  cases hq : k.waitQueue wq with
  | nil => exact ⟨k, rfl, .refl hk⟩
  | cons t rest =>
    exact wqFinish_spec hk hcur (hk.some_of_mem (h := wq) (hq ▸ List.mem_cons_self))

/-- The entry at the head of a queue is unlinked by `wq_finish`. -/
theorem wqFinish_head (hk : QueueInv k) {wq : WqHead} {rest : List TaskId}
    (hq : k.waitQueue wq = t :: rest) {k' : Kernel} (h : wqFinish t k = .ok k') :
    k'.waitQueue wq = rest := by
  have hmem : t ∈ k.waitQueue wq := hq ▸ List.mem_cons_self
  obtain ⟨x, hx, hn⟩ := (hk.mem_waitQueue wq t).mp hmem
  rw [wqFinish_eq hk hx hn] at h
  rw [← Except.ok.inj h, woken_waitQueue, if_pos rfl, hq, List.erase_cons_head]

/-- The loop of `wq_wake_all` ends with the queue empty. -/
theorem wqWakeAllN_spec (wq : WqHead) (n : ℕ) : ∀ {k : Kernel}, QueueInv k →
    ¬ k.HasState k.current .waiting → (k.waitQueue wq).length = n →
    ∃ k', wqWakeAllN wq n k = .ok k' ∧ Wakes k k' ∧ k'.waitQueue wq = [] := by
  -- each turn unlinks the head, so `n` is the number of entries left
  induction n with
  | zero =>
    intro k hk _ hlen
    have hnil : k.waitQueue wq = [] := List.length_eq_zero_iff.mp hlen
    exact ⟨k, by simp [wqWakeAllN, hnil], .refl hk, hnil⟩
  | succ n ih =>
    intro k hk hcur hlen
    cases hq : k.waitQueue wq with
    | nil => simp [hq] at hlen
    | cons t rest =>
      obtain ⟨k₁, h₁, hw₁⟩ :=
        wqFinish_spec hk hcur (hk.some_of_mem (h := wq) (hq ▸ List.mem_cons_self))
      have hrest := wqFinish_head hk hq h₁
      obtain ⟨k₂, h₂, hw₂, hnil⟩ := ih hw₁.inv (mt hw₁.hasState_current.mp hcur)
        (by simpa [hrest, hq] using hlen)
      refine ⟨k₂, ?_, hw₁.trans hw₂, hnil⟩
      simp only [wqWakeAllN, hq, h₁, ok_bind, h₂]

theorem wqWakeAll_spec (hk : QueueInv k) (hcur : ¬ k.HasState k.current .waiting) (wq : WqHead) :
    ∃ k', wqWakeAll wq k = .ok k' ∧ Wakes k k' ∧ k'.waitQueue wq = [] :=
  wqWakeAllN_spec wq _ hk hcur rfl

theorem wakeSleeper_spec (hk : QueueInv k) (hcur : ¬ k.HasState k.current .waiting)
    (ht : ∃ x, k.tasks t = some x) : ∃ k', wakeSleeper k t = .ok k' ∧ Wakes k k' := by
  obtain ⟨x, hx⟩ := ht
  unfold wakeSleeper
  rw [Kernel.getTask_eq hx, ok_bind]
  split
  · exact wqFinish_spec hk hcur ⟨x, hx⟩
  · exact ⟨k, rfl, .refl hk⟩

/-- The loop of `task_wake_up_sleepers` over any list of tasks. -/
theorem wakeSleepers_spec (ts : List TaskId) : ∀ {k : Kernel}, QueueInv k →
    ¬ k.HasState k.current .waiting → (∀ t ∈ ts, ∃ x, k.tasks t = some x) →
    ∃ k', ts.foldlM wakeSleeper k = .ok k' ∧ Wakes k k' := by
  induction ts with
  | nil => exact fun hk _ _ => ⟨_, rfl, .refl hk⟩
  | cons t ts ih =>
    intro k hk hcur hts
    obtain ⟨k₁, h₁, hw₁⟩ := wakeSleeper_spec hk hcur (hts t List.mem_cons_self)
    obtain ⟨k₂, h₂, hw₂⟩ := ih hw₁.inv (mt hw₁.hasState_current.mp hcur) (fun u hu => by
      obtain ⟨y, hy⟩ := hts u (List.mem_cons_of_mem t hu)
      exact hw₁.some_of_some u y hy)
    refine ⟨k₂, ?_, hw₁.trans hw₂⟩
    rw [List.foldlM_cons, h₁, ok_bind, h₂]

theorem taskWakeUpSleepers_spec (hk : QueueInv k) (hcur : ¬ k.HasState k.current .waiting) :
    ∃ k', taskWakeUpSleepers k = .ok k' ∧ Wakes k k' :=
  wakeSleepers_spec _ hk hcur fun _ ht => hk.some_of_mem ht

end WakeUps

/-! ## The switch -/

section Switch

variable {k : Kernel} {t : TaskId}

/-- What `schedule` establishes. -/
structure Switched (k k' : Kernel) : Prop where
  inv : SchedInv k'
  idle : k'.idle = k.idle
  dummy : k'.dummy = k.dummy
  kitoxD : k'.kitoxD = k.kitoxD
  current : k'.current = k.idle ∨ k.HasState k'.current .running

theorem switchTo_eq (hk : QueueInv k) {x : Task} (hx : k.tasks t = some x) :
    switchTo t k = .ok { k.setTask t { x with quantumRemaining := defaultQuantum } with
      current := t } := by
  unfold switchTo
  rw [Kernel.getTask_eq hx, ok_bind, if_neg (by simp [hk.canary t x hx])]

/-- `schedule` from `pick_next` on, when the current task is queued if it has to be. -/
theorem pickNext_spec (hk : QueueInv k)
    (hcur : k.HasState k.current .running →
      k.current = k.idle ∨ k.current = k.dummy ∨ k.current ∈ k.readyQueue)
    (hidle : k.current = k.idle → k.HasState k.idle .running) :
    ∃ k', pickNext k = .ok k' ∧ Switched k k' := by
  unfold pickNext
  cases hready : k.readyQueue with
  | nil =>
    by_cases hc : k.current = k.idle
    · exact ⟨k, if_pos hc, ⟨hk, hc ▸ hidle hc⟩, rfl, rfl, rfl, .inl hc⟩
    · obtain ⟨x, hx⟩ : ∃ x, k.tasks k.idle = some x := by
        rcases hk.idle_state with ⟨x, hx, _⟩ | ⟨x, hx, _⟩ <;> exact ⟨x, hx⟩
      have hmoved := idle_moved hk hx
      have hk₁ := hmoved.queueInv hk
      have hx₁ := hmoved.tasks_self
      -- the task that leaves is neither ready nor `idle`
      have hk₂ := hk₁.switch [] hx₁ (List.nil_sublist _)
        (by simp [hready]) (by
          intro hs
          rw [Kernel.setTask_current] at hs
          exact hcur ((hmoved.hasState_of_ne hc).mp hs))
      have hsame := SameQueues.setTask (k := { k.setTask k.idle { x with state := .running } with
        readyQueue := [], current := k.idle }) (t := k.idle)
        (y := { x with state := .running, quantumRemaining := defaultQuantum }) hx₁ rfl rfl rfl
      refine ⟨_, ?_, hsame.schedInv ⟨hk₂, _, hx₁, rfl⟩, rfl, rfl, rfl, .inl rfl⟩
      simp only [if_neg hc, Kernel.getTask_eq hx, ok_bind]
      rw [switchTo_eq hk₁ hx₁]
      simp [Kernel.setTask, hready]
  | cons next rest =>
    have hmem : next ∈ k.readyQueue := hready ▸ List.mem_cons_self
    obtain ⟨x, hx, hs⟩ := hk.ready_running next hmem
    have hk₁ := hk.switch rest hx (hready ▸ List.sublist_cons_self next rest)
      (fun u hu => by simpa [hready] using hu) hcur
    have hsame := SameQueues.setTask (k := { k with readyQueue := rest, current := next })
      (t := next) (y := { x with quantumRemaining := defaultQuantum }) hx rfl rfl rfl
    refine ⟨_, ?_, hsame.schedInv ⟨hk₁, x, hx, hs⟩, rfl, rfl, rfl, .inr ⟨x, hx, hs⟩⟩
    dsimp only
    rw [Kernel.getTask_eq hx, ok_bind, if_neg (by simp [hs])]
    unfold switchTo
    rw [Kernel.getTask_eq (k := { k with readyQueue := rest }) hx, ok_bind,
      if_neg (by simp [hk.canary next x hx])]
    rfl

/-- `sched_enqueue` of a running task. -/
theorem schedEnqueue_spec (hk : QueueInv k) (ht : k.HasState t .running) :
    ∃ k', schedEnqueue t k = .ok k' ∧ QueueInv k' ∧ t ∈ k'.readyQueue ∧
      (∀ u s, k'.HasState u s ↔ k.HasState u s) ∧ k'.current = k.current ∧ k'.idle = k.idle ∧
      k'.dummy = k.dummy ∧ k'.kitoxD = k.kitoxD := by
  obtain ⟨x, hx, hs⟩ := ht
  by_cases hmem : t ∈ k.readyQueue
  · exact ⟨k, if_pos hmem, hk, hmem, fun _ _ => Iff.rfl, rfl, rfl, rfl, rfl⟩
  · have hmoved := enqueued_moved hk hx hs hmem
    refine ⟨_, ?_, hmoved.queueInv hk, by simp, fun u s => ?_, rfl, rfl, rfl, rfl⟩
    · unfold schedEnqueue
      rw [if_neg hmem, Kernel.getTask_eq hx, ok_bind]
      rfl
    · by_cases hu : u = t
      · subst hu
        rw [hmoved.hasState_self]
        exact ⟨fun h => ⟨x, hx, hs.trans h⟩, fun h => h.unique ⟨x, hx, hs⟩ ▸ rfl⟩
      · exact hmoved.hasState_of_ne hu

/-- `schedule` returns and establishes the invariant. -/
theorem schedule_spec (hk : QueueInv k) (hidle : k.current = k.idle → k.HasState k.idle .running) :
    ∃ k', schedule k = .ok k' ∧ Switched k k' := by
  obtain ⟨cur, hcur⟩ := hk.current_some
  unfold schedule
  rw [Kernel.getTask_eq hcur, ok_bind, if_neg (by simp [hk.canary _ cur hcur])]
  by_cases hrun : cur.state = .running ∧ k.current ≠ k.idle ∧ k.current ≠ k.dummy
  · obtain ⟨k₁, h₁, hk₁, hmem, hstate, hc, hi, hd, hx⟩ := schedEnqueue_spec hk ⟨cur, hcur, hrun.1⟩
    obtain ⟨k₂, h₂, hsw⟩ := pickNext_spec hk₁ (fun _ => .inr (.inr (hc ▸ hmem)))
      (fun h => absurd (hc ▸ hi ▸ h) hrun.2.1)
    refine ⟨k₂, ?_, hsw.inv, hsw.idle.trans hi, hsw.dummy.trans hd, hsw.kitoxD.trans hx, ?_⟩
    · rw [if_pos hrun, h₁, ok_bind]
      exact h₂
    · exact hsw.current.imp (hi ▸ ·) (hstate _ _).mp
  · rw [if_neg hrun, ok_bind]
    refine pickNext_spec hk (fun hs => ?_) hidle
    obtain ⟨x, hx, hsx⟩ := hs
    obtain rfl : cur = x := Option.some.inj (hcur.symm.trans hx)
    by_contra hne
    exact hrun ⟨hsx, fun h => hne (.inl h), fun h => hne (.inr (.inl h))⟩

theorem SchedInv.schedule (hk : SchedInv k) : ∃ k', schedule k = .ok k' ∧ Switched k k' :=
  schedule_spec hk.toQueueInv fun h => h ▸ hk.current_running

end Switch

/-! ## The operations -/

/-- An operation that does not run into the panic of `schedule`, and keeps the invariant. -/
def Safe (r : Kern Kernel) : Prop := Meets r SchedInv (· ≠ nonRunningPanic)

theorem fault_ne_nonRunningPanic : Stop.fault ≠ nonRunningPanic := by simp [nonRunningPanic]

section Operations

variable {k : Kernel} {t : TaskId}

theorem getTask_meets (k : Kernel) (t : TaskId) :
    Meets (k.getTask t) (fun x => k.tasks t = some x) (· ≠ nonRunningPanic) := by
  unfold Kernel.getTask
  cases h : k.tasks t with
  | none => exact fault_ne_nonRunningPanic
  | some x => exact rfl

theorem getTask_ok {x : Task} (h : k.getTask t = .ok x) : k.tasks t = some x := by
  unfold Kernel.getTask at h
  cases ht : k.tasks t with
  | none =>
    rw [ht] at h
    cases h
  | some y =>
    rw [ht] at h
    rw [Except.ok.inj h]

theorem SchedInv.not_waiting (hk : SchedInv k) : ¬ k.HasState k.current .waiting :=
  fun h => nomatch h.unique hk.current_running

theorem SchedInv.safe_schedule (hk : SchedInv k) : Safe (Proc.schedule k) := by
  obtain ⟨k', h', hsw⟩ := hk.schedule
  rw [h']
  exact hsw.inv

/-- A wake-up as an operation of its own. -/
theorem Wakes.safe {r : Kern Kernel} (hk : SchedInv k) (h : ∃ k', r = .ok k' ∧ Wakes k k') :
    Safe r := by
  obtain ⟨k', rfl, hw⟩ := h
  exact hw.schedInv hk

/-- A write to the current task outside the invariant. -/
theorem SchedInv.writeCurrent (hk : SchedInv k) {x y : Task} (hx : k.tasks k.current = some x)
    (hs : y.state = x.state) (hn : y.wqNode = x.wqNode) (hc : y.canary = x.canary) :
    SchedInv (k.setTask k.current y) :=
  (SameQueues.setTask hx hs hn hc).schedInv hk

theorem timerHandle_safe (hk : SchedInv k) : Safe (timerHandle k) := by
  have hk₁ : SchedInv { k with globalTicks := Word32.add32 k.globalTicks 1 } :=
    SameQueues.schedInv (k := k) ⟨fun _ => rfl, rfl, rfl, rfl, rfl, rfl⟩ hk
  obtain ⟨k₂, h₂, hw⟩ := taskWakeUpSleepers_spec hk₁.toQueueInv hk₁.not_waiting
  have hk₂ := hw.schedInv hk₁
  unfold timerHandle
  rw [h₂, ok_bind]
  split
  · exact hk₂.safe_schedule
  · refine Meets.bind (getTask_meets _ _) fun cur hcur => ?_
    have hk₃ := hk₂.writeCurrent hcur
      (y := { cur with quantumRemaining := Word32.sub32 cur.quantumRemaining 1 }) rfl rfl rfl
    dsimp only
    split
    · exact hk₃
    · exact hk₃.safe_schedule

/-- `wq_prepare` of the current task followed by `schedule`. -/
theorem sleep_safe (hk : SchedInv k) (hidle : k.current ≠ k.idle) {wq : WqHead}
    (hwq : ∀ u, wq = .child u → k.current = u) :
    Safe (wqPrepare wq k.current k >>= Proc.schedule) := by
  obtain ⟨x, hx, hs⟩ := hk.current_running
  have hn : x.wqNode = none := by simpa [hs] using hk.waiting_iff _ x hx
  have hk₁ := (asleep_moved hk.toQueueInv hx hn hidle hwq).queueInv hk.toQueueInv
  obtain ⟨k₂, h₂, hsw⟩ := schedule_spec hk₁ fun h => absurd h hidle
  rw [wqPrepare_eq hx hn, ok_bind, h₂]
  exact hsw.inv

theorem timerKsleep_safe (hk : SchedInv k) (hidle : k.current ≠ k.idle) (seconds : ℕ) :
    Safe (timerKsleep seconds k) := by
  refine Meets.bind (getTask_meets _ _) fun cur hcur => ?_
  have hk₁ := hk.writeCurrent hcur (y := { cur with
    tickToWake := Word32.add32 k.globalTicks (seconds * ticksPerSecond % 2 ^ 32) }) rfl rfl rfl
  exact sleep_safe hk₁ hidle fun u h => nomatch h

theorem timerKsleepReturn_safe (hk : SchedInv k) : Safe (timerKsleepReturn k) := by
  refine Meets.bind (getTask_meets _ _) fun cur hcur => ?_
  exact hk.writeCurrent hcur rfl rfl rfl

theorem waitForChild_safe (hk : SchedInv k) (hidle : k.current ≠ k.idle) :
    Safe (waitForChild k) :=
  sleep_safe hk hidle fun _ h => WqHead.child.inj h

/-- The process tree is outside the invariant. -/
theorem taskAppendChild_same (parent child : TaskId) : Meets (taskAppendChild parent child k)
    (SameQueues k) (· ≠ nonRunningPanic) := by
  refine Meets.bind (getTask_meets _ _) fun c hc => ?_
  have h₁ := SameQueues.setTask hc (y := { c with parent := some parent, realParent := some parent })
    rfl rfl rfl
  refine Meets.bind (getTask_meets _ _) fun p hp => ?_
  exact h₁.trans (SameQueues.setTask hp (y := { p with children := child :: p.children })
    rfl rfl rfl)

theorem taskReparentChildren_same (parent : TaskId) : Meets (taskReparentChildren parent k)
    (SameQueues k) (· ≠ nonRunningPanic) := by
  unfold taskReparentChildren
  split
  · exact .refl
  · refine Meets.bind (getTask_meets _ _) fun x hx => ?_
    refine Meets.foldlM (fun k' child _ hk' => ?_) (SameQueues.setTask hx rfl rfl rfl)
    exact (taskAppendChild_same _ child).mono fun _ h => hk'.trans h

/-- The end of `do_exit`: the zombie wakes its parent and another task runs. -/
theorem exit_switch_spec (hk : QueueInv k) (hz : k.HasState k.current .zombie) (wq : WqHead) :
    ∃ k₁ k', wqWakeAll wq k = .ok k₁ ∧ k₁.waitQueue wq = [] ∧ Wakes k k₁ ∧
      Proc.schedule k₁ = .ok k' ∧ Switched k₁ k' ∧ k'.current ≠ k₁.current := by
  have hwait : ¬ k.HasState k.current .waiting := fun h => nomatch h.unique hz
  obtain ⟨k₁, h₁, hw, hnil⟩ := wqWakeAll_spec hk hwait wq
  have hz₁ := hw.hasState_current.mpr hz
  have hidle : k₁.current ≠ k₁.idle := by
    intro h
    rw [h] at hz₁
    rcases hw.inv.idle_state with h' | h' <;> exact nomatch h'.unique hz₁
  obtain ⟨k₂, h₂, hsw⟩ := schedule_spec hw.inv fun h => absurd h hidle
  refine ⟨k₁, k₂, h₁, hnil, hw, h₂, hsw, ?_⟩
  -- a zombie is not the next task
  intro h
  rcases hsw.current with h' | h'
  · exact hidle (h ▸ h')
  · rw [h] at h'
    exact nomatch h'.unique hz₁

theorem exit_switch_safe (hk : QueueInv k) (hz : k.HasState k.current .zombie) (wq : WqHead) :
    Safe (do
      let k₁ ← wqWakeAll wq k
      let k' ← Proc.schedule k₁
      if k'.current = k₁.current then .error (.kpanic "Returned after `task_exit_cleanup()'")
      else .ok k') := by
  obtain ⟨k₁, k', h₁, _, _, h', hsw, hne⟩ := exit_switch_spec hk hz wq
  rw [h₁, ok_bind, h', ok_bind, if_neg hne]
  exact hsw.inv

/-- `do_exit` up to the change to `TASK_ZOMBIE`. -/
def becomeZombie (status : ℕ) (cur : Task) (k : Kernel) : Kern Kernel := do
  let k := k.setTask k.current { cur with exitCode := (status &&& 0xff) <<< 8 }
  let k := popSchedNode k.current k
  let k ← taskReparentChildren k.current k
  let x ← k.getTask k.current
  .ok (k.setTask k.current { x with state := .zombie })

/-- `do_exit` in two parts. -/
theorem doExit_eq (status : ℕ) (k : Kernel) : doExit status k = (do
    let cur ← k.getTask k.current
    if k.current = k.idle ∨ k.current = k.kitoxD then
      .error (.kpanic "Error: Trying to exit init or idle...")
    else do
      let k ← becomeZombie status cur k
      match cur.realParent with
      | none => .error .fault
      | some parent => do
        let _ ← k.getTask parent
        let k ← wqWakeAll (.child parent) k
        let k' ← Proc.schedule k
        if k'.current = k.current then .error (.kpanic "Returned after `task_exit_cleanup()'")
        else .ok k') := by
  unfold doExit becomeZombie
  refine bind_congr fun cur => ?_
  split
  · rfl
  · rw [bind_assoc]
    refine bind_congr fun k₁ => ?_
    rw [bind_assoc]
    refine bind_congr fun x => ?_
    cases cur.realParent with
    | none => rfl
    | some parent => rfl

/-- What the first part leaves: the queues agree, and the current task is a zombie. -/
theorem becomeZombie_spec (hk : SchedInv k) {cur : Task} (hcur : k.tasks k.current = some cur)
    (hidle : k.current ≠ k.idle) (status : ℕ) : Meets (becomeZombie status cur k)
      (fun k₁ => QueueInv k₁ ∧ k₁.HasState k₁.current .zombie) (· ≠ nonRunningPanic) := by
  have hk₁ := (hk.writeCurrent hcur (y := { cur with exitCode := (status &&& 0xff) <<< 8 })
    rfl rfl rfl).popSchedNode
  refine Meets.bind (taskReparentChildren_same _) fun k₂ hsame => ?_
  have hk₂ := hsame.schedInv hk₁
  refine Meets.bind (getTask_meets _ _) fun x hx => ?_
  obtain ⟨y, hy, hs⟩ := hk₂.current_running
  obtain rfl : x = y := Option.some.inj (hx.symm.trans hy)
  have hready : k₂.current ∉ k₂.readyQueue := by
    rw [hsame.readyQueue, hsame.current]
    exact List.Nodup.not_mem_erase hk.ready_nodup
  have hidle₂ : k₂.current ≠ k₂.idle := by
    rw [hsame.current, hsame.idle]
    exact hidle
  have hmoved := zombie_moved hk₂.toQueueInv hx hs hready hidle₂
  exact ⟨hmoved.queueInv hk₂.toQueueInv, hmoved.hasState_self.mpr rfl⟩

/-- The parts of a successful `do_exit`. -/
theorem doExit_parts {status : ℕ} {k' : Kernel} (h : doExit status k = .ok k') :
    ∃ cur parent k₁ k₂, k.tasks k.current = some cur ∧ k.current ≠ k.idle ∧
      cur.realParent = some parent ∧ becomeZombie status cur k = .ok k₁ ∧
      wqWakeAll (.child parent) k₁ = .ok k₂ ∧ Proc.schedule k₂ = .ok k' := by
  rw [doExit_eq] at h
  obtain ⟨cur, hcur, h⟩ := bind_eq_ok.mp h
  split at h
  · cases h
  · rename_i hne
    obtain ⟨k₁, h₁, h⟩ := bind_eq_ok.mp h
    cases hparent : cur.realParent with
    | none =>
      rw [hparent] at h
      cases h
    | some parent =>
      rw [hparent] at h
      obtain ⟨_, -, h⟩ := bind_eq_ok.mp h
      obtain ⟨k₂, h₂, h⟩ := bind_eq_ok.mp h
      obtain ⟨k₃, h₃, h⟩ := bind_eq_ok.mp h
      refine ⟨cur, parent, k₁, k₂, getTask_ok hcur, fun hi => hne (.inl hi), hparent, h₁, h₂,
        ?_⟩
      split at h
      · cases h
      · exact (Except.ok.inj h) ▸ h₃

theorem doExit_safe (hk : SchedInv k) (status : ℕ) : Safe (doExit status k) := by
  rw [doExit_eq]
  refine Meets.bind (getTask_meets _ _) fun cur hcur => ?_
  split
  · simp [nonRunningPanic]
  · rename_i hne
    refine Meets.bind (becomeZombie_spec hk hcur (fun hi => hne (.inl hi)) status) fun k₁ h₁ => ?_
    split
    · exact fault_ne_nonRunningPanic
    · refine Meets.bind (getTask_meets _ _) fun _ _ => ?_
      exact exit_switch_safe h₁.1 h₁.2 _

theorem signalSend_safe (hk : SchedInv k) (sig : ℕ) (dst : TaskId) : Safe (signalSend sig dst k) := by
  unfold signalSend
  split
  · exact hk
  · refine Meets.bind (getTask_meets _ _) fun x hx => ?_
    have hk₁ := (SameQueues.setTask (y := { x with signalsMap := x.signalsMap ||| 2 ^ sig })
      hx rfl rfl rfl).schedInv hk
    exact Wakes.safe hk₁ (wqSignalWakeUp_spec hk₁.toQueueInv hk₁.not_waiting
      ⟨_, Kernel.setTask_self k dst _⟩)

theorem sysSignal_safe (hk : SchedInv k) (signum handler : ℕ) :
    Meets (sysSignal signum handler k) (fun r => SchedInv r.2) (· ≠ nonRunningPanic) := by
  unfold sysSignal
  split
  · exact hk
  · split
    · exact hk
    · split
      · exact hk
      · refine Meets.bind (getTask_meets _ _) fun cur hcur => ?_
        exact hk.writeCurrent hcur rfl rfl rfl

/-- The loop over the pending signals. -/
theorem callHandlers_safe (copyOk : Bool) (sigs : List ℕ) : ∀ {k : Kernel}, SchedInv k →
    Safe (callHandlers copyOk sigs k) := by
  induction sigs with
  | nil => exact fun hk => hk
  | cons sig sigs ih =>
    intro k hk
    unfold callHandlers
    refine Meets.bind (getTask_meets _ _) fun cur hcur => ?_
    split
    · exact ih hk
    · have hk₁ := hk.writeCurrent hcur (y := signalDequeue sig cur) rfl rfl rfl
      dsimp only
      split
      · exact ih hk₁
      · split
        · exact ih hk₁
        · exact doExit_safe hk₁ _
      · split
        · exact hk₁
        · exact doExit_safe hk₁ _

theorem wqWakeSpecifiq_safe (hk : SchedInv k) (t : TaskId) : Safe (wqWakeSpecifiq t k) := by
  unfold wqWakeSpecifiq
  cases ht : k.tasks t with
  | none =>
    have : wqFinish t k = .error .fault := by simp [wqFinish, Kernel.getTask, ht]
    rw [this]
    exact fault_ne_nonRunningPanic
  | some x => exact Wakes.safe hk (wqFinish_spec hk.toQueueInv hk.not_waiting ⟨x, ht⟩)

/-- A new task is linked into the tree and made ready. -/
theorem create_safe (hk : SchedInv k) {x : Task} (parent : Kernel → TaskId)
    (hs : x.state = .running) (hn : x.wqNode = none) (hc : x.canary = stackCanaryMagic) :
    Safe (addTask t x k >>= fun k => taskAppendChild (parent k) t k >>= schedEnqueue t) := by
  unfold addTask
  cases ht : k.tasks t with
  | some y => exact fault_ne_nonRunningPanic
  | none =>
    dsimp only
    rw [ok_bind]
    -- the state in which the new task is ready at once, before the tree is written
    have hmoved := created_moved hk.toQueueInv ht hs hn hc
    have hk₁ : SchedInv { (k.setTask t x).setQueue (.child t) [] with
        readyQueue := k.readyQueue ++ [t] } := by
      refine ⟨hmoved.queueInv hk.toQueueInv, ?_⟩
      obtain ⟨y, hy, hsy⟩ := hk.current_running
      have hne : k.current ≠ t := by
        rintro rfl
        rw [ht] at hy
        cases hy
      exact (hmoved.hasState_of_ne hne).mpr ⟨y, hy, hsy⟩
    have hready : t ∉ k.readyQueue := by
      intro hm
      obtain ⟨y, hy, _⟩ := hk.ready_running t hm
      rw [ht] at hy
      cases hy
    refine Meets.bind (taskAppendChild_same _ t) fun k₂ hsame => ?_
    unfold schedEnqueue
    rw [if_neg (by rw [hsame.readyQueue]; exact hready)]
    refine Meets.bind (getTask_meets _ _) fun y hy => ?_
    obtain ⟨x', hx', hst, _⟩ := hsame.exists_task hy
    obtain rfl : x = x' := Option.some.inj ((if_pos rfl).symm.trans hx')
    have hsame₂ := hsame.trans (SameQueues.setTask (y := { y with state := .running }) hy
      (hs.symm.trans hst.symm) rfl rfl)
    exact (hsame₂.enqueue t).schedInv hk₁

theorem execFn_safe (hk : SchedInv k) (t : TaskId) (pid : ℕ) : Safe (execFn t pid k) :=
  create_safe hk Kernel.kitoxD rfl rfl rfl

theorem sysFork_safe (hk : SchedInv k) (t : TaskId) (pid : ℕ) : Safe (sysFork t pid k) := by
  unfold sysFork
  refine Meets.bind (getTask_meets _ _) fun cur hcur => ?_
  split
  · simp [nonRunningPanic]
  · exact create_safe hk Kernel.current rfl rfl (hk.canary _ cur hcur)

/-- `find_zombie_child` finds a zombie. -/
theorem findZombieChild_zombie {children : List TaskId} {pid : ℤ}
    (h : findZombieChild children pid k = some t) : k.HasState t .zombie := by
  have hfound := List.find?_some h
  cases ht : k.tasks t with
  | none => simp [ht] at hfound
  | some c =>
    simp only [ht, decide_eq_true_eq] at hfound
    exact ⟨c, ht, hfound.1⟩

theorem taskRelease_safe (hk : SchedInv k) (parent : TaskId) (ht : k.HasState t .zombie) :
    Safe (taskRelease parent t k) := by
  refine Meets.bind (getTask_meets _ _) fun p hp => ?_
  have hsame := SameQueues.setTask (y := { p with children := p.children.erase t }) hp rfl rfl rfl
  exact (hsame.schedInv hk).release (hsame.hasState.mpr ht)

theorem sysWaitpid_safe (hk : SchedInv k) (hidle : k.current ≠ k.idle) (pid : ℤ) (copyOk : Bool) :
    Meets (sysWaitpid pid copyOk k) (fun r => SchedInv r.2) (· ≠ nonRunningPanic) := by
  have hblock : Meets (waitForChild k >>= fun k => Except.ok (WaitResult.blocked, k))
      (fun r => SchedInv r.2) (· ≠ nonRunningPanic) :=
    Meets.bind (waitForChild_safe hk hidle) fun _ hk' => hk'
  unfold sysWaitpid
  split
  · exact hk
  · refine Meets.bind (getTask_meets _ _) fun cur hcur => ?_
    split
    · split
      · exact hk
      · exact hblock
    · split
      · exact hk
      · split
        · rename_i zombie hz
          refine Meets.bind (getTask_meets _ _) fun z _ => ?_
          split
          · exact hk
          · exact Meets.bind (taskRelease_safe hk _ (findZombieChild_zombie hz)) fun _ hk' => hk'
        · exact hblock

end Operations

end Kfs.Proc
