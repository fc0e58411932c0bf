import Kfs.Proc.SchedSpec

/-!
# Sleepers

`sleep_wq` and the wake-up ticks of the tasks in it. Only `timer_ksleep` puts a task there, only the
timer and the signals take it out, and nothing else writes its wake-up tick (`KeepsSleepers`). A run
of the loop of `task_wake_up_sleepers` takes out exactly the tasks whose tick has come
(`taskWakeUpSleepers_eq`).
-/

namespace Kfs.Proc

open Kfs.Lib Kfs.Lib.Word32

/-! ## What a sleeper is waiting for -/

/-- The wake-up tick of a task. -/
def Kernel.wakeTime (k : Kernel) (t : TaskId) : Option ℕ := (k.tasks t).map Task.tickToWake

/-- The comparison of `task_wake_up_sleepers`. -/
def Kernel.isDue (k : Kernel) (t : TaskId) : Bool :=
  match k.wakeTime t with
  | some tick => tick ≤ k.globalTicks
  | none => false

/-- From `k` to `k'` no task but those of `D` has left `sleep_wq`, none has entered it, and the
wake-up ticks and the tick counter are as before. -/
structure KeepsSleepers (D : TaskId → Prop) (k k' : Kernel) : Prop where
  ticks : k'.globalTicks = k.globalTicks
  mem : ∀ t ∈ k'.waitQueue .sleep, t ∈ k.waitQueue .sleep ∧ k'.wakeTime t = k.wakeTime t
  stay : ∀ t ∈ k.waitQueue .sleep, ¬ D t → t ∈ k'.waitQueue .sleep

section Frame

variable {D : TaskId → Prop} {k k' k'' : Kernel} {t : TaskId} {x y : Task}

theorem KeepsSleepers.refl : KeepsSleepers D k k :=
  ⟨rfl, fun _ ht => ⟨ht, rfl⟩, fun _ ht _ => ht⟩

theorem KeepsSleepers.trans (h : KeepsSleepers D k k') (h' : KeepsSleepers D k' k'') :
    KeepsSleepers D k k'' where
  ticks := h'.ticks.trans h.ticks
  mem t ht := by
    obtain ⟨ht', hw'⟩ := h'.mem t ht
    obtain ⟨ht'', hw⟩ := h.mem t ht'
    exact ⟨ht'', hw'.trans hw⟩
  stay t ht hD := h'.stay t (h.stay t ht hD) hD

theorem KeepsSleepers.mono {D' : TaskId → Prop} (h : KeepsSleepers D k k')
    (hD : ∀ t, D t → D' t) : KeepsSleepers D' k k' where
  ticks := h.ticks
  mem := h.mem
  stay t ht hn := h.stay t ht fun hd => hn (hD t hd)

/-- Writes outside `sleep_wq` that leave the wake-up ticks of the sleepers alone. -/
theorem KeepsSleepers.of_eq (hticks : k'.globalTicks = k.globalTicks)
    (hqueue : k'.waitQueue .sleep = k.waitQueue .sleep)
    (hwake : ∀ t ∈ k.waitQueue .sleep, k'.wakeTime t = k.wakeTime t) : KeepsSleepers D k k' where
  ticks := hticks
  mem t ht := by
    rw [hqueue] at ht
    exact ⟨ht, hwake t ht⟩
  stay t ht _ := by
    rw [hqueue]
    exact ht

/-- A write to a task that keeps its wake-up tick. -/
theorem KeepsSleepers.setTask (hx : k.tasks t = some x) (hy : y.tickToWake = x.tickToWake) :
    KeepsSleepers D k (k.setTask t y) := by
  refine .of_eq rfl rfl fun u _ => ?_
  unfold Kernel.wakeTime
  rw [Kernel.setTask_tasks]
  split
  · rename_i hu
    rw [hu, hx, Option.map_some, Option.map_some, hy]
  · rfl

/-- A write to a task that does not sleep. -/
theorem KeepsSleepers.setAwake (ht : t ∉ k.waitQueue .sleep) (y : Task) :
    KeepsSleepers D k (k.setTask t y) := by
  refine .of_eq rfl rfl fun u hu => ?_
  unfold Kernel.wakeTime
  rw [Kernel.setTask_of_ne k y (ne_of_mem_of_not_mem hu ht)]

theorem getTask_wakes (k : Kernel) (t : TaskId) :
    Meets (k.getTask t) (fun x => k.tasks t = some x) (fun _ => True) := by
  unfold Kernel.getTask
  cases h : k.tasks t with
  | none => trivial
  | some x => rfl

/-- The current task does not sleep. -/
theorem SchedInv.current_awake (hk : SchedInv k) : k.current ∉ k.waitQueue .sleep :=
  hk.notMem_wait hk.current_running (by simp) .sleep

end Frame

/-! ## The operations leave the sleepers alone -/

/-- An operation that, where it succeeds, keeps the sleepers other than those of `D`. -/
def KeptBy (D : TaskId → Prop) (k : Kernel) (r : Kern Kernel) : Prop :=
  Meets r (KeepsSleepers D k) (fun _ => True)

section Operations

variable {D : TaskId → Prop} {k : Kernel} {t : TaskId} {x : Task}

/-- Composition with an operation that leaves the sleepers alone from wherever it starts. -/
theorem KeptBy.bind {r : Kern Kernel} {f : Kernel → Kern Kernel} (h : KeptBy D k r)
    (hf : ∀ k', KeepsSleepers D k k' → KeptBy D k' (f k')) : KeptBy D k (r >>= f) :=
  Meets.bind h fun k' hk' => (hf k' hk').mono fun _ h' => hk'.trans h'

theorem schedEnqueue_keeps (t : TaskId) (k : Kernel) : KeptBy D k (schedEnqueue t k) := by
  unfold schedEnqueue
  split
  · exact .refl
  · refine Meets.bind (getTask_wakes _ _) fun x hx => ?_
    exact (KeepsSleepers.setTask (y := { x with state := .running }) hx rfl).trans
      (KeepsSleepers.of_eq rfl rfl fun _ _ => rfl)

theorem switchTo_keeps (t : TaskId) (k : Kernel) : KeptBy D k (switchTo t k) := by
  refine Meets.bind (getTask_wakes _ _) fun x hx => ?_
  split
  · trivial
  · exact (KeepsSleepers.setTask (y := { x with quantumRemaining := defaultQuantum }) hx rfl).trans
      (KeepsSleepers.of_eq rfl rfl fun _ _ => rfl)

theorem pickNext_keeps (k : Kernel) : KeptBy D k (pickNext k) := by
  unfold pickNext
  split
  · rename_i next rest _
    refine Meets.bind (getTask_wakes _ _) fun x _ => ?_
    split
    · trivial
    · have hpop : KeepsSleepers D k { k with readyQueue := rest } := .of_eq rfl rfl fun _ _ => rfl
      exact (switchTo_keeps next _).mono fun _ h => hpop.trans h
  · split
    · exact .refl
    · refine Meets.bind (getTask_wakes _ _) fun x hx => ?_
      have hset := KeepsSleepers.setTask (D := D) (y := { x with state := .running }) hx rfl
      exact (switchTo_keeps k.idle _).mono fun _ h => hset.trans h

theorem schedule_keeps (k : Kernel) : KeptBy D k (schedule k) := by
  refine Meets.bind (getTask_wakes _ _) fun cur _ => ?_
  split
  · trivial
  · dsimp only
    split
    · exact (schedEnqueue_keeps k.current k).bind fun k' _ => pickNext_keeps k'
    · exact pickNext_keeps k

/-- A wake-up takes at most its own task out of `sleep_wq`. -/
theorem woken_keeps (hx : k.tasks t = some x) (h : WqHead) :
    KeepsSleepers (fun u => h = .sleep ∧ u = t) k (woken t x h k) where
  ticks := rfl
  mem u hu := by
    constructor
    · rw [woken_waitQueue] at hu
      split at hu
      · rename_i hh
        rw [hh]
        exact List.mem_of_mem_erase hu
      · exact hu
    · show Option.map Task.tickToWake (if u = t then _ else k.tasks u) =
        Option.map Task.tickToWake (k.tasks u)
      split
      · rename_i hut
        rw [hut, hx]
        rfl
      · rfl
  stay u hu hD := by
    rw [woken_waitQueue]
    split
    · rename_i hh
      rw [← hh]
      exact (List.mem_erase_of_ne fun hut => hD ⟨hh.symm, hut⟩).mpr hu
    · exact hu

theorem wqFinish_keeps (hk : QueueInv k) (t : TaskId) : KeptBy (· = t) k (wqFinish t k) := by
  cases ht : k.tasks t with
  | none =>
    unfold wqFinish Kernel.getTask
    rw [ht]
    trivial
  | some x =>
    cases hn : x.wqNode with
    | none =>
      rw [wqFinish_of_unlinked ht hn]
      exact .refl
    | some h =>
      rw [wqFinish_eq hk ht hn]
      exact (woken_keeps ht h).mono fun _ hu => hu.2

/-- The head of another queue is woken. -/
theorem wqFinish_keeps_all (hk : QueueInv k) {wq : WqHead} (hwq : wq ≠ .sleep)
    (ht : t ∈ k.waitQueue wq) : KeptBy D k (wqFinish t k) := by
  obtain ⟨x, hx, hn⟩ := (hk.mem_waitQueue wq t).mp ht
  rw [wqFinish_eq hk hx hn]
  exact (woken_keeps hx wq).mono fun _ hu => absurd hu.1 hwq

theorem wqWakeAllN_keeps {wq : WqHead} (hwq : wq ≠ .sleep) (n : ℕ) : ∀ {k : Kernel}, QueueInv k →
    ¬ k.HasState k.current .waiting → KeptBy D k (wqWakeAllN wq n k) := by
  induction n with
  | zero =>
    intro k _ _
    unfold wqWakeAllN
    split
    · exact .refl
    · trivial
  | succ n ih =>
    intro k hk hcur
    unfold wqWakeAllN
    cases hq : k.waitQueue wq with
    | nil => exact .refl
    | cons t rest =>
      have hmem : t ∈ k.waitQueue wq := hq ▸ List.mem_cons_self
      obtain ⟨k₁, h₁, hw₁⟩ := wqFinish_spec hk hcur (hk.some_of_mem hmem)
      have hkept : KeptBy D k (wqFinish t k) := wqFinish_keeps_all hk hwq hmem
      dsimp only
      rw [h₁] at hkept ⊢
      rw [ok_bind]
      exact (ih hw₁.inv (mt hw₁.hasState_current.mp hcur)).mono fun _ h => hkept.trans h

theorem taskAppendChild_keeps (parent child : TaskId) (k : Kernel) :
    KeptBy D k (taskAppendChild parent child k) := by
  refine Meets.bind (getTask_wakes _ _) fun c hc => ?_
  have h₁ := KeepsSleepers.setTask (D := D)
    (y := { c with parent := some parent, realParent := some parent }) hc rfl
  refine Meets.bind (getTask_wakes _ _) fun p hp => ?_
  exact h₁.trans (KeepsSleepers.setTask (y := { p with children := child :: p.children }) hp rfl)

theorem taskReparentChildren_keeps (parent : TaskId) (k : Kernel) :
    KeptBy D k (taskReparentChildren parent k) := by
  unfold taskReparentChildren
  split
  · exact .refl
  · refine Meets.bind (getTask_wakes _ _) fun x hx => ?_
    refine Meets.foldlM (fun k' child _ hk' => ?_)
      (KeepsSleepers.setTask (y := { x with children := [] }) hx rfl)
    exact (taskAppendChild_keeps _ child k').mono fun _ h => hk'.trans h

theorem becomeZombie_keeps {cur : Task} (hcur : k.tasks k.current = some cur) (status : ℕ) :
    KeptBy D k (becomeZombie status cur k) := by
  have h₁ : KeepsSleepers D k (k.setTask k.current
      { cur with exitCode := (status &&& 0xff) <<< 8 }) := .setTask hcur rfl
  have h₂ : KeepsSleepers D k (popSchedNode k.current (k.setTask k.current
      { cur with exitCode := (status &&& 0xff) <<< 8 })) :=
    h₁.trans (.of_eq rfl rfl fun _ _ => rfl)
  refine Meets.bind (taskReparentChildren_keeps (D := D) _ _) fun k₃ h₃ => ?_
  refine Meets.bind (getTask_wakes _ _) fun x hx => ?_
  exact (h₂.trans h₃).trans (.setTask (y := { x with state := .zombie }) hx rfl)

theorem doExit_keeps (hk : SchedInv k) (status : ℕ) : KeptBy D k (doExit status k) := by
  cases hexit : doExit status k with
  | error e => trivial
  | ok k' =>
    obtain ⟨cur, parent, k₁, k₂, hcur, hidle, -, h₁, h₂, h₃⟩ := doExit_parts hexit
    obtain ⟨hinv, hz⟩ := (becomeZombie_spec hk hcur hidle status).result h₁
    have hz' : ¬ k₁.HasState k₁.current .waiting := fun h => nomatch h.unique hz
    have hkept₁ : KeepsSleepers D k k₁ := (becomeZombie_keeps hcur status).result h₁
    have hkept₂ : KeepsSleepers D k₁ k₂ := (wqWakeAllN_keeps (by simp) _ hinv hz').result h₂
    have hkept₃ : KeepsSleepers D k₂ k' := (schedule_keeps k₂).result h₃
    exact (hkept₁.trans hkept₂).trans hkept₃

theorem callHandlers_keeps (copyOk : Bool) (sigs : List ℕ) : ∀ {k : Kernel}, SchedInv k →
    KeptBy D k (callHandlers copyOk sigs k) := by
  induction sigs with
  | nil => exact fun _ => .refl
  | cons sig sigs ih =>
    intro k hk
    unfold callHandlers
    refine Meets.bind (getTask_wakes _ _) fun cur hcur => ?_
    split
    · exact ih hk
    · have hk₁ := hk.writeCurrent hcur (y := signalDequeue sig cur) rfl rfl rfl
      have hkept : KeepsSleepers D k (k.setTask k.current (signalDequeue sig cur)) :=
        .setTask hcur rfl
      have hexit : ∀ status, KeptBy D k (doExit status (k.setTask k.current
          (signalDequeue sig cur))) :=
        fun status => (doExit_keeps hk₁ status).mono fun _ h => hkept.trans h
      have hrest : KeptBy D k (callHandlers copyOk sigs (k.setTask k.current
          (signalDequeue sig cur))) := (ih hk₁).mono fun _ h => hkept.trans h
      dsimp only
      split
      · exact hrest
      · split
        · exact hrest
        · exact hexit _
      · split
        · exact hkept
        · exact hexit _

/-- Going to sleep in another queue. -/
theorem waitForChild_keeps (hk : SchedInv k) : KeptBy D k (waitForChild k) := by
  obtain ⟨x, hx, hs⟩ := hk.current_running
  have hn : x.wqNode = none := by simpa [hs] using hk.waiting_iff _ x hx
  unfold waitForChild
  rw [wqPrepare_eq hx hn, ok_bind]
  have hkept : KeepsSleepers D k (asleep k.current x (.child k.current) k) := by
    have hset : KeepsSleepers D k (k.setTask k.current { x with
        wqHead := some (.child k.current), state := .waiting, needResched := true
        wqNode := some (.child k.current) }) := .setTask hx rfl
    exact hset.trans (.of_eq rfl rfl fun _ _ => rfl)
  exact (schedule_keeps _).mono fun _ h => hkept.trans h

theorem taskRelease_keeps (hk : QueueInv k) (parent : TaskId) (ht : k.HasState t .zombie) :
    KeptBy D k (taskRelease parent t k) := by
  refine Meets.bind (getTask_wakes _ _) fun p hp => ?_
  have hset := KeepsSleepers.setTask (D := D) (y := { p with children := p.children.erase t }) hp rfl
  refine hset.trans (.of_eq rfl rfl fun u hu => ?_)
  -- a zombie does not sleep
  have hne : u ≠ t := by
    rintro rfl
    exact hk.notMem_wait ht (by simp) .sleep hu
  show Option.map Task.tickToWake (if u = t then none else _) = _
  rw [if_neg hne]
  rfl

theorem sysWaitpid_keeps (hk : SchedInv k) (pid : ℤ) (copyOk : Bool) :
    Meets (sysWaitpid pid copyOk k) (fun r => KeepsSleepers D k r.2) (fun _ => True) := by
  have hblock : Meets (waitForChild k >>= fun k => Except.ok (WaitResult.blocked, k))
      (fun r => KeepsSleepers D k r.2) (fun _ => True) :=
    Meets.bind (waitForChild_keeps hk) fun _ h => h
  unfold sysWaitpid
  split
  · exact .refl
  · refine Meets.bind (getTask_wakes _ _) fun cur _ => ?_
    split
    · split
      · exact .refl
      · exact hblock
    · split
      · exact .refl
      · split
        · rename_i zombie hz
          refine Meets.bind (getTask_wakes _ _) fun z _ => ?_
          split
          · exact .refl
          · exact Meets.bind (taskRelease_keeps hk.toQueueInv _ (findZombieChild_zombie hz))
              fun _ h => h
        · exact hblock

theorem sysSignal_keeps (hk : SchedInv k) (signum handler : ℕ) :
    Meets (sysSignal signum handler k) (fun r => KeepsSleepers D k r.2) (fun _ => True) := by
  unfold sysSignal
  split
  · exact .refl
  · split
    · exact .refl
    · split
      · exact .refl
      · exact Meets.bind (getTask_wakes _ _) fun cur _ => .setAwake hk.current_awake _

/-- A new task sleeps nowhere. -/
theorem create_keeps (hk : QueueInv k) (parent : Kernel → TaskId) (t : TaskId) (x : Task) :
    KeptBy D k (addTask t x k >>= fun k => taskAppendChild (parent k) t k >>= schedEnqueue t) := by
  unfold addTask
  cases ht : k.tasks t with
  | some y => trivial
  | none =>
    have hnot : t ∉ k.waitQueue .sleep := by
      intro hmem
      obtain ⟨y, hy⟩ := hk.some_of_mem hmem
      rw [ht] at hy
      cases hy
    have hkept : KeepsSleepers D k ((k.setTask t x).setQueue (.child t) []) :=
      (KeepsSleepers.setAwake hnot x).trans (.of_eq rfl rfl fun _ _ => rfl)
    dsimp only
    rw [ok_bind]
    refine Meets.bind (taskAppendChild_keeps (D := D) _ t _) fun k₁ h₁ => ?_
    exact (schedEnqueue_keeps t k₁).mono fun _ h => (hkept.trans h₁).trans h

/-- A signal wakes at most its target. -/
theorem signalSend_keeps (hk : QueueInv k) (sig : ℕ) (dst : TaskId) :
    KeptBy (· = dst) k (signalSend sig dst k) := by
  unfold signalSend
  split
  · exact .refl
  · refine Meets.bind (getTask_wakes _ _) fun x hx => ?_
    have hset : KeepsSleepers (· = dst) k (k.setTask dst
        { x with signalsMap := x.signalsMap ||| 2 ^ sig }) :=
      .setTask hx rfl
    have hk₁ := (SameQueues.setTask (y := { x with signalsMap := x.signalsMap ||| 2 ^ sig })
      hx rfl rfl rfl).queueInv hk
    refine Meets.bind (getTask_wakes _ _) fun y _ => ?_
    split
    · exact hset
    · exact (wqFinish_keeps hk₁ dst).mono fun _ h => hset.trans h

end Operations

/-! ## The tick -/

section Tick

variable {k : Kernel} {t : TaskId}

theorem isDue_woken {x : Task} (hx : k.tasks t = some x) (h : WqHead) (u : TaskId) :
    (woken t x h k).isDue u = k.isDue u := by
  have hwake : (woken t x h k).wakeTime u = k.wakeTime u := by
    show Option.map Task.tickToWake (if u = t then _ else k.tasks u) =
      Option.map Task.tickToWake (k.tasks u)
    split
    · rename_i hut
      rw [hut, hx]
      rfl
    · rfl
  unfold Kernel.isDue
  rw [hwake]
  rfl

/-- One turn of the loop on a sleeper. -/
theorem wakeSleeper_eq (hk : QueueInv k) (ht : t ∈ k.waitQueue .sleep) :
    ∃ x, k.tasks t = some x ∧
      wakeSleeper k t = .ok (if k.isDue t = true then woken t x .sleep k else k) := by
  obtain ⟨x, hx, hn⟩ := (hk.mem_waitQueue .sleep t).mp ht
  refine ⟨x, hx, ?_⟩
  have hdue : k.isDue t = decide (x.tickToWake ≤ k.globalTicks) := by
    unfold Kernel.isDue Kernel.wakeTime
    rw [hx]
    rfl
  unfold wakeSleeper
  rw [Kernel.getTask_eq hx, ok_bind, hdue]
  simp only [decide_eq_true_eq]
  split
  · exact wqFinish_eq hk hx hn
  · rfl

/-- The loop over the rest `ts` of the sleepers: those that are due leave, in this order, for the end
of `ready_queue`. -/
theorem wakeSleepers_eq (ts : List TaskId) : ∀ {k : Kernel}, QueueInv k →
    (∀ t ∈ ts, t ∈ k.waitQueue .sleep) → ts.Nodup →
    ∃ k', ts.foldlM wakeSleeper k = .ok k' ∧ k'.globalTicks = k.globalTicks ∧
      k'.waitQueue .sleep =
        (k.waitQueue .sleep).filter (fun u => !(decide (u ∈ ts) && k.isDue u)) ∧
      k'.readyQueue = k.readyQueue ++ ts.filter k.isDue ∧ ∀ u, k'.wakeTime u = k.wakeTime u := by
  -- On the sleepers that the loop has still to look at.
  induction ts with
  | nil => exact fun _ _ _ => ⟨_, rfl, rfl, by simp, by simp, fun _ => rfl⟩
  | cons t ts ih =>
    intro k hk hts hnodup
    obtain ⟨hnot, hnodup⟩ := List.nodup_cons.mp hnodup
    have ht := hts t List.mem_cons_self
    obtain ⟨x, hx, hstep⟩ := wakeSleeper_eq hk ht
    rw [List.foldlM_cons, hstep, ok_bind]
    by_cases hdue : k.isDue t = true
    · -- `t` is woken, and no other sleeper becomes due by that
      obtain ⟨x', hx', hn⟩ := (hk.mem_waitQueue .sleep t).mp ht
      obtain rfl : x = x' := Option.some.inj (hx.symm.trans hx')
      have hk₁ := (woken_moved hk hx hn).queueInv hk
      have hsame := isDue_woken hx .sleep
      have hqueue : (woken t x .sleep k).waitQueue .sleep = (k.waitQueue .sleep).erase t := rfl
      have hready : (woken t x .sleep k).readyQueue = k.readyQueue ++ [t] := rfl
      obtain ⟨k', hrun, hticks, hsleep, hready', hwake⟩ := ih hk₁
        (fun u hu => by
          rw [hqueue]
          exact (List.mem_erase_of_ne (ne_of_mem_of_not_mem hu hnot)).mpr
            (hts u (List.mem_cons_of_mem t hu))) hnodup
      refine ⟨k', by rw [if_pos hdue]; exact hrun, hticks, ?_, ?_, fun u => (hwake u).trans ?_⟩
      · rw [hsleep, hqueue, (hk.wait_nodup .sleep).erase_eq_filter, List.filter_filter]
        apply List.filter_congr
        intro u _
        by_cases hut : u = t
        · simp [hut, hdue]
        · simp [hut, hsame]
      · rw [hready', hready, List.filter_cons_of_pos hdue, List.append_assoc, List.singleton_append]
        congr 2
        apply List.filter_congr
        exact fun u _ => hsame u
      · show Option.map Task.tickToWake (if u = t then _ else k.tasks u) =
          Option.map Task.tickToWake (k.tasks u)
        split
        · rename_i hut
          rw [hut, hx]
          rfl
        · rfl
    · -- `t` sleeps on.
      rw [Bool.not_eq_true] at hdue
      obtain ⟨k', hrun, hticks, hsleep, hready, hwake⟩ := ih hk
        (fun u hu => hts u (List.mem_cons_of_mem t hu)) hnodup
      refine ⟨k', by rw [if_neg (by simp [hdue])]; exact hrun, hticks, ?_, ?_, hwake⟩
      · rw [hsleep]
        apply List.filter_congr
        intro u _
        by_cases hut : u = t
        · simp [hut, hdue]
        · simp [hut]
      · rw [hready, List.filter_cons_of_neg (by simp [hdue])]

/-- **`task_wake_up_sleepers`** moves exactly the sleepers that are due, and keeps the others in
their order. -/
theorem taskWakeUpSleepers_eq (hk : QueueInv k) :
    ∃ k', taskWakeUpSleepers k = .ok k' ∧ k'.globalTicks = k.globalTicks ∧
      k'.waitQueue .sleep = (k.waitQueue .sleep).filter (fun u => !k.isDue u) ∧
      k'.readyQueue = k.readyQueue ++ (k.waitQueue .sleep).filter k.isDue ∧
      ∀ u, k'.wakeTime u = k.wakeTime u := by
  obtain ⟨k', hrun, hticks, hsleep, hready, hwake⟩ :=
    wakeSleepers_eq (k.waitQueue .sleep) hk (fun _ ht => ht) (hk.wait_nodup .sleep)
  refine ⟨k', hrun, hticks, ?_, hready, hwake⟩
  rw [hsleep]
  apply List.filter_congr
  intro u hu
  simp [hu]

end Tick

end Kfs.Proc
