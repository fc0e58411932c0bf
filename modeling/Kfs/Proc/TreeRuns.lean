import Kfs.Proc.Processes

/-!
# The process tree in every run

`procStep_effect` says once what an operation can do to the tree, the pids and the sleepers. The
integrity of the tree follows from it.
-/

namespace Kfs.Proc

open Kfs.Lib Kfs.Utils

/-! ## What a step can do -/

/-- The operation ends the current task. -/
def ProcOp.Exits (s : Processes) : ProcOp → Prop
  | .sched (.exit _) => True
  | .sched (.callHandlers copyOk) => ∃ x, s.kernel.tasks s.kernel.current = some x ∧
      handlersExit copyOk (List.range' 1 (sigSentinel - 1)) x = true
  | _ => False

/-- The tasks that sleep on their own `child_wq` and the calls they are in were there before. -/
def Processes.NoNewWaiter (s s' : Processes) : Prop :=
  ∀ t, t ∈ s'.kernel.waitQueue (.child t) → t ∈ s.kernel.waitQueue (.child t) ∧
    s'.waitArg t = s.waitArg t

/-- What an operation does to the tree, the pids and the sleepers. -/
inductive ProcEffect (s : Processes) (op : ProcOp) (s' : Processes) : Prop where
  | quiet (hf : s'.kernel.forest = s.kernel.forest)
      (hp : ∀ f : Forest, f.PidInv s.pids → f.PidInv s'.pids) (hw : s.NoNewWaiter s')
  | creates (p t : TaskId) (pid : ℕ) (hp : ∃ y, s.kernel.tasks p = some y ∧ y.state ≠ .zombie)
      (ht : s.kernel.tasks t = none) (hpid : (idManagerAlloc s.pids).1 = some pid)
      (hpids : s'.pids = (idManagerAlloc s.pids).2)
      (hf : s'.kernel.forest = s.kernel.forest.create p t pid) (hw : s.NoNewWaiter s')
  | exits (x : Task) (p : TaskId) (hop : op.Exits s) (hx : s.kernel.tasks s.kernel.current = some x)
      (hroot : ¬ s.kernel.forest.Root s.kernel.current) (hp : x.realParent = some p)
      (hf : s'.kernel.forest = s.kernel.forest.exit s.kernel.current x.children)
      (hpids : s'.pids = s.pids) (hw : s.NoNewWaiter s')
      (hnone : p ∉ s'.kernel.waitQueue (.child p))
  | reaps (t : TaskId) (x : Task) (n : Node) (hx : s.kernel.tasks s.kernel.current = some x)
      (ht : t ∈ x.children) (hn : s.kernel.forest.node t = some n) (hz : n.zombie = true)
      (hf : s'.kernel.forest = s.kernel.forest.reap s.kernel.current t)
      (hpids : s'.pids = idManagerFree s.pids n.pid) (hw : s.NoNewWaiter s')
  | sleeps (pid : ℤ) (hf : s'.kernel.forest = s.kernel.forest) (hpids : s'.pids = s.pids)
      (hnone : ∀ x, s.kernel.tasks s.kernel.current = some x → ∀ c ∈ x.children, ∀ n,
        s.kernel.forest.node c = some n → ¬ Reaps pid n)
      (hw : ∀ t, t ∈ s'.kernel.waitQueue (.child t) → (t ∈ s.kernel.waitQueue (.child t) ∧
        s'.waitArg t = s.waitArg t) ∨ (t = s.kernel.current ∧ s'.waitArg t = some pid))

section Steps

variable {s s' : Processes}

/-- An operation of the scheduler that leaves the tree alone and puts nobody to sleep. -/
theorem ProcEffect.of_quiet {op : ProcOp} {k : Kernel} (h : Quiet s.kernel k) :
    ProcEffect s op { s with kernel := k } :=
  .quiet h.forest (fun _ h => h) fun t ht => ⟨h.waitQueue _ t ht, rfl⟩

theorem ProcEffect.of_exit {op : ProcOp} (hop : op.Exits s) {k k' : Kernel} (hq : Quiet s.kernel k)
    (hs : SchedInv k) (hf : k.forest.Inv) (hc : k.current = s.kernel.current) {status : ℕ}
    (h : doExit status k = .ok k') : ProcEffect s op { s with kernel := k' } := by
  obtain ⟨y, p, hy, hroot, hp, hf', hw⟩ := doExit_tree hs hf h
  rw [hq.forest, hc] at hroot hf'
  -- the task has the same place in both states
  have hnode := Kernel.forest_node hy
  rw [hq.forest, hc] at hnode
  obtain ⟨x, hx, hxy⟩ := Kernel.exists_task hnode
  have hch : x.children = y.children := congrArg Node.children hxy
  have hrp : x.realParent = y.realParent := congrArg Node.realParent hxy
  refine .exits x p hop hx hroot (hrp.trans hp) (hch ▸ hf') rfl (fun t ht => ?_) fun hmem => ?_
  · exact ⟨hq.waitQueue _ t (hw _ t ht).1, rfl⟩
  · exact (hw _ p hmem).2 rfl

/-- The stages of `timer_handle`. -/
theorem timerHandle_stages {k k' : Kernel} (h : timerHandle k = .ok k') : ∃ ticks k₁,
    taskWakeUpSleepers { k with globalTicks := ticks } = .ok k₁ ∧ (schedule k₁ = .ok k' ∨
      ∃ cur quantum k₂, k₁.tasks k₁.current = some cur ∧
        k₂ = k₁.setTask k₁.current { cur with quantumRemaining := quantum } ∧
        (k₂ = k' ∨ schedule k₂ = .ok k')) := by
  unfold timerHandle at h
  rw [bind_eq_ok] at h
  obtain ⟨k₁, h₁, h⟩ := h
  refine ⟨_, k₁, h₁, ?_⟩
  split at h
  · exact .inl h
  · rw [bind_eq_ok] at h
    obtain ⟨cur, hcur, h⟩ := h
    refine .inr ⟨cur, Word32.sub32 cur.quantumRemaining 1, _, getTask_ok hcur, rfl, ?_⟩
    dsimp only at h
    split at h
    · exact .inl (Except.ok.inj h)
    · exact .inr h

/-- A timer tick. -/
theorem timerHandle_quiet {k k' : Kernel} (hk : SchedInv k) (h : timerHandle k = .ok k') :
    Quiet k k' := by
  obtain ⟨ticks, k₂, h₂, h⟩ := timerHandle_stages h
  have hk₁ : SchedInv { k with globalTicks := ticks } :=
    SameQueues.schedInv (k := k) ⟨fun _ => rfl, rfl, rfl, rfl, rfl, rfl⟩ hk
  have hq₁ : Quiet k { k with globalTicks := ticks } := ⟨rfl, fun _ _ h => h⟩
  obtain ⟨k₂', h₂', hw⟩ := taskWakeUpSleepers_spec hk₁.toQueueInv hk₁.not_waiting
  rw [h₂] at h₂'
  obtain rfl := Except.ok.inj h₂'
  have hk₂ := hw.schedInv hk₁
  have hq₂ := hq₁.trans (wakeSleepers_quiet _ hk₁.toQueueInv hk₁.not_waiting h₂)
  rcases h with h | ⟨cur, quantum, k₃, hcur, rfl, h⟩
  · exact hq₂.trans (schedule_quiet hk₂.toQueueInv h)
  · have hk₃ := hk₂.writeCurrent hcur (y := { cur with quantumRemaining := quantum }) rfl rfl rfl
    have hq₃ := hq₂.trans
      (Quiet.setTask hcur (y := { cur with quantumRemaining := quantum }) rfl)
    rcases h with rfl | h
    · exact hq₃
    · exact hq₃.trans (schedule_quiet hk₃.toQueueInv h)

theorem timerKsleep_tree {k k' : Kernel} (hk : SchedInv k) (hidle : k.current ≠ k.idle)
    {seconds : ℕ} (h : timerKsleep seconds k = .ok k') : k'.forest = k.forest ∧
      ∀ u t, t ∈ k'.waitQueue (.child u) → t ∈ k.waitQueue (.child u) := by
  unfold timerKsleep at h
  rw [bind_eq_ok] at h
  obtain ⟨cur, hcur, h⟩ := h
  have hcur := getTask_ok hcur
  dsimp only at h
  generalize Word32.add32 k.globalTicks (seconds * ticksPerSecond % 2 ^ 32) = tick at h
  have hk₁ := hk.writeCurrent hcur (y := { cur with tickToWake := tick }) rfl rfl rfl
  obtain ⟨hf, hw⟩ := sleep_tree hk₁ hidle (fun u (h : WqHead.sleep = .child u) => nomatch h) h
  refine ⟨hf.trans (forest_setTask hcur rfl), fun u t ht => ?_⟩
  rcases hw _ t ht with h' | ⟨_, h'⟩
  · exact h'
  · cases h'

theorem sysSignal_quiet {k k' : Kernel} (hk : SchedInv k) {signum handler : ℕ}
    (h : Prod.snd <$> sysSignal signum handler k = .ok k') : Quiet k k' := by
  unfold sysSignal at h
  split at h
  · exact Except.ok.inj h ▸ .refl _
  · split at h
    · exact Except.ok.inj h ▸ .refl _
    · split at h
      · exact Except.ok.inj h ▸ .refl _
      · obtain ⟨x, hx⟩ := hk.current_some
        rw [Kernel.getTask_eq hx] at h
        exact Except.ok.inj h ▸ .setTask hx rfl

/-- What the operations of the scheduler do. -/
theorem schedStep_effect (hk : SchedInv s.kernel) (hf : s.kernel.forest.Inv) {op : SchedOp}
    (hop : op.Plain ∧ op.Enabled s.kernel) {k' : Kernel} (h : schedStep s.kernel op = .ok k') :
    ProcEffect s (.sched op) { s with kernel := k' } := by
  cases op with
  | schedule => exact .of_quiet (schedule_quiet hk.toQueueInv h)
  | tick => exact .of_quiet (timerHandle_quiet hk h)
  | ksleep seconds =>
    obtain ⟨hf', hw⟩ := timerKsleep_tree hk hop.2.1 h
    exact .quiet hf' (fun _ h => h) fun t ht => ⟨hw t t ht, rfl⟩
  | ksleepReturn =>
    have h : timerKsleepReturn s.kernel = .ok k' := h
    unfold timerKsleepReturn at h
    rw [bind_eq_ok] at h
    obtain ⟨cur, hcur, h⟩ := h
    exact .of_quiet (Except.ok.inj h ▸ .setTask (getTask_ok hcur) rfl)
  | waitpid pid copyOk => exact hop.1.elim
  | wakeOne wq =>
    have h : wqWakeOne wq s.kernel = .ok k' := h
    unfold wqWakeOne at h
    split at h
    · exact .of_quiet (Except.ok.inj h ▸ .refl _)
    · exact .of_quiet (wqFinish_quiet hk.toQueueInv h)
  | wakeAll wq => exact .of_quiet (wqWakeAllN_quiet wq _ hk.toQueueInv hk.not_waiting h)
  | wakeSpecifiq t => exact .of_quiet (wqFinish_quiet hk.toQueueInv h)
  | signalSend sig dst =>
    have h : signalSend sig dst s.kernel = .ok k' := h
    unfold signalSend at h
    split at h
    · exact .of_quiet (Except.ok.inj h ▸ .refl _)
    · rw [bind_eq_ok] at h
      obtain ⟨x, hx, h⟩ := h
      have hx := getTask_ok hx
      have hk₁ := (SameQueues.setTask (y := { x with signalsMap := x.signalsMap ||| 2 ^ sig })
        hx rfl rfl rfl).schedInv hk
      have hq₁ : Quiet s.kernel (s.kernel.setTask dst
        { x with signalsMap := x.signalsMap ||| 2 ^ sig }) := .setTask hx rfl
      exact .of_quiet (hq₁.trans (wqSignalWakeUp_quiet hk₁.toQueueInv h))
  | signal signum handler =>
    have h : Prod.snd <$> sysSignal signum handler s.kernel = .ok k' := h
    exact .of_quiet (sysSignal_quiet hk h)
  | callHandlers copyOk =>
    obtain ⟨x, hx, _⟩ := hk.current_running
    rcases callHandlers_cases copyOk _ hk hx h with hq | ⟨he, k₁, status, hq, hs, hc, hx'⟩
    · exact .of_quiet hq
    · have hop : (ProcOp.sched (.callHandlers copyOk)).Exits s := ⟨x, hx, he⟩
      exact .of_exit hop hq hs (hq.forest ▸ hf) hc hx'
  | execFn t pid => exact hop.1.elim
  | fork t pid => exact hop.1.elim
  | exit status =>
    have hop : (ProcOp.sched (.exit status)).Exits s := trivial
    exact .of_exit hop (.refl _) hk hf rfl h

/-- What `task_get_new` does to the pids. -/
theorem taskGetNew_spec (env : NewTaskEnv) (pids : IdManager) :
    ((taskGetNew env pids).1 = none ∧ ∀ f : Forest, f.PidInv pids → f.PidInv (taskGetNew env pids).2) ∨
    ∃ t pid, taskGetNew env pids = (some (t, pid), (idManagerAlloc pids).2) ∧
      (idManagerAlloc pids).1 = some pid := by
  unfold taskGetNew
  cases env.addr with
  | none => exact .inl ⟨rfl, fun _ h => h⟩
  | some t =>
    dsimp only
    cases halloc : (idManagerAlloc pids).1 with
    | none =>
      rw [show idManagerAlloc pids = (none, pids) from Prod.ext halloc (IdManager.alloc_none halloc)]
      exact .inl ⟨rfl, fun _ h => h⟩
    | some pid =>
      rw [show idManagerAlloc pids = (some pid, (idManagerAlloc pids).2) from Prod.ext halloc rfl]
      dsimp only
      split
      · exact .inl ⟨rfl, fun _ h => h.undo halloc⟩
      · split
        · exact .inl ⟨rfl, fun _ h => h.undo halloc⟩
        · split
          · exact .inl ⟨rfl, fun _ h => h.undo halloc⟩
          · exact .inr ⟨t, pid, rfl, rfl⟩

/-- What `task_clone` does to the pids. -/
theorem taskClone_spec (env : ForkEnv) (pids : IdManager) :
    ((taskClone env pids).1 = none ∧ ∀ f : Forest, f.PidInv pids → f.PidInv (taskClone env pids).2) ∨
    ∃ t pid, taskClone env pids = (some (t, pid), (idManagerAlloc pids).2) ∧
      (idManagerAlloc pids).1 = some pid := by
  unfold taskClone
  cases env.addr with
  | none => exact .inl ⟨rfl, fun _ h => h⟩
  | some t =>
    dsimp only
    cases halloc : (idManagerAlloc pids).1 with
    | none =>
      rw [show idManagerAlloc pids = (none, pids) from Prod.ext halloc (IdManager.alloc_none halloc)]
      exact .inl ⟨rfl, fun _ h => h⟩
    | some pid =>
      rw [show idManagerAlloc pids = (some pid, (idManagerAlloc pids).2) from Prod.ext halloc rfl]
      dsimp only
      split
      · exact .inl ⟨rfl, fun _ h => h.undo halloc⟩
      · exact .inr ⟨t, pid, rfl, rfl⟩

/-- A task that could not be made leaves nothing but a manager with the same pids. -/
theorem ProcEffect.of_failed {op : ProcOp} {pids : IdManager}
    (h : ∀ f : Forest, f.PidInv s.pids → f.PidInv pids) :
    ProcEffect s op { s with pids := pids } :=
  .quiet rfl h fun _ ht => ⟨ht, rfl⟩

/-- A new task sleeps nowhere. -/
theorem noNewWaiter_startTask {t : TaskId} {k : Kernel} {pids : IdManager}
    (hk : QueueInv s.kernel) (ht : s.kernel.tasks t = none)
    (hw : ∀ q u, u ∈ k.waitQueue q → u ∈ s.kernel.waitQueue q) :
    s.NoNewWaiter (s.startTask t k pids) := by
  intro u hu
  have hu' := hw _ u hu
  refine ⟨hu', if_neg ?_⟩
  rintro rfl
  obtain ⟨x, hx⟩ := hk.some_of_mem hu'
  rw [ht] at hx
  cases hx

theorem execFn_effect (hk : SchedInv s.kernel) (hf : s.kernel.forest.Inv) {env : NewTaskEnv}
    (h : s.execFn env = .ok s') : ProcEffect s (.execFn env) s' := by
  unfold Processes.execFn at h
  split at h
  · exact Except.ok.inj h ▸ .of_failed fun _ h => h
  · rcases taskGetNew_spec env s.pids with ⟨hnone, hpids⟩ | ⟨t, pid, heq, halloc⟩
    · rw [show taskGetNew env s.pids = (none, (taskGetNew env s.pids).2) from
        Prod.ext hnone rfl] at h
      exact Except.ok.inj h ▸ .of_failed hpids
    · rw [heq] at h
      dsimp only at h
      rw [bind_eq_ok] at h
      obtain ⟨k', h', h⟩ := h
      obtain rfl := Except.ok.inj h
      obtain ⟨n, hn, _, hz⟩ := hf.root s.kernel.kitoxD (.inr (.inl rfl))
      obtain ⟨y, hy, rfl⟩ := Kernel.exists_task hn
      obtain ⟨ht, hf', hw⟩ := execFn_tree hy h'
      exact .creates s.kernel.kitoxD t pid ⟨y, hy, by simpa [Task.node] using hz⟩ ht halloc rfl hf'
        (noNewWaiter_startTask hk.toQueueInv ht hw)

theorem sysFork_effect (hk : SchedInv s.kernel) {env : ForkEnv} (h : s.sysFork env = .ok s') :
    ProcEffect s (.fork env) s' := by
  unfold Processes.sysFork at h
  rcases taskClone_spec env s.pids with ⟨hnone, hpids⟩ | ⟨t, pid, heq, halloc⟩
  · rw [show taskClone env s.pids = (none, (taskClone env s.pids).2) from
      Prod.ext hnone rfl] at h
    exact Except.ok.inj h ▸ .of_failed hpids
  · rw [heq] at h
    dsimp only at h
    split at h
    · exact Except.ok.inj h ▸ .of_failed fun _ h => h.undo halloc
    · split at h
      · exact Except.ok.inj h ▸ .of_failed fun _ h => h.undo halloc
      · rw [bind_eq_ok] at h
        obtain ⟨k', h', h⟩ := h
        obtain rfl := Except.ok.inj h
        obtain ⟨y, hy, hs⟩ := hk.current_running
        obtain ⟨ht, hf', hw⟩ := sysFork_tree hy h'
        exact .creates s.kernel.current t pid ⟨y, hy, by simp [hs]⟩ ht halloc rfl hf'
          (noNewWaiter_startTask hk.toQueueInv ht hw)

theorem sysWaitpid_effect (hk : SchedInv s.kernel) (hidle : s.kernel.current ≠ s.kernel.idle)
    {pid : ℤ} {copyOk : Bool} (h : s.sysWaitpid pid copyOk = .ok s') :
    ProcEffect s (.waitpid pid copyOk) s' := by
  unfold Processes.sysWaitpid at h
  rw [bind_eq_ok] at h
  obtain ⟨⟨r, k'⟩, h', h⟩ := h
  obtain rfl := Except.ok.inj h
  -- the caller runs, so it does not sleep while the call returns
  have hcur : ∀ t, t ∈ s.kernel.waitQueue (.child t) → t ≠ s.kernel.current := by
    rintro _ ht rfl
    exact hk.not_waiting (hk.waiting_of_mem ht)
  cases sysWaitpid_turn hk hidle h' with
  | fails value hv hr hk' =>
    subst hk'
    refine .quiet rfl (fun f hf => ?_) fun t ht => ⟨ht, if_neg (hcur t ht)⟩
    obtain ⟨m, rfl⟩ := Int.eq_negSucc_of_lt_zero hv
    rw [hr]
    exact hf
  | reaps t x n hx ht hn hreaps hr hf' hw =>
    refine .reaps t x n hx ht hn hreaps.1 hf' ?_ fun u hu => ?_
    · rw [hr]
      rfl
    · have hu' : u ∈ s.kernel.waitQueue (.child u) := by
        rw [← hw]
        exact hu
      exact ⟨hu', if_neg (hcur u hu')⟩
  | sleeps hr hf' hnone hw =>
    refine .sleeps pid hf' ?_ hnone fun t ht => ?_
    · rw [hr]
      rfl
    · rcases hw _ t ht with h' | ⟨rfl, _⟩
      · exact .inl ⟨h', if_neg (hcur t h')⟩
      · exact .inr ⟨rfl, by simp [hr]⟩

/-- **One step**: what an operation does to the tree, the pids and the sleepers. -/
theorem procStep_effect (hk : SchedInv s.kernel) (hf : s.kernel.forest.Inv) {op : ProcOp}
    (hop : op.Enabled s) (h : procStep s op = .ok s') : ProcEffect s op s' := by
  cases op with
  | sched op =>
    have h : (schedStep s.kernel op >>= fun k => Except.ok { s with kernel := k }) = .ok s' := h
    rw [bind_eq_ok] at h
    obtain ⟨k', h', h⟩ := h
    exact Except.ok.inj h ▸ schedStep_effect hk hf hop h'
  | execFn env => exact execFn_effect hk hf h
  | fork env => exact sysFork_effect hk h
  | waitpid pid copyOk => exact sysWaitpid_effect hk hop.1 h

end Steps

/-! ## The invariant in every run -/

/-- The queues, the tree and the pids of a state are in order. -/
structure ProcInv (s : Processes) : Prop where
  sched : SchedInv s.kernel
  tree : s.kernel.forest.Inv
  pids : s.kernel.forest.PidInv s.pids

theorem procStep_sched {s s' : Processes} (hk : SchedInv s.kernel) {op : ProcOp}
    (hop : op.Enabled s) (h : procStep s op = .ok s') : SchedInv s'.kernel := by
  cases op with
  | sched op =>
    have h : (schedStep s.kernel op >>= fun k => Except.ok { s with kernel := k }) = .ok s' := h
    rw [bind_eq_ok] at h
    obtain ⟨k', h', h⟩ := h
    obtain rfl := Except.ok.inj h
    exact (schedStep_safe hk hop.2).result h'
  | execFn env =>
    have h : s.execFn env = .ok s' := h
    unfold Processes.execFn at h
    split at h
    · exact Except.ok.inj h ▸ hk
    · split at h
      · exact Except.ok.inj h ▸ hk
      · rw [bind_eq_ok] at h
        obtain ⟨k', h', h⟩ := h
        obtain rfl := Except.ok.inj h
        exact (execFn_safe hk _ _).result h'
  | fork env =>
    have h : s.sysFork env = .ok s' := h
    unfold Processes.sysFork at h
    split at h
    · exact Except.ok.inj h ▸ hk
    · split at h
      · exact Except.ok.inj h ▸ hk
      · split at h
        · exact Except.ok.inj h ▸ hk
        · rw [bind_eq_ok] at h
          obtain ⟨k', h', h⟩ := h
          obtain rfl := Except.ok.inj h
          exact (sysFork_safe hk _ _).result h'
  | waitpid pid copyOk =>
    have h : s.sysWaitpid pid copyOk = .ok s' := h
    unfold Processes.sysWaitpid at h
    rw [bind_eq_ok] at h
    obtain ⟨⟨r, k'⟩, h', h⟩ := h
    obtain rfl := Except.ok.inj h
    exact (sysWaitpid_safe hk hop.1 pid copyOk).result h'

/-- An operation keeps the tree and the pids in order. -/
theorem ProcEffect.inv {s s' : Processes} {op : ProcOp} (hf : s.kernel.forest.Inv)
    (hp : s.kernel.forest.PidInv s.pids) (h : ProcEffect s op s') :
    s'.kernel.forest.Inv ∧ s'.kernel.forest.PidInv s'.pids := by
  cases h with
  | quiet hf' hpids _ =>
    rw [hf']
    exact ⟨hf, hpids _ hp⟩
  | creates p t pid hparent ht hpid hpids hf' _ =>
    obtain ⟨y, hy, hs⟩ := hparent
    have ht' := Kernel.forest_none ht
    have htd : t ≠ s.kernel.forest.dummy := by
      intro heq
      obtain ⟨n, hn, _⟩ := hf.root _ (.inr (.inr rfl))
      rw [← heq, ht'] at hn
      cases hn
    rw [hf', hpids]
    exact ⟨hf.create ht' (Kernel.forest_node hy) (by simpa [Task.node] using hs),
      hp.create ht' htd hpid⟩
  | exits x p _ hx hroot _ hf' hpids _ _ =>
    rw [hf', hpids]
    exact ⟨hf.exit (Kernel.forest_node hx) hroot, hp.exit _⟩
  | reaps t x n hx ht hn hz hf' hpids _ =>
    have hroot := hf.not_root_of_child (Kernel.forest_node hx) ht
    rw [hf', hpids]
    exact ⟨hf.reap (Kernel.forest_node hx) ht hn hz,
      hp.reap hn fun heq => hroot (.inr (.inr heq))⟩
  | sleeps pid hf' hpids _ _ =>
    rw [hf', hpids]
    exact ⟨hf, hp⟩

/-- A task of the state that `task_init_process` leaves. -/
theorem initProcess_node {dummy idle kitoxD t : TaskId} {n : Node}
    (h : (Kernel.initProcess dummy idle kitoxD).forest.node t = some n) :
    (t = dummy ∨ t = idle ∨ t = kitoxD) ∧ n.children = [] ∧ n.realParent = none ∧
      n.zombie = false ∧ n.pid = if t = dummy then 0 else if t = idle then 0 else 1 := by
  obtain ⟨x, hx, rfl⟩ := Kernel.exists_task h
  unfold Kernel.initProcess at hx
  dsimp only at hx
  by_cases htd : t = dummy
  · rw [if_pos htd] at hx
    obtain rfl := Option.some.inj hx
    exact ⟨.inl htd, rfl, rfl, rfl, by simp [htd]; rfl⟩
  · rw [if_neg htd] at hx
    by_cases hti : t = idle
    · rw [if_pos hti] at hx
      obtain rfl := Option.some.inj hx
      exact ⟨.inr (.inl hti), rfl, rfl, rfl, by simp [hti]; rfl⟩
    · rw [if_neg hti] at hx
      by_cases htk : t = kitoxD
      · rw [if_pos htk] at hx
        obtain rfl := Option.some.inj hx
        exact ⟨.inr (.inr htk), rfl, rfl, rfl, by simp [htd, hti]; rfl⟩
      · rw [if_neg htk] at hx
        cases hx

theorem initProcess_some {dummy idle kitoxD t : TaskId}
    (h : t = dummy ∨ t = idle ∨ t = kitoxD) :
    ∃ n, (Kernel.initProcess dummy idle kitoxD).forest.node t = some n := by
  unfold Kernel.forest Kernel.initProcess
  dsimp only
  split
  · exact ⟨_, rfl⟩
  · split
    · exact ⟨_, rfl⟩
    · split
      · exact ⟨_, rfl⟩
      · rename_i h₁ h₂ h₃
        simp [h₁, h₂, h₃] at h

theorem initProcess_tree {dummy idle kitoxD : TaskId} (hdi : dummy ≠ idle)
    (hdk : dummy ≠ kitoxD) (hik : idle ≠ kitoxD) :
    (Kernel.initProcess dummy idle kitoxD).forest.Inv where
  child p n hp c hc := by
    rw [(initProcess_node hp).2.1] at hc
    cases hc
  nodup p n hp := by
    rw [(initProcess_node hp).2.1]
    exact List.nodup_nil
  irrefl p n hp := by
    rw [(initProcess_node hp).2.1]
    exact List.not_mem_nil
  parent t n ht hroot := by
    refine absurd ?_ hroot
    rcases (initProcess_node ht).1 with h | h | h
    · exact .inr (.inr h)
    · exact .inl h
    · exact .inr (.inl h)
  root t ht := by
    obtain ⟨n, hn⟩ : ∃ n, (Kernel.initProcess dummy idle kitoxD).forest.node t = some n := by
      rcases ht with h | h | h
      · exact initProcess_some (.inr (.inl h))
      · exact initProcess_some (.inr (.inr h))
      · exact initProcess_some (.inl h)
    obtain ⟨_, _, hr, hz, _⟩ := initProcess_node hn
    exact ⟨n, hn, hr, hz⟩
  zombie t n ht _ := (initProcess_node ht).2.1
  distinct := ⟨hdi.symm, hdk.symm, hik⟩

/-- The first two pids are 0 and 1. -/
theorem initPids_spec (garbage : ℕ → BitVec 8) :
    (initPids garbage).Valid ∧ ∀ id, (initPids garbage).Held id ↔ id = 1 ∨ id = 0 := by
  have hv₀ : (idManagerCreate pidMax garbage).Valid := IdManager.create_valid (by decide) garbage
  have h₀ : (idManagerAlloc (idManagerCreate pidMax garbage)).1 = some 0 := rfl
  obtain ⟨_, _, hheld₀⟩ := IdManager.alloc_some hv₀ h₀
  have hv₁ := IdManager.alloc_valid hv₀
  generalize hm : (idManagerAlloc (idManagerCreate pidMax garbage)).2 = mgr at hheld₀ hv₁
  have hlt : 1 < mgr.bitmap.nbBits := by
    rw [← hm, IdManager.alloc_nbBits]
    exact (by decide : 1 < pidMax)
  -- the second pid is the smallest one that is not held
  have h₁ : (idManagerAlloc mgr).1 = some 1 := by
    cases hn : mgr.nextFree with
    | none =>
      have hall := hv₁.next_none hn 1 hlt
      rw [hheld₀] at hall
      rcases hall with h | h
      · cases h
      · exact absurd h (IdManager.create_held pidMax garbage)
    | some n =>
      obtain ⟨_, hfree, hbelow⟩ := hv₁.next_some n hn
      have hn0 : n ≠ 0 := fun h => hfree ((hheld₀ n).mpr (.inl h))
      have hn1 : ¬ 1 < n := by
        intro h
        rcases (hheld₀ 1).mp (hbelow 1 h) with h' | h'
        · cases h'
        · exact IdManager.create_held pidMax garbage h'
      obtain rfl : n = 1 := by omega
      simp [idManagerAlloc, hn]
  obtain ⟨_, _, hheld₁⟩ := IdManager.alloc_some hv₁ h₁
  unfold initPids
  rw [hm]
  refine ⟨IdManager.alloc_valid hv₁, fun id => ?_⟩
  rw [hheld₁, hheld₀]
  simp [IdManager.create_held]

theorem initProcess_pids {dummy idle kitoxD : TaskId} (hdi : dummy ≠ idle)
    (hdk : dummy ≠ kitoxD) (hik : idle ≠ kitoxD) (garbage : ℕ → BitVec 8) :
    (Kernel.initProcess dummy idle kitoxD).forest.PidInv (initPids garbage) := by
  obtain ⟨hvalid, hheld⟩ := initPids_spec garbage
  refine ⟨hvalid, fun a b x y hx hy ha hb hxy => ?_, fun id => ?_⟩
  · obtain ⟨hat, _, _, _, hxp⟩ := initProcess_node hx
    obtain ⟨hbt, _, _, _, hyp⟩ := initProcess_node hy
    have ha : a ≠ dummy := ha
    have hb : b ≠ dummy := hb
    rw [if_neg ha] at hxp
    rw [if_neg hb] at hyp
    rw [hxp, hyp] at hxy
    by_cases hai : a = idle
    · by_cases hbi : b = idle
      · rw [hai, hbi]
      · simp [hai, hbi] at hxy
    · by_cases hbi : b = idle
      · simp [hai, hbi] at hxy
      · rw [(hat.resolve_left ha).resolve_left hai, (hbt.resolve_left hb).resolve_left hbi]
  · rw [hheld]
    constructor
    · rintro (rfl | rfl)
      · obtain ⟨n, hn⟩ := initProcess_some (.inr (.inr (rfl : kitoxD = kitoxD)))
        refine ⟨kitoxD, n, hdk.symm, hn, ?_⟩
        rw [(initProcess_node hn).2.2.2.2, if_neg hdk.symm, if_neg hik.symm]
      · obtain ⟨n, hn⟩ := initProcess_some (.inr (.inl (rfl : idle = idle)))
        refine ⟨idle, n, hdi.symm, hn, ?_⟩
        rw [(initProcess_node hn).2.2.2.2, if_neg hdi.symm, if_pos rfl]
    · rintro ⟨t, n, htd, hn, rfl⟩
      have htd : t ≠ dummy := htd
      rw [(initProcess_node hn).2.2.2.2, if_neg htd]
      split
      · exact .inr rfl
      · exact .inl rfl

/-- **Every run**. -/
theorem procSystem_inv {s : Processes} (h : procSystem.Reachable s) : ProcInv s := by
  refine h.invariant ?_ ?_
  · rintro s ⟨garbage, ⟨dummy, idle, kitoxD, hdi, hdk, hik, hk⟩, hpids, _⟩
    refine ⟨?_, ?_, ?_⟩
    · rw [hk]
      exact initProcess_schedInv hdi hdk hik
    · rw [hk]
      exact initProcess_tree hdi hdk hik
    · rw [hk, hpids]
      exact initProcess_pids hdi hdk hik garbage
  · intro s op s' hs ⟨hop, hstep⟩
    have heff := procStep_effect hs.sched hs.tree hop hstep
    obtain ⟨hf, hp⟩ := heff.inv hs.tree hs.pids
    exact ⟨procStep_sched hs.sched hop hstep, hf, hp⟩

/-! ## Integrity of the tree -/

/-- The law of the process tree. -/
structure FamilyLaw (s : Processes) : Prop where
  /-- A task occurs once, in the list of its parent only, and the parent is alive. -/
  placed : ∀ t x, s.kernel.tasks t = some x → t ≠ s.kernel.idle → t ≠ s.kernel.kitoxD →
    t ≠ s.kernel.dummy → ∃ p y, x.realParent = some p ∧ x.parent = some p ∧
      s.kernel.tasks p = some y ∧ y.state ≠ .zombie ∧ y.children.count t = 1 ∧
      ∀ q z, s.kernel.tasks q = some z → t ∈ z.children → q = p
  /-- A child names the task in whose list it is. -/
  children : ∀ p y, s.kernel.tasks p = some y → ∀ c ∈ y.children,
    ∃ x, s.kernel.tasks c = some x ∧ x.realParent = some p
  zombie : ∀ t x, s.kernel.tasks t = some x → x.state = .zombie → x.children = []
  pids_distinct : ∀ t u x y, s.kernel.tasks t = some x → s.kernel.tasks u = some y →
    t ≠ s.kernel.dummy → u ≠ s.kernel.dummy → x.pid = y.pid → t = u
  pids_held : ∀ id, s.pids.bitmap.check id = true ↔
    ∃ t x, t ≠ s.kernel.dummy ∧ s.kernel.tasks t = some x ∧ x.pid = id

theorem ProcInv.familyLaw {s : Processes} (hs : ProcInv s) : FamilyLaw s where
  placed t x hx hidle hkitox hdummy := by
    have hroot : ¬ s.kernel.forest.Root t := by
      rintro (h | h | h)
      · exact hidle h
      · exact hkitox h
      · exact hdummy h
    obtain ⟨p, m, hr, hp, hm, hz, hmem⟩ := hs.tree.parent t x.node (Kernel.forest_node hx) hroot
    obtain ⟨y, hy, rfl⟩ := Kernel.exists_task hm
    refine ⟨p, y, hr, hp, hy, by simpa [Task.node] using hz,
      List.count_eq_one_of_mem (hs.tree.nodup p _ hm) hmem, fun q z hz' htz => ?_⟩
    exact hs.tree.child_unique hm hmem (Kernel.forest_node hz') htz
  children p y hy c hc := by
    obtain ⟨m, hm, hr⟩ := hs.tree.child p y.node (Kernel.forest_node hy) c hc
    obtain ⟨x, hx, rfl⟩ := Kernel.exists_task hm
    exact ⟨x, hx, hr⟩
  zombie t x hx hz := hs.tree.zombie t x.node (Kernel.forest_node hx) (Task.node_zombie.mpr hz)
  pids_distinct t u x y hx hy ht hu hxy :=
    hs.pids.inj t u x.node y.node (Kernel.forest_node hx) (Kernel.forest_node hy) ht hu hxy
  pids_held id := by
    refine (hs.pids.held id).trans ⟨?_, ?_⟩
    · rintro ⟨t, n, ht, hn, hid⟩
      obtain ⟨x, hx, rfl⟩ := Kernel.exists_task hn
      exact ⟨t, x, ht, hx, hid⟩
    · rintro ⟨t, x, ht, hx, hid⟩
      exact ⟨t, x.node, ht, Kernel.forest_node hx, hid⟩

/-- In every reachable state the tree and the pids obey the law; so the parent that `do_exit` reads
is an unreleased task, and the next pid belongs to no task. -/
theorem processTree_integrity {s : Processes} (h : procSystem.Reachable s) :
    FamilyLaw s ∧
      (s.kernel.current ≠ s.kernel.idle → s.kernel.current ≠ s.kernel.kitoxD →
        s.kernel.current ≠ s.kernel.dummy → ∃ x p y, s.kernel.tasks s.kernel.current = some x ∧
          x.realParent = some p ∧ s.kernel.tasks p = some y) ∧
      ∀ id, (idManagerAlloc s.pids).1 = some id → ∀ t x, t ≠ s.kernel.dummy →
        s.kernel.tasks t = some x → x.pid ≠ id := by
  have hs := procSystem_inv h
  have hlaw := hs.familyLaw
  refine ⟨hlaw, fun hidle hkitox hdummy => ?_, fun id hid t x ht hx hpid => ?_⟩
  · obtain ⟨x, hx, _⟩ := hs.sched.current_running
    obtain ⟨p, y, hr, _, hy, _⟩ := hlaw.placed _ x hx hidle hkitox hdummy
    exact ⟨x, p, y, hx, hr, hy⟩
  · obtain ⟨_, hfree, _⟩ := IdManager.alloc_some hs.pids.valid hid
    exact hfree ((hs.pids.held id).mpr ⟨t, x.node, ht, Kernel.forest_node hx, hpid⟩)

/-- The state after `task_init_process` with the boot thread at 0, `idle` at 1, `kitoxD` at 2. -/
def bootProcesses : Processes where
  kernel := Kernel.initProcess 0 1 2
  pids := initPids fun _ => 0xA5
  waitArg _ := none

theorem bootProcesses_init : AfterInit bootProcesses :=
  ⟨_, ⟨0, 1, 2, by decide, by decide, by decide, rfl⟩, rfl, fun _ => rfl⟩

/-- A `fork` that finds all it needs, with the child at `t`. -/
def forkAt (t : TaskId) : ProcOp :=
  .fork { addr := some t, cr3 := true, kernelStack := true, pageCopy := true }

/-- `kitoxD` forks, fails to fork again, and waits; its child forks, the grandchild exits and is
reaped, and `exec_fn` makes a task, which gets the pid of the grandchild. -/
def reapRun : Option Processes :=
  [.sched .schedule, forkAt 3,
    .fork { addr := some 4, cr3 := true, kernelStack := true, pageCopy := false },
    .waitpid (-1) true, forkAt 4, .sched .schedule, .sched (.exit 7), .waitpid 3 true,
    .execFn { text := true, addr := some 6, kstack := true, trampoline := true,
              userspace := true }].foldlM
    (System.checkedStep (fun s op => ProcOp.Enabled s op) procStep) bootProcesses

theorem reapRun_view : reapRun.map (fun s => decide (s.kernel.current = 3 ∧
    (s.kernel.tasks 2).map Task.children = some [6, 3] ∧ (s.kernel.tasks 4).isNone ∧
    (s.kernel.tasks 6).map Task.pid = some 3 ∧
    (List.range 6).filter s.pids.bitmap.check = [0, 1, 2, 3])) = some true := by
  decide

/-- At the end of that run the child, which is current, and the new task hang below `kitoxD`, and
the next pid is none of theirs. -/
theorem processTree_integrity_reapRun : ∃ s, procSystem.Reachable s ∧ s.kernel.current = 3 ∧
    (s.kernel.tasks 2).map Task.children = some [6, 3] ∧
    (List.range 6).filter s.pids.bitmap.check = [0, 1, 2, 3] ∧ FamilyLaw s := by
  have hview := reapRun_view
  rw [Option.map_eq_some_iff] at hview
  obtain ⟨s, hs, hview⟩ := hview
  obtain ⟨hcur, hchildren, _, _, hpids⟩ := of_decide_eq_true hview
  have hinit : procSystem.Reachable bootProcesses := .init bootProcesses_init
  have hreach : procSystem.Reachable s := System.Reachable.foldlM_restrict hinit hs
  exact ⟨s, hreach, hcur, hchildren, hpids, (processTree_integrity hreach).1⟩

end Kfs.Proc
