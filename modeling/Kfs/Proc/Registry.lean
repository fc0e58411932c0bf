import Kfs.Proc.TreeRuns

/-!
# The registry of tasks

`info_queue` of `src/proc/task.c`, `task_find_by_pid` and `kill_pid`, over the runs of
`Kfs.Proc.Processes` with `execve` beside them. The queue is the list of the tasks whose `info_node`
is linked in it; the user ids, which only `signal_check_perm` reads, are kept beside the tasks.

`task_get_new` links a task into the queue and `task_release` unlinks it. `task_clone` only makes the
node of the copy point to itself, and unlinking such a node does nothing.
-/

namespace Kfs.Proc

open Kfs.Lib Kfs.Utils

/-! ## State and operations -/

/-- The processes, `info_queue` and the user ids. -/
structure Registry where
  proc : Processes
  infoQueue : List TaskId
  uid : TaskId → ℕ

/-- What `sys_execve` finds when it allocates. -/
structure ExecveEnv where
  /-- `section_init_from_buffer` of the text. -/
  text : Bool
  /-- `userspace_create_new`. -/
  userspace : Bool
  deriving DecidableEq, Repr

def mokSentinel : ℤ := 2 -- MOK_SENTINEL

/-- `sys_execve`, which leaves the pid and the links of its task alone. -/
def Registry.sysExecve (index : ℤ) (env : ExecveEnv) (r : Registry) : Kern Registry :=
  if index < 0 ∨ index ≥ mokSentinel then .ok r
  else if !env.text then .ok r
  else if !env.userspace then .error (.kpanic "Failed to create new clean userspace")
  else .ok r

/-- `exec_fn`: `task_get_new` links the task at the end of `info_queue`. -/
def Registry.execFn (env : NewTaskEnv) (r : Registry) : Kern Registry := do
  let proc ← r.proc.execFn env
  match env.text, (taskGetNew env r.proc.pids).1 with
  | true, some (t, _) => .ok {
      proc := proc
      infoQueue := r.infoQueue ++ [t]
      uid := fun u => if u = t then 0 else r.uid u }
  | _, _ => .ok { r with proc := proc }

/-- `sys_fork`: the `info_node` of the copy is linked to itself. -/
def Registry.sysFork (env : ForkEnv) (r : Registry) : Kern Registry := do
  let proc ← r.proc.sysFork env
  match (taskClone env r.proc.pids).1 with
  | some (t, _) => .ok { r with
      proc := proc
      uid := fun u => if u = t then r.uid r.proc.kernel.current else r.uid u }
  | none => .ok { r with proc := proc }

/-- The child that `sys_waitpid` releases. -/
def releasedChild (pid : ℤ) (k : Kernel) : WaitResult → Option TaskId
  | .ret (.ofNat _) => (k.tasks k.current).bind fun cur => findZombieChild cur.children pid k
  | _ => none

/-- One turn of the loop of `sys_waitpid`: `task_release` unlinks the task from `info_queue`. -/
def Registry.sysWaitpid (pid : ℤ) (copyOk : Bool) (r : Registry) : Kern Registry := do
  let proc ← r.proc.sysWaitpid pid copyOk
  let (result, _) ← Proc.sysWaitpid pid copyOk r.proc.kernel
  match releasedChild pid r.proc.kernel result with
  | some t => .ok { r with proc := proc, infoQueue := r.infoQueue.erase t }
  | none => .ok { r with proc := proc }

/-- The operations. -/
inductive RegistryOp where
  | proc (op : ProcOp)
  | execve (index : ℤ) (env : ExecveEnv)
  deriving DecidableEq, Repr

/-- What an operation does. -/
def registryStep (r : Registry) : RegistryOp → Kern Registry
  | .proc (.sched op) => do
    let proc ← procStep r.proc (.sched op)
    .ok { r with proc := proc }
  | .proc (.execFn env) => r.execFn env
  | .proc (.fork env) => r.sysFork env
  | .proc (.waitpid pid copyOk) => r.sysWaitpid pid copyOk
  | .execve index env => r.sysExecve index env

/-- `idle` and the boot thread make no system call. -/
def RegistryOp.Enabled (r : Registry) : RegistryOp → Prop
  | .proc op => op.Enabled r.proc
  | .execve _ _ => r.proc.kernel.current ≠ r.proc.kernel.idle ∧
      r.proc.kernel.current ≠ r.proc.kernel.dummy

instance (r : Registry) (op : RegistryOp) : Decidable (op.Enabled r) :=
  match op with
  | .proc op => inferInstanceAs (Decidable (op.Enabled r.proc))
  | .execve _ _ => inferInstanceAs (Decidable (_ ∧ _))

/-- The states that `task_init_process` may leave: `idle` and `kitoxD` were made by
`task_get_new`. -/
def Registry.AfterInit (r : Registry) : Prop :=
  Proc.AfterInit r.proc ∧ r.infoQueue = [r.proc.kernel.idle, r.proc.kernel.kitoxD] ∧
    ∀ t, r.uid t = 0

/-- The registry as a transition system. -/
def registrySystem : System Registry RegistryOp :=
  (System.ofStep Registry.AfterInit registryStep).restrict fun r op => op.Enabled r

/-! ## Looking a task up -/

/-- The loop of `task_find_by_pid`. -/
def findByPid (k : Kernel) (pid : ℤ) : List TaskId → Kern (Option TaskId)
  | [] => .ok none
  | t :: rest => do
    let x ← k.getTask t
    if (x.pid : ℤ) = pid then .ok (some t) else findByPid k pid rest

/-- `task_find_by_pid`. -/
def taskFindByPid (pid : ℤ) (r : Registry) : Kern (Option TaskId) :=
  findByPid r.proc.kernel pid r.infoQueue

/-- `signal_is_valid`. -/
def signalIsValid (sig : ℤ) : Bool := 0 < sig && sig < sigSentinel

/-- `signal_check_perm`; there always is a current task. -/
def signalCheckPerm (target : TaskId) (r : Registry) : Bool :=
  r.uid r.proc.kernel.current = 0 || r.uid r.proc.kernel.current = r.uid target

/-- `kill_pid`. -/
def killPid (pid sig : ℤ) (r : Registry) : Kern (ℤ × Registry) := do
  match ← taskFindByPid pid r with
  | none => .ok (-3, r)
  | some target =>
    if !signalIsValid sig then .ok (-22, r)
    else if !signalCheckPerm target r then .ok (-1, r)
    else do
      let k ← signalSend sig.toNat target r.proc.kernel
      .ok (0, { r with proc := { r.proc with kernel := k } })

/-- The tasks that `task_get_new` or `task_clone` has made and that are not released. -/
def Registry.Unreleased (r : Registry) (t : TaskId) (x : Task) : Prop :=
  r.proc.kernel.tasks t = some x ∧ t ≠ r.proc.kernel.dummy

/-- Every process is addressable by its pid. -/
structure Registry.Addressable (r : Registry) : Prop where
  found : ∀ t x, r.Unreleased t x → taskFindByPid x.pid r = .ok (some t)
  missing : ∀ pid : ℤ, (∀ t x, r.Unreleased t x → (x.pid : ℤ) ≠ pid) →
    taskFindByPid pid r = .ok none
  /-- A permitted signal is sent to exactly the task with the pid. -/
  kill : ∀ t x sig, r.Unreleased t x → signalIsValid sig = true → signalCheckPerm t r = true →
    killPid x.pid sig r = (signalSend sig.toNat t r.proc.kernel).map fun k =>
      (0, { r with proc := { r.proc with kernel := k } })
  /-- No released task is in the queue. -/
  alive : ∀ t ∈ r.infoQueue, ∃ x, r.Unreleased t x

/-! ## What the operations do to the set of tasks -/

section Tasks

variable {s s' : Processes} {t u : TaskId}

/-- The task exists, in the tree. -/
def Kernel.Has (k : Kernel) (t : TaskId) : Prop := ∃ n, k.forest.node t = some n

theorem Kernel.has_iff {k : Kernel} : k.Has t ↔ ∃ x, k.tasks t = some x := by
  constructor
  · rintro ⟨n, hn⟩
    obtain ⟨x, hx, -⟩ := Kernel.exists_task hn
    exact ⟨x, hx⟩
  · rintro ⟨x, hx⟩
    exact ⟨x.node, Kernel.forest_node hx⟩

theorem has_create {f : Forest} {p : TaskId} {pid : ℕ} (ht : f.node t = none) :
    (∃ n, (f.create p t pid).node u = some n) ↔ u = t ∨ ∃ n, f.node u = some n := by
  constructor
  · rintro ⟨n, hn⟩
    rcases Forest.create_cases hn with ⟨h, -⟩ | ⟨-, -, m, hm, -⟩ | ⟨-, -, hm⟩
    · exact Or.inl h
    · exact Or.inr ⟨m, hm⟩
    · exact Or.inr ⟨n, hm⟩
  · rintro (rfl | ⟨n, hn⟩)
    · exact ⟨_, if_pos rfl⟩
    · obtain ⟨m, hm, -⟩ := Forest.create_of_some (p := p) pid ht hn
      exact ⟨m, hm⟩

theorem has_exit {f : Forest} {cs : List TaskId} :
    (∃ n, (f.exit t cs).node u = some n) ↔ ∃ n, f.node u = some n := by
  unfold Forest.exit
  dsimp only
  split
  · simp [Option.map_eq_some_iff]
  · simp [Option.map_eq_some_iff]

theorem has_reap {f : Forest} {p : TaskId} :
    (∃ n, (f.reap p t).node u = some n) ↔ u ≠ t ∧ ∃ n, f.node u = some n := by
  unfold Forest.reap
  dsimp only
  split
  · next h => simp [h]
  · next h =>
    split
    · simp [h, Option.map_eq_some_iff]
    · simp [h]

/-- An operation that leaves the pids alone makes and releases no task. -/
theorem ProcEffect.has_iff {op : ProcOp} (h : ProcEffect s op s') (hs : ProcInv s)
    (hpids : s'.pids = s.pids) :
    (∀ u, s'.kernel.Has u ↔ s.kernel.Has u) ∧ s'.kernel.dummy = s.kernel.dummy := by
  have hdummy : ∀ {f : Forest}, s'.kernel.forest = f → s'.kernel.dummy = f.dummy := by
    rintro f rfl
    rfl
  cases h with
  | quiet hf _ _ => exact ⟨fun u => by unfold Kernel.Has; rw [hf], hdummy hf⟩
  | creates p t pid _ _ hpid hpids' _ _ =>
    -- the new pid is held now and was not before
    obtain ⟨-, hfresh, hheld⟩ := IdManager.alloc_some hs.pids.valid hpid
    have hnow : s.pids.Held pid := by
      rw [← hpids, hpids']
      exact (hheld pid).mpr (Or.inl rfl)
    exact absurd hnow hfresh
  | exits x p _ _ _ _ hf _ _ _ =>
    exact ⟨fun u => by unfold Kernel.Has; rw [hf]; exact has_exit, hdummy hf⟩
  | reaps t x n hx ht hn _ _ hpids' _ =>
    have hroot := hs.tree.not_root_of_child (Kernel.forest_node hx) ht
    have hheld : s.pids.Held n.pid :=
      (hs.pids.held n.pid).mpr ⟨t, n, fun heq => hroot (Or.inr (Or.inr heq)), hn, rfl⟩
    have hgone := (IdManager.free_held (IdManager.Held.lt hheld) n.pid).not.mpr fun h => h.1 rfl
    rw [← hpids', hpids] at hgone
    exact absurd hheld hgone
  | sleeps pid hf _ _ _ => exact ⟨fun u => by unfold Kernel.Has; rw [hf], hdummy hf⟩

/-- A call that returns a pid has released the dead child it found. -/
theorem sysWaitpid_released {pid : ℤ} {copyOk : Bool} {id : ℕ} {k k' : Kernel}
    (h : sysWaitpid pid copyOk k = .ok (.ret (.ofNat id), k')) :
    ∃ t, releasedChild pid k (.ret (.ofNat id)) = some t ∧
      k'.forest = k.forest.reap k.current t := by
  unfold sysWaitpid at h
  split at h
  · cases Except.ok.inj h
  · rw [bind_eq_ok] at h
    obtain ⟨x, hx, h⟩ := h
    have hx := getTask_ok hx
    have hblock : (waitForChild k >>= fun k => Except.ok (WaitResult.blocked, k)) ≠
        .ok (.ret (.ofNat id), k') := by
      intro h
      rw [bind_eq_ok] at h
      obtain ⟨_, _, h⟩ := h
      cases Except.ok.inj h
    split at h
    · split at h
      · cases Except.ok.inj h
      · exact absurd h hblock
    · split at h
      · cases Except.ok.inj h
      · split at h
        · next z hz =>
          rw [bind_eq_ok] at h
          obtain ⟨c, hc, h⟩ := h
          split at h
          · cases Except.ok.inj h
          · rw [bind_eq_ok] at h
            obtain ⟨k₁, h₁, h₂⟩ := h
            obtain ⟨-, rfl⟩ := Prod.mk.inj (Except.ok.inj h₂)
            refine ⟨z, ?_, (taskRelease_forest h₁).1⟩
            unfold releasedChild
            rw [hx, Option.bind_some, hz]
        · exact absurd h hblock

end Tasks

/-! ## The invariant -/

/-- The fork finds all it needs. -/
def ForkEnv.Succeeds (env : ForkEnv) (pids : IdManager) : Prop :=
  env.addr.isSome ∧ env.cr3 ∧ env.kernelStack ∧ env.pageCopy ∧ pids.nextFree.isSome

/-- The operation is not a fork that succeeds. -/
def RegistryOp.NoFork (r : Registry) : RegistryOp → Prop
  | .proc (.fork env) => ¬ env.Succeeds r.proc.pids
  | _ => True

/-- The queue holds every task but the boot thread once. -/
structure RegistryInv (r : Registry) : Prop where
  proc : ProcInv r.proc
  nodup : r.infoQueue.Nodup
  mem : ∀ t, t ∈ r.infoQueue ↔ r.proc.kernel.Has t ∧ t ≠ r.proc.kernel.dummy

section Invariant

variable {r r' : Registry}

theorem ProcInv.step {s s' : Processes} {op : ProcOp} (h : ProcInv s) (hop : op.Enabled s)
    (hstep : procStep s op = .ok s') : ProcInv s' := by
  obtain ⟨hf, hp⟩ := (procStep_effect h.sched h.tree hop hstep).inv h.tree h.pids
  exact ⟨procStep_sched h.sched hop hstep, hf, hp⟩

/-- The queue stays right while the set of tasks does not change. -/
theorem RegistryInv.of_same (h : RegistryInv r) (hproc : ProcInv r'.proc)
    (hqueue : r'.infoQueue = r.infoQueue)
    (hhas : ∀ u, r'.proc.kernel.Has u ↔ r.proc.kernel.Has u)
    (hdummy : r'.proc.kernel.dummy = r.proc.kernel.dummy) : RegistryInv r' := by
  refine ⟨hproc, hqueue ▸ h.nodup, fun t => ?_⟩
  rw [hqueue, h.mem, hhas, hdummy]

theorem RegistryInv.dummy (h : RegistryInv r) : r.proc.kernel.Has r.proc.kernel.dummy := by
  obtain ⟨n, hn, -⟩ := h.proc.tree.root _ (Or.inr (Or.inr rfl))
  exact ⟨n, hn⟩

theorem RegistryInv.execFn (h : RegistryInv r) {env : NewTaskEnv}
    (hstep : r.execFn env = .ok r') : RegistryInv r' := by
  unfold Registry.execFn at hstep
  rw [bind_eq_ok] at hstep
  obtain ⟨proc, hproc, hstep⟩ := hstep
  have henabled : (ProcOp.execFn env).Enabled r.proc := trivial
  have hinv : ProcInv proc := h.proc.step henabled hproc
  unfold Processes.execFn at hproc
  -- A task was made, or the call failed before it had one.
  split at hstep
  · next t pid htext hnew =>
    obtain rfl := Except.ok.inj hstep
    rw [htext, if_neg (by decide)] at hproc
    rw [show taskGetNew env r.proc.pids = (some (t, pid), (taskGetNew env r.proc.pids).2) from
      Prod.ext hnew rfl] at hproc
    dsimp only at hproc
    rw [bind_eq_ok] at hproc
    obtain ⟨k, hk, hproc⟩ := hproc
    obtain rfl := Except.ok.inj hproc
    obtain ⟨n, hn, -⟩ := h.proc.tree.root r.proc.kernel.kitoxD (Or.inr (Or.inl rfl))
    obtain ⟨y, hy, -⟩ := Kernel.exists_task hn
    obtain ⟨hfree, hforest, -⟩ := execFn_tree hy hk
    -- Its descriptor was not in the forest, so it was not in the queue.
    have hnone := Kernel.forest_none hfree
    have hnew : ¬ r.proc.kernel.Has t := by
      rintro ⟨m, hm⟩
      rw [hnone] at hm
      cases hm
    have hdummy : k.dummy = r.proc.kernel.dummy := congrArg Forest.dummy hforest
    have htd : t ≠ r.proc.kernel.dummy := fun heq => hnew (heq ▸ h.dummy)
    refine ⟨hinv, ?_, fun u => ?_⟩
    · apply List.Nodup.append h.nodup (List.nodup_singleton t)
      rw [List.disjoint_singleton]
      exact fun hmem => hnew ((h.mem t).mp hmem).1
    · show u ∈ r.infoQueue ++ [t] ↔ k.Has u ∧ u ≠ k.dummy
      unfold Kernel.Has
      rw [List.mem_append, List.mem_singleton, h.mem, hforest, has_create hnone]
      constructor
      · rintro (⟨hu, hne⟩ | rfl)
        · exact ⟨Or.inr hu, hdummy ▸ hne⟩
        · exact ⟨Or.inl rfl, hdummy ▸ htd⟩
      · rintro ⟨rfl | hu, hne⟩
        · exact Or.inr rfl
        · exact Or.inl ⟨hu, hdummy ▸ hne⟩
  · next hnone =>
    obtain rfl := Except.ok.inj hstep
    -- Nothing but the pids can have changed.
    have hkernel : proc.kernel = r.proc.kernel := by
      split at hproc
      · rw [← Except.ok.inj hproc]
      · next htext =>
        split at hproc
        · rw [← Except.ok.inj hproc]
        · next t pid pids hnew =>
          rw [hnew] at hnone
          exact absurd rfl (hnone t pid (by simpa using htext))
    exact h.of_same hinv rfl (fun u => by rw [hkernel]) (by rw [hkernel])

/-- A fork that fails changes the pid manager at most. -/
theorem sysFork_fails {s s' : Processes} {env : ForkEnv} (hno : ¬ env.Succeeds s.pids)
    (h : s.sysFork env = .ok s') : s'.kernel = s.kernel := by
  unfold Processes.sysFork taskClone at h
  cases haddr : env.addr with
  | none =>
    rw [haddr] at h
    rw [← Except.ok.inj h]
  | some t =>
    rw [haddr] at h
    cases hnext : s.pids.nextFree with
    | none =>
      have halloc : idManagerAlloc s.pids = (none, s.pids) := by
        unfold idManagerAlloc
        rw [hnext]
      rw [halloc] at h
      rw [← Except.ok.inj h]
    | some n =>
      cases halloc : idManagerAlloc s.pids with
      | mk pid pids =>
        rw [halloc] at h
        cases pid with
        | none => rw [← Except.ok.inj h]
        | some pid =>
          cases hcr3 : env.cr3 with
          | false =>
            simp only [hcr3] at h
            rw [← Except.ok.inj h]
          | true =>
            cases hstack : env.kernelStack with
            | false =>
              simp only [hcr3, hstack] at h
              rw [← Except.ok.inj h]
            | true =>
              cases hcopy : env.pageCopy with
              | false =>
                simp only [hcr3, hstack, hcopy] at h
                rw [← Except.ok.inj h]
              | true =>
                refine absurd ⟨?_, hcr3, hstack, hcopy, ?_⟩ hno
                · rw [haddr]
                  rfl
                · rw [hnext]
                  rfl

theorem RegistryInv.sysFork (h : RegistryInv r) {env : ForkEnv}
    (hop : (ProcOp.fork env).Enabled r.proc) (hno : ¬ env.Succeeds r.proc.pids)
    (hstep : r.sysFork env = .ok r') : RegistryInv r' := by
  unfold Registry.sysFork at hstep
  rw [bind_eq_ok] at hstep
  obtain ⟨proc, hproc, hstep⟩ := hstep
  have hinv : ProcInv proc := h.proc.step hop hproc
  have hkernel := sysFork_fails hno hproc
  split at hstep
  · obtain rfl := Except.ok.inj hstep
    exact h.of_same hinv rfl (fun u => by rw [hkernel]) (by rw [hkernel])
  · obtain rfl := Except.ok.inj hstep
    exact h.of_same hinv rfl (fun u => by rw [hkernel]) (by rw [hkernel])

theorem RegistryInv.sysWaitpid (h : RegistryInv r) {pid : ℤ} {copyOk : Bool}
    (hop : (ProcOp.waitpid pid copyOk).Enabled r.proc)
    (hstep : r.sysWaitpid pid copyOk = .ok r') : RegistryInv r' := by
  unfold Registry.sysWaitpid at hstep
  rw [bind_eq_ok] at hstep
  obtain ⟨proc, hproc, hstep⟩ := hstep
  have hinv : ProcInv proc := h.proc.step hop hproc
  rw [bind_eq_ok] at hstep
  obtain ⟨⟨result, k⟩, hcall, hstep⟩ := hstep
  have hkernel : proc.kernel = k := by
    unfold Processes.sysWaitpid at hproc
    rw [hcall, ok_bind] at hproc
    rw [← Except.ok.inj hproc]
  have hturn := sysWaitpid_turn h.proc.sched hop.1 hcall
  -- a call that releases nobody leaves the tree alone
  have hquiet : releasedChild pid r.proc.kernel result = none →
      k.forest = r.proc.kernel.forest := by
    intro hnone
    cases hturn with
    | fails value _ _ hk => rw [hk]
    | sleeps _ hf _ _ => exact hf
    | reaps t x n _ _ _ _ hr _ _ =>
      subst hr
      obtain ⟨t', ht', -⟩ := sysWaitpid_released hcall
      exact absurd (hnone.symm.trans ht') (by simp)
  dsimp only at hstep
  split at hstep
  · next t ht =>
    obtain rfl := Except.ok.inj hstep
    obtain ⟨id, rfl⟩ : ∃ id : ℕ, result = .ret (.ofNat id) := by
      unfold releasedChild at ht
      split at ht
      · next id => exact ⟨id, rfl⟩
      · cases ht
    obtain ⟨t', ht', hforest⟩ := sysWaitpid_released hcall
    obtain rfl : t = t' := Option.some.inj (ht.symm.trans ht')
    have hdummy : k.dummy = r.proc.kernel.dummy := congrArg Forest.dummy hforest
    refine ⟨hinv, h.nodup.erase t, fun u => ?_⟩
    show u ∈ r.infoQueue.erase t ↔ proc.kernel.Has u ∧ u ≠ proc.kernel.dummy
    unfold Kernel.Has
    rw [h.nodup.mem_erase_iff, h.mem, hkernel, hforest, has_reap, hdummy, and_assoc]
    rfl
  · next hnone =>
    obtain rfl := Except.ok.inj hstep
    have hforest := hquiet hnone
    have hhas : ∀ u, proc.kernel.Has u ↔ r.proc.kernel.Has u := by
      intro u
      unfold Kernel.Has
      rw [hkernel, hforest]
    exact h.of_same hinv rfl hhas (hkernel ▸ congrArg Forest.dummy hforest)

/-- **One step** that is no successful fork. -/
theorem RegistryInv.step (h : RegistryInv r) {op : RegistryOp} (hop : op.Enabled r)
    (hno : op.NoFork r) (hstep : registryStep r op = .ok r') : RegistryInv r' := by
  cases op with
  | execve index env =>
    have hsame : r' = r := by
      have hstep : r.sysExecve index env = .ok r' := hstep
      unfold Registry.sysExecve at hstep
      split at hstep
      · exact (Except.ok.inj hstep).symm
      · split at hstep
        · exact (Except.ok.inj hstep).symm
        · split at hstep
          · cases hstep
          · exact (Except.ok.inj hstep).symm
    exact hsame ▸ h
  | proc op =>
    cases op with
    | sched op =>
      have hstep : (procStep r.proc (.sched op) >>= fun proc => Except.ok { r with proc := proc }) =
          .ok r' := hstep
      rw [bind_eq_ok] at hstep
      obtain ⟨proc, hproc, hstep⟩ := hstep
      obtain rfl := Except.ok.inj hstep
      have hop : (ProcOp.sched op).Enabled r.proc := hop
      have hinv : ProcInv proc := h.proc.step hop hproc
      have hpids : proc.pids = r.proc.pids := by
        have hproc : (schedStep r.proc.kernel op >>= fun k => Except.ok { r.proc with kernel := k }) =
            .ok proc := hproc
        rw [bind_eq_ok] at hproc
        obtain ⟨k, -, hproc⟩ := hproc
        rw [← Except.ok.inj hproc]
      have heff := procStep_effect h.proc.sched h.proc.tree hop hproc
      obtain ⟨hhas, hdummy⟩ := heff.has_iff h.proc hpids
      exact h.of_same hinv rfl hhas hdummy
    | execFn env => exact h.execFn hstep
    | fork env => exact h.sysFork hop hno hstep
    | waitpid pid copyOk => exact h.sysWaitpid hop hstep

/-- **Every run** without a successful fork. -/
theorem registrySystem_inv (h : (registrySystem.restrict fun r op => op.NoFork r).Reachable r) :
    RegistryInv r := by
  refine h.invariant ?_ ?_
  · rintro r ⟨hinit, hqueue, -⟩
    have hproc := procSystem_inv (.init hinit)
    obtain ⟨garbage, ⟨dummy, idle, kitoxD, hdi, hdk, hik, hk⟩, -, -⟩ := hinit
    refine ⟨hproc, ?_, fun t => ?_⟩
    · rw [hqueue, hk]
      simpa [Kernel.initProcess] using hik
    · rw [hqueue, hk]
      unfold Kernel.Has
      constructor
      · intro ht
        have ht : t = idle ∨ t = kitoxD := by simpa [Kernel.initProcess] using ht
        refine ⟨initProcess_some (Or.inr ht), ?_⟩
        rcases ht with rfl | rfl
        · exact hdi.symm
        · exact hdk.symm
      · rintro ⟨⟨n, hn⟩, hne⟩
        have ht := (initProcess_node hn).1.resolve_left hne
        simpa [Kernel.initProcess] using ht
  · rintro r op r' h ⟨hno, hop, hstep⟩
    exact h.step hop hno hstep

end Invariant

/-! ## Every process is addressable -/

section Lookup

variable {r : Registry} {k : Kernel} {pid : ℤ} {t : TaskId} {x : Task}

/-- A list of living tasks in which only `t` has the pid. -/
theorem findByPid_found {queue : List TaskId} (hlive : ∀ u ∈ queue, ∃ y, k.tasks u = some y)
    (ht : k.tasks t = some x) (hpid : (x.pid : ℤ) = pid) (hmem : t ∈ queue)
    (honly : ∀ u ∈ queue, ∀ y, k.tasks u = some y → (y.pid : ℤ) = pid → u = t) :
    findByPid k pid queue = .ok (some t) := by
  induction queue with
  | nil => cases hmem
  | cons u queue ih =>
    obtain ⟨y, hy⟩ := hlive u List.mem_cons_self
    rw [findByPid, Kernel.getTask_eq hy, ok_bind]
    by_cases heq : (y.pid : ℤ) = pid
    · rw [if_pos heq, honly u List.mem_cons_self y hy heq]
    · have hut : t ≠ u := by
        rintro rfl
        obtain rfl := Option.some.inj (ht.symm.trans hy)
        exact heq hpid
      rw [if_neg heq]
      exact ih (fun v hv => hlive v (List.mem_cons_of_mem u hv))
        ((List.mem_cons.mp hmem).resolve_left hut)
        fun v hv => honly v (List.mem_cons_of_mem u hv)

theorem findByPid_missing {queue : List TaskId} (hlive : ∀ u ∈ queue, ∃ y, k.tasks u = some y)
    (hnone : ∀ u ∈ queue, ∀ y, k.tasks u = some y → (y.pid : ℤ) ≠ pid) :
    findByPid k pid queue = .ok none := by
  induction queue with
  | nil => rfl
  | cons u queue ih =>
    obtain ⟨y, hy⟩ := hlive u List.mem_cons_self
    rw [findByPid, Kernel.getTask_eq hy, ok_bind, if_neg (hnone u List.mem_cons_self y hy)]
    exact ih (fun v hv => hlive v (List.mem_cons_of_mem u hv))
      fun v hv => hnone v (List.mem_cons_of_mem u hv)

theorem RegistryInv.addressable (h : RegistryInv r) : r.Addressable := by
  have halive : ∀ t ∈ r.infoQueue, ∃ x, r.Unreleased t x := by
    intro t ht
    obtain ⟨hhas, hne⟩ := (h.mem t).mp ht
    obtain ⟨x, hx⟩ := Kernel.has_iff.mp hhas
    exact ⟨x, hx, hne⟩
  have hlive : ∀ t ∈ r.infoQueue, ∃ x, r.proc.kernel.tasks t = some x := by
    intro t ht
    obtain ⟨x, hx, -⟩ := halive t ht
    exact ⟨x, hx⟩
  have hfound : ∀ t x, r.Unreleased t x → taskFindByPid x.pid r = .ok (some t) := by
    rintro t x ⟨hx, hne⟩
    apply findByPid_found hlive hx rfl ((h.mem t).mpr ⟨Kernel.has_iff.mpr ⟨x, hx⟩, hne⟩)
    intro u hu y hy heq
    exact h.proc.pids.inj u t y.node x.node (Kernel.forest_node hy) (Kernel.forest_node hx)
      ((h.mem u).mp hu).2 hne (by exact_mod_cast heq)
  refine ⟨hfound, fun pid hnone => ?_, fun t x sig ht hsig hperm => ?_, halive⟩
  · apply findByPid_missing hlive
    intro u hu y hy
    exact hnone u y ⟨hy, ((h.mem u).mp hu).2⟩
  · unfold killPid
    rw [hfound t x ht, ok_bind]
    simp only [hsig, hperm, Bool.not_true, Bool.false_eq_true, if_false]
    cases signalSend sig.toNat t r.proc.kernel with
    | error e => rfl
    | ok k' => rfl

end Lookup

/-- **Addressing by pid** holds in every run in which no fork succeeds. -/
theorem registry_addressable {r : Registry}
    (h : (registrySystem.restrict fun r op => op.NoFork r).Reachable r) : r.Addressable :=
  (registrySystem_inv h).addressable

/-- The registry after `task_init_process`. -/
def bootRegistry : Registry where
  proc := bootProcesses
  infoQueue := [1, 2]
  uid _ := 0

theorem bootRegistry_init : bootRegistry.AfterInit := ⟨bootProcesses_init, rfl, fun _ => rfl⟩

instance (env : ForkEnv) (pids : IdManager) : Decidable (env.Succeeds pids) :=
  inferInstanceAs (Decidable (_ ∧ _))

instance (r : Registry) (op : RegistryOp) : Decidable (op.NoFork r) :=
  match op with
  | .proc (.fork env) => inferInstanceAs (Decidable (¬ env.Succeeds r.proc.pids))
  | .proc (.sched _) | .proc (.execFn _) | .proc (.waitpid _ _) | .execve _ _ => isTrue trivial

/-- A `fork` that finds no page for the directory, an `execve`, a task made by `exec_fn` that exits,
and another one. -/
def execRegistry : Option Registry :=
  [RegistryOp.proc (.sched .schedule),
    .proc (.fork { addr := some 3, cr3 := false, kernelStack := true, pageCopy := true }),
    .execve 1 { text := true, userspace := true },
    .proc (.execFn { text := true, addr := some 3, kstack := true, trampoline := true,
                     userspace := true }),
    .proc (.sched .schedule), .proc (.sched (.exit 7)),
    .proc (.execFn { text := true, addr := some 4, kstack := true, trampoline := true,
                     userspace := true })].foldlM
    (System.checkedStep (fun r op => RegistryOp.NoFork r op ∧ RegistryOp.Enabled r op) registryStep)
    bootRegistry

theorem execRegistry_view : execRegistry.map (fun r => decide (r.infoQueue = [1, 2, 3, 4] ∧
    (r.proc.kernel.tasks 3).map Task.state = some .zombie)) = some true := by
  decide

/-- At the end of that run four tasks are addressable, a dead one among them. -/
theorem registry_addressable_execRegistry : ∃ r,
    (registrySystem.restrict fun r op => op.NoFork r).Reachable r ∧ r.infoQueue = [1, 2, 3, 4] ∧
    (r.proc.kernel.tasks 3).map Task.state = some .zombie ∧ r.Addressable := by
  obtain ⟨r, hr, hview⟩ := Option.map_eq_some_iff.mp execRegistry_view
  obtain ⟨hqueue, hzombie⟩ := of_decide_eq_true hview
  have hinit : ((System.ofStep Registry.AfterInit registryStep).restrict fun r op =>
      RegistryOp.NoFork r op ∧ RegistryOp.Enabled r op).Reachable bootRegistry :=
    .init bootRegistry_init
  have hreach := (System.Reachable.foldlM_restrict hinit hr).restrict_restrict
  exact ⟨r, hreach, hqueue, hzombie, registry_addressable hreach⟩

/-- `kitoxD` forks. -/
def forkRegistry : Option Registry :=
  [RegistryOp.proc (.sched .schedule), .proc (forkAt 3)].foldlM
    (System.checkedStep (fun r op => RegistryOp.Enabled r op) registryStep) bootRegistry

theorem forkRegistry_view : forkRegistry.map (fun r => decide (r.proc.kernel.dummy = 0 ∧
    (r.proc.kernel.tasks 3).map Task.pid = some 2 ∧
    (taskFindByPid 2 r).toOption = some none)) = some true := by
  decide

/-- The child of a `fork` is not found by its pid. -/
theorem not_registry_addressable :
    ¬ ∀ r : Registry, registrySystem.Reachable r → r.Addressable := by
  intro h
  obtain ⟨r, hr, hview⟩ := Option.map_eq_some_iff.mp forkRegistry_view
  obtain ⟨hdummy, htask, hlookup⟩ := of_decide_eq_true hview
  obtain ⟨x, hx, hpid⟩ := Option.map_eq_some_iff.mp htask
  have hinit : registrySystem.Reachable bootRegistry := .init bootRegistry_init
  have hfound := (h r (System.Reachable.foldlM_restrict hinit hr)).found 3 x
    ⟨hx, by rw [hdummy]; decide⟩
  rw [hpid] at hfound
  have hnone : taskFindByPid ((2 : ℕ) : ℤ) r = .ok none := eq_ok_of_toOption hlookup
  rw [hnone] at hfound
  cases Except.ok.inj hfound

end Kfs.Proc
