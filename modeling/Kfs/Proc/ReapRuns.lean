import Kfs.Proc.WaitStatus

/-!
# Children that are reaped once

The runs of `Kfs.Proc.Processes` with the `waitpid` of `Kfs.Proc.WaitStatus`. An address and a pid are
used again for later tasks, so a run remembers when the task at each address was made: an address and
a birth name one task for ever. The tasks that `waitpid` has reported are listed with their births.

## Layers

- **The run**: a step of the processes, with the births and the reports kept beside it.
- **The step**: a step is one of `Kfs.Proc.Processes`; the dead stay until they are reported.
- **The law**: what a call returns, what it leaves after an error, and that no report is repeated.
-/

namespace Kfs.Proc.Wait

open Kfs.Lib Kfs.Memory Kfs.Utils

/-! ## The run -/

/-- `sys_waitpid`, one turn, with the pids. -/
def waitpid (pid : ℤ) (status : ℕ) (m : UserMemory) (s : Processes) :
    Kern (WaitResult × UserMemory × Processes) := do
  let (r, m, k) ← sysWaitpid pid status m s.kernel
  .ok (r, m, {
    kernel := k
    pids := releasedPid s.pids r
    waitArg := fun t =>
      if t = s.kernel.current then (if r = .blocked then some pid else none) else s.waitArg t })

/-- The processes, the births of the tasks and the tasks that `waitpid` has reported. -/
structure WaitRun where
  proc : Processes
  clock : ℕ
  born : TaskId → ℕ
  reported : List (TaskId × ℕ)

/-- The run after a step: a task that was not there before is born now. -/
def WaitRun.next (w : WaitRun) (proc : Processes) (reports : List (TaskId × ℕ)) : WaitRun where
  proc := proc
  clock := w.clock + 1
  born t := if (w.proc.kernel.tasks t).isNone then w.clock else w.born t
  reported := reports ++ w.reported

/-- The steps; a call of `waitpid` finds some memory. -/
inductive WaitOp where
  | other (op : ProcOp)
  | waitpid (pid : ℤ) (status : ℕ) (m : UserMemory)

/-- The task that a turn reports. -/
def WaitRun.report (w : WaitRun) (pid : ℤ) (r : WaitResult) : List (TaskId × ℕ) :=
  (releasedChild pid w.proc.kernel r).toList.map fun t => (t, w.born t)

/-- What a step does. -/
def waitStep (w : WaitRun) : WaitOp → Kern WaitRun
  | .other op => do
    let proc ← procStep w.proc op
    .ok (w.next proc [])
  | .waitpid pid status m => do
    let (r, _, proc) ← waitpid pid status m w.proc
    .ok (w.next proc (w.report pid r))

/-- The operation is no `waitpid`. -/
def NoWaitpid : ProcOp → Prop
  | .waitpid _ _ => False
  | _ => True

instance (op : ProcOp) : Decidable (NoWaitpid op) :=
  match op with
  | .waitpid _ _ => isFalse id
  | .sched _ | .execFn _ | .fork _ => isTrue trivial

/-- The caller may make a system call: `idle` and the boot thread make none. -/
def MayCall (s : Processes) : Prop :=
  s.kernel.current ≠ s.kernel.idle ∧ s.kernel.current ≠ s.kernel.dummy

instance (s : Processes) : Decidable (MayCall s) := inferInstanceAs (Decidable (_ ∧ _))

def WaitOp.Enabled (w : WaitRun) : WaitOp → Prop
  | .other op => NoWaitpid op ∧ op.Enabled w.proc
  | .waitpid _ _ _ => MayCall w.proc

instance (w : WaitRun) (op : WaitOp) : Decidable (op.Enabled w) :=
  match op with
  | .other op => inferInstanceAs (Decidable (NoWaitpid op ∧ op.Enabled w.proc))
  | .waitpid _ _ _ => inferInstanceAs (Decidable (MayCall w.proc))

/-- The states that `task_init_process` may leave. -/
def WaitInit (w : WaitRun) : Prop :=
  AfterInit w.proc ∧ w.clock = 1 ∧ (∀ t, w.born t = 0) ∧ w.reported = []

/-- The runs. -/
def waitSystem : System WaitRun WaitOp :=
  (System.ofStep WaitInit waitStep).restrict fun w op => op.Enabled w

/-! ## The step -/

section Steps

variable {s s' : Processes} {pid : ℤ} {status : ℕ} {m m' : UserMemory} {r : WaitResult}

/-- A call of `waitpid` is one of `Kfs.Proc.Processes`. -/
theorem waitpid_refines (h : waitpid pid status m s = .ok (r, m', s')) :
    ∃ copyOk, procStep s (.waitpid pid copyOk) = .ok s' := by
  unfold waitpid at h
  rw [bind_eq_ok] at h
  obtain ⟨⟨r₁, m₁, k₁⟩, hturn, h⟩ := h
  obtain ⟨copyOk, hproc⟩ := sysWaitpid_refines hturn
  refine ⟨copyOk, ?_⟩
  show s.sysWaitpid pid copyOk = _
  unfold Processes.sysWaitpid
  rw [hproc, ok_bind]
  simp only [Except.ok.injEq, Prod.mk.injEq] at h
  obtain ⟨rfl, -, rfl⟩ := h
  rfl

/-- What a call of `waitpid` does. -/
theorem waitpid_cases (h : waitpid pid status m s = .ok (r, m', s')) :
    Turn pid status m s.kernel r m' s'.kernel ∧ s'.pids = releasedPid s.pids r := by
  unfold waitpid at h
  rw [bind_eq_ok] at h
  obtain ⟨⟨r₁, m₁, k₁⟩, hturn, h⟩ := h
  simp only [Except.ok.injEq, Prod.mk.injEq] at h
  obtain ⟨rfl, rfl, rfl⟩ := h
  exact ⟨sysWaitpid_cases hturn, rfl⟩

/-- An operation other than `waitpid` gives no pid back. -/
theorem held_of_noWaitpid (hs : ProcInv s) {op : ProcOp} (hop : NoWaitpid op)
    (h : procStep s op = .ok s') {id : ℕ} (hid : s.pids.Held id) : s'.pids.Held id := by
  -- pids that suit the same tree are the same pids
  have hsame : ∀ {pids : IdManager}, (∀ f : Forest, f.PidInv s.pids → f.PidInv pids) →
      pids.Held id := fun hpids => ((hpids _ hs.pids).held id).mpr ((hs.pids.held id).mp hid)
  have hmore : ∀ {pid : ℕ}, (idManagerAlloc s.pids).1 = some pid →
      (idManagerAlloc s.pids).2.Held id := fun hpid =>
    ((IdManager.alloc_some hs.pids.valid hpid).2.2 id).mpr (.inr hid)
  cases op with
  | sched op =>
    have h : (schedStep s.kernel op >>= fun k => Except.ok { s with kernel := k }) = .ok s' := h
    rw [bind_eq_ok] at h
    obtain ⟨k', -, h⟩ := h
    obtain rfl := Except.ok.inj h
    exact hid
  | waitpid pid copyOk => exact hop.elim
  | execFn env =>
    have h : s.execFn env = .ok s' := h
    unfold Processes.execFn at h
    split at h
    · exact Except.ok.inj h ▸ hid
    · rcases taskGetNew_spec env s.pids with ⟨hnone, hpids⟩ | ⟨t, pid, heq, halloc⟩
      · rw [show taskGetNew env s.pids = (none, (taskGetNew env s.pids).2) from
          Prod.ext hnone rfl] at h
        obtain rfl := Except.ok.inj h
        exact hsame hpids
      · rw [heq] at h
        dsimp only at h
        rw [bind_eq_ok] at h
        obtain ⟨k', -, h⟩ := h
        obtain rfl := Except.ok.inj h
        exact hmore halloc
  | fork env =>
    have h : s.sysFork env = .ok s' := h
    unfold Processes.sysFork at h
    rcases taskClone_spec env s.pids with ⟨hnone, hpids⟩ | ⟨t, pid, heq, halloc⟩
    · rw [show taskClone env s.pids = (none, (taskClone env s.pids).2) from
        Prod.ext hnone rfl] at h
      obtain rfl := Except.ok.inj h
      exact hsame hpids
    · rw [heq] at h
      dsimp only at h
      split at h
      · obtain rfl := Except.ok.inj h
        exact hsame fun f hf => hf.undo halloc
      split at h
      · obtain rfl := Except.ok.inj h
        exact hsame fun f hf => hf.undo halloc
      · rw [bind_eq_ok] at h
        obtain ⟨k', -, h⟩ := h
        obtain rfl := Except.ok.inj h
        exact hmore halloc

/-- A dead task after a step: it is there, dead and with its pid, unless the step has released it. -/
theorem procEffect_zombie {op : ProcOp} (heff : ProcEffect s op s') {t : TaskId} {n : Node}
    (hn : s.kernel.forest.node t = some n) (hz : n.zombie = true) :
    (∃ n', s'.kernel.forest.node t = some n' ∧ n'.zombie = true ∧ n'.pid = n.pid) ∨
      s'.pids = idManagerFree s.pids n.pid ∧ s'.kernel.forest = s.kernel.forest.reap s.kernel.current t := by
  cases heff with
  | quiet hf _ _ => exact .inl ⟨n, hf ▸ hn, hz, rfl⟩
  | creates p u pid _ hu _ _ hf _ =>
    obtain ⟨n', hn', hpid, -, -, hzombie, -⟩ := Forest.create_of_some (p := p) pid
      (Kernel.forest_none hu) hn
    exact .inl ⟨n', hf ▸ hn', hzombie.trans hz, hpid⟩
  | exits x p _ hx _ _ hf _ _ _ =>
    left
    rw [hf]
    by_cases htc : t = s.kernel.current
    · subst htc
      exact ⟨_, Forest.exit_self hn, rfl, rfl⟩
    · refine ⟨s.kernel.forest.adopt x.children t n, ?_, hz, rfl⟩
      rw [Forest.exit_of_ne htc, hn]
      rfl
  | reaps u x n' _ _ hn' _ hf hpids _ =>
    by_cases htu : t = u
    · subst htu
      obtain rfl := Option.some.inj (hn.symm.trans hn')
      exact .inr ⟨hpids, hf⟩
    · left
      rw [hf]
      exact ⟨_, Forest.reap_of_some htu hn, hz, rfl⟩
  | sleeps pid hf _ _ _ => exact .inl ⟨n, hf ▸ hn, hz, rfl⟩

/-- A step changes no pid. -/
theorem procEffect_pid {op : ProcOp} (heff : ProcEffect s op s') {t : TaskId} {n n' : Node}
    (hn : s.kernel.forest.node t = some n) (hn' : s'.kernel.forest.node t = some n') :
    n'.pid = n.pid := by
  cases heff with
  | quiet hf _ _ =>
    rw [hf, hn] at hn'
    rw [Option.some.inj hn']
  | creates p u pid _ hu _ _ hf _ =>
    obtain ⟨m, hm, hpid, -⟩ := Forest.create_of_some (p := p) pid (Kernel.forest_none hu) hn
    rw [hf, hm] at hn'
    rw [← Option.some.inj hn', hpid]
  | exits x p _ _ _ _ hf _ _ _ =>
    rw [hf] at hn'
    obtain ⟨m, hm, h | h⟩ := Forest.exit_cases hn'
    · rw [h.2, Option.some.inj (hn.symm.trans hm)]
    · rw [h.2, Option.some.inj (hn.symm.trans hm)]
      rfl
  | reaps u x m _ _ _ _ hf _ _ =>
    rw [hf] at hn'
    obtain ⟨-, m, hm, h⟩ := Forest.reap_cases hn'
    rw [h, Option.some.inj (hn.symm.trans hm)]
  | sleeps pid hf _ _ _ =>
    rw [hf, hn] at hn'
    rw [Option.some.inj hn']

/-- A step keeps the three tasks of the boot. -/
theorem procEffect_idle {op : ProcOp} (heff : ProcEffect s op s') :
    s'.kernel.idle = s.kernel.idle := by
  have hidle : ∀ {f : Forest}, s'.kernel.forest = f → s'.kernel.idle = f.idle := by
    rintro f rfl
    rfl
  cases heff with
  | quiet hf _ _ => exact hidle hf
  | creates p u pid _ _ _ _ hf _ => exact hidle hf
  | exits x p _ _ _ _ hf _ _ _ => exact hidle hf
  | reaps u x m _ _ _ _ hf _ _ => exact hidle hf
  | sleeps pid hf _ _ _ => exact hidle hf

end Steps

/-! ### The invariant -/

/-- What holds in every state of a run. A reported task is older than the task that is at its address
now, if there is one. -/
structure WaitInv (w : WaitRun) : Prop where
  proc : ProcInv w.proc
  idle : ∀ n, w.proc.kernel.forest.node w.proc.kernel.idle = some n → n.pid = 0
  born : ∀ t, w.born t < w.clock
  reported : ∀ e ∈ w.reported, e.2 < w.clock ∧
    ∀ x, w.proc.kernel.tasks e.1 = some x → e.2 < w.born e.1
  nodup : w.reported.Nodup

section Invariant

variable {w w' : WaitRun} {s' : Processes} {pid : ℤ} {status : ℕ} {m m' : UserMemory}
  {r : WaitResult}

/-- What a turn reports: nothing, or a task that it releases. -/
def GoodReport (w : WaitRun) (s' : Processes) (reports : List (TaskId × ℕ)) : Prop :=
  reports = [] ∨ ∃ t x, reports = [(t, w.born t)] ∧ w.proc.kernel.tasks t = some x ∧
    s'.kernel.tasks t = none

theorem waitpid_report (hf : w.proc.kernel.forest.Inv)
    (h : waitpid pid status m w.proc = .ok (r, m', s')) : GoodReport w s' (w.report pid r) := by
  obtain ⟨hturn, -⟩ := waitpid_cases h
  cases hturn with
  | fails value hv hr hm hk =>
    left
    obtain ⟨n, rfl⟩ := Int.eq_negSucc_of_lt_zero hv
    rw [hr]
    rfl
  | reaps t cur x hcur hfind hx hput hr hk =>
    right
    have hne : w.proc.kernel.current ≠ t := by
      rintro rfl
      exact hf.irrefl _ _ (Kernel.forest_node hcur) (findZombieChild_some hfind).1
    refine ⟨t, x, ?_, hx, (taskRelease_released hne hk).gone⟩
    have hreleased : releasedChild pid w.proc.kernel r = some t := by
      rw [hr]
      show (w.proc.kernel.tasks w.proc.kernel.current).bind _ = _
      rw [hcur, Option.bind_some, hfind]
    unfold WaitRun.report
    rw [hreleased]
    rfl
  | sleeps hr hm hk =>
    left
    rw [hr]
    rfl

/-- A step of the processes keeps the invariant if the report is good. -/
theorem WaitInv.next (hw : WaitInv w) {op : ProcOp} (hop : op.Enabled w.proc)
    (hstep : procStep w.proc op = .ok s') {reports : List (TaskId × ℕ)}
    (hreport : GoodReport w s' reports) : WaitInv (w.next s' reports) where
  proc := hw.proc.step hop hstep
  idle := by
    have heff := procStep_effect hw.proc.sched hw.proc.tree hop hstep
    obtain ⟨n, hn, -⟩ := hw.proc.tree.root w.proc.kernel.idle (.inl rfl)
    show ∀ n', s'.kernel.forest.node s'.kernel.idle = some n' → n'.pid = 0
    rw [procEffect_idle heff]
    exact fun n' hn' => (procEffect_pid heff hn hn').trans (hw.idle n hn)
  born t := by
    have hold := hw.born t
    show (if _ then _ else _) < w.clock + 1
    split <;> omega
  reported e he := by
    have hold : e ∈ w.reported → e.2 < w.clock + 1 ∧
        ∀ x, s'.kernel.tasks e.1 = some x → e.2 < (w.next s' reports).born e.1 := by
      intro hmem
      obtain ⟨hlt, hyoung⟩ := hw.reported e hmem
      refine ⟨by omega, fun x hx => ?_⟩
      unfold WaitRun.next
      dsimp only
      -- the task at the address was born in this step or was there before
      cases hold : w.proc.kernel.tasks e.1 with
      | none => simpa using hlt
      | some y => simpa using hyoung y hold
    rcases List.mem_append.mp he with hnew | hmem
    · rcases hreport with rfl | ⟨t, x, rfl, -, hgone⟩
      · cases hnew
      · obtain rfl := List.mem_singleton.mp hnew
        refine ⟨Nat.lt_succ_of_lt (hw.born t), fun y hy => ?_⟩
        have hy : s'.kernel.tasks t = some y := hy
        rw [hgone] at hy
        cases hy
    · exact hold hmem
  nodup := by
    show (reports ++ w.reported).Nodup
    rcases hreport with rfl | ⟨t, x, rfl, hx, -⟩
    · exact hw.nodup
    · -- what is reported now is at its address and so has not been reported before
      refine List.nodup_cons.mpr ⟨fun hmem => ?_, hw.nodup⟩
      exact lt_irrefl _ ((hw.reported _ hmem).2 x hx)

theorem waitStep_inv (hw : WaitInv w) {op : WaitOp} (hop : op.Enabled w)
    (h : waitStep w op = .ok w') : WaitInv w' := by
  cases op with
  | other op =>
    have h : (procStep w.proc op >>= fun proc => Except.ok (w.next proc [])) = .ok w' := h
    rw [bind_eq_ok] at h
    obtain ⟨s', hstep, h⟩ := h
    obtain rfl := Except.ok.inj h
    exact hw.next hop.2 hstep (.inl rfl)
  | waitpid pid status m =>
    have h : (waitpid pid status m w.proc >>= fun x => Except.ok (w.next x.2.2 (w.report pid x.1))) =
      .ok w' := h
    rw [bind_eq_ok] at h
    obtain ⟨⟨r, m', s'⟩, hcall, h⟩ := h
    obtain rfl := Except.ok.inj h
    obtain ⟨copyOk, hstep⟩ := waitpid_refines hcall
    have henabled : (ProcOp.waitpid pid copyOk).Enabled w.proc := hop
    exact hw.next henabled hstep (waitpid_report hw.proc.tree hcall)

theorem waitInit_inv (h : WaitInit w) : WaitInv w := by
  obtain ⟨hinit, hclock, hborn, hreported⟩ := h
  refine ⟨procSystem_inv (.init hinit), fun n hn => ?_, fun t => ?_, fun e he => ?_, ?_⟩
  · obtain ⟨garbage, ⟨dummy, idle, kitoxD, hdi, -, -, hk⟩, -, -⟩ := hinit
    rw [hk] at hn
    obtain ⟨-, -, -, -, hpid⟩ := initProcess_node hn
    have hidle : (Kernel.initProcess dummy idle kitoxD).idle = idle := rfl
    rw [hpid, hidle, if_neg hdi.symm, if_pos rfl]
  · rw [hborn, hclock]
    exact Nat.one_pos
  · rw [hreported] at he
    cases he
  · rw [hreported]
    exact List.nodup_nil

theorem waitSystem_inv (h : waitSystem.Reachable w) : WaitInv w := by
  refine h.invariant ?_ ?_
  · exact fun w hw => waitInit_inv hw
  · rintro w op w' hw ⟨hop, hstep⟩
    exact waitStep_inv hw hop hstep

end Invariant

/-! ## The law -/

/-- The call has reported the dead child `t` with the fields `x` of the current task: `t` is gone, its
pid is free, and nothing else has changed but the list of children of the caller. -/
structure Reported (pid : ℤ) (r : ℤ) (s s' : Processes) (t : TaskId) (x : Task) : Prop where
  child : ∃ cur, s.kernel.tasks s.kernel.current = some cur ∧ t ∈ cur.children
  task : s.kernel.tasks t = some x
  zombie : x.state = .zombie
  result : r = x.pid
  wanted : 0 < pid → r = pid
  released : Released s.kernel.current t s.kernel s'.kernel
  pids : ∀ id, s'.pids.Held id ↔ s.pids.Held id ∧ id ≠ x.pid

/-- The law of `waitpid` in a state of a run. -/
structure WaitLaw (w : WaitRun) : Prop where
  /-- A positive result reports a dead child, and its exit code is at `status`. -/
  returned : ∀ pid status m r m' s', MayCall w.proc →
    waitpid pid status m w.proc = .ok (.ret r, m', s') → 0 < r →
    ∃ t x, Reported pid r w.proc s' t x ∧
      (status = 0 → m' = m) ∧
      (status ≠ 0 → StatusBuffer m status t x.exitCode → UserWord m' status x.exitCode)
  /-- An error leaves the tasks, the pids and memory as they were. -/
  failed : ∀ pid status m r m' s', MayCall w.proc →
    waitpid pid status m w.proc = .ok (.ret r, m', s') → r < 0 →
    s'.kernel = w.proc.kernel ∧ s'.pids = w.proc.pids ∧ m' = m
  /-- A turn that does not return leaves the tree, the pids and memory as they were. -/
  blocked : ∀ pid status m m' s', MayCall w.proc →
    waitpid pid status m w.proc = .ok (.blocked, m', s') →
    s'.kernel.forest = w.proc.kernel.forest ∧ s'.pids = w.proc.pids ∧ m' = m
  /-- Every dead child of the caller can be reaped, by a call with its pid. -/
  reapable : ∀ cur t x m, MayCall w.proc → w.proc.kernel.tasks w.proc.kernel.current = some cur →
    t ∈ cur.children → w.proc.kernel.tasks t = some x → x.state = .zombie →
    ∃ s', waitpid x.pid 0 m w.proc = .ok (.ret x.pid, m, s') ∧
      Reported x.pid x.pid w.proc s' t x
  /-- A dead task is the child of a task that lives. -/
  kept : ∀ t x, w.proc.kernel.tasks t = some x → x.state = .zombie →
    ∃ p y, w.proc.kernel.tasks p = some y ∧ y.state ≠ .zombie ∧ t ∈ y.children
  /-- A step keeps a dead task unless it reports it. -/
  stays : ∀ op w' t x, op.Enabled w → waitStep w op = .ok w' → w.proc.kernel.tasks t = some x →
    x.state = .zombie → (∃ x', w'.proc.kernel.tasks t = some x' ∧ x'.state = .zombie ∧
      x'.pid = x.pid) ∨ (t, w.born t) ∈ w'.reported
  /-- No task is reported twice. -/
  once : w.reported.Nodup

section Law

variable {w : WaitRun} {s' : Processes} {pid : ℤ} {status : ℕ} {m m' : UserMemory}
  {t : TaskId} {cur x : Task}

/-- A child that was found and released has been reported. -/
theorem reported_of_release {s : Processes} (hs : ProcInv s) (hcur : s.kernel.tasks s.kernel.current = some cur)
    (hfind : findZombieChild cur.children pid s.kernel = some t) (hx : s.kernel.tasks t = some x)
    (hk : taskRelease s.kernel.current t s.kernel = .ok s'.kernel)
    (hpids : s'.pids = idManagerFree s.pids x.pid) : Reported pid x.pid s s' t x := by
  obtain ⟨hmem, n, hn, hzombie, hpid⟩ := findZombieChild_some hfind
  obtain rfl := Option.some.inj ((Kernel.forest_node hx).symm.trans hn)
  have hne : s.kernel.current ≠ t := by
    rintro rfl
    exact hs.tree.irrefl _ _ (Kernel.forest_node hcur) hmem
  have hdummy : t ≠ s.kernel.forest.dummy := fun heq =>
    hs.tree.not_root_of_child (Kernel.forest_node hcur) hmem (.inr (.inr heq))
  have hheld : s.pids.Held x.pid :=
    (hs.pids.held x.pid).mpr ⟨t, x.node, hdummy, Kernel.forest_node hx, rfl⟩
  refine {
    child := ⟨cur, hcur, hmem⟩
    task := hx
    zombie := Task.node_zombie.mp hzombie
    result := rfl
    wanted := fun hpos => ?_
    released := taskRelease_released hne hk
    pids := fun id => ?_ }
  · rcases hpid with h | h
    · omega
    · exact h
  · rw [hpids, IdManager.free_held hheld.lt]
    exact and_comm

/-- The call with the pid of a dead child finds it. -/
theorem findZombieChild_self {s : Processes} (hs : ProcInv s)
    (hcur : s.kernel.tasks s.kernel.current = some cur) (ht : t ∈ cur.children)
    (hx : s.kernel.tasks t = some x) (hz : x.state = .zombie) :
    findZombieChild cur.children x.pid s.kernel = some t := by
  have hroot : ∀ c ∈ cur.children, c ≠ s.kernel.forest.dummy := fun c hc heq =>
    hs.tree.not_root_of_child (Kernel.forest_node hcur) hc (.inr (.inr heq))
  cases hfind : findZombieChild cur.children x.pid s.kernel with
  | none =>
    refine absurd ⟨Task.node_zombie.mpr hz, .inr rfl⟩
      (findZombieChild_none hfind ht (Kernel.forest_node hx))
  | some u =>
    obtain ⟨hu, n, hn, -, hpid⟩ := findZombieChild_some hfind
    have hpid : n.pid = x.pid := by
      rcases hpid with h | h
      · omega
      · exact_mod_cast h
    rw [hs.pids.inj u t n x.node hn (Kernel.forest_node hx) (hroot u hu) (hroot t ht) hpid]

theorem WaitInv.pid_ne_zero (hw : WaitInv w) (hcur : w.proc.kernel.tasks w.proc.kernel.current = some cur)
    (ht : t ∈ cur.children) (hx : w.proc.kernel.tasks t = some x) : x.pid ≠ 0 := by
  obtain ⟨n, hn, -⟩ := hw.proc.tree.root w.proc.kernel.idle (.inl rfl)
  have hroot := hw.proc.tree.not_root_of_child (Kernel.forest_node hcur) ht
  intro hzero
  -- pid 0 is that of `idle`
  have hsame := hw.proc.pids.inj t w.proc.kernel.idle x.node n (Kernel.forest_node hx) hn
    (fun heq => hroot (.inr (.inr heq))) hw.proc.tree.distinct.1 (hzero.trans (hw.idle n hn).symm)
  exact hroot (.inl hsame)

/-- **A dead child can be reaped** by a call with its pid. -/
theorem WaitInv.reapable (hw : WaitInv w) (m : UserMemory)
    (hcur : w.proc.kernel.tasks w.proc.kernel.current = some cur) (ht : t ∈ cur.children)
    (hx : w.proc.kernel.tasks t = some x) (hz : x.state = .zombie) :
    ∃ s', waitpid x.pid 0 m w.proc = .ok (.ret x.pid, m, s') ∧
      Reported x.pid x.pid w.proc s' t x := by
  have hpos := hw.pid_ne_zero hcur ht hx
  have hfind := findZombieChild_self hw.proc hcur ht hx hz
  have hhas : taskHasChildPid cur.children x.pid w.proc.kernel = true := by
    unfold taskHasChildPid
    rw [List.any_eq_true]
    exact ⟨t, ht, by simp [hx]⟩
  have hrelease : ∃ k', taskRelease w.proc.kernel.current t w.proc.kernel = .ok k' := by
    unfold taskRelease
    rw [Kernel.getTask_eq hcur]
    exact ⟨_, rfl⟩
  obtain ⟨k', hk⟩ := hrelease
  have hturn : sysWaitpid x.pid 0 m w.proc.kernel = .ok (.ret x.pid, m, k') := by
    unfold sysWaitpid
    rw [if_neg (by omega), Kernel.getTask_eq hcur, ok_bind, if_neg (List.ne_nil_of_mem ht),
      if_neg (by simp [hhas]), hfind]
    dsimp only
    rw [Kernel.getTask_eq hx, ok_bind, show putStatus 0 t m = .ok (true, m) from rfl, ok_bind]
    dsimp only
    rw [if_neg (by decide), hk, ok_bind]
  unfold waitpid
  rw [hturn]
  exact ⟨_, rfl, reported_of_release hw.proc hcur hfind hx hk rfl⟩

/-- **A call that reports a child**. -/
theorem WaitInv.returned (hw : WaitInv w) {r : ℤ}
    (h : waitpid pid status m w.proc = .ok (.ret r, m', s')) (hr : 0 < r) :
    ∃ t x, Reported pid r w.proc s' t x ∧ (status = 0 → m' = m) ∧
      (status ≠ 0 → StatusBuffer m status t x.exitCode → UserWord m' status x.exitCode) := by
  obtain ⟨hturn, hpids⟩ := waitpid_cases h
  cases hturn with
  | fails value hv hret _ _ =>
    have heq : r = value := WaitResult.ret.inj hret
    omega
  | reaps t cur x hcur hfind hx hput hret hk =>
    obtain rfl : r = x.pid := WaitResult.ret.inj hret
    refine ⟨t, x, reported_of_release hw.proc hcur hfind hx hk hpids, fun hzero => ?_,
      fun hne hbuf => putStatus_userWord hne hbuf hput⟩
    rw [hzero] at hput
    exact (Prod.mk.inj (Except.ok.inj hput)).2.symm
  | sleeps hret _ _ => cases hret

/-- **A call that fails**. -/
theorem waitpid_failed {s : Processes} {r : ℤ} (h : waitpid pid status m s = .ok (.ret r, m', s'))
    (hr : r < 0) : s'.kernel = s.kernel ∧ s'.pids = s.pids ∧ m' = m := by
  obtain ⟨hturn, hpids⟩ := waitpid_cases h
  cases hturn with
  | fails value hv hret hm hk =>
    obtain ⟨n, rfl⟩ := Int.eq_negSucc_of_lt_zero hr
    exact ⟨hk, hpids, hm⟩
  | reaps t cur x _ _ _ _ hret _ =>
    have heq : r = x.pid := WaitResult.ret.inj hret
    omega
  | sleeps hret _ _ => cases hret

/-- **A turn that goes to sleep**. -/
theorem waitpid_blocked {s : Processes} (hs : ProcInv s) (hidle : s.kernel.current ≠ s.kernel.idle)
    (h : waitpid pid status m s = .ok (.blocked, m', s')) :
    s'.kernel.forest = s.kernel.forest ∧ s'.pids = s.pids ∧ m' = m := by
  obtain ⟨hturn, hpids⟩ := waitpid_cases h
  cases hturn with
  | fails value _ hret _ _ => cases hret
  | reaps t cur x _ _ _ _ hret _ => cases hret
  | sleeps _ hm hk =>
    exact ⟨(sleep_tree hs.sched hidle (fun _ h => WqHead.child.inj h) hk).1, hpids, hm⟩

/-- **A dead task stays** until it is reported. -/
theorem WaitInv.stays (hw : WaitInv w) {op : WaitOp} {w' : WaitRun} (hop : op.Enabled w)
    (h : waitStep w op = .ok w') (hx : w.proc.kernel.tasks t = some x) (hz : x.state = .zombie) :
    (∃ x', w'.proc.kernel.tasks t = some x' ∧ x'.state = .zombie ∧ x'.pid = x.pid) ∨
      (t, w.born t) ∈ w'.reported := by
  have hn := Kernel.forest_node hx
  have hnz : x.node.zombie = true := Task.node_zombie.mpr hz
  have hhere : ∀ {s' : Processes}, (∃ n', s'.kernel.forest.node t = some n' ∧ n'.zombie = true ∧
      n'.pid = x.node.pid) →
      ∃ x', s'.kernel.tasks t = some x' ∧ x'.state = .zombie ∧ x'.pid = x.pid := by
    rintro s' ⟨n', hn', hz', hpid⟩
    obtain ⟨x', hx', rfl⟩ := Kernel.exists_task hn'
    exact ⟨x', hx', Task.node_zombie.mp hz', hpid⟩
  have hnotDummy : t ≠ w.proc.kernel.forest.dummy := by
    rintro rfl
    obtain ⟨n, hdummy, -, halive⟩ := hw.proc.tree.root _ (.inr (.inr rfl))
    rw [hn] at hdummy
    rw [← Option.some.inj hdummy, hnz] at halive
    cases halive
  -- As long as the zombie stays its pid is taken.
  have hheld : w.proc.pids.Held x.pid := (hw.proc.pids.held x.pid).mpr ⟨t, x.node, hnotDummy, hn, rfl⟩
  cases op with
  | other op =>
    have h : (procStep w.proc op >>= fun proc => Except.ok (w.next proc [])) = .ok w' := h
    rw [bind_eq_ok] at h
    obtain ⟨s', hstep, h⟩ := h
    obtain rfl := Except.ok.inj h
    -- Any other step leaves the zombie in the forest or frees its pid.
    have heff := procStep_effect hw.proc.sched hw.proc.tree hop.2 hstep
    rcases procEffect_zombie heff hn hnz with hstay | ⟨hpids, -⟩
    · exact .inl (hhere hstay)
    · -- its pid would be free
      have hstill := held_of_noWaitpid hw.proc hop.1 hstep hheld
      rw [hpids, show x.node.pid = x.pid from rfl, IdManager.free_held hheld.lt] at hstill
      exact absurd rfl hstill.1
  | waitpid pid status m =>
    have h : (waitpid pid status m w.proc >>= fun y => Except.ok (w.next y.2.2 (w.report pid y.1))) =
      .ok w' := h
    rw [bind_eq_ok] at h
    obtain ⟨⟨r, m', s'⟩, hcall, h⟩ := h
    obtain rfl := Except.ok.inj h
    obtain ⟨hturn, hpids⟩ := waitpid_cases hcall
    -- A `waitpid` fails, reaps one child or sleeps; only reaping can take `t` away.
    cases hturn with
    | fails value hv hr hm hk =>
      left
      have hk : s'.kernel = w.proc.kernel := hk
      exact ⟨x, by rw [← hx]; exact congrFun (congrArg Kernel.tasks hk) t, hz, rfl⟩
    | reaps u cur y hcur hfind hy hput hr hk =>
      -- Nobody is his own child.
      have hne : w.proc.kernel.current ≠ u := by
        rintro rfl
        exact hw.proc.tree.irrefl _ _ (Kernel.forest_node hcur) (findZombieChild_some hfind).1
      have hrel := taskRelease_released hne hk
      by_cases htu : t = u
      · right
        -- The child that was reaped is the one that is reported.
        subst htu
        have hreport : w.report pid r = [(t, w.born t)] := by
          unfold WaitRun.report
          rw [hr]
          show ((w.proc.kernel.tasks w.proc.kernel.current).bind _).toList.map _ = _
          rw [hcur, Option.bind_some, hfind]
          rfl
        show (t, w.born t) ∈ w.report pid r ++ w.reported
        rw [hreport]
        exact List.mem_append_left _ (List.mem_singleton_self _)
      · left
        by_cases htc : t = w.proc.kernel.current
        · refine ⟨{ x with children := x.children.erase u }, ?_, hz, rfl⟩
          rw [htc] at hx ⊢
          exact hrel.parent x hx
        · exact ⟨x, (hrel.others t htu htc).trans hx, hz, rfl⟩
    | sleeps hr hm hk =>
      left
      have hforest : s'.kernel.forest = w.proc.kernel.forest :=
        (waitpid_blocked hw.proc hop.1 (hr ▸ hcall)).1
      exact hhere ⟨x.node, hforest ▸ hn, hnz, rfl⟩

/-- **`waitpid` reaps each child once**: in every state of every run a call that returns a pid has
reported a dead child of the caller and released it alone, a call that fails has changed nothing, every
dead child can still be reaped, and no task is reported twice. -/
theorem waitpid_reaps_once (h : waitSystem.Reachable w) : WaitLaw w := by
  have hw := waitSystem_inv h
  exact {
    returned := fun pid status m r m' s' _ hcall hr => hw.returned hcall hr
    failed := fun pid status m r m' s' _ hcall hr => waitpid_failed hcall hr
    blocked := fun pid status m m' s' hmay hcall => waitpid_blocked hw.proc hmay.1 hcall
    reapable := fun cur t x m _ hcur ht hx hz => hw.reapable m hcur ht hx hz
    kept := fun t x hx hz => by
      have hroot : ¬ w.proc.kernel.forest.Root t := by
        intro hroot
        obtain ⟨n, hn, -, halive⟩ := hw.proc.tree.root t hroot
        rw [Kernel.forest_node hx] at hn
        rw [← Option.some.inj hn, Task.node_zombie.mpr hz] at halive
        cases halive
      obtain ⟨p, n, -, -, hp, halive, hmem⟩ := hw.proc.tree.parent t x.node (Kernel.forest_node hx) hroot
      obtain ⟨y, hy, rfl⟩ := Kernel.exists_task hp
      refine ⟨p, y, hy, fun hdead => ?_, hmem⟩
      rw [Task.node_zombie.mpr hdead] at halive
      cases halive
    stays := fun op w' t x hop hstep hx hz => hw.stays hop hstep hx hz
    once := hw.nodup }

end Law

/-! ### A child that exits with 7 -/

/-- The memory of `Kfs.Memory.UserCopy` with the exit code 7 at `0xC0006000`. -/
def exitMemory : UserMemory where
  bytes a := if a = 0x6000 then 0 else if a = 0x6001 then 7 else twoPageMemory a
  cr3 := 0x1000

/-- The address of the child, for which `&child->exit_code` is `0xC0006000`. -/
def exitChild : TaskId := 0xC0005F20

/-- The run after `task_init_process`. -/
def bootWaitRun : WaitRun where
  proc := bootProcesses
  clock := 1
  born _ := 0
  reported := []

/-- `kitoxD` forks and waits, and its child exits. -/
def exitRun : Option WaitRun :=
  [.other (.sched .schedule), .other (forkAt exitChild), .waitpid (-1) 0x5000 exitMemory,
    .other (.sched (.exit 7))].foldlM
    (System.checkedStep (fun w op => WaitOp.Enabled w op) waitStep) bootWaitRun

/-- What the next call returns and which task it releases. -/
theorem exitRun_view : (exitRun.bind fun w => (waitpid (-1) 0x5000 exitMemory w.proc).toOption.map
    fun y => decide (MayCall w.proc ∧ y.1 = .ret 2 ∧ (y.2.2.kernel.tasks exitChild).isNone ∧
      (w.proc.kernel.tasks exitChild).map Task.exitCode = some 0x700)) = some true := by
  decide +kernel

theorem exitMemory_user {i p : ℕ} (hi : i < sizeofInt)
    (hp : translate exitMemory.bytes exitMemory.cr3 (0x5000 + i) = some p) : p = 0x3000 + i := by
  have hplace : ∀ i < sizeofInt, translate exitMemory.bytes exitMemory.cr3 (0x5000 + i) =
      some (0x3000 + i) := by
    decide
  rw [hplace i hi] at hp
  exact (Option.some.inj hp).symm

theorem exitMemory_statusBuffer : StatusBuffer exitMemory 0x5000 exitChild 0x700 where
  cr3 := by decide
  tables := by
    unfold TablesLinear
    decide +kernel
  status_lt := by decide
  kernel := by decide
  exitCode i hi := by
    have hplace : ∀ i < sizeofInt, translate exitMemory.bytes exitMemory.cr3
        (exitChild + exitCodeOffset + i) = some (0x6000 + i) ∧
        exitMemory.bytes (0x6000 + i) = 0x700 / 256 ^ i % 256 := by
      decide
    exact ⟨0x6000 + i, hplace i hi⟩
  apart := by decide
  outside i hi p hp j hj := by
    have hplace := exitMemory_user hi hp
    have hpde : getPdeIndex (0x5000 + j) = 0 := by
      rw [getPdeIndex_eq]
      unfold sizeofInt at hj
      omega
    have hpte : getPteIndex (0x5000 + j) = 5 := by
      rw [getPteIndex_eq]
      unfold sizeofInt at hj
      omega
    have htable : getEntryAddr (readWord exitMemory.bytes (exitMemory.cr3 + 4 * 0)) = 0x2000 := by
      decide
    rintro (⟨a, ha, heq⟩ | ⟨a, ha, heq⟩)
    · rw [hpde, hplace, show exitMemory.cr3 = 0x1000 from rfl] at heq
      omega
    · rw [hpde, hpte, htable, hplace] at heq
      omega

/-- The call of `kitoxD` after that run returns the pid of its child, and user code then reads the
child's exit code, `7 << 8`, at the address that it gave. -/
theorem waitpid_reaps_once_exitRun : ∃ w m' s', waitSystem.Reachable w ∧
    waitpid (-1) 0x5000 exitMemory w.proc = .ok (.ret 2, m', s') ∧
    s'.kernel.tasks exitChild = none ∧ UserWord m' 0x5000 0x700 := by
  obtain ⟨w, hrun, hview⟩ := Option.bind_eq_some_iff.mp exitRun_view
  obtain ⟨⟨r, m', s'⟩, hcall, hview⟩ := Option.map_eq_some_iff.mp hview
  obtain ⟨hmay, rfl, hgone, hcode⟩ := of_decide_eq_true hview
  have hinit : waitSystem.Reachable bootWaitRun :=
    .init ⟨bootProcesses_init, rfl, fun _ => rfl, rfl⟩
  have hreach : waitSystem.Reachable w := System.Reachable.foldlM_restrict hinit hrun
  have hcall : waitpid (-1) 0x5000 exitMemory w.proc = .ok (.ret 2, m', s') := by
    cases hok : waitpid (-1) 0x5000 exitMemory w.proc with
    | error e =>
      rw [hok] at hcall
      cases hcall
    | ok y =>
      rw [hok] at hcall
      rw [Option.some.inj hcall]
  have hgone : s'.kernel.tasks exitChild = none := Option.isNone_iff_eq_none.mp hgone
  obtain ⟨c, hc, hcode⟩ := Option.map_eq_some_iff.mp hcode
  obtain ⟨t, x, hreported, -, hword⟩ :=
    (waitpid_reaps_once hreach).returned _ _ _ _ _ _ hmay hcall (by decide)
  -- the task that is gone is the one that was reported
  obtain rfl : exitChild = t := by
    by_contra hne
    by_cases hcur : exitChild = w.proc.kernel.current
    · rw [hcur, hreported.released.parent c (hcur ▸ hc)] at hgone
      cases hgone
    · rw [hreported.released.others _ hne hcur, hc] at hgone
      cases hgone
  obtain rfl := Option.some.inj (hc.symm.trans hreported.task)
  rw [hcode] at hword
  exact ⟨w, m', s', hreach, hcall, hgone, hword (by decide) exitMemory_statusBuffer⟩

end Kfs.Proc.Wait
