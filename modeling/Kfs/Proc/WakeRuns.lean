import Kfs.Proc.TreeRuns

/-!
# Wake-ups of waiting parents

A child becomes reapable for its parent when it exits, and for `kitoxD` also when it is dead and its
parent exits. `do_exit` wakes the parent in the first case. In the second it wakes the parent of the
task that exits, which need not be `kitoxD`.
-/

namespace Kfs.Proc

open Kfs.Lib

/-! ## The law -/

/-- `t` sleeps in `waitpid(pid, ..)`. -/
def Processes.Waits (s : Processes) (t : TaskId) (pid : ℤ) : Prop :=
  s.kernel.HasState t .waiting ∧ t ∈ s.kernel.waitQueue (.child t) ∧ s.waitArg t = some pid

/-- No task sleeps in a `waitpid` that would reap one of its children. -/
def WakeLaw (s : Processes) : Prop :=
  ∀ t pid x, s.Waits t pid → s.kernel.tasks t = some x → ∀ c ∈ x.children, ∀ y,
    s.kernel.tasks c = some y → y.state = .zombie → ¬ (pid = -1 ∨ (y.pid : ℤ) = pid)

/-- When a task exits whose parent is not `kitoxD`, it has no dead child that a `waitpid` of `kitoxD`
is waiting for. -/
def ProcOp.NoAwaitedOrphan (s : Processes) (op : ProcOp) : Prop :=
  op.Exits s → ∀ pid, s.Waits s.kernel.kitoxD pid →
    ∀ x, s.kernel.tasks s.kernel.current = some x → x.realParent ≠ some s.kernel.kitoxD →
      ∀ c ∈ x.children, ∀ y, s.kernel.tasks c = some y → y.state = .zombie →
        ¬ (pid = -1 ∨ (y.pid : ℤ) = pid)

/-- The law in terms of the tree. -/
theorem wakeLaw_iff {s : Processes} (hk : QueueInv s.kernel) : WakeLaw s ↔
    ∀ t pid, t ∈ s.kernel.waitQueue (.child t) → s.waitArg t = some pid →
      ∀ n, s.kernel.forest.node t = some n → ∀ c ∈ n.children, ∀ m,
        s.kernel.forest.node c = some m → ¬ Reaps pid m := by
  constructor
  · rintro h t pid ht harg n hn c hc m hm ⟨hz, hpid⟩
    obtain ⟨x, hx, rfl⟩ := Kernel.exists_task hn
    obtain ⟨y, hy, rfl⟩ := Kernel.exists_task hm
    exact h t pid x ⟨hk.waiting_of_mem ht, ht, harg⟩ hx c hc y hy (Task.node_zombie.mp hz) hpid
  · rintro h t pid x ⟨_, ht, harg⟩ hx c hc y hy hz hpid
    exact h t pid ht harg x.node (Kernel.forest_node hx) c hc y.node (Kernel.forest_node hy)
      ⟨Task.node_zombie.mpr hz, hpid⟩

/-! ## The law through an operation -/

/-- The law in the tree after a task was created. -/
theorem wake_create {f : Forest} {p t u c : TaskId} {pid : ℕ} {arg : ℤ} {n m : Node}
    (hlaw : ∀ n, f.node u = some n → ∀ c ∈ n.children, ∀ m, f.node c = some m → ¬ Reaps arg m)
    (hn : (f.create p t pid).node u = some n) (hc : c ∈ n.children)
    (hm : (f.create p t pid).node c = some m) : ¬ Reaps arg m := by
  -- a new task is not dead, and the others are as dead as before
  have hnode : ¬ Reaps arg m ∨ ∃ m', f.node c = some m' ∧ (Reaps arg m → Reaps arg m') ∧ c ≠ t := by
    rcases Forest.create_cases hm with ⟨_, rfl⟩ | ⟨hct, _, m', hm', rfl⟩ | ⟨hct, _, hm'⟩
    · exact .inl fun h => nomatch h.1
    · exact .inr ⟨m', hm', fun h => h, hct⟩
    · exact .inr ⟨m, hm', fun h => h, hct⟩
  rcases hnode with h | ⟨m', hm', himp, hct⟩
  · exact h
  · intro hreaps
    rcases Forest.create_cases hn with ⟨_, rfl⟩ | ⟨_, _, n', hn', rfl⟩ | ⟨_, _, hn'⟩
    · cases hc
    · exact hlaw n' hn' c ((List.mem_cons.mp hc).resolve_left hct) m' hm' (himp hreaps)
    · exact hlaw n hn' c hc m' hm' (himp hreaps)

/-- The law in the tree after a task has died that `u` is not the parent of. -/
theorem wake_exit {f : Forest} (hf : f.Inv) {t u c p : TaskId} {arg : ℤ} {x n m : Node}
    (hlaw : ∀ n, f.node u = some n → ∀ c ∈ n.children, ∀ m, f.node c = some m → ¬ Reaps arg m)
    (hx : f.node t = some x) (hp : x.realParent = some p) (hup : u ≠ p)
    (horphan : u = f.kitoxD → ∀ c ∈ x.children, ∀ m, f.node c = some m → ¬ Reaps arg m)
    (hn : (f.exit t x.children).node u = some n) (hc : c ∈ n.children)
    (hm : (f.exit t x.children).node c = some m) : ¬ Reaps arg m := by
  intro hreaps
  obtain ⟨n', hn', ⟨_, rfl⟩ | ⟨_, rfl⟩⟩ := Forest.exit_cases hn
  · cases hc
  · have hmem : c ∈ n'.children ∨ (u = f.kitoxD ∧ c ∈ x.children) := by
      by_cases huk : u = f.kitoxD
      · subst huk
        rw [Forest.adopt_kitoxD_children, List.mem_append, List.mem_reverse] at hc
        exact hc.symm.imp_right fun h => ⟨rfl, h⟩
      · rw [Forest.adopt_children_of_ne huk] at hc
        exact .inl hc
    obtain ⟨m', hm', ⟨rfl, _⟩ | ⟨_, rfl⟩⟩ := Forest.exit_cases hm
    · -- the dead task itself is in the list of its parent only
      rcases hmem with h | ⟨_, h⟩
      · obtain ⟨y, hy, hr⟩ := hf.child u n' hn' c h
        rw [hx] at hy
        rw [← Option.some.inj hy, hp] at hr
        exact hup (Option.some.inj hr).symm
      · exact hf.irrefl c x hx h
    · rcases hmem with h | ⟨huk, h⟩
      · exact hlaw n' hn' c h m' hm' hreaps
      · exact horphan huk c h m' hm' hreaps

/-- The law in the tree after a task was released. -/
theorem wake_reap {f : Forest} {p t u c : TaskId} {arg : ℤ} {n m : Node}
    (hlaw : ∀ n, f.node u = some n → ∀ c ∈ n.children, ∀ m, f.node c = some m → ¬ Reaps arg m)
    (hn : (f.reap p t).node u = some n) (hc : c ∈ n.children)
    (hm : (f.reap p t).node c = some m) : ¬ Reaps arg m := by
  obtain ⟨_, n', hn', rfl⟩ := Forest.reap_cases hn
  obtain ⟨_, m', hm', rfl⟩ := Forest.reap_cases hm
  have hmem : c ∈ n'.children := by
    dsimp only at hc
    split at hc
    · exact List.mem_of_mem_erase hc
    · exact hc
  exact hlaw n' hn' c hmem m' hm'

/-- **One step**: an operation that orphans no awaited zombie keeps the law. -/
theorem ProcEffect.wakeLaw {s s' : Processes} {op : ProcOp} (hs : ProcInv s)
    (hs' : QueueInv s'.kernel) (hlaw : WakeLaw s) (hcond : op.NoAwaitedOrphan s)
    (h : ProcEffect s op s') : WakeLaw s' := by
  have htree := (wakeLaw_iff hs.sched.toQueueInv).mp hlaw
  refine (wakeLaw_iff hs').mpr fun t pid ht harg n hn c hc m hm => ?_
  cases h with
  | quiet hf' _ hw =>
    obtain ⟨ht', harg'⟩ := hw t ht
    rw [hf'] at hn hm
    exact htree t pid ht' (harg'.symm.trans harg) n hn c hc m hm
  | creates p u upid _ _ _ _ hf' hw =>
    obtain ⟨ht', harg'⟩ := hw t ht
    rw [hf'] at hn hm
    exact wake_create (htree t pid ht' (harg'.symm.trans harg)) hn hc hm
  | exits x p hop hx _ hp hf' _ hw hnone =>
    obtain ⟨ht', harg'⟩ := hw t ht
    have hargs := harg'.symm.trans harg
    rw [hf'] at hn hm
    have htp : t ≠ p := by
      rintro rfl
      exact hnone ht
    refine wake_exit hs.tree (htree t pid ht' hargs) (Kernel.forest_node hx) hp htp ?_ hn hc hm
    -- the children that pass to `kitoxD`
    rintro rfl d hd md hmd ⟨hz, hpid⟩
    obtain ⟨y, hy, rfl⟩ := Kernel.exists_task hmd
    refine hcond hop pid ⟨hs.sched.waiting_of_mem ht', ht', hargs⟩ x hx ?_ d hd y hy
      (Task.node_zombie.mp hz) hpid
    rw [hp]
    exact fun heq => htp (Option.some.inj heq).symm
  | reaps u x k _ _ _ _ hf' _ hw =>
    obtain ⟨ht', harg'⟩ := hw t ht
    rw [hf'] at hn hm
    exact wake_reap (htree t pid ht' (harg'.symm.trans harg)) hn hc hm
  | sleeps arg hf' _ hnone hw =>
    rw [hf'] at hn hm
    rcases hw t ht with ⟨ht', harg'⟩ | ⟨rfl, harg'⟩
    · exact htree t pid ht' (harg'.symm.trans harg) n hn c hc m hm
    · obtain rfl : arg = pid := Option.some.inj (harg'.symm.trans harg)
      obtain ⟨x, hx, rfl⟩ := Kernel.exists_task hn
      exact hnone x hx c hc m hm

/-! ## Every run -/

/-- In every run in which no task leaves to `kitoxD` a dead child that it is waiting for, no task
ever sleeps in a `waitpid` that would reap one of its children. -/
theorem waitpid_no_lost_wakeup {s : Processes}
    (h : (procSystem.restrict fun s op => op.NoAwaitedOrphan s).Reachable s) : WakeLaw s := by
  have hboth : ProcInv s ∧ WakeLaw s := by
    refine h.invariant (P := fun s => ProcInv s ∧ WakeLaw s) (fun s hs => ?_) ?_
    · refine ⟨procSystem_inv (.init hs), ?_⟩
      obtain ⟨_, _, _, hnone⟩ := hs
      intro t pid x ⟨_, _, harg⟩
      rw [hnone t] at harg
      cases harg
    · intro s op s' ⟨hs, hlaw⟩ ⟨hcond, hop, hstep⟩
      have heff := procStep_effect hs.sched hs.tree hop hstep
      obtain ⟨hf, hp⟩ := heff.inv hs.tree hs.pids
      have hs' : ProcInv s' := ⟨procStep_sched hs.sched hop hstep, hf, hp⟩
      exact ⟨hs', heff.wakeLaw hs hs'.sched.toQueueInv hlaw hcond⟩
  exact hboth.2

/-- `kitoxD` waits for any child. Its child (at 3) has a child (at 4) with a child (at 5). The
youngest exits first, then its parent. Between the two exits the task at 3 forks again (at 6): both
exits release the frame of the trampoline that `fork` copied, and the new child takes it in
between. -/
def orphanRun : Option Processes :=
  [.sched .schedule, forkAt 3, .waitpid (-1) true, forkAt 4, .sched .schedule, forkAt 5,
    .sched .schedule, .sched .schedule, .sched (.exit 0), .sched .schedule, forkAt 6,
    .sched .schedule, .sched (.exit 0)].foldlM
    (System.checkedStep (fun s op => ProcOp.Enabled s op) procStep) bootProcesses

theorem orphanRun_view : orphanRun.map (fun s => decide (s.kernel.waitQueue (.child 2) = [2] ∧
    s.waitArg 2 = some (-1) ∧ (s.kernel.tasks 2).map Task.state = some .waiting ∧
    (s.kernel.tasks 2).map Task.children = some [5, 3] ∧
    (s.kernel.tasks 5).map Task.state = some .zombie)) = some true := by
  decide

/-- At the end of that run `kitoxD` sleeps in `waitpid(-1, ..)` with a dead child. -/
theorem orphanRun_lost_wakeup : ∃ s, procSystem.Reachable s ∧ ¬ WakeLaw s := by
  have hview := orphanRun_view
  rw [Option.map_eq_some_iff] at hview
  obtain ⟨s, hs, hview⟩ := hview
  obtain ⟨hqueue, harg, hstate, hchildren, hzombie⟩ := of_decide_eq_true hview
  have hinit : procSystem.Reachable bootProcesses := .init bootProcesses_init
  refine ⟨s, System.Reachable.foldlM_restrict hinit hs, fun hlaw => ?_⟩
  rw [Option.map_eq_some_iff] at hstate hzombie
  obtain ⟨x, hx, hwait⟩ := hstate
  obtain ⟨y, hy, hz⟩ := hzombie
  rw [hx, Option.map_some, Option.some.injEq] at hchildren
  refine hlaw 2 (-1) x ⟨⟨x, hx, hwait⟩, ?_, harg⟩ hx 5 ?_ y hy hz (.inl rfl)
  · rw [hqueue]
    exact List.mem_singleton_self 2
  · rw [hchildren]
    exact List.mem_cons_self

/-- The operations that end no task, and exits of tasks without children. -/
def ProcOp.LeafExit (s : Processes) : ProcOp → Prop
  | .sched (.exit _) => (s.kernel.tasks s.kernel.current).map Task.children = some []
  | .sched (.callHandlers _) => False
  | _ => True

instance (s : Processes) (op : ProcOp) : Decidable (op.LeafExit s) :=
  match op with
  | .sched (.exit _) => inferInstanceAs (Decidable (_ = _))
  | .sched (.callHandlers _) => isFalse id
  | .sched .schedule | .sched .tick | .sched (.ksleep _) | .sched .ksleepReturn
  | .sched (.waitpid _ _) | .sched (.wakeOne _) | .sched (.wakeAll _) | .sched (.wakeSpecifiq _)
  | .sched (.signalSend _ _) | .sched (.signal _ _) | .sched (.execFn _ _) | .sched (.fork _ _)
  | .execFn _ | .fork _ | .waitpid _ _ => isTrue trivial

theorem ProcOp.LeafExit.noAwaitedOrphan {s : Processes} {op : ProcOp} (h : op.LeafExit s) :
    op.NoAwaitedOrphan s := by
  intro hop pid _ x hx _ c hc
  unfold ProcOp.Exits at hop
  split at hop
  · have hnil : (s.kernel.tasks s.kernel.current).map Task.children = some [] := h
    rw [hx, Option.map_some, Option.some.injEq] at hnil
    rw [hnil] at hc
    cases hc
  · exact absurd h id
  · exact hop.elim

/-- `kitoxD` waits for any child; its child forks twice, one of the grandchildren exits, and the
child waits for the other. -/
def waitingRun : Option Processes :=
  [.sched .schedule, forkAt 3, .waitpid (-1) true, forkAt 4, forkAt 5, .sched .schedule,
    .sched (.exit 0), .sched .schedule, .waitpid 4 true].foldlM
    (System.checkedStep (fun s op => ProcOp.LeafExit s op ∧ ProcOp.Enabled s op) procStep)
    bootProcesses

theorem waitingRun_view : waitingRun.map (fun s => decide (s.kernel.waitQueue (.child 2) = [2] ∧
    s.kernel.waitQueue (.child 3) = [3] ∧ s.waitArg 3 = some 4 ∧
    (s.kernel.tasks 3).map Task.children = some [5, 4] ∧
    (s.kernel.tasks 4).map Task.state = some .zombie)) = some true := by
  decide

/-- At the end of that run `kitoxD` and its child sleep, the latter with a dead child that it does not
wait for. -/
theorem waitpid_no_lost_wakeup_waitingRun : ∃ s,
    (procSystem.restrict fun s op => op.NoAwaitedOrphan s).Reachable s ∧
    s.kernel.waitQueue (.child 2) = [2] ∧ s.kernel.waitQueue (.child 3) = [3] ∧
    s.waitArg 3 = some 4 ∧ (s.kernel.tasks 3).map Task.children = some [5, 4] ∧
    (s.kernel.tasks 4).map Task.state = some .zombie ∧ WakeLaw s := by
  have hview := waitingRun_view
  rw [Option.map_eq_some_iff] at hview
  obtain ⟨s, hs, hview⟩ := hview
  obtain ⟨hkitox, hchild, harg, hchildren, hzombie⟩ := of_decide_eq_true hview
  have hinit : ((System.ofStep AfterInit procStep).restrict fun s op =>
      ProcOp.LeafExit s op ∧ ProcOp.Enabled s op).Reachable bootProcesses := .init bootProcesses_init
  have hleaf := System.Reachable.foldlM_restrict hinit hs
  have hreach : (procSystem.restrict fun s op => op.NoAwaitedOrphan s).Reachable s :=
    hleaf.invariant (fun _ hi => .init hi) fun _ _ _ ih hstep =>
      .step ih ⟨hstep.1.1.noAwaitedOrphan, hstep.1.2, hstep.2⟩
  exact ⟨s, hreach, hkitox, hchild, harg, hchildren, hzombie, waitpid_no_lost_wakeup hreach⟩

end Kfs.Proc
