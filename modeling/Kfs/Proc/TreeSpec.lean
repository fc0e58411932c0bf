import Kfs.Proc.Forest
import Kfs.Proc.SchedSpec

/-!
# What the operations do to the process tree

Wake-ups and switches leave the tree alone and put no task to sleep (`Quiet`). `do_exit` is
`Forest.exit` of the current task, `fork` and `exec_fn` are `Forest.create`, and a `waitpid` that
finds a dead child is `Forest.reap`.
-/

namespace Kfs.Proc

open Kfs.Lib

/-! ## The tree of a state -/

section View

variable {k : Kernel} {t : TaskId} {x : Task}

theorem Kernel.forest_node (hx : k.tasks t = some x) : k.forest.node t = some x.node := by
  unfold Kernel.forest
  dsimp only
  rw [hx]
  rfl

theorem Kernel.forest_none (ht : k.tasks t = none) : k.forest.node t = none := by
  unfold Kernel.forest
  dsimp only
  rw [ht]
  rfl

/-- A node of the tree is that of a task. -/
theorem Kernel.exists_task {n : Node} (h : k.forest.node t = some n) :
    ∃ x, k.tasks t = some x ∧ x.node = n := by
  unfold Kernel.forest at h
  dsimp only at h
  rwa [Option.map_eq_some_iff] at h

/-- A write to another task does not change the place of a task. -/
theorem Kernel.forest_setTask_of_ne {u : TaskId} (k : Kernel) (y : Task) (h : u ≠ t) :
    (k.setTask t y).forest.node u = k.forest.node u := by
  unfold Kernel.forest
  dsimp only
  rw [Kernel.setTask_of_ne k y h]

/-- A write to a task that keeps its place keeps the tree. -/
theorem forest_setTask {y : Task} (hx : k.tasks t = some x) (hy : y.node = x.node) :
    (k.setTask t y).forest = k.forest := by
  unfold Kernel.forest
  congr 1
  funext u
  rw [Kernel.setTask_tasks]
  split
  next h => rw [h, hx, Option.map_some, Option.map_some, hy]
  next => rfl

theorem forest_congr {k' : Kernel} (ht : k'.tasks = k.tasks) (hi : k'.idle = k.idle)
    (hd : k'.dummy = k.dummy) (hk : k'.kitoxD = k.kitoxD) : k'.forest = k.forest := by
  unfold Kernel.forest
  rw [ht, hi, hd, hk]

theorem Task.node_zombie : x.node.zombie = true ↔ x.state = .zombie := by
  simp [Task.node]

/-- Two states of a task that is not dead look alike in the tree. -/
theorem Task.node_withState {s : ProcessState} (hx : x.state ≠ .zombie) (hs : s ≠ .zombie) :
    { x with state := s }.node = x.node := by
  simp [Task.node, hx, hs]

end View

/-! ## Quiet operations -/

/-- The tree is as before and no task was put to sleep. -/
structure Quiet (k k' : Kernel) : Prop where
  forest : k'.forest = k.forest
  waitQueue : ∀ h t, t ∈ k'.waitQueue h → t ∈ k.waitQueue h

namespace Quiet

variable {k k' k'' : Kernel}

theorem refl (k : Kernel) : Quiet k k := ⟨rfl, fun _ _ h => h⟩

theorem trans (h : Quiet k k') (h' : Quiet k' k'') : Quiet k k'' :=
  ⟨h'.forest.trans h.forest, fun q t ht => h.waitQueue q t (h'.waitQueue q t ht)⟩

theorem setTask {t : TaskId} {x y : Task} (hx : k.tasks t = some x) (hy : y.node = x.node) :
    Quiet k (k.setTask t y) :=
  ⟨forest_setTask hx hy, fun _ _ h => h⟩

end Quiet

section QuietOps

variable {k k' : Kernel} {t : TaskId}

/-- A wake-up of one task. -/
theorem wqFinish_quiet (hk : QueueInv k) (h : wqFinish t k = .ok k') : Quiet k k' := by
  have h₀ := h
  unfold wqFinish at h₀
  rw [bind_eq_ok] at h₀
  obtain ⟨x, hx, _⟩ := h₀
  have hx := getTask_ok hx
  cases hn : x.wqNode with
  | none =>
    rw [wqFinish_of_unlinked hx hn] at h
    exact Except.ok.inj h ▸ .refl k
  | some q =>
    have hmoved := woken_moved hk hx hn
    have hs : x.state = .waiting := (hk.waiting_iff t x hx).mpr (by simp [hn])
    rw [wqFinish_eq hk hx hn] at h
    obtain rfl := Except.ok.inj h
    refine ⟨?_, fun h' u hu => ?_⟩
    · have hnode : { x with state := .running, wqNode := none, wqHead := none }.node = x.node := by
        simp [Task.node, hs]
      exact (forest_congr (k := k.setTask t _) rfl rfl rfl rfl).trans (forest_setTask hx hnode)
    · rw [woken_waitQueue] at hu
      split at hu
      next hq => exact hq ▸ List.mem_of_mem_erase hu
      next => exact hu

theorem wqFinish_wakes (hk : QueueInv k) (hcur : ¬ k.HasState k.current .waiting)
    (h : wqFinish t k = .ok k') : Wakes k k' := by
  have h₀ := h
  unfold wqFinish at h₀
  rw [bind_eq_ok] at h₀
  obtain ⟨x, hx, _⟩ := h₀
  obtain ⟨k₁, h₁, hw⟩ := wqFinish_spec hk hcur ⟨x, getTask_ok hx⟩
  rw [h] at h₁
  exact Except.ok.inj h₁ ▸ hw

theorem wqWakeAllN_quiet (wq : WqHead) (n : ℕ) : ∀ {k k' : Kernel}, QueueInv k →
    ¬ k.HasState k.current .waiting → wqWakeAllN wq n k = .ok k' → Quiet k k' := by
  induction n with
  | zero =>
    intro k k' _ _ h
    unfold wqWakeAllN at h
    split at h
    · exact Except.ok.inj h ▸ .refl k
    · cases h
  | succ n ih =>
    intro k k' hk hcur h
    unfold wqWakeAllN at h
    split at h
    · exact Except.ok.inj h ▸ .refl k
    · rw [bind_eq_ok] at h
      obtain ⟨k₁, h₁, h₂⟩ := h
      have hw := wqFinish_wakes hk hcur h₁
      exact (wqFinish_quiet hk h₁).trans (ih hw.inv (mt hw.hasState_current.mp hcur) h₂)

theorem wakeSleepers_quiet (ts : List TaskId) : ∀ {k k' : Kernel}, QueueInv k →
    ¬ k.HasState k.current .waiting → ts.foldlM wakeSleeper k = .ok k' → Quiet k k' := by
  induction ts with
  | nil =>
    intro k k' _ _ h
    exact Except.ok.inj h ▸ .refl k
  | cons t ts ih =>
    intro k k' hk hcur h
    rw [List.foldlM_cons, bind_eq_ok] at h
    obtain ⟨k₁, h₁, h₂⟩ := h
    unfold wakeSleeper at h₁
    rw [bind_eq_ok] at h₁
    obtain ⟨x, _, h₁⟩ := h₁
    split at h₁
    · have hw := wqFinish_wakes hk hcur h₁
      exact (wqFinish_quiet hk h₁).trans (ih hw.inv (mt hw.hasState_current.mp hcur) h₂)
    · obtain rfl := Except.ok.inj h₁
      exact ih hk hcur h₂

theorem wqSignalWakeUp_quiet (hk : QueueInv k) (h : wqSignalWakeUp t k = .ok k') :
    Quiet k k' := by
  unfold wqSignalWakeUp at h
  rw [bind_eq_ok] at h
  obtain ⟨x, _, h⟩ := h
  split at h
  · exact Except.ok.inj h ▸ .refl k
  · exact wqFinish_quiet hk h

theorem switchTo_quiet (h : switchTo t k = .ok k') : Quiet k k' := by
  unfold switchTo at h
  rw [bind_eq_ok] at h
  obtain ⟨x, hx, h⟩ := h
  split at h
  · cases h
  · obtain rfl := Except.ok.inj h
    refine ⟨?_, fun _ _ h => h⟩
    exact (forest_congr (k := k.setTask t _) rfl rfl rfl rfl).trans
      (forest_setTask (getTask_ok hx) rfl)

/-- Making a task ready that is not dead. -/
theorem schedEnqueue_quiet (ht : ∀ x, k.tasks t = some x → x.state ≠ .zombie)
    (h : schedEnqueue t k = .ok k') : Quiet k k' := by
  unfold schedEnqueue at h
  split at h
  · exact Except.ok.inj h ▸ .refl k
  · rw [bind_eq_ok] at h
    obtain ⟨x, hx, h⟩ := h
    have hx := getTask_ok hx
    obtain rfl := Except.ok.inj h
    refine ⟨?_, fun _ _ h => h⟩
    exact (forest_congr (k := k.setTask t _) rfl rfl rfl rfl).trans
      (forest_setTask hx (Task.node_withState (ht x hx) (by simp)))

theorem pickNext_quiet (hidle : ¬ k.HasState k.idle .zombie) (h : pickNext k = .ok k') :
    Quiet k k' := by
  unfold pickNext at h
  split at h
  · rw [bind_eq_ok] at h
    obtain ⟨x, _, h⟩ := h
    split at h
    · cases h
    · refine Quiet.trans ?_ (switchTo_quiet h)
      exact ⟨rfl, fun _ _ h => h⟩
  · split at h
    · exact Except.ok.inj h ▸ .refl k
    · rw [bind_eq_ok] at h
      obtain ⟨x, hx, h⟩ := h
      have hx := getTask_ok hx
      exact (Quiet.setTask hx (Task.node_withState (fun hz => hidle ⟨x, hx, hz⟩) (by simp))).trans
        (switchTo_quiet h)

theorem QueueInv.idle_not_zombie (hk : QueueInv k) : ¬ k.HasState k.idle .zombie := by
  intro hz
  rcases hk.idle_state with h | h
  · exact nomatch h.unique hz
  · exact nomatch h.unique hz

/-- `schedule` from its caller's point of view. -/
theorem schedule_quiet (hk : QueueInv k) (h : schedule k = .ok k') : Quiet k k' := by
  unfold schedule at h
  rw [bind_eq_ok] at h
  obtain ⟨cur, hcur, h⟩ := h
  have hcur := getTask_ok hcur
  split at h
  · cases h
  · dsimp only at h
    obtain ⟨k₁, hq, h₂⟩ : ∃ k₁, Quiet k k₁ ∧ pickNext k₁ = .ok k' := by
      split at h
      · rename_i hrun
        rw [bind_eq_ok] at h
        obtain ⟨k₁, h₁, h₂⟩ := h
        refine ⟨k₁, schedEnqueue_quiet (fun x hx hz => ?_) h₁, h₂⟩
        obtain rfl := Option.some.inj (hcur.symm.trans hx)
        rw [hz] at hrun
        cases hrun.1
      · exact ⟨k, .refl k, h⟩
    have hidle : ¬ k₁.HasState k₁.idle .zombie := by
      rintro ⟨x, hx, hz⟩
      have hnode := Kernel.forest_node hx
      have hi : k₁.idle = k.idle := congrArg Forest.idle hq.forest
      rw [hq.forest, hi] at hnode
      obtain ⟨y, hy, hyx⟩ := Kernel.exists_task hnode
      refine hk.idle_not_zombie ⟨y, hy, ?_⟩
      rw [← Task.node_zombie, hyx, Task.node_zombie]
      exact hz
    exact hq.trans (pickNext_quiet hidle h₂)

end QuietOps

/-! ## Exit -/

section Exit

variable {k : Kernel} {t : TaskId}

theorem SameQueues.some_of_some {k' : Kernel} (h : SameQueues k k') (ht : ∃ x, k.tasks t = some x) :
    ∃ x, k'.tasks t = some x := by
  obtain ⟨x, hx⟩ := ht
  have heq := h.tasks t
  rw [hx, Option.map_some, Option.map_eq_some_iff] at heq
  obtain ⟨y, hy, _⟩ := heq
  exact ⟨y, hy⟩

/-- One turn of the loop of `__task_reparent_children`. -/
theorem reparentChild_spec (ht : ∃ x, k.tasks t = some x) (hk : ∃ x, k.tasks k.kitoxD = some x)
    (hne : t ≠ k.kitoxD) : ∃ k', reparentChild k.kitoxD k t = .ok k' ∧
      k'.forest = k.forest.adoptAll [t] ∧ SameQueues k k' ∧ k'.kitoxD = k.kitoxD := by
  obtain ⟨c, hc⟩ := ht
  obtain ⟨i, hi⟩ := hk
  have hi' : (k.setTask t { c with parent := some k.kitoxD, realParent := some k.kitoxD }).tasks
      k.kitoxD = some i := (Kernel.setTask_of_ne k _ hne.symm).trans hi
  have hrun : reparentChild k.kitoxD k t = .ok
      ((k.setTask t { c with parent := some k.kitoxD, realParent := some k.kitoxD }).setTask
        k.kitoxD { i with children := t :: i.children }) := by
    unfold reparentChild
    rw [Kernel.getTask_eq hc, ok_bind]
    dsimp only
    rw [Kernel.getTask_eq hi', ok_bind]
  refine ⟨_, hrun, ?_, ?_, rfl⟩
  · unfold Kernel.forest Forest.adoptAll
    congr 1
    funext u
    by_cases huk : u = k.kitoxD
    · subst huk
      simp [Kernel.setTask, hi, Task.node, Forest.adopt, hne.symm]
    · by_cases hut : u = t
      · subst hut
        simp [Kernel.setTask, hc, Task.node, Forest.adopt, hne]
      · have hadopt : ∀ n : Node, Forest.adopt k.forest [t] u n = n := by
          intro n
          simp [Forest.adopt, hut, huk, Kernel.forest]
        simp only [Kernel.setTask, huk, hut, if_false]
        rw [Option.map_map]
        congr 1
        funext x
        exact (hadopt x.node).symm
  · have h₁ := SameQueues.setTask hc
      (y := { c with parent := some k.kitoxD, realParent := some k.kitoxD }) rfl rfl rfl
    exact h₁.trans (SameQueues.setTask hi' (y := { i with children := t :: i.children }) rfl rfl rfl)

/-- The loop of `__task_reparent_children`. -/
theorem reparentLoop_spec (cs : List TaskId) : ∀ {k : Kernel}, (∀ c ∈ cs, ∃ x, k.tasks c = some x) →
    (∃ x, k.tasks k.kitoxD = some x) → k.kitoxD ∉ cs →
    ∃ k', cs.foldlM (reparentChild k.kitoxD) k = .ok k' ∧ k'.forest = k.forest.adoptAll cs ∧
      SameQueues k k' := by
  induction cs with
  | nil =>
    intro k _ _ _
    exact ⟨k, rfl, (Forest.adoptAll_nil _).symm, .refl⟩
  | cons c cs ih =>
    intro k hcs hk hne
    rw [List.mem_cons, not_or] at hne
    obtain ⟨k₁, h₁, hf₁, hs₁, hk₁⟩ :=
      reparentChild_spec (hcs c List.mem_cons_self) hk (Ne.symm hne.1)
    obtain ⟨k₂, h₂, hf₂, hs₂⟩ := ih (k := k₁)
      (fun d hd => hs₁.some_of_some (hcs d (List.mem_cons_of_mem c hd)))
      (hk₁ ▸ hs₁.some_of_some hk) (hk₁ ▸ hne.2)
    refine ⟨k₂, ?_, ?_, hs₁.trans hs₂⟩
    · rw [List.foldlM_cons, h₁, ok_bind, ← hk₁]
      exact h₂
    · rw [hf₂, hf₁, Forest.adoptAll_adoptAll]
      rfl

/-- What `do_exit` has done to the tree when the dead task wakes its parent. -/
theorem forest_exit_eq {k₁ k₂ : Kernel} {x y : Task} (hx : k.tasks t = some x)
    (hne : t ≠ k.kitoxD) (hself : t ∉ x.children)
    (h₁ : k₁.forest = (k.setTask t { x with children := [] }).forest.adoptAll x.children)
    (hy : k₁.tasks t = some y) (h₂ : k₂ = k₁.setTask t { y with state := .zombie }) :
    k₂.forest = k.forest.exit t x.children := by
  have hnode : ∀ u, k₁.forest.node u =
      ((k.setTask t { x with children := [] }).forest.node u).map
        (k.forest.adopt x.children u) := by
    intro u
    rw [h₁]
    rfl
  have hi : k₁.idle = k.idle := congrArg Forest.idle h₁
  have hd : k₁.dummy = k.dummy := congrArg Forest.dummy h₁
  have hkd : k₁.kitoxD = k.kitoxD := congrArg Forest.kitoxD h₁
  -- the dead task is neither `kitoxD` nor adopted itself
  have hyn : y.pid = x.pid ∧ y.realParent = x.realParent ∧ y.parent = x.parent ∧
      y.children = [] := by
    have hty := hnode t
    have hkf : k.forest.kitoxD = k.kitoxD := rfl
    rw [Kernel.forest_node hy, Kernel.forest_node (Kernel.setTask_self k t _), Option.map_some,
      Option.some.injEq] at hty
    simp only [Forest.adopt, hself, hkf, hne, Task.node, if_false, Node.mk.injEq] at hty
    exact ⟨hty.1, hty.2.1, hty.2.2.1, hty.2.2.2.1⟩
  subst h₂
  unfold Forest.exit
  rw [Forest.mk.injEq]
  refine ⟨?_, hi, hd, hkd⟩
  funext u
  by_cases hut : u = t
  · subst hut
    rw [if_pos rfl, Kernel.forest_node hx, Option.map_some,
      Kernel.forest_node (Kernel.setTask_self k₁ u _)]
    simp [Task.node, hyn]
  · rw [if_neg hut]
    rw [Kernel.forest_setTask_of_ne k₁ _ hut, hnode u, Kernel.forest_setTask_of_ne k _ hut]

/-- `__task_reparent_children` of a task that is not a root. -/
theorem taskReparentChildren_spec (hf : k.forest.Inv) {x : Task} (hx : k.tasks t = some x)
    (hne : t ≠ k.kitoxD) : ∃ k', taskReparentChildren t k = .ok k' ∧ SameQueues k k' ∧
      k'.forest = (k.setTask t { x with children := [] }).forest.adoptAll x.children := by
  have hsame := SameQueues.setTask hx (y := { x with children := [] }) rfl rfl rfl
  have hchild : ∀ c ∈ x.children,
      ∃ y, (k.setTask t { x with children := [] }).tasks c = some y := by
    intro c hc
    obtain ⟨m, hm, _⟩ := hf.child t x.node (Kernel.forest_node hx) c hc
    obtain ⟨y, hy, _⟩ := Kernel.exists_task hm
    exact hsame.some_of_some ⟨y, hy⟩
  obtain ⟨m, hm, _⟩ := hf.root k.kitoxD (.inr (.inl rfl))
  obtain ⟨y, hy, _⟩ := Kernel.exists_task hm
  have hkitox : k.kitoxD ∉ x.children := fun h =>
    hf.not_root_of_child (Kernel.forest_node hx) h (.inr (.inl rfl))
  obtain ⟨k', h', hf', hs'⟩ := reparentLoop_spec x.children hchild
    (k := k.setTask t { x with children := [] }) (hsame.some_of_some ⟨y, hy⟩) hkitox
  refine ⟨k', ?_, hsame.trans hs', hf'⟩
  unfold taskReparentChildren
  rw [if_neg hne, Kernel.getTask_eq hx, ok_bind]
  exact h'

/-- `do_exit` of a task that is not a root: it becomes a dead leaf, its children pass to `kitoxD`,
and nobody waits on the queue of its parent. -/
theorem doExit_spec (hk : SchedInv k) (hf : k.forest.Inv) (hroot : ¬ k.forest.Root k.current)
    {x : Task} (hx : k.tasks k.current = some x) (status : ℕ) :
    ∃ k' p, doExit status k = .ok k' ∧ x.realParent = some p ∧
      k'.forest = k.forest.exit k.current x.children ∧
      ∀ q t, t ∈ k'.waitQueue q → t ∈ k.waitQueue q ∧ q ≠ .child p := by
  have hidle : k.current ≠ k.idle := fun h => hroot (.inl h)
  have hkitox : k.current ≠ k.kitoxD := fun h => hroot (.inr (.inl h))
  obtain ⟨p, m, hrp, _, hp, _, _⟩ := hf.parent k.current x.node (Kernel.forest_node hx) hroot
  obtain ⟨px, hpx, _⟩ := Kernel.exists_task hp
  -- the exit code is written and the task leaves the ready queue
  have hx₁ : (k.setTask k.current { x with exitCode := (status &&& 0xff) <<< 8 }).tasks k.current =
      some { x with exitCode := (status &&& 0xff) <<< 8 } := Kernel.setTask_self k _ _
  have hw := hk.writeCurrent hx (y := { x with exitCode := (status &&& 0xff) <<< 8 }) rfl rfl rfl
  have hsame₁ := SameQueues.setTask hx (y := { x with exitCode := (status &&& 0xff) <<< 8 })
    rfl rfl rfl
  generalize hk₁def : k.setTask k.current { x with exitCode := (status &&& 0xff) <<< 8 } = k₁
    at hx₁ hw hsame₁
  have hf₁ : (popSchedNode k.current k₁).forest = k.forest := by
    rw [← hk₁def]
    exact (forest_congr rfl rfl rfl rfl).trans (forest_setTask hx rfl)
  have hc₁ : k₁.current = k.current := hsame₁.current
  have hk₁ : SchedInv (popSchedNode k.current k₁) := by
    rw [← hc₁]
    exact hw.popSchedNode
  -- the children pass to `kitoxD`
  have hkd : (popSchedNode k.current k₁).kitoxD = k.kitoxD := congrArg Forest.kitoxD hf₁
  obtain ⟨k₂, h₂, hsame₂, hf₂⟩ := taskReparentChildren_spec (k := popSchedNode k.current k₁)
    (t := k.current) (hf₁ ▸ hf) hx₁ (hkd ▸ hkitox)
  have hk₂ := hsame₂.schedInv hk₁
  have hc₂ : k₂.current = k.current := hsame₂.current.trans hc₁
  obtain ⟨y, hy, hys⟩ := hk₂.current_running
  rw [hc₂] at hy
  -- the task is dead
  have hready : k.current ∉ k₂.readyQueue := by
    rw [hsame₂.readyQueue]
    exact List.Nodup.not_mem_erase hw.ready_nodup
  have hidle₂ : k.current ≠ k₂.idle := by
    rw [hsame₂.idle]
    exact fun h => hidle (h.trans hsame₁.idle)
  have hmoved := zombie_moved hk₂.toQueueInv hy hys hready hidle₂
  have hf₃ := forest_exit_eq hx₁ (hkd ▸ hkitox) (hf.irrefl _ _ (Kernel.forest_node hx)) hf₂ hy rfl
  generalize hk₃def : k₂.setTask k.current { y with state := .zombie } = k₃ at hmoved hf₃
  have hc₃ : k₃.current = k.current := by
    rw [← hk₃def]
    exact hc₂
  have hz : k₃.HasState k₃.current .zombie := by
    rw [hc₃]
    exact hmoved.hasState_self.mpr rfl
  obtain ⟨k₄, k', h₄, hnil, hwk, h', hsw, hne⟩ :=
    exit_switch_spec (hmoved.queueInv hk₂.toQueueInv) hz (.child p)
  have hquiet₄ := wqWakeAllN_quiet (.child p) _ (hmoved.queueInv hk₂.toQueueInv)
    (fun hwait => nomatch hwait.unique hz) h₄
  have hquiet' := schedule_quiet hwk.inv h'
  refine ⟨k', p, ?_, hrp, ?_, fun q u hu => ?_⟩
  · have hp₃ : ∃ z, k₃.tasks p = some z := by
      have hp₂ := hsame₂.some_of_some (hsame₁.some_of_some ⟨px, hpx⟩)
      obtain ⟨z, hz'⟩ := hp₂
      by_cases hpc : p = k.current
      · rw [hpc]
        exact ⟨_, hmoved.tasks_self⟩
      · exact ⟨z, (hmoved.tasks_of_ne hpc).trans hz'⟩
    obtain ⟨z, hz'⟩ := hp₃
    unfold doExit
    rw [Kernel.getTask_eq hx, ok_bind, if_neg (by simp [hidle, hkitox])]
    dsimp only
    rw [hk₁def, hc₁, show (popSchedNode k.current k₁).current = k.current from hc₁, h₂, ok_bind, hc₂,
      Kernel.getTask_eq hy, ok_bind, hk₃def]
    simp only [show x.realParent = some p from hrp]
    rw [Kernel.getTask_eq hz', ok_bind, h₄, ok_bind, h', ok_bind, if_neg hne]
  · rw [hquiet'.forest, hquiet₄.forest, hf₃, show k₁.forest = k.forest from hf₁]
  · have hu₄ := hquiet'.waitQueue q u hu
    have hu₃ := hquiet₄.waitQueue q u hu₄
    refine ⟨?_, ?_⟩
    · rw [← hk₃def, Kernel.setTask_waitQueue, hsame₂.waitQueue] at hu₃
      exact hsame₁.waitQueue ▸ hu₃
    · rintro rfl
      rw [hnil] at hu₄
      exact absurd hu₄ List.not_mem_nil

/-- Only a task with a parent exits. -/
theorem doExit_not_root (hf : k.forest.Inv) {k' : Kernel} {status : ℕ}
    (h : doExit status k = .ok k') : ¬ k.forest.Root k.current := by
  unfold doExit at h
  rw [bind_eq_ok] at h
  obtain ⟨x, hx, h⟩ := h
  have hx := getTask_ok hx
  split at h
  · cases h
  · rename_i hne
    intro hroot
    obtain ⟨n, hn, hr, _⟩ := hf.root k.current hroot
    rw [Kernel.forest_node hx] at hn
    obtain rfl := Option.some.inj hn
    -- the boot thread is left, and it has no parent to wake
    dsimp only at h
    rw [bind_eq_ok] at h
    obtain ⟨k₁, _, h⟩ := h
    rw [bind_eq_ok] at h
    obtain ⟨y, _, h⟩ := h
    simp only [show x.realParent = none from hr] at h
    cases h

/-- An exit in whatever way it was reached. -/
theorem doExit_tree (hk : SchedInv k) (hf : k.forest.Inv) {k' : Kernel} {status : ℕ}
    (h : doExit status k = .ok k') : ∃ x p, k.tasks k.current = some x ∧
      ¬ k.forest.Root k.current ∧ x.realParent = some p ∧
      k'.forest = k.forest.exit k.current x.children ∧
      ∀ q t, t ∈ k'.waitQueue q → t ∈ k.waitQueue q ∧ q ≠ .child p := by
  have hroot := doExit_not_root hf h
  obtain ⟨x, hx, _⟩ := hk.current_running
  obtain ⟨k₁, p, h₁, hp, hf₁, hw₁⟩ := doExit_spec hk hf hroot hx status
  rw [h] at h₁
  obtain rfl := Except.ok.inj h₁
  exact ⟨x, p, hx, hroot, hp, hf₁, hw₁⟩

/-- Whether the loop over the pending signals of a task ends in `do_exit`. -/
def handlersExit (copyOk : Bool) : List ℕ → Task → Bool
  | [], _ => false
  | sig :: sigs, cur =>
    if !signalIsSet sig cur then handlersExit copyOk sigs cur
    else
      match cur.sigHandlers sig with
      | .ignore => handlersExit copyOk sigs (signalDequeue sig cur)
      | .default =>
        if cur.pid = 0 ∨ cur.pid = 1 then handlersExit copyOk sigs (signalDequeue sig cur) else true
      | .user _ => !copyOk

/-- The handlers of the pending signals either leave the tree alone or end the current task. -/
theorem callHandlers_cases (copyOk : Bool) (sigs : List ℕ) : ∀ {k k' : Kernel} {x : Task},
    SchedInv k → k.tasks k.current = some x → callHandlers copyOk sigs k = .ok k' →
    Quiet k k' ∨ (handlersExit copyOk sigs x = true ∧ ∃ k₁ status, Quiet k k₁ ∧ SchedInv k₁ ∧
      k₁.current = k.current ∧ doExit status k₁ = .ok k') := by
  induction sigs with
  | nil =>
    intro k k' x _ _ h
    exact .inl (Except.ok.inj h ▸ .refl k)
  | cons sig sigs ih =>
    intro k k' x hk hx h
    unfold callHandlers at h
    rw [Kernel.getTask_eq hx, ok_bind] at h
    unfold handlersExit
    split at h
    next hset =>
      rw [if_pos hset]
      exact ih hk hx h
    next hset =>
      rw [if_neg hset]
      have hk₁ := hk.writeCurrent hx (y := signalDequeue sig x) rfl rfl rfl
      have hq₁ : Quiet k (k.setTask k.current (signalDequeue sig x)) := .setTask hx rfl
      -- the signal is dequeued, the loop goes on
      have hgo : callHandlers copyOk sigs (k.setTask k.current (signalDequeue sig x)) = .ok k' →
          Quiet k k' ∨ (handlersExit copyOk sigs (signalDequeue sig x) = true ∧ ∃ k₁ status,
            Quiet k k₁ ∧ SchedInv k₁ ∧ k₁.current = k.current ∧ doExit status k₁ = .ok k') := by
        intro h
        rcases ih hk₁ (Kernel.setTask_self k _ _) h with hq | ⟨he, k₁, status, hq, hs, hc, hx⟩
        · exact .inl (hq₁.trans hq)
        · exact .inr ⟨he, k₁, status, hq₁.trans hq, hs, hc, hx⟩
      dsimp only at h ⊢
      cases hh : x.sigHandlers sig with
      | ignore =>
        rw [hh] at h
        exact hgo h
      | default =>
        rw [hh] at h
        dsimp only at h ⊢
        split at h
        next hpid =>
          rw [if_pos hpid]
          exact hgo h
        next hpid =>
          rw [if_neg hpid]
          exact .inr ⟨rfl, _, _, hq₁, hk₁, rfl, h⟩
      | user addr =>
        rw [hh] at h
        dsimp only at h ⊢
        split at h
        next => exact .inl (Except.ok.inj h ▸ hq₁)
        next hcopy => exact .inr ⟨by simpa using hcopy, _, _, hq₁, hk₁, rfl, h⟩

end Exit

/-! ## Going to sleep -/

section Sleep

variable {k k' : Kernel}

/-- `wq_prepare` of the current task followed by `schedule`. -/
theorem sleep_tree (hk : SchedInv k) (hidle : k.current ≠ k.idle) {wq : WqHead}
    (hwq : ∀ u, wq = .child u → k.current = u)
    (h : (wqPrepare wq k.current k >>= schedule) = .ok k') : k'.forest = k.forest ∧
      ∀ q t, t ∈ k'.waitQueue q → t ∈ k.waitQueue q ∨ (t = k.current ∧ q = wq) := by
  obtain ⟨x, hx, hs⟩ := hk.current_running
  have hn : x.wqNode = none := by simpa [hs] using hk.waiting_iff _ x hx
  have hk₁ := (asleep_moved hk.toQueueInv hx hn hidle hwq).queueInv hk.toQueueInv
  rw [wqPrepare_eq hx hn, ok_bind] at h
  have hq := schedule_quiet hk₁ h
  refine ⟨hq.forest.trans ?_, fun q t ht => ?_⟩
  · unfold asleep
    refine (forest_congr rfl rfl rfl rfl).trans (forest_setTask (k := k) hx ?_)
    simp [Task.node, hs]
  · have ht₁ := hq.waitQueue q t ht
    rw [asleep_waitQueue] at ht₁
    split at ht₁
    next hqw =>
      rcases List.mem_cons.mp ht₁ with rfl | hmem
      · exact .inr ⟨rfl, hqw⟩
      · exact .inl (hqw ▸ hmem)
    next => exact .inl ht₁

end Sleep

/-! ## New tasks -/

section Create

variable {k k' : Kernel} {p t : TaskId}

/-- `task_append_child` of a task that was just made. -/
theorem appendChild_forest {x y : Task} (ht : k.tasks t = some x) (hp : k.tasks p = some y)
    (hne : p ≠ t) (h : taskAppendChild p t k = .ok k') :
    k'.waitQueue = k.waitQueue ∧ k'.tasks t = some { x with parent := some p, realParent := some p } ∧
      k'.idle = k.idle ∧ k'.dummy = k.dummy ∧ k'.kitoxD = k.kitoxD ∧
      ∀ u, u ≠ t → k'.forest.node u = if u = p then
        some { y.node with children := t :: y.children } else k.forest.node u := by
  have hp₁ : (k.setTask t { x with parent := some p, realParent := some p }).tasks p = some y :=
    (Kernel.setTask_of_ne k _ hne).trans hp
  unfold taskAppendChild at h
  rw [Kernel.getTask_eq ht, ok_bind] at h
  dsimp only at h
  rw [Kernel.getTask_eq hp₁, ok_bind] at h
  obtain rfl := Except.ok.inj h
  refine ⟨rfl, ?_, rfl, rfl, rfl, fun u hu => ?_⟩
  · exact (Kernel.setTask_of_ne _ _ (Ne.symm hne)).trans (Kernel.setTask_self k t _)
  · split
    next hup =>
      rw [hup]
      exact Kernel.forest_node (Kernel.setTask_self _ p _)
    next hup =>
      rw [Kernel.forest_setTask_of_ne _ _ hup, Kernel.forest_setTask_of_ne _ _ hu]

/-- A task is made below `p` and becomes ready. -/
theorem create_tree {x y : Task} (parent : Kernel → TaskId) (hp : k.tasks p = some y)
    (hs : x.state = .running) (hc : x.children = [])
    (hparent : parent ((k.setTask t x).setQueue (.child t) []) = p)
    (h : (addTask t x k >>= fun k => taskAppendChild (parent k) t k >>= schedEnqueue t) = .ok k') :
    k.tasks t = none ∧ k'.forest = k.forest.create p t x.pid ∧
      ∀ q u, u ∈ k'.waitQueue q → u ∈ k.waitQueue q := by
  rw [bind_eq_ok] at h
  obtain ⟨k₁, h₁, h⟩ := h
  unfold addTask at h₁
  cases ht : k.tasks t with
  | some z =>
    rw [ht] at h₁
    cases h₁
  | none =>
    rw [ht] at h₁
    obtain rfl := Except.ok.inj h₁
    rw [hparent, bind_eq_ok] at h
    obtain ⟨k₂, h₂, h₃⟩ := h
    -- The descriptor was free, and the parent's is not.
    have hne : p ≠ t := by
      rintro rfl
      rw [ht] at hp
      cases hp
    have hp₁ : ((k.setTask t x).setQueue (.child t) []).tasks p = some y :=
      (Kernel.setTask_of_ne k x hne).trans hp
    -- The new task becomes a child; then it is made ready, which no node shows.
    obtain ⟨hw₂, ht₂, hi, hd, hkd, hn₂⟩ :=
      appendChild_forest (k := (k.setTask t x).setQueue (.child t) []) (x := x)
        (Kernel.setTask_self k t x) hp₁ hne h₂
    have hq := schedEnqueue_quiet (k := k₂) (t := t) (fun z hz hzz => by
      obtain rfl := Option.some.inj (ht₂.symm.trans hz)
      rw [show _ = x.state from rfl, hs] at hzz
      cases hzz) h₃
    refine ⟨rfl, ?_, fun q u hu => ?_⟩
    · rw [hq.forest]
      unfold Forest.create
      rw [Forest.mk.injEq]
      refine ⟨?_, hi, hd, hkd⟩
      funext u
      -- The node of the task itself is a leaf, that of its parent has one child more.
      by_cases hut : u = t
      · subst hut
        rw [if_pos rfl, Kernel.forest_node ht₂]
        simp [Task.node, Forest.leaf, hc, hs]
      · rw [if_neg hut, hn₂ u hut]
        have hold : ((k.setTask t x).setQueue (.child t) []).forest.node u = k.forest.node u :=
          Kernel.forest_setTask_of_ne k x hut
        rw [hold]
        split
        next hup =>
          rw [hup, Kernel.forest_node hp]
          rfl
        next => rfl
    · -- The only queue that is new is empty.
      have hu₁ := hq.waitQueue q u hu
      rw [hw₂] at hu₁
      unfold Kernel.setQueue at hu₁
      dsimp only at hu₁
      split at hu₁
      · cases hu₁
      · exact hu₁

theorem execFn_tree {pid : ℕ} {y : Task} (hp : k.tasks k.kitoxD = some y)
    (h : execFn t pid k = .ok k') :
    k.tasks t = none ∧ k'.forest = k.forest.create k.kitoxD t pid ∧
      ∀ q u, u ∈ k'.waitQueue q → u ∈ k.waitQueue q :=
  create_tree Kernel.kitoxD hp rfl rfl rfl h

theorem sysFork_tree {pid : ℕ} {y : Task} (hp : k.tasks k.current = some y)
    (h : sysFork t pid k = .ok k') :
    k.tasks t = none ∧ k'.forest = k.forest.create k.current t pid ∧
      ∀ q u, u ∈ k'.waitQueue q → u ∈ k.waitQueue q := by
  unfold sysFork at h
  rw [Kernel.getTask_eq hp, ok_bind] at h
  split at h
  · cases h
  · exact create_tree Kernel.current hp rfl rfl rfl h

end Create

/-! ## Waiting for children -/

section Waitpid

variable {k k' : Kernel} {t : TaskId}

/-- The call reaps a child with the given pid. -/
def Reaps (pid : ℤ) (n : Node) : Prop := n.zombie = true ∧ (pid = -1 ∨ (n.pid : ℤ) = pid)

/-- What `find_zombie_child` looks for. -/
theorem findZombieChild_some {children : List TaskId} {pid : ℤ}
    (h : findZombieChild children pid k = some t) :
    t ∈ children ∧ ∃ n, k.forest.node t = some n ∧ Reaps pid n := by
  refine ⟨List.mem_of_find?_eq_some h, ?_⟩
  have hfound := List.find?_some h
  cases ht : k.tasks t with
  | none => simp [ht] at hfound
  | some c =>
    simp only [ht, decide_eq_true_eq] at hfound
    exact ⟨c.node, Kernel.forest_node ht, Task.node_zombie.mpr hfound.1, hfound.2⟩

theorem findZombieChild_none {children : List TaskId} {pid : ℤ}
    (h : findZombieChild children pid k = none) (ht : t ∈ children) {n : Node}
    (hn : k.forest.node t = some n) : ¬ Reaps pid n := by
  obtain ⟨c, hc, rfl⟩ := Kernel.exists_task hn
  rintro ⟨hz, hpid⟩
  have hno := List.find?_eq_none.mp h t ht
  rw [hc] at hno
  simp only [decide_eq_true_eq, not_and] at hno
  exact hno (Task.node_zombie.mp hz) hpid

/-- The three ways in which one turn of the loop of `sys_waitpid` ends. -/
inductive WaitTurn (k : Kernel) (pid : ℤ) (r : WaitResult) (k' : Kernel) : Prop where
  /-- The call fails. -/
  | fails (value : ℤ) (hv : value < 0) (hr : r = .ret value) (hk : k' = k)
  /-- A dead child is released and its pid is returned. -/
  | reaps (t : TaskId) (x : Task) (n : Node) (hx : k.tasks k.current = some x)
      (ht : t ∈ x.children) (hn : k.forest.node t = some n) (hreaps : Reaps pid n)
      (hr : r = .ret n.pid) (hf : k'.forest = k.forest.reap k.current t)
      (hw : k'.waitQueue = k.waitQueue)
  /-- The caller goes to sleep without such a child. -/
  | sleeps (hr : r = .blocked) (hf : k'.forest = k.forest)
      (hnone : ∀ x, k.tasks k.current = some x → ∀ c ∈ x.children, ∀ n,
        k.forest.node c = some n → ¬ Reaps pid n)
      (hw : ∀ q t, t ∈ k'.waitQueue q →
        t ∈ k.waitQueue q ∨ (t = k.current ∧ q = .child k.current))

theorem taskRelease_forest {p : TaskId} (h : taskRelease p t k = .ok k') :
    k'.forest = k.forest.reap p t ∧ k'.waitQueue = k.waitQueue := by
  unfold taskRelease at h
  rw [bind_eq_ok] at h
  obtain ⟨x, hx, h⟩ := h
  have hx := getTask_ok hx
  obtain rfl := Except.ok.inj h
  refine ⟨?_, rfl⟩
  unfold Forest.reap
  rw [Forest.mk.injEq]
  refine ⟨?_, rfl, rfl, rfl⟩
  funext u
  unfold Kernel.forest
  dsimp only
  by_cases hut : u = t
  · rw [if_pos hut, if_pos hut]
    rfl
  · rw [if_neg hut, if_neg hut]
    by_cases hup : u = p
    · rw [if_pos hup, hup, Kernel.setTask_self, hx]
      rfl
    · rw [if_neg hup, Kernel.setTask_of_ne k _ hup]

theorem sysWaitpid_turn (hk : SchedInv k) (hidle : k.current ≠ k.idle)
    {pid : ℤ} {copyOk : Bool} {r : WaitResult}
    (h : sysWaitpid pid copyOk k = .ok (r, k')) : WaitTurn k pid r k' := by
  -- blocking: no child that the call would reap
  have hblock : (∀ x, k.tasks k.current = some x → ∀ c ∈ x.children, ∀ n,
        k.forest.node c = some n → ¬ Reaps pid n) →
      (waitForChild k >>= fun k => Except.ok (WaitResult.blocked, k)) = .ok (r, k') →
      WaitTurn k pid r k' := by
    intro hnone h
    rw [bind_eq_ok] at h
    obtain ⟨k₁, h₁, h₂⟩ := h
    obtain ⟨rfl, rfl⟩ := Prod.mk.inj (Except.ok.inj h₂)
    obtain ⟨hf₁, hw₁⟩ := sleep_tree hk hidle (fun _ h => WqHead.child.inj h) h₁
    exact .sleeps rfl hf₁ hnone hw₁
  unfold sysWaitpid at h
  split at h
  · obtain ⟨rfl, rfl⟩ := Prod.mk.inj (Except.ok.inj h)
    exact .fails (-22) (by decide) rfl rfl
  · rw [bind_eq_ok] at h
    obtain ⟨x, hx, h⟩ := h
    have hx := getTask_ok hx
    split at h
    next hnil =>
      split at h
      · obtain ⟨rfl, rfl⟩ := Prod.mk.inj (Except.ok.inj h)
        exact .fails (-10) (by decide) rfl rfl
      · refine hblock (fun y hy c hc => ?_) h
        obtain rfl := Option.some.inj (hx.symm.trans hy)
        rw [hnil] at hc
        cases hc
    next =>
      split at h
      · obtain ⟨rfl, rfl⟩ := Prod.mk.inj (Except.ok.inj h)
        exact .fails (-10) (by decide) rfl rfl
      · split at h
        next z hz =>
          obtain ⟨hmem, n, hn, hreaps⟩ := findZombieChild_some hz
          rw [bind_eq_ok] at h
          obtain ⟨c, hc, h⟩ := h
          have hc := getTask_ok hc
          split at h
          · obtain ⟨rfl, rfl⟩ := Prod.mk.inj (Except.ok.inj h)
            exact .fails (-14) (by decide) rfl rfl
          · rw [bind_eq_ok] at h
            obtain ⟨k₁, h₁, h₂⟩ := h
            obtain ⟨rfl, rfl⟩ := Prod.mk.inj (Except.ok.inj h₂)
            obtain ⟨hf₁, hw₁⟩ := taskRelease_forest h₁
            rw [Kernel.forest_node hc] at hn
            obtain rfl := Option.some.inj hn
            exact .reaps z x c.node hx hmem (Kernel.forest_node hc) hreaps rfl hf₁ hw₁
        next hz =>
          refine hblock (fun y hy c hc n hn => ?_) h
          obtain rfl := Option.some.inj (hx.symm.trans hy)
          exact findZombieChild_none hz hc hn

end Waitpid

end Kfs.Proc
