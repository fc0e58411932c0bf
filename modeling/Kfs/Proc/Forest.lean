import Kfs.Proc.Scheduler
import Kfs.Utils.IdManager
import Mathlib.Data.List.Nodup

/-!
# The process tree

What the process tree is for: each task hangs below the task that will wait for it, and a dead task
has nothing below it. `Forest` keeps of a kernel state the fields that say so; creating, exiting and
reaping are three operations on it, and each keeps the invariant `Forest.Inv`.

`idle`, `kitoxD` and the boot thread are the roots.
-/

namespace Kfs.Proc

open Kfs.Utils

/-! ## Forests -/

/-- The fields of a task that place it in the tree. -/
structure Node where
  pid : ℕ
  realParent : Option TaskId
  parent : Option TaskId
  children : List TaskId
  zombie : Bool
  deriving DecidableEq, Repr

/-- The tree of a kernel state. -/
structure Forest where
  node : TaskId → Option Node
  idle : TaskId
  dummy : TaskId
  kitoxD : TaskId

/-- The place of a task in the tree. -/
def Task.node (x : Task) : Node where
  pid := x.pid
  realParent := x.realParent
  parent := x.parent
  children := x.children
  zombie := x.state = .zombie

/-- The tree of a kernel state. -/
def Kernel.forest (k : Kernel) : Forest where
  node t := (k.tasks t).map Task.node
  idle := k.idle
  dummy := k.dummy
  kitoxD := k.kitoxD

namespace Forest

/-- The tasks that are nobody's child. -/
def Root (f : Forest) (t : TaskId) : Prop := t = f.idle ∨ t = f.kitoxD ∨ t = f.dummy

/-- The invariant of the tree. -/
structure Inv (f : Forest) : Prop where
  /-- A child names the task in whose list it is. -/
  child : ∀ p n, f.node p = some n → ∀ c ∈ n.children, ∃ m, f.node c = some m ∧
    m.realParent = some p
  nodup : ∀ p n, f.node p = some n → n.children.Nodup
  irrefl : ∀ p n, f.node p = some n → p ∉ n.children
  /-- A task hangs below a task that is alive. -/
  parent : ∀ t n, f.node t = some n → ¬ f.Root t → ∃ p m, n.realParent = some p ∧
    n.parent = some p ∧ f.node p = some m ∧ m.zombie = false ∧ t ∈ m.children
  root : ∀ t, f.Root t → ∃ n, f.node t = some n ∧ n.realParent = none ∧ n.zombie = false
  zombie : ∀ t n, f.node t = some n → n.zombie = true → n.children = []
  distinct : f.idle ≠ f.dummy ∧ f.kitoxD ≠ f.dummy ∧ f.idle ≠ f.kitoxD

/-- A leaf below `p`. -/
def leaf (p : TaskId) (pid : ℕ) : Node where
  pid := pid
  realParent := some p
  parent := some p
  children := []
  zombie := false

/-- A new task `t` at the head of the children of `p`. -/
def create (f : Forest) (p t : TaskId) (pid : ℕ) : Forest :=
  { f with node := fun u =>
      if u = t then some (leaf p pid)
      else if u = p then (f.node u).map fun n => { n with children := t :: n.children }
      else f.node u }

/-- A node after its parent, with the children `cs`, has exited. -/
def adopt (f : Forest) (cs : List TaskId) (u : TaskId) (n : Node) : Node :=
  { n with
    realParent := if u ∈ cs then some f.kitoxD else n.realParent
    parent := if u ∈ cs then some f.kitoxD else n.parent
    children := if u = f.kitoxD then cs.reverse ++ n.children else n.children }

/-- The tree in which the tasks `cs` have passed to `kitoxD`. -/
def adoptAll (f : Forest) (cs : List TaskId) : Forest :=
  { f with node := fun u => (f.node u).map (f.adopt cs u) }

/-- `t` dies and its children `cs` pass to `kitoxD`. -/
def exit (f : Forest) (t : TaskId) (cs : List TaskId) : Forest :=
  { f with node := fun u =>
      if u = t then (f.node u).map fun n => { n with children := [], zombie := true }
      else (f.node u).map (f.adopt cs u) }

/-- The dead child `t` of `p` is released. -/
def reap (f : Forest) (p t : TaskId) : Forest :=
  { f with node := fun u =>
      if u = t then none
      else if u = p then (f.node u).map fun n => { n with children := n.children.erase t }
      else f.node u }

@[simp] theorem create_root (f : Forest) (p t : TaskId) (pid : ℕ) (u : TaskId) :
    (f.create p t pid).Root u ↔ f.Root u := Iff.rfl

@[simp] theorem exit_root (f : Forest) (t : TaskId) (cs : List TaskId) (u : TaskId) :
    (f.exit t cs).Root u ↔ f.Root u := Iff.rfl

@[simp] theorem reap_root (f : Forest) (p t u : TaskId) : (f.reap p t).Root u ↔ f.Root u := Iff.rfl

theorem adoptAll_nil (f : Forest) : f.adoptAll [] = f := by
  have hid : ∀ u, f.adopt [] u = id := by
    intro u
    funext n
    simp [adopt]
  cases f
  simp [adoptAll, hid]

/-- Children adopted one after the other. -/
theorem adoptAll_adoptAll (f : Forest) (cs ds : List TaskId) :
    (f.adoptAll cs).adoptAll ds = f.adoptAll (cs ++ ds) := by
  unfold adoptAll
  congr 1
  funext u
  dsimp only
  rw [Option.map_map]
  congr 1
  funext n
  unfold adopt
  simp only [Function.comp, List.mem_append, List.reverse_append, List.append_assoc, Node.mk.injEq,
    true_and, and_true]
  refine ⟨?_, ?_, ?_⟩
  · by_cases hd : u ∈ ds <;> simp [hd]
  · by_cases hd : u ∈ ds <;> simp [hd]
  · by_cases hu : u = f.kitoxD <;> simp [hu]

/-! ## The invariant -/

section Inv

variable {f : Forest} {p t u : TaskId} {n m : Node}

/-- A child is in the list of its parent only. -/
theorem Inv.child_unique (hf : f.Inv) (hp : f.node p = some n) (ht : t ∈ n.children)
    (hu : f.node u = some m) (ht' : t ∈ m.children) : u = p := by
  obtain ⟨c, hc, hr⟩ := hf.child p n hp t ht
  obtain ⟨c', hc', hr'⟩ := hf.child u m hu t ht'
  rw [hc] at hc'
  obtain rfl := Option.some.inj hc'
  rw [hr] at hr'
  exact (Option.some.inj hr').symm

/-- A root is nobody's child. -/
theorem Inv.not_root_of_child (hf : f.Inv) (hp : f.node p = some n) (ht : t ∈ n.children) :
    ¬ f.Root t := by
  intro hroot
  obtain ⟨c, hc, hr⟩ := hf.child p n hp t ht
  obtain ⟨c', hc', hr', _⟩ := hf.root t hroot
  rw [hc] at hc'
  obtain rfl := Option.some.inj hc'
  rw [hr] at hr'
  cases hr'

/-- Nobody is the child of itself unless it is in its own list; an unused address is in no list. -/
theorem Inv.notMem_of_none (hf : f.Inv) (ht : f.node t = none) (hp : f.node p = some n) :
    t ∉ n.children := by
  intro hmem
  obtain ⟨c, hc, _⟩ := hf.child p n hp t hmem
  rw [ht] at hc
  cases hc

/-! ### A new task -/

/-- What the nodes of the tree are after a task was created. -/
theorem create_cases {pid : ℕ} (h : (f.create p t pid).node u = some m) :
    (u = t ∧ m = leaf p pid) ∨
    (u ≠ t ∧ u = p ∧ ∃ n, f.node u = some n ∧ m = { n with children := t :: n.children }) ∨
    (u ≠ t ∧ u ≠ p ∧ f.node u = some m) := by
  unfold create at h
  dsimp only at h
  by_cases hut : u = t
  · rw [if_pos hut] at h
    exact .inl ⟨hut, (Option.some.inj h).symm⟩
  · rw [if_neg hut] at h
    by_cases hup : u = p
    · rw [if_pos hup, Option.map_eq_some_iff] at h
      obtain ⟨n, hn, rfl⟩ := h
      exact .inr (.inl ⟨hut, hup, n, hn, rfl⟩)
    · rw [if_neg hup] at h
      exact .inr (.inr ⟨hut, hup, h⟩)

/-- A node that was there is there, with its place unchanged but for a longer list. -/
theorem create_of_some (pid : ℕ) (ht : f.node t = none) (hu : f.node u = some n) :
    ∃ m, (f.create p t pid).node u = some m ∧ m.pid = n.pid ∧ m.realParent = n.realParent ∧
      m.parent = n.parent ∧ m.zombie = n.zombie ∧ ∀ c ∈ n.children, c ∈ m.children := by
  have hut : u ≠ t := by
    rintro rfl
    rw [ht] at hu
    cases hu
  unfold create
  dsimp only
  rw [if_neg hut]
  by_cases hup : u = p
  · rw [if_pos hup, hu]
    exact ⟨_, rfl, rfl, rfl, rfl, rfl, fun c hc => List.mem_cons_of_mem t hc⟩
  · rw [if_neg hup, hu]
    exact ⟨n, rfl, rfl, rfl, rfl, rfl, fun c hc => hc⟩

theorem Inv.create (hf : f.Inv) {pid : ℕ} (ht : f.node t = none) (hp : f.node p = some n)
    (halive : n.zombie = false) : (f.create p t pid).Inv where
  child q m hq c hc := by
    rcases create_cases hq with ⟨_, rfl⟩ | ⟨_, rfl, m', hm', rfl⟩ | ⟨_, _, hq'⟩
    · cases hc
    · rcases List.mem_cons.mp hc with rfl | hc
      · exact ⟨leaf q pid, if_pos rfl, rfl⟩
      · obtain ⟨x, hx, hr⟩ := hf.child q m' hm' c hc
        obtain ⟨y, hy, _, hry, _⟩ := create_of_some (p := q) pid ht hx
        exact ⟨y, hy, hry.trans hr⟩
    · obtain ⟨x, hx, hr⟩ := hf.child q m hq' c hc
      obtain ⟨y, hy, _, hry, _⟩ := create_of_some (p := p) pid ht hx
      exact ⟨y, hy, hry.trans hr⟩
  nodup q m hq := by
    rcases create_cases hq with ⟨_, rfl⟩ | ⟨_, rfl, m', hm', rfl⟩ | ⟨_, _, hq'⟩
    · exact List.nodup_nil
    · exact List.nodup_cons.mpr ⟨hf.notMem_of_none ht hm', hf.nodup q m' hm'⟩
    · exact hf.nodup q m hq'
  irrefl q m hq := by
    rcases create_cases hq with ⟨_, rfl⟩ | ⟨hne, rfl, m', hm', rfl⟩ | ⟨_, _, hq'⟩
    · exact List.not_mem_nil
    · rw [List.mem_cons, not_or]
      exact ⟨hne, hf.irrefl q m' hm'⟩
    · exact hf.irrefl q m hq'
  parent u m hu hroot := by
    have htp : p ≠ t := by
      rintro rfl
      rw [ht] at hp
      cases hp
    -- the parent of a task that was there before
    have hold : ∀ x, f.node u = some x → m.realParent = x.realParent → m.parent = x.parent →
        ∃ q y, m.realParent = some q ∧ m.parent = some q ∧
          (f.create p t pid).node q = some y ∧ y.zombie = false ∧ u ∈ y.children := by
      intro x hx hr hpa
      obtain ⟨q, y, hrq, hpq, hq, hz, hmem⟩ := hf.parent u x hx hroot
      obtain ⟨y', hy', _, _, _, hz', hsub⟩ := create_of_some (p := p) pid ht hq
      exact ⟨q, y', hr.trans hrq, hpa.trans hpq, hy', hz'.trans hz, hsub u hmem⟩
    rcases create_cases hu with ⟨rfl, rfl⟩ | ⟨_, rfl, m', hm', rfl⟩ | ⟨_, _, hu'⟩
    · refine ⟨p, { n with children := u :: n.children }, rfl, rfl, ?_, halive, List.mem_cons_self⟩
      unfold Forest.create
      dsimp only
      rw [if_neg htp, if_pos rfl, hp]
      rfl
    · exact hold m' hm' rfl rfl
    · exact hold m hu' rfl rfl
  root u hu := by
    obtain ⟨x, hx, hr, hz⟩ := hf.root u hu
    obtain ⟨y, hy, _, hry, _, hzy, _⟩ := create_of_some (p := p) pid ht hx
    exact ⟨y, hy, hry.trans hr, hzy.trans hz⟩
  zombie u m hu hz := by
    rcases create_cases hu with ⟨_, rfl⟩ | ⟨_, rfl, m', hm', rfl⟩ | ⟨_, _, hu'⟩
    · rfl
    · rw [hp] at hm'
      obtain rfl := Option.some.inj hm'
      rw [halive] at hz
      cases hz
    · exact hf.zombie u m hu' hz
  distinct := hf.distinct

/-! ### A task that dies -/

theorem exit_of_ne {cs : List TaskId} (hu : u ≠ t) :
    (f.exit t cs).node u = (f.node u).map (f.adopt cs u) := if_neg hu

theorem exit_self {cs : List TaskId} (ht : f.node t = some n) :
    (f.exit t cs).node t = some { n with children := [], zombie := true } := by
  unfold exit
  dsimp only
  rw [if_pos rfl, ht]
  rfl

/-- What the nodes of the tree are after a task has died. -/
theorem exit_cases {cs : List TaskId} (h : (f.exit t cs).node u = some m) :
    ∃ n, f.node u = some n ∧ ((u = t ∧ m = { n with children := [], zombie := true }) ∨
      (u ≠ t ∧ m = f.adopt cs u n)) := by
  by_cases hut : u = t
  · subst hut
    unfold exit at h
    dsimp only at h
    rw [if_pos rfl, Option.map_eq_some_iff] at h
    obtain ⟨n, hn, rfl⟩ := h
    exact ⟨n, hn, .inl ⟨rfl, rfl⟩⟩
  · rw [exit_of_ne hut, Option.map_eq_some_iff] at h
    obtain ⟨n, hn, rfl⟩ := h
    exact ⟨n, hn, .inr ⟨hut, rfl⟩⟩

/-- The children of `kitoxD` after a task has died. -/
theorem adopt_kitoxD_children (f : Forest) (cs : List TaskId) (x : Node) :
    (f.adopt cs f.kitoxD x).children = cs.reverse ++ x.children := if_pos rfl

theorem adopt_children_of_ne {cs : List TaskId} (hu : u ≠ f.kitoxD) :
    (f.adopt cs u n).children = n.children := if_neg hu

theorem adopt_realParent_of_mem {cs : List TaskId} (hu : u ∈ cs) :
    (f.adopt cs u n).realParent = some f.kitoxD := if_pos hu

theorem adopt_realParent_of_notMem {cs : List TaskId} (hu : u ∉ cs) :
    (f.adopt cs u n).realParent = n.realParent := if_neg hu

theorem Inv.exit (hf : f.Inv) (ht : f.node t = some n) (hroot : ¬ f.Root t) :
    (f.exit t n.children).Inv := by
  have hk : f.kitoxD ≠ t := fun h => hroot (.inr (.inl h.symm))
  obtain ⟨x, hx, hxr, hxz⟩ := hf.root f.kitoxD (.inr (.inl rfl))
  have hkitox : (f.exit t n.children).node f.kitoxD = some (f.adopt n.children f.kitoxD x) := by
    rw [exit_of_ne hk, hx]
    rfl
  have hself : t ∉ n.children := hf.irrefl t n ht
  -- a task that was in another list than that of `t` keeps its parent
  have hkeep : ∀ q y c, f.node q = some y → q ≠ t → c ∈ y.children →
      ∃ z, (f.exit t n.children).node c = some z ∧ z.realParent = some q := by
    intro q y c hq hqt hc
    obtain ⟨z, hz, hr⟩ := hf.child q y hq c hc
    have hnot : c ∉ n.children := fun h => hqt (hf.child_unique ht h hq hc)
    by_cases hct : c = t
    · subst hct
      exact ⟨_, exit_self hz, hr⟩
    · exact ⟨f.adopt n.children c z, by rw [exit_of_ne hct, hz]; rfl,
        (adopt_realParent_of_notMem hnot).trans hr⟩
  have hadopted : ∀ c ∈ n.children, ∃ z, (f.exit t n.children).node c = some z ∧
      z.realParent = some f.kitoxD := by
    intro c hc
    obtain ⟨z, hz, _⟩ := hf.child t n ht c hc
    have hct : c ≠ t := fun h => hself (h ▸ hc)
    exact ⟨f.adopt n.children c z, by rw [exit_of_ne hct, hz]; rfl, adopt_realParent_of_mem hc⟩
  exact {
    child := by
      intro q m hq c hc
      obtain ⟨y, hy, ⟨rfl, rfl⟩ | ⟨hqt, rfl⟩⟩ := exit_cases hq
      · cases hc
      · by_cases hqk : q = f.kitoxD
        · subst hqk
          rw [adopt_kitoxD_children, List.mem_append, List.mem_reverse] at hc
          rcases hc with hc | hc
          · exact hadopted c hc
          · exact hkeep f.kitoxD y c hy hqt hc
        · rw [adopt_children_of_ne hqk] at hc
          exact hkeep q y c hy hqt hc
    nodup := by
      intro q m hq
      obtain ⟨y, hy, ⟨rfl, rfl⟩ | ⟨hqt, rfl⟩⟩ := exit_cases hq
      · exact List.nodup_nil
      · by_cases hqk : q = f.kitoxD
        · subst hqk
          rw [adopt_kitoxD_children, List.nodup_append']
          refine ⟨List.nodup_reverse.mpr (hf.nodup t n ht), hf.nodup _ y hy, fun c hc hc' => ?_⟩
          rw [List.mem_reverse] at hc
          exact hqt (hf.child_unique ht hc hy hc')
        · rw [adopt_children_of_ne hqk]
          exact hf.nodup q y hy
    irrefl := by
      intro q m hq
      obtain ⟨y, hy, ⟨rfl, rfl⟩ | ⟨hqt, rfl⟩⟩ := exit_cases hq
      · exact List.not_mem_nil
      · by_cases hqk : q = f.kitoxD
        · subst hqk
          rw [adopt_kitoxD_children, List.mem_append, List.mem_reverse, not_or]
          exact ⟨fun h => hf.not_root_of_child ht h (.inr (.inl rfl)), hf.irrefl _ y hy⟩
        · rw [adopt_children_of_ne hqk]
          exact hf.irrefl q y hy
    parent := by
      intro u m hu hru
      obtain ⟨y, hy, hcase⟩ := exit_cases hu
      by_cases huc : u ∈ n.children
      · have hut : u ≠ t := fun h => hself (h ▸ huc)
        rcases hcase with ⟨h, _⟩ | ⟨_, rfl⟩
        · exact absurd h hut
        refine ⟨f.kitoxD, _, adopt_realParent_of_mem huc, if_pos huc, hkitox, hxz, ?_⟩
        rw [adopt_kitoxD_children, List.mem_append, List.mem_reverse]
        exact .inl huc
      · -- the parent is not the task that died, so it is still there with the task in its list
        obtain ⟨q, z, hrq, hpq, hq, hzq, hmem⟩ := hf.parent u y hy hru
        have hqt : q ≠ t := by
          rintro rfl
          rw [ht] at hq
          exact huc (Option.some.inj hq ▸ hmem)
        have hq' : (f.exit t n.children).node q = some (f.adopt n.children q z) := by
          rw [exit_of_ne hqt, hq]
          rfl
        have hmem' : u ∈ (f.adopt n.children q z).children := by
          by_cases hqk : q = f.kitoxD
          · subst hqk
            rw [adopt_kitoxD_children, List.mem_append]
            exact .inr hmem
          · rwa [adopt_children_of_ne hqk]
        rcases hcase with ⟨_, rfl⟩ | ⟨_, rfl⟩
        · exact ⟨q, _, hrq, hpq, hq', hzq, hmem'⟩
        · exact ⟨q, _, (adopt_realParent_of_notMem huc).trans hrq, (if_neg huc).trans hpq, hq',
            hzq, hmem'⟩
    root := by
      intro u hu
      obtain ⟨y, hy, hr, hz⟩ := hf.root u hu
      have hut : u ≠ t := fun h => hroot (h ▸ hu)
      have hnot : u ∉ n.children := fun h => hf.not_root_of_child ht h hu
      exact ⟨f.adopt n.children u y, by rw [exit_of_ne hut, hy]; rfl,
        (adopt_realParent_of_notMem hnot).trans hr, hz⟩
    zombie := by
      intro u m hu hz
      obtain ⟨y, hy, ⟨rfl, rfl⟩ | ⟨hut, rfl⟩⟩ := exit_cases hu
      · rfl
      · have huk : u ≠ f.kitoxD := by
          rintro rfl
          rw [hx] at hy
          obtain rfl := Option.some.inj hy
          rw [show (f.adopt n.children f.kitoxD x).zombie = x.zombie from rfl, hxz] at hz
          cases hz
        rw [adopt_children_of_ne huk]
        exact hf.zombie u y hy hz
    distinct := hf.distinct }

/-! ### A dead task that is released -/

/-- What the nodes of the tree are after a task was released. -/
theorem reap_cases (h : (f.reap p t).node u = some m) :
    u ≠ t ∧ ∃ n, f.node u = some n ∧
      m = { n with children := if u = p then n.children.erase t else n.children } := by
  unfold reap at h
  dsimp only at h
  by_cases hut : u = t
  · rw [if_pos hut] at h
    cases h
  · rw [if_neg hut] at h
    refine ⟨hut, ?_⟩
    by_cases hup : u = p
    · rw [if_pos hup, Option.map_eq_some_iff] at h
      obtain ⟨n, hn, rfl⟩ := h
      exact ⟨n, hn, by rw [if_pos hup]⟩
    · rw [if_neg hup] at h
      exact ⟨m, h, by rw [if_neg hup]⟩

theorem reap_of_some (hut : u ≠ t) (hu : f.node u = some n) :
    (f.reap p t).node u =
      some { n with children := if u = p then n.children.erase t else n.children } := by
  unfold reap
  dsimp only
  rw [if_neg hut]
  by_cases hup : u = p
  · rw [if_pos hup, if_pos hup, hu]
    rfl
  · rw [if_neg hup, if_neg hup, hu]

theorem Inv.reap (hf : f.Inv) (hp : f.node p = some n) (hmem : t ∈ n.children)
    (ht : f.node t = some m) (hz : m.zombie = true) : (f.reap p t).Inv := by
  -- the list of a task without the released one
  have hsub : ∀ q y c, f.node q = some y →
      (c ∈ (if q = p then y.children.erase t else y.children) ↔ c ∈ y.children ∧ c ≠ t) := by
    intro q y c hq
    by_cases hqp : q = p
    · rw [if_pos hqp, (hf.nodup q y hq).mem_erase_iff, and_comm]
    · rw [if_neg hqp]
      refine ⟨fun hc => ⟨hc, ?_⟩, And.left⟩
      rintro rfl
      exact hqp (hf.child_unique hp hmem hq hc)
  -- the released task was dead, so it was nobody's parent
  have hnone : ∀ c, c ∉ m.children := by
    rw [hf.zombie t m ht hz]
    exact fun _ => List.not_mem_nil
  exact {
    child := by
      intro q y hq c hc
      obtain ⟨hqt, y', hy', rfl⟩ := reap_cases hq
      obtain ⟨hc', hct⟩ := (hsub q y' c hy').mp hc
      obtain ⟨z, hz', hr⟩ := hf.child q y' hy' c hc'
      exact ⟨_, reap_of_some hct hz', hr⟩
    nodup := by
      intro q y hq
      obtain ⟨hqt, y', hy', rfl⟩ := reap_cases hq
      dsimp only
      split
      · exact (hf.nodup q y' hy').erase t
      · exact hf.nodup q y' hy'
    irrefl := by
      intro q y hq hc
      obtain ⟨hqt, y', hy', rfl⟩ := reap_cases hq
      exact hf.irrefl q y' hy' ((hsub q y' q hy').mp hc).1
    parent := by
      intro u y hu hru
      obtain ⟨hut, y', hy', rfl⟩ := reap_cases hu
      obtain ⟨q, z, hrq, hpq, hq, hzq, hin⟩ := hf.parent u y' hy' hru
      have hqt : q ≠ t := by
        rintro rfl
        rw [ht] at hq
        exact hnone u (Option.some.inj hq ▸ hin)
      exact ⟨q, _, hrq, hpq, reap_of_some hqt hq, hzq, (hsub q z u hq).mpr ⟨hin, hut⟩⟩
    root := by
      intro u hu
      obtain ⟨y, hy, hr, hzy⟩ := hf.root u hu
      have hut : u ≠ t := fun h => hf.not_root_of_child hp hmem (h ▸ hu)
      exact ⟨_, reap_of_some hut hy, hr, hzy⟩
    zombie := by
      intro u y hu hzy
      obtain ⟨hut, y', hy', rfl⟩ := reap_cases hu
      have hnil := hf.zombie u y' hy' hzy
      simp [hnil]
    distinct := hf.distinct }

end Inv

/-! ## Pids -/

/-- The pids of the tasks, the boot thread aside, are distinct and are the ids that are held. -/
structure PidInv (f : Forest) (pids : IdManager) : Prop where
  valid : pids.Valid
  inj : ∀ t u n m, f.node t = some n → f.node u = some m → t ≠ f.dummy → u ≠ f.dummy →
    n.pid = m.pid → t = u
  held : ∀ id, pids.Held id ↔ ∃ t n, t ≠ f.dummy ∧ f.node t = some n ∧ n.pid = id

namespace PidInv

variable {f : Forest} {pids : IdManager} {p t : TaskId} {n : Node} {pid : ℕ}

/-- The pids depend on the tasks and their pids only. -/
theorem congr {f' : Forest} (h : f.PidInv pids) (hd : f'.dummy = f.dummy)
    (hpid : ∀ u, (f'.node u).map Node.pid = (f.node u).map Node.pid) : f'.PidInv pids := by
  have hback : ∀ u m, f'.node u = some m → ∃ n, f.node u = some n ∧ n.pid = m.pid := by
    intro u m hm
    have hu := hpid u
    rw [hm, Option.map_some, eq_comm, Option.map_eq_some_iff] at hu
    exact hu
  refine ⟨h.valid, fun a b x y hx hy ha hb hxy => ?_, fun id => ?_⟩
  · obtain ⟨x', hx', hxp⟩ := hback a x hx
    obtain ⟨y', hy', hyp⟩ := hback b y hy
    exact h.inj a b x' y' hx' hy' (hd ▸ ha) (hd ▸ hb) (hxp.trans (hxy.trans hyp.symm))
  · rw [h.held]
    constructor
    · rintro ⟨u, m, hu, hm, hid⟩
      have heq := hpid u
      rw [hm, Option.map_some, Option.map_eq_some_iff] at heq
      obtain ⟨m', hm', hp'⟩ := heq
      exact ⟨u, m', hd ▸ hu, hm', hp'.trans hid⟩
    · rintro ⟨u, m, hu, hm, hid⟩
      obtain ⟨m', hm', hp'⟩ := hback u m hm
      exact ⟨u, m', hd ▸ hu, hm', hp'.trans hid⟩

theorem exit (h : f.PidInv pids) (cs : List TaskId) : (f.exit t cs).PidInv pids := by
  refine h.congr rfl fun u => ?_
  unfold Forest.exit
  dsimp only
  split
  · rw [Option.map_map]
    rfl
  · rw [Option.map_map]
    rfl

/-- A new task gets a pid that nobody has. -/
theorem create (h : f.PidInv pids) (ht : f.node t = none) (htd : t ≠ f.dummy)
    (halloc : (idManagerAlloc pids).1 = some pid) :
    (f.create p t pid).PidInv (idManagerAlloc pids).2 := by
  obtain ⟨_, hfresh, hheld⟩ := IdManager.alloc_some h.valid halloc
  -- the other tasks keep their pids, none of which is the new one
  have hold : ∀ u m, (f.create p t pid).node u = some m → u ≠ t →
      ∃ n, f.node u = some n ∧ n.pid = m.pid := by
    intro u m hm hut
    rcases create_cases hm with ⟨h', _⟩ | ⟨_, _, n, hn, rfl⟩ | ⟨_, _, hn⟩
    · exact absurd h' hut
    · exact ⟨n, hn, rfl⟩
    · exact ⟨m, hn, rfl⟩
  have hself : ∀ m, (f.create p t pid).node t = some m → m.pid = pid := by
    intro m hm
    rcases create_cases hm with ⟨_, rfl⟩ | ⟨h', _⟩ | ⟨h', _⟩
    · rfl
    · exact absurd rfl h'
    · exact absurd rfl h'
  have hne : ∀ u m, (f.create p t pid).node u = some m → u ≠ t → u ≠ f.dummy → m.pid ≠ pid := by
    intro u m hm hut hud hpid
    obtain ⟨n, hn, hnp⟩ := hold u m hm hut
    exact hfresh ((h.held pid).mpr ⟨u, n, hud, hn, hnp.trans hpid⟩)
  refine ⟨IdManager.alloc_valid h.valid, fun a b x y hx hy ha hb hxy => ?_, fun id => ?_⟩
  · by_cases hat : a = t
    · subst hat
      by_contra hba
      exact hne b y hy (Ne.symm hba) hb (hxy.symm.trans (hself x hx))
    · by_cases hbt : b = t
      · subst hbt
        exact absurd (hxy.trans (hself y hy)) (hne a x hx hat ha)
      · obtain ⟨x', hx', hxp⟩ := hold a x hx hat
        obtain ⟨y', hy', hyp⟩ := hold b y hy hbt
        exact h.inj a b x' y' hx' hy' ha hb (hxp.trans (hxy.trans hyp.symm))
  · rw [hheld, h.held]
    constructor
    · rintro (rfl | ⟨u, m, hu, hm, hid⟩)
      · exact ⟨t, leaf p id, htd, if_pos rfl, rfl⟩
      · obtain ⟨m', hm', hp', _⟩ := create_of_some (p := p) pid ht hm
        exact ⟨u, m', hu, hm', hp'.trans hid⟩
    · rintro ⟨u, m, hu, hm, hid⟩
      by_cases hut : u = t
      · subst hut
        exact .inl (hid.symm.trans (hself m hm))
      · obtain ⟨n, hn, hnp⟩ := hold u m hm hut
        exact .inr ⟨u, n, hu, hn, hnp.trans hid⟩

/-- A released task gives its pid back. -/
theorem reap (h : f.PidInv pids) (ht : f.node t = some n) (htd : t ≠ f.dummy) :
    (f.reap p t).PidInv (idManagerFree pids n.pid) := by
  have hlt : n.pid < pids.bitmap.nbBits := IdManager.Held.lt ((h.held n.pid).mpr ⟨t, n, htd, ht, rfl⟩)
  refine ⟨IdManager.free_valid h.valid hlt, fun a b x y hx hy ha hb hxy => ?_, fun id => ?_⟩
  · obtain ⟨_, x', hx', rfl⟩ := reap_cases hx
    obtain ⟨_, y', hy', rfl⟩ := reap_cases hy
    exact h.inj a b x' y' hx' hy' ha hb hxy
  · rw [IdManager.free_held hlt, h.held]
    constructor
    · rintro ⟨hne, u, m, hu, hm, hid⟩
      have hut : u ≠ t := by
        rintro rfl
        rw [ht] at hm
        exact hne (Option.some.inj hm ▸ hid.symm)
      exact ⟨u, _, hu, reap_of_some hut hm, hid⟩
    · rintro ⟨u, m, hu, hm, hid⟩
      obtain ⟨hut, m', hm', rfl⟩ := reap_cases hm
      refine ⟨?_, u, m', hu, hm', hid⟩
      rintro rfl
      exact hut (h.inj u t m' n hm' ht hu htd hid)

/-- A task that could not be made gives its pid back. -/
theorem undo (h : f.PidInv pids) (halloc : (idManagerAlloc pids).1 = some pid) :
    f.PidInv (idManagerFree (idManagerAlloc pids).2 pid) := by
  obtain ⟨hlt, hfresh, hheld⟩ := IdManager.alloc_some h.valid halloc
  have hlt' : pid < (idManagerAlloc pids).2.bitmap.nbBits := by
    rw [IdManager.alloc_nbBits]
    exact hlt
  refine ⟨IdManager.free_valid (IdManager.alloc_valid h.valid) hlt', h.inj, fun id => ?_⟩
  rw [IdManager.free_held hlt', hheld, ← h.held]
  constructor
  · rintro ⟨hne, rfl | hid⟩
    · exact absurd rfl hne
    · exact hid
  · intro hid
    exact ⟨fun heq => hfresh (heq ▸ hid), .inr hid⟩

end PidInv

end Forest

end Kfs.Proc
