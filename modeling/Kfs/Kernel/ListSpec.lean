import Kfs.Kernel.List

/-!
# What the list operations do

Every operation writes at most four links. `Spliced` and `Unspliced` say which, also where the two
neighbours are one node; from these the list concerned is again circular and the others are left
alone.
-/

namespace Kfs.Kernel

open Kfs.Lib

universe u

variable {P : Type u} {A A' A'' : Lists P} {m m' : Nodes P} {n p q s t x : P}
  {l l₁ l₂ : List P}

/-- The node `n` has been linked between `p` and `q`. -/
structure Spliced (m m' : Nodes P) (n p q : P) : Prop where
  next_before : (m' p).next = some n
  next_new : (m' n).next = some q
  prev_new : (m' n).prev = some p
  prev_after : (m' q).prev = some n
  next_other : ∀ x, x ≠ p → x ≠ n → (m' x).next = (m x).next
  prev_other : ∀ x, x ≠ q → x ≠ n → (m' x).prev = (m x).prev

/-- The node `n` has been unlinked and `p` and `q`, its neighbours, have been linked. -/
structure Unspliced (m m' : Nodes P) (n p q : P) : Prop where
  node : m' n = ⟨none, none⟩
  next_before : (m' p).next = some q
  prev_after : (m' q).prev = some p
  next_other : ∀ x, x ≠ p → x ≠ n → (m' x).next = (m x).next
  prev_other : ∀ x, x ≠ q → x ≠ n → (m' x).prev = (m x).prev

/-- The lists that an operation leaves as they are keep their links. -/
def SameCells (A A' : Lists P) (m m' : Nodes P) : Prop :=
  ∀ t l, A.heads t = some l → A'.heads t = some l → ∀ x ∈ t :: l, m' x = m x

theorem ListHead.ext_links {a b : ListHead P} (hnext : a.next = b.next) (hprev : a.prev = b.prev) :
    a = b := by
  cases a
  cases b
  exact congrArg₂ ListHead.mk hnext hprev

theorem Spliced.frame (h : Spliced m m' n p q) (hp : x ≠ p) (hq : x ≠ q) (hn : x ≠ n) :
    m' x = m x :=
  ListHead.ext_links (h.next_other x hp hn) (h.prev_other x hq hn)

theorem Unspliced.frame (h : Unspliced m m' n p q) (hp : x ≠ p) (hq : x ≠ q) (hn : x ≠ n) :
    m' x = m x :=
  ListHead.ext_links (h.next_other x hp hn) (h.prev_other x hq hn)

@[simp] theorem load_some (m : Nodes P) (x : P) : m.load (some x) = .ok (m x) := rfl

/-- A list whose sentinel and nodes have kept their links. -/
theorem Represents.kept (h : Represents m A) (hl : A.heads t = some l)
    (heq : ∀ x ∈ t :: l, m' x = m x) :
    Circular (fun x => (m' x).next) (fun x => (m' x).prev) t l :=
  (h.circular t l hl).frame (fun x hx => congrArg ListHead.next (heq x hx))
    fun x hx => congrArg ListHead.prev (heq x hx)

/-- The neighbours of a place in a list are nodes of the list or its sentinel. -/
theorem neighbours_mem (hp : p ∈ (s :: l₁).getLast?) (hq : q ∈ (l₂ ++ [s]).head?) :
    p ∈ s :: (l₁ ++ l₂) ∧ q ∈ s :: (l₁ ++ l₂) := by
  have hp' : p ∈ s :: l₁ := List.mem_of_getLast? hp
  have hq' : q ∈ l₂ ++ [s] := List.mem_of_head? hq
  rw [← List.cons_append]
  refine ⟨List.mem_append_left l₂ hp', ?_⟩
  rcases List.mem_append.mp hq' with hq' | hq'
  · exact List.mem_append_right _ hq'
  · obtain rfl := List.mem_singleton.mp hq'
    exact List.mem_cons_self

/-- Between which nodes a place in a list lies. -/
theorem Represents.neighbours (h : Represents m A) (hs : A.heads s = some (l₁ ++ l₂)) :
    ∃ p q, p ∈ (s :: l₁).getLast? ∧ q ∈ (l₂ ++ [s]).head? ∧
      (m p).next = some q ∧ (m q).prev = some p := by
  obtain ⟨p, hp⟩ := Option.isSome_iff_exists.mp
    (List.getLast?_isSome.mpr (List.cons_ne_nil s l₁))
  obtain ⟨q, hq⟩ := Option.isSome_iff_exists.mp
    (List.isSome_head?.mpr (List.append_ne_nil_of_right_ne_nil l₂ (List.cons_ne_nil s [])))
  exact ⟨p, q, hp, hq, (h.circular s _ hs).link hp hq⟩

/-- The new node is not one of its neighbours. -/
theorem Lists.Free.ne_neighbours (hn : A.Free n) (hs : A.heads s = some (l₁ ++ l₂))
    (hp : p ∈ (s :: l₁).getLast?) (hq : q ∈ (l₂ ++ [s]).head?) : n ≠ p ∧ n ≠ q := by
  obtain ⟨hp', hq'⟩ := neighbours_mem hp hq
  exact ⟨(ne_of_mem_of_not_mem hp' (hn s _ hs)).symm, (ne_of_mem_of_not_mem hq' (hn s _ hs)).symm⟩

/-- An insertion leaves every node alone that is not in the list concerned. -/
theorem Spliced.outside (h : Spliced m m' n p q) (hp : p ∈ (s :: l₁).getLast?)
    (hq : q ∈ (l₂ ++ [s]).head?) (hx : x ∉ s :: (l₁ ++ l₂)) (hn : x ≠ n) : m' x = m x := by
  obtain ⟨hp', hq'⟩ := neighbours_mem hp hq
  exact h.frame (ne_of_mem_of_not_mem hp' hx).symm (ne_of_mem_of_not_mem hq' hx).symm hn

/-- So does a removal. -/
theorem Unspliced.outside (h : Unspliced m m' n p q) (hp : p ∈ (s :: l₁).getLast?)
    (hq : q ∈ (l₂ ++ [s]).head?) (hx : x ∉ s :: (l₁ ++ n :: l₂)) : m' x = m x := by
  obtain ⟨hp', hq'⟩ := neighbours_mem hp hq
  have hmem : ∀ y ∈ s :: (l₁ ++ l₂), y ∈ s :: (l₁ ++ n :: l₂) := fun y hy => by grind
  -- The node that is taken out was in the list as well.
  refine h.frame (ne_of_mem_of_not_mem (hmem p hp') hx).symm
    (ne_of_mem_of_not_mem (hmem q hq') hx).symm ?_
  rintro rfl
  exact hx (by simp)

section Code

variable [DecidableEq P]

@[simp] theorem setNext_some (m : Nodes P) (x : P) (v : Option P) :
    m.setNext (some x) v = .ok (m.withNext x v) := rfl

@[simp] theorem setPrev_some (m : Nodes P) (x : P) (v : Option P) :
    m.setPrev (some x) v = .ok (m.withPrev x v) := rfl

@[simp] theorem withNext_next (m : Nodes P) (x y : P) (v : Option P) :
    (m.withNext x v y).next = if y = x then v else (m y).next := by
  by_cases h : y = x <;> simp [Nodes.withNext, h]

@[simp] theorem withNext_prev (m : Nodes P) (x y : P) (v : Option P) :
    (m.withNext x v y).prev = (m y).prev := by
  by_cases h : y = x <;> simp [Nodes.withNext, h]

@[simp] theorem withPrev_prev (m : Nodes P) (x y : P) (v : Option P) :
    (m.withPrev x v y).prev = if y = x then v else (m y).prev := by
  by_cases h : y = x <;> simp [Nodes.withPrev, h]

@[simp] theorem withPrev_next (m : Nodes P) (x y : P) (v : Option P) :
    (m.withPrev x v y).next = (m y).next := by
  by_cases h : y = x <;> simp [Nodes.withPrev, h]

/-- `list_insert` between two nodes, which may be the same. -/
theorem listInsert_spec (m : Nodes P) (hp : n ≠ p) (hq : n ≠ q) :
    ∃ m', listInsert (some n) (some p) (some q) m = .ok m' ∧ Spliced m m' n p q := by
  refine ⟨_, rfl, ?_⟩
  constructor
  · simp
  · simp [hp]
  · simp
  · simp [hq.symm]
  · intro x hxp hxn
    simp [hxp, hxn]
  · intro x hxq hxn
    simp [hxq, hxn]

/-- `list_add_tail` is an insertion between the last node and the sentinel. -/
theorem listAddTail_spec (m : Nodes P) (hprev : (m s).prev = some p) (hp : n ≠ p) (hs : n ≠ s) :
    ∃ m', listAddTail (some n) (some s) m = .ok m' ∧ Spliced m m' n p s := by
  unfold listAddTail
  rw [load_some, ok_bind, hprev]
  exact listInsert_spec m hp hs

/-- `list_add_head` is an insertion between the sentinel and the first node. -/
theorem listAddHead_spec (m : Nodes P) (hnext : (m s).next = some q) (hs : n ≠ s) (hq : n ≠ q) :
    ∃ m', listAddHead (some n) (some s) m = .ok m' ∧ Spliced m m' n s q := by
  unfold listAddHead
  rw [load_some, ok_bind, hnext]
  refine ⟨_, rfl, ?_⟩
  constructor
  · simp
  · simp [hs]
  · simp [hq]
  · simp
  · intro x hxs hxn
    simp [hxs, hxn]
  · intro x hxq hxn
    simp [hxq, hxn]

/-- `buddy.c` has its own copy of `list_add_head`. -/
theorem buddyListAddHead_eq (newNode head : Option P) (m : Nodes P) :
    buddyListAddHead newNode head m = listAddHead newNode head m := rfl

/-- `pop_node` of a node whose neighbours, which may be the same, link to it. -/
theorem popNode_spec (m : Nodes P) (hprev : (m n).prev = some p) (hnext : (m n).next = some q)
    (hp : p ≠ n) (hq : q ≠ n) :
    ∃ m', popNode (some n) m = .ok m' ∧ Unspliced m m' n p q := by
  -- The second write reads the links of the node again, which the first has not changed.
  have hnext' : (m.withNext p (some q) n).next = some q := by simp [hp.symm, hnext]
  unfold popNode
  simp only [load_some, ok_bind, hprev, hnext, setNext_some, hnext', withNext_prev, setPrev_some]
  refine ⟨_, rfl, ?_⟩
  constructor
  · apply ListHead.ext_links
    · simp
    · simp
  · simp [hp]
  · simp [hq]
  · intro x hxp hxn
    simp [hxp, hxn]
  · intro x hxq hxn
    simp [hxq, hxn]

/-! ## The lists after an operation -/

theorem heads_newHead (hs : A.Free s) :
    (A.newHead s hs).heads = Function.update A.heads s (some []) := rfl

theorem heads_insertAt (hs : A.heads s = some (l₁ ++ l₂)) (hn : A.Free n) :
    (A.insertAt s n l₁ l₂ hs hn).heads = Function.update A.heads s (some (l₁ ++ n :: l₂)) := rfl

theorem heads_removeFrom (hs : A.heads s = some (l₁ ++ n :: l₂)) :
    (A.removeFrom s n l₁ l₂ hs).heads = Function.update A.heads s (some (l₁ ++ l₂)) := rfl

/-- A new sentinel. -/
theorem Represents.newHead (h : Represents m A) (hs : A.Free s) :
    Represents (Function.update m s ⟨some s, some s⟩) (A.newHead s hs) where
  circular t l ht := by
    rw [heads_newHead] at ht
    by_cases hts : t = s
    · subst hts
      rw [Function.update_self] at ht
      obtain rfl := Option.some.inj ht
      exact Circular.nil_iff.mpr (by simp)
    · rw [Function.update_of_ne hts] at ht
      apply h.kept ht
      intro x hx
      exact Function.update_of_ne (ne_of_mem_of_not_mem hx (hs t l ht)) _ _
  loose x hx := by
    rw [Function.update_of_ne hx.2]
    exact h.loose x hx.1

/-- A new node. -/
theorem Represents.newLoose (h : Represents m A) (hn : A.Free n) {c : ListHead P}
    (hc : c = ⟨some n, some n⟩ ∨ c = ⟨none, none⟩) :
    Represents (Function.update m n c) (A.newLoose n hn) where
  circular t l ht := by
    apply h.kept ht
    intro x hx
    exact Function.update_of_ne (ne_of_mem_of_not_mem hx (hn t l ht)) _ _
  loose x hx := by
    by_cases hxn : x = n
    · subst hxn
      rw [Function.update_self]
      exact hc
    · rw [Function.update_of_ne hxn]
      exact h.loose x (hx.resolve_right hxn)

/-- A node linked between two neighbours is in their list. -/
theorem Represents.insertAt (h : Represents m A) (hs : A.heads s = some (l₁ ++ l₂))
    (hn : A.Free n) (hp : p ∈ (s :: l₁).getLast?) (hq : q ∈ (l₂ ++ [s]).head?)
    (hsp : Spliced m m' n p q) : Represents m' (A.insertAt s n l₁ l₂ hs hn) where
  circular t l ht := by
    rw [heads_insertAt] at ht
    by_cases hts : t = s
    · subst hts
      rw [Function.update_self] at ht
      obtain rfl := Option.some.inj ht
      -- Of the old nodes only the two neighbours get a new link.
      have hne : ∀ x ∈ t :: (l₁ ++ l₂), x ≠ n := fun x hx => ne_of_mem_of_not_mem hx (hn t _ hs)
      exact (h.circular t _ hs).insert (hn t _ hs) hp hq hsp.next_before hsp.next_new
        hsp.prev_after hsp.prev_new (fun x hx hxp => hsp.next_other x hxp (hne x hx))
        fun x hx hxq => hsp.prev_other x hxq (hne x hx)
    · rw [Function.update_of_ne hts] at ht
      apply h.kept ht
      intro x hx
      exact hsp.outside hp hq (A.apart t s l _ ht hs hts hx) (ne_of_mem_of_not_mem hx (hn t l ht))
  loose x hx := by
    rw [hsp.outside hp hq (A.loose_free x s _ hx.1 hs) hx.2]
    exact h.loose x hx.1

/-- A node unlinked between its neighbours has left their list. -/
theorem Represents.removeFrom (h : Represents m A) (hs : A.heads s = some (l₁ ++ n :: l₂))
    (hp : p ∈ (s :: l₁).getLast?) (hq : q ∈ (l₂ ++ [s]).head?)
    (hun : Unspliced m m' n p q) : Represents m' (A.removeFrom s n l₁ l₂ hs) where
  circular t l ht := by
    rw [heads_removeFrom] at ht
    by_cases hts : t = s
    · subst hts
      rw [Function.update_self] at ht
      obtain rfl := Option.some.inj ht
      have hcirc := h.circular t _ hs
      have hnodup := hcirc.nodup
      have hne : ∀ x ∈ t :: (l₁ ++ l₂), x ≠ n := fun x hx => by grind
      have hnext : (m n).next = some q := hcirc.next_of_mem hq
      have hprev : (m n).prev = some p := hcirc.prev_of_mem hp
      exact hcirc.erase hp hq (hun.next_before.trans hnext.symm)
        (hun.prev_after.trans hprev.symm) (fun x hx hxp => hun.next_other x hxp (hne x hx))
        fun x hx hxq => hun.prev_other x hxq (hne x hx)
    · rw [Function.update_of_ne hts] at ht
      apply h.kept ht
      intro x hx
      exact hun.outside hp hq (A.apart t s l _ ht hs hts hx)
  loose x hx := by
    by_cases hxn : x = n
    · subst hxn
      exact Or.inr hun.node
    · have hold := hx.resolve_right hxn
      rw [hun.outside hp hq (A.loose_free x s _ hold hs)]
      exact h.loose x hold

/-! ## One step and whole runs -/

/-- A list that is the same after a change is not the one whose length has changed. -/
theorem ne_of_heads_same {l' k : List P} (hs : A.heads s = some l) (hlen : l'.length ≠ l.length)
    (ht : A.heads t = some k) (ht' : Function.update A.heads s (some l') t = some k) : t ≠ s := by
  rintro rfl
  rw [Function.update_self] at ht'
  rw [hs] at ht
  exact hlen (congrArg List.length ((Option.some.inj ht').trans (Option.some.inj ht).symm))

/-- What an insertion between two neighbours amounts to, whichever function makes it. -/
theorem Represents.splice (h : Represents m A) (hs : A.heads s = some (l₁ ++ l₂))
    (hn : A.Free n) (hp : p ∈ (s :: l₁).getLast?) (hq : q ∈ (l₂ ++ [s]).head?)
    (hsp : Spliced m m' n p q) :
    Represents m' (A.insertAt s n l₁ l₂ hs hn) ∧
      SameCells A (A.insertAt s n l₁ l₂ hs hn) m m' := by
  refine ⟨h.insertAt hs hn hp hq hsp, ?_⟩
  intro t l ht ht' x hx
  have hts : t ≠ s := ne_of_heads_same hs (by simp) ht ht'
  exact hsp.outside hp hq (A.apart t s l _ ht hs hts hx) (ne_of_mem_of_not_mem hx (hn t l ht))

/-- A removal, likewise. -/
theorem Represents.unsplice (h : Represents m A) (hs : A.heads s = some (l₁ ++ n :: l₂))
    (hp : p ∈ (s :: l₁).getLast?) (hq : q ∈ (l₂ ++ [s]).head?) (hun : Unspliced m m' n p q) :
    Represents m' (A.removeFrom s n l₁ l₂ hs) ∧
      SameCells A (A.removeFrom s n l₁ l₂ hs) m m' := by
  refine ⟨h.removeFrom hs hp hq hun, ?_⟩
  intro t l ht ht' x hx
  have hts : t ≠ s := ne_of_heads_same hs (by simp) ht ht'
  exact hun.outside hp hq (A.apart t s l _ ht hs hts hx)

/-- Writing a free node keeps every list. -/
theorem sameCells_update (hn : A.Free n) (c : ListHead P) :
    SameCells A A' m (Function.update m n c) := by
  intro t l ht _ x hx
  exact Function.update_of_ne (ne_of_mem_of_not_mem hx (hn t l ht)) _ _

/-- `list_add_head` puts a free node behind the sentinel. -/
theorem Represents.addHead (h : Represents m A) (hs : A.heads s = some l) (hn : A.Free n) :
    ∃ m', listAddHead (some n) (some s) m = .ok m' ∧
      Represents m' (A.insertAt s n [] l hs hn) ∧
      SameCells A (A.insertAt s n [] l hs hn) m m' := by
  have hs₀ : A.heads s = some ([] ++ l) := hs
  obtain ⟨p, q, hp, hq, hnext, -⟩ := h.neighbours hs₀
  obtain rfl := Option.some.inj hp
  obtain ⟨hnp, hnq⟩ := hn.ne_neighbours hs₀ hp hq
  obtain ⟨m', hrun, hsp⟩ := listAddHead_spec m hnext hnp hnq
  exact ⟨m', hrun, h.splice hs₀ hn hp hq hsp⟩

/-- **Step**: an operation whose caller keeps its part succeeds and does to the nodes in memory
what it is for. -/
theorem ListStep.run (h : Represents m A) {op : ListOp P} (hstep : ListStep A op A') :
    ∃ m', runOp op m = .ok m' ∧ Represents m' A' ∧ SameCells A A' m m' := by
  cases hstep with
  | newHead hs => exact ⟨_, rfl, h.newHead hs, sameCells_update hs _⟩
  | newLoose hn => exact ⟨_, rfl, h.newLoose hn (Or.inl rfl), sameCells_update hn _⟩
  | zeroNode hn => exact ⟨_, rfl, h.newLoose hn (Or.inr rfl), sameCells_update hn _⟩
  | addHead hs hn => exact h.addHead hs hn
  | buddyAddHead hs hn =>
    obtain ⟨m', hrun, h'⟩ := h.addHead hs hn
    exact ⟨m', (buddyListAddHead_eq _ _ _).trans hrun, h'⟩
  | addTail hs hn =>
    obtain ⟨p, q, hp, hq, -, hprev⟩ := h.neighbours hs
    obtain rfl := Option.some.inj hq
    obtain ⟨hnp, hnq⟩ := hn.ne_neighbours hs hp hq
    obtain ⟨m', hrun, hsp⟩ := listAddTail_spec m hprev hnp hnq
    exact ⟨m', hrun, h.splice hs hn hp hq hsp⟩
  | insert hs hn hp hq =>
    obtain ⟨hnp, hnq⟩ := hn.ne_neighbours hs hp hq
    obtain ⟨m', hrun, hsp⟩ := listInsert_spec m hnp hnq
    exact ⟨m', hrun, h.splice hs hn hp hq hsp⟩
  | @pop n s l₁ l₂ hs =>
    -- The neighbours are those of the places in front of and behind the node.
    have hcirc := h.circular s _ hs
    obtain ⟨p, -, hp, -, -, -⟩ := h.neighbours hs
    have hs' : A.heads s = some ((l₁ ++ [n]) ++ l₂) := by rw [hs, List.append_cons]
    obtain ⟨-, q, -, hq, -, -⟩ := h.neighbours hs'
    have hnodup := hcirc.nodup
    obtain ⟨hp', hq'⟩ := neighbours_mem hp hq
    have hne : ∀ x ∈ s :: (l₁ ++ l₂), x ≠ n := fun x hx => by grind
    obtain ⟨m', hrun, hun⟩ := popNode_spec m (hcirc.prev_of_mem hp) (hcirc.next_of_mem hq)
      (hne p hp') (hne q hq')
    exact ⟨m', hrun, h.unsplice hs hp hq hun⟩

/-- **Run**: so do operations one after the other. -/
theorem ListRun.run {ops : List (ListOp P)} (hrun : ListRun A ops A') (h : Represents m A) :
    ∃ m', runOps ops m = .ok m' ∧ Represents m' A' := by
  induction hrun generalizing m with
  | nil A => exact ⟨m, rfl, h⟩
  | cons step _ ih =>
    obtain ⟨m₁, hm₁, h₁, -⟩ := step.run h
    obtain ⟨m', hm', h'⟩ := ih h₁
    refine ⟨m', ?_, h'⟩
    unfold runOps
    rw [List.foldlM_cons, hm₁]
    exact hm'

/-! ## Linked nodes -/

theorem listNodeIsLinked_iff :
    listNodeIsLinked (some n) m = true ↔
      (m n).next.isSome ∧ (m n).prev.isSome ∧ (m n).next ≠ some n := by
  simp [listNodeIsLinked, Option.isSome_iff_ne_none, and_assoc]

/-- Of the nodes that have been initialised, `list_node_is_linked` finds those in a list and the
sentinels of the lists that are not empty. -/
theorem Represents.linked_iff (h : Represents m A) (hn : A.Known n) :
    listNodeIsLinked (some n) m = true ↔ A.InList n ∨ A.HeadsSome n := by
  rw [listNodeIsLinked_iff]
  rcases hn with hn | ⟨s, l, hs, hmem⟩
  · -- A loose node links to itself or to nothing, and is in no list.
    constructor
    · rintro ⟨hnext, -, hself⟩
      rcases h.loose n hn with hcell | hcell
      · exact absurd (by rw [hcell]) hself
      · rw [hcell] at hnext
        cases hnext
    · rintro (⟨s, l, hs, hmem⟩ | ⟨l, hs, -⟩)
      · exact absurd (List.mem_cons_of_mem s hmem) (A.loose_free n s l hn hs)
      · exact absurd List.mem_cons_self (A.loose_free n n l hn hs)
  · have hcirc := h.circular s l hs
    by_cases hl : l = []
    · -- The sentinel of an empty list links to itself.
      subst hl
      obtain rfl := List.mem_singleton.mp hmem
      have hself : (m n).next = some n := (Circular.nil_iff.mp hcirc).1
      constructor
      · rintro ⟨-, -, hne⟩
        exact absurd hself hne
      · rintro (⟨t, l, ht, hmem'⟩ | ⟨l, ht, hl⟩)
        · by_cases hts : t = n
          · subst hts
            rw [hs] at ht
            rw [← Option.some.inj ht] at hmem'
            cases hmem'
          · exact absurd (List.mem_cons_of_mem t hmem')
              fun hmem' => A.apart t n l [] ht hs hts hmem' hmem
        · rw [hs] at ht
          exact absurd (Option.some.inj ht).symm hl
    · constructor
      · intro _
        rcases List.mem_cons.mp hmem with rfl | hmem
        · exact Or.inr ⟨l, hs, hl⟩
        · exact Or.inl ⟨s, l, hs, hmem⟩
      · intro _
        obtain ⟨hnext, hprev⟩ := hcirc.isSome hmem
        exact ⟨hnext, hprev, hcirc.next_ne_self hl hmem⟩

/-- **The list operations refine list operations.** Where some sentinels head lists, each operation
inserts or removes one node in one list and leaves the links of every other list alone; and after
any operations `list_node_is_linked` tells, of the nodes initialised so far, which are in a list or
head one that is not empty. -/
theorem listOps_refine (h : Represents m A) :
    (∀ op A', ListStep A op A' →
      ∃ m', runOp op m = .ok m' ∧ Represents m' A' ∧ SameCells A A' m m') ∧
    (∀ ops A', ListRun A ops A' →
      ∃ m', runOps ops m = .ok m' ∧ Represents m' A' ∧ listNodeIsLinked none m' = false ∧
        ∀ n, A'.Known n →
          (listNodeIsLinked (some n) m' = true ↔ A'.InList n ∨ A'.HeadsSome n)) := by
  constructor
  · intro op A' hstep
    exact hstep.run h
  · intro ops A' hrun
    obtain ⟨m', hm', h'⟩ := hrun.run h
    exact ⟨m', hm', h', rfl, fun n hn => h'.linked_iff hn⟩

end Code

/-! ## Two lists -/

/-- The sentinel 0 heads the list of 1 and 2, the sentinel 3 an empty list; 4 has been zeroed. -/
def twoLists : Lists ℕ where
  heads s := if s = 0 then some [1, 2] else if s = 3 then some [] else none
  loose n := n = 4
  nodup s l h := by
    split_ifs at h <;> obtain rfl := Option.some.inj h
    · subst s
      decide
    · exact List.nodup_singleton s
  apart s t l m hs ht hne := by
    split_ifs at hs ht <;> grind [List.Disjoint]
  loose_free n s l hn hs := by
    split_ifs at hs <;> grind

/-- The nodes of `twoLists` in memory. -/
def twoListsNodes (x : ℕ) : ListHead ℕ :=
  match x with
  | 0 => ⟨some 1, some 2⟩
  | 1 => ⟨some 2, some 0⟩
  | 2 => ⟨some 0, some 1⟩
  | 3 => ⟨some 3, some 3⟩
  | _ => ⟨none, none⟩

theorem twoLists_represented : Represents twoListsNodes twoLists where
  circular s l h := by
    simp only [twoLists] at h
    split_ifs at h with h0 h3 <;> obtain rfl := Option.some.inj h
    · subst h0
      exact ⟨rfl, rfl, by decide⟩
    · subst h3
      exact ⟨rfl, rfl, by decide⟩
  loose n h := by
    obtain rfl : n = 4 := h
    exact Or.inr rfl

theorem listOps_refine_twoLists :
    ∃ m', runOp (.pop 1) twoListsNodes = .ok m' ∧
      Represents m' (twoLists.removeFrom 0 1 [] [2] rfl) := by
  have hhead : twoLists.heads 0 = some ([] ++ 1 :: [2]) := rfl
  obtain ⟨m', hrun, h', -⟩ := (listOps_refine twoLists_represented).1 _ _ (.pop hhead)
  exact ⟨m', hrun, h'⟩

/-- `list_node_is_linked` finds exactly the nodes that are in a list. -/
def LinkedExactly {P : Type u} [DecidableEq P] (m : Nodes P) (A : Lists P) : Prop :=
  ∀ n, A.Known n → (listNodeIsLinked (some n) m = true ↔ A.InList n)

/-- It also finds the sentinel 0, which is in no list. -/
theorem not_linkedExactly : ¬ ∀ (m : Nodes ℕ) (A : Lists ℕ), Represents m A → LinkedExactly m A := by
  intro h
  have hknown : twoLists.Known 0 := Or.inr ⟨0, [1, 2], rfl, List.mem_cons_self⟩
  obtain ⟨s, l, hs, hmem⟩ := (h _ _ twoLists_represented 0 hknown).mp rfl
  simp only [twoLists] at hs
  split_ifs at hs <;> obtain rfl := Option.some.inj hs <;> simp at hmem

end Kfs.Kernel
