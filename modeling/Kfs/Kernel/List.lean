import Kfs.Kernel.Panic
import Kfs.Lib.Circular
import Mathlib.Logic.Function.Basic

/-!
# Intrusive lists

`include/list.h`: the circular doubly linked lists on which the queues, the free lists and the
area lists of the kernel are built, as operations on the nodes in memory. A pointer is any value of
a type `P`, or `none` for `NULL`, which faults when it is dereferenced.

## Layers

- `listAddHead`, `listInsert`, `listAddTail`, `popNode`, `listNodeIsLinked`: the code, write by
  write;
- `Lists`: which sentinels head which lists, and the nodes that are ready to be put into one;
- `Represents`: the nodes in memory are linked as the lists say;
- `ListStep`: what each operation is for, as an operation on `Lists`.
-/

namespace Kfs.Kernel

open Kfs.Lib

universe u

/-- `struct list_head`. -/
structure ListHead (P : Type u) where
  next : Option P
  prev : Option P
  deriving DecidableEq, Repr

/-- The nodes in memory. -/
abbrev Nodes (P : Type u) := P → ListHead P

section Code

variable {P : Type u} [DecidableEq P]

/-- The nodes after one link of one node has been written. -/
def Nodes.withNext (m : Nodes P) (x : P) (v : Option P) : Nodes P :=
  Function.update m x { m x with next := v }

/-- The same for the other link. -/
def Nodes.withPrev (m : Nodes P) (x : P) (v : Option P) : Nodes P :=
  Function.update m x { m x with prev := v }

/-- `*p`. -/
def Nodes.load (m : Nodes P) (p : Option P) : Kern (ListHead P) :=
  match p with
  | none => .error .fault
  | some x => .ok (m x)

/-- `p->next = v`. -/
def Nodes.setNext (m : Nodes P) (p v : Option P) : Kern (Nodes P) :=
  match p with
  | none => .error .fault
  | some x => .ok (m.withNext x v)

/-- `p->prev = v`. -/
def Nodes.setPrev (m : Nodes P) (p v : Option P) : Kern (Nodes P) :=
  match p with
  | none => .error .fault
  | some x => .ok (m.withPrev x v)

/-- `INIT_SENTINEL(ptr)`. -/
def initSentinel (p : Option P) (m : Nodes P) : Kern (Nodes P) :=
  match p with
  | none => .error .fault
  | some x => .ok (Function.update m x ⟨p, p⟩)

/-- A node in memory that `bzero`, `kcalloc` or the loader has zeroed. -/
def zeroNode (p : Option P) (m : Nodes P) : Kern (Nodes P) :=
  match p with
  | none => .error .fault
  | some x => .ok (Function.update m x ⟨none, none⟩)

/-- `list_add_head`. -/
def listAddHead (newNode head : Option P) (m : Nodes P) : Kern (Nodes P) := do
  let oldNext := (← m.load head).next
  let m ← m.setNext newNode oldNext
  let m ← m.setPrev newNode head
  let m ← m.setPrev oldNext newNode
  m.setNext head newNode

/-- `buddy_list_add_head`. -/
def buddyListAddHead (newNode head : Option P) (m : Nodes P) : Kern (Nodes P) := do
  let oldNext := (← m.load head).next
  let m ← m.setNext newNode oldNext
  let m ← m.setPrev newNode head
  let m ← m.setPrev oldNext newNode
  m.setNext head newNode

/-- `list_node_is_linked`. -/
def listNodeIsLinked (node : Option P) (m : Nodes P) : Bool :=
  match node with
  | none => false
  | some x => (m x).next != none && (m x).prev != none && (m x).next != node

/-- `list_insert`. -/
def listInsert (new prev next : Option P) (m : Nodes P) : Kern (Nodes P) := do
  let m ← m.setPrev next new
  let m ← m.setNext new next
  let m ← m.setPrev new prev
  m.setNext prev new

/-- `list_add_tail`. -/
def listAddTail (newNode head : Option P) (m : Nodes P) : Kern (Nodes P) := do
  listInsert newNode (← m.load head).prev head m

/-- `pop_node`, which reads the links of the node again after the first write. -/
def popNode (node : Option P) (m : Nodes P) : Kern (Nodes P) := do
  let m ← m.setNext (← m.load node).prev (← m.load node).next
  let m ← m.setPrev (← m.load node).next (← m.load node).prev
  let m ← m.setNext node none
  m.setPrev node none

end Code

/-! ## Lists of nodes -/

/-- Which sentinels head which lists, and the nodes in no list that are ready to be put into one:
those that `INIT_SENTINEL`, zeroing or `pop_node` has left there. -/
structure Lists (P : Type u) where
  heads : P → Option (List P)
  loose : P → Prop
  nodup : ∀ s l, heads s = some l → (s :: l).Nodup
  apart : ∀ s t l m, heads s = some l → heads t = some m → s ≠ t → (s :: l).Disjoint (t :: m)
  loose_free : ∀ n s l, loose n → heads s = some l → n ∉ s :: l

namespace Lists

variable {P : Type u} {A : Lists P} {n s t : P} {l l₁ l₂ m : List P}

/-- A node in no list. -/
def Free (A : Lists P) (n : P) : Prop := ∀ s l, A.heads s = some l → n ∉ s :: l

/-- A node of a list, not its sentinel. -/
def InList (A : Lists P) (n : P) : Prop := ∃ s l, A.heads s = some l ∧ n ∈ l

/-- The sentinel of a list that is not empty. -/
def HeadsSome (A : Lists P) (n : P) : Prop := ∃ l, A.heads n = some l ∧ l ≠ []

/-- A node that has been initialised: it is loose, a sentinel, or in a list. -/
def Known (A : Lists P) (n : P) : Prop := A.loose n ∨ ∃ s l, A.heads s = some l ∧ n ∈ s :: l

section Edit

variable [DecidableEq P]

/-- The list of one sentinel is replaced. -/
def setList (A : Lists P) (s : P) (l : List P) (loose : P → Prop) (hl : (s :: l).Nodup)
    (hl' : ∀ t m, A.heads t = some m → t ≠ s → (s :: l).Disjoint (t :: m))
    (hloose : ∀ n, loose n → n ∉ s :: l ∧ ∀ t m, A.heads t = some m → t ≠ s → n ∉ t :: m) :
    Lists P where
  heads := Function.update A.heads s (some l)
  loose := loose
  nodup t m hm := by
    by_cases ht : t = s
    · subst ht
      rw [Function.update_self, Option.some_inj] at hm
      exact hm ▸ hl
    · rw [Function.update_of_ne ht] at hm
      exact A.nodup t m hm
  apart t t' m m' hm hm' hne := by
    by_cases ht : t = s
    · subst ht
      rw [Function.update_self, Option.some_inj] at hm
      rw [Function.update_of_ne hne.symm] at hm'
      exact hm ▸ hl' t' m' hm' hne.symm
    · rw [Function.update_of_ne ht] at hm
      by_cases ht' : t' = s
      · subst ht'
        rw [Function.update_self, Option.some_inj] at hm'
        exact hm' ▸ List.disjoint_symm (hl' t m hm hne)
      · rw [Function.update_of_ne ht'] at hm'
        exact A.apart t t' m m' hm hm' hne
  loose_free n t m hn hm := by
    by_cases ht : t = s
    · subst ht
      rw [Function.update_self, Option.some_inj] at hm
      exact hm ▸ (hloose n hn).1
    · rw [Function.update_of_ne ht] at hm
      exact (hloose n hn).2 t m hm ht

/-- A free node becomes the sentinel of an empty list. -/
def newHead (A : Lists P) (s : P) (hs : A.Free s) : Lists P :=
  A.setList s [] (fun x => A.loose x ∧ x ≠ s) (List.nodup_singleton s)
    (fun t m hm _ => List.disjoint_cons_left.mpr ⟨hs t m hm, List.disjoint_nil_left _⟩)
    (fun n hn => ⟨by simpa using hn.2, fun t m hm _ => A.loose_free n t m hn.1 hm⟩)

/-- A free node is initialised. -/
def newLoose (A : Lists P) (n : P) (hn : A.Free n) : Lists P :=
  { A with
    loose := fun x => A.loose x ∨ x = n
    loose_free := by
      intro x s l hx hs
      rcases hx with hx | rfl
      · exact A.loose_free x s l hx hs
      · exact hn s l hs }

/-- A free node is put into the list of `s`, between `l₁` and `l₂`. -/
def insertAt (A : Lists P) (s n : P) (l₁ l₂ : List P) (hs : A.heads s = some (l₁ ++ l₂))
    (hn : A.Free n) : Lists P :=
  A.setList s (l₁ ++ n :: l₂) (fun x => A.loose x ∧ x ≠ n)
    (by
      have hperm : List.Perm (s :: (l₁ ++ n :: l₂)) (n :: s :: (l₁ ++ l₂)) :=
        (List.perm_middle.cons s).trans (List.Perm.swap n s _)
      exact hperm.nodup_iff.mpr (List.nodup_cons.mpr ⟨hn s _ hs, A.nodup s _ hs⟩))
    (fun t m hm hne => by
      intro x hx
      have hapart := A.apart s t _ m hs hm hne.symm
      by_cases hxn : x = n
      · subst hxn
        exact hn t m hm
      · exact hapart (by grind))
    (fun x hx => by
      have hfree := A.loose_free x s _ hx.1 hs
      exact ⟨by grind, fun t m hm _ => A.loose_free x t m hx.1 hm⟩)

/-- The node of the list of `s` between `l₁` and `l₂` is taken out. -/
def removeFrom (A : Lists P) (s n : P) (l₁ l₂ : List P)
    (hs : A.heads s = some (l₁ ++ n :: l₂)) : Lists P :=
  A.setList s (l₁ ++ l₂) (fun x => A.loose x ∨ x = n)
    ((A.nodup s _ hs).sublist (((List.sublist_cons_self n l₂).append_left l₁).cons_cons s))
    (fun t m hm hne => by
      have hapart := A.apart s t _ m hs hm hne.symm
      intro x hx
      exact hapart (by grind))
    (fun x hx => by
      have hnodup := A.nodup s _ hs
      rcases hx with hx | rfl
      · have hfree := A.loose_free x s _ hx hs
        exact ⟨by grind, fun t m hm _ => A.loose_free x t m hx hm⟩
      · refine ⟨by grind, fun t m hm hne => ?_⟩
        exact A.apart s t _ m hs hm hne.symm (by grind))

end Edit

end Lists

/-- The nodes in memory are linked as the lists say. -/
structure Represents {P : Type u} (m : Nodes P) (A : Lists P) : Prop where
  circular : ∀ s l, A.heads s = some l →
    Circular (fun x => (m x).next) (fun x => (m x).prev) s l
  loose : ∀ n, A.loose n → m n = ⟨some n, some n⟩ ∨ m n = ⟨none, none⟩

/-! ## Operations -/

/-- An operation on a list, with the pointers that its caller passes. -/
inductive ListOp (P : Type u) where
  | initSentinel (p : P)
  | zeroNode (p : P)
  | addHead (n s : P)
  | buddyAddHead (n s : P)
  | insert (n p q : P)
  | addTail (n s : P)
  | pop (n : P)
  deriving DecidableEq, Repr

variable {P : Type u} [DecidableEq P]

/-- What the kernel runs. -/
def runOp (op : ListOp P) (m : Nodes P) : Kern (Nodes P) :=
  match op with
  | .initSentinel p => initSentinel (some p) m
  | .zeroNode p => zeroNode (some p) m
  | .addHead n s => listAddHead (some n) (some s) m
  | .buddyAddHead n s => buddyListAddHead (some n) (some s) m
  | .insert n p q => listInsert (some n) (some p) (some q) m
  | .addTail n s => listAddTail (some n) (some s) m
  | .pop n => popNode (some n) m

/-- One operation after the other. -/
def runOps (ops : List (ListOp P)) (m : Nodes P) : Kern (Nodes P) :=
  ops.foldlM (fun m op => runOp op m) m

/-- What an operation does to the lists, and what its caller has to see to: a node that enters a
list is in none, `list_insert` gets two neighbours, `pop_node` gets a node of a list. -/
inductive ListStep : Lists P → ListOp P → Lists P → Prop where
  | newHead {A : Lists P} {s : P} (hs : A.Free s) :
      ListStep A (.initSentinel s) (A.newHead s hs)
  | newLoose {A : Lists P} {n : P} (hn : A.Free n) :
      ListStep A (.initSentinel n) (A.newLoose n hn)
  | zeroNode {A : Lists P} {n : P} (hn : A.Free n) :
      ListStep A (.zeroNode n) (A.newLoose n hn)
  | addHead {A : Lists P} {n s : P} {l : List P} (hs : A.heads s = some l) (hn : A.Free n) :
      ListStep A (.addHead n s) (A.insertAt s n [] l hs hn)
  | buddyAddHead {A : Lists P} {n s : P} {l : List P} (hs : A.heads s = some l) (hn : A.Free n) :
      ListStep A (.buddyAddHead n s) (A.insertAt s n [] l hs hn)
  | addTail {A : Lists P} {n s : P} {l : List P} (hs : A.heads s = some (l ++ []))
      (hn : A.Free n) : ListStep A (.addTail n s) (A.insertAt s n l [] hs hn)
  | insert {A : Lists P} {n p q s : P} {l₁ l₂ : List P} (hs : A.heads s = some (l₁ ++ l₂))
      (hn : A.Free n) (hp : p ∈ (s :: l₁).getLast?) (hq : q ∈ (l₂ ++ [s]).head?) :
      ListStep A (.insert n p q) (A.insertAt s n l₁ l₂ hs hn)
  | pop {A : Lists P} {n s : P} {l₁ l₂ : List P} (hs : A.heads s = some (l₁ ++ n :: l₂)) :
      ListStep A (.pop n) (A.removeFrom s n l₁ l₂ hs)

/-- What a list of operations does to the lists. -/
inductive ListRun : Lists P → List (ListOp P) → Lists P → Prop where
  | nil (A : Lists P) : ListRun A [] A
  | cons {A A' A'' : Lists P} {op : ListOp P} {ops : List (ListOp P)} (step : ListStep A op A')
      (rest : ListRun A' ops A'') : ListRun A (op :: ops) A''

end Kfs.Kernel
