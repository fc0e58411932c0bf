import Mathlib.Tactic.Common

/-!
# How a kernel function stops

`kpanic` prints and halts, so a call that reaches it has no result. Two more outcomes keep the
models honest where the C code leaves the states they represent:

- `fault`: the code dereferences a pointer or indexes an array that no earlier step has
  established (an unlinked list node, a `NULL` free list, `INVALID_ZONE` as an index);
- `corrupted`: the code overwrites the links of a node that is still on a list and runs on with
  broken links. The list-level models do not follow it past that point.
-/

namespace Kfs

universe u v

/-- The ways a kernel function ends without a result. -/
inductive Stop where
  /-- `kpanic(fmt, ...)`. -/
  | kpanic (fmt : String)
  /-- A dereference the code has not established. -/
  | fault
  /-- A list node is overwritten while it is linked. -/
  | corrupted
  deriving DecidableEq, Repr

/-- A kernel computation: a result or a stop. -/
abbrev Kern (α : Type u) := Except Stop α

/-- How a computation stops, if it does. -/
def stopOf {α : Type u} : Kern α → Option Stop
  | .ok _ => none
  | .error e => some e

theorem eq_error_of_stopOf {α : Type u} {x : Kern α} {e : Stop} (h : stopOf x = some e) :
    x = .error e := by
  cases x with
  | ok a => cases h
  | error e' => rw [Option.some.inj h]

theorem eq_ok_of_toOption {α : Type u} {x : Kern α} {a : α} (h : x.toOption = some a) :
    x = .ok a := by
  cases x with
  | error e => cases h
  | ok b => rw [Option.some.inj h]

/-- A computation with a given view of its result has a result. -/
theorem exists_ok_of_toOption_map {ε : Type u} {α β : Type v} {x : Except ε α} {f : α → β} {b : β}
    (h : x.toOption.map f = some b) : ∃ a, x = .ok a ∧ f a = b := by
  cases x with
  | error e => cases h
  | ok a => exact ⟨a, rfl, Option.some.inj h⟩

theorem bind_eq_ok {ε : Type u} {α β : Type v} {x : Except ε α} {f : α → Except ε β} {r : β} :
    (x >>= f) = .ok r ↔ ∃ a, x = .ok a ∧ f a = .ok r := by
  cases x with
  | error e => exact ⟨fun h => (nomatch h), fun ⟨_, h, _⟩ => (nomatch h)⟩
  | ok a => exact ⟨fun h => ⟨a, rfl, h⟩, fun ⟨_, h, h'⟩ => Except.ok.inj h ▸ h'⟩

/-- The parts of a result. -/
theorem ok_triple_inj {ε α β γ : Type*} {a a' : α} {b b' : β} {c c' : γ}
    (h : (Except.ok (a, b, c) : Except ε (α × β × γ)) = .ok (a', b', c')) :
    a = a' ∧ b = b' ∧ c = c' := by
  obtain ⟨ha, hrest⟩ := Prod.mk.inj (Except.ok.inj h)
  exact ⟨ha, Prod.mk.inj hrest⟩

@[simp] theorem ok_bind {ε : Type u} {α β : Type v} (a : α) (f : α → Except ε β) :
    ((Except.ok a : Except ε α) >>= f) = f a := rfl

@[simp] theorem error_bind {ε : Type u} {α β : Type v} (e : ε) (f : α → Except ε β) :
    ((Except.error e : Except ε α) >>= f) = .error e := rfl

end Kfs
