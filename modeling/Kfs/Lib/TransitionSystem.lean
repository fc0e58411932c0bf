import Mathlib.Logic.Relation
import Mathlib.Tactic.Common

/-!
# Labelled transition systems

A system is a set of initial states and a labelled step relation. The invariant rule is the only
induction over runs that later developments need; `restrict` keeps the runs all of whose steps
meet a condition on the state before the step and on the label.
-/

namespace Kfs.Lib

universe u v w

/-- Initial states and a labelled step relation. -/
structure System (σ : Type u) (ι : Type v) where
  /-- The initial states. -/
  init : σ → Prop
  /-- `step s a s'`: the label `a` leads from `s` to `s'`. -/
  step : σ → ι → σ → Prop

namespace System

variable {σ : Type u} {ι : Type v} {ε : Type w}

/-- The states a system reaches. -/
inductive Reachable (M : System σ ι) : σ → Prop where
  | init {s : σ} : M.init s → Reachable M s
  | step {s s' : σ} {a : ι} : Reachable M s → M.step s a s' → Reachable M s'

/-- **Invariant rule**: what holds initially and is preserved by every step holds in every
reachable state. -/
theorem Reachable.invariant {M : System σ ι} {P : σ → Prop} (h0 : ∀ s, M.init s → P s)
    (hstep : ∀ s a s', P s → M.step s a s' → P s') {s : σ} (h : M.Reachable s) : P s := by
  induction h with
  | init hi => exact h0 _ hi
  | step _ hs ih => exact hstep _ _ _ ih hs

/-- The system that only takes steps whose source state and label meet `C`. -/
def restrict (M : System σ ι) (C : σ → ι → Prop) : System σ ι where
  init := M.init
  step s a s' := C s a ∧ M.step s a s'

/-- A restricted run is a run. -/
theorem Reachable.of_restrict {M : System σ ι} {C : σ → ι → Prop} {s : σ}
    (h : (M.restrict C).Reachable s) : M.Reachable s :=
  h.invariant (fun _ hi => .init hi) (fun _ _ _ ih hs => .step ih hs.2)

/-- A stronger condition leaves fewer runs. -/
theorem Reachable.restrict_mono {M : System σ ι} {C D : σ → ι → Prop} (hCD : ∀ s a, C s a → D s a)
    {s : σ} (h : (M.restrict C).Reachable s) : (M.restrict D).Reachable s :=
  h.invariant (fun _ hi => .init hi) fun _ _ _ ih hs => .step ih ⟨hCD _ _ hs.1, hs.2⟩

/-- Two restrictions may be imposed one after the other. -/
theorem Reachable.restrict_restrict {M : System σ ι} {C D : σ → ι → Prop} {s : σ}
    (h : (M.restrict fun s a => C s a ∧ D s a).Reachable s) :
    ((M.restrict D).restrict C).Reachable s :=
  h.invariant (fun _ hi => .init hi) fun _ _ _ ih hs => .step ih ⟨hs.1.1, hs.1.2, hs.2⟩

/-- The system of a step function that may stop with an error. -/
def ofStep (init : σ → Prop) (f : σ → ι → Except ε σ) : System σ ι where
  init := init
  step s a s' := f s a = .ok s'

/-- The step function, stopped where the condition fails. -/
def checkedStep (C : σ → ι → Prop) [∀ s a, Decidable (C s a)] (f : σ → ι → Except ε σ) (s : σ)
    (a : ι) : Option σ :=
  if C s a then (f s a).toOption else none

/-- A list of labels that runs through `checkedStep` is a run of the restricted system. -/
theorem Reachable.foldlM_restrict {init : σ → Prop} {f : σ → ι → Except ε σ} {C : σ → ι → Prop}
    [∀ s a, Decidable (C s a)] {s : σ} (hs : ((ofStep init f).restrict C).Reachable s) :
    ∀ {as : List ι} {s' : σ}, as.foldlM (checkedStep C f) s = some s' →
      ((ofStep init f).restrict C).Reachable s' := by
  intro as
  induction as generalizing s with
  | nil =>
    intro s' h
    obtain rfl : s = s' := Option.some.inj h
    exact hs
  | cons a as ih =>
    intro s' h
    rw [List.foldlM_cons, Option.bind_eq_bind, Option.bind_eq_some_iff] at h
    obtain ⟨t, ht, hrest⟩ := h
    unfold checkedStep at ht
    by_cases hC : C s a
    · rw [if_pos hC] at ht
      have hf : f s a = .ok t := by
        cases hf : f s a with
        | error e => rw [hf] at ht; cases ht
        | ok u =>
          rw [hf] at ht
          rw [Option.some.inj ht]
      exact ih (.step hs ⟨hC, hf⟩) hrest
    · rw [if_neg hC] at ht
      cases ht

end System

end Kfs.Lib
