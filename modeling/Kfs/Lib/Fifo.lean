import Mathlib.Data.List.Nodup
import Mathlib.Tactic.Common

/-!
# First-in first-out queues

A queue in which every element occurs once: elements enter at the tail, are taken from the head,
and may leave from anywhere. A poll of the queue takes its head or, where there is none, misses.

## Layers

- `QueueRun`: the lists of events that a queue allows;
- `NotAhead`: the invariant that carries the results, one element does not come before another;
- `QueueRun.takes_nodup`, `QueueRun.fifo`, `QueueRun.taken_by`: what it means for the polls.
-/

namespace Kfs.Lib

universe u

/-- What happens to a queue. -/
inductive QueueEvent (α : Type u) where
  | enter (a : α)
  | leave (a : α)
  | take (a : α)
  | miss
  deriving DecidableEq, Repr

/-- The answers to the polls among the events, in order. -/
def polls {α : Type u} (es : List (QueueEvent α)) : List (Option α) :=
  es.filterMap fun e => match e with
    | .take a => some (some a)
    | .miss => some none
    | _ => none

/-- From the first queue the events lead to the second one. -/
inductive QueueRun {α : Type u} [DecidableEq α] : List α → List (QueueEvent α) → List α → Prop
  | nil (q : List α) : QueueRun q [] q
  | enter {q q' : List α} {a : α} {es : List (QueueEvent α)} (ha : a ∉ q)
      (rest : QueueRun (q ++ [a]) es q') : QueueRun q (.enter a :: es) q'
  | leave {q q' : List α} {a : α} {es : List (QueueEvent α)} (ha : a ∈ q)
      (rest : QueueRun (q.erase a) es q') : QueueRun q (.leave a :: es) q'
  | take {q q' : List α} {a : α} {es : List (QueueEvent α)}
      (rest : QueueRun q es q') : QueueRun (a :: q) (.take a :: es) q'
  | miss {q' : List α} {es : List (QueueEvent α)}
      (rest : QueueRun [] es q') : QueueRun [] (.miss :: es) q'

section Polls

variable {α : Type u} {a : α} {es es' : List (QueueEvent α)}

@[simp] theorem polls_nil : polls ([] : List (QueueEvent α)) = [] := rfl

@[simp] theorem polls_enter : polls (.enter a :: es) = polls es := rfl

@[simp] theorem polls_leave : polls (.leave a :: es) = polls es := rfl

@[simp] theorem polls_take : polls (.take a :: es) = some a :: polls es := rfl

@[simp] theorem polls_miss : polls (.miss :: es) = none :: polls es := rfl

@[simp] theorem polls_append : polls (es ++ es') = polls es ++ polls es' := by
  simp [polls, List.filterMap_append]

theorem mem_polls : some a ∈ polls es ↔ QueueEvent.take a ∈ es := by
  induction es with
  | nil => simp
  | cons e es ih => cases e <;> simp [ih]

end Polls

namespace QueueRun

variable {α : Type u} [DecidableEq α] {a b : α} {q q' q'' : List α}
  {es es' : List (QueueEvent α)}

theorem append (h : QueueRun q es q') (h' : QueueRun q' es' q'') : QueueRun q (es ++ es') q'' := by
  induction h with
  | nil q => exact h'
  | enter ha _ ih => exact .enter ha (ih h')
  | leave ha _ ih => exact .leave ha (ih h')
  | take _ ih => exact .take (ih h')
  | miss _ ih => exact .miss (ih h')

/-- A run can be cut anywhere. -/
theorem split (h : QueueRun q (es ++ es') q'') :
    ∃ q', QueueRun q es q' ∧ QueueRun q' es' q'' := by
  induction es generalizing q with
  | nil => exact ⟨q, .nil q, h⟩
  | cons e es ih =>
    cases h with
    | enter ha rest =>
      obtain ⟨q', h₁, h₂⟩ := ih rest
      exact ⟨q', .enter ha h₁, h₂⟩
    | leave ha rest =>
      obtain ⟨q', h₁, h₂⟩ := ih rest
      exact ⟨q', .leave ha h₁, h₂⟩
    | take rest =>
      obtain ⟨q', h₁, h₂⟩ := ih rest
      exact ⟨q', .take h₁, h₂⟩
    | miss rest =>
      obtain ⟨q', h₁, h₂⟩ := ih rest
      exact ⟨q', .miss h₁, h₂⟩

/-- The events determine the queue. -/
theorem unique (h : QueueRun q es q') (h' : QueueRun q es q'') : q' = q'' := by
  induction h with
  | nil q =>
    cases h'
    rfl
  | enter _ _ ih =>
    cases h' with
    | enter _ rest => exact ih rest
  | leave _ _ ih =>
    cases h' with
    | leave _ rest => exact ih rest
  | take _ ih =>
    cases h' with
    | take rest => exact ih rest
  | miss _ ih =>
    cases h' with
    | miss rest => exact ih rest

/-- No element ever occurs twice. -/
theorem nodup (h : QueueRun q es q') (hq : q.Nodup) : q'.Nodup := by
  induction h with
  | nil q => exact hq
  | enter ha _ ih =>
    apply ih
    exact hq.append (List.nodup_singleton _) (by simpa using ha)
  | leave _ _ ih => exact ih (hq.erase _)
  | take _ ih => exact ih hq.of_cons
  | miss _ ih => exact ih hq

end QueueRun

/-! ## Order -/

/-- `b` is in the queue and `a` is not ahead of it. -/
def NotAhead {α : Type u} (q : List α) (a b : α) : Prop := ∃ l₁ l₂, q = l₁ ++ b :: l₂ ∧ a ∉ l₁

section Order

variable {α : Type u} {a b c : α} {q q' : List α} {es es' : List (QueueEvent α)}

theorem notAhead_of_notMem (hb : b ∈ q) (ha : a ∉ q) : NotAhead q a b := by
  obtain ⟨l₁, l₂, rfl⟩ := List.append_of_mem hb
  exact ⟨l₁, l₂, rfl, fun h => ha (List.mem_append_left _ h)⟩

/-- Entering at the tail puts nothing ahead. -/
theorem NotAhead.enter (h : NotAhead q a b) (c : α) : NotAhead (q ++ [c]) a b := by
  obtain ⟨l₁, l₂, rfl, ha⟩ := h
  exact ⟨l₁, l₂ ++ [c], by simp, ha⟩

theorem NotAhead.leave [DecidableEq α] (h : NotAhead q a b) (hc : c ≠ b) : NotAhead (q.erase c) a b := by
  obtain ⟨l₁, l₂, rfl, ha⟩ := h
  by_cases hmem : c ∈ l₁
  · refine ⟨l₁.erase c, l₂, List.erase_append_left _ hmem, fun h => ha (List.mem_of_mem_erase h)⟩
  · refine ⟨l₁, l₂.erase c, ?_, ha⟩
    rw [List.erase_append_right _ hmem, List.erase_cons_tail (by simpa using hc.symm)]

/-- The head that is taken is neither `b` nor, if it differs from `b`, `a`. -/
theorem NotAhead.take (h : NotAhead (c :: q) a b) (hc : c ≠ b) : NotAhead q a b ∧ c ≠ a := by
  obtain ⟨l₁, l₂, hq, ha⟩ := h
  cases l₁ with
  | nil =>
    rw [List.nil_append, List.cons.injEq] at hq
    exact absurd hq.1 hc
  | cons d l₁ =>
    rw [List.cons_append, List.cons.injEq] at hq
    obtain ⟨rfl, rfl⟩ := hq
    rw [List.mem_cons, not_or] at ha
    exact ⟨⟨l₁, l₂, rfl, ha.2⟩, fun h => ha.1 h.symm⟩

theorem NotAhead.ne_nil (h : NotAhead q a b) : q ≠ [] := by
  obtain ⟨l₁, l₂, rfl, -⟩ := h
  simp

variable [DecidableEq α]

namespace QueueRun

/-- While `b` stays, an element that is not ahead of `b` is not taken. -/
theorem not_taken (h : QueueRun q es q') (hq : NotAhead q a b)
    (hleave : QueueEvent.leave b ∉ es) (htake : QueueEvent.take b ∉ es) :
    QueueEvent.take a ∉ es := by
  induction h with
  | nil q => simp
  | enter _ _ ih =>
    simp only [List.mem_cons, not_or] at hleave htake ⊢
    exact ⟨by simp, ih (hq.enter _) hleave.2 htake.2⟩
  | leave _ _ ih =>
    simp only [List.mem_cons, not_or] at hleave htake ⊢
    refine ⟨by simp, ih (hq.leave fun hc => hleave.1 ?_) hleave.2 htake.2⟩
    rw [hc]
  | take _ ih =>
    simp only [List.mem_cons, not_or] at hleave htake ⊢
    obtain ⟨hrest, hne⟩ := hq.take fun hc => htake.1 (by rw [hc])
    exact ⟨fun heq => hne (QueueEvent.take.inj heq).symm, ih hrest hleave.2 htake.2⟩
  | miss _ ih => exact absurd rfl hq.ne_nil

/-- **First in, first out**: an element `b` that is behind `a`, or enters only later, is taken only
after `a` has been taken or has left. -/
theorem fifo (h : QueueRun q (es ++ .take b :: es') q') (hq : NotAhead q b a) (hab : a ≠ b) :
    QueueEvent.leave a ∈ es ∨ QueueEvent.take a ∈ es := by
  by_contra hcon
  rw [not_or] at hcon
  have hpre : es ++ .take b :: es' = (es ++ [.take b]) ++ es' := by simp
  rw [hpre] at h
  obtain ⟨q₁, hrun, -⟩ := h.split
  -- up to the take of `b` the element `a` stays, and `b` does not come before it
  have hnot : QueueEvent.take b ∉ es ++ [.take b] := by
    apply hrun.not_taken hq
    · simp [hcon.1]
    · simp [hcon.2, hab]
  exact hnot (by simp)

/-- While `b` stays, every poll takes an element, and no element twice. -/
theorem takes_nodup (h : QueueRun q es q') (hq : q.Nodup) (hb : b ∈ q)
    (hleave : QueueEvent.leave b ∉ es) (htake : QueueEvent.take b ∉ es) :
    none ∉ polls es ∧ (polls es).Nodup := by
  induction h with
  | nil q => simp
  | enter ha rest ih =>
    simp only [List.mem_cons, not_or] at hleave htake
    apply ih _ (List.mem_append_left _ hb) hleave.2 htake.2
    exact hq.append (List.nodup_singleton _) (by simpa using ha)
  | leave _ _ ih =>
    simp only [List.mem_cons, not_or] at hleave htake
    refine ih (hq.erase _) ((List.mem_erase_of_ne fun heq => hleave.1 ?_).mpr hb) hleave.2 htake.2
    rw [heq]
  | @take q q' c es rest ih =>
    simp only [List.mem_cons, not_or] at hleave htake
    obtain ⟨hc, hrest⟩ := List.nodup_cons.mp hq
    have hbc : b ≠ c := fun heq => htake.1 (by rw [heq])
    have hbq : b ∈ q := (List.mem_cons.mp hb).resolve_left hbc
    obtain ⟨hnone, hnodup⟩ := ih hrest hbq hleave.2 htake.2
    -- `c` can only come back behind `b`
    have hagain : QueueEvent.take c ∉ es :=
      rest.not_taken (notAhead_of_notMem hbq hc) hleave.2 htake.2
    refine ⟨by simpa using hnone, ?_⟩
    rw [polls_take, List.nodup_cons, mem_polls]
    exact ⟨hagain, hnodup⟩
  | miss _ _ => exact absurd hb List.not_mem_nil

/-- An element with `i` elements ahead of it that does not leave is taken by one of the next `i + 1`
polls. -/
theorem taken_by {l₁ l₂ : List α} (h : QueueRun q es q') (hq : q = l₁ ++ b :: l₂)
    (hleave : QueueEvent.leave b ∉ es) (hlen : l₁.length < (polls es).length) :
    some b ∈ (polls es).take (l₁.length + 1) := by
  induction h generalizing l₁ l₂ with
  | nil q => simp at hlen
  | @enter q q' c es _ _ ih =>
    simp only [List.mem_cons, not_or] at hleave
    have hback : q ++ [c] = l₁ ++ b :: (l₂ ++ [c]) := by simp [hq]
    exact ih hback hleave.2 hlen
  | @leave q q' c es _ _ ih =>
    simp only [List.mem_cons, not_or] at hleave
    have hc : c ≠ b := fun heq => hleave.1 (by rw [heq])
    by_cases hmem : c ∈ l₁
    · -- one element less is ahead of `b`
      have hle : (l₁.erase c).length ≤ l₁.length := List.length_erase_le
      have hahead : q.erase c = l₁.erase c ++ b :: l₂ := by
        rw [hq]
        exact List.erase_append_left _ hmem
      have hshort := ih hahead hleave.2 (Nat.lt_of_le_of_lt hle hlen)
      exact List.take_subset_take_left _ (Nat.succ_le_succ hle) hshort
    · have hbehind : q.erase c = l₁ ++ b :: l₂.erase c := by
        rw [hq, List.erase_append_right _ hmem, List.erase_cons_tail (by simpa using hc.symm)]
      exact ih hbehind hleave.2 hlen
  | @take q q' c es _ ih =>
    simp only [List.mem_cons, not_or] at hleave
    cases l₁ with
    | nil =>
      rw [List.nil_append, List.cons.injEq] at hq
      simp [hq.1]
    | cons d l₁ =>
      rw [List.cons_append, List.cons.injEq] at hq
      have hnext := ih hq.2 hleave.2 (by simpa using hlen)
      rw [polls_take, List.length_cons, List.take_succ_cons]
      exact List.mem_cons_of_mem _ hnext
  | miss _ _ => simp at hq

end QueueRun

/-- `b` is in the queue at every moment of the run. -/
def StaysIn (q : List α) (es : List (QueueEvent α)) (b : α) : Prop :=
  ∀ es₁ es₂ q₁, es = es₁ ++ es₂ → QueueRun q es₁ q₁ → b ∈ q₁

/-- An element that stays neither leaves nor is taken. -/
theorem StaysIn.notMem (hstay : StaysIn q es b) (h : QueueRun q es q') (hq : q.Nodup) :
    QueueEvent.leave b ∉ es ∧ QueueEvent.take b ∉ es := by
  constructor
  · intro hmem
    obtain ⟨es₁, es₂, rfl⟩ := List.append_of_mem hmem
    obtain ⟨q₁, h₁, h₂⟩ := h.split
    cases h₂ with
    | leave _ rest =>
      have hin := hstay (es₁ ++ [.leave b]) es₂ (q₁.erase b) (by simp)
        (h₁.append (.leave (hstay es₁ _ q₁ rfl h₁) (.nil _)))
      exact (h₁.nodup hq).not_mem_erase hin
  · intro hmem
    obtain ⟨es₁, es₂, rfl⟩ := List.append_of_mem hmem
    obtain ⟨q₁, h₁, h₂⟩ := h.split
    cases h₂ with
    | @take q₂ _ _ _ rest =>
      have hin := hstay (es₁ ++ [.take b]) es₂ q₂ (by simp) (h₁.append (.take (.nil _)))
      exact (List.nodup_cons.mp (h₁.nodup hq)).1 hin

end Order

end Kfs.Lib
