import Mathlib.Data.List.Nodup
import Mathlib.Data.List.Basic
import Mathlib.Tactic.Common

/-!
# Circular doubly linked lists

A circular list is a sentinel and the nodes threaded behind it: following `next` from the sentinel
visits the nodes in order and comes back, following `prev` visits them in the opposite order. A
link is an `Option`, so that a node may be unlinked.

One direction is a `Round`; a circular list is a round for `next` and the reversed round for
`prev`, so that what an insertion or a removal does is proved for one direction and used for both.

## Layers

- `Round.insert`, `Round.erase`: one direction after the links at one place have changed;
- `Circular.insert`, `Circular.erase`: both directions;
- `Circular.frame`: a circular list only depends on the links of its own nodes.
-/

namespace Kfs.Lib

universe u

variable {α : Type u} {next next' prev prev' : α → Option α} {s n p q x : α} {l l₁ l₂ : List α}

/-- Following `next` from the sentinel `s` visits the nodes of the list and comes back to `s`. -/
def Round (next : α → Option α) (s : α) (l : List α) : Prop :=
  (s :: l).map next = (l ++ [s]).map some

/-- A circular doubly linked list: a sentinel and its nodes. -/
structure Circular (next prev : α → Option α) (s : α) (l : List α) : Prop where
  forward : Round next s l
  backward : Round prev s l.reverse
  nodup : (s :: l).Nodup

/-! ## One direction -/

theorem round_nil : Round next s [] ↔ next s = some s := by
  simp [Round]

theorem Round.frame (h : Round next s l) (heq : ∀ x ∈ s :: l, next' x = next x) :
    Round next' s l := by
  unfold Round
  rw [List.map_congr_left heq]
  exact h

/-- A round cut at one place: the node before it links to the node behind it. -/
theorem round_append :
    Round next s (l₁ ++ l₂) ↔
      ∃ u p q v, s :: l₁ = u ++ [p] ∧ l₂ ++ [s] = q :: v ∧
        u.map next = l₁.map some ∧ next p = some q ∧ l₂.map next = v.map some := by
  obtain ⟨u, p, hu⟩ : ∃ u p, s :: l₁ = u ++ [p] :=
    ⟨_, _, (List.dropLast_append_getLast (List.cons_ne_nil s l₁)).symm⟩
  obtain ⟨q, v, hv⟩ : ∃ q v, l₂ ++ [s] = q :: v :=
    List.exists_cons_of_ne_nil (List.append_ne_nil_of_right_ne_nil l₂ (List.cons_ne_nil s []))
  have hlen : u.length = l₁.length := by
    have h := congrArg List.length hu
    simpa using h.symm
  have hsplit : Round next s (l₁ ++ l₂) ↔
      u.map next ++ (next p :: l₂.map next) = l₁.map some ++ (some q :: v.map some) := by
    unfold Round
    rw [← List.cons_append, hu, List.append_assoc l₁, hv]
    simp
  constructor
  · intro h
    obtain ⟨h₁, h₂⟩ := List.append_inj (hsplit.mp h) (by simpa using hlen)
    obtain ⟨h₂, h₃⟩ := List.cons.inj h₂
    exact ⟨u, p, q, v, hu, hv, h₁, h₂, h₃⟩
  · rintro ⟨u', p', q', v', hu', hv', h₁, h₂, h₃⟩
    obtain ⟨rfl, hp⟩ := List.append_inj' (hu.symm.trans hu') rfl
    obtain ⟨rfl, rfl⟩ := List.cons.inj (hv.symm.trans hv')
    obtain rfl := List.head_eq_of_cons_eq hp
    rw [hsplit, h₁, h₂, h₃]

/-- The node before a place and the node behind it. -/
theorem Round.link (h : Round next s (l₁ ++ l₂)) (hp : p ∈ (s :: l₁).getLast?)
    (hq : q ∈ (l₂ ++ [s]).head?) : next p = some q := by
  obtain ⟨u, p', q', v, hu, hv, -, hlink, -⟩ := round_append.mp h
  rw [hu, List.getLast?_concat, Option.mem_some_iff] at hp
  rw [hv, List.head?_cons, Option.mem_some_iff] at hq
  rw [← hp, ← hq]
  exact hlink

/-- Where only the node at the cut has a new link, both parts keep theirs. -/
theorem map_relinked {u : List α} (hnodup : (u ++ p :: l).Nodup)
    (heq : ∀ x ∈ u ++ p :: l, x ≠ p → next' x = next x) :
    u.map next' = u.map next ∧ l.map next' = l.map next := by
  obtain ⟨-, hrest, hne⟩ := List.nodup_append.mp hnodup
  have hp : p ∉ l := (List.nodup_cons.mp hrest).1
  constructor
  · apply List.map_congr_left
    intro x hx
    exact heq x (List.mem_append_left _ hx) (hne x hx p List.mem_cons_self)
  · apply List.map_congr_left
    intro x hx
    exact heq x (List.mem_append_right _ (List.mem_cons_of_mem _ hx)) (ne_of_mem_of_not_mem hx hp)

/-- A new node between two neighbours. -/
theorem Round.insert (h : Round next s (l₁ ++ l₂)) (hnodup : (s :: (l₁ ++ l₂)).Nodup)
    (hp : p ∈ (s :: l₁).getLast?) (hq : q ∈ (l₂ ++ [s]).head?) (hpn : next' p = some n)
    (hnq : next' n = some q) (heq : ∀ x ∈ s :: (l₁ ++ l₂), x ≠ p → next' x = next x) :
    Round next' s (l₁ ++ n :: l₂) := by
  obtain ⟨u, p', q', v, hu, hv, h₁, -, h₃⟩ := round_append.mp h
  rw [hu, List.getLast?_concat, Option.mem_some_iff] at hp
  rw [hv, List.head?_cons, Option.mem_some_iff] at hq
  subst hp hq
  have hcut : s :: (l₁ ++ l₂) = u ++ p' :: l₂ := by
    rw [← List.cons_append, hu, List.append_assoc]
    rfl
  rw [hcut] at hnodup heq
  obtain ⟨hfirst, hsecond⟩ := map_relinked hnodup heq
  refine round_append.mpr ⟨u, p', n, q' :: v, hu, ?_, hfirst.trans h₁, hpn, ?_⟩
  · rw [List.cons_append, hv]
  · rw [List.map_cons, List.map_cons, hnq, hsecond, h₃]

/-- The node of a round is taken out: the node before it takes over its link. -/
theorem Round.erase (h : Round next s (l₁ ++ n :: l₂)) (hnodup : (s :: (l₁ ++ n :: l₂)).Nodup)
    (hp : p ∈ (s :: l₁).getLast?) (hpn : next' p = next n)
    (heq : ∀ x ∈ s :: (l₁ ++ l₂), x ≠ p → next' x = next x) :
    Round next' s (l₁ ++ l₂) := by
  obtain ⟨u, p', q, v, hu, hv, h₁, -, h₃⟩ := round_append.mp h
  rw [hu, List.getLast?_concat, Option.mem_some_iff] at hp
  subst hp
  obtain ⟨rfl, rfl⟩ := List.cons.inj hv
  obtain ⟨q', v', hv'⟩ : ∃ q' v', l₂ ++ [s] = q' :: v' :=
    List.exists_cons_of_ne_nil (List.append_ne_nil_of_right_ne_nil l₂ (List.cons_ne_nil s []))
  rw [List.append_eq, hv', List.map_cons, List.map_cons] at h₃
  obtain ⟨hnq, h₃⟩ := List.cons.inj h₃
  have hcut : s :: (l₁ ++ l₂) = u ++ p' :: l₂ := by
    rw [← List.cons_append, hu, List.append_assoc]
    rfl
  have hsub : List.Sublist (s :: (l₁ ++ l₂)) (s :: (l₁ ++ n :: l₂)) :=
    ((List.sublist_cons_self n l₂).append_left l₁).cons_cons s
  have hnodup' := hnodup.sublist hsub
  rw [hcut] at hnodup' heq
  obtain ⟨hfirst, hsecond⟩ := map_relinked hnodup' heq
  exact round_append.mpr
    ⟨u, p', q', v', hu, hv', hfirst.trans h₁, hpn.trans hnq, hsecond.trans h₃⟩

/-- Every node of a round is linked. -/
theorem Round.isSome (h : Round next s l) (hx : x ∈ s :: l) : (next x).isSome := by
  have hmem : next x ∈ (l ++ [s]).map some := by
    rw [← h]
    exact List.mem_map_of_mem hx
  obtain ⟨y, -, hy⟩ := List.mem_map.mp hmem
  rw [← hy]
  rfl

/-! ## Both directions -/

/-- Seen backwards, the node behind a place is the one before it. -/
theorem getLast?_cons_reverse (s : α) (l : List α) :
    (s :: l.reverse).getLast? = (l ++ [s]).head? := by
  rw [← List.getLast?_reverse, List.reverse_append, List.reverse_singleton, List.singleton_append]

/-- Seen backwards, the node before a place is the one behind it. -/
theorem head?_reverse_append (s : α) (l : List α) :
    (l.reverse ++ [s]).head? = (s :: l).getLast? := by
  rw [← List.reverse_cons, List.head?_reverse]

namespace Circular

theorem nil_iff : Circular next prev s [] ↔ next s = some s ∧ prev s = some s := by
  constructor
  · intro h
    exact ⟨round_nil.mp h.forward, round_nil.mp h.backward⟩
  · intro h
    exact ⟨round_nil.mpr h.1, round_nil.mpr h.2, List.nodup_singleton s⟩

/-- A circular list only depends on the links of its own nodes. -/
theorem frame (h : Circular next prev s l) (hnext : ∀ x ∈ s :: l, next' x = next x)
    (hprev : ∀ x ∈ s :: l, prev' x = prev x) : Circular next' prev' s l := by
  refine ⟨h.forward.frame hnext, h.backward.frame ?_, h.nodup⟩
  intro x hx
  apply hprev
  simpa using hx

theorem link (h : Circular next prev s (l₁ ++ l₂)) (hp : p ∈ (s :: l₁).getLast?)
    (hq : q ∈ (l₂ ++ [s]).head?) : next p = some q ∧ prev q = some p := by
  have hback := h.backward
  rw [List.reverse_append] at hback
  refine ⟨h.forward.link hp hq, hback.link ?_ ?_⟩
  · rwa [getLast?_cons_reverse]
  · rwa [head?_reverse_append]

/-- The node behind a node. -/
theorem next_of_mem (h : Circular next prev s (l₁ ++ n :: l₂)) (hq : q ∈ (l₂ ++ [s]).head?) :
    next n = some q := by
  rw [List.append_cons] at h
  exact (h.link (by rw [← List.cons_append, List.getLast?_concat]; rfl) hq).1

/-- The node before a node. -/
theorem prev_of_mem (h : Circular next prev s (l₁ ++ n :: l₂)) (hp : p ∈ (s :: l₁).getLast?) :
    prev n = some p :=
  (h.link hp rfl).2

/-- A new node between two neighbours. -/
theorem insert (h : Circular next prev s (l₁ ++ l₂)) (hn : n ∉ s :: (l₁ ++ l₂))
    (hp : p ∈ (s :: l₁).getLast?) (hq : q ∈ (l₂ ++ [s]).head?)
    (hpn : next' p = some n) (hnq : next' n = some q)
    (hqn : prev' q = some n) (hnp : prev' n = some p)
    (hnext : ∀ x ∈ s :: (l₁ ++ l₂), x ≠ p → next' x = next x)
    (hprev : ∀ x ∈ s :: (l₁ ++ l₂), x ≠ q → prev' x = prev x) :
    Circular next' prev' s (l₁ ++ n :: l₂) where
  forward := h.forward.insert h.nodup hp hq hpn hnq hnext
  backward := by
    have hback := h.backward
    rw [List.reverse_append] at hback
    have hnodup : (s :: (l₂.reverse ++ l₁.reverse)).Nodup := by
      rw [← List.reverse_append]
      exact ((List.reverse_perm _).cons s).nodup_iff.mpr h.nodup
    have hround := hback.insert hnodup (by rwa [getLast?_cons_reverse])
      (by rwa [head?_reverse_append]) hqn hnp fun x hx => hprev x (by simpa [or_comm] using hx)
    simpa using hround
  nodup := by
    have hperm : List.Perm (s :: (l₁ ++ n :: l₂)) (n :: s :: (l₁ ++ l₂)) :=
      (List.perm_middle.cons s).trans (List.Perm.swap n s _)
    exact hperm.nodup_iff.mpr (List.nodup_cons.mpr ⟨hn, h.nodup⟩)

/-- A node is taken out and its neighbours are linked to each other. -/
theorem erase (h : Circular next prev s (l₁ ++ n :: l₂))
    (hp : p ∈ (s :: l₁).getLast?) (hq : q ∈ (l₂ ++ [s]).head?)
    (hpn : next' p = next n) (hqn : prev' q = prev n)
    (hnext : ∀ x ∈ s :: (l₁ ++ l₂), x ≠ p → next' x = next x)
    (hprev : ∀ x ∈ s :: (l₁ ++ l₂), x ≠ q → prev' x = prev x) :
    Circular next' prev' s (l₁ ++ l₂) where
  forward := h.forward.erase h.nodup hp hpn hnext
  backward := by
    have hback : Round prev s (l₂.reverse ++ n :: l₁.reverse) := by
      simpa using h.backward
    have hnodup : (s :: (l₂.reverse ++ n :: l₁.reverse)).Nodup := by
      have hperm : List.Perm (l₁ ++ n :: l₂).reverse (l₁ ++ n :: l₂) := List.reverse_perm _
      have hrev : (l₁ ++ n :: l₂).reverse = l₂.reverse ++ n :: l₁.reverse := by simp
      rw [← hrev]
      exact (hperm.cons s).nodup_iff.mpr h.nodup
    rw [List.reverse_append]
    exact hback.erase hnodup (by rwa [getLast?_cons_reverse]) hqn
      fun x hx => hprev x (by simpa [or_comm] using hx)
  nodup := by
    have hsub : List.Sublist (s :: (l₁ ++ l₂)) (s :: (l₁ ++ n :: l₂)) :=
      ((List.sublist_cons_self n l₂).append_left l₁).cons_cons s
    exact h.nodup.sublist hsub

/-- Both links of every node are set. -/
theorem isSome (h : Circular next prev s l) (hx : x ∈ s :: l) :
    (next x).isSome ∧ (prev x).isSome := by
  refine ⟨h.forward.isSome hx, h.backward.isSome ?_⟩
  simpa using hx

/-- No node of a list that is not empty links to itself. -/
theorem next_ne_self (h : Circular next prev s l) (hl : l ≠ []) (hx : x ∈ s :: l) :
    next x ≠ some x := by
  have hnodup := h.nodup
  rcases List.mem_cons.mp hx with rfl | hmem
  · obtain ⟨y, t, rfl⟩ := List.exists_cons_of_ne_nil hl
    have hforward : Round next x ([] ++ y :: t) := h.forward
    have hlink : next x = some y := hforward.link rfl rfl
    intro hself
    obtain rfl := Option.some.inj (hlink.symm.trans hself)
    exact (List.nodup_cons.mp hnodup).1 List.mem_cons_self
  · obtain ⟨l₁, l₂, rfl⟩ := List.append_of_mem hmem
    obtain ⟨q, v, hv⟩ : ∃ q v, l₂ ++ [s] = q :: v :=
      List.exists_cons_of_ne_nil (List.append_ne_nil_of_right_ne_nil l₂ (List.cons_ne_nil s []))
    have hlink : next x = some q := h.next_of_mem (by rw [hv]; rfl)
    intro hself
    obtain rfl := Option.some.inj (hlink.symm.trans hself)
    have hq : q ∈ l₂ ++ [s] := by
      rw [hv]
      exact List.mem_cons_self
    obtain ⟨hs, htail⟩ := List.nodup_cons.mp hnodup
    obtain ⟨-, hq₂, -⟩ := List.nodup_append.mp htail
    rcases List.mem_append.mp hq with hq | hq
    · exact (List.nodup_cons.mp hq₂).1 hq
    · obtain rfl := List.mem_singleton.mp hq
      exact hs hmem

end Circular

end Kfs.Lib
