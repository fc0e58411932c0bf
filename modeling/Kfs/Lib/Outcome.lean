import Mathlib.Data.List.Induction
import Mathlib.Tactic.Common

/-!
# Postconditions of fallible computations

`Meets r P E` says what is known of a computation `r` that gives a result or stops: a result
satisfies `P` and a stop satisfies `E`. The rules follow the way such computations are built.
-/

namespace Kfs.Lib

universe u v

variable {ε : Type u} {α β : Type v} {P P' : α → Prop} {E : ε → Prop}

/-- A result of `r` satisfies `P`, a stop satisfies `E`. -/
def Meets (r : Except ε α) (P : α → Prop) (E : ε → Prop) : Prop :=
  match r with
  | .ok a => P a
  | .error e => E e

@[simp] theorem meets_ok {a : α} : Meets (.ok a) P E ↔ P a := Iff.rfl

@[simp] theorem meets_error {e : ε} : Meets (.error e) P E ↔ E e := Iff.rfl

/-- **Rule of consequence**. -/
theorem Meets.mono {r : Except ε α} (h : Meets r P E) (hP : ∀ a, P a → P' a) : Meets r P' E := by
  cases r with
  | ok a => exact hP a h
  | error e => exact h

/-- **Rule of composition**. -/
theorem Meets.bind {r : Except ε α} {f : α → Except ε β} {Q : β → Prop} (h : Meets r P E)
    (hf : ∀ a, P a → Meets (f a) Q E) : Meets (r >>= f) Q E := by
  cases r with
  | ok a => exact hf a h
  | error e => exact h

/-- What a result satisfies. -/
theorem Meets.result {r : Except ε α} (h : Meets r P E) {a : α} (hr : r = .ok a) : P a := by
  rw [hr] at h
  exact h

/-- A stop that `E` excludes does not happen. -/
theorem Meets.ne_error {r : Except ε α} (h : Meets r P E) {e : ε} (he : ¬ E e) :
    r ≠ .error e := by
  intro hr
  rw [hr] at h
  exact he h

/-- **Loop rule** for a fold: an invariant that each turn keeps. -/
theorem Meets.foldlM {γ : Type v} {f : α → γ → Except ε α} {xs : List γ}
    (hf : ∀ a, ∀ x ∈ xs, P a → Meets (f a x) P E) {a : α} (ha : P a) :
    Meets (xs.foldlM f a) P E := by
  induction xs generalizing a with
  | nil => exact ha
  | cons x xs ih =>
    rw [List.foldlM_cons]
    refine Meets.bind (hf a x List.mem_cons_self ha) fun b hb => ?_
    exact ih (fun c y hy => hf c y (List.mem_cons_of_mem x hy)) hb

/-- One more turn of a loop. -/
theorem foldlM_snoc {γ : Type v} (f : α → γ → Except ε α) (a : α) (xs : List γ) (x : γ) :
    (xs ++ [x]).foldlM f a = xs.foldlM f a >>= fun b => f b x := by
  rw [List.foldlM_append]
  congr 1
  funext b
  exact bind_pure (f b x)

/-- **Loop rule**, exact: where each turn keeps the invariant just under the condition `C`, the
invariant holds after every part of the loop just if every turn meets `C`. Both may refer to the
turns made so far. -/
theorem meets_prefixes_iff {γ : Type v} {f : α → γ → Except ε α} {I : List γ → α → Prop}
    {C : List γ → α → γ → Prop}
    (hf : ∀ ys a x, I ys a → (Meets (f a x) (I (ys ++ [x])) E ↔ C ys a x)) (a : α) (xs : List γ) :
    (∀ ys, ys <+: xs → Meets (ys.foldlM f a) (I ys) E) ↔
      I [] a ∧ ∀ ys x, ys ++ [x] <+: xs → ∀ b, ys.foldlM f a = .ok b → C ys b x := by
  constructor
  · intro h
    refine ⟨h [] List.nil_prefix, fun ys x hys b hb => ?_⟩
    have hbefore : I ys b := (h ys ((List.prefix_append ys [x]).trans hys)).result hb
    have hafter := h (ys ++ [x]) hys
    rw [foldlM_snoc, hb] at hafter
    exact (hf ys b x hbefore).mp hafter
  · intro ⟨ha, hC⟩ ys
    induction ys using List.reverseRecOn with
    | nil => exact fun _ => ha
    | append_singleton ys x ih =>
      intro hys
      have hbefore := ih ((List.prefix_append ys [x]).trans hys)
      rw [foldlM_snoc]
      cases hb : ys.foldlM f a with
      | error e =>
        rw [hb] at hbefore
        exact hbefore
      | ok b => exact (hf ys b x (hbefore.result hb)).mpr (hC ys x hys b hb)

/-! ## Loops that can be left early -/

section Loops

variable {S : Type}

/-- A loop over a list that goes on while its body returns `true`. -/
def whileOk {γ : Type} (body : S → γ → Except ε (Bool × S)) : List γ → S → Except ε (Bool × S)
  | [], a => .ok (true, a)
  | x :: xs, a => do
    let (ok, a) ← body a x
    if ok then whileOk body xs a else .ok (false, a)

/-- **Loop rule** for a loop over a range: `I i` holds before turn `i`, and a turn that leaves the
loop establishes `Q`. -/
theorem whileOk_range' {body : S → ℕ → Except ε (Bool × S)} {I : ℕ → S → Prop} {Q : S → Prop}
    {n : ℕ} : ∀ {i : ℕ} {a a' : S} {ok : Bool},
    (∀ j b b' ok', i ≤ j → j < i + n → I j b → body b j = .ok (ok', b') →
      if ok' = true then I (j + 1) b' else Q b') →
    I i a → whileOk body (List.range' i n) a = .ok (ok, a') →
    if ok = true then I (i + n) a' else Q a' := by
  induction n with
  | zero =>
    intro i a a' ok _ hI hrun
    obtain ⟨rfl, rfl⟩ := Prod.mk.inj (Except.ok.inj hrun)
    exact hI
  | succ n ih =>
    intro i a a' ok hbody hI hrun
    rw [List.range'_succ, whileOk] at hrun
    cases hturn : body a i with
    | error e =>
      rw [hturn] at hrun
      cases hrun
    | ok r =>
      obtain ⟨ok₁, b⟩ := r
      rw [hturn] at hrun
      have hstep := hbody i a b ok₁ (Nat.le_refl i) (by omega) hI hturn
      cases ok₁ with
      | true =>
        have hrest := ih (i := i + 1) (fun j c c' ok' hlo hhi => hbody j c c' ok' (by omega) (by omega))
          hstep hrun
        rw [show i + 1 + n = i + (n + 1) by omega] at hrest
        exact hrest
      | false =>
        obtain ⟨rfl, rfl⟩ := Prod.mk.inj (Except.ok.inj hrun)
        exact hstep

end Loops

/-! ## Two runs -/

section TwoRuns

variable {γ δ : Type v} {R R' : α → β → Prop} {Q : γ → δ → Prop}

/-- Where `r` has a result, `q` has one that `R` relates to it. -/
def Follows (R : α → β → Prop) (r : Except ε α) (q : Except ε β) : Prop :=
  ∀ a, r = .ok a → ∃ b, q = .ok b ∧ R a b

theorem Follows.ok {a : α} {b : β} (h : R a b) : Follows R (.ok a : Except ε α) (.ok b) := by
  intro a' ha
  obtain rfl := Except.ok.inj ha
  exact ⟨b, rfl, h⟩

/-- A computation follows itself. -/
theorem Follows.same {S : α → α → Prop} {r : Except ε α} (h : ∀ a, r = .ok a → S a a) :
    Follows S r r := fun a ha => ⟨a, ha, h a ha⟩

/-- **Rule of consequence** for two runs. -/
theorem Follows.mono {r : Except ε α} {q : Except ε β} (h : Follows R r q)
    (hR : ∀ a b, R a b → R' a b) : Follows R' r q := by
  intro a ha
  obtain ⟨b, hb, hab⟩ := h a ha
  exact ⟨b, hb, hR a b hab⟩

/-- **Rule of composition** for two runs. -/
theorem Follows.bind {r : Except ε α} {q : Except ε β} {f : α → Except ε γ} {g : β → Except ε δ}
    (h : Follows R r q) (hf : ∀ a b, r = .ok a → R a b → Follows Q (f a) (g b)) :
    Follows Q (r >>= f) (q >>= g) := by
  intro c hc
  cases hr : r with
  | error e =>
    rw [hr] at hc
    cases hc
  | ok a =>
    obtain ⟨b, hb, hab⟩ := h a hr
    rw [hr] at hc
    rw [hb]
    exact hf a b hr hab c hc

/-- Both runs take the same branch. -/
theorem Follows.ite {c : Prop} [Decidable c] {r r' : Except ε α} {q q' : Except ε β}
    (h : c → Follows R r q) (h' : ¬ c → Follows R r' q') :
    Follows R (if c then r else r') (if c then q else q') := by
  split
  · next hc => exact h hc
  · next hc => exact h' hc

end TwoRuns

section TwoLoops

variable {S T : Type}

/-- **Loop rule** for two runs over a range that go to their ends. -/
theorem whileOk_follows {body : S → ℕ → Except ε (Bool × S)} {body' : T → ℕ → Except ε (Bool × T)}
    {I : ℕ → S → T → Prop} {n : ℕ} : ∀ {i : ℕ} {a a' : S} {c : T},
    (∀ j b d b', i ≤ j → j < i + n → I j b d → body b j = .ok (true, b') →
      ∃ d', body' d j = .ok (true, d') ∧ I (j + 1) b' d') →
    I i a c → whileOk body (List.range' i n) a = .ok (true, a') →
    ∃ c', whileOk body' (List.range' i n) c = .ok (true, c') ∧ I (i + n) a' c' := by
  induction n with
  | zero =>
    intro i a a' c _ hI hrun
    obtain ⟨-, rfl⟩ := Prod.mk.inj (Except.ok.inj hrun)
    exact ⟨c, rfl, hI⟩
  | succ n ih =>
    intro i a a' c hbody hI hrun
    rw [List.range'_succ, whileOk] at hrun ⊢
    cases hturn : body a i with
    | error e =>
      rw [hturn] at hrun
      cases hrun
    | ok r =>
      obtain ⟨ok, b⟩ := r
      rw [hturn] at hrun
      cases ok with
      | false => cases hrun
      | true =>
        obtain ⟨d, hturn', hI'⟩ := hbody i a c b (Nat.le_refl i) (by omega) hI hturn
        obtain ⟨c', hrest, hI''⟩ := ih (i := i + 1)
          (fun j b d b' hlo hhi => hbody j b d b' (by omega) (by omega)) hI' hrun
        rw [show i + 1 + n = i + (n + 1) by omega] at hI''
        refine ⟨c', ?_, hI''⟩
        rw [hturn']
        exact hrest

end TwoLoops

end Kfs.Lib
