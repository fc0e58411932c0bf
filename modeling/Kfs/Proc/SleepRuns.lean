import Kfs.Proc.SchedRuns
import Kfs.Proc.SleepSpec

/-!
# Runs with sleepers

`timer_ksleep` adds the wanted ticks to a 32-bit counter, and `task_wake_up_sleepers` compares the
sum with the counter by `<=`. The sum is right as long as neither the product nor the sum wraps and
at least one second is asked for (`OnTime`).

## Layers

- `OnTime`, `due_iff`: the comparison against an unbounded clock;
- `SleepRun`: the kernel beside such a clock and the calls it has seen;
- `SleepInv`: kept by every operation, by the frame of `Kfs.Proc.SleepSpec`;
- `sleep_onTime`: in every run whose calls are `OnTime`, sleepers wake on their tick.
-/

namespace Kfs.Proc

open Kfs.Lib Kfs.Lib.Word32

/-! ## The comparison -/

/-- The wake-up tick that `timer_ksleep` computes from the counter and the seconds. -/
def wakeTick (globalTicks seconds : ℕ) : ℕ :=
  add32 globalTicks (seconds * ticksPerSecond % 2 ^ 32)

/-- The calls whose sleeper wakes on the right tick. -/
def OnTime (globalTicks seconds : ℕ) : Prop :=
  1 ≤ seconds ∧ (globalTicks + seconds * ticksPerSecond < 2 ^ 32 ∨
    (globalTicks + 1 = 2 ^ 32 ∧ seconds * ticksPerSecond ≤ 2 ^ 32))

instance (globalTicks seconds : ℕ) : Decidable (OnTime globalTicks seconds) :=
  inferInstanceAs (Decidable (_ ∧ _))

theorem wakeTick_eq (globalTicks seconds : ℕ) :
    wakeTick globalTicks seconds = (globalTicks + seconds * ticksPerSecond) % 2 ^ 32 := by
  unfold wakeTick add32
  rw [Nat.add_mod_mod]

/-- **The condition is exact**: the comparison fails on every tick before the right one, and there is
a right one to wait for, exactly for these calls. -/
theorem onTime_iff {g seconds : ℕ} (hg : g < 2 ^ 32) : OnTime g seconds ↔ 1 ≤ seconds ∧
    ∀ n, 1 ≤ n → n < seconds * ticksPerSecond → (g + n) % 2 ^ 32 < wakeTick g seconds := by
  rw [wakeTick_eq]
  unfold OnTime
  apply and_congr_right
  intro hs
  unfold ticksPerSecond
  constructor
  · rintro (hfit | ⟨hlast, hfit⟩) n hn hlt
    · -- nothing wraps
      rw [Nat.mod_eq_of_lt hfit, Nat.mod_eq_of_lt (by omega)]
      omega
    · -- the counter wraps on the next tick, and the sum with it
      have hwrap : ∀ m, 1 ≤ m → m ≤ 2 ^ 32 → (g + m) % 2 ^ 32 = m - 1 := by
        intro m hm hle
        have hsum : g + m = (m - 1) + 2 ^ 32 := by omega
        rw [hsum, Nat.add_mod_right, Nat.mod_eq_of_lt (by omega)]
      rw [hwrap n hn (by omega), hwrap _ (by omega) hfit]
      omega
  · intro hearly
    by_contra hcon
    rw [not_or] at hcon
    obtain ⟨hbig, hlast⟩ := hcon
    -- the last tick before a wrap that is not the first one is too early
    obtain ⟨q, d, hd, hsum⟩ : ∃ q d, d < 2 ^ 32 ∧ g + seconds * 100 = q * 2 ^ 32 + d :=
      ⟨(g + seconds * 100) / 2 ^ 32, (g + seconds * 100) % 2 ^ 32, Nat.mod_lt _ (by decide),
        (Nat.div_add_mod' _ _).symm⟩
    have hq : 1 ≤ q := by
      by_contra hq
      have hq0 : q = 0 := by omega
      subst hq0
      omega
    have hmul : 2 ^ 32 ≤ q * 2 ^ 32 := Nat.le_mul_of_pos_left _ hq
    have hbefore : g + 1 < q * 2 ^ 32 := by
      by_contra hge
      have hq1 : q = 1 := by
        by_contra hne
        have h2 : 2 * 2 ^ 32 ≤ q * 2 ^ 32 := Nat.mul_le_mul_right _ (by omega)
        omega
      subst hq1
      exact hlast ⟨by omega, by omega⟩
    have hmod : (g + (q * 2 ^ 32 - 1 - g)) % 2 ^ 32 = 2 ^ 32 - 1 := by
      have hval : g + (q * 2 ^ 32 - 1 - g) = (q - 1) * 2 ^ 32 + (2 ^ 32 - 1) := by
        rw [Nat.sub_mul]
        omega
      rw [hval, Nat.mul_add_mod_self_right, Nat.mod_eq_of_lt (by omega)]
    have htoo := hearly (q * 2 ^ 32 - 1 - g) (by omega) (by omega)
    rw [hmod, hsum, Nat.mul_add_mod_self_right, Nat.mod_eq_of_lt hd] at htoo
    omega

/-- Against an unbounded clock: at time `u` the sleeper that called at time `c` is due exactly when
its time is over. -/
theorem due_iff {c u seconds : ℕ} (h : OnTime (c % 2 ^ 32) seconds) (hc : c < u)
    (hu : u ≤ c + seconds * ticksPerSecond) :
    wakeTick (c % 2 ^ 32) seconds ≤ u % 2 ^ 32 ↔ c + seconds * ticksPerSecond ≤ u := by
  obtain ⟨-, hearly⟩ := (onTime_iff (Nat.mod_lt _ (by decide))).mp h
  constructor
  · intro hdue
    by_contra hlt
    have hn := hearly (u - c) (by omega) (by omega)
    rw [Nat.mod_add_mod, Nat.add_sub_cancel' hc.le] at hn
    omega
  · intro hle
    rw [wakeTick_eq, Nat.mod_add_mod, Nat.le_antisymm hu hle]

/-! ## The system -/

/-- The kernel, the number of ticks so far, when each task last called `timer_ksleep` and for how
many seconds, and whether it was sent a signal since. -/
structure SleepRun where
  kernel : Kernel
  ticks : ℕ
  called : TaskId → ℕ × ℕ
  signalled : TaskId → Bool

/-- The tick on which a sleeper is to be woken. -/
def SleepRun.deadline (r : SleepRun) (t : TaskId) : ℕ :=
  (r.called t).1 + (r.called t).2 * ticksPerSecond

/-- What an operation does, with the record of the calls. -/
def sleepStep (r : SleepRun) (op : SchedOp) : Kern SleepRun := do
  let k ← schedStep r.kernel op
  .ok (match op with
    | .tick => { r with kernel := k, ticks := r.ticks + 1 }
    | .ksleep seconds => { r with
        kernel := k
        called := Function.update r.called r.kernel.current (r.ticks, seconds)
        signalled := Function.update r.signalled r.kernel.current false }
    | .signalSend sig dst => { r with
        kernel := k
        signalled := if 0 < sig ∧ sig < sigSentinel then Function.update r.signalled dst true
          else r.signalled }
    | _ => { r with kernel := k })

/-- Nothing but the timer and `signal_send` wakes an entry of `sleep_wq`. -/
def SchedOp.LeavesSleepers : SchedOp → Prop
  | .wakeOne wq => wq ≠ .sleep
  | .wakeAll wq => wq ≠ .sleep
  | .wakeSpecifiq _ => False
  | _ => True

instance : DecidablePred SchedOp.LeavesSleepers
  | .wakeOne wq => inferInstanceAs (Decidable (wq ≠ .sleep))
  | .wakeAll wq => inferInstanceAs (Decidable (wq ≠ .sleep))
  | .wakeSpecifiq _ => isFalse id
  | .schedule | .tick | .ksleep _ | .ksleepReturn | .waitpid _ _ | .signalSend _ _ | .signal _ _
  | .callHandlers _ | .execFn _ _ | .fork _ _ | .exit _ => isTrue trivial

def SleepInit (r : SleepRun) : Prop :=
  AfterInitProcess r.kernel ∧ r.ticks = 0 ∧ r.called = (fun _ => (0, 0)) ∧
    r.signalled = fun _ => false

def sleepSystem : System SleepRun SchedOp :=
  (System.ofStep SleepInit sleepStep).restrict fun r op =>
    op.Enabled r.kernel ∧ op.LeavesSleepers

/-- The calls of `timer_ksleep` are `OnTime`. -/
def CallsOnTime (r : SleepRun) : SchedOp → Prop
  | .ksleep seconds => OnTime r.kernel.globalTicks seconds
  | _ => True

instance (r : SleepRun) : DecidablePred (CallsOnTime r)
  | .ksleep _ => inferInstanceAs (Decidable (OnTime _ _))
  | .schedule | .tick | .ksleepReturn | .waitpid _ _ | .wakeOne _ | .wakeAll _ | .wakeSpecifiq _
  | .signalSend _ _ | .signal _ _ | .callHandlers _ | .execFn _ _ | .fork _ _ | .exit _ =>
    isTrue trivial

/-- What sleepers may rely on. -/
structure SleepLaw (r : SleepRun) : Prop where
  /-- A task that is sent no signal sleeps until its time is over, and no longer. -/
  asleep : ∀ t, r.signalled t = false →
    (t ∈ r.kernel.waitQueue .sleep ↔ r.ticks < r.deadline t)
  /-- The next tick moves exactly the sleepers whose time is over to the ready queue. -/
  onTick : ∃ k, taskWakeUpSleepers { r.kernel with
      globalTicks := add32 r.kernel.globalTicks 1 } = .ok k ∧
    k.waitQueue .sleep =
      (r.kernel.waitQueue .sleep).filter (fun t => r.ticks + 1 < r.deadline t) ∧
    k.readyQueue = r.kernel.readyQueue ++
      (r.kernel.waitQueue .sleep).filter (fun t => r.deadline t ≤ r.ticks + 1)

/-! ## The invariant -/

/-- The record of the calls explains the wake-up ticks. -/
structure SleepInv (r : SleepRun) : Prop where
  sched : SchedInv r.kernel
  clock : r.kernel.globalTicks = r.ticks % 2 ^ 32
  wake : ∀ t ∈ r.kernel.waitQueue .sleep, r.kernel.wakeTime t =
    some (wakeTick ((r.called t).1 % 2 ^ 32) (r.called t).2)
  onTime : ∀ t ∈ r.kernel.waitQueue .sleep, OnTime ((r.called t).1 % 2 ^ 32) (r.called t).2
  before : ∀ t ∈ r.kernel.waitQueue .sleep, (r.called t).1 ≤ r.ticks ∧ r.ticks < r.deadline t
  asleep : ∀ t, r.signalled t = false → r.ticks < r.deadline t → t ∈ r.kernel.waitQueue .sleep

section Steps

variable {r r' : SleepRun}

/-- On the next tick a sleeper is due exactly when its time is over. -/
theorem SleepInv.isDue_iff (h : SleepInv r) {t : TaskId} (ht : t ∈ r.kernel.waitQueue .sleep) :
    Kernel.isDue { r.kernel with globalTicks := add32 r.kernel.globalTicks 1 } t =
      decide (r.deadline t ≤ r.ticks + 1) := by
  have hclock : add32 r.kernel.globalTicks 1 = (r.ticks + 1) % 2 ^ 32 := by
    unfold add32
    rw [h.clock, Nat.mod_add_mod]
  have hwake : Kernel.wakeTime { r.kernel with globalTicks := add32 r.kernel.globalTicks 1 } t =
      some (wakeTick ((r.called t).1 % 2 ^ 32) (r.called t).2) := h.wake t ht
  obtain ⟨hcall, hlt⟩ := h.before t ht
  unfold Kernel.isDue
  rw [hwake]
  simp only [hclock, decide_eq_decide]
  exact due_iff (h.onTime t ht) (Nat.lt_succ_of_le hcall) hlt

/-- The invariant gives the law. -/
theorem SleepInv.law (h : SleepInv r) : SleepLaw r where
  asleep t hs := ⟨fun ht => (h.before t ht).2, h.asleep t hs⟩
  onTick := by
    have hk : QueueInv { r.kernel with globalTicks := add32 r.kernel.globalTicks 1 } :=
      SameQueues.queueInv (k := r.kernel) ⟨fun _ => rfl, rfl, rfl, rfl, rfl, rfl⟩
        h.sched.toQueueInv
    obtain ⟨k, hrun, -, hsleep, hready, -⟩ := taskWakeUpSleepers_eq hk
    refine ⟨k, hrun, hsleep.trans ?_, hready.trans ?_⟩
    · apply List.filter_congr
      intro t ht
      rw [h.isDue_iff ht, ← decide_not, decide_eq_decide, not_le]
    · apply congrArg (r.kernel.readyQueue ++ ·)
      apply List.filter_congr
      intro t ht
      exact h.isDue_iff ht

/-- An operation that keeps the sleepers but for some that are sent a signal. -/
theorem SleepInv.keep (h : SleepInv r) {D : TaskId → Prop} (hk : SchedInv r'.kernel)
    (hkeep : KeepsSleepers D r.kernel r'.kernel) (hticks : r'.ticks = r.ticks)
    (hcalled : r'.called = r.called)
    (hsig : ∀ t, r'.signalled t = false → r.signalled t = false ∧ ¬ D t) : SleepInv r' := by
  have hdeadline : r'.deadline = r.deadline := by
    unfold SleepRun.deadline
    rw [hcalled]
  refine ⟨hk, ?_, ?_, ?_, ?_, ?_⟩
  · rw [hkeep.ticks, hticks]
    exact h.clock
  · intro t ht
    obtain ⟨ht', hw⟩ := hkeep.mem t ht
    rw [hw, hcalled]
    exact h.wake t ht'
  · intro t ht
    rw [hcalled]
    exact h.onTime t (hkeep.mem t ht).1
  · intro t ht
    rw [hcalled, hticks, hdeadline]
    exact h.before t (hkeep.mem t ht).1
  · intro t hs hlt
    rw [hticks, hdeadline] at hlt
    obtain ⟨hs', hD⟩ := hsig t hs
    exact hkeep.stay t (h.asleep t hs' hlt) hD

/-- A call of `timer_ksleep`. -/
theorem SleepInv.ksleep (h : SleepInv r) {seconds : ℕ} {k' : Kernel} (hk : SchedInv k')
    (hcall : OnTime r.kernel.globalTicks seconds)
    (hrun : timerKsleep seconds r.kernel = .ok k') :
    SleepInv { r with
      kernel := k'
      called := Function.update r.called r.kernel.current (r.ticks, seconds)
      signalled := Function.update r.signalled r.kernel.current false } := by
  obtain ⟨x, hx, hs⟩ := h.sched.current_running
  have hn : x.wqNode = none := by simpa [hs] using h.sched.waiting_iff _ x hx
  have hawake := h.sched.current_awake
  -- the state in which the caller has been linked
  unfold timerKsleep at hrun
  rw [Kernel.getTask_eq hx, ok_bind] at hrun
  simp only [Kernel.setTask_current] at hrun
  rw [wqPrepare_eq (x := { x with
    tickToWake := add32 r.kernel.globalTicks (seconds * ticksPerSecond % 2 ^ 32) })
    (Kernel.setTask_self _ _ _) hn, ok_bind] at hrun
  have hkeep : KeepsSleepers (fun _ => False) _ k' := (schedule_keeps _).result hrun
  have hsleep : ∀ t, t ∈ k'.waitQueue .sleep ↔
      t = r.kernel.current ∨ t ∈ r.kernel.waitQueue .sleep := by
    intro t
    constructor
    · intro ht
      exact List.mem_cons.mp (hkeep.mem t ht).1
    · intro ht
      exact hkeep.stay t (List.mem_cons.mpr ht) id
  have hwake : ∀ t ∈ k'.waitQueue .sleep, k'.wakeTime t =
      if t = r.kernel.current then some (wakeTick r.kernel.globalTicks seconds)
      else r.kernel.wakeTime t := by
    intro t ht
    rw [(hkeep.mem t ht).2]
    unfold Kernel.wakeTime Proc.asleep
    simp only [Kernel.setTask_tasks, Kernel.setQueue_tasks]
    split <;> rfl
  have hne : ∀ t ∈ r.kernel.waitQueue .sleep, t ≠ r.kernel.current :=
    fun t ht => ne_of_mem_of_not_mem ht hawake
  refine ⟨hk, ?_, ?_, ?_, ?_, ?_⟩
  · exact hkeep.ticks.trans h.clock
  · intro t ht
    rw [hwake t ht]
    rcases (hsleep t).mp ht with rfl | ht'
    · simp [h.clock]
    · simp [hne t ht', h.wake t ht']
  · intro t ht
    rcases (hsleep t).mp ht with rfl | ht'
    · simp only [Function.update_self]
      rw [← h.clock]
      exact hcall
    · simpa [hne t ht'] using h.onTime t ht'
  · intro t ht
    unfold SleepRun.deadline
    rcases (hsleep t).mp ht with rfl | ht'
    · have hpos : 0 < seconds * ticksPerSecond := Nat.mul_pos hcall.1 (by decide)
      simpa using hpos
    · have hold := h.before t ht'
      unfold SleepRun.deadline at hold
      simpa [hne t ht'] using hold
  · intro t hsig hlt
    unfold SleepRun.deadline at hlt
    rw [hsleep]
    by_cases htc : t = r.kernel.current
    · exact .inl htc
    · simp only [ne_eq, htc, not_false_eq_true, Function.update_of_ne] at hsig hlt
      exact .inr (h.asleep t hsig hlt)

/-- A tick. -/
theorem SleepInv.tick (h : SleepInv r) {k' : Kernel} (hk : SchedInv k')
    (hrun : timerHandle r.kernel = .ok k') :
    SleepInv { r with kernel := k', ticks := r.ticks + 1 } := by
  have hk₁ : QueueInv { r.kernel with globalTicks := add32 r.kernel.globalTicks 1 } :=
    SameQueues.queueInv (k := r.kernel) ⟨fun _ => rfl, rfl, rfl, rfl, rfl, rfl⟩ h.sched.toQueueInv
  obtain ⟨k₂, hwoken, hticks, hsleep, -, hwake⟩ := taskWakeUpSleepers_eq hk₁
  unfold timerHandle at hrun
  rw [hwoken, ok_bind] at hrun
  -- what follows the wake-ups leaves the sleepers alone
  have hkeep : KeepsSleepers (fun _ => False) k₂ k' := by
    split at hrun
    · exact (schedule_keeps k₂).result hrun
    · obtain ⟨cur, hcur, hrun⟩ := bind_eq_ok.mp hrun
      have hset : KeepsSleepers (fun _ => False) k₂ (k₂.setTask k₂.current
          { cur with quantumRemaining := sub32 cur.quantumRemaining 1 }) :=
        .setTask (getTask_ok hcur) rfl
      dsimp only at hrun
      split at hrun
      · rw [← Except.ok.inj hrun]
        exact hset
      · exact hset.trans ((schedule_keeps _).result hrun)
  have hmem : ∀ t, t ∈ k'.waitQueue .sleep ↔
      t ∈ r.kernel.waitQueue .sleep ∧ r.ticks + 1 < r.deadline t := by
    intro t
    have hk₂ : t ∈ k'.waitQueue .sleep ↔ t ∈ k₂.waitQueue .sleep :=
      ⟨fun ht => (hkeep.mem t ht).1, fun ht => hkeep.stay t ht id⟩
    rw [hk₂, hsleep, List.mem_filter]
    apply and_congr_right
    intro ht
    rw [h.isDue_iff ht]
    simp
  refine ⟨hk, ?_, ?_, ?_, ?_, ?_⟩
  · rw [hkeep.ticks, hticks]
    show add32 r.kernel.globalTicks 1 = (r.ticks + 1) % 2 ^ 32
    unfold add32
    rw [h.clock, Nat.mod_add_mod]
  · intro t ht
    rw [(hkeep.mem t ht).2, hwake]
    exact h.wake t ((hmem t).mp ht).1
  · intro t ht
    exact h.onTime t ((hmem t).mp ht).1
  · intro t ht
    obtain ⟨ht', hlt⟩ := (hmem t).mp ht
    exact ⟨(h.before t ht').1.trans (Nat.le_succ _), hlt⟩
  · intro t hs hlt
    exact (hmem t).mpr ⟨h.asleep t hs (Nat.lt_of_succ_lt hlt), hlt⟩

/-- **One step**: an operation whose call is `OnTime` keeps the invariant. -/
theorem SleepInv.step (h : SleepInv r) {op : SchedOp} (hop : op.Enabled r.kernel)
    (hleave : op.LeavesSleepers) (hcall : CallsOnTime r op) (hstep : sleepStep r op = .ok r') :
    SleepInv r' := by
  obtain ⟨k', hrun, hr'⟩ := bind_eq_ok.mp hstep
  have hk' : SchedInv k' := (schedStep_safe h.sched hop).result hrun
  -- Most steps touch no sleeper; then the books need not change either.
  have hsame : KeepsSleepers (fun _ => False) r.kernel k' → SleepInv { r with kernel := k' } := by
    intro hkeep
    apply @SleepInv.keep r { r with kernel := k' } h _ hk' hkeep rfl rfl
    exact fun _ hs => ⟨hs, id⟩
  obtain rfl := Except.ok.inj hr'
  cases op with
  | schedule => exact hsame ((schedule_keeps _).result hrun)
  -- The tick and `ksleep` are the two that work on sleepers.
  | tick => exact h.tick hk' hrun
  | ksleep seconds => exact h.ksleep hk' hcall hrun
  | ksleepReturn =>
    obtain ⟨cur, -, hset⟩ := bind_eq_ok.mp hrun
    obtain rfl := Except.ok.inj hset
    exact hsame (.setAwake h.sched.current_awake _)
  | waitpid pid copyOk =>
    have hkeep : KeptBy (fun _ => False) r.kernel (schedStep r.kernel (.waitpid pid copyOk)) :=
      Meets.bind (sysWaitpid_keeps h.sched pid copyOk) fun _ hk => hk
    exact hsame (hkeep.result hrun)
  | wakeOne wq =>
    refine hsame (Meets.result (E := fun _ => True) ?_ hrun)
    show Meets (wqWakeOne wq r.kernel) _ _
    unfold wqWakeOne
    cases hq : r.kernel.waitQueue wq with
    | nil => exact .refl
    | cons t rest =>
      exact wqFinish_keeps_all h.sched.toQueueInv hleave (hq ▸ List.mem_cons_self)
  | wakeAll wq =>
    exact hsame ((wqWakeAllN_keeps hleave _ h.sched.toQueueInv h.sched.not_waiting).result hrun)
  | wakeSpecifiq t => exact hleave.elim
  | signalSend sig dst =>
    by_cases hsig : 0 < sig ∧ sig < sigSentinel
    · -- Only the task that gets the signal may wake early.
      refine h.keep hk' ((signalSend_keeps h.sched.toQueueInv sig dst).result hrun) rfl rfl ?_
      intro t hs
      simp only [hsig, and_self, if_true] at hs
      by_cases ht : t = dst
      · simp [ht] at hs
      · exact ⟨by simpa [ht] using hs, ht⟩
    · -- no signal of this number is ever sent
      have hsend : signalSend sig dst r.kernel = .ok k' := hrun
      unfold signalSend at hsend
      rw [if_pos hsig] at hsend
      obtain rfl := Except.ok.inj hsend
      simp only [hsig, if_false]
      exact h
  | signal signum handler =>
    have hkeep : KeptBy (fun _ => False) r.kernel (schedStep r.kernel (.signal signum handler)) :=
      Meets.bind (sysSignal_keeps h.sched signum handler) fun _ hk => hk
    exact hsame (hkeep.result hrun)
  | callHandlers copyOk => exact hsame ((callHandlers_keeps copyOk _ h.sched).result hrun)
  | execFn t pid =>
    exact hsame ((create_keeps h.sched.toQueueInv Kernel.kitoxD t _).result hrun)
  | fork t pid =>
    refine hsame (Meets.result (E := fun _ => True) ?_ hrun)
    show Meets (sysFork t pid r.kernel) _ _
    refine Meets.bind (getTask_wakes _ _) fun cur _ => ?_
    split
    · trivial
    · exact create_keeps h.sched.toQueueInv Kernel.current t _
  | exit status => exact hsame ((doExit_keeps h.sched status).result hrun)

end Steps

/-! ## Every run -/

theorem SleepInit.inv {r : SleepRun} (h : SleepInit r) : SleepInv r := by
  obtain ⟨hinit, hticks, hcalled, -⟩ := h
  have hsched : SchedInv r.kernel := schedSystem_inv (.init hinit)
  obtain ⟨dummy, idle, kitoxD, -, -, -, hkernel⟩ := hinit
  have hnone : ∀ t, t ∉ r.kernel.waitQueue .sleep := by
    intro t
    rw [hkernel]
    exact List.not_mem_nil
  refine ⟨hsched, ?_, fun t ht => absurd ht (hnone t), fun t ht => absurd ht (hnone t),
    fun t ht => absurd ht (hnone t), fun t _ hlt => ?_⟩
  · rw [hkernel, hticks]
    rfl
  · unfold SleepRun.deadline at hlt
    rw [hcalled, hticks] at hlt
    exact absurd hlt (by simp)

/-- **Sleepers wake on time**, in every run whose calls of `timer_ksleep` are `OnTime`. -/
theorem sleep_onTime {r : SleepRun} (h : (sleepSystem.restrict CallsOnTime).Reachable r) :
    SleepLaw r := by
  have hinv : SleepInv r := by
    apply h.invariant
    · exact fun _ hi => hi.inv
    · intro r₁ op r₂ hr ⟨hcall, ⟨hop, hleave⟩, hstep⟩
      exact hr.step hop hleave hcall hstep
  exact hinv.law

/-! ## Two runs -/

/-- `kitoxD` (at 2) calls `timer_ksleep`, and some ticks pass. -/
def sleeperOps (seconds ticks : ℕ) : List SchedOp :=
  [.schedule, .ksleep seconds] ++ List.replicate ticks .tick

/-- The state after `task_init_process`, with no call so far. -/
def bootSleepRun : SleepRun where
  kernel := Kernel.initProcess 0 1 2
  ticks := 0
  called _ := (0, 0)
  signalled _ := false

theorem bootSleepRun_init : SleepInit bootSleepRun :=
  ⟨⟨0, 1, 2, by decide, by decide, by decide, rfl⟩, rfl, rfl, rfl⟩

/-- After 99 ticks of a sleep of one second. -/
theorem sleep_onTime_second : ∃ r, (sleepSystem.restrict CallsOnTime).Reachable r ∧
    r.ticks = 99 ∧ r.deadline 2 = 100 ∧ r.kernel.waitQueue .sleep = [2] ∧ SleepLaw r := by
  have hview : ((sleeperOps 1 99).foldlM (System.checkedStep
      (fun r op => CallsOnTime r op ∧ op.Enabled r.kernel ∧ op.LeavesSleepers) sleepStep)
      bootSleepRun).map (fun r => (r.ticks, r.deadline 2, r.kernel.waitQueue .sleep)) =
      some (99, 100, [2]) := by decide +kernel
  obtain ⟨r, hrun, hview⟩ := Option.map_eq_some_iff.mp hview
  simp only [Prod.mk.injEq] at hview
  have hinit : ((System.ofStep SleepInit sleepStep).restrict fun r op =>
      CallsOnTime r op ∧ op.Enabled r.kernel ∧ op.LeavesSleepers).Reachable bootSleepRun :=
    .init bootSleepRun_init
  have hreach : (sleepSystem.restrict CallsOnTime).Reachable r :=
    (System.Reachable.foldlM_restrict hinit hrun).restrict_restrict
  exact ⟨r, hreach, hview.1, hview.2.1, hview.2.2, sleep_onTime hreach⟩

/-- A sleep of 42949673 seconds, which is over `2 ^ 32` ticks, is over after 4 ticks. -/
theorem not_sleepLaw_overflow : ∃ r, sleepSystem.Reachable r ∧ ¬ SleepLaw r := by
  have hview : ((sleeperOps 42949673 4).foldlM (System.checkedStep
      (fun r op => op.Enabled r.kernel ∧ op.LeavesSleepers) sleepStep) bootSleepRun).map
      (fun r => (r.ticks, r.deadline 2, r.signalled 2, r.kernel.waitQueue .sleep)) =
      some (4, 4294967300, false, []) := by decide +kernel
  obtain ⟨r, hrun, hview⟩ := Option.map_eq_some_iff.mp hview
  simp only [Prod.mk.injEq] at hview
  obtain ⟨hticks, hdeadline, hsig, hsleep⟩ := hview
  have hinit : sleepSystem.Reachable bootSleepRun := .init bootSleepRun_init
  refine ⟨r, System.Reachable.foldlM_restrict hinit hrun, fun hlaw => ?_⟩
  have hmem := (hlaw.asleep 2 hsig).mpr (by rw [hticks, hdeadline]; decide)
  rw [hsleep] at hmem
  exact List.not_mem_nil hmem

end Kfs.Proc
