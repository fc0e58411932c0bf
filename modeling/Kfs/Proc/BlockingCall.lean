import Kfs.Proc.SignalRuns

/-!
# Signals in a blocking system call

`sleep` and `waitpid` block in `schedule`, which runs `signal_call_curtask_handlers` when it has
switched back to the caller; only then does the call go on, and `do_syscall` stores its result in the
trap frame at the top of the kernel stack. A handler that was installed in `schedule` has saved the
frame as it was when the call was made, with the number of the call in `eax`, and the store hits the
redirected frame.
-/

namespace Kfs.Proc

open Kfs.Lib

/-! ## The system -/

/-- The blocking system calls. -/
inductive BlockingCall where
  | sleep
  | waitpid
  deriving DecidableEq, Repr

/-- The number of a call in `syscall.tbl`. -/
def BlockingCall.number : BlockingCall → BitVec 32
  | .sleep => 162
  | .waitpid => 7

/-- The results that a call may have: `sys_sleep` returns 0. -/
def BlockingCall.Returns : BlockingCall → BitVec 32 → Prop
  | .sleep, result => result = 0
  | .waitpid, _ => True

/-- Where the caller is. -/
inductive CallPhase where
  /-- In `schedule`, or in the part of the call that follows it. -/
  | blocked
  /-- `do_syscall` has stored the result. -/
  | returned (result : BitVec 32)
  deriving DecidableEq, Repr

/-- A caller with its handlers; `installed` records that one was installed while the call was
blocked. -/
structure Calling where
  handling : Handling
  phase : CallPhase
  installed : Bool

/-- What can happen to a caller. -/
inductive CallOp where
  /-- `schedule` has switched back to the caller and runs its handlers. -/
  | switchedBack
  /-- The call returns and `do_syscall` stores the result. -/
  | result (value : BitVec 32)
  /-- An event of nested signals: a signal is sent, or the caller is back in user mode. -/
  | signal (op : SignalOp)

/-- `do_syscall` after the handler of the call has returned. -/
def Handling.storeResult (s : Handling) (value : BitVec 32) : Handling :=
  { s with ctx := s.ctx.setResult value }

/-- What an operation does. -/
def callStep (s : Calling) : CallOp → Except ℤ Calling
  | .switchedBack => do
    let handling ← s.handling.deliver
    .ok { s with
      handling := handling
      installed := s.installed || (nextUserSignal s.handling.ctx.task allSignals).isSome }
  | .result value => .ok { s with
      handling := s.handling.storeResult value, phase := .returned value }
  | .signal op => do
    let handling ← signalStep s.handling op
    .ok { s with handling := handling }

/-- While the call is blocked, signals are sent and the caller is switched back to; the rest follows
when it has returned. -/
def CallOp.Enabled (call : BlockingCall) (s : Calling) : CallOp → Prop
  | .switchedBack => s.phase = .blocked
  | .result value => s.phase = .blocked ∧ call.Returns value
  | .signal (.raise sig) => (SignalOp.raise sig).Enabled s.handling
  | .signal op => s.phase ≠ .blocked ∧ op.Enabled s.handling

instance BlockingCall.decidableReturns (call : BlockingCall) (value : BitVec 32) :
    Decidable (call.Returns value) :=
  match call with
  | .sleep => inferInstanceAs (Decidable (value = 0))
  | .waitpid => inferInstanceAs (Decidable True)

instance CallOp.decidableEnabled (call : BlockingCall) (s : Calling) (op : CallOp) :
    Decidable (op.Enabled call s) :=
  match op with
  | .switchedBack => inferInstanceAs (Decidable (s.phase = .blocked))
  | .result _ => inferInstanceAs (Decidable (_ ∧ _))
  | .signal (.raise sig) => inferInstanceAs (Decidable ((SignalOp.raise sig).Enabled s.handling))
  | .signal .deliver => inferInstanceAs (Decidable (_ ∧ _))
  | .signal (.user _ _) => inferInstanceAs (Decidable (_ ∧ _))
  | .signal (.sigreturn _) => inferInstanceAs (Decidable (_ ∧ _))

/-- The caller has made the call in the context `base`. -/
def MadeCall (base : TrapFrame) (s : Calling) : Prop :=
  Interrupted base s.handling ∧ s.phase = .blocked ∧ s.installed = false

/-- The signals of a caller. -/
def callSystem (call : BlockingCall) (base : TrapFrame) : System Calling CallOp :=
  (System.ofStep (MadeCall base) callStep).restrict fun s op => op.Enabled call s

/-! ## The invariant -/

/-- The context without signals: that of the call with the result in `eax`. -/
def TrapFrame.withResult (base : TrapFrame) (value : BitVec 32) : TrapFrame :=
  { base with eax := value }

theorem TrapFrame.IsUser.withResult {base : TrapFrame} (h : base.IsUser) (value : BitVec 32) :
    (base.withResult value).IsUser :=
  ⟨h.cs, h.ss, h.ds, h.es, h.fs, h.gs, h.eflags⟩

/-- The context that the handlers return to. -/
def Calling.bottom (base : TrapFrame) (s : Calling) : TrapFrame :=
  match s.phase with
  | .blocked => base
  | .returned value => if s.installed then base else base.withResult value

/-- The invariant of a caller. -/
structure CallInv (base : TrapFrame) (s : Calling) : Prop where
  signals : SignalInv (s.bottom base) s.handling
  installed : s.phase = .blocked → (s.installed = true ↔ s.handling.saved ≠ [])

section Invariant

variable {base : TrapFrame} {s s' : Calling} {call : BlockingCall}

theorem Calling.bottom_isUser (hbase : base.IsUser) (s : Calling) : (s.bottom base).IsUser := by
  unfold Calling.bottom
  split
  · exact hbase
  · split
    · exact hbase
    · exact hbase.withResult _

/-- A handler is installed exactly if there is a signal for one. -/
theorem Handling.deliver_saved {s s' : Handling} (h : s.deliver = .ok s') :
    (s'.saved ≠ [] ↔ s.saved ≠ [] ∨ (nextUserSignal s.ctx.task allSignals).isSome = true) := by
  unfold Handling.deliver at h
  rw [bind_eq_ok] at h
  obtain ⟨c, _, h⟩ := h
  cases hnext : nextUserSignal s.ctx.task allSignals with
  | none =>
    rw [hnext] at h
    obtain rfl := Except.ok.inj h
    simp
  | some sig =>
    rw [hnext] at h
    obtain rfl := Except.ok.inj h
    simp

/-- With no handler on the stack, the result is stored in the context of the caller. -/
theorem SignalInv.storeResult_nil {h : Handling} (hs : SignalInv base h) (hsaved : h.saved = [])
    (value : BitVec 32) : SignalInv (base.withResult value) (h.storeResult value) := by
  have hsaved' : (h.storeResult value).saved = [] := hsaved
  have htf : h.ctx.tf = base := by
    have hcur := hs.current
    rw [hsaved] at hcur
    exact hcur
  refine ⟨?_, fun fr hfr => ?_, ?_, hs.counts⟩
  · rw [hsaved']
    trivial
  · rw [hsaved'] at hfr
    cases hfr
  · rw [hsaved']
    show { h.ctx.tf with eax := value } = base.withResult value
    rw [htf]
    rfl

/-- With a handler on the stack, the result is stored in the context of the handler: what the frames
hold is as before. -/
theorem SignalInv.storeResult_cons {h : Handling} (hs : SignalInv base h) (hsaved : h.saved ≠ [])
    (value : BitVec 32) : SignalInv base (h.storeResult value) := by
  obtain ⟨fr, rest, hsaved⟩ := List.exists_cons_of_ne_nil hsaved
  refine ⟨hs.stacked, hs.held, ?_, hs.counts⟩
  have htop := hs.current
  rw [hsaved] at htop
  rw [show (h.storeResult value).saved = fr :: rest from hsaved]
  exact htop

theorem signal_inv (hbase : base.IsUser) (hs : CallInv base s) {op : SignalOp}
    (hphase : s.phase ≠ .blocked ∨ ∃ sig, op = .raise sig) (hop : op.Enabled s.handling)
    (h : callStep s (.signal op) = .ok s') : CallInv base s' := by
  have h : (signalStep s.handling op >>= fun handling =>
    Except.ok { s with handling := handling }) = .ok s' := h
  rw [bind_eq_ok] at h
  obtain ⟨handling, h', h⟩ := h
  obtain rfl := Except.ok.inj h
  refine ⟨signalStep_inv (s.bottom_isUser hbase) hs.signals hop h', fun hblocked => ?_⟩
  -- a signal that is sent leaves the frames alone
  rcases hphase with hne | ⟨sig, rfl⟩
  · exact absurd hblocked hne
  · obtain rfl := Except.ok.inj h'
    exact hs.installed hblocked

/-- **One step**. -/
theorem callStep_inv (hbase : base.IsUser) (hs : CallInv base s) {op : CallOp}
    (hop : op.Enabled call s) (h : callStep s op = .ok s') : CallInv base s' := by
  cases op with
  | switchedBack =>
    have hphase : s.phase = .blocked := hop
    have h : (s.handling.deliver >>= fun handling => Except.ok { s with
      handling := handling
      installed := s.installed || (nextUserSignal s.handling.ctx.task allSignals).isSome }) =
        .ok s' := h
    rw [bind_eq_ok] at h
    obtain ⟨handling, h', h⟩ := h
    obtain rfl := Except.ok.inj h
    have hsig := hs.signals
    unfold Calling.bottom at hsig
    rw [hphase] at hsig
    refine ⟨?_, fun _ => ?_⟩
    · unfold Calling.bottom
      dsimp only
      rw [hphase]
      exact hsig.deliver h'
    · dsimp only
      rw [Bool.or_eq_true, hs.installed hphase, Handling.deliver_saved h']
  | result value =>
    have hop : s.phase = .blocked ∧ call.Returns value := hop
    obtain rfl := Except.ok.inj h
    have hsig := hs.signals
    unfold Calling.bottom at hsig
    rw [hop.1] at hsig
    refine ⟨?_, fun hblocked => nomatch hblocked⟩
    show SignalInv (if s.installed then base else base.withResult value) _
    cases hinst : s.installed with
    | true => exact hsig.storeResult_cons ((hs.installed hop.1).mp hinst) value
    | false =>
      have hsaved : s.handling.saved = [] := by
        by_contra hne
        rw [(hs.installed hop.1).mpr hne] at hinst
        cases hinst
      exact hsig.storeResult_nil hsaved value
  | signal op =>
    cases op with
    | raise sig => exact signal_inv hbase hs (.inr ⟨sig, rfl⟩) hop h
    | deliver => exact signal_inv hbase hs (.inl hop.1) hop.2 h
    | user tf bytes => exact signal_inv hbase hs (.inl hop.1) hop.2 h
    | sigreturn tf => exact signal_inv hbase hs (.inl hop.1) hop.2 h

theorem callSystem_inv (hbase : base.IsUser) (h : (callSystem call base).Reachable s) :
    CallInv base s := by
  refine h.invariant (P := CallInv base) (fun s hi => ?_) ?_
  · obtain ⟨hint, hphase, hinst⟩ := hi
    refine ⟨?_, fun _ => ?_⟩
    · unfold Calling.bottom
      rw [hphase]
      exact interrupted_inv hint
    · simp [hinst, hint.2.1]
  · intro s op s' hs ⟨hop, hstep⟩
    exact callStep_inv hbase hs hop hstep

end Invariant

/-! ## The result of the call -/

/-- When a call has returned and every handler has returned, the context is the one without signals
exactly if no handler was installed while the call was blocked, or the result is the number of the
call. -/
theorem blocking_call_transparent {call : BlockingCall} {base : TrapFrame} (hbase : base.IsUser)
    (hnumber : base.eax = call.number) {s : Calling} (h : (callSystem call base).Reachable s)
    {value : BitVec 32} (hphase : s.phase = .returned value) (hsaved : s.handling.saved = []) :
    s.handling.ctx.tf = base.withResult value ↔ s.installed = false ∨ value = call.number := by
  have hs := callSystem_inv hbase h
  have htf : s.handling.ctx.tf = s.bottom base := by
    have htop := hs.signals.current
    rw [hsaved] at htop
    exact htop
  rw [htf]
  unfold Calling.bottom
  rw [hphase]
  cases s.installed with
  | false => simp
  | true =>
    simp only [if_true, reduceCtorEq, false_or]
    constructor
    · intro heq
      have heax : base.eax = value := congrArg TrapFrame.eax heq
      rw [← heax, hnumber]
    · rintro rfl
      unfold TrapFrame.withResult
      rw [← hnumber]

/-! ### A signal in `sleep` -/

/-- The context in which the program has called `sleep`. -/
def sleepFrame : TrapFrame := { programFrame with eax := 162 }

theorem sleepFrame_isUser : sleepFrame.IsUser := ⟨rfl, rfl, rfl, rfl, rfl, rfl, rfl⟩

/-- The program sleeps, and two signals that it handles are pending. -/
def sleepingCaller : Calling where
  handling := { twoPending with ctx := { twoPending.ctx with tf := sleepFrame } }
  phase := .blocked
  installed := false

/-- The caller is switched to, and the handler of `SIGUSR1` is installed in `schedule`; `sleep`
returns 0, the handler of `SIGUSR2` is installed on the way out of the kernel, and both return. -/
def sleepRun : Option Calling :=
  [CallOp.switchedBack, .result 0, .signal .deliver,
    .signal (.sigreturn { programFrame with userEsp := 0xBFFFDF44 }),
    .signal (.sigreturn { programFrame with userEsp := 0xBFFFDFA4 })].foldlM
    (System.checkedStep (fun s op => CallOp.Enabled .sleep s op) callStep) sleepingCaller

theorem sleepRun_view : sleepRun.map (fun s => decide (s.phase = .returned 0 ∧
    s.handling.saved = [] ∧ s.installed = true)) = some true := by
  decide +kernel

theorem sleepRun_reachable : ∃ s, (callSystem .sleep sleepFrame).Reachable s ∧
    s.phase = .returned 0 ∧ s.handling.saved = [] ∧ s.installed = true := by
  have hview := sleepRun_view
  rw [Option.map_eq_some_iff] at hview
  obtain ⟨s, hs, hview⟩ := hview
  have hinit : (callSystem .sleep sleepFrame).Reachable sleepingCaller :=
    .init ⟨⟨rfl, rfl, rfl, rfl⟩, rfl, rfl⟩
  exact ⟨s, System.Reachable.foldlM_restrict hinit hs, of_decide_eq_true hview⟩

/-- When the handlers have returned, `eax` holds the number of `sleep`. -/
theorem sleepRun_result_lost : ¬ ∀ (call : BlockingCall) (base : TrapFrame), base.IsUser →
    base.eax = call.number → ∀ s, (callSystem call base).Reachable s → ∀ value,
      s.phase = .returned value → s.handling.saved = [] →
        s.handling.ctx.tf = base.withResult value := by
  intro hframe
  obtain ⟨s, hreach, hphase, hsaved, hinst⟩ := sleepRun_reachable
  have htf := hframe .sleep sleepFrame sleepFrame_isUser rfl s hreach 0 hphase hsaved
  have hinv := (callSystem_inv sleepFrame_isUser hreach).signals.current
  rw [hsaved] at hinv
  have hbottom : s.handling.ctx.tf = s.bottom sleepFrame := hinv
  unfold Calling.bottom at hbottom
  rw [hphase] at hbottom
  simp only [hinst, if_true] at hbottom
  rw [htf] at hbottom
  exact absurd (congrArg TrapFrame.eax hbottom) (by decide)

/-- In the same run the theorem applies: a handler was installed, and 0 is not the number of
`sleep`. -/
theorem blocking_call_transparent_sleepRun : ∃ s, (callSystem .sleep sleepFrame).Reachable s ∧
    s.phase = .returned 0 ∧ s.handling.saved = [] ∧
      (s.handling.ctx.tf = sleepFrame.withResult 0 ↔ s.installed = false ∨
        (0 : BitVec 32) = BlockingCall.sleep.number) := by
  obtain ⟨s, hreach, hphase, hsaved, _⟩ := sleepRun_reachable
  exact ⟨s, hreach, hphase, hsaved,
    blocking_call_transparent sleepFrame_isUser rfl hreach hphase hsaved⟩

end Kfs.Proc
