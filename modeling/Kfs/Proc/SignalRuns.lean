import Kfs.Lib.TransitionSystem
import Kfs.Proc.SignalSpec

/-!
# Nested signals

A program that is interrupted by signals: deliveries on the way back to user mode, handlers that run
below their frame, and returns through the trampoline, nested in any way. While a handler runs, the
program that it interrupted does not, and the handler does not write to the contexts that were saved.

`saved` records, for the statement only, the contexts that were interrupted and where their frames
are, the newest first; `raised` and `delivered` record the signals.
-/

namespace Kfs.Proc

open Kfs.Lib Kfs.Memory

/-! ## The system -/

/-- A context that a delivery has saved, and the stack pointer that the handler was entered with. -/
structure Saved where
  entry : ℕ
  tf : TrapFrame
  deriving DecidableEq, Repr

/-- The context of a task with the handlers that have not returned. -/
structure Handling where
  ctx : UserContext
  saved : List Saved
  raised : List ℕ
  delivered : List ℕ

/-- The numbers that `signal_call_curtask_handlers` looks at. -/
def allSignals : List ℕ := List.range' 1 (sigSentinel - 1)

/-- What can happen to the context. -/
inductive SignalOp where
  /-- `signal_call_curtask_handlers`. -/
  | deliver
  /-- `signal_send` to the task. -/
  | raise (sig : ℕ)
  /-- The handler runs up to the next interrupt, which finds the given context and memory. -/
  | user (tf : TrapFrame) (bytes : ℕ → BitVec 8)
  /-- The handler has returned to the trampoline, whose system call finds the given context. -/
  | sigreturn (tf : TrapFrame)

/-- `signal_call_curtask_handlers`, with the record of what was interrupted. -/
def Handling.deliver (s : Handling) : Except ℤ Handling := do
  let c ← s.ctx.signalCallCurtaskHandlers
  match nextUserSignal s.ctx.task allSignals with
  | none => .ok { s with ctx := c }
  | some sig => .ok { s with
      ctx := c
      saved := { entry := c.tf.userEsp.toNat, tf := s.ctx.tf } :: s.saved
      delivered := sig :: s.delivered }

/-- `signal_send` to the task, with a record of the signals that become pending. -/
def Handling.raise (s : Handling) (sig : ℕ) : Handling :=
  let task := { s.ctx.task with signalsMap := s.ctx.task.signalsMap ||| 2 ^ sig }
  { s with
    ctx := { s.ctx with task := task }
    raised := if !userPending s.ctx.task sig && userPending task sig then sig :: s.raised
      else s.raised }

/-- What an operation does. -/
def signalStep (s : Handling) : SignalOp → Except ℤ Handling
  | .deliver => s.deliver
  | .raise sig => .ok (s.raise sig)
  | .user tf bytes => .ok { s with ctx :=
      { s.ctx with tf := tf, mem := { s.ctx.mem with bytes := bytes } } }
  | .sigreturn tf => do
    let c ← UserContext.sigreturn { s.ctx with tf := tf }
    .ok { s with ctx := c, saved := s.saved.tail }

/-- A handler runs with its stack pointer at or below its entry and leaves the saved contexts alone;
it returns with the stack pointer just above its return address. -/
def SignalOp.Enabled (s : Handling) : SignalOp → Prop
  | .deliver => True
  | .raise sig => 0 < sig ∧ sig < sigSentinel
  | .user tf bytes =>
    match s.saved with
    | [] => False
    | fr :: _ => tf.userEsp.toNat ≤ fr.entry ∧ ∀ g ∈ s.saved, ∀ i < trapFrameSize,
        bytes (g.entry + 8 + i) = s.ctx.mem.bytes (g.entry + 8 + i)
  | .sigreturn tf =>
    match s.saved with
    | [] => False
    | fr :: _ => tf.userEsp.toNat = fr.entry + 4

instance SignalOp.decidableEnabled (s : Handling) (op : SignalOp) : Decidable (op.Enabled s) :=
  match op with
  | .deliver => inferInstanceAs (Decidable True)
  | .raise _ => inferInstanceAs (Decidable (_ ∧ _))
  | .user tf bytes =>
    match hs : s.saved with
    | [] => isFalse (by simp [SignalOp.Enabled, hs])
    | fr :: rest => decidable_of_iff (tf.userEsp.toNat ≤ fr.entry ∧ ∀ g ∈ s.saved,
        ∀ i < trapFrameSize, bytes (g.entry + 8 + i) = s.ctx.mem.bytes (g.entry + 8 + i))
        (by simp [SignalOp.Enabled, hs])
  | .sigreturn tf =>
    match hs : s.saved with
    | [] => isFalse (by simp [SignalOp.Enabled, hs])
    | fr :: rest => decidable_of_iff (tf.userEsp.toNat = fr.entry + 4)
        (by simp [SignalOp.Enabled, hs])

/-- The program is interrupted in the context `base`. -/
def Interrupted (base : TrapFrame) (s : Handling) : Prop :=
  s.ctx.tf = base ∧ s.saved = [] ∧ s.delivered = [] ∧
    s.raised = allSignals.filter (userPending s.ctx.task)

/-- The signals of a program that is interrupted in the context `base`. -/
def signalSystem (base : TrapFrame) : System Handling SignalOp :=
  (System.ofStep (Interrupted base) signalStep).restrict fun s op => op.Enabled s

/-! ## The invariant -/

/-- The context runs below the newest saved one, or is the interrupted program. -/
def OnTop (base : TrapFrame) (saved : List Saved) (tf : TrapFrame) : Prop :=
  match saved with
  | [] => tf = base
  | fr :: _ => tf.userEsp.toNat ≤ fr.entry

/-- The frames lie below the contexts that they have saved, each below the previous one. -/
def Stacked (base : TrapFrame) : List Saved → Prop
  | [] => True
  | fr :: rest => fr.entry + sigframeSize ≤ fr.tf.userEsp.toNat ∧ OnTop base rest fr.tf ∧
      Stacked base rest

/-- The saved context is in memory that is mapped writable. -/
structure Saved.Held (m : UserMemory) (fr : Saved) : Prop where
  load : TrapFrame.load m.bytes (fr.entry + 8) = fr.tf
  user : fr.entry + sigframeSize ≤ kernelVaddrBase
  writable : ∀ i < sigframeSize, m.writable (fr.entry + i) = true

/-- The invariant of nested signals. -/
structure SignalInv (base : TrapFrame) (s : Handling) : Prop where
  stacked : Stacked base s.saved
  held : ∀ fr ∈ s.saved, fr.Held s.ctx.mem
  current : OnTop base s.saved s.ctx.tf
  counts : ∀ sig ∈ allSignals, s.raised.count sig =
    s.delivered.count sig + if userPending s.ctx.task sig then 1 else 0

section Invariant

variable {base : TrapFrame} {s s' : Handling}

/-- A frame of the stack lies above what is on top of it. -/
theorem Stacked.le_entry {saved : List Saved} (h : Stacked base saved) {tf : TrapFrame}
    (htop : OnTop base saved tf) {fr : Saved} (hfr : fr ∈ saved) : tf.userEsp.toNat ≤ fr.entry := by
  induction saved generalizing tf with
  | nil => cases hfr
  | cons g rest ih =>
    rcases List.mem_cons.mp hfr with rfl | hmem
    · exact htop
    · obtain ⟨hbelow, hrest, hstack⟩ := h
      have htail := ih hstack hrest hmem
      have hle : tf.userEsp.toNat ≤ g.entry := htop
      omega

/-- **Delivery** pushes a frame. -/
theorem SignalInv.deliver (hs : SignalInv base s) (h : s.deliver = .ok s') :
    SignalInv base s' := by
  unfold Handling.deliver at h
  rw [bind_eq_ok] at h
  obtain ⟨c, hc, h⟩ := h
  have hsigs : ∀ sig ∈ allSignals, sig < sigSentinel := by decide
  have hd := runHandlers_delivers allSignals hsigs hc
  cases hnext : nextUserSignal s.ctx.task allSignals with
  | none =>
    rw [hnext] at h
    obtain rfl := Except.ok.inj h
    obtain ⟨htf, hmem, hpend⟩ := hd.none hnext
    refine ⟨hs.stacked, fun fr hfr => ?_, ?_, fun sig hsig => ?_⟩
    · rw [hmem]
      exact hs.held fr hfr
    · rw [htf]
      exact hs.current
    · rw [hpend sig]
      exact hs.counts sig hsig
  | some sig =>
    rw [hnext] at h
    obtain rfl := Except.ok.inj h
    obtain ⟨handler, x, _, hinst, hpend⟩ := hd.some sig hnext
    obtain ⟨hbelow, huser, hwritable, rfl⟩ := installHandler_ok hinst
    have hpending : userPending s.ctx.task sig = true := List.find?_some hnext
    refine ⟨⟨hbelow, hs.current, hs.stacked⟩, fun fr hfr => ?_, le_rfl, fun i hmem => ?_⟩
    · rcases List.mem_cons.mp hfr with rfl | hmem
      · exact ⟨load_storeSigframe _ _ _ _, huser, hwritable⟩
      · -- the older frames lie above the new one
        have habove := hs.stacked.le_entry hs.current hmem
        obtain ⟨hload, huser', hwritable'⟩ := hs.held fr hmem
        refine ⟨(load_storeSigframe_of_le _ _ _ _ ?_).trans hload, huser', hwritable'⟩
        dsimp only at hbelow ⊢
        omega
    · have hcount := hs.counts i hmem
      rw [List.count_cons, hcount]
      dsimp only
      rw [hpend i]
      by_cases hi : i = sig
      · simp [hi, hpending]
      · simp [hi, Ne.symm hi]

/-- The bit of a signal that is sent. -/
theorem userPending_raise (x : Task) (sig i : ℕ) (hi : i ≠ sig) :
    userPending { x with signalsMap := x.signalsMap ||| 2 ^ sig } i = userPending x i := by
  unfold userPending signalIsSet
  dsimp only
  rw [Nat.testBit_or, Nat.testBit_two_pow]
  simp [Ne.symm hi]

/-- A signal that is pending stays so. -/
theorem userPending_raise_self {x : Task} {sig : ℕ} (h : userPending x sig = true) :
    userPending { x with signalsMap := x.signalsMap ||| 2 ^ sig } sig = true := by
  obtain ⟨hset, addr, hh⟩ := userPending_iff.mp h
  refine userPending_iff.mpr ⟨?_, addr, hh⟩
  unfold signalIsSet at hset ⊢
  rw [Bool.and_eq_true] at hset ⊢
  dsimp only
  rw [Nat.testBit_or, hset.2]
  exact ⟨hset.1, rfl⟩

theorem SignalInv.raise (hs : SignalInv base s) (sig : ℕ) : SignalInv base (s.raise sig) := by
  refine ⟨hs.stacked, hs.held, hs.current, fun i hmem => ?_⟩
  unfold Handling.raise
  dsimp only
  have hcount := hs.counts i hmem
  by_cases hi : i = sig
  · subst hi
    cases hold : userPending s.ctx.task i with
    | true =>
      rw [hold] at hcount
      simpa [userPending_raise_self hold] using hcount
    | false =>
      rw [hold] at hcount
      split
      next hnew =>
        have hnew := (Bool.and_eq_true _ _ ▸ hnew).2
        rw [List.count_cons, hcount, hnew]
        simp
      next hnew =>
        have hnew : userPending { s.ctx.task with
            signalsMap := s.ctx.task.signalsMap ||| 2 ^ i } i = false := by simpa using hnew
        rw [hcount, hnew]
  · rw [userPending_raise _ _ _ hi, ← hcount]
    split
    · simp [Ne.symm hi]
    · rfl

/-- What an operation of a handler finds on the stack. -/
theorem SignalOp.enabled_user {tf : TrapFrame} {bytes : ℕ → BitVec 8}
    (h : (SignalOp.user tf bytes).Enabled s) : ∃ fr rest, s.saved = fr :: rest ∧
      tf.userEsp.toNat ≤ fr.entry ∧ ∀ g ∈ s.saved, ∀ i < trapFrameSize,
        bytes (g.entry + 8 + i) = s.ctx.mem.bytes (g.entry + 8 + i) := by
  simp only [SignalOp.Enabled] at h
  split at h
  · exact h.elim
  · exact ⟨_, _, ‹_›, h⟩

theorem SignalOp.enabled_sigreturn {tf : TrapFrame} (h : (SignalOp.sigreturn tf).Enabled s) :
    ∃ fr rest, s.saved = fr :: rest ∧ tf.userEsp.toNat = fr.entry + 4 := by
  simp only [SignalOp.Enabled] at h
  split at h
  · exact h.elim
  · exact ⟨_, _, ‹_›, h⟩

/-- **A handler that runs** leaves the frames alone. -/
theorem SignalInv.user (hs : SignalInv base s) {tf : TrapFrame} {bytes : ℕ → BitVec 8}
    (hop : (SignalOp.user tf bytes).Enabled s) :
    SignalInv base { s with ctx :=
      { s.ctx with tf := tf, mem := { s.ctx.mem with bytes := bytes } } } := by
  obtain ⟨fr, rest, hsaved, hesp, hbytes⟩ := SignalOp.enabled_user hop
  refine ⟨hs.stacked, fun g hg => ?_, ?_, hs.counts⟩
  · obtain ⟨hload, huser, hwritable⟩ := hs.held g hg
    exact ⟨(TrapFrame.load_congr (hbytes g hg)).trans hload, huser, hwritable⟩
  · dsimp only
    rw [hsaved]
    exact hesp

/-- A handler that returns gets back the context that it has interrupted. -/
theorem Saved.Held.sigreturn {c : UserContext} {fr : Saved} (hfr : fr.Held c.mem)
    (htf : c.tf.userEsp.toNat = fr.entry + 4) :
    c.sigreturn = .ok { c with tf := fr.tf.sanitize } := by
  have hbase : kernelVaddrBase = 3221225472 := rfl
  have huser : fr.entry + 84 ≤ kernelVaddrBase := hfr.user
  have hsrc := sigreturnSrc_eq htf (by omega)
  have hcheck : c.mem.canCopyFrom (fr.entry + 8) trapFrameSize = true := by
    unfold UserMemory.canCopyFrom
    rw [Bool.and_eq_true, accessOk_range (by omega) (by decide) (by decide), List.all_eq_true]
    refine ⟨?_, fun i hi => ?_⟩
    · unfold trapFrameSize
      omega
    · have hi : i < 76 := List.mem_range.mp hi
      refine c.mem.readable_of_writable _ ?_
      rw [Nat.add_assoc]
      refine hfr.writable (8 + i) ?_
      unfold sigframeSize
      omega
  rw [sigreturn_eq, hsrc, if_pos hcheck, hfr.load]

/-- **Return** pops a frame. -/
theorem SignalInv.sigreturn (hbase : base.IsUser) (hs : SignalInv base s) {tf : TrapFrame}
    (hop : (SignalOp.sigreturn tf).Enabled s) (h : signalStep s (.sigreturn tf) = .ok s') :
    SignalInv base s' := by
  obtain ⟨fr, rest, hsaved, hesp⟩ := SignalOp.enabled_sigreturn hop
  have h : (UserContext.sigreturn { s.ctx with tf := tf } >>= fun c =>
    Except.ok { s with ctx := c, saved := s.saved.tail }) = .ok s' := h
  have hfr := hs.held fr (hsaved ▸ List.mem_cons_self)
  rw [Saved.Held.sigreturn (c := { s.ctx with tf := tf }) hfr hesp] at h
  obtain rfl := Except.ok.inj h
  have hstack := hs.stacked
  rw [hsaved] at hstack
  obtain ⟨_, htop, hrest⟩ := hstack
  refine ⟨?_, fun g hg => ?_, ?_, hs.counts⟩
  · dsimp only
    rw [hsaved]
    exact hrest
  · rw [hsaved] at hg
    exact hs.held g (hsaved ▸ List.mem_cons_of_mem fr hg)
  · dsimp only
    rw [hsaved, List.tail_cons]
    cases rest with
    | nil =>
      have htf : fr.tf = base := htop
      show fr.tf.sanitize = base
      rw [htf, hbase.sanitize]
    | cons g rest => exact htop

/-- **One step**. -/
theorem signalStep_inv (hbase : base.IsUser) (hs : SignalInv base s) {op : SignalOp}
    (hop : op.Enabled s) (h : signalStep s op = .ok s') : SignalInv base s' := by
  cases op with
  | deliver => exact hs.deliver h
  | raise sig => exact Except.ok.inj h ▸ hs.raise sig
  | user tf bytes => exact Except.ok.inj h ▸ hs.user hop
  | sigreturn tf => exact hs.sigreturn hbase hop h

theorem interrupted_inv (h : Interrupted base s) : SignalInv base s := by
  obtain ⟨htf, hsaved, hdelivered, hraised⟩ := h
  refine ⟨?_, fun fr hfr => ?_, ?_, fun sig hsig => ?_⟩
  · rw [hsaved]
    trivial
  · rw [hsaved] at hfr
    cases hfr
  · rw [hsaved]
    exact htf
  · rw [hraised, hdelivered, List.count_nil, Nat.zero_add]
    have hnodup : allSignals.Nodup := List.nodup_range'
    split
    next hp => exact List.count_eq_one_of_mem (hnodup.filter _) (List.mem_filter.mpr ⟨hsig, hp⟩)
    next hp => exact List.count_eq_zero.mpr fun hmem => hp (List.mem_filter.mp hmem).2

theorem signalSystem_inv (hbase : base.IsUser) (h : (signalSystem base).Reachable s) :
    SignalInv base s := by
  refine h.invariant (P := SignalInv base) (fun s hi => interrupted_inv hi) ?_
  intro s op s' hs ⟨hop, hstep⟩
  exact signalStep_inv hbase hs hop hstep

end Invariant

/-! ## Delivery and return are inverse -/

/-- There is room for a frame below the stack pointer, in memory that is mapped writable. -/
structure UserContext.HasRoom (c : UserContext) : Prop where
  low : sigframeSize ≤ c.tf.userEsp.toNat
  high : c.tf.userEsp.toNat ≤ kernelVaddrBase
  writable : ∀ i < sigframeSize, c.mem.writable ((signalEsp c.tf.userEsp).toNat + i) = true

/-- What a delivery of `sig` leaves: the handler is entered with the number of the signal above its
return address, and the signal is no longer pending. -/
structure Delivered (sig : ℕ) (c c' : UserContext) : Prop where
  handler : ∃ addr, c.task.sigHandlers sig = .user addr ∧ c'.tf.eip = BitVec.ofNat 32 addr
  number : loadWord c'.mem.bytes (c'.tf.userEsp.toNat + 4) = BitVec.ofNat 32 sig
  below : c'.tf.userEsp.toNat + sigframeSize ≤ c.tf.userEsp.toNat
  pending : ∀ i, userPending c'.task i = (userPending c.task i && decide (i ≠ sig))

theorem signalCall_delivered {c : UserContext} {sig : ℕ}
    (hnext : nextUserSignal c.task allSignals = some sig)
    (hall : ∀ i ∈ allSignals, signalIsSet i c.task = true → userPending c.task i = true)
    (hroom : c.HasRoom) : ∃ c', c.signalCallCurtaskHandlers = .ok c' ∧ Delivered sig c c' := by
  have hsig : sig < sigSentinel := by
    have hmem := List.mem_of_find?_eq_some hnext
    have hsigs : ∀ sig ∈ allSignals, sig < sigSentinel := by decide
    exact hsigs sig hmem
  obtain ⟨_, handler, hh⟩ := userPending_iff.mp (List.find?_some hnext)
  have hrun := runHandlers_next allSignals hall hnext hh
  obtain ⟨c', hc'⟩ := installHandler_succeeds (c := { c with task := signalDequeue sig c.task })
    sig handler hroom.low hroom.high hroom.writable
  obtain ⟨hbelow, _, _, rfl⟩ := installHandler_ok hc'
  exact ⟨_, hrun.trans hc', ⟨handler, hh, rfl⟩, loadWord_sigNum _ _ _ _, hbelow,
    userPending_dequeue _ hsig⟩

/-- **Nested signals.** In every run of deliveries, handlers and returns over a program that was
interrupted in a context `base` of user code:

- when every handler has returned, the context is `base` in every field;
- a handler that returns gets back the context that its delivery has interrupted;
- with room below the stack pointer, the first pending signal is delivered, with its number above the
  return address, and the others stay pending;
- each signal was delivered as often as it has become pending, but for a pending one.

And whatever the memory holds, the context after `sigreturn` is one of ring 3 with interrupts
enabled. -/
theorem nested_signals_inverse {base : TrapFrame} (hbase : base.IsUser) {s : Handling}
    (h : (signalSystem base).Reachable s) :
    (s.saved = [] → s.ctx.tf = base) ∧
    (∀ fr rest tf, s.saved = fr :: rest → tf.userEsp.toNat = fr.entry + 4 →
      ∃ c, UserContext.sigreturn { s.ctx with tf := tf } = .ok c ∧ c.tf = fr.tf.sanitize ∧
        (fr.tf.IsUser → c.tf = fr.tf)) ∧
    (∀ sig, nextUserSignal s.ctx.task allSignals = some sig →
      (∀ i ∈ allSignals, signalIsSet i s.ctx.task = true → userPending s.ctx.task i = true) →
      s.ctx.HasRoom → ∃ c, s.ctx.signalCallCurtaskHandlers = .ok c ∧ Delivered sig s.ctx c) ∧
    (∀ sig ∈ allSignals, s.raised.count sig =
      s.delivered.count sig + if userPending s.ctx.task sig then 1 else 0) ∧
    ∀ c c' : UserContext, c.sigreturn = .ok c' → c'.tf.IsSane := by
  have hs := signalSystem_inv hbase h
  refine ⟨fun hnil => ?_, fun fr rest tf hsaved htf => ?_, fun sig => signalCall_delivered,
    hs.counts, fun c c' hc => ?_⟩
  · have htop := hs.current
    rw [hnil] at htop
    exact htop
  · have hfr := hs.held fr (hsaved ▸ List.mem_cons_self)
    exact ⟨_, Saved.Held.sigreturn (c := { s.ctx with tf := tf }) hfr htf, rfl,
      fun huser => huser.sanitize⟩
  · rw [sigreturn_eq] at hc
    split at hc
    · obtain rfl := Except.ok.inj hc
      exact TrapFrame.sanitize_isSane _
    · cases hc

/-- A program in a loop, as the timer interrupt finds it. -/
def programFrame : TrapFrame where
  gs := userDs
  fs := userDs
  es := userDs
  ds := userDs
  edi := 1
  esi := 2
  ebp := 0xBFFFE010
  esp := 0
  ebx := 3
  edx := 4
  ecx := 5
  eax := 6
  intNo := 32
  errCode := 0
  eip := 0x08048010
  cs := userCs
  eflags := 0x246
  userEsp := 0xBFFFE000
  userSs := userDs

theorem programFrame_isUser : programFrame.IsUser := by
  constructor <;> decide

/-- Memory that is mapped writable everywhere. -/
def plainMemory : UserMemory where
  bytes _ := 0
  readable _ := true
  writable _ := true
  readable_of_writable _ _ := rfl

/-- A task with handlers for `SIGUSR1` and `SIGUSR2`, which are both pending. -/
def signalledTask : Task :=
  { newTask 5 with
    signalsMap := 2 ^ 10 ||| 2 ^ 12
    sigHandlers := fun sig => if sig = 10 ∨ sig = 12 then .user (0x08048100 + sig) else .default }

def twoPending : Handling where
  ctx := { task := signalledTask, tf := programFrame, mem := plainMemory }
  saved := []
  raised := allSignals.filter (userPending signalledTask)
  delivered := []

/-- Both signals are delivered before a handler runs; the second handler returns first. -/
def twoSignalsRun : Option Handling :=
  [SignalOp.deliver, .deliver, .sigreturn { programFrame with userEsp := 0xBFFFDF44 },
    .sigreturn { programFrame with userEsp := 0xBFFFDFA4 }].foldlM
    (System.checkedStep (fun s op => SignalOp.Enabled s op) signalStep) twoPending

theorem twoSignalsRun_view : twoSignalsRun.map (fun s => decide (s.saved = [] ∧
    s.delivered = [12, 10])) = some true := by
  decide +kernel

theorem nested_signals_inverse_twoSignals : ∃ s, (signalSystem programFrame).Reachable s ∧
    s.saved = [] ∧ s.delivered = [12, 10] ∧ s.ctx.tf = programFrame := by
  have hview := twoSignalsRun_view
  rw [Option.map_eq_some_iff] at hview
  obtain ⟨s, hs, hview⟩ := hview
  obtain ⟨hsaved, hdelivered⟩ := of_decide_eq_true hview
  have hinit : (signalSystem programFrame).Reachable twoPending := .init ⟨rfl, rfl, rfl, rfl⟩
  have hreach : (signalSystem programFrame).Reachable s :=
    System.Reachable.foldlM_restrict hinit hs
  exact ⟨s, hreach, hsaved, hdelivered, (nested_signals_inverse programFrame_isUser hreach).1 hsaved⟩

end Kfs.Proc
