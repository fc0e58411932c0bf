import Kfs.Proc.Signal

/-!
# What delivery and `sigreturn` do to a context

A delivered signal leaves its frame below the stack pointer of the context that it interrupts, so
frames stack without overlap. `sigreturn` reads back exactly what was saved, up to the fields that it
forces.
-/

namespace Kfs.Proc

open Kfs.Lib Kfs.Memory

/-! ## Words in memory -/

/-- The four bytes of a word make the word. -/
theorem append_extract (w : BitVec 32) :
    w.extractLsb' 24 8 ++ w.extractLsb' 16 8 ++ w.extractLsb' 8 8 ++ w.extractLsb' 0 8 = w := by
  refine BitVec.eq_of_getLsbD_eq fun i hi => ?_
  simp only [BitVec.getLsbD_append, BitVec.getLsbD_extractLsb']
  by_cases h₁ : i < 8
  · simp [h₁]
  · by_cases h₂ : i - 8 < 8
    · have : 8 + (i - 8) = i := by omega
      simp [h₁, h₂, this]
    · by_cases h₃ : i - 8 - 8 < 8
      · have : 16 + (i - 8 - 8) = i := by omega
        simp [h₁, h₂, h₃, this]
      · have h₄ : i - 8 - 8 - 8 < 8 := by omega
        have : 24 + (i - 8 - 8 - 8) = i := by omega
        simp [h₁, h₂, h₃, h₄, this]

/-- A word that was stored with others is read back. -/
theorem loadWord_storeImage (bytes : ℕ → BitVec 8) (dst : ℕ) (ws : List (BitVec 32)) {i : ℕ}
    (hi : i < ws.length) :
    loadWord (storeImage bytes dst (4 * ws.length) (wordsByte ws)) (dst + 4 * i) = ws.getD i 0 := by
  have hbyte : ∀ j < 4, storeImage bytes dst (4 * ws.length) (wordsByte ws) (dst + 4 * i + j) =
      (ws.getD i 0).extractLsb' (8 * j) 8 := by
    intro j hj
    have hin : dst ≤ dst + 4 * i + j ∧ dst + 4 * i + j < dst + 4 * ws.length := by omega
    have hoff : dst + 4 * i + j - dst = 4 * i + j := by omega
    have hdiv : (4 * i + j) / 4 = i := by omega
    have hmod : (4 * i + j) % 4 = j := by omega
    unfold storeImage wordsByte
    rw [if_pos hin, hoff, hdiv, hmod]
  unfold loadWord
  rw [hbyte 3 (by decide), hbyte 2 (by decide), hbyte 1 (by decide),
    show dst + 4 * i = dst + 4 * i + 0 from rfl, hbyte 0 (by decide)]
  exact append_extract _

theorem storeImage_of_ge {bytes : ℕ → BitVec 8} {dst n a : ℕ} {image : ℕ → BitVec 8}
    (h : dst + n ≤ a) : storeImage bytes dst n image a = bytes a :=
  if_neg fun hin => absurd hin.2 (not_lt.mpr h)

theorem loadWord_congr {bytes bytes' : ℕ → BitVec 8} {a : ℕ}
    (h : ∀ i < 4, bytes' (a + i) = bytes (a + i)) : loadWord bytes' a = loadWord bytes a := by
  unfold loadWord
  rw [h 3 (by decide), h 2 (by decide), h 1 (by decide), show bytes' a = bytes a from h 0 (by decide)]

theorem TrapFrame.ofWords_words (tf : TrapFrame) :
    TrapFrame.ofWords (fun i => tf.words.getD i 0) = tf := rfl

theorem TrapFrame.ofWords_congr {w w' : ℕ → BitVec 32} (h : ∀ i < 19, w' i = w i) :
    TrapFrame.ofWords w' = TrapFrame.ofWords w := by
  unfold TrapFrame.ofWords
  rw [h 0 (by decide), h 1 (by decide), h 2 (by decide), h 3 (by decide), h 4 (by decide),
    h 5 (by decide), h 6 (by decide), h 7 (by decide), h 8 (by decide), h 9 (by decide),
    h 10 (by decide), h 11 (by decide), h 12 (by decide), h 13 (by decide), h 14 (by decide),
    h 15 (by decide), h 16 (by decide), h 17 (by decide), h 18 (by decide)]

/-- A trap frame is read from its own bytes only. -/
theorem TrapFrame.load_congr {bytes bytes' : ℕ → BitVec 8} {a : ℕ}
    (h : ∀ i < trapFrameSize, bytes' (a + i) = bytes (a + i)) :
    TrapFrame.load bytes' a = TrapFrame.load bytes a := by
  refine TrapFrame.ofWords_congr fun k hk => loadWord_congr fun i hi => ?_
  rw [Nat.add_assoc]
  refine h (4 * k + i) ?_
  unfold trapFrameSize
  omega

/-! ## The signal frame -/

/-- The memory after the frame of a signal was written at `dst`. -/
def storeSigframe (bytes : ℕ → BitVec 8) (dst sig : ℕ) (tf : TrapFrame) : ℕ → BitVec 8 :=
  storeImage bytes dst sigframeSize (wordsByte (sigframeWords sig tf))

section Frame

variable (bytes : ℕ → BitVec 8) (dst sig : ℕ) (tf : TrapFrame)

theorem loadWord_storeSigframe {i : ℕ} (hi : i < 21) :
    loadWord (storeSigframe bytes dst sig tf) (dst + 4 * i) = (sigframeWords sig tf).getD i 0 :=
  loadWord_storeImage bytes dst (sigframeWords sig tf) hi

/-- The saved context is read back. -/
theorem load_storeSigframe :
    TrapFrame.load (storeSigframe bytes dst sig tf) (dst + 8) = tf := by
  refine (TrapFrame.ofWords_congr fun i hi => ?_).trans tf.ofWords_words
  have hword := loadWord_storeSigframe bytes dst sig tf (i := i + 2) (by omega)
  rw [show dst + 8 + 4 * i = dst + 4 * (i + 2) by omega, hword]
  rfl

/-- The number of the signal is the argument of the handler. -/
theorem loadWord_sigNum :
    loadWord (storeSigframe bytes dst sig tf) (dst + 4) = BitVec.ofNat 32 sig :=
  loadWord_storeSigframe bytes dst sig tf (i := 1) (by decide)

/-- The handler returns to the trampoline. -/
theorem loadWord_retAddr :
    loadWord (storeSigframe bytes dst sig tf) dst = BitVec.ofNat 32 userTrampolineVaddr :=
  loadWord_storeSigframe bytes dst sig tf (i := 0) (by decide)

/-- A frame that lies above keeps its contents. -/
theorem load_storeSigframe_of_le {a : ℕ} (h : dst + sigframeSize ≤ a) :
    TrapFrame.load (storeSigframe bytes dst sig tf) a = TrapFrame.load bytes a :=
  TrapFrame.load_congr fun i _ => storeImage_of_ge (by omega)

end Frame

/-! ## The stack pointer -/

/-- `ALIGN_DOWN(x, 16)` as a number. -/
theorem and_not_15_toNat (x : BitVec 32) : (x &&& ~~~15#32).toNat = x.toNat / 16 * 16 := by
  have hx : x.toNat < 2 ^ 32 := x.isLt
  have hmask : (~~~15#32).toNat = Word32.highMask 4 := by decide
  rw [BitVec.toNat_and, hmask]
  exact Word32.and_highMask hx (by decide)

/-- The frame lies below the stack pointer. -/
theorem signalEsp_toNat {userEsp : BitVec 32} (h : sigframeSize ≤ userEsp.toNat) :
    (signalEsp userEsp).toNat = (userEsp.toNat - sigframeSize) / 16 * 16 := by
  have hsize : (BitVec.ofNat 32 sigframeSize).toNat = sigframeSize := by decide
  unfold signalEsp
  rw [and_not_15_toNat, BitVec.toNat_sub_of_le (by rw [BitVec.le_def, hsize]; exact h), hsize]

/-- Without room for the frame the stack pointer wraps into the kernel. -/
theorem signalEsp_wrap {userEsp : BitVec 32} (h : userEsp.toNat < sigframeSize) :
    kernelVaddrBase ≤ (signalEsp userEsp).toNat := by
  have hsize : (BitVec.ofNat 32 sigframeSize).toNat = sigframeSize := by decide
  have hval : sigframeSize = 84 := rfl
  have hbase : kernelVaddrBase = 3221225472 := rfl
  unfold signalEsp
  rw [and_not_15_toNat, BitVec.toNat_sub, hsize]
  rw [hval] at h ⊢
  rw [hbase]
  omega

/-! ## Delivery -/

section Delivery

variable {c c' : UserContext} {sig handler : ℕ}

/-- The range that `copy_to_user` and `copy_from_user` accept. -/
theorem accessOk_range {u n : ℕ} (hu : u < 2 ^ 32) (hn : n < 2 ^ 32) (hpos : 0 < n) :
    accessOk u n = true ↔ u + n ≤ kernelVaddrBase := by
  rw [accessOk_iff hu hn]
  omega

/-- A delivery that succeeds: there is room below the stack pointer, in writable memory. -/
theorem installHandler_ok (h : installHandler sig handler c = .ok c') :
    (signalEsp c.tf.userEsp).toNat + sigframeSize ≤ c.tf.userEsp.toNat ∧
      (signalEsp c.tf.userEsp).toNat + sigframeSize ≤ kernelVaddrBase ∧
      (∀ i < sigframeSize, c.mem.writable ((signalEsp c.tf.userEsp).toNat + i) = true) ∧
      c' = { c with
        mem := { c.mem with
          bytes := storeSigframe c.mem.bytes (signalEsp c.tf.userEsp).toNat sig c.tf }
        tf := { c.tf with
          eip := BitVec.ofNat 32 handler, userEsp := signalEsp c.tf.userEsp } } := by
  unfold installHandler UserMemory.copyToUser at h
  dsimp only at h
  split at h
  · cases h
  · rename_i mem hmem
    split at hmem
    · rename_i hcheck
      rw [Bool.and_eq_true, accessOk_range (signalEsp _).isLt (by decide) (by decide),
        List.all_eq_true] at hcheck
      obtain rfl := Option.some.inj hmem
      have hroom : sigframeSize ≤ c.tf.userEsp.toNat := by
        by_contra hlow
        have hwrap := signalEsp_wrap (not_le.mp hlow)
        have hpos : 0 < sigframeSize := by decide
        omega
      refine ⟨?_, hcheck.1, fun i hi => hcheck.2 i (List.mem_range.mpr hi), (Except.ok.inj h).symm⟩
      rw [signalEsp_toNat hroom]
      omega
    · cases hmem

/-- A delivery succeeds when there is room. -/
theorem installHandler_succeeds (sig handler : ℕ) (hroom : sigframeSize ≤ c.tf.userEsp.toNat)
    (huser : c.tf.userEsp.toNat ≤ kernelVaddrBase)
    (hwritable : ∀ i < sigframeSize, c.mem.writable ((signalEsp c.tf.userEsp).toNat + i) = true) :
    ∃ c', installHandler sig handler c = .ok c' := by
  have hcheck : (accessOk (signalEsp c.tf.userEsp).toNat sigframeSize &&
      (List.range sigframeSize).all fun i =>
        c.mem.writable ((signalEsp c.tf.userEsp).toNat + i)) = true := by
    rw [Bool.and_eq_true, accessOk_range (signalEsp _).isLt (by decide) (by decide),
      List.all_eq_true]
    refine ⟨?_, fun i hi => hwritable i (List.mem_range.mp hi)⟩
    rw [signalEsp_toNat hroom]
    omega
  unfold installHandler UserMemory.copyToUser
  dsimp only
  rw [if_pos hcheck]
  exact ⟨_, rfl⟩

/-- Dequeuing a signal clears its bit. -/
theorem signalIsSet_dequeue (x : Task) {sig : ℕ} (hs : sig < sigSentinel) (i : ℕ) :
    signalIsSet i (signalDequeue sig x) = (signalIsSet i x && decide (i ≠ sig)) := by
  unfold signalIsSet signalDequeue
  by_cases hi : i < sigSentinel
  · have hi32 : i < 32 := hi
    have hlt : 2 ^ sig < 2 ^ 32 := Nat.pow_lt_pow_right (by decide) hs
    have hmask : 2 ^ 32 - 1 - 2 ^ sig = 2 ^ 32 - (2 ^ sig + 1) := by omega
    simp only [hi, decide_true, Bool.true_and, Nat.testBit_and, hmask]
    rw [Nat.testBit_two_pow_sub_succ hlt, Nat.testBit_two_pow]
    simp [hi32, eq_comm]
  · simp [hi]

/-- The signal is pending and a handler of the user is set for it. -/
def userPending (x : Task) (sig : ℕ) : Bool :=
  signalIsSet sig x && match x.sigHandlers sig with | .user _ => true | _ => false

theorem userPending_iff {x : Task} : userPending x sig = true ↔
    signalIsSet sig x = true ∧ ∃ addr, x.sigHandlers sig = .user addr := by
  unfold userPending
  rw [Bool.and_eq_true]
  cases x.sigHandlers sig with
  | default => simp
  | ignore => simp
  | user addr => simp

/-- Dequeuing a signal leaves the other ones pending. -/
theorem userPending_dequeue (x : Task) (hs : sig < sigSentinel) (i : ℕ) :
    userPending (signalDequeue sig x) i = (userPending x i && decide (i ≠ sig)) := by
  unfold userPending
  rw [signalIsSet_dequeue x hs]
  show (signalIsSet i x && decide (i ≠ sig) && _) = (signalIsSet i x && _ && decide (i ≠ sig))
  rw [Bool.and_right_comm]
  rfl

/-- The first signal that a handler of the user gets. -/
def nextUserSignal (x : Task) (sigs : List ℕ) : Option ℕ := sigs.find? (userPending x)

/-- What the loop of `signal_call_curtask_handlers` does when it does not end the task: the handler
of the first pending signal that has one is installed, or nothing changes but the pending signals
without one. -/
structure Delivers (sigs : List ℕ) (c c' : UserContext) : Prop where
  handlers : c'.task.sigHandlers = c.task.sigHandlers
  none : nextUserSignal c.task sigs = none → c'.tf = c.tf ∧ c'.mem = c.mem ∧
    ∀ i, userPending c'.task i = userPending c.task i
  some : ∀ sig, nextUserSignal c.task sigs = some sig → ∃ handler x,
    c.task.sigHandlers sig = .user handler ∧
    installHandler sig handler { c with task := x } = .ok c' ∧
    ∀ i, userPending x i = (userPending c.task i && decide (i ≠ sig))

/-- A signal without a handler of the user is dequeued and the loop goes on. -/
theorem Delivers.skip {sigs : List ℕ} (hs : sig < sigSentinel) (hno : userPending c.task sig = false)
    (h : Delivers sigs { c with task := signalDequeue sig c.task } c') :
    Delivers (sig :: sigs) c c' := by
  -- the others are pending as before
  have hpend : ∀ i, userPending (signalDequeue sig c.task) i = userPending c.task i := by
    intro i
    rw [userPending_dequeue _ hs]
    by_cases hi : i = sig
    · simp [hi, hno]
    · simp [hi]
  have hnext : nextUserSignal c.task (sig :: sigs) =
      nextUserSignal (signalDequeue sig c.task) sigs := by
    unfold nextUserSignal
    rw [List.find?_cons_of_neg (by simp [hno])]
    exact congrArg (fun p => sigs.find? p) (funext fun i => (hpend i).symm)
  refine ⟨h.handlers, fun hnone => ?_, fun i hi => ?_⟩
  · obtain ⟨htf, hmem, hall⟩ := h.none (hnext ▸ hnone)
    exact ⟨htf, hmem, fun i => (hall i).trans (hpend i)⟩
  · obtain ⟨handler, x, hh, hinst, hall⟩ := h.some i (hnext ▸ hi)
    exact ⟨handler, x, hh, hinst, fun j => by rw [hall j, hpend j]⟩

theorem runHandlers_delivers (sigs : List ℕ) (hsigs : ∀ sig ∈ sigs, sig < sigSentinel) :
    ∀ {c c' : UserContext}, runHandlers sigs c = .ok c' → Delivers sigs c c' := by
  induction sigs with
  | nil =>
    intro c c' h
    obtain rfl := Except.ok.inj h
    exact ⟨rfl, fun _ => ⟨rfl, rfl, fun _ => rfl⟩, fun sig hsig => nomatch hsig⟩
  | cons sig sigs ih =>
    intro c c' h
    have hs := hsigs sig List.mem_cons_self
    have ih := @ih fun i hi => hsigs i (List.mem_cons_of_mem sig hi)
    unfold runHandlers at h
    split at h
    next hunset =>
      -- not pending: neither dequeued nor looked at
      have hno : userPending c.task sig = false := by
        have : signalIsSet sig c.task = false := by simpa using hunset
        simp [userPending, this]
      have hd := ih h
      have hnext : nextUserSignal c.task (sig :: sigs) = nextUserSignal c.task sigs :=
        List.find?_cons_of_neg (by simp [hno])
      exact ⟨hd.handlers, fun hnone => hd.none (hnext ▸ hnone), fun i hi => hd.some i (hnext ▸ hi)⟩
    next hset =>
      have hset : signalIsSet sig c.task = true := by simpa using hset
      dsimp only at h
      cases hh : c.task.sigHandlers sig with
      | ignore =>
        have hno : userPending c.task sig = false := by simp [userPending, hh]
        rw [show (signalDequeue sig c.task).sigHandlers sig = .ignore from hh] at h
        exact .skip hs hno (ih h)
      | default =>
        have hno : userPending c.task sig = false := by simp [userPending, hh]
        rw [show (signalDequeue sig c.task).sigHandlers sig = .default from hh] at h
        dsimp only at h
        split at h
        · exact .skip hs hno (ih h)
        · cases h
      | user handler =>
        rw [show (signalDequeue sig c.task).sigHandlers sig = .user handler from hh] at h
        dsimp only at h
        have hyes : userPending c.task sig = true := userPending_iff.mpr ⟨hset, handler, hh⟩
        have hnext : nextUserSignal c.task (sig :: sigs) = some sig :=
          List.find?_cons_of_pos hyes
        obtain ⟨_, _, _, rfl⟩ := installHandler_ok h
        refine ⟨rfl, fun hnone => ?_, fun i hi => ?_⟩
        · rw [hnext] at hnone
          cases hnone
        · obtain rfl : sig = i := Option.some.inj (hnext.symm.trans hi)
          exact ⟨handler, signalDequeue sig c.task, hh, h, userPending_dequeue _ hs⟩

/-- When every pending signal has a handler of the user, the first one is delivered. -/
theorem runHandlers_next (sigs : List ℕ) : ∀ {c : UserContext},
    (∀ i ∈ sigs, signalIsSet i c.task = true → userPending c.task i = true) →
    nextUserSignal c.task sigs = some sig → c.task.sigHandlers sig = .user handler →
    runHandlers sigs c =
      installHandler sig handler { c with task := signalDequeue sig c.task } := by
  induction sigs with
  | nil => exact fun _ hnext => nomatch hnext
  | cons i sigs ih =>
    intro c hall hnext hh
    unfold runHandlers
    by_cases hset : signalIsSet i c.task = true
    · have hyes := hall i List.mem_cons_self hset
      obtain rfl : i = sig := Option.some.inj ((List.find?_cons_of_pos hyes).symm.trans hnext)
      rw [if_neg (by simp [hset])]
      dsimp only
      rw [show (signalDequeue i c.task).sigHandlers i = .user handler from hh]
    · have hno : userPending c.task i = false := by
        have hunset : signalIsSet i c.task = false := by simpa using hset
        simp [userPending, hunset]
      rw [if_pos (by simpa using hset)]
      refine ih (fun j hj => hall j (List.mem_cons_of_mem i hj)) ?_ hh
      unfold nextUserSignal at hnext ⊢
      rw [List.find?_cons_of_neg (by simp [hno])] at hnext
      exact hnext

end Delivery

/-! ## Return -/

section Return

variable {c c' : UserContext}

/-- The context is that of user code: its selectors are those of the user segments, and its flags are
the ones `sys_sigreturn` keeps. -/
structure TrapFrame.IsUser (tf : TrapFrame) : Prop where
  cs : tf.cs = userCs
  ss : tf.userSs = userDs
  ds : tf.ds = userDs
  es : tf.es = userDs
  fs : tf.fs = userDs
  gs : tf.gs = userDs
  eflags : tf.eflags &&& ~~~0x00000DD5#32 = 0x202#32

/-- Sanitising does not disturb a context of user code. -/
theorem TrapFrame.IsUser.sanitize {tf : TrapFrame} (h : tf.IsUser) : tf.sanitize = tf := by
  have hmask : 0x00000DD5#32 ||| ~~~0x00000DD5#32 = BitVec.allOnes 32 := by decide
  have hflags : (tf.eflags &&& 0x00000DD5#32) ||| 0x202#32 = tf.eflags := by
    rw [← h.eflags, ← BitVec.and_or_distrib_left, hmask, BitVec.and_allOnes]
  unfold TrapFrame.sanitize
  rw [hflags]
  cases tf
  rw [TrapFrame.mk.injEq]
  exact ⟨h.gs.symm, h.fs.symm, h.es.symm, h.ds.symm, rfl, rfl, rfl, rfl, rfl, rfl, rfl, rfl, rfl,
    rfl, rfl, h.cs.symm, rfl, rfl, h.ss.symm⟩

/-- What `sys_sigreturn` forces, whatever it reads. -/
structure TrapFrame.IsSane (tf : TrapFrame) : Prop where
  cs : tf.cs = userCs
  ss : tf.userSs = userDs
  ds : tf.ds = userDs
  es : tf.es = userDs
  fs : tf.fs = userDs
  gs : tf.gs = userDs
  /-- Interrupts are enabled. -/
  interrupts : tf.eflags.getLsbD 9 = true
  /-- The I/O privilege level is 0. -/
  iopl : tf.eflags.extractLsb' 12 2 = 0

theorem TrapFrame.sanitize_isSane (tf : TrapFrame) : tf.sanitize.IsSane where
  cs := rfl
  ss := rfl
  ds := rfl
  es := rfl
  fs := rfl
  gs := rfl
  interrupts := by
    unfold TrapFrame.sanitize
    simp
  iopl := by
    unfold TrapFrame.sanitize
    refine BitVec.eq_of_getLsbD_eq fun i hi => ?_
    have hi' : i = 0 ∨ i = 1 := by omega
    rcases hi' with rfl | rfl <;> simp

/-- The address that `sys_sigreturn` reads the saved context from. -/
def sigreturnSrc (userEsp : BitVec 32) : ℕ := (userEsp - 4#32 + 8#32).toNat

theorem sigreturnSrc_eq {userEsp : BitVec 32} {entry : ℕ} (h : userEsp.toNat = entry + 4)
    (hlt : entry + 8 < 2 ^ 32) : sigreturnSrc userEsp = entry + 8 := by
  unfold sigreturnSrc
  bv_omega

/-- `sigreturn` takes the context from user memory and sanitises it. -/
theorem sigreturn_eq (c : UserContext) : c.sigreturn =
    if c.mem.canCopyFrom (sigreturnSrc c.tf.userEsp) trapFrameSize then
      .ok { c with tf := (TrapFrame.load c.mem.bytes (sigreturnSrc c.tf.userEsp)).sanitize }
    else .error (-14) := by
  unfold UserContext.sigreturn sysSigreturn sigreturnSrc
  dsimp only
  split
  · rfl
  · rfl

end Return

end Kfs.Proc
