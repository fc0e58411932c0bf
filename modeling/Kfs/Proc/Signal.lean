import Kfs.Memory.UserCopy
import Kfs.Proc.Scheduler

/-!
# Signal frames

`signal_call_curtask_handlers` of `src/proc/signal.c`, `src/syscalls/sigreturn.c` and the store of
`do_syscall`, for one task. The trap frame at the top of its kernel stack is the user context that
the next `iret` restores. User memory is what the task sees: a byte for each address below the
kernel and the access that its pages allow; `copy_to_user` and `copy_from_user` are described on it
by the two checks that they make, of the range and of the pages.

A task that a call ends with `do_exit` has no further context; the result is then the status.
-/

namespace Kfs.Proc

open Kfs.Memory

/-! ## Trap frames -/

/-- `struct trap_frame`, with `struct registers` first. -/
structure TrapFrame where
  gs : BitVec 32
  fs : BitVec 32
  es : BitVec 32
  ds : BitVec 32
  edi : BitVec 32
  esi : BitVec 32
  ebp : BitVec 32
  esp : BitVec 32
  ebx : BitVec 32
  edx : BitVec 32
  ecx : BitVec 32
  eax : BitVec 32
  intNo : BitVec 32
  errCode : BitVec 32
  eip : BitVec 32
  cs : BitVec 32
  eflags : BitVec 32
  userEsp : BitVec 32
  userSs : BitVec 32
  deriving DecidableEq, Repr

/-- The words of a trap frame in memory. -/
def TrapFrame.words (tf : TrapFrame) : List (BitVec 32) :=
  [tf.gs, tf.fs, tf.es, tf.ds, tf.edi, tf.esi, tf.ebp, tf.esp, tf.ebx, tf.edx, tf.ecx, tf.eax,
    tf.intNo, tf.errCode, tf.eip, tf.cs, tf.eflags, tf.userEsp, tf.userSs]

/-- The trap frame with given words. -/
def TrapFrame.ofWords (w : ℕ → BitVec 32) : TrapFrame where
  gs := w 0
  fs := w 1
  es := w 2
  ds := w 3
  edi := w 4
  esi := w 5
  ebp := w 6
  esp := w 7
  ebx := w 8
  edx := w 9
  ecx := w 10
  eax := w 11
  intNo := w 12
  errCode := w 13
  eip := w 14
  cs := w 15
  eflags := w 16
  userEsp := w 17
  userSs := w 18

def trapFrameSize : ℕ := 76 -- sizeof(struct trap_frame)
def sigframeSize : ℕ := 84 -- sizeof(struct sigframe)
def userCs : BitVec 32 := 0x1B -- USER_CS
def userDs : BitVec 32 := 0x23 -- USER_DS
def userTrampolineVaddr : ℕ := kernelVaddrBase - pageSize -- USER_TRAMPOLINE_VADDR

/-! ## User memory -/

/-- User memory as a task sees it. -/
structure UserMemory where
  bytes : ℕ → BitVec 8
  /-- The page has the present and user bits in both of its entries. -/
  readable : ℕ → Bool
  /-- The page has the writable bit too. -/
  writable : ℕ → Bool
  readable_of_writable : ∀ a, writable a = true → readable a = true

/-- The little-endian word at an address. -/
def loadWord (bytes : ℕ → BitVec 8) (a : ℕ) : BitVec 32 :=
  bytes (a + 3) ++ bytes (a + 2) ++ bytes (a + 1) ++ bytes a

/-- The trap frame at an address. -/
def TrapFrame.load (bytes : ℕ → BitVec 8) (a : ℕ) : TrapFrame :=
  .ofWords fun i => loadWord bytes (a + 4 * i)

/-- A byte of a list of words in memory. -/
def wordsByte (ws : List (BitVec 32)) (i : ℕ) : BitVec 8 :=
  (ws.getD (i / 4) 0).extractLsb' (8 * (i % 4)) 8

/-- The bytes with `n` of them, from `dst` on, replaced by an image. -/
def storeImage (bytes : ℕ → BitVec 8) (dst n : ℕ) (image : ℕ → BitVec 8) : ℕ → BitVec 8 :=
  fun a => if dst ≤ a ∧ a < dst + n then image (a - dst) else bytes a

/-- `copy_to_user`; `none` is a result other than 0. -/
def UserMemory.copyToUser (m : UserMemory) (dst n : ℕ) (image : ℕ → BitVec 8) : Option UserMemory :=
  if accessOk dst n && (List.range n).all (fun i => m.writable (dst + i)) then
    some { m with bytes := storeImage m.bytes dst n image }
  else none

/-- The check of `copy_from_user`. -/
def UserMemory.canCopyFrom (m : UserMemory) (src n : ℕ) : Bool :=
  accessOk src n && (List.range n).all (fun i => m.readable (src + i))

/-! ## Delivery -/

/-- What `iret` restores for a task, with its memory and its signals. -/
structure UserContext where
  task : Task
  tf : TrapFrame
  mem : UserMemory

/-- `ALIGN_DOWN(tf->user_esp - sizeof(struct sigframe), ESP_ALIGN)`. -/
def signalEsp (userEsp : BitVec 32) : BitVec 32 :=
  (userEsp - BitVec.ofNat 32 sigframeSize) &&& ~~~15#32

/-- The words of `struct sigframe`. -/
def sigframeWords (sig : ℕ) (tf : TrapFrame) : List (BitVec 32) :=
  BitVec.ofNat 32 userTrampolineVaddr :: BitVec.ofNat 32 sig :: tf.words

/-- A user handler: the context is saved on the user stack and redirected. -/
def installHandler (sig handler : ℕ) (c : UserContext) : Except ℤ UserContext :=
  let newEsp := signalEsp c.tf.userEsp
  match c.mem.copyToUser newEsp.toNat sigframeSize (wordsByte (sigframeWords sig c.tf)) with
  | none => .error (-14) -- do_exit(-EFAULT)
  | some mem => .ok { c with
      mem := mem, tf := { c.tf with eip := BitVec.ofNat 32 handler, userEsp := newEsp } }

/-- The loop of `signal_call_curtask_handlers` over the signals still to look at. -/
def runHandlers : List ℕ → UserContext → Except ℤ UserContext
  | [], c => .ok c
  | sig :: sigs, c =>
    if !signalIsSet sig c.task then runHandlers sigs c
    else
      let c := { c with task := signalDequeue sig c.task }
      match c.task.sigHandlers sig with
      | .ignore => runHandlers sigs c
      | .default =>
        if c.task.pid = 0 ∨ c.task.pid = 1 then runHandlers sigs c
        else .error (-1) -- signal_default_handler
      | .user handler => installHandler sig handler c

/-- `signal_call_curtask_handlers`. -/
def UserContext.signalCallCurtaskHandlers (c : UserContext) : Except ℤ UserContext :=
  runHandlers (List.range' 1 (sigSentinel - 1)) c

/-! ## Return -/

/-- What `sys_sigreturn` makes of the frame that it has read. -/
def TrapFrame.sanitize (tf : TrapFrame) : TrapFrame :=
  { tf with
    userSs := userDs
    eflags := (tf.eflags &&& 0x00000DD5#32) ||| 0x202#32
    cs := userCs
    ds := userDs
    es := userDs
    fs := userDs
    gs := userDs }

/-- `sys_sigreturn`. The frame is found from `sig_num`, which the stack pointer names when the
handler has returned. -/
def sysSigreturn (c : UserContext) : Except ℤ (BitVec 32 × UserContext) :=
  let oldFrame := c.tf.userEsp - 4#32
  let src := (oldFrame + 8#32).toNat
  if c.mem.canCopyFrom src trapFrameSize then
    let tf := (TrapFrame.load c.mem.bytes src).sanitize
    .ok (tf.eax, { c with tf := tf })
  else .error (-14)

/-- The store of `do_syscall`. -/
def UserContext.setResult (c : UserContext) (result : BitVec 32) : UserContext :=
  { c with tf := { c.tf with eax := result } }

/-- `do_syscall` with `sys_sigreturn` as the handler. -/
def UserContext.sigreturn (c : UserContext) : Except ℤ UserContext := do
  let (result, c) ← sysSigreturn c
  .ok (c.setResult result)

end Kfs.Proc
