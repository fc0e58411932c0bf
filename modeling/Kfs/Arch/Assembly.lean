import Kfs.Lib.Asm

/-!
# The assembly sources

`src/arch/x86/irq.s`, `src/arch/x86/isr.s` and `switch_to` of `src/proc/context.s`, instruction by
instruction. `Symbols` has the addresses that the linker gives to the labels and to the C functions
and variables that the sources name, and `Assembled` says that the code lies there. The labels that
are local to a file, and the addresses behind a `call`, are those at which the code lies.

C functions are not part of the code: a run stops where one is entered. What is shown about them is
shown for every function that returns as `Returned` says.
-/

namespace Kfs.Arch

open Kfs.Lib Kfs.Lib.Asm

/-- The addresses of labels, functions and variables. -/
structure Symbols where
  switchTo : Word
  interruptDispatcher : Word
  interruptRoutine : Word
  interruptExit : Word
  exceptionRoutine : Word
  /-- `irq_32`, ..., `irq_47` and `irq_128`. -/
  irq : BitVec 8 → Word
  /-- `isr_0`, ..., `isr_31`. -/
  isr : BitVec 8 → Word
  /-- `exception_handler` of `src/arch/x86/idt.c`. -/
  exceptionHandler : Word
  /-- `signal_call_curtask_handlers` of `src/proc/signal.c`. -/
  signalCallCurtaskHandlers : Word
  /-- The array `interrupt_handlers` of `src/arch/x86/idt.c`. -/
  interruptHandlers : Word
  /-- `g_tss` of `src/arch/x86/gdt.c`. -/
  gTss : Word

/-! ## `context.s` -/

/-- The offsets of the fields of `struct task` that `switch_to` uses. -/
def offEsp : Word := 36
def offCr3 : Word := 40
def offKernelStackPointer : Word := 44
def offKernelStackBase : Word := 48

/-- `switch_to` up to its `ret`. -/
def switchToOps (y : Symbols) : List Op := [
  .push .ebp,
  .mov .ebp .esp,
  .push .ebx,
  .push .esi,
  .push .edi,
  .load .ebx .ebp 8,
  .store .ebx offEsp .esp,
  .load .ebx .ebp 12,
  .load .esp .ebx offEsp,
  .load .eax .ebx offCr3,
  .toCr3 .eax,
  .load .eax .ebx offKernelStackBase,
  .storeAbs (y.gTss + 4) .eax,
  .pop .edi,
  .pop .esi,
  .pop .ebx,
  .pop .ebp]

def switchTo (y : Symbols) : List Instr := (switchToOps y).map .op ++ [.ret]

/-! ## `irq.s` -/

/-- The registers of a trap frame, pushed on the stack. -/
def saveRegisters : List Op := [
  .pusha,
  .fromSeg .ds, .push .eax,
  .fromSeg .es, .push .eax,
  .fromSeg .fs, .push .eax,
  .fromSeg .gs, .push .eax,
  .movAx 0x10,
  .toSeg .ds, .toSeg .es, .toSeg .fs, .toSeg .gs]

/-- The registers of a trap frame, popped, with the number and the error code skipped. -/
def restoreRegisters : List Op := [
  .pop .eax, .toSeg .gs,
  .pop .eax, .toSeg .fs,
  .pop .eax, .toSeg .es,
  .pop .eax, .toSeg .ds,
  .popa,
  .add .esp 8]

/-- `interrupt_dispatcher` up to its jump; `noIntHandler` is the label behind it. -/
def dispatch (y : Symbols) (noIntHandler : Word) : List Instr :=
  [Op.load .eax .esp 4,
   .load .eax .eax 48,
   .shl .eax 2,
   .load .eax .eax y.interruptHandlers,
   .test .eax .eax].map .op ++ [.jz noIntHandler, .jmpReg .eax]

/-- `interrupt_routine` up to the comparison; the label `skipPic2` is where the acknowledgement of
the second controller is skipped. -/
def enter (skipPic2 : Word) : List Instr :=
  (saveRegisters ++ [Op.load .eax .esp 48, .cmp .eax 40]).map .op ++ [.jl skipPic2]

/-- Between the jump and the label. -/
def ackPic2 : List Op := [.movAl 0x20, .out 0xA0]

/-- From the label `.skip_pic2` up to the call of the dispatcher. -/
def ackPic1 : List Op := [.movAl 0x20, .out 0x20, .lea .eax .esp 0, .push .eax]

/-- `interrupt_exit`. -/
def exit (y : Symbols) : List Instr :=
  .call y.signalCallCurtaskHandlers :: (restoreRegisters.map .op ++ [.iret])

/-- The macro `irq_stub`. -/
def irqStub (y : Symbols) (num : BitVec 8) : List Instr :=
  [Op.cli, .pushImm 0, .pushImm (num.setWidth 32)].map .op ++ [.jmp y.interruptRoutine]

/-- The numbers that `irq_stub` is used with. -/
def irqNumbers : List (BitVec 8) :=
  [32, 33, 34, 35, 36, 37, 38, 39, 40, 41, 42, 43, 44, 45, 46, 47, 128]

/-! ## `isr.s` -/

/-- The macro `isr_err_stub`. -/
def isrErrStub (y : Symbols) (num : BitVec 8) : List Instr :=
  [Op.cli, .pushImm (num.setWidth 32)].map .op ++ [.jmp y.exceptionRoutine]

/-- The macro `isr_no_err_stub`. -/
def isrNoErrStub (y : Symbols) (num : BitVec 8) : List Instr :=
  [Op.cli, .pushImm 0, .pushImm (num.setWidth 32)].map .op ++ [.jmp y.exceptionRoutine]

/-- The numbers that `isr_err_stub` is used with; the other ones below 32 are used with
`isr_no_err_stub`. -/
def isrErrNumbers : List (BitVec 8) := [8, 10, 11, 12, 13, 14, 17, 30]

def isrStub (y : Symbols) (num : BitVec 8) : List Instr :=
  if num ∈ isrErrNumbers then isrErrStub y num else isrNoErrStub y num

/-- `exception_routine`. -/
def exceptionRoutine (y : Symbols) : List Instr :=
  (saveRegisters ++ [Op.lea .eax .esp 0, .push .eax]).map .op ++ [.call y.exceptionHandler] ++
    (.add .esp 4 :: restoreRegisters).map .op ++ [.iret]

/-! ## The code in memory -/

/-- The code lies at the addresses of its labels. -/
structure Assembled (y : Symbols) (code : Code) : Prop where
  switchTo : ∃ d, CodeAt code y.switchTo (switchTo y) d
  interruptDispatcher : ∃ noIntHandler d, CodeAt code y.interruptDispatcher
    (dispatch y noIntHandler) noIntHandler ∧ CodeAt code noIntHandler [.ret] d
  interruptRoutine : ∃ skipPic2 callAt back, CodeAt code y.interruptRoutine
    (enter skipPic2 ++ ackPic2.map .op) skipPic2 ∧
    CodeAt code skipPic2 (ackPic1.map .op) callAt ∧
    CodeAt code callAt [.call y.interruptDispatcher] back ∧
    CodeAt code back ([Op.add .esp 4].map .op) y.interruptExit
  interruptExit : ∃ d, CodeAt code y.interruptExit (exit y) d
  exceptionRoutine : ∃ d, CodeAt code y.exceptionRoutine (exceptionRoutine y) d
  irq : ∀ num ∈ irqNumbers, ∃ d, CodeAt code (y.irq num) (irqStub y num) d
  isr : ∀ num < 32, ∃ d, CodeAt code (y.isr num) (isrStub y num) d

/-! ## A linked image -/

/-- Addresses for a kernel all of whose instructions have one byte. -/
def linked : Symbols where
  switchTo := 0xC0100000
  interruptDispatcher := 0xC0100000 + 18
  interruptRoutine := 0xC0100000 + 26
  interruptExit := 0xC0100000 + 51
  exceptionRoutine := 0xC0100000 + 63
  irq num := 0xC0100000 + 92 + 4 * (if num = 128 then 16 else num.setWidth 32 - 32)
  isr num := 0xC0100000 + 160 + 4 * num.setWidth 32
  exceptionHandler := 0xC0110000
  signalCallCurtaskHandlers := 0xC0110100
  interruptHandlers := 0xC0200000
  gTss := 0xC0201000

/-- The sources, one after the other. A stub without its own error code is one shorter, and the place
of its fourth instruction is never reached. -/
def image : List Instr :=
  switchTo linked ++ dispatch linked (0xC0100000 + 25) ++ [.ret] ++
  enter (0xC0100000 + 45) ++ ackPic2.map .op ++ ackPic1.map .op ++
  [.call linked.interruptDispatcher, .op (.add .esp 4)] ++ exit linked ++ exceptionRoutine linked ++
  irqNumbers.flatMap (irqStub linked) ++
  (List.range 32).flatMap fun num =>
    isrStub linked (BitVec.ofNat 8 num) ++
      if BitVec.ofNat 8 num ∈ isrErrNumbers then [.ret] else []

def linkedCode : Code := fun a => image[(a - 0xC0100000).toNat]?.map fun i => (i, a + 1)

theorem linkedCode_assembled : Assembled linked linkedCode where
  switchTo := exists_codeAt (by decide +kernel)
  interruptDispatcher := ⟨0xC0100000 + 25, 0xC0100000 + 26, codeAt_of_behind (by decide +kernel),
    codeAt_of_behind (by decide +kernel)⟩
  interruptRoutine := ⟨0xC0100000 + 45, 0xC0100000 + 49, 0xC0100000 + 50,
    codeAt_of_behind (by decide +kernel), codeAt_of_behind (by decide +kernel),
    codeAt_of_behind (by decide +kernel), codeAt_of_behind (by decide +kernel)⟩
  interruptExit := exists_codeAt (by decide +kernel)
  exceptionRoutine := exists_codeAt (by decide +kernel)
  irq num hnum := by
    have hall : ∀ num ∈ irqNumbers,
        (behind linkedCode (linked.irq num) (irqStub linked num)).isSome = true := by
      decide +kernel
    exact exists_codeAt (hall num hnum)
  isr num hnum := by
    have hall : ∀ num ∈ (List.range 32).map (BitVec.ofNat 8),
        (behind linkedCode (linked.isr num) (isrStub linked num)).isSome = true := by
      decide +kernel
    apply exists_codeAt
    apply hall
    refine List.mem_map.mpr ⟨num.toNat, List.mem_range.mpr hnum, ?_⟩
    simp

end Kfs.Arch
