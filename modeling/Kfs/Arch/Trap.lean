import Kfs.Arch.Descriptors
import Kfs.Proc.Signal

/-!
# Through a trap and back

The way of a trap through the stubs, `interrupt_routine`, `interrupt_dispatcher` and `interrupt_exit`
of `src/arch/x86/irq.s`, and through `exception_routine` of `src/arch/x86/isr.s`. The code leaves a
`struct trap_frame` on the stack for the C functions that it calls, and what these leave in it is what
the interrupted program goes on with.

The word of a segment register has the upper half of `eax` in its upper half: the code moves the
register to `ax` and pushes `eax`. Nothing reads that half.

## Layers

- `savedWords`, `line_saveRegisters`, `line_restoreRegisters`: the straight parts;
- `interruptRoutine_runs`, `interruptExit_runs`, ...: from one call to the next;
- `trap_round_trip`, `exception_round_trip`: the whole way.
-/

namespace Kfs.Arch

open Kfs.Lib Kfs.Lib.Asm Kfs.Proc WordMemory

variable {y : Symbols} {code : Code} {c : Cpu}

/-! ## Saving and restoring -/

/-- The upper half of the accumulator. -/
def eaxHigh (c : Cpu) : BitVec 16 := c.gprs.eax.extractLsb' 16 16

/-- The registers that are pushed, in that order. -/
def savedWords (c : Cpu) : List Word :=
  [c.gprs.eax, c.gprs.ecx, c.gprs.edx, c.gprs.ebx, c.gprs.esp, c.gprs.ebp, c.gprs.esi, c.gprs.edi,
    eaxHigh c ++ c.segs.ds, eaxHigh c ++ c.segs.es, eaxHigh c ++ c.segs.fs, eaxHigh c ++ c.segs.gs]

/-- The segments of the kernel. -/
def kernelSegs (s : Segs) : Segs := { s with ds := 0x10, es := 0x10, fs := 0x10, gs := 0x10 }

theorem extractLsb'_append_high (h l : BitVec 16) : (h ++ l : Word).extractLsb' 16 16 = h := by
  apply BitVec.eq_of_getLsbD_eq
  intro i hi
  simp only [BitVec.getLsbD_extractLsb', BitVec.getLsbD_append, hi]
  grind

theorem setWidth_append_low (h l : BitVec 16) : (h ++ l : Word).setWidth 16 = l := by
  apply BitVec.eq_of_getLsbD_eq
  intro i hi
  simp only [BitVec.getLsbD_setWidth, BitVec.getLsbD_append, hi]
  grind

/-- The registers lie on the stack, and the data segments are those of the kernel. -/
theorem line_saveRegisters (c : Cpu) : line saveRegisters c =
    { c.pushAll (savedWords c) with
      gprs := { (c.pushAll (savedWords c)).gprs with eax := eaxHigh c ++ 0x10#16 }
      segs := kernelSegs c.segs } := by
  simp only [saveRegisters, line_cons, line_nil, effect, Cpu.set, Cpu.get, Gprs.get, Gprs.set,
    Segs.get, Segs.set, Cpu.push, extractLsb'_append_high, setWidth_append_low, Cpu.pushAll,
    savedWords, List.foldl_cons, List.foldl_nil, eaxHigh, kernelSegs]
  rfl

/-- The registers are taken from the frame at the stack pointer. -/
theorem line_restoreRegisters {gs fs es ds edi esi ebp esp ebx edx ecx eax intNo errCode : Word}
    (h : WordsAt c.mem c.gprs.esp
      [gs, fs, es, ds, edi, esi, ebp, esp, ebx, edx, ecx, eax, intNo, errCode]) :
    ∃ flags, line restoreRegisters c = { c with
      gprs := ⟨eax, ecx, edx, ebx, c.gprs.esp + 56, ebp, esi, edi⟩
      segs := { c.segs with
        ds := ds.setWidth 16, es := es.setWidth 16, fs := fs.setWidth 16, gs := gs.setWidth 16 }
      eflags := flags } := by
  have h0 := h.head
  have h4 : load c.mem (c.gprs.esp + 4#32) = _ := h.get (i := 1) rfl
  have h8 : load c.mem (c.gprs.esp + 8#32) = _ := h.get (i := 2) rfl
  have h12 : load c.mem (c.gprs.esp + 12#32) = _ := h.get (i := 3) rfl
  have h16 : load c.mem (c.gprs.esp + 16#32) = _ := h.get (i := 4) rfl
  have h20 : load c.mem (c.gprs.esp + 20#32) = _ := h.get (i := 5) rfl
  have h24 : load c.mem (c.gprs.esp + 24#32) = _ := h.get (i := 6) rfl
  have h32 : load c.mem (c.gprs.esp + 32#32) = _ := h.get (i := 8) rfl
  have h36 : load c.mem (c.gprs.esp + 36#32) = _ := h.get (i := 9) rfl
  have h40 : load c.mem (c.gprs.esp + 40#32) = _ := h.get (i := 10) rfl
  have h44 : load c.mem (c.gprs.esp + 44#32) = _ := h.get (i := 11) rfl
  simp only [restoreRegisters, line_cons, line_nil, effect, Cpu.set, Cpu.get, Cpu.drop, Cpu.top,
    Gprs.get, Gprs.set, Segs.set, Cpu.setFlags, BitVec.add_assoc, BitVec.reduceAdd, BitVec.reduceMul,
    h0, h4, h8, h12, h16, h20, h24, h32, h36, h40, h44]
  exact ⟨_, rfl⟩

/-! ## From one call to the next -/

/-- The acknowledgements of an interrupt, the last one first: the second controller gets one for the
numbers from 40 on. -/
def acks (num : Word) : List (BitVec 8 × BitVec 8) :=
  if num.slt 40 then [(0x20, 0x20)] else [(0x20, 0x20), (0xA0, 0x20)]

/-- What `interrupt_dispatcher` is called with. -/
def handed (c : Cpu) (num flags back : Word) : Cpu :=
  let saved := c.pushAll (savedWords c)
  Cpu.pushAll [saved.gprs.esp, back] { saved with
    gprs := { saved.gprs with eax := saved.gprs.esp }
    segs := kernelSegs c.segs
    eflags := flags
    ports := acks num ++ c.ports }

theorem setWidth_append_byte (h : BitVec 24) (l : BitVec 8) : (h ++ l : Word).setWidth 8 = l := by
  apply BitVec.eq_of_getLsbD_eq
  intro i hi
  simp only [BitVec.getLsbD_setWidth, BitVec.getLsbD_append, hi]
  grind

theorem line_ackPic1 (c : Cpu) : line ackPic1 c = Cpu.push { c with
    gprs := { c.gprs with eax := c.gprs.esp }, ports := (0x20, 0x20) :: c.ports } c.gprs.esp := by
  have hzero : c.gprs.esp + 0 = c.gprs.esp := BitVec.add_zero _
  simp only [ackPic1, line_cons, line_nil, effect, Cpu.set, Cpu.get, Gprs.get, Gprs.set,
    setWidth_append_byte, hzero]

theorem line_ackPic2 (c : Cpu) : line ackPic2 c = { c with
    gprs := { c.gprs with eax := c.gprs.eax.extractLsb' 8 24 ++ 0x20#8 }
    ports := (0xA0, 0x20) :: c.ports } := by
  simp only [ackPic2, line_cons, line_nil, effect, Cpu.set, Gprs.set, setWidth_append_byte]
  rfl

/-- **Up to the dispatcher**, from the point where the number and the error code are on the stack. -/
theorem interruptRoutine_runs {num : Word} {ws : List Word} {skipPic2 callAt back : Word}
    (hnum : WordsAt c.mem c.gprs.esp (num :: ws)) (hlen : 4 * (ws.length + 13) ≤ 2 ^ 32)
    (henter : CodeAt code y.interruptRoutine (enter skipPic2 ++ ackPic2.map .op) skipPic2)
    (hack : CodeAt code skipPic2 (ackPic1.map .op) callAt)
    (hcall : CodeAt code callAt [.call y.interruptDispatcher] back) :
    ∃ flags, flags.getLsbD 9 = c.eflags.getLsbD 9 ∧ Runs code ⟨y.interruptRoutine, c⟩
      ⟨y.interruptDispatcher, handed c num flags back⟩ := by
  obtain ⟨a₁, henter, hack₂⟩ := codeAt_append.mp henter
  obtain ⟨a₂, hsave, hjl⟩ := codeAt_append.mp henter
  -- the number lies behind the registers
  have hframe : WordsAt (c.pushAll (savedWords c)).mem (c.pushAll (savedWords c)).gprs.esp _ :=
    Cpu.wordsAt_pushAll hnum
    (by rw [List.length_cons]; show 4 * (12 + _) ≤ _; omega)
  have hload : load (c.pushAll (savedWords c)).mem ((c.pushAll (savedWords c)).gprs.esp + 48) = num :=
    hframe.get (i := 12) rfl
  have hcmp := Runs.line (c := c) hsave
  rw [line_append, line_saveRegisters] at hcmp
  have hif : (c.pushAll (savedWords c)).eflags = c.eflags := by
    rw [Cpu.pushAll_eq]
  have hports : (c.pushAll (savedWords c)).ports = c.ports := by
    rw [Cpu.pushAll_eq]
  unfold handed
  generalize c.pushAll (savedWords c) = saved at *
  -- the comparison leaves the flags that the jump reads
  generalize hk : line [Op.load .eax .esp 48, .cmp .eax 40] _ = k at hcmp
  have hkeq : k = { saved with
      gprs := { saved.gprs with eax := num }
      segs := kernelSegs c.segs
      eflags := k.eflags } := by
    rw [← hk]
    simp only [line_cons, line_nil, effect, Cpu.set, Cpu.get, Gprs.get, Gprs.set, hload]
    rfl
  have hless : (k.signFlag != k.overflowFlag) = num.slt 40 := by
    rw [← hk]
    simp only [line_cons, line_nil, effect, Cpu.set, Cpu.get, Gprs.get, Gprs.set, hload]
    exact Cpu.less_setFlags _ num 40
  have hkif : k.eflags.getLsbD 9 = c.eflags.getLsbD 9 := by
    rw [← hk, ← hif]
    simp only [line_cons, line_nil, effect, Cpu.set, Cpu.get, Gprs.get, Gprs.set]
    exact Cpu.interruptFlag_setFlags _ _ _
  -- the second controller is acknowledged only where the jump is not taken
  have hbranch := Runs.jl (c := k) hjl
  rw [hless] at hbranch
  have hend : ∀ k' : Cpu, Runs code ⟨skipPic2, k'⟩
      ⟨y.interruptDispatcher, (line ackPic1 k').push back⟩ :=
    fun k' => (Runs.line hack).trans (Runs.call hcall)
  refine ⟨k.eflags, hkif, hcmp.trans (hbranch.trans ?_)⟩
  generalize k.eflags = flags at hkeq
  subst hkeq
  rw [← hports]
  unfold acks
  cases hslt : num.slt 40 with
  | true =>
    have hlast := hend { saved with
      gprs := { saved.gprs with eax := num }, segs := kernelSegs c.segs, eflags := flags }
    rw [line_ackPic1] at hlast
    exact hlast
  | false =>
    have hlast := (Runs.line hack₂).trans (hend (line ackPic2 { saved with
      gprs := { saved.gprs with eax := num }, segs := kernelSegs c.segs, eflags := flags }))
    rw [line_ackPic1, line_ackPic2] at hlast
    exact hlast

/-- **The dispatcher** jumps to the handler of the number, or returns where there is none. -/
theorem dispatcher_runs (h : Assembled y code) {back frame num handler : Word} {ws : List Word}
    (hargs : WordsAt c.mem c.gprs.esp (back :: frame :: ws))
    (hnum : load c.mem (frame + 48) = num)
    (hhandler : load c.mem (num <<< 2 + y.interruptHandlers) = handler) :
    ∃ flags, flags.getLsbD 9 = c.eflags.getLsbD 9 ∧ Runs code ⟨y.interruptDispatcher, c⟩
      (if handler = 0 then ⟨back, Cpu.drop { c with
        gprs := { c.gprs with eax := handler }, eflags := flags } 1⟩
      else ⟨handler, { c with gprs := { c.gprs with eax := handler }, eflags := flags }⟩) := by
  obtain ⟨noIntHandler, d, hdispatch, hret⟩ := h.interruptDispatcher
  obtain ⟨a₁, hload, hjump⟩ := codeAt_append.mp hdispatch
  obtain ⟨a₂, hjz, hjmp⟩ := codeAt_cons.mp hjump
  -- the argument of the dispatcher is the frame, and in it there is the number
  have hframe : load c.mem (c.gprs.esp + 4) = frame := hargs.get (i := 1) rfl
  have hline := Runs.line (c := c) hload
  generalize hk : line _ c = k at hline
  have hkeq : k = { c with gprs := { c.gprs with eax := handler }, eflags := k.eflags } := by
    rw [← hk]
    simp only [line_cons, line_nil, effect, Cpu.set, Cpu.get, Gprs.get, Gprs.set, hframe, hnum,
      Cpu.setFlags, hhandler]
  have hzero : k.zeroFlag = decide (handler = 0) := by
    rw [← hk]
    simp only [line_cons, line_nil, effect, Cpu.set, Cpu.get, Gprs.get, Gprs.set, hframe, hnum,
      Cpu.zeroFlag_setFlags, Cpu.setFlags_mem, Cpu.setFlags_gprs, hhandler, BitVec.and_self]
  have hkif : k.eflags.getLsbD 9 = c.eflags.getLsbD 9 := by
    rw [← hk]
    simp only [line_cons, line_nil, effect, Cpu.set, Cpu.get, Gprs.get, Gprs.set,
      Cpu.interruptFlag_setFlags]
  -- the handler is tested before the jump
  have hbranch := Runs.jz (c := k) hjz
  rw [hzero] at hbranch
  refine ⟨k.eflags, hkif, hline.trans (hbranch.trans ?_)⟩
  generalize k.eflags = flags at hkeq
  subst hkeq
  by_cases hhz : handler = 0
  · have hlast := Runs.ret (c := { c with
      gprs := { c.gprs with eax := handler }, eflags := flags }) hret
    have htop : c.top = back := hargs.head
    simp only [hhz, decide_true, if_true] at hlast ⊢
    rw [← htop]
    exact hlast
  · have hlast := Runs.jmpReg (c := { c with
      gprs := { c.gprs with eax := handler }, eflags := flags }) hjmp
    simp only [hhz, decide_false, if_false]
    exact hlast

/-! ## The frame of a program -/

/-- Where the frame of a trap from a program begins: the C functions know it as the last bytes of the
kernel stack. -/
def frameOf (y : Symbols) (u : Machine) : Word := load u.cpu.mem (y.gTss + 4) - 76

/-- The frame that the code leaves for a program. -/
def programFrame (y : Symbols) (u : Machine) (num errCode : Word) : TrapFrame where
  gs := eaxHigh u.cpu ++ u.cpu.segs.gs
  fs := eaxHigh u.cpu ++ u.cpu.segs.fs
  es := eaxHigh u.cpu ++ u.cpu.segs.es
  ds := eaxHigh u.cpu ++ u.cpu.segs.ds
  edi := u.cpu.gprs.edi
  esi := u.cpu.gprs.esi
  ebp := u.cpu.gprs.ebp
  esp := frameOf y u + 48
  ebx := u.cpu.gprs.ebx
  edx := u.cpu.gprs.edx
  ecx := u.cpu.gprs.ecx
  eax := u.cpu.gprs.eax
  intNo := num
  errCode := errCode
  eip := u.eip
  cs := u.cpu.segs.cs.setWidth 32
  eflags := u.cpu.eflags
  userEsp := u.cpu.gprs.esp
  userSs := u.cpu.segs.ss.setWidth 32

/-- The state behind a stub. -/
def stubbed (y : Symbols) (u : Machine) (num errCode : Word) : Cpu :=
  let c := u.cpu
  let inner : Cpu := { c with
    gprs := { c.gprs with esp := load c.mem (y.gTss + 4) }
    segs := { c.segs with cs := 0x08, ss := 0x10 }
    eflags := c.eflags &&& ~~~0x34300#32 &&& ~~~0x200#32 }
  inner.pushAll [c.segs.ss.setWidth 32, c.gprs.esp, c.eflags, c.segs.cs.setWidth 32, u.eip, errCode,
    num]

variable {u : Machine}

theorem irqStub_runs (h : Assembled y code) {num : BitVec 8} (hnum : num ∈ irqNumbers) :
    Runs code ⟨y.irq num, trapped y u⟩
      ⟨y.interruptRoutine, stubbed y u (num.setWidth 32) 0⟩ := by
  obtain ⟨d, hstub⟩ := h.irq num hnum
  obtain ⟨a, hline, hjmp⟩ := codeAt_append.mp hstub
  exact (Runs.line hline).trans (Runs.jmp hjmp)

/-- The stubs push an error code where the processor has not. -/
theorem isrStub_runs (h : Assembled y code) {num : BitVec 8} (hnum : num < 32)
    {errCode : Option Word} (herr : errCode.isSome = true ↔ num ∈ isrErrNumbers) :
    Runs code ⟨y.isr num, (trapped y u).pushAll errCode.toList⟩
      ⟨y.exceptionRoutine, stubbed y u (num.setWidth 32) (errCode.getD 0)⟩ := by
  obtain ⟨d, hstub⟩ := h.isr num hnum
  unfold isrStub at hstub
  cases errCode with
  -- zero stands for the error code that is not there
  | none =>
    have hno : num ∉ isrErrNumbers := fun hin => Bool.noConfusion (herr.mpr hin)
    rw [if_neg hno] at hstub
    obtain ⟨a, hline, hjmp⟩ := codeAt_append.mp hstub
    exact (Runs.line hline).trans (Runs.jmp hjmp)
  | some e =>
    rw [if_pos (herr.mp rfl)] at hstub
    obtain ⟨a, hline, hjmp⟩ := codeAt_append.mp hstub
    exact (Runs.line hline).trans (Runs.jmp hjmp)

section Frame

variable (y : Symbols) (u : Machine) (num errCode : Word)

theorem stubbed_gprs :
    (stubbed y u num errCode).gprs = { u.cpu.gprs with esp := frameOf y u + 48 } := by
  have hat : load u.cpu.mem (y.gTss + 4) - BitVec.ofNat 32 (4 * 7) = frameOf y u + 48 := by
    unfold frameOf
    grind
  unfold stubbed
  rw [Cpu.pushAll_eq, ← hat]
  rfl

theorem stubbed_segs :
    (stubbed y u num errCode).segs = { u.cpu.segs with cs := 0x08, ss := 0x10 } := by
  simp only [stubbed, Cpu.pushAll_segs]

/-- Interrupts are off behind a stub. -/
theorem stubbed_interrupts : (stubbed y u num errCode).eflags.getLsbD 9 = false := by
  simp [stubbed]

theorem stubbed_ports : (stubbed y u num errCode).ports = u.cpu.ports := by
  simp only [stubbed, Cpu.pushAll_ports]

theorem stubbed_cr3 : (stubbed y u num errCode).cr3 = u.cpu.cr3 := by
  simp only [stubbed, Cpu.pushAll_cr3]

/-- The words on the stack behind a stub. -/
theorem wordsAt_stubbed : WordsAt (stubbed y u num errCode).mem (stubbed y u num errCode).gprs.esp
    [num, errCode, u.eip, u.cpu.segs.cs.setWidth 32, u.cpu.eflags, u.cpu.gprs.esp,
      u.cpu.segs.ss.setWidth 32] :=
  Cpu.wordsAt_pushAll (wordsAt_nil.mpr trivial) (by simp)

theorem stubbed_sameBut : SameBut (frameOf y u + 48) 28 u.cpu.mem (stubbed y u num errCode).mem := by
  have hpush := Cpu.pushAll_sameBut { u.cpu with
    gprs := { u.cpu.gprs with esp := load u.cpu.mem (y.gTss + 4) }
    segs := { u.cpu.segs with cs := 0x08, ss := 0x10 }
    eflags := u.cpu.eflags &&& ~~~0x34300#32 &&& ~~~0x200#32 }
    [u.cpu.segs.ss.setWidth 32, u.cpu.gprs.esp, u.cpu.eflags, u.cpu.segs.cs.setWidth 32, u.eip,
      errCode, num] (by simp)
  have hat : load u.cpu.mem (y.gTss + 4) - BitVec.ofNat 32 (4 * 7) = frameOf y u + 48 := by
    unfold frameOf
    grind
  rw [← hat]
  exact hpush

/-- The registers that the routine saves are those of the program. -/
theorem frame_words : (savedWords (stubbed y u num errCode)).reverse ++ [num, errCode, u.eip,
    u.cpu.segs.cs.setWidth 32, u.cpu.eflags, u.cpu.gprs.esp, u.cpu.segs.ss.setWidth 32] =
      (programFrame y u num errCode).words := by
  simp only [savedWords, eaxHigh, stubbed_gprs, stubbed_segs]
  rfl

/-- The state with the frame on the stack. -/
def framed : Cpu := (stubbed y u num errCode).pushAll (savedWords (stubbed y u num errCode))

theorem framed_esp : (framed y u num errCode).gprs.esp = frameOf y u := by
  unfold framed
  rw [Cpu.pushAll_esp, stubbed_gprs]
  exact BitVec.add_sub_cancel _ _

theorem framed_cr3 : (framed y u num errCode).cr3 = u.cpu.cr3 := by
  simp only [framed, Cpu.pushAll_cr3, stubbed_cr3]

theorem framed_interrupts : (framed y u num errCode).eflags.getLsbD 9 = false := by
  simp only [framed, Cpu.pushAll_eflags, stubbed_interrupts]

theorem framed_ports : (framed y u num errCode).ports = u.cpu.ports := by
  simp only [framed, Cpu.pushAll_ports, stubbed_ports]

theorem wordsAt_framed : WordsAt (framed y u num errCode).mem (frameOf y u)
    (programFrame y u num errCode).words := by
  rw [← frame_words, ← framed_esp y u num errCode]
  exact Cpu.wordsAt_pushAll (wordsAt_stubbed y u num errCode) (by simp [savedWords])

/-- With the argument and the return address of a call. -/
theorem wordsAt_called (back : Word) :
    WordsAt (Cpu.pushAll [frameOf y u, back] (framed y u num errCode)).mem (frameOf y u - 8)
      (back :: frameOf y u :: (programFrame y u num errCode).words) := by
  have hwords := wordsAt_framed y u num errCode
  rw [← framed_esp y u num errCode] at hwords
  have hcall : WordsAt (Cpu.pushAll [frameOf y u, back] (framed y u num errCode)).mem
      (Cpu.pushAll [frameOf y u, back] (framed y u num errCode)).gprs.esp _ :=
    Cpu.wordsAt_pushAll hwords (by simp [TrapFrame.words])
  rw [Cpu.pushAll_esp, framed_esp] at hcall
  exact hcall

/-- All that is written are the eighty-four bytes at the top of the kernel stack. -/
theorem called_sameBut (back : Word) : SameBut (frameOf y u - 8) 84 u.cpu.mem
    (Cpu.pushAll [frameOf y u, back] (framed y u num errCode)).mem := by
  have hframe : SameBut (frameOf y u) 48 (stubbed y u num errCode).mem
      (framed y u num errCode).mem := by
    have hpush := (stubbed y u num errCode).pushAll_sameBut (savedWords (stubbed y u num errCode))
      (by simp [savedWords])
    have hat : (stubbed y u num errCode).gprs.esp - BitVec.ofNat 32 (4 * 12) = frameOf y u := by
      rw [stubbed_gprs]
      exact BitVec.add_sub_cancel _ _
    rw [← hat]
    exact hpush
  have hcall : SameBut (frameOf y u - 8) 8 (framed y u num errCode).mem
      (Cpu.pushAll [frameOf y u, back] (framed y u num errCode)).mem := by
    have hpush := (framed y u num errCode).pushAll_sameBut [frameOf y u, back] (by simp)
    rw [framed_esp] at hpush
    exact hpush
  -- the stub, the routine and the call write three neighbouring parts
  have h₁ : SameBut (frameOf y u - 8) 84 u.cpu.mem (stubbed y u num errCode).mem :=
    (stubbed_sameBut y u num errCode).mono (by bv_omega) (by decide)
  have h₂ := hframe.mono (a := frameOf y u - 8) (n := 84) (by bv_omega) (by decide)
  have h₃ := hcall.mono (a := frameOf y u - 8) (n := 84) (by bv_omega) (by decide)
  exact (h₁.trans h₂).trans h₃

end Frame

/-- What a C function that gets a trap frame is called with; `sent` are the acknowledgements. -/
structure AtHandler (y : Symbols) (u : Machine) (num errCode handler : Word)
    (sent : List (BitVec 8 × BitVec 8)) (m : Machine) : Prop where
  eip : m.eip = handler
  esp : m.cpu.gprs.esp = frameOf y u - 8
  argument : load m.cpu.mem (m.cpu.gprs.esp + 4) = frameOf y u
  frame : WordsAt m.cpu.mem (frameOf y u) (programFrame y u num errCode).words
  segs : m.cpu.segs = ⟨0x08, 0x10, 0x10, 0x10, 0x10, 0x10⟩
  /-- Interrupts are off. -/
  interrupts : m.cpu.eflags.getLsbD 9 = false
  cr3 : m.cpu.cr3 = u.cpu.cr3
  ports : m.cpu.ports = sent ++ u.cpu.ports
  others : SameBut (frameOf y u - 8) 84 u.cpu.mem m.cpu.mem

/-! ## Into the handler -/

/-- The place of a number in `interrupt_handlers`. -/
def handlerSlot (y : Symbols) (num : BitVec 8) : Word := y.interruptHandlers + 4 * num.setWidth 32

theorem handlerSlot_eq (y : Symbols) (num : BitVec 8) :
    num.setWidth 32 <<< 2 + y.interruptHandlers = handlerSlot y num := by
  unfold handlerSlot
  bv_omega

/-- The state behind the call of a C function with the frame. -/
theorem atHandler_of {num errCode handler back : Word} {sent : List (BitVec 8 × BitVec 8)} {m : Machine}
    (heip : m.eip = handler) (hesp : m.cpu.gprs.esp = frameOf y u - 8)
    (hmem : m.cpu.mem = (Cpu.pushAll [frameOf y u, back] (framed y u num errCode)).mem)
    (hsegs : m.cpu.segs = ⟨0x08, 0x10, 0x10, 0x10, 0x10, 0x10⟩)
    (hif : m.cpu.eflags.getLsbD 9 = false) (hcr3 : m.cpu.cr3 = u.cpu.cr3)
    (hports : m.cpu.ports = sent ++ u.cpu.ports) :
    AtHandler y u num errCode handler sent m ∧ m.cpu.top = back := by
  have hwords := wordsAt_called y u num errCode back
  rw [← hmem] at hwords
  have hframe : frameOf y u - 8 + 4 + 4 = frameOf y u := by grind
  refine ⟨⟨heip, hesp, ?_, ?_, hsegs, hif, hcr3, hports, ?_⟩, ?_⟩
  · rw [hesp]
    exact hwords.tail.head
  · have htf := hwords.tail.tail
    rw [hframe] at htf
    exact htf
  · rw [hmem]
    exact called_sameBut y u num errCode back
  · unfold Cpu.top
    rw [hesp]
    exact hwords.head

/-- What the dispatcher is called with. -/
theorem handed_stubbed (y : Symbols) (u : Machine) (num flags back : Word) :
    handed (stubbed y u num 0) num flags back =
      Cpu.pushAll [frameOf y u, back] { framed y u num 0 with
        gprs := { (framed y u num 0).gprs with eax := frameOf y u }
        segs := ⟨0x08, 0x10, 0x10, 0x10, 0x10, 0x10⟩
        eflags := flags
        ports := acks num ++ u.cpu.ports } := by
  have hframed : (stubbed y u num 0).pushAll (savedWords (stubbed y u num 0)) = framed y u num 0 :=
    rfl
  unfold handed kernelSegs
  simp only [hframed, framed_esp, stubbed_segs, stubbed_ports]

/-- **An interrupt of a program**, up to the handler; where there is none, up to the end of the
dispatcher. -/
theorem irq_enters (h : Assembled y code) {num : BitVec 8} (hnum : num ∈ irqNumbers) {handler : Word}
    (hhandler : load u.cpu.mem (handlerSlot y num) = handler)
    (hap : Apart (frameOf y u - 8) 84 (handlerSlot y num) 4) :
    ∃ m back, AtHandler y u (num.setWidth 32) 0 handler (acks (num.setWidth 32)) m ∧
      m.cpu.top = back ∧ CodeAt code back ([Op.add .esp 4].map .op) y.interruptExit ∧
      Runs code ⟨y.irq num, trapped y u⟩ (if handler = 0 then ⟨back, m.cpu.drop 1⟩ else m) := by
  obtain ⟨skipPic2, callAt, back, henter, hack, hcall, hback⟩ := h.interruptRoutine
  obtain ⟨flags, hif, hroutine⟩ := interruptRoutine_runs
    (wordsAt_stubbed y u (num.setWidth 32) 0) (by simp) henter hack hcall
  rw [handed_stubbed] at hroutine
  -- the state at the dispatcher, component by component
  generalize hk : Cpu.pushAll [frameOf y u, back] _ = k at hroutine
  have hkmem : k.mem =
      (Cpu.pushAll [frameOf y u, back] (framed y u (num.setWidth 32) 0)).mem := by
    rw [← hk]
    rfl
  have hkesp : k.gprs.esp = frameOf y u - 8 := by
    rw [← hk, Cpu.pushAll_esp]
    simp only [framed_esp]
    rfl
  have hkrest : k.segs = ⟨0x08, 0x10, 0x10, 0x10, 0x10, 0x10⟩ ∧ k.eflags = flags ∧
      k.cr3 = u.cpu.cr3 ∧ k.ports = acks (num.setWidth 32) ++ u.cpu.ports := by
    rw [← hk]
    simp only [Cpu.pushAll_segs, Cpu.pushAll_eflags, Cpu.pushAll_cr3, Cpu.pushAll_ports, framed_cr3,
      and_self]
  have hargs : WordsAt k.mem k.gprs.esp
      (back :: frameOf y u :: (programFrame y u (num.setWidth 32) 0).words) := by
    rw [hkmem, hkesp]
    exact wordsAt_called y u _ 0 back
  have hframe : load k.mem (frameOf y u + 48) = num.setWidth 32 := by
    have hget : load k.mem (k.gprs.esp + 56#32) = _ := hargs.get (i := 14) rfl
    have hat : frameOf y u - 8 + 56#32 = frameOf y u + 48 := by grind
    rw [hkesp, hat] at hget
    exact hget
  -- the table of handlers is not in what has been written
  have hslot : load k.mem (num.setWidth 32 <<< 2 + y.interruptHandlers) = handler := by
    rw [handlerSlot_eq, hkmem, ← hhandler]
    exact load_congr ((called_sameBut y u _ 0 back).sameOn hap)
  obtain ⟨flags', hif', hdispatch⟩ := dispatcher_runs h hargs hframe hslot
  obtain ⟨hat, htop⟩ := atHandler_of
    (m := ⟨handler, { k with gprs := { k.gprs with eax := handler }, eflags := flags' }⟩)
    rfl hkesp hkmem hkrest.1 (by rw [hif', hkrest.2.1, hif, stubbed_interrupts]) hkrest.2.2.1
    hkrest.2.2.2
  exact ⟨_, back, hat, htop, hback, ((irqStub_runs h hnum).trans hroutine).trans hdispatch⟩

/-- **An exception of a program**, up to `exception_handler`. -/
theorem exception_enters (h : Assembled y code) {num : BitVec 8} (hnum : num < 32)
    {errCode : Option Word} (herr : errCode.isSome = true ↔ num ∈ isrErrNumbers) :
    ∃ m back d, AtHandler y u (num.setWidth 32) (errCode.getD 0) y.exceptionHandler [] m ∧
      m.cpu.top = back ∧
      CodeAt code back ((.add .esp 4 :: restoreRegisters).map .op ++ [.iret]) d ∧
      Runs code ⟨y.isr num, (trapped y u).pushAll errCode.toList⟩ m := by
  obtain ⟨d, hroutine⟩ := h.exceptionRoutine
  unfold exceptionRoutine at hroutine
  rw [List.append_assoc, List.append_assoc] at hroutine
  obtain ⟨callAt, hsave, hrest⟩ := codeAt_append.mp hroutine
  obtain ⟨back, hcall, hback⟩ := codeAt_append.mp hrest
  have hline := Runs.line (c := stubbed y u (num.setWidth 32) (errCode.getD 0)) hsave
  have hframed : (stubbed y u (num.setWidth 32) (errCode.getD 0)).pushAll
      (savedWords (stubbed y u (num.setWidth 32) (errCode.getD 0))) =
        framed y u (num.setWidth 32) (errCode.getD 0) := rfl
  have hzero : frameOf y u + 0 = frameOf y u := BitVec.add_zero _
  rw [line_append, line_saveRegisters, hframed] at hline
  simp only [line_cons, line_nil, effect, Cpu.set, Cpu.get, Gprs.get, Gprs.set, framed_esp, hzero]
    at hline
  have hrun := ((isrStub_runs h hnum herr).trans hline).trans (Runs.call hcall)
  -- the state at the C function, component by component
  generalize hk : Cpu.push (Cpu.push _ (frameOf y u)) back = k at hrun
  have hkmem : k.mem = (Cpu.pushAll [frameOf y u, back]
      (framed y u (num.setWidth 32) (errCode.getD 0))).mem := by
    rw [← hk]
    simp only [Cpu.pushAll, List.foldl_cons, List.foldl_nil, Cpu.push, framed_esp]
  have hkesp : k.gprs.esp = frameOf y u - 8 := by
    rw [← hk]
    simp only [Cpu.push_esp]
    grind
  have hksegs : k.segs = ⟨0x08, 0x10, 0x10, 0x10, 0x10, 0x10⟩ := by
    rw [← hk]
    simp only [Cpu.push, kernelSegs, stubbed_segs]
  have hkif : k.eflags.getLsbD 9 = false := by
    rw [← hk]
    simp only [Cpu.push, framed_interrupts]
  have hkcr3 : k.cr3 = u.cpu.cr3 := by
    rw [← hk]
    simp only [Cpu.push, framed_cr3]
  have hkports : k.ports = [] ++ u.cpu.ports := by
    rw [← hk]
    simp only [Cpu.push, framed_ports, List.nil_append]
  obtain ⟨hat, htop⟩ := atHandler_of (m := ⟨y.exceptionHandler, k⟩) rfl hkesp hkmem hksegs hkif hkcr3
    hkports
  exact ⟨_, back, d, hat, htop, hback, hrun⟩

/-! ## Back to the program -/

/-- The frame is one of a program: so are the selectors that are taken from it. -/
structure ToUser (tf : TrapFrame) : Prop where
  cs : tf.cs.setWidth 16 = (0x1B : BitVec 16)
  ss : tf.userSs.setWidth 16 = (0x23 : BitVec 16)
  ds : IsUserData (tf.ds.setWidth 16)
  es : IsUserData (tf.es.setWidth 16)
  fs : IsUserData (tf.fs.setWidth 16)
  gs : IsUserData (tf.gs.setWidth 16)

/-- The program that a frame holds. -/
def resume (tf : TrapFrame) (c : Cpu) : Machine where
  eip := tf.eip
  cpu := { c with
    gprs := ⟨tf.eax, tf.ecx, tf.edx, tf.ebx, tf.userEsp, tf.ebp, tf.esi, tf.edi⟩
    segs := ⟨tf.cs.setWidth 16, tf.userSs.setWidth 16, tf.ds.setWidth 16, tf.es.setWidth 16,
      tf.fs.setWidth 16, tf.gs.setWidth 16⟩
    eflags := tf.eflags }

/-- The registers are restored and the program goes on. -/
theorem restore_runs {tf : TrapFrame} {a d : Word} (htf : ToUser tf)
    (hcode : CodeAt code a (restoreRegisters.map .op ++ [.iret]) d)
    (hframe : WordsAt c.mem c.gprs.esp tf.words) (hcs : c.segs.cs = 0x08) (hgdt : GdtAt y c) :
    Runs code ⟨a, c⟩ (resume tf c) := by
  obtain ⟨b, hline, hiret⟩ := codeAt_append.mp hcode
  have hregs : WordsAt c.mem c.gprs.esp ([tf.gs, tf.fs, tf.es, tf.ds, tf.edi, tf.esi, tf.ebp, tf.esp,
      tf.ebx, tf.edx, tf.ecx, tf.eax, tf.intNo, tf.errCode] ++ [tf.eip, tf.cs, tf.eflags, tf.userEsp,
      tf.userSs]) := hframe
  obtain ⟨hregs, hrest⟩ := wordsAt_append.mp hregs
  obtain ⟨flags, hrestore⟩ := line_restoreRegisters hregs
  have hrun := Runs.line (c := c) hline
  rw [hrestore] at hrun
  refine hrun.trans (Runs.iret hiret ?_)
  have h56 : c.gprs.esp + BitVec.ofNat 32 (4 * 14) = c.gprs.esp + 56 := rfl
  -- the five words that the processor has pushed
  have heip : load c.mem (c.gprs.esp + 56) = tf.eip := hrest.head
  have hcsw : load c.mem (c.gprs.esp + 56 + 4) = tf.cs := hrest.get (i := 1) rfl
  have hflags : load c.mem (c.gprs.esp + 56 + 8) = tf.eflags := hrest.get (i := 2) rfl
  have huesp : load c.mem (c.gprs.esp + 56 + 12) = tf.userEsp := hrest.get (i := 3) rfl
  have hss : load c.mem (c.gprs.esp + 56 + 16) = tf.userSs := hrest.get (i := 4) rfl
  -- the data segments are those of the user and stay
  have hseg : ∀ {selector : BitVec 16}, IsUserData selector → c.outerSeg 3 selector = selector :=
    fun hsel => hgdt.outerSeg_user hsel
  have hlevel : level (0x1B : BitVec 16) = 3 := rfl
  have hkernel : level 0x08 = 0 := rfl
  simp only [Machine.iret, heip, hcsw, hflags, huesp, hss, hcs, htf.cs, hlevel, hkernel]
  rw [if_neg (by decide), if_pos (by decide)]
  refine congrArg (fun segs => some (Machine.mk tf.eip { c with
    gprs := ⟨tf.eax, tf.ecx, tf.edx, tf.ebx, tf.userEsp, tf.ebp, tf.esi, tf.edi⟩
    segs := segs
    eflags := tf.eflags })) ?_
  exact Segs.ext htf.cs.symm rfl (hseg htf.ds) (hseg htf.es) (hseg htf.fs) (hseg htf.gs)

/-- A machine with a trap frame is at `signal_call_curtask_handlers`, and behind its return the
program that the frame then holds goes on, unless the segments have been changed. -/
structure AtSignals (y : Symbols) (code : Code) (frame : Word) (s : Machine) : Prop where
  eip : s.eip = y.signalCallCurtaskHandlers
  esp : s.cpu.gprs.esp = frame - 4
  back : ∀ s' tf, Returned s s' → GdtAt y s'.cpu → WordsAt s'.cpu.mem frame tf.words → ToUser tf →
    Runs code s' (resume tf s'.cpu)

/-- **`interrupt_exit`**, with a frame on top of the stack. -/
theorem interruptExit_runs (h : Assembled y code) (hcs : c.segs.cs = 0x08) :
    ∃ s, Runs code ⟨y.interruptExit, c⟩ s ∧ AtSignals y code c.gprs.esp s ∧
      SameBut (c.gprs.esp - 4) 4 c.mem s.cpu.mem := by
  obtain ⟨d, hexit⟩ := h.interruptExit
  obtain ⟨back, hcall, hrestore⟩ := codeAt_cons.mp hexit
  refine ⟨_, Runs.call hcall, ⟨rfl, rfl, ?_⟩, ?_⟩
  · intro s' tf hret hgdt hframe htf
    have heip : s'.eip = back := hret.eip.trans (load_store _ _ _)
    have hesp : s'.cpu.gprs.esp = c.gprs.esp := hret.esp.trans (BitVec.sub_add_cancel _ _)
    have hcs' : s'.cpu.segs.cs = 0x08 := hret.cs.trans hcs
    have hrun := restore_runs (c := s'.cpu) htf hrestore (by rw [hesp]; exact hframe) hcs'
      hgdt
    rw [← heip] at hrun
    exact hrun
  · apply SameBut.store _ (by decide)
    rw [BitVec.sub_self]
    decide

/-- The argument of a call is dropped. -/
theorem line_dropArgument (c : Cpu) : ∃ flags, line [Op.add .esp 4] c = { c with
    gprs := { c.gprs with esp := c.gprs.esp + 4 }, eflags := flags } := ⟨_, rfl⟩

/-- Behind a handler, or behind the dispatcher where there is none. -/
theorem handled_runs (h : Assembled y code) {back : Word} {k : Machine}
    (hback : CodeAt code back ([Op.add .esp 4].map .op) y.interruptExit) (heip : k.eip = back)
    (hesp : k.cpu.gprs.esp = frameOf y u - 4) (hcs : k.cpu.segs.cs = 0x08) :
    ∃ s, Runs code k s ∧ AtSignals y code (frameOf y u) s ∧
      SameBut (frameOf y u - 4) 4 k.cpu.mem s.cpu.mem := by
  obtain ⟨flags, hdrop⟩ := line_dropArgument k.cpu
  have hline := Runs.line (c := k.cpu) hback
  have hat : frameOf y u - 4 + 4 = frameOf y u := BitVec.sub_add_cancel _ _
  rw [hdrop, hesp, hat] at hline
  obtain ⟨s, hrun, hs, hmem⟩ := interruptExit_runs h
    (c := { k.cpu with gprs := { k.cpu.gprs with esp := frameOf y u }, eflags := flags }) hcs
  refine ⟨s, ?_, hs, hmem⟩
  rw [← heip] at hline
  exact hline.trans hrun

/-- The program that the frame of a trap holds is the one that was interrupted. -/
theorem resume_programFrame (y : Symbols) (u : Machine) (num errCode : Word) (c : Cpu) :
    resume (programFrame y u num errCode) c = ⟨u.eip, { c with
      gprs := u.cpu.gprs, segs := u.cpu.segs, eflags := u.cpu.eflags }⟩ := by
  have hwide : ∀ x : BitVec 16, (x.setWidth 32).setWidth 16 = x := by
    intro x
    simp
  unfold resume programFrame
  simp only [setWidth_append_low, hwide]

theorem programFrame_toUser (hu : IsUserMode u.cpu) (num errCode : Word) :
    ToUser (programFrame y u num errCode) := by
  have hds := hu.data .ds
  have hes := hu.data .es
  have hfs := hu.data .fs
  have hgs := hu.data .gs
  constructor <;> simp only [programFrame, setWidth_append_low]
  · rw [hu.cs]
    rfl
  · rw [hu.ss]
    rfl
  · exact hds
  · exact hes
  · exact hfs
  · exact hgs

/-- **A hardware interrupt or a system call of a program.** The handler of its number is called with the
address of a frame that holds the program, with interrupts off and the interrupt acknowledged; what
it and `signal_call_curtask_handlers` leave in the frame is the program that goes on. Where they leave
it and the segments as they were, that is the one that was interrupted. -/
theorem trap_round_trip (h : Assembled y code) (hi : Initialised y u.cpu) (hu : IsUserMode u.cpu)
    {soft : Bool} {num : BitVec 8} (hnum : num ∈ irqNumbers) (hsoft : soft = true → num = 0x80)
    {handler : Word} (hhandler : load u.cpu.mem (handlerSlot y num) = handler) (hne : handler ≠ 0)
    (hap : Apart (frameOf y u - 8) 84 (handlerSlot y num) 4) :
    ∃ e m, u.deliver soft num none = some e ∧ Runs code e m ∧
      AtHandler y u (num.setWidth 32) 0 handler (acks (num.setWidth 32)) m ∧
      ∀ m', Returned m m' → ∃ s, Runs code m' s ∧ AtSignals y code (frameOf y u) s ∧
        SameBut (frameOf y u - 4) 4 m'.cpu.mem s.cpu.mem ∧
        (∀ s', Returned s s' → GdtAt y s'.cpu →
          WordsAt s'.cpu.mem (frameOf y u) (programFrame y u (num.setWidth 32) 0).words →
          Runs code s' ⟨u.eip, { s'.cpu with
            gprs := u.cpu.gprs, segs := u.cpu.segs, eflags := u.cpu.eflags }⟩) := by
  have hentry : num ∈ idtNumbers ∧ ¬ num < 32 := by
    have hall : ∀ n ∈ irqNumbers, n ∈ idtNumbers ∧ ¬ n < 32 := by decide
    exact hall num hnum
  have hdeliver := hi.deliver_user hu.level soft num none
  rw [if_pos ⟨hentry.1, hsoft⟩] at hdeliver
  have hstub : y.stub num = y.irq num := if_neg hentry.2
  obtain ⟨m, back, hat, htop, hback, hrun⟩ := irq_enters h hnum hhandler hap
  rw [if_neg hne] at hrun
  refine ⟨_, m, hdeliver, ?_, hat, fun m' hret => ?_⟩
  · rw [hstub]
    exact hrun
  · have hesp : m'.cpu.gprs.esp = frameOf y u - 4 := by
      rw [hret.esp, hat.esp]
      grind
    obtain ⟨s, hsrun, hs, hmem⟩ := handled_runs h hback (hret.eip.trans htop) hesp
      (hret.cs.trans (congrArg Segs.cs hat.segs))
    refine ⟨s, hsrun, hs, hmem, fun s' hret' hgdt hframe => ?_⟩
    rw [← resume_programFrame y u (num.setWidth 32) 0]
    exact hs.back s' _ hret' hgdt hframe (programFrame_toUser hu _ 0)

/-- **An exception of a program**, for every exception whose stub knows whether the processor pushes an
error code. What `exception_handler` leaves in the frame is the program that goes on. -/
theorem exception_round_trip (h : Assembled y code) (hi : Initialised y u.cpu)
    (hu : IsUserMode u.cpu) {num : BitVec 8} (hnum : num < 32) {errCode : Option Word}
    (herr : errCode.isSome = true ↔ num ∈ isrErrNumbers) :
    ∃ e m, u.deliver false num errCode = some e ∧ Runs code e m ∧
      AtHandler y u (num.setWidth 32) (errCode.getD 0) y.exceptionHandler [] m ∧
      ∀ m' tf, Returned m m' → GdtAt y m'.cpu → WordsAt m'.cpu.mem (frameOf y u) tf.words →
        ToUser tf → Runs code m' (resume tf m'.cpu) := by
  have hentry : num ∈ idtNumbers := by
    refine List.mem_append_left _ (List.mem_map.mpr ⟨num.toNat, List.mem_range.mpr ?_, by simp⟩)
    have hlt : num.toNat < 32 := hnum
    omega
  have hdeliver := hi.deliver_user hu.level false num errCode
  rw [if_pos ⟨hentry, fun hsoft => Bool.noConfusion hsoft⟩] at hdeliver
  have hstub : y.stub num = y.isr num := if_pos hnum
  obtain ⟨m, back, d, hat, htop, hback, hrun⟩ := exception_enters h hnum herr
  refine ⟨_, m, hdeliver, ?_, hat, fun m' tf hret hgdt hframe htf => ?_⟩
  · rw [hstub]
    exact hrun
  · have hesp : m'.cpu.gprs.esp = frameOf y u - 4 := by
      rw [hret.esp, hat.esp]
      grind
    have hcs : m'.cpu.segs.cs = 0x08 := hret.cs.trans (congrArg Segs.cs hat.segs)
    obtain ⟨a, hadd, hrestore⟩ := codeAt_cons.mp hback
    obtain ⟨flags, hdrop⟩ := line_dropArgument m'.cpu
    have hadd' : CodeAt code back (List.map Instr.op [.add .esp 4]) a := hadd
    have hline := Runs.line (c := m'.cpu) hadd'
    have hat' : frameOf y u - 4 + 4 = frameOf y u := BitVec.sub_add_cancel _ _
    rw [hdrop, hesp, hat', ← hret.eip.trans htop] at hline
    have hlast := restore_runs htf hrestore hframe hcs hgdt
      (c := { m'.cpu with gprs := { m'.cpu.gprs with esp := frameOf y u }, eflags := flags })
    exact hline.trans hlast

/-! ## A system call of the linked program -/

/-- The linked program, with `do_syscall` as the handler of the number 128. -/
def syscallProgram : Machine :=
  linkedProgram (store (fun _ => 0) (handlerSlot linked 0x80) 0xC0120000)

theorem trap_round_trip_syscall : ∃ e m, syscallProgram.deliver true 0x80 none = some e ∧
    Runs linkedCode e m ∧ m.eip = 0xC0120000 ∧
    ∀ m', Returned m m' → ∃ s, Runs linkedCode m' s ∧ s.eip = linked.signalCallCurtaskHandlers := by
  have hnum : (0x80 : BitVec 8) ∈ irqNumbers := by decide
  have hsoft : true = true → (0x80 : BitVec 8) = 0x80 := fun _ => rfl
  have hhandler : load syscallProgram.cpu.mem (handlerSlot linked 0x80) = 0xC0120000 := by
    decide +kernel
  obtain ⟨e, m, hdeliver, hrun, hat, hrest⟩ := trap_round_trip linkedCode_assembled
    (linkedProgram_initialised _) (linkedProgram_isUserMode _) hnum hsoft hhandler (by decide)
    (apart_of_sub (by decide +kernel) (by decide +kernel))
  refine ⟨e, m, hdeliver, hrun, hat.eip, fun m' hret => ?_⟩
  obtain ⟨s, hs, hsignals, -⟩ := hrest m' hret
  exact ⟨s, hs, hsignals.eip⟩

theorem exception_round_trip_page_fault : ∃ e m,
    syscallProgram.deliver false 14 (some 4) = some e ∧ Runs linkedCode e m ∧
      AtHandler linked syscallProgram 14 4 linked.exceptionHandler [] m := by
  have hnum : (14 : BitVec 8) < 32 := by decide
  have herr : (some (4 : Word)).isSome = true ↔ (14 : BitVec 8) ∈ isrErrNumbers := by decide
  obtain ⟨e, m, hdeliver, hrun, hat, -⟩ := exception_round_trip linkedCode_assembled
    (linkedProgram_initialised _) (linkedProgram_isUserMode (store (fun _ => 0)
      (handlerSlot linked 0x80) 0xC0120000)) hnum herr
  exact ⟨e, m, hdeliver, hrun, hat⟩

end Kfs.Arch
