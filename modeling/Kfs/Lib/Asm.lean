import Kfs.Lib.WordMemory

/-!
# A 32-bit machine with a stack

The part of the 32-bit x86 instruction set that switches stacks and enters and leaves a kernel: moves,
pushes and pops, calls and jumps, segment selectors, interrupt gates and `iret`.

Code is a map from an address to the instruction there and the address behind it, so that neither the
encoding nor the length of an instruction matters. Memory is what the privileged code sees. Segments
have base 0. The carry, parity and adjust flags are left as they are: no instruction here reads them.

## Layers

- `Op`, `effect`, `line`: instructions that go on with the next one, and straight lines of them;
- `Cpu.deliver`, `Machine.iret`: into and out of an inner privilege level;
- `Instr`, `step`, `Runs`: control flow and runs;
- `CodeAt`, `Runs.line`, `Runs.call`, ...: the rules for code that lies at known addresses.
-/

namespace Kfs.Lib.Asm

open WordMemory

/-! ## State -/

/-- The names of the general registers. -/
inductive Reg where
  | eax | ecx | edx | ebx | esp | ebp | esi | edi
  deriving DecidableEq, Repr

/-- The names of the data segment registers. -/
inductive Seg where
  | ds | es | fs | gs
  deriving DecidableEq, Repr

/-- The general registers. -/
@[ext] structure Gprs where
  eax : Word
  ecx : Word
  edx : Word
  ebx : Word
  esp : Word
  ebp : Word
  esi : Word
  edi : Word
  deriving DecidableEq, Repr

/-- The segment registers. -/
@[ext] structure Segs where
  cs : BitVec 16
  ss : BitVec 16
  ds : BitVec 16
  es : BitVec 16
  fs : BitVec 16
  gs : BitVec 16
  deriving DecidableEq, Repr

/-- The bases of the descriptor tables and of the task state segment. -/
structure Tables where
  gdt : Word
  idt : Word
  tss : Word
  deriving DecidableEq, Repr

/-- Everything but the place in the code; `ports` are the bytes that were sent to ports, the last one
first. -/
structure Cpu where
  gprs : Gprs
  segs : Segs
  eflags : Word
  cr3 : Word
  mem : Memory
  tables : Tables
  ports : List (BitVec 8 × BitVec 8)

structure Machine where
  eip : Word
  cpu : Cpu

def Gprs.get (g : Gprs) : Reg → Word
  | .eax => g.eax
  | .ecx => g.ecx
  | .edx => g.edx
  | .ebx => g.ebx
  | .esp => g.esp
  | .ebp => g.ebp
  | .esi => g.esi
  | .edi => g.edi

def Gprs.set (g : Gprs) (r : Reg) (w : Word) : Gprs :=
  match r with
  | .eax => { g with eax := w }
  | .ecx => { g with ecx := w }
  | .edx => { g with edx := w }
  | .ebx => { g with ebx := w }
  | .esp => { g with esp := w }
  | .ebp => { g with ebp := w }
  | .esi => { g with esi := w }
  | .edi => { g with edi := w }

def Segs.get (s : Segs) : Seg → BitVec 16
  | .ds => s.ds
  | .es => s.es
  | .fs => s.fs
  | .gs => s.gs

def Segs.set (s : Segs) (r : Seg) (w : BitVec 16) : Segs :=
  match r with
  | .ds => { s with ds := w }
  | .es => { s with es := w }
  | .fs => { s with fs := w }
  | .gs => { s with gs := w }

namespace Cpu

def get (c : Cpu) (r : Reg) : Word := c.gprs.get r

def set (c : Cpu) (r : Reg) (w : Word) : Cpu := { c with gprs := c.gprs.set r w }

def push (c : Cpu) (w : Word) : Cpu :=
  { c with
    gprs := { c.gprs with esp := c.gprs.esp - 4 }
    mem := store c.mem (c.gprs.esp - 4) w }

/-- The word on top of the stack. -/
def top (c : Cpu) : Word := load c.mem c.gprs.esp

/-- The stack without its `n` topmost words. -/
def drop (c : Cpu) (n : Word) : Cpu := { c with gprs := { c.gprs with esp := c.gprs.esp + 4 * n } }

/-- Several words, the last one on top. -/
def pushAll (ws : List Word) (c : Cpu) : Cpu := ws.foldl push c

section Push

variable {c : Cpu} {ws vs : List Word}

@[simp] theorem push_esp (c : Cpu) (w : Word) : (c.push w).gprs.esp = c.gprs.esp - 4 := rfl

theorem pushAll_esp (c : Cpu) (ws : List Word) :
    (c.pushAll ws).gprs.esp = c.gprs.esp - BitVec.ofNat 32 (4 * ws.length) := by
  induction ws generalizing c with
  | nil => simp [pushAll]
  | cons w ws ih =>
    have hstep : c.gprs.esp - 4 - BitVec.ofNat 32 (4 * ws.length) =
        c.gprs.esp - BitVec.ofNat 32 (4 * (ws.length + 1)) := by
      rw [Nat.mul_succ, BitVec.ofNat_add]
      grind
    exact (ih (c.push w)).trans hstep

/-- Nothing but the stack pointer and memory changes. -/
theorem pushAll_eq (c : Cpu) (ws : List Word) : c.pushAll ws =
    { c with
      gprs := { c.gprs with esp := c.gprs.esp - BitVec.ofNat 32 (4 * ws.length) }
      mem := (c.pushAll ws).mem } := by
  rw [← pushAll_esp]
  induction ws generalizing c with
  | nil => rfl
  | cons w ws ih => exact (ih (c.push w)).trans rfl

@[simp] theorem pushAll_segs (c : Cpu) (ws : List Word) : (c.pushAll ws).segs = c.segs := by
  rw [pushAll_eq]

@[simp] theorem pushAll_eflags (c : Cpu) (ws : List Word) :
    (c.pushAll ws).eflags = c.eflags := by
  rw [pushAll_eq]

@[simp] theorem pushAll_cr3 (c : Cpu) (ws : List Word) : (c.pushAll ws).cr3 = c.cr3 := by
  rw [pushAll_eq]

@[simp] theorem pushAll_ports (c : Cpu) (ws : List Word) : (c.pushAll ws).ports = c.ports := by
  rw [pushAll_eq]

/-- The words lie on the stack, the last one first. -/
theorem wordsAt_pushAll (h : WordsAt c.mem c.gprs.esp vs)
    (hlen : 4 * (ws.length + vs.length) ≤ 2 ^ 32) :
    WordsAt (c.pushAll ws).mem (c.pushAll ws).gprs.esp (ws.reverse ++ vs) := by
  induction ws generalizing c vs with
  | nil => exact h
  | cons w ws ih =>
    rw [List.length_cons] at hlen
    rw [List.reverse_cons, List.append_assoc]
    have hpushed : WordsAt (c.push w).mem (c.push w).gprs.esp (w :: vs) := h.push (by omega) w
    have hrest := ih hpushed (by rw [List.length_cons]; omega)
    exact hrest

/-- They are written below the stack pointer, and nothing else is. -/
theorem pushAll_sameBut (c : Cpu) (ws : List Word) (hlen : 4 * ws.length ≤ 2 ^ 32) :
    SameBut (c.gprs.esp - BitVec.ofNat 32 (4 * ws.length)) (4 * ws.length) c.mem
      (c.pushAll ws).mem := by
  induction ws generalizing c with
  | nil => exact .refl _ _ _
  | cons w ws ih =>
    rw [List.length_cons] at hlen ⊢
    intro x hx
    have hfirst : (c.push w).mem x = c.mem x := by
      apply store_outside
      intro hin
      apply hx
      unfold InRange at hin ⊢
      bv_omega
    refine (ih (c.push w) (by omega) x ?_).trans hfirst
    intro hin
    apply hx
    unfold InRange at hin ⊢
    rw [push_esp] at hin
    bv_omega

end Push

/-- The zero, sign and overflow flags of a result. -/
def setFlags (c : Cpu) (result : Word) (overflow : Bool) : Cpu :=
  { c with eflags := (c.eflags &&& ~~~0x8C0#32) ||| (if result = 0 then 0x40#32 else 0) |||
      (if result.msb then 0x80#32 else 0) ||| (if overflow then 0x800#32 else 0) }

def zeroFlag (c : Cpu) : Bool := c.eflags.getLsbD 6
def signFlag (c : Cpu) : Bool := c.eflags.getLsbD 7
def overflowFlag (c : Cpu) : Bool := c.eflags.getLsbD 11

section Flags

variable (c : Cpu) (result : Word) (overflow : Bool)

@[simp] theorem setFlags_gprs : (c.setFlags result overflow).gprs = c.gprs := rfl

@[simp] theorem setFlags_mem : (c.setFlags result overflow).mem = c.mem := rfl

theorem zeroFlag_setFlags : (c.setFlags result overflow).zeroFlag = decide (result = 0) := by
  unfold zeroFlag setFlags
  by_cases hz : result = 0#32 <;> cases hm : result.msb <;> cases overflow <;> simp [hz]

theorem signFlag_setFlags : (c.setFlags result overflow).signFlag = result.msb := by
  unfold signFlag setFlags
  by_cases hz : result = 0#32 <;> cases hm : result.msb <;> cases overflow <;> simp [hz]

theorem overflowFlag_setFlags : (c.setFlags result overflow).overflowFlag = overflow := by
  unfold overflowFlag setFlags
  by_cases hz : result = 0#32 <;> cases hm : result.msb <;> cases overflow <;> simp [hz]

/-- A comparison orders signed numbers. -/
theorem less_setFlags (a w : Word) : ((c.setFlags (a - w) (a.ssubOverflow w)).signFlag !=
    (c.setFlags (a - w) (a.ssubOverflow w)).overflowFlag) = a.slt w := by
  have hlo := BitVec.le_toInt a
  have hhi := BitVec.toInt_lt (x := a)
  have hlo' := BitVec.le_toInt w
  have hhi' := BitVec.toInt_lt (x := w)
  simp only [Nat.add_one_sub_one] at *
  rw [signFlag_setFlags, overflowFlag_setFlags, BitVec.msb_eq_toInt, BitVec.toInt_sub, BitVec.slt,
    BitVec.ssubOverflow, Int.bmod]
  grind

/-- The interrupt flag is not one of those that arithmetic sets. -/
theorem interruptFlag_setFlags :
    (c.setFlags result overflow).eflags.getLsbD 9 = c.eflags.getLsbD 9 := by
  unfold setFlags
  by_cases hz : result = 0#32 <;> cases hm : result.msb <;> cases overflow <;> simp [hz]

end Flags

end Cpu

/-! ## Straight lines -/

/-- Instructions after which the machine goes on with the next one. -/
inductive Op where
  | mov (dst src : Reg)
  | movImm (dst : Reg) (w : Word)
  /-- `mov dst, [base + disp]`. -/
  | load (dst base : Reg) (disp : Word)
  /-- `mov [base + disp], src`. -/
  | store (base : Reg) (disp : Word) (src : Reg)
  /-- `mov [addr], src`. -/
  | storeAbs (addr : Word) (src : Reg)
  | lea (dst base : Reg) (disp : Word)
  | push (src : Reg)
  | pushImm (w : Word)
  | pop (dst : Reg)
  | pusha
  | popa
  | shl (dst : Reg) (k : ℕ)
  | add (dst : Reg) (w : Word)
  | cmp (a : Reg) (w : Word)
  | test (a b : Reg)
  /-- `mov al, byte`. -/
  | movAl (byte : BitVec 8)
  /-- `out port, al`. -/
  | out (port : BitVec 8)
  /-- `mov ax, imm`. -/
  | movAx (w : BitVec 16)
  /-- `mov ax, seg`: the upper half of `eax` is kept. -/
  | fromSeg (s : Seg)
  /-- `mov seg, ax`. -/
  | toSeg (s : Seg)
  | toCr3 (src : Reg)
  | cli
  deriving DecidableEq, Repr

/-- What such an instruction does. -/
def effect (c : Cpu) : Op → Cpu
  | .mov dst src => c.set dst (c.get src)
  | .movImm dst w => c.set dst w
  | .load dst base disp => c.set dst (WordMemory.load c.mem (c.get base + disp))
  | .store base disp src => { c with mem := WordMemory.store c.mem (c.get base + disp) (c.get src) }
  | .storeAbs addr src => { c with mem := WordMemory.store c.mem addr (c.get src) }
  | .lea dst base disp => c.set dst (c.get base + disp)
  | .push src => c.push (c.get src)
  | .pushImm w => c.push w
  | .pop dst => (c.drop 1).set dst c.top
  -- the stack pointer is pushed as it was before the first push
  | .pusha => (((((((c.push c.gprs.eax).push c.gprs.ecx).push c.gprs.edx).push c.gprs.ebx).push
      c.gprs.esp).push c.gprs.ebp).push c.gprs.esi).push c.gprs.edi
  -- and skipped on the way back
  | .popa => { c with
      gprs := {
        edi := WordMemory.load c.mem c.gprs.esp
        esi := WordMemory.load c.mem (c.gprs.esp + 4)
        ebp := WordMemory.load c.mem (c.gprs.esp + 8)
        ebx := WordMemory.load c.mem (c.gprs.esp + 16)
        edx := WordMemory.load c.mem (c.gprs.esp + 20)
        ecx := WordMemory.load c.mem (c.gprs.esp + 24)
        eax := WordMemory.load c.mem (c.gprs.esp + 28)
        esp := c.gprs.esp + 32 } }
  | .shl dst k => (c.set dst (c.get dst <<< k)).setFlags (c.get dst <<< k) false
  | .add dst w => (c.set dst (c.get dst + w)).setFlags (c.get dst + w) ((c.get dst).saddOverflow w)
  | .cmp a w => c.setFlags (c.get a - w) ((c.get a).ssubOverflow w)
  | .test a b => c.setFlags (c.get a &&& c.get b) false
  | .movAl byte => c.set .eax (c.gprs.eax.extractLsb' 8 24 ++ byte)
  | .out port => { c with ports := (port, c.gprs.eax.setWidth 8) :: c.ports }
  | .movAx w => c.set .eax (c.gprs.eax.extractLsb' 16 16 ++ w)
  | .fromSeg s => c.set .eax (c.gprs.eax.extractLsb' 16 16 ++ c.segs.get s)
  | .toSeg s => { c with segs := c.segs.set s (c.gprs.eax.setWidth 16) }
  | .toCr3 src => { c with cr3 := c.get src }
  | .cli => { c with eflags := c.eflags &&& ~~~0x200#32 }

/-- A straight line of instructions. -/
def line (ops : List Op) (c : Cpu) : Cpu := ops.foldl effect c

@[simp] theorem line_nil (c : Cpu) : line [] c = c := rfl

@[simp] theorem line_cons (o : Op) (ops : List Op) (c : Cpu) :
    line (o :: ops) c = line ops (effect c o) := rfl

theorem line_append (ops ops' : List Op) (c : Cpu) :
    line (ops ++ ops') c = line ops' (line ops c) := List.foldl_append

/-! ## Privilege levels -/

/-- The privilege level that a selector asks for; for the code segment, the current one. -/
def level (selector : BitVec 16) : BitVec 2 := selector.setWidth 2

/-- An entry of the interrupt descriptor table. -/
@[ext] structure Gate where
  offset : Word
  selector : BitVec 16
  attributes : BitVec 8
  deriving DecidableEq, Repr

/-- A gate in its two words. -/
def Gate.ofWords (lo hi : Word) : Gate where
  offset := hi.extractLsb' 16 16 ++ lo.extractLsb' 0 16
  selector := lo.extractLsb' 16 16
  attributes := hi.extractLsb' 8 8

/-- The level from which a program may use the gate. -/
def Gate.level (g : Gate) : BitVec 2 := g.attributes.extractLsb' 5 2

/-- A present 32-bit interrupt gate. -/
def Gate.IsInterrupt (g : Gate) : Prop := g.attributes &&& 0x9F#8 = 0x8E#8

instance (g : Gate) : Decidable g.IsInterrupt := inferInstanceAs (Decidable (_ = _))

namespace Cpu

/-- The privilege level in the descriptor that a selector names. -/
def descriptorLevel (c : Cpu) (selector : BitVec 16) : BitVec 2 :=
  (load c.mem (c.tables.gdt + (selector &&& ~~~7#16).setWidth 32 + 4)).extractLsb' 13 2

/-- What a return to the level `l` leaves in a data segment register: a null selector and one of an inner
level are cleared. The descriptor is the one in the table, as it was when the register was loaded. -/
def outerSeg (c : Cpu) (l : BitVec 2) (selector : BitVec 16) : BitVec 16 :=
  if selector &&& ~~~3#16 = 0 ∨ c.descriptorLevel selector < l then 0 else selector

/-- The gate of a vector. -/
def gate (c : Cpu) (vector : BitVec 8) : Gate :=
  let entry := c.tables.idt + 8 * vector.setWidth 32
  .ofWords (load c.mem entry) (load c.mem (entry + 4))

/-- The stack of the privilege level 0, from the task state segment, with the old one on it. -/
def switchStack (c : Cpu) : Cpu :=
  let inner := { c with
    segs := { c.segs with ss := (load c.mem (c.tables.tss + 8)).setWidth 16 }
    gprs := { c.gprs with esp := load c.mem (c.tables.tss + 4) } }
  (inner.push (c.segs.ss.setWidth 32)).push c.gprs.esp

end Cpu

namespace Machine

/-- An interrupt or exception is delivered through its gate; `soft` is the `int` instruction. -/
def deliver (soft : Bool) (vector : BitVec 8) (errCode : Option Word) (m : Machine) :
    Option Machine :=
  let c := m.cpu
  let g := c.gate vector
  let inner := c.descriptorLevel g.selector
  if ¬ g.IsInterrupt ∨ (soft ∧ g.level < level c.segs.cs) ∨ level c.segs.cs < inner then none
  else
    let entered := if inner < level c.segs.cs then c.switchStack else c
    let framed := ((entered.push c.eflags).push (c.segs.cs.setWidth 32)).push m.eip
    let framed := match errCode with
      | none => framed
      | some e => framed.push e
    some {
      eip := g.offset
      cpu := { framed with
        segs := { framed.segs with cs := (g.selector &&& ~~~3#16) ||| inner.setWidth 16 }
        -- TF, IF, NT, RF and VM are cleared
        eflags := c.eflags &&& ~~~0x34300#32 } }

/-- Return from an interrupt. To an outer level the stack comes from the frame too, and the data segments
of inner levels are cleared. The selectors of the frame are taken to be such that the processor loads
them, and the flag NT of the machine and the flag VM of the frame to be clear. -/
def iret (m : Machine) : Option Machine :=
  let c := m.cpu
  let esp := c.gprs.esp
  let cs := (load c.mem (esp + 4)).setWidth 16
  if level cs = level c.segs.cs then
    some {
      eip := load c.mem esp
      cpu := { c with
        gprs := { c.gprs with esp := esp + 12 }
        segs := { c.segs with cs := cs }
        eflags := load c.mem (esp + 8) } }
  else if level c.segs.cs < level cs then
    some {
      eip := load c.mem esp
      cpu := { c with
        gprs := { c.gprs with esp := load c.mem (esp + 12) }
        segs := {
          cs := cs
          ss := (load c.mem (esp + 16)).setWidth 16
          ds := c.outerSeg (level cs) c.segs.ds
          es := c.outerSeg (level cs) c.segs.es
          fs := c.outerSeg (level cs) c.segs.fs
          gs := c.outerSeg (level cs) c.segs.gs }
        eflags := load c.mem (esp + 8) } }
  else none

end Machine

/-! ## Control flow -/

/-- Instructions. -/
inductive Instr where
  | op (o : Op)
  | jmp (target : Word)
  | jmpReg (r : Reg)
  | jz (target : Word)
  /-- Taken where the sign and the overflow flag differ. -/
  | jl (target : Word)
  | call (target : Word)
  | ret
  | iret
  deriving DecidableEq, Repr

/-- The instruction at an address and the address behind it. -/
abbrev Code := Word → Option (Instr × Word)

/-- One instruction. There is none where code that is not part of `code` would run. -/
def step (code : Code) (m : Machine) : Option Machine :=
  match code m.eip with
  | none => none
  | some (i, next) =>
    match i with
    | .op o => some ⟨next, effect m.cpu o⟩
    | .jmp target => some ⟨target, m.cpu⟩
    | .jmpReg r => some ⟨m.cpu.get r, m.cpu⟩
    | .jz target => some ⟨if m.cpu.zeroFlag then target else next, m.cpu⟩
    | .jl target => some ⟨if m.cpu.signFlag != m.cpu.overflowFlag then target else next, m.cpu⟩
    | .call target => some ⟨target, m.cpu.push next⟩
    | .ret => some ⟨m.cpu.top, m.cpu.drop 1⟩
    | .iret => m.iret

/-- `n` instructions. -/
def run (code : Code) : ℕ → Machine → Option Machine
  | 0, m => some m
  | n + 1, m => (step code m).bind (run code n)

/-- One machine leads to the other in some number of steps. -/
def Runs (code : Code) (m m' : Machine) : Prop := ∃ n, run code n m = some m'

/-- The instructions lie one after the other from `a` up to `b`. -/
def CodeAt (code : Code) (a : Word) : List Instr → Word → Prop
  | [], b => a = b
  | i :: is, b => ∃ next, code a = some (i, next) ∧ CodeAt code next is b

/-- The address behind the instructions, if they lie at `a`. -/
def behind (code : Code) (a : Word) : List Instr → Option Word
  | [] => some a
  | i :: is =>
    match code a with
    | some (j, next) => if i = j then behind code next is else none
    | none => none

theorem codeAt_of_behind {code : Code} {a b : Word} {is : List Instr}
    (h : behind code a is = some b) : CodeAt code a is b := by
  induction is generalizing a with
  | nil => exact Option.some.inj h
  | cons i is ih =>
    cases hi : code a with
    | none =>
      simp only [behind, hi] at h
      cases h
    | some p =>
      obtain ⟨j, next⟩ := p
      simp only [behind, hi] at h
      by_cases heq : i = j
      · rw [if_pos heq] at h
        exact ⟨next, heq ▸ hi, ih h⟩
      · rw [if_neg heq] at h
        cases h

/-- The instructions lie somewhere from `a` on. -/
theorem exists_codeAt {code : Code} {a : Word} {is : List Instr}
    (h : (behind code a is).isSome = true) : ∃ b, CodeAt code a is b := by
  obtain ⟨b, hb⟩ := Option.isSome_iff_exists.mp h
  exact ⟨b, codeAt_of_behind hb⟩

/-! ## Rules -/

section Rules

variable {code : Code} {m m' m'' : Machine} {c : Cpu} {a b : Word} {is js : List Instr}

theorem run_add (code : Code) (n k : ℕ) (m : Machine) :
    run code (n + k) m = (run code n m).bind (run code k) := by
  induction n generalizing m with
  | zero => rw [Nat.zero_add]; rfl
  | succ n ih =>
    rw [Nat.succ_add]
    simp only [run, Option.bind_assoc, ih]

theorem Runs.refl (code : Code) (m : Machine) : Runs code m m := ⟨0, rfl⟩

theorem Runs.trans (h : Runs code m m') (h' : Runs code m' m'') : Runs code m m'' := by
  obtain ⟨n, hn⟩ := h
  obtain ⟨k, hk⟩ := h'
  refine ⟨n + k, ?_⟩
  rw [run_add, hn]
  exact hk

theorem Runs.one (h : step code m = some m') : Runs code m m' := by
  refine ⟨1, ?_⟩
  simp [run, h]

/-- Code in two parts. -/
theorem codeAt_append : CodeAt code a (is ++ js) b ↔
    ∃ d, CodeAt code a is d ∧ CodeAt code d js b := by
  induction is generalizing a with
  | nil => simp [CodeAt]
  | cons i is ih =>
    simp only [List.cons_append, CodeAt, ih]
    constructor
    · rintro ⟨next, hi, d, hd, hrest⟩
      exact ⟨d, ⟨next, hi, hd⟩, hrest⟩
    · rintro ⟨d, ⟨next, hi, hd⟩, hrest⟩
      exact ⟨next, hi, d, hd, hrest⟩

/-- The first instruction, and the ones behind it. -/
theorem codeAt_cons {i : Instr} : CodeAt code a (i :: js) b ↔
    ∃ d, CodeAt code a [i] d ∧ CodeAt code d js b := by
  rw [← List.singleton_append]
  exact codeAt_append

/-- **Straight lines** run to their end, an instruction a step. -/
theorem run_line {ops : List Op} (h : CodeAt code a (ops.map .op) b) :
    run code ops.length ⟨a, c⟩ = some ⟨b, line ops c⟩ := by
  induction ops generalizing a c with
  | nil =>
    obtain rfl : a = b := h
    rfl
  | cons o ops ih =>
    obtain ⟨next, hi, hrest⟩ := h
    have hstep : step code ⟨a, c⟩ = some ⟨next, effect c o⟩ := by
      simp only [step, hi]
    rw [List.length_cons, run, hstep]
    exact ih hrest

theorem Runs.line {ops : List Op} (h : CodeAt code a (ops.map .op) b) :
    Runs code ⟨a, c⟩ ⟨b, Asm.line ops c⟩ := ⟨_, run_line h⟩

/-- A call leaves the address behind it on the stack. -/
theorem Runs.call (h : CodeAt code a [.call b] d) : Runs code ⟨a, c⟩ ⟨b, c.push d⟩ := by
  obtain ⟨next, hi, rfl⟩ := h
  apply Runs.one
  simp only [step, hi]

theorem Runs.jmp (h : CodeAt code a [.jmp b] d) : Runs code ⟨a, c⟩ ⟨b, c⟩ := by
  obtain ⟨next, hi, -⟩ := h
  apply Runs.one
  simp only [step, hi]

theorem Runs.jmpReg {r : Reg} (h : CodeAt code a [.jmpReg r] d) :
    Runs code ⟨a, c⟩ ⟨c.get r, c⟩ := by
  obtain ⟨next, hi, -⟩ := h
  apply Runs.one
  simp only [step, hi]

theorem Runs.jz (h : CodeAt code a [.jz b] d) :
    Runs code ⟨a, c⟩ ⟨if c.zeroFlag then b else d, c⟩ := by
  obtain ⟨next, hi, rfl⟩ := h
  apply Runs.one
  simp only [step, hi]

theorem Runs.jl (h : CodeAt code a [.jl b] d) :
    Runs code ⟨a, c⟩ ⟨if c.signFlag != c.overflowFlag then b else d, c⟩ := by
  obtain ⟨next, hi, rfl⟩ := h
  apply Runs.one
  simp only [step, hi]

theorem Runs.ret (h : CodeAt code a [.ret] d) : Runs code ⟨a, c⟩ ⟨c.top, c.drop 1⟩ := by
  obtain ⟨next, hi, -⟩ := h
  apply Runs.one
  simp only [step, hi]

theorem Runs.iret (h : CodeAt code m.eip [.iret] d) (hm : m.iret = some m') : Runs code m m' := by
  obtain ⟨next, hi, -⟩ := h
  apply Runs.one
  simp only [step, hi, hm]

end Rules

/-! ## Functions that are called -/

/-- What a function that follows the calling convention leaves when it returns: it has taken the
return address off the stack and kept the registers that belong to its caller, and the privilege
level. -/
structure Returned (m m' : Machine) : Prop where
  eip : m'.eip = m.cpu.top
  esp : m'.cpu.gprs.esp = m.cpu.gprs.esp + 4
  ebx : m'.cpu.gprs.ebx = m.cpu.gprs.ebx
  esi : m'.cpu.gprs.esi = m.cpu.gprs.esi
  edi : m'.cpu.gprs.edi = m.cpu.gprs.edi
  ebp : m'.cpu.gprs.ebp = m.cpu.gprs.ebp
  cs : m'.cpu.segs.cs = m.cpu.segs.cs

end Kfs.Lib.Asm
