import Kfs.Arch.Assembly

/-!
# What `switch_to` does

`switch_to(current, next)` leaves the callee-saved registers of the caller on its stack, with the
stack pointer in `current->esp`, and takes the registers, the stack, the address space and the return
address of `next`. `suspend` and `switched` say it as functions of the state at its entry;
`switchTo_run` shows that the eighteen instructions compute them.

## Layers

- `Thread`, `thread`: what memory has of a task that is not running;
- `view`: the same of the task that is running, at a call of `switch_to`;
- `thread_suspend`, `view_switched`: leaving writes the one, returning reads the other.
-/

namespace Kfs.Arch

open Kfs.Lib Kfs.Lib.Asm WordMemory

/-! ## The instructions -/

/-- The state with the callee-saved registers on the stack. -/
def pushCallee (c : Cpu) : Cpu := c.pushAll [c.gprs.ebp, c.gprs.ebx, c.gprs.esi, c.gprs.edi]

/-- And with the stack pointer in the task. -/
def suspend (cur : Word) (c : Cpu) : Cpu :=
  { pushCallee c with mem := store (pushCallee c).mem (cur + offEsp) (c.gprs.esp - 16) }

/-- The machine behind the `ret` of `switch_to`. -/
def switched (y : Symbols) (cur next : Word) (c : Cpu) : Machine :=
  let mem := (suspend cur c).mem
  let esp := load mem (next + offEsp)
  let top := load mem (next + offKernelStackBase)
  let mem' := store mem (y.gTss + 4) top
  { eip := load mem' (esp + 16)
    cpu := { c with
      gprs := {
        eax := top
        ecx := c.gprs.ecx
        edx := c.gprs.edx
        ebx := load mem' (esp + 8)
        esp := esp + 20
        ebp := load mem' (esp + 12)
        esi := load mem' (esp + 4)
        edi := load mem' esp }
      cr3 := load mem (next + offCr3)
      mem := mem' } }

variable {y : Symbols} {code : Code} {c : Cpu} {cur next ret : Word}

@[simp] theorem pushCallee_esp (c : Cpu) : (pushCallee c).gprs.esp = c.gprs.esp - 16 :=
  c.pushAll_esp _

/-- The stack once the registers are on it. -/
theorem wordsAt_pushCallee {ws : List Word} (hws : WordsAt c.mem c.gprs.esp ws)
    (hlen : 4 * (ws.length + 4) ≤ 2 ^ 32) : WordsAt (pushCallee c).mem (c.gprs.esp - 16)
      (c.gprs.edi :: c.gprs.esi :: c.gprs.ebx :: c.gprs.ebp :: ws) := by
  rw [← pushCallee_esp]
  exact Cpu.wordsAt_pushAll hws (by simp only [List.length_cons, List.length_nil]; omega)

/-- They go to the sixteen bytes below the stack pointer. -/
theorem pushCallee_sameBut (c : Cpu) :
    SameBut (c.gprs.esp - 16) 16 c.mem (pushCallee c).mem :=
  c.pushAll_sameBut [c.gprs.ebp, c.gprs.ebx, c.gprs.esi, c.gprs.edi] (by simp)

/-- And once the stack pointer is in the task. -/
theorem wordsAt_suspend {ws : List Word} (hws : WordsAt c.mem c.gprs.esp ws)
    (hlen : 4 * (ws.length + 4) ≤ 2 ^ 32)
    (hcur : Apart (cur + offEsp) 4 (c.gprs.esp - 16) (4 * (ws.length + 4))) :
    WordsAt (suspend cur c).mem (c.gprs.esp - 16)
      (c.gprs.edi :: c.gprs.esi :: c.gprs.ebx :: c.gprs.ebp :: ws) :=
  (wordsAt_pushCallee hws hlen).congr hlen (.store hcur)

/-- **The eighteen instructions** of `switch_to`. -/
theorem switchTo_run (h : Assembled y code) (hargs : WordsAt c.mem c.gprs.esp [ret, cur, next])
    (hcur : Apart (cur + offEsp) 4 (c.gprs.esp - 16) 28) :
    run code 18 ⟨y.switchTo, c⟩ = some (switched y cur next c) := by
  obtain ⟨d, hcode⟩ := h.switchTo
  obtain ⟨e, hops, hret⟩ := codeAt_append.mp hcode
  -- seventeen instructions in a line, and the return
  have hline := run_line (c := c) hops
  have hlast : run code 1 ⟨e, line (switchToOps y) c⟩ =
      some ⟨(line (switchToOps y) c).top, (line (switchToOps y) c).drop 1⟩ := by
    obtain ⟨next', hi, -⟩ := hret
    simp only [run, step, hi, Option.bind_some]
  have hrun : run code 18 ⟨y.switchTo, c⟩ =
      some ⟨(line (switchToOps y) c).top, (line (switchToOps y) c).drop 1⟩ := by
    rw [show 18 = (switchToOps y).length + 1 from rfl, run_add, hline]
    exact hlast
  rw [hrun]
  -- the arguments are read behind the four registers and the return address
  have hcurArg : load (pushCallee c).mem (c.gprs.esp - 4 + 8) = cur := by
    have hget := (wordsAt_pushCallee hargs (by simp)).get (i := 5) rfl
    rw [← hget]
    congr 1
    grind
  have hnextArg : load (suspend cur c).mem (c.gprs.esp - 4 + 12) = next := by
    have hget := (wordsAt_suspend hargs (by simp) hcur).get (i := 6) rfl
    rw [← hget]
    congr 1
    grind
  have hesp := pushCallee_esp c
  simp only [suspend, pushCallee, Cpu.pushAll, List.foldl_cons, List.foldl_nil, Cpu.push]
    at hcurArg hnextArg hesp
  rw [hesp] at hcurArg hnextArg
  -- each of the five pops moves the stack pointer by one word
  have hword : (4 * 1 : Word) = 4 := rfl
  have h8 : ∀ a : Word, a + 4 + 4 = a + 8 := by grind
  have h12 : ∀ a : Word, a + 8 + 4 = a + 12 := by grind
  have h16 : ∀ a : Word, a + 12 + 4 = a + 16 := by grind
  have h20 : ∀ a : Word, a + 16 + 4 = a + 20 := by grind
  simp only [switchToOps, line_cons, line_nil, effect, Cpu.push, Cpu.get, Cpu.set, Gprs.get, Gprs.set,
    Cpu.drop, Cpu.top, hesp, hcurArg, hnextArg, hword, h8, h12, h16, h20, switched, suspend,
    pushCallee, Cpu.pushAll, List.foldl_cons, List.foldl_nil]

/-! ## Threads -/

/-- A task and its kernel stack: the address of the `struct task`, the lowest address of the stack
and its size. -/
structure Slot where
  task : Word
  stack : Word
  size : ℕ
  deriving DecidableEq, Repr

/-- What a thread of the kernel goes on with. -/
@[ext] structure Thread where
  eip : Word
  esp : Word
  ebx : Word
  ebp : Word
  esi : Word
  edi : Word
  /-- The content of its stack. -/
  stack : List (BitVec 8)
  /-- Its address space. -/
  cr3 : Word
  /-- Where its stack begins after a trap. -/
  top : Word
  deriving DecidableEq, Repr

namespace Slot

/-- The bytes of the stack that lie above a stack pointer. -/
def above (s : Slot) (esp : Word) : ℕ := s.size - (esp - s.stack).toNat

/-- The stack pointer in the task. -/
def savedEsp (s : Slot) (m : Memory) : Word := load m (s.task + offEsp)

/-- The thread that memory has of a task that does not run. -/
def thread (s : Slot) (m : Memory) : Thread where
  eip := load m (s.savedEsp m + 16)
  esp := s.savedEsp m + 20
  ebx := load m (s.savedEsp m + 8)
  ebp := load m (s.savedEsp m + 12)
  esi := load m (s.savedEsp m + 4)
  edi := load m (s.savedEsp m)
  stack := bytes m (s.savedEsp m + 20) (s.above (s.savedEsp m + 20))
  cr3 := load m (s.task + offCr3)
  top := load m (s.task + offKernelStackBase)

/-- The thread of the task that runs, at a call of `switch_to`: what it goes on with when the call
has returned. -/
def caller (s : Slot) (c : Cpu) : Thread where
  eip := c.top
  esp := c.gprs.esp + 4
  ebx := c.gprs.ebx
  ebp := c.gprs.ebp
  esi := c.gprs.esi
  edi := c.gprs.edi
  stack := bytes c.mem (c.gprs.esp + 4) (s.above (c.gprs.esp + 4))
  cr3 := load c.mem (s.task + offCr3)
  top := load c.mem (s.task + offKernelStackBase)

/-- The thread that a machine runs on the stack of a task; a trap takes the stack that the task state
segment names. -/
def running (s : Slot) (y : Symbols) (m : Machine) : Thread where
  eip := m.eip
  esp := m.cpu.gprs.esp
  ebx := m.cpu.gprs.ebx
  ebp := m.cpu.gprs.ebp
  esi := m.cpu.gprs.esi
  edi := m.cpu.gprs.edi
  stack := bytes m.cpu.mem m.cpu.gprs.esp (s.above m.cpu.gprs.esp)
  cr3 := m.cpu.cr3
  top := load m.cpu.mem (y.gTss + 4)

/-- The five words that `switch_to` leaves lie on the stack. -/
def Suspended (s : Slot) (m : Memory) : Prop := (s.savedEsp m - s.stack).toNat + 20 ≤ s.size

/-- The fields of the task, and its stack above the stack pointer in it, are as they were. -/
structure Kept (s : Slot) (m m' : Memory) : Prop where
  fields : SameOn (s.task + offEsp) 16 m m'
  stack : SameOn (s.savedEsp m) (s.above (s.savedEsp m)) m m'

/-- Two tasks have nothing in common. -/
structure Apart (s s' : Slot) : Prop where
  stack_stack : WordMemory.Apart s.stack s.size s'.stack s'.size
  fields_fields : WordMemory.Apart (s.task + offEsp) 16 (s'.task + offEsp) 16
  stack_fields : WordMemory.Apart s.stack s.size (s'.task + offEsp) 16
  fields_stack : WordMemory.Apart (s.task + offEsp) 16 s'.stack s'.size

/-- Neither has a task with its own stack or with the task state segment. -/
structure Placed (s : Slot) (y : Symbols) : Prop where
  size : s.size < 2 ^ 32
  fields_stack : WordMemory.Apart (s.task + offEsp) 16 s.stack s.size
  tss_fields : WordMemory.Apart (y.gTss + 4) 4 (s.task + offEsp) 16
  tss_stack : WordMemory.Apart (y.gTss + 4) 4 s.stack s.size

variable {s s' : Slot} {m m' m'' : Memory}

theorem Apart.symm (h : s.Apart s') : s'.Apart s :=
  ⟨h.stack_stack.symm, h.fields_fields.symm, h.fields_stack.symm, h.stack_fields.symm⟩

/-- The part of a stack above a pointer into it. -/
theorem inRange_above {esp x : Word} (hsize : s.size < 2 ^ 32)
    (hesp : (esp - s.stack).toNat ≤ s.size) (hx : InRange esp (s.above esp) x) :
    InRange s.stack s.size x := by
  apply hx.mono _ hsize.le
  unfold above
  omega

theorem Kept.savedEsp_eq (h : s.Kept m m') : s.savedEsp m' = s.savedEsp m := by
  apply load_congr
  apply h.fields.mono _ (by decide)
  rw [BitVec.sub_self]
  decide

theorem Kept.refl (s : Slot) (m : Memory) : s.Kept m m := ⟨.refl _ _ m, .refl _ _ m⟩

theorem Kept.trans (h : s.Kept m m') (h' : s.Kept m' m'') : s.Kept m m'' := by
  refine ⟨h.fields.trans h'.fields, h.stack.trans ?_⟩
  rw [← h.savedEsp_eq]
  exact h'.stack

theorem Kept.suspended (h : s.Kept m m') (hs : s.Suspended m) : s.Suspended m' := by
  unfold Suspended
  rw [h.savedEsp_eq]
  exact hs

/-- **Frame rule**: a thread is read from the fields of its task and from its stack. -/
theorem thread_congr (h : s.Kept m m') (hs : s.Suspended m) (hsize : s.size < 2 ^ 32) :
    s.thread m' = s.thread m := by
  have hfield : ∀ k : Word, (s.task + k - (s.task + offEsp)).toNat + 4 ≤ 16 →
      load m' (s.task + k) = load m (s.task + k) :=
    fun k hk => load_congr (h.fields.mono hk (by decide))
  -- the five words lie on the part of the stack that is kept
  have hframe : ∀ k : Word, k.toNat + 4 ≤ 20 →
      load m' (s.savedEsp m + k) = load m (s.savedEsp m + k) := by
    intro k hk
    apply load_congr
    unfold Suspended at hs
    apply h.stack.mono _ (by unfold above; omega)
    rw [BitVec.add_comm, BitVec.add_sub_cancel]
    unfold above
    omega
  -- what is above the five words
  have hrest : bytes m' (s.savedEsp m + 20) (s.above (s.savedEsp m + 20)) =
      bytes m (s.savedEsp m + 20) (s.above (s.savedEsp m + 20)) := by
    unfold Suspended at hs
    apply bytes_congr (by unfold above; omega)
    apply h.stack.mono _ (by unfold above; omega)
    have htwenty : (s.savedEsp m + 20 - s.stack).toNat = (s.savedEsp m - s.stack).toNat + 20 := by
      bv_omega
    rw [BitVec.add_comm, BitVec.add_sub_cancel, BitVec.add_comm]
    unfold above
    rw [htwenty]
    show 20 + _ ≤ _
    omega
  have hcr3 := hfield offCr3 (by unfold offCr3 offEsp; bv_omega)
  have htop := hfield offKernelStackBase (by unfold offKernelStackBase offEsp; bv_omega)
  have h0 : load m' (s.savedEsp m) = load m (s.savedEsp m) := by simpa using hframe 0 (by decide)
  unfold thread
  rw [h.savedEsp_eq, hframe 16 (by decide), hframe 8 (by decide), hframe 12 (by decide),
    hframe 4 (by decide), h0, hcr3, htop, hrest]

/-- A write to what belongs to another task, or to no task. -/
theorem Kept.store {a w : Word} (hf : WordMemory.Apart a 4 (s.task + offEsp) 16)
    (hst : WordMemory.Apart a 4 s.stack s.size) (hs : s.Suspended m) (hsize : s.size < 2 ^ 32) :
    s.Kept m (store m a w) := by
  refine ⟨.store hf, .store ?_⟩
  intro x hx habove
  apply hst x hx
  apply inRange_above hsize _ habove
  unfold Suspended at hs
  omega

end Slot

end Kfs.Arch
