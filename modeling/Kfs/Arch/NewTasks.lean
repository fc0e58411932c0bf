import Kfs.Arch.Contexts
import Kfs.Arch.Trap

/-!
# The first run of a task

`task_craft_context` of `src/proc/task.c` lays out the kernel stack of a new task as if it had called
`switch_to`, and `sys_fork` of `src/syscalls/fork.c` does the same over a copy of its caller's stack.
What such a task does when it gets the machine for the first time follows from the way of a context
switch and from the way out of a trap.

`sys_fork` takes the stack pointer of the child from the one in its caller's `struct task`. That field
is written when the caller is made and when it leaves the machine, and it is the right one as long as
the caller has not left.
-/

namespace Kfs.Arch

open Kfs.Lib Kfs.Lib.Asm Kfs.Proc WordMemory

/-! ## Layout -/

/-- `*(--kstack) = word` -/
def pushWord (kstack : Word × Memory) (word : Word) : Word × Memory :=
  (kstack.1 - 4, store kstack.2 (kstack.1 - 4) word)

/-- The address of a word of a `struct trap_frame`. -/
def frameField (tf : Word) (i : ℕ) : Word := tf + BitVec.ofNat 32 (4 * i)

def eflagsUserDefault : Word := 0x202 -- EFLAGS_FIXED | EFLAGS_IF

/-- The trap frame of `task_craft_context`, at `tf`. -/
def craftFrame (tf entry userEsp : Word) (m : Memory) : Memory :=
  let m := fill m tf 76 0
  let m := store m (frameField tf 18) userDs -- user_ss
  let m := store m (frameField tf 17) userEsp
  let m := store m (frameField tf 16) eflagsUserDefault
  let m := store m (frameField tf 15) userCs
  let m := store m (frameField tf 14) entry -- eip
  let m := store m (frameField tf 3) userDs -- ds
  let m := store m (frameField tf 2) userDs
  let m := store m (frameField tf 1) userDs
  store m (frameField tf 0) userDs -- gs

/-- `task_craft_context`; `userEsp` is the end of the task's stack section. -/
def taskCraftContext (y : Symbols) (task : Word) (userspace : Bool) (entry userEsp : Word)
    (m : Memory) : Memory :=
  let base := load m (task + offKernelStackBase)
  let kstack :=
    if userspace then pushWord (base - 76, craftFrame (base - 76) entry userEsp m) y.interruptExit
    else pushWord (base, m) entry
  let kstack := pushWord kstack 0 -- ebp
  let kstack := pushWord kstack 0
  let kstack := pushWord kstack 0
  let kstack := pushWord kstack 0 -- edi
  store kstack.2 (task + offEsp) kstack.1

/-- The frame that a new program starts from. -/
def craftedFrame (entry userEsp : Word) : TrapFrame where
  gs := userDs
  fs := userDs
  es := userDs
  ds := userDs
  edi := 0
  esi := 0
  ebp := 0
  esp := 0
  ebx := 0
  edx := 0
  ecx := 0
  eax := 0
  intNo := 0
  errCode := 0
  eip := entry
  cs := userCs
  eflags := eflagsUserDefault
  userEsp := userEsp
  userSs := userDs

/-- What `sys_fork` does to the stack of the child, and to its stack pointer; the fields of the stacks
are set before. -/
def forkStack (y : Symbols) (current new : Word) (m : Memory) : Memory :=
  let pointer := load m (current + offKernelStackPointer)
  let newPointer := load m (new + offKernelStackPointer)
  let newBase := load m (new + offKernelStackBase)
  let m := copy m newPointer pointer 8192 -- DEFAULT_STACK_SIZE
  let m := store m (frameField (newBase - 76) 11) 0 -- child_tf->regs.eax
  let m := store m (new + offEsp) (newPointer - (pointer - load m (current + offEsp)))
  let stack := pushWord (newBase - 76, m) y.interruptExit
  let stack := pushWord stack 0 -- ebp
  let stack := pushWord stack 0
  let stack := pushWord stack 0
  (pushWord stack 0).2

variable {y : Symbols} {code : Code} {m : Memory} {s : Slot} {entry userEsp : Word}

theorem wordsAt_craftFrame (tf entry userEsp : Word) (m : Memory) :
    WordsAt (craftFrame tf entry userEsp m) tf (craftedFrame entry userEsp).words := by
  have hzero : WordsAt (fill m tf 76 0) tf (List.replicate 19 0) := wordsAt_fill m tf 19
  have hset : ∀ {m : Memory} {ws : List Word} (i : ℕ) (w : Word), ws.length = 19 → i < 19 →
      WordsAt m tf ws → WordsAt (store m (frameField tf i) w) tf (ws.set i w) :=
    fun i w hlen hi hws => hws.set (by omega) (by omega) w
  exact hset 0 userDs rfl (by decide) <| hset 1 userDs rfl (by decide) <|
    hset 2 userDs rfl (by decide) <| hset 3 userDs rfl (by decide) <|
    hset 14 entry rfl (by decide) <| hset 15 userCs rfl (by decide) <|
    hset 16 eflagsUserDefault rfl (by decide) <| hset 17 userEsp rfl (by decide) <|
    hset 18 userDs rfl (by decide) hzero

theorem craftedFrame_toUser (entry userEsp : Word) : ToUser (craftedFrame entry userEsp) := by
  constructor <;> simp only [craftedFrame] <;> decide

theorem frameField_sameBut (tf : Word) {i : ℕ} (hi : i < 19) (m : Memory) (w : Word) :
    SameBut tf 76 m (store m (frameField tf i) w) := by
  apply SameBut.store _ (by decide)
  unfold frameField
  bv_omega

theorem craftFrame_sameBut (tf entry userEsp : Word) (m : Memory) :
    SameBut tf 76 m (craftFrame tf entry userEsp m) :=
  (((((((((fill_sameBut m tf 76 0).trans (frameField_sameBut tf (by decide) _ _)).trans
    (frameField_sameBut tf (by decide) _ _)).trans (frameField_sameBut tf (by decide) _ _)).trans
    (frameField_sameBut tf (by decide) _ _)).trans (frameField_sameBut tf (by decide) _ _)).trans
    (frameField_sameBut tf (by decide) _ _)).trans (frameField_sameBut tf (by decide) _ _)).trans
    (frameField_sameBut tf (by decide) _ _)).trans (frameField_sameBut tf (by decide) _ _)

/-! ## Stacks that `switch_to` can take -/

/-- The five words below a stack pointer: no registers and an address to return to. -/
def launch (kstack : Word × Memory) (eip : Word) : Word × Memory :=
  pushWord (pushWord (pushWord (pushWord (pushWord kstack eip) 0) 0) 0) 0

theorem launch_fst (kstack : Word × Memory) (eip : Word) :
    (launch kstack eip).1 = kstack.1 - 20 := by
  show kstack.1 - 4 - 4 - 4 - 4 - 4 = kstack.1 - 20
  grind

theorem wordsAt_launch (p eip : Word) (m : Memory) :
    WordsAt (launch (p, m) eip).2 (p - 20) [0, 0, 0, 0, eip] := by
  rw [← launch_fst (p, m) eip]
  have heip : WordsAt (pushWord (p, m) eip).2 (pushWord (p, m) eip).1 [eip] :=
    (wordsAt_nil.mpr trivial : WordsAt m p []).push (by decide) eip
  exact (((heip.push (by simp) 0).push (by simp) 0).push (by simp) 0).push (by simp) 0

theorem launch_sameBut (p eip : Word) (m : Memory) :
    SameBut (p - 20) 20 m (launch (p, m) eip).2 := by
  have hpush : ∀ (a : Word) (m : Memory) (w : Word), (a - (p - 20)).toNat + 4 ≤ 20 →
      SameBut (p - 20) 20 m (store m a w) :=
    fun a m w ha => .store ha (by decide) m w
  unfold launch pushWord
  refine ((((hpush _ _ _ ?_).trans (hpush _ _ _ ?_)).trans (hpush _ _ _ ?_)).trans
    (hpush _ _ _ ?_)).trans (hpush _ _ _ ?_)
  · bv_omega
  · show (p - 4 - 4 - (p - 20)).toNat + 4 ≤ 20
    bv_omega
  · show (p - 4 - 4 - 4 - (p - 20)).toNat + 4 ≤ 20
    bv_omega
  · show (p - 4 - 4 - 4 - 4 - (p - 20)).toNat + 4 ≤ 20
    bv_omega
  · show (p - 4 - 4 - 4 - 4 - 4 - (p - 20)).toNat + 4 ≤ 20
    bv_omega

/-- The thread that begins at `eip` on a stack down to `esp`. -/
def freshThread (s : Slot) (eip esp : Word) (m : Memory) : Thread where
  eip := eip
  esp := esp
  ebx := 0
  ebp := 0
  esi := 0
  edi := 0
  stack := bytes m esp (s.above esp)
  cr3 := load m (s.task + offCr3)
  top := load m (s.task + offKernelStackBase)

/-- Such a stack makes a fresh thread. -/
theorem thread_launched {p eip : Word} (hesp : s.savedEsp m = p - 20)
    (hwords : WordsAt m (p - 20) [0, 0, 0, 0, eip]) : s.thread m = freshThread s eip p m := by
  have h4 : load m (p - 20 + 4) = 0 := hwords.get (i := 1) rfl
  have h8 : load m (p - 20 + 8) = 0 := hwords.get (i := 2) rfl
  have h12 : load m (p - 20 + 12) = 0 := hwords.get (i := 3) rfl
  have h16 : load m (p - 20 + 16) = eip := hwords.get (i := 4) rfl
  have hp : p - 20 + 20 = p := BitVec.sub_add_cancel _ _
  simp only [Slot.thread, freshThread, hesp, hwords.head, h4, h8, h12, h16, hp]

section Launched

variable {p eip : Word} {m₀ : Memory}

/-- The memory of a task whose stack has been launched from `p`. -/
def launched (s : Slot) (p eip : Word) (m₀ : Memory) : Memory :=
  store (launch (p, m₀) eip).2 (s.task + offEsp) (p - 20)

/-- A launch writes the twenty bytes below `p` and the stack pointer of the task. -/
theorem launched_sameOn (hp : s.Placed y) (hin : (p - 20 - s.stack).toNat + 20 ≤ s.size) :
    SameOn p (s.above p) m₀ (launched s p eip m₀) := by
  have hsize := hp.size
  refine SameOn.trans ((launch_sameBut p eip m₀).sameOn ?_) (.store ?_)
  · intro x hlow hx
    unfold InRange Slot.above at *
    bv_omega
  · have hfield : WordMemory.Apart (s.task + offEsp) 4 s.stack s.size :=
      hp.fields_stack.mono (by rw [BitVec.sub_self]; decide) (by decide)
    intro x hx habove
    exact hfield x hx (s.inRange_above hsize (by bv_omega) habove)

theorem load_launched (hp : s.Placed y) (hin : (p - 20 - s.stack).toNat + 20 ≤ s.size) {k : Word}
    (hk : k = offCr3 ∨ k = offKernelStackBase) :
    load (launched s p eip m₀) (s.task + k) = load m₀ (s.task + k) := by
  have hpart : (s.task + k - (s.task + offEsp)).toNat + 4 ≤ 16 := by
    rcases hk with rfl | rfl
    · unfold offCr3 offEsp
      bv_omega
    · unfold offKernelStackBase offEsp
      bv_omega
  -- the stack pointer is another field, and the five words are on the stack
  have hother : WordMemory.Apart (s.task + offEsp) 4 (s.task + k) 4 := by
    rcases hk with rfl | rfl
    · exact apart_of_sub (by unfold offCr3 offEsp; bv_omega) (by unfold offCr3 offEsp; bv_omega)
    · exact apart_of_sub (by unfold offKernelStackBase offEsp; bv_omega)
        (by unfold offKernelStackBase offEsp; bv_omega)
  refine (load_store_of_apart hother).trans (load_congr ((launch_sameBut p eip m₀).sameOn ?_))
  exact ((hp.fields_stack.mono hpart (by decide)).symm.mono hin hp.size.le)

/-- **A launched stack** is one that `switch_to` can take. -/
theorem thread_of_launched (hp : s.Placed y) (hin : (p - 20 - s.stack).toNat + 20 ≤ s.size) :
    s.Suspended (launched s p eip m₀) ∧
      s.thread (launched s p eip m₀) = freshThread s eip p (launched s p eip m₀) := by
  have hesp : s.savedEsp (launched s p eip m₀) = p - 20 := load_store _ _ _
  have hfield : WordMemory.Apart (s.task + offEsp) 4 (p - 20) 20 := by
    have hstack : WordMemory.Apart (s.task + offEsp) 4 s.stack s.size :=
      hp.fields_stack.mono (by rw [BitVec.sub_self]; decide) (by decide)
    exact (hstack.symm.mono hin hp.size.le).symm
  constructor
  · unfold Slot.Suspended
    rw [hesp]
    exact hin
  · exact thread_launched hesp ((wordsAt_launch p eip m₀).congr (by simp) (.store hfield))

end Launched

/-! ## `task_craft_context` -/

/-- The stack pointer of a crafted task, above the five words. -/
def craftedEsp (userspace : Bool) (base : Word) : Word := if userspace then base - 76 else base

/-- **A crafted task** begins at its entry, a program through `interrupt_exit` with the frame on its
stack. -/
theorem thread_crafted (hp : s.Placed y) {userspace : Bool} {base : Word}
    (hbase : load m (s.task + offKernelStackBase) = base)
    (htop : base = s.stack + BitVec.ofNat 32 s.size) (hsize : 96 ≤ s.size) :
    s.thread (taskCraftContext y s.task userspace entry userEsp m) =
        freshThread s (if userspace then y.interruptExit else entry) (craftedEsp userspace base)
          (taskCraftContext y s.task userspace entry userEsp m) ∧
      load (taskCraftContext y s.task userspace entry userEsp m) (s.task + offCr3) =
        load m (s.task + offCr3) ∧
      load (taskCraftContext y s.task userspace entry userEsp m) (s.task + offKernelStackBase) = base ∧
      (userspace = true → WordsAt (taskCraftContext y s.task userspace entry userEsp m) (base - 76)
        (craftedFrame entry userEsp).words) := by
  have hlt := hp.size
  cases userspace with
  -- a thread of the kernel has no frame
  | false =>
    have hin : (base - 20 - s.stack).toNat + 20 ≤ s.size := by
      subst htop
      bv_omega
    have hmem : taskCraftContext y s.task false entry userEsp m = launched s base entry m := by
      unfold taskCraftContext launched
      rw [← launch_fst (base, m) entry, ← hbase]
      rfl
    rw [hmem]
    refine ⟨(thread_of_launched hp hin).2, load_launched hp hin (.inl rfl), ?_, fun h => by cases h⟩
    rw [load_launched hp hin (.inr rfl), hbase]
  | true =>
    have hin : (base - 76 - 20 - s.stack).toNat + 20 ≤ s.size := by
      subst htop
      bv_omega
    have hmem : taskCraftContext y s.task true entry userEsp m = launched s (base - 76)
        y.interruptExit (craftFrame (base - 76) entry userEsp m) := by
      unfold taskCraftContext launched
      rw [← launch_fst (base - 76, craftFrame (base - 76) entry userEsp m) y.interruptExit, ← hbase]
      rfl
    -- the frame is on the stack, where the task has no fields
    have hfields : ∀ k : Word, (s.task + k - (s.task + offEsp)).toNat + 4 ≤ 16 →
        load (craftFrame (base - 76) entry userEsp m) (s.task + k) = load m (s.task + k) := by
      intro k hk
      refine load_congr ((craftFrame_sameBut (base - 76) entry userEsp m).sameOn ?_)
      refine (hp.fields_stack.mono hk (by decide)).symm.mono ?_ hlt.le
      subst htop
      bv_omega
    have hcr3 := hfields offCr3 (by unfold offCr3 offEsp; bv_omega)
    have hb := hfields offKernelStackBase (by unfold offKernelStackBase offEsp; bv_omega)
    rw [hmem]
    refine ⟨(thread_of_launched hp hin).2, ?_, ?_, fun _ => ?_⟩
    · rw [load_launched hp hin (.inl rfl), hcr3]
    · rw [load_launched hp hin (.inr rfl), hb, hbase]
    · have habove : s.above (base - 76) = 76 := by
        unfold Slot.above
        subst htop
        bv_omega
      have hsame : SameOn (base - 76) _ (craftFrame (base - 76) entry userEsp m)
          (launched s (base - 76) y.interruptExit _) := launched_sameOn hp hin
      rw [habove] at hsame
      exact (wordsAt_craftFrame (base - 76) entry userEsp m).congr (by simp [TrapFrame.words]) hsame

/-- **The first run of a program.** A task that `task_craft_context` has prepared for user space and
that gets the machine, whatever ran in between, goes through `interrupt_exit` with its frame on the
stack; unless a signal changes the frame or the segments, the program begins at its entry, in the user
segments, with interrupts on, its own stack and no registers. -/
theorem crafted_program_starts (h : Assembled y code) {k₀ k₁ k₂ k₃ : Contexts} {t : Slot}
    {m₁ : Machine} {base : Word} (hreach : (contexts y code).Reachable k₀)
    (hspawn : contextStep y code k₀ (.spawn t m₁) k₁)
    (hcraft : m₁.cpu.mem = taskCraftContext y t.task true entry userEsp m)
    (hbase : load m (t.task + offKernelStackBase) = base)
    (htop : base = t.stack + BitVec.ofNat 32 t.size) (hsize : 96 ≤ t.size)
    (haway : Relation.ReflTransGen (Without y code t) k₁ k₂)
    (hback : contextStep y code k₂ (.switch t) k₃) :
    k₃.machine.cpu.cr3 = load m (t.task + offCr3) ∧ load k₃.mem (y.gTss + 4) = base ∧
      ∃ s, Runs code k₃.machine s ∧ AtSignals y code (base - 76) s ∧
        WordsAt s.cpu.mem (base - 76) (craftedFrame entry userEsp).words ∧
        ∀ s', Returned s s' → GdtAt y s'.cpu →
          WordsAt s'.cpu.mem (base - 76) (craftedFrame entry userEsp).words →
          Runs code s' ⟨entry, { s'.cpu with
            gprs := ⟨0, 0, 0, 0, userEsp, 0, 0, 0⟩
            segs := ⟨0x1B, 0x23, 0x23, 0x23, 0x23, 0x23⟩
            eflags := 0x202 }⟩ := by
  have hp : t.Placed y := hspawn.2.1
  have hlt := hp.size
  obtain ⟨hrunning, hcs⟩ := spawn_running h hreach hspawn haway hback
  obtain ⟨hthread, hcr3, hb, hframe⟩ :=
    @thread_crafted y m t entry userEsp hp true base hbase htop hsize
  rw [hcraft, hthread] at hrunning
  rw [← hcraft] at hrunning hcr3 hb hframe
  -- the registers and the stack, one by one
  have heip : k₃.machine.eip = y.interruptExit := congrArg Thread.eip hrunning
  have hesp : k₃.machine.cpu.gprs.esp = base - 76 := congrArg Thread.esp hrunning
  have hmcr3 : k₃.machine.cpu.cr3 = load m₁.cpu.mem (t.task + offCr3) :=
    congrArg Thread.cr3 hrunning
  have hmtop : load k₃.mem (y.gTss + 4) = load m₁.cpu.mem (t.task + offKernelStackBase) :=
    congrArg Thread.top hrunning
  have hstack : bytes k₃.mem k₃.machine.cpu.gprs.esp (t.above k₃.machine.cpu.gprs.esp) =
      bytes m₁.cpu.mem (base - 76) (t.above (base - 76)) := congrArg Thread.stack hrunning
  have habove : t.above (base - 76) = 76 := by
    unfold Slot.above
    subst htop
    bv_omega
  rw [hesp, habove] at hstack
  -- the frame was there before the first switch, and nobody has written to it
  have hframe₃ : WordsAt k₃.mem (base - 76) (craftedFrame entry userEsp).words :=
    (hframe rfl).congr (by simp [TrapFrame.words]) (sameOn_of_bytes hstack)
  refine ⟨hmcr3.trans hcr3, hmtop.trans hb, ?_⟩
  obtain ⟨s, hrun, hs, hmem⟩ := interruptExit_runs h (c := k₃.machine.cpu) hcs
  rw [hesp] at hs hmem
  rw [← heip] at hrun
  refine ⟨s, hrun, hs, ?_, fun s' hret hgdt hwords => ?_⟩
  -- the return address of the call is below the frame
  · refine hframe₃.congr (by simp [TrapFrame.words]) (hmem.sameOn ?_)
    refine apart_of_sub (by bv_omega) ?_
    simp only [TrapFrame.words, List.length_cons, List.length_nil]
    bv_omega
  · exact hs.back s' _ hret hgdt hwords (craftedFrame_toUser entry userEsp)

/-! ## `sys_fork` -/

/-- The fields of a task's kernel stack, as they are set with it. -/
structure HasStack (s : Slot) (m : Memory) : Prop where
  size : s.size = 8192
  pointer : load m (s.task + offKernelStackPointer) = s.stack
  base : load m (s.task + offKernelStackBase) = s.stack + 8192

/-- The end of a kernel stack. -/
def Slot.base (s : Slot) : Word := s.stack + 8192

variable {parent child : Slot}

/-- The child's stack with the copied frame, in which the call returns zero. -/
def childStack (parent child : Slot) (m : Memory) : Memory :=
  store (copy m child.stack parent.stack 8192) (frameField (child.base - 76) 11) 0

/-- The memory that `sys_fork` leaves. -/
theorem forkStack_eq (y : Symbols) (hparent : HasStack parent m) (hchild : HasStack child m) :
    forkStack y parent.task child.task m = (launch (child.base - 76,
      store (childStack parent child m) (child.task + offEsp) (child.stack - (parent.stack -
        parent.savedEsp (childStack parent child m)))) y.interruptExit).2 := by
  unfold forkStack
  simp only [hparent.pointer, hchild.pointer, hchild.base]
  rfl

/-- It lies in the child's stack. -/
theorem childStack_sameBut (parent child : Slot) (m : Memory) :
    SameBut child.stack 8192 m (childStack parent child m) := by
  refine (copy_sameBut m child.stack parent.stack 8192).trans (SameBut.store ?_ (by decide) _ _)
  unfold frameField Slot.base
  bv_omega

/-- The stack pointer that `sys_fork` gives the child. -/
theorem savedEsp_fork (hpc : child.Placed y) (hap : parent.Apart child)
    (hparent : HasStack parent m) (hchild : HasStack child m) :
    child.savedEsp (forkStack y parent.task child.task m) =
      child.stack - (parent.stack - parent.savedEsp m) := by
  have hfield : WordMemory.Apart (child.task + offEsp) 4 child.stack child.size :=
    hpc.fields_stack.mono (by rw [BitVec.sub_self]; decide) (by decide)
  -- the copy goes to the child's stack, and leaves the parent's field
  have hkept : parent.savedEsp (childStack parent child m) = parent.savedEsp m := by
    refine load_congr ((childStack_sameBut parent child m).sameOn ?_)
    rw [← hchild.size]
    exact (hap.fields_stack.mono (by rw [BitVec.sub_self]; decide) (by decide)).symm
  rw [forkStack_eq y hparent hchild, hkept]
  refine (load_congr ((launch_sameBut _ _ _).sameOn ?_)).trans (load_store _ _ _)
  refine (hfield.symm.mono ?_ hpc.size.le)
  rw [hchild.size]
  unfold Slot.base
  bv_omega

/-- Only with the stack pointer of a crafted parent does a child begin at its frame. -/
theorem savedEsp_of_fresh (hpc : child.Placed y) (hap : parent.Apart child)
    (hparent : HasStack parent m) (hchild : HasStack child m)
    (hfresh : child.thread (forkStack y parent.task child.task m) =
      freshThread child y.interruptExit (child.base - 76)
        (forkStack y parent.task child.task m)) :
    parent.savedEsp m = parent.base - 96 := by
  have hesp := savedEsp_fork hpc hap hparent hchild
  have hthread : child.savedEsp (forkStack y parent.task child.task m) + 20 = child.base - 76 :=
    congrArg Thread.esp hfresh
  rw [hesp] at hthread
  unfold Slot.base at *
  grind

/-- The frame on top of the child's stack is that of its parent, with zero as the result of the
call. -/
theorem wordsAt_forkStack (hpc : child.Placed y) (hparent : HasStack parent m)
    (hchild : HasStack child m) {tf : TrapFrame} (hframe : WordsAt m (parent.base - 76) tf.words) :
    WordsAt (forkStack y parent.task child.task m) (child.base - 76)
      { tf with eax := 0 }.words := by
  have hat : ∀ s : Slot, s.base - 76 = s.stack + 8116 := by
    intro s
    unfold Slot.base
    grind
  have hcopy : WordsAt (copy m child.stack parent.stack 8192) (child.base - 76) tf.words := by
    rw [hat] at hframe ⊢
    exact hframe.copy (by simp [TrapFrame.words]) (by decide)
  have hset : WordsAt (childStack parent child m) (child.base - 76) { tf with eax := 0 }.words :=
    hcopy.set (by simp [TrapFrame.words]) (by simp [TrapFrame.words]) 0
  have hfield : WordMemory.Apart (child.task + offEsp) 4 (child.base - 76) 76 := by
    have hstack : WordMemory.Apart (child.task + offEsp) 4 child.stack child.size :=
      hpc.fields_stack.mono (by rw [BitVec.sub_self]; decide) (by decide)
    refine (hstack.symm.mono ?_ hpc.size.le).symm
    rw [hchild.size, hat]
    bv_omega
  rw [forkStack_eq y hparent hchild]
  refine hset.congr (by simp [TrapFrame.words]) ?_
  have hlaunch : WordMemory.Apart (child.base - 76 - 20) 20 (child.base - 76) 76 :=
    apart_of_sub (by bv_omega) (by bv_omega)
  exact (SameOn.store hfield).trans ((launch_sameBut _ _ _).sameOn hlaunch)

/-- **What a child begins with.** It begins at `interrupt_exit`, down to the frame on top of its stack,
if and only if the stack pointer in its parent's `struct task` is the one that `task_craft_context` puts
there; and the frame there is that of its parent, with zero as the result of the call. -/
theorem fork_child_iff (hpc : child.Placed y) (hap : parent.Apart child)
    (hparent : HasStack parent m) (hchild : HasStack child m) :
    (child.thread (forkStack y parent.task child.task m) =
        freshThread child y.interruptExit (child.base - 76)
          (forkStack y parent.task child.task m) ↔
      parent.savedEsp m = parent.base - 96) ∧
    ∀ tf : TrapFrame, WordsAt m (parent.base - 76) tf.words →
      WordsAt (forkStack y parent.task child.task m) (child.base - 76)
        { tf with eax := 0 }.words := by
  refine ⟨⟨savedEsp_of_fresh hpc hap hparent hchild, fun h => ?_⟩,
    fun _ => wordsAt_forkStack hpc hparent hchild⟩
  have hesp := savedEsp_fork hpc hap hparent hchild
  rw [h] at hesp
  apply thread_launched
  · rw [hesp]
    unfold Slot.base
    grind
  · rw [forkStack_eq y hparent hchild]
    exact wordsAt_launch _ _ _

/-- **Forking after a switch.** Once a task has given the machine away in the kernel, below its frame,
the child of a fork does not begin with that frame. -/
theorem fork_after_switch (h : Assembled y code) {k₀ k₁ k₂ k₃ : Contexts} {next : Slot}
    (hreach : (contexts y code).Reachable k₀) (hne : next ≠ k₀.cur)
    (hleave : contextStep y code k₀ (.switch next) k₁)
    (hbelow : (k₀.machine.cpu.gprs.esp - k₀.cur.stack).toNat + 12 ≤ 8192 - 76)
    (haway : Relation.ReflTransGen (Without y code k₀.cur) k₁ k₂)
    (hback : contextStep y code k₂ (.switch k₀.cur) k₃)
    (hpc : child.Placed y) (hap : k₀.cur.Apart child)
    (hsaved : k₀.cur.savedEsp m = k₀.cur.savedEsp k₃.mem)
    (hparent : HasStack k₀.cur m) (hchild : HasStack child m) :
    child.thread (forkStack y k₀.cur.task child.task m) ≠
      freshThread child y.interruptExit (child.base - 76)
        (forkStack y k₀.cur.task child.task m) := by
  intro hgood
  have hinv := contexts_inv h hreach
  obtain ⟨hmem, hleft⟩ := hinv.thread_leave h hne hleave
  obtain ⟨hinv₂, hmem₂, hkept⟩ := (hinv.step h hleave).thread_run h hmem haway
  have hthread := (hinv₂.thread_switch h hmem₂ hback).trans (hkept.trans hleft)
  -- the field still has the stack pointer of the switch
  have hesp : k₀.cur.savedEsp k₃.mem + 20 = k₀.machine.cpu.gprs.esp + 4 :=
    congrArg Thread.esp hthread
  -- and a child that begins at its frame would need the crafted one
  have hcrafted := savedEsp_of_fresh hpc hap hparent hchild hgood
  have hroom := hleave.1.room
  rw [hsaved] at hcrafted
  unfold Slot.base at hcrafted
  bv_omega

/-! ## In the linked kernel -/

def thirdTask : Slot := ⟨0xC0302000, 0xC0330000, 8192⟩

theorem placed_thirdTask : thirdTask.Placed linked where
  size := by decide
  fields_stack := apart_of_sub (by decide) (by decide)
  tss_fields := apart_of_sub (by decide) (by decide)
  tss_stack := apart_of_sub (by decide) (by decide)

theorem firstTask_apart : firstTask.Apart thirdTask where
  stack_stack := apart_of_sub (by decide) (by decide)
  fields_fields := apart_of_sub (by decide) (by decide)
  stack_fields := apart_of_sub (by decide) (by decide)
  fields_stack := apart_of_sub (by decide) (by decide)

theorem thirdTask_apart : thirdTask.Apart secondTask where
  stack_stack := apart_of_sub (by decide) (by decide)
  fields_fields := apart_of_sub (by decide) (by decide)
  stack_fields := apart_of_sub (by decide) (by decide)
  fields_stack := apart_of_sub (by decide) (by decide)

/-- The first task runs, with the stack of the second one allocated and a third one laid out. -/
def beforeCraft : Machine where
  eip := 0xC0105000
  cpu := {
    gprs := ⟨0, 0, 0, 1, 0xC0311F00, 2, 3, 4⟩
    segs := ⟨8, 0x10, 0x10, 0x10, 0x10, 0x10⟩
    eflags := 2
    cr3 := 0
    mem := store (store (fun _ => 0) (thirdTask.task + offEsp) 0xC0331FE0)
      (secondTask.task + offKernelStackBase) 0xC0322000
    tables := ⟨0, 0, linked.gTss⟩
    ports := [] }

/-- The second one is crafted. -/
def afterCraft : Machine := { beforeCraft with
  cpu := { beforeCraft.cpu with
    mem := taskCraftContext linked secondTask.task true 0x08048000 0xBFFF0000 beforeCraft.cpu.mem } }

/-- The first task makes the third one, and calls for it. -/
def callsThird : Machine := callSwitch afterCraft.cpu firstTask thirdTask

/-- The third one runs. -/
def thirdRuns : Machine := switched linked firstTask.task thirdTask.task callsThird.cpu

/-- And calls for the second one. -/
def callsSecond : Machine := callSwitch thirdRuns.cpu thirdTask secondTask

theorem step_crafted : contextStep linked linkedCode ⟨beforeCraft, firstTask, []⟩
    (.spawn secondTask afterCraft) ⟨afterCraft, firstTask, [secondTask]⟩ :=
  ⟨by simp, placed_secondTask, by simpa [Contexts.slots] using secondTask_apart,
    by unfold Slot.Suspended; decide, rfl⟩

theorem without_third : Without linked linkedCode secondTask ⟨afterCraft, firstTask, [secondTask]⟩
    ⟨callsThird, firstTask, [thirdTask, secondTask]⟩ := by
  refine ⟨.spawn thirdTask callsThird, by simp, by simp, ?_, placed_thirdTask, ?_, ?_, rfl⟩
  · intro s hs
    obtain rfl := List.mem_singleton.mp hs
    refine secondTask_apart.symm.kept_callSwitch (by decide) (by decide) (by decide) ?_
    unfold Slot.Suspended
    decide
  · simpa [Contexts.slots] using ⟨firstTask_apart.symm, thirdTask_apart⟩
  · unfold Slot.Suspended
    decide

theorem step_third : contextStep linked linkedCode ⟨callsThird, firstTask, [thirdTask, secondTask]⟩
    (.switch thirdTask) ⟨thirdRuns, thirdTask, [firstTask, secondTask]⟩ :=
  ⟨⟨rfl, rfl, ⟨_, wordsAt_callSwitch _ _ _⟩, by decide, by simp [Contexts.slots]⟩,
    switchTo_run linkedCode_assembled (wordsAt_callSwitch _ _ _)
      (apart_of_sub (by decide) (by decide)), rfl, by decide⟩

/-- The third task writes to its own stack. -/
theorem without_second : Without linked linkedCode secondTask
    ⟨thirdRuns, thirdTask, [firstTask, secondTask]⟩
    ⟨callsSecond, thirdTask, [firstTask, secondTask]⟩ := by
  have hesp : thirdRuns.cpu.gprs.esp = 0xC0331FF4 := by decide
  have hfirst : firstTask.Suspended thirdRuns.cpu.mem := by
    unfold Slot.Suspended
    decide
  have hsecond : secondTask.Suspended thirdRuns.cpu.mem := by
    unfold Slot.Suspended
    decide
  refine ⟨.work callsSecond, by simp, by simp, ?_, rfl⟩
  have hroom : (thirdRuns.cpu.gprs.esp - 12 - thirdTask.stack).toNat + 12 ≤ thirdTask.size := by
    rw [hesp]
    decide
  simp only [List.mem_cons, List.not_mem_nil, or_false, forall_eq_or_imp, forall_eq]
  exact ⟨firstTask_apart.symm.kept_callSwitch (by decide) (by decide) hroom hfirst,
    thirdTask_apart.kept_callSwitch (by decide) (by decide) hroom hsecond⟩

theorem step_second : contextStep linked linkedCode
    ⟨callsSecond, thirdTask, [firstTask, secondTask]⟩ (.switch secondTask)
    ⟨switched linked thirdTask.task secondTask.task callsSecond.cpu, secondTask,
      [thirdTask, firstTask]⟩ :=
  ⟨⟨rfl, rfl, ⟨_, wordsAt_callSwitch _ _ _⟩, by decide, by simp [Contexts.slots]⟩,
    switchTo_run linkedCode_assembled (wordsAt_callSwitch _ _ _)
      (apart_of_sub (by decide) (by decide)), rfl, by decide⟩

/-- The third task is made and runs before the second one gets the machine. -/
theorem crafted_program_starts_linked : ∃ s, Runs linkedCode
    (switched linked thirdTask.task secondTask.task callsSecond.cpu) s ∧
      s.eip = linked.signalCallCurtaskHandlers ∧
      WordsAt s.cpu.mem (0xC0322000 - 76) (craftedFrame 0x08048000 0xBFFF0000).words := by
  have haway : Relation.ReflTransGen (Without linked linkedCode secondTask)
      ⟨afterCraft, firstTask, [secondTask]⟩ ⟨callsSecond, thirdTask, [firstTask, secondTask]⟩ :=
    ((Relation.ReflTransGen.single without_third).tail
      ⟨.switch thirdTask, by simp [thirdTask, secondTask], by simp, step_third⟩).tail without_second
  have hbase : load beforeCraft.cpu.mem (secondTask.task + offKernelStackBase) = 0xC0322000 := by
    decide
  obtain ⟨-, -, s, hrun, hs, hframe, -⟩ := crafted_program_starts linkedCode_assembled
    (.init (s := ⟨beforeCraft, firstTask, []⟩) ⟨placed_firstTask, rfl⟩) step_crafted rfl hbase
    (by decide) (by decide) haway step_second
  exact ⟨s, hrun, hs.eip, hframe⟩

/-- The fields of the stacks of the first task and of a third one. -/
def withStacks (m : Memory) : Memory :=
  storeWords (storeWords m (firstTask.task + offKernelStackPointer) [0xC0310000, 0xC0312000])
    (thirdTask.task + offKernelStackPointer) [0xC0330000, 0xC0332000]

/-- The first task has been crafted, and is in a system call with 57 in `eax`. -/
def forkFrame : TrapFrame := { craftedFrame 0x08048000 0xBFFF0000 with eax := 57 }

def beforeFork : Memory :=
  storeWords (withStacks (store (fun _ => 0) (firstTask.task + offEsp) (0xC0312000 - 96)))
    (0xC0312000 - 76) forkFrame.words

theorem fork_child_iff_fresh :
    thirdTask.thread (forkStack linked firstTask.task thirdTask.task beforeFork) =
        freshThread thirdTask linked.interruptExit (thirdTask.base - 76)
          (forkStack linked firstTask.task thirdTask.task beforeFork) ∧
      WordsAt (forkStack linked firstTask.task thirdTask.task beforeFork) (thirdTask.base - 76)
        (craftedFrame 0x08048000 0xBFFF0000).words := by
  have hfork := @fork_child_iff linked beforeFork firstTask thirdTask placed_thirdTask
    firstTask_apart ⟨rfl, by decide, by decide⟩
    ⟨rfl, by decide, by decide⟩
  exact ⟨hfork.1.mpr (by decide), hfork.2 forkFrame (wordsAt_storeWords _ _ _ (by decide))⟩

theorem fork_after_switch_two :
    thirdTask.thread (forkStack linked leaving.cur.task thirdTask.task (withStacks returned.mem)) ≠
      freshThread thirdTask linked.interruptExit (thirdTask.base - 76)
        (forkStack linked leaving.cur.task thirdTask.task (withStacks returned.mem)) :=
  fork_after_switch linkedCode_assembled reachable_leaving (by decide) step_leaving (by decide)
    (.single without_left) step_returning placed_thirdTask firstTask_apart (by decide)
    ⟨rfl, by decide, by decide⟩ ⟨rfl, by decide, by decide⟩

end Kfs.Arch
