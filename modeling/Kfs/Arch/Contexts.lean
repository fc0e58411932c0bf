import Mathlib.Data.List.Pairwise
import Mathlib.Logic.Relation
import Kfs.Arch.SwitchTo
import Kfs.Lib.TransitionSystem

/-!
# Context switches

The tasks of the kernel share one machine. The one that runs may do anything but write to what the
others have on their stacks and in the fields that `switch_to` reads; it gives the machine away by a
call of `switch_to`, and may make new tasks and release old ones. `schedule` chooses the next task;
here it is any.

Each task has what it needs for itself, `Slot.Apart`: the allocator gives out no byte twice. From
that follows, over all runs, that a task does not notice that others have run: behind the call it has
the return address, the registers and the stack that it had before.
-/

namespace Kfs.Arch

open Kfs.Lib Kfs.Lib.Asm WordMemory

/-- The machine, the task that runs and the ones that do not. -/
structure Contexts where
  machine : Machine
  cur : Slot
  others : List Slot

namespace Contexts

def mem (k : Contexts) : Memory := k.machine.cpu.mem

/-- All tasks. -/
def slots (k : Contexts) : List Slot := k.cur :: k.others

/-- The task that runs is about to execute `switch_to(cur, next)`, and its stack has the room. -/
structure Calls (y : Symbols) (next : Slot) (k : Contexts) : Prop where
  eip : k.machine.eip = y.switchTo
  kernel : k.machine.cpu.segs.cs = 0x08
  args : ∃ ret, WordsAt k.mem k.machine.cpu.gprs.esp [ret, k.cur.task, next.task]
  room : (k.machine.cpu.gprs.esp - 16 - k.cur.stack).toNat + 28 ≤ k.cur.size
  next : next ∈ k.slots

end Contexts

/-- What can happen. -/
inductive ContextOp where
  /-- The task that runs goes on. -/
  | work (m : Machine)
  /-- It calls `switch_to`. -/
  | switch (next : Slot)
  /-- It has made a new task. -/
  | spawn (s : Slot) (m : Machine)
  /-- It has released one. -/
  | release (s : Slot)

/-- One step. -/
def contextStep (y : Symbols) (code : Code) (k : Contexts) : ContextOp → Contexts → Prop
  | .work m, k' => (∀ s ∈ k.others, s.Kept k.mem m.cpu.mem) ∧ k' = { k with machine := m }
  | .switch next, k' => k.Calls y next ∧ run code 18 k.machine = some k'.machine ∧
      k'.cur = next ∧ k'.others = k.slots.filter (· ≠ next)
  | .spawn s m, k' => (∀ s' ∈ k.others, s'.Kept k.mem m.cpu.mem) ∧ s.Placed y ∧
      (∀ s' ∈ k.slots, s.Apart s') ∧ s.Suspended m.cpu.mem ∧
      k' = { k with machine := m, others := s :: k.others }
  | .release s, k' => k' = { k with others := k.others.filter (· ≠ s) }

/-- Only the first task is there at the start. -/
def contexts (y : Symbols) (code : Code) : System Contexts ContextOp where
  init k := k.cur.Placed y ∧ k.others = []
  step := contextStep y code

/-- The tasks have nothing in common, and the ones that do not run can go on. -/
structure ContextInv (y : Symbols) (k : Contexts) : Prop where
  placed : ∀ s ∈ k.slots, s.Placed y
  apart : k.slots.Pairwise Slot.Apart
  suspended : ∀ s ∈ k.others, s.Suspended k.mem

variable {y : Symbols} {code : Code} {k k' : Contexts} {s next : Slot} {c : Cpu}

instance : Std.Symm Slot.Apart := ⟨fun _ _ h => h.symm⟩

/-! ## One switch -/

/-- What a task writes to its own stack changes nothing of another one. -/
theorem Slot.Apart.kept_sameBut {cur : Slot} (hap : cur.Apart s) (hcur : cur.size < 2 ^ 32)
    (hsize : s.size < 2 ^ 32) {p : Word} {n : ℕ} {m m' : Memory} (hmem : SameBut p n m m')
    (hroom : (p - cur.stack).toNat + n ≤ cur.size) (hs : s.Suspended m) : s.Kept m m' := by
  refine ⟨hmem.sameOn (hap.stack_fields.mono hroom hcur.le), ?_⟩
  refine hmem.sameOn fun x hx habove => ?_
  apply hap.stack_stack x (hx.mono hroom hcur.le)
  unfold Slot.Suspended at hs
  exact s.inRange_above hsize (by omega) habove

/-- Leaving one task changes nothing of another one. -/
theorem Slot.Apart.kept_suspend {cur : Slot} (hap : cur.Apart s) (hcur : cur.size < 2 ^ 32)
    (hsize : s.size < 2 ^ 32) (hroom : (c.gprs.esp - 16 - cur.stack).toNat + 16 ≤ cur.size)
    (hs : s.Suspended c.mem) : s.Kept c.mem (suspend cur.task c).mem := by
  -- first the registers are pushed, then the stack pointer is written to the task
  have hpushed : s.Kept c.mem (pushCallee c).mem :=
    hap.kept_sameBut hcur hsize (pushCallee_sameBut c) hroom hs
  have hfield : (cur.task + offEsp - (cur.task + offEsp)).toNat + 4 ≤ 16 := by
    rw [BitVec.sub_self]
    decide
  refine hpushed.trans (.store ?_ ?_ (hpushed.suspended hs) hsize)
  · exact hap.fields_fields.mono hfield (by decide)
  · exact hap.fields_stack.mono hfield (by decide)

/-- **Leaving** a task: memory has of it what its caller goes on with. -/
theorem Slot.Placed.thread_suspend (hp : s.Placed y) {ret : Word}
    (hargs : WordsAt c.mem c.gprs.esp [ret, s.task, next.task])
    (hroom : (c.gprs.esp - 16 - s.stack).toNat + 28 ≤ s.size) :
    s.Suspended (suspend s.task c).mem ∧ s.thread (suspend s.task c).mem = s.caller c := by
  have hsize := hp.size
  have hfield : ∀ k : Word, (s.task + k - (s.task + offEsp)).toNat + 4 ≤ 16 →
      WordMemory.Apart (s.task + k) 4 s.stack s.size :=
    fun k hk => hp.fields_stack.mono hk (by decide)
  have hesp : s.savedEsp (suspend s.task c).mem = c.gprs.esp - 16 := load_store _ _ _
  -- the five words and the arguments
  have hframe : WordsAt (suspend s.task c).mem (c.gprs.esp - 16) _ :=
      wordsAt_suspend hargs (by simp) <| by
    apply (hfield offEsp (by rw [BitVec.sub_self]; decide)).symm.mono _ hsize.le |>.symm
    simpa using hroom
  -- the stack above them
  have hrest : bytes (suspend s.task c).mem (c.gprs.esp + 4) (s.above (c.gprs.esp + 4)) =
      bytes c.mem (c.gprs.esp + 4) (s.above (c.gprs.esp + 4)) := by
    have hdist : (c.gprs.esp + 4 - s.stack).toNat = (c.gprs.esp - 16 - s.stack).toNat + 20 := by
      bv_omega
    apply bytes_congr (by unfold Slot.above; omega)
    have hpushed : SameOn (c.gprs.esp + 4) (s.above (c.gprs.esp + 4)) c.mem (pushCallee c).mem := by
      refine (pushCallee_sameBut c).sameOn fun x hx habove => ?_
      unfold InRange Slot.above at *
      bv_omega
    refine hpushed.trans (.store fun x hx habove => ?_)
    apply hfield offEsp (by rw [BitVec.sub_self]; decide) x hx
    exact s.inRange_above hsize (by omega) habove
  -- the other fields of the task
  have hkept : ∀ k : Word, (s.task + k - (s.task + offEsp)).toNat + 4 ≤ 16 →
      WordMemory.Apart (s.task + offEsp) 4 (s.task + k) 4 →
      load (suspend s.task c).mem (s.task + k) = load c.mem (s.task + k) := by
    intro k hk hother
    refine (load_store_of_apart hother).trans (load_congr ?_)
    apply (pushCallee_sameBut c).sameOn
    apply (hfield k hk).symm.mono _ hsize.le
    omega
  have hcr3 := hkept offCr3 (by unfold offCr3 offEsp; bv_omega)
    (apart_of_sub (by unfold offCr3 offEsp; bv_omega) (by unfold offCr3 offEsp; bv_omega))
  have htop := hkept offKernelStackBase (by unfold offKernelStackBase offEsp; bv_omega)
    (apart_of_sub (by unfold offKernelStackBase offEsp; bv_omega)
      (by unfold offKernelStackBase offEsp; bv_omega))
  have hback : c.gprs.esp - 16 + 20 = c.gprs.esp + 4 := by grind
  constructor
  · unfold Slot.Suspended
    rw [hesp]
    omega
  · have hedi := hframe.head
    have hword : ∀ (i : ℕ) (w : Word), [c.gprs.edi, c.gprs.esi, c.gprs.ebx, c.gprs.ebp, ret, s.task,
        next.task][i]? = some w →
        load (suspend s.task c).mem (c.gprs.esp - 16 + BitVec.ofNat 32 (4 * i)) = w :=
      fun i w hi => hframe.get hi
    have hesi : load (suspend s.task c).mem (c.gprs.esp - 16 + 4) = _ := hword 1 _ rfl
    have hebx : load (suspend s.task c).mem (c.gprs.esp - 16 + 8) = _ := hword 2 _ rfl
    have hebp : load (suspend s.task c).mem (c.gprs.esp - 16 + 12) = _ := hword 3 _ rfl
    have hret : load (suspend s.task c).mem (c.gprs.esp - 16 + 16) = _ := hword 4 _ rfl
    have htopOf : c.top = ret := hargs.head
    simp only [Slot.thread, Slot.caller, hesp, hback, hrest, hcr3, htop, hedi, hesi, hebx, hebp,
      hret, htopOf]

@[simp] theorem switched_mem (y : Symbols) (cur next : Word) (c : Cpu) :
    (switched y cur next c).cpu.mem = store (suspend cur c).mem (y.gTss + 4)
      (load (suspend cur c).mem (next + offKernelStackBase)) := rfl

/-- **Coming back** to a task: the machine runs what memory had of it. -/
theorem Slot.Placed.running_switched {cur : Word} (hp : next.Placed y)
    (hs : next.Suspended (suspend cur c).mem) :
    next.running y (switched y cur next.task c) = next.thread (suspend cur c).mem := by
  -- the write to the task state segment comes between the loads
  have hkept : next.Kept (suspend cur c).mem (switched y cur next.task c).cpu.mem := by
    rw [switched_mem]
    exact .store hp.tss_fields hp.tss_stack hs hp.size
  have hfield : ∀ k : Word, (next.task + k - (next.task + offEsp)).toNat + 4 ≤ 16 →
      load (switched y cur next.task c).cpu.mem (next.task + k) =
        load (suspend cur c).mem (next.task + k) :=
    fun k hk => load_congr (hkept.fields.mono hk (by decide))
  have hcr3 := hfield offCr3 (by unfold offCr3 offEsp; bv_omega)
  have htop := hfield offKernelStackBase (by unfold offKernelStackBase offEsp; bv_omega)
  have htss : load (switched y cur next.task c).cpu.mem (y.gTss + 4) =
      load (suspend cur c).mem (next.task + offKernelStackBase) := by
    rw [switched_mem, load_store]
  rw [← Slot.thread_congr hkept hs hp.size]
  simp only [Slot.thread, Slot.running, hkept.savedEsp_eq, hcr3, htop, htss]
  rfl

/-- A task that `switch_to` may be called for can go on once the caller has left. -/
theorem ContextInv.suspended_suspend (hk : ContextInv y k) (hc : k.Calls y next) (hs : s ∈ k.slots) :
    s.Suspended (suspend k.cur.task k.machine.cpu).mem := by
  have hcur := hk.placed k.cur List.mem_cons_self
  obtain ⟨ret, hargs⟩ := hc.args
  have hroom := hc.room
  cases hs with
  | head => exact (hcur.thread_suspend hargs hroom).1
  | tail _ hs =>
    have hap : k.cur.Apart s := List.rel_of_pairwise_cons hk.apart hs
    have hsize := (hk.placed s (List.mem_cons_of_mem _ hs)).size
    have hkept := hap.kept_suspend hcur.size hsize (by omega) (hk.suspended s hs)
    exact hkept.suspended (hk.suspended s hs)

/-- The machine behind a call of `switch_to`. -/
theorem ContextInv.machine_eq (h : Assembled y code) (hk : ContextInv y k) (hc : k.Calls y next)
    {m : Machine} (hrun : run code 18 k.machine = some m) :
    m = switched y k.cur.task next.task k.machine.cpu := by
  have hcur := hk.placed k.cur List.mem_cons_self
  obtain ⟨ret, hargs⟩ := hc.args
  have hfields : WordMemory.Apart (k.cur.task + offEsp) 4 (k.machine.cpu.gprs.esp - 16) 28 := by
    have hpart : WordMemory.Apart (k.cur.task + offEsp) 4 k.cur.stack k.cur.size :=
      hcur.fields_stack.mono (by rw [BitVec.sub_self]; decide) (by decide)
    exact (hpart.symm.mono hc.room hcur.size.le).symm
  have hentry : k.machine = ⟨y.switchTo, k.machine.cpu⟩ := by
    rw [← hc.eip]
  rw [hentry, switchTo_run h hargs hfields] at hrun
  exact (Option.some.inj hrun).symm

/-- A task that keeps what it has keeps it over a whole switch. -/
theorem ContextInv.thread_switched (hk : ContextInv y k) (hc : k.Calls y next) (hs : s ∈ k.slots) :
    s.Suspended (switched y k.cur.task next.task k.machine.cpu).cpu.mem ∧
      s.thread (switched y k.cur.task next.task k.machine.cpu).cpu.mem =
        s.thread (suspend k.cur.task k.machine.cpu).mem := by
  have hp := hk.placed s hs
  have hsus := hk.suspended_suspend hc hs
  have hkept : s.Kept (suspend k.cur.task k.machine.cpu).mem
      (switched y k.cur.task next.task k.machine.cpu).cpu.mem := by
    rw [switched_mem]
    exact .store hp.tss_fields hp.tss_stack hsus hp.size
  exact ⟨hkept.suspended hsus, s.thread_congr hkept hsus hp.size⟩

/-! ## All runs -/

theorem ContextInv.step (h : Assembled y code) (hk : ContextInv y k) {op : ContextOp}
    (hstep : contextStep y code k op k') : ContextInv y k' := by
  cases op with
  -- the task that runs works for itself
  | work m =>
    obtain ⟨hkept, rfl⟩ := hstep
    exact ⟨hk.placed, hk.apart, fun s hs => (hkept s hs).suspended (hk.suspended s hs)⟩
  | switch next =>
    obtain ⟨hc, hrun, hcur, hothers⟩ := hstep
    have hmachine := hk.machine_eq h hc hrun
    have hslots : ∀ s ∈ k'.slots, s ∈ k.slots := by
      intro s hs
      unfold Contexts.slots at hs
      rw [hcur, hothers] at hs
      cases hs with
      | head => exact hc.next
      | tail _ hs => exact (List.mem_filter.mp hs).1
    refine ⟨fun s hs => hk.placed s (hslots s hs), ?_, ?_⟩
    · -- the task that runs now is apart from the ones that are left
      unfold Contexts.slots
      rw [hcur, hothers]
      refine List.pairwise_cons.mpr ⟨fun s hs => ?_, hk.apart.filter _⟩
      obtain ⟨hmem, hne⟩ := List.mem_filter.mp hs
      exact hk.apart.forall hc.next hmem (by simpa using Ne.symm (of_decide_eq_true hne))
    · intro s hs
      rw [hothers] at hs
      have hmem := (List.mem_filter.mp hs).1
      unfold Contexts.mem
      rw [hmachine]
      exact (hk.thread_switched hc hmem).1
  | spawn s m =>
    obtain ⟨hkept, hp, hap, hsus, rfl⟩ := hstep
    -- a new task is apart from all the others
    have hcons := List.pairwise_cons.mp hk.apart
    refine ⟨fun s' hs' => ?_, ?_, fun s' hs' => ?_⟩
    · simp only [Contexts.slots, List.mem_cons] at hs'
      rcases hs' with rfl | rfl | hs'
      · exact hk.placed _ List.mem_cons_self
      · exact hp
      · exact hk.placed s' (List.mem_cons_of_mem _ hs')
    · refine List.pairwise_cons.mpr ⟨fun s' hs' => ?_, List.pairwise_cons.mpr ⟨fun s' hs' => ?_, hcons.2⟩⟩
      · cases hs' with
        | head => exact (hap k.cur List.mem_cons_self).symm
        | tail _ hs' => exact hcons.1 s' hs'
      · exact hap s' (List.mem_cons_of_mem _ hs')
    · cases hs' with
      | head => exact hsus
      | tail _ hs' => exact (hkept s' hs').suspended (hk.suspended s' hs')
  | release s =>
    obtain rfl := hstep
    have hsub : (k.others.filter (· ≠ s)).Sublist k.others := List.filter_sublist
    refine ⟨fun s' hs' => ?_, hk.apart.sublist (hsub.cons_cons _), fun s' hs' => ?_⟩
    · exact hk.placed s' ((hsub.cons_cons _).mem hs')
    · exact hk.suspended s' (hsub.mem hs')

theorem contexts_inv (h : Assembled y code) (hk : (contexts y code).Reachable k) :
    ContextInv y k := by
  refine hk.invariant (fun k hinit => ?_) fun _ _ _ hs hstep => hs.step h hstep
  obtain ⟨hp, hothers⟩ := hinit
  refine ⟨?_, ?_, ?_⟩ <;> simp [Contexts.slots, hothers, hp]

/-- A step that neither gives the machine to a task nor releases it. -/
def Without (y : Symbols) (code : Code) (t : Slot) (k k' : Contexts) : Prop :=
  ∃ op, op ≠ .switch t ∧ op ≠ .release t ∧ contextStep y code k op k'

/-- Such a step leaves the task what it goes on with. -/
theorem ContextInv.thread_without (h : Assembled y code) (hk : ContextInv y k) (hs : s ∈ k.others)
    (hstep : Without y code s k k') : s ∈ k'.others ∧ s.thread k'.mem = s.thread k.mem := by
  obtain ⟨op, hswitch, hrelease, hstep⟩ := hstep
  have hp := hk.placed s (List.mem_cons_of_mem _ hs)
  have hsus := hk.suspended s hs
  cases op with
  | work m =>
    obtain ⟨hkept, rfl⟩ := hstep
    exact ⟨hs, s.thread_congr (hkept s hs) hsus hp.size⟩
  | switch next =>
    obtain ⟨hc, hrun, -, hothers⟩ := hstep
    have hne : s ≠ next := fun heq => hswitch (heq ▸ rfl)
    have hmem : s ∈ k.slots := List.mem_cons_of_mem _ hs
    refine ⟨?_, ?_⟩
    · rw [hothers]
      exact List.mem_filter.mpr ⟨hmem, decide_eq_true hne⟩
    · have hap : k.cur.Apart s := List.rel_of_pairwise_cons hk.apart hs
      have hroom := hc.room
      have hkept := hap.kept_suspend (hk.placed _ List.mem_cons_self).size hp.size (by omega) hsus
      unfold Contexts.mem
      rw [hk.machine_eq h hc hrun, (hk.thread_switched hc hmem).2]
      exact s.thread_congr hkept hsus hp.size
  | spawn s' m =>
    obtain ⟨hkept, -, -, -, rfl⟩ := hstep
    exact ⟨List.mem_cons_of_mem _ hs, s.thread_congr (hkept s hs) hsus hp.size⟩
  | release s' =>
    obtain rfl := hstep
    have hne : s ≠ s' := fun heq => hrelease (heq ▸ rfl)
    exact ⟨List.mem_filter.mpr ⟨hs, decide_eq_true hne⟩, rfl⟩

theorem ContextInv.thread_run (h : Assembled y code) (hk : ContextInv y k) (hs : s ∈ k.others)
    (hrun : Relation.ReflTransGen (Without y code s) k k') :
    ContextInv y k' ∧ s ∈ k'.others ∧ s.thread k'.mem = s.thread k.mem := by
  induction hrun with
  | refl => exact ⟨hk, hs, rfl⟩
  | tail _ hstep ih =>
    obtain ⟨hinv, hmem, heq⟩ := ih
    obtain ⟨hmem', heq'⟩ := hinv.thread_without h hmem hstep
    obtain ⟨op, -, -, hop⟩ := hstep
    exact ⟨hinv.step h hop, hmem', heq'.trans heq⟩

/-- **The machine goes to a task**: it runs what memory has of it. -/
theorem ContextInv.running_switch (h : Assembled y code) (hk : ContextInv y k)
    (hs : s ∈ k.others) (hstep : contextStep y code k (.switch s) k') :
    s.running y k'.machine = s.thread k.mem := by
  obtain ⟨hc, hrun, -, -⟩ := hstep
  have hmem : s ∈ k.slots := List.mem_cons_of_mem _ hs
  have hp := hk.placed s hmem
  have hap : k.cur.Apart s := List.rel_of_pairwise_cons hk.apart hs
  have hroom := hc.room
  have hkept := hap.kept_suspend (hk.placed _ List.mem_cons_self).size hp.size (by omega)
    (hk.suspended s hs)
  rw [hk.machine_eq h hc hrun, hp.running_switched (hk.suspended_suspend hc hmem)]
  exact s.thread_congr hkept (hk.suspended s hs) hp.size

/-- What memory had of the task stays there. -/
theorem ContextInv.thread_switch (h : Assembled y code) (hk : ContextInv y k)
    (hs : s ∈ k.others) (hstep : contextStep y code k (.switch s) k') :
    s.thread k'.mem = s.thread k.mem := by
  obtain ⟨hc, hrun, -, -⟩ := hstep
  have hmem : s ∈ k.slots := List.mem_cons_of_mem _ hs
  have hp := hk.placed s hmem
  have hap : k.cur.Apart s := List.rel_of_pairwise_cons hk.apart hs
  have hroom := hc.room
  have hkept := hap.kept_suspend (hk.placed _ List.mem_cons_self).size hp.size (by omega)
    (hk.suspended s hs)
  unfold Contexts.mem
  rw [hk.machine_eq h hc hrun, (hk.thread_switched hc hmem).2]
  exact s.thread_congr hkept (hk.suspended s hs) hp.size

/-- **The machine leaves a task**: memory has what it goes on with. -/
theorem ContextInv.thread_leave (h : Assembled y code) (hk : ContextInv y k)
    (hne : next ≠ k.cur) (hstep : contextStep y code k (.switch next) k') :
    k.cur ∈ k'.others ∧ k.cur.thread k'.mem = k.cur.caller k.machine.cpu := by
  obtain ⟨hc, hrun, -, hothers⟩ := hstep
  have hp := hk.placed k.cur List.mem_cons_self
  obtain ⟨ret, hargs⟩ := hc.args
  constructor
  · rw [hothers]
    exact List.mem_filter.mpr ⟨List.mem_cons_self, decide_eq_true hne.symm⟩
  · unfold Contexts.mem
    rw [hk.machine_eq h hc hrun, (hk.thread_switched hc List.mem_cons_self).2]
    exact (hp.thread_suspend hargs hc.room).2

/-- **Switches are transparent.** A task that gives the machine away and gets it back, whatever ran in
between, is behind its call with the registers, the stack and the return address that it had; the
machine is in its address space, and a trap takes its stack. -/
theorem switch_transparent (h : Assembled y code) {k₀ k₁ k₂ k₃ : Contexts} {next : Slot}
    (hreach : (contexts y code).Reachable k₀) (hne : next ≠ k₀.cur)
    (hleave : contextStep y code k₀ (.switch next) k₁)
    (haway : Relation.ReflTransGen (Without y code k₀.cur) k₁ k₂)
    (hback : contextStep y code k₂ (.switch k₀.cur) k₃) :
    k₀.cur.running y k₃.machine = k₀.cur.caller k₀.machine.cpu := by
  have hinv := contexts_inv h hreach
  obtain ⟨hmem, hleft⟩ := hinv.thread_leave h hne hleave
  obtain ⟨hinv₂, hmem₂, hkept⟩ := (hinv.step h hleave).thread_run h hmem haway
  rw [hinv₂.running_switch h hmem₂ hback, hkept, hleft]

/-- A task that has been made goes on, whatever ran in between, with what was laid out for it. -/
theorem spawn_running (h : Assembled y code) {k₀ k₁ k₂ k₃ : Contexts} {t : Slot} {m : Machine}
    (hreach : (contexts y code).Reachable k₀) (hspawn : contextStep y code k₀ (.spawn t m) k₁)
    (haway : Relation.ReflTransGen (Without y code t) k₁ k₂)
    (hback : contextStep y code k₂ (.switch t) k₃) :
    t.running y k₃.machine = t.thread m.cpu.mem ∧ k₃.machine.cpu.segs.cs = 0x08 := by
  have hinv := contexts_inv h hreach
  have hinv₁ := hinv.step h hspawn
  obtain ⟨-, -, -, -, rfl⟩ := hspawn
  obtain ⟨hinv₂, hmem₂, hkept⟩ := hinv₁.thread_run h List.mem_cons_self haway
  refine ⟨(hinv₂.running_switch h hmem₂ hback).trans hkept, ?_⟩
  obtain ⟨hc, hrun, -, -⟩ := hback
  rw [hinv₂.machine_eq h hc hrun]
  exact hc.kernel

/-! ## Two tasks that switch to each other -/

def firstTask : Slot := ⟨0xC0300000, 0xC0310000, 8192⟩

def secondTask : Slot := ⟨0xC0301000, 0xC0320000, 8192⟩

/-- A call of `switch_to` from an address of the kernel. -/
def callSwitch (c : Cpu) (cur next : Slot) : Machine where
  eip := linked.switchTo
  cpu := ((c.push next.task).push cur.task).push 0xC0105000

/-- The first task runs and calls; the second one has never run. -/
def firstCalls : Machine :=
  let idle : Cpu := {
    gprs := ⟨0, 0, 0, 1, 0xC0311F00, 2, 3, 4⟩
    segs := ⟨8, 0x10, 0x10, 0x10, 0x10, 0x10⟩
    eflags := 2
    cr3 := 0
    mem := store (fun _ => 0) (secondTask.task + offEsp) 0xC0321FE0
    tables := ⟨0, 0, linked.gTss⟩
    ports := [] }
  callSwitch idle firstTask secondTask

/-- The second task runs. -/
def secondRuns : Machine := switched linked firstTask.task secondTask.task firstCalls.cpu

/-- And calls. -/
def secondCalls : Machine := callSwitch secondRuns.cpu secondTask firstTask

theorem placed_firstTask : firstTask.Placed linked where
  size := by decide
  fields_stack := apart_of_sub (by decide) (by decide)
  tss_fields := apart_of_sub (by decide) (by decide)
  tss_stack := apart_of_sub (by decide) (by decide)

theorem placed_secondTask : secondTask.Placed linked where
  size := by decide
  fields_stack := apart_of_sub (by decide) (by decide)
  tss_fields := apart_of_sub (by decide) (by decide)
  tss_stack := apart_of_sub (by decide) (by decide)

theorem secondTask_apart : secondTask.Apart firstTask where
  stack_stack := apart_of_sub (by decide) (by decide)
  fields_fields := apart_of_sub (by decide) (by decide)
  stack_fields := apart_of_sub (by decide) (by decide)
  fields_stack := apart_of_sub (by decide) (by decide)

theorem wordsAt_callSwitch (c : Cpu) (cur next : Slot) :
    WordsAt (callSwitch c cur next).cpu.mem (callSwitch c cur next).cpu.gprs.esp
      [0xC0105000, cur.task, next.task] := by
  have hnext : WordsAt (c.push next.task).mem (c.push next.task).gprs.esp [next.task] :=
    (wordsAt_nil.mpr trivial : WordsAt c.mem c.gprs.esp []).push (by decide) next.task
  exact (hnext.push (by simp) cur.task).push (by simp) 0xC0105000

theorem Slot.Apart.kept_callSwitch {cur : Slot} (hap : cur.Apart s) (hcur : cur.size < 2 ^ 32)
    (hsize : s.size < 2 ^ 32) (hroom : (c.gprs.esp - 12 - cur.stack).toNat + 12 ≤ cur.size)
    (hs : s.Suspended c.mem) : s.Kept c.mem (callSwitch c cur next).cpu.mem :=
  hap.kept_sameBut hcur hsize (c.pushAll_sameBut [next.task, cur.task, 0xC0105000] (by simp)) hroom hs

/-- The first task is about to leave. -/
def leaving : Contexts := ⟨firstCalls, firstTask, [secondTask]⟩

/-- The second one has the machine. -/
def left : Contexts := ⟨secondRuns, secondTask, [firstTask]⟩

/-- And gives it back. -/
def returning : Contexts := ⟨secondCalls, secondTask, [firstTask]⟩

/-- The first task is back. -/
def returned : Contexts :=
  ⟨switched linked secondTask.task firstTask.task secondCalls.cpu, firstTask, [secondTask]⟩

theorem reachable_leaving : (contexts linked linkedCode).Reachable leaving := by
  refine .step (a := .spawn secondTask firstCalls)
    (.init (s := ⟨firstCalls, firstTask, []⟩) ⟨placed_firstTask, rfl⟩) ?_
  exact ⟨by simp, placed_secondTask, by simpa [Contexts.slots] using secondTask_apart,
    by unfold Slot.Suspended; decide, rfl⟩

theorem step_leaving : contextStep linked linkedCode leaving (.switch secondTask) left :=
  ⟨⟨rfl, rfl, ⟨_, wordsAt_callSwitch _ _ _⟩, by decide, by simp [leaving, Contexts.slots]⟩,
    switchTo_run linkedCode_assembled (wordsAt_callSwitch _ _ _)
      (apart_of_sub (by decide) (by decide)), rfl, by decide⟩

/-- The second task writes to its own stack. -/
theorem without_left : Without linked linkedCode leaving.cur left returning := by
  have hesp : secondRuns.cpu.gprs.esp = 0xC0321FF4 := by decide
  have hsus : firstTask.Suspended secondRuns.cpu.mem := by
    unfold Slot.Suspended
    decide
  refine ⟨.work secondCalls, by simp, by simp, ?_, rfl⟩
  intro s hs
  obtain rfl := List.mem_singleton.mp hs
  refine secondTask_apart.kept_callSwitch (c := secondRuns.cpu) (by decide) (by decide) ?_ hsus
  rw [hesp]
  decide

theorem step_returning : contextStep linked linkedCode returning (.switch leaving.cur) returned :=
  ⟨⟨rfl, rfl, ⟨_, wordsAt_callSwitch _ _ _⟩, by decide,
      by simp [leaving, returning, Contexts.slots]⟩,
    switchTo_run linkedCode_assembled (wordsAt_callSwitch _ _ _)
      (apart_of_sub (by decide) (by decide)), rfl, by decide⟩

theorem switch_transparent_two :
    leaving.cur.running linked returned.machine = leaving.cur.caller leaving.machine.cpu :=
  switch_transparent linkedCode_assembled reachable_leaving (by decide) step_leaving
    (.single without_left) step_returning

end Kfs.Arch
