import Kfs.Proc.ForkCopy

/-!
# `fork` copies the user half exactly

Around the loops of `sys_fork` stand `task_clone`, which gives the child an empty directory, the
kernel stack, and the copy of the kernel's directory entries. The calls are listed once, with every
way in which they end; the loops are those of `Kfs.Proc.ForkCopy`.
-/

namespace Kfs.Userspace

open Kfs.Lib Kfs.Lib.Word32 Kfs.Lib.Dyadic Kfs.Memory Kfs.Utils

/-! ## The calls of `fork` -/

section Calls

variable {σ : Type} {K : KernelAlloc σ}

/-- The size of the block that `task_clone` asks for. -/
def cloneSize (task : UserTask) : ℕ := sizeofTask + sizeofSection * 5 + task.nameString.length + 1

/-- The clone of `task_clone` before its pid and its directory are stored. -/
def rawClone (task : UserTask) (addr : ℕ) : UserTask :=
  { task with addr := addr, kernelStackPointer := 0, cloned := true, vmaAreas := [] }.setName
    task.nameString

/-- The ways in which **`task_clone`** returns. -/
inductive CloneRun (K : KernelAlloc σ) (task : UserTask) (pids : IdManager) (s : Phys σ) :
    Option UserTask → IdManager → Phys σ → Prop where
  | noTask {s' : Phys σ} : K.kmallocOn (cloneSize task) gfpKernelZero s = .ok (0, s') →
      CloneRun K task pids s none pids s'
  | noPid {addr : ℕ} {pids' : IdManager} {s₁ s' : Phys σ} :
      K.kmallocOn (cloneSize task) gfpKernelZero s = .ok (addr, s₁) → addr ≠ 0 →
      idManagerAlloc pids = (none, pids') → K.kfreeOn addr s₁ = .ok s' →
      CloneRun K task pids s none pids' s'
  | noDirectory {addr pid : ℕ} {pids' : IdManager} {s₁ s₂ s' : Phys σ} :
      K.kmallocOn (cloneSize task) gfpKernelZero s = .ok (addr, s₁) → addr ≠ 0 →
      idManagerAlloc pids = (some pid, pids') → K.allocOn pageSize .lowmem s₁ = .ok (0, s₂) →
      K.kfreeOn addr s₂ = .ok s' → CloneRun K task pids s none (idManagerFree pids' pid) s'
  | cloned {addr pid cr3 : ℕ} {pids' : IdManager} {s₁ s₂ : Phys σ} :
      K.kmallocOn (cloneSize task) gfpKernelZero s = .ok (addr, s₁) → addr ≠ 0 →
      idManagerAlloc pids = (some pid, pids') → K.allocOn pageSize .lowmem s₁ = .ok (cr3, s₂) →
      cr3 ≠ 0 → CloneRun K task pids s (some { rawClone task addr with pid := pid, cr3 := cr3 })
        pids' (s₂.zeroPage cr3)

theorem taskClone_run {task : UserTask} {pids pids' : IdManager} {s s' : Phys σ}
    {new : Option UserTask} (h : taskClone K task pids s = .ok (new, pids', s')) :
    CloneRun K task pids s new pids' s' := by
  unfold taskClone at h
  rw [bind_eq_ok] at h
  obtain ⟨⟨addr, s₁⟩, hkmalloc, h⟩ := h
  dsimp only at h
  split at h
  · next hnull =>
    obtain ⟨rfl, rest⟩ := Prod.mk.inj (Except.ok.inj h)
    obtain ⟨rfl, rfl⟩ := Prod.mk.inj rest
    rw [hnull] at hkmalloc
    exact .noTask hkmalloc
  · next hne =>
    split at h
    · next hpid =>
      obtain ⟨s₂, hkfree, h⟩ := bind_eq_ok.mp h
      obtain ⟨rfl, rest⟩ := Prod.mk.inj (Except.ok.inj h)
      obtain ⟨rfl, rfl⟩ := Prod.mk.inj rest
      exact .noPid hkmalloc hne hpid hkfree
    · next hpid =>
      obtain ⟨⟨cr3, s₂⟩, halloc, h⟩ := bind_eq_ok.mp h
      dsimp only at h
      split at h
      · next hnull =>
        obtain ⟨s₃, hkfree, h⟩ := bind_eq_ok.mp h
        obtain ⟨rfl, rest⟩ := Prod.mk.inj (Except.ok.inj h)
        obtain ⟨rfl, rfl⟩ := Prod.mk.inj rest
        rw [hnull] at halloc
        exact .noDirectory hkmalloc hne hpid halloc hkfree
      · next hcr3 =>
        obtain ⟨pd, hpd, h⟩ := bind_eq_ok.mp h
        obtain ⟨rfl, -⟩ := physLinear_ok hpd
        obtain ⟨rfl, rest⟩ := Prod.mk.inj (Except.ok.inj h)
        obtain ⟨rfl, rfl⟩ := Prod.mk.inj rest
        exact .cloned hkmalloc hne hpid halloc hcr3

/-- The child with its kernel stack, its sections naming no frames yet. -/
def forkChild (new : UserTask) (kstack : ℕ) : UserTask :=
  { new with
    kernelStackPointer := kstack
    textSec := { new.textSec with pAddr := 0 }
    dataSec := { new.dataSec with pAddr := 0 }
    heapSec := { new.heapSec with pAddr := 0 }
    stackSec := { new.stackSec with pAddr := 0 } }

/-- The ways in which **`sys_fork`** returns. -/
inductive ForkRun (K : KernelAlloc σ) (current : UserTask) (pids : IdManager) (s : Phys σ) :
    Option UserTask → IdManager → Phys σ → Prop where
  | noClone {pids' : IdManager} {s' : Phys σ} : CloneRun K current pids s none pids' s' →
      ForkRun K current pids s none pids' s'
  | noStack {new : UserTask} {pids₁ pids' : IdManager} {s₁ s₂ s' : Phys σ} :
      CloneRun K current pids s (some new) pids₁ s₁ →
      K.kmallocOn defaultStackSize gfpKernelZero s₁ = .ok (0, s₂) →
      forkFail K { new with kernelStackPointer := 0 } pids₁ s₂ = .ok (none, pids', s') →
      ForkRun K current pids s none pids' s'
  | noPage {new : UserTask} {kstack : ℕ} {pids₁ pids' : IdManager} {s₁ s₂ s₃ s₄ s' : Phys σ} :
      CloneRun K current pids s (some new) pids₁ s₁ →
      K.kmallocOn defaultStackSize gfpKernelZero s₁ = .ok (kstack, s₂) → kstack ≠ 0 →
      whileOk (forkTable K current.cr3 new.cr3) (List.range' 0 userPdes) s₂ = .ok (false, s₃) →
      K.kfreeOn kstack s₃ = .ok s₄ →
      forkFail K (forkChild new kstack) pids₁ s₄ = .ok (none, pids', s') →
      ForkRun K current pids s none pids' s'
  | forked {new : UserTask} {kstack : ℕ} {pids' : IdManager} {s₁ s₂ s₃ : Phys σ} :
      CloneRun K current pids s (some new) pids' s₁ →
      K.kmallocOn defaultStackSize gfpKernelZero s₁ = .ok (kstack, s₂) → kstack ≠ 0 →
      whileOk (forkTable K current.cr3 new.cr3) (List.range' 0 userPdes) s₂ = .ok (true, s₃) →
      ForkRun K current pids s (some (forkChild new kstack)) pids'
        (s₃.memcpy (new.cr3 + 4 * userPdes) (current.cr3 + 4 * userPdes) (224 * 4))

/-- The failure path returns no task. -/
theorem forkFail_none {new : UserTask} {child : Option UserTask} {pids pids' : IdManager}
    {s s' : Phys σ} (h : forkFail K new pids s = .ok (child, pids', s')) : child = none := by
  unfold forkFail at h
  obtain ⟨s₁, -, h⟩ := bind_eq_ok.mp h
  obtain ⟨⟨pids₁, s₂⟩, -, h⟩ := bind_eq_ok.mp h
  exact (Prod.mk.inj (Except.ok.inj h)).1.symm

theorem sysFork_run {current : UserTask} {pids pids' : IdManager} {s s' : Phys σ}
    {child : Option UserTask} (h : sysFork K current pids s = .ok (child, pids', s')) :
    ForkRun K current pids s child pids' s' := by
  unfold sysFork at h
  rw [bind_eq_ok] at h
  obtain ⟨⟨new, pids₁, s₁⟩, hclone, h⟩ := h
  have hclone := taskClone_run hclone
  cases new with
  | none =>
    obtain ⟨rfl, rest⟩ := Prod.mk.inj (Except.ok.inj h)
    obtain ⟨rfl, rfl⟩ := Prod.mk.inj rest
    exact .noClone hclone
  | some new =>
    dsimp only at h
    rw [bind_eq_ok] at h
    obtain ⟨⟨kstack, s₂⟩, hkmalloc, h⟩ := h
    dsimp only at h
    split at h
    · next hnull =>
      obtain rfl := forkFail_none h
      rw [hnull] at hkmalloc h
      exact .noStack hclone hkmalloc h
    · next hne =>
      rw [bind_eq_ok] at h
      obtain ⟨⟨ok, s₃⟩, hloop, h⟩ := h
      cases ok with
      | false =>
        obtain ⟨s₄, hkfree, h⟩ := bind_eq_ok.mp h
        obtain rfl := forkFail_none h
        exact .noPage hclone hkmalloc hne hloop hkfree h
      | true =>
        simp only [Bool.not_true, Bool.false_eq_true, if_false] at h
        rw [bind_eq_ok] at h
        obtain ⟨currentPd, hcur, h⟩ := h
        obtain ⟨rfl, -⟩ := physLinear_ok hcur
        rw [bind_eq_ok] at h
        obtain ⟨newPd, hnew, h⟩ := h
        obtain ⟨rfl, -⟩ := physLinear_ok hnew
        obtain ⟨rfl, rest⟩ := Prod.mk.inj (Except.ok.inj h)
        obtain ⟨rfl, rfl⟩ := Prod.mk.inj rest
        exact .forked hclone hkmalloc hne hloop

end Calls

section Copy

variable {σ : Type} {K : KernelAlloc σ} {V : PageAlloc.View σ} {objs : σ → Set ℕ} {O : Set ℕ}
  {W L : Set (ℕ × ℕ)} {s s' s₀ : Phys σ}

/-! ## Exact copies -/

/-- **A heap call** on physical memory. -/
theorem kmallocOn_view (hK : K.Lawful V objs) (hinv : V.Inv s.alloc) {size flags ptr : ℕ}
    (hrun : K.kmallocOn size flags s = .ok (ptr, s')) :
    s'.mem = s.mem ∧ V.free s'.alloc = V.free s.alloc ∧ V.live s'.alloc = V.live s.alloc := by
  unfold KernelAlloc.kmallocOn at hrun
  rw [bind_eq_ok] at hrun
  obtain ⟨⟨ptr', a⟩, hcall, hrun⟩ := hrun
  obtain ⟨rfl, rfl⟩ := Prod.mk.inj (Except.ok.inj hrun)
  obtain ⟨hheap, -⟩ := hK.kmalloc hinv hcall
  exact ⟨rfl, hheap.free, hheap.live⟩

/-- Page tables after **`kmalloc`**, whatever it returned. -/
theorem kmallocOn_tables (hK : K.Lawful V objs) (h : PageTables (V.holding objs O) W L s)
    {size flags ptr : ℕ} (hrun : K.kmallocOn size flags s = .ok (ptr, s')) :
    ∃ O', PageTables (V.holding objs O') W L s' := by
  rcases (h.kmalloc_spec hK hrun).2 with ⟨-, h'⟩ | ⟨-, -, h'⟩
  · exact ⟨O, h'⟩
  · exact ⟨_, h'⟩

/-- The slots `W` and those of the user half of `new`. -/
def withChild (W : Set (ℕ × ℕ)) (new : ℕ) : Set (ℕ × ℕ) :=
  W ∪ { w | w.1 = new ∧ w.2 ∈ { i | i < userPdes } }

/-- What the loops start from: the directory of the child is a page of its own and its user half is
empty; the rest of memory is as it was at the call. -/
structure ChildReady (V : PageAlloc.View σ) (W L : Set (ℕ × ℕ)) (current new : ℕ) (s s' : Phys σ) :
    Prop where
  tables : PageTables V (withChild W new) (insert (new / 4096, 0) L) s'
  dir : ∀ w ∈ W, w.1 ≠ new
  blocks : ∀ b ∈ L, new / 4096 ∉ block b.1 b.2
  zero : ∀ i < userPdes, s'.mem (slotAddr (new, i)) = 0
  cells : ∀ a, a / 4096 ≠ new / 4096 → s'.mem a = s.mem a
  same : ∀ w ∈ W, SameSlot s s' w
  free : V.free s'.alloc ⊆ V.free s.alloc

/-- A held cell is not in the child's directory. -/
theorem ChildReady.heldCell {current new : ℕ} (h : ChildReady V W L current new s s') {a : ℕ}
    (ha : HeldCell W L a) :
    HeldCell (withChild W new) (insert (new / 4096, 0) L) a ∧ a / 4096 ≠ new / 4096 := by
  obtain ⟨b, hb, hin, hdir⟩ := ha
  refine ⟨⟨b, Set.mem_insert_of_mem _ hb, hin, ?_⟩, fun heq => ?_⟩
  · rintro w (hw | ⟨heq, -⟩)
    · exact hdir w hw
    · rw [heq]
      exact h.blocks b hb
  · rw [heq] at hin
    exact h.blocks b hb hin

/-- The parent's directory is another page than the child's. -/
theorem ChildReady.slot_cell {current new : ℕ} (h : ChildReady V W L current new s s') {w : ℕ × ℕ}
    (hw : w ∈ W) : slotAddr w / 4096 ≠ new / 4096 := by
  obtain ⟨hdvd, -, hi, -⟩ := h.tables.dir w (Or.inl hw)
  have hnew := (h.tables.dir (new, 0) (Or.inr ⟨rfl, show 0 < userPdes by decide⟩)).1
  have hne := h.dir w hw
  unfold slotAddr
  dsimp only at hnew
  omega

/-- The parent's user half is as at the call. -/
theorem ChildReady.userHalf {current new : ℕ} (h : ChildReady V W L current new s s')
    (hparent : UserHalf W L current s) :
    UserHalf (withChild W new) (insert (new / 4096, 0) L) current s' := by
  have hentry : ∀ n < userPdes * 1024, entryAt s' current n = entryAt s current n := fun n hn =>
    (h.same _ (hparent.slots _ (table_bound hn))).entryAt_eq
  refine ⟨fun i hi => Or.inl (hparent.slots i hi), Or.inl hparent.window, fun n hn e he off hoff => ?_,
    fun n hn e he hset => ?_⟩
  · rw [hentry n hn] at he
    exact (h.heldCell (hparent.frames n hn e he off hoff)).1
  · rw [hentry n hn] at he
    rw [h.cells _ (h.slot_cell (hparent.slots _ (table_bound hn)))]
    exact hparent.user n hn e he hset

theorem ChildReady.slots {current new : ℕ} (h : ChildReady V W L current new s s')
    (hparent : UserHalf W L current s) : ForkSlots (withChild W new) current new where
  parent i hi := Or.inl (hparent.slots i hi)
  window := Or.inl hparent.window
  child _ hi := Or.inr ⟨rfl, hi⟩
  ne := h.dir _ hparent.window

/-! ## After the loops -/

/-- The copy of the kernel's directory entries. -/
structure Shared (parent new : ℕ) (s s' : Phys σ) : Prop where
  alloc : s'.alloc = s.alloc
  cells : ∀ a, a / 4096 ≠ new / 4096 → s'.mem a = s.mem a
  user : ∀ i < userPdes, s'.mem (slotAddr (new, i)) = s.mem (slotAddr (new, i))
  kernel : ∀ i < ptCount,
    s'.mem (slotAddr (new, userPdes + i)) = s.mem (slotAddr (parent, userPdes + i))

/-- It writes no slot that is looked after, and no table. -/
theorem Shared.slot {parent new : ℕ} (h : Shared parent new s s') (htables : PageTables V W L s)
    (hnew : (new, 0) ∈ W) {w : ℕ × ℕ} (hw : w ∈ W) (huser : w.1 = new → w.2 < userPdes) :
    s'.mem (slotAddr w) = s.mem (slotAddr w) ∧ SameSlot s s' w := by
  have hword : s'.mem (slotAddr w) = s.mem (slotAddr w) := by
    by_cases heq : w.1 = new
    · obtain ⟨pd, i⟩ := w
      obtain rfl : pd = new := heq
      exact h.user i (huser rfl)
    · apply h.cells
      rw [htables.slot_page hw]
      have hdvd := (htables.dir w hw).1
      have hdvd' := (htables.dir _ hnew).1
      dsimp only at hdvd'
      omega
  refine ⟨hword, .of_cells hword fun hpres j hj => h.cells _ ?_⟩
  rw [entry_page s w hj]
  exact htables.dir_ne_table hw hpres hnew

end Copy

/-! ### A parent with pages in two tables -/

/-- The parent, whose directory is at `0x1000`. -/
def parentTask : UserTask :=
  { rawTask 0xC0400000 1 0xC0500000 Section.zero none Section.zero with cr3 := 0x1000, name := [0x61] }

/-- The slots of the directory. -/
def testSlots : Set (ℕ × ℕ) := { w | w.1 = 0x1000 ∧ w.2 < 1024 }

theorem testSlots_user : ∀ i < userPdes, (parentTask.cr3, i) ∈ testSlots :=
  fun _ hi => ⟨rfl, Nat.lt_of_lt_of_le hi (by decide)⟩

end Kfs.Userspace
