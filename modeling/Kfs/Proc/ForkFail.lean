import Kfs.Memory.CallLog
import Kfs.Proc.ForkSpec
import Kfs.Proc.Scheduler

/-!
# A `fork` that fails

`sys_fork` gives up in five places. Where one of the four requests before the loops is refused it
undoes what it has done. In the loops it goes to `fail_page_copy`, which frees the kernel stack and
leaves its address in the task that `task_release` then frees the stack of; the frames of the pages
that were copied stay taken.

The process tree and the ready queue are those of `Kfs.Proc.Scheduler`, memory and the pids those of
`Kfs.Proc.Lifecycle`, and the allocators keep a record of the call.
-/

namespace Kfs.Userspace

open Kfs.Lib Kfs.Lib.Word32 Kfs.Lib.Dyadic Kfs.Memory Kfs.Utils

/-! ## The call -/

section State

variable {σ : Type}

/-- What `fork` works on: the process tree with the ready queue, the pids and memory. -/
structure ForkState (σ : Type) where
  kernel : Proc.Kernel
  pids : IdManager
  phys : Phys σ

/-- `sys_fork` with `task_append_child` and `sched_enqueue`. The list nodes of a clone are linked to
themselves until then, and unlinking such a node changes nothing else. -/
def forkCall (K : KernelAlloc σ) (current : UserTask) (s : ForkState σ) :
    Kern (Option UserTask × ForkState σ) := do
  let (child, pids, phys) ← sysFork K current s.pids s.phys
  match child with
  | none => .ok (none, { s with pids := pids, phys := phys })
  | some child => do
    let kernel ← Proc.sysFork child.addr child.pid s.kernel
    .ok (some child, { kernel := kernel, pids := pids, phys := phys })

/-- **A failed call leaves no trace**: what the allocators have free is free again, the pids, the tree,
the queue and the translations of the user half are as they were, and the record of the call shows
nothing that is given back twice. -/
structure NoTrace (V : PageAlloc.View σ) (objs : σ → Set ℕ) (pd : ℕ)
    (s s' : ForkState (σ × List GrantEvent)) : Prop where
  free : V.free s'.phys.alloc.1 = V.free s.phys.alloc.1
  objects : objs s'.phys.alloc.1 = objs s.phys.alloc.1
  pids : s'.pids = s.pids
  processes : s'.kernel = s.kernel
  translations : ∀ n < userPdes * 1024, walk s'.phys.mem pd n = walk s.phys.mem pd n
  freedOnce : NothingFreedTwice s'.phys.alloc.2

/-- The requests that `fork` makes before its loops are all granted: the task, a pid, a page for the
directory and the kernel stack. -/
def ForkFunded (K : KernelAlloc σ) (current : UserTask) (pids : IdManager) (a : σ) : Prop :=
  ∃ addr a₁ cr3 a₂ kstack a₃, K.kmalloc (cloneSize current) gfpKernelZero a = .ok (addr, a₁) ∧
    addr ≠ 0 ∧ (idManagerAlloc pids).1 ≠ none ∧
    K.buddyAllocPages pageSize .lowmem a₁ = .ok (cr3, a₂) ∧ cr3 ≠ 0 ∧
    K.kmalloc defaultStackSize gfpKernelZero a₂ = .ok (kstack, a₃) ∧ kstack ≠ 0

end State

section Fail

variable {σ : Type} {K : KernelAlloc σ} {V : PageAlloc.View σ} {objs : σ → Set ℕ}
  {Large Spent : σ → ℕ → Prop} {O : Set ℕ} {W L : Set (ℕ × ℕ)}
  {s s' s₁ : Phys (σ × List GrantEvent)} {current : UserTask} {pids pids' : IdManager} {ptr : ℕ}

/-! ## Recorded calls on physical memory -/

theorem recorded_kmallocOn {size flags : ℕ}
    (h : K.recorded.kmallocOn size flags s = .ok (ptr, s')) :
    K.kmalloc size flags s.alloc.1 = .ok (ptr, s'.alloc.1) ∧
      s'.alloc.2 = if ptr = 0 then s.alloc.2 else .take (.object ptr) :: s.alloc.2 := by
  unfold KernelAlloc.kmallocOn at h
  obtain ⟨⟨ptr', a⟩, hcall, h⟩ := bind_eq_ok.mp h
  obtain ⟨rfl, rfl⟩ := Prod.mk.inj (Except.ok.inj h)
  exact K.recorded_kmalloc hcall

theorem recorded_kfreeOn (h : K.recorded.kfreeOn ptr s = .ok s') :
    K.kfree ptr s.alloc.1 = .ok s'.alloc.1 ∧
      s'.alloc.2 = if ptr = 0 then s.alloc.2 else .give (.object ptr) :: s.alloc.2 := by
  unfold KernelAlloc.kfreeOn at h
  obtain ⟨a, hcall, h⟩ := bind_eq_ok.mp h
  obtain rfl := Except.ok.inj h
  exact K.recorded_kfree hcall

theorem recorded_allocOn {size : ℕ} {zone : Zone}
    (h : K.recorded.allocOn size zone s = .ok (ptr, s')) :
    K.buddyAllocPages size zone s.alloc.1 = .ok (ptr, s'.alloc.1) ∧
      s'.alloc.2 = if ptr = 0 then s.alloc.2 else .take (.pages ptr) :: s.alloc.2 :=
  K.recorded_alloc (PageAlloc.allocOn_ok h).1

theorem recorded_freeOn (h : K.recorded.freeOn ptr s = .ok s') :
    s'.alloc.2 = .give (.pages ptr) :: s.alloc.2 := by
  unfold PageAlloc.freeOn at h
  obtain ⟨a, hcall, h⟩ := bind_eq_ok.mp h
  obtain rfl := Except.ok.inj h
  exact (K.recorded_free hcall).2

/-! ## Failures before the loops -/

/-- Everything that was taken has been given back, once. -/
structure Undone (V : PageAlloc.View σ) (objs : σ → Set ℕ) (pids pids' : IdManager)
    (s s' : Phys (σ × List GrantEvent)) : Prop where
  mem : ∀ a, a / 4096 ∉ V.free s.alloc.1 → s'.mem a = s.mem a
  free : V.free s'.alloc.1 = V.free s.alloc.1
  objects : objs s'.alloc.1 = objs s.alloc.1
  pids : pids' = pids
  log : s'.alloc.2.Nodup

/-- **`kfree`** shows nothing to the users of pages. -/
theorem kfreeOn_free {σ : Type} {K : KernelAlloc σ} {V : PageAlloc.View σ} {objs : σ → Set ℕ}
    {s s' : Phys σ} (hK : K.Lawful V objs) (hinv : V.Inv s.alloc) (hptr : ptr ∈ objs s.alloc)
    (hrun : K.kfreeOn ptr s = .ok s') : V.free s'.alloc = V.free s.alloc := by
  unfold KernelAlloc.kfreeOn at hrun
  obtain ⟨a, hcall, hrun⟩ := bind_eq_ok.mp hrun
  obtain rfl := Except.ok.inj hrun
  exact (hK.kfree hinv hptr hcall).1.free

/-- A task that is allocated, and given back after a step that leaves memory and the allocators as they
are. -/
theorem undone_task (hK : K.Lawful V objs)
    (h : PageTables ((recordedView V).holding (fun a => objs a.1) O) W L s) (hlog : s.alloc.2 = [])
    {size flags : ℕ} (hkmalloc : K.recorded.kmallocOn size flags s = .ok (ptr, s₁)) (hne : ptr ≠ 0)
    (hkfree : K.recorded.kfreeOn ptr s₁ = .ok s') (hpids : pids' = pids) :
    Undone V objs pids pids' s s' := by
  have hR := hK.recorded
  obtain ⟨hmem₁, hnull | ⟨-, hfresh, h₁⟩⟩ := h.kmalloc_spec hR hkmalloc
  · exact absurd hnull.1 hne
  obtain ⟨hmem', h'⟩ := h₁.kfree_spec hR (Set.mem_insert ptr O) hkfree
  obtain ⟨-, hfree₁, -⟩ := kmallocOn_view hR h.inv.1 hkmalloc
  have hobj : ptr ∈ objs s₁.alloc.1 := by
    have : objs s₁.alloc.1 = insert ptr O := h₁.inv.2
    rw [this]
    exact Set.mem_insert ptr O
  have hfree' := kfreeOn_free hR h₁.inv.1 hobj hkfree
  refine ⟨fun a _ => by rw [hmem', hmem₁], hfree'.trans hfree₁, ?_, hpids, ?_⟩
  · have hbefore : objs s.alloc.1 = O := h.inv.2
    have hafter : objs s'.alloc.1 = insert ptr O \ {ptr} := h'.inv.2
    rw [hafter, hbefore, Set.insert_sdiff_self_of_notMem hfresh]
  · rw [(recorded_kfreeOn hkfree).2, if_neg hne, (recorded_kmallocOn hkmalloc).2, if_neg hne, hlog]
    simp

/-- **`task_clone` fails.** -/
theorem CloneRun.undone (hK : K.Lawful V objs)
    (h : PageTables ((recordedView V).holding (fun a => objs a.1) O) W L s) (hlog : s.alloc.2 = [])
    (hpids : pids.Valid) (hrun : CloneRun K.recorded current pids s none pids' s') :
    Undone V objs pids pids' s s' ∧ ¬ ForkFunded K current pids s.alloc.1 := by
  have hR := hK.recorded
  cases hrun with
  | noTask hkmalloc =>
    obtain ⟨hcall, hrec⟩ := recorded_kmallocOn hkmalloc
    obtain ⟨hmem, hfree, -⟩ := kmallocOn_view hR h.inv.1 hkmalloc
    refine ⟨⟨fun a _ => congrFun hmem a, hfree, ?_, rfl, ?_⟩, ?_⟩
    · have := (hK.kmalloc h.inv.1 hcall).2
      rw [if_pos rfl] at this
      exact this
    · rw [hrec, if_pos rfl, hlog]
      exact List.nodup_nil
    · rintro ⟨addr, a₁, -, -, -, -, hcall', hne, -⟩
      exact hne (Prod.mk.inj (Except.ok.inj (hcall'.symm.trans hcall))).1
  | @noPid addr _ s₁ _ hkmalloc hne hpid hkfree =>
    refine ⟨undone_task hK h hlog hkmalloc hne hkfree ?_, ?_⟩
    · have hfst : (idManagerAlloc pids).1 = none := by rw [hpid]
      have hnone := IdManager.alloc_none hfst
      rw [hpid] at hnone
      exact hnone
    · rintro ⟨-, -, -, -, -, -, -, -, hsome, -⟩
      rw [hpid] at hsome
      exact hsome rfl
  | @noDirectory addr pid pids₁ s₁ s₂ _ hkmalloc hne hpid halloc hkfree =>
    obtain ⟨hcall, hrec⟩ := recorded_kmallocOn hkmalloc
    obtain ⟨hcall₁, -⟩ := recorded_allocOn halloc
    have hsame : s₂ = s₁ := by
      obtain ⟨O₁, h₁⟩ := kmallocOn_tables hR h hkmalloc
      rcases h₁.alloc_spec (hR.pages O₁) pageSize .lowmem with hnull | ⟨p, s₃, hok, hnew⟩
      · exact (Prod.mk.inj (Except.ok.inj (halloc.symm.trans hnull))).2
      · have hp := (Prod.mk.inj (Except.ok.inj (halloc.symm.trans hok))).1
        have hp0 := hnew.ne_zero
        omega
    rw [hsame] at hkfree
    refine ⟨undone_task hK h hlog hkmalloc hne hkfree (IdManager.free_alloc hpids hpid), ?_⟩
    rintro ⟨addr', a₁, cr3, a₂, -, -, hcall', -, -, hcall₁', hcr3, -⟩
    obtain ⟨-, rfl⟩ := Prod.mk.inj (Except.ok.inj (hcall'.symm.trans hcall))
    exact hcr3 (Prod.mk.inj (Except.ok.inj (hcall₁'.symm.trans hcall₁))).1

/-- **`vmm_destroy_user_pd`** on a directory whose user half is empty. -/
theorem vmmDestroyUserPd_empty {σ : Type} {A : PageAlloc σ} {pd : ℕ} {s : Phys σ}
    (hlt : pd < highmemStart) (habs : ∀ i < userPdes, s.mem (pd + 4 * i) = 0) :
    vmmDestroyUserPd A pd s = A.freeOn pd s := by
  have hloop : ∀ is : List ℕ, (∀ i ∈ is, i < userPdes) → is.foldlM (freePt A pd) s = .ok s := by
    intro is
    induction is with
    | nil => exact fun _ => rfl
    | cons i is ih =>
      intro his
      have hturn : freePt A pd s i = .ok s := by
        unfold freePt
        rw [habs i (his i List.mem_cons_self), flagIsSet_zero]
        rfl
      rw [List.foldlM_cons, hturn, ok_bind]
      exact ih fun j hj => his j (List.mem_cons_of_mem i hj)
  unfold vmmDestroyUserPd vmmFreePtRange
  rw [physLinear_eq hlt, ok_bind, hloop, ok_bind]
  · rfl
  · intro i hi
    rw [List.mem_range'_1] at hi
    omega

/-- What the code at **`fail_kernel_stack`** calls. -/
theorem forkFail_calls {σ : Type} {K : KernelAlloc σ} {s s' : Phys σ} {new : UserTask}
    {pids pids' : IdManager} (h : forkFail K new pids s = .ok (none, pids', s')) :
    ∃ s₁ s₂, vmmDestroyUserPd K.toPageAlloc new.cr3 s = .ok s₁ ∧
      K.kfreeOn new.kernelStackPointer s₁ = .ok s₂ ∧ K.kfreeOn new.addr s₂ = .ok s' ∧
      pids' = idManagerFree pids new.pid := by
  unfold forkFail at h
  obtain ⟨s₁, hdestroy, h⟩ := bind_eq_ok.mp h
  obtain ⟨⟨pids₁, s₃⟩, hrelease, h⟩ := bind_eq_ok.mp h
  obtain ⟨-, rest⟩ := Prod.mk.inj (Except.ok.inj h)
  obtain ⟨rfl, rfl⟩ := Prod.mk.inj rest
  unfold taskRelease at hrelease
  obtain ⟨s₂, hstack, hrelease⟩ := bind_eq_ok.mp hrelease
  obtain ⟨s₄, htask, hrelease⟩ := bind_eq_ok.mp hrelease
  obtain ⟨rfl, rfl⟩ := Prod.mk.inj (Except.ok.inj hrelease)
  exact ⟨s₁, s₂, hdestroy, hstack, htask, rfl⟩

/-- A page that has been handed out. -/
theorem allocOn_taken {σ : Type} {A : PageAlloc σ} {V : PageAlloc.View σ} {s s' : Phys σ}
    (hA : A.Lawful V) (hinv : V.Inv s.alloc) {zone : Zone}
    (h : A.allocOn pageSize zone s = .ok (ptr, s')) (hne : ptr ≠ 0) :
    ∃ p, ptr = p * 4096 ∧ PageAlloc.Taken V s.alloc s'.alloc zone p 0 := by
  have hcall := (PageAlloc.allocOn_ok h).1
  rcases hA.alloc hinv pageSize zone with hnull | ⟨p, a', hok, ht⟩
  · exact absurd (Prod.mk.inj (Except.ok.inj (hcall.symm.trans hnull))).1 hne
  · obtain ⟨rfl, rfl⟩ := Prod.mk.inj (Except.ok.inj (hcall.symm.trans hok))
    rw [sizeToOrder_pageSize] at ht
    exact ⟨p, rfl, ht⟩

/-- **`kfree(NULL)`** does nothing. -/
theorem recorded_kfreeOn_null (hK : K.Contract V objs Large Spent) (hinv : V.Inv s.alloc.1)
    (hnull : 0 ∉ objs s.alloc.1) (h : K.recorded.kfreeOn 0 s = .ok s') : s' = s := by
  obtain ⟨hcall, hrec⟩ := recorded_kfreeOn h
  rw [hK.kfree_spent hinv (hK.spent_zero _) hnull] at hcall
  unfold KernelAlloc.kfreeOn at h
  obtain ⟨a, -, h⟩ := bind_eq_ok.mp h
  obtain rfl := Except.ok.inj h
  rw [if_pos rfl] at hrec
  rw [show a = s.alloc from Prod.ext (Except.ok.inj hcall).symm hrec]

/-- **The kernel stack is refused.** -/
theorem undone_noStack (hK : K.Contract V objs Large Spent)
    (h : PageTables ((recordedView V).holding (fun a => objs a.1) O) W L s) (hnull : 0 ∉ O)
    (hlog : s.alloc.2 = []) (hpids : pids.Valid) {new : UserTask} {pids₁ : IdManager}
    {s₂ : Phys (σ × List GrantEvent)}
    (hclone : CloneRun K.recorded current pids s (some new) pids₁ s₁)
    (hstack : K.recorded.kmallocOn defaultStackSize gfpKernelZero s₁ = .ok (0, s₂))
    (hfail : forkFail K.recorded { new with kernelStackPointer := 0 } pids₁ s₂ =
      .ok (none, pids', s')) :
    Undone V objs pids pids' s s' ∧ ¬ ForkFunded K current pids s.alloc.1 := by
  have hR := hK.toLawful.recorded
  obtain ⟨s₃, s₄, hdestroy, hnone, htask, rfl⟩ := forkFail_calls hfail
  cases hclone with
  | @cloned addr pid cr3 _ t₁ t₂ hkmalloc hne hpid halloc hcr3 =>
    obtain ⟨hmem₁, hzero | ⟨-, hfresh, h₁⟩⟩ := h.kmalloc_spec hR hkmalloc
    · exact absurd hzero.1 hne
    obtain ⟨p, rfl, ht⟩ := allocOn_taken (hR.pages _) h₁.inv halloc hcr3
    have hself := self_mem_block p 0
    rcases h₁.newDirectory_spec (hR.pages _) with hnull' | ⟨q, t₂', hok, hnew⟩
    · exact absurd (Prod.mk.inj (Except.ok.inj (halloc.symm.trans hnull'))).1 hcr3
    obtain ⟨hpq, rfl⟩ := Prod.mk.inj (Except.ok.inj (halloc.symm.trans hok))
    obtain rfl : p = q := Nat.eq_of_mul_eq_mul_right (by norm_num) hpq
    obtain ⟨-, hlow, hnotL, hdir, -, h₂, -, hwords⟩ := hnew
    obtain ⟨hmem₂, ⟨-, h₃⟩ | hsome⟩ := h₂.kmalloc_spec hR hstack
    swap
    · exact absurd rfl hsome.1
    -- the directory has no tables, so only its page is given back
    rw [show ({ rawClone current addr with pid := pid, cr3 := p * 4096, kernelStackPointer := 0 } :
      UserTask).cr3 = p * 4096 from rfl, vmmDestroyUserPd_empty hlow] at hdestroy
    swap
    · intro i hi
      rw [hmem₂]
      exact hwords i (Nat.lt_of_lt_of_le hi (by decide))
    obtain ⟨s₃', hok₃, hmem₃, h₄, hfree₃⟩ := h₃.free_spec (hR.pages _) (Set.mem_insert (p, 0) L) (by
      intro w hw hin
      rw [block_zero] at hin
      have hin : w.1 / 4096 = p := hin
      have hdvd := (h₃.dir w hw).1
      have hne' := hdir w hw
      omega)
    obtain rfl := Except.ok.inj (hdestroy.symm.trans hok₃)
    have hobjs : objs s₃.alloc.1 = insert addr O := h₄.inv.2
    have hnull₃ : 0 ∉ objs s₃.alloc.1 := by
      rw [hobjs]
      rintro (heq | hmem)
      · exact hne heq.symm
      · exact hnull hmem
    obtain rfl := recorded_kfreeOn_null hK h₄.inv.1 hnull₃ hnone
    have htask : K.recorded.kfreeOn addr s₄ = .ok s' := htask
    obtain ⟨hmem', h'⟩ := h₄.kfree_spec hR (Set.mem_insert addr O) htask
    have hlive : addr ∈ objs s₄.alloc.1 := by
      rw [hobjs]
      exact Set.mem_insert addr O
    have hfree' := kfreeOn_free hR h₄.inv.1 hlive htask
    obtain ⟨-, hfree₁, -⟩ := kmallocOn_view hR h.inv.1 hkmalloc
    obtain ⟨-, hfree₂, -⟩ := kmallocOn_view hR h₂.inv.1 hstack
    refine ⟨⟨fun a ha => ?_, ?_, ?_, IdManager.free_alloc hpids hpid, ?_⟩, ?_⟩
    · -- the page of the directory was free
      have hout : ¬ (p * 4096 ≤ a ∧ a < p * 4096 + pageSize) := by
        intro hin
        apply ha
        have hpage : a / 4096 = p := by
          unfold pageSize at hin
          omega
        have hfree : p ∈ (recordedView V).free s.alloc := by
          rw [← hfree₁]
          exact ht.subset hself
        rw [hpage]
        exact hfree
      rw [hmem', hmem₃, hmem₂, Phys.zeroPage_mem, if_neg hout, (PageAlloc.allocOn_ok halloc).2, hmem₁]
    · calc V.free s'.alloc.1
        _ = V.free s₄.alloc.1 := hfree'
        _ = V.free s₂.alloc.1 ∪ block p 0 := hfree₃
        _ = V.free t₁.alloc.1 \ block p 0 ∪ block p 0 := congrArg (· ∪ _) (hfree₂.trans ht.free)
        _ = V.free t₁.alloc.1 := Set.sdiff_union_of_subset ht.subset
        _ = V.free s.alloc.1 := hfree₁
    · have hbefore : objs s.alloc.1 = O := h.inv.2
      have hafter : objs s'.alloc.1 = insert addr O \ {addr} := h'.inv.2
      rw [hafter, hbefore, Set.insert_sdiff_self_of_notMem hfresh]
    · have hlog₁ : t₁.alloc.2 = [.take (.object addr)] := by
        rw [(recorded_kmallocOn hkmalloc).2, if_neg hne, hlog]
      have hlog₂ : s₂.alloc.2 = .take (.pages (p * 4096)) :: t₁.alloc.2 := by
        rw [(recorded_kmallocOn hstack).2, if_pos rfl, Phys.zeroPage_alloc, (recorded_allocOn halloc).2,
          if_neg hcr3]
      rw [(recorded_kfreeOn htask).2, if_neg hne, recorded_freeOn hdestroy, hlog₂, hlog₁]
      simp
    · rintro ⟨addr', a₁, cr3, a₂, kstack, a₃, hcall₁, -, -, hcall₂, -, hcall₃, hkstack⟩
      obtain ⟨-, rfl⟩ := Prod.mk.inj (Except.ok.inj (hcall₁.symm.trans (recorded_kmallocOn hkmalloc).1))
      obtain ⟨-, rfl⟩ := Prod.mk.inj (Except.ok.inj (hcall₂.symm.trans (recorded_allocOn halloc).1))
      exact hkstack (Prod.mk.inj (Except.ok.inj (hcall₃.symm.trans (recorded_kmallocOn hstack).1))).1

/-! ## Failures in the loops -/

/-- **`vmm_destroy_user_pd`** gives pages back and nothing else. -/
theorem recorded_destroy {pd : ℕ} (h : vmmDestroyUserPd K.recorded.toPageAlloc pd s = .ok s') :
    ∃ mid, s'.alloc.2 = mid ++ s.alloc.2 ∧ ∀ e ∈ mid, ∃ p, e = .give (.pages p) := by
  have hloop : ∀ (is : List ℕ) {s s' : Phys (σ × List GrantEvent)},
      is.foldlM (freePt K.recorded.toPageAlloc pd) s = .ok s' →
      ∃ mid, s'.alloc.2 = mid ++ s.alloc.2 ∧ ∀ e ∈ mid, ∃ p, e = .give (.pages p) := by
    intro is
    induction is with
    | nil =>
      intro s s' hrun
      obtain rfl := Except.ok.inj hrun
      exact ⟨[], rfl, nofun⟩
    | cons i is ih =>
      intro s s' hrun
      rw [List.foldlM_cons, bind_eq_ok] at hrun
      obtain ⟨s₁, hturn, hrest⟩ := hrun
      obtain ⟨mid, hlog, hmid⟩ := ih hrest
      unfold freePt at hturn
      split at hturn
      · -- a table is given back
        obtain ⟨a, hcall, hturn⟩ := bind_eq_ok.mp hturn
        obtain rfl := Except.ok.inj hturn
        refine ⟨mid ++ [.give (.pages (getEntryAddr (s.mem (pd + 4 * i))))], ?_, fun e he => ?_⟩
        · rw [hlog, Phys.write_alloc, (K.recorded_free hcall).2, List.append_assoc]
          rfl
        · rcases List.mem_append.mp he with he | he
          · exact hmid e he
          · exact ⟨_, List.mem_singleton.mp he⟩
      · obtain rfl := Except.ok.inj hturn
        exact ⟨mid, hlog, hmid⟩
  unfold vmmDestroyUserPd vmmFreePtRange at h
  obtain ⟨s₁, hrange, h⟩ := bind_eq_ok.mp h
  obtain ⟨pdVirt, hpd, hrange⟩ := bind_eq_ok.mp hrange
  obtain ⟨rfl, -⟩ := physLinear_ok hpd
  obtain ⟨mid, hlog, hmid⟩ := hloop _ hrange
  obtain ⟨a, hcall, h⟩ := bind_eq_ok.mp h
  obtain rfl := Except.ok.inj h
  refine ⟨.give (.pages pd) :: mid, ?_, fun e he => ?_⟩
  · rw [(K.recorded_free hcall).2, hlog]
    rfl
  · rcases List.mem_cons.mp he with rfl | he
    · exact ⟨pd, rfl⟩
    · exact hmid e he

/-- **The kernel stack is freed twice**: at `fail_page_copy`, and by `task_release`. -/
theorem freedTwice_of_fail {new : UserTask} (hne : ptr ≠ 0) (hptr : new.kernelStackPointer = ptr)
    (hkfree : K.recorded.kfreeOn ptr s = .ok s₁)
    (hfail : forkFail K.recorded new pids s₁ = .ok (none, pids', s')) :
    ¬ NothingFreedTwice s'.alloc.2 := by
  obtain ⟨s₂, s₃, hdestroy, hstack, htask, -⟩ := forkFail_calls hfail
  obtain ⟨mid, hlog, hmid⟩ := recorded_destroy hdestroy
  rw [hptr] at hstack
  have hlog₃ : s₃.alloc.2 = .give (.object ptr) :: (mid ++ .give (.object ptr) :: s.alloc.2) := by
    rw [(recorded_kfreeOn hstack).2, if_neg hne, hlog, (recorded_kfreeOn hkfree).2, if_neg hne]
  apply not_nothingFreedTwice hmid
  rw [(recorded_kfreeOn htask).2]
  split
  · exact ⟨[], hlog₃⟩
  · exact ⟨[.give (.object new.addr)], by rw [hlog₃]; rfl⟩

/-- The four requests were granted where the loops are reached. -/
theorem CloneRun.funded {new : UserTask} {kstack : ℕ} {s₂ : Phys (σ × List GrantEvent)}
    (hclone : CloneRun K.recorded current pids s (some new) pids' s₁)
    (hstack : K.recorded.kmallocOn defaultStackSize gfpKernelZero s₁ = .ok (kstack, s₂))
    (hne : kstack ≠ 0) : ForkFunded K current pids s.alloc.1 := by
  cases hclone with
  | @cloned addr pid cr3 _ t₁ t₂ hkmalloc haddr hpid halloc hcr3 =>
    refine ⟨addr, _, cr3, _, kstack, _, (recorded_kmallocOn hkmalloc).1, haddr, ?_,
      (recorded_allocOn halloc).1, hcr3, (recorded_kmallocOn hstack).1, hne⟩
    rw [hpid]
    exact Option.some_ne_none pid

/-! ## The whole call -/

/-- The parent's user half in two states whose memory agrees outside the free pages. -/
theorem walk_of_undone (h : PageTables ((recordedView V).holding (fun a => objs a.1) O) W L s)
    (hR : K.recorded.Lawful (recordedView V) fun a => objs a.1) {pd n : ℕ} (hw : (pd, n / 1024) ∈ W)
    (hmem : ∀ a, a / 4096 ∉ V.free s.alloc.1 → s'.mem a = s.mem a) :
    walk s'.mem pd n = walk s.mem pd n := by
  apply walk_congr
  · apply hmem
    rw [h.slot_page hw]
    exact (h.dir _ hw).2.2.2
  · intro hpres
    apply hmem
    rw [entry_page s _ (Nat.mod_lt n (by norm_num))]
    exact h.table_notFree (hR.pages O) hw hpres

/-- **A failed `sys_fork` leaves no trace** exactly where one of the requests before its loops was
refused. -/
theorem failedFork_noTrace_iff (hK : K.Contract V objs Large Spent)
    {s s' : ForkState (σ × List GrantEvent)}
    (h : PageTables ((recordedView V).holding (fun a => objs a.1) O) W L s.phys) (hnull : 0 ∉ O)
    (hparent : ∀ i < userPdes, (current.cr3, i) ∈ W) (hpids : s.pids.Valid)
    (hlog : s.phys.alloc.2 = []) (hrun : forkCall K.recorded current s = .ok (none, s')) :
    NoTrace V objs current.cr3 s s' ↔ ¬ ForkFunded K current s.pids s.phys.alloc.1 := by
  unfold forkCall at hrun
  obtain ⟨⟨child, pids', phys'⟩, hfork, hrun⟩ := bind_eq_ok.mp hrun
  cases child with
  | some child =>
    obtain ⟨kernel, -, hrun⟩ := bind_eq_ok.mp hrun
    cases (Prod.mk.inj (Except.ok.inj hrun)).1
  | none =>
    obtain rfl := (Prod.mk.inj (Except.ok.inj hrun)).2
    have hundone : Undone V objs s.pids pids' s.phys phys' ∧
        ¬ ForkFunded K current s.pids s.phys.alloc.1 →
        (NoTrace V objs current.cr3 s { s with pids := pids', phys := phys' } ↔
          ¬ ForkFunded K current s.pids s.phys.alloc.1) := by
      rintro ⟨hundone, hstarved⟩
      refine iff_of_true ⟨hundone.free, hundone.objects, hundone.pids, rfl, fun n hn => ?_,
        .of_nodup hundone.log⟩ hstarved
      exact walk_of_undone h hK.toLawful.recorded (hparent _ (table_bound hn)) hundone.mem
    cases sysFork_run hfork with
    | noClone hclone => exact hundone (hclone.undone hK.toLawful h hlog hpids)
    | noStack hclone hstack hfail =>
      exact hundone (undone_noStack hK h hnull hlog hpids hclone hstack hfail)
    | noPage hclone hstack hne hloop hkfree hfail =>
      refine iff_of_false (fun hno => ?_) (not_not.mpr (hclone.funded hstack hne))
      exact freedTwice_of_fail hne rfl hkfree hfail hno.freedOnce

end Fail

/-! ### Two calls that fail -/

/-- A mapping there. -/
theorem mapPage_testSlots {L : Set (ℕ × ℕ)} {s s' : Phys (BuddyRun × BumpHeap)} {v p : ℕ} {ok : Bool}
    (h : PageTables ((bumpView buddyView).holding bumpObjs ∅) testSlots L s) (hv : v < 2 ^ 32)
    (hrun : vmmMapPage (bumpKernel buddyPageAlloc).toPageAlloc 0x1000 v p 7 s = .ok (ok, s')) :
    PageTables ((bumpView buddyView).holding bumpObjs ∅) testSlots L s' := by
  have hw : ((0x1000 : ℕ), v / 4096 / 1024) ∈ testSlots := ⟨rfl, by dsimp only; omega⟩
  rcases h.mapPage_spec ((bumpKernel_lawful buddyPageAlloc_lawful).pages ∅) (p := p) hw
    (by decide : flagIsSet 7 ptePresentBit = true) with hfail | ⟨s₁, hok, htables, -⟩
  · obtain ⟨-, rfl⟩ := Prod.mk.inj (Except.ok.inj (hrun.symm.trans hfail))
    exact h
  · obtain ⟨-, rfl⟩ := Prod.mk.inj (Except.ok.inj (hrun.symm.trans hok))
    exact htables

/-- The state of the call that finds memory so. -/
def forkState (s : Phys (BuddyRun × BumpHeap)) : ForkState ((BuddyRun × BumpHeap) × List GrantEvent) where
  kernel := Proc.Kernel.initProcess 1 2 3
  pids := idManagerCreate 32768 fun _ => 0
  phys := s.withRecord

/-- `LOWMEM` is taken. -/
def fullSpace : Kern (Phys (BuddyRun × BumpHeap)) :=
  takeBlocks (bumpKernel buddyPageAlloc).toPageAlloc .lowmem [64 * 4096] emptySpace

/-- A parent with two pages, and one page of `HIGHMEM` that is free. -/
def crowdedSpace : Kern (Phys (BuddyRun × BumpHeap)) := do
  let (page, s) ← (bumpKernel buddyPageAlloc).allocOn (32 * 4096) .highmem emptySpace
  let s ← takeBlocks (bumpKernel buddyPageAlloc).toPageAlloc .highmem
    [16 * 4096, 8 * 4096, 4 * 4096, 2 * 4096, 4096] s
  let (_, s) ← vmmMapPage (bumpKernel buddyPageAlloc).toPageAlloc 0x1000 0x3FE000 page 7 s
  let (_, s) ← vmmMapPage (bumpKernel buddyPageAlloc).toPageAlloc 0x1000 0x3FF000 (page + 4096) 7 s
  .ok s

theorem crowdedSpace_tables {s : Phys (BuddyRun × BumpHeap)} (h : crowdedSpace = .ok s) :
    ∃ L, PageTables ((bumpView buddyView).holding bumpObjs ∅) testSlots L s := by
  have hA := (bumpKernel_lawful buddyPageAlloc_lawful).pages ∅
  unfold crowdedSpace at h
  obtain ⟨⟨page, s₁⟩, halloc, h⟩ := bind_eq_ok.mp h
  obtain ⟨s₂, htake, h⟩ := bind_eq_ok.mp h
  obtain ⟨⟨ok, s₃⟩, hmap, h⟩ := bind_eq_ok.mp h
  obtain ⟨⟨ok', s₄⟩, hmap', h⟩ := bind_eq_ok.mp h
  obtain rfl := Except.ok.inj h
  have h₁ : ∃ L, PageTables ((bumpView buddyView).holding bumpObjs ∅) testSlots L s₁ := by
    rcases emptySpace_tables.alloc_spec hA (32 * 4096) .highmem with hnull | ⟨p, s₁', hok, hnew⟩
    · obtain ⟨-, rfl⟩ := Prod.mk.inj (Except.ok.inj (halloc.symm.trans hnull))
      exact ⟨_, emptySpace_tables⟩
    · obtain ⟨-, rfl⟩ := Prod.mk.inj (Except.ok.inj (halloc.symm.trans hok))
      exact ⟨_, hnew.tables⟩
  obtain ⟨L₁, h₁⟩ := h₁
  obtain ⟨L₂, h₂⟩ := takeBlocks_tables hA _ h₁ htake
  exact ⟨L₂, mapPage_testSlots (mapPage_testSlots h₂ (by norm_num) hmap) (by norm_num) hmap'⟩

/-- Whether a child is returned, the state of a page before and after the call, and the record. -/
def failView (page : ℕ) (space : Kern (Phys (BuddyRun × BumpHeap))) :
    Kern (Bool × ℕ × ℕ × List GrantEvent) := do
  let s ← space
  let (child, s') ← forkCall (bumpKernel buddyPageAlloc).recorded parentTask (forkState s)
  .ok (child.isSome, pageGetState (s.alloc.1.buddy.pages page),
    pageGetState (s'.phys.alloc.1.1.buddy.pages page), s'.phys.alloc.2)

theorem failView_ok {page st st' : ℕ} {log : List GrantEvent} {space : Kern (Phys (BuddyRun × BumpHeap))}
    (h : (failView page space).toOption = some (false, st, st', log)) : ∃ s s', space = .ok s ∧
      forkCall (bumpKernel buddyPageAlloc).recorded parentTask (forkState s) = .ok (none, s') ∧
      pageGetState (s.alloc.1.buddy.pages page) = st ∧
      pageGetState (s'.phys.alloc.1.1.buddy.pages page) = st' ∧ s'.phys.alloc.2 = log := by
  cases hview : failView page space with
  | error e =>
    rw [hview] at h
    cases h
  | ok r =>
    rw [hview] at h
    obtain rfl := Option.some.inj h
    unfold failView at hview
    obtain ⟨s, hspace, hview⟩ := bind_eq_ok.mp hview
    obtain ⟨⟨child, s'⟩, hcall, hview⟩ := bind_eq_ok.mp hview
    simp only [Except.ok.injEq, Prod.mk.injEq] at hview
    obtain ⟨hchild, hst, hst', hlog⟩ := hview
    cases child with
    | some child => cases hchild
    | none => exact ⟨s, s', hspace, hcall, hst, hst', hlog⟩

theorem fullSpace_view : (failView 0x3803F fullSpace).toOption =
    some (false, pageStateFree, pageStateFree,
      [.give (.object 0xD0000000), .take (.object 0xD0000000)]) := by
  decide +kernel

/-- There is no page for the directory. -/
theorem fullSpace_starves : (do
    let s ← fullSpace
    let (_, a) ← (bumpKernel buddyPageAlloc).kmalloc (cloneSize parentTask) gfpKernelZero s.alloc
    let (cr3, _) ← (bumpKernel buddyPageAlloc).buddyAllocPages pageSize .lowmem a
    Except.ok cr3).toOption = some 0 := by
  decide +kernel

theorem failedFork_noTrace_iff_fullSpace : ∃ s s', fullSpace = .ok s ∧
    forkCall (bumpKernel buddyPageAlloc).recorded parentTask (forkState s) = .ok (none, s') ∧
    NoTrace (bumpView buddyView) bumpObjs parentTask.cr3 (forkState s) s' := by
  obtain ⟨s, s', hspace, hrun, -⟩ := failView_ok fullSpace_view
  have hA := (bumpKernel_lawful buddyPageAlloc_lawful).pages ∅
  obtain ⟨L, htables⟩ := takeBlocks_tables hA _ emptySpace_tables hspace
  refine ⟨s, s', hspace, hrun, (failedFork_noTrace_iff (bumpKernel_contract buddyPageAlloc_lawful
    fun _ _ _ _ _ => buddyPageAlloc_order_lt) htables.withRecord (Set.notMem_empty 0) testSlots_user
    (IdManager.create_valid (by norm_num) _) rfl hrun).mpr ?_⟩
  rintro ⟨addr, a₁, cr3, a₂, -, -, hkmalloc, -, -, halloc, hne, -⟩
  have hstarved := fullSpace_starves
  have hkmalloc : (bumpKernel buddyPageAlloc).kmalloc (cloneSize parentTask) gfpKernelZero s.alloc =
    .ok (addr, a₁) := hkmalloc
  rw [hspace, ok_bind, hkmalloc, ok_bind] at hstarved
  dsimp only at hstarved
  rw [halloc, ok_bind] at hstarved
  exact hne (Option.some.inj hstarved)

/-- The last free page of `HIGHMEM` is free before the call and not after it, and the kernel stack at
`0xD000019B` is given back twice. -/
theorem crowdedSpace_view : (failView 0x3803F crowdedSpace).toOption =
    some (false, pageStateFree, pageStateAllocated,
      [.give (.object 0xD0000000), .give (.object 0xD000019B), .give (.pages 0x1001000),
        .give (.pages 0x1002000), .give (.object 0xD000019B), .give (.pages 0x1003000),
        .take (.pages 0x1003000), .take (.pages 0x3803F000), .take (.pages 0x1002000),
        .take (.object 0xD000019B), .take (.pages 0x1001000), .take (.object 0xD0000000)]) := by
  decide +kernel

/-- A page is lost and the kernel stack is freed twice. -/
theorem not_noTrace_crowdedSpace : ∃ L s s', crowdedSpace = .ok s ∧
    PageTables ((bumpView buddyView).holding bumpObjs ∅) testSlots L s ∧
    forkCall (bumpKernel buddyPageAlloc).recorded parentTask (forkState s) = .ok (none, s') ∧
    0x3803F ∈ (bumpView buddyView).free s.alloc ∧ 0x3803F ∉ (bumpView buddyView).free s'.phys.alloc.1 ∧
    ¬ NothingFreedTwice s'.phys.alloc.2 ∧
    ¬ NoTrace (bumpView buddyView) bumpObjs parentTask.cr3 (forkState s) s' := by
  obtain ⟨s, s', hspace, hrun, hbefore, hafter, hlog⟩ := failView_ok crowdedSpace_view
  obtain ⟨L, htables⟩ := crowdedSpace_tables hspace
  have htwice : ¬ NothingFreedTwice s'.phys.alloc.2 := by
    have hmid : ∀ e ∈ [GrantEvent.give (.pages 0x1001000), .give (.pages 0x1002000)],
        ∃ p, e = .give (.pages p) := by
      simp
    exact not_nothingFreedTwice hmid ⟨[.give (.object 0xD0000000)], hlog⟩
  refine ⟨L, s, s', hspace, htables, hrun, ⟨by decide, hbefore⟩, fun hfree => ?_, htwice,
    fun hno => htwice hno.freedOnce⟩
  have hfree : pageGetState (s'.phys.alloc.1.1.buddy.pages 0x3803F) = pageStateFree := hfree.2
  rw [hafter] at hfree
  exact absurd hfree (by decide)

end Kfs.Userspace
