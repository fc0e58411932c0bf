import Kfs.Memory.Mmu
import Kfs.Proc.LinearMap

/-!
# The translation cache over runs

The calls on directories with the processor beside them. A context switch loads the directory of the
next task, `execve` loads the kernel directory before it builds the new address space and the new
directory after that, and `do_exit` loads the kernel directory before anything of the task is given
back; `munmap` is a run of `vmm_unmap_page` and `buddy_free_block`. Accesses at any address come in
between. In every run, what the cache holds is what a walk of the current directory finds.
-/

namespace Kfs.Userspace

open Kfs.Lib Kfs.Lib.Word32 Kfs.Lib.Dyadic Kfs.Memory

/-! ## The system -/

/-- The directories with the processor. `owned` are the directories that tasks have been given and
that no `do_exit` has given up; the one that `execve` replaces stays among them. -/
structure TlbRun (σ : Type) where
  mmu : Mmu σ
  stage : ℕ → DirStage
  held : Set (ℕ × ℕ)
  owned : Set ℕ

/-- An access, a load of `cr3` by `switch_to` or `execve`, the way of `do_exit` up to its load, the
assignment of a directory to `task->cr3`, and the calls on directories. -/
inductive TlbCall where
  | access (vAddr : ℕ)
  | loadCr3 (pd : ℕ)
  | doExit
  | setTaskCr3 (pd : ℕ)
  | mapPage (pd v p flags : ℕ)
  | unmapPage (pd v : ℕ)
  | kmap (p : ℕ)
  | kunmap
  | other (call : SpaceCall)
  deriving DecidableEq, Repr

namespace TlbRun

variable {σ : Type} (r : TlbRun σ)

/-- The directories alone. -/
def space : SpaceRun σ := { phys := r.mmu.phys, stage := r.stage, held := r.held }

/-- The run after a call that the processor does not take part in. -/
def withSpace (q : SpaceRun σ) : TlbRun σ :=
  { r with mmu := { r.mmu with phys := q.phys }, stage := q.stage, held := q.held }

/-- The calls that leave the processor alone. `vmm_destroy_user_pd` is called on a directory that no
task has been given, where `fork` or `userspace_create_new` fails, or by the task that has exited. -/
def Allows : SpaceCall → Prop
  | .mapPage _ _ _ _ | .unmapPage _ _ | .kmap _ _ | .kunmap _ => False
  | .destroy pd => pd ∉ r.owned
  | _ => True

end TlbRun

/-- One step that returns. -/
def tlbStep {σ : Type} (A : PageAlloc σ) (kernelDir : ℕ) (r : TlbRun σ) : TlbCall → TlbRun σ → Prop
  | .access vAddr, r' => vAddr < 2 ^ 32 ∧ r' = { r with mmu := r.mmu.access vAddr }
  | .loadCr3 pd, r' => (pd = kernelDir ∨ pd ∈ r.owned) ∧
      r' = { r with mmu := r.mmu.pagingReloadCr3 pd }
  | .doExit, r' => r' =
      { r with mmu := r.mmu.pagingReloadCr3 kernelDir, owned := r.owned \ {r.mmu.cr3} }
  | .setTaskCr3 pd, r' => r.stage pd = .live ∧ r' = { r with owned := insert pd r.owned }
  | .mapPage pd v p flags, r' => r.space.Editable pd (getPdeIndex v) ∧
      ∃ ok m, r.mmu.vmmMapPage A pd v p flags = .ok (ok, m) ∧ r' = { r with mmu := m }
  | .unmapPage pd v, r' => r.space.Editable pd (getPdeIndex v) ∧
      ∃ ok m, r.mmu.vmmUnmapPage A pd v = .ok (ok, m) ∧ r' = { r with mmu := m }
  | .kmap p, r' => ∃ window m, r.mmu.vmmKmap A p = .ok (window, m) ∧ r' = { r with mmu := m }
  | .kunmap, r' => ∃ m, r.mmu.vmmKunmap A = .ok m ∧ r' = { r with mmu := m }
  | .other call, r' => r.Allows call ∧ ∃ q, spaceStep A kernelDir r.space call q ∧ r' = r.withSpace q

/-- The runs from the state that `vmm_finalize` leaves, with its load of the kernel directory. -/
def tlbSystem {σ : Type} (A : PageAlloc σ) (V : PageAlloc.View σ) (kernelDir : ℕ) (s : Phys σ) :
    System (TlbRun σ) TlbCall where
  init r := (spaceSystem A V kernelDir s).init r.space ∧ r.mmu.cr3 = kernelDir ∧ r.mmu.tlb = ∅ ∧
    r.owned = ∅
  step := tlbStep A kernelDir

/-! ## What the calls on one directory leave alone -/

section Frame

variable {σ : Type} {A : PageAlloc σ} {V : PageAlloc.View σ} {kernelDir ptPool : ℕ}
  {r r' : SpaceRun σ}

/-- The directory whose slots a call may change. -/
def SpaceCall.target : SpaceCall → Option ℕ
  | .mapPage pd _ _ _ | .unmapPage pd _ | .destroy pd => some pd
  | .kmap cur _ | .kunmap cur => some cur
  | .forkTable _ new | .forkShare _ new => some new
  | .newSpace | .clone | .alloc _ _ | .free _ _ | .store _ _ => none

/-- The cell lies neither in a directory nor in one of the tables that are its own. -/
structure SpaceRun.Away (r : SpaceRun σ) (a pd : ℕ) : Prop where
  dir : pd / 4096 ≠ a / 4096
  table : ∀ i, OwnSlot i → slotPresent r.phys (pd, i) = true →
    tableOf r.phys (pd, i) / 4096 ≠ a / 4096

/-- A page from the allocator was free before. -/
theorem SpaceInv.allocOn_free (hA : A.Lawful (kernelView V kernelDir ptPool))
    (h : SpaceInv V kernelDir ptPool r) {size pd : ℕ} {zone : Zone} {s : Phys σ}
    (hrun : A.allocOn size zone r.phys = .ok (pd, s)) (hne : pd ≠ 0) :
    4096 ∣ pd ∧ pd / 4096 ∈ V.free r.phys.alloc ∧ r.stage pd = .absent := by
  obtain ⟨p, rfl, hnew⟩ := h.tables.alloc_ok hA hrun hne
  have hfree : p * 4096 / 4096 ∈ V.free r.phys.alloc := by
    rw [Nat.mul_div_cancel p (by norm_num)]
    exact hnew.subset (self_mem_block p _)
  refine ⟨Dvd.intro_left p rfl, hfree, ?_⟩
  by_contra hpd
  exact (h.dir hpd).2.2 hfree

/-- Two cells of one page. -/
theorem page_of_mem {pd a : ℕ} (hdvd : 4096 ∣ pd) (h : pd ≤ a ∧ a < pd + pageSize) :
    pd / 4096 = a / 4096 := by
  unfold pageSize at h
  omega

/-- The slots of a directory lie in its page. -/
theorem slotAddr_page {pd i : ℕ} (hdvd : 4096 ∣ pd) (hi : i < 1024) :
    slotAddr (pd, i) / 4096 = pd / 4096 := by
  unfold slotAddr
  omega

/-- A cell away from a directory is none of its slots. -/
theorem SpaceInv.ne_slot (h : SpaceInv V kernelDir ptPool r) {a pd i : ℕ}
    (hpd : r.stage pd ≠ .absent) (hi : i < 1024) (haway : r.Away a pd) : a ≠ slotAddr (pd, i) := by
  rintro rfl
  exact haway.dir (slotAddr_page (h.dir hpd).1 hi).symm

theorem SpaceInv.mapPage_frame (hA : A.Lawful (kernelView V kernelDir ptPool))
    (h : SpaceInv V kernelDir ptPool r) {pd v p flags a : ℕ} {ok : Bool} {s : Phys σ}
    (hedit : r.Editable pd (getPdeIndex v)) (hrun : vmmMapPage A pd v p flags r.phys = .ok (ok, s))
    (hfree : a / 4096 ∉ V.free r.phys.alloc) (haway : r.Away a pd) : s.mem a = r.phys.mem a := by
  obtain ⟨hpd, hown⟩ := SpaceRun.editable_own hedit
  apply (vmmMapPage_writes hrun).frame hA h.tables.inv
  · exact h.ne_slot hpd hown.lt haway
  · exact hfree
  · exact haway.table _ hown

theorem SpaceInv.unmapPage_frame (h : SpaceInv V kernelDir ptPool r) {pd v a : ℕ} {ok : Bool}
    {s : Phys σ} (hedit : r.Editable pd (getPdeIndex v))
    (hrun : vmmUnmapPage A pd v r.phys = .ok (ok, s)) (haway : r.Away a pd) :
    s.mem a = r.phys.mem a := by
  obtain ⟨hpd, hown⟩ := SpaceRun.editable_own hedit
  apply (vmmUnmapPage_writes hrun).frame
  · exact h.ne_slot hpd hown.lt haway
  · exact haway.table _ hown

/-- A new directory is written in its page only. -/
theorem userspaceMapKernel_frame {pd a : ℕ} {s s' : Phys σ} {ok : Bool} (hk : kernelDir ≠ 0)
    (h : userspaceMapKernel kernelDir pd s = .ok (ok, s')) (hout : ¬ (pd ≤ a ∧ a < pd + pageSize)) :
    s'.mem a = s.mem a := by
  obtain ⟨-, rfl⟩ := userspaceMapKernel_ok hk h
  rw [(shareEntries_mem _ kernelDir pd a).2, Phys.zeroPage_mem, if_neg hout]
  unfold userPdes
  unfold pageSize at hout
  omega

/-- A turn of `fork` writes one slot of the child and a page that was free. -/
theorem SpaceInv.forkTable_frame (hA : A.Lawful (kernelView V kernelDir ptPool))
    (h : SpaceInv V kernelDir ptPool r) {current new i a : ℕ} {ok : Bool} {s : Phys σ}
    (hrun : ForkTableWrites A current new i r.phys ok s) (hslot : a ≠ slotAddr (new, i))
    (hfree : a / 4096 ∉ V.free r.phys.alloc) : s.mem a = r.phys.mem a := by
  cases hrun with
  | skip => rfl
  | fail hnull => rw [(PageAlloc.allocOn_ok hnull).2]
  | @table s₁ pt hpres halloc hne =>
    obtain ⟨p, rfl, hnew⟩ := h.tables.alloc_ok hA halloc hne
    have hdvd : 4096 ∣ p * 4096 := Dvd.intro_left p rfl
    have hlow := lowmem_lt (hnew.zone p (self_mem_block p _))
    have hmem := (PageAlloc.allocOn_ok halloc).2
    rw [hmem, (forkTable_pde hdvd (hlow.trans (by decide)) hpres).1, Phys.zeroPage_mem, if_neg,
      Phys.write_mem, if_neg hslot, hmem]
    intro hc
    apply hfree
    rw [← page_of_mem hdvd hc, Nat.mul_div_cancel p (by norm_num)]
    exact hnew.subset (self_mem_block p _)

/-- **The frame of a call**: the paging structures that stand apart from its directory keep their
words. -/
theorem SpaceInv.step_frame (hA : A.Lawful (kernelView V kernelDir ptPool))
    (hmap : KernelMap kernelDir ptPool) (h : SpaceInv V kernelDir ptPool r) {call : SpaceCall}
    (hstep : spaceStep A kernelDir r call r') {a : ℕ} (hfree : a / 4096 ∉ V.free r.phys.alloc)
    (hpaging : r.PagingCell a) (haway : ∀ pd, call.target = some pd → r.Away a pd) :
    r'.phys.mem a = r.phys.mem a := by
  -- a new directory is a page that was free
  have hfresh : ∀ {size pd : ℕ} {zone : Zone} {s : Phys σ},
      A.allocOn size zone r.phys = .ok (pd, s) → pd ≠ 0 → ¬ (pd ≤ a ∧ a < pd + pageSize) := by
    intro size pd zone s hrun hne hc
    obtain ⟨hdvd, hpage, -⟩ := h.allocOn_free hA hrun hne
    exact hfree (page_of_mem hdvd hc ▸ hpage)
  cases call with
  | mapPage pd v p flags =>
    obtain ⟨hedit, ok, s, hrun, rfl⟩ := hstep
    exact h.mapPage_frame hA hedit hrun hfree (haway pd rfl)
  | unmapPage pd v =>
    obtain ⟨hedit, ok, s, hrun, rfl⟩ := hstep
    exact h.unmapPage_frame hedit hrun (haway pd rfl)
  | kmap cur p =>
    obtain ⟨hcur, window, s, hrun, rfl⟩ := hstep
    obtain ⟨ok, hrun⟩ := vmmKmap_ok hrun
    exact h.mapPage_frame hA (SpaceRun.editable_window hcur) hrun hfree (haway cur rfl)
  | kunmap cur =>
    obtain ⟨hcur, s, hrun, rfl⟩ := hstep
    obtain ⟨ok, hrun⟩ := vmmKunmap_ok hrun
    exact h.unmapPage_frame (SpaceRun.editable_window hcur) hrun (haway cur rfl)
  | newSpace =>
    obtain ⟨pd, s, hrun, hnew⟩ := hstep
    have hmem := (PageAlloc.allocOn_ok hrun).2
    split at hnew
    · subst hnew
      exact congrFun hmem a
    · next hne =>
      obtain ⟨ok, s', hkern, rfl⟩ := hnew
      exact (userspaceMapKernel_frame hmap.dir_ne hkern (hfresh hrun hne)).trans (congrFun hmem a)
  | clone =>
    obtain ⟨pd, s, hrun, hnew⟩ := hstep
    have hmem := (PageAlloc.allocOn_ok hrun).2
    split at hnew
    · subst hnew
      exact congrFun hmem a
    · next hne =>
      obtain ⟨pdVirt, hvirt, rfl⟩ := hnew
      obtain ⟨rfl, -⟩ := physLinear_ok hvirt
      exact (if_neg (hfresh hrun hne)).trans (congrFun hmem a)
  | forkTable current new =>
    obtain ⟨-, i, hst, hi, ok, pt, s, hrun, rfl⟩ := hstep
    have hnew : r.stage new ≠ .absent := by rw [hst]; simp
    have hlt : i < 1024 := hi.trans (by decide)
    exact h.forkTable_frame hA (forkTableHead_writes hrun) (h.ne_slot hnew hlt (haway new rfl)) hfree
  | forkShare current new =>
    obtain ⟨-, hst, currentPd, newPd, -, hnewPd, rfl⟩ := hstep
    obtain ⟨rfl, -⟩ := physLinear_ok hnewPd
    have hdvd := (h.dir (by rw [hst]; simp : r.stage new ≠ .absent)).1
    have hdir := (haway new rfl).dir
    refine if_neg fun hc => hdir ?_
    apply page_of_mem hdvd
    unfold userPdes at hc
    unfold pageSize
    omega
  | destroy pd =>
    obtain ⟨hpd, -, s, hrun, rfl⟩ := hstep
    refine vmmDestroyUserPd_mem hrun a fun i hi => ?_
    exact h.ne_slot hpd (hi.trans (by decide)) (haway pd rfl)
  | alloc size zone =>
    obtain ⟨ptr, s, hrun, rfl⟩ := hstep
    exact congrFun (PageAlloc.allocOn_ok hrun).2 a
  | free p k =>
    obtain ⟨-, s, hrun, rfl⟩ := hstep
    exact congrFun (PageAlloc.freeOn_mem hrun) a
  | store c word =>
    obtain ⟨hc, rfl⟩ := hstep
    refine if_neg ?_
    rintro rfl
    exact hc hpaging

/-- A directory stays in use until it is destroyed. -/
theorem SpaceInv.step_live (hA : A.Lawful (kernelView V kernelDir ptPool))
    (h : SpaceInv V kernelDir ptPool r) {call : SpaceCall}
    (hstep : spaceStep A kernelDir r call r') {pd : ℕ} (hlive : r.stage pd = .live)
    (hdestroy : call ≠ .destroy pd) : r'.stage pd = .live := by
  -- A step that changes the stage of one directory keeps those that are not that one.
  have hkeep : ∀ {q : ℕ} {s : Phys σ} {st : DirStage}, r.stage q ≠ .live →
      (SpaceRun.setStage { r with phys := s } q st).stage pd = .live := by
    intro q s st hq
    rw [SpaceRun.setStage_of_ne]
    · exact hlive
    · rintro rfl
      exact hq hlive
  -- A directory that was just allocated was not live.
  have hfresh : ∀ {size q : ℕ} {zone : Zone} {s : Phys σ},
      A.allocOn size zone r.phys = .ok (q, s) → q ≠ 0 → r.stage q ≠ .live := by
    intro size q zone s hrun hne
    rw [(h.allocOn_free hA hrun hne).2.2]
    simp
  cases call with
  | mapPage pd v p flags =>
    obtain ⟨-, ok, s, -, rfl⟩ := hstep
    exact hlive
  | unmapPage pd v =>
    obtain ⟨-, ok, s, -, rfl⟩ := hstep
    exact hlive
  | kmap cur p =>
    obtain ⟨-, window, s, -, rfl⟩ := hstep
    exact hlive
  | kunmap cur =>
    obtain ⟨-, s, -, rfl⟩ := hstep
    exact hlive
  | newSpace =>
    obtain ⟨q, s, hrun, hnew⟩ := hstep
    split at hnew
    · subst hnew
      exact hlive
    · next hne =>
      obtain ⟨ok, s', -, rfl⟩ := hnew
      exact hkeep (hfresh hrun hne)
  | clone =>
    obtain ⟨q, s, hrun, hnew⟩ := hstep
    split at hnew
    · subst hnew
      exact hlive
    · next hne =>
      obtain ⟨pdVirt, -, rfl⟩ := hnew
      exact hkeep (hfresh hrun hne)
  | forkTable current new =>
    obtain ⟨-, i, hst, -, ok, pt, s, -, rfl⟩ := hstep
    exact hkeep (by rw [hst]; simp)
  | forkShare current new =>
    obtain ⟨-, hst, currentPd, newPd, -, -, rfl⟩ := hstep
    exact hkeep (by rw [hst]; simp)
  | destroy q =>
    obtain ⟨-, -, s, -, rfl⟩ := hstep
    have hne : pd ≠ q := by
      rintro rfl
      exact hdestroy rfl
    rw [SpaceRun.setStage_of_ne _ _ hne]
    exact hlive
  | alloc size zone =>
    obtain ⟨ptr, s, -, rfl⟩ := hstep
    exact hlive
  | free p k =>
    obtain ⟨-, s, -, rfl⟩ := hstep
    exact hlive
  | store c word =>
    obtain ⟨-, rfl⟩ := hstep
    exact hlive

/-! ## Walks under the calls -/

/-- The directory of a call is there. -/
theorem spaceStep_target {call : SpaceCall} (hstep : spaceStep A kernelDir r call r') {pd : ℕ}
    (htarget : call.target = some pd) : r.stage pd ≠ .absent := by
  cases call with
  | mapPage q v p flags =>
    obtain rfl := Option.some.inj htarget
    exact (SpaceRun.editable_own hstep.1).1
  | unmapPage q v =>
    obtain rfl := Option.some.inj htarget
    exact (SpaceRun.editable_own hstep.1).1
  | kmap cur p =>
    obtain rfl := Option.some.inj htarget
    rw [hstep.1]
    simp
  | kunmap cur =>
    obtain rfl := Option.some.inj htarget
    rw [hstep.1]
    simp
  | forkTable current new =>
    obtain rfl := Option.some.inj htarget
    obtain ⟨-, i, hst, -⟩ := hstep
    rw [hst]
    simp
  | forkShare current new =>
    obtain rfl := Option.some.inj htarget
    rw [hstep.2.1]
    simp
  | destroy q =>
    obtain rfl := Option.some.inj htarget
    exact hstep.1
  | newSpace => cases htarget
  | clone => cases htarget
  | alloc size zone => cases htarget
  | free p k => cases htarget
  | store a word => cases htarget

/-- **The tables under a directory stand apart**, its own and those of the kernel: they are not
free, they are no directories, and no other slot of the tables that calls may change names them. -/
theorem SpaceInv.table_apart (hA : A.Lawful (kernelView V kernelDir ptPool))
    (hmap : KernelMap kernelDir ptPool) (h : SpaceInv V kernelDir ptPool r) {pd i : ℕ}
    (hlive : r.stage pd = .live) (hi : i < 1024) (hpres : slotPresent r.phys (pd, i) = true) :
    tableOf r.phys (pd, i) / 4096 ∉ V.free r.phys.alloc ∧
    (∀ w ∈ r.slots, slotPresent r.phys w = true → w ≠ (pd, i) →
      tableOf r.phys w ≠ tableOf r.phys (pd, i)) ∧
    ∀ q, r.stage q ≠ .absent → q ≠ tableOf r.phys (pd, i) := by
  have hpd : r.stage pd ≠ .absent := by rw [hlive]; simp
  by_cases hown : OwnSlot i
  · have hw : (pd, i) ∈ r.slots := ⟨hpd, hown⟩
    have hfree := h.tables.table_notFree hA hw hpres
    refine ⟨hfree, fun w hw' hpres' hne heq => ?_, fun q hq heq => ?_⟩
    · exact hne (h.tables.inj w hw' (pd, i) hw hpres' hpres heq)
    · exact (h.tables.table (pd, i) hw hpres).2.2 (q, 0) ⟨hq, ownSlot_zero⟩ heq.symm
  · -- a table of the pool
    obtain ⟨k, hk, rfl⟩ : ∃ k < ptCount, i = userPdes + k := by
      unfold OwnSlot at hown
      exact ⟨i - userPdes, by omega, by omega⟩
    obtain ⟨-, htable⟩ := h.pool_table hmap hlive hk
    obtain ⟨hfree, hother, -⟩ :=
      h.cell_apart hmap (a := ptPool + k * 4096) (Or.inr ⟨k, hk, 0, by norm_num, rfl⟩)
    rw [htable]
    refine ⟨hfree, fun w hw' hpres' _ heq => ?_, fun q hq => (h.pool_ne hmap hq hk).symm⟩
    exact hother w hw' hpres' (congrArg (· / 4096) heq)

/-- **A call on another directory changes no walk.** -/
theorem SpaceInv.walk_other (hA : A.Lawful (kernelView V kernelDir ptPool))
    (hmap : KernelMap kernelDir ptPool) (h : SpaceInv V kernelDir ptPool r) {call : SpaceCall}
    (hstep : spaceStep A kernelDir r call r') {pd n : ℕ} (hlive : r.stage pd = .live)
    (hn : n < 2 ^ 20) (htarget : call.target ≠ some pd) :
    walk r'.phys.mem pd n = walk r.phys.mem pd n := by
  have hpd : r.stage pd ≠ .absent := by rw [hlive]; simp
  have hi : n / 1024 < 1024 := by omega
  have hj : n % 1024 < 1024 := Nat.mod_lt _ (by norm_num)
  obtain ⟨hdvd, -, hfree⟩ := h.dir hpd
  -- aligned pages are apart where they are different
  have hpage : ∀ {p q : ℕ}, 4096 ∣ p → 4096 ∣ q → p ≠ q → p / 4096 ≠ q / 4096 := by
    intro p q hp hq hne heq
    omega
  have hother : ∀ q, call.target = some q → q ≠ pd := by
    rintro q hq rfl
    exact htarget hq
  apply walk_congr
  · apply h.step_frame hA hmap hstep
    · rw [slotAddr_page hdvd hi]
      exact hfree
    · exact ⟨pd, hpd, Or.inl (slotAddr_page hdvd hi).symm⟩
    · intro q hq
      have hstage := spaceStep_target hstep hq
      refine ⟨?_, fun i hown hpres => ?_⟩
      · rw [slotAddr_page hdvd hi]
        exact hpage (h.dir hstage).1 hdvd (hother q hq)
      · rw [slotAddr_page hdvd hi]
        exact hpage (tableOf_dvd _ _) hdvd
          ((h.tables.table (q, i) ⟨hstage, hown⟩ hpres).2.2 (pd, 0) ⟨hpd, ownSlot_zero⟩)
  · intro hpres
    obtain ⟨htfree, htslots, htdirs⟩ := h.table_apart hA hmap hlive hi hpres
    have hdvd' := tableOf_dvd r.phys (pd, n / 1024)
    have hentry : (tableOf r.phys (pd, n / 1024) + 4 * (n % 1024)) / 4096 =
        tableOf r.phys (pd, n / 1024) / 4096 := by omega
    apply h.step_frame hA hmap hstep
    · rw [hentry]
      exact htfree
    · exact ⟨pd, hpd, Or.inr ⟨n / 1024, hi, hpres, hentry.symm⟩⟩
    · intro q hq
      have hstage := spaceStep_target hstep hq
      refine ⟨?_, fun i hown hpres' => ?_⟩
      · rw [hentry]
        exact hpage (h.dir hstage).1 hdvd' (htdirs q hstage)
      · rw [hentry]
        refine hpage (tableOf_dvd _ _) hdvd' (htslots (q, i) ⟨hstage, hown⟩ hpres' ?_)
        exact fun heq => hother q hq (Prod.mk.inj heq).1

/-- The walk of another page does not read the entry. -/
theorem SpaceInv.walk_cells (hA : A.Lawful (kernelView V kernelDir ptPool))
    (hmap : KernelMap kernelDir ptPool) (h : SpaceInv V kernelDir ptPool r) {pd v n : ℕ}
    (hlive : r.stage pd = .live) (hown : OwnSlot (getPdeIndex v))
    (hpres : slotPresent r.phys (pd, getPdeIndex v) = true) (hn : n < 2 ^ 20)
    (hne : n ≠ v / 4096) :
    slotAddr (pd, n / 1024) ≠ tableOf r.phys (pd, getPdeIndex v) + 4 * getPteIndex v ∧
    (slotPresent r.phys (pd, n / 1024) = true →
      tableOf r.phys (pd, n / 1024) + 4 * (n % 1024) ≠
        tableOf r.phys (pd, getPdeIndex v) + 4 * getPteIndex v) := by
  have hpd : r.stage pd ≠ .absent := by rw [hlive]; simp
  have hw : (pd, getPdeIndex v) ∈ r.slots := ⟨hpd, hown⟩
  have hi : n / 1024 < 1024 := by omega
  have hj : n % 1024 < 1024 := Nat.mod_lt _ (by norm_num)
  have hv := getPteIndex_lt v
  constructor
  · intro heq
    obtain ⟨hpage, -⟩ := wordAddr_inj (h.dir hpd).1 (tableOf_dvd _ _) hi hv heq
    exact (h.tables.table _ hw hpres).2.2 (pd, 0) ⟨hpd, ownSlot_zero⟩ hpage.symm
  · intro hpres' heq
    obtain ⟨hpage, hentry⟩ := wordAddr_inj (tableOf_dvd _ _) (tableOf_dvd _ _) hj hv heq
    by_cases hslot : n / 1024 = getPdeIndex v
    · exact page_indices hne hslot hentry
    · refine (h.table_apart hA hmap hlive hi hpres').2.1 _ hw hpres ?_ hpage.symm
      exact fun hc => hslot (Prod.mk.inj hc).2.symm

/-- **A write into one entry changes the walk of its page only.** -/
theorem SpaceInv.walk_entry (hA : A.Lawful (kernelView V kernelDir ptPool))
    (hmap : KernelMap kernelDir ptPool) (h : SpaceInv V kernelDir ptPool r) {pd v e n : ℕ}
    (hlive : r.stage pd = .live) (hown : OwnSlot (getPdeIndex v))
    (hpres : slotPresent r.phys (pd, getPdeIndex v) = true) (hn : n < 2 ^ 20)
    (hne : n ≠ v / 4096) :
    walk (r.phys.write (tableOf r.phys (pd, getPdeIndex v) + 4 * getPteIndex v) e).mem pd n =
      walk r.phys.mem pd n := by
  obtain ⟨hslot, hentry⟩ := h.walk_cells hA hmap hlive hown hpres hn hne
  exact walk_congr (if_neg hslot) fun hpres' => if_neg (hentry hpres')

/-- **`vmm_map_page` under the current directory**: the walks of the other pages stay where the call
asks for no reload. -/
theorem SpaceInv.walk_mapPage (hA : A.Lawful (kernelView V kernelDir ptPool))
    (hmap : KernelMap kernelDir ptPool) (h : SpaceInv V kernelDir ptPool r) {pd v p flags n : ℕ}
    {ok : Bool} {s : Phys σ} (hlive : r.stage pd = .live) (hown : OwnSlot (getPdeIndex v))
    (hrun : vmmMapPage A pd v p flags r.phys = .ok (ok, s)) (hn : n < 2 ^ 20)
    (hother : ok = true → n ≠ v / 4096 ∧ needsCr3Reload r.phys.mem pd v flags = false) :
    walk s.mem pd n = walk r.phys.mem pd n := by
  cases vmmMapPage_writes hrun with
  | noTable habs halloc => rfl
  | newTable habs halloc hne hlow =>
    -- a new table is a reload
    have habs : flagIsSet (r.phys.mem (pd + 4 * getPdeIndex v)) pdePresentBit = false := habs
    have hreload := (hother rfl).2
    simp [needsCr3Reload, habs] at hreload
  | userTable hpres hus hnot =>
    have hnot : flagIsSet (r.phys.mem (pd + 4 * getPdeIndex v)) pdeUsBit = false := hnot
    have hreload := (hother rfl).2
    simp [needsCr3Reload, hus, hnot] at hreload
  | table hpres hus => exact h.walk_entry hA hmap hlive hown hpres hn (hother rfl).1

/-- **`vmm_unmap_page` under the current directory**: a translation of another page is found again.
Where the table goes, its other entries are not present. -/
theorem SpaceInv.walk_unmapPage (hA : A.Lawful (kernelView V kernelDir ptPool))
    (hmap : KernelMap kernelDir ptPool) (h : SpaceInv V kernelDir ptPool r) {pd v n : ℕ} {ok : Bool}
    {s : Phys σ} {t : Translation} (hlive : r.stage pd = .live) (hown : OwnSlot (getPdeIndex v))
    (hrun : vmmUnmapPage A pd v r.phys = .ok (ok, s)) (hn : n < 2 ^ 20)
    (hother : ok = true → n ≠ v / 4096) (hwalk : walk r.phys.mem pd n = some t) :
    walk s.mem pd n = some t := by
  have hpd : r.stage pd ≠ .absent := by rw [hlive]; simp
  have hi : n / 1024 < 1024 := by omega
  have hj : n % 1024 < 1024 := Nat.mod_lt _ (by norm_num)
  cases vmmUnmapPage_writes hrun with
  | absent hnone => exact hwalk
  | entry hmapped hi' hne hpresent =>
    rw [h.walk_entry hA hmap hlive hown (slotPresent_of_pte hmapped) hn (hother rfl)]
    exact hwalk
  | last hmapped hempty hfree =>
    have hne := hother rfl
    have hpte := pte_of_walk hwalk
    have hslot : n / 1024 ≠ getPdeIndex v := by
      intro heq
      apply hpte
      rw [heq]
      exact hempty _ hj (page_indices hne heq)
    have hpres := slotPresent_of_pte hmapped
    obtain ⟨hcell, hentry⟩ := h.walk_cells hA hmap hlive hown hpres hn hne
    rw [← hwalk]
    apply walk_congr
    · refine (if_neg fun heq => hslot ?_).trans (if_neg hcell)
      exact (wordAddr_inj (h.dir hpd).1 (h.dir hpd).1 hi hown.lt heq).2
    · intro hpres'
      refine (if_neg fun heq => ?_).trans (if_neg (hentry hpres'))
      refine (h.table_apart hA hmap hlive hi hpres').2.2 pd hpd ?_
      exact (wordAddr_inj (tableOf_dvd _ _) (h.dir hpd).1 hj hown.lt heq).1.symm

end Frame

/-! ## The invariant -/

section Invariant

variable {σ : Type} {A : PageAlloc σ} {V : PageAlloc.View σ} {kernelDir ptPool : ℕ}
  {r r' : TlbRun σ}

/-- What every step keeps: the current directory is the kernel's or belongs to a task, and what is
cached is what a walk finds. -/
structure TlbInv (V : PageAlloc.View σ) (kernelDir ptPool : ℕ) (r : TlbRun σ) : Prop where
  space : SpaceInv V kernelDir ptPool r.space
  owned : ∀ pd ∈ r.owned, r.stage pd = .live
  current : r.mmu.cr3 = kernelDir ∨ r.mmu.cr3 ∈ r.owned
  coherent : ∀ e ∈ r.mmu.tlb, e.1 < 2 ^ 20 ∧ walk r.mmu.phys.mem r.mmu.cr3 e.1 = some e.2

/-- The current directory is in use. -/
theorem TlbInv.live (h : TlbInv V kernelDir ptPool r) : r.stage r.mmu.cr3 = .live := by
  rcases h.current with hk | howned
  · rw [hk]
    exact h.space.kernel
  · exact h.owned _ howned

/-- A load of `cr3` keeps the invariant: nothing is cached. -/
theorem TlbInv.reload (h : TlbInv V kernelDir ptPool r) {pd : ℕ} {owned : Set ℕ}
    (hsub : owned ⊆ r.owned) (hpd : pd = kernelDir ∨ pd ∈ owned) :
    TlbInv V kernelDir ptPool { r with mmu := r.mmu.pagingReloadCr3 pd, owned := owned } where
  space := h.space
  owned q hq := h.owned q (hsub hq)
  current := hpd
  coherent _ he := absurd he id

/-- **`vmm_map_page`**, under the current directory or another one. -/
theorem TlbInv.mapPage (hA : A.Lawful (kernelView V kernelDir ptPool))
    (hmap : KernelMap kernelDir ptPool) (h : TlbInv V kernelDir ptPool r) {pd v p flags : ℕ}
    {ok : Bool} {m : Mmu σ} (hedit : r.space.Editable pd (getPdeIndex v))
    (hmem : Memory.vmmMapPage A pd v p flags r.mmu.phys = .ok (ok, m.phys))
    (hcr3 : m.cr3 = r.mmu.cr3) (hsub : m.tlb ⊆ r.mmu.tlb)
    (hflush : ok = true → r.mmu.cr3 = pd → (∀ e ∈ m.tlb, e.1 ≠ v / 4096) ∧
      (needsCr3Reload r.mmu.phys.mem pd v flags = true → m.tlb = ∅)) :
    TlbInv V kernelDir ptPool { r with mmu := m } where
  space := h.space.mapPage hA hmap hedit hmem
  owned := h.owned
  current := by rw [hcr3]; exact h.current
  coherent := by
    intro e he
    obtain ⟨hn, hwalk⟩ := h.coherent e (hsub he)
    refine ⟨hn, ?_⟩
    rw [hcr3, ← hwalk]
    by_cases hcur : r.mmu.cr3 = pd
    · subst hcur
      refine h.space.walk_mapPage hA hmap h.live (SpaceRun.editable_own hedit).2 hmem hn fun hok => ?_
      obtain ⟨hdrop, hreload⟩ := hflush hok rfl
      refine ⟨hdrop e he, ?_⟩
      by_contra hneeds
      rw [hreload (Bool.eq_true_of_not_eq_false hneeds)] at he
      exact he
    · have hstep : spaceStep A kernelDir r.space (.mapPage pd v p flags)
          { r.space with phys := m.phys } := ⟨hedit, ok, m.phys, hmem, rfl⟩
      exact h.space.walk_other hA hmap hstep h.live hn fun hc => hcur (Option.some.inj hc).symm

/-- **`vmm_unmap_page`**, under the current directory or another one. -/
theorem TlbInv.unmapPage (hA : A.Lawful (kernelView V kernelDir ptPool))
    (hmap : KernelMap kernelDir ptPool) (h : TlbInv V kernelDir ptPool r) {pd v : ℕ} {ok : Bool}
    {m : Mmu σ} (hedit : r.space.Editable pd (getPdeIndex v))
    (hrun : r.mmu.vmmUnmapPage A pd v = .ok (ok, m)) :
    TlbInv V kernelDir ptPool { r with mmu := m } := by
  obtain ⟨hmem, hcr3, hsub, hdrop⟩ := Mmu.vmmUnmapPage_ok hrun
  refine {
    space := h.space.unmapPage hA hmap hedit hmem
    owned := h.owned
    current := by rw [hcr3]; exact h.current
    coherent := fun e he => ?_ }
  obtain ⟨hn, hwalk⟩ := h.coherent e (hsub he)
  refine ⟨hn, ?_⟩
  rw [hcr3]
  by_cases hcur : r.mmu.cr3 = pd
  · subst hcur
    exact h.space.walk_unmapPage hA hmap h.live (SpaceRun.editable_own hedit).2 hmem hn
      (fun hok => hdrop hok e he) hwalk
  · rw [← hwalk]
    have hstep : spaceStep A kernelDir r.space (.unmapPage pd v)
        { r.space with phys := m.phys } := ⟨hedit, ok, m.phys, hmem, rfl⟩
    exact h.space.walk_other hA hmap hstep h.live hn fun hc => hcur (Option.some.inj hc).symm

/-- **The calls that the processor does not take part in** change no walk under the current
directory. -/
theorem TlbInv.other (hA : A.Lawful (kernelView V kernelDir ptPool))
    (hmap : KernelMap kernelDir ptPool) (h : TlbInv V kernelDir ptPool r) {call : SpaceCall}
    {q : SpaceRun σ} (hallows : r.Allows call) (hstep : spaceStep A kernelDir r.space call q) :
    TlbInv V kernelDir ptPool (r.withSpace q) := by
  have hdestroy : ∀ pd ∈ r.owned, call ≠ .destroy pd := by
    rintro pd hpd rfl
    exact hallows hpd
  refine {
    space := h.space.step hA hmap hstep
    owned := fun pd hpd => h.space.step_live hA hstep (h.owned pd hpd) (hdestroy pd hpd)
    current := h.current
    coherent := fun e he => ?_ }
  obtain ⟨hn, hwalk⟩ := h.coherent e he
  refine ⟨hn, ?_⟩
  have hother : call.target ≠ some r.mmu.cr3 := by
    intro htarget
    have hlive : r.space.stage r.mmu.cr3 = .live := h.live
    cases call with
    | forkTable current new =>
      -- the child's directory is not in use yet
      obtain rfl := Option.some.inj htarget
      obtain ⟨-, i, hst, -⟩ := hstep
      rw [hst] at hlive
      cases hlive
    | forkShare current new =>
      obtain rfl := Option.some.inj htarget
      rw [hstep.2.1] at hlive
      cases hlive
    | destroy pd =>
      obtain rfl := Option.some.inj htarget
      rcases h.current with hk | howned
      · exact hstep.2.1 hk
      · exact hallows howned
    | mapPage pd v p flags => exact hallows
    | unmapPage pd v => exact hallows
    | kmap cur p => exact hallows
    | kunmap cur => exact hallows
    | newSpace => cases htarget
    | clone => cases htarget
    | alloc size zone => cases htarget
    | free p k => cases htarget
    | store a word => cases htarget
  exact (h.space.walk_other hA hmap hstep h.live hn hother).trans hwalk

/-- **Every step keeps the invariant.** -/
theorem TlbInv.step (hA : A.checked.Lawful (kernelView V kernelDir ptPool))
    (hmap : KernelMap kernelDir ptPool) (h : TlbInv V kernelDir ptPool r) {call : TlbCall}
    (hstep : tlbStep A kernelDir r call r') : TlbInv V kernelDir ptPool r' := by
  cases call with
  | access vAddr =>
    obtain ⟨hv, rfl⟩ := hstep
    refine { h with coherent := ?_ }
    rintro e (he | ⟨heq, hwalk⟩)
    · exact h.coherent e he
    · exact ⟨by omega, hwalk⟩
  | loadCr3 pd =>
    obtain ⟨hpd, rfl⟩ := hstep
    exact h.reload subset_rfl hpd
  | doExit =>
    obtain rfl := hstep
    exact h.reload Set.sdiff_subset (Or.inl rfl)
  | setTaskCr3 pd =>
    obtain ⟨hlive, rfl⟩ := hstep
    refine { h with owned := ?_, current := h.current.imp_right (Set.mem_insert_of_mem pd) }
    rintro q (rfl | hq)
    · exact hlive
    · exact h.owned q hq
  | mapPage pd v p flags =>
    obtain ⟨hedit, ok, m, hrun, rfl⟩ := hstep
    obtain ⟨hmem, hcr3, hsub, hflush⟩ := Mmu.vmmMapPage_ok hrun
    exact h.mapPage hA hmap hedit (vmmMapPage_checked hmem) hcr3 hsub hflush
  | unmapPage pd v =>
    obtain ⟨hedit, ok, m, hrun, rfl⟩ := hstep
    exact h.unmapPage hA hmap hedit hrun
  | kmap p =>
    obtain ⟨window, m, hrun, rfl⟩ := hstep
    unfold Mmu.vmmKmap at hrun
    rw [bind_eq_ok] at hrun
    obtain ⟨⟨ok, m'⟩, hrun, hm⟩ := hrun
    obtain ⟨-, rfl⟩ := Prod.mk.inj (Except.ok.inj hm)
    obtain ⟨hmem, hcr3, hsub, hflush⟩ := Mmu.vmmMapPage_ok hrun
    exact h.mapPage hA hmap (SpaceRun.editable_window h.live) (vmmMapPage_checked hmem) hcr3 hsub
      hflush
  | kunmap =>
    obtain ⟨m, hrun, rfl⟩ := hstep
    unfold Mmu.vmmKunmap at hrun
    rw [bind_eq_ok] at hrun
    obtain ⟨⟨ok, m'⟩, hrun, hm⟩ := hrun
    obtain rfl := Except.ok.inj hm
    exact h.unmapPage hA hmap (SpaceRun.editable_window h.live) hrun
  | other call =>
    obtain ⟨hallows, q, hstep, rfl⟩ := hstep
    exact h.other hA hmap hallows (spaceStep_checked hstep)

/-- The walk for a page of the linear mapping: the user has no access. -/
theorem SpaceInv.walk_kernel {r : SpaceRun σ} (hmap : KernelMap kernelDir ptPool)
    (h : SpaceInv V kernelDir ptPool r) {pd n : ℕ} (hpd : r.stage pd = .live)
    (hn : n < ptCount * 1024) : walk r.phys.mem pd (userPdes * 1024 + n) =
      some { frame := n * 4096, user := false, write := true } := by
  obtain ⟨hword, htable, hpres, huser, hwrite⟩ := h.kernel_words hmap hpd hn
  obtain ⟨hentry, hframe, hset, -, hwrite'⟩ := h.kernel_entry hn
  have hdiv : (userPdes * 1024 + n) / 1024 = userPdes + n / 1024 := by omega
  have hmod : (userPdes * 1024 + n) % 1024 = n % 1024 := by omega
  unfold walk
  simp only [hdiv, hmod, hword, htable, hpres, hentry, hset]
  simp [hframe, huser, hwrite, hwrite']

end Invariant

/-! ## From the boot on -/

/-- **The translation cache is coherent.** Boot the machine on any memory map and start the buddy
allocator as in `linearMap_everywhere`. After any run of accesses, loads of `cr3`, exits and calls on
directories, every cached translation is the one that a walk of the current directory finds, with
its frame and its user and write permission. -/
theorem tlb_coherent {b : BootInput} {m₀ : BootMem}
    (hboot : bootAllocatorInit b .zero = .ok m₀) {r₁ : BootRun} (hr₁ : (bootSystem m₀).Reachable r₁)
    {mem : ℕ → ℕ} {kernelDir : ℕ} {s : Phys BootMem}
    (hfinal : vmmFinalize { mem := mem, alloc := r₁.mem } = .ok (kernelDir, s)) {r₂ : BootRun}
    (hr₂ : (bootSystem s.alloc).Reachable r₂) {n : ℕ} (hn : n ≤ maxPages)
    {areas : Zone → ℕ → FreeArea} {rb : BuddyRun}
    (hrb : (buddySystem n { pages := pageDescriptorInit r₂.mem.freeZones r₂.mem.resZones
                            areas := areas }).Reachable rb) {r : TlbRun BuddyRun}
    (hr : (tlbSystem buddyPageAlloc buddyView kernelDir
      { mem := s.mem, alloc := rb }).Reachable r) :
    ∀ e ∈ r.mmu.tlb, walk r.mmu.phys.mem r.mmu.cr3 e.1 = some e.2 := by
  obtain ⟨ptPool, hmap, hA, hinit⟩ := spaceInv_of_boot hboot hr₁ hfinal hr₂ hn hrb
  have hinv : TlbInv (buddyViewOf fun _ => True) kernelDir ptPool r := by
    apply hr.invariant
    · rintro r₀ ⟨hspace, hcr3, htlb, howned⟩
      exact {
        space := hinit _ hspace
        owned := fun pd hpd => absurd hpd (by rw [howned]; exact id)
        current := Or.inl hcr3
        coherent := fun e he => absurd he (by rw [htlb]; exact id) }
    · exact fun r₁ call r₂ h hstep => h.step hA hmap hstep
  exact fun e he => (hinv.coherent e he).2

/-! ## On the machine with eight pages -/

section Tiny

variable {s : Phys BuddyRun} {rb : BuddyRun}

/-- What a walk finds at 0x8048000. -/
theorem walk_userText {mem : ℕ → ℕ} {frame : ℕ} (hframe : frame = 0x300000 ∨ frame = 0x301000)
    (hpde : mem (0x1000000 + 4 * 32) = 0x1001007) (hpte : mem (0x1001000 + 4 * 72) = frame ||| 7) :
    walk mem 0x1000000 0x8048 = some { frame := frame, user := true, write := true } := by
  have hslot : 0x8048 / 1024 = 32 ∧ 0x8048 % 1024 = 72 := by decide
  have htable : getEntryAddr 0x1001007 = 0x1001000 := by decide
  unfold walk
  rw [hslot.1, hslot.2, hpde]
  dsimp only
  rw [htable, hpte]
  rcases hframe with rfl | rfl
  · decide
  · decide

/-- The first page of the user takes a table, and the whole cache goes. -/
theorem tinyPc_mapPageMmu {tlb : Set (ℕ × Translation)}
    (htable : buddyPageAlloc.buddyAllocPages pageSize .lowmem s.alloc = .ok (0x1001000, rb)) :
    ({ phys := tinyDir s, cr3 := 0x1000000, tlb := tlb : Mmu BuddyRun }).vmmMapPage buddyPageAlloc
        0x1000000 0x8048000 0x300000 7 =
      .ok (true, { phys := tinyMapped s rb, cr3 := 0x1000000, tlb := ∅ }) := by
  have halloc : (tinyDir s).alloc = s.alloc := rfl
  unfold Mmu.vmmMapPage
  rw [physLinear_eq (by decide), ok_bind]
  simp only [userText_indices.1, userText_indices.2, tinyDir_absent, flagIsSet_zero, halloc, htable,
    ok_bind, Bool.not_false, if_true]
  rw [if_neg (by decide), physLinear_eq (by decide), ok_bind]
  simp only [Mmu.mapFlush, Mmu.pagingReloadCr3, if_true]
  rfl

/-- Another frame at the same place: one page goes. -/
theorem tinyPc_remapPageMmu {tlb : Set (ℕ × Translation)} :
    ({ phys := tinyMapped s rb, cr3 := 0x1000000, tlb := tlb : Mmu BuddyRun }).vmmMapPage
        buddyPageAlloc 0x1000000 0x8048000 0x301000 7 =
      .ok (true, { phys := (tinyMapped s rb).write (0x1001000 + 4 * 72) 0x301007, cr3 := 0x1000000
                   tlb := { e ∈ tlb | e.1 ≠ 0x8048 } }) := by
  have hflags : flagIsSet 0x1001007 pdePresentBit = true ∧ flagIsSet 0x1001007 pdeUsBit = true ∧
      getEntryAddr 0x1001007 = 0x1001000 := by decide
  unfold Mmu.vmmMapPage
  rw [physLinear_eq (by decide), ok_bind]
  simp only [userText_indices.1, userText_indices.2, tinyMapped_pde, hflags.1, hflags.2.1,
    hflags.2.2, Bool.not_true, Bool.false_eq_true, if_false, Bool.and_false]
  rw [physLinear_eq (by decide), ok_bind]
  simp only [Mmu.mapFlush, Mmu.pagingInvalidTlbAddr, if_true, Bool.false_eq_true, if_false]
  rfl

/-- A run in which a task owns the new directory. -/
def inTinyDir (r : TlbRun BuddyRun) (mmu : Mmu BuddyRun) : TlbRun BuddyRun :=
  { r.withSpace (withTinyDir r.space mmu.phys) with
    mmu := mmu, owned := insert 0x1000000 r.owned }

theorem inTinyDir_editable (r : TlbRun BuddyRun) (mmu : Mmu BuddyRun) :
    (inTinyDir r mmu).space.Editable 0x1000000 (getPdeIndex 0x8048000) :=
  withTinyDir_editable (r := r.space) (s := mmu.phys)

theorem access_inTinyDir (r : TlbRun BuddyRun) (mmu : Mmu BuddyRun) :
    tlbStep buddyPageAlloc 0x201000 (inTinyDir r mmu) (.access 0x8048000)
      (inTinyDir r (mmu.access 0x8048000)) :=
  ⟨by norm_num, rfl⟩

/-- The task gets its directory and runs in it. -/
theorem enterTinyDir {S : System (TlbRun BuddyRun) TlbCall}
    (hstep : S.step = tlbStep buddyPageAlloc 0x201000) {r : TlbRun BuddyRun} (hr : S.Reachable r)
    {mem : ℕ → ℕ} {rb₁ : BuddyRun} (hphys : r.mmu.phys = { mem := mem, alloc := rb })
    (hdir : buddyPageAlloc.buddyAllocPages pageSize .lowmem rb = .ok (0x1000000, rb₁)) :
    S.Reachable (inTinyDir r
      { phys := tinyDir { mem := mem, alloc := rb₁ }, cr3 := 0x1000000, tlb := ∅ }) := by
  generalize hs : tinyDir { mem := mem, alloc := rb₁ } = s
  have hnew : S.step r (.other .newSpace) (r.withSpace (withTinyDir r.space s)) := by
    rw [hstep, ← hs]
    exact ⟨trivial, _, newSpace_tinyDir hphys hdir, rfl⟩
  have hgiven : S.step (r.withSpace (withTinyDir r.space s)) (.setTaskCr3 0x1000000)
      (inTinyDir r { r.mmu with phys := s }) := by
    rw [hstep]
    exact ⟨withTinyDir_live (r := r.space) (s := s), rfl⟩
  have hload : S.step (inTinyDir r { r.mmu with phys := s }) (.loadCr3 0x1000000)
      (inTinyDir r { phys := s, cr3 := 0x1000000, tlb := ∅ }) := by
    rw [hstep]
    exact ⟨.inr (Set.mem_insert _ _), rfl⟩
  exact ((hr.step hnew).step hgiven).step hload

/-- It reads a page, the frame there is replaced, and it reads the page again. -/
theorem replaceTinyFrame {S : System (TlbRun BuddyRun) TlbCall}
    (hstep : S.step = tlbStep buddyPageAlloc 0x201000) {r : TlbRun BuddyRun}
    (hr : S.Reachable (inTinyDir r { phys := tinyDir s, cr3 := 0x1000000, tlb := ∅ }))
    (htable : buddyPageAlloc.buddyAllocPages pageSize .lowmem s.alloc = .ok (0x1001000, rb)) :
    ∃ r₁ r₂ : TlbRun BuddyRun, S.Reachable r₁ ∧ S.Reachable r₂ ∧
      (0x8048, { frame := 0x300000, user := true, write := true }) ∈ r₁.mmu.tlb ∧
      (0x8048, { frame := 0x300000, user := true, write := true }) ∉ r₂.mmu.tlb ∧
      (0x8048, { frame := 0x301000, user := true, write := true }) ∈ r₂.mmu.tlb := by
  have hmap : S.step (inTinyDir r { phys := tinyDir s, cr3 := 0x1000000, tlb := ∅ })
      (.mapPage 0x1000000 0x8048000 0x300000 7)
      (inTinyDir r { phys := tinyMapped s rb, cr3 := 0x1000000, tlb := ∅ }) := by
    rw [hstep]
    exact ⟨inTinyDir_editable _ _, true, _, tinyPc_mapPageMmu htable, rfl⟩
  have hread := access_inTinyDir r { phys := tinyMapped s rb, cr3 := 0x1000000, tlb := ∅ }
  rw [← hstep] at hread
  have hr₁ := (hr.step hmap).step hread
  generalize hm₁ : ({ phys := tinyMapped s rb, cr3 := 0x1000000, tlb := ∅ } : Mmu BuddyRun).access
    0x8048000 = m₁ at hr₁
  have hm₁eq : m₁ = { phys := tinyMapped s rb, cr3 := 0x1000000, tlb := m₁.tlb } := by
    rw [← hm₁]
    rfl
  have hremap : S.step (inTinyDir r m₁) (.mapPage 0x1000000 0x8048000 0x301000 7)
      (inTinyDir r { phys := (tinyMapped s rb).write (0x1001000 + 4 * 72) 0x301007, cr3 := 0x1000000
                     tlb := { e ∈ m₁.tlb | e.1 ≠ 0x8048 } }) := by
    rw [hstep]
    refine ⟨inTinyDir_editable _ _, true, _, ?_, rfl⟩
    show m₁.vmmMapPage buddyPageAlloc 0x1000000 0x8048000 0x301000 7 = _
    rw [hm₁eq]
    exact tinyPc_remapPageMmu
  have hread₂ := access_inTinyDir r
    { phys := (tinyMapped s rb).write (0x1001000 + 4 * 72) 0x301007, cr3 := 0x1000000
      tlb := { e ∈ m₁.tlb | e.1 ≠ 0x8048 } }
  rw [← hstep] at hread₂
  have hwalk : walk (tinyMapped s rb).mem 0x1000000 0x8048 =
      some { frame := 0x300000, user := true, write := true } := by
    refine walk_userText (.inl rfl) tinyMapped_pde ?_
    rw [tinyMapped, Phys.write_mem, if_pos rfl]
    rfl
  have hwalk₂ : walk ((tinyMapped s rb).write (0x1001000 + 4 * 72) 0x301007).mem 0x1000000 0x8048 =
      some { frame := 0x301000, user := true, write := true } := by
    refine walk_userText (.inr rfl) ?_ ?_
    · rw [Phys.write_mem, if_neg (by decide), tinyMapped_pde]
    · rw [Phys.write_mem, if_pos rfl]
      rfl
  refine ⟨_, _, hr₁, (hr₁.step hremap).step hread₂, ?_, ?_, ?_⟩
  · show _ ∈ m₁.tlb
    rw [← hm₁]
    exact .inr ⟨rfl, hwalk⟩
  -- the old translation was dropped, and the second walk does not find it
  · rintro (⟨-, hne⟩ | ⟨-, hfound⟩)
    · exact hne rfl
    · rw [show walk _ _ _ = _ from hwalk₂] at hfound
      cases hfound
  · exact .inr ⟨rfl, hwalk₂⟩

end Tiny

/-- A task runs in a new directory: it reads a page, the frame there is replaced, and it reads the
page again. -/
theorem tlb_coherent_tinyPc : ∃ m₀ s, bootAllocatorInit tinyPc .zero = .ok m₀ ∧
    vmmFinalize { mem := fun _ => 0, alloc := m₀ } = .ok (0x201000, s) ∧
    ∃ rb : BuddyRun, ∃ r r' : TlbRun BuddyRun,
      (tlbSystem buddyPageAlloc buddyView 0x201000 { mem := s.mem, alloc := rb }).Reachable r ∧
      (tlbSystem buddyPageAlloc buddyView 0x201000 { mem := s.mem, alloc := rb }).Reachable r' ∧
      (0x8048, { frame := 0x300000, user := true, write := true }) ∈ r.mmu.tlb ∧
      (0x8048, { frame := 0x300000, user := true, write := true }) ∉ r'.mmu.tlb ∧
      (0x8048, { frame := 0x301000, user := true, write := true }) ∈ r'.mmu.tlb ∧
      walk r'.mmu.phys.mem r'.mmu.cr3 0x8048 =
        some { frame := 0x301000, user := true, write := true } := by
  obtain ⟨m₀, s, hboot, hfinal, hfree, hres⟩ := tinyPc_boot
  obtain ⟨rb, rb₁, rb₂, hrb, hdir, htable⟩ := tinyPc_buddy
  rw [← hfree, ← hres] at hrb
  have hr₁ : (bootSystem m₀).Reachable { mem := m₀, blocks := [] } := .init ⟨rfl, rfl⟩
  have hr₂ : (bootSystem s.alloc).Reachable { mem := s.alloc, blocks := [] } := .init ⟨rfl, rfl⟩
  obtain ⟨r₀, hr₀, hphys⟩ : ∃ r₀ : TlbRun BuddyRun, (tlbSystem buddyPageAlloc buddyView 0x201000
      { mem := s.mem, alloc := rb }).init r₀ ∧ r₀.mmu.phys = { mem := s.mem, alloc := rb } :=
    ⟨{ mmu := { phys := { mem := s.mem, alloc := rb }, cr3 := 0x201000, tlb := ∅ }
       stage := _, held := _, owned := ∅ }, ⟨rfl, rfl, rfl, rfl⟩, rfl⟩
  have hin := enterTinyDir (S := tlbSystem buddyPageAlloc buddyView 0x201000
    { mem := s.mem, alloc := rb }) rfl (.init hr₀) hphys hdir
  obtain ⟨r, r', hr, hr', hold, hgone, hnew⟩ := replaceTinyFrame rfl hin htable
  exact ⟨m₀, s, hboot, hfinal, rb, r, r', hr, hr', hold, hgone, hnew,
    tlb_coherent hboot hr₁ hfinal hr₂ (by decide) hrb hr' _ hnew⟩

end Kfs.Userspace
