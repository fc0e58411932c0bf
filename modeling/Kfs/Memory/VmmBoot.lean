import Kfs.Memory.BootPages
import Kfs.Memory.PageLog

/-!
# The kernel directory

`vmm_finalize` of `src/memory/vmm.c`. The directory and the pool of 224 tables behind it come from
the boot allocator, at addresses that the tables in use at that time map to themselves. The buddy
allocator is started afterwards, on the pages that are still free: it never sees a page of the
directory or of the pool.
-/

namespace Kfs.Memory

open Kfs.Lib Kfs.Lib.Word32 Kfs.Lib.Dyadic

/-! ## `vmm_finalize` -/

def mibSize : ℕ := 0x100000 -- MiB_SIZE
def ptCount : ℕ := 224 -- pt_count
def toKeep : Bool := true -- TO_KEEP

/-- The directory entry for table `i` of the pool. -/
def linearPde (ptPool i : ℕ) : ℕ := (ptPool + i * pageSize) ||| pdePresentBit ||| pdeRwBit

/-- Entry `j` of table `i` of the pool. -/
def linearPte (i j : ℕ) : ℕ := (i * 4 * mibSize + j * pageSize) ||| ptePresentBit ||| pteRwBit

/-- An entry of the kernel: present and writable, and not for the user. -/
theorem linearEntry_spec {p : ℕ} (hp : 4096 ∣ p) (hlt : p < 2 ^ 32) :
    getEntryAddr (p ||| ptePresentBit ||| pteRwBit) = p ∧
    flagIsSet (p ||| ptePresentBit ||| pteRwBit) ptePresentBit = true ∧
    flagIsSet (p ||| ptePresentBit ||| pteRwBit) pteUsBit = false ∧
    flagIsSet (p ||| ptePresentBit ||| pteRwBit) pteRwBit = true := by
  refine ⟨?_, ?_, ?_, ?_⟩
  · rw [getEntryAddr_or (by decide), getEntryAddr_or (by decide), getEntryAddr_of_dvd hp hlt]
  · rw [flagIsSet_or, flagIsSet_or, show flagIsSet ptePresentBit ptePresentBit = true by decide]
    simp
  · rw [flagIsSet_or, flagIsSet_or, flagIsSet_of_dvd hp (by decide)]
    decide
  · rw [flagIsSet_or, show flagIsSet pteRwBit pteRwBit = true by decide, Bool.or_true]

/-- The body of the loop of `vmm_finalize`. -/
def finalizeTable {σ : Type} (pageDir ptPool : ℕ) (s : Phys σ) (i : ℕ) : Phys σ :=
  let currentPt := ptPool + i * pageSize
  let s := s.write (pageDir + 4 * (userPdes + i)) (linearPde ptPool i)
  (List.range 1024).foldl (fun s j => s.write (currentPt + 4 * j) (linearPte i j))
    (s.zeroPage currentPt)

/-- `vmm_finalize`: the address that becomes `kpage_dir`, and memory. -/
def vmmFinalize (s : Phys BootMem) : Kern (ℕ × Phys BootMem) := do
  let (pageDirPhys, m) ← bootAllocAt pageSize .dma toKeep 0x0 (mibSize * 4) pageSize s.alloc
  if pageDirPhys = 0 then .error (.kpanic "Failed PD alloc")
  else do
    let s := { s with alloc := m }.zeroPage pageDirPhys
    let (ptPoolPhys, m) ←
      bootAllocAt (ptCount * pageSize) .dma toKeep 0x0 (mibSize * 4) pageSize s.alloc
    if ptPoolPhys = 0 then .error (.kpanic "Failed PT pool alloc")
    else .ok (pageDirPhys,
      (List.range ptCount).foldl (finalizeTable pageDirPhys ptPoolPhys) { s with alloc := m })

/-- Where the directory and the pool lie. -/
structure KernelMap (kernelDir ptPool : ℕ) : Prop where
  dir_dvd : 4096 ∣ kernelDir
  dir_ne : kernelDir ≠ 0
  dir_lt : kernelDir + 4096 ≤ mibSize * 4
  pool_dvd : 4096 ∣ ptPool
  pool_lt : ptPool + ptCount * 4096 ≤ mibSize * 4
  apart : ∀ i < ptCount, ptPool + i * 4096 ≠ kernelDir

/-- The pages of the directory and of the pool. -/
def kernelPages (kernelDir ptPool : ℕ) : Set ℕ :=
  { j | j = kernelDir / 4096 ∨ ∃ i < ptCount, j = ptPool / 4096 + i }

/-- The entries of the tables of the pool. -/
def LinearTables (ptPool : ℕ) (mem : ℕ → ℕ) : Prop :=
  ∀ i < ptCount, ∀ j < 1024, mem (ptPool + i * 4096 + 4 * j) = linearPte i j

/-- The entries of a directory for the tables of the pool. -/
def LinearDir (ptPool pd : ℕ) (mem : ℕ → ℕ) : Prop :=
  ∀ i < ptCount, mem (pd + 4 * (userPdes + i)) = linearPde ptPool i

section Finalize

variable {σ : Type} {kernelDir ptPool : ℕ} {s : Phys σ}

/-- A loop that writes a row of words. -/
theorem writeWords_mem (base : ℕ) (f : ℕ → ℕ) (n : ℕ) (s : Phys σ) (a : ℕ) :
    ((List.range n).foldl (fun s j => s.write (base + 4 * j) (f j)) s).alloc = s.alloc ∧
    (∀ j < n, a = base + 4 * j →
      ((List.range n).foldl (fun s j => s.write (base + 4 * j) (f j)) s).mem a = f j) ∧
    ((∀ j < n, a ≠ base + 4 * j) →
      ((List.range n).foldl (fun s j => s.write (base + 4 * j) (f j)) s).mem a = s.mem a) := by
  induction n with
  | zero => exact ⟨rfl, fun j hj => absurd hj (Nat.not_lt_zero j), fun _ => rfl⟩
  | succ n ih =>
    obtain ⟨halloc, hwritten, hrest⟩ := ih
    rw [List.range_succ, List.foldl_append, List.foldl_cons, List.foldl_nil]
    refine ⟨halloc, fun j hj heq => ?_, fun hne => ?_⟩
    · rw [Phys.write_mem]
      rcases Nat.lt_succ_iff_lt_or_eq.mp hj with hlt | rfl
      · rw [if_neg (by omega)]
        exact hwritten j hlt heq
      · exact if_pos heq
    · rw [Phys.write_mem, if_neg (hne n (Nat.lt_succ_self n))]
      exact hrest fun j hj => hne j (Nat.lt_succ_of_lt hj)

/-- **One table** of `vmm_finalize`: its words, the directory entry, and nothing else. -/
theorem finalizeTable_spec (hmap : KernelMap kernelDir ptPool) {i : ℕ} (hi : i < ptCount) :
    (finalizeTable kernelDir ptPool s i).alloc = s.alloc ∧
    (finalizeTable kernelDir ptPool s i).mem (kernelDir + 4 * (userPdes + i)) = linearPde ptPool i ∧
    (∀ j < 1024, (finalizeTable kernelDir ptPool s i).mem (ptPool + i * 4096 + 4 * j) =
      linearPte i j) ∧
    ∀ a, a ≠ kernelDir + 4 * (userPdes + i) →
      ¬ (ptPool + i * 4096 ≤ a ∧ a < ptPool + i * 4096 + pageSize) →
      (finalizeTable kernelDir ptPool s i).mem a = s.mem a := by
  have hdvd : 4096 ∣ ptPool + i * 4096 := Nat.dvd_add hmap.pool_dvd (Dvd.intro_left i rfl)
  unfold finalizeTable
  dsimp only
  rw [show ptPool + i * pageSize = ptPool + i * 4096 from rfl]
  have hwords := writeWords_mem (ptPool + i * 4096) (linearPte i) 1024
    ((s.write (kernelDir + 4 * (userPdes + i)) (linearPde ptPool i)).zeroPage (ptPool + i * 4096))
  have hslot : ¬ (ptPool + i * 4096 ≤ kernelDir + 4 * (userPdes + i) ∧
      kernelDir + 4 * (userPdes + i) < ptPool + i * 4096 + pageSize) := by
    rw [wordAddr_mem_page hmap.dir_dvd hdvd (by unfold userPdes; unfold ptCount at hi; omega)]
    exact (hmap.apart i hi).symm
  refine ⟨(hwords 0).1, ?_, fun j hj => (hwords _).2.1 j hj rfl, fun a hne hout => ?_⟩
  · refine ((hwords _).2.2 fun j hj heq => hslot ?_).trans ?_
    · exact heq ▸ (wordAddr_mem_page hdvd hdvd hj).mpr rfl
    · rw [Phys.zeroPage_mem]
      exact (if_neg hslot).trans (if_pos rfl)
  · refine ((hwords a).2.2 fun j hj heq => hout ?_).trans ?_
    · exact heq ▸ (wordAddr_mem_page hdvd hdvd hj).mpr rfl
    · rw [Phys.zeroPage_mem]
      exact (if_neg hout).trans (if_neg hne)

/-- **The loop of `vmm_finalize`** after `n` turns. -/
theorem finalizeTables_spec (hmap : KernelMap kernelDir ptPool) (s : Phys σ) (n : ℕ) (hn : n ≤ ptCount) :
    ((List.range n).foldl (finalizeTable kernelDir ptPool) s).alloc = s.alloc ∧
    (∀ i < n, ((List.range n).foldl (finalizeTable kernelDir ptPool) s).mem
      (kernelDir + 4 * (userPdes + i)) = linearPde ptPool i) ∧
    (∀ i < n, ∀ j < 1024, ((List.range n).foldl (finalizeTable kernelDir ptPool) s).mem
      (ptPool + i * 4096 + 4 * j) = linearPte i j) ∧
    ∀ k < 1024, (∀ i < n, k ≠ userPdes + i) →
      ((List.range n).foldl (finalizeTable kernelDir ptPool) s).mem (kernelDir + 4 * k) =
        s.mem (kernelDir + 4 * k) := by
  induction n with
  | zero =>
    exact ⟨rfl, fun i hi => absurd hi (Nat.not_lt_zero i), fun i hi => absurd hi (Nat.not_lt_zero i),
      fun _ _ _ => rfl⟩
  | succ n ih =>
    obtain ⟨halloc, hpdes, hptes, hrest⟩ := ih (Nat.le_of_succ_le hn)
    rw [List.range_succ, List.foldl_append, List.foldl_cons, List.foldl_nil]
    generalize hs₁ : (List.range n).foldl (finalizeTable kernelDir ptPool) s = s₁ at *
    obtain ⟨halloc', hpde, hpte, hother⟩ := finalizeTable_spec (s := s₁) hmap hn
    -- the words of the directory are not in the new table
    have hdir : ∀ k < 1024, ¬ (ptPool + n * 4096 ≤ kernelDir + 4 * k ∧
        kernelDir + 4 * k < ptPool + n * 4096 + pageSize) := by
      intro k hk
      rw [wordAddr_mem_page hmap.dir_dvd (Nat.dvd_add hmap.pool_dvd (Dvd.intro_left n rfl)) hk]
      exact (hmap.apart n hn).symm
    refine ⟨halloc'.trans halloc, fun i hi => ?_, fun i hi j hj => ?_, fun k hk hne => ?_⟩
    · rcases Nat.lt_succ_iff_lt_or_eq.mp hi with hlt | rfl
      · rw [hother _ (by omega) (hdir _ (by unfold userPdes; unfold ptCount at hn; omega))]
        exact hpdes i hlt
      · exact hpde
    · rcases Nat.lt_succ_iff_lt_or_eq.mp hi with hlt | rfl
      · rw [hother _ (fun heq => ?_) (by unfold pageSize; omega)]
        · exact hptes i hlt j hj
        · -- a table of the pool is not the directory
          have hdvd : 4096 ∣ ptPool + i * 4096 := Nat.dvd_add hmap.pool_dvd (Dvd.intro_left i rfl)
          refine hmap.apart i (hlt.trans hn) (wordAddr_inj hdvd hmap.dir_dvd hj ?_ heq).1
          unfold userPdes
          unfold ptCount at hn
          omega
      · exact hpte j hj
    · rw [hother _ (fun heq => hne n (Nat.lt_succ_self n) (by omega)) (hdir k hk)]
      exact hrest k hk fun i hi => hne i (Nat.lt_succ_of_lt hi)

end Finalize

/-! ## The boot allocator -/

section Boot

variable {m₀ : BootMem} {r : BootRun}

/-- What a block of `boot_alloc_at` for `vmm_finalize` is, and the run that goes on after it. -/
theorem finalizeAlloc_spec (hm₀ : ZoneTables Region.Separate m₀) (hr : (bootSystem m₀).Reachable r)
    {size ret : ℕ} {m' : BootMem} (hsize : 0 < size) (hle : size ≤ mibSize * 4) (hne : ret ≠ 0)
    (h : bootAllocAt size .dma toKeep 0x0 (mibSize * 4) pageSize r.mem = .ok (ret, m')) :
    (bootSystem m₀).Reachable { mem := m', blocks := (ret, size) :: r.blocks } ∧
      4096 ∣ ret ∧ ret + size ≤ mibSize * 4 := by
  have hmib : mibSize * 4 < 2 ^ 31 := by decide
  have hvalid : (BootCall.allocAt size .dma toKeep 0x0 (mibSize * 4) pageSize).Valid :=
    ⟨⟨hsize, by omega⟩, by decide, hmib, .inr ⟨12, by norm_num, rfl⟩⟩
  have hinv := BootRun.Inv.of_reachable cutRel_separate (fun _ _ => Region.Separate.apart) hm₀ hr
  constructor
  · refine .step hr ⟨hvalid.noWrap _, ret, m', h, ?_⟩
    rw [if_neg hne]
    rfl
  · rcases bootStep_spec hinv.tables (hvalid.noWrap _) h with ⟨hnull, -⟩ | halloc
    · exact absurd hnull hne
    · obtain ⟨-, hwin, halign⟩ := halloc.window hvalid
      exact ⟨by exact_mod_cast halign (by decide), hwin⟩

/-- **`vmm_finalize`**: the directory and its tables lie below 4 MiB, the entries are those of the
linear mapping, and the boot allocator has given their bytes away. -/
theorem vmmFinalize_spec (hm₀ : ZoneTables Region.Separate m₀) (hr : (bootSystem m₀).Reachable r)
    {mem : ℕ → ℕ} {kernelDir : ℕ} {s : Phys BootMem}
    (h : vmmFinalize { mem := mem, alloc := r.mem } = .ok (kernelDir, s)) :
    ∃ ptPool, KernelMap kernelDir ptPool ∧ LinearDir ptPool kernelDir s.mem ∧
      LinearTables ptPool s.mem ∧
      (∀ k < 1024, k < userPdes ∨ userPdes + ptCount ≤ k → s.mem (kernelDir + 4 * k) = 0) ∧
      (bootSystem m₀).Reachable { mem := s.alloc, blocks := (ptPool, ptCount * pageSize) ::
        (kernelDir, pageSize) :: r.blocks } := by
  unfold vmmFinalize at h
  rw [bind_eq_ok] at h
  obtain ⟨⟨pd, m₁⟩, hpd, h⟩ := h
  simp only at h
  split at h
  · cases h
  · next hpdNe =>
    rw [bind_eq_ok] at h
    obtain ⟨⟨pool, m₂⟩, hpool, h⟩ := h
    simp only at h
    split at h
    · cases h
    · next hpoolNe =>
      obtain ⟨rfl, hs⟩ := Prod.mk.inj (Except.ok.inj h)
      -- The directory and the pool come from the boot allocator, one after the other.
      obtain ⟨hr₁, hpdDvd, hpdLt⟩ :=
        finalizeAlloc_spec hm₀ hr (by decide) (by decide) hpdNe hpd
      obtain ⟨hr₂, hpoolDvd, hpoolLt⟩ :=
        finalizeAlloc_spec hm₀ hr₁ (by decide) (by decide) hpoolNe hpool
      have hinv := BootRun.Inv.of_reachable cutRel_separate (fun _ _ => Region.Separate.apart) hm₀ hr₂
      -- Two boot allocations share no page.
      have hdis := (List.pairwise_cons.mp hinv.disjoint).1 _ List.mem_cons_self
      have hmap : KernelMap pd pool := {
        dir_dvd := hpdDvd
        dir_ne := hpdNe
        dir_lt := hpdLt
        pool_dvd := hpoolDvd
        pool_lt := hpoolLt
        apart := by
          intro i hi heq
          refine hdis (pool + i * 4096) ⟨Nat.le_add_right _ _, ?_⟩ ⟨heq.ge, ?_⟩
          · unfold pageSize
            dsimp only
            omega
          · unfold pageSize
            dsimp only
            omega }
      -- The directory is cleared before the loop enters the tables.
      obtain ⟨start, hs, hstart, hzero⟩ : ∃ start : Phys BootMem,
          s = (List.range ptCount).foldl (finalizeTable pd pool) start ∧ start.alloc = m₂ ∧
          ∀ k < 1024, start.mem (pd + 4 * k) = 0 :=
        ⟨_, hs.symm, rfl, fun k hk => if_pos ((wordAddr_mem_page hpdDvd hpdDvd hk).mpr rfl)⟩
      obtain ⟨halloc, hpdes, hptes, hrest⟩ := finalizeTables_spec hmap start ptCount le_rfl
      rw [← hs] at halloc hpdes hptes hrest
      refine ⟨pool, hmap, hpdes, hptes, fun k hk hout => ?_, ?_⟩
      · rw [hrest k hk fun i hi => by omega]
        exact hzero k hk
      · rw [halloc, hstart]
        exact hr₂

/-- The first bytes of the pages of the directory and of the pool are never free again. -/
theorem kernelPages_not_free {kernelDir ptPool : ℕ} (hm₀ : ZoneTables Region.Separate m₀)
    (hmap : KernelMap kernelDir ptPool) (hr : (bootSystem m₀).Reachable r)
    (hdir : (kernelDir, pageSize) ∈ r.blocks) (hpool : (ptPool, ptCount * pageSize) ∈ r.blocks)
    {j : ℕ} (hj : j ∈ kernelPages kernelDir ptPool) : ¬ r.mem.FreeByte (j * 4096) := by
  have hinv := BootRun.Inv.of_reachable cutRel_separate (fun _ _ => Region.Separate.apart) hm₀ hr
  have hdvd := hmap.dir_dvd
  have hdvd' := hmap.pool_dvd
  rcases hj with rfl | ⟨i, hi, rfl⟩
  · refine hinv.taken _ hdir _ ⟨?_, ?_⟩
    · dsimp only
      omega
    · unfold pageSize
      dsimp only
      omega
  · refine hinv.taken _ hpool _ ⟨?_, ?_⟩
    · dsimp only
      omega
    · unfold pageSize
      dsimp only
      omega

end Boot

/-! ## Pages that the allocator never sees -/

/-- The pages of `N` are neither free nor in a live block. -/
structure PageAlloc.View.Spares {σ : Type} (V : PageAlloc.View σ) (N : Set ℕ) (a : σ) : Prop where
  free : Disjoint N (V.free a)
  live : ∀ p k, (p, k) ∈ V.live a → Disjoint N (block p k)

/-- Pages that are neither free nor live stay so. -/
theorem PageAlloc.Lawful.spares {σ : Type} {A : PageAlloc σ} {V : PageAlloc.View σ}
    (hA : A.Lawful V) (N : Set ℕ) : A.Lawful (V.and (V.Spares N)) := by
  apply hA.and
  · intro a hinv hN size zone ptr a' hrun
    rcases hA.alloc hinv size zone with hnull | ⟨p, a₁, hrun', ht⟩
    · obtain ⟨-, rfl⟩ := Prod.mk.inj (Except.ok.inj (hnull.symm.trans hrun))
      exact hN
    · obtain ⟨-, rfl⟩ := Prod.mk.inj (Except.ok.inj (hrun'.symm.trans hrun))
      refine ⟨?_, fun q l hq => ?_⟩
      · rw [ht.free]
        exact hN.free.mono_right Set.sdiff_subset
      · rw [ht.live] at hq
        rcases hq with heq | hq
        · obtain ⟨rfl, rfl⟩ := Prod.mk.inj heq
          exact hN.free.mono_right ht.subset
        · exact hN.live q l hq
  · intro a hinv hN p k hb a' hrun
    obtain ⟨a₁, hrun', hret⟩ := hA.release hinv hb
    obtain rfl := Except.ok.inj (hrun'.symm.trans hrun)
    refine ⟨?_, fun q l hq => ?_⟩
    · rw [hret.free]
      exact Set.disjoint_union_right.mpr ⟨hN.free, hN.live p k hb⟩
    · rw [hret.live] at hq
      exact hN.live q l hq.1

/-- The allocator as the runs see it: a call that stops the kernel is a call that fails. -/
def PageAlloc.checked {σ : Type} (A : PageAlloc σ) : PageAlloc σ where
  buddyAllocPages size zone a :=
    match A.buddyAllocPages size zone a with
    | .ok r => .ok r
    | .error _ => .ok (0, a)
  buddyFreeBlock := A.buddyFreeBlock

theorem PageAlloc.checked_ok {σ : Type} {A : PageAlloc σ} {size : ℕ} {zone : Zone} {a : σ}
    {r : ℕ × σ} (h : A.buddyAllocPages size zone a = .ok r) :
    A.checked.buddyAllocPages size zone a = .ok r := by
  unfold PageAlloc.checked
  simp only [h]

/-- **The buddy allocator on any pages**: a call on page 0 stops the kernel, and nothing else can go
wrong. -/
theorem buddyPageAlloc_checked_lawful :
    buddyPageAlloc.checked.Lawful (buddyViewOf fun _ => True) where
  alloc := by
    rintro r ⟨A, h, -⟩ size zone
    rcases buddyAllocPages_cases h.free size zone with ⟨hnull, -⟩ | ⟨p, c, s, hrun, ha⟩ | ⟨-, e, herr⟩
    · left
      apply PageAlloc.checked_ok
      simp only [buddyPageAlloc, hnull, ok_bind, if_true]
    · obtain ⟨r', hcall, ht⟩ := h.taken (P := fun _ => True) trivial hrun ha
      exact Or.inr ⟨p, r', PageAlloc.checked_ok hcall, ht⟩
    · left
      have hstop : buddyPageAlloc.buddyAllocPages size zone r = .error e := by
        simp only [buddyPageAlloc, herr]
        rfl
      unfold PageAlloc.checked
      simp only [hstop]
  release := by
    rintro r ⟨A, h, -⟩ p k hb
    exact h.returned (P := fun _ => True) trivial hb
  notFree := fun ⟨_, h, _⟩ => h.notFree
  disjoint := fun ⟨_, h, _⟩ => h.blocks_disjoint

/-- Pages whose first byte the boot allocator has given away are spared by the buddy allocator that
is started after it. -/
theorem buddy_spares {m : BootMem} (hm : ZoneTables Region.Separate m)
    (hdis : ∀ p, m.FreeByte p → ¬ m.ResByte p) {N : Set ℕ}
    (hN : ∀ j ∈ N, ¬ m.FreeByte (j * 4096)) {r : BootRun} (hr : (bootSystem m).Reachable r) {n : ℕ}
    (hn : n ≤ maxPages) {areas : Zone → ℕ → FreeArea} {rb : BuddyRun}
    (hrb : (buddySystem n { pages := pageDescriptorInit r.mem.freeZones r.mem.resZones
                            areas := areas }).Reachable rb) :
    ((buddyViewOf fun _ => True).and ((buddyViewOf fun _ => True).Spares N)).Inv rb := by
  have hrun := runInv_of_reachable hn (pageDescriptorInit_tableInit _ _) hrb
  generalize hA : availablePages n (pageDescriptorInit r.mem.freeZones r.mem.resZones) = A at hrun
  have hbytes := freeByte_of_reachable hm hdis hr
  have hout : ∀ j ∈ N, j ∉ A := by
    intro j hj hmem
    rw [← hA] at hmem
    have hfree := (available_iff (fun p hp => (hbytes p hp).1) (hmem.1.trans_le hn)).mp hmem.2
    exact hN j hj (hbytes _ hfree).2
  refine ⟨⟨A, hrun, trivial⟩, ?_, fun p k hb => ?_⟩
  · show Disjoint _ (freePages rb.buddy)
    rw [hrun.free.freePages_eq, Set.disjoint_left]
    exact fun j hj hF => hout j hj hF.1
  · rw [← hrun.liveBlock_eq hb, Set.disjoint_left]
    exact fun j hj hlive => hout j hj ((hrun.live _ hb).subset hlive)

end Kfs.Memory
