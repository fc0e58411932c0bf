import Kfs.Proc.DirectorySpec

/-!
# The linear mapping of the kernel

From the boot of the machine on: `vmm_finalize` takes the kernel directory and its tables from the
boot allocator, the buddy allocator is started on the pages that are left, and the calls on
directories run in any order. Under every directory in use the kernel finds physical address `p`
below `HIGHMEM` at `KERNEL_VADDR_BASE + p`.
-/

namespace Kfs.Userspace

open Kfs.Lib Kfs.Lib.Word32 Kfs.Lib.Dyadic Kfs.Memory

section LinearMap

variable {σ : Type} {A : PageAlloc σ} {V : PageAlloc.View σ} {kernelDir ptPool : ℕ}
  {r r' : SpaceRun σ}

/-- What `vmm_finalize` leaves. -/
theorem SpaceInv.init (hmap : KernelMap kernelDir ptPool) {s : Phys σ}
    (hinv : (kernelView V kernelDir ptPool).Inv s.alloc) (hdir : LinearDir ptPool kernelDir s.mem)
    (hpool : LinearTables ptPool s.mem)
    (hempty : ∀ k < 1024, k < userPdes ∨ userPdes + ptCount ≤ k → s.mem (kernelDir + 4 * k) = 0) :
    SpaceInv V kernelDir ptPool ({ phys := s, stage := fun _ => .absent, held := V.live s.alloc :
      SpaceRun σ }.setStage kernelDir .live) := by
  generalize hr₀ : { phys := s, stage := fun _ => .absent, held := V.live s.alloc : SpaceRun σ } = r₀
  have honly : ∀ pd, (r₀.setStage kernelDir .live).stage pd ≠ .absent → pd = kernelDir := by
    intro pd hpd
    by_contra hne
    rw [r₀.setStage_of_ne _ hne, ← hr₀] at hpd
    exact hpd rfl
  have hphys : (r₀.setStage kernelDir .live).phys = s := by rw [← hr₀]; rfl
  have habsent : ∀ w ∈ (r₀.setStage kernelDir .live).slots, slotPresent s w = false := by
    rintro ⟨pd, i⟩ ⟨hpd, hown⟩
    obtain rfl := honly pd hpd
    unfold slotPresent slotAddr
    dsimp only
    rw [hempty i hown.lt (hown.imp_right And.left), flagIsSet_zero]
  have hlt : kernelDir < highmemStart := by
    have hle := hmap.dir_lt
    unfold mibSize at hle
    unfold highmemStart
    omega
  refine {
    tables := {
      inv := hphys ▸ hinv
      dir := fun w hw => ?_
      table := fun w hw hpres => absurd hpres (by rw [hphys, habsent w hw]; simp)
      inj := fun w hw _ _ hpres => absurd hpres (by rw [hphys, habsent w hw]; simp)
      live := ?_ }
    kernel := r₀.setStage_self _ _
    held := fun pd hpd hk => absurd (honly pd hpd) hk
    filling := fun pd next hfill => ?_
    dirs := fun pd hlive => ?_
    pool := hphys ▸ hpool }
  · rw [honly w.1 hw.1, hphys]
    exact ⟨hmap.dir_dvd, hlt, hw.2.lt,
      fun hfree => Set.disjoint_left.mp hinv.2.free (Or.inl rfl) hfree⟩
  · rw [hphys, tables_of_absent habsent, Set.union_empty]
    have hheld : (r₀.setStage kernelDir .live).held = V.live s.alloc := by rw [← hr₀]; rfl
    unfold SpaceRun.blocks
    rw [hheld]
    refine (Set.union_eq_self_of_subset_right ?_).symm
    rintro b ⟨pd, hpd, hk, -⟩
    exact absurd (honly pd hpd) hk
  · have heq := honly pd (by rw [hfill]; simp)
    rw [heq, r₀.setStage_self] at hfill
    cases hfill
  · rw [honly pd (by rw [hlive]; simp), hphys]
    exact hdir

/-- The words that lead from an address of the linear mapping to its frame. -/
theorem SpaceInv.kernel_words (hmap : KernelMap kernelDir ptPool)
    (h : SpaceInv V kernelDir ptPool r) {pd : ℕ} (hpd : r.stage pd = .live) {n : ℕ}
    (hn : n < ptCount * 1024) :
    r.phys.mem (pd + 4 * (userPdes + n / 1024)) = linearPde ptPool (n / 1024) ∧
    getEntryAddr (linearPde ptPool (n / 1024)) = ptPool + n / 1024 * 4096 ∧
    flagIsSet (linearPde ptPool (n / 1024)) pdePresentBit = true ∧
    flagIsSet (linearPde ptPool (n / 1024)) pdeUsBit = false ∧
    flagIsSet (linearPde ptPool (n / 1024)) pdeRwBit = true := by
  have hi : n / 1024 < ptCount := by omega
  have hdvd : 4096 ∣ ptPool + n / 1024 * pageSize :=
    Nat.dvd_add hmap.pool_dvd (Dvd.intro_left _ rfl)
  have hlt : ptPool + n / 1024 * pageSize < 2 ^ 32 := by
    have hle := hmap.pool_lt
    unfold mibSize ptCount at *
    unfold pageSize
    omega
  exact ⟨h.dirs pd hpd _ hi, linearEntry_spec hdvd hlt⟩

/-- The entry of a page of the linear mapping. -/
theorem SpaceInv.kernel_entry (h : SpaceInv V kernelDir ptPool r) {n : ℕ}
    (hn : n < ptCount * 1024) :
    r.phys.mem (ptPool + n / 1024 * 4096 + 4 * (n % 1024)) = linearPte (n / 1024) (n % 1024) ∧
    getEntryAddr (linearPte (n / 1024) (n % 1024)) = n * 4096 ∧
    flagIsSet (linearPte (n / 1024) (n % 1024)) ptePresentBit = true ∧
    flagIsSet (linearPte (n / 1024) (n % 1024)) pteUsBit = false ∧
    flagIsSet (linearPte (n / 1024) (n % 1024)) pteRwBit = true := by
  have hi : n / 1024 < ptCount := by omega
  have haddr : n / 1024 * 4 * mibSize + n % 1024 * pageSize = n * 4096 := by
    unfold mibSize pageSize
    omega
  have hlt : n * 4096 < 2 ^ 32 := by
    unfold ptCount at hn
    omega
  refine ⟨h.pool _ hi _ (Nat.mod_lt _ (by norm_num)), ?_⟩
  unfold linearPte
  rw [haddr]
  exact linearEntry_spec (Dvd.intro_left n rfl) hlt

/-- Where an address of the linear mapping leads. -/
theorem SpaceInv.getMapping (hmap : KernelMap kernelDir ptPool) (h : SpaceInv V kernelDir ptPool r)
    {pd : ℕ} (hpd : r.stage pd = .live) {p : ℕ} (hp : p < ptCount * (4 * mibSize)) :
    vmmGetMapping pd (kernelVaddrBase + p) r.phys = .ok p := by
  have hlive : r.stage pd ≠ .absent := by rw [hpd]; simp
  unfold ptCount mibSize at hp
  have hn : p / 4096 < ptCount * 1024 := by
    unfold ptCount
    omega
  have hpde : getPdeIndex (kernelVaddrBase + p) = userPdes + p / 4096 / 1024 := by
    rw [getPdeIndex_eq]
    unfold kernelVaddrBase userPdes
    omega
  have hpte : getPteIndex (kernelVaddrBase + p) = p / 4096 % 1024 := by
    rw [getPteIndex_eq]
    unfold kernelVaddrBase
    omega
  have hoff : (kernelVaddrBase + p) &&& 0xFFF = p % 4096 := by
    rw [show (0xFFF : ℕ) = 2 ^ 12 - 1 by norm_num, Nat.and_two_pow_sub_one_eq_mod]
    unfold kernelVaddrBase
    omega
  obtain ⟨hword, htable, hpres, -, -⟩ := h.kernel_words hmap hpd hn
  obtain ⟨hentry, hframe, hset, -, -⟩ := h.kernel_entry hn
  have hlow : ptPool + p / 4096 / 1024 * 4096 < highmemStart := by
    have hle := hmap.pool_lt
    unfold ptCount mibSize at *
    unfold highmemStart
    omega
  unfold vmmGetMapping
  rw [physLinear_eq (h.dir hlive).2.1, ok_bind]
  simp only [hpde, hpte, hword, hpres, Bool.not_true, Bool.false_eq_true, if_false]
  rw [htable, physLinear_eq hlow, ok_bind]
  simp only [hentry, hset, Bool.not_true, Bool.false_eq_true, if_false]
  rw [hframe, hoff, add32_eq (by omega)]
  congr 1
  omega

/-! ## Calls that return -/

/-- A run does not see that a call could have stopped. -/
theorem vmmMapPage_checked {pd v p flags : ℕ} {s : Phys σ} {res : Bool × Phys σ}
    (h : vmmMapPage A pd v p flags s = .ok res) : vmmMapPage A.checked pd v p flags s = .ok res := by
  unfold vmmMapPage at h ⊢
  rw [bind_eq_ok] at h ⊢
  obtain ⟨pdVirt, hpd, h⟩ := h
  refine ⟨pdVirt, hpd, ?_⟩
  simp only at h ⊢
  split at h
  · next habs =>
    rw [if_pos habs]
    rw [bind_eq_ok] at h ⊢
    obtain ⟨newPt, halloc, h⟩ := h
    exact ⟨newPt, PageAlloc.checked_ok halloc, h⟩
  · next hpres =>
    rw [if_neg hpres]
    exact h

theorem allocOn_checked {size : ℕ} {zone : Zone} {s : Phys σ} {res : ℕ × Phys σ}
    (h : A.allocOn size zone s = .ok res) : A.checked.allocOn size zone s = .ok res := by
  unfold PageAlloc.allocOn at h ⊢
  rw [bind_eq_ok] at h ⊢
  obtain ⟨ptr, halloc, h⟩ := h
  exact ⟨ptr, PageAlloc.checked_ok halloc, h⟩

theorem vmmKmap_checked {cur p : ℕ} {s : Phys σ} {res : ℕ × Phys σ}
    (h : vmmKmap A cur p s = .ok res) : vmmKmap A.checked cur p s = .ok res := by
  unfold vmmKmap at h ⊢
  rw [bind_eq_ok] at h ⊢
  obtain ⟨mapped, hrun, h⟩ := h
  exact ⟨mapped, vmmMapPage_checked hrun, h⟩

theorem forkTableHead_checked {current new i : ℕ} {s : Phys σ} {res : Bool × Option ℕ × Phys σ}
    (h : forkTableHead A current new s i = .ok res) :
    forkTableHead A.checked current new s i = .ok res := by
  unfold forkTableHead at h ⊢
  rw [bind_eq_ok] at h ⊢
  obtain ⟨currentPd, hcur, h⟩ := h
  refine ⟨currentPd, hcur, ?_⟩
  rw [bind_eq_ok] at h ⊢
  obtain ⟨newPd, hnew, h⟩ := h
  refine ⟨newPd, hnew, ?_⟩
  split at h
  · next hpres =>
    rw [if_pos hpres]
    rw [bind_eq_ok] at h ⊢
    obtain ⟨newPt, halloc, h⟩ := h
    exact ⟨newPt, allocOn_checked halloc, h⟩
  · next habs =>
    rw [if_neg habs]
    exact h

/-- Every step is one of the checked allocator. -/
theorem spaceStep_checked {call : SpaceCall} (h : spaceStep A kernelDir r call r') :
    spaceStep A.checked kernelDir r call r' := by
  cases call with
  | mapPage pd v p flags =>
    obtain ⟨hedit, ok, s, hrun, hr⟩ := h
    exact ⟨hedit, ok, s, vmmMapPage_checked hrun, hr⟩
  | kmap cur p =>
    obtain ⟨hcur, window, s, hrun, hr⟩ := h
    exact ⟨hcur, window, s, vmmKmap_checked hrun, hr⟩
  | newSpace =>
    obtain ⟨pd, s, hrun, hr⟩ := h
    exact ⟨pd, s, allocOn_checked hrun, hr⟩
  | clone =>
    obtain ⟨pd, s, hrun, hr⟩ := h
    exact ⟨pd, s, allocOn_checked hrun, hr⟩
  | forkTable current new =>
    obtain ⟨hcur, i, hst, hi, ok, pt, s, hrun, hr⟩ := h
    exact ⟨hcur, i, hst, hi, ok, pt, s, forkTableHead_checked hrun, hr⟩
  | alloc size zone =>
    obtain ⟨ptr, s, hrun, hr⟩ := h
    exact ⟨ptr, s, allocOn_checked hrun, hr⟩
  -- the other calls take no pages
  | unmapPage pd v => exact h
  | kunmap cur => exact h
  | forkShare current new => exact h
  | destroy pd => exact h
  | free p k => exact h
  | store a word => exact h

/-- **The invariant holds in every run.** -/
theorem spaceInv_of_reachable (hA : A.checked.Lawful (kernelView V kernelDir ptPool))
    (hmap : KernelMap kernelDir ptPool) {s : Phys σ}
    (hinit : ∀ r₀, (spaceSystem A V kernelDir s).init r₀ → SpaceInv V kernelDir ptPool r₀)
    (hr : (spaceSystem A V kernelDir s).Reachable r) : SpaceInv V kernelDir ptPool r := by
  apply hr.invariant
  · exact hinit
  · exact fun r₁ call r₂ h hstep => h.step hA hmap (spaceStep_checked hstep)

end LinearMap

/-! ## From the boot on -/

/-- **From the boot on**: whatever the boot allocator does before and after `vmm_finalize` and the
buddy allocator on the pages that are left, the directories start in order. -/
theorem spaceInv_of_boot {b : BootInput} {m₀ : BootMem}
    (hboot : bootAllocatorInit b .zero = .ok m₀) {r₁ : BootRun} (hr₁ : (bootSystem m₀).Reachable r₁)
    {mem : ℕ → ℕ} {kernelDir : ℕ} {s : Phys BootMem}
    (hfinal : vmmFinalize { mem := mem, alloc := r₁.mem } = .ok (kernelDir, s)) {r₂ : BootRun}
    (hr₂ : (bootSystem s.alloc).Reachable r₂) {n : ℕ} (hn : n ≤ maxPages)
    {areas : Zone → ℕ → FreeArea} {rb : BuddyRun}
    (hrb : (buddySystem n { pages := pageDescriptorInit r₂.mem.freeZones r₂.mem.resZones
                            areas := areas }).Reachable rb) :
    ∃ ptPool, KernelMap kernelDir ptPool ∧
      buddyPageAlloc.checked.Lawful (kernelView (buddyViewOf fun _ => True) kernelDir ptPool) ∧
      ∀ r₀, (spaceSystem buddyPageAlloc (buddyViewOf fun _ => True) kernelDir
        { mem := s.mem, alloc := rb }).init r₀ →
          SpaceInv (buddyViewOf fun _ => True) kernelDir ptPool r₀ := by
  obtain ⟨hm₀, -, hdis₀⟩ := bootAllocatorInit_zones hboot
  obtain ⟨ptPool, hmap, hdir, hpool, hempty, hafter⟩ := vmmFinalize_spec hm₀ hr₁ hfinal
  -- what is left for the boot allocator is separated, and free of the kernel's pages
  have hinv := BootRun.Inv.of_reachable cutRel_separate (fun _ _ => Region.Separate.apart) hm₀ hafter
  have hbytes := freeByte_of_reachable hm₀ hdis₀ hafter
  have hkernel : ∀ j ∈ kernelPages kernelDir ptPool, ¬ s.alloc.FreeByte (j * 4096) := fun j hj =>
    kernelPages_not_free hm₀ hmap hafter (List.mem_cons_of_mem _ List.mem_cons_self)
      List.mem_cons_self hj
  have hspares := buddy_spares hinv.tables (fun p hp => (hbytes p hp).1) hkernel hr₂ hn hrb
  refine ⟨ptPool, hmap, buddyPageAlloc_checked_lawful.spares _, ?_⟩
  rintro r₀ rfl
  exact SpaceInv.init hmap hspares hdir hpool hempty

/-- **The kernel is mapped in every address space.** Boot the machine on any memory map, make any
boot allocations, run `vmm_finalize`, make any boot allocations again, start the buddy allocator on
the pages that are left and let it serve any requests. From there on, after any run of the calls on
directories: the kernel directory is in use, and under every directory in use the 224 * 4 MiB from
`KERNEL_VADDR_BASE` on lead to the physical addresses from 0 on. -/
theorem linearMap_everywhere {b : BootInput} {m₀ : BootMem}
    (hboot : bootAllocatorInit b .zero = .ok m₀) {r₁ : BootRun} (hr₁ : (bootSystem m₀).Reachable r₁)
    {mem : ℕ → ℕ} {kernelDir : ℕ} {s : Phys BootMem}
    (hfinal : vmmFinalize { mem := mem, alloc := r₁.mem } = .ok (kernelDir, s)) {r₂ : BootRun}
    (hr₂ : (bootSystem s.alloc).Reachable r₂) {n : ℕ} (hn : n ≤ maxPages)
    {areas : Zone → ℕ → FreeArea} {rb : BuddyRun}
    (hrb : (buddySystem n { pages := pageDescriptorInit r₂.mem.freeZones r₂.mem.resZones
                            areas := areas }).Reachable rb) {r : SpaceRun BuddyRun}
    (hr : (spaceSystem buddyPageAlloc buddyView kernelDir
      { mem := s.mem, alloc := rb }).Reachable r) :
    r.stage kernelDir = .live ∧ ∀ pd, r.stage pd = .live → ∀ p < 224 * (4 * mibSize),
      vmmGetMapping pd (kernelVaddrBase + p) r.phys = .ok p := by
  obtain ⟨ptPool, hmap, hA, hinit⟩ := spaceInv_of_boot hboot hr₁ hfinal hr₂ hn hrb
  have hspace := spaceInv_of_reachable hA hmap hinit hr
  exact ⟨hspace.kernel, fun pd hpd p hp => hspace.getMapping hmap hpd hp⟩

/-! ## A machine with eight pages -/

/-- A machine of which the kernel and its tables take everything below 16 MiB, with eight pages
above. -/
def tinyPc : BootInput :=
  { smallPc with
    mmap := [⟨⟨0x100000, 0x1e2000⟩, 1, by decide, by decide⟩,
      ⟨⟨0x1000000, 0x8000⟩, 1, by decide, by decide⟩] }

/-- The free regions behind `vmm_finalize`. -/
def tinyFree : Zone → List Region
  | .dma => [⟨0x200400, 0x201000⟩]
  | .lowmem => [⟨0x1000000, 0x1008000⟩]
  | .highmem => []

/-- And the reserved ones. -/
def tinyRes : Zone → List Region
  | .dma => [⟨0, 0x9fc00⟩, ⟨0xa0000, 0x200000⟩, ⟨0x101000, 0x101030⟩, ⟨0x102000, 0x102800⟩,
      ⟨0x200000, 0x200400⟩, ⟨0x201000, 0x2e2000⟩]
  | .lowmem => []
  | .highmem => []

/-- What `vmm_finalize` takes: the directory at 0x201000 and the tables from 0x202000 on. -/
theorem tinyPc_kernelPages : ((do
    let m ← bootAllocatorInit tinyPc .zero
    let (pageDirPhys, m) ← bootAllocAt pageSize .dma toKeep 0x0 (mibSize * 4) pageSize m
    let (ptPoolPhys, m) ← bootAllocAt (ptCount * pageSize) .dma toKeep 0x0 (mibSize * 4) pageSize m
    .ok ((pageDirPhys, ptPoolPhys), m) : Kern ((ℕ × ℕ) × BootMem)).toOption.map fun out =>
      (out.1, Zone.all.map out.2.freeZones, Zone.all.map out.2.resZones)) =
      some ((0x201000, 0x202000), Zone.all.map tinyFree, Zone.all.map tinyRes) := by
  decide +kernel

theorem zones_ext {f g : Zone → List Region} (h : Zone.all.map f = Zone.all.map g) : f = g := by
  funext z
  exact List.map_inj_left.mp h z (by cases z <;> decide)

/-- The machine comes up. -/
theorem tinyPc_boot : ∃ m₀ s, bootAllocatorInit tinyPc .zero = .ok m₀ ∧
    vmmFinalize { mem := fun _ => 0, alloc := m₀ } = .ok (0x201000, s) ∧
    s.alloc.freeZones = tinyFree ∧ s.alloc.resZones = tinyRes := by
  obtain ⟨⟨addrs, m⟩, heval, hm⟩ := exists_ok_of_toOption_map tinyPc_kernelPages
  simp only [Prod.mk.injEq] at hm
  obtain ⟨haddrs, hfree, hres⟩ := hm
  simp only [bind_eq_ok] at heval
  obtain ⟨m₀, hboot, ⟨pd, m₁⟩, hpd, ⟨pool, m₂⟩, hpool, heq⟩ := heval
  obtain ⟨rfl, rfl⟩ := Prod.mk.inj (Except.ok.inj heq)
  obtain ⟨rfl, rfl⟩ := Prod.mk.inj haddrs
  have hfinal : vmmFinalize { mem := fun _ => 0, alloc := m₀ } = .ok (0x201000,
      (List.range ptCount).foldl (finalizeTable 0x201000 0x202000)
        ({ mem := fun _ => 0, alloc := m₂ : Phys BootMem }.zeroPage 0x201000)) := by
    unfold vmmFinalize
    rw [hpd, ok_bind]
    dsimp only
    rw [if_neg (by norm_num)]
    dsimp only [Phys.zeroPage]
    rw [hpool, ok_bind]
    dsimp only
    rw [if_neg (by norm_num)]
  have hmap : KernelMap 0x201000 0x202000 :=
    ⟨by decide, by decide, by decide, by decide, by decide, fun i _ => by omega⟩
  have halloc := (finalizeTables_spec hmap
    ({ mem := fun _ => 0, alloc := m₂ : Phys BootMem }.zeroPage 0x201000) ptCount le_rfl).1
  refine ⟨m₀, _, hboot, hfinal, ?_⟩
  rw [halloc]
  exact ⟨zones_ext hfree, zones_ext hres⟩

/-- The addresses of two pages that are taken one after the other. -/
def takeTwoPages (s : BuddyState) : Kern (ℕ × ℕ) := do
  let (p, r) ← buddyPageAlloc.buddyAllocPages pageSize .lowmem { buddy := s, live := [] }
  let (q, _) ← buddyPageAlloc.buddyAllocPages pageSize .lowmem r
  .ok (p, q)

/-- The buddy allocator there: two pages are taken. -/
theorem tinyPc_buddy : ∃ rb rb₁ rb₂ : BuddyRun, (buddySystem 0x1008
      { pages := pageDescriptorInit tinyFree tinyRes, areas := emptyAreas }).Reachable rb ∧
    buddyPageAlloc.buddyAllocPages pageSize .lowmem rb = .ok (0x1000000, rb₁) ∧
    buddyPageAlloc.buddyAllocPages pageSize .lowmem rb₁ = .ok (0x1001000, rb₂) := by
  have hskip : buddyInit 0x1008 { pages := pageDescriptorInit tinyFree tinyRes, areas := emptyAreas } =
      (List.range' 0x1000 8).foldlM buddyInitPage
        { pages := pageDescriptorInit tinyFree tinyRes, areas := emptyAreas } := by
    refine buddyInit_skip (k := 0x1000) (fun i hi => pageDescriptorInit_not_available fun z => ?_) 8
    have haddr : pageToPhys i = i * 4096 := pageToPhys_eq (by unfold maxPages; omega)
    rw [haddr]
    cases z with
    | lowmem =>
      simp [pageAddrIsInReg, tinyFree]
      omega
    | dma =>
      simp [pageAddrIsInReg, tinyFree]
      omega
    | highmem => rfl
  have hrun : ((List.range' 0x1000 8).foldlM buddyInitPage
      { pages := pageDescriptorInit tinyFree tinyRes, areas := emptyAreas } >>= takeTwoPages).toOption =
      some (0x1000000, 0x1001000) := by
    decide +kernel
  obtain ⟨b, hb, hrun⟩ := bind_eq_ok.mp (eq_ok_of_toOption hrun)
  unfold takeTwoPages at hrun
  simp only [bind_eq_ok] at hrun
  obtain ⟨⟨p, rb₁⟩, hp, ⟨q, rb₂⟩, hq, heq⟩ := hrun
  obtain ⟨rfl, rfl⟩ := Prod.mk.inj (Except.ok.inj heq)
  exact ⟨{ buddy := b, live := [] }, rb₁, rb₂, .init ⟨hskip.trans hb, rfl⟩, hp, hq⟩

/-- What `userspace_map_kernel` leaves of a directory at 16 MiB. -/
def tinyDir (s : Phys BuddyRun) : Phys BuddyRun :=
  (s.zeroPage 0x1000000).memcpy (0x1000000 + 4 * userPdes) (0x201000 + 4 * userPdes) (224 * 4)

/-- A page of the user at 0x8048000 there, with the table on the next page. -/
def tinyMapped (s : Phys BuddyRun) (rb : BuddyRun) : Phys BuddyRun :=
  (({ tinyDir s with alloc := rb }.zeroPage 0x1001000).write (0x1000000 + 4 * 32) 0x1001007).write
    (0x1001000 + 4 * 72) 0x300007

theorem userText_indices : getPdeIndex 0x8048000 = 32 ∧ getPteIndex 0x8048000 = 72 := by
  decide

section Tiny

variable {s : Phys BuddyRun} {rb : BuddyRun}

theorem tinyDir_absent : (tinyDir s).mem (0x1000000 + 4 * 32) = 0 := by
  simp [tinyDir, Phys.memcpy, Phys.zeroPage, userPdes, pageSize]

theorem tinyMapped_pde : (tinyMapped s rb).mem (0x1000000 + 4 * 32) = 0x1001007 := by
  simp [tinyMapped, Phys.write]

/-- The first page takes a table. -/
theorem tinyPc_mapPage
    (htable : buddyPageAlloc.buddyAllocPages pageSize .lowmem s.alloc = .ok (0x1001000, rb)) :
    vmmMapPage buddyPageAlloc 0x1000000 0x8048000 0x300000 7 (tinyDir s) =
      .ok (true, tinyMapped s rb) := by
  have halloc : (tinyDir s).alloc = s.alloc := rfl
  unfold vmmMapPage
  rw [physLinear_eq (by decide), ok_bind]
  simp only [userText_indices.1, userText_indices.2, tinyDir_absent, flagIsSet_zero, halloc, htable,
    ok_bind, Bool.not_false, if_true]
  rw [if_neg (by decide), physLinear_eq (by decide), ok_bind]
  rfl

/-- Another frame goes to the same place of that table. -/
theorem tinyPc_remapPage :
    vmmMapPage buddyPageAlloc 0x1000000 0x8048000 0x301000 7 (tinyMapped s rb) =
      .ok (true, (tinyMapped s rb).write (0x1001000 + 4 * 72) 0x301007) := by
  have hflags : flagIsSet 0x1001007 pdePresentBit = true ∧ flagIsSet 0x1001007 pdeUsBit = true ∧
      getEntryAddr 0x1001007 = 0x1001000 := by decide
  unfold vmmMapPage
  rw [physLinear_eq (by decide), ok_bind]
  simp only [userText_indices.1, userText_indices.2, tinyMapped_pde, hflags.1, hflags.2.1,
    hflags.2.2, Bool.not_true, Bool.false_eq_true, if_false, Bool.and_false]
  rw [physLinear_eq (by decide), ok_bind]
  rfl

/-- A run in which the directory is in use. -/
def withTinyDir (r : SpaceRun BuddyRun) (s : Phys BuddyRun) : SpaceRun BuddyRun :=
  { r with phys := s }.setStage 0x1000000 .live

variable {r : SpaceRun BuddyRun}

theorem withTinyDir_live : (withTinyDir r s).stage 0x1000000 = .live := SpaceRun.setStage_self _ _ _

theorem withTinyDir_editable : (withTinyDir r s).Editable 0x1000000 (getPdeIndex 0x8048000) := by
  unfold SpaceRun.Editable
  rw [withTinyDir_live, userText_indices.1]
  exact .inl (by decide)

theorem newSpace_tinyDir {mem : ℕ → ℕ} {rb₁ : BuddyRun} (hphys : r.phys = { mem := mem, alloc := rb })
    (hdir : buddyPageAlloc.buddyAllocPages pageSize .lowmem rb = .ok (0x1000000, rb₁)) :
    spaceStep buddyPageAlloc 0x201000 r .newSpace
      (withTinyDir r (tinyDir { mem := mem, alloc := rb₁ })) := by
  refine ⟨0x1000000, { mem := mem, alloc := rb₁ }, ?_, ?_⟩
  · rw [hphys]
    unfold PageAlloc.allocOn
    rw [hdir]
    rfl
  · rw [if_neg (by decide)]
    exact ⟨true, _, rfl, rfl⟩

end Tiny

/-- The machine makes a directory, maps a page there and maps another one in its place. -/
theorem linearMap_everywhere_tinyPc : ∃ m₀ s, bootAllocatorInit tinyPc .zero = .ok m₀ ∧
    vmmFinalize { mem := fun _ => 0, alloc := m₀ } = .ok (0x201000, s) ∧
    ∃ rb, (buddySystem 0x1008 { pages := pageDescriptorInit s.alloc.freeZones s.alloc.resZones
                                areas := emptyAreas }).Reachable rb ∧
    ∃ r : SpaceRun BuddyRun, (spaceSystem buddyPageAlloc buddyView 0x201000
      { mem := s.mem, alloc := rb }).Reachable r ∧ r.stage 0x1000000 = .live ∧
      r.phys.mem (0x1001000 + 4 * 72) = 0x301007 ∧
      vmmGetMapping 0x1000000 0xC0100000 r.phys = .ok 0x100000 := by
  obtain ⟨m₀, s, hboot, hfinal, hfree, hres⟩ := tinyPc_boot
  obtain ⟨rb, rb₁, rb₂, hrb, hdir, htable⟩ := tinyPc_buddy
  rw [← hfree, ← hres] at hrb
  have hr₁ : (bootSystem m₀).Reachable { mem := m₀, blocks := [] } := .init ⟨rfl, rfl⟩
  have hr₂ : (bootSystem s.alloc).Reachable { mem := s.alloc, blocks := [] } := .init ⟨rfl, rfl⟩
  obtain ⟨r₀, hr₀⟩ : ∃ r₀ : SpaceRun BuddyRun, (spaceSystem buddyPageAlloc buddyView 0x201000
    { mem := s.mem, alloc := rb }).init r₀ := ⟨_, rfl⟩
  have hphys : r₀.phys = { mem := s.mem, alloc := rb } := by
    rw [hr₀]
    rfl
  generalize hS : spaceSystem buddyPageAlloc buddyView 0x201000
    { mem := s.mem, alloc := rb } = S at hr₀
  have hstep : S.step = spaceStep buddyPageAlloc 0x201000 := by
    rw [← hS]
    rfl
  have hnew : S.step r₀ .newSpace (withTinyDir r₀ (tinyDir { mem := s.mem, alloc := rb₁ })) := by
    rw [hstep]
    exact newSpace_tinyDir hphys hdir
  generalize hs₁ : { mem := s.mem, alloc := rb₁ : Phys BuddyRun } = s₁ at hnew
  have hmap : S.step (withTinyDir r₀ (tinyDir s₁))
      (.mapPage 0x1000000 0x8048000 0x300000 7) (withTinyDir r₀ (tinyMapped s₁ rb₂)) := by
    rw [hstep]
    exact ⟨withTinyDir_editable, true, _, tinyPc_mapPage (by rw [← hs₁]; exact htable), rfl⟩
  have hremap : S.step (withTinyDir r₀ (tinyMapped s₁ rb₂))
      (.mapPage 0x1000000 0x8048000 0x301000 7)
      (withTinyDir r₀ ((tinyMapped s₁ rb₂).write (0x1001000 + 4 * 72) 0x301007)) := by
    rw [hstep]
    exact ⟨withTinyDir_editable, true, _, tinyPc_remapPage, rfl⟩
  have hreach := (((System.Reachable.init hr₀).step hnew).step hmap).step hremap
  rw [← hS] at hreach
  obtain ⟨-, hmapped⟩ := linearMap_everywhere hboot hr₁ hfinal hr₂ (by decide) hrb hreach
  have hentry : ((tinyMapped s₁ rb₂).write (0x1001000 + 4 * 72) 0x301007).mem (0x1001000 + 4 * 72) =
      0x301007 := by
    rw [Phys.write_mem, if_pos rfl]
  exact ⟨m₀, s, hboot, hfinal, rb, hrb, _, hreach, withTinyDir_live, hentry,
    hmapped _ withTinyDir_live 0x100000 (by decide)⟩

end Kfs.Userspace
