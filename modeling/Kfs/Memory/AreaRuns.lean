import Kfs.Lib.TransitionSystem
import Kfs.Memory.AreaOps
import Kfs.Memory.HeapContract

/-!
# Areas and page tables agree

The calls that change the areas of a task: `mmap` and `munmap` (`src/syscalls/mmap.c`, `munmap.c`),
the page fault that maps a lazy area (`page_fault_handler` in `src/memory/vmm.c`) and an eager
`vma_alloc`. A run starts with one free area without translations. In every state of a run exactly
the pages of the allocated areas are mapped, each to its frame in the array of its area.
-/

namespace Kfs.Memory

open Kfs.Lib Kfs.Lib.Word32 Kfs.Lib.Dyadic

/-! ## The calls -/

def einval : ℤ := 22 -- EINVAL
def enomem : ℤ := 12 -- ENOMEM
def protWrite : ℕ := 0x2 -- PROT_WRITE

section Calls

variable {σ : Type} (env : VmaEnv σ)

/-- The flags of the pages that `mmap` maps. -/
def mmapFlags (prot : ℕ) : ℕ :=
  if flagIsSet prot protWrite then ptePresentBit ||| pteUsBit ||| pteRwBit
  else ptePresentBit ||| pteUsBit

/-- `sys_mmap`. -/
def sysMmap (areas : List VmArea) (cr3 addr length prot : ℕ) (s : σ) :
    Kern (ℤ × List VmArea × σ) :=
  if length = 0 then .ok (-einval, areas, s)
  else do
    let (area, areas, s) ← vmaAlloc env areas cr3 length (mmapFlags prot) addr .lazy s
    match area with
    | none => .ok (-enomem, areas, s)
    | some area => .ok (area.startVaddr, areas, s)

/-- `sys_munmap`. -/
def sysMunmap (areas : List VmArea) (cr3 addr length : ℕ) (s : σ) : Kern (ℤ × List VmArea × σ) :=
  if addr = 0 ∨ length = 0 then .ok (-einval, areas, s)
  else
    match vmaFindByStart addr areas with
    | none => .ok (-einval, areas, s)
    | some c =>
      if c.area.state ≠ .allocated ∧ c.area.state ≠ .lazy then .ok (-einval, areas, s)
      else do
        let (areas, s) ← vmaDestroyArea env c cr3 s
        .ok (0, areas, s)

/-- `page_fault_handler` at the faulting address. -/
def pageFaultHandler (areas : List VmArea) (cr3 faultingAddress : ℕ) (s : σ) :
    Kern (List VmArea × σ) :=
  match vmaFindByAddr faultingAddress areas with
  | none => .error (.kpanic "Page fault")
  | some c =>
    if c.area.state = .lazy then do
      let (ok, area, s) ← vmaMapArea env c.area cr3 s
      if !ok then .error (.kpanic "Failed to map lazy VM area")
      else .ok ({ c with area := { area with state := .allocated } }.toList, s)
    else .error (.kpanic "Page fault")

end Calls

/-- The calls of a run. -/
inductive AreaCall where
  | mmap (addr length prot : ℕ)
  | munmap (addr length : ℕ)
  | fault (addr : ℕ)
  | allocEager (size pteFlags hintVaddr : ℕ)
  deriving DecidableEq, Repr

/-- The sizes and the flags that callers pass. -/
def AreaCall.Valid : AreaCall → Prop
  | .allocEager size pteFlags _ =>
    1 ≤ size ∧ pteFlags < 4096 ∧ flagIsSet pteFlags ptePresentBit = true
  | _ => True

/-- The area list of a task, and memory. -/
structure AreaRun (σ : Type) where
  areas : List VmArea
  phys : Phys σ

section Runs

variable {σ : Type}

/-- One call, for the task with the directory `pd`. -/
def areaStep (env : VmaEnv (Phys σ)) (pd : ℕ) (r : AreaRun σ) : AreaCall → Kern (AreaRun σ)
  | .mmap addr length prot => do
    let (_, areas, s) ← sysMmap env r.areas pd addr length prot r.phys
    .ok { areas := areas, phys := s }
  | .munmap addr length => do
    let (_, areas, s) ← sysMunmap env r.areas pd addr length r.phys
    .ok { areas := areas, phys := s }
  | .fault addr => do
    let (areas, s) ← pageFaultHandler env r.areas pd addr r.phys
    .ok { areas := areas, phys := s }
  | .allocEager size pteFlags hintVaddr => do
    let (_, areas, s) ← vmaAlloc env r.areas pd size pteFlags hintVaddr .eager r.phys
    .ok { areas := areas, phys := s }

/-- One free area for `[start, stop)` and no translations there; the heap holds its node and the
objects `O`, and the live blocks are the tables and `L`. -/
def AreaRun.Initial (V : PageAlloc.View σ) (objs : σ → Set ℕ) (D : Set ℕ) (L : Set (ℕ × ℕ))
    (O : Set ℕ) (pd start stop : ℕ) (r : AreaRun σ) : Prop :=
  ∃ node, node ∉ O ∧
    r.areas = [{ addr := node, state := .free, startVaddr := start, size := stop - start,
                 pteFlags := 0, nrPages := 0, pages := none }] ∧
    PageTables (V.holding objs (insert node O)) (userSlots D) L r.phys ∧
    ∀ n, start ≤ n * 4096 → n * 4096 < stop → entryAt r.phys pd n = none

/-- The runs of a task among the directories `D`. -/
def areaSystem (K : KernelAlloc σ) (V : PageAlloc.View σ) (objs : σ → Set ℕ) (D : Set ℕ)
    (L : Set (ℕ × ℕ)) (O : Set ℕ) (pd start stop : ℕ) : System (AreaRun σ) AreaCall where
  init := AreaRun.Initial V objs D L O pd start stop
  step r call r' := call.Valid ∧ areaStep K.vmaEnv pd r call = .ok r'

/-! ## What the state of an area says -/

/-- The array and the translations of an area are those of its state. -/
structure AreaMaps (pd : ℕ) (s : Phys σ) (a : VmArea) : Prop where
  free : a.state = .free → a.pages = none
  lazy : a.state = .lazy → ∃ ptr, a.pages = some ⟨ptr, List.replicate a.nrPages 0⟩
  allocated : a.state = .allocated → a.pages ≠ none ∧ ∀ i < a.nrPages, a.frames.getD i 0 ≠ 0 ∧
    entryAt s pd (a.startVaddr / 4096 + i) = some (a.frames.getD i 0 ||| a.pteFlags)
  flags : a.state ≠ .free → a.pteFlags < 4096 ∧ flagIsSet a.pteFlags ptePresentBit = true

variable {V : PageAlloc.View σ} {K : KernelAlloc σ} {objs : σ → Set ℕ} {W L : Set (ℕ × ℕ)}
  {O : Set ℕ} {pd : ℕ} {areas : List VmArea} {a b : VmArea} {c : VmaCursor} {s s' : Phys σ}

theorem AreaMaps.of_free (hstate : a.state = .free) (hpages : a.pages = none) : AreaMaps pd s a where
  free _ := hpages
  lazy hc := by
    rw [hstate] at hc
    cases hc
  allocated hc := by
    rw [hstate] at hc
    cases hc
  flags hc := absurd hstate hc

theorem AreaMaps.congr (h : AreaMaps pd s a) (hpart : AreaPart pd s a)
    (hentry : ∀ n, a.Covers n → entryAt s' pd n = entryAt s pd n) : AreaMaps pd s' a where
  free := h.free
  lazy := h.lazy
  allocated hstate := by
    obtain ⟨hpages, hmaps⟩ := h.allocated hstate
    obtain ⟨p, hp⟩ := Option.ne_none_iff_exists'.mp hpages
    obtain ⟨-, hsize⟩ := hpart.length p hp
    refine ⟨hpages, fun i hi => ?_⟩
    rw [hentry _ (hpart.covers_iff.mpr ⟨i, by omega, rfl⟩)]
    exact hmaps i hi
  flags := h.flags

/-- The areas own what they name, and their states say what is mapped. -/
structure AreasAgree (V : PageAlloc.View σ) (objs : σ → Set ℕ) (W L : Set (ℕ × ℕ)) (O : Set ℕ)
    (pd : ℕ) (areas : List VmArea) (s : Phys σ) : Prop where
  hold : AreasHold V objs W L O pd areas s
  maps : ∀ a ∈ areas, AreaMaps pd s a

theorem AreasAgree.perm {areas' : List VmArea} (h : AreasAgree V objs W L O pd areas s)
    (hperm : areas.Perm areas') : AreasAgree V objs W L O pd areas' s where
  hold := h.hold.perm hperm
  maps a ha := h.maps a (hperm.mem_iff.mpr ha)

/-- The other areas of a cursor keep their states when only its own pages change. -/
theorem AreasAgree.others (h : AreasAgree V objs W L O pd (c.area :: c.others) s)
    (hpd : ∀ i < userPdes, (pd, i) ∈ W) (hout : UnchangedOutside W pd c.area s s') {a : VmArea}
    (ha : a ∈ c.others) : AreaMaps pd s' a := by
  have hpart := h.hold.part a (List.mem_cons_of_mem _ ha)
  refine (h.maps a (List.mem_cons_of_mem _ ha)).congr hpart fun n hn => ?_
  exact hout.entryAt_eq hpd (h.hold.part c.area List.mem_cons_self) hpart
    ((List.pairwise_cons.mp h.hold.apart).1 a ha) hn

/-! ## Destroying -/

/-- **`vma_destroy_area`** on areas that agree, when nothing but the pages of the area has changed
since they did. -/
theorem AreasAgree.destroy (hK : K.Lawful V objs) {t : Phys σ}
    (h : AreasAgree V objs W L O pd (c.area :: c.others) s) (hpd : ∀ i < userPdes, (pd, i) ∈ W)
    {d : VmaCursor} (hd : AreasHold V objs W L O pd (d.area :: d.others) t)
    (hout : UnchangedOutside W pd c.area s t)
    (hcov : ∀ n, d.area.Covers n → c.area.Covers n)
    (hothers : ∀ a ∈ d.others, a ∈ c.others ∨ a.state = .free ∧ a.pages = none)
    {areas : List VmArea} (hrun : vmaDestroyArea K.vmaEnv d pd t = .ok (areas, s')) :
    AreasAgree V objs W L O pd areas s' := by
  have hbare : FreeBare d.others := by
    intro a ha hstate
    rcases hothers a ha with ha | ha
    · exact (h.maps a (List.mem_cons_of_mem _ ha)).free hstate
    · exact ha.2
  obtain ⟨f, rest, hperm, hhold, hstate, hpages, hsub, hout'⟩ :=
    hd.vmaDestroyArea_hold hK hpd hbare hrun
  have hout'' : UnchangedOutside W pd c.area s s' := by
    intro pd' n hw hn
    rw [hout' pd' n hw fun hc => hn ⟨hc.1, hcov n hc.2⟩]
    exact hout pd' n hw hn
  refine AreasAgree.perm ⟨hhold, List.forall_mem_cons.mpr ⟨.of_free hstate hpages, fun a ha => ?_⟩⟩
    hperm.symm
  rcases hothers a (hsub ha) with ha | ha
  · exact h.others hpd hout'' ha
  · exact .of_free ha.1 ha.2

/-! ## Allocating -/

/-- A call of `kmalloc` that fails. -/
theorem AreasHold.kmalloc_null (hK : K.Lawful V objs) (h : AreasHold V objs W L O pd areas s)
    {size flags : ℕ} (hrun : K.kmallocOn size flags s = .ok (0, s')) :
    s'.mem = s.mem ∧ AreasHold V objs W L O pd areas s' := by
  obtain ⟨hmem, ⟨-, htables⟩ | ⟨hne, -⟩⟩ := h.tables.kmalloc_spec hK hrun
  · exact ⟨hmem, { h with
      tables := htables
      part := fun a ha => (h.part a ha).of_mem hmem }⟩
  · exact absurd rfl hne

/-- What splitting the area of a cursor leaves: an area without an array at its start. -/
structure SplitFrom (V : PageAlloc.View σ) (objs : σ → Set ℕ) (W L : Set (ℕ × ℕ)) (O : Set ℕ)
    (pd size : ℕ) (c : VmaCursor) (s' : Phys σ) (d : VmaCursor) : Prop where
  hold : AreasHold V objs W L O pd (d.area :: d.others) s'
  pages : d.area.pages = none
  state : d.area.state = .allocated
  size : d.area.size = alignUp32 size 12
  covers : ∀ n, d.area.Covers n → c.area.Covers n
  others : ∀ a ∈ d.others, a ∈ c.others ∨ a.state = .free ∧ a.pages = none

/-- **`vma_split_area`** on a free area. -/
theorem AreasHold.vmaSplitArea_hold (hK : K.Lawful V objs)
    (h : AreasHold V objs W L O pd (c.area :: c.others) s) (hstate : c.area.state = .free)
    (hpages : c.area.pages = none) {size : ℕ} (hpos : 1 ≤ size) (hle : size ≤ c.area.size)
    {split : Option VmaCursor} (hrun : vmaSplitArea K.vmaEnv c size s = .ok (split, s')) :
    s'.mem = s.mem ∧
      match split with
      | none => AreasHold V objs W L O pd (c.area :: c.others) s'
      | some d => SplitFrom V objs W L O pd size c s' d := by
  have hpart := h.part c.area List.mem_cons_self
  have hlow := hpart.low
  have hbase : kernelVaddrBase ≤ 0xFFFFF000 := by decide
  have hle' : size ≤ 0xFFFFF000 := by omega
  obtain ⟨hdvd, hround⟩ := alignUp32_page hle'
  unfold vmaSplitArea at hrun
  simp only at hrun
  split at hrun
  · -- rounded up, the size does not fit
    obtain ⟨rfl, rfl⟩ := Prod.mk.inj (Except.ok.inj hrun)
    exact ⟨rfl, h⟩
  · split at hrun
    · -- The whole area is taken.
      next heq =>
      obtain ⟨rfl, rfl⟩ := Prod.mk.inj (Except.ok.inj hrun)
      exact ⟨rfl, {
        hold := h.setHead rfl rfl rfl rfl fun hne => absurd hpages hne
        pages := hpages
        state := rfl
        size := heq.symm
        covers := fun n hn => hn
        others := fun a ha => Or.inl ha }⟩
    · next hfit hne =>
      rw [bind_eq_ok] at hrun
      obtain ⟨⟨ptr, s₁⟩, hkmalloc, hrun⟩ := hrun
      simp only at hrun
      split at hrun
      · next hnull =>
        subst hnull
        obtain ⟨rfl, rfl⟩ := Prod.mk.inj (Except.ok.inj hrun)
        exact h.kmalloc_null hK hkmalloc
      · next hptr =>
        obtain ⟨rfl, rfl⟩ := Prod.mk.inj (Except.ok.inj hrun)
        have hadd : add32 c.area.startVaddr (alignUp32 size 12) =
            c.area.startVaddr + alignUp32 size 12 := add32_eq (by omega)
        have hsub : sub32 c.area.size (alignUp32 size 12) = c.area.size - alignUp32 size 12 :=
          sub32_eq (by omega) (by omega)
        have hsplit := h.split_spec hK hpages hkmalloc hptr
          (b := { addr := ptr, state := .allocated, startVaddr := c.area.startVaddr,
                  size := alignUp32 size 12, pteFlags := 0,
                  nrPages := divRoundUp32 (alignUp32 size 12) pageSize, pages := none })
          (r := { c.area with startVaddr := add32 c.area.startVaddr (alignUp32 size 12)
                              size := sub32 c.area.size (alignUp32 size 12) })
          ⟨rfl, rfl, rfl⟩ ⟨rfl, hpages, hadd, by dsimp only; omega⟩ hdvd (by dsimp only; omega)
          (by dsimp only; omega)
        refine ⟨(h.tables.kmalloc_spec hK hkmalloc).1, {
          hold := hsplit.perm (List.Perm.cons _ List.perm_middle.symm)
          pages := rfl
          state := rfl
          size := rfl
          covers := fun n hn => ?_
          others := fun a ha => ?_ }⟩
        · unfold VmArea.Covers at hn ⊢
          dsimp only at hn
          omega
        · rcases List.mem_append.mp ha with ha | ha
          · exact Or.inl (List.mem_append_left _ ha)
          · rcases List.mem_cons.mp ha with rfl | ha
            · exact Or.inr ⟨hstate, hpages⟩
            · exact Or.inl (List.mem_append_right _ ha)

/-- The number of entries of an array is the number of pages of its area. -/
theorem divRoundUp32_mul_page {size : ℕ} (hle : size ≤ 0xFFFFF000) :
    divRoundUp32 size pageSize * 4096 = alignUp32 size 12 := by
  unfold pageSize
  rw [divRoundUp32_eq (by omega), alignUp32_eq (by norm_num) (by norm_num; omega)]
  norm_num

/-- **`vma_alloc_in_area`** keeps the agreement, also where it fails. -/
theorem AreasAgree.vmaAllocInArea_agree (hK : K.Lawful V objs)
    (h : AreasAgree V objs W L O pd (c.area :: c.others) s) (hpd : ∀ i < userPdes, (pd, i) ∈ W)
    (hstate : c.area.state = .free) {size flags : ℕ} (hpos : 1 ≤ size) (hle : size ≤ c.area.size)
    (hflags : flags < 4096) (hflag : flagIsSet flags ptePresentBit = true) {mode : VmaAllocMode}
    {ret : Option VmArea} {areas : List VmArea}
    (hrun : vmaAllocInArea K.vmaEnv pd c size flags mode s = .ok (ret, areas, s')) :
    AreasAgree V objs W L O pd areas s' := by
  have hpages := (h.maps c.area List.mem_cons_self).free hstate
  have hpart := h.hold.part c.area List.mem_cons_self
  have hlow := hpart.low
  have hbase : kernelVaddrBase ≤ 0xFFFFF000 := by decide
  unfold vmaAllocInArea at hrun
  rw [bind_eq_ok] at hrun
  obtain ⟨⟨split, s₁⟩, hsplit, hrun⟩ := hrun
  obtain ⟨hmem₁, hres⟩ := h.hold.vmaSplitArea_hold hK hstate hpages hpos hle hsplit
  -- The calls that can fail come in turn: the node, the array, the frames.
  cases split with
  | none =>
    -- Without a node for the rest the list is as it was.
    obtain ⟨-, rfl, rfl⟩ := ok_triple_inj hrun
    refine AreasAgree.perm ⟨hres, List.forall_mem_cons.mpr ⟨.of_free hstate hpages, fun a ha => ?_⟩⟩
      c.toList_perm.symm
    exact h.others hpd (.of_mem hmem₁) ha
  | some d =>
    have hres : SplitFrom V objs W L O pd size c s₁ d := hres
    simp only at hrun
    rw [bind_eq_ok] at hrun
    obtain ⟨⟨ptr, s₂⟩, hkmalloc, hrun⟩ := hrun
    simp only at hrun
    have hmem₂ := (hres.hold.tables.kmalloc_spec hK hkmalloc).1
    have hout₂ : UnchangedOutside W pd c.area s s₂ := .of_mem (hmem₂.trans hmem₁)
    split at hrun
    · -- no memory for the array
      next hnull =>
      subst hnull
      rw [bind_eq_ok] at hrun
      obtain ⟨⟨areas', s₃⟩, hdestroy, hrun⟩ := hrun
      obtain ⟨-, rfl, rfl⟩ := ok_triple_inj hrun
      have hd : AreasHold V objs W L O pd
          ({ d with area := { d.area with pages := none } : VmaCursor }.area :: d.others) s₂ :=
        (hres.hold.kmalloc_null hK hkmalloc).2.setHead rfl hres.pages.symm rfl rfl
          fun hne => absurd hres.pages hne
      exact h.destroy hK hpd hd hout₂ hres.covers hres.others hdestroy
    · next hptr =>
      have hn : divRoundUp32 size pageSize * 4096 = d.area.size := by
        rw [hres.size]
        exact divRoundUp32_mul_page (by omega)
      -- A lazy area has an array without frames, an eager one is mapped at once.
      cases mode with
      | lazy =>
        obtain ⟨-, rfl, rfl⟩ := ok_triple_inj hrun
        have harray := hres.hold.array_spec hK hres.pages hkmalloc hptr hn
          (b := { d.area with
            pages := some ⟨ptr, List.replicate (divRoundUp32 size pageSize) 0⟩
            nrPages := divRoundUp32 size pageSize
            pteFlags := flags
            state := .lazy }) ⟨rfl, rfl, rfl, rfl, rfl⟩
        refine AreasAgree.perm ⟨harray, List.forall_mem_cons.mpr ⟨⟨?_, ?_, ?_, ?_⟩, fun a ha => ?_⟩⟩
          (VmaCursor.toList_perm { d with area := _ }).symm
        · exact fun hc => (nomatch hc)
        · exact fun _ => ⟨ptr, rfl⟩
        · exact fun hc => (nomatch hc)
        · exact fun _ => ⟨hflags, hflag⟩
        · rcases hres.others a ha with ha | ha
          · exact h.others hpd hout₂ ha
          · exact .of_free ha.1 ha.2
      | eager =>
        simp only at hrun
        rw [bind_eq_ok] at hrun
        obtain ⟨⟨ok, area, s₃⟩, hmap, hrun⟩ := hrun
        have harray := hres.hold.array_spec hK hres.pages hkmalloc hptr hn
          (b := { d.area with
            pages := some ⟨ptr, List.replicate (divRoundUp32 size pageSize) 0⟩
            nrPages := divRoundUp32 size pageSize
            pteFlags := flags }) ⟨rfl, rfl, rfl, rfl, rfl⟩
        -- What `vma_map_area` has mapped lies in the area, also where it stops early.
        obtain ⟨frames, rfl, hhold, hout₃, hmapped⟩ :=
          harray.vmaMapArea_spec hK hpd rfl hflag hmap
        have hout : UnchangedOutside W pd c.area s s₃ := by
          intro pd' n hw hn
          rw [hout₃ pd' n hw fun hc => hn ⟨hc.1, hres.covers n hc.2⟩]
          exact hout₂ pd' n hw hn
        cases ok with
        | true =>
          obtain ⟨-, rfl, rfl⟩ := ok_triple_inj hrun
          refine AreasAgree.perm ⟨hhold, List.forall_mem_cons.mpr ⟨⟨?_, ?_, ?_, ?_⟩, fun a ha => ?_⟩⟩
            (VmaCursor.toList_perm { d with area := _ }).symm
          · exact fun hc => absurd (hres.state.symm.trans hc) (by decide)
          · exact fun hc => absurd (hres.state.symm.trans hc) (by decide)
          · exact fun _ => ⟨Option.some_ne_none _, hmapped rfl⟩
          · exact fun _ => ⟨hflags, hflag⟩
          · rcases hres.others a ha with ha | ha
            · exact h.others hpd hout ha
            · exact .of_free ha.1 ha.2
        | false =>
          -- The frames that were taken are given back with the area.
          simp only [Bool.false_eq_true, if_false] at hrun
          rw [bind_eq_ok] at hrun
          obtain ⟨⟨areas', s₄⟩, hdestroy, hrun⟩ := hrun
          obtain ⟨-, rfl, rfl⟩ := ok_triple_inj hrun
          exact h.destroy hK hpd (d := { d with area := _ }) hhold hout hres.covers hres.others
            hdestroy

/-- **`vma_alloc`** keeps the agreement. -/
theorem AreasAgree.vmaAlloc_agree (hK : K.Lawful V objs)
    (h : AreasAgree V objs W L O pd areas s) (hpd : ∀ i < userPdes, (pd, i) ∈ W)
    {size flags hint : ℕ} (hpos : 1 ≤ size) (hflags : flags < 4096)
    (hflag : flagIsSet flags ptePresentBit = true) {mode : VmaAllocMode} {ret : Option VmArea}
    {areas' : List VmArea}
    (hrun : vmaAlloc K.vmaEnv areas pd size flags hint mode s = .ok (ret, areas', s')) :
    AreasAgree V objs W L O pd areas' s' := by
  unfold vmaAlloc at hrun
  cases hfind : vmaFindFree areas size hint with
  | none =>
    rw [hfind] at hrun
    obtain ⟨-, rfl, rfl⟩ := ok_triple_inj hrun
    exact h
  | some c =>
    rw [hfind] at hrun
    obtain ⟨rfl, hfree, hfit⟩ := vmaFindFree_some hfind
    exact (h.perm c.toList_perm).vmaAllocInArea_agree hK hpd hfree hpos hfit hflags hflag hrun

/-! ## The system calls and the page fault -/

theorem mmapFlags_spec (prot : ℕ) :
    mmapFlags prot < 4096 ∧ flagIsSet (mmapFlags prot) ptePresentBit = true := by
  unfold mmapFlags
  split
  · decide
  · decide

/-- **`page_fault_handler`** keeps the agreement: a lazy area becomes an allocated one. -/
theorem AreasAgree.pageFaultHandler_agree (hK : K.Lawful V objs)
    (h : AreasAgree V objs W L O pd areas s) (hpd : ∀ i < userPdes, (pd, i) ∈ W) {addr : ℕ}
    {areas' : List VmArea} (hrun : pageFaultHandler K.vmaEnv areas pd addr s = .ok (areas', s')) :
    AreasAgree V objs W L O pd areas' s' := by
  unfold pageFaultHandler at hrun
  cases hfind : vmaFindByAddr addr areas with
  | none =>
    rw [hfind] at hrun
    cases hrun
  | some c =>
    rw [hfind] at hrun
    obtain ⟨hlist, -⟩ := findArea_some hfind
    obtain rfl : c.toList = areas := hlist
    have h' := h.perm c.toList_perm
    simp only at hrun
    split at hrun
    · next hlazy =>
      rw [bind_eq_ok] at hrun
      obtain ⟨⟨ok, area, s₁⟩, hmap, hrun⟩ := hrun
      have hmaps := h'.maps c.area List.mem_cons_self
      have hne : c.area.state ≠ .free := by
        rw [hlazy]
        decide
      obtain ⟨ptr, hpages⟩ := hmaps.lazy hlazy
      obtain ⟨hflags, hflag⟩ := hmaps.flags hne
      obtain ⟨frames, rfl, hhold, hout, hmapped⟩ :=
        h'.hold.vmaMapArea_spec hK hpd hpages hflag hmap
      cases ok with
      | false => cases hrun
      | true =>
        obtain ⟨rfl, rfl⟩ := Prod.mk.inj (Except.ok.inj hrun)
        have hset : AreasHold V objs W L O pd
            ({ c.area with pages := some ⟨ptr, frames⟩, state := .allocated } :: c.others) s₁ :=
          hhold.setHead rfl rfl rfl rfl fun _ => rfl
        refine AreasAgree.perm ⟨hset, List.forall_mem_cons.mpr ⟨⟨?_, ?_, ?_, ?_⟩, fun a ha => ?_⟩⟩
          (VmaCursor.toList_perm { c with area := _ }).symm
        · exact fun hc => (nomatch hc)
        · exact fun hc => (nomatch hc)
        · exact fun _ => ⟨Option.some_ne_none _, hmapped rfl⟩
        · exact fun _ => ⟨hflags, hflag⟩
        · exact h'.others hpd hout ha
    · cases hrun

/-- **`munmap`** keeps the agreement. -/
theorem AreasAgree.sysMunmap_agree (hK : K.Lawful V objs)
    (h : AreasAgree V objs W L O pd areas s) (hpd : ∀ i < userPdes, (pd, i) ∈ W)
    {addr length : ℕ} {ret : ℤ} {areas' : List VmArea}
    (hrun : sysMunmap K.vmaEnv areas pd addr length s = .ok (ret, areas', s')) :
    AreasAgree V objs W L O pd areas' s' := by
  have hsame : ∀ {x : ℤ}, (Except.ok (x, areas, s) : Kern (ℤ × List VmArea × Phys σ)) =
      .ok (ret, areas', s') → AreasAgree V objs W L O pd areas' s' := by
    intro x hx
    obtain ⟨-, rfl, rfl⟩ := ok_triple_inj hx
    exact h
  unfold sysMunmap at hrun
  split at hrun
  · exact hsame hrun
  · cases hfind : vmaFindByStart addr areas with
    | none =>
      rw [hfind] at hrun
      exact hsame hrun
    | some c =>
      rw [hfind] at hrun
      simp only at hrun
      split at hrun
      · exact hsame hrun
      · rw [bind_eq_ok] at hrun
        obtain ⟨⟨areas₁, s₁⟩, hdestroy, hrun⟩ := hrun
        obtain ⟨-, rfl, rfl⟩ := ok_triple_inj hrun
        obtain ⟨hlist, -⟩ := findArea_some hfind
        obtain rfl : c.toList = areas := hlist
        have h' := h.perm c.toList_perm
        exact h'.destroy hK hpd h'.hold (.of_mem rfl) (fun n hn => hn) (fun a ha => Or.inl ha) hdestroy

/-- A page fault leaves the ranges and which areas are free. -/
theorem VmaInv.pageFaultHandler_spec {start stop : ℕ} (h : VmaInv start stop areas) {addr : ℕ}
    {areas' : List VmArea} (hrun : pageFaultHandler K.vmaEnv areas pd addr s = .ok (areas', s')) :
    VmaInv start stop areas' := by
  unfold pageFaultHandler at hrun
  cases hfind : vmaFindByAddr addr areas with
  | none =>
    rw [hfind] at hrun
    cases hrun
  | some c =>
    rw [hfind] at hrun
    obtain ⟨hlist, -⟩ := findArea_some hfind
    obtain rfl : c.toList = areas := hlist
    simp only at hrun
    split at hrun
    · next hlazy =>
      rw [bind_eq_ok] at hrun
      obtain ⟨⟨ok, area, s₁⟩, hmap, hrun⟩ := hrun
      obtain ⟨hstart, hsize, -⟩ := vmaMapArea_area hmap
      have hne : c.area.state ≠ .free := by
        rw [hlazy]
        decide
      cases ok with
      | false => cases hrun
      | true =>
        obtain ⟨rfl, rfl⟩ := Prod.mk.inj (Except.ok.inj hrun)
        have hset : CursorInv start stop { c with area := { area with state := .allocated } } :=
          h.cursorInv.setArea hstart hsize
        refine hset.vmaInv (fun a _ hc => (nomatch hc.2)) (fun a _ hc => (nomatch hc.1)) fun _ => ?_
        have hdvd := h.aligned c.area (VmaCursor.mem_toList.mpr (Or.inr (Or.inl rfl))) hne
        exact hsize ▸ hdvd
    · cases hrun

/-- **`munmap`** leaves a tiling. -/
theorem VmaInv.sysMunmap_spec {start stop : ℕ} (h : VmaInv start stop areas)
    (hstop : stop < 2 ^ 32) {addr length : ℕ} {ret : ℤ} {areas' : List VmArea}
    (hrun : sysMunmap K.vmaEnv areas pd addr length s = .ok (ret, areas', s')) :
    VmaInv start stop areas' := by
  unfold sysMunmap at hrun
  split at hrun
  · obtain ⟨-, hareas, -⟩ := ok_triple_inj hrun
    exact hareas ▸ h
  · cases hfind : vmaFindByStart addr areas with
    | none =>
      rw [hfind] at hrun
      obtain ⟨-, hareas, -⟩ := ok_triple_inj hrun
      exact hareas ▸ h
    | some c =>
      rw [hfind] at hrun
      simp only at hrun
      split at hrun
      · obtain ⟨-, hareas, -⟩ := ok_triple_inj hrun
        exact hareas ▸ h
      · rw [bind_eq_ok] at hrun
        obtain ⟨⟨areas₁, s₁⟩, hdestroy, hrun⟩ := hrun
        obtain ⟨-, hrest⟩ := Prod.mk.inj (Except.ok.inj hrun)
        obtain ⟨hlist, -⟩ := findArea_some hfind
        obtain rfl : c.toList = areas := hlist
        exact (Prod.mk.inj hrest).1 ▸ (h.cursorInv.vmaDestroyArea_spec hstop hdestroy).1

/-! ## Runs -/

/-- The areas tile their range and agree with the tables. -/
structure AreaRun.Inv (V : PageAlloc.View σ) (objs : σ → Set ℕ) (D : Set ℕ) (L : Set (ℕ × ℕ))
    (O : Set ℕ) (pd start stop : ℕ) (r : AreaRun σ) : Prop where
  tiling : VmaInv start stop r.areas
  agree : AreasAgree V objs (userSlots D) L O pd r.areas r.phys

variable {D : Set ℕ} {start stop : ℕ} {r r' : AreaRun σ}

theorem AreaRun.Inv.of_initial (hstart : 4096 ∣ start) (hstop : 4096 ∣ stop) (hlt : start < stop)
    (hlow : stop ≤ kernelVaddrBase) (h : r.Initial V objs D L O pd start stop) :
    r.Inv V objs D L O pd start stop := by
  obtain ⟨areas, phys⟩ := r
  obtain ⟨node, hnode, hareas, htables, hnone⟩ := h
  dsimp only at hareas htables hnone
  subst hareas
  refine ⟨⟨⟨rfl, ?_, ?_⟩, List.IsChain.singleton _, fun a ha hne => ?_⟩,
    ⟨{ tables := ?_, objects := ?_, nodup := ?_, frame := ?_, apart := ?_, part := ?_ }, ?_⟩⟩
  · show 0 < stop - start
    omega
  · show start + (stop - start) = stop
    omega
  · obtain rfl := List.mem_singleton.mp ha
    exact absurd rfl hne
  · have hobj : objectSet O [node] = insert node O := by
      ext o
      simp [objectSet, or_comm]
    have hL : L ∪ frameBlocks [] = L := by
      rw [frameBlocks_nil, Set.union_empty]
    show PageTables (V.holding objs (objectSet O [node])) (userSlots D) (L ∪ frameBlocks []) phys
    rw [hobj, hL]
    exact htables
  · exact ⟨List.nodup_singleton node, fun o ho => by
      obtain rfl := List.mem_singleton.mp ho
      exact hnode⟩
  · exact List.nodup_nil
  · exact fun f hf => absurd hf List.not_mem_nil
  · exact List.pairwise_singleton _ _
  · intro a ha
    obtain rfl := List.mem_singleton.mp ha
    refine ⟨hstart, Nat.dvd_sub hstop hstart, Nat.sub_pos_of_lt hlt, ?_,
      fun p hp => absurd hp.symm (Option.some_ne_none p), fun i hi _ => ?_⟩
    · dsimp only
      omega
    · dsimp only at hi ⊢
      obtain ⟨q, rfl⟩ := hstart
      apply hnone
      · rw [Nat.mul_div_cancel_left q (by norm_num)]
        omega
      · rw [Nat.mul_div_cancel_left q (by norm_num)]
        linarith [Nat.sub_add_cancel hlt.le]
  · intro a ha
    obtain rfl := List.mem_singleton.mp ha
    exact .of_free rfl rfl

/-- **One call.** -/
theorem AreaRun.Inv.step (hK : K.Lawful V objs) (hpd : pd ∈ D) (hlow : stop ≤ kernelVaddrBase)
    (h : r.Inv V objs D L O pd start stop) {call : AreaCall} (hvalid : call.Valid)
    (hrun : areaStep K.vmaEnv pd r call = .ok r') : r'.Inv V objs D L O pd start stop := by
  have hslots : ∀ i < userPdes, (pd, i) ∈ userSlots D := fun i hi => ⟨hpd, hi⟩
  have hbase : kernelVaddrBase ≤ 0xFFFFF000 := by decide
  cases call with
  | mmap addr length prot =>
    have hrun : (sysMmap K.vmaEnv r.areas pd addr length prot r.phys >>= fun out =>
      Except.ok { areas := out.2.1, phys := out.2.2 }) = .ok r' := hrun
    rw [bind_eq_ok] at hrun
    obtain ⟨⟨ret, areas, s⟩, hcall, hrun⟩ := hrun
    obtain rfl := Except.ok.inj hrun
    unfold sysMmap at hcall
    split at hcall
    · obtain ⟨-, rfl, rfl⟩ := ok_triple_inj hcall
      exact h
    · next hlen =>
      rw [bind_eq_ok] at hcall
      obtain ⟨⟨area, areas₁, s₁⟩, halloc, hcall⟩ := hcall
      have hout : (areas₁, s₁) = (areas, s) := by
        cases area with
        | none => exact (Prod.mk.inj (Except.ok.inj hcall)).2
        | some area => exact (Prod.mk.inj (Except.ok.inj hcall)).2
      obtain ⟨rfl, rfl⟩ := Prod.mk.inj hout
      obtain ⟨hflags, hflag⟩ := mmapFlags_spec prot
      exact ⟨(h.tiling.vmaAlloc_spec (by omega) (by omega) (by omega) halloc).inv,
        h.agree.vmaAlloc_agree hK hslots (by omega) hflags hflag halloc⟩
  | munmap addr length =>
    have hrun : (sysMunmap K.vmaEnv r.areas pd addr length r.phys >>= fun out =>
      Except.ok { areas := out.2.1, phys := out.2.2 }) = .ok r' := hrun
    rw [bind_eq_ok] at hrun
    obtain ⟨⟨ret, areas, s⟩, hcall, hrun⟩ := hrun
    obtain rfl := Except.ok.inj hrun
    exact ⟨h.tiling.sysMunmap_spec (by omega) hcall, h.agree.sysMunmap_agree hK hslots hcall⟩
  | fault addr =>
    have hrun : (pageFaultHandler K.vmaEnv r.areas pd addr r.phys >>= fun out =>
      Except.ok { areas := out.1, phys := out.2 }) = .ok r' := hrun
    rw [bind_eq_ok] at hrun
    obtain ⟨⟨areas, s⟩, hcall, hrun⟩ := hrun
    obtain rfl := Except.ok.inj hrun
    exact ⟨h.tiling.pageFaultHandler_spec hcall, h.agree.pageFaultHandler_agree hK hslots hcall⟩
  | allocEager size pteFlags hintVaddr =>
    obtain ⟨hpos, hflags, hflag⟩ := hvalid
    have hrun : (vmaAlloc K.vmaEnv r.areas pd size pteFlags hintVaddr .eager r.phys >>= fun out =>
      Except.ok { areas := out.2.1, phys := out.2.2 }) = .ok r' := hrun
    rw [bind_eq_ok] at hrun
    obtain ⟨⟨ret, areas, s⟩, halloc, hrun⟩ := hrun
    obtain rfl := Except.ok.inj hrun
    exact ⟨(h.tiling.vmaAlloc_spec (by omega) (by omega) hpos halloc).inv,
      h.agree.vmaAlloc_agree hK hslots hpos hflags hflag halloc⟩

/-- An area that is not allocated has no frames. -/
theorem AreaMaps.frames_eq_zero (h : AreaMaps pd s a) (hstate : a.state ≠ .allocated) :
    ∀ f ∈ a.frames, f = 0 := by
  intro f hf
  cases hs : a.state with
  | free =>
    rw [VmArea.frames_of_none (h.free hs)] at hf
    cases hf
  | allocated => exact absurd hs hstate
  | lazy =>
    obtain ⟨ptr, hpages⟩ := h.lazy hs
    rw [VmArea.frames_of_some hpages] at hf
    exact List.eq_of_mem_replicate hf

/-- A list of calls is a run. -/
theorem reachable_of_calls {start stop : ℕ} {calls : List AreaCall} :
    ∀ {r r' : AreaRun σ}, (areaSystem K V objs D L O pd start stop).Reachable r →
      (∀ call ∈ calls, call.Valid) → calls.foldlM (areaStep K.vmaEnv pd) r = .ok r' →
      (areaSystem K V objs D L O pd start stop).Reachable r' := by
  induction calls with
  | nil =>
    intro r r' hr _ hrun
    obtain rfl := Except.ok.inj hrun
    exact hr
  | cons call calls ih =>
    intro r r' hr hvalid hrun
    rw [List.foldlM_cons, bind_eq_ok] at hrun
    obtain ⟨r₁, hstep, hrun⟩ := hrun
    exact ih (.step hr ⟨hvalid call List.mem_cons_self, hstep⟩)
      (fun d hd => hvalid d (List.mem_cons_of_mem _ hd)) hrun

/-! ### What the invariant says of a page -/

/-- The array of an allocated area is complete. -/
theorem AreaRun.Inv.array_complete (h : r.Inv V objs D L O pd start stop) {a : VmArea}
    (ha : a ∈ r.areas) (hstate : a.state = .allocated) :
    a.frames.length = a.nrPages ∧ a.nrPages * 4096 = a.size := by
  obtain ⟨p, hp⟩ := Option.ne_none_iff_exists'.mp ((h.agree.maps a ha).allocated hstate).1
  rw [VmArea.frames_of_some hp]
  exact (h.agree.hold.part a ha).length p hp

/-- Page `i` of an allocated area is mapped to frame `i` of its array with the flags of the area. -/
theorem AreaRun.Inv.page_mapped (h : r.Inv V objs D L O pd start stop) {a : VmArea}
    (ha : a ∈ r.areas) (hstate : a.state = .allocated) {i : ℕ} (hi : i < a.nrPages) :
    a.frames.getD i 0 ≠ 0 ∧ ∃ e, entryAt r.phys pd (a.startVaddr / 4096 + i) = some e ∧
      getEntryAddr e = a.frames.getD i 0 ∧ getEntryFlags e = a.pteFlags := by
  have hlen := (h.array_complete ha hstate).1
  obtain ⟨hne, hentry⟩ := ((h.agree.maps a ha).allocated hstate).2 i hi
  have hmem : a.frames.getD i 0 ∈ a.frames := by
    rw [List.getD_eq_getElem _ _ (hlen.symm ▸ hi)]
    exact List.getElem_mem _
  have hf := h.agree.hold.frame _ (List.mem_flatMap.mpr ⟨a, ha, hmem⟩) hne
  have hflags : a.pteFlags < 4096 := by
    refine ((h.agree.maps a ha).flags ?_).1
    rw [hstate]
    decide
  exact ⟨hne, _, hentry, vmmMapPage_entry hf.dvd hf.lt hflags⟩

/-- A page is mapped exactly if its area is allocated. -/
theorem AreaRun.Inv.mapped_iff (h : r.Inv V objs D L O pd start stop) {n : ℕ}
    (hlo : start ≤ n * 4096) (hhi : n * 4096 < stop) :
    entryAt r.phys pd n ≠ none ↔ ∃ a ∈ r.areas, a.state = .allocated ∧
      a.startVaddr ≤ n * 4096 ∧ n * 4096 < a.startVaddr + a.size := by
  constructor
  · intro hentry
    obtain ⟨a, ha, hin⟩ := h.tiling.tiles.covers hlo hhi
    have hpart := h.agree.hold.part a ha
    refine ⟨a, ha, ?_, hin⟩
    -- without a frame the page would not be mapped
    by_contra hstate
    apply hentry
    obtain ⟨i, hi, rfl⟩ := hpart.covers_iff.mp (hpart.covers_of_mem hin.1 hin.2)
    refine hpart.unset i hi ?_
    have hzero := (h.agree.maps a ha).frames_eq_zero hstate
    by_cases hlen : i < a.frames.length
    · rw [List.getD_eq_getElem _ _ hlen]
      exact hzero _ (List.getElem_mem hlen)
    · exact List.getD_eq_default _ _ (by omega)
  · rintro ⟨a, ha, hstate, hin⟩
    have hpart := h.agree.hold.part a ha
    obtain ⟨-, hsize⟩ := h.array_complete ha hstate
    obtain ⟨i, hi, rfl⟩ := hpart.covers_iff.mp (hpart.covers_of_mem hin.1 hin.2)
    have hi : i < a.nrPages := by omega
    obtain ⟨-, e, hentry, -⟩ := h.page_mapped ha hstate hi
    rw [hentry]
    exact Option.some_ne_none _

/-- **`vmm_get_mapping`** of a page reads its entry. -/
theorem AreaRun.Inv.vmmGetMapping_page (h : r.Inv V objs D L O pd start stop) (hpd : pd ∈ D) {n : ℕ}
    (hv : n * 4096 < kernelVaddrBase) :
    vmmGetMapping pd (n * 4096) r.phys = .ok ((entryAt r.phys pd n).elim 0 getEntryAddr) := by
  have hoff : n * 4096 &&& 0xFFF = 0 := by
    rw [show (0xFFF : ℕ) = 2 ^ 12 - 1 by norm_num, Nat.and_two_pow_sub_one_eq_mod]
    exact Nat.mul_mod_left n 4096
  rw [h.agree.hold.tables.vmmGetMapping_eq (slot_mem hpd hv), lookup_eq_map, getPdeIndex_eq,
    getPteIndex_eq, Nat.mul_div_cancel n (by norm_num), hoff]
  show Except.ok (((entryAt r.phys pd n).map getEntryAddr).elim 0 _) = _
  cases entryAt r.phys pd n with
  | none => rfl
  | some e => rfl

/-- **Areas and page tables agree.** In every state of every run, with any failures of the
allocators outside the page fault: a page of the range is mapped exactly if it lies in an allocated
area, and then to the frame that the array of the area has for it, which is not null, with the flags
of the area; frames are distinct and live, and an area that is free or lazy has none. -/
theorem areas_pageTables_agree (hK : K.Lawful V objs) (hpd : pd ∈ D) (hstart : 4096 ∣ start)
    (hstop : 4096 ∣ stop) (hlt : start < stop) (hlow : stop ≤ kernelVaddrBase)
    (hr : (areaSystem K V objs D L O pd start stop).Reachable r) :
    (∀ n, start ≤ n * 4096 → n * 4096 < stop →
      (entryAt r.phys pd n ≠ none ↔ ∃ a ∈ r.areas, a.state = .allocated ∧
        a.startVaddr ≤ n * 4096 ∧ n * 4096 < a.startVaddr + a.size) ∧
      vmmGetMapping pd (n * 4096) r.phys = .ok ((entryAt r.phys pd n).elim 0 getEntryAddr)) ∧
    (∀ a ∈ r.areas, a.state = .allocated → a.frames.length = a.nrPages ∧
      a.nrPages * 4096 = a.size ∧ ∀ i < a.nrPages, a.frames.getD i 0 ≠ 0 ∧ ∃ e,
        entryAt r.phys pd (a.startVaddr / 4096 + i) = some e ∧
        getEntryAddr e = a.frames.getD i 0 ∧ getEntryFlags e = a.pteFlags) ∧
    ((r.areas.flatMap VmArea.frames).filter (· ≠ 0)).Nodup ∧
    (∀ a ∈ r.areas, ∀ f ∈ a.frames, f ≠ 0 → (f / 4096, 0) ∈ V.live r.phys.alloc) ∧
    ∀ a ∈ r.areas, a.state ≠ .allocated → ∀ f ∈ a.frames, f = 0 := by
  have hinv : r.Inv V objs D L O pd start stop := by
    apply hr.invariant
    · intro r₀ hr₀
      exact AreaRun.Inv.of_initial hstart hstop hlt hlow hr₀
    · intro r₁ call r₂ h hstep
      exact h.step hK hpd hlow hstep.1 hstep.2
  refine ⟨fun n hlo hhi => ⟨hinv.mapped_iff hlo hhi, hinv.vmmGetMapping_page hpd (by omega)⟩,
    fun a ha hstate => ?_, hinv.agree.hold.nodup, fun a ha f hf hne => ?_,
    fun a ha hstate => (hinv.agree.maps a ha).frames_eq_zero hstate⟩
  · obtain ⟨hlen, hsize⟩ := hinv.array_complete ha hstate
    exact ⟨hlen, hsize, fun i hi => hinv.page_mapped ha hstate hi⟩
  · have hlive : V.live r.phys.alloc = _ := hinv.agree.hold.tables.live
    rw [hlive]
    exact Or.inl (Or.inr ⟨f, List.mem_flatMap.mpr ⟨a, ha, hf⟩, hne, rfl⟩)

end Runs

/-! ### A run on the buddy allocator -/

/-- One free area of 16 pages, an empty directory at `0x1000` and the machine with two zones. -/
def freshAreas : AreaRun (BuddyRun × BumpHeap) where
  areas := [{ addr := 0xD0000000, state := .free, startVaddr := 0x10000, size := 0x10000,
              pteFlags := 0, nrPages := 0, pages := none }]
  phys := { mem := fun _ => 0
            alloc := ({ buddy := twoZoneBuddy, live := [] },
              { next := 0xD0000100, live := [0xD0000000] }) }

theorem freshAreas_initial : freshAreas.Initial (bumpView buddyView) bumpObjs {0x1000} ∅ ∅ 0x1000
    0x10000 0x20000 := by
  have hvalid : BumpHeap.Valid { next := 0xD0000100, live := [0xD0000000] } :=
    ⟨by decide, by decide, by decide⟩
  have hlive : (bumpView buddyView).live freshAreas.phys.alloc = ∅ := by
    ext b
    simp [bumpView, buddyView, freshAreas]
  have hinv := VmmRun.Inv.of_initial (L := ∅) (D := {0x1000})
    (V := (bumpView buddyView).holding bumpObjs {0xD0000000})
    (r := { phys := freshAreas.phys, map := fun _ _ => none })
    { inv := ⟨⟨twoZoneBuddy_inv, hvalid⟩, by ext o; simp [bumpObjs, freshAreas]⟩
      dir := by
        rintro pd rfl
        refine ⟨by decide, by decide, ?_⟩
        show ¬ (_ ∧ pageGetState (twoZoneBuddy.pages (0x1000 / 4096)) = pageStateFree)
        rw [(twoZoneBuddy_flags _).1]
        exact fun hc => absurd hc.2 (by decide)
      zero := fun _ _ _ _ => rfl
      map := rfl } hlive
  refine ⟨0xD0000000, Set.notMem_empty _, rfl, ?_, fun n _ _ => ?_⟩
  · rw [insert_empty_eq]
    exact hinv.tables
  · unfold entryAt
    apply pte_of_absent
    show flagIsSet 0 pdePresentBit = false
    decide

/-! ### A run on the kernel heap -/

/-- The same area and directory on the kernel heap, which has served the header of the area. -/
def heapAreas : Kern (AreaRun HeapRun) := do
  let (addr, a) ← heapKernel.kmalloc sizeofVmArea gfpKernelZero twoZoneHeap
  .ok { areas := [{ addr := addr, state := .free, startVaddr := 0x10000, size := 0x10000,
                    pteFlags := 0, nrPages := 0, pages := none }]
        phys := { mem := fun _ => 0, alloc := a } }

/-- An area is mapped lazily and touched; a second one is mapped at once and unmapped, and a third
one takes its place. -/
def touchedAreas : Kern (AreaRun HeapRun) := do
  let r ← heapAreas
  [AreaCall.mmap 0 20000 2, .fault 0x10800, .allocEager 20480 7 0, .munmap 0x15000 20480,
    .allocEager 24576 5 0].foldlM (areaStep heapKernel.vmaEnv 0x1000) r

theorem touchedAreas_view : touchedAreas.toOption.map (fun r =>
    r.areas.map fun a => (a.state, a.startVaddr, a.frames)) =
    some [(.allocated, 0x10000, [0x38000000, 0x38001000, 0x38002000, 0x38003000, 0x38004000]),
      (.allocated, 0x15000, [0x38005000, 0x38006000, 0x38007000, 0x38008000, 0x38009000, 0x3800A000]),
      (.free, 0x1B000, [])] := by
  decide +kernel

/-- The first area is live, and nobody has taken a page yet. -/
theorem heapAreas_initial {r : AreaRun HeapRun} (h : heapAreas = .ok r) :
    r.Initial (heapView twoZonePages) heapObjs {0x1000} ∅ ∅ 0x1000 0x10000 0x20000 := by
  unfold heapAreas at h
  obtain ⟨⟨addr, a⟩, hcall, h⟩ := bind_eq_ok.mp h
  obtain rfl := Except.ok.inj h
  obtain ⟨hinv, husers, hlive, -⟩ := heapKernel_kmalloc twoZoneHeap_inv hcall
  have husers : a.users = [] := husers
  have hview : (heapKernel.kmalloc sizeofVmArea gfpKernelZero twoZoneHeap).toOption.map
      (·.1) = some 0xC1000020 := by decide +kernel
  obtain ⟨⟨addr', a'⟩, hcall', haddr⟩ := exists_ok_of_toOption_map hview
  obtain ⟨rfl, rfl⟩ := Prod.mk.inj (Except.ok.inj (hcall.symm.trans hcall'))
  obtain rfl : addr = 0xC1000020 := haddr
  have hlive : a.live = [(0xC1000020, sizeofVmArea)] := hlive
  have hstart := VmmRun.Inv.of_initial (L := ∅) (D := {0x1000})
    (V := (heapView twoZonePages).holding heapObjs {0xC1000020})
    (r := { phys := { mem := fun _ => 0, alloc := a }, map := fun _ _ => none })
    { inv := ⟨hinv, by ext o; simp [heapObjs, hlive]⟩
      dir := by
        rintro pd rfl
        refine ⟨by decide, by decide, fun hfree => ?_⟩
        have hin : inTwoZones (0x1000 / 4096) = true := hfree.1
        exact absurd hin (by decide)
      zero := fun _ _ _ _ => rfl
      map := rfl } (by ext b; simp [heapView, PageAlloc.View.holding, husers])
  refine ⟨0xC1000020, Set.notMem_empty _, rfl, ?_, fun n _ _ => ?_⟩
  · rw [insert_empty_eq]
    exact hstart.tables
  · unfold entryAt
    apply pte_of_absent
    show flagIsSet 0 pdePresentBit = false
    decide

theorem areas_pageTables_agree_touchedAreas : ∃ r, (areaSystem heapKernel (heapView twoZonePages)
      heapObjs {0x1000} ∅ ∅ 0x1000 0x10000 0x20000).Reachable r ∧
    r.areas.map (fun a => (a.state, a.startVaddr, a.frames)) =
      [(.allocated, 0x10000, [0x38000000, 0x38001000, 0x38002000, 0x38003000, 0x38004000]),
        (.allocated, 0x15000, [0x38005000, 0x38006000, 0x38007000, 0x38008000, 0x38009000, 0x3800A000]),
        (.free, 0x1B000, [])] ∧
    (∀ n, 0x10000 ≤ n * 4096 → n * 4096 < 0x20000 →
      (entryAt r.phys 0x1000 n ≠ none ↔ ∃ a ∈ r.areas, a.state = .allocated ∧
        a.startVaddr ≤ n * 4096 ∧ n * 4096 < a.startVaddr + a.size)) ∧
    ((r.areas.flatMap VmArea.frames).filter (· ≠ 0)).Nodup := by
  obtain ⟨r, hr, hview⟩ := Option.map_eq_some_iff.mp touchedAreas_view
  obtain ⟨r₀, hinit, hfold⟩ := bind_eq_ok.mp (eq_ok_of_toOption hr)
  have hvalid : ∀ call ∈ [AreaCall.mmap 0 20000 2, .fault 0x10800, .allocEager 20480 7 0,
      .munmap 0x15000 20480, .allocEager 24576 5 0], call.Valid := by
    simp only [List.forall_mem_cons, List.not_mem_nil, false_implies, implies_true, and_true,
      AreaCall.Valid]
    decide
  have hreach : (areaSystem heapKernel (heapView twoZonePages) heapObjs {0x1000} ∅ ∅ 0x1000 0x10000
      0x20000).Reachable r := reachable_of_calls (.init (heapAreas_initial hinit)) hvalid hfold
  obtain ⟨hmapped, -, hnodup, -⟩ := areas_pageTables_agree (heapKernel_lawful twoZonePages)
    (Set.mem_singleton _) (by decide) (by decide) (by decide) (by decide) hreach
  exact ⟨r, hreach, hview, fun n hlo hhi => (hmapped n hlo hhi).1, hnodup⟩

end Kfs.Memory
