import Mathlib.Logic.Relation
import Kfs.Memory.AreaRuns

/-!
# The page-table calls of the area code

What `mmap`, `munmap`, a page fault and an eager `vma_alloc` do to memory is a sequence of
`vmm_map_page` and `vmm_unmap_page`, each made while the page tables are intact; everything else that
they call leaves memory alone. `PageCalls` is such a sequence. A property of memory that the two
page-table calls keep is kept by every call on areas.
-/

namespace Kfs.Memory

open Kfs.Lib Kfs.Lib.Word32 Kfs.Lib.Dyadic

/-! ## Calls -/

section Calls

variable {σ : Type}

/-- A page-table call on the slots `W`, or one that writes no memory. -/
inductive PageCall (A : PageAlloc σ) (W : Set (ℕ × ℕ)) : Phys σ → Phys σ → Prop where
  | quiet {s s' : Phys σ} : s'.mem = s.mem → PageCall A W s s'
  | map {s s' : Phys σ} {V : PageAlloc.View σ} {L : Set (ℕ × ℕ)} {pd v p flags : ℕ} {ok : Bool} :
      A.Lawful V → PageTables V W L s → (pd, v / 4096 / 1024) ∈ W →
      flagIsSet flags ptePresentBit = true → 4096 ∣ p →
      vmmMapPage A pd v p flags s = .ok (ok, s') → PageCall A W s s'
  | unmap {s s' : Phys σ} {V : PageAlloc.View σ} {L : Set (ℕ × ℕ)} {pd v : ℕ} {ok : Bool} :
      A.Lawful V → PageTables V W L s → (pd, v / 4096 / 1024) ∈ W →
      vmmUnmapPage A pd v s = .ok (ok, s') → PageCall A W s s'

/-- A sequence of calls. -/
def PageCalls (A : PageAlloc σ) (W : Set (ℕ × ℕ)) : Phys σ → Phys σ → Prop :=
  Relation.ReflTransGen (PageCall A W)

variable {A : PageAlloc σ} {W : Set (ℕ × ℕ)} {s s' s'' : Phys σ}

theorem PageCalls.refl (s : Phys σ) : PageCalls A W s s := Relation.ReflTransGen.refl

theorem PageCalls.trans (h : PageCalls A W s s') (h' : PageCalls A W s' s'') :
    PageCalls A W s s'' := Relation.ReflTransGen.trans h h'

theorem PageCall.calls (h : PageCall A W s s') : PageCalls A W s s' := Relation.ReflTransGen.single h

theorem PageCalls.quiet (hmem : s'.mem = s.mem) : PageCalls A W s s' := (PageCall.quiet hmem).calls

/-- **What every call keeps**, the sequence keeps. -/
theorem PageCalls.keeps (h : PageCalls A W s s') {P : Phys σ → Prop}
    (hcall : ∀ {t t' : Phys σ}, PageCall A W t t' → P t → P t') (hs : P s) : P s' := by
  induction h with
  | refl => exact hs
  | tail _ hlast ih => exact hcall hlast ih

end Calls

/-! ## The loops of an area -/

section Loops

variable {σ : Type} {V : PageAlloc.View σ} {K : KernelAlloc σ} {W L : Set (ℕ × ℕ)} {s s' : Phys σ}

theorem KernelAlloc.kmallocOn_mem {size flags ptr : ℕ} (h : K.kmallocOn size flags s = .ok (ptr, s')) :
    s'.mem = s.mem := by
  unfold KernelAlloc.kmallocOn at h
  rw [bind_eq_ok] at h
  obtain ⟨⟨ptr', a⟩, -, h⟩ := h
  rw [← (Prod.mk.inj (Except.ok.inj h)).2]

theorem KernelAlloc.kfreeOn_mem {ptr : ℕ} (h : K.kfreeOn ptr s = .ok s') : s'.mem = s.mem := by
  unfold KernelAlloc.kfreeOn at h
  rw [bind_eq_ok] at h
  obtain ⟨a, -, h⟩ := h
  rw [← Except.ok.inj h]

/-- The slot of a page of an area. -/
theorem area_slot {pd start i : ℕ} (hstart : 4096 ∣ start) (hpd : ∀ i < userPdes, (pd, i) ∈ W)
    (hend : start + i * 4096 < kernelVaddrBase) :
    (pd, add32 start (i * pageSize) / 4096 / 1024) ∈ W := by
  have hbase : kernelVaddrBase ≤ 2 ^ 32 := by decide
  apply hpd
  rw [area_page hstart hend hbase]
  unfold kernelVaddrBase at hend
  unfold userPdes
  omega

/-- The loop that maps frames makes page-table calls. -/
theorem PageTables.mapFrames_calls (hA : K.toPageAlloc.Lawful V) {pd start flags : ℕ}
    {frames : List ℕ} (hstart : 4096 ∣ start) (hflag : flagIsSet flags ptePresentBit = true)
    (hdvd : ∀ i, 4096 ∣ frames.getD i 0) (hpd : ∀ i < userPdes, (pd, i) ∈ W) (k : ℕ) :
    ∀ {s : Phys σ} (i : ℕ), start + (i + k) * 4096 ≤ kernelVaddrBase → PageTables V W L s →
    ∀ {ok : Bool}, mapFrames K.vmaEnv pd start flags frames (i + k) k s = .ok (ok, s') →
    PageCalls K.toPageAlloc W s s' := by
  induction k with
  | zero =>
    intro s i _ h ok hrun
    obtain ⟨-, rfl⟩ := Prod.mk.inj (Except.ok.inj hrun)
    exact .refl s
  | succ k ih =>
    intro s i hend h ok hrun
    rw [mapFrames] at hrun
    simp only [show i + (k + 1) - (k + 1) = i by omega] at hrun
    have hslot := area_slot (W := W) (i := i) hstart hpd (by omega)
    rw [bind_eq_ok] at hrun
    obtain ⟨⟨mapped, s₁⟩, hmap, hrun⟩ := hrun
    have hcall : PageCall K.toPageAlloc W s s₁ := .map hA h hslot hflag (hdvd i) hmap
    cases mapped with
    | false =>
      obtain ⟨-, rfl⟩ := Prod.mk.inj (Except.ok.inj hrun)
      exact hcall.calls
    | true =>
      simp only [if_true] at hrun
      have h₁ : PageTables V W L s₁ := by
        have hmap : vmmMapPage K.toPageAlloc pd _ _ flags s = .ok (true, s₁) := hmap
        rcases h.mapPage_spec (p := frames.getD i 0) hA hslot hflag with hfail | ⟨s₂, hok, h₂, -⟩
        · cases hfail.symm.trans hmap
        · obtain ⟨-, rfl⟩ := Prod.mk.inj (Except.ok.inj (hok.symm.trans hmap))
          exact h₂
      rw [show i + (k + 1) = i + 1 + k by omega] at hrun hend
      exact hcall.calls.trans (ih (i + 1) hend h₁ hrun)

/-- One turn of the loop that gives frames back. -/
theorem PageTables.releaseFrame_calls (hA : K.toPageAlloc.Lawful V) (h : PageTables V W L s)
    {pd start : ℕ} {frames : List ℕ} {i : ℕ} (hslot : (pd, add32 start (i * pageSize) / 4096 / 1024) ∈ W)
    (hrun : releaseFrame K.vmaEnv pd start frames s i = .ok s') :
    PageCalls K.toPageAlloc W s s' := by
  unfold releaseFrame at hrun
  split at hrun
  · obtain rfl := Except.ok.inj hrun
    exact .refl s
  · rw [bind_eq_ok] at hrun
    obtain ⟨⟨ok, s₁⟩, hunmap, hfree⟩ := hrun
    have hcall : PageCall K.toPageAlloc W s s₁ := .unmap hA h hslot hunmap
    exact hcall.calls.trans (.quiet (PageAlloc.freeOn_mem hfree))

/-- The loop that gives frames back makes page-table calls. -/
theorem PageTables.releaseFrames_calls (hA : K.toPageAlloc.Lawful V) {pd start : ℕ}
    {frames : List ℕ} (hstart : 4096 ∣ start)
    (hend : start + frames.length * 4096 ≤ kernelVaddrBase)
    (hpd : ∀ i < userPdes, (pd, i) ∈ W)
    (hframe : ∀ f ∈ frames, f ≠ 0 → IsFrame W L f) (k : ℕ) :
    ∀ {s : Phys σ} (i : ℕ), i + k = frames.length →
    ((frames.drop i).filter (· ≠ 0)).Nodup → PageTables V W (L ∪ frameBlocks (frames.drop i)) s →
    (List.range' i k).foldlM (releaseFrame K.vmaEnv pd start frames) s = .ok s' →
    PageCalls K.toPageAlloc W s s' := by
  induction k with
  | zero =>
    intro s i _ _ _ hrun
    obtain rfl := Except.ok.inj hrun
    exact .refl s
  | succ k ih =>
    intro s i hi hnodup h hrun
    rw [List.range'_succ, List.foldlM_cons, bind_eq_ok] at hrun
    obtain ⟨s₁, hfirst, hrun⟩ := hrun
    have hslot := area_slot (W := W) (i := i) hstart hpd (by omega)
    obtain ⟨h₁, hnodup₁, -⟩ :=
      h.releaseFrame_spec hA hend hpd hframe (by omega) hnodup hfirst
    exact (h.releaseFrame_calls hA hslot hfirst).trans (ih (i + 1) (by omega) hnodup₁ h₁ hrun)

end Loops

/-! ## The operations on areas -/

section Areas

variable {σ : Type} {V : PageAlloc.View σ} {K : KernelAlloc σ} {objs : σ → Set ℕ}
  {W L : Set (ℕ × ℕ)} {O : Set ℕ} {pd : ℕ} {areas : List VmArea} {a b : VmArea} {c : VmaCursor}
  {s s' : Phys σ}

/-- `vma_map_area` makes page-table calls. -/
theorem AreasHold.vmaMapArea_calls (hK : K.Lawful V objs)
    (h : AreasHold V objs W L O pd (a :: areas) s) (hpd : ∀ i < userPdes, (pd, i) ∈ W) {ptr : ℕ}
    (ha : a.pages = some { addr := ptr, frames := List.replicate a.nrPages 0 })
    (hflag : flagIsSet a.pteFlags ptePresentBit = true) {ok : Bool}
    (hrun : vmaMapArea K.vmaEnv a pd s = .ok (ok, b, s')) : PageCalls K.toPageAlloc W s s' := by
  have hpart := h.part a List.mem_cons_self
  obtain ⟨-, hsize⟩ := hpart.length _ ha
  have hA := hK.pages (objectSet O ((a :: areas).flatMap VmArea.heapObjects))
  unfold vmaMapArea at hrun
  rw [ha] at hrun
  simp only at hrun
  rw [bind_eq_ok] at hrun
  obtain ⟨⟨ok₁, frames, s₁⟩, halloc, hrun⟩ := hrun
  have halloc' : allocFrames K.vmaEnv (([] : List ℕ).length + a.nrPages) a.nrPages
      ([] ++ List.replicate a.nrPages 0) s = .ok (ok₁, frames, s₁) := by
    rw [List.length_nil, Nat.zero_add, List.nil_append]
    exact halloc
  obtain ⟨new, hframes, -, -, -, hnew, hmem, htables⟩ :=
    PageTables.allocFrames_spec hA a.nrPages [] h.tables halloc'
  have hdvd : ∀ i, 4096 ∣ frames.getD i 0 := by
    intro i
    rw [hframes, List.nil_append]
    by_cases hi : i < new.length
    · rw [List.getD_append _ _ _ _ hi, List.getD_eq_getElem _ _ hi]
      exact (hnew _ (List.getElem_mem hi)).2.dvd
    · -- behind the new frames the array is empty
      rw [List.getD_append_right _ _ _ _ (not_lt.mp hi), List.getD_eq_getElem?_getD,
        List.getElem?_getD_replicate_default_eq]
      exact dvd_zero 4096
  cases ok₁ with
  | false =>
    obtain ⟨-, -, hs⟩ := ok_triple_inj hrun
    rw [← hs]
    exact .quiet hmem
  | true =>
    simp only [Bool.not_true, Bool.false_eq_true, if_false] at hrun
    rw [bind_eq_ok] at hrun
    obtain ⟨⟨ok₂, s₂⟩, hmap, hrun⟩ := hrun
    obtain ⟨-, -, rfl⟩ := ok_triple_inj hrun
    have hmap' : mapFrames K.vmaEnv pd a.startVaddr a.pteFlags frames (0 + a.nrPages) a.nrPages s₁ =
        .ok (ok₂, s₂) := by
      rw [Nat.zero_add]
      exact hmap
    have hlow := hpart.low
    exact (PageCalls.quiet hmem).trans (PageTables.mapFrames_calls hA hpart.start hflag hdvd hpd
      a.nrPages 0 (by omega) htables hmap')

/-- Giving the pages of an area back makes page-table calls. -/
theorem AreasHold.releasePages_calls (hK : K.Lawful V objs)
    (h : AreasHold V objs W L O pd (a :: areas) s) (hpd : ∀ i < userPdes, (pd, i) ∈ W)
    (hrun : releasePages K.vmaEnv pd a s = .ok s') : PageCalls K.toPageAlloc W s s' := by
  have hpart := h.part a List.mem_cons_self
  unfold releasePages at hrun
  cases hpages : a.pages with
  | none =>
    rw [hpages] at hrun
    obtain rfl := Except.ok.inj hrun
    exact .refl s
  | some p =>
    rw [hpages] at hrun
    simp only at hrun
    rw [bind_eq_ok] at hrun
    obtain ⟨s₁, hloop, hfree⟩ := hrun
    obtain ⟨hlen, hsize⟩ := hpart.length p hpages
    have hframes : a.frames = p.frames := VmArea.frames_of_some hpages
    have hnodup := h.nodup
    have hframe := h.frame
    have htables := h.tables
    rw [List.flatMap_cons, hframes] at hnodup hframe
    rw [List.flatMap_cons (f := VmArea.frames), hframes, frameBlocks_append, Set.union_comm
      (frameBlocks p.frames), ← Set.union_assoc] at htables
    have hA := hK.pages (objectSet O ((a :: areas).flatMap VmArea.heapObjects))
    rw [List.filter_append] at hnodup
    rw [List.range_eq_range'] at hloop
    have hloop' := PageTables.releaseFrames_calls hA hpart.start
      (by rw [hlen, hsize]; exact hpart.low) hpd
      (fun f hf hne => IsFrame.append (by rw [List.filter_append]; exact hnodup) hframe hf hne)
      a.nrPages 0 (by omega) (List.nodup_append.mp hnodup).1 htables hloop
    exact hloop'.trans (.quiet (KernelAlloc.kfreeOn_mem hfree))

theorem mergeNext_mem {c' : VmaCursor} (h : mergeNext K.vmaEnv c s = .ok (c', s')) :
    s'.mem = s.mem := by
  unfold mergeNext at h
  split at h
  · rw [← (Prod.mk.inj (Except.ok.inj h)).2]
  · split at h
    · rw [← (Prod.mk.inj (Except.ok.inj h)).2]
    · rw [bind_eq_ok] at h
      obtain ⟨s₁, hfree, h⟩ := h
      rw [← (Prod.mk.inj (Except.ok.inj h)).2]
      exact KernelAlloc.kfreeOn_mem hfree

theorem mergePrev_mem (h : mergePrev K.vmaEnv c s = .ok (areas, s')) : s'.mem = s.mem := by
  unfold mergePrev at h
  split at h
  · rw [← (Prod.mk.inj (Except.ok.inj h)).2]
  · split at h
    · rw [← (Prod.mk.inj (Except.ok.inj h)).2]
    · rw [bind_eq_ok] at h
      obtain ⟨s₁, hfree, h⟩ := h
      rw [← (Prod.mk.inj (Except.ok.inj h)).2]
      exact KernelAlloc.kfreeOn_mem hfree

/-- `vma_destroy_area` makes page-table calls. -/
theorem AreasHold.vmaDestroyArea_calls (hK : K.Lawful V objs)
    (h : AreasHold V objs W L O pd (c.area :: c.others) s) (hpd : ∀ i < userPdes, (pd, i) ∈ W)
    (hrun : vmaDestroyArea K.vmaEnv c pd s = .ok (areas, s')) : PageCalls K.toPageAlloc W s s' := by
  unfold vmaDestroyArea vmaMergeArea at hrun
  rw [bind_eq_ok] at hrun
  obtain ⟨s₁, hrelease, hrun⟩ := hrun
  rw [bind_eq_ok] at hrun
  obtain ⟨⟨c', s₂⟩, hnext, hrun⟩ := hrun
  have hmem : s'.mem = s₁.mem := (mergePrev_mem hrun).trans (mergeNext_mem hnext)
  exact (h.releasePages_calls hK hpd hrelease).trans (.quiet hmem)

/-- `vma_alloc_in_area` makes page-table calls. -/
theorem AreasAgree.vmaAllocInArea_calls (hK : K.Lawful V objs)
    (h : AreasAgree V objs W L O pd (c.area :: c.others) s) (hpd : ∀ i < userPdes, (pd, i) ∈ W)
    (hstate : c.area.state = .free) {size flags : ℕ} (hpos : 1 ≤ size) (hle : size ≤ c.area.size)
    (hflag : flagIsSet flags ptePresentBit = true) {mode : VmaAllocMode} {ret : Option VmArea}
    (hrun : vmaAllocInArea K.vmaEnv pd c size flags mode s = .ok (ret, areas, s')) :
    PageCalls K.toPageAlloc W s s' := by
  have hpages := (h.maps c.area List.mem_cons_self).free hstate
  have hlow := (h.hold.part c.area List.mem_cons_self).low
  have hbase : kernelVaddrBase ≤ 0xFFFFF000 := by decide
  unfold vmaAllocInArea at hrun
  rw [bind_eq_ok] at hrun
  obtain ⟨⟨split, s₁⟩, hsplit, hrun⟩ := hrun
  -- Up to the array the heap is all that is called.
  obtain ⟨hmem₁, hres⟩ := h.hold.vmaSplitArea_hold hK hstate hpages hpos hle hsplit
  cases split with
  | none =>
    obtain ⟨-, -, hs⟩ := ok_triple_inj hrun
    rw [← hs]
    exact .quiet hmem₁
  | some d =>
    have hres : SplitFrom V objs W L O pd size c s₁ d := hres
    simp only at hrun
    rw [bind_eq_ok] at hrun
    obtain ⟨⟨ptr, s₂⟩, hkmalloc, hrun⟩ := hrun
    simp only at hrun
    have hquiet : PageCalls K.toPageAlloc W s s₂ :=
      .quiet ((KernelAlloc.kmallocOn_mem hkmalloc).trans hmem₁)
    split at hrun
    · -- no memory for the array
      next hnull =>
      subst hnull
      rw [bind_eq_ok] at hrun
      obtain ⟨⟨areas', s₃⟩, hdestroy, hrun⟩ := hrun
      obtain ⟨-, -, rfl⟩ := ok_triple_inj hrun
      have hd : AreasHold V objs W L O pd
          ({ d with area := { d.area with pages := none } : VmaCursor }.area :: d.others) s₂ :=
        (hres.hold.kmalloc_null hK hkmalloc).2.setHead rfl hres.pages.symm rfl rfl
          fun hne => absurd hres.pages hne
      exact hquiet.trans (hd.vmaDestroyArea_calls hK hpd hdestroy)
    · next hptr =>
      have hn : divRoundUp32 size pageSize * 4096 = d.area.size := by
        rw [hres.size]
        exact divRoundUp32_mul_page (by omega)
      -- A lazy area calls the buddy allocator for nothing.
      cases mode with
      | lazy =>
        obtain ⟨-, -, hs⟩ := ok_triple_inj hrun
        rw [← hs]
        exact hquiet
      | eager =>
        simp only at hrun
        rw [bind_eq_ok] at hrun
        obtain ⟨⟨ok, area, s₃⟩, hmap, hrun⟩ := hrun
        have harray := hres.hold.array_spec hK hres.pages hkmalloc hptr hn
          (b := { d.area with
            pages := some ⟨ptr, List.replicate (divRoundUp32 size pageSize) 0⟩
            nrPages := divRoundUp32 size pageSize
            pteFlags := flags }) ⟨rfl, rfl, rfl, rfl, rfl⟩
        -- The mapping asks for its frames; the calls are those of `vma_map_area`.
        have hmapped := harray.vmaMapArea_calls hK hpd rfl hflag hmap
        obtain ⟨frames, rfl, hhold, -⟩ := harray.vmaMapArea_spec hK hpd rfl hflag hmap
        cases ok with
        | true =>
          obtain ⟨-, -, hs⟩ := ok_triple_inj hrun
          rw [← hs]
          exact hquiet.trans hmapped
        -- What it took is given back by `vma_destroy_area`.
        | false =>
          simp only [Bool.false_eq_true, if_false] at hrun
          rw [bind_eq_ok] at hrun
          obtain ⟨⟨areas', s₄⟩, hdestroy, hrun⟩ := hrun
          obtain ⟨-, -, hs⟩ := ok_triple_inj hrun
          rw [← hs]
          exact (hquiet.trans hmapped).trans
            (AreasHold.vmaDestroyArea_calls (c := { d with area := _ }) hK hhold hpd hdestroy)

/-- `vma_alloc` makes page-table calls. -/
theorem AreasAgree.vmaAlloc_calls (hK : K.Lawful V objs)
    (h : AreasAgree V objs W L O pd areas s) (hpd : ∀ i < userPdes, (pd, i) ∈ W)
    {size flags hint : ℕ} (hpos : 1 ≤ size) (hflag : flagIsSet flags ptePresentBit = true)
    {mode : VmaAllocMode} {ret : Option VmArea} {areas' : List VmArea}
    (hrun : vmaAlloc K.vmaEnv areas pd size flags hint mode s = .ok (ret, areas', s')) :
    PageCalls K.toPageAlloc W s s' := by
  unfold vmaAlloc at hrun
  cases hfind : vmaFindFree areas size hint with
  | none =>
    rw [hfind] at hrun
    obtain ⟨-, -, rfl⟩ := ok_triple_inj hrun
    exact .refl s
  | some c =>
    rw [hfind] at hrun
    obtain ⟨rfl, hfree, hfit⟩ := vmaFindFree_some hfind
    exact (h.perm c.toList_perm).vmaAllocInArea_calls hK hpd hfree hpos hfit hflag hrun

/-- `page_fault_handler` makes page-table calls. -/
theorem AreasAgree.pageFaultHandler_calls (hK : K.Lawful V objs)
    (h : AreasAgree V objs W L O pd areas s) (hpd : ∀ i < userPdes, (pd, i) ∈ W) {addr : ℕ}
    {areas' : List VmArea} (hrun : pageFaultHandler K.vmaEnv areas pd addr s = .ok (areas', s')) :
    PageCalls K.toPageAlloc W s s' := by
  unfold pageFaultHandler at hrun
  cases hfind : vmaFindByAddr addr areas with
  | none =>
    rw [hfind] at hrun
    cases hrun
  | some c =>
    rw [hfind] at hrun
    obtain ⟨hlist, -⟩ := findArea_some hfind
    obtain rfl : c.toList = areas := hlist
    have h' := h.perm c.toList_perm
    simp only at hrun
    split at hrun
    · next hlazy =>
      rw [bind_eq_ok] at hrun
      obtain ⟨⟨ok, area, s₁⟩, hmap, hrun⟩ := hrun
      have hmaps := h'.maps c.area List.mem_cons_self
      obtain ⟨ptr, hpages⟩ := hmaps.lazy hlazy
      have hflag := (hmaps.flags (by rw [hlazy]; decide)).2
      cases ok with
      | false => cases hrun
      | true =>
        obtain ⟨-, rfl⟩ := Prod.mk.inj (Except.ok.inj hrun)
        exact h'.hold.vmaMapArea_calls hK hpd hpages hflag hmap
    · cases hrun

/-- `munmap` makes page-table calls. -/
theorem AreasAgree.sysMunmap_calls (hK : K.Lawful V objs)
    (h : AreasAgree V objs W L O pd areas s) (hpd : ∀ i < userPdes, (pd, i) ∈ W)
    {addr length : ℕ} {ret : ℤ} {areas' : List VmArea}
    (hrun : sysMunmap K.vmaEnv areas pd addr length s = .ok (ret, areas', s')) :
    PageCalls K.toPageAlloc W s s' := by
  have hsame : ∀ {x : ℤ}, (Except.ok (x, areas, s) : Kern (ℤ × List VmArea × Phys σ)) =
      .ok (ret, areas', s') → PageCalls K.toPageAlloc W s s' := by
    intro x hx
    obtain ⟨-, -, rfl⟩ := ok_triple_inj hx
    exact .refl s
  unfold sysMunmap at hrun
  split at hrun
  · exact hsame hrun
  · cases hfind : vmaFindByStart addr areas with
    | none =>
      rw [hfind] at hrun
      exact hsame hrun
    | some c =>
      rw [hfind] at hrun
      simp only at hrun
      split at hrun
      · exact hsame hrun
      · rw [bind_eq_ok] at hrun
        obtain ⟨⟨areas₁, s₁⟩, hdestroy, hrun⟩ := hrun
        obtain ⟨-, -, rfl⟩ := ok_triple_inj hrun
        obtain ⟨hlist, -⟩ := findArea_some hfind
        obtain rfl : c.toList = areas := hlist
        exact (h.perm c.toList_perm).hold.vmaDestroyArea_calls hK hpd hdestroy

/-- **Every call on areas is a sequence of page-table calls.** -/
theorem AreasAgree.areaStep_calls (hK : K.Lawful V objs) {r r' : AreaRun σ}
    (h : AreasAgree V objs W L O pd r.areas r.phys) (hpd : ∀ i < userPdes, (pd, i) ∈ W)
    {call : AreaCall} (hvalid : call.Valid) (hrun : areaStep K.vmaEnv pd r call = .ok r') :
    PageCalls K.toPageAlloc W r.phys r'.phys := by
  cases call with
  | mmap addr length prot =>
    have hrun : (sysMmap K.vmaEnv r.areas pd addr length prot r.phys >>= fun out =>
      Except.ok { areas := out.2.1, phys := out.2.2 }) = .ok r' := hrun
    rw [bind_eq_ok] at hrun
    obtain ⟨⟨ret, areas, s⟩, hcall, hrun⟩ := hrun
    obtain rfl := Except.ok.inj hrun
    unfold sysMmap at hcall
    split at hcall
    · obtain ⟨-, -, rfl⟩ := ok_triple_inj hcall
      exact .refl _
    · next hlen =>
      rw [bind_eq_ok] at hcall
      obtain ⟨⟨area, areas₁, s₁⟩, halloc, hcall⟩ := hcall
      have hout : (areas₁, s₁) = (areas, s) := by
        cases area with
        | none => exact (Prod.mk.inj (Except.ok.inj hcall)).2
        | some area => exact (Prod.mk.inj (Except.ok.inj hcall)).2
      obtain ⟨rfl, rfl⟩ := Prod.mk.inj hout
      exact h.vmaAlloc_calls hK hpd (Nat.pos_of_ne_zero hlen) (mmapFlags_spec prot).2 halloc
  | munmap addr length =>
    have hrun : (sysMunmap K.vmaEnv r.areas pd addr length r.phys >>= fun out =>
      Except.ok { areas := out.2.1, phys := out.2.2 }) = .ok r' := hrun
    rw [bind_eq_ok] at hrun
    obtain ⟨⟨ret, areas, s⟩, hcall, hrun⟩ := hrun
    obtain rfl := Except.ok.inj hrun
    exact h.sysMunmap_calls hK hpd hcall
  | fault addr =>
    have hrun : (pageFaultHandler K.vmaEnv r.areas pd addr r.phys >>= fun out =>
      Except.ok { areas := out.1, phys := out.2 }) = .ok r' := hrun
    rw [bind_eq_ok] at hrun
    obtain ⟨⟨areas, s⟩, hcall, hrun⟩ := hrun
    obtain rfl := Except.ok.inj hrun
    exact h.pageFaultHandler_calls hK hpd hcall
  | allocEager size pteFlags hintVaddr =>
    have hrun : (vmaAlloc K.vmaEnv r.areas pd size pteFlags hintVaddr .eager r.phys >>= fun out =>
      Except.ok { areas := out.2.1, phys := out.2.2 }) = .ok r' := hrun
    rw [bind_eq_ok] at hrun
    obtain ⟨⟨ret, areas, s⟩, halloc, hrun⟩ := hrun
    obtain rfl := Except.ok.inj hrun
    exact h.vmaAlloc_calls hK hpd hvalid.1 hvalid.2.2 halloc

end Areas

end Kfs.Memory
