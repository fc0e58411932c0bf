import Kfs.Memory.VmaRuns

/-!
# Where an allocation is placed

`vma_alloc` looks for a free area with the size asked for and cuts the rounded size from it. The two
agree for areas of whole pages. Every area of a run starts at a page, so only the last area can have
another size, and the search takes that one when no other is left. An area at the hint is taken
without regard to the others, so with a hint the end of the range has to be at a page as well.
-/

namespace Kfs.Memory

open Kfs.Lib Kfs.Lib.Word32

/-! ## The first area -/

section Find

variable {p : VmArea → Bool} {areas : List VmArea} {c : VmaCursor}

/-- `findArea` passes only areas that do not meet the condition. -/
theorem findArea_first : ∀ {before : List VmArea}, findArea p before areas = some c →
    ∃ front, areas = front ++ c.area :: c.after ∧ ∀ a ∈ front, p a = false := by
  induction areas with
  | nil =>
    intro before h
    cases h
  | cons area areas ih =>
    intro before h
    rw [findArea] at h
    cases hp : p area with
    | true =>
      rw [hp] at h
      obtain rfl := Option.some.inj h
      exact ⟨[], rfl, fun a ha => absurd ha List.not_mem_nil⟩
    | false =>
      rw [hp] at h
      obtain ⟨front, rfl, hfront⟩ := ih h
      refine ⟨area :: front, rfl, fun a ha => ?_⟩
      rcases List.mem_cons.mp ha with rfl | ha
      · exact hp
      · exact hfront a ha

theorem findArea_eq_none (h : findArea p [] areas = none) : ∀ a ∈ areas, p a = false := by
  intro a ha
  by_contra hp
  exact findArea_ne_none ha (Bool.eq_true_of_not_eq_false hp) h

end Find

/-! ## Areas start at pages -/

section Starts

variable {start stop : ℕ} {areas : List VmArea}

/-- If the areas in use start at pages, so do the free ones between them. -/
theorem VmaInv.starts_aligned (h : VmaInv start stop areas) (hstart : 4096 ∣ start)
    (hused : ∀ a ∈ areas, a.state ≠ .free → 4096 ∣ a.startVaddr) :
    ∀ a ∈ areas, 4096 ∣ a.startVaddr := by
  obtain ⟨htiles, hchain, hsize⟩ := h
  induction areas generalizing start with
  | nil => exact fun a ha => absurd ha List.not_mem_nil
  | cons area areas ih =>
    obtain ⟨hfirst, -, hrest⟩ := htiles
    intro a ha
    rcases List.mem_cons.mp ha with rfl | ha
    · exact hfirst ▸ hstart
    -- the next area starts at a page: it follows an area in use or is in use itself
    have hnext : 4096 ∣ start + area.size := by
      by_cases hfree : area.state = .free
      · cases areas with
        | nil => exact absurd ha List.not_mem_nil
        | cons next areas =>
          have hne : next.state ≠ .free := fun hc =>
            (List.isChain_cons.mp hchain).1 next rfl ⟨hfree, hc⟩
          rw [← hrest.1]
          exact hused next (List.mem_cons_of_mem area List.mem_cons_self) hne
      · exact Nat.dvd_add hstart (hsize area List.mem_cons_self hfree)
    exact ih hnext (fun b hb => hused b (List.mem_cons_of_mem area hb)) hrest
      (List.isChain_cons.mp hchain).2 (fun b hb => hsize b (List.mem_cons_of_mem area hb)) a ha

/-- An area ends where the range ends or where another one starts. -/
theorem VmaInv.end_cases (h : VmaInv start stop areas) {a : VmArea} (ha : a ∈ areas) :
    a.startVaddr + a.size = stop ∨ ∃ b ∈ areas, b.startVaddr = a.startVaddr + a.size := by
  obtain ⟨hlow, hpos, hend⟩ := h.tiles.mem ha
  by_cases hstop : a.startVaddr + a.size = stop
  · exact .inl hstop
  · obtain ⟨b, hb, hble, hblt⟩ := h.tiles.covers (x := a.startVaddr + a.size) (by omega) (by omega)
    refine .inr ⟨b, hb, ?_⟩
    rcases h.tiles.eq_or_disjoint ha hb with rfl | hle | hle
    · omega
    · omega
    · omega

end Starts

/-! ## Runs keep the starts at pages -/

section Runs

variable {σ : Type} {env : VmaEnv σ} {start stop : ℕ} {r r' : VmaRun σ}

/-- In a run the areas in use start at pages. -/
structure VmaRun.Paged (start stop : ℕ) (r : VmaRun σ) : Prop where
  inv : r.Inv start stop
  live : ∀ b ∈ r.live, 4096 ∣ b.1

theorem VmaRun.Paged.starts (h : r.Paged start stop) (hstart : 4096 ∣ start) :
    ∀ a ∈ r.areas, 4096 ∣ a.startVaddr :=
  h.inv.inv.starts_aligned hstart fun a ha hne => h.live _ ((h.inv.live _).mpr ⟨a, ha, hne, rfl⟩)

theorem VmaRun.Paged.step (h : r.Paged start stop) (hstart : 4096 ∣ start) (hstop : stop < 2 ^ 32)
    (hrange : stop - start ≤ 0xFFFFF000) {call : VmaCall} (hvalid : call.Valid)
    (hrun : vmaStep env r call = .ok r') : r'.Paged start stop := by
  refine ⟨h.inv.step hstop hrange hvalid hrun, ?_⟩
  cases call with
  | alloc pd size pteFlags hintVaddr allocMode =>
    obtain ⟨⟨ret, areas, s⟩, halloc, hok⟩ := bind_eq_ok.mp hrun
    obtain rfl := Except.ok.inj hok
    cases ret with
    | none => exact h.live
    | some area =>
      intro b hb
      rcases List.mem_cons.mp hb with rfl | hb
      · -- the new area starts where a free one did
        have hres := h.inv.inv.vmaAlloc_spec hstop hrange hvalid halloc
        obtain ⟨f, hf, -, hfstart⟩ := hres.fresh area rfl
        exact hfstart ▸ h.starts hstart f hf
      · exact h.live b hb
  | destroy pd startVaddr =>
    simp only [vmaStep] at hrun
    cases hfind : vmaFindByStart startVaddr r.areas with
    | none =>
      rw [hfind] at hrun
      cases hrun
    | some c =>
      rw [hfind] at hrun
      simp only at hrun
      split at hrun
      · cases hrun
      · obtain ⟨⟨areas, s⟩, -, hok⟩ := bind_eq_ok.mp hrun
        obtain rfl := Except.ok.inj hok
        exact fun b hb => h.live b (List.mem_of_mem_erase hb)

theorem VmaRun.Paged.of_reachable (hstart : 4096 ∣ start) (hlt : start < stop)
    (hstop : stop < 2 ^ 32) (hrange : stop - start ≤ 0xFFFFF000)
    (hr : (vmaSystem env start stop).Reachable r) : r.Paged start stop := by
  apply hr.invariant
  · intro r₀ hr₀
    refine ⟨VmaRun.Inv.of_initial hlt hstop hr₀, fun b hb => ?_⟩
    rw [hr₀.2] at hb
    exact absurd hb List.not_mem_nil
  · intro r₁ call r₂ h hstep
    exact h.step hstart hstop hrange hstep.1 hstep.2

end Runs

/-! ## Placement -/

/-- `ALIGN(size, PAGE_SIZE)`, in unbounded arithmetic. -/
def wholePages (size : ℕ) : ℕ := (size + 4095) / 4096 * 4096

/-- A free area that holds the rounded size. -/
def VmArea.Fits (size : ℕ) (a : VmArea) : Prop := a.state = .free ∧ wholePages size ≤ a.size

/-- Where an allocation belongs: at the hint if a free area that fits starts there, else at the lowest
start of a free area that fits. -/
def Placed (areas : List VmArea) (size hintVaddr addr : ℕ) : Prop :=
  ((∃ a ∈ areas, a.Fits size ∧ a.startVaddr = hintVaddr) → addr = hintVaddr) ∧
    ((¬ ∃ a ∈ areas, a.Fits size ∧ a.startVaddr = hintVaddr) →
      (∃ a ∈ areas, a.Fits size ∧ a.startVaddr = addr) ∧
        ∀ a ∈ areas, a.Fits size → addr ≤ a.startVaddr)

section Place

variable {σ : Type} {env : VmaEnv σ} {start stop : ℕ} {areas : List VmArea} {c : VmaCursor}
  {s s' : σ} {size hint : ℕ}

theorem size_le_wholePages (size : ℕ) : size ≤ wholePages size := by
  unfold wholePages
  omega

/-- A multiple of the page size holds a size exactly if it holds the rounded size. -/
theorem wholePages_le_iff {n : ℕ} (hdvd : 4096 ∣ n) : wholePages size ≤ n ↔ size ≤ n := by
  unfold wholePages
  omega

theorem alignUp32_wholePages (hle : size ≤ 0xFFFFF000) :
    alignUp32 size 12 = wholePages size := by
  rw [alignUp32_eq (by norm_num) (by norm_num; omega)]
  rfl

/-- The new area starts where the area it is cut from did. -/
theorem vmaAllocInArea_start {pd flags : ℕ} {mode : VmaAllocMode} {a : VmArea}
    {areas' : List VmArea}
    (hrun : vmaAllocInArea env pd c size flags mode s = .ok (some a, areas', s')) :
    a.startVaddr = c.area.startVaddr := by
  unfold vmaAllocInArea at hrun
  obtain ⟨⟨split, s₁⟩, hsplit, hrun⟩ := bind_eq_ok.mp hrun
  cases split with
  | none => cases (Prod.mk.inj (Except.ok.inj hrun)).1
  | some c' =>
    have hstart : c'.area.startVaddr = c.area.startVaddr := by
      unfold vmaSplitArea at hsplit
      simp only at hsplit
      split at hsplit
      · cases (Prod.mk.inj (Except.ok.inj hsplit)).1
      · split at hsplit
        · obtain rfl := Option.some.inj (Prod.mk.inj (Except.ok.inj hsplit)).1
          rfl
        · obtain ⟨⟨addr, s₂⟩, -, hsplit⟩ := bind_eq_ok.mp hsplit
          simp only at hsplit
          split at hsplit
          · cases (Prod.mk.inj (Except.ok.inj hsplit)).1
          · obtain rfl := Option.some.inj (Prod.mk.inj (Except.ok.inj hsplit)).1
            rfl
    simp only at hrun
    obtain ⟨⟨addr, s₂⟩, -, hrun⟩ := bind_eq_ok.mp hrun
    simp only at hrun
    split at hrun
    · -- the page array cannot be allocated
      obtain ⟨⟨areas₁, s₃⟩, -, hok⟩ := bind_eq_ok.mp hrun
      cases (Prod.mk.inj (Except.ok.inj hok)).1
    · cases mode with
      | lazy =>
        obtain rfl := Option.some.inj (Prod.mk.inj (Except.ok.inj hrun)).1
        exact hstart
      | eager =>
        obtain ⟨⟨ok, area, s₃⟩, hmap, hrun⟩ := bind_eq_ok.mp hrun
        cases ok with
        | true =>
          obtain rfl := Option.some.inj (Prod.mk.inj (Except.ok.inj hrun)).1
          exact (vmaMapArea_area hmap).1.trans hstart
        | false =>
          obtain ⟨⟨areas₁, s₄⟩, -, hok⟩ := bind_eq_ok.mp hrun
          cases (Prod.mk.inj (Except.ok.inj hok)).1

/-- An area that is too small for the rounded size is not touched. -/
theorem vmaAllocInArea_small {pd flags : ℕ} {mode : VmaAllocMode}
    (hsmall : c.area.size < alignUp32 size 12) :
    vmaAllocInArea env pd c size flags mode s = .ok (none, c.toList, s) := by
  have hsplit : vmaSplitArea env c size s = .ok (none, s) := if_pos hsmall
  unfold vmaAllocInArea
  rw [hsplit, ok_bind]

/-- What `vma_first_fit_alloc` finds: a free area of the size asked for, and no earlier one. -/
theorem vmaFirstFitAlloc_first (h : vmaFirstFitAlloc size areas = some c) :
    ∃ front, areas = front ++ c.area :: c.after ∧
      ∀ a ∈ front, a.state = .free → a.size < size := by
  obtain ⟨front, heq, hfront⟩ := findArea_first h
  refine ⟨front, heq, fun a ha hfree => ?_⟩
  have hp := hfront a ha
  simp only [hfree, beq_self_eq_true, Bool.and_true, decide_eq_false_iff_not] at hp
  exact not_le.mp hp

theorem vmaFirstFitAlloc_none (h : vmaFirstFitAlloc size areas = none) :
    ∀ a ∈ areas, a.state = .free → a.size < size := by
  intro a ha hfree
  have hp := findArea_eq_none h a ha
  simp only [hfree, beq_self_eq_true, Bool.and_true, decide_eq_false_iff_not] at hp
  exact not_le.mp hp

/-- What `vma_alloc` looks at: the area at the hint, or the areas in order. -/
theorem vmaFindFree_cases (hfind : vmaFindFree areas size hint = some c) :
    (hint ≠ 0 ∧ c.area.startVaddr = hint) ∨
      vmaFirstFitAlloc size areas = some c ∧
        (hint ≠ 0 → ∀ c', vmaFindByStart hint areas = some c' →
          c'.area.state = .free → c'.area.size < size) := by
  unfold vmaFindFree at hfind
  split at hfind
  next hnone =>
    refine .inr ⟨hfind, fun hne c' hc' => ?_⟩
    rw [if_neg hne, hc'] at hnone
    cases hnone
  next c₀ hsome =>
    by_cases hzero : hint = 0
    · rw [if_pos hzero] at hsome
      cases hsome
    rw [if_neg hzero] at hsome
    split at hfind
    next hbad =>
      refine .inr ⟨hfind, fun _ c' hc' hfree => ?_⟩
      obtain rfl := Option.some.inj (hsome.symm.trans hc')
      exact hbad.resolve_left fun hne => hne hfree
    next =>
      obtain rfl := Option.some.inj hfind
      exact .inl ⟨hzero, by simpa using (findArea_some hsome).2⟩

theorem vmaFindFree_none (hfind : vmaFindFree areas size hint = none) :
    vmaFirstFitAlloc size areas = none := by
  unfold vmaFindFree at hfind
  split at hfind
  · exact hfind
  · split at hfind
    · exact hfind
    · cases hfind

/-- No free area of the size asked for fits, unless it is the last one. -/
theorem VmaInv.fits_of_size (h : VmaInv start stop areas)
    (hstarts : ∀ a ∈ areas, 4096 ∣ a.startVaddr) {a : VmArea} (ha : a ∈ areas)
    (hend : 4096 ∣ stop ∨ a.startVaddr + a.size ≠ stop) (hsize : size ≤ a.size) :
    wholePages size ≤ a.size := by
  have hstop : 4096 ∣ a.startVaddr + a.size := by
    rcases h.end_cases ha with hlast | ⟨b, hb, hnext⟩
    · rcases hend with hdvd | hne
      · exact hlast ▸ hdvd
      · exact absurd hlast hne
    · exact hnext ▸ hstarts b hb
  exact (wholePages_le_iff ((Nat.dvd_add_right (hstarts a ha)).mp hstop)).mpr hsize

/-- **The first fit**: where the area found does not hold the rounded size, no free area does. -/
theorem VmaInv.firstFit_complete (h : VmaInv start stop areas)
    (hstarts : ∀ a ∈ areas, 4096 ∣ a.startVaddr) (hfind : vmaFirstFitAlloc size areas = some c)
    (hsmall : c.area.size < wholePages size) (hsize : size ≤ c.area.size) :
    ¬ ∃ a ∈ areas, a.Fits size := by
  obtain ⟨front, hlist, hfront⟩ := vmaFirstFitAlloc_first hfind
  have hmem : c.area ∈ areas := hlist ▸ List.mem_append_right _ List.mem_cons_self
  -- only the last area can be too small for the rounded size
  have hlast : c.area.startVaddr + c.area.size = stop := by
    by_contra hne
    exact absurd (h.fits_of_size hstarts hmem (.inr hne) hsize) (not_le.mpr hsmall)
  intro hfits
  obtain ⟨a, ha, hfree, hfit⟩ := hfits
  have hle := size_le_wholePages size
  have hplace := h.tiles.mem ha
  have hpair := hlist ▸ h.tiles.pairwise
  rw [hlist] at ha
  rcases List.mem_append.mp ha with hbefore | ha
  · have := hfront a hbefore hfree
    omega
  · rcases List.mem_cons.mp ha with rfl | hafter
    · omega
    · have := (List.pairwise_cons.mp (List.pairwise_append.mp hpair).2.1).1 a hafter
      omega

/-- The first fit is the lowest free area that fits. -/
theorem VmaInv.firstFit_lowest (h : VmaInv start stop areas)
    (hfind : vmaFirstFitAlloc size areas = some c) :
    ∀ a ∈ areas, a.Fits size → c.area.startVaddr ≤ a.startVaddr := by
  obtain ⟨front, hlist, hfront⟩ := vmaFirstFitAlloc_first hfind
  intro a ha hfits
  have hle := size_le_wholePages size
  have hpair := hlist ▸ h.tiles.pairwise
  rw [hlist] at ha
  rcases List.mem_append.mp ha with hbefore | ha
  · have := hfront a hbefore hfits.1
    have := hfits.2
    omega
  · rcases List.mem_cons.mp ha with rfl | hafter
    · exact le_rfl
    · have := (List.pairwise_cons.mp (List.pairwise_append.mp hpair).2.1).1 a hafter
      omega

/-- **The area that is taken** is placed as the rule says. -/
theorem VmaInv.vmaFindFree_placed (h : VmaInv start stop areas)
    (hfind : vmaFindFree areas size hint = some c) (hfits : c.area.Fits size) :
    Placed areas size hint c.area.startVaddr := by
  have hmem : c.area ∈ areas := by
    rw [← (vmaFindFree_some hfind).1]
    exact VmaCursor.mem_toList.mpr (Or.inr (Or.inl rfl))
  rcases vmaFindFree_cases hfind with ⟨-, hhint⟩ | ⟨hfirst, hother⟩
  · exact ⟨fun _ => hhint, fun hnone => absurd ⟨c.area, hmem, hfits, hhint⟩ hnone⟩
  · have hlow := h.firstFit_lowest hfirst
    refine ⟨fun hat => ?_, fun _ => ⟨⟨c.area, hmem, hfits, rfl⟩, hlow⟩⟩
    obtain ⟨a, ha, hafits, hahint⟩ := hat
    by_cases hzero : hint = 0
    · -- nothing starts below address 0
      have := hlow a ha hafits
      omega
    · cases hat : vmaFindByStart hint areas with
      | none => exact absurd hat (findArea_ne_none ha (by simp [hahint]))
      | some c' =>
        obtain ⟨hlist, hstart⟩ := findArea_some hat
        have hmem' : c'.area ∈ areas := by
          rw [show areas = c'.toList from hlist.symm]
          exact VmaCursor.mem_toList.mpr (Or.inr (Or.inl rfl))
        have hsame : c'.area = a := h.eq_of_start hmem' ha (by rw [hahint]; simpa using hstart)
        have hsmall := hother hzero c' hat (hsame ▸ hafits.1)
        have hle := size_le_wholePages size
        have hfit := hafits.2
        rw [hsame] at hsmall
        omega

end Place

section Complete

variable {σ τ : Type} {env : VmaEnv σ} {env' : VmaEnv τ} {start stop : ℕ} {r : VmaRun σ}
  {size hint : ℕ}

/-- **Placement is complete and first-fit.** On every area list of a run, over services that do not
fail, an allocation succeeds exactly if a free area holds the rounded size. The new area has that size
and is placed as the rule says. With an end that is not at a page this is about calls without a
hint. -/
theorem vma_placement (henv : env'.NeverFails) (hstart : 4096 ∣ start) (hlt : start < stop)
    (hstop : stop < 2 ^ 32) (hrange : stop - start ≤ 0xFFFFF000)
    (hr : (vmaSystem env start stop).Reachable r) (hpos : 1 ≤ size)
    (hhint : 4096 ∣ stop ∨ hint = 0) (pd pteFlags : ℕ) (allocMode : VmaAllocMode) (s : τ) :
    ∃ ret areas s', vmaAlloc env' r.areas pd size pteFlags hint allocMode s = .ok (ret, areas, s') ∧
      (ret ≠ none ↔ ∃ a ∈ r.areas, a.Fits size) ∧
      ∀ area ∈ ret, area.size = wholePages size ∧ Placed r.areas size hint area.startVaddr := by
  have hpaged := VmaRun.Paged.of_reachable hstart hlt hstop hrange hr
  have hstarts := hpaged.starts hstart
  have hinv := hpaged.inv.inv
  have hle := size_le_wholePages size
  cases hfind : vmaFindFree r.areas size hint with
  | none =>
    have hrun : vmaAlloc env' r.areas pd size pteFlags hint allocMode s =
        .ok (none, r.areas, s) := by
      unfold vmaAlloc
      rw [hfind]
    refine ⟨none, r.areas, s, hrun, ⟨fun hne => absurd rfl hne, fun hfits => ?_⟩, fun a ha => ?_⟩
    · obtain ⟨a, ha, hfree, hfit⟩ := hfits
      have := vmaFirstFitAlloc_none (vmaFindFree_none hfind) a ha hfree
      omega
    · cases ha
  | some c =>
    obtain ⟨hlist, hfree, hsize⟩ := vmaFindFree_some hfind
    have hmem : c.area ∈ r.areas := hlist ▸ VmaCursor.mem_toList.mpr (Or.inr (Or.inl rfl))
    have hplace := hinv.tiles.mem hmem
    have hround : alignUp32 size 12 = wholePages size := alignUp32_wholePages (by omega)
    by_cases hfit : wholePages size ≤ c.area.size
    · have hsucceeds : ∃ area areas s',
          vmaAllocInArea env' pd c size pteFlags allocMode s = .ok (some area, areas, s') :=
        henv.vmaAllocInArea_eq (hround ▸ hfit)
      obtain ⟨area, areas, s', halloc⟩ := hsucceeds
      have hrun : vmaAlloc env' r.areas pd size pteFlags hint allocMode s =
          .ok (some area, areas, s') := by
        unfold vmaAlloc
        rw [hfind]
        exact halloc
      refine ⟨some area, areas, s', hrun, ⟨fun _ => ⟨c.area, hmem, hfree, hfit⟩, fun _ => by simp⟩,
        fun a ha => ?_⟩
      obtain rfl := Option.some.inj ha
      have hres := (hlist ▸ hinv).vmaAllocInArea_spec hstop hfree hpos (by omega) halloc
      rw [vmaAllocInArea_start halloc, (hres.size area rfl).2, hround]
      exact ⟨rfl, hinv.vmaFindFree_placed hfind ⟨hfree, hfit⟩⟩
    · have hsmall : c.area.size < wholePages size := not_le.mp hfit
      have hrun : vmaAlloc env' r.areas pd size pteFlags hint allocMode s =
          .ok (none, c.toList, s) := by
        unfold vmaAlloc
        rw [hfind]
        exact vmaAllocInArea_small (hround ▸ hsmall)
      -- an area that is too small can only come from the search without a hint
      have hfirst : vmaFirstFitAlloc size r.areas = some c := by
        rcases vmaFindFree_cases hfind with ⟨hne, -⟩ | ⟨hfirst, -⟩
        · have hdvd := hhint.resolve_right hne
          exact absurd (hinv.fits_of_size hstarts hmem (.inl hdvd) hsize) hfit
        · exact hfirst
      refine ⟨none, c.toList, s, hrun, ⟨fun hne => absurd rfl hne, fun hfits => ?_⟩,
        fun a ha => ?_⟩
      · exact absurd hfits (hinv.firstFit_complete hstarts hfirst hsmall hsize)
      · cases ha

end Complete

/-- Services that succeed. -/
def steadyEnv : VmaEnv Unit where
  kmalloc _ _ s := .ok (0x1000, s)
  kfree _ s := .ok s
  buddyAllocPages _ _ s := .ok (0x1000, s)
  buddyFreeBlock _ s := .ok s
  vmmMapPage _ _ _ _ s := .ok (true, s)
  vmmUnmapPage _ _ s := .ok (true, s)

theorem steadyEnv_neverFails : steadyEnv.NeverFails where
  kmalloc _ _ s := ⟨0x1000, s, rfl, by decide⟩
  kfree _ s := ⟨s, rfl⟩
  buddyAllocPages _ _ s := ⟨0x1000, s, rfl, by decide⟩
  buddyFreeBlock _ s := ⟨s, rfl⟩
  vmmMapPage _ _ _ _ s := ⟨s, rfl⟩
  vmmUnmapPage _ _ s := ⟨(true, s), rfl⟩

/-- A page asked for without a hint in a range that does not end at a page, after two allocations and
the destruction of the first. -/
theorem vma_placement_afterDestroy : ∃ r, (vmaSystem bumpEnv 0x10000 0x20100).Reachable r ∧
    r.areas.map (fun a => (a.startVaddr, a.size, a.state)) =
      [(0x10000, 0x1000, .free), (0x11000, 0x1000, .lazy), (0x12000, 0xE100, .free)] ∧
    ∃ area areas s', vmaAlloc steadyEnv r.areas 0 100 7 0 .lazy () = .ok (some area, areas, s') ∧
      area.size = 0x1000 ∧ Placed r.areas 100 0 area.startVaddr := by
  have hrun : ((vmaInitArea bumpEnv 0x10000 0x20100 0x1000).toOption.bind fun out =>
      ([.alloc 0 1 7 0 .lazy, .alloc 0 1 7 0 .lazy, .destroy 0 0x10000] : List VmaCall).foldlM
        (fun r call => (vmaStep bumpEnv r call).toOption)
        { areas := out.1, state := out.2, live := [] }).map
          (fun r => r.areas.map fun a => (a.startVaddr, a.size, a.state)) =
      some [(0x10000, 0x1000, .free), (0x11000, 0x1000, .lazy), (0x12000, 0xE100, .free)] := by
    decide +kernel
  obtain ⟨r, hbind, hareas⟩ := Option.map_eq_some_iff.mp hrun
  obtain ⟨out, hinit, hfold⟩ := Option.bind_eq_some_iff.mp hbind
  simp only [List.foldlM_cons, List.foldlM_nil, Option.bind_eq_bind,
    Option.bind_eq_some_iff] at hfold
  obtain ⟨r₁, h₁, r₂, h₂, r₃, h₃, heq⟩ := hfold
  obtain rfl : r₃ = r := Option.some.inj heq
  have hvalid : (VmaCall.alloc 0 1 7 0 .lazy).Valid := (by decide : 1 ≤ 1)
  have hdestroy : (VmaCall.destroy 0 0x10000).Valid := trivial
  have hreach₁ : (vmaSystem bumpEnv 0x10000 0x20100).Reachable r₁ :=
    .step (.init ⟨⟨0x1000, eq_ok_of_toOption hinit⟩, rfl⟩) ⟨hvalid, eq_ok_of_toOption h₁⟩
  have hreach : (vmaSystem bumpEnv 0x10000 0x20100).Reachable r₃ :=
    .step (.step hreach₁ ⟨hvalid, eq_ok_of_toOption h₂⟩) ⟨hdestroy, eq_ok_of_toOption h₃⟩
  obtain ⟨ret, areas, s', hsucc, hiff, hplaced⟩ := vma_placement steadyEnv_neverFails (by decide)
    (by decide) (by decide) (by decide) hreach (by decide : 1 ≤ 100) (.inr rfl) 0 7 .lazy ()
  have hfits : ∃ a ∈ r₃.areas, a.Fits 100 := by
    have hfirst : (0x10000, 0x1000, VmAreaState.free) ∈
        r₃.areas.map fun a => (a.startVaddr, a.size, a.state) := by
      rw [hareas]
      exact List.mem_cons_self
    obtain ⟨a, ha, hview⟩ := List.mem_map.mp hfirst
    obtain ⟨-, hrest⟩ := Prod.mk.inj hview
    obtain ⟨hsize, hstate⟩ := Prod.mk.inj hrest
    exact ⟨a, ha, hstate, by rw [hsize]; decide⟩
  cases ret with
  | none => exact absurd rfl (hiff.mpr hfits)
  | some area =>
    obtain ⟨hsize, hplace⟩ := hplaced area rfl
    exact ⟨r₃, hreach, hareas, area, areas, s', hsucc, hsize.trans (by decide), hplace⟩

end Kfs.Memory
