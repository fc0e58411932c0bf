import Kfs.Lib.Tiling
import Kfs.Memory.Vma

/-!
# Areas tile their address range

The area list of an address space is a partition of its range into areas of positive size in which
no two neighbours are free. Splitting replaces an area by two that fill the same range, destroying
turns an area into a free one and merges it with its free neighbours; both are statements about a
cursor, with no condition between the area and its neighbours.
-/

namespace Kfs.Memory

open Kfs.Lib Kfs.Lib.Word32

/-! ## The invariant -/

/-- Not both areas are free. -/
def NotBothFree (a b : VmArea) : Prop := ¬ (a.state = .free ∧ b.state = .free)

theorem NotBothFree.symm {a b : VmArea} (h : NotBothFree a b) : NotBothFree b a :=
  fun hc => h ⟨hc.2, hc.1⟩

/-- The invariant of an area list. -/
structure VmaInv (start stop : ℕ) (areas : List VmArea) : Prop where
  tiles : Tiles VmArea.startVaddr VmArea.size start stop areas
  chain : areas.IsChain NotBothFree
  aligned : ∀ area ∈ areas, area.state ≠ .free → 4096 ∣ area.size

/-! ## Cursors -/

/-- The invariant around an area that may violate it with its neighbours. -/
structure CursorInv (start stop : ℕ) (c : VmaCursor) : Prop where
  tiles : Tiles VmArea.startVaddr VmArea.size start stop c.toList
  before : c.before.IsChain NotBothFree
  after : c.after.IsChain NotBothFree
  aligned : ∀ area, area ∈ c.before ∨ area ∈ c.after → area.state ≠ .free → 4096 ∣ area.size

theorem VmaCursor.mem_toList {c : VmaCursor} {a : VmArea} :
    a ∈ c.toList ↔ a ∈ c.before ∨ a = c.area ∨ a ∈ c.after := by
  simp [VmaCursor.toList]

/-- The links of a cursor's list. -/
theorem VmaCursor.isChain_toList {c : VmaCursor} :
    c.toList.IsChain NotBothFree ↔ c.before.IsChain NotBothFree ∧ c.after.IsChain NotBothFree ∧
      (∀ a ∈ c.before.head?, NotBothFree a c.area) ∧ ∀ a ∈ c.after.head?, NotBothFree c.area a := by
  unfold VmaCursor.toList
  have hflip : (fun a b => NotBothFree b a) = NotBothFree := by
    funext a b
    exact propext ⟨NotBothFree.symm, NotBothFree.symm⟩
  rw [List.isChain_append, List.isChain_reverse, List.isChain_cons, List.getLast?_reverse, hflip]
  simp only [List.head?_cons, Option.mem_some_iff, forall_eq']
  tauto

section Specs

variable {start stop : ℕ} {c : VmaCursor}

/-- Where the area of a cursor lies. -/
theorem CursorInv.area_mem (h : CursorInv start stop c) :
    start ≤ c.area.startVaddr ∧ 0 < c.area.size ∧ c.area.startVaddr + c.area.size ≤ stop :=
  h.tiles.mem (VmaCursor.mem_toList.mpr (Or.inr (Or.inl rfl)))

/-- Replacing the area and the side after it by a tiling of the same range. -/
theorem CursorInv.replace (h : CursorInv start stop c) {area : VmArea} {after : List VmArea}
    (htiles : ∀ a b, Tiles VmArea.startVaddr VmArea.size a b (c.area :: c.after) →
      Tiles VmArea.startVaddr VmArea.size a b (area :: after))
    (hafter : after.IsChain NotBothFree)
    (haligned : ∀ a ∈ after, a.state ≠ .free → 4096 ∣ a.size) :
    CursorInv start stop { c with area := area, after := after } where
  tiles := by
    obtain ⟨m, h₁, h₂⟩ := tiles_append.mp h.tiles
    exact tiles_append.mpr ⟨m, h₁, htiles m stop h₂⟩
  before := h.before
  after := hafter
  aligned a ha hne := by
    rcases ha with hb | ha
    · exact h.aligned a (Or.inl hb) hne
    · exact haligned a ha hne

/-- Changing anything but the place of the area. -/
theorem CursorInv.setArea (h : CursorInv start stop c) {area : VmArea}
    (hstart : area.startVaddr = c.area.startVaddr) (hsize : area.size = c.area.size) :
    CursorInv start stop { c with area := area } := by
  refine h.replace (fun a b ht => ?_) h.after fun a ha => h.aligned a (Or.inr ha)
  simp only [Tiles, hstart, hsize] at ht ⊢
  exact ht

/-- An area that respects its neighbours closes the gap. -/
theorem CursorInv.vmaInv (h : CursorInv start stop c)
    (hprev : ∀ a ∈ c.before.head?, NotBothFree a c.area)
    (hnext : ∀ a ∈ c.after.head?, NotBothFree c.area a)
    (haligned : c.area.state ≠ .free → 4096 ∣ c.area.size) : VmaInv start stop c.toList where
  tiles := h.tiles
  chain := VmaCursor.isChain_toList.mpr ⟨h.before, h.after, hprev, hnext⟩
  aligned a ha hne := by
    rcases VmaCursor.mem_toList.mp ha with hb | rfl | ha
    · exact h.aligned a (Or.inl hb) hne
    · exact haligned hne
    · exact h.aligned a (Or.inr ha) hne

/-- A cursor into a list that meets the invariant. -/
theorem VmaInv.cursorInv (h : VmaInv start stop c.toList) : CursorInv start stop c where
  tiles := h.tiles
  before := (VmaCursor.isChain_toList.mp h.chain).1
  after := (VmaCursor.isChain_toList.mp h.chain).2.1
  aligned a ha := h.aligned a (VmaCursor.mem_toList.mpr (by tauto))

/-- `findArea` stops at an area of the list that meets the condition. -/
theorem findArea_some {p : VmArea → Bool} {before areas : List VmArea}
    (h : findArea p before areas = some c) :
    c.toList = before.reverse ++ areas ∧ p c.area = true := by
  induction areas generalizing before with
  | nil => cases h
  | cons area areas ih =>
    rw [findArea] at h
    cases hp : p area with
    | true =>
      rw [hp] at h
      obtain rfl := Option.some.inj h
      exact ⟨rfl, hp⟩
    | false =>
      rw [hp] at h
      obtain ⟨hlist, hmeets⟩ := ih h
      refine ⟨?_, hmeets⟩
      rw [hlist, List.reverse_cons, List.append_assoc, List.singleton_append]

/-- `findArea` finds an area if there is one. -/
theorem findArea_ne_none {p : VmArea → Bool} {before areas : List VmArea} {area : VmArea}
    (hmem : area ∈ areas) (hp : p area = true) : findArea p before areas ≠ none := by
  induction areas generalizing before with
  | nil => cases hmem
  | cons a areas ih =>
    rw [findArea]
    cases hpa : p a with
    | true => simp
    | false =>
      simp only [Bool.false_eq_true, if_false]
      rcases List.mem_cons.mp hmem with rfl | hmem
      · rw [hp] at hpa
        cases hpa
      · exact ih hmem

/-- What a list with a free cursor holds besides it. -/
theorem VmaCursor.mem_of_free (hfree : c.area.state = .free) {a : VmArea} (hne : a.state ≠ .free) :
    a ∈ c.toList ↔ a ∈ c.before ∨ a ∈ c.after := by
  rw [VmaCursor.mem_toList]
  constructor
  · rintro (hb | rfl | ha)
    · exact Or.inl hb
    · exact absurd hfree hne
    · exact Or.inr ha
  · rintro (hb | ha)
    · exact Or.inl hb
    · exact Or.inr (Or.inr ha)

/-! ## Merging -/

/-- Two free areas that follow one another become one. -/
theorem mergeNeighbor_of_free {a b : VmArea} (ha : a.state = .free) (hb : b.state = .free)
    (hadj : a.startVaddr + a.size = b.startVaddr) (hlt : b.startVaddr + b.size < 2 ^ 32) :
    mergeNeighbor a b = some { a with size := a.size + b.size } := by
  have hsum : add32 a.startVaddr a.size = b.startVaddr := by
    rw [add32_eq (by omega)]
    exact hadj
  have hsize : add32 a.size b.size = a.size + b.size := add32_eq (by omega)
  unfold mergeNeighbor vmaAreasAreNeighbors
  rw [if_neg (by simp [ha, hb]), hsum, hsize]
  simp

theorem mergeNeighbor_of_not_free {a b : VmArea} (h : NotBothFree a b) :
    mergeNeighbor a b = none := by
  unfold mergeNeighbor
  rw [if_pos]
  by_contra hc
  push Not at hc
  exact h hc

variable {σ : Type} {env : VmaEnv σ} {s s' : σ}

/-- The area of a free cursor absorbs a free successor. -/
theorem CursorInv.mergeNext_spec (h : CursorInv start stop c) (hstop : stop < 2 ^ 32)
    (hfree : c.area.state = .free) {c' : VmaCursor} (hrun : mergeNext env c s = .ok (c', s')) :
    CursorInv start stop c' ∧ c'.area.state = .free ∧ c'.before = c.before ∧
      c'.area.startVaddr = c.area.startVaddr ∧ c.area.size ≤ c'.area.size ∧
      (∀ a ∈ c'.after.head?, NotBothFree c'.area a) ∧
      ∀ a, a.state ≠ .free → (a ∈ c'.after ↔ a ∈ c.after) := by
  obtain ⟨before, area, after⟩ := c
  cases after with
  | nil =>
    obtain ⟨rfl, rfl⟩ := Prod.mk.inj (Except.ok.inj hrun)
    exact ⟨h, hfree, rfl, rfl, le_rfl, fun a ha => (nomatch ha), fun _ _ => Iff.rfl⟩
  | cons next rest =>
    simp only [mergeNext] at hrun
    by_cases hnext : next.state = .free
    · -- the two follow one another in the tiling
      obtain ⟨m, -, ht⟩ := tiles_append.mp h.tiles
      obtain ⟨hstart, hpos, hnstart, hnpos, hrest⟩ := ht
      have hle := hrest.le
      dsimp only at hstart hnstart hle
      have hmerge := mergeNeighbor_of_free hfree hnext (by dsimp only; omega) (by omega)
      rw [hmerge] at hrun
      simp only at hrun
      obtain ⟨s₁, -, hok⟩ := bind_eq_ok.mp hrun
      obtain ⟨rfl, rfl⟩ := Prod.mk.inj (Except.ok.inj hok)
      have hchain := List.isChain_cons.mp h.after
      refine ⟨?_, hfree, rfl, rfl, Nat.le_add_right _ _, fun a ha => ?_, fun a hne => ?_⟩
      · refine h.replace (fun a b ht => ?_) hchain.2 fun a ha => h.aligned a (Or.inr ?_)
        · simp only [Tiles] at ht ⊢
          obtain ⟨h1, h2, h3, h4, h5⟩ := ht
          refine ⟨h1, by omega, ?_⟩
          rw [show a + (area.size + next.size) = a + area.size + next.size by omega]
          exact h5
        · exact List.mem_cons_of_mem next ha
      · -- the successor of a free area is not free
        exact fun hc => hchain.1 a ha ⟨hnext, hc.2⟩
      · simp only [List.mem_cons]
        constructor
        · exact Or.inr
        · rintro (rfl | hmem)
          · exact absurd hnext hne
          · exact hmem
    · have hnot : NotBothFree area next := fun hc => hnext hc.2
      rw [mergeNeighbor_of_not_free hnot] at hrun
      obtain ⟨rfl, rfl⟩ := Prod.mk.inj (Except.ok.inj hrun)
      refine ⟨h, hfree, rfl, rfl, le_rfl, fun a ha => ?_, fun _ _ => Iff.rfl⟩
      obtain rfl := Option.some.inj ha
      exact hnot

/-- A free predecessor absorbs the area of a free cursor. -/
theorem CursorInv.mergePrev_spec (h : CursorInv start stop c) (hstop : stop < 2 ^ 32)
    (hfree : c.area.state = .free) (hnext : ∀ a ∈ c.after.head?, NotBothFree c.area a)
    {areas : List VmArea} (hrun : mergePrev env c s = .ok (areas, s')) :
    VmaInv start stop areas ∧
      (∃ f ∈ areas, f.state = .free ∧ f.startVaddr ≤ c.area.startVaddr ∧
        c.area.startVaddr + c.area.size ≤ f.startVaddr + f.size) ∧
      ∀ a, a.state ≠ .free → (a ∈ areas ↔ a ∈ c.before ∨ a ∈ c.after) := by
  have hself : ∀ a : VmArea, a.state ≠ .free → (a ∈ c.toList ↔ a ∈ c.before ∨ a ∈ c.after) :=
    fun a => VmaCursor.mem_of_free hfree
  have hown : c.area ∈ c.toList := VmaCursor.mem_toList.mpr (Or.inr (Or.inl rfl))
  obtain ⟨before, area, after⟩ := c
  -- The neighbour below, if there is one, is the head of `before`.
  cases before with
  | nil =>
    obtain ⟨rfl, rfl⟩ := Prod.mk.inj (Except.ok.inj hrun)
    exact ⟨h.vmaInv (fun a ha => (nomatch ha)) hnext fun hne => absurd hfree hne,
      ⟨area, hown, hfree, le_rfl, le_rfl⟩, hself⟩
  | cons prev rest =>
    simp only [mergePrev] at hrun
    by_cases hprev : prev.state = .free
    · -- Two free neighbours meet at `m`, where the first ends and the second starts.
      obtain ⟨m, hbefore, ht⟩ := tiles_append.mp h.tiles
      rw [List.reverse_cons] at hbefore
      obtain ⟨k, hrest, hpstart, hppos, hpend⟩ := tiles_append.mp hbefore
      obtain ⟨hstart, hpos, hafter⟩ := ht
      have hle := hafter.le
      have hend : k + prev.size = m := hpend
      dsimp only at hstart hle
      have hmerge := mergeNeighbor_of_free hprev hfree (by dsimp only; omega) (by dsimp only; omega)
      rw [hmerge] at hrun
      simp only at hrun
      obtain ⟨s₁, -, hok⟩ := bind_eq_ok.mp hrun
      obtain ⟨rfl, rfl⟩ := Prod.mk.inj (Except.ok.inj hok)
      have hchain := List.isChain_cons.mp h.before
      -- The sum of the two tiles what both tiled.
      have hinv : CursorInv start stop
          { before := rest, area := { prev with size := prev.size + area.size }, after := after } := {
        tiles := by
          refine tiles_append.mpr ⟨k, hrest, hpstart, Nat.add_pos_left hppos _, ?_⟩
          show Tiles VmArea.startVaddr VmArea.size (k + (prev.size + area.size)) stop after
          rw [← Nat.add_assoc, hend]
          exact hafter
        before := hchain.2
        after := h.after
        aligned := fun a ha => h.aligned a (ha.imp_left (List.mem_cons_of_mem prev)) }
      refine ⟨hinv.vmaInv (fun a ha hc => hchain.1 a ha ⟨hprev, hc.1⟩)
          (fun a ha hc => hnext a ha ⟨hfree, hc.2⟩) fun hne => absurd hprev hne, ?_, fun a hne => ?_⟩
      · -- The merged area covers the one that was freed.
        refine ⟨{ prev with size := prev.size + area.size }, ?_, hprev, ?_, ?_⟩
        · simp
        · dsimp only
          omega
        · dsimp only
          omega
      · -- Both were free, so that the areas in use are the same.
        simp only [List.mem_append, List.mem_reverse, List.mem_cons]
        constructor
        · rintro (hmem | rfl | hmem)
          · exact Or.inl (Or.inr hmem)
          · exact absurd hprev hne
          · exact Or.inr hmem
        · rintro ((rfl | hmem) | hmem)
          · exact absurd hprev hne
          · exact Or.inl hmem
          · exact Or.inr (Or.inr hmem)
    · have hnot : NotBothFree prev area := fun hc => hprev hc.1
      rw [mergeNeighbor_of_not_free hnot] at hrun
      obtain ⟨rfl, rfl⟩ := Prod.mk.inj (Except.ok.inj hrun)
      refine ⟨h.vmaInv (fun a ha => ?_) hnext fun hne => absurd hfree hne,
        ⟨area, hown, hfree, le_rfl, le_rfl⟩, hself⟩
      obtain rfl := Option.some.inj ha
      exact hnot

/-! ## Destroying an area -/

/-- **`vma_merge_area`** on a free area: its range stays free, and the areas in use stay as they
are. -/
theorem CursorInv.vmaMergeArea_spec (h : CursorInv start stop c) (hstop : stop < 2 ^ 32)
    (hstate : c.area.state = .free) {areas : List VmArea}
    (hrun : vmaMergeArea env c s = .ok (areas, s')) :
    VmaInv start stop areas ∧
      (∃ f ∈ areas, f.state = .free ∧ f.startVaddr ≤ c.area.startVaddr ∧
        c.area.startVaddr + c.area.size ≤ f.startVaddr + f.size) ∧
      ∀ a, a.state ≠ .free → (a ∈ areas ↔ a ∈ c.before ∨ a ∈ c.after) := by
  unfold vmaMergeArea at hrun
  obtain ⟨⟨c', s₂⟩, hnext, hrun⟩ := bind_eq_ok.mp hrun
  obtain ⟨hinv, hfree, hbefore, hstart, hsize, hhead, hafter⟩ :=
    h.mergeNext_spec hstop hstate hnext
  obtain ⟨hres, ⟨f, hf, hffree, hflo, hfhi⟩, hmem⟩ :=
    hinv.mergePrev_spec hstop hfree hhead hrun
  refine ⟨hres, ⟨f, hf, hffree, ?_, ?_⟩, fun a hne => ?_⟩
  · exact hstart ▸ hflo
  · omega
  · rw [hmem a hne, hbefore, hafter a hne]

/-- **`vma_destroy_area`** turns the range of the area into free space and leaves the other areas
in use as they are. -/
theorem CursorInv.vmaDestroyArea_spec (h : CursorInv start stop c) (hstop : stop < 2 ^ 32) {pd : ℕ}
    {areas : List VmArea} (hrun : vmaDestroyArea env c pd s = .ok (areas, s')) :
    VmaInv start stop areas ∧
      (∃ f ∈ areas, f.state = .free ∧ f.startVaddr ≤ c.area.startVaddr ∧
        c.area.startVaddr + c.area.size ≤ f.startVaddr + f.size) ∧
      ∀ a, a.state ≠ .free → (a ∈ areas ↔ a ∈ c.before ∨ a ∈ c.after) := by
  unfold vmaDestroyArea at hrun
  obtain ⟨s₁, -, hrun⟩ := bind_eq_ok.mp hrun
  have hset : CursorInv start stop { c with area := { c.area with
      pages := none, nrPages := 0, state := .free, pteFlags := 0 } } := h.setArea rfl rfl
  exact hset.vmaMergeArea_spec hstop rfl hrun

/-! ## Splitting an area -/

/-- Rounding a size up to whole pages. -/
theorem alignUp32_page {size : ℕ} (hle : size ≤ 0xFFFFF000) :
    4096 ∣ alignUp32 size 12 ∧ size ≤ alignUp32 size 12 := by
  rw [alignUp32_eq (by norm_num) (by norm_num; omega)]
  refine ⟨Dvd.intro_left _ rfl, ?_⟩
  norm_num
  omega

/-- **`vma_split_area`** puts an allocated area in front of the rest of a free one. -/
theorem VmaInv.vmaSplitArea_spec (h : VmaInv start stop c.toList) (hstop : stop < 2 ^ 32)
    (hfree : c.area.state = .free) {size : ℕ} (hpos : 1 ≤ size) (hle : size ≤ 0xFFFFF000)
    {c' : VmaCursor} (hrun : vmaSplitArea env c size s = .ok (some c', s')) :
    CursorInv start stop c' ∧ c'.area.state = .allocated ∧
      c'.area.startVaddr = c.area.startVaddr ∧ c'.area.size = alignUp32 size 12 ∧
      c'.before = c.before ∧ ∀ a, a.state ≠ .free → (a ∈ c'.after ↔ a ∈ c.after) := by
  have hcur := h.cursorInv
  obtain ⟨hdvd, hsize⟩ := alignUp32_page hle
  obtain ⟨-, -, hend⟩ := hcur.area_mem
  unfold vmaSplitArea at hrun
  simp only at hrun
  generalize hneeded : alignUp32 size 12 = needed at hrun hdvd hsize ⊢
  -- The size is rounded up to pages before it is compared.
  by_cases hgt : needed > c.area.size
  · rw [if_pos hgt] at hrun
    cases hrun
  rw [if_neg hgt] at hrun
  by_cases heq : needed = c.area.size
  · -- the whole area is taken
    rw [if_pos heq] at hrun
    obtain ⟨hc, -⟩ := Prod.mk.inj (Except.ok.inj hrun)
    obtain rfl := Option.some.inj hc
    exact ⟨hcur.setArea rfl rfl, rfl, rfl, heq.symm, rfl, fun _ _ => Iff.rfl⟩
  · rw [if_neg heq] at hrun
    obtain ⟨⟨addr, s₁⟩, -, hrun⟩ := bind_eq_ok.mp hrun
    simp only at hrun
    -- The rest gets a node of its own, if there is memory for one.
    by_cases hnull : addr = 0
    · rw [if_pos hnull] at hrun
      cases hrun
    · rw [if_neg hnull] at hrun
      obtain ⟨hc, -⟩ := Prod.mk.inj (Except.ok.inj hrun)
      obtain rfl := Option.some.inj hc
      have hstart' : add32 c.area.startVaddr needed = c.area.startVaddr + needed :=
        add32_eq (by omega)
      have hsize' : sub32 c.area.size needed = c.area.size - needed :=
        sub32_eq (by omega) (by omega)
      refine ⟨?_, rfl, rfl, rfl, rfl, fun a hne => ?_⟩
      · refine hcur.replace (fun a b ht => ?_) ?_ fun a ha hne => ?_
        · -- the two parts fill the range of the old area
          obtain ⟨h1, h2, h3⟩ := ht
          refine ⟨h1, show 0 < needed by omega, ?_, ?_, ?_⟩
          · show add32 c.area.startVaddr needed = a + needed
            rw [hstart', h1]
          · show 0 < sub32 c.area.size needed
            omega
          · show Tiles VmArea.startVaddr VmArea.size (a + needed + sub32 c.area.size needed) b c.after
            rw [hsize', show a + needed + (c.area.size - needed) = a + c.area.size by omega]
            exact h3
        · refine List.isChain_cons.mpr ⟨fun a ha hc => ?_, hcur.after⟩
          exact (VmaCursor.isChain_toList.mp h.chain).2.2.2 a ha ⟨hfree, hc.2⟩
        · rcases List.mem_cons.mp ha with rfl | ha
          · exact absurd hfree hne
          · exact hcur.aligned a (Or.inr ha) hne
      · simp only [List.mem_cons]
        constructor
        · rintro (rfl | ha)
          · exact absurd hfree hne
          · exact ha
        · exact Or.inr

/-! ## Allocating in an area -/

/-- `vma_map_area` fills in the frames of an area and nothing else. -/
theorem vmaMapArea_area {newArea area : VmArea} {pd : ℕ} {ok : Bool}
    (hrun : vmaMapArea env newArea pd s = .ok (ok, area, s')) :
    area.startVaddr = newArea.startVaddr ∧ area.size = newArea.size ∧
      area.state = newArea.state := by
  unfold vmaMapArea at hrun
  cases hpages : newArea.pages with
  | none =>
    rw [hpages] at hrun
    cases hrun
  | some pages =>
    rw [hpages] at hrun
    obtain ⟨⟨ok₁, frames, s₁⟩, -, hrun⟩ := bind_eq_ok.mp hrun
    simp only at hrun
    cases ok₁ with
    | false =>
      simp only [Bool.not_false, if_true] at hrun
      obtain ⟨-, rfl, -⟩ := ok_triple_inj hrun
      exact ⟨rfl, rfl, rfl⟩
    | true =>
      simp only [Bool.not_true, Bool.false_eq_true, if_false] at hrun
      obtain ⟨⟨ok₂, s₂⟩, -, hrun⟩ := bind_eq_ok.mp hrun
      obtain ⟨-, rfl, -⟩ := ok_triple_inj hrun
      exact ⟨rfl, rfl, rfl⟩

/-- What an allocation leaves: a new area in use of the rounded size where it returns one, and no
other change of the areas in use. -/
structure AllocResult (start stop size : ℕ) (old : List VmArea) (ret : Option VmArea)
    (areas : List VmArea) : Prop where
  inv : VmaInv start stop areas
  size : ∀ a ∈ ret, a.state ≠ .free ∧ a.size = alignUp32 size 12
  mem : ∀ b, b.state ≠ .free → (b ∈ areas ↔ some b = ret ∨ b ∈ old)
  fresh : ∀ a ∈ ret, ∃ f ∈ old, f.state = .free ∧ f.startVaddr = a.startVaddr

/-- **`vma_alloc_in_area`**, on a free area that is large enough, with any failures. -/
theorem VmaInv.vmaAllocInArea_spec (h : VmaInv start stop c.toList) (hstop : stop < 2 ^ 32)
    (hfree : c.area.state = .free) {pd size flags : ℕ} {mode : VmaAllocMode} (hpos : 1 ≤ size)
    (hle : size ≤ 0xFFFFF000) {ret : Option VmArea} {areas : List VmArea}
    (hrun : vmaAllocInArea env pd c size flags mode s = .ok (ret, areas, s')) :
    AllocResult start stop size c.toList ret areas := by
  have hfreemem : c.area ∈ c.toList := VmaCursor.mem_toList.mpr (Or.inr (Or.inl rfl))
  unfold vmaAllocInArea at hrun
  obtain ⟨⟨split, s₁⟩, hsplit, hrun⟩ := bind_eq_ok.mp hrun
  cases split with
  | none =>
    obtain ⟨rfl, rfl, -⟩ := ok_triple_inj hrun
    exact { inv := h
            size := fun a ha => (nomatch ha)
            mem := fun b _ => by simp
            fresh := fun a ha => (nomatch ha) }
  | some c' =>
    obtain ⟨hcur, hstate, hstart, hsize, hbefore, hafter⟩ :=
      h.vmaSplitArea_spec hstop hfree hpos hle hsplit
    have hold : ∀ b, b.state ≠ .free → (b ∈ c'.before ∨ b ∈ c'.after ↔ b ∈ c.toList) := by
      intro b hne
      rw [VmaCursor.mem_of_free hfree hne, hbefore, hafter b hne]
    -- the error path gives the new area back
    have hdestroy : ∀ {area : VmArea} {s₂ s₃ : σ} {areas : List VmArea},
        area.startVaddr = c'.area.startVaddr → area.size = c'.area.size →
        vmaDestroyArea env { c' with area := area } pd s₂ = .ok (areas, s₃) →
        AllocResult start stop size c.toList none areas := by
      intro area s₂ s₃ areas h1 h2 hd
      obtain ⟨hinv, -, hmem⟩ := (hcur.setArea h1 h2).vmaDestroyArea_spec hstop hd
      exact { inv := hinv
              size := fun a ha => (nomatch ha)
              mem := fun b hne => by rw [hmem b hne, hold b hne]; simp
              fresh := fun a ha => (nomatch ha) }
    -- the success path keeps it
    have hkeep : ∀ {area : VmArea}, area.startVaddr = c'.area.startVaddr →
        area.size = c'.area.size → area.state ≠ .free →
        AllocResult start stop size c.toList (some area) { c' with area := area }.toList := by
      intro area h1 h2 h3
      refine {
        inv := (hcur.setArea h1 h2).vmaInv (fun a _ hc => h3 hc.2) (fun a _ hc => h3 hc.1)
          fun _ => ?_
        size := fun a ha => ?_
        mem := fun b hne => ?_
        fresh := fun a ha => ?_ }
      · show 4096 ∣ area.size
        rw [h2, hsize]
        exact (alignUp32_page hle).1
      · obtain rfl := Option.some.inj ha
        exact ⟨h3, h2.trans hsize⟩
      · rw [VmaCursor.mem_toList, ← hold b hne, Option.some.injEq]
        tauto
      · obtain rfl := Option.some.inj ha
        exact ⟨c.area, hfreemem, hfree, (h1.trans hstart).symm⟩
    simp only at hrun
    obtain ⟨⟨addr, s₂⟩, -, hrun⟩ := bind_eq_ok.mp hrun
    simp only at hrun
    by_cases hnull : addr = 0
    · rw [if_pos hnull] at hrun
      obtain ⟨⟨areas', s₃⟩, hd, hok⟩ := bind_eq_ok.mp hrun
      obtain ⟨rfl, rfl, -⟩ := ok_triple_inj hok
      refine hdestroy ?_ ?_ hd
      · rfl
      · rfl
    · rw [if_neg hnull] at hrun
      cases mode with
      | eager =>
        obtain ⟨⟨ok, area, s₃⟩, hmap, hrun⟩ := bind_eq_ok.mp hrun
        obtain ⟨h1, h2, h3⟩ := vmaMapArea_area hmap
        cases ok with
        | true =>
          obtain ⟨rfl, rfl, -⟩ := ok_triple_inj hrun
          refine hkeep h1 h2 ?_
          rw [h3]
          show c'.area.state ≠ .free
          rw [hstate]
          decide
        | false =>
          obtain ⟨⟨areas', s₄⟩, hd, hok⟩ := bind_eq_ok.mp hrun
          obtain ⟨rfl, rfl, -⟩ := ok_triple_inj hok
          exact hdestroy h1 h2 hd
      | lazy =>
        obtain ⟨rfl, rfl, -⟩ := ok_triple_inj hrun
        refine hkeep rfl rfl ?_
        show VmAreaState.lazy ≠ VmAreaState.free
        decide

/-- The area that `vma_alloc` takes is free and large enough. -/
theorem vmaFindFree_some {areas : List VmArea} {size hint : ℕ}
    (hfind : vmaFindFree areas size hint = some c) :
    c.toList = areas ∧ c.area.state = .free ∧ size ≤ c.area.size := by
  have hfirst : ∀ {c : VmaCursor}, vmaFirstFitAlloc size areas = some c →
      c.toList = areas ∧ c.area.state = .free ∧ size ≤ c.area.size := by
    intro c hc
    obtain ⟨hlist, hp⟩ := findArea_some hc
    simp only [Bool.and_eq_true, decide_eq_true_eq, beq_iff_eq] at hp
    exact ⟨hlist, hp.2, hp.1⟩
  unfold vmaFindFree at hfind
  split at hfind
  · exact hfirst hfind
  · next c₀ hstart =>
    split at hfind
    · exact hfirst hfind
    · next hok =>
      obtain rfl := Option.some.inj hfind
      push Not at hok
      split at hstart
      · cases hstart
      · exact ⟨(findArea_some hstart).1, hok.1, hok.2⟩

/-- **`vma_alloc`** on a list that meets the invariant. -/
theorem VmaInv.vmaAlloc_spec {areas : List VmArea} (h : VmaInv start stop areas)
    (hstop : stop < 2 ^ 32) (hrange : stop - start ≤ 0xFFFFF000) {pd size flags hint : ℕ}
    {mode : VmaAllocMode} (hpos : 1 ≤ size) {ret : Option VmArea} {areas' : List VmArea}
    (hrun : vmaAlloc env areas pd size flags hint mode s = .ok (ret, areas', s')) :
    AllocResult start stop size areas ret areas' := by
  unfold vmaAlloc at hrun
  cases hfind : vmaFindFree areas size hint with
  | none =>
    rw [hfind] at hrun
    obtain ⟨rfl, rfl, -⟩ := ok_triple_inj hrun
    exact { inv := h
            size := fun a ha => (nomatch ha)
            mem := fun b _ => by simp
            fresh := fun a ha => (nomatch ha) }
  | some c =>
    rw [hfind] at hrun
    obtain ⟨rfl, hfree, hfit⟩ := vmaFindFree_some hfind
    -- an area is no larger than the range, so rounding the size up does not wrap
    obtain ⟨h1, -, h3⟩ := h.cursorInv.area_mem
    exact h.vmaAllocInArea_spec hstop hfree hpos (by omega) hrun

/-! ## Services that succeed -/

/-- Every service returns and none reports a failure. -/
structure VmaEnv.NeverFails (env : VmaEnv σ) : Prop where
  kmalloc : ∀ size flags s, ∃ ptr s', env.kmalloc size flags s = .ok (ptr, s') ∧ ptr ≠ 0
  kfree : ∀ ptr s, ∃ s', env.kfree ptr s = .ok s'
  buddyAllocPages : ∀ size zone s, ∃ ptr s',
    env.buddyAllocPages size zone s = .ok (ptr, s') ∧ ptr ≠ 0
  buddyFreeBlock : ∀ ptr s, ∃ s', env.buddyFreeBlock ptr s = .ok s'
  vmmMapPage : ∀ pd vAddr pAddr flags s, ∃ s',
    env.vmmMapPage pd vAddr pAddr flags s = .ok (true, s')
  vmmUnmapPage : ∀ pd vAddr s, ∃ out, env.vmmUnmapPage pd vAddr s = .ok out

theorem VmaEnv.NeverFails.allocFrames_eq (henv : env.NeverFails) (nr k : ℕ) (frames : List ℕ)
    (s : σ) :
    ∃ frames' s', allocFrames env nr k frames s = .ok (true, frames', s') := by
  induction k generalizing frames s with
  | zero => exact ⟨frames, s, rfl⟩
  | succ k ih =>
    obtain ⟨page, s₁, halloc, hne⟩ := henv.buddyAllocPages pageSize .highmem s
    rw [allocFrames, halloc, ok_bind]
    simp only [hne, if_false]
    exact ih _ s₁

theorem VmaEnv.NeverFails.mapFrames_eq (henv : env.NeverFails) (pd a flags : ℕ)
    (frames : List ℕ) (nr k : ℕ) (s : σ) : ∃ s', mapFrames env pd a flags frames nr k s = .ok (true, s') := by
  induction k generalizing s with
  | zero => exact ⟨s, rfl⟩
  | succ k ih =>
    obtain ⟨s₁, hmap⟩ := henv.vmmMapPage pd (add32 a ((nr - (k + 1)) * pageSize))
      (frames.getD (nr - (k + 1)) 0) flags s
    rw [mapFrames]
    simp only
    rw [hmap, ok_bind]
    simp only [if_true]
    exact ih s₁

theorem VmaEnv.NeverFails.vmaMapArea_eq (henv : env.NeverFails) (newArea : VmArea) (pd : ℕ)
    (hpages : newArea.pages ≠ none) (s : σ) :
    ∃ area s', vmaMapArea env newArea pd s = .ok (true, area, s') := by
  unfold vmaMapArea
  cases hp : newArea.pages with
  | none => exact absurd hp hpages
  | some pages =>
    simp only
    obtain ⟨frames, s₁, halloc⟩ := henv.allocFrames_eq newArea.nrPages newArea.nrPages
      pages.frames s
    rw [halloc, ok_bind]
    simp only [Bool.not_true, Bool.false_eq_true, if_false]
    obtain ⟨s₂, hmap⟩ := henv.mapFrames_eq pd newArea.startVaddr newArea.pteFlags frames
      newArea.nrPages newArea.nrPages s₁
    rw [hmap, ok_bind]
    exact ⟨_, s₂, rfl⟩

/-- With services that succeed, an area that holds the rounded size can be used. -/
theorem VmaEnv.NeverFails.vmaAllocInArea_eq (henv : env.NeverFails) {pd size flags : ℕ}
    {mode : VmaAllocMode} (hfit : alignUp32 size 12 ≤ c.area.size) :
    ∃ a areas s', vmaAllocInArea env pd c size flags mode s = .ok (some a, areas, s') := by
  have hsplit : ∃ c' s', vmaSplitArea env c size s = .ok (some c', s') := by
    unfold vmaSplitArea
    simp only
    rw [if_neg (not_lt.mpr hfit)]
    by_cases heq : alignUp32 size 12 = c.area.size
    · rw [if_pos heq]
      exact ⟨_, s, rfl⟩
    · rw [if_neg heq]
      obtain ⟨addr, s₁, hk, hne⟩ := henv.kmalloc sizeofVmArea gfpKernelZero s
      rw [hk, ok_bind]
      simp only [hne, if_false]
      exact ⟨_, s₁, rfl⟩
  obtain ⟨c', s₁, hsplit⟩ := hsplit
  unfold vmaAllocInArea
  rw [hsplit, ok_bind]
  simp only
  obtain ⟨addr, s₂, hk, hne⟩ := henv.kmalloc (4 * divRoundUp32 size pageSize) gfpKernelZero s₁
  rw [hk, ok_bind]
  simp only [hne, if_false]
  cases mode with
  | eager =>
    simp only
    obtain ⟨area, s₃, hmap⟩ := henv.vmaMapArea_eq { c'.area with
        pages := some { addr := addr, frames := List.replicate (divRoundUp32 size pageSize) 0 }
        nrPages := divRoundUp32 size pageSize
        pteFlags := flags } pd (fun hc => (nomatch hc)) s₂
    rw [hmap, ok_bind]
    exact ⟨area, _, s₃, rfl⟩
  | lazy => exact ⟨_, _, s₂, rfl⟩

/-- With services that succeed, free space of a whole number of pages can be allocated. -/
theorem VmaEnv.NeverFails.vmaAlloc_eq (henv : env.NeverFails) {areas : List VmArea} {f : VmArea}
    (hf : f ∈ areas) (hfree : f.state = .free) {pd size flags hint : ℕ} {mode : VmaAllocMode}
    (hdvd : 4096 ∣ size) (hle : size ≤ 0xFFFFF000) (hfit : size ≤ f.size) :
    ∃ a areas' s', vmaAlloc env areas pd size flags hint mode s = .ok (some a, areas', s') := by
  have hround : alignUp32 size 12 = size := by
    rw [alignUp32_eq (by norm_num) (by norm_num; omega)]
    norm_num
    omega
  have hfirst : vmaFirstFitAlloc size areas ≠ none :=
    findArea_ne_none hf (by simp [hfree, hfit])
  unfold vmaAlloc
  cases hfind : vmaFindFree areas size hint with
  | none =>
    exfalso
    unfold vmaFindFree at hfind
    split at hfind
    · exact hfirst hfind
    · split at hfind
      · exact hfirst hfind
      · cases hfind
  | some c =>
    obtain ⟨-, -, hsize⟩ := vmaFindFree_some hfind
    exact henv.vmaAllocInArea_eq (by rw [hround]; exact hsize)

theorem VmaEnv.NeverFails.releasePages_eq (henv : env.NeverFails) (pd : ℕ) (area : VmArea)
    (s : σ) : ∃ s', releasePages env pd area s = .ok s' := by
  unfold releasePages
  cases area.pages with
  | none => exact ⟨s, rfl⟩
  | some pages =>
    simp only
    have hloop : ∀ (l : List ℕ) (s : σ), ∃ s',
        l.foldlM (releaseFrame env pd area.startVaddr pages.frames) s = .ok s' := by
      intro l
      induction l with
      | nil => exact fun s => ⟨s, rfl⟩
      | cons i l ih =>
        intro s
        have hbody : ∃ s', releaseFrame env pd area.startVaddr pages.frames s i = .ok s' := by
          unfold releaseFrame
          split
          · exact ⟨s, rfl⟩
          · obtain ⟨⟨ok, s₁⟩, hunmap⟩ :=
              henv.vmmUnmapPage pd (add32 area.startVaddr (i * pageSize)) s
            rw [hunmap, ok_bind]
            exact henv.buddyFreeBlock _ s₁
        obtain ⟨s₁, hs₁⟩ := hbody
        rw [List.foldlM_cons, hs₁, ok_bind]
        exact ih s₁
    obtain ⟨s₁, hs₁⟩ := hloop (List.range area.nrPages) s
    rw [hs₁, ok_bind]
    exact henv.kfree pages.addr s₁

theorem VmaEnv.NeverFails.vmaDestroyArea_eq (henv : env.NeverFails) (c : VmaCursor) (pd : ℕ)
    (s : σ) : ∃ areas s', vmaDestroyArea env c pd s = .ok (areas, s') := by
  have hnext : ∀ (c : VmaCursor) (s : σ), ∃ out, mergeNext env c s = .ok out := by
    intro c s
    unfold mergeNext
    split
    · exact ⟨_, rfl⟩
    · split
      · exact ⟨_, rfl⟩
      · obtain ⟨s₁, hk⟩ := henv.kfree _ s
        rw [hk, ok_bind]
        exact ⟨_, rfl⟩
  have hprev : ∀ (c : VmaCursor) (s : σ), ∃ out, mergePrev env c s = .ok out := by
    intro c s
    unfold mergePrev
    split
    · exact ⟨_, rfl⟩
    · split
      · exact ⟨_, rfl⟩
      · obtain ⟨s₁, hk⟩ := henv.kfree _ s
        rw [hk, ok_bind]
        exact ⟨_, rfl⟩
  unfold vmaDestroyArea vmaMergeArea
  obtain ⟨s₁, hs₁⟩ := henv.releasePages_eq pd c.area s
  rw [hs₁, ok_bind]
  obtain ⟨⟨c₁, s₂⟩, hs₂⟩ := hnext { c with area := { c.area with
    pages := none, nrPages := 0, state := .free, pteFlags := 0 } } s₁
  rw [hs₂, ok_bind]
  obtain ⟨⟨areas, s₃⟩, hs₃⟩ := hprev c₁ s₂
  exact ⟨areas, s₃, hs₃⟩

end Specs

end Kfs.Memory
