import Kfs.Memory.VmaRuns
import Kfs.Memory.VmmBoot

/-!
# The area list of `vmalloc`

`src/memory/vmalloc.c`: one list of areas for the whole kernel, between `VMALLOC_START` and
`VMALLOC_END`. `vmalloc` takes an area in eager mode and `vfree` gives it back; the directory that
both work on is the one that is loaded when they are called.
-/

namespace Kfs.Memory

open Kfs.Lib Kfs.Lib.Word32

/-! ## The calls -/

def maxVmallocSize : ℕ := mibSize * 128 - 8192 -- MAX_VMALLOC_SIZE
def minVmallocSize : ℕ := pageSize -- MIN_VMALLOC_SIZE
def vmallocStart : ℕ := 0xF8000000 -- VMALLOC_START
def vmallocEnd : ℕ := 0xFFFFDFFF -- VMALLOC_END

section Calls

variable {σ : Type} (env : VmaEnv σ)

/-- `vmalloc` under the directory `pd`: the address, 0 for `NULL`, and the list. -/
def vmalloc (pd size : ℕ) (areas : List VmArea) (s : σ) : Kern (ℕ × List VmArea × σ) :=
  if size > maxVmallocSize ∨ size < minVmallocSize then .ok (0, areas, s)
  else do
    let (area, areas, s) ← vmaAlloc env areas pd size (ptePresentBit ||| pteRwBit) 0 .eager s
    match area with
    | none => .ok (0, areas, s)
    | some area => .ok (area.startVaddr, areas, s)

/-- The body of the loop of `vfree`. -/
def vfreePage (cr3 : ℕ) (area : VmArea) (s : σ) (i : ℕ) : Kern σ :=
  match area.pages with
  | none => .error .fault
  | some pages => do
    let (_, s) ← env.vmmUnmapPage cr3 (add32 area.startVaddr (i * pageSize)) s
    env.buddyFreeBlock (pages.frames.getD i 0) s

/-- `vfree` under the directory `cr3`. -/
def vfree (cr3 ptr : ℕ) (areas : List VmArea) (s : σ) : Kern (List VmArea × σ) :=
  if ptr = 0 then .ok (areas, s)
  else
    match vmaFindByStart ptr areas with
    | none => .ok (areas, s)
    | some c => do
      let s ← (List.range c.area.nrPages).foldlM (vfreePage env cr3 c.area) s
      let s ← env.kfree (c.area.pages.elim 0 PageArray.addr) s
      vmaMergeArea env { c with area := { c.area with
        pages := none, nrPages := 0, state := .free } } s

/-- `vmalloc_init`. -/
def vmallocInit (s : σ) : Kern (List VmArea × σ) := vmaInitArea env vmallocStart vmallocEnd s

end Calls

/-! ## Runs -/

/-- The calls of a run, each with the directory that is loaded. -/
inductive VmallocCall where
  | vmalloc (pd size : ℕ)
  | vfree (cr3 ptr : ℕ)
  deriving DecidableEq, Repr

section Runs

variable {σ : Type} {env : VmaEnv σ} {s s' : σ} {pd cr3 size ptr : ℕ} {areas areas' : List VmArea}

def vmallocStep (env : VmaEnv σ) (r : List VmArea × σ) : VmallocCall → Kern (List VmArea × σ)
  | .vmalloc pd size => do
    let (_, areas, s) ← vmalloc env pd size r.1 r.2
    .ok (areas, s)
  | .vfree cr3 ptr => vfree env cr3 ptr r.1 r.2

/-- The runs from `vmalloc_init`. -/
def vmallocSystem (env : VmaEnv σ) : System (List VmArea × σ) VmallocCall where
  init r := ∃ s, vmallocInit env s = .ok r
  step r call r' := vmallocStep env r call = .ok r'

theorem vmallocEnd_lt : vmallocEnd < 2 ^ 32 := by
  unfold vmallocEnd
  norm_num

theorem vmalloc_range : vmallocEnd - vmallocStart ≤ 0xFFFFF000 := by
  unfold vmallocEnd vmallocStart
  norm_num

/-- **`vmalloc`** is one call of `vma_alloc`, or none. -/
theorem vmalloc_cases (h : vmalloc env pd size areas s = .ok (ptr, areas', s')) :
    (ptr = 0 ∧ areas' = areas ∧ s' = s) ∨
    (4096 ≤ size ∧ size ≤ maxVmallocSize ∧ ∃ ret, ptr = ret.elim 0 VmArea.startVaddr ∧
      vmaAlloc env areas pd size (ptePresentBit ||| pteRwBit) 0 .eager s = .ok (ret, areas', s')) := by
  unfold vmalloc at h
  split at h
  · obtain ⟨rfl, rfl, rfl⟩ := ok_triple_inj h
    exact Or.inl ⟨rfl, rfl, rfl⟩
  · next hsize =>
    push Not at hsize
    rw [bind_eq_ok] at h
    obtain ⟨⟨ret, areas₁, s₁⟩, halloc, h⟩ := h
    refine Or.inr ⟨hsize.2, hsize.1, ret, ?_⟩
    cases ret with
    | none =>
      obtain ⟨rfl, rfl, rfl⟩ := ok_triple_inj h
      exact ⟨rfl, halloc⟩
    | some area =>
      obtain ⟨rfl, rfl, rfl⟩ := ok_triple_inj h
      exact ⟨rfl, halloc⟩

/-- **`vfree`** of the start of an area is one call of `vma_merge_area` on the area, now free. -/
theorem vfree_cases (h : vfree env cr3 ptr areas s = .ok (areas', s')) :
    (areas' = areas ∧ (ptr = 0 ∨ vmaFindByStart ptr areas = none)) ∨
    ∃ c s₁, vmaFindByStart ptr areas = some c ∧
      vmaMergeArea env { c with area := { c.area with pages := none, nrPages := 0, state := .free } } s₁ =
        .ok (areas', s') := by
  unfold vfree at h
  split at h
  · next hnull =>
    obtain ⟨rfl, -⟩ := Prod.mk.inj (Except.ok.inj h)
    exact Or.inl ⟨rfl, Or.inl hnull⟩
  · cases hfind : vmaFindByStart ptr areas with
    | none =>
      rw [hfind] at h
      obtain ⟨rfl, -⟩ := Prod.mk.inj (Except.ok.inj h)
      exact Or.inl ⟨rfl, Or.inr rfl⟩
    | some c =>
      rw [hfind] at h
      obtain ⟨s₁, -, h⟩ := bind_eq_ok.mp h
      obtain ⟨s₂, -, h⟩ := bind_eq_ok.mp h
      exact Or.inr ⟨c, s₂, rfl, h⟩

theorem VmaInv.vmallocInit_spec {r : List VmArea × σ} (h : vmallocInit env s = .ok r) :
    VmaInv vmallocStart vmallocEnd r.1 :=
  (VmaRun.Inv.of_initial (r := { areas := r.1, state := r.2, live := [] }) (by decide)
    vmallocEnd_lt ⟨⟨s, h⟩, rfl⟩).inv

/-- What a call of `vmalloc` that returns `ptr` does to the areas in use. -/
structure TakesArea (areas : List VmArea) (ptr size : ℕ) (areas' : List VmArea) : Prop where
  null : ptr = 0 → ∀ b, b.state ≠ .free → (b ∈ areas' ↔ b ∈ areas)
  area : ptr ≠ 0 → ∃ a, a.state ≠ .free ∧ a.startVaddr = ptr ∧ a.size = alignUp32 size 12 ∧
    a ∉ areas ∧ ∀ b, b.state ≠ .free → (b ∈ areas' ↔ b = a ∨ b ∈ areas)

theorem VmaInv.vmalloc_spec (h : VmaInv vmallocStart vmallocEnd areas)
    (hrun : vmalloc env pd size areas s = .ok (ptr, areas', s')) :
    VmaInv vmallocStart vmallocEnd areas' ∧ TakesArea areas ptr size areas' := by
  rcases vmalloc_cases hrun with ⟨rfl, rfl, rfl⟩ | ⟨hlow, -, ret, rfl, halloc⟩
  · exact ⟨h, fun _ _ _ => Iff.rfl, fun hc => absurd rfl hc⟩
  · have hres := h.vmaAlloc_spec vmallocEnd_lt vmalloc_range (by omega) halloc
    refine ⟨hres.inv, ?_⟩
    cases ret with
    | none =>
      refine ⟨fun _ b hb => ?_, fun hc => absurd rfl hc⟩
      rw [hres.mem b hb]
      simp
    | some a =>
      obtain ⟨hstate, hsize⟩ := hres.size a rfl
      obtain ⟨f, hf, hffree, hfstart⟩ := hres.fresh a rfl
      have hne : a.startVaddr ≠ 0 := by
        have hstart := (h.tiles.mem hf).1
        unfold vmallocStart at hstart
        omega
      refine ⟨fun hc => absurd hc hne, fun _ => ⟨a, hstate, rfl, hsize, fun ha => ?_, fun b hb => ?_⟩⟩
      · -- the area starts where a free one did
        have hsame : f = a := h.eq_of_start hf ha hfstart
        exact hstate (hsame ▸ hffree)
      · rw [hres.mem b hb, Option.some_inj]

/-- What a call of `vfree` does to the area that starts at `ptr`. -/
structure GivesArea (areas : List VmArea) (ptr : ℕ) (areas' : List VmArea) : Prop where
  free : ∀ a ∈ areas, a.startVaddr = ptr → ∃ f ∈ areas', f.state = .free ∧
    f.startVaddr ≤ a.startVaddr ∧ a.startVaddr + a.size ≤ f.startVaddr + f.size
  others : ∀ b, b.state ≠ .free → (b ∈ areas' ↔ b ∈ areas ∧ b.startVaddr ≠ ptr)

theorem VmaInv.vfree_spec (h : VmaInv vmallocStart vmallocEnd areas)
    (hrun : vfree env cr3 ptr areas s = .ok (areas', s')) :
    VmaInv vmallocStart vmallocEnd areas' ∧ GivesArea areas ptr areas' := by
  rcases vfree_cases hrun with ⟨rfl, hnone⟩ | ⟨c, s₁, hfind, hmerge⟩
  · -- no area starts at the pointer
    have hstart : ∀ a ∈ areas', a.startVaddr ≠ ptr := by
      rintro a ha rfl
      rcases hnone with hnull | hfind
      · have hlow := (h.tiles.mem ha).1
        unfold vmallocStart at hlow
        omega
      · exact findArea_ne_none ha (by simp) hfind
    exact ⟨h, fun a ha heq => absurd heq (hstart a ha),
      fun b _ => ⟨fun hb => ⟨hb, hstart b hb⟩, And.left⟩⟩
  · obtain ⟨hlist, hp⟩ := findArea_some hfind
    obtain rfl : c.toList = areas := hlist
    have hptr : c.area.startVaddr = ptr := by simpa using hp
    have hcur := h.cursorInv
    have hset : CursorInv vmallocStart vmallocEnd { c with area := { c.area with
        pages := none, nrPages := 0, state := .free } } := hcur.setArea rfl rfl
    obtain ⟨hinv, hfree, hothers⟩ := hset.vmaMergeArea_spec vmallocEnd_lt rfl hmerge
    refine ⟨hinv, fun a ha heq => ?_, fun b hb => ?_⟩
    · have harea : c.area ∈ c.toList := VmaCursor.mem_toList.mpr (Or.inr (Or.inl rfl))
      obtain rfl : c.area = a := h.eq_of_start harea ha (hptr.trans heq.symm)
      exact hfree
    · rw [hothers b hb, VmaCursor.mem_toList]
      constructor
      · intro hside
        exact ⟨by tauto, hptr ▸ hcur.start_ne hside⟩
      · rintro ⟨hbefore | rfl | hafter, hne⟩
        · exact Or.inl hbefore
        · exact absurd hptr hne
        · exact Or.inr hafter

/-- **The areas of `vmalloc`.** In every state of every run, over services that may fail at any
point, the list tiles `[VMALLOC_START, VMALLOC_END)` and no two neighbours are free. `vmalloc` takes
whole pages that no area in use has, or returns `NULL` and takes none; `vfree` gives exactly the area
that starts at its pointer back. -/
theorem vmalloc_areas {r : List VmArea × σ} (hr : (vmallocSystem env).Reachable r) :
    Tiles VmArea.startVaddr VmArea.size vmallocStart vmallocEnd r.1 ∧ r.1.IsChain NotBothFree ∧
    (∀ pd size ptr areas s, vmalloc env pd size r.1 r.2 = .ok (ptr, areas, s) →
      TakesArea r.1 ptr size areas) ∧
    ∀ cr3 ptr areas s, vfree env cr3 ptr r.1 r.2 = .ok (areas, s) → GivesArea r.1 ptr areas := by
  have hinv : VmaInv vmallocStart vmallocEnd r.1 := by
    apply hr.invariant
    · rintro r₀ ⟨s, hinit⟩
      exact VmaInv.vmallocInit_spec hinit
    · intro r₁ call r₂ h hstep
      cases call with
      | vmalloc pd size =>
        obtain ⟨⟨ptr, areas, s⟩, hrun, hok⟩ := bind_eq_ok.mp hstep
        obtain rfl := Except.ok.inj hok
        exact (h.vmalloc_spec hrun).1
      | vfree cr3 ptr => exact (h.vfree_spec hstep).1
  exact ⟨hinv.tiles, hinv.chain, fun _ _ _ _ _ hrun => (hinv.vmalloc_spec hrun).2,
    fun _ _ _ _ hrun => (hinv.vfree_spec hrun).2⟩

end Runs

end Kfs.Memory
