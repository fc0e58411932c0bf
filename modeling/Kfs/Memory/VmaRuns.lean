import Kfs.Lib.TransitionSystem
import Kfs.Memory.VmaSpec

/-!
# Runs of the area allocator

A run starts with `vma_init_area` and goes on with calls of `vma_alloc` and of `vma_destroy_area`
on areas that are in use, over services that may fail at any point. The ranges in use are a ghost
list beside the area list.
-/

namespace Kfs.Memory

open Kfs.Lib Kfs.Lib.Word32

/-! ## Runs -/

/-- The calls of a run; an area is destroyed by its address. -/
inductive VmaCall where
  | alloc (pd size pteFlags hintVaddr : ℕ) (allocMode : VmaAllocMode)
  | destroy (pd startVaddr : ℕ)
  deriving DecidableEq, Repr

/-- The area list, the services, and the ranges that are in use, each as start and size. -/
structure VmaRun (σ : Type) where
  areas : List VmArea
  state : σ
  live : List (ℕ × ℕ)

section Runs

variable {σ : Type} {env : VmaEnv σ} {start stop : ℕ} {r r' : VmaRun σ}

/-- One call. Destroying an area that is not in use is no call of a run. -/
def vmaStep (env : VmaEnv σ) (r : VmaRun σ) : VmaCall → Kern (VmaRun σ)
  | .alloc pd size pteFlags hintVaddr allocMode => do
    let (ret, areas, s) ← vmaAlloc env r.areas pd size pteFlags hintVaddr allocMode r.state
    .ok { areas := areas, state := s
          live := ret.elim r.live fun area => (area.startVaddr, area.size) :: r.live }
  | .destroy pd startVaddr =>
    match vmaFindByStart startVaddr r.areas with
    | none => .error .fault
    | some c =>
      if c.area.state = .free then .error .fault
      else do
        let (areas, s) ← vmaDestroyArea env c pd r.state
        .ok { areas := areas, state := s
              live := r.live.erase (c.area.startVaddr, c.area.size) }

/-- The sizes that callers ask for. -/
def VmaCall.Valid : VmaCall → Prop
  | .alloc _ size _ _ _ => 1 ≤ size
  | .destroy _ _ => True

/-- The runs on the range `[start, stop)`. -/
def vmaSystem (env : VmaEnv σ) (start stop : ℕ) : System (VmaRun σ) VmaCall where
  init r := (∃ s, vmaInitArea env start stop s = .ok (r.areas, r.state)) ∧ r.live = []
  step r call r' := call.Valid ∧ vmaStep env r call = .ok r'

/-- The ranges in use are the areas that are not free. -/
structure VmaRun.Inv (start stop : ℕ) (r : VmaRun σ) : Prop where
  inv : VmaInv start stop r.areas
  nodup : r.live.Nodup
  live : ∀ b, b ∈ r.live ↔ ∃ a ∈ r.areas, a.state ≠ .free ∧ (a.startVaddr, a.size) = b

theorem VmaRun.Inv.of_initial (hlt : start < stop) (hstop : stop < 2 ^ 32)
    (hr : (vmaSystem env start stop).init r) : r.Inv start stop := by
  obtain ⟨areas, state, live⟩ := r
  obtain ⟨⟨s, hinit⟩, hlive⟩ := hr
  unfold vmaInitArea at hinit
  obtain ⟨⟨addr, s₁⟩, -, hinit⟩ := bind_eq_ok.mp hinit
  simp only at hinit hlive
  by_cases hnull : addr = 0
  · rw [if_pos hnull] at hinit
    cases hinit
  · rw [if_neg hnull] at hinit
    obtain ⟨rfl, rfl⟩ := Prod.mk.inj (Except.ok.inj hinit)
    subst hlive
    have hsize : sub32 stop start = stop - start := sub32_eq hstop hlt.le
    refine {
      inv := {
        tiles := ⟨rfl, ?_, ?_⟩
        chain := List.IsChain.singleton _
        aligned := fun a ha hne => ?_ }
      nodup := List.nodup_nil
      live := fun b => ?_ }
    · show 0 < sub32 stop start
      omega
    · show start + sub32 stop start = stop
      omega
    · obtain rfl := List.mem_singleton.mp ha
      exact absurd rfl hne
    · simp

/-- Two areas of the list with one start are one area. -/
theorem VmaInv.eq_of_start {areas : List VmArea} (h : VmaInv start stop areas) {a b : VmArea}
    (ha : a ∈ areas) (hb : b ∈ areas) (heq : a.startVaddr = b.startVaddr) : a = b := by
  have hapos := (h.tiles.mem ha).2.1
  have hbpos := (h.tiles.mem hb).2.1
  rcases h.tiles.eq_or_disjoint ha hb with hab | hle | hle
  · exact hab
  · omega
  · omega

/-- The neighbours of a cursor start elsewhere. -/
theorem CursorInv.start_ne {c : VmaCursor} (h : CursorInv start stop c) {a : VmArea}
    (ha : a ∈ c.before ∨ a ∈ c.after) : a.startVaddr ≠ c.area.startVaddr := by
  obtain ⟨m, hbefore, hstart, hpos, hafter⟩ := tiles_append.mp h.tiles
  rcases ha with ha | ha
  · have := hbefore.mem (List.mem_reverse.mpr ha)
    omega
  · have := hafter.mem ha
    omega

theorem VmaRun.Inv.step (h : r.Inv start stop) (hstop : stop < 2 ^ 32)
    (hrange : stop - start ≤ 0xFFFFF000) {call : VmaCall} (hvalid : call.Valid)
    (hrun : vmaStep env r call = .ok r') : r'.Inv start stop := by
  cases call with
  | alloc pd size pteFlags hintVaddr allocMode =>
    obtain ⟨⟨ret, areas, s⟩, halloc, hok⟩ := bind_eq_ok.mp hrun
    obtain rfl := Except.ok.inj hok
    have hres := h.inv.vmaAlloc_spec hstop hrange hvalid halloc
    cases ret with
    -- Nothing was allocated: the areas that are not free are the same ones.
    | none =>
      refine { inv := hres.inv, nodup := h.nodup, live := fun b => ?_ }
      show b ∈ r.live ↔ _
      rw [h.live b]
      refine exists_congr fun a => ?_
      -- What is live is the new area and what was live before.
      constructor
      · rintro ⟨ha, hne, heq⟩
        exact ⟨(hres.mem a hne).mpr (Or.inr ha), hne, heq⟩
      · rintro ⟨ha, hne, heq⟩
        exact ⟨((hres.mem a hne).mp ha).resolve_left (fun hc => (nomatch hc)), hne, heq⟩
    | some area =>
      obtain ⟨hstate, -⟩ := hres.size area rfl
      refine { inv := hres.inv, nodup := List.nodup_cons.mpr ⟨fun hmem => ?_, h.nodup⟩,
               live := fun b => ?_ }
      · -- the new area starts where a free one did
        obtain ⟨f, hf, hffree, hfstart⟩ := hres.fresh area rfl
        obtain ⟨a, ha, hne, heq⟩ := (h.live _).mp hmem
        have hsame : f = a := h.inv.eq_of_start hf ha (hfstart.trans (Prod.mk.inj heq).1.symm)
        exact hne (hsame ▸ hffree)
      · show b ∈ (area.startVaddr, area.size) :: r.live ↔ _
        rw [List.mem_cons, h.live b]
        constructor
        · rintro (rfl | ⟨a, ha, hne, heq⟩)
          · exact ⟨area, (hres.mem area hstate).mpr (Or.inl rfl), hstate, rfl⟩
          · exact ⟨a, (hres.mem a hne).mpr (Or.inr ha), hne, heq⟩
        · rintro ⟨a, ha, hne, heq⟩
          rcases (hres.mem a hne).mp ha with hnew | hold
          · obtain rfl := Option.some.inj hnew
            exact Or.inl heq.symm
          · exact Or.inr ⟨a, hold, hne, heq⟩
  | destroy pd startVaddr =>
    simp only [vmaStep] at hrun
    -- A start that names no area, or a free one, stops the kernel.
    cases hfind : vmaFindByStart startVaddr r.areas with
    | none =>
      rw [hfind] at hrun
      cases hrun
    | some c =>
      rw [hfind] at hrun
      simp only at hrun
      by_cases hfree : c.area.state = .free
      · rw [if_pos hfree] at hrun
        cases hrun
      · rw [if_neg hfree] at hrun
        obtain ⟨⟨areas, s⟩, hdestroy, hok⟩ := bind_eq_ok.mp hrun
        obtain rfl := Except.ok.inj hok
        -- The cursor is the list, opened at the area that is destroyed.
        have hlist : c.toList = r.areas := (findArea_some hfind).1
        have hcur : CursorInv start stop c := VmaInv.cursorInv (hlist ▸ h.inv)
        obtain ⟨hinv, -, hmem⟩ := hcur.vmaDestroyArea_spec hstop hdestroy
        refine { inv := hinv, nodup := h.nodup.erase _, live := fun b => ?_ }
        show b ∈ r.live.erase (c.area.startVaddr, c.area.size) ↔ _
        rw [h.nodup.mem_erase_iff, h.live b]
        constructor
        · rintro ⟨hne, a, ha, hastate, rfl⟩
          refine ⟨a, (hmem a hastate).mpr ?_, hastate, rfl⟩
          rw [← hlist, VmaCursor.mem_toList] at ha
          rcases ha with hb | rfl | ha
          · exact Or.inl hb
          · exact absurd rfl hne
          · exact Or.inr ha
        · rintro ⟨a, ha, hastate, rfl⟩
          have hside := (hmem a hastate).mp ha
          -- Two areas have two starts, so only this one has left.
          refine ⟨fun heq => hcur.start_ne hside (Prod.mk.inj heq).1, a, ?_, hastate, rfl⟩
          rw [← hlist, VmaCursor.mem_toList]
          tauto

/-- **Areas tile their range.** In every state of every run, with any failures of the services, the
area list tiles `[start, stop)` and no two neighbours are free. Ranges in use are disjoint, and a
destroyed range lies in one free area and can be allocated again in full. -/
theorem vma_tiling (hlt : start < stop) (hstop : stop < 2 ^ 32)
    (hrange : stop - start ≤ 0xFFFFF000) (hr : (vmaSystem env start stop).Reachable r) :
    Tiles VmArea.startVaddr VmArea.size start stop r.areas ∧
    r.areas.IsChain NotBothFree ∧
    (r.live.Pairwise fun b b' => Disjoint (Set.Ico b.1 (b.1 + b.2)) (Set.Ico b'.1 (b'.1 + b'.2))) ∧
    (∀ b ∈ r.live, ∀ pd r', vmaStep env r (.destroy pd b.1) = .ok r' →
      (∃ f ∈ r'.areas, f.state = .free ∧ f.startVaddr ≤ b.1 ∧
        b.1 + b.2 ≤ f.startVaddr + f.size) ∧
      (env.NeverFails → ∀ pd' pteFlags hintVaddr allocMode, ∃ a areas s,
        vmaAlloc env r'.areas pd' b.2 pteFlags hintVaddr allocMode r'.state =
          .ok (some a, areas, s) ∧ a.size = b.2)) ∧
    (env.NeverFails → ∀ b ∈ r.live, ∀ pd, ∃ r', vmaStep env r (.destroy pd b.1) = .ok r') := by
  have hinv : r.Inv start stop := by
    apply hr.invariant
    · intro r₀ hr₀
      exact VmaRun.Inv.of_initial hlt hstop hr₀
    · intro r₁ call r₂ h hstep
      exact h.step hstop hrange hstep.1 hstep.2
  -- the cursor of a range in use
  have hcursor : ∀ b ∈ r.live, ∃ c, vmaFindByStart b.1 r.areas = some c ∧ c.toList = r.areas ∧
      c.area.state ≠ .free ∧ (c.area.startVaddr, c.area.size) = b := by
    intro b hb
    obtain ⟨a, ha, hne, rfl⟩ := (hinv.live b).mp hb
    cases hfind : vmaFindByStart a.startVaddr r.areas with
    | none => exact absurd hfind (findArea_ne_none ha (by simp))
    | some c =>
      obtain ⟨hfound, hp⟩ := findArea_some hfind
      have hlist : c.toList = r.areas := hfound
      have hmem : c.area ∈ r.areas := hlist ▸ VmaCursor.mem_toList.mpr (Or.inr (Or.inl rfl))
      obtain rfl : c.area = a := hinv.inv.eq_of_start hmem ha (by simpa using hp)
      exact ⟨c, rfl, hlist, hne, rfl⟩
  refine ⟨hinv.inv.tiles, hinv.inv.chain, ?_, fun b hb pd r' hrun => ?_, fun henv b hb pd => ?_⟩
  · refine hinv.nodup.imp_of_mem fun {b b'} hb hb' hne => ?_
    obtain ⟨a, ha, -, rfl⟩ := (hinv.live b).mp hb
    obtain ⟨a', ha', -, rfl⟩ := (hinv.live b').mp hb'
    have hsep := hinv.inv.tiles.eq_or_disjoint ha ha'
    rw [Set.disjoint_left]
    intro x hx hx'
    simp only [Set.mem_Ico] at hx hx'
    rcases hsep with rfl | hle | hle
    · exact hne rfl
    · omega
    · omega
  · obtain ⟨c, hfind, hlist, hne, rfl⟩ := hcursor b hb
    simp only [vmaStep, hfind] at hrun
    rw [if_neg hne] at hrun
    obtain ⟨⟨areas, s⟩, hdestroy, hok⟩ := bind_eq_ok.mp hrun
    obtain rfl := Except.ok.inj hok
    have hcur : CursorInv start stop c := VmaInv.cursorInv (hlist ▸ hinv.inv)
    obtain ⟨hinv', ⟨f, hf, hffree, hflo, hfhi⟩, -⟩ := hcur.vmaDestroyArea_spec hstop hdestroy
    refine ⟨⟨f, hf, hffree, hflo, hfhi⟩, fun henv pd' flags hint mode => ?_⟩
    -- an area in use has whole pages, so the free area around it holds the rounded size
    have hmem : c.area ∈ r.areas := hlist ▸ VmaCursor.mem_toList.mpr (Or.inr (Or.inl rfl))
    have hdvd : 4096 ∣ c.area.size := hinv.inv.aligned c.area hmem hne
    obtain ⟨h1, h2, h3⟩ := hcur.area_mem
    obtain ⟨a, areas', s', halloc⟩ := henv.vmaAlloc_eq hf hffree hdvd (by omega) (by omega)
    refine ⟨a, areas', s', halloc, ?_⟩
    have hres := hinv'.vmaAlloc_spec hstop hrange (by omega) halloc
    rw [(hres.size a rfl).2, alignUp32_eq (by norm_num) (by norm_num; omega)]
    norm_num
    omega
  · obtain ⟨c, hfind, -, hne, -⟩ := hcursor b hb
    obtain ⟨areas, s, hdestroy⟩ := henv.vmaDestroyArea_eq c pd r.state
    simp only [vmaStep, hfind]
    rw [if_neg hne, hdestroy, ok_bind]
    exact ⟨_, rfl⟩

end Runs

/-- Services that hand out addresses in order and fail at nothing. -/
def bumpEnv : VmaEnv ℕ where
  kmalloc size _ next := .ok (next, next + size)
  kfree _ next := .ok next
  buddyAllocPages size _ next := .ok (next, next + size)
  buddyFreeBlock _ next := .ok next
  vmmMapPage _ _ _ _ next := .ok (true, next)
  vmmUnmapPage _ _ next := .ok (true, next)

theorem vma_tiling_bumpEnv : ∃ r, (vmaSystem bumpEnv 0x10000 0x20000).Reachable r ∧
    r.live = [(0x12000, 4096), (0x10000, 8192)] ∧
    Tiles VmArea.startVaddr VmArea.size 0x10000 0x20000 r.areas ∧ r.areas.IsChain NotBothFree := by
  have hrun : ((vmaInitArea bumpEnv 0x10000 0x20000 0x1000).toOption.bind fun out =>
      ([.alloc 0 5000 7 0 .lazy, .alloc 0 1 7 0x12000 .eager] : List VmaCall).foldlM
        (fun r call => (vmaStep bumpEnv r call).toOption)
        { areas := out.1, state := out.2, live := [] }).map (·.live) =
      some [(0x12000, 4096), (0x10000, 8192)] := by decide +kernel
  obtain ⟨r, hbind, hlive⟩ := Option.map_eq_some_iff.mp hrun
  obtain ⟨out, hinit, hfold⟩ := Option.bind_eq_some_iff.mp hbind
  simp only [List.foldlM_cons, List.foldlM_nil, Option.bind_eq_bind,
    Option.bind_eq_some_iff] at hfold
  obtain ⟨r₁, h₁, r₂, h₂, heq⟩ := hfold
  obtain rfl : r₂ = r := Option.some.inj heq
  have hvalid₁ : (VmaCall.alloc 0 5000 7 0 .lazy).Valid := (by decide : 1 ≤ 5000)
  have hvalid₂ : (VmaCall.alloc 0 1 7 0x12000 .eager).Valid := (by decide : 1 ≤ 1)
  have hreach : (vmaSystem bumpEnv 0x10000 0x20000).Reachable r₂ :=
    .step (.step (.init ⟨⟨0x1000, eq_ok_of_toOption hinit⟩, rfl⟩) ⟨hvalid₁, eq_ok_of_toOption h₁⟩)
      ⟨hvalid₂, eq_ok_of_toOption h₂⟩
  obtain ⟨htiles, hchain, -⟩ := vma_tiling (by decide) (by decide) (by decide) hreach
  exact ⟨r₂, hreach, hlive, htiles, hchain⟩

end Kfs.Memory
