import Kfs.Memory.PageLedger
import Kfs.Memory.AreaRuns

/-!
# An allocation that fails

`vma_alloc` fails where it gets no node, no array, no frame or no page table. What it has taken by then
is given back by `vma_destroy_area`: the frames in the array, the tables with their last entry, and the
new area by merging it with the rest of the free area that it was cut from.

The call first takes and then gives back. While it takes, tables are only added, each with an entry;
while it gives back, no block is handed out. So a table that is there in the end was there at the start,
and a block that has been handed out is none that was live at the start.
-/

namespace Kfs.Memory

open Kfs.Lib Kfs.Lib.Word32 Kfs.Lib.Dyadic

/-! ## Tables -/

section Tables

variable {σ τ : Type} {A : PageAlloc τ} {V : PageAlloc.View τ} {W L : Set (ℕ × ℕ)} {s₀ : Phys σ}
  {s s' : Phys τ}

/-- The tables since `s₀`: a slot that had one has the same one or none, and a new one has entries. -/
structure TablesSince (W : Set (ℕ × ℕ)) (s₀ : Phys σ) (s : Phys τ) : Prop where
  same : ∀ w ∈ W, slotPresent s₀ w = true → slotPresent s w = true → tableOf s w = tableOf s₀ w
  filled : ∀ w ∈ W, slotPresent s₀ w = false → slotPresent s w = true → ∃ j < 1024, pte s w j ≠ none

theorem TablesSince.of_mem (h : TablesSince W s₀ s) (hmem : s'.mem = s.mem) : TablesSince W s₀ s' where
  same w hw hold hpres := by
    rw [slotPresent_congr hmem] at hpres
    rw [tableOf_congr hmem]
    exact h.same w hw hold hpres
  filled w hw hnew hpres := by
    rw [slotPresent_congr hmem] at hpres
    obtain ⟨j, hj, hne⟩ := h.filled w hw hnew hpres
    refine ⟨j, hj, ?_⟩
    unfold pte at hne ⊢
    rw [slotPresent_congr hmem, tableOf_congr hmem, hmem]
    exact hne

/-- `vmm_map_page` puts an entry into a table that it adds. -/
theorem TablesSince.mapPage (hA : A.Lawful V) (h : PageTables V W L s) (hsince : TablesSince W s₀ s)
    (hpresent : ∀ w ∈ W, slotPresent s₀ w = true → slotPresent s w = true) {pd v p flags : ℕ}
    (hw : (pd, getPdeIndex v) ∈ W) (hflag : flagIsSet flags ptePresentBit = true)
    (hrun : MapWrites A pd v p flags s true s') : TablesSince W s₀ s' := by
  rcases h.of_mapWrites hA hw hrun with ⟨hc, -⟩ | ⟨-, -, hslots, hpte⟩
  · cases hc
  have hset : flagIsSet (p ||| flags) ptePresentBit = true := by
    rw [flagIsSet_or, hflag, Bool.or_true]
  refine ⟨fun w hw' hold hpres => ?_, fun w hw' hnew hpres => ?_⟩
  · have hset := hpresent w hw' hold
    rw [(hrun.table_kept hA h hw hw' hset).2]
    exact hsince.same w hw' hold hset
  · by_cases hslot : w = (pd, getPdeIndex v)
    · refine ⟨getPteIndex v, getPteIndex_lt v, ?_⟩
      rw [hpte w hw' _ (getPteIndex_lt v), if_pos ⟨hslot, rfl⟩, if_pos hset]
      exact Option.some_ne_none _
    · rw [(hslots w hw' hslot).1] at hpres
      obtain ⟨j, hj, hne⟩ := hsince.filled w hw' hnew hpres
      refine ⟨j, hj, ?_⟩
      rw [hpte w hw' j hj, if_neg fun hc => hslot hc.1]
      exact hne

/-- `vmm_unmap_page` takes a table away with its last entry. -/
theorem TablesSince.unmapPage (hA : A.Lawful V) (h : PageTables V W L s) (hsince : TablesSince W s₀ s)
    {pd v : ℕ} {ok : Bool} (hw : (pd, getPdeIndex v) ∈ W) (hrun : UnmapWrites A pd v s ok s') :
    TablesSince W s₀ s' := by
  rcases h.of_unmapWrites hA hw hrun with ⟨-, rfl, -⟩ | ⟨-, -, -, htable, hslots, hlast, hpte⟩
  · exact hsince
  refine ⟨fun w hw' hold hpres => ?_, fun w hw' hnew hpres => ?_⟩
  · obtain ⟨hpres₀, htable⟩ := htable w hw' hpres
    rw [htable]
    exact hsince.same w hw' hold hpres₀
  · by_cases hslot : w = (pd, getPdeIndex v)
    · subst hslot
      exact hlast hpres
    · rw [hslots w hw' hslot] at hpres
      obtain ⟨j, hj, hne⟩ := hsince.filled w hw' hnew hpres
      refine ⟨j, hj, ?_⟩
      rw [hpte w hw' j hj, if_neg fun hc => hslot hc.1]
      exact hne

/-- **Where the entries are those of `s₀`, there is no table that was not there.** -/
theorem TablesSince.subset (hsince : TablesSince W s₀ s)
    (hentry : ∀ pd n, (pd, n / 1024) ∈ W → entryAt s pd n = entryAt s₀ pd n) :
    tables W s ⊆ tables W s₀ := by
  rintro b ⟨⟨pd, i⟩, hw, hpres, rfl⟩
  have hold : slotPresent s₀ (pd, i) = true := by
    by_contra hnew
    obtain ⟨j, hj, hne⟩ := hsince.filled _ hw (by simpa using hnew) hpres
    have hdiv : (i * 1024 + j) / 1024 = i := by omega
    have hmod : (i * 1024 + j) % 1024 = j := by omega
    have heq := hentry pd (i * 1024 + j) (hdiv.symm ▸ hw)
    unfold entryAt at heq
    rw [hdiv, hmod] at heq
    rw [heq] at hne
    exact hnew (slotPresent_of_pte hne)
  exact ⟨(pd, i), hw, hold, by rw [hsince.same _ hw hold hpres]⟩

end Tables

/-! ## Taking and giving back -/

section Phases

variable {σ : Type} {K : KernelAlloc σ} {V : PageAlloc.View σ} {U : PageAlloc.View (σ × List PageEvent)}
  {objs : σ → Set ℕ} {O O' : Set ℕ} {W L : Set (ℕ × ℕ)} {s₀ : Phys σ}
  {s s' : Phys (σ × List PageEvent)}

/-- What a logged allocation adds to the log. -/
theorem KernelAlloc.logged_alloc_log {a a' : σ × List PageEvent} {size : ℕ} {zone : Zone} {ptr : ℕ}
    (h : K.logged.buddyAllocPages size zone a = .ok (ptr, a')) :
    a'.2 = if ptr = 0 then a.2 else .alloc ptr :: a.2 := by
  obtain ⟨⟨ptr', b⟩, -, h⟩ := bind_eq_ok.mp h
  obtain ⟨rfl, rfl⟩ := Prod.mk.inj (Except.ok.inj h)
  rfl

theorem KernelAlloc.logged_free_log {a a' : σ × List PageEvent} {ptr : ℕ}
    (h : K.logged.buddyFreeBlock ptr a = .ok a') : a'.2 = .free ptr :: a.2 := by
  simp only [KernelAlloc.logged] at h
  split at h
  · obtain rfl := Except.ok.inj h
    rfl
  · obtain rfl := Except.ok.inj h
    rfl

theorem KernelAlloc.logged_kmallocOn_log {size flags ptr : ℕ}
    (h : K.logged.kmallocOn size flags s = .ok (ptr, s')) : s'.alloc.2 = s.alloc.2 := by
  obtain ⟨⟨ptr', a⟩, hcall, h⟩ := bind_eq_ok.mp h
  obtain ⟨-, rfl⟩ := Prod.mk.inj (Except.ok.inj h)
  obtain ⟨⟨ptr'', b⟩, -, hcall⟩ := bind_eq_ok.mp hcall
  obtain ⟨-, rfl⟩ := Prod.mk.inj (Except.ok.inj hcall)
  rfl

theorem KernelAlloc.logged_kfreeOn_log {ptr : ℕ} (h : K.logged.kfreeOn ptr s = .ok s') :
    s'.alloc.2 = s.alloc.2 := by
  obtain ⟨a, hcall, h⟩ := bind_eq_ok.mp h
  obtain rfl := Except.ok.inj h
  obtain ⟨b, -, hcall⟩ := bind_eq_ok.mp hcall
  obtain rfl := Except.ok.inj hcall
  rfl

/-- The call has only taken since `s₀`. -/
structure Taking (W : Set (ℕ × ℕ)) (s₀ : Phys σ) (s : Phys (σ × List PageEvent)) : Prop extends
    TablesSince W s₀ s where
  present : ∀ w ∈ W, slotPresent s₀ w = true → slotPresent s w = true
  log : ∀ ptr, .free ptr ∉ s.alloc.2

/-- The call gives back what it has taken since `s₀`, where the blocks `live₀` were live. -/
structure Giving (W live₀ : Set (ℕ × ℕ)) (s₀ : Phys σ) (s : Phys (σ × List PageEvent)) : Prop extends
    TablesSince W s₀ s where
  log : ∀ ptr, .alloc ptr ∈ s.alloc.2 → ptr ∉ blockStarts live₀

theorem Taking.start (W : Set (ℕ × ℕ)) (s₀ : Phys σ) : Taking W s₀ s₀.withLog where
  same _ _ _ _ := rfl
  filled _ _ hnew hpres := absurd (hpres.symm.trans hnew) (by decide)
  present _ _ hpres := hpres
  log _ := List.not_mem_nil

theorem Taking.of_mem (h : Taking W s₀ s) (hmem : s'.mem = s.mem)
    (hlog : ∀ ptr, .free ptr ∉ s'.alloc.2) : Taking W s₀ s' where
  toTablesSince := h.toTablesSince.of_mem hmem
  present w hw hold := (slotPresent_congr hmem w).trans (h.present w hw hold)
  log := hlog

/-- An allocation is not a free. -/
theorem KernelAlloc.logged_alloc_noFree {a a' : σ × List PageEvent} {size : ℕ} {zone : Zone} {ptr : ℕ}
    (h : K.logged.buddyAllocPages size zone a = .ok (ptr, a')) (hlog : ∀ q, .free q ∉ a.2) :
    ∀ q, .free q ∉ a'.2 := by
  intro q
  rw [KernelAlloc.logged_alloc_log h]
  split
  · exact hlog q
  · simpa using hlog q

/-- **`vmm_map_page`** takes. -/
theorem Taking.mapPage (hA : K.logged.toPageAlloc.Lawful U) (h : PageTables U W L s)
    (htake : Taking W s₀ s) {pd v p flags : ℕ} (hw : (pd, v / 4096 / 1024) ∈ W)
    (hflag : flagIsSet flags ptePresentBit = true)
    (hrun : vmmMapPage K.logged.toPageAlloc pd v p flags s = .ok (true, s')) : Taking W s₀ s' := by
  rw [← getPdeIndex_eq] at hw
  have hwrites := vmmMapPage_writes hrun
  refine ⟨htake.toTablesSince.mapPage hA h htake.present hw hflag hwrites, fun w hw' hold => ?_, ?_⟩
  · exact (hwrites.table_kept hA h hw hw' (htake.present w hw' hold)).1
  · cases hwrites with
    | newTable _ halloc => exact KernelAlloc.logged_alloc_noFree halloc htake.log
    | userTable => exact htake.log
    | table => exact htake.log

/-- **The loop that takes frames** takes. -/
theorem Taking.allocFrames {nr : ℕ} (k : ℕ) : ∀ {frames frames' : List ℕ} {ok : Bool}
    {s : Phys (σ × List PageEvent)}, Taking W s₀ s →
    allocFrames K.logged.vmaEnv nr k frames s = .ok (ok, frames', s') → Taking W s₀ s' := by
  induction k with
  | zero =>
    intro frames frames' ok s htake hrun
    obtain ⟨-, -, rfl⟩ := ok_triple_inj hrun
    exact htake
  | succ k ih =>
    intro frames frames' ok s htake hrun
    rw [Kfs.Memory.allocFrames] at hrun
    obtain ⟨⟨page, s₁⟩, halloc, hrun⟩ := bind_eq_ok.mp hrun
    obtain ⟨hcall, hmem⟩ := PageAlloc.allocOn_ok halloc
    have htake₁ := htake.of_mem hmem (KernelAlloc.logged_alloc_noFree hcall htake.log)
    dsimp only at hrun
    split at hrun
    · obtain ⟨-, -, rfl⟩ := ok_triple_inj hrun
      exact htake₁
    · exact ih htake₁ hrun

/-- **Where nothing has been given back, a block that was handed out was not live.** -/
theorem Balanced.fresh {live₀ live : Set (ℕ × ℕ)} {log : List PageEvent} (h : Balanced live₀ live log)
    (hlog : ∀ ptr, .free ptr ∉ log) {ptr : ℕ} (hptr : .alloc ptr ∈ log) : ptr ∉ blockStarts live₀ := by
  intro hold
  have hbal := h ptr
  rw [Set.indicator_of_mem hold, List.count_eq_zero_of_not_mem (hlog ptr), Pi.one_apply] at hbal
  have hcount : 0 < log.count (.alloc ptr) := List.count_pos_iff.mpr hptr
  have hle : (blockStarts live).indicator (1 : ℕ → ℕ) ptr ≤ 1 := Set.indicator_le_self _ _ ptr
  omega

/-- Now the call can give back. -/
theorem Taking.giving (h : PageTables ((ledgerView V s₀.alloc).holding (fun a => objs a.1) O) W L s)
    (htake : Taking W s₀ s) : Giving W (V.live s₀.alloc) s₀ s where
  toTablesSince := htake.toTablesSince
  log _ hptr := h.inv.1.2.balanced.fresh htake.log hptr

theorem Giving.of_mem {live₀ : Set (ℕ × ℕ)} (h : Giving W live₀ s₀ s) (hmem : s'.mem = s.mem)
    (hlog : ∀ ptr, .alloc ptr ∈ s'.alloc.2 → .alloc ptr ∈ s.alloc.2) : Giving W live₀ s₀ s' where
  toTablesSince := h.toTablesSince.of_mem hmem
  log ptr hptr := h.log ptr (hlog ptr hptr)

/-- **`buddy_free_block`** gives back. -/
theorem Giving.freeOn {live₀ : Set (ℕ × ℕ)} (h : Giving W live₀ s₀ s) {f : ℕ}
    (hrun : K.logged.toPageAlloc.freeOn f s = .ok s') : Giving W live₀ s₀ s' := by
  refine h.of_mem (PageAlloc.freeOn_mem hrun) fun ptr hptr => ?_
  obtain ⟨a, hcall, hret⟩ := bind_eq_ok.mp hrun
  obtain rfl := Except.ok.inj hret
  rw [show a.2 = _ from KernelAlloc.logged_free_log hcall] at hptr
  simpa using hptr

/-- **`vmm_unmap_page`** gives back. -/
theorem Giving.unmapPage (hA : K.logged.toPageAlloc.Lawful U) (h : PageTables U W L s)
    {live₀ : Set (ℕ × ℕ)} (hgive : Giving W live₀ s₀ s) {pd v : ℕ} {ok : Bool}
    (hw : (pd, v / 4096 / 1024) ∈ W)
    (hrun : vmmUnmapPage K.logged.toPageAlloc pd v s = .ok (ok, s')) : Giving W live₀ s₀ s' := by
  rw [← getPdeIndex_eq] at hw
  have hwrites := vmmUnmapPage_writes hrun
  refine ⟨hgive.toTablesSince.unmapPage hA h hw hwrites, ?_⟩
  cases hwrites with
  | absent => exact hgive.log
  | entry => exact hgive.log
  | last _ _ hfree =>
    intro ptr hptr
    rw [show _ = _ from KernelAlloc.logged_free_log hfree] at hptr
    exact hgive.log ptr (by simpa using hptr)

/-- All that is left of the call are heap objects: the blocks that others hold are as in `s₀`, and so is
every entry. -/
structure PagesReturned (V : PageAlloc.View σ) (objs : σ → Set ℕ) (O : Set ℕ) (W L : Set (ℕ × ℕ))
    (s₀ : Phys σ) (s : Phys (σ × List PageEvent)) : Prop where
  tables : PageTables ((ledgerView V s₀.alloc).holding (fun a => objs a.1) O) W L s
  giving : Giving W (V.live s₀.alloc) s₀ s
  entry : ∀ pd n, (pd, n / 1024) ∈ W → entryAt s pd n = entryAt s₀ pd n

/-- **`kfree`** leaves it so. -/
theorem PagesReturned.kfree (hK : K.Lawful V objs) (h : PagesReturned V objs O W L s₀ s) {ptr : ℕ}
    (hptr : ptr ∈ O) (hrun : K.logged.kfreeOn ptr s = .ok s') :
    PagesReturned V objs (O \ {ptr}) W L s₀ s' := by
  have hKL := hK.logged.and (hK.booksKept s₀.alloc)
  obtain ⟨hmem, htables⟩ := h.tables.kfree_spec hKL hptr hrun
  have hlog := KernelAlloc.logged_kfreeOn_log hrun
  refine ⟨htables, h.giving.of_mem hmem fun q hq => hlog ▸ hq, fun pd n hw => ?_⟩
  exact (entryAt_congr hmem pd n).trans (h.entry pd n hw)

/-- **The books of a call whose pages are returned.** -/
theorem PagesReturned.givenBack (h₀ : PageTables (V.holding objs O') W L s₀)
    (h : PagesReturned V objs O W L s₀ s) : GivenBack s.alloc.2 := by
  have hinv := h.tables.inv.1
  refine ⟨hinv.1.2.once, fun ptr hptr => hinv.2.balanced.count_eq ?_⟩
  have hnew := h.giving.log ptr hptr
  refine ⟨fun hin => ?_, fun hold => absurd hold hnew⟩
  obtain ⟨b, hb, rfl⟩ := hin
  refine ⟨b, ?_, rfl⟩
  have hlive₀ : V.live s₀.alloc = _ := h₀.live
  have hlive : V.live s.alloc.1 = _ := h.tables.live
  rw [hlive] at hb
  rw [hlive₀]
  exact hb.imp id fun hb => h.giving.toTablesSince.subset h.entry hb

end Phases

/-! ## The pages of the area -/

section Pages

variable {σ : Type} {K : KernelAlloc σ} {V : PageAlloc.View σ} {U : PageAlloc.View (σ × List PageEvent)}
  {objs : σ → Set ℕ} {O : Set ℕ} {W L : Set (ℕ × ℕ)} {s₀ : Phys σ}
  {s s' : Phys (σ × List PageEvent)} {pd start nr : ℕ} {frames : List ℕ}

/-- The frames of an array that `vma_destroy_area` has to give back, and what is mapped there: only
pages with a frame differ from `s₀`. -/
structure FramesTaken (U : PageAlloc.View (σ × List PageEvent)) (W L : Set (ℕ × ℕ)) (s₀ : Phys σ)
    (pd start : ℕ) (frames : List ℕ) (s : Phys (σ × List PageEvent)) : Prop where
  tables : PageTables U W (L ∪ frameBlocks frames) s
  taking : Taking W s₀ s
  nodup : (frames.filter (· ≠ 0)).Nodup
  frame : ∀ f ∈ frames, f ≠ 0 → IsFrame W L f
  entry : ∀ pd' n, (pd', n / 1024) ∈ W →
    ¬ (pd' = pd ∧ ∃ i < frames.length, n = start / 4096 + i ∧ frames.getD i 0 ≠ 0) →
      entryAt s pd' n = entryAt s₀ pd' n

/-- The new frames of an array and the entries that are still 0. -/
theorem filter_nodup_append {new : List ℕ} (hnodup : new.Nodup) (k : ℕ) :
    ((new ++ List.replicate k 0).filter (· ≠ 0)).Nodup := by
  have hzero : (List.replicate k 0).filter (fun f => decide (f ≠ 0)) = [] := by simp
  rw [List.filter_append, hzero, List.append_nil]
  exact hnodup.filter _

/-- **A failing `vma_map_area`**: some frames are missing, or all are there and some pages are not
mapped. -/
theorem vmaMapArea_fails (hA : K.logged.toPageAlloc.Lawful U) (h : PageTables U W L s)
    (htake : Taking W s₀ s) (hentry : ∀ pd n, (pd, n / 1024) ∈ W → entryAt s pd n = entryAt s₀ pd n)
    {ptr : ℕ} {area area' : VmArea}
    (hrun : vmaMapArea K.logged.vmaEnv area pd s = .ok (false, area', s'))
    (hpages : area.pages = some { addr := ptr, frames := List.replicate area.nrPages 0 })
    (hflag : flagIsSet area.pteFlags ptePresentBit = true)
    (hend : area.startVaddr + area.nrPages * 4096 ≤ 2 ^ 32)
    (hslots : ∀ n < area.nrPages, (pd, (area.startVaddr / 4096 + n) / 1024) ∈ W) :
    ∃ frames, area' = { area with pages := some { addr := ptr, frames := frames } } ∧
      frames.length = area.nrPages ∧ FramesTaken U W L s₀ pd area.startVaddr frames s' := by
  unfold vmaMapArea at hrun
  rw [hpages] at hrun
  simp only at hrun
  obtain ⟨⟨ok₁, frames, s₁⟩, halloc, hrun⟩ := bind_eq_ok.mp hrun
  have htake₁ := htake.allocFrames _ halloc
  have halloc : allocFrames K.logged.vmaEnv (([] : List ℕ).length + area.nrPages) area.nrPages
      ([] ++ List.replicate area.nrPages 0) s = .ok (ok₁, frames, s₁) := by
    rw [List.length_nil, Nat.zero_add, List.nil_append]
    exact halloc
  obtain ⟨new, hframes, hle, hfull, hnodup, hnew, hmem, htables⟩ :=
    PageTables.allocFrames_spec hA area.nrPages [] h halloc
  rw [List.nil_append] at hframes
  subst hframes
  have hlen : (new ++ List.replicate (area.nrPages - new.length) 0).length = area.nrPages := by
    simp only [List.length_append, List.length_replicate]
    omega
  have hframe : ∀ f ∈ new ++ List.replicate (area.nrPages - new.length) 0, f ≠ 0 → IsFrame W L f := by
    intro f hf hne
    rcases List.mem_append.mp hf with hf | hf
    · exact (hnew f hf).2
    · exact absurd (List.eq_of_mem_replicate hf) hne
  have hblocks : frameBlocks (new ++ List.replicate (area.nrPages - new.length) 0) =
      frameBlocks new := by
    rw [frameBlocks_append, frameBlocks_replicate, Set.union_empty]
  cases ok₁ with
  | false =>
    -- the allocator was out of pages, and nothing has been mapped
    obtain ⟨-, rfl, rfl⟩ := ok_triple_inj hrun
    refine ⟨_, rfl, hlen, ?_, htake₁, filter_nodup_append hnodup _, hframe, fun pd' n hw _ => ?_⟩
    · rw [hblocks]
      exact htables
    · exact (entryAt_congr hmem pd' n).trans (hentry pd' n hw)
  | true =>
    simp only [Bool.not_true, Bool.false_eq_true, if_false] at hrun
    obtain ⟨⟨ok₂, s₂⟩, hmap, hrun⟩ := bind_eq_ok.mp hrun
    obtain ⟨-, rfl, rfl⟩ := ok_triple_inj hrun
    have hmap : mapFrames K.logged.vmaEnv pd area.startVaddr area.pteFlags
        (new ++ List.replicate (area.nrPages - new.length) 0) (0 + area.nrPages) area.nrPages s₁ =
        .ok (ok₂, s₂) := by
      rw [Nat.zero_add]
      exact hmap
    obtain ⟨htables₂, htake₂, m, hm, -, hmapped⟩ := PageTables.mapFrames_run hA hflag
      (I := Taking W s₀) (fun h hw htake hrun => htake.mapPage hA h hw hflag hrun) area.nrPages 0
      (by rwa [Nat.zero_add]) (by rwa [Nat.zero_add]) htables htake₁ hmap
    refine ⟨_, rfl, hlen, ?_, htake₂, filter_nodup_append hnodup _, hframe, fun pd' n hw hout => ?_⟩
    · rw [hblocks]
      exact htables₂
    · rw [hmapped pd' n hw, if_neg, entryAt_congr hmem, hentry pd' n hw]
      rintro ⟨hpd, hlo, hhi⟩
      -- every entry of the array is a frame
      have hlt : n - area.startVaddr / 4096 < new.length := by
        have := hfull rfl
        omega
      refine hout ⟨hpd, n - area.startVaddr / 4096, by omega, by omega, ?_⟩
      rw [List.getD_append _ _ _ _ hlt, List.getD_eq_getElem _ _ hlt]
      exact (hnew _ (List.getElem_mem hlt)).1

/-- **`vma_destroy_area` gives the frames back**: where the pages were not mapped in `s₀`, the entries
are those of `s₀`. -/
theorem FramesTaken.release (hA : K.logged.toPageAlloc.Lawful
      ((ledgerView V s₀.alloc).holding (fun a => objs a.1) O))
    (h : FramesTaken ((ledgerView V s₀.alloc).holding (fun a => objs a.1) O) W L s₀ pd start frames s)
    (hend : start + frames.length * 4096 ≤ 2 ^ 32)
    (hslots : ∀ n < frames.length, (pd, (start / 4096 + n) / 1024) ∈ W)
    (hbare : ∀ n < frames.length, entryAt s₀ pd (start / 4096 + n) = none)
    (hrun : (List.range frames.length).foldlM (releaseFrame K.logged.vmaEnv pd start frames) s = .ok s') :
    PagesReturned V objs O W L s₀ s' := by
  rw [List.range_eq_range'] at hrun
  obtain ⟨htables, hgive, hentry⟩ := PageTables.releaseFrames_run hA
    (I := Giving W (V.live s₀.alloc) s₀) (fun h hw hgive hrun => hgive.unmapPage hA h hw hrun)
    (fun hgive hrun => hgive.freeOn hrun) hend hslots h.frame frames.length 0 (Nat.zero_add _) h.nodup
    h.tables (h.taking.giving h.tables) hrun
  refine ⟨htables, hgive, fun pd' n hw => ?_⟩
  rw [hentry pd' n hw]
  split
  · next hin =>
    -- a page with a frame was not mapped before
    obtain ⟨rfl, hlo, hhi, -⟩ := hin
    have hnone := hbare (n - start / 4096) (by omega)
    rw [show start / 4096 + (n - start / 4096) = n by omega] at hnone
    exact hnone.symm
  · next hout =>
    refine h.entry pd' n hw ?_
    rintro ⟨hpd, i, hi, rfl, hne⟩
    exact hout ⟨hpd, by omega, by omega, by rwa [Nat.add_sub_cancel_left]⟩

end Pages

/-! ## The area list -/

/-- The place and the state of an area. -/
def VmArea.extent (a : VmArea) : ℕ × ℕ × VmAreaState := (a.startVaddr, a.size, a.state)

section Lists

variable {σ : Type} {env : VmaEnv σ} {c c' : VmaCursor} {s s' : σ} {size : ℕ}

/-- What `vma_split_area` points to: the whole area, or its front with the rest behind it. -/
inductive CutFrom (c : VmaCursor) : VmaCursor → Prop where
  | whole (nr : ℕ) :
      CutFrom c { c with area := { c.area with nrPages := nr, state := .allocated } }
  | front {area rest : VmArea} : area.startVaddr = c.area.startVaddr →
      rest.startVaddr = c.area.startVaddr + area.size → area.size + rest.size = c.area.size →
      rest.state = .free → rest.addr = c.area.addr →
      CutFrom c { c with area := area, after := rest :: c.after }

theorem CutFrom.startVaddr_eq (h : CutFrom c c') : c'.area.startVaddr = c.area.startVaddr := by
  cases h with
  | whole => rfl
  | front hstart => exact hstart

/-- `ALIGN(size, PAGE_SIZE)` is the size of the pages that the array is for. -/
theorem alignUp32_eq_pages (size : ℕ) : alignUp32 size 12 = divRoundUp32 size pageSize * 4096 := by
  unfold alignUp32 divRoundUp32
  exact and_highMask (add32_lt _ _) (by norm_num)

/-- **`vma_split_area`** on a free area: it fails without a trace, or what it points to is the area or a
part of it. -/
theorem vmaSplitArea_cases (hfree : c.area.state = .free)
    (hend : c.area.startVaddr + c.area.size < 2 ^ 32) {split : Option VmaCursor}
    (hrun : vmaSplitArea env c size s = .ok (split, s')) :
    (split = none ∧ (s' = s ∨ env.kmalloc sizeofVmArea gfpKernelZero s = .ok (0, s'))) ∨
    ∃ c', split = some c' ∧ CutFrom c c' ∧ alignUp32 size 12 ≤ c.area.size ∧
      (s' = s ∨ ∃ addr, addr ≠ 0 ∧ env.kmalloc sizeofVmArea gfpKernelZero s = .ok (addr, s')) := by
  unfold vmaSplitArea at hrun
  simp only at hrun
  split at hrun
  · -- too small
    obtain ⟨rfl, rfl⟩ := Prod.mk.inj (Except.ok.inj hrun)
    exact Or.inl ⟨rfl, Or.inl rfl⟩
  next hfit =>
  have hle := not_lt.mp hfit
  split at hrun
  · obtain ⟨rfl, rfl⟩ := Prod.mk.inj (Except.ok.inj hrun)
    exact Or.inr ⟨_, rfl, .whole _, hle, Or.inl rfl⟩
  · obtain ⟨⟨addr, s₁⟩, hkmalloc, hrun⟩ := bind_eq_ok.mp hrun
    dsimp only at hrun
    split at hrun
    · next hnull =>
      obtain ⟨rfl, rfl⟩ := Prod.mk.inj (Except.ok.inj hrun)
      exact Or.inl ⟨rfl, Or.inr (hnull ▸ hkmalloc)⟩
    · next hne =>
      obtain ⟨rfl, rfl⟩ := Prod.mk.inj (Except.ok.inj hrun)
      refine Or.inr ⟨_, rfl, .front rfl ?_ ?_ hfree rfl, hle, Or.inr ⟨addr, hne, hkmalloc⟩⟩
      · exact add32_eq (by omega)
      · show alignUp32 size 12 + sub32 c.area.size (alignUp32 size 12) = c.area.size
        rw [sub32_eq (by omega) hle, Nat.add_sub_cancel' hle]

/-- `merge_neighbor` with neighbours that are not both free. -/
theorem mergeNext_kept (h : ∀ next ∈ c.after.head?, NotBothFree c.area next) :
    mergeNext env c s = .ok (c, s) := by
  obtain ⟨before, area, after⟩ := c
  cases after with
  | nil => rfl
  | cons next rest =>
    unfold mergeNext
    simp only [mergeNeighbor_of_not_free (h next rfl)]

theorem mergePrev_kept (h : ∀ prev ∈ c.before.head?, NotBothFree prev c.area) :
    mergePrev env c s = .ok (c.toList, s) := by
  obtain ⟨before, area, after⟩ := c
  cases before with
  | nil => rfl
  | cons prev rest =>
    unfold mergePrev
    simp only [mergeNeighbor_of_not_free (h prev rfl)]

/-- The condition reads the states. -/
theorem NotBothFree.congr {a a' b b' : VmArea} (h : NotBothFree a b) (ha : a'.state = a.state)
    (hb : b'.state = b.state) : NotBothFree a' b' := by
  unfold NotBothFree at h ⊢
  rwa [ha, hb]

/-- **Merging the area with the rest that it was cut from** brings the list back. -/
theorem CutFrom.merge (h : CutFrom c c') (hchain : c.toList.IsChain NotBothFree)
    (hfree : c.area.state = .free) (hend : c.area.startVaddr + c.area.size < 2 ^ 32) {area : VmArea}
    (hstart : area.startVaddr = c'.area.startVaddr) (hsize : area.size = c'.area.size)
    (hstate : area.state = .free) {areas : List VmArea}
    (hrun : vmaMergeArea env { c' with area := area } s = .ok (areas, s')) :
    areas.map VmArea.extent = c.toList.map VmArea.extent ∧
      (s' = s ∨ env.kfree c.area.addr s = .ok s') := by
  obtain ⟨-, -, hprev, hnext⟩ := VmaCursor.isChain_toList.mp hchain
  -- a free area in the place of the one of the cursor leaves the list as it is
  have hback : ∀ {b : VmArea}, b.startVaddr = c.area.startVaddr → b.size = c.area.size →
      b.state = .free →
        ({ c with area := b } : VmaCursor).toList.map VmArea.extent = c.toList.map VmArea.extent := by
    intro b h₁ h₂ h₃
    have hext : b.extent = c.area.extent := by
      unfold VmArea.extent
      rw [h₁, h₂, h₃, hfree]
    simp only [VmaCursor.toList, List.map_append, List.map_cons, hext]
  have hnext : ∀ next ∈ c.after.head?, NotBothFree area next :=
    fun next hn => (hnext next hn).congr (hstate.trans hfree.symm) rfl
  have hlast : ∀ (c₁ : VmaCursor) (t : σ), c₁.before = c.before → c₁.area.state = .free →
      mergePrev env c₁ t = .ok (c₁.toList, t) := by
    intro c₁ t hbefore hb
    apply mergePrev_kept
    intro prev hp
    rw [hbefore] at hp
    exact (hprev prev hp).congr rfl (hb.trans hfree.symm)
  unfold vmaMergeArea at hrun
  cases h with
  | whole nr =>
    rw [mergeNext_kept hnext, ok_bind] at hrun
    have hlast := hlast { c with area := area } s rfl hstate
    obtain ⟨rfl, rfl⟩ := Prod.mk.inj (Except.ok.inj (hlast.symm.trans hrun))
    exact ⟨hback hstart hsize hstate, Or.inl rfl⟩
  | @front b rest hb hrest hsum hrfree haddr =>
    dsimp only at hstart hsize
    have hmerge := mergeNeighbor_of_free hstate hrfree (by omega) (by omega)
    obtain ⟨⟨c₁, s₁⟩, hfirst, hrun⟩ := bind_eq_ok.mp hrun
    unfold mergeNext at hfirst
    simp only [hmerge] at hfirst
    obtain ⟨s₂, hkfree, hok⟩ := bind_eq_ok.mp hfirst
    obtain ⟨rfl, rfl⟩ := Prod.mk.inj (Except.ok.inj hok)
    have hlast := hlast { c with area := { area with size := area.size + rest.size } } s₂ rfl hstate
    obtain ⟨rfl, rfl⟩ := Prod.mk.inj (Except.ok.inj (hlast.symm.trans hrun))
    refine ⟨hback (hstart.trans hb) ?_ hstate, Or.inr (haddr ▸ hkfree)⟩
    dsimp only
    omega

end Lists

/-! ## The call -/

section Calls

variable {σ : Type} {K : KernelAlloc σ} {V : PageAlloc.View σ} {objs : σ → Set ℕ} {O O' : Set ℕ}
  {W L : Set (ℕ × ℕ)} {s₀ : Phys σ} {s s' : Phys (σ × List PageEvent)} {pd size flags : ℕ}
  {c c' : VmaCursor} {areas : List VmArea}

/-- Since `s₀` the call has only called the heap. -/
structure OnlyHeap (V : PageAlloc.View σ) (objs : σ → Set ℕ) (O : Set ℕ) (W L : Set (ℕ × ℕ))
    (s₀ : Phys σ) (s : Phys (σ × List PageEvent)) : Prop where
  tables : PageTables ((ledgerView V s₀.alloc).holding (fun a => objs a.1) O) W L s
  mem : s.mem = s₀.mem
  log : s.alloc.2 = []

theorem OnlyHeap.start (h₀ : PageTables (V.holding objs O) W L s₀) :
    OnlyHeap V objs O W L s₀ s₀.withLog where
  tables := h₀.withLog
  mem := rfl
  log := rfl

theorem OnlyHeap.kmalloc (hK : K.Lawful V objs) (h : OnlyHeap V objs O W L s₀ s) {n gfp ptr : ℕ}
    (hrun : K.logged.kmallocOn n gfp s = .ok (ptr, s')) :
    (ptr = 0 ∧ OnlyHeap V objs O W L s₀ s') ∨
      ptr ≠ 0 ∧ ptr ∉ O ∧ OnlyHeap V objs (insert ptr O) W L s₀ s' := by
  have hKL := hK.logged.and (hK.booksKept s₀.alloc)
  have hlog := (KernelAlloc.logged_kmallocOn_log hrun).trans h.log
  obtain ⟨hmem, ⟨hnull, htables⟩ | ⟨hne, hnew, htables⟩⟩ := h.tables.kmalloc_spec hKL hrun
  · exact Or.inl ⟨hnull, htables, hmem.trans h.mem, hlog⟩
  · exact Or.inr ⟨hne, hnew, htables, hmem.trans h.mem, hlog⟩

theorem OnlyHeap.taking (h : OnlyHeap V objs O W L s₀ s) : Taking W s₀ s := by
  refine (Taking.start W s₀).of_mem h.mem fun ptr => ?_
  rw [h.log]
  exact List.not_mem_nil

theorem OnlyHeap.entry (h : OnlyHeap V objs O W L s₀ s) (pd n : ℕ) :
    entryAt s pd n = entryAt s₀ pd n :=
  entryAt_congr (show s.mem = s₀.withLog.mem from h.mem) pd n

theorem OnlyHeap.returned (h : OnlyHeap V objs O W L s₀ s) : PagesReturned V objs O W L s₀ s :=
  ⟨h.tables, h.taking.giving h.tables, fun pd n _ => h.entry pd n⟩

/-- **What a failed allocation leaves**: the areas, the translations and the page allocator are as if it
had not been tried. -/
structure AllocUndone (W : Set (ℕ × ℕ)) (old new : List VmArea) (s₀ : Phys σ)
    (s : Phys (σ × List PageEvent)) : Prop where
  areas : new.map VmArea.extent = old.map VmArea.extent
  entry : ∀ pd n, (pd, n / 1024) ∈ W → entryAt s pd n = entryAt s₀ pd n
  givenBack : GivenBack s.alloc.2

theorem PagesReturned.undone (h₀ : PageTables (V.holding objs O') W L s₀)
    (h : PagesReturned V objs O W L s₀ s) (old : List VmArea) : AllocUndone W old old s₀ s :=
  ⟨rfl, h.entry, h.givenBack h₀⟩

/-- The new area is merged into the free one. -/
theorem CutFrom.undone (hK : K.Lawful V objs) (h₀ : PageTables (V.holding objs O') W L s₀)
    (h : CutFrom c c') (hchain : c.toList.IsChain NotBothFree) (hfree : c.area.state = .free)
    (hend : c.area.startVaddr + c.area.size < 2 ^ 32) (hret : PagesReturned V objs O W L s₀ s)
    (haddr : c.area.addr ∈ O) {area : VmArea}
    (hrun : vmaMergeArea K.logged.vmaEnv { c' with area := area } s = .ok (areas, s'))
    (hstart : area.startVaddr = c'.area.startVaddr) (hsize : area.size = c'.area.size)
    (hstate : area.state = .free) : AllocUndone W c.toList areas s₀ s' := by
  obtain ⟨hlist, rfl | hkfree⟩ := h.merge hchain hfree hend hstart hsize hstate hrun
  · exact ⟨hlist, hret.entry, hret.givenBack h₀⟩
  · have hret' := hret.kfree hK haddr hkfree
    exact ⟨hlist, hret'.entry, hret'.givenBack h₀⟩

/-- **`vma_alloc_in_area`** that fails. -/
theorem vmaAllocInArea_undone (hK : K.Lawful V objs) (h₀ : PageTables (V.holding objs O) W L s₀)
    (hchain : c.toList.IsChain NotBothFree) (hfree : c.area.state = .free)
    (hend : c.area.startVaddr + c.area.size < 2 ^ 32) (haddr : c.area.addr ∈ O)
    (hbare : ∀ v, c.area.startVaddr ≤ v → v < c.area.startVaddr + c.area.size →
      entryAt s₀ pd (v / 4096) = none)
    (hslots : ∀ v, c.area.startVaddr ≤ v → v < c.area.startVaddr + c.area.size →
      (pd, v / 4096 / 1024) ∈ W)
    (hflag : flagIsSet flags ptePresentBit = true) {mode : VmaAllocMode}
    (hrun : vmaAllocInArea K.logged.vmaEnv pd c size flags mode s₀.withLog = .ok (none, areas, s')) :
    AllocUndone W c.toList areas s₀ s' := by
  have hKL := hK.logged.and (hK.booksKept s₀.alloc)
  have hheap := OnlyHeap.start h₀
  unfold vmaAllocInArea at hrun
  obtain ⟨⟨split, s₁⟩, hsplitRun, hrun⟩ := bind_eq_ok.mp hrun
  rcases vmaSplitArea_cases hfree hend hsplitRun with ⟨rfl, hs₁⟩ | ⟨c₁, rfl, hsplit, hle, hs₁⟩
  · -- no area of the rounded size, or no node
    obtain ⟨-, rfl, rfl⟩ := ok_triple_inj hrun
    rcases hs₁ with rfl | hkmalloc
    · exact hheap.returned.undone h₀ c.toList
    · rcases hheap.kmalloc hK hkmalloc with ⟨-, hheap₁⟩ | ⟨hne, -⟩
      · exact hheap₁.returned.undone h₀ c.toList
      · exact absurd rfl hne
  · obtain ⟨O₁, hsub, hheap₁⟩ : ∃ O₁, O ⊆ O₁ ∧ OnlyHeap V objs O₁ W L s₀ s₁ := by
      rcases hs₁ with rfl | ⟨addr, hne, hkmalloc⟩
      · exact ⟨O, subset_rfl, hheap⟩
      · rcases hheap.kmalloc hK hkmalloc with ⟨hnull, -⟩ | ⟨-, -, hheap₁⟩
        · exact absurd hnull hne
        · exact ⟨_, Set.subset_insert addr O, hheap₁⟩
    dsimp only at hrun
    obtain ⟨⟨ptr, s₂⟩, hkmalloc, hrun⟩ := bind_eq_ok.mp hrun
    dsimp only at hrun
    rcases hheap₁.kmalloc hK hkmalloc with ⟨rfl, hheap₂⟩ | ⟨hne, hnew, hheap₂⟩
    · -- no array
      rw [if_pos rfl] at hrun
      obtain ⟨⟨areas₁, s₃⟩, hdestroy, hok⟩ := bind_eq_ok.mp hrun
      obtain ⟨-, rfl, rfl⟩ := ok_triple_inj hok
      obtain ⟨s₄, hrelease, hmerge⟩ := bind_eq_ok.mp hdestroy
      obtain rfl := Except.ok.inj hrelease
      exact hsplit.undone hK h₀ hchain hfree hend hheap₂.returned (hsub haddr) hmerge rfl rfl rfl
    · rw [if_neg hne] at hrun
      cases mode with
      | lazy => cases (Prod.mk.inj (Except.ok.inj hrun)).1
      | eager =>
        dsimp only at hrun
        obtain ⟨⟨ok, area, s₃⟩, hmap, hrun⟩ := bind_eq_ok.mp hrun
        dsimp only at hrun
        cases ok with
        | true => cases (Prod.mk.inj (Except.ok.inj hrun)).1
        | false =>
          obtain ⟨⟨areas₁, s₄⟩, hdestroy, hok⟩ := bind_eq_ok.mp hrun
          obtain ⟨-, rfl, rfl⟩ := ok_triple_inj hok
          -- the pages of the array lie in the free area
          rw [alignUp32_eq_pages] at hle
          have hstart := hsplit.startVaddr_eq
          have hpage : ∀ n < divRoundUp32 size pageSize,
              c₁.area.startVaddr / 4096 + n = (c.area.startVaddr + n * 4096) / 4096 ∧
                c.area.startVaddr + n * 4096 < c.area.startVaddr + c.area.size := by
            intro n hn
            omega
          have hslots₁ : ∀ n < divRoundUp32 size pageSize,
              (pd, (c₁.area.startVaddr / 4096 + n) / 1024) ∈ W := by
            intro n hn
            rw [(hpage n hn).1]
            exact hslots _ (Nat.le_add_right _ _) (hpage n hn).2
          have hbare₁ : ∀ n < divRoundUp32 size pageSize,
              entryAt s₀ pd (c₁.area.startVaddr / 4096 + n) = none := by
            intro n hn
            rw [(hpage n hn).1]
            exact hbare _ (Nat.le_add_right _ _) (hpage n hn).2
          have hend₁ : c₁.area.startVaddr + divRoundUp32 size pageSize * 4096 ≤ 2 ^ 32 := by omega
          obtain ⟨frames, rfl, hlen, htaken⟩ := vmaMapArea_fails (hKL.pages _) hheap₂.tables
            hheap₂.taking (fun pd n _ => hheap₂.entry pd n) hmap rfl hflag hend₁ hslots₁
          dsimp only at hlen htaken
          obtain ⟨s₅, hrelease, hmerge⟩ := bind_eq_ok.mp hdestroy
          obtain ⟨s₆, hloop, hkfree⟩ := bind_eq_ok.mp hrelease
          dsimp only at hloop
          rw [← hlen] at hloop hend₁ hslots₁ hbare₁
          have hret := htaken.release (hKL.pages _) hend₁ hslots₁ hbare₁ hloop
          have hret' := hret.kfree hK (Set.mem_insert ptr O₁) hkfree
          refine hsplit.undone hK h₀ hchain hfree hend hret' ?_ hmerge rfl rfl rfl
          refine ⟨Set.mem_insert_of_mem ptr (hsub haddr), fun heq => hnew ?_⟩
          rw [← Set.mem_singleton_iff.mp heq]
          exact hsub haddr

/-- **A failed `vma_alloc` is atomic**: whatever call has failed, the areas have the places and states
that they had, no page has gained or lost a translation, and every frame and every page table that the
call has taken is back with the buddy allocator, given back once. -/
theorem vmaAlloc_undone {start stop : ℕ} {areas' : List VmArea} (hK : K.Lawful V objs)
    (h₀ : PageTables (V.holding objs O) W L s₀)
    (htiles : Tiles VmArea.startVaddr VmArea.size start stop areas) (hstop : stop < 2 ^ 32)
    (hchain : areas.IsChain NotBothFree) (hnodes : ∀ a ∈ areas, a.addr ∈ O)
    (hbare : ∀ a ∈ areas, a.state = .free → ∀ v, a.startVaddr ≤ v → v < a.startVaddr + a.size →
      entryAt s₀ pd (v / 4096) = none)
    (hslots : ∀ v, start ≤ v → v < stop → (pd, v / 4096 / 1024) ∈ W)
    (hflag : flagIsSet flags ptePresentBit = true) {hint : ℕ} {mode : VmaAllocMode}
    (hrun : vmaAlloc K.logged.vmaEnv areas pd size flags hint mode s₀.withLog =
      .ok (none, areas', s')) : AllocUndone W areas areas' s₀ s' := by
  unfold vmaAlloc at hrun
  cases hfind : vmaFindFree areas size hint with
  | none =>
    rw [hfind] at hrun
    obtain ⟨-, rfl, rfl⟩ := ok_triple_inj hrun
    exact (OnlyHeap.start h₀).returned.undone h₀ areas
  | some c =>
    rw [hfind] at hrun
    obtain ⟨rfl, hfree, -⟩ := vmaFindFree_some hfind
    have hmem : c.area ∈ c.toList := VmaCursor.mem_toList.mpr (Or.inr (Or.inl rfl))
    obtain ⟨hlow, -, hhigh⟩ := htiles.mem hmem
    apply vmaAllocInArea_undone hK h₀ hchain hfree (by omega) (hnodes _ hmem) (hbare _ hmem hfree) _
      hflag hrun
    intro v hlo hhi
    exact hslots v (hlow.trans hlo) (hhi.trans_le hhigh)

end Calls

/-! ### Two frames without a page table -/

/-- All of `LOWMEM` is taken, and two of 16 pages are asked for. -/
def starvedAlloc : Kern (Phys (BuddyRun × BumpHeap) × Option VmArea × List VmArea ×
    Phys ((BuddyRun × BumpHeap) × List PageEvent)) := do
  let (_, s) ← (bumpKernel buddyPageAlloc).allocOn (64 * 4096) .lowmem freshAreas.phys
  let r ← vmaAlloc (bumpKernel buddyPageAlloc).logged.vmaEnv freshAreas.areas 0x1000 8192 7 0 .eager
    s.withLog
  .ok (s, r)

theorem starvedAlloc_view : starvedAlloc.toOption.map
    (fun r => (r.2.1, r.2.2.1.map VmArea.extent, r.2.2.2.alloc.2)) =
    some (none, [(0x10000, 0x10000, .free)], [.free 0x38001000, .free 0x38000000,
      .alloc 0x38001000, .alloc 0x38000000]) := by
  decide +kernel

theorem vmaAlloc_undone_starvedAlloc : ∃ s areas s', starvedAlloc = .ok (s, none, areas, s') ∧
    AllocUndone (userSlots {0x1000}) freshAreas.areas areas s s' := by
  obtain ⟨⟨s, ret, areas, s'⟩, hrun, hview⟩ := exists_ok_of_toOption_map starvedAlloc_view
  obtain ⟨rfl, -⟩ := Prod.mk.inj hview
  refine ⟨s, areas, s', hrun, ?_⟩
  obtain ⟨⟨ptr, s₁⟩, htake, hcall⟩ := bind_eq_ok.mp hrun
  obtain ⟨r, hcall, hok⟩ := bind_eq_ok.mp hcall
  obtain ⟨hs, rfl⟩ := Prod.mk.inj (Except.ok.inj hok)
  rw [hs] at htake hcall
  obtain ⟨node, -, hareas, htables, hnone⟩ := freshAreas_initial
  obtain ⟨hnode, -⟩ := List.cons.inj hareas
  have hK := bumpKernel_lawful buddyPageAlloc_lawful
  have hmem := (PageAlloc.allocOn_ok htake).2
  obtain ⟨L, h₀⟩ : ∃ L, PageTables ((bumpView buddyView).holding bumpObjs (insert node ∅))
      (userSlots {0x1000}) L s := by
    rcases htables.alloc_spec (hK.pages _) (64 * 4096) .lowmem with hnull | ⟨p, s₂, hrun, hnew⟩
    · obtain ⟨-, rfl⟩ := Prod.mk.inj (Except.ok.inj (htake.symm.trans hnull))
      exact ⟨∅, htables⟩
    · obtain ⟨-, rfl⟩ := Prod.mk.inj (Except.ok.inj (htake.symm.trans hrun))
      exact ⟨_, hnew.tables⟩
  have hone : ∀ a ∈ freshAreas.areas, a.addr = node ∧ a.startVaddr = 0x10000 ∧ a.size = 0x10000 := by
    intro a ha
    obtain rfl := List.mem_singleton.mp ha
    exact ⟨congrArg VmArea.addr hnode, rfl, rfl⟩
  have htiles : Tiles VmArea.startVaddr VmArea.size 0x10000 0x20000 freshAreas.areas :=
    ⟨rfl, by decide, rfl⟩
  have hnodes : ∀ a ∈ freshAreas.areas, a.addr ∈ (insert node ∅ : Set ℕ) :=
    fun a ha => Or.inl (hone a ha).1
  refine vmaAlloc_undone hK h₀ htiles (by decide) (List.IsChain.singleton _) hnodes ?_ ?_ (by decide)
    hcall
  · intro a ha _ v hlo hhi
    obtain ⟨-, hstart, hsize⟩ := hone a ha
    rw [entryAt_congr hmem]
    exact hnone (v / 4096) (by omega) (by omega)
  · intro v hlo hhi
    refine ⟨rfl, ?_⟩
    show v / 4096 / 1024 < 768
    omega

end Kfs.Memory
