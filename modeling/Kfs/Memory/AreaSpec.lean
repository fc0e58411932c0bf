import Kfs.Memory.KernelAlloc

/-!
# The frames and the translations of areas

What the loops of `vma.c` do to the page allocator and to the page tables, and an invariant of an
area list that holds between any two of its calls: the list owns the heap objects of its nodes and
page arrays and the frames in the arrays, and a page of an area without a frame is not mapped. The
invariant does not see the order of the list, and says nothing about states of areas.
-/

namespace Kfs.Memory

open Kfs.Lib Kfs.Lib.Word32 Kfs.Lib.Dyadic

/-! ## Frames -/

/-- The blocks of the frames of an array; an entry that is 0 is no frame. -/
def frameBlocks (frames : List ℕ) : Set (ℕ × ℕ) := { b | ∃ f ∈ frames, f ≠ 0 ∧ b = (f / 4096, 0) }

@[simp] theorem frameBlocks_nil : frameBlocks [] = ∅ := by
  ext b
  simp [frameBlocks]

theorem frameBlocks_append (l l' : List ℕ) :
    frameBlocks (l ++ l') = frameBlocks l ∪ frameBlocks l' := by
  ext b
  simp only [frameBlocks, List.mem_append, Set.mem_ofPred_eq, Set.mem_union, or_and_right,
    exists_or]

theorem frameBlocks_cons_zero (l : List ℕ) : frameBlocks (0 :: l) = frameBlocks l := by
  ext b
  simp [frameBlocks]

theorem frameBlocks_cons {f : ℕ} (hf : f ≠ 0) (l : List ℕ) :
    frameBlocks (f :: l) = insert (f / 4096, 0) (frameBlocks l) := by
  ext b
  simp [frameBlocks, hf]

theorem frameBlocks_replicate (n : ℕ) : frameBlocks (List.replicate n 0) = ∅ := by
  induction n with
  | zero => exact frameBlocks_nil
  | succ n ih => rw [List.replicate_succ, frameBlocks_cons_zero, ih]

theorem frameBlocks_perm {l l' : List ℕ} (h : l.Perm l') : frameBlocks l = frameBlocks l' := by
  ext b
  simp only [frameBlocks, Set.mem_ofPred_eq, h.mem_iff]

/-- The frame is a page of the allocator that none of the blocks `L` is and no directory. -/
structure IsFrame (W L : Set (ℕ × ℕ)) (f : ℕ) : Prop where
  dvd : 4096 ∣ f
  lt : f < 2 ^ 32
  fresh : (f / 4096, 0) ∉ L
  dir : ∀ w ∈ W, w.1 / 4096 ≠ f / 4096

section Loops

variable {σ : Type} {V : PageAlloc.View σ} {K : KernelAlloc σ} {W L : Set (ℕ × ℕ)} {s s' : Phys σ}

/-- **`buddy_alloc_pages`** for a frame. -/
theorem PageTables.allocFrame_spec (hA : K.toPageAlloc.Lawful V) (h : PageTables V W L s) :
    K.vmaEnv.buddyAllocPages pageSize .highmem s = .ok (0, s) ∨
    ∃ f s', K.vmaEnv.buddyAllocPages pageSize .highmem s = .ok (f, s') ∧ f ≠ 0 ∧ IsFrame W L f ∧
      s'.mem = s.mem ∧ PageTables V W (insert (f / 4096, 0) L) s' := by
  rcases h.alloc_spec hA pageSize .highmem with hnull | ⟨p, s', hrun, hnew⟩
  · exact Or.inl hnull
  · rw [sizeToOrder_pageSize] at hnew
    have hdiv : p * 4096 / 4096 = p := Nat.mul_div_cancel p (by norm_num)
    have hself := self_mem_block p 0
    have hlt : p < maxPages := hnew.inTable p hself
    unfold maxPages at hlt
    refine Or.inr ⟨p * 4096, s', hrun, ?_, ⟨Dvd.intro_left p rfl, by omega, ?_, fun w hw heq => ?_⟩,
      hnew.mem, ?_⟩
    · have := hnew.ne_zero
      omega
    · rw [hdiv]
      exact hnew.fresh
    · -- a directory is not free
      rw [hdiv] at heq
      exact (h.dir w hw).2.2.2 (heq ▸ hnew.subset hself)
    · rw [hdiv]
      exact hnew.tables

/-- **`buddy_free_block`** for a frame. -/
theorem PageTables.freeFrame_spec (hA : K.toPageAlloc.Lawful V) {f : ℕ} (hf : IsFrame W L f)
    (h : PageTables V W (insert (f / 4096, 0) L) s) :
    ∃ s', K.vmaEnv.buddyFreeBlock f s = .ok s' ∧ s'.mem = s.mem ∧ PageTables V W L s' := by
  obtain ⟨s', hrun, hmem, htables, -⟩ := h.free_spec hA (Set.mem_insert _ L) fun w hw hc => by
    rw [block_zero] at hc
    exact hf.dir w hw hc
  rw [Nat.div_mul_cancel hf.dvd] at hrun
  rw [Set.insert_sdiff_self_of_notMem hf.fresh] at htables
  exact ⟨s', hrun, hmem, htables⟩

/-- **The first loop of `vma_map_area`** fills the array from the left, with new frames. -/
theorem PageTables.allocFrames_spec (hA : K.toPageAlloc.Lawful V) (k : ℕ) :
    ∀ {L : Set (ℕ × ℕ)} {s : Phys σ} (done : List ℕ), PageTables V W L s →
    ∀ {ok : Bool} {frames : List ℕ},
    allocFrames K.vmaEnv (done.length + k) k (done ++ List.replicate k 0) s = .ok (ok, frames, s') →
    ∃ new : List ℕ, frames = done ++ (new ++ List.replicate (k - new.length) 0) ∧
      new.length ≤ k ∧ (ok = true → new.length = k) ∧ new.Nodup ∧
      (∀ f ∈ new, f ≠ 0 ∧ IsFrame W L f) ∧ s'.mem = s.mem ∧
      PageTables V W (L ∪ frameBlocks new) s' := by
  induction k with
  | zero =>
    intro L s done h ok frames hrun
    obtain ⟨rfl, rfl, rfl⟩ := ok_triple_inj hrun
    refine ⟨[], rfl, le_rfl, fun _ => rfl, List.nodup_nil, fun f hf => absurd hf List.not_mem_nil, rfl, ?_⟩
    rw [frameBlocks_nil, Set.union_empty]
    exact h
  | succ k ih =>
    intro L s done h ok frames hrun
    rw [allocFrames] at hrun
    rcases h.allocFrame_spec hA with hnull | ⟨f, s₁, halloc, hne, hf, hmem, h₁⟩
    · -- the allocator is out of pages
      rw [hnull, ok_bind] at hrun
      obtain ⟨rfl, rfl, rfl⟩ := ok_triple_inj hrun
      refine ⟨[], by simp, Nat.zero_le _, fun hc => absurd hc Bool.false_ne_true, List.nodup_nil,
        fun f hf => absurd hf List.not_mem_nil, rfl, ?_⟩
      rw [frameBlocks_nil, Set.union_empty]
      exact h
    · rw [halloc, ok_bind] at hrun
      simp only [if_neg hne] at hrun
      have hset : (done ++ List.replicate (k + 1) 0).set (done.length + (k + 1) - (k + 1)) f =
          (done ++ [f]) ++ List.replicate k 0 := by
        rw [Nat.add_sub_cancel, List.replicate_succ]
        simp
      rw [hset, show done.length + (k + 1) = (done ++ [f]).length + k by simp; omega] at hrun
      obtain ⟨new, hframes, hle, hok, hnodup, hnew, hmem', htables⟩ := ih (done ++ [f]) h₁ hrun
      refine ⟨f :: new, ?_, ?_, ?_, ?_, ?_, hmem'.trans hmem, ?_⟩
      · rw [hframes]
        simp
      · simpa using hle
      · intro hc
        simpa using hok hc
      · refine List.nodup_cons.mpr ⟨fun hmem => ?_, hnodup⟩
        exact (hnew f hmem).2.fresh (Set.mem_insert _ _)
      · intro g hg
        rcases List.mem_cons.mp hg with rfl | hg
        · exact ⟨hne, hf⟩
        · obtain ⟨hgne, hgf⟩ := hnew g hg
          exact ⟨hgne, hgf.dvd, hgf.lt, fun hL => hgf.fresh (Set.mem_insert_of_mem _ hL), hgf.dir⟩
      · rw [frameBlocks_cons hne, Set.union_insert, ← Set.insert_union]
        exact htables

/-- The page of an array entry of an area. -/
theorem area_page {start i stop : ℕ} (hstart : 4096 ∣ start) (hstop : start + i * 4096 < stop)
    (hlt : stop ≤ 2 ^ 32) : add32 start (i * pageSize) / 4096 = start / 4096 + i := by
  unfold pageSize
  rw [add32_eq (by omega)]
  omega

/-- The page of an array entry, wherever the area starts. -/
theorem entry_index {start i : ℕ} (hlt : start + i * 4096 < 2 ^ 32) :
    add32 start (i * pageSize) / 4096 = start / 4096 + i := by
  unfold pageSize
  rw [add32_eq hlt]
  omega

/-- **The second loop of `vma_map_area`** maps pages of the array from the left, and keeps what
`vmm_map_page` keeps. -/
theorem PageTables.mapFrames_run (hA : K.toPageAlloc.Lawful V) {pd start flags : ℕ}
    {frames : List ℕ} (hflag : flagIsSet flags ptePresentBit = true) {I : Phys σ → Prop}
    (hI : ∀ {s s' : Phys σ} {v p : ℕ}, PageTables V W L s → (pd, v / 4096 / 1024) ∈ W → I s →
      vmmMapPage K.toPageAlloc pd v p flags s = .ok (true, s') → I s') (k : ℕ) :
    ∀ {s : Phys σ} (i : ℕ), start + (i + k) * 4096 ≤ 2 ^ 32 →
    (∀ n < i + k, (pd, (start / 4096 + n) / 1024) ∈ W) → PageTables V W L s → I s →
    ∀ {ok : Bool}, mapFrames K.vmaEnv pd start flags frames (i + k) k s = .ok (ok, s') →
    PageTables V W L s' ∧ I s' ∧ ∃ m ≤ k, (ok = true → m = k) ∧ ∀ pd' n, (pd', n / 1024) ∈ W →
      entryAt s' pd' n =
        if pd' = pd ∧ start / 4096 + i ≤ n ∧ n < start / 4096 + i + m then
          some (frames.getD (n - start / 4096) 0 ||| flags)
        else entryAt s pd' n := by
  induction k with
  | zero =>
    intro s i _ _ h hs ok hrun
    obtain ⟨rfl, rfl⟩ := Prod.mk.inj (Except.ok.inj hrun)
    refine ⟨h, hs, 0, le_rfl, fun _ => rfl, fun pd' n _ => ?_⟩
    rw [if_neg (by omega)]
  | succ k ih =>
    intro s i hend hslots h hs ok hrun
    rw [mapFrames] at hrun
    simp only [show i + (k + 1) - (k + 1) = i by omega] at hrun
    have hpage : add32 start (i * pageSize) / 4096 = start / 4096 + i := entry_index (by omega)
    have hslot : (pd, add32 start (i * pageSize) / 4096 / 1024) ∈ W := by
      rw [hpage]
      exact hslots i (by omega)
    rcases h.mapPage_spec (p := frames.getD i 0) hA hslot hflag with
      hfail | ⟨s₁, hmap, h₁, hentry⟩
    · rw [show K.vmaEnv.vmmMapPage = vmmMapPage K.toPageAlloc from rfl, hfail, ok_bind] at hrun
      obtain ⟨rfl, rfl⟩ := Prod.mk.inj (Except.ok.inj hrun)
      refine ⟨h, hs, 0, Nat.zero_le _, fun hc => absurd hc Bool.false_ne_true, fun pd' n _ => ?_⟩
      rw [if_neg (by omega)]
    · rw [show K.vmaEnv.vmmMapPage = vmmMapPage K.toPageAlloc from rfl, hmap, ok_bind] at hrun
      simp only [if_true] at hrun
      have hs₁ := hI h hslot hs hmap
      rw [show i + (k + 1) = i + 1 + k by omega] at hrun hend hslots
      obtain ⟨h', hs', m, hm, hok, hentry'⟩ := ih (i + 1) hend hslots h₁ hs₁ hrun
      refine ⟨h', hs', m + 1, by omega, fun hc => by rw [hok hc], fun pd' n hw => ?_⟩
      rw [hentry' pd' n hw, hentry pd' n hw, hpage]
      by_cases hin : pd' = pd ∧ start / 4096 + i ≤ n ∧ n < start / 4096 + i + (m + 1)
      · rw [if_pos hin]
        by_cases hn : n = start / 4096 + i
        · -- the page that this turn has mapped
          rw [if_neg (by omega), if_pos ⟨hin.1, hn⟩, show n - start / 4096 = i by omega]
        · rw [if_pos (by omega)]
      · rw [if_neg hin, if_neg (by omega), if_neg (by omega)]

/-- The pages of a user area lie in user slots. -/
theorem user_slots {pd start k : ℕ} (hpd : ∀ i < userPdes, (pd, i) ∈ W)
    (hend : start + k * 4096 ≤ kernelVaddrBase) : ∀ n < k, (pd, (start / 4096 + n) / 1024) ∈ W := by
  intro n hn
  apply hpd
  unfold kernelVaddrBase at hend
  unfold userPdes
  omega

/-- The loop in a user area. -/
theorem PageTables.mapFrames_spec (hA : K.toPageAlloc.Lawful V) {pd start flags : ℕ}
    {frames : List ℕ} (hflag : flagIsSet flags ptePresentBit = true)
    (hpd : ∀ i < userPdes, (pd, i) ∈ W) (k : ℕ) {s : Phys σ} (i : ℕ)
    (hend : start + (i + k) * 4096 ≤ kernelVaddrBase) (h : PageTables V W L s) {ok : Bool}
    (hrun : mapFrames K.vmaEnv pd start flags frames (i + k) k s = .ok (ok, s')) :
    PageTables V W L s' ∧ ∃ m ≤ k, (ok = true → m = k) ∧ ∀ pd' n, (pd', n / 1024) ∈ W →
      entryAt s' pd' n =
        if pd' = pd ∧ start / 4096 + i ≤ n ∧ n < start / 4096 + i + m then
          some (frames.getD (n - start / 4096) 0 ||| flags)
        else entryAt s pd' n := by
  have hbase : kernelVaddrBase ≤ 2 ^ 32 := by decide
  obtain ⟨h', -, hmapped⟩ := PageTables.mapFrames_run hA hflag (I := fun _ => True)
    (fun _ _ _ _ => trivial) k i (hend.trans hbase) (user_slots hpd hend) h trivial hrun
  exact ⟨h', hmapped⟩

/-- One turn of the loop that gives the frames of an area back. -/
theorem PageTables.releaseFrame_run (hA : K.toPageAlloc.Lawful V) {pd start : ℕ}
    {frames : List ℕ} {I : Phys σ → Prop}
    (hunmap : ∀ {L : Set (ℕ × ℕ)} {s s' : Phys σ} {v : ℕ} {ok : Bool}, PageTables V W L s →
      (pd, v / 4096 / 1024) ∈ W → I s → vmmUnmapPage K.toPageAlloc pd v s = .ok (ok, s') → I s')
    (hfree : ∀ {s s' : Phys σ} {f : ℕ}, I s → K.toPageAlloc.freeOn f s = .ok s' → I s')
    (hframe : ∀ f ∈ frames, f ≠ 0 → IsFrame W L f) {i : ℕ} (hend : start + i * 4096 < 2 ^ 32)
    (hslot : (pd, (start / 4096 + i) / 1024) ∈ W)
    (hlt : i < frames.length) (hnodup : ((frames.drop i).filter (· ≠ 0)).Nodup)
    (h : PageTables V W (L ∪ frameBlocks (frames.drop i)) s) (hs : I s)
    (hrun : releaseFrame K.vmaEnv pd start frames s i = .ok s') :
    PageTables V W (L ∪ frameBlocks (frames.drop (i + 1))) s' ∧ I s' ∧
    ((frames.drop (i + 1)).filter (· ≠ 0)).Nodup ∧
    ∀ pd' n, (pd', n / 1024) ∈ W → entryAt s' pd' n =
      if pd' = pd ∧ n = start / 4096 + i ∧ frames.getD i 0 ≠ 0 then none else entryAt s pd' n := by
  have hget : frames.getD i 0 = frames[i] := by simp [hlt]
  rw [List.drop_eq_getElem_cons hlt] at hnodup h
  unfold releaseFrame at hrun
  rw [hget] at hrun ⊢
  by_cases hzero : frames[i] = 0
  · -- no frame
    rw [if_pos hzero] at hrun
    obtain rfl := Except.ok.inj hrun
    rw [hzero] at hnodup
    rw [hzero, frameBlocks_cons_zero] at h
    refine ⟨h, hs, by simpa using hnodup, fun pd' n _ => ?_⟩
    rw [if_neg fun hc => hc.2.2 hzero]
  · rw [if_neg hzero, bind_eq_ok] at hrun
    obtain ⟨⟨ok, s₁⟩, hunmapRun, hfreeRun⟩ := hrun
    -- The address that is unmapped is that of page `i` of the area.
    have hpage : add32 start (i * pageSize) / 4096 = start / 4096 + i := entry_index hend
    have hslot' : (pd, add32 start (i * pageSize) / 4096 / 1024) ∈ W := by
      rw [hpage]
      exact hslot
    have hs₁ := hunmap h hslot' hs hunmapRun
    obtain ⟨ok', s₁', hunmap', h₁, hentry⟩ := h.unmapPage_spec hA hslot'
    obtain ⟨-, rfl⟩ := Prod.mk.inj (Except.ok.inj (hunmapRun.symm.trans hunmap'))
    have hcons : ((frames[i] :: frames.drop (i + 1)).filter (· ≠ 0)) =
        frames[i] :: (frames.drop (i + 1)).filter (· ≠ 0) :=
      List.filter_cons_of_pos (decide_eq_true hzero)
    rw [hcons, List.nodup_cons] at hnodup
    -- The frame is in no later entry either, so that it can be given back.
    have hf : IsFrame W (L ∪ frameBlocks (frames.drop (i + 1))) frames[i] := by
      obtain ⟨h1, h2, h3, h4⟩ := hframe frames[i] (List.getElem_mem hlt) hzero
      refine ⟨h1, h2, ?_, h4⟩
      rintro (hL | ⟨g, hg, hgne, heq⟩)
      · exact h3 hL
      · -- another entry with this frame
        have hgdvd := (hframe g (List.mem_of_mem_drop hg) hgne).dvd
        have hsame : frames[i] = g := by
          have := (Prod.mk.inj heq).1
          omega
        exact hnodup.1 (List.mem_filter.mpr ⟨hsame ▸ hg, decide_eq_true hzero⟩)
    rw [frameBlocks_cons hzero, Set.union_insert] at h₁
    obtain ⟨s₂, hfree', hmem, h₂⟩ := h₁.freeFrame_spec hA hf
    obtain rfl := Except.ok.inj (hfreeRun.symm.trans hfree')
    refine ⟨h₂, hfree hs₁ hfreeRun, hnodup.2, fun pd' n hw => ?_⟩
    rw [entryAt_congr hmem, hentry pd' n hw, hpage]
    exact if_congr ⟨fun hc => ⟨hc.1, hc.2, hzero⟩, fun hc => ⟨hc.1, hc.2.1⟩⟩ rfl rfl

/-- A turn in a user area. -/
theorem PageTables.releaseFrame_spec (hA : K.toPageAlloc.Lawful V) {pd start : ℕ}
    {frames : List ℕ} (hend : start + frames.length * 4096 ≤ kernelVaddrBase)
    (hpd : ∀ i < userPdes, (pd, i) ∈ W) (hframe : ∀ f ∈ frames, f ≠ 0 → IsFrame W L f) {i : ℕ}
    (hlt : i < frames.length) (hnodup : ((frames.drop i).filter (· ≠ 0)).Nodup)
    (h : PageTables V W (L ∪ frameBlocks (frames.drop i)) s)
    (hrun : releaseFrame K.vmaEnv pd start frames s i = .ok s') :
    PageTables V W (L ∪ frameBlocks (frames.drop (i + 1))) s' ∧
    ((frames.drop (i + 1)).filter (· ≠ 0)).Nodup ∧
    ∀ pd' n, (pd', n / 1024) ∈ W → entryAt s' pd' n =
      if pd' = pd ∧ n = start / 4096 + i ∧ frames.getD i 0 ≠ 0 then none else entryAt s pd' n := by
  have hbase : kernelVaddrBase ≤ 2 ^ 32 := by decide
  obtain ⟨h', -, hrest⟩ := h.releaseFrame_run hA (I := fun _ => True) (fun _ _ _ _ => trivial)
    (fun _ _ => trivial) hframe (by omega) (user_slots hpd hend i hlt) hlt hnodup trivial hrun
  exact ⟨h', hrest⟩

/-- **The loop that gives the frames of an area back** unmaps their pages, and keeps what
`vmm_unmap_page` and `buddy_free_block` keep. -/
theorem PageTables.releaseFrames_run (hA : K.toPageAlloc.Lawful V) {pd start : ℕ}
    {frames : List ℕ} {I : Phys σ → Prop}
    (hunmap : ∀ {L : Set (ℕ × ℕ)} {s s' : Phys σ} {v : ℕ} {ok : Bool}, PageTables V W L s →
      (pd, v / 4096 / 1024) ∈ W → I s → vmmUnmapPage K.toPageAlloc pd v s = .ok (ok, s') → I s')
    (hfree : ∀ {s s' : Phys σ} {f : ℕ}, I s → K.toPageAlloc.freeOn f s = .ok s' → I s')
    (hend : start + frames.length * 4096 ≤ 2 ^ 32)
    (hslots : ∀ n < frames.length, (pd, (start / 4096 + n) / 1024) ∈ W)
    (hframe : ∀ f ∈ frames, f ≠ 0 → IsFrame W L f) (k : ℕ) :
    ∀ {s : Phys σ} (i : ℕ), i + k = frames.length →
    ((frames.drop i).filter (· ≠ 0)).Nodup → PageTables V W (L ∪ frameBlocks (frames.drop i)) s → I s →
    (List.range' i k).foldlM (releaseFrame K.vmaEnv pd start frames) s = .ok s' →
    PageTables V W L s' ∧ I s' ∧ ∀ pd' n, (pd', n / 1024) ∈ W → entryAt s' pd' n =
      if pd' = pd ∧ start / 4096 + i ≤ n ∧ n < start / 4096 + i + k ∧
        frames.getD (n - start / 4096) 0 ≠ 0 then none else entryAt s pd' n := by
  induction k with
  | zero =>
    intro s i hi hnodup h hs hrun
    obtain rfl := Except.ok.inj hrun
    rw [List.drop_eq_nil_of_le (by omega), frameBlocks_nil, Set.union_empty] at h
    refine ⟨h, hs, fun pd' n _ => ?_⟩
    rw [if_neg (by omega)]
  | succ k ih =>
    intro s i hi hnodup h hs hrun
    rw [List.range'_succ, List.foldlM_cons, bind_eq_ok] at hrun
    obtain ⟨s₁, hfirst, hrun⟩ := hrun
    have hlt : i < frames.length := by omega
    obtain ⟨h₁, hs₁, hnodup₁, hentry₁⟩ :=
      h.releaseFrame_run hA hunmap hfree hframe (by omega) (hslots i hlt) hlt hnodup hs hfirst
    obtain ⟨h', hs', hentry⟩ := ih (i + 1) (by omega) hnodup₁ h₁ hs₁ hrun
    refine ⟨h', hs', fun pd' n hw => ?_⟩
    rw [hentry pd' n hw, hentry₁ pd' n hw]
    by_cases hn : n = start / 4096 + i
    · -- the page of this turn
      rw [show n - start / 4096 = i by omega, if_neg (by omega)]
      exact if_congr ⟨fun hc => ⟨hc.1, by omega, by omega, hc.2.2⟩, fun hc => ⟨hc.1, hn, hc.2.2.2⟩⟩
        rfl rfl
    · rw [if_neg (c := pd' = pd ∧ n = start / 4096 + i ∧ frames.getD i 0 ≠ 0) fun hc => hn hc.2.1]
      exact if_congr (by omega) rfl rfl

/-- The loop in a user area. -/
theorem PageTables.releaseFrames_spec (hA : K.toPageAlloc.Lawful V) {pd start : ℕ}
    {frames : List ℕ} (hend : start + frames.length * 4096 ≤ kernelVaddrBase)
    (hpd : ∀ i < userPdes, (pd, i) ∈ W)
    (hframe : ∀ f ∈ frames, f ≠ 0 → IsFrame W L f) (k : ℕ) {s : Phys σ} (i : ℕ)
    (hi : i + k = frames.length) (hnodup : ((frames.drop i).filter (· ≠ 0)).Nodup)
    (h : PageTables V W (L ∪ frameBlocks (frames.drop i)) s)
    (hrun : (List.range' i k).foldlM (releaseFrame K.vmaEnv pd start frames) s = .ok s') :
    PageTables V W L s' ∧ ∀ pd' n, (pd', n / 1024) ∈ W → entryAt s' pd' n =
      if pd' = pd ∧ start / 4096 + i ≤ n ∧ n < start / 4096 + i + k ∧
        frames.getD (n - start / 4096) 0 ≠ 0 then none else entryAt s pd' n := by
  have hbase : kernelVaddrBase ≤ 2 ^ 32 := by decide
  obtain ⟨h', -, hentry⟩ := PageTables.releaseFrames_run hA (I := fun _ => True)
    (fun _ _ _ _ => trivial) (fun _ _ => trivial) (hend.trans hbase) (user_slots hpd hend) hframe k i hi
    hnodup h trivial hrun
  exact ⟨h', hentry⟩

end Loops

/-! ## Heap objects -/

/-- The objects `O` and those of a list. -/
def objectSet (O : Set ℕ) (l : List ℕ) : Set ℕ := O ∪ { o | o ∈ l }

/-- The list names objects besides `O`, each once. -/
def Owns (O : Set ℕ) (l : List ℕ) : Prop := l.Nodup ∧ ∀ o ∈ l, o ∉ O

theorem Owns.insert {O : Set ℕ} {l l' : List ℕ} {ptr : ℕ} (h : Owns O l)
    (hptr : ptr ∉ objectSet O l) (hperm : l'.Perm (ptr :: l)) :
    Owns O l' ∧ insert ptr (objectSet O l) = objectSet O l' := by
  refine ⟨⟨?_, fun o ho => ?_⟩, ?_⟩
  · rw [hperm.nodup_iff, List.nodup_cons]
    exact ⟨fun hl => hptr (Or.inr hl), h.1⟩
  · rcases List.mem_cons.mp (hperm.mem_iff.mp ho) with rfl | ho
    · exact fun hO => hptr (Or.inl hO)
    · exact h.2 o ho
  · ext o
    simp only [objectSet, Set.mem_insert_iff, Set.mem_union, Set.mem_ofPred_eq, hperm.mem_iff,
      List.mem_cons]
    tauto

theorem Owns.erase {O : Set ℕ} {l l' : List ℕ} {ptr : ℕ} (h : Owns O l)
    (hperm : l.Perm (ptr :: l')) :
    ptr ∈ objectSet O l ∧ Owns O l' ∧ objectSet O l \ {ptr} = objectSet O l' := by
  obtain ⟨hnodup, hfresh⟩ := h
  rw [hperm.nodup_iff, List.nodup_cons] at hnodup
  have hmem : ptr ∈ l := hperm.mem_iff.mpr List.mem_cons_self
  refine ⟨Or.inr hmem, ⟨hnodup.2, fun o ho => ?_⟩, ?_⟩
  · exact hfresh o (hperm.mem_iff.mpr (List.mem_cons_of_mem ptr ho))
  · ext o
    simp only [objectSet, Set.mem_sdiff, Set.mem_union, Set.mem_ofPred_eq, Set.mem_singleton_iff,
      hperm.mem_iff, List.mem_cons]
    constructor
    · tauto
    · rintro (hO | hl)
      · exact ⟨Or.inl hO, fun heq => hfresh ptr hmem (heq ▸ hO)⟩
      · exact ⟨Or.inr (Or.inr hl), fun heq => hnodup.1 (heq ▸ hl)⟩

/-! ## Area lists -/

/-- The array of an area, empty for `NULL`. -/
def VmArea.frames (a : VmArea) : List ℕ := a.pages.elim [] PageArray.frames

/-- The heap objects of an area: its node and its array. -/
def VmArea.heapObjects (a : VmArea) : List ℕ := a.addr :: a.pages.elim [] fun p => [p.addr]

/-- The ranges of two areas do not meet. -/
def VmArea.Apart (a b : VmArea) : Prop :=
  a.startVaddr + a.size ≤ b.startVaddr ∨ b.startVaddr + b.size ≤ a.startVaddr

theorem VmArea.Apart.symm {a b : VmArea} (h : a.Apart b) : b.Apart a := Or.symm h

/-- The page lies in the area. -/
def VmArea.Covers (a : VmArea) (n : ℕ) : Prop :=
  a.startVaddr / 4096 ≤ n ∧ n < (a.startVaddr + a.size) / 4096

section Areas

variable {σ : Type}

/-- An area of whole pages; a page of it without a frame is not mapped. -/
structure AreaPart (pd : ℕ) (s : Phys σ) (a : VmArea) : Prop where
  start : 4096 ∣ a.startVaddr
  size : 4096 ∣ a.size
  pos : 0 < a.size
  low : a.startVaddr + a.size ≤ kernelVaddrBase
  length : ∀ p, a.pages = some p → p.frames.length = a.nrPages ∧ a.nrPages * 4096 = a.size
  unset : ∀ i, i * 4096 < a.size → a.frames.getD i 0 = 0 →
    entryAt s pd (a.startVaddr / 4096 + i) = none

/-- The area list owns its heap objects besides `O` and its frames besides `L`. -/
structure AreasHold (V : PageAlloc.View σ) (objs : σ → Set ℕ) (W L : Set (ℕ × ℕ)) (O : Set ℕ)
    (pd : ℕ) (areas : List VmArea) (s : Phys σ) : Prop where
  tables : PageTables (V.holding objs (objectSet O (areas.flatMap VmArea.heapObjects))) W
    (L ∪ frameBlocks (areas.flatMap VmArea.frames)) s
  objects : Owns O (areas.flatMap VmArea.heapObjects)
  nodup : ((areas.flatMap VmArea.frames).filter (· ≠ 0)).Nodup
  frame : ∀ f ∈ areas.flatMap VmArea.frames, f ≠ 0 → IsFrame W L f
  apart : areas.Pairwise VmArea.Apart
  part : ∀ a ∈ areas, AreaPart pd s a

/-- Nothing is mapped differently outside the area. -/
def UnchangedOutside (W : Set (ℕ × ℕ)) (pd : ℕ) (a : VmArea) (s s' : Phys σ) : Prop :=
  ∀ pd' n, (pd', n / 1024) ∈ W → ¬ (pd' = pd ∧ a.Covers n) → entryAt s' pd' n = entryAt s pd' n

variable {V : PageAlloc.View σ} {K : KernelAlloc σ} {objs : σ → Set ℕ} {W L : Set (ℕ × ℕ)}
  {O : Set ℕ} {pd : ℕ} {areas : List VmArea} {a b : VmArea} {s s' : Phys σ}

theorem UnchangedOutside.of_mem (hmem : s'.mem = s.mem) : UnchangedOutside W pd a s s' :=
  fun pd' n _ _ => entryAt_congr hmem pd' n

theorem UnchangedOutside.trans {s'' : Phys σ} (h : UnchangedOutside W pd a s s')
    (h' : UnchangedOutside W pd a s' s'') : UnchangedOutside W pd a s s'' :=
  fun pd' n hw hn => (h' pd' n hw hn).trans (h pd' n hw hn)

/-- A page of an area, by its index. -/
theorem AreaPart.covers_iff (h : AreaPart pd s a) {n : ℕ} :
    a.Covers n ↔ ∃ i, i * 4096 < a.size ∧ n = a.startVaddr / 4096 + i := by
  have hstart := h.start
  have hsize := h.size
  unfold VmArea.Covers
  constructor
  · rintro ⟨hlo, hhi⟩
    exact ⟨n - a.startVaddr / 4096, by omega, by omega⟩
  · rintro ⟨i, hi, rfl⟩
    omega

/-- A page whose address lies in the area. -/
theorem AreaPart.covers_of_mem (h : AreaPart pd s a) {n : ℕ} (hlo : a.startVaddr ≤ n * 4096)
    (hhi : n * 4096 < a.startVaddr + a.size) : a.Covers n := by
  have hstart := h.start
  have hsize := h.size
  unfold VmArea.Covers
  omega

/-- The slots of an area are user slots. -/
theorem AreaPart.slot (h : AreaPart pd s a) (hpd : ∀ i < userPdes, (pd, i) ∈ W) {n : ℕ}
    (hn : a.Covers n) : (pd, n / 1024) ∈ W := by
  apply hpd
  have hlow := h.low
  obtain ⟨-, hhi⟩ := hn
  unfold kernelVaddrBase at hlow
  unfold userPdes
  omega

/-- Areas that are apart have no page in common. -/
theorem AreaPart.not_covers (ha : AreaPart pd s a) (hb : AreaPart pd s b) (hab : a.Apart b) {n : ℕ}
    (hn : b.Covers n) : ¬ a.Covers n := by
  have h1 := ha.start
  have h2 := ha.size
  have h3 := hb.start
  have h4 := hb.size
  unfold VmArea.Covers at hn ⊢
  unfold VmArea.Apart at hab
  omega

/-- What changes inside one area does not concern another. -/
theorem UnchangedOutside.entryAt_eq (h : UnchangedOutside W pd a s s')
    (hpd : ∀ i < userPdes, (pd, i) ∈ W) (ha : AreaPart pd s a) (hb : AreaPart pd s b)
    (hab : a.Apart b) {n : ℕ} (hn : b.Covers n) : entryAt s' pd n = entryAt s pd n :=
  h pd n (hb.slot hpd hn) fun hc => ha.not_covers hb hab hn hc.2

theorem AreaPart.congr (h : AreaPart pd s a)
    (hentry : ∀ n, a.Covers n → entryAt s' pd n = entryAt s pd n) : AreaPart pd s' a where
  start := h.start
  size := h.size
  pos := h.pos
  low := h.low
  length := h.length
  unset i hi hzero := by
    rw [hentry _ (h.covers_iff.mpr ⟨i, hi, rfl⟩)]
    exact h.unset i hi hzero

/-- The invariant does not see the order of the list. -/
theorem AreasHold.perm {areas' : List VmArea} (h : AreasHold V objs W L O pd areas s)
    (hperm : areas.Perm areas') : AreasHold V objs W L O pd areas' s := by
  have hobj := hperm.flatMap_right VmArea.heapObjects
  have hfr := hperm.flatMap_right VmArea.frames
  have hset : objectSet O (areas'.flatMap VmArea.heapObjects) =
      objectSet O (areas.flatMap VmArea.heapObjects) := by
    ext o
    simp only [objectSet, Set.mem_union, Set.mem_ofPred_eq, hobj.mem_iff]
  refine {
    tables := ?_
    objects := ⟨hobj.nodup_iff.mp h.objects.1, fun o ho => h.objects.2 o (hobj.mem_iff.mpr ho)⟩
    nodup := (hfr.filter _).nodup_iff.mp h.nodup
    frame := fun f hf => h.frame f (hfr.mem_iff.mpr hf)
    apart := hperm.pairwise h.apart VmArea.Apart.symm
    part := fun a ha => h.part a (hperm.mem_iff.mpr ha) }
  rw [hset, ← frameBlocks_perm hfr]
  exact h.tables

/-- Changing what the invariant does not see of the first area. -/
theorem AreasHold.setHead (h : AreasHold V objs W L O pd (a :: areas) s) (haddr : b.addr = a.addr)
    (hpages : b.pages = a.pages) (hstart : b.startVaddr = a.startVaddr) (hsize : b.size = a.size)
    (hnr : a.pages ≠ none → b.nrPages = a.nrPages) :
    AreasHold V objs W L O pd (b :: areas) s := by
  have hobj : b.heapObjects = a.heapObjects := by
    unfold VmArea.heapObjects
    rw [haddr, hpages]
  have hfr : b.frames = a.frames := by
    unfold VmArea.frames
    rw [hpages]
  obtain ⟨htables, hobjects, hnodup, hframe, hapart, hpart⟩ := h
  simp only [List.flatMap_cons] at htables hobjects hnodup hframe
  rw [List.pairwise_cons] at hapart
  rw [List.forall_mem_cons] at hpart
  refine ⟨?_, ?_, ?_, ?_, List.pairwise_cons.mpr ⟨fun c hc => ?_, hapart.2⟩,
    List.forall_mem_cons.mpr ⟨?_, hpart.2⟩⟩
  · rw [List.flatMap_cons, List.flatMap_cons, hobj, hfr]
    exact htables
  · rw [List.flatMap_cons, hobj]
    exact hobjects
  · rw [List.flatMap_cons, hfr]
    exact hnodup
  · rw [List.flatMap_cons, hfr]
    exact hframe
  · have hac := hapart.1 c hc
    unfold VmArea.Apart at hac ⊢
    rw [hstart, hsize]
    exact hac
  · obtain ⟨h1, h2, hpos, h3, h4, h5⟩ := hpart.1
    refine ⟨hstart ▸ h1, hsize ▸ h2, hsize ▸ hpos, by rw [hstart, hsize]; exact h3,
      fun p hp => ?_, fun i hi hz => ?_⟩
    · rw [hpages] at hp
      rw [hnr (by rw [hp]; exact Option.some_ne_none p), hsize]
      exact h4 p hp
    · rw [hstart]
      exact h5 i (hsize ▸ hi) (hfr ▸ hz)

end Areas

end Kfs.Memory
