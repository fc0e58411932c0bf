import Kfs.Memory.AreaSpec

/-!
# The operations on areas keep what areas own

One lemma for each thing that `vma.c` does to an area: it is split, gets an array, gets frames,
gives them back, is merged with a free neighbour. The composed operations follow, with the area at
the head of the list.
-/

namespace Kfs.Memory

open Kfs.Lib Kfs.Lib.Word32 Kfs.Lib.Dyadic

section Parts

variable {σ : Type} {V : PageAlloc.View σ} {K : KernelAlloc σ} {objs : σ → Set ℕ}
  {W L : Set (ℕ × ℕ)} {O : Set ℕ} {pd : ℕ} {areas : List VmArea} {a b : VmArea} {s s' : Phys σ}

theorem VmArea.frames_of_none (h : a.pages = none) : a.frames = [] := by
  unfold VmArea.frames
  rw [h]
  rfl

theorem VmArea.heapObjects_of_none (h : a.pages = none) : a.heapObjects = [a.addr] := by
  unfold VmArea.heapObjects
  rw [h]
  rfl

theorem VmArea.frames_of_some {p : PageArray} (h : a.pages = some p) : a.frames = p.frames := by
  unfold VmArea.frames
  rw [h]
  rfl

theorem VmArea.heapObjects_of_some {p : PageArray} (h : a.pages = some p) :
    a.heapObjects = [a.addr, p.addr] := by
  unfold VmArea.heapObjects
  rw [h]
  rfl

/-- A call of the heap maps nothing. -/
theorem AreaPart.of_mem (h : AreaPart pd s a) (hmem : s'.mem = s.mem) : AreaPart pd s' a :=
  h.congr fun n _ => entryAt_congr hmem pd n

/-- A part of an area without an array. -/
theorem AreaPart.sub (h : AreaPart pd s a) (hpages : a.pages = none) (hb : b.pages = none)
    (hstart : 4096 ∣ b.startVaddr) (hsize : 4096 ∣ b.size) (hpos : 0 < b.size)
    (hlo : a.startVaddr ≤ b.startVaddr) (hhi : b.startVaddr + b.size ≤ a.startVaddr + a.size) :
    AreaPart pd s b where
  start := hstart
  size := hsize
  pos := hpos
  low := hhi.trans h.low
  length p hp := by
    rw [hb] at hp
    cases hp
  unset i hi _ := by
    have hdvd := h.start
    -- the index of the page in the whole area
    obtain ⟨q, hq⟩ : 4096 ∣ b.startVaddr - a.startVaddr := Nat.dvd_sub hstart hdvd
    have hbase : b.startVaddr = a.startVaddr + 4096 * q := by omega
    have hlt : (q + i) * 4096 < a.size := by linarith
    have hpage : b.startVaddr / 4096 + i = a.startVaddr / 4096 + (q + i) := by omega
    rw [hpage]
    refine h.unset (q + i) hlt ?_
    rw [VmArea.frames_of_none hpages, List.getD_nil]

/-! ## The node and the array -/

/-- **Splitting** an area without an array, with a new node in front. -/
theorem AreasHold.split_spec (hK : K.Lawful V objs)
    (h : AreasHold V objs W L O pd (a :: areas) s) (hpages : a.pages = none) {size flags ptr : ℕ}
    (hrun : K.kmallocOn size flags s = .ok (ptr, s')) (hne : ptr ≠ 0) {r : VmArea}
    (hb : b.addr = ptr ∧ b.pages = none ∧ b.startVaddr = a.startVaddr)
    (hrest : r.addr = a.addr ∧ r.pages = none ∧
      r.startVaddr = a.startVaddr + b.size ∧ b.size + r.size = a.size)
    (hdvd : 4096 ∣ b.size) (hpos : 0 < b.size) (hlt : b.size < a.size) :
    AreasHold V objs W L O pd (b :: r :: areas) s' := by
  obtain ⟨hmem, hnull | ⟨-, hnew, htables⟩⟩ := h.tables.kmalloc_spec hK hrun
  · exact absurd hnull.1 hne
  obtain ⟨hbaddr, hbpages, hbstart⟩ := hb
  obtain ⟨hraddr, hrpages, hrstart, hrsize⟩ := hrest
  have hobj : (b :: r :: areas).flatMap VmArea.heapObjects =
      ptr :: (a :: areas).flatMap VmArea.heapObjects := by
    simp only [List.flatMap_cons, VmArea.heapObjects_of_none hbpages,
      VmArea.heapObjects_of_none hrpages, VmArea.heapObjects_of_none hpages, hbaddr, hraddr,
      List.singleton_append]
  have hfr : (b :: r :: areas).flatMap VmArea.frames = (a :: areas).flatMap VmArea.frames := by
    simp only [List.flatMap_cons, VmArea.frames_of_none hbpages, VmArea.frames_of_none hrpages,
      VmArea.frames_of_none hpages, List.nil_append]
  obtain ⟨howns, hset⟩ := h.objects.insert hnew (List.Perm.refl _)
  have hpart := h.part a List.mem_cons_self
  have hdvda := hpart.start
  have hdvds := hpart.size
  have hapart := List.pairwise_cons.mp h.apart
  refine {
    tables := ?_
    objects := by rw [hobj]; exact howns
    nodup := by rw [hfr]; exact h.nodup
    frame := by rw [hfr]; exact h.frame
    apart := ?_
    part := ?_ }
  · rw [hobj, hfr, ← hset]
    exact htables
  · refine List.pairwise_cons.mpr ⟨fun c hc => ?_, List.pairwise_cons.mpr ⟨fun c hc => ?_, hapart.2⟩⟩
    · rcases List.mem_cons.mp hc with rfl | hc
      · unfold VmArea.Apart
        omega
      · have hac := hapart.1 c hc
        unfold VmArea.Apart at hac ⊢
        omega
    · have hac := hapart.1 c hc
      unfold VmArea.Apart at hac ⊢
      omega
  · refine List.forall_mem_cons.mpr ⟨?_, List.forall_mem_cons.mpr ⟨?_, fun c hc => ?_⟩⟩
    · exact (hpart.sub hpages hbpages (hbstart ▸ hdvda) hdvd hpos (by omega) (by omega)).of_mem hmem
    · exact (hpart.sub hpages hrpages (by omega) (by omega) (by omega) (by omega) (by omega)).of_mem
        hmem
    · exact (h.part c (List.mem_cons_of_mem a hc)).of_mem hmem

/-- **The array** of an area is allocated, with no frames in it. -/
theorem AreasHold.array_spec (hK : K.Lawful V objs)
    (h : AreasHold V objs W L O pd (a :: areas) s) (hpages : a.pages = none) {size flags ptr : ℕ}
    (hrun : K.kmallocOn size flags s = .ok (ptr, s')) (hne : ptr ≠ 0) {n : ℕ}
    (hn : n * 4096 = a.size)
    (hb : b.addr = a.addr ∧ b.pages = some { addr := ptr, frames := List.replicate n 0 } ∧
      b.startVaddr = a.startVaddr ∧ b.size = a.size ∧ b.nrPages = n) :
    AreasHold V objs W L O pd (b :: areas) s' := by
  obtain ⟨hmem, hnull | ⟨-, hnew, htables⟩⟩ := h.tables.kmalloc_spec hK hrun
  · exact absurd hnull.1 hne
  obtain ⟨hbaddr, hbpages, hbstart, hbsize, hbnr⟩ := hb
  -- The array is the only object that is new.
  have hobj : ((b :: areas).flatMap VmArea.heapObjects).Perm
      (ptr :: (a :: areas).flatMap VmArea.heapObjects) := by
    simp only [List.flatMap_cons, VmArea.heapObjects_of_some hbpages,
      VmArea.heapObjects_of_none hpages, hbaddr, List.cons_append, List.nil_append]
    exact List.Perm.swap _ _ _
  have hframes : b.frames = List.replicate n 0 := VmArea.frames_of_some hbpages
  -- All its frames are 0, so that it owns no blocks yet.
  have hblocks : frameBlocks ((b :: areas).flatMap VmArea.frames) =
      frameBlocks ((a :: areas).flatMap VmArea.frames) := by
    simp only [List.flatMap_cons, hframes, VmArea.frames_of_none hpages, frameBlocks_append,
      frameBlocks_replicate, frameBlocks_nil]
  have hold : ∀ f ∈ (b :: areas).flatMap VmArea.frames, f ≠ 0 →
      f ∈ (a :: areas).flatMap VmArea.frames := by
    intro f hf hfne
    simp only [List.flatMap_cons, hframes, List.mem_append] at hf
    rcases hf with hf | hf
    · exact absurd (List.eq_of_mem_replicate hf) hfne
    · rw [List.flatMap_cons]
      exact List.mem_append_right _ hf
  obtain ⟨howns, hset⟩ := h.objects.insert hnew hobj
  have hpart := h.part a List.mem_cons_self
  have hapart := List.pairwise_cons.mp h.apart
  refine {
    tables := ?_
    objects := howns
    nodup := ?_
    frame := fun f hf hfne => h.frame f (hold f hf hfne) hfne
    apart := List.pairwise_cons.mpr ⟨fun c hc => ?_, hapart.2⟩
    part := List.forall_mem_cons.mpr ⟨?_, fun c hc => ?_⟩ }
  · rw [hblocks, ← hset]
    exact htables
  · have hnodup := h.nodup
    simp only [List.flatMap_cons, VmArea.frames_of_none hpages, List.nil_append] at hnodup
    rw [List.flatMap_cons, hframes, List.filter_append]
    have hempty : (List.replicate n 0).filter (fun f => decide (f ≠ 0)) = [] := by simp
    rw [hempty, List.nil_append]
    exact hnodup
  · have hac := hapart.1 c hc
    unfold VmArea.Apart at hac ⊢
    rw [hbstart, hbsize]
    exact hac
  · refine ⟨hbstart ▸ hpart.start, hbsize ▸ hpart.size, hbsize ▸ hpart.pos,
      by rw [hbstart, hbsize]; exact hpart.low, fun p hp => ?_, fun i hi hz => ?_⟩
    · rw [hbpages] at hp
      obtain rfl := Option.some.inj hp
      rw [hbnr, hbsize]
      exact ⟨List.length_replicate, hn⟩
    · rw [hbstart, entryAt_congr hmem]
      refine hpart.unset i (hbsize ▸ hi) ?_
      rw [VmArea.frames_of_none hpages, List.getD_nil]
  · exact (h.part c (List.mem_cons_of_mem a hc)).of_mem hmem

/-- **Merging** two neighbours without arrays frees the node of the second. -/
theorem AreasHold.merge_spec (hK : K.Lawful V objs)
    (h : AreasHold V objs W L O pd (a :: b :: areas) s) (ha : a.pages = none) (hb : b.pages = none)
    (hadj : a.startVaddr + a.size = b.startVaddr) (hrun : K.kfreeOn b.addr s = .ok s') :
    s'.mem = s.mem ∧
      AreasHold V objs W L O pd ({ a with size := a.size + b.size } :: areas) s' := by
  -- The descriptor of `b` is the only object that is given back.
  have hobj : ((a :: b :: areas).flatMap VmArea.heapObjects).Perm
      (b.addr :: ({ a with size := a.size + b.size } :: areas).flatMap VmArea.heapObjects) := by
    simp only [List.flatMap_cons, VmArea.heapObjects_of_none ha, VmArea.heapObjects_of_none hb,
      VmArea.heapObjects_of_none (a := { a with size := a.size + b.size }) ha,
      List.singleton_append]
    exact List.Perm.swap _ _ _
  -- Neither of the two has frames.
  have hfr : ({ a with size := a.size + b.size } :: areas).flatMap VmArea.frames =
      (a :: b :: areas).flatMap VmArea.frames := by
    simp only [List.flatMap_cons, VmArea.frames_of_none ha, VmArea.frames_of_none hb,
      VmArea.frames_of_none (a := { a with size := a.size + b.size }) ha, List.nil_append]
  obtain ⟨hin, howns, hset⟩ := h.objects.erase hobj
  obtain ⟨hmem, htables⟩ := h.tables.kfree_spec hK hin hrun
  have hpa := h.part a List.mem_cons_self
  have hpb := h.part b (List.mem_cons_of_mem a List.mem_cons_self)
  have hdvda := hpa.start
  have hdvds := hpa.size
  have hdvdb := hpb.size
  have hapart := List.pairwise_cons.mp h.apart
  have hapart' := List.pairwise_cons.mp hapart.2
  refine ⟨hmem, {
    tables := ?_
    objects := howns
    nodup := by rw [hfr]; exact h.nodup
    frame := by rw [hfr]; exact h.frame
    apart := List.pairwise_cons.mpr ⟨fun c hc => ?_, hapart'.2⟩
    part := List.forall_mem_cons.mpr ⟨⟨hdvda, ?_, ?_, ?_, fun p hp => ?_, fun i hi _ => ?_⟩,
      fun c hc => ?_⟩ }⟩
  · rw [hfr, ← hset]
    exact htables
  · -- A third area is apart from both, and does not fit in between.
    have hac := hapart.1 c (List.mem_cons_of_mem b hc)
    have hbc := hapart'.1 c hc
    have hcpos := (h.part c (List.mem_cons_of_mem a (List.mem_cons_of_mem b hc))).pos
    unfold VmArea.Apart at hac hbc ⊢
    dsimp only
    omega
  · exact Nat.dvd_add hdvds hdvdb
  · exact Nat.add_pos_left hpa.pos b.size
  · have hlow := hpb.low
    dsimp only
    omega
  · rw [show ({ a with size := a.size + b.size } : VmArea).pages = none from ha] at hp
    cases hp
  · rw [entryAt_congr hmem]
    dsimp only at hi ⊢
    -- A page of the sum is one of `a` or one of `b`.
    by_cases hlt : i * 4096 < a.size
    · refine hpa.unset i hlt ?_
      rw [VmArea.frames_of_none ha, List.getD_nil]
    · obtain ⟨q, hq⟩ := hdvds
      obtain ⟨j, rfl⟩ : ∃ j, i = q + j := ⟨i - q, by omega⟩
      have hj : j * 4096 < b.size := by linarith
      have hpage : a.startVaddr / 4096 + (q + j) = b.startVaddr / 4096 + j := by omega
      rw [hpage]
      refine hpb.unset j hj ?_
      rw [VmArea.frames_of_none hb, List.getD_nil]
  · exact (h.part c (List.mem_cons_of_mem a (List.mem_cons_of_mem b hc))).of_mem hmem

/-! ## Frames -/

/-- A frame of one list is not a frame of another that has none in common with it. -/
theorem IsFrame.append {l l' : List ℕ} (hnodup : ((l ++ l').filter (· ≠ 0)).Nodup)
    (hframe : ∀ f ∈ l ++ l', f ≠ 0 → IsFrame W L f) {f : ℕ} (hf : f ∈ l) (hne : f ≠ 0) :
    IsFrame W (L ∪ frameBlocks l') f := by
  obtain ⟨h1, h2, h3, h4⟩ := hframe f (List.mem_append_left _ hf) hne
  refine ⟨h1, h2, ?_, h4⟩
  rintro (hL | ⟨g, hg, hgne, heq⟩)
  · exact h3 hL
  · have hgdvd := (hframe g (List.mem_append_right _ hg) hgne).dvd
    have hsame : f = g := by
      have := (Prod.mk.inj heq).1
      omega
    subst hsame
    rw [List.filter_append] at hnodup
    have hdis := (List.nodup_append.mp hnodup).2.2
    exact hdis f (List.mem_filter.mpr ⟨hf, decide_eq_true hne⟩) f
      (List.mem_filter.mpr ⟨hg, decide_eq_true hne⟩) rfl

/-- The first area gets new frames in its array. -/
theorem AreasHold.withFrames (h : AreasHold V objs W L O pd (a :: areas) s)
    (hpd : ∀ i < userPdes, (pd, i) ∈ W) {ptr : ℕ} {new : List ℕ}
    (ha : a.pages = some { addr := ptr, frames := List.replicate a.nrPages 0 })
    (hle : new.length ≤ a.nrPages) (hnodup : new.Nodup)
    (hnew : ∀ f ∈ new, f ≠ 0 ∧ IsFrame W (L ∪ frameBlocks ((a :: areas).flatMap VmArea.frames)) f)
    (htables : PageTables
      (V.holding objs (objectSet O ((a :: areas).flatMap VmArea.heapObjects))) W
      (L ∪ frameBlocks ((a :: areas).flatMap VmArea.frames) ∪ frameBlocks new) s')
    (hout : UnchangedOutside W pd a s s')
    (hunset : ∀ i, i * 4096 < a.size → (new ++ List.replicate (a.nrPages - new.length) 0).getD i 0 = 0 →
      entryAt s' pd (a.startVaddr / 4096 + i) = none) :
    AreasHold V objs W L O pd ({ a with
      pages := some ⟨ptr, new ++ List.replicate (a.nrPages - new.length) 0⟩ } :: areas) s' := by
  generalize hb : ({ a with
    pages := some ⟨ptr, new ++ List.replicate (a.nrPages - new.length) 0⟩ } : VmArea) = b
  have hbpages : b.pages = some
      { addr := ptr, frames := new ++ List.replicate (a.nrPages - new.length) 0 } := by
    rw [← hb]
  have hbstart : b.startVaddr = a.startVaddr := by rw [← hb]
  have hbsize : b.size = a.size := by rw [← hb]
  have hbnr : b.nrPages = a.nrPages := by rw [← hb]
  have hobj : b.heapObjects = a.heapObjects := by
    rw [VmArea.heapObjects_of_some hbpages, VmArea.heapObjects_of_some ha, ← hb]
  have hafr : a.frames = List.replicate a.nrPages 0 := VmArea.frames_of_some ha
  have hbfr : b.frames = new ++ List.replicate (a.nrPages - new.length) 0 :=
    VmArea.frames_of_some hbpages
  -- An array without frames owns no blocks, so that only the new ones are added.
  have hold : frameBlocks ((a :: areas).flatMap VmArea.frames) =
      frameBlocks (areas.flatMap VmArea.frames) := by
    rw [List.flatMap_cons, hafr, frameBlocks_append, frameBlocks_replicate, Set.empty_union]
  have hzero : ∀ m : ℕ, (List.replicate m 0).filter (fun f => decide (f ≠ 0)) = [] := by
    intro m
    simp
  have hpart := h.part a List.mem_cons_self
  have hapart := List.pairwise_cons.mp h.apart
  rw [hold] at htables hnew
  -- The fields in turn; `b` is the area with its frames, `areas` the others.
  refine {
    tables := ?_
    objects := ?_
    nodup := ?_
    frame := fun f hf hne => ?_
    apart := List.pairwise_cons.mpr ⟨fun c hc => ?_, hapart.2⟩
    part := List.forall_mem_cons.mpr ⟨?_, fun c hc => ?_⟩ }
  · rw [List.flatMap_cons, hobj, ← List.flatMap_cons, List.flatMap_cons (f := VmArea.frames), hbfr,
      frameBlocks_append, frameBlocks_append, frameBlocks_replicate, Set.union_empty,
      Set.union_comm (frameBlocks new), ← Set.union_assoc]
    exact htables
  · rw [List.flatMap_cons, hobj, ← List.flatMap_cons]
    exact h.objects
  · have hrest := h.nodup
    rw [List.flatMap_cons, hafr, List.filter_append, hzero, List.nil_append] at hrest
    rw [List.flatMap_cons, hbfr, List.filter_append, List.filter_append, hzero, List.append_nil]
    refine List.nodup_append.mpr ⟨hnodup.filter _, hrest, fun f hf g hg heq => ?_⟩
    obtain ⟨hfmem, hfne⟩ := List.mem_filter.mp hf
    -- A new frame was not live before, so it is none of the others'.
    refine (hnew f hfmem).2.fresh (Or.inr ⟨g, (List.mem_filter.mp hg).1, ?_, by rw [heq]⟩)
    rw [← heq]
    exact of_decide_eq_true hfne
  · rw [List.flatMap_cons, hbfr, List.mem_append, List.mem_append] at hf
    rcases hf with (hf | hf) | hf
    · obtain ⟨h1, h2, h3, h4⟩ := (hnew f hf).2
      exact ⟨h1, h2, fun hL => h3 (Or.inl hL), h4⟩
    · exact absurd (List.eq_of_mem_replicate hf) hne
    · refine h.frame f ?_ hne
      rw [List.flatMap_cons]
      exact List.mem_append_right _ hf
  · have hac := hapart.1 c hc
    unfold VmArea.Apart at hac ⊢
    rw [hbstart, hbsize]
    exact hac
  · refine ⟨hbstart ▸ hpart.start, hbsize ▸ hpart.size, hbsize ▸ hpart.pos,
      by rw [hbstart, hbsize]; exact hpart.low, fun p hp => ?_, fun i hi hz => ?_⟩
    · rw [hbpages] at hp
      obtain rfl := Option.some.inj hp
      rw [hbnr, hbsize]
      refine ⟨?_, (hpart.length _ ha).2⟩
      simp only [List.length_append, List.length_replicate]
      omega
    · rw [hbstart]
      exact hunset i (hbsize ▸ hi) (hbfr ▸ hz)
  · have hpc := h.part c (List.mem_cons_of_mem a hc)
    -- The entries of the other areas are outside of what has changed.
    exact hpc.congr fun n hn => hout.entryAt_eq hpd hpart hpc (hapart.1 c hc) hn

/-- **`vma_map_area`** on an area without frames: it returns the area with frames, and `true` only
if every page is mapped to its frame. -/
theorem AreasHold.vmaMapArea_spec (hK : K.Lawful V objs)
    (h : AreasHold V objs W L O pd (a :: areas) s) (hpd : ∀ i < userPdes, (pd, i) ∈ W) {ptr : ℕ}
    (ha : a.pages = some { addr := ptr, frames := List.replicate a.nrPages 0 })
    (hflag : flagIsSet a.pteFlags ptePresentBit = true) {ok : Bool}
    (hrun : vmaMapArea K.vmaEnv a pd s = .ok (ok, b, s')) :
    ∃ frames : List ℕ, b = { a with pages := some { addr := ptr, frames := frames } } ∧
      AreasHold V objs W L O pd (b :: areas) s' ∧ UnchangedOutside W pd a s s' ∧
      (ok = true → ∀ i < a.nrPages, frames.getD i 0 ≠ 0 ∧
        entryAt s' pd (a.startVaddr / 4096 + i) = some (frames.getD i 0 ||| a.pteFlags)) := by
  have hpart := h.part a List.mem_cons_self
  obtain ⟨-, hsize⟩ := hpart.length _ ha
  have hA := hK.pages (objectSet O ((a :: areas).flatMap VmArea.heapObjects))
  -- nothing of the area is mapped
  have hnone : ∀ i, i * 4096 < a.size → entryAt s pd (a.startVaddr / 4096 + i) = none := by
    intro i hi
    refine hpart.unset i hi ?_
    rw [VmArea.frames_of_some ha]
    simp [List.getD_eq_getElem?_getD, List.getElem?_replicate]
    split <;> rfl
  unfold vmaMapArea at hrun
  rw [ha] at hrun
  simp only at hrun
  rw [bind_eq_ok] at hrun
  obtain ⟨⟨ok₁, frames, s₁⟩, halloc, hrun⟩ := hrun
  have halloc' : allocFrames K.vmaEnv (([] : List ℕ).length + a.nrPages) a.nrPages
      ([] ++ List.replicate a.nrPages 0) s = .ok (ok₁, frames, s₁) := by
    rw [List.length_nil, Nat.zero_add, List.nil_append]
    exact halloc
  obtain ⟨new, hframes, hle, hfull, hnodup, hnew, hmem, htables⟩ :=
    PageTables.allocFrames_spec hA a.nrPages [] h.tables halloc'
  rw [List.nil_append] at hframes
  subst hframes
  cases ok₁ with
  | false =>
    obtain ⟨rfl, rfl, rfl⟩ := ok_triple_inj hrun
    refine ⟨_, rfl, ?_, .of_mem hmem, fun hc => (nomatch hc)⟩
    refine h.withFrames hpd ha hle hnodup hnew htables (.of_mem hmem) fun i hi _ => ?_
    rw [entryAt_congr hmem]
    exact hnone i hi
  | true =>
    simp only [Bool.not_true, Bool.false_eq_true, if_false] at hrun
    rw [bind_eq_ok] at hrun
    obtain ⟨⟨ok₂, s₂⟩, hmap, hrun⟩ := hrun
    obtain ⟨rfl, rfl, rfl⟩ := ok_triple_inj hrun
    have hlen := hfull rfl
    have hmap' : mapFrames K.vmaEnv pd a.startVaddr a.pteFlags
        (new ++ List.replicate (a.nrPages - new.length) 0) (0 + a.nrPages) a.nrPages s₁ =
        .ok (ok₂, s₂) := by
      rw [Nat.zero_add]
      exact hmap
    obtain ⟨htables', m, hm, hok, hentry⟩ := PageTables.mapFrames_spec hA hflag hpd
      a.nrPages 0 (by have := hpart.low; omega) htables hmap'
    have hset : ∀ i < a.nrPages,
        (new ++ List.replicate (a.nrPages - new.length) 0).getD i 0 ≠ 0 := by
      intro i hi
      have hlt : i < new.length := by omega
      rw [List.getD_append _ _ _ _ hlt, List.getD_eq_getElem _ _ hlt]
      exact (hnew _ (List.getElem_mem hlt)).1
    have hout : UnchangedOutside W pd a s s₂ := by
      intro pd' n hw hn
      rw [hentry pd' n hw, if_neg, entryAt_congr hmem]
      rintro ⟨hpd', hlo, hhi⟩
      refine hn ⟨hpd', by omega, ?_⟩
      have := hpart.start
      omega
    refine ⟨_, rfl, ?_, hout, fun hc i hi => ⟨hset i hi, ?_⟩⟩
    · refine h.withFrames hpd ha hle hnodup hnew htables' hout fun i hi hz => ?_
      exact absurd hz (hset i (by omega))
    · have hcov : a.Covers (a.startVaddr / 4096 + i) := hpart.covers_iff.mpr ⟨i, by omega, rfl⟩
      rw [hentry pd _ (hpart.slot hpd hcov), hok hc, if_pos (by omega), Nat.add_sub_cancel_left]

/-- A free area: what `vma_destroy_area` leaves before it merges. -/
def VmArea.freed (a : VmArea) : VmArea :=
  { a with pages := none, nrPages := 0, state := .free, pteFlags := 0 }

/-- **Giving the frames and the array of an area back.** -/
theorem AreasHold.releasePages_spec (hK : K.Lawful V objs)
    (h : AreasHold V objs W L O pd (a :: areas) s) (hpd : ∀ i < userPdes, (pd, i) ∈ W)
    (hrun : releasePages K.vmaEnv pd a s = .ok s') :
    AreasHold V objs W L O pd (a.freed :: areas) s' ∧ UnchangedOutside W pd a s s' := by
  have hpart := h.part a List.mem_cons_self
  have hapart := List.pairwise_cons.mp h.apart
  unfold releasePages at hrun
  cases hpages : a.pages with
  | none =>
    rw [hpages] at hrun
    obtain rfl := Except.ok.inj hrun
    refine ⟨h.setHead rfl hpages.symm rfl rfl fun hne => absurd hpages hne, .of_mem rfl⟩
  | some p =>
    rw [hpages] at hrun
    simp only at hrun
    rw [bind_eq_ok] at hrun
    obtain ⟨s₁, hloop, hfree⟩ := hrun
    obtain ⟨hlen, hsize⟩ := hpart.length p hpages
    have hframes : a.frames = p.frames := VmArea.frames_of_some hpages
    have hnodup := h.nodup
    have hframe := h.frame
    have htables := h.tables
    rw [List.flatMap_cons, hframes] at hnodup hframe
    rw [List.flatMap_cons (f := VmArea.frames), hframes, frameBlocks_append, Set.union_comm
      (frameBlocks p.frames), ← Set.union_assoc] at htables
    have hA := hK.pages (objectSet O ((a :: areas).flatMap VmArea.heapObjects))
    rw [List.range_eq_range'] at hloop
    obtain ⟨htables₁, hentry⟩ := PageTables.releaseFrames_spec hA
      (by rw [hlen, hsize]; exact hpart.low) hpd
      (fun f hf hne => IsFrame.append hnodup hframe hf hne) a.nrPages 0 (by omega)
      (by rw [List.filter_append] at hnodup; exact (List.nodup_append.mp hnodup).1) htables hloop
    -- the array
    have hobj : ((a :: areas).flatMap VmArea.heapObjects).Perm
        (p.addr :: (a.freed :: areas).flatMap VmArea.heapObjects) := by
      simp only [List.flatMap_cons, VmArea.heapObjects_of_some hpages,
        VmArea.heapObjects_of_none (a := a.freed) rfl, List.cons_append, List.nil_append]
      exact List.Perm.swap _ _ _
    obtain ⟨hin, howns, hset⟩ := h.objects.erase hobj
    obtain ⟨hmem, htables'⟩ := htables₁.kfree_spec hK hin hfree
    have hout : UnchangedOutside W pd a s s' := by
      intro pd' n hw hn
      rw [entryAt_congr hmem, hentry pd' n hw, if_neg]
      rintro ⟨hpd', hlo, hhi, -⟩
      refine hn ⟨hpd', by omega, ?_⟩
      have := hpart.start
      omega
    have hfr : (a.freed :: areas).flatMap VmArea.frames = areas.flatMap VmArea.frames := by
      rw [List.flatMap_cons, VmArea.frames_of_none (a := a.freed) rfl, List.nil_append]
    refine ⟨{
      tables := ?_
      objects := howns
      nodup := ?_
      frame := fun f hf => hframe f (List.mem_append_right _ (hfr ▸ hf))
      apart := List.pairwise_cons.mpr ⟨fun c hc => hapart.1 c hc, hapart.2⟩
      part := List.forall_mem_cons.mpr ⟨⟨hpart.start, hpart.size, hpart.pos, hpart.low,
        fun q hq => (nomatch hq), fun i hi _ => ?_⟩, fun c hc => ?_⟩ }, hout⟩
    · rw [hfr, ← hset]
      exact htables'
    · rw [hfr]
      rw [List.filter_append] at hnodup
      exact (List.nodup_append.mp hnodup).2.1
    · -- a page with a frame has been unmapped, a page without one was not mapped
      have hi : i * 4096 < a.size := hi
      show entryAt s' pd (a.startVaddr / 4096 + i) = none
      have hcov : a.Covers (a.startVaddr / 4096 + i) := hpart.covers_iff.mpr ⟨i, hi, rfl⟩
      rw [entryAt_congr hmem, hentry pd _ (hpart.slot hpd hcov), Nat.add_sub_cancel_left]
      by_cases hz : p.frames.getD i 0 = 0
      · rw [if_neg fun hc => hc.2.2.2 hz]
        exact hpart.unset i hi (hframes ▸ hz)
      · rw [if_pos ⟨rfl, by omega, by omega, hz⟩]
    · have hpc := h.part c (List.mem_cons_of_mem a hc)
      exact hpc.congr fun n hn => hout.entryAt_eq hpd hpart hpc (hapart.1 c hc) hn

end Parts

/-! ## Cursors -/

section Cursors

variable {σ : Type} {V : PageAlloc.View σ} {K : KernelAlloc σ} {objs : σ → Set ℕ}
  {W L : Set (ℕ × ℕ)} {O : Set ℕ} {pd : ℕ} {c : VmaCursor} {s s' : Phys σ}

/-- The areas beside the one of a cursor. -/
def VmaCursor.others (c : VmaCursor) : List VmArea := c.before ++ c.after

theorem VmaCursor.toList_perm (c : VmaCursor) : c.toList.Perm (c.area :: c.others) := by
  unfold VmaCursor.toList VmaCursor.others
  refine List.perm_middle.trans (List.Perm.cons _ ?_)
  exact (List.reverse_perm c.before).append_right c.after

/-- Free areas have no array. -/
def FreeBare (areas : List VmArea) : Prop := ∀ a ∈ areas, a.state = .free → a.pages = none

theorem FreeBare.sub {areas areas' : List VmArea} (h : FreeBare areas) (hsub : areas' ⊆ areas) :
    FreeBare areas' :=
  fun a ha => h a (hsub ha)

/-- Two areas are merged only if they are free and follow one another. -/
theorem mergeNeighbor_some {a b m : VmArea} (h : mergeNeighbor a b = some m)
    (ha : a.startVaddr + a.size ≤ kernelVaddrBase) (hb : b.startVaddr + b.size ≤ kernelVaddrBase) :
    a.state = .free ∧ b.state = .free ∧ a.startVaddr + a.size = b.startVaddr ∧
      m = { a with size := a.size + b.size } := by
  have hbase : kernelVaddrBase < 2 ^ 32 := by decide
  unfold mergeNeighbor at h
  split at h
  · cases h
  · next hfree =>
    push Not at hfree
    split at h
    · next hadj =>
      unfold vmaAreasAreNeighbors at hadj
      have hadj := of_decide_eq_true hadj
      rw [add32_eq (by omega)] at hadj
      rw [add32_eq (by omega)] at h
      exact ⟨hfree.1, hfree.2, hadj, (Option.some.inj h).symm⟩
    · cases h

/-- What merging leaves: a free area, and some of the others. -/
structure Merged (V : PageAlloc.View σ) (objs : σ → Set ℕ) (W L : Set (ℕ × ℕ)) (O : Set ℕ) (pd : ℕ)
    (old : List VmArea) (s s' : Phys σ) (f : VmArea) (rest : List VmArea) : Prop where
  hold : AreasHold V objs W L O pd (f :: rest) s'
  mem : s'.mem = s.mem
  state : f.state = .free
  pages : f.pages = none
  subset : rest ⊆ old

theorem AreasHold.mergeNext_hold (hK : K.Lawful V objs)
    (h : AreasHold V objs W L O pd (c.area :: c.others) s) (hbare : FreeBare c.others)
    (hstate : c.area.state = .free) (hpages : c.area.pages = none) {c' : VmaCursor}
    (hrun : mergeNext K.vmaEnv c s = .ok (c', s')) :
    Merged V objs W L O pd c.others s s' c'.area c'.others ∧ c'.before = c.before := by
  obtain ⟨before, area, after⟩ := c
  cases after with
  | nil =>
    obtain ⟨rfl, rfl⟩ := Prod.mk.inj (Except.ok.inj hrun)
    exact ⟨⟨h, rfl, hstate, hpages, List.Subset.refl _⟩, rfl⟩
  | cons next rest =>
    have hnext : next ∈ (before ++ next :: rest) := by simp
    simp only [mergeNext] at hrun
    cases hmerge : mergeNeighbor area next with
    | none =>
      rw [hmerge] at hrun
      obtain ⟨rfl, rfl⟩ := Prod.mk.inj (Except.ok.inj hrun)
      exact ⟨⟨h, rfl, hstate, hpages, List.Subset.refl _⟩, rfl⟩
    | some m =>
      rw [hmerge] at hrun
      simp only at hrun
      rw [bind_eq_ok] at hrun
      obtain ⟨s₁, hfree, hrun⟩ := hrun
      obtain ⟨rfl, rfl⟩ := Prod.mk.inj (Except.ok.inj hrun)
      obtain ⟨-, hnfree, hadj, rfl⟩ := mergeNeighbor_some hmerge
        (h.part area List.mem_cons_self).low (h.part next (List.mem_cons_of_mem _ hnext)).low
      have hperm : (area :: (before ++ next :: rest)).Perm (area :: next :: (before ++ rest)) :=
        List.Perm.cons _ List.perm_middle
      obtain ⟨hmem, hhold⟩ := (h.perm hperm).merge_spec hK hpages (hbare next hnext hnfree) hadj hfree
      refine ⟨⟨hhold, hmem, hstate, hpages, fun a ha => ?_⟩, rfl⟩
      rcases List.mem_append.mp ha with ha | ha
      · exact List.mem_append_left _ ha
      · exact List.mem_append_right _ (List.mem_cons_of_mem next ha)

theorem AreasHold.mergePrev_hold (hK : K.Lawful V objs)
    (h : AreasHold V objs W L O pd (c.area :: c.others) s) (hbare : FreeBare c.others)
    (hstate : c.area.state = .free) (hpages : c.area.pages = none) {areas : List VmArea}
    (hrun : mergePrev K.vmaEnv c s = .ok (areas, s')) :
    ∃ f rest, areas.Perm (f :: rest) ∧ Merged V objs W L O pd c.others s s' f rest := by
  have hperm := c.toList_perm
  obtain ⟨before, area, after⟩ := c
  cases before with
  | nil =>
    obtain ⟨rfl, rfl⟩ := Prod.mk.inj (Except.ok.inj hrun)
    exact ⟨area, _, hperm, ⟨h, rfl, hstate, hpages, List.Subset.refl _⟩⟩
  | cons prev rest =>
    have hprev : prev ∈ prev :: rest ++ after := by simp
    simp only [mergePrev] at hrun
    cases hmerge : mergeNeighbor prev area with
    | none =>
      rw [hmerge] at hrun
      obtain ⟨rfl, rfl⟩ := Prod.mk.inj (Except.ok.inj hrun)
      exact ⟨area, _, hperm, ⟨h, rfl, hstate, hpages, List.Subset.refl _⟩⟩
    | some m =>
      rw [hmerge] at hrun
      simp only at hrun
      rw [bind_eq_ok] at hrun
      obtain ⟨s₁, hfree, hrun⟩ := hrun
      obtain ⟨rfl, rfl⟩ := Prod.mk.inj (Except.ok.inj hrun)
      obtain ⟨hpfree, -, hadj, rfl⟩ := mergeNeighbor_some hmerge
        (h.part prev (List.mem_cons_of_mem _ hprev)).low (h.part area List.mem_cons_self).low
      have hswap : (area :: (prev :: rest ++ after)).Perm (prev :: area :: (rest ++ after)) :=
        List.Perm.swap _ _ _
      obtain ⟨hmem, hhold⟩ := (h.perm hswap).merge_spec hK (hbare prev hprev hpfree) hpages hadj hfree
      refine ⟨{ prev with size := prev.size + area.size }, rest ++ after, ?_,
        ⟨hhold, hmem, hpfree, hbare prev hprev hpfree, fun a ha => ?_⟩⟩
      · refine List.perm_middle.trans (List.Perm.cons _ ?_)
        exact (List.reverse_perm rest).append_right after
      · exact List.mem_cons_of_mem prev ha

/-- **`vma_destroy_area`** gives back what the area owns and leaves the other areas as they are,
apart from free ones that it merges with. -/
theorem AreasHold.vmaDestroyArea_hold (hK : K.Lawful V objs)
    (h : AreasHold V objs W L O pd (c.area :: c.others) s) (hpd : ∀ i < userPdes, (pd, i) ∈ W)
    (hbare : FreeBare c.others) {areas : List VmArea}
    (hrun : vmaDestroyArea K.vmaEnv c pd s = .ok (areas, s')) :
    ∃ f rest, areas.Perm (f :: rest) ∧ AreasHold V objs W L O pd (f :: rest) s' ∧
      f.state = .free ∧ f.pages = none ∧ rest ⊆ c.others ∧ UnchangedOutside W pd c.area s s' := by
  unfold vmaDestroyArea vmaMergeArea at hrun
  rw [bind_eq_ok] at hrun
  obtain ⟨s₁, hrelease, hrun⟩ := hrun
  rw [bind_eq_ok] at hrun
  obtain ⟨⟨c', s₂⟩, hnext, hrun⟩ := hrun
  obtain ⟨h₁, hout⟩ := h.releasePages_spec hK hpd hrelease
  obtain ⟨hm, hbefore⟩ := AreasHold.mergeNext_hold (c := { c with area := c.area.freed }) hK h₁ hbare
    rfl rfl hnext
  obtain ⟨f, rest, hperm, hm'⟩ :=
    hm.hold.mergePrev_hold hK (hbare.sub hm.subset) hm.state hm.pages hrun
  refine ⟨f, rest, hperm, hm'.hold, hm'.state, hm'.pages, fun a ha => hm.subset (hm'.subset ha), ?_⟩
  exact hout.trans (.of_mem (hm'.mem.trans hm.mem))

end Cursors

end Kfs.Memory
