import Kfs.Memory.PageLedger
import Kfs.Memory.Window
import Kfs.Proc.SectionLoad

/-!
# An address space that cannot be built

`userspace_create_new` fails where it gets no directory, no block for a section, no reader, no table for
the window or none for a page. `map_section` gives the block of its own section back, the caller those
of the sections that are mapped, by their `p_addr`, and `vmm_destroy_user_pd` the tables and the
directory. While the space is built its directory stands beside those of the others, whose slots do not
change but for the window.
-/

namespace Kfs.Userspace

open Kfs.Lib Kfs.Lib.Word32 Kfs.Lib.Dyadic Kfs.Memory

section Build

variable {σ : Type} {K : KernelAlloc σ} {V : PageAlloc.View σ} {objs : σ → Set ℕ}
  {Large Spent : σ → ℕ → Prop} {image : KernelImage} {O : Set ℕ} {W L L' : Set (ℕ × ℕ)}
  {cur pd : ℕ} {s₀ s s' : Phys σ}

/-! ## The space beside the others -/

/-- The directory `pd` is being filled beside the slots `W`, of which only that of the window is used. -/
structure Building (V : PageAlloc.View σ) (objs : σ → Set ℕ) (O : Set ℕ) (W L : Set (ℕ × ℕ))
    (cur pd : ℕ) (s₀ s : Phys σ) : Prop where
  tables : PageTables (V.holding objs O) (W ∪ userSlots {pd}) L s
  window : WindowOnly W cur s₀ s

/-- The same with the window closed. -/
structure Idle (V : PageAlloc.View σ) (objs : σ → Set ℕ) (O : Set ℕ) (W L : Set (ℕ × ℕ))
    (cur pd : ℕ) (s₀ s : Phys σ) : Prop extends Building V objs O W L cur pd s₀ s where
  closed : pte s (cur, 1023) 1022 = none

/-- What the current directory and the new one have to do with the slots `W`. -/
structure Beside (W : Set (ℕ × ℕ)) (cur pd : ℕ) (s₀ : Phys σ) : Prop where
  window : (cur, 1023) ∈ W
  new : ∀ w ∈ W, w.1 ≠ pd
  closed : WindowClosed cur s₀

/-- A call of an allocator. -/
theorem Building.of_mem {O' : Set ℕ} (h : Building V objs O W L cur pd s₀ s)
    (hbeside : Beside W cur pd s₀)
    (htables : PageTables (V.holding objs O') (W ∪ userSlots {pd}) L' s') (hmem : s'.mem = s.mem) :
    Building V objs O' W L' cur pd s₀ s' :=
  ⟨htables, h.window.of_same hbeside.window fun w _ => .of_mem hmem w⟩

theorem Idle.of_mem {O' : Set ℕ} (h : Idle V objs O W L cur pd s₀ s) (hbeside : Beside W cur pd s₀)
    (htables : PageTables (V.holding objs O') (W ∪ userSlots {pd}) L' s') (hmem : s'.mem = s.mem) :
    Idle V objs O' W L' cur pd s₀ s' where
  toBuilding := h.toBuilding.of_mem hbeside htables hmem
  closed := by
    rw [(SameSlot.of_mem hmem _).entry 1022 (by norm_num)]
    exact h.closed

/-- A write to a page of `HIGHMEM`. -/
theorem Building.of_sameLow (h : Building V objs O W L cur pd s₀ s) (hbeside : Beside W cur pd s₀)
    (hlow : Phys.SameLow s s') : Building V objs O W L cur pd s₀ s' := by
  obtain ⟨htables, hsame⟩ := h.tables.of_sameLow hlow
  exact ⟨htables, h.window.of_same hbeside.window fun w hw => hsame w (Or.inl hw)⟩

/-- **`vmm_map_page`** of a page of the new space. -/
theorem Building.mapPage (hA : K.toPageAlloc.Lawful (V.holding objs O))
    (h : Building V objs O W L cur pd s₀ s) (hbeside : Beside W cur pd s₀) {v p flags : ℕ} {ok : Bool}
    (hv : v / 4096 / 1024 < userPdes)
    (hrun : vmmMapPage K.toPageAlloc pd v p flags s = .ok (ok, s')) :
    Building V objs O W L cur pd s₀ s' ∧ ∀ w ∈ W, SameSlot s s' w := by
  rw [← getPdeIndex_eq] at hv
  have hwrites := vmmMapPage_writes hrun
  have hslot : (pd, getPdeIndex v) ∈ W ∪ userSlots {pd} := Or.inr ⟨rfl, hv⟩
  have hsame : ∀ w ∈ W, SameSlot s s' w := by
    intro w hw
    refine (hwrites.kept hA h.tables hslot).slot w (Or.inl hw) ?_
    rintro rfl
    exact hbeside.new _ hw rfl
  refine ⟨⟨?_, h.window.of_same hbeside.window hsame⟩, hsame⟩
  rcases h.tables.of_mapWrites hA hslot hwrites with ⟨-, rfl, -⟩ | ⟨-, htables, -⟩
  · exact h.tables
  · exact htables

/-! ## One page -/

/-- The heap objects with the reader. -/
def readerObjects (O : Set ℕ) : Option IoStream → Set ℕ
  | none => O
  | some stream => insert stream.addr O

/-- What the loop of `map_section` has in its hands: the block and the reader; the window is open unless
it could not be opened. -/
structure PageLoop (V : PageAlloc.View σ) (objs : σ → Set ℕ) (O : Set ℕ) (W L : Set (ℕ × ℕ))
    (cur pd : ℕ) (s₀ : Phys σ) (l : MapLoop σ) : Prop where
  building : Building V objs (readerObjects O l.stream) W L cur pd s₀ l.phys
  reader : ∀ stream, l.stream = some stream → stream.addr ∉ O
  window : l.window = 0 → pte l.phys (cur, 1023) 1022 = none

/-- Before the loop the window is closed. -/
theorem Idle.loop (stream : Option IoStream)
    (h : Idle V objs (readerObjects O stream) W L cur pd s₀ s)
    (hreader : ∀ st, stream = some st → st.addr ∉ O) :
    PageLoop V objs O W L cur pd s₀ { window := 0, stream := stream, phys := s } where
  building := h.toBuilding
  reader := hreader
  window _ := h.closed

/-- **One turn of the loop of `map_section`**, also one that fails. -/
theorem PageLoop.turn (hK : K.Lawful V objs) {l b : MapLoop σ}
    (h : PageLoop V objs O W L cur pd s₀ l) (hbeside : Beside W cur pd s₀) {sec : Section} {p i : ℕ}
    (hpage : sec.vAddr + i * 4096 < kernelVaddrBase) (hzone : zoneOfPage (p + i) = .highmem)
    (htable : p + i < maxPages) {ok : Bool}
    (hrun : mapSectionPage K image cur pd (p * 4096) sec l i = .ok (ok, b)) :
    PageLoop V objs O W L cur pd s₀ b := by
  have hp : add32 (p * 4096) (i * pageSize) = (p + i) * 4096 := by
    unfold maxPages at htable
    unfold pageSize
    rw [add32_eq (by omega)]
    omega
  have hv : add32 sec.vAddr (i * pageSize) / 4096 / 1024 < userPdes := by
    unfold kernelVaddrBase at hpage
    rw [entry_index (by omega)]
    unfold userPdes
    omega
  have hA := hK.pages (readerObjects O l.stream)
  unfold mapSectionPage at hrun
  simp only [hp] at hrun
  obtain ⟨⟨window, s₁⟩, hkmap, hrun⟩ := bind_eq_ok.mp hrun
  dsimp only at hrun
  rcases WindowOnly.kmap hA h.building.tables h.building.window Set.subset_union_left hbeside.window
    hkmap with ⟨rfl, rfl, hclosed⟩ | ⟨rfl, h₁, honly₁, hopen⟩
  · -- no table for the window
    obtain ⟨-, rfl⟩ := Prod.mk.inj (Except.ok.inj hrun)
    exact ⟨h.building, h.reader, fun _ => hclosed⟩
  have hne : vmmKmapVaddr ≠ 0 := by decide
  rw [if_neg hne] at hrun
  obtain ⟨⟨ok₂, s₂⟩, hmap, hrun⟩ := bind_eq_ok.mp hrun
  obtain ⟨h₂, hsame⟩ := Building.mapPage hA ⟨h₁, honly₁⟩ hbeside hv hmap
  cases ok₂ with
  | false =>
    -- no table for the page
    obtain ⟨-, rfl⟩ := Prod.mk.inj (Except.ok.inj hrun)
    exact ⟨h₂, h.reader, fun hzero => absurd hzero hne⟩
  | true =>
    simp only [Bool.not_true, Bool.false_eq_true, if_false] at hrun
    obtain ⟨frame, haccess, hrun⟩ := bind_eq_ok.mp hrun
    have hentry : entryAt s₂ cur (vmmKmapVaddr / 4096) =
        some ((p + i) * 4096 ||| (ptePresentBit ||| pteRwBit)) := by
      unfold entryAt
      rw [kmap_slot, kmap_index, (hsame _ hbeside.window).entry 1022 (by norm_num)]
      exact hopen
    have hslot : (cur, vmmKmapVaddr / 4096 / 1024) ∈ W ∪ userSlots {pd} := by
      rw [kmap_slot]
      exact Or.inl hbeside.window
    have hframe := accessAt_frame h₂.tables hslot hentry (by decide) haccess
    rw [(vmmMapPage_entry (Dvd.intro_left _ rfl) (frame_lt htable) (by decide)).1] at hframe
    subst hframe
    have hhigh : highmemStart ≤ (p + i) * 4096 := highmem_le hzone
    have h₃ := h₂.of_sameLow hbeside (Phys.sameLow_zeroPage s₂ hhigh)
    have hreader := h.reader
    cases hstream : l.stream with
    | none =>
      rw [hstream] at hrun h₃
      obtain ⟨-, rfl⟩ := Prod.mk.inj (Except.ok.inj hrun)
      exact ⟨h₃, fun st hc => absurd hc.symm (Option.some_ne_none st), fun hzero => absurd hzero hne⟩
    | some stream =>
      rw [hstream] at hrun h₃
      obtain ⟨n, stream', s₄, -, hread, -, haddr, hlow, -⟩ := @fakeRead_spec _ image sec stream
        vmmKmapVaddr pageSize (s₂.zeroPage ((p + i) * 4096)) (s₂.zeroPage ((p + i) * 4096)) _ hhigh
      dsimp only at hrun
      rw [hread] at hrun
      obtain ⟨-, rfl⟩ := Prod.mk.inj (Except.ok.inj hrun)
      refine ⟨?_, ?_, fun hzero => absurd hzero hne⟩
      · show Building V objs (insert stream'.addr O) W L cur pd s₀ s₄
        rw [haddr]
        exact h₃.of_sameLow hbeside hlow
      · intro st hst
        obtain rfl := Option.some.inj hst
        rw [haddr]
        exact hreader stream hstream

/-! ## One section -/

/-- `L'` are the blocks `L` with that of the section, if it is mapped. -/
inductive Held (W : Set (ℕ × ℕ)) (sec : Section) (L : Set (ℕ × ℕ)) : Set (ℕ × ℕ) → Prop where
  | none : sec.pAddr = 0 → Held W sec L L
  | block {p k : ℕ} : sec.pAddr = p * 4096 → p ≠ 0 → (p, k) ∉ L →
      (∀ w ∈ W, w.1 / 4096 ∉ block p k) → Held W sec L (insert (p, k) L)

/-- The blocks of two sections are two blocks. -/
theorem Held.swap {X L₁ L₂ : Set (ℕ × ℕ)} {a b : Section} (ha : Held X a L L₁) (hb : Held X b L₁ L₂) :
    ∃ L', Held X b L L' ∧ Held X a L' L₂ := by
  cases ha with
  | none hzero => exact ⟨L₂, hb, .none hzero⟩
  | @block p k haddr hne hnew hdir =>
    cases hb with
    | none hzero => exact ⟨L, .none hzero, .block haddr hne hnew hdir⟩
    | @block q l haddr' hne' hnew' hdir' =>
      refine ⟨insert (q, l) L, .block haddr' hne' (fun hL => hnew' (Or.inr hL)) hdir', ?_⟩
      rw [Set.insert_comm]
      refine .block haddr hne (fun hc => ?_) hdir
      rcases hc with heq | hL
      · exact hnew' (Or.inl heq.symm)
      · exact hnew hL

/-- **The caller gives the block of a section back.** -/
theorem Idle.freeSection (hK : K.Lawful V objs) {sec : Section} (hbeside : Beside W cur pd s₀)
    (hheld : Held (W ∪ userSlots {pd}) sec L L') (h : Idle V objs O W L' cur pd s₀ s)
    (hrun : freeSection K sec s = .ok s') : Idle V objs O W L cur pd s₀ s' := by
  unfold Userspace.freeSection at hrun
  cases hheld with
  | none hzero =>
    rw [if_neg (not_not.mpr hzero)] at hrun
    obtain rfl := Except.ok.inj hrun
    exact h
  | @block p k haddr hne hnew hdir =>
    rw [haddr, if_pos (by omega)] at hrun
    obtain ⟨s₁, hfree, hmem, htables, -⟩ :=
      h.tables.free_spec (hK.pages O) (Set.mem_insert (p, k) L) hdir
    obtain rfl := Except.ok.inj (hfree.symm.trans hrun)
    rw [Set.insert_sdiff_self_of_notMem hnew] at htables
    exact h.of_mem hbeside htables hmem

/-- `io_close` frees the reader. -/
theorem ioClose_spec (hK : K.Lawful V objs) {X : Set (ℕ × ℕ)} {stream : Option IoStream}
    (h : PageTables (V.holding objs (readerObjects O stream)) X L s)
    (hreader : ∀ st, stream = some st → st.addr ∉ O) (hrun : ioClose K stream s = .ok s') :
    s'.mem = s.mem ∧ PageTables (V.holding objs O) X L s' := by
  cases stream with
  | none =>
    obtain rfl := Except.ok.inj hrun
    exact ⟨rfl, h⟩
  | some st =>
    have h : PageTables (V.holding objs (insert st.addr O)) X L s := h
    obtain ⟨hmem, htables⟩ := h.kfree_spec hK (Set.mem_insert st.addr O) hrun
    rw [Set.insert_sdiff_self_of_notMem (hreader st rfl)] at htables
    exact ⟨hmem, htables⟩

/-- **The code at `bad`** gives the block and the reader back and closes the window. -/
theorem PageLoop.bad (hK : K.Lawful V objs) {l : MapLoop σ} {p k : ℕ}
    (h : PageLoop V objs O W (insert (p, k) L) cur pd s₀ l) (hbeside : Beside W cur pd s₀)
    (hnew : (p, k) ∉ L) (hdir : ∀ w ∈ W ∪ userSlots {pd}, w.1 / 4096 ∉ block p k)
    (hrun : mapSectionBad K cur (p * 4096) l = .ok s') : Idle V objs O W L cur pd s₀ s' := by
  obtain ⟨s₁, hfree, hrest⟩ := bind_eq_ok.mp hrun
  obtain ⟨s₂, hclose, hend⟩ := bind_eq_ok.mp hrest
  obtain ⟨s₁', hfree', hmem₁, htables₁, -⟩ :=
    h.building.tables.free_spec (hK.pages _) (Set.mem_insert (p, k) L) hdir
  obtain rfl := Except.ok.inj (hfree'.symm.trans hfree)
  rw [Set.insert_sdiff_self_of_notMem hnew] at htables₁
  obtain ⟨hmem₂, htables₂⟩ := ioClose_spec hK htables₁ h.reader hclose
  have hmem := hmem₂.trans hmem₁
  have h₂ := h.building.of_mem hbeside htables₂ hmem
  by_cases hzero : l.window = 0
  · -- the window could not be opened
    rw [if_neg (not_not.mpr hzero)] at hend
    obtain rfl := Except.ok.inj hend
    refine ⟨h₂, ?_⟩
    rw [(SameSlot.of_mem hmem _).entry 1022 (by norm_num)]
    exact h.window hzero
  · rw [if_pos hzero] at hend
    obtain ⟨h₃, honly, hclosed⟩ := WindowOnly.kunmap (hK.pages O) h₂.tables h₂.window hbeside.closed
      Set.subset_union_left hbeside.window hend
    exact ⟨⟨h₃, honly⟩, hclosed⟩

/-- The section ends below the kernel. -/
def Section.Low (sec : Section) : Prop := sec.vAddr + sec.mappingSize ≤ kernelVaddrBase

/-- The part of `map_section` with the reader. -/
theorem PageLoop.mapSectionPages (hK : K.Lawful V objs) {sec sec' : Section} {p k : ℕ}
    {stream : Option IoStream}
    (h : PageLoop V objs O W (insert (p, k) L) cur pd s₀ { window := 0, stream := stream, phys := s })
    (hbeside : Beside W cur pd s₀) (hnew : (p, k) ∉ L)
    (hdir : ∀ w ∈ W ∪ userSlots {pd}, w.1 / 4096 ∉ block p k) (hp : p ≠ 0)
    (hzone : ∀ q ∈ block p k, zoneOfPage q = .highmem) (htable : ∀ q ∈ block p k, q < maxPages)
    (hfits : sec.mappingSize / 4096 ≤ 2 ^ k) (hlow : sec.Low) (haddr : sec.pAddr = 0) {ok : Bool}
    (hrun : mapSectionPages K image cur pd (p * 4096) sec stream s = .ok (ok, sec', s')) :
    ∃ L', Held (W ∪ userSlots {pd}) sec' L L' ∧ Idle V objs O W L' cur pd s₀ s' := by
  obtain ⟨⟨ok₁, l⟩, hloop, hrun⟩ := bind_eq_ok.mp hrun
  have hend : PageLoop V objs O W (insert (p, k) L) cur pd s₀ l := by
    have hinv := whileOk_range' (I := fun _ l => PageLoop V objs O W (insert (p, k) L) cur pd s₀ l)
      (Q := fun l => PageLoop V objs O W (insert (p, k) L) cur pd s₀ l)
      (fun i b b' ok' _ hi h hturn => ?_) h hloop
    · cases ok₁ with
      | true => exact hinv
      | false => exact hinv
    · have hi : i < sec.mappingSize / 4096 := by
        rw [Nat.zero_add] at hi
        exact hi
      have hin : p + i ∈ block p k := by
        rw [mem_block]
        omega
      have hpage : sec.vAddr + i * 4096 < kernelVaddrBase := by
        unfold Section.Low at hlow
        omega
      have hb' := h.turn hK hbeside hpage (hzone _ hin) (htable _ hin) hturn
      split
      · exact hb'
      · exact hb'
  cases ok₁ with
  | true =>
    obtain ⟨s₁, hclose, hrun⟩ := bind_eq_ok.mp hrun
    obtain ⟨s₂, hkunmap, hrun⟩ := bind_eq_ok.mp hrun
    obtain ⟨-, rfl, rfl⟩ := ok_triple_inj hrun
    obtain ⟨hmem, htables⟩ := ioClose_spec hK hend.building.tables hend.reader hclose
    have h₁ := hend.building.of_mem hbeside htables hmem
    obtain ⟨h₂, honly, hclosed⟩ := WindowOnly.kunmap (hK.pages O) h₁.tables h₁.window hbeside.closed
      Set.subset_union_left hbeside.window hkunmap
    exact ⟨_, .block rfl hp hnew hdir, ⟨h₂, honly⟩, hclosed⟩
  | false =>
    obtain ⟨s₁, hbad, hrun⟩ := bind_eq_ok.mp hrun
    obtain ⟨-, rfl, rfl⟩ := ok_triple_inj hrun
    exact ⟨L, .none haddr, hend.bad hK hbeside hnew hdir hbad⟩

/-- **`map_section`**, whether it fails or not: the window is closed, and the section says which block is
its own. -/
theorem Idle.mapSection (hK : K.Contract V objs Large Spent) (h : Idle V objs O W L cur pd s₀ s)
    (hbeside : Beside W cur pd s₀) {sec sec' : Section} (hlow : sec.Low) (haddr : sec.pAddr = 0)
    {ok : Bool} (hrun : mapSection K image cur pd sec s = .ok (ok, sec', s')) :
    ∃ L', Held (W ∪ userSlots {pd}) sec' L L' ∧ Idle V objs O W L' cur pd s₀ s' := by
  rw [mapSection_eq] at hrun
  split at hrun
  · -- a section without pages
    obtain ⟨-, rfl, rfl⟩ := ok_triple_inj hrun
    exact ⟨L, .none haddr, h⟩
  obtain ⟨⟨pool, s₁⟩, halloc, hrun⟩ := bind_eq_ok.mp hrun
  dsimp only at hrun
  split at hrun
  · -- no block
    next hnull =>
    subst hnull
    obtain ⟨-, rfl, rfl⟩ := ok_triple_inj hrun
    rcases h.tables.alloc_spec (hK.pages O) sec.mappingSize .highmem with hnull | ⟨p, s₂, hok, hnew⟩
    · obtain ⟨-, rfl⟩ := Prod.mk.inj (Except.ok.inj (halloc.symm.trans hnull))
      exact ⟨L, .none haddr, h⟩
    · have hzero := (Prod.mk.inj (Except.ok.inj (halloc.symm.trans hok))).1
      have := hnew.ne_zero
      omega
  next hne =>
  obtain ⟨p, rfl, hnew⟩ := h.tables.alloc_ok (hK.pages O) halloc hne
  have h₁ := h.of_mem hbeside hnew.tables hnew.mem
  -- the block was free, so it holds no directory
  have hdir : ∀ w ∈ W ∪ userSlots {pd}, w.1 / 4096 ∉ block p (sizeToOrder sec.mappingSize) :=
    fun w hw hin => (h.tables.dir w hw).2.2.2 (hnew.subset hin)
  have horder := hK.order_lt h.tables.inv.1 (PageAlloc.allocOn_ok halloc).1 hne
  have hfits : sec.mappingSize / 4096 ≤ 2 ^ sizeToOrder sec.mappingSize := by
    have hle := sizeToOrder_fits horder
    unfold Section.Low kernelVaddrBase at hlow
    unfold pageSize at hle
    rw [divRoundUp32_eq (by omega)] at hle
    omega
  have hnone : ∀ st : IoStream, none = some st → st.addr ∉ O :=
    fun st hc => absurd hc.symm (Option.some_ne_none st)
  split at hrun
  · next hdata =>
    obtain ⟨⟨stream, s₂⟩, hreader, hrun⟩ := bind_eq_ok.mp hrun
    obtain ⟨hmem, ⟨rfl, h₂⟩ | ⟨st, rfl, -, hfresh, h₂⟩⟩ :=
      sectionCreateReader_spec hK.toLawful hnew.tables hdata hreader
    · -- no reader
      obtain ⟨s₃, hbad, hrun⟩ := bind_eq_ok.mp hrun
      obtain ⟨-, rfl, rfl⟩ := ok_triple_inj hrun
      have hloop := (h₁.of_mem hbeside h₂ hmem).loop none hnone
      exact ⟨L, .none haddr, hloop.bad hK.toLawful hbeside hnew.fresh hdir hbad⟩
    · have hloop := (h₁.of_mem hbeside h₂ hmem).loop (some st) fun st' hst => by
        obtain rfl := Option.some.inj hst
        exact hfresh
      exact hloop.mapSectionPages hK.toLawful hbeside hnew.fresh hdir hnew.ne_zero hnew.zone
        hnew.inTable hfits hlow haddr hrun
  · have hloop := h₁.loop none hnone
    exact hloop.mapSectionPages hK.toLawful hbeside hnew.fresh hdir hnew.ne_zero hnew.zone hnew.inTable
      hfits hlow haddr hrun

/-! ## All sections -/

/-- The section is below the kernel and has no block yet. -/
structure Section.Fresh (sec : Section) : Prop where
  low : sec.Low
  addr : sec.pAddr = 0

/-- A task whose sections can be mapped; a data section without data is not. -/
structure FreshTask (task : UserTask) : Prop where
  text : task.textSec.Fresh
  stack : task.stackSec.Fresh
  dataLow : 0 < task.dataSec.dataSize → task.dataSec.Low
  data : task.dataSec.pAddr = 0
  trampoline : task.sigTrampoline.Fresh

/-- `L'` are the blocks `L` with those of the sections, in the order of the calls of `map_section`. -/
def SectionsHeld (X : Set (ℕ × ℕ)) (task : UserTask) (L L' : Set (ℕ × ℕ)) : Prop :=
  ∃ L₁ L₂ L₃, Held X task.textSec L L₁ ∧ Held X task.stackSec L₁ L₂ ∧ Held X task.dataSec L₂ L₃ ∧
    Held X task.sigTrampoline L₃ L'

theorem FreshTask.held {task : UserTask} (h : FreshTask task) (X L : Set (ℕ × ℕ)) :
    SectionsHeld X task L L :=
  ⟨L, L, L, .none h.text.addr, .none h.stack.addr, .none h.data, .none h.trampoline.addr⟩

/-- **The four calls of `map_section`**, up to the first that fails. -/
theorem Idle.mapSections (hK : K.Contract V objs Large Spent) (h : Idle V objs O W L cur pd s₀ s)
    (hbeside : Beside W cur pd s₀) {task task' : UserTask} (hfresh : FreshTask task) {ok : Bool}
    (hrun : mapSections K image cur pd task s = .ok (ok, task', s')) :
    ∃ L', SectionsHeld (W ∪ userSlots {pd}) task' L L' ∧ Idle V objs O W L' cur pd s₀ s' := by
  obtain ⟨⟨ok₁, text, s₁⟩, htext, hrun⟩ := bind_eq_ok.mp hrun
  obtain ⟨L₁, hheld₁, h₁⟩ := h.mapSection hK hbeside hfresh.text.low hfresh.text.addr htext
  cases ok₁ with
  | false =>
    obtain ⟨-, rfl, rfl⟩ := ok_triple_inj hrun
    exact ⟨L₁, ⟨L₁, L₁, L₁, hheld₁, .none hfresh.stack.addr, .none hfresh.data,
      .none hfresh.trampoline.addr⟩, h₁⟩
  | true =>
  simp only [Bool.not_true, Bool.false_eq_true, if_false] at hrun
  obtain ⟨⟨ok₂, stack, s₂⟩, hstack, hrun⟩ := bind_eq_ok.mp hrun
  obtain ⟨L₂, hheld₂, h₂⟩ := h₁.mapSection hK hbeside hfresh.stack.low hfresh.stack.addr hstack
  cases ok₂ with
  | false =>
    obtain ⟨-, rfl, rfl⟩ := ok_triple_inj hrun
    exact ⟨L₂, ⟨L₁, L₂, L₂, hheld₁, hheld₂, .none hfresh.data, .none hfresh.trampoline.addr⟩, h₂⟩
  | true =>
  simp only [Bool.not_true, Bool.false_eq_true, if_false] at hrun
  split at hrun
  all_goals
    obtain ⟨⟨ok₃, data, s₃⟩, hdata, hrun⟩ := bind_eq_ok.mp hrun
    obtain ⟨L₃, hheld₃, h₃⟩ : ∃ L₃, Held (W ∪ userSlots {pd}) data L₂ L₃ ∧
        Idle V objs O W L₃ cur pd s₀ s₃ := by
      first
      | exact h₂.mapSection hK hbeside (hfresh.dataLow ‹_›) hfresh.data hdata
      | obtain ⟨-, rfl, rfl⟩ := ok_triple_inj hdata
        exact ⟨L₂, .none hfresh.data, h₂⟩
    dsimp only at hrun
    cases ok₃ with
    | false =>
      obtain ⟨-, rfl, rfl⟩ := ok_triple_inj hrun
      exact ⟨L₃, ⟨L₁, L₂, L₃, hheld₁, hheld₂, hheld₃, .none hfresh.trampoline.addr⟩, h₃⟩
    | true =>
      simp only [Bool.not_true, Bool.false_eq_true, if_false] at hrun
      obtain ⟨⟨ok₄, trampoline, s₄⟩, htrampoline, hrun⟩ := bind_eq_ok.mp hrun
      obtain ⟨L₄, hheld₄, h₄⟩ :=
        h₃.mapSection hK hbeside hfresh.trampoline.low hfresh.trampoline.addr htrampoline
      obtain ⟨-, rfl, rfl⟩ := ok_triple_inj hrun
      exact ⟨L₄, ⟨L₁, L₂, L₃, hheld₁, hheld₂, hheld₃, hheld₄⟩, h₄⟩

/-- The part of `userspace_create_new` at `bad` before the directory goes. -/
def freeSections (K : KernelAlloc σ) (task : UserTask) (s : Phys σ) : Kern (Phys σ) := do
  let s ← freeSection K task.textSec s
  let s ← freeSection K task.dataSec s
  let s ← freeSection K task.stackSec s
  freeSection K task.sigTrampoline s

/-- **The blocks of the sections go** in another order than they came. -/
theorem Idle.freeSections (hK : K.Lawful V objs) (hbeside : Beside W cur pd s₀) {task : UserTask}
    (hheld : SectionsHeld (W ∪ userSlots {pd}) task L L') (h : Idle V objs O W L' cur pd s₀ s)
    (hrun : freeSections K task s = .ok s') : Idle V objs O W L cur pd s₀ s' := by
  obtain ⟨L₁, L₂, L₃, htext, hstack, hdata, htrampoline⟩ := hheld
  obtain ⟨M₁, hstack, htext⟩ := htext.swap hstack
  obtain ⟨M₂, hdata, htext⟩ := htext.swap hdata
  obtain ⟨M₃, htrampoline, htext⟩ := htext.swap htrampoline
  obtain ⟨N₁, htrampoline, hdata⟩ := hdata.swap htrampoline
  obtain ⟨N₂, htrampoline, hstack⟩ := hstack.swap htrampoline
  obtain ⟨s₁, hrun₁, hrun⟩ := bind_eq_ok.mp hrun
  obtain ⟨s₂, hrun₂, hrun⟩ := bind_eq_ok.mp hrun
  obtain ⟨s₃, hrun₃, hrun⟩ := bind_eq_ok.mp hrun
  have h₁ := Idle.freeSection hK hbeside htext h hrun₁
  have h₂ := Idle.freeSection hK hbeside hdata h₁ hrun₂
  have h₃ := Idle.freeSection hK hbeside hstack h₂ hrun₃
  exact Idle.freeSection hK hbeside htrampoline h₃ hrun

/-! ## The directory -/

/-- The words `userspace_map_kernel` copies are in the page of the directory, -/
theorem kernelHalf_page {pd a : ℕ} (h : pd + 4 * userPdes ≤ a ∧ a < pd + 4 * userPdes + 224 * 4) :
    pd ≤ a ∧ a < pd + pageSize := by
  unfold userPdes at h
  unfold pageSize
  omega

/-- and not in its user half. -/
theorem userHalf_not_kernelHalf {pd i : ℕ} (hi : i < userPdes) :
    ¬ (pd + 4 * userPdes ≤ pd + 4 * i ∧ pd + 4 * i < pd + 4 * userPdes + 224 * 4) := by
  omega

/-- **The new directory** with the kernel half of `userspace_map_kernel`, if there is one. -/
theorem userspaceMapKernel_idle (hK : K.Lawful V objs) (h₀ : PageTables (V.holding objs O) W L s₀)
    (hcur : (cur, 1023) ∈ W) (hclosed : WindowClosed cur s₀) {kernelDir : ℕ} {s₁ : Phys σ} {ok : Bool}
    (halloc : K.allocOn pageSize .lowmem s₀ = .ok (pd, s₁)) (hne : pd ≠ 0)
    (hrun : userspaceMapKernel kernelDir pd s₁ = .ok (ok, s')) :
    Beside W cur pd s₀ ∧ (pd / 4096, 0) ∉ L ∧
      Idle V objs O W (insert (pd / 4096, 0) L) cur pd s₀ s' := by
  rcases h₀.newDirectory_spec (hK.pages O) with hnull | ⟨p, s₁', hok, -, hlt, hfresh, hdir, hfree,
    htables, hsame, hzero⟩
  · exact absurd (Prod.mk.inj (Except.ok.inj (halloc.symm.trans hnull))).1 hne
  obtain ⟨rfl, rfl⟩ := Prod.mk.inj (Except.ok.inj (halloc.symm.trans hok))
  have hdiv : p * 4096 / 4096 = p := Nat.mul_div_cancel p (by norm_num)
  rw [hdiv]
  -- the user half stays empty
  obtain ⟨h', hsame', halloc', hzero'⟩ : PageTables (V.holding objs O) W (insert (p, 0) L) s' ∧
      (∀ w ∈ W, SameSlot (s₁.zeroPage (p * 4096)) s' w) ∧ s'.alloc = s₁.alloc ∧
      ∀ i < userPdes, s'.mem (p * 4096 + 4 * i) = 0 := by
    unfold userspaceMapKernel at hrun
    rw [physLinear_eq hlt, ok_bind] at hrun
    dsimp only at hrun
    split at hrun
    · obtain ⟨-, rfl⟩ := Prod.mk.inj (Except.ok.inj hrun)
      refine ⟨htables, fun w _ => .refl _ w, rfl, fun i hi => hzero i ?_⟩
      exact Nat.lt_of_lt_of_le hi (by decide)
    · obtain ⟨kspacePdVirt, -, hrun⟩ := bind_eq_ok.mp hrun
      obtain ⟨-, rfl⟩ := Prod.mk.inj (Except.ok.inj hrun)
      generalize ht : (s₁.zeroPage (p * 4096)).memcpy (p * 4096 + 4 * userPdes)
        (kspacePdVirt + 4 * userPdes) (224 * 4) = t
      have halloc' : t.alloc = (s₁.zeroPage (p * 4096)).alloc := ht ▸ rfl
      have hpage : ∀ a, ¬ (p * 4096 ≤ a ∧ a < p * 4096 + pageSize) →
          t.mem a = (s₁.zeroPage (p * 4096)).mem a := by
        subst ht
        exact fun a ha => if_neg fun hc => ha (kernelHalf_page hc)
      obtain ⟨h', hsame'⟩ := htables.of_page halloc' (Set.mem_insert (p, 0) L) hdir hpage
      refine ⟨h', hsame', halloc', fun i hi => ?_⟩
      have hout : t.mem (p * 4096 + 4 * i) = (s₁.zeroPage (p * 4096)).mem (p * 4096 + 4 * i) := by
        subst ht
        exact if_neg (userHalf_not_kernelHalf hi)
      rw [hout]
      exact hzero i (Nat.lt_of_lt_of_le hi (by decide))
  have habs : ∀ i ∈ { i | i < userPdes }, slotPresent s' (p * 4096, i) = false := by
    intro i hi
    unfold slotPresent slotAddr
    rw [hzero' i hi]
    exact flagIsSet_zero _
  have hall : PageTables (V.holding objs O) (W ∪ userSlots {p * 4096}) (insert (p, 0) L) s' := by
    refine h'.addDirectory (Dvd.intro_left p rfl) hlt (fun i hi => ?_) ?_ ?_ habs
    · exact Nat.lt_of_lt_of_le hi (by decide)
    · rw [halloc', hdiv]
      exact hfree
    · rw [hdiv]
      exact Set.mem_insert _ _
  have hkept : ∀ w ∈ W, SameSlot s₀ s' w := fun w hw => (hsame w hw).trans (hsame' w hw)
  refine ⟨⟨hcur, hdir, hclosed⟩, hfresh, ⟨hall, (WindowOnly.refl W cur s₀).of_same hcur hkept⟩, ?_⟩
  rw [(hkept _ hcur).entry 1022 (by norm_num)]
  exact hclosed.closed

/-- **The directory and its tables go.** -/
theorem Idle.destroy (hK : K.Lawful V objs) (hbeside : Beside W cur pd s₀) (hnew : (pd / 4096, 0) ∉ L)
    (h : Idle V objs O W (insert (pd / 4096, 0) L) cur pd s₀ s)
    (hrun : vmmDestroyUserPd K.toPageAlloc pd s = .ok s') :
    PageTables (V.holding objs O) W L s' ∧ ∀ w ∈ W, SameSlot s₀ s' w := by
  obtain ⟨s₁, hok, htables, hsame⟩ := h.tables.vmmDestroyUserPd_spec (hK.pages O)
    (fun i hi => Or.inr ⟨rfl, hi⟩) (Set.mem_insert _ L) (fun w hw heq hle => by
      rcases hw with hw | hw
      · exact absurd heq (hbeside.new w hw)
      · exact absurd hw.2 (not_lt.mpr hle))
  obtain rfl := Except.ok.inj (hok.symm.trans hrun)
  have hslots : { w ∈ W ∪ userSlots {pd} | w.1 ≠ pd } = W := by
    ext w
    constructor
    · rintro ⟨hw | hw, hne⟩
      · exact hw
      · exact absurd hw.1 hne
    · exact fun hw => ⟨Or.inl hw, hbeside.new w hw⟩
  rw [hslots, Set.insert_sdiff_self_of_notMem hnew] at htables
  refine ⟨htables, fun w hw => ?_⟩
  exact (h.window.same hbeside.closed h.closed w hw).trans (hsame w (Or.inl hw) (hbeside.new w hw))

/-! ## The call -/

/-- No section of the caller has a block; the stack section is made by the call. -/
structure UserTask.Unmapped (task : UserTask) : Prop where
  text : task.textSec.pAddr = 0
  data : task.dataSec.pAddr = 0
  trampoline : task.sigTrampoline.pAddr = 0

/-- The layout ends below the kernel. -/
def UserTask.LaidLow (task : UserTask) : Prop :=
  ∀ laid, layoutSections task = some laid → ∀ sec ∈ laid.mapped, sec.Low

theorem layoutText_pAddr {text text' : Section} (h : layoutText text = some text') :
    text'.pAddr = text.pAddr := by
  unfold layoutText at h
  split at h
  · cases h
  · rw [← Option.some.inj h]

theorem layoutData_pAddr {text data data' : Section} (h : layoutData text data = some data') :
    data'.pAddr = data.pAddr := by
  unfold layoutData at h
  split at h
  · rw [← Option.some.inj h]
  · split at h
    · rw [← Option.some.inj h]
    · split at h
      · cases h
      · rw [← Option.some.inj h]

theorem UserTask.mem_mapped (task : UserTask) : task.textSec ∈ task.mapped ∧
    task.stackSec ∈ task.mapped ∧ task.sigTrampoline ∈ task.mapped ∧
    (0 < task.dataSec.dataSize → task.dataSec ∈ task.mapped) := by
  unfold UserTask.mapped
  split
  · next hzero => simp [hzero]
  · simp

/-- The layout leaves the blocks alone. -/
theorem UserTask.Unmapped.layoutSections {task laid : UserTask} (h : task.Unmapped)
    (hlow : task.LaidLow) (hlaid : layoutSections task = some laid) : FreshTask laid := by
  obtain ⟨htextMem, hstackMem, htrampolineMem, hdataMem⟩ := laid.mem_mapped
  have hmapped := hlow laid hlaid
  obtain ⟨hstack, htext, hdata, htrampoline⟩ : laid.stackSec.pAddr = 0 ∧ laid.textSec.pAddr = 0 ∧
      laid.dataSec.pAddr = 0 ∧ laid.sigTrampoline.pAddr = 0 := by
    obtain ⟨text, htext, hrest⟩ := Option.bind_eq_some_iff.mp hlaid
    obtain ⟨data, hdata, hrest⟩ := Option.bind_eq_some_iff.mp hrest
    obtain rfl := Option.some.inj hrest
    exact ⟨rfl, (layoutText_pAddr htext).trans h.text, (layoutData_pAddr hdata).trans h.data,
      h.trampoline⟩
  exact ⟨⟨hmapped _ htextMem, htext⟩, ⟨hmapped _ hstackMem, hstack⟩,
    fun hpos => hmapped _ (hdataMem hpos), hdata, ⟨hmapped _ htrampolineMem, htrampoline⟩⟩

/-- **A call that fails** leaves the tables, the blocks and all slots as they were. -/
theorem userspaceCreateNew_fails (hK : K.Contract V objs Large Spent)
    (h₀ : PageTables (V.holding objs O) W L s₀) (hcur : (cur, 1023) ∈ W)
    (hclosed : WindowClosed cur s₀) {kernelDir : ℕ} {task : UserTask} (htask : task.Unmapped)
    (hlow : task.LaidLow)
    (hrun : userspaceCreateNew K image kernelDir cur task s₀ = .ok (none, s')) :
    PageTables (V.holding objs O) W L s' ∧ ∀ w ∈ W, SameSlot s₀ s' w := by
  unfold userspaceCreateNew at hrun
  split at hrun
  · -- no layout
    obtain ⟨-, rfl⟩ := Prod.mk.inj (Except.ok.inj hrun)
    exact ⟨h₀, fun w _ => .refl _ w⟩
  next laid hlaid =>
  have hfresh := htask.layoutSections hlow hlaid
  obtain ⟨⟨pd, s₁⟩, halloc, hrun⟩ := bind_eq_ok.mp hrun
  dsimp only at hrun
  split at hrun
  · -- no page for the directory
    next hnull =>
    obtain ⟨-, rfl⟩ := Prod.mk.inj (Except.ok.inj hrun)
    rcases h₀.alloc_spec (hK.pages O) pageSize .lowmem with hnone | ⟨p, s₂, hok, hnew⟩
    · obtain ⟨-, rfl⟩ := Prod.mk.inj (Except.ok.inj (halloc.symm.trans hnone))
      exact ⟨h₀, fun w _ => .refl _ w⟩
    · have hzero := (Prod.mk.inj (Except.ok.inj (halloc.symm.trans hok))).1
      have := hnew.ne_zero
      omega
  next hne =>
  obtain ⟨⟨mapped, s₂⟩, hkernel, hrun⟩ := bind_eq_ok.mp hrun
  obtain ⟨hbeside, hnew, h₂⟩ :=
    userspaceMapKernel_idle hK.toLawful h₀ hcur hclosed halloc hne hkernel
  dsimp only at hrun
  -- the sections up to the first that fails, or none of them
  split at hrun
  all_goals
    obtain ⟨⟨ok, task', s₃⟩, hmap, hrun⟩ := bind_eq_ok.mp hrun
    obtain ⟨L₃, hheld, h₃⟩ : ∃ L₃, SectionsHeld (W ∪ userSlots {pd}) task'
        (insert (pd / 4096, 0) L) L₃ ∧ Idle V objs O W L₃ cur pd s₀ s₃ := by
      first
      | exact h₂.mapSections hK hbeside hfresh hmap
      | obtain ⟨-, rfl, rfl⟩ := ok_triple_inj hmap
        exact ⟨_, hfresh.held _ _, h₂⟩
    dsimp only at hrun
    split at hrun
    · cases (Prod.mk.inj (Except.ok.inj hrun)).1
    obtain ⟨t₁, htext, hrun⟩ := bind_eq_ok.mp hrun
    obtain ⟨t₂, hdata, hrun⟩ := bind_eq_ok.mp hrun
    obtain ⟨t₃, hstack, hrun⟩ := bind_eq_ok.mp hrun
    obtain ⟨t₄, htrampoline, hrun⟩ := bind_eq_ok.mp hrun
    obtain ⟨t₅, hdestroy, hrun⟩ := bind_eq_ok.mp hrun
    obtain ⟨-, rfl⟩ := Prod.mk.inj (Except.ok.inj hrun)
    have hfree : freeSections K task' s₃ = .ok t₄ := by
      unfold freeSections
      rw [htext, ok_bind, hdata, ok_bind, hstack, ok_bind, htrampoline]
    have h₄ := Idle.freeSections hK.toLawful hbeside hheld h₃ hfree
    exact h₄.destroy hK.toLawful hbeside hnew hdestroy

/-! ## The books -/

/-- **Everything was given back**: every block that was handed out, each as often as that and never
twice in a row; the free pages, the live blocks and every entry are as before the call, and the window
is closed. -/
structure CreateUndone (V : PageAlloc.View σ) (objs : σ → Set ℕ) (W : Set (ℕ × ℕ)) (cur : ℕ)
    (s₀ : Phys σ) (s : Phys (σ × List PageEvent)) : Prop where
  givenBack : GivenBack s.alloc.2
  free : V.free s.alloc.1 = V.free s₀.alloc
  live : V.live s.alloc.1 = V.live s₀.alloc
  objects : objs s.alloc.1 = objs s₀.alloc
  entry : ∀ pd n, (pd, n / 1024) ∈ W → entryAt s pd n = entryAt s₀ pd n
  window : WindowClosed cur s

/-- **A failed `userspace_create_new` gives everything back**, wherever it fails. -/
theorem userspaceCreateNew_undone (hK : K.Contract V objs Large Spent)
    (h₀ : PageTables (V.holding objs O) W L s₀) (hcur : (cur, 1023) ∈ W)
    (hclosed : WindowClosed cur s₀) {kernelDir : ℕ} {task : UserTask} (htask : task.Unmapped)
    (hlow : task.LaidLow) {t : Phys (σ × List PageEvent)}
    (hrun : userspaceCreateNew K.logged image kernelDir cur task s₀.withLog = .ok (none, t)) :
    CreateUndone V objs W cur s₀ t := by
  have hKL := hK.logged.and (hK.toLawful.booksKept s₀.alloc)
  have hclosed' : WindowClosed cur s₀.withLog := ⟨hclosed.closed, hclosed.used⟩
  obtain ⟨htables, hsame⟩ := userspaceCreateNew_fails hKL h₀.withLog hcur hclosed' htask hlow hrun
  have hinv := htables.inv.1
  have hlive : V.live t.alloc.1 = V.live s₀.alloc := by
    have hbefore : V.live s₀.alloc = L ∪ tables W s₀ := h₀.live
    have hafter : V.live t.alloc.1 = L ∪ tables W t := htables.live
    rw [hafter, tables_eq_of_sameSlot hsame, hbefore]
    rfl
  have hentry : ∀ pd n, (pd, n / 1024) ∈ W → entryAt t pd n = entryAt s₀ pd n :=
    fun pd n hw => (hsame _ hw).entry _ (Nat.mod_lt n (by norm_num))
  refine ⟨⟨hinv.1.2.once, fun ptr _ => hinv.2.balanced.count_eq ?_⟩, ?_, hlive,
    htables.inv.2.trans h₀.inv.2.symm, hentry,
    hclosed'.congr (hsame _ hcur)⟩
  · rw [hlive]
  · exact (hK.pages O).free_eq h₀.inv ⟨hinv.1.1, htables.inv.2⟩ hinv.2.pages hlive

end Build

/-! ### A call without a page for the trampoline -/

/-- Three pages of `HIGHMEM` are free. -/
def threePageSpace : Kern (Phys (BuddyRun × BumpHeap)) :=
  takeBlocks (bumpKernel buddyPageAlloc).toPageAlloc .highmem
    [32 * 4096, 16 * 4096, 8 * 4096, 4 * 4096, 4096] emptySpace

/-- A task with a page of text, for which text and stack take the three pages. -/
def createInThreePages : Kern (Phys (BuddyRun × BumpHeap) × Option UserTask ×
    Phys ((BuddyRun × BumpHeap) × List PageEvent)) := do
  let s ← threePageSpace
  let r ← userspaceCreateNew (bumpKernel buddyPageAlloc).logged smallImage 0x1000 0x1000
    (taskWithText 0 64) s.withLog
  .ok (s, r)

theorem createInThreePages_view : createInThreePages.toOption.map
    (fun r => (r.2.1.isSome, slotPresent r.1 (0x1000, 1023))) = some (false, false) := by
  decide +kernel

/-- Its text is at `USER_TEXT_START`. -/
theorem taskWithText_laidLow : (taskWithText 0 64).LaidLow := by
  have hview : (layoutSections (taskWithText 0 64)).all (fun laid => laid.mapped.all fun sec =>
      decide (sec.vAddr + sec.mappingSize ≤ kernelVaddrBase)) = true := by
    decide +kernel
  intro laid hlaid sec hsec
  rw [hlaid] at hview
  show sec.vAddr + sec.mappingSize ≤ kernelVaddrBase
  exact of_decide_eq_true (List.all_eq_true.mp hview sec hsec)

theorem userspaceCreateNew_undone_threePages : ∃ s t, createInThreePages = .ok (s, none, t) ∧
    CreateUndone (bumpView buddyView) bumpObjs { w | w.1 = 0x1000 ∧ w.2 < 1024 } 0x1000 s t := by
  obtain ⟨⟨s, ret, t⟩, hrun, hview⟩ := exists_ok_of_toOption_map createInThreePages_view
  obtain ⟨hnone, habs⟩ := Prod.mk.inj hview
  obtain rfl := Option.not_isSome_iff_eq_none.mp (Bool.eq_false_iff.mp hnone)
  refine ⟨s, t, hrun, ?_⟩
  obtain ⟨s₁, hspace, hcall⟩ := bind_eq_ok.mp hrun
  obtain ⟨r, hcall, hok⟩ := bind_eq_ok.mp hcall
  obtain ⟨rfl, rfl⟩ := Prod.mk.inj (Except.ok.inj hok)
  have hA := (bumpKernel_lawful buddyPageAlloc_lawful).pages ∅
  obtain ⟨L, htables⟩ := takeBlocks_tables hA _ emptySpace_tables hspace
  exact userspaceCreateNew_undone (bumpKernel_contract buddyPageAlloc_lawful
    fun _ _ _ _ _ => buddyPageAlloc_order_lt) htables ⟨rfl, by decide⟩ (.of_absent habs)
    ⟨rfl, rfl, rfl⟩ taskWithText_laidLow hcall

end Kfs.Userspace
