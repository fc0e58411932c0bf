import Kfs.Memory.SlotFrames
import Kfs.Proc.FreshFrames

/-!
# How a section is loaded

The loop of `map_section` takes the pages of one block one after another. It opens the window on the
frame, maps the frame for the task, clears it and reads the next page of the section. The reader keeps
its own position, hands out a short page at the end of the data and only zeros after it. Before turn
`i` its position is the number of bytes in the first `i` pages, and these pages hold the first bytes of
the section image.
-/

namespace Kfs.Userspace

open Kfs.Lib Kfs.Lib.Word32 Kfs.Lib.Dyadic Kfs.Memory

/-! ## The image of a section -/

/-- Byte `j` of the image: the data, and zeros from its end on. -/
def sectionByte (image : KernelImage) (sec : Section) (j : ℕ) : ℕ :=
  if sec.dataStart ≠ 0 ∧ j < sec.dataSize then image.bytes (sec.dataStart + j) else 0

/-- The section has bytes to read. -/
def Section.HasData (sec : Section) : Prop := sec.dataStart ≠ 0 ∧ 0 < sec.dataSize

/-- A section that `map_section` is called with: whole pages from an address in the user half on, for
data of at most 4 MiB or for none. -/
structure Section.Loadable (sec : Section) : Prop where
  aligned : 4096 ∣ sec.vAddr
  user : sec.vAddr < kernelVaddrBase
  flags : sec.flags < 4096
  present : flagIsSet sec.flags ptePresentBit = true
  size : (sec.HasData ∧ sec.dataSize ≤ 2 ^ 22 ∧ sec.mappingSize = alignUp32 sec.dataSize 12) ∨
    (¬ sec.HasData ∧ 4096 ∣ sec.mappingSize ∧ sec.mappingSize < 2 ^ 32)

/-- A section is a number of whole pages that hold its data. -/
theorem Section.Loadable.pages {sec : Section} (h : sec.Loadable) :
    4096 ∣ sec.mappingSize ∧ sec.mappingSize ≤ 0xFFFFF000 ∧
      (sec.HasData → sec.dataSize ≤ sec.mappingSize) := by
  rcases h.size with ⟨-, hle, hmap⟩ | ⟨hnone, hdvd, hlt⟩
  · rw [hmap, alignUp32_eq (by norm_num) (by omega)]
    refine ⟨Dvd.intro_left _ rfl, ?_, fun _ => ?_⟩
    · omega
    · omega
  · exact ⟨hdvd, by omega, fun hdata => absurd hdata hnone⟩

section Load

variable {σ : Type} {K : KernelAlloc σ} {image : KernelImage} {V : PageAlloc.View σ}
  {objs : σ → Set ℕ} {O : Set ℕ} {W L : Set (ℕ × ℕ)} {s s' : Phys σ}

/-- The byte at `v`, translated through the directory `pd`. -/
def byteAt (s : Phys σ) (pd v : ℕ) : Option ℕ :=
  (walk s.mem pd (v / 4096)).map fun tr => s.mem (tr.frame + v % 4096)

/-- A walk ends at the frame in the entry. -/
theorem walk_map_frame (s : Phys σ) (pd n : ℕ) :
    (walk s.mem pd n).map Translation.frame = (entryAt s pd n).map getEntryAddr := by
  unfold entryAt walk pte slotPresent tableOf slotAddr
  cases hpde : flagIsSet (s.mem (pd + 4 * (n / 1024))) pdePresentBit with
  | false => simp [hpde]
  | true =>
    cases hpte : flagIsSet (s.mem (getEntryAddr (s.mem (pd + 4 * (n / 1024))) + 4 * (n % 1024)))
        ptePresentBit with
    | false => simp [hpde, hpte]
    | true => simp [hpde, hpte]

theorem byteAt_eq {pd v e : ℕ} (h : entryAt s pd (v / 4096) = some e) :
    byteAt s pd v = some (s.mem (getEntryAddr e + v % 4096)) := by
  have hframe := walk_map_frame s pd (v / 4096)
  rw [h] at hframe
  obtain ⟨tr, hwalk, htr⟩ := Option.map_eq_some_iff.mp hframe
  unfold byteAt
  rw [hwalk, ← htr]
  rfl

/-! ## One read -/

/-- A page whose first `n` bytes are read and whose others are cleared. -/
theorem shortRead_mem (s : Phys σ) (bytes : ℕ → ℕ) {frame n a : ℕ} (hn : n ≤ 4096) :
    (if n < 4096 then (s.load frame bytes n).bzero (frame + n) (4096 - n)
      else s.load frame bytes n).mem a =
    if frame ≤ a ∧ a < frame + 4096 then (if a < frame + n then bytes (a - frame) else 0)
    else s.mem a := by
  by_cases hshort : n < 4096
  · rw [if_pos hshort]
    simp only [Phys.load, Phys.bzero]
    by_cases hpage : frame ≤ a ∧ a < frame + 4096
    · rw [if_pos hpage]
      by_cases hread : a < frame + n
      · rw [if_pos hread, if_neg (by omega), if_pos ⟨hpage.1, hread⟩]
      · rw [if_neg hread, if_pos (by omega)]
    · rw [if_neg hpage, if_neg (by omega), if_neg (by omega)]
  · -- the page is full
    obtain rfl : n = 4096 := by omega
    rw [if_neg hshort]
    simp only [Phys.load]
    by_cases hpage : frame ≤ a ∧ a < frame + 4096
    · rw [if_pos hpage, if_pos hpage, if_pos hpage.2]
    · rw [if_neg hpage, if_neg hpage]

/-- **`fake_read`** fills a page with the next bytes of the image and moves on by those that were
data. -/
theorem fakeRead_page (s : Phys σ) {sec : Section} {stream : IoStream} {dest frame i : ℕ}
    (hdata : sec.HasData) (hdest : dest ≠ 0) (hpos : stream.pos = min sec.dataSize (i * 4096)) :
    ∃ n stream' s', fakeRead image sec stream dest frame pageSize s = (n, stream', s') ∧ 0 ≤ n ∧
      stream'.addr = stream.addr ∧ stream'.pos = min sec.dataSize ((i + 1) * 4096) ∧
      s'.alloc = s.alloc ∧ ∀ a, s'.mem a =
        if frame ≤ a ∧ a < frame + 4096 then sectionByte image sec (i * 4096 + (a - frame))
        else s.mem a := by
  have hctx : ¬ (sec.dataStart = 0 ∨ dest = 0) := by
    rintro (h | h)
    · exact hdata.1 h
    · exact hdest h
  unfold fakeRead
  rw [if_neg hctx]
  by_cases hend : sec.dataSize ≤ stream.pos
  · -- the data has ended before this page
    rw [if_pos hend]
    refine ⟨_, _, _, rfl, le_refl 0, rfl, ?_, rfl, fun a => ?_⟩
    · rw [hpos]
      omega
    have hzero : ¬ (sec.dataStart ≠ 0 ∧ i * 4096 + (a - frame) < sec.dataSize) := by
      intro hc
      omega
    unfold sectionByte
    rw [if_neg hzero]
    rfl
  · rw [if_neg hend]
    -- the position is the start of the page
    have hpos : stream.pos = i * 4096 := by omega
    simp only [hpos, pageSize]
    by_cases hfull : 4096 < sec.dataSize - i * 4096
    · -- a whole page of data
      rw [if_pos hfull, if_neg (by omega)]
      refine ⟨_, _, _, rfl, Int.natCast_nonneg _, rfl, ?_, rfl, fun a => ?_⟩
      · show i * 4096 + 4096 = _
        omega
      · simp only [Phys.load]
        split
        · next hin =>
          have hread : sec.dataStart ≠ 0 ∧ i * 4096 + (a - frame) < sec.dataSize := by
            refine ⟨hdata.1, ?_⟩
            omega
          unfold sectionByte
          rw [if_pos hread, Nat.add_assoc]
        · rfl
    · -- the end of the data: a short read, and zeros after it
      rw [if_neg hfull]
      generalize hrest : sec.dataSize - i * 4096 = rest at hfull
      refine ⟨_, _, _, rfl, Int.natCast_nonneg _, rfl, ?_, ?_, fun a => ?_⟩
      · show i * 4096 + rest = _
        omega
      · split <;> rfl
      · rw [shortRead_mem s _ (not_lt.mp hfull)]
        refine if_congr Iff.rfl ?_ rfl
        unfold sectionByte
        split_ifs with h1 h2 h2
        · rw [Nat.add_assoc]
        · exact absurd ⟨hdata.1, by omega⟩ h2
        · omega
        · rfl

/-! ## The loop -/

/-- Before turn `i` of the loop of `map_section`: the first `i` pages of the block at page `p` are mapped
and hold the first bytes of the image, and the reader stands behind them. -/
structure Loading (image : KernelImage) (V : PageAlloc.View σ) (W L : Set (ℕ × ℕ)) (O : Set ℕ)
    (pd p : ℕ) (sec : Section) (i : ℕ) (l : MapLoop σ) : Prop where
  tables : PageTables V W L l.phys
  noStream : ¬ sec.HasData → l.stream = none
  stream : sec.HasData → ∃ stream, l.stream = some stream ∧ stream.addr ∈ O ∧
    stream.pos = min sec.dataSize (i * 4096)
  entry : ∀ q < i, entryAt l.phys pd (sec.vAddr / 4096 + q) = some ((p + q) * 4096 ||| sec.flags)
  cell : ∀ j < i * 4096, l.phys.mem (p * 4096 + j) = sectionByte image sec j

/-- What one turn does to memory behind the window: page `i` holds its part of the image. -/
structure PageLoaded (image : KernelImage) (sec : Section) (O : Set ℕ) (frame i : ℕ) (s : Phys σ)
    (l : MapLoop σ) : Prop where
  alloc : l.phys.alloc = s.alloc
  mem : ∀ a, l.phys.mem a = if frame ≤ a ∧ a < frame + 4096 then
    sectionByte image sec (i * 4096 + (a - frame)) else s.mem a
  noStream : ¬ sec.HasData → l.stream = none
  stream : sec.HasData → ∃ stream, l.stream = some stream ∧ stream.addr ∈ O ∧
    stream.pos = min sec.dataSize ((i + 1) * 4096)

/-- A section without data reads as zeros. -/
theorem sectionByte_noData {sec : Section} (h : ¬ sec.HasData) (j : ℕ) : sectionByte image sec j = 0 := by
  unfold sectionByte
  rw [if_neg]
  rintro ⟨hstart, hj⟩
  exact h ⟨hstart, Nat.zero_lt_of_lt hj⟩

/-- **The page behind the window** is cleared, and filled where there is a reader. -/
theorem pageLoaded {sec : Section} {frame i window : ℕ} {ok : Bool} {l b : MapLoop σ} {s : Phys σ}
    (hne : window ≠ 0) (hnone : ¬ sec.HasData → l.stream = none)
    (hstream : sec.HasData → ∃ stream, l.stream = some stream ∧ stream.addr ∈ O ∧
      stream.pos = min sec.dataSize (i * 4096))
    (hrun : (match l.stream with
      | none => .ok (true, { window := window, stream := none, phys := s.zeroPage frame })
      | some stream =>
        let (n, stream, s) := fakeRead image sec stream window frame pageSize (s.zeroPage frame)
        .ok (decide (0 ≤ n), { window := window, stream := some stream, phys := s }) :
      Kern (Bool × MapLoop σ)) = .ok (ok, b)) :
    ok = true ∧ PageLoaded image sec O frame i s b := by
  by_cases hdata : sec.HasData
  · obtain ⟨stream, hsome, haddr, hpos⟩ := hstream hdata
    obtain ⟨n, stream', s', hread, hn, haddr', hpos', halloc, hmem⟩ :=
      fakeRead_page (s.zeroPage frame) hdata hne hpos
    rw [hsome] at hrun
    dsimp only at hrun
    rw [hread] at hrun
    obtain ⟨rfl, rfl⟩ := Prod.mk.inj (Except.ok.inj hrun)
    refine ⟨decide_eq_true hn, halloc, fun a => ?_, fun hc => absurd hdata hc, fun _ => ?_⟩
    · show s'.mem a = _
      rw [hmem a]
      split
      · rfl
      · next hout =>
        rw [Phys.zeroPage_mem, if_neg]
        unfold pageSize
        exact hout
    · exact ⟨stream', rfl, haddr' ▸ haddr, hpos'⟩
  · rw [hnone hdata] at hrun
    obtain ⟨rfl, rfl⟩ := Prod.mk.inj (Except.ok.inj hrun)
    refine ⟨rfl, rfl, fun a => ?_, fun _ => rfl, fun hc => absurd hc hdata⟩
    rw [sectionByte_noData hdata]
    rfl

/-- **One turn of the loop of `map_section`** loads one page. -/
theorem Loading.turn (hV : K.toPageAlloc.Lawful V) {cur pd p i : ℕ} {sec : Section}
    {l b : MapLoop σ} (h : Loading image V W L O pd p sec i l) (hcur : (cur, 1023) ∈ W)
    (hsec : sec.Loadable) (hw : (pd, (sec.vAddr / 4096 + i) / 1024) ∈ W) (hi : i < 1024)
    (hold : ∀ q < i, (pd, (sec.vAddr / 4096 + q) / 1024) ∈ W)
    (hzone : ∀ q ≤ i, zoneOfPage (p + q) = .highmem) (htable : ∀ q ≤ i, p + q < maxPages)
    (hrun : mapSectionPage K image cur pd (p * 4096) sec l i = .ok (true, b)) :
    Loading image V W L O pd p sec (i + 1) b := by
  have hp : add32 (p * 4096) (i * pageSize) = (p + i) * 4096 := by
    have hlt := htable i le_rfl
    unfold maxPages at hlt
    unfold pageSize
    rw [add32_eq (by omega)]
    omega
  have huser := hsec.user
  have hstart := hsec.aligned
  have hv : add32 sec.vAddr (i * pageSize) / 4096 = sec.vAddr / 4096 + i := by
    unfold kernelVaddrBase at huser
    exact entry_index (by omega)
  -- the pages are not in the slot of the window
  have hslot : ∀ q ≤ i, (sec.vAddr / 4096 + q) / 1024 ≠ 1023 := by
    intro q hq
    unfold kernelVaddrBase at huser
    omega
  unfold mapSectionPage at hrun
  simp only [hp] at hrun
  obtain ⟨⟨window, s₁⟩, hkmap, hrun⟩ := bind_eq_ok.mp hrun
  dsimp only at hrun
  split at hrun
  · cases hrun
  · next hne =>
    obtain ⟨rfl, -, -⟩ := h.tables.kmap_slots hV hcur hkmap hne
    obtain ⟨⟨ok, s₂⟩, hmap, hrun⟩ := bind_eq_ok.mp hrun
    cases ok with
    | false => cases hrun
    | true =>
      have hopen := windowOpen hV h.tables hcur (hv ▸ hw) (hv ▸ hslot i le_rfl) hsec.present hkmap hne
        hmap
      simp only [Bool.not_true, Bool.false_eq_true, if_false] at hrun
      obtain ⟨frame, haccess, hrun⟩ := bind_eq_ok.mp hrun
      obtain rfl := hopen.access hcur (Dvd.intro_left _ rfl) (frame_lt (htable i le_rfl)) haccess
      obtain ⟨-, hloaded⟩ := pageLoaded (i := i) hne h.noStream h.stream hrun
      have hhigh := highmem_le (hzone i le_rfl)
      have hlow : Phys.SameLow s₂ b.phys := by
        refine ⟨hloaded.alloc, fun a ha => ?_⟩
        rw [hloaded.mem a, if_neg]
        omega
      obtain ⟨htables, hsame⟩ := hopen.tables.of_sameLow hlow
      refine ⟨htables, hloaded.noStream, hloaded.stream, fun q hq => ?_, fun j hj => ?_⟩
      · have hwq : (pd, (sec.vAddr / 4096 + q) / 1024) ∈ W := by
          rcases Nat.lt_succ_iff_lt_or_eq.mp hq with hlt | rfl
          · exact hold q hlt
          · exact hw
        rw [(hsame _ hwq).entryAt_eq, hopen.entry _ _ hwq (hslot q (Nat.le_of_lt_succ hq)), hv]
        by_cases heq : q = i
        · rw [heq, if_pos ⟨rfl, rfl⟩]
        · have hother : ¬ (pd = pd ∧ sec.vAddr / 4096 + q = sec.vAddr / 4096 + i) :=
            fun hc => heq (Nat.add_left_cancel hc.2)
          rw [if_neg hother]
          exact h.entry q (lt_of_le_of_ne (Nat.le_of_lt_succ hq) heq)
      · rw [hloaded.mem]
        by_cases hnew : i * 4096 ≤ j
        · -- a byte of the page of this turn
          rw [if_pos (by omega)]
          congr 1
          omega
        · -- a byte of an earlier page
          have hpage : highmemStart ≤ p * 4096 := highmem_le (hzone 0 (Nat.zero_le i))
          have hout : ¬ ((p + i) * 4096 ≤ p * 4096 + j ∧ p * 4096 + j < (p + i) * 4096 + 4096) := by
            rw [Nat.add_mul]
            exact fun hc => hnew (Nat.le_of_add_le_add_left hc.1)
          rw [if_neg hout, hopen.high _ (hpage.trans (Nat.le_add_right _ j))]
          exact h.cell j (not_le.mp hnew)

/-! ## The whole call -/

/-- **A section is loaded.** Its pages are consecutive pages of one block, which was free and is now
handed out, and translated through the directory they read as the section image. -/
structure SectionLoaded (image : KernelImage) (V : PageAlloc.View σ) (pd : ℕ) (sec sec' : Section)
    (s s' : Phys σ) : Prop where
  block : sec.mappingSize ≠ 0 → ∃ p k, sec'.pAddr = p * 4096 ∧ sec.mappingSize / 4096 ≤ 2 ^ k ∧
    block p k ⊆ V.free s.alloc ∧ (p, k) ∈ V.live s'.alloc
  page : ∀ q < sec.mappingSize / 4096, ∃ e, entryAt s' pd (sec.vAddr / 4096 + q) = some e ∧
    getEntryAddr e = sec'.pAddr + q * 4096 ∧ getEntryFlags e = sec.flags
  byte : ∀ j < sec.mappingSize, byteAt s' pd (sec.vAddr + j) = some (sectionByte image sec j)

/-- The pages of a section whose reader is there. -/
theorem mapSectionPages_loads (hK : K.Lawful V objs) {cur pd p k : ℕ} {sec sec' : Section}
    {stream : Option IoStream} {s₁ : Phys σ} (h : PageTables (V.holding objs O) W (insert (p, k) L) s₁)
    (hnone : ¬ sec.HasData → stream = none)
    (hsome : sec.HasData → ∃ st, stream = some st ∧ st.addr ∈ O ∧ st.pos = 0)
    (hcur : (cur, 1023) ∈ W) (hsec : sec.Loadable)
    (hpages : ∀ q < sec.mappingSize / 4096, (pd, (sec.vAddr / 4096 + q) / 1024) ∈ W)
    (hfits : sec.mappingSize / 4096 ≤ 2 ^ k) (hk : k ≤ 10) (hfree : block p k ⊆ V.free s.alloc)
    (hzone : ∀ q ∈ block p k, zoneOfPage q = .highmem) (htable : ∀ q ∈ block p k, q < maxPages)
    (hrun : mapSectionPages K image cur pd (p * 4096) sec stream s₁ = .ok (true, sec', s')) :
    SectionLoaded image V pd sec sec' s s' := by
  have hin : ∀ {q}, q < sec.mappingSize / 4096 → p + q ∈ block p k := by
    intro q hq
    rw [mem_block]
    omega
  have hcount : sec.mappingSize / 4096 ≤ 1024 := by
    calc sec.mappingSize / 4096
      _ ≤ 2 ^ k := hfits
      _ ≤ 2 ^ 10 := Nat.pow_le_pow_right (by norm_num) hk
  unfold mapSectionPages at hrun
  obtain ⟨⟨ok, l⟩, hloop, hrun⟩ := bind_eq_ok.mp hrun
  cases ok with
  | false =>
    obtain ⟨s₂, -, hrun⟩ := bind_eq_ok.mp hrun
    cases (Prod.mk.inj (Except.ok.inj hrun)).1
  | true =>
    -- all pages are loaded at the end of the loop
    have hloaded : Loading image (V.holding objs O) W (insert (p, k) L) O pd p sec
        (0 + sec.mappingSize / pageSize) l := by
      refine whileOk_range' (I := fun i l => Loading image (V.holding objs O) W (insert (p, k) L) O pd p
        sec i l) (Q := fun _ => True) (fun i l b ok _ hi hI hturn => ?_) ?_ hloop
      · cases ok with
        | false => trivial
        | true =>
          have hi : i < sec.mappingSize / 4096 := by
            unfold pageSize at hi
            omega
          exact hI.turn (hK.pages O) hcur hsec (hpages i hi) (hi.trans_le hcount)
            (fun q hq => hpages q (hq.trans hi)) (fun q hq => hzone _ (hin (hq.trans_lt hi)))
            (fun q hq => htable _ (hin (hq.trans_lt hi))) hturn
      · refine ⟨h, hnone, fun hdata => ?_, fun q hq => absurd hq (Nat.not_lt_zero q), fun j hj => ?_⟩
        · obtain ⟨st, hst, haddr, hpos⟩ := hsome hdata
          refine ⟨st, hst, haddr, ?_⟩
          rw [hpos]
          simp
        · rw [Nat.zero_mul] at hj
          exact absurd hj (Nat.not_lt_zero j)
    rw [Nat.zero_add, show pageSize = 4096 from rfl] at hloaded
    -- the reader and the window are closed
    obtain ⟨s₂, hclose, hrun⟩ := bind_eq_ok.mp hrun
    obtain ⟨O', hmem₂, h₂⟩ : ∃ O', s₂.mem = l.phys.mem ∧
        PageTables (V.holding objs O') W (insert (p, k) L) s₂ := by
      by_cases hdata : sec.HasData
      · obtain ⟨st, hst, haddr, -⟩ := hloaded.stream hdata
        rw [hst] at hclose
        exact ⟨_, hloaded.tables.kfree_spec hK haddr hclose⟩
      · rw [hloaded.noStream hdata] at hclose
        obtain rfl := Except.ok.inj hclose
        exact ⟨O, rfl, hloaded.tables⟩
    obtain ⟨s₃, hkunmap, hrun⟩ := bind_eq_ok.mp hrun
    obtain ⟨-, rfl, rfl⟩ := ok_triple_inj hrun
    obtain ⟨h₃, hkept⟩ := h₂.kunmap_kept (hK.pages O') hcur hkunmap
    have huser := hsec.user
    have hstart := hsec.aligned
    have hentry : ∀ q < sec.mappingSize / 4096,
        entryAt s₃ pd (sec.vAddr / 4096 + q) = some ((p + q) * 4096 ||| sec.flags) := by
      intro q hq
      have hother : (pd, (sec.vAddr / 4096 + q) / 1024) ∉ ({(cur, 1023)} : Set (ℕ × ℕ)) := by
        intro heq
        have hidx := (Prod.mk.inj (Set.mem_singleton_iff.mp heq)).2
        unfold kernelVaddrBase at huser
        omega
      rw [(hkept.slot _ (hpages q hq) hother).entryAt_eq, entryAt_congr hmem₂]
      exact hloaded.entry q hq
    have hframe : ∀ q < sec.mappingSize / 4096,
        getEntryAddr ((p + q) * 4096 ||| sec.flags) = (p + q) * 4096 ∧
          getEntryFlags ((p + q) * 4096 ||| sec.flags) = sec.flags :=
      fun q hq => vmmMapPage_entry (Dvd.intro_left _ rfl) (frame_lt (htable _ (hin hq))) hsec.flags
    refine ⟨fun _ => ⟨p, k, rfl, hfits, hfree, ?_⟩, fun q hq => ?_, fun j hj => ?_⟩
    · have hlive : (p, k) ∈ (V.holding objs O').live s₃.alloc := by
        rw [h₃.live]
        exact Or.inl (Set.mem_insert _ L)
      exact hlive
    · refine ⟨_, hentry q hq, ?_, (hframe q hq).2⟩
      rw [(hframe q hq).1, Nat.add_mul]
    · -- byte `j` is in page `j / 4096` of the section
      obtain ⟨hdvd, -, -⟩ := hsec.pages
      have hq : j / 4096 < sec.mappingSize / 4096 := by omega
      have hpage : (sec.vAddr + j) / 4096 = sec.vAddr / 4096 + j / 4096 := by omega
      have hoff : (sec.vAddr + j) % 4096 = j % 4096 := by omega
      have he := hentry _ hq
      rw [← hpage] at he
      rw [byteAt_eq he, (hframe _ hq).1, hoff]
      have hcell : (p + j / 4096) * 4096 + j % 4096 = p * 4096 + j := by omega
      have hhigh : highmemStart ≤ p * 4096 := highmem_le (hzone p (self_mem_block p k))
      rw [hcell, h₂.kunmap_high hcur hkunmap (hhigh.trans (Nat.le_add_right _ j)), hmem₂]
      exact congrArg some (hloaded.cell j (by omega))

/-- The reader of a section with data. -/
theorem sectionCreateReader_spec (hK : K.Lawful V objs) {sec : Section} {stream : Option IoStream}
    (h : PageTables (V.holding objs O) W L s) (hdata : sec.HasData)
    (hrun : sectionCreateReader K sec s = .ok (stream, s')) : s'.mem = s.mem ∧
      ((stream = none ∧ PageTables (V.holding objs O) W L s') ∨
        ∃ st, stream = some st ∧ st.pos = 0 ∧ st.addr ∉ O ∧
          PageTables (V.holding objs (insert st.addr O)) W L s') := by
  have hctx : ¬ (sec.dataStart = 0 ∨ sec.dataSize = 0) := by
    rintro (hzero | hzero)
    · exact hdata.1 hzero
    · exact absurd hzero (Nat.pos_iff_ne_zero.mp hdata.2)
  unfold sectionCreateReader at hrun
  rw [if_neg hctx] at hrun
  obtain ⟨⟨addr, s₁⟩, hcall, hrun⟩ := bind_eq_ok.mp hrun
  obtain ⟨hmem, hptr⟩ := h.kmalloc_spec hK hcall
  dsimp only at hrun
  split at hrun
  · next hnull =>
    obtain ⟨rfl, rfl⟩ := Prod.mk.inj (Except.ok.inj hrun)
    rcases hptr with ⟨-, h₁⟩ | ⟨hne, -⟩
    · exact ⟨hmem, Or.inl ⟨rfl, h₁⟩⟩
    · exact absurd hnull hne
  · next hne =>
    obtain ⟨rfl, rfl⟩ := Prod.mk.inj (Except.ok.inj hrun)
    rcases hptr with ⟨hnull, -⟩ | ⟨-, hnew, h₁⟩
    · exact absurd hnull hne
    · exact ⟨hmem, Or.inr ⟨_, rfl, rfl, hnew, h₁⟩⟩

/-- **`map_section` loads the section image exactly.** -/
theorem mapSection_loads {Large Spent : σ → ℕ → Prop} (hK : K.Contract V objs Large Spent)
    (h : PageTables (V.holding objs O) W L s) {cur pd : ℕ} {sec sec' : Section}
    (hcur : (cur, 1023) ∈ W) (hsec : sec.Loadable)
    (hpages : ∀ q < sec.mappingSize / 4096, (pd, (sec.vAddr / 4096 + q) / 1024) ∈ W)
    (hrun : mapSection K image cur pd sec s = .ok (true, sec', s')) :
    SectionLoaded image V pd sec sec' s s' := by
  rw [mapSection_eq] at hrun
  split at hrun
  · next hzero =>
    -- a section without pages
    refine ⟨fun hne => absurd hzero hne, fun q hq => ?_, fun j hj => ?_⟩
    · rw [hzero] at hq
      exact absurd hq (Nat.not_lt_zero q)
    · rw [hzero] at hj
      exact absurd hj (Nat.not_lt_zero j)
  · obtain ⟨⟨pool, s₁⟩, halloc, hrun⟩ := bind_eq_ok.mp hrun
    dsimp only at hrun
    split at hrun
    · cases (Prod.mk.inj (Except.ok.inj hrun)).1
    · next hne =>
      obtain ⟨p, rfl, hnew⟩ := h.alloc_ok (hK.pages O) halloc hne
      obtain ⟨hdvd, hle, -⟩ := hsec.pages
      have horder := hK.order_lt h.inv.1 (PageAlloc.allocOn_ok halloc).1 hne
      have hfits := sizeToOrder_pages horder hdvd hle
      have hk : sizeToOrder sec.mappingSize ≤ 10 := by
        unfold badOrder at horder
        omega
      split at hrun
      · next hdata =>
        obtain ⟨⟨stream, s₂⟩, hreader, hrun⟩ := bind_eq_ok.mp hrun
        obtain ⟨-, ⟨rfl, -⟩ | ⟨st, rfl, hpos, -, h₂⟩⟩ :=
          sectionCreateReader_spec hK.toLawful hnew.tables hdata hreader
        · obtain ⟨s₃, -, hrun⟩ := bind_eq_ok.mp hrun
          cases (Prod.mk.inj (Except.ok.inj hrun)).1
        · exact mapSectionPages_loads hK.toLawful h₂ (fun hnone => absurd hdata hnone)
            (fun _ => ⟨st, rfl, Set.mem_insert _ O, hpos⟩) hcur hsec hpages hfits hk hnew.subset
            hnew.zone hnew.inTable hrun
      · next hnone =>
        exact mapSectionPages_loads hK.toLawful hnew.tables (fun _ => rfl)
          (fun hdata => absurd hdata hnone) hcur hsec hpages hfits hk hnew.subset hnew.zone hnew.inTable
          hrun

end Load

/-! ### Three pages of text -/

/-- 9000 bytes of text in two page tables. -/
def textSection : Section :=
  { vAddr := 0x83FF000, pAddr := 0, dataStart := 0xC0101000, dataSize := 9000, mappingSize := 12288,
    flags := userSectionRo }

/-- The bytes of an image that tell where they come from. -/
def variedImage : KernelImage := { smallImage with bytes := fun a => a / 256 % 256 }

theorem textSection_loadable : textSection.Loadable where
  aligned := by decide
  user := by decide
  flags := by decide
  present := by decide
  size := Or.inl ⟨⟨by decide, by decide⟩, by decide, by decide +kernel⟩

/-- A byte of each page, and the first behind the data. -/
theorem textSection_view :
    (mapSection heapKernel variedImage 0x1000 0x1000 textSection heapSpace).toOption.map (fun r =>
      (r.1, [0x83FF010, 0x8400020, 0x8401327, 0x8401328].map (byteAt r.2.2 0x1000))) =
      some (true, [some 0x10, some 0x20, some 0x33, some 0]) := by
  decide +kernel

theorem mapSection_loads_textSection : ∃ sec' s',
    mapSection heapKernel variedImage 0x1000 0x1000 textSection heapSpace = .ok (true, sec', s') ∧
    [0x83FF010, 0x8400020, 0x8401327, 0x8401328].map (byteAt s' 0x1000) =
      [some 0x10, some 0x20, some 0x33, some 0] ∧
    SectionLoaded variedImage (heapView twoZonePages) 0x1000 textSection sec' heapSpace s' := by
  obtain ⟨⟨ok, sec', s'⟩, hrun, hview⟩ := exists_ok_of_toOption_map textSection_view
  obtain ⟨rfl, hbytes⟩ := Prod.mk.inj hview
  have hW : ∀ {i}, i < 1024 → ((0x1000 : ℕ), i) ∈ { w : ℕ × ℕ | w.1 = 0x1000 ∧ w.2 < 1024 } :=
    fun hi => ⟨rfl, hi⟩
  refine ⟨sec', s', hrun, hbytes, mapSection_loads (heapKernel_contract twoZonePages) heapSpace_tables
    (hW (by norm_num)) textSection_loadable (fun q hq => hW ?_) hrun⟩
  have hq : q < 3 := hq
  have hv : textSection.vAddr / 4096 = 0x83FF := by decide
  omega

end Kfs.Userspace
