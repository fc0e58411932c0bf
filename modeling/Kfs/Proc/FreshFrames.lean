import Kfs.Memory.AreaSpec
import Kfs.Memory.HeapContract
import Kfs.Memory.TwoRuns
import Kfs.Proc.Layout
import Kfs.Proc.Lifecycle

/-!
# What is in a new page

Three operations give a task pages: `map_section`, the page copy of `fork` and `vma_map_area`, for
areas that are mapped at once and for those that wait for a fault. Two states that differ in free
pages only show what a new page holds: it must not depend on what was in the frame before. A section
is cleared and read, a copy is written over the whole page, and `vma_map_area` writes nothing.
-/

namespace Kfs.Userspace

open Kfs.Lib Kfs.Lib.Word32 Kfs.Lib.Dyadic Kfs.Memory

section Fresh

variable {σ : Type} (K : KernelAlloc σ) (image : KernelImage)

/-! ## Operations -/

/-- What user code reads at `v` under the directory `pd`. -/
def userRead (s : Phys σ) (pd v : ℕ) : Option ℕ :=
  (walk s.mem pd (v / 4096)).bind fun tr =>
    if tr.user then some (s.mem (tr.frame + v % 4096)) else none

/-- The states are equal but for what the free pages hold. -/
structure SameButFree (V : PageAlloc.View σ) (s t : Phys σ) : Prop where
  alloc : t.alloc = s.alloc
  mem : ∀ a, a / 4096 ∉ V.free s.alloc → t.mem a = s.mem a

/-- An operation that gives a task pages. -/
inductive PageGift where
  | mapSection (cur pd : ℕ) (toMap : Section)
  | forkPage (current new currentPt i j : ℕ)
  | vmaMapArea (pd : ℕ) (newArea : VmArea)
  deriving DecidableEq, Repr

namespace PageGift

/-- The directory that gets the pages. -/
def pd : PageGift → ℕ
  | mapSection _ pd _ => pd
  | forkPage _ new _ _ _ => new
  | vmaMapArea pd _ => pd

/-- Whether the operation succeeds, and memory after it. -/
def run (s : Phys σ) : PageGift → Kern (Bool × Phys σ)
  | mapSection cur pd toMap => do
    let (ok, _, s) ← Userspace.mapSection K image cur pd toMap s
    .ok (ok, s)
  | forkPage current new currentPt i j => Userspace.forkPage K current new currentPt i s j
  | vmaMapArea pd newArea => do
    let (ok, _, s) ← Memory.vmaMapArea K.vmaEnv newArea pd s
    .ok (ok, s)

/-- How the operation is called: `W` are the slots that are in order. Pages of tasks lie in
`HIGHMEM`. -/
def Ready (W : Set (ℕ × ℕ)) (s : Phys σ) : PageGift → Prop
  | mapSection cur pd toMap => (cur, 1023) ∈ W ∧ (∀ i < userPdes, (pd, i) ∈ W) ∧
      4096 ∣ toMap.vAddr ∧ 4096 ∣ toMap.mappingSize ∧
      toMap.vAddr + toMap.mappingSize ≤ kernelVaddrBase ∧
      toMap.flags < 4096 ∧ flagIsSet toMap.flags ptePresentBit = true
  | forkPage current new currentPt i j => (current, 1023) ∈ W ∧ (current, i) ∈ W ∧
      (∀ i < userPdes, (new, i) ∈ W) ∧ current ≠ new ∧ i < userPdes ∧ j < 1024 ∧
      slotPresent s (current, i) = true ∧ currentPt = tableOf s (current, i) ∧
      ∀ e, pte s (current, i) j = some e → highmemStart ≤ getEntryAddr e
  | vmaMapArea pd newArea => (∀ i < userPdes, (pd, i) ∈ W) ∧
      (∃ addr, newArea.pages =
        some { addr := addr, frames := List.replicate newArea.nrPages 0 }) ∧
      4096 ∣ newArea.startVaddr ∧ newArea.startVaddr + newArea.nrPages * 4096 ≤ kernelVaddrBase ∧
      newArea.pteFlags < 4096 ∧ flagIsSet newArea.pteFlags ptePresentBit = true

/-- The operation fills its pages: a copy does so if the page that it copies is not free. -/
def Fills (V : PageAlloc.View σ) (s : Phys σ) : PageGift → Prop
  | mapSection _ _ _ => True
  | forkPage _ _ currentPt _ j => getEntryAddr (s.mem (currentPt + 4 * j)) / 4096 ∉ V.free s.alloc
  | vmaMapArea _ _ => False

end PageGift

/-- **No stale data**: where the operation takes `s` to `s'`, it succeeds in every state that differs
in free pages only, and user code reads the same in the new pages. -/
def NoStaleData (V : PageAlloc.View σ) (op : PageGift) (s s' : Phys σ) : Prop :=
  ∀ t, SameButFree V s t → ∃ t', op.run K image t = .ok (true, t') ∧
    ∀ v < kernelVaddrBase, entryAt s' op.pd (v / 4096) ≠ entryAt s op.pd (v / 4096) →
      userRead t' op.pd v = userRead s' op.pd v

/-! ## Reading through a mapping -/

variable {K image} {V : PageAlloc.View σ} {objs : σ → Set ℕ} {O : Set ℕ} {W L : Set (ℕ × ℕ)}
  {E : Set ℕ} {s s' t t' : Phys σ}

/-- Two states that differ in free pages are alike. -/
theorem SameButFree.alike (h : SameButFree V s t)
    (htables : PageTables (V.holding objs O) W L s) : Alike (V.holding objs O) W L ∅ s t where
  tables := htables
  alloc := h.alloc
  mem a ha _ := h.mem a ha
  blocks := fun p hp => absurd hp (Set.notMem_empty p)
  dirs := fun _ _ => Set.notMem_empty _

/-- The frame of a walk is the one in the entry. -/
theorem walk_frame {pd n : ℕ} {tr : Translation} (h : walk s.mem pd n = some tr) :
    ∃ e, entryAt s pd n = some e ∧ tr.frame = getEntryAddr e := by
  have hmapped := pte_of_walk h
  unfold entryAt
  unfold walk at h
  unfold pte slotPresent tableOf slotAddr at hmapped ⊢
  simp only at h hmapped ⊢
  split at h
  · cases h
  · split at h
    · cases h
    · obtain rfl := Option.some.inj h
      split at hmapped
      · next hpres =>
        rw [if_pos hpres]
        exact ⟨_, rfl, rfl⟩
      · exact absurd rfl hmapped

/-- What user code reads in two states whose walks of the page agree. -/
theorem userRead_congr {pd v e : ℕ}
    (hwalk : walk t.mem pd (v / 4096) = walk s.mem pd (v / 4096))
    (hentry : entryAt s pd (v / 4096) = some e)
    (hmem : t.mem (getEntryAddr e + v % 4096) = s.mem (getEntryAddr e + v % 4096)) :
    userRead t pd v = userRead s pd v := by
  unfold userRead
  rw [hwalk]
  cases hs : walk s.mem pd (v / 4096) with
  | none => rfl
  | some tr =>
    obtain ⟨e', he', hframe⟩ := walk_frame hs
    obtain rfl := Option.some.inj (he'.symm.trans hentry)
    rw [Option.bind_some, Option.bind_some, hframe, hmem]

/-- It reads what the frame of the page holds. -/
theorem userRead_eq {pd v e : ℕ} (hwalk : walk t.mem pd (v / 4096) = walk s.mem pd (v / 4096))
    (hentry : entryAt s pd (v / 4096) = some e) (hread : userRead s pd v ≠ none) :
    userRead t pd v = some (t.mem (getEntryAddr e + v % 4096)) := by
  unfold userRead at hread ⊢
  rw [hwalk]
  cases hs : walk s.mem pd (v / 4096) with
  | none =>
    rw [hs] at hread
    exact absurd rfl hread
  | some tr =>
    obtain ⟨e', he', hframe⟩ := walk_frame hs
    obtain rfl := Option.some.inj (he'.symm.trans hentry)
    rw [hs, Option.bind_some] at hread
    rw [Option.bind_some, ← hframe]
    split at hread
    · next huser => rw [if_pos huser]
    · exact absurd rfl hread

/-! ## Sections -/

/-- **`fake_read`** writes above `HIGHMEM`, and what it writes does not depend on memory. -/
theorem fakeRead_spec (sec : Section) (stream : IoStream) (dest size : ℕ) (s t : Phys σ) {frame : ℕ}
    (hhigh : highmemStart ≤ frame) : ∃ n stream' s' t',
    fakeRead image sec stream dest frame size s = (n, stream', s') ∧
    fakeRead image sec stream dest frame size t = (n, stream', t') ∧
    stream'.addr = stream.addr ∧ Phys.SameLow s s' ∧ t'.alloc = t.alloc ∧
    ∀ c, t.mem c = s.mem c → t'.mem c = s'.mem c := by
  have hbzero : ∀ {a n : ℕ} {s t : Phys σ} {c : ℕ}, t.mem c = s.mem c →
      (t.bzero a n).mem c = (s.bzero a n).mem c := by
    intro a n s t c hc
    simp only [Phys.bzero]
    rw [hc]
  unfold fakeRead
  split
  · exact ⟨_, _, _, _, rfl, rfl, rfl, ⟨rfl, fun _ _ => rfl⟩, rfl, fun c hc => hc⟩
  · split
    · exact ⟨_, _, _, _, rfl, rfl, rfl, Phys.sameLow_bzero _ _ hhigh, rfl, fun c hc => hbzero hc⟩
    · dsimp only
      generalize (if size < sec.dataSize - stream.pos then size
        else sec.dataSize - stream.pos) = bytesRead
      have hload : ∀ {c}, t.mem c = s.mem c →
          (t.load frame (fun i => image.bytes (sec.dataStart + stream.pos + i)) bytesRead).mem c =
          (s.load frame (fun i => image.bytes (sec.dataStart + stream.pos + i)) bytesRead).mem c := by
        intro c hc
        simp only [Phys.load]
        rw [hc]
      have hlow := Phys.sameLow_load s
        (fun i => image.bytes (sec.dataStart + stream.pos + i)) bytesRead hhigh
      split
      · exact ⟨_, _, _, _, rfl, rfl, rfl, hlow.trans (Phys.sameLow_bzero _ _ (by omega)), rfl,
          fun c hc => hbzero (hload hc)⟩
      · exact ⟨_, _, _, _, rfl, rfl, rfl, hlow, rfl, fun c hc => hload hc⟩

/-- An access through a page goes to the frame in its entry. -/
theorem accessAt_frame (h : PageTables V W L s) {pd v frame e : ℕ}
    (hw : (pd, v / 4096 / 1024) ∈ W) (hentry : entryAt s pd (v / 4096) = some e) (hv : 4096 ∣ v)
    (hrun : accessAt pd v s = .ok frame) : frame = getEntryAddr e := by
  unfold accessAt at hrun
  rw [h.vmmGetMapping_entry hw hentry hv, ok_bind] at hrun
  split at hrun
  · cases hrun
  · exact (Except.ok.inj hrun).symm

/-- The window has a slot of its own. -/
theorem user_ne_window {pd cur n : ℕ} (hn : n < userPdes * 1024) : (pd, n / 1024) ≠ (cur, 1023) := by
  intro heq
  have hslot := (Prod.mk.inj heq).2
  unfold userPdes at hn
  omega

/-- What `vmm_kmap` and `vmm_map_page` of the same frame have done to all slots but that of the window:
page `n` of `pd` is mapped. The window leads to the frame. -/
structure WindowOpen (V : PageAlloc.View σ) (W L : Set (ℕ × ℕ)) (cur pd n p flags : ℕ)
    (s s' : Phys σ) : Prop where
  tables : PageTables V W L s'
  entry : ∀ pd' m, (pd', m / 1024) ∈ W → m / 1024 ≠ 1023 → entryAt s' pd' m =
    if pd' = pd ∧ m = n then some (p ||| flags) else entryAt s pd' m
  window : entryAt s' cur (vmmKmapVaddr / 4096) = some (p ||| (ptePresentBit ||| pteRwBit))
  high : ∀ a, highmemStart ≤ a → s'.mem a = s.mem a

theorem windowOpen {A : PageAlloc σ} (hA : A.Lawful V) (h : PageTables V W L s)
    {cur pd v p flags window : ℕ} {s₁ : Phys σ} (hcur : (cur, 1023) ∈ W)
    (hw : (pd, v / 4096 / 1024) ∈ W) (hn : v / 4096 / 1024 ≠ 1023)
    (hpresent : flagIsSet flags ptePresentBit = true)
    (hkmap : vmmKmap A cur p s = .ok (window, s₁)) (hne : window ≠ 0)
    (hmap : vmmMapPage A pd v p flags s₁ = .ok (true, s')) :
    WindowOpen V W L cur pd (v / 4096) p flags s s' := by
  obtain ⟨rfl, h₁, hsame, hopen⟩ := h.kmap_slots hA hcur hkmap hne
  rcases h₁.mapPage_spec (p := p) hA hw hpresent with hfail | ⟨s₂, hok, h₂, hentry⟩
  · cases (Prod.mk.inj (Except.ok.inj (hmap.symm.trans hfail))).1
  · obtain ⟨-, rfl⟩ := Prod.mk.inj (Except.ok.inj (hmap.symm.trans hok))
    refine ⟨h₂, fun pd' m hm huser => ?_, ?_, fun a ha => ?_⟩
    · rw [hentry pd' m hm, (hsame _ hm fun heq => huser (Prod.mk.inj heq).2).entryAt_eq]
    · -- the page is another one than the window
      have hcurW : (cur, vmmKmapVaddr / 4096 / 1024) ∈ W := by
        rw [kmap_slot]
        exact hcur
      have hother : ¬ (cur = pd ∧ vmmKmapVaddr / 4096 = v / 4096) := by
        rintro ⟨-, heq⟩
        rw [← heq, kmap_slot] at hn
        exact hn rfl
      rw [hentry cur _ hcurW, if_neg hother, hopen]
    · rw [h₁.mapPage_high hA (by rw [getPdeIndex_eq]; exact hw) hmap ha, h.kmap_high hA hcur hkmap ha]

/-- An access through the window goes to the frame. -/
theorem WindowOpen.access {cur pd n p flags frame : ℕ} (h : WindowOpen V W L cur pd n p flags s s')
    (hcur : (cur, 1023) ∈ W) (hdvd : 4096 ∣ p) (hlt : p < 2 ^ 32)
    (hrun : accessAt cur vmmKmapVaddr s' = .ok frame) : frame = p := by
  have hcurW : (cur, vmmKmapVaddr / 4096 / 1024) ∈ W := by
    rw [kmap_slot]
    exact hcur
  rw [accessAt_frame h.tables hcurW h.window (by decide) hrun]
  exact (vmmMapPage_entry hdvd hlt (by decide)).1

/-- The same for user pages only. -/
structure FrameOpen (W : Set (ℕ × ℕ)) (cur pd n p flags : ℕ) (s s' : Phys σ) : Prop where
  entry : ∀ pd' m, (pd', m / 1024) ∈ W → m < userPdes * 1024 → entryAt s' pd' m =
    if pd' = pd ∧ m = n then some (p ||| flags) else entryAt s pd' m
  access : ∀ {frame}, accessAt cur vmmKmapVaddr s' = .ok frame → frame = p
  high : ∀ a, highmemStart ≤ a → s'.mem a = s.mem a

theorem frameOpen {A : PageAlloc σ} (hA : A.Lawful V) (h : PageTables V W L s)
    {cur pd v p flags window : ℕ} {s₁ : Phys σ} (hcur : (cur, 1023) ∈ W)
    (hw : (pd, v / 4096 / 1024) ∈ W) (hn : v / 4096 < userPdes * 1024) (hdvd : 4096 ∣ p)
    (hlt : p < 2 ^ 32) (hpresent : flagIsSet flags ptePresentBit = true)
    (hkmap : vmmKmap A cur p s = .ok (window, s₁)) (hne : window ≠ 0)
    (hmap : vmmMapPage A pd v p flags s₁ = .ok (true, s')) :
    FrameOpen W cur pd (v / 4096) p flags s s' := by
  have huser : ∀ {m}, m < userPdes * 1024 → m / 1024 ≠ 1023 := by
    intro m hm
    unfold userPdes at hm
    omega
  have hopen := windowOpen hA h hcur hw (huser hn) hpresent hkmap hne hmap
  exact {
    entry := fun pd' m hm hlow => hopen.entry pd' m hm (huser hlow)
    access := hopen.access hcur hdvd hlt
    high := hopen.high }

/-- Before turn `i` of the loop of `map_section` on both states: `p` is the first page of the new
block, and its pages from `p + i` on are not filled. -/
structure Filling (V : PageAlloc.View σ) (O : Set ℕ) (W L : Set (ℕ × ℕ)) (pd p k flags : ℕ)
    (s : Phys σ) (i : ℕ) (l l' : MapLoop σ) : Prop where
  window : l'.window = l.window
  stream : l'.stream = l.stream
  addr : ∀ stream, l.stream = some stream → stream.addr ∈ O
  alike : Alike V W L { q | q ∈ block p k ∧ p + i ≤ q } l.phys l'.phys
  entry : ∀ n < userPdes * 1024, entryAt l.phys pd n = entryAt s pd n ∨
    ∃ q < i, entryAt l.phys pd n = some ((p + q) * 4096 ||| flags)

/-- **One turn of the loop of `map_section`** fills its page. -/
theorem Filling.turn (hV : K.toPageAlloc.Lawful V) {cur pd p k : ℕ} {sec : Section} {i : ℕ}
    {l l' b : MapLoop σ} (h : Filling V O W L pd p k sec.flags s i l l')
    (hcur : (cur, 1023) ∈ W) (hpd : ∀ i < userPdes, (pd, i) ∈ W) (hstart : 4096 ∣ sec.vAddr)
    (hpage : sec.vAddr + i * 4096 < kernelVaddrBase)
    (hpresent : flagIsSet sec.flags ptePresentBit = true)
    (hzone : zoneOfPage (p + i) = .highmem) (htable : p + i < maxPages)
    (hrun : mapSectionPage K image cur pd (p * 4096) sec l i = .ok (true, b)) :
    ∃ b', mapSectionPage K image cur pd (p * 4096) sec l' i = .ok (true, b') ∧
      Filling V O W L pd p k sec.flags s (i + 1) b b' := by
  have hbase : kernelVaddrBase ≤ 2 ^ 32 := by decide
  have hp : add32 (p * 4096) (i * pageSize) = (p + i) * 4096 := by
    unfold maxPages at htable
    unfold pageSize
    rw [add32_eq (by omega)]
    omega
  have hv : add32 sec.vAddr (i * pageSize) / 4096 = sec.vAddr / 4096 + i :=
    area_page hstart hpage hbase
  have huser : sec.vAddr / 4096 + i < userPdes * 1024 := by
    unfold kernelVaddrBase at hpage
    unfold userPdes
    omega
  have hlt : (p + i) * 4096 < 2 ^ 32 := frame_lt htable
  have hslot : ∀ {n}, n < userPdes * 1024 → (pd, n / 1024) ∈ W := fun hn => hpd _ (by omega)
  unfold mapSectionPage at hrun ⊢
  simp only [hp] at hrun ⊢
  rw [bind_eq_ok] at hrun
  obtain ⟨⟨window, s₁⟩, hkmap, hrun⟩ := hrun
  obtain ⟨⟨window', t₁⟩, hkmap', hwindow, h₁⟩ := h.alike.kmap hV hcur ((p + i) * 4096) _ hkmap
  obtain rfl : window' = window := hwindow
  rw [hkmap', ok_bind]
  dsimp only at hrun ⊢
  split at hrun
  · cases hrun
  · next hne =>
    rw [if_neg hne]
    obtain ⟨rfl, -, -⟩ := h.alike.tables.kmap_slots hV hcur hkmap hne
    rw [bind_eq_ok] at hrun
    obtain ⟨⟨ok, s₂⟩, hmap, hrun⟩ := hrun
    have hslotV : (pd, add32 sec.vAddr (i * pageSize) / 4096 / 1024) ∈ W := by
      rw [hv]
      exact hslot huser
    obtain ⟨⟨ok', t₂⟩, hmap', hok, h₂⟩ := h₁.mapPage hV (by rw [getPdeIndex_eq]; exact hslotV)
      ((p + i) * 4096) sec.flags _ hmap
    obtain rfl : ok' = ok := hok
    rw [hmap', ok_bind]
    cases ok' with
    | false => cases hrun
    | true =>
      simp only [Bool.not_true, Bool.false_eq_true, if_false] at hrun ⊢
      have hframe := frameOpen hV h.alike.tables hcur hslotV (hv ▸ huser) (Dvd.intro_left _ rfl) hlt
        hpresent hkmap hne hmap
      rw [bind_eq_ok] at hrun
      obtain ⟨frame, haccess, hrun⟩ := hrun
      have haccess' : accessAt cur vmmKmapVaddr t₂ = .ok frame := by
        unfold accessAt at haccess ⊢
        rw [h₂.getMapping_eq hV (kmap_mem hcur)]
        exact haccess
      obtain rfl := hframe.access haccess
      rw [haccess', ok_bind]
      have hhigh := highmem_le hzone
      have hentry : ∀ {u : Phys σ}, Phys.SameLow s₂ u → ∀ n < userPdes * 1024,
          entryAt u pd n = entryAt s pd n ∨
            ∃ q < i + 1, entryAt u pd n = some ((p + q) * 4096 ||| sec.flags) := by
        intro u hlow n hn
        rw [((h₂.tables.of_sameLow hlow).2 _ (hslot hn)).entryAt_eq, hframe.entry _ _ (hslot hn) hn]
        split
        · exact Or.inr ⟨i, Nat.lt_succ_self i, rfl⟩
        · rcases h.entry n hn with hsame | ⟨q, hq, hnew⟩
          · exact Or.inl hsame
          · exact Or.inr ⟨q, Nat.lt_succ_of_lt hq, hnew⟩
      -- the page is taken out of those that are not filled
      have hfill : ∀ {u u' : Phys σ}, Phys.SameLow s₂ u → u'.alloc = t₂.alloc →
          (∀ c, (t₂.zeroPage ((p + i) * 4096)).mem c = (s₂.zeroPage ((p + i) * 4096)).mem c →
            u'.mem c = u.mem c) →
          Alike V W L { q | q ∈ block p k ∧ p + (i + 1) ≤ q } u u' := by
        intro u u' hlow halloc hcell
        refine h₂.fill hlow halloc (fun q hq => ⟨hq.1, by have := hq.2; omega⟩) fun c hfree hE => ?_
        refine hcell c (Phys.zeroPage_congr fun hout => h₂.mem c hfree fun hE' => hE ⟨hE'.1, ?_⟩)
        have hge := hE'.2
        unfold pageSize at hout
        omega
      rw [h.stream]
      cases hstream : l.stream with
      | none =>
        rw [hstream] at hrun
        obtain ⟨-, rfl⟩ := Prod.mk.inj (Except.ok.inj hrun)
        have hlow := Phys.sameLow_zeroPage s₂ hhigh
        exact ⟨_, rfl, rfl, rfl, nofun, hfill hlow rfl fun c hc => hc, hentry hlow⟩
      | some stream =>
        rw [hstream] at hrun
        obtain ⟨n, stream', s₃, t₃, hread, hread', haddr, hlow, halloc, hcell⟩ :=
          @fakeRead_spec _ image sec stream vmmKmapVaddr pageSize
            (s₂.zeroPage ((p + i) * 4096)) (t₂.zeroPage ((p + i) * 4096)) _ hhigh
        dsimp only at hrun ⊢
        rw [hread] at hrun
        rw [hread']
        obtain ⟨hn, rfl⟩ := Prod.mk.inj (Except.ok.inj hrun)
        have hlow := (Phys.sameLow_zeroPage s₂ hhigh).trans hlow
        refine ⟨_, congrArg Except.ok (Prod.ext hn rfl), rfl, rfl, ?_, hfill hlow halloc hcell,
          hentry hlow⟩
        rintro _ ⟨⟩
        rw [haddr]
        exact h.addr stream hstream

/-- The stream of a section on both states. -/
theorem sectionCreateReader_follows (hK : K.Lawful V objs) {s₁ : Phys σ} {stream : Option IoStream}
    {sec : Section} (h : Alike (V.holding objs O) W L E s t)
    (hrun : sectionCreateReader K sec s = .ok (stream, s₁)) :
    ∃ t₁ O', sectionCreateReader K sec t = .ok (stream, t₁) ∧ s₁.mem = s.mem ∧
      (∀ st, stream = some st → st.addr ∈ O') ∧ Alike (V.holding objs O') W L E s₁ t₁ := by
  unfold sectionCreateReader at hrun ⊢
  split at hrun
  · next hdata =>
    obtain ⟨rfl, rfl⟩ := Prod.mk.inj (Except.ok.inj hrun)
    rw [if_pos hdata]
    exact ⟨t, O, rfl, rfl, nofun, h⟩
  · next hdata =>
    rw [if_neg hdata]
    rw [bind_eq_ok] at hrun
    obtain ⟨⟨addr, s₂⟩, hcall, hrun⟩ := hrun
    obtain ⟨⟨addr', t₂⟩, hcall', haddr, hmem, hnew⟩ := h.kmalloc hK _ _ _ hcall
    obtain rfl : addr' = addr := haddr
    rw [hcall', ok_bind]
    dsimp only at hrun hnew ⊢
    split at hrun
    · next hnull =>
      obtain ⟨rfl, rfl⟩ := Prod.mk.inj (Except.ok.inj hrun)
      rw [if_pos hnull] at hnew ⊢
      exact ⟨_, O, rfl, hmem, nofun, hnew⟩
    · next hne =>
      obtain ⟨rfl, rfl⟩ := Prod.mk.inj (Except.ok.inj hrun)
      rw [if_neg hne] at hnew ⊢
      refine ⟨_, _, rfl, hmem, ?_, hnew.2⟩
      rintro _ ⟨⟩
      exact Set.mem_insert _ _

/-- **`io_close`** on both states. -/
theorem ioClose_follows (hK : K.Lawful V objs) {stream : Option IoStream} {s₁ : Phys σ}
    (h : Alike (V.holding objs O) W L E s t) (haddr : ∀ st, stream = some st → st.addr ∈ O)
    (hrun : ioClose K stream s = .ok s₁) :
    ∃ t₁ O', ioClose K stream t = .ok t₁ ∧ s₁.mem = s.mem ∧
      Alike (V.holding objs O') W L E s₁ t₁ := by
  cases stream with
  | none =>
    obtain rfl := Except.ok.inj hrun
    exact ⟨t, O, rfl, rfl, h⟩
  | some stream =>
    obtain ⟨t₁, hrun', hmem, h₁⟩ := h.kfree hK (haddr stream rfl) _ hrun
    exact ⟨t₁, _, hrun', hmem, h₁⟩

/-- The part of `map_section` after the stream is there, up to its end. -/
def mapSectionPages (K : KernelAlloc σ) (image : KernelImage) (cur pd pool : ℕ) (toMap : Section)
    (stream : Option IoStream) (s : Phys σ) : Kern (Bool × Section × Phys σ) := do
  let (ok, l) ← whileOk (mapSectionPage K image cur pd pool toMap)
    (List.range' 0 (toMap.mappingSize / pageSize)) { window := 0, stream := stream, phys := s }
  if ok then do
    let s ← ioClose K l.stream l.phys
    let s ← vmmKunmap K.toPageAlloc cur s
    .ok (true, { toMap with pAddr := pool }, s)
  else do
    let s ← mapSectionBad K cur pool l
    .ok (false, toMap, s)

/-- `map_section` with its two ways to the loop. -/
theorem mapSection_eq (cur pd : ℕ) (sec : Section) (s : Phys σ) :
    mapSection K image cur pd sec s =
      (if sec.mappingSize = 0 then .ok (true, sec, s)
      else do
        let (pool, s) ← K.allocOn sec.mappingSize .highmem s
        if pool = 0 then .ok (false, sec, s)
        else if sec.dataStart ≠ 0 ∧ 0 < sec.dataSize then do
          let (stream, s) ← sectionCreateReader K sec s
          match stream with
          | none => do
            let s ← mapSectionBad K cur pool { window := 0, stream := none, phys := s }
            .ok (false, sec, s)
          | some stream => mapSectionPages K image cur pd pool sec (some stream) s
        else mapSectionPages K image cur pd pool sec none s) := by
  unfold mapSection
  split
  · rfl
  · cases K.allocOn sec.mappingSize .highmem s with
    | error e => rfl
    | ok res =>
      obtain ⟨pool, s⟩ := res
      simp only [ok_bind]
      split
      · rfl
      · by_cases hdata : sec.dataStart ≠ 0 ∧ 0 < sec.dataSize
        · have hdec := decide_eq_true hdata
          simp only [if_pos hdata, hdec, if_true, Bool.true_and]
          cases sectionCreateReader K sec s with
          | error e => rfl
          | ok res =>
            obtain ⟨stream, s⟩ := res
            cases stream with
            | none => rfl
            | some stream => rfl
        · have hdec := decide_eq_false hdata
          simp only [if_neg hdata, hdec, Bool.false_eq_true, if_false, Bool.false_and]
          rfl

/-- The pages of a section on both states. -/
theorem mapSectionPages_follows (hK : K.Lawful V objs) {cur pd p k : ℕ} {sec sec' : Section}
    {stream : Option IoStream} {s₁ t₁ : Phys σ}
    (h : Alike (V.holding objs O) W L (block p k) s₁ t₁)
    (haddr : ∀ st, stream = some st → st.addr ∈ O)
    (hentry : ∀ n < userPdes * 1024, entryAt s₁ pd n = entryAt s pd n)
    (hcur : (cur, 1023) ∈ W) (hpd : ∀ i < userPdes, (pd, i) ∈ W) (hstart : 4096 ∣ sec.vAddr)
    (hend : sec.vAddr + sec.mappingSize ≤ kernelVaddrBase) (hflags : sec.flags < 4096)
    (hpresent : flagIsSet sec.flags ptePresentBit = true)
    (hfits : sec.mappingSize / 4096 ≤ 2 ^ k) (hzone : ∀ q ∈ block p k, zoneOfPage q = .highmem)
    (htable : ∀ q ∈ block p k, q < maxPages)
    (hrun : mapSectionPages K image cur pd (p * 4096) sec stream s₁ = .ok (true, sec', s')) :
    ∃ t', mapSectionPages K image cur pd (p * 4096) sec stream t₁ = .ok (true, sec', t') ∧
      ∀ v < kernelVaddrBase, entryAt s' pd (v / 4096) ≠ entryAt s pd (v / 4096) →
        userRead t' pd v = userRead s' pd v := by
  have hin : ∀ {q}, q < sec.mappingSize / 4096 → p + q ∈ block p k := by
    intro q hq
    rw [mem_block]
    omega
  have hturn : ∀ i (l l' b : MapLoop σ), 0 ≤ i → i < 0 + sec.mappingSize / pageSize →
      Filling (V.holding objs O) O W L pd p k sec.flags s i l l' →
      mapSectionPage K image cur pd (p * 4096) sec l i = .ok (true, b) →
      ∃ b', mapSectionPage K image cur pd (p * 4096) sec l' i = .ok (true, b') ∧
        Filling (V.holding objs O) O W L pd p k sec.flags s (i + 1) b b' := by
    intro i l l' b _ hi hI hrun
    have hi : i < sec.mappingSize / 4096 := by
      unfold pageSize at hi
      omega
    exact hI.turn (hK.pages O) hcur hpd hstart (by omega) hpresent (hzone _ (hin hi))
      (htable _ (hin hi)) hrun
  unfold mapSectionPages at hrun ⊢
  rw [bind_eq_ok] at hrun
  obtain ⟨⟨ok, l⟩, hloop, hrun⟩ := hrun
  dsimp only at hrun
  split at hrun
  · next hok =>
    subst hok
    have hinit : Filling (V.holding objs O) O W L pd p k sec.flags s 0
        { window := 0, stream := stream, phys := s₁ } { window := 0, stream := stream, phys := t₁ } := by
      refine ⟨rfl, rfl, haddr, ?_, fun n hn => Or.inl (hentry n hn)⟩
      have hblock : { q | q ∈ block p k ∧ p + 0 ≤ q } = block p k := by
        ext q
        refine ⟨fun hq => hq.1, fun hq => ⟨hq, ?_⟩⟩
        rw [mem_block] at hq
        omega
      rw [hblock]
      exact h
    obtain ⟨l', hloop', hfilled⟩ := whileOk_follows hturn hinit hloop
    rw [hloop', ok_bind]
    dsimp only
    rw [if_pos rfl]
    rw [bind_eq_ok] at hrun
    obtain ⟨s₂, hclose, hrun⟩ := hrun
    obtain ⟨t₂, O', hclose', hmem, h₂⟩ := ioClose_follows hK hfilled.alike hfilled.addr hclose
    rw [bind_eq_ok] at hrun
    obtain ⟨s₃, hkunmap, hrun⟩ := hrun
    obtain ⟨t₃, hkunmap', h₃⟩ := h₂.kunmap (hK.pages O') hcur _ hkunmap
    obtain ⟨-, rfl, rfl⟩ := ok_triple_inj hrun
    rw [hfilled.stream, hclose', ok_bind, hkunmap', ok_bind]
    refine ⟨t₃, rfl, fun v hv hnew => ?_⟩
    have hn : v / 4096 < userPdes * 1024 := page_lt hv
    have hw : (pd, v / 4096 / 1024) ∈ W := hpd _ (by omega)
    -- the entry is that of a filled page
    have hkeep : entryAt s₃ pd (v / 4096) = entryAt l.phys pd (v / 4096) := by
      rw [(h₂.tables.kunmap_slots (hK.pages O') hcur hkunmap _ hw (user_ne_window hn)).entryAt_eq,
        entryAt_congr hmem]
    rw [hkeep] at hnew
    obtain ⟨q, hq, hentry⟩ := (hfilled.entry _ hn).resolve_left hnew
    have hq : q < sec.mappingSize / 4096 := by
      unfold pageSize at hq
      omega
    have hpq := htable _ (hin hq)
    have hframe : getEntryAddr ((p + q) * 4096 ||| sec.flags) = (p + q) * 4096 :=
      (vmmMapPage_entry (Dvd.intro_left _ rfl) (frame_lt hpq) hflags).1
    have hcell : (getEntryAddr ((p + q) * 4096 ||| sec.flags) + v % 4096) / 4096 = p + q := by
      rw [hframe]
      omega
    refine userRead_congr (h₃.walk_eq (hK.pages O') hw) (hkeep.trans hentry) (h₃.mem _ ?_ ?_)
    · rw [hcell]
      obtain ⟨b, hb, hpage⟩ := h.blocks _ (hin hq)
      have hlive : b ∈ (V.holding objs O').live s₃.alloc := by
        rw [h₃.tables.live]
        exact Or.inl hb
      exact Set.disjoint_left.mp ((hK.pages O').notFree h₃.tables.inv hlive) hpage
    · rw [hcell]
      intro hE
      have hE := hE.2
      unfold pageSize at hE
      omega
  · rw [bind_eq_ok] at hrun
    obtain ⟨s₂, -, hrun⟩ := hrun
    cases (Prod.mk.inj (Except.ok.inj hrun)).1

/-- **`map_section`**: user code reads the same in the new pages. -/
theorem mapSection_follows {Large Spent : σ → ℕ → Prop} (hK : K.Contract V objs Large Spent)
    {cur pd : ℕ} {sec sec' : Section} (h : Alike (V.holding objs O) W L ∅ s t)
    (hready : (PageGift.mapSection cur pd sec).Ready W s)
    (hrun : mapSection K image cur pd sec s = .ok (true, sec', s')) :
    ∃ t', mapSection K image cur pd sec t = .ok (true, sec', t') ∧
      ∀ v < kernelVaddrBase, entryAt s' pd (v / 4096) ≠ entryAt s pd (v / 4096) →
        userRead t' pd v = userRead s' pd v := by
  obtain ⟨hcur, hpd, hstart, hsize, hend, hflags, hpresent⟩ := hready
  rw [mapSection_eq] at hrun ⊢
  split at hrun
  · next hzero =>
    -- there is nothing to map
    rw [if_pos hzero]
    obtain ⟨-, rfl, rfl⟩ := ok_triple_inj hrun
    exact ⟨_, rfl, fun v _ hne => absurd rfl hne⟩
  · next hpos =>
    rw [if_neg hpos]
    rw [bind_eq_ok] at hrun
    obtain ⟨⟨pool, s₁⟩, halloc, hrun⟩ := hrun
    obtain ⟨⟨pool', t₁⟩, halloc', hpool, hblock⟩ := h.allocOn (hK.pages O) _ _ _ halloc
    obtain rfl : pool' = pool := hpool
    rw [halloc', ok_bind]
    dsimp only at hrun hblock ⊢
    split at hrun
    · cases (Prod.mk.inj (Except.ok.inj hrun)).1
    · next hne =>
      rw [if_neg hne]
      obtain ⟨p, rfl, hnew, h₁⟩ := hblock hne
      rw [Set.empty_union] at h₁
      have horder := hK.order_lt h.tables.inv.1 (PageAlloc.allocOn_ok halloc).1 hne
      have hfits : sec.mappingSize / 4096 ≤ 2 ^ sizeToOrder sec.mappingSize := by
        unfold kernelVaddrBase at hend
        exact sizeToOrder_pages horder hsize (by omega)
      split at hrun
      · next hdata =>
        rw [if_pos hdata]
        rw [bind_eq_ok] at hrun
        obtain ⟨⟨stream, s₂⟩, hreader, hrun⟩ := hrun
        obtain ⟨t₂, O', hreader', hmem, haddr, h₂⟩ :=
          sectionCreateReader_follows hK.toLawful h₁ hreader
        rw [hreader', ok_bind]
        dsimp only at hrun ⊢
        cases stream with
        | none =>
          obtain ⟨s₃, -, hrun⟩ := bind_eq_ok.mp hrun
          cases (Prod.mk.inj (Except.ok.inj hrun)).1
        | some stream =>
          exact mapSectionPages_follows hK.toLawful h₂ haddr
            (fun n _ => entryAt_congr (hmem.trans hnew.mem) pd n) hcur hpd hstart hend hflags
            hpresent hfits hnew.zone hnew.inTable hrun
      · next hdata =>
        rw [if_neg hdata]
        exact mapSectionPages_follows hK.toLawful h₁ nofun
          (fun n _ => entryAt_congr hnew.mem pd n) hcur hpd hstart hend hflags hpresent hfits
          hnew.zone hnew.inTable hrun

/-! ## The copy of `fork` -/

/-- The number of the page that entry `j` of table `i` maps. -/
theorem forkVaddr_eq {i j : ℕ} (hj : j < 1024) :
    ((i <<< 22) ||| (j <<< 12)) / 4096 = i * 1024 + j ∧ 4096 ∣ ((i <<< 22) ||| (j <<< 12)) := by
  have hsum : (i <<< 22) ||| (j <<< 12) = (i * 1024 + j) * 4096 := by
    have hlt : j <<< 12 < 2 ^ 22 := by
      rw [Nat.shiftLeft_eq]
      omega
    rw [← Nat.shiftLeft_add_eq_or_of_lt hlt, Nat.shiftLeft_eq, Nat.shiftLeft_eq]
    omega
  rw [hsum]
  exact ⟨by omega, Dvd.intro_left _ rfl⟩

/-- What a copy of a page has done to both states: `e` is the entry of the page. -/
structure Copied (W : Set (ℕ × ℕ)) (new n e page : ℕ) (s s' t t' : Phys σ) : Prop where
  walk : ∀ m, (new, m / 1024) ∈ W → Memory.walk t'.mem new m = Memory.walk s'.mem new m
  entry : ∀ m < userPdes * 1024, entryAt s' new m =
    if m = n then some (page ||| getEntryFlags e) else entryAt s new m
  dvd : 4096 ∣ page
  lt : page < 2 ^ 32
  copied : ∀ off < 4096, s'.mem (page + off) = s.mem (getEntryAddr e + off) ∧
    t'.mem (page + off) = t.mem (getEntryAddr e + off)

/-- The word of a present entry. -/
theorem pte_word {w : ℕ × ℕ} {j e : ℕ} (h : pte s w j = some e) :
    slotPresent s w = true ∧ s.mem (tableOf s w + 4 * j) = e ∧ flagIsSet e ptePresentBit = true := by
  unfold pte at h
  split at h
  · next hc =>
    obtain rfl := Option.some.inj h
    obtain ⟨hpres, hset⟩ := Bool.and_eq_true _ _ ▸ hc
    exact ⟨hpres, rfl, hset⟩
  · cases h

/-- The window does not touch the tables of user pages. -/
theorem kmap_word {A : PageAlloc σ} (hA : A.Lawful V) (h : PageTables V W L s)
    {cur p window i j e : ℕ} (hcur : (cur, 1023) ∈ W) (hslot : (cur, i) ∈ W) (hi : i < userPdes)
    (hj : j < 1024) (hkmap : vmmKmap A cur p s = .ok (window, s')) (hne : window ≠ 0)
    (he : pte s (cur, i) j = some e) :
    slotPresent s' (cur, i) = true ∧ tableOf s' (cur, i) = tableOf s (cur, i) ∧
      s'.mem (tableOf s (cur, i) + 4 * j) = e := by
  obtain ⟨-, -, hsame, -⟩ := h.kmap_slots hA hcur hkmap hne
  have hother : (cur, i) ≠ (cur, 1023) := by
    intro heq
    have hidx := (Prod.mk.inj heq).2
    unfold userPdes at hi
    omega
  have hsame := hsame _ hslot hother
  have htable := hsame.table (pte_word he).1
  obtain ⟨hpres, hword, -⟩ := pte_word ((hsame.entry j hj).trans he)
  rw [htable] at hword
  exact ⟨hpres, htable, hword⟩

/-- An entry that is present is copied as a present one. -/
theorem getEntryFlags_present {e : ℕ} (h : flagIsSet e ptePresentBit = true) :
    flagIsSet (getEntryFlags e) ptePresentBit = true := by
  unfold flagIsSet getEntryFlags at *
  rw [Nat.and_assoc, show 0xFFF &&& ptePresentBit = ptePresentBit by decide]
  exact h

/-- **The page copy of `fork`** on both states. -/
theorem forkPage_follows (hK : K.Lawful V objs) {current new currentPt i j e : ℕ}
    (h : Alike (V.holding objs O) W L ∅ s t)
    (hready : (PageGift.forkPage current new currentPt i j).Ready W s)
    (he : pte s (current, i) j = some e)
    (hrun : forkPage K current new currentPt i s j = .ok (true, s')) :
    ∃ page t', forkPage K current new currentPt i t j = .ok (true, t') ∧
      Copied W new (i * 1024 + j) e page s s' t t' := by
  obtain ⟨hcur, hslot, hnew, hne, hi, hj, hpres, rfl, hhigh⟩ := hready
  have hA := hK.pages O
  have hhigh := hhigh e he
  obtain ⟨hvaddr, hvdvd⟩ := forkVaddr_eq (i := i) hj
  obtain ⟨-, hword, hset⟩ := pte_word he
  have hpresent := getEntryFlags_present hset
  have huser : i * 1024 + j < userPdes * 1024 := by omega
  have hidx : (i * 1024 + j) / 1024 = i ∧ (i * 1024 + j) % 1024 = j := by omega
  unfold forkPage at hrun ⊢
  rw [hword, if_pos hset] at hrun
  rw [h.entry hA hslot hpres hj, hword, if_pos hset]
  generalize (i <<< 22) ||| (j <<< 12) = vaddr at hvaddr hvdvd hrun ⊢
  -- the new page
  rw [bind_eq_ok] at hrun
  obtain ⟨⟨page, s₁⟩, halloc, hrun⟩ := hrun
  obtain ⟨⟨page', t₁⟩, halloc', hpage, hblock⟩ := h.allocOn hA _ _ _ halloc
  obtain rfl : page' = page := hpage
  rw [halloc', ok_bind]
  dsimp only at hrun hblock ⊢
  split at hrun
  · cases (Prod.mk.inj (Except.ok.inj hrun)).1
  · next hpne =>
    rw [if_neg hpne]
    obtain ⟨p, rfl, hblk, h₁⟩ := hblock hpne
    rw [sizeToOrder_pageSize] at h₁ hblk
    rw [block_zero, Set.empty_union] at h₁
    have hlt : p * 4096 < 2 ^ 32 := frame_lt (hblk.inTable p (self_mem_block p 0))
    -- the window
    rw [bind_eq_ok] at hrun
    obtain ⟨⟨window, s₂⟩, hkmap, hrun⟩ := hrun
    obtain ⟨⟨window', t₂⟩, hkmap', hwindow, h₂⟩ := h₁.kmap hA hcur _ _ hkmap
    obtain rfl : window' = window := hwindow
    rw [hkmap', ok_bind]
    dsimp only at hrun h₂ ⊢
    split at hrun
    · obtain ⟨s₃, -, hrun⟩ := bind_eq_ok.mp hrun
      cases (Prod.mk.inj (Except.ok.inj hrun)).1
    · next hwne =>
      rw [if_neg hwne]
      have he₁ : pte s₁ (current, i) j = some e := ((SameSlot.of_mem hblk.mem _).entry j hj).trans he
      obtain ⟨hpres₂, htable, hword₂⟩ := kmap_word hA h₁.tables hcur hslot hi hj hkmap hwne he₁
      have hword₂' := (h₂.entry hA hslot hpres₂ hj).trans (by rw [htable, hword₂])
      rw [htable, tableOf_congr hblk.mem] at hword₂'
      rw [tableOf_congr hblk.mem] at hword₂
      rw [hword₂] at hrun
      rw [hword₂']
      obtain ⟨rfl, -, -⟩ := h₁.tables.kmap_slots hA hcur hkmap hwne
      -- the page of the child
      have hnewV : (new, getPdeIndex vaddr) ∈ W := by
        rw [getPdeIndex_eq, hvaddr]
        exact hnew _ (by omega)
      rw [bind_eq_ok] at hrun
      obtain ⟨⟨ok, s₃⟩, hmap, hrun⟩ := hrun
      obtain ⟨⟨ok', t₃⟩, hmap', hok, h₃⟩ := h₂.mapPage hA hnewV _ _ _ hmap
      obtain rfl : ok' = ok := hok
      rw [hmap', ok_bind]
      cases ok' with
      | false =>
        obtain ⟨s₄, -, hrun⟩ := bind_eq_ok.mp hrun
        obtain ⟨s₅, -, hrun⟩ := bind_eq_ok.mp hrun
        cases (Prod.mk.inj (Except.ok.inj hrun)).1
      | true =>
        simp only [Bool.not_true, Bool.false_eq_true, if_false] at hrun ⊢
        have hnewV' := hnewV
        rw [getPdeIndex_eq] at hnewV'
        have hopen := frameOpen hA h₁.tables hcur hnewV' (hvaddr ▸ huser) (Dvd.intro_left _ rfl) hlt
          hpresent hkmap hwne hmap
        have hopen' := frameOpen hA (h₁.right hA).1 hcur hnewV' (hvaddr ▸ huser)
          (Dvd.intro_left _ rfl) hlt hpresent hkmap' hwne hmap'
        rw [hvaddr] at hopen
        -- where the two accesses go
        have hsrcW : (current, vaddr / 4096 / 1024) ∈ W := by
          rw [hvaddr, hidx.1]
          exact hslot
        have haccess : ∀ {v}, (current, getPdeIndex v) ∈ W →
            accessAt current v t₃ = accessAt current v s₃ := by
          intro v hw
          unfold accessAt
          rw [h₃.getMapping_eq hA hw]
        rw [haccess (kmap_mem hcur), haccess (by rw [getPdeIndex_eq]; exact hsrcW)]
        rw [bind_eq_ok] at hrun
        obtain ⟨dst, hdst, hrun⟩ := hrun
        obtain rfl := hopen.access hdst
        rw [bind_eq_ok] at hrun
        obtain ⟨src, hsrc, hrun⟩ := hrun
        have hentry : entryAt s₃ current (vaddr / 4096) = some e := by
          rw [hopen.entry _ _ hsrcW (hvaddr ▸ huser), if_neg fun hc => hne hc.1]
          unfold entryAt
          rw [hvaddr, hidx.1, hidx.2, he₁]
        obtain rfl := accessAt_frame h₃.tables hsrcW hentry hvdvd hsrc
        rw [hdst, hsrc, ok_bind, ok_bind]
        -- the copy
        have hphigh := highmem_le (hblk.zone p (self_mem_block p 0))
        obtain ⟨h₄, hcopied⟩ := @Alike.copyPage _ _ _ _ _ _ _ (getEntryAddr e) h₃ hphigh
        rw [bind_eq_ok] at hrun
        obtain ⟨s₄, hkunmap, hrun⟩ := hrun
        obtain ⟨-, rfl⟩ := Prod.mk.inj (Except.ok.inj hrun)
        obtain ⟨t₄, hkunmap', h₅⟩ := h₄.kunmap hA hcur _ hkunmap
        rw [hkunmap', ok_bind]
        refine ⟨p * 4096, t₄, rfl, {
          walk := fun m hw => h₅.walk_eq hA hw
          entry := fun m hm => ?_
          dvd := Dvd.intro_left _ rfl
          lt := hlt
          copied := fun off hoff => ⟨?_, ?_⟩ }⟩
        · have hw : (new, m / 1024) ∈ W := hnew _ (by omega)
          have hsame := (h₃.tables.of_sameLow
            (Phys.sameLow_memcpy s₃ (getEntryAddr e) pageSize hphigh)).2 _ hw
          rw [(h₄.tables.kunmap_slots hA hcur hkunmap _ hw (user_ne_window hm)).entryAt_eq,
            hsame.entryAt_eq, hopen.entry _ _ hw hm, entryAt_congr hblk.mem]
          exact if_congr (and_iff_right rfl) rfl rfl
        · calc s₄.mem (p * 4096 + off)
            _ = _ := h₄.tables.kunmap_high hcur hkunmap (hphigh.trans (Nat.le_add_right _ _))
            _ = s₃.mem (getEntryAddr e + off) := (hcopied off hoff).1
            _ = s₁.mem (getEntryAddr e + off) := hopen.high _ (hhigh.trans (Nat.le_add_right _ _))
            _ = s.mem (getEntryAddr e + off) := by rw [hblk.mem]
        · calc t₄.mem (p * 4096 + off)
            _ = _ := (h₄.right hA).1.kunmap_high hcur hkunmap' (hphigh.trans (Nat.le_add_right _ _))
            _ = t₃.mem (getEntryAddr e + off) := (hcopied off hoff).2
            _ = t₁.mem (getEntryAddr e + off) := hopen'.high _ (hhigh.trans (Nat.le_add_right _ _))
            _ = t.mem (getEntryAddr e + off) := by rw [(PageAlloc.allocOn_ok halloc').2]

/-! ## Areas -/

/-- A frame that has been handed out for a page of a task: it was free. -/
structure FreshFrame (V : PageAlloc.View σ) (s : Phys σ) (f : ℕ) : Prop where
  dvd : 4096 ∣ f
  lt : f < 2 ^ 32
  high : highmemStart ≤ f
  free : f / 4096 ∈ V.free s.alloc

/-- **The first loop of `vma_map_area`** on both states. -/
theorem allocFrames_follows (hA : K.toPageAlloc.Lawful V) (nr k : ℕ) :
    ∀ {L : Set (ℕ × ℕ)} {E : Set ℕ} {s t s' : Phys σ} {frames frames' : List ℕ},
    Alike V W L E s t → k ≤ nr → frames.length = nr →
    allocFrames K.vmaEnv nr k frames s = .ok (true, frames', s') →
    ∃ t' L' E', allocFrames K.vmaEnv nr k frames t = .ok (true, frames', t') ∧
      Alike V W L' E' s' t' ∧ s'.mem = s.mem ∧ t'.mem = t.mem ∧
      (∀ i < nr - k, frames'.getD i 0 = frames.getD i 0) ∧
      ∀ i < nr, nr - k ≤ i → FreshFrame V s (frames'.getD i 0) := by
  induction k with
  | zero =>
    intro L E s t s' frames frames' h _ _ hrun
    obtain ⟨-, rfl, rfl⟩ := ok_triple_inj hrun
    exact ⟨t, L, E, rfl, h, rfl, rfl, fun i _ => rfl, fun i hi hle => by omega⟩
  | succ k ih =>
    intro L E s t s' frames frames' h hk hlen hrun
    rw [allocFrames] at hrun ⊢
    rw [bind_eq_ok] at hrun
    obtain ⟨⟨page, s₁⟩, halloc, hrun⟩ := hrun
    have halloc : K.allocOn pageSize .highmem s = .ok (page, s₁) := halloc
    obtain ⟨⟨page', t₁⟩, halloc', hpage, hblock⟩ := h.allocOn hA _ _ _ halloc
    obtain rfl : page' = page := hpage
    rw [show K.vmaEnv.buddyAllocPages pageSize .highmem t = .ok (page', t₁) from halloc', ok_bind]
    dsimp only at hrun hblock ⊢
    split at hrun
    · cases (Prod.mk.inj (Except.ok.inj hrun)).1
    · next hne =>
      rw [if_neg hne]
      obtain ⟨p, rfl, hnew, h₁⟩ := hblock hne
      rw [sizeToOrder_pageSize] at hnew
      obtain ⟨t', L', E', hrun', h', hmem, hmem', hkeep, hfresh⟩ :=
        ih h₁ (by omega) (by rw [List.length_set]; exact hlen) hrun
      have hself : p ∈ block p 0 := self_mem_block p 0
      have hframe : FreshFrame V s (p * 4096) := by
        refine ⟨Dvd.intro_left _ rfl, frame_lt (hnew.inTable p hself), highmem_le (hnew.zone p hself), ?_⟩
        rw [Nat.mul_div_cancel p (by norm_num)]
        exact hnew.subset hself
      refine ⟨t', L', E', hrun', h', hmem.trans hnew.mem,
        hmem'.trans (PageAlloc.allocOn_ok halloc').2, fun i hi => ?_, fun i hi hle => ?_⟩
      · have hi' : nr - (k + 1) ≠ i := by omega
        rw [hkeep i (by omega), List.getD_eq_getElem?_getD, List.getElem?_set_ne hi',
          ← List.getD_eq_getElem?_getD]
      · by_cases hturn : i = nr - (k + 1)
        · rw [hkeep i (by omega), hturn, List.getD_eq_getElem?_getD,
            List.getElem?_set_self (by omega)]
          exact hframe
        · have hf := hfresh i hi (by omega)
          exact ⟨hf.dvd, hf.lt, hf.high, hA.free_subset h.tables.inv halloc hf.free⟩

/-- **The second loop of `vma_map_area`** on both states. -/
theorem mapFrames_follows (hA : K.toPageAlloc.Lawful V) {pd start flags : ℕ} {frames : List ℕ}
    {nr : ℕ} (hstart : 4096 ∣ start) (hend : start + nr * 4096 ≤ kernelVaddrBase)
    (hpd : ∀ i < userPdes, (pd, i) ∈ W) (k : ℕ) : ∀ {s t : Phys σ} {ok : Bool}, Alike V W L E s t →
    k ≤ nr → mapFrames K.vmaEnv pd start flags frames nr k s = .ok (ok, s') →
    ∃ t', mapFrames K.vmaEnv pd start flags frames nr k t = .ok (ok, t') ∧ Alike V W L E s' t' ∧
      ∀ a, highmemStart ≤ a → s'.mem a = s.mem a ∧ t'.mem a = t.mem a := by
  induction k with
  | zero =>
    intro s t ok h _ hrun
    obtain ⟨rfl, rfl⟩ := Prod.mk.inj (Except.ok.inj hrun)
    exact ⟨t, rfl, h, fun a _ => ⟨rfl, rfl⟩⟩
  | succ k ih =>
    intro s t ok h hk hrun
    have hbase : kernelVaddrBase ≤ 2 ^ 32 := by decide
    have hw : (pd, getPdeIndex (add32 start ((nr - (k + 1)) * pageSize))) ∈ W := by
      apply hpd
      rw [getPdeIndex_eq, area_page hstart (by omega) hbase]
      unfold kernelVaddrBase at hend
      unfold userPdes
      omega
    rw [mapFrames] at hrun ⊢
    dsimp only at hrun ⊢
    rw [bind_eq_ok] at hrun
    obtain ⟨⟨ok₁, s₁⟩, hmap, hrun⟩ := hrun
    have hmap : vmmMapPage K.toPageAlloc pd _ _ flags s = .ok (ok₁, s₁) := hmap
    obtain ⟨⟨ok₂, t₁⟩, hmap', hok, h₁⟩ := h.mapPage hA hw _ _ _ hmap
    obtain rfl : ok₂ = ok₁ := hok
    have hhigh : ∀ a, highmemStart ≤ a → s₁.mem a = s.mem a ∧ t₁.mem a = t.mem a := fun a ha =>
      ⟨h.tables.mapPage_high hA hw hmap ha, (h.right hA).1.mapPage_high hA hw hmap' ha⟩
    rw [show K.vmaEnv.vmmMapPage = vmmMapPage K.toPageAlloc from rfl, hmap', ok_bind]
    cases ok₂ with
    | false =>
      obtain ⟨rfl, rfl⟩ := Prod.mk.inj (Except.ok.inj hrun)
      exact ⟨t₁, rfl, h₁, hhigh⟩
    | true =>
      obtain ⟨t', hrun', h', hhigh'⟩ := ih h₁ (by omega) hrun
      exact ⟨t', hrun', h', fun a ha => ⟨(hhigh' a ha).1.trans (hhigh a ha).1,
        (hhigh' a ha).2.trans (hhigh a ha).2⟩⟩

/-- **`vma_map_area`** on both states: the new pages hold what the free frames held. -/
theorem vmaMapArea_follows (hA : K.toPageAlloc.Lawful V) {pd : ℕ} {a a' : VmArea}
    (h : Alike V W L ∅ s t) (hready : (PageGift.vmaMapArea pd a).Ready W s)
    (hrun : vmaMapArea K.vmaEnv a pd s = .ok (true, a', s')) :
    ∃ t', vmaMapArea K.vmaEnv a pd t = .ok (true, a', t') ∧
      (∀ m, (pd, m / 1024) ∈ W → walk t'.mem pd m = walk s'.mem pd m) ∧
      ∀ m < userPdes * 1024, entryAt s' pd m ≠ entryAt s pd m → ∃ f, FreshFrame V s f ∧
        entryAt s' pd m = some (f ||| a.pteFlags) ∧
        ∀ off < 4096, s'.mem (f + off) = s.mem (f + off) ∧ t'.mem (f + off) = t.mem (f + off) := by
  obtain ⟨hpd, ⟨addr, hpages⟩, hstart, hend, hflags, hpresent⟩ := hready
  unfold vmaMapArea at hrun ⊢
  rw [hpages] at hrun ⊢
  dsimp only at hrun ⊢
  rw [bind_eq_ok] at hrun
  obtain ⟨⟨ok, frames, s₁⟩, halloc, hrun⟩ := hrun
  cases ok with
  | false => cases (Prod.mk.inj (Except.ok.inj hrun)).1
  | true =>
    obtain ⟨t₁, L', E', halloc', h₁, hmem, hmem', -, hfresh⟩ :=
      allocFrames_follows hA a.nrPages a.nrPages h le_rfl (List.length_replicate ..) halloc
    simp only [Bool.not_true, Bool.false_eq_true, if_false] at hrun
    rw [halloc', ok_bind]
    simp only [Bool.not_true, Bool.false_eq_true, if_false]
    rw [bind_eq_ok] at hrun
    obtain ⟨⟨ok, s₂⟩, hmap, hrun⟩ := hrun
    obtain ⟨rfl, rfl, rfl⟩ := ok_triple_inj hrun
    obtain ⟨t₂, hmap', h₂, hhigh⟩ := mapFrames_follows hA hstart hend hpd a.nrPages h₁ le_rfl hmap
    rw [hmap', ok_bind]
    refine ⟨t₂, rfl, fun m hw => h₂.walk_eq hA hw, fun m hm hnew => ?_⟩
    have hw : (pd, m / 1024) ∈ W := hpd _ (by omega)
    rw [← Nat.zero_add a.nrPages] at hend
    have hmap₀ : mapFrames K.vmaEnv pd a.startVaddr a.pteFlags frames (0 + a.nrPages) a.nrPages s₁ =
        .ok (true, s₂) := by
      rw [Nat.zero_add]
      exact hmap
    obtain ⟨-, n, hn, -, hentry⟩ := h₁.tables.mapFrames_spec hA hpresent hpd a.nrPages 0 hend hmap₀
    rw [hentry pd m hw, entryAt_congr hmem] at hnew
    rw [hentry pd m hw]
    split at hnew
    · next hin =>
      rw [if_pos hin]
      have hframe := hfresh (m - a.startVaddr / 4096) (by omega) (by omega)
      refine ⟨_, hframe, rfl, fun off _ => ?_⟩
      obtain ⟨hs, ht⟩ := hhigh _ (hframe.high.trans (Nat.le_add_right _ off))
      rw [hs, ht, hmem, hmem']
      exact ⟨rfl, rfl⟩
    · exact absurd rfl hnew

/-! ## All three operations -/

/-- A new page whose byte at `v` is what a free frame holds at `c`. -/
theorem not_noStaleData {op : PageGift} {v c : ℕ} (hv : v < kernelVaddrBase)
    (hnew : entryAt s' op.pd (v / 4096) ≠ entryAt s op.pd (v / 4096))
    (hfree : c / 4096 ∈ V.free s.alloc)
    (hstale : ∀ t t', SameButFree V s t → op.run K image t = .ok (true, t') →
      userRead t' op.pd v = some (t.mem c)) : ¬ NoStaleData K image V op s s' := by
  intro h
  have hread : ∀ t, SameButFree V s t → some (t.mem c) = userRead s' op.pd v := by
    intro t ht
    obtain ⟨t', hrun, hsame⟩ := h t ht
    rw [← hstale t t' ht hrun]
    exact hsame v hv hnew
  have hself : SameButFree V s s := ⟨rfl, fun _ _ => rfl⟩
  -- another byte in the free frame
  have hother : SameButFree V s (s.write c (s.mem c + 1)) := by
    refine ⟨rfl, fun a ha => if_neg ?_⟩
    rintro rfl
    exact ha hfree
  have heq := (hread _ hself).trans (hread _ hother).symm
  rw [Phys.write_mem, if_pos rfl] at heq
  have := Option.some.inj heq
  omega

/-- The flags of an entry are flags. -/
theorem getEntryFlags_lt (e : ℕ) : getEntryFlags e < 4096 :=
  Nat.and_lt_two_pow _ (by norm_num : (0xFFF : ℕ) < 2 ^ 12)

/-- The page of a byte in a frame. -/
theorem frameByte_page (e v : ℕ) : (getEntryAddr e + v % 4096) / 4096 = getEntryAddr e / 4096 := by
  have := getEntryAddr_dvd e
  omega

/-- **`map_section`** leaves no stale data. -/
theorem noStaleData_mapSection {Large Spent : σ → ℕ → Prop} (hK : K.Contract V objs Large Spent)
    (htables : PageTables (V.holding objs O) W L s) {cur pd : ℕ} {sec : Section}
    (hready : (PageGift.mapSection cur pd sec).Ready W s)
    (hrun : (PageGift.mapSection cur pd sec).run K image s = .ok (true, s')) :
    NoStaleData K image V (.mapSection cur pd sec) s s' := by
  intro t ht
  obtain ⟨⟨ok, sec', s₁⟩, hcall, hret⟩ := bind_eq_ok.mp hrun
  obtain ⟨rfl, rfl⟩ := Prod.mk.inj (Except.ok.inj hret)
  obtain ⟨t', hcall', hsame⟩ := mapSection_follows hK (ht.alike htables) hready hcall
  refine ⟨t', ?_, hsame⟩
  show (mapSection K image cur pd sec t >>= fun r => .ok (r.1, r.2.2)) = .ok (true, t')
  rw [hcall', ok_bind]

/-- The entry of a page that **`fork`** has copied. -/
theorem forkPage_entry {current new i j v : ℕ} (hpres : slotPresent s (current, i) = true)
    (hrun : forkPage K current new (tableOf s (current, i)) i s j = .ok (true, s'))
    (hnew : entryAt s' new (v / 4096) ≠ entryAt s new (v / 4096)) :
    pte s (current, i) j = some (s.mem (tableOf s (current, i) + 4 * j)) := by
  unfold forkPage at hrun
  split at hrun
  · next hset =>
    unfold pte
    rw [hpres, Bool.true_and, if_pos hset]
  · obtain ⟨-, rfl⟩ := Prod.mk.inj (Except.ok.inj hrun)
    exact absurd rfl hnew

/-- What user code reads in the copy: the bytes of the frame in the entry `e`. -/
theorem forkPage_reads (hK : K.Lawful V objs) (htables : PageTables (V.holding objs O) W L s)
    {current new currentPt i j e : ℕ}
    (hready : (PageGift.forkPage current new currentPt i j).Ready W s)
    (he : pte s (current, i) j = some e)
    (hrun : forkPage K current new currentPt i s j = .ok (true, s')) (ht : SameButFree V s t) :
    ∃ t', forkPage K current new currentPt i t j = .ok (true, t') ∧
      ∀ v < kernelVaddrBase, entryAt s' new (v / 4096) ≠ entryAt s new (v / 4096) →
        (userRead s' new v ≠ none →
          userRead t' new v = some (t.mem (getEntryAddr e + v % 4096))) ∧
        (t.mem (getEntryAddr e + v % 4096) = s.mem (getEntryAddr e + v % 4096) →
          userRead t' new v = userRead s' new v) := by
  obtain ⟨page, t', hrun', hcopied⟩ := forkPage_follows hK (ht.alike htables) hready he hrun
  refine ⟨t', hrun', fun v hv hnew => ?_⟩
  have hm : v / 4096 < userPdes * 1024 := page_lt hv
  have hwalk := hcopied.walk _ (hready.2.2.1 (v / 4096 / 1024) (by omega))
  have hpage := (vmmMapPage_entry hcopied.dvd hcopied.lt (getEntryFlags_lt e)).1
  obtain ⟨hmem, hmem'⟩ := hcopied.copied _ (Nat.mod_lt v (by norm_num))
  have hentry := hcopied.entry _ hm
  split at hentry
  · constructor
    · intro hread
      rw [userRead_eq hwalk hentry hread, hpage, hmem']
    · intro hsame
      apply userRead_congr hwalk hentry
      rw [hpage, hmem, hmem', hsame]
  · exact absurd hentry hnew

/-- **The copy of `fork`** leaves no stale data exactly if the page that it copies is not free. -/
theorem noStaleData_forkPage_iff (hK : K.Lawful V objs)
    (htables : PageTables (V.holding objs O) W L s) {current new currentPt i j v : ℕ}
    (hready : (PageGift.forkPage current new currentPt i j).Ready W s)
    (hrun : forkPage K current new currentPt i s j = .ok (true, s')) (hv : v < kernelVaddrBase)
    (hnew : entryAt s' new (v / 4096) ≠ entryAt s new (v / 4096))
    (hread : userRead s' new v ≠ none) :
    NoStaleData K image V (.forkPage current new currentPt i j) s s' ↔
      getEntryAddr (s.mem (currentPt + 4 * j)) / 4096 ∉ V.free s.alloc := by
  obtain ⟨-, -, -, -, -, -, hpres, rfl, -⟩ := id hready
  have he := forkPage_entry hpres hrun hnew
  generalize s.mem (tableOf s (current, i) + 4 * j) = e at he ⊢
  constructor
  · intro hno hfree
    rw [← frameByte_page e v] at hfree
    refine not_noStaleData hv hnew hfree (fun t t' ht hrun' => ?_) hno
    obtain ⟨t₁, hrun₁, hreads⟩ := forkPage_reads hK htables hready he hrun ht
    obtain ⟨-, rfl⟩ := Prod.mk.inj (Except.ok.inj (hrun₁.symm.trans hrun'))
    exact (hreads v hv hnew).1 hread
  · intro hfree t ht
    obtain ⟨t', hrun', hreads⟩ := forkPage_reads hK htables hready he hrun ht
    refine ⟨t', hrun', fun v hv hnew => (hreads v hv hnew).2 (ht.mem _ ?_)⟩
    rw [frameByte_page]
    exact hfree

/-- What user code reads in a page that **`vma_map_area`** has mapped. -/
theorem vmaMapArea_reads (hA : K.toPageAlloc.Lawful (V.holding objs O))
    (htables : PageTables (V.holding objs O) W L s) {pd v : ℕ} {a a' : VmArea}
    (hready : (PageGift.vmaMapArea pd a).Ready W s)
    (hrun : vmaMapArea K.vmaEnv a pd s = .ok (true, a', s')) (hv : v < kernelVaddrBase)
    (hnew : entryAt s' pd (v / 4096) ≠ entryAt s pd (v / 4096)) (hread : userRead s' pd v ≠ none)
    {e : ℕ} (he : entryAt s' pd (v / 4096) = some e) (ht : SameButFree V s t) :
    getEntryAddr e / 4096 ∈ V.free s.alloc ∧ ∃ t', vmaMapArea K.vmaEnv a pd t = .ok (true, a', t') ∧
      userRead t' pd v = some (t.mem (getEntryAddr e + v % 4096)) := by
  have hm : v / 4096 < userPdes * 1024 := page_lt hv
  obtain ⟨t', hrun', hwalk, hfresh⟩ := vmaMapArea_follows hA (ht.alike htables) hready hrun
  obtain ⟨f, hf, hentry, hmem⟩ := hfresh _ hm hnew
  obtain rfl := Option.some.inj (he.symm.trans hentry)
  have hframe := (vmmMapPage_entry hf.dvd hf.lt hready.2.2.2.2.1).1
  rw [hframe]
  refine ⟨hf.free, t', hrun', ?_⟩
  rw [userRead_eq (hwalk _ (hready.1 _ (by omega))) hentry hread, hframe,
    (hmem _ (Nat.mod_lt v (by norm_num))).2]

/-- **`vma_map_area`** hands on what its frames held. -/
theorem not_noStaleData_vmaMapArea (hA : K.toPageAlloc.Lawful (V.holding objs O))
    (htables : PageTables (V.holding objs O) W L s) {pd v : ℕ} {a : VmArea}
    (hready : (PageGift.vmaMapArea pd a).Ready W s)
    (hrun : (PageGift.vmaMapArea pd a).run K image s = .ok (true, s')) (hv : v < kernelVaddrBase)
    (hnew : entryAt s' pd (v / 4096) ≠ entryAt s pd (v / 4096)) (hread : userRead s' pd v ≠ none) :
    ¬ NoStaleData K image V (.vmaMapArea pd a) s s' := by
  obtain ⟨⟨ok, a', s₁⟩, hcall, hret⟩ := bind_eq_ok.mp hrun
  obtain ⟨rfl, rfl⟩ := Prod.mk.inj (Except.ok.inj hret)
  obtain ⟨e, he⟩ : ∃ e, entryAt s₁ pd (v / 4096) = some e := by
    cases hwalk : walk s₁.mem pd (v / 4096) with
    | none => exact absurd (by rw [userRead, hwalk]; rfl) hread
    | some tr =>
      obtain ⟨e, he, -⟩ := walk_frame hwalk
      exact ⟨e, he⟩
  obtain ⟨hfree, -⟩ := vmaMapArea_reads hA htables hready hcall hv hnew hread he ⟨rfl, fun _ _ => rfl⟩
  rw [← frameByte_page e v] at hfree
  refine not_noStaleData hv hnew hfree fun t t' ht hrun' => ?_
  obtain ⟨-, t₁, hcall₁, hread₁⟩ := vmaMapArea_reads hA htables hready hcall hv hnew hread he ht
  have hrun₁ : (PageGift.vmaMapArea pd a).run K image t = .ok (true, t₁) := by
    show (vmaMapArea K.vmaEnv a pd t >>= fun r => .ok (r.1, r.2.2)) = .ok (true, t₁)
    rw [hcall₁, ok_bind]
  obtain ⟨-, rfl⟩ := Prod.mk.inj (Except.ok.inj (hrun₁.symm.trans hrun'))
  exact hread₁

/-- **No stale data reaches user space** exactly where the new pages are filled: always from
`map_section`, from the copy of `fork` unless the page that it copies is free, and never from
`vma_map_area`. -/
theorem newPages_noStaleData_iff {Large Spent : σ → ℕ → Prop} (hK : K.Contract V objs Large Spent)
    (htables : PageTables (V.holding objs O) W L s) {op : PageGift} (hready : op.Ready W s)
    (hrun : op.run K image s = .ok (true, s'))
    (hgives : ∃ v < kernelVaddrBase, entryAt s' op.pd (v / 4096) ≠ entryAt s op.pd (v / 4096) ∧
      userRead s' op.pd v ≠ none) :
    NoStaleData K image V op s s' ↔ op.Fills V s := by
  obtain ⟨v, hv, hnew, hread⟩ := hgives
  cases op with
  | mapSection cur pd sec =>
    exact ⟨fun _ => trivial, fun _ => noStaleData_mapSection hK htables hready hrun⟩
  | forkPage current new currentPt i j =>
    exact noStaleData_forkPage_iff hK.toLawful htables hready hrun hv hnew hread
  | vmaMapArea pd a =>
    exact iff_of_false (not_noStaleData_vmaMapArea (hK.pages O) htables hready hrun hv hnew hread) id

end Fresh

/-! ### Two pages on the machine with two zones -/

/-- A directory at `0x1000` that maps nothing, on a machine that nobody has taken a page from. -/
theorem blank_tables {σ : Type} {V : PageAlloc.View σ} {s : Phys σ} (hinv : V.Inv s.alloc)
    (hlive : V.live s.alloc = ∅) (hdir : 1 ∉ V.free s.alloc)
    (habsent : ∀ i < 1024, slotPresent s (0x1000, i) = false) :
    PageTables V { w | w.1 = 0x1000 ∧ w.2 < 1024 } ∅ s := by
  have habs : ∀ w ∈ { w : ℕ × ℕ | w.1 = 0x1000 ∧ w.2 < 1024 }, slotPresent s w = false := by
    rintro ⟨pd, i⟩ ⟨rfl, hi⟩
    exact habsent i hi
  refine {
    inv := hinv
    dir := ?_
    table := fun w hw hpres => absurd hpres (by rw [habs w hw]; simp)
    inj := fun w hw _ _ hpres => absurd hpres (by rw [habs w hw]; simp)
    live := by rw [tables_of_absent habs, hlive, Set.union_empty] }
  have hpage : 4096 ∣ 0x1000 ∧ 0x1000 < highmemStart := by decide
  rintro ⟨pd, i⟩ ⟨rfl, hi⟩
  refine ⟨hpage.1, hpage.2, hi, ?_⟩
  rw [show (0x1000, i).1 / 4096 = 1 by norm_num]
  exact hdir

/-- An empty directory at `0x1000`. -/
def emptySpace : Phys (BuddyRun × BumpHeap) where
  mem _ := 0
  alloc := ({ buddy := twoZoneBuddy, live := [] }, { next := 0xD0000000, live := [] })

theorem emptySpace_absent (w : ℕ × ℕ) : slotPresent emptySpace w = false := flagIsSet_zero _

theorem emptySpace_unmapped (pd n : ℕ) : entryAt emptySpace pd n = none :=
  pte_of_absent (emptySpace_absent _) _

theorem emptySpace_tables : PageTables ((bumpView buddyView).holding bumpObjs ∅)
    { w | w.1 = 0x1000 ∧ w.2 < 1024 } ∅ emptySpace := by
  refine blank_tables ⟨⟨twoZoneBuddy_inv, ⟨by decide, by decide, by decide⟩⟩, ?_⟩ ?_ ?_
    fun i _ => emptySpace_absent _
  · ext o
    simp [bumpObjs, emptySpace]
  · ext b
    simp [PageAlloc.View.holding, bumpView, buddyView, emptySpace]
  · show ¬ (_ ∧ pageGetState (twoZoneBuddy.pages 1) = pageStateFree)
    rw [(twoZoneBuddy_flags _).1]
    exact fun hc => absurd hc.2 (by decide)

/-- The directory beside the kernel heap. The frames of `HIGHMEM` hold the numbers of their pages. -/
def heapSpace : Phys HeapRun where
  mem a := if highmemStart ≤ a then a / 4096 % 256 else 0
  alloc := twoZoneHeap

theorem heapSpace_absent {i : ℕ} (hi : i < 1024) : slotPresent heapSpace (0x1000, i) = false := by
  have hlow : ¬ highmemStart ≤ 0x1000 + 4 * i := by
    unfold highmemStart
    omega
  have hzero : heapSpace.mem (slotAddr (0x1000, i)) = 0 := if_neg hlow
  unfold slotPresent
  rw [hzero, flagIsSet_zero]

theorem heapSpace_tables : PageTables ((heapView twoZonePages).holding heapObjs ∅)
    { w | w.1 = 0x1000 ∧ w.2 < 1024 } ∅ heapSpace := by
  refine blank_tables ⟨twoZoneHeap_inv, ?_⟩ ?_ (fun hfree => ?_) fun i hi => heapSpace_absent hi
  · ext o
    simp [heapObjs, heapSpace, twoZoneHeap]
  · ext b
    simp [PageAlloc.View.holding, heapView, heapSpace, twoZoneHeap]
  · have hin : inTwoZones 1 = true := hfree.1
    exact absurd hin (by decide)

/-- Blocks of the given sizes are handed out. -/
def takeBlocks {σ : Type} (A : PageAlloc σ) (zone : Zone) (sizes : List ℕ) (s : Phys σ) :
    Kern (Phys σ) :=
  sizes.foldlM (fun s size => do
    let (_, s) ← A.allocOn size zone s
    .ok s) s

theorem takeBlocks_tables {σ : Type} {A : PageAlloc σ} {V : PageAlloc.View σ} {W : Set (ℕ × ℕ)}
    (hA : A.Lawful V) {zone : Zone} (sizes : List ℕ) : ∀ {L : Set (ℕ × ℕ)} {s s' : Phys σ},
    PageTables V W L s → takeBlocks A zone sizes s = .ok s' → ∃ L', PageTables V W L' s' := by
  induction sizes with
  | nil =>
    intro L s s' h hrun
    obtain rfl := Except.ok.inj hrun
    exact ⟨L, h⟩
  | cons size sizes ih =>
    intro L s s' h hrun
    unfold takeBlocks at hrun
    rw [List.foldlM_cons, bind_eq_ok] at hrun
    obtain ⟨s₁, hturn, hrest⟩ := hrun
    obtain ⟨⟨ptr, s₂⟩, halloc, hturn⟩ := bind_eq_ok.mp hturn
    obtain rfl := Except.ok.inj hturn
    rcases h.alloc_spec hA size zone with hnull | ⟨p, s₃, hok, hnew⟩
    · obtain ⟨-, rfl⟩ := Prod.mk.inj (Except.ok.inj (halloc.symm.trans hnull))
      exact ih h hrest
    · obtain ⟨-, rfl⟩ := Prod.mk.inj (Except.ok.inj (halloc.symm.trans hok))
      exact ih hnew.tables hrest

/-- A page of text. -/
def textPage : PageGift :=
  .mapSection 0x1000 0x1000 { vAddr := userTextStart, pAddr := 0, dataStart := 0xC0101000, dataSize := 64,
                              mappingSize := 4096, flags := userSectionRo }

/-- A page of an area that waits for a fault. -/
def areaPage : PageGift :=
  .vmaMapArea 0x1000 { addr := 0xD0000000, state := .lazy, startVaddr := 0x10000, size := 0x1000,
                       pteFlags := 7, nrPages := 1,
                       pages := some { addr := 0xD0000020, frames := [0] } }

/-- What an operation returns, the entry of a page and what user code reads there. -/
def giftView (v : ℕ) (r : Bool × Phys (BuddyRun × BumpHeap)) : Bool × Option ℕ × Option ℕ :=
  (r.1, entryAt r.2 0x1000 (v / 4096), userRead r.2 0x1000 v)

theorem textPage_view : (textPage.run (bumpKernel buddyPageAlloc) smallImage emptySpace).toOption.map
    (giftView userTextStart) = some (true, some 0x38000005, some 0x90) := by
  decide +kernel

theorem areaPage_view : (areaPage.run (bumpKernel buddyPageAlloc) smallImage emptySpace).toOption.map
    (giftView 0x10000) = some (true, some 0x38000007, some 0) := by
  decide +kernel

theorem areaPage_view_stale : (areaPage.run (bumpKernel buddyPageAlloc) smallImage
    (emptySpace.write 0x38000000 1)).toOption.map (giftView 0x10000) =
      some (true, some 0x38000007, some 1) := by
  decide +kernel

theorem textPage_ready : textPage.Ready { w | w.1 = 0x1000 ∧ w.2 < 1024 } emptySpace := by
  refine ⟨⟨rfl, by decide⟩, fun i hi => ⟨rfl, ?_⟩, by decide, by decide, by decide, by decide, by decide⟩
  unfold userPdes at hi
  show i < 1024
  omega

theorem newPages_noStaleData_iff_textPage : ∃ s',
    textPage.run (bumpKernel buddyPageAlloc) smallImage emptySpace = .ok (true, s') ∧
    NoStaleData (bumpKernel buddyPageAlloc) smallImage (bumpView buddyView) textPage emptySpace s' := by
  obtain ⟨⟨ok, s'⟩, hrun, hview⟩ := exists_ok_of_toOption_map textPage_view
  simp only [giftView, Prod.mk.injEq] at hview
  obtain ⟨rfl, hentry, hread⟩ := hview
  refine ⟨s', hrun, ?_⟩
  refine (newPages_noStaleData_iff (bumpKernel_contract buddyPageAlloc_lawful
    fun _ _ _ _ _ => buddyPageAlloc_order_lt) emptySpace_tables textPage_ready hrun
    ⟨userTextStart, by decide, ?_, ?_⟩).mpr trivial
  · show entryAt s' 0x1000 _ ≠ entryAt emptySpace 0x1000 _
    rw [hentry, emptySpace_unmapped]
    exact Option.some_ne_none _
  · show userRead s' 0x1000 _ ≠ none
    rw [hread]
    exact Option.some_ne_none _

/-- The page of an area shows the byte that its frame held. -/
theorem not_noStaleData_areaPage : ∃ s',
    areaPage.run (bumpKernel buddyPageAlloc) smallImage emptySpace = .ok (true, s') ∧
    ¬ NoStaleData (bumpKernel buddyPageAlloc) smallImage (bumpView buddyView) areaPage emptySpace s' := by
  obtain ⟨⟨ok, s'⟩, hrun, hview⟩ := exists_ok_of_toOption_map areaPage_view
  simp only [giftView, Prod.mk.injEq] at hview
  obtain ⟨rfl, hentry, hread⟩ := hview
  obtain ⟨⟨ok, t'⟩, hrun', hview'⟩ := exists_ok_of_toOption_map areaPage_view_stale
  simp only [giftView, Prod.mk.injEq] at hview'
  obtain ⟨rfl, -, hread'⟩ := hview'
  refine ⟨s', hrun, fun h => ?_⟩
  have hfree : 0x38000 ∈ (bumpView buddyView).free emptySpace.alloc := by
    show 0x38000 ∈ freePages twoZoneBuddy
    rw [twoZoneBuddy_freeInv.freePages_eq]
    exact (by decide : inTwoZones 0x38000 = true)
  have hsame : SameButFree (bumpView buddyView) emptySpace (emptySpace.write 0x38000000 1) := by
    refine ⟨rfl, fun a ha => if_neg ?_⟩
    rintro rfl
    exact ha hfree
  obtain ⟨t₁, hrun₁, hreads⟩ := h _ hsame
  obtain ⟨-, rfl⟩ := Prod.mk.inj (Except.ok.inj (hrun₁.symm.trans hrun'))
  have hnew : entryAt s' 0x1000 (0x10000 / 4096) ≠ entryAt emptySpace 0x1000 (0x10000 / 4096) := by
    rw [hentry, emptySpace_unmapped]
    exact Option.some_ne_none _
  have heq := hreads 0x10000 (by decide) hnew
  have heq : userRead t₁ 0x1000 0x10000 = userRead s' 0x1000 0x10000 := heq
  rw [hread', hread] at heq
  exact absurd heq (by decide)

end Kfs.Userspace
