import Kfs.Memory.VmmSpec

/-!
# Page tables refine a finite map

A run maps and unmaps user pages in a set of page directories. Beside the physical memory it
carries the abstract object that the directories stand for: for each directory a partial map from
page numbers to frames, updated by each call as its result says.
-/

namespace Kfs.Memory

open Kfs.Lib Kfs.Lib.Word32 Kfs.Lib.Dyadic

/-! ## Runs -/

/-- The calls of a run. -/
inductive VmmCall where
  | map (pd vAddr pAddr flags : ℕ)
  | unmap (pd vAddr : ℕ)
  deriving DecidableEq, Repr

namespace VmmCall

/-- The directory of a call. -/
def pd : VmmCall → ℕ
  | .map pd _ _ _ => pd
  | .unmap pd _ => pd

/-- The page number of a call. -/
def page : VmmCall → ℕ
  | .map _ vAddr _ _ => vAddr / 4096
  | .unmap _ vAddr => vAddr / 4096

/-- The arguments that the users of the directories `D` pass. -/
def Valid (D : Set ℕ) : VmmCall → Prop
  | .map pd vAddr pAddr flags => pd ∈ D ∧ vAddr < kernelVaddrBase ∧ 4096 ∣ pAddr ∧
      pAddr < 2 ^ 32 ∧ flags < 4096 ∧ flagIsSet flags ptePresentBit = true
  | .unmap pd vAddr => pd ∈ D ∧ vAddr < kernelVaddrBase

end VmmCall

/-- Physical memory, and the finite map that the directories stand for. -/
structure VmmRun (σ : Type) where
  phys : Phys σ
  map : ℕ → ℕ → Option ℕ

section Runs

variable {σ : Type}

/-- The map with the frame of one page of one directory replaced. -/
def setFrame (m : ℕ → ℕ → Option ℕ) (pd page : ℕ) (frame : Option ℕ) : ℕ → ℕ → Option ℕ :=
  fun pd' page' => if pd' = pd ∧ page' = page then frame else m pd' page'

/-- One call, with the value it returns. -/
def vmmStep (A : PageAlloc σ) (r : VmmRun σ) : VmmCall → Kern (Bool × VmmRun σ)
  | .map pd vAddr pAddr flags => do
    let (ok, s) ← vmmMapPage A pd vAddr pAddr flags r.phys
    .ok (ok, { phys := s
               map := if ok then setFrame r.map pd (vAddr / 4096) (some pAddr) else r.map })
  | .unmap pd vAddr => do
    let (ok, s) ← vmmUnmapPage A pd vAddr r.phys
    .ok (ok, { phys := s, map := setFrame r.map pd (vAddr / 4096) none })

/-- Directories in linearly mapped pages that the allocator does not own, with user halves that
are zero. -/
structure VmmRun.Initial (V : PageAlloc.View σ) (D : Set ℕ) (r : VmmRun σ) : Prop where
  inv : V.Inv r.phys.alloc
  dir : ∀ pd ∈ D, 4096 ∣ pd ∧ pd < highmemStart ∧ pd / 4096 ∉ V.free r.phys.alloc
  zero : ∀ pd ∈ D, ∀ i < userPdes, r.phys.mem (pd + 4 * i) = 0
  map : r.map = fun _ _ => none

/-- The runs on the directories `D` that start with the live blocks `L`. -/
def vmmSystem (A : PageAlloc σ) (V : PageAlloc.View σ) (D : Set ℕ) (L : Set (ℕ × ℕ)) :
    System (VmmRun σ) VmmCall where
  init r := VmmRun.Initial V D r ∧ V.live r.phys.alloc = L
  step r call r' := call.Valid D ∧ ∃ ok, vmmStep A r call = .ok (ok, r')

/-- Some page of the 4 MiB region `i` of the directory is mapped. -/
def RegionUsed (m : ℕ → ℕ → Option ℕ) (pd i : ℕ) : Prop := ∃ n, n / 1024 = i ∧ m pd n ≠ none

/-- A state refines its finite map: `vmm_get_mapping` reads it, and the live blocks are those of
the start and one table for each region that is in use. -/
structure VmmRefines (V : PageAlloc.View σ) (D : Set ℕ) (L : Set (ℕ × ℕ)) (r : VmmRun σ) :
    Prop where
  getMapping : ∀ pd ∈ D, ∀ v < kernelVaddrBase, vmmGetMapping pd v r.phys =
    .ok ((r.map pd (v / 4096)).elim 0 fun frame => frame + (v &&& 0xFFF))
  present : ∀ pd ∈ D, ∀ i < userPdes,
    slotPresent r.phys (pd, i) = true ↔ RegionUsed r.map pd i
  live : V.live r.phys.alloc = L ∪ { b | ∃ pd ∈ D, ∃ i < userPdes, RegionUsed r.map pd i ∧
    b = (tableOf r.phys (pd, i) / 4096, 0) }
  fresh : ∀ pd ∈ D, ∀ i < userPdes, RegionUsed r.map pd i →
    (tableOf r.phys (pd, i) / 4096, 0) ∉ L
  distinct : ∀ pd ∈ D, ∀ i < userPdes, ∀ pd' ∈ D, ∀ i' < userPdes, RegionUsed r.map pd i →
    RegionUsed r.map pd' i' → tableOf r.phys (pd, i) = tableOf r.phys (pd', i') →
    pd = pd' ∧ i = i'

/-! ## The invariant of a run -/

/-- The slots of the user halves. -/
def userSlots (D : Set ℕ) : Set (ℕ × ℕ) := { w | w.1 ∈ D ∧ w.2 < userPdes }

/-- The tables encode the map. -/
structure VmmRun.Inv (V : PageAlloc.View σ) (D : Set ℕ) (L : Set (ℕ × ℕ)) (r : VmmRun σ) :
    Prop where
  tables : PageTables V (userSlots D) L r.phys
  nonempty : ∀ w ∈ userSlots D, slotPresent r.phys w = true → ∃ j < 1024, lookup r.phys w j ≠ none
  map : ∀ pd ∈ D, ∀ n < userPdes * 1024, r.map pd n = lookup r.phys (pd, n / 1024) (n % 1024)
  bound : ∀ pd n, r.map pd n ≠ none → n < userPdes * 1024

variable {A : PageAlloc σ} {V : PageAlloc.View σ} {D : Set ℕ} {L : Set (ℕ × ℕ)} {r r' : VmmRun σ}

theorem page_lt {v : ℕ} (hv : v < kernelVaddrBase) : v / 4096 < userPdes * 1024 := by
  unfold kernelVaddrBase at hv
  unfold userPdes
  omega

theorem slot_mem {pd v : ℕ} (hpd : pd ∈ D) (hv : v < kernelVaddrBase) :
    (pd, getPdeIndex v) ∈ userSlots D := by
  have := page_lt hv
  refine ⟨hpd, ?_⟩
  simp only [getPdeIndex_eq]
  omega

theorem pageSlot_mem {pd n : ℕ} (hpd : pd ∈ D) (hn : n < userPdes * 1024) :
    (pd, n / 1024) ∈ userSlots D := by
  refine ⟨hpd, ?_⟩
  show n / 1024 < userPdes
  omega

/-- Slot and index name the page. -/
theorem slot_eq_iff {pd pd' n v : ℕ} :
    ((pd', n / 1024) = (pd, getPdeIndex v) ∧ n % 1024 = getPteIndex v) ↔
      (pd' = pd ∧ n = v / 4096) := by
  rw [getPdeIndex_eq, getPteIndex_eq, Prod.mk.injEq]
  omega

theorem VmmRun.Inv.of_initial (h : VmmRun.Initial V D r) (hL : V.live r.phys.alloc = L) :
    VmmRun.Inv V D L r := by
  have habs : ∀ w ∈ userSlots D, slotPresent r.phys w = false := by
    rintro ⟨pd, i⟩ ⟨hpd, hi⟩
    have hzero : r.phys.mem (slotAddr (pd, i)) = 0 := h.zero pd hpd i hi
    rw [slotPresent, hzero, flagIsSet_zero]
  have hnever : ∀ {w}, w ∈ userSlots D → ¬ slotPresent r.phys w = true := by
    intro w hw hpres
    rw [habs w hw] at hpres
    cases hpres
  refine {
    tables := {
      inv := h.inv
      dir := ?_
      table := fun w hw hpres => absurd hpres (hnever hw)
      inj := fun w hw w' hw' hpres => absurd hpres (hnever hw)
      live := ?_ }
    nonempty := fun w hw hpres => absurd hpres (hnever hw)
    map := fun pd hpd n hn => ?_
    bound := fun pd n hn => absurd (congrFun (congrFun h.map pd) n) hn }
  · rintro ⟨pd, i⟩ ⟨hpd, hi⟩
    obtain ⟨h1, h2, h3⟩ := h.dir pd hpd
    unfold userPdes at hi
    exact ⟨h1, h2, by omega, h3⟩
  · rw [hL]
    refine (Set.union_eq_self_of_subset_right ?_).symm
    rintro b ⟨w, hw, hpres, -⟩
    exact absurd hpres (hnever hw)
  · rw [h.map]
    simp [lookup, habs _ (pageSlot_mem hpd hn)]

/-- The map after a call that changed the translation of one page. -/
theorem VmmRun.Inv.setFrame (h : VmmRun.Inv V D L r) {pd v : ℕ} (hv : v < kernelVaddrBase)
    {frame : Option ℕ} {s : Phys σ} (hs : PageTables V (userSlots D) L s)
    (hne : ∀ w ∈ userSlots D, slotPresent s w = true → ∃ j < 1024, lookup s w j ≠ none)
    (hlook : ∀ w ∈ userSlots D, ∀ j < 1024, lookup s w j =
      if w = (pd, getPdeIndex v) ∧ j = getPteIndex v then frame else lookup r.phys w j) :
    VmmRun.Inv V D L { phys := s, map := setFrame r.map pd (v / 4096) frame } where
  tables := hs
  nonempty := hne
  map pd' hpd' n hn := by
    simp only [Memory.setFrame]
    rw [hlook _ (pageSlot_mem hpd' hn) _ (Nat.mod_lt n (by norm_num)), ← h.map pd' hpd' n hn]
    exact if_congr slot_eq_iff.symm rfl rfl
  bound pd' n hn := by
    simp only [Memory.setFrame] at hn
    split at hn
    · next heq =>
      rw [heq.2]
      exact page_lt hv
    · exact h.bound pd' n hn

/-- A slot that keeps its entries keeps one. -/
theorem VmmRun.Inv.nonempty_of_slot (h : VmmRun.Inv V D L r) {s : Phys σ} {w : ℕ × ℕ}
    (hw : w ∈ userSlots D) (hslot : slotPresent s w = slotPresent r.phys w)
    (hlook : ∀ j < 1024, lookup s w j = lookup r.phys w j) (hpres : slotPresent s w = true) :
    ∃ j < 1024, lookup s w j ≠ none := by
  obtain ⟨j, hj, hne⟩ := h.nonempty w hw (hslot ▸ hpres)
  exact ⟨j, hj, by rw [hlook j hj]; exact hne⟩

/-- An unmap leaves no table without an entry. -/
theorem VmmRun.Inv.nonempty_of_unmap (h : VmmRun.Inv V D L r) {s : Phys σ} {w₀ : ℕ × ℕ} {j₀ : ℕ}
    (hslots : ∀ w ∈ userSlots D, w ≠ w₀ → slotPresent s w = slotPresent r.phys w)
    (hrest : slotPresent s w₀ = true → ∃ j < 1024, lookup s w₀ j ≠ none)
    (hlook : ∀ w ∈ userSlots D, ∀ j < 1024, lookup s w j =
      if w = w₀ ∧ j = j₀ then none else lookup r.phys w j) :
    ∀ w ∈ userSlots D, slotPresent s w = true → ∃ j < 1024, lookup s w j ≠ none := by
  intro w hw hpres
  by_cases heq : w = w₀
  · subst heq
    exact hrest hpres
  · refine h.nonempty_of_slot hw (hslots w hw heq) (fun j hj => ?_) hpres
    rw [hlook w hw j hj, if_neg fun hc => heq hc.1]

/-- `vmm_unmap_page` as the frames show it. -/
theorem PageTables.vmmUnmapPage_lookup (hA : A.Lawful V) {W : Set (ℕ × ℕ)} {s : Phys σ}
    (h : PageTables V W L s) {pd v : ℕ} (hw : (pd, getPdeIndex v) ∈ W) :
    (vmmUnmapPage A pd v s = .ok (false, s) ∧
      lookup s (pd, getPdeIndex v) (getPteIndex v) = none) ∨
    ∃ s', vmmUnmapPage A pd v s = .ok (true, s') ∧ PageTables V W L s' ∧
      lookup s (pd, getPdeIndex v) (getPteIndex v) ≠ none ∧
      (∀ w ∈ W, slotPresent s' w = true → slotPresent s w = true ∧ tableOf s' w = tableOf s w) ∧
      (∀ w ∈ W, w ≠ (pd, getPdeIndex v) → slotPresent s' w = slotPresent s w) ∧
      (slotPresent s' (pd, getPdeIndex v) = true →
        ∃ j < 1024, lookup s' (pd, getPdeIndex v) j ≠ none) ∧
      ∀ w ∈ W, ∀ j < 1024, lookup s' w j =
        if w = (pd, getPdeIndex v) ∧ j = getPteIndex v then none else lookup s w j := by
  rcases h.vmmUnmapPage_spec hA hw with
    ⟨hrun, hnone⟩ | ⟨s', hrun, hinv, hmapped, hslots, hkept, hrest, hpte⟩
  · exact Or.inl ⟨hrun, lookup_eq_none_iff.mpr hnone⟩
  · refine Or.inr ⟨s', hrun, hinv, fun hnone => hmapped (lookup_eq_none_iff.mp hnone), hslots, hkept,
      fun hpres => ?_, fun w hw j hj => lookup_of_pte (hpte w hw j hj)⟩
    obtain ⟨j, hj, hne⟩ := hrest hpres
    exact ⟨j, hj, fun hnone => hne (lookup_eq_none_iff.mp hnone)⟩

/-- **What a call does.** It returns; it changes nothing where it returns `false`; it keeps the
invariant and every other entry of the map. -/
theorem VmmRun.Inv.vmmStep_spec (hA : A.Lawful V) (h : VmmRun.Inv V D L r) {call : VmmCall}
    (hvalid : call.Valid D) :
    ∃ ok r', vmmStep A r call = .ok (ok, r') ∧ VmmRun.Inv V D L r' ∧
      (ok = false → r'.phys = r.phys) ∧
      ∀ pd n, (pd, n) ≠ (call.pd, call.page) → r'.map pd n = r.map pd n := by
  -- A call changes the abstract map at its own page only.
  have hother : ∀ {pd page : ℕ} {frame : Option ℕ} {pd' n : ℕ}, (pd', n) ≠ (pd, page) →
      Memory.setFrame r.map pd page frame pd' n = r.map pd' n := by
    intro pd page frame pd' n hne
    unfold Memory.setFrame
    rw [if_neg fun heq => hne (Prod.ext heq.1 heq.2)]
  cases call with
  | map pd vAddr pAddr flags =>
    obtain ⟨hpd, hv, hp, hlt, hf, hflag⟩ := hvalid
    -- A failed call leaves memory as it was.
    rcases h.tables.vmmMapPage_spec (p := pAddr) hA (slot_mem hpd hv) hflag with
      ⟨hrun, -⟩ | ⟨s, hrun, hinv, hslots, hpte⟩
    · refine ⟨false, r, ?_, h, fun _ => rfl, fun _ _ _ => rfl⟩
      simp only [vmmStep, hrun, ok_bind, Bool.false_eq_true, if_false]
    · -- The entry that was written is read back as the frame.
      have hlook : ∀ w ∈ userSlots D, ∀ j < 1024, lookup s w j =
          if w = (pd, getPdeIndex vAddr) ∧ j = getPteIndex vAddr then some pAddr
          else lookup r.phys w j := by
        intro w hw j hj
        rw [lookup_of_pte (hpte w hw j hj), Option.map_some, (vmmMapPage_entry hp hlt hf).1]
      -- No table is empty: the one of the page has it, the others are as they were.
      have hne : ∀ w ∈ userSlots D, slotPresent s w = true → ∃ j < 1024, lookup s w j ≠ none := by
        intro w hw hpres
        by_cases heq : w = (pd, getPdeIndex vAddr)
        · refine ⟨getPteIndex vAddr, getPteIndex_lt vAddr, ?_⟩
          rw [hlook w hw _ (getPteIndex_lt vAddr), if_pos ⟨heq, rfl⟩]
          exact Option.some_ne_none _
        · refine h.nonempty_of_slot hw (hslots w hw heq).1 (fun j hj => ?_) hpres
          rw [hlook w hw j hj, if_neg fun hc => heq hc.1]
      refine ⟨true, _, ?_, h.setFrame hv hinv hne hlook, fun hc => (nomatch hc),
        fun pd' n hne => ?_⟩
      · simp only [vmmStep, hrun, ok_bind, if_true]
      · exact hother hne
  | unmap pd vAddr =>
    obtain ⟨hpd, hv⟩ := hvalid
    rcases h.tables.vmmUnmapPage_lookup hA (slot_mem hpd hv) with
      ⟨hrun, hnone⟩ | ⟨s, hrun, hinv, -, -, hslots, hrest, hlook⟩
    · -- nothing was mapped, so the map keeps its value
      have hsame : ∀ w ∈ userSlots D, ∀ j < 1024, lookup r.phys w j =
          if w = (pd, getPdeIndex vAddr) ∧ j = getPteIndex vAddr then none
          else lookup r.phys w j := by
        intro w _ j _
        split
        · next heq => rw [heq.1, heq.2, hnone]
        · rfl
      refine ⟨false, { phys := r.phys, map := Memory.setFrame r.map pd (vAddr / 4096) none }, ?_,
        h.setFrame hv h.tables h.nonempty hsame, fun _ => rfl, fun pd' n hne => ?_⟩
      · simp only [vmmStep, hrun, ok_bind]
      · exact hother hne
    · have hne := h.nonempty_of_unmap hslots hrest hlook
      refine ⟨true, _, ?_, h.setFrame hv hinv hne hlook, fun hc => (nomatch hc),
        fun pd' n hne => ?_⟩
      · simp only [vmmStep, hrun, ok_bind]
      · exact hother hne

theorem VmmRun.Inv.regionUsed_iff (h : VmmRun.Inv V D L r) {pd i : ℕ} (hpd : pd ∈ D)
    (hi : i < userPdes) : slotPresent r.phys (pd, i) = true ↔ RegionUsed r.map pd i := by
  constructor
  · intro hpres
    obtain ⟨j, hj, hlook⟩ := h.nonempty (pd, i) ⟨hpd, hi⟩ hpres
    have hdiv : (i * 1024 + j) / 1024 = i := by omega
    refine ⟨i * 1024 + j, hdiv, ?_⟩
    rw [h.map pd hpd _ (by omega), hdiv, show (i * 1024 + j) % 1024 = j by omega]
    exact hlook
  · rintro ⟨n, rfl, hmap⟩
    rw [h.map pd hpd n (h.bound pd n hmap)] at hmap
    exact slotPresent_of_lookup hmap

theorem VmmRun.Inv.refines (h : VmmRun.Inv V D L r) : VmmRefines V D L r where
  getMapping pd hpd v hv := by
    rw [h.tables.vmmGetMapping_eq (slot_mem hpd hv), h.map pd hpd _ (page_lt hv), getPdeIndex_eq,
      getPteIndex_eq]
  present pd hpd i hi := h.regionUsed_iff hpd hi
  live := by
    rw [h.tables.live]
    congr 1
    ext b
    constructor
    · rintro ⟨⟨pd, i⟩, ⟨hpd, hi⟩, hpres, rfl⟩
      exact ⟨pd, hpd, i, hi, (h.regionUsed_iff hpd hi).mp hpres, rfl⟩
    · rintro ⟨pd, hpd, i, hi, hused, rfl⟩
      exact ⟨(pd, i), ⟨hpd, hi⟩, (h.regionUsed_iff hpd hi).mpr hused, rfl⟩
  fresh pd hpd i hi hused :=
    (h.tables.table (pd, i) ⟨hpd, hi⟩ ((h.regionUsed_iff hpd hi).mpr hused)).2.1
  distinct pd hpd i hi pd' hpd' i' hi' hused hused' heq :=
    Prod.mk.inj (h.tables.inj (pd, i) ⟨hpd, hi⟩ (pd', i') ⟨hpd', hi'⟩
      ((h.regionUsed_iff hpd hi).mpr hused) ((h.regionUsed_iff hpd' hi').mpr hused') heq)

/-- The table of a region is given back exactly when an unmap leaves no page of it. -/
theorem VmmRun.Inv.table_returned_iff (h : VmmRun.Inv V D L r) {pd v : ℕ} (hpd : pd ∈ D)
    (hv : v < kernelVaddrBase)
    (hmapped : lookup r.phys (pd, getPdeIndex v) (getPteIndex v) ≠ none) {s : Phys σ}
    (h' : VmmRun.Inv V D L { phys := s, map := Memory.setFrame r.map pd (v / 4096) none })
    (hslots : ∀ w ∈ userSlots D, slotPresent s w = true →
      slotPresent r.phys w = true ∧ tableOf s w = tableOf r.phys w) :
    (tableOf r.phys (pd, getPdeIndex v) / 4096, 0) ∉ V.live s.alloc ↔
      ∀ n, n / 1024 = getPdeIndex v → n ≠ v / 4096 → r.map pd n = none := by
  have hw := slot_mem hpd hv
  have hpres : slotPresent r.phys (pd, getPdeIndex v) = true :=
    slotPresent_of_lookup hmapped
  have hkept : slotPresent s (pd, getPdeIndex v) = true ↔
      ∃ n, n / 1024 = getPdeIndex v ∧ n ≠ v / 4096 ∧ r.map pd n ≠ none := by
    rw [h'.regionUsed_iff hpd hw.2]
    unfold RegionUsed Memory.setFrame
    constructor
    · rintro ⟨n, hn, hmap⟩
      simp only [true_and] at hmap
      split at hmap
      · exact absurd rfl hmap
      · next hne => exact ⟨n, hn, hne, hmap⟩
    · rintro ⟨n, hn, hne, hmap⟩
      refine ⟨n, hn, ?_⟩
      simp only [true_and, if_neg hne]
      exact hmap
  constructor
  · intro hgone n hn hne
    by_contra hmap
    have hpres' := hkept.mpr ⟨n, hn, hne, hmap⟩
    apply hgone
    rw [h'.tables.live, ← (hslots _ hw hpres').2]
    exact Or.inr ⟨_, hw, hpres', rfl⟩
  · intro hnone hlive
    rw [h'.tables.live] at hlive
    rcases hlive with hL | ⟨w', hw', hpres', heq⟩
    · exact (h.tables.table _ hw hpres).2.1 hL
    · -- another slot with this table would be the same slot
      obtain ⟨hold, htable⟩ := hslots w' hw' hpres'
      have hpage : tableOf r.phys (pd, getPdeIndex v) / 4096 = tableOf r.phys w' / 4096 := by
        rw [← htable]
        exact (Prod.mk.inj heq).1
      have hd := tableOf_dvd r.phys (pd, getPdeIndex v)
      have hd' := tableOf_dvd r.phys w'
      obtain rfl := h.tables.inj _ hw w' hw' hpres hold (by omega)
      obtain ⟨n, hn, hne, hmap⟩ := hkept.mp hpres'
      exact hmap (hnone n hn hne)

/-! ## The refinement -/

/-- **Two-level page tables refine a finite map.** In every state of every run over a lawful page
allocator the tables encode the map. Every call returns; `false` leaves memory and allocator as
they were; no call changes the translation of another page or directory; and an unmap gives the
table of its region back exactly when no other page of the region is mapped. -/
theorem vmm_refines_map (hA : A.Lawful V)
    (hr : (vmmSystem A V D L).Reachable r) :
    VmmRefines V D L r ∧
    (∀ call, call.Valid D → ∃ ok r', vmmStep A r call = .ok (ok, r') ∧
      (ok = false → r'.phys = r.phys) ∧
      ∀ pd ∈ D, ∀ v < kernelVaddrBase, (pd, v / 4096) ≠ (call.pd, call.page) →
        vmmGetMapping pd v r'.phys = vmmGetMapping pd v r.phys) ∧
    (∀ pd v r', (VmmCall.unmap pd v).Valid D → vmmStep A r (.unmap pd v) = .ok (true, r') →
      ((tableOf r.phys (pd, getPdeIndex v) / 4096, 0) ∉ V.live r'.phys.alloc ↔
        ∀ n, n / 1024 = getPdeIndex v → n ≠ v / 4096 → r.map pd n = none)) := by
  have hinv : VmmRun.Inv V D L r := by
    apply hr.invariant
    · intro r₀ hr₀
      exact VmmRun.Inv.of_initial hr₀.1 hr₀.2
    · intro r₁ call r₂ h hstep
      obtain ⟨hvalid, ok, hrun⟩ := hstep
      obtain ⟨ok', r', hrun', h', -⟩ := h.vmmStep_spec hA hvalid
      obtain ⟨-, rfl⟩ := Prod.mk.inj (Except.ok.inj (hrun.symm.trans hrun'))
      exact h'
  refine ⟨hinv.refines, fun call hvalid => ?_, fun pd v r' hvalid hrun => ?_⟩
  · obtain ⟨ok, r', hrun, hinv', hfalse, hframe⟩ := hinv.vmmStep_spec hA hvalid
    refine ⟨ok, r', hrun, hfalse, fun pd hpd v hv hne => ?_⟩
    rw [hinv'.refines.getMapping pd hpd v hv, hinv.refines.getMapping pd hpd v hv,
      hframe pd (v / 4096) hne]
  · obtain ⟨hpd, hv⟩ := hvalid
    have hw := slot_mem hpd hv
    rcases hinv.tables.vmmUnmapPage_lookup hA hw with
      ⟨hrun', -⟩ | ⟨s, hrun', htables, hmapped, hslots, hkept, hrest, hlook⟩
    · simp only [vmmStep, hrun', ok_bind] at hrun
      cases hrun
    · simp only [vmmStep, hrun', ok_bind, Except.ok.injEq, Prod.mk.injEq, true_and] at hrun
      obtain rfl := hrun
      have hne := hinv.nonempty_of_unmap hkept hrest hlook
      exact hinv.table_returned_iff hpd hv hmapped (hinv.setFrame hv htables hne hlook) hslots

end Runs

/-- After `buddy_init` the buddy allocator is ready to serve page tables. -/
theorem buddyView_inv {n : ℕ} {t b : BuddyState} (hn : n ≤ maxPages) (ht : TableInit t.pages)
    (h0 : pageGetState (t.pages 0) ≠ pageStateAvailable) (hb : buddyInit n t = .ok b) :
    buddyView.Inv { buddy := b, live := [] } ∧
      buddyView.free { buddy := b, live := [] } = availablePages n t.pages := by
  have hinit : (buddySystem n t).Reachable { buddy := b, live := [] } := .init ⟨hb, rfl⟩
  have hinv := runInv_of_reachable hn ht hinit
  refine ⟨⟨_, hinv, fun hmem => h0 hmem.2⟩, ?_⟩
  show freePages b = _
  rw [hinv.free.freePages_eq, livePages_nil, Set.sdiff_empty]

/-- The buddy allocator on a small machine serves a directory at `0x1000`. -/
theorem vmm_refines_map_twoPageTable : ∃ r,
    (vmmSystem buddyPageAlloc buddyView {0x1000} ∅).Reachable r ∧
    r.map 0x1000 5 = some 0x7000 ∧ VmmRefines buddyView {0x1000} ∅ r := by
  have hrun : ((buddyInit 0x1002 twoPageTable).toOption.bind fun b =>
      (vmmStep buddyPageAlloc { phys := { mem := fun _ => 0, alloc := { buddy := b, live := [] } }
                                map := fun _ _ => none }
        (.map 0x1000 0x5000 0x7000 7)).toOption).map (fun out => out.2.map 0x1000 5) =
      some (some 0x7000) := by
    rw [buddyInit_twoPageTable]
    decide +kernel
  obtain ⟨⟨ok, r⟩, hout, hmap⟩ := Option.map_eq_some_iff.mp hrun
  obtain ⟨b, hb, hstep⟩ := Option.bind_eq_some_iff.mp hout
  obtain ⟨hinv, hfree⟩ := buddyView_inv (by decide) (pageDescriptorInit_tableInit _ _)
    (by decide) (eq_ok_of_toOption hb)
  have hreach : (vmmSystem buddyPageAlloc buddyView {0x1000} ∅).Reachable r := by
    refine .step (.init ⟨{ inv := hinv, dir := ?_, zero := fun _ _ _ _ => rfl, map := rfl }, ?_⟩)
      ⟨?_, ok, eq_ok_of_toOption hstep⟩
    · rintro pd rfl
      refine ⟨by decide, by decide, ?_⟩
      rw [hfree]
      exact fun hmem => absurd hmem.2 (by decide)
    · ext b
      simp [buddyView]
    · exact ⟨rfl, by decide, by decide, by decide, by decide, by decide⟩
  exact ⟨r, hreach, hmap, (vmm_refines_map buddyPageAlloc_lawful hreach).1⟩

end Kfs.Memory
