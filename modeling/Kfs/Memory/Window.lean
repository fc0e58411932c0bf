import Kfs.Memory.SlotFrames

/-!
# The kernel window

`vmm_kmap` maps a frame at one address of the current directory, and `vmm_kunmap` takes it away again.
Code that opens and closes the window, perhaps many times, leaves the slots of others as they were, and
the slot of the window too once the window is closed: a table that came for the window goes with it,
and a table that was there before has an entry of its own.
-/

namespace Kfs.Memory

open Kfs.Lib Kfs.Lib.Word32 Kfs.Lib.Dyadic

section Window

variable {σ : Type} {A : PageAlloc σ} {V : PageAlloc.View σ} {W W' L : Set (ℕ × ℕ)} {cur : ℕ}
  {s₀ s s' : Phys σ}

/-- The window is closed, and no empty table is kept for it. -/
structure WindowClosed (cur : ℕ) (s : Phys σ) : Prop where
  closed : pte s (cur, 1023) 1022 = none
  used : slotPresent s (cur, 1023) = true → ∃ j < 1024, pte s (cur, 1023) j ≠ none

/-- A directory starts without a table there. -/
theorem WindowClosed.of_absent (h : slotPresent s (cur, 1023) = false) : WindowClosed cur s :=
  ⟨pte_of_absent h _, fun hpres => absurd (hpres.symm.trans h) (by decide)⟩

theorem WindowClosed.congr (h : WindowClosed cur s) (hsame : SameSlot s s' (cur, 1023)) :
    WindowClosed cur s' where
  closed := by
    rw [hsame.entry 1022 (by norm_num)]
    exact h.closed
  used hpres := by
    obtain ⟨j, hj, hentry⟩ := h.used (hsame.present ▸ hpres)
    refine ⟨j, hj, ?_⟩
    rw [hsame.entry j hj]
    exact hentry

/-- What a code that opens and closes the window has left of the slots `W`. -/
structure WindowOnly (W : Set (ℕ × ℕ)) (cur : ℕ) (s₀ s : Phys σ) : Prop where
  slot : ∀ w ∈ W, w ≠ (cur, 1023) → SameSlot s₀ s w
  table : slotPresent s₀ (cur, 1023) = true →
    slotPresent s (cur, 1023) = true ∧ tableOf s (cur, 1023) = tableOf s₀ (cur, 1023)
  entry : ∀ j < 1024, j ≠ 1022 → pte s (cur, 1023) j = pte s₀ (cur, 1023) j
  fresh : slotPresent s₀ (cur, 1023) = false → slotPresent s (cur, 1023) = true →
    pte s (cur, 1023) 1022 ≠ none

theorem WindowOnly.refl (W : Set (ℕ × ℕ)) (cur : ℕ) (s : Phys σ) : WindowOnly W cur s s where
  slot w _ _ := .refl s w
  table hpres := ⟨hpres, rfl⟩
  entry _ _ _ := rfl
  fresh hnew hpres := absurd (hpres.symm.trans hnew) (by decide)

/-- A step that leaves all slots of `W` alone. -/
theorem WindowOnly.of_same (h : WindowOnly W cur s₀ s) (hcur : (cur, 1023) ∈ W)
    (hsame : ∀ w ∈ W, SameSlot s s' w) : WindowOnly W cur s₀ s' := by
  have hwin := hsame _ hcur
  refine ⟨fun w hw hne => (h.slot w hw hne).trans (hsame w hw), fun hold => ?_, fun j hj hne => ?_,
    fun hnew hpres => ?_⟩
  · obtain ⟨hpres, htable⟩ := h.table hold
    exact ⟨hwin.present.trans hpres, (hwin.table hpres).trans htable⟩
  · rw [hwin.entry j hj, h.entry j hj hne]
  · rw [hwin.entry 1022 (by norm_num)]
    exact h.fresh hnew (hwin.present.symm.trans hpres)

/-- **With the window closed again, all slots are as they were.** -/
theorem WindowOnly.same (h : WindowOnly W cur s₀ s) (h₀ : WindowClosed cur s₀)
    (hclosed : pte s (cur, 1023) 1022 = none) : ∀ w ∈ W, SameSlot s₀ s w := by
  intro w hw
  by_cases hwin : w = (cur, 1023)
  · subst hwin
    refine ⟨?_, fun hpres => (h.table hpres).2, fun j hj => ?_⟩
    · cases hold : slotPresent s₀ (cur, 1023) with
      | true => exact (h.table hold).1
      | false =>
        by_contra hpres
        exact h.fresh hold (by simpa using hpres) hclosed
    · by_cases hj' : j = 1022
      · rw [hj', hclosed, h₀.closed]
      · exact h.entry j hj hj'
  · exact h.slot w hw hwin

/-- **`vmm_kmap`**: it fails where the slot has no table, and otherwise opens the window. -/
theorem WindowOnly.kmap (hA : A.Lawful V) (h : PageTables V W' L s) (honly : WindowOnly W cur s₀ s)
    (hsub : W ⊆ W') (hcur : (cur, 1023) ∈ W) {p window : ℕ}
    (hrun : vmmKmap A cur p s = .ok (window, s')) :
    (window = 0 ∧ s' = s ∧ pte s (cur, 1023) 1022 = none) ∨
    (window = vmmKmapVaddr ∧ PageTables V W' L s' ∧ WindowOnly W cur s₀ s' ∧
      pte s' (cur, 1023) 1022 = some (p ||| (ptePresentBit ||| pteRwBit))) := by
  unfold vmmKmap at hrun
  obtain ⟨⟨ok, s₁⟩, hmap, hrun⟩ := bind_eq_ok.mp hrun
  obtain ⟨rfl, rfl⟩ := Prod.mk.inj (Except.ok.inj hrun)
  have hwrites := vmmMapPage_writes hmap
  have hmem := kmap_mem (hsub hcur)
  have hpde : getPdeIndex vmmKmapVaddr = 1023 := by rw [getPdeIndex_eq, kmap_slot]
  have hpte : getPteIndex vmmKmapVaddr = 1022 := by rw [getPteIndex_eq, kmap_index]
  have hkept := hwrites.kept hA h hmem
  have htable := fun w hw hpres => hwrites.table_kept hA h hmem (w := w) hw hpres
  rcases h.of_mapWrites hA hmem hwrites with ⟨rfl, rfl, habs⟩ | ⟨rfl, h', -, hentry⟩
  · rw [hpde] at habs
    exact Or.inl ⟨rfl, rfl, pte_of_absent habs _⟩
  · rw [hpde] at hkept hentry
    rw [hpte] at hentry
    have hset : ∀ q : ℕ, flagIsSet (q ||| (ptePresentBit ||| pteRwBit)) ptePresentBit = true := by
      intro q
      rw [flagIsSet_or, show flagIsSet (ptePresentBit ||| pteRwBit) ptePresentBit = true by decide,
        Bool.or_true]
    have hopen : pte s₁ (cur, 1023) 1022 = some (p ||| (ptePresentBit ||| pteRwBit)) := by
      rw [hentry _ (hsub hcur) 1022 (by norm_num), if_pos ⟨rfl, rfl⟩, if_pos (hset p)]
    refine Or.inr ⟨rfl, h', ⟨fun w hw hne => ?_, fun hold => ?_, fun j hj hne => ?_, fun _ _ => ?_⟩,
      hopen⟩
    · exact (honly.slot w hw hne).trans (hkept.slot w (hsub hw) hne)
    · obtain ⟨hpres, heq⟩ := honly.table hold
      obtain ⟨hpres', heq'⟩ := htable _ (hsub hcur) hpres
      exact ⟨hpres', heq'.trans heq⟩
    · rw [hentry _ (hsub hcur) j hj, if_neg fun hc => hne hc.2]
      exact honly.entry j hj hne
    · rw [hopen]
      exact Option.some_ne_none _

/-- **`vmm_kunmap`** closes the window. -/
theorem WindowOnly.kunmap (hA : A.Lawful V) (h : PageTables V W' L s) (honly : WindowOnly W cur s₀ s)
    (h₀ : WindowClosed cur s₀) (hsub : W ⊆ W') (hcur : (cur, 1023) ∈ W)
    (hrun : vmmKunmap A cur s = .ok s') :
    PageTables V W' L s' ∧ WindowOnly W cur s₀ s' ∧ pte s' (cur, 1023) 1022 = none := by
  unfold vmmKunmap at hrun
  obtain ⟨⟨ok, s₁⟩, hunmap, hrun⟩ := bind_eq_ok.mp hrun
  obtain rfl := Except.ok.inj hrun
  have hwrites := vmmUnmapPage_writes hunmap
  have hmem := kmap_mem (hsub hcur)
  have hpde : getPdeIndex vmmKmapVaddr = 1023 := by rw [getPdeIndex_eq, kmap_slot]
  have hpte : getPteIndex vmmKmapVaddr = 1022 := by rw [getPteIndex_eq, kmap_index]
  have hkept := hwrites.kept hA h hmem
  have hchange := h.of_unmapWrites hA hmem hwrites
  rw [hpde] at hkept hchange
  rw [hpte] at hchange
  rcases hchange with ⟨-, rfl, hnone⟩ | ⟨-, h', -, htable, -, hlast, hentry⟩
  · exact ⟨h, honly, hnone⟩
  · have hentry := hentry _ (hsub hcur)
    have hclosed : pte s₁ (cur, 1023) 1022 = none := by
      rw [hentry 1022 (by norm_num), if_pos ⟨rfl, rfl⟩]
    have hother : ∀ j < 1024, j ≠ 1022 → pte s₁ (cur, 1023) j = pte s₀ (cur, 1023) j := by
      intro j hj hne
      rw [hentry j hj, if_neg fun hc => hne hc.2]
      exact honly.entry j hj hne
    refine ⟨h', ⟨fun w hw hne => ?_, fun hold => ?_, hother, fun hnew hpres => ?_⟩, hclosed⟩
    · exact (honly.slot w hw hne).trans (hkept.slot w (hsub hw) hne)
    · -- the table has had another entry from the start
      obtain ⟨j, hj, hused⟩ := h₀.used hold
      have hne : j ≠ 1022 := by
        rintro rfl
        exact hused h₀.closed
      have hpres : slotPresent s₁ (cur, 1023) = true := by
        apply slotPresent_of_pte
        rw [hother j hj hne]
        exact hused
      exact ⟨hpres, (htable _ (hsub hcur) hpres).2.trans (honly.table hold).2⟩
    · -- a table that came for the window is empty now
      obtain ⟨j, hj, hne⟩ := hlast hpres
      by_cases hj' : j = 1022
      · exact hj' ▸ hne
      · rw [hother j hj hj', pte_of_absent hnew] at hne
        exact absurd rfl hne

end Window

end Kfs.Memory
