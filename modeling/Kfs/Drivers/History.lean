import Kfs.Drivers.Keyboard
import Kfs.Drivers.TtySpec

/-!
# Leaving history mode

Output ends history mode and goes back to the saved position. A key that enters history mode saves
the position again where it is already active, so that the live position is lost unless the view
is back at it.
-/

namespace Kfs.Drivers

open Kfs.Lib Kfs.Utils

/-- A key of the navigation group that is pressed while the flags are set as given. -/
structure NavPress where
  key : KeyboardKey
  flags : KeyFlags
  deriving DecidableEq, Repr

/-- PgUp, or the up arrow with ctrl. -/
def NavPress.Enters (e : NavPress) : Prop :=
  e.key.value = colorPgup ∨ (e.key.value = colorUp ∧ e.flags.leftCtrl)

instance (e : NavPress) : Decidable e.Enters :=
  inferInstanceAs (Decidable (_ ∨ _))

/-- A terminal and the `top_line_index` it had when it last entered history mode. -/
structure Watched where
  tty : Tty
  entered : UInt8

/-- A navigation key. -/
def navStep (s : Watched) (e : NavPress) : Kern Watched := do
  let t ← keyboardNavigationHandler e.flags e.key s.tty
  .ok ⟨t, if !s.tty.history.status && t.history.status then s.tty.topLineIndex else s.entered⟩

/-- Navigation keys one after the other. -/
def navRun (es : List NavPress) (s : Watched) : Kern Watched := es.foldlM navStep s

/-- If a character were printed now, output would go on where it had stopped: history mode is left
with the `top_line_index` it was entered with, and the character is written at the cursor there. -/
structure Watched.Restored (s : Watched) : Prop where
  top : s.tty.history.status = true → (leaveHistory s.tty).topLineIndex = s.entered
  line : s.tty.history.status = true → ∀ c t', ttyFramebufferWrite c s.tty = .ok t' →
    t'.topLineIndex = s.entered ∧
      t'.framebuffer = Function.update s.tty.framebuffer
        ((s.entered + s.tty.cursor.y).toNat * vgaWidth + s.tty.cursor.x.toNat) ⟨c, s.tty.mode⟩

/-- The saved position is the one history mode was entered with. -/
def Watched.Saved (s : Watched) : Prop :=
  s.tty.history.status = true → s.tty.history.topLineSave.toUInt8 = s.entered

theorem leaveHistory_top {t : Tty} (h : t.history.status = true) :
    (leaveHistory t).topLineIndex = t.history.topLineSave.toUInt8 := by
  unfold leaveHistory
  rw [if_pos h]
  rfl

theorem restored_iff {s : Watched} : s.Restored ↔ s.Saved := by
  constructor
  · intro h hstatus
    rw [← leaveHistory_top hstatus]
    exact h.top hstatus
  · intro h
    -- The character goes to the cursor's cell below the position that has been restored.
    refine ⟨fun hstatus => (leaveHistory_top hstatus).trans (h hstatus), ?_⟩
    intro hstatus c t' hwrite
    have htop := (leaveHistory_top hstatus).trans (h hstatus)
    have hleave : leaveHistory s.tty = ttyHistoryDisable s.tty := if_pos hstatus
    unfold ttyFramebufferWrite Tty.store at hwrite
    dsimp only at hwrite
    split at hwrite
    · obtain rfl := Except.ok.inj hwrite
      refine ⟨htop, ?_⟩
      show Function.update (leaveHistory s.tty).framebuffer _ _ = _
      rw [htop, hleave]
      rfl
    · cases hwrite

/-! ## What a key does -/

theorem scrollUp_history (t : Tty) : (ttyHistoryScrollUp t).history = t.history := by
  unfold ttyHistoryScrollUp
  dsimp only
  generalize (if t.history.stopScroll then 0 else t.history.topLineSave.toUInt8 + 1) = oldestLine
  split
  · rfl
  split
  · rfl
  · rfl

theorem scrollDown_history (t : Tty) : (ttyHistoryScrollDown t).history = t.history := by
  unfold ttyHistoryScrollDown
  dsimp only
  split
  · rfl
  split
  · rfl
  · rfl

/-- In history mode a key that does not enter it moves the view at most. -/
theorem handler_inHistory {e : NavPress} {t : Tty} (h : t.history.status = true)
    (henters : ¬ e.Enters) :
    ∃ t', keyboardNavigationHandler e.flags e.key t = .ok t' ∧ t'.history = t.history := by
  unfold NavPress.Enters at henters
  unfold keyboardNavigationHandler
  dsimp only
  rw [if_neg henters, if_pos h]
  split
  · exact ⟨_, rfl, scrollUp_history t⟩
  split
  · exact ⟨_, rfl, scrollDown_history t⟩
  · exact ⟨t, rfl, rfl⟩

/-- PgUp, or the up arrow with ctrl, saves the position whether or not history mode is active. -/
theorem handler_enters {e : NavPress} (t : Tty) (henters : e.Enters) :
    ∃ t', keyboardNavigationHandler e.flags e.key t = .ok t' ∧ t'.history.status = true ∧
      t'.history.topLineSave.toUInt8 = t.topLineIndex := by
  have hvalue : e.key.value = colorPgup ∨ e.key.value = colorUp := henters.imp_right And.left
  have hup := scrollUp_history (ttyHistoryEnable t)
  have hstatus : (ttyHistoryEnable t).history.status = true := rfl
  unfold NavPress.Enters at henters
  unfold keyboardNavigationHandler
  dsimp only
  rw [if_pos henters, if_pos hstatus, if_pos hvalue]
  refine ⟨_, rfl, ?_, ?_⟩
  · rw [hup]
    rfl
  · rw [hup]
    exact UInt8.toUInt8_toUInt32 t.topLineIndex

/-- With num lock a key is printed. -/
theorem printable_live {flags : KeyFlags} {key : KeyboardKey} {t t' : Tty}
    (h : t.history.status = false) (hrun : keyboardPrintableHandler flags key t = .ok t') :
    t'.history.status = false := by
  have hlive : Meets (keyboardPrintableHandler flags key t)
      (fun t' => t'.history.status = false) (fun _ => True) := by
    -- Writing to `cli` and printing both leave the mode off.
    have hstore : ∀ (t₁ : Tty) i c, t₁.history.status = false →
        Meets (t₁.storeCli i c) (fun t' => t'.history.status = false) (fun _ => True) := by
      intro t₁ i c h₁
      unfold Tty.storeCli
      split
      · exact h₁
      · trivial
    unfold keyboardPrintableHandler
    cases ftStrlen t.cli.toList with
    | error e => trivial
    | ok cmdLen =>
      have hprint : ∀ t₁ : Tty, t₁.history.status = false →
          Meets (vgaPrintf [keyboardGetShiftedValue flags key] t₁)
            (fun t' => t'.history.status = false) (fun _ => True) :=
        fun t₁ h₁ => (Printed.printf _ t₁).mono fun _ hprinted => hprinted.live h₁
      rw [ok_bind]
      dsimp only
      split
      · exact (hstore t cmdLen _ h).bind fun t₁ h₁ => (hstore t₁ _ 0 h₁).bind hprint
      · exact hprint t h
  exact hlive.result hrun

/-- Outside history mode no other key enters it: the key prints or changes the colour. -/
theorem handler_live {e : NavPress} {t t' : Tty} (h : t.history.status = false)
    (henters : ¬ e.Enters) (hrun : keyboardNavigationHandler e.flags e.key t = .ok t') :
    t'.history.status = false := by
  unfold NavPress.Enters at henters
  unfold keyboardNavigationHandler at hrun
  dsimp only at hrun
  rw [if_neg henters, if_neg (by rw [h]; decide)] at hrun
  split at hrun
  · cases hrun
  split at hrun
  · obtain rfl := Except.ok.inj hrun
    exact h
  · exact printable_live h hrun

/-! ## Steps and runs -/

/-- Where the key enters history mode again, the view is back at the saved position. -/
def Watched.Settled (s : Watched) (e : NavPress) : Prop :=
  s.tty.history.status = true → e.Enters →
    s.tty.topLineIndex = s.tty.history.topLineSave.toUInt8

/-- **Step**: a key keeps the saved position the one history mode was entered with just if it does
not save another one. -/
theorem navStep_saved {s : Watched} (h : s.Saved) (e : NavPress) :
    Meets (navStep s e) Watched.Saved (fun _ => True) ↔ s.Settled e := by
  unfold navStep Watched.Settled
  by_cases henters : e.Enters
  · -- The key saves the position it finds: the live one outside history mode, the view's within.
    obtain ⟨t', hrun, hstatus, hsave⟩ := handler_enters s.tty henters
    rw [hrun, ok_bind, meets_ok]
    unfold Watched.Saved
    dsimp only
    rw [hstatus, hsave]
    cases hbefore : s.tty.history.status with
    | false => exact ⟨fun _ hfalse => (Bool.false_ne_true hfalse).elim, fun _ _ => rfl⟩
    | true =>
      rw [h hbefore]
      exact ⟨fun hsaved _ _ => hsaved rfl, fun hsettled _ => hsettled rfl henters⟩
  · -- Any other key leaves both the saved position and the mode as they are.
    refine iff_of_true ?_ (fun _ hyes => absurd hyes henters)
    cases hbefore : s.tty.history.status with
    | true =>
      obtain ⟨t', hrun, hsame⟩ := handler_inHistory hbefore henters
      rw [hrun, ok_bind, meets_ok]
      unfold Watched.Saved
      dsimp only
      rw [hsame]
      exact h
    | false =>
      cases hrun : keyboardNavigationHandler e.flags e.key s.tty with
      | error _ => trivial
      | ok t' =>
        rw [ok_bind, meets_ok]
        intro hstatus
        have hlive : t'.history.status = false := handler_live hbefore henters hrun
        rw [hlive] at hstatus
        cases hstatus

/-- **When leaving history mode restores the live view.** Whatever the terminal and the keys, a
character that is printed after any of them ends up where output had stopped just if the saved
position is that one at the start and PgUp, or the up arrow with ctrl, is pressed in history mode
only when the view is back at the saved position. -/
theorem history_restored_iff (t : Tty) (live : UInt8) (es : List NavPress) :
    (∀ es', es' <+: es → Meets (navRun es' ⟨t, live⟩) Watched.Restored (fun _ => True)) ↔
      (t.history.status = true → t.history.topLineSave.toUInt8 = live) ∧
        ∀ es' e, es' ++ [e] <+: es → ∀ s, navRun es' ⟨t, live⟩ = .ok s → s.Settled e := by
  have hrestored : Watched.Restored = Watched.Saved := funext fun _ => propext restored_iff
  rw [hrestored]
  exact meets_prefixes_iff (I := fun _ => Watched.Saved) (fun _ _ e h => navStep_saved h e)
    ⟨t, live⟩ es

/-- A terminal that has scrolled by five lines. -/
def scrolledTty : Tty where
  framebuffer _ := ⟨0x00, 0x1F⟩
  topLineIndex := 5
  history := ⟨false, true, 0⟩
  cursor := ⟨0, 24⟩
  mode := 0x1F
  cli := Vector.replicate maxCmdLen 0

/-- The key 9 of the number pad. -/
def pgup : NavPress where
  key := ⟨colorPgup, 0x39, .navigation, .numPad, some .numLock⟩
  flags := ⟨false, false, false, false, false⟩

/-- After PgUp twice the output goes on at line 4, where it had stopped at line 5. -/
theorem not_history_restored :
    ∃ s, navRun [pgup, pgup] ⟨scrolledTty, 0⟩ = .ok s ∧ s.entered = 5 ∧
      (leaveHistory s.tty).topLineIndex = 4 ∧ ¬ s.Restored := by
  refine ⟨_, rfl, rfl, rfl, ?_⟩
  intro h
  exact absurd (h.top rfl) (by decide)

end Kfs.Drivers
