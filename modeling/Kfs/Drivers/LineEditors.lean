import Kfs.Drivers.Consoles
import Kfs.Drivers.History

/-!
# Twelve line editors

What the keyboard and the terminals are for: twelve line editors, one of which has the keyboard.
`Desk` is their state; a terminal is opened when it is chosen for the first time.

## Layers

- `Desk`, `Desk.step`: the editors;
- `Desk.Allows`: the events that there is room for;
- `Editing`: what a terminal holds, and whether it is in history mode;
- `Editing.printable`, `Editing.enter`, `Editing.scroll`: what each handler does to it.
-/

namespace Kfs.Drivers

open Kfs.Lib Kfs.Utils

/-! ## The editors -/

/-- The texts, which terminals are scrolled back, which one is the current one, and the keyboard. -/
structure Desk where
  text : Fin maxTty → Option (List UInt8)
  scrolled : Fin maxTty → Bool
  current : Fin maxTty
  flags : Flag → Bool
  layoutType : LayoutType
  isOff : Bool

/-- Newline and carriage return move the cursor and write nothing. -/
def isMove (c : UInt8) : Bool := c = 0x0A ∨ c = 0x0D

namespace Desk

/-- The text of the current terminal is edited. -/
def edit (f : List UInt8 → List UInt8) (d : Desk) : Desk :=
  { d with text := Function.update d.text d.current ((d.text d.current).map f) }

/-- The current terminal shows its end again, or an earlier part. -/
def scroll (scrolled : Bool) (d : Desk) : Desk :=
  { d with scrolled := Function.update d.scrolled d.current scrolled }

/-- Output that writes something goes to the end of the terminal. -/
def output (text : List UInt8) (d : Desk) : Desk :=
  d.scroll (d.scrolled d.current && text.all isMove)

/-- A character is typed. -/
def type (c : UInt8) (d : Desk) : Desk :=
  (d.edit fun text => if c = 0 then text else (text ++ [c]).take (maxCmdLen - 1)).output [c]

/-- PgUp, or the up arrow with ctrl. -/
def scrollsBack (key : TableKey) (d : Desk) : Bool :=
  key.value = colorPgup ∨ (key.value = colorUp ∧ d.flags .leftCtrl)

/-- The character of a key. -/
def charOf (key : TableKey) (d : Desk) : UInt8 := keyboardGetShiftedValue (keyFlags d.flags) key.toKey

/-- A navigation key types its digit where it does not scroll and num lock is on. -/
def navigate (key : TableKey) (d : Desk) : Desk :=
  if d.scrollsBack key || d.scrolled d.current then d.scroll true
  else if d.flags .numLock then d.type (d.charOf key)
  else d

/-- Another terminal is chosen. When it is opened, the one before shows its end. -/
def choose (i : Fin maxTty) (d : Desk) : Desk :=
  match d.text i with
  | some _ => { d with current := i }
  | none =>
    { d.scroll false with
      text := Function.update d.text i (some [])
      scrolled := Function.update (d.scroll false).scrolled i false
      current := i }

/-- A key. -/
def press (key : TableKey) (d : Desk) : KeyHandler → Desk
  | .printable => d.type (d.charOf key)
  | .navigation => d.navigate key
  | .backspace => d.edit List.dropLast
  | .enter => (d.edit fun _ => []).scroll false
  | .press => { d with flags := keyboardPressHandler key d.flags }
  | .release => { d with flags := keyboardReleaseHandler key d.flags }
  | .toggle => { d with flags := keyboardToggleHandler key d.flags }
  | .function => if h : key.value.toNat < maxTty then d.choose ⟨key.value.toNat, h⟩ else d
  | .escape => { d with isOff := true }

/-- The key of an interrupt. -/
def keyOf (irq : KeyIrq) (d : Desk) : Option (TableKey × KeyHandler) :=
  if irq.status &&& 0x01 ≠ 0 then
    (layoutOf d.layoutType irq.data).handler.map fun handler =>
      ((layoutOf d.layoutType irq.data).key, handler)
  else none

/-- An event. -/
def step (d : Desk) (e : ConsoleEvent) : Desk :=
  if d.isOff then d
  else
    match e with
    | .irq irq =>
      match d.keyOf irq with
      | some (key, handler) => d.press key handler
      | none => d
    | .print text => d.output text
    | .switchLayout newLayout => { d with layoutType := newLayout }

/-- Events one after the other. -/
def run (es : List ConsoleEvent) (d : Desk) : Desk := es.foldl step d

/-- The character that a key types, if it types one. -/
def typedBy (key : TableKey) (d : Desk) : KeyHandler → Option UInt8
  | .printable => some (d.charOf key)
  | .navigation =>
    if !(d.scrollsBack key || d.scrolled d.current) && d.flags .numLock then some (d.charOf key)
    else none
  | _ => none

/-- A key types only where there is room for one more character, and a terminal is opened only where
there is memory for it. -/
def Fits (d : Desk) (irq : KeyIrq) (key : TableKey) (handler : KeyHandler) : Prop :=
  ((d.typedBy key handler).isSome → ∀ text, d.text d.current = some text →
    text.length < maxCmdLen - 1) ∧
  (handler = .function → ∀ h : key.value.toNat < maxTty,
    d.text ⟨key.value.toNat, h⟩ = none → irq.framebuffer.isSome)

/-- The event does not stop the kernel. -/
def Allows (d : Desk) : ConsoleEvent → Prop
  | .irq irq => d.isOff = false → ∀ key handler, d.keyOf irq = some (key, handler) →
      d.Fits irq key handler
  | _ => True

end Desk

/-! ## What a terminal holds -/

/-- A terminal between two events. -/
structure Editing (text : List UInt8) (scrolled : Bool) (t : Tty) : Prop where
  typing : Typing text t
  status : t.history.status = scrolled

variable {t t' : Tty} {text str : List UInt8} {scrolled : Bool} {c : UInt8}

theorem lineDown_status (t : Tty) : t.lineDown.history.status = t.history.status := by
  unfold Tty.lineDown
  split <;> rfl

theorem advance_status (t : Tty) : t.advance.history.status = t.history.status := by
  unfold Tty.advance
  split
  · exact lineDown_status t
  · rfl

theorem leaveHistory_status (t : Tty) : (leaveHistory t).history.status = false := by
  unfold leaveHistory
  cases hstatus : t.history.status with
  | true => rfl
  | false => simp [hstatus]

theorem put_status (c : UInt8) (t : Tty) : (t.put c).history.status = false := by
  unfold Tty.put
  rw [advance_status]
  exact leaveHistory_status t

/-- Only what is written leaves history mode. -/
theorem fed_status (c : UInt8) (t : Tty) :
    (t.fed c).history.status = (t.history.status && isMove c) := by
  unfold Tty.fed isMove
  by_cases hnl : c = 0x0A
  · simp [hnl, lineDown_status]
  by_cases hcr : c = 0x0D
  · simp [hcr, Tty.moveTo]
  rw [if_neg hnl, if_neg hcr, decide_eq_false (by simp [hnl, hcr]), Bool.and_false]
  split
  · -- A tabulator writes at least one space.
    obtain ⟨n, hn⟩ : ∃ n, 4 - t.cursor.x.toNat % 4 = n + 1 :=
      ⟨3 - t.cursor.x.toNat % 4, by omega⟩
    rw [hn, Function.iterate_succ_apply']
    exact put_status 0x20 _
  · exact put_status c t

theorem printf_status (h : t.InScreen) (hrun : vgaPrintf str t = .ok t') :
    t'.history.status = (t.history.status && str.all isMove) := by
  rw [vgaPrintf_eq] at hrun
  induction str generalizing t with
  | nil =>
    obtain rfl := Except.ok.inj hrun
    simp
  | cons c str ih =>
    unfold ftPutstr at hrun
    rw [List.foldlM_cons, ftPutchar_eq c h, ok_bind] at hrun
    rw [ih (fed_inScreen h) hrun, fed_status, List.all_cons, Bool.and_assoc]

/-- **Output**. -/
theorem Editing.output (h : Editing text scrolled t) (str : List UInt8) :
    ∃ t', vgaPrintf str t = .ok t' ∧ Editing text (scrolled && str.all isMove) t' := by
  obtain ⟨t', hrun, htyping⟩ := h.typing.printf str
  refine ⟨t', hrun, htyping, ?_⟩
  rw [printf_status h.typing.inScreen hrun, h.status]

theorem Editing.refresh (h : Editing text scrolled t) :
    ∃ t', refresh t = .ok t' ∧ Editing text scrolled t' := by
  refine ⟨t, ?_, h⟩
  unfold Drivers.refresh
  rw [vgaRefreshScreen_eq]
  rfl

/-- A computation that may stop. -/
theorem meets_any {α : Type} (r : Kern α) : Meets r (fun _ => True) (fun _ => True) := by
  cases r <;> trivial

theorem storeCli_same (t : Tty) (i : ℕ) (c : UInt8) :
    Meets (t.storeCli i c) (fun t' => t'.cursor = t.cursor ∧ t'.history = t.history)
      (fun _ => True) := by
  unfold Tty.storeCli
  split
  · exact ⟨rfl, rfl⟩
  · trivial

/-- **A character**. -/
theorem Editing.printable (h : Editing text scrolled t) (hroom : text.length < 255)
    (flags : KeyFlags) (key : KeyboardKey) :
    ∃ t', keyboardPrintableHandler flags key t = .ok t' ∧
      Editing (edit text (.printable flags key))
        (scrolled && [keyboardGetShiftedValue flags key].all isMove) t' := by
  obtain ⟨t', hrun, htyping⟩ := printable_text h.typing hroom flags key
  refine ⟨t', hrun, htyping, ?_⟩
  -- the command line is no part of the history, so only the echo counts
  have hprint : ∀ t₁ : Tty, t₁.cursor = t.cursor ∧ t₁.history = t.history →
      Meets (vgaPrintf [keyboardGetShiftedValue flags key] t₁) (fun t' => t'.history.status =
        (scrolled && [keyboardGetShiftedValue flags key].all isMove)) (fun _ => True) := by
    intro t₁ hsame
    have hscreen : t₁.InScreen := by
      unfold Tty.InScreen
      rw [hsame.1]
      exact h.typing.inScreen
    cases hp : vgaPrintf [keyboardGetShiftedValue flags key] t₁ with
    | error _ => trivial
    | ok t₂ =>
      rw [meets_ok, printf_status hscreen hp, hsame.2, h.status]
  have hstatus : Meets (keyboardPrintableHandler flags key t) (fun t' => t'.history.status =
      (scrolled && [keyboardGetShiftedValue flags key].all isMove)) (fun _ => True) := by
    unfold keyboardPrintableHandler
    dsimp only
    rw [h.typing.holds.strlen, ok_bind, if_pos h.typing.holds.length_lt]
    refine (storeCli_same t _ _).bind fun t₁ h₁ => (storeCli_same t₁ _ 0).bind fun t₂ h₂ => ?_
    exact hprint t₂ ⟨h₂.1.trans h₁.1, h₂.2.trans h₁.2⟩
  exact hstatus.result hrun

/-- **A character is taken back**, in history mode as well. -/
theorem Editing.backspace (h : Editing text scrolled t) :
    ∃ t', keyboardBackspaceHandler t = .ok t' ∧ Editing text.dropLast scrolled t' := by
  obtain ⟨t', hrun, htyping⟩ := backspace_text h.typing
  refine ⟨t', hrun, htyping, ?_⟩
  -- the character is erased on the screen without a write through the history
  have hsame : Meets (keyboardBackspaceHandler t) (fun t' => t'.history = t.history)
      (fun _ => True) := by
    have hback : ∀ t₁ : Tty, t₁.cursorBack.history = t₁.history := by
      intro t₁
      unfold Tty.cursorBack
      split
      · split <;> rfl
      · rfl
    have hstore : ∀ (t₁ : Tty) i e, Meets (t₁.store i e) (fun t' => t'.history = t₁.history)
        (fun _ => True) := by
      intro t₁ i e
      unfold Tty.store
      split
      · exact rfl
      · trivial
    unfold keyboardBackspaceHandler
    rw [h.typing.holds.strlen, ok_bind]
    split
    · exact rfl
    · refine (storeCli_same t _ 0).bind fun t₁ h₁ => ?_
      refine (meets_any _).bind fun entry _ => ?_
      exact (hstore t₁.cursorBack _ _).mono fun _ h₂ => h₂.trans ((hback t₁).trans h₁.2)
  rw [hsame.result hrun, h.status]

/-- The prompt leaves history mode. -/
theorem prompt_live (t : Tty) :
    Meets (vgaPrintf [0x24, 0x3E, 0x20] t) (fun t' => t'.history.status = false)
      (fun _ => True) := by
  have hwrite : Meets (ttyFramebufferWrite 0x24 t) (fun t' => t'.history.status = false)
      (fun _ => True) := by
    unfold ttyFramebufferWrite Tty.store
    dsimp only
    split
    · exact leaveHistory_status t
    · trivial
  -- the first character leaves history mode, and the others do not enter it
  have hfirst : Meets (putDefault 0x24 t) (fun t' => t'.history.status = false)
      (fun _ => True) :=
    hwrite.bind fun t₁ h₁ => (Printed.settled.moved t₁ _ _).mono fun _ h₂ => h₂.live h₁
  rw [vgaPrintf_eq]
  unfold ftPutstr
  rw [List.foldlM_cons]
  exact hfirst.bind fun t₁ h₁ => (Printed.putstr [0x3E, 0x20] t₁).mono fun _ h₂ => h₂.live h₁

/-- **A command is run**. -/
theorem Editing.enter (h : Editing text scrolled t) (kmalloc : ℕ → Bool)
    (shell : List Slot → ShellReply) :
    ∃ t', ttyCliHandleNl kmalloc shell t = .ok t' ∧ Editing [] false t' := by
  obtain ⟨t', hrun, htyping⟩ := enter_text kmalloc shell h.typing
  refine ⟨t', hrun, htyping, ?_⟩
  have hlive : Meets (ttyCliHandleNl kmalloc shell t) (fun t' => t'.history.status = false)
      (fun _ => True) := by
    unfold ttyCliHandleNl
    refine (meets_any _).bind fun t₁ _ => (meets_any _).bind fun first _ => ?_
    dsimp only
    -- every branch ends with the prompt
    split
    · refine (meets_any _).bind fun argv _ => ?_
      split
      · exact (meets_any _).bind fun t₂ _ => prompt_live _
      · exact prompt_live _
    · exact prompt_live t₁
  exact hlive.result hrun

/-- Neither the text nor the cursor is touched. -/
theorem Typing.congr (h : Typing text t) (hcursor : t'.cursor = t.cursor) (hcli : t'.cli = t.cli) :
    Typing text t' := by
  refine ⟨?_, h.holds.nonzero, ?_⟩
  · unfold Tty.InScreen
    rw [hcursor]
    exact h.inScreen
  · rw [hcli]
    exact h.holds.stored

theorem scrollUp_same (t : Tty) :
    (ttyHistoryScrollUp t).cursor = t.cursor ∧ (ttyHistoryScrollUp t).cli = t.cli := by
  unfold ttyHistoryScrollUp
  dsimp only
  generalize (if t.history.stopScroll then 0 else t.history.topLineSave.toUInt8 + 1) = oldestLine
  split
  · exact ⟨rfl, rfl⟩
  split
  · exact ⟨rfl, rfl⟩
  · exact ⟨rfl, rfl⟩

theorem scrollDown_same (t : Tty) :
    (ttyHistoryScrollDown t).cursor = t.cursor ∧ (ttyHistoryScrollDown t).cli = t.cli := by
  unfold ttyHistoryScrollDown
  dsimp only
  split
  · exact ⟨rfl, rfl⟩
  split
  · exact ⟨rfl, rfl⟩
  · exact ⟨rfl, rfl⟩

/-- **A navigation key in history mode**, or one that enters it. -/
theorem Editing.scroll (h : Editing text scrolled t) (flags : KeyFlags) (key : KeyboardKey)
    (hscroll : (key.value = colorPgup ∨ (key.value = colorUp ∧ flags.leftCtrl)) ∨ scrolled = true) :
    ∃ t', keyboardNavigationHandler flags key t = .ok t' ∧ Editing text true t' := by
  -- The terminal after `tty_history_enable`, where that is called.
  obtain ⟨t₁, ht₁, hstatus, hcursor, hcli⟩ : ∃ t₁,
      (if key.value = colorPgup ∨ (key.value = colorUp ∧ flags.leftCtrl) then ttyHistoryEnable t
        else t) = t₁ ∧ t₁.history.status = true ∧ t₁.cursor = t.cursor ∧ t₁.cli = t.cli := by
    refine ⟨_, rfl, ?_⟩
    split
    · exact ⟨rfl, rfl, rfl⟩
    · rename_i henters
      exact ⟨h.status.trans (hscroll.resolve_left henters), rfl, rfl⟩
  have h₁ : Editing text true t₁ := ⟨h.typing.congr hcursor hcli, hstatus⟩
  unfold keyboardNavigationHandler
  rw [ht₁]
  dsimp only
  rw [if_pos hstatus]
  split
  · have hsame := scrollUp_same t₁
    refine ⟨_, rfl, h₁.typing.congr hsame.1 hsame.2, ?_⟩
    rw [scrollUp_history, hstatus]
  split
  · have hsame := scrollDown_same t₁
    refine ⟨_, rfl, h₁.typing.congr hsame.1 hsame.2, ?_⟩
    rw [scrollDown_history, hstatus]
  · exact ⟨t₁, rfl, h₁⟩

/-- **A navigation key outside history mode** types its digit or changes the colour. -/
theorem navigation_live (h : t.history.status = false) {flags : KeyFlags} {key : KeyboardKey}
    (hptr : key.statePtr = some .numLock)
    (henters : ¬ (key.value = colorPgup ∨ (key.value = colorUp ∧ flags.leftCtrl))) :
    keyboardNavigationHandler flags key t =
      if flags.numLock then keyboardPrintableHandler flags key t
      else .ok (ttyFramebufferSetScreenMode key.value.toUInt8 t) := by
  unfold keyboardNavigationHandler
  rw [if_neg henters]
  dsimp only
  rw [if_neg (by simp [h]), hptr]
  -- the key has the flag of the keypad, so that is the one that is read
  cases hnum : flags.numLock <;> simp [KeyFlags.get, hnum]

end Kfs.Drivers
