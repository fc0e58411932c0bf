import Kfs.Drivers.LineEditors
import Kfs.Drivers.Printf
import Kfs.Drivers.Terminal

/-!
# The terminals refine the editors

Each terminal holds the text that was typed while it was the current one, and is left alone while
it is not. A terminal that is opened starts empty: its banner and its prompt are printed before
`current_tty` is set, on the terminal that is left.

## Layers

- `Matches`: the terminals hold what the editors do;
- `Matches.press`, `Matches.press_stops`: one key;
- `consoleStep_cases`: one event;
- `consoles_refine_iff`: any number of them;
- `terminal_kept`, `opening_prints_before`: what happens to the other terminals.
-/

namespace Kfs.Drivers

open Kfs.Lib Kfs.Utils

variable {t t' : Tty} {text str : List UInt8} {scrolled : Bool} {c : UInt8}

/-! ## The terminals and the editors -/

/-- Every terminal that is open holds the text of its editor. -/
structure Matches (d : Desk) (s : Consoles) : Prop where
  terminal : ∀ i, Option.Rel (fun text t => Editing text (d.scrolled i) t) (d.text i) (s.ttys i)
  current : s.currentTty = d.current
  opened : (d.text d.current).isSome
  flags : s.flags = d.flags
  layout : s.layout = (d.layoutType, layoutOf d.layoutType)
  isOff : s.isOff = d.isOff

variable {d : Desk} {s : Consoles}

/-- The current terminal. -/
theorem Matches.currentTty (h : Matches d s) : ∃ text t, d.text d.current = some text ∧
    s.ttys s.currentTty = some t ∧ Editing text (d.scrolled d.current) t := by
  obtain ⟨text, htext⟩ := Option.isSome_iff_exists.mp h.opened
  have hrel := h.terminal d.current
  rw [htext] at hrel
  cases htty : s.ttys d.current with
  | none =>
    rw [htty] at hrel
    cases hrel
  | some t =>
    rw [htty] at hrel
    rw [h.current]
    cases hrel with
    | some hediting => exact ⟨text, t, htext, htty, hediting⟩

/-- **Frame**: what is done to the current terminal leaves the others alone. -/
theorem Matches.onCurrent (h : Matches d s) {f : Tty → Kern Tty} {g : List UInt8 → List UInt8}
    {scrolled : Bool}
    (hf : ∀ text t, d.text d.current = some text → Editing text (d.scrolled d.current) t →
      ∃ t', f t = .ok t' ∧ Editing (g text) scrolled t') :
    ∃ s', s.onCurrent f = .ok s' ∧ Matches ((d.edit g).scroll scrolled) s' := by
  obtain ⟨text, t, htext, htty, hediting⟩ := h.currentTty
  obtain ⟨t', hrun, hediting'⟩ := hf text t htext hediting
  refine ⟨{ s with ttys := Function.update s.ttys s.currentTty (some t') }, ?_, ?_⟩
  · unfold Consoles.onCurrent
    rw [htty]
    dsimp only
    rw [hrun, ok_bind]
  -- terminal by terminal: the current one is replaced, and so is its text
  · refine ⟨fun i => ?_, h.current, ?_, h.flags, h.layout, h.isOff⟩
    · dsimp only [Desk.scroll, Desk.edit]
      rw [h.current]
      by_cases hi : i = d.current
      · subst hi
        rw [Function.update_self, Function.update_self, Function.update_self, htext]
        exact .some hediting'
      · rw [Function.update_of_ne hi, Function.update_of_ne hi, Function.update_of_ne hi]
        exact h.terminal i
    · dsimp only [Desk.scroll, Desk.edit]
      rw [Function.update_self, htext]
      rfl

/-- A text that is not edited. -/
theorem edit_id (d : Desk) : d.edit (fun text => text) = d := by
  unfold Desk.edit
  rw [Option.map_id', Function.update_eq_self]

theorem scroll_self (d : Desk) : d.scroll (d.scrolled d.current) = d := by
  unfold Desk.scroll
  rw [Function.update_eq_self]

theorem Matches.output (h : Matches d s) (str : List UInt8) :
    ∃ s', s.onCurrent (vgaPrintf str) = .ok s' ∧ Matches (d.output str) s' := by
  have hprint := h.onCurrent (g := fun text => text) fun text t _ hediting => hediting.output str
  rw [edit_id] at hprint
  exact hprint

theorem Matches.refresh (h : Matches d s) :
    ∃ s', s.onCurrent refresh = .ok s' ∧ Matches d s' := by
  have hrefresh := h.onCurrent (g := fun text => text) fun text t _ hediting => hediting.refresh
  rw [edit_id, scroll_self] at hrefresh
  exact hrefresh

/-- A character that there is room for. -/
theorem Matches.type (h : Matches d s) (key : TableKey)
    (hroom : ∀ text, d.text d.current = some text → text.length < maxCmdLen - 1) :
    ∃ s', s.onCurrent (keyboardPrintableHandler (keyFlags d.flags) key.toKey) = .ok s' ∧
      Matches (d.type (d.charOf key)) s' :=
  h.onCurrent fun text _ htext hediting =>
    hediting.printable (hroom text htext) (keyFlags d.flags) key.toKey

/-- A new framebuffer. -/
theorem editing_ttyInit (framebuffer : ℕ → VgaEntry) : Editing [] false (ttyInit framebuffer) where
  typing :=
    ⟨⟨Nat.zero_lt_succ 79, Nat.zero_lt_succ 24⟩, List.not_mem_nil, List.replicate 255 0,
      Vector.toList_replicate⟩
  status := rfl

/-- Another terminal that is open becomes the current one. -/
theorem Matches.switch (h : Matches d s) {i : Fin maxTty} (hopen : (d.text i).isSome) :
    Matches { d with current := i } { s with currentTty := i } :=
  ⟨h.terminal, rfl, hopen, h.flags, h.layout, h.isOff⟩

/-- The editor of a terminal that has just got its framebuffer. -/
def Desk.opening (i : Fin maxTty) (d : Desk) : Desk :=
  { d with
    text := Function.update d.text i (some [])
    scrolled := Function.update d.scrolled i false }

theorem Matches.opening (h : Matches d s) {i : Fin maxTty} (hclosed : d.text i = none)
    (framebuffer : ℕ → VgaEntry) :
    Matches (d.opening i)
      { s with ttys := Function.update s.ttys i (some (ttyInit framebuffer)) } := by
  have hne : d.current ≠ i := by
    intro heq
    have hopened := h.opened
    rw [heq, hclosed] at hopened
    cases hopened
  refine ⟨fun j => ?_, h.current, ?_, h.flags, h.layout, h.isOff⟩
  · dsimp only [Desk.opening]
    by_cases hj : j = i
    · subst hj
      rw [Function.update_self, Function.update_self, Function.update_self]
      exact .some (editing_ttyInit framebuffer)
    · rw [Function.update_of_ne hj, Function.update_of_ne hj, Function.update_of_ne hj]
      exact h.terminal j
  · dsimp only [Desk.opening]
    rw [Function.update_of_ne hne]
    exact h.opened

/-- The prompt shows the end of the current terminal, whatever was printed before it. -/
theorem output_prompt (d : Desk) (str : List UInt8) :
    (d.output str).output ttyPrompt = d.scroll false := by
  have hprompt : ttyPrompt.all isMove = false := by decide
  unfold Desk.output
  rw [hprompt, Bool.and_false]
  unfold Desk.scroll
  rw [Function.update_idem]

theorem choose_closed {i : Fin maxTty} (hclosed : d.text i = none) (hne : d.current ≠ i) :
    d.choose i = { (d.opening i).scroll false with current := i } := by
  unfold Desk.choose Desk.opening Desk.scroll
  rw [hclosed]
  dsimp only
  rw [Function.update_comm hne]

/-- **Choosing a terminal**: where it is opened, the banner and the prompt are printed on the one
before. -/
theorem Matches.load (h : Matches d s) (framebuffer : Option (ℕ → VgaEntry)) (i : Fin maxTty)
    (hmem : d.text i = none → framebuffer.isSome) :
    ∃ s', ttyLoad framebuffer i s = .ok s' ∧ Matches (d.choose i) s' := by
  have hrel := h.terminal i
  unfold ttyLoad
  rw [dif_pos i.isLt]
  cases htext : d.text i with
  | some text =>
    rw [htext] at hrel
    -- an editor that is open has a terminal
    cases htty : s.ttys i with
    | none =>
      rw [htty] at hrel
      cases hrel
    | some t =>
      have hchoose : d.choose i = { d with current := i } := by
        unfold Desk.choose
        rw [htext]
      rw [hchoose]
      exact (h.switch (by rw [htext]; rfl)).refresh
  | none =>
    rw [htext] at hrel
    cases htty : s.ttys i with
    | some t =>
      rw [htty] at hrel
      cases hrel
    | none =>
      obtain ⟨fb, rfl⟩ := Option.isSome_iff_exists.mp (hmem htext)
      -- the current terminal is open, so it is not the one that is opened
      have hne : d.current ≠ i := by
        intro heq
        have hopened := h.opened
        rw [heq, htext] at hopened
        cases hopened
      obtain ⟨s₁, hbanner, h₁⟩ := (h.opening htext fb).output kernelBanner
      obtain ⟨s₂, hprompt, h₂⟩ := h₁.output ttyPrompt
      rw [output_prompt] at h₂
      have hopen : (((d.opening i).scroll false).text i).isSome := by
        show (Function.update d.text i (some []) i).isSome
        rw [Function.update_self]
        rfl
      obtain ⟨s₃, hrefresh, h₃⟩ := (h₂.switch hopen).refresh
      refine ⟨s₃, ?_, ?_⟩
      · show (({ s with ttys := Function.update s.ttys i (some (ttyInit fb)) } : Consoles).onCurrent
          (vgaPrintf kernelBanner) >>= fun s => s.onCurrent (vgaPrintf ttyPrompt) >>= fun s =>
            ({ s with currentTty := i } : Consoles).onCurrent Drivers.refresh) = _
        rw [hbanner, ok_bind, hprompt, ok_bind]
        exact hrefresh
      · rw [choose_closed htext hne]
        exact h₃

/-! ## Keys -/

variable {irq : KeyIrq} {key : TableKey} {handler : KeyHandler}

/-- A handler is bound to the keys of its category. -/
theorem category_of_handler (h : keyboardGetDefaultKeyHandler key = some handler) :
    (handler = .navigation → key.category = .navigation) ∧
      (handler = .function → key.category = .function) := by
  unfold keyboardGetDefaultKeyHandler at h
  cases hcategory : key.category <;> rw [hcategory] at h <;> dsimp only at h
  case alphanumeric => simp [← Option.some.inj h]
  case navigation => simp [← Option.some.inj h]
  case function => simp [← Option.some.inj h]
  case control =>
    unfold keyboardGetControlHandler at h
    split at h <;> cases h <;> simp
  case special =>
    unfold keyboardGetSpecialHandler at h
    split at h <;> cases h <;> simp

/-- The key of an interrupt comes from one of the tables. -/
theorem keyOf_usable (h : d.keyOf irq = some (key, handler)) :
    key.Usable ∧ keyboardGetDefaultKeyHandler key = some handler := by
  unfold Desk.keyOf at h
  split at h
  · obtain ⟨handler', hhandler, heq⟩ := Option.map_eq_some_iff.mp h
    obtain ⟨rfl, rfl⟩ := Prod.mk.inj heq
    cases layoutOf_apply d.layoutType irq.data with
    | inl hundefined =>
      rw [hundefined] at hhandler
      cases hhandler
    | inr hbound =>
      obtain ⟨key, husable, hroutine⟩ := hbound
      rw [hroutine] at hhandler ⊢
      exact ⟨husable, hhandler⟩
  · cases h

theorem toKey_numLock (h : key.statePtr = some .numLock) : key.toKey.statePtr = some .numLock := by
  unfold TableKey.toKey
  rw [h]
  rfl

theorem scrollsBack_iff : d.scrollsBack key = true ↔
    key.toKey.value = colorPgup ∨ (key.toKey.value = colorUp ∧ (keyFlags d.flags).leftCtrl) := by
  simp [Desk.scrollsBack, TableKey.toKey, keyFlags]

/-- A navigation key outside history mode. -/
theorem Matches.navigation_live (h : Matches d s) (hptr : key.statePtr = some .numLock)
    (hlive : (d.scrollsBack key || d.scrolled d.current) = false) :
    s.onCurrent (keyboardNavigationHandler (keyFlags d.flags) key.toKey) =
      s.onCurrent (fun t => if d.flags .numLock then
        keyboardPrintableHandler (keyFlags d.flags) key.toKey t
        else .ok (ttyFramebufferSetScreenMode key.toKey.value.toUInt8 t)) := by
  obtain ⟨text, t, -, htty, hediting⟩ := h.currentTty
  obtain ⟨henters, hscrolled⟩ := Bool.or_eq_false_iff.mp hlive
  have hnav := Drivers.navigation_live (hediting.status.trans hscrolled) (toKey_numLock hptr)
    (fun hyes => by rw [scrollsBack_iff.mpr hyes] at henters; cases henters)
  unfold Consoles.onCurrent
  rw [htty]
  dsimp only
  rw [hnav]
  rfl

/-- **A key that fits** does to the terminals what it does to the editors. -/
theorem Matches.press (h : Matches d s) (husable : key.Usable)
    (hhandler : keyboardGetDefaultKeyHandler key = some handler) (hfits : d.Fits irq key handler) :
    ∃ s', runHandler irq key s handler = .ok s' ∧ Matches (d.press key handler) s' := by
  have hcategory := category_of_handler hhandler
  have hflags := h.flags
  cases handler with
  | printable =>
    show ∃ s', s.onCurrent (keyboardPrintableHandler (keyFlags s.flags) key.toKey) = .ok s' ∧ _
    rw [hflags]
    exact h.type key (hfits.1 rfl)
  -- scrolling, then a digit, then a colour: the order of the tests in the handler
  | navigation =>
    have hptr := husable.statePtr (hcategory.1 rfl)
    show ∃ s', s.onCurrent (keyboardNavigationHandler (keyFlags s.flags) key.toKey) = .ok s' ∧
      Matches (d.navigate key) s'
    rw [hflags]
    unfold Desk.navigate
    cases hscroll : d.scrollsBack key || d.scrolled d.current with
    | true =>
      have hmode := (Bool.or_eq_true_iff.mp hscroll).imp_left scrollsBack_iff.mp
      have hkey := h.onCurrent (g := fun text => text) fun text t _ hediting =>
        hediting.scroll (keyFlags d.flags) key.toKey hmode
      rw [edit_id] at hkey
      exact hkey
    | false =>
      rw [h.navigation_live hptr hscroll, if_neg (by decide)]
      cases hnum : d.flags .numLock with
      | true =>
        have htyped : (d.typedBy key .navigation).isSome := by
          simp [Desk.typedBy, hscroll, hnum]
        exact h.type key (hfits.1 htyped)
      | false =>
        have hcolour := h.onCurrent (f := fun t =>
            .ok (ttyFramebufferSetScreenMode key.toKey.value.toUInt8 t))
          (g := fun text => text) fun text t _ hediting =>
            ⟨_, rfl, hediting.typing.congr rfl rfl, hediting.status⟩
        rw [edit_id, scroll_self] at hcolour
        exact hcolour
  | backspace =>
    have hback := h.onCurrent fun text t _ hediting => hediting.backspace
    have hsame : (d.edit List.dropLast).scroll (d.scrolled d.current) = d.edit List.dropLast :=
      scroll_self (d.edit List.dropLast)
    rw [hsame] at hback
    exact hback
  | enter =>
    exact h.onCurrent (g := fun _ => []) fun text t _ hediting =>
      hediting.enter irq.kmalloc irq.shell
  | press =>
    refine ⟨_, rfl, h.terminal, h.current, h.opened, ?_, h.layout, h.isOff⟩
    exact congrArg (keyboardPressHandler key) hflags
  | release =>
    refine ⟨_, rfl, h.terminal, h.current, h.opened, ?_, h.layout, h.isOff⟩
    exact congrArg (keyboardReleaseHandler key) hflags
  | toggle =>
    refine ⟨_, rfl, h.terminal, h.current, h.opened, ?_, h.layout, h.isOff⟩
    exact congrArg (keyboardToggleHandler key) hflags
  | function =>
    have hlt : key.value.toNat < maxTty := husable.terminal (hcategory.2 rfl)
    have hload := h.load irq.framebuffer ⟨key.value.toNat, hlt⟩ (hfits.2 rfl hlt)
    have hpress : d.press key .function = d.choose ⟨key.value.toNat, hlt⟩ := dif_pos hlt
    rw [hpress]
    exact hload
  | escape => exact ⟨_, rfl, h.terminal, h.current, h.opened, h.flags, h.layout, rfl⟩

/-- Where there is no room for a character, the null byte is written behind the array. -/
theorem Matches.type_full (h : Matches d s) (key : TableKey) {text : List UInt8}
    (htext : d.text d.current = some text) (hfull : ¬ text.length < maxCmdLen - 1) :
    s.onCurrent (keyboardPrintableHandler (keyFlags d.flags) key.toKey) = .error .fault := by
  obtain ⟨text', t, htext', htty, hediting⟩ := h.currentTty
  obtain rfl := Option.some.inj (htext.symm.trans htext')
  have hlt := hediting.typing.holds.length_lt
  have hlen : text.length = 255 := by
    simp only [maxCmdLen] at *
    omega
  unfold Consoles.onCurrent
  rw [htty]
  dsimp only
  rw [printable_full hediting.typing.holds hlen]
  rfl

/-- **A key that does not fit** stops the kernel. -/
theorem Matches.press_stops (h : Matches d s) (husable : key.Usable)
    (hhandler : keyboardGetDefaultKeyHandler key = some handler)
    (hfits : ¬ d.Fits irq key handler) : ∃ e, runHandler irq key s handler = .error e := by
  have hcategory := category_of_handler hhandler
  have hflags := h.flags
  unfold Desk.Fits at hfits
  rw [not_and_or] at hfits
  cases hfits with
  | inl hroom =>
    push Not at hroom
    obtain ⟨htyped, text, htext, hfull⟩ := hroom
    -- of the nine handlers two type characters
    have hstop := h.type_full key htext (Nat.not_lt.mpr hfull)
    cases handler with
    | printable =>
      refine ⟨.fault, ?_⟩
      show s.onCurrent (keyboardPrintableHandler (keyFlags s.flags) key.toKey) = _
      rw [hflags]
      exact hstop
    | navigation =>
      refine ⟨.fault, ?_⟩
      have hmode : (d.scrollsBack key || d.scrolled d.current) = false ∧ d.flags .numLock = true := by
        unfold Desk.typedBy at htyped
        cases hscroll : d.scrollsBack key || d.scrolled d.current <;>
          cases hnum : d.flags .numLock <;> simp_all
      show s.onCurrent (keyboardNavigationHandler (keyFlags s.flags) key.toKey) = _
      rw [hflags, h.navigation_live (husable.statePtr (hcategory.1 rfl)) hmode.1, hmode.2]
      exact hstop
    | press => cases htyped
    | release => cases htyped
    | toggle => cases htyped
    | function => cases htyped
    | enter => cases htyped
    | escape => cases htyped
    | backspace => cases htyped
  | inr hmem =>
    push Not at hmem
    -- and one asks for memory
    obtain ⟨rfl, hlt, hclosed, hnone⟩ := hmem
    have hrel := h.terminal ⟨key.value.toNat, hlt⟩
    rw [hclosed] at hrel
    refine ⟨.kpanic "No space left to init ttys.", ?_⟩
    show ttyLoad irq.framebuffer key.value.toNat s = _
    have hframebuffer : irq.framebuffer = none := by simpa using hnone
    cases htty : s.ttys ⟨key.value.toNat, hlt⟩ with
    | some t =>
      rw [htty] at hrel
      cases hrel
    | none =>
      unfold ttyLoad
      rw [dif_pos hlt, htty, hframebuffer]
      rfl

/-! ## Steps and runs -/

theorem Matches.switchLayout (h : Matches d s) (newLayout : LayoutType) :
    ∃ s', (do
        let layout ← keyboardSwitchLayout newLayout s.layout
        .ok { s with layout := layout } : Kern Consoles) = .ok s' ∧
      Matches { d with layoutType := newLayout } s' := by
  rw [h.layout, keyboardSwitchLayout_eq, ok_bind]
  exact ⟨_, rfl, h.terminal, h.current, h.opened, h.flags, rfl, h.isOff⟩

/-- The refresh at the end of an interrupt. -/
theorem Matches.handled (h : Matches d s) :
    ∃ s', (if s.isOff then .ok s else s.onCurrent Drivers.refresh : Kern Consoles) = .ok s' ∧
      Matches d s' := by
  split
  · exact ⟨s, rfl, h⟩
  · exact h.refresh

/-- The handler of the key, and the refresh. -/
theorem Matches.keyboardHandle_eq (h : Matches d s) (irq : KeyIrq) :
    keyboardHandle irq s =
      (match d.keyOf irq with
        | some (key, handler) => runHandler irq key s handler
        | none => .ok s) >>= fun s => if s.isOff then .ok s else s.onCurrent Drivers.refresh := by
  unfold keyboardHandle Desk.keyOf
  rw [h.layout]
  dsimp only
  split
  · cases hhandler : (layoutOf d.layoutType irq.data).handler with
    | none => rfl
    | some handler => rfl
  · rfl

/-- **Step**: an event that is allowed does to the terminals what it does to the editors; any other
stops the kernel. -/
theorem consoleStep_cases (h : Matches d s) (e : ConsoleEvent) :
    (d.Allows e ∧ ∃ s', consoleStep s e = .ok s' ∧ Matches (d.step e) s') ∨
      (¬ d.Allows e ∧ ∃ stop, consoleStep s e = .error stop) := by
  unfold consoleStep Desk.step
  cases hoff : d.isOff with
  -- a machine that is off does nothing
  | true =>
    rw [if_pos (h.isOff.trans hoff), if_pos rfl]
    refine .inl ⟨?_, s, rfl, h⟩
    cases e with
    | irq irq => exact fun hon => absurd hon (by simp [hoff])
    | print str => trivial
    | switchLayout newLayout => trivial
  | false =>
    have hon : ¬ s.isOff = true := by simp [h.isOff, hoff]
    rw [if_neg hon, if_neg (by decide)]
    cases e with
    | irq irq =>
      dsimp only
      rw [h.keyboardHandle_eq]
      cases hkey : d.keyOf irq with
      | none =>
        refine .inl ⟨fun _ key handler hsome => ?_, ?_⟩
        · rw [hkey] at hsome
          cases hsome
        · exact h.handled
      | some keyHandler =>
        obtain ⟨key, handler⟩ := keyHandler
        obtain ⟨husable, hhandler⟩ := keyOf_usable hkey
        dsimp only
        -- whether the key fits decides, and the editor knows that before the step
        by_cases hfits : d.Fits irq key handler
        · obtain ⟨s₁, hrun₁, h₁⟩ := h.press husable hhandler hfits
          refine .inl ⟨fun _ key' handler' hsome => ?_, ?_⟩
          · obtain ⟨rfl, rfl⟩ := Prod.mk.inj (Option.some.inj (hkey.symm.trans hsome))
            exact hfits
          · rw [hrun₁, ok_bind]
            exact h₁.handled
        · obtain ⟨stop, hrun⟩ := h.press_stops husable hhandler hfits
          refine .inr ⟨fun hallows => hfits (hallows hoff key handler hkey), stop, ?_⟩
          rw [hrun, error_bind]
    | print str => exact .inl ⟨trivial, h.output str⟩
    | switchLayout newLayout =>
      have hswitch := h.switchLayout newLayout
      rw [hoff] at hswitch
      exact .inl ⟨trivial, hswitch⟩

/-- The desk with the first terminal open. -/
def Desk.new : Desk where
  text i := if i = firstTty then some [] else none
  scrolled _ := false
  current := firstTty
  flags _ := false
  layoutType := .qwerty
  isOff := false

/-- The terminals after `keyboard_init` and `ttys_init`. -/
theorem ttysInit_matches (framebuffer : ℕ → VgaEntry) :
    ∃ s, (do
        let layout ← keyboardInit
        ttysInit (some framebuffer) layout) = .ok s ∧ Matches .new s := by
  -- The first terminal is the current one already when its banner is printed.
  let s₀ : Consoles :=
    { ttys := Function.update (fun _ => none) firstTty (some (ttyInit framebuffer))
      currentTty := firstTty
      flags := fun _ => false
      layout := (.qwerty, layoutOf .qwerty)
      isOff := false }
  have h₀ : Matches .new s₀ := by
    refine ⟨fun i => ?_, rfl, rfl, rfl, rfl, rfl⟩
    dsimp only [s₀, Desk.new]
    by_cases hi : i = firstTty
    · subst hi
      rw [if_pos rfl, Function.update_self]
      exact .some (editing_ttyInit framebuffer)
    · rw [if_neg hi, Function.update_of_ne hi]
      exact .none
  obtain ⟨s₁, hbanner, h₁⟩ := h₀.output kernelBanner
  obtain ⟨s₂, hprompt, h₂⟩ := h₁.output ttyPrompt
  have hnew : (Desk.new.output kernelBanner).output ttyPrompt = .new :=
    (output_prompt .new kernelBanner).trans (scroll_self .new)
  rw [hnew] at h₂
  obtain ⟨s₃, hrefresh, h₃⟩ := h₂.refresh
  refine ⟨s₃, ?_, h₃⟩
  have hcurrent : ({ s₂ with currentTty := firstTty } : Consoles) = s₂ := by
    have hsame : s₂.currentTty = firstTty := h₂.current
    rw [← hsame]
  rw [keyboardInit_eq, ok_bind]
  show (s₀.onCurrent (vgaPrintf kernelBanner) >>= fun s => s.onCurrent (vgaPrintf ttyPrompt) >>=
    fun s => ({ s with currentTty := firstTty } : Consoles).onCurrent Drivers.refresh) = _
  rw [hbanner, ok_bind, hprompt, ok_bind, hcurrent, hrefresh]

theorem run_snoc (d : Desk) (es : List ConsoleEvent) (e : ConsoleEvent) :
    d.run (es ++ [e]) = (d.run es).step e := by
  unfold Desk.run
  rw [List.foldl_append]
  rfl

/-- **The terminals are twelve line editors.** From the start of the kernel on, whatever keys are
pressed, released or held, whatever the kernel prints and however often the layout is switched: no
event stops the kernel, and after each of them every terminal that is open holds the text that was
typed while it was the current one, just if no character is typed into a line of 255 and there is
memory for each terminal when it is opened. -/
theorem consoles_refine_iff (framebuffer : ℕ → VgaEntry) (es : List ConsoleEvent) :
    (∀ es', es' <+: es → Meets (do
        let layout ← keyboardInit
        let s ← ttysInit (some framebuffer) layout
        consoleRun es' s) (Matches (Desk.new.run es')) (fun _ => False)) ↔
      ∀ es' e, es' ++ [e] <+: es → (Desk.new.run es').Allows e := by
  obtain ⟨s, hinit, h⟩ := ttysInit_matches framebuffer
  have hstart : ∀ es', (do
      let layout ← keyboardInit
      let s ← ttysInit (some framebuffer) layout
      consoleRun es' s) = consoleRun es' s := by
    intro es'
    rw [← bind_assoc, hinit, ok_bind]
  have hstep : ∀ es' s₁ e, Matches (Desk.new.run es') s₁ →
      (Meets (consoleStep s₁ e) (Matches (Desk.new.run (es' ++ [e]))) (fun _ => False) ↔
        (Desk.new.run es').Allows e) := by
    intro es' s₁ e h₁
    rw [run_snoc]
    cases consoleStep_cases h₁ e with
    | inl hok =>
      obtain ⟨hallows, s₂, hrun, h₂⟩ := hok
      rw [hrun, meets_ok]
      exact iff_of_true h₂ hallows
    | inr hstop =>
      obtain ⟨hallows, stop, hrun⟩ := hstop
      rw [hrun, meets_error]
      exact iff_of_false not_false hallows
  -- the rule for prefixes turns the step into the run
  have hrule := meets_prefixes_iff (I := fun es' => Matches (Desk.new.run es')) hstep s es
  simp only [hstart]
  constructor
  · intro hall es' e hes'
    have hbefore := hall es' ((List.prefix_append es' [e]).trans hes')
    cases hrun : consoleRun es' s with
    | error _ =>
      rw [hrun] at hbefore
      exact hbefore.elim
    | ok s' => exact (hrule.mp hall).2 es' e hes' s' hrun
  · intro hallows
    exact hrule.mpr ⟨h, fun es' e hes' _ _ => hallows es' e hes'⟩

/-! ## The other terminals -/

/-- A run of the terminals is one of the editors. -/
theorem consoleRun_matches (h : Matches d s) {es : List ConsoleEvent} {s' : Consoles}
    (hrun : consoleRun es s = .ok s') : Matches (d.run es) s' := by
  induction es generalizing d s with
  | nil =>
    obtain rfl := Except.ok.inj hrun
    exact h
  | cons e es ih =>
    unfold consoleRun at hrun
    rw [List.foldlM_cons] at hrun
    cases consoleStep_cases h e with
    | inl hok =>
      obtain ⟨-, s₁, hstep, h₁⟩ := hok
      rw [hstep, ok_bind] at hrun
      exact ih h₁ hrun
    | inr hstop =>
      obtain ⟨-, stop, hstep⟩ := hstop
      rw [hstep] at hrun
      cases hrun

/-- `s'` is `s` but for the current terminal. -/
structure SameOthers (s s' : Consoles) : Prop where
  ttys : ∀ j, j ≠ s.currentTty → s'.ttys j = s.ttys j
  current : s'.currentTty = s.currentTty

theorem onCurrent_same (s : Consoles) (f : Tty → Kern Tty) :
    Meets (s.onCurrent f) (SameOthers s) (fun _ => True) := by
  unfold Consoles.onCurrent
  cases s.ttys s.currentTty with
  | none => trivial
  | some t =>
    dsimp only
    cases f t with
    | error e => trivial
    | ok t' => exact ⟨fun j hj => Function.update_of_ne hj _ _, rfl⟩

/-- A terminal and its framebuffer. -/
def Consoles.setTty (s : Consoles) (i : Fin maxTty) (t : Tty) : Consoles :=
  { s with ttys := Function.update s.ttys i (some t) }

@[simp] theorem setTty_self (s : Consoles) (i : Fin maxTty) (t : Tty) :
    (s.setTty i t).ttys i = some t := Function.update_self _ _ _

theorem setTty_of_ne {i j : Fin maxTty} (h : j ≠ i) (s : Consoles) (t : Tty) :
    (s.setTty i t).ttys j = s.ttys j := Function.update_of_ne h _ _

theorem onCurrent_eq {f : Tty → Kern Tty} (htty : s.ttys s.currentTty = some t)
    (hf : f t = .ok t') : s.onCurrent f = .ok (s.setTty s.currentTty t') := by
  unfold Consoles.onCurrent
  rw [htty]
  dsimp only
  rw [hf, ok_bind]
  rfl

/-- Refreshing the screen changes nothing. -/
theorem refresh_eq (t : Tty) : Drivers.refresh t = .ok t := by
  unfold Drivers.refresh
  rw [vgaRefreshScreen_eq]
  rfl

theorem onCurrent_refresh (s : Consoles) :
    Meets (s.onCurrent Drivers.refresh) (fun s' => s' = s) (fun _ => True) := by
  unfold Consoles.onCurrent
  cases htty : s.ttys s.currentTty with
  | none => trivial
  | some t =>
    dsimp only
    unfold Drivers.refresh
    rw [vgaRefreshScreen_eq, ok_bind, ok_bind, meets_ok, ← htty, Function.update_eq_self]

/-- **Step**: an event leaves the terminals alone that are open and not the current one. -/
theorem consoleStep_kept {j : Fin maxTty} (hopen : (s.ttys j).isSome) (haway : s.currentTty ≠ j)
    (e : ConsoleEvent) :
    Meets (consoleStep s e) (fun s' => s'.ttys j = s.ttys j) (fun _ => True) := by
  have hcurrent : ∀ f, Meets (s.onCurrent f) (fun s' => s'.ttys j = s.ttys j) (fun _ => True) :=
    fun f => (onCurrent_same s f).mono fun _ h => h.ttys j (Ne.symm haway)
  have hload : ∀ framebuffer i,
      Meets (ttyLoad framebuffer i s) (fun s' => s'.ttys j = s.ttys j) (fun _ => True) := by
    intro framebuffer i
    unfold ttyLoad
    split
    · rename_i hi
      -- The terminal that becomes the current one may be `j`, but it is only shown.
      have hshow : ∀ s₁ : Consoles, s₁.ttys j = s.ttys j →
          Meets (({ s₁ with currentTty := ⟨i, hi⟩ } : Consoles).onCurrent Drivers.refresh)
            (fun s' => s'.ttys j = s.ttys j) (fun _ => True) :=
        fun s₁ h₁ => (onCurrent_refresh _).mono fun _ h => by rw [h]; exact h₁
      split
      · exact hshow s rfl
      · split
        · trivial
        · rename_i hclosed _ fb
          have hne : j ≠ ⟨i, hi⟩ := by
            intro heq
            rw [heq, hclosed] at hopen
            cases hopen
          refine (onCurrent_same _ _).bind fun s₁ h₁ => (onCurrent_same _ _).bind fun s₂ h₂ => ?_
          refine hshow s₂ ?_
          -- both prints go to the terminal that is left
          have haway₁ : j ≠ s₁.currentTty := by
            rw [h₁.current]
            exact Ne.symm haway
          rw [h₂.ttys j haway₁, h₁.ttys j (Ne.symm haway)]
          exact Function.update_of_ne hne _ _
    · trivial
  unfold consoleStep
  split
  · exact rfl
  · cases e with
    | irq irq =>
      dsimp only
      unfold keyboardHandle
      have hkey : ∀ key handler,
          Meets (runHandler irq key s handler) (fun s' => s'.ttys j = s.ttys j) (fun _ => True) := by
        intro key handler
        -- a key changes the current terminal, or which one that is, or none at all
        cases handler with
        | printable => exact hcurrent _
        | navigation => exact hcurrent _
        | backspace => exact hcurrent _
        | enter => exact hcurrent _
        | press => exact rfl
        | release => exact rfl
        | toggle => exact rfl
        | function => exact hload _ _
        | escape => exact rfl
      have hrefresh : ∀ s₁ : Consoles, s₁.ttys j = s.ttys j →
          Meets (if s₁.isOff then .ok s₁ else s₁.onCurrent Drivers.refresh : Kern Consoles)
            (fun s' => s'.ttys j = s.ttys j) (fun _ => True) := by
        intro s₁ h₁
        split
        · exact h₁
        · exact (onCurrent_refresh s₁).mono fun _ h => by rw [h]; exact h₁
      dsimp only
      split
      · split
        · exact (hkey _ _).bind hrefresh
        · exact hrefresh s rfl
      · exact hrefresh s rfl
    | print str => exact hcurrent _
    | switchLayout newLayout =>
      exact (meets_any _).bind fun layout _ => rfl

/-- **A terminal is left alone while it is not the current one.** From the start of the kernel on:
over any events, through which it is not chosen, a terminal that is open keeps its framebuffer, its
cursor and its command line. -/
theorem terminal_kept (framebuffer : ℕ → VgaEntry) (es es' : List ConsoleEvent)
    {s s' : Consoles} {j : Fin maxTty} {t : Tty}
    (hrun : (do
        let layout ← keyboardInit
        let s ← ttysInit (some framebuffer) layout
        consoleRun es s) = .ok s)
    (hopen : s.ttys j = some t) (hrun' : consoleRun es' s = .ok s')
    (haway : ∀ es₁ e, es₁ ++ [e] <+: es' → (Desk.new.run (es ++ es₁)).current ≠ j) :
    s'.ttys j = some t := by
  have hmatches : Matches (Desk.new.run es) s := by
    obtain ⟨s₀, hinit, h₀⟩ := ttysInit_matches framebuffer
    rw [← bind_assoc, hinit, ok_bind] at hrun
    exact consoleRun_matches h₀ hrun
  induction es' using List.reverseRecOn generalizing s' with
  | nil =>
    obtain rfl := Except.ok.inj hrun'
    exact hopen
  | append_singleton es' e ih =>
    unfold consoleRun at hrun' ih
    rw [foldlM_snoc] at hrun'
    cases hbefore : es'.foldlM consoleStep s with
    | error _ =>
      rw [hbefore] at hrun'
      cases hrun'
    | ok s₁ =>
      rw [hbefore, ok_bind] at hrun'
      have hkept := ih hbefore fun es₁ e₁ hes₁ => haway es₁ e₁ (hes₁.trans (List.prefix_append es' [e]))
      have h₁ := consoleRun_matches hmatches hbefore
      have hcurrent : s₁.currentTty ≠ j := by
        rw [h₁.current]
        have hnow := haway es' e List.prefix_rfl
        unfold Desk.run at hnow ⊢
        rwa [List.foldl_append] at hnow
      have hsome : (s₁.ttys j).isSome := by
        rw [hkept]
        rfl
      rw [(consoleStep_kept hsome hcurrent e).result hrun', hkept]

/-- The key F2, which chooses the second terminal. -/
def keyF2 : ConsoleEvent :=
  .irq ⟨0x01, 0x3C, some fun _ => ⟨0x00, 0x00⟩, fun _ => true, fun _ => ⟨false, []⟩⟩

theorem keyF2_allowed : Desk.new.Allows keyF2 := by
  intro _ key handler hkey
  have hfunction : Desk.new.keyOf
      ⟨0x01, 0x3C, some fun _ => ⟨0x00, 0x00⟩, fun _ => true, fun _ => ⟨false, []⟩⟩ =
        some (⟨1, 0, 0x3C, .function, .none, none⟩, .function) := by rfl
  obtain ⟨rfl, rfl⟩ := Prod.mk.inj (Option.some.inj (hfunction.symm.trans hkey))
  exact ⟨fun htyped => (nomatch htyped), fun _ _ _ => rfl⟩

/-- The first terminal, while something is printed on the second one. -/
theorem terminal_kept_second : ∃ s s' t,
    (do
      let layout ← keyboardInit
      let s ← ttysInit (some fun _ => ⟨0x00, 0x00⟩) layout
      consoleRun [keyF2] s) = .ok s ∧
    s.ttys firstTty = some t ∧ consoleRun [.print [0x61]] s = .ok s' ∧ s'.ttys firstTty = some t := by
  obtain ⟨s₀, hinit, h₀⟩ := ttysInit_matches fun _ => ⟨0x00, 0x00⟩
  obtain ⟨-, s₁, hstep, h₁⟩ := (consoleStep_cases h₀ keyF2).resolve_right fun h => h.1 keyF2_allowed
  obtain ⟨s₂, hprint, h₂⟩ := h₁.output [0x61]
  have hon : ¬ s₁.isOff = true := by
    rw [h₁.isOff]
    decide
  have hrun : (do
      let layout ← keyboardInit
      let s ← ttysInit (some fun _ => ⟨0x00, 0x00⟩) layout
      consoleRun [keyF2] s) = .ok s₁ := by
    rw [← bind_assoc, hinit, ok_bind]
    unfold consoleRun
    rw [List.foldlM_cons, hstep]
    rfl
  have hrun' : consoleRun [.print [0x61]] s₁ = .ok s₂ := by
    unfold consoleRun consoleStep
    rw [List.foldlM_cons, if_neg hon]
    dsimp only
    rw [hprint]
    rfl
  have hfirst := h₁.terminal firstTty
  cases htty : s₁.ttys firstTty with
  | none =>
    rw [htty] at hfirst
    cases hfirst
  | some t =>
    refine ⟨s₁, s₂, t, hrun, htty, hrun', ?_⟩
    refine terminal_kept _ [keyF2] [.print [0x61]] hrun htty hrun' ?_
    intro es₁ e hes₁
    have hnil : es₁ = [] := by
      have hlen := hes₁.length_le
      simpa using hlen
    rw [hnil]
    decide

/-- **A terminal that is opened is blank**: whenever that happens, its banner and its prompt are
printed on the terminal that is left. -/
theorem opening_prints_before (framebuffer fb : ℕ → VgaEntry) (es : List ConsoleEvent) {s : Consoles}
    {i : Fin maxTty}
    (hrun : (do
        let layout ← keyboardInit
        let s ← ttysInit (some framebuffer) layout
        consoleRun es s) = .ok s)
    (hclosed : s.ttys i = none) :
    ∃ t t' t₁ s', s.ttys s.currentTty = some t ∧ ftPutstr (kernelBanner ++ ttyPrompt) t = .ok t' ∧
      ttyLoad (some fb) i s = .ok s' ∧ s'.ttys s.currentTty = some t' ∧
      s'.currentTty = i ∧ s'.ttys i = some t₁ ∧
      vgaRefreshScreen t₁ = .ok ((Terminal.blank 0x1F 0 0).screen, ⟨0, 0⟩) := by
  have hmatches : Matches (Desk.new.run es) s := by
    obtain ⟨s₀, hinit, h₀⟩ := ttysInit_matches framebuffer
    rw [← bind_assoc, hinit, ok_bind] at hrun
    exact consoleRun_matches h₀ hrun
  obtain ⟨text, t, -, htty, hediting⟩ := hmatches.currentTty
  have hne : s.currentTty ≠ i := by
    intro heq
    rw [heq, hclosed] at htty
    cases htty
  obtain ⟨hbanner, hscreen⟩ := ftPutstr_eq kernelBanner hediting.typing.inScreen
  obtain ⟨hprompt, -⟩ := ftPutstr_eq ttyPrompt hscreen
  generalize kernelBanner.foldl (fun t' c => t'.fed c) t = t₁ at hbanner hscreen hprompt
  generalize ttyPrompt.foldl (fun t' c => t'.fed c) t₁ = t₂ at hprompt
  have hblank : Shows 0 true 0x1F (ttyInit fb) (Terminal.blank 0x1F 0 0) :=
    shows_blank (fun k hk => if_pos hk) rfl (editing_ttyInit fb).typing.inScreen
  -- The current terminal is printed on twice before the other one is chosen.
  let s₁ := s.setTty i (ttyInit fb)
  let s₂ := s₁.setTty s.currentTty t₁
  let s₃ := s₂.setTty s.currentTty t₂
  let s₄ : Consoles := { s₃ with currentTty := i }
  have hfirst : s₁.onCurrent (vgaPrintf kernelBanner) = .ok s₂ :=
    onCurrent_eq ((setTty_of_ne hne s _).trans htty) ((vgaPrintf_eq kernelBanner t).trans hbanner)
  have hsecond : s₂.onCurrent (vgaPrintf ttyPrompt) = .ok s₃ :=
    onCurrent_eq (setTty_self s₁ _ t₁) ((vgaPrintf_eq ttyPrompt t₁).trans hprompt)
  have hnew : s₄.ttys i = some (ttyInit fb) := by
    show (s₂.setTty s.currentTty t₂).ttys i = _
    rw [setTty_of_ne (Ne.symm hne), setTty_of_ne (Ne.symm hne), setTty_self]
  have hlast : s₄.onCurrent Drivers.refresh = .ok (s₄.setTty i (ttyInit fb)) :=
    onCurrent_eq hnew (refresh_eq (ttyInit fb))
  refine ⟨t, t₂, ttyInit fb, s₄.setTty i (ttyInit fb), htty, ?_, ?_, ?_, rfl, setTty_self s₄ i _,
    hblank.screen⟩
  · rw [ftPutstr_append, hbanner, ok_bind, hprompt]
  · unfold ttyLoad
    rw [dif_pos i.isLt, hclosed]
    show (s₁.onCurrent (vgaPrintf kernelBanner) >>= fun s => s.onCurrent (vgaPrintf ttyPrompt) >>=
      fun s => ({ s with currentTty := i } : Consoles).onCurrent Drivers.refresh) = _
    rw [hfirst, ok_bind, hsecond, ok_bind]
    exact hlast
  · rw [setTty_of_ne hne]
    exact setTty_self s₂ _ t₂

/-- The second terminal, opened at the start. -/
theorem opening_prints_before_second : ∃ s t t' s',
    (do
      let layout ← keyboardInit
      let s ← ttysInit (some fun _ => ⟨0x00, 0x00⟩) layout
      consoleRun [] s) = .ok s ∧
    s.ttys s.currentTty = some t ∧ ftPutstr (kernelBanner ++ ttyPrompt) t = .ok t' ∧
    ttyLoad (some fun _ => ⟨0x00, 0x00⟩) 1 s = .ok s' ∧ s'.ttys s.currentTty = some t' := by
  obtain ⟨s₀, hinit, h₀⟩ := ttysInit_matches fun _ => ⟨0x00, 0x00⟩
  have hrun : (do
      let layout ← keyboardInit
      let s ← ttysInit (some fun _ => ⟨0x00, 0x00⟩) layout
      consoleRun [] s) = .ok s₀ := by
    rw [← bind_assoc, hinit, ok_bind]
    rfl
  have hsecond := h₀.terminal ⟨1, by decide⟩
  have hclosed : s₀.ttys ⟨1, by decide⟩ = none := by
    cases htty : s₀.ttys ⟨1, by decide⟩ with
    | none => rfl
    | some t =>
      rw [htty] at hsecond
      cases hsecond
  obtain ⟨t, t', t₁, s', htty, hprint, hload, hkept, -⟩ :=
    opening_prints_before _ (fun _ => ⟨0x00, 0x00⟩) [] hrun hclosed
  exact ⟨s₀, t, t', s', hrun, htty, hprint, hload, hkept⟩

end Kfs.Drivers
