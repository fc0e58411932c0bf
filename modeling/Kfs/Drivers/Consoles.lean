import Kfs.Drivers.CommandLine
import Kfs.Drivers.Layout
import Mathlib.Data.Option.Basic

/-!
# The twelve terminals

`ttys`, `current_tty` and `tty_load` of `src/drivers/tty/tty.c`, and the handlers of
`src/drivers/keyboard/keyboard.c` that choose between the terminals or set a flag. A terminal gets
its framebuffer when it is loaded for the first time; the first one is loaded by `ttys_init`, so that
the current terminal always has one.
-/

namespace Kfs.Drivers

open Kfs.Lib Kfs.Utils

/-- `MAX_TTY`. -/
def maxTty : ℕ := 12

/-- `ttys`. -/
def firstTty : Fin maxTty := ⟨0, by decide⟩

/-- The terminals and the keyboard. A terminal without a framebuffer is as `tty_init` has left it. -/
structure Consoles where
  ttys : Fin maxTty → Option Tty
  currentTty : Fin maxTty
  flags : Flag → Bool
  layout : LayoutType × Layout
  /-- `shutdown` has been called. -/
  isOff : Bool

/-- Something is done to the current terminal. -/
def Consoles.onCurrent (f : Tty → Kern Tty) (s : Consoles) : Kern Consoles :=
  match s.ttys s.currentTty with
  | none => .error .fault
  | some t => do
    let t ← f t
    .ok { s with ttys := Function.update s.ttys s.currentTty (some t) }

/-- `vga_refresh_screen` reads the terminal and leaves it alone. -/
def refresh (t : Tty) : Kern Tty := do
  let _ ← vgaRefreshScreen t
  .ok t

/-- `KERNEL_BANNER`. -/
def kernelBanner : List UInt8 :=
  ("\n" ++
   "  /$$   /$$   /$$   /$$               /$$   /$$\n" ++
   " | $$  /$$/ /$$$$  | $$              | $$  / $$\n" ++
   " | $$ /$$/ |_  $$ /$$$$$$    /$$$$$$ |  $$/ $$/\n" ++
   " | $$$$$/    | $$|_  $$_/   /$$__  $$ \\  $$$$/ \n" ++
   " | $$  $$    | $$  | $$    | $$  \\ $$  >$$  $$ \n" ++
   " | $$\\  $$   | $$  | $$ /$$| $$  | $$ /$$/\\  $$\n" ++
   " | $$ \\  $$ /$$$$$$|  $$$$/|  $$$$$$/| $$  \\ $$\n" ++
   " |__/  \\__/|______/ \\___/   \\______/ |__/  |__/\n" ++
   "\n").toList.map Char.toUInt8

def ttyPrompt : List UInt8 := [0x24, 0x3E, 0x20] -- TTY_PROMPT

/-- `tty_load(ttys + i)`, with what `kmalloc` answers to a request for a framebuffer. -/
def ttyLoad (framebuffer : Option (ℕ → VgaEntry)) (i : ℕ) (s : Consoles) : Kern Consoles :=
  if h : i < maxTty then do
    let s ← match s.ttys ⟨i, h⟩ with
      | some _ => .ok s
      | none =>
        match framebuffer with
        | none => .error (.kpanic "No space left to init ttys.")
        | some framebuffer => do
          let s := { s with ttys := Function.update s.ttys ⟨i, h⟩ (some (ttyInit framebuffer)) }
          -- `current_tty` is still the terminal that is left.
          let s ← s.onCurrent (vgaPrintf kernelBanner)
          s.onCurrent (vgaPrintf ttyPrompt)
    let s := { s with currentTty := ⟨i, h⟩ }
    s.onCurrent refresh
  else .error .fault

/-- `ttys_init`, with the keyboard as `keyboard_init` has left it. -/
def ttysInit (framebuffer : Option (ℕ → VgaEntry)) (layout : Layout) : Kern Consoles :=
  ttyLoad framebuffer 0
    { ttys := fun _ => none
      currentTty := firstTty
      flags := fun _ => false
      layout := (.qwerty, layout)
      isOff := false }

/-! ## Keys -/

/-- The flags that the handlers of `Keyboard` look at. -/
def keyFlags (flags : Flag → Bool) : KeyFlags :=
  ⟨flags .leftCtrl, flags .leftShift, flags .rightShift, flags .capsLock, flags .numLock⟩

/-- The key as the handlers of `Keyboard` see it. Only a navigation key is asked for its flag
there. -/
def TableKey.toKey (key : TableKey) : KeyboardKey where
  value := key.value
  altValue := key.altValue
  category := key.category
  undergroup := if key.undergroup = .numPad then .numPad else .other
  statePtr := key.statePtr.bind fun flag =>
    match flag with
    | .leftCtrl => some .leftCtrl
    | .leftShift => some .leftShift
    | .rightShift => some .rightShift
    | .capsLock => some .capsLock
    | .numLock => some .numLock
    | .leftAlt => none
    | .scrollLock => none

/-- `keyboard_toggle_handler`. -/
def keyboardToggleHandler (key : TableKey) (flags : Flag → Bool) : Flag → Bool :=
  match key.statePtr with
  | some flag => Function.update flags flag (!flags flag)
  | none => flags

/-- `keyboard_press_handler`. -/
def keyboardPressHandler (key : TableKey) (flags : Flag → Bool) : Flag → Bool :=
  match key.statePtr with
  | some flag => if flags flag = false then Function.update flags flag true else flags
  | none => flags

/-- `keyboard_release_handler`. -/
def keyboardReleaseHandler (key : TableKey) (flags : Flag → Bool) : Flag → Bool :=
  match key.statePtr with
  | some flag => if flags flag = true then Function.update flags flag false else flags
  | none => flags

/-- What the keyboard controller, the allocator and the shell answer during an interrupt. -/
structure KeyIrq where
  status : UInt8
  data : UInt8
  framebuffer : Option (ℕ → VgaEntry)
  kmalloc : ℕ → Bool
  shell : List Slot → ShellReply

/-- The call of a handler. -/
def runHandler (irq : KeyIrq) (key : TableKey) (s : Consoles) : KeyHandler → Kern Consoles
  | .printable => s.onCurrent (keyboardPrintableHandler (keyFlags s.flags) key.toKey)
  | .navigation => s.onCurrent (keyboardNavigationHandler (keyFlags s.flags) key.toKey)
  | .backspace => s.onCurrent keyboardBackspaceHandler
  | .enter => s.onCurrent (ttyCliHandleNl irq.kmalloc irq.shell)
  | .press => .ok { s with flags := keyboardPressHandler key s.flags }
  | .release => .ok { s with flags := keyboardReleaseHandler key s.flags }
  | .toggle => .ok { s with flags := keyboardToggleHandler key s.flags }
  | .function => ttyLoad irq.framebuffer key.value.toNat s
  | .escape => .ok { s with isOff := true }

/-- `keyboard_handle`. -/
def keyboardHandle (irq : KeyIrq) (s : Consoles) : Kern Consoles := do
  let s ← if irq.status &&& 0x01 ≠ 0 then
      match (s.layout.2 irq.data).handler with
      | some handler => runHandler irq (s.layout.2 irq.data).key s handler
      | none => .ok s
    else .ok s
  if s.isOff then .ok s else s.onCurrent refresh

/-! ## Events -/

/-- What happens to the terminals: an interrupt of the keyboard, output of the kernel, and a switch
of the layout. -/
inductive ConsoleEvent where
  | irq (irq : KeyIrq)
  | print (text : List UInt8)
  | switchLayout (newLayout : LayoutType)

/-- An event. Nothing happens after `shutdown`. -/
def consoleStep (s : Consoles) : ConsoleEvent → Kern Consoles
  | e =>
    if s.isOff then .ok s
    else
      match e with
      | .irq irq => keyboardHandle irq s
      | .print text => s.onCurrent (vgaPrintf text)
      | .switchLayout newLayout => do
        let layout ← keyboardSwitchLayout newLayout s.layout
        .ok { s with layout := layout }

/-- Events one after the other. -/
def consoleRun (es : List ConsoleEvent) (s : Consoles) : Kern Consoles := es.foldlM consoleStep s

end Kfs.Drivers
