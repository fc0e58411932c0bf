import Kfs.Drivers.TtySpec
import Kfs.Utils.FtSplit

/-!
# The keyboard

The handlers of `src/drivers/keyboard/keyboard.c` that write to the current terminal, and
`tty_cli_handle_nl`, which runs the command line. A key carries the pointer to the flag that its
handler looks at; the flags are those of `layout.h`.
-/

namespace Kfs.Drivers

open Kfs.Lib Kfs.Utils

/-! ## Keys -/

/-- `enum key_category`. -/
inductive KeyCategory where
  | alphanumeric
  | control
  | navigation
  | function
  | special
  deriving DecidableEq, Repr

/-- `enum key_undergroup`, as far as the handlers tell its values apart. -/
inductive KeyUndergroup where
  | numPad
  | other
  deriving DecidableEq, Repr

/-- The flags that a key may point to. -/
inductive KeyFlag where
  | leftCtrl
  | leftShift
  | rightShift
  | capsLock
  | numLock
  deriving DecidableEq, Repr

/-- The flags of `layout.h`. -/
structure KeyFlags where
  leftCtrl : Bool
  leftShift : Bool
  rightShift : Bool
  capsLock : Bool
  numLock : Bool
  deriving DecidableEq, Repr

/-- `*flag`. -/
def KeyFlags.get (flags : KeyFlags) : KeyFlag → Bool
  | .leftCtrl => flags.leftCtrl
  | .leftShift => flags.leftShift
  | .rightShift => flags.rightShift
  | .capsLock => flags.capsLock
  | .numLock => flags.numLock

/-- `struct keyboard_key`. -/
structure KeyboardKey where
  value : UInt16
  altValue : UInt16
  category : KeyCategory
  undergroup : KeyUndergroup
  statePtr : Option KeyFlag
  deriving DecidableEq, Repr

def colorUp : UInt16 := 0xA4 -- COLOR_UP
def colorPgup : UInt16 := 0x4D -- COLOR_PGUP
def colorDown : UInt16 := 0x10 -- COLOR_DOWN
def colorPgdn : UInt16 := 0x5E -- COLOR_PGDN

/-- `keyboard_get_shifted_value`. -/
def keyboardGetShiftedValue (flags : KeyFlags) (key : KeyboardKey) : UInt8 :=
  let shift := flags.leftShift || flags.rightShift
  if key.category = .alphanumeric then
    (if flags.capsLock || shift then key.altValue else key.value).toUInt8
  else if key.category = .navigation ∧ key.undergroup = .numPad ∧ flags.numLock then
    key.altValue.toUInt8
  else key.value.toUInt8

/-! ## Handlers -/

/-- `tty->cli[i] = c`. -/
def Tty.storeCli (t : Tty) (i : ℕ) (c : UInt8) : Kern Tty :=
  if h : i < maxCmdLen then .ok { t with cli := t.cli.set i c h } else .error .fault

/-- `vga_printf` of a text without `%`, or of `"%c"` or `"%s"`: the text is printed and the screen
refreshed. -/
def vgaPrintf (text : List UInt8) (t : Tty) : Kern Tty := do
  let t ← ftPutstr text t
  let _ ← vgaRefreshScreen t
  .ok t

/-- Refreshing the screen does not fault. -/
theorem vgaPrintf_eq (text : List UInt8) (t : Tty) : vgaPrintf text t = ftPutstr text t := by
  unfold vgaPrintf
  cases ftPutstr text t with
  | error e => rfl
  | ok t' =>
    rw [ok_bind, vgaRefreshScreen_eq]
    rfl

theorem Printed.printf (text : List UInt8) : Printed.By (vgaPrintf text) := by
  intro t
  rw [vgaPrintf_eq]
  exact Printed.putstr text t

/-- `keyboard_printable_handler`. -/
def keyboardPrintableHandler (flags : KeyFlags) (key : KeyboardKey) (t : Tty) : Kern Tty := do
  let ascii := keyboardGetShiftedValue flags key
  let cmdLen ← ftStrlen t.cli.toList
  -- Only the place of the character is checked, not the one of the null byte behind it.
  let t ← if cmdLen < maxCmdLen then do
      let t ← t.storeCli cmdLen ascii
      t.storeCli (cmdLen + 1) 0
    else .ok t
  vgaPrintf [ascii] t

/-- `keyboard_navigation_handler`. -/
def keyboardNavigationHandler (flags : KeyFlags) (key : KeyboardKey) (t : Tty) : Kern Tty :=
  -- The position is saved again where history mode is active already.
  let t := if key.value = colorPgup ∨ (key.value = colorUp ∧ flags.leftCtrl) then
      ttyHistoryEnable t
    else t
  if t.history.status then
    if key.value = colorPgup ∨ key.value = colorUp then .ok (ttyHistoryScrollUp t)
    else if key.value = colorPgdn ∨ key.value = colorDown then .ok (ttyHistoryScrollDown t)
    else .ok t
  else
    match key.statePtr with
    | none => .error .fault
    | some flag =>
      if !flags.get flag then .ok (ttyFramebufferSetScreenMode key.value.toUInt8 t)
      else keyboardPrintableHandler flags key t

/-- `keyboard_backspace_handler`. -/
def keyboardBackspaceHandler (t : Tty) : Kern Tty := do
  let len ← ftStrlen t.cli.toList
  if len = 0 then .ok t
  else
    let t ← t.storeCli (len - 1) 0
    -- At the start of a line the cursor goes to the end of the one above.
    let t :=
      if t.cursor.x = 0 then
        if 0 < t.cursor.y then t.moveTo 79 (t.cursor.y - 1) else t -- VGA_WIDTH - 1
      else t.moveTo (t.cursor.x - 1) t.cursor.y
    let realY := t.topLineIndex + t.cursor.y
    let offset := realY.toNat * vgaWidth + t.cursor.x.toNat
    let entry ← t.load offset
    t.store offset { entry with character := 0 }

/-! ## Running a command -/

/-- What a command of the shell does to the terminal, or the message that there is no such command:
`clear` clears it, the others print. No command writes to `cli`. -/
structure ShellReply where
  clears : Bool
  output : List UInt8
  deriving DecidableEq, Repr

/-- `tty_cli_handle_nl`, where `kmalloc` says which requests are granted and `shell` what the
command does. -/
def ttyCliHandleNl (kmalloc : ℕ → Bool) (shell : List Slot → ShellReply) (t : Tty) : Kern Tty := do
  let t ← vgaPrintf [0x0A] t
  let first ← loadByte t.cli.toList
  -- An empty line runs nothing and leaves `cli` alone.
  let t ← if first ≠ 0 then do
      let argv ← ftSplit kmalloc (some t.cli.toList) 0x20
      let t ← match argv with
        | some (some name :: args) => do
          let reply := shell (some name :: args)
          vgaPrintf reply.output (if reply.clears then ttyFramebufferClear t else t)
        | _ => .ok t
      .ok { t with cli := Vector.replicate maxCmdLen 0 }
    else .ok t
  vgaPrintf [0x24, 0x3E, 0x20] t -- TTY_PROMPT

end Kfs.Drivers
