import Kfs.Kernel.Panic
import Mathlib.Logic.Function.Basic

/-!
# Terminals

`src/drivers/tty/tty.c` and what prints to a terminal in `src/drivers/vga/vga.c`. A terminal keeps
256 lines in a ring; `top_line_index`, which counts modulo 256, says which 25 of them are on the
screen. In history mode it is moved up and down while the live position is saved.

`tty_load` allocates the framebuffer of a terminal, or panics, before anything is printed to it, so
the `NULL` checks do not appear. Every access to the framebuffer is checked and faults outside it.
-/

namespace Kfs.Drivers

def vgaWidth : ℕ := 80 -- VGA_WIDTH
def vgaHeight : ℕ := 25 -- VGA_HEIGHT
def ttyHistSize : ℕ := 256 -- TTY_HIST_SIZE
def maxCmdLen : ℕ := 256 -- MAX_CMD_LEN

/-- `struct vga_entry`. -/
structure VgaEntry where
  character : UInt8
  mode : UInt8
  deriving DecidableEq, Repr

/-- `struct s_cursor`. -/
structure Cursor where
  x : UInt8
  y : UInt8
  deriving DecidableEq, Repr

/-- `struct tty_history`. -/
structure TtyHistory where
  status : Bool
  stopScroll : Bool
  topLineSave : UInt32
  deriving DecidableEq, Repr

/-- `struct tty`. -/
structure Tty where
  framebuffer : ℕ → VgaEntry
  topLineIndex : UInt8
  history : TtyHistory
  cursor : Cursor
  mode : UInt8
  cli : Vector UInt8 maxCmdLen

/-- `cursor.x = x; cursor.y = y;` -/
def Tty.moveTo (t : Tty) (x y : UInt8) : Tty :=
  { t with cursor := ⟨x, y⟩ }

/-- `tty->framebuffer[offset] = entry`. -/
def Tty.store (t : Tty) (offset : ℕ) (entry : VgaEntry) : Kern Tty :=
  if offset < vgaWidth * ttyHistSize then
    .ok { t with framebuffer := Function.update t.framebuffer offset entry }
  else .error .fault

/-- `tty->framebuffer[offset]`. -/
def Tty.load (t : Tty) (offset : ℕ) : Kern VgaEntry :=
  if offset < vgaWidth * ttyHistSize then .ok (t.framebuffer offset) else .error .fault

/-! ## History mode -/

/-- `tty_history_enable`. -/
def ttyHistoryEnable (t : Tty) : Tty :=
  { t with history := { t.history with
      status := true
      topLineSave := t.topLineIndex.toUInt32 } }

/-- `tty_history_disable`. -/
def ttyHistoryDisable (t : Tty) : Tty :=
  { t with
    history := { t.history with status := false }
    topLineIndex := t.history.topLineSave.toUInt8 }

/-- `tty_history_scroll_up`. -/
def ttyHistoryScrollUp (t : Tty) : Tty :=
  if !t.history.status then t
  else
    -- `stop_scroll` holds until the ring has wrapped for the first time.
    let oldestLine := if t.history.stopScroll then 0 else t.history.topLineSave.toUInt8 + 1
    if t.topLineIndex = oldestLine then t else { t with topLineIndex := t.topLineIndex - 1 }

/-- `tty_history_scroll_down`. -/
def ttyHistoryScrollDown (t : Tty) : Tty :=
  if !t.history.status then t
  else
    -- The row of the cursor in the live window and in the one that is shown.
    let realY := t.history.topLineSave.toUInt8 + t.cursor.y
    let curY := t.topLineIndex + t.cursor.y
    if realY = curY then t else { t with topLineIndex := t.topLineIndex + 1 }

/-! ## Framebuffer -/

/-- `tty_framebuffer_scroll_down`. -/
def ttyFramebufferScrollDown (t : Tty) : Kern Tty :=
  let t := { t with topLineIndex := t.topLineIndex + 1 }
  -- The index has wrapped.
  let t := if t.topLineIndex = 0 then { t with history := { t.history with stopScroll := false } }
    else t
  let bottomLine := t.topLineIndex + 24 -- VGA_HEIGHT - 1
  (List.range vgaWidth).foldlM
    (fun t' x => t'.store (bottomLine.toNat * vgaWidth + x) ⟨0x00, t'.mode⟩) t

/-- The start of `tty_framebuffer_write`: output ends history mode. -/
def leaveHistory (t : Tty) : Tty :=
  if t.history.status then ttyHistoryDisable t else t

/-- `tty_framebuffer_write`. -/
def ttyFramebufferWrite (c : UInt8) (t : Tty) : Kern Tty :=
  let t := leaveHistory t
  let realY := t.topLineIndex + t.cursor.y
  t.store (realY.toNat * vgaWidth + t.cursor.x.toNat) ⟨c, t.mode⟩

/-- `tty_framebuffer_set_screen_mode`. -/
def ttyFramebufferSetScreenMode (mode : UInt8) (t : Tty) : Tty :=
  { t with
    mode := mode
    framebuffer := fun i =>
      if i < vgaWidth * ttyHistSize then { t.framebuffer i with mode := mode }
      else t.framebuffer i }

/-- `tty_framebuffer_clear`. -/
def ttyFramebufferClear (t : Tty) : Tty :=
  { t with
    framebuffer := fun i =>
      if i < vgaWidth * ttyHistSize then ⟨0x00, t.mode⟩ else t.framebuffer i
    topLineIndex := 0
    cursor := ⟨0, 0⟩ }

/-- `tty_init`, with what `kmalloc` has left in the framebuffer, and `tty_framebuffer_init`. -/
def ttyInit (framebuffer : ℕ → VgaEntry) : Tty :=
  let mode : UInt8 := 0x1F -- VGA_DEFAULT_MODE
  ttyFramebufferClear (ttyFramebufferSetScreenMode mode
    { framebuffer := framebuffer
      topLineIndex := 0
      history := ⟨false, true, 0⟩
      cursor := ⟨0, 0⟩
      mode := mode
      cli := Vector.replicate maxCmdLen 0 })

/-- A terminal after `tty_init`, where `kmalloc` has returned zeroed memory. -/
def freshTty : Tty := ttyInit fun _ => ⟨0x00, 0x00⟩

/-! ## Printing -/

/-- `while (cursor.x >= VGA_WIDTH)` of `ft_putchar`; `x` has 8 bits, so there are at most 3 turns. -/
def wrapLoop : ℕ → Tty → Kern Tty
  | 0, _ => .error .fault
  | turns + 1, t =>
    if vgaWidth ≤ t.cursor.x.toNat then
      wrapLoop turns (t.moveTo (t.cursor.x - 80) (t.cursor.y + 1))
    else .ok t

/-- `while (cursor.y >= VGA_HEIGHT)` of `ft_putchar`. -/
def scrollLoop : ℕ → Tty → Kern Tty
  | 0, _ => .error .fault
  | turns + 1, t =>
    if vgaHeight ≤ t.cursor.y.toNat then do
      let t ← ttyFramebufferScrollDown t
      scrollLoop turns (t.moveTo t.cursor.x (t.cursor.y - 1))
    else .ok t

/-- Both loops. -/
def settle (t : Tty) : Kern Tty := do
  let t ← wrapLoop 256 t
  scrollLoop 256 t

/-- `ft_putchar` of a character without a meaning of its own. -/
def putDefault (c : UInt8) (t : Tty) : Kern Tty := do
  let t ← ttyFramebufferWrite c t
  settle (t.moveTo (t.cursor.x + 1) t.cursor.y)

/-- `do { ft_putchar(' '); } while (cursor.x % 4);` -/
def tabLoop : ℕ → Tty → Kern Tty
  | 0, _ => .error .fault
  | turns + 1, t => do
    let t ← putDefault 0x20 t
    if t.cursor.x % 4 ≠ 0 then tabLoop turns t else .ok t

/-- `ft_putchar`. -/
def ftPutchar (c : UInt8) (t : Tty) : Kern Tty :=
  if c = 0x0A then settle (t.moveTo 0 (t.cursor.y + 1)) -- '\n'
  else if c = 0x0D then settle (t.moveTo 0 t.cursor.y) -- '\r'
  else if c = 0x09 then do -- '\t'
    let t ← tabLoop 256 t
    settle t
  else putDefault c t

/-- A string printed by `ft_putchar`. -/
def ftPutstr (str : List UInt8) (t : Tty) : Kern Tty :=
  str.foldlM (fun t' c => ftPutchar c t') t

/-- `vga_refresh_screen`: the rows it copies to the screen and the cursor it shows. -/
def vgaRefreshScreen (t : Tty) : Kern (List (List VgaEntry) × Cursor) := do
  let rows ← (List.range vgaHeight).mapM fun vgaY =>
    let lineBuffer := t.topLineIndex + vgaY.toUInt8
    (List.range vgaWidth).mapM fun x => t.load (lineBuffer.toNat * vgaWidth + x)
  .ok (rows, t.cursor)

end Kfs.Drivers
