import Kfs.Drivers.TtySpec

/-!
# An ideal terminal

A terminal prints on an endless sheet of lines; its screen is the last 25 of them. The ring of 256
lines of `struct tty` shows the same screen, whatever is printed and wherever in the ring it starts.

## Layers

- `Terminal`: the ideal terminal;
- `Shows`: the ring holds the last 256 lines of the sheet;
- `Shows.write`, `Shows.scroll`, `Shows.feed`: what one step preserves;
- `Shows.print`: what a whole string preserves.
-/

namespace Kfs.Drivers

/-- The lines ever printed, how many of them have scrolled off the screen, and the cursor. -/
structure Terminal where
  line : ℕ → ℕ → VgaEntry
  top : ℕ
  x : ℕ
  y : ℕ

namespace Terminal

variable {s : Terminal} {mode c : UInt8}

/-- What is on the screen. -/
def cell (s : Terminal) (y x : ℕ) : VgaEntry := s.line (s.top + y) x

/-- The 25 rows of the screen. -/
def screen (s : Terminal) : List (List VgaEntry) :=
  (List.range vgaHeight).map fun y => (List.range vgaWidth).map fun x => s.cell y x

/-- A blank screen. -/
def blank (mode : UInt8) (x y : ℕ) : Terminal := ⟨fun _ _ => ⟨0x00, mode⟩, 0, x, y⟩

/-- A character at the cursor. -/
def write (e : VgaEntry) (s : Terminal) : Terminal :=
  { s with line := fun n k => if n = s.top + s.y ∧ k = s.x then e else s.line n k }

/-- The screen moves up by one line, with a blank line at the bottom. -/
def scroll (mode : UInt8) (s : Terminal) : Terminal :=
  { s with
    top := s.top + 1
    line := fun n k => if n = s.top + vgaHeight then ⟨0x00, mode⟩ else s.line n k }

/-- To the start of the next line. -/
def lineDown (mode : UInt8) (s : Terminal) : Terminal :=
  if s.y + 1 = vgaHeight then { s.scroll mode with x := 0 } else { s with x := 0, y := s.y + 1 }

/-- To the next column, which may be in the next line. -/
def advance (mode : UInt8) (s : Terminal) : Terminal :=
  if s.x + 1 = vgaWidth then s.lineDown mode else { s with x := s.x + 1 }

/-- A character is printed. -/
def put (mode c : UInt8) (s : Terminal) : Terminal := (s.write ⟨c, mode⟩).advance mode

/-- Newline, carriage return, tabulator and the characters without a meaning of their own. -/
def feed (mode c : UInt8) (s : Terminal) : Terminal :=
  if c = 0x0A then s.lineDown mode
  else if c = 0x0D then { s with x := 0 }
  else if c = 0x09 then (put mode 0x20)^[4 - s.x % 4] s
  else s.put mode c

/-- A string is printed. -/
def print (mode : UInt8) (str : List UInt8) (s : Terminal) : Terminal :=
  str.foldl (fun s' c => s'.feed mode c) s

/-- Scrolling moves the rows of the screen up by one. -/
theorem cell_scroll (s : Terminal) (mode : UInt8) (y x : ℕ) :
    (s.scroll mode).cell y x = if y + 1 = vgaHeight then ⟨0x00, mode⟩ else s.cell (y + 1) x := by
  unfold scroll cell
  dsimp only
  by_cases hlast : y + 1 = vgaHeight
  · rw [if_pos hlast, if_pos (by omega)]
  · rw [if_neg hlast, if_neg (by omega), Nat.add_assoc, Nat.add_comm 1 y]

end Terminal

/-! ## The ring -/

/-- The terminal shows the screen of the ideal one, and its ring, in which line 0 is at the row
`base`, holds the last 256 lines. -/
structure Shows (base : ℕ) (stop : Bool) (mode : UInt8) (t : Tty) (s : Terminal) : Prop where
  top : t.topLineIndex.toNat = (base + s.top) % 256
  x : t.cursor.x.toNat = s.x
  y : t.cursor.y.toNat = s.y
  x_lt : s.x < 80
  y_lt : s.y < 25
  mode : t.mode = mode
  live : t.history.status = false
  flag : t.history.stopScroll = (stop && decide (base + s.top < 256))
  kept : ∀ n k, n ≤ s.top + 24 → s.top + 24 < n + 256 → k < 80 →
    t.framebuffer ((base + n) % 256 * 80 + k) = s.line n k

namespace Shows

variable {base : ℕ} {stop : Bool} {mode c : UInt8} {t : Tty} {s : Terminal}

theorem inScreen (h : Shows base stop mode t s) : t.InScreen :=
  ⟨by rw [h.x]; exact h.x_lt, by rw [h.y]; exact h.y_lt⟩

/-- The cursor moves on the screen. -/
theorem moveTo (h : Shows base stop mode t s) {x y : UInt8} (hx : x.toNat < 80)
    (hy : y.toNat < 25) :
    Shows base stop mode (t.moveTo x y) { s with x := x.toNat, y := y.toNat } where
  top := h.top
  x := rfl
  y := rfl
  x_lt := hx
  y_lt := hy
  mode := h.mode
  live := h.live
  flag := h.flag
  kept := h.kept

theorem write (h : Shows base stop mode t s) :
    Shows base stop mode (t.wrote c) (s.write ⟨c, mode⟩) := by
  have hlive : leaveHistory t = t := if_neg (by rw [h.live]; decide)
  -- The cell of the cursor, by the line of the sheet that its row holds.
  have hoffset : t.cursorOffset = (base + (s.top + s.y)) % 256 * 80 + s.x := by
    have hy := h.y_lt
    simp only [Tty.cursorOffset, vgaWidth, UInt8.toNat_add, h.top, h.x, h.y]
    omega
  unfold Tty.wrote
  rw [hlive]
  refine { h with kept := fun n k hn hn' hk => ?_ }
  have hx := h.x_lt
  have hy := h.y_lt
  -- A line of the ring is the line of the cursor only where it is in the same row of the ring.
  dsimp only [Terminal.write]
  rw [hoffset, h.mode]
  dsimp only [Terminal.write] at hn hn'
  by_cases hat : n = s.top + s.y ∧ k = s.x
  · rw [if_pos hat, hat.1, hat.2, Function.update_self]
  · rw [if_neg hat, Function.update_of_ne (by omega)]
    exact h.kept n k hn hn' hk

/-- The row that `tty_framebuffer_scroll_down` clears held the oldest line, or none. -/
theorem scroll (h : Shows base stop mode t s) :
    Shows base stop mode t.scrolledDown (s.scroll mode) := by
  have htop : (t.topLineIndex + 1).toNat = (base + (s.top + 1)) % 256 := by
    rw [UInt8.toNat_add, h.top]
    show ((base + s.top) % 256 + 1) % 256 = _
    omega
  have hbottom : (t.topLineIndex + 1 + 24).toNat = (base + (s.top + 25)) % 256 := by
    rw [UInt8.toNat_add, htop]
    show ((base + (s.top + 1)) % 256 + 24) % 256 = _
    omega
  refine { h with top := htop, flag := ?_, kept := fun n k hn hn' hk => ?_ }
  · -- `stop_scroll` is cleared just when the index wraps.
    show (if t.topLineIndex + 1 = 0 then false else t.history.stopScroll) =
      (stop && decide (base + (s.top + 1) < 256))
    by_cases hzero : t.topLineIndex + 1 = 0
    · have hwrap : (base + (s.top + 1)) % 256 = 0 := by
        rw [← htop, hzero]
        rfl
      have hge : ¬ base + (s.top + 1) < 256 := by omega
      rw [if_pos hzero, decide_eq_false hge, Bool.and_false]
    · have hwrap : (base + (s.top + 1)) % 256 ≠ 0 := by
        rw [← htop]
        exact fun h0 => hzero (UInt8.toNat_inj.mp h0)
      have hiff : base + (s.top + 1) < 256 ↔ base + s.top < 256 := by omega
      rw [if_neg hzero, h.flag, decide_eq_decide.mpr hiff]
  · show (if (t.topLineIndex + 1 + 24).toNat * 80 ≤ (base + n) % 256 * 80 + k ∧
        (base + n) % 256 * 80 + k < (t.topLineIndex + 1 + 24).toNat * 80 + 80 then ⟨0x00, t.mode⟩
      else t.framebuffer ((base + n) % 256 * 80 + k)) =
        if n = s.top + 25 then ⟨0x00, mode⟩ else s.line n k
    have hn25 : n ≤ s.top + 25 := by
      have hdef : n ≤ s.top + 1 + 24 := hn
      omega
    have hn256 : s.top + 25 < n + 256 := by
      have hdef : s.top + 1 + 24 < n + 256 := hn'
      omega
    -- Of the lines that are kept only the new one is in the row that was cleared.
    rw [hbottom, h.mode]
    by_cases hlast : n = s.top + 25
    · rw [if_pos hlast, if_pos]
      subst hlast
      omega
    · rw [if_neg hlast, if_neg (by omega)]
      exact h.kept n k (by omega) (by omega) hk

theorem lineDown (h : Shows base stop mode t s) :
    Shows base stop mode t.lineDown (s.lineDown mode) := by
  unfold Tty.lineDown Terminal.lineDown
  by_cases hlast : t.cursor.y = 24
  · have hy : s.y = 24 := by
      rw [← h.y, hlast]
      rfl
    rw [if_pos hlast, if_pos (by rw [hy]; rfl)]
    have hscroll := h.scroll.moveTo (x := 0) (y := 24) (by decide) (by decide)
    have hsame : (24 : UInt8).toNat = (s.scroll mode).y := hy.symm
    rw [hsame] at hscroll
    exact hscroll
  · have hy : s.y ≠ 24 := by
      rw [← h.y]
      exact fun h24 => hlast (UInt8.toNat_inj.mp h24)
    have hlt := h.y_lt
    have hsucc : (t.cursor.y + 1).toNat = s.y + 1 := by
      rw [toNat_succ (by rw [h.y]; omega), h.y]
    rw [if_neg hlast, if_neg (by simp only [vgaHeight]; omega)]
    have hmove := h.moveTo (x := 0) (y := t.cursor.y + 1) (by decide) (by omega)
    rw [hsucc] at hmove
    exact hmove

theorem advance (h : Shows base stop mode t s) :
    Shows base stop mode t.advance (s.advance mode) := by
  unfold Tty.advance Terminal.advance
  by_cases hlast : t.cursor.x = 79
  · have hx : s.x = 79 := by
      rw [← h.x, hlast]
      rfl
    rw [if_pos hlast, if_pos (by rw [hx]; rfl)]
    exact h.lineDown
  · have hx : s.x ≠ 79 := by
      rw [← h.x]
      exact fun h79 => hlast (UInt8.toNat_inj.mp h79)
    have hlt := h.x_lt
    have hsucc : (t.cursor.x + 1).toNat = s.x + 1 := by
      rw [toNat_succ (by rw [h.x]; omega), h.x]
    rw [if_neg hlast, if_neg (by simp only [vgaWidth]; omega)]
    have hylt := h.y_lt
    have hmove := h.moveTo (x := t.cursor.x + 1) (y := t.cursor.y) (by omega) (by rw [h.y]; omega)
    rw [hsucc, h.y] at hmove
    exact hmove

theorem put (h : Shows base stop mode t s) (c : UInt8) :
    Shows base stop mode (t.put c) (s.put mode c) :=
  h.write.advance

theorem iterate_put (h : Shows base stop mode t s) (c : UInt8) (n : ℕ) :
    Shows base stop mode ((Tty.put c)^[n] t) ((Terminal.put mode c)^[n] s) := by
  induction n generalizing t s with
  | zero => exact h
  | succ n ih => exact ih (h.put c)

/-- **Step**: a character. -/
theorem feed (h : Shows base stop mode t s) (c : UInt8) :
    Shows base stop mode (t.fed c) (s.feed mode c) := by
  unfold Tty.fed Terminal.feed
  split
  · exact h.lineDown
  split
  · have hlt := h.y_lt
    have hmove := h.moveTo (x := 0) (y := t.cursor.y) (by decide) (by rw [h.y]; omega)
    rw [h.y] at hmove
    exact hmove
  split
  · rw [h.x]
    exact h.iterate_put 0x20 _
  · exact h.put c

/-- **Run**: a string. -/
theorem print (h : Shows base stop mode t s) (str : List UInt8) :
    ∃ t', ftPutstr str t = .ok t' ∧ Shows base stop mode t' (s.print mode str) := by
  refine ⟨_, (ftPutstr_eq str h.inScreen).1, ?_⟩
  unfold Terminal.print
  induction str generalizing t s with
  | nil => exact h
  | cons c str ih => exact ih (h.feed c)

/-- The window that starts `k` lines above the live one shows lines of the sheet, as long as these
are still in the ring. -/
theorem window (h : Shows base stop mode t s) {k : ℕ} (hk : k ≤ s.top) (hring : k < 232)
    {y x : ℕ} (hy : y < 25) (hx : x < 80) :
    t.framebuffer ((base + (s.top - k) + y) % 256 * 80 + x) = s.line (s.top - k + y) x := by
  rw [Nat.add_assoc]
  exact h.kept (s.top - k + y) x (by omega) (by omega) hx

theorem cell (h : Shows base stop mode t s) {y x : ℕ} (hy : y < 25) (hx : x < 80) :
    t.screenCell y x = s.cell y x := by
  have hrow : (t.topLineIndex + y.toUInt8).toNat = (base + (s.top - 0) + y) % 256 := by
    rw [UInt8.toNat_add, h.top]
    show ((base + s.top) % 256 + y % 256) % 256 = _
    omega
  unfold Tty.screenCell
  rw [hrow]
  exact h.window (Nat.zero_le _) (by decide) hy hx

theorem screen (h : Shows base stop mode t s) :
    vgaRefreshScreen t = .ok (s.screen, ⟨s.x.toUInt8, s.y.toUInt8⟩) := by
  have hrows : ((List.range vgaHeight).map fun y => (List.range vgaWidth).map fun x =>
      t.screenCell y x) = s.screen := by
    apply List.map_congr_left
    intro y hy
    apply List.map_congr_left
    intro x hx
    exact h.cell (List.mem_range.mp hy) (List.mem_range.mp hx)
  have hcursor : t.cursor = ⟨s.x.toUInt8, s.y.toUInt8⟩ := by
    rw [← h.x, ← h.y]
    simp
  rw [vgaRefreshScreen_eq, hrows, hcursor]

end Shows

/-- A cleared framebuffer shows a blank screen, wherever the ring starts. -/
theorem shows_blank {t : Tty} (hclear : ∀ i < vgaWidth * ttyHistSize, t.framebuffer i = ⟨0x00, t.mode⟩)
    (hlive : t.history.status = false) (hcursor : t.InScreen) :
    Shows t.topLineIndex.toNat t.history.stopScroll t.mode t
      (Terminal.blank t.mode t.cursor.x.toNat t.cursor.y.toNat) where
  top := (Nat.mod_eq_of_lt (UInt8.toNat_lt _)).symm
  x := rfl
  y := rfl
  x_lt := hcursor.1
  y_lt := hcursor.2
  mode := rfl
  live := hlive
  flag := by
    have hlt : t.topLineIndex.toNat + 0 < 256 := UInt8.toNat_lt _
    exact ((congrArg _ (decide_eq_true hlt)).trans (Bool.and_true _)).symm
  kept n k _ _ hk := by
    apply hclear
    simp only [vgaWidth, ttyHistSize]
    omega

/-- **The console refines an ideal terminal.** On a terminal that is not in history mode, with a
cleared framebuffer and any `top_line_index`, every string is printed inside the framebuffer, with
the cursor on the screen, and the screen and the cursor are those of the ideal terminal. -/
theorem console_refines (t : Tty) (str : List UInt8)
    (hclear : ∀ i < vgaWidth * ttyHistSize, t.framebuffer i = ⟨0x00, t.mode⟩)
    (hlive : t.history.status = false) (hcursor : t.InScreen) :
    ∃ t', ftPutstr str t = .ok t' ∧ t'.InScreen ∧
      let s := (Terminal.blank t.mode t.cursor.x.toNat t.cursor.y.toNat).print t.mode str
      vgaRefreshScreen t' = .ok (s.screen, ⟨s.x.toUInt8, s.y.toUInt8⟩) ∧
        t'.cursor.x.toNat = s.x ∧ t'.cursor.y.toNat = s.y := by
  obtain ⟨t', hprint, h'⟩ := (shows_blank hclear hlive hcursor).print str
  exact ⟨t', hprint, h'.inScreen, h'.screen, h'.x, h'.y⟩

/-- A cleared terminal whose ring starts shortly before the place where the index wraps. -/
def clearedTty : Tty where
  framebuffer _ := ⟨0x00, 0x1F⟩
  topLineIndex := 250
  history := ⟨false, true, 0⟩
  cursor := ⟨0, 0⟩
  mode := 0x1F
  cli := Vector.replicate maxCmdLen 0

/-- Thirty lines of one letter each. -/
def letters : List UInt8 := (List.range 30).flatMap fun i => [0x41 + i.toUInt8, 0x0A]

/-- The six lines that scroll off the screen take the index over the place where it wraps: the seventh
letter is the first one on the screen. -/
theorem console_refines_clearedTty :
    ∃ t' rows, ftPutstr letters clearedTty = .ok t' ∧ t'.topLineIndex = 0 ∧
      vgaRefreshScreen t' = .ok (rows, ⟨0, 24⟩) ∧
      (rows.head?.bind List.head?) = some ⟨0x47, 0x1F⟩ := by
  obtain ⟨t', hprint, -, hscreen, hx, hy⟩ := console_refines clearedTty letters
    (fun _ _ => rfl) rfl ⟨by decide, by decide⟩
  have hcursor : ((Terminal.blank 0x1F 0 0).print 0x1F letters).x = 0 ∧
      ((Terminal.blank 0x1F 0 0).print 0x1F letters).y = 24 := by
    decide +kernel
  have hcell : ((Terminal.blank 0x1F 0 0).print 0x1F letters).screen.head?.bind List.head? =
      some ⟨0x47, 0x1F⟩ := by
    decide +kernel
  have hindex : (ftPutstr letters clearedTty).toOption.map (fun t => t.topLineIndex) = some 0 := by
    decide
  rw [hprint] at hindex
  refine ⟨t', _, hprint, Option.some.inj hindex, ?_, hcell⟩
  have hat : (⟨((Terminal.blank 0x1F 0 0).print 0x1F letters).x.toUInt8,
      ((Terminal.blank 0x1F 0 0).print 0x1F letters).y.toUInt8⟩ : Cursor) = ⟨0, 24⟩ := by
    rw [hcursor.1, hcursor.2]
    rfl
  rw [← hat]
  exact hscreen

end Kfs.Drivers
