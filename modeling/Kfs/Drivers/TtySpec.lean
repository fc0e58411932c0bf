import Kfs.Drivers.Tty
import Kfs.Lib.Outcome
import Mathlib.Data.List.Range
import Mathlib.Logic.Function.Iterate

/-!
# What printing a character does

The loops of `ft_putchar` in closed form, for a cursor that is on the screen: `lineDown` goes to the
start of the next line and scrolls where there is none, `advance` goes to the next column, `fed` is
the terminal after one character. What printing leaves alone does not need the cursor.
-/

namespace Kfs.Drivers

open Kfs.Lib

variable {t : Tty} {c : UInt8}

/-- The cursor is on the screen. -/
def Tty.InScreen (t : Tty) : Prop :=
  t.cursor.x.toNat < vgaWidth ∧ t.cursor.y.toNat < vgaHeight

/-! ## Scrolling -/

/-- A row of the framebuffer has been filled from the left. -/
def Tty.fillRow (t : Tty) (row n : ℕ) : Tty :=
  { t with framebuffer := fun i =>
      if row * vgaWidth ≤ i ∧ i < row * vgaWidth + n then ⟨0x00, t.mode⟩ else t.framebuffer i }

/-- The loop of `tty_framebuffer_scroll_down` stays inside the framebuffer. -/
theorem fillRow_loop (t : Tty) {row : ℕ} (hrow : row < ttyHistSize) {n : ℕ} (hn : n ≤ vgaWidth) :
    (List.range n).foldlM (fun t' x => t'.store (row * vgaWidth + x) ⟨0x00, t'.mode⟩) t =
      .ok (t.fillRow row n) := by
  -- The induction is on the cells that have been cleared; each of them is inside the framebuffer.
  induction n with
  | zero =>
    have hempty : t.fillRow row 0 = t := by
      unfold Tty.fillRow
      congr 1
      funext i
      exact if_neg (by omega)
    rw [hempty]
    rfl
  | succ n ih =>
    have hlt : row * vgaWidth + n < vgaWidth * ttyHistSize := by
      simp only [vgaWidth, ttyHistSize] at *
      omega
    rw [List.range_succ, List.foldlM_append, ih (by omega), ok_bind, List.foldlM_cons]
    unfold Tty.store
    rw [if_pos hlt]
    refine congrArg Except.ok ?_
    unfold Tty.fillRow
    congr 1
    funext i
    by_cases hi : i = row * vgaWidth + n
    · subst hi
      rw [Function.update_self, if_pos (by omega)]
    · rw [Function.update_of_ne hi]
      dsimp only
      by_cases hrange : row * vgaWidth ≤ i ∧ i < row * vgaWidth + n
      · rw [if_pos hrange, if_pos (by omega)]
      · rw [if_neg hrange, if_neg (by omega)]

/-- The terminal after `tty_framebuffer_scroll_down`. -/
def Tty.scrolledDown (t : Tty) : Tty :=
  let top := t.topLineIndex + 1
  Tty.fillRow
    { t with
      topLineIndex := top
      history := { t.history with
        stopScroll := if top = 0 then false else t.history.stopScroll } }
    (top + 24).toNat vgaWidth

theorem ttyFramebufferScrollDown_eq (t : Tty) :
    ttyFramebufferScrollDown t = .ok t.scrolledDown := by
  unfold ttyFramebufferScrollDown Tty.scrolledDown
  dsimp only
  by_cases htop : t.topLineIndex + 1 = 0
  · rw [if_pos htop, if_pos htop]
    exact fillRow_loop _ (UInt8.toNat_lt _) (Nat.le_refl _)
  · rw [if_neg htop, if_neg htop]
    exact fillRow_loop _ (UInt8.toNat_lt _) (Nat.le_refl _)

/-! ## The loops of ft_putchar -/

theorem wrapLoop_of_lt (hx : t.cursor.x.toNat < vgaWidth) (turns : ℕ) :
    wrapLoop (turns + 1) t = .ok t := by
  rw [wrapLoop, if_neg (Nat.not_le.mpr hx)]

theorem scrollLoop_of_lt (hy : t.cursor.y.toNat < vgaHeight) (turns : ℕ) :
    scrollLoop (turns + 1) t = .ok t := by
  rw [scrollLoop, if_neg (Nat.not_le.mpr hy)]

theorem settle_inScreen (h : t.InScreen) : settle t = .ok t := by
  unfold settle
  rw [wrapLoop_of_lt h.1, ok_bind, scrollLoop_of_lt h.2]

theorem toNat_succ {a : UInt8} (h : a.toNat < 255) : (a + 1).toNat = a.toNat + 1 := by
  rw [UInt8.toNat_add]
  exact Nat.mod_eq_of_lt (Nat.succ_lt_succ h)

/-- To the start of the next line. -/
def Tty.lineDown (t : Tty) : Tty :=
  if t.cursor.y = 24 then t.scrolledDown.moveTo 0 24 else t.moveTo 0 (t.cursor.y + 1)

/-- To the next column. -/
def Tty.advance (t : Tty) : Tty :=
  if t.cursor.x = 79 then t.lineDown else t.moveTo (t.cursor.x + 1) t.cursor.y

theorem settle_lineDown (hy : t.cursor.y.toNat < vgaHeight) :
    settle (t.moveTo 0 (t.cursor.y + 1)) = .ok t.lineDown := by
  have hx : (t.moveTo 0 (t.cursor.y + 1)).cursor.x.toNat < vgaWidth := Nat.zero_lt_succ 79
  unfold settle
  rw [wrapLoop_of_lt hx, ok_bind]
  by_cases h24 : t.cursor.y = 24
  · -- The cursor has left the last row: one turn of the scrolling loop brings it back.
    have hscroll := ttyFramebufferScrollDown_eq (t.moveTo 0 (24 + 1))
    have hy' : vgaHeight ≤ (t.moveTo 0 (24 + 1)).cursor.y.toNat := Nat.le_refl 25
    unfold Tty.lineDown
    rw [if_pos h24, h24, scrollLoop, if_pos hy', hscroll, ok_bind]
    show scrollLoop 255 (t.scrolledDown.moveTo 0 (24 + 1 - 1)) = _
    have hback : (24 : UInt8) + 1 - 1 = 24 := by decide
    have hrow : (t.scrolledDown.moveTo 0 24).cursor.y.toNat < vgaHeight := Nat.lt_succ_self 24
    rw [hback, scrollLoop_of_lt hrow]
  · have hne : t.cursor.y.toNat ≠ 24 := fun h => h24 (UInt8.toNat_inj.mp h)
    simp only [vgaHeight] at hy
    have hsucc : (t.cursor.y + 1).toNat = t.cursor.y.toNat + 1 := toNat_succ (by omega)
    have hy' : (t.moveTo 0 (t.cursor.y + 1)).cursor.y.toNat < vgaHeight := by
      show (t.cursor.y + 1).toNat < 25
      omega
    unfold Tty.lineDown
    rw [if_neg h24, scrollLoop_of_lt hy']

theorem settle_advance (h : t.InScreen) :
    settle (t.moveTo (t.cursor.x + 1) t.cursor.y) = .ok t.advance := by
  obtain ⟨hx, hy⟩ := h
  simp only [vgaWidth] at hx
  by_cases h79 : t.cursor.x = 79
  · -- The wrapping loop makes one turn, and the cursor is where a newline leaves it.
    have hx' : (t.moveTo 0 (t.cursor.y + 1)).cursor.x.toNat < vgaWidth := Nat.zero_lt_succ 79
    have hx80 : vgaWidth ≤ (t.moveTo (79 + 1) t.cursor.y).cursor.x.toNat := Nat.le_refl 80
    have hdown := settle_lineDown hy
    unfold settle at hdown
    rw [wrapLoop_of_lt hx', ok_bind] at hdown
    unfold settle Tty.advance
    rw [if_pos h79, h79, wrapLoop, if_pos hx80, ← hdown]
    show (wrapLoop 255 (t.moveTo (79 + 1 - 80) (t.cursor.y + 1)) >>= scrollLoop 256) = _
    have hback : (79 : UInt8) + 1 - 80 = 0 := by decide
    rw [hback, wrapLoop_of_lt hx', ok_bind]
  · have hne : t.cursor.x.toNat ≠ 79 := fun h => h79 (UInt8.toNat_inj.mp h)
    have hsucc : (t.cursor.x + 1).toNat = t.cursor.x.toNat + 1 := toNat_succ (by omega)
    unfold Tty.advance
    rw [if_neg h79]
    refine settle_inScreen ⟨?_, hy⟩
    show (t.cursor.x + 1).toNat < 80
    omega

/-! ## Characters -/

/-- Where the cursor is in the framebuffer. -/
def Tty.cursorOffset (t : Tty) : ℕ :=
  (t.topLineIndex + t.cursor.y).toNat * vgaWidth + t.cursor.x.toNat

theorem cursorOffset_lt (h : t.InScreen) : t.cursorOffset < vgaWidth * ttyHistSize := by
  have hlt := UInt8.toNat_lt (t.topLineIndex + t.cursor.y)
  have hx := h.1
  simp only [Tty.cursorOffset, vgaWidth, ttyHistSize] at *
  omega

/-- The terminal after `tty_framebuffer_write`. -/
def Tty.wrote (c : UInt8) (t : Tty) : Tty :=
  let t := leaveHistory t
  { t with framebuffer := Function.update t.framebuffer t.cursorOffset ⟨c, t.mode⟩ }

theorem leaveHistory_cursor (t : Tty) : (leaveHistory t).cursor = t.cursor := by
  unfold leaveHistory ttyHistoryDisable
  split <;> rfl

theorem ttyFramebufferWrite_eq (c : UInt8) (h : t.InScreen) :
    ttyFramebufferWrite c t = .ok (t.wrote c) := by
  have h' : (leaveHistory t).InScreen := by
    unfold Tty.InScreen
    rw [leaveHistory_cursor]
    exact h
  exact if_pos (cursorOffset_lt h')

/-- A character without a meaning of its own. -/
def Tty.put (c : UInt8) (t : Tty) : Tty := (t.wrote c).advance

theorem wrote_inScreen (h : t.InScreen) : (t.wrote c).InScreen := by
  unfold Tty.InScreen Tty.wrote
  dsimp only
  rw [leaveHistory_cursor]
  exact h

theorem putDefault_eq (c : UInt8) (h : t.InScreen) : putDefault c t = .ok (t.put c) := by
  unfold putDefault
  rw [ttyFramebufferWrite_eq c h, ok_bind]
  exact settle_advance (wrote_inScreen h)

theorem lineDown_inScreen (h : t.InScreen) : t.lineDown.InScreen := by
  have hy := h.2
  unfold Tty.lineDown
  by_cases h24 : t.cursor.y = 24
  · rw [if_pos h24]
    exact ⟨Nat.zero_lt_succ 79, Nat.lt_succ_self 24⟩
  · have hne : t.cursor.y.toNat ≠ 24 := fun h => h24 (UInt8.toNat_inj.mp h)
    simp only [vgaHeight] at hy
    rw [if_neg h24]
    refine ⟨Nat.zero_lt_succ 79, ?_⟩
    show (t.cursor.y + 1).toNat < 25
    rw [toNat_succ (by omega)]
    omega

/-- The next column, also at the end of a line. -/
theorem advance_x (h : t.InScreen) :
    t.advance.cursor.x.toNat = (t.cursor.x.toNat + 1) % vgaWidth := by
  have hx := h.1
  simp only [vgaWidth] at hx
  unfold Tty.advance
  by_cases h79 : t.cursor.x = 79
  · have hdown : t.lineDown.cursor.x = 0 := by
      unfold Tty.lineDown
      split <;> rfl
    rw [if_pos h79, hdown, h79]
    rfl
  · have hne : t.cursor.x.toNat ≠ 79 := fun h => h79 (UInt8.toNat_inj.mp h)
    rw [if_neg h79]
    show (t.cursor.x + 1).toNat = (t.cursor.x.toNat + 1) % 80
    rw [toNat_succ (by omega)]
    omega

theorem advance_inScreen (h : t.InScreen) : t.advance.InScreen := by
  refine ⟨?_, ?_⟩
  · rw [advance_x h]
    exact Nat.mod_lt _ (Nat.zero_lt_succ 79)
  · unfold Tty.advance
    split
    · exact (lineDown_inScreen h).2
    · exact h.2

theorem put_inScreen (h : t.InScreen) : (t.put c).InScreen :=
  advance_inScreen (wrote_inScreen h)

/-- Tabulator stops are not lost at the end of a line. -/
theorem put_x_mod (h : t.InScreen) :
    (t.put c).cursor.x.toNat % 4 = (t.cursor.x.toNat + 1) % 4 := by
  have hx := advance_x (wrote_inScreen (c := c) h)
  have hcursor : (t.wrote c).cursor = t.cursor := leaveHistory_cursor t
  rw [hcursor] at hx
  unfold Tty.put
  rw [hx]
  simp only [vgaWidth]
  omega

/-- `do { ft_putchar(' '); } while (cursor.x % 4);` prints the spaces up to the next multiple of 4. -/
theorem tabLoop_eq (turns : ℕ) (h : t.InScreen) (hturns : 4 - t.cursor.x.toNat % 4 ≤ turns) :
    tabLoop turns t = .ok ((Tty.put 0x20)^[4 - t.cursor.x.toNat % 4] t) := by
  -- Each turn prints one space; `put_x_mod` says how far it is to the next multiple of 4.
  induction turns generalizing t with
  | zero => exact absurd hturns (by omega)
  | succ turns ih =>
    have hmod := put_x_mod (c := 0x20) h
    have hrest : ((t.put 0x20).cursor.x % 4).toNat = (t.cursor.x.toNat + 1) % 4 := by
      rw [UInt8.toNat_mod]
      exact hmod
    rw [tabLoop, putDefault_eq 0x20 h, ok_bind]
    by_cases hdone : (t.put 0x20).cursor.x % 4 = 0
    · have hone : 4 - t.cursor.x.toNat % 4 = 1 := by
        rw [hdone] at hrest
        have hzero : 0 = (t.cursor.x.toNat + 1) % 4 := hrest
        omega
      rw [if_neg (not_not.mpr hdone), hone]
      rfl
    · have hne : (t.cursor.x.toNat + 1) % 4 ≠ 0 := by
        rw [← hrest]
        exact fun h0 => hdone (UInt8.toNat_inj.mp h0)
      have hmore : 4 - t.cursor.x.toNat % 4 = (4 - (t.put 0x20).cursor.x.toNat % 4) + 1 := by
        omega
      rw [if_pos hdone, hmore, Function.iterate_succ_apply]
      exact ih (put_inScreen h) (by omega)

theorem iterate_put_inScreen (n : ℕ) (h : t.InScreen) : ((Tty.put c)^[n] t).InScreen := by
  induction n generalizing t with
  | zero => exact h
  | succ n ih => exact ih (put_inScreen h)

/-- The terminal after a character. -/
def Tty.fed (c : UInt8) (t : Tty) : Tty :=
  if c = 0x0A then t.lineDown
  else if c = 0x0D then t.moveTo 0 t.cursor.y
  else if c = 0x09 then (Tty.put 0x20)^[4 - t.cursor.x.toNat % 4] t
  else t.put c

theorem fed_inScreen (h : t.InScreen) : (t.fed c).InScreen := by
  unfold Tty.fed
  split
  · exact lineDown_inScreen h
  split
  · exact ⟨Nat.zero_lt_succ 79, h.2⟩
  split
  · exact iterate_put_inScreen _ h
  · exact put_inScreen h

theorem ftPutchar_eq (c : UInt8) (h : t.InScreen) : ftPutchar c t = .ok (t.fed c) := by
  unfold ftPutchar Tty.fed
  split
  · exact settle_lineDown h.2
  split
  · exact settle_inScreen ⟨Nat.zero_lt_succ 79, h.2⟩
  split
  · rw [tabLoop_eq 256 h (by omega), ok_bind]
    exact settle_inScreen (iterate_put_inScreen _ h)
  · exact putDefault_eq c h

/-- Printing succeeds and leaves the cursor on the screen. -/
theorem ftPutstr_eq (str : List UInt8) (h : t.InScreen) :
    ftPutstr str t = .ok (str.foldl (fun t' c => t'.fed c) t) ∧
      (str.foldl (fun t' c => t'.fed c) t).InScreen := by
  induction str generalizing t with
  | nil => exact ⟨rfl, h⟩
  | cons c str ih =>
    obtain ⟨hrest, hscreen⟩ := ih (fed_inScreen (c := c) h)
    refine ⟨?_, hscreen⟩
    unfold ftPutstr
    rw [List.foldlM_cons, ftPutchar_eq c h]
    exact hrest

/-! ## What printing leaves alone -/

/-- Printing does not touch the command line and does not enter history mode. -/
structure Printed (t t' : Tty) : Prop where
  cli : t'.cli = t.cli
  live : t.history.status = false → t'.history.status = false

namespace Printed

variable {t' t'' : Tty}

theorem refl (t : Tty) : Printed t t := ⟨rfl, id⟩

theorem trans (h : Printed t t') (h' : Printed t' t'') : Printed t t'' :=
  ⟨h'.cli.trans h.cli, fun hlive => h'.live (h.live hlive)⟩

/-- A computation that only prints. -/
def By (f : Tty → Kern Tty) : Prop := ∀ t, Meets (f t) (Printed t) (fun _ => True)

theorem bind {f : Tty → Kern Tty} {r : Kern Tty} (hr : Meets r (Printed t) (fun _ => True))
    (hf : By f) : Meets (r >>= f) (Printed t) (fun _ => True) :=
  hr.bind fun t' ht' => (hf t').mono fun _ h => ht'.trans h

/-- Moving the cursor first does not matter. -/
theorem By.moved {f : Tty → Kern Tty} (hf : By f) (t : Tty) (x y : UInt8) :
    Meets (f (t.moveTo x y)) (Printed t) (fun _ => True) :=
  (hf (t.moveTo x y)).mono fun _ h => ⟨h.cli, h.live⟩

theorem store (t : Tty) (offset : ℕ) (entry : VgaEntry) :
    Meets (t.store offset entry) (Printed t) (fun _ => True) := by
  unfold Tty.store
  split
  · exact ⟨rfl, id⟩
  · trivial

theorem scrollDown : By ttyFramebufferScrollDown := by
  intro t
  rw [ttyFramebufferScrollDown_eq]
  exact ⟨rfl, id⟩

theorem wrap (turns : ℕ) : By (wrapLoop turns) := by
  induction turns with
  | zero => exact fun _ => trivial
  | succ turns ih =>
    intro t
    rw [wrapLoop]
    split
    · exact ih.moved t _ _
    · exact refl t

theorem scroll (turns : ℕ) : By (scrollLoop turns) := by
  induction turns with
  | zero => exact fun _ => trivial
  | succ turns ih =>
    intro t
    rw [scrollLoop]
    split
    · exact bind (scrollDown t) fun t' => ih.moved t' _ _
    · exact refl t

theorem settled : By settle := fun t => bind (wrap 256 t) (scroll 256)

theorem write (c : UInt8) : By (ttyFramebufferWrite c) := by
  intro t
  -- Output may leave history mode, but it never enters it.
  have hleave : Printed t (leaveHistory t) := by
    unfold leaveHistory ttyHistoryDisable
    split
    · exact ⟨rfl, fun _ => rfl⟩
    · exact refl t
  exact (store _ _ _).mono fun _ h => hleave.trans h

theorem putDefault (c : UInt8) : By (putDefault c) := fun t =>
  bind (write c t) fun t' => settled.moved t' _ _

theorem tab (turns : ℕ) : By (tabLoop turns) := by
  induction turns with
  | zero => exact fun _ => trivial
  | succ turns ih =>
    intro t
    rw [tabLoop]
    refine bind (putDefault 0x20 t) fun t' => ?_
    split
    · exact ih t'
    · exact refl t'

theorem putchar (c : UInt8) : By (ftPutchar c) := by
  intro t
  unfold ftPutchar
  split
  · exact settled.moved t _ _
  split
  · exact settled.moved t _ _
  split
  · exact bind (tab 256 t) settled
  · exact putDefault c t

theorem putstr (str : List UInt8) : By (ftPutstr str) := by
  intro t
  exact Meets.foldlM (P := Printed t)
    (fun t' c _ ht' => (putchar c t').mono fun _ h => ht'.trans h) (refl t)

end Printed

/-! ## The screen -/

theorem mapM_ok {α β : Type} {f : α → Kern β} {g : α → β} {l : List α}
    (h : ∀ x ∈ l, f x = .ok (g x)) : l.mapM f = .ok (l.map g) := by
  induction l with
  | nil => rfl
  | cons x l ih =>
    rw [List.mapM_cons, h x List.mem_cons_self, ok_bind,
      ih fun y hy => h y (List.mem_cons_of_mem x hy), ok_bind]
    rfl

/-- What the screen shows in a row and a column. -/
def Tty.screenCell (t : Tty) (y x : ℕ) : VgaEntry :=
  t.framebuffer ((t.topLineIndex + y.toUInt8).toNat * vgaWidth + x)

/-- `vga_refresh_screen` stays inside the framebuffer. -/
theorem vgaRefreshScreen_eq (t : Tty) :
    vgaRefreshScreen t =
      .ok ((List.range vgaHeight).map fun y => (List.range vgaWidth).map fun x => t.screenCell y x,
        t.cursor) := by
  -- A row of the ring is at most row 255, as its number has 8 bits.
  have hrow : ∀ y ∈ List.range vgaHeight,
      (List.range vgaWidth).mapM
          (fun x => t.load ((t.topLineIndex + y.toUInt8).toNat * vgaWidth + x)) =
        .ok ((List.range vgaWidth).map fun x => t.screenCell y x) := by
    intro y _
    apply mapM_ok
    intro x hx
    have hlt := UInt8.toNat_lt (t.topLineIndex + y.toUInt8)
    have hx' := List.mem_range.mp hx
    unfold Tty.load Tty.screenCell
    rw [if_pos]
    simp only [vgaWidth, ttyHistSize] at *
    omega
  unfold vgaRefreshScreen
  dsimp only
  rw [mapM_ok hrow]
  rfl

end Kfs.Drivers
