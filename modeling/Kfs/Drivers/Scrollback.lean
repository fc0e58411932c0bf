import Kfs.Drivers.Terminal

/-!
# Scrollback

After some output history mode moves the window up and down over the ring. The ring holds the last
256 lines of the sheet, 25 of which are the live screen, so that a window that starts more than 231
lines above the live one ends in rows that hold newer lines. `tty_history_scroll_up` stops later.

## Layers

- `Terminal.Holds`, `InOrder`: which line a row of the ring holds, and what the screen should show;
- `Tty.viewed`: the terminal with its window some lines above the live one;
- `inOrder_viewed`: the windows that show history in order;
- `scrollKey_viewed`, `scrollback_inOrder_iff`: one step, and any number of them.
-/

namespace Kfs.Drivers

open Kfs.Lib

/-! ## Lines of the ring -/

/-- Row `row` of the ring holds line `n`: the line was stored there, and no newer one since. -/
def Terminal.Holds (base : ℕ) (s : Terminal) (row n : ℕ) : Prop :=
  (base + n) % 256 = row ∧ n ≤ s.top + 24 ∧ s.top + 24 < n + 256

/-- The 25 lines from `first` on. -/
def Terminal.window (s : Terminal) (first : ℕ) : List (List VgaEntry) :=
  (List.range vgaHeight).map fun y => (List.range vgaWidth).map fun x => s.line (first + y) x

/-- The screen shows 25 consecutive lines that are still in the ring. -/
def InOrder (base : ℕ) (s : Terminal) (t : Tty) : Prop :=
  ∃ first, (∀ y < 25, s.Holds base (t.topLineIndex + y.toUInt8).toNat (first + y)) ∧
    vgaRefreshScreen t = .ok (s.window first, t.cursor)

/-! ## Steps -/

/-- The two steps of history mode. -/
inductive ScrollKey where
  | up
  | down
  deriving DecidableEq, Repr

/-- A step. -/
def scrollKey (t : Tty) : ScrollKey → Kern Tty
  | .up => .ok (ttyHistoryScrollUp t)
  | .down => .ok (ttyHistoryScrollDown t)

/-- Output, history mode, and steps. -/
def scrollback (str : List UInt8) (keys : List ScrollKey) (t : Tty) : Kern Tty := do
  let t ← ftPutstr str t
  keys.foldlM scrollKey (ttyHistoryEnable t)

/-- How many lines above the live window the window is. -/
def Tty.linesAbove (t : Tty) : ℕ := (t.history.topLineSave.toUInt8 - t.topLineIndex).toNat

/-- The row at which `tty_history_scroll_up` stops. -/
def Tty.oldestLine (t : Tty) : UInt8 :=
  if t.history.stopScroll then 0 else t.history.topLineSave.toUInt8 + 1

/-- A step up stops, or there is a line above the window that is still in the ring. -/
def Tty.MayScroll (n : ℕ) (t : Tty) (key : ScrollKey) : Prop :=
  key = .up → t.topLineIndex = t.oldestLine ∨ (t.linesAbove < n ∧ t.linesAbove < 231)

/-! ## Windows -/

variable {base : ℕ} {stop : Bool} {mode : UInt8} {t : Tty} {s : Terminal} {k : ℕ}

/-- History mode with the window `k` lines above the live one. -/
def Tty.viewed (t : Tty) (k : ℕ) : Tty :=
  { ttyHistoryEnable t with topLineIndex := t.topLineIndex - k.toUInt8 }

/-- How far up `tty_history_scroll_up` goes. -/
def Tty.reach (t : Tty) : ℕ :=
  if t.history.stopScroll then t.topLineIndex.toNat else 255

theorem viewed_zero (t : Tty) : t.viewed 0 = ttyHistoryEnable t := by
  unfold Tty.viewed
  rw [show t.topLineIndex - (0 : ℕ).toUInt8 = t.topLineIndex from UInt8.sub_zero t.topLineIndex]
  rfl

theorem reach_le (t : Tty) : t.reach ≤ 255 := by
  have hlt := UInt8.toNat_lt t.topLineIndex
  unfold Tty.reach
  split
  · omega
  · exact Nat.le_refl 255

theorem viewed_top (hk : k ≤ 255) :
    (t.viewed k).topLineIndex.toNat = (t.topLineIndex.toNat + (256 - k)) % 256 := by
  show (t.topLineIndex - k.toUInt8).toNat = _
  rw [UInt8.toNat_sub]
  have hk' : k.toUInt8.toNat = k := Nat.mod_eq_of_lt (by omega)
  rw [hk', Nat.add_comm]

theorem viewed_linesAbove (hk : k ≤ 255) : (t.viewed k).linesAbove = k := by
  have htop := viewed_top (t := t) hk
  have hlt := UInt8.toNat_lt t.topLineIndex
  have hsave : (t.viewed k).history.topLineSave.toUInt8 = t.topLineIndex :=
    UInt8.toUInt8_toUInt32 t.topLineIndex
  unfold Tty.linesAbove
  rw [hsave, UInt8.toNat_sub, htop]
  omega

/-- The stop is reached just at the end of the reach. -/
theorem viewed_oldest (hk : k ≤ t.reach) :
    (t.viewed k).topLineIndex = (t.viewed k).oldestLine ↔ k = t.reach := by
  have htop := viewed_top (t := t) (hk.trans (reach_le t))
  have hlt := UInt8.toNat_lt t.topLineIndex
  have hsave : (t.viewed k).history.topLineSave.toUInt8 = t.topLineIndex :=
    UInt8.toUInt8_toUInt32 t.topLineIndex
  have hstop : (t.viewed k).history.stopScroll = t.history.stopScroll := rfl
  unfold Tty.oldestLine
  unfold Tty.reach at hk ⊢
  rw [← UInt8.toNat_inj, htop, hsave, hstop]
  cases hflag : t.history.stopScroll with
  | true =>
    -- The ring has not wrapped: the live window is `top_line_index` lines below row 0.
    rw [hflag, if_pos rfl] at hk
    rw [if_pos rfl, if_pos rfl]
    show _ = 0 ↔ _
    omega
  | false =>
    -- It has: the row behind the top of the live window is 255 lines above it.
    rw [hflag, if_neg Bool.false_ne_true] at hk
    rw [if_neg Bool.false_ne_true, if_neg Bool.false_ne_true, UInt8.toNat_add]
    show _ = (t.topLineIndex.toNat + 1) % 256 ↔ _
    omega

/-- A window shows consecutive lines just if it does not start above the first line and does not end
in a row that holds a newer line. -/
theorem inOrder_viewed (h : Shows base stop mode t s) (hk : k ≤ 255) :
    InOrder base s (t.viewed k) ↔ k ≤ s.top ∧ k ≤ 231 := by
  have htop := viewed_top (t := t) hk
  have hrow : ∀ y < 25, ((t.viewed k).topLineIndex + y.toUInt8).toNat =
      ((base + s.top) % 256 + (256 - k) + y) % 256 := by
    intro y hy
    have hy' : y.toUInt8.toNat = y := Nat.mod_eq_of_lt (by omega)
    rw [UInt8.toNat_add, htop, h.top, hy', Nat.mod_add_mod]
  constructor
  · intro ⟨first, hheld, _⟩
    -- The first row gives the distance modulo 256, which the ring bounds.
    obtain ⟨hmod, hle, hring⟩ := hheld 0 (Nat.zero_lt_succ 24)
    obtain ⟨_, hle24, _⟩ := hheld 24 (Nat.lt_succ_self 24)
    rw [hrow 0 (Nat.zero_lt_succ 24)] at hmod
    omega
  · intro ⟨hk_top, hk_ring⟩
    -- The window starts at line `s.top - k`, which is still in the ring.
    refine ⟨s.top - k, fun y hy => ⟨?_, by omega, by omega⟩, ?_⟩
    · rw [hrow y hy]
      omega
    · rw [vgaRefreshScreen_eq]
      refine congrArg (fun rows => Except.ok (rows, _)) ?_
      apply List.map_congr_left
      intro y hy
      apply List.map_congr_left
      intro x hx
      have hy' := List.mem_range.mp hy
      have hat : ((base + s.top) % 256 + (256 - k) + y) % 256 = (base + (s.top - k) + y) % 256 := by
        omega
      unfold Tty.screenCell
      rw [hrow y hy', hat]
      exact h.window hk_top (Nat.lt_succ_of_le hk_ring) hy' (List.mem_range.mp hx)

/-! ## Moving the window -/

/-- Where a step leads from `k` lines above the live window. -/
def ScrollKey.move (reach k : ℕ) : ScrollKey → ℕ
  | .up => if k = reach then k else k + 1
  | .down => k - 1

theorem move_le (hk : k ≤ t.reach) (key : ScrollKey) : key.move t.reach k ≤ t.reach := by
  cases key with
  | up =>
    show (if k = t.reach then k else k + 1) ≤ t.reach
    split
    · exact hk
    · omega
  | down => exact (Nat.sub_le k 1).trans hk

theorem sub_sub_one (a : UInt8) (k : ℕ) :
    a - k.toUInt8 - 1 = a - (k + 1).toUInt8 := by
  have hsucc : (k + 1).toUInt8 = k.toUInt8 + 1 := UInt8.ofNat_add k 1
  rw [hsucc, UInt8.sub_eq_add_neg, UInt8.sub_eq_add_neg, UInt8.sub_eq_add_neg, UInt8.neg_add,
    UInt8.sub_eq_add_neg, UInt8.add_assoc]

theorem scrollUp_viewed (hk : k ≤ t.reach) :
    ttyHistoryScrollUp (t.viewed k) = t.viewed (ScrollKey.up.move t.reach k) := by
  have hstatus : ¬ (!(t.viewed k).history.status) = true := Bool.false_ne_true
  unfold ttyHistoryScrollUp ScrollKey.move
  dsimp only
  rw [if_neg hstatus]
  by_cases hend : k = t.reach
  · rw [if_pos hend]
    exact if_pos ((viewed_oldest hk).mpr hend)
  · rw [if_neg hend]
    refine (if_neg fun hat => hend ((viewed_oldest hk).mp hat)).trans ?_
    unfold Tty.viewed
    rw [← sub_sub_one]

theorem scrollDown_viewed (hk : k ≤ t.reach) :
    ttyHistoryScrollDown (t.viewed k) = t.viewed (ScrollKey.down.move t.reach k) := by
  have hstatus : ¬ (!(t.viewed k).history.status) = true := Bool.false_ne_true
  have hcursor : (t.viewed k).cursor.y = t.cursor.y := rfl
  have hsave : (t.viewed k).history.topLineSave.toUInt8 = t.topLineIndex :=
    UInt8.toUInt8_toUInt32 t.topLineIndex
  have htop : (t.viewed k).topLineIndex = t.topLineIndex - k.toUInt8 := rfl
  unfold ttyHistoryScrollDown
  dsimp only
  rw [if_neg hstatus, hsave, hcursor, htop]
  cases k with
  | zero =>
    -- The live window: the two rows of the cursor are the same.
    have hzero : t.topLineIndex - (0 : ℕ).toUInt8 = t.topLineIndex := UInt8.sub_zero _
    rw [hzero, if_pos rfl]
    rfl
  | succ k =>
    have hne : t.topLineIndex + t.cursor.y ≠
        t.topLineIndex - (k + 1).toUInt8 + t.cursor.y := by
      have hreach := reach_le t
      have hk' : (k + 1).toUInt8.toNat = k + 1 := Nat.mod_eq_of_lt (by omega)
      have hlt := UInt8.toNat_lt t.topLineIndex
      rw [ne_eq, ← UInt8.toNat_inj, UInt8.toNat_add, UInt8.toNat_add, UInt8.toNat_sub, hk']
      omega
    rw [if_neg hne, ← sub_sub_one, UInt8.sub_add_cancel]
    rfl

theorem scrollKey_viewed (hk : k ≤ t.reach) (key : ScrollKey) :
    scrollKey (t.viewed k) key = .ok (t.viewed (key.move t.reach k)) := by
  cases key with
  | up => exact congrArg Except.ok (scrollUp_viewed hk)
  | down => exact congrArg Except.ok (scrollDown_viewed hk)

/-- Steps only move the window. -/
theorem scrollKeys_viewed (keys : List ScrollKey) (hk : k ≤ t.reach) :
    ∃ k', k' ≤ t.reach ∧ keys.foldlM scrollKey (t.viewed k) = .ok (t.viewed k') := by
  induction keys generalizing k with
  | nil => exact ⟨k, hk, rfl⟩
  | cons key keys ih =>
    obtain ⟨k', hk', hrest⟩ := ih (move_le hk key)
    refine ⟨k', hk', ?_⟩
    rw [List.foldlM_cons, scrollKey_viewed hk key, ok_bind]
    exact hrest

theorem scrollUps_viewed {n : ℕ} (hn : k + n ≤ t.reach) :
    (List.replicate n ScrollKey.up).foldlM scrollKey (t.viewed k) = .ok (t.viewed (k + n)) := by
  induction n generalizing k with
  | zero => rfl
  | succ n ih =>
    have hmove : ScrollKey.up.move t.reach k = k + 1 := if_neg (by omega)
    rw [List.replicate_succ, List.foldlM_cons, scrollKey_viewed (by omega), hmove, ok_bind,
      ih (by omega), Nat.add_right_comm]
    rfl

/-! ## Steps and runs -/

/-- A window in history mode that shows history in order. -/
structure Ordered (base : ℕ) (s : Terminal) (t v : Tty) : Prop where
  viewed : ∃ k, k ≤ t.reach ∧ v = t.viewed k
  inOrder : InOrder base s v

/-- **Step**: the window stays in order just if the step may be taken. -/
theorem scrollKey_ordered (h : Shows base stop mode t s) {v : Tty} (hv : Ordered base s t v)
    (key : ScrollKey) :
    Meets (scrollKey v key) (Ordered base s t) (fun _ => False) ↔ v.MayScroll s.top key := by
  obtain ⟨⟨k, hk, rfl⟩, hin⟩ := hv
  -- Both sides are about how far above the live window the step leads.
  have hk255 : k ≤ 255 := hk.trans (reach_le t)
  have hmove := move_le hk key
  have hordered : Ordered base s t (t.viewed (key.move t.reach k)) ↔
      key.move t.reach k ≤ s.top ∧ key.move t.reach k ≤ 231 := by
    rw [← inOrder_viewed h (hmove.trans (reach_le t))]
    exact ⟨Ordered.inOrder, fun hin' => ⟨⟨_, hmove, rfl⟩, hin'⟩⟩
  rw [inOrder_viewed h hk255] at hin
  rw [scrollKey_viewed hk key, meets_ok, hordered]
  unfold Tty.MayScroll
  rw [viewed_oldest hk, viewed_linesAbove hk255]
  cases key with
  | up =>
    unfold ScrollKey.move
    by_cases hend : k = t.reach
    · rw [if_pos hend]
      exact iff_of_true hin fun _ => .inl hend
    · rw [if_neg hend]
      constructor
      · intro hnext _
        exact .inr hnext
      · intro hmay
        exact (hmay rfl).resolve_left hend
  | down =>
    have hle : ScrollKey.down.move t.reach k ≤ k := Nat.sub_le k 1
    exact iff_of_true ⟨hle.trans hin.1, hle.trans hin.2⟩ (fun hup => by cases hup)

theorem scrollKeys_inOrder_iff (h : Shows base stop mode t s) (keys : List ScrollKey) :
    (∀ ks, ks <+: keys →
        Meets (ks.foldlM scrollKey (ttyHistoryEnable t)) (InOrder base s) (fun _ => False)) ↔
      ∀ ks key, ks ++ [key] <+: keys →
        ∀ v, ks.foldlM scrollKey (ttyHistoryEnable t) = .ok v → v.MayScroll s.top key := by
  have hstart : Ordered base s t (t.viewed 0) :=
    ⟨⟨0, Nat.zero_le _, rfl⟩,
      (inOrder_viewed h (Nat.zero_le _)).mpr ⟨Nat.zero_le _, Nat.zero_le _⟩⟩
  have hrule := meets_prefixes_iff (I := fun _ => Ordered base s t)
    (fun _ v key hv => scrollKey_ordered h hv key) (t.viewed 0) keys
  have hsame : ∀ ks : List ScrollKey,
      (Meets (ks.foldlM scrollKey (t.viewed 0)) (InOrder base s) (fun _ => False) ↔
        Meets (ks.foldlM scrollKey (t.viewed 0)) (Ordered base s t) (fun _ => False)) := by
    intro ks
    obtain ⟨k, hk, hrun⟩ := scrollKeys_viewed ks (Nat.zero_le t.reach)
    rw [hrun, meets_ok, meets_ok]
    exact ⟨fun hin => ⟨⟨k, hk, rfl⟩, hin⟩, Ordered.inOrder⟩
  rw [← viewed_zero]
  simp only [hsame, hrule]
  exact and_iff_right hstart

/-- **When history mode shows history in order.** On a terminal that is not in history mode, with a
cleared framebuffer, whatever has been printed: the screen shows 25 consecutive lines of the output
after every step just if each step up stops or starts less than 231 lines above the live window and
below the first line. -/
theorem scrollback_inOrder_iff (t : Tty) (str : List UInt8) (keys : List ScrollKey)
    (hclear : ∀ i < vgaWidth * ttyHistSize, t.framebuffer i = ⟨0x00, t.mode⟩)
    (hlive : t.history.status = false) (hcursor : t.InScreen) :
    let s := (Terminal.blank t.mode t.cursor.x.toNat t.cursor.y.toNat).print t.mode str
    (∀ ks, ks <+: keys →
        Meets (scrollback str ks t) (InOrder t.topLineIndex.toNat s) (fun _ => False)) ↔
      ∀ ks key, ks ++ [key] <+: keys →
        ∀ v, scrollback str ks t = .ok v → v.MayScroll s.top key := by
  intro s
  obtain ⟨t', hprint, h'⟩ := (shows_blank hclear hlive hcursor).print str
  unfold scrollback
  rw [hprint]
  exact scrollKeys_inOrder_iff h' keys

/-- Six lines are above the screen, and history mode goes two of them up and one down. -/
theorem scrollback_inOrder_clearedTty :
    Meets (scrollback letters [.up, .up, .down] clearedTty)
      (InOrder 250 ((Terminal.blank 0x1F 0 0).print 0x1F letters)) (fun _ => False) := by
  refine (scrollback_inOrder_iff clearedTty letters [.up, .up, .down] (fun _ _ => rfl) rfl
    ⟨by decide, by decide⟩).mpr ?_ [.up, .up, .down] List.prefix_rfl
  have htop : ((Terminal.blank 0x1F 0 0).print 0x1F letters).top = 6 := by decide +kernel
  have habove : ∀ ks ∈ [[], [ScrollKey.up]],
      (scrollback letters ks clearedTty).toOption.map (fun v => decide (v.linesAbove < 6)) =
        some true := by
    decide
  rintro ks key hkeys v hrun rfl
  have hks : ks ∈ [[], [ScrollKey.up]] := by
    rcases ks with _ | ⟨a, _ | ⟨b, _ | ⟨c, ks⟩⟩⟩ <;> simp_all
  have hv := habove ks hks
  rw [hrun] at hv
  have hlt : v.linesAbove < 6 := of_decide_eq_true (Option.some.inj hv)
  exact .inr ⟨htop.symm ▸ hlt, by omega⟩

/-- What has been printed after 256 newlines. -/
def newlines : Terminal := (Terminal.blank 0x1F 0 0).print 0x1F (List.replicate 256 0x0A)

/-- 232 lines have scrolled off the screen, and `tty_history_scroll_up` goes up to line 0. There the
first row of the screen shows line 256, which has replaced line 0. -/
theorem scrollback_notInOrder :
    ∃ v, scrollback (List.replicate 256 0x0A) (List.replicate 232 .up) freshTty = .ok v ∧
      ¬ InOrder 0 newlines v := by
  have hclear : ∀ i < vgaWidth * ttyHistSize, freshTty.framebuffer i = ⟨0x00, freshTty.mode⟩ :=
    fun i hi => if_pos hi
  have hblank : Shows 0 true 0x1F freshTty (Terminal.blank 0x1F 0 0) :=
    shows_blank hclear rfl ⟨by decide, by decide⟩
  have hshows : ∃ t, ftPutstr (List.replicate 256 0x0A) freshTty = .ok t ∧
      Shows 0 true 0x1F t newlines := hblank.print _
  obtain ⟨t, hprint, h⟩ := hshows
  have hlines : newlines.top = 232 := by decide +kernel
  have htop : t.topLineIndex.toNat = 232 := by
    rw [h.top, hlines]
  have hstop : t.history.stopScroll = true := by
    rw [h.flag, hlines]
    rfl
  have hreach : t.reach = 232 := by
    unfold Tty.reach
    rw [if_pos hstop, htop]
  have hups : (List.replicate 232 ScrollKey.up).foldlM scrollKey (t.viewed 0) =
      .ok (t.viewed 232) := by
    have hrun := scrollUps_viewed (t := t) (k := 0) (n := 232) (by omega)
    rwa [Nat.zero_add] at hrun
  refine ⟨t.viewed 232, ?_, ?_⟩
  · unfold scrollback
    rw [hprint, ok_bind, ← viewed_zero]
    exact hups
  · intro hin
    have hwindow := (inOrder_viewed h (by decide)).mp hin
    exact absurd hwindow.2 (by decide)

end Kfs.Drivers
