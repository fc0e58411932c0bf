import Kfs.Drivers.Keyboard

/-!
# The command line

`cli` holds the text typed since the last command, followed by a null byte. The handlers find the
place to write at with `ft_strlen`, so each of them relies on what the others have left.
`keyboard_printable_handler` writes two bytes and checks the place of the first, which is one
character too many.

## Layers

- `edit`, `typed`: the text an editor would hold;
- `Tty.HoldsText`: the array holds a text;
- `printable_text`, `backspace_text`, `enter_text`: what each handler does to it;
- `commandLine_runs`: any number of key events.
-/

namespace Kfs.Drivers

open Kfs.Lib Kfs.Utils

/-! ## The text -/

/-- A key event, with the flags that are set, or what the allocator and the command answer. -/
inductive CliEvent where
  | printable (flags : KeyFlags) (key : KeyboardKey)
  | backspace
  | enter (kmalloc : ℕ → Bool) (shell : List Slot → ShellReply)

/-- The key is printable. -/
def CliEvent.IsPrintable : CliEvent → Prop
  | .printable _ _ => True
  | _ => False

/-- The handler of the key. -/
def cliStep (t : Tty) : CliEvent → Kern Tty
  | .printable flags key => keyboardPrintableHandler flags key t
  | .backspace => keyboardBackspaceHandler t
  | .enter kmalloc shell => ttyCliHandleNl kmalloc shell t

/-- Key events one after the other. -/
def cliRun (es : List CliEvent) (t : Tty) : Kern Tty := es.foldlM cliStep t

/-- An editor of a text of at most 255 characters. -/
def edit (text : List UInt8) : CliEvent → List UInt8
  | .printable flags key =>
    let c := keyboardGetShiftedValue flags key
    if c = 0 then text else (text ++ [c]).take (maxCmdLen - 1)
  | .backspace => text.dropLast
  | .enter _ _ => []

/-- The text after key events. -/
def typed (es : List CliEvent) (text : List UInt8) : List UInt8 := es.foldl edit text

/-- The command line is the text, and the null byte that ends it is inside the array. -/
structure Tty.HoldsText (t : Tty) (text : List UInt8) : Prop where
  nonzero : (0 : UInt8) ∉ text
  stored : ∃ rest, t.cli.toList = text ++ 0 :: rest

/-- A terminal between two key events. -/
structure Typing (text : List UInt8) (t : Tty) : Prop where
  inScreen : t.InScreen
  holds : t.HoldsText text

/-! ## The array -/

variable {t : Tty} {text rest : List UInt8}

theorem Tty.HoldsText.length_lt (h : t.HoldsText text) : text.length < maxCmdLen := by
  obtain ⟨rest, hstored⟩ := h.stored
  have hlen := congrArg List.length hstored
  rw [Vector.length_toList, List.length_append, List.length_cons] at hlen
  omega

theorem Tty.HoldsText.strlen (h : t.HoldsText text) :
    ftStrlen t.cli.toList = .ok text.length := by
  obtain ⟨rest, hstored⟩ := h.stored
  rw [hstored]
  exact ftStrlen_eq h.nonzero

theorem storeCli_eq {i : ℕ} (hi : i < maxCmdLen) (c : UInt8) :
    t.storeCli i c = .ok { t with cli := t.cli.set i c hi } := dif_pos hi

theorem storeCli_fault {i : ℕ} (hi : ¬ i < maxCmdLen) (c : UInt8) :
    t.storeCli i c = .error .fault := dif_neg hi

/-- The byte behind a text. -/
theorem set_length (text rest : List UInt8) (x c : UInt8) :
    (text ++ x :: rest).set text.length c = text ++ c :: rest := by
  rw [List.set_append_right _ _ (Nat.le_refl _), Nat.sub_self, List.set_cons_zero]

/-- Printing neither faults nor touches the command line. -/
theorem Typing.printf (h : Typing text t) (str : List UInt8) :
    ∃ t', vgaPrintf str t = .ok t' ∧ Typing text t' := by
  obtain ⟨hprint, hscreen⟩ := ftPutstr_eq str h.inScreen
  have hcli := ((Printed.putstr str t).result hprint).cli
  refine ⟨_, (vgaPrintf_eq str t).trans hprint, hscreen, h.holds.nonzero, ?_⟩
  rw [hcli]
  exact h.holds.stored

/-! ## Handlers -/

/-- The two writes of `keyboard_printable_handler`. -/
theorem append_stored (h : t.HoldsText text) (hroom : text.length < 255) (c : UInt8) :
    ∃ t₁ t₂ rest, t.storeCli text.length c = .ok t₁ ∧ t₁.storeCli (text.length + 1) 0 = .ok t₂ ∧
      t₂.cursor = t.cursor ∧ t₂.cli.toList = text ++ c :: 0 :: rest := by
  obtain ⟨rest, hstored⟩ := h.stored
  have hlen := congrArg List.length hstored
  rw [Vector.length_toList, List.length_append, List.length_cons] at hlen
  simp only [maxCmdLen] at hlen
  cases rest with
  | nil =>
    -- Behind fewer than 255 characters and the null byte the array has another byte.
    rw [List.length_nil] at hlen
    omega
  | cons r rest =>
    have hi : text.length < maxCmdLen := h.length_lt
    have hi' : text.length + 1 < maxCmdLen := Nat.succ_lt_succ hroom
    refine ⟨_, _, rest, storeCli_eq hi c, storeCli_eq hi' 0, rfl, ?_⟩
    have hsecond := set_length (text ++ [c]) rest r 0
    rw [List.length_append, List.append_assoc, List.append_assoc] at hsecond
    rw [Vector.toList_set, Vector.toList_set, hstored, set_length]
    exact hsecond

/-- With less than 255 characters there is room for one more and the null byte. -/
theorem printable_text (h : Typing text t) (hroom : text.length < 255) (flags : KeyFlags)
    (key : KeyboardKey) :
    ∃ t', keyboardPrintableHandler flags key t = .ok t' ∧
      Typing (edit text (.printable flags key)) t' := by
  obtain ⟨t₁, t₂, rest, hfirst, hsecond, hcursor, hcli⟩ :=
    append_stored h.holds hroom (keyboardGetShiftedValue flags key)
  have hscreen : t₂.InScreen := by
    unfold Tty.InScreen
    rw [hcursor]
    exact h.inScreen
  have htyping : Typing (edit text (.printable flags key)) t₂ := by
    unfold edit
    dsimp only
    by_cases hnul : keyboardGetShiftedValue flags key = 0
    · -- A key without a character writes two null bytes.
      rw [if_pos hnul]
      rw [hnul] at hcli
      exact ⟨hscreen, h.holds.nonzero, 0 :: rest, hcli⟩
    · have hshort : (text ++ [keyboardGetShiftedValue flags key]).length ≤ maxCmdLen - 1 := by
        rw [List.length_append]
        exact hroom
      rw [if_neg hnul, List.take_of_length_le hshort]
      refine ⟨hscreen, ?_, rest, ?_⟩
      · intro hmem
        cases List.mem_append.mp hmem with
        | inl hold => exact h.holds.nonzero hold
        | inr hnew => exact hnul (List.mem_singleton.mp hnew).symm
      · rw [hcli, List.append_assoc]
        rfl
  obtain ⟨t', hprint, ht'⟩ := htyping.printf [keyboardGetShiftedValue flags key]
  refine ⟨t', ?_, ht'⟩
  unfold keyboardPrintableHandler
  dsimp only
  rw [h.holds.strlen, ok_bind, if_pos h.holds.length_lt, hfirst, ok_bind, hsecond]
  exact hprint

/-- With 255 characters the null byte is written behind the array. -/
theorem printable_full (h : t.HoldsText text) (hfull : text.length = 255) (flags : KeyFlags)
    (key : KeyboardKey) : keyboardPrintableHandler flags key t = .error .fault := by
  have hbehind : ¬ text.length + 1 < maxCmdLen := by
    rw [hfull]
    exact Nat.lt_irrefl 256
  unfold keyboardPrintableHandler
  dsimp only
  rw [h.strlen, ok_bind, if_pos h.length_lt, storeCli_eq h.length_lt, ok_bind,
    storeCli_fault hbehind]
  rfl

/-- The cursor goes back by one place, but not above the screen. -/
def Tty.cursorBack (t : Tty) : Tty :=
  if t.cursor.x = 0 then
    if 0 < t.cursor.y then t.moveTo 79 (t.cursor.y - 1) else t
  else t.moveTo (t.cursor.x - 1) t.cursor.y

theorem toNat_pred {a : UInt8} (h : a ≠ 0) : (a - 1).toNat = a.toNat - 1 := by
  have hpos : a.toNat ≠ 0 := fun h0 => h (UInt8.toNat_inj.mp h0)
  have hlt := UInt8.toNat_lt a
  rw [UInt8.toNat_sub]
  show (256 - 1 + a.toNat) % 256 = _
  omega

theorem cursorBack_cli (t : Tty) : t.cursorBack.cli = t.cli := by
  unfold Tty.cursorBack
  split
  · split
    · rfl
    · rfl
  · rfl

theorem cursorBack_inScreen (h : t.InScreen) : t.cursorBack.InScreen := by
  obtain ⟨hx, hy⟩ := h
  unfold Tty.cursorBack
  split
  · split
    · rename_i hrow
      have hne : t.cursor.y ≠ 0 := fun h0 => absurd hrow (by rw [h0]; decide)
      refine ⟨Nat.lt_succ_self 79, ?_⟩
      show (t.cursor.y - 1).toNat < vgaHeight
      rw [toNat_pred hne]
      omega
    · exact ⟨hx, hy⟩
  · rename_i hne
    refine ⟨?_, hy⟩
    show (t.cursor.x - 1).toNat < vgaWidth
    rw [toNat_pred hne]
    omega

/-- The null byte moves to the last character. -/
theorem backspace_text (h : Typing text t) :
    ∃ t', keyboardBackspaceHandler t = .ok t' ∧ Typing (edit text .backspace) t' := by
  unfold keyboardBackspaceHandler edit
  dsimp only
  rw [h.holds.strlen, ok_bind]
  cases text using List.reverseRecOn with
  | nil => exact ⟨t, rfl, h⟩
  | append_singleton text c =>
    -- What is erased on the screen is inside the framebuffer, as the cursor stays on the screen.
    obtain ⟨rest, hstored⟩ := h.holds.stored
    have hlt := h.holds.length_lt
    rw [List.length_append] at hlt
    have hi : text.length < maxCmdLen := by omega
    have hlen : (text ++ [c]).length ≠ 0 := by simp
    have hback : (text ++ [c]).length - 1 = text.length := by simp
    let t₁ : Tty := { t with cli := t.cli.set text.length 0 hi }
    have hscreen : t₁.cursorBack.InScreen := cursorBack_inScreen h.inScreen
    have hoffset := cursorOffset_lt hscreen
    rw [if_neg hlen, hback, storeCli_eq hi, ok_bind, List.dropLast_concat]
    show ∃ t', (t₁.cursorBack.load t₁.cursorBack.cursorOffset >>= fun entry =>
      t₁.cursorBack.store t₁.cursorBack.cursorOffset { entry with character := 0 }) = .ok t' ∧ _
    unfold Tty.load Tty.store
    rw [if_pos hoffset, ok_bind, if_pos hoffset]
    refine ⟨_, rfl, hscreen, ?_, 0 :: rest, ?_⟩
    · exact fun hmem => h.holds.nonzero (List.mem_append_left [c] hmem)
    · show t₁.cursorBack.cli.toList = _
      rw [cursorBack_cli]
      show (t.cli.set text.length 0 hi).toList = _
      rw [Vector.toList_set, hstored, List.append_assoc]
      exact set_length text (0 :: rest) c 0

/-- `ft_split` finds the end of the text, and its words are few enough for the size of the array. -/
theorem Tty.HoldsText.split (h : t.HoldsText text) (kmalloc : ℕ → Bool) (set : UInt8) :
    ∃ argv, ftSplit kmalloc (some t.cli.toList) set = .ok argv := by
  obtain ⟨rest, hstored⟩ := h.stored
  obtain ⟨ws, hsplits, hsplit⟩ := ftSplit_eq kmalloc set rest h.nonzero
  have hwords := hsplits.length_le
  have hlt : text.length < 256 := h.length_lt
  rw [hstored]
  exact ⟨_, hsplit (by omega)⟩

/-- Clearing the screen leaves the text alone. -/
theorem Typing.cleared (h : Typing text t) : Typing text (ttyFramebufferClear t) :=
  ⟨⟨Nat.zero_lt_succ 79, Nat.zero_lt_succ 24⟩, h.holds.nonzero, h.holds.stored⟩

/-- The whole array is cleared, or held no text. -/
theorem enter_text (kmalloc : ℕ → Bool) (shell : List Slot → ShellReply) (h : Typing text t) :
    ∃ t', ttyCliHandleNl kmalloc shell t = .ok t' ∧
      Typing (edit text (.enter kmalloc shell)) t' := by
  obtain ⟨t₁, hnewline, h₁⟩ := h.printf [0x0A]
  obtain ⟨rest, hstored⟩ := h₁.holds.stored
  unfold ttyCliHandleNl edit
  dsimp only
  rw [hnewline, ok_bind, hstored]
  cases text with
  | nil => exact h₁.printf _
  | cons c text =>
    have hne : c ≠ 0 := fun h0 => h₁.holds.nonzero (h0 ▸ List.mem_cons_self)
    have hfirst : loadByte (c :: text ++ 0 :: rest) = .ok c := rfl
    have hprompt : ∀ t₂ : Tty, t₂.InScreen →
        ∃ t', vgaPrintf [0x24, 0x3E, 0x20] { t₂ with cli := Vector.replicate maxCmdLen 0 } = .ok t' ∧
          Typing [] t' := by
      intro t₂ h₂
      have hempty : Typing [] { t₂ with cli := Vector.replicate maxCmdLen 0 } :=
        ⟨h₂, List.not_mem_nil, List.replicate 255 0, Vector.toList_replicate⟩
      exact hempty.printf _
    obtain ⟨argv, hsplit⟩ := h₁.holds.split kmalloc 0x20
    rw [hstored] at hsplit
    rw [hfirst, ok_bind, if_pos hne, hsplit, ok_bind]
    -- The array may be missing or empty, or its first word may be missing; then nothing is run.
    split
    · rename_i name args
      have hbefore : ∀ clears : Bool,
          Typing (c :: text) (if clears then ttyFramebufferClear t₁ else t₁) := by
        intro clears
        split
        · exact h₁.cleared
        · exact h₁
      obtain ⟨t₂, hreply, h₂⟩ :=
        (hbefore (shell (some name :: args)).clears).printf (shell (some name :: args)).output
      rw [hreply, ok_bind]
      exact hprompt t₂ h₂.inScreen
    · exact hprompt t₁ h₁.inScreen

/-! ## Steps and runs -/

/-- There is room for what the key writes. -/
def Room (text : List UInt8) (e : CliEvent) : Prop :=
  e.IsPrintable → text.length < maxCmdLen - 1

/-- **Step**: where there is room, the text is edited as it should be. -/
theorem cliStep_typing (h : Typing text t) {e : CliEvent} (hroom : Room text e) :
    ∃ t', cliStep t e = .ok t' ∧ Typing (edit text e) t' := by
  cases e with
  | printable flags key => exact printable_text h (hroom trivial) flags key
  | backspace => exact backspace_text h
  | enter kmalloc shell => exact enter_text kmalloc shell h

/-- **Step**: where there is no room, the write is outside the array. -/
theorem cliStep_fault (h : Typing text t) {e : CliEvent} (hroom : ¬ Room text e) :
    cliStep t e = .error .fault := by
  have hlt := h.holds.length_lt
  simp only [maxCmdLen] at hlt
  cases e with
  | printable flags key =>
    have hnot : ¬ text.length < 255 := fun hless => hroom fun _ => hless
    exact printable_full h.holds (by omega) flags key
  | backspace => exact absurd False.elim hroom
  | enter kmalloc shell => exact absurd False.elim hroom

theorem typed_snoc (es : List CliEvent) (e : CliEvent) (text : List UInt8) :
    typed (es ++ [e]) text = edit (typed es text) e := by
  unfold typed
  rw [List.foldl_append]
  rfl

/-- **Run**: key events that do not fault edit the text as they should. -/
theorem cliRun_typing (h : Typing text t) {es : List CliEvent} {t' : Tty}
    (hrun : cliRun es t = .ok t') : Typing (typed es text) t' := by
  induction es using List.reverseRecOn generalizing t' with
  | nil =>
    obtain rfl := Except.ok.inj hrun
    exact h
  | append_singleton es e ih =>
    -- The keys before the last have not faulted, and neither has the last.
    unfold cliRun at hrun ih
    rw [foldlM_snoc] at hrun
    cases hbefore : es.foldlM cliStep t with
    | error _ =>
      rw [hbefore] at hrun
      cases hrun
    | ok t₁ =>
      rw [hbefore, ok_bind] at hrun
      have h₁ := ih hbefore
      rw [typed_snoc]
      by_cases hroom : Room (typed es text) e
      · obtain ⟨t₂, hstep, h₂⟩ := cliStep_typing h₁ hroom
        rw [hstep] at hrun
        obtain rfl := Except.ok.inj hrun
        exact h₂
      · rw [cliStep_fault h₁ hroom] at hrun
        cases hrun

/-- **Run**: key events do not fault just if each of them finds room. -/
theorem cliRun_runs_iff (h : Typing text t) (es : List CliEvent) :
    (∀ es', es' <+: es → Meets (cliRun es' t) (Typing (typed es' text)) (fun _ => False)) ↔
      ∀ es' e, es' ++ [e] <+: es → Room (typed es' text) e := by
  have hstep : ∀ es' t₁ e, Typing (typed es' text) t₁ →
      (Meets (cliStep t₁ e) (Typing (typed (es' ++ [e]) text)) (fun _ => False) ↔
        Room (typed es' text) e) := by
    intro es' t₁ e h₁
    rw [typed_snoc]
    by_cases hroom : Room (typed es' text) e
    · obtain ⟨t₂, hrun, h₂⟩ := cliStep_typing h₁ hroom
      rw [hrun, meets_ok]
      exact iff_of_true h₂ hroom
    · rw [cliStep_fault h₁ hroom, meets_error]
      exact iff_of_false not_false hroom
  have hrule := meets_prefixes_iff (I := fun es' => Typing (typed es' text)) hstep t es
  constructor
  · intro hall es' e hes'
    have hbefore := hall es' ((List.prefix_append es' [e]).trans hes')
    cases hrun : cliRun es' t with
    | error _ =>
      rw [hrun] at hbefore
      exact hbefore.elim
    | ok t' => exact (hrule.mp hall).2 es' e hes' t' hrun
  · intro hroom
    exact hrule.mpr ⟨h, fun es' e hes' _ _ => hroom es' e hes'⟩

/-- **When the command line stays terminated and in bounds.** On a terminal whose cursor is on the
screen and whose command line holds a text: no key event reads or writes outside the array, and
after each of them it holds the text as typed, just if no printable key is typed where there are
255 characters. -/
theorem commandLine_terminated_iff (t : Tty) (text : List UInt8) (es : List CliEvent)
    (hcursor : t.InScreen) (hcli : t.HoldsText text) :
    (∀ es', es' <+: es →
        Meets (cliRun es' t) (fun t' => t'.HoldsText (typed es' text)) (fun _ => False)) ↔
      ∀ es' e, es' ++ [e] <+: es → Room (typed es' text) e := by
  have h : Typing text t := ⟨hcursor, hcli⟩
  rw [← cliRun_runs_iff h es]
  constructor
  · intro hall es' hes'
    have hheld := hall es' hes'
    cases hrun : cliRun es' t with
    | error _ =>
      rw [hrun] at hheld
      exact hheld
    | ok t' => exact cliRun_typing h hrun
  · intro hall es' hes'
    exact (hall es' hes').mono fun _ htyping => htyping.holds

/-! ## The full command line -/

/-- The key A, with no flag set. -/
def keyA : CliEvent :=
  .printable ⟨false, false, false, false, false⟩ ⟨0x61, 0x41, .alphanumeric, .other, none⟩

theorem freshTty_typing : Typing [] freshTty :=
  ⟨⟨by decide, by decide⟩, List.not_mem_nil, List.replicate 255 0, Vector.toList_replicate⟩

/-- The text has at most one character for each key. -/
theorem typed_length_le (es : List CliEvent) (text : List UInt8) :
    (typed es text).length ≤ text.length + es.length := by
  induction es using List.reverseRecOn with
  | nil => exact Nat.le_refl _
  | append_singleton es e ih =>
    have hedit : (edit (typed es text) e).length ≤ (typed es text).length + 1 := by
      cases e with
      | printable flags key =>
        unfold edit
        dsimp only
        split
        · exact Nat.le_succ _
        · rw [List.length_take, List.length_append]
          exact Nat.min_le_right _ _
      | backspace =>
        unfold edit
        rw [List.length_dropLast]
        omega
      | enter kmalloc shell => exact Nat.zero_le _
    rw [typed_snoc, List.length_append, List.length_singleton]
    omega

theorem room_of_few {es es' : List CliEvent} {e : CliEvent} (hfew : text.length + es.length ≤ 255)
    (hes' : es' ++ [e] <+: es) : Room (typed es' text) e := by
  intro _
  have hlen := hes'.length_le
  have hle := typed_length_le es' text
  rw [List.length_append, List.length_singleton] at hlen
  simp only [maxCmdLen]
  omega

/-- Two characters are typed and one of them is taken back. -/
theorem commandLine_terminated_freshTty :
    Meets (cliRun [keyA, keyA, .backspace] freshTty) (fun t' => t'.HoldsText [0x61])
      (fun _ => False) :=
  (commandLine_terminated_iff freshTty [] [keyA, keyA, .backspace] freshTty_typing.inScreen
    freshTty_typing.holds).mpr (fun _ _ hes' => room_of_few (by decide) hes') _ List.prefix_rfl

/-- There is room for 255 characters, whatever the keys. -/
theorem cliRun_of_few (h : Typing text t) {es : List CliEvent}
    (hfew : text.length + es.length ≤ 255) :
    ∃ t', cliRun es t = .ok t' ∧ Typing (typed es text) t' := by
  have hruns := (cliRun_runs_iff h es).mpr (fun _ _ hes' => room_of_few hfew hes') es
    List.prefix_rfl
  cases hrun : cliRun es t with
  | error _ =>
    rw [hrun] at hruns
    exact hruns.elim
  | ok t' => exact ⟨t', rfl, cliRun_typing h hrun⟩

theorem typed_keyA {n : ℕ} (hn : n ≤ 255) :
    typed (List.replicate n keyA) [] = List.replicate n 0x61 := by
  induction n with
  | zero => rfl
  | succ n ih =>
    have hedit : edit (List.replicate n 0x61) keyA =
        (List.replicate n (0x61 : UInt8) ++ [0x61]).take 255 := rfl
    have hshort : (List.replicate n (0x61 : UInt8) ++ [0x61]).length ≤ 255 := by simpa using hn
    rw [List.replicate_succ', typed_snoc, ih (Nat.le_of_succ_le hn), hedit,
      List.take_of_length_le hshort, List.replicate_succ']

/-- The 256th character leads to a write behind the array. -/
theorem commandLine_fault : cliRun (List.replicate 256 keyA) freshTty = .error .fault := by
  have hfew : ([] : List UInt8).length + (List.replicate 255 keyA).length ≤ 255 := by
    rw [List.length_replicate]
    exact Nat.le_refl 255
  obtain ⟨t', hrun, htyping⟩ := cliRun_of_few freshTty_typing hfew
  have hfull : ¬ Room (typed (List.replicate 255 keyA) []) keyA := by
    intro hroom
    have hlt := hroom trivial
    rw [typed_keyA (Nat.le_refl 255), List.length_replicate] at hlt
    exact Nat.lt_irrefl 255 hlt
  rw [List.replicate_succ']
  unfold cliRun at hrun ⊢
  rw [foldlM_snoc, hrun, ok_bind, cliStep_fault htyping hfull]

end Kfs.Drivers
