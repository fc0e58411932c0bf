import Kfs.Drivers.Printf
import Kfs.Drivers.Terminal

/-!
# What a format asks for

A format is a list of directives: bytes that are printed as they are, and conversions.

## Layers

- `Directive`, `spell`: formats and how they are written;
- `render`: what is printed for a format and its arguments;
- `vprintfLoop_spell`: the loop prints it, and goes on behind it with the arguments that are left;
- `vprintf_prints`: what is on the screen then;
- `vprintf_stays_iff`: the formats that the loop does not run out of.
-/

namespace Kfs.Drivers

open Kfs.Lib Kfs.Utils

variable {mem : UInt32 → List UInt8} {t : Tty}

/-! ## What a format asks for -/

/-- A part of a format. -/
inductive Directive where
  /-- A byte that is printed as it is. -/
  | literal (c : UInt8)
  /-- `%` and the byte behind it. -/
  | convert (c : UInt8)
  deriving DecidableEq, Repr

namespace Directive

/-- How the directive is written. -/
def spell : Directive → List UInt8
  | .literal c => [c]
  | .convert c => [0x25, c]

/-- The null byte ends a format, and `%` is not printed as it is. -/
def Valid : Directive → Prop
  | .literal c => c ≠ 0 ∧ c ≠ 0x25
  | .convert c => c ≠ 0

end Directive

/-- How a format is written. -/
def spell (ds : List Directive) : List UInt8 := ds.flatMap Directive.spell

/-- What an argument is printed as. -/
def argText (mem : UInt32 → List UInt8) (c : UInt8) (w : UInt32) : Option (List UInt8) :=
  if c = 0x73 then if w = 0 then some nullText else cString (mem w)
  else if c = 0x69 ∨ c = 0x64 then some (signedText w.toInt32.toInt)
  else if c = 0x75 then some (digitsText 10 w.toNat)
  else if c = 0x78 ∨ c = 0x58 then some (hexText (c = 0x58) w.toNat)
  else if c = 0x70 then some ([0x30, 0x78] ++ hexText false w.toNat)
  else some [w.toUInt8]

/-- The conversions that take an argument: `s`, `i`, `d`, `u`, `x`, `X`, `p` and `c`. -/
def takesArg (c : UInt8) : Bool := c ∈ [0x73, 0x69, 0x64, 0x75, 0x78, 0x58, 0x70, 0x63]

/-- What is printed for a format, if there are arguments enough and strings where they are asked
for. -/
def render (mem : UInt32 → List UInt8) : List Directive → List UInt32 → Option (List UInt8)
  | [], _ => some []
  | .literal c :: ds, ap => (render mem ds ap).map (c :: ·)
  | .convert c :: ds, ap =>
    if takesArg c then
      match ap with
      | [] => none
      | w :: ap => do
        let text ← argText mem c w
        let rest ← render mem ds ap
        some (text ++ rest)
    else (render mem ds ap).map ((if c = 0x25 then [0x25] else []) ++ ·)

/-! ## The loop -/

section Loop

variable {ds ds' : List Directive} {ap : List UInt32} {c : UInt8} {w : UInt32}
  {text fmt rest : List UInt8}

theorem conversion_none (h : takesArg c = false) : conversion mem c = none := by
  unfold takesArg at h
  simp only [List.mem_cons, List.not_mem_nil, or_false, decide_eq_false_iff_not, not_or] at h
  simp [conversion, h]

/-- A conversion prints the text of its argument. -/
theorem conversion_eq (h : takesArg c = true) (htext : argText mem c w = some text) :
    ∃ put, conversion mem c = some put ∧ ∀ t, put w t = ftPutstr text t := by
  unfold takesArg at h
  simp only [List.mem_cons, List.not_mem_nil, or_false, decide_eq_true_eq] at h
  unfold argText at htext
  rcases h with rfl | rfl | rfl | rfl | rfl | rfl | rfl | rfl
  · refine ⟨_, rfl, fun t => ?_⟩
    rw [if_pos rfl] at htext
    unfold ftPutstrAt
    by_cases hnull : w = 0
    · rw [if_pos hnull] at htext
      rw [if_pos hnull, ← Option.some.inj htext]
      exact putstrLoop_eq (cString_append (by decide) []) t
    · rw [if_neg hnull] at htext
      rw [if_neg hnull]
      exact putstrLoop_eq htext t
  · exact ⟨_, rfl, fun t => Option.some.inj htext ▸ ftPutnbr_eq _ t⟩
  · exact ⟨_, rfl, fun t => Option.some.inj htext ▸ ftPutnbr_eq _ t⟩
  · exact ⟨_, rfl, fun t => Option.some.inj htext ▸ ftPutunsignednbr_eq _ t⟩
  · exact ⟨_, rfl, fun t => Option.some.inj htext ▸ ftPuthexa_eq _ _ t⟩
  · exact ⟨_, rfl, fun t => Option.some.inj htext ▸ ftPuthexa_eq _ _ t⟩
  · exact ⟨_, rfl, fun t => Option.some.inj htext ▸ ftPuthexa_addr_eq _ _ t⟩
  · exact ⟨_, rfl, fun t => Option.some.inj htext ▸ (ftPutstr_singleton _ t).symm⟩

theorem loop_nul (rest : List UInt8) (ap : List UInt32) (t : Tty) :
    vprintfLoop mem (0 :: rest) ap t = .ok t := by
  rw [vprintfLoop.eq_def]
  dsimp only
  rw [if_pos rfl]

theorem loop_literal (hzero : c ≠ 0) (hpercent : c ≠ 0x25) (fmt : List UInt8) (ap : List UInt32)
    (t : Tty) :
    vprintfLoop mem (c :: fmt) ap t = ftPutchar c t >>= vprintfLoop mem fmt ap := by
  rw [vprintfLoop.eq_def]
  dsimp only
  rw [if_neg hzero, if_neg hpercent]

theorem loop_convert (c : UInt8) (fmt : List UInt8) (ap : List UInt32) (t : Tty) :
    vprintfLoop mem (0x25 :: c :: fmt) ap t =
      convert mem c ap t >>= fun r => vprintfLoop mem fmt r.1 r.2 := by
  rw [vprintfLoop.eq_def]
  dsimp only
  rw [if_neg (by decide), if_pos rfl]

/-- The arguments that a format takes. -/
def argCount : List Directive → ℕ
  | [] => 0
  | .literal _ :: ds => argCount ds
  | .convert c :: ds => (if takesArg c then 1 else 0) + argCount ds

/-- **Loop**: what a format asks for is printed, and the loop goes on behind it with the arguments
that are left. -/
theorem vprintfLoop_spell (hvalid : ∀ d ∈ ds, d.Valid) (htext : render mem ds ap = some text)
    (rest : List UInt8) (t : Tty) :
    vprintfLoop mem (spell ds ++ rest) ap t =
      ftPutstr text t >>= vprintfLoop mem rest (ap.drop (argCount ds)) := by
  induction ds generalizing ap text t with
  | nil =>
    rw [← Option.some.inj htext]
    rfl
  | cons d ds ih =>
    have hds : ∀ d' ∈ ds, d'.Valid := fun d' h => hvalid d' (List.mem_cons_of_mem d h)
    have hd := hvalid d List.mem_cons_self
    -- a directive takes its bytes and at most one argument
    cases d with
    | literal c =>
      rw [render, Option.map_eq_some_iff] at htext
      obtain ⟨text', htext', rfl⟩ := htext
      show vprintfLoop mem (c :: (spell ds ++ rest)) ap t = _
      rw [loop_literal hd.1 hd.2, ftPutstr_cons, bind_assoc]
      congr 1
      funext t'
      exact ih hds htext' t'
    | convert c =>
      show vprintfLoop mem (0x25 :: c :: (spell ds ++ rest)) ap t = _
      rw [loop_convert]
      cases harg : takesArg c with
      | true =>
        rw [render.eq_def] at htext
        dsimp only at htext
        rw [if_pos harg] at htext
        cases ap with
        | nil => cases htext
        | cons w ap =>
          obtain ⟨text₁, htext₁, htext⟩ := Option.bind_eq_some_iff.mp htext
          obtain ⟨text₂, htext₂, htext⟩ := Option.bind_eq_some_iff.mp htext
          -- what the conversion prints does not depend on what comes behind it
          obtain ⟨put, hput, hprint⟩ := conversion_eq harg htext₁
          have hcount : argCount (.convert c :: ds) = argCount ds + 1 := by
            simp [argCount, harg, Nat.add_comm]
          have hconvert : convert mem c (w :: ap) t =
              ftPutstr text₁ t >>= fun t' => .ok (ap, t') := by
            simp [convert, hput, vaArg, hprint]
          rw [hconvert, ← Option.some.inj htext, ftPutstr_append, hcount, List.drop_succ_cons,
            bind_assoc, bind_assoc]
          congr 1
          funext t'
          exact ih hds htext₂ t'
      | false =>
        rw [render.eq_def] at htext
        dsimp only at htext
        rw [harg, if_neg (by decide), Option.map_eq_some_iff] at htext
        obtain ⟨text', htext', rfl⟩ := htext
        have hcount : argCount (.convert c :: ds) = argCount ds := by
          simp [argCount, harg]
        have hconvert : convert mem c ap t =
            ftPutstr (if c = 0x25 then [0x25] else []) t >>= fun t' => .ok (ap, t') := by
          rw [convert, conversion_none harg]
          by_cases hc : c = 0x25 <;> simp [hc]
        rw [hconvert, ftPutstr_append, hcount, bind_assoc, bind_assoc]
        congr 1
        funext t'
        exact ih hds htext' t'

/-- A `%` in front of the null byte: the loop goes on behind the string. -/
theorem vprintfLoop_dangling (hvalid : ∀ d ∈ ds, d.Valid) (rest : List UInt8) (ap : List UInt32)
    (t : Tty) :
    vprintfLoop mem (spell ds ++ 0x25 :: 0 :: rest) ap t = vprintfLoop mem (spell ds ++ rest) ap t := by
  induction ds generalizing ap t with
  | nil =>
    -- the null byte is taken for a conversion that is unknown
    show vprintfLoop mem (0x25 :: 0 :: rest) ap t = _
    rw [loop_convert, convert, conversion_none (by decide)]
    rfl
  | cons d ds ih =>
    have hds : ∀ d' ∈ ds, d'.Valid := fun d' h => hvalid d' (List.mem_cons_of_mem d h)
    have hd := hvalid d List.mem_cons_self
    cases d with
    | literal c =>
      show vprintfLoop mem (c :: (spell ds ++ _)) ap t = vprintfLoop mem (c :: (spell ds ++ _)) ap t
      rw [loop_literal hd.1 hd.2, loop_literal hd.1 hd.2]
      congr 1
      funext t'
      exact ih hds ap t'
    | convert c =>
      show vprintfLoop mem (0x25 :: c :: (spell ds ++ _)) ap t =
        vprintfLoop mem (0x25 :: c :: (spell ds ++ _)) ap t
      rw [loop_convert, loop_convert]
      congr 1
      funext r
      exact ih hds r.1 r.2

/-- Every string is a format, which may end with a `%`. -/
theorem exists_spell (h : (0 : UInt8) ∉ fmt) : ∃ ds, (∀ d ∈ ds, Directive.Valid d) ∧
    (fmt = spell ds ∨ fmt = spell ds ++ [0x25]) := by
  -- The induction is on the length, as a directive may take two bytes.
  induction hlen : fmt.length using Nat.strong_induction_on generalizing fmt with
  | _ n ih =>
    match fmt, hlen with
    | [], _ => exact ⟨[], by simp, .inl rfl⟩
    | [c], _ =>
      by_cases hpercent : c = 0x25
      · exact ⟨[], by simp, .inr (by simp [spell, hpercent])⟩
      · have hzero : c ≠ 0 := fun hc => h (by simp [hc])
        exact ⟨[.literal c], by simp [Directive.Valid, hzero, hpercent], .inl rfl⟩
    | c :: c' :: fmt, hlen =>
      rw [List.mem_cons, List.mem_cons, not_or, not_or] at h
      by_cases hpercent : c = 0x25
      · obtain ⟨ds, hds, hfmt⟩ := ih fmt.length (by simp only [List.length_cons] at hlen; omega) h.2.2 rfl
        refine ⟨.convert c' :: ds, ?_, ?_⟩
        · simpa [Directive.Valid, Ne.symm h.2.1] using hds
        · subst hpercent
          exact hfmt.imp (fun heq => congrArg (0x25 :: c' :: ·) heq)
            (fun heq => congrArg (0x25 :: c' :: ·) heq)
      · have hrest : (0 : UInt8) ∉ c' :: fmt := by simp [h.2]
        obtain ⟨ds, hds, hfmt⟩ := ih (c' :: fmt).length (by simp only [List.length_cons] at *; omega) hrest rfl
        refine ⟨.literal c :: ds, ?_, ?_⟩
        · simpa [Directive.Valid, Ne.symm h.1, hpercent] using hds
        · exact hfmt.imp (fun heq => congrArg (c :: ·) heq) (fun heq => congrArg (c :: ·) heq)

theorem spell_append (ds ds' : List Directive) : spell (ds ++ ds') = spell ds ++ spell ds' :=
  List.flatMap_append

/-- Without a null byte the loop does not come to an end. -/
theorem vprintfLoop_unterminated (hvalid : ∀ d ∈ ds, d.Valid) (ap : List UInt32) (t : Tty) :
    Meets (vprintfLoop mem (spell ds) ap t) (fun _ => False) (fun _ => True) := by
  induction ds generalizing ap t with
  | nil => trivial
  | cons d ds ih =>
    have hds : ∀ d' ∈ ds, d'.Valid := fun d' h => hvalid d' (List.mem_cons_of_mem d h)
    have hd := hvalid d List.mem_cons_self
    -- A step that stops ends the loop; after any other the rest of the format is left.
    have hstep : ∀ {α : Type} (r : Kern α), Meets r (fun _ => True) (fun _ => True) := by
      intro α r
      cases r <;> trivial
    cases d with
    | literal c =>
      show Meets (vprintfLoop mem (c :: spell ds) ap t) _ _
      rw [loop_literal hd.1 hd.2]
      exact (hstep _).bind fun t' _ => ih hds ap t'
    | convert c =>
      show Meets (vprintfLoop mem (0x25 :: c :: spell ds) ap t) _ _
      rw [loop_convert]
      exact (hstep _).bind fun r _ => ih hds r.1 r.2

/-- Null words are arguments for every format. -/
theorem exists_render (ds : List Directive) :
    ∃ text, render mem ds (List.replicate (argCount ds) 0) = some text := by
  induction ds with
  | nil => exact ⟨[], rfl⟩
  | cons d ds ih =>
    obtain ⟨text, htext⟩ := ih
    cases d with
    | literal c =>
      refine ⟨c :: text, ?_⟩
      show (render mem ds (List.replicate (argCount ds) 0)).map (c :: ·) = _
      rw [htext]
      rfl
    | convert c =>
      cases harg : takesArg c with
      | true =>
        -- the null pointer is printed as a text of its own
        have hzero : ∃ text', argText mem c 0 = some text' := by
          unfold argText
          rw [if_pos rfl]
          split_ifs <;> exact ⟨_, rfl⟩
        obtain ⟨text', htext'⟩ := hzero
        refine ⟨text' ++ text, ?_⟩
        rw [argCount, harg, if_pos rfl, Nat.add_comm, List.replicate_succ, render.eq_def]
        dsimp only
        rw [harg, if_pos rfl, htext', htext]
        rfl
      | false =>
        refine ⟨(if c = 0x25 then [0x25] else []) ++ text, ?_⟩
        rw [argCount, harg, if_neg (by decide), Nat.zero_add, render.eq_def]
        dsimp only
        rw [harg, if_neg (by decide), htext]
        rfl

/-- Refreshing the screen does not fault. -/
theorem vgaVprintf_eq (fmt : List UInt8) (ap : List UInt32) (t : Tty) :
    vgaVprintf mem fmt ap t = vprintfLoop mem fmt ap t := by
  unfold vgaVprintf
  cases vprintfLoop mem fmt ap t with
  | error e => rfl
  | ok t' =>
    rw [ok_bind, vgaRefreshScreen_eq]
    rfl

/-- **Formatted printing.** Where there are arguments enough, and strings where the format asks for
them, `vga_vprintf` puts on the screen what the format asks for: each number with all its digits and
its sign, also the one without an opposite. -/
theorem vprintf_prints {base : ℕ} {stop : Bool} {mode : UInt8} {s : Terminal}
    (hshows : Shows base stop mode t s) (hvalid : ∀ d ∈ ds, d.Valid)
    (htext : render mem ds ap = some text) (rest : List UInt8) :
    ∃ t', vgaVprintf mem (spell ds ++ 0 :: rest) ap t = .ok t' ∧
      Shows base stop mode t' (s.print mode text) ∧
      vgaRefreshScreen t' = .ok ((s.print mode text).screen,
        ⟨(s.print mode text).x.toUInt8, (s.print mode text).y.toUInt8⟩) := by
  obtain ⟨t', hprint, hshows'⟩ := hshows.print text
  refine ⟨t', ?_, hshows', hshows'.screen⟩
  rw [vgaVprintf_eq, vprintfLoop_spell hvalid htext, hprint, ok_bind, loop_nul]

theorem freshTty_inScreen : freshTty.InScreen := ⟨by decide, by decide⟩

/-- `vga_printf("%s=%d%%", "kfs", -5)` on a new terminal. -/
theorem vprintf_prints_freshTty : ∃ t',
    vgaVprintf (fun _ => [0x6B, 0x66, 0x73, 0]) [0x25, 0x73, 0x3D, 0x25, 0x64, 0x25, 0x25, 0]
        [0x1000, 0xFFFFFFFB] freshTty = .ok t' ∧
      Shows 0 true 0x1F t'
        ((Terminal.blank 0x1F 0 0).print 0x1F [0x6B, 0x66, 0x73, 0x3D, 0x2D, 0x35, 0x25]) := by
  have hclear : ∀ i < vgaWidth * ttyHistSize, freshTty.framebuffer i = ⟨0x00, freshTty.mode⟩ :=
    fun i hi => if_pos hi
  have hshows := shows_blank hclear rfl freshTty_inScreen
  let ds : List Directive := [.convert 0x73, .literal 0x3D, .convert 0x64, .convert 0x25]
  have hvalid : ∀ d ∈ ds, d.Valid := by simp [ds, Directive.Valid]
  have htext : render (fun _ => [0x6B, 0x66, 0x73, 0]) ds [0x1000, 0xFFFFFFFB] =
      some [0x6B, 0x66, 0x73, 0x3D, 0x2D, 0x35, 0x25] := by decide
  obtain ⟨t', hrun, hshows', -⟩ := vprintf_prints hshows hvalid htext []
  exact ⟨t', hrun, hshows'⟩

/-- **A format that ends with `%`** does not end at its null byte. With some arguments the loop stays
inside the object that holds the format just if every `%` has a byte behind it; where there is none
and another format follows in memory, both are printed. -/
theorem vprintf_stays_iff (hscreen : t.InScreen) (hfmt : (0 : UInt8) ∉ fmt) :
    ((∃ ap t', vgaVprintf mem (fmt ++ [0]) ap t = .ok t') ↔
      ∃ ds, (∀ d ∈ ds, Directive.Valid d) ∧ fmt = spell ds) ∧
    ∀ ds ds' ap rest, (∀ d ∈ ds, Directive.Valid d) → fmt = spell ds ++ [0x25] →
      vgaVprintf mem (fmt ++ 0 :: (spell ds' ++ 0 :: rest)) ap t =
        vgaVprintf mem (spell (ds ++ ds') ++ 0 :: rest) ap t := by
  constructor
  · constructor
    · rintro ⟨ap, t', hrun⟩
      obtain ⟨ds, hds, rfl | rfl⟩ := exists_spell hfmt
      · exact ⟨ds, hds, rfl⟩
      · rw [vgaVprintf_eq, List.append_assoc] at hrun
        have hdangling : vprintfLoop mem (spell ds ++ [0x25, 0]) ap t =
            vprintfLoop mem (spell ds ++ []) ap t := vprintfLoop_dangling hds [] ap t
        rw [List.append_nil] at hdangling
        exact ((vprintfLoop_unterminated hds ap t).result (hdangling.symm.trans hrun)).elim
    · rintro ⟨ds, hds, rfl⟩
      obtain ⟨text, htext⟩ : ∃ text, render mem ds (List.replicate (argCount ds) 0) = some text :=
        exists_render ds
      refine ⟨List.replicate (argCount ds) 0, text.foldl (fun t' c => t'.fed c) t, ?_⟩
      rw [vgaVprintf_eq, vprintfLoop_spell hds htext, (ftPutstr_eq text hscreen).1, ok_bind, loop_nul]
  · intro ds ds' ap rest hds heq
    rw [heq, vgaVprintf_eq, vgaVprintf_eq, List.append_assoc]
    show vprintfLoop mem (spell ds ++ 0x25 :: 0 :: (spell ds' ++ 0 :: rest)) ap t = _
    rw [vprintfLoop_dangling hds, spell_append, List.append_assoc]

/-- The format `"%"` with the format `"a"` behind it. -/
theorem vprintf_stays_iff_freshTty :
    (¬ ∃ ap t', vgaVprintf (fun _ => []) [0x25, 0] ap freshTty = .ok t') ∧
      vgaVprintf (fun _ => []) [0x25, 0, 0x61, 0] [] freshTty =
        vgaVprintf (fun _ => []) [0x61, 0] [] freshTty := by
  have hfmt : (0 : UInt8) ∉ [0x25] := by decide
  have h := @vprintf_stays_iff (fun _ => []) freshTty [0x25] freshTty_inScreen hfmt
  refine ⟨fun hrun => ?_, h.2 [] [.literal 0x61] [] [] (by simp) rfl⟩
  obtain ⟨ds, hvalid, hds⟩ := h.1.mp hrun
  match ds with
  | [] => cases hds
  | .convert c :: ds => cases hds
  | .literal c :: ds => exact (hvalid _ List.mem_cons_self).2 (List.cons.inj hds).1.symm

end Loop

end Kfs.Drivers
