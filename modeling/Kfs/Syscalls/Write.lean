import Kfs.Drivers.Format
import Kfs.Memory.Kmalloc
import Kfs.Memory.UserCopy

/-!
# `write`

`src/syscalls/write.c`. The text is copied into a buffer of the kernel, ended with a null byte,
printed with `vga_printf("%s", dup)`, and the buffer is freed. What `kmalloc` answers is an argument;
physical memory and its translation are those of `usercopy`, with the tables as they are before the
call.

## Layers

- `sysWrite`: the code;
- `Buffer`: what `kmalloc` promises of a block;
- `copyFromUser_spec`, `kernelObject_copied`, `printf_object`: its three parts;
- `sysWrite_run`: the path on which the text is printed;
- `sysWrite_spec`: all the paths.
-/

namespace Kfs.Syscalls

open Kfs.Lib Kfs.Memory Kfs.Drivers

def einval : ℕ := 22 -- EINVAL
def enomem : ℕ := 12 -- ENOMEM
def efault : ℕ := 14 -- EFAULT

/-- What `write` returns, and what it leaves behind: physical memory, the current terminal, and the
blocks that it has freed. -/
structure WriteResult where
  ret : ℤ
  bytes : ℕ → ℕ
  tty : Tty
  freed : List ℕ

/-- The object of `n` bytes at a kernel address. -/
def kernelObject (tr : ℕ → Option ℕ) (k n : ℕ) (bytes : ℕ → ℕ) : Kern (List UInt8) :=
  (List.range n).mapM fun i =>
    match tr (k + i) with
    | some p => .ok (bytes p).toUInt8
    | none => .error .fault

/-- `*ptr = byte` at a kernel address. -/
def storeKernel (tr : ℕ → Option ℕ) (ptr byte : ℕ) (bytes : ℕ → ℕ) : Kern (ℕ → ℕ) :=
  match tr ptr with
  | some p => .ok (writeByte bytes p byte)
  | none => .error .fault

/-- `sys_write`; `kmalloc` is the address of the block that `kmalloc(size + 1)` returns, or 0. -/
def sysWrite (cr3 kmalloc str size : ℕ) (bytes : ℕ → ℕ) (tty : Tty) : Kern WriteResult :=
  if size ≥ maxKmallocSize then .ok ⟨-einval, bytes, tty, []⟩
  else if kmalloc = 0 then .ok ⟨-enomem, bytes, tty, []⟩
  else do
    let tr := translate bytes cr3
    let (notCopied, bytes) ← copyFromUser cr3 kmalloc str size bytes
    if notCopied ≠ 0 then .ok ⟨-efault, bytes, tty, [kmalloc]⟩
    else do
      let bytes ← storeKernel tr (kmalloc + size) 0 bytes
      let dup ← kernelObject tr kmalloc (size + 1) bytes
      let tty ← vgaVprintf (fun _ => dup) [0x25, 0x73, 0] [kmalloc.toUInt32] tty -- "%s"
      .ok ⟨size, bytes, tty, [kmalloc]⟩

/-! ## The buffer -/

/-- What `kmalloc` promises: the block lies in the linear map of the kernel, and shares no frame with
the pages of the user range. -/
structure Buffer (bytes : ℕ → ℕ) (cr3 k str size : ℕ) : Prop where
  above : kernelVaddrBase ≤ k
  below : k + (size + 1) ≤ 2 ^ 32
  linear : ∀ i ≤ size, translate bytes cr3 (k + i) = some (k - kernelVaddrBase + i)
  apart : ∀ i ≤ size, ∀ j < size, translate bytes cr3 (k + i) ≠ translate bytes cr3 (str + j)

/-- The bytes of a user range. -/
def userBytes (bytes : ℕ → ℕ) (cr3 str size : ℕ) : List UInt8 :=
  (List.range size).map fun i => ((translate bytes cr3 (str + i)).elim 0 bytes).toUInt8

/-- The bytes before the first null byte. -/
def upToNul (text : List UInt8) : List UInt8 := text.takeWhile (· ≠ 0)

variable {bytes : ℕ → ℕ} {cr3 k str size : ℕ}

/-- With a null byte behind it, a text is a string up to its first null byte. -/
theorem cString_upToNul (text : List UInt8) : cString (text ++ [0]) = some (upToNul text) := by
  induction text with
  | nil => rfl
  | cons c text ih =>
    rw [List.cons_append, cString, ih]
    by_cases hc : c = 0
    · simp [hc, upToNul]
    · simp [hc, upToNul]

/-- The buffer holds the bytes of the user range, and a null byte behind them. -/
theorem kernelObject_copied {bytes' : ℕ → ℕ} (hbuffer : Buffer bytes cr3 k str size)
    (hmapped : ∀ i < size, translate bytes cr3 (str + i) ≠ none)
    (hcopied : Copied (translate bytes cr3) k str size bytes bytes') :
    kernelObject (translate bytes cr3) k (size + 1)
        (writeByte bytes' (k - kernelVaddrBase + size) 0) =
      .ok (userBytes bytes cr3 str size ++ [0]) := by
  have hbyte : ∀ i ∈ List.range (size + 1),
      (match translate bytes cr3 (k + i) with
        | some p => .ok (writeByte bytes' (k - kernelVaddrBase + size) 0 p).toUInt8
        | none => .error .fault : Kern UInt8) =
      .ok (if i < size then ((translate bytes cr3 (str + i)).elim 0 bytes).toUInt8 else 0) := by
    intro i hi
    have hle : i ≤ size := Nat.le_of_lt_succ (List.mem_range.mp hi)
    rw [hbuffer.linear i hle]
    refine congrArg Except.ok ?_
    unfold writeByte
    by_cases hlast : i = size
    · subst hlast
      rw [if_pos rfl, if_neg (Nat.lt_irrefl i)]
      rfl
    · have hlt : i < size := Nat.lt_of_le_of_ne hle hlast
      obtain ⟨q, hq⟩ := Option.ne_none_iff_exists'.mp (hmapped i hlt)
      -- No later byte of the buffer is in the same place.
      have hvalue := hcopied.value i hlt _ q (hbuffer.linear i hle) hq fun j hij hj hsame => by
        have hplace := Option.some.inj ((hbuffer.linear j (Nat.le_of_lt hj)).symm.trans hsame)
        omega
      rw [if_neg (by omega), if_pos hlt, hvalue, hq]
      rfl
  unfold kernelObject userBytes
  rw [mapM_ok hbyte, List.range_succ, List.map_append]
  congr 2
  · apply List.map_congr_left
    intro i hi
    rw [if_pos (List.mem_range.mp hi)]
  · simp

/-- The object is printed up to its first null byte. -/
theorem printf_object {base : ℕ} {stop : Bool} {mode : UInt8} {tty : Tty} {s : Terminal}
    (hshows : Shows base stop mode tty s) (hbuffer : Buffer bytes cr3 k str size)
    (text : List UInt8) :
    ∃ tty', vgaVprintf (fun _ => text ++ [0]) [0x25, 0x73, 0] [k.toUInt32] tty = .ok tty' ∧
      Shows base stop mode tty' (s.print mode (upToNul text)) := by
  have hpos : k.toUInt32 ≠ 0 := by
    intro hzero
    have hnat := congrArg UInt32.toNat hzero
    have hmod : k % 2 ^ 32 = 0 := hnat
    have habove := hbuffer.above
    have hbelow := hbuffer.below
    have hbase : 0 < kernelVaddrBase := by decide
    omega
  have hrender : render (fun _ => text ++ [0]) [.convert 0x73] [k.toUInt32] =
      some (upToNul text) := by
    have harg : argText (fun _ => text ++ [0]) 0x73 k.toUInt32 = some (upToNul text) := by
      unfold argText
      rw [if_pos rfl, if_neg hpos, cString_upToNul]
    unfold render
    rw [if_pos (by decide)]
    dsimp only
    rw [harg]
    simp [render]
  have hvalid : ∀ d ∈ [Directive.convert 0x73], d.Valid := by simp [Directive.Valid]
  obtain ⟨tty', hprint, hshows'⟩ := hshows.print (upToNul text)
  refine ⟨tty', ?_, hshows'⟩
  have hloop := vprintfLoop_spell hvalid hrender [0] tty
  rw [vgaVprintf_eq]
  refine hloop.trans ?_
  rw [hprint, ok_bind, loop_nul]

/-- The process may read the range. -/
def Readable (bytes : ℕ → ℕ) (cr3 str size : ℕ) : Prop :=
  size = 0 ∨ Accessible bytes cr3 (pdeUsBit ||| pdePresentBit) str size

/-- What `write` is for: it refuses a size that `kmalloc` does not serve, reports a lack of memory and
a range that the process may not read, and otherwise prints what is before the first null byte of
the range and returns the size. The buffer is freed whenever there is one, and no other byte of
memory is written. -/
structure Written (base : ℕ) (stop : Bool) (mode : UInt8) (bytes : ℕ → ℕ) (cr3 k str size : ℕ)
    (tty : Tty) (s : Terminal) (r : WriteResult) : Prop where
  tooLarge : size ≥ maxKmallocSize → r.ret = -22
  noMemory : size < maxKmallocSize → k = 0 → r.ret = -12
  notReadable : size < maxKmallocSize → k ≠ 0 → ¬ Readable bytes cr3 str size → r.ret = -14
  readable : size < maxKmallocSize → k ≠ 0 → Readable bytes cr3 str size → r.ret = size
  printed : 0 ≤ r.ret →
    Shows base stop mode r.tty (s.print mode (upToNul (userBytes bytes cr3 str size)))
  silent : r.ret < 0 → r.tty = tty
  freed : r.freed = if size < maxKmallocSize ∧ k ≠ 0 then [k] else []
  frame : ∀ p, (∀ i ≤ size, p ≠ k - kernelVaddrBase + i) → r.bytes p = bytes p

/-- A range that can be read is mapped. -/
theorem Readable.mapped (h : Readable bytes cr3 str size) :
    ∀ i < size, translate bytes cr3 (str + i) ≠ none := by
  intro i hi
  cases h with
  | inl hempty => omega
  | inr hrange => exact translate_of_pageHas (hrange.2 (str + i) (by omega) (by omega))

/-- The path on which the text is printed. -/
theorem sysWrite_run {bytes' bytes'' : ℕ → ℕ} {dup : List UInt8} {tty tty' : Tty}
    (hsmall : size < maxKmallocSize) (hnull : k ≠ 0)
    (hcopy : copyFromUser cr3 k str size bytes = .ok (0, bytes'))
    (hstore : storeKernel (translate bytes cr3) (k + size) 0 bytes' = .ok bytes'')
    (hobject : kernelObject (translate bytes cr3) k (size + 1) bytes'' = .ok dup)
    (hprint : vgaVprintf (fun _ => dup) [0x25, 0x73, 0] [k.toUInt32] tty = .ok tty') :
    sysWrite cr3 k str size bytes tty = .ok ⟨size, bytes'', tty', [k]⟩ := by
  unfold sysWrite
  rw [if_neg (Nat.not_le.mpr hsmall), if_neg hnull]
  dsimp only
  rw [hcopy, ok_bind]
  dsimp only
  rw [if_neg (fun h => h rfl), hstore, ok_bind, hobject, ok_bind, hprint, ok_bind]

/-- What is left where nothing is printed. -/
theorem written_refused {base : ℕ} {stop : Bool} {mode : UInt8} {tty : Tty} {s : Terminal} {ret : ℤ}
    {freed : List ℕ} (hneg : ret < 0) (hlarge : size ≥ maxKmallocSize → ret = -22)
    (hmemory : size < maxKmallocSize → k = 0 → ret = -12)
    (hread : size < maxKmallocSize → k ≠ 0 → ¬ Readable bytes cr3 str size ∧ ret = -14)
    (hfreed : freed = if size < maxKmallocSize ∧ k ≠ 0 then [k] else []) :
    Written base stop mode bytes cr3 k str size tty s ⟨ret, bytes, tty, freed⟩ where
  tooLarge := hlarge
  noMemory := hmemory
  notReadable hsmall hnull _ := (hread hsmall hnull).2
  readable hsmall hnull h := absurd h (hread hsmall hnull).1
  printed h := absurd h (Int.not_le.mpr hneg)
  silent _ := rfl
  freed := hfreed
  frame _ _ := rfl

/-- And where the text is. -/
theorem written_readable {base : ℕ} {stop : Bool} {mode : UInt8} {tty tty' : Tty} {s : Terminal}
    {bytes' : ℕ → ℕ} {last : ℕ} (hsmall : size < maxKmallocSize) (hnull : k ≠ 0)
    (hread : Readable bytes cr3 str size)
    (hshows : Shows base stop mode tty'
      (s.print mode (upToNul (userBytes bytes cr3 str size))))
    (hframe : ∀ p, (∀ i ≤ size, p ≠ k - kernelVaddrBase + i) →
      writeByte bytes' last 0 p = bytes p) :
    Written base stop mode bytes cr3 k str size tty s
      ⟨size, writeByte bytes' last 0, tty', [k]⟩ where
  tooLarge h := absurd hsmall (Nat.not_lt.mpr h)
  noMemory _ h := absurd h hnull
  notReadable _ _ h := absurd hread h
  readable _ _ _ := rfl
  printed _ := hshows
  silent h := absurd h (Int.not_lt.mpr (Int.natCast_nonneg size))
  freed := (if_pos ⟨hsmall, hnull⟩).symm
  frame := hframe

/-- The copy into the buffer. -/
theorem copyFromUser_spec (hstr : str < 2 ^ 32) (hsize : size < 2 ^ 32) (hcr3 : cr3 < highmemStart)
    (htables : TablesLinear bytes cr3) (hbuffer : Buffer bytes cr3 k str size) :
    ∃ notCopied bytes', copyFromUser cr3 k str size bytes = .ok (notCopied, bytes') ∧
      (notCopied = 0 ↔ Readable bytes cr3 str size) ∧
      (notCopied = 0 → Copied (translate bytes cr3) k str size bytes bytes') ∧
      (notCopied ≠ 0 → bytes' = bytes) := by
  have hbelow := hbuffer.below
  have hlinear : ∀ i < size, translate bytes cr3 (k + i) ≠ none := by
    intro i hi
    rw [hbuffer.linear i (Nat.le_of_lt hi)]
    exact Option.some_ne_none _
  obtain ⟨notCopied, bytes', hcopy, hiff, hdone, hfailed⟩ :=
    usercopy_spec true hstr hsize hcr3 htables (by omega) hlinear
      fun i hi j hj => hbuffer.apart i (Nat.le_of_lt hi) j hj
  rw [if_pos rfl] at hdone
  exact ⟨notCopied, bytes', hcopy, hiff, hdone, hfailed⟩

theorem storeKernel_of_some {tr : ℕ → Option ℕ} {ptr p : ℕ} (h : tr ptr = some p)
    (bytes : ℕ → ℕ) (byte : ℕ) : storeKernel tr ptr byte bytes = .ok (writeByte bytes p byte) := by
  simp only [storeKernel, h]

/-- Only the buffer is written. -/
theorem ended_frame {bytes' : ℕ → ℕ} (hbuffer : Buffer bytes cr3 k str size)
    (hcopied : Copied (translate bytes cr3) k str size bytes bytes') {p : ℕ}
    (hp : ∀ i ≤ size, p ≠ k - kernelVaddrBase + i) :
    writeByte bytes' (k - kernelVaddrBase + size) 0 p = bytes p := by
  unfold writeByte
  rw [if_neg (hp size (Nat.le_refl size))]
  refine hcopied.frame p fun i hi hsame => ?_
  rw [hbuffer.linear i (Nat.le_of_lt hi)] at hsame
  exact hp i (Nat.le_of_lt hi) (Option.some.inj hsame).symm

/-- **`write`** does what it is for on every path, and never faults. -/
theorem sysWrite_spec {base : ℕ} {stop : Bool} {mode : UInt8} {tty : Tty} {s : Terminal}
    (hstr : str < 2 ^ 32) (hsize : size < 2 ^ 32) (hcr3 : cr3 < highmemStart)
    (htables : TablesLinear bytes cr3)
    (hbuffer : size < maxKmallocSize → k ≠ 0 → Buffer bytes cr3 k str size)
    (hshows : Shows base stop mode tty s) :
    ∃ r, sysWrite cr3 k str size bytes tty = .ok r ∧
      Written base stop mode bytes cr3 k str size tty s r := by
  by_cases hbig : size ≥ maxKmallocSize
  · have hnot : ¬ size < maxKmallocSize := Nat.not_lt.mpr hbig
    refine ⟨⟨-einval, bytes, tty, []⟩, if_pos hbig, written_refused (by decide) (fun _ => rfl)
      (fun h => absurd h hnot) (fun h => absurd h hnot) ?_⟩
    rw [if_neg fun h => hnot h.1]
  have hsmall : size < maxKmallocSize := Nat.lt_of_not_le hbig
  by_cases hnull : k = 0
  · refine ⟨⟨-enomem, bytes, tty, []⟩, ?_, written_refused (by decide) (fun h => absurd h hbig)
      (fun _ _ => rfl) (fun _ h => absurd hnull h) ?_⟩
    · unfold sysWrite
      rw [if_neg hbig, if_pos hnull]
    · rw [if_neg fun h => h.2 hnull]
  have hbuf := hbuffer hsmall hnull
  obtain ⟨notCopied, bytes', hcopy, hreadable, hdone, hfailed⟩ :=
    copyFromUser_spec hstr hsize hcr3 htables hbuf
  by_cases hzero : notCopied = 0
  · -- The range is copied, ended and printed.
    have hread := hreadable.mp hzero
    have hcopied := hdone hzero
    obtain ⟨tty', hprint, hshows'⟩ := printf_object hshows hbuf (userBytes bytes cr3 str size)
    rw [hzero] at hcopy
    have hstore := storeKernel_of_some (hbuf.linear size (Nat.le_refl size)) bytes' 0
    have hobject := kernelObject_copied hbuf hread.mapped hcopied
    exact ⟨_, sysWrite_run hsmall hnull hcopy hstore hobject hprint,
      written_readable hsmall hnull hread hshows' fun p hp => ended_frame hbuf hcopied hp⟩
  · -- Nothing has been copied, and the block is freed again.
    have hnot : ¬ Readable bytes cr3 str size := fun h => hzero (hreadable.mpr h)
    obtain rfl := hfailed hzero
    refine ⟨⟨-efault, bytes', tty, [k]⟩, ?_, written_refused (by decide) (fun h => absurd h hbig)
      (fun _ h => absurd h hnull) (fun _ _ => ⟨hnot, rfl⟩) ?_⟩
    · unfold sysWrite
      rw [if_neg hbig, if_neg hnull]
      dsimp only
      rw [hcopy, ok_bind]
      dsimp only
      rw [if_pos hzero]
    · rw [if_pos ⟨hsmall, hnull⟩]

/-- The byte 0x41 behind which there is a null byte, in the user page of `twoPageMemory`. -/
def textMemory : ℕ → ℕ := writeByte twoPageMemory 0x3000 0x41

theorem buffer_textMemory : Buffer textMemory 0x1000 0xC0006000 0x5000 2 where
  above := by decide
  below := by decide
  linear := by decide
  apart := by decide

theorem readable_textMemory : Readable textMemory 0x1000 0x5000 2 := by
  refine .inr ⟨by decide, fun v hlow hhigh => ?_⟩
  have hpage : v / 4096 = 5 := by omega
  rw [hpage]
  exact ⟨by decide, by decide⟩

/-- Two bytes are written to a new terminal, and one of them is printed. -/
theorem sysWrite_spec_textMemory : ∃ r,
    sysWrite 0x1000 0xC0006000 0x5000 2 textMemory freshTty = .ok r ∧ r.ret = 2 ∧
      Shows 0 true 0x1F r.tty ((Terminal.blank 0x1F 0 0).print 0x1F [0x41]) := by
  have hclear : ∀ i < vgaWidth * ttyHistSize, freshTty.framebuffer i = ⟨0x00, freshTty.mode⟩ :=
    fun i hi => if_pos hi
  obtain ⟨r, hrun, hwritten⟩ := sysWrite_spec (by decide) (by decide) (by decide)
    (by unfold TablesLinear; decide +kernel) (fun _ _ => buffer_textMemory)
    (shows_blank hclear rfl freshTty_inScreen)
  have hret : r.ret = 2 := hwritten.readable (by decide) (by decide) readable_textMemory
  have htext : upToNul (userBytes textMemory 0x1000 0x5000 2) = [0x41] := by decide
  have hshows := hwritten.printed (by rw [hret]; decide)
  rw [htext] at hshows
  exact ⟨r, hrun, hret, hshows⟩

end Kfs.Syscalls
