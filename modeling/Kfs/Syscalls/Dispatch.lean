import Kfs.Proc.Signal
import Kfs.Syscalls.Table

/-!
# `do_syscall`

The dispatcher of `src/syscalls/do_syscall.c` over a generated table. A handler gets the six argument
registers; it also sees the trap frame, which `sigreturn` and `execve` rewrite, and the rest of the
kernel, which stays a parameter. Reading an element that the array does not have is a fault.
-/

namespace Kfs.Syscalls

open Kfs.Proc

variable {σ : Type}

/-- A `syscallHandler`, with what it does to the trap frame and to the kernel. -/
abbrev SyscallHandler (σ : Type) :=
  BitVec 32 → BitVec 32 → BitVec 32 → BitVec 32 → BitVec 32 → BitVec 32 → TrapFrame → σ →
    Kern (BitVec 32 × TrapFrame × σ)

def enosys : ℕ := 38 -- ENOSYS

/-- The index that `do_syscall` reads, unless it refuses the number at once. -/
def syscallIndex (sysId : BitVec 32) : Option ℕ :=
  if sysId.toNat > maxSyscall then none else some sysId.toNat

/-- `tf->regs.eax = handler(...)`. -/
def callHandler (handler : SyscallHandler σ) (tf : TrapFrame) (s : σ) : Kern (TrapFrame × σ) := do
  let (result, tf, s) ← handler tf.ebx tf.ecx tf.edx tf.esi tf.edi tf.ebp tf s
  .ok ({ tf with eax := result }, s)

/-- The label `bad`. -/
def badSyscall (tf : TrapFrame) : TrapFrame :=
  { tf with eax := -BitVec.ofNat 32 enosys }

/-- `do_syscall`. -/
def doSyscall (table : List (Option (List Char))) (handlers : List Char → SyscallHandler σ)
    (tf : Option TrapFrame) (s : σ) : Kern (Option TrapFrame × σ) :=
  match tf with
  | none => .ok (none, s)
  | some tf =>
    match syscallIndex tf.eax with
    | none => .ok (some (badSyscall tf), s)
    | some i =>
      match table[i]? with
      | none => .error .fault
      | some none => .ok (some (badSyscall tf), s)
      | some (some entry) => (callHandler (handlers entry) tf s).map fun r => (some r.1, r.2)

/-- Table, header and dispatcher agree on a system call with the number `eax`. -/
structure SyscallAgrees (σ : Type) (g : Generated) (lines : List TableLine) (eax : BitVec 32) :
    Prop where
  /-- The header defines every name as its id. -/
  header : ∀ l ∈ lines, macroValue g.sysUserHeader l.name = some l.id
  /-- The array exists, the handler of a line with this id is called, an id of no line gives
  `-ENOSYS`, and the array is only read inside its bound. -/
  dispatch : ∃ table, syscallTable g.sysTable = some table ∧ table.length = maxSyscall ∧
    (∀ l ∈ lines, l.id = eax.toNat →
      ∀ (handlers : List Char → SyscallHandler σ) (tf : TrapFrame) (s : σ), tf.eax = eax →
        doSyscall table handlers (some tf) s =
          (callHandler (handlers l.entry) tf s).map fun r => (some r.1, r.2)) ∧
    ((∀ l ∈ lines, l.id ≠ eax.toNat) →
      ∀ (handlers : List Char → SyscallHandler σ) (tf : TrapFrame) (s : σ), tf.eax = eax →
        doSyscall table handlers (some tf) s = .ok (some (badSyscall tf), s)) ∧
    ∀ i, syscallIndex eax = some i → i < table.length

/-- Every number but 200 that is read from the array is inside it. -/
theorem syscallIndex_lt_iff {eax : BitVec 32} :
    (∀ i, syscallIndex eax = some i → i < maxSyscall) ↔ eax.toNat ≠ maxSyscall := by
  unfold syscallIndex
  constructor
  · intro h heq
    have hlt := h maxSyscall (by simp [heq])
    exact Nat.lt_irrefl _ hlt
  · intro hne i hi
    split at hi
    · cases hi
    · next hle =>
      obtain rfl := Option.some.inj hi
      omega

/-- What the dispatcher does with a number whose element is known. -/
theorem doSyscall_of_element {table : List (Option (List Char))} {element : Option (List Char)}
    {tf : TrapFrame} (hlt : tf.eax.toNat < maxSyscall) (helem : table[tf.eax.toNat]? = some element)
    (handlers : List Char → SyscallHandler σ) (s : σ) :
    doSyscall table handlers (some tf) s =
      match element with
      | none => .ok (some (badSyscall tf), s)
      | some entry => (callHandler (handlers entry) tf s).map fun r => (some r.1, r.2) := by
  have hindex : syscallIndex tf.eax = some tf.eax.toNat := by
    unfold syscallIndex
    rw [if_neg (by omega)]
  simp only [doSyscall, hindex, helem]
  cases element with
  | none => rfl
  | some entry => rfl

theorem doSyscall_of_large {table : List (Option (List Char))} {tf : TrapFrame}
    (hgt : maxSyscall < tf.eax.toNat) (handlers : List Char → SyscallHandler σ) (s : σ) :
    doSyscall table handlers (some tf) s = .ok (some (badSyscall tf), s) := by
  have hindex : syscallIndex tf.eax = none := by
    unfold syscallIndex
    rw [if_pos hgt]
  simp only [doSyscall, hindex]

/-- A handler of each name that returns at once, with a result that tells one name from the others. -/
def tellEntry (entry name : List Char) : SyscallHandler σ :=
  fun _ _ _ _ _ _ tf s => .ok (if name = entry then 1 else 0, tf, s)

/-- Two entries that the dispatcher cannot tell apart are one. -/
theorem entry_eq_of_callHandler {entry entry' : List Char} (tf : TrapFrame) (s : σ)
    (h : (callHandler (tellEntry entry entry) tf s).map (fun r => (some r.1, r.2)) =
      (callHandler (tellEntry entry entry') tf s).map fun r => (some r.1, r.2)) :
    entry' = entry := by
  by_contra hne
  have heax := congrArg (fun r => (r.toOption.bind Prod.fst).map TrapFrame.eax) h
  simp [callHandler, tellEntry, hne, Except.map, Except.toOption] at heax

/-- **Table and dispatcher.** For every accepted table file and every number: they agree exactly if
the number is not 200, no line has the id 200, two lines have one id exactly if they have one name,
and the lines with this number have one entry. -/
theorem syscallAgrees_iff [Nonempty σ] {cc : CharClasses} {file : List Char} {g : Generated}
    (h : generateTable cc file = .ok g) (eax : BitVec 32) :
    SyscallAgrees σ g (entryLines cc file) eax ↔
      eax.toNat ≠ maxSyscall ∧
      (∀ l ∈ entryLines cc file, l.id ≠ maxSyscall) ∧
      (∀ l ∈ entryLines cc file, ∀ l' ∈ entryLines cc file, l.id = l'.id ↔ l.name = l'.name) ∧
      ∀ l ∈ entryLines cc file, ∀ l' ∈ entryLines cc file,
        l.id = eax.toNat → l'.id = eax.toNat → l.entry = l'.entry := by
  have hheader := @macroValue_writeFiles_iff (entryLines cc file)
  rw [← generateTable_eq h] at hheader
  obtain ⟨htable, hexists⟩ := syscallTable_spec h
  constructor
  · rintro ⟨hmacros, table, hrun, hlen, hcall, -, hindex⟩
    refine ⟨?_, (htable table hrun).1, hheader.mp hmacros, ?_⟩
    · rw [hlen] at hindex
      exact syscallIndex_lt_iff.mp hindex
    · intro l hl l' hl' hid hid'
      obtain ⟨s⟩ := ‹Nonempty σ›
      let tf : TrapFrame := { TrapFrame.ofWords fun _ => 0 with eax := eax }
      have hfirst := hcall l hl hid (tellEntry l.entry) tf s rfl
      have hsecond := hcall l' hl' hid' (tellEntry l.entry) tf s rfl
      exact (entry_eq_of_callHandler tf s (hfirst.symm.trans hsecond)).symm
  · rintro ⟨heax, hids, hnames, hentries⟩
    obtain ⟨table, hrun⟩ := hexists hids
    obtain ⟨-, hlen, helem⟩ := htable table hrun
    refine ⟨hheader.mpr hnames, table, hrun, hlen, ?_, ?_, ?_⟩
    · rintro l hl hid handlers tf s rfl
      have hlt : tf.eax.toNat < maxSyscall :=
        hid ▸ Nat.lt_of_le_of_ne (entryLines_id hl) (hids l hl)
      obtain ⟨k, hk⟩ := lastLine_isSome hl
      obtain ⟨hkmem, hkid⟩ := lastLine_mem hk
      have hread := helem _ hlt
      rw [← hid, hk, hid] at hread
      rw [doSyscall_of_element hlt hread, hentries l hl k hkmem hid (hkid.trans hid)]
      rfl
    · rintro hnone handlers tf s rfl
      rcases Nat.lt_or_gt_of_ne heax with hlt | hgt
      · have hlast : lastLine (entryLines cc file) tf.eax.toNat = none := by
          cases hk : lastLine (entryLines cc file) tf.eax.toNat with
          | none => rfl
          | some k => exact absurd (lastLine_mem hk).2 (hnone k (lastLine_mem hk).1)
        have hread := helem _ hlt
        rw [hlast] at hread
        rw [doSyscall_of_element hlt hread]
        rfl
      · exact doSyscall_of_large hgt handlers s
    · rw [hlen]
      exact syscallIndex_lt_iff.mpr heax

/-- The character classes, for ASCII text. -/
def asciiClasses : CharClasses where
  isSpace c := c = ' ' || ('\t' ≤ c && c ≤ '\r') || (28 ≤ c.toNat && c.toNat ≤ 31)
  isDigit c := c.isDigit
  decimal c := if c.isDigit then some (c.toNat - 48) else none
  idStart c := c.isAlpha || c = '_'
  idContinue c := c.isAlphanum || c = '_'

/-- The first lines of the table of the repository. -/
def firstSyscalls : List Char :=
  "1       exit        sys_exit\n2       fork        sys_fork\n".toList

theorem firstSyscalls_lines : entryLines asciiClasses firstSyscalls =
    [{ id := 1, name := "exit".toList, entry := "sys_exit".toList },
      { id := 2, name := "fork".toList, entry := "sys_fork".toList }] := by
  decide +kernel

/-- The number 2 of the repository's table, where table and dispatcher agree. -/
theorem syscallAgrees_firstSyscalls :
    ∃ g, generateTable asciiClasses firstSyscalls = .ok g ∧
      SyscallAgrees Unit g (entryLines asciiClasses firstSyscalls) 2 := by
  obtain ⟨g, hg⟩ : ∃ g, generateTable asciiClasses firstSyscalls = .ok g :=
    ⟨writeFiles ((entryLines asciiClasses firstSyscalls).foldl addLine ∅), by decide +kernel⟩
  refine ⟨g, hg, (syscallAgrees_iff hg 2).mpr ?_⟩
  rw [firstSyscalls_lines]
  decide

/-- With the number 200 `do_syscall` reads behind the end of the array. -/
theorem not_syscallAgrees :
    ¬ ∀ (g : Generated) (eax : BitVec 32), generateTable asciiClasses firstSyscalls = .ok g →
      SyscallAgrees Unit g (entryLines asciiClasses firstSyscalls) eax := by
  intro h
  obtain ⟨-, table, -, hlen, -, -, hindex⟩ :=
    h (writeFiles ((entryLines asciiClasses firstSyscalls).foldl addLine ∅)) 200 (by decide)
  have hlt := hindex 200 (by decide)
  rw [hlen] at hlt
  exact Nat.lt_irrefl _ hlt

end Kfs.Syscalls
