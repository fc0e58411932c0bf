import Kfs.Kernel.Panic
import Mathlib.Data.List.AList
import Mathlib.Data.List.Induction
import Mathlib.Data.List.Sort

/-!
# The system-call table

`scripts/generate_table.py` reads `syscall.tbl` and writes two C files: `syscall_table.c`, the array
of handlers, and the user header of `__NR_` macros. The text of the table file is read as the script
reads it, with the character classes of the language as a parameter. The two C files are kept as
their items, each with its text, and are given the meaning that the compiler gives them: the last
definition of a macro counts, an initialiser beyond the bound of the array is an error.
-/

namespace Kfs.Syscalls

/-! ## Text -/

/-- The character classes that the string methods of the script use. -/
structure CharClasses where
  /-- `str.isspace`, for `strip` and `split`. -/
  isSpace : Char → Bool
  /-- `str.isdigit`. -/
  isDigit : Char → Bool
  /-- The value of a decimal digit, for `int`. -/
  decimal : Char → Option ℕ
  /-- The characters that may start an identifier. -/
  idStart : Char → Bool
  /-- The characters that may follow. -/
  idContinue : Char → Bool

/-- `file.readlines()`: `\r` and `\r\n` are read as `\n`, and each line keeps its end. -/
def readlines : List Char → List (List Char)
  | [] => []
  | '\r' :: '\n' :: rest => ['\n'] :: readlines rest
  | '\r' :: rest => ['\n'] :: readlines rest
  | '\n' :: rest => ['\n'] :: readlines rest
  | c :: rest =>
    match readlines rest with
    | [] => [[c]]
    | line :: lines => (c :: line) :: lines

section Words

variable (cc : CharClasses)

/-- `str.strip()`. -/
def strip (s : List Char) : List Char :=
  ((s.dropWhile cc.isSpace).reverse.dropWhile cc.isSpace).reverse

/-- `str.split()`. -/
def split (s : List Char) : List (List Char) :=
  (s.splitOnP cc.isSpace).filter fun word => !word.isEmpty

/-- `int(s)`. -/
def int (s : List Char) : Option ℕ :=
  s.foldlM (fun n c => (cc.decimal c).map fun d => 10 * n + d) 0

/-- `str.isidentifier()`. -/
def isIdentifier : List Char → Bool
  | [] => false
  | c :: rest => cc.idStart c && rest.all cc.idContinue

end Words

/-! ## `main` -/

/-- A line `id name entry` of the table. -/
structure TableLine where
  id : ℕ
  name : List Char
  entry : List Char
  deriving DecidableEq, Repr

/-- The body of the loop over the lines: `none` for a line that is blank or a comment. -/
def parseLine (cc : CharClasses) (line : List Char) : Except String (Option TableLine) :=
  let cleanLine := strip cc line
  if cleanLine = [] ∨ cleanLine.head? = some '#' then .ok none
  else
    match split cc cleanLine with
    | [syscallId, name, sysEntry] =>
      if !(!syscallId.isEmpty && syscallId.all cc.isDigit) then
        .error ("ID must be an integer: " ++ String.ofList syscallId)
      else
        match int cc syscallId with
        | none =>
          .error ("invalid literal for int() with base 10: '" ++ String.ofList syscallId ++ "'")
        | some idInt =>
          if idInt > 200 then .error ("ID must be < 200: " ++ toString idInt)
          else if !isIdentifier cc name || !isIdentifier cc sysEntry then
            .error ("Invalid C identifier: " ++ String.ofList name ++ " or " ++
              String.ofList sysEntry)
          else .ok (some { id := idInt, name := name, entry := sysEntry })
    | _ => .error ("Bad format in syscall.tbl: " ++ String.ofList cleanLine)

/-- The name and the handler of an id. -/
structure Syscall where
  name : List Char
  sysEntry : List Char
  deriving DecidableEq, Repr

/-- The dictionary `syscalls`. -/
abbrev SyscallDict := AList fun _ : ℕ => Syscall

/-- `syscalls[id_int] = ...`. -/
def addLine (syscalls : SyscallDict) (line : TableLine) : SyscallDict :=
  syscalls.insert line.id { name := line.name, sysEntry := line.entry }

/-- The items of `syscall_table.c`. -/
inductive TableItem where
  | preamble
  | externDecl (entry : List Char)
  | tableOpen
  | initializer (id : ℕ) (entry : List Char)
  | tableClose
  deriving DecidableEq, Repr

/-- The items of the user header. -/
inductive HeaderItem where
  | preamble
  | define (name : List Char) (id : ℕ)
  deriving DecidableEq, Repr

/-- The text of an item of `syscall_table.c`. -/
def TableItem.text : TableItem → String
  | .preamble => "/* auto-generated FILE - do not edit */\n\n#include <arch/trap_frame.h>\n" ++
      "#include <syscalls/syscalls.h>\n\n"
  | .externDecl entry => "extern asmlinkage long " ++ String.ofList entry ++
      "(long, long, long, long, long, long);\n"
  | .tableOpen => "\nconst syscallHandler syscall_table[MAX_SYSCALL] = \x7b\n"
  | .initializer id entry => "    [" ++ toString id ++ "] = " ++ String.ofList entry ++ ",\n"
  | .tableClose => "\x7d;\n"

/-- The text of an item of the user header. -/
def HeaderItem.text : HeaderItem → String
  | .preamble => "/* auto-generated FILE - do not edit */\n\n#pragma once\n\n"
  | .define name id => "#define __NR_" ++ String.ofList name ++ " " ++ toString id ++ "\n"

/-- The two generated files. -/
structure Generated where
  sysTable : List TableItem
  sysUserHeader : List HeaderItem
  deriving DecidableEq, Repr

/-- The entries of the dictionary by ascending id. -/
def sortedEntries (syscalls : SyscallDict) : List (ℕ × Syscall) :=
  (syscalls.keys.insertionSort (· ≤ ·)).filterMap fun id =>
    (syscalls.lookup id).map fun syscall => (id, syscall)

/-- What the script writes. -/
def writeFiles (syscalls : SyscallDict) : Generated :=
  let entries := sortedEntries syscalls
  { sysTable := .preamble :: entries.map (fun e => .externDecl e.2.sysEntry) ++
      .tableOpen :: entries.map (fun e => .initializer e.1 e.2.sysEntry) ++ [.tableClose]
    sysUserHeader := .preamble :: entries.map fun e => .define e.2.name e.1 }

/-- `main` of `generate_table.py` on the text of `syscall.tbl`; the error is the text that the script
reports. -/
def generateTable (cc : CharClasses) (file : List Char) : Except String Generated := do
  let syscalls ← (readlines file).foldlM (fun syscalls line => do
    match ← parseLine cc line with
    | none => .ok syscalls
    | some l => .ok (addLine syscalls l)) (∅ : SyscallDict)
  .ok (writeFiles syscalls)

/-! ## The meaning of the generated files -/

def maxSyscall : ℕ := 200 -- MAX_SYSCALL

/-- The value of `__NR_name` after the header: the last definition counts. -/
def macroValue (header : List HeaderItem) (name : List Char) : Option ℕ :=
  (header.filterMap fun item =>
    match item with
    | .define n id => if n = name then some id else none
    | .preamble => none).getLast?

/-- The array that the compiler builds from the initialisers; `none` if one is out of bounds. -/
def syscallTable (items : List TableItem) : Option (List (Option (List Char))) :=
  items.foldlM (fun table item =>
    match item with
    | .initializer id entry => if id < maxSyscall then some (table.set id (some entry)) else none
    | _ => some table) (List.replicate maxSyscall none)

/-! ## What was generated, from the lines -/

/-- The entry lines of a file. -/
def entryLines (cc : CharClasses) (file : List Char) : List TableLine :=
  (readlines file).filterMap fun line => ((parseLine cc line).toOption).join

/-- The last line with a given id. -/
def lastLine (lines : List TableLine) (id : ℕ) : Option TableLine :=
  (lines.filter fun l => l.id = id).getLast?

theorem lastLine_append (lines : List TableLine) (l : TableLine) (id : ℕ) :
    lastLine (lines ++ [l]) id = if l.id = id then some l else lastLine lines id := by
  unfold lastLine
  by_cases h : l.id = id
  · simp [List.filter_append, h]
  · simp [List.filter_append, h]

theorem lastLine_mem {lines : List TableLine} {id : ℕ} {l : TableLine}
    (h : lastLine lines id = some l) : l ∈ lines ∧ l.id = id := by
  have hmem := List.mem_of_getLast? h
  simpa using hmem

theorem lastLine_isSome {lines : List TableLine} {l : TableLine} (h : l ∈ lines) :
    ∃ l', lastLine lines l.id = some l' := by
  have hmem : l ∈ lines.filter fun l' => l'.id = l.id := by simp [h]
  exact Option.isSome_iff_exists.mp (List.getLast?_isSome.mpr (List.ne_nil_of_mem hmem))

theorem lookup_addLine (d : SyscallDict) (l : TableLine) (id : ℕ) :
    (addLine d l).lookup id =
      if l.id = id then some { name := l.name, sysEntry := l.entry } else d.lookup id := by
  unfold addLine
  split
  · next h => rw [← h, AList.lookup_insert]
  · next h => rw [AList.lookup_insert_ne (Ne.symm h)]

/-- The dictionary holds the last line of each id. -/
theorem lookup_foldl_addLine (lines : List TableLine) (id : ℕ) :
    (lines.foldl addLine ∅).lookup id =
      (lastLine lines id).map fun l => { name := l.name, sysEntry := l.entry } := by
  induction lines using List.reverseRecOn with
  | nil => simp [lastLine]
  | append_singleton lines l ih =>
    rw [List.foldl_append, List.foldl_cons, List.foldl_nil, lastLine_append, lookup_addLine, ih]
    split
    · rfl
    · rfl

/-- The loop over the lines of an accepted file collects its entry lines. -/
theorem foldlM_parseLine {cc : CharClasses} {lines : List (List Char)} :
    ∀ {syscalls syscalls' : SyscallDict},
      lines.foldlM (fun syscalls line => do
        match ← parseLine cc line with
        | none => .ok syscalls
        | some l => .ok (addLine syscalls l)) syscalls = .ok syscalls' →
      syscalls' =
        (lines.filterMap fun line => ((parseLine cc line).toOption).join).foldl addLine syscalls := by
  induction lines with
  | nil =>
    intro d d' h
    exact (Except.ok.inj h).symm
  | cons line lines ih =>
    intro d d' h
    rw [List.foldlM_cons] at h
    cases hparse : parseLine cc line with
    | error e =>
      rw [hparse] at h
      cases h
    | ok entry =>
      rw [hparse] at h
      cases entry with
      | none =>
        rw [ih h, List.filterMap_cons_none]
        simp [hparse, Except.toOption]
      | some l =>
        rw [ih h, List.filterMap_cons_some (b := l), List.foldl_cons]
        simp [hparse, Except.toOption]

theorem generateTable_eq {cc : CharClasses} {file : List Char} {g : Generated}
    (h : generateTable cc file = .ok g) :
    g = writeFiles ((entryLines cc file).foldl addLine ∅) := by
  obtain ⟨d, hd, hg⟩ := bind_eq_ok.mp h
  rw [← Except.ok.inj hg, foldlM_parseLine hd]
  rfl

/-- An accepted id is at most 200. -/
theorem parseLine_id {cc : CharClasses} {line : List Char} {l : TableLine}
    (h : parseLine cc line = .ok (some l)) : l.id ≤ maxSyscall := by
  unfold parseLine at h
  simp only at h
  split at h
  · cases Except.ok.inj h
  · split at h
    · split at h
      · cases h
      · split at h
        · cases h
        · next idInt _ =>
          split at h
          · cases h
          · next hle =>
            split at h
            · cases h
            · rw [← Option.some.inj (Except.ok.inj h)]
              exact Nat.not_lt.mp hle
    · cases h

theorem entryLines_id {cc : CharClasses} {file : List Char} {l : TableLine}
    (h : l ∈ entryLines cc file) : l.id ≤ maxSyscall := by
  obtain ⟨line, -, hline⟩ := List.mem_filterMap.mp h
  have hparsed : parseLine cc line = .ok (some l) := by
    cases hparse : parseLine cc line with
    | error e =>
      rw [hparse] at hline
      cases hline
    | ok entry =>
      rw [hparse] at hline
      exact congrArg Except.ok hline
  exact parseLine_id hparsed

/-- The written entries are the last lines of the ids. -/
theorem mem_sortedEntries {lines : List TableLine} {id : ℕ} {syscall : Syscall} :
    (id, syscall) ∈ sortedEntries (lines.foldl addLine ∅) ↔
      ∃ l, lastLine lines id = some l ∧
        syscall = { name := l.name, sysEntry := l.entry } := by
  unfold sortedEntries
  have hkey : ∀ k s, (lines.foldl addLine ∅).lookup k = some s →
      k ∈ (lines.foldl addLine ∅).keys.insertionSort (· ≤ ·) := by
    intro k s hs
    rw [List.mem_insertionSort]
    exact AList.mem_keys.mpr (AList.lookup_isSome.mp (by rw [hs]; rfl))
  constructor
  · intro h
    obtain ⟨k, -, hk⟩ := List.mem_filterMap.mp h
    obtain ⟨s, hs, heq⟩ := Option.map_eq_some_iff.mp hk
    obtain ⟨rfl, rfl⟩ := Prod.mk.inj heq
    rw [lookup_foldl_addLine] at hs
    obtain ⟨l, hl, rfl⟩ := Option.map_eq_some_iff.mp hs
    exact ⟨l, hl, rfl⟩
  · rintro ⟨l, hl, rfl⟩
    have hlookup := lookup_foldl_addLine lines id
    rw [hl, Option.map_some] at hlookup
    refine List.mem_filterMap.mpr ⟨id, hkey id _ hlookup, ?_⟩
    rw [hlookup]
    rfl

/-! ## The header -/

theorem mem_macroDefs {lines : List TableLine} {name : List Char} {id : ℕ} :
    id ∈ ((writeFiles (lines.foldl addLine ∅)).sysUserHeader.filterMap fun item =>
        match item with
        | .define n id => if n = name then some id else none
        | .preamble => none) ↔
      ∃ l, lastLine lines id = some l ∧ l.name = name := by
  simp only [writeFiles, List.mem_filterMap, List.mem_cons, List.mem_map, Prod.exists]
  constructor
  · rintro ⟨item, rfl | ⟨id', syscall, hmem, rfl⟩, hitem⟩
    · cases hitem
    · obtain ⟨l, hl, rfl⟩ := mem_sortedEntries.mp hmem
      obtain ⟨hname, hid⟩ := Option.ite_none_right_eq_some.mp hitem
      exact ⟨l, Option.some.inj hid ▸ hl, hname⟩
  · rintro ⟨l, hl, hname⟩
    refine ⟨_, Or.inr ⟨id, _, mem_sortedEntries.mpr ⟨l, hl, rfl⟩, rfl⟩, ?_⟩
    simp [hname]

/-- **The header** defines `__NR_name` as the id of every line exactly if lines with one id have one
name and lines with one name have one id. -/
theorem macroValue_writeFiles_iff {lines : List TableLine} :
    (∀ l ∈ lines, macroValue (writeFiles (lines.foldl addLine ∅)).sysUserHeader l.name = some l.id) ↔
      ∀ l ∈ lines, ∀ l' ∈ lines, l.id = l'.id ↔ l.name = l'.name := by
  constructor
  · intro h l hl l' hl'
    constructor
    · intro hid
      -- both names are the name of the last line with this id
      obtain ⟨k, hk, hkname⟩ := mem_macroDefs.mp (List.mem_of_getLast? (h l hl))
      obtain ⟨k', hk', hkname'⟩ := mem_macroDefs.mp (List.mem_of_getLast? (h l' hl'))
      rw [hid, hk'] at hk
      rw [← hkname, ← hkname', Option.some.inj hk]
    · intro hname
      have hvalue := h l hl
      rw [hname, h l' hl'] at hvalue
      exact (Option.some.inj hvalue).symm
  · intro h l hl
    obtain ⟨k, hk⟩ := lastLine_isSome hl
    obtain ⟨hkmem, hkid⟩ := lastLine_mem hk
    have hdef := mem_macroDefs.mpr ⟨k, hk, (h k hkmem l hl).mp hkid⟩
    unfold macroValue
    obtain ⟨id, hlast⟩ := Option.isSome_iff_exists.mp
      (List.getLast?_isSome.mpr (List.ne_nil_of_mem hdef))
    obtain ⟨k', hk', hname'⟩ := mem_macroDefs.mp (List.mem_of_getLast? hlast)
    obtain ⟨hkmem', hkid'⟩ := lastLine_mem hk'
    rw [hlast, ← hkid', (h k' hkmem' l hl).mpr hname']

/-! ## The array -/

/-- One initialiser. -/
def putEntry (table : List (Option (List Char))) (e : ℕ × Syscall) :
    Option (List (Option (List Char))) :=
  if e.1 < maxSyscall then some (table.set e.1 (some e.2.sysEntry)) else none

theorem syscallTable_writeFiles (d : SyscallDict) :
    syscallTable (writeFiles d).sysTable =
      (sortedEntries d).foldlM putEntry (List.replicate maxSyscall none) := by
  have hextern : ∀ (es : List (ℕ × Syscall)) (table : List (Option (List Char))),
      (es.map fun e => TableItem.externDecl e.2.sysEntry).foldlM (fun table item =>
        match item with
        | .initializer id entry =>
          if id < maxSyscall then some (table.set id (some entry)) else none
        | _ => some table) table = some table := by
    intro es table
    induction es with
    | nil => rfl
    | cons e es ih => simpa [List.foldlM_cons] using ih
  unfold syscallTable writeFiles
  simp only [List.cons_append, List.append_assoc, List.foldlM_cons, List.foldlM_append, hextern,
    List.foldlM_map, Option.bind_eq_bind, Option.bind_some, List.foldlM_nil]
  exact Option.bind_fun_some _

/-- The array exists exactly if no id is out of bounds. -/
theorem foldlM_putEntry_none {es : List (ℕ × Syscall)} {id : ℕ} {syscall : Syscall}
    (hmem : (id, syscall) ∈ es) (hid : maxSyscall ≤ id) :
    ∀ table, es.foldlM putEntry table = none := by
  induction es with
  | nil => cases hmem
  | cons e es ih =>
    intro table
    rw [List.foldlM_cons]
    rcases List.mem_cons.mp hmem with rfl | hmem
    · simp [putEntry, Nat.not_lt.mpr hid]
    · cases putEntry table e with
      | none => rfl
      | some table' => exact ih hmem table'

/-- The elements of the array after the initialisers. -/
theorem foldlM_putEntry_some {es : List (ℕ × Syscall)} (hids : ∀ e ∈ es, e.1 < maxSyscall) :
    ∀ {table : List (Option (List Char))}, table.length = maxSyscall →
      ∃ table', es.foldlM putEntry table = some table' ∧ table'.length = maxSyscall ∧
        (∀ i, (∀ syscall, (i, syscall) ∉ es) → table'[i]? = table[i]?) ∧
        ∀ i syscall, (i, syscall) ∈ es → (∀ syscall', (i, syscall') ∈ es → syscall' = syscall) →
          table'[i]? = some (some syscall.sysEntry) := by
  induction es with
  | nil =>
    intro table hlen
    exact ⟨table, rfl, hlen, fun _ _ => rfl, fun _ _ h => nomatch h⟩
  | cons e es ih =>
    intro table hlen
    have he : e.1 < maxSyscall := hids e List.mem_cons_self
    obtain ⟨table', hrun, hlen', hframe, hset⟩ :=
      ih (fun e' he' => hids e' (List.mem_cons_of_mem e he'))
        (show (table.set e.1 (some e.2.sysEntry)).length = maxSyscall by rw [List.length_set, hlen])
    refine ⟨table', ?_, hlen', fun i hi => ?_, fun i syscall hmem honly => ?_⟩
    · rw [List.foldlM_cons, putEntry, if_pos he]
      exact hrun
    · have hne : e.1 ≠ i := fun h => hi e.2 (h ▸ List.mem_cons_self)
      rw [hframe i fun s hs => hi s (List.mem_cons_of_mem e hs), List.getElem?_set_ne hne]
    · by_cases hlater : (i, syscall) ∈ es
      · exact hset i syscall hlater fun s hs => honly s (List.mem_cons_of_mem e hs)
      · -- the first initialiser is the only one of this element
        have hhead : (i, syscall) = e := (List.mem_cons.mp hmem).resolve_right hlater
        subst hhead
        rw [hframe i fun s hs => hlater (honly s (List.mem_cons_of_mem _ hs) ▸ hs),
          List.getElem?_set_self (hlen.symm ▸ he)]

/-- **The array**: it exists exactly if no line has the id 200, and then holds at every index the
entry of the last line with that id. -/
theorem syscallTable_spec {cc : CharClasses} {file : List Char} {g : Generated}
    (h : generateTable cc file = .ok g) :
    (∀ table, syscallTable g.sysTable = some table →
      (∀ l ∈ entryLines cc file, l.id ≠ maxSyscall) ∧ table.length = maxSyscall ∧
      ∀ i < maxSyscall,
        table[i]? = some ((lastLine (entryLines cc file) i).map TableLine.entry)) ∧
    ((∀ l ∈ entryLines cc file, l.id ≠ maxSyscall) →
      ∃ table, syscallTable g.sysTable = some table) := by
  rw [generateTable_eq h, syscallTable_writeFiles]
  generalize hlines : entryLines cc file = lines
  have hentry : ∀ e ∈ sortedEntries (lines.foldl addLine ∅), ∃ l ∈ lines, l.id = e.1 := by
    rintro ⟨id, syscall⟩ he
    obtain ⟨l, hl, -⟩ := mem_sortedEntries.mp he
    exact ⟨l, lastLine_mem hl⟩
  have hids : (∀ l ∈ lines, l.id ≠ maxSyscall) →
      ∀ e ∈ sortedEntries (lines.foldl addLine ∅), e.1 < maxSyscall := by
    intro hne e he
    obtain ⟨l, hl, hle⟩ := hentry e he
    exact hle ▸ Nat.lt_of_le_of_ne (entryLines_id (hlines ▸ hl)) (hne l hl)
  refine ⟨fun table htable => ?_, fun hne => ?_⟩
  · have hne : ∀ l ∈ lines, l.id ≠ maxSyscall := by
      intro l hl hid
      obtain ⟨k, hk⟩ := lastLine_isSome hl
      have hnone := foldlM_putEntry_none (mem_sortedEntries.mpr ⟨k, hk, rfl⟩) hid.ge
        (List.replicate maxSyscall none)
      rw [hnone] at htable
      cases htable
    obtain ⟨table', hrun, hlen, hframe, hset⟩ :=
      foldlM_putEntry_some (hids hne) (List.length_replicate (n := maxSyscall) (a := none))
    obtain rfl : table' = table := Option.some.inj (hrun ▸ htable)
    refine ⟨hne, hlen, fun i hi => ?_⟩
    cases hlast : lastLine lines i with
    | none =>
      have hfree : ∀ syscall, (i, syscall) ∉ sortedEntries (lines.foldl addLine ∅) := by
        intro syscall hmem
        obtain ⟨l, hl, -⟩ := mem_sortedEntries.mp hmem
        rw [hlast] at hl
        cases hl
      rw [hframe i hfree, List.getElem?_replicate_of_lt hi]
      rfl
    | some l =>
      refine hset i _ (mem_sortedEntries.mpr ⟨l, hlast, rfl⟩) fun syscall' hmem => ?_
      obtain ⟨l', hl', rfl⟩ := mem_sortedEntries.mp hmem
      rw [hlast] at hl'
      rw [Option.some.inj hl']
  · obtain ⟨table', hrun, -⟩ :=
      foldlM_putEntry_some (hids hne) (List.length_replicate (n := maxSyscall) (a := none))
    exact ⟨table', hrun⟩

end Kfs.Syscalls
