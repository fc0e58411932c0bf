import Kfs.Lib.Bytes
import Kfs.Proc.FreshFrames

/-!
# The storage behind a task

`task_get_new` and `task_clone` of `src/proc/task.c` allocate a `struct task`, five sections and the
name in one block and set the pointers to the parts by hand. Here the structure is a record and the
rest of the block is bytes, so that the parts are ranges of addresses and the copies are copies of
bytes.

## Layers

- **The code**: the pointers, the copies and `task_clone` with its failures.
- **The layout**: which parts meet which. `task_get_new` keeps all six apart; `task_clone` puts the
  name where the heap section is.
- **The contents**: what a clone reads at its six pointers. Only the heap section is not what the
  original has, and it is what `Kfs.Proc.Lifecycle` takes it to be.
-/

namespace Kfs.Userspace.Block

open Kfs.Lib Kfs.Lib.Bytes Kfs.Memory Kfs.Proc Kfs.Utils

/-! ## The code -/

/-- `struct task` without its list nodes and its wait queue. -/
structure TaskStruct where
  pid : ℕ
  uid : ℕ
  gid : ℕ
  realParent : ℕ
  parent : ℕ
  esp : ℕ
  cr3 : ℕ
  kernelStackPointer : ℕ
  kernelStackBase : ℕ
  textSec : ℕ
  dataSec : ℕ
  stackSec : ℕ
  heapSec : ℕ
  signalsMap : ℕ
  sigTrampoline : ℕ
  sigHandlers : List ℕ
  name : ℕ
  ring : ℕ
  needResched : Bool
  exitCode : ℕ
  state : ProcessState
  tickToWake : ℕ
  quantumRemaining : ℕ
  deriving DecidableEq, Repr

/-- Kernel memory by virtual address, the allocators and the pids. -/
structure KernelMem (σ : Type) where
  bytes : ℕ → ℕ
  alloc : σ
  pids : IdManager

/-- `ft_strlen`; a string without an end runs out of the address space. -/
def ftStrlen (bytes : ℕ → ℕ) (str : ℕ) : Kern ℕ :=
  match strLen bytes (2 ^ 32 - str) str with
  | some n => .ok n
  | none => .error .fault

/-- The size of the block of a task. -/
def blockSize (nameLen : ℕ) : ℕ := sizeofTask + sizeofSection * 5 + nameLen + 1

/-- The pointers that `task_get_new` sets in the block at `new`. -/
def TaskStruct.getNewAt (task : TaskStruct) (new : ℕ) : TaskStruct :=
  let task := { task with textSec := new + sizeofTask }
  let task := { task with dataSec := task.textSec + sizeofSection }
  let task := { task with stackSec := task.dataSec + sizeofSection }
  let task := { task with heapSec := task.stackSec + sizeofSection }
  let task := { task with sigTrampoline := task.heapSec + sizeofSection }
  { task with name := task.sigTrampoline + sizeofSection }

/-- The structure of a clone in the block at `new`. -/
def TaskStruct.cloneAt (task : TaskStruct) (new : ℕ) : TaskStruct :=
  let task := { task with kernelStackPointer := 0, kernelStackBase := 0 }
  let task := { task with heapSec := new + sizeofTask }
  -- each of the four takes the value of `heap_sec`, which is incremented after it
  let task := { task with textSec := task.heapSec, heapSec := task.heapSec + sizeofSection }
  let task := { task with dataSec := task.heapSec, heapSec := task.heapSec + sizeofSection }
  let task := { task with stackSec := task.heapSec, heapSec := task.heapSec + sizeofSection }
  let task := { task with sigTrampoline := task.heapSec, heapSec := task.heapSec + sizeofSection }
  { task with name := task.sigTrampoline + sizeofSection }

/-- The sections of `task` copied to those of `new`. -/
def copySections (task new : TaskStruct) (bytes : ℕ → ℕ) : ℕ → ℕ :=
  let bytes := copy bytes new.textSec task.textSec sizeofSection
  let bytes := copy bytes new.dataSec task.dataSec sizeofSection
  let bytes := copy bytes new.stackSec task.stackSec sizeofSection
  let bytes := copy bytes new.heapSec task.heapSec sizeofSection
  copy bytes new.sigTrampoline task.sigTrampoline sizeofSection

/-- The name of `task` copied to that of `new`. -/
def copyName (task new : TaskStruct) (nameLen : ℕ) (bytes : ℕ → ℕ) : ℕ → ℕ :=
  store (copy bytes new.name task.name nameLen) (new.name + nameLen) 0

section Clone

variable {σ : Type} (K : KernelAlloc σ)

/-- `task_clone`: the address of the clone and its structure, or `none` for `NULL`. -/
def taskClone (task : TaskStruct) (s : KernelMem σ) :
    Kern (Option (ℕ × TaskStruct) × KernelMem σ) := do
  let nameLen ← ftStrlen s.bytes task.name
  let (addr, a) ← K.kmalloc (blockSize nameLen) gfpKernelZero s.alloc
  if addr = 0 then .ok (none, { s with alloc := a })
  else
    let new := task.cloneAt addr
    let bytes := zero s.bytes addr (blockSize nameLen)
    let bytes := copySections task new bytes
    let bytes := copyName task new nameLen bytes
    match idManagerAlloc s.pids with
    | (none, pids) => do
      let a ← K.kfree addr a
      .ok (none, { bytes := bytes, alloc := a, pids := pids })
    | (some pid, pids) => do
      let (cr3, a) ← K.buddyAllocPages pageSize .lowmem a
      if cr3 = 0 then do
        let a ← K.kfree addr a
        .ok (none, { bytes := bytes, alloc := a, pids := idManagerFree pids pid })
      else do
        let pd ← physLinear cr3
        .ok (some (addr, { new with pid := pid, cr3 := cr3 }),
          { bytes := zero bytes (kernelVaddrBase + pd) pageSize, alloc := a, pids := pids })

end Clone

/-! ## The layout -/

/-- The pointers to the sections. -/
def TaskStruct.sections (task : TaskStruct) : List ℕ :=
  [task.textSec, task.dataSec, task.stackSec, task.heapSec, task.sigTrampoline]

/-- The ranges of the sections and of the name buffer. -/
def TaskStruct.parts (task : TaskStruct) (nameLen : ℕ) : List (ℕ × ℕ) :=
  task.sections.map (fun p => (p, sizeofSection)) ++ [(task.name, nameLen + 1)]

/-- The parts are pairwise disjoint and lie in the block at `addr`, behind the structure. -/
structure WellLaid (task : TaskStruct) (addr nameLen : ℕ) : Prop where
  apart : (task.parts nameLen).Pairwise RangesApart
  inside : ∀ r ∈ task.parts nameLen, addr + sizeofTask ≤ r.1 ∧ r.1 + r.2 ≤ addr + blockSize nameLen

/-- The layout of **`task_get_new`**. -/
theorem getNewAt_wellLaid (task : TaskStruct) (new nameLen : ℕ) :
    WellLaid (task.getNewAt new) new nameLen where
  apart := by
    simp only [TaskStruct.parts, TaskStruct.sections, TaskStruct.getNewAt, sizeofTask, sizeofSection,
      List.map_cons, List.map_nil, List.cons_append, List.nil_append, List.pairwise_cons, List.mem_cons,
      forall_eq_or_imp, RangesApart]
    simp
  inside := by
    simp only [TaskStruct.parts, TaskStruct.sections, TaskStruct.getNewAt, sizeofTask, sizeofSection,
      List.map_cons, List.map_nil, List.cons_append, List.nil_append, List.mem_cons, forall_eq_or_imp,
      blockSize]
    simp
    omega

/-- A clone has its name where its heap section is. -/
theorem cloneAt_name (task : TaskStruct) (new : ℕ) :
    (task.cloneAt new).name = (task.cloneAt new).heapSec := rfl

/-- Every part of a clone lies in its block. -/
theorem cloneAt_inside (task : TaskStruct) (new nameLen : ℕ) :
    ∀ r ∈ (task.cloneAt new).parts nameLen,
      new + sizeofTask ≤ r.1 ∧ r.1 + r.2 ≤ new + blockSize nameLen := by
  simp only [TaskStruct.parts, TaskStruct.sections, TaskStruct.cloneAt, sizeofTask, sizeofSection,
    List.map_cons, List.map_nil, List.cons_append, List.nil_append, List.mem_cons, forall_eq_or_imp,
    blockSize]
  simp
  omega

/-- The five sections of a clone are apart from each other. -/
theorem cloneAt_sections (task : TaskStruct) (new : ℕ) :
    ((task.cloneAt new).sections.map fun p => (p, sizeofSection)).Pairwise RangesApart := by
  simp only [TaskStruct.sections, TaskStruct.cloneAt, sizeofTask, sizeofSection, List.map_cons,
    List.map_nil, List.pairwise_cons, List.mem_cons, forall_eq_or_imp, RangesApart]
  simp

/-! ## The contents -/

/-- The string at an address. -/
def cString (bytes : ℕ → ℕ) (str : ℕ) : Option (List ℕ) :=
  (strLen bytes (2 ^ 32 - str) str).map (slice bytes str)

/-- The contents of the five sections. -/
def sectionBytes (bytes : ℕ → ℕ) (task : TaskStruct) : List (List ℕ) :=
  task.sections.map fun p => slice bytes p sizeofSection

/-- The clone `new` at `addr`, read in `bytes'`, is a copy of `task`, read in `bytes`. -/
structure FaithfulClone (task new : TaskStruct) (addr : ℕ) (bytes bytes' : ℕ → ℕ) : Prop where
  name : cString bytes' new.name = cString bytes task.name
  sections : sectionBytes bytes' new = sectionBytes bytes task
  wellLaid : ∀ nameLen, ftStrlen bytes task.name = .ok nameLen → WellLaid new addr nameLen

/-- What the allocators promise: the block of the clone is new, its end is an address, and the
directory is elsewhere. -/
structure NewMemory (task : TaskStruct) (addr cr3 nameLen : ℕ) : Prop where
  block : ∀ r ∈ task.parts nameLen, RangesApart (addr, blockSize nameLen) r
  fits : addr + blockSize nameLen ≤ 2 ^ 32
  page : RangesApart (kernelVaddrBase + cr3, pageSize) (addr, blockSize nameLen)

theorem ftStrlen_ok {bytes : ℕ → ℕ} {str n : ℕ} (h : ftStrlen bytes str = .ok n) :
    n < 2 ^ 32 - str ∧ (∀ i < n, bytes (str + i) ≠ 0) ∧ bytes (str + n) = 0 := by
  unfold ftStrlen at h
  split at h
  · next m hm =>
    obtain rfl := Except.ok.inj h
    exact strLen_eq_some.mp hm
  · cases h

section Contents

variable {σ : Type} {K : KernelAlloc σ} {task new : TaskStruct} {addr cr3 nameLen : ℕ}
  {bytes : ℕ → ℕ} {s s' : KernelMem σ}

/-- The block of a clone, before the directory is cleared. -/
def cloneBytes (task : TaskStruct) (addr nameLen : ℕ) (bytes : ℕ → ℕ) : ℕ → ℕ :=
  copyName task (task.cloneAt addr) nameLen
    (copySections task (task.cloneAt addr) (zero bytes addr (blockSize nameLen)))

/-- What a clone that **`task_clone`** returns is made of. -/
theorem taskClone_ok (h : taskClone K task s = .ok (some (addr, new), s')) :
    ∃ nameLen pid cr3, ftStrlen s.bytes task.name = .ok nameLen ∧
      new = { task.cloneAt addr with pid := pid, cr3 := cr3 } ∧
      s'.bytes = zero (cloneBytes task addr nameLen s.bytes) (kernelVaddrBase + cr3) pageSize := by
  unfold taskClone at h
  rw [bind_eq_ok] at h
  obtain ⟨nameLen, hname, h⟩ := h
  rw [bind_eq_ok] at h
  obtain ⟨⟨ptr, a⟩, -, h⟩ := h
  dsimp only at h
  split at h
  · cases h
  split at h
  · -- no pid
    rw [bind_eq_ok] at h
    obtain ⟨a, -, h⟩ := h
    cases h
  · next pid pids _ =>
    rw [bind_eq_ok] at h
    obtain ⟨⟨cr3, a⟩, -, h⟩ := h
    dsimp only at h
    split at h
    · -- no directory
      rw [bind_eq_ok] at h
      obtain ⟨a, -, h⟩ := h
      cases h
    · rw [bind_eq_ok] at h
      obtain ⟨pd, hpd, h⟩ := h
      obtain ⟨rfl, -⟩ := physLinear_ok hpd
      obtain ⟨hnew, rfl⟩ := Prod.mk.inj (Except.ok.inj h)
      obtain ⟨rfl, rfl⟩ := Prod.mk.inj (Option.some.inj hnew)
      exact ⟨nameLen, pid, cr3, hname, rfl, rfl⟩

/-- `copySections` as a list of copies. -/
theorem copySections_eq (task new : TaskStruct) (bytes : ℕ → ℕ) :
    copySections task new bytes =
      copies bytes sizeofSection (new.sections.zip task.sections) := by
  unfold copySections TaskStruct.sections
  rw [List.zip_cons_cons, List.zip_cons_cons, List.zip_cons_cons, List.zip_cons_cons,
    List.zip_cons_cons, List.zip_nil_right, copies_cons, copies_cons, copies_cons, copies_cons,
    copies_cons, copies_nil]

/-- The copies of the sections are made inside the block. -/
theorem clone_dest {c : ℕ × ℕ} (hc : c ∈ (task.cloneAt addr).sections.zip task.sections)
    {r : ℕ × ℕ} (hr : RangesApart (addr, blockSize nameLen) r) : RangesApart (c.1, sizeofSection) r := by
  have hmem : (c.1, sizeofSection) ∈ (task.cloneAt addr).parts nameLen :=
    List.mem_append_left _ (List.mem_map_of_mem (List.of_mem_zip hc).1)
  have hin := cloneAt_inside task addr nameLen _ hmem
  unfold RangesApart at hr ⊢
  dsimp only at hr hin ⊢
  omega

/-- Until the name is written, the five sections of a clone are those of the original. -/
theorem slice_copySections (h : NewMemory task addr cr3 nameLen) {c : ℕ × ℕ}
    (hc : c ∈ (task.cloneAt addr).sections.zip task.sections) :
    slice (copySections task (task.cloneAt addr) (zero bytes addr (blockSize nameLen))) c.1
      sizeofSection = slice bytes c.2 sizeofSection := by
  have hsrc : ∀ d ∈ (task.cloneAt addr).sections.zip task.sections,
      RangesApart (addr, blockSize nameLen) (d.2, sizeofSection) := fun d hd =>
    h.block _ (List.mem_append_left _ (List.mem_map_of_mem (List.of_mem_zip hd).2))
  have hdest : (((task.cloneAt addr).sections.zip task.sections).map
      fun d => (d.1, sizeofSection)).Pairwise RangesApart := cloneAt_sections task addr
  rw [copySections_eq, slice_copies hdest (fun c hc d hd => clone_dest hc (hsrc d hd)) c hc]
  exact slice_zero bytes (hsrc c hc)

/-- The name of the original is still there when it is copied. -/
theorem slice_name_copySections (h : NewMemory task addr cr3 nameLen) :
    slice (copySections task (task.cloneAt addr) (zero bytes addr (blockSize nameLen))) task.name
      (nameLen + 1) = slice bytes task.name (nameLen + 1) := by
  have hname : RangesApart (addr, blockSize nameLen) (task.name, nameLen + 1) :=
    h.block _ (List.mem_append_right _ (List.mem_singleton_self _))
  rw [copySections_eq, slice_copies_of_apart fun c hc => clone_dest hc hname]
  exact slice_zero bytes hname

/-- The bytes from the name of a clone on. -/
theorem cloneBytes_name (h : NewMemory task addr cr3 nameLen) (i : ℕ) :
    cloneBytes task addr nameLen bytes ((task.cloneAt addr).name + i) =
      if i < nameLen then bytes (task.name + i) else if i = nameLen then 0
      else copySections task (task.cloneAt addr) (zero bytes addr (blockSize nameLen))
        ((task.cloneAt addr).name + i) := by
  have hname : RangesApart (addr, blockSize nameLen) (task.name, nameLen + 1) :=
    h.block _ (List.mem_append_right _ (List.mem_singleton_self _))
  have hin := cloneAt_inside task addr nameLen _ (List.mem_append_right _ (List.mem_singleton_self _))
  have hdest : RangesApart ((task.cloneAt addr).name, nameLen) (task.name, nameLen) := by
    unfold RangesApart at hname ⊢
    dsimp only at hname hin ⊢
    omega
  unfold cloneBytes copyName
  split
  · next hi =>
    rw [store_of_ne _ _ (by omega), copy_inside hdest i hi]
    exact slice_eq_iff.mp (slice_name_copySections h) i (by omega)
  · split
    · next hi =>
      rw [hi]
      exact store_self _ _ _
    · rw [store_of_ne _ _ (by omega), copy_outside _ (by omega)]

/-- A part of a clone that is apart from its name is as the copies of the sections left it. -/
theorem slice_cloneBytes {q k : ℕ} (h : RangesApart ((task.cloneAt addr).name, nameLen + 1) (q, k)) :
    slice (cloneBytes task addr nameLen bytes) q k =
      slice (copySections task (task.cloneAt addr) (zero bytes addr (blockSize nameLen))) q k := by
  unfold RangesApart at h
  unfold cloneBytes copyName
  dsimp only at h
  rw [slice_store _ _ (by unfold RangesApart; dsimp only; omega),
    slice_copy _ _ (by unfold RangesApart; dsimp only; omega)]

/-- Clearing the directory leaves the block alone. -/
theorem slice_of_page (h : NewMemory task addr cr3 nameLen) {r : ℕ × ℕ}
    (hr : addr + sizeofTask ≤ r.1 ∧ r.1 + r.2 ≤ addr + blockSize nameLen) (bytes : ℕ → ℕ) :
    slice (zero bytes (kernelVaddrBase + cr3) pageSize) r.1 r.2 = slice bytes r.1 r.2 := by
  refine slice_zero bytes ?_
  have hpage := h.page
  unfold RangesApart at hpage ⊢
  dsimp only at hpage ⊢
  omega

/-- **The name**: a clone has the string of the original. -/
theorem taskClone_cString (h : NewMemory task addr cr3 nameLen)
    (hname : ftStrlen bytes task.name = .ok nameLen) :
    cString (zero (cloneBytes task addr nameLen bytes) (kernelVaddrBase + cr3) pageSize)
      (task.cloneAt addr).name = cString bytes task.name := by
  obtain ⟨hlt, hne, hend⟩ := ftStrlen_ok hname
  have hin := cloneAt_inside task addr nameLen _ (List.mem_append_right _ (List.mem_singleton_self _))
  -- byte by byte, the buffer of the clone is the string of the original with its end
  have hbytes : ∀ i < nameLen + 1, zero (cloneBytes task addr nameLen bytes) (kernelVaddrBase + cr3)
      pageSize ((task.cloneAt addr).name + i) = bytes (task.name + i) := by
    intro i hi
    rw [slice_eq_iff.mp (slice_of_page h hin _) i hi, cloneBytes_name h]
    split
    · rfl
    · next hge =>
      have hlast : i = nameLen := by omega
      rw [if_pos hlast, hlast, hend]
  have hfits := h.fits
  have hlen : strLen (zero (cloneBytes task addr nameLen bytes) (kernelVaddrBase + cr3) pageSize)
      (2 ^ 32 - (task.cloneAt addr).name) (task.cloneAt addr).name = some nameLen := by
    refine strLen_eq_some.mpr ⟨?_, fun i hi => ?_, ?_⟩
    · dsimp only at hin
      omega
    · rw [hbytes i (by omega)]
      exact hne i hi
    · rw [hbytes nameLen (by omega), hend]
  have hlen' : strLen bytes (2 ^ 32 - task.name) task.name = some nameLen :=
    strLen_eq_some.mpr ⟨hlt, hne, hend⟩
  unfold cString
  rw [hlen, hlen', Option.map_some, Option.map_some,
    slice_eq_iff.mpr fun i hi => hbytes i (Nat.lt_succ_of_lt hi)]

/-- The text, data, stack and trampoline sections of a clone are apart from its name. -/
theorem cloneAt_name_apart (task : TaskStruct) (addr : ℕ) {p : ℕ}
    (hp : p ∈ (task.cloneAt addr).sections) (hheap : p ≠ (task.cloneAt addr).heapSec) :
    RangesApart ((task.cloneAt addr).name, nameLen + 1) (p, sizeofSection) := by
  simp only [TaskStruct.sections, TaskStruct.cloneAt, List.mem_cons, List.not_mem_nil, or_false]
    at hp hheap
  unfold RangesApart
  simp only [TaskStruct.cloneAt]
  omega

/-- **A section other than the heap section**: a clone has that of the original. -/
theorem taskClone_section (h : NewMemory task addr cr3 nameLen) {c : ℕ × ℕ}
    (hc : c ∈ (task.cloneAt addr).sections.zip task.sections)
    (hheap : c.1 ≠ (task.cloneAt addr).heapSec) :
    slice (zero (cloneBytes task addr nameLen bytes) (kernelVaddrBase + cr3) pageSize) c.1
      sizeofSection = slice bytes c.2 sizeofSection := by
  have hin := cloneAt_inside task addr nameLen (c.1, sizeofSection)
    (List.mem_append_left _ (List.mem_map_of_mem (List.of_mem_zip hc).1))
  rw [slice_of_page h hin, slice_cloneBytes (cloneAt_name_apart task addr (List.of_mem_zip hc).1 hheap),
    slice_copySections h hc]

/-- **The heap section** of a clone is that of the original with the name written over its start. -/
theorem taskClone_heapSec (h : NewMemory task addr cr3 nameLen) {i : ℕ} (hi : i < sizeofSection) :
    zero (cloneBytes task addr nameLen bytes) (kernelVaddrBase + cr3) pageSize
      ((task.cloneAt addr).heapSec + i) =
      if i < nameLen then bytes (task.name + i) else if i = nameLen then 0
      else bytes (task.heapSec + i) := by
  have hc : ((task.cloneAt addr).heapSec, task.heapSec) ∈
      (task.cloneAt addr).sections.zip task.sections := by
    unfold TaskStruct.sections
    simp
  have hin := cloneAt_inside task addr nameLen ((task.cloneAt addr).heapSec, sizeofSection)
    (List.mem_append_left _ (List.mem_map_of_mem (List.of_mem_zip hc).1))
  rw [slice_eq_iff.mp (slice_of_page h hin _) i hi, ← cloneAt_name, cloneBytes_name h, cloneAt_name]
  split
  · rfl
  split
  · rfl
  · exact slice_eq_iff.mp (slice_copySections h hc) i hi

/-- The heap section survives exactly if the original's already began with the name. -/
theorem taskClone_heapSec_iff (h : NewMemory task addr cr3 nameLen)
    (hname : ftStrlen bytes task.name = .ok nameLen) :
    slice (zero (cloneBytes task addr nameLen bytes) (kernelVaddrBase + cr3) pageSize)
        (task.cloneAt addr).heapSec sizeofSection = slice bytes task.heapSec sizeofSection ↔
      ∀ i < sizeofSection, i ≤ nameLen → bytes (task.heapSec + i) = bytes (task.name + i) := by
  obtain ⟨-, -, hend⟩ := ftStrlen_ok hname
  rw [slice_eq_iff]
  refine forall₂_congr fun i hi => ?_
  rw [taskClone_heapSec h hi]
  rcases Nat.lt_trichotomy i nameLen with hlt | rfl | hgt
  · rw [if_pos hlt]
    exact ⟨fun heq _ => heq.symm, fun heq => (heq hlt.le).symm⟩
  · rw [if_neg (lt_irrefl _), if_pos rfl, hend]
    exact ⟨fun heq _ => heq.symm, fun heq => (heq le_rfl).symm⟩
  · rw [if_neg (by omega), if_neg (by omega)]
    exact iff_of_true rfl fun hle => absurd hle (by omega)

/-- A word of bytes has these bytes. -/
theorem wordBytes_wordAt {l : List ℕ} (h : ∀ i, l.getD i 0 < 256) (i : ℕ) :
    wordBytes (wordAt l i) = [l.getD i 0, l.getD (i + 1) 0, l.getD (i + 2) 0, l.getD (i + 3) 0] := by
  have h₀ := h i
  have h₁ := h (i + 1)
  have h₂ := h (i + 2)
  have h₃ := h (i + 3)
  unfold wordBytes wordAt
  simp only [List.cons.injEq, and_true]
  omega

/-- A section of bytes has these bytes. -/
theorem bytes_ofBytes {l : List ℕ} (h : ∀ i, l.getD i 0 < 256) :
    (Section.ofBytes l).bytes = (List.range sizeofSection).map fun i => l.getD i 0 := by
  unfold Section.bytes Section.ofBytes
  simp only [List.flatMap_cons, List.flatMap_nil, wordBytes_wordAt h]
  rfl

/-- A section is determined by its bytes. -/
theorem ofBytes_congr {l l' : List ℕ} (h : ∀ i < sizeofSection, l.getD i 0 = l'.getD i 0) :
    Section.ofBytes l = Section.ofBytes l' := by
  have hword : ∀ i, i + 3 < sizeofSection → wordAt l i = wordAt l' i := by
    intro i hi
    unfold wordAt
    rw [h i (by omega), h (i + 1) (by omega), h (i + 2) (by omega), h (i + 3) hi]
  unfold sizeofSection at hword
  simp only [Section.ofBytes, Section.mk.injEq]
  exact ⟨hword 0 (by decide), hword 4 (by decide), hword 8 (by decide), hword 12 (by decide),
    hword 16 (by decide), hword 20 (by decide)⟩

theorem slice_getD (bytes : ℕ → ℕ) (p n i : ℕ) :
    (slice bytes p n).getD i 0 = if i < n then bytes (p + i) else 0 := by
  rw [List.getD_eq_getElem?_getD, slice_getElem?]
  split <;> rfl

/-- The heap section of a clone is the one of `Kfs.Proc.Lifecycle`: the original's, with the name and
its end written over its start. -/
theorem taskClone_overlay (h : NewMemory task addr cr3 nameLen) (hbytes : ∀ a, bytes a < 256) :
    Section.ofBytes (slice (zero (cloneBytes task addr nameLen bytes) (kernelVaddrBase + cr3) pageSize)
        (task.cloneAt addr).heapSec sizeofSection) =
      (Section.ofBytes (slice bytes task.heapSec sizeofSection)).overlay
        (slice bytes task.name nameLen ++ [0]) := by
  have hbyte : ∀ i, (slice bytes task.heapSec sizeofSection).getD i 0 < 256 := by
    intro i
    rw [slice_getD]
    split
    · exact hbytes _
    · decide
  unfold Section.overlay
  rw [bytes_ofBytes hbyte]
  refine ofBytes_congr fun i hi => ?_
  rw [slice_getD, if_pos hi, taskClone_heapSec h hi, List.append_assoc, List.getD_eq_getElem?_getD,
    List.getElem?_append, slice_length]
  split
  · next hlt => rw [slice_getElem?, if_pos hlt, Option.getD_some]
  split
  · next heq => simp [heq]
  · next hge hne =>
    -- behind the name
    obtain ⟨j, rfl⟩ : ∃ j, i = nameLen + 1 + j := ⟨i - (nameLen + 1), by omega⟩
    rw [show nameLen + 1 + j - nameLen = j + 1 by omega, List.singleton_append,
      List.getElem?_cons_succ, List.length_append, slice_length, List.length_singleton,
      List.getElem?_drop, List.getElem?_map, List.getElem?_range hi, Option.map_some,
      Option.getD_some, slice_getD, if_pos hi]

/-- **No clone is a copy of its original** in the sense of `FaithfulClone`: its name lies in its heap
section, whatever the name and the sections are. -/
theorem taskClone_not_faithful (h : taskClone K task s = .ok (some (addr, new), s')) :
    ¬ FaithfulClone task new addr s.bytes s'.bytes := by
  obtain ⟨nameLen, pid, cr3, hname, rfl, -⟩ := taskClone_ok h
  intro hfaithful
  have hapart := (hfaithful.wellLaid nameLen hname).apart
  unfold TaskStruct.parts at hapart
  rw [List.pairwise_append] at hapart
  -- the heap section is one of the first five parts, the name is the sixth
  have hmeet : RangesApart ((task.cloneAt addr).heapSec, sizeofSection)
      ((task.cloneAt addr).name, nameLen + 1) :=
    hapart.2.2 _ (List.mem_map_of_mem (by simp [TaskStruct.sections])) _ (List.mem_singleton_self _)
  rw [cloneAt_name] at hmeet
  unfold RangesApart sizeofSection at hmeet
  dsimp only at hmeet
  omega

end Contents

/-! ### A clone of the first task -/

/-- The structure of the first task, in a block at `0xC0400000`. -/
def initTask : TaskStruct :=
  TaskStruct.getNewAt
    { pid := 1, uid := 0, gid := 0, realParent := 0, parent := 0, esp := 0xC0502000, cr3 := 0x2000,
      kernelStackPointer := 0xC0500000, kernelStackBase := 0xC0502000, textSec := 0, dataSec := 0,
      stackSec := 0, heapSec := 0, signalsMap := 0, sigTrampoline := 0, sigHandlers := [], name := 0,
      ring := 3, needResched := false, exitCode := 0, state := .running, tickToWake := 0,
      quantumRemaining := 10 } 0xC0400000

/-- Its name is "kitoxD" and its heap starts at `0x0804A000`. -/
def initMem : KernelMem (BuddyRun × BumpHeap) where
  bytes a :=
    if initTask.name ≤ a then [0x6B, 0x69, 0x74, 0x6F, 0x78, 0x44].getD (a - initTask.name) 0
    else if initTask.heapSec ≤ a then
      { Section.zero with vAddr := 0x0804A000, flags := userSectionRw }.bytes.getD
        (a - initTask.heapSec) 0
    else 0
  alloc := emptySpace.alloc
  pids := idManagerCreate 32768 fun _ => 0

/-- What a clone is, and its heap section. -/
def cloneView (r : Option (ℕ × TaskStruct) × KernelMem (BuddyRun × BumpHeap)) :
    Option (ℕ × TaskStruct × List ℕ) :=
  r.1.map fun new => (new.1, new.2, slice r.2.bytes new.2.heapSec sizeofSection)

theorem initMem_cloneView :
    ((taskClone (bumpKernel buddyPageAlloc) initTask initMem).toOption.bind cloneView).map
        (fun v => (v.1, v.2.2)) =
      some (0xD0000000, [0x6B, 0x69, 0x74, 0x6F, 0x78, 0x44, 0, 0, 0, 0, 0, 0, 0, 0, 0, 0, 0, 0, 0, 0,
        7, 0, 0, 0]) := by
  decide +kernel

/-- The clone of the first task, and its heap section. -/
theorem initMem_clone : ∃ new s',
    taskClone (bumpKernel buddyPageAlloc) initTask initMem = .ok (some (0xD0000000, new), s') ∧
    slice s'.bytes new.heapSec sizeofSection = [0x6B, 0x69, 0x74, 0x6F, 0x78, 0x44, 0, 0, 0, 0, 0, 0,
      0, 0, 0, 0, 0, 0, 0, 0, 7, 0, 0, 0] := by
  obtain ⟨v, hv, hview⟩ := Option.map_eq_some_iff.mp initMem_cloneView
  obtain ⟨⟨new, s'⟩, hrun, hclone⟩ := Option.bind_eq_some_iff.mp hv
  obtain ⟨⟨addr, new⟩, rfl, rfl⟩ := Option.map_eq_some_iff.mp hclone
  obtain ⟨rfl, hheap⟩ := Prod.mk.inj hview
  refine ⟨new, s', ?_, hheap⟩
  cases hok : taskClone (bumpKernel buddyPageAlloc) initTask initMem with
  | error e =>
    rw [hok] at hrun
    cases hrun
  | ok r =>
    rw [hok] at hrun
    rw [Option.some.inj hrun]

theorem taskClone_not_faithful_initTask : ∃ new s',
    taskClone (bumpKernel buddyPageAlloc) initTask initMem = .ok (some (0xD0000000, new), s') ∧
    ¬ FaithfulClone initTask new 0xD0000000 initMem.bytes s'.bytes := by
  obtain ⟨new, s', hrun, -⟩ := initMem_clone
  exact ⟨new, s', hrun, taskClone_not_faithful hrun⟩

/-- The heap section of the clone begins with the name instead of the address `0x0804A000`. -/
theorem not_forall_faithfulClone : ¬ ∀ {task : TaskStruct} {addr : ℕ} {new : TaskStruct}
    {s s' : KernelMem (BuddyRun × BumpHeap)},
    taskClone (bumpKernel buddyPageAlloc) task s = .ok (some (addr, new), s') →
      FaithfulClone task new addr s.bytes s'.bytes := by
  intro hall
  obtain ⟨new, s', hrun, hheap⟩ := initMem_clone
  have hsections := (hall hrun).sections
  simp only [sectionBytes, TaskStruct.sections, List.map_cons, List.map_nil, List.cons.injEq]
    at hsections
  have hfourth := hsections.2.2.2.1
  rw [hheap] at hfourth
  exact absurd hfourth (by decide)

end Kfs.Userspace.Block
