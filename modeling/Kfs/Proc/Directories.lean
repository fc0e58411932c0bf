import Kfs.Memory.VmmBoot
import Kfs.Proc.Lifecycle

/-!
# All directories together

The page-table calls of the kernel on all directories, in any order: a process calls
`vmm_map_page` and `vmm_unmap_page` on its own directory or on one that it builds, `vmm_kmap` works
under whatever directory is loaded, and directories are made by `userspace_map_kernel` and by `fork`
and given back by `vmm_destroy_user_pd`. A directory is a page with a stage: it is being filled by
`fork`, entry by entry, or it is in use. The calls may edit the slots of the user half and those from
992 on; what lies between them is fixed, and so are the entries that `fork` has not come to.
-/

namespace Kfs.Userspace

open Kfs.Lib Kfs.Lib.Word32 Kfs.Lib.Dyadic Kfs.Memory

/-! ## One turn of `fork` -/

/-- The body of the outer loop of `sys_fork` up to the inner loop: whether it goes on, the table of
the parent if there is one, and memory. -/
def forkTableHead {σ : Type} (A : PageAlloc σ) (current new : ℕ) (s : Phys σ) (i : ℕ) :
    Kern (Bool × Option ℕ × Phys σ) := do
  let currentPd ← physLinear current
  let newPd ← physLinear new
  if flagIsSet (s.mem (currentPd + 4 * i)) pdePresentBit then do
    let (newPtPhys, s) ← A.allocOn pageSize .lowmem s
    if newPtPhys = 0 then .ok (false, none, s)
    else do
      let s := s.write (newPd + 4 * i)
        (getEntryAddr newPtPhys ||| getEntryFlags (s.mem (currentPd + 4 * i)))
      let currentPt ← physLinear (getEntryAddr (s.mem (currentPd + 4 * i)))
      let newPt ← physLinear (getEntryAddr (s.mem (newPd + 4 * i)))
      .ok (true, some currentPt, s.zeroPage newPt)
  else .ok (true, none, s)

/-- The outer loop goes through the entries of the table after that. -/
theorem forkTable_eq {σ : Type} (K : KernelAlloc σ) (current new : ℕ) (s : Phys σ) (i : ℕ) :
    forkTable K current new s i = (do
      let (ok, pt, s) ← forkTableHead K.toPageAlloc current new s i
      match pt with
      | none => .ok (ok, s)
      | some pt => whileOk (forkPage K current new pt i) (List.range' 0 1024) s) := by
  unfold forkTable forkTableHead
  cases physLinear current with
  | error e => rfl
  | ok currentPd =>
    cases physLinear new with
    | error e => rfl
    | ok newPd =>
      simp only [ok_bind]
      split
      · cases K.allocOn pageSize .lowmem s with
        | error e => rfl
        | ok res =>
          obtain ⟨newPtPhys, s⟩ := res
          simp only [ok_bind]
          split
          · rfl
          · cases physLinear (getEntryAddr _) with
            | error e => rfl
            | ok currentPt =>
              simp only [ok_bind]
              cases physLinear (getEntryAddr _) with
              | error e => rfl
              | ok newPt => rfl
      · rfl

/-! ## The system -/

/-- What a page is as a directory: none, one that `fork` has filled up to an entry of the user half,
or one in use. -/
inductive DirStage where
  | absent
  | filling (next : ℕ)
  | live
  deriving DecidableEq, Repr

/-- The slots of a directory that are its own. -/
def OwnSlot (i : ℕ) : Prop := i < userPdes ∨ (userPdes + ptCount ≤ i ∧ i < 1024)

/-- Memory, the stage of each directory and the blocks that belong to others. -/
structure SpaceRun (σ : Type) where
  phys : Phys σ
  stage : ℕ → DirStage
  held : Set (ℕ × ℕ)

/-- The calls of a run. The directory under which `vmm_kmap` and `vmm_kunmap` are called is an
argument, and so are the parent's directory and the child's for the two steps of `fork`. -/
inductive SpaceCall where
  | mapPage (pd v p flags : ℕ)
  | unmapPage (pd v : ℕ)
  | kmap (cur p : ℕ)
  | kunmap (cur : ℕ)
  | newSpace
  | clone
  | forkTable (current new : ℕ)
  | forkShare (current new : ℕ)
  | destroy (pd : ℕ)
  | alloc (size : ℕ) (zone : Zone)
  | free (p k : ℕ)
  | store (a word : ℕ)
  deriving DecidableEq, Repr

namespace SpaceRun

variable {σ : Type} (r : SpaceRun σ)

/-- The slots that the calls on a directory may change. -/
def Editable (pd i : ℕ) : Prop :=
  match r.stage pd with
  | .absent => False
  | .filling next => i < next ∧ i < userPdes
  | .live => OwnSlot i

/-- The slots that they must leave alone. -/
def Fixed (pd i : ℕ) : Prop :=
  match r.stage pd with
  | .absent => False
  | .filling next => next ≤ i ∧ i < 1024
  | .live => userPdes ≤ i ∧ i < userPdes + ptCount

/-- The slots with tables of their own. -/
def slots : Set (ℕ × ℕ) := { w | r.stage w.1 ≠ .absent ∧ OwnSlot w.2 }

/-- The live blocks that are no tables; the kernel directory is not the buddy allocator's. -/
def blocks (kernelDir : ℕ) : Set (ℕ × ℕ) :=
  r.held ∪ { b | ∃ pd, r.stage pd ≠ .absent ∧ pd ≠ kernelDir ∧ b = (pd / 4096, 0) }

/-- The cell lies in a directory or in a table that a directory names. -/
def PagingCell (a : ℕ) : Prop :=
  ∃ pd, r.stage pd ≠ .absent ∧ (pd / 4096 = a / 4096 ∨
    ∃ i < 1024, slotPresent r.phys (pd, i) = true ∧ tableOf r.phys (pd, i) / 4096 = a / 4096)

/-- The run with another stage of one directory. -/
def setStage (pd : ℕ) (st : DirStage) : SpaceRun σ := { r with stage := Function.update r.stage pd st }

end SpaceRun

/-- One call that returns. -/
def spaceStep {σ : Type} (A : PageAlloc σ) (kernelDir : ℕ) (r : SpaceRun σ) :
    SpaceCall → SpaceRun σ → Prop
  | .mapPage pd v p flags, r' => r.Editable pd (getPdeIndex v) ∧
      ∃ ok s, vmmMapPage A pd v p flags r.phys = .ok (ok, s) ∧ r' = { r with phys := s }
  | .unmapPage pd v, r' => r.Editable pd (getPdeIndex v) ∧
      ∃ ok s, vmmUnmapPage A pd v r.phys = .ok (ok, s) ∧ r' = { r with phys := s }
  | .kmap cur p, r' => r.stage cur = .live ∧
      ∃ window s, vmmKmap A cur p r.phys = .ok (window, s) ∧ r' = { r with phys := s }
  | .kunmap cur, r' => r.stage cur = .live ∧
      ∃ s, vmmKunmap A cur r.phys = .ok s ∧ r' = { r with phys := s }
  | .newSpace, r' => ∃ pd s, A.allocOn pageSize .lowmem r.phys = .ok (pd, s) ∧
      if pd = 0 then r' = { r with phys := s }
      else ∃ ok s', userspaceMapKernel kernelDir pd s = .ok (ok, s') ∧
        r' = { r with phys := s' }.setStage pd (if ok then .live else .filling 0)
  | .clone, r' => ∃ pd s, A.allocOn pageSize .lowmem r.phys = .ok (pd, s) ∧
      if pd = 0 then r' = { r with phys := s }
      else ∃ pdVirt, physLinear pd = .ok pdVirt ∧
        r' = { r with phys := s.zeroPage pdVirt }.setStage pd (.filling 0)
  | .forkTable current new, r' => r.stage current = .live ∧
      ∃ i, r.stage new = .filling i ∧ i < userPdes ∧
      ∃ ok pt s, forkTableHead A current new r.phys i = .ok (ok, pt, s) ∧
        r' = { r with phys := s }.setStage new (.filling (if ok then i + 1 else i))
  | .forkShare current new, r' => r.stage current = .live ∧ r.stage new = .filling userPdes ∧
      ∃ currentPd newPd, physLinear current = .ok currentPd ∧ physLinear new = .ok newPd ∧
        r' = { r with
          phys := r.phys.memcpy (newPd + 4 * userPdes) (currentPd + 4 * userPdes) (224 * 4) }.setStage
            new .live
  | .destroy pd, r' => r.stage pd ≠ .absent ∧ pd ≠ kernelDir ∧
      ∃ s, vmmDestroyUserPd A pd r.phys = .ok s ∧
        r' = { r with
          phys := s
          -- the tables of the slots from 992 on are not given back
          held := r.held ∪ tables { w | w.1 = pd ∧ OwnSlot w.2 ∧ userPdes ≤ w.2 } r.phys }.setStage
            pd .absent
  | .alloc size zone, r' => ∃ ptr s, A.allocOn size zone r.phys = .ok (ptr, s) ∧
      r' = { r with
        phys := s
        held := if ptr = 0 then r.held else insert (ptr / 4096, sizeToOrder size) r.held }
  | .free p k, r' => (p, k) ∈ r.held ∧
      ∃ s, A.freeOn (p * 4096) r.phys = .ok s ∧ r' = { r with phys := s, held := r.held \ {(p, k)} }
  | .store a word, r' => ¬ r.PagingCell a ∧ r' = { r with phys := r.phys.write a word }

/-- The runs from the state that `vmm_finalize` leaves: the kernel directory is the only one, and the
live blocks belong to others. -/
def spaceSystem {σ : Type} (A : PageAlloc σ) (V : PageAlloc.View σ) (kernelDir : ℕ) (s : Phys σ) :
    System (SpaceRun σ) SpaceCall where
  init r := r = { phys := s, stage := fun _ => .absent, held := V.live s.alloc : SpaceRun σ }.setStage
    kernelDir .live
  step := spaceStep A kernelDir

end Kfs.Userspace
