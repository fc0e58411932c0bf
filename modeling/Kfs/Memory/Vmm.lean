import Kfs.Memory.PageAlloc

/-!
# Two-level page tables

`src/memory/vmm.c`. Physical memory is a map from word addresses to 32-bit words; the code reaches
it through the linear mapping at `KERNEL_VADDR_BASE`, so a pointer is represented by its physical
address and `physLinear` is the check that `PHYS_TO_VIRT_LINEAR` makes. Addresses above `LOWMEM`
are not linearly mapped.

The page allocator is a parameter (`Kfs.Memory.PageAlloc`). The translation caches of the processor
are not modelled, so `invlpg` and the reloads of `cr3` leave no trace here.
-/

namespace Kfs.Memory

open Kfs.Lib Kfs.Lib.Word32

/-! ## Entries -/

def ptePresentBit : ℕ := 0b001 -- PTE_PRESENT_BIT
def pteRwBit : ℕ := 0b010 -- PTE_RW_BIT
def pteUsBit : ℕ := 0b100 -- PTE_US_BIT
def pdePresentBit : ℕ := 0b001 -- PDE_PRESENT_BIT
def pdeRwBit : ℕ := 0b010 -- PDE_RW_BIT
def pdeUsBit : ℕ := 0b100 -- PDE_US_BIT
def userPdes : ℕ := 768 -- the entries of a directory below KERNEL_VADDR_BASE
def vmmKmapVaddr : ℕ := 0xFFFFE000 -- VMM_KMAP_VADDR

/-- `GET_PDE_INDEX(vaddr)`. -/
def getPdeIndex (vaddr : ℕ) : ℕ := vaddr >>> 22

/-- `GET_PTE_INDEX(vaddr)`. -/
def getPteIndex (vaddr : ℕ) : ℕ := (vaddr >>> 12) &&& 0x3FF

/-- `GET_ENTRY_ADDR(entry)`. -/
def getEntryAddr (entry : ℕ) : ℕ := entry &&& highMask 12

/-- `GET_ENTRY_FLAGS(entry)`. -/
def getEntryFlags (entry : ℕ) : ℕ := entry &&& 0xFFF

/-- `FLAG_IS_SET(flags, flag)`. -/
def flagIsSet (flags flag : ℕ) : Bool := flags &&& flag != 0

/-! ## Physical memory -/

/-- Physical memory and the page allocator. -/
structure Phys (σ : Type) where
  mem : ℕ → ℕ
  alloc : σ

namespace Phys

variable {σ : Type}

/-- Writes a word. -/
def write (s : Phys σ) (addr word : ℕ) : Phys σ :=
  { s with mem := fun a => if a = addr then word else s.mem a }

/-- `ft_bzero(ptr, PAGE_SIZE)`. -/
def zeroPage (s : Phys σ) (addr : ℕ) : Phys σ :=
  { s with mem := fun a => if addr ≤ a ∧ a < addr + pageSize then 0 else s.mem a }

@[simp] theorem write_alloc (s : Phys σ) (addr word : ℕ) : (s.write addr word).alloc = s.alloc := rfl

@[simp] theorem zeroPage_alloc (s : Phys σ) (addr : ℕ) : (s.zeroPage addr).alloc = s.alloc := rfl

theorem write_mem (s : Phys σ) (addr word a : ℕ) :
    (s.write addr word).mem a = if a = addr then word else s.mem a := rfl

theorem zeroPage_mem (s : Phys σ) (addr a : ℕ) :
    (s.zeroPage addr).mem a = if addr ≤ a ∧ a < addr + pageSize then 0 else s.mem a := rfl

end Phys

/-- `PHYS_TO_VIRT_LINEAR(p_addr)` as the start of an access. -/
def physLinear (pAddr : ℕ) : Kern ℕ :=
  if pAddr > 2 ^ 32 - 1 - kernelVaddrBase then .error (.kpanic "Assertion `%s' failed.")
  else if pAddr < highmemStart then .ok pAddr
  else .error .fault

section Vmm

variable {σ : Type} (A : PageAlloc σ)

/-! ## Mapping -/

/-- `vmm_map_page`. -/
def vmmMapPage (pageDirPhys vAddr pAddr flags : ℕ) (s : Phys σ) : Kern (Bool × Phys σ) := do
  let pdVirt ← physLinear pageDirPhys
  let pde := pdVirt + 4 * getPdeIndex vAddr
  if !flagIsSet (s.mem pde) pdePresentBit then do
    let (ptPhys, a) ← A.buddyAllocPages pageSize .lowmem s.alloc
    let s := { s with alloc := a }
    if ptPhys = 0 then .ok (false, s)
    else do
      let ptVirt ← physLinear ptPhys
      let s := s.zeroPage ptVirt
      let s := s.write pde (ptPhys ||| pdePresentBit ||| pdeRwBit ||| (flags &&& pdeUsBit))
      .ok (true, s.write (ptVirt + 4 * getPteIndex vAddr) (pAddr ||| flags))
  else do
    let s := if flagIsSet flags pdeUsBit && !flagIsSet (s.mem pde) pdeUsBit then
        s.write pde (s.mem pde ||| pdeUsBit)
      else s
    let ptVirt ← physLinear (getEntryAddr (s.mem pde))
    .ok (true, s.write (ptVirt + 4 * getPteIndex vAddr) (pAddr ||| flags))

/-- The scan of `vmm_unmap_page` for a present entry. -/
def isPtEmpty (mem : ℕ → ℕ) (ptVirt : ℕ) : Bool :=
  (List.range 1024).all fun i => !flagIsSet (mem (ptVirt + 4 * i)) ptePresentBit

/-- `vmm_unmap_page`. -/
def vmmUnmapPage (pageDirPhys vAddr : ℕ) (s : Phys σ) : Kern (Bool × Phys σ) := do
  let pdVirt ← physLinear pageDirPhys
  let pde := s.mem (pdVirt + 4 * getPdeIndex vAddr)
  if !flagIsSet pde pdePresentBit then .ok (false, s)
  else do
    let ptPhys := getEntryAddr pde
    let ptVirt ← physLinear ptPhys
    if !flagIsSet (s.mem (ptVirt + 4 * getPteIndex vAddr)) ptePresentBit then .ok (false, s)
    else do
      let s := s.write (ptVirt + 4 * getPteIndex vAddr) 0
      if isPtEmpty s.mem ptVirt then do
        let s := s.write (pdVirt + 4 * getPdeIndex vAddr) 0
        let a ← A.buddyFreeBlock ptPhys s.alloc
        .ok (true, { s with alloc := a })
      else .ok (true, s)

/-- `vmm_get_mapping`. -/
def vmmGetMapping (pageDirPhys vAddr : ℕ) (s : Phys σ) : Kern ℕ := do
  let pdPtr ← physLinear pageDirPhys
  let pde := s.mem (pdPtr + 4 * getPdeIndex vAddr)
  if !flagIsSet pde pdePresentBit then .ok 0
  else do
    let ptPtr ← physLinear (getEntryAddr pde)
    let pte := s.mem (ptPtr + 4 * getPteIndex vAddr)
    if !flagIsSet pte ptePresentBit then .ok 0
    else .ok (add32 (getEntryAddr pte) (vAddr &&& 0xFFF))

/-! ## The kernel window -/

/-- `vmm_kmap`, with the current page directory as an argument. -/
def vmmKmap (currentPd pAddr : ℕ) (s : Phys σ) : Kern (ℕ × Phys σ) := do
  let (ok, s) ← vmmMapPage A currentPd vmmKmapVaddr pAddr (ptePresentBit ||| pteRwBit) s
  .ok (if ok then vmmKmapVaddr else 0, s)

/-- `vmm_kunmap`. -/
def vmmKunmap (currentPd : ℕ) (s : Phys σ) : Kern (Phys σ) := do
  let (_, s) ← vmmUnmapPage A currentPd vmmKmapVaddr s
  .ok s

/-! ## Destruction -/

/-- The body of the loop of `vmm_free_pt_range`. -/
def freePt (pd : ℕ) (s : Phys σ) (i : ℕ) : Kern (Phys σ) :=
  if flagIsSet (s.mem (pd + 4 * i)) pdePresentBit then do
    let a ← A.buddyFreeBlock (getEntryAddr (s.mem (pd + 4 * i))) s.alloc
    .ok ({ s with alloc := a }.write (pd + 4 * i) 0)
  else .ok s

/-- `vmm_free_pt_range`. -/
def vmmFreePtRange (pdPhys pdeStart pdeEnd : ℕ) (s : Phys σ) : Kern (Phys σ) := do
  let pd ← physLinear pdPhys
  (List.range' pdeStart (pdeEnd - pdeStart)).foldlM (freePt A pd) s

/-- `vmm_destroy_user_pd`. -/
def vmmDestroyUserPd (pdPhys : ℕ) (s : Phys σ) : Kern (Phys σ) := do
  let s ← vmmFreePtRange A pdPhys 0 userPdes s
  let a ← A.buddyFreeBlock pdPhys s.alloc
  .ok { s with alloc := a }

end Vmm

end Kfs.Memory
