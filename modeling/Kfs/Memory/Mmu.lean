import Kfs.Memory.VmmSpec

/-!
# The translation cache

The processor's side of `src/memory/vmm.c`: the register `cr3`, the walk through the two levels of
tables and the cache of the translations that walks have found. The cache is a set: an access adds
what the walk of its page gives, a load of `cr3` empties it and `invlpg` drops one page.
`vmm_map_page` and `vmm_unmap_page` are written out again, with the flush at their end; without the
processor they are the operations of `Kfs.Memory.Vmm`.
-/

namespace Kfs.Memory

open Kfs.Lib Kfs.Lib.Word32 Kfs.Lib.Dyadic

/-! ## Walks -/

/-- What the processor keeps of a walk: both levels must allow a user access and a write. -/
structure Translation where
  frame : ℕ
  user : Bool
  write : Bool
  deriving DecidableEq, Repr

/-- The walk for page number `n` under the directory at `pd`. The kernel maps no large pages. -/
def walk (mem : ℕ → ℕ) (pd n : ℕ) : Option Translation :=
  let pde := mem (pd + 4 * (n / 1024))
  if !flagIsSet pde pdePresentBit then none
  else
    let pte := mem (getEntryAddr pde + 4 * (n % 1024))
    if !flagIsSet pte ptePresentBit then none
    else some { frame := getEntryAddr pte
                user := flagIsSet pde pdeUsBit && flagIsSet pte pteUsBit
                write := flagIsSet pde pdeRwBit && flagIsSet pte pteRwBit }

/-! ## The processor -/

/-- Physical memory, the current directory and the cached translations, by page number. -/
structure Mmu (σ : Type) where
  phys : Phys σ
  cr3 : ℕ
  tlb : Set (ℕ × Translation)

namespace Mmu

variable {σ : Type} (A : PageAlloc σ) (m : Mmu σ)

/-- An access at `vAddr` caches what the walk finds. -/
def access (vAddr : ℕ) : Mmu σ :=
  { m with tlb := m.tlb ∪ { e | e.1 = vAddr / 4096 ∧ walk m.phys.mem m.cr3 e.1 = some e.2 } }

/-- `paging_reload_cr3`. -/
def pagingReloadCr3 (pdPhysAddr : ℕ) : Mmu σ := { m with cr3 := pdPhysAddr, tlb := ∅ }

/-- `paging_invalid_TLB_addr`. -/
def pagingInvalidTlbAddr (addr : ℕ) : Mmu σ := { m with tlb := { e ∈ m.tlb | e.1 ≠ addr / 4096 } }

/-- The end of `vmm_map_page`, with memory as it is then. -/
def mapFlush (pageDirPhys vAddr : ℕ) (needsCr3Reload : Bool) (s : Phys σ) : Mmu σ :=
  let m := { m with phys := s }
  if m.cr3 = pageDirPhys then
    if needsCr3Reload then m.pagingReloadCr3 pageDirPhys else m.pagingInvalidTlbAddr vAddr
  else m

/-- `vmm_map_page`. -/
def vmmMapPage (pageDirPhys vAddr pAddr flags : ℕ) : Kern (Bool × Mmu σ) := do
  let pdVirt ← physLinear pageDirPhys
  let pde := pdVirt + 4 * getPdeIndex vAddr
  if !flagIsSet (m.phys.mem pde) pdePresentBit then do
    let (ptPhys, a) ← A.buddyAllocPages pageSize .lowmem m.phys.alloc
    let s := { m.phys with alloc := a }
    if ptPhys = 0 then .ok (false, { m with phys := s })
    else do
      let ptVirt ← physLinear ptPhys
      let s := s.zeroPage ptVirt
      let s := s.write pde (ptPhys ||| pdePresentBit ||| pdeRwBit ||| (flags &&& pdeUsBit))
      let s := s.write (ptVirt + 4 * getPteIndex vAddr) (pAddr ||| flags)
      .ok (true, m.mapFlush pageDirPhys vAddr true s)
  else do
    let needsCr3Reload := flagIsSet flags pdeUsBit && !flagIsSet (m.phys.mem pde) pdeUsBit
    let s := if needsCr3Reload then m.phys.write pde (m.phys.mem pde ||| pdeUsBit) else m.phys
    let ptVirt ← physLinear (getEntryAddr (s.mem pde))
    let s := s.write (ptVirt + 4 * getPteIndex vAddr) (pAddr ||| flags)
    .ok (true, m.mapFlush pageDirPhys vAddr needsCr3Reload s)

/-- `vmm_unmap_page`. -/
def vmmUnmapPage (pageDirPhys vAddr : ℕ) : Kern (Bool × Mmu σ) := do
  let pdVirt ← physLinear pageDirPhys
  let pde := m.phys.mem (pdVirt + 4 * getPdeIndex vAddr)
  if !flagIsSet pde pdePresentBit then .ok (false, m)
  else do
    let ptPhys := getEntryAddr pde
    let ptVirt ← physLinear ptPhys
    if !flagIsSet (m.phys.mem (ptVirt + 4 * getPteIndex vAddr)) ptePresentBit then .ok (false, m)
    else do
      let s := m.phys.write (ptVirt + 4 * getPteIndex vAddr) 0
      let m := { m with phys := s }.pagingInvalidTlbAddr vAddr
      if isPtEmpty m.phys.mem ptVirt then do
        let s := m.phys.write (pdVirt + 4 * getPdeIndex vAddr) 0
        let a ← A.buddyFreeBlock ptPhys s.alloc
        let m := { m with phys := { s with alloc := a } }
        .ok (true, if pageDirPhys = m.cr3 then m.pagingReloadCr3 pageDirPhys else m)
      else .ok (true, m)

/-- `vmm_kmap`. -/
def vmmKmap (pAddr : ℕ) : Kern (ℕ × Mmu σ) := do
  let (ok, m) ← m.vmmMapPage A m.cr3 vmmKmapVaddr pAddr (ptePresentBit ||| pteRwBit)
  .ok (if ok then vmmKmapVaddr else 0, m)

/-- `vmm_kunmap`. -/
def vmmKunmap : Kern (Mmu σ) := do
  let (_, m) ← m.vmmUnmapPage A m.cr3 vmmKmapVaddr
  .ok m

end Mmu

/-! ## What a walk reads -/

section Walks

variable {σ : Type} {A : PageAlloc σ} {s s' : Phys σ}

/-- A walk reads one slot and one entry of the table there. -/
theorem walk_congr {pd n : ℕ}
    (hslot : s'.mem (slotAddr (pd, n / 1024)) = s.mem (slotAddr (pd, n / 1024)))
    (hentry : slotPresent s (pd, n / 1024) = true →
      s'.mem (tableOf s (pd, n / 1024) + 4 * (n % 1024)) =
        s.mem (tableOf s (pd, n / 1024) + 4 * (n % 1024))) :
    walk s'.mem pd n = walk s.mem pd n := by
  unfold slotPresent tableOf slotAddr at hentry
  unfold slotAddr at hslot
  unfold walk
  simp only at hslot hentry ⊢
  rw [hslot]
  cases hpres : flagIsSet (s.mem (pd + 4 * (n / 1024))) pdePresentBit with
  | false => simp
  | true => rw [hentry hpres]

/-- A walk that finds a translation goes through a present slot and a present entry. -/
theorem pte_of_walk {pd n : ℕ} {t : Translation} (h : walk s.mem pd n = some t) :
    pte s (pd, n / 1024) (n % 1024) ≠ none := by
  unfold walk at h
  unfold pte slotPresent tableOf slotAddr
  simp only at h ⊢
  split at h
  · cases h
  · next hpde =>
    split at h
    · cases h
    · next hpte => simp_all

/-- The two indices of a page. -/
theorem page_indices {v n : ℕ} (hne : n ≠ v / 4096) (hpde : n / 1024 = getPdeIndex v) :
    n % 1024 ≠ getPteIndex v := by
  rw [getPdeIndex_eq] at hpde
  rw [getPteIndex_eq]
  omega

/-! ## The operations without the processor -/

/-- Whether `vmm_map_page` asks for a reload of `cr3`. -/
def needsCr3Reload (mem : ℕ → ℕ) (pd v flags : ℕ) : Bool :=
  !flagIsSet (mem (pd + 4 * getPdeIndex v)) pdePresentBit ||
    (flagIsSet flags pdeUsBit && !flagIsSet (mem (pd + 4 * getPdeIndex v)) pdeUsBit)

/-- **`vmm_map_page`** is the operation on memory, with the flush after it. -/
theorem Mmu.vmmMapPage_eq (m : Mmu σ) (pd v p flags : ℕ) :
    m.vmmMapPage A pd v p flags = (do
      let (ok, s) ← Memory.vmmMapPage A pd v p flags m.phys
      .ok (ok, if ok then m.mapFlush pd v (needsCr3Reload m.phys.mem pd v flags) s
        else { m with phys := s })) := by
  unfold Mmu.vmmMapPage Memory.vmmMapPage
  cases hpd : physLinear pd with
  | error e => rfl
  | ok pdVirt =>
    obtain ⟨rfl, -⟩ := physLinear_ok hpd
    simp only [ok_bind]
    cases hpres : flagIsSet (m.phys.mem (pd + 4 * getPdeIndex v)) pdePresentBit with
    | false =>
      have hreload : needsCr3Reload m.phys.mem pd v flags = true := by
        simp [needsCr3Reload, hpres]
      simp only [Bool.not_false, if_true, hreload]
      cases A.buddyAllocPages pageSize .lowmem m.phys.alloc with
      | error e => rfl
      | ok res =>
        obtain ⟨ptPhys, a⟩ := res
        simp only [ok_bind]
        split
        · rfl
        · cases physLinear ptPhys with
          | error e => rfl
          | ok ptVirt => rfl
    | true =>
      have hreload : needsCr3Reload m.phys.mem pd v flags =
          (flagIsSet flags pdeUsBit && !flagIsSet (m.phys.mem (pd + 4 * getPdeIndex v)) pdeUsBit) := by
        simp [needsCr3Reload, hpres]
      simp only [Bool.not_true, Bool.false_eq_true, if_false, hreload]
      cases physLinear _ with
      | error e => rfl
      | ok ptVirt => rfl

/-- **`vmm_unmap_page`** is the operation on memory; the page is dropped from the cache, and all
pages are where the table of the current directory has gone. -/
theorem Mmu.vmmUnmapPage_ok {m m' : Mmu σ} {pd v : ℕ} {ok : Bool}
    (h : m.vmmUnmapPage A pd v = .ok (ok, m')) :
    Memory.vmmUnmapPage A pd v m.phys = .ok (ok, m'.phys) ∧ m'.cr3 = m.cr3 ∧ m'.tlb ⊆ m.tlb ∧
      (ok = true → ∀ e ∈ m'.tlb, e.1 ≠ v / 4096) := by
  unfold Mmu.vmmUnmapPage at h
  unfold Memory.vmmUnmapPage
  rw [bind_eq_ok] at h
  obtain ⟨pdVirt, hpd, h⟩ := h
  rw [hpd, ok_bind]
  simp only at h ⊢
  split at h
  · next habs =>
    obtain ⟨rfl, rfl⟩ := Prod.mk.inj (Except.ok.inj h)
    rw [if_pos habs]
    exact ⟨rfl, rfl, subset_rfl, nofun⟩
  · next hpres =>
    rw [bind_eq_ok] at h
    obtain ⟨ptVirt, hpt, h⟩ := h
    rw [if_neg hpres, hpt, ok_bind]
    split at h
    · next hnone =>
      obtain ⟨rfl, rfl⟩ := Prod.mk.inj (Except.ok.inj h)
      rw [if_pos hnone]
      exact ⟨rfl, rfl, subset_rfl, nofun⟩
    · next hset =>
      rw [if_neg hset]
      split at h
      · next hempty =>
        rw [bind_eq_ok] at h
        obtain ⟨a, hfree, h⟩ := h
        obtain ⟨rfl, rfl⟩ := Prod.mk.inj (Except.ok.inj h)
        have hempty' : isPtEmpty (m.phys.write (ptVirt + 4 * getPteIndex v) 0).mem ptVirt = true :=
          hempty
        have hfree' : A.buddyFreeBlock
            (getEntryAddr (m.phys.mem (pdVirt + 4 * getPdeIndex v))) m.phys.alloc = .ok a := hfree
        simp only [hempty', if_true, Phys.write_alloc, hfree', ok_bind]
        split
        · next hcur => exact ⟨rfl, hcur, Set.empty_subset _, fun _ e he => absurd he id⟩
        · exact ⟨rfl, rfl, fun e he => he.1, fun _ e he => he.2⟩
      · next hfull =>
        obtain ⟨rfl, rfl⟩ := Prod.mk.inj (Except.ok.inj h)
        have hfull' : ¬ isPtEmpty (m.phys.write (ptVirt + 4 * getPteIndex v) 0).mem ptVirt = true :=
          hfull
        rw [if_neg hfull']
        exact ⟨rfl, rfl, fun e he => he.1, fun _ e he => he.2⟩

/-- Under the current directory the flush is a reload or one `invlpg`. -/
theorem Mmu.mapFlush_current {m : Mmu σ} {pd : ℕ} (hcur : m.cr3 = pd) (v : ℕ) (reload : Bool)
    (s : Phys σ) : m.mapFlush pd v reload s =
      if reload then ({ m with phys := s } : Mmu σ).pagingReloadCr3 pd
      else ({ m with phys := s } : Mmu σ).pagingInvalidTlbAddr v := if_pos hcur

/-- There is no flush under another directory. -/
theorem Mmu.mapFlush_other {m : Mmu σ} {pd : ℕ} (hcur : m.cr3 ≠ pd) (v : ℕ) (reload : Bool)
    (s : Phys σ) : m.mapFlush pd v reload s = { m with phys := s } := if_neg hcur

/-- What `vmm_map_page` leaves in the cache: nothing changes under another directory; under its own
the page is dropped, and all pages are where the user bit of the slot has been set. -/
theorem Mmu.vmmMapPage_ok {m m' : Mmu σ} {pd v p flags : ℕ} {ok : Bool}
    (h : m.vmmMapPage A pd v p flags = .ok (ok, m')) :
    Memory.vmmMapPage A pd v p flags m.phys = .ok (ok, m'.phys) ∧ m'.cr3 = m.cr3 ∧ m'.tlb ⊆ m.tlb ∧
      (ok = true → m.cr3 = pd → (∀ e ∈ m'.tlb, e.1 ≠ v / 4096) ∧
        (needsCr3Reload m.phys.mem pd v flags = true → m'.tlb = ∅)) := by
  rw [Mmu.vmmMapPage_eq, bind_eq_ok] at h
  obtain ⟨⟨ok', s⟩, hrun, h⟩ := h
  obtain ⟨rfl, rfl⟩ := Prod.mk.inj (Except.ok.inj h)
  cases ok' with
  | false => exact ⟨hrun, rfl, subset_rfl, nofun⟩
  | true =>
    rw [if_pos rfl]
    by_cases hcur : m.cr3 = pd
    · rw [Mmu.mapFlush_current hcur]
      cases hreload : needsCr3Reload m.phys.mem pd v flags with
      | true =>
        exact ⟨hrun, hcur.symm, Set.empty_subset _, fun _ _ => ⟨fun e he => absurd he id, fun _ => rfl⟩⟩
      | false => exact ⟨hrun, rfl, fun e he => he.1, fun _ _ => ⟨fun e he => he.2, nofun⟩⟩
    · rw [Mmu.mapFlush_other hcur]
      exact ⟨hrun, rfl, subset_rfl, fun _ hc => absurd hc hcur⟩

end Walks

end Kfs.Memory
