import Kfs.Memory.PageLog

/-!
# What a call takes and gives back

A kernel that records the blocks and the heap objects that it hands out and that it is given back.
A caller that gives something back twice is seen in the record, also where the second time does
nothing. `NULL` is neither handed out nor given back.
-/

namespace Kfs.Memory

open Kfs.Lib Kfs.Lib.Word32 Kfs.Lib.Dyadic

universe u

/-! ## The record -/

/-- What the allocators hand out, by its address. -/
inductive Grant where
  | pages (ptr : ℕ)
  | object (ptr : ℕ)
  deriving DecidableEq, Repr

/-- A grant changes hands. -/
inductive GrantEvent where
  | take (g : Grant)
  | give (g : Grant)
  deriving DecidableEq, Repr

/-- Nothing is given back again unless it has been taken in between; the last call comes first. -/
def NothingFreedTwice (log : List GrantEvent) : Prop :=
  ∀ after between before g,
    log = after ++ GrantEvent.give g :: (between ++ GrantEvent.give g :: before) →
      GrantEvent.take g ∈ between

/-- A record without repetitions. -/
theorem NothingFreedTwice.of_nodup {log : List GrantEvent} (h : log.Nodup) : NothingFreedTwice log := by
  rintro after between before g rfl
  have hlast := (List.nodup_append.mp h).2.1
  rw [List.nodup_cons] at hlast
  exact absurd (List.mem_append_right between List.mem_cons_self) hlast.1

/-- A record in which an object is given back, and given back again with only pages given back in
between. -/
theorem not_nothingFreedTwice {log mid before : List GrantEvent} {ptr : ℕ}
    (hmid : ∀ e ∈ mid, ∃ p, e = .give (.pages p))
    (h : ∃ after, log = after ++ .give (.object ptr) :: (mid ++ .give (.object ptr) :: before)) :
    ¬ NothingFreedTwice log := by
  obtain ⟨after, rfl⟩ := h
  intro honce
  obtain ⟨p, hp⟩ := hmid _ (honce after mid before _ rfl)
  cases hp

/-! ## The kernel with its record -/

/-- A kernel that records what it hands out and what it is given back. -/
def KernelAlloc.recorded {σ : Type u} (K : KernelAlloc σ) : KernelAlloc (σ × List GrantEvent) where
  buddyAllocPages size zone a := do
    let (ptr, b) ← K.buddyAllocPages size zone a.1
    .ok (ptr, (b, if ptr = 0 then a.2 else .take (.pages ptr) :: a.2))
  buddyFreeBlock ptr a := do
    let b ← K.buddyFreeBlock ptr a.1
    .ok (b, .give (.pages ptr) :: a.2)
  kmalloc size flags a := do
    let (ptr, b) ← K.kmalloc size flags a.1
    .ok (ptr, (b, if ptr = 0 then a.2 else .take (.object ptr) :: a.2))
  kfree ptr a := do
    let b ← K.kfree ptr a.1
    .ok (b, if ptr = 0 then a.2 else .give (.object ptr) :: a.2)

/-- The allocators without the record. -/
def recordedView {σ : Type u} (V : PageAlloc.View σ) : PageAlloc.View (σ × List GrantEvent) where
  Inv a := V.Inv a.1
  free a := V.free a.1
  live a := V.live a.1

/-- Memory at the start of a recorded call. -/
def Phys.withRecord {σ : Type} (s : Phys σ) : Phys (σ × List GrantEvent) where
  mem := s.mem
  alloc := (s.alloc, [])

section Recorded

variable {σ : Type} {K : KernelAlloc σ} {V : PageAlloc.View σ} {objs : σ → Set ℕ}
  {a a' : σ × List GrantEvent} {ptr : ℕ}

/-! What each call has done, to the allocators and to the record. -/

theorem KernelAlloc.recorded_kmalloc {size flags : ℕ}
    (h : K.recorded.kmalloc size flags a = .ok (ptr, a')) :
    K.kmalloc size flags a.1 = .ok (ptr, a'.1) ∧
      a'.2 = if ptr = 0 then a.2 else .take (.object ptr) :: a.2 := by
  obtain ⟨⟨ptr', b⟩, hcall, h⟩ := bind_eq_ok.mp h
  obtain ⟨rfl, rfl⟩ := Prod.mk.inj (Except.ok.inj h)
  exact ⟨hcall, rfl⟩

theorem KernelAlloc.recorded_kfree (h : K.recorded.kfree ptr a = .ok a') :
    K.kfree ptr a.1 = .ok a'.1 ∧ a'.2 = if ptr = 0 then a.2 else .give (.object ptr) :: a.2 := by
  obtain ⟨b, hcall, h⟩ := bind_eq_ok.mp h
  obtain rfl := Except.ok.inj h
  exact ⟨hcall, rfl⟩

theorem KernelAlloc.recorded_alloc {size : ℕ} {zone : Zone}
    (h : K.recorded.buddyAllocPages size zone a = .ok (ptr, a')) :
    K.buddyAllocPages size zone a.1 = .ok (ptr, a'.1) ∧
      a'.2 = if ptr = 0 then a.2 else .take (.pages ptr) :: a.2 := by
  obtain ⟨⟨ptr', b⟩, hcall, h⟩ := bind_eq_ok.mp h
  obtain ⟨rfl, rfl⟩ := Prod.mk.inj (Except.ok.inj h)
  exact ⟨hcall, rfl⟩

theorem KernelAlloc.recorded_free (h : K.recorded.buddyFreeBlock ptr a = .ok a') :
    K.buddyFreeBlock ptr a.1 = .ok a'.1 ∧ a'.2 = .give (.pages ptr) :: a.2 := by
  obtain ⟨b, hcall, h⟩ := bind_eq_ok.mp h
  obtain rfl := Except.ok.inj h
  exact ⟨hcall, rfl⟩

/-- **A kernel with a record is lawful.** -/
theorem KernelAlloc.Lawful.recorded (hK : K.Lawful V objs) :
    K.recorded.Lawful (recordedView V) fun a => objs a.1 where
  pages O := {
    alloc := by
      rintro ⟨a, log⟩ hinv size zone
      rcases (hK.pages O).alloc (a := a) hinv size zone with hnull | ⟨p, a', hrun, ht⟩
      · left
        show (K.buddyAllocPages size zone a >>= _) = _
        rw [hnull, ok_bind]
        rfl
      · right
        have hne : p * 4096 ≠ 0 := by
          have := ht.ne_zero
          omega
        refine ⟨p, (a', .take (.pages (p * 4096)) :: log), ?_, ht.inv, ht.ne_zero, ht.inTable, ht.zone,
          ht.subset, ht.free, ht.live⟩
        show (K.buddyAllocPages size zone a >>= _) = _
        rw [hrun, ok_bind]
        simp only [hne, if_false]
    release := by
      rintro ⟨a, log⟩ hinv p k hb
      obtain ⟨a', hrun, hret⟩ := (hK.pages O).release (a := a) hinv hb
      refine ⟨(a', .give (.pages (p * 4096)) :: log), ?_, hret.inv, hret.free, hret.live⟩
      show (K.buddyFreeBlock (p * 4096) a >>= _) = _
      rw [hrun, ok_bind]
    notFree := fun {a} h => (hK.pages O).notFree (a := a.1) h
    disjoint := fun {a} h => (hK.pages O).disjoint (a := a.1) h }
  kmalloc := by
    intro a hinv size flags ptr a' hrun
    obtain ⟨hheap, hptr⟩ := hK.kmalloc hinv (K.recorded_kmalloc hrun).1
    exact ⟨⟨hheap.inv, hheap.free, hheap.live⟩, hptr⟩
  kfree := by
    intro a hinv ptr hptr a' hrun
    obtain ⟨hheap, hgone⟩ := hK.kfree hinv hptr (K.recorded_kfree hrun).1
    exact ⟨⟨hheap.inv, hheap.free, hheap.live⟩, hgone⟩

/-- The page tables at the start of a recorded call. -/
theorem PageTables.withRecord {O : Set ℕ} {W L : Set (ℕ × ℕ)} {s : Phys σ}
    (h : PageTables (V.holding objs O) W L s) :
    PageTables ((recordedView V).holding (fun a => objs a.1) O) W L s.withRecord where
  inv := h.inv
  dir := h.dir
  table := h.table
  inj := h.inj
  live := h.live

end Recorded

end Kfs.Memory
