import Kfs.Memory.BootAllocatorSpec

/-!
# Which bytes the boot allocator calls free

`boot_allocator_init` works on ranges that have been narrowed to 32 bits. `Offered` and `Blocked` say
what the narrowed ranges give and take; every byte of the free table is offered and not blocked. A
map is read as it was meant (`NarrowingSafe`) if each offered byte that is not blocked is usable
memory in 64-bit arithmetic. Maps below 4 GiB are of this kind. A type-1 entry above 4 GiB need not
be: it is offered at its address modulo `2 ^ 32`.
-/

namespace Kfs.Memory

open Kfs.Lib

/-! ## What the memory map says -/

/-- The bytes of a range, in unbounded arithmetic. -/
def PhysRange.Has (r : PhysRange) (p : ℕ) : Prop := r.addr ≤ p ∧ p < r.addr + r.len

instance (r : PhysRange) (p : ℕ) : Decidable (r.Has p) := inferInstanceAs (Decidable (_ ∧ _))

namespace BootInput

variable (b : BootInput)

/-- The byte belongs to a type-1 entry. -/
def Usable (p : ℕ) : Prop := ∃ r ∈ b.usable, r.Has p

/-- The byte belongs to a reserved range, fixed or of another type than 1. -/
def Reserved (p : ℕ) : Prop := ∃ r ∈ b.reserved, r.Has p

/-! ## What is left of it after narrowing -/

/-- The regions that the reserved pass stores. -/
def reservedRegions : List Region :=
  (b.reserved.map PhysRange.narrow).filter fun reg => reg.start ≠ reg.stop

/-- A narrowed type-1 range has the byte. -/
def Offered (p : ℕ) : Prop := ∃ r ∈ b.usable, r.narrow.Has p

/-- A stored reserved region has the byte, and merging cannot lose it. -/
def Blocked (p : ℕ) : Prop :=
  ∃ reg ∈ b.reservedRegions, reg.Has p ∧ ¬ LostEnd b.reservedRegions reg.stop

/-- What narrowing offers and does not block is usable and not reserved. -/
def NarrowingSafe : Prop := ∀ p, b.Offered p → b.Blocked p ∨ (b.Usable p ∧ ¬ b.Reserved p)

end BootInput

/-- What holds of 0 and is handed down from the end of a region to its start holds of every lost
end. -/
theorem LostEnd.holds {regions : List Region} {X : ℕ → Prop} (h0 : X 0)
    (hstep : ∀ reg ∈ regions, X reg.stop → X reg.start) {e : ℕ} (h : LostEnd regions e) : X e := by
  induction h with
  | zero => exact h0
  | step hreg _ ih => exact hstep _ hreg ih

theorem PhysRange.narrow_has {r : PhysRange} (hr : r.addr + r.len < 2 ^ 32) (p : ℕ) :
    r.narrow.Has p ↔ r.Has p := by
  unfold PhysRange.narrow Region.Has PhysRange.Has
  dsimp only
  rw [Nat.mod_eq_of_lt hr, Nat.mod_eq_of_lt (by omega)]

/-- Narrowing is harmless below 4 GiB. -/
theorem BootInput.narrowingSafe_of_below {b : BootInput}
    (hb : ∀ r ∈ b.usable ++ b.reserved, r.addr + r.len < 2 ^ 32) : b.NarrowingSafe := by
  rintro p ⟨r, hr, hp⟩
  have hlow := hb r (List.mem_append_left _ hr)
  by_cases hres : b.Reserved p
  · obtain ⟨q, hq, hpq⟩ := hres
    have hqlow := hb q (List.mem_append_right _ hq)
    have hpn := (PhysRange.narrow_has hqlow p).mpr hpq
    refine .inl ⟨q.narrow, List.mem_filter.mpr ⟨List.mem_map_of_mem hq, ?_⟩, hpn, fun hlost => ?_⟩
    · have := hpn.1.trans_lt hpn.2
      simpa using this.ne
    · -- no stored region ends at 0, so 0 is the only lost end
      have hzero : q.narrow.stop = 0 := by
        refine hlost.holds (X := fun e => e = 0) rfl fun reg hreg hstop => ?_
        obtain ⟨hmem, _⟩ := List.mem_filter.mp hreg
        obtain ⟨q', hq', rfl⟩ := List.mem_map.mp hmem
        have hlow' := hb q' (List.mem_append_right _ hq')
        unfold PhysRange.narrow at hstop ⊢
        dsimp only at hstop ⊢
        omega
      have := hpn.2
      omega
  · exact .inr ⟨⟨r, hr, (PhysRange.narrow_has hlow p).mp hp⟩, hres⟩

/-! ## The free table -/

section FreeTable

variable {b : BootInput} {m m' : BootMem}

/-- The stages of the two passes: the reserved table, the free pass, the free table. -/
theorem initRegions_stages (h : initRegions b m = .ok m') : ∃ table m₂ m₃,
    (∀ reg ∈ b.reservedRegions, reg.Valid) ∧ sortAndMerge b.reservedRegions = .ok table ∧
    m₂.regions .reserved = table ∧ m₂.regions .free = [] ∧
    mb2MmapIter b.mmap freeHandler true m₂ = .ok m₃ ∧
    sortAndMerge (m₃.regions .free) = .ok (m'.regions .free) ∧
    m'.regions .reserved = m₃.regions .reserved := by
  unfold initRegions at h
  simp only [bind_eq_ok] at h
  obtain ⟨m₁, hfixed, m₂, hiter, table, htable, m₃, hfree, free, hmerge, h⟩ := h
  -- the reserved table before it is sorted
  have hres := (reserveFixed_spec hfixed).append (mb2MmapIter_reserved b.mmap hiter)
  have hstored : m₂.regions .reserved = b.reservedRegions := by
    unfold BootInput.reservedRegions BootInput.reserved BootInput.reservedEntries
    rw [hres.reserved, ← List.map_append, List.nil_append]
  refine ⟨table, m₂.setRegions .reserved table, m₃, fun reg hreg => ?_, ?_,
    BootMem.setRegions_self _ _ _, ?_, hfree, ?_, ?_⟩
  · obtain ⟨hmem, hne⟩ := List.mem_filter.mp hreg
    rw [← List.map_append] at hres
    exact hres.valid reg hmem (by simpa using hne)
  · rw [← hstored]
    exact htable
  · rw [BootMem.setRegions_of_ne _ _ (by simp), hres.free]
  · rw [← Except.ok.inj h, BootMem.setRegions_self]
    exact hmerge
  · rw [← Except.ok.inj h, BootMem.setRegions_of_ne _ _ (by simp)]

/-- After the two passes every free byte is offered and not blocked. -/
theorem initRegions_free (h : initRegions b m = .ok m') : ∀ reg ∈ m'.regions .free,
    reg.start < reg.stop ∧ ∀ p, reg.Has p → b.Offered p ∧ ¬ b.Blocked p := by
  obtain ⟨table, m₂, m₃, hvalid, htable, htab, hempty, hfree, hmerge, -⟩ := initRegions_stages h
  obtain ⟨hsorted, hcovers⟩ := sortAndMerge_reserved hvalid htable
  -- the free pass over the sorted table
  obtain ⟨added, hadded, hpieces⟩ := mb2MmapIter_free b.mmap (htab ▸ hsorted) hfree
  rw [htab] at hpieces
  have hfreeTable : m₃.regions .free = added := by
    rw [hadded.free, hempty, List.nil_append]
  rw [hfreeTable] at hmerge
  have hmerged := sortAndMerge_free (fun reg hreg => by
    obtain ⟨_, _, hpiece⟩ := hpieces reg hreg
    exact hpiece.nonempty) hmerge
  intro out hout
  obtain ⟨hlt, hbytes⟩ := hmerged out hout
  refine ⟨hlt, fun p hp => ?_⟩
  obtain ⟨reg, hreg, hpr⟩ := hbytes p hp
  obtain ⟨range, hrange, hpiece⟩ := hpieces reg hreg
  refine ⟨⟨range, hrange, hpiece.low.trans hpr.1, hpr.2.trans_le hpiece.high⟩, ?_⟩
  rintro ⟨res, hresm, hpres, hkept⟩
  exact hpiece.apart p hpr (hcovers res hresm hkept p hpres)

/-- The holes are added to a table of their own. -/
theorem fillGaps_of_ne {type : MemType} (htype : type ≠ .holes) (all : List Region) :
    ∀ {m m' : BootMem}, fillGaps all m = .ok m' → m'.regions type = m.regions type := by
  induction all with
  | nil =>
    intro m m' h
    rw [← Except.ok.inj h]
  | cons reg rest ih =>
    intro m m' h
    cases rest with
    | nil => rw [← Except.ok.inj h]
    | cons next rest =>
      unfold fillGaps at h
      rw [bind_eq_ok] at h
      obtain ⟨m₁, h₁, h₂⟩ := h
      rw [ih h₂]
      unfold fillGap at h₁
      split at h₁
      · rcases addRegion_cases h₁ with ⟨_, rfl⟩ | ⟨_, _, rfl⟩
        · rfl
        · exact BootMem.setRegions_of_ne _ _ htype
      · rw [← Except.ok.inj h₁]

theorem fillGapsAsHoles_of_ne {type : MemType} (htype : type ≠ .holes)
    (h : fillGapsAsHoles m = .ok m') : m'.regions type = m.regions type := by
  unfold fillGapsAsHoles at h
  split at h
  · rw [← Except.ok.inj h]
  · simp only [bind_eq_ok] at h
    obtain ⟨all, _, m₁, h₁, holes, _, h₂⟩ := h
    rw [← Except.ok.inj h₂, BootMem.setRegions_of_ne _ _ htype]
    exact fillGaps_of_ne htype all h₁

/-- Counting the memory leaves the tables alone. -/
theorem mb2MmapIter_total (entries : List MmapEntry) (free : Bool) : ∀ {m m' : BootMem},
    mb2MmapIter entries initTotalSize free m = .ok m' → m'.regions = m.regions := by
  induction entries with
  | nil =>
    intro m m' h
    rw [← Except.ok.inj h]
  | cons entry entries ih =>
    intro m m' h
    unfold mb2MmapIter at h
    rw [List.foldlM_cons, bind_eq_ok] at h
    obtain ⟨m₁, h₁, h₂⟩ := h
    rw [ih h₂]
    split at h₁
    · rw [← Except.ok.inj h₁]
    · split at h₁
      · rw [← Except.ok.inj h₁]
      · rw [← Except.ok.inj h₁]

/-- The zone tables of both states are the same. -/
def BootMem.SameZones (m' m : BootMem) : Prop :=
  m'.freeZones = m.freeZones ∧ m'.resZones = m.resZones

theorem BootMem.SameZones.trans {m m' m'' : BootMem} (h : m''.SameZones m') (h' : m'.SameZones m) :
    m''.SameZones m := ⟨h.1.trans h'.1, h.2.trans h'.2⟩

theorem addRegion_sameZones {start stop : ℕ} {type : MemType}
    (h : addRegion m start stop type = .ok m') : m'.SameZones m := by
  rcases addRegion_cases h with ⟨_, rfl⟩ | ⟨_, _, rfl⟩
  · exact ⟨rfl, rfl⟩
  · exact ⟨rfl, rfl⟩

/-- A pass over the memory map whose handler leaves the zones alone. -/
theorem mb2MmapIter_sameZones {handler : BootMem → ℕ → ℕ → Kern BootMem}
    (hhandler : ∀ m start stop m', handler m start stop = .ok m' → m'.SameZones m)
    (entries : List MmapEntry) (free : Bool) : ∀ {m m' : BootMem},
    mb2MmapIter entries handler free m = .ok m' → m'.SameZones m := by
  induction entries with
  | nil =>
    intro m m' h
    rw [← Except.ok.inj h]
    exact ⟨rfl, rfl⟩
  | cons entry entries ih =>
    intro m m' h
    unfold mb2MmapIter at h
    rw [List.foldlM_cons, bind_eq_ok] at h
    obtain ⟨m₁, h₁, h₂⟩ := h
    refine (ih h₂).trans ?_
    split at h₁
    · rw [← Except.ok.inj h₁]
      exact ⟨rfl, rfl⟩
    · split at h₁
      · rw [← Except.ok.inj h₁]
        exact ⟨rfl, rfl⟩
      · exact hhandler _ _ _ _ h₁

theorem addFreePiece_sameZones {start stop : ℕ} (h : addFreePiece m start stop = .ok m') :
    m'.SameZones m := by
  unfold addFreePiece at h
  split at h
  · exact addRegion_sameZones h
  · rw [← Except.ok.inj h]
    exact ⟨rfl, rfl⟩

theorem freeLoop_sameZones (stop : ℕ) (table : List Region) : ∀ {cur : ℕ} {m m' : BootMem},
    freeLoop stop table cur m = .ok m' → m'.SameZones m := by
  induction table with
  | nil => exact fun h => addFreePiece_sameZones h
  | cons res table ih =>
    intro cur m m' h
    unfold freeLoop at h
    split at h
    · exact ih h
    · rw [bind_eq_ok] at h
      obtain ⟨m₁, h₁, h₂⟩ := h
      have hfirst := addFreePiece_sameZones h₁
      dsimp only at h₂
      generalize (if res.stop > cur then res.stop else cur) = next at h₂
      split at h₂
      · obtain rfl : m₁ = m' := Except.ok.inj h₂
        exact hfirst
      · exact (ih h₂).trans hfirst

theorem reserveFixed_sameZones (h : reserveFixed b m = .ok m') : m'.SameZones m := by
  unfold reserveFixed at h
  simp only [bind_eq_ok] at h
  obtain ⟨m₁, h₁, gs, -, ge, -, m₂, h₂, is, -, ie, -, m₃, h₃, m₄, h₄, m₅, h₅, ks, -, ke, -, m₆, h₆,
    h₇⟩ := h
  exact (addRegion_sameZones h₇).trans ((addRegion_sameZones h₆).trans
    ((addRegion_sameZones h₅).trans ((addRegion_sameZones h₄).trans
      ((addRegion_sameZones h₃).trans ((addRegion_sameZones h₂).trans (addRegion_sameZones h₁))))))

/-- The two passes do not touch the zones. -/
theorem initRegions_sameZones (h : initRegions b m = .ok m') : m'.SameZones m := by
  unfold initRegions at h
  simp only [bind_eq_ok] at h
  obtain ⟨m₁, hfixed, m₂, hiter, table, -, m₃, hfree, free, -, h⟩ := h
  have h₁ := reserveFixed_sameZones hfixed
  have h₂ : m₂.SameZones m₁ :=
    mb2MmapIter_sameZones (fun _ _ _ _ h => addRegion_sameZones h) _ _ hiter
  have hhandler : ∀ m start stop m', freeHandler m start stop = .ok m' → m'.SameZones m :=
    fun m start stop m' h => freeLoop_sameZones stop (m.regions .reserved) h
  have h₃ := mb2MmapIter_sameZones hhandler _ _ hfree
  have hend : m₃.SameZones m₂ := ⟨h₃.1, h₃.2⟩
  have hstart : m₁.SameZones m := ⟨h₁.1, h₁.2⟩
  have hall := hend.trans (h₂.trans hstart)
  rw [← Except.ok.inj h]
  exact ⟨hall.1, hall.2⟩

theorem fillGaps_sameZones (all : List Region) : ∀ {m m' : BootMem}, fillGaps all m = .ok m' →
    m'.SameZones m := by
  induction all with
  | nil =>
    intro m m' h
    rw [← Except.ok.inj h]
    exact ⟨rfl, rfl⟩
  | cons reg rest ih =>
    intro m m' h
    cases rest with
    | nil =>
      rw [← Except.ok.inj h]
      exact ⟨rfl, rfl⟩
    | cons next rest =>
      unfold fillGaps at h
      rw [bind_eq_ok] at h
      obtain ⟨m₁, h₁, h₂⟩ := h
      refine (ih h₂).trans ?_
      unfold fillGap at h₁
      split at h₁
      · exact addRegion_sameZones h₁
      · rw [← Except.ok.inj h₁]
        exact ⟨rfl, rfl⟩

theorem fillGapsAsHoles_sameZones (h : fillGapsAsHoles m = .ok m') : m'.SameZones m := by
  unfold fillGapsAsHoles at h
  split at h
  · rw [← Except.ok.inj h]
    exact ⟨rfl, rfl⟩
  · simp only [bind_eq_ok] at h
    obtain ⟨all, _, m₁, h₁, holes, _, h₂⟩ := h
    have hgaps := fillGaps_sameZones all h₁
    rw [← Except.ok.inj h₂]
    exact ⟨hgaps.1, hgaps.2⟩

/-- The rest of `boot_allocator_init` leaves the two tables of memory as the passes made them and
splits them into zones. -/
theorem bootAllocatorInit_stages (h : bootAllocatorInit b m = .ok m') :
    ∃ m₁, initRegions b m = .ok m₁ ∧ m'.regions .free = m₁.regions .free ∧
      m'.regions .reserved = m₁.regions .reserved ∧
      ∃ freeZones resZones, initZones (m'.regions .free) m.freeZones = .ok freeZones ∧
        initZones (m'.regions .reserved) m.resZones = .ok resZones ∧
        mergeZones freeZones = .ok m'.freeZones ∧ mergeZones resZones = .ok m'.resZones := by
  unfold bootAllocatorInit at h
  simp only [bind_eq_ok] at h
  obtain ⟨m₁, h₁, m₂, h₂, m₃, h₃, m₄, h₄, ram, _, fz, hfz, rz, hrz, fz', hfz', rz', hrz', h₅⟩ := h
  have htables : ∀ type, type ≠ .holes → m'.regions type = m₁.regions type := by
    intro type htype
    rw [← Except.ok.inj h₅]
    dsimp only
    rw [mb2MmapIter_total _ _ h₄, mb2MmapIter_total _ _ h₃, fillGapsAsHoles_of_ne htype h₂]
  have hzones : m₄.SameZones m := ((mb2MmapIter_sameZones (fun _ _ _ _ h => by
    rw [← Except.ok.inj h]
    exact ⟨rfl, rfl⟩) _ _ h₄).trans (mb2MmapIter_sameZones (fun _ _ _ _ h => by
    rw [← Except.ok.inj h]
    exact ⟨rfl, rfl⟩) _ _ h₃)).trans ((fillGapsAsHoles_sameZones h₂).trans (initRegions_sameZones h₁))
  refine ⟨m₁, h₁, htables .free (by simp), htables .reserved (by simp), fz, rz, ?_⟩
  obtain rfl := Except.ok.inj h₅
  rw [← hzones.1, ← hzones.2]
  exact ⟨hfz, hrz, hfz', hrz'⟩

end FreeTable

/-- On a map that narrowing does not distort, every byte of a free region belongs to a type-1 entry
and to no reserved range. -/
theorem boot_free_usable {b : BootInput} (hb : b.NarrowingSafe) {m m' : BootMem}
    (h : bootAllocatorInit b m = .ok m') : ∀ reg ∈ m'.regions .free,
    reg.start < reg.stop ∧ ∀ p, reg.start ≤ p → p < reg.stop → b.Usable p ∧ ¬ b.Reserved p := by
  obtain ⟨m₁, h₁, hfree, -⟩ := bootAllocatorInit_stages h
  rw [hfree]
  intro reg hreg
  obtain ⟨hlt, hbytes⟩ := initRegions_free h₁ reg hreg
  refine ⟨hlt, fun p hlow hhigh => ?_⟩
  obtain ⟨hoffered, hblocked⟩ := hbytes p ⟨hlow, hhigh⟩
  exact (hb p hoffered).resolve_left hblocked

/-! ## Two machines -/

/-- A machine with 128 MiB of memory. -/
def smallPc : BootInput where
  mmap := [⟨⟨0x0, 0x9fc00⟩, 1, by decide, by decide⟩, ⟨⟨0x9fc00, 0x400⟩, 2, by decide, by decide⟩,
    ⟨⟨0xf0000, 0x10000⟩, 2, by decide, by decide⟩, ⟨⟨0x100000, 0x7ee0000⟩, 1, by decide, by decide⟩,
    ⟨⟨0x7fe0000, 0x20000⟩, 2, by decide, by decide⟩]
  gdtrBase := 0xC0101000
  gdtrLimit := 0x2f
  idtrBase := 0xC0102000
  idtrLimit := 0x7ff
  kernelStart := 0xC0100000
  kernelEnd := 0xC0200000
  mb2info := 0x200000
  totalSize := 0x400
  gdtr_lt := by decide
  idtr_lt := by decide
  kernel_le := by decide
  mb2info_lt := by decide

/-- A machine with 5 GiB of memory, 2 GiB of it below the devices and 3 GiB from 4 GiB on. -/
def largePc : BootInput :=
  { smallPc with
    mmap := [⟨⟨0x0, 0x9fc00⟩, 1, by decide, by decide⟩,
      ⟨⟨0x9fc00, 0x400⟩, 2, by decide, by decide⟩,
      ⟨⟨0xf0000, 0x10000⟩, 2, by decide, by decide⟩,
      ⟨⟨0x100000, 0x7fedc000⟩, 1, by decide, by decide⟩,
      ⟨⟨0x7ffdc000, 0x24000⟩, 2, by decide, by decide⟩,
      ⟨⟨0xb0000000, 0x10000000⟩, 2, by decide, by decide⟩,
      ⟨⟨0xfed1c000, 0x4000⟩, 2, by decide, by decide⟩,
      ⟨⟨0xfffc0000, 0x40000⟩, 2, by decide, by decide⟩,
      ⟨⟨0x100000000, 0xC0000000⟩, 1, by decide, by decide⟩] }

theorem smallPc_free : (bootAllocatorInit smallPc .zero).toOption.map
    (fun m => m.regions .free) = some [⟨0x200400, 0x7fe0000⟩] := by
  decide +kernel

/-- The bytes from 2 GiB up to the devices come out free: they are where the memory above 4 GiB
starts, narrowed to 32 bits. -/
theorem largePc_free : (bootAllocatorInit largePc .zero).toOption.map
    (fun m => m.regions .free) = some [⟨0x200400, 0x7ffdc000⟩, ⟨0x80000000, 0xb0000000⟩] := by
  decide +kernel

/-- The memory of the small machine above the kernel and the multiboot information. -/
theorem boot_free_usable_smallPc : ∃ m, bootAllocatorInit smallPc .zero = .ok m ∧
    m.regions .free = [⟨0x200400, 0x7fe0000⟩] ∧
    smallPc.Usable 0x200400 ∧ ¬ smallPc.Reserved 0x200400 := by
  have hsafe : smallPc.NarrowingSafe := BootInput.narrowingSafe_of_below (by decide)
  obtain ⟨m, hm, hfree⟩ := exists_ok_of_toOption_map smallPc_free
  refine ⟨m, hm, hfree, ?_⟩
  have h := boot_free_usable hsafe hm ⟨0x200400, 0x7fe0000⟩ (by rw [hfree]; simp)
  exact h.2 0x200400 le_rfl (by decide)

/-- The large machine: the byte at 2 GiB is in the free table and in no type-1 entry. -/
theorem boot_free_largePc : ¬ ∀ (b : BootInput) (m m' : BootMem), bootAllocatorInit b m = .ok m' →
    ∀ reg ∈ m'.regions .free, ∀ p, reg.start ≤ p → p < reg.stop → b.Usable p ∧ ¬ b.Reserved p := by
  intro hall
  obtain ⟨m, hm, hfree⟩ := exists_ok_of_toOption_map largePc_free
  have h := hall largePc .zero m hm ⟨0x80000000, 0xb0000000⟩ (by rw [hfree]; simp) 0x80000000
    le_rfl (by decide)
  have hnot : ¬ ∃ r ∈ largePc.usable, r.Has 0x80000000 := by decide
  exact hnot h.1

end Kfs.Memory
