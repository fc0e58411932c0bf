import Kfs.Memory.BootMemory
import Kfs.Memory.BootTables

/-!
# The free table on maps below 4 GiB

If every range ends below 4 GiB, narrowing changes nothing and every stored region ends above its
start. Then the reserved table has exactly the reserved bytes, and the free pass subtracts it from
each type-1 range: the cursor of `boot_allocator_free_handler` moves up through the sorted table,
and the pieces below it are what the table leaves of the range so far. Ranges that are pairwise
disjoint give pieces that never overlap what the free table already has, so no piece is dropped.

The two tables are computed here as lists without a bound (`reservedRegions`, `freePieces`). The
passes store these lists if they fit into `MAX_REGIONS` entries and stop if they do not.
-/

namespace Kfs.Memory

open Kfs.Lib

/-! ## Subtraction of a sorted table -/

/-- The bytes from `start` up to `stop`, if there are any. -/
def piece (start stop : ℕ) : List Region := if start < stop then [⟨start, stop⟩] else []

/-- What a sorted table leaves of the bytes from `cur` up to `stop`. -/
def freePieces (stop : ℕ) : List Region → ℕ → List Region
  | [], cur => piece cur stop
  | res :: rest, cur =>
    if res.stop ≤ cur ∨ res.start ≥ stop then freePieces stop rest cur
    else piece cur res.start ++ if res.stop ≥ stop then [] else freePieces stop rest res.stop

section Pieces

variable {start stop p : ℕ}

theorem mem_piece {reg : Region} : reg ∈ piece start stop ↔ start < stop ∧ reg = ⟨start, stop⟩ := by
  unfold piece
  split
  next hlt => simp [hlt]
  next hle => simp [hle]

@[simp] theorem covers_piece : Covers (piece start stop) p ↔ start ≤ p ∧ p < stop := by
  constructor
  · rintro ⟨reg, hreg, hp⟩
    obtain ⟨-, rfl⟩ := mem_piece.mp hreg
    exact hp
  · intro hp
    exact ⟨⟨start, stop⟩, mem_piece.mpr ⟨by omega, rfl⟩, hp⟩

theorem piece_nonEmpty : NonEmptyRegions (piece start stop) := by
  intro reg hreg
  obtain ⟨hlt, rfl⟩ := mem_piece.mp hreg
  exact hlt

theorem piece_apart : (piece start stop).Pairwise Region.Apart := by
  unfold piece
  split
  · exact List.pairwise_singleton _ _
  · exact List.Pairwise.nil

/-- A table whose regions share no byte with those of another one. -/
theorem pairwise_apart_append {regions regions' : List Region}
    (h : regions.Pairwise Region.Apart) (h' : regions'.Pairwise Region.Apart)
    (hfresh : ∀ p, Covers regions p → ¬ Covers regions' p) :
    (regions ++ regions').Pairwise Region.Apart := by
  refine List.pairwise_append.mpr ⟨h, h', ?_⟩
  intro reg hreg reg' hreg' p hp hp'
  exact hfresh p ⟨reg, hreg, hp⟩ ⟨reg', hreg', hp'⟩

theorem NonEmptyRegions.append {regions regions' : List Region} (h : NonEmptyRegions regions)
    (h' : NonEmptyRegions regions') : NonEmptyRegions (regions ++ regions') := by
  intro reg hreg
  rcases List.mem_append.mp hreg with hreg | hreg
  · exact h reg hreg
  · exact h' reg hreg

theorem covers_flatMap {α : Type} {xs : List α} {f : α → List Region} :
    Covers (xs.flatMap f) p ↔ ∃ x ∈ xs, Covers (f x) p := by
  constructor
  · rintro ⟨reg, hreg, hp⟩
    obtain ⟨x, hx, hreg⟩ := List.mem_flatMap.mp hreg
    exact ⟨x, hx, reg, hreg, hp⟩
  · rintro ⟨x, hx, reg, hreg, hp⟩
    exact ⟨reg, List.mem_flatMap.mpr ⟨x, hx, hreg⟩, hp⟩

theorem nonEmpty_flatMap {α : Type} {xs : List α} {f : α → List Region}
    (h : ∀ x ∈ xs, NonEmptyRegions (f x)) : NonEmptyRegions (xs.flatMap f) := by
  intro reg hreg
  obtain ⟨x, hx, hreg⟩ := List.mem_flatMap.mp hreg
  exact h x hx reg hreg

/-- **Subtraction**: the pieces have exactly the bytes of the range that the table leaves. -/
theorem covers_freePieces (table : List Region) : ∀ {cur : ℕ}, ByStart table →
    NonEmptyRegions table →
    (Covers (freePieces stop table cur) p ↔ (cur ≤ p ∧ p < stop) ∧ ¬ Covers table p) := by
  induction table with
  | nil =>
    intro cur _ _
    simp [freePieces]
  | cons res table ih =>
    intro cur hsorted hne
    obtain ⟨hafter, htail⟩ := List.pairwise_cons.mp hsorted
    have hres : res.start < res.stop := hne res List.mem_cons_self
    have hneTail : NonEmptyRegions table := fun reg hreg => hne reg (List.mem_cons_of_mem res hreg)
    -- below the start of `res` nothing of the table is left to come
    have hbelow : Covers table p → res.start ≤ p := by
      rintro ⟨q, hq, hpq⟩
      exact (hafter q hq).trans hpq.1
    rw [covers_cons]
    unfold freePieces
    split
    next hskip =>
      -- `res` has no byte of what is left of the range
      have hout : cur ≤ p ∧ p < stop → ¬ res.Has p := by
        rintro ⟨h₁, h₂⟩ ⟨h₃, h₄⟩
        omega
      rw [ih htail hneTail]
      tauto
    next hmeet =>
      rw [covers_append, covers_piece]
      have hhas : res.Has p ↔ res.start ≤ p ∧ p < res.stop := Iff.rfl
      split
      next hdone =>
        rw [or_iff_left covers_nil, hhas]
        constructor
        · intro hp
          exact ⟨by omega, not_or.mpr ⟨by omega, fun hc => by have := hbelow hc; omega⟩⟩
        · rintro ⟨hp, hc⟩
          obtain ⟨hc, -⟩ := not_or.mp hc
          omega
      next hmore =>
        rw [ih htail hneTail, hhas]
        constructor
        · rintro (hp | ⟨hp, hc⟩)
          · exact ⟨by omega, not_or.mpr ⟨by omega, fun hc => by have := hbelow hc; omega⟩⟩
          · exact ⟨by omega, not_or.mpr ⟨by omega, hc⟩⟩
        · rintro ⟨hp, hc⟩
          obtain ⟨hc, hc'⟩ := not_or.mp hc
          rcases Nat.lt_or_ge p res.start with hside | hside
          · exact .inl ⟨hp.1, hside⟩
          · exact .inr ⟨by omega, hc'⟩

theorem freePieces_nonEmpty (table : List Region) : ∀ {cur : ℕ},
    NonEmptyRegions (freePieces stop table cur) := by
  induction table with
  | nil => exact piece_nonEmpty
  | cons res table ih =>
    intro cur
    unfold freePieces
    split
    · exact ih
    · refine piece_nonEmpty.append ?_
      split
      · exact fun reg hreg => absurd hreg (by simp)
      · exact ih

theorem freePieces_apart (table : List Region) : ∀ {cur : ℕ}, ByStart table →
    NonEmptyRegions table → (freePieces stop table cur).Pairwise Region.Apart := by
  induction table with
  | nil => exact fun _ _ => piece_apart
  | cons res table ih =>
    intro cur hsorted hne
    have htail : ByStart table := (List.pairwise_cons.mp hsorted).2
    have hneTail : NonEmptyRegions table := fun reg hreg => hne reg (List.mem_cons_of_mem res hreg)
    have hres : res.start < res.stop := hne res List.mem_cons_self
    unfold freePieces
    split
    · exact ih htail hneTail
    · split
      · rw [List.append_nil]
        exact piece_apart
      · refine pairwise_apart_append piece_apart (ih htail hneTail) fun p hp hrest => ?_
        -- the later pieces start where `res` ends
        rw [covers_piece] at hp
        rw [covers_freePieces table htail hneTail] at hrest
        omega

end Pieces

/-! ## Tables that fill up -/

/-- The stop of `boot_allocator_add_region` on a full table. -/
def tooManyRegions : Stop := .kpanic "boot_alloc: %s: too many %s regions\n"

/-- The computation appends `added` to a table of `m`, or stops because the table gets full. -/
structure Fills (type : MemType) (added : List Region) (m : BootMem) (r : Kern BootMem) : Prop where
  fits : (m.regions type).length + added.length ≤ maxRegions →
    r = .ok (m.setRegions type (m.regions type ++ added))
  full : (m.regions type).length ≤ maxRegions →
    maxRegions < (m.regions type).length + added.length → r = .error tooManyRegions

theorem BootMem.setRegions_same (m : BootMem) (type : MemType) :
    m.setRegions type (m.regions type) = m := by
  have hregions : (fun t => if t = type then m.regions type else m.regions t) = m.regions := by
    funext t
    split
    next ht => rw [ht]
    next => rfl
  unfold BootMem.setRegions
  rw [hregions]

theorem BootMem.setRegions_setRegions (m : BootMem) (type : MemType)
    (regions regions' : List Region) :
    (m.setRegions type regions).setRegions type regions' = m.setRegions type regions' := by
  unfold BootMem.setRegions
  congr 1
  funext t
  dsimp only
  split <;> rfl

section Filling

variable {type : MemType} {added added' : List Region} {m : BootMem} {r : Kern BootMem}

/-- A computation that stores nothing. -/
theorem Fills.nil (m : BootMem) : Fills type [] m (.ok m) where
  fits _ := by rw [List.append_nil, BootMem.setRegions_same]
  full hle hlt := by
    rw [List.length_nil] at hlt
    omega

/-- **Two computations that fill the same table** one after the other. -/
theorem Fills.bind (h : Fills type added m r) {f : BootMem → Kern BootMem}
    (hf : Fills type added' (m.setRegions type (m.regions type ++ added))
      (f (m.setRegions type (m.regions type ++ added)))) :
    Fills type (added ++ added') m (r >>= f) := by
  have hlen : ((m.setRegions type (m.regions type ++ added)).regions type).length =
      (m.regions type).length + added.length := by
    rw [BootMem.setRegions_self, List.length_append]
  constructor
  · intro hle
    rw [List.length_append] at hle
    rw [h.fits (by omega)]
    refine (hf.fits (by omega)).trans ?_
    rw [BootMem.setRegions_self, BootMem.setRegions_setRegions, List.append_assoc]
  · intro hle hlt
    rw [List.length_append] at hlt
    by_cases hfirst : (m.regions type).length + added.length ≤ maxRegions
    · rw [h.fits hfirst]
      exact hf.full (by omega) (by omega)
    · rw [h.full hle (by omega)]
      rfl

theorem addRegion_fills (m : BootMem) {start stop : ℕ} (hle : start ≤ stop) (type : MemType) :
    Fills type (piece start stop) m (addRegion m start stop type) := by
  unfold addRegion
  rw [if_neg (by omega)]
  unfold piece
  rcases Nat.eq_or_lt_of_le hle with heq | hlt
  · rw [if_pos heq, if_neg (by omega)]
    exact Fills.nil m
  · rw [if_neg hlt.ne, if_pos hlt]
    constructor
    · intro hfit
      rw [List.length_singleton] at hfit
      rw [if_neg (by omega)]
    · intro _ hover
      rw [List.length_singleton] at hover
      rw [if_pos (by omega)]
      rfl

/-- The rule for a pass over the memory map: each entry with the right type fills the table by the
pieces of its range. -/
theorem mb2MmapIter_fills {handler : BootMem → ℕ → ℕ → Kern BootMem} {free : Bool}
    {f : Region → List Region} {I : List PhysRange → BootMem → Prop} (entries : List MmapEntry)
    (hhandler : ∀ r rest m, I (r :: rest) m →
      Fills type (f r.narrow) m (handler m r.narrow.start r.narrow.stop) ∧
        I rest (m.setRegions type (m.regions type ++ f r.narrow))) : ∀ {m : BootMem},
    I ((entries.filter fun entry => entry.type = 1 ↔ free = true).map MmapEntry.range) m →
    Fills type (((entries.filter fun entry => entry.type = 1 ↔ free = true).map
      MmapEntry.range).flatMap fun r => f r.narrow) m (mb2MmapIter entries handler free m) := by
  induction entries with
  | nil => exact fun _ => Fills.nil _
  | cons entry entries ih =>
    intro m hI
    unfold mb2MmapIter
    rw [List.foldlM_cons]
    by_cases htype : entry.type = 1 ↔ free = true
    · rw [List.filter_cons, if_pos (decide_eq_true htype), List.map_cons] at hI ⊢
      obtain ⟨hfirst, hrest⟩ := hhandler entry.range _ m hI
      rw [if_neg (by tauto), if_neg (by tauto), List.flatMap_cons]
      exact hfirst.bind (ih hrest)
    · rw [List.filter_cons, if_neg (by rwa [decide_eq_true_iff])] at hI ⊢
      have hskip : (if entry.type ≠ 1 ∧ free = true then (.ok m : Kern BootMem)
          else if entry.type = 1 ∧ free ≠ true then .ok m
          else handler m entry.range.narrow.start entry.range.narrow.stop) = .ok m := by
        split
        · rfl
        · rw [if_pos (by tauto)]
      rw [hskip]
      exact ih hI

end Filling

/-! ## The reserved pass -/

namespace BootInput

variable (b : BootInput)

/-- The descriptor tables and the kernel image lie in the linear map. -/
structure InLinearMap : Prop where
  gdtr : kernelVaddrBase ≤ b.gdtrBase ∧ b.gdtrBase + b.gdtrLimit + 1 < 2 ^ 32
  idtr : kernelVaddrBase ≤ b.idtrBase ∧ b.idtrBase + b.idtrLimit + 1 < 2 ^ 32
  kernel : kernelVaddrBase ≤ b.kernelStart

/-- The pieces that a sorted table leaves of the type-1 ranges. -/
def freePieces (table : List Region) : List Region :=
  b.usable.flatMap fun r => Memory.freePieces r.narrow.stop table r.narrow.start

/-- No table exceeds `MAX_REGIONS`: neither the reserved regions nor the pieces between them. -/
structure TablesFit : Prop where
  reserved : b.reservedRegions.length ≤ maxRegions
  free : ∀ table, sortAndMerge b.reservedRegions = .ok table →
    (b.freePieces table).length ≤ maxRegions

end BootInput

section Reserved

variable {b : BootInput} {m m' : BootMem}

/-- A range below 4 GiB is not narrowed. -/
theorem PhysRange.narrow_of_below {r : PhysRange} (h : r.addr + r.len < 2 ^ 32) :
    r.narrow = ⟨r.addr, r.addr + r.len⟩ := by
  unfold PhysRange.narrow
  rw [Nat.mod_eq_of_lt h, Nat.mod_eq_of_lt (by omega)]

/-- Regions that end at or above their starts are stored as pieces. -/
theorem filter_eq_pieces (regions : List Region) (hle : ∀ reg ∈ regions, reg.start ≤ reg.stop) :
    regions.filter (fun reg => reg.start ≠ reg.stop) =
      regions.flatMap fun reg => piece reg.start reg.stop := by
  induction regions with
  | nil => rfl
  | cons reg regions ih =>
    have hreg := hle reg List.mem_cons_self
    rw [List.filter_cons, List.flatMap_cons, ih fun r hr => hle r (List.mem_cons_of_mem reg hr)]
    unfold piece
    rcases Nat.eq_or_lt_of_le hreg with heq | hlt
    · simp [heq]
    · simp [hlt, hlt.ne]

/-- Ranges below 4 GiB end at or above their starts. -/
theorem narrow_le {ranges : List PhysRange} (hbelow : ∀ r ∈ ranges, r.addr + r.len < 2 ^ 32) :
    ∀ reg ∈ ranges.map PhysRange.narrow, reg.start ≤ reg.stop := by
  intro reg hreg
  obtain ⟨r, hr, rfl⟩ := List.mem_map.mp hreg
  rw [PhysRange.narrow_of_below (hbelow r hr)]
  exact Nat.le_add_right _ _

theorem virtToPhysChecked_of_le {vAddr : ℕ} (h : kernelVaddrBase ≤ vAddr) :
    ∃ pAddr, virtToPhysChecked vAddr = .ok pAddr := ⟨_, if_pos h⟩

/-- **The fixed ranges** fill the reserved table, if the kernel lies in the linear map. -/
theorem reserveFixed_fills (hlinear : b.InLinearMap)
    (hbelow : ∀ r ∈ b.fixedRanges, r.addr + r.len < 2 ^ 32) (m : BootMem) :
    Fills .reserved ((b.fixedRanges.map PhysRange.narrow).flatMap fun reg =>
      piece reg.start reg.stop) m (reserveFixed b m) := by
  obtain ⟨⟨hgdt, hgdtEnd⟩, ⟨hidt, hidtEnd⟩, hkernel⟩ := hlinear
  -- the addresses are translated without a stop
  have hgdtLe : kernelVaddrBase ≤ (b.gdtrBase + b.gdtrLimit + 1) % 2 ^ 32 := by
    rw [Nat.mod_eq_of_lt hgdtEnd]
    exact hgdt.trans (by omega)
  have hidtLe : kernelVaddrBase ≤ (b.idtrBase + b.idtrLimit + 1) % 2 ^ 32 := by
    rw [Nat.mod_eq_of_lt hidtEnd]
    exact hidt.trans (by omega)
  obtain ⟨gs, hgs⟩ := virtToPhysChecked_of_le hgdt
  obtain ⟨ge, hge⟩ := virtToPhysChecked_of_le hgdtLe
  obtain ⟨is, his⟩ := virtToPhysChecked_of_le hidt
  obtain ⟨ie, hie⟩ := virtToPhysChecked_of_le hidtLe
  obtain ⟨ks, hks⟩ := virtToPhysChecked_of_le hkernel
  obtain ⟨ke, hke⟩ := virtToPhysChecked_of_le (hkernel.trans b.kernel_le.1)
  have hlist := fixedRanges_narrow hgs hge his hie hks hke
  have hle := narrow_le hbelow
  rw [hlist] at hle ⊢
  unfold reserveFixed
  rw [hgs, hge, his, hie, hks, hke]
  simp only [ok_bind, List.flatMap_append, List.flatMap_singleton]
  refine (addRegion_fills _ (by norm_num) _).bind ?_
  refine (addRegion_fills _ (hle ⟨gs, ge⟩ (by simp)) _).bind ?_
  refine (addRegion_fills _ (hle ⟨is, ie⟩ (by simp)) _).bind ?_
  refine (addRegion_fills _ (by norm_num) _).bind ?_
  refine (addRegion_fills _ (by norm_num) _).bind ?_
  refine (addRegion_fills _ (hle ⟨ks, ke⟩ (by simp)) _).bind ?_
  exact addRegion_fills _ (hle ⟨b.mb2info, (b.mb2info + b.totalSize) % 2 ^ 32⟩ (by simp)) _

/-- The fixed ranges are stored only if the kernel lies in the linear map. -/
theorem reserveFixed_linear (h : reserveFixed b m = .ok m') : b.InLinearMap := by
  unfold reserveFixed at h
  simp only [bind_eq_ok] at h
  obtain ⟨m₁, h₁, gs, hgs, ge, hge, m₂, h₂, is, his, ie, hie, m₃, h₃, m₄, h₄, m₅, h₅, ks, hks,
    -⟩ := h
  have hgdt := b.gdtr_lt
  have hidt := b.idtr_lt
  obtain ⟨hgs, -⟩ := virtToPhysChecked_ok hgs
  obtain ⟨hge, -⟩ := virtToPhysChecked_ok hge
  obtain ⟨his, -⟩ := virtToPhysChecked_ok his
  obtain ⟨hie, -⟩ := virtToPhysChecked_ok hie
  obtain ⟨hks, -⟩ := virtToPhysChecked_ok hks
  -- an end that wraps is below the linear map
  refine ⟨⟨hgs, ?_⟩, ⟨his, ?_⟩, hks⟩
  · unfold kernelVaddrBase at hge
    omega
  · unfold kernelVaddrBase at hie
    omega

/-- **The reserved pass** of a map below 4 GiB fills the reserved table. -/
theorem reservedPass_fills (hlinear : b.InLinearMap)
    (hbelow : ∀ r ∈ b.reserved, r.addr + r.len < 2 ^ 32) (m : BootMem) :
    Fills .reserved b.reservedRegions m
      (reserveFixed b m >>= mb2MmapIter b.mmap reservedWrapper false) := by
  have hentries : b.reservedEntries =
      (b.mmap.filter fun entry => entry.type = 1 ↔ false = true).map MmapEntry.range := by
    simp [BootInput.reservedEntries]
  have hpass : ∀ m, Fills .reserved ((b.reservedEntries.map PhysRange.narrow).flatMap fun reg =>
      piece reg.start reg.stop) m (mb2MmapIter b.mmap reservedWrapper false m) := by
    intro m
    rw [hentries, List.flatMap_map]
    refine mb2MmapIter_fills (f := fun reg => piece reg.start reg.stop)
      (I := fun rest _ => ∀ r ∈ rest, r.addr + r.len < 2 ^ 32) b.mmap (fun r rest m hI => ?_) ?_
    · refine ⟨addRegion_fills m ?_ _, fun q hq => hI q (List.mem_cons_of_mem r hq)⟩
      rw [PhysRange.narrow_of_below (hI r List.mem_cons_self)]
      exact Nat.le_add_right _ _
    · rw [← hentries]
      exact fun r hr => hbelow r (List.mem_append_right _ hr)
  unfold BootInput.reservedRegions
  rw [filter_eq_pieces _ (narrow_le hbelow), BootInput.reserved, List.map_append,
    List.flatMap_append]
  exact (reserveFixed_fills hlinear (fun r hr => hbelow r (List.mem_append_left _ hr)) m).bind
    (hpass _)

end Reserved

/-! ## The free pass -/

section Pass

variable {m : BootMem}

/-- A range that shares no byte with the table does not overlap it. -/
theorem rangeOverlaps_eq_false {start stop : ℕ} (hne : NonEmptyRegions (m.regions .free))
    (hlt : start < stop) (hfresh : ∀ p, start ≤ p → p < stop → ¬ Covers (m.regions .free) p) :
    rangeOverlaps m start stop .free = false := by
  by_contra hover
  rw [Bool.not_eq_false, rangeOverlaps, List.any_eq_true] at hover
  obtain ⟨reg, hreg, hmeet⟩ := hover
  have hreg' := hne reg hreg
  simp only [Bool.not_eq_true', Bool.or_eq_false_iff, decide_eq_false_iff_not, not_le] at hmeet
  -- the larger of the two starts is a common byte
  refine hfresh (max start reg.start) (le_max_left _ _) (max_lt hlt hmeet.1) ⟨reg, hreg, ?_, ?_⟩
  · exact le_max_right _ _
  · exact max_lt hmeet.2 hreg'

/-- A piece of fresh bytes is never dropped. -/
theorem addFreePiece_fills (hne : NonEmptyRegions (m.regions .free)) {start stop : ℕ}
    (hfresh : ∀ p, start ≤ p → p < stop → ¬ Covers (m.regions .free) p) :
    Fills .free (piece start stop) m (addFreePiece m start stop) := by
  unfold addFreePiece
  by_cases hlt : start < stop
  · rw [rangeOverlaps_eq_false hne hlt hfresh, if_pos ⟨hlt, rfl⟩]
    exact addRegion_fills m hlt.le .free
  · rw [if_neg fun hc => hlt hc.1, piece, if_neg hlt]
    exact Fills.nil m

/-- **The loop of `boot_allocator_free_handler`** stores the pieces of a range of fresh bytes. -/
theorem freeLoop_fills (stop : ℕ) (table : List Region) : ∀ {cur : ℕ} {m : BootMem},
    NonEmptyRegions table → NonEmptyRegions (m.regions .free) →
    (∀ p, cur ≤ p → p < stop → ¬ Covers (m.regions .free) p) →
    Fills .free (freePieces stop table cur) m (freeLoop stop table cur m) := by
  induction table with
  | nil => exact fun _ hne hfresh => addFreePiece_fills hne hfresh
  | cons res table ih =>
    intro cur m hneTable hne hfresh
    have hres : res.start < res.stop := hneTable res List.mem_cons_self
    have hneTail : NonEmptyRegions table :=
      fun reg hreg => hneTable reg (List.mem_cons_of_mem res hreg)
    unfold freeLoop freePieces
    by_cases hskip : res.stop ≤ cur ∨ res.start ≥ stop
    · rw [if_pos hskip, if_pos hskip]
      exact ih hneTail hne hfresh
    · rw [if_neg hskip, if_neg hskip]
      have hcur : (if res.stop > cur then res.stop else cur) = res.stop := if_pos (by omega)
      refine (addFreePiece_fills hne fun p hlow hhigh => hfresh p hlow (by omega)).bind ?_
      rw [hcur]
      dsimp only
      split
      · exact Fills.nil _
      · refine ih hneTail ?_ fun p hlow hhigh => ?_
        · rw [BootMem.setRegions_self]
          exact hne.append piece_nonEmpty
        · -- the bytes from `res.stop` on are still fresh
          rw [BootMem.setRegions_self, covers_append, covers_piece]
          rintro (hold | hnew)
          · exact hfresh p (by omega) hhigh hold
          · omega

/-- What the free pass knows of the ranges that are still to come. -/
structure FreshRanges (table : List Region) (rest : List PhysRange) (m : BootMem) : Prop where
  reserved : m.regions .reserved = table
  free : NonEmptyRegions (m.regions .free)
  apart : rest.Pairwise fun r r' => r.narrow.Apart r'.narrow
  fresh : ∀ r ∈ rest, ∀ p, r.narrow.Has p → ¬ Covers (m.regions .free) p

/-- **The free pass** stores the pieces of the type-1 ranges. -/
theorem freePass_fills {b : BootInput} {table : List Region} (hsorted : ByStart table)
    (hne : NonEmptyRegions table) (h : FreshRanges table b.usable m) :
    Fills .free (b.freePieces table) m (mb2MmapIter b.mmap freeHandler true m) := by
  have hentries : b.usable =
      (b.mmap.filter fun entry => entry.type = 1 ↔ true = true).map MmapEntry.range := by
    simp [BootInput.usable]
  unfold BootInput.freePieces
  rw [hentries] at h ⊢
  refine mb2MmapIter_fills (f := fun reg => freePieces reg.stop table reg.start)
    (I := FreshRanges table) b.mmap (fun r rest m hI => ?_) h
  obtain ⟨hhead, htail⟩ := List.pairwise_cons.mp hI.apart
  constructor
  · unfold freeHandler
    rw [hI.reserved]
    exact freeLoop_fills _ _ hne hI.free
      fun p hlow hhigh => hI.fresh r List.mem_cons_self p ⟨hlow, hhigh⟩
  · refine ⟨?_, ?_, htail, fun q hq p hp => ?_⟩
    · rw [BootMem.setRegions_of_ne _ _ (by simp), hI.reserved]
    · rw [BootMem.setRegions_self]
      exact hI.free.append (freePieces_nonEmpty table)
    · rw [BootMem.setRegions_self, covers_append, covers_freePieces table hsorted hne]
      rintro (hold | ⟨hnew, -⟩)
      · exact hI.fresh q (List.mem_cons_of_mem r hq) p hp hold
      · exact hhead q hq p hnew hp

end Pass

/-! ## Exactness -/

section Exact

variable {b : BootInput} {m m' : BootMem}

/-- Below 4 GiB the reserved table has exactly the reserved bytes. -/
theorem reservedRegions_exact (hbelow : ∀ r ∈ b.reserved, r.addr + r.len < 2 ^ 32) :
    NonEmptyRegions b.reservedRegions ∧ ∀ p, Covers b.reservedRegions p ↔ b.Reserved p := by
  unfold BootInput.reservedRegions
  rw [filter_eq_pieces _ (narrow_le hbelow), List.flatMap_map]
  refine ⟨nonEmpty_flatMap fun _ _ => piece_nonEmpty, fun p => covers_flatMap.trans ?_⟩
  refine exists_congr fun r => and_congr_right fun hr => ?_
  rw [covers_piece, ← PhysRange.narrow_has (hbelow r hr)]
  rfl

/-- The bytes of the pieces: usable and not in the table. -/
theorem covers_usablePieces (hbelow : ∀ r ∈ b.usable, r.addr + r.len < 2 ^ 32) {table : List Region}
    (hsorted : ByStart table) (hne : NonEmptyRegions table) (p : ℕ) :
    Covers (b.freePieces table) p ↔ b.Usable p ∧ ¬ Covers table p := by
  have hrange : ∀ r ∈ b.usable, (Covers (freePieces r.narrow.stop table r.narrow.start) p ↔
      r.Has p ∧ ¬ Covers table p) := by
    intro r hr
    rw [covers_freePieces table hsorted hne, ← PhysRange.narrow_has (hbelow r hr)]
    rfl
  refine covers_flatMap.trans ⟨?_, ?_⟩
  · rintro ⟨r, hr, hp⟩
    obtain ⟨hpr, hpt⟩ := (hrange r hr).mp hp
    exact ⟨⟨r, hr, hpr⟩, hpt⟩
  · rintro ⟨⟨r, hr, hpr⟩, hpt⟩
    exact ⟨r, hr, (hrange r hr).mpr ⟨hpr, hpt⟩⟩

/-- Ranges that are disjoint have pieces that are apart. -/
theorem usablePieces_apart {ranges : List PhysRange} {table : List Region} (hsorted : ByStart table)
    (hne : NonEmptyRegions table) (hapart : ranges.Pairwise fun r r' => r.narrow.Apart r'.narrow) :
    (ranges.flatMap fun r => freePieces r.narrow.stop table r.narrow.start).Pairwise
      Region.Apart := by
  induction ranges with
  | nil => exact List.Pairwise.nil
  | cons r ranges ih =>
    obtain ⟨hhead, htail⟩ := List.pairwise_cons.mp hapart
    rw [List.flatMap_cons]
    refine pairwise_apart_append (freePieces_apart table hsorted hne) (ih htail) fun p hp hp' => ?_
    obtain ⟨r', hr', hp'⟩ := covers_flatMap.mp hp'
    obtain ⟨hpr, -⟩ := (covers_freePieces table hsorted hne).mp hp
    obtain ⟨hpr', -⟩ := (covers_freePieces table hsorted hne).mp hp'
    exact hhead r' hr' p hpr hpr'

/-- No range is taken from the map before the free pass. -/
theorem freshRanges_start (husable : ∀ r ∈ b.usable, r.addr + r.len < 2 ^ 32)
    (hdisjoint : b.usable.Pairwise fun r r' => ∀ p, r.Has p → ¬ r'.Has p)
    (hempty : m.regions .free = []) (table : List Region) :
    FreshRanges table b.usable (m.setRegions .reserved table) := by
  have hfree : (m.setRegions .reserved table).regions .free = [] := by
    rw [BootMem.setRegions_of_ne _ _ (by simp), hempty]
  refine ⟨BootMem.setRegions_self _ _ _, ?_, ?_, ?_⟩
  · rw [hfree]
    exact fun reg hreg => absurd hreg (by simp)
  · refine hdisjoint.imp_of_mem fun {r r'} hr hr' hdis p hp hp' => ?_
    exact hdis p ((PhysRange.narrow_has (husable r hr) p).mp hp)
      ((PhysRange.narrow_has (husable r' hr') p).mp hp')
  · rw [hfree]
    exact fun r _ p _ => covers_nil

/-- The sorted and merged reserved table of a map below 4 GiB. -/
structure ReservedTable (b : BootInput) (table : List Region) : Prop where
  merged : sortAndMerge b.reservedRegions = .ok table
  sorted : ByStart table
  nonEmpty : NonEmptyRegions table
  bytes : ∀ p, Covers table p ↔ b.Reserved p

theorem reservedTable_of_merged (hreserved : ∀ r ∈ b.reserved, r.addr + r.len < 2 ^ 32)
    {table : List Region} (h : sortAndMerge b.reservedRegions = .ok table) :
    ReservedTable b table := by
  obtain ⟨hne, hbytes⟩ := reservedRegions_exact hreserved
  obtain ⟨hneTable, hbytesTable⟩ := sortAndMerge_covers hne h
  exact ⟨h, (sortAndMerge_reserved (fun reg hreg => .inl (hne reg hreg)) h).1, hneTable,
    fun p => (hbytesTable p).trans (hbytes p)⟩

section Below

variable (hbelow : ∀ r ∈ b.usable ++ b.reserved, r.addr + r.len < 2 ^ 32)
  (hdisjoint : b.usable.Pairwise fun r r' => ∀ p, r.Has p → ¬ r'.Has p)

include hbelow hdisjoint

/-- The two passes return if the tables fit and the kernel lies in the linear map. The free table is
then the sorted and merged table of the pieces. -/
theorem initRegions_ok (hfit : b.TablesFit) (hlinear : b.InLinearMap) (m : BootMem) :
    ∃ m' table, initRegions b m = .ok m' ∧ ReservedTable b table ∧
      sortAndMerge (b.freePieces table) = .ok (m'.regions .free) := by
  have husable : ∀ r ∈ b.usable, r.addr + r.len < 2 ^ 32 :=
    fun r hr => hbelow r (List.mem_append_left _ hr)
  have hreserved : ∀ r ∈ b.reserved, r.addr + r.len < 2 ^ 32 :=
    fun r hr => hbelow r (List.mem_append_right _ hr)
  unfold initRegions
  rw [← bind_assoc]
  -- the tables are empty before the passes
  generalize hclear : ({ m with allocations := [], regions := fun _ => [] } : BootMem) = m₀
  have hempty : ∀ type, m₀.regions type = [] := fun type => by rw [← hclear]
  have hpass := (reservedPass_fills hlinear hreserved m₀).fits
    (by rw [hempty, List.length_nil, Nat.zero_add]; exact hfit.reserved)
  rw [hempty, List.nil_append] at hpass
  rw [hpass, ok_bind, BootMem.setRegions_self]
  obtain ⟨table, hmerged, -⟩ := sortAndMerge_ok hfit.reserved
  have htable := reservedTable_of_merged hreserved hmerged
  rw [hmerged, ok_bind, BootMem.setRegions_setRegions]
  -- the free pass starts with an empty table
  have hfresh := freshRanges_start husable hdisjoint (hempty .free) table
  have hfree : (m₀.setRegions .reserved table).regions .free = [] := by
    rw [BootMem.setRegions_of_ne _ _ (by simp), hempty]
  have hpieces := (freePass_fills htable.sorted htable.nonEmpty hfresh).fits
    (by rw [hfree, List.length_nil, Nat.zero_add]; exact hfit.free table hmerged)
  rw [hfree, List.nil_append] at hpieces
  obtain ⟨free, hfreeMerged, -⟩ := sortAndMerge_ok (hfit.free table hmerged)
  dsimp only
  rw [hpieces, ok_bind, BootMem.setRegions_self, hfreeMerged, ok_bind]
  refine ⟨_, table, rfl, htable, ?_⟩
  rw [BootMem.setRegions_self]
  exact hfreeMerged

/-- The two passes return only if the tables fit and the kernel lies in the linear map. -/
theorem fits_of_initRegions (h : initRegions b m = .ok m') : b.TablesFit ∧ b.InLinearMap := by
  have husable : ∀ r ∈ b.usable, r.addr + r.len < 2 ^ 32 :=
    fun r hr => hbelow r (List.mem_append_left _ hr)
  have hreserved : ∀ r ∈ b.reserved, r.addr + r.len < 2 ^ 32 :=
    fun r hr => hbelow r (List.mem_append_right _ hr)
  unfold initRegions at h
  generalize hclear : ({ m with allocations := [], regions := fun _ => [] } : BootMem) = m₀ at h
  have hempty : ∀ type, m₀.regions type = [] := fun type => by rw [← hclear]
  simp only [bind_eq_ok] at h
  obtain ⟨m₁, hfixed, m₂, hiter, table, hmerged, m₃, hfree, -⟩ := h
  have hlinear := reserveFixed_linear hfixed
  have hpass := reservedPass_fills hlinear hreserved m₀
  have hpassOk : (reserveFixed b m₀ >>= mb2MmapIter b.mmap reservedWrapper false) = .ok m₂ :=
    bind_eq_ok.mpr ⟨m₁, hfixed, hiter⟩
  rw [hpassOk] at hpass
  have hreservedFit : b.reservedRegions.length ≤ maxRegions := by
    by_contra hover
    have hstop := hpass.full (by rw [hempty]; exact Nat.zero_le _)
      (by rw [hempty, List.length_nil, Nat.zero_add]; exact not_le.mp hover)
    cases hstop
  have hm₂ := hpass.fits (by rw [hempty, List.length_nil, Nat.zero_add]; exact hreservedFit)
  obtain rfl := Except.ok.inj hm₂
  rw [hempty, List.nil_append] at hmerged hfree
  rw [BootMem.setRegions_self] at hmerged
  rw [BootMem.setRegions_setRegions] at hfree
  have htable := reservedTable_of_merged hreserved hmerged
  have hpieces := freePass_fills htable.sorted htable.nonEmpty
    (freshRanges_start husable hdisjoint (hempty .free) table)
  rw [hfree] at hpieces
  refine ⟨⟨hreservedFit, fun table' hmerged' => ?_⟩, hlinear⟩
  obtain rfl : table = table' := Except.ok.inj (hmerged.symm.trans hmerged')
  by_contra hover
  have hlen : ((m₀.setRegions .reserved table).regions .free).length = 0 := by
    rw [BootMem.setRegions_of_ne _ _ (by simp), hempty, List.length_nil]
  have hstop := hpieces.full (by omega) (by omega)
  cases hstop

/-- The free table after the two passes: exactly the usable bytes that are not reserved, in regions
with gaps between them. -/
theorem initRegions_exact (h : initRegions b m = .ok m') :
    NonEmptyRegions (m'.regions .free) ∧ Gapped (m'.regions .free) ∧
      ∀ p, Covers (m'.regions .free) p ↔ b.Usable p ∧ ¬ b.Reserved p := by
  have husable : ∀ r ∈ b.usable, r.addr + r.len < 2 ^ 32 :=
    fun r hr => hbelow r (List.mem_append_left _ hr)
  obtain ⟨hfit, hlinear⟩ := fits_of_initRegions hbelow hdisjoint h
  obtain ⟨m'', table, hrun, htable, hmerged⟩ := initRegions_ok hbelow hdisjoint hfit hlinear m
  obtain rfl : m' = m'' := Except.ok.inj (h.symm.trans hrun)
  have hne : NonEmptyRegions (b.freePieces table) :=
    nonEmpty_flatMap fun _ _ => freePieces_nonEmpty table
  have hapart : (b.freePieces table).Pairwise Region.Apart :=
    usablePieces_apart htable.sorted htable.nonEmpty
      (freshRanges_start husable hdisjoint (m := m.setRegions .free []) (by simp) table).apart
  obtain ⟨hneMerged, hbytes⟩ := sortAndMerge_covers hne hmerged
  refine ⟨hneMerged, sortAndMerge_gapped hne hapart hmerged, fun p => ?_⟩
  rw [hbytes, covers_usablePieces husable htable.sorted htable.nonEmpty, htable.bytes]

end Below

end Exact

/-- **Exactness on maps below 4 GiB.** Let every range end strictly below 4 GiB and the type-1
entries be pairwise disjoint. The two passes return just if no table exceeds `MAX_REGIONS` and the
kernel lies in the linear map. Where they return, the free table has exactly the bytes of the type-1
entries that are in no reserved range, and its regions are non-empty and sorted with a gap between
any two. -/
theorem boot_free_exact {b : BootInput}
    (hbelow : ∀ r ∈ b.usable ++ b.reserved, r.addr + r.len < 2 ^ 32)
    (hdisjoint : b.usable.Pairwise fun r r' => ∀ p, r.Has p → ¬ r'.Has p) (m : BootMem) :
    ((∃ m', initRegions b m = .ok m') ↔ b.TablesFit ∧ b.InLinearMap) ∧
      ∀ m', initRegions b m = .ok m' →
        (∀ p, (∃ reg ∈ m'.regions .free, reg.start ≤ p ∧ p < reg.stop) ↔
          b.Usable p ∧ ¬ b.Reserved p) ∧
        (∀ reg ∈ m'.regions .free, reg.start < reg.stop) ∧
        (m'.regions .free).Pairwise fun reg next => reg.stop < next.start := by
  refine ⟨⟨fun ⟨m', h⟩ => fits_of_initRegions hbelow hdisjoint h, fun ⟨hfit, hlinear⟩ => ?_⟩,
    fun m' h => ?_⟩
  · obtain ⟨m', -, h, -⟩ := initRegions_ok hbelow hdisjoint hfit hlinear m
    exact ⟨m', h⟩
  · obtain ⟨hne, hgapped, hbytes⟩ := initRegions_exact hbelow hdisjoint h
    exact ⟨hbytes, hne, hgapped⟩

/-- A map whose reserved ranges are nested and overlap: the kernel image has the descriptor tables
inside, and low memory is of type 1 and reserved. -/
theorem boot_free_exact_smallPc : smallPc.TablesFit ∧ ∃ m', initRegions smallPc .zero = .ok m' ∧
    m'.regions .free = [⟨0x200400, 0x7fe0000⟩] ∧
    ∀ p, (∃ reg ∈ m'.regions .free, reg.start ≤ p ∧ p < reg.stop) ↔
      smallPc.Usable p ∧ ¬ smallPc.Reserved p := by
  have hrun : (initRegions smallPc .zero).toOption.map (fun m => m.regions .free) =
      some [⟨0x200400, 0x7fe0000⟩] := by
    decide +kernel
  obtain ⟨m', hm, hfree⟩ := exists_ok_of_toOption_map hrun
  have hdisjoint : smallPc.usable.Pairwise fun r r' => ∀ p, r.Has p → ¬ r'.Has p := by
    refine List.pairwise_pair.mpr fun p hp hp' => ?_
    have h₁ : p < 0 + 0x9fc00 := hp.2
    have h₂ : 0x100000 ≤ p := hp'.1
    omega
  obtain ⟨hreturns, hexact⟩ := boot_free_exact (b := smallPc) (by decide) hdisjoint .zero
  obtain ⟨hfit, -⟩ := hreturns.mp ⟨m', hm⟩
  exact ⟨hfit, m', hm, hfree, (hexact m' hm).1⟩

end Kfs.Memory
