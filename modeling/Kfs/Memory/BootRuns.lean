import Kfs.Lib.TransitionSystem
import Kfs.Memory.BootCuts

/-!
# Runs of the boot allocator

A run calls `boot_alloc` and `boot_alloc_at` on the zone tables that `boot_allocator_init` has left.
Each call that returns a block cuts it out of one free region of its zone and adds it to the
reserved regions of the zone; the blocks of a run are kept beside the state.

A block at address 0 cannot be told from `NULL`. `boot_allocator_init` reserves the first page, so
no free region has it.
-/

namespace Kfs.Memory

open Kfs.Lib Kfs.Lib.Word32

/-! ## Calls -/

/-- The calls of a run. -/
inductive BootCall where
  | alloc (size : ℕ) (zone : Zone) (freeable : Bool)
  | allocAt (size : ℕ) (zone : Zone) (freeable : Bool) (start stop : ℕ) (align : ℤ)
  deriving DecidableEq, Repr

namespace BootCall

def size : BootCall → ℕ
  | .alloc size _ _ => size
  | .allocAt size _ _ _ _ _ => size

def zone : BootCall → Zone
  | .alloc _ zone _ => zone
  | .allocAt _ zone _ _ _ _ => zone

/-- Arguments for which no 32-bit sum wraps, whatever is free. -/
def Valid : BootCall → Prop
  | .alloc size _ _ => 0 < size ∧ size < 2 ^ 31
  | .allocAt size _ _ start stop align => (0 < size ∧ size < 2 ^ 31) ∧ start < 2 ^ 31 ∧
      stop < 2 ^ 31 ∧ (align = -1 ∨ ∃ k : ℕ, k < 31 ∧ align = 2 ^ k)

/-- No 32-bit sum wraps on the free regions that the call tries. `boot_alloc` adds nothing up, and is
not called for no byte. -/
def NoWrap (m : BootMem) : BootCall → Prop
  | .alloc size _ _ => 0 < size
  | .allocAt size zone _ start stop align => ∀ reg ∈ m.freeZones zone, reg.start < stop →
      start < reg.stop →
      (align ≠ -1 → max start reg.start + sub32 (align % 2 ^ 32).toNat 1 < 2 ^ 32) ∧
        windowStart start align reg + size < 2 ^ 32

/-- Where the block of a call may lie. -/
def Window (r : ℕ) : BootCall → Prop
  | .alloc _ _ _ => True
  | .allocAt size _ _ start stop align =>
      start ≤ r ∧ r + size ≤ stop ∧ (align ≠ -1 → align ∣ (r : ℤ))

end BootCall

/-- One call. -/
def bootStep (m : BootMem) : BootCall → Kern (ℕ × BootMem)
  | .alloc size zone freeable => bootAlloc size zone freeable m
  | .allocAt size zone freeable start stop align => bootAllocAt size zone freeable start stop align m

/-! ## The zone tables -/

/-- The first address of a zone. -/
def Zone.start : Zone → ℕ
  | .dma => 0
  | .lowmem => lowmemStart
  | .highmem => highmemStart

/-- Where the regions of a zone end at the latest. -/
def Zone.stop : Zone → ℕ
  | .dma => lowmemStart
  | .lowmem => highmemStart
  | .highmem => highmemEnd

/-- The tables of all zones, with `R` between the free regions of a zone. -/
structure ZoneTables (R : Region → Region → Prop) (m : BootMem) : Prop where
  nonEmpty : ∀ z, NonEmptyRegions (m.freeZones z)
  related : ∀ z, (m.freeZones z).Pairwise R
  inZone : ∀ z, ∀ reg ∈ m.freeZones z, z.start ≤ reg.start ∧ reg.stop ≤ z.stop
  reserved : ∀ z, NonEmptyRegions (m.resZones z)

theorem Zone.stop_lt (z : Zone) : z.stop < 2 ^ 32 := by cases z <;> decide

/-- The zone of an address inside a zone. -/
theorem getAddrZone_eq {z : Zone} {addr : ℕ} (hlow : z.start ≤ addr) (hhigh : addr < z.stop) :
    getAddrZone addr = z := by
  have hzones : lowmemStart < highmemStart := by decide
  unfold getAddrZone
  cases z with
  | lowmem =>
    have hlt : addr < highmemStart := hhigh
    rw [if_neg (not_le.mpr hlt)]
    exact if_pos hlow
  | dma =>
    have hlt : addr < lowmemStart := hhigh
    rw [if_neg (not_le.mpr (hlt.trans hzones)), if_neg (not_le.mpr hlt)]
  | highmem => exact if_pos hlow

/-! ## The tests on a region -/

section Tests

variable {reg : Region} {size ret : ℕ}

theorem bootAllocIn_some (hne : reg.start < reg.stop) (hlt : reg.stop < 2 ^ 32)
    (h : bootAllocIn size reg = some ret) : reg.start ≤ ret ∧ ret + size = reg.stop := by
  unfold bootAllocIn at h
  rw [sub32_eq hlt hne.le] at h
  by_cases hsize : reg.stop - reg.start ≥ size
  · rw [if_pos hsize, sub32_eq hlt (by omega), if_neg (by omega)] at h
    have hret := Option.some.inj h
    omega
  · rw [if_neg hsize] at h
    cases h

/-- Rounding up to a power of two below `2 ^ 31` neither wraps nor passes `2 ^ 31`. -/
theorem alignTo_spec {x k : ℕ} (hx : x < 2 ^ 31) (hk : k < 31) :
    x ≤ alignTo x (2 ^ k) ∧ alignTo x (2 ^ k) ≤ 2 ^ 31 ∧ 2 ^ k ∣ alignTo x (2 ^ k) := by
  have hpos : 0 < 2 ^ k := Nat.two_pow_pos k
  have hpow : 2 ^ k ≤ 2 ^ 31 := Nat.pow_le_pow_right (by norm_num) hk.le
  have hmask : sub32 (2 ^ k) 1 = 2 ^ k - 1 := sub32_eq (by omega) hpos
  have heq : alignTo x (2 ^ k) = (x + (2 ^ k - 1)) / 2 ^ k * 2 ^ k := by
    unfold alignTo
    rw [hmask, add32_eq (by omega), show 2 ^ 32 - 1 - (2 ^ k - 1) = highMask k by
      unfold highMask
      omega, and_highMask (by omega) (by omega)]
  have hdiv := Nat.div_add_mod (x + (2 ^ k - 1)) (2 ^ k)
  have hmod := Nat.mod_lt (x + (2 ^ k - 1)) hpos
  rw [heq]
  refine ⟨?_, ?_, Dvd.intro_left _ rfl⟩
  · rw [mul_comm]
    omega
  · -- `2 ^ 31` is itself a multiple
    have htop : 2 ^ 31 = 2 ^ (31 - k) * 2 ^ k := by
      rw [← pow_add, Nat.sub_add_cancel hk.le]
    rw [htop]
    refine Nat.mul_le_mul_right _ (Nat.lt_succ_iff.mp ((Nat.div_lt_iff_lt_mul hpos).mpr ?_))
    rw [Nat.succ_mul, ← htop]
    omega

/-- Clearing the bits of a mask takes at most the mask away. -/
theorem le_clearMask_add {y mask : ℕ} (hy : y < 2 ^ 32) (hmask : mask < 2 ^ 32) :
    y ≤ (y &&& (2 ^ 32 - 1 - mask)) + mask := by
  have hsplit : ∀ b m : BitVec 32, b = (b &&& ~~~m) + (b &&& m) := by
    intro b m
    have hdis : (b &&& ~~~m) &&& (b &&& m) = 0#32 := by
      ext i hi
      cases hbit : m[i] <;> simp [hbit]
    rw [BitVec.add_eq_or_of_and_eq_zero _ _ hdis, ← BitVec.and_or_distrib_left, BitVec.not_or_self,
      BitVec.and_allOnes]
  have h := congrArg BitVec.toNat (hsplit (BitVec.ofNat 32 y) (BitVec.ofNat 32 mask))
  rw [BitVec.toNat_add, BitVec.toNat_and, BitVec.toNat_and, BitVec.toNat_not, BitVec.toNat_ofNat,
    BitVec.toNat_ofNat, Nat.mod_eq_of_lt hy, Nat.mod_eq_of_lt hmask] at h
  have hand : y &&& mask ≤ mask := Nat.and_le_right
  have hmod := Nat.mod_le ((y &&& (2 ^ 32 - 1 - mask)) + (y &&& mask)) (2 ^ 32)
  omega

/-- Rounding up does not go below, for any alignment. -/
theorem le_alignTo {x a : ℕ} (h : x + sub32 a 1 < 2 ^ 32) : x ≤ alignTo x a := by
  have hmask : sub32 a 1 < 2 ^ 32 := by omega
  have hclear := le_clearMask_add h hmask
  unfold alignTo
  rw [add32_eq h]
  omega

/-- The address that `boot_alloc_at` tries is in the region and not below the start asked for. -/
theorem le_windowStart {start : ℕ} {align : ℤ}
    (h : align ≠ -1 → max start reg.start + sub32 (align % 2 ^ 32).toNat 1 < 2 ^ 32) :
    reg.start ≤ windowStart start align reg ∧ start ≤ windowStart start align reg := by
  have hlow : (if reg.start ≥ start then reg.start else start) = max start reg.start :=
    (max_def start reg.start).symm
  have hle : max start reg.start ≤ windowStart start align reg := by
    unfold windowStart
    dsimp only
    rw [hlow]
    split
    · next hne => exact le_alignTo (h hne)
    · exact le_rfl
  exact ⟨(le_max_right _ _).trans hle, (le_max_left _ _).trans hle⟩

theorem windowStart_spec {start : ℕ} {align : ℤ} (hreg : reg.start < 2 ^ 31) (hstart : start < 2 ^ 31)
    (halign : align = -1 ∨ ∃ k : ℕ, k < 31 ∧ align = 2 ^ k) :
    reg.start ≤ windowStart start align reg ∧ start ≤ windowStart start align reg ∧
      windowStart start align reg ≤ 2 ^ 31 ∧
      (align ≠ -1 → align ∣ (windowStart start align reg : ℤ)) := by
  unfold windowStart
  dsimp only
  obtain ⟨low, hlow, hreglow, hstartlow, hlt⟩ : ∃ low,
      (if reg.start ≥ start then reg.start else start) = low ∧ reg.start ≤ low ∧ start ≤ low ∧
      low < 2 ^ 31 := by
    refine ⟨_, rfl, ?_⟩
    split
    · exact ⟨le_rfl, by omega, hreg⟩
    · exact ⟨by omega, le_rfl, hstart⟩
  rw [hlow]
  rcases halign with rfl | ⟨k, hk, rfl⟩
  · rw [if_neg (by simp)]
    exact ⟨hreglow, hstartlow, hlt.le, fun hne => absurd rfl hne⟩
  · have hpos : (0 : ℤ) < 2 ^ k := by positivity
    have hpow : (2 : ℤ) ^ k < 2 ^ 32 := pow_lt_pow_right₀ (by norm_num) (by omega)
    have hword : ((2 : ℤ) ^ k % 2 ^ 32).toNat = 2 ^ k := by
      rw [Int.emod_eq_of_lt hpos.le hpow]
      exact Int.toNat_natCast (2 ^ k)
    rw [if_pos (by omega), hword]
    obtain ⟨h₁, h₂, h₃⟩ := alignTo_spec hlt hk
    refine ⟨hreglow.trans h₁, hstartlow.trans h₁, h₂, fun _ => ?_⟩
    exact_mod_cast h₃

theorem bootAllocAtIn_some {start stop : ℕ} {align : ℤ}
    (hwrap : reg.start < stop → start < reg.stop →
      (align ≠ -1 → max start reg.start + sub32 (align % 2 ^ 32).toNat 1 < 2 ^ 32) ∧
        windowStart start align reg + size < 2 ^ 32)
    (h : bootAllocAtIn size start stop align reg = some ret) :
    reg.start < stop ∧ windowStart start align reg = ret ∧ reg.start ≤ ret ∧
      ret + size ≤ reg.stop ∧ start ≤ ret ∧ ret + size ≤ stop := by
  unfold bootAllocAtIn at h
  split at h
  · cases h
  next hmeet =>
    have hlt : reg.start < stop := by omega
    obtain ⟨halign, hsum⟩ := hwrap hlt (by omega)
    obtain ⟨h₁, h₂⟩ := le_windowStart halign
    rw [add32_eq hsum] at h
    obtain ⟨limit, hlimit, hle, hle'⟩ : ∃ limit,
        (if reg.stop < stop then reg.stop else stop) = limit ∧ limit ≤ reg.stop ∧ limit ≤ stop := by
      refine ⟨_, rfl, ?_⟩
      split <;> omega
    rw [hlimit] at h
    split at h
    next hfits =>
      obtain rfl : windowStart start align reg = ret := Option.some.inj h
      exact ⟨hlt, rfl, h₁, hfits.trans hle, h₂, hfits.trans hle'⟩
    next => cases h

/-- Arguments below `2 ^ 31` do not wrap. -/
theorem BootCall.Valid.noWrap {call : BootCall} (h : call.Valid) (m : BootMem) : call.NoWrap m := by
  cases call with
  | alloc => exact h.1
  | allocAt size zone freeable start stop align =>
    obtain ⟨⟨-, hsize⟩, hstart, hstop, halign⟩ := h
    intro reg _ hlt _
    have hreg : reg.start < 2 ^ 31 := hlt.trans hstop
    obtain ⟨-, -, hle, -⟩ := windowStart_spec hreg hstart halign
    refine ⟨fun hne => ?_, by omega⟩
    obtain ⟨k, hk, rfl⟩ := halign.resolve_left hne
    have hpow : 2 ^ k < 2 ^ 31 := Nat.pow_lt_pow_right (by norm_num) hk
    have hword : ((2 : ℤ) ^ k % 2 ^ 32).toNat = 2 ^ k := by
      rw [Int.emod_eq_of_lt (by positivity) (pow_lt_pow_right₀ (by norm_num) (by omega))]
      exact Int.toNat_natCast (2 ^ k)
    rw [hword, sub32_eq (by omega) (Nat.two_pow_pos k)]
    have hmax : max start reg.start < 2 ^ 31 := max_lt hstart hreg
    omega

end Tests

/-! ## The reserved tables -/

theorem addToZones_spec {zones zones' : Zone → List Region} {z : Zone} {size start : ℕ}
    (hne : ∀ z, NonEmptyRegions (zones z)) (hlow : z.start ≤ start) (hhigh : start + size ≤ z.stop)
    (hsize : 0 < size) (h : addToZones zones size start = .ok zones') :
    (∀ z', NonEmptyRegions (zones' z')) ∧ (∀ z' ≠ z, zones' z' = zones z') ∧
      ∀ p, Covers (zones' z) p ↔ Covers (zones z) p ∨ (start ≤ p ∧ p < start + size) := by
  have hzone : getAddrZone start = z := getAddrZone_eq hlow (by omega)
  have hend : add32 start size = start + size := add32_eq (by have := z.stop_lt; omega)
  unfold addToZones at h
  rw [hzone, hend] at h
  split at h
  · cases h
  · rw [bind_eq_ok] at h
    obtain ⟨merged, hmerge, hzones⟩ := h
    have hne' : NonEmptyRegions (zones z ++ [⟨start, start + size⟩]) := by
      intro reg hreg
      rcases List.mem_append.mp hreg with hreg | hreg
      · exact hne z reg hreg
      · rw [List.mem_singleton.mp hreg]
        dsimp only
        omega
    obtain ⟨hmergedNe, hbytes⟩ := sortAndMerge_covers hne' hmerge
    obtain rfl := Except.ok.inj hzones
    refine ⟨fun z' => ?_, fun z' hz' => if_neg hz', fun p => ?_⟩
    · dsimp only
      split
      · exact hmergedNe
      · exact hne z'
    · dsimp only
      rw [if_pos rfl, hbytes, covers_append, covers_cons]
      simp [Region.Has]

/-! ## What a call does -/

/-- A call that returned the block at `r`. -/
structure Allocates (call : BootCall) (r : ℕ) (m m' : BootMem) : Prop where
  size_pos : 0 < call.size
  cut : ∃ reg others, Cut call.size r (m.freeZones call.zone) (m'.freeZones call.zone) reg others
  window : call.Valid → call.Window r
  resNonEmpty : ∀ z, NonEmptyRegions (m'.resZones z)
  reserved : ∀ p, Covers (m'.resZones call.zone) p ↔
    Covers (m.resZones call.zone) p ∨ (r ≤ p ∧ p < r + call.size)
  others : ∀ z ≠ call.zone, m'.freeZones z = m.freeZones z ∧ m'.resZones z = m.resZones z

section Step

variable {R : Region → Region → Prop} {m m' : BootMem}

/-- `logAllocation` where it returns. -/
theorem logAllocation_ok {pAddr size : ℕ} {freeable : Bool}
    (h : logAllocation m pAddr size freeable = .ok m') :
    m' = { m with allocations := m.allocations ++ [⟨pAddr, size, freeable⟩] } := by
  unfold logAllocation at h
  split at h
  · cases h
  · exact (Except.ok.inj h).symm

theorem BootMem.setFree_self (m : BootMem) (zone : Zone) (regions : List Region) :
    (m.setFree zone regions).freeZones zone = regions := if_pos rfl

theorem BootMem.setFree_of_ne (m : BootMem) {zone z : Zone} (regions : List Region) (h : z ≠ zone) :
    (m.setFree zone regions).freeZones z = m.freeZones z := if_neg h

theorem bootAlloc_spec (hm : ZoneTables R m) {size : ℕ} {zone : Zone} {freeable : Bool} {ret : ℕ}
    (hpos : 0 < size)
    (h : bootAlloc size zone freeable m = .ok (ret, m')) :
    (ret = 0 ∧ m' = m) ∨ Allocates (.alloc size zone freeable) ret m m' := by
  unfold bootAlloc at h
  split at h
  · exact .inl (by simpa using (Prod.mk.inj (Except.ok.inj h)).imp Eq.symm Eq.symm)
  · split at h
    · exact .inl (by simpa using (Prod.mk.inj (Except.ok.inj h)).imp Eq.symm Eq.symm)
    next i reg r hfind =>
      obtain ⟨hget, htest⟩ := findLast_some hfind
      obtain ⟨hi, hperm⟩ := perm_of_getElem? hget
      have hreg : reg ∈ m.freeZones zone := hperm.mem_iff.mpr List.mem_cons_self
      obtain ⟨hlow, hhigh⟩ := hm.inZone zone reg hreg
      obtain ⟨hret, hend⟩ := bootAllocIn_some (hm.nonEmpty zone reg hreg)
        (hhigh.trans_lt zone.stop_lt) htest
      simp only [bind_eq_ok] at h
      obtain ⟨resZones, hres, m₁, hlog, hout⟩ := h
      obtain ⟨rfl, rfl⟩ := Prod.mk.inj (Except.ok.inj hout)
      obtain ⟨hresNe, hresOthers, hresBytes⟩ :=
        addToZones_spec hm.reserved (hlow.trans hret) (by omega) hpos hres
      rw [logAllocation_ok hlog]
      right
      refine ⟨hpos, ⟨reg, (m.freeZones zone).eraseIdx i, hperm, hret, hend.le, ?_⟩, fun _ => trivial,
        hresNe, hresBytes, fun z hz => ⟨BootMem.setFree_of_ne _ _ hz, hresOthers z hz⟩⟩
      -- nothing is left above the block
      have hwithout : reg.without r (r + size) =
          [⟨reg.start, r⟩].filter fun rest => rest.start < rest.stop := by
        unfold Region.without
        rw [hend, List.filter_cons, List.filter_cons, List.filter_cons]
        simp
      show ((BootMem.setFree _ zone _).freeZones zone).Perm _
      rw [BootMem.setFree_self]
      show List.Perm _ (reg.without r (r + size) ++ _)
      rw [hwithout]
      exact shorten_perm hi (by omega)

theorem appendRemainder_ok {regions regions' : List Region} {allocEnd regEnd : ℕ}
    (h : appendRemainder regions allocEnd regEnd = .ok regions') :
    regions' = regions ++ [⟨allocEnd, regEnd⟩].filter fun rest => rest.start < rest.stop := by
  unfold appendRemainder at h
  split at h
  next hlt =>
    split at h
    · cases h
    · rw [List.filter_cons_of_pos (by simpa using hlt), List.filter_nil]
      exact (Except.ok.inj h).symm
  next hge =>
    rw [List.filter_cons_of_neg (by simpa using hge), List.filter_nil, List.append_nil]
    exact (Except.ok.inj h).symm

theorem bootAllocAt_spec (hm : ZoneTables R m) {size : ℕ} {zone : Zone} {freeable : Bool}
    {start stop : ℕ} {align : ℤ} {ret : ℕ}
    (hwrap : (BootCall.allocAt size zone freeable start stop align).NoWrap m)
    (h : bootAllocAt size zone freeable start stop align m = .ok (ret, m')) :
    (ret = 0 ∧ m' = m) ∨ Allocates (.allocAt size zone freeable start stop align) ret m m' := by
  unfold bootAllocAt at h
  split at h
  · exact .inl (by simpa using (Prod.mk.inj (Except.ok.inj h)).imp Eq.symm Eq.symm)
  next hargs =>
    have hpos : 0 < size := Nat.pos_of_ne_zero fun hzero => hargs (.inr (.inl hzero))
    split at h
    · exact .inl (by simpa using (Prod.mk.inj (Except.ok.inj h)).imp Eq.symm Eq.symm)
    next i reg r hfind =>
      obtain ⟨_, hget, htest⟩ := findFirst_some _ hfind
      rw [Nat.sub_zero] at hget
      obtain ⟨hi, hperm⟩ := perm_of_getElem? hget
      have hreg : reg ∈ m.freeZones zone := hperm.mem_iff.mpr List.mem_cons_self
      obtain ⟨hlow, hhigh⟩ := hm.inZone zone reg hreg
      have hzone := zone.stop_lt
      obtain ⟨hmeet, hat, hret, hend, hwin₁, hwin₂⟩ := bootAllocAtIn_some (hwrap reg hreg) htest
      simp only [bind_eq_ok] at h
      obtain ⟨resZones, hres, m₁, hlog, free, hfree, hout⟩ := h
      obtain ⟨rfl, rfl⟩ := Prod.mk.inj (Except.ok.inj hout)
      obtain ⟨hresNe, hresOthers, hresBytes⟩ :=
        addToZones_spec hm.reserved (hlow.trans hret) (by omega) hpos hres
      obtain rfl := logAllocation_ok hlog
      dsimp only at hfree
      rw [add32_eq (by omega)] at hfree
      right
      refine ⟨hpos, ⟨reg, (m.freeZones zone).eraseIdx i, hperm, hret, hend, ?_⟩, fun hvalid => ?_,
        hresNe, hresBytes, fun z hz => ⟨BootMem.setFree_of_ne _ _ hz, hresOthers z hz⟩⟩
      swap
      · obtain ⟨-, hstart, hstop, halign⟩ := hvalid
        obtain ⟨-, -, -, hdvd⟩ := windowStart_spec (hmeet.trans hstop) hstart halign
        exact ⟨hwin₁, hwin₂, hat ▸ hdvd⟩
      show ((BootMem.setFree _ zone _).freeZones zone).Perm _
      rw [BootMem.setFree_self, appendRemainder_ok hfree]
      refine (sortRegions_perm _).trans ((shorten_perm ?_ (by omega)).trans ?_)
      · rw [List.length_append]
        omega
      · -- the remainder above the block sits at the end of the table
        rw [List.eraseIdx_append_of_lt_length hi]
        show List.Perm _ (reg.without r (r + size) ++ _)
        have hwithout : reg.without r (r + size) =
            [⟨reg.start, r⟩].filter (fun rest => rest.start < rest.stop) ++
              [⟨r + size, reg.stop⟩].filter fun rest => rest.start < rest.stop := by
          rw [← List.filter_append]
          rfl
        rw [hwithout, List.append_assoc]
        exact (List.perm_append_comm).append_left _

/-- **What a call does**: it returns `NULL` and changes nothing, or it allocates. -/
theorem bootStep_spec (hm : ZoneTables R m) {call : BootCall} {ret : ℕ} (hwrap : call.NoWrap m)
    (h : bootStep m call = .ok (ret, m')) : (ret = 0 ∧ m' = m) ∨ Allocates call ret m m' := by
  cases call with
  | alloc size zone freeable => exact bootAlloc_spec hm hwrap h
  | allocAt size zone freeable start stop align => exact bootAllocAt_spec hm hwrap h

/-- A relation that survives cuts holds between the free regions of every zone after a call. -/
theorem Allocates.zoneTables (hR : CutRel R) (hm : ZoneTables R m) {call : BootCall} {ret : ℕ}
    (h : Allocates call ret m m') : ZoneTables R m' := by
  obtain ⟨reg, others, hcut⟩ := h.cut
  refine ⟨fun z => ?_, fun z => ?_, fun z => ?_, h.resNonEmpty⟩
  · by_cases hz : z = call.zone
    · rw [hz]
      exact hcut.forall_mem (hm.nonEmpty call.zone) fun rest _ _ hlt _ => hlt
    · rw [(h.others z hz).1]
      exact hm.nonEmpty z
  · by_cases hz : z = call.zone
    · rw [hz]
      exact hcut.pairwise hR h.size_pos (hm.related call.zone)
    · rw [(h.others z hz).1]
      exact hm.related z
  · by_cases hz : z = call.zone
    · rw [hz]
      refine hcut.forall_mem (hm.inZone call.zone) fun rest hlow hhigh _ hreg => ?_
      exact ⟨hreg.1.trans hlow, hhigh.trans hreg.2⟩
    · rw [(h.others z hz).1]
      exact hm.inZone z

end Step

/-! ## Runs -/

/-- The allocator and the blocks that the calls of the run have returned. -/
structure BootRun where
  mem : BootMem
  blocks : List (ℕ × ℕ)

/-- The bytes of a block, given as address and size. -/
def InBlock (b : ℕ × ℕ) (p : ℕ) : Prop := b.1 ≤ p ∧ p < b.1 + b.2

/-- The byte is in a free region of some zone. -/
def BootMem.FreeByte (m : BootMem) (p : ℕ) : Prop := ∃ z, Covers (m.freeZones z) p

/-- No free region has address 0. -/
def BootMem.NullReserved (m : BootMem) : Prop := ∀ z, ∀ reg ∈ m.freeZones z, 0 < reg.start

/-- The runs from a given state. -/
def bootSystem (m₀ : BootMem) : System BootRun BootCall where
  init r := r.mem = m₀ ∧ r.blocks = []
  step r call r' := call.NoWrap r.mem ∧ ∃ ret m', bootStep r.mem call = .ok (ret, m') ∧
    r' = { mem := m', blocks := if ret = 0 then r.blocks else (ret, call.size) :: r.blocks }

/-- What a run keeps. -/
structure BootRun.Inv (R : Region → Region → Prop) (r : BootRun) : Prop where
  tables : ZoneTables R r.mem
  taken : ∀ b ∈ r.blocks, ∀ p, InBlock b p → ¬ r.mem.FreeByte p
  disjoint : r.blocks.Pairwise fun b c => ∀ p, InBlock b p → ¬ InBlock c p

section Runs

variable {R : Region → Region → Prop} {m₀ : BootMem} {r r' : BootRun}

/-- The regions of two zones have no byte in common. -/
theorem ZoneTables.zone_of_covers {m : BootMem} (hm : ZoneTables R m) {z : Zone} {p : ℕ}
    (h : Covers (m.freeZones z) p) : z = getAddrZone p := by
  obtain ⟨reg, hreg, hp⟩ := h
  obtain ⟨hlow, hhigh⟩ := hm.inZone z reg hreg
  exact (getAddrZone_eq (hlow.trans hp.1) (hp.2.trans_le hhigh)).symm

/-- The bytes of the block were free before the call. -/
theorem Allocates.was_free {m m' : BootMem} {call : BootCall} {ret p : ℕ}
    (h : Allocates call ret m m') (hp : InBlock (ret, call.size) p) :
    Covers (m.freeZones call.zone) p := by
  obtain ⟨reg, others, hcut⟩ := h.cut
  have hlow := hcut.low
  have hhigh := hcut.high
  obtain ⟨h₁, h₂⟩ := hp
  exact ⟨reg, hcut.reg_mem, hlow.trans h₁, h₂.trans_le hhigh⟩

/-- The free bytes after a call are those before it that are not in the block. -/
theorem Allocates.freeByte {m m' : BootMem} (hm : ZoneTables Region.Apart m) {call : BootCall}
    {ret : ℕ} (h : Allocates call ret m m') (p : ℕ) :
    m'.FreeByte p ↔ m.FreeByte p ∧ ¬ InBlock (ret, call.size) p := by
  obtain ⟨reg, others, hcut⟩ := h.cut
  have hbytes := hcut.covers (hm.related call.zone) p
  constructor
  · rintro ⟨z, hz⟩
    by_cases heq : z = call.zone
    · rw [heq, hbytes] at hz
      exact ⟨⟨call.zone, hz.1⟩, hz.2⟩
    · rw [(h.others z heq).1] at hz
      refine ⟨⟨z, hz⟩, fun hp => heq ?_⟩
      -- the block lies in the zone of the call
      rw [hm.zone_of_covers hz, hm.zone_of_covers (h.was_free hp)]
  · rintro ⟨⟨z, hz⟩, hout⟩
    refine ⟨z, ?_⟩
    by_cases heq : z = call.zone
    · rw [heq] at hz ⊢
      exact hbytes.mpr ⟨hz, hout⟩
    · rw [(h.others z heq).1]
      exact hz

theorem Allocates.nullReserved {m m' : BootMem} (hnull : m.NullReserved) {call : BootCall} {ret : ℕ}
    (h : Allocates call ret m m') : m'.NullReserved ∧ ret ≠ 0 := by
  obtain ⟨reg, others, hcut⟩ := h.cut
  refine ⟨fun z => ?_, ?_⟩
  · by_cases hz : z = call.zone
    · rw [hz]
      exact hcut.forall_mem (hnull call.zone) fun rest hlow _ _ hreg => hreg.trans_le hlow
    · rw [(h.others z hz).1]
      exact hnull z
  · have := hnull call.zone reg hcut.reg_mem
    have := hcut.low
    omega

theorem ZoneTables.apart {m : BootMem} (hR : ∀ a b, R a b → a.Apart b) (hm : ZoneTables R m) :
    ZoneTables Region.Apart m :=
  ⟨hm.nonEmpty, fun z => (hm.related z).imp fun {a b} => hR a b, hm.inZone, hm.reserved⟩

/-- **What a call does to a run.** -/
theorem BootRun.Inv.step (hcut : CutRel R) (hR : ∀ a b, R a b → a.Apart b) (h : r.Inv R)
    {call : BootCall} (hstep : (bootSystem m₀).step r call r') : r'.Inv R := by
  obtain ⟨hwrap, ret, m', hrun, rfl⟩ := hstep
  rcases bootStep_spec h.tables hwrap hrun with ⟨rfl, rfl⟩ | halloc
  · simpa using h
  · have hbytes := halloc.freeByte (h.tables.apart hR)
    have htables := halloc.zoneTables hcut h.tables
    have hold : ∀ b ∈ r.blocks, ∀ p, InBlock b p → ¬ m'.FreeByte p :=
      fun b hb p hp hfree => h.taken b hb p hp ((hbytes p).mp hfree).1
    by_cases hret : ret = 0
    · -- a block at address 0 is not seen by the caller
      simp only [if_pos hret]
      exact ⟨htables, hold, h.disjoint⟩
    · simp only [if_neg hret]
      refine ⟨htables, fun b hb p hp hfree => ?_, ?_⟩
      · rcases List.mem_cons.mp hb with rfl | hb
        · exact ((hbytes p).mp hfree).2 hp
        · exact hold b hb p hp hfree
      · refine List.pairwise_cons.mpr ⟨fun b hb p hp hpb => ?_, h.disjoint⟩
        exact h.taken b hb p hpb ⟨call.zone, halloc.was_free hp⟩

theorem BootRun.Inv.of_reachable (hcut : CutRel R) (hR : ∀ a b, R a b → a.Apart b)
    (hm₀ : ZoneTables R m₀) (hr : (bootSystem m₀).Reachable r) : r.Inv R := by
  apply hr.invariant
  · rintro r₀ ⟨rfl, hblocks⟩
    refine ⟨hm₀, ?_, ?_⟩
    · rw [hblocks]
      exact fun b hb => absurd hb (by simp)
    · rw [hblocks]
      exact List.Pairwise.nil
  · exact fun r₁ call r₂ h hstep => h.step hcut hR hstep

/-- Address 0 stays reserved. -/
theorem nullReserved_of_reachable (hm₀ : ZoneTables Region.Apart m₀) (hnull : m₀.NullReserved)
    (hr : (bootSystem m₀).Reachable r) : r.mem.NullReserved := by
  have hall : ZoneTables Region.Apart r.mem ∧ r.mem.NullReserved := by
    apply hr.invariant
    · rintro r₀ ⟨rfl, -⟩
      exact ⟨hm₀, hnull⟩
    · rintro r₁ call r₂ ⟨htables, hnull₁⟩ ⟨hwrap, ret, m', hrun, rfl⟩
      rcases bootStep_spec htables hwrap hrun with ⟨-, rfl⟩ | halloc
      · exact ⟨htables, hnull₁⟩
      · exact ⟨halloc.zoneTables cutRel_apart htables, (halloc.nullReserved hnull₁).1⟩
  exact hall.2

end Runs

/-- **Conservation.** Start from free regions that are non-empty, pairwise disjoint and inside their
zone, none of which has address 0. In every state of every run the free regions are still so and the
blocks returned so far are pairwise disjoint. A call that returns `NULL` changes nothing. A call
that returns `ret` took `[ret, ret + size)` from one free region of its zone, within its window;
exactly these bytes left the free regions of the zone and joined the reserved ones, no other zone
changed, and the block is disjoint from the blocks before. -/
theorem boot_alloc_conserves {m₀ : BootMem} (hm₀ : ZoneTables Region.Apart m₀)
    (hnull : m₀.NullReserved) {r : BootRun} (hr : (bootSystem m₀).Reachable r) :
    ZoneTables Region.Apart r.mem ∧
    (r.blocks.Pairwise fun b c => ∀ p, InBlock b p → ¬ InBlock c p) ∧
    ∀ call ret m', call.Valid → bootStep r.mem call = .ok (ret, m') →
      (ret = 0 → m' = r.mem) ∧
      (ret ≠ 0 →
        (∃ reg ∈ r.mem.freeZones call.zone, reg.start ≤ ret ∧ ret + call.size ≤ reg.stop) ∧
        call.Window ret ∧
        (∀ p, Covers (m'.freeZones call.zone) p ↔
          Covers (r.mem.freeZones call.zone) p ∧ ¬ InBlock (ret, call.size) p) ∧
        (∀ p, Covers (m'.resZones call.zone) p ↔
          Covers (r.mem.resZones call.zone) p ∨ InBlock (ret, call.size) p) ∧
        (∀ z ≠ call.zone, m'.freeZones z = r.mem.freeZones z ∧
          m'.resZones z = r.mem.resZones z) ∧
        ∀ b ∈ r.blocks, ∀ p, InBlock b p → ¬ InBlock (ret, call.size) p) := by
  have hinv := BootRun.Inv.of_reachable cutRel_apart (fun _ _ h => h) hm₀ hr
  have hnull' := nullReserved_of_reachable hm₀ hnull hr
  refine ⟨hinv.tables, hinv.disjoint, fun call ret m' hvalid hrun => ?_⟩
  rcases bootStep_spec hinv.tables (hvalid.noWrap _) hrun with ⟨rfl, rfl⟩ | halloc
  · exact ⟨fun _ => rfl, fun hne => absurd rfl hne⟩
  · refine ⟨fun hzero => absurd hzero (halloc.nullReserved hnull').2, fun _ => ?_⟩
    obtain ⟨reg, others, hcut⟩ := halloc.cut
    refine ⟨⟨reg, hcut.reg_mem, hcut.low, hcut.high⟩, halloc.window hvalid,
      hcut.covers (hinv.tables.related call.zone), halloc.reserved, halloc.others,
      fun b hb p hp hpb => ?_⟩
    exact hinv.taken b hb p hp ⟨call.zone, halloc.was_free hpb⟩

/-- Free memory from 1 MiB to 16 MiB. -/
def dmaBoot : BootMem :=
  { BootMem.zero with freeZones := fun z => if z = .dma then [⟨0x100000, 0x1000000⟩] else [] }

theorem dmaBoot_tables : ZoneTables Region.Apart dmaBoot where
  nonEmpty z := by cases z <;> simp [dmaBoot, NonEmptyRegions]
  related z := by cases z <;> simp [dmaBoot]
  inZone z := by cases z <;> simp [dmaBoot, Zone.start, Zone.stop, lowmemStart]
  reserved z := by simp [dmaBoot, BootMem.zero, NonEmptyRegions]

/-- The page directory of `vmm_finalize`, taken from the start of the region. -/
theorem boot_alloc_conserves_pageDirectory : ∃ m',
    bootStep dmaBoot (.allocAt 4096 .dma true 0 0x400000 4096) = .ok (0x100000, m') ∧
    (∀ p, Covers (m'.freeZones .dma) p ↔
      Covers (dmaBoot.freeZones .dma) p ∧ ¬ InBlock (0x100000, 4096) p) ∧
    m'.freeZones .dma = [⟨0x101000, 0x1000000⟩] := by
  have hrun : (bootStep dmaBoot (.allocAt 4096 .dma true 0 0x400000 4096)).toOption.map
      (fun out => (out.1, out.2.freeZones .dma)) = some (0x100000, [⟨0x101000, 0x1000000⟩]) := by
    decide +kernel
  obtain ⟨⟨ret, m'⟩, hstep, hout⟩ := exists_ok_of_toOption_map hrun
  obtain ⟨rfl, hfree⟩ := Prod.mk.inj hout
  have hvalid : (BootCall.allocAt 4096 .dma true 0 0x400000 4096).Valid :=
    ⟨⟨by norm_num, by norm_num⟩, by norm_num, by norm_num, .inr ⟨12, by norm_num, by norm_num⟩⟩
  have hnull : dmaBoot.NullReserved := by
    intro z
    cases z <;> simp [dmaBoot]
  have hall := (boot_alloc_conserves dmaBoot_tables hnull
    (r := { mem := dmaBoot, blocks := [] }) (.init ⟨rfl, rfl⟩)).2.2 _ _ m' hvalid hstep
  exact ⟨m', hstep, (hall.2 (by decide)).2.2.1, hfree⟩

/-- The same call where the first page is free: the block is at address 0, so the caller reads
`NULL` and the page is gone. -/
theorem boot_alloc_nullPage : ¬ ∀ (m m' : BootMem) (call : BootCall) (ret : ℕ),
    ZoneTables Region.Apart m → call.Valid → bootStep m call = .ok (ret, m') →
    ret = 0 → m' = m := by
  intro hall
  let m : BootMem :=
    { BootMem.zero with freeZones := fun z => if z = .dma then [⟨0, 0x2000⟩] else [] }
  have htables : ZoneTables Region.Apart m := {
    nonEmpty := fun z => by cases z <;> simp [m, NonEmptyRegions]
    related := fun z => by cases z <;> simp [m]
    inZone := fun z => by cases z <;> simp [m, Zone.start, Zone.stop, lowmemStart]
    reserved := fun z => by simp [m, BootMem.zero, NonEmptyRegions] }
  have hvalid : (BootCall.allocAt 4096 .dma true 0 0x400000 4096).Valid :=
    ⟨⟨by norm_num, by norm_num⟩, by norm_num, by norm_num, .inr ⟨12, by norm_num, by norm_num⟩⟩
  have hrun : (bootStep m (.allocAt 4096 .dma true 0 0x400000 4096)).toOption.map
      (fun out => (out.1, out.2.freeZones .dma)) = some (0, [⟨0x1000, 0x2000⟩]) := by
    decide +kernel
  obtain ⟨⟨ret, m'⟩, hstep, hout⟩ := exists_ok_of_toOption_map hrun
  obtain ⟨hret, hfree⟩ := Prod.mk.inj hout
  have hsame := hall m m' _ ret htables hvalid hstep hret
  rw [hsame] at hfree
  simp [m] at hfree

end Kfs.Memory
