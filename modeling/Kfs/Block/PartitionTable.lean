import Kfs.Block.Partitions
import Mathlib.Data.List.Perm.Subperm
import Mathlib.Data.List.Range
import Mathlib.Tactic.Common

/-!
# Registration follows the table

`mbr_parse` stores a used entry under its number in the table and counts the used entries, and
`add_disk` reads the first of the stored ones up to that count. The two agree exactly if the used
entries come first in the table: otherwise one of the entries read is not stored, and what the stack
held there is registered.
-/

namespace Kfs.Block

/-! ## Used entries -/

/-- The entries of the table with a partition type. -/
def used (sector : Buffer) : List ℕ :=
  (List.range mbrMaxPartitions).filter fun i => partitionType sector i ≠ 0

/-- The partitions of a boot sector. -/
def partitionsOf (sector : Buffer) : List ℕ :=
  if signature sector = mbrSignature then used sector else []

/-- No used entry comes after an empty one. -/
def UsedFirst (sector : Buffer) : Prop :=
  ∀ j < mbrMaxPartitions, ∀ i < j, partitionType sector j ≠ 0 → partitionType sector i ≠ 0

instance (sector : Buffer) : Decidable (UsedFirst sector) :=
  inferInstanceAs (Decidable (∀ j < mbrMaxPartitions, ∀ i < j, _ → _))

/-- Two buffers hold the same sector. -/
def SameSector (sector sector' : Buffer) : Prop := ∀ a < 512, sector a = sector' a

section Sectors

variable {sector sector' : Buffer}

theorem mbrEntry_add_lt {i off : ℕ} (hi : i < mbrMaxPartitions) (hoff : off < mbrPartitionSize) :
    mbrEntry i + off < 512 := by
  unfold mbrEntry mbrPartitionGap
  unfold mbrMaxPartitions at hi
  unfold mbrPartitionSize at hoff ⊢
  omega

theorem SameSector.partitionType (h : SameSector sector sector') {i : ℕ}
    (hi : i < mbrMaxPartitions) : partitionType sector i = partitionType sector' i :=
  h _ (mbrEntry_add_lt hi (by decide))

theorem SameSector.partitionRange (h : SameSector sector sector') {i : ℕ}
    (hi : i < mbrMaxPartitions) : partitionRange sector i = partitionRange sector' i := by
  have hbyte : ∀ off < mbrPartitionSize, sector (mbrEntry i + off) = sector' (mbrEntry i + off) :=
    fun off hoff => h _ (mbrEntry_add_lt hi hoff)
  simp only [Block.partitionRange, readDword, Nat.add_assoc]
  rw [hbyte 8 (by decide), hbyte (8 + 1) (by decide), hbyte (8 + 2) (by decide),
    hbyte (8 + 3) (by decide), hbyte 12 (by decide), hbyte (12 + 1) (by decide),
    hbyte (12 + 2) (by decide), hbyte (12 + 3) (by decide)]

theorem SameSector.signature (h : SameSector sector sector') :
    signature sector = signature sector' := by
  unfold Block.signature
  rw [h _ (by decide), h _ (by decide)]

theorem SameSector.used (h : SameSector sector sector') : used sector = used sector' := by
  apply List.filter_congr
  intro i hi
  rw [h.partitionType (List.mem_range.mp hi)]

end Sectors

/-! ## Filtered ranges -/

section Prefix

variable {p : ℕ → Bool} {n : ℕ}

/-- If the numbers kept come first, they are a range. -/
theorem filter_range_of_closed (h : ∀ i j, i < j → j < n → p j = true → p i = true) :
    (List.range n).filter p = List.range ((List.range n).filter p).length := by
  induction n with
  | zero => rfl
  | succ n ih =>
    rw [List.range_succ, List.filter_append]
    cases hp : p n with
    | false =>
      simp only [List.filter_cons, hp, Bool.false_eq_true, if_false, List.filter_nil,
        List.append_nil]
      exact ih fun i j hij hj => h i j hij (Nat.lt_succ_of_lt hj)
    | true =>
      have hall : (List.range n).filter p = List.range n :=
        List.filter_eq_self.mpr fun i hi =>
          h i n (List.mem_range.mp hi) (Nat.lt_succ_self n) hp
      simp only [hall, List.filter_cons, hp, if_true, List.filter_nil, List.length_append,
        List.length_range, List.length_singleton, List.range_succ]

/-- If the first numbers are kept, as many as are kept in all, then they come first. -/
theorem closed_of_filter_range (h : ∀ k < ((List.range n).filter p).length, p k = true) :
    ∀ i j, i < j → j < n → p j = true → p i = true := by
  intro i j hij hj hpj
  by_contra hpi
  have hi : ((List.range n).filter p).length ≤ i := not_lt.mp fun hlt => hpi (h i hlt)
  have hlen : ((List.range n).filter p).length ≤ n := by
    calc ((List.range n).filter p).length
      _ ≤ (List.range n).length := List.length_filter_le ..
      _ = n := List.length_range
  -- the first numbers and the later one are too many
  have hsub : j :: List.range ((List.range n).filter p).length ⊆ (List.range n).filter p := by
    intro k hk
    apply List.mem_filter.mpr
    rcases List.mem_cons.mp hk with rfl | hk
    · exact ⟨List.mem_range.mpr hj, hpj⟩
    · have hk := List.mem_range.mp hk
      exact ⟨List.mem_range.mpr (hk.trans_le hlen), h k hk⟩
  have hnodup : (j :: List.range ((List.range n).filter p).length).Nodup := by
    apply List.nodup_cons.mpr
    exact ⟨fun hmem => absurd (List.mem_range.mp hmem) (by omega), List.nodup_range⟩
  have hle := (hnodup.subperm hsub).length_le
  rw [List.length_cons, List.length_range] at hle
  omega

end Prefix

/-! ## What the two loops do -/

section Loops

variable {π σ : Type} {sector : Buffer} {disk : GenericDisk π σ}

/-- The loop of `mbr_parse` counts the used entries and stores each under its number. -/
theorem mbrEntries_spec (sector : Buffer) (left : ℕ) :
    ∀ (i found : ℕ) (parts : ℕ → DiskPartition),
    (mbrEntries sector left i found parts).1 =
        found + ((List.range' i left).filter fun k => partitionType sector k ≠ 0).length ∧
      ∀ k, (mbrEntries sector left i found parts).2 k =
        if (i ≤ k ∧ k < i + left) ∧ partitionType sector k ≠ 0 then partitionRange sector k
        else parts k := by
  induction left with
  | zero =>
    intro i found parts
    exact ⟨rfl, fun k => by rw [if_neg fun h => absurd h.1 (by omega)]; rfl⟩
  | succ left ih =>
    intro i found parts
    unfold mbrEntries
    rw [List.range'_succ, List.filter_cons]
    by_cases hempty : partitionType sector i = 0
    · simp only [hempty, ne_eq, not_true_eq_false, decide_false, Bool.false_eq_true, if_true,
        if_false]
      refine ⟨(ih ..).1, fun k => ?_⟩
      rw [(ih ..).2]
      apply if_congr _ rfl rfl
      constructor
      · intro h
        exact ⟨by omega, h.2⟩
      · intro h
        have hne : k ≠ i := fun heq => h.2 (heq ▸ hempty)
        exact ⟨by omega, h.2⟩
    · simp only [hempty, ne_eq, not_false_eq_true, decide_true, if_true, if_false,
        List.length_cons]
      refine ⟨(ih ..).1.trans (by rw [Nat.add_assoc, Nat.add_comm 1]), fun k => ?_⟩
      rw [(ih ..).2]
      by_cases hk : k = i
      · subst hk
        rw [if_neg fun h => absurd h.1.1 (by omega), Function.update_self,
          if_pos ⟨by omega, hempty⟩]
      · rw [Function.update_of_ne hk]
        exact if_congr (and_congr_left' (by omega)) rfl rfl

/-- The partition that `add_disk` registers under number `i` for what `parts` holds there. -/
def partitionDevice (disk : GenericDisk π σ) (kmalloc : ℕ → ℕ) (parts : ℕ → DiskPartition) (i : ℕ) :
    BlockDevice π σ where
  addr := kmalloc (i + 1)
  name := partitionName disk.name ((partitionDigit i).getD 0)
  disk := disk
  parent := kmalloc 0
  lbaStart := (parts i).lbaStart
  nrSectors := (parts i).nrSectors

/-- The device of the disk itself. -/
def diskDevice (disk : GenericDisk π σ) (kmalloc : ℕ → ℕ) : BlockDevice π σ where
  addr := kmalloc 0
  name := disk.name.bytes
  disk := disk
  parent := 0
  lbaStart := 0
  nrSectors := disk.nrSectors

/-- The last loop of `add_disk` registers one partition for each turn. -/
theorem addPartitions_eq {kmalloc : ℕ → ℕ} (halloc : ∀ k, kmalloc k ≠ 0)
    (parts : ℕ → DiskPartition) {n : ℕ} (hn : n ≤ 16) (devices : List (BlockDevice π σ)) :
    (List.range n).foldlM (fun devices i =>
        addPartition disk (kmalloc 0) (kmalloc (i + 1)) parts i devices) devices =
      .ok (devices ++ (List.range n).map (partitionDevice disk kmalloc parts)) := by
  induction n with
  | zero => exact congrArg Except.ok (List.append_nil _).symm
  | succ n ih =>
    have hdigit : ∃ digit, partitionDigit n = some digit := by
      unfold partitionDigit
      split
      · exact ⟨_, rfl⟩
      · exact ⟨_, if_pos (by omega)⟩
    obtain ⟨digit, hdigit⟩ := hdigit
    rw [List.range_succ, List.foldlM_append, ih (by omega), List.map_append]
    simp only [List.foldlM_cons, List.foldlM_nil, List.map_cons, List.map_nil, addPartition,
      if_neg (halloc (n + 1)), hdigit, partitionDevice, Option.getD_some, ← List.append_assoc]
    rfl

/-- What `mbr_parse` finds in a sector that it could read. -/
theorem mbrParse_eq (dev : BlockDevice π σ) (parts : ℕ → DiskPartition) {garbage read : Buffer}
    {s s' : σ} {ret : ℤ}
    (hread : dev.disk.ops.readSectors dev.disk.priv 0 1 garbage s = .ok (ret, read, s'))
    (hret : ¬ ret < 0) : ∃ found : ℕ → DiskPartition,
    mbrParse dev parts 16 garbage s = .ok (((partitionsOf read).length : ℤ), found, s') ∧
      ∀ k < (partitionsOf read).length,
        found k = if partitionType read k ≠ 0 then partitionRange read k else parts k := by
  simp only [mbrParse, hread, partitionsOf]
  by_cases hsig : signature read = mbrSignature
  · obtain ⟨hcount, hstored⟩ := mbrEntries_spec read mbrMaxPartitions 0 0 parts
    rw [← List.range_eq_range', Nat.zero_add] at hcount
    refine ⟨(mbrEntries read mbrMaxPartitions 0 0 parts).2, ?_, fun k hk => ?_⟩
    · simp only [if_pos hsig, used, ← hcount]
      simp only [ok_bind, if_neg hret, hsig, ne_eq, not_true_eq_false, if_false]
      rfl
    · have hlt : k < mbrMaxPartitions := by
        rw [if_pos hsig] at hk
        calc k
          _ < (used read).length := hk
          _ ≤ (List.range mbrMaxPartitions).length := List.length_filter_le ..
          _ = mbrMaxPartitions := List.length_range
      rw [hstored k]
      exact if_congr (and_iff_right ⟨k.zero_le, by omega⟩) rfl rfl
  · refine ⟨parts, ?_, fun k hk => ?_⟩
    · simp only [ok_bind, if_neg hret, hsig, ne_eq, not_false_eq_true, if_true, if_false,
        List.length_nil]
      rfl
    · rw [if_neg hsig] at hk
      exact absurd hk (Nat.not_lt_zero k)

/-- **`add_disk` on a sector that could be read**: as many partitions as the sector has, and those
that `mbr_parse` has not stored are what the stack held. -/
theorem addDisk_eq {kmalloc : ℕ → ℕ} (halloc : ∀ k, kmalloc k ≠ 0) {garbage read : Buffer}
    {s s' : σ} {ret : ℤ} (hread : disk.ops.readSectors disk.priv 0 1 garbage s = .ok (ret, read, s'))
    (hret : ¬ ret < 0) (stale : ℕ → DiskPartition) (devices : List (BlockDevice π σ)) :
    addDisk disk kmalloc garbage stale devices s = .ok (0, devices ++ diskDevice disk kmalloc ::
      (List.range (partitionsOf read).length).map (partitionDevice disk kmalloc fun k =>
        if partitionType read k ≠ 0 then partitionRange read k else stale k), s') := by
  obtain ⟨found, hparse, hfound⟩ := mbrParse_eq (diskDevice disk kmalloc) stale hread hret
  have hlen : (partitionsOf read).length ≤ 16 := by
    unfold partitionsOf
    split
    · calc (used read).length
        _ ≤ (List.range mbrMaxPartitions).length := List.length_filter_le ..
        _ ≤ 16 := by decide
    · exact Nat.zero_le 16
  have hmap : (List.range (partitionsOf read).length).map (partitionDevice disk kmalloc found) =
      (List.range (partitionsOf read).length).map (partitionDevice disk kmalloc fun k =>
        if partitionType read k ≠ 0 then partitionRange read k else stale k) := by
    apply List.map_congr_left
    intro k hk
    simp only [partitionDevice, hfound k (List.mem_range.mp hk)]
  unfold diskDevice at hparse
  unfold addDisk
  simp only [if_neg (halloc 0), hparse, ok_bind, Int.toNat_natCast, addPartitions_eq halloc found hlen, hmap,
    List.append_assoc, List.singleton_append, diskDevice]

end Loops

/-! ## Registration -/

section Registration

variable {π σ : Type}

/-- `parts` are the partitions of a sector, in the order of the table, with the device at `dev` as
their parent. -/
def FollowsTable (sector : Buffer) (dev : ℕ) (parts : List (BlockDevice π σ)) : Prop :=
  parts.map (fun part => (part.parent, DiskPartition.mk part.lbaStart part.nrSectors)) =
    (partitionsOf sector).map fun i => (dev, partitionRange sector i)

/-- `add_disk` registers the disk and behind it the partitions of its boot sector, whatever the local
arrays hold at the start. -/
def RegistersTable (disk : GenericDisk π σ) (kmalloc : ℕ → ℕ) (sector : Buffer)
    (devices : List (BlockDevice π σ)) (s : σ) : Prop :=
  ∀ (garbage : Buffer) (stale : ℕ → DiskPartition),
    ∃ (device : BlockDevice π σ) (parts : List (BlockDevice π σ)) (s' : σ),
    addDisk disk kmalloc garbage stale devices s = .ok (0, devices ++ device :: parts, s') ∧
      device.disk = disk ∧ device.parent = 0 ∧ device.lbaStart = 0 ∧
      device.nrSectors = disk.nrSectors ∧ (∀ part ∈ parts, part.disk = disk) ∧
      FollowsTable sector device.addr parts

variable {disk : GenericDisk π σ} {kmalloc : ℕ → ℕ} {sector read : Buffer}

theorem SameSector.partitionsOf (h : SameSector sector read) :
    partitionsOf sector = partitionsOf read := by
  unfold Block.partitionsOf
  rw [h.signature, h.used]

/-- The registered partitions follow the table exactly if each one was stored. -/
theorem followsTable_iff (hsame : SameSector sector read) (stale : ℕ → DiskPartition) :
    FollowsTable sector (kmalloc 0) ((List.range (partitionsOf read).length).map
        (partitionDevice disk kmalloc fun k =>
          if partitionType read k ≠ 0 then partitionRange read k else stale k)) ↔
      (List.range (partitionsOf sector).length).map (fun k =>
          if partitionType sector k ≠ 0 then partitionRange sector k else stale k) =
        (partitionsOf sector).map (partitionRange sector) := by
  have hlt : ∀ k < (partitionsOf sector).length, k < mbrMaxPartitions := by
    intro k hk
    have hle : (partitionsOf sector).length ≤ mbrMaxPartitions := by
      unfold partitionsOf
      split
      · calc (used sector).length
          _ ≤ (List.range mbrMaxPartitions).length := List.length_filter_le ..
          _ = mbrMaxPartitions := List.length_range
      · exact Nat.zero_le _
    exact hk.trans_le hle
  have hpairs : ∀ xs ys : List DiskPartition, xs.map (Prod.mk (kmalloc 0)) =
      ys.map (Prod.mk (kmalloc 0)) ↔ xs = ys := fun xs ys =>
    (List.map_injective_iff.mpr fun a b h => (Prod.mk.inj h).2).eq_iff
  have hread : (List.range (partitionsOf sector).length).map (fun k =>
        if partitionType read k ≠ 0 then partitionRange read k else stale k) =
      (List.range (partitionsOf sector).length).map fun k =>
        if partitionType sector k ≠ 0 then partitionRange sector k else stale k := by
    apply List.map_congr_left
    intro k hk
    have hk := hlt k (List.mem_range.mp hk)
    rw [hsame.partitionType hk, hsame.partitionRange hk]
  unfold FollowsTable
  rw [← hsame.partitionsOf, List.map_map, ← hread, ← hpairs, List.map_map, List.map_map]
  rfl

/-- **Registration follows the table** exactly if the used entries come first in it: for every sector
that the disk can read, and while the allocations succeed. Without the signature there are no
partitions. -/
theorem registersTable_iff (halloc : ∀ k, kmalloc k ≠ 0) {s : σ}
    (hread : ∀ garbage, ∃ (ret : ℤ) (read : Buffer) (s' : σ),
      disk.ops.readSectors disk.priv 0 1 garbage s = .ok (ret, read, s') ∧ 0 ≤ ret ∧
        SameSector sector read)
    (devices : List (BlockDevice π σ)) :
    RegistersTable disk kmalloc sector devices s ↔
      (signature sector = mbrSignature → UsedFirst sector) := by
  have hrun : ∀ (garbage : Buffer) (stale : ℕ → DiskPartition), ∃ (read : Buffer) (s' : σ),
      SameSector sector read ∧
      addDisk disk kmalloc garbage stale devices s = .ok (0, devices ++ diskDevice disk kmalloc ::
        (List.range (partitionsOf read).length).map (partitionDevice disk kmalloc fun k =>
          if partitionType read k ≠ 0 then partitionRange read k else stale k), s') := by
    intro garbage stale
    obtain ⟨ret, read, s', hrd, hret, hsame⟩ := hread garbage
    exact ⟨read, s', hsame, addDisk_eq halloc hrd (Int.not_lt.mpr hret) stale devices⟩
  constructor
  · intro hall hsig
    -- two different stacks, and both times the partitions of the table
    have hstored : ∀ stale : ℕ → DiskPartition, (List.range (partitionsOf sector).length).map
        (fun k => if partitionType sector k ≠ 0 then partitionRange sector k else stale k) =
          (partitionsOf sector).map (partitionRange sector) := by
      intro stale
      obtain ⟨read, s', hsame, heq⟩ := hrun (fun _ => 0) stale
      obtain ⟨device, parts, s'', hadd, -, -, -, -, -, hfollows⟩ := hall (fun _ => 0) stale
      have hlist := (Prod.mk.inj (Prod.mk.inj (Except.ok.inj (heq.symm.trans hadd))).2).1
      obtain ⟨hdev, hparts⟩ := List.cons.inj (List.append_cancel_left hlist)
      rw [← hdev, ← hparts] at hfollows
      exact (followsTable_iff hsame stale).mp hfollows
    have hparts : partitionsOf sector = used sector := if_pos hsig
    rw [hparts] at hstored
    have hfirst : ∀ k < (used sector).length, partitionType sector k ≠ 0 := by
      intro k hk hempty
      have heq := (hstored fun _ => ⟨0, 0⟩).trans (hstored fun _ => ⟨1, 0⟩).symm
      have hk := List.map_inj_left.mp heq k (List.mem_range.mpr hk)
      rw [if_neg (not_not.mpr hempty), if_neg (not_not.mpr hempty)] at hk
      exact absurd (congrArg DiskPartition.lbaStart hk) (by decide)
    intro j hj i hij hused
    have hclosed := closed_of_filter_range (n := mbrMaxPartitions)
      (p := fun k => partitionType sector k ≠ 0) (fun k hk => decide_eq_true (hfirst k hk))
    exact of_decide_eq_true (hclosed i j hij hj (decide_eq_true hused))
  · intro hused garbage stale
    obtain ⟨read, s', hsame, heq⟩ := hrun garbage stale
    refine ⟨_, _, s', heq, rfl, rfl, rfl, rfl, ?_, (followsTable_iff hsame stale).mpr ?_⟩
    · intro part hpart
      obtain ⟨k, -, rfl⟩ := List.mem_map.mp hpart
      rfl
    · by_cases hsig : signature sector = mbrSignature
      · have hrange : partitionsOf sector = List.range (partitionsOf sector).length := by
          rw [show partitionsOf sector = used sector from if_pos hsig]
          apply filter_range_of_closed
          intro i j hij hj hj'
          exact decide_eq_true (hused hsig j hj i hij (of_decide_eq_true hj'))
        conv_rhs => rw [hrange]
        apply List.map_congr_left
        intro k hk
        rw [← hrange] at hk
        rw [show partitionsOf sector = used sector from if_pos hsig] at hk
        exact if_pos (of_decide_eq_true (List.mem_filter.mp hk).2)
      · rw [show partitionsOf sector = [] from if_neg hsig]
        rfl

end Registration

/-! ## A disk in memory -/

/-- The operations of a disk that is a list of bytes. -/
def imageOps : DiskOps (List UInt8) Unit where
  readSectors image lba count buf s := .ok (0, fun a =>
    if a < 512 * count.toNat then image.getD (512 * lba.toNat + a) 0 else buf a, s)
  writeSectors _ _ _ _ s := .ok (0, s)

/-- The disk `hd0` with an image. -/
def imageDisk (image : List UInt8) : GenericDisk (List UInt8) Unit where
  name := hd0
  nrSectors := 64
  ops := imageOps
  priv := image

/-- A boot sector with the given types in its four entries; entry `i` begins at sector `i + 1` and
has two sectors. -/
def bootSector (types : List UInt8) : List UInt8 :=
  List.replicate 446 0 ++ (List.range 4).flatMap (fun i =>
    [0x80, 0, 0, 0, types.getD i 0, 0, 0, 0, UInt8.ofNat (i + 1), 0, 0, 0, 2, 0, 0, 0]) ++
    [0x55, 0xAA]

/-- The bytes of a disk from its first sector on. -/
def sectorOf (image : List UInt8) : Buffer := fun a => image.getD a 0

/-- A disk with two partitions. -/
theorem registersTable_twoPartitions :
    RegistersTable (imageDisk (bootSector [0x83, 0x82, 0, 0])) (fun k => 0x1000 + k)
      (sectorOf (bootSector [0x83, 0x82, 0, 0])) [] () := by
  have hused : UsedFirst (sectorOf (bootSector [0x83, 0x82, 0, 0])) := by decide +kernel
  refine (registersTable_iff (fun k => by omega) (fun garbage => ⟨0, _, (), rfl, Int.le_refl 0, ?_⟩)
    []).mpr fun _ => hused
  intro a ha
  have hzero : 512 * UInt32.toNat 0 + a = a := Nat.zero_add a
  simp only [sectorOf, imageDisk, hzero]
  exact (if_pos ha).symm

/-- A disk with an empty first entry: the partition behind it is found but not stored where it is
looked for. -/
theorem not_registersTable_emptyFirst :
    ¬ RegistersTable (imageDisk (bootSector [0, 0x83, 0, 0])) (fun k => 0x1000 + k)
      (sectorOf (bootSector [0, 0x83, 0, 0])) [] () := by
  intro hall
  obtain ⟨device, parts, s', hadd, -, -, -, -, -, hfollows⟩ :=
    hall (fun _ => 0) fun _ => ⟨0, 0⟩
  have hrun : ((addDisk (imageDisk (bootSector [0, 0x83, 0, 0])) (fun k => 0x1000 + k) (fun _ => 0)
      (fun _ => ⟨0, 0⟩) [] ()).toOption.map fun r => r.2.1.map fun d => d.lbaStart) =
        some [0, 0] := by
    decide +kernel
  have htable : (partitionsOf (sectorOf (bootSector [0, 0x83, 0, 0]))).map (fun i =>
      (partitionRange (sectorOf (bootSector [0, 0x83, 0, 0])) i).lbaStart) = [2] := by
    decide +kernel
  rw [hadd] at hrun
  have hlba := congrArg (List.map fun p => p.2.lbaStart) hfollows
  rw [List.map_map, List.map_map] at hlba
  have hparts := (List.cons.inj (Option.some.inj hrun)).2
  have hfirst := (hparts.symm.trans hlba).trans htable
  exact absurd hfirst (by decide)

end Kfs.Block
