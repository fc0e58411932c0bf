import Kfs.Block.PartitionTable
import Kfs.Drivers.AtaTransfers

/-!
# Failed reads

`ata_access_sector` returns the code 1, 2 or 3 of `ide_polling` when the device reports a fault, an
error or no data. The codes stay positive on the way through `ata_read_sector`, and `mbr_parse` looks
for negative results, so it goes on with a sector that nobody has written.
-/

namespace Kfs.Drivers

open Kfs.Block
open Kfs.Lib

/-- The failure of the read is noticed: `mbr_parse` returns -1, and `add_disk` registers the disk
without partitions. -/
def FailureReported (disk : GenericDisk IdeDevice IdeBus) (kmalloc : ℕ → ℕ) (garbage : Buffer)
    (stale : ℕ → DiskPartition) (devices : List (BlockDevice IdeDevice IdeBus)) (b : IdeBus) : Prop :=
  (∃ parts b', mbrParse (diskDevice disk kmalloc) stale 16 garbage b = .ok (-1, parts, b')) ∧
    ∃ b', addDisk disk kmalloc garbage stale devices b =
      .ok (0, devices ++ [diskDevice disk kmalloc], b')

section Read

variable {dev : IdeDevice} {channel : IdeChannel}

/-- A transfer of one sector that ends with an error leaves the buffer alone. -/
theorem readLoop_failed (off : ℕ) (buf : Buffer) (b : IdeBus) :
    Meets (readLoop channel 1 off buf b) (fun r => r.1 ≠ 0 → r.2.1 = buf) fun _ => True := by
  unfold readLoop
  refine (idePolling_quiet true b).bind fun r _ => ?_
  dsimp only
  split
  · exact fun _ => rfl
  · exact fun herr => absurd rfl herr

theorem ataReadSector_failed (lba : UInt32) (buf : Buffer) (b : IdeBus) :
    Meets (ataReadSector dev lba 1 buf b) (fun r => 0 ≤ r.1 ∧ (r.1 ≠ 0 → r.2.1 = buf))
      fun _ => True := by
  have haccess : Meets (ataAccessSector dev lba .read 1 buf b)
      (fun r => r.1 ≠ 0 → r.2.1 = buf) fun _ => True := by
    unfold ataAccessSector
    dsimp only
    split
    · trivial
    · split
      · trivial
      · refine Meets.bind (P := fun _ => True) ?_ fun b₁ _ => readLoop_failed 0 buf b₁
        cases programTransfer dev lba .read 1 (ideWriteReg dev.channel ataRegControl 0x02 b) with
        | ok b₁ => trivial
        | error e => trivial
  refine haccess.bind fun r hr => ⟨Int.natCast_nonneg _, fun hne => hr fun hzero => ?_⟩
  exact hne (congrArg (fun ret : UInt8 => (ret.toNat : ℤ)) hzero)

end Read

section Parse

variable {disk : GenericDisk IdeDevice IdeBus} {kmalloc : ℕ → ℕ} {garbage buf : Buffer}
  {b b' : IdeBus} {ret : ℤ}

/-- **After a failed read** the partitions of the unwritten sector are registered. -/
theorem addDisk_failed (hops : disk.ops = ideOps) (halloc : ∀ k, kmalloc k ≠ 0)
    (hread : ataReadSector disk.priv 0 1 garbage b = .ok (ret, buf, b')) (herr : ret ≠ 0)
    (stale : ℕ → DiskPartition) (devices : List (BlockDevice IdeDevice IdeBus)) :
    addDisk disk kmalloc garbage stale devices b = .ok (0, devices ++ diskDevice disk kmalloc ::
      (List.range (partitionsOf garbage).length).map (partitionDevice disk kmalloc fun k =>
        if partitionType garbage k ≠ 0 then partitionRange garbage k else stale k), b') := by
  obtain ⟨hnonneg, hbuf⟩ := (ataReadSector_failed 0 garbage b).result hread
  obtain rfl : buf = garbage := hbuf herr
  have hread : disk.ops.readSectors disk.priv 0 1 buf b = .ok (ret, buf, b') := by
    rw [hops]
    exact hread
  exact addDisk_eq halloc hread (Int.not_lt.mpr hnonneg) stale devices

/-- **A failed read is never noticed**: for every device and whatever it answers, and whatever the
local arrays hold. What is registered depends on the unwritten sector. -/
theorem failed_read_unnoticed (hops : disk.ops = ideOps) (halloc : ∀ k, kmalloc k ≠ 0)
    (hread : ataReadSector disk.priv 0 1 garbage b = .ok (ret, buf, b')) (herr : ret ≠ 0)
    (stale : ℕ → DiskPartition) (devices : List (BlockDevice IdeDevice IdeBus)) :
    ¬ FailureReported disk kmalloc garbage stale devices b ∧
      ∃ parts b', addDisk disk kmalloc garbage stale devices b =
          .ok (0, devices ++ diskDevice disk kmalloc :: parts, b') ∧
        parts.length = (partitionsOf garbage).length := by
  have hadd := addDisk_failed hops halloc hread herr stale devices
  refine ⟨fun hreported => ?_, _, _, hadd, by rw [List.length_map, List.length_range]⟩
  obtain ⟨⟨parts, b'', hminus⟩, -⟩ := hreported
  obtain ⟨hnonneg, -⟩ := (ataReadSector_failed 0 garbage b).result hread
  have hdisk : (diskDevice disk kmalloc).disk.ops.readSectors (diskDevice disk kmalloc).disk.priv 0 1
      garbage b = .ok (ret, buf, b') := by
    rw [show (diskDevice disk kmalloc).disk.ops = ideOps from hops]
    exact hread
  obtain ⟨found, hparse, -⟩ := mbrParse_eq (diskDevice disk kmalloc) stale hdisk
    (Int.not_lt.mpr hnonneg)
  have hret := (Prod.mk.inj (Except.ok.inj (hparse.symm.trans hminus))).1
  omega

end Parse

/-! ## A device that reports a fault -/

/-- The disk `hd0` on the primary master. -/
def primaryDisk : GenericDisk IdeDevice IdeBus where
  name := hd0
  nrSectors := 63
  ops := ideOps
  priv := primaryMaster

/-- A device that is ready at first and answers the read with a device fault. -/
def faultyBus : IdeBus := .start (List.replicate 6 0x50 ++ [0x70]) fun _ => 0

theorem faultyBus_read (garbage : Buffer) : ((ataReadSector primaryMaster 0 1 garbage
    faultyBus).toOption.map fun r => r.1) = some 1 := by
  rfl

theorem failed_read_unnoticed_faultyBus :
    ¬ FailureReported primaryDisk (fun k => 0x1000 + k) (fun _ => 0) (fun _ => ⟨0, 0⟩) []
      faultyBus := by
  obtain ⟨⟨ret, buf, b⟩, hread, hret⟩ := exists_ok_of_toOption_map (faultyBus_read fun _ => 0)
  obtain rfl : ret = 1 := hret
  exact (failed_read_unnoticed rfl (fun k => by omega) hread (by decide) _ []).1

/-- Where the stack holds the boot sector of another disk, its partition is registered. -/
theorem not_failureReported_faultyBus :
    ¬ ∀ garbage stale, FailureReported primaryDisk (fun k => 0x1000 + k) garbage stale []
      faultyBus := by
  intro hall
  obtain ⟨-, b, hadd⟩ := hall (sectorOf (bootSector [0x83, 0, 0, 0])) fun _ => ⟨0, 0⟩
  have hcount : ((addDisk primaryDisk (fun k => 0x1000 + k) (sectorOf (bootSector [0x83, 0, 0, 0]))
      (fun _ => ⟨0, 0⟩) [] faultyBus).toOption.map fun r => r.2.1.length) = some 2 := by
    decide +kernel
  rw [hadd] at hcount
  have hone : 1 = 2 := Option.some.inj hcount
  exact absurd hone (by decide)

end Kfs.Drivers
