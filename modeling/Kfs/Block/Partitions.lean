import Kfs.Kernel.Panic
import Mathlib.Data.Int.Notation
import Mathlib.Data.Nat.Bitwise
import Mathlib.Data.Nat.Notation
import Mathlib.Logic.Function.Basic

/-!
# Disks and partitions

`src/block/partitions/core.c`, the reader of boot sectors in `src/block/partitions/msdos.c` and
`include/kernel/block.h`.

The operations of a disk are function pointers, so the state `σ` that they work on (the ports of a
controller, for the IDE driver) and the private data `π` of a disk are parameters. Local arrays hold
what the stack held before: `addDisk` takes their contents as arguments. The addresses that `kmalloc`
returns are given call by call, with 0 for `NULL`.
-/

namespace Kfs.Block

/-! ## Disks -/

/-- How a call into a driver ends without a result. -/
inductive IoStop where
  /-- The kernel stops. -/
  | stopped (e : Stop)
  /-- The driver polls a device that has not answered yet. -/
  | waiting
  deriving DecidableEq, Repr

/-- A call into a driver. -/
abbrev Io (α : Type) := Except IoStop α

/-- The bytes from a pointer on. -/
abbrev Buffer := ℕ → UInt8

/-- `struct disk_ops`; the IDE driver has no `flush`. -/
structure DiskOps (π σ : Type) where
  readSectors : π → UInt32 → UInt32 → Buffer → σ → Io (ℤ × Buffer × σ)
  writeSectors : π → UInt32 → UInt32 → Buffer → σ → Io (ℤ × σ)

/-- The name of a disk: `DISK_NAME_LEN` bytes with the end of the string early enough for the two
characters of a partition behind it, as in the `hd0` of `ide_init`. -/
structure DiskName where
  bytes : List UInt8
  length_eq : bytes.length = 16
  room : 0 ∈ bytes.take 14

/-- The first name that `ide_init` gives. -/
def hd0 : DiskName :=
  ⟨[104, 100, 48, 0, 0, 0, 0, 0, 0, 0, 0, 0, 0, 0, 0, 0], by decide, by decide⟩

/-- `ft_strlen` of the name. -/
def DiskName.len (name : DiskName) : ℕ := name.bytes.idxOf 0

/-- `struct generic_disk`. -/
structure GenericDisk (π σ : Type) where
  name : DiskName
  nrSectors : UInt32
  ops : DiskOps π σ
  priv : π

/-- `struct disk_partition`. -/
structure DiskPartition where
  lbaStart : UInt32
  nrSectors : UInt32
  deriving DecidableEq, Repr

/-- `struct block_device` at the address `addr`; `parent` is 0 unless it is a partition. -/
structure BlockDevice (π σ : Type) where
  addr : ℕ
  name : List UInt8
  disk : GenericDisk π σ
  parent : ℕ
  lbaStart : UInt32
  nrSectors : UInt32

/-! ## Boot sectors -/

def mbrSignature : ℕ := 0xAA55 -- MBR_SIGNATURE
def mbrPartitionGap : ℕ := 0x1B8 -- MBR_PARTITION_GAP
def mbrPartitionSize : ℕ := 16 -- MBR_PARTITION_SIZE
def mbrMaxPartitions : ℕ := 4 -- MBR_MAX_PARTITIONS

/-- A `uint32_t` in memory. -/
def readDword (buf : Buffer) (off : ℕ) : UInt32 :=
  (buf off).toUInt32 ||| (buf (off + 1)).toUInt32 <<< 8 ||| (buf (off + 2)).toUInt32 <<< 16 |||
    (buf (off + 3)).toUInt32 <<< 24

/-- `entries[i]` of `struct mbr_table`, behind the identifier and two bytes of padding. -/
def mbrEntry (i : ℕ) : ℕ := mbrPartitionGap + 6 + mbrPartitionSize * i

/-- `entries[i].partition_type`. -/
def partitionType (sector : Buffer) (i : ℕ) : UInt8 := sector (mbrEntry i + 4)

/-- `entries[i].lba_start` and `entries[i].nr_sectors`. -/
def partitionRange (sector : Buffer) (i : ℕ) : DiskPartition :=
  ⟨readDword sector (mbrEntry i + 8), readDword sector (mbrEntry i + 12)⟩

/-- `table->signature`, behind the entries. -/
def signature (sector : Buffer) : ℕ :=
  (sector (mbrEntry mbrMaxPartitions)).toNat + 2 ^ 8 * (sector (mbrEntry mbrMaxPartitions + 1)).toNat

section Parse

variable {π σ : Type}

/-- The loop of `mbr_parse` with `left` entries still to look at, from entry `i` on. -/
def mbrEntries (sector : Buffer) : ℕ → ℕ → ℕ → (ℕ → DiskPartition) → ℕ × (ℕ → DiskPartition)
  | 0, _, found, parts => (found, parts)
  | left + 1, i, found, parts =>
    if partitionType sector i = 0 then mbrEntries sector left (i + 1) found parts
    else mbrEntries sector left (i + 1) (found + 1)
      (Function.update parts i (partitionRange sector i))

/-- `mbr_parse`; `sector` is what its local array holds at the start. -/
def mbrParse (dev : BlockDevice π σ) (parts : ℕ → DiskPartition) (max : ℕ) (sector : Buffer) (s : σ) :
    Io (ℤ × (ℕ → DiskPartition) × σ) := do
  let (ret, sector, s) ← dev.disk.ops.readSectors dev.disk.priv 0 1 sector s
  if ret < 0 then .ok (-1, parts, s)
  else if signature sector ≠ mbrSignature then .ok (0, parts, s)
  else
    let (found, parts) := mbrEntries sector (min max mbrMaxPartitions) 0 0 parts
    .ok (found, parts, s)

end Parse

/-! ## Registration -/

section Register

variable {π σ : Type}

/-- The digit of partition `i`, if the table of `add_disk` has one. -/
def partitionDigit (i : ℕ) : Option UInt8 :=
  if i < 10 then some (48 + UInt8.ofNat i) else if i < 16 then some (87 + UInt8.ofNat i) else none

/-- The name of a partition: `p` and its digit behind the name of the disk. -/
def partitionName (name : DiskName) (digit : UInt8) : List UInt8 :=
  ((name.bytes.set name.len 112).set (name.len + 1) digit).set (name.len + 2) 0

/-- One turn of the last loop of `add_disk`, where the test is on `dev` and not on `part`. -/
def addPartition (disk : GenericDisk π σ) (dev part : ℕ) (parts : ℕ → DiskPartition) (i : ℕ)
    (devices : List (BlockDevice π σ)) : Io (List (BlockDevice π σ)) :=
  if part = 0 then .error (.stopped .fault)
  else match partitionDigit i with
    | none => .error (.stopped .fault)
    | some digit => .ok (devices ++ [{
        addr := part
        name := partitionName disk.name digit
        disk := disk
        parent := dev
        lbaStart := (parts i).lbaStart
        nrSectors := (parts i).nrSectors }])

/-- `add_disk`: the result and `block_devices` afterwards. `kmalloc` gives the address that each call
of it returns, `sector` and `parts` what the local arrays hold at the start. -/
def addDisk (disk : GenericDisk π σ) (kmalloc : ℕ → ℕ) (sector : Buffer)
    (parts : ℕ → DiskPartition) (devices : List (BlockDevice π σ)) (s : σ) :
    Io (ℤ × List (BlockDevice π σ) × σ) := do
  let dev := kmalloc 0
  if dev = 0 then .ok (-1, devices, s)
  else
    let device : BlockDevice π σ :=
      { addr := dev, name := disk.name.bytes, disk := disk, parent := 0, lbaStart := 0,
        nrSectors := disk.nrSectors }
    let devices := devices ++ [device]
    let (nrParts, parts, s) ← mbrParse device parts 16 sector s
    let devices ← (List.range nrParts.toNat).foldlM
      (fun devices i => addPartition disk dev (kmalloc (i + 1)) parts i devices) devices
    .ok (0, devices, s)

end Register

end Kfs.Block
