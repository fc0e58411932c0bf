import Kfs.Block.Partitions

/-!
# The IDE driver

The transfer of sectors in `src/drivers/ata/ata.c`: registers, polling, `ata_access_sector` and the
operations that `ide_init` gives a disk.

What a device answers is part of the state: the bytes that the following `inb` read, and the words
that the following `insw` read. The I/O of the driver is logged in order. A driver that polls when no
answer is left is still waiting.
-/

namespace Kfs.Drivers

open Kfs.Block

/-! ## Ports -/

/-- One I/O instruction, with what it wrote or read. -/
inductive PortIo where
  | outb (port : UInt16) (value : UInt8)
  | inb (port : UInt16) (value : UInt8)
  | insw (port : UInt16) (words : List UInt16)
  | outsw (port : UInt16) (words : List UInt16)
  deriving DecidableEq, Repr

/-- A device as the driver sees it, and what has been done to it. -/
structure IdeBus where
  replies : List UInt8
  data : ℕ → UInt16
  log : List PortIo

/-- `outb`. -/
def outb (port : UInt16) (value : UInt8) (b : IdeBus) : IdeBus :=
  { b with log := b.log ++ [.outb port value] }

/-- `inb`. -/
def inb (port : UInt16) (b : IdeBus) : Io (UInt8 × IdeBus) :=
  match b.replies with
  | [] => .error .waiting
  | value :: rest => .ok (value, { b with replies := rest, log := b.log ++ [.inb port value] })

/-- The words of a sector. -/
def sectorWords : ℕ := 256 -- ATA_SECTOR_SIZE / 2

/-- `rep insw` of a sector to `buf + off`. -/
def insw (port : UInt16) (off : ℕ) (buf : Buffer) (b : IdeBus) : Buffer × IdeBus :=
  (fun a =>
    if off ≤ a ∧ a < off + 2 * sectorWords then
      if (a - off) % 2 = 0 then (b.data ((a - off) / 2)).toUInt8
      else (b.data ((a - off) / 2) >>> 8).toUInt8
    else buf a,
  { b with
    data := fun i => b.data (i + sectorWords)
    log := b.log ++ [.insw port ((List.range sectorWords).map b.data)] })

/-- `rep outsw` of a sector from `buf + off`. -/
def outsw (port : UInt16) (off : ℕ) (buf : Buffer) (b : IdeBus) : IdeBus :=
  { b with log := b.log ++ [.outsw port ((List.range sectorWords).map fun i =>
      (buf (off + 2 * i)).toUInt16 ||| (buf (off + 2 * i + 1)).toUInt16 <<< 8)] }

/-! ## Registers -/

def ataSrBsy : UInt8 := 0x80 -- ATA_SR_BSY
def ataSrDf : UInt8 := 0x20 -- ATA_SR_DF
def ataSrDrq : UInt8 := 0x08 -- ATA_SR_DRQ
def ataSrErr : UInt8 := 0x01 -- ATA_SR_ERR

def ataCmdReadPio : UInt8 := 0x20 -- ATA_CMD_READ_PIO
def ataCmdWritePio : UInt8 := 0x30 -- ATA_CMD_WRITE_PIO
def ataCmdCacheFlush : UInt8 := 0xE7 -- ATA_CMD_CACHE_FLUSH

def ataRegSeccount0 : UInt8 := 0x02 -- ATA_REG_SECCOUNT0
def ataRegLba0 : UInt8 := 0x03 -- ATA_REG_LBA0
def ataRegLba1 : UInt8 := 0x04 -- ATA_REG_LBA1
def ataRegLba2 : UInt8 := 0x05 -- ATA_REG_LBA2
def ataRegHddevsel : UInt8 := 0x06 -- ATA_REG_HDDEVSEL
def ataRegCommand : UInt8 := 0x07 -- ATA_REG_COMMAND
def ataRegStatus : UInt8 := 0x07 -- ATA_REG_STATUS
def ataRegControl : UInt8 := 0x0C -- ATA_REG_CONTROL
def ataRegAltstatus : UInt8 := 0x0C -- ATA_REG_ALTSTATUS

/-- `struct ide_channel`. -/
structure IdeChannel where
  basePort : UInt16
  controlPort : UInt16
  bmide : UInt16
  nIEN : UInt8
  deriving DecidableEq, Repr

/-- The part of `struct ide_device` that a transfer reads. `ide_probe_channels` sets `slave` to 0
or 1. -/
structure IdeDevice where
  channel : IdeChannel
  slave : UInt8
  capabilities : UInt16
  slave_lt : slave < 2

/-- The port of a register, if the channel has one. -/
def IdeChannel.port (channel : IdeChannel) (reg : UInt8) : Option UInt16 :=
  if reg < 0x08 then some (channel.basePort + reg.toUInt16)
  else if reg < 0x0C then some (channel.basePort + reg.toUInt16 - 0x06)
  else if reg < 0x0E then some (channel.controlPort + reg.toUInt16 - 0x0A)
  else if channel.bmide ≠ 0 then some (channel.bmide + reg.toUInt16 - 0x0E)
  else none

/-- The registers that `ide_write_reg` and `ide_read_reg` select by the control register. -/
def isHighByte (reg : UInt8) : Bool := 0x07 < reg && reg < 0x0C

/-- The write of `ide_write_reg` itself. -/
def writePort (channel : IdeChannel) (reg value : UInt8) (b : IdeBus) : IdeBus :=
  match channel.port reg with
  | some port => outb port value b
  | none => b

/-- `ide_write_reg`; its calls of itself write to the control register, which makes no more calls. -/
def ideWriteReg (channel : IdeChannel) (reg value : UInt8) (b : IdeBus) : IdeBus :=
  let b := if isHighByte reg then writePort channel ataRegControl (0x80 ||| channel.nIEN) b else b
  let b := writePort channel reg value b
  if isHighByte reg then writePort channel ataRegControl channel.nIEN b else b

/-- `ide_read_reg`. -/
def ideReadReg (channel : IdeChannel) (reg : UInt8) (b : IdeBus) : Io (UInt8 × IdeBus) := do
  let b :=
    if isHighByte reg then ideWriteReg channel ataRegControl (0x80 ||| channel.nIEN) b else b
  let (result, b) ← match channel.port reg with
    | some port => inb port b
    | none => .ok (0xFF, b)
  .ok (result,
    if isHighByte reg then ideWriteReg channel ataRegControl channel.nIEN b else b)

/-! ## Polling -/

/-- The loops that read the status until the device is not busy. Every turn takes an answer, so as
many turns as there are answers are enough. -/
def waitWhileBusy (channel : IdeChannel) : ℕ → IdeBus → Io IdeBus
  | 0, _ => .error .waiting
  | turns + 1, b => do
    let (status, b) ← ideReadReg channel ataRegStatus b
    if status &&& ataSrBsy ≠ 0 then waitWhileBusy channel turns b else .ok b

/-- The first loop of `ide_polling`. -/
def readAltstatus (channel : IdeChannel) : ℕ → IdeBus → Io IdeBus
  | 0, b => .ok b
  | times + 1, b => do
    let (_, b) ← ideReadReg channel ataRegAltstatus b
    readAltstatus channel times b

/-- `ide_polling`. -/
def idePolling (channel : IdeChannel) (advancedCheck : Bool) (b : IdeBus) : Io (UInt8 × IdeBus) := do
  let b ← readAltstatus channel 4 b
  let b ← waitWhileBusy channel (b.replies.length + 1) b
  if advancedCheck then
    let (state, b) ← ideReadReg channel ataRegStatus b
    if state &&& ataSrDf ≠ 0 then .ok (1, b)
    else if state &&& ataSrErr ≠ 0 then .ok (2, b)
    else if state &&& ataSrDrq = 0 then .ok (3, b)
    else .ok (0, b)
  else .ok (0, b)

/-! ## Transfers -/

/-- `enum ide_access_direction`. -/
inductive IdeAccessDirection where
  | read
  | write
  deriving DecidableEq, Repr

/-- The loop of `ata_access_sector` that reads `count` sectors to `buf + off`. -/
def readLoop (channel : IdeChannel) : ℕ → ℕ → Buffer → IdeBus → Io (UInt8 × Buffer × IdeBus)
  | 0, _, buf, b => .ok (0, buf, b)
  | count + 1, off, buf, b => do
    let (err, b) ← idePolling channel true b
    if err ≠ 0 then .ok (err, buf, b)
    else
      let (buf, b) := insw channel.basePort off buf b
      readLoop channel count (off + 2 * sectorWords) buf b

/-- The loop of `ata_access_sector` that writes `count` sectors from `buf + off`. -/
def writeLoop (channel : IdeChannel) : ℕ → ℕ → Buffer → IdeBus → Io IdeBus
  | 0, _, _, b => .ok b
  | count + 1, off, buf, b => do
    let (_, b) ← idePolling channel false b
    writeLoop channel count (off + 2 * sectorWords) buf (outsw channel.basePort off buf b)

/-- The part of `ata_access_sector` that tells the controller what to transfer. -/
def programTransfer (dev : IdeDevice) (lba : UInt32) (direction : IdeAccessDirection) (count : UInt8)
    (b : IdeBus) : Io IdeBus := do
  let b ← waitWhileBusy dev.channel (b.replies.length + 1) b
  let head := ((lba &&& 0xF000000) >>> 24).toUInt8
  let b := ideWriteReg dev.channel ataRegHddevsel ((0xE0 : UInt8) ||| dev.slave <<< 4 ||| head) b
  let b := ideWriteReg dev.channel ataRegSeccount0 count b
  let b := ideWriteReg dev.channel ataRegLba0 (lba &&& 0x00000FF).toUInt8 b
  let b := ideWriteReg dev.channel ataRegLba1 ((lba &&& 0x000FF00) >>> 8).toUInt8 b
  let b := ideWriteReg dev.channel ataRegLba2 ((lba &&& 0x0FF0000) >>> 16).toUInt8 b
  .ok (ideWriteReg dev.channel ataRegCommand
    (if direction = .read then ataCmdReadPio else ataCmdWritePio) b)

/-- `ata_access_sector`. -/
def ataAccessSector (dev : IdeDevice) (lba : UInt32) (direction : IdeAccessDirection) (count : UInt8)
    (buf : Buffer) (b : IdeBus) : Io (UInt8 × Buffer × IdeBus) :=
  let b := ideWriteReg dev.channel ataRegControl 0x02 b
  if lba ≥ 0x10000000 then .error (.stopped (.kpanic "LBA48 not implemented"))
  else if dev.capabilities &&& 0x200 = 0 then .error (.stopped (.kpanic "CHS not implemented"))
  else do
    let b ← programTransfer dev lba direction count b
    match direction with
    | .read => readLoop dev.channel count.toNat 0 buf b
    | .write =>
      let b ← writeLoop dev.channel count.toNat 0 buf b
      let b := ideWriteReg dev.channel ataRegCommand ataCmdCacheFlush b
      let (_, b) ← idePolling dev.channel false b
      .ok (0, buf, b)

/-- `ata_read_sector`: the count is narrowed to a byte on the way, and the result widened. -/
def ataReadSector (dev : IdeDevice) (lba count : UInt32) (buf : Buffer) (b : IdeBus) :
    Io (ℤ × Buffer × IdeBus) := do
  let (ret, buf, b) ← ataAccessSector dev lba .read count.toUInt8 buf b
  .ok ((ret.toNat : ℤ), buf, b)

/-- `ata_write_sector`. -/
def ataWriteSector (dev : IdeDevice) (lba count : UInt32) (buf : Buffer) (b : IdeBus) :
    Io (ℤ × IdeBus) := do
  let (ret, _, b) ← ataAccessSector dev lba .write count.toUInt8 buf b
  .ok ((ret.toNat : ℤ), b)

/-- `ide_ops`. -/
def ideOps : DiskOps IdeDevice IdeBus where
  readSectors := ataReadSector
  writeSectors := ataWriteSector

end Kfs.Drivers
