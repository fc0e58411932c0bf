import Kfs.Drivers.Ata
import Kfs.Lib.Outcome
import Mathlib.Logic.Function.Basic

/-!
# What the controller is told

A controller keeps the bytes last written to its registers. When it gets a transfer command, it takes
the address of the first sector and the number of sectors from them, and a count of 0 stands for 256.
`ata_access_sector` writes the address in full, so the controller starts at the sector asked for. The
count is a byte for both sides, but the loop of the driver takes 0 for 0.
-/

namespace Kfs.Drivers

open Kfs.Block
open Kfs.Lib

/-! ## The controller -/

/-- What a controller is to transfer. -/
structure TransferCommand where
  lba : ℕ
  count : ℕ
  deriving DecidableEq, Repr

/-- A controller: the byte last written to each port, the transfers it was told to make, and the
sectors that went through its data port. -/
structure Controller where
  latch : UInt16 → UInt8
  commands : List TransferCommand
  sectors : ℕ

/-- The address in the three LBA registers and the low half of the drive register. -/
def Controller.selectedLba (base : UInt16) (c : Controller) : ℕ :=
  (c.latch (base + 3)).toNat + 2 ^ 8 * (c.latch (base + 4)).toNat +
    2 ^ 16 * (c.latch (base + 5)).toNat + 2 ^ 24 * ((c.latch (base + 6)).toNat % 2 ^ 4)

/-- The number of sectors that a count register stands for. -/
def sectorCount (count : UInt8) : ℕ := if count = 0 then 256 else count.toNat

/-- One instruction at the ports of the channel. -/
def Controller.observe (base : UInt16) (c : Controller) : PortIo → Controller
  | .outb port value =>
    { c with
      latch := Function.update c.latch port value
      commands :=
        if port = base + 7 ∧ (value = ataCmdReadPio ∨ value = ataCmdWritePio) then
          c.commands ++ [⟨c.selectedLba base, sectorCount (c.latch (base + 2))⟩]
        else c.commands }
  | .inb _ _ => c
  | .insw port words | .outsw port words =>
    if port = base then { c with sectors := c.sectors + words.length / sectorWords } else c

/-- The controller behind the I/O of a bus. -/
def controllerOf (base : UInt16) (c : Controller) (b : IdeBus) : Controller :=
  b.log.foldl (Controller.observe base) c

/-- A bus before a call: what the device is going to answer, and no I/O yet. -/
def IdeBus.start (replies : List UInt8) (data : ℕ → UInt16) : IdeBus := ⟨replies, data, []⟩

/-- The call told the controller to transfer what was asked for, and transferred it: one command with
the address, and as many sectors as the count of the command and as the caller asked for. -/
def TransfersRequested (channel : IdeChannel) (latch : UInt16 → UInt8) (lba count : UInt32)
    (b : IdeBus) : Prop :=
  ∃ n, (controllerOf channel.basePort ⟨latch, [], 0⟩ b).commands = [⟨lba.toNat, n⟩] ∧
    (controllerOf channel.basePort ⟨latch, [], 0⟩ b).sectors = n ∧ n = count.toNat

/-- Between the two buses nothing happens that a controller notices. -/
def Quiet (b b' : IdeBus) : Prop := ∀ base c, controllerOf base c b' = controllerOf base c b

theorem Quiet.refl (b : IdeBus) : Quiet b b := fun _ _ => rfl

theorem Quiet.trans {b b' b'' : IdeBus} (h : Quiet b b') (h' : Quiet b' b'') : Quiet b b'' :=
  fun base c => (h' base c).trans (h base c)

/-! ## Registers -/

section Registers

variable {channel : IdeChannel} {base : UInt16} {c : Controller} {b b' : IdeBus}

theorem controllerOf_outb (port : UInt16) (value : UInt8) :
    controllerOf base c (outb port value b) =
      (controllerOf base c b).observe base (.outb port value) := by
  simp only [controllerOf, outb, List.foldl_append, List.foldl_cons, List.foldl_nil]

/-- Reading a port is no news for the controller. -/
theorem inb_quiet (port : UInt16) (b : IdeBus) :
    Meets (inb port b) (fun r => Quiet b r.2) fun _ => True := by
  unfold inb
  split
  · trivial
  · intro base c
    simp only [controllerOf, List.foldl_append, List.foldl_cons, List.foldl_nil,
      Controller.observe]

/-- A register of the command block is written directly. -/
theorem ideWriteReg_low {reg : UInt8} (hreg : reg < 0x08) (hhigh : isHighByte reg = false)
    (value : UInt8) (b : IdeBus) :
    ideWriteReg channel reg value b = outb (channel.basePort + reg.toUInt16) value b := by
  unfold ideWriteReg writePort IdeChannel.port
  simp only [hhigh, Bool.false_eq_true, if_false, if_pos hreg]

theorem ideReadReg_quiet {reg : UInt8} (hreg : isHighByte reg = false) (b : IdeBus) :
    Meets (ideReadReg channel reg b) (fun r => Quiet b r.2) fun _ => True := by
  unfold ideReadReg
  simp only [hreg, Bool.false_eq_true, if_false]
  split
  · exact (inb_quiet _ b).bind fun r hr => hr
  · exact Quiet.refl b

end Registers

/-! ## Polling -/

section Polling

variable {channel : IdeChannel}

theorem waitWhileBusy_quiet (turns : ℕ) : ∀ b : IdeBus,
    Meets (waitWhileBusy channel turns b) (Quiet b) fun _ => True := by
  induction turns with
  | zero => exact fun b => trivial
  | succ turns ih =>
    intro b
    refine (ideReadReg_quiet (by decide) b).bind fun r hr => ?_
    dsimp only
    split
    · exact (ih r.2).mono fun b' hb' => hr.trans hb'
    · exact hr

theorem readAltstatus_quiet (times : ℕ) : ∀ b : IdeBus,
    Meets (readAltstatus channel times b) (Quiet b) fun _ => True := by
  induction times with
  | zero => exact Quiet.refl
  | succ times ih =>
    intro b
    refine (ideReadReg_quiet (by decide) b).bind fun r hr => ?_
    exact (ih r.2).mono fun b' hb' => hr.trans hb'

/-- Polling only reads. -/
theorem idePolling_quiet (advancedCheck : Bool) (b : IdeBus) :
    Meets (idePolling channel advancedCheck b) (fun r => Quiet b r.2) fun _ => True := by
  unfold idePolling
  refine (readAltstatus_quiet 4 b).bind fun b₁ h₁ => ?_
  refine (waitWhileBusy_quiet _ b₁).bind fun b₂ h₂ => ?_
  have hb₂ := h₁.trans h₂
  cases advancedCheck with
  | false => exact hb₂
  | true =>
    refine (ideReadReg_quiet (by decide) b₂).bind fun r hr => ?_
    have hall := hb₂.trans hr
    dsimp only
    split
    · exact hall
    · split
      · exact hall
      · split
        · exact hall
        · exact hall

end Polling

/-! ## Transfers -/

section Transfers

variable {dev : IdeDevice} {channel : IdeChannel} {c : Controller}

/-- The controller after `n` more sectors. -/
def Controller.moved (c : Controller) (n : ℕ) : Controller := { c with sectors := c.sectors + n }

theorem Controller.moved_moved (c : Controller) (m n : ℕ) :
    (c.moved m).moved n = c.moved (m + n) := by
  simp only [Controller.moved, Nat.add_assoc]

theorem sectorWords_div (f : ℕ → UInt16) :
    ((List.range sectorWords).map f).length / sectorWords = 1 := by
  rw [List.length_map, List.length_range]
  decide

theorem controllerOf_insw (base : UInt16) (c : Controller) (off : ℕ) (buf : Buffer) (b : IdeBus) :
    controllerOf base c (insw base off buf b).2 = (controllerOf base c b).moved 1 := by
  simp only [controllerOf, insw, List.foldl_append, List.foldl_cons, List.foldl_nil,
    Controller.observe, if_true, sectorWords_div, Controller.moved]

theorem controllerOf_outsw (base : UInt16) (c : Controller) (off : ℕ) (buf : Buffer) (b : IdeBus) :
    controllerOf base c (outsw base off buf b) = (controllerOf base c b).moved 1 := by
  simp only [controllerOf, outsw, List.foldl_append, List.foldl_cons, List.foldl_nil,
    Controller.observe, if_true, sectorWords_div, Controller.moved]

/-- The loop that reads ends without an error after `count` sectors. -/
theorem readLoop_moves (c : Controller) (count : ℕ) : ∀ (off : ℕ) (buf : Buffer) (b : IdeBus),
    Meets (readLoop channel count off buf b) (fun r => r.1 = 0 →
      controllerOf channel.basePort c r.2.2 = (controllerOf channel.basePort c b).moved count)
      fun _ => True := by
  induction count with
  | zero => exact fun off buf b _ => rfl
  | succ count ih =>
    intro off buf b
    refine (idePolling_quiet true b).bind fun r hr => ?_
    dsimp only
    split
    next herr => exact fun hzero => absurd hzero herr
    next =>
      apply (ih ..).mono
      intro r' hr' hzero
      rw [hr' hzero, controllerOf_insw, Controller.moved_moved, hr, Nat.add_comm]

/-- The loop that writes ends after `count` sectors. -/
theorem writeLoop_moves (c : Controller) (count : ℕ) : ∀ (off : ℕ) (buf : Buffer) (b : IdeBus),
    Meets (writeLoop channel count off buf b) (fun b' =>
      controllerOf channel.basePort c b' = (controllerOf channel.basePort c b).moved count)
      fun _ => True := by
  induction count with
  | zero => exact fun off buf b => rfl
  | succ count ih =>
    intro off buf b
    refine (idePolling_quiet false b).bind fun r hr => ?_
    apply (ih ..).mono
    intro b' hb'
    rw [hb', controllerOf_outsw, Controller.moved_moved, hr, Nat.add_comm]

/-- A masked field of an address. -/
theorem field_eq (n k w : ℕ) : (n &&& ((2 ^ w - 1) <<< k)) >>> k = n / 2 ^ k % 2 ^ w := by
  rw [Nat.shiftRight_and_distrib, Nat.shiftLeft_shiftRight, Nat.and_two_pow_sub_one_eq_mod,
    Nat.shiftRight_eq_div_pow]

/-- The fixed bits and the drive number do not reach the low half of the drive register. -/
theorem hddevsel_low (slave head : UInt8) (h : head.toNat < 2 ^ 4) :
    ((0xE0 : UInt8) ||| slave <<< 4 ||| head).toNat % 2 ^ 4 = head.toNat := by
  have hslave : (slave <<< 4).toNat % 2 ^ 4 = 0 := by
    rw [UInt8.toNat_shiftLeft, Nat.shiftLeft_eq]
    change slave.toNat * 2 ^ 4 % 2 ^ 8 % 2 ^ 4 = 0
    omega
  rw [UInt8.toNat_or, UInt8.toNat_or, Nat.or_mod_two_pow, Nat.or_mod_two_pow, hslave,
    Nat.mod_eq_of_lt h]
  exact Nat.zero_or _

/-- **The address is written in full**: the registers give back every address below 2^28. -/
theorem lba_registers {lba : UInt32} (hlba : ¬ lba ≥ 0x10000000) (slave : UInt8) :
    (lba &&& 0x00000FF).toUInt8.toNat + 2 ^ 8 * ((lba &&& 0x000FF00) >>> 8).toUInt8.toNat +
      2 ^ 16 * ((lba &&& 0x0FF0000) >>> 16).toUInt8.toNat +
      2 ^ 24 * (((0xE0 : UInt8) ||| slave <<< 4 |||
        ((lba &&& 0xF000000) >>> 24).toUInt8).toNat % 2 ^ 4) = lba.toNat := by
  have hlt : lba.toNat < 2 ^ 28 := by
    rw [ge_iff_le, UInt32.le_iff_toNat_le] at hlba
    exact Nat.lt_of_not_le hlba
  have h₀ : (lba &&& 0x00000FF).toUInt8.toNat = lba.toNat % 2 ^ 8 % 2 ^ 8 := by
    rw [UInt32.toNat_toUInt8, UInt32.toNat_and]
    exact congrArg (· % 2 ^ 8) ((field_eq lba.toNat 0 8).trans (by rw [Nat.pow_zero, Nat.div_one]))
  have h₁ : ((lba &&& 0x000FF00) >>> 8).toUInt8.toNat = lba.toNat / 2 ^ 8 % 2 ^ 8 % 2 ^ 8 := by
    rw [UInt32.toNat_toUInt8, UInt32.toNat_shiftRight, UInt32.toNat_and]
    exact congrArg (· % 2 ^ 8) (field_eq lba.toNat 8 8)
  have h₂ : ((lba &&& 0x0FF0000) >>> 16).toUInt8.toNat = lba.toNat / 2 ^ 16 % 2 ^ 8 % 2 ^ 8 := by
    rw [UInt32.toNat_toUInt8, UInt32.toNat_shiftRight, UInt32.toNat_and]
    exact congrArg (· % 2 ^ 8) (field_eq lba.toNat 16 8)
  have hhead : ((lba &&& 0xF000000) >>> 24).toUInt8.toNat = lba.toNat / 2 ^ 24 % 2 ^ 4 % 2 ^ 8 := by
    rw [UInt32.toNat_toUInt8, UInt32.toNat_shiftRight, UInt32.toNat_and]
    exact congrArg (· % 2 ^ 8) (field_eq lba.toNat 24 4)
  rw [hddevsel_low _ _ (by omega), h₀, h₁, h₂, hhead]
  omega

/-- A write to a register of the command block other than the command only changes its latch. -/
theorem controllerOf_ideWriteReg {channel : IdeChannel} {reg : UInt8} (hreg : reg < ataRegCommand)
    (hhigh : isHighByte reg = false) (value : UInt8) (c : Controller) (b : IdeBus) :
    controllerOf channel.basePort c (ideWriteReg channel reg value b) =
      { controllerOf channel.basePort c b with
        latch := Function.update (controllerOf channel.basePort c b).latch
          (channel.basePort + reg.toUInt16) value } := by
  have hlow : reg < 0x08 := UInt8.lt_trans hreg (by decide)
  have hport : channel.basePort + reg.toUInt16 ≠ channel.basePort + 7 := by
    intro heq
    have hnat := congrArg UInt16.toNat ((UInt16.add_right_inj _).mp heq)
    rw [UInt8.toNat_toUInt16] at hnat
    rw [UInt8.lt_iff_toNat_lt, hnat] at hreg
    exact absurd hreg (by decide)
  rw [ideWriteReg_low hlow hhigh, controllerOf_outb, Controller.observe,
    if_neg fun h => hport h.1]

/-- A transfer command takes the address and the count from the latches. -/
theorem controllerOf_transfer {channel : IdeChannel} {value : UInt8}
    (hvalue : value = ataCmdReadPio ∨ value = ataCmdWritePio) (c : Controller) (b : IdeBus) :
    controllerOf channel.basePort c (ideWriteReg channel ataRegCommand value b) =
      { controllerOf channel.basePort c b with
        latch := Function.update (controllerOf channel.basePort c b).latch
          (channel.basePort + 7) value
        commands := (controllerOf channel.basePort c b).commands ++
          [⟨(controllerOf channel.basePort c b).selectedLba channel.basePort,
            sectorCount ((controllerOf channel.basePort c b).latch (channel.basePort + 2))⟩] } := by
  have hport : channel.basePort + ataRegCommand.toUInt16 = channel.basePort + 7 := rfl
  rw [ideWriteReg_low (by decide) (by decide), controllerOf_outb]
  simp only [Controller.observe, hport, true_and, if_pos hvalue]

/-- **What the controller is told**: the address, and the count as its register has it. -/
theorem programTransfer_told {lba : UInt32} (hlba : ¬ lba ≥ 0x10000000)
    (direction : IdeAccessDirection) (count : UInt8) (c : Controller) (b : IdeBus) :
    Meets (programTransfer dev lba direction count b) (fun b' =>
      (controllerOf dev.channel.basePort c b').commands =
          (controllerOf dev.channel.basePort c b).commands ++ [⟨lba.toNat, sectorCount count⟩] ∧
        (controllerOf dev.channel.basePort c b').sectors =
          (controllerOf dev.channel.basePort c b).sectors) fun _ => True := by
  unfold programTransfer
  refine (waitWhileBusy_quiet _ b).bind fun b₁ h₁ => ?_
  have hcommand : (if direction = .read then ataCmdReadPio else ataCmdWritePio) = ataCmdReadPio ∨
      (if direction = .read then ataCmdReadPio else ataCmdWritePio) = ataCmdWritePio := by
    split
    · exact .inl rfl
    · exact .inr rfl
  have hregs : ataRegHddevsel.toUInt16 = 6 ∧ ataRegSeccount0.toUInt16 = 2 ∧
      ataRegLba0.toUInt16 = 3 ∧ ataRegLba1.toUInt16 = 4 ∧ ataRegLba2.toUInt16 = 5 := by decide
  obtain ⟨hhddevsel, hseccount, hlba₀, hlba₁, hlba₂⟩ := hregs
  -- what the latches of the address and the count hold when the command is written
  rw [meets_ok, controllerOf_transfer hcommand]
  simp only [controllerOf_ideWriteReg (show ataRegLba2 < ataRegCommand by decide) (by decide),
    controllerOf_ideWriteReg (show ataRegLba1 < ataRegCommand by decide) (by decide),
    controllerOf_ideWriteReg (show ataRegLba0 < ataRegCommand by decide) (by decide),
    controllerOf_ideWriteReg (show ataRegSeccount0 < ataRegCommand by decide) (by decide),
    controllerOf_ideWriteReg (show ataRegHddevsel < ataRegCommand by decide) (by decide),
    h₁ dev.channel.basePort c, hhddevsel, hseccount, hlba₀, hlba₁, hlba₂]
  refine ⟨?_, trivial⟩
  have hlba := lba_registers hlba dev.slave
  simp only [Controller.selectedLba, Function.update_apply, UInt16.add_right_inj, if_true]
  have hne : ¬ (3 : UInt16) = 5 ∧ ¬ (3 : UInt16) = 4 ∧ ¬ (4 : UInt16) = 5 ∧ ¬ (6 : UInt16) = 5 ∧
      ¬ (6 : UInt16) = 4 ∧ ¬ (6 : UInt16) = 3 ∧ ¬ (6 : UInt16) = 2 ∧ ¬ (2 : UInt16) = 5 ∧
      ¬ (2 : UInt16) = 4 ∧ ¬ (2 : UInt16) = 3 := by decide
  simp only [hne, if_false, hlba]

/-- **A transfer without an error**: one command with the address and the narrowed count, and as many
sectors as the narrowed count says. -/
theorem ataAccessSector_moves {lba : UInt32} {direction : IdeAccessDirection} {count : UInt8}
    (latch : UInt16 → UInt8) (buf : Buffer) (replies : List UInt8) (data : ℕ → UInt16) :
    Meets (ataAccessSector dev lba direction count buf (.start replies data)) (fun r => r.1 = 0 →
      (controllerOf dev.channel.basePort ⟨latch, [], 0⟩ r.2.2).commands =
          [⟨lba.toNat, sectorCount count⟩] ∧
        (controllerOf dev.channel.basePort ⟨latch, [], 0⟩ r.2.2).sectors = count.toNat)
      fun _ => True := by
  unfold ataAccessSector
  dsimp only
  split
  · trivial
  next hlba =>
  split
  · trivial
  next =>
  -- the write to the control register is no command and no transfer
  generalize hb₀ : ideWriteReg dev.channel ataRegControl 0x02 (.start replies data) = b₀
  have hstart : (controllerOf dev.channel.basePort ⟨latch, [], 0⟩ b₀).commands = [] ∧
      (controllerOf dev.channel.basePort ⟨latch, [], 0⟩ b₀).sectors = 0 := by
    rw [← hb₀]
    have hcontrol : dev.channel.port ataRegControl =
        some (dev.channel.controlPort + 0x0C - 0x0A) := rfl
    have hvalue : ¬ ((0x02 : UInt8) = ataCmdReadPio ∨ (0x02 : UInt8) = ataCmdWritePio) := by decide
    have hhigh : isHighByte ataRegControl = false := by decide
    simp only [ideWriteReg, hhigh, Bool.false_eq_true, if_false, writePort, hcontrol,
      controllerOf_outb, Controller.observe, hvalue, and_false]
    exact ⟨rfl, rfl⟩
  refine (programTransfer_told hlba direction count ⟨latch, [], 0⟩ b₀).bind fun b₁ h₁ => ?_
  rw [hstart.1, hstart.2] at h₁
  cases direction with
  | read =>
    apply (readLoop_moves ⟨latch, [], 0⟩ count.toNat 0 buf b₁).mono
    intro r hr hzero
    rw [hr hzero]
    exact ⟨h₁.1, (congrArg (· + count.toNat) h₁.2).trans (Nat.zero_add _)⟩
  | write =>
    refine (writeLoop_moves ⟨latch, [], 0⟩ count.toNat 0 buf b₁).bind fun b₂ h₂ => ?_
    refine (idePolling_quiet false _).bind fun r hr => fun _ => ?_
    have hflush : ¬ (ataCmdCacheFlush = ataCmdReadPio ∨ ataCmdCacheFlush = ataCmdWritePio) := by
      decide
    rw [hr, ideWriteReg_low (by decide) (by decide), controllerOf_outb]
    simp only [Controller.observe, hflush, and_false, if_false, h₂]
    exact ⟨h₁.1, (congrArg (· + count.toNat) h₁.2).trans (Nat.zero_add _)⟩

/-- The command and the sectors agree with the count exactly for the counts from 1 to 255. -/
theorem narrowed_count_iff (count : UInt32) :
    sectorCount count.toUInt8 = count.toUInt8.toNat ∧ count.toUInt8.toNat = count.toNat ↔
      1 ≤ count.toNat ∧ count.toNat ≤ 255 := by
  have hnarrow : count.toUInt8.toNat = count.toNat % 2 ^ 8 := UInt32.toNat_toUInt8 count
  have hzero : count.toUInt8 = 0 ↔ count.toUInt8.toNat = 0 := UInt8.toNat_inj.symm
  unfold sectorCount
  split
  next h =>
    have h := hzero.mp h
    omega
  next h =>
    have h : ¬ count.toUInt8.toNat = 0 := fun h' => h (hzero.mpr h')
    omega

/-- What a call says if it told the controller one command with the narrowed count. -/
theorem transfersRequested_iff {latch : UInt16 → UInt8} {lba count : UInt32} {b : IdeBus}
    (hcommands : (controllerOf dev.channel.basePort ⟨latch, [], 0⟩ b).commands =
      [⟨lba.toNat, sectorCount count.toUInt8⟩])
    (hsectors : (controllerOf dev.channel.basePort ⟨latch, [], 0⟩ b).sectors =
      count.toUInt8.toNat) :
    TransfersRequested dev.channel latch lba count b ↔ 1 ≤ count.toNat ∧ count.toNat ≤ 255 := by
  rw [← narrowed_count_iff]
  unfold TransfersRequested
  rw [hcommands, hsectors]
  constructor
  · intro h
    obtain ⟨n, hcommand, hsectors, hn⟩ := h
    have hcount := congrArg TransferCommand.count (List.cons.inj hcommand).1
    exact ⟨hcount.trans hsectors.symm, hsectors.trans hn⟩
  · intro h
    exact ⟨count.toUInt8.toNat, by rw [h.1], rfl, h.2⟩

end Transfers

/-! ## The operations of a disk -/

section Operations

variable (dev : IdeDevice) (latch : UInt16 → UInt8) (lba count : UInt32) (buf : Buffer)
  (replies : List UInt8) (data : ℕ → UInt16)

/-- **Transfers move the requested amount** exactly for the counts from 1 to 255: for every device,
address and count, and whatever the device answers, if the call returns 0. -/
theorem transfers_requested_iff :
    (∀ buf' b, ideOps.readSectors dev lba count buf (.start replies data) = .ok (0, buf', b) →
      (TransfersRequested dev.channel latch lba count b ↔ 1 ≤ count.toNat ∧ count.toNat ≤ 255)) ∧
    ∀ b, ideOps.writeSectors dev lba count buf (.start replies data) = .ok (0, b) →
      (TransfersRequested dev.channel latch lba count b ↔
        1 ≤ count.toNat ∧ count.toNat ≤ 255) := by
  constructor
  · intro buf' b hrun
    obtain ⟨⟨ret, buf'', b'⟩, haccess, hout⟩ := (bind_eq_ok ..).mp hrun
    obtain ⟨hret, hbuf⟩ := Prod.mk.inj (Except.ok.inj hout)
    obtain ⟨rfl, rfl⟩ := Prod.mk.inj hbuf
    have hzero : ret = 0 := UInt8.toNat_inj.mp (Int.ofNat.inj hret)
    have hmoves := (ataAccessSector_moves latch buf replies data).result haccess hzero
    exact transfersRequested_iff hmoves.1 hmoves.2
  · intro b hrun
    obtain ⟨⟨ret, buf'', b'⟩, haccess, hout⟩ := (bind_eq_ok ..).mp hrun
    obtain ⟨hret, rfl⟩ := Prod.mk.inj (Except.ok.inj hout)
    have hzero : ret = 0 := UInt8.toNat_inj.mp (Int.ofNat.inj hret)
    have hmoves := (ataAccessSector_moves latch buf replies data).result haccess hzero
    exact transfersRequested_iff hmoves.1 hmoves.2

end Operations

/-! ## The primary master -/

/-- The first device of a controller in compatibility mode. -/
def primaryMaster : IdeDevice where
  channel := ⟨0x1F0, 0x3F6, 0, 0x02⟩
  slave := 0
  capabilities := 0x200
  slave_lt := by decide

/-- Two sectors from a device that is ready all the time. -/
theorem transfers_requested_twoSectors : ∃ buf b,
    ideOps.readSectors primaryMaster 0x1234567 2 (fun _ => 0)
        (.start (List.replicate 13 0x58) fun _ => 0) = .ok (0, buf, b) ∧
      TransfersRequested primaryMaster.channel (fun _ => 0) 0x1234567 2 b := by
  have hret : ((ideOps.readSectors primaryMaster 0x1234567 2 (fun _ => 0)
      (.start (List.replicate 13 0x58) fun _ => 0)).toOption.map fun r => r.1) = some 0 := by
    decide
  obtain ⟨⟨ret, buf, b⟩, hrun, hzero⟩ := exists_ok_of_toOption_map hret
  obtain rfl : ret = 0 := hzero
  have hiff := (transfers_requested_iff primaryMaster (fun _ => 0) 0x1234567 2 (fun _ => 0)
    (List.replicate 13 0x58) fun _ => 0).1 buf b hrun
  exact ⟨buf, b, hrun, hiff.mpr (by decide)⟩

/-- 256 sectors: the controller is told 256, and the driver takes none of them. -/
theorem not_transfers_requested_256 : ¬ ∀ buf b,
    ideOps.readSectors primaryMaster 0 256 (fun _ => 0) (.start [0x50] fun _ => 0) =
        .ok (0, buf, b) →
      TransfersRequested primaryMaster.channel (fun _ => 0) 0 256 b := by
  intro hall
  have hview : ((ideOps.readSectors primaryMaster 0 256 (fun _ => 0)
      (.start [0x50] fun _ => 0)).toOption.map fun r =>
        (r.1, (controllerOf 0x1F0 ⟨fun _ => 0, [], 0⟩ r.2.2).sectors)) = some (0, 0) := by
    decide
  obtain ⟨⟨ret, buf, b⟩, hrun, hr⟩ := exists_ok_of_toOption_map hview
  obtain ⟨hret, hsectors⟩ := Prod.mk.inj hr
  obtain rfl : ret = 0 := hret
  obtain ⟨n, -, hmoved, hn⟩ := hall buf b hrun
  have hzero : n = 0 := hmoved.symm.trans hsectors
  exact absurd (hzero.symm.trans hn) (by decide)

end Kfs.Drivers
