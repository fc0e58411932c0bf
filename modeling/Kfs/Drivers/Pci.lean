import Kfs.Kernel.Panic
import Mathlib.Logic.Function.Basic

/-!
# PCI configuration space

The accessors of `src/drivers/pci/pci.h` and the probing of `src/drivers/pci/pci.c` that uses them.
The hardware is configuration mechanism 1: `PCI_CONFIG_ADDRESS` selects a dword of the
configuration space of a function, bits 1 and 0 of it do not count, and the port
`PCI_CONFIG_DATA + i` is byte `i` of that dword.
-/

namespace Kfs.Drivers.Pci

/-! ## Hardware -/

def pciConfigAddress : UInt16 := 0xCF8 -- PCI_CONFIG_ADDRESS
def pciConfigData : UInt16 := 0xCFC -- PCI_CONFIG_DATA

/-- A byte of the configuration space. -/
structure ConfigIndex where
  bus : UInt32
  device : UInt32
  function : UInt32
  offset : UInt8
  deriving DecidableEq, Repr

/-- The address register and the contents of the configuration space. -/
structure PciBus where
  configAddress : UInt32
  space : ConfigIndex → UInt8

/-- The byte of the selected function that an address with bits 1 and 0 ignored and a distance
from it denote. -/
def configIndex (address : UInt32) (i : UInt8) : ConfigIndex where
  bus := (address >>> 16) &&& 0xFF
  device := (address >>> 11) &&& 0x1F
  function := (address >>> 8) &&& 0x07
  offset := (address &&& 0xFC).toUInt8 + i

/-- The byte behind a data port, while bit 31 of the address register is set. -/
def PciBus.selected (b : PciBus) (port : UInt16) : Option ConfigIndex :=
  if b.configAddress >>> 31 = 1 ∧ pciConfigData ≤ port ∧ port < pciConfigData + 4 then
    some (configIndex b.configAddress (port - pciConfigData).toUInt8)
  else none

/-- `inb`. -/
def PciBus.inb (b : PciBus) (port : UInt16) : UInt8 :=
  match b.selected port with
  | some i => b.space i
  | none => 0xFF

/-- `inw`. -/
def PciBus.inw (b : PciBus) (port : UInt16) : UInt16 :=
  (b.inb port).toUInt16 ||| (b.inb (port + 1)).toUInt16 <<< 8

/-- `inl`. -/
def PciBus.inl (b : PciBus) (port : UInt16) : UInt32 :=
  (b.inb port).toUInt32 ||| (b.inb (port + 1)).toUInt32 <<< 8 |||
    (b.inb (port + 2)).toUInt32 <<< 16 ||| (b.inb (port + 3)).toUInt32 <<< 24

/-- `outb`. -/
def PciBus.outb (b : PciBus) (port : UInt16) (value : UInt8) : PciBus :=
  match b.selected port with
  | some i => { b with space := Function.update b.space i value }
  | none => b

/-- `outw`. -/
def PciBus.outw (b : PciBus) (port : UInt16) (value : UInt16) : PciBus :=
  (b.outb port value.toUInt8).outb (port + 1) (value >>> 8).toUInt8

/-- `outl`; only a whole dword reaches the address register. -/
def PciBus.outl (b : PciBus) (port : UInt16) (value : UInt32) : PciBus :=
  if port = pciConfigAddress then { b with configAddress := value }
  else
    (((b.outb port value.toUInt8).outb (port + 1) (value >>> 8).toUInt8).outb (port + 2)
      (value >>> 16).toUInt8).outb (port + 3) (value >>> 24).toUInt8

/-! ## Accessors -/

/-- The part of `struct pci_device` that says where the function is. -/
structure PciFunction where
  bus : UInt8
  slot : UInt8
  func : UInt8
  deriving DecidableEq, Repr

/-- `(lbus << 16) | (lslot << 11) | (lfunc << 8)`. -/
def PciFunction.target (dev : PciFunction) : UInt32 :=
  dev.bus.toUInt32 <<< 16 ||| dev.slot.toUInt32 <<< 11 ||| dev.func.toUInt32 <<< 8

/-- The `address` of every accessor, which differ in what they keep of the offset. -/
def PciFunction.address (dev : PciFunction) (kept : UInt8) : UInt32 :=
  dev.target ||| kept.toUInt32 ||| (1 : UInt32) <<< 31

/-- `outl(PCI_CONFIG_ADDRESS, address)`. -/
def PciFunction.select (dev : PciFunction) (kept : UInt8) (b : PciBus) : PciBus :=
  b.outl pciConfigAddress (dev.address kept)

/-- `pci_config_read_dword`. -/
def pciConfigReadDword (dev : PciFunction) (offset : UInt8) (b : PciBus) : UInt32 × PciBus :=
  -- Bits 1 and 0 of the offset are in the address, where they do not count.
  let b := dev.select offset b
  (b.inl pciConfigData, b)

/-- `pci_config_read_word`. -/
def pciConfigReadWord (dev : PciFunction) (offset : UInt8) (b : PciBus) : UInt16 × PciBus :=
  -- Bit 1 of the offset stays in the address; only bit 0 reaches the port.
  let b := dev.select (offset &&& 0xFE) b
  (b.inw (pciConfigData + (offset &&& 1).toUInt16), b)

/-- `pci_config_read_byte`. -/
def pciConfigReadByte (dev : PciFunction) (offset : UInt8) (b : PciBus) : UInt8 × PciBus :=
  let b := dev.select (offset &&& 0xFC) b
  (b.inb (pciConfigData + (offset &&& 3).toUInt16), b)

/-- `pci_config_write_dword`. -/
def pciConfigWriteDword (dev : PciFunction) (offset : UInt8) (value : UInt32) (b : PciBus) :
    PciBus :=
  (dev.select offset b).outl pciConfigData value

/-- `pci_config_write_word`. -/
def pciConfigWriteWord (dev : PciFunction) (offset : UInt8) (value : UInt16) (b : PciBus) :
    PciBus :=
  (dev.select (offset &&& 0xFE) b).outw (pciConfigData + (offset &&& 1).toUInt16) value

/-- `pci_config_write_byte`. -/
def pciConfigWriteByte (dev : PciFunction) (offset value : UInt8) (b : PciBus) : PciBus :=
  (dev.select (offset &&& 0xFC) b).outb (pciConfigData + (offset &&& 3).toUInt16) value

/-! ## Probing -/

def pciCommonVendorId : UInt8 := 0x00 -- PCI_COMMON_VENDOR_ID
def pciCommonDeviceId : UInt8 := 0x02 -- PCI_COMMON_DEVICE_ID
def pciCommonProgIf : UInt8 := 0x09 -- PCI_COMMON_PROG_IF
def pciCommonSubclass : UInt8 := 0x0A -- PCI_COMMON_SUBCLASS
def pciCommonClassCode : UInt8 := 0x0B -- PCI_COMMON_CLASS_CODE

/-- `get_vendor_id`. -/
def getVendorId (dev : PciFunction) (b : PciBus) : UInt16 × PciBus :=
  pciConfigReadWord dev pciCommonVendorId b

/-- `get_device_id`. -/
def getDeviceId (dev : PciFunction) (b : PciBus) : UInt16 × PciBus :=
  pciConfigReadWord dev pciCommonDeviceId b

/-- `get_class`. -/
def getClass (dev : PciFunction) (b : PciBus) : UInt8 × PciBus :=
  pciConfigReadByte dev pciCommonClassCode b

/-- `get_subclass`. -/
def getSubclass (dev : PciFunction) (b : PciBus) : UInt8 × PciBus :=
  pciConfigReadByte dev pciCommonSubclass b

/-- `get_prog_if`. -/
def getProgIf (dev : PciFunction) (b : PciBus) : UInt8 × PciBus :=
  pciConfigReadByte dev pciCommonProgIf b

/-- `struct pci_device`. -/
structure PciDevice where
  place : PciFunction
  vendorId : UInt16
  deviceId : UInt16
  progIf : UInt8
  classCode : UInt8
  subclass : UInt8
  deriving DecidableEq, Repr

/-- `pci_register_device`: the device that is appended to `pci_devices`, unless `kmalloc` has none
left. -/
def pciRegisterDevice (kmallocOk : Bool) (probe : PciFunction) (b : PciBus) :
    Option PciDevice × PciBus :=
  -- The class is read before memory is asked for.
  let (classCode, b) := getClass probe b
  let (subclass, b) := getSubclass probe b
  if kmallocOk then
    let (vendorId, b) := getVendorId probe b
    let (deviceId, b) := getDeviceId probe b
    let (progIf, b) := getProgIf probe b
    (some ⟨probe, vendorId, deviceId, progIf, classCode, subclass⟩, b)
  else (none, b)

end Kfs.Drivers.Pci
