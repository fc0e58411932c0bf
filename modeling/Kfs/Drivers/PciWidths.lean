import Kfs.Drivers.Pci

/-!
# Accessors of different widths

The three widths put different parts of the offset into the address register and leave the rest to
the data port. Whether they agree is settled by which byte an access then reaches: the byte
accessor reaches the byte at the offset, the dword accessor the four bytes from it, but the word
accessor loses bit 1 of the offset.
-/

namespace Kfs.Drivers.Pci

variable {b c : PciBus} {dev : PciFunction} {off kept i : UInt8} {v : UInt16} {w : UInt32}

/-- What holds of every byte is checked on the 256 of them. -/
theorem forall_uint8 {p : UInt8 → Prop} (h : ∀ x : Fin 256, p (UInt8.ofFin x)) (x : UInt8) : p x :=
  h x.toFin

theorem or_and_distrib (x y z : UInt32) : (x ||| y) &&& z = (x &&& z) ||| (y &&& z) :=
  UInt32.eq_of_toBitVec_eq BitVec.and_or_distrib_right

/-! ## Which byte an access reaches -/

/-- The byte of a function at an offset. -/
def PciFunction.byteIndex (dev : PciFunction) (off : UInt8) : ConfigIndex where
  bus := (dev.target >>> 16) &&& 0xFF
  device := (dev.target >>> 11) &&& 0x1F
  function := (dev.target >>> 8) &&& 0x07
  offset := off

/-- An offset does not reach above bit 7 of the address. -/
theorem offset_bits (x : UInt8) :
    x.toUInt32 >>> 16 = 0 ∧ x.toUInt32 >>> 11 = 0 ∧ x.toUInt32 >>> 8 = 0 ∧
      x.toUInt32 >>> 31 = 0 ∧ (x.toUInt32 &&& 0xFC).toUInt8 = x &&& 0xFC := by
  revert x
  exact forall_uint8 (by decide +kernel)

/-- A field above the offset leaves bits 7 to 2 of the address clear, and bit 31. -/
theorem field_bits (x : UInt8) :
    (x.toUInt32 <<< 16 &&& 0xFC = 0 ∧ (x.toUInt32 <<< 16) >>> 31 = 0) ∧
    (x.toUInt32 <<< 11 &&& 0xFC = 0 ∧ (x.toUInt32 <<< 11) >>> 31 = 0) ∧
      x.toUInt32 <<< 8 &&& 0xFC = 0 ∧ (x.toUInt32 <<< 8) >>> 31 = 0 := by
  revert x
  exact forall_uint8 (by decide +kernel)

theorem target_bits (dev : PciFunction) : dev.target &&& 0xFC = 0 ∧ dev.target >>> 31 = 0 := by
  obtain ⟨⟨hbus, hbus'⟩, -⟩ := field_bits dev.bus
  obtain ⟨-, ⟨hslot, hslot'⟩, -⟩ := field_bits dev.slot
  obtain ⟨-, -, hfunc, hfunc'⟩ := field_bits dev.func
  unfold PciFunction.target
  constructor
  · rw [or_and_distrib, or_and_distrib, hbus, hslot, hfunc]
    rfl
  · rw [UInt32.shiftRight_or, UInt32.shiftRight_or, hbus', hslot', hfunc']
    rfl

/-- The address register is enabled and denotes the dword that holds the kept offset. -/
theorem configIndex_address (dev : PciFunction) (kept i : UInt8) :
    dev.address kept >>> 31 = 1 ∧
      configIndex (dev.address kept) i = dev.byteIndex ((kept &&& 0xFC) + i) := by
  obtain ⟨h16, h11, h8, h31, hlow⟩ := offset_bits kept
  obtain ⟨htarget, htarget31⟩ := target_bits dev
  unfold PciFunction.address configIndex PciFunction.byteIndex
  constructor
  · rw [UInt32.shiftRight_or, UInt32.shiftRight_or, htarget31, h31]
    rfl
  · -- The enable bit is above every field and does not show in any of them.
    simp only [UInt32.shiftRight_or, or_and_distrib, h16, h11, h8, htarget]
    have h16' : ((1 : UInt32) <<< 31) >>> 16 &&& 0xFF = 0 := by decide
    have h11' : ((1 : UInt32) <<< 31) >>> 11 &&& 0x1F = 0 := by decide
    have h8' : ((1 : UInt32) <<< 31) >>> 8 &&& 0x07 = 0 := by decide
    have hlow' : ((1 : UInt32) <<< 31) &&& 0xFC = 0 := by decide
    rw [h16', h11', h8', hlow']
    simp only [UInt32.zero_and, UInt32.zero_or, UInt32.or_zero, hlow]

/-- The data ports of one dword. -/
theorem data_port (i : UInt8) :
    i < 4 → pciConfigData ≤ pciConfigData + i.toUInt16 ∧
      pciConfigData + i.toUInt16 < pciConfigData + 4 ∧
      (pciConfigData + i.toUInt16 - pciConfigData).toUInt8 = i := by
  revert i
  exact forall_uint8 (by decide +kernel)

/-- The bytes of the dword that an address selects. -/
def PciFunction.dwordIndex (dev : PciFunction) (kept i : UInt8) : ConfigIndex :=
  dev.byteIndex ((kept &&& 0xFC) + i)

/-- One byte of the configuration space has been written. -/
def PciBus.store (b : PciBus) (index : ConfigIndex) (x : UInt8) : PciBus :=
  { b with space := Function.update b.space index x }

section Ports

variable {port : UInt16} (hc : c.configAddress = dev.address kept) (hi : i < 4)
  (hport : port = pciConfigData + i.toUInt16)
include hc hi hport

theorem selected_data : c.selected port = some (dev.dwordIndex kept i) := by
  subst hport
  obtain ⟨hle, hlt, hdist⟩ := data_port i hi
  obtain ⟨henable, hindex⟩ := configIndex_address dev kept i
  unfold PciBus.selected
  rw [hc, if_pos ⟨henable, hle, hlt⟩, hdist, hindex]
  rfl

theorem inb_data : c.inb port = c.space (dev.dwordIndex kept i) := by
  unfold PciBus.inb
  rw [selected_data hc hi hport]

theorem outb_data (x : UInt8) : c.outb port x = c.store (dev.dwordIndex kept i) x := by
  unfold PciBus.outb
  rw [selected_data hc hi hport]
  rfl

end Ports

/-- The four data ports one after the other. -/
theorem inb_ports (hc : c.configAddress = dev.address kept) :
    c.inb pciConfigData = c.space (dev.dwordIndex kept 0) ∧
      c.inb (pciConfigData + 1) = c.space (dev.dwordIndex kept 1) ∧
      c.inb (pciConfigData + 2) = c.space (dev.dwordIndex kept 2) ∧
      c.inb (pciConfigData + 3) = c.space (dev.dwordIndex kept 3) :=
  ⟨inb_data (i := 0) hc (by decide) rfl, inb_data (i := 1) hc (by decide) rfl,
    inb_data (i := 2) hc (by decide) rfl, inb_data (i := 3) hc (by decide) rfl⟩

theorem outb_ports (dev : PciFunction) (kept : UInt8) (hc : c.configAddress = dev.address kept) (x : UInt8) :
    c.outb pciConfigData x = c.store (dev.dwordIndex kept 0) x ∧
      c.outb (pciConfigData + 1) x = c.store (dev.dwordIndex kept 1) x ∧
      c.outb (pciConfigData + 2) x = c.store (dev.dwordIndex kept 2) x ∧
      c.outb (pciConfigData + 3) x = c.store (dev.dwordIndex kept 3) x :=
  ⟨outb_data (i := 0) hc (by decide) rfl x, outb_data (i := 1) hc (by decide) rfl x,
    outb_data (i := 2) hc (by decide) rfl x, outb_data (i := 3) hc (by decide) rfl x⟩

theorem select_configAddress (dev : PciFunction) (kept : UInt8) (b : PciBus) :
    (dev.select kept b).configAddress = dev.address kept := rfl

/-! ## What the accessors do -/

/-- How the byte accessor divides the offset. -/
theorem byte_split (off : UInt8) :
    ((off &&& 0xFC) &&& 0xFC) + (off &&& 3) = off ∧ off &&& 3 < 4 := by
  revert off
  exact forall_uint8 (by decide +kernel)

theorem pciConfigReadByte_eq (dev : PciFunction) (off : UInt8) (b : PciBus) :
    (pciConfigReadByte dev off b).1 = b.space (dev.byteIndex off) := by
  obtain ⟨hsplit, hlt⟩ := byte_split off
  have hinb := inb_data (c := dev.select (off &&& 0xFC) b) rfl hlt rfl
  unfold PciFunction.dwordIndex at hinb
  rw [hsplit] at hinb
  exact hinb

theorem pciConfigWriteByte_space (dev : PciFunction) (off x : UInt8) (b : PciBus) :
    (pciConfigWriteByte dev off x b).space =
      Function.update b.space (dev.byteIndex off) x := by
  obtain ⟨hsplit, hlt⟩ := byte_split off
  unfold pciConfigWriteByte
  rw [outb_data rfl hlt rfl]
  unfold PciFunction.dwordIndex
  rw [hsplit]
  rfl

theorem inw_select (dev : PciFunction) (kept : UInt8) (b : PciBus) :
    (dev.select kept b).inw pciConfigData =
      (b.space (dev.dwordIndex kept 0)).toUInt16 |||
        (b.space (dev.dwordIndex kept 1)).toUInt16 <<< 8 := by
  obtain ⟨h0, h1, -, -⟩ := inb_ports (select_configAddress dev kept b)
  unfold PciBus.inw
  rw [h0, h1]
  rfl

theorem inl_select (dev : PciFunction) (kept : UInt8) (b : PciBus) :
    (dev.select kept b).inl pciConfigData =
      (b.space (dev.dwordIndex kept 0)).toUInt32 |||
        (b.space (dev.dwordIndex kept 1)).toUInt32 <<< 8 |||
        (b.space (dev.dwordIndex kept 2)).toUInt32 <<< 16 |||
        (b.space (dev.dwordIndex kept 3)).toUInt32 <<< 24 := by
  obtain ⟨h0, h1, h2, h3⟩ := inb_ports (select_configAddress dev kept b)
  unfold PciBus.inl
  rw [h0, h1, h2, h3]
  rfl

theorem outw_select (dev : PciFunction) (kept : UInt8) (b : PciBus) (v : UInt16) :
    ((dev.select kept b).outw pciConfigData v).space =
      Function.update (Function.update b.space (dev.dwordIndex kept 0) v.toUInt8)
        (dev.dwordIndex kept 1) (v >>> 8).toUInt8 := by
  unfold PciBus.outw
  rw [(outb_ports dev kept (select_configAddress dev kept b) _).1,
    (outb_ports dev kept rfl _).2.1]
  rfl

theorem outl_select (dev : PciFunction) (kept : UInt8) (b : PciBus) (w : UInt32) :
    ((dev.select kept b).outl pciConfigData w).space =
      Function.update (Function.update (Function.update (Function.update b.space
        (dev.dwordIndex kept 0) w.toUInt8) (dev.dwordIndex kept 1) (w >>> 8).toUInt8)
        (dev.dwordIndex kept 2) (w >>> 16).toUInt8) (dev.dwordIndex kept 3)
        (w >>> 24).toUInt8 := by
  unfold PciBus.outl
  rw [if_neg (by decide), (outb_ports dev kept (select_configAddress dev kept b) _).1,
    (outb_ports dev kept rfl _).2.1, (outb_ports dev kept rfl _).2.2.1,
    (outb_ports dev kept rfl _).2.2.2]
  rfl

/-! ## Agreement -/

/-- At the offset `off` the word accessors read and write the bytes at `off` and `off + 1`; where
`off` is the offset of a dword, the dword accessors its four bytes. -/
structure AccessorsAgree (b : PciBus) (dev : PciFunction) (off : UInt8) (v : UInt16) (w : UInt32) :
    Prop where
  readWord : (pciConfigReadWord dev off b).1 =
    (pciConfigReadByte dev off b).1.toUInt16 |||
      (pciConfigReadByte dev (off + 1) b).1.toUInt16 <<< 8
  writeWord : (pciConfigWriteWord dev off v b).space =
    Function.update (Function.update b.space (dev.byteIndex off) v.toUInt8)
      (dev.byteIndex (off + 1)) (v >>> 8).toUInt8
  readDword : off % 4 = 0 → (pciConfigReadDword dev off b).1 =
    (pciConfigReadByte dev off b).1.toUInt32 |||
      (pciConfigReadByte dev (off + 1) b).1.toUInt32 <<< 8 |||
      (pciConfigReadByte dev (off + 2) b).1.toUInt32 <<< 16 |||
      (pciConfigReadByte dev (off + 3) b).1.toUInt32 <<< 24
  writeDword : off % 4 = 0 → (pciConfigWriteDword dev off w b).space =
    Function.update (Function.update (Function.update (Function.update b.space
      (dev.byteIndex off) w.toUInt8) (dev.byteIndex (off + 1)) (w >>> 8).toUInt8)
      (dev.byteIndex (off + 2)) (w >>> 16).toUInt8) (dev.byteIndex (off + 3)) (w >>> 24).toUInt8

/-- The word at the offset and the word before it already hold the word to be written, so that it
does not matter which of them is meant. -/
structure SameWords (b : PciBus) (dev : PciFunction) (off : UInt8) (v : UInt16) : Prop where
  lowBefore : b.space (dev.byteIndex (off - 2)) = v.toUInt8
  highBefore : b.space (dev.byteIndex (off - 1)) = (v >>> 8).toUInt8
  low : b.space (dev.byteIndex off) = v.toUInt8
  high : b.space (dev.byteIndex (off + 1)) = (v >>> 8).toUInt8

/-- What the word accessor makes of an even offset: the dword that contains it. -/
theorem even_split (off : UInt8) :
    off % 2 = 0 → off &&& 1 = 0 ∧ (off &&& 0xFE) &&& 0xFC = off &&& 0xFC := by
  revert off
  exact forall_uint8 (by decide +kernel)

theorem pciConfigReadWord_eq (b : PciBus) (dev : PciFunction) (heven : off % 2 = 0) :
    (pciConfigReadWord dev off b).1 =
      (b.space (dev.byteIndex (off &&& 0xFC))).toUInt16 |||
        (b.space (dev.byteIndex ((off &&& 0xFC) + 1))).toUInt16 <<< 8 := by
  obtain ⟨hport, hkept⟩ := even_split off heven
  have hinw := inw_select dev (off &&& 0xFE) b
  unfold PciFunction.dwordIndex at hinw
  rw [hkept, UInt8.add_zero] at hinw
  rw [← hinw]
  unfold pciConfigReadWord
  rw [hport]
  rfl

theorem pciConfigWriteWord_space (heven : off % 2 = 0) :
    (pciConfigWriteWord dev off v b).space =
      Function.update (Function.update b.space (dev.byteIndex (off &&& 0xFC)) v.toUInt8)
        (dev.byteIndex ((off &&& 0xFC) + 1)) (v >>> 8).toUInt8 := by
  obtain ⟨hport, hkept⟩ := even_split off heven
  have houtw := outw_select dev (off &&& 0xFE) b v
  unfold PciFunction.dwordIndex at houtw
  rw [hkept, UInt8.add_zero] at houtw
  rw [← houtw]
  unfold pciConfigWriteWord
  rw [hport]
  rfl

theorem byteIndex_ne (dev : PciFunction) {x y : UInt8} (h : x ≠ y) :
    dev.byteIndex x ≠ dev.byteIndex y := fun heq => h (congrArg ConfigIndex.offset heq)

/-- At the offset of a dword all widths agree. -/
theorem accessorsAgree_of_dword (hoff : off % 4 = 0) : AccessorsAgree b dev off v w := by
  have hsplit : ∀ x : UInt8, x % 4 = 0 → x % 2 = 0 ∧ x &&& 0xFC = x :=
    forall_uint8 (by decide +kernel)
  -- The dword that the word accessor selects starts at the offset itself.
  obtain ⟨heven, hkept⟩ := hsplit off hoff
  constructor
  · rw [pciConfigReadWord_eq b dev heven, pciConfigReadByte_eq, pciConfigReadByte_eq, hkept]
  · rw [pciConfigWriteWord_space heven, hkept]
  · intro _
    have hinl := inl_select dev off b
    unfold PciFunction.dwordIndex at hinl
    rw [hkept, UInt8.add_zero] at hinl
    rw [pciConfigReadByte_eq, pciConfigReadByte_eq, pciConfigReadByte_eq, pciConfigReadByte_eq]
    exact hinl
  · intro _
    have houtl := outl_select dev off b w
    unfold PciFunction.dwordIndex at houtl
    rw [hkept, UInt8.add_zero] at houtl
    exact houtl

/-- In the middle of a dword the word accessors reach the word before. -/
theorem middle_split (off : UInt8) :
    off % 2 = 0 → off % 4 ≠ 0 → off &&& 0xFC = off - 2 ∧ off - 2 + 1 = off - 1 ∧
      off - 2 ≠ off ∧ off - 2 ≠ off + 1 ∧ off - 1 ≠ off ∧ off - 1 ≠ off + 1 ∧
      off - 2 ≠ off - 1 ∧ off ≠ off + 1 := by
  revert off
  exact forall_uint8 (by decide +kernel)

theorem accessorsAgree_middle (heven : off % 2 = 0) (hoff : off % 4 ≠ 0) :
    AccessorsAgree b dev off v w ↔ SameWords b dev off v := by
  obtain ⟨hkept, hnext, h20, h21, h10, h11, h1, h0⟩ := middle_split off heven hoff
  have hwrite : (pciConfigWriteWord dev off v b).space =
      Function.update (Function.update b.space (dev.byteIndex (off - 2)) v.toUInt8)
        (dev.byteIndex (off - 1)) (v >>> 8).toUInt8 := by
    rw [pciConfigWriteWord_space heven, hkept, hnext]
  constructor
  · intro h
    -- The two ways to write the word are compared at the four bytes concerned.
    have heq := hwrite.symm.trans h.writeWord
    constructor
    · have hat := congrFun heq (dev.byteIndex (off - 2))
      rw [Function.update_of_ne (byteIndex_ne dev h1), Function.update_self,
        Function.update_of_ne (byteIndex_ne dev h21),
        Function.update_of_ne (byteIndex_ne dev h20)] at hat
      exact hat.symm
    · have hat := congrFun heq (dev.byteIndex (off - 1))
      rw [Function.update_self, Function.update_of_ne (byteIndex_ne dev h11),
        Function.update_of_ne (byteIndex_ne dev h10)] at hat
      exact hat.symm
    · have hat := congrFun heq (dev.byteIndex off)
      rw [Function.update_of_ne (byteIndex_ne dev h10.symm),
        Function.update_of_ne (byteIndex_ne dev h20.symm),
        Function.update_of_ne (byteIndex_ne dev h0), Function.update_self] at hat
      exact hat
    · have hat := congrFun heq (dev.byteIndex (off + 1))
      rw [Function.update_of_ne (byteIndex_ne dev h11.symm),
        Function.update_of_ne (byteIndex_ne dev h21.symm), Function.update_self] at hat
      exact hat
  · intro h
    -- Both words hold what is written, so that neither write changes anything.
    constructor
    · rw [pciConfigReadWord_eq b dev heven, pciConfigReadByte_eq, pciConfigReadByte_eq, hkept, hnext,
        h.lowBefore, h.highBefore, h.low, h.high]
    · rw [hwrite, ← h.lowBefore, ← h.highBefore, Function.update_eq_self,
        Function.update_eq_self, h.lowBefore, h.highBefore, ← h.low, ← h.high,
        Function.update_eq_self, Function.update_eq_self]
    · exact fun hzero => absurd hzero hoff
    · exact fun hzero => absurd hzero hoff

/-- **Configuration accessors.** At an even offset the word accessors agree with the byte accessors
exactly where the offset is that of a dword, or where the word before it holds the same bytes and
these are what is written; whatever the contents, only at the offset of a dword. There the dword
accessors agree as well. -/
theorem accessorsAgree_iff (b : PciBus) (dev : PciFunction) (off : UInt8) (v : UInt16)
    (w : UInt32) (heven : off % 2 = 0) :
    (AccessorsAgree b dev off v w ↔ off % 4 = 0 ∨ SameWords b dev off v) ∧
      ((∀ b' v' w', AccessorsAgree b' dev off v' w') ↔ off % 4 = 0) := by
  have hiff : ∀ b' v' w',
      AccessorsAgree b' dev off v' w' ↔ off % 4 = 0 ∨ SameWords b' dev off v' := by
    intro b' v' w'
    by_cases hoff : off % 4 = 0
    · exact ⟨fun _ => Or.inl hoff, fun _ => accessorsAgree_of_dword hoff⟩
    · rw [accessorsAgree_middle heven hoff]
      exact ⟨Or.inr, fun h => h.resolve_left hoff⟩
  refine ⟨hiff b v w, fun h => ?_, fun hoff _ _ _ => accessorsAgree_of_dword hoff⟩
  -- Nothing is as it was written where every byte is 1 and the word is 0.
  rcases (hiff ⟨0, fun _ => 1⟩ 0 0).mp (h _ _ _) with hoff | hsame
  · exact hoff
  · exact absurd hsame.low (show (1 : UInt8) ≠ 0 by decide)

/-- A host bridge: vendor 0x8086, device 0x1237. -/
def hostBridge : PciBus where
  configAddress := 0
  space i :=
    if i.offset = 0 then 0x86 else if i.offset = 1 then 0x80
    else if i.offset = 2 then 0x37 else if i.offset = 3 then 0x12 else 0

theorem accessorsAgree_iff_hostBridge :
    AccessorsAgree hostBridge ⟨0, 0, 0⟩ 0 0xFFFF 0 ∧
      ¬ ∀ b' v' w', AccessorsAgree b' ⟨0, 0, 0⟩ 2 v' w' :=
  ⟨(accessorsAgree_iff hostBridge ⟨0, 0, 0⟩ 0 0xFFFF 0 rfl).1.mpr (Or.inl rfl),
    fun h => absurd ((accessorsAgree_iff hostBridge ⟨0, 0, 0⟩ 2 0xFFFF 0 rfl).2.mp h) (by decide)⟩

/-- The device id of the host bridge is read as its vendor id. -/
theorem not_accessorsAgree_hostBridge :
    ¬ ∀ (b : PciBus) (dev : PciFunction) (off : UInt8) (v : UInt16) (w : UInt32),
      off % 2 = 0 → AccessorsAgree b dev off v w := by
  intro h
  have hread := (h hostBridge ⟨0, 0, 0⟩ pciCommonDeviceId 0 0 rfl).readWord
  revert hread
  decide

/-! ## Probing -/

/-- Whatever the hardware holds, a registered device has its vendor id for a device id. -/
theorem pciRegisterDevice_ids {kmallocOk : Bool} {probe : PciFunction} {d : PciDevice}
    {b' : PciBus} (h : pciRegisterDevice kmallocOk probe b = (some d, b')) :
    d.deviceId = d.vendorId := by
  cases kmallocOk with
  | false => cases h
  | true =>
    obtain ⟨hd, -⟩ := Prod.mk.inj h
    obtain rfl := Option.some.inj hd
    -- The offsets 0 and 2 lie in one dword.
    have hid : (getDeviceId probe b).1 = _ := pciConfigReadWord_eq b probe rfl
    have hvendor : (getVendorId probe b).1 = _ := pciConfigReadWord_eq b probe rfl
    exact hid.trans hvendor.symm

end Kfs.Drivers.Pci
