import Quark.Machine.Exec
import Quark.Machine.BitField

/-!
# QNC SMM dispatcher: SMI sources

The registers of the power management blocks, the bit descriptions of `QNCSmm.h`, and the helpers of
`QNCSmmHelpers.c` that read and write them. A source of SMIs is described by its enable bits and its
status bit.

The bits of a status register are cleared by writing 1 to them, which is how `QNCSmmClearSmi` uses
`PM1S`, `GPE0S` and `SMIS`. Every other register holds what is written to it.
-/

namespace Quark.SmmDispatcher

open Machine

/-! ## Registers -/

/-- `ADDR_TYPE`: the block that an address is an offset into. -/
inductive AddrType where
  | acpi
  | gpe
  | memoryMappedIo
  | pci
  deriving DecidableEq, Repr

/-- The sizes of register that `ReadBitDesc` and `WriteBitDesc` take. -/
inductive Width where
  | byte
  | word
  | dword
  deriving DecidableEq, Repr

def Width.mask : Width → BitVec 32
  | .byte => 0xFF
  | .word => 0xFFFF
  | .dword => 0xFFFFFFFF

abbrev pm1s : Nat := 0x00
abbrev pm1e : Nat := 0x02
abbrev pm1c : Nat := 0x04
abbrev gpe0s : Nat := 0x00
abbrev gpe0e : Nat := 0x04
abbrev smie : Nat := 0x10
abbrev smis : Nat := 0x14
abbrev pmcw : Nat := 0x28

/-- `BIOS_CNTL` of the LPC bridge, device 31. -/
abbrev biosCntl : Nat := 31 * 2 ^ 16 + 0xD8

abbrev smisEos : BitVec 32 := 0x80000000
abbrev pmcwPse : BitVec 32 := 0x80000000
abbrev pm1cScien : BitVec 32 := 0x1
abbrev pm1cSlpen : BitVec 32 := 0x2000
abbrev pm1cSlptp : BitVec 32 := 0x1C00

/-- The hardware: registers by block and offset, and the APM command port. -/
structure Hw where
  reg : AddrType → Nat → BitVec 32
  apmCnt : BitVec 8

def IsStatus (type : AddrType) (addr : Nat) : Prop :=
  (type = .gpe ∧ (addr = gpe0s ∨ addr = smis)) ∨ (type = .acpi ∧ addr = pm1s)

instance (type : AddrType) (addr : Nat) : Decidable (IsStatus type addr) :=
  inferInstanceAs (Decidable (_ ∨ _))

namespace Hw

def ioRead (hw : Hw) (type : AddrType) (addr : Nat) (width : Width) : BitVec 32 :=
  hw.reg type addr &&& width.mask

def ioWrite (hw : Hw) (type : AddrType) (addr : Nat) (width : Width) (value : BitVec 32) : Hw :=
  { hw with reg := fun t a =>
      if t = type ∧ a = addr then
        if IsStatus type addr then hw.reg t a &&& ~~~(value &&& width.mask)
        else merge (hw.reg t a) value width.mask
      else hw.reg t a }

def ioAndThenOr (hw : Hw) (type : AddrType) (addr : Nat) (width : Width) (andData orData : BitVec 32) :
    Hw :=
  hw.ioWrite type addr width ((hw.ioRead type addr width &&& andData) ||| orData)

def ioOr (hw : Hw) (type : AddrType) (addr : Nat) (width : Width) (orData : BitVec 32) : Hw :=
  hw.ioWrite type addr width (hw.ioRead type addr width ||| orData)

def ioAnd (hw : Hw) (type : AddrType) (addr : Nat) (width : Width) (andData : BitVec 32) : Hw :=
  hw.ioWrite type addr width (hw.ioRead type addr width &&& andData)

end Hw

/-! ## Bits and sources -/

/-- `QNC_SMM_BIT_DESC`. A `NULL` description is `none`. -/
structure BitDesc where
  type : AddrType
  reg : Nat
  width : Width
  bit : Nat
  deriving DecidableEq, Repr

def readBitDesc (hw : Hw) (d : BitDesc) : Bool := (hw.ioRead d.type d.reg d.width).getLsbD d.bit

def writeBitDesc (hw : Hw) (d : BitDesc) (valueToWrite : Bool) : Hw :=
  hw.ioAndThenOr d.type d.reg d.width (~~~(1#32 <<< d.bit)) (if valueToWrite then 1#32 <<< d.bit else 0)

/-- `QNC_SMM_SOURCE_DESC`, with `NUM_EN_BITS` enable bits and one status bit. -/
structure SourceDesc where
  sciEnDependent : Bool
  clearWithZero : Bool
  en : Option BitDesc × Option BitDesc
  sts : Option BitDesc
  deriving DecidableEq, Repr

namespace SourceDesc

/-- The enable bits that are not `NULL`. -/
def enables (src : SourceDesc) : List BitDesc := src.en.1.toList ++ src.en.2.toList

end SourceDesc

/-- The test of one bit in `CompareEnables` and `CompareStatuses`: the size is not compared. -/
def sameBit : Option BitDesc → Option BitDesc → Bool
  | none, none => true
  | some a, some b => a.bit = b.bit ∧ a.type = b.type ∧ a.reg = b.reg
  | _, _ => false

def compareEnables (a b : SourceDesc) : Bool := sameBit a.en.1 b.en.1 && sameBit a.en.2 b.en.2

def compareStatuses (a b : SourceDesc) : Bool := sameBit a.sts b.sts

def compareSources (a b : SourceDesc) : Bool := compareEnables a b && compareStatuses a b

def qncSmmGetSciEn (hw : Hw) : Bool := hw.ioRead .acpi pm1c .dword &&& pm1cScien = pm1cScien

def sourceIsActive (hw : Hw) (src : SourceDesc) : Bool :=
  if src.sciEnDependent && qncSmmGetSciEn hw then false
  else src.enables.all (readBitDesc hw) && src.sts.toList.all (readBitDesc hw)

def qncSmmClearSource (hw : Hw) (src : SourceDesc) : Hw :=
  src.sts.toList.foldl (fun hw d => writeBitDesc hw d (!src.clearWithZero)) hw

def qncSmmEnableSource (hw : Hw) (src : SourceDesc) : Hw :=
  qncSmmClearSource (src.enables.foldl (fun hw d => writeBitDesc hw d true) hw) src

def qncSmmDisableSource (hw : Hw) (src : SourceDesc) : Hw :=
  src.enables.foldl (fun hw d => writeBitDesc hw d false) hw

/-- `QNCSmmSetAndCheckEos`. It reports success whatever the register holds. -/
def qncSmmSetAndCheckEos (hw : Hw) : Bool × Hw := (true, hw.ioOr .gpe smis .dword smisEos)

/-! ## The sources of the chipset -/

/-- A source with its enable bit in `SMIE` and its status bit at the same place of `SMIS`. -/
def smiSource (bit : Nat) : SourceDesc :=
  ⟨false, false, (some ⟨.gpe, smie, .dword, bit⟩, none), some ⟨.gpe, smis, .dword, bit⟩⟩

def timerSourceDesc : SourceDesc := smiSource 1

def sxSourceDesc : SourceDesc := smiSource 2

def swSourceDesc : SourceDesc := smiSource 4

def gpiSourceDesc : SourceDesc := smiSource 9

def rtcAlarmSourceDesc : SourceDesc :=
  ⟨false, false, (some ⟨.acpi, pm1e, .word, 10⟩, none), some ⟨.acpi, pm1s, .word, 10⟩⟩

def biosWpSourceDesc : SourceDesc :=
  ⟨false, true, (some ⟨.pci, biosCntl, .dword, 1⟩, none), some ⟨.pci, biosCntl, .dword, 0⟩⟩

def thrmStsSourceDesc : SourceDesc :=
  ⟨true, false, (some ⟨.gpe, gpe0e, .dword, 12⟩, none), some ⟨.gpe, gpe0s, .dword, 12⟩⟩

/-- `NULL_SOURCE_DESC_INITIALIZER`. -/
def nullSourceDesc : SourceDesc := ⟨false, false, (none, none), none⟩

abbrev numIchnTypes : Nat := 43

/-- `QNCN_SOURCE_DESCS`: most of its entries are `NULL`. -/
def qncnSourceDescs (type : Nat) : SourceDesc :=
  if type = 2 then rtcAlarmSourceDesc
  else if type = 11 then biosWpSourceDesc
  else if type = 14 then thrmStsSourceDesc
  else nullSourceDesc

def sourceDescs : List SourceDesc :=
  [timerSourceDesc, sxSourceDesc, swSourceDesc, gpiSourceDesc, rtcAlarmSourceDesc, biosWpSourceDesc,
    thrmStsSourceDesc]

end Quark.SmmDispatcher
