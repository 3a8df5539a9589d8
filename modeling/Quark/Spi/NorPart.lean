import Quark.Spi.Controller

/-!
# A flash part on the bus

A part that takes page programs, 4 KB erases and reads, and the table that `SpiFlashDevice.c` has for it.
Writing commands come in an atomic sequence behind a write enable.
-/

namespace Quark.Spi

open Machine

namespace SpiCommand

abbrev write : Byte := 0x02
abbrev read : Byte := 0x03
abbrev erase : Byte := 0x20
abbrev readS : Byte := 0x05
abbrev writeEnable : Byte := 0x06
abbrev readId : Byte := 0xAB
abbrev jedecId : Byte := 0x9F
abbrev writeSEn : Byte := 0x50
abbrev writeS : Byte := 0x01
abbrev chipErase : Byte := 0xC7

end SpiCommand

abbrev pageSize : Nat := 256

abbrev eraseSectorSize : Nat := 0x1000

abbrev Cycle.Programs (c : Cycle) : Prop :=
  c.prefixOpcode? = some SpiCommand.writeEnable ∧ c.opcode = SpiCommand.write

abbrev Cycle.Erases (c : Cycle) : Prop :=
  c.prefixOpcode? = some SpiCommand.writeEnable ∧ c.opcode = SpiCommand.erase

def norRespond (c : Cycle) (chip : ByteStore) : ByteStore × List Byte :=
  if c.Programs then (chip.programPage pageSize c.address c.data, [])
  else if c.Erases then
    (chip.erase (c.address / eraseSectorSize * eraseSectorSize) eraseSectorSize, [])
  else if c.opcode = SpiCommand.read then (chip, chip.read c.address c.length)
  else (chip, [])

/-- The cycle may change the byte at `x`. -/
def Cycle.Touches (c : Cycle) (x : Nat) : Prop :=
  c.Programs ∧ x / pageSize = c.address / pageSize ∧
    (x % pageSize + (pageSize - c.address % pageSize)) % pageSize < c.length ∨
  c.Erases ∧ x / eraseSectorSize = c.address / eraseSectorSize

/-- The opcode menu that the parts with 4 KB sectors share in `mSpiInitTable`. -/
def sectorMenu : Fin numOpcode → OpcodeMenuEntry := fun i => match i with
  | 0 => ⟨.readNoAddr, SpiCommand.jedecId⟩
  | 1 => ⟨.read, SpiCommand.readId⟩
  | 2 => ⟨.writeNoAddr, SpiCommand.writeS⟩
  | 3 => ⟨.write, SpiCommand.write⟩
  | 4 => ⟨.read, SpiCommand.read⟩
  | 5 => ⟨.write, SpiCommand.erase⟩
  | 6 => ⟨.readNoAddr, SpiCommand.readS⟩
  | 7 => ⟨.writeNoAddr, SpiCommand.chipErase⟩

/-- The entry of `mSpiInitTable` for a part of `size` bytes with `FLASH_SIZE` of them for the BIOS. -/
def initTableOf (size flashSize : BitVec 32) : SpiInitTable where
  prefixOpcode := fun i => match i with
    | 0 => SpiCommand.writeEnable
    | 1 => SpiCommand.writeSEn
  opcodeMenu := sectorMenu
  biosStartOffset := size - flashSize
  biosSize := flashSize

/-- A controller that `SpiProtocolInit` has set up from the table, with a NOR part that is always ready. -/
def readyEnv (size flashSize : BitVec 32) (baseAddress : BitVec 32) : Env where
  initTable := initTableOf size flashSize
  preOp := (initTableOf size flashSize).prefixOpcode
  opMenu := fun i => (sectorMenu i).code
  spis := fun _ => 0
  respond := norRespond
  flashSize := size.toNat
  memory := fun _ => ByteStore.erased
  baseAddress := baseAddress
  assertEnabled := true

theorem readyEnv_completes (size flashSize baseAddress : BitVec 32) :
    (readyEnv size flashSize baseAddress).Completes :=
  fun _ => ⟨0, by decide, fun _ hi => absurd hi (Nat.not_lt_zero _), BitVec.zero_and⟩

/-- A host whose part holds `chip`, after reset. -/
def hostWith (chip : ByteStore) : Host where
  chip := chip
  spid := fun _ => 0
  spia := 0
  biosCntl := 0
  hmisc := 0x80000
  polls := 0
  exchanges := []
  reads := []

end Quark.Spi
