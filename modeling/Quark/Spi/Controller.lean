import Quark.Base.Efi
import Quark.Machine.BitField
import Quark.Machine.NorFlash
import Quark.Machine.Spans

/-!
# The SPI controller driver

`SpiProtocolExecute` and what it calls in `SpiCommon.c`. The controller holds up to 64 data bytes, an
address and a control word; a write of the control word with `SCGO` set runs one cycle on the flash part.
What the reads of the status register give, what a cycle makes of the part and what the part answers are
the environment's.
-/

namespace Quark.Spi

open Machine Machine.Exec

/-! ## What the driver is set up with -/

inductive OpcodeType where
  | readNoAddr
  | writeNoAddr
  | read
  | write
  deriving DecidableEq, Repr

inductive RegionType where
  | all
  | bios
  | me
  | gbE
  | descriptor
  | platformData
  deriving DecidableEq, Repr

abbrev numOpcode : Nat := 8

abbrev numPrefixOpcode : Nat := 2

scoped instance numOpcode_neZero : NeZero numOpcode := ⟨by decide⟩
scoped instance numPrefixOpcode_neZero : NeZero numPrefixOpcode := ⟨by decide⟩

structure OpcodeMenuEntry where
  type : OpcodeType
  code : Byte
  deriving DecidableEq, Repr

structure SpiInitTable where
  prefixOpcode : Fin numPrefixOpcode → Byte
  opcodeMenu : Fin numOpcode → OpcodeMenuEntry
  biosStartOffset : BitVec 32
  biosSize : BitVec 32

/-! ## The controller and the part -/

structure Cycle where
  /-- The prefix opcode of an atomic sequence. -/
  prefixOpcode? : Option Byte
  opcode : Byte
  address : Nat
  /-- The number of data bytes, zero if the cycle has none. -/
  length : Nat
  /-- The data registers when the cycle starts, as far as the cycle covers them. -/
  data : List Byte
  deriving DecidableEq, Repr

def Cycle.span (c : Cycle) : Span := ⟨c.address, c.length⟩

/-- A cycle and what it leaves in the data registers, as far as it covers them. -/
structure Exchange where
  cycle : Cycle
  answer : List Byte
  deriving DecidableEq, Repr

namespace Spis

abbrev bas : BitVec 16 := 0x8
abbrev scip : BitVec 16 := 0x1

end Spis

/-- `WAIT_TIME / WAIT_PERIOD`. -/
abbrev waitCount : Nat := 6000000 / 10

structure Env where
  /-- `SpiInstance->SpiInitTable`. -/
  initTable : SpiInitTable
  /-- `SPIPREOP`. -/
  preOp : Fin numPrefixOpcode → Byte
  /-- `SPIOPMENU`. -/
  opMenu : Fin numOpcode → Byte
  /-- What the reads of `SPIS` give, one after the other. -/
  spis : Nat → BitVec 16
  /-- What a cycle makes of the part, and the bytes the part answers. -/
  respond : Cycle → ByteStore → ByteStore × List Byte
  /-- The size of the part, whose end is mapped at the end of the 32-bit address space. -/
  flashSize : Nat
  /-- The memory below the part. -/
  memory : BitVec 32 → Byte
  /-- What is on the stack where `SendSpiCmd` has its local `BaseAddress`. -/
  baseAddress : BitVec 32
  /-- `DebugAssertEnabled ()`. -/
  assertEnabled : Bool

def Env.Completes (env : Env) : Prop :=
  ∀ k, ∃ j < waitCount, (∀ i < j, env.spis (k + i) &&& Spis.scip ≠ 0) ∧
    env.spis (k + j) &&& (Spis.scip ||| Spis.bas) = 0

/-- The part, the registers that the driver writes, and what has been done with the part so far. -/
structure Host where
  chip : ByteStore
  /-- The data registers from `SPID0` on. -/
  spid : Nat → Byte
  spia : BitVec 32
  /-- `BIOS_CNTL` of the legacy bridge. -/
  biosCntl : BitVec 16
  hmisc : BitVec 32
  /-- How often `SPIS` has been read. -/
  polls : Nat
  exchanges : List Exchange
  /-- The reads through the memory window, by address and length. -/
  reads : List (BitVec 32 × Nat)

namespace Cntl

abbrev pfe : BitVec 16 := 0x100
abbrev smmBwp : BitVec 16 := 0x20
abbrev bcd : BitVec 16 := 0x4
abbrev bioswe : BitVec 16 := 0x1

end Cntl

/-- `SMI_EN` of `HMISC`. -/
abbrev smiEn : BitVec 32 := 0x80000

abbrev spiaMask : BitVec 32 := 0x00FFFFFF

namespace Spic

abbrev dc : BitVec 16 := 0x4000
abbrev dbc : BitVec 16 := 0x3F00
abbrev cop : BitVec 16 := 0x70
abbrev spop : BitVec 16 := 0x8
abbrev acs : BitVec 16 := 0x4
abbrev scgo : BitVec 16 := 0x2

end Spic

/-- The part of the word for `SPIC` that does not depend on the data. -/
def commandBits (opcodeIndex : Fin numOpcode) (prefixOpcodeIndex : Fin numPrefixOpcode) (atomic : Bool) :
    BitVec 16 :=
  ((BitVec.ofNat 16 opcodeIndex <<< 4) &&& Spic.cop) |||
    ((BitVec.ofNat 16 prefixOpcodeIndex <<< 3) &&& Spic.spop) |||
    (if atomic then Spic.acs else 0) ||| Spic.scgo

/-- The part of the word for `SPIC` that asks for a data cycle. -/
def dataBits (dataCycle : Bool) (spiDataCount : BitVec 32) : BitVec 16 :=
  if dataCycle then Spic.dc ||| (((spiDataCount - 1) <<< 8).setWidth 16 &&& Spic.dbc) else 0

/-- The word that `SendSpiCmd` writes to `SPIC`. -/
def spic (opcodeIndex : Fin numOpcode) (prefixOpcodeIndex : Fin numPrefixOpcode)
    (dataCycle atomic : Bool) (spiDataCount : BitVec 32) : BitVec 16 :=
  dataBits dataCycle spiDataCount ||| commandBits opcodeIndex prefixOpcodeIndex atomic

def cycleOf (env : Env) (word : BitVec 16) (h : Host) : Cycle :=
  let length := if field word 14 1 = 0 then 0 else (field word 8 0x3F).toNat + 1
  { prefixOpcode? := if field word 2 1 = 0 then none else
      some (env.preOp (Fin.ofNat numPrefixOpcode (field word 3 1).toNat))
    opcode := env.opMenu (Fin.ofNat numOpcode (field word 4 7).toNat)
    address := h.spia.toNat
    length := length
    data := (List.range length).map h.spid }

/-- A write of `SPIC`. -/
def writeSpic (env : Env) (word : BitVec 16) : Exec Host Unit :=
  modify fun h =>
    let c := cycleOf env word h
    let r := env.respond c h.chip
    let spid := fun i => ((r.2.take c.length)[i]?).getD (h.spid i)
    { h with
      chip := r.1
      spid := spid
      exchanges := h.exchanges ++ [⟨c, (List.range c.length).map spid⟩] }

/-- A read of `SPIS`. -/
def readSpis (env : Env) : Exec Host (BitVec 16) := fun h =>
  .ret (env.spis h.polls) { h with polls := h.polls + 1 }

def Env.window (env : Env) : Nat := 2 ^ 32 - env.flashSize

def memoryAt (env : Env) (h : Host) (a : BitVec 32) : Byte :=
  if env.window ≤ a.toNat then h.chip (a.toNat - env.window) else env.memory a

/-- `CopyMem (Buffer, (UINT8 *) a, n)` from the memory window. -/
def copyMem (env : Env) (a : BitVec 32) (n : Nat) (buffer : List Byte) : Exec Host (List Byte) := do
  let h ← get
  Exec.when (buffer.length < n) (halt .outOfBounds)
  modify fun h => { h with reads := h.reads ++ [(a, n)] }
  pure ((List.range n).map (fun i => memoryAt env h (a + BitVec.ofNat 32 i)) ++ buffer.drop n)

/-! ## The driver -/

/-- The `for` loop of `WaitForSpiCycleComplete`, with the iterations that are left. -/
def waitTicks (env : Env) (errorCheck : Bool) : Nat → Exec Host Bool
  | 0 => pure false
  | ticks + 1 => do
    let data16 ← readSpis env
    if data16 &&& Spis.scip = 0 then
      if data16 &&& Spis.bas ≠ 0 ∧ errorCheck = true then pure false else pure true
    else
      waitTicks env errorCheck ticks

def waitForSpiCycleComplete (env : Env) (errorCheck : Bool) : Exec Host Bool :=
  waitTicks env errorCheck waitCount

/-- The `HardwareSpiAddress` of `SpiOffset2Physical`, the only one of its outputs that it sets. -/
def spiOffset2Physical (env : Env) (spiRegionOffset : BitVec 32) : RegionType → BitVec 32
  | .all => spiRegionOffset
  | _ => spiRegionOffset + env.initTable.biosStartOffset

def pageEnd (hardwareSpiAddr : BitVec 32) : BitVec 32 := (hardwareSpiAddr + 0x100) &&& ~~~0xFF

/-- `SpiDataCount` for an address and the bytes that are left. -/
def spiDataCount (hardwareSpiAddr dataByteCount : BitVec 32) : BitVec 32 :=
  let trimmed :=
    if pageEnd hardwareSpiAddr < hardwareSpiAddr + dataByteCount then
      pageEnd hardwareSpiAddr - hardwareSpiAddr
    else dataByteCount
  if 64 ≤ trimmed then 64
  else if trimmed &&& ~~~7 ≠ 0 then trimmed &&& ~~~7
  else trimmed

/-- The locals of the loop of `SendSpiCmd`. `position` is how far `Buffer` has moved. -/
structure Transfer where
  hardwareSpiAddr : BitVec 32
  dataByteCount : BitVec 32
  position : Nat
  buffer : List Byte

def shiftOutData (l : Transfer) (n : Nat) : Exec Host Unit := do
  Exec.when (l.buffer.length < l.position + n) (halt .outOfBounds)
  modify fun h => { h with spid := fun i =>
    if i < n then (l.buffer[l.position + i]?).getD (h.spid i) else h.spid i }

def shiftInData (l : Transfer) (n : Nat) : Exec Host (List Byte) := do
  Exec.when (l.buffer.length < l.position + n) (halt .outOfBounds)
  let h ← get
  pure (l.buffer.take l.position ++ (List.range n).map h.spid ++ l.buffer.drop (l.position + n))

structure Command where
  opcodeIndex : Fin numOpcode
  prefixOpcodeIndex : Fin numPrefixOpcode
  dataCycle : Bool
  atomic : Bool
  shiftOut : Bool

def nextTransfer (l : Transfer) (n : BitVec 32) (buffer : List Byte) :
    Transfer ⊕ (EfiStatus × List Byte) :=
  if 0 < l.dataByteCount - n then
    .inl ⟨l.hardwareSpiAddr + n, l.dataByteCount - n, l.position + n.toNat, buffer⟩
  else .inr (.success, buffer)

def startCycle (env : Env) (cmd : Command) (hardwareSpiAddr n : BitVec 32) : Exec Host Unit := do
  modify fun h => { h with spia := hardwareSpiAddr &&& spiaMask }
  let _ ← readSpis env
  writeSpic env (spic cmd.opcodeIndex cmd.prefixOpcodeIndex cmd.dataCycle cmd.atomic n)

def finishCycle (env : Env) (cmd : Command) (l : Transfer) (n : BitVec 32) :
    Exec Host (Transfer ⊕ (EfiStatus × List Byte)) := do
  let complete ← waitForSpiCycleComplete env true
  if complete = false then pure (.inr (.deviceError, l.buffer))
  else if cmd.shiftOut = true then pure (nextTransfer l n l.buffer)
  else do
    let buffer ← shiftInData l n.toNat
    pure (nextTransfer l n buffer)

/-- The body of the loop of `SendSpiCmd`. -/
def sendCycle (env : Env) (cmd : Command) (l : Transfer) :
    Exec Host (Transfer ⊕ (EfiStatus × List Byte)) := do
  let n := spiDataCount l.hardwareSpiAddr l.dataByteCount
  Exec.when (cmd.shiftOut = true) (shiftOutData l n.toNat)
  startCycle env cmd l.hardwareSpiAddr n
  finishCycle env cmd l n

def sendSpiCmd (env : Env) (cmd : Command) (address dataByteCount : BitVec 32) (buffer : List Byte)
    (spiRegionType : RegionType) : Exec Host (EfiStatus × List Byte) := do
  if env.opMenu cmd.opcodeIndex = 0 ∨ env.initTable.biosSize = 0 then do
    assert env.assertEnabled False
    pure (.invalidParameter, buffer)
  else
    let hardwareSpiAddr := spiOffset2Physical env address spiRegionType
    if (env.initTable.opcodeMenu cmd.opcodeIndex).type = .read ∧ spiRegionType = .bios then do
      let buffer ← copyMem env (hardwareSpiAddr - env.baseAddress + ~~~(env.initTable.biosSize - 1))
        dataByteCount.toNat buffer
      pure (.success, buffer)
    else
      let dataByteCount := if cmd.dataCycle = false ∧ 0 < dataByteCount then 0 else dataByteCount
      Exec.loop (2 ^ 32) (sendCycle env cmd) ⟨hardwareSpiAddr, dataByteCount, 0, buffer⟩

/-- The bits of `BIOS_CNTL` that the driver saves. -/
abbrev Cntl.saved : BitVec 16 := Cntl.bcd ||| Cntl.pfe ||| Cntl.bioswe ||| Cntl.smmBwp

def spiProtocolExecute (env : Env) (opcodeIndex prefixOpcodeIndex : BitVec 8)
    (dataCycle atomic shiftOut : Bool) (address dataByteCount : BitVec 32) (buffer : List Byte)
    (spiRegionType : RegionType) : Exec Host (EfiStatus × List Byte) := do
  if hindex : opcodeIndex.toNat < numOpcode ∧ prefixOpcodeIndex.toNat < numPrefixOpcode then
    let complete ← waitForSpiCycleComplete env false
    if complete = false then pure (.deviceError, buffer)
    else do
      let entry ← get
      modify fun h => { h with hmisc := entry.hmisc &&& ~~~smiEn }
      let biosCtlSave := entry.biosCntl &&& Cntl.saved
      modify fun h => { h with biosCntl := h.biosCntl ||| (Cntl.bioswe ||| Cntl.smmBwp) }
      Exec.when (shiftOut = true) (modify fun h =>
        { h with biosCntl := (h.biosCntl &&& ~~~(Cntl.bcd ||| Cntl.pfe)) ||| Cntl.bcd })
      let r ← sendSpiCmd env
        { opcodeIndex := ⟨opcodeIndex.toNat, hindex.1⟩
          prefixOpcodeIndex := ⟨prefixOpcodeIndex.toNat, hindex.2⟩
          dataCycle := dataCycle
          atomic := atomic
          shiftOut := shiftOut } address dataByteCount buffer spiRegionType
      modify fun h => { h with biosCntl := (h.biosCntl &&& ~~~Cntl.saved) ||| biosCtlSave }
      modify fun h => { h with hmisc := entry.hmisc }
      pure r
  else
    pure (.invalidParameter, buffer)

end Quark.Spi
