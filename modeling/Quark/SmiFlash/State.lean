import Quark.Library.MfhLib
import Quark.Library.PlatformDataLib

/-!
# `SMIFlashDxe`: module globals and devices

The driver runs in SMM. Its globals are the fields of `SmmState`; what is fixed once the entry point
has run (PCDs, the address of the capsule buffer, the SMRAM map) is in `Platform`. The state also
carries the memory outside SMRAM, the flash array, and logs of what the driver did to them, which no
modelled function reads.
-/

namespace Quark.SmiFlash

open Machine

/-- `EFI_SMRAM_DESCRIPTOR`, the two fields the driver reads. -/
structure EfiSmramDescriptor where
  cpuStart : Nat
  physicalSize : Nat
  /-- The end of a descriptor is a 64-bit address. -/
  in_space : cpuStart + physicalSize < 0x10000000000000000

def EfiSmramDescriptor.range (d : EfiSmramDescriptor) : Range := ⟨d.cpuStart, d.physicalSize⟩

/-- How the SPI controller answers one cycle. A cycle that fails leaves the block it was aimed at
with unspecified content. -/
inductive SpiAnswer where
  | done
  | failed (content : Mem)

structure Platform where
  /-- `DebugAssertEnabled ()`. -/
  debugAssertEnabled : Bool
  /-- `PcdMaxSizeNonPopulateCapsule` of MdeModulePkg. -/
  pcdMaxSizeNonPopulateCapsule : Nat
  /-- `mCapsuleSmmBuffer`; `0` is `NULL`. -/
  capsuleSmmBuffer : Nat
  /-- `mSpiFlashBaseAddress`. -/
  spiFlashBaseAddress : Nat
  /-- `mSmramRanges`. -/
  smramRanges : List EfiSmramDescriptor
  /-- `QuarkCheckSecureLockBoot ()`. -/
  quarkCheckSecureLockBoot : Bool
  /-- The answer of the controller to its `n`-th cycle. -/
  spiAnswer : Nat → SpiAnswer
  /-- Whether `LocateSpiProtocol` finds the protocol, and what its `Info` returns. -/
  spiProtocolLocated : Bool
  spiInfoStatus : EfiStatus
  /-- What uninitialised locals of `CheckPlatformDataPolicy` and its callees hold. -/
  uninitFindContext : PlatformDataLib.FindContext
  uninitCalcCrc : Nat
  /-- How many iterations of a loop the model follows. -/
  fuel : Nat
  /-- Asserted by the entry point; the flash ends at 4GB. -/
  flash_base : 0xFF800000 ≤ spiFlashBaseAddress ∧ spiFlashBaseAddress < 0x100000000
  /-- `PcdFlashAreaBaseAddress` and the offsets in `SpiFlashDevice.c` are whole blocks. -/
  flash_base_aligned : spiFlashBaseAddress % flashBlockSize = 0
  /-- The buffer is allocated from memory, which lies below the flash. -/
  buffer_below_flash : capsuleSmmBuffer + pcdMaxSizeNonPopulateCapsule ≤ spiFlashBaseAddress

namespace Platform

def maxBlockNumber (P : Platform) : Nat := P.pcdMaxSizeNonPopulateCapsule / flashBlockSize

/-- `mCapsuleSmmBuffer[0 .. PcdMaxSizeNonPopulateCapsule)`. -/
def capsuleRange (P : Platform) : Range := ⟨P.capsuleSmmBuffer, P.pcdMaxSizeNonPopulateCapsule⟩

/-- A platform to try statements on: an 8MB flash, one SMRAM range, a capsule buffer of 8KB, and an
SPI controller that never fails. -/
def sample : Platform where
  debugAssertEnabled := true
  pcdMaxSizeNonPopulateCapsule := 0x2000
  capsuleSmmBuffer := 0x10000
  spiFlashBaseAddress := 0xFF800000
  smramRanges := [⟨0x20000, 0x10000, by decide⟩]
  quarkCheckSecureLockBoot := true
  spiAnswer := fun _ => .done
  spiProtocolLocated := true
  spiInfoStatus := .success
  uninitFindContext := ⟨0, 0⟩
  uninitCalcCrc := 0
  fuel := 16
  flash_base := by decide
  flash_base_aligned := by decide
  buffer_below_flash := by decide

end Platform

/-- `SPI_IMAGE_PRESENT`; `Present` is never read. -/
structure SpiImagePresent where
  mfhType : Nat
  spiImageDefaultBaseAddress : Nat
  spiImageMaxSize : Nat
  fixedAddress : Bool
  updatable : Bool
  anyBlockUpdate : Bool
  deriving DecidableEq, Repr

structure UpdateStatusPacket where
  blocksCompleted : Nat
  totalBlocks : Nat
  status : EfiStatus
  deriving DecidableEq, Repr

inductive SmiFlashStateManager where
  | start
  | inProgress
  | stop
  deriving DecidableEq, Repr

/-- `STATE_MACHINE_PRIVATE_DATA`. `UpdateStatus` is never read, and `SmmSpiProtocol` is the one SPI
protocol of the driver in every valid element. -/
structure StateMachinePrivateData where
  sourceAddr : Nat
  targetAddr : Nat
  blockSize : Nat
  isValid : Bool
  deriving DecidableEq, Repr

/-- An element as `ResetStateMachineDataStructures` leaves it. -/
def StateMachinePrivateData.zero : StateMachinePrivateData := ⟨0, 0, 0, false⟩

def StateMachinePrivateData.target (b : StateMachinePrivateData) : Range := ⟨b.targetAddr, b.blockSize⟩

def StateMachinePrivateData.source (b : StateMachinePrivateData) : Range := ⟨b.sourceAddr, b.blockSize⟩

/-! ## Logs -/

/-- The two SPI operations that change the flash. -/
inductive SpiOp where
  | erase
  | program
  deriving DecidableEq, Repr

/-- Who issued an SPI operation: `EraseBlock` and `WriteBlock`, or `UpdateSvnArea`. -/
inductive SpiCaller where
  | block
  | svnArea
  deriving DecidableEq, Repr

/-- An SPI operation at a flash address, and whether it succeeded. -/
structure SpiCycle where
  op : SpiOp
  caller : SpiCaller
  address : Nat
  ok : Bool
  deriving DecidableEq, Repr

/-- A `CopyMem` of a capsule fragment. -/
structure CopyMemCall where
  destination : Range
  source : Range
  deriving DecidableEq, Repr

/-- What capsule intake does with the received bytes. -/
inductive IntakeEvent where
  | accepted (data : List UInt8)
  | reset
  deriving DecidableEq

/-- The module globals, the memory outside SMRAM, the flash, and the logs. -/
structure SmmState where
  ram : Mem
  /-- The flash array, by CPU address. -/
  flash : Mem
  spiImageList : List SpiImagePresent
  stage1Element : Option Nat
  stage2Element : Option Nat
  osElement : Option Nat
  nvramElement : Option Nat
  updateStatusPacket : UpdateStatusPacket
  stateId : Nat
  activeState : SmiFlashStateManager
  stateMachinePrivateData : Nat → StateMachinePrivateData
  currBlock : Nat
  lastBlockDone : Bool
  bufferOffset : Nat
  svnAreaBuffer : Mem
  svnUpdated : Bool
  svnAreaUpdPoint : Nat
  svnAreaUpdTrigAddr : Nat
  endOfDxe : Bool
  spiCycles : List SpiCycle
  copies : List CopyMemCall
  capsuleReads : List Range
  intake : List IntakeEvent

/-- Memory as the driver reads it: the flash is mapped at the top of the 32-bit space. -/
def SmmState.rd (P : Platform) (s : SmmState) : Mem := fun a =>
  if P.spiFlashBaseAddress ≤ a then s.flash a else s.ram a

/-! ## Memory accesses -/

/-- Read a `UINT32` of the capsule. -/
def readCapsule32 (P : Platform) (a : Nat) : Exec SmmState Nat := do
  let s ← .get
  .modify fun s => { s with capsuleReads := s.capsuleReads ++ [⟨u32 a, 4⟩] }
  pure ((s.rd P).rd32 a)

/-- Store a `UINT32` in memory. -/
def store32 (a v : Nat) : Exec SmmState Unit := .modify fun s => { s with ram := s.ram.wr32 a v }

/-- `CopyMem` in memory. -/
def copyMem (P : Platform) (destination source length : Nat) : Exec SmmState Unit :=
  .modify fun s => { s with ram := s.ram.copy (s.rd P) destination source length }

/-! ## SPI -/

/-- What an operation does to the flash. Erase sets the block that holds the address to ones;
program can only clear bits. -/
def SpiOp.apply (op : SpiOp) (a length : Nat) (data : Mem) (flash : Mem) : Mem := fun x =>
  match op with
  | .erase => if x / flashBlockSize = a / flashBlockSize then 0xFF else flash x
  | .program => if a ≤ x ∧ x < a + length then flash x &&& data (x - a) else flash x

def SpiAnswer.ok : SpiAnswer → Bool
  | .done => true
  | .failed _ => false

def SpiAnswer.apply (ans : SpiAnswer) (op : SpiOp) (a length : Nat) (data : Mem) (flash : Mem) :
    Mem :=
  match ans with
  | .done => op.apply a length data flash
  | .failed content => fun x =>
    if a ≤ x ∧ x < a + length ∨ x / flashBlockSize = a / flashBlockSize then content x else flash x

/-- `SpiProtocol->Execute` with the erase or the program opcode. `data` is the source buffer of a
program cycle and `length` the number of bytes in it. -/
def spiExecute (P : Platform) (op : SpiOp) (caller : SpiCaller) (writeAddress length : Nat)
    (data : Mem) : Exec SmmState EfiStatus := do
  let s ← .get
  let a := u32 (P.spiFlashBaseAddress + writeAddress)
  let answer := P.spiAnswer s.spiCycles.length
  .modify fun s => { s with
    flash := answer.apply op a length data s.flash
    spiCycles := s.spiCycles ++ [⟨op, caller, a, answer.ok⟩] }
  pure (if answer.ok then .success else .deviceError)

end Quark.SmiFlash
