import Quark.SmiFlash.Parse

/-!
# `SMIFlashDxe`: the update state machine

`SmiStateMachine` takes one step per call: challenge, parse, then an erase and a write for each
recorded block. The handler calls it until a step fails or the last block is written, and writes the
SVN area at the point the caller asked for.
-/

namespace Quark.SmiFlash

open Machine

/-! ## States and update points -/

abbrev challengeCapsuleState : Nat := 0
abbrev parseCapsuleState : Nat := 1
abbrev eraseBlockState : Nat := 2
abbrev writeBlockState : Nat := 3
abbrev smiFlashUpdateMaxStates : Nat := 5

abbrev svnUpdNever : Nat := 0
abbrev svnUpdAtStart : Nat := 1
abbrev svnUpdAtEnd : Nat := 2
abbrev svnUpdAtTrigAddr : Nat := 3

/-! ## SVN area -/

/-- The loop of `PlatformFlashEraseWrite` over the blocks; `offset` is `WriteBuf - Data`. -/
def platformFlashEraseWriteFrom (P : Platform) (data : Mem) (doErase doWrite : Bool) :
    Nat → Nat → Nat → Exec SmmState EfiStatus
  | 0, _, _ => pure .success
  | n + 1, spiWriteAddress, offset => do
    let status ←
      (if doErase then spiExecute P .erase .svnArea spiWriteAddress 0 data else pure .success)
    if status.isError then pure status
    else do
      let status ←
        (if doWrite then
          spiExecute P .program .svnArea spiWriteAddress flashBlockSize fun k => data (offset + k)
        else pure .success)
      if status.isError then pure status
      else
        platformFlashEraseWriteFrom P data doErase doWrite n
          (u32 (spiWriteAddress + flashBlockSize))
          (if doWrite then offset + flashBlockSize else offset)

/-- `PlatformFlashEraseWrite` on a buffer that is not `NULL`. `CpuBaseAddress` is computed as
`mSpiFlashBaseAddress` is, from the table of the same controller. -/
def platformFlashEraseWrite (P : Platform) (cpuWriteAddress : Nat) (data : Mem) (dataSize : Nat)
    (doErase doWrite : Bool) : Exec SmmState EfiStatus :=
  if doErase = false ∧ doWrite = false then pure .invalidParameter
  else if cpuWriteAddress % flashBlockSize ≠ 0 then pure .invalidParameter
  else if dataSize % flashBlockSize ≠ 0 then pure .invalidParameter
  else if P.spiProtocolLocated = false then pure .notReady
  else if P.spiInfoStatus.isError then pure P.spiInfoStatus
  else if cpuWriteAddress < P.spiFlashBaseAddress then pure .invalidParameter
  else
    platformFlashEraseWriteFrom P data doErase doWrite (dataSize / flashBlockSize)
      (sub32 cpuWriteAddress P.spiFlashBaseAddress) 0

def updateSvnArea (P : Platform) : Exec SmmState EfiStatus := do
  let s ← .get
  let status ← platformFlashEraseWrite P flashRegionSvnBaseAddress s.svnAreaBuffer flashBlockSize
    true true
  .modify fun s => { s with
    svnUpdated := if status.isError then s.svnUpdated else true
    updateStatusPacket := { s.updateStatusPacket with status := status } }
  pure status

/-- `mStateMachinePrivateData[mCurrBlock]`. -/
def SmmState.currElement (s : SmmState) : StateMachinePrivateData :=
  s.stateMachinePrivateData s.currBlock

def isSvnUpdatePointReached (s : SmmState) : Bool :=
  if s.svnAreaUpdPoint = svnUpdNever ∨ s.svnAreaUpdPoint = svnUpdAtEnd ∨
      s.currElement.isValid = false then false
  else if s.stateId ≠ eraseBlockState then false
  else if s.svnAreaUpdPoint = svnUpdAtStart then
    s.currBlock = 0
  else
    s.currElement.targetAddr = s.svnAreaUpdTrigAddr

/-! ## Steps -/

def eraseBlock (P : Platform) : Exec SmmState EfiStatus := do
  let s ← .get
  if s.currElement.isValid = false then do
    .modify fun s => { s with lastBlockDone := true }
    pure .success
  else do
    let writeAddress := sub32 s.currElement.targetAddr P.spiFlashBaseAddress
    let status ← spiExecute P .erase .block writeAddress 0 (s.rd P)
    assertEfiError P.debugAssertEnabled status
    pure .success

def writeBlock (P : Platform) : Exec SmmState EfiStatus := do
  let s ← .get
  if s.currElement.isValid = false then pure .deviceError
  else do
    let writeAddress := sub32 s.currElement.targetAddr P.spiFlashBaseAddress
    let status ← spiExecute P .program .block writeAddress s.currElement.blockSize
      fun k => s.rd P (u32 (s.currElement.sourceAddr + k))
    assertEfiError P.debugAssertEnabled status
    .modify fun s => { s with
      currBlock := s.currBlock + 1
      updateStatusPacket := { s.updateStatusPacket with blocksCompleted := s.currBlock + 1 } }
    pure .success

/-- `SmiFlashUpdateStateArray`, which has no entry from the fifth on. -/
def smiFlashUpdateState (P : Platform) (stateId : Nat) : Exec SmmState EfiStatus :=
  match stateId with
  | 0 => challengeCapsule P
  | 1 => capsuleParse P
  | 2 => eraseBlock P
  | 3 => writeBlock P
  | _ => .halt .outOfBounds

def nextStateId (P : Platform) (s : SmmState) : Nat :=
  if s.stateId = writeBlockState then
    if s.currBlock < P.maxBlockNumber ∧ s.currElement.isValid then eraseBlockState
    else s.stateId + 1
  else s.stateId + 1

def SmmState.activate (s : SmmState) : SmmState :=
  if s.activeState = .start then
    { s with stateId := challengeCapsuleState, activeState := .inProgress }
  else s

def SmmState.advance (P : Platform) (status : EfiStatus) (s : SmmState) : SmmState :=
  let s := { s with updateStatusPacket := { s.updateStatusPacket with status := status } }
  if status.isError then s else { s with stateId := nextStateId P s }

def smiStateMachine (P : Platform) : Exec SmmState EfiStatus := do
  .modify SmmState.activate
  let s ← .get
  let status ← smiFlashUpdateState P s.stateId
  .modify (SmmState.advance P status)
  pure status

def resetStateMachineDataStructures (P : Platform) : Exec SmmState Unit :=
  .modify fun s => { s with
    stateMachinePrivateData := fun i =>
      if i < P.maxBlockNumber then .zero else s.stateMachinePrivateData i
    bufferOffset := 0
    intake := s.intake ++ [.reset] }

/-! ## The run -/

/-- One pass of the `do … while` of the handler that drives the state machine. -/
def updateBody (P : Platform) (_ : Unit) : Exec SmmState (Unit ⊕ EfiStatus) := do
  let s ← .get
  let status ← (if isSvnUpdatePointReached s then updateSvnArea P else pure .success)
  if status.isError then pure (.inr status)
  else do
    let status ← smiStateMachine P
    let s ← .get
    if status.isError = false ∧ s.stateId ≠ smiFlashUpdateMaxStates - 1 then pure (.inl ())
    else pure (.inr status)

/-- The `do … while` of the handler. -/
def updateLoop (P : Platform) : Exec SmmState EfiStatus := .loop P.fuel (updateBody P) ()

def SmmState.launch (s : SmmState) : SmmState :=
  { s with
    updateStatusPacket := { s.updateStatusPacket with status := .success }
    activeState := .start }

def updateCapsule (P : Platform) : Exec SmmState EfiStatus := do
  .modify SmmState.launch
  updateLoop P

/-- The SVN check point after the flash write, and the check that an expected SVN update happened. -/
def finishSvnUpdate (P : Platform) (status : EfiStatus) : Exec SmmState EfiStatus := do
  let s ← .get
  let status ←
    (if status.isError = false ∧ s.svnAreaUpdPoint = svnUpdAtEnd then updateSvnArea P
    else pure status)
  let s ← .get
  .when (s.svnAreaUpdPoint ≠ svnUpdNever) (assert P.debugAssertEnabled s.svnUpdated)
  pure status

end Quark.SmiFlash
