import Quark.SmiFlash.StateMachine

/-!
# `SMIFlashDxe`: the SMI handler

A software SMI passes the physical address of a `CAPSULE_INFO_PACKET`, which points to a list of
`CAPSULE_FRAGMENT`s. The packet, the list and the fragments belong to the caller. The handler copies
the fragments into `mCapsuleSmmBuffer`, over one or several SMIs, and launches the update at a
fragment that is flagged as the last one.
-/

namespace Quark.SmiFlash

open Machine

/-! ## Layout -/

abbrev smiInputUpdateCap : Nat := 0x27
abbrev smiInputGetCap : Nat := 0x28
abbrev smiCapFunction : Nat := 0xEF
/-- `MAX_ADDRESS` on IA32. -/
abbrev maxAddress : Nat := 0xFFFFFFFF
abbrev sizeofCapsuleInfoPacket : Nat := 29
abbrev sizeofCapsuleFragment : Nat := 24
abbrev sizeofUpdateStatusPacket : Nat := 12
/-- `sizeof (UINT32) * QUARK_SVN_ARRAY_SIZE`. -/
abbrev sizeofSvnArray : Nat := 64

section Fields

variable (rd : Mem)

/-- The fields of `CAPSULE_INFO_PACKET`. -/
def capsuleLocation (info : Nat) : Nat := rd.rd32 info
def capsuleSize (info : Nat) : Nat := rd.rd32 (info + 4)
def svnAreaLocation (info : Nat) : Nat := rd.rd32 (info + 12)
def svnAreaUpdPoint (info : Nat) : Nat := rd.rd32 (info + 16)
def svnAreaUpdTrigAddr (info : Nat) : Nat := rd.rd32 (info + 20)
def newMfhSourceOffset (info : Nat) : Nat := rd.rd32 (info + 24)
def nvramUpdatable (info : Nat) : Bool := rd (u32 (info + 28)) ≠ 0

/-- The fields of `CAPSULE_FRAGMENT`. -/
def fragmentAddress (fragment : Nat) : Nat := rd.rd64 fragment
def fragmentBufferOffset (fragment : Nat) : Nat := rd.rd32 (fragment + 8)
def fragmentSize (fragment : Nat) : Nat := rd.rd32 (fragment + 12)
def fragmentFlags (fragment : Nat) : Nat := rd.rd32 (fragment + 16)

end Fields

/-- `&CapsuleInfo->Status`. -/
def infoStatusAt (info : Nat) : Nat := info + 8

/-! ## Address checks -/

/-- The test of `IsAddressInSmram` for one descriptor, on 64-bit addresses. -/
def EfiSmramDescriptor.meets (d : EfiSmramDescriptor) (buffer length : Nat) : Bool :=
  (d.cpuStart ≤ buffer ∧ buffer < d.cpuStart + d.physicalSize) ∨
    (buffer ≤ d.cpuStart ∧ d.cpuStart < buffer + length)

def isAddressInSmram (P : Platform) (buffer length : Nat) : Bool :=
  P.smramRanges.any fun d => d.meets buffer length

def isAddressValid (P : Platform) (buffer length : Nat) : Bool :=
  if 0 < length ∧ maxAddress - (length - 1) < buffer then false
  else if isAddressInSmram P buffer length then false
  else true

def isCapsuleInfoPacketValid (P : Platform) (rd : Mem) (info : Nat) : Bool :=
  if isAddressValid P info sizeofCapsuleInfoPacket = false then false
  else if svnAreaLocation rd info ≠ 0 ∧
      isAddressValid P (svnAreaLocation rd info) sizeofSvnArray = false then false
  else if capsuleLocation rd info ≠ 0 then
    if isAddressValid P (capsuleLocation rd info) sizeofCapsuleFragment = false then false
    else
      let fragment := capsuleLocation rd info
      if fragmentAddress rd fragment ≠ 0 ∧
          isAddressValid P (u32 (fragmentAddress rd fragment)) (fragmentSize rd fragment) = false then
        false
      else true
  else true

/-! ## Fragments -/

/-- `CapsuleInfo->Status = Status`. -/
def setInfoStatus (capsuleInfo : Nat) (status : EfiStatus) : Exec SmmState Unit :=
  store32 (infoStatusAt capsuleInfo) status.code

def failRequest (capsuleInfo : Nat) (status : EfiStatus) : Exec SmmState EfiStatus := do
  .modify fun s => { s with updateStatusPacket := { s.updateStatusPacket with status := status } }
  setInfoStatus capsuleInfo status
  pure status

def rejectFragment (capsuleInfo : Nat) (status : EfiStatus) : Exec SmmState EfiStatus := do
  let status ← failRequest capsuleInfo status
  .modify fun s => { s with bufferOffset := 0, intake := s.intake ++ [.reset] }
  pure status

/-- Copy a fragment into the buffer. `Size` is read again after the copy, which may have changed
it. -/
def receiveFragment (P : Platform) (fragment : Nat) : Exec SmmState Unit := do
  let s ← .get
  let source := u32 (fragmentAddress (s.rd P) fragment)
  let size := fragmentSize (s.rd P) fragment
  let destination := u32 (P.capsuleSmmBuffer + s.bufferOffset)
  copyMem P destination source size
  .modify fun t => { t with
    copies := t.copies ++ [⟨⟨destination, size⟩, ⟨source, size⟩⟩]
    intake := t.intake ++ [.accepted ((s.rd P).bytes source size)]
    bufferOffset := u32 (t.bufferOffset + fragmentSize (t.rd P) fragment) }

/-- Choose the MFH of the capsule or the one in flash, and update the image list from it. -/
def validateMfh (P : Platform) (mfhSourceOffset : Nat) : Exec SmmState EfiStatus := do
  let s ← .get
  if mfhSourceOffset = 0 then validateMfhForFlashUpdate P none
  else if isMfhOffsetValid P mfhSourceOffset s then
    validateMfhForFlashUpdate P (some (u32 (P.capsuleSmmBuffer + mfhSourceOffset)))
  else pure .invalidParameter

/-- What the handler does once the last fragment is in. The result is the status to return at once,
if any. -/
def processCapsule (P : Platform) (capsuleInfo : Nat) : Exec SmmState (Option EfiStatus) := do
  let s ← .get
  assert P.debugAssertEnabled (s.bufferOffset = capsuleSize (s.rd P) capsuleInfo)
  let status ← validateMfh P (newMfhSourceOffset (s.rd P) capsuleInfo)
  let status ← (if status.isError then pure status else updateCapsule P)
  let status ← finishSvnUpdate P status
  resetStateMachineDataStructures P
  pure (if status.isError then some status else none)

/-- One iteration of the loop over the fragments. The loop yields the status to return at once, or
`none` where it falls through to the end of the request. -/
def fragmentBody (P : Platform) (capsuleInfo fragment : Nat) :
    Exec SmmState (Nat ⊕ Option EfiStatus) := do
  let s ← .get
  let size := fragmentSize (s.rd P) fragment
  if u32 (fragmentAddress (s.rd P) fragment) = 0 ∨ size = 0 then pure (.inr none)
  else if fragmentBufferOffset (s.rd P) fragment ≠ s.bufferOffset then do
    let status ← rejectFragment capsuleInfo .invalidParameter
    pure (.inr (some status))
  else do
    assert P.debugAssertEnabled (u32 (s.bufferOffset + size) ≤ P.pcdMaxSizeNonPopulateCapsule)
    if P.pcdMaxSizeNonPopulateCapsule < u32 (s.bufferOffset + size) then do
      let status ← rejectFragment capsuleInfo .outOfResources
      pure (.inr (some status))
    else do
      receiveFragment P fragment
      let s ← .get
      if fragmentFlags (s.rd P) fragment &&& 1 = 1 then do
        let result ← processCapsule P capsuleInfo
        pure (.inr result)
      else pure (.inl (u32 (fragment + sizeofCapsuleFragment)))

/-! ## Requests -/

def setupRequest (P : Platform) (capsuleInfo : Nat) : Exec SmmState Unit := do
  let s ← .get
  let rd := s.rd P
  .modify fun s => { s with
    svnUpdated := false
    svnAreaUpdPoint := svnAreaUpdPoint rd capsuleInfo
    svnAreaUpdTrigAddr := svnAreaUpdTrigAddr rd capsuleInfo
    svnAreaBuffer := fun k =>
      if svnAreaUpdPoint rd capsuleInfo ≠ svnUpdNever ∧ k < sizeofSvnArray then
        rd (u32 (svnAreaLocation rd capsuleInfo + k))
      else s.svnAreaBuffer k }
  modifyElement s.nvramElement fun e => { e with updatable := nvramUpdatable rd capsuleInfo }
  .modify fun s => { s with updateStatusPacket := ⟨0, 0xFFFFFFFF, .notReady⟩ }

/-- The handler for `SMI_INPUT_UPDATE_CAP`. -/
def updateCap (P : Platform) (bufferAddress : Nat) : Exec SmmState EfiStatus := do
  let s ← .get
  if isCapsuleInfoPacketValid P (s.rd P) bufferAddress = false then pure .success
  else do
    let capsuleFragment := capsuleLocation (s.rd P) bufferAddress
    if P.capsuleSmmBuffer = 0 then failRequest bufferAddress .outOfResources
    else if s.endOfDxe then failRequest bufferAddress .securityViolation
    else do
      setupRequest P bufferAddress
      match ← .loop P.fuel (fragmentBody P bufferAddress) capsuleFragment with
      | some status => pure status
      | none => do
        setInfoStatus bufferAddress .success
        pure .success

/-- The handler for `SMI_INPUT_GET_CAP`. -/
def getCap (P : Platform) (bufferAddress : Nat) : Exec SmmState EfiStatus := do
  if isAddressValid P bufferAddress sizeofUpdateStatusPacket = false then pure .success
  else do
    let s ← .get
    store32 (bufferAddress + 8) s.updateStatusPacket.status.code
    store32 bufferAddress s.updateStatusPacket.blocksCompleted
    store32 (bufferAddress + 4) s.updateStatusPacket.totalBlocks
    pure .success

/-- A software SMI: the value the dispatcher matched, and `AX` and `EBX` of the caller. -/
structure SoftwareSmi where
  swSmiInputValue : Nat
  ax : Nat
  ebx : Nat
  deriving DecidableEq, Repr

def smiFlashSMIHandler (P : Platform) (smi : SoftwareSmi) : Exec SmmState EfiStatus :=
  let function := smi.ax / 256 % 256
  let operation := smi.ax % 256
  if function ≠ smiCapFunction ∨ operation ≠ smi.swSmiInputValue then pure .unsupported
  else if operation = smiInputUpdateCap then updateCap P (u32 smi.ebx)
  else if operation = smiInputGetCap then getCap P (u32 smi.ebx)
  else pure .success

def smmEndOfDxeCallback : Exec SmmState EfiStatus := do
  .modify fun s => { s with endOfDxe := true }
  pure .success

/-! ## The system -/

/-- What the driver is called for. Before an SMI the caller leaves memory as it likes. -/
inductive SmmEvent where
  | softwareSmi (memory : Mem) (smi : SoftwareSmi)
  | endOfDxe

def smmStep (P : Platform) : SmmEvent → Exec SmmState EfiStatus
  | .softwareSmi memory smi => do
    .modify fun s => { s with ram := memory }
    smiFlashSMIHandler P smi
  | .endOfDxe => smmEndOfDxeCallback

def smmRun (P : Platform) : List SmmEvent → Exec SmmState Unit := .serve (smmStep P)

def loadedState (ram flash : Mem) : SmmState where
  ram
  flash
  spiImageList := initialSpiImageList
  stage1Element := none
  stage2Element := none
  osElement := none
  nvramElement := none
  updateStatusPacket := ⟨0, 0xFFFFFFFF, .notReady⟩
  stateId := 0
  activeState := .start
  stateMachinePrivateData := fun _ => .zero
  currBlock := 0
  lastBlockDone := false
  bufferOffset := 0
  svnAreaBuffer := fun _ => 0
  svnUpdated := false
  svnAreaUpdPoint := 0
  svnAreaUpdTrigAddr := 0
  endOfDxe := false
  spiCycles := []
  copies := []
  capsuleReads := []
  intake := []

/-- What `SMIFlashDxeEntry` does to the globals of `SmmState`. -/
def smiFlashDxeEntry (P : Platform) : Exec SmmState Unit := do
  setupImageGlobals P
  .modify fun s => { s with svnAreaBuffer := fun _ => 0xFF }

def Started (P : Platform) (s : SmmState) : Prop :=
  ∃ ram flash, smiFlashDxeEntry P (loadedState ram flash) = .ret () s

/-- The state in which the entry point leaves a driver loaded with the given memory and flash. -/
def startedState (P : Platform) (ram flash : Mem) : SmmState :=
  (smiFlashDxeEntry P (loadedState ram flash)).state

/-! ## Capsule intake, abstractly

The caller hands the capsule over in fragments, over any number of SMIs. Abstractly the driver keeps
a sequence of bytes: an accepted fragment is appended to it, and a refused fragment or a processed
capsule empties it.
-/

def reassembled (intake : List IntakeEvent) : List UInt8 :=
  intake.foldl (fun received e => match e with
    | .accepted data => received ++ data
    | .reset => []) []

/-- The buffer holds what was received, and `mBufferOffset` is how much that is. -/
def SmmState.Assembled (P : Platform) (s : SmmState) : Prop :=
  s.ram.bytes P.capsuleSmmBuffer s.bufferOffset = reassembled s.intake

/-- No byte of `[a, a + n)` lies in the capsule buffer. -/
def Platform.OutsideBuffer (P : Platform) (a n : Nat) : Prop :=
  ∀ k < n, u32 (a + k) < P.capsuleSmmBuffer ∨
    P.capsuleSmmBuffer + P.pcdMaxSizeNonPopulateCapsule ≤ u32 (a + k)

/-! ## Fragments -/

def IsFragment (P : Platform) (s : SmmState) (fragment : Nat) : Prop :=
  u32 (fragmentAddress (s.rd P) fragment) ≠ 0 ∧ fragmentSize (s.rd P) fragment ≠ 0

def Accepts (P : Platform) (s : SmmState) (fragment : Nat) : Prop :=
  IsFragment P s fragment ∧ fragmentBufferOffset (s.rd P) fragment = s.bufferOffset ∧
    u32 (s.bufferOffset + fragmentSize (s.rd P) fragment) ≤ P.pcdMaxSizeNonPopulateCapsule

def Misfit (P : Platform) (s : SmmState) (fragment : Nat) : Prop :=
  IsFragment P s fragment ∧ (fragmentBufferOffset (s.rd P) fragment ≠ s.bufferOffset ∨
    P.pcdMaxSizeNonPopulateCapsule < s.bufferOffset + fragmentSize (s.rd P) fragment)

def SmmState.rejected (s : SmmState) (info : Nat) (status : EfiStatus) : SmmState :=
  { s with
    ram := s.ram.wr32 (infoStatusAt info) status.code
    updateStatusPacket := { s.updateStatusPacket with status := status }
    bufferOffset := 0
    intake := s.intake ++ [.reset] }

def SmmState.copied (P : Platform) (s : SmmState) (fragment : Nat) : SmmState :=
  { s with
    ram := s.ram.copy (s.rd P) (u32 (P.capsuleSmmBuffer + s.bufferOffset))
      (u32 (fragmentAddress (s.rd P) fragment)) (fragmentSize (s.rd P) fragment) }

def SmmState.received (P : Platform) (s : SmmState) (fragment : Nat) : SmmState :=
  let source := u32 (fragmentAddress (s.rd P) fragment)
  let size := fragmentSize (s.rd P) fragment
  let t := s.copied P fragment
  { t with
    copies := s.copies ++ [⟨⟨u32 (P.capsuleSmmBuffer + s.bufferOffset), size⟩, ⟨source, size⟩⟩]
    intake := s.intake ++ [.accepted ((s.rd P).bytes source size)]
    bufferOffset := u32 (s.bufferOffset + fragmentSize (t.rd P) fragment) }

/-- `CapsuleFragment->Flags` has `BIT0` set. -/
def IsLast (P : Platform) (s : SmmState) (fragment : Nat) : Prop :=
  fragmentFlags (s.rd P) fragment &&& 1 = 1

/-- Serving `event` in `s`, the handler comes to take up the entry at `fragment` in the state
`t`. -/
def SmmEvent.TakesUp (P : Platform) (event : SmmEvent) (s : SmmState) (fragment : Nat)
    (t : SmmState) : Prop :=
  match event with
  | .endOfDxe => False
  | .softwareSmi memory smi =>
    let r := { s with ram := memory }
    let info := u32 smi.ebx
    smi.ax % 0x10000 = 0x100 * smiCapFunction + smiInputUpdateCap ∧
      smi.swSmiInputValue = smiInputUpdateCap ∧
      isCapsuleInfoPacketValid P (r.rd P) info = true ∧ P.capsuleSmmBuffer ≠ 0 ∧
      r.endOfDxe = false ∧
      ∃ t₀, setupRequest P info r = .ret () t₀ ∧
        Exec.Visits (fragmentBody P info) (capsuleLocation (r.rd P) info, t₀) (fragment, t)

/-! ## Confinement -/

def CopyMemCall.Confined (P : Platform) (c : CopyMemCall) : Prop :=
  (∀ d ∈ P.smramRanges, c.source.Disjoint d.range) ∧ c.destination.Inside P.capsuleRange

/-- An accepted fragment has a valid source address, and its end offset is no more than a
`UINT32`. -/
def FragmentBounded (P : Platform) (s : SmmState) (fragment : Nat) : Prop :=
  Accepts P s fragment →
    isAddressValid P (u32 (fragmentAddress (s.rd P) fragment)) (fragmentSize (s.rd P) fragment) = true ∧
    s.bufferOffset + fragmentSize (s.rd P) fragment < 0x100000000

/-! ## Reassembly -/

def SmmEvent.info : SmmEvent → Nat
  | .softwareSmi _ smi => u32 smi.ebx
  | .endOfDxe => 0

/-- `CapsuleHeader->CapsuleImageSize` of the capsule in the buffer. -/
def capsuleImageSize (P : Platform) (s : SmmState) : Nat :=
  (s.rd P).rd32 (capsuleImageSizeAt P.capsuleSmmBuffer)

def SmmState.WholeCapsule (P : Platform) (s : SmmState) : Prop :=
  s.Assembled P ∧ capsuleImageSize P s ≤ s.bufferOffset

/-- Launched in `s`, an update comes to its first erase in the state `t`: `ChallengeCapsule` and
`CapsuleParse` both succeed. -/
def ReachesErase (P : Platform) (s t : SmmState) : Prop :=
  ∃ v w, challengeCapsule P s.activate = .ret .success v ∧
    capsuleParse P (v.advance P .success) = .ret .success w ∧ t = w.advance P .success

/-- With the capsule as it is in `s`, the MFH is accepted and the update comes to its first erase in
the state `t`. -/
def Launches (P : Platform) (info : Nat) (s t : SmmState) : Prop :=
  ∃ u, validateMfh P (newMfhSourceOffset (s.rd P) info) s = .ret .success u ∧
    ReachesErase P u.launch t

/-- What serving `event` in `s` has to do with the received capsule and the flash. -/
structure Reassembles (P : Platform) (event : SmmEvent) (s : SmmState) : Prop where
  /-- The buffer holds the fragments accepted since the last reset. -/
  assembled : ∀ status t, smmStep P event s = .ret status t → t.Assembled P
  /-- A fragment out of sequence, or one that does not fit, resets the offset and leaves the flash
  alone. -/
  refuses : ∀ fragment t, event.TakesUp P s fragment t → Misfit P t fragment →
    ∃ status t', fragmentBody P event.info fragment t = .ret (.inr (some status)) t' ∧
      status.isError = true ∧ t'.bufferOffset = 0 ∧ t'.flash = s.flash ∧ t'.spiCycles = s.spiCycles
  /-- SPI operations are issued only after a last fragment that completes a capsule which passes the
  challenge and the parse. -/
  launches : (smmStep P event s).state.spiCycles ≠ s.spiCycles →
    ∃ fragment t t', event.TakesUp P s fragment t ∧ Accepts P t fragment ∧
      IsLast P (t.received P fragment) fragment ∧ (t.received P fragment).WholeCapsule P ∧
      Launches P event.info (t.received P fragment) t' ∧ t'.spiCycles = s.spiCycles

/-- A fragment as the handler relies on it. Its list entry is not in the buffer, which the copy is
about to change; its end offset is no more than a `UINT32`; it does not fail the `ASSERT` in front of
the size check; and if it is marked as the last one it completes the capsule. -/
structure FragmentSound (P : Platform) (s : SmmState) (fragment : Nat) : Prop where
  entry_outside : IsFragment P s fragment → P.OutsideBuffer fragment sizeofCapsuleFragment
  no_wrap : Accepts P s fragment →
    s.bufferOffset + fragmentSize (s.rd P) fragment < 0x100000000
  no_assert : IsFragment P s fragment → P.debugAssertEnabled = true →
    fragmentBufferOffset (s.rd P) fragment = s.bufferOffset →
    s.bufferOffset + fragmentSize (s.rd P) fragment ≤ P.pcdMaxSizeNonPopulateCapsule
  completes : Accepts P s fragment → IsLast P s fragment →
    capsuleImageSize P (s.copied P fragment) ≤ s.bufferOffset + fragmentSize (s.rd P) fragment

/-- An event as the handler relies on it: between SMIs nobody else writes the received part of the
buffer, the status words that the handler returns do not lie in the buffer, and all fragments are
sound. -/
structure EventSound (P : Platform) (event : SmmEvent) (s : SmmState) : Prop where
  buffer_kept : ∀ memory smi, event = .softwareSmi memory smi → ∀ k < s.bufferOffset,
    memory (P.capsuleSmmBuffer + k) = s.ram (P.capsuleSmmBuffer + k)
  status_outside : ∀ memory smi, event = .softwareSmi memory smi →
    P.OutsideBuffer (u32 smi.ebx) sizeofUpdateStatusPacket
  fragments : ∀ fragment t, event.TakesUp P s fragment t → FragmentSound P t fragment

end Quark.SmiFlash
