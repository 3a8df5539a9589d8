import Quark.SmiFlash.Images

/-!
# `SMIFlashDxe`: challenging and parsing a capsule

A capsule is an `EFI_CAPSULE_HEADER` followed, at offset `HeaderSize`, by a table of `UPDATE_HINT`s
that ends with a hint of size zero. All of it is read in place from `mCapsuleSmmBuffer`.
-/

namespace Quark.SmiFlash

open Machine PlatformDataLib

/-! ## Layout -/

abbrev maxImagesPerCapsule : Nat := 20
abbrev sizeofUpdateHint : Nat := 16
abbrev pdUpdateMac : Nat := 0x1

/-- The bytes of `gEfiQuarkCapsuleGuid`. -/
def efiQuarkCapsuleGuid : List UInt8 :=
  [0xe4, 0xd1, 0x00, 0xd4, 0x14, 0xa3, 0x2b, 0x44, 0x89, 0xed, 0xa9, 0x2e, 0x4c, 0x81, 0x97, 0xcb]

/-- `&CapsuleHeader->HeaderSize`. -/
def headerSizeAt (capsuleHeader : Nat) : Nat := capsuleHeader + 16
/-- `&CapsuleHeader->Flags`. -/
def flagsAt (capsuleHeader : Nat) : Nat := capsuleHeader + 20
/-- `&CapsuleHeader->CapsuleImageSize`. -/
def capsuleImageSizeAt (capsuleHeader : Nat) : Nat := capsuleHeader + 24

/-- `&HintTable->TargetAddr`. -/
def targetAddrAt (hint : Nat) : Nat := hint
/-- `&HintTable->Size`. -/
def sizeAt (hint : Nat) : Nat := hint + 4
/-- `&HintTable->SourceOffset`. -/
def sourceOffsetAt (hint : Nat) : Nat := hint + 8

/-! ## Challenge -/

/-- One iteration of the loop of `FindTotalCapsuleImageSize`; the locals are `HintTable` and
`*CapsuleImageSize`. -/
def findTotalBody (P : Platform) (l : Nat × Nat) :
    Exec SmmState (Nat × Nat ⊕ EfiStatus × Nat) := do
  let (hint, total) := l
  let size ← readCapsule32 P (sizeAt hint)
  if size = 0 then pure (.inr (.success, total))
  else do
    let sourceOffset ← readCapsule32 P (sourceOffsetAt hint)
    let size ← readCapsule32 P (sizeAt hint)
    if P.pcdMaxSizeNonPopulateCapsule < u32 (sourceOffset + size) then
      pure (.inr (.invalidParameter, total))
    else do
      let size ← readCapsule32 P (sizeAt hint)
      pure (.inl (u32 (hint + sizeofUpdateHint), u32 (total + size)))

/-- `FindTotalCapsuleImageSize`: the status and `*CapsuleImageSize`. -/
def findTotalCapsuleImageSize (P : Platform) (capsuleHeader : Nat) :
    Exec SmmState (EfiStatus × Nat) := do
  if capsuleHeader = 0 then pure (.invalidParameter, 0)
  else do
    let headerSize ← readCapsule32 P (headerSizeAt capsuleHeader)
    .loop P.fuel (findTotalBody P)
      (u32 (capsuleHeader + headerSize), sizeofUpdateHint * maxImagesPerCapsule)

/-- `CompareGuid (&CapsuleHeader->CapsuleGuid, &gEfiQuarkCapsuleGuid)`. -/
def compareCapsuleGuid (P : Platform) (capsuleHeader : Nat) : Exec SmmState Bool := do
  let s ← .get
  .modify fun s => { s with capsuleReads := s.capsuleReads ++ [⟨capsuleHeader, 16⟩] }
  pure ((s.rd P).bytes capsuleHeader 16 = efiQuarkCapsuleGuid)

def challengeCapsule (P : Platform) : Exec SmmState EfiStatus := do
  if P.capsuleSmmBuffer = 0 then pure .outOfResources
  else do
    let capsuleHeader := P.capsuleSmmBuffer
    let known ← compareCapsuleGuid P capsuleHeader
    if known = false then pure .invalidParameter
    else do
      let (status, totalCapsuleImageSize) ← findTotalCapsuleImageSize P capsuleHeader
      if status.isError then pure status
      else do
        let capsuleImageSize ← readCapsule32 P (capsuleImageSizeAt capsuleHeader)
        let headerSize ← readCapsule32 P (headerSizeAt capsuleHeader)
        if capsuleImageSize ≠ u32 (headerSize + totalCapsuleImageSize) then pure .invalidParameter
        else pure .success

/-! ## Platform data policy -/

def keepNetworkItem (P : Platform) (capsuleItem flashItem : Option Nat) : Exec SmmState Unit := do
  let s ← .get
  match flashItem, capsuleItem with
  | some f, some c => copyMem P (itemData c) (itemData f) (itemLength (s.rd P) f)
  | _, _ => pure ()

/-- `CheckPlatformDataPolicy`. The status it returns is not used by its caller. -/
def checkPlatformDataPolicy (P : Platform) (capsulePlatformData capsuleHeader : Nat) :
    Exec SmmState Unit := do
  let s ← .get
  if (s.rd P).rd32 (flagsAt capsuleHeader) &&& pdUpdateMac ≠ 0 then pure ()
  else do
    let (capsuleItem, capsuleCtx) ← pDatLibFindFirstWithFilter P.fuel (s.rd P)
      (some capsulePlatformData) findNetworkItems P.uninitCalcCrc P.uninitFindContext
    let (flashItem, flashCtx) ← pDatLibFindFirstWithFilter P.fuel (s.rd P) none findNetworkItems
      P.uninitCalcCrc P.uninitFindContext
    keepNetworkItem P capsuleItem flashItem
    let s ← .get
    let (capsuleItem, _) ← pDatLibFindNextWithFilter P.fuel (s.rd P) findNetworkItems capsuleCtx
    let (flashItem, _) ← pDatLibFindNextWithFilter P.fuel (s.rd P) findNetworkItems flashCtx
    keepNetworkItem P capsuleItem flashItem
    let s ← .get
    match Crc32.platformCalculateCrc32 (s.rd P) (areaBody capsulePlatformData)
        (areaLength (s.rd P) capsulePlatformData) with
    | .ok crc => store32 (u32 (capsulePlatformData + 8)) crc
    | .error st => do
      assertEfiError P.debugAssertEnabled st
      store32 (u32 (capsulePlatformData + 8)) P.uninitCalcCrc

/-! ## Parse -/

/-- Fill the element of the block table that `*StateElement` points to. -/
def recordBlock (P : Platform) (element : Nat) (b : StateMachinePrivateData) :
    Exec SmmState Unit :=
  if element < P.maxBlockNumber then
    .modify fun s => { s with
      stateMachinePrivateData := Function.update s.stateMachinePrivateData element b }
  else .halt .outOfBounds

/-- The locals of `InitialiseStateMachineData`. -/
structure InitLocals where
  imageSourceAddr : Nat
  imageDestinationAddr : Nat
  stateElement : Nat
  numberOfBlocks : Nat

/-- One iteration of the loop of `InitialiseStateMachineData`. The hint is read again on every
iteration. -/
def initialiseBody (P : Platform) (capsuleHeader hint : Nat) (l : InitLocals) :
    Exec SmmState (InitLocals ⊕ Nat × Nat) := do
  let target ← readCapsule32 P (targetAddrAt hint)
  let size ← readCapsule32 P (sizeAt hint)
  if l.imageDestinationAddr ≤ sub32 (u32 (target + size)) flashBlockSize ∧
      l.imageDestinationAddr ≠ 0 then do
    assert P.debugAssertEnabled (P.spiFlashBaseAddress ≤ l.imageDestinationAddr)
    .when (l.imageDestinationAddr = flashRegionPlatformDataBaseAddress)
      (checkPlatformDataPolicy P l.imageSourceAddr capsuleHeader)
    recordBlock P l.stateElement ⟨l.imageSourceAddr, l.imageDestinationAddr, flashBlockSize, true⟩
    pure (.inl {
      imageSourceAddr := u32 (l.imageSourceAddr + flashBlockSize)
      imageDestinationAddr := u32 (l.imageDestinationAddr + flashBlockSize)
      stateElement := l.stateElement + 1
      numberOfBlocks := l.numberOfBlocks + 1 })
  else pure (.inr (l.stateElement, l.numberOfBlocks))

/-- `InitialiseStateMachineData`: the advanced `*StateElement` and the number of blocks. -/
def initialiseStateMachineData (P : Platform) (stateElement capsuleHeader hint : Nat) :
    Exec SmmState (Nat × Nat) := do
  let sourceOffset ← readCapsule32 P (sourceOffsetAt hint)
  let target ← readCapsule32 P (targetAddrAt hint)
  assert P.debugAssertEnabled (target &&& (flashBlockSize - 1) = 0)
  .loop P.fuel (initialiseBody P capsuleHeader hint) {
    imageSourceAddr := u32 (capsuleHeader + sourceOffset)
    imageDestinationAddr := target
    stateElement
    numberOfBlocks := 0 }

/-- Record the blocks of a hint and add their number to `TotalBlocks`. -/
def recordHint (P : Platform) (stateElement capsuleHeader hint : Nat) : Exec SmmState Nat := do
  let (stateElement, numberOfBlocks) ← initialiseStateMachineData P stateElement capsuleHeader hint
  .modify fun s => { s with
    updateStatusPacket := { s.updateStatusPacket with
      totalBlocks := u32 (s.updateStatusPacket.totalBlocks + numberOfBlocks) } }
  pure stateElement

/-- One iteration of the loop of `CapsuleParse` over the image list; the locals are the entries that
are left and `StateElement`. The loop yields the advanced `StateElement`, or `none` when `CapsuleParse`
returns `EFI_INVALID_PARAMETER`. -/
def matchBody (P : Platform) (capsuleHeader hint : Nat) (l : List SpiImagePresent × Nat) :
    Exec SmmState (List SpiImagePresent × Nat ⊕ Option Nat) :=
  match l with
  | ([], stateElement) => pure (.inr (some stateElement))
  | (e :: es, stateElement) =>
    if e.spiImageMaxSize < flashBlockSize then pure (.inl (es, stateElement))
    else do
      let target ← readCapsule32 P (targetAddrAt hint)
      if target < e.spiImageDefaultBaseAddress then pure (.inl (es, stateElement))
      else do
        let target ← readCapsule32 P (targetAddrAt hint)
        let size ← readCapsule32 P (sizeAt hint)
        if target + size ≤ e.spiImageDefaultBaseAddress + e.spiImageMaxSize ∧ e.updatable then
          if e.anyBlockUpdate then do
            let stateElement ← recordHint P stateElement capsuleHeader hint
            pure (.inl (es, stateElement))
          else do
            let target ← readCapsule32 P (targetAddrAt hint)
            if target = e.spiImageDefaultBaseAddress then do
              let stateElement ← recordHint P stateElement capsuleHeader hint
              pure (.inl (es, stateElement))
            else pure (.inr none)
        else pure (.inl (es, stateElement))

/-- The loop of `CapsuleParse` over the image list for one hint. -/
def matchImages (P : Platform) (capsuleHeader hint : Nat) (images : List SpiImagePresent)
    (stateElement : Nat) : Exec SmmState (Option Nat) :=
  .loop (images.length + 1) (matchBody P capsuleHeader hint) (images, stateElement)

/-- One iteration of the loop of `CapsuleParse` over the hints; the locals are `HintTable` and
`StateElement`. -/
def parseBody (P : Platform) (capsuleHeader : Nat) (l : Nat × Nat) :
    Exec SmmState (Nat × Nat ⊕ EfiStatus) := do
  let (hint, stateElement) := l
  let size ← readCapsule32 P (sizeAt hint)
  let s ← .get
  if size ≠ 0 ∧ s.updateStatusPacket.totalBlocks < P.maxBlockNumber then do
    let target ← readCapsule32 P (targetAddrAt hint)
    if target < P.spiFlashBaseAddress then pure (.inr .invalidParameter)
    else do
      let target ← readCapsule32 P (targetAddrAt hint)
      let size ← readCapsule32 P (sizeAt hint)
      if 0x100000000 < target + size then pure (.inr .invalidParameter)
      else do
        match ← matchImages P capsuleHeader hint s.spiImageList stateElement with
        | none => pure (.inr .invalidParameter)
        | some stateElement => pure (.inl (u32 (hint + sizeofUpdateHint), stateElement))
  else pure (.inr .success)

/-- Whether the first hint replaces a whole region, which a boot without secure lock allows. -/
def isRegionUpdate (P : Platform) (hint size target : Nat) : Exec SmmState Bool :=
  if P.quarkCheckSecureLockBoot then pure false
  else do
    let hintSize ← readCapsule32 P (sizeAt hint)
    if hintSize = size then do
      let hintTarget ← readCapsule32 P (targetAddrAt hint)
      pure (hintTarget = target)
    else pure false

/-- The part of `CapsuleParse` that records the blocks. -/
def parseHints (P : Platform) (capsuleHeader hintTable : Nat) : Exec SmmState EfiStatus := do
  let fullUpdate ← isRegionUpdate P hintTable (0x100000000 - P.spiFlashBaseAddress)
    P.spiFlashBaseAddress
  if fullUpdate then do
    let _ ← recordHint P 0 capsuleHeader hintTable
    pure .success
  else do
    let stagesUpdate ← isRegionUpdate P hintTable flashRegionBiosStagesMaxSize
      flashRegionBiosStagesBaseAddress
    if stagesUpdate then do
      let _ ← recordHint P 0 capsuleHeader hintTable
      pure .success
    else .loop P.fuel (parseBody P capsuleHeader) (hintTable, 0)

def capsuleParse (P : Platform) : Exec SmmState EfiStatus := do
  if P.capsuleSmmBuffer = 0 then pure .outOfResources
  else do
    let capsuleHeader := P.capsuleSmmBuffer
    let headerSize ← readCapsule32 P (headerSizeAt capsuleHeader)
    .modify fun s => { s with
      updateStatusPacket := { s.updateStatusPacket with totalBlocks := 0 } }
    let status ← parseHints P capsuleHeader (u32 (capsuleHeader + headerSize))
    if status.isError then pure status
    else do
      let s ← .get
      assert P.debugAssertEnabled (s.updateStatusPacket.totalBlocks < P.maxBlockNumber)
      .modify fun s => { s with
        currBlock := 0
        updateStatusPacket := { s.updateStatusPacket with status := .success } }
      pure .success

end Quark.SmiFlash
