import Quark.SmiFlash.State

/-!
# `SMIFlashDxe`: the image list

`mSpiImageList` says which flash regions a capsule may update. The fixed regions are compiled in; the
ranges of the stage 1, stage 2 and OS entries follow from the MFH that goes with the capsule.
-/

namespace Quark.SmiFlash

open Machine MfhLib

/-- `mSpiImageList` as it is compiled in. -/
def initialSpiImageList : List SpiImagePresent :=
  [⟨typeInvalid, flashRegionBootromOverrideBaseAddress, flashRegionBootromOverrideMaxSize, true, true, false⟩,
   ⟨typeInvalid, flashRegionQuarkKeyModuleBaseAddress, flashRegionKeyModuleMaxSize, true, true, false⟩,
   ⟨typeInvalid, pcdFlashFvFixedStage1AreaBase, pcdFlashFvFixedStage1AreaSize, true, true, false⟩,
   ⟨typeInvalid, flashRegionOemNvStorageBase, flashRegionOemNvStorageSize, true, true, false⟩,
   ⟨typeInvalid, flashRegionBiosNvStorageBase, flashRegionBiosNvStorageSize, true, true, false⟩,
   ⟨typeInvalid, flashRegionPlatformDataBaseAddress, flashRegionPlatformDataMaxSize, true, true, false⟩,
   ⟨typeInvalid, flashRegionMfhBaseAddress, flashRegionMfhMaxSize, true, true, false⟩,
   ⟨typeInvalid, flashRegionRmuBaseAddress, flashRegionRmuMaxSize, true, true, false⟩,
   ⟨typeFwStage1Signed, 0, 0, false, false, true⟩,
   ⟨typeFwStage2Signed, 0, 0, false, false, false⟩,
   ⟨typeInvalid, flashRegionOsDefaultBaseAddress, 0, true, true, true⟩]

def SpiImagePresent.range (e : SpiImagePresent) : Range :=
  ⟨e.spiImageDefaultBaseAddress, e.spiImageMaxSize⟩

/-- One iteration of the loop of `SetupImageGlobals`. -/
def setupImageEntry (P : Platform) (index : Nat) (e : SpiImagePresent) : Exec SmmState Unit :=
  if e.fixedAddress then
    .modify fun s => { s with
      osElement :=
        if e.spiImageDefaultBaseAddress = flashRegionOsDefaultBaseAddress then some index
        else s.osElement
      nvramElement :=
        if e.spiImageDefaultBaseAddress = flashRegionBiosNvStorageBase then some index
        else s.nvramElement }
  else if e.mfhType = typeFwStage1Signed ∧
      e.spiImageDefaultBaseAddress ≠ pcdFlashFvFixedStage1AreaBase then do
    let s ← .get
    assert P.debugAssertEnabled (s.stage1Element = none)
    .modify fun s => { s with stage1Element := some index }
  else if e.mfhType = typeFwStage2Signed then do
    let s ← .get
    assert P.debugAssertEnabled (s.stage2Element = none)
    .modify fun s => { s with stage2Element := some index }
  else pure ()

/-- `SetupImageGlobals`, from entry `index` of the list on. -/
def setupImageGlobalsFrom (P : Platform) : Nat → List SpiImagePresent → Exec SmmState Unit
  | _, [] => pure ()
  | index, e :: es => do
    setupImageEntry P index e
    setupImageGlobalsFrom P (index + 1) es

def setupImageGlobals (P : Platform) : Exec SmmState Unit := do
  let s ← .get
  setupImageGlobalsFrom P 0 s.spiImageList

/-- Update the entry a pointer such as `mStage1Element` points to. -/
def modifyElement (element : Option Nat) (f : SpiImagePresent → SpiImagePresent) :
    Exec SmmState Unit :=
  .modify fun s => match element with
    | none => s
    | some i => { s with spiImageList := s.spiImageList.modify i f }

/-- `Element->SpiImageDefaultBaseAddress`. -/
def elementBase (s : SmmState) (element : Option Nat) : Nat :=
  match element.bind fun i => s.spiImageList[i]? with
  | some e => e.spiImageDefaultBaseAddress
  | none => 0

/-- What `ValidateMfhForFlashUpdate` takes from one flash item of an MFH. -/
def noteMfhItem (s : SmmState) (type address : Nat) : Exec SmmState Unit :=
  if type = typeFwStage2Signed then
    modifyElement s.stage2Element fun e =>
      { e with spiImageDefaultBaseAddress := address, updatable := true }
  else if type = typeFwStage1Signed ∧ address ≠ pcdFlashFvFixedStage1AreaBase then
    modifyElement s.stage1Element fun e =>
      { e with
        updatable := true
        spiImageDefaultBaseAddress := min e.spiImageDefaultBaseAddress address }
  else pure ()

/-- One iteration over the flash items in `ValidateMfhForFlashUpdate`. -/
def validateMfhItem (P : Platform) (cur : Option (Nat × MfhLib.FindContext)) :
    Exec SmmState (Option (Nat × MfhLib.FindContext) ⊕ EfiStatus) := do
  let s ← .get
  match cur with
  | none => pure (.inr .success)
  | some (item, ctx) =>
    let address := itemFlashAddress (s.rd P) item
    if address % flashBlockSize ≠ 0 then pure (.inr .unsupported)
    else do
      noteMfhItem s (itemType (s.rd P) item) address
      let next ← mfhLibFindNextWithFilter P.debugAssertEnabled (s.rd P) findAnyFitFilter ctx
      pure (.inl next)

/-- The sizes `ValidateMfhForFlashUpdate` sets once all items are accepted: stage 1 ends where the
stages end, stage 2 where stage 1 starts, and the OS area where stage 2 starts. -/
def setStageSizes (P : Platform) : Exec SmmState Unit := do
  let s ← .get
  let stage1 := elementBase s s.stage1Element
  let stage2 := elementBase s s.stage2Element
  let os := elementBase s s.osElement
  modifyElement s.stage1Element fun e =>
    { e with spiImageMaxSize := u32 (sub32 flashRegionBiosStagesLimitAddress stage1 + 1) }
  assert P.debugAssertEnabled (stage2 ≤ stage1)
  modifyElement s.stage2Element fun e => { e with spiImageMaxSize := sub32 stage1 stage2 }
  .when (s.osElement ≠ none) do
    assert P.debugAssertEnabled (os ≤ stage2)
    modifyElement s.osElement fun e => { e with spiImageMaxSize := sub32 stage2 os }

def validateMfhForFlashUpdate (P : Platform) (mfhHeader : Option Nat) :
    Exec SmmState EfiStatus := do
  let s ← .get
  assert P.debugAssertEnabled (s.stage1Element ≠ none)
  assert P.debugAssertEnabled (s.stage2Element ≠ none)
  modifyElement s.stage1Element fun e =>
    { e with spiImageDefaultBaseAddress := flashRegionBiosStagesLimitAddress, updatable := false }
  modifyElement s.stage2Element fun e => { e with updatable := false }
  let first ← mfhLibFindFirstWithFilter P.debugAssertEnabled (s.rd P) mfhHeader findAnyFitFilter false
  let status ← .loop (mfhMaxNumFlashItems + 1) (validateMfhItem P) first
  .when (status.isError = false) (setStageSizes P)
  .modify fun s => { s with updateStatusPacket := { s.updateStatusPacket with status := status } }
  pure status

def isMfhOffsetValid (P : Platform) (newMfhSourceOffset : Nat) (s : SmmState) : Bool :=
  if u32 (newMfhSourceOffset + sizeofMfhHeader) ≤ P.pcdMaxSizeNonPopulateCapsule then
    match mfhLibValidateMfhBaseAddress (s.rd P) (u32 (P.capsuleSmmBuffer + newMfhSourceOffset)) with
    | some l => u32 (newMfhSourceOffset + l.mfhSize) ≤ P.pcdMaxSizeNonPopulateCapsule
    | none => false
  else false

end Quark.SmiFlash
