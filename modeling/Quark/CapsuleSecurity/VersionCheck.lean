import Quark.SmiFlash.StateMachine

/-!
# Version checks of a capsule

The second pass of `PlatformCapsuleSecurity` in `DxeCapsuleSecurity.c` and what comes before it on a
secure SKU. Every image has its security header at its source offset in the capsule. The security
version number in it is checked against an array that starts as a copy of the one in flash, and that
the images themselves raise as the hint table is walked.
-/

namespace Quark.CapsuleSecurity

open Machine MfhLib

abbrev quarkCshIdentifier : Nat := 0x5F435348
abbrev quarkSvnArraySize : Nat := 16
abbrev quarkFixedSvnIndexStage1Image : Nat := 1
abbrev quarkFixedSvnIndexRecoveryImage : Nat := 2
abbrev quarkFixedSvnIndexCapsuleImage : Nat := 15

section Fields

variable (rd : Mem)

/-- The fields of `QuarkSecurityHeader_t`. -/
def cshIdentifier (header : Nat) : Nat := rd.rd32 header
def securityVersionNumberIndex (header : Nat) : Nat := rd.rd32 (header + 12)
def securityVersionNumber (header : Nat) : Nat := rd.rd32 (header + 16)

end Fields

structure UpdateHint where
  targetAddr : Nat
  size : Nat
  sourceOffset : Nat
  reserved : Nat
  deriving DecidableEq

structure Context where
  /-- `DebugAssertEnabled ()`. -/
  debugAssertEnabled : Bool
  /-- Memory, with the flash and the copied capsule in it. -/
  rd : Mem
  /-- `SignedCapsule`: the security header of the capsule and the capsule after it. -/
  signedCapsule : Nat
  /-- `SecurityAuthenticateImage`, which has the boot ROM check the image at an address. -/
  securityAuthenticateImage : Nat → EfiStatus
  useMfhHeader : Option Nat
  /-- The globals that `SetMfhGlobals` has filled in. -/
  mStage1MfhList : List Nat
  mStage2MfhItem : Option Nat

/-- The locals of `PlatformCapsuleSecurity` that the checks work on. -/
structure SvnLocals where
  status : EfiStatus
  svnArray : Nat → Nat
  svnArrayUpdated : Bool
  svnRecoveryUpdated : Bool

def readCurrentSvnArray (rd : Mem) : Nat → Nat := fun i =>
  rd.rd32 (flashRegionSvnBaseAddress + 4 * i)

namespace Context

variable (C : Context)

def capsuleHeader : Nat := u32 (C.signedCapsule + pcdFvSecurityHeaderSize)

/-- `DataToWrite`, where the security header of an image is. -/
def dataToWrite (hint : UpdateHint) : Nat := u32 (C.capsuleHeader + hint.sourceOffset)

def isMfhStage1TargetAddress (targetAddr : Nat) : Bool :=
  C.mStage1MfhList.any fun item => itemFlashAddress C.rd item = targetAddr

def isUnsignedDataArea (targetAddr : Nat) : Bool :=
  targetAddr = flashRegionBiosNvStorageBase ∨ targetAddr = flashRegionMfhBaseAddress ∨
    targetAddr = flashRegionPlatformDataBaseAddress

/-- "Validate Svn Index": `Status` and `Stage3PlusImage`. -/
def validateSvnIndex (targetAddr svnIndex : Nat) : EfiStatus × Bool :=
  if quarkFixedSvnIndexCapsuleImage ≤ svnIndex then (.invalidParameter, false)
  else if targetAddr = pcdFlashFvFixedStage1AreaBase then
    (if svnIndex ≠ quarkFixedSvnIndexRecoveryImage then .invalidParameter else .success, false)
  else if C.isMfhStage1TargetAddress targetAddr then
    (if svnIndex ≠ quarkFixedSvnIndexStage1Image then .invalidParameter else .success, false)
  else
    (if svnIndex ≤ quarkFixedSvnIndexRecoveryImage then .invalidParameter else .success,
      match C.mStage2MfhItem with
      | none => true
      | some item => targetAddr ≠ itemFlashAddress C.rd item)

/-- "Update capsule Svn". -/
def updateCapsuleSvn (svnArray : Nat → Nat) : SvnLocals :=
  let l : SvnLocals := ⟨.success, svnArray, false, false⟩
  if cshIdentifier C.rd C.signedCapsule = quarkCshIdentifier then
    let l :=
      if securityVersionNumberIndex C.rd C.signedCapsule ≠ quarkFixedSvnIndexCapsuleImage then
        { l with status := .unsupported }
      else l
    if l.svnArray quarkFixedSvnIndexCapsuleImage < securityVersionNumber C.rd C.signedCapsule then
      { l with
        svnArrayUpdated := true
        svnArray := Function.update l.svnArray quarkFixedSvnIndexCapsuleImage
          (securityVersionNumber C.rd C.signedCapsule) }
    else l
  else l

/-- "Final checks before updateing Svn Array". -/
def updateSvnArray (hint : UpdateHint) (l : SvnLocals) : SvnLocals :=
  let svnIndex := securityVersionNumberIndex C.rd (C.dataToWrite hint)
  let svn := securityVersionNumber C.rd (C.dataToWrite hint)
  if l.status.isError = false ∧ svn ≠ l.svnArray svnIndex then
    if svn < l.svnArray svnIndex then { l with status := .securityViolation }
    else
      { l with
        svnArray := Function.update l.svnArray svnIndex svn
        svnArrayUpdated := true
        svnRecoveryUpdated :=
          l.svnRecoveryUpdated ∨ hint.targetAddr = pcdFlashFvFixedStage1AreaBase }
  else l

def authenticateHint {σ : Type} (hint : UpdateHint) (stage3PlusImage : Bool) : Exec σ EfiStatus :=
  if stage3PlusImage then do
    let item ← mfhLibFindForFlashAddress C.debugAssertEnabled C.rd C.useMfhHeader hint.targetAddr
    pure (if item.isNone then .unsupported else .success)
  else
    pure (C.securityAuthenticateImage (u32 (C.dataToWrite hint + pcdFvSecurityHeaderSize)))

/-- One hint of the second pass. The `break` after a wrong index and the loop condition on `Status` come
to the same. -/
def checkHint {σ : Type} (hint : UpdateHint) (l : SvnLocals) : Exec σ SvnLocals :=
  if isUnsignedDataArea hint.targetAddr then pure l
  else if cshIdentifier C.rd (C.dataToWrite hint) ≠ quarkCshIdentifier then pure l
  else
    let (status, stage3PlusImage) := C.validateSvnIndex hint.targetAddr
      (securityVersionNumberIndex C.rd (C.dataToWrite hint))
    if status.isError then pure { l with status }
    else do
      let status ← C.authenticateHint hint stage3PlusImage
      pure (C.updateSvnArray hint { l with status })

def secondPass {σ : Type} : List UpdateHint → SvnLocals → Exec σ SvnLocals
  | [], l => pure l
  | hint :: hints, l =>
    if l.status.isError then pure l
    else do
      let l ← C.checkHint hint l
      secondPass hints l

def versionChecks {σ : Type} (hints : List UpdateHint) : Exec σ SvnLocals :=
  C.secondPass hints (C.updateCapsuleSvn (readCurrentSvnArray C.rd))

end Context

/-- `NewSvnArray` afterwards, which is written only if an entry has changed. -/
def SvnLocals.newSvnArray (l : SvnLocals) (newSvnArray : Nat → Nat) : Nat → Nat :=
  if l.svnArrayUpdated then l.svnArray else newSvnArray

/-! ## A capsule on a secure SKU

What `PlatformCapsuleSecurity` does once `QncIsSecureProvisionedSku` has returned `TRUE`: the version
checks, the reordering of the hints by priority, and the choice of the point at which the array in
flash is written.
-/

open Machine MfhLib SmiFlash

structure HintPriority where
  flashAddress : Nat
  fixedAddress : Bool
  imageLimit : Nat
  mfhType : Nat
  /-- `*MfhItemList`. -/
  mfhItemList : Option Nat

/-- `mPriorityHintList` as it is compiled in. -/
def mPriorityHintList : List HintPriority := [
  ⟨pcdFlashFvFixedStage1AreaBase, true, 0, typeInvalid, none⟩,
  ⟨flashRegionPlatformDataBaseAddress, true, 0, typeInvalid, none⟩,
  ⟨flashRegionBiosNvStorageBase, true, 0, typeInvalid, none⟩,
  ⟨flashRegionMfhBaseAddress, true, 0, typeInvalid, none⟩,
  ⟨0, false, 0, typeFwStage1Signed, none⟩,
  ⟨0, false, 0, typeFwStage2Signed, none⟩]

/-- `SwapHint` of two elements of the hint table. -/
def swapHint (hints : List UpdateHint) (i j : Nat) : List UpdateHint :=
  match hints[i]?, hints[j]? with
  | some hint1, some hint2 => (hints.set i hint2).set j hint1
  | _, _ => hints

/-! ## Moving up the hints of a priority element -/

/-- The locals of the loop of `MoveUpNextProrityElement`. -/
structure MoveLocals where
  hints : List UpdateHint
  index : Nat
  hintPosIdx : Nat
  mfhIndex : Nat

/-- One pass of the loop over the hints from `hintPos` on. -/
def moveUpBody {σ : Type} (rd : Mem) (priorityEle : HintPriority) (hintPos hintsLeft : Nat)
    (l : MoveLocals) : Exec σ (MoveLocals ⊕ MoveLocals) :=
  if l.index < hintsLeft ∧ l.hintPosIdx < priorityEle.imageLimit then
    match l.hints[hintPos + l.index]? with
    | none => .halt .outOfBounds
    | some hintToCheck =>
      let moved := swapHint l.hints (hintPos + l.hintPosIdx) (hintPos + l.index)
      if priorityEle.fixedAddress then
        if priorityEle.flashAddress = hintToCheck.targetAddr then
          pure (.inr { l with hints := moved, hintPosIdx := l.hintPosIdx + 1 })
        else pure (.inl { l with index := l.index + 1 })
      else
        match priorityEle.mfhItemList with
        | none => pure (.inl { l with index := l.index + 1 })
        | some mfhItemList =>
          if l.mfhIndex < priorityEle.imageLimit ∧
              itemFlashAddress rd (u32 (mfhItemList + sizeofMfhFlashItem * l.mfhIndex)) =
                hintToCheck.targetAddr then
            pure (.inl {
              hints := moved
              index := l.index + 1
              hintPosIdx := l.hintPosIdx + 1
              mfhIndex := l.mfhIndex + 1 })
          else pure (.inl { l with index := l.index + 1 })
  else pure (.inr l)

/-- "Find next prioity element whose images need to be moved up." -/
def nextPriorityPosition (priorities : List HintPriority) (priorityPosition : Nat) : Nat :=
  priorityPosition +
    (priorities.drop priorityPosition).findIdx fun priorityEle => 0 < priorityEle.imageLimit

/-- `MoveUpNextProrityElement`: how many hints it has moved up, the priority position after it, and the
hints. -/
def moveUpNextPrority {σ : Type} (rd : Mem) (priorities : List HintPriority) (hintPos hintsLeft : Nat)
    (priorityPosition : Nat) (hints : List UpdateHint) : Exec σ (Nat × Nat × List UpdateHint) :=
  let priorityPosition := nextPriorityPosition priorities priorityPosition
  match priorities[priorityPosition]? with
  | none => pure (0, priorityPosition, hints)
  | some priorityEle => do
    let l ← .loop (hintsLeft + 1) (moveUpBody rd priorityEle hintPos hintsLeft) ⟨hints, 0, 0, 0⟩
    pure (l.hintPosIdx, priorityPosition + 1, l.hints)

namespace Context

variable (C : Context)

def setMfhPriorities (priorities : List HintPriority) : List HintPriority :=
  priorities.map fun priorityEle =>
    if priorityEle.mfhType = typeFwStage1Signed then
      { priorityEle with
        mfhItemList := C.mStage1MfhList.head?
        imageLimit := C.mStage1MfhList.length }
    else if priorityEle.mfhType = typeFwStage2Signed ∧ C.mStage2MfhItem.isSome then
      { priorityEle with mfhItemList := C.mStage2MfhItem, imageLimit := 1 }
    else priorityEle

/-- One pass of the loop that reorders the hints, with `PriorityPosition`, `Index` and the hints. -/
def reorderBody {σ : Type} (priorities : List HintPriority) (updateHintCount : Nat)
    (l : Nat × Nat × List UpdateHint) :
    Exec σ ((Nat × Nat × List UpdateHint) ⊕ List UpdateHint) :=
  let (priorityPosition, index, hints) := l
  if priorityPosition < priorities.length ∧ index < updateHintCount - 1 then do
    let (moved, priorityPosition, hints) ←
      moveUpNextPrority C.rd priorities index (updateHintCount - index) priorityPosition hints
    pure (.inl (priorityPosition, index + moved, hints))
  else pure (.inr hints)

def reorderHints {σ : Type} (priorities : List HintPriority) (hints : List UpdateHint) :
    Exec σ (List UpdateHint) :=
  let priorities := C.setMfhPriorities priorities
  .loop (priorities.length + 1) (C.reorderBody priorities hints.length) (0, 0, hints)

end Context

/-! ## The update point -/

/-- What `PlatformCapsuleSecurity` leaves with its caller. -/
structure SecurityResult where
  status : EfiStatus
  updateHint : List UpdateHint
  newSvnArray : Nat → Nat
  svnAreaUpdPoint : Nat
  svnAreaUpdTrigAddr : Nat

/-- "Update caller's svn array buffer and tell caller when to write Svn Array." -/
def chooseUpdatePoint {σ : Type} (debugAssertEnabled : Bool) (l : SvnLocals)
    (newSvnArray : Nat → Nat) (updateHint : List UpdateHint) : Exec σ SecurityResult :=
  let result : SecurityResult := ⟨l.status, updateHint, l.newSvnArray newSvnArray, svnUpdNever, 0⟩
  if l.svnArrayUpdated = false then pure result
  else if l.svnRecoveryUpdated then do
    assert debugAssertEnabled
      (updateHint.head?.map UpdateHint.targetAddr = some pcdFlashFvFixedStage1AreaBase)
    match updateHint with
    | _ :: second :: _ =>
      pure { result with
        svnAreaUpdPoint := svnUpdAtTrigAddr
        svnAreaUpdTrigAddr := second.targetAddr }
    | _ => pure { result with svnAreaUpdPoint := svnUpdAtEnd }
  else pure { result with svnAreaUpdPoint := svnUpdAtStart }

/-- What is done on a secure SKU. `priorities` is `mPriorityHintList` as the first pass has left it, and
`newSvnArray` the caller's buffer. -/
def Context.secureSku {σ : Type} (C : Context) (priorities : List HintPriority)
    (hints : List UpdateHint) (newSvnArray : Nat → Nat) : Exec σ SecurityResult := do
  let l ← C.versionChecks hints
  if l.status.isError then pure ⟨l.status, hints, newSvnArray, svnUpdNever, 0⟩
  else do
    let hints ← C.reorderHints priorities hints
    chooseUpdatePoint C.debugAssertEnabled l newSvnArray hints

end Quark.CapsuleSecurity
