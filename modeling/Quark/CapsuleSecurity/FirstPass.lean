import Quark.CapsuleSecurity.VersionCheck
import Quark.Library.MfhLookups
import Quark.Machine.Promotion

/-!
# The first pass over a capsule

What `PlatformCapsuleSecurity` finds out about the hints before it looks at their versions: images that a
capsule may not contain, the MFH to go by, the fixed areas among the targets, and the stage 1 and stage 2
items that `SetMfhGlobals` collects from the MFH.
-/

namespace Quark.CapsuleSecurity

open Machine MfhLib PlatformDataLib

abbrev maxStage1InMfh : Nat := SmiFlash.maxImagesPerCapsule

abbrev pdatMrcMinVersion : Nat := 1

/-! ## `SetMfhGlobals` -/

/-- The globals `mStage1MfhList`, of which the first `mNumberStage1InMfh` elements count, and
`mStage2MfhItem`. -/
structure MfhGlobals where
  mStage1MfhList : List Nat
  mStage2MfhItem : Option Nat

/-- Store an item at `mStage1MfhList [mNumberStage1InMfh]` and count it. -/
def storeStage1 (g : MfhGlobals) (item : Nat) : Except Stop MfhGlobals :=
  if g.mStage1MfhList.length < maxStage1InMfh then
    .ok { g with mStage1MfhList := g.mStage1MfhList ++ [item] }
  else .error .outOfBounds

/-- What `SetMfhGlobals` does with one item: it goes on with other globals, or returns. -/
def noteItem (rd : Mem) (g : MfhGlobals) (item : Nat) :
    MfhGlobals ⊕ Except Stop (EfiStatus × MfhGlobals) :=
  if itemType rd item = typeFwStage2Signed then
    if g.mStage2MfhItem.isSome then .inr (.ok (.unsupported, g))
    else .inl { g with mStage2MfhItem := some item }
  else if itemFlashAddress rd item ≠ pcdFlashFvFixedStage1AreaBase then
    match storeStage1 g item with
    | .ok g => .inl g
    | .error w => .inr (.error w)
  else .inl g

/-- One pass of the loop of `SetMfhGlobals`. -/
def setMfhGlobalsBody {σ : Type} (asserts : Bool) (rd : Mem)
    (l : MfhGlobals × Option (Nat × MfhLib.FindContext)) :
    Exec σ (MfhGlobals × Option (Nat × MfhLib.FindContext) ⊕ EfiStatus × MfhGlobals) :=
  match l with
  | (g, none) => pure (.inr (.success, g))
  | (g, some (item, ctx)) =>
    match noteItem rd g item with
    | .inl g => do
      let next ← mfhLibFindNextWithFilter asserts rd findAllSignedStage1Stage2Filter ctx
      pure (.inl (g, next))
    | .inr (.ok r) => pure (.inr r)
    | .inr (.error w) => .halt w

def setMfhGlobals {σ : Type} (asserts : Bool) (rd : Mem) (mfhHeader : Option Nat) :
    Exec σ (EfiStatus × MfhGlobals) := do
  let first ← mfhLibFindFirstWithFilter asserts rd mfhHeader findAllSignedStage1Stage2Filter false
  .loop (mfhMaxNumFlashItems + 1) (setMfhGlobalsBody asserts rd) (⟨[], none⟩, first)

/-! ## Platform data -/

structure Intake where
  /-- `DebugAssertEnabled ()`. -/
  debugAssertEnabled : Bool
  rd : Mem
  capsuleHeader : Nat
  /-- `PlatformType->BootingRecoveryDxe`. -/
  bootingRecoveryDxe : Bool
  /-- `PlatformIsSupportedPlatformType`. -/
  platformIsSupportedPlatformType : Nat → Bool
  /-- What the local `CalcCrc` of `PDatLibValidateArea` holds. -/
  uninitCalcCrc : Nat
  /-- How many items of platform data the model follows. -/
  fuel : Nat

namespace Intake

variable (I : Intake)

/-- `Type` after `PDatLibFindItem` has copied the data of an item to it. -/
def typeOfItem {σ : Type} (item : Nat) : Exec σ Nat :=
  if itemLength I.rd item = 0 then pure 0
  else if itemLength I.rd item = 1 then pure (I.rd (itemData item)).toNat
  else if itemLength I.rd item = 2 then pure (I.rd.rd16 (itemData item))
  else .halt .outOfBounds

def validateCriticalPlatformDataItems {σ : Type} (pdatArea : Nat) : Exec σ EfiStatus := do
  let platformId ← pDatLibFindItem I.fuel I.debugAssertEnabled I.rd (some pdatArea)
    pdatItemIdPlatformId false I.uninitCalcCrc
  match platformId with
  | none => pure .notFound
  | some item => do
    let type ← I.typeOfItem item
    if I.platformIsSupportedPlatformType type = false then pure .unsupported
    else do
      let mrcVars ← pDatLibFindItem I.fuel I.debugAssertEnabled I.rd (some pdatArea) pdatItemIdMrcVars
        true I.uninitCalcCrc
      match mrcVars with
      | none => pure .notFound
      | some item =>
        if itemVersion I.rd item < pdatMrcMinVersion then pure .incompatibleVersion
        else if type ≠ I.rd.rd16 (itemData item) then pure .invalidParameter
        else pure .success

def checkPlatformData {σ : Type} (pdatAddress : Nat) : Exec σ EfiStatus :=
  if (pDatLibValidateArea I.rd pdatAddress true I.uninitCalcCrc).isError then pure .volumeCorrupted
  else do
    let status ← I.validateCriticalPlatformDataItems pdatAddress
    pure (if status.isError then .invalidParameter else .success)

/-! ## The hints -/

structure Locals where
  status : EfiStatus
  useMfhHeader : Option Nat
  mfhSourceOffset : Nat
  priorities : List HintPriority
  nvRamInCapsule : Bool
  pdatAddress : Option Nat
  updateHintCount : Nat

/-- `CheckFixedInPriorityList`: the position of the element. -/
def checkFixedInPriorityList (priorities : List HintPriority) (hint : UpdateHint) : Option Nat :=
  priorities.findIdx? fun priorityEle =>
    priorityEle.fixedAddress ∧ hint.targetAddr = priorityEle.flashAddress

def noteMfh (hint : UpdateHint) (l : Locals) : Locals × Bool :=
  if hint.targetAddr = flashRegionMfhBaseAddress then
    let l := if l.useMfhHeader.isSome then { l with status := .invalidParameter } else l
    let dataToWrite := u32 (I.capsuleHeader + hint.sourceOffset)
    if (mfhLibValidateMfhBaseAddress I.rd dataToWrite).isNone then
      ({ l with status := .volumeCorrupted }, false)
    else ({ l with useMfhHeader := some dataToWrite, mfhSourceOffset := hint.sourceOffset }, true)
  else (l, true)

/-- A fixed area among the targets: "Tell later reorder code to expect this image." -/
def noteFixed (hint : UpdateHint) (l : Locals) : Locals × Bool :=
  match checkFixedInPriorityList l.priorities hint with
  | none => (l, true)
  | some i =>
    match l.priorities[i]? with
    | none => (l, true)
    | some priorityEle =>
      if 0 < priorityEle.imageLimit then ({ l with status := .invalidParameter }, false)
      else ({ l with priorities := l.priorities.set i { priorityEle with imageLimit := 1 } }, true)

def notePlatformData {σ : Type} (hint : UpdateHint) (l : Locals) : Exec σ (Locals × Bool) :=
  if hint.targetAddr = flashRegionPlatformDataBaseAddress then do
    let pdatAddress := u32 (I.capsuleHeader + hint.sourceOffset)
    let status ← I.checkPlatformData pdatAddress
    pure ({ l with pdatAddress := some pdatAddress, status }, status.isError = false)
  else pure (l, true)

def firstPassHint {σ : Type} (hint : UpdateHint) (l : Locals) : Exec σ (Locals × Bool) :=
  if hint.targetAddr = flashRegionQuarkKeyModuleBaseAddress ∨
      hint.targetAddr = flashRegionSvnBaseAddress then
    pure ({ l with status := .unsupported }, false)
  else
    let (l, goOn) := I.noteMfh hint l
    if goOn = false then pure (l, false)
    else
      let (l, goOn) := noteFixed hint l
      if goOn = false then pure (l, false)
      else do
        let (l, goOn) ← I.notePlatformData hint
          { l with
            nvRamInCapsule := l.nvRamInCapsule ∨ hint.targetAddr = flashRegionBiosNvStorageBase }
        if goOn = false then pure (l, false)
        else pure ({ l with updateHintCount := l.updateHintCount + 1 }, true)

def firstPassHints {σ : Type} : List UpdateHint → Locals → Exec σ Locals
  | [], l => pure l
  | hint :: hints, l =>
    if hint.size = 0 then pure l
    else do
      let (l, goOn) ← I.firstPassHint hint l
      if goOn then firstPassHints hints l else pure l

def firstPass {σ : Type} (hints : List UpdateHint) : Exec σ Locals := do
  let priorities := mPriorityHintList.map fun priorityEle => { priorityEle with imageLimit := 0 }
  let l ← I.firstPassHints hints {
    status := .success
    useMfhHeader := none
    mfhSourceOffset := 0
    priorities
    nvRamInCapsule := false
    pdatAddress := none
    updateHintCount := 0 }
  if l.status.isError then pure l
  else if l.updateHintCount = 0 then pure { l with status := .invalidParameter }
  else if l.useMfhHeader = none ∧ I.bootingRecoveryDxe then pure { l with status := .invalidParameter }
  else pure l

end Intake

/-! ## The order of the hints in a capsule

The third pass works in place on a table with a terminator behind its hints. One priority element after
the other promotes the hints that it wants, so the table ends up with what the elements have promoted in
front, and behind it what none of them has wanted.
-/

/-- The third pass over a table in which `updateHintCount` hints stand before the terminator. -/
def Context.reorderTable {σ : Type} (C : Context) (priorities : List HintPriority)
    (updateHintCount : Nat) (table : List UpdateHint) : Exec σ (List UpdateHint) :=
  let priorities := C.setMfhPriorities priorities
  .loop (priorities.length + 1) (C.reorderBody priorities updateHintCount) (0, 0, table)

/-! ## What a priority element promotes -/

/-- The element has use for the hint as number `k` of those it promotes. -/
def HintPriority.wants (rd : Mem) (priorityEle : HintPriority) (k : Nat) (hint : UpdateHint) : Bool :=
  if priorityEle.fixedAddress then priorityEle.flashAddress = hint.targetAddr
  else
    match priorityEle.mfhItemList with
    | none => false
    | some mfhItemList =>
      itemFlashAddress rd (u32 (mfhItemList + sizeofMfhFlashItem * k)) = hint.targetAddr

def HintPriority.limit (priorityEle : HintPriority) : Nat :=
  if priorityEle.fixedAddress then min 1 priorityEle.imageLimit else priorityEle.imageLimit

def promoteAll (rd : Mem) : List HintPriority → List UpdateHint → List UpdateHint × List UpdateHint
  | [], hints => ([], hints)
  | priorityEle :: priorities, hints =>
    let (moved, left) := Promotion.promote (priorityEle.wants rd) priorityEle.limit hints
    let (moved', left) := promoteAll rd priorities left
    (moved ++ moved', left)

def inPriorityOrder (rd : Mem) (priorities : List HintPriority) (hints : List UpdateHint) :
    List UpdateHint :=
  (promoteAll rd priorities hints).1 ++ (promoteAll rd priorities hints).2

/-! ## Fixed areas and stage 1 images -/

/-- `mPriorityHintList` after a first pass over the given hints. -/
def notedPriorities (hints : List UpdateHint) : List HintPriority :=
  mPriorityHintList.map fun priorityEle => { priorityEle with
    imageLimit :=
      if priorityEle.fixedAddress ∧ ∃ hint ∈ hints, hint.targetAddr = priorityEle.flashAddress then 1
      else 0 }

/-- The hint targets an area with a place of its own in `mPriorityHintList`. -/
def TargetsFixedArea (hint : UpdateHint) : Prop :=
  ∃ priorityEle ∈ mPriorityHintList,
    priorityEle.fixedAddress = true ∧ priorityEle.flashAddress = hint.targetAddr

namespace Context

variable (C : Context)

def targetsStage1 (hint : UpdateHint) : Bool := C.isMfhStage1TargetAddress hint.targetAddr

def leftByFixedAreas (hints : List UpdateHint) : List UpdateHint :=
  (promoteAll C.rd ((notedPriorities hints).filter (·.fixedAddress)) hints).2

/-- The hints at stage 1 images target, in order, the items of the MFH from the first listed one on, as
many as are listed at most. -/
def Stage1Run (hints : List UpdateHint) : Prop :=
  ∀ k hint, (hints.filter C.targetsStage1)[k]? = some hint →
    k < C.mStage1MfhList.length ∧
      ∃ first, C.mStage1MfhList.head? = some first ∧
        itemFlashAddress C.rd (u32 (first + sizeofMfhFlashItem * k)) = hint.targetAddr

/-- No hint that targets neither a fixed area nor a stage 1 image comes before one at a stage 1 image. -/
def Stage1First (hints : List UpdateHint) : Prop :=
  hints.Pairwise fun earlier later =>
    C.targetsStage1 later = true → TargetsFixedArea earlier ∨ C.targetsStage1 earlier = true

def OnlyRecoveryBefore (hints : List UpdateHint) : Prop :=
  hints.Pairwise fun earlier later => C.targetsStage1 later = true →
    earlier.targetAddr = pcdFlashFvFixedStage1AreaBase ∨ C.targetsStage1 earlier = true

/-- The globals are the ones that `SetMfhGlobals` finds in the MFH. -/
def Collected : Prop :=
  ∀ s : Unit, setMfhGlobals C.debugAssertEnabled C.rd C.useMfhHeader s =
    .ret (.success, ⟨C.mStage1MfhList, C.mStage2MfhItem⟩) s

end Context

/-! ## A sample -/

/-- A capsule for a flash with the MFH of `sampleMfh`. -/
def sampleIntake : Intake where
  debugAssertEnabled := true
  rd := sampleMfh 0
  capsuleHeader := 0x1000
  bootingRecoveryDxe := false
  platformIsSupportedPlatformType _ := true
  uninitCalcCrc := 0
  fuel := 0

def sampleChecks : Context where
  debugAssertEnabled := true
  rd := sampleMfh 0
  signedCapsule := 0x1000
  securityAuthenticateImage _ := .success
  useMfhHeader := none
  mStage1MfhList := [sampleLayout.flashItemList]
  mStage2MfhItem := none

def sampleTable (first second : Nat) : List UpdateHint :=
  [⟨first, 0x1000, 0x100, 0⟩, ⟨second, 0x1000, 0x1100, 0⟩, ⟨0, 0, 0, 0⟩]

end Quark.CapsuleSecurity
