import Quark.Base.FlashMap
import Quark.Library.Crc32

/-!
# Platform data library

`PlatformDataLib.c`. A platform data area is a header (identifier, length and CRC of the body) followed
by items, each with a 16 byte header. What a lookup copies to an optional `ItemData` is the data of the
item it returns.
-/

namespace Quark.PlatformDataLib

open Machine Crc32

/-- `PDAT_IDENTIFIER`, `SIGNATURE_32 ('P', 'D', 'A', 'T')`. -/
abbrev pdatIdentifier : Nat := 0x54414450

abbrev sizeofPdatAreaHeader : Nat := 12
abbrev sizeofPdatItemHeader : Nat := 16

abbrev pdatItemIdPlatformId : Nat := 0x0001
abbrev pdatItemIdMrcVars : Nat := 0x0006

abbrev findAnyItemFilter : Nat := 0xFFFFFFFFFFFFFFFF
/-- `PDAT_FIND_NETWORK_ITEMS`: `PDAT_ITEM_ID_MAC0` and `PDAT_ITEM_ID_MAC1`. -/
abbrev findNetworkItems : Nat := 0x18

def isFilterMatch (filter id : Nat) : Bool := filter.testBit id

section Fields

variable (rd : Mem)

def areaIdentifier (area : Nat) : Nat := rd.rd32 area
def areaLength (area : Nat) : Nat := rd.rd32 (area + 4)
def areaCrc (area : Nat) : Nat := rd.rd32 (area + 8)
/-- `&Area->Body[0]`. -/
def areaBody (area : Nat) : Nat := u32 (area + sizeofPdatAreaHeader)
def itemIdentifier (item : Nat) : Nat := rd.rd16 item
def itemLength (item : Nat) : Nat := rd.rd16 (item + 2)
def itemVersion (item : Nat) : Nat := rd.rd16 (item + 14)
/-- `Item->Data`. -/
def itemData (item : Nat) : Nat := u32 (item + sizeofPdatItemHeader)

end Fields

/-- `PDatLibValidateArea`. `calcCrc` is what the local `CalcCrc` holds before
`PlatformCalculateCrc32` is called; an empty body leaves it there. -/
def pDatLibValidateArea (rd : Mem) (area : Nat) (doCrcCheck : Bool) (calcCrc : Nat) : EfiStatus :=
  if area = 0 then .invalidParameter
  else if areaIdentifier rd area ≠ pdatIdentifier then .notFound
  else if pcdPlatformDataMaxLen < areaLength rd area then .badBufferSize
  else if doCrcCheck then
    match platformCalculateCrc32 rd (areaBody area) (areaLength rd area) with
    | .ok crc => if crc ≠ areaCrc rd area then .crcError else .success
    | .error st => if calcCrc ≠ areaCrc rd area then .crcError else st
  else .success

/-- `PDatLibGetSystemAreaPointer`: the area in flash, if it is valid. -/
def pDatLibGetSystemAreaPointer (rd : Mem) (doCrcCheck : Bool) (calcCrc : Nat) : Option Nat :=
  if (pDatLibValidateArea rd pcdPlatformDataBaseAddress doCrcCheck calcCrc).isError then none
  else some pcdPlatformDataBaseAddress

/-- `PDAT_LIB_FINDCONTEXT`, less the area, which the enumerators do not read back. -/
structure FindContext where
  limit : Nat
  currMemLocation : Nat

/-- One pass of the `do … while (TRUE)` of `FindNext`. -/
def findNextBody {σ : Type} (rd : Mem) (itemIdFilter : Nat) (ctx : FindContext) :
    Exec σ (FindContext ⊕ (Option Nat × FindContext)) :=
  let item := ctx.currMemLocation
  if ctx.limit ≤ item then pure (.inr (none, ctx))
  else if itemIdFilter = findAnyItemFilter then pure (.inr (some item, ctx))
  else if itemIdentifier rd item < 64 ∧ isFilterMatch itemIdFilter (itemIdentifier rd item) then
    pure (.inr (some item, ctx))
  else
    pure (.inl { ctx with currMemLocation := u32 (item + sizeofPdatItemHeader + itemLength rd item) })

def findNext {σ : Type} (fuel : Nat) (rd : Mem) (itemIdFilter : Nat)
    (incrementBeforeMatchCheck : Bool) (ctx : FindContext) : Exec σ (Option Nat × FindContext) :=
  let curr := ctx.currMemLocation
  let ctx :=
    if incrementBeforeMatchCheck then
      { ctx with currMemLocation := u32 (curr + sizeofPdatItemHeader + itemLength rd curr) }
    else ctx
  .loop fuel (findNextBody rd itemIdFilter) ctx

/-- `PDatLibFindFirstWithFilter` on a given area, or on the system area when there is none. When the
system area is not valid the caller's context is left as it was. -/
def pDatLibFindFirstWithFilter {σ : Type} (fuel : Nat) (rd : Mem) (userArea : Option Nat)
    (itemIdFilter : Nat) (calcCrc : Nat) (ctx : FindContext) : Exec σ (Option Nat × FindContext) :=
  let area := match userArea with
    | some area => some area
    | none => pDatLibGetSystemAreaPointer rd true calcCrc
  match area with
  | none => pure (none, ctx)
  | some area =>
    findNext fuel rd itemIdFilter false
      { currMemLocation := areaBody area, limit := u32 (areaBody area + areaLength rd area) }

def pDatLibFindNextWithFilter {σ : Type} (fuel : Nat) (rd : Mem) (itemIdFilter : Nat)
    (ctx : FindContext) : Exec σ (Option Nat × FindContext) :=
  findNext fuel rd itemIdFilter true ctx

/-- One pass of the loop of `PDatLibFindItem`. -/
def findItemBody {σ : Type} (rd : Mem) (itemId limit currMemLocation : Nat) :
    Exec σ (Nat ⊕ Option Nat) :=
  if limit ≤ currMemLocation then pure (.inr none)
  else if itemIdentifier rd currMemLocation = itemId then pure (.inr (some currMemLocation))
  else
    pure (.inl (u32 (currMemLocation + sizeofPdatItemHeader + itemLength rd currMemLocation)))

def pDatLibFindItem {σ : Type} (fuel : Nat) (asserts : Bool) (rd : Mem) (userArea : Option Nat)
    (itemId : Nat) (doCrcCheck : Bool) (calcCrc : Nat) : Exec σ (Option Nat) := do
  let area := match userArea with
    | none => pDatLibGetSystemAreaPointer rd doCrcCheck calcCrc
    | some area => if (pDatLibValidateArea rd area doCrcCheck calcCrc).isError then none else some area
  .when (userArea = none) (assert asserts (area ≠ none))
  match area with
  | none => pure none
  | some area =>
    .loop fuel (findItemBody rd itemId (u32 (area + sizeofPdatAreaHeader + areaLength rd area)))
      (u32 (area + sizeofPdatAreaHeader))

/-! ## Filtered copies -/

/-- The locals of `PDatLibCopyAreaWithFilterOut`. -/
structure CopyLocals where
  item : Nat
  ctx : FindContext
  currMemLocation : Nat
  filteredCount : Nat

/-- An item that `PDatLibCopyAreaWithFilterOut` leaves out. -/
def isFilteredOut (itemIdFilter id : Nat) : Bool := id < 64 ∧ isFilterMatch itemIdFilter id

/-- One pass of the `do … while (Item != NULL)`. Every item has a length of at least its header, so that
what is not filtered out is copied. -/
def copyAreaBody (fuel destArea itemIdFilter : Nat) (l : CopyLocals) : Exec Mem (CopyLocals ⊕ Nat) := do
  let m ← .get
  let itemTotalLen := sizeofPdatItemHeader + itemLength m l.item
  let filtered := isFilteredOut itemIdFilter (itemIdentifier m l.item)
  .modify fun m =>
    if filtered then
      m.wr32 (u32 (destArea + 4)) (sub32 (areaLength m destArea) itemTotalLen)
    else m.copy m l.currMemLocation l.item itemTotalLen
  let filteredCount := if filtered then l.filteredCount + 1 else l.filteredCount
  let currMemLocation :=
    if filtered then l.currMemLocation else u32 (l.currMemLocation + itemTotalLen)
  let m ← .get
  let (item, ctx) ← pDatLibFindNextWithFilter fuel m findAnyItemFilter l.ctx
  match item with
  | none => pure (.inr filteredCount)
  | some item => pure (.inl { item, ctx, currMemLocation, filteredCount })

/-- `PDatLibCopyAreaWithFilterOut`, which works on memory. -/
def pDatLibCopyAreaWithFilterOut (fuel destArea srcArea itemIdFilter calcCrc : Nat) :
    Exec Mem EfiStatus := do
  let m ← .get
  let status := pDatLibValidateArea m srcArea true calcCrc
  if destArea = 0 then pure .invalidParameter
  else if status.isError then pure status
  else do
    let (item, ctx) ← pDatLibFindFirstWithFilter fuel m (some srcArea) findAnyItemFilter calcCrc ⟨0, 0⟩
    .modify fun m => m.copy m destArea srcArea sizeofPdatAreaHeader
    let filteredCount ← match item with
      | none => pure 0
      | some item =>
        .loop fuel (copyAreaBody fuel destArea itemIdFilter)
          ⟨item, ctx, u32 (destArea + sizeofPdatAreaHeader), 0⟩
    .when (0 < filteredCount) do
      let m ← .get
      match platformCalculateCrc32 m (areaBody destArea) (areaLength m destArea) with
      | .ok crc => .modify fun m => m.wr32 (u32 (destArea + 8)) crc
      | .error _ => pure ()
    let m ← .get
    pure (pDatLibValidateArea m destArea false calcCrc)

end Quark.PlatformDataLib
