import Quark.Base.Efi
import Quark.Base.FlashMap
import Quark.Machine.Memory

/-!
# Master Flash Header library

`MfhLib.c`: an MFH is a header, a boot priority list of item indices and a list of flash items, read
in place through the reader `rd` of the memory it lies in. Pointers are addresses, `NULL` is `none`.
-/

namespace Quark.MfhLib

open Machine

abbrev mfhIdentifier : Nat := 0x5F4D4648
abbrev mfhMaxNumBootItems : Nat := 24
abbrev mfhMaxNumFlashItems : Nat := 240

abbrev typeInvalid : Nat := 0xFFFFFFFF
abbrev typeFwStage1Signed : Nat := 0x1
abbrev typeFwStage2Signed : Nat := 0x4

abbrev sizeofMfhHeader : Nat := 24
abbrev sizeofMfhFlashItem : Nat := 16

abbrev findAnyFitFilter : Nat := 0xFFFFFFFFFFFFFFFF
abbrev findAllSignedStage1Stage2Filter : Nat := 0x12

abbrev findAnyFwFitFilter : Nat := 0x3FB

def isFilterMatch (filter type : Nat) : Bool := filter.testBit type

/-! ## Fields -/

section Fields

variable (rd : Mem)

def quarkMfhIdentifier (mfh : Nat) : Nat := rd.rd32 mfh
def flashItemCount (mfh : Nat) : Nat := rd.rd32 (mfh + 16)
def bootPriorityListCount (mfh : Nat) : Nat := rd.rd32 (mfh + 20)

/-- `FlashItem->Type`. -/
def itemType (item : Nat) : Nat := rd.rd32 item
/-- `FlashItem->FlashAddress`. -/
def itemFlashAddress (item : Nat) : Nat := rd.rd32 (item + 4)
/-- `FlashItem->LengthBytes`. -/
def itemLengthBytes (item : Nat) : Nat := rd.rd32 (item + 8)

end Fields

structure FindContext where
  mfhHeader : Nat
  bootPriorityList : Nat
  flashItemList : Nat
  currBootPriorityListIndex : Nat
  currFlashItemIndex : Nat
  onlyBootFlashItems : Bool

/-- What `MfhLibValidateMfhBaseAddress` returns through its optional pointers. -/
structure MfhLayout where
  mfhHeader : Nat
  bootPriorityList : Nat
  flashItemList : Nat
  mfhSize : Nat

def mfhLibValidateMfhBaseAddress (rd : Mem) (mfhBaseAddress : Nat) : Option MfhLayout :=
  if quarkMfhIdentifier rd mfhBaseAddress ≠ mfhIdentifier then none
  else if mfhMaxNumBootItems < bootPriorityListCount rd mfhBaseAddress then none
  else if mfhMaxNumFlashItems < flashItemCount rd mfhBaseAddress then none
  else
    let boot := bootPriorityListCount rd mfhBaseAddress
    some {
      mfhHeader := mfhBaseAddress
      bootPriorityList := u32 (mfhBaseAddress + sizeofMfhHeader)
      flashItemList := u32 (mfhBaseAddress + sizeofMfhHeader + 4 * boot)
      mfhSize := sizeofMfhHeader + 4 * boot + sizeofMfhFlashItem * flashItemCount rd mfhBaseAddress }

def itemAt (ctx : FindContext) (index : Nat) : Nat :=
  u32 (ctx.flashItemList + sizeofMfhFlashItem * index)

/-- One pass of the `do … while (TRUE)` of `FindNext`. -/
def findNextBody {σ : Type} (asserts : Bool) (rd : Mem) (itemTypeFilter : Nat) (ctx : FindContext) :
    Exec σ (FindContext ⊕ (Option Nat × FindContext)) :=
  if ctx.onlyBootFlashItems then
    if bootPriorityListCount rd ctx.mfhHeader ≤ ctx.currBootPriorityListIndex then
      pure (.inr (none, ctx))
    else
      let index := rd.rd32 (ctx.bootPriorityList + 4 * ctx.currBootPriorityListIndex)
      let ctx := { ctx with currFlashItemIndex := index }
      let item := itemAt ctx index
      let next := { ctx with currBootPriorityListIndex := ctx.currBootPriorityListIndex + 1 }
      if flashItemCount rd ctx.mfhHeader ≤ index ∨ 63 < itemType rd item then do
        assert asserts False
        pure (.inl next)
      else if isFilterMatch itemTypeFilter (itemType rd item) then
        pure (.inr (some item, ctx))
      else
        pure (.inl next)
  else if flashItemCount rd ctx.mfhHeader ≤ ctx.currFlashItemIndex then
    pure (.inr (none, ctx))
  else
    let item := itemAt ctx ctx.currFlashItemIndex
    if itemType rd item < 64 ∧ isFilterMatch itemTypeFilter (itemType rd item) then
      pure (.inr (some item, ctx))
    else
      pure (.inl { ctx with currFlashItemIndex := ctx.currFlashItemIndex + 1 })

/-- `FindNext`. Both counts are at most `mfhMaxNumFlashItems` for a validated header, so the search
ends within the bound. -/
def findNext {σ : Type} (asserts : Bool) (rd : Mem) (itemTypeFilter : Nat)
    (incrementBeforeMatchCheck : Bool) (ctx : FindContext) : Exec σ (Option Nat × FindContext) :=
  let ctx :=
    if incrementBeforeMatchCheck then
      if ctx.onlyBootFlashItems then
        { ctx with currBootPriorityListIndex := ctx.currBootPriorityListIndex + 1 }
      else
        { ctx with currFlashItemIndex := ctx.currFlashItemIndex + 1 }
    else ctx
  .loop (mfhMaxNumFlashItems + 1) (findNextBody asserts rd itemTypeFilter) ctx

/-- The item found together with the context for the next search; `none` when the MFH is not
valid, in which case the context is left as it was. -/
def mfhLibFindFirstWithFilter {σ : Type} (asserts : Bool) (rd : Mem)
    (overrideMfhHeader : Option Nat) (itemTypeFilter : Nat) (onlyBootFlashItems : Bool) :
    Exec σ (Option (Nat × FindContext)) := do
  let useMfhHeader := overrideMfhHeader.getD pcdFlashNvMfh
  match mfhLibValidateMfhBaseAddress rd useMfhHeader with
  | none => pure none
  | some l =>
    let (item, ctx) ← findNext asserts rd itemTypeFilter false
      { mfhHeader := l.mfhHeader, bootPriorityList := l.bootPriorityList,
        flashItemList := l.flashItemList, currBootPriorityListIndex := 0, currFlashItemIndex := 0,
        onlyBootFlashItems }
    pure (item.map fun i => (i, ctx))

def mfhLibFindNextWithFilter {σ : Type} (asserts : Bool) (rd : Mem) (itemTypeFilter : Nat)
    (ctx : FindContext) : Exec σ (Option (Nat × FindContext)) := do
  let (item, ctx) ← findNext asserts rd itemTypeFilter true ctx
  pure (item.map fun i => (i, ctx))

def mfhLibFindForFlashAddress {σ : Type} (asserts : Bool) (rd : Mem)
    (overrideMfhHeader : Option Nat) (flashAddress : Nat) : Exec σ (Option Nat) := do
  let first ← mfhLibFindFirstWithFilter asserts rd overrideMfhHeader findAnyFitFilter false
  .loop (mfhMaxNumFlashItems + 1) (fun cur =>
    match cur with
    | none => pure (.inr none)
    | some (item, ctx) =>
      if itemFlashAddress rd item = flashAddress then pure (.inr (some item))
      else do
        let next ← mfhLibFindNextWithFilter asserts rd findAnyFitFilter ctx
        pure (.inl next)) first

/-- `MFH_FIT_BM`. `LShiftU64` asserts that it shifts by less than 64 bits, and the assembly behind it
looks at the six low bits of the count. -/
def mfhFitBm {σ : Type} (asserts : Bool) (type : Nat) : Exec σ Nat := do
  assert asserts (type < 64)
  pure (1 <<< (type % 64))

def mfhLibFindFirstOfType {σ : Type} (asserts : Bool) (rd : Mem) (overrideMfhHeader : Option Nat)
    (flashItemType : Nat) (onlyBootFlashItems : Bool) : Exec σ (Option (Nat × FindContext)) := do
  let filter ← mfhFitBm asserts flashItemType
  mfhLibFindFirstWithFilter asserts rd overrideMfhHeader filter onlyBootFlashItems

def mfhLibFindNextOfType {σ : Type} (asserts : Bool) (rd : Mem) (flashItemType : Nat)
    (ctx : FindContext) : Exec σ (Option (Nat × FindContext)) := do
  let filter ← mfhFitBm asserts flashItemType
  mfhLibFindNextWithFilter asserts rd filter ctx

/-- The test of `MfhLibIsAddressWithinFwFlashItem` on one item. -/
def isWithinItem (rd : Mem) (checkAddress item : Nat) : Bool :=
  let lastItemAddress := u32 (itemFlashAddress rd item + sub32 (itemLengthBytes rd item) 1)
  itemFlashAddress rd item < checkAddress ∧ checkAddress ≤ lastItemAddress

/-- One pass of the loop of `MfhLibIsAddressWithinFwFlashItem`. -/
def isAddressWithinBody {σ : Type} (asserts : Bool) (rd : Mem) (checkAddress : Nat)
    (cur : Option (Nat × FindContext)) : Exec σ (Option (Nat × FindContext) ⊕ Bool) :=
  match cur with
  | none => pure (.inr false)
  | some (item, ctx) =>
    if isWithinItem rd checkAddress item then pure (.inr true)
    else do
      let next ← mfhLibFindNextWithFilter asserts rd findAnyFwFitFilter ctx
      pure (.inl next)

def mfhLibIsAddressWithinFwFlashItem {σ : Type} (asserts : Bool) (rd : Mem) (checkAddress : Nat) :
    Exec σ Bool := do
  let first ← mfhLibFindFirstWithFilter asserts rd none findAnyFwFitFilter false
  .loop (mfhMaxNumFlashItems + 1) (isAddressWithinBody asserts rd checkAddress) first

def mfhLibFindFlashItemForBootPriorityIndex (rd : Mem) (bootPriorityIndex : Nat) : Option Nat :=
  match mfhLibValidateMfhBaseAddress rd pcdFlashNvMfh with
  | none => none
  | some l =>
    if bootPriorityIndex < bootPriorityListCount rd l.mfhHeader then
      let itemIndex := rd.rd32 (l.bootPriorityList + 4 * bootPriorityIndex)
      some (u32 (l.flashItemList + sizeofMfhFlashItem * itemIndex))
    else none

end Quark.MfhLib
