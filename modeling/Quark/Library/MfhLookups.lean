import Quark.Library.MfhLib

/-!
# What may be asked of an MFH

The callers of the library search an MFH to the end of a filter, look an item up by its address or its
type, or by its position in the boot priority list. `selectedItems` and `selectedBootItems` are what a
search is for; `LookupReads` names every word of the MFH that a lookup reads.
-/

namespace Quark.MfhLib

open Machine

/-- One pass of a caller's loop over the items of a search; the locals are the items visited and what the
last call has returned. -/
def enumerateBody {σ : Type} (asserts : Bool) (rd : Mem) (itemTypeFilter : Nat)
    (l : List Nat × Option (Nat × FindContext)) :
    Exec σ ((List Nat × Option (Nat × FindContext)) ⊕ List Nat) :=
  match l with
  | (visited, none) => pure (.inr visited)
  | (visited, some (item, ctx)) => do
    let next ← mfhLibFindNextWithFilter asserts rd itemTypeFilter ctx
    pure (.inl (visited ++ [item], next))

/-- A caller that goes through all items of a search: `MfhLibFindFirstWithFilter`, then
`MfhLibFindNextWithFilter` until it returns `NULL`. -/
def enumerate {σ : Type} (asserts : Bool) (rd : Mem) (overrideMfhHeader : Option Nat)
    (itemTypeFilter : Nat) (onlyBootFlashItems : Bool) : Exec σ (List Nat) := do
  let first ← mfhLibFindFirstWithFilter asserts rd overrideMfhHeader itemTypeFilter onlyBootFlashItems
  .loop (mfhMaxNumFlashItems + 1) (enumerateBody asserts rd itemTypeFilter) ([], first)

namespace MfhLayout

def item (l : MfhLayout) (index : Nat) : Nat := u32 (l.flashItemList + sizeofMfhFlashItem * index)

def bootIndex (rd : Mem) (l : MfhLayout) (i : Nat) : Nat := rd.rd32 (l.bootPriorityList + 4 * i)

def IsItem (rd : Mem) (l : MfhLayout) (item : Nat) : Prop :=
  ∃ index < flashItemCount rd l.mfhHeader, item = l.item index

/-- "BootItems must have Index < FlashItemCount and type <= 63". -/
def BootItemFits (rd : Mem) (l : MfhLayout) (index : Nat) : Prop :=
  index < flashItemCount rd l.mfhHeader ∧ itemType rd (l.item index) ≤ 63

instance (rd : Mem) (l : MfhLayout) (index : Nat) : Decidable (l.BootItemFits rd index) :=
  inferInstanceAs (Decidable (_ ∧ _))

def bootList (rd : Mem) (l : MfhLayout) : List Nat :=
  (List.range (bootPriorityListCount rd l.mfhHeader)).map (l.bootIndex rd)

def selectedItems (rd : Mem) (l : MfhLayout) (filter : Nat) : List Nat :=
  ((List.range (flashItemCount rd l.mfhHeader)).filter fun index =>
    itemType rd (l.item index) < 64 ∧ isFilterMatch filter (itemType rd (l.item index))).map l.item

/-- The items that a filter selects among those to boot, in the order of their priorities. -/
def selectedBootItems (rd : Mem) (l : MfhLayout) (filter : Nat) : List Nat :=
  ((l.bootList rd).filter fun index =>
    l.BootItemFits rd index ∧ isFilterMatch filter (itemType rd (l.item index))).map l.item

def Contains (l : MfhLayout) (r : Range) : Prop :=
  ∃ offset, offset + r.len ≤ l.mfhSize ∧ r.base = u32 (l.mfhHeader + offset)

def context (l : MfhLayout) (onlyBootFlashItems : Bool) : FindContext where
  mfhHeader := l.mfhHeader
  bootPriorityList := l.bootPriorityList
  flashItemList := l.flashItemList
  currBootPriorityListIndex := 0
  currFlashItemIndex := 0
  onlyBootFlashItems

end MfhLayout

/-! ## Reads -/

/-- The context with which `FindNext` comes to its loop when it is to go on after a found item. -/
def FindContext.advance (ctx : FindContext) : FindContext :=
  if ctx.onlyBootFlashItems then
    { ctx with currBootPriorityListIndex := ctx.currBootPriorityListIndex + 1 }
  else { ctx with currFlashItemIndex := ctx.currFlashItemIndex + 1 }

/-- The words that one pass of the loop of `FindNext` reads. -/
def passReads (rd : Mem) (ctx : FindContext) : List Range :=
  if ctx.onlyBootFlashItems then
    if bootPriorityListCount rd ctx.mfhHeader ≤ ctx.currBootPriorityListIndex then []
    else
      let index := rd.rd32 (ctx.bootPriorityList + 4 * ctx.currBootPriorityListIndex)
      ⟨u32 (ctx.bootPriorityList + 4 * ctx.currBootPriorityListIndex), 4⟩ ::
        if flashItemCount rd ctx.mfhHeader ≤ index then [] else [⟨itemAt ctx index, 4⟩]
  else if flashItemCount rd ctx.mfhHeader ≤ ctx.currFlashItemIndex then []
  else [⟨itemAt ctx ctx.currFlashItemIndex, 4⟩]

section

variable (asserts : Bool) (rd : Mem) (overrideMfhHeader : Option Nat)

/-- Calls of the search functions with any filters have found `item` and left the context `ctx`. -/
inductive Reached : Nat → FindContext → Prop where
  | first {filter item : Nat} {onlyBootFlashItems : Bool} {ctx : FindContext}
    (found : mfhLibFindFirstWithFilter asserts rd overrideMfhHeader filter onlyBootFlashItems () =
      .ret (some (item, ctx)) ()) : Reached item ctx
  | next {filter item item' : Nat} {ctx ctx' : FindContext} (before : Reached item ctx)
    (found : mfhLibFindNextWithFilter asserts rd filter ctx () = .ret (some (item', ctx')) ()) :
    Reached item' ctx'

/-- The loop of `FindNext` starts with the context. -/
inductive Starts (l : MfhLayout) : FindContext → Prop where
  | first (onlyBootFlashItems : Bool) : Starts l (l.context onlyBootFlashItems)
  | next {item : Nat} {ctx : FindContext} (reached : Reached asserts rd overrideMfhHeader item ctx) :
    Starts l ctx.advance

/-- A lookup in the MFH reads the range: a word of the header, words in the loop of `FindNext`, an item
that a search has found, or an entry of the boot priority list. -/
inductive LookupReads (l : MfhLayout) : Range → Prop where
  | identifier : LookupReads l ⟨u32 l.mfhHeader, 4⟩
  | flashItemCount : LookupReads l ⟨u32 (l.mfhHeader + 16), 4⟩
  | bootPriorityListCount : LookupReads l ⟨u32 (l.mfhHeader + 20), 4⟩
  | pass {filter : Nat} {ctx ctx' : FindContext} {r : Range}
    (starts : Starts asserts rd overrideMfhHeader l ctx)
    (visits : Exec.Visits (findNextBody asserts rd filter) (ctx, ()) (ctx', ()))
    (read : r ∈ passReads rd ctx') : LookupReads l r
  | item {item : Nat} {ctx : FindContext} (reached : Reached asserts rd overrideMfhHeader item ctx) :
    LookupReads l ⟨item, sizeofMfhFlashItem⟩
  | bootIndex {i : Nat} (lt : i < MfhLib.bootPriorityListCount rd l.mfhHeader) :
    LookupReads l ⟨u32 (l.bootPriorityList + 4 * i), 4⟩

/-- The lookups in an MFH read inside it, and what they find are items of it. -/
structure SearchesConfined (l : MfhLayout) : Prop where
  reads : ∀ r, LookupReads asserts rd overrideMfhHeader l r → l.Contains r
  byFilter : ∀ item ctx, Reached asserts rd overrideMfhHeader item ctx → l.IsItem rd item
  byType : ∀ type onlyBootFlashItems item ctx,
    mfhLibFindFirstOfType asserts rd overrideMfhHeader type onlyBootFlashItems () =
      .ret (some (item, ctx)) () → l.IsItem rd item
  nextByType : ∀ type item ctx item' ctx', Reached asserts rd overrideMfhHeader item ctx →
    mfhLibFindNextOfType asserts rd type ctx () = .ret (some (item', ctx')) () → l.IsItem rd item'
  byAddress : ∀ address item,
    mfhLibFindForFlashAddress asserts rd overrideMfhHeader address () = .ret (some item) () →
      l.IsItem rd item

end

/-- All lookups stay in the MFH that they look at. The one by boot priority index always looks at the MFH
of the system. -/
structure LookupsConfined (asserts : Bool) (rd : Mem) : Prop where
  searches : ∀ overrideMfhHeader l,
    mfhLibValidateMfhBaseAddress rd (overrideMfhHeader.getD pcdFlashNvMfh) = some l →
      SearchesConfined asserts rd overrideMfhHeader l
  byBootPriorityIndex : ∀ l, mfhLibValidateMfhBaseAddress rd pcdFlashNvMfh = some l →
    ∀ i item, mfhLibFindFlashItemForBootPriorityIndex rd i = some item → l.IsItem rd item

/-! ## Firmware items -/

def WithinItem (rd : Mem) (address item : Nat) : Prop :=
  itemFlashAddress rd item ≤ address ∧ address < itemFlashAddress rd item + itemLengthBytes rd item

instance (rd : Mem) (address item : Nat) : Decidable (WithinItem rd address item) :=
  inferInstanceAs (Decidable (_ ∧ _))

def InsideItem (rd : Mem) (address item : Nat) : Prop :=
  itemFlashAddress rd item < address ∧
    address < itemFlashAddress rd item + itemLengthBytes rd item ∧
    itemFlashAddress rd item + itemLengthBytes rd item ≤ 0x100000000

instance (rd : Mem) (address item : Nat) : Decidable (InsideItem rd address item) :=
  inferInstanceAs (Decidable (_ ∧ _))

def EmptyAtZero (rd : Mem) (item : Nat) : Prop :=
  itemFlashAddress rd item = 0 ∧ itemLengthBytes rd item = 0

/-- A flash with an MFH of one firmware item, and one entry in the boot priority list. -/
def sampleMfh (bootEntry : Nat) : Mem := .ofWords [
  (pcdFlashNvMfh, mfhIdentifier), (pcdFlashNvMfh + 16, 1), (pcdFlashNvMfh + 20, 1),
  (pcdFlashNvMfh + 24, bootEntry),
  (pcdFlashNvMfh + 28, typeFwStage1Signed), (pcdFlashNvMfh + 32, 0xFFD00000),
  (pcdFlashNvMfh + 36, 0x40000)]

/-- The layout of `sampleMfh`. -/
def sampleLayout : MfhLayout where
  mfhHeader := pcdFlashNvMfh
  bootPriorityList := pcdFlashNvMfh + 24
  flashItemList := pcdFlashNvMfh + 28
  mfhSize := 44

end Quark.MfhLib
