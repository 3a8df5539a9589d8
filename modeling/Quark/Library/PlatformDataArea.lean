import Quark.Library.PlatformDataLib
import Quark.Machine.Records

/-!
# Platform data areas

The body of a well-formed area is a sequence of whole items. `LookupsStay` says that lookups keep to an
area, and `CopiesItems` what a filtered copy of one is.
-/

namespace Quark.PlatformDataLib

open Machine

/-- `PDAT_ITEM_HEADER`: the length of the data is at offset 2. -/
def itemFraming : Framing where
  header := sizeofPdatItemHeader
  size bs := sizeofPdatItemHeader + ((bs.getD 2 0).toNat + 256 * (bs.getD 3 0).toNat)
  header_pos := by decide
  header_le := fun _ => Nat.le_add_right _ _
  size_append := by
    intro bs bs' h
    change 16 ≤ bs.length at h
    simp only [List.getD_eq_getElem?_getD]
    rw [List.getElem?_append_left (by omega), List.getElem?_append_left (by omega)]

abbrev PdatItem := Record itemFraming

namespace PdatItem

def identifier (c : PdatItem) : Nat := (c.bytes.getD 0 0).toNat + 256 * (c.bytes.getD 1 0).toNat

def header (c : PdatItem) : List UInt8 := c.bytes.take sizeofPdatItemHeader

def data (c : PdatItem) : List UInt8 := c.bytes.drop sizeofPdatItemHeader

def selectedBy (filter : Nat) (c : PdatItem) : Bool :=
  filter = findAnyItemFilter ∨ c.identifier < 64 ∧ isFilterMatch filter c.identifier

def keptBy (filter : Nat) (c : PdatItem) : Bool := !isFilteredOut filter c.identifier

end PdatItem

def keptItems (filter : Nat) (items : List PdatItem) : List PdatItem :=
  items.filter (PdatItem.keptBy filter)

def HasItems (rd : Mem) (area : Nat) (items : List PdatItem) : Prop :=
  Record.Fill rd (area + sizeofPdatAreaHeader + areaLength rd area) (area + sizeofPdatAreaHeader) items

def areaRange (rd : Mem) (area : Nat) : Range := ⟨area, sizeofPdatAreaHeader + areaLength rd area⟩

def itemRange (rd : Mem) (item : Nat) : Range := ⟨item, sizeofPdatItemHeader + itemLength rd item⟩

/-- A buffer for a copy of the area: as large as the area, and apart from it. -/
structure IsBuffer (rd : Mem) (area dest : Nat) : Prop where
  ne_null : dest ≠ 0
  inside : dest + sizeofPdatAreaHeader + areaLength rd area < 0x100000000
  apart : Range.Disjoint ⟨dest, sizeofPdatAreaHeader + areaLength rd area⟩ (areaRange rd area)

/-! ## Lookups -/

def areaOf (userArea : Option Nat) : Nat := userArea.getD pcdPlatformDataBaseAddress

/-- The context with which `FindNext` comes to its loop when it is to go on from an item. -/
def FindContext.advance (rd : Mem) (ctx : FindContext) : FindContext :=
  { ctx with
    currMemLocation :=
      u32 (ctx.currMemLocation + sizeofPdatItemHeader + itemLength rd ctx.currMemLocation) }

def startContext (rd : Mem) (area : Nat) : FindContext where
  currMemLocation := areaBody area
  limit := u32 (areaBody area + areaLength rd area)

/-- What one pass of the loop of `FindNext` reads. -/
def findPassReads (rd : Mem) (filter : Nat) (ctx : FindContext) : List Range :=
  let item := ctx.currMemLocation
  if ctx.limit ≤ item ∨ filter = findAnyItemFilter then []
  else if itemIdentifier rd item < 64 ∧ isFilterMatch filter (itemIdentifier rd item) then [⟨item, 2⟩]
  else [⟨item, 2⟩, ⟨item + 2, 2⟩]

/-- What one pass of the loop of `PDatLibFindItem` reads. -/
def findItemPassReads (rd : Mem) (itemId limit item : Nat) : List Range :=
  if limit ≤ item then []
  else if itemIdentifier rd item = itemId then [⟨item, 2⟩]
  else [⟨item, 2⟩, ⟨item + 2, 2⟩]

/-- What one pass of the loop of `PDatLibCopyAreaWithFilterOut` reads of the area. -/
def copyPassReads (rd : Mem) (filter : Nat) (l : CopyLocals) : List Range :=
  ⟨l.item, 2⟩ :: ⟨l.item + 2, 2⟩ :: ⟨l.ctx.currMemLocation + 2, 2⟩ ::
    if isFilteredOut filter (itemIdentifier rd l.item) then [] else [itemRange rd l.item]

/-- The locals with which `PDatLibCopyAreaWithFilterOut` comes to its loop. -/
def copyStart (rd : Mem) (area dest : Nat) : CopyLocals where
  item := areaBody area
  ctx := startContext rd area
  currMemLocation := u32 (dest + sizeofPdatAreaHeader)
  filteredCount := 0

section

variable (rd : Mem) (userArea : Option Nat) (pastEnd : Bool)

/-- Calls of the enumerators with any filters have returned `item` and left the context `ctx`. With
`pastEnd` the caller also goes on after a `NULL`. -/
inductive Enumerated : Option Nat → FindContext → Prop where
  | first {fuel filter calcCrc : Nat} {ctx₀ ctx : FindContext} {item : Option Nat}
    (found : pDatLibFindFirstWithFilter fuel rd userArea filter calcCrc ctx₀ () =
      .ret (item, ctx) ()) : Enumerated item ctx
  | next {fuel filter : Nat} {ctx ctx' : FindContext} {item item' : Option Nat}
    (before : Enumerated item ctx) (goesOn : item = none → pastEnd = true)
    (found : pDatLibFindNextWithFilter fuel rd filter ctx () = .ret (item', ctx') ()) :
    Enumerated item' ctx'

/-- The loop of `FindNext` starts with the context. -/
inductive Starts : FindContext → Prop where
  | first : Starts (startContext rd (areaOf userArea))
  | next {ctx : FindContext} {item : Option Nat} (before : Enumerated rd userArea pastEnd item ctx)
    (goesOn : item = none → pastEnd = true) : Starts (ctx.advance rd)

/-- A lookup reads the range. -/
inductive LookupReads : Range → Prop where
  | header : LookupReads ⟨areaOf userArea, sizeofPdatAreaHeader⟩
  | body : LookupReads ⟨areaOf userArea + sizeofPdatAreaHeader, areaLength rd (areaOf userArea)⟩
  | advance {ctx : FindContext} {item : Option Nat} (before : Enumerated rd userArea pastEnd item ctx)
    (goesOn : item = none → pastEnd = true) : LookupReads ⟨ctx.currMemLocation + 2, 2⟩
  | pass {filter : Nat} {ctx ctx' : FindContext} {r : Range}
    (starts : Starts rd userArea pastEnd ctx)
    (visits : Exec.Visits (findNextBody rd filter) (ctx, ()) (ctx', ()))
    (read : r ∈ findPassReads rd filter ctx') : LookupReads r
  | itemData {ctx : FindContext} {item : Nat} (found : Enumerated rd userArea pastEnd (some item) ctx) :
    LookupReads (itemRange rd item)
  | findItemPass {itemId item : Nat} {r : Range}
    (visits : Exec.Visits (findItemBody rd itemId
        (u32 (areaOf userArea + sizeofPdatAreaHeader + areaLength rd (areaOf userArea))))
      (u32 (areaOf userArea + sizeofPdatAreaHeader), ()) (item, ()))
    (read : r ∈ findItemPassReads rd itemId
      (u32 (areaOf userArea + sizeofPdatAreaHeader + areaLength rd (areaOf userArea))) item) :
    LookupReads r
  | findItemData {fuel itemId calcCrc item : Nat} {asserts doCrcCheck : Bool}
    (found : pDatLibFindItem fuel asserts rd userArea itemId doCrcCheck calcCrc () =
      .ret (some item) ()) : LookupReads (itemRange rd item)

end

def CopyVisits (rd : Mem) (area dest filter fuel : Nat) (l : CopyLocals) (t : Mem) : Prop :=
  Exec.Visits (copyAreaBody fuel dest filter)
    (copyStart rd area dest, rd.copy rd dest area sizeofPdatAreaHeader) (l, t)

/-- A filtered copy keeps to the area: it ends, reads nothing else but its own copy, and the length of the
copy does not go below zero. -/
structure CopyStays (rd : Mem) (area dest filter : Nat) : Prop where
  ends : ∀ fuel calcCrc, areaLength rd area < fuel → ∃ status t,
    pDatLibCopyAreaWithFilterOut fuel dest area filter calcCrc rd = .ret status t
  reads : ∀ fuel l t, areaLength rd area < fuel → CopyVisits rd area dest filter fuel l t →
    ∀ r ∈ copyPassReads t filter l, r.Inside (areaRange rd area)
  subtracts : ∀ fuel l t, areaLength rd area < fuel → CopyVisits rd area dest filter fuel l t →
    isFilteredOut filter (itemIdentifier t l.item) = true →
    sizeofPdatItemHeader + itemLength t l.item ≤ areaLength t dest

/-- The lookups read nothing but the area, return items that are wholly inside, and end. -/
structure LookupsStay (rd : Mem) (userArea : Option Nat) (pastEnd : Bool) : Prop where
  reads : ∀ r, LookupReads rd userArea pastEnd r → r.Inside (areaRange rd (areaOf userArea))
  enumerated : ∀ item ctx, Enumerated rd userArea pastEnd (some item) ctx →
    (itemRange rd item).Inside (areaRange rd (areaOf userArea))
  found : ∀ fuel asserts itemId doCrcCheck calcCrc item,
    pDatLibFindItem fuel asserts rd userArea itemId doCrcCheck calcCrc () = .ret (some item) () →
    (itemRange rd item).Inside (areaRange rd (areaOf userArea))
  first_ends : ∀ fuel filter calcCrc ctx₀, areaLength rd (areaOf userArea) < fuel →
    ∃ r, pDatLibFindFirstWithFilter fuel rd userArea filter calcCrc ctx₀ () = .ret r ()
  next_ends : ∀ fuel filter item ctx, areaLength rd (areaOf userArea) < fuel →
    Enumerated rd userArea pastEnd item ctx → (item = none → pastEnd = true) →
    ∃ r, pDatLibFindNextWithFilter fuel rd filter ctx () = .ret r ()
  findItem_ends : ∀ fuel asserts itemId doCrcCheck calcCrc, areaLength rd (areaOf userArea) < fuel →
    ∃ item, pDatLibFindItem fuel asserts rd userArea itemId doCrcCheck calcCrc () = .ret item ()
  copies : ∀ dest filter, IsBuffer rd (areaOf userArea) dest →
    CopyStays rd (areaOf userArea) dest filter

/-! ## Copies -/

/-- The buffer holds a valid area with the items of the list that are not filtered out. -/
structure IsFilteredCopy (m : Mem) (dest filter : Nat) (items : List PdatItem) : Prop where
  length : areaLength m dest = (Record.flat (keptItems filter items)).length
  hasItems : HasItems m dest (keptItems filter items)
  valid : ∀ calcCrc, pDatLibValidateArea m dest true calcCrc = .success

/-- `PDatLibCopyAreaWithFilterOut` makes a filtered copy, and another one of that copy is the same. -/
def CopiesItems (m : Mem) (area dest filter calcCrc fuel : Nat) (items : List PdatItem) : Prop :=
  ∃ t, pDatLibCopyAreaWithFilterOut fuel dest area filter calcCrc m = .ret .success t ∧
    IsFilteredCopy t dest filter items ∧
    ∀ again, IsBuffer t dest again → ∃ u,
      pDatLibCopyAreaWithFilterOut fuel again dest filter calcCrc t = .ret .success u ∧
      u.bytes again (sizeofPdatAreaHeader + areaLength t dest) =
        t.bytes dest (sizeofPdatAreaHeader + areaLength t dest)

/-! ## A sample -/

/-- An area at `0x1000` with an item for each MAC. -/
def sampleArea : Mem := Mem.ofWords
  [(0x1000, pdatIdentifier), (0x1004, 48), (0x1008, 0xC2C070EE),
    (0x100C, 0x00080003), (0x101C, 0x33221100), (0x1020, 0x00005544),
    (0x1024, 0x00080004), (0x1034, 0x99887766), (0x1038, 0x0000BBAA)]

def sampleMac0 : PdatItem where
  bytes := [3, 0, 8, 0, 0, 0, 0, 0, 0, 0, 0, 0, 0, 0, 0, 0, 0x00, 0x11, 0x22, 0x33, 0x44, 0x55, 0, 0]
  framed := by decide

def sampleMac1 : PdatItem where
  bytes := [4, 0, 8, 0, 0, 0, 0, 0, 0, 0, 0, 0, 0, 0, 0, 0, 0x66, 0x77, 0x88, 0x99, 0xAA, 0xBB, 0, 0]
  framed := by decide

theorem hasItems_sampleArea : HasItems sampleArea 0x1000 [sampleMac0, sampleMac1] :=
  ⟨by decide, by decide⟩

theorem valid_sampleArea : pDatLibValidateArea sampleArea 0x1000 true 0 = .success := by
  decide +kernel

end Quark.PlatformDataLib
