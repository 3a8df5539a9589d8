import Quark.Library.PlatformDataArea
import Quark.SmiFlash.Intake

/-!
# MAC addresses in the platform data of a capsule

When the MACs are not to be updated, those in flash are to replace those of the capsule.
`CheckPlatformDataPolicy` pairs the MACs of both areas by their places: the first one with the first one,
and the second one with the second one.
-/

namespace Quark.SmiFlash

open Machine PlatformDataLib

/-- An item that `PDAT_FIND_NETWORK_ITEMS` finds. -/
def isNetworkItem (c : PdatItem) : Bool := c.selectedBy findNetworkItems

def networkItems (items : List PdatItem) : List PdatItem := items.filter isNetworkItem

/-- The area has an item with the id of `c`. -/
def HasIdOf (items : List PdatItem) (c : PdatItem) : Prop := ∃ f ∈ items, f.identifier = c.identifier

/-- `c'` is what is to become of the item `c` of the capsule: a MAC carries the value of the flash if there
is one, and everything else is as it was. -/
structure Carries (flashItems : List PdatItem) (c c' : PdatItem) : Prop where
  identifier : c'.identifier = c.identifier
  mac : isNetworkItem c = true → HasIdOf flashItems c →
    ∃ f ∈ flashItems, f.identifier = c.identifier ∧ c'.data = f.data
  other : ¬ (isNetworkItem c = true ∧ HasIdOf flashItems c) → c' = c

/-- Well-formed platform data in flash and in a capsule, in a state in which MACs are not to be updated. -/
structure PolicyInput (P : Platform) (s : SmmState) (capsulePlatformData capsuleHeader : Nat)
    (capsuleItems flashItems : List PdatItem) : Prop where
  forbidden : (s.rd P).rd32 (flagsAt capsuleHeader) &&& pdUpdateMac = 0
  in_flash : P.spiFlashBaseAddress ≤ pcdPlatformDataBaseAddress
  flash_valid : pDatLibValidateArea (s.rd P) pcdPlatformDataBaseAddress true P.uninitCalcCrc = .success
  flash_items : HasItems (s.rd P) pcdPlatformDataBaseAddress flashItems
  capsule_valid : pDatLibValidateArea (s.rd P) capsulePlatformData false P.uninitCalcCrc = .success
  capsule_items : HasItems (s.rd P) capsulePlatformData capsuleItems
  below_flash : capsulePlatformData + sizeofPdatAreaHeader + areaLength (s.rd P) capsulePlatformData ≤
    P.spiFlashBaseAddress
  capsule_fuel : capsuleItems.length < P.fuel
  flash_fuel : flashItems.length < P.fuel

/-- `CheckPlatformDataPolicy` returns with the MACs of the flash in a valid capsule area that is otherwise
as it was. -/
def MacPreserved (P : Platform) (s : SmmState) (capsulePlatformData capsuleHeader : Nat)
    (capsuleItems flashItems : List PdatItem) : Prop :=
  ∃ t, checkPlatformDataPolicy P capsulePlatformData capsuleHeader s = .ret () t ∧
    (∀ calcCrc, pDatLibValidateArea (t.rd P) capsulePlatformData true calcCrc = .success) ∧
    ∃ items, HasItems (t.rd P) capsulePlatformData items ∧
      List.Forall₂ (Carries flashItems) capsuleItems items

/-! ## Pairs of MACs -/

def partners (flashItems : List PdatItem) : List PdatItem := (networkItems flashItems).take 2

/-- No MAC of the flash is longer than the one of the capsule that it is copied over. -/
def NoOverrun (capsuleItems flashItems : List PdatItem) : Prop :=
  ∀ p ∈ (partners flashItems).zip (networkItems capsuleItems), p.1.data.length ≤ p.2.data.length

/-- With its front replaced by the data of `f`, the MAC `c` has the data of an item of the flash with its
id, or its own data if there is no such item. -/
def PairFits (flashItems : List PdatItem) (f c : PdatItem) : Prop :=
  (HasIdOf flashItems c → ∃ g ∈ flashItems, g.identifier = c.identifier ∧
    f.data ++ c.data.drop f.data.length = g.data) ∧
  (¬ HasIdOf flashItems c → f.data ++ c.data.drop f.data.length = c.data)

/-- A MAC that nothing is copied over already has the data of an item of the flash with its id, if there is
one. -/
def Settled (flashItems : List PdatItem) (c : PdatItem) : Prop :=
  HasIdOf flashItems c → ∃ g ∈ flashItems, g.identifier = c.identifier ∧ c.data = g.data

def PairsFit (flashItems : List PdatItem) : List PdatItem → List PdatItem → Prop
  | f :: fs, c :: cs => PairFits flashItems f c ∧ PairsFit flashItems fs cs
  | [], cs => ∀ c ∈ cs, Settled flashItems c
  | _ :: _, [] => True

/-! ## Samples -/

def macFlash (id id' crc : Nat) : Mem := Mem.ofWords
  [(0xFFF10000, pdatIdentifier), (0xFFF10004, 48), (0xFFF10008, crc),
    (0xFFF1000C, 0x00080000 + id), (0xFFF1001C, 0x13121110), (0xFFF10020, 0x00001514),
    (0xFFF10024, 0x00080000 + id'), (0xFFF10034, 0x23222120), (0xFFF10038, 0x00002524)]

def macItem (id : UInt8) (data : List UInt8) (h : data.length = 8) : PdatItem where
  bytes := [id, 0, 8, 0, 0, 0, 0, 0, 0, 0, 0, 0, 0, 0, 0, 0] ++ data
  framed := by
    rw [List.length_append, h]
    rfl

def flashMacs (id id' : UInt8) : List PdatItem :=
  [macItem id [0x10, 0x11, 0x12, 0x13, 0x14, 0x15, 0, 0] rfl,
    macItem id' [0x20, 0x21, 0x22, 0x23, 0x24, 0x25, 0, 0] rfl]

/-- A capsule with the MACs of `sampleArea`. -/
def capsuleState (flash : Mem) : SmmState := loadedState sampleArea flash

end Quark.SmiFlash
