import Quark.Base.Efi
import Quark.Machine.Layout

/-!
# Firmware volumes

The private data of a firmware volume, its block map and its attributes: `FvbGetLbaAddress` and
`FvbSetVolumeAttributes` of `FwBlockService.c`. The instance has been found, and it is used at its
physical addresses.
-/

namespace Quark.Fvb

open Machine

/-! ## The volume -/

structure BlockMapEntry where
  numBlocks : BitVec 32
  length : BitVec 32
  deriving DecidableEq, Repr

/-- `EFI_FW_VOL_INSTANCE` with what is used of its volume header. -/
structure Volume where
  fvBase : BitVec 32
  fvWriteBase : BitVec 32
  /-- The number of blocks that `FvbInitialize` has counted. -/
  numOfBlocks : BitVec 32
  writeEnabled : Bool
  attributes : BitVec 32
  /-- The block map up to its terminator. -/
  blockMap : List BlockMapEntry
  deriving DecidableEq, Repr

abbrev BlockMapEntry.Ends (e : BlockMapEntry) : Prop := e.numBlocks = 0 ∨ e.length = 0

/-- What `FvbGetLbaAddress` returns of a block. -/
structure LbaInfo where
  lbaAddress : BitVec 32
  lbaWriteAddress : BitVec 32
  lbaLength : BitVec 32
  numOfBlocks : BitVec 32
  deriving DecidableEq, Repr

/-- The loop of `FvbGetLbaAddress`. -/
def findLba (v : Volume) (lba : BitVec 64) :
    List BlockMapEntry → BitVec 64 → BitVec 32 → Except EfiStatus LbaInfo
  | [], _, _ => .error .invalidParameter
  | e :: blockMap, startLba, offset =>
    if e.Ends then .error .invalidParameter
    else
      let nextLba := startLba + e.numBlocks.setWidth 64
      if startLba ≤ lba ∧ lba < nextLba then
        let offset := offset + ((lba - startLba) * e.length.setWidth 64).setWidth 32
        .ok
          { lbaAddress := v.fvBase + offset
            lbaWriteAddress := v.fvWriteBase + offset
            lbaLength := e.length
            numOfBlocks := (nextLba - lba).setWidth 32 }
      else findLba v lba blockMap nextLba (offset + e.numBlocks * e.length)

def fvbGetLbaAddress (v : Volume) (lba : BitVec 64) : Except EfiStatus LbaInfo :=
  findLba v lba v.blockMap 0 0

/-! ## Attributes -/

namespace Attr

abbrev readDisabledCap : BitVec 32 := 0x1
abbrev readEnabledCap : BitVec 32 := 0x2
abbrev readStatus : BitVec 32 := 0x4
abbrev writeDisabledCap : BitVec 32 := 0x8
abbrev writeEnabledCap : BitVec 32 := 0x10
abbrev writeStatus : BitVec 32 := 0x20
abbrev lockCap : BitVec 32 := 0x40
abbrev lockStatus : BitVec 32 := 0x80

abbrev capabilities : BitVec 32 :=
  readDisabledCap ||| readEnabledCap ||| writeDisabledCap ||| writeEnabledCap ||| lockCap

abbrev status : BitVec 32 := readStatus ||| writeStatus ||| lockStatus

end Attr

/-- `FvbSetVolumeAttributes` on the attributes of the header: its status, the header's attributes and the
caller's. -/
def fvbSetVolumeAttributes (oldAttributes attributes : BitVec 32) :
    EfiStatus × BitVec 32 × BitVec 32 :=
  let caps := oldAttributes &&& Attr.capabilities
  let oldStatus := oldAttributes &&& Attr.status
  let newStatus := attributes &&& Attr.status
  if oldAttributes &&& Attr.lockStatus ≠ 0 ∧ oldStatus ^^^ newStatus ≠ 0 then
    (.accessDenied, oldAttributes, attributes)
  else if caps &&& Attr.readDisabledCap = 0 ∧ newStatus &&& Attr.readStatus = 0 then
    (.invalidParameter, oldAttributes, attributes)
  else if caps &&& Attr.readEnabledCap = 0 ∧ newStatus &&& Attr.readStatus ≠ 0 then
    (.invalidParameter, oldAttributes, attributes)
  else if caps &&& Attr.writeDisabledCap = 0 ∧ newStatus &&& Attr.writeStatus = 0 then
    (.invalidParameter, oldAttributes, attributes)
  else if caps &&& Attr.writeEnabledCap = 0 ∧ newStatus &&& Attr.writeStatus ≠ 0 then
    (.invalidParameter, oldAttributes, attributes)
  else if caps &&& Attr.lockCap = 0 ∧ newStatus &&& Attr.lockStatus ≠ 0 then
    (.invalidParameter, oldAttributes, attributes)
  else
    let attrib := (oldAttributes &&& (0xFFFFFFFF &&& ~~~Attr.status)) ||| newStatus
    (.success, attrib, attrib)

end Quark.Fvb
