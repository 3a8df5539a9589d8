import Quark.Bds.VariableStore

/-!
# Load options and their variables

`BdsLoadOption.c`: a load option is written to a `Boot####` or `Driver####` variable and built again
from it. The variable is read into a buffer of the pool, and the code that takes it apart may look
past its end: `behind` is what follows the buffer in memory.
-/

namespace Quark.Bds

open Machine

inductive LoadOptionType where
  | boot
  | driver
  deriving DecidableEq, Repr

def loadOptionNumberMax : Nat := 0x10000

def loadOptionNumberUnassigned : Nat := loadOptionNumberMax

/-- `EFI_BOOT_MANAGER_LOAD_OPTION`. The device path and the optional data are what the pointers point
at, `GetDevicePathSize` and `OptionalDataSize` bytes; a `NULL` pointer to optional data points at
none. -/
structure LoadOption where
  optionNumber : Nat
  optionType : LoadOptionType
  attributes : BitVec 32
  description : Option (List Char16)
  filePath : Option (List Byte)
  optionalData : List Byte
  bootNext : Bool
  deriving DecidableEq

/-! ## Strings and device paths -/

def stringBytes (s : List Char16) : List Byte :=
  s.flatMap (fun c => leBytes 2 c.toNat) ++ leBytes 2 0

def strSize (s : List Char16) : Nat := 2 * (s.length + 1)

def readString : List Byte → Option (List Char16)
  | lo :: hi :: rest =>
    let c := BitVec.ofNat 16 (leValue [lo, hi])
    if c = 0 then some [] else (readString rest).map (c :: ·)
  | _ => none

/-- `StrSizeEx`, from the character after `length` bytes on. -/
def strSizeExFrom (maxStringLen : Nat) : List Byte → Nat → Option Nat
  | lo :: hi :: rest, length =>
    let c := leValue [lo, hi]
    if c ≠ 0 ∧ maxStringLen ≠ length then
      strSizeExFrom maxStringLen rest (length + 2)
    else if c ≠ 0 ∧ maxStringLen = length then
      some 0
    else
      some (length + 2)
  | _, _ => none

def strSizeEx (string : List Byte) (maxStringLen : Nat) : Option Nat :=
  strSizeExFrom maxStringLen string 0

def isDevicePathEnd (devicePath : List Byte) : Option Bool :=
  match devicePath with
  | type :: subType :: _ => some (type = 0x7F#8 ∧ subType = 0xFF#8)
  | _ => none

def devicePathNodeLength (devicePath : List Byte) : Option Nat := word? 2 devicePath 2

/-- `GetDevicePathSize`: the bytes up to the end node and with it. At most `n` nodes are followed. -/
def devicePathSizeFrom : Nat → List Byte → Nat → Option Nat
  | 0, _, _ => none
  | n + 1, devicePath, size => do
    let nodeSize ← devicePathNodeLength devicePath
    if ← isDevicePathEnd devicePath then
      some (size + nodeSize)
    else
      devicePathSizeFrom n (devicePath.drop nodeSize) (size + nodeSize)

def getDevicePathSize (devicePath : List Byte) : Option Nat :=
  devicePathSizeFrom devicePath.length devicePath 0

/-- `GetDevicePathSizeEx`. Every node that is passed makes `Size` larger, so that `maxSize` bounds
their number. -/
def devicePathSizeExFrom (maxSize : Nat) : Nat → List Byte → Nat → Option Nat
  | 0, _, _ => none
  | n + 1, devicePath, size => do
    if ← isDevicePathEnd devicePath then
      let nodeSize ← devicePathNodeLength devicePath
      if size + nodeSize > maxSize then some 0 else some (size + nodeSize)
    else
      let nodeSize ← devicePathNodeLength devicePath
      if nodeSize = 0 then
        some 0
      else if size + nodeSize > maxSize then
        some 0
      else
        devicePathSizeExFrom maxSize n (devicePath.drop nodeSize) (size + nodeSize)

def getDevicePathSizeEx (devicePath : List Byte) (maxSize : Nat) : Option Nat :=
  devicePathSizeExFrom maxSize (maxSize + 1) devicePath 0

/-! ## The name of the variable -/

/-- The room that `OptionName` has for characters, `sizeof ("Driver####") - 1`. -/
def optionNameRoom : Nat := 10

def loadOptionName (type : LoadOptionType) (optionNumber : Nat) : List Char16 :=
  match type with
  | .boot => unicodeSPrint optionNameRoom ['B', 'o', 'o', 't'] optionNumber
  | .driver => unicodeSPrint optionNameRoom ['D', 'r', 'i', 'v', 'e', 'r'] optionNumber

def charToUint (enabled : Bool) (char : Char16) : Exec VariableStore Nat :=
  if 0x30 ≤ char.toNat ∧ char.toNat ≤ 0x39 then
    pure (char.toNat - 0x30)
  else if 0x41 ≤ char.toNat ∧ char.toNat ≤ 0x46 then
    pure (char.toNat - 0x41 + 0xA)
  else do
    assert enabled False
    pure 0

def charAt (name : List Char16) (i : Nat) : Option Char16 := (name ++ [0])[i]?

/-- The `UINT16` sum of four digits. -/
def optionNumberOfName (enabled : Bool) (name : List Char16) (numOff : Nat) :
    Exec VariableStore Nat := do
  let d₀ ← charToUint enabled (← inBounds (charAt name numOff))
  let d₁ ← charToUint enabled (← inBounds (charAt name (numOff + 1)))
  let d₂ ← charToUint enabled (← inBounds (charAt name (numOff + 2)))
  let d₃ ← charToUint enabled (← inBounds (charAt name (numOff + 3)))
  pure ((d₀ * 0x1000 + d₁ * 0x100 + d₂ * 0x10 + d₃ * 0x1) % 0x10000)

/-! ## Writing -/

/-- The data of the variable, as it is put together at `Ptr`. -/
def optionVariable (option : LoadOption) (filePath : List Byte) : List Byte :=
  leBytes 4 option.attributes.toNat ++ (leBytes 2 (filePath.length % 0x10000) ++
    (stringBytes (option.description.getD []) ++ (filePath ++ option.optionalData)))

/-- `VariableSize`. -/
def optionVariableSize (option : LoadOption) (filePath : List Byte) : Nat :=
  (4 + 2 + strSize (option.description.getD []) + filePath.length + option.optionalData.length) %
    0x100000000

/-- `EfiBootManagerLoadOptionToVariable`. A buffer of `VariableSize` bytes is allocated, and the fields
are written one after the other. -/
def efiBootManagerLoadOptionToVariable (option : LoadOption) : Exec VariableStore EfiStatus :=
  match option.filePath with
  | none => pure .invalidParameter
  | some filePath =>
    if option.optionNumber = loadOptionNumberUnassigned then
      pure .invalidParameter
    else do
      let data := optionVariable option filePath
      if data.length > optionVariableSize option filePath then
        .halt .outOfBounds
      else
        setVariable (global (loadOptionName option.optionType option.optionNumber)) data

/-! ## Reading -/

/-- `ValidateOption`, of a buffer of `variableSize` bytes at the start of `memory`. -/
def validateOption (memory : List Byte) (variableSize : Nat) : Option Bool :=
  if variableSize ≤ 2 + 4 then
    some false
  else do
    let filePathSize ← word? 2 memory 4
    let tempSize ← strSizeEx (memory.drop (4 + 2)) (variableSize - 2 - 4)
    if filePathSize = 0 ∨ tempSize = 0 then
      some false
    else if tempSize + filePathSize + 2 + 4 > variableSize then
      some false
    else do
      let size ← getDevicePathSizeEx (memory.drop (4 + 2 + tempSize)) filePathSize
      some (size ≠ 0)

def parseOption (memory : List Byte) (variableSize optionNumber : Nat) (type : LoadOptionType) :
    Option LoadOption := do
  let attributes ← word? 4 memory 0
  let filePathSize ← word? 2 memory 4
  let description ← readString (memory.drop (4 + 2))
  let filePath := memory.drop (4 + 2 + strSize description)
  let size ← getDevicePathSize filePath
  let optionalData := memory.drop (4 + 2 + strSize description + filePathSize)
  some {
    optionNumber
    optionType := type
    attributes := BitVec.ofNat 32 attributes
    description := some description
    filePath := some (filePath.take size)
    optionalData := optionalData.take (variableSize - (4 + 2 + strSize description + filePathSize))
    bootNext := false }

def typeOfName (name : List Char16) : LoadOptionType :=
  if charAt name 0 = some 0x42#16 then .boot else .driver

/-- `NumOff`, the length of `L"Boot"` or `L"Driver"`. -/
def numOff : LoadOptionType → Nat
  | .boot => 4
  | .driver => 6

def efiBootManagerVariableToLoadOption (enabled : Bool) (behind : VariableId → List Byte)
    (name : List Char16) : Exec VariableStore (Except EfiStatus LoadOption) := do
  let data ← efiBootManagerGetVariableAndSize name
  if data = [] then
    pure (.error .notFound)
  else do
    let memory := data ++ behind (global name)
    if ← inBounds (validateOption memory data.length) then do
      let type := typeOfName name
      let optionNumber ← optionNumberOfName enabled name (numOff type)
      let option ← inBounds (parseOption memory data.length optionNumber type)
      pure (.ok option)
    else
      pure (.error .invalidParameter)

/-! ## What the variable is for -/

structure DevicePathNode where
  type : Byte
  subType : Byte
  content : List Byte
  not_end : ¬ (type = 0x7F#8 ∧ subType = 0xFF#8)
  length_lt : 4 + content.length < 0x10000

def DevicePathNode.bytes (node : DevicePathNode) : List Byte :=
  node.type :: node.subType :: (leBytes 2 (4 + node.content.length) ++ node.content)

def devicePathBytes (nodes : List DevicePathNode) : List Byte :=
  nodes.flatMap DevicePathNode.bytes ++ [0x7F#8, 0xFF#8, 4#8, 0#8]

/-- A load option that can be written: a number that a name can hold, a string as its description, and
the device path `nodes`. -/
structure LoadOption.WellFormed (option : LoadOption) (nodes : List DevicePathNode) : Prop where
  number_lt : option.optionNumber < 0x10000
  description : ∀ s, option.description = some s → 0#16 ∉ s
  filePath : option.filePath = some (devicePathBytes nodes)

/-- The same option up to `BootNext`, which is no part of the variable. A missing description is an
empty one. -/
def LoadOption.Same (option option' : LoadOption) : Prop :=
  option'.optionNumber = option.optionNumber ∧ option'.optionType = option.optionType ∧
    option'.attributes = option.attributes ∧
    option'.description = some (option.description.getD []) ∧
    option'.filePath = option.filePath ∧ option'.optionalData = option.optionalData

def RoundTrips (enabled : Bool) (behind : VariableId → List Byte) (option : LoadOption)
    (store : VariableStore) : Prop :=
  ∃ store', efiBootManagerLoadOptionToVariable option store = .ret .success store' ∧
    ∃ option', efiBootManagerVariableToLoadOption enabled behind
        (loadOptionName option.optionType option.optionNumber) store' = .ret (.ok option') store' ∧
      option.Same option'

/-! ## What a valid variable is -/

/-- The data are those of a load option: attributes, the length of the path, a description with its zero, a
device path whose end node is within the length, and optional data. -/
def IsLoadOption (data : List Byte) : Prop :=
  ∃ attributes description nodes unused optionalData, attributes.length = 4 ∧ 0#16 ∉ description ∧
    (devicePathBytes nodes ++ unused).length < 0x10000 ∧
    data = attributes ++ (leBytes 2 (devicePathBytes nodes ++ unused).length ++
      (stringBytes description ++ (devicePathBytes nodes ++ unused ++ optionalData)))

/-- The test of the data is safe and exact: it reads inside the data, accepts the load options, and whatever
it accepts is then taken apart inside the data. -/
structure ValidationExact (data : List Byte) : Prop where
  inside : validateOption data data.length ≠ none
  exact : validateOption data data.length = some true ↔ IsLoadOption data
  later : ∀ optionNumber type, validateOption data data.length = some true →
    parseOption data data.length optionNumber type ≠ none

/-- A walk over the nodes, with the room that is left to the path, comes to a node of length 0 or to one that
does not fit, and the headers up to it are there. -/
inductive PathRefused : List Byte → Nat → Prop where
  | empty {path : List Byte} {room : Nat} (hend : isDevicePathEnd path = some false)
      (hsize : devicePathNodeLength path = some 0) : PathRefused path room
  | long {path : List Byte} {room nodeSize : Nat} (hsize : devicePathNodeLength path = some nodeSize)
      (hroom : room < nodeSize) : PathRefused path room
  | next {path : List Byte} {room nodeSize : Nat} (hend : isDevicePathEnd path = some false)
      (hsize : devicePathNodeLength path = some nodeSize) (hpos : nodeSize ≠ 0) (hroom : nodeSize ≤ room)
      (hrest : PathRefused (path.drop nodeSize) (room - nodeSize)) : PathRefused path room

def pathRoom (data : List Byte) : Nat := leValue ((data.drop 4).take 2)

/-- The data are too short, or have a description with its zero, and behind it no room for the path or a path
that is refused in time; an end node of length 0 is refused where it is the first one. -/
def OptionRefused (data : List Byte) : Prop :=
  data.length ≤ 2 + 4 ∨ ∃ description path, 0#16 ∉ description ∧
    data.drop (4 + 2) = stringBytes description ++ path ∧
    (pathRoom data = 0 ∨ path.length < pathRoom data ∨ PathRefused path (pathRoom data) ∨
      (isDevicePathEnd path = some true ∧ devicePathNodeLength path = some 0))

end Quark.Bds
