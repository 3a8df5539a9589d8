import Quark.Bds.LoadOption

/-!
# Key options

`BdsHotkey.c`: a hot key is a `Key####` variable that refers to a boot option by number and by the
CRC-32 of its variable. The key options are found by looking through the names of all variables.
-/

namespace Quark.Bds

open Machine

/-- What the key option functions are built with and run among: whether asserts are enabled,
`gBS->CalculateCrc32`, and the bytes in memory behind the buffer that a variable is read into. -/
structure HotkeyEnv where
  enabled : Bool
  calculateCrc32 : List Byte → BitVec 32
  behind : VariableId → Nat → Byte

/-- `EFI_BOOT_MANAGER_KEY_OPTION`. `keys` are the bytes of as many keys as `KeyData` counts. -/
structure KeyOption where
  keyData : Nat
  bootOptionCrc : Nat
  bootOption : Nat
  keys : List Byte
  optionNumber : Nat
  deriving DecidableEq, Repr

def inputKeyCount (keyData : Nat) : Nat := keyData / 2 ^ 30 % 4

/-- `InitializeKeyFields`: `KeyData.PackedValue`, with the modifier flags in bits 8 to 13 and the count
in the two highest bits, and the bytes of the keys. Three keys are too many. -/
def initializeKeyFields (modifier : BitVec 32) (args : List (BitVec 32)) :
    Except EfiStatus (Nat × List Byte) :=
  if args.length ≥ 3 then
    .error .invalidParameter
  else if modifier &&& ~~~0x3F#32 ≠ 0 then
    .error .invalidParameter
  else
    .ok (args.length * 2 ^ 30 + modifier.toNat * 2 ^ 8, args.flatMap fun key => leBytes 4 key.toNat)

/-- The data of a key option variable, `SizeOfKeyOption` bytes. -/
def KeyOption.bytes (option : KeyOption) : List Byte :=
  leBytes 4 option.keyData ++ (leBytes 4 option.bootOptionCrc ++
    (leBytes 2 option.bootOption ++ option.keys))

/-- The `n` bytes of memory at offset `off` of a buffer. -/
def bytesAt (data : List Byte) (behind : Nat → Byte) (off n : Nat) : List Byte :=
  (List.range n).map fun i => (data[off + i]?).getD (behind (off + i - data.length))

def keyOptionAt (data : List Byte) (behind : Nat → Byte) (optionNumber : Nat) : KeyOption :=
  let keyData := leValue (bytesAt data behind 0 4)
  { keyData
    bootOptionCrc := leValue (bytesAt data behind 4 4)
    bootOption := leValue (bytesAt data behind 8 2)
    keys := bytesAt data behind 10 (4 * inputKeyCount keyData)
    optionNumber }

def isKeyOptionValid (env : HotkeyEnv) (option : KeyOption) : Exec VariableStore Bool := do
  let bootOption ←
    efiBootManagerGetVariableAndSize (unicodeSPrint 17 ['B', 'o', 'o', 't'] option.bootOption)
  if bootOption = [] then
    pure false
  else
    pure (option.bootOptionCrc = (env.calculateCrc32 bootOption).toNat)

/-- The loop of `IsKeyOptionVariable` over the digits of a name. -/
def keyOptionDigits : List Char16 → Nat → Option Nat
  | [], optionNumber => some optionNumber
  | char :: chars, optionNumber =>
    if 0x30 ≤ char.toNat ∧ char.toNat ≤ 0x39 then
      keyOptionDigits chars ((optionNumber * 10 + char.toNat - 0x30) % 0x10000)
    else if 0x41 ≤ char.toNat ∧ char.toNat ≤ 0x46 then
      keyOptionDigits chars ((optionNumber * 10 + char.toNat - 0x41) % 0x10000)
    else
      none

/-- `IsKeyOptionVariable`, and the number that it takes from the name. -/
def isKeyOptionVariable (id : VariableId) : Option Nat :=
  if id.vendorGuid ≠ gEfiGlobalVariableGuid ∨ strSize id.name ≠ 16 ∨
      id.name.take 3 ≠ wide ['K', 'e', 'y'] then
    none
  else
    keyOptionDigits (id.name.drop 3) 0

def insertKeyOption (option : KeyOption) : List KeyOption → List KeyOption
  | [] => [option]
  | head :: tail =>
    if option.optionNumber < head.optionNumber then option :: head :: tail
    else head :: insertKeyOption option tail

/-- The loop of `EfiBootManagerGetKeyOptions` over the names that `GetNextVariableName` yields. -/
def collectKeyOptions (env : HotkeyEnv) :
    List VariableId → List KeyOption → Exec VariableStore (List KeyOption)
  | [], keyOptions => pure keyOptions
  | id :: ids, keyOptions =>
    match isKeyOptionVariable id with
    | none => collectKeyOptions env ids keyOptions
    | some optionNumber => do
      let data ← efiBootManagerGetVariableAndSize id.name
      assert env.enabled (data ≠ [])
      let keyOption := keyOptionAt data (env.behind (global id.name)) optionNumber
      if ← isKeyOptionValid env keyOption then
        collectKeyOptions env ids (insertKeyOption keyOption keyOptions)
      else
        collectKeyOptions env ids keyOptions

def efiBootManagerGetKeyOptions (env : HotkeyEnv) : Exec VariableStore (List KeyOption) := do
  let store ← .get
  collectKeyOptions env store.keys []

def KeyOption.isHotkey (keyOption : KeyOption) (keyData : Nat) (keys : List Byte) : Bool :=
  keyOption.keyData = keyData ∧ keyOption.keys = keys

/-- `KeyOptionNumber`: the first index that the number at it exceeds, or else the count. -/
def freeKeyOptionNumber : List KeyOption → Nat → Nat
  | [], index => index
  | keyOption :: keyOptions, index =>
    if keyOption.optionNumber > index then index else freeKeyOptionNumber keyOptions (index + 1)

/-- `L"Key%04x"`. -/
def keyOptionName (optionNumber : Nat) : List Char16 :=
  unicodeSPrint 15 ['K', 'e', 'y'] optionNumber

/-- `EfiBootManagerAddKeyOptionVariable`, as far as it concerns the variables. -/
def efiBootManagerAddKeyOptionVariable (env : HotkeyEnv) (bootOptionNumber : BitVec 16)
    (modifier : BitVec 32) (args : List (BitVec 32)) : Exec VariableStore EfiStatus := do
  let bootOption ←
    efiBootManagerGetVariableAndSize (unicodeSPrint 17 ['B', 'o', 'o', 't'] bootOptionNumber.toNat)
  if bootOption = [] then
    pure .notFound
  else
    match initializeKeyFields modifier args with
    | .error status => pure status
    | .ok (keyData, keys) => do
      let keyOptions ← efiBootManagerGetKeyOptions env
      if keyOptions.any (·.isHotkey keyData keys) then
        pure .alreadyStarted
      else
        setVariable (global (keyOptionName (freeKeyOptionNumber keyOptions 0)))
          (KeyOption.bytes {
            keyData
            bootOptionCrc := (env.calculateCrc32 bootOption).toNat
            bootOption := bootOptionNumber.toNat
            keys
            optionNumber := 0 })

/-- `EfiBootManagerDeleteKeyOptionVariable`, as far as it concerns the variables. -/
def efiBootManagerDeleteKeyOptionVariable (env : HotkeyEnv) (modifier : BitVec 32)
    (args : List (BitVec 32)) : Exec VariableStore EfiStatus :=
  match initializeKeyFields modifier args with
  | .error status => pure status
  | .ok (keyData, keys) => do
    let keyOptions ← efiBootManagerGetKeyOptions env
    match keyOptions.find? (·.isHotkey keyData keys) with
    | none => pure .notFound
    | some keyOption => setVariable (global (keyOptionName keyOption.optionNumber)) []

inductive KeyCall where
  | add (bootOptionNumber : BitVec 16) (modifier : BitVec 32) (args : List (BitVec 32))
  | delete (modifier : BitVec 32) (args : List (BitVec 32))

def serveKey (env : HotkeyEnv) : KeyCall → Exec VariableStore EfiStatus
  | .add bootOptionNumber modifier args =>
    efiBootManagerAddKeyOptionVariable env bootOptionNumber modifier args
  | .delete modifier args => efiBootManagerDeleteKeyOptionVariable env modifier args

/-! ## The key options in memory -/

/-- `sizeof (EFI_BOOT_MANAGER_KEY_OPTION)`, which is packed. -/
abbrev sizeofKeyOption : Nat := 24

/-- The offset of `OptionNumber`, behind three keys. -/
abbrev optionNumberOffset : Nat := 22

/-- `SizeOfKeyOption` of the key option in a buffer. -/
def sizeOfKeyOption (keyOption : List Byte) : Option Nat :=
  (word? 4 keyOption 0).map fun keyData => 10 + 4 * inputKeyCount keyData

/-- `IsKeyOptionValid` of the key option in a buffer. -/
def isKeyOptionValidIn (env : HotkeyEnv) (keyOption : List Byte) : Exec VariableStore Bool := do
  let bootOptionNumber ← inBounds (word? 2 keyOption 8)
  let bootOption ←
    efiBootManagerGetVariableAndSize (unicodeSPrint 17 ['B', 'o', 'o', 't'] bootOptionNumber)
  if bootOption = [] then
    pure false
  else do
    let bootOptionCrc ← inBounds (word? 4 keyOption 4)
    pure (bootOptionCrc = (env.calculateCrc32 bootOption).toNat)

/-- The search for the place of a number, with the count of the key options that are left. -/
def placeOfNumber (keyOptions : List Byte) (optionNumber : Nat) : Nat → Nat → Exec VariableStore Nat
  | 0, index => pure index
  | left + 1, index => do
    let number ← inBounds (word? 2 keyOptions (sizeofKeyOption * index + optionNumberOffset))
    if optionNumber < number then pure index
    else placeOfNumber keyOptions optionNumber left (index + 1)

/-- A key option is put into the grown array. `fresh` is what the new memory holds. -/
def insertInMemory (fresh : Nat → Byte) (count : Nat) (keyOptions keyOption : List Byte)
    (optionNumber : Nat) : Exec VariableStore (List Byte) := do
  let keyOptions := keyOptions ++ (List.range sizeofKeyOption).map fresh
  let index ← placeOfNumber keyOptions optionNumber count 0
  let moved ← inBounds (bytes? (sizeofKeyOption * (count - index)) keyOptions (sizeofKeyOption * index))
  let keyOptions ← inBounds (put? keyOptions (sizeofKeyOption * (index + 1)) moved)
  let size ← inBounds (sizeOfKeyOption keyOption)
  let copied ← inBounds (bytes? size keyOption 0)
  let keyOptions ← inBounds (put? keyOptions (sizeofKeyOption * index) copied)
  inBounds (put? keyOptions (sizeofKeyOption * index + optionNumberOffset) (leBytes 2 optionNumber))

/-- The loop of `EfiBootManagerGetKeyOptions`, with the array of the key options and their count. -/
def collectInMemory (env : HotkeyEnv) (fresh : Nat → Byte) :
    List VariableId → Nat → List Byte → Exec VariableStore (Nat × List Byte)
  | [], count, keyOptions => pure (count, keyOptions)
  | id :: ids, count, keyOptions =>
    match isKeyOptionVariable id with
    | none => collectInMemory env fresh ids count keyOptions
    | some optionNumber => do
      let keyOption ← efiBootManagerGetVariableAndSize id.name
      assert env.enabled (keyOption ≠ [])
      if ← isKeyOptionValidIn env keyOption then do
        let keyOptions ← insertInMemory fresh count keyOptions keyOption optionNumber
        collectInMemory env fresh ids (count + 1) keyOptions
      else
        collectInMemory env fresh ids count keyOptions

/-- `EfiBootManagerGetKeyOptions` on memory: it stops at a read outside of a variable, and at a write outside
of the array. -/
def efiBootManagerGetKeyOptionsIn (env : HotkeyEnv) (fresh : Nat → Byte) :
    Exec VariableStore (Nat × List Byte) := do
  let store ← .get
  collectInMemory env fresh store.keys 0 []

def EnumerationSafe (env : HotkeyEnv) (fresh : Nat → Byte) (store : VariableStore) : Prop :=
  ∃ count keyOptions, efiBootManagerGetKeyOptionsIn env fresh store = .ret (count, keyOptions) store ∧
    keyOptions.length = sizeofKeyOption * count

def bootOptionIn (keyOption : List Byte) : Nat := leValue ((keyOption.drop 8).take 2)

def ValidKeyOption (env : HotkeyEnv) (store : VariableStore) (keyOption : List Byte) : Prop :=
  store.data (global (loadOptionName .boot (bootOptionIn keyOption))) ≠ [] ∧
    leValue ((keyOption.drop 4).take 4) = (env.calculateCrc32
      (store.data (global (loadOptionName .boot (bootOptionIn keyOption))))).toNat

/-- The data of a variable have the fixed part of a key option, and if it is valid the keys that it counts. -/
structure KeyOptionFits (env : HotkeyEnv) (store : VariableStore) (keyOption : List Byte) : Prop where
  head : 10 ≤ keyOption.length
  keys : ValidKeyOption env store keyOption →
    10 + 4 * inputKeyCount (leValue (keyOption.take 4)) ≤ keyOption.length

/-! ## What the key options are meant to be -/

def keyOptionOf (env : HotkeyEnv) (store : VariableStore) (n : Nat) : KeyOption :=
  keyOptionAt (store.data (global (keyOptionName n))) (env.behind (global (keyOptionName n))) n

/-- The variable of a number exists, and so does its boot option, with the recorded CRC. -/
def Live (env : HotkeyEnv) (store : VariableStore) (n : Nat) : Prop :=
  n < 0x10000 ∧ store.data (global (keyOptionName n)) ≠ [] ∧
    store.data (global (loadOptionName .boot (keyOptionOf env store n).bootOption)) ≠ [] ∧
    (keyOptionOf env store n).bootOptionCrc =
      (env.calculateCrc32 (store.data
        (global (loadOptionName .boot (keyOptionOf env store n).bootOption)))).toNat

/-- The live key options, each once, in increasing order of the numbers in the names of their
variables. -/
def AllLive (env : HotkeyEnv) (store : VariableStore) (keyOptions : List KeyOption) : Prop :=
  keyOptions.Pairwise (fun a b => a.optionNumber < b.optionNumber) ∧
    ∀ keyOption, keyOption ∈ keyOptions ↔ ∃ n, Live env store n ∧ keyOption = keyOptionOf env store n

/-- What a call is to do to the variables. An addition writes at most one variable, and none of a live
key option. A deletion removes the variable of a live key option with that hot key, if there is one,
and leaves all others alone. -/
def KeyCall.Correct (env : HotkeyEnv) (call : KeyCall) (store store' : VariableStore) : Prop :=
  match call with
  | .add _ _ _ => store' = store ∨ ∃ m, ¬ Live env store m ∧
      ∀ id ≠ global (keyOptionName m), store'.data id = store.data id
  | .delete modifier args => match initializeKeyFields modifier args with
    | .error _ => store' = store
    | .ok (keyData, keys) =>
      ((∀ n, Live env store n → (keyOptionOf env store n).isHotkey keyData keys = false) ∧
        store' = store) ∨
      ∃ n, Live env store n ∧ (keyOptionOf env store n).isHotkey keyData keys = true ∧
        store'.data (global (keyOptionName n)) = [] ∧
        ∀ id ≠ global (keyOptionName n), store'.data id = store.data id

/-- In this state `EfiBootManagerGetKeyOptions` returns the live key options, and the call does what it
is to do. -/
def KeyCall.Meets (env : HotkeyEnv) (call : KeyCall) (store : VariableStore) : Prop :=
  (∃ keyOptions, efiBootManagerGetKeyOptions env store = .ret keyOptions store ∧
      AllLive env store keyOptions) ∧
    ∀ status store', serveKey env call store = .ret status store' → call.Correct env store store'

def SingleDigit (env : HotkeyEnv) (store : VariableStore) : Prop := ∀ n, Live env store n → n < 10

end Quark.Bds
