import Quark.Bds.Hotkey
import Quark.Machine.Matcher

/-!
# The hotkey service

`BdsHotkey.c`: a key option becomes one hotkey for each way in which its modifiers can be pressed. The
service is called with one keystroke after the other, and every hotkey counts in `WaitingKey` how many of its
keys it has seen.
-/

namespace Quark.Bds

open Machine

/-! ## Keys -/

structure InputKey where
  scanCode : BitVec 16
  unicodeChar : Char16
  deriving DecidableEq, Repr

/-- `EFI_KEY_DATA`, with the shift state of its `KeyState`. -/
structure KeyData where
  key : InputKey
  keyShiftState : BitVec 32
  deriving DecidableEq, Repr

abbrev efiShiftStateValid : BitVec 32 := 0x80000000

def KeyOption.key (keyOption : KeyOption) (index : Nat) : InputKey where
  scanCode := BitVec.ofNat 16 (leValue ((keyOption.keys.drop (4 * index)).take 2))
  unicodeChar := BitVec.ofNat 16 (leValue ((keyOption.keys.drop (4 * index + 2)).take 2))

/-! ## Hotkeys -/

/-- `HOTKEY`. `keyData` has three elements, of which `codeCount` are in use. -/
structure Hotkey where
  isContinue : Bool
  bootOption : Nat
  codeCount : Nat
  waitingKey : Nat
  keyData : List KeyData
  deriving DecidableEq, Repr

/-- The modifiers that come twice: the bit of `KeyData.PackedValue`, and `EFI_RIGHT_…_PRESSED` and
`EFI_LEFT_…_PRESSED` of shift, control, alt and logo. -/
def pairedModifiers : List (Nat × BitVec 32 × BitVec 32) :=
  [(8, 0x1, 0x2), (9, 0x4, 0x8), (10, 0x10, 0x20), (11, 0x40, 0x80)]

/-- `GenerateKeyShiftState`, with the modifiers of the depths that are left. The last depth adds
`EFI_MENU_KEY_PRESSED` and `EFI_SYS_REQ_PRESSED`. -/
def generateKeyShiftState (keyOption : KeyOption) :
    List (Nat × BitVec 32 × BitVec 32) → BitVec 32 → List (BitVec 32)
  | [], keyShiftState =>
    let keyShiftState := if keyOption.keyData.testBit 12 then keyShiftState ||| 0x100 else keyShiftState
    [if keyOption.keyData.testBit 13 then keyShiftState ||| 0x200 else keyShiftState]
  | (bit, right, left) :: depths, keyShiftState =>
    if keyOption.keyData.testBit bit then
      generateKeyShiftState keyOption depths (keyShiftState ||| right) ++
        generateKeyShiftState keyOption depths (keyShiftState ||| left)
    else generateKeyShiftState keyOption depths keyShiftState

/-- The hotkey that `ProcessKeyOption` makes for a shift state. What it does not fill in is zero. -/
def hotkeyFor (isContinue : Bool) (keyOption : KeyOption) (keyShiftState : BitVec 32) : Hotkey where
  isContinue
  bootOption := keyOption.bootOption
  codeCount := inputKeyCount keyOption.keyData
  waitingKey := 0
  keyData := (List.range 3).map fun index =>
    if index < inputKeyCount keyOption.keyData then ⟨keyOption.key index, keyShiftState⟩
    else ⟨⟨0, 0⟩, 0⟩

/-- `ProcessKeyOption`, as far as it concerns the list of the hotkeys. -/
def processKeyOption (isContinue : Bool) (hotkeys : List Hotkey) (keyOption : KeyOption) : List Hotkey :=
  hotkeys ++ (generateKeyShiftState keyOption pairedModifiers efiShiftStateValid).map
    (hotkeyFor isContinue keyOption)

/-! ## Keystrokes -/

/-- The hotkeys, the number of the pending boot option, and the places in the list of the hotkeys for which
`mHotkeyTriggered` was signaled. -/
structure HotkeyService where
  hotkeys : List Hotkey
  bootOption : Option Nat
  triggered : List Nat
  deriving DecidableEq, Repr

/-- The service as `EfiBootManagerStartHotkeyService` leaves it. -/
def efiBootManagerStartHotkeyService (keyOptions : List KeyOption) (continueKeyOption : Option KeyOption) :
    HotkeyService where
  hotkeys := continueKeyOption.toList.foldl (processKeyOption true)
    (keyOptions.foldl (processKeyOption false) [])
  bootOption := none
  triggered := []

def Expected (keyData hotkeyData : KeyData) : Prop :=
  keyData.key.scanCode = hotkeyData.key.scanCode ∧ keyData.key.unicodeChar = hotkeyData.key.unicodeChar ∧
    (keyData.keyShiftState &&& efiShiftStateValid ≠ 0 → keyData.keyShiftState = hotkeyData.keyShiftState)

instance (keyData hotkeyData : KeyData) : Decidable (Expected keyData hotkeyData) :=
  inferInstanceAs (Decidable (_ ∧ _ ∧ (_ → _)))

/-- One pass of the loop of `HotkeyCallback`, with the place of the hotkey. `load` is what
`EfiBootManagerVariableToLoadOption` answers for the number of a boot option. -/
def visitHotkey (asserts : Bool) (load : Nat → EfiStatus) (keyData : KeyData) (place : Nat)
    (hotkey : Hotkey) : Exec HotkeyService Hotkey := do
  assert asserts (hotkey.waitingKey < 3)
  let hotkeyData ← inBounds hotkey.keyData[hotkey.waitingKey]?
  if Expected keyData hotkeyData then
    if hotkey.waitingKey + 1 = hotkey.codeCount then do
      .modify fun s => { s with triggered := s.triggered ++ [place] }
      .when (hotkey.isContinue = false) (.modify fun s => { s with
        bootOption := if (load hotkey.bootOption).isError then none else some hotkey.bootOption })
      pure { hotkey with waitingKey := 0 }
    else pure { hotkey with waitingKey := hotkey.waitingKey + 1 }
  else pure { hotkey with waitingKey := 0 }

/-- The loop of `HotkeyCallback`, from a place on. -/
def visitHotkeys (asserts : Bool) (load : Nat → EfiStatus) (keyData : KeyData) :
    Nat → List Hotkey → Exec HotkeyService (List Hotkey)
  | _, [] => pure []
  | place, hotkey :: hotkeys => do
    let hotkey ← visitHotkey asserts load keyData place hotkey
    let hotkeys ← visitHotkeys asserts load keyData (place + 1) hotkeys
    pure (hotkey :: hotkeys)

def hotkeyCallback (asserts : Bool) (load : Nat → EfiStatus) (keyData : KeyData) :
    Exec HotkeyService EfiStatus := do
  let s ← .get
  if s.bootOption ≠ none then pure .success
  else do
    let hotkeys ← visitHotkeys asserts load keyData 0 s.hotkeys
    .modify fun s => { s with hotkeys }
    pure .success

/-- `EfiBootManagerHotkeyBoot`. `readyToBoot` says whether `EfiBootManagerBoot` gets as far as to signal the
event at which `StopHotkeyService` removes the hotkeys. -/
def efiBootManagerHotkeyBoot (readyToBoot : Bool) : Exec HotkeyService Unit := do
  let s ← .get
  .when (s.bootOption ≠ none) do
    .when (readyToBoot = true) (.modify fun s => { s with hotkeys := [] })
    .modify fun s => { s with bootOption := none }

/-! ## What a hotkey is for -/

/-- The service, and for each hotkey the keystrokes that it has been given since it last fired. -/
structure Watched where
  service : HotkeyService
  since : Nat → List KeyData

inductive HotkeyEvent where
  | stroke (keyData : KeyData) (load : Nat → EfiStatus)
  | boot (readyToBoot : Bool)

def Fired (s t : HotkeyService) (place : Nat) : Prop := place ∈ t.triggered.drop s.triggered.length

instance (s t : HotkeyService) (place : Nat) : Decidable (Fired s t place) :=
  inferInstanceAs (Decidable (_ ∈ _))

/-- The keystrokes of the hotkeys after one more, which is dropped while a boot option is pending. -/
def strokesSince (s t : HotkeyService) (keyData : KeyData) (since : Nat → List KeyData) (place : Nat) :
    List KeyData :=
  if s.bootOption = none then
    if Fired s t place then [] else since place ++ [keyData]
  else since place

def serveHotkey (asserts : Bool) : HotkeyEvent → Exec Watched Unit
  | .stroke keyData load => fun w =>
    match hotkeyCallback asserts load keyData w.service with
    | .ret _ t => .ret () ⟨t, strokesSince w.service t keyData w.since⟩
    | .stop why t => .stop why ⟨t, w.since⟩
  | .boot readyToBoot => fun w =>
    match efiBootManagerHotkeyBoot readyToBoot w.service with
    | .ret _ t => .ret () ⟨t, w.since⟩
    | .stop why t => .stop why ⟨t, w.since⟩

def Hotkey.keys (hotkey : Hotkey) : List KeyData := hotkey.keyData.take hotkey.codeCount

def WaitingValid (s : HotkeyService) : Prop := ∀ hotkey ∈ s.hotkeys, hotkey.waitingKey < hotkey.keyData.length

/-- The event is served, the hotkeys wait for elements of their arrays before and after it, and at a
keystroke that is not dropped a hotkey with keys fires exactly if its last keystrokes are those of its
keys. -/
def Recognises (asserts : Bool) (event : HotkeyEvent) (w : Watched) : Prop :=
  WaitingValid w.service ∧ ∃ w', serveHotkey asserts event w = .ret () w' ∧ WaitingValid w'.service ∧
    ∀ keyData load, event = .stroke keyData load → w.service.bootOption = none →
      ∀ place hotkey, w.service.hotkeys[place]? = some hotkey → 0 < hotkey.codeCount →
        (Fired w.service w'.service place ↔ EndsWith Expected (w.since place ++ [keyData]) hotkey.keys)

/-- A keystroke that does not lead a hotkey astray: it is not the third null key for a hotkey without keys,
and where it breaks off a sequence, the keystrokes do not end with a shorter beginning of it. -/
structure StrokeClean (keyData : KeyData) (since : List KeyData) (hotkey : Hotkey) : Prop where
  noKeys : hotkey.codeCount = 0 → hotkey.waitingKey = 2 →
    ∀ hotkeyData ∈ hotkey.keyData[2]?, ¬ Expected keyData hotkeyData
  broken : 0 < hotkey.codeCount → (∀ hotkeyData ∈ hotkey.keyData[hotkey.waitingKey]?, ¬ Expected keyData hotkeyData) →
    ∀ j, 0 < j → j ≤ hotkey.waitingKey →
      ¬ EndsWith Expected (since ++ [keyData]) (hotkey.keys.take j)

def Clean (event : HotkeyEvent) (w : Watched) : Prop :=
  ∀ keyData load, event = .stroke keyData load → w.service.bootOption = none →
    ∀ place hotkey, w.service.hotkeys[place]? = some hotkey →
      StrokeClean keyData (w.since place) hotkey

end Quark.Bds
