import Mathlib.Data.List.Nodup
import Quark.Bds.LoadOption
import Quark.Machine.InsertionSort

/-!
# The order variables

`BootOrder` and `DriverOrder` list the numbers of the load options in use. `BdsLoadOption.c` adds to
them, deletes from them, sorts them and, when it collects the load options, deletes the references to
options that it cannot build.
-/

namespace Quark.Bds

open Machine

/-- `L"BootOrder"` or `L"DriverOrder"`. -/
def orderName : LoadOptionType → List Char16
  | .boot => wide ['B', 'o', 'o', 't', 'O', 'r', 'd', 'e', 'r']
  | .driver => wide ['D', 'r', 'i', 'v', 'e', 'r', 'O', 'r', 'd', 'e', 'r']

/-- `GetEfiGlobalVariable2 (L"BootNext", &BootNext, NULL)`, and the number that `BootNext` then points
at. -/
def readBootNext (behind : VariableId → List Byte) : Exec VariableStore (Option Nat) := do
  let name := wide ['B', 'o', 'o', 't', 'N', 'e', 'x', 't']
  let data ← efiBootManagerGetVariableAndSize name
  if data = [] then
    pure none
  else do
    let bootNext ← inBounds (word? 2 (data ++ behind (global name)) 0)
    pure (some bootNext)

/-- The number from `BootNext` is looked at for boot options only. -/
def readBootNextOf (behind : VariableId → List Byte) :
    LoadOptionType → Exec VariableStore (Option Nat)
  | .boot => readBootNext behind
  | .driver => pure none

def getFreeOptionNumber (enabled : Bool) (behind : VariableId → List Byte) (type : LoadOptionType) :
    Exec VariableStore (Except EfiStatus Nat) := do
  let optionOrder := uint16s (← efiBootManagerGetVariableAndSize (orderName type))
  let bootNext ← readBootNextOf behind type
  let bound := optionOrder.length + bootNext.toList.length
  let free := (List.range bound).find? fun n => n ∉ optionOrder ∧ bootNext ≠ some n
  let optionNumber := free.getD bound
  assert enabled (optionNumber ≤ 0x10000)
  if optionNumber = 0x10000 then
    pure (.error .outOfResources)
  else
    pure (.ok (optionNumber % 0x10000))

def addOptionNumberToOrderVariable (enabled : Bool) (type : LoadOptionType)
    (optionNumber position : Nat) : Exec VariableStore EfiStatus := do
  let optionOrder ← efiBootManagerGetVariableAndSize (orderName type)
  if optionNumber ∈ uint16s optionOrder then
    pure .alreadyStarted
  else do
    let position := min position (optionOrder.length / 2)
    let newOptionOrder :=
      optionOrder.take (position * 2) ++ (leBytes 2 optionNumber ++ optionOrder.drop (position * 2))
    let status ← setVariable (global (orderName type)) newOptionOrder
    assertEfiError enabled status
    pure status

def assignedNumber (enabled : Bool) (behind : VariableId → List Byte) (option : LoadOption) :
    Exec VariableStore (Except EfiStatus Nat) :=
  if option.optionNumber = loadOptionNumberUnassigned then
    getFreeOptionNumber enabled behind option.optionType
  else
    pure (.ok option.optionNumber)

/-- The rest of `EfiBootManagerAddLoadOptionVariable`, for an option that has a number. -/
def addNumberedOption (enabled : Bool) (option : LoadOption) (position : Nat) :
    Exec VariableStore (EfiStatus × Nat) :=
  if option.optionNumber ≥ loadOptionNumberMax then
    pure (.invalidParameter, option.optionNumber)
  else do
    let status ←
      addOptionNumberToOrderVariable enabled option.optionType option.optionNumber position
    if status.isError then
      pure (status, option.optionNumber)
    else do
      let status ← efiBootManagerLoadOptionToVariable option
      pure (status, option.optionNumber)

/-- `EfiBootManagerAddLoadOptionVariable`, and the number that it leaves in the option. -/
def efiBootManagerAddLoadOptionVariable (enabled : Bool) (behind : VariableId → List Byte)
    (option : LoadOption) (position : Nat) : Exec VariableStore (EfiStatus × Nat) := do
  match ← assignedNumber enabled behind option with
  | .error status => pure (status, option.optionNumber)
  | .ok optionNumber => addNumberedOption enabled { option with optionNumber } position

def deleteOptionVariable (enabled : Bool) (type : LoadOptionType) (optionNumber : Nat) :
    Exec VariableStore EfiStatus := do
  let optionOrder ← efiBootManagerGetVariableAndSize (orderName type)
  if optionNumber ∈ uint16s optionOrder then do
    let index := (uint16s optionOrder).idxOf optionNumber
    let status ← setVariable (global (orderName type))
      (optionOrder.take (index * 2) ++ optionOrder.drop ((index + 1) * 2))
    assertEfiError enabled status
    pure status
  else
    pure .notFound

def efiBootManagerDeleteLoadOptionVariable (enabled : Bool) (optionNumber : Nat)
    (type : LoadOptionType) : Exec VariableStore EfiStatus :=
  if optionNumber ≥ loadOptionNumberMax then
    pure .invalidParameter
  else
    deleteOptionVariable enabled type optionNumber

/-- The loop of `EfiBootManagerGetLoadOptions` over the numbers it has collected. -/
def collectLoadOptions (enabled : Bool) (behind : VariableId → List Byte) (type : LoadOptionType)
    (bootNext : Option Nat) : List Nat → Exec VariableStore (List LoadOption)
  | [] => pure []
  | optionNumber :: optionNumbers => do
    match ← efiBootManagerVariableToLoadOption enabled behind (loadOptionName type optionNumber) with
    | .error _ => do
      -- the reference is deleted from `BootOrder`, whichever type was asked for
      let _ ← efiBootManagerDeleteLoadOptionVariable enabled optionNumber .boot
      collectLoadOptions enabled behind type bootNext optionNumbers
    | .ok option => do
      assert enabled (option.optionNumber = optionNumber)
      let options ← collectLoadOptions enabled behind type bootNext optionNumbers
      pure ({ option with bootNext := bootNext = some option.optionNumber } :: options)

def efiBootManagerGetLoadOptions (enabled : Bool) (behind : VariableId → List Byte)
    (type : LoadOptionType) : Exec VariableStore (List LoadOption) := do
  let bootNext ← readBootNextOf behind type
  let optionOrder ← efiBootManagerGetVariableAndSize (orderName type)
  collectLoadOptions enabled behind type bootNext (bootNext.toList ++ uint16s optionOrder)

/-- One round of the insertion sort: the option goes in front of the first one that the comparator
wants it in front of. -/
def insertOption (comparator : LoadOption → LoadOption → Bool) (option : LoadOption) :
    List LoadOption → List LoadOption
  | [] => [option]
  | head :: tail =>
    if comparator option head then option :: head :: tail
    else head :: insertOption comparator option tail

/-- `EfiBootManagerSortLoadOptionVariable`. The option from `BootNext` is not part of the order. -/
def efiBootManagerSortLoadOptionVariable (enabled : Bool) (behind : VariableId → List Byte)
    (type : LoadOptionType) (comparator : LoadOption → LoadOption → Bool) :
    Exec VariableStore Unit := do
  let loadOption ← efiBootManagerGetLoadOptions enabled behind type
  let start := match loadOption with
    | first :: _ => if first.bootNext then 1 else 0
    | [] => 0
  let sorted := (loadOption.drop start).foldl (fun done option => insertOption comparator option done) []
  let _ ← setVariable (global (orderName type)) (sorted.flatMap fun option => leBytes 2 option.optionNumber)

/-! ## Sequences of calls -/

/-- A call of one of the four functions. -/
inductive OrderCall where
  | add (option : LoadOption) (position : Nat)
  | delete (optionNumber : Nat) (type : LoadOptionType)
  | sort (type : LoadOptionType) (comparator : LoadOption → LoadOption → Bool)
  | get (type : LoadOptionType)

/-- A call, and what lies behind the buffers that variables are read into while it runs. -/
structure OrderRequest where
  call : OrderCall
  behind : VariableId → List Byte

def serveOrder (enabled : Bool) (request : OrderRequest) :
    Exec VariableStore (EfiStatus × Nat) :=
  match request.call with
  | .add option position => efiBootManagerAddLoadOptionVariable enabled request.behind option position
  | .delete optionNumber type => do
    let status ← efiBootManagerDeleteLoadOptionVariable enabled optionNumber type
    pure (status, optionNumber)
  | .sort type comparator => do
    efiBootManagerSortLoadOptionVariable enabled request.behind type comparator
    pure (.success, 0)
  | .get type => do
    let _ ← efiBootManagerGetLoadOptions enabled request.behind type
    pure (.success, 0)

/-! ## What the calls are meant to do -/

def VariableStore.order (store : VariableStore) (type : LoadOptionType) : List Nat :=
  uint16s (store.data (global (orderName type)))

/-- The load option that the variable of a number holds. A variable that is missing or invalid holds
none. -/
def optionOf (enabled : Bool) (behind : VariableId → List Byte) (type : LoadOptionType)
    (optionNumber : Nat) (store : VariableStore) : Option LoadOption :=
  match (efiBootManagerVariableToLoadOption enabled behind (loadOptionName type optionNumber)
    store).value? with
  | some (.ok option) => some option
  | _ => none

def VariableStore.sound (store : VariableStore) (enabled : Bool) (behind : VariableId → List Byte)
    (type : LoadOptionType) : List Nat :=
  (store.order type).filter fun n => (optionOf enabled behind type n store).isSome

/-- What a call is to do to the order variables, given its answer. An addition that fails leaves the
order as it is, unless it is the option's own variable that could not be written. -/
def OrderRequest.Correct (enabled : Bool) (request : OrderRequest) (answer : EfiStatus × Nat)
    (store store' : VariableStore) : Prop :=
  match request.call with
  | .add option position =>
    (∀ other ≠ option.optionType, store'.order other = store.order other) ∧
      (answer.1 ≠ .success ∧ store'.order option.optionType = store.order option.optionType ∨
        answer.2 ∉ store.order option.optionType ∧
          store'.order option.optionType = (store.order option.optionType).insertIdx
            (min position (store.order option.optionType).length) answer.2)
  | .delete optionNumber type =>
    (∀ other ≠ type, store'.order other = store.order other) ∧
      store'.order type = (store.order type).filter (· ≠ optionNumber)
  | .sort type _ =>
    (∀ other ≠ type, store'.order other = store.order other) ∧
      (store'.order type).Perm (store.sound enabled request.behind type)
  | .get type =>
    (∀ other ≠ type, store'.order other = store.order other) ∧
      store'.order type = store.sound enabled request.behind type

/-- Driver options are not collected while `DriverOrder` has a reference to a missing or invalid
variable. When they are collected in order to be sorted, such a reference does no harm unless its number
is in `BootOrder` too. -/
def OrderRequest.Clean (enabled : Bool) (request : OrderRequest) (store : VariableStore) : Prop :=
  match request.call with
  | .sort .driver _ => ∀ n ∈ store.order .driver,
      optionOf enabled request.behind .driver n store = none → n ∉ store.order .boot
  | .get .driver => ∀ n ∈ store.order .driver, optionOf enabled request.behind .driver n store ≠ none
  | _ => True

/-! ## Adding an option where variables may not be written -/

abbrev Failure := { status : EfiStatus // status.isError = true }

/-- How the two calls of `gRT->SetVariable` fail, if they do: that for the order, and that for the option. -/
structure SetFailures where
  order : Option Failure
  option : Option Failure

/-- `gRT->SetVariable`, which may fail. -/
def setVariableUnless (failure : Option Failure) (id : VariableId) (data : List Byte) :
    Exec VariableStore EfiStatus :=
  match failure with
  | some status => pure status.val
  | none => setVariable id data

/-- `AddOptionNumberToOrderVariable`, where the order may not be written. -/
def addOptionNumberUnless (enabled : Bool) (failure : Option Failure) (type : LoadOptionType)
    (optionNumber position : Nat) : Exec VariableStore EfiStatus := do
  let optionOrder ← efiBootManagerGetVariableAndSize (orderName type)
  if optionNumber ∈ uint16s optionOrder then
    pure .alreadyStarted
  else do
    let position := min position (optionOrder.length / 2)
    let newOptionOrder :=
      optionOrder.take (position * 2) ++ (leBytes 2 optionNumber ++ optionOrder.drop (position * 2))
    let status ← setVariableUnless failure (global (orderName type)) newOptionOrder
    assertEfiError enabled status
    pure status

/-- `EfiBootManagerLoadOptionToVariable`, where the option may not be written. -/
def loadOptionToVariableUnless (failure : Option Failure) (option : LoadOption) :
    Exec VariableStore EfiStatus :=
  match option.filePath with
  | none => pure .invalidParameter
  | some filePath =>
    if option.optionNumber = loadOptionNumberUnassigned then
      pure .invalidParameter
    else do
      let data := optionVariable option filePath
      if data.length > optionVariableSize option filePath then
        .halt .outOfBounds
      else
        setVariableUnless failure (global (loadOptionName option.optionType option.optionNumber)) data

/-- The rest of `EfiBootManagerAddLoadOptionVariable`, for an option that has a number. -/
def addNumberedOptionUnless (enabled : Bool) (failures : SetFailures) (option : LoadOption)
    (position : Nat) : Exec VariableStore (EfiStatus × Nat) :=
  if option.optionNumber ≥ loadOptionNumberMax then
    pure (.invalidParameter, option.optionNumber)
  else do
    let status ←
      addOptionNumberUnless enabled failures.order option.optionType option.optionNumber position
    if status.isError then
      pure (status, option.optionNumber)
    else do
      let status ← loadOptionToVariableUnless failures.option option
      pure (status, option.optionNumber)

/-- `EfiBootManagerAddLoadOptionVariable`, where variables may not be written. -/
def addLoadOptionUnless (enabled : Bool) (behind : VariableId → List Byte) (failures : SetFailures)
    (option : LoadOption) (position : Nat) : Exec VariableStore (EfiStatus × Nat) := do
  match ← assignedNumber enabled behind option with
  | .error status => pure (status, option.optionNumber)
  | .ok optionNumber => addNumberedOptionUnless enabled failures { option with optionNumber } position

/-- An option has been added: its number is in the order, and its variable is new. -/
structure Added (option : LoadOption) (position optionNumber : Nat) (store store' : VariableStore) :
    Prop where
  order : store'.order option.optionType =
    (store.order option.optionType).insertIdx
      (min position (store.order option.optionType).length) optionNumber
  absent : optionNumber ∉ store.order option.optionType
  fresh : store.data (global (loadOptionName option.optionType optionNumber)) = []
  written : ∃ filePath, option.filePath = some filePath ∧
    store'.data (global (loadOptionName option.optionType optionNumber)) =
      optionVariable { option with optionNumber } filePath
  others : ∀ id, id ≠ global (orderName option.optionType) →
    id ≠ global (loadOptionName option.optionType optionNumber) → store'.data id = store.data id

/-- The option is added with success, or there is an error and all variables are as they were. -/
def AddAtomic (enabled : Bool) (behind : VariableId → List Byte) (failures : SetFailures)
    (option : LoadOption) (position : Nat) (store : VariableStore) : Prop :=
  ∃ status optionNumber store',
    addLoadOptionUnless enabled behind failures option position store =
      .ret (status, optionNumber) store' ∧
    (status = .success ∧ Added option position optionNumber store store' ∨
      status.isError = true ∧ ∀ id, store'.data id = store.data id)

/-- The data of `BootNext`, and what is behind them in memory. -/
def bootNextMemory (behind : VariableId → List Byte) (store : VariableStore) : List Byte :=
  store.data (global (wide ['B', 'o', 'o', 't', 'N', 'e', 'x', 't'])) ++
    behind (global (wide ['B', 'o', 'o', 't', 'N', 'e', 'x', 't']))

/-- The number in `BootNext`, which counts for boot options only. -/
def bootNextOf (behind : VariableId → List Byte) (store : VariableStore) : LoadOptionType → Option Nat
  | .boot =>
    if store.data (global (wide ['B', 'o', 'o', 't', 'N', 'e', 'x', 't'])) = [] then none
    else some (leValue ((bootNextMemory behind store).take 2))
  | .driver => none

def LeastUnused (used : List Nat) (n : Nat) : Prop := n ∉ used ∧ ∀ m < n, m ∈ used

/-- The number that an option is added with: its own, or else the smallest one that is neither in the order
nor in `BootNext`. -/
def NumberFor (behind : VariableId → List Byte) (option : LoadOption) (store : VariableStore) (n : Nat) :
    Prop :=
  if option.optionNumber = loadOptionNumberUnassigned then
    LeastUnused (store.order option.optionType ++ (bootNextOf behind store option.optionType).toList) n
  else n = option.optionNumber

/-- A free number can be looked for: `BootNext`, if there is one, has the two bytes of a number. -/
def BootNextReadable (behind : VariableId → List Byte) (option : LoadOption) (store : VariableStore) : Prop :=
  option.optionNumber = loadOptionNumberUnassigned → option.optionType = .boot →
    store.data (global (wide ['B', 'o', 'o', 't', 'N', 'e', 'x', 't'])) ≠ [] →
      2 ≤ (bootNextMemory behind store).length

/-- Nothing goes wrong once a number is to be put into the order: a write of the order fails only where
asserts are disabled; if it does not fail, the option has a device path and a size below 4 GB, its variable
does not exist, and is written. -/
structure AddUndisturbed (enabled : Bool) (failures : SetFailures) (option : LoadOption) (n : Nat)
    (store : VariableStore) : Prop where
  order : failures.order ≠ none → enabled = false
  filePath : failures.order = none → ∃ filePath, option.filePath = some filePath ∧
    (optionVariable option filePath).length < 0x100000000
  fresh : failures.order = none → store.data (global (loadOptionName option.optionType n)) = []
  option : failures.order = none → failures.option = none

def AddClean (enabled : Bool) (behind : VariableId → List Byte) (failures : SetFailures)
    (option : LoadOption) (store : VariableStore) : Prop :=
  BootNextReadable behind option store ∧
    ∀ n, NumberFor behind option store n → n < loadOptionNumberMax → n ∉ store.order option.optionType →
      AddUndisturbed enabled failures option n store

/-! ## Sorting the order -/

/-- The load option that an entry of the order stands for, and whether it is the one from `BootNext`. -/
def entryOf (enabled : Bool) (behind : VariableId → List Byte) (type : LoadOptionType)
    (bootNext : Option Nat) (store : VariableStore) (optionNumber : Nat) : Option LoadOption :=
  (optionOf enabled behind type optionNumber store).map fun option =>
    { option with bootNext := bootNext = some optionNumber }

/-- The load options that the order lists. An entry whose variable is missing or invalid lists none. -/
def VariableStore.entries (store : VariableStore) (enabled : Bool) (behind : VariableId → List Byte)
    (type : LoadOptionType) : List LoadOption :=
  (store.order type).filterMap (entryOf enabled behind type (bootNextOf behind store type) store)

/-- The variable of a number is missing, or can be tested without a read behind the end of memory. -/
def OptionReadable (behind : VariableId → List Byte) (type : LoadOptionType) (store : VariableStore)
    (optionNumber : Nat) : Prop :=
  store.data (global (loadOptionName type optionNumber)) ≠ [] →
    validateOption (store.data (global (loadOptionName type optionNumber)) ++
      behind (global (loadOptionName type optionNumber)))
      (store.data (global (loadOptionName type optionNumber))).length ≠ none

end Quark.Bds
