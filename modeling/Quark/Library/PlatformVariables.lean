import Quark.Bds.VariableStore

/-!
# Tables of variables, and the clean-up of the variable store

`PlatformHelperDxe.c`: a table names variables by their vendor GUID and their name, or all variables of a
vendor. The clean-up collects the names and the GUIDs of the variables that are not in a table in two data
pools, and deletes them afterwards.

A pointer to an entry of a table is its index. Strings are lists of `CHAR16` without the terminating zero.
-/

namespace Quark.PlatformHelper

open Machine Bds

/-! ## Tables -/

structure VariableTableEntry where
  vendorGuid : BitVec 128
  variableName : Option (List Char16)
  deriving DecidableEq, Repr

/-- The locals of the search: `Found` and `*VendorGlobalEntryPtr`. -/
structure FindLocals where
  found : Option Nat
  vendorGlobal : Option Nat
  deriving DecidableEq, Repr

/-- One pass of the search. `wantsGlobal` tells whether `VendorGlobalEntryPtr` is not `NULL`. -/
def findEntryBody (wantsGlobal : Bool) (vendorGuid : BitVec 128) (variableName : Option (List Char16))
    (index : Nat) (entry : VariableTableEntry) (l : FindLocals) : FindLocals ⊕ FindLocals :=
  if entry.vendorGuid = vendorGuid then
    if entry.variableName = none ∨ variableName = none then
      if entry.variableName = none ∧ wantsGlobal = true then
        let l := { l with vendorGlobal := some index }
        if l.found ≠ none then .inr l
        else if variableName = none then .inr { l with found := some index }
        else .inl l
      else if variableName = none then .inr { l with found := some index }
      else .inl l
    else if entry.variableName = variableName then
      if wantsGlobal = true then .inl { l with found := some index }
      else .inr { l with found := some index }
    else .inl l
  else .inl l

def findEntries (wantsGlobal : Bool) (vendorGuid : BitVec 128) (variableName : Option (List Char16)) :
    Nat → List VariableTableEntry → FindLocals → FindLocals
  | _, [], l => l
  | index, entry :: table, l =>
    match findEntryBody wantsGlobal vendorGuid variableName index entry l with
    | .inr l => l
    | .inl l => findEntries wantsGlobal vendorGuid variableName (index + 1) table l

/-- `PlatformFindVariableTableEntry`. `vendorGlobalEntryPtr` is the variable that it points to, before the
call and in the answer. -/
def platformFindVariableTableEntry (table : Option (List VariableTableEntry))
    (vendorGuid : Option (BitVec 128)) (variableName : Option (List Char16))
    (vendorGlobalEntryPtr : Option (Option Nat)) : Option Nat × Option (Option Nat) :=
  match table, vendorGuid with
  | some table, some vendorGuid =>
    let l := findEntries vendorGlobalEntryPtr.isSome vendorGuid variableName 0 table ⟨none, none⟩
    (l.found, vendorGlobalEntryPtr.map fun _ => l.vendorGlobal)
  | _, _ => (none, vendorGlobalEntryPtr)

/-! ## Data pools -/

abbrev efiPageSize : Nat := 0x1000

abbrev sizeofDataPool : Nat := 20

/-- `PLATLIB_DATA_POOL` with the items in its memory. Lengths are in bytes. -/
structure DataPool (α : Type) where
  data : List α
  cnt : Nat
  len : Nat
  termLen : Nat
  maxLen : Nat

/-- Whether pool memory is served for a new pool, and for a bigger one. -/
structure PoolMemory where
  create : Bool
  grow : Bool

/-- The part of `PlatformDataPoolAppend` that finds a pool or makes one. -/
def createDataPool {σ α : Type} (asserts : Bool) (m : PoolMemory) :
    Option (DataPool α) → Exec σ (Option (DataPool α))
  | some pool => pure (some pool)
  | none =>
    if m.create then pure (some ⟨[], 0, 0, 0, efiPageSize - sizeofDataPool⟩)
    else do
      assert asserts False
      pure none

/-- The part of `PlatformDataPoolAppend` that makes room for `addLen` bytes. -/
def growDataPool {σ α : Type} (asserts : Bool) (m : PoolMemory) (addLen : Nat) (pool : DataPool α) :
    Exec σ (Option (DataPool α)) :=
  if pool.maxLen < pool.len + addLen then
    if m.grow then
      pure (some { pool with
        maxLen := ((sizeofDataPool + pool.len + addLen) / efiPageSize + 1) * efiPageSize -
          sizeofDataPool })
    else do
      assert asserts False
      pure none
  else pure (some pool)

/-- `PlatformDataPoolAppend` for items of `size` bytes. It answers whether the data were appended. -/
def platformDataPoolAppend {σ α : Type} (asserts : Bool) (m : PoolMemory) (size : Nat)
    (pool : Option (DataPool α)) (appendData : List α) (terminatorLen : Nat) :
    Exec σ (Bool × Option (DataPool α)) :=
  if appendData = [] then pure (false, pool)
  else do
    let dataLen := size * appendData.length
    let created ← createDataPool asserts m pool
    match created with
    | none => pure (false, none)
    | some created => do
      let grown ← growDataPool asserts m (dataLen + terminatorLen) created
      match grown with
      | none => pure (false, some created)
      | some grown => pure (true, some { grown with
          data := grown.data ++ appendData
          cnt := grown.cnt + 1
          len := grown.len + dataLen
          termLen := terminatorLen })

def platformMultiStringInsert {σ : Type} (asserts : Bool) (m : PoolMemory)
    (list : Option (DataPool Char16)) (insertString : List Char16) :
    Exec σ (Bool × Option (DataPool Char16)) :=
  platformDataPoolAppend asserts m 2 list (insertString ++ [0]) 2

def platformMultiGuidInsert {σ : Type} (asserts : Bool) (m : PoolMemory)
    (list : Option (DataPool (BitVec 128))) (insertGuid : BitVec 128) :
    Exec σ (Bool × Option (DataPool (BitVec 128))) :=
  platformDataPoolAppend asserts m 16 list [insertGuid] 16

def DataPool.contents {α : Type} (terminator : α) (pool : DataPool α) : List α :=
  pool.data ++ [terminator]

/-! ## The variable services -/

structure StoredVariable where
  id : VariableId
  writeProtected : Bool
  deriving DecidableEq, Repr

/-- The variables, in the order in which `GetNextVariableName` goes through them. -/
abbrev StoredVariables := List StoredVariable

def strSize (s : List Char16) : Nat := 2 * (s.length + 1)

/-- `gRT->GetNextVariableName` with a buffer of `nameSize` bytes. -/
def getNextVariableName (store : StoredVariables) (nameSize : Nat) (current : VariableId) :
    Except EfiStatus VariableId :=
  let rest := if current.name = [] then store
    else (store.dropWhile fun v => v.id ≠ current).tail
  match rest with
  | [] => .error .notFound
  | v :: _ => if nameSize < strSize v.id.name then .error .bufferTooSmall else .ok v.id

/-- `gRT->GetVariable` without a buffer. -/
def getVariableSize (store : StoredVariables) (id : VariableId) : EfiStatus :=
  if ∃ v ∈ store, v.id = id then .bufferTooSmall else .notFound

/-- `gRT->SetVariable` without data. -/
def deleteVariable (id : VariableId) : Exec StoredVariables EfiStatus := do
  let store ← .get
  match store.find? fun v => v.id = id with
  | none => pure .notFound
  | some v =>
    if v.writeProtected then pure .writeProtected
    else do
      .modify fun store => store.filter fun v => v.id ≠ id
      pure .success

/-! ## The clean-up -/

/-- Pool memory for the clean-up: for the name buffer, and for the pools at the variable with a number. -/
structure CleanUpMemory where
  nameBuffer : Bool
  names : Nat → PoolMemory
  guids : Nat → PoolMemory

/-- The locals of the loop that collects the variables. `index` counts the variables. -/
structure CollectLocals where
  current : VariableId
  status : EfiStatus
  maintainCount : Option Nat
  names : Option (DataPool Char16)
  guids : Option (DataPool (BitVec 128))
  index : Nat

def isMaintained (maintainTable : Option (List VariableTableEntry)) (id : VariableId) : Bool :=
  maintainTable.isSome ∧
    (let (foundSpecific, foundVendorGlobal) :=
      platformFindVariableTableEntry maintainTable (some id.vendorGuid) (some id.name) (some none)
    foundSpecific ≠ none ∨ foundVendorGlobal ≠ some none)

def collectBody (asserts : Bool) (memory : CleanUpMemory)
    (maintainTable : Option (List VariableTableEntry)) (l : CollectLocals) :
    Exec StoredVariables (CollectLocals ⊕ CollectLocals) := do
  let store ← .get
  match getNextVariableName store efiPageSize l.current with
  | .error .notFound => pure (.inr { l with status := .success })
  | .error status => pure (.inr { l with status })
  | .ok id =>
    if isMaintained maintainTable id then
      pure (.inl { l with
        current := id
        status := .success
        maintainCount := l.maintainCount.map (· + 1)
        index := l.index + 1 })
    else do
      let (named, names) ← platformMultiStringInsert asserts (memory.names l.index) l.names id.name
      let (added, guids) ←
        platformMultiGuidInsert asserts (memory.guids l.index) l.guids id.vendorGuid
      pure (.inl { l with
        current := id
        status := if named = false ∨ added = false then .outOfResources else .success
        names
        guids
        index := l.index + 1 })

/-- The locals of the loop that deletes variables: the positions in the two lists, and the counts. -/
structure DeleteLocals where
  position : Nat
  guidIndex : Nat
  deleteCount : Nat
  maintainCount : Option Nat

def deleteBody (asserts : Bool) (names : List Char16) (guids : List (BitVec 128)) (l : DeleteLocals) :
    Exec StoredVariables (DeleteLocals ⊕ DeleteLocals) := do
  let first ← inBounds names[l.position]?
  if first = 0 then pure (.inr l)
  else do
    let variableName := (names.drop l.position).takeWhile fun c => decide (c ≠ 0)
    let vendorGuid ← inBounds guids[l.guidIndex]?
    let store ← .get
    let status := getVariableSize store ⟨vendorGuid, variableName⟩
    .when (status.isError = true ∧ status ≠ .bufferTooSmall) (assertEfiError asserts status)
    let status ← deleteVariable ⟨vendorGuid, variableName⟩
    let l := { l with
      position := l.position + (variableName.length + 1)
      guidIndex := l.guidIndex + 1 }
    if status = .writeProtected then
      pure (.inl { l with maintainCount := l.maintainCount.map (· + 1) })
    else do
      assertEfiError asserts status
      pure (.inl { l with deleteCount := l.deleteCount + 1 })

/-- What `PlatformDeleteVariables` answers; the counts are there if the caller wants them. -/
structure DeleteResult where
  status : EfiStatus
  deleteCount : Option Nat
  maintainCount : Option Nat
  deriving DecidableEq, Repr

/-- `PlatformDeleteVariables`. `vendorGuidBuf` is what the buffer for the GUID holds at the start. -/
def platformDeleteVariables (asserts : Bool) (memory : CleanUpMemory) (vendorGuidBuf : BitVec 128)
    (maintainTable : Option (List VariableTableEntry)) (wantsDeleteCount wantsMaintainCount : Bool) :
    Exec StoredVariables DeleteResult := do
  assert asserts (memory.nameBuffer = true)
  if memory.nameBuffer = false then .halt .outOfBounds
  else do
    let maintainCount := if wantsMaintainCount then some 0 else none
    let store ← .get
    let l ← .loop (store.length + 1) (collectBody asserts memory maintainTable)
      ⟨⟨vendorGuidBuf, []⟩, .success, maintainCount, none, none, 0⟩
    match l.status.isError, l.names, l.guids with
    | false, some names, some guids => do
      let d ← .loop (store.length + 1)
        (deleteBody asserts (names.contents 0) (guids.contents 0)) ⟨0, 0, 0, l.maintainCount⟩
      pure ⟨if d.deleteCount = 0 then .notFound else .success,
        if wantsDeleteCount then some d.deleteCount else none, d.maintainCount⟩
    | _, _, _ => pure ⟨l.status, if wantsDeleteCount then some 0 else none, l.maintainCount⟩

/-! ## The scan for the variables of a table -/

abbrev ServiceError := { status : EfiStatus // status.isError = true ∧ status ≠ .notFound }

/-- The calls of `GetNextVariableName` that fail whatever the variables are. -/
abbrev Faults := Nat → Option ServiceError

/-- Where the enumeration is: the variables to come, and the number of calls made. -/
structure Enumeration where
  rest : List VariableId
  calls : Nat
  deriving DecidableEq, Repr

/-- `gRT->GetNextVariableName` on such a store. A call that fails leaves the name in the buffer, and with it
the place in the enumeration. -/
def nextVariableName (faults : Faults) (nameSize : Nat) :
    Exec Enumeration (Except EfiStatus VariableId) := do
  let s ← .get
  .modify fun s => { s with calls := s.calls + 1 }
  match faults s.calls with
  | some status => pure (.error status.val)
  | none =>
    match s.rest with
    | [] => pure (.error .notFound)
    | id :: rest =>
      if nameSize < strSize id.name then pure (.error .bufferTooSmall)
      else do
        .modify fun s => { s with rest }
        pure (.ok id)

def scanBody (faults : Faults) (table : List VariableTableEntry) (_ : Unit) :
    Exec Enumeration (Unit ⊕ Bool) := do
  let answer ← nextVariableName faults efiPageSize
  match answer with
  | .error status => if status = .notFound then pure (.inr false) else pure (.inl ())
  | .ok id =>
    let (foundSpecific, foundVendorGlobalEntry) :=
      platformFindVariableTableEntry (some table) (some id.vendorGuid) (some id.name) (some none)
    if foundSpecific ≠ none ∨ foundVendorGlobalEntry ≠ some none then pure (.inr true) else pure (.inl ())

/-- `PlatformIsVariableTableEntryInVariableStore`, followed for at most `fuel` passes. The name buffer is
there. -/
def platformIsVariableTableEntryInVariableStore (fuel : Nat) (faults : Faults)
    (table : List VariableTableEntry) : Exec Enumeration Bool :=
  .loop fuel (scanBody faults table) ()

/-! ## What the scan is for -/

def InTable (table : List VariableTableEntry) (id : VariableId) : Prop :=
  ∃ entry ∈ table, entry.vendorGuid = id.vendorGuid ∧
    (entry.variableName = none ∨ entry.variableName = some id.name)

instance (table : List VariableTableEntry) (id : VariableId) : Decidable (InTable table id) :=
  inferInstanceAs (Decidable (∃ entry ∈ table, _))

/-- The scan of a store comes to its end, and says whether a variable of the store is in the table. -/
def ScanDecides (faults : Faults) (table : List VariableTableEntry) (ids : List VariableId) : Prop :=
  ∃ fuel r s, platformIsVariableTableEntryInVariableStore fuel faults table ⟨ids, 0⟩ = .ret r s ∧
    (r = true ↔ ∃ id ∈ ids, InTable table id)

/-- The variables that the scan has to come by: up to the first one in the table, and with it. -/
def upToMatch (table : List VariableTableEntry) : List VariableId → List VariableId
  | [] => []
  | id :: ids => if InTable table id then [id] else id :: upToMatch table ids

/-- The calls that the scan needs an answer to: one for each such variable, and the last one if none is in
the table. -/
def answersNeeded (table : List VariableTableEntry) : List VariableId → Nat
  | [] => 1
  | id :: ids => if InTable table id then 1 else answersNeeded table ids + 1

/-- How many of `n` calls, from number `calls` on, do not fail. -/
def answered (faults : Faults) : Nat → Nat → Nat
  | _, 0 => 0
  | calls, n + 1 => (if faults calls = none then 1 else 0) + answered faults (calls + 1) n

/-- The names fit into the buffer, and enough calls are answered. -/
structure ScanServed (faults : Faults) (table : List VariableTableEntry) (calls : Nat)
    (ids : List VariableId) : Prop where
  fits : ∀ id ∈ upToMatch table ids, strSize id.name ≤ efiPageSize
  answers : ∃ n, answersNeeded table ids ≤ answered faults calls n

end Quark.PlatformHelper
