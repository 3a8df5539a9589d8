import Quark.Ohci.Transfers

/-!
# OHCI: resets

`OhciReset`, with what it frees and builds again: the interrupt transfers that are live, and the 63
placeholder EDs of the interval tree. The tree has six levels; level `k` has `32 / 2 ^ k` EDs.
-/

namespace Quark.Ohci.Transfer

open Machine

/-! ## Giving back the interrupt transfers -/

def freePool (buffer : Nat) : Exec HcDev Unit :=
  .modify fun s => { s with poolMemory := s.poolMemory.erase buffer }

def ohciFreeED (asserts : Bool) (ed : Nat) : Exec HcDev Unit :=
  .when (ed ≠ 0) (freeMem asserts ed sizeofEd)

def freeInterruptEdBody (asserts : Bool) (intEd ed : Nat) : Exec HcDev (Nat ⊕ Unit) := do
  let s ← .get
  let next := (s.ed ed).nextED
  if next ≠ 0 then do
    if next = u32 intEd then do
      modifyEd ed fun e => { e with nextED := (s.ed next).nextED }
      ohciFreeED asserts next
      pure (.inl ed)
    else pure (.inl next)
  else pure (.inr ())

/-- The list of one place of `HccaInterruptTable`. -/
def freeInterruptEdAt (asserts : Bool) (intEd index : Nat) : Exec HcDev Unit := do
  let s ← .get
  .when (s.hccaInterruptTable index ≠ 0)
    (.loop walkLimit (freeInterruptEdBody asserts intEd) (s.hccaInterruptTable index))

def ohciFreeInterruptEdByEd (asserts : Bool) (intEd : Nat) : Exec HcDev Unit :=
  .when (intEd ≠ 0) (Exec.serve (freeInterruptEdAt asserts intEd) (List.range 32))

/-- `OhciFreeInterruptContextEntry`. The entry is gone when its memory is given back. -/
def ohciFreeInterruptContextEntry (asserts : Bool) (entry : Nat) : Exec HcDev Unit := do
  let s ← .get
  match s.entry entry with
  | none => .halt .outOfBounds
  | some e => do
    unmap e.uCBufferMapping
    .when (e.uCBuffer ≠ 0) (freePool e.uCBuffer)
    freeTds asserts e.dataTd
    freePool entry
    .modify fun s => { s with entry := Function.update s.entry entry none }

/-- One pass of the loop of `OhciFreeDynamicIntMemory`. The next entry is read from the one at the head of the
list, which is the one that has been freed. -/
def freeDynamicBody (asserts : Bool) (_ : Unit) : Exec HcDev (Unit ⊕ Unit) := do
  let s ← .get
  if s.interruptContextList ≠ 0 then do
    match s.entry s.interruptContextList with
    | none => .halt .outOfBounds
    | some e => do
      ohciFreeInterruptEdByEd asserts e.ed
      ohciFreeInterruptContextEntry asserts s.interruptContextList
      let s ← .get
      match s.entry s.interruptContextList with
      | none => .halt .outOfBounds
      | some e => do
        .modify fun s => { s with interruptContextList := e.nextEntry }
        pure (.inl ())
  else pure (.inr ())

def ohciFreeDynamicIntMemory (asserts : Bool) : Exec HcDev Unit :=
  .loop walkLimit (freeDynamicBody asserts) ()

/-! ## Giving back the interval tree -/

/-- `Leaf` of `OhciFreeFixedIntMemory`: how many EDs each level of the tree has. -/
def levelCounts : List Nat := [32, 16, 8, 4, 2, 1]

def freeFixedBody (asserts : Bool) (level index : Nat) : Exec HcDev (Nat ⊕ Unit) :=
  match levelCounts[index]? with
  | none => .halt .outOfBounds
  | some count =>
    if index < count then do
      let s ← .get
      .when (s.intervalList level index ≠ 0) (freeMem asserts (s.intervalList level index) sizeofEd)
      pure (.inl (index + 1))
    else pure (.inr ())

def ohciFreeFixedIntMemory (asserts : Bool) : Exec HcDev Unit :=
  Exec.serve (fun level => .loop 33 (freeFixedBody asserts level) 0) (List.range 6)

def ohciFreeIntTransferMemory (asserts : Bool) : Exec HcDev Unit := do
  ohciFreeDynamicIntMemory asserts
  ohciFreeFixedIntMemory asserts

/-! ## Building the interval tree -/

/-- `Leaf` of `OhciInitializeInterruptList`: the place in `HccaInterruptTable` of each leaf. -/
def leafOrder : List Nat :=
  [0, 16, 8, 24, 4, 20, 12, 28, 2, 18, 10, 26, 6, 22, 14, 30, 1, 17,
    9, 25, 5, 21, 13, 29, 3, 19, 11, 27, 7, 23, 15, 31]

def storeInterval (level index ed : Nat) : Exec HcDev Unit :=
  .modify fun s => { s with
    intervalList := Function.update s.intervalList level
      (Function.update (s.intervalList level) index ed) }

/-- The EDs that the controller starts from. `count` is how many are still to be created. -/
def createTable (asserts : Bool) (buffer : Nat → Option Nat) : Nat → Exec HcDev EfiStatus
  | 0 => pure .success
  | count + 1 => do
    let index := 31 - count
    let ed ← ohciCreateED asserts (buffer index)
    .modify fun s => { s with hccaInterruptTable := Function.update s.hccaInterruptTable index ed }
    if ed = 0 then pure .outOfResources else createTable asserts buffer count

/-- `IntervalList[Level][Index]`, and the links of the two EDs above it. -/
def createInterval (asserts : Bool) (buffer : Nat → Option Nat) (number level index : Nat) :
    Exec HcDev EfiStatus := do
  let ed ← ohciCreateED asserts (buffer number)
  storeInterval level index ed
  let s ← .get
  -- it is not the new ED that is tested
  if s.hccaInterruptTable index = 0 then pure .outOfResources
  else if s.intervalList (level - 1) (index * 2) = 0 ∨ s.intervalList (level - 1) (index * 2 + 1) = 0 then
    .halt .outOfBounds
  else do
    modifyEd (s.intervalList (level - 1) (index * 2)) fun e => { e with nextED := ed }
    modifyEd (s.intervalList (level - 1) (index * 2 + 1)) fun e => { e with nextED := ed }
    pure .success

def innerPlaces : List (Nat × Nat) :=
  [(1, 16), (2, 8), (3, 4), (4, 2), (5, 1)].flatMap fun p => (List.range p.2).map fun index => (p.1, index)

def createIntervals (asserts : Bool) (buffer : Nat → Option Nat) (number : Nat) :
    List (Nat × Nat) → Exec HcDev EfiStatus
  | [] => pure .success
  | p :: places => do
    let status ← createInterval asserts buffer number p.1 p.2
    if status.isError then pure status else createIntervals asserts buffer (number + 1) places

def ohciInitializeInterruptList (asserts : Bool) (buffer : Nat → Option Nat) : Exec HcDev EfiStatus := do
  let status ← createTable asserts buffer 32
  if status.isError then pure status
  else do
    .modify fun s => { s with
      intervalList := Function.update s.intervalList 0 fun index =>
        match leafOrder[index]? with
        | none => s.intervalList 0 index
        | some leaf => s.hccaInterruptTable leaf }
    createIntervals asserts buffer 32 innerPlaces

/-! ## `OhciReset` -/

/-- The attributes of a reset, and what it meets: whether the attributes are valid, whether the reset of
the host controller can be started and is over in time, whether the functional state can be written, and
what `PciIo->AllocateBuffer` comes to. -/
structure ResetRequest where
  attributesValid : Bool
  resetHostController : Bool
  resetStarted : Bool
  resetDone : Bool
  resetGlobal : Bool
  stateWritten : Bool
  buffer : Nat → Option Nat

/-- `OhciReset`, up to the register settings at its end, which leave the memory alone. -/
def ohciReset (asserts : Bool) (p : ResetRequest) : Exec HcDev EfiStatus :=
  if p.attributesValid = false then pure .invalidParameter
  else if p.resetHostController = true ∧ (p.resetStarted = false ∨ p.resetDone = false) then
    pure .deviceError
  else do
    ohciFreeIntTransferMemory asserts
    let status ← ohciInitializeInterruptList asserts p.buffer
    if p.resetGlobal = true ∧ p.stateWritten = false then pure .deviceError
    else do
      .modify fun s => { s with
        controlHead := 0
        bulkHead := 0
        periodicEnable := true
        controlEnable := true
        bulkEnable := true }
      -- the status of writing the functional state takes the place of the one of the interrupt list
      pure (if p.resetGlobal = true then .success else status)

def ResetRequest.reaches (p : ResetRequest) : Bool :=
  p.attributesValid = true ∧
    ¬ (p.resetHostController = true ∧ (p.resetStarted = false ∨ p.resetDone = false))

/-! ## What a reset is to give back -/

def places : List (Nat × Nat) := (List.range 32).map (fun index => (0, index)) ++ innerPlaces

def placeholders (s : HcDev) : List Nat := places.map fun p => s.intervalList p.1 p.2

/-- The places of the smallest levels that no level has and that the loops come to all the same. -/
def outerPlaces : List (Nat × Nat) := [(4, 2), (4, 3), (5, 1), (5, 2), (5, 3)]

structure ResetRound where
  between : HcDev → HcDev
  request : ResetRequest

def serveRound (asserts : Bool) (e : ResetRound) : Exec HcDev EfiStatus := do
  .modify e.between
  ohciReset asserts e.request

end Quark.Ohci.Transfer
