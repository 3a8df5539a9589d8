import Quark.Base.Efi
import Quark.SmmDispatcher.Source

/-!
# QNC SMM dispatcher: children

`QNCSmmCore.c` with the protocols of `QNCSmmSx.c`, `QNCSmmSw.c`, `QNCSmmGpi.c`, `QNCSmmQncn.c` and
`QNCSmmPeriodicTimer.c`: registration of children, and the dispatcher that an SMI enters.

The callback database is a list, in the order of its links; the handle of a child stands for the address of
its record. Callbacks are recorded, and taken to leave the database and the hardware alone. The CPU index
that `SwGetBuffer` looks up for a child is left out.
-/

namespace Quark.SmmDispatcher

open Machine

/-! ## Data -/

/-- `QNC_SMM_CONTEXT` of a protocol. `PowerButton` has no children in this chipset. -/
inductive Context where
  | sx (type phase : Int)
  | sw (swSmiInputValue : Nat)
  | gpi (gpiNum : Nat)
  | qncn (type : Int)
  | powerButton (phase : Int)
  | periodicTimer (period smiTickInterval : Nat)
  deriving DecidableEq, Repr

/-- Is `ProtocolType` `SxType`? -/
def Context.isSx : Context → Bool
  | .sx _ _ => true
  | _ => false

/-- The `ClearSource` of a record that does not use the default. -/
inductive ClearSourceFn where
  | qncn
  | periodicTimer
  deriving DecidableEq, Repr

/-- `DATABASE_RECORD`. The type of the protocol is that of the context. -/
structure DatabaseRecord where
  handle : Nat
  srcDesc : SourceDesc
  callback : Nat
  childContext : Context
  elapsedTime : Nat
  clearSource : Option ClearSourceFn
  deriving DecidableEq, Repr

structure TimerInfo where
  numChildren : Nat
  minReqInterval : Nat
  currentSetting : Nat
  deriving DecidableEq, Repr

/-- What the dispatcher does to children: it takes up an active source, and calls the children of it. -/
inductive Event where
  | active (src : SourceDesc)
  | call (handle callback : Nat) (context : Context) (elapsedTime : Nat)
  deriving DecidableEq, Repr

def Event.isSxCall : Event → Bool
  | .call _ _ context _ => context.isSx
  | .active _ => false

structure State where
  db : List DatabaseRecord
  hw : Hw
  timer : TimerInfo
  nextHandle : Nat
  log : List Event

/-! ## Periodic timer -/

/-- The intervals of the chipset in units of 100 ns, by their code in `PMCW[2:0]`. -/
def smmPeriodicTimerIntervals : List Nat :=
  [15000, 160000, 320000, 640000, 80000000, 160000000, 320000000, 640000000]

def contextToTimerInterval (period smiTickInterval : Nat) : Option Nat :=
  smmPeriodicTimerIntervals.find? fun interval =>
    (smiTickInterval = 0 ∧ period ≥ interval) ∨ smiTickInterval = interval

/-- The first loop of `QNCSmmPeriodicTimerProgramTimers`: the count of children and the least of their
intervals. -/
def scanTimers : List DatabaseRecord → Nat × Nat
  | [] => (0, 2 ^ 64 - 1)
  | r :: rs =>
    match r.childContext with
    | .periodicTimer period tick =>
      match contextToTimerInterval period tick with
      | some _ => ((scanTimers rs).1 + 1, min tick (scanTimers rs).2)
      | none => scanTimers rs
    | _ => scanTimers rs

/-- The `switch` over `MinReqInterval`: the code of the interval. -/
def selectRate (assertEnabled : Bool) (minReqInterval : Nat) : Exec State (BitVec 32) :=
  match smmPeriodicTimerIntervals.idxOf? minReqInterval with
  | some index => do
    Exec.modify fun s => { s with timer := { s.timer with currentSetting := index } }
    pure (BitVec.ofNat 32 index)
  | none => do
    assert assertEnabled False
    pure 0

/-- The rate is merged into `PMCW`, and the timer restarted by clearing its SMI. -/
def startTimer (gpePmcwValue : BitVec 32) : Exec State Unit :=
  Exec.modify fun s =>
    let hw := s.hw.ioOr .gpe pmcw .dword (gpePmcwValue ||| pmcwPse)
    { s with hw := qncSmmClearSource hw timerSourceDesc }

def qncSmmPeriodicTimerProgramTimers (assertEnabled : Bool) : Exec State Unit := do
  let s ← Exec.get
  let (numChildren, minReqInterval) := scanTimers s.db
  Exec.modify fun s => { s with timer :=
    { s.timer with numChildren := numChildren, minReqInterval := minReqInterval } }
  if numChildren > 0 then do
    let gpePmcwValue ← selectRate assertEnabled minReqInterval
    startTimer gpePmcwValue
  else
    Exec.modify fun s => { s with hw := qncSmmDisableSource s.hw timerSourceDesc }

/-- The second loop of `QNCSmmPeriodicTimerClearSource`: a child that was called starts over. -/
def resetElapsed (r : DatabaseRecord) : DatabaseRecord :=
  match r.childContext with
  | .periodicTimer period _ => if r.elapsedTime ≥ period then { r with elapsedTime := 0 } else r
  | _ => r

def qncSmmPeriodicTimerClearSource (assertEnabled : Bool) : Exec State Unit := do
  qncSmmPeriodicTimerProgramTimers assertEnabled
  Exec.modify fun s => { s with db := s.db.map resetElapsed }

/-- The call of `ClearSource`, or of `QNCSmmClearSource` where a record has none. -/
def clearSourceOf (assertEnabled : Bool) (fn : Option ClearSourceFn) (src : SourceDesc) :
    Exec State Unit :=
  match fn with
  | some .periodicTimer => qncSmmPeriodicTimerClearSource assertEnabled
  | _ => Exec.modify fun s => { s with hw := qncSmmClearSource s.hw src }

/-! ## Registration -/

abbrev maximumSwiValue : Nat := 0xFF

/-- `(UINTN) -1`. -/
abbrev anySwiValue : Nat := 2 ^ 32 - 1

/-- `SmiInputValueDuplicateCheck`: is the value free? -/
def smiInputValueDuplicateCheck (db : List DatabaseRecord) (value : Nat) : EfiStatus :=
  if db.any fun r => r.childContext = .sw value then .invalidParameter else .success

/-- The first value that the loop over `Index` finds free. -/
def freeSwiValue (db : List DatabaseRecord) : Option Nat :=
  (List.range' 1 (maximumSwiValue - 1)).find? fun index =>
    smiInputValueDuplicateCheck db index = .success

/-- A call of `QNCSmmCoreRegister`: whether an argument is `NULL`, whether there is memory for a record, the
callback, and the context, which says what protocol it goes through. -/
structure Registration where
  nullArgument : Bool
  allocated : Bool
  callback : Nat
  context : Context
  deriving DecidableEq, Repr

/-- What `QNCSmmCoreRegister` gives back: its status, and `*RegisterContext`. -/
abbrev Registered := EfiStatus × Context

/-- `InsertTailList` and what follows the `switch`: the source is cleared and enabled. -/
def insertRecord (assertEnabled : Bool) (record : DatabaseRecord) : Exec State Unit := do
  Exec.modify fun s => { s with db := s.db ++ [record], nextHandle := s.nextHandle + 1 }
  clearSourceOf assertEnabled record.clearSource record.srcDesc
  Exec.modify fun s => { s with hw := qncSmmEnableSource s.hw record.srcDesc }

/-- The `SwType` case once the input value is known. -/
def registerSw (assertEnabled : Bool) (callback value : Nat) : Exec State Registered := do
  let s ← Exec.get
  if value > maximumSwiValue then pure (.invalidParameter, .sw value)
  else if (smiInputValueDuplicateCheck s.db value).isError then pure (.invalidParameter, .sw value)
  else
    insertRecord assertEnabled ⟨s.nextHandle, swSourceDesc, callback, .sw value, 0, none⟩
    pure (.success, .sw value)

def qncSmmCoreRegister (assertEnabled : Bool) (req : Registration) : Exec State Registered := do
  if req.nullArgument then pure (.invalidParameter, req.context)
  else if ¬ req.allocated then pure (.outOfResources, req.context)
  else
    let s ← Exec.get
    match req.context with
    | .sx type phase =>
      if type < 0 ∨ type ≥ 6 ∨ phase < 0 ∨ phase ≥ 2 then pure (.invalidParameter, req.context)
      else
        insertRecord assertEnabled ⟨s.nextHandle, sxSourceDesc, req.callback, req.context, 0, none⟩
        pure (.success, req.context)
    | .sw value =>
      match (if value = anySwiValue then freeSwiValue s.db else some value) with
      | none => pure (.outOfResources, req.context)
      | some value => registerSw assertEnabled req.callback value
    | .gpi _ =>
      insertRecord assertEnabled ⟨s.nextHandle, gpiSourceDesc, req.callback, req.context, 0, none⟩
      pure (.success, req.context)
    | .qncn type =>
      if type < 0 ∨ type ≥ numIchnTypes then pure (.invalidParameter, req.context)
      else
        insertRecord assertEnabled
          ⟨s.nextHandle, qncnSourceDescs type.toNat, req.callback, req.context, 0, some .qncn⟩
        pure (.success, req.context)
    | .periodicTimer period tick =>
      match contextToTimerInterval period tick with
      | none => pure (.invalidParameter, req.context)
      | some _ =>
        -- MapPeriodicTimerToSrcDesc programs the timers before the record is in the database
        qncSmmPeriodicTimerProgramTimers assertEnabled
        insertRecord assertEnabled
          ⟨s.nextHandle, timerSourceDesc, req.callback, req.context, 0, some .periodicTimer⟩
        pure (.success, req.context)
    | .powerButton _ => pure (.invalidParameter, req.context)

/-- `QNCSmmCoreUnRegister`. A handle that is no record's fails the test of the signature. -/
def qncSmmCoreUnRegister (dispatchHandle : Nat) : Exec State EfiStatus := do
  let s ← Exec.get
  match s.db.find? (·.handle = dispatchHandle) with
  | none => pure .invalidParameter
  | some record =>
    Exec.modify fun s => { s with db := s.db.filter (·.handle ≠ dispatchHandle) }
    let s ← Exec.get
    let safeToDisable := s.db.all fun r => !compareEnables record.srcDesc r.srcDesc
    Exec.when (safeToDisable = true) (Exec.modify fun s =>
      { s with hw := qncSmmDisableSource s.hw record.srcDesc })
    pure .success

/-! ## Dispatching -/

/-- `SxGetContext`: the sleep type that `PM1C` asks for. -/
def sxGetContext (hw : Hw) : Option Int :=
  match (hw.ioRead .acpi pm1c .dword &&& pm1cSlptp).toNat with
  | 0x0000 => some 0
  | 0x1400 => some 3
  | 0x1800 => some 4
  | 0x1C00 => some 5
  | _ => none

/-- `GetContext` and `CmpContext` of a record: whether the child is to be called, and the record as
`PeriodicTimerGetContext` leaves it. An `SLP_TYP` that is no sleep state matches no child. -/
def contextsMatch (hw : Hw) (r : DatabaseRecord) : Bool × DatabaseRecord :=
  match r.childContext with
  | .sx type _ => (sxGetContext hw = some type, r)
  | .sw value => (hw.apmCnt.toNat = value, r)
  | .periodicTimer period tick =>
    let r := match contextToTimerInterval period tick with
      | some interval => { r with elapsedTime := (r.elapsedTime + interval) % 2 ^ 64 }
      | none => r
    (r.elapsedTime ≥ period, r)
  | _ => (true, r)

def exhaust (hw : Hw) (activeSource : SourceDesc) :
    List DatabaseRecord → List DatabaseRecord × List Event
  | [] => ([], [])
  | r :: rs =>
    let rest := exhaust hw activeSource rs
    if compareSources r.srcDesc activeSource then
      let (matches?, r) := contextsMatch hw r
      (r :: rest.1, if matches? then .call r.handle r.callback r.childContext r.elapsedTime :: rest.2
        else rest.2)
    else (r :: rest.1, rest.2)

inductive DispatchStatus where
  | success
  | interruptSourcePending
  | interruptSourceQuiesced
  deriving DecidableEq, Repr

/-- The locals of `QNCSmmCoreDispatcher` that outlive a pass. -/
structure Locals where
  sxChildWasDispatched : Bool
  childWasDispatched : Bool
  status : DispatchStatus
  deriving DecidableEq, Repr

/-- The search for the first active source, and its dispatch. `LinkInDb` stands at `suffix`. -/
def searchPass (assertEnabled : Bool) (l : Locals) :
    List DatabaseRecord → List DatabaseRecord → Exec State Locals
  | _, [] => pure l
  | before, r :: suffix => do
    let s ← Exec.get
    if ¬ sourceIsActive s.hw r.srcDesc then searchPass assertEnabled l (before ++ [r]) suffix
    else
      let done := exhaust s.hw r.srcDesc (r :: suffix)
      Exec.modify fun s =>
        { s with db := before ++ done.1, log := s.log ++ .active r.srcDesc :: done.2 }
      clearSourceOf assertEnabled r.clearSource r.srcDesc
      let childWasDispatched := l.childWasDispatched || !done.2.isEmpty
      pure ⟨l.sxChildWasDispatched || r.childContext.isSx || done.2.any Event.isSxCall,
        childWasDispatched, if childWasDispatched then .success else .interruptSourceQuiesced⟩

/-- `while ((!EosSet) && (EscapeCount > 0))`, with the `EscapeCount` it ends with. -/
def dispatchLoop (assertEnabled : Bool) : Nat → Locals → Exec State (Nat × Locals)
  | 0, l => pure (0, l)
  | escapeCount + 1, l => do
    let s ← Exec.get
    let l ← searchPass assertEnabled l [] s.db
    let s ← Exec.get
    let (eosSet, hw) := qncSmmSetAndCheckEos s.hw
    Exec.modify fun s => { s with hw := hw }
    if eosSet then pure (escapeCount, l) else dispatchLoop assertEnabled escapeCount l

/-- `QNCSmmSxGoToSleep`, for a sleep state that the processor comes back from. -/
def qncSmmSxGoToSleep (hw : Hw) : Hw :=
  let hw := qncSmmDisableSource (qncSmmClearSource hw sxSourceDesc) sxSourceDesc
  let hw := hw.ioAnd .gpe smie .word (~~~0x4)
  let hw := hw.ioAnd .gpe smis .word 4
  let hw := hw.ioOr .acpi pm1c .dword pm1cSlpen
  let pm1Cnt := hw.ioRead .acpi pm1c .dword
  let hw := if pm1Cnt &&& pm1cScien = 0 then hw.ioWrite .acpi pm1c .dword (pm1Cnt &&& ~~~pm1cSlptp)
    else hw
  qncSmmEnableSource (qncSmmClearSource hw sxSourceDesc) sxSourceDesc

def dispatchChildren (assertEnabled : Bool) : Exec State (Nat × Locals) := do
  let s ← Exec.get
  let l : Locals := ⟨false, false, .interruptSourcePending⟩
  if s.db.isEmpty then pure (100, l) else dispatchLoop assertEnabled 100 l

def qncSmmCoreDispatcher (assertEnabled : Bool) : Exec State DispatchStatus := do
  let r ← dispatchChildren assertEnabled
  assert assertEnabled (r.1 > 0)
  Exec.when (r.2.sxChildWasDispatched = true)
    (Exec.modify fun s => { s with hw := qncSmmSxGoToSleep s.hw })
  pure r.2.status

end Quark.SmmDispatcher
