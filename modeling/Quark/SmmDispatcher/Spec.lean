import Quark.SmmDispatcher.Core

/-!
# QNC SMM dispatcher: what it is for

A child that registers gets its source enabled, and an SMI of the source reaches the child. An SMI is
pending as long as its source is active; the dispatcher may end that only by dispatching it.
-/

namespace Quark.SmmDispatcher

open Machine

/-! ## The database -/

/-- A record is as `QNCSmmCoreRegister` makes it: its source and its `ClearSource` are those of its context,
and the context is one that registration takes. -/
def RecordOk (r : DatabaseRecord) : Prop :=
  match r.childContext with
  | .sx _ _ => r.srcDesc = sxSourceDesc ∧ r.clearSource = none
  | .sw value => r.srcDesc = swSourceDesc ∧ r.clearSource = none ∧ value ≤ maximumSwiValue
  | .gpi _ => r.srcDesc = gpiSourceDesc ∧ r.clearSource = none
  | .qncn type => r.srcDesc = qncnSourceDescs type.toNat ∧ r.clearSource = some .qncn
  | .periodicTimer period tick =>
    r.srcDesc = timerSourceDesc ∧ r.clearSource = some .periodicTimer ∧
      (contextToTimerInterval period tick).isSome
  | .powerButton _ => False

/-! ## Registration -/

def DatabaseRecord.swValue? (r : DatabaseRecord) : Option Nat :=
  match r.childContext with
  | .sw value => some value
  | _ => none

def swValues (db : List DatabaseRecord) : List Nat := db.filterMap DatabaseRecord.swValue?

def Uses (db : List DatabaseRecord) (d : BitDesc) : Prop := ∃ r ∈ db, d ∈ r.srcDesc.enables

def EnablesMatch (s : State) : Prop :=
  ∀ src ∈ sourceDescs, ∀ d ∈ src.enables, readBitDesc s.hw d = true ↔ Uses s.db d

/-- The registry of children: what registration promises, and what it rests on. -/
structure Registry (s : State) : Prop where
  recordOk : ∀ r ∈ s.db, RecordOk r
  handle_lt : ∀ r ∈ s.db, r.handle < s.nextHandle
  handle_nodup : (s.db.map (·.handle)).Nodup
  sw_nodup : (swValues s.db).Nodup
  sw_le : ∀ v ∈ swValues s.db, v ≤ maximumSwiValue
  enables : EnablesMatch s

inductive Request where
  | register (req : Registration)
  | unRegister (dispatchHandle : Nat)
  deriving DecidableEq, Repr

/-- One call of the protocols: the status, and `*RegisterContext` where there is one. -/
def serveRequest (assertEnabled : Bool) : Request → Exec State (EfiStatus × Option Context)
  | .register req => do
    let r ← qncSmmCoreRegister assertEnabled req
    pure (r.1, some r.2)
  | .unRegister handle => do
    let st ← qncSmmCoreUnRegister handle
    pure (st, none)

def Request.Automatic : Request → Prop
  | .register req => req.nullArgument = false ∧ req.allocated = true ∧ req.context = .sw anySwiValue
  | .unRegister _ => False

/-- `1 ..= MAXIMUM_SWI_VALUE`, and not the value of a registered record. -/
def FreeValue (s : State) (v : Nat) : Prop := 1 ≤ v ∧ v ≤ maximumSwiValue ∧ v ∉ swValues s.db

/-- What a call promises: a rejected one changes nothing, and an automatic request gets a free value when
there is one. -/
def CallSound (assertEnabled : Bool) (q : Request) (s : State) : Prop :=
  ∀ st context s', serveRequest assertEnabled q s = .ret (st, context) s' →
    (st.isError = true → s'.db = s.db ∧ s'.hw = s.hw) ∧
    (q.Automatic → (∃ v, FreeValue s v) → st = .success ∧ ∃ v, FreeValue s v ∧ context = some (.sw v))

/-- An automatic request is not made when `MAXIMUM_SWI_VALUE` alone is free. -/
def NotLastValue (q : Request) (s : State) : Prop :=
  q.Automatic → (∃ v, FreeValue s v) → ∃ v, FreeValue s v ∧ v < maximumSwiValue

/-! ## Pending sources -/

def Pending (s : State) (src : SourceDesc) : Prop := sourceIsActive s.hw src = true

/-- The dispatcher took up the source, and called the children registered for it whose context matches. -/
def Dispatched (s : State) (events : List Event) (src : SourceDesc) : Prop :=
  (∃ a, Event.active a ∈ events ∧ compareSources a src = true) ∧
    ∀ r ∈ s.db, compareSources r.srcDesc src = true → (contextsMatch s.hw r).1 = true →
      ∃ elapsed, Event.call r.handle r.callback r.childContext elapsed ∈ events

/-- From `s` to `s'` no pending SMI is lost: a source that is not dispatched is still pending. -/
def NoSmiLost (s s' : State) : Prop :=
  ∃ events, s'.log = s.log ++ events ∧
    ∀ src ∈ sourceDescs, Pending s src → Pending s' src ∨ Dispatched s events src

/-- The source has its status bit in `SMIS`. -/
def InSmis (src : SourceDesc) : Prop := ∃ bit, src.sts = some ⟨.gpe, smis, .dword, bit⟩

def firstActive (s : State) : Option DatabaseRecord :=
  s.db.find? fun r => sourceIsActive s.hw r.srcDesc

/-- No child is registered, or what is pending in `SMIS` is the source of the first active record alone. -/
def SmisServed (s : State) : Prop :=
  s.db = [] ∨ ∀ src ∈ sourceDescs, InSmis src → Pending s src →
    ∃ r, firstActive s = some r ∧ compareSources r.srcDesc src = true

/-! ## QNC SMM dispatcher: periodic timers in time

The periodic timer raises an SMI each time the interval selected by `PMCW[2:0]` has passed. Here the
dispatcher runs next to a clock, which says for each child how much time has really passed since it was last
called, or since it registered.
-/

/-- The rate field of `PMCW`. -/
def rateField (hw : Hw) : BitVec 32 := hw.reg .gpe pmcw &&& 0x7

/-- The interval that `PMCW` selects. -/
def programmedInterval (hw : Hw) : Nat := smmPeriodicTimerIntervals.getD (rateField hw).toNat 0

/-- `SmiTickInterval` of a child of the periodic timer. -/
def DatabaseRecord.tick? (r : DatabaseRecord) : Option Nat :=
  match r.childContext with
  | .periodicTimer _ tick => some tick
  | _ => none

def ticks (db : List DatabaseRecord) : List Nat := db.filterMap DatabaseRecord.tick?

/-- The code in `PMCW[2:0]` of the least of some intervals, zero where there are none. -/
def leastCode (ticks : List Nat) : BitVec 32 :=
  match ticks.min? with
  | none => 0
  | some tick => BitVec.ofNat 32 (smmPeriodicTimerIntervals.idxOf tick)

/-- The dispatcher, and the real time since the last call of each child, by handle. -/
structure Timed where
  dispatcher : State
  real : Nat → Nat

def onDispatcher {α : Type} (x : Exec State α) : Exec Timed α := fun s =>
  match x s.dispatcher with
  | .ret a t => .ret a { s with dispatcher := t }
  | .stop w t => .stop w { s with dispatcher := t }

inductive TimerOp where
  /-- A child registers for the periodic timer. -/
  | register (callback period smiTickInterval : Nat)
  | unRegister (dispatchHandle : Nat)
  /-- The programmed interval has passed. -/
  | timerSmi
  deriving DecidableEq, Repr

def isCallOf (handle : Nat) : Event → Bool
  | .call h _ _ _ => h = handle
  | .active _ => false

def Hw.raiseTimer (hw : Hw) : Hw :=
  { hw with reg := fun t a => if t = .gpe ∧ a = smis then hw.reg t a ||| 0x2 else hw.reg t a }

def Timed.tick (s : Timed) : Timed where
  dispatcher := { s.dispatcher with hw := s.dispatcher.hw.raiseTimer }
  real handle := s.real handle + programmedInterval s.dispatcher.hw

def Timed.restart (s : Timed) (events : List Event) : Timed where
  dispatcher := s.dispatcher
  real handle := if events.any (isCallOf handle) then 0 else s.real handle

def timedStep (assertEnabled : Bool) : TimerOp → Exec Timed Unit
  | .register callback period tick => do
    Exec.modify fun s =>
      { s with real := Function.update s.real s.dispatcher.nextHandle 0 }
    let _ ← onDispatcher (qncSmmCoreRegister assertEnabled
      ⟨false, true, callback, .periodicTimer period tick⟩)
    pure ()
  | .unRegister handle => do
    let _ ← onDispatcher (qncSmmCoreUnRegister handle)
    pure ()
  | .timerSmi => do
    let before ← Exec.get
    Exec.modify Timed.tick
    let _ ← onDispatcher (qncSmmCoreDispatcher assertEnabled)
    Exec.modify fun s => s.restart (s.dispatcher.log.drop before.dispatcher.log.length)

/-- `PMCW` selects the least interval that a registered child asked for. -/
def RateIsLeast (s : State) : Prop :=
  ticks s.db ≠ [] →
    smmPeriodicTimerIntervals[(rateField s.hw).toNat]? = (ticks s.db).min?

/-- At a timer SMI the elapsed time of a child is the real time since its last call, and it is called if its
period has passed, and only then. -/
def ChildTimed (s s' : Timed) (r : DatabaseRecord) : Prop :=
  let events := s'.dispatcher.log.drop s.dispatcher.log.length
  let real := s.real r.handle + programmedInterval s.dispatcher.hw
  ∀ period tick, r.childContext = .periodicTimer period tick →
    (period ≤ real → Event.call r.handle r.callback r.childContext real ∈ events) ∧
    (real < period → events.any (isCallOf r.handle) = false ∧
      ∃ r' ∈ s'.dispatcher.db, r'.handle = r.handle ∧ r'.elapsedTime = real)

def TimingSound (assertEnabled : Bool) (op : TimerOp) (s : Timed) : Prop :=
  ∀ s', timedStep assertEnabled op s = .ret () s' →
    match op with
    | .register _ _ _ => RateIsLeast s'.dispatcher
    | .unRegister _ => True
    | .timerSmi => RateIsLeast s'.dispatcher ∧ ∀ r ∈ s.dispatcher.db, ChildTimed s s' r

def TimerOp.Supported : TimerOp → Prop
  | .register _ _ tick => tick ∈ smmPeriodicTimerIntervals
  | _ => True

/-- When a step gets its timing right: a registration meets a rate field, and a code of the least interval
so far, with no bit outside the code of the new least interval; a timer SMI meets children that all asked for
the programmed interval, with periods that the elapsed time reaches before it wraps. -/
def RateFits (op : TimerOp) (s : Timed) : Prop :=
  match op with
  | .register _ _ tick =>
    (rateField s.dispatcher.hw ||| leastCode (ticks s.dispatcher.db)) &&&
      ~~~leastCode (ticks s.dispatcher.db ++ [tick]) = 0
  | .unRegister _ => True
  | .timerSmi => ∀ r ∈ s.dispatcher.db, ∀ period tick, r.childContext = .periodicTimer period tick →
      tick = programmedInterval s.dispatcher.hw ∧ period ≤ (2 ^ 64 - 1) / tick * tick

end Quark.SmmDispatcher
