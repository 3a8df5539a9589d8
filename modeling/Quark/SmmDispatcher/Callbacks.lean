import Quark.Machine.EditedList
import Quark.SmmDispatcher.Spec

/-!
# QNC SMM dispatcher: callbacks that change the database

`QNCSmmCoreDispatcher` with callbacks that call the protocols and change the hardware. A record that is not
in the database was freed, and no handle is given twice, so that an access to a record whose handle is not in
the database is a use after `FreePool`.
-/

namespace Quark.SmmDispatcher

open Machine

/-- What a callback does: calls of the protocols, one after the other, and a change of the hardware. -/
structure Effect where
  requests : List Request
  hw : Hw → Hw

/-- The behaviour of the callbacks. It may depend on the record and on all of the state. -/
abbrev Callbacks := DatabaseRecord → State → Effect

def recordAt (handle : Nat) : Exec State DatabaseRecord := do
  let s ← Exec.get
  match s.db.find? (·.handle = handle) with
  | none => Exec.halt .outOfBounds
  | some r => pure r

def handles (s : State) : List Nat := s.db.map (·.handle)

def getNextNode (handle : Nat) : Exec State (Option Nat) := do
  let _ ← recordAt handle
  let s ← Exec.get
  pure (next? (handles s) handle)

def withElapsed (handle elapsedTime : Nat) (r : DatabaseRecord) : DatabaseRecord :=
  if r.handle = handle then { r with elapsedTime := elapsedTime } else r

/-- The store of `GetContext` into a record: no more than its elapsed time. -/
def storeElapsed (r : DatabaseRecord) (s : State) : State :=
  { s with db := s.db.map (withElapsed r.handle r.elapsedTime) }

def entered (r : DatabaseRecord) (s : State) : State :=
  { storeElapsed r s with log := s.log ++ [.call r.handle r.callback r.childContext r.elapsedTime] }

/-- The call of `Callback`. -/
def callChild (assertEnabled : Bool) (callbacks : Callbacks) (r : DatabaseRecord) : Exec State Unit := do
  Exec.modify (entered r)
  let s ← Exec.get
  Exec.serve (serveRequest assertEnabled) (callbacks r s).requests
  Exec.modify fun t => { t with hw := (callbacks r s).hw t.hw }

/-- A record of the active source that the dispatcher came to, and the hardware at that moment. -/
structure Turn where
  record : DatabaseRecord
  hw : Hw

def Turn.matched (turn : Turn) : Bool := (contextsMatch turn.hw turn.record).1

/-- The locals of the loop that exhausts the queue. `turns` lists the records of the source that it came
to. -/
structure Exhausting where
  linkToExhaust : Option Nat
  childWasDispatched : Bool
  sxChildWasDispatched : Bool
  turns : List Turn

def dispatchRecord (assertEnabled : Bool) (callbacks : Callbacks) (r : DatabaseRecord) (l : Exhausting) :
    Exec State Exhausting := do
  let s ← Exec.get
  let m := contextsMatch s.hw r
  let l := { l with turns := l.turns ++ [⟨r, s.hw⟩] }
  if m.1 then do
    callChild assertEnabled callbacks m.2
    -- the test of ProtocolType after the callback
    let r ← recordAt r.handle
    pure { l with
      childWasDispatched := true
      sxChildWasDispatched := l.sxChildWasDispatched || r.childContext.isSx }
  else do
    Exec.modify (storeElapsed m.2)
    pure l

/-- One round of the loop over `LinkToExhaust`. -/
def exhaustStep (assertEnabled : Bool) (callbacks : Callbacks) (activeSource : SourceDesc)
    (l : Exhausting) : Exec State (Exhausting ⊕ Exhausting) :=
  match l.linkToExhaust with
  | none => pure (.inr l)
  | some link => do
    let r ← recordAt link
    let l ←
      if compareSources r.srcDesc activeSource then dispatchRecord assertEnabled callbacks r l else pure l
    let next ← getNextNode link
    pure (.inl { l with linkToExhaust := next })

/-- `RecordInDb` has an active source: its queue is exhausted, and the source cleared. -/
def serveSource (assertEnabled : Bool) (callbacks : Callbacks) (fuel : Nat) (l : Locals)
    (recordInDb : DatabaseRecord) : Exec State (Locals × List Turn) := do
  let activeSource := recordInDb.srcDesc
  Exec.modify fun s => { s with log := s.log ++ [.active activeSource] }
  let e ← Exec.loop fuel (exhaustStep assertEnabled callbacks activeSource)
    ⟨some recordInDb.handle, l.childWasDispatched,
      l.sxChildWasDispatched || recordInDb.childContext.isSx, []⟩
  let recordInDb ← recordAt recordInDb.handle
  clearSourceOf assertEnabled recordInDb.clearSource activeSource
  pure (⟨e.sxChildWasDispatched, e.childWasDispatched,
    if e.childWasDispatched then .success else .interruptSourceQuiesced⟩, e.turns)

def searchWith (assertEnabled : Bool) (callbacks : Callbacks) (fuel : Nat) (l : Locals) :
    Exec State (Locals × List Turn) := do
  let s ← Exec.get
  match firstActive s with
  | none => pure (l, [])
  | some recordInDb => serveSource assertEnabled callbacks fuel l recordInDb

/-- `while ((!EosSet) && (EscapeCount > 0))`. -/
def dispatchLoopWith (assertEnabled : Bool) (callbacks : Callbacks) (fuel : Nat) :
    Nat → Locals → List Turn → Exec State (Nat × Locals × List Turn)
  | 0, l, turns => pure (0, l, turns)
  | escapeCount + 1, l, turns => do
    let r ← searchWith assertEnabled callbacks fuel l
    let s ← Exec.get
    let (eosSet, hw) := qncSmmSetAndCheckEos s.hw
    Exec.modify fun s => { s with hw := hw }
    if eosSet then pure (escapeCount, r.1, turns ++ r.2)
    else dispatchLoopWith assertEnabled callbacks fuel escapeCount r.1 (turns ++ r.2)

/-- `QNCSmmCoreDispatcher`: its status, and the turns of the records. Loops are followed for `fuel`
rounds. -/
def dispatcherWith (assertEnabled : Bool) (callbacks : Callbacks) (fuel : Nat) :
    Exec State (DispatchStatus × List Turn) := do
  let s ← Exec.get
  let l : Locals := ⟨false, false, .interruptSourcePending⟩
  let r ←
    if s.db.isEmpty then pure (100, l, []) else dispatchLoopWith assertEnabled callbacks fuel 100 l []
  assert assertEnabled (r.1 > 0)
  Exec.when (r.2.1.sxChildWasDispatched = true)
    (Exec.modify fun s => { s with hw := qncSmmSxGoToSleep s.hw })
  pure (r.2.1.status, r.2.2)

/-! ## What dispatching promises -/

structure Handles (s : State) : Prop where
  lt : ∀ h ∈ handles s, h < s.nextHandle
  nodup : (handles s).Nodup

def Event.calls (handle : Nat) : Event → Bool
  | .call h _ _ _ => h = handle
  | .active _ => false

/-- The child has one turn, in which it is called once if its context matches, and not at all if not. -/
def DispatchedOnce (turns : List Turn) (events : List Event) (r : DatabaseRecord) : Prop :=
  ∃ turn elapsed, turns.filter (fun turn => turn.record.handle = r.handle) = [turn] ∧
    turn.record = { r with elapsedTime := elapsed } ∧
    events.countP (Event.calls r.handle) = if turn.matched then 1 else 0

/-- No freed record is used, and every child of the active source that stays registered is dispatched
once. -/
structure Robust (assertEnabled : Bool) (callbacks : Callbacks) (s : State) : Prop where
  noFreed : ∀ fuel t, dispatcherWith assertEnabled callbacks fuel s ≠ .stop .outOfBounds t
  once : ∀ fuel st turns t, dispatcherWith assertEnabled callbacks fuel s = .ret (st, turns) t →
    ∃ events, t.log = s.log ++ events ∧ ∀ a, firstActive s = some a → ∀ r ∈ s.db,
      compareSources r.srcDesc a.srcDesc = true → r.handle ∈ handles t → DispatchedOnce turns events r

/-- The callback that a round makes, if it makes one, unregisters neither its own record nor the one that the
source was found in. -/
def RoundSpares (callbacks : Callbacks) (recordInDb : DatabaseRecord) (l : Exhausting) (t : State) : Prop :=
  ∀ link r, l.linkToExhaust = some link → t.db.find? (·.handle = link) = some r →
    compareSources r.srcDesc recordInDb.srcDesc = true → (contextsMatch t.hw r).1 = true →
    ∀ h, h = link ∨ h = recordInDb.handle →
      Request.unRegister h ∉
        (callbacks (contextsMatch t.hw r).2 (entered (contextsMatch t.hw r).2 t)).requests

def CallsSpare (assertEnabled : Bool) (callbacks : Callbacks) (s : State) : Prop :=
  ∀ a, firstActive s = some a → ∀ l t,
    Exec.Visits (exhaustStep assertEnabled callbacks a.srcDesc)
      (⟨some a.handle, false, a.childContext.isSx, []⟩, { s with log := s.log ++ [.active a.srcDesc] })
      (l, t) → RoundSpares callbacks a l t

end Quark.SmmDispatcher
