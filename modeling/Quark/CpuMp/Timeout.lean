import Mathlib.Algebra.Group.Int.Defs
import Mathlib.Algebra.Group.Nat.Defs
import Mathlib.Logic.Function.Basic

/-!
# Timeouts of the MP services

`MpService.c`: the timeout of `StartupAllAPs`, in the data of the MP system, and those of `StartupThisAP`, in the
data block of each processor. Every poll adds the ticks since the last one to a total.

Time is counted in ticks from some moment on; the performance counter shows it modulo its cycle.
-/

namespace Quark.CpuMp

/-! ## The performance counter -/

/-- `GetPerformanceCounterProperties`. The counter counts down where it starts above its end. -/
structure PerformanceCounter where
  startValue : Nat
  endValue : Nat
  frequency : Nat
  startValue_lt : startValue < 2 ^ 64
  endValue_lt : endValue < 2 ^ 64
  range_lt : startValue - endValue + (endValue - startValue) + 1 < 2 ^ 63

section
variable (counter : PerformanceCounter)

def PerformanceCounter.cycle : Nat :=
  counter.startValue - counter.endValue + (counter.endValue - counter.startValue) + 1

/-- `GetPerformanceCounter`, after some ticks. -/
def PerformanceCounter.value (ticks : Nat) : Nat :=
  if counter.endValue < counter.startValue then counter.startValue - ticks % counter.cycle
  else counter.startValue + ticks % counter.cycle

/-- A value as an `INT64`. -/
def int64 (x : Int) : Int := Int.bmod x (2 ^ 64)

/-! ## Timeouts -/

/-- The fields `CurrentTime`, `TotalTime` and `ExpectedTime`. -/
structure CallTimer where
  currentTime : Nat
  totalTime : Nat
  expectedTime : Nat
  deriving DecidableEq, Repr

/-- `ExpectedTime`. `MultU64x64` wraps. -/
def calculateTimeout (timeoutInMicroseconds : Nat) : Nat :=
  if timeoutInMicroseconds = 0 then 0
  else counter.frequency * timeoutInMicroseconds % 2 ^ 64 / 1000000

/-- `Cycle`, as `CheckTimeout` computes it. -/
def timeoutCycle : Int :=
  let cycle := int64 ((counter.endValue : Int) - counter.startValue)
  let cycle := if cycle < 0 then int64 (-cycle) else cycle
  int64 (cycle + 1)

/-- `Delta`. -/
def timeoutDelta (currentTime previousTime : Nat) : Int :=
  let delta := int64 ((currentTime : Int) - previousTime)
  let delta := if counter.startValue > counter.endValue then int64 (-delta) else delta
  if delta < 0 then int64 (delta + timeoutCycle counter) else delta

def checkTimeout (currentTime : Nat) (timer : CallTimer) : Bool × CallTimer :=
  if timer.expectedTime = 0 then (false, timer)
  else
    let totalTime := ((timer.totalTime + timeoutDelta counter currentTime timer.currentTime) % 2 ^ 64).toNat
    (timer.expectedTime < totalTime, { timer with currentTime := currentTime, totalTime := totalTime })

/-! ## Runs -/

/-- Who waits: `StartupAllAPs`, or `StartupThisAP` for a processor. -/
inductive Call where
  | allAPs
  | thisAP (processorNumber : Nat)
  deriving DecidableEq, Repr

inductive Status where
  | success
  | timeout
  | notReady
  deriving DecidableEq, Repr

/-- A call that has begun: when, with which timeout, and when it was last polled. -/
structure Running where
  begun : Nat
  timeoutInMicroseconds : Nat
  polled : Nat

structure MpSystemData where
  ticks : Nat
  timers : Call → CallTimer
  running : Call → Option Running

def MpSystemData.start : MpSystemData := ⟨0, fun _ => ⟨0, 0, 0⟩, fun _ => none⟩

inductive Action where
  /-- Time passes. -/
  | wait (ticks : Nat)
  /-- `StartupAllAPs` or `StartupThisAP`, up to its first poll. -/
  | startup (call : Call) (timeoutInMicroseconds : Nat)
  /-- `CheckAllAPs` or `CheckThisAP`, and whether the task is finished. -/
  | check (call : Call) (finished : Bool)
  deriving DecidableEq, Repr

/-- `TotalTime` is not touched. -/
def startup (call : Call) (timeoutInMicroseconds : Nat) (s : MpSystemData) : MpSystemData :=
  { s with
    timers := Function.update s.timers call
      { s.timers call with
        currentTime := counter.value s.ticks
        expectedTime := calculateTimeout counter timeoutInMicroseconds }
    running := Function.update s.running call (some ⟨s.ticks, timeoutInMicroseconds, s.ticks⟩) }

def check (call : Call) (finished : Bool) (s : MpSystemData) : Status × MpSystemData :=
  if finished then (.success, { s with running := Function.update s.running call none })
  else
    let (expired, timer) := checkTimeout counter (counter.value s.ticks) (s.timers call)
    let s := { s with timers := Function.update s.timers call timer }
    if expired then (.timeout, { s with running := Function.update s.running call none })
    else (.notReady, { s with
      running := Function.update s.running call ((s.running call).map fun r => { r with polled := s.ticks }) })

def step (action : Action) (s : MpSystemData) : MpSystemData :=
  match action with
  | .wait ticks => { s with ticks := s.ticks + ticks }
  | .startup call timeoutInMicroseconds => startup counter call timeoutInMicroseconds s
  | .check call finished => (check counter call finished s).2

/-- A call begins when none of its kind waits; a timeout is an `UINTN`. A call that waits is polled once per wrap. -/
def Allowed (s : MpSystemData) : Action → Prop
  | .wait _ => True
  | .startup call timeoutInMicroseconds => s.running call = none ∧ timeoutInMicroseconds < 2 ^ 32
  | .check call _ => ∃ r, s.running call = some r ∧ s.ticks - r.polled < counter.cycle

def RunAllowed : List Action → MpSystemData → Prop
  | [], _ => True
  | action :: run, s => Allowed counter s action ∧ RunAllowed run (step counter action s)

/-! ## Timeouts per call -/

def Running.Expired (r : Running) (ticks : Nat) : Prop :=
  r.timeoutInMicroseconds ≠ 0 ∧ counter.frequency * r.timeoutInMicroseconds < 1000000 * (ticks - r.begun)

/-- A poll of a call that is not finished reports a timeout if and only if the call has expired. -/
def Exact (s : MpSystemData) : Action → Prop
  | .check call false => ∀ r, s.running call = some r →
      ((check counter call false s).1 = .timeout ↔ r.Expired counter s.ticks)
  | _ => True

def RunExact : List Action → MpSystemData → Prop
  | [], _ => True
  | action :: run, s => Exact counter s action ∧ RunExact run (step counter action s)

/-- A call without a timeout, or one before which no time was counted, with a timeout of at least one tick whose
product with the frequency does not wrap. -/
def Fresh (s : MpSystemData) : Action → Prop
  | .startup call timeoutInMicroseconds => timeoutInMicroseconds = 0 ∨
      ((s.timers call).totalTime = 0 ∧ 1000000 ≤ counter.frequency * timeoutInMicroseconds ∧
        counter.frequency * timeoutInMicroseconds < 2 ^ 64)
  | _ => True

def RunFresh : List Action → MpSystemData → Prop
  | [], _ => True
  | action :: run, s => Fresh counter s action ∧ RunFresh run (step counter action s)

end

end Quark.CpuMp
