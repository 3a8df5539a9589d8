import Quark.Base.Efi
import Mathlib.Logic.Function.Basic

/-!
# SMM CPU service

`CpuService.c`: processors that are added, removed or to become the BSP while an SMI is handled. Each request is noted
as the pending operation of a slot, and `SmmCpuUpdate` applies what is pending when the handlers are done.

A slot is an index below `mMaxNumberOfCpus`. `UINTN` has 32 bits.
-/

namespace Quark.PiSmmCpu

open Machine

inductive CpuOperation where
  | none
  | add
  | remove
  | switchBsp
  deriving DecidableEq, Repr

abbrev invalidApicId : BitVec 64 := 0xFFFFFFFFFFFFFFFF

structure CpuList where
  processorId : Nat → BitVec 64
  operation : Nat → CpuOperation
  /-- `mCpuHotPlugData.ApicId`. -/
  apicId : Nat → BitVec 64
  mNumberOfCpus : BitVec 32
  currentlyExecutingCpu : Nat
  switchBsp : Bool
  candidateBsp : Nat → Bool

/-- `PcdCpuHotPlugSupport`, and the number of slots. -/
structure CpuConfig where
  hotPlugSupport : Bool
  mMaxNumberOfCpus : BitVec 32

def CpuConfig.slots (c : CpuConfig) : List Nat := List.range c.mMaxNumberOfCpus.toNat

def smmSwitchBsp (c : CpuConfig) (processorNumber : BitVec 32) : Exec CpuList EfiStatus := do
  let s ← Exec.get
  if processorNumber ≥ c.mMaxNumberOfCpus then pure .invalidParameter
  else if s.processorId processorNumber.toNat = invalidApicId then pure .notFound
  else if s.operation processorNumber.toNat ≠ .none ∨ s.currentlyExecutingCpu = processorNumber.toNat then
    pure .unsupported
  else do
    Exec.modify fun s =>
      { s with operation := Function.update s.operation processorNumber.toNat .switchBsp }
    pure .success

/-- The slot that the platform has mapped to a processor, if it is free: the first if there are several. -/
def freeSlot? (c : CpuConfig) (s : CpuList) (processorId : BitVec 64) : Option Nat :=
  c.slots.find? fun index => s.apicId index = processorId ∧ s.processorId index = invalidApicId

def CpuList.occupy (s : CpuList) (index : Nat) (processorId : BitVec 64) : CpuList :=
  { s with
    processorId := Function.update s.processorId index processorId
    operation := Function.update s.operation index .add }

/-- `SmmAddProcessor`, with the slot that it returns. `outNull` says that no place is given for it. -/
def smmAddProcessor (c : CpuConfig) (processorId : BitVec 64) (outNull : Bool) :
    Exec CpuList (EfiStatus × Option Nat) := do
  let s ← Exec.get
  if ¬ c.hotPlugSupport then pure (.unsupported, none)
  else if outNull ∨ processorId = invalidApicId then pure (.invalidParameter, none)
  else if c.slots.any (fun index => s.processorId index = processorId) then pure (.alreadyStarted, none)
  else
    match freeSlot? c s processorId with
    | none => pure (.invalidParameter, none)
    | some index => do
      Exec.modify fun s => s.occupy index processorId
      pure (.success, some index)

def CpuList.vacate (s : CpuList) (index : Nat) : CpuList :=
  { s with
    processorId := Function.update s.processorId index invalidApicId
    apicId := Function.update s.apicId index invalidApicId
    operation := Function.update s.operation index .remove }

def smmRemoveProcessor (c : CpuConfig) (processorNumber : BitVec 32) : Exec CpuList EfiStatus := do
  let s ← Exec.get
  if ¬ c.hotPlugSupport then pure .unsupported
  else if processorNumber ≥ c.mMaxNumberOfCpus ∨
      s.processorId processorNumber.toNat = invalidApicId then pure .invalidParameter
  else if processorNumber.toNat = s.currentlyExecutingCpu then pure .unsupported
  else if s.operation processorNumber.toNat ≠ .none then pure .unsupported
  else do
    Exec.modify fun s => s.vacate processorNumber.toNat
    pure .success

def CpuList.settle (s : CpuList) (index : Nat) : CpuList :=
  { s with operation := Function.update s.operation index .none }

/-- A loop of `SmmCpuUpdate`: the slots with the operation `op` pending are done with, with an effect. -/
def applyPending (op : CpuOperation) (effect : Nat → CpuList → CpuList) (slots : List Nat) (s : CpuList) :
    CpuList :=
  slots.foldl (fun s index =>
    if s.operation index = op then effect index (s.settle index) else s) s

def markCandidate (index : Nat) (s : CpuList) : CpuList :=
  { s with switchBsp := true, candidateBsp := Function.update s.candidateBsp index true }

def countIn (_ : Nat) (s : CpuList) : CpuList := { s with mNumberOfCpus := s.mNumberOfCpus + 1 }

def countOut (_ : Nat) (s : CpuList) : CpuList := { s with mNumberOfCpus := s.mNumberOfCpus - 1 }

def smmCpuUpdate (c : CpuConfig) : Exec CpuList Unit :=
  Exec.modify fun s =>
    applyPending .remove countOut c.slots
      (applyPending .add countIn c.slots (applyPending .switchBsp markCandidate c.slots s))

/-- The steps of the service, of the platform that maps a processor to a slot, and of the BSP that enters an
SMI. -/
inductive CpuStep where
  | smmSwitchBsp (processorNumber : BitVec 32)
  | smmAddProcessor (processorId : BitVec 64) (outNull : Bool)
  | smmRemoveProcessor (processorNumber : BitVec 32)
  | smmCpuUpdate
  | setApicId (index : Nat) (apicId : BitVec 64)
  | enterSmi (cpuIndex : Nat)
  deriving DecidableEq, Repr

def serveCpuStep (c : CpuConfig) : CpuStep → Exec CpuList Unit
  | .smmSwitchBsp processorNumber => do
    let _ ← smmSwitchBsp c processorNumber
    pure ()
  | .smmAddProcessor processorId outNull => do
    let _ ← smmAddProcessor c processorId outNull
    pure ()
  | .smmRemoveProcessor processorNumber => do
    let _ ← smmRemoveProcessor c processorNumber
    pure ()
  | .smmCpuUpdate => smmCpuUpdate c
  | .setApicId index apicId => Exec.modify fun s => { s with apicId := Function.update s.apicId index apicId }
  | .enterSmi cpuIndex => Exec.modify fun s => { s with currentlyExecutingCpu := cpuIndex }

/-! ## What the service promises -/

def validCount (c : CpuConfig) (s : CpuList) : Nat :=
  c.slots.countP fun index => s.processorId index ≠ invalidApicId

def DistinctIds (c : CpuConfig) (s : CpuList) : Prop :=
  ∀ i ∈ c.slots, ∀ j ∈ c.slots, s.processorId i ≠ invalidApicId → s.processorId i = s.processorId j → i = j

/-- What a step leaves: distinct processors, and the right number of them once the operations are applied. -/
def KeepsBooks (c : CpuConfig) (step : CpuStep) (s : CpuList) : Prop :=
  ∀ s', serveCpuStep c step s = .ret () s' → DistinctIds c s' ∧
    (step = .smmCpuUpdate → s'.mNumberOfCpus.toNat = validCount c s')

/-- What the driver's entry point leaves: the first slots have the processors that were found, and nothing is
pending. -/
structure CpusBooted (c : CpuConfig) (s : CpuList) : Prop where
  number : s.mNumberOfCpus ≤ c.mMaxNumberOfCpus
  valid : ∀ i < s.mNumberOfCpus.toNat, s.processorId i ≠ invalidApicId
  invalid : ∀ i, s.mNumberOfCpus.toNat ≤ i → s.processorId i = invalidApicId
  distinct : DistinctIds c s
  operation : ∀ i, s.operation i = .none

def AddsToFreeSlot (c : CpuConfig) (step : CpuStep) (s : CpuList) : Prop :=
  match step with
  | .smmAddProcessor processorId false =>
    c.hotPlugSupport = true → processorId ≠ invalidApicId →
    (∀ i ∈ c.slots, s.processorId i ≠ processorId) →
    ∀ index, freeSlot? c s processorId = some index → s.operation index ≠ .remove
  | _ => True

end Quark.PiSmmCpu
