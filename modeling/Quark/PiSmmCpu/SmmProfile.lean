import Quark.Base.Efi
import Quark.Machine.SavedEntries

/-!
# SMM profile

`SmmProfile.c`: a page that SMM code is not meant to touch is not present. The page fault handler opens it for the
instruction that faulted, and the single-step handler behind that instruction closes it again.

The page directories and page tables lie in pages of their own, as the page table builder allocates them: an
entry is named by the indices that lead to it. The profile data that the handler logs is in `ProfileLog`.
-/

namespace Quark.PiSmmCpu

open Machine

/-- An entry that maps memory below 4GB, by the indices of `PDPTE`, `PD` and `PT`: one of 2MB or one of 4KB. -/
inductive PageEntry where
  | large (pdpte pd : Nat)
  | small (pdpte pd pt : Nat)
  deriving DecidableEq, Repr

/-- The tables above the entries that map memory, and those entries. -/
structure PageTables where
  pml4e : BitVec 64
  pdpte : Nat → BitVec 64
  entry : PageEntry → BitVec 64

/-- What the handlers share. `lastPFEntry` has `mLastPFEntryPointer` and `mLastPFEntryValue` of each CPU, up to
`mPFEntryCount`. -/
structure Profile where
  smmProfileStart : Bool
  pageTable : PageTables
  lastPFEntry : Nat → List (PageEntry × BitVec 64)

/-- Whether `ASSERT` is enabled, and whether pointers have 64 bits. -/
structure ProfileConfig where
  assertEnabled : Bool
  x64 : Bool

def maxPfEntryCount : Nat := 10

abbrev ia32PgP : BitVec 64 := 1 <<< 0
abbrev ia32PgRw : BitVec 64 := 1 <<< 1
abbrev ia32PgPs : BitVec 64 := 1 <<< 7
abbrev ia32PgNx : BitVec 64 := 1 <<< 63
abbrev ia32PfEcId : BitVec 32 := 1 <<< 4

def bitFieldRead64 (operand : BitVec 64) (startBit endBit : Nat) : Nat :=
  operand.toNat / 2 ^ startBit % 2 ^ (endBit + 1 - startBit)

/-- The new value of an entry: the page at `pfAddress`, of `2 ^ shift` bytes, present and writable. -/
def newEntry (pfAddress : BitVec 64) (shift : Nat) (flags : BitVec 64) (errorCode : BitVec 32) : BitVec 64 :=
  let value := (pfAddress &&& ~~~BitVec.ofNat 64 (2 ^ shift - 1)) ||| flags ||| (ia32PgRw ||| ia32PgP)
  if errorCode &&& ia32PfEcId ≠ 0 then value &&& ~~~ia32PgNx else value

def recordEntry (cpuIndex : Nat) (entry : PageEntry) (s : Profile) : Profile :=
  if (s.lastPFEntry cpuIndex).length < maxPfEntryCount then
    let kept := s.lastPFEntry cpuIndex ++ [(entry, s.pageTable.entry entry)]
    { s with lastPFEntry := Function.update s.lastPFEntry cpuIndex kept }
  else s

def setEntry (entry : PageEntry) (value : BitVec 64) (s : Profile) : Profile :=
  { s with pageTable := { s.pageTable with entry := Function.update s.pageTable.entry entry value } }

def replaceEntry (c : ProfileConfig) (cpuIndex : Nat) (entry : PageEntry) (value : BitVec 64) :
    Exec Profile Unit := do
  let s ← Exec.get
  assert c.assertEnabled ((s.lastPFEntry cpuIndex).length < maxPfEntryCount)
  Exec.modify (recordEntry cpuIndex entry)
  Exec.modify (setEntry entry value)

/-- An `ASSERT` that a table is there, and the access through it. -/
def followTable (c : ProfileConfig) (value : BitVec 64) : Exec Profile Unit := do
  assert c.assertEnabled (value ≠ 0)
  if value = 0 then .halt .outOfBounds else pure ()

def restorePageTableBelow4G (c : ProfileConfig) (pfAddress : BitVec 64) (cpuIndex : Nat)
    (errorCode : BitVec 32) : Exec Profile Unit := do
  let s ← Exec.get
  Exec.when (c.x64 = true) (followTable c s.pageTable.pml4e)
  let pdpte := bitFieldRead64 pfAddress 30 38
  followTable c (s.pageTable.pdpte pdpte)
  let pd := bitFieldRead64 pfAddress 21 29
  let pde := s.pageTable.entry (.large pdpte pd)
  if pde &&& ia32PgPs ≠ 0 then
    replaceEntry c cpuIndex (.large pdpte pd) (newEntry pfAddress 21 ia32PgPs errorCode)
  else do
    followTable c pde
    let pt := bitFieldRead64 pfAddress 12 20
    replaceEntry c cpuIndex (.small pdpte pd pt) (newEntry pfAddress 12 0 errorCode)

/-- `SmmProfilePFHandler`, for an address below 4GB. A fault before the profile is started is left to the
default handler. -/
def smmProfilePFHandler (c : ProfileConfig) (pfAddress : BitVec 64) (cpuIndex : Nat)
    (errorCode : BitVec 32) : Exec Profile Unit := do
  let s ← Exec.get
  Exec.when (s.smmProfileStart = true) (restorePageTableBelow4G c pfAddress cpuIndex errorCode)

def putBackEntries (cpuIndex : Nat) (s : Profile) : Profile where
  smmProfileStart := s.smmProfileStart
  pageTable := { s.pageTable with entry := putBack (s.lastPFEntry cpuIndex) s.pageTable.entry }
  lastPFEntry := Function.update s.lastPFEntry cpuIndex []

def debugExceptionHandler (cpuIndex : Nat) : Exec Profile Unit := do
  let s ← Exec.get
  Exec.when (s.smmProfileStart = true) (Exec.modify (putBackEntries cpuIndex))

/-- A run of a handler on a CPU. -/
inductive HandlerRun where
  | pageFault (cpuIndex : Nat) (pfAddress : BitVec 64) (errorCode : BitVec 32)
  | singleStep (cpuIndex : Nat)

def HandlerRun.cpu : HandlerRun → Nat
  | .pageFault cpuIndex _ _ => cpuIndex
  | .singleStep cpuIndex => cpuIndex

def runHandler (c : ProfileConfig) : HandlerRun → Exec Profile Unit
  | .pageFault cpuIndex pfAddress errorCode => smmProfilePFHandler c pfAddress cpuIndex errorCode
  | .singleStep cpuIndex => debugExceptionHandler cpuIndex

/-! ## What the handlers promise -/

/-- `InitPaging` is done and the profile is started. -/
structure ProfileStarted (s : Profile) : Prop where
  start : s.smmProfileStart = true
  kept : ∀ cpu, s.lastPFEntry cpu = []

def FaultAllowed (run : HandlerRun) (s : Profile) : Prop :=
  match run with
  | .pageFault cpu address _ => address.toNat < 2 ^ 32 ∧ (s.lastPFEntry cpu).length < maxPfEntryCount
  | .singleStep _ => True

instance (run : HandlerRun) (s : Profile) : Decidable (FaultAllowed run s) :=
  match run with
  | .pageFault _ _ _ => inferInstanceAs (Decidable (_ ∧ _))
  | .singleStep _ => isTrue trivial

def AllStepped (s : Profile) : Prop := ∀ cpu, s.lastPFEntry cpu = []

/-- A CPU that is the last one to close an entry has recorded, as its last value, the one that is in the
table `t`. -/
def ClosesAsOpened (t : PageTables) (run : HandlerRun) (s : Profile) : Prop :=
  match run with
  | .pageFault _ _ _ => True
  | .singleStep cpu => ∀ e v, LastKept (s.lastPFEntry cpu) e v →
      v = t.entry e ∨ ∃ cpu' ≠ cpu, e ∈ (s.lastPFEntry cpu').map Prod.fst

end Quark.PiSmmCpu
