import Quark.Base.Efi

/-!
# SMM profile: the log

`SmmProfilePFHandler`: a page fault that is not one of the protected ranges is logged behind the profile
header, unless the same fault is there already. `CurDataEntries` counts what was logged, bounds the scan
for the same fault, and gives the place of the next entry.

The counts are numbers without a width: a scan leaves the buffer long before they could overflow.
-/

namespace Quark.PiSmmCpu

open Machine

/-! ## The buffer -/

structure SmmProfileEntry where
  smiNum : BitVec 64
  cpuNum : BitVec 64
  apicId : BitVec 64
  errorCode : BitVec 64
  instruction : BitVec 64
  address : BitVec 64
  smiCmd : BitVec 64
  deriving DecidableEq, Repr

structure FaultKey where
  errorCode : BitVec 64
  address : BitVec 64
  cpuNum : BitVec 64
  instruction : BitVec 64
  smiCmd : BitVec 64
  deriving DecidableEq, Repr

def SmmProfileEntry.key (e : SmmProfileEntry) : FaultKey :=
  ⟨e.errorCode, e.address, e.cpuNum, e.instruction, e.smiCmd⟩

/-- The fields of `SMM_PROFILE_HEADER` that the log reads and writes, and the entries behind the header. -/
structure ProfileLog where
  maxDataEntries : Nat
  curDataEntries : Nat
  curDataSize : Nat
  entries : List SmmProfileEntry

def ProfileLog.stored (s : ProfileLog) : List SmmProfileEntry := s.entries.take s.curDataEntries

/-- `sizeof (SMM_PROFILE_HEADER)`. -/
abbrev profileHeaderSize : Nat := 72

/-- `sizeof (SMM_PROFILE_ENTRY)`. -/
abbrev profileEntrySize : Nat := 56

/-- `MaxDataEntries` for a profile of some pages: an `ASSERT` sees to it that `mSmmProfileSize` is a multiple
of 4KB, and the header needs the first page. -/
def maxEntries (morePages : Nat) : Nat := (0x1000 * (morePages + 1) - profileHeaderSize) / profileEntrySize

def zeroEntry : SmmProfileEntry := ⟨0, 0, 0, 0, 0, 0, 0⟩

/-- An empty log with room for `max` entries. -/
def emptyLog (max : Nat) : ProfileLog := ⟨max, 0, 0, List.replicate max zeroEntry⟩

def initSmmProfileInternal (morePages : Nat) : ProfileLog := emptyLog (maxEntries morePages)

/-! ## Logging a fault -/

/-- The scan for the same fault: the index that it stops at, with `k` entries to go. -/
def findSame (e : SmmProfileEntry) : Nat → Nat → Exec ProfileLog Nat
  | 0, index => pure index
  | k + 1, index => do
    let s ← .get
    match s.entries[index]? with
    | none => .halt .outOfBounds
    | some old => if old.key = e.key then pure index else findSame e k (index + 1)

/-- The end of `SmmProfilePFHandler`, with `PcdCpuSmmProfileRingBuffer` in `ring`. -/
def logFault (ring : Bool) (e : SmmProfileEntry) : Exec ProfileLog Unit := do
  let s ← .get
  let index ← findSame e s.curDataEntries 0
  Exec.when (index = s.curDataEntries) do
    let current := if ring then s.curDataEntries % s.maxDataEntries else s.curDataEntries
    Exec.when (current < s.maxDataEntries) do
      if current < s.entries.length then
        .modify fun s =>
          { s with
            entries := s.entries.set current e
            curDataEntries := s.curDataEntries + 1
            curDataSize := (s.curDataEntries + 1) * profileEntrySize }
      else .halt .outOfBounds

/-! ## What the log is for -/

def keys (entries : List SmmProfileEntry) : List FaultKey := entries.map SmmProfileEntry.key

/-- The last `max` entries. -/
def mostRecent (max : Nat) (entries : List SmmProfileEntry) : List SmmProfileEntry :=
  entries.drop (entries.length - max)

/-- A log without bound, in which a fault is noted unless it is among the `max` most recent ones. -/
def noteRecent (max : Nat) (noted : List SmmProfileEntry) (e : SmmProfileEntry) : List SmmProfileEntry :=
  if e.key ∈ keys (mostRecent max noted) then noted else noted ++ [e]

def noteFirst (noted : List SmmProfileEntry) (e : SmmProfileEntry) : List SmmProfileEntry :=
  if e.key ∈ keys noted then noted else noted ++ [e]

def firsts (faults : List SmmProfileEntry) : List SmmProfileEntry := faults.foldl noteFirst []

/-- The log after a sequence of faults: no access was outside the buffer, no fault is stored twice, and in ring
mode the most recent faults are stored. -/
def LogKept (max : Nat) (ring : Bool) (faults : List SmmProfileEntry) : Prop :=
  ∃ s, Exec.serve (logFault ring) faults (emptyLog max) = .ret () s ∧ (keys s.stored).Nodup ∧
    (ring = true → s.stored.Perm (mostRecent max (faults.foldl (noteRecent max) [])))

/-- At most `max` different faults, or one more, behind which the first of all does not come back. -/
def RingSafe (max : Nat) (faults : List SmmProfileEntry) : Prop :=
  (firsts faults).length ≤ max ∨
    ∃ early e late, faults = early ++ e :: late ∧ (firsts early).length = max ∧ e.key ∉ keys (firsts early) ∧
      ∀ f ∈ late, f.key ∈ keys ((firsts early).tail ++ [e])

end Quark.PiSmmCpu
