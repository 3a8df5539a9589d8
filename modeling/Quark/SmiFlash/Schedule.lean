import Quark.SmiFlash.StateMachine

/-!
# Updates as schedules of SPI operations

Once a capsule is parsed, what its update is going to do is a list of SPI operations: an erase and a
program for each recorded block, with the two operations of the SVN area at the requested point.
`issue` says how such a list is carried out. A failed operation on the SVN area ends the update with
its error. A failed operation on a block is not reported: `ASSERT`s stop the machine, and without
them the list is carried on.
-/

namespace Quark.SmiFlash

open Machine

structure FlashDevice where
  flash : Mem
  cycles : List SpiCycle

def SmmState.device (s : SmmState) : FlashDevice := ⟨s.flash, s.spiCycles⟩

/-- An SPI operation of a schedule. The data of a program cycle are read when it is issued, and may
lie in the flash. -/
structure PlannedCycle where
  op : SpiOp
  caller : SpiCaller
  address : Nat
  length : Nat
  data : Mem → Mem

/-- An entry of a schedule. -/
inductive PlanItem where
  | cycle (c : PlannedCycle)
  /-- A call of `PlatformFlashEraseWrite` that fails before it issues an operation. -/
  | refuse (status : EfiStatus)

/-- How a schedule ends. -/
inductive Ending where
  | finished
  | failed (status : EfiStatus)
  | deadLoop
  deriving DecidableEq, Repr

def PlannedCycle.issued (P : Platform) (c : PlannedCycle) (d : FlashDevice) : FlashDevice where
  flash := (P.spiAnswer d.cycles.length).apply c.op c.address c.length (c.data d.flash) d.flash
  cycles := d.cycles ++ [⟨c.op, c.caller, c.address, (P.spiAnswer d.cycles.length).ok⟩]

def issue (P : Platform) : List PlanItem → FlashDevice → Ending × FlashDevice
  | [], d => (.finished, d)
  | .refuse status :: _, d => (.failed status, d)
  | .cycle c :: rest, d =>
    if (P.spiAnswer d.cycles.length).ok then issue P rest (c.issued P d)
    else match c.caller with
      | .svnArea => (.failed .deviceError, c.issued P d)
      | .block =>
        if P.debugAssertEnabled then (.deadLoop, c.issued P d) else issue P rest (c.issued P d)

/-! ## The schedule of an update -/

def readWith (P : Platform) (ram flash : Mem) : Mem := fun a =>
  if P.spiFlashBaseAddress ≤ a then flash a else ram a

def svnErase (svnAreaBuffer : Mem) : PlannedCycle :=
  ⟨.erase, .svnArea, flashRegionSvnBaseAddress, 0, fun _ => svnAreaBuffer⟩

def svnProgram (svnAreaBuffer : Mem) : PlannedCycle :=
  ⟨.program, .svnArea, flashRegionSvnBaseAddress, flashBlockSize, fun _ => svnAreaBuffer⟩

def svnPlan (P : Platform) (svnAreaBuffer : Mem) : List PlanItem :=
  if P.spiProtocolLocated = false then [.refuse .notReady]
  else if P.spiInfoStatus.isError then [.refuse P.spiInfoStatus]
  else if flashRegionSvnBaseAddress < P.spiFlashBaseAddress then [.refuse .invalidParameter]
  else [.cycle (svnErase svnAreaBuffer), .cycle (svnProgram svnAreaBuffer)]

def blockErase (P : Platform) (ram : Mem) (b : StateMachinePrivateData) : PlannedCycle :=
  ⟨.erase, .block, u32 b.targetAddr, 0, readWith P ram⟩

def blockProgram (P : Platform) (ram : Mem) (b : StateMachinePrivateData) : PlannedCycle :=
  ⟨.program, .block, u32 b.targetAddr, b.blockSize,
    fun flash k => readWith P ram flash (u32 (b.sourceAddr + k))⟩

/-- Whether the SVN area is to be written in front of block `i`. -/
def svnDue (s : SmmState) (i : Nat) (b : StateMachinePrivateData) : Bool :=
  s.svnAreaUpdPoint ≠ svnUpdNever ∧ s.svnAreaUpdPoint ≠ svnUpdAtEnd ∧
    (if s.svnAreaUpdPoint = svnUpdAtStart then i = 0 else b.targetAddr = s.svnAreaUpdTrigAddr)

/-- What is issued for block `i`. -/
def blockPlan (P : Platform) (s : SmmState) (i : Nat) (b : StateMachinePrivateData) : List PlanItem :=
  (if svnDue s i b then svnPlan P s.svnAreaBuffer else []) ++
    [.cycle (blockErase P s.ram b), .cycle (blockProgram P s.ram b)]

/-- What is issued for the blocks from block `i` on. -/
def blocksPlan (P : Platform) (s : SmmState) : Nat → List StateMachinePrivateData → List PlanItem
  | _, [] => []
  | i, b :: bs => blockPlan P s i b ++ blocksPlan P s (i + 1) bs

def endPlan (P : Platform) (s : SmmState) : List PlanItem :=
  if s.svnAreaUpdPoint = svnUpdAtEnd then svnPlan P s.svnAreaBuffer else []

/-- The schedule of an update with the blocks `bs`. -/
def schedule (P : Platform) (s : SmmState) (bs : List StateMachinePrivateData) : List PlanItem :=
  blocksPlan P s 0 bs ++ endPlan P s

/-! ## The recorded blocks -/

structure Recorded (P : Platform) (bs : List StateMachinePrivateData) (s : SmmState) : Prop where
  length_le : bs.length ≤ P.maxBlockNumber
  entry : ∀ i (h : i < bs.length), s.stateMachinePrivateData i = bs.get ⟨i, h⟩
  valid : ∀ b ∈ bs, b.isValid = true
  /-- `TargetAddr` is a `UINT32`. -/
  targetAddr_lt : ∀ b ∈ bs, b.targetAddr < 0x100000000
  rest : ∀ i, bs.length ≤ i → (s.stateMachinePrivateData i).isValid = false

/-- The state machine is about to erase block `i`. -/
structure AtErase (P : Platform) (bs : List StateMachinePrivateData) (i : Nat) (s : SmmState) :
    Prop where
  recorded : Recorded P bs s
  active : s.activeState = .inProgress
  stateId_eq : s.stateId = eraseBlockState
  currBlock_eq : s.currBlock = i

/-- The run of the state machine, up to and including the SVN check point after the flash write. -/
def updateRun (P : Platform) : Exec SmmState EfiStatus := do
  let status ← updateLoop P
  finishSvnUpdate P status

/-- From `d` to `d'` only operations with the property `I` are issued. -/
def FlashDevice.Adds (I : SpiCycle → Prop) (d d' : FlashDevice) : Prop :=
  ∃ cycles, d'.cycles = d.cycles ++ cycles ∧ ∀ c ∈ cycles, I c

def SpiCycle.OfBlocks (bs : List StateMachinePrivateData) (c : SpiCycle) : Prop :=
  match c.caller with
  | .svnArea => c.address = flashRegionSvnBaseAddress
  | .block => ∃ b ∈ bs, c.address = b.targetAddr

/-! ## The SVN update point -/

def svnWritten : List SpiCycle :=
  [⟨.erase, .svnArea, flashRegionSvnBaseAddress, true⟩,
   ⟨.program, .svnArea, flashRegionSvnBaseAddress, true⟩]

def NoSvn (cycles : List SpiCycle) : Prop := ∀ c ∈ cycles, c.caller = .block

/-- The SVN area is written as `SvnAreaUpdPoint` asks for: never; or exactly once, and that before the
first erase, after the last write, or immediately before the erase at the trigger address. -/
def Honoured (point trigAddr : Nat) (cycles : List SpiCycle) : Prop :=
  if point = svnUpdNever then NoSvn cycles
  else if point = svnUpdAtStart then ∃ rest, cycles = svnWritten ++ rest ∧ NoSvn rest
  else if point = svnUpdAtEnd then ∃ rest, cycles = rest ++ svnWritten ∧ NoSvn rest
  else ∃ pre ok post, cycles = pre ++ svnWritten ++ ⟨.erase, .block, trigAddr, ok⟩ :: post ∧
    NoSvn pre ∧ NoSvn post

def blocksAt (address : Nat) (bs : List StateMachinePrivateData) : Nat :=
  bs.countP fun b => b.targetAddr = address

end Quark.SmiFlash
