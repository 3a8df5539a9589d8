import Quark.SmiFlash.Schedule

/-!
# What a capsule update is for

After a successful update the flash holds the data of the capsule at the targets of its hints, and is
otherwise as it was. `Reports` is the condition on the SPI controller under which the update keeps to
this.
-/

namespace Quark.SmiFlash

open Machine

/-- `UPDATE_HINT`, less `Reserved`. -/
structure UpdateHint where
  targetAddr : Nat
  size : Nat
  sourceOffset : Nat
  deriving DecidableEq, Repr

def UpdateHint.target (h : UpdateHint) : Range := ⟨h.targetAddr, h.size⟩

/-- Block `k` of a hint, as `InitialiseStateMachineData` records it. -/
def UpdateHint.block (P : Platform) (h : UpdateHint) (k : Nat) : StateMachinePrivateData :=
  ⟨u32 (P.capsuleSmmBuffer + h.sourceOffset + k * flashBlockSize),
    h.targetAddr + k * flashBlockSize, flashBlockSize, true⟩

def UpdateHint.blocks (P : Platform) (h : UpdateHint) : List StateMachinePrivateData :=
  (List.range (h.size / flashBlockSize)).map (h.block P)

def hintBlocks (P : Platform) (hints : List UpdateHint) : List StateMachinePrivateData :=
  hints.flatMap (UpdateHint.blocks P)

/-- A hint table with whole blocks for disjoint ranges of the flash, whose data lie in the capsule. -/
structure WellFormedHints (P : Platform) (hints : List UpdateHint) : Prop where
  aligned : ∀ h ∈ hints, h.targetAddr % flashBlockSize = 0
  whole_blocks : ∀ h ∈ hints, 0 < h.size ∧ h.size % flashBlockSize = 0
  /-- Checked by `CapsuleParse`. -/
  below_4gb : ∀ h ∈ hints, h.targetAddr + h.size ≤ 0x100000000
  disjoint : hints.Pairwise fun h h' => h.target.Disjoint h'.target
  blocks_le : (hintBlocks P hints).length ≤ P.maxBlockNumber
  source_inside : ∀ h ∈ hints, h.sourceOffset + h.size ≤ P.pcdMaxSizeNonPopulateCapsule

/-- The blocks of a hint table are recorded, and the state machine is about to erase the first. -/
structure Parsed (P : Platform) (hints : List UpdateHint) (s : SmmState) : Prop where
  atErase : AtErase P (hintBlocks P hints) 0 s
  totalBlocks_eq : s.updateStatusPacket.totalBlocks = (hintBlocks P hints).length

def svnArea : Range := ⟨flashRegionSvnBaseAddress, flashBlockSize⟩

/-- The flash after an update that ended in success: the targets of the hints hold the data of the
capsule, and all else but the SVN area is as it was. -/
structure Updated (P : Platform) (hints : List UpdateHint) (s t : SmmState) : Prop where
  target : ∀ h ∈ hints, ∀ k < h.size,
    t.flash (h.targetAddr + k) = s.ram (P.capsuleSmmBuffer + h.sourceOffset + k)
  frame : ∀ x, (∀ h ∈ hints, ¬ (h.targetAddr ≤ x ∧ x < h.targetAddr + h.size)) →
    ¬ (svnArea.base ≤ x ∧ x < svnArea.base + svnArea.len) → t.flash x = s.flash x
  counted : t.updateStatusPacket.blocksCompleted = t.updateStatusPacket.totalBlocks

/-- The run of the state machine terminates; if it ends in success it has updated the flash; and an
operation that fails is reported and is the last one. -/
def UpdateCorrect (P : Platform) (hints : List UpdateHint) (s : SmmState) : Prop :=
  ∃ status t, updateLoop P s = .ret status t ∧ (status = .success → Updated P hints s t) ∧
    ∀ pre c post, t.spiCycles = s.spiCycles ++ (pre ++ c :: post) → c.ok = false →
      status.isError = true ∧ post = []

/-- Of the operations of a schedule, from the `n`-th cycle of the controller on, the first that fails
is on the SVN area. A failed operation on a block is reported only by chance: without `ASSERT`s, when
the SVN update that comes next is refused. -/
def Reports (P : Platform) : List PlanItem → Nat → Prop
  | [], _ => True
  | .refuse _ :: _, _ => True
  | .cycle c :: rest, n =>
    if (P.spiAnswer n).ok then Reports P rest (n + 1)
    else c.caller = .svnArea ∨
      P.debugAssertEnabled = false ∧ ∃ status rest', rest = .refuse status :: rest'

def Succeeds (P : Platform) : List PlanItem → Nat → Prop
  | [], _ => True
  | .refuse _ :: _, _ => False
  | .cycle _ :: rest, n => (P.spiAnswer n).ok = true ∧ Succeeds P rest (n + 1)

def SvnSpares (s : SmmState) (bs : List StateMachinePrivateData) : Prop :=
  ∀ pre b mid c post, bs = pre ++ b :: mid ++ c :: post →
    b.targetAddr = flashRegionSvnBaseAddress → svnDue s (pre.length + 1 + mid.length) c = true →
    ∀ k < flashBlockSize, s.svnAreaBuffer k = s.ram (b.sourceAddr + k)

/-! ## Where the parse comes by

`CapsuleParse` walks the hint table, the image list for each hint, and the blocks of each hint that
matches an image. The hint is read again on the way, and `CheckPlatformDataPolicy` may have written to
the capsule buffer in between. `Calls` and `InitHead` name the states in which the parse of a capsule
takes up a hint and a block; `Records` says which blocks it puts into the block table.
-/

section Fields

variable (P : Platform) (s : SmmState) (hint : Nat)

def hintTargetAddr : Nat := (s.rd P).rd32 (targetAddrAt hint)

def hintSize : Nat := (s.rd P).rd32 (sizeAt hint)

def hintSourceOffset : Nat := (s.rd P).rd32 (sourceOffsetAt hint)

/-- The bound that the loop of `InitialiseStateMachineData` compares `ImageDestinationAddr` with. -/
def lastBlock : Nat := sub32 (u32 (hintTargetAddr P s hint + hintSize P s hint)) flashBlockSize

def hintTable : Nat :=
  u32 (P.capsuleSmmBuffer + (s.rd P).rd32 (headerSizeAt P.capsuleSmmBuffer))

end Fields

def SmmState.withReads (s : SmmState) (log : List Range) : SmmState := { s with capsuleReads := log }

def SmmState.reads (s : SmmState) (ranges : List Range) : SmmState :=
  s.withReads (s.capsuleReads ++ ranges)

/-- The state in which `CapsuleParse` comes to the hint table. -/
def SmmState.parseStart (P : Platform) (s : SmmState) : SmmState :=
  { s.reads [⟨u32 (headerSizeAt P.capsuleSmmBuffer), 4⟩] with
    updateStatusPacket := { s.updateStatusPacket with totalBlocks := 0 } }

structure AtParse (s : SmmState) : Prop where
  active : s.activeState = .inProgress
  stateId_eq : s.stateId = parseCapsuleState
  clear : ∀ i, (s.stateMachinePrivateData i).isValid = false

/-- The loop over the hints comes by `hint`, with the next block to be recorded at `stateElement`. -/
def ParseHead (P : Platform) (s : SmmState) (hint stateElement : Nat) (u : SmmState) : Prop :=
  ∃ log, Exec.Visits (parseBody P P.capsuleSmmBuffer)
    ((hintTable P s, 0), (s.parseStart P).withReads log) ((hint, stateElement), u)

structure Passes (P : Platform) (u : SmmState) (hint : Nat) : Prop where
  size_ne : hintSize P u hint ≠ 0
  room : u.updateStatusPacket.totalBlocks < P.maxBlockNumber
  in_flash : P.spiFlashBaseAddress ≤ hintTargetAddr P u hint
  below_4gb : hintTargetAddr P u hint + hintSize P u hint ≤ 0x100000000

structure Matches (P : Platform) (m : SmmState) (hint : Nat) (e : SpiImagePresent) : Prop where
  base_le : e.spiImageDefaultBaseAddress ≤ hintTargetAddr P m hint
  end_le : hintTargetAddr P m hint + hintSize P m hint ≤
    e.spiImageDefaultBaseAddress + e.spiImageMaxSize
  updatable : e.updatable = true

/-- The parse in `s` calls `InitialiseStateMachineData` for `hint` in the state `m`, with the next
block to be recorded at `stateElement`. `u` is the state in which the parse took up the hint. -/
inductive Calls (P : Platform) (s : SmmState) : Nat → SmmState → Nat → SmmState → Prop where
  /-- The first hint replaces a whole region. -/
  | region {log log' : List Range} (lock : P.quarkCheckSecureLockBoot = false)
    (size_ne : hintSize P s (hintTable P s) ≠ 0)
    (target_ge : flashBlockSize ≤ hintTargetAddr P s (hintTable P s))
    (below_4gb : hintTargetAddr P s (hintTable P s) + hintSize P s (hintTable P s) ≤ 0x100000000) :
    Calls P s (hintTable P s) ((s.parseStart P).withReads log) 0 ((s.parseStart P).withReads log')
  /-- The hint matches an image of the list. -/
  | image {hint e₀ stateElement : Nat} {u m : SmmState} {log : List Range} {e : SpiImagePresent}
    {es : List SpiImagePresent} (head : ParseHead P s hint e₀ u) (passes : Passes P u hint)
    (visits : Exec.Visits (matchBody P P.capsuleSmmBuffer hint) ((u.spiImageList, e₀), u.withReads log)
      ((e :: es, stateElement), m))
    (mem : e ∈ u.spiImageList) (image : Matches P m hint e) : Calls P s hint u stateElement m

/-- The locals with which `InitialiseStateMachineData` comes to its loop. -/
def initLocals (P : Platform) (m : SmmState) (hint stateElement : Nat) : InitLocals where
  imageSourceAddr := u32 (P.capsuleSmmBuffer + hintSourceOffset P m hint)
  imageDestinationAddr := hintTargetAddr P m hint
  stateElement
  numberOfBlocks := 0

/-- A loop of `InitialiseStateMachineData`, called for `hint` in the state `m`, comes by a block. -/
def InitHead (P : Platform) (hint stateElement : Nat) (m : SmmState) (l : InitLocals) (t : SmmState) :
    Prop :=
  ∃ log, Exec.Visits (initialiseBody P P.capsuleSmmBuffer hint)
    (initLocals P m hint stateElement, m.withReads log) (l, t)

/-- The block at a head of the loop of `InitialiseStateMachineData`. -/
def InitLocals.block (l : InitLocals) : StateMachinePrivateData :=
  ⟨l.imageSourceAddr, l.imageDestinationAddr, flashBlockSize, true⟩

/-- The block at a head of the loop belongs to the hint, as the hint is when it is read there. -/
def Continues (P : Platform) (hint : Nat) (l : InitLocals) (t : SmmState) : Prop :=
  l.imageDestinationAddr ≤ lastBlock P t hint ∧ l.imageDestinationAddr ≠ 0

/-- The parse in `s` records the block `b`. -/
def Records (P : Platform) (s : SmmState) (b : StateMachinePrivateData) : Prop :=
  ∃ hint u stateElement m l t, Calls P s hint u stateElement m ∧ InitHead P hint stateElement m l t ∧
    Continues P hint l t ∧ b = l.block

/-- Memory reads as it did at the start of the parse in `s`, or at a block that the parse came by. -/
def MemoryOf (P : Platform) (s w : SmmState) : Prop :=
  w.rd P = s.rd P ∨ ∃ hint u stateElement m l t, Calls P s hint u stateElement m ∧
    InitHead P hint stateElement m l t ∧ w.rd P = t.rd P

/-- A word that the parse in `s` reads: the size of the header, or a word of a hint that it comes by. Of
the hint that ends the table only the size is read. -/
def ParseReads (P : Platform) (s : SmmState) (r : Range) : Prop :=
  r = ⟨u32 (headerSizeAt P.capsuleSmmBuffer), 4⟩ ∨
    ∃ hint stateElement u, ParseHead P s hint stateElement u ∧ (r = ⟨u32 (sizeAt hint), 4⟩ ∨
      hintSize P u hint ≠ 0 ∧
        (r = ⟨u32 (targetAddrAt hint), 4⟩ ∨ r = ⟨u32 (sourceOffsetAt hint), 4⟩))

/-- The capsule asks for its MAC addresses to be written, so that its platform data are not patched. -/
def UpdatesMac (P : Platform) (s : SmmState) : Prop :=
  (s.rd P).rd32 (flagsAt P.capsuleSmmBuffer) &&& pdUpdateMac ≠ 0

/-! ## Which flash an update may change

A block is erased or programmed only inside an image that the image list has marked as updatable. The
list is compiled in but for the stages and the OS, whose ranges follow from an MFH, and for the flag of
the NVRAM, which comes with the request.
-/

open Machine MfhLib

/-! ## The image list -/

/-- What `ValidateMfhForFlashUpdate` takes from an MFH. -/
structure MfhStages where
  stage1 : Nat
  stage2 : Nat
  stage1Updatable : Bool
  stage2Updatable : Bool
  stage1_le : stage1 ≤ flashRegionBiosStagesLimitAddress
  stage2_lt : stage2 < 0x100000000
  /-- An address above the stages leaves the base at the limit, and the image without a block. -/
  stage1_aligned : stage1Updatable = true →
    stage1 % flashBlockSize = 0 ∨ stage1 = flashRegionBiosStagesLimitAddress
  stage2_aligned : stage2Updatable = true → stage2 % flashBlockSize = 0

/-- The stages are in the order that `ValidateMfhForFlashUpdate` asserts. -/
def MfhStages.Ordered (m : MfhStages) : Prop :=
  flashRegionOsDefaultBaseAddress ≤ m.stage2 ∧ m.stage2 ≤ m.stage1

def MfhStages.stage1Image (m : MfhStages) : SpiImagePresent :=
  ⟨typeFwStage1Signed, m.stage1, u32 (sub32 flashRegionBiosStagesLimitAddress m.stage1 + 1), false,
    m.stage1Updatable, true⟩

def MfhStages.stage2Image (m : MfhStages) : SpiImagePresent :=
  ⟨typeFwStage2Signed, m.stage2, sub32 m.stage1 m.stage2, false, m.stage2Updatable, false⟩

def MfhStages.osImage (m : MfhStages) : SpiImagePresent :=
  ⟨typeInvalid, flashRegionOsDefaultBaseAddress, sub32 m.stage2 flashRegionOsDefaultBaseAddress, true,
    true, true⟩

def nvramImage (updatable : Bool) : SpiImagePresent :=
  ⟨typeInvalid, flashRegionBiosNvStorageBase, flashRegionBiosNvStorageSize, true, updatable, false⟩

/-- `mSpiImageList` with the entries that are not compiled in. -/
def imageListWith (nvram stage1 stage2 os : SpiImagePresent) : List SpiImagePresent :=
  initialSpiImageList.take 4 ++ nvram :: (initialSpiImageList.drop 5).take 3 ++ [stage1, stage2, os]

/-- `mSpiImageList` when an update is launched. -/
def mfhImageList (m : MfhStages) (nvramUpdatable : Bool) : List SpiImagePresent :=
  imageListWith (nvramImage nvramUpdatable) m.stage1Image m.stage2Image m.osImage

/-- The image list and the pointers into it, as `SetupImageGlobals` and all that comes after leave
them. -/
structure ImagesSetUp (s : SmmState) : Prop where
  stage1 : s.stage1Element = some 8
  stage2 : s.stage2Element = some 9
  os : s.osElement = some 10
  nvram : s.nvramElement = some 4
  list : ∃ (nvram : Bool) (stage1 stage2 os : SpiImagePresent),
    s.spiImageList = imageListWith (nvramImage nvram) stage1 stage2 os ∧
    stage1.mfhType = typeFwStage1Signed ∧ stage1.fixedAddress = false ∧ stage1.anyBlockUpdate = true ∧
    stage2.mfhType = typeFwStage2Signed ∧ stage2.fixedAddress = false ∧
    stage2.anyBlockUpdate = false ∧ stage2.spiImageDefaultBaseAddress < 0x100000000 ∧
    ∃ size, os = ⟨typeInvalid, flashRegionOsDefaultBaseAddress, size, true, true, true⟩

/-! ## Confinement -/

def Platform.flashRange (P : Platform) : Range :=
  ⟨P.spiFlashBaseAddress, 0x100000000 - P.spiFlashBaseAddress⟩

/-- The flash that an operation of `FLASH_BLOCK_SIZE` bytes changes. -/
def SpiCycle.range (c : SpiCycle) : Range :=
  match c.op with
  | .erase => ⟨c.address / flashBlockSize * flashBlockSize, flashBlockSize⟩
  | .program => ⟨c.address, flashBlockSize⟩

structure Writable (P : Platform) (images : List SpiImagePresent) (r : Range) : Prop where
  in_flash : r.Inside P.flashRange
  image : ∃ e ∈ images, e.updatable = true ∧ r.Inside e.range
  /-- The NVRAM is written only when its entry is updatable. -/
  nvram : ¬ r.Disjoint (nvramImage true).range → nvramImage true ∈ images

def SpiCycle.Permitted (P : Platform) (images : List SpiImagePresent) (c : SpiCycle) : Prop :=
  match c.caller with
  | .block => Writable P images c.range
  | .svnArea => c.range = svnArea

/-- Whenever `TargetAddr` and `Size` of a hint are read again to find its blocks, they are what
`CapsuleParse` has checked them to be. -/
def Rereads (P : Platform) (s : SmmState) : Prop :=
  ∀ hint u e m l t, Calls P s hint u e m → InitHead P hint e m l t →
    hintTargetAddr P t hint = hintTargetAddr P u hint ∧ hintSize P t hint = hintSize P u hint

/-! ## Reading the capsule in bounds

The header size, the hints and the end of the hint table are content of the capsule, and none of them
is compared with the size of the buffer before it is followed. `TableSound` is what a capsule has to be
like for the challenge and the parse to stay inside the buffer.
-/

abbrev sizeofEfiCapsuleHeader : Nat := 28

/-- The reads of the capsule that a function makes when it is called in `s`. -/
def readsOf {α : Type} (x : Exec SmmState α) (s : SmmState) : List Range :=
  (x (s.withReads [])).state.capsuleReads

/-- The challenge, and the parse after it, read inside the buffer, and every recorded block has its
source there. -/
structure InBounds (P : Platform) (s : SmmState) : Prop where
  challenge : ∀ r ∈ readsOf (challengeCapsule P) s, r.Inside P.capsuleRange
  parse : ∀ v, challengeCapsule P s = .ret .success v →
    (∀ r ∈ readsOf (capsuleParse P) v, r.Inside P.capsuleRange) ∧
    ∀ i, ((capsuleParse P v).state.stateMachinePrivateData i).isValid = true →
      ((capsuleParse P v).state.stateMachinePrivateData i).source.Inside P.capsuleRange

def KnownGuid (P : Platform) (s : SmmState) : Prop :=
  (s.rd P).bytes P.capsuleSmmBuffer 16 = efiQuarkCapsuleGuid

/-- The address of hint `i`. -/
def hintAt (P : Platform) (s : SmmState) (i : Nat) : Nat := u32 (hintTable P s + i * sizeofUpdateHint)

/-- The `UINT32` at an address lies in the buffer. -/
def WordInside (P : Platform) (a : Nat) : Prop := (⟨u32 a, 4⟩ : Range).Inside P.capsuleRange

/-- `FindTotalCapsuleImageSize` comes to its end at hint `n`, and what it reads up to there lies in the
buffer. -/
structure WalkEnds (P : Platform) (s : SmmState) (n : Nat) : Prop where
  size_inside : ∀ i ≤ n, WordInside P (sizeAt (hintAt P s i))
  source_inside : ∀ i ≤ n, hintSize P s (hintAt P s i) ≠ 0 →
    WordInside P (sourceOffsetAt (hintAt P s i))
  goes_on : ∀ i < n, hintSize P s (hintAt P s i) ≠ 0 ∧
    u32 (hintSourceOffset P s (hintAt P s i) + hintSize P s (hintAt P s i)) ≤
      P.pcdMaxSizeNonPopulateCapsule
  ends : hintSize P s (hintAt P s n) = 0 ∨ P.pcdMaxSizeNonPopulateCapsule <
    u32 (hintSourceOffset P s (hintAt P s n) + hintSize P s (hintAt P s n))

/-- A hint reads in `t` as in `s`. -/
def SameHint (P : Platform) (s t : SmmState) (hint : Nat) : Prop :=
  hintTargetAddr P t hint = hintTargetAddr P s hint ∧ hintSize P t hint = hintSize P s hint ∧
    hintSourceOffset P t hint = hintSourceOffset P s hint

/-- A hint table with an end inside the buffer. If the table has a terminator its first hint lies in the
buffer as a whole, no hint with a block reaches around the end of the address space, and the patch of
platform data does not change the table. -/
structure TableSound (P : Platform) (s : SmmState) (n : Nat) : Prop where
  walk : WalkEnds P s n
  first_inside : hintSize P s (hintAt P s n) = 0 → 0 < n → WordInside P (targetAddrAt (hintAt P s 0))
  no_wrap : hintSize P s (hintAt P s n) = 0 → ∀ i < n,
    flashBlockSize ≤ hintSize P s (hintAt P s i) →
    hintSourceOffset P s (hintAt P s i) + hintSize P s (hintAt P s i) < 0x100000000
  kept : hintSize P s (hintAt P s n) = 0 → ∀ hint u e m l t, Calls P s hint u e m →
    InitHead P hint e m l t → ∀ i ≤ n, SameHint P s t (hintAt P s i)

/-! ## The room in the block table

`CapsuleParse` compares `TotalBlocks` with `MAX_BLOCK_NUMBER` before each hint, and a hint then records all
its blocks, once for each image that it may update. `TableFits` is what a hint table has to be like for
the blocks to fit.
-/

/-- The hint table has `n` hints before the one of size zero. -/
structure TableOf (P : Platform) (s : SmmState) (n : Nat) : Prop where
  ends : hintSize P s (hintAt P s n) = 0
  sized : ∀ i < n, hintSize P s (hintAt P s i) ≠ 0

def SpiImagePresent.covers (e : SpiImagePresent) (target size : Nat) : Bool :=
  flashBlockSize ≤ e.spiImageMaxSize ∧ e.spiImageDefaultBaseAddress ≤ target ∧
    target + size ≤ e.spiImageDefaultBaseAddress + e.spiImageMaxSize ∧ e.updatable

def SpiImagePresent.takes (e : SpiImagePresent) (target size : Nat) : Bool :=
  e.covers target size && (e.anyBlockUpdate || target = e.spiImageDefaultBaseAddress)

def SpiImagePresent.refuses (e : SpiImagePresent) (target size : Nat) : Bool :=
  e.covers target size && !(e.anyBlockUpdate || target = e.spiImageDefaultBaseAddress)

section Hints

variable (P : Platform) (s : SmmState)

def targetOf (i : Nat) : Nat := hintTargetAddr P s (hintAt P s i)

def sizeOf (i : Nat) : Nat := hintSize P s (hintAt P s i)

def blocksOf (i : Nat) : Nat := sizeOf P s i / flashBlockSize

/-- "Only support to update Flash region". -/
def InFlash (i : Nat) : Prop :=
  P.spiFlashBaseAddress ≤ targetOf P s i ∧ targetOf P s i + sizeOf P s i ≤ 0x100000000

/-- `CapsuleParse` returns `EFI_INVALID_PARAMETER` at the hint. -/
def Refused (i : Nat) : Prop :=
  ¬ InFlash P s i ∨ ∃ e ∈ s.spiImageList, e.refuses (targetOf P s i) (sizeOf P s i) = true

def takers (i : Nat) : List SpiImagePresent :=
  (s.spiImageList.takeWhile fun e => !e.refuses (targetOf P s i) (sizeOf P s i)).filter fun e =>
    e.takes (targetOf P s i) (sizeOf P s i)

instance (i : Nat) : Decidable (InFlash P s i) := inferInstanceAs (Decidable (_ ∧ _))

instance (i : Nat) : Decidable (Refused P s i) := inferInstanceAs (Decidable (_ ∨ _))

/-- The blocks that are to be recorded at hint `i`. -/
def recordedAt (i : Nat) : Nat := if InFlash P s i then (takers P s i).length * blocksOf P s i else 0

/-- The blocks to be recorded at the hints before hint `k`. -/
def recordedBefore (k : Nat) : Nat := ((List.range k).map (recordedAt P s)).sum

def RegionUpdate : Prop :=
  P.quarkCheckSecureLockBoot = false ∧
    (sizeOf P s 0 = 0x100000000 - P.spiFlashBaseAddress ∧ targetOf P s 0 = P.spiFlashBaseAddress ∨
      sizeOf P s 0 = flashRegionBiosStagesMaxSize ∧ targetOf P s 0 = flashRegionBiosStagesBaseAddress)

instance : Decidable (RegionUpdate P s) := inferInstanceAs (Decidable (_ ∧ _))

/-- The blocks that the capsule needs: those of all hints for all images that take them. -/
def neededBlocks (n : Nat) : Nat :=
  if RegionUpdate P s then blocksOf P s 0
  else ((List.range n).map fun i =>
    s.spiImageList.countP (fun e => e.takes (targetOf P s i) (sizeOf P s i)) * blocksOf P s i).sum

/-- The parse comes to hint `k`: no hint before it is refused, and those before it leave room. -/
structure Reached (n k : Nat) : Prop where
  lt : k < n
  accepted : ∀ i < k, ¬ Refused P s i
  room : recordedBefore P s k < P.maxBlockNumber

structure HintsFit (n : Nat) : Prop where
  fits : ∀ k, Reached P s n k → recordedBefore P s (k + 1) ≤ P.maxBlockNumber
  aligned : P.debugAssertEnabled = true → ∀ k, Reached P s n k → InFlash P s k → takers P s k ≠ [] →
    targetOf P s k % flashBlockSize = 0
  full : ∀ k ≤ n, (∀ i < k, ¬ Refused P s i) → recordedBefore P s k = P.maxBlockNumber →
    P.debugAssertEnabled = false ∧ neededBlocks P s n ≤ P.maxBlockNumber

/-- The same of a capsule for a whole region, which `InitialiseStateMachineData` takes to be in flash. -/
structure RegionFits : Prop where
  fits : blocksOf P s 0 ≤ P.maxBlockNumber
  asserted : P.debugAssertEnabled = true →
    P.spiFlashBaseAddress ≤ targetOf P s 0 ∧ blocksOf P s 0 < P.maxBlockNumber

def TableFits (n : Nat) : Prop := if RegionUpdate P s then RegionFits P s else HintsFit P s n

/-- The patches of platform data that the parse makes return, and they leave the hint table alone. -/
structure PatchesKeep (n : Nat) : Prop where
  returns : ∀ hint u e m l t, Calls P s hint u e m → InitHead P hint e m l t → Continues P hint l t →
    l.imageDestinationAddr = flashRegionPlatformDataBaseAddress → ∀ ranges, ∃ t',
      checkPlatformDataPolicy P l.imageSourceAddr P.capsuleSmmBuffer (t.reads ranges) = .ret () t'
  kept : ∀ hint u e m l t, Calls P s hint u e m → InitHead P hint e m l t →
    ∀ i ≤ n, SameHint P s t (hintAt P s i)

/-- `CapsuleParse` returns with no more blocks than the table holds, and refuses a capsule that needs
more. -/
def TableKept (n : Nat) : Prop :=
  ∃ status t, capsuleParse P s = .ret status t ∧
    t.updateStatusPacket.totalBlocks ≤ P.maxBlockNumber ∧
    (P.maxBlockNumber < neededBlocks P s n → status.isError = true)

end Hints

end Quark.SmiFlash
