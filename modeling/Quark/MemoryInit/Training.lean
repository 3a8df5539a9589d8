import Quark.MemoryInit.Timings
import Quark.Machine.Memory
import Mathlib.Logic.Function.Basic

/-!
# MRC: read and write training

`rd_train` and `wr_train` of `meminit.c`. A search moves the delays of a byte lane inwards as long as the
test of `check_bls_ex` fails on the lane; the middle of what is left is programmed. The options of
`memory_options.h` are those of the source: no `BACKUP_` settings, no `RX_EYE_CHECK`, and `R2R_SHARING`,
by which a lane is given the average over the ranks.

The test itself belongs to the HTE, which answers each test with an error register. A `do` loop is followed
for at most `fuel` tests.
-/

namespace Quark.MemoryInit

open Machine

/-- The part of `MRCParams_t` that training reads, all but `hte_setup`. -/
structure TrainParams where
  rankEnables : BitVec 32
  channelEnables : BitVec 32
  /-- `channel_width == x16` -/
  x16 : Bool

/-- A training function at work on its arrays `vars`: the PHY, `hte_setup`, and how many tests have been
made. -/
structure Training (α : Type) where
  phy : Phy
  hteSetup : Bool
  tests : Nat
  vars : α

variable {α β : Type}

def onPhy (x : Exec Phy β) : Exec (Training α) β := fun s =>
  match x s.phy with
  | .ret b p => .ret b { s with phy := p }
  | .stop w p => .stop w { s with phy := p }

def modifyVars (f : α → α) : Exec (Training α) Unit := .modify fun s => { s with vars := f s.vars }

/-! ## Tests -/

abbrev maxByteLanes : Nat := 4

namespace TrainParams

def blDivisor (P : TrainParams) : Nat := if P.x16 then 2 else 1

/-- The values of `bl_i` in the loops over the byte lanes. -/
def lanes (P : TrainParams) : List (Fin numByteLanes) :=
  (List.finRange numByteLanes).take (numByteLanes / P.blDivisor)

/-- The values of `channel_i` and `rank_i` that get past the tests of the enables. -/
def ranks (P : TrainParams) : List (Fin numChannels × Fin numRanks) :=
  ((List.finRange numChannels).filter fun ch => P.channelEnables.getLsbD ch.val).flatMap fun ch =>
    ((List.finRange numRanks).filter fun rk => P.rankEnables.getLsbD rk.val).map fun rk => (ch, rk)

def eachRank (P : TrainParams) (f : Fin numChannels → Fin numRanks → Exec (Training α) Unit) :
    Exec (Training α) Unit :=
  Exec.serve (fun r => f r.1 r.2) P.ranks

def byteLaneMask (P : TrainParams) : BitVec 32 :=
  let retVal := (List.range ((maxByteLanes + numByteLanes - 1) / numByteLanes)).foldl
    (fun retVal k => retVal ||| 1#32 <<< (k * numByteLanes)) 0
  if P.x16 then retVal ||| (retVal <<< 2) else retVal

end TrainParams

/-- `check_bls_ex`. `errors` is what `CheckHteErrors` reads after each test; how the test is set up is
left out. -/
def checkBlsEx (errors : Nat → BitVec 32) : Exec (Training α) (BitVec 32) := do
  let s ← .get
  .modify fun s => { s with hteSetup := false, tests := s.tests + 1 }
  pure ((errors s.tests >>> 8) &&& 0xFF)

/-- `result & (bl_mask << bl_i)` -/
def LaneFails (P : TrainParams) (result : BitVec 32) (bl : Fin numByteLanes) : Prop :=
  result &&& (P.byteLaneMask <<< bl.val) ≠ 0

instance (P : TrainParams) (result : BitVec 32) (bl : Fin numByteLanes) :
    Decidable (LaneFails P result bl) := inferInstanceAs (Decidable (_ ≠ _))

/-- One round of `do { … } while (result & 0xFF)`; `adjust` is what it does for a failing lane. -/
def testRound (P : TrainParams) (errors : Nat → BitVec 32)
    (adjust : Fin numByteLanes → Exec (Training α) Unit) (_ : Unit) :
    Exec (Training α) (Unit ⊕ Unit) := do
  let result ← checkBlsEx errors
  Exec.when (result &&& 0xFF ≠ 0)
    (Exec.serve (fun bl => Exec.when (LaneFails P result bl) (adjust bl)) P.lanes)
  pure (if result &&& 0xFF ≠ 0 then .inl () else .inr ())

def testUntilPass (P : TrainParams) (errors : Nat → BitVec 32) (fuel : Nat)
    (adjust : Fin numByteLanes → Exec (Training α) Unit) : Exec (Training α) Unit := do
  .modify fun s => { s with hteSetup := true }
  .loop fuel (testRound P errors adjust) ()

/-! ## Read training -/

abbrev minRdqsEye : Nat := 10
abbrev minVrefEye : Nat := 10
abbrev rdqsStep : Nat := 1
abbrev vrefStep : Nat := 1
abbrev vrefMin : Nat := 0x00
abbrev vrefMax : Nat := 0x3F
abbrev rdqsMin : Nat := 0x00
abbrev rdqsMax : Nat := 0x3F

/-- An approach vector: `L` and `R` for `side_x`, `B` and `T` for `side_y`. -/
abbrev Side := Fin 2

abbrev sideL : Side := 0
abbrev sideR : Side := 1
abbrev sideB : Side := 0
abbrev sideT : Side := 1

/-- The indices `[side_x][side_y][channel_i][rank_i][bl_i]`. -/
abbrev XIndex := Side × Side × Fin numChannels × Fin numRanks × Fin numByteLanes

/-- The indices `[side_x][side_y][channel_i][bl_i]`. -/
abbrev YIndex := Side × Side × Fin numChannels × Fin numByteLanes

/-- The arrays of `rd_train`. The elements of the coordinates and the centers are `uint8_t`. -/
structure RdVars where
  xCoordinate : XIndex → Nat
  yCoordinate : YIndex → Nat
  xCenter : Fin numChannels × Fin numRanks × Fin numByteLanes → Nat
  yCenter : Fin numChannels × Fin numByteLanes → Nat
  finalDelay : Fin numChannels × Fin numByteLanes → Nat
  numRanksEnabled : Nat

abbrev RdTraining := Training RdVars

def u8 (n : Nat) : Nat := n % 0x100

def setX (k : XIndex) (v : Nat) : Exec RdTraining Unit :=
  modifyVars fun a => { a with xCoordinate := Function.update a.xCoordinate k v }

def setY (k : YIndex) (v : Nat) : Exec RdTraining Unit :=
  modifyVars fun a => { a with yCoordinate := Function.update a.yCoordinate k v }

/-- A coordinate moved inwards: `+= step` on the lower side, `-= step` on the upper one. -/
def moveIn (side : Side) (step v : Nat) : Nat :=
  if side = 0 then u8 (v + step) else u8 (v + 0x100 - step)

/-- "check that we haven't closed the RDQS_EYE too much" -/
def RdqsClosed (a : RdVars) (sideY : Side) (ch : Fin numChannels) (rk : Fin numRanks)
    (bl : Fin numByteLanes) : Prop :=
  a.xCoordinate (sideL, sideY, ch, rk, bl) > rdqsMax - minRdqsEye ∨
    a.xCoordinate (sideR, sideY, ch, rk, bl) < rdqsMin + minRdqsEye ∨
    a.xCoordinate (sideL, sideY, ch, rk, bl) = a.xCoordinate (sideR, sideY, ch, rk, bl)

/-- "check that we haven't closed the VREF_EYE too much" -/
def VrefClosed (a : RdVars) (sideX : Side) (ch : Fin numChannels) (bl : Fin numByteLanes) : Prop :=
  a.yCoordinate (sideX, sideB, ch, bl) > vrefMax - minVrefEye ∨
    a.yCoordinate (sideX, sideT, ch, bl) < vrefMin + minVrefEye ∨
    a.yCoordinate (sideX, sideB, ch, bl) = a.yCoordinate (sideX, sideT, ch, bl)

instance (a : RdVars) (sideY : Side) (ch : Fin numChannels) (rk : Fin numRanks)
    (bl : Fin numByteLanes) : Decidable (RdqsClosed a sideY ch rk bl) :=
  inferInstanceAs (Decidable (_ ∨ _ ∨ _))

instance (a : RdVars) (sideX : Side) (ch : Fin numChannels) (bl : Fin numByteLanes) :
    Decidable (VrefClosed a sideX ch bl) := inferInstanceAs (Decidable (_ ∨ _ ∨ _))

/-- "not enough RDQS margin available at this VREF": go on at the next one, or give up. -/
def nextVref (sideY sideX : Side) (ch : Fin numChannels) (rk : Fin numRanks)
    (bl : Fin numByteLanes) : Exec RdTraining Unit := do
  let s ← .get
  setY (sideX, sideY, ch, bl) (moveIn sideY vrefStep (s.vars.yCoordinate (sideX, sideY, ch, bl)))
  let s ← .get
  if VrefClosed s.vars sideX ch bl then
    -- VREF_EYE collapsed below MIN_VREF_EYE
    onPhy (postCode 0xEE (0x70 + (sideY.val * 2) + sideX.val))
  else do
    onPhy (setVref ch bl (.ofNat 32 (s.vars.yCoordinate (sideX, sideY, ch, bl))))
    setX (sideX, sideY, ch, rk, bl) (if sideX = sideL then rdqsMin else rdqsMax)

/-- What `rd_train` does for a lane that failed. -/
def rdAdjust (sideY sideX : Side) (ch : Fin numChannels) (rk : Fin numRanks)
    (bl : Fin numByteLanes) : Exec RdTraining Unit := do
  let s ← .get
  setX (sideX, sideY, ch, rk, bl)
    (moveIn sideX rdqsStep (s.vars.xCoordinate (sideX, sideY, ch, rk, bl)))
  let s ← .get
  Exec.when (RdqsClosed s.vars sideY ch rk bl) (nextVref sideY sideX ch rk bl)
  let s ← .get
  onPhy (setRdqs ch rk bl (.ofNat 32 (s.vars.xCoordinate (sideX, sideY, ch, rk, bl))))

/-- "initialise x/y_coordinate arrays" -/
def rdInitLane (ch : Fin numChannels) (rk : Fin numRanks) (bl : Fin numByteLanes) :
    Exec RdTraining Unit := do
  setX (sideL, sideB, ch, rk, bl) rdqsMin
  setX (sideR, sideB, ch, rk, bl) rdqsMax
  setX (sideL, sideT, ch, rk, bl) rdqsMin
  setX (sideR, sideT, ch, rk, bl) rdqsMax
  setY (sideL, sideB, ch, bl) vrefMin
  setY (sideR, sideB, ch, bl) vrefMin
  setY (sideL, sideT, ch, bl) vrefMax
  setY (sideR, sideT, ch, bl) vrefMax

/-- "set x/y_coordinate search starting settings" -/
def rdStartLane (sideY sideX : Side) (ch : Fin numChannels) (rk : Fin numRanks)
    (bl : Fin numByteLanes) : Exec RdTraining Unit := do
  let s ← .get
  onPhy (setRdqs ch rk bl (.ofNat 32 (s.vars.xCoordinate (sideX, sideY, ch, rk, bl))))
  onPhy (setVref ch bl (.ofNat 32 (s.vars.yCoordinate (sideX, sideY, ch, bl))))

def rdSearch (P : TrainParams) (errors : Nat → BitVec 32) (fuel : Nat) (sideY sideX : Side)
    (ch : Fin numChannels) (rk : Fin numRanks) : Exec RdTraining Unit := do
  Exec.serve (rdStartLane sideY sideX ch rk) P.lanes
  testUntilPass P errors fuel (rdAdjust sideY sideX ch rk)

/-- "find final RDQS (X coordinate) & final VREF (Y coordinate)" -/
def rdCenterLane (ch : Fin numChannels) (rk : Fin numRanks) (bl : Fin numByteLanes) :
    Exec RdTraining Unit :=
  modifyVars fun a =>
    let tempD1 := (a.xCoordinate (sideR, sideT, ch, rk, bl) +
      a.xCoordinate (sideL, sideT, ch, rk, bl)) / 2
    let tempD2 := (a.xCoordinate (sideR, sideB, ch, rk, bl) +
      a.xCoordinate (sideL, sideB, ch, rk, bl)) / 2
    let tempD3 := (a.yCoordinate (sideR, sideT, ch, bl) + a.yCoordinate (sideR, sideB, ch, bl)) / 2
    let tempD4 := (a.yCoordinate (sideL, sideT, ch, bl) + a.yCoordinate (sideL, sideB, ch, bl)) / 2
    { a with
      xCenter := Function.update a.xCenter (ch, rk, bl) (u8 ((tempD1 + tempD2) / 2))
      yCenter := Function.update a.yCenter (ch, bl) (u8 ((tempD3 + tempD4) / 2)) }

/-- "set final placements" of a lane. -/
def rdPlaceLane (ch : Fin numChannels) (rk : Fin numRanks) (bl : Fin numByteLanes) :
    Exec RdTraining Unit := do
  modifyVars fun a => { a with
    finalDelay := Function.update a.finalDelay (ch, bl)
      (u32 (a.finalDelay (ch, bl) + a.xCenter (ch, rk, bl))) }
  let s ← .get
  onPhy (setRdqs ch rk bl (.ofNat 32 (s.vars.finalDelay (ch, bl) / s.vars.numRanksEnabled)))
  onPhy (setVref ch bl (.ofNat 32 (s.vars.yCenter (ch, bl))))

def rdPlaceRank (P : TrainParams) (ch : Fin numChannels) (rk : Fin numRanks) :
    Exec RdTraining Unit := do
  modifyVars fun a => { a with numRanksEnabled := u32 (a.numRanksEnabled + 1) }
  Exec.serve (rdPlaceLane ch rk) P.lanes

def rdSides : List (Side × Side) := [(sideB, sideL), (sideB, sideR), (sideT, sideL), (sideT, sideR)]

def rdTrain (P : TrainParams) (errors : Nat → BitVec 32) (fuel : Nat) : Exec RdTraining Unit := do
  onPhy (postCode 0x07 0x00)
  P.eachRank fun ch rk => Exec.serve (rdInitLane ch rk) P.lanes
  modifyVars fun a => { a with finalDelay := fun _ => 0, numRanksEnabled := 0 }
  Exec.serve (fun (sideY, sideX) => do
    onPhy (postCode 0x07 (0x10 + (sideY.val * 2) + sideX.val))
    P.eachRank (rdSearch P errors fuel sideY sideX)) rdSides
  onPhy (postCode 0x07 0x20)
  P.eachRank fun ch rk => Exec.serve (rdCenterLane ch rk) P.lanes
  onPhy (postCode 0x07 0x40)
  P.eachRank (rdPlaceRank P)

/-! ## Write training -/

abbrev wdqStep : BitVec 32 := 1
abbrev qrtrClk : BitVec 32 := 32

/-- The arrays of `wr_train`, of `uint32_t`, and the values it has given to `set_wdq` so far, the last one
first. -/
structure WrVars where
  delay : Side × Fin numChannels × Fin numRanks × Fin numByteLanes → BitVec 32
  finalDelay : Fin numChannels × Fin numByteLanes → BitVec 32
  numRanksEnabled : BitVec 32
  programmed : List (Fin numChannels × Fin numByteLanes × BitVec 32)

abbrev WrTraining := Training WrVars

def setDelay (k : Side × Fin numChannels × Fin numRanks × Fin numByteLanes) (v : BitVec 32) :
    Exec WrTraining Unit :=
  modifyVars fun a => { a with delay := Function.update a.delay k v }

/-- `set_wdq`, with a note of the value. -/
def programWdq (ch : Fin numChannels) (rk : Fin numRanks) (bl : Fin numByteLanes) (v : BitVec 32) :
    Exec WrTraining Unit := do
  modifyVars fun a => { a with programmed := (ch, bl, v) :: a.programmed }
  onPhy (setWdq ch rk bl v)

/-- WDQ starts a quarter clock to either side of `WDQS - QRTR_CLK`. -/
def wrInitLane (ch : Fin numChannels) (rk : Fin numRanks) (bl : Fin numByteLanes) :
    Exec WrTraining Unit := do
  let s ← .get
  let tempD := getWdqs s.phy ch rk bl - qrtrClk
  setDelay (sideL, ch, rk, bl) (tempD - qrtrClk)
  setDelay (sideR, ch, rk, bl) (tempD + qrtrClk)

/-- "set starting values" -/
def wrStartLane (side : Side) (ch : Fin numChannels) (rk : Fin numRanks) (bl : Fin numByteLanes) :
    Exec WrTraining Unit := do
  let s ← .get
  programWdq ch rk bl (s.vars.delay (side, ch, rk, bl))

/-- What `wr_train` does for a lane that failed. -/
def wrAdjust (side : Side) (ch : Fin numChannels) (rk : Fin numRanks) (bl : Fin numByteLanes) :
    Exec WrTraining Unit := do
  let s ← .get
  let d := s.vars.delay (side, ch, rk, bl)
  setDelay (side, ch, rk, bl) (if side = sideL then d + wdqStep else d - wdqStep)
  let s ← .get
  if s.vars.delay (sideL, ch, rk, bl) ≠ s.vars.delay (sideR, ch, rk, bl) then
    programWdq ch rk bl (s.vars.delay (side, ch, rk, bl))
  else
    -- no margin available, notify the user and halt
    onPhy (postCode 0xEE (0x80 + side.val))

/-- "program WDQ to the middle of passing window" -/
def wrPlaceLane (ch : Fin numChannels) (rk : Fin numRanks) (bl : Fin numByteLanes) :
    Exec WrTraining Unit := do
  let s ← .get
  let tempD := (s.vars.delay (sideR, ch, rk, bl) + s.vars.delay (sideL, ch, rk, bl)) / 2
  modifyVars fun a => { a with
    finalDelay := Function.update a.finalDelay (ch, bl) (a.finalDelay (ch, bl) + tempD) }
  let s ← .get
  programWdq ch rk bl (s.vars.finalDelay (ch, bl) / s.vars.numRanksEnabled)

def wrPlaceRank (P : TrainParams) (ch : Fin numChannels) (rk : Fin numRanks) :
    Exec WrTraining Unit := do
  modifyVars fun a => { a with numRanksEnabled := a.numRanksEnabled + 1 }
  Exec.serve (wrPlaceLane ch rk) P.lanes

def wrTrain (P : TrainParams) (errors : Nat → BitVec 32) (fuel : Nat) : Exec WrTraining Unit := do
  onPhy (postCode 0x08 0x00)
  P.eachRank fun ch rk => Exec.serve (wrInitLane ch rk) P.lanes
  modifyVars fun a => { a with finalDelay := fun _ => 0, numRanksEnabled := 0 }
  Exec.serve (fun side => do
    onPhy (postCode 0x08 (0x10 + side.val))
    P.eachRank fun ch rk => Exec.serve (wrStartLane side ch rk) P.lanes
    P.eachRank fun ch rk => testUntilPass P errors fuel (wrAdjust side ch rk)) [sideL, sideR]
  P.eachRank (wrPlaceRank P)

end Quark.MemoryInit
