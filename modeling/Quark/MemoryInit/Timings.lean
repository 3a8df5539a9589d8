import Quark.Machine.Exec
import Quark.Machine.BitField

/-!
# MRC: delays of the DDR PHY

The delay setters and getters of `meminit_utils.c`, and `store_timings` and `restore_timings`, which
save the trained delays at a cold boot and program them again at later boots. The PHY is a file of
32-bit registers behind the `DDRPHY` side-band port; `WrMask32` merges bits into one of them.

The messages of `DPF`, `training_message` and the settling time `delay_n(300)` are left out. A post code
is recorded, since `post_code` does not return from one with major `0xEE`.
-/

namespace Quark.MemoryInit

open Machine

/-! ## Registers -/

abbrev numChannels : Nat := 1
abbrev numRanks : Nat := 2
abbrev numByteLanes : Nat := 4

scoped instance numRanks_neZero : NeZero numRanks := ⟨by decide⟩

abbrev ddriodqBlOffset : Nat := 0x0800
abbrev ddriodqChOffset : Nat := (numByteLanes / 2) * ddriodqBlOffset
abbrev ddriocccChOffset : Nat := 0x0800

abbrev b0vrefctl : Nat := 0x0014
abbrev b1vrefctl : Nat := 0x0024
abbrev b1dllpicoder0 : Nat := 0x0038
abbrev b0dllpicoder0 : Nat := 0x003C
abbrev b1rxdqspicode : Nat := 0x0058
abbrev b0rxdqspicode : Nat := 0x005C
abbrev b01ptrctl0 : Nat := 0x0070
abbrev b01dbctl1 : Nat := 0x007C
abbrev eccb1dllpicoder0 : Nat := 0x2038
abbrev eccb1dllpicoder1 : Nat := 0x2040
abbrev eccb1dllpicoder2 : Nat := 0x2048
abbrev eccb1dllpicoder3 : Nat := 0x2050
abbrev cmddllpicoder0 : Nat := 0x4820
abbrev cmddllpicoder1 : Nat := 0x4824
abbrev cmdcfgreg0 : Nat := 0x4840
abbrev cmdptrreg : Nat := 0x4844
abbrev cccfgreg1 : Nat := 0x5840
abbrev ccptrreg : Nat := 0x5844

abbrev earlyDb : BitVec 32 := 0x12
abbrev lateDb : BitVec 32 := 0x34
abbrev halfClk : BitVec 32 := 64

/-- The registers of the PHY by address, and the post codes sent so far, the last one first. -/
structure Phy where
  reg : Nat → BitVec 32
  posts : List (Nat × Nat)

/-- `WrMask32` on the `DDRPHY` port. -/
def Phy.wrMask32 (p : Phy) (addr : Nat) (data mask : BitVec 32) : Phy :=
  { p with reg := fun a => if a = addr then merge (p.reg a) data mask else p.reg a }

/-- `isbM32m(DDRPHY, addr, data, mask)`. -/
def isbM32m (addr : Nat) (data mask : BitVec 32) : Exec Phy Unit :=
  Exec.modify fun p => p.wrMask32 addr data mask

def postCode (major minor : Nat) : Exec Phy Unit := do
  Exec.modify fun p => { p with posts := (major, minor) :: p.posts }
  Exec.when (major = 0xEE) (Exec.halt .deadLoop)

/-- `byte_lane & BIT0`. -/
abbrev OddLane (byteLane : Nat) : Prop := byteLane % 2 = 1

/-- The address in the block of a byte lane pair of the register at `base`. -/
def dqReg (base channel byteLane : Nat) : Nat :=
  base + (byteLane / 2) * ddriodqBlOffset + channel * ddriodqChOffset

/-- The address in the command and control block of the register at `base`. -/
def cccReg (base channel : Nat) : Nat := base + channel * ddriocccChOffset

/-! ## Steps that the setters share -/

/-- `pi_count -= ((pi_count / HALF_CLK) & 0xF) * HALF_CLK`. -/
def adjust (piCount : BitVec 32) : BitVec 32 := piCount - ((piCount / halfClk) &&& 0xF) * halfClk

/-- The deadband bits: `enable` outside the middle range of the clock, `select` as well before it. -/
def deadband (reg : Nat) (enable select piCount : BitVec 32) : Exec Phy Unit :=
  let tempD := if piCount < earlyDb ∨ piCount > lateDb then enable else 0
  let tempD := if piCount < earlyDb then tempD ||| (enable ||| select) else tempD
  isbM32m reg tempD (enable ||| select)

def errorCheck (piCount bound : BitVec 32) (minor : Nat) : Exec Phy Unit :=
  Exec.when (piCount > bound) (postCode 0xEE minor)

/-! ## Delays of a byte lane -/

/-- What tells `set_rcvn`, `set_wdqs` and `set_wdq` apart: the places of their bits, for an even lane and
for an odd one, and their post code. -/
structure DqDelay where
  rdptr : Nat × Nat
  pi : Nat
  enable : Nat × Nat
  select : Nat × Nat
  minor : Nat

def laneOf (places : Nat × Nat) (byteLane : Nat) : Nat :=
  if OddLane byteLane then places.2 else places.1

def laneReg (even odd channel byteLane : Nat) : Nat :=
  dqReg (laneOf (even, odd) byteLane) channel byteLane

def setDq (f : DqDelay) (channel byteLane : Nat) (piCount : BitVec 32) : Exec Phy Unit := do
  -- RDPTR (1/2 MCLK, 64 PIs)
  isbM32m (dqReg b01ptrctl0 channel byteLane)
    ((piCount / halfClk) <<< laneOf f.rdptr byteLane) (0xF#32 <<< laneOf f.rdptr byteLane)
  let piCount := adjust piCount
  -- PI (1/64 MCLK, 1 PIs)
  isbM32m (laneReg b0dllpicoder0 b1dllpicoder0 channel byteLane) (piCount <<< f.pi) (0x3F#32 <<< f.pi)
  deadband (dqReg b01dbctl1 channel byteLane) (1#32 <<< laneOf f.enable byteLane)
    (1#32 <<< laneOf f.select byteLane) piCount
  errorCheck piCount 0x3F f.minor

def getDq (f : DqDelay) (p : Phy) (channel byteLane : Nat) : BitVec 32 :=
  field (p.reg (dqReg b01ptrctl0 channel byteLane)) (laneOf f.rdptr byteLane) 0xF * halfClk +
    field (p.reg (laneReg b0dllpicoder0 b1dllpicoder0 channel byteLane)) f.pi 0x3F

/-- RCVEN: `B01PTRCTL0[11:08]` and `[23:20]`, `DLLPICODER0[29:24]`, `B01DBCTL1[08/11]` and `[02/05]`. -/
def rcvn : DqDelay := ⟨(8, 20), 24, (2, 5), (8, 11), 0xE0⟩

/-- WDQS: `B01PTRCTL0[07:04]` and `[19:16]`, `DLLPICODER0[21:16]`, `B01DBCTL1[07/10]` and `[01/04]`. -/
def wdqs : DqDelay := ⟨(4, 16), 16, (1, 4), (7, 10), 0xE2⟩

/-- WDQ: `B01PTRCTL0[03:00]` and `[15:12]`, `DLLPICODER0[13:08]`, `B01DBCTL1[06/09]` and `[00/03]`. -/
def wdq : DqDelay := ⟨(0, 12), 8, (0, 3), (6, 9), 0xE3⟩

-- The rank is a parameter of these functions in the source and not comprehended by them.
def setRcvn (channel _rank byteLane : Nat) := setDq rcvn channel byteLane
def getRcvn (p : Phy) (channel _rank byteLane : Nat) := getDq rcvn p channel byteLane
def setWdqs (channel _rank byteLane : Nat) := setDq wdqs channel byteLane
def getWdqs (p : Phy) (channel _rank byteLane : Nat) := getDq wdqs p channel byteLane
def setWdq (channel _rank byteLane : Nat) := setDq wdq channel byteLane
def getWdq (p : Phy) (channel _rank byteLane : Nat) := getDq wdq p channel byteLane

def setRdqs (channel _rank byteLane : Nat) (piCount : BitVec 32) : Exec Phy Unit := do
  -- PI (1/128 MCLK)
  isbM32m (laneReg b0rxdqspicode b1rxdqspicode channel byteLane) (piCount <<< 0) 0x7F
  errorCheck piCount 0x47 0xE1

def getRdqs (p : Phy) (channel _rank byteLane : Nat) : BitVec 32 :=
  p.reg (laneReg b0rxdqspicode b1rxdqspicode channel byteLane) &&& 0x7F

def vrefCodes : List (BitVec 32) := [
  0x3F, 0x3E, 0x3D, 0x3C, 0x3B, 0x3A, 0x39, 0x38, 0x37, 0x36, 0x35, 0x34, 0x33, 0x32, 0x31, 0x30,
  0x2F, 0x2E, 0x2D, 0x2C, 0x2B, 0x2A, 0x29, 0x28, 0x27, 0x26, 0x25, 0x24, 0x23, 0x22, 0x21, 0x20,
  0x00, 0x01, 0x02, 0x03, 0x04, 0x05, 0x06, 0x07, 0x08, 0x09, 0x0A, 0x0B, 0x0C, 0x0D, 0x0E, 0x0F,
  0x10, 0x11, 0x12, 0x13, 0x14, 0x15, 0x16, 0x17, 0x18, 0x19, 0x1A, 0x1B, 0x1C, 0x1D, 0x1E, 0x1F]

def setVref (channel byteLane : Nat) (setting : BitVec 32) : Exec Phy Unit :=
  match vrefCodes[setting.toNat]? with
  | some code => isbM32m (laneReg b0vrefctl b1vrefctl channel byteLane) (code <<< 2) 0xFC
  | none => Exec.halt .outOfBounds

def getVref (p : Phy) (channel byteLane : Nat) : BitVec 32 :=
  let tempD := field (p.reg (laneReg b0vrefctl b1vrefctl channel byteLane)) 2 0x3F
  match vrefCodes.idxOf? tempD with
  | some j => BitVec.ofNat 32 j
  | none => BitVec.ofNat 32 (vrefCodes.length / 2)

/-! ## Delays of command and control -/

def setWcmd (channel : Nat) (piCount : BitVec 32) : Exec Phy Unit := do
  -- CMDPTRREG[11:08]
  isbM32m (cccReg cmdptrreg channel) ((piCount / halfClk) <<< 8) 0xF00
  let piCount := adjust piCount
  let tempD := (piCount <<< 24) ||| (piCount <<< 16) ||| (piCount <<< 8) ||| (piCount <<< 0)
  isbM32m (cccReg cmddllpicoder1 channel) tempD 0x3F3F3F3F
  isbM32m (cccReg cmddllpicoder0 channel) tempD 0x3F3F3F3F
  -- CMDCFGREG0[17] (+1 select), CMDCFGREG0[16] (enable)
  deadband (cccReg cmdcfgreg0 channel) 0x10000 0x20000 piCount
  errorCheck piCount 0x3F 0xE4

def getWcmd (p : Phy) (channel : Nat) : BitVec 32 :=
  field (p.reg (cccReg cmdptrreg channel)) 8 0xF * halfClk +
    field (p.reg (cccReg cmddllpicoder1 channel)) 16 0x3F

/-- `get_wclk`. The clock delay is no field of `MrcTimings_t`: `set_wclk` programs it from a constant of
the platform whenever the PHY is initialised. -/
def getWclk (p : Phy) (channel rank : Nat) : BitVec 32 :=
  field (p.reg (cccReg ccptrreg channel)) (if rank ≠ 0 then 12 else 8) 0xF * halfClk +
    field (p.reg (cccReg eccb1dllpicoder0 channel)) (if rank ≠ 0 then 16 else 8) 0x3F

/-- `set_wclk`. It programs the clocks of both ranks, whichever rank it is called for. -/
def setWclk (channel _rank : Nat) (piCount : BitVec 32) : Exec Phy Unit := do
  -- CCPTRREG[15:12] -> CLK1, CCPTRREG[11:08] -> CLK0
  isbM32m (cccReg ccptrreg channel) (((piCount / halfClk) <<< 12) ||| ((piCount / halfClk) <<< 8)) 0xFF00
  let piCount := adjust piCount
  let tempD := (piCount <<< 16) ||| (piCount <<< 8)
  isbM32m (cccReg eccb1dllpicoder0 channel) tempD 0x3F3F00
  isbM32m (cccReg eccb1dllpicoder1 channel) tempD 0x3F3F00
  isbM32m (cccReg eccb1dllpicoder2 channel) tempD 0x3F3F00
  isbM32m (cccReg eccb1dllpicoder3 channel) tempD 0x3F3F00
  -- CCCFGREG1[11:08] (+1 select), CCCFGREG1[03:00] (enable)
  deadband (cccReg cccfgreg1 channel) 0xF 0xF00 piCount
  errorCheck piCount 0x3F 0xE5

def setWctl (channel _rank : Nat) (piCount : BitVec 32) : Exec Phy Unit := do
  -- CCPTRREG[31:28] and [27:24]
  isbM32m (cccReg ccptrreg channel) (((piCount / halfClk) <<< 28) ||| ((piCount / halfClk) <<< 24))
    0xFF000000
  let piCount := adjust piCount
  isbM32m (cccReg eccb1dllpicoder0 channel) (piCount <<< 24) 0x3F000000
  isbM32m (cccReg eccb1dllpicoder1 channel) (piCount <<< 24) 0x3F000000
  isbM32m (cccReg eccb1dllpicoder2 channel) (piCount <<< 24) 0x3F000000
  isbM32m (cccReg eccb1dllpicoder3 channel) (piCount <<< 24) 0x3F000000
  -- CCCFGREG1[13:12] (+1 select), CCCFGREG1[05:04] (enable)
  deadband (cccReg cccfgreg1 channel) 0x30 0x3000 piCount
  errorCheck piCount 0x3F 0xE6

def getWctl (p : Phy) (channel _rank : Nat) : BitVec 32 :=
  field (p.reg (cccReg ccptrreg channel)) 24 0xF * halfClk +
    field (p.reg (cccReg eccb1dllpicoder0 channel)) 24 0x3F

/-! ## Storing and restoring -/

@[ext]
structure MrcTimings where
  rcvn : Fin numChannels → Fin numRanks → Fin numByteLanes → BitVec 32
  rdqs : Fin numChannels → Fin numRanks → Fin numByteLanes → BitVec 32
  wdqs : Fin numChannels → Fin numRanks → Fin numByteLanes → BitVec 32
  wdq : Fin numChannels → Fin numRanks → Fin numByteLanes → BitVec 32
  vref : Fin numChannels → Fin numByteLanes → BitVec 32
  wctl : Fin numChannels → Fin numRanks → BitVec 32
  wcmd : Fin numChannels → BitVec 32
  scramblerSeed : BitVec 32
  ddrSpeed : BitVec 8

/-- The part of `MRCParams_t` that the two functions use. -/
structure MrcParams where
  timings : MrcTimings
  ddrSpeed : BitVec 8

/-- `a[ch][rk][bl] = v`. -/
def put3 (a : Fin numChannels → Fin numRanks → Fin numByteLanes → BitVec 32) (ch : Fin numChannels)
    (rk : Fin numRanks) (bl : Fin numByteLanes) (v : BitVec 32) :
    Fin numChannels → Fin numRanks → Fin numByteLanes → BitVec 32 :=
  Function.update a ch (Function.update (a ch) rk (Function.update (a ch rk) bl v))

/-- `a[i][j] = v`. -/
def put2 {m : Nat} (a : Fin numChannels → Fin m → BitVec 32) (i : Fin numChannels) (j : Fin m)
    (v : BitVec 32) : Fin numChannels → Fin m → BitVec 32 :=
  Function.update a i (Function.update (a i) j v)

def storeLane (p : Phy) (ch : Fin numChannels) (rk : Fin numRanks) (mt : MrcTimings)
    (bl : Fin numByteLanes) : MrcTimings :=
  { mt with
    rcvn := put3 mt.rcvn ch rk bl (getRcvn p ch rk bl)
    rdqs := put3 mt.rdqs ch rk bl (getRdqs p ch rk bl)
    wdqs := put3 mt.wdqs ch rk bl (getWdqs p ch rk bl)
    wdq := put3 mt.wdq ch rk bl (getWdq p ch rk bl)
    -- VREF (RANK0 only)
    vref := if rk = 0 then put2 mt.vref ch bl (getVref p ch bl) else mt.vref }

def storeRank (p : Phy) (ch : Fin numChannels) (mt : MrcTimings) (rk : Fin numRanks) : MrcTimings :=
  let mt := (List.finRange numByteLanes).foldl (storeLane p ch rk) mt
  { mt with wctl := put2 mt.wctl ch rk (getWctl p ch rk) }

def storeChannel (p : Phy) (mt : MrcTimings) (ch : Fin numChannels) : MrcTimings :=
  let mt := (List.finRange numRanks).foldl (storeRank p ch) mt
  { mt with wcmd := Function.update mt.wcmd ch (getWcmd p ch) }

def storeTimings (p : Phy) (mrcParams : MrcParams) : MrcParams :=
  let mt := (List.finRange numChannels).foldl (storeChannel p) mrcParams.timings
  { mrcParams with timings := { mt with ddrSpeed := mrcParams.ddrSpeed } }

def restoreLane (mt : MrcTimings) (ch : Fin numChannels) (rk : Fin numRanks) (bl : Fin numByteLanes) :
    Exec Phy Unit := do
  setRcvn ch rk bl (mt.rcvn ch rk bl)
  setRdqs ch rk bl (mt.rdqs ch rk bl)
  setWdqs ch rk bl (mt.wdqs ch rk bl)
  setWdq ch rk bl (mt.wdq ch rk bl)
  Exec.when (rk = 0) (setVref ch bl (mt.vref ch bl))

def restoreRank (mt : MrcTimings) (ch : Fin numChannels) (rk : Fin numRanks) : Exec Phy Unit := do
  Exec.serve (restoreLane mt ch rk) (List.finRange numByteLanes)
  setWctl ch rk (mt.wctl ch rk)

def restoreChannel (mt : MrcTimings) (ch : Fin numChannels) : Exec Phy Unit := do
  Exec.serve (restoreRank mt ch) (List.finRange numRanks)
  setWcmd ch (mt.wcmd ch)

def restoreTimings (mrcParams : MrcParams) : Exec Phy Unit :=
  Exec.serve (restoreChannel mrcParams.timings) (List.finRange numChannels)

end Quark.MemoryInit
