import Mathlib.Logic.Function.Iterate

/-!
# MRC: the memory scrambler

`lfsr32` and `enable_scrambling` of `meminit_utils.c`. The seed is stored with the trained timings; a boot
writes the scrambling key of the memory controller from the value after it.
-/

namespace Quark.MemoryInit

abbrev bmCold : BitVec 32 := 1

abbrev scrmSeed : Nat := 0x0080
abbrev scrmLo : Nat := 0x0081

/-- The body of the loop of `lfsr32`. -/
def lfsrShift (lfsr : BitVec 32) : BitVec 32 :=
  let bit := 1 ^^^ (lfsr &&& 0x00000001)
  let bit := bit ^^^ ((lfsr &&& 0x00000002) >>> 1)
  let bit := bit ^^^ ((lfsr &&& 0x00000004) >>> 2)
  let bit := bit ^^^ ((lfsr &&& 0x00400000) >>> 22)
  (lfsr >>> 1) ||| (bit <<< 31)

/-- `lfsr32`: thirty-two shifts. -/
def lfsr32 (lfsr : BitVec 32) : BitVec 32 := lfsrShift^[32] lfsr

/-- What `enable_scrambling` reads at a boot beside the stored seed. -/
structure Boot where
  scramblingEnables : BitVec 8
  bootMode : BitVec 32
  tsc : BitVec 64

def bootLfsr (b : Boot) (seed : BitVec 32) : BitVec 32 :=
  if b.bootMode = bmCold then
    if seed = 0 then (b.tsc &&& 0x0FFFFFFF).setWidth 32 else lfsr32^[16] seed
  else seed

def keyWrites (lfsr : BitVec 32) : List (Nat × BitVec 32) :=
  (scrmSeed, lfsr &&& 0x0003FFFF) :: (List.range 2).map fun i => (scrmLo + i, lfsr &&& 0xAAAAAAAA)

/-- `enable_scrambling`: the stored seed afterwards, and the writes. -/
def enableScrambling (b : Boot) (seed : BitVec 32) : BitVec 32 × List (Nat × BitVec 32) :=
  if b.scramblingEnables = 0 then (seed, [])
  else (if b.bootMode = bmCold then bootLfsr b seed else seed, keyWrites (lfsr32 (bootLfsr b seed)))

def scramblerRun : List Boot → BitVec 32 → List (List (Nat × BitVec 32))
  | [], _ => []
  | b :: boots, seed => (enableScrambling b seed).2 :: scramblerRun boots (enableScrambling b seed).1

abbrev lockUp : BitVec 32 := 0xFFFFFFFF

end Quark.MemoryInit
