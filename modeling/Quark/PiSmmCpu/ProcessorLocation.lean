import Quark.Base.Efi

/-!
# Processor location

`SmmGetProcessorLocation`: an initial APIC id is a package, a core and a thread number side by side. How
wide the fields are is what CPUID tells: leaf 0xB names the widths, leaf 1 and leaf 4 give the counts that
they follow from.

`UINTN` has 32 bits. The processor shifts by the low five bits of a count.
-/

namespace Quark.PiSmmCpu

open Machine

/-! ## CPUID -/

structure TopologyLevel where
  eax : BitVec 32
  ebx : BitVec 32
  ecx : BitVec 32

/-- What CPUID answers. Behind the sub-leaves of leaf 0xB the level type is invalid; their numbers have 32
bits. -/
structure Cpuid where
  /-- `MaxCpuIdIndex`. -/
  maxLeaf : BitVec 32
  versionEbx : BitVec 32
  versionEdx : BitVec 32
  cacheParamsEax : BitVec 32
  topology : List TopologyLevel
  topology_length : topology.length < 2 ^ 32

/-- `AsmCpuidEx (CPUID_EXTENDED_TOPOLOGY, SubIndex, …)`. -/
def Cpuid.level (c : Cpuid) (subIndex : BitVec 32) : TopologyLevel := c.topology.getD subIndex.toNat ⟨0, 0, 0⟩

def TopologyLevel.levelType (l : TopologyLevel) : BitVec 32 := (l.ecx >>> 8) &&& 0xFF

abbrev levelTypeInvalid : BitVec 32 := 0
abbrev levelTypeCore : BitVec 32 := 2

def Cpuid.topologyValid (c : Cpuid) : Bool := c.maxLeaf ≥ 0xB ∧ (c.level 0).ebx &&& 0xFFFF ≠ 0

/-! ## The widths -/

/-- `ThreadBits` and `CoreBits`. -/
structure Widths where
  threadBits : BitVec 32
  coreBits : BitVec 32
  deriving DecidableEq

def highBitSet32 (x : BitVec 32) : Int := if x = 0 then -1 else Nat.log2 x.toNat

/-- `HighBitSet32 (n - 1) + 1`: the bits that `n` numbers need. -/
def bitsFor (n : BitVec 32) : BitVec 32 := BitVec.ofInt 32 (highBitSet32 (n - 1) + 1)

def Cpuid.maxCoresPerPackage (c : Cpuid) : BitVec 32 :=
  if c.maxLeaf ≥ 4 then (c.cacheParamsEax >>> 26) + 1 else 1

def Cpuid.countWidths (c : Cpuid) : Widths where
  threadBits := bitsFor (((c.versionEbx >>> 16) &&& 0xFF) / c.maxCoresPerPackage)
  coreBits := bitsFor c.maxCoresPerPackage

/-! ## The function -/

structure Location where
  package : BitVec 32
  core : BitVec 32
  thread : BitVec 32
  deriving DecidableEq

def locate (apicId : BitVec 32) (w : Widths) : Location where
  thread := apicId &&& ~~~(BitVec.allOnes 32 <<< (w.threadBits.toNat % 32))
  core := (apicId >>> (w.threadBits.toNat % 32)) &&& ~~~(BitVec.allOnes 32 <<< (w.coreBits.toNat % 32))
  package := apicId >>> ((w.threadBits + w.coreBits).toNat % 32)

/-- One sub-leaf of the `do … while`: it ends with `CoreBits`. -/
def coreBitsBody (c : Cpuid) (threadBits subIndex : BitVec 32) : Exec Location (BitVec 32 ⊕ BitVec 32) :=
  let level := c.level subIndex
  if level.levelType = levelTypeCore then pure (.inr ((level.eax &&& 0x1F) - threadBits))
  else if level.levelType ≠ levelTypeInvalid then pure (.inl (subIndex + 1))
  else pure (.inr 0)

/-- `SmmGetProcessorLocation`; the state is `*Location`. -/
def smmGetProcessorLocation (fuel : Nat) (asserts : Bool) (c : Cpuid) (apicId : BitVec 32) :
    Exec Location Unit := do
  assert asserts (c.versionEdx.getLsbD 28 = true)
  Exec.when (c.topologyValid = true) do
    let threadBits := (c.level 0).eax &&& 0x1F
    let coreBits ← .loop fuel (coreBitsBody c threadBits) 1
    .modify fun _ => locate apicId ⟨threadBits, coreBits⟩
  .modify fun _ => locate apicId c.countWidths

/-! ## What a location is for -/

def coreShift? : List TopologyLevel → Option (BitVec 32)
  | [] => none
  | l :: rest =>
    if l.levelType = levelTypeCore then some (l.eax &&& 0x1F)
    else if l.levelType = levelTypeInvalid then none
    else coreShift? rest

def Cpuid.topologyWidths (c : Cpuid) : Widths :=
  let threadBits := (c.level 0).eax &&& 0x1F
  ⟨threadBits, (coreShift? (c.topology.drop 1)).elim 0 (· - threadBits)⟩

def Cpuid.widths (c : Cpuid) : Widths := if c.topologyValid then c.topologyWidths else c.countWidths

structure Location.Decodes (l : Location) (w : Widths) (apicId : BitVec 32) : Prop where
  thread : l.thread.toNat = apicId.toNat % 2 ^ w.threadBits.toNat
  core : l.core.toNat = apicId.toNat / 2 ^ w.threadBits.toNat % 2 ^ w.coreBits.toNat
  package : l.package.toNat = apicId.toNat / 2 ^ (w.threadBits.toNat + w.coreBits.toNat)

/-- Every APIC id is decoded by the right widths, its numbers recombine to it, and distinct ids have distinct
locations. -/
def LocationsFaithful (asserts : Bool) (c : Cpuid) : Prop :=
  ∃ location : BitVec 32 → Location,
    (∀ apicId old, ∃ fuel, smmGetProcessorLocation fuel asserts c apicId old = .ret () (location apicId)) ∧
    (∀ apicId, (location apicId).Decodes c.widths apicId ∧
      (location apicId).package.toNat * 2 ^ (c.widths.threadBits.toNat + c.widths.coreBits.toNat) +
        (location apicId).core.toNat * 2 ^ c.widths.threadBits.toNat + (location apicId).thread.toNat = apicId.toNat) ∧
    Function.Injective location

end Quark.PiSmmCpu
