import Quark.Base.Efi
import Quark.Machine.Spans

/-!
# The memory map

`GetMemoryMap` and `ChooseRanges` of `MrcWrapper.c`. Addresses and lengths are `UINT64`.
-/

namespace Quark.PlatformInit

open Machine

/-- The difference of two `UINT64`s. -/
def sub64 (a b : Nat) : Nat := (a + (2 ^ 64 - b)) % 2 ^ 64

inductive RangeType where
  | mainMemory
  | smramCacheable
  | smramNonCacheable
  | graphicsMemoryCacheable
  | graphicsMemoryNonCacheable
  | reservedMemory
  deriving DecidableEq, Repr

structure MapRange where
  physicalAddress : Nat
  cpuAddress : Nat
  rangeLength : Nat
  type : RangeType
  deriving DecidableEq, Repr

def MapRange.span (range : MapRange) : Span := ⟨range.physicalAddress, range.rangeLength⟩

def smramCacheableMask : BitVec 32 := 0x80000000

def smramTsegMask : BitVec 32 := 0x00040000

def smramSizeMask : BitVec 32 := 0x0000FFFF

/-- `SmramMask` as `ChooseRanges` yields it for `PcdTSegSize`. -/
def chooseRanges (tSegSize : BitVec 32) : BitVec 32 :=
  smramCacheableMask ||| smramTsegMask ||| (tSegSize >>> 17)

/-- `while (TsegMask) { TsegMask >>= 1; BlockNum <<= 1; }`, which ends after at most 32 iterations. -/
def shiftBlocks : Nat → BitVec 32 → BitVec 32 → BitVec 32
  | 0, _, blockNum => blockNum
  | n + 1, tsegMask, blockNum =>
    if tsegMask = 0 then blockNum else shiftBlocks n (tsegMask >>> 1) (blockNum <<< 1)

/-- `BlockNum`, the size of TSEG in blocks of 128 KiB. -/
def blockNum (smramMask : BitVec 32) : BitVec 32 := shiftBlocks 32 (smramMask &&& smramSizeMask) 1 >>> 1

/-- What is written to `HSMMCTL` for a TSEG that ends before `top` and starts at `base`: the end and the
start in megabytes, and the three access bits. -/
def hsmmctl (top base : Nat) : BitVec 32 :=
  (BitVec.ofNat 32 (sub64 top 1) &&& 0xFFF00000) |||
    ((BitVec.ofNat 32 (base / 2 ^ 16) &&& 0x0000FFF0) + 0x10006)

/-- The range for TSEG below `top`, and the write to `HSMMCTL`. Without blocks the range stays as
`ZeroMem` left it. -/
def tsegRange (smramMask : BitVec 32) (top : Nat) : MapRange × Option (BitVec 32) :=
  if blockNum smramMask = 0 then
    (⟨0, 0, 0, .smramCacheable⟩, none)
  else
    let rangeLength := (blockNum smramMask * 128 * 1024).toNat
    let base := sub64 top rangeLength
    (⟨base, base, rangeLength, .smramCacheable⟩, some (hsmmctl top base))

/-- `GetMemoryMap`, with the value that it writes to `HSMMCTL`. -/
def getMemoryMap (tSegSize totalMemorySize : BitVec 32) : List MapRange × Option (BitVec 32) :=
  let smramMask := chooseRanges tSegSize
  let rowLength := sub64 totalMemorySize.toNat 0x100000
  let top := (0x100000 + rowLength) % 2 ^ 64
  let tseg := if smramMask &&& smramTsegMask ≠ 0 then some (tsegRange smramMask top) else none
  let tsegLength := (tseg.map (·.1.rangeLength)).getD 0
  let rmuBase := sub64 (sub64 top tsegLength) 0x10000
  ([⟨0, 0, 0xA0000, .mainMemory⟩, ⟨0xA0000, 0xA0000, 0x60000, .reservedMemory⟩,
    ⟨0x100000, 0x100000, sub64 (sub64 rowLength tsegLength) 0x10000, .mainMemory⟩] ++
    (tseg.map (·.1)).toList ++ [⟨rmuBase, rmuBase, 0x10000, .reservedMemory⟩], tseg.bind (·.2))

/-! ## Handing memory over to DXE

`InstallEfiMemory`, `GetPlatformMemorySize`, `RetriveRequiredMemorySize` and `InfoPostInstallMemory` of
`MrcWrapper.c`, as far as they carve up the memory: the memory test, the protected memory regions, the
capsule and the HOBs for SMRAM and the DIMMs are left out. The HOB list is followed as far as it holds
memory types and memory resources, which no HOB before these functions does.
-/

open Machine Machine.Exec

structure MemoryTypeInformation where
  type : BitVec 32
  numberOfPages : BitVec 32
  deriving DecidableEq, Repr

/-- `EFI_HOB_RESOURCE_DESCRIPTOR`, of system memory or of reserved memory. -/
structure ResourceDescriptor where
  systemMemory : Bool
  resourceAttribute : Nat
  physicalStart : Nat
  resourceLength : Nat
  deriving DecidableEq, Repr

def ResourceDescriptor.span (resource : ResourceDescriptor) : Span :=
  ⟨resource.physicalStart, resource.resourceLength⟩

/-- A HOB: the memory type information, or a resource. -/
inductive Hob where
  | memoryTypeInformation (data : List MemoryTypeInformation)
  | resourceDescriptor (resource : ResourceDescriptor)
  deriving DecidableEq, Repr

/-- What memory is handed over among: whether asserts are enabled, `EfiMaxMemoryType`, `PcdTSegSize`, the
size of memory, the boot mode, the memory type information in the variable store, and what stands in
memory behind the data of the HOB that is made of it. -/
structure Platform where
  enabled : Bool
  efiMaxMemoryType : BitVec 32
  tSegSize : BitVec 32
  totalMemorySize : BitVec 32
  bootInRecoveryMode : Bool
  variable_ : Option (List MemoryTypeInformation)
  behind : Nat → MemoryTypeInformation

def efiPageSize : Nat := 0x1000

def dxeMemSizePages : Nat := 0x20

def peiMinMemorySize : Nat := 6 * 0x800000

section

variable (platform : Platform)

/-- `mDefaultQNCMemoryTypeInformation`. -/
def defaultMemoryTypeInformation : List MemoryTypeInformation :=
  [⟨0, 0x20⟩, ⟨10, 0xD00⟩, ⟨6, 0x60⟩, ⟨5, 0x60⟩, ⟨9, 0x40⟩, ⟨platform.efiMaxMemoryType, 0⟩]

/-- What `GetVariable` yields for a buffer of `EfiMaxMemoryType + 1` entries. -/
def getVariable : Option (List MemoryTypeInformation) :=
  platform.variable_.filter fun data => data.length ≤ platform.efiMaxMemoryType.toNat + 1

/-- `MemoryData`: what the variable holds, or the default where it cannot be read and in recovery. -/
def memoryData : List MemoryTypeInformation :=
  if platform.bootInRecoveryMode then defaultMemoryTypeInformation platform
  else (getVariable platform).getD (defaultMemoryTypeInformation platform)

/-- The loop of `GetPlatformMemorySize`. The product is a `UINT32`, the sum a `UINT64`. -/
def addMemoryData : List MemoryTypeInformation → Nat → Exec (List Hob) Nat
  | [], memorySize => pure memorySize
  | entry :: data, memorySize =>
    if entry.type = platform.efiMaxMemoryType then
      pure memorySize
    else do
      assert platform.enabled (entry.type < platform.efiMaxMemoryType)
      addMemoryData data
        ((memorySize + entry.numberOfPages.toNat * efiPageSize % 2 ^ 32) % 2 ^ 64)

def getPlatformMemorySize : Exec (List Hob) Nat := do
  let memorySize ← addMemoryData platform (memoryData platform) peiMinMemorySize
  modify (· ++ [.memoryTypeInformation (memoryData platform)])
  pure memorySize

def entryAt (data : List MemoryTypeInformation) (index : Nat) : MemoryTypeInformation :=
  (data[index]?).getD (platform.behind (index - data.length))

/-- The loop body of `RetriveRequiredMemorySize`, with the `UINT8` index. -/
def requiredBody (data : List MemoryTypeInformation) :
    Nat × Nat → Exec (List Hob) (Nat × Nat ⊕ Nat)
  | (index, tempPageNum) =>
    let entry := entryAt platform data index
    if entry.type = platform.efiMaxMemoryType then
      pure (.inr tempPageNum)
    else
      pure (.inl ((index + 1) % 2 ^ 8, (tempPageNum + entry.numberOfPages.toNat) % 2 ^ 32))

def findMemoryTypeInformation : List Hob → Option (List MemoryTypeInformation)
  | [] => none
  | .memoryTypeInformation data :: _ => some data
  | .resourceDescriptor _ :: hobs => findMemoryTypeInformation hobs

/-- The size that a number of pages comes to, which leaves `size` as it is for no pages. -/
def requiredSize (size tempPageNum : Nat) : Nat :=
  if tempPageNum = 0 then size else (tempPageNum + dxeMemSizePages) * efiPageSize % 2 ^ 32

/-- `RetriveRequiredMemorySize`. After 256 entries without a terminator the index is back at the first
one, and the loop does not end. -/
def retriveRequiredMemorySize (size : Nat) : Exec (List Hob) Nat := do
  let hobs ← get
  match findMemoryTypeInformation hobs with
  | none => pure size
  | some data => do
    let tempPageNum ← loop 257 (requiredBody platform data) (0, 0)
    pure (requiredSize size tempPageNum)

def maxAddress : Nat := 0xFFFFFFFF

def MapRange.isUsable (range : MapRange) : Prop :=
  range.type = .mainMemory ∧ (range.physicalAddress + range.rangeLength) % 2 ^ 64 < maxAddress

instance (range : MapRange) : Decidable range.isUsable := by
  unfold MapRange.isUsable
  infer_instance

/-- The loop that chooses the range for PEI memory: the base, and the index once there is one. -/
def choosePeiMemory (peiMemoryLength : Nat) :
    List MapRange → Nat → Nat × Option Nat → Nat × Option Nat
  | [], _, chosen => chosen
  | range :: ranges, index, chosen =>
    if range.isUsable ∧ range.physicalAddress ≥ chosen.1 ∧ range.rangeLength ≥ peiMemoryLength then
      choosePeiMemory peiMemoryLength ranges (index + 1)
        (sub64 ((range.physicalAddress + range.rangeLength) % 2 ^ 64) peiMemoryLength, some index)
    else
      choosePeiMemory peiMemoryLength ranges (index + 1) chosen

/-- The loop that chooses `LargeMemRangeBuf`, the largest range but for PEI memory. -/
def chooseLargeMemRange (peiMemoryLength peiMemoryIndex : Nat) :
    List MapRange → Nat → Span → Span
  | [], _, large => large
  | range :: ranges, index, large =>
    let next : Span :=
      if ¬ range.isUsable then large
      else if index ≠ peiMemoryIndex then
        if range.rangeLength > large.length then
          ⟨range.physicalAddress % 2 ^ 32, range.rangeLength % 2 ^ 32⟩
        else large
      else
        if sub64 range.rangeLength peiMemoryLength ≥ large.length then
          ⟨range.physicalAddress % 2 ^ 32, sub64 range.rangeLength peiMemoryLength % 2 ^ 32⟩
        else large
    chooseLargeMemRange peiMemoryLength peiMemoryIndex ranges (index + 1) next

/-- `EFI_RESOURCE_ATTRIBUTE_PRESENT`, `INITIALIZED` and the cacheabilities of main memory. -/
def mainMemoryAttribute : Nat := 0x1 + 0x2 + 0x400 + 0x800 + 0x1000 + 0x2000

/-- `EFI_RESOURCE_ATTRIBUTE_TESTED`. -/
def testedAttribute : Nat := 0x4

/-- `Attribute` of a range that is not main memory. -/
def reservedAttribute : RangeType → Nat
  | .smramNonCacheable | .graphicsMemoryNonCacheable => 0x400
  | .smramCacheable | .graphicsMemoryCacheable | .reservedMemory => 0x2000 + 0x400
  | .mainMemory => 0

def resourceOf (peiMemoryLength peiMemoryIndex index : Nat) (range : MapRange) : ResourceDescriptor :=
  if range.type = .mainMemory then
    if index = peiMemoryIndex then
      ⟨true, mainMemoryAttribute, range.physicalAddress, sub64 range.rangeLength peiMemoryLength⟩
    else
      ⟨true, mainMemoryAttribute, range.physicalAddress, range.rangeLength⟩
  else
    ⟨false, reservedAttribute range.type, range.physicalAddress, range.rangeLength⟩

/-- The resource HOBs for the ranges, from `index` on. -/
def resourcesOf (peiMemoryLength peiMemoryIndex : Nat) : Nat → List MapRange → List Hob
  | _, [] => []
  | index, range :: ranges =>
    .resourceDescriptor (resourceOf peiMemoryLength peiMemoryIndex index range) ::
      resourcesOf peiMemoryLength peiMemoryIndex (index + 1) ranges

/-- What `InstallEfiMemory` settles: the memory map, PEI memory and its part for ACPI, what of it is
installed, and `LargeMemRangeBuf`. -/
structure Installation where
  memoryMap : List MapRange
  peiMemory : Span
  requiredMemSize : Nat
  installed : Span
  largeMemRange : Span

def installEfiMemory : Exec (List Hob) Installation := do
  let memoryMap := (getMemoryMap platform.tSegSize platform.totalMemorySize).1
  let peiMemoryLength ← getPlatformMemorySize platform
  let requiredMemSize ← retriveRequiredMemorySize platform 0
  let chosen := choosePeiMemory peiMemoryLength memoryMap 0 (0, none)
  assert platform.enabled (chosen.2.isSome = true)
  let peiMemoryIndex := chosen.2.getD memoryMap.length
  let largeMemRange := chooseLargeMemRange peiMemoryLength peiMemoryIndex memoryMap 0 ⟨0, 0⟩
  modify (· ++ [.resourceDescriptor
    ⟨true, mainMemoryAttribute + testedAttribute, chosen.1, peiMemoryLength⟩])
  modify (· ++ resourcesOf peiMemoryLength peiMemoryIndex 0 memoryMap)
  pure {
    memoryMap, requiredMemSize, largeMemRange
    peiMemory := ⟨chosen.1, peiMemoryLength⟩
    installed := ⟨chosen.1, sub64 peiMemoryLength requiredMemSize⟩
  }

/-- The sum of `InfoPostInstallMemory` over the HOBs. -/
def calcLength : List Hob → Nat → Nat
  | [], length => length
  | .resourceDescriptor resource :: hobs, length =>
    if resource.systemMemory ∧ resource.physicalStart ≥ 0x100000 then
      calcLength hobs ((length + resource.resourceLength) % 2 ^ 64)
    else calcLength hobs length
  | .memoryTypeInformation _ :: hobs, length => calcLength hobs length

/-- `InfoPostInstallMemory`, as far as `RmuMainBaseAddress` goes. -/
def infoPostInstallMemory (hobs : List Hob) : Nat := calcLength hobs 0x100000 % 2 ^ 32

end

end Quark.PlatformInit
