import Mathlib.Algebra.GroupWithZero.Nat
import Quark.PlatformInit.InstallMemory

/-!
# What the hand-off is for

Every byte of memory is described once, by the memory map and by the HOBs, and what is given to PEI, to
the memory allocator, to SMM and to the remote management unit is never the same byte.
-/

namespace Quark.PlatformInit

open Machine Machine.Exec

section

variable (platform : Platform)

def Terminates (entry : MemoryTypeInformation) : Prop := entry.type = platform.efiMaxMemoryType

instance (entry : MemoryTypeInformation) : Decidable (Terminates platform entry) := by
  unfold Terminates
  infer_instance

def usedEntries (data : List MemoryTypeInformation) : List MemoryTypeInformation :=
  data.takeWhile fun entry => ¬ Terminates platform entry

def pages (entries : List MemoryTypeInformation) : Nat :=
  (entries.map fun entry => entry.numberOfPages.toNat).sum

/-- `PeiMemoryLength` for the entries that are used. -/
def peiMemoryLength (entries : List MemoryTypeInformation) (memorySize : Nat) : Nat :=
  entries.foldl (fun memorySize entry =>
    (memorySize + entry.numberOfPages.toNat * efiPageSize % 2 ^ 32) % 2 ^ 64) memorySize

def countedEntries : List MemoryTypeInformation := usedEntries platform (memoryData platform)

def tsegLength : Nat := (blockNum (chooseRanges platform.tSegSize) * 128 * 1024).toNat

/-- The first megabyte, TSEG, the shadow of the remote management unit and PEI memory fit in memory. -/
def Fits : Prop :=
  0x100000 + tsegLength platform + 0x10000 +
    peiMemoryLength (countedEntries platform) peiMinMemorySize ≤ platform.totalMemorySize.toNat

end

def resources : List Hob → List ResourceDescriptor
  | [] => []
  | .resourceDescriptor resource :: hobs => resource :: resources hobs
  | .memoryTypeInformation _ :: hobs => resources hobs

/-- What is to hold after the hand-off, with `tseg` and `rmu` the ranges of SMM and of the remote
management unit. -/
structure Partitioned (platform : Platform) (installation : Installation) (hobs : List Hob)
    (tseg rmu : Span) : Prop where
  tseg_range : (installation.memoryMap.filter (·.type = .smramCacheable)).map MapRange.span = [tseg]
  rmu_range : installation.memoryMap.getLast?.map MapRange.span = some rmu
  memory_map : Span.Partition platform.totalMemorySize.toNat (installation.memoryMap.map MapRange.span)
  resource_hobs : Span.Partition platform.totalMemorySize.toNat ((resources hobs).map ResourceDescriptor.span)
  apart : [installation.peiMemory, installation.largeMemRange, tseg, rmu].Pairwise Span.Apart
  pei_memory : installation.peiMemory.length =
    peiMinMemorySize + pages (countedEntries platform) * efiPageSize
  required : installation.requiredMemSize =
    if pages (countedEntries platform) = 0 then 0
    else (pages (countedEntries platform) + dxeMemSizePages) * efiPageSize
  required_le : installation.requiredMemSize ≤ installation.peiMemory.length
  rmu_base : infoPostInstallMemory hobs = rmu.offset

def HandsOver (platform : Platform) : Prop :=
  ∃ installation hobs tseg rmu, installEfiMemory platform [] = .ret installation hobs ∧
    Partitioned platform installation hobs tseg rmu

/-- The pages of the entries from one index to another, read from the data of the HOB on. -/
def pagesBetween (platform : Platform) (data : List MemoryTypeInformation) (start stop : Nat) : Nat :=
  ((List.range' start (stop - start)).map fun i =>
    (entryAt platform data i).numberOfPages.toNat).sum

def FirstTerminator (platform : Platform) (data : List MemoryTypeInformation) (k : Nat) : Prop :=
  Terminates platform (entryAt platform data k) ∧
    ∀ i < k, ¬ Terminates platform (entryAt platform data i)

/-- The entries that count are of known types, fewer than 256 entries stand before the first terminator
from the start of the list on, and the pages are few enough for the product and those of the entries that
do not count are lost in it. Without pages that count the others are lost in the sum, or they are lost
together with those that are always added. -/
structure WalksAgree (platform : Platform) : Prop where
  known : platform.enabled = true →
    ∀ entry ∈ countedEntries platform, entry.type < platform.efiMaxMemoryType
  terminator : ∃ k < 256, FirstTerminator platform (memoryData platform) k ∧
    (pages (countedEntries platform) = 0 →
      pagesBetween platform (memoryData platform) (countedEntries platform).length k % 2 ^ 32 = 0 ∨
      (pagesBetween platform (memoryData platform) (countedEntries platform).length k +
        dxeMemSizePages) % 2 ^ 20 = 0) ∧
    (0 < pages (countedEntries platform) →
      pages (countedEntries platform) + dxeMemSizePages < 2 ^ 20 ∧
      pagesBetween platform (memoryData platform) (countedEntries platform).length k % 2 ^ 20 = 0)

end Quark.PlatformInit
