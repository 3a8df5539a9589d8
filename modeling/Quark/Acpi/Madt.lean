import Quark.Base.Efi
import Quark.Machine.LittleEndian

/-!
# The multiple APIC description table

`MadtPlatform.c`: one function computes the size of the table, and another writes the structures one
behind the other, each at the pointer that the one in front of it has left.

`UINTN` and pointers have 32 bits. The memory that is written is the table that was allocated.
-/

namespace Quark.Acpi

open Machine

/-! ## The configuration -/

structure InterruptOverrideSetting where
  enable : BitVec 8
  sourceIrq : BitVec 8
  polarity : BitVec 8
  trigerMode : BitVec 8
  globalIrq : BitVec 32

structure IoApicSetting where
  ioApicAddress : BitVec 32
  globalInterruptBase : BitVec 32
  ioApicId : BitVec 8
  nmiEnable : BitVec 8
  nmiSource : BitVec 8
  polarity : BitVec 8
  trigerMode : BitVec 8

structure LocalApicSetting where
  nmiEnabelApicIdMask : BitVec 8
  addressOverrideEnable : BitVec 8
  polarity : BitVec 8
  trigerMode : BitVec 8
  localApicLint : BitVec 8
  localApicAddress : BitVec 32
  localApicAddressOverride : BitVec 64

/-- `MADT_CONFIG_DATA`, with `EFI_ACPI_INTERRUPT_SOURCE_OVERRIDE_COUNT_MAX` override settings. -/
structure MadtConfigData where
  interruptSetting : List InterruptOverrideSetting
  ioApicSetting : IoApicSetting
  localApicSetting : LocalApicSetting
  interruptSetting_length : interruptSetting.length = 16

/-- `MadtConfigData.MadtLocalApicSetting.NmiEnabelApicIdMask & (1 << Index)`. The processor shifts by the
low five bits of the count. -/
def nmiMask (mask : BitVec 8) (index : Nat) : BitVec 32 := mask.setWidth 32 &&& (1#32 <<< (index % 32))

/-- The `Flags` of a structure: `((TrigerMode & 0x03) << 2) | (Polarity & 0x03)`. -/
def intiFlags (trigerMode polarity : BitVec 8) : BitVec 16 :=
  ((trigerMode.setWidth 16 &&& 3) <<< 2) ||| (polarity.setWidth 16 &&& 3)

/-! ## The structures

Bytes that are reserved are zero, as `AllocateZeroPool` left them.
-/

def wordBytes {w : Nat} (k : Nat) (v : BitVec w) : List Byte := leBytes k v.toNat

/-- `EFI_ACPI_2_0_MULTIPLE_APIC_DESCRIPTION_TABLE_HEADER`. -/
def madtHeader (cfg : MadtConfigData) (madtSize : BitVec 32) : List Byte :=
  ['A', 'P', 'I', 'C'].map (fun c => BitVec.ofNat 8 c.toNat) ++ wordBytes 4 madtSize ++ [1, 0] ++
    ['I', 'N', 'T', 'E', 'L', ' '].map (fun c => BitVec.ofNat 8 c.toNat) ++
    leBytes 8 0x2020204F4E414954 ++ leBytes 4 1 ++ leBytes 4 0x5446534D ++ leBytes 4 0 ++
    wordBytes 4 cfg.localApicSetting.localApicAddress ++ leBytes 4 1

/-- `EFI_ACPI_2_0_PROCESSOR_LOCAL_APIC_STRUCTURE`. -/
def processorLocalApic (index : Nat) : List Byte := [0, 8, BitVec.ofNat 8 (index + 1), 0xFF] ++ leBytes 4 0

/-- `EFI_ACPI_2_0_IO_APIC_STRUCTURE`. -/
def ioApic (s : IoApicSetting) : List Byte :=
  [1, 12, s.ioApicId, 0] ++ wordBytes 4 s.ioApicAddress ++ wordBytes 4 s.globalInterruptBase

/-- `EFI_ACPI_2_0_INTERRUPT_SOURCE_OVERRIDE_STRUCTURE`. -/
def interruptSourceOverride (s : InterruptOverrideSetting) : List Byte :=
  [2, 10, 0, s.sourceIrq] ++ wordBytes 4 s.globalIrq ++ wordBytes 2 (intiFlags s.trigerMode s.polarity)

/-- `EFI_ACPI_2_0_NON_MASKABLE_INTERRUPT_SOURCE_STRUCTURE`. -/
def ioApicNmiSource (s : IoApicSetting) : List Byte :=
  [3, 8] ++ wordBytes 2 (intiFlags s.trigerMode s.polarity) ++ wordBytes 4 s.nmiSource

/-- `EFI_ACPI_2_0_LOCAL_APIC_NMI_STRUCTURE`. -/
def localApicNmiSource (s : LocalApicSetting) (index : Nat) : List Byte :=
  [4, 6, BitVec.ofNat 8 (index + 1)] ++ wordBytes 2 (intiFlags s.trigerMode s.polarity) ++ [s.localApicLint]

/-- `EFI_ACPI_2_0_LOCAL_APIC_ADDRESS_OVERRIDE_STRUCTURE`. -/
def localApicAddressOverride (s : LocalApicSetting) : List Byte :=
  [5, 12, 0, 0] ++ wordBytes 8 s.localApicAddressOverride

/-! ## The size -/

/-- One iteration over the processors. `Index` is a `UINT8`, `NumberOfCPUs` an `INTN`. -/
def nmiSizeBody (mask : BitVec 8) (numberOfCpus : BitVec 32) (l : BitVec 8 × BitVec 32) :
    Exec (List Byte) ((BitVec 8 × BitVec 32) ⊕ BitVec 32) :=
  if (l.1.toNat : Int) < numberOfCpus.toInt then
    pure (.inl (l.1 + 1, if nmiMask mask l.1.toNat ≠ 0 then l.2 + 6 else l.2))
  else pure (.inr l.2)

def getAcutalMadtTableSize (fuel : Nat) (cfg : MadtConfigData) (numberOfCpus : BitVec 32) :
    Exec (List Byte) (BitVec 32) := do
  let overrides : BitVec 32 := if cfg.localApicSetting.addressOverrideEnable ≠ 0 then 1 else 0
  let madtSize := 44 + 8 * numberOfCpus + 12 + 12 * overrides
  let madtSize := cfg.interruptSetting.foldl (fun size s => if s.enable ≠ 0 then size + 10 else size) madtSize
  let madtSize ←
    .loop fuel (nmiSizeBody cfg.localApicSetting.nmiEnabelApicIdMask numberOfCpus) (0, madtSize)
  pure (if cfg.ioApicSetting.nmiEnable ≠ 0 then madtSize + 8 else madtSize)

/-! ## The table -/

def writeAt (off : Nat) (bytes : List Byte) : Exec (List Byte) Unit := do
  let table ← .get
  match put? table off bytes with
  | some table => .modify fun _ => table
  | none => .halt .outOfBounds

/-- Where `present` holds of an entry, its structure is written and the pointer moves behind it. -/
def writeEach {α : Type} (present : α → Bool) (structureOf : α → List Byte) : List α → Nat → Exec (List Byte) Nat
  | [], off => pure off
  | a :: rest, off =>
    if present a then do
      writeAt off (structureOf a)
      writeEach present structureOf rest (off + (structureOf a).length)
    else writeEach present structureOf rest off

/-- `MadtTableInitialize`, where `pool` is what `AllocateZeroPool` returns, with `NULL` for `none`, and
the number of processors is what the MP services protocol tells. The table is the state at the end. -/
def madtTableInitialize (fuel : Nat) (asserts : Bool) (pool : Option (BitVec 32)) (cfg : MadtConfigData)
    (numberOfCpus : BitVec 32) : Exec (List Byte) (BitVec 32) := do
  let madtSize ← getAcutalMadtTableSize fuel cfg numberOfCpus
  -- `ASSERT_EFI_ERROR (Madt)` takes the pointer for a status: an address from 2 GB on is an error to it
  assert asserts ((pool.getD 0).msb = false)
  if pool = none then .halt .outOfBounds
  else do
    .modify fun _ => List.replicate madtSize.toNat 0
    writeAt 0 (madtHeader cfg madtSize)
    let off ← writeEach (fun _ => true) processorLocalApic (List.range numberOfCpus.toNat) 44
    let off ← writeEach (fun _ => true) ioApic [cfg.ioApicSetting] off
    let off ← writeEach (fun s => s.enable ≠ 0) interruptSourceOverride cfg.interruptSetting off
    let off ← writeEach (fun s => s.nmiEnable ≠ 0) ioApicNmiSource [cfg.ioApicSetting] off
    let off ← writeEach (fun index => nmiMask cfg.localApicSetting.nmiEnabelApicIdMask index ≠ 0)
      (localApicNmiSource cfg.localApicSetting) (List.range numberOfCpus.toNat) off
    let _ ← writeEach (fun s => s.addressOverrideEnable ≠ 0) localApicAddressOverride [cfg.localApicSetting] off
    pure madtSize

/-! ## A well-formed table -/

/-- The structures that are written for the entries with `present`. -/
def structuresOf {α : Type} (present : α → Bool) (structureOf : α → List Byte) (entries : List α) :
    List (List Byte) :=
  (entries.filter present).map structureOf

/-- The structures of a table with an NMI structure for each processor that `nmi` holds of. -/
def structuresWith (cfg : MadtConfigData) (cpus : Nat) (nmi : Nat → Bool) : List (List Byte) :=
  structuresOf (fun _ => true) processorLocalApic (List.range cpus) ++
    (structuresOf (fun _ => true) ioApic [cfg.ioApicSetting] ++
      (structuresOf (fun s => s.enable ≠ 0) interruptSourceOverride cfg.interruptSetting ++
        (structuresOf (fun s => s.nmiEnable ≠ 0) ioApicNmiSource [cfg.ioApicSetting] ++
          (structuresOf nmi (localApicNmiSource cfg.localApicSetting) (List.range cpus) ++
            structuresOf (fun s => s.addressOverrideEnable ≠ 0) localApicAddressOverride [cfg.localApicSetting]))))

/-- The structures that are configured: the mask has one bit for each of the first eight processors. -/
def madtStructures (cfg : MadtConfigData) (cpus : Nat) : List (List Byte) :=
  structuresWith cfg cpus fun index => cfg.localApicSetting.nmiEnabelApicIdMask.getLsbD index

/-- A table is its header and the structures that are configured, one directly behind the other; it ends at
the `Length` of its header, and each structure has the length that its second byte tells. -/
structure MadtWellFormed (cfg : MadtConfigData) (cpus : Nat) (table : List Byte) : Prop where
  tiled : ∃ header : List Byte, header.length = 44 ∧ table = header ++ (madtStructures cfg cpus).flatten
  length : word? 4 table 4 = some table.length
  structureLength : ∀ s ∈ madtStructures cfg cpus, s[1]? = some (BitVec.ofNat 8 s.length) ∧ s.length < 256

end Quark.Acpi
