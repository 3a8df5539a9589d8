import Quark.Base.Efi
import Mathlib.Logic.Function.Basic

/-!
# Protected ranges of the SPI flash

`PlatformHelperLib.c`: three registers of the SPI controller each keep a range of the flash from being
written. A register has the page numbers of the first and of the last page of its range, and a bit that
enables it.

What a register holds after it was written is up to the controller, which may refuse the write.
-/

namespace Quark.PlatformHelper

open Machine

/-! ## Registers -/

/-- `R_QNC_RCRB_SPIPBR0` and the two registers behind it. -/
inductive ProtectRegister where
  | pbr0
  | pbr1
  | pbr2
  deriving DecidableEq, Repr

/-- `R_QNC_RCRB_SPIS`, the protect registers, and what the boot script for S3 writes to these. -/
structure SpiRegisters where
  spis : BitVec 16
  pbr : ProtectRegister → BitVec 32
  bootScript : List (ProtectRegister × BitVec 32)

/-- What a protect register holds after a write: from `R_QNC_RCRB_SPIS`, what it held, and what is written. -/
abbrev Latch := BitVec 16 → ProtectRegister → BitVec 32 → BitVec 32 → BitVec 32

abbrev scl : BitVec 16 := 0x8000

abbrev wpe : BitVec 32 := 0x80000000

/-- `MmioRead32` of a protect register. -/
def readPbr (r : ProtectRegister) : Exec SpiRegisters (BitVec 32) := do
  let s ← .get
  pure (s.pbr r)

/-- `MmioWrite32` to a protect register. -/
def writePbr (latch : Latch) (r : ProtectRegister) (value : BitVec 32) : Exec SpiRegisters Unit :=
  .modify fun s => { s with pbr := Function.update s.pbr r (latch s.spis r (s.pbr r) value) }

/-- `MmioRead16` of `R_QNC_RCRB_SPIS`. -/
def readSpis : Exec SpiRegisters (BitVec 16) := do
  let s ← .get
  pure s.spis

/-! ## Protecting a range -/

/-- `ALIGN_LENGTH` for a step of a page. -/
def alignLength (len : BitVec 32) : BitVec 32 := len + ((0x1000 - len) &&& 0xFFF)

/-- `RegVal` as it is written for a range, or the value that is given for it. -/
def protectValue (directValue baseAddress length : BitVec 32) : BitVec 32 :=
  (if directValue = 0 then
    ((baseAddress + alignLength length - 1) &&& 0x00FFF000) ||| ((baseAddress >>> 12) &&& 0xFFF)
  else directValue) ||| wpe

def freeRegister : Exec SpiRegisters (Option ProtectRegister) := do
  let v ← readPbr .pbr0
  if v = 0 then pure (some .pbr0)
  else do
    let v ← readPbr .pbr1
    if v = 0 then pure (some .pbr1)
    else do
      let v ← readPbr .pbr2
      if v = 0 then pure (some .pbr2) else pure none

/-- `WriteFirstFreeSpiProtect`, with the register at `*OffsetPtr`. The base of the root complex is there. -/
def writeFirstFreeSpiProtect (latch : Latch) (directValue baseAddress length : BitVec 32) :
    Exec SpiRegisters (EfiStatus × Option ProtectRegister) := do
  let offset ← freeRegister
  match offset with
  | none => pure (.notFound, none)
  | some r => do
    let regVal := protectValue directValue baseAddress length
    writePbr latch r regVal
    let v ← readPbr r
    if regVal = v then pure (.success, some r) else pure (.deviceError, none)

/-- `PlatformWriteFirstFreeSpiProtect`. The instance for DXE saves the register in the boot script. -/
def platformWriteFirstFreeSpiProtect (latch : Latch) (dxe : Bool)
    (directValue baseAddress length : BitVec 32) : Exec SpiRegisters EfiStatus := do
  let (status, freeOffset) ← writeFirstFreeSpiProtect latch directValue baseAddress length
  match freeOffset with
  | none => pure status
  | some r => do
    let v ← readPbr r
    .when (dxe = true) (.modify fun s => { s with bootScript := s.bootScript ++ [(r, v)] })
    pure status

/-- `PlatformClearSpiProtect`. The register that is read back is the first one each time. -/
def platformClearSpiProtect (latch : Latch) : Exec SpiRegisters EfiStatus := do
  let spis ← readSpis
  if spis &&& scl ≠ 0 then pure .accessDenied
  else do
    writePbr latch .pbr0 0
    let v ← readPbr .pbr0
    if v ≠ 0 then pure .accessDenied
    else do
      writePbr latch .pbr1 0
      let v ← readPbr .pbr0
      if v ≠ 0 then pure .accessDenied
      else do
        writePbr latch .pbr2 0
        let v ← readPbr .pbr0
        if v ≠ 0 then pure .accessDenied else pure .success

/-! ## Asking for a range -/

def protectedBase (regVal : BitVec 32) : BitVec 32 := (regVal &&& 0xFFF) <<< 12

def protectedLimit (regVal : BitVec 32) : BitVec 32 := (regVal &&& 0x00FFF000) + 0xFFF

def protectsUpTo (regVal spiBaseAddress limit : BitVec 32) : Bool :=
  regVal &&& wpe ≠ 0 ∧ protectedBase regVal ≤ spiBaseAddress ∧ limit ≤ protectedLimit regVal

def platformIsSpiRangeProtected (spiBaseAddress length : BitVec 32) : Exec SpiRegisters Bool :=
  if 0 < length then do
    let limit := spiBaseAddress + (length - 1)
    let regVal ← readPbr .pbr0
    if protectsUpTo regVal spiBaseAddress limit then pure true
    else do
      let regVal ← readPbr .pbr1
      if protectsUpTo regVal spiBaseAddress limit then pure true
      else do
        let regVal ← readPbr .pbr2
        if protectsUpTo regVal spiBaseAddress limit then pure true else pure false
  else pure false

/-! ## What the protection is for -/

def Covers (regVal : BitVec 32) (a : Nat) : Prop :=
  regVal &&& wpe ≠ 0 ∧ (protectedBase regVal).toNat ≤ a ∧ a ≤ (protectedLimit regVal).toNat

def Protected (s : SpiRegisters) (a : Nat) : Prop := ∃ r, Covers (s.pbr r) a

def Reported (s : SpiRegisters) (base length : BitVec 32) : Prop :=
  ∃ t, platformIsSpiRangeProtected base length s = .ret true t

abbrev flashSpace : Nat := 0x1000000

/-- The routines agree on a range: what is reported is protected, what was written is reported and nothing
is lost by it, and what was cleared is no longer protected. -/
structure ProtectionAgrees (latch : Latch) (dxe : Bool) (s : SpiRegisters) (base length : BitVec 32) :
    Prop where
  query : Reported s base length →
    ∀ a, base.toNat ≤ a → a < base.toNat + length.toNat → Protected s a
  write : 0 < length.toNat → base.toNat + length.toNat ≤ flashSpace →
    ∀ t, platformWriteFirstFreeSpiProtect latch dxe 0 base length s = .ret .success t →
      Reported t base length ∧ (∀ a, Protected s a → Protected t a) ∧
        ∀ b n, Reported s b n → Reported t b n
  clear : ∀ t, platformClearSpiProtect latch s = .ret .success t → ∀ a, ¬ Protected t a

def roundedEnd (base length : Nat) : Nat := base + (length + 0xFFF) / 0x1000 * 0x1000

/-- A range past the end of the address space, whose last address comes again at its start: no register
takes it for one that it protects. -/
def WrapRefused (s : SpiRegisters) (base length : Nat) : Prop :=
  2 ^ 32 < base + length → ∀ r, s.pbr r &&& wpe ≠ 0 → (protectedBase (s.pbr r)).toNat ≤ base →
    (protectedLimit (s.pbr r)).toNat < base + length - 1 - 2 ^ 32

/-- The value for a range in the flash is taken by a free register: then the range does not end in the last
page in such a way that its rounded end is past the flash, or a register protects it already. -/
def WriteCovers (latch : Latch) (s : SpiRegisters) (base length : BitVec 32) : Prop :=
  0 < length.toNat → base.toNat + length.toNat ≤ flashSpace →
    ∀ r, freeRegister s = .ret (some r) s →
      latch s.spis r 0 (protectValue 0 base length) = protectValue 0 base length →
        roundedEnd base.toNat length.toNat ≤ flashSpace ∨
          ∃ r, s.pbr r &&& wpe ≠ 0 ∧ (protectedBase (s.pbr r)).toNat ≤ base.toNat ∧
            base.toNat + length.toNat ≤ (protectedLimit (s.pbr r)).toNat + 1

/-- Once the first register is cleared, the two others are too, or protect nothing all the same. -/
def ClearTaken (latch : Latch) (s : SpiRegisters) : Prop :=
  s.spis &&& scl = 0 → latch s.spis .pbr0 (s.pbr .pbr0) 0 = 0 →
    ∀ r, r ≠ .pbr0 → ∀ a, ¬ Covers (latch s.spis r (s.pbr r) 0) a

end Quark.PlatformHelper
