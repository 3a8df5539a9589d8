import Quark.Machine.Exec
import Quark.Machine.LittleEndian

/-!
# The recovery module

`PlatformRecoveryModule` once the device recovery module has loaded the recovery file: the HOB of the main
firmware volume is redirected to the file, a firmware volume at its top is announced, and a capsule behind it.

Pointers are 32 bits wide, and a sum of pointers wraps. What is read of the file, and outside it, is noted, and so
is which HOBs are written.
-/

namespace Quark.PlatformInit.Recovery

open Machine Exec

/-! ## What the module finds -/

/-- The file in memory, in pages that were allocated for it. Elsewhere the memory holds anything. -/
structure LoadedFile where
  base : Nat
  recoveryCapsuleSize : Nat
  mem : Nat → Byte
  page_le : 0x1000 ≤ base
  base_lt : base < 2 ^ 32
  end_le : base + recoveryCapsuleSize ≤ 2 ^ 32

/-- The PCDs, and whether `PeiServicesSetBootMode` fails. -/
structure RecoveryPlatform where
  fvSecurityHeaderSize : Nat
  flashFvMainBase : Nat
  bootModeError : Bool
  fvSecurityHeaderSize_lt : fvSecurityHeaderSize < 2 ^ 32

inductive Hob where
  | firmwareVolume (baseAddress length : Nat)
  | capsuleVolume (baseAddress length : Nat)
  | guidData (data : List Byte)
  | other
  deriving DecidableEq, Repr

/-- A HOB of the list, and whether the module updated or built it. -/
structure HobEntry where
  hob : Hob
  written : Bool
  deriving DecidableEq, Repr

structure RecoveryState where
  hobs : List HobEntry
  /-- Address and length. -/
  reads : List (Nat × Nat)
  bootOnFlashUpdate : Bool
  bootingRecoveryDxe : Bool

def RecoveryState.start (hobs : List Hob) : RecoveryState :=
  ⟨hobs.map fun h => ⟨h, false⟩, [], false, false⟩

/-! ## Steps -/

def LoadedFile.bytesAt (file : LoadedFile) (addr n : Nat) : List Byte :=
  (List.range n).map fun i => file.mem ((addr + i) % 2 ^ 32)

def RecoveryState.noteRead (s : RecoveryState) (addr n : Nat) : RecoveryState :=
  { s with reads := s.reads ++ [(addr % 2 ^ 32, n)] }

def RecoveryState.build (s : RecoveryState) (hob : Hob) : RecoveryState :=
  { s with hobs := s.hobs ++ [⟨hob, true⟩] }

def readBytes (file : LoadedFile) (addr n : Nat) : Exec RecoveryState (List Byte) := do
  modify fun s => s.noteRead addr n
  pure (file.bytesAt addr n)

/-- `Hob.FirmwareVolume->BaseAddress == (UINTN) PcdGet32 (PcdFlashFvMainBase)`. -/
def isFlashFvMain (P : RecoveryPlatform) : Hob → Bool
  | .firmwareVolume baseAddress _ => baseAddress = P.flashFvMainBase
  | _ => false

def RecoveryState.updateFvHobs (P : RecoveryPlatform) (buffer size : Nat) (s : RecoveryState) : RecoveryState :=
  { s with hobs := s.hobs.map fun h => if isFlashFvMain P h.hob then ⟨.firmwareVolume buffer size, true⟩ else h }

/-- "_FVH". -/
def efiFvhSignature : List Byte := [0x5F, 0x46, 0x56, 0x48]

/-- "HSC_". -/
def quarkCshIdentifier : List Byte := [0x48, 0x53, 0x43, 0x5F]

/-- `QUARK_CAPSULE_GUID`. -/
def efiCapsuleHeaderGuid : List Byte :=
  [0xE4, 0xD1, 0x00, 0xD4, 0x14, 0xA3, 0x2B, 0x44, 0x89, 0xED, 0xA9, 0x2E, 0x4C, 0x81, 0x97, 0xCB]

/-- Zero is `NULL`. -/
def buildCapsuleSecurityHeaderHob (P : RecoveryPlatform) (file : LoadedFile) (secHdr : Nat) :
    Exec RecoveryState Unit :=
  when (secHdr ≠ 0) do
    let identifier ← readBytes file secHdr 4
    when (identifier = quarkCshIdentifier) do
      let data ← readBytes file secHdr P.fvSecurityHeaderSize
      modify fun s => s.build (.guidData data)

/-- A firmware volume at the top of the file. `CapsuleHeader` and `CapsuleSecurityHeader`. -/
def topOfFile (P : RecoveryPlatform) (file : LoadedFile) (hobUpdate : Bool) (buffer : Nat) :
    Exec RecoveryState (Nat × Nat) := do
  let signature ← readBytes file (buffer + 40) 4
  if signature = efiFvhSignature then do
    let length ← readBytes file (buffer + 32) 8
    let fvLength := leValue length
    when (hobUpdate = false) (modify fun s => s.build (.firmwareVolume buffer fvLength))
    pure ((buffer + fvLength + P.fvSecurityHeaderSize) % 2 ^ 32, (buffer + fvLength) % 2 ^ 32)
  else pure (buffer, 0)

def capsuleInFile (P : RecoveryPlatform) (file : LoadedFile) (buffer capsuleHeader secHdr : Nat) :
    Exec RecoveryState Unit :=
  when (capsuleHeader < (buffer + file.recoveryCapsuleSize) % 2 ^ 32) do
    let guid ← readBytes file capsuleHeader 16
    when (guid = efiCapsuleHeaderGuid) do
      buildCapsuleSecurityHeaderHob P file secHdr
      when (P.bootModeError = false) do
        modify fun s => { s with bootOnFlashUpdate := true, bootingRecoveryDxe := true }
        let size ← readBytes file (capsuleHeader + 24) 4
        modify fun s => s.build (.capsuleVolume capsuleHeader (leValue size))

def platformRecoveryModule (P : RecoveryPlatform) (file : LoadedFile) : Exec RecoveryState Unit := do
  let buffer := (file.base + P.fvSecurityHeaderSize) % 2 ^ 32
  let s ← get
  let hobUpdate := s.hobs.any fun h => isFlashFvMain P h.hob
  modify fun s => s.updateFvHobs P buffer file.recoveryCapsuleSize
  let (capsuleHeader, secHdr) ← topOfFile P file hobUpdate buffer
  capsuleInFile P file buffer capsuleHeader secHdr

/-! ## Staying in the file -/

def LoadedFile.Inside (file : LoadedFile) (addr n : Nat) : Prop :=
  file.base ≤ addr ∧ addr + n ≤ file.base + file.recoveryCapsuleSize

def Hob.InFile (file : LoadedFile) : Hob → Prop
  | .firmwareVolume baseAddress length => file.Inside baseAddress length
  | .capsuleVolume baseAddress length => file.Inside baseAddress length
  | _ => True

/-- Every read was in the file, and every HOB that was written describes a range of it. -/
structure RecoveryState.Contained (file : LoadedFile) (s : RecoveryState) : Prop where
  reads : ∀ r ∈ s.reads, file.Inside r.1 r.2
  hobs : ∀ h ∈ s.hobs, h.written = true → h.hob.InFile file

/-! ## Files that fit -/

section
variable (P : RecoveryPlatform) (file : LoadedFile)

def LoadedFile.bytes (off n : Nat) : List Byte := file.bytesAt (file.base + off) n

def LoadedFile.HasVolume : Prop := file.bytes (P.fvSecurityHeaderSize + 40) 4 = efiFvhSignature

instance : Decidable (file.HasVolume P) := inferInstanceAs (Decidable (_ = _))

def LoadedFile.fvLength : Nat := leValue (file.bytes (P.fvSecurityHeaderSize + 32) 8)

def LoadedFile.volumeEnd : Nat := (P.fvSecurityHeaderSize + file.fvLength P) % 2 ^ 32

def LoadedFile.capsuleOffset : Nat :=
  if file.HasVolume P then (P.fvSecurityHeaderSize + file.fvLength P + P.fvSecurityHeaderSize) % 2 ^ 32
  else P.fvSecurityHeaderSize

/-- The place is below the limit, which stands a security header behind the end of the file. -/
def LoadedFile.BelowLimit : Prop :=
  (file.base + file.capsuleOffset P) % 2 ^ 32
    < (file.base + P.fvSecurityHeaderSize + file.recoveryCapsuleSize) % 2 ^ 32

def LoadedFile.HasCapsule : Prop := file.bytes (file.capsuleOffset P) 16 = efiCapsuleHeaderGuid

def LoadedFile.SecurityHeaderFits : Prop :=
  file.HasVolume P → (file.base + file.volumeEnd P) % 2 ^ 32 ≠ 0 →
    file.volumeEnd P + 4 ≤ file.recoveryCapsuleSize ∧
      (file.bytes (file.volumeEnd P) 4 = quarkCshIdentifier →
        file.volumeEnd P + P.fvSecurityHeaderSize ≤ file.recoveryCapsuleSize)

def LoadedFile.CapsuleFits : Prop :=
  file.capsuleOffset P + 28 ≤ file.recoveryCapsuleSize ∧
    file.capsuleOffset P + leValue (file.bytes (file.capsuleOffset P + 24) 4) ≤ file.recoveryCapsuleSize

/-- A volume at the top: the field with its length lies in the file, and so does what is announced. -/
def LoadedFile.VolumeFits (hobs : List Hob) : Prop :=
  (P.fvSecurityHeaderSize + 32) % 2 ^ 32 + 8 ≤ file.recoveryCapsuleSize ∧
    (hobs.any (isFlashFvMain P) = false →
      P.fvSecurityHeaderSize + file.fvLength P ≤ file.recoveryCapsuleSize)

/-- The signature of a volume header lies in the file; the HOB of the main volume is only redirected where there is
no security header; a volume fits; and so do a GUID that is compared, a security header and a capsule. -/
structure LoadedFile.Fits (hobs : List Hob) : Prop where
  signature : (P.fvSecurityHeaderSize + 40) % 2 ^ 32 + 4 ≤ file.recoveryCapsuleSize
  update : hobs.any (isFlashFvMain P) = true → P.fvSecurityHeaderSize = 0
  volume : file.HasVolume P → file.VolumeFits P hobs
  guid : file.BelowLimit P → file.capsuleOffset P + 16 ≤ file.recoveryCapsuleSize
  security : file.BelowLimit P → file.HasCapsule P → file.SecurityHeaderFits P
  capsule : file.BelowLimit P → file.HasCapsule P → P.bootModeError = false → file.CapsuleFits P

end

end Quark.PlatformInit.Recovery
