import Quark.Machine.Exec
import Quark.Machine.InsertionSort
import Quark.Machine.LittleEndian
import Quark.Machine.Memory
import Quark.Machine.Spans

/-!
# Loading a PE image

`SecureBootPeImage.c`: the headers of a PE32 or PE32+ file are read, and the file is hashed for its
Authenticode signature. The functions of the hash library succeed and are given spans of memory; a run
is followed by what it reads and by what it hashes.
-/

namespace Quark.SecureBoot

open Machine Machine.Exec

def dosSignature : Nat := 0x5A4D

def ntSignature : Nat := 0x00004550

def machineIa32 : Nat := 0x014C

def machineIa64 : Nat := 0x0200

def machineEbc : Nat := 0x0EBC

def machineX64 : Nat := 0x8664

def hdr32Magic : Nat := 0x10B

def hdr64Magic : Nat := 0x20B

def certTypePkcsSignedData : Nat := 0x0002

def certTypeEfiGuid : Nat := 0x0EF1

def hashAlgSha1 : Nat := 0

def hashAlgSha256 : Nat := 2

def gEfiCertTypeRsa2048Sha256Guid : List Byte :=
  [0x14, 0x74, 0x71, 0xA7, 0x16, 0xC6, 0x77, 0x49, 0x94, 0x20, 0x84, 0x47, 0x12, 0xA7, 0x35, 0xBF]

/-- `OidValue` of the entries of `mHashTable`. -/
def mHashTable : List (List Byte) :=
  [[0x2B, 0x0E, 0x03, 0x02, 0x1A],
   [0x60, 0x86, 0x48, 0x01, 0x65, 0x03, 0x04, 0x02, 0x04],
   [0x60, 0x86, 0x48, 0x01, 0x65, 0x03, 0x04, 0x02, 0x01],
   [0x60, 0x86, 0x48, 0x01, 0x65, 0x03, 0x04, 0x02, 0x02],
   [0x60, 0x86, 0x48, 0x01, 0x65, 0x03, 0x04, 0x02, 0x03]]

/-- A file that was copied to `ImageBase`. Addresses are 32 bits wide; `memory` is what stands at each
distance from `ImageBase`, and up to `imageSize` it is the file. While a file is copied it is in memory
twice. -/
structure LoadedImage where
  memory : Nat → Byte
  imageBase : BitVec 32
  imageSize : Nat
  copied : 2 * imageSize ≤ 2 ^ 32

/-- An access to the image, to read a field or to hash what stands there. -/
inductive Access where
  | read (s : Span)
  | hash (s : Span)
  deriving DecidableEq, Repr

def Access.span : Access → Span
  | .read s => s
  | .hash s => s

def Access.hashed? : Access → Option Span
  | .read _ => none
  | .hash s => some s

abbrev Load := Exec (List Access)

namespace LoadedImage

variable (image : LoadedImage)

/-- The `len` bytes at distance `off`. -/
def bytes (off len : Nat) : List Byte :=
  (List.range len).map fun i => image.memory ((off + i) % 2 ^ 32)

/-- The word of `len` bytes at distance `off`. -/
def word (off len : Nat) : Nat := leValue (image.bytes off len)

/-- Read `len` bytes. -/
def readBytes (off len : Nat) : Load (List Byte) := do
  modify (· ++ [.read ⟨off % 2 ^ 32, len⟩])
  pure (image.bytes off len)

/-- Read a word of `len` bytes. -/
def readWord (off len : Nat) : Load Nat := do
  let bytes ← image.readBytes off len
  pure (leValue bytes)

end LoadedImage

def hashUpdate (off len : Nat) : Load Unit := modify (· ++ [.hash ⟨off % 2 ^ 32, len⟩])

/-- `EFI_IMAGE_SECTION_HEADER`, as far as it is used. -/
structure SectionHeader where
  sizeOfRawData : Nat
  pointerToRawData : Nat
  deriving DecidableEq, Repr, Inhabited

def distance (a b : Nat) : Nat := sub32 (u32 a) (u32 b)

namespace LoadedImage

variable (image : LoadedImage) (peCoffHdrOff : Nat)

/-- `Magic`, where an Itanium image with the magic of PE32 counts as PE32+. -/
def readMagic : Load Nat := do
  let machine ← image.readWord (peCoffHdrOff + 4) 2
  if machine = machineIa64 then do
    let magic ← image.readWord (peCoffHdrOff + 24) 2
    pure (if magic = hdr32Magic then hdr64Magic else magic)
  else
    image.readWord (peCoffHdrOff + 24) 2

/-- `DataDirectory[EFI_IMAGE_DIRECTORY_ENTRY_SECURITY]` of the optional header for a magic. -/
def securityEntryOf (magic : Nat) : Nat :=
  if magic = hdr32Magic then peCoffHdrOff + 24 + 128 else peCoffHdrOff + 24 + 144

/-- The section header with an index in the table at `table`. -/
def readSectionHeader (table index : Nat) : Load SectionHeader := do
  let header ← image.readBytes (table + 40 * index) 40
  pure {
    sizeOfRawData := leValue ((header.drop 16).take 4)
    pointerToRawData := leValue ((header.drop 20).take 4)
  }

/-- The sort of step 12: `n` more headers go into the sorted table, from `index` on. -/
def sortSections (table : Nat) : Nat → Nat → List SectionHeader → Load (List SectionHeader)
  | 0, _, sectionHeader => pure sectionHeader
  | n + 1, index, sectionHeader => do
    let section_ ← image.readSectionHeader table index
    sortSections table n (index + 1)
      (shiftInsert SectionHeader.pointerToRawData section_ index sectionHeader)

end LoadedImage

def hashSections : List SectionHeader → Nat → Load Nat
  | [], sumOfBytesHashed => pure sumOfBytesHashed
  | section_ :: sections, sumOfBytesHashed =>
    if section_.sizeOfRawData = 0 then
      hashSections sections sumOfBytesHashed
    else do
      hashUpdate section_.pointerToRawData section_.sizeOfRawData
      hashSections sections ((sumOfBytesHashed + section_.sizeOfRawData) % 2 ^ 32)

namespace LoadedImage

variable (image : LoadedImage)

/-- `HashPeImage`. The result is `LoadInfo->ImageDigestSize`, which is not zero where the function
returns `TRUE`. The image does not change, so that a field is read once here where the source reads it
again. -/
def hashPeImage (peCoffHdrOff hashAlg : Nat) : Load Nat :=
  if hashAlg ≠ hashAlgSha1 ∧ hashAlg ≠ hashAlgSha256 then
    pure 0
  else do
    let magic ← image.readMagic peCoffHdrOff
    let securityEntry := securityEntryOf peCoffHdrOff magic
    let checkSum := peCoffHdrOff + 24 + 64
    hashUpdate 0 (checkSum % 2 ^ 32)
    hashUpdate (checkSum + 4) (distance securityEntry (checkSum + 4))
    let sizeOfHeaders ← image.readWord (peCoffHdrOff + 24 + 60) 4
    hashUpdate (securityEntry + 8) (distance sizeOfHeaders (securityEntry + 8))
    let numberOfSections ← image.readWord (peCoffHdrOff + 6) 2
    let sizeOfOptionalHeader ← image.readWord (peCoffHdrOff + 20) 2
    let sectionHeader ← image.sortSections (peCoffHdrOff + 24 + sizeOfOptionalHeader) numberOfSections 0
      (List.replicate numberOfSections ⟨0, 0⟩)
    let sumOfBytesHashed ← hashSections sectionHeader sizeOfHeaders
    when (image.imageSize > sumOfBytesHashed) (do
      let size ← image.readWord (securityEntry + 4) 4
      hashUpdate sumOfBytesHashed (distance (distance image.imageSize size) sumOfBytesHashed))
    pure (if hashAlg = hashAlgSha1 then 20 else 32)

/-- The loop of `HashPeImageByType` over the hash table, from `index` on. -/
def findHashAlg (pkcsCertData : Nat) : List (List Byte) → Nat → Load (Option Nat)
  | [], _ => pure none
  | oidValue :: oids, index => do
    let encoding ← image.readBytes (pkcsCertData + 8 + 1) 1
    if encoding.map (· &&& 0x82) ≠ [0x82] then
      findHashAlg pkcsCertData oids (index + 1)
    else do
      let oid ← image.readBytes (pkcsCertData + 8 + 32) oidValue.length
      if oid = oidValue then pure (some index) else findHashAlg pkcsCertData oids (index + 1)

/-- `HashPeImageByType`. The result is `LoadInfo->ImageDigestSize`. -/
def hashPeImageByType (peCoffHdrOff pkcsCertData : Nat) : Load Nat := do
  match ← image.findHashAlg pkcsCertData mHashTable 0 with
  | none => pure 0
  | some index => image.hashPeImage peCoffHdrOff index

end LoadedImage

/-- `SECUREBOOT_PEIMAGE_LOAD_INFO`, with the pointers as distances from `ImageBase`. -/
structure LoadInfo where
  is32 : Bool
  peCoffHdrOff : Nat
  secDataDir : Nat
  certificate : Option Nat
  imageDigestSize : Nat
  deriving DecidableEq, Repr

namespace LoadedImage

variable (image : LoadedImage)

/-- `LoadInfo->PeCoffHdrOff`. -/
def readPeCoffHdrOff : Load Nat := do
  let magic ← image.readWord 0 2
  if magic = dosSignature then image.readWord 60 4 else pure 0

/-- `LoadInfo->SecDataDir` for a machine, and whether it is taken for a 32-bit one. -/
def secDataDirOf (peCoffHdrOff machine : Nat) : Option (Bool × Nat) :=
  if machine = machineIa32 ∨ machine = machineEbc then
    some (true, peCoffHdrOff + 24 + 128)
  else if machine = machineIa64 ∨ machine = machineX64 then
    some (false, peCoffHdrOff + 24 + 144)
  else
    none

/-- `LoadInfo->Certificate`. -/
def readCertificate (secDataDir : Nat) : Load (Option Nat) := do
  let sizeOfCert ← image.readWord (secDataDir + 4) 4
  if sizeOfCert = 0 then
    pure none
  else do
    let offset ← image.readWord secDataDir 4
    pure (if (image.imageBase.toNat + offset) % 2 ^ 32 = 0 then none else some offset)

def hashByCertificate (peCoffHdrOff : Nat) : Option Nat → Load Nat
  | none => image.hashPeImage peCoffHdrOff hashAlgSha256
  | some certificate => do
    let certificateType ← image.readWord (certificate + 6) 2
    if certificateType = certTypeEfiGuid then do
      let certType ← image.readBytes (certificate + 8) 16
      if certType = gEfiCertTypeRsa2048Sha256Guid then
        image.hashPeImage peCoffHdrOff hashAlgSha256
      else
        pure 0
    else if certificateType = certTypePkcsSignedData then
      image.hashPeImageByType peCoffHdrOff certificate
    else
      pure 0

/-- The part of `LoadPeImageWork` that depends on `CalcHash`. -/
def calcHashOf (calcHash : Bool) (peCoffHdrOff : Nat) (certificate : Option Nat) : Load Nat :=
  if calcHash then image.hashByCertificate peCoffHdrOff certificate else pure 0

/-- `LoadPeImageWork`, from where the file is in memory. -/
def loadPeImageWork (calcHash : Bool) : Load (Option LoadInfo) := do
  let peCoffHdrOff ← image.readPeCoffHdrOff
  let signature ← image.readWord peCoffHdrOff 4
  if signature ≠ ntSignature then
    pure none
  else do
    let machine ← image.readWord (peCoffHdrOff + 4) 2
    match secDataDirOf peCoffHdrOff machine with
    | none => pure none
    | some (is32, secDataDir) => do
      let certificate ← image.readCertificate secDataDir
      let imageDigestSize ← image.calcHashOf calcHash peCoffHdrOff certificate
      pure (some { is32, peCoffHdrOff, secDataDir, certificate, imageDigestSize })

end LoadedImage

end Quark.SecureBoot
