import Quark.SecureBoot.PeImage

/-!
# What an Authenticode hash covers

The fields of an image as the file has them, and the positions that the hash is to cover: all but the
checksum, the entry of the security directory and the certificate table.
-/

namespace Quark.SecureBoot

open Machine

def SectionHeader.data (header : SectionHeader) : Span :=
  ⟨header.pointerToRawData, header.sizeOfRawData⟩

namespace LoadedImage

variable (image : LoadedImage)

/-! ## Fields -/

def dosHeader : Prop := image.word 0 2 = dosSignature

instance : Decidable image.dosHeader := by
  unfold dosHeader
  infer_instance

def peCoffHdrOff : Nat := if image.dosHeader then image.word 60 4 else 0

def signed : Prop := image.word image.peCoffHdrOff 4 = ntSignature

instance : Decidable image.signed := by
  unfold signed
  infer_instance

def secDataDir? : Option Nat :=
  if image.signed then
    (secDataDirOf image.peCoffHdrOff (image.word (image.peCoffHdrOff + 4) 2)).map Prod.snd
  else
    none

def certificate? (secDataDir : Nat) : Option Nat :=
  if image.word (secDataDir + 4) 4 = 0 ∨
      (image.imageBase.toNat + image.word secDataDir 4) % 2 ^ 32 = 0 then
    none
  else
    some (image.word secDataDir 4)

def magic : Nat :=
  if image.word (image.peCoffHdrOff + 4) 2 = machineIa64 ∧
      image.word (image.peCoffHdrOff + 24) 2 = hdr32Magic then
    hdr64Magic
  else
    image.word (image.peCoffHdrOff + 24) 2

def securityEntry : Nat := securityEntryOf image.peCoffHdrOff image.magic

def certificateOffset : Nat := image.word image.securityEntry 4

def certificateSize : Nat := image.word (image.securityEntry + 4) 4

def checkSum : Nat := image.peCoffHdrOff + 88

def sizeOfHeaders : Nat := image.word (image.peCoffHdrOff + 84) 4

def numberOfSections : Nat := image.word (image.peCoffHdrOff + 6) 2

def sectionTable : Nat :=
  image.peCoffHdrOff + 24 + image.word (image.peCoffHdrOff + 20) 2

def sectionHeader (index : Nat) : SectionHeader where
  sizeOfRawData := image.word (image.sectionTable + 40 * index + 16) 4
  pointerToRawData := image.word (image.sectionTable + 40 * index + 20) 4

def sections : List SectionHeader := (List.range image.numberOfSections).map image.sectionHeader

def sectionData : List Span :=
  (image.sections.filter fun header => header.sizeOfRawData ≠ 0).map SectionHeader.data

/-! ## The hash -/

/-- The hash algorithm of a certificate, if it is one that is found and can be computed. -/
def certificateHash? (certificate : Nat) : Option Nat :=
  if image.word (certificate + 6) 2 = certTypeEfiGuid then
    if image.bytes (certificate + 8) 16 = gEfiCertTypeRsa2048Sha256Guid then some hashAlgSha256
    else none
  else if image.word (certificate + 6) 2 = certTypePkcsSignedData then
    if (image.bytes (certificate + 9) 1).map (· &&& 0x82) = [0x82] then
      (mHashTable.findIdx? fun oid => image.bytes (certificate + 40) oid.length = oid).filter
        fun index => index = hashAlgSha1 ∨ index = hashAlgSha256
    else none
  else
    none

def hashAlg? (secDataDir : Nat) : Option Nat :=
  match image.certificate? secDataDir with
  | none => some hashAlgSha256
  | some certificate => image.certificateHash? certificate

def Hashed (calcHash : Bool) : Prop :=
  calcHash = true ∧ ∃ secDataDir, image.secDataDir? = some secDataDir ∧
    (image.hashAlg? secDataDir).isSome

/-- In some order the sections with data follow each other from the end of the headers on. -/
def SectionsTile : Prop :=
  ∃ spans : List Span, spans.Perm image.sectionData ∧ Span.Tile image.sizeOfHeaders spans

def CertificateAtEnd : Prop :=
  image.certificateSize = 0 ∨ image.certificateOffset + image.certificateSize = image.imageSize

def Authenticated (x : Nat) : Prop :=
  ¬ (image.checkSum ≤ x ∧ x < image.checkSum + 4) ∧
  ¬ (image.securityEntry ≤ x ∧ x < image.securityEntry + 8) ∧
  ¬ (image.certificateOffset ≤ x ∧ x < image.certificateOffset + image.certificateSize)

instance (x : Nat) : Decidable (image.Authenticated x) := by
  unfold Authenticated
  infer_instance

def authenticated : List Nat := (List.range image.imageSize).filter fun x => image.Authenticated x

end LoadedImage

def hashedPositions (log : List Access) : List Nat :=
  (log.filterMap Access.hashed?).flatMap Span.positions

namespace LoadedImage

variable (image : LoadedImage)

def digestInput (log : List Access) : List Byte := (hashedPositions log).map image.memory

/-- The image is loaded with every access inside it, and if it is hashed, its sections tile it and the
certificate table is at its end, then the hash covers what it is to cover. -/
def LoadedSoundly (calcHash : Bool) : Prop :=
  ∃ info log, image.loadPeImageWork calcHash [] = .ret info log ∧
    (∀ access ∈ log, access.span.Inside image.imageSize) ∧
    (∀ loadInfo, info = some loadInfo → loadInfo.imageDigestSize ≠ 0 → image.SectionsTile →
      image.CertificateAtEnd → hashedPositions log = image.authenticated)

/-! ## Headers that lie in the file -/

structure HeadersPresent : Prop where
  dosMagic : 2 ≤ image.imageSize
  lfanew : image.dosHeader → 64 ≤ image.imageSize
  signature : image.peCoffHdrOff + 4 ≤ image.imageSize
  machine : image.signed → image.peCoffHdrOff + 6 ≤ image.imageSize
  directory : ∀ secDataDir, image.secDataDir? = some secDataDir → secDataDir + 8 ≤ image.imageSize

def Has (off len : Nat) : Prop := off % 2 ^ 32 + len ≤ image.imageSize

instance (off len : Nat) : Decidable (image.Has off len) := by
  unfold Has
  infer_instance

/-- What is read of a certificate to find its hash algorithm lies in the file. -/
structure CertificatePresent (certificate : Nat) : Prop where
  certificateType : image.Has (certificate + 6) 2
  guid : image.word (certificate + 6) 2 = certTypeEfiGuid → image.Has (certificate + 8) 16
  encoding : image.word (certificate + 6) 2 = certTypePkcsSignedData → image.Has (certificate + 9) 1
  sha1 : image.word (certificate + 6) 2 = certTypePkcsSignedData →
    (image.bytes (certificate + 9) 1).map (· &&& 0x82) = [0x82] → image.Has (certificate + 40) 5
  others : image.word (certificate + 6) 2 = certTypePkcsSignedData →
    (image.bytes (certificate + 9) 1).map (· &&& 0x82) = [0x82] →
    image.bytes (certificate + 40) 5 ≠ [0x2B, 0x0E, 0x03, 0x02, 0x1A] → image.Has (certificate + 40) 9

def sumOfSections : Nat := (image.sizeOfHeaders + Span.total image.sectionData) % 2 ^ 32

/-- The headers, the section table, the sections and the certificate table of an image that is hashed
lie in the file. -/
structure BodyPresent : Prop where
  optionalHeader : image.securityEntry ≤ image.imageSize
  headersEnd : image.securityEntry + 8 ≤ image.sizeOfHeaders
  headersPresent : image.sizeOfHeaders = image.securityEntry + 8 ∨
    image.sizeOfHeaders ≤ image.imageSize
  sectionTable : image.numberOfSections = 0 ∨
    image.sectionTable + 40 * image.numberOfSections ≤ image.imageSize
  sectionData : ∀ data ∈ image.sectionData, data.offset + data.length ≤ image.imageSize
  tail : image.sumOfSections < image.imageSize → image.securityEntry + 8 ≤ image.imageSize ∧
    image.sumOfSections + image.certificateSize ≤ image.imageSize

/-- No section reaches into the certificate table: there is data of the file behind the sections, or
there is no certificate table but what lies in the entry of the security directory itself. -/
def SectionsClear : Prop :=
  image.sumOfSections < image.imageSize ∨ image.certificateSize = 0 ∨
    (image.securityEntry + image.certificateSize ≤ image.imageSize ∧
      image.imageSize ≤ image.securityEntry + 8)

/-- All that is read and hashed lies in the file, and no section reaches into the certificate table. -/
structure WellBounded (calcHash : Bool) : Prop where
  headers : image.HeadersPresent
  certificate : calcHash = true → ∀ secDataDir, image.secDataDir? = some secDataDir →
    ∀ certificate, image.certificate? secDataDir = some certificate →
      image.CertificatePresent certificate
  body : image.Hashed calcHash → image.BodyPresent
  clear : image.Hashed calcHash → image.SectionsTile → image.CertificateAtEnd → image.SectionsClear

end LoadedImage

/-- `after` is `before` with a certificate table behind it. -/
structure AddsCertificate (before after : LoadedImage) : Prop where
  unsigned : before.certificateSize = 0
  offset : after.certificateOffset = before.imageSize
  size : after.imageSize = before.imageSize + after.certificateSize
  kept : ∀ x, x < before.imageSize → before.Authenticated x → after.memory x = before.memory x

end Quark.SecureBoot
