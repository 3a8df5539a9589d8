import Quark.Machine.LittleEndian

/-!
# Fixing up stage 1 images

`QuarkSpiFixup.py`: each firmware volume with stage 1 code gets the offset of its entry point and an index in
its first eight bytes, and a new header checksum. The entry point is found behind a marker.

A file is read and written from a current position. What is read from there on is the rest of the file.
-/

namespace Quark.FlashTool

open Machine

/-! ## The search -/

/-- "SPI Entry Point ". -/
def marker : List Byte :=
  [0x53, 0x50, 0x49, 0x20, 0x45, 0x6E, 0x74, 0x72, 0x79, 0x20, 0x50, 0x6F, 0x69, 0x6E, 0x74, 0x20]

/-- The nested reads: as long as bytes agree with the marker, the next one is read. Whether all of them do, and
the rest of the file. At its end nothing is read. -/
def readMarker : List Byte → List Byte → Bool × List Byte
  | [], rest => (true, rest)
  | _ :: _, [] => (false, [])
  | m :: ms, b :: rest => if b = m then readMarker ms rest else (false, rest)

/-- `for currCount in range(currentBinLength)`: the rest of the file when the loop ends. -/
def searchMarker : Nat → List Byte → List Byte
  | 0, rest => rest
  | n + 1, rest =>
    match readMarker marker rest with
    | (true, rest) => rest
    | (false, rest) => searchMarker n rest

/-- `mySpiLocation`: what `tell` gives behind the search. -/
def spiLocation (bin : List Byte) : Nat := bin.length - (searchMarker bin.length bin).length

/-! ## The header -/

/-- `seek` and `write`. -/
def writeAt (bin : List Byte) (off : Nat) (bytes : List Byte) : List Byte :=
  bin.take off ++ bytes ++ bin.drop (off + bytes.length)

/-- The loop over the words of the header, with `headerChecksum` so far. -/
def headerSum : Nat → List Byte → Nat → Nat
  | n + 1, lo :: hi :: rest, sum => headerSum n rest ((sum + leValue [lo, hi]) % 0x10000)
  | _, _, sum => sum

/-- `headerLength`, in words. -/
def headerLength (bin : List Byte) : Nat := leValue ((bin.drop 48).take 2) / 2

def fixChecksum (bin : List Byte) : List Byte :=
  let bin := writeAt bin 50 (leBytes 2 0)
  let headerChecksum := (0x10000 - headerSum (headerLength bin) bin 0) % 0x10000
  writeAt bin 50 (leBytes 2 headerChecksum)

def fixupImage (index : Nat) (bin : List Byte) : List Byte :=
  fixChecksum (writeAt bin 0 (leBytes 4 (spiLocation bin) ++ leBytes 4 index))

/-! ## The images -/

/-- What the name of a file is searched for. -/
inductive ImageKind where
  | bootStage1
  | recoveryStage1
  | other
  deriving DecidableEq, Repr

/-- A firmware volume image with the marker: what stands in front of its first occurrence, and behind it. The
header is a number of words, has room for its checksum, and lies in the image, which is made for a flash of less
than 4GB. -/
structure MarkedImage where
  front : List Byte
  back : List Byte
  first : ∀ p < front.length, ¬ marker <+: (front ++ marker ++ back).drop p
  header_even : leValue (((front ++ marker ++ back).drop 48).take 2) % 2 = 0
  header_ge : 52 ≤ leValue (((front ++ marker ++ back).drop 48).take 2)
  header_le : leValue (((front ++ marker ++ back).drop 48).take 2) ≤ (front ++ marker ++ back).length
  length_lt : (front ++ marker ++ back).length < 2 ^ 32

def MarkedImage.bin (img : MarkedImage) : List Byte := img.front ++ marker ++ img.back

structure FixedImage where
  before : MarkedImage
  index : Nat
  after : List Byte

/-- The loop over the files, with `stage1_index` and `recovery_index`; other files are left as they are. -/
def fixupListing : Nat → Nat → List (ImageKind × MarkedImage) → List FixedImage
  | _, _, [] => []
  | stage1Index, recoveryIndex, (.bootStage1, img) :: rest =>
    ⟨img, stage1Index, fixupImage stage1Index img.bin⟩ :: fixupListing (stage1Index + 1) recoveryIndex rest
  | stage1Index, recoveryIndex, (.recoveryStage1, img) :: rest =>
    ⟨img, recoveryIndex, fixupImage recoveryIndex img.bin⟩ :: fixupListing stage1Index (recoveryIndex + 1) rest
  | stage1Index, recoveryIndex, (.other, _) :: rest => fixupListing stage1Index recoveryIndex rest

/-! ## An exact fix-up -/

/-- The first four bytes are the offset just past the first marker, the next four the index; the words of the
header add up to zero, and no other byte has changed. -/
structure FixedImage.Exact (f : FixedImage) : Prop where
  length : f.after.length = f.before.bin.length
  offset : f.after.take 4 = leBytes 4 (f.before.front.length + marker.length)
  index : (f.after.drop 4).take 4 = leBytes 4 f.index
  checksum : headerSum (headerLength f.after) f.after 0 = 0
  others : ∀ i, 8 ≤ i → i ≠ 50 → i ≠ 51 → f.after[i]? = f.before.bin[i]?

def ListingExact (listing : List (ImageKind × MarkedImage)) : Prop :=
  (∀ f ∈ fixupListing 0 16 listing, f.Exact) ∧ ((fixupListing 0 16 listing).map FixedImage.index).Nodup

/-- How many incomplete markers stand at the end of some bytes, one directly behind the other. -/
inductive PartialMarkers : List Byte → Nat → Prop where
  | none {bytes : List Byte} :
      (∀ front k, 0 < k → k < marker.length → bytes ≠ front ++ marker.take k) → PartialMarkers bytes 0
  | more {front : List Byte} {n k : Nat} :
      0 < k → k < marker.length → PartialMarkers front n → PartialMarkers (front ++ marker.take k) (n + 1)

/-- An even number of incomplete markers stands directly in front of the first marker, or nothing stands behind
it. -/
def MarkedImage.Reached (img : MarkedImage) : Prop :=
  (∃ n, PartialMarkers img.front n ∧ n % 2 = 0) ∨ img.back = []

def countKind (kind : ImageKind) (listing : List (ImageKind × MarkedImage)) : Nat :=
  listing.countP fun f => f.1 = kind

/-- Every marker is reached, and with recovery images there are at most sixteen others. -/
def ListingReached (listing : List (ImageKind × MarkedImage)) : Prop :=
  (∀ f ∈ listing, f.1 ≠ .other → f.2.Reached) ∧
    (countKind .bootStage1 listing ≤ 16 ∨ countKind .recoveryStage1 listing = 0)

end Quark.FlashTool
