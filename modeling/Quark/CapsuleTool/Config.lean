import Quark.CapsuleTool.CapsuleCreate

/-!
# Configurations, and what the firmware is to read from their capsules

A configuration is a sequence of blocks with other lines between them. `ConfigBlock` is a block as its
author means it: the lines between `BEGIN` and `END`, one of which names the image and one of which gives
its address. `written` is what becomes of it, where `END` is taken for a line of its own wherever it
stands in a line.
-/

namespace Quark.CapsuleTool

open Machine

def stripped (line : Line) : Line := (removeLineBreak line).getD []

structure IsFiller (line : Line) : Prop where
  no_begin : ¬ Contains beginString line
  no_end : ¬ Contains endString (stripped line)
  no_file : strstr fileNameString (stripped line) = none
  no_address : strstr startAddressString (stripped line) = none

/-- A block: the lines `before`, `between` and `behind` the two that count. -/
structure ConfigBlock where
  beginLine : Line
  before : List Line
  between : List Line
  behind : List Line
  fileLine : Line
  addressLine : Line
  addressFirst : Bool
  endLine : Line

namespace ConfigBlock

def firstLine (b : ConfigBlock) : Line := if b.addressFirst then b.addressLine else b.fileLine

def secondLine (b : ConfigBlock) : Line := if b.addressFirst then b.fileLine else b.addressLine

def lines (b : ConfigBlock) : List Line :=
  b.beginLine :: (b.before ++ b.firstLine :: (b.between ++ b.secondLine :: (b.behind ++ [b.endLine])))

/-- The block has exactly one `FILE_NAME`, of a file with the content `image`, and one `START_ADDRESS`,
which is `address`. -/
structure Means (T : Tool) (b : ConfigBlock) (image : List UInt8) (address : Nat) : Prop where
  begins : Contains beginString b.beginLine
  fillers : ∀ l ∈ b.before ++ b.between ++ b.behind, IsFiller l
  file : ∃ value, strstr fileNameString (stripped b.fileLine) = some value ∧
    T.fopen (T.path (value.drop fileNameString.length)) = some image
  file_break : removeLineBreak b.fileLine ≠ none
  image_ne : image ≠ []
  address_text : ∃ value, strstr startAddressString (stripped b.addressLine) = some value ∧
    T.asciiStringToUint64 (value.drop startAddressString.length) = some address
  address_break : removeLineBreak b.addressLine ≠ none
  address_no_file : strstr fileNameString (stripped b.addressLine) = none
  address_no_end : ¬ Contains endString (stripped b.addressLine)
  address_no_begin : ¬ Contains beginString b.addressLine
  address_ne : address ≠ 0
  ends : Contains endString (stripped b.endLine)
  end_break : removeLineBreak b.endLine ≠ none
  end_no_file : strstr fileNameString (stripped b.endLine) = none
  end_no_address : strstr startAddressString (stripped b.endLine) = none
  end_no_begin : ¬ Contains beginString b.endLine

/-- The name of the image has `END` in it. -/
def EndInName (b : ConfigBlock) : Prop := Contains endString (stripped b.fileLine)

instance (b : ConfigBlock) : Decidable b.EndInName := inferInstanceAs (Decidable (Contains _ _))

def passed (b : ConfigBlock) : List Line :=
  if b.EndInName then
    if b.addressFirst then b.before ++ b.between else b.before
  else b.before ++ b.between ++ b.behind

/-- The `TargetAddr` that is written for a block with the given address. -/
def written (b : ConfigBlock) (address : Nat) : Option Nat :=
  if ∃ l ∈ b.passed, removeLineBreak l = none then none
  else if b.EndInName ∧ b.addressFirst = false then some 0xFFFFFFFF
  else if u32 address = 0 then none
  else some (u32 address)

/-- The tool reads the block as it is meant: no line that it comes by in the block is an empty one, the
address is a 32-bit one, and it is not hidden behind a name with `END` in it. -/
structure ReadAsMeant (b : ConfigBlock) (address : Nat) : Prop where
  no_empty_line : ∀ l ∈ b.passed, removeLineBreak l ≠ none
  address_lt : address < 0x100000000
  address_seen : b.EndInName → b.addressFirst = true ∨ address = 0xFFFFFFFF

end ConfigBlock

/-- A block with the lines in front of it, the image and the address that it means. -/
structure Item where
  gap : List Line
  block : ConfigBlock
  image : List UInt8
  address : Nat

structure Config where
  items : List Item
  rest : List Line

def Config.lines (c : Config) : List Line :=
  c.items.flatMap (fun x => x.gap ++ x.block.lines) ++ c.rest

def Config.payloadSize (c : Config) : Nat := (c.items.map fun x => (padded x.image).length).sum

structure Config.Valid (T : Tool) (c : Config) : Prop where
  means : ∀ x ∈ c.items, x.block.Means T x.image x.address
  gaps : ∀ x ∈ c.items, ∀ l ∈ x.gap, ¬ Contains beginString l
  rest : ∀ l ∈ c.rest, ¬ Contains beginString l
  count : c.items.length ≤ maxImagesPerCapsule - 1
  size : c.payloadSize < maxCapsulePayloadSize

def Loaded (P : SmiFlash.Platform) (s : SmiFlash.SmmState) (file : List UInt8) : Prop :=
  (s.rd P).bytes P.capsuleSmmBuffer file.length = file

/-- The firmware accepts the capsule in its buffer, and reads the given addresses and images from the
hints, with nothing behind them. -/
structure Accepted (P : SmiFlash.Platform) (s : SmiFlash.SmmState)
    (images : List (Nat × List UInt8)) : Prop where
  challenge : ∃ v, SmiFlash.challengeCapsule P s = .ret .success v
  hints : ∀ i, ∀ h : i < images.length,
    SmiFlash.hintTargetAddr P s (SmiFlash.hintAt P s i) = (images.get ⟨i, h⟩).1 ∧
      SmiFlash.hintSize P s (SmiFlash.hintAt P s i) ≠ 0 ∧
      (s.rd P).bytes (P.capsuleSmmBuffer + SmiFlash.hintSourceOffset P s (SmiFlash.hintAt P s i))
        (SmiFlash.hintSize P s (SmiFlash.hintAt P s i)) = padded (images.get ⟨i, h⟩).2
  terminator : SmiFlash.hintSize P s (SmiFlash.hintAt P s images.length) = 0

end Quark.CapsuleTool
