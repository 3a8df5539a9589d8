import Quark.SmiFlash.Spec

/-!
# `CapsuleCreate`: the tool that makes capsules

`main` of `CapsuleCreate.c`, from the point where its files are open. The configuration is read line by
line; the lines are what `ReadLineInStream` leaves in `LineString`, line breaks included. The functions
of the build tools that `main` calls, and the files it reads, are parameters.
-/

namespace Quark.CapsuleTool

open Machine

abbrev Line := List Char

/-- `strstr`: the string from the first occurrence on. -/
def strstr (needle : Line) : Line → Option Line
  | [] => if needle = [] then some [] else none
  | c :: cs => if needle.isPrefixOf (c :: cs) then some (c :: cs) else strstr needle cs

def beginString : Line := ['B', 'E', 'G', 'I', 'N']
def endString : Line := ['E', 'N', 'D']
def fileNameString : Line := ['F', 'I', 'L', 'E', '_', 'N', 'A', 'M', 'E', '=']
def startAddressString : Line :=
  ['S', 'T', 'A', 'R', 'T', '_', 'A', 'D', 'D', 'R', 'E', 'S', 'S', '=']

def Contains (needle line : Line) : Prop := strstr needle line ≠ none

instance (needle line : Line) : Decidable (Contains needle line) := inferInstanceAs (Decidable (_ ≠ _))

abbrev maxCapsulePayloadSize : Nat := 0xA00000
abbrev maxImagesPerCapsule : Nat := 20
abbrev spiBlockSize : Nat := 0x1000
abbrev sizeofCapsuleHeader : Nat := 80
abbrev sizeofUpdateHint : Nat := 16

/-- What `main` is called with, and what it finds outside. -/
structure Tool where
  /-- The content of a file that can be opened. -/
  fopen : Line → Option (List UInt8)
  /-- `AsciiStringToUint64` of a hexadecimal string. -/
  asciiStringToUint64 : Line → Option Nat
  inputCapsuleModulesDir : Option Line
  capsuleFlags : Nat

/-! ## Reading the configuration -/

/-- The configuration file while it is read. `lineString` has no value before the first line is read;
`lastLineOpen` says that the last line of the file has no line break, so that the end of the file is
seen with it. -/
structure Stream where
  lines : List Line
  lineString : Option Line
  feof : Bool
  lastLineOpen : Bool

/-- `ReadLineInStream`. At the end of the file `LineString` is left as it was. -/
def readLineInStream (f : Stream) : Stream :=
  match f.lines with
  | [] => { f with feof := true }
  | l :: ls => { f with lines := ls, lineString := some l, feof := ls.isEmpty && f.lastLineOpen }

/-- Remove the line break. For a line that is nothing but a line break the source reads
`LineString[-1]`, and there is no result. -/
def removeLineBreak (line : Line) : Option Line :=
  match line.reverse with
  | ['\n'] => none
  | '\n' :: '\r' :: cs => some cs.reverse
  | '\n' :: cs => some cs.reverse
  | _ => some line

structure UpdateHint where
  targetAddr : Nat
  size : Nat
  sourceOffset : Nat
  reserved : Nat
  deriving DecidableEq, Repr

/-- An element of `HintData` as `memset` leaves it. -/
def UpdateHint.unset : UpdateHint := ⟨0xFFFFFFFF, 0xFFFFFFFF, 0xFFFFFFFF, 0xFFFFFFFF⟩

def UpdateHint.zero : UpdateHint := ⟨0, 0, 0, 0⟩

def padSize (size : Nat) : Nat :=
  if size % spiBlockSize ≠ 0 then spiBlockSize - size % spiBlockSize else 0

def padded (image : List UInt8) : List UInt8 := image ++ List.replicate (padSize image.length) 0

def Tool.path (T : Tool) (name : Line) : Line :=
  match T.inputCapsuleModulesDir with
  | none => name
  | some dir => (if dir.getLast? = some '/' then dir else dir ++ ['/']) ++ name

/-- The body of the inner loop on a line: the hint that is being filled in, and the payload so far, that
is `ImageBuffer` up to `TotalPayloadImageSize`. There is no result where `main` goes to `Finish`. -/
def processLine (T : Tool) (line : Line) (hint : UpdateHint) (payload : List UInt8) :
    Option (UpdateHint × List UInt8) :=
  match strstr fileNameString line with
  | some value =>
    match T.fopen (T.path (value.drop fileNameString.length)) with
    | none => none
    | some file =>
      let inputCapsuleImageSize := u32 file.length
      let image := file.take inputCapsuleImageSize
      if maxCapsulePayloadSize ≤ u32 (payload.length + inputCapsuleImageSize) then none
      else some ({ hint with size := u32 (padded image).length }, payload ++ padded image)
  | none =>
    match strstr startAddressString line with
    | some value =>
      match T.asciiStringToUint64 (value.drop startAddressString.length) with
      | none => none
      | some value64 => some ({ hint with targetAddr := u32 value64 }, payload)
    | none => some (hint, payload)

/-- The inner loop, from behind `BEGIN` to `END`. -/
def blockLoop (T : Tool) : Nat → Stream → UpdateHint → List UInt8 →
    Option (Stream × UpdateHint × List UInt8)
  | 0, _, _, _ => none
  | n + 1, f, hint, payload => do
    let f := readLineInStream f
    let line ← f.lineString.bind removeLineBreak
    let (hint, payload) ← processLine T line hint payload
    if ¬ Contains endString line ∧ f.feof = false then
      blockLoop T n { f with lineString := some line } hint payload
    else if ¬ Contains endString line then none
    else some ({ f with lineString := some line }, hint, payload)

/-- `HintData`, `SourceOffset` and the payload. -/
structure Progress where
  hintData : List UpdateHint
  sourceOffset : Nat
  payload : List UInt8

def Progress.start : Progress where
  hintData := []
  sourceOffset := sizeofCapsuleHeader + sizeofUpdateHint * maxImagesPerCapsule
  payload := []

def addHint (p : Progress) (hint : UpdateHint) (payload : List UInt8) : Option Progress :=
  if hint.size = 0 ∨ hint.size % 0x1000 ≠ 0 then none
  else if hint.targetAddr = 0 then none
  else some {
    hintData := p.hintData ++ [{ hint with sourceOffset := p.sourceOffset }]
    sourceOffset := u32 (p.sourceOffset + hint.size)
    payload }

def configLoop (T : Tool) : Nat → Stream → Progress → Option Progress
  | 0, _, _ => none
  | n + 1, f, p =>
    if f.feof = false ∧ p.hintData.length < maxImagesPerCapsule - 1 then do
      let f := readLineInStream f
      let line ← f.lineString
      if Contains beginString line then do
        let (f, hint, payload) ← blockLoop T n f .unset p.payload
        let p ← addHint p hint payload
        configLoop T n f p
      else configLoop T n f p
    else some p

/-! ## Writing the capsule -/

/-- The bytes of a `UINT32`. -/
def le32 (v : Nat) : List UInt8 := (List.range 4).map (Mem.byteOf v)

def UpdateHint.bytes (h : UpdateHint) : List UInt8 :=
  le32 h.targetAddr ++ le32 h.size ++ le32 h.sourceOffset ++ le32 h.reserved

/-- `HintData` when it is written: the hints, the terminator, and elements that were never set. -/
def hintTable (hintData : List UpdateHint) : List UpdateHint :=
  hintData ++ [.zero] ++ List.replicate (maxImagesPerCapsule - 1 - hintData.length) .unset

def header (flags capsuleImageSize : Nat) : List UInt8 :=
  SmiFlash.efiQuarkCapsuleGuid ++ le32 sizeofCapsuleHeader ++ le32 flags ++ le32 capsuleImageSize ++
    List.replicate 52 0

def capsuleFile (flags : Nat) (p : Progress) : List UInt8 :=
  header (u32 flags) p.sourceOffset ++ ((hintTable p.hintData).flatMap UpdateHint.bytes ++ p.payload)

/-- `main`: the capsule it writes for a configuration of the given lines, if it comes so far. -/
def capsuleCreate (T : Tool) (lines : List Line) (lastLineOpen : Bool) : Option (List UInt8) :=
  (configLoop T (lines.length + 2) ⟨lines, none, false, lastLineOpen⟩ .start).map
    (capsuleFile T.capsuleFlags)

end Quark.CapsuleTool
