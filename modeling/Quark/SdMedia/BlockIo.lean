import Quark.Machine.ByteStore
import Quark.SdMedia.Card

/-!
# Block transfers to and from a card

`MMCSDBlockReadBlocks` and `MMCSDBlockWriteBlocks` of `MMCSDBlockIo.c`, and `SendCommand` of
`MMCSDTransfer.c`. What the host controller and the card answer to each command is given from outside; a
data transfer whose command is answered without an error has taken place.
-/

namespace Quark.SdMedia

open Machine Machine.Exec

def stopTransmission : BitVec 16 := 12

def setBlocklen : BitVec 16 := 16

def readSingleBlock : BitVec 16 := 17

def readMultipleBlock : BitVec 16 := 18

def setBlockCount : BitVec 16 := 23

def writeBlock : BitVec 16 := 24

def writeMultipleBlock : BitVec 16 := 25

def autoCmd12Enable : BitVec 16 := 0x40

/-- `TRANSFER_TYPE`, with the buffer. -/
inductive Transfer where
  | noData
  | inData (bufferSize : Nat)
  | outData (buffer : List Byte)
  deriving DecidableEq, Repr

/-- `RESPONSE_TYPE`, as far as it is used. -/
inductive ResponseType where
  | responseR1
  | responseR1b
  deriving DecidableEq, Repr

structure Command where
  index : BitVec 16
  argument : BitVec 32
  transfer : Transfer
  responseType : ResponseType
  deriving DecidableEq, Repr

/-- What comes of a command: the status of the host and, if that is no error, the card status. -/
structure Answer where
  status : EfiStatus
  cardStatus : BitVec 32
  deriving DecidableEq, Repr

def checkCardStatus (status : BitVec 32) : EfiStatus :=
  if status &&& 0xFCFFA080#32 ≠ 0 then .deviceError else .success

/-- The status that `SendCommand` makes of an answer. -/
def Answer.outcome (answer : Answer) : EfiStatus :=
  if answer.status.isError then answer.status else checkCardStatus answer.cardStatus

/-- How the host and the card answer the commands in turn, and what a write that fails leaves on the
card. -/
structure Host where
  answer : Nat → Answer
  spoiled : Nat → ByteStore → ByteStore

structure Bus where
  disk : ByteStore
  log : List (Command × Answer)

section

variable (card : CardData) (host : Host)

def CardData.position (argument : BitVec 32) : Nat :=
  if card.sectorAddressing then argument.toNat * 512 else argument.toNat

def carryOut (command : Command) (bus : Bus) : ByteStore :=
  match command.transfer with
  | .outData buffer =>
    if (host.answer bus.log.length).outcome.isError then host.spoiled bus.log.length bus.disk
    else bus.disk.put (card.position command.argument) buffer
  | _ => bus.disk

def bringIn (command : Command) (disk : ByteStore) : List Byte :=
  match command.transfer with
  | .inData bufferSize => disk.read (card.position command.argument) bufferSize
  | _ => []

/-- `SendCommand`. An error of the host also resets its data line. -/
def sendCommand (index : BitVec 16) (argument : BitVec 32) (transfer : Transfer)
    (responseType : ResponseType) : Exec Bus (EfiStatus × List Byte) := do
  let index := if card.cardType.isMmc then index else index ||| autoCmd12Enable
  let command : Command := { index, argument, transfer, responseType }
  let bus ← get
  let answer := host.answer bus.log.length
  modify fun bus => { disk := carryOut card host command bus, log := bus.log ++ [(command, answer)] }
  pure (answer.outcome, bringIn card command bus.disk)

/-- `SET_BLOCKLEN` for a multimedia card that does not transfer at double data rate. -/
def sendBlocklen : Exec Bus EfiStatus :=
  if card.extCsdCardType &&& 0b1100#8 = 0 then do
    let answer ← sendCommand card host setBlocklen (BitVec.ofNat 32 card.blockSize) .noData .responseR1
    pure answer.1
  else
    pure .success

/-- `SET_BLOCK_COUNT`. -/
def sendBlockCount (transferLength : Nat) : Exec Bus EfiStatus := do
  let answer ← sendCommand card host setBlockCount
    (BitVec.ofNat 32 (transferLength / card.blockSize)) .noData .responseR1
  pure answer.1

def announce (transferLength : Nat) : Exec Bus EfiStatus :=
  if card.cardType.isMmc then do
    let status ← sendBlocklen card host
    if status.isError then pure status else sendBlockCount card host transferLength
  else
    pure .success

/-- `Address` of a block. -/
def addressOf (lba : BitVec 64) : BitVec 32 :=
  if card.sectorAddressing then (lba * BitVec.ofNat 64 card.blockSize / 512#64).setWidth 32
  else (lba * BitVec.ofNat 64 card.blockSize).setWidth 32

/-- `Address` behind a transfer. -/
def advanceAddress (address : BitVec 32) (transferLength : Nat) : BitVec 32 :=
  if card.sectorAddressing then address + BitVec.ofNat 32 (transferLength / 512)
  else address + BitVec.ofNat 32 transferLength

/-- `TransferLength` for what remains, in transfers of several blocks or of one. -/
def transferLength (bufferSize remainingLength : Nat) : Nat :=
  if bufferSize > card.blockSize then
    if remainingLength > card.boundarySize then card.boundarySize else remainingLength
  else
    if remainingLength > card.blockSize then card.blockSize else remainingLength

/-- The variables of the transfer loops; `data` is what a read has brought in. -/
structure Progress where
  address : BitVec 32
  offset : Nat
  remainingLength : Nat
  status : EfiStatus
  data : List Byte

def Progress.first (lba : BitVec 64) (bufferSize : Nat) : Progress where
  address := addressOf card lba
  offset := 0
  remainingLength := bufferSize
  status := .success
  data := []

def Progress.advance (l : Progress) (length : Nat) (status : EfiStatus) (data : List Byte) : Progress where
  address := advanceAddress card l.address length
  offset := l.offset + length
  remainingLength := l.remainingLength - length
  status := status
  data := l.data ++ data

/-- `STOP_TRANSMISSION`. -/
def sendStop (responseType : ResponseType) : Exec Bus Unit := do
  let _ ← sendCommand card host stopTransmission 0 .noData responseType
  pure ()

/-! ## Reading -/

def readMultiple (bufferSize : Nat) (l : Progress) : Exec Bus (Progress ⊕ EfiStatus × List Byte) := do
  let length := transferLength card bufferSize l.remainingLength
  let status ← announce card host length
  if status.isError then
    pure (.inr (status, l.data))
  else do
    let (status, data) ← sendCommand card host readMultipleBlock l.address (.inData length) .responseR1
    if status.isError then pure (.inr (status, l.data))
    else pure (.inl (l.advance card length status data))

def readSingle (bufferSize : Nat) (l : Progress) : Exec Bus (Progress ⊕ EfiStatus × List Byte) := do
  let length := transferLength card bufferSize l.remainingLength
  let (status, data) ← sendCommand card host readSingleBlock l.address (.inData length) .responseR1
  if status.isError then pure (.inr (status, l.data))
  else pure (.inl (l.advance card length status data))

/-- The loop body of `MMCSDBlockReadBlocks`. -/
def readBody (bufferSize : Nat) (l : Progress) : Exec Bus (Progress ⊕ EfiStatus × List Byte) :=
  if l.remainingLength = 0 then pure (.inr (l.status, l.data))
  else if bufferSize > card.blockSize then readMultiple card host bufferSize l
  else readSingle card host bufferSize l

/-- The response to `STOP_TRANSMISSION` after a read. -/
def stopResponse : ResponseType :=
  if card.cardType = .sdMemoryCard ∨ card.cardType = .sdMemoryCard2 ∨
      card.cardType = .sdMemoryCard2High then .responseR1b
  else .responseR1

/-- The transfers of a read, and what follows when one has failed. Each transfers at least a byte. -/
def readTransfers (lba : BitVec 64) (bufferSize : Nat) : Exec Bus (EfiStatus × List Byte) := do
  let result ← loop (bufferSize + 1) (readBody card host bufferSize)
    (Progress.first card lba bufferSize)
  when (result.1.isError) (sendStop card host (stopResponse card))
  pure result

/-- `MMCSDBlockReadBlocks`, with the status and what it has put into the buffer. -/
def mmcsdBlockReadBlocks (mediaId : BitVec 32) (lba : BitVec 64) (bufferSize : BitVec 32)
    (buffer : Bool) : Exec Bus (EfiStatus × List Byte) :=
  if mediaId ≠ CardData.mediaId then
    pure (.mediaChanged, [])
  else if bufferSize.toNat % card.blockSize ≠ 0 then
    pure (.badBufferSize, [])
  else if lba + BitVec.ofNat 64 (bufferSize.toNat / card.blockSize) >
      BitVec.ofNat 64 card.lastBlock + 1 then
    pure (.invalidParameter, [])
  else if buffer = false then
    pure (.invalidParameter, [])
  else if bufferSize = 0 then
    pure (.success, [])
  else
    readTransfers card host lba bufferSize.toNat

/-! ## Writing -/

def bufferBytes (buffer : Nat → Byte) (offset length : Nat) : List Byte :=
  (List.range length).map fun i => buffer (offset + i)

def writeMultiple (buffer : Nat → Byte) (bufferSize : Nat) (l : Progress) :
    Exec Bus (Progress ⊕ EfiStatus) := do
  let length := transferLength card bufferSize l.remainingLength
  let status ← announce card host length
  if status.isError then
    pure (.inr status)
  else do
    let (status, _) ← sendCommand card host writeMultipleBlock l.address
      (.outData (bufferBytes buffer l.offset length)) .responseR1
    if status.isError then pure (.inr status) else pure (.inl (l.advance card length status []))

def writeSingle (buffer : Nat → Byte) (bufferSize : Nat) (l : Progress) :
    Exec Bus (Progress ⊕ EfiStatus) := do
  let length := transferLength card bufferSize l.remainingLength
  let (status, _) ← sendCommand card host writeBlock l.address
    (.outData (bufferBytes buffer l.offset length)) .responseR1
  pure (.inl (l.advance card length status []))

/-- The loop body of `MMCSDBlockWriteBlocks`. -/
def writeBody (buffer : Nat → Byte) (bufferSize : Nat) (l : Progress) :
    Exec Bus (Progress ⊕ EfiStatus) :=
  if l.remainingLength = 0 then pure (.inr l.status)
  else if bufferSize > card.blockSize then writeMultiple card host buffer bufferSize l
  else writeSingle card host buffer bufferSize l

def writeTransfers (lba : BitVec 64) (bufferSize : Nat) (buffer : Nat → Byte) :
    Exec Bus EfiStatus := do
  let status ← loop (bufferSize + 1) (writeBody card host buffer bufferSize)
    (Progress.first card lba bufferSize)
  when (status.isError) (sendStop card host .responseR1b)
  pure status

/-- The status that `MMCSDBlockWriteBlocks` has when it comes to `Done`. -/
def writeStatus (lba : BitVec 64) (bufferSize : BitVec 32) :
    Option (Nat → Byte) → Exec Bus EfiStatus
  | none => pure .invalidParameter
  | some buffer =>
    if bufferSize.toNat % card.blockSize ≠ 0 then
      pure .badBufferSize
    else if bufferSize = 0 then
      pure .success
    else if card.readOnly then
      pure .writeProtected
    else
      writeTransfers card host lba bufferSize.toNat buffer

/-- `MMCSDBlockWriteBlocks`, which returns `EFI_SUCCESS` at `Done`. -/
def mmcsdBlockWriteBlocks (_mediaId : BitVec 32) (lba : BitVec 64) (bufferSize : BitVec 32)
    (buffer : Option (Nat → Byte)) : Exec Bus EfiStatus := do
  let _ ← writeStatus card host lba bufferSize buffer
  pure .success

/-! ## Requests -/

/-- A request to the block device. -/
inductive Request where
  | read (mediaId : BitVec 32) (lba : BitVec 64) (bufferSize : BitVec 32) (buffer : Bool)
  | write (mediaId : BitVec 32) (lba : BitVec 64) (bufferSize : BitVec 32) (buffer : Option (Nat → Byte))

def perform : Request → Exec Bus (EfiStatus × List Byte)
  | .read mediaId lba bufferSize buffer => mmcsdBlockReadBlocks card host mediaId lba bufferSize buffer
  | .write mediaId lba bufferSize buffer => do
    let status ← mmcsdBlockWriteBlocks card host mediaId lba bufferSize buffer
    pure (status, [])

end

end Quark.SdMedia
