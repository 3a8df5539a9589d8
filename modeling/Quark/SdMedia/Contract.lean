import Quark.SdMedia.BlockIo

/-!
# The contract of a block device

What a caller of `EFI_BLOCK_IO_PROTOCOL` relies on, request after request.
-/

namespace Quark.SdMedia

open Machine Machine.Exec

variable (card : CardData) (host : Host)

/-- Where the blocks from `lba` on start on the card. -/
def CardData.start (lba : BitVec 64) : Nat := lba.toNat * card.blockSize

def CardData.ReachesPast (lba : BitVec 64) (bufferSize : BitVec 32) : Prop :=
  0 < bufferSize.toNat ∧ (card.lastBlock + 1) * card.blockSize < card.start lba + bufferSize.toNat

def CardData.InRange (lba : BitVec 64) (bufferSize : BitVec 32) : Prop :=
  lba.toNat + bufferSize.toNat / card.blockSize ≤ card.lastBlock + 1

namespace Request

def ReachesPast : Request → Prop
  | .read _ lba bufferSize _ => card.ReachesPast lba bufferSize
  | .write _ lba bufferSize _ => card.ReachesPast lba bufferSize

/-- The store with the whole buffer of a write at the blocks from `lba` on. -/
def putBuffer (lba : BitVec 64) (bufferSize : BitVec 32) (buffer : Nat → Byte) (store : ByteStore) :
    ByteStore :=
  store.put (card.start lba) (bufferBytes buffer 0 bufferSize.toNat)

def written (request : Request) (status : EfiStatus) (store : ByteStore) : ByteStore :=
  match request with
  | .write _ lba bufferSize (some buffer) =>
    if status = .success then putBuffer card lba bufferSize buffer store else store
  | _ => store

end Request

/-- The contract of one request, where `store` holds what was last written successfully. -/
structure Honoured (store : ByteStore) (request : Request) (bus : Bus)
    (answer : EfiStatus × List Byte) (bus' : Bus) : Prop where
  rejected : request.ReachesPast card → answer.1 ≠ .success ∧ bus' = bus
  reported : (∃ entry ∈ bus'.log.drop bus.log.length, entry.2.outcome.isError = true) →
    answer.1 ≠ .success
  stored : ∀ mediaId lba bufferSize buffer, request = .write mediaId lba bufferSize buffer →
    answer.1 = .success → match buffer with
      | some buffer => bus'.disk = Request.putBuffer card lba bufferSize buffer bus.disk
      | none => bufferSize = 0 ∧ bus'.disk = bus.disk
  readBack : ∀ mediaId lba bufferSize buffer, request = .read mediaId lba bufferSize buffer →
    answer.1 = .success → answer.2 = store.read (card.start lba) bufferSize.toNat

def KeepsContract (store : ByteStore) : List Request → Bus → Prop
  | [], _ => True
  | request :: requests, bus => ∃ answer bus', perform card host request bus = .ret answer bus' ∧
    Honoured card store request bus answer bus' ∧
    KeepsContract (request.written card answer.1 store) requests bus'

/-! ## When the contract is kept -/

/-- The address of each transfer of a request names the blocks that the transfer is for. -/
def CardData.Addressable (lba : BitVec 64) (bufferSize : BitVec 32) : Prop :=
  if card.sectorAddressing then
    512 ∣ card.start lba ∧ (bufferSize.toNat ≤ card.boundarySize ∨ 512 ∣ card.boundarySize)
  else
    card.start lba + (bufferSize.toNat - 1) / card.boundarySize * card.boundarySize < 2 ^ 32

def CardData.commandsOfTransfer : Nat :=
  if card.cardType.isMmc then if card.extCsdCardType &&& 0b1100#8 = 0 then 3 else 2 else 1

def CardData.commandsOfWrite (bufferSize : Nat) : Nat :=
  if bufferSize > card.blockSize then
    ((bufferSize - 1) / card.boundarySize + 1) * card.commandsOfTransfer
  else 1

/-- A read does not go so far behind the end that the last block number wraps around, and if it is
carried out, its addresses are right. A write that is for any data has a buffer of whole blocks on the
card, which is not write-protected, its addresses are right, and no command of it fails. -/
def Request.Meets (request : Request) (bus : Bus) : Prop :=
  match request with
  | .read mediaId lba bufferSize buffer =>
    mediaId = CardData.mediaId → bufferSize.toNat % card.blockSize = 0 →
      lba.toNat + bufferSize.toNat / card.blockSize < 2 ^ 64 ∧
      (0 < bufferSize.toNat → buffer = true → card.InRange lba bufferSize →
        card.Addressable lba bufferSize)
  | .write _ lba bufferSize buffer =>
    bufferSize = 0 ∨ (buffer.isSome = true ∧ bufferSize.toNat % card.blockSize = 0 ∧
      card.readOnly = false ∧ card.InRange lba bufferSize ∧ card.Addressable lba bufferSize ∧
      ∀ k < card.commandsOfWrite bufferSize.toNat,
        (host.answer (bus.log.length + k)).outcome.isError = false)

end Quark.SdMedia
