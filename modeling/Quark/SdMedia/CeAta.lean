import Quark.Base.Efi

/-!
# Block transfers to and from a CE-ATA device

`CEATABlockReadBlocks` and `CEATABlockWriteBlocks` of `CEATABlockIo.c`: a request is cut into chunks of
`BoundarySize`, and each chunk is one `ReadDMAExt` or `WriteDMAExt` call. What a call returns is given from
outside; the reset behind a call that fails is left out.

`UINTN` has 32 bits.
-/

namespace Quark.SdMedia

open Machine

abbrev dataUnitSize : Nat := 512

/-- What the two functions read of `CARD_DATA` and of the capabilities of the host. The size of the device is a
`UINT64`, from which the number of the last block is computed. -/
structure CeAtaCard where
  mediaId : BitVec 32
  blockSize : BitVec 32
  lastBlock : BitVec 64
  readOnly : Bool
  boundarySize : BitVec 32
  blockSize_pos : 0 < blockSize.toNat
  device_lt : (lastBlock + 1).toNat * blockSize.toNat < 2 ^ 64

/-- The arguments of a request, where `write` tells the two functions apart. -/
structure CeAtaRequest where
  write : Bool
  mediaId : BitVec 32
  lba : BitVec 64
  bufferSize : BitVec 32
  buffer : Bool

/-- A call of `ReadDMAExt` or `WriteDMAExt`, with the offset of its part of the buffer. -/
structure DmaCall where
  lba : BitVec 64
  buffer : Nat
  sectorCount : BitVec 16
  deriving DecidableEq, Repr

/-- The calls that were issued, and `NeedFlush`. -/
structure CeAtaState where
  calls : List DmaCall
  needFlush : Bool

abbrev DmaAnswers := Nat → EfiStatus

/-- `ReadDMAExt` or `WriteDMAExt`. -/
def dmaExt (answers : DmaAnswers) (call : DmaCall) : Exec CeAtaState EfiStatus := do
  let s ← .get
  .modify fun s => { s with calls := s.calls ++ [call] }
  pure (answers s.calls.length)

/-- `Address`, `Index`, `BufferSize` and `pBuf` at the head of the loop. -/
structure ChunkLocals where
  address : BitVec 64
  index : BitVec 32
  bufferSize : BitVec 32
  pBuf : Nat

def transferSize (boundarySize bufferSize : BitVec 32) : BitVec 32 :=
  if bufferSize < boundarySize then bufferSize else boundarySize

def chunkBody (asserts : Bool) (boundarySize : BitVec 32) (answers : DmaAnswers) (l : ChunkLocals) :
    Exec CeAtaState (ChunkLocals ⊕ EfiStatus) := do
  let size := transferSize boundarySize l.bufferSize
  let address := l.address + (l.index * size).setWidth 64
  assert asserts (address.toNat % dataUnitSize = 0)
  let status ← dmaExt answers
    ⟨BitVec.ofNat 64 (address.toNat / dataUnitSize), l.pBuf, BitVec.ofNat 16 (size.toNat / dataUnitSize)⟩
  if status.isError then pure (.inr status)
  else if l.bufferSize - size = 0 then pure (.inr status)
  else pure (.inl ⟨address, l.index + 1, l.bufferSize - size, l.pBuf + size.toNat⟩)

/-- `CEATABlockReadBlocks`, and `CEATABlockWriteBlocks` if `write` is set. -/
def ceAtaBlocks (fuel : Nat) (asserts : Bool) (card : CeAtaCard) (answers : DmaAnswers) (r : CeAtaRequest) :
    Exec CeAtaState EfiStatus := do
  let address := r.lba * card.blockSize.setWidth 64
  if r.buffer = false then pure .invalidParameter
  else if r.mediaId ≠ card.mediaId then pure .mediaChanged
  else if r.bufferSize % card.blockSize ≠ 0 then pure .badBufferSize
  else if r.bufferSize = 0 then pure .success
  else if r.write ∧ card.readOnly then pure .writeProtected
  else if address + r.bufferSize.setWidth 64 > (card.lastBlock + 1) * card.blockSize.setWidth 64 then
    pure .invalidParameter
  else do
    Exec.when (r.write = true) (.modify fun s => { s with needFlush := true })
    .loop fuel (chunkBody asserts card.boundarySize answers) ⟨address, 0, r.bufferSize, 0⟩

def ceataBlockReadBlocks (fuel : Nat) (asserts : Bool) (card : CeAtaCard) (answers : DmaAnswers) (mediaId : BitVec 32)
    (lba : BitVec 64) (bufferSize : BitVec 32) (buffer : Bool) : Exec CeAtaState EfiStatus :=
  ceAtaBlocks fuel asserts card answers ⟨false, mediaId, lba, bufferSize, buffer⟩

def ceataBlockWriteBlocks (fuel : Nat) (asserts : Bool) (card : CeAtaCard) (answers : DmaAnswers) (mediaId : BitVec 32)
    (lba : BitVec 64) (bufferSize : BitVec 32) (buffer : Bool) : Exec CeAtaState EfiStatus :=
  ceAtaBlocks fuel asserts card answers ⟨true, mediaId, lba, bufferSize, buffer⟩

/-! ## What a request is for -/

def startByte (card : CeAtaCard) (r : CeAtaRequest) : Nat := r.lba.toNat * card.blockSize.toNat

/-- A request that passes the checks: a positive multiple of the block size, inside the device. -/
structure Accepted (card : CeAtaCard) (r : CeAtaRequest) : Prop where
  buffer : r.buffer = true
  mediaId : r.mediaId = card.mediaId
  positive : 0 < r.bufferSize.toNat
  multiple : card.blockSize.toNat ∣ r.bufferSize.toNat
  writable : ¬ (r.write = true ∧ card.readOnly = true)
  inside : startByte card r + r.bufferSize.toNat ≤ (card.lastBlock + 1).toNat * card.blockSize.toNat

/-- The calls address the sectors from the byte `start` on without gap or overlap, each with its part of the
buffer: from the offset `off` up to the offset `done`. -/
def CoversTo (start : Nat) : Nat → List DmaCall → Nat → Prop
  | off, [], done => off = done
  | off, c :: rest, done =>
    c.lba.toNat * dataUnitSize = start + off ∧ c.buffer = off ∧ 0 < c.sectorCount.toNat ∧
      CoversTo start (off + c.sectorCount.toNat * dataUnitSize) rest done

/-- Whatever the calls return, they cover a first part of the request, and all of it if the request succeeds; it
succeeds if all calls do. -/
def TransferExact (asserts : Bool) (card : CeAtaCard) (r : CeAtaRequest) : Prop :=
  ∀ answers : DmaAnswers, ∃ fuel status s,
    ceAtaBlocks fuel asserts card answers r ⟨[], false⟩ = .ret status s ∧
    (∃ done ≤ r.bufferSize.toNat, CoversTo (startByte card r) 0 s.calls done ∧
      (status.isError = false → done = r.bufferSize.toNat)) ∧
    ((∀ k, (answers k).isError = false) → status.isError = false)

/-- The range has sector bounds, no chunk has 65536 sectors or more, and the request has one chunk, two that are
full, or two that are full and a half one. -/
structure FewChunks (card : CeAtaCard) (r : CeAtaRequest) : Prop where
  start : dataUnitSize ∣ startByte card r
  size : dataUnitSize ∣ r.bufferSize.toNat
  chunk : min r.bufferSize.toNat card.boundarySize.toNat < 2 ^ 25
  chunks : r.bufferSize.toNat ≤ card.boundarySize.toNat ∨ r.bufferSize.toNat = 2 * card.boundarySize.toNat ∨
    2 * r.bufferSize.toNat = 5 * card.boundarySize.toNat

end Quark.SdMedia
