import Quark.Spi.NorPart
import Quark.Fvb.Volume

/-!
# Access to the blocks of a volume

The read, write and erase functions of `FwBlockService.c` over the SPI protocol. Blocks are read through
the memory window, and written and erased by commands to the controller.
-/

namespace Quark.Fvb

open Machine Machine.Exec
open Spi (Host spiProtocolExecute copyMem eraseSectorSize)

structure FvbEnv where
  spi : Spi.Env
  pcdFlashAreaBaseAddress : BitVec 32
  /-- What is on the stack where `FvbEraseCustomBlockRange` has its local `LbaSize`. -/
  stackLbaSize : BitVec 32

namespace SpiOpcode

abbrev writeIndex : BitVec 8 := 3
abbrev eraseIndex : BitVec 8 := 5

end SpiOpcode

/-- `MmioReadBuffer8`, which asserts that the bytes do not reach behind the end of memory. -/
def mmioReadBuffer8 (env : FvbEnv) (startAddress length : BitVec 32) (buffer : List Byte) :
    Exec Host (List Byte) := do
  assert env.spi.assertEnabled (startAddress.toNat + length.toNat ≤ 2 ^ 32)
  copyMem env.spi startAddress length.toNat buffer

/-- `LbaLength < (*NumBytes + BlockOffset)`. -/
abbrev Cut (lbaLength numBytes blockOffset : BitVec 32) : Prop := lbaLength < numBytes + blockOffset

def adjusted (lbaLength numBytes blockOffset : BitVec 32) : BitVec 32 :=
  if Cut lbaLength numBytes blockOffset then lbaLength - blockOffset else numBytes

def boundaryStatus (lbaLength numBytes blockOffset : BitVec 32) : EfiStatus :=
  if Cut lbaLength numBytes blockOffset then .badBufferSize else .success

/-- `FvbReadBlock`: its status, `*NumBytes` and the buffer. -/
def fvbReadBlock (env : FvbEnv) (v : Volume) (lba : BitVec 64) (blockOffset numBytes : BitVec 32)
    (buffer : List Byte) : Exec Host (EfiStatus × BitVec 32 × List Byte) :=
  if numBytes = 0 then pure (.invalidParameter, numBytes, buffer)
  else match fvbGetLbaAddress v lba with
    | .error st => pure (st, numBytes, buffer)
    | .ok info =>
      if v.attributes &&& Attr.readStatus = 0 then pure (.accessDenied, numBytes, buffer)
      else if info.lbaLength < blockOffset then pure (.invalidParameter, numBytes, buffer)
      else do
        let buffer ← mmioReadBuffer8 env (info.lbaAddress + blockOffset)
          (adjusted info.lbaLength numBytes blockOffset) buffer
        pure (boundaryStatus info.lbaLength numBytes blockOffset,
          adjusted info.lbaLength numBytes blockOffset, buffer)

def flashFdWrite (env : FvbEnv) (writeAddress numBytes : BitVec 32) (buffer : List Byte) :
    Exec Host EfiStatus := do
  let r ← spiProtocolExecute env.spi SpiOpcode.writeIndex 0 true true true
    (writeAddress - env.pcdFlashAreaBaseAddress) numBytes buffer .bios
  pure r.1

def flashFdErase (env : FvbEnv) (writeAddress : BitVec 32) : Exec Host EfiStatus := do
  let r ← spiProtocolExecute env.spi SpiOpcode.eraseIndex 0 false true false
    (writeAddress - env.pcdFlashAreaBaseAddress) 0 [] .bios
  pure r.1

/-- `FvbWriteBlock`: its status and `*NumBytes`. -/
def fvbWriteBlock (env : FvbEnv) (v : Volume) (lba : BitVec 64) (blockOffset numBytes : BitVec 32)
    (buffer : List Byte) : Exec Host (EfiStatus × BitVec 32) :=
  if v.writeEnabled = false then pure (.accessDenied, numBytes)
  else if numBytes = 0 then pure (.invalidParameter, numBytes)
  else match fvbGetLbaAddress v lba with
    | .error st => pure (st, numBytes)
    | .ok info =>
      if v.attributes &&& Attr.writeStatus = 0 then pure (.accessDenied, numBytes)
      else if info.lbaLength < blockOffset then pure (.invalidParameter, numBytes)
      else do
        let returnStatus ← flashFdWrite env (info.lbaWriteAddress + blockOffset)
          (adjusted info.lbaLength numBytes blockOffset) buffer
        pure (if returnStatus.isError then returnStatus
          else boundaryStatus info.lbaLength numBytes blockOffset,
          adjusted info.lbaLength numBytes blockOffset)

/-- The loop of `FvbEraseBlock` from sector `index` on, with the sectors that are left. -/
def eraseSectors (env : FvbEnv) (lbaWriteAddress : BitVec 32) : Nat → Nat → Exec Host EfiStatus
  | _, 0 => pure .success
  | index, left + 1 => do
    let st ← flashFdErase env (lbaWriteAddress + BitVec.ofNat 32 (index * eraseSectorSize))
    if st ≠ .success then pure st else eraseSectors env lbaWriteAddress (index + 1) left

def fvbEraseBlock (env : FvbEnv) (v : Volume) (lba : BitVec 64) : Exec Host EfiStatus :=
  if v.writeEnabled = false then pure .accessDenied
  else if v.attributes &&& Attr.writeStatus = 0 then pure .accessDenied
  else match fvbGetLbaAddress v lba with
    | .error st => pure st
    | .ok info => eraseSectors env info.lbaWriteAddress 0 (info.lbaLength.toNat / eraseSectorSize)

/-! ## Erasing a range -/

/-- The length that `FvbGetLbaAddress` returns, or what the local held before. -/
def lbaLengthOr (v : Volume) (lba : BitVec 64) (lbaSize : BitVec 32) : BitVec 32 :=
  match fvbGetLbaAddress v lba with
  | .ok info => info.lbaLength
  | .error _ => lbaSize

/-- Erase `count` blocks from `index` on, whatever becomes of each. -/
def eraseMiddle (env : FvbEnv) (v : Volume) : BitVec 64 → Nat → Exec Host Unit
  | _, 0 => pure ()
  | index, count + 1 => do
    let _ ← fvbEraseBlock env v index
    eraseMiddle env v (index + 1) count

/-- Save a block in the scratch space and erase it: the number of bytes read, and the scratch space. -/
def saveAndErase (env : FvbEnv) (v : Volume) (lba : BitVec 64) (lbaSize : BitVec 32)
    (scratch : List Byte) : Exec Host (BitVec 32 × List Byte) := do
  let r ← fvbReadBlock env v lba 0 (lbaLengthOr v lba lbaSize) scratch
  let _ ← fvbEraseBlock env v lba
  pure r.2

/-- `FvbEraseCustomBlockRange`: its status and the scratch space. -/
def fvbEraseCustomBlockRange (env : FvbEnv) (v : Volume) (startLba : BitVec 64)
    (offsetStartLba : BitVec 32) (lastLba : BitVec 64) (offsetLastLba : BitVec 32) (scratch : List Byte) :
    Exec Host (EfiStatus × List Byte) := do
  let first ← saveAndErase env v startLba env.stackLbaSize scratch
  Exec.when (0 < offsetStartLba) (do
    let _ ← fvbWriteBlock env v startLba 0 offsetStartLba first.2
    pure ())
  Exec.when (startLba + 1 < lastLba)
    (eraseMiddle env v (startLba + 1) (lastLba.toNat - startLba.toNat - 1))
  let last ← (if startLba < lastLba then saveAndErase env v lastLba first.1 first.2 else pure first)
  let r ← fvbWriteBlock env v lastLba (offsetLastLba + 1) (last.1 - (offsetStartLba + 1)) last.2
  pure (r.1, last.2)

/-! ## Erasing listed blocks -/

abbrev lbaListTerminator : BitVec 64 := 0xFFFFFFFFFFFFFFFF

/-- The first scan of the arguments of `FvbProtocolEraseBlocks`. -/
def eraseBlocksValid (v : Volume) : List (BitVec 64 × BitVec 32) → Bool
  | [] => true
  | (startingLba, numOfLba) :: args =>
    if startingLba = lbaListTerminator then true
    else if numOfLba = 0 then false
    else if v.numOfBlocks.setWidth 64 < startingLba + numOfLba.setWidth 64 then false
    else eraseBlocksValid v args

def eraseLbas (env : FvbEnv) (v : Volume) : BitVec 64 → Nat → Exec Host EfiStatus
  | _, 0 => pure .success
  | startingLba, numOfLba + 1 => do
    let st ← fvbEraseBlock env v startingLba
    if st.isError then pure st else eraseLbas env v (startingLba + 1) numOfLba

/-- The second scan of the arguments of `FvbProtocolEraseBlocks`. -/
def eraseListed (env : FvbEnv) (v : Volume) : List (BitVec 64 × BitVec 32) → Exec Host EfiStatus
  | [] => pure .success
  | (startingLba, numOfLba) :: args =>
    if startingLba = lbaListTerminator then pure .success
    else do
      let st ← eraseLbas env v startingLba numOfLba.toNat
      if st.isError then pure st else eraseListed env v args

/-- `FvbProtocolEraseBlocks` with the pairs of its argument list. -/
def fvbProtocolEraseBlocks (env : FvbEnv) (v : Volume) (args : List (BitVec 64 × BitVec 32)) :
    Exec Host EfiStatus :=
  if eraseBlocksValid v args then eraseListed env v args else pure .invalidParameter

/-! ## The protocol -/

/-- A call of the protocol. The pairs are the variable arguments of `EraseBlocks`. -/
inductive Request where
  | getPhysicalAddress
  | getBlockSize (lba : BitVec 64)
  | getAttributes
  | setAttributes (attributes : BitVec 32)
  | eraseBlocks (args : List (BitVec 64 × BitVec 32))
  | write (lba : BitVec 64) (offset numBytes : BitVec 32) (buffer : List Byte)
  | read (lba : BitVec 64) (offset numBytes : BitVec 32) (buffer : List Byte)

/-- What a call returns, stores through its pointers, and leaves in the buffer. -/
structure Answer where
  status : EfiStatus
  stored : List (BitVec 32) := []
  buffer : List Byte := []
  deriving DecidableEq

def fvbProtocolGetBlockSize (v : Volume) (lba : BitVec 64) : Answer :=
  match fvbGetLbaAddress v lba with
  | .error status => { status := status }
  | .ok info => { status := .success, stored := [info.lbaLength, info.numOfBlocks] }

def fvbProtocolSetAttributes (v : Volume) (attributes : BitVec 32) : Answer × Volume :=
  let r := fvbSetVolumeAttributes v.attributes attributes
  ({ status := r.1, stored := [r.2.2] }, { v with attributes := r.2.1 })

/-- One call of the protocol: its answer, and the volume with the attributes in its header. -/
def serveRequest (env : FvbEnv) (v : Volume) : Request → Exec Host (Answer × Volume)
  | .getPhysicalAddress => pure ({ status := .success, stored := [v.fvBase] }, v)
  | .getBlockSize lba => pure (fvbProtocolGetBlockSize v lba, v)
  | .getAttributes => pure ({ status := .success, stored := [v.attributes] }, v)
  | .setAttributes attributes => pure (fvbProtocolSetAttributes v attributes)
  | .eraseBlocks args => do
    let status ← fvbProtocolEraseBlocks env v args
    pure ({ status := status }, v)
  | .write lba offset numBytes buffer => do
    let r ← fvbWriteBlock env v lba offset numBytes buffer
    pure (⟨r.1, [r.2], buffer⟩, v)
  | .read lba offset numBytes buffer => do
    let r ← fvbReadBlock env v lba offset numBytes buffer
    pure (⟨r.1, [r.2.1], r.2.2⟩, v)

def serveRequests (env : FvbEnv) : Volume → List Request → Exec Host (List Answer × Volume)
  | v, [] => pure ([], v)
  | v, request :: requests => do
    let r ← serveRequest env v request
    let rs ← serveRequests env r.2 requests
    pure (r.1 :: rs.1, rs.2)

end Quark.Fvb
