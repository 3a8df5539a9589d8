import Quark.Base.Efi
import Quark.Machine.Memory

/-!
# OHCI memory pool

`UsbHcMem.c`: the driver takes buffers for DMA from `PciIo->AllocateBuffer` and hands them out in units
of 64 bytes. Each block has a bitmap with one bit for a unit. The first block of the pool is there to
stay, the others are given back once they are empty.
-/

namespace Quark.Ohci

open Machine

abbrev usbHcMemUnit : Nat := 64
abbrev usbHcMemDefaultPages : Nat := 16
abbrev efiPageSize : Nat := 0x1000

/-- `USBHC_MEM_ROUND`: `& ~USBHC_MEM_UNIT_MASK` clears the six low bits. -/
def usbHcMemRound (len : Nat) : Nat := u32 (len + (usbHcMemUnit - 1)) / usbHcMemUnit * usbHcMemUnit

def efiSizeToPages (size : Nat) : Nat :=
  size / efiPageSize + if size % efiPageSize ≠ 0 then 1 else 0

def efiPagesToSize (pages : Nat) : Nat := u32 (pages * efiPageSize)

structure MemBlock where
  bits : Nat → BitVec 8
  bitsLen : Nat
  bufHost : Nat
  bufLen : Nat

def usbHcBitIsSet (data : BitVec 8) (bit : Nat) : Bool := data &&& (1#8 <<< bit) = 1#8 <<< bit

def nextBit (byte bit : Nat) : Nat × Nat := if 7 < bit + 1 then (byte + 1, 0) else (byte, bit + 1)

/-! ## Blocks -/

/-- The locals of the search in `UsbHcAllocMemFromBlock`. -/
structure SearchLocals where
  byte : Nat
  bit : Nat
  startByte : Nat
  startBit : Nat
  available : Nat

/-- One pass of the search for `units` free units. -/
def searchBody {σ : Type} (block : MemBlock) (units : Nat) (l : SearchLocals) :
    Exec σ (SearchLocals ⊕ SearchLocals) :=
  if l.byte < block.bitsLen then
    let (nextByte, nextBit) := nextBit l.byte l.bit
    if ¬ usbHcBitIsSet (block.bits l.byte) l.bit then
      if units ≤ l.available + 1 then pure (.inr { l with available := l.available + 1 })
      else
        pure (.inl { l with byte := nextByte, bit := nextBit, available := l.available + 1 })
    else
      pure (.inl {
        byte := nextByte
        bit := nextBit
        startByte := nextByte
        startBit := nextBit
        available := 0 })
  else pure (.inr l)

/-- "Mark the memory as allocated": `count` units from a bit on. -/
def markUnits {σ : Type} (asserts : Bool) : Nat → Nat → Nat → MemBlock → Exec σ MemBlock
  | 0, _, _, block => pure block
  | count + 1, byte, bit, block => do
    assert asserts (usbHcBitIsSet (block.bits byte) bit = false)
    let bits := Function.update block.bits byte (block.bits byte ||| 1#8 <<< bit)
    markUnits asserts count (nextBit byte bit).1 (nextBit byte bit).2 { block with bits }

def usbHcAllocMemFromBlock {σ : Type} (asserts : Bool) (block : MemBlock) (units : Nat) :
    Exec σ (Option Nat × MemBlock) := do
  assert asserts (units ≠ 0)
  let l ← .loop (8 * block.bitsLen + 1) (searchBody block units) ⟨0, 0, 0, 0, 0⟩
  if l.available < units then pure (none, block)
  else do
    let block ← markUnits asserts units l.startByte l.startBit block
    pure (some (u32 (block.bufHost + (l.startByte * 8 + l.startBit) * usbHcMemUnit)), block)

def usbHcIsMemBlockEmpty (block : MemBlock) : Bool := ∀ index < block.bitsLen, block.bits index = 0

/-- `UsbHcAllocMemBlock`. `buffer` is what `PciIo->AllocateBuffer` and `PciIo->Map` come to, `none` if
one of them or an allocation of pool memory fails. -/
def usbHcAllocMemBlock (pages : Nat) (buffer : Option Nat) : Option MemBlock :=
  buffer.map fun bufHost => {
    bits := fun _ => 0
    bitsLen := efiPagesToSize pages / (usbHcMemUnit * 8)
    bufHost
    bufLen := efiPagesToSize pages }

/-! ## The pool -/

/-- The blocks of `USBHC_MEM_POOL`, the one at `Head` first. -/
abbrev MemPool := List MemBlock

def usbHcInsertMemBlockToPool (block : MemBlock) : MemPool → MemPool
  | [] => []
  | head :: next => head :: block :: next

/-- "First check whether current memory blocks can satisfy the allocation." -/
def allocFromBlocks {σ : Type} (asserts : Bool) (units : Nat) :
    MemPool → Exec σ (Option Nat × MemPool)
  | [] => pure (none, [])
  | block :: next => do
    let (mem, block) ← usbHcAllocMemFromBlock asserts block units
    match mem with
    | some mem => pure (some mem, block :: next)
    | none => do
      let (mem, next) ← allocFromBlocks asserts units next
      pure (mem, block :: next)

def newBlockPages (allocSize : Nat) : Nat :=
  if efiPagesToSize usbHcMemDefaultPages < allocSize then efiSizeToPages allocSize + 1
  else usbHcMemDefaultPages

/-- `UsbHcAllocateMem`. `buffer` is the answer to the request for a new block, if there is one. -/
def usbHcAllocateMem {σ : Type} (asserts : Bool) (pool : MemPool) (size : Nat) (buffer : Option Nat) :
    Exec σ (Option Nat × MemPool) := do
  let allocSize := usbHcMemRound size
  assert asserts (pool ≠ [])
  let (mem, pool) ← allocFromBlocks asserts (allocSize / usbHcMemUnit) pool
  match mem with
  | some mem => pure (some mem, pool)
  | none =>
    match usbHcAllocMemBlock (newBlockPages allocSize) buffer with
    | none => pure (none, pool)
    | some newBlock => do
      let (mem, newBlock) ← usbHcAllocMemFromBlock asserts newBlock (allocSize / usbHcMemUnit)
      pure (mem, usbHcInsertMemBlockToPool newBlock pool)

/-- "reset associated bits in bit arry" -/
def resetUnits {σ : Type} (asserts : Bool) : Nat → Nat → Nat → MemBlock → Exec σ MemBlock
  | 0, _, _, block => pure block
  | count + 1, byte, bit, block => do
    assert asserts (usbHcBitIsSet (block.bits byte) bit = true)
    let bits := Function.update block.bits byte (block.bits byte ^^^ 1#8 <<< bit)
    resetUnits asserts count (nextBit byte bit).1 (nextBit byte bit).2 { block with bits }

def MemBlock.holds (block : MemBlock) (mem allocSize : Nat) : Bool :=
  block.bufHost ≤ mem ∧ u32 (mem + allocSize) ≤ u32 (block.bufHost + block.bufLen)

def findHolding (mem allocSize : Nat) : MemPool → Option (MemPool × MemBlock × MemPool)
  | [] => none
  | block :: next =>
    if block.holds mem allocSize then some ([], block, next)
    else (findHolding mem allocSize next).map fun (before, found, behind) =>
      (block :: before, found, behind)

/-- `UsbHcFreeMem`. Without a block that contains the memory the code goes on with a `NULL` pointer. -/
def usbHcFreeMem {σ : Type} (asserts : Bool) (pool : MemPool) (mem size : Nat) : Exec σ MemPool :=
  let allocSize := usbHcMemRound size
  match findHolding mem allocSize pool with
  | none => do
    assert asserts False
    .halt .outOfBounds
  | some (before, block, behind) => do
    let unit := (mem - block.bufHost) / usbHcMemUnit
    let block ← resetUnits asserts (allocSize / usbHcMemUnit) (unit / 8) (unit % 8) block
    if before ≠ [] ∧ usbHcIsMemBlockEmpty block then pure (before ++ behind)
    else pure (before ++ block :: behind)

/-! ## A driver at work -/

/-- What a call of `UsbHcAllocateMem` has returned, with the size it was asked for. -/
structure Allocation where
  mem : Nat
  size : Nat
  deriving DecidableEq

structure Session where
  pool : MemPool
  live : List Allocation

/-- A call of the driver. -/
inductive PoolRequest where
  | allocate (size : Nat) (buffer : Option Nat)
  | free (allocation : Allocation)

def servePool (asserts : Bool) : PoolRequest → Exec Session Unit
  | .allocate size buffer => do
    let s ← .get
    let (mem, pool) ← usbHcAllocateMem asserts s.pool size buffer
    .modify fun s => ⟨pool, match mem with
      | none => s.live
      | some mem => ⟨mem, size⟩ :: s.live⟩
  | .free a => do
    let s ← .get
    let pool ← usbHcFreeMem asserts s.pool a.mem a.size
    .modify fun s => ⟨pool, s.live.erase a⟩

end Quark.Ohci
