import Quark.Machine.Memory

/-!
# The memory of a data pool

`PlatformDataPoolAppend` of `PlatformHelperDxe.c`, on the bytes of the pool: the descriptor and the data share one
block of pool memory, and the descriptor points into that block. The fields are `UINTN`, 32 bits.

With `ASSERT`s a call for which pool memory is not served stops there.
-/

namespace Quark.PoolBlock

open Machine

abbrev efiPageSize : Nat := 0x1000

/-- `sizeof (PLATLIB_DATA_POOL)`. -/
abbrev descLen : Nat := 20

structure PlatlibDataPool where
  data : Nat
  cnt : Nat
  len : Nat
  termLen : Nat
  maxLen : Nat

/-- A block of pool memory: a descriptor and the bytes behind it. -/
structure Block where
  address : Nat
  pool : PlatlibDataPool
  memory : List UInt8

def Block.size (b : Block) : Nat := descLen + b.memory.length

/-- The code reads or writes beyond what a block holds. -/
inductive Overrun where
  | outOfBlock
  deriving DecidableEq

structure Served (size : Nat) where
  address : Nat
  address_le : address + size ≤ 0x100000000

/-- Pool memory in a call: whether and where blocks are served, and what a block that is not cleared holds. -/
structure PoolMemory where
  allocateZeroPool (size : Nat) : Option (Served size)
  allocatePool (size : Nat) : Option (Served size)
  leftover : Nat → UInt8

/-- `ReallocatePool`: the bytes that are in both sizes are copied. They must have the descriptor, which the caller uses
next. -/
def reallocatePool (m : PoolMemory) (oldSize newSize : Nat) (old : Block) : Except Overrun (Option Block) :=
  match m.allocatePool newSize with
  | none => .ok none
  | some new =>
    let copied := min oldSize newSize
    if copied < descLen ∨ old.size < copied then .error .outOfBlock
    else .ok (some {
      address := new.address
      pool := old.pool
      memory := old.memory.take (copied - descLen) ++ (List.range (newSize - copied)).map m.leftover })

def splice (memory : List UInt8) (offset : Nat) (src : List UInt8) : List UInt8 :=
  memory.take offset ++ src ++ memory.drop (offset + src.length)

/-- `CopyMem` to an address in a block. -/
def Block.copyMem (b : Block) (dest : Nat) (src : List UInt8) : Except Overrun Block :=
  if b.address + descLen ≤ dest ∧ dest + src.length ≤ b.address + b.size then
    .ok { b with memory := splice b.memory (dest - (b.address + descLen)) src }
  else .error .outOfBlock

/-- Bytes with their length in a `UINTN`. -/
structure Bytes where
  bytes : List UInt8
  length_lt : bytes.length < 0x100000000

/-- `Terminator` and `TerminatorLen`. The length is one of its own when there is no terminator. -/
structure Terminator where
  terminator : Option (List UInt8)
  terminatorLen : Nat
  terminatorLen_lt : terminatorLen < 0x100000000
  length_eq : ∀ bytes ∈ terminator, bytes.length = terminatorLen

/-- "First call to append for this pool, allocate initial pool." -/
def findPool (m : PoolMemory) : Option Block → Option Block
  | some block => some block
  | none => (m.allocateZeroPool efiPageSize).map fun alloc => {
      address := alloc.address
      pool := ⟨u32 (alloc.address + descLen), 0, 0, 0, efiPageSize - descLen⟩
      memory := List.replicate (efiPageSize - descLen) 0 }

/-- "Check if current pool has enough space for item to append." -/
def makeRoom (m : PoolMemory) (addLen : Nat) (block : Block) : Except Overrun (Option Block) :=
  if u32 (block.pool.len + addLen) > block.pool.maxLen then do
    let reallocByteCnt := u32 (descLen + block.pool.len + addLen) / efiPageSize
    let reallocByteCnt := u32 ((reallocByteCnt + 1) * efiPageSize)
    match ← reallocatePool m (u32 (descLen + block.pool.maxLen)) reallocByteCnt block with
    | none => pure none
    | some block => pure (some { block with
        pool := { block.pool with
          maxLen := sub32 reallocByteCnt descLen
          data := u32 (block.address + descLen) } })
  else pure (some block)

/-- "Append item." -/
def appendItem (appendData : List UInt8) (t : Terminator) (block : Block) : Except Overrun (Nat × Block) := do
  let dest := u32 (block.pool.data + block.pool.len)
  let block ← block.copyMem dest appendData
  let block := { block with
    pool := { block.pool with
      len := u32 (block.pool.len + appendData.length)
      cnt := u32 (block.pool.cnt + 1) } }
  match t.terminator with
  | none => pure (dest, block)
  | some terminator =>
    if t.terminatorLen = 0 then pure (dest, block)
    else do
      let block := { block with pool := { block.pool with termLen := t.terminatorLen } }
      let block ← block.copyMem (u32 (dest + appendData.length)) terminator
      pure (dest, block)

/-- `PlatformDataPoolAppend`: what it answers, and `*PoolPtr` afterwards. -/
def platformDataPoolAppend (m : PoolMemory) (poolPtr : Option Block) (appendData : Option Bytes) (t : Terminator) :
    Except Overrun (Option Nat × Option Block) :=
  match appendData with
  | none => pure (none, poolPtr)
  | some appendData =>
    if appendData.bytes.length = 0 then pure (none, poolPtr)
    else
      match findPool m poolPtr with
      | none => pure (none, none)
      | some block => do
        match ← makeRoom m (u32 (appendData.bytes.length + t.terminatorLen)) block with
        | none => pure (none, some block)
        | some block => do
          let (dest, block) ← appendItem appendData.bytes t block
          pure (some dest, some block)

/-! ## Runs -/

structure Call where
  memory : PoolMemory
  appendData : Option Bytes

def Call.appended (call : Call) (answer : Option Nat) (items : List (List UInt8)) : List (List UInt8) :=
  match answer, call.appendData with
  | some _, some appendData => items ++ [appendData.bytes]
  | _, _ => items

/-- The item and the terminator fit behind the data, or a block for all of it has a size in 32 bits. -/
def Fits (t : Terminator) (poolPtr : Option Block) (appendData : Option Bytes) : Prop :=
  let len := (poolPtr.map fun block => block.pool.len).getD 0
  let maxLen := (poolPtr.map fun block => block.pool.maxLen).getD (efiPageSize - descLen)
  ∀ data ∈ appendData,
    len + data.bytes.length + t.terminatorLen ≤ maxLen ∨
      descLen + len + data.bytes.length + t.terminatorLen < 0x100000000 - efiPageSize

def Terminator.recorded (t : Terminator) (cnt : Nat) : List UInt8 :=
  if cnt = 0 then [] else t.terminator.getD []

structure Holds (t : Terminator) (items : List (List UInt8)) (block : Block) : Prop where
  data_eq : block.pool.data = block.address + descLen
  address_le : block.address + block.size ≤ 0x100000000
  size_lt : block.size < 0x100000000
  cnt_eq : block.pool.cnt = items.length
  cnt_le : block.pool.cnt ≤ block.pool.len
  len_eq : block.pool.len = items.flatten.length
  first : block.memory.take block.pool.len = items.flatten
  termLen_eq : block.pool.termLen = (t.recorded block.pool.cnt).length
  terminated : (block.memory.drop block.pool.len).take block.pool.termLen = t.recorded block.pool.cnt
  room : block.pool.len + block.pool.termLen ≤ block.pool.maxLen
  room_terminatorLen : items ≠ [] → block.pool.len + t.terminatorLen ≤ block.pool.maxLen
  maxLen_le : block.pool.maxLen ≤ block.size - descLen

def PoolHolds (t : Terminator) (items : List (List UInt8)) : Option Block → Prop
  | none => items = []
  | some block => Holds t items block

end Quark.PoolBlock
