import Mathlib.Data.BitVec
import Quark.PiSmmCpu.SmmProfile

/-!
# SMM page tables

`Gen4GPageTable` and `SetCacheability` of `MpService.c`, for IA32: a page directory pointer table of four entries,
page directories whose entries map 2MB or lead to a page table, and page tables.

Tables are pages: a table is named by its frame number, an entry by frame and index. Where the pages come from is
up to `AllocatePages`. A loop that fills a table is one update of its page.
-/

namespace Quark.PiSmmCpu

open Machine

abbrev ia32PgWt : BitVec 64 := 1 <<< 3
abbrev ia32PgCd : BitVec 64 := 1 <<< 4
abbrev ia32PgPat2M : BitVec 64 := 1 <<< 12
abbrev ia32PgPat4K : BitVec 64 := ia32PgPs

structure Paging where
  entry : Nat → Nat → BitVec 64
  used : List Nat

structure PagingConfig where
  assertEnabled : Bool
  /-- The width of physical addresses that `CPUID` reports. -/
  physBits : Nat
  physBits_ge : 32 ≤ physBits
  /-- `PcdCpuSmmStackGuard` -/
  stackGuard : Bool
  stackArrayBase : BitVec 32
  stackArrayEnd : BitVec 32
  stackSize : BitVec 32
  /-- The first one of so many frames that are not in use. -/
  allocate : List Nat → Nat → Option Nat
  allocate_fresh : ∀ used n f, allocate used n = some f → f ≠ 0 ∧ ∀ k < n, f + k < 2 ^ 20 ∧ f + k ∉ used

def PagingConfig.phyMask (c : PagingConfig) : BitVec 64 :=
  BitVec.ofNat 64 (2 ^ c.physBits - 1) &&& BitVec.ofNat 64 (2 ^ 48 - 2 ^ 12)

/-- The table that an entry leads to, `(UINT64*)(UINTN)(entry & gPhyMask)`. -/
def PagingConfig.table (c : PagingConfig) (entry : BitVec 64) : Nat :=
  (entry &&& c.phyMask).toNat % 2 ^ 32 / 2 ^ 12

/-- `entry &= ~flags`, where the flags have 32 bits. -/
def clearFlags (entry flags : BitVec 64) : BitVec 64 := entry &&& (~~~flags.setWidth 32).setWidth 64

namespace Paging

def write (frame index : Nat) (value : BitVec 64) (s : Paging) : Paging :=
  { s with entry := Function.update s.entry frame (Function.update (s.entry frame) index value) }

/-- The `n` entries from the start of a page on. -/
def fill (frame n : Nat) (value : Nat → BitVec 64) (s : Paging) : Paging :=
  { s with
    entry := fun f index =>
      let k := (f - frame) * 512 + index
      if frame ≤ f ∧ index < 512 ∧ k < n then value k else s.entry f index }

end Paging

/-- `AllocatePages`, with the `ASSERT` behind it. -/
def allocatePages (c : PagingConfig) (pages : Nat) : Exec Paging Nat := do
  let s ← Exec.get
  match c.allocate s.used pages with
  | some frame => do
    Exec.modify fun s => { s with used := List.range' frame pages ++ s.used }
    pure frame
  | none => do
    assert c.assertEnabled False
    .halt .outOfBounds

/-! ## `Gen4GPageTable` -/

def size2MB : BitVec 32 := 0x200000

/-- The locals of the loop over the 2MB blocks that have a guard page. -/
structure GuardLoop where
  pageIndex : BitVec 32
  guardPage : BitVec 32
  pages : Nat

/-- The loop that fills in the page table of a 2MB block: its entries, and what becomes of `GuardPage`. -/
def guardedEntries (c : PagingConfig) (pageIndex guardPage : BitVec 32) :
    Nat → (Nat → BitVec 32) × BitVec 32
  | 0 => (fun _ => 0, guardPage)
  | index + 1 =>
    let (entries, guardPage) := guardedEntries c pageIndex guardPage index
    let pageAddress := pageIndex + 0x1000 * BitVec.ofNat 32 index
    if pageAddress = guardPage then
      -- mark the guard page as non-present
      let guardPage := guardPage + c.stackSize
      (Function.update entries index pageAddress,
        if guardPage > c.stackArrayEnd then 0 else guardPage)
    else (Function.update entries index (pageAddress + 2 + 1), guardPage)

def bitFieldRead32 (operand : BitVec 32) (startBit endBit : Nat) : Nat :=
  operand.toNat / 2 ^ startBit % 2 ^ (endBit + 1 - startBit)

def guardBody (c : PagingConfig) (pageTable : Nat) (high2MBoundary : BitVec 32) (l : GuardLoop) :
    Exec Paging (GuardLoop ⊕ Unit) := do
  if l.pageIndex ≤ high2MBoundary then do
    let s ← Exec.get
    let pd := (s.entry pageTable (bitFieldRead32 l.pageIndex 30 31)).toNat % 2 ^ 32 / 2 ^ 12
    Exec.modify (Paging.write pd (bitFieldRead32 l.pageIndex 21 29)
      (BitVec.ofNat 64 (l.pages * 2 ^ 12) + ia32PgRw + ia32PgP))
    let (entries, guardPage) := guardedEntries c l.pageIndex l.guardPage 512
    Exec.modify (Paging.fill l.pages 512 fun k => (entries k).setWidth 64)
    pure (.inl ⟨l.pageIndex + size2MB, guardPage, l.pages + 1⟩)
  else pure (.inr ())

def low2MBoundary (c : PagingConfig) : BitVec 32 :=
  if c.stackGuard then (c.stackArrayBase + 0x1000) &&& ~~~(size2MB - 1) else 0

def high2MBoundary (c : PagingConfig) : BitVec 32 :=
  if c.stackGuard then (c.stackArrayEnd - c.stackSize + 0x2000) &&& ~~~(size2MB - 1) else 0

def pagesNeeded (c : PagingConfig) : Nat :=
  if c.stackGuard then ((high2MBoundary c - low2MBoundary c) / size2MB).toNat + 1 else 0

/-- `Gen4GPageTable`. The loop over the blocks with a guard page is followed for at most `fuel` blocks. -/
def gen4GPageTable (c : PagingConfig) (fuel extraPages : Nat) : Exec Paging Nat := do
  let pages ← allocatePages c (extraPages + 5 + pagesNeeded c)
  let pageTable := pages + extraPages
  Exec.modify (Paging.fill pageTable 512 fun _ => 0)
  -- set Page Directory Pointers
  Exec.modify (Paging.fill pageTable 4 fun k => BitVec.ofNat 64 ((pageTable + (k + 1)) * 2 ^ 12) + ia32PgP)
  -- fill in Page Directory Entries
  Exec.modify (Paging.fill (pageTable + 1) 2048 fun k =>
    BitVec.ofNat 64 (k * 2 ^ 21) + ia32PgPs + ia32PgRw + ia32PgP)
  Exec.when (c.stackGuard = true) (Exec.loop fuel (guardBody c pageTable (high2MBoundary c))
    ⟨low2MBoundary c, c.stackArrayBase + 0x1000, pageTable + 5⟩)
  pure pageTable

/-! ## `SetCacheability` -/

/-- `RShiftU64 (Address, shift) & 0x1ff` -/
def ptIndex (address : BitVec 32) (shift : Nat) : Nat := address.toNat / 2 ^ shift % 512

/-- The entry for the `index`-th page of a block that was mapped by a large entry. -/
def splitEntry (entry : BitVec 64) (index : Nat) : BitVec 64 :=
  (if entry &&& ia32PgPat2M ≠ 0 then clearFlags entry ia32PgPat2M ||| ia32PgPat4K
    else clearFlags entry ia32PgPat4K) ||| BitVec.ofNat 64 (index * 2 ^ 12)

def breakEntry (c : PagingConfig) (pd index : Nat) : Exec Paging Unit := do
  let newPageTable ← allocatePages c 1
  let s ← Exec.get
  Exec.modify (Paging.fill newPageTable 512 (splitEntry (s.entry pd index)))
  Exec.modify (Paging.write pd index ((BitVec.ofNat 64 (newPageTable * 2 ^ 12) &&& c.phyMask) ||| ia32PgP))

def setCacheability (c : PagingConfig) (pageTable : Nat) (address : BitVec 32) (cacheability : BitVec 8) :
    Exec Paging Unit := do
  assert c.assertEnabled (address.toNat % 2 ^ 12 = 0)
  let s ← Exec.get
  let pdpte := s.entry pageTable (ptIndex address 30)
  assert c.assertEnabled (pdpte &&& ia32PgP ≠ 0)
  let pd := c.table pdpte
  Exec.when (s.entry pd (ptIndex address 21) &&& ia32PgPs ≠ 0) (breakEntry c pd (ptIndex address 21))
  let s ← Exec.get
  let pde := s.entry pd (ptIndex address 21)
  assert c.assertEnabled (pde &&& ia32PgP ≠ 0)
  let pt := c.table pde
  let pte := s.entry pt (ptIndex address 12)
  assert c.assertEnabled (pte &&& ia32PgP ≠ 0)
  Exec.modify (Paging.write pt (ptIndex address 12)
    (clearFlags pte (ia32PgPat4K ||| ia32PgCd ||| ia32PgWt) ||| cacheability.setWidth 64))

/-! ## What a page is mapped to -/

/-- The cacheability of a page is given in the bits that an entry for 4KB has for it. -/
structure PageView where
  physical : BitVec 64
  present : Bool
  writable : Bool
  cacheability : BitVec 64
  /-- The other flags of the last entry. -/
  flags : BitVec 64

abbrev cacheFlags : BitVec 64 := ia32PgPat4K ||| ia32PgCd ||| ia32PgWt

def viewPage (c : PagingConfig) (pageTable : Nat) (s : Paging) (page : Nat) : PageView :=
  let pdpte := s.entry pageTable (page / 2 ^ 18)
  let pde := s.entry (c.table pdpte) (page / 2 ^ 9 % 512)
  if pde &&& ia32PgPs ≠ 0 then
    { physical := (pde &&& c.phyMask &&& ~~~(2 ^ 21 - 1)) ||| BitVec.ofNat 64 (page % 512 * 2 ^ 12)
      present := pdpte &&& ia32PgP ≠ 0 ∧ pde &&& ia32PgP ≠ 0
      writable := pde &&& ia32PgRw ≠ 0
      cacheability := (pde &&& (ia32PgCd ||| ia32PgWt)) |||
        (if pde &&& ia32PgPat2M ≠ 0 then ia32PgPat4K else 0)
      flags := pde &&& ~~~(c.phyMask ||| ia32PgPs ||| ia32PgCd ||| ia32PgWt ||| ia32PgPat2M) }
  else
    let pte := s.entry (c.table pde) (page % 512)
    { physical := pte &&& c.phyMask
      present := pdpte &&& ia32PgP ≠ 0 ∧ pde &&& ia32PgP ≠ 0 ∧ pte &&& ia32PgP ≠ 0
      writable := pde &&& ia32PgRw ≠ 0 ∧ pte &&& ia32PgRw ≠ 0
      cacheability := pte &&& cacheFlags
      flags := pte &&& ~~~(c.phyMask ||| cacheFlags) }

/-- The page gets the cacheability and stays as it is otherwise, and every other page keeps its physical
address, its permissions and its cacheability. -/
def ChangesOnly (c : PagingConfig) (pageTable : Nat) (address : BitVec 32) (cacheability : BitVec 8)
    (s t : Paging) : Prop :=
  viewPage c pageTable t (address.toNat / 2 ^ 12) =
      { viewPage c pageTable s (address.toNat / 2 ^ 12) with cacheability := cacheability.setWidth 64 } ∧
    ∀ page < 2 ^ 20, page ≠ address.toNat / 2 ^ 12 →
      (viewPage c pageTable t page).physical = (viewPage c pageTable s page).physical ∧
      (viewPage c pageTable t page).present = (viewPage c pageTable s page).present ∧
      (viewPage c pageTable t page).writable = (viewPage c pageTable s page).writable ∧
      (viewPage c pageTable t page).cacheability = (viewPage c pageTable s page).cacheability

def HasPageTable (c : PagingConfig) (pageTable : Nat) (address : BitVec 32) (s : Paging) : Prop :=
  s.entry (c.table (s.entry pageTable (ptIndex address 30))) (ptIndex address 21) &&& ia32PgPs = 0

/-! ## Stack guards

The entry point of `PiSmmCpuDxeSmm.c` takes one array of pages for the stacks of all processors. With
`PcdCpuSmmStackGuard` the second page of each stack is a guard page: it is not present, so a stack that grows too
far faults there, and the page below it is left for the fault to be handled on.
-/

/-- What the entry point leaves in the variables of the stacks: whole pages, at least three for a stack, and all
of them below 4GB minus 4MB. -/
structure StackLayout (c : PagingConfig) (cpus : Nat) : Prop where
  stackGuard : c.stackGuard = true
  cpus_pos : 0 < cpus
  base_aligned : c.stackArrayBase.toNat % 2 ^ 12 = 0
  size_aligned : c.stackSize.toNat % 2 ^ 12 = 0
  size_ge : 3 * 2 ^ 12 ≤ c.stackSize.toNat
  stackArrayEnd : c.stackArrayEnd = c.stackArrayBase + BitVec.ofNat 32 cpus * c.stackSize - 1
  below : c.stackArrayBase.toNat + cpus * c.stackSize.toNat ≤ 2 ^ 32 - 2 ^ 22

def OnGuardPage (c : PagingConfig) (cpus : Nat) (address : BitVec 32) : Prop :=
  ∃ cpu < cpus, address.toNat / 2 ^ 12 * 2 ^ 12 =
    c.stackArrayBase.toNat + cpu * c.stackSize.toNat + 2 ^ 12

/-- Every address is mapped to itself, for reads and writes, but for the guard pages, which are not present. -/
structure MapsGuarded (c : PagingConfig) (cpus pageTable : Nat) (s : Paging) : Prop where
  guarded : ∀ address : BitVec 32, OnGuardPage c cpus address →
    (viewPage c pageTable s (address.toNat / 2 ^ 12)).present = false
  mapped : ∀ address : BitVec 32, ¬ OnGuardPage c cpus address →
    (viewPage c pageTable s (address.toNat / 2 ^ 12)).present = true ∧
    (viewPage c pageTable s (address.toNat / 2 ^ 12)).writable = true ∧
    (viewPage c pageTable s (address.toNat / 2 ^ 12)).physical + BitVec.ofNat 64 (address.toNat % 2 ^ 12) =
      address.setWidth 64

end Quark.PiSmmCpu
