import Quark.Ohci.Transfers

/-!
# OHCI: what the transfers are for

The statements about control and bulk transfers: what list of TDs the controller is to be given, what has
to be given back, and what the next toggle is.
-/

namespace Quark.Ohci.Transfer

open Machine

/-! ## The list that the controller is given -/

/-- The TDs of a list, by the link of the controller and by the link of the driver. -/
structure TdList (td : Nat → TdDescriptor) (headTd : Nat) (tds : List Nat) : Prop where
  next : Linked TdDescriptor.nextTD (fun a => some (td a)) headTd tds
  pointer : Linked TdDescriptor.nextTDPointer (fun a => some (td a)) headTd tds
  below : ∀ a ∈ tds, a < 0x100000000

def TdDescriptor.span (td : TdDescriptor) : Nat := td.bufferEndPointer + 1 - td.currBufferPointer

/-- The data TDs cover the `len` bytes from `base` on, in order, without gap or overlap. -/
structure CoversBuffer (base len maxPacketLength toggle : Nat) (tds : List TdDescriptor) : Prop where
  none : tds = [] ↔ len = 0
  first : ∀ td ∈ tds.head?, td.currBufferPointer = base
  contiguous : tds.IsChain fun td td' => td'.currBufferPointer = td.bufferEndPointer + 1
  last : ∀ td ∈ tds.getLast?, td.bufferEndPointer + 1 = base + len
  size : ∀ td ∈ tds, 0 < td.span ∧ td.span ≤ maxPacketLength ∧ td.actualSendLength = td.span
  full : ∀ td ∈ tds.dropLast, td.span = maxPacketLength
  firstToggle : ∀ td ∈ tds.head?, td.dataToggle = 2 + toggle
  alternating : tds.IsChain fun td td' => td'.dataToggle = td.dataToggle ^^^ 1

/-- The list on an ED: TDs before the data stage, the data TDs, TDs behind them, and the empty TD that
the tail pointer of the ED names. -/
structure ExactList (g : Schedule) (ed : Nat) (before data behind : List Nat) (empty : Nat)
    (mapped : Mapped) (maxPacketLength toggle : Nat) : Prop where
  list : TdList g.td (16 * (g.ed ed).tdHeadPointer) (before ++ data ++ behind ++ [empty])
  tail : (g.ed ed).tdTailPointer = empty
  emptyTd : (g.td empty).currBufferPointer = 0 ∧ (g.td empty).bufferEndPointer = 0
  covers : CoversBuffer mapped.phyAddr mapped.length maxPacketLength toggle (data.map g.td)

/-! ## What the platform promises -/

/-- `PciIo->Map` maps at least a byte, below 4 GB. -/
def MapContract (answer : Except EfiStatus Mapped) : Prop :=
  ∀ m, answer = .ok m → 0 < m.length ∧ m.phyAddr + m.length ≤ 0x100000000

/-! ## OHCI: the toggle of a bulk pipe

The device and the host each keep the toggle of the next packet. The host flips its own while it builds the TDs,
and has to take back the flips of those that the device has not answered. What it goes by is the condition codes
and the toggles in the TDs at the last look, and the list-filled bit.
-/

def completedTds (td : Nat → TdDescriptor) (data : List Nat) : Nat :=
  data.countP fun a => (td a).conditionCode = 0

def RetiredInOrder (td : Nat → TdDescriptor) (data : List Nat) : Prop :=
  data.Pairwise fun a b => (td b).conditionCode = 0 → (td a).conditionCode = 0

/-- When the toggle comes out right: all TDs are completed; or the first one that is not is still to be processed,
by its code or by the list-filled bit, and an even number of them is left; or it has failed, and the TD in front of
it has kept the toggle that it was built with. -/
def ToggleRight (firstToggle : Nat) (data : List Nat) (td : Nat → TdDescriptor) (listFilled : Bool) : Prop :=
  ∀ a ∈ (data.drop (completedTds td data)).head?,
    if listFilled = true ∨ (td a).conditionCode = tdTobeProcessed then
      (data.length - completedTds td data) % 2 = 0
    else ∀ b ∈ (data.take (completedTds td data)).getLast?,
      (td b).dataToggle % 2 = firstToggle ^^^ ((completedTds td data - 1) % 2)

def ReportsToggle (firstToggle : Nat) (data : List Nat) (td : Nat → TdDescriptor) (r : TransferResult) : Prop :=
  r.dataToggle = some (firstToggle ^^^ (completedTds td data % 2))

end Quark.Ohci.Transfer
