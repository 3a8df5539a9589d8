import Quark.Machine.Exec
import Quark.Machine.LinkedList
import Quark.Machine.Memory

/-!
# OHCI: servicing interrupt transfers

`OhciHouseKeeper` of `OhciSched.c`, which a timer calls. It walks the list of interrupt contexts, looks
at the transfer descriptors that the controller has retired, and calls the drivers that wait for them.

The TDs and the ED of a context belong to it alone, so they are part of the entry here: the chain of TDs
through `NextTDPointer` is a list, which ends with the empty TD that `OhciInterruptTransfer` appends. The
entries themselves are nodes of a heap. A callback is recorded, and taken not to change the contexts.
-/

namespace Quark.Ohci

open Machine

/-! ## Descriptors -/

/-- `TD_DESCRIPTOR`: its address, and the fields that the driver and the controller use. -/
structure TdDescriptor where
  address : Nat
  dataToggle : Nat
  errorCount : Nat
  conditionCode : Nat
  currBufferPointer : Nat
  nextTD : Nat
  dataBuffer : Nat
  actualSendLength : Nat
  deriving DecidableEq, Repr

/-- `ED_DESCRIPTOR`, the fields that servicing uses. -/
structure EdDescriptor where
  skip : Nat
  halted : Nat
  toggleCarry : Nat
  tdHeadPointer : Nat
  deriving DecidableEq, Repr

/-- `INTERRUPT_CONTEXT_ENTRY`. For `UCBuffer`, `UCBufferMapping` and `NextEntry`, `0` is `NULL`. -/
structure InterruptContextEntry where
  ed : Option EdDescriptor
  dataTd : List TdDescriptor
  callBackFunction : Option Nat
  context : Nat
  isPeriodic : Bool
  uCBuffer : Nat
  uCBufferMapping : Nat
  nextEntry : Nat
  deriving DecidableEq, Repr

/-- A call of an `EFI_ASYNC_USB_TRANSFER_CALLBACK`. -/
structure CallBackCall where
  function : Nat
  data : Nat
  dataLength : Nat
  context : Nat
  result : Nat
  deriving DecidableEq, Repr

/-- What is given back by `OhciFreeInterruptContextEntry`. -/
inductive Freed where
  | mapping (mapping : Nat)
  | pool (buffer : Nat)
  | td (address : Nat)
  deriving DecidableEq, Repr

/-- The part of `USB_OHCI_HC_DEV` that is used here, the TPL, and what has been called and freed. -/
structure OhcDev where
  interruptContextList : Nat
  entry : Nat → Option InterruptContextEntry
  tpl : Nat
  callBacks : List CallBackCall
  freed : List Freed

abbrev tplNotify : Nat := 16

/-! ## Results -/

abbrev efiUsbNoerror : Nat := 0x00
abbrev efiUsbErrNotexecute : Nat := 0x01
abbrev efiUsbErrStall : Nat := 0x02
abbrev efiUsbErrBuffer : Nat := 0x04
abbrev efiUsbErrCrc : Nat := 0x20
abbrev efiUsbErrTimeout : Nat := 0x40
abbrev efiUsbErrBitstuff : Nat := 0x80
abbrev efiUsbErrSystem : Nat := 0x100

abbrev tdNoError : Nat := 0x00
abbrev tdTobeProcessed : Nat := 0x0E

def convertErrorCode (errorCode : Nat) : Nat :=
  match errorCode with
  | 0x00 => efiUsbNoerror       -- TD_NO_ERROR
  | 0x0E => efiUsbErrNotexecute -- TD_TOBE_PROCESSED
  | 0x0F => efiUsbErrNotexecute -- TD_TOBE_PROCESSED_2
  | 0x04 => efiUsbErrStall      -- TD_DEVICE_STALL
  | 0x0C => efiUsbErrBuffer     -- TD_BUFFER_OVERRUN
  | 0x0D => efiUsbErrBuffer     -- TD_BUFFER_UNDERRUN
  | 0x01 => efiUsbErrCrc        -- TD_CRC_ERROR
  | 0x05 => efiUsbErrTimeout    -- TD_NO_RESPONSE
  | 0x02 => efiUsbErrBitstuff   -- TD_BITSTUFFING_ERROR
  | _ => efiUsbErrSystem

/-- `OhciCheckTDsResults`: the `*Result` it leaves. The first error ends the walk. -/
def ohciCheckTDsResults : List TdDescriptor → Nat
  | [] => efiUsbNoerror
  | td :: tds =>
    let result := convertErrorCode td.conditionCode
    if result ≠ 0 then result else ohciCheckTDsResults tds

namespace InterruptContextEntry

/-- The `Result` of an entry. -/
def result (e : InterruptContextEntry) : Nat := ohciCheckTDsResults e.dataTd

/-- The test by which `OhciHouseKeeper` leaves an entry alone. -/
def Pending (e : InterruptContextEntry) : Prop :=
  e.result &&& efiUsbErrStall = efiUsbErrStall ∨
    e.result &&& efiUsbErrNotexecute = efiUsbErrNotexecute

instance (e : InterruptContextEntry) : Decidable e.Pending := inferInstanceAs (Decidable (_ ∨ _))

end InterruptContextEntry

/-! ## Callbacks and re-arming -/

/-- `OhciInvokeInterruptCallBack`: the call it makes of `function`, given the first TD. -/
def ohciInvokeInterruptCallBack (function : Nat) (dataTd : TdDescriptor) (context result : Nat) :
    CallBackCall :=
  if result ≠ 0 then ⟨function, 0, 0, context, result⟩
  else ⟨function, dataTd.dataBuffer, dataTd.actualSendLength, context, result⟩

def setToggles (toggle : Nat) : List TdDescriptor → List TdDescriptor
  | [] => []
  | [td] => [{ td with dataToggle := 0 }]
  | td :: td' :: tds =>
    { td with dataToggle := (toggle ||| 0x2) % 4 } :: setToggles (toggle ^^^ 1) (td' :: tds)

def reactivate : List TdDescriptor → List TdDescriptor
  | [] => []
  | [td] => [{ td with errorCount := 0, conditionCode := 0, currBufferPointer := 0, nextTD := 0 }]
  | td :: td' :: tds =>
    { td with
      errorCount := 0
      conditionCode := tdTobeProcessed
      nextTD := td'.address
      currBufferPointer := td.dataBuffer } :: reactivate (td' :: tds)

/-- Re-submit the TDs `headTd :: tds` of an entry on its ED. -/
def resubmit (e : InterruptContextEntry) (ed : EdDescriptor) (headTd : TdDescriptor) :
    InterruptContextEntry :=
  { e with
    dataTd := reactivate (setToggles ed.toggleCarry e.dataTd)
    ed := some { ed with
      tdHeadPointer := headTd.address / 16
      halted := 0
      toggleCarry := 0
      skip := 0 } }

/-! ## The walk -/

def readEntry (p : Nat) : Exec OhcDev InterruptContextEntry := do
  let s ← .get
  match s.entry p with
  | some e => pure e
  | none => .halt .outOfBounds

def writeEntry (p : Nat) (e : InterruptContextEntry) : Exec OhcDev Unit :=
  .modify fun s => { s with entry := Function.update s.entry p (some e) }

def raiseTpl (newTpl : Nat) : Exec OhcDev Nat := do
  let s ← .get
  .modify fun s => { s with tpl := newTpl }
  pure s.tpl

def restoreTpl (oldTpl : Nat) : Exec OhcDev Unit := .modify fun s => { s with tpl := oldTpl }

/-- What `OhciFreeInterruptContextEntry` gives back for an entry at `p`. -/
def InterruptContextEntry.releases (e : InterruptContextEntry) (p : Nat) : List Freed :=
  (if e.uCBufferMapping ≠ 0 then [.mapping e.uCBufferMapping] else []) ++
    (if e.uCBuffer ≠ 0 then [.pool e.uCBuffer] else []) ++
    e.dataTd.map (fun td => .td td.address) ++ [.pool p]

/-- `OhciFreeInterruptContextEntry`. The status it returns is not used. -/
def ohciFreeInterruptContextEntry (p : Nat) : Exec OhcDev Unit :=
  if p = 0 then pure ()
  else do
    let e ← readEntry p
    .modify fun s => { s with
      entry := Function.update s.entry p none
      freed := s.freed ++ e.releases p }

def invokeCallBack (e : InterruptContextEntry) : Exec OhcDev Unit :=
  match e.callBackFunction, e.dataTd with
  | none, _ => pure ()
  | some _, [] => .halt .outOfBounds
  | some f, td :: _ => .modify fun s => { s with
      callBacks := s.callBacks ++ [ohciInvokeInterruptCallBack f td e.context e.result] }

/-- One iteration of the loop of `OhciHouseKeeper`; the locals are `Entry` and `PreEntry`. The loop ends
where the function returns. -/
def houseKeeperBody (originalTpl : Nat) (l : Nat × Nat) : Exec OhcDev (Nat × Nat ⊕ Unit) := do
  let (entry, preEntry) := l
  if entry = 0 then do
    restoreTpl originalTpl
    pure (.inr ())
  else do
    let e ← readEntry entry
    if e.Pending then pure (.inr ())
    else do
      invokeCallBack e
      if e.isPeriodic then
        if e.result = efiUsbNoerror then
          match e.ed, e.dataTd with
          | none, _ => pure (.inr ())
          | some _, [] => pure (.inl (e.nextEntry, entry))
          | some ed, td :: _ => do
            writeEntry entry (resubmit e ed td)
            pure (.inl (e.nextEntry, entry))
        else pure (.inl (e.nextEntry, entry))
      else if preEntry = 0 then do
        .modify fun s => { s with interruptContextList := e.nextEntry }
        ohciFreeInterruptContextEntry preEntry
        restoreTpl originalTpl
        pure (.inr ())
      else do
        -- `PreEntry = Entry; PreEntry->NextEntry = Entry->NextEntry;`
        writeEntry entry { e with nextEntry := e.nextEntry }
        ohciFreeInterruptContextEntry entry
        restoreTpl originalTpl
        pure (.inr ())

/-- `OhciHouseKeeper`. At most `fuel` entries are followed. -/
def ohciHouseKeeper (fuel : Nat) : Exec OhcDev Unit := do
  let originalTpl ← raiseTpl tplNotify
  let s ← .get
  .loop fuel (houseKeeperBody originalTpl) (s.interruptContextList, 0)

/-! ## What a call is for -/

/-- How many bytes the controller has moved for a TD: it clears `CurrBufferPointer` when the buffer is
full, and leaves it behind the last byte of a short packet. -/
def TdDescriptor.receivedLength (td : TdDescriptor) : Nat :=
  if td.currBufferPointer = 0 then td.actualSendLength else td.currBufferPointer - td.dataBuffer

namespace InterruptContextEntry

/-- The controller is done with the TDs of the entry, and the transaction is not one to wait for. -/
def Finished (e : InterruptContextEntry) : Prop := ¬ e.Pending

def Completed (e : InterruptContextEntry) : Prop := e.result = efiUsbNoerror

def Retired (e : InterruptContextEntry) : Prop := e.Finished ∧ e.isPeriodic = false

instance (e : InterruptContextEntry) : Decidable e.Finished := inferInstanceAs (Decidable (¬ _))
instance (e : InterruptContextEntry) : Decidable e.Completed := inferInstanceAs (Decidable (_ = _))
instance (e : InterruptContextEntry) : Decidable e.Retired := inferInstanceAs (Decidable (_ ∧ _))

/-- An entry as `OhciInterruptTransfer` makes it: a callback, an ED, and data TDs in front of the empty
TD. -/
structure WellFormed (e : InterruptContextEntry) : Prop where
  callBack : e.callBackFunction ≠ none
  ed : e.ed ≠ none
  tds : 2 ≤ e.dataTd.length

def delivered (e : InterruptContextEntry) : Option Range :=
  e.dataTd.head?.map fun td => ⟨td.dataBuffer, td.actualSendLength⟩

def received (e : InterruptContextEntry) : List Range :=
  e.dataTd.dropLast.map fun td => ⟨td.dataBuffer, td.receivedLength⟩

/-- The callback is given what has been received: the first data TD is full, and there is no other with
data in it. -/
def DeliversReceived (e : InterruptContextEntry) : Prop :=
  e.received.head? = e.delivered ∧ ∀ r ∈ e.received.tail, r.len = 0

/-- The controller will process the TDs from the first to the empty one. -/
structure Armed (e : InterruptContextEntry) : Prop where
  ed : ∃ ed td, e.ed = some ed ∧ e.dataTd.head? = some td ∧ ed.tdHeadPointer = td.address / 16 ∧
    ed.skip = 0 ∧ ed.halted = 0
  data : ∀ td ∈ e.dataTd.dropLast, td.conditionCode = tdTobeProcessed ∧ td.errorCount = 0 ∧
    td.currBufferPointer = td.dataBuffer
  linked : e.dataTd.dropLast.map TdDescriptor.nextTD = e.dataTd.tail.map TdDescriptor.address

/-- The same transfer, whatever the state of its descriptors and its place in the list. -/
def SameTransfer (e e' : InterruptContextEntry) : Prop :=
  e'.callBackFunction = e.callBackFunction ∧ e'.context = e.context ∧ e'.isPeriodic = e.isPeriodic ∧
    e'.uCBuffer = e.uCBuffer ∧ e'.uCBufferMapping = e.uCBufferMapping ∧
    e'.dataTd.map (fun td => (td.address, td.dataBuffer, td.actualSendLength)) =
      e.dataTd.map fun td => (td.address, td.dataBuffer, td.actualSendLength)

def call (e : InterruptContextEntry) : Option CallBackCall :=
  match e.callBackFunction, e.dataTd with
  | some f, td :: _ =>
    if e.Finished then some (ohciInvokeInterruptCallBack f td e.context e.result) else none
  | _, _ => none

end InterruptContextEntry

namespace OhcDev

/-- The contexts of the device are the entries at `ps`. -/
def Contexts (s : OhcDev) (ps : List Nat) : Prop :=
  Linked InterruptContextEntry.nextEntry s.entry s.interruptContextList ps

def At (s : OhcDev) (C : InterruptContextEntry → Prop) (p : Nat) : Prop :=
  ∃ e, s.entry p = some e ∧ C e

instance (s : OhcDev) (C : InterruptContextEntry → Prop) [DecidablePred C] (p : Nat) :
    Decidable (s.At C p) :=
  match h : s.entry p with
  | none => isFalse fun ⟨e, he, _⟩ => by rw [h] at he; cases he
  | some e => decidable_of_iff (C e) ⟨fun hc => ⟨e, h, hc⟩, fun ⟨e', he', hc⟩ => by
      rw [h] at he'; cases he'; exact hc⟩

/-- What has to be given back for the entry at `p`. -/
def retiredReleases (s : OhcDev) (p : Nat) : List Freed :=
  match s.entry p with
  | some e => if e.Retired then e.releases p else []
  | none => []

/-- A call that was made in `s`, with the contexts at `ps`, and came back in `s'` has done its work. -/
structure Serviced (s : OhcDev) (ps : List Nat) (s' : OhcDev) : Prop where
  /-- It returns at the TPL it was entered with. -/
  tpl_eq : s'.tpl = s.tpl
  /-- Each finished entry has had its callback once. -/
  callBacks_eq : s'.callBacks =
    s.callBacks ++ ps.filterMap fun p => (s.entry p).bind InterruptContextEntry.call
  /-- Callbacks are given the received data. -/
  delivers : ∀ p ∈ ps, ∀ e, s.entry p = some e → e.Completed → e.DeliversReceived
  /-- The retired entries are out of the list, and the others still in it. -/
  contexts : s'.Contexts (ps.filter fun p => ¬ s.At InterruptContextEntry.Retired p)
  /-- The retired entries are freed, and nothing else is. -/
  freed_eq : s'.freed = s.freed ++ ps.flatMap s.retiredReleases
  gone : ∀ p ∈ ps, s.At InterruptContextEntry.Retired p → s'.entry p = none
  /-- The completed periodic entries are armed again. -/
  rearmed : ∀ p ∈ ps, ∀ e, s.entry p = some e → e.Completed → e.isPeriodic = true →
    ∃ e', s'.entry p = some e' ∧ e'.Armed ∧ e.SameTransfer e'
  /-- Every other entry is as it was, but for its place in the list. -/
  kept : ∀ p ∈ ps, ∀ e, s.entry p = some e → ¬ e.Retired → ¬ (e.Completed ∧ e.isPeriodic = true) →
    ∃ n, s'.entry p = some { e with nextEntry := n }
  others : ∀ p, p ∉ ps → s'.entry p = s.entry p

/-- What the contexts at `ps` have to be like for one call to service them. -/
structure Serviceable (s : OhcDev) (ps : List Nat) : Prop where
  /-- No finished entry is to leave the list. -/
  not_retired : ∀ p ∈ ps, ¬ s.At InterruptContextEntry.Retired p
  /-- There is nothing to do behind an entry that is pending. -/
  pending_last : ps.Pairwise fun p q =>
    s.At InterruptContextEntry.Pending p → s.At InterruptContextEntry.Pending q
  /-- The call is made at `TPL_NOTIFY` if it comes by an entry that is pending. -/
  tpl_eq : (∃ p ∈ ps, s.At InterruptContextEntry.Pending p) → s.tpl = tplNotify
  /-- No transfer has ended with a short packet or has data in a second TD. -/
  whole : ∀ p ∈ ps, ∀ e, s.entry p = some e → e.Completed → e.DeliversReceived

end OhcDev

end Quark.Ohci
