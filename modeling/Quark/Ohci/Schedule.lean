import Quark.Ohci.MemPool
import Quark.Ohci.HouseKeeper

/-!
# OHCI: descriptors, registers and the lists of the controller

`OhciUrb.c`, with what the transfers use of `OhciReg.c` and `OhciSched.c`. The DMA memory of the driver
is read as transfer descriptors or as endpoint descriptors, by the pointer that is used; a descriptor
that is given back to the pool keeps its contents.

The controller works on the lists while the driver waits. What it leaves in the fields it owns is told
by the platform, at each of the times the driver looks.
-/

namespace Quark.Ohci.Transfer

open Machine

/-! ## Descriptors -/

structure TdDescriptor where
  reserved : Nat
  bufferRounding : Nat
  dirPID : Nat
  delayInterrupt : Nat
  dataToggle : Nat
  errorCount : Nat
  conditionCode : Nat
  currBufferPointer : Nat
  nextTD : Nat
  bufferEndPointer : Nat
  nextTDPointer : Nat
  dataBuffer : Nat
  actualSendLength : Nat
  deriving DecidableEq, Repr

structure EdDescriptor where
  functionAddress : Nat
  endPointNum : Nat
  direction : Nat
  speed : Nat
  skip : Nat
  format : Nat
  maxPacketSize : Nat
  freeSpace : Nat
  tdTailPointer : Nat
  halted : Nat
  toggleCarry : Nat
  zero : Nat
  tdHeadPointer : Nat
  nextED : Nat
  deriving DecidableEq, Repr

abbrev sizeofTd : Nat := 32
abbrev sizeofEd : Nat := 16
abbrev sizeofUsbDeviceRequest : Nat := 8
abbrev maxBytesPerTd : Nat := 0x1000

/-- The fields of a TD, as `TD_PDATA` and the other masks name them. -/
inductive TdField where
  | pdata
  | bufferRound
  | dirPid
  | delayInt
  | dtToggle
  | errorCnt
  | condCode
  | currBufferPtr
  | nextPtr
  | bufferEndPtr
  deriving DecidableEq, Repr

/-- The fields of an ED, as `ED_FUNC_ADD` and the other masks name them. -/
inductive EdField where
  | funcAdd
  | endptNum
  | dir
  | speed
  | skip
  | format
  | maxPacket
  | pdata
  | zero
  | tdtailPtr
  | halted
  | dttoggle
  | tdheadPtr
  | nextEdptr
  deriving DecidableEq, Repr

/-- `OhciSetTDField`, for one field. The toggle is told to be the TD's own by `| 0x2`. -/
def ohciSetTDField (field : TdField) (value : Nat) (td : TdDescriptor) : TdDescriptor :=
  match field with
  | .pdata => { td with reserved := value % 2 ^ 18 }
  | .bufferRound => { td with bufferRounding := value % 2 }
  | .dirPid => { td with dirPID := value % 4 }
  | .delayInt => { td with delayInterrupt := value % 8 }
  | .dtToggle => { td with dataToggle := (value ||| 0x2) % 4 }
  | .errorCnt => { td with errorCount := value % 4 }
  | .condCode => { td with conditionCode := value % 16 }
  | .currBufferPtr => { td with currBufferPointer := u32 value }
  | .nextPtr => { td with nextTD := u32 value }
  | .bufferEndPtr => { td with bufferEndPointer := u32 value }

/-- `OhciSetEDField`, for one field. -/
def ohciSetEDField (field : EdField) (value : Nat) (ed : EdDescriptor) : EdDescriptor :=
  match field with
  | .funcAdd => { ed with functionAddress := value % 2 ^ 7 }
  | .endptNum => { ed with endPointNum := value % 2 ^ 4 }
  | .dir => { ed with direction := value % 4 }
  | .speed => { ed with speed := value % 2 }
  | .skip => { ed with skip := value % 2 }
  | .format => { ed with format := value % 2 }
  | .maxPacket => { ed with maxPacketSize := value % 2 ^ 11 }
  | .pdata => { ed with freeSpace := value % 2 ^ 5 }
  | .zero => { ed with zero := value % 4 }
  | .tdtailPtr => { ed with tdTailPointer := u32 value }
  | .halted => { ed with halted := value % 2 }
  | .dttoggle => { ed with toggleCarry := value % 2 }
  | .tdheadPtr => { ed with tdHeadPointer := u32 value / 16 }
  | .nextEdptr => { ed with nextED := u32 value }

/-- What `ZeroMem` makes of a TD. -/
def zeroTd : TdDescriptor := ⟨0, 0, 0, 0, 0, 0, 0, 0, 0, 0, 0, 0, 0⟩

/-- What `ZeroMem` makes of an ED. -/
def zeroEd : EdDescriptor := ⟨0, 0, 0, 0, 0, 0, 0, 0, 0, 0, 0, 0, 0, 0⟩

abbrev edFromTdDir : Nat := 0
abbrev edOutDir : Nat := 1
abbrev edInDir : Nat := 2
abbrev tdSetupPid : Nat := 0
abbrev tdOutPid : Nat := 1
abbrev tdInPid : Nat := 2
abbrev tdNoDelay : Nat := 7
abbrev hiSpeed : Nat := 0

/-! ## The device -/

/-- What the controller finds when a list-filled bit is set: the head of the list and the memory. -/
structure Schedule where
  head : Nat
  ed : Nat → EdDescriptor
  td : Nat → TdDescriptor

/-- `INTERRUPT_CONTEXT_ENTRY`, but for the fields that only the callback and the timer use. -/
structure InterruptContextEntry where
  deviceAddress : Nat
  endPointAddress : Nat
  ed : Nat
  dataTd : Nat
  uCBuffer : Nat
  uCBufferMapping : Nat
  nextEntry : Nat
  deriving DecidableEq, Repr

/-- `USB_OHCI_HC_DEV` with the registers and the memory behind it. `mappings` are the mappings that
`PciIo->Map` has made and `poolMemory` the buffers that `AllocatePool` has handed out, both without what
has been given back. `rung` is what the controller has been given to work on, the last first. -/
structure HcDev where
  memPool : MemPool
  td : Nat → TdDescriptor
  ed : Nat → EdDescriptor
  controlHead : Nat
  bulkHead : Nat
  periodicEnable : Bool
  controlEnable : Bool
  bulkEnable : Bool
  listFilled : Bool
  mappings : List Nat
  poolMemory : List Nat
  entry : Nat → Option InterruptContextEntry
  interruptContextList : Nat
  hccaInterruptTable : Nat → Nat
  intervalList : Nat → Nat → Nat
  rung : List Schedule

/-! ## The platform -/

/-- The register writes whose outcome a transfer meets. -/
inductive RegisterWrite where
  | disableList
  | clearFilled
  | clearHead
  | attachHead
  | enableList
  | setFilled
  | detachHead
  deriving DecidableEq, Repr

/-- What `PciIo->Map` answers. `mapping` is `0` if there is nothing to unmap later. -/
structure Mapped where
  phyAddr : Nat
  length : Nat
  mapping : Nat
  deriving DecidableEq, Repr

inductive PciIoOperation where
  | busMasterRead
  | busMasterWrite
  deriving DecidableEq, Repr

structure TdByController where
  dataToggle : Nat
  errorCount : Nat
  conditionCode : Nat
  currBufferPointer : Nat
  nextTD : Nat
  deriving DecidableEq, Repr

structure EdByController where
  halted : Nat
  toggleCarry : Nat
  tdHeadPointer : Nat
  deriving DecidableEq, Repr

/-- What the driver finds when it looks: the descriptors as the controller has left them, and whether
the list-filled bit is still set. -/
structure Look where
  td : Nat → TdByController
  ed : Nat → EdByController
  listFilled : Bool

/-- What the platform does during one transfer: whether a register write succeeds, what
`PciIo->AllocateBuffer` comes to when the pool needs a block for the descriptor with the given number,
what `PciIo->Map` makes of the request and of the data, what `AllocatePool` returns, and what the
controller has done when the driver looks for the `n`-th time. -/
structure Platform where
  write : RegisterWrite → Bool
  buffer : Nat → Option Nat
  mapRequest : PciIoOperation → Nat → Nat → Except EfiStatus Mapped
  mapData : PciIoOperation → Nat → Nat → Except EfiStatus Mapped
  pool : Nat → Nat
  look : Nat → Look

/-! ## Memory -/

def modifyTd (td : Nat) (f : TdDescriptor → TdDescriptor) : Exec HcDev Unit :=
  .modify fun s => { s with td := Function.update s.td td (f (s.td td)) }

def modifyEd (ed : Nat) (f : EdDescriptor → EdDescriptor) : Exec HcDev Unit :=
  .modify fun s => { s with ed := Function.update s.ed ed (f (s.ed ed)) }

/-- `OhciCreateTD`. The answer `0` is `NULL`. -/
def ohciCreateTD (asserts : Bool) (buffer : Option Nat) : Exec HcDev Nat := do
  let s ← .get
  let (mem, memPool) ← usbHcAllocateMem asserts s.memPool sizeofTd buffer
  match mem with
  | none => do
    .modify fun s => { s with memPool }
    pure 0
  | some td => do
    .modify fun s => { s with
      memPool
      td := Function.update s.td td zeroTd }
    pure td

/-- `OhciCreateED`. The answer `0` is `NULL`. -/
def ohciCreateED (asserts : Bool) (buffer : Option Nat) : Exec HcDev Nat := do
  let s ← .get
  let (mem, memPool) ← usbHcAllocateMem asserts s.memPool sizeofEd buffer
  match mem with
  | none => do
    .modify fun s => { s with memPool }
    pure 0
  | some ed => do
    .modify fun s => { s with
      memPool
      ed := Function.update s.ed ed (ohciSetEDField .skip 1 zeroEd) }
    pure ed

/-- `UsbHcFreeMem (Ohc->MemPool, …)`. -/
def freeMem (asserts : Bool) (mem size : Nat) : Exec HcDev Unit := do
  let s ← .get
  let memPool ← usbHcFreeMem asserts s.memPool mem size
  .modify fun s => { s with memPool }

/-- `if (Mapping != NULL) PciIo->Unmap (Mapping)`. -/
def unmap (mapping : Nat) : Exec HcDev Unit :=
  .when (mapping ≠ 0) (.modify fun s => { s with mappings := s.mappings.erase mapping })

/-- `PciIo->Map`, given its answer. -/
def map (answer : Except EfiStatus Mapped) : Exec HcDev (Except EfiStatus Mapped) :=
  match answer with
  | .error status => pure (.error status)
  | .ok m => do
    .when (m.mapping ≠ 0) (.modify fun s => { s with mappings := m.mapping :: s.mappings })
    pure (.ok m)

/-! ## Lists -/

/-- A walk that follows the links of distinct descriptors in 32-bit memory is over by then. -/
def walkLimit : Nat := 0x100000000

/-- The walk of `OhciLinkTD` to the last TD. -/
def lastTdBody (tempTd : Nat) : Exec HcDev (Nat ⊕ Nat) := do
  let s ← .get
  if (s.td tempTd).nextTD ≠ 0 then pure (.inl (s.td tempTd).nextTD) else pure (.inr tempTd)

def ohciLinkTD (td1 td2 : Nat) : Exec HcDev Unit :=
  if td1 = 0 then pure ()
  else if td1 = td2 then pure ()
  else do
    let tempTd ← .loop walkLimit lastTdBody td1
    modifyTd tempTd fun td => { td with
      nextTD := td2
      nextTDPointer := td2 }

def ohciAttachTDListToED (ed headTd : Nat) : Exec HcDev Unit := do
  let s ← .get
  let tempTd := u32 ((s.ed ed).tdHeadPointer * 16)
  if tempTd ≠ 0 then do
    let tempTd ← .loop walkLimit lastTdBody tempTd
    modifyTd tempTd fun td => { td with
      nextTD := headTd
      nextTDPointer := headTd }
  else modifyEd ed (ohciSetEDField .tdheadPtr headTd)

def ohciAttachED (ed newEd : Nat) : Exec HcDev Unit :=
  if ed = 0 then pure ()
  else do
    let s ← .get
    let temp := (s.ed ed).nextED
    modifyEd ed fun e => { e with nextED := newEd }
    .when (temp ≠ 0) (modifyEd newEd fun e => { e with nextED := temp })

/-- The lists that a register holds the head of. -/
inductive ListType where
  | controlList
  | bulkList
  deriving DecidableEq, Repr

/-- `OhciGetMemoryPointer` of `HC_CONTROL_HEAD` or `HC_BULK_HEAD`. -/
def HcDev.head (s : HcDev) : ListType → Nat
  | .controlList => s.controlHead
  | .bulkList => s.bulkHead

/-- `OhciSetMemoryPointer` of `HC_CONTROL_HEAD` or `HC_BULK_HEAD`; none of the callers looks at the
status. -/
def ohciSetMemoryPointer (ok : Bool) (list : ListType) (value : Nat) : Exec HcDev Unit :=
  .when (ok = true) (.modify fun s => match list with
    | .controlList => { s with controlHead := value }
    | .bulkList => { s with bulkHead := value })

/-- `OhciAttachEDToList` for the control list and the bulk list. It returns the head of the list. -/
def ohciAttachEDToList (ok : Bool) (list : ListType) (ed : Nat) : Exec HcDev Nat := do
  let s ← .get
  let headEd := s.head list
  if headEd = 0 then do
    ohciSetMemoryPointer ok list ed
    pure ed
  else do
    ohciAttachED headEd ed
    pure headEd

def writeStatus (ok : Bool) : EfiStatus := if ok then .success else .deviceError

/-- `OhciSetHcControl` of `CONTROL_ENABLE` or `BULK_ENABLE`. -/
def ohciSetHcControl (ok : Bool) (list : ListType) (value : Bool) : Exec HcDev EfiStatus := do
  .when (ok = true) (.modify fun s => match list with
    | .controlList => { s with controlEnable := value }
    | .bulkList => { s with bulkEnable := value })
  pure (writeStatus ok)

/-- `OhciSetHcCommandStatus` of `CONTROL_LIST_FILLED` or `BULK_LIST_FILLED`. Writing a one gives the list
to the controller. -/
def ohciSetHcCommandStatus (ok : Bool) (list : ListType) (value : Bool) : Exec HcDev EfiStatus := do
  .when (ok = true ∧ value = true) (.modify fun s => { s with
    listFilled := true
    rung := ⟨s.head list, s.ed, s.td⟩ :: s.rung })
  pure (writeStatus ok)

/-! ## Looking at the results -/

def Look.at (look : Look) (s : HcDev) : HcDev := { s with
  listFilled := look.listFilled
  td := fun a => { s.td a with
    dataToggle := (look.td a).dataToggle
    errorCount := (look.td a).errorCount
    conditionCode := (look.td a).conditionCode
    currBufferPointer := (look.td a).currBufferPointer
    nextTD := (look.td a).nextTD }
  ed := fun a => { s.ed a with
    halted := (look.ed a).halted
    toggleCarry := (look.ed a).toggleCarry
    tdHeadPointer := (look.ed a).tdHeadPointer } }

structure EdResult where
  errorCode : Nat
  nextToggle : Nat
  deriving DecidableEq, Repr

/-- One TD of `CheckEDStatus`; the locals are `HeadTd` and `EdResult->NextToggle`. -/
def checkEdStatusBody (ed : Nat) (l : Nat × Nat) : Exec HcDev (Nat × Nat ⊕ EdResult) := do
  let (headTd, nextToggle) := l
  let s ← .get
  if headTd ≠ 0 then
    if (s.td headTd).nextTDPointer = 0 then pure (.inr ⟨tdNoError, nextToggle⟩)
    else if (s.td headTd).conditionCode ≠ 0 then
      pure (.inr ⟨(s.td headTd).conditionCode, nextToggle⟩)
    else pure (.inl ((s.td headTd).nextTDPointer, ((s.td headTd).dataToggle &&& 1) ^^^ 1))
  else if u32 ((s.ed ed).tdHeadPointer * 16) ≠ (s.ed ed).tdTailPointer then
    pure (.inr ⟨tdTobeProcessed, nextToggle⟩)
  else pure (.inr ⟨tdNoError, nextToggle⟩)

def checkEdStatus (ed headTd nextToggle : Nat) : Exec HcDev EdResult :=
  .loop walkLimit (checkEdStatusBody ed) (headTd, nextToggle)

/-- `CheckIfDone`, for a list whose list-filled bit it looks at first if `byRegister`. -/
def checkIfDone (look : Look) (byRegister : Bool) (ed headTd nextToggle : Nat) :
    Exec HcDev (EfiStatus × EdResult) := do
  .modify look.at
  let s ← .get
  if byRegister = true ∧ s.listFilled = true then pure (.notReady, ⟨tdTobeProcessed, nextToggle⟩)
  else do
    let result ← checkEdStatus ed headTd nextToggle
    if result.errorCode = tdNoError then pure (.success, result)
    else if result.errorCode = tdTobeProcessed then pure (.notReady, result)
    else pure (.deviceError, result)

/-! ## Building the data stage -/

structure DataStage where
  dataPidDir : Nat
  maxPacketLength : Nat

/-- The locals of a data stage. `index` counts the descriptors that have been asked for. -/
structure DataLocals where
  headTd : Nat
  leftLength : Nat
  mapPhyAddr : Nat
  dataToggle : Nat
  index : Nat
  deriving DecidableEq, Repr

def dataTdFields (dataPidDir dataToggle mapPhyAddr actualSendLength : Nat) (td : TdDescriptor) :
    TdDescriptor :=
  { (td |> ohciSetTDField .pdata 0
      |> ohciSetTDField .bufferRound 1
      |> ohciSetTDField .dirPid dataPidDir
      |> ohciSetTDField .delayInt tdNoDelay
      |> ohciSetTDField .dtToggle dataToggle
      |> ohciSetTDField .errorCnt 0
      |> ohciSetTDField .condCode tdTobeProcessed
      |> ohciSetTDField .currBufferPtr mapPhyAddr
      |> ohciSetTDField .bufferEndPtr (mapPhyAddr + actualSendLength - 1)
      |> ohciSetTDField .nextPtr 0) with
    actualSendLength := u32 actualSendLength
    dataBuffer := u32 mapPhyAddr
    nextTDPointer := 0 }

/-- One pass of the loop of a data stage. The bulk and the interrupt transfer keep a flag for the first
TD, which is set exactly while `HeadTd` is `NULL`; the control transfer has its setup TD there. -/
def dataStageBody (asserts : Bool) (buffer : Nat → Option Nat) (p : DataStage) (l : DataLocals) :
    Exec HcDev (DataLocals ⊕ EfiStatus × DataLocals) :=
  if 0 < l.leftLength then do
    let actualSendLength :=
      if p.maxPacketLength < l.leftLength then p.maxPacketLength else l.leftLength
    let dataTd ← ohciCreateTD asserts (buffer l.index)
    if dataTd = 0 then pure (.inr (.outOfResources, l))
    else do
      modifyTd dataTd (dataTdFields p.dataPidDir l.dataToggle l.mapPhyAddr actualSendLength)
      .when (l.headTd ≠ 0) (ohciLinkTD l.headTd dataTd)
      pure (.inl {
        headTd := if l.headTd = 0 then dataTd else l.headTd
        leftLength := l.leftLength - actualSendLength
        mapPhyAddr := l.mapPhyAddr + actualSendLength
        dataToggle := l.dataToggle ^^^ 1
        index := l.index + 1 })
  else pure (.inr (.success, l))

def emptyTdFields (td : TdDescriptor) : TdDescriptor :=
  { (td |> ohciSetTDField .pdata 0
      |> ohciSetTDField .bufferRound 0
      |> ohciSetTDField .dirPid 0
      |> ohciSetTDField .delayInt 0
      |> ohciSetTDField .errorCnt 0
      |> ohciSetTDField .condCode 0
      |> ohciSetTDField .currBufferPtr 0
      |> ohciSetTDField .bufferEndPtr 0
      |> ohciSetTDField .nextPtr 0) with
    dataToggle := 0
    actualSendLength := 0
    dataBuffer := 0
    nextTDPointer := 0 }

/-- The empty stage: the TD that the tail pointer of the ED names, and the list on the ED. -/
def emptyStage (asserts : Bool) (buffer : Option Nat) (ed headTd : Nat) : Exec HcDev EfiStatus := do
  let emptyTd ← ohciCreateTD asserts buffer
  if emptyTd = 0 then pure .outOfResources
  else do
    modifyTd emptyTd emptyTdFields
    ohciLinkTD headTd emptyTd
    modifyEd ed fun e => { e with tdTailPointer := emptyTd }
    ohciAttachTDListToED ed headTd
    pure .success

def freeTdBody (asserts : Bool) (headTd : Nat) : Exec HcDev (Nat ⊕ Unit) := do
  if headTd ≠ 0 then do
    let s ← .get
    let next := (s.td headTd).nextTDPointer
    freeMem asserts headTd sizeofTd
    pure (.inl next)
  else pure (.inr ())

def freeTds (asserts : Bool) (headTd : Nat) : Exec HcDev Unit :=
  .loop walkLimit (freeTdBody asserts) headTd

/-! ## Waiting -/

structure WaitLocals where
  timeCount : Nat
  status : EfiStatus
  edResult : EdResult

def waitBody (look : Nat → Look) (byRegister : Bool) (ed headTd timeOut : Nat) (l : WaitLocals) :
    Exec HcDev (WaitLocals ⊕ WaitLocals) :=
  if l.status = .notReady ∧ l.timeCount ≤ timeOut then do
    let (status, edResult) ←
      checkIfDone (look (l.timeCount + 1)) byRegister ed headTd l.edResult.nextToggle
    pure (.inl ⟨l.timeCount + 1, status, edResult⟩)
  else pure (.inr l)

/-- Wait for the controller until it is done or `TimeOut` is over. -/
def waitIfDone (look : Nat → Look) (byRegister : Bool) (ed headTd nextToggle timeOut : Nat) :
    Exec HcDev WaitLocals := do
  let (status, edResult) ← checkIfDone (look 0) byRegister ed headTd nextToggle
  .loop (timeOut + 2) (waitBody look byRegister ed headTd timeOut) ⟨0, status, edResult⟩

/-- `HeadEd->NextED = Ed->NextED` or a `NULL` head: the ED leaves its list. -/
def detachED (ok : Bool) (list : ListType) (headEd ed : Nat) : Exec HcDev Unit := do
  modifyEd ed (ohciSetEDField .skip 1)
  if headEd = ed then ohciSetMemoryPointer ok list 0
  else do
    let s ← .get
    let next := (s.ed ed).nextED
    modifyEd headEd fun e => { e with nextED := next }

end Quark.Ohci.Transfer
