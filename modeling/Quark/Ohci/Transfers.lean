import Quark.Ohci.Schedule

/-!
# OHCI: control and bulk transfers

`OhciControlTransfer` and `OhciBulkTransfer`. Each takes an endpoint descriptor, the mappings and the
transfer descriptors one after the other, waits, and gives them back through a chain of labels, each of
which falls into the next one.
-/

namespace Quark.Ohci.Transfer

open Machine

/-! ## Requests -/

inductive UsbDataDirection where
  | dataIn
  | dataOut
  | noData
  /-- A value outside of the enumeration. -/
  | other
  deriving DecidableEq, Repr

/-- The parameters of `OhciControlTransfer`. A pointer to a buffer is its address, with `0` for `NULL`;
a pointer to a variable is its value, if it is not `NULL`. -/
structure ControlRequest where
  deviceAddress : Nat
  isSlowDevice : Bool
  maxPacketLength : Nat
  request : Nat
  transferDirection : UsbDataDirection
  data : Nat
  dataLength : Option Nat
  timeOut : Nat
  transferResult : Option Nat
  deriving DecidableEq, Repr

/-- What a transfer leaves behind: its status and the variables it was given. -/
structure TransferResult where
  status : EfiStatus
  dataLength : Option Nat
  dataToggle : Option Nat
  transferResult : Option Nat
  deriving DecidableEq, Repr

/-- `MaxPacketLength` is one that an endpoint may have. -/
def packetLengthAllowed (maxPacketLength : Nat) : Bool :=
  maxPacketLength = 8 ∨ maxPacketLength = 16 ∨ maxPacketLength = 32 ∨ maxPacketLength = 64

/-- The parameter check of `OhciControlTransfer`, with the check of the length that follows it. -/
def ControlRequest.invalid (p : ControlRequest) : Bool :=
  match p.dataLength with
  | none => true
  | some dataLength =>
    p.transferDirection = .other ∨ p.request = 0 ∨ p.transferResult = none ∨
      (p.transferDirection = .noData ∧ (dataLength ≠ 0 ∨ p.data ≠ 0)) ∨
      (p.transferDirection ≠ .noData ∧ (dataLength = 0 ∨ p.data = 0)) ∨
      (p.isSlowDevice = true ∧ p.maxPacketLength ≠ 8) ∨
      ¬ packetLengthAllowed p.maxPacketLength = true ∨
      maxBytesPerTd < dataLength

def transferEdFields (deviceAddress endPointNum speed maxPacketLength : Nat) (ed : EdDescriptor) :
    EdDescriptor :=
  ed |> ohciSetEDField .skip 1
    |> ohciSetEDField .funcAdd deviceAddress
    |> ohciSetEDField .endptNum endPointNum
    |> ohciSetEDField .dir edFromTdDir
    |> ohciSetEDField .speed speed
    |> ohciSetEDField .format 0
    |> ohciSetEDField .halted 0
    |> ohciSetEDField .dttoggle 0
    |> ohciSetEDField .maxPacket maxPacketLength
    |> ohciSetEDField .pdata 0
    |> ohciSetEDField .zero 0
    |> ohciSetEDField .tdheadPtr 0
    |> ohciSetEDField .tdtailPtr 0
    |> ohciSetEDField .nextEdptr 0

/-! ## The way out -/

structure Held where
  list : ListType
  headEd : Nat
  ed : Nat
  headTd : Nat
  reqMapping : Nat
  dataMapping : Nat

def freeEdBuff (asserts : Bool) (h : Held) : Exec HcDev Unit := freeMem asserts h.ed sizeofEd

def unmapSetupBuff (asserts : Bool) (h : Held) : Exec HcDev Unit := do
  unmap h.reqMapping
  freeEdBuff asserts h

def freeTdBuff (asserts : Bool) (h : Held) : Exec HcDev Unit := do
  freeTds asserts h.headTd
  unmapSetupBuff asserts h

def unmapDataBuff (asserts : Bool) (pf : Platform) (h : Held) : Exec HcDev Unit := do
  detachED (pf.write .detachHead) h.list h.headEd h.ed
  unmap h.dataMapping
  freeTdBuff asserts h

/-- `FREE_OHCI_TDBUFF` of the bulk transfer, which unmaps after the TDs are freed. -/
def freeOhciTdBuff (asserts : Bool) (pf : Platform) (h : Held) : Exec HcDev Unit := do
  detachED (pf.write .detachHead) h.list h.headEd h.ed
  freeTds asserts h.headTd
  unmap h.dataMapping
  freeEdBuff asserts h

/-! ## Control transfers -/

def setupTdFields (reqMapPhyAddr : Nat) (td : TdDescriptor) : TdDescriptor :=
  { (td |> ohciSetTDField .pdata 0
      |> ohciSetTDField .bufferRound 1
      |> ohciSetTDField .dirPid tdSetupPid
      |> ohciSetTDField .delayInt tdNoDelay
      |> ohciSetTDField .dtToggle 2
      |> ohciSetTDField .errorCnt 0
      |> ohciSetTDField .condCode tdTobeProcessed
      |> ohciSetTDField .currBufferPtr reqMapPhyAddr
      |> ohciSetTDField .nextPtr 0
      |> ohciSetTDField .bufferEndPtr (reqMapPhyAddr + sizeofUsbDeviceRequest - 1)) with
    actualSendLength := sizeofUsbDeviceRequest
    dataBuffer := u32 reqMapPhyAddr
    nextTDPointer := 0 }

def statusTdFields (statusPidDir : Nat) (td : TdDescriptor) : TdDescriptor :=
  { (td |> ohciSetTDField .pdata 0
      |> ohciSetTDField .bufferRound 1
      |> ohciSetTDField .dirPid statusPidDir
      |> ohciSetTDField .delayInt 7
      |> ohciSetTDField .dtToggle 3
      |> ohciSetTDField .errorCnt 0
      |> ohciSetTDField .condCode tdTobeProcessed
      |> ohciSetTDField .currBufferPtr 0
      |> ohciSetTDField .nextPtr 0
      |> ohciSetTDField .bufferEndPtr 0) with
    actualSendLength := 0
    dataBuffer := 0
    nextTDPointer := 0 }

def statusStage (asserts : Bool) (buffer : Option Nat) (statusPidDir headTd : Nat) :
    Exec HcDev EfiStatus := do
  let statusTd ← ohciCreateTD asserts buffer
  if statusTd = 0 then pure .outOfResources
  else do
    modifyTd statusTd (statusTdFields statusPidDir)
    ohciLinkTD headTd statusTd
    pure .success

def controlStages (asserts : Bool) (pf : Platform) (p : ControlRequest) (ed headTd : Nat)
    (mapped : Mapped) : Exec HcDev EfiStatus := do
  let dataPidDir := if p.transferDirection = .dataIn then tdInPid else tdOutPid
  let statusPidDir := if p.transferDirection = .dataIn then tdOutPid else tdInPid
  let (status, l) ← .loop (mapped.length + 1)
    (dataStageBody asserts pf.buffer ⟨dataPidDir, p.maxPacketLength⟩)
    ⟨headTd, mapped.length, mapped.phyAddr, 1, 2⟩
  if status.isError then pure status
  else do
    let status ← statusStage asserts (pf.buffer l.index) statusPidDir headTd
    if status.isError then pure status
    else emptyStage asserts (pf.buffer (l.index + 1)) ed headTd

/-- The transfer itself: the controller is given the list, and the driver waits for it. -/
def controlSubmit (pf : Platform) (p : ControlRequest) (ed headTd : Nat) :
    Exec HcDev TransferResult := do
  modifyEd ed (ohciSetEDField .skip 0)
  let status ← ohciSetHcControl (pf.write .enableList) .controlList true
  if status.isError then
    pure ⟨.deviceError, p.dataLength, none, some efiUsbErrSystem⟩
  else do
    let status ← ohciSetHcCommandStatus (pf.write .setFilled) .controlList true
    if status.isError then
      pure ⟨.deviceError, p.dataLength, none, some efiUsbErrSystem⟩
    else do
      let l ← waitIfDone pf.look true ed headTd 0 p.timeOut
      pure {
        status := l.status
        dataLength := if l.edResult.errorCode ≠ tdNoError then some 0 else p.dataLength
        dataToggle := none
        transferResult := some (convertErrorCode l.edResult.errorCode) }

def ControlRequest.failed (p : ControlRequest) (status : EfiStatus) : TransferResult :=
  ⟨status, p.dataLength, none, p.transferResult⟩

def mapControlData (pf : Platform) (p : ControlRequest) : Exec HcDev (Except EfiStatus Mapped) :=
  let op : PciIoOperation :=
    if p.transferDirection = .dataIn then .busMasterWrite else .busMasterRead
  let dataLength := p.dataLength.getD 0
  if p.data ≠ 0 ∧ dataLength ≠ 0 then map (pf.mapData op p.data dataLength)
  else pure (.ok ⟨0, dataLength, 0⟩)

def controlData (asserts : Bool) (pf : Platform) (p : ControlRequest) (h : Held) :
    Exec HcDev TransferResult := do
  let mapped ← mapControlData pf p
  match mapped with
  | .error status => do
    freeTdBuff asserts h
    pure (p.failed status)
  | .ok mapped => do
    let h := { h with dataMapping := mapped.mapping }
    let status ← controlStages asserts pf p h.ed h.headTd mapped
    let result ← if status.isError then pure (p.failed status)
      else controlSubmit pf p h.ed h.headTd
    unmapDataBuff asserts pf h
    pure result

def controlSetup (asserts : Bool) (pf : Platform) (p : ControlRequest) (h : Held) :
    Exec HcDev TransferResult := do
  let mapped ← map (pf.mapRequest .busMasterRead p.request sizeofUsbDeviceRequest)
  match mapped with
  | .error status => do
    freeEdBuff asserts h
    pure (p.failed status)
  | .ok mapped => do
    let h := { h with reqMapping := mapped.mapping }
    let setupTd ← ohciCreateTD asserts (pf.buffer 1)
    if setupTd = 0 then do
      unmapSetupBuff asserts h
      pure (p.failed .outOfResources)
    else do
      modifyTd setupTd (setupTdFields mapped.phyAddr)
      controlData asserts pf p { h with headTd := setupTd }

def ohciControlTransfer (asserts : Bool) (pf : Platform) (p : ControlRequest) :
    Exec HcDev TransferResult :=
  if p.invalid then pure (p.failed .invalidParameter)
  else do
    let status ← ohciSetHcControl (pf.write .disableList) .controlList false
    if status.isError then pure ⟨.deviceError, p.dataLength, none, some efiUsbErrSystem⟩
    else do
      let status ← ohciSetHcCommandStatus (pf.write .clearFilled) .controlList false
      if status.isError then pure ⟨.deviceError, p.dataLength, none, some efiUsbErrSystem⟩
      else do
        ohciSetMemoryPointer (pf.write .clearHead) .controlList 0
        let ed ← ohciCreateED asserts (pf.buffer 0)
        if ed = 0 then pure (p.failed .outOfResources)
        else do
          modifyEd ed (transferEdFields p.deviceAddress 0 (if p.isSlowDevice then 1 else 0)
            p.maxPacketLength)
          let headEd ← ohciAttachEDToList (pf.write .attachHead) .controlList ed
          controlSetup asserts pf p ⟨.controlList, headEd, ed, 0, 0, 0⟩

/-! ## Bulk transfers -/

/-- The parameters of `OhciBulkTransfer`. -/
structure BulkRequest where
  deviceAddress : Nat
  endPointAddress : Nat
  maxPacketLength : Nat
  data : Nat
  dataLength : Option Nat
  dataToggle : Option Nat
  timeOut : Nat
  transferResult : Option Nat
  deriving DecidableEq, Repr

/-- The parameter check of `OhciBulkTransfer`. -/
def BulkRequest.invalid (p : BulkRequest) : Bool :=
  match p.dataLength, p.dataToggle with
  | some dataLength, some dataToggle =>
    p.data = 0 ∨ p.transferResult = none ∨ dataLength = 0 ∨ (dataToggle ≠ 0 ∧ dataToggle ≠ 1) ∨
      ¬ packetLengthAllowed p.maxPacketLength = true
  | _, _ => true

def endPointIn (endPointAddress : Nat) : Bool := endPointAddress &&& 0x80 ≠ 0

/-- The answer of a transfer that has left the variables of the caller alone but for the toggle. -/
def BulkRequest.failed (p : BulkRequest) (status : EfiStatus) (dataToggle : Nat) : TransferResult :=
  ⟨status, p.dataLength, some dataToggle, p.transferResult⟩

/-- The controller is given the list, and the driver waits for it. `dataToggle` is what building the TDs
has made of `*DataToggle`. -/
def bulkSubmit (pf : Platform) (p : BulkRequest) (ed headTd firstToggle dataToggle : Nat) :
    Exec HcDev TransferResult := do
  modifyEd ed (ohciSetEDField .skip 0)
  let status ← ohciSetHcCommandStatus (pf.write .setFilled) .bulkList true
  if status.isError then
    pure ⟨.deviceError, p.dataLength, some dataToggle, some efiUsbErrSystem⟩
  else do
    let status ← ohciSetHcControl (pf.write .enableList) .bulkList true
    if status.isError then
      pure ⟨.deviceError, p.dataLength, some dataToggle, some efiUsbErrSystem⟩
    else do
      let l ← waitIfDone pf.look true ed headTd firstToggle p.timeOut
      pure {
        status := l.status
        dataLength := if l.edResult.errorCode ≠ tdNoError then some 0 else p.dataLength
        dataToggle := if l.edResult.errorCode ≠ tdNoError ∧ l.edResult.errorCode ≠ tdTobeProcessed
          then some l.edResult.nextToggle else some dataToggle
        transferResult := some (convertErrorCode l.edResult.errorCode) }

def bulkData (asserts : Bool) (pf : Platform) (p : BulkRequest) (firstToggle : Nat) (h : Held) :
    Exec HcDev TransferResult := do
  let op : PciIoOperation :=
    if endPointIn p.endPointAddress then .busMasterWrite else .busMasterRead
  let mapped ← map (pf.mapData op p.data (p.dataLength.getD 0))
  match mapped with
  | .error status => do
    freeEdBuff asserts h
    pure (p.failed status firstToggle)
  | .ok mapped => do
    let dataPidDir := if endPointIn p.endPointAddress then tdInPid else tdOutPid
    let (status, l) ← .loop (mapped.length + 1)
      (dataStageBody asserts pf.buffer ⟨dataPidDir, p.maxPacketLength⟩)
      ⟨0, mapped.length, mapped.phyAddr, firstToggle, 1⟩
    let h := { h with
      headTd := l.headTd
      dataMapping := mapped.mapping }
    let status ← if status.isError then pure status
      else emptyStage asserts (pf.buffer l.index) h.ed h.headTd
    let result ← if status.isError then pure (p.failed status l.dataToggle)
      else bulkSubmit pf p h.ed h.headTd firstToggle l.dataToggle
    freeOhciTdBuff asserts pf h
    pure result

def ohciBulkTransfer (asserts : Bool) (pf : Platform) (p : BulkRequest) :
    Exec HcDev TransferResult :=
  if p.invalid then pure ⟨.invalidParameter, p.dataLength, p.dataToggle, p.transferResult⟩
  else do
    let firstToggle := p.dataToggle.getD 0
    let status ← ohciSetHcControl (pf.write .disableList) .bulkList false
    if status.isError then
      pure ⟨.deviceError, p.dataLength, some firstToggle, some efiUsbErrSystem⟩
    else do
      let status ← ohciSetHcCommandStatus (pf.write .clearFilled) .bulkList false
      if status.isError then
        pure ⟨.deviceError, p.dataLength, some firstToggle, some efiUsbErrSystem⟩
      else do
        ohciSetMemoryPointer (pf.write .clearHead) .bulkList 0
        let ed ← ohciCreateED asserts (pf.buffer 0)
        if ed = 0 then pure (p.failed .outOfResources firstToggle)
        else do
          modifyEd ed (transferEdFields p.deviceAddress (p.endPointAddress &&& 0xF) hiSpeed
            p.maxPacketLength)
          let headEd ← ohciAttachEDToList (pf.write .attachHead) .bulkList ed
          bulkData asserts pf p firstToggle ⟨.bulkList, headEd, ed, 0, 0, 0⟩

end Quark.Ohci.Transfer
