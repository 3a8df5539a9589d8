import Quark.Ohci.TransferSpec
import Quark.Ohci.Reset

/-!
# OHCI: interrupt transfers

What `OhciAsyncInterruptTransfer` and `OhciSyncInterruptTransfer` check, and the loop of `OhciInterruptTransfer`
that both come to. The two entry points do not check the same: only the synchronous one bounds the packet length,
and neither asks for a packet of at least a byte.
-/

namespace Quark.Ohci.Transfer

open Machine

/-- The parameters of `OhciAsyncInterruptTransfer` that it checks or passes on to the loop. -/
structure AsyncInterruptRequest where
  endPointAddress : Nat
  maxPacketLength : BitVec 8
  isNewTransfer : Bool
  dataToggle : Option Nat
  pollingInterval : Nat
  dataLength : Nat

/-- The parameters of `OhciSyncInterruptTransfer`. -/
structure SyncInterruptRequest where
  endPointAddress : Nat
  isSlowDevice : Bool
  maxPacketLength : BitVec 8
  data : Nat
  dataLength : Option Nat
  dataToggle : Option Nat
  transferResult : Option Nat

/-- The parameters of `OhciInterruptTransfer` that the loop depends on. -/
structure InterruptTransfer where
  endPointAddress : Nat
  maxPacketLength : BitVec 8
  isNewTransfer : Bool
  dataToggle : Nat
  ucBuffer : Nat
  dataLength : Nat

/-- The parameter check of `OhciAsyncInterruptTransfer`. -/
def AsyncInterruptRequest.invalid (r : AsyncInterruptRequest) : Bool :=
  match r.dataToggle with
  | none => true
  | some dataToggle =>
    endPointIn r.endPointAddress = false ∨ (r.isNewTransfer = true ∧ (r.dataLength = 0 ∨
      (dataToggle ≠ 0 ∧ dataToggle ≠ 1) ∨ r.pollingInterval < 1 ∨ 255 < r.pollingInterval))

/-- The parameter check of `OhciSyncInterruptTransfer`. -/
def SyncInterruptRequest.invalid (r : SyncInterruptRequest) : Bool :=
  match r.dataLength, r.dataToggle with
  | some dataLength, some dataToggle =>
    endPointIn r.endPointAddress = false ∨ r.data = 0 ∨ dataLength = 0 ∨
      (r.isSlowDevice = true ∧ 8 < r.maxPacketLength) ∨ (r.isSlowDevice = false ∧ 64 < r.maxPacketLength) ∨
      (dataToggle ≠ 0 ∧ dataToggle ≠ 1) ∨ r.transferResult = none
  | _, _ => true

/-- The call that `OhciAsyncInterruptTransfer` makes with the buffer it has allocated. -/
def AsyncInterruptRequest.transfer (r : AsyncInterruptRequest) (ucBuffer : Nat) : InterruptTransfer :=
  ⟨r.endPointAddress, r.maxPacketLength, r.isNewTransfer, r.dataToggle.getD 0, ucBuffer, r.dataLength⟩

/-- The first call that `OhciSyncInterruptTransfer` makes with the buffer it has allocated. -/
def SyncInterruptRequest.transfer (r : SyncInterruptRequest) (ucBuffer : Nat) : InterruptTransfer :=
  ⟨r.endPointAddress, r.maxPacketLength, true, r.dataToggle.getD 0, ucBuffer, r.dataLength.getD 0⟩

def InterruptTransfer.Accepted (p : InterruptTransfer) : Prop :=
  (∃ r : AsyncInterruptRequest, r.invalid = false ∧ p = r.transfer p.ucBuffer) ∨
    ∃ r : SyncInterruptRequest, r.invalid = false ∧ p = r.transfer p.ucBuffer

def InterruptTransfer.mapped (pf : Platform) (p : InterruptTransfer) : Option Mapped :=
  if maxBytesPerTd < p.dataLength then none
  else if p.isNewTransfer = false then none
  else
    match pf.mapData .busMasterWrite p.ucBuffer p.dataLength with
    | .error _ => none
    | .ok m => some m

def InterruptTransfer.stage (p : InterruptTransfer) : DataStage :=
  ⟨if endPointIn p.endPointAddress then tdInPid else tdOutPid, p.maxPacketLength.toNat⟩

/-- Where the loop starts. `index` counts the descriptors that have been created. -/
def InterruptTransfer.start (p : InterruptTransfer) (m : Mapped) (index : Nat) : DataLocals :=
  ⟨0, m.length, m.phyAddr, p.dataToggle, index⟩

/-- The loop comes to its end within as many passes as there are bytes. At each of its heads the TDs that have been
built cover what has been taken off the buffer, in order, without gap or overlap, and that is all of it when the
loop has not run out of memory. -/
structure TdsExact (asserts : Bool) (pf : Platform) (p : InterruptTransfer) (m : Mapped) (index : Nat)
    (t : HcDev) : Prop where
  ends : ∃ r t', Exec.loop (m.length + 1) (dataStageBody asserts pf.buffer p.stage) (p.start m index) t =
    .ret r t' ∧ (r.1 = .success → r.2.leftLength = 0) ∧
    Exec.Visits (dataStageBody asserts pf.buffer p.stage) (p.start m index, t) (r.2, t')
  covers : ∀ l t', Exec.Visits (dataStageBody asserts pf.buffer p.stage) (p.start m index, t) (l, t') →
    ∃ tds, TdList t'.td l.headTd tds ∧ l.leftLength ≤ m.length ∧
      CoversBuffer m.phyAddr (m.length - l.leftLength) p.maxPacketLength.toNat p.dataToggle (tds.map t'.td)

/-! ## OHCI: synchronous interrupt transfers

`OhciSyncInterruptTransfer` calls `OhciInterruptTransfer` twice: once to set the transfer up, and once, with
`IsNewTransfer` FALSE, to take it down again by its address.
-/

/-! ## The lists of interrupt EDs -/

/-- One step of `CountEdNum`; the locals are the ED and `Count`. -/
def countEdNumBody (l : Nat × Nat) : Exec HcDev (Nat × Nat ⊕ Nat) := do
  let s ← .get
  if l.1 ≠ 0 then pure (.inl ((s.ed l.1).nextED, l.2 + 1)) else pure (.inr l.2)

def countEdNum (ed : Nat) : Exec HcDev Nat := .loop walkLimit countEdNumBody (ed, 0)

/-- The search of `OhciFindMinInterruptEDList`; `index` counts down to `0`. -/
def findMinEdList (depth : Nat) (count minEdNum tempEd : Nat) : Nat → Exec HcDev Nat
  | 0 => pure tempEd
  | index + 1 => do
    let s ← .get
    let headEd := s.intervalList depth (count - (index + 1))
    let edNum ← countEdNum headEd
    if edNum < minEdNum then findMinEdList depth count edNum headEd index
    else findMinEdList depth count minEdNum tempEd index

def ohciFindMinInterruptEDList (asserts : Bool) (depth : Nat) : Exec HcDev Nat :=
  if 5 < depth then pure 0
  else do
    let tempEd ← findMinEdList depth (32 >>> depth) 0xFFFFFFFF 0 (32 >>> depth)
    assert asserts (tempEd ≠ 0)
    pure tempEd

/-- One step of `OhciFindWorkingEd`. -/
def findWorkingEdBody (deviceAddress endPointNum edDir ed : Nat) : Exec HcDev (Nat ⊕ Nat) := do
  let s ← .get
  if ed = 0 then pure (.inr 0)
  else if (s.ed ed).halted = 0 ∧ (s.ed ed).skip = 0 ∧ (s.ed ed).functionAddress = deviceAddress ∧
      (s.ed ed).endPointNum = endPointNum ∧ (s.ed ed).direction = edDir then pure (.inr ed)
  else pure (.inl (s.ed ed).nextED)

def ohciFindWorkingEd (edHead deviceAddress endPointNum edDir : Nat) : Exec HcDev Nat :=
  .loop walkLimit (findWorkingEdBody deviceAddress endPointNum edDir) edHead

def freeEdByAddrBody (asserts : Bool) (functionAddress endPointNum ed : Nat) : Exec HcDev (Nat ⊕ Unit) := do
  let s ← .get
  let next := (s.ed ed).nextED
  if next ≠ 0 then do
    if (s.ed next).functionAddress = functionAddress ∧ (s.ed next).endPointNum = endPointNum then do
      modifyEd ed fun e => { e with nextED := (s.ed next).nextED }
      ohciFreeED asserts next
      pure (.inl ed)
    else pure (.inl next)
  else pure (.inr ())

/-- The list of one place of `HccaInterruptTable`. -/
def freeEdByAddrAt (asserts : Bool) (functionAddress endPointNum index : Nat) : Exec HcDev Unit := do
  let s ← .get
  .when (s.hccaInterruptTable index ≠ 0)
    (.loop walkLimit (freeEdByAddrBody asserts functionAddress endPointNum) (s.hccaInterruptTable index))

def ohciFreeInterruptEdByAddr (asserts : Bool) (functionAddress endPointNum : Nat) : Exec HcDev EfiStatus := do
  Exec.serve (freeEdByAddrAt asserts functionAddress endPointNum) (List.range 32)
  pure .success

/-! ## The list of interrupt transfers -/

/-- An entry of the list. Reading `NULL` or what has been freed has no meaning. -/
def readEntry (entry : Nat) : Exec HcDev InterruptContextEntry := do
  let s ← .get
  match s.entry entry with
  | none => .halt .outOfBounds
  | some e => pure e

/-- The walk of `OhciAddInterruptContextEntry` to the last entry. -/
def lastEntryBody (entry : Nat) : Exec HcDev (Nat ⊕ Nat) := do
  let e ← readEntry entry
  if e.nextEntry ≠ 0 then pure (.inl e.nextEntry) else pure (.inr entry)

/-- `OhciAddInterruptContextEntry`, with the allocation of the entry before it. -/
def ohciAddInterruptContextEntry (newEntry : Nat) (e : InterruptContextEntry) : Exec HcDev Unit := do
  .modify fun s => { s with
    poolMemory := newEntry :: s.poolMemory
    entry := Function.update s.entry newEntry (some e) }
  let s ← .get
  if s.interruptContextList = 0 then .modify fun s => { s with interruptContextList := newEntry }
  else do
    let entry ← .loop walkLimit lastEntryBody s.interruptContextList
    let last ← readEntry entry
    .modify fun s => { s with
      entry := Function.update s.entry entry (some { last with nextEntry := newEntry }) }

def InterruptContextEntry.isFor (e : InterruptContextEntry) (deviceAddress endPointAddress : Nat) : Prop :=
  e.deviceAddress = deviceAddress ∧ e.endPointAddress = endPointAddress

instance (e : InterruptContextEntry) (deviceAddress endPointAddress : Nat) :
    Decidable (e.isFor deviceAddress endPointAddress) :=
  inferInstanceAs (Decidable (_ ∧ _))

/-- One pass over the entries at the head of the list. The local is `*DataToggle`. -/
def freeHeadBody (asserts : Bool) (deviceAddress endPointAddress dataToggle : Nat) :
    Exec HcDev (Nat ⊕ Nat) := do
  let s ← .get
  if s.interruptContextList = 0 then pure (.inr dataToggle)
  else do
    let e ← readEntry s.interruptContextList
    if e.isFor deviceAddress endPointAddress then do
      .modify fun s => { s with interruptContextList := e.nextEntry }
      ohciFreeInterruptContextEntry asserts s.interruptContextList
      pure (.inl ((s.td e.dataTd).dataToggle &&& 1))
    else pure (.inr dataToggle)

/-- One pass over the entries behind the head. The locals are the entry and `*DataToggle`. -/
def freeBehindBody (asserts : Bool) (deviceAddress endPointAddress : Nat) (l : Nat × Nat) :
    Exec HcDev (Nat × Nat ⊕ Nat) := do
  let e ← readEntry l.1
  if e.nextEntry = 0 then pure (.inr l.2)
  else do
    let next ← readEntry e.nextEntry
    if next.isFor deviceAddress endPointAddress then do
      let s ← .get
      .modify fun s => { s with
        entry := Function.update s.entry l.1 (some { e with nextEntry := next.nextEntry }) }
      ohciFreeInterruptContextEntry asserts e.nextEntry
      pure (.inl (l.1, (s.td next.dataTd).dataToggle &&& 1))
    else pure (.inl (e.nextEntry, l.2))

/-- `OhciFreeInterruptContext`. It returns what `*DataToggle` becomes. -/
def ohciFreeInterruptContext (asserts : Bool) (deviceAddress endPointAddress dataToggle : Nat) :
    Exec HcDev Nat := do
  let dataToggle ← .loop walkLimit (freeHeadBody asserts deviceAddress endPointAddress) dataToggle
  let s ← .get
  if s.interruptContextList = 0 then pure dataToggle
  else do
    let locals := (s.interruptContextList, dataToggle)
    .loop walkLimit (freeBehindBody asserts deviceAddress endPointAddress) locals

/-! ## `OhciInterruptTransfer` -/

/-- The parameters of `OhciInterruptTransfer` that it uses. -/
structure InterruptCall where
  deviceAddress : Nat
  isSlowDevice : Bool
  pollingInterval : Nat
  callBackFunction : Bool
  transfer : InterruptTransfer

/-- What the platform does during one call of `OhciInterruptTransfer`: the answers of a transfer, and what
`AllocatePool` returns for the context entry. -/
structure CallPlatform where
  transfer : Platform
  entry : Nat

/-- What a call leaves behind: its status, `*OutputED`, `*OutputTD` and `*DataToggle`. -/
structure CallResult where
  status : EfiStatus
  outputED : Nat
  outputTD : Nat
  dataToggle : Nat

/-- `OhciSetHcControl` of `PERIODIC_ENABLE`. -/
def setPeriodicEnable (ok value : Bool) : Exec HcDev Unit :=
  .when (ok = true) (.modify fun s => { s with periodicEnable := value })

/-- The depth for a polling interval: the loop from `Depth = 5` and `Index = 1`. -/
def pollingDepth (pollingInterval : Nat) : Nat → Nat → Nat
  | 0, _ => 0
  | depth + 1, index =>
    if index * 2 ≤ pollingInterval then pollingDepth pollingInterval depth (index * 2) else depth + 1

def beforeEdBody (ed headEd : Nat) : Exec HcDev (Nat ⊕ Nat) := do
  let s ← .get
  if headEd = 0 then .halt .outOfBounds
  else if (s.ed headEd).nextED ≠ u32 ed then pure (.inl (s.ed headEd).nextED)
  else pure (.inr headEd)

/-- `FREE_OHCI_TDBUFF`, down to `EXIT`. -/
def freeInterruptTdBuff (asserts : Bool) (headTd headEd ed mapping : Nat) : Exec HcDev Unit := do
  freeTds asserts headTd
  .when (headEd ≠ ed ∧ headEd ≠ 0 ∧ ed ≠ 0) (do
    let before ← .loop walkLimit (beforeEdBody ed) headEd
    let s ← .get
    modifyEd before fun e => { e with nextED := (s.ed ed).nextED }
    freeMem asserts ed sizeofEd)
  unmap mapping

def startInterrupt (asserts : Bool) (pf : CallPlatform) (p : InterruptCall) (m : Mapped)
    (headEd ed headTd dataToggle : Nat) : Exec HcDev CallResult := do
  if p.callBackFunction = true ∧ pf.entry = 0 then do
    -- `Status` is still the one of the mapping
    freeInterruptTdBuff asserts headTd headEd ed m.mapping
    pure ⟨.success, ed, headTd, dataToggle⟩
  else do
    .when (p.callBackFunction = true) (ohciAddInterruptContextEntry pf.entry
      ⟨p.deviceAddress, p.transfer.endPointAddress, ed, headTd, p.transfer.ucBuffer, m.mapping, 0⟩)
    modifyEd ed (ohciSetEDField .skip 0)
    let s ← .get
    .when (s.periodicEnable = false) (setPeriodicEnable (pf.transfer.write .enableList) true)
    pure ⟨.success, ed, headTd, dataToggle⟩

/-- The ED stage. The answer is the head of the list and the ED, `0` if there is no memory for it. -/
def interruptEd (asserts : Bool) (buffer : Option Nat) (p : InterruptCall) : Exec HcDev (Nat × Nat) := do
  let endPointNum := p.transfer.endPointAddress &&& 0xF
  let headEd ← ohciFindMinInterruptEDList asserts (pollingDepth p.pollingInterval 5 1)
  let edDir := if endPointIn p.transfer.endPointAddress then edInDir else edOutDir
  let found ← ohciFindWorkingEd headEd p.deviceAddress endPointNum edDir
  if found ≠ 0 then do
    modifyEd found (ohciSetEDField .skip 1)
    pure (headEd, found)
  else do
    let ed ← ohciCreateED asserts buffer
    if ed = 0 then pure (headEd, 0)
    else do
      modifyEd ed (transferEdFields p.deviceAddress endPointNum (if p.isSlowDevice then 1 else 0)
        p.transfer.maxPacketLength.toNat)
      ohciAttachED headEd ed
      pure (headEd, ed)

/-- `OhciInterruptTransfer` with `IsNewTransfer` TRUE, from the mapping on. -/
def newInterrupt (asserts : Bool) (pf : CallPlatform) (p : InterruptCall) : Exec HcDev CallResult := do
  let mapped ← map (pf.transfer.mapData .busMasterWrite p.transfer.ucBuffer p.transfer.dataLength)
  match mapped with
  | .error status => pure ⟨status, 0, 0, p.transfer.dataToggle⟩
  | .ok m => do
    let (headEd, ed) ← interruptEd asserts (pf.transfer.buffer 0) p
    if ed = 0 then do
      unmap m.mapping
      pure ⟨.outOfResources, 0, 0, p.transfer.dataToggle⟩
    else do
      let (status, l) ← .loop (m.length + 1)
        (dataStageBody asserts pf.transfer.buffer p.transfer.stage) (p.transfer.start m 1)
      let status ← if status.isError then pure status
        else emptyStage asserts (pf.transfer.buffer l.index) ed l.headTd
      if status.isError then do
        freeInterruptTdBuff asserts l.headTd headEd ed m.mapping
        pure ⟨status, 0, 0, l.dataToggle⟩
      else startInterrupt asserts pf p m headEd ed l.headTd l.dataToggle

def ohciInterruptTransfer (asserts : Bool) (pf : CallPlatform) (p : InterruptCall) :
    Exec HcDev CallResult :=
  if maxBytesPerTd < p.transfer.dataLength then pure ⟨.invalidParameter, 0, 0, p.transfer.dataToggle⟩
  else if p.transfer.isNewTransfer = false then do
    setPeriodicEnable (pf.transfer.write .disableList) false
    let dataToggle ← ohciFreeInterruptContext asserts p.deviceAddress p.transfer.endPointAddress
      p.transfer.dataToggle
    let status ← ohciFreeInterruptEdByAddr asserts p.deviceAddress (p.transfer.endPointAddress &&& 0xF)
    setPeriodicEnable (pf.transfer.write .enableList) true
    pure ⟨status, 0, 0, dataToggle⟩
  else newInterrupt asserts pf p

/-! ## `OhciSyncInterruptTransfer` -/

/-- A synchronous interrupt transfer: what `OhciSyncInterruptTransfer` checks, and the rest. -/
structure SyncCall where
  deviceAddress : Nat
  timeOut : Nat
  request : SyncInterruptRequest

def SyncCall.setUp (p : SyncCall) (ucBuffer : Nat) : InterruptCall :=
  ⟨p.deviceAddress, p.request.isSlowDevice, 1, false, p.request.transfer ucBuffer⟩

def SyncCall.takeDown (p : SyncCall) (dataToggle : Nat) : InterruptCall :=
  ⟨p.deviceAddress, p.request.isSlowDevice, 0, false,
    ⟨p.request.endPointAddress, p.request.maxPacketLength, false, dataToggle, 0, 0⟩⟩

/-- The locals of the wait: what is left of `TimeOut`, and the last answers of `CheckIfDone`. -/
structure SyncWait where
  timeOut : Nat
  looks : Nat
  status : EfiStatus
  edResult : EdResult

def syncWaitBody (look : Nat → Look) (ed headTd : Nat) (l : SyncWait) : Exec HcDev (SyncWait ⊕ SyncWait) :=
  if l.status = .notReady ∧ 0 < l.timeOut then do
    let (status, edResult) ← checkIfDone (look l.looks) false ed headTd l.edResult.nextToggle
    pure (.inl ⟨l.timeOut - 1, l.looks + 1, status, edResult⟩)
  else pure (.inr l)

/-- Wait for the controller. The answer is `*TransferResult`. -/
def syncWait (look : Nat → Look) (ed headTd timeOut : Nat) : Exec HcDev Nat := do
  let (status, edResult) ← checkIfDone (look 0) false ed headTd 0
  let l ← .loop (timeOut + 1) (syncWaitBody look ed headTd) ⟨timeOut, 1, status, edResult⟩
  pure (convertErrorCode l.edResult.errorCode)

/-- `OhciSyncInterruptTransfer`. `pf` is what the platform does during the first call and the wait, and
`pfDown` what it does during the second call; `pf.pool 0` is the answer of `AllocatePool`. -/
def ohciSyncInterruptTransfer (asserts : Bool) (pf pfDown : Platform) (p : SyncCall) :
    Exec HcDev TransferResult :=
  if p.request.invalid = true then
    pure ⟨.invalidParameter, p.request.dataLength, p.request.dataToggle, p.request.transferResult⟩
  else
    let ucBuffer := pf.pool 0
    if ucBuffer = 0 then
      pure ⟨.outOfResources, p.request.dataLength, p.request.dataToggle, p.request.transferResult⟩
    else do
      .modify fun s => { s with poolMemory := ucBuffer :: s.poolMemory }
      let up ← ohciInterruptTransfer asserts ⟨pf, 0⟩ (p.setUp ucBuffer)
      let transferResult ← if up.status.isError then pure p.request.transferResult
        else do
          let result ← syncWait pf.look up.outputED up.outputTD p.timeOut
          pure (some result)
      let down ← ohciInterruptTransfer asserts ⟨pfDown, 0⟩ (p.takeDown up.dataToggle)
      pure ⟨down.status, p.request.dataLength, some down.dataToggle, transferResult⟩

end Quark.Ohci.Transfer
