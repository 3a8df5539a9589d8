import Quark.Machine.RingBuffer
import Quark.Base.Efi

/-!
# The serial port driver

`Serial.c` of the UART driver: the two software FIFOs, the loop that moves bytes between them and the
line, and the write function of the serial I/O protocol. The line is free to do anything: what a read
of the line status, the modem status or the receive buffer register yields is given by the number of
such reads made so far.
-/

namespace Quark.Uart

open Machine

/-! ## The FIFOs -/

abbrev SerialDevFifo := RingBuffer (BitVec 8) 16

/-- A FIFO with `First = Last = 0` and `Surplus = SERIAL_MAX_BUFFER_SIZE`. -/
def SerialDevFifo.empty : SerialDevFifo where
  data := .replicate 16 0
  first := 0
  last := 0
  surplus := 16
  first_lt := by decide
  surplus_le := Nat.le_refl 16
  last_eq := rfl

def iohSerialFifoFull (fifo : SerialDevFifo) : Bool := fifo.surplus = 0

def iohSerialFifoEmpty (fifo : SerialDevFifo) : Bool := fifo.surplus = 16

def iohSerialFifoAdd (fifo : SerialDevFifo) (data : BitVec 8) : EfiStatus × SerialDevFifo :=
  if h : fifo.surplus = 0 then (.outOfResources, fifo) else (.success, fifo.push data h)

/-- The last component is `*Data`, which keeps its `old` value if there is nothing to remove. -/
def iohSerialFifoRemove (fifo : SerialDevFifo) (old : BitVec 8) :
    EfiStatus × SerialDevFifo × BitVec 8 :=
  if h : fifo.surplus = 16 then (.outOfResources, fifo, old)
  else (.success, fifo.pop h, fifo.slot fifo.first)

/-! ## The device -/

/-- What is fixed while the driver runs: `PcdIsaBusSerialUseHalfHandshake`, and what the line answers
to the reads of its registers. -/
structure SerialPort where
  useHalfHandshake : Bool
  lsr : Nat → BitVec 8
  msr : Nat → BitVec 8
  rbr : Nat → BitVec 8

/-- `SERIAL_DEV`, the modem control register, and what became of the line: how often it was read, and
the bytes written to the transmit holding register. -/
structure SerialDev where
  receive : SerialDevFifo
  transmit : SerialDevFifo
  softwareLoopbackEnable : Bool
  hardwareFlowControl : Bool
  timeout : BitVec 32
  mcr : BitVec 8
  reads : Nat
  thr : List (BitVec 8)

/-- `READ_LSR`, `READ_MSR`, `READ_RBR`. -/
def readLine (reg : Nat → BitVec 8) : Exec SerialDev (BitVec 8) := do
  let dev ← .get
  .modify fun dev => { dev with reads := dev.reads + 1 }
  pure (reg dev.reads)

def writeThr (data : BitVec 8) : Exec SerialDev Unit :=
  .modify fun dev => { dev with thr := dev.thr ++ [data] }

/-- `Mcr.Data = READ_MCR (SerialDevice); Mcr.Bits.Rts = rts; WRITE_MCR (SerialDevice, Mcr.Data)`. -/
def setRts (rts : Bool) : Exec SerialDev Unit :=
  .modify fun dev => { dev with mcr := if rts then dev.mcr ||| 2#8 else dev.mcr &&& ~~~2#8 }

def addReceive (data : BitVec 8) : Exec SerialDev Unit :=
  .modify fun dev => { dev with receive := (iohSerialFifoAdd dev.receive data).2 }

def addTransmit (data : BitVec 8) : Exec SerialDev Unit :=
  .modify fun dev => { dev with transmit := (iohSerialFifoAdd dev.transmit data).2 }

def removeTransmit : Exec SerialDev (BitVec 8) := do
  let dev ← .get
  let (_, fifo, data) := iohSerialFifoRemove dev.transmit 0
  .modify fun dev => { dev with transmit := fifo }
  pure data

/-! ## Moving bytes -/

def SerialPort.dr (lsr : BitVec 8) : Bool := lsr.getLsbD 0
def SerialPort.thre (lsr : BitVec 8) : Bool := lsr.getLsbD 5
def SerialPort.cts (msr : BitVec 8) : Bool := msr.getLsbD 4
def SerialPort.dcd (msr : BitVec 8) : Bool := msr.getLsbD 7

/-- `Lsr.Bits.FIFOe == 1 || Lsr.Bits.Pe == 1 || Lsr.Bits.Fe == 1 || Lsr.Bits.Bi == 1`. -/
def SerialPort.discards (lsr : BitVec 8) : Bool :=
  lsr.getLsbD 7 || lsr.getLsbD 2 || lsr.getLsbD 3 || lsr.getLsbD 4

namespace SerialPort

variable (port : SerialPort)

/-- The loop of the software loopback: each byte goes from the transmit to the receive FIFO. It is out
of the transmit FIFO before the receive FIFO is known to have room. -/
def loopback (n : Nat) : Exec SerialDev EfiStatus :=
  .loop n (fun () => do
    let dev ← .get
    let receiveFifoFull := iohSerialFifoFull dev.receive
    if iohSerialFifoEmpty dev.transmit then
      pure (.inr .success)
    else do
      let data ← removeTransmit
      if receiveFifoFull then
        pure (.inr .outOfResources)
      else do
        addReceive data
        let dev ← .get
        if iohSerialFifoEmpty dev.transmit then pure (.inr .success) else pure (.inl ())) ()

/-- A byte has arrived and the receive FIFO has room for it. A byte that arrived damaged is read and
dropped. -/
def receiveByte (lsr : BitVec 8) : Exec SerialDev Unit := do
  let data ← readLine port.rbr
  if discards lsr then
    pure ()
  else do
    addReceive data
    let dev ← .get
    .when (dev.hardwareFlowControl ∧ ¬ port.useHalfHandshake ∧ iohSerialFifoFull dev.receive)
      (setRts false)

def waitForCts (n : Nat) (msr : BitVec 8) : Exec SerialDev (BitVec 8) :=
  .loop n (fun (timeOut, msr) => do
    if dcd msr ∧ ((!cts msr) ^^ port.useHalfHandshake) then do
      if timeOut + 1 > 5 then
        pure (.inr msr)
      else do
        let msr ← readLine port.msr
        pure (.inl (timeOut + 1, msr))
    else
      pure (.inr msr)) ((0 : Nat), msr)

def sendByte : Exec SerialDev Unit := do
  let data ← removeTransmit
  writeThr data

def transmitByte (n : Nat) : Exec SerialDev Unit := do
  let dev ← .get
  if dev.hardwareFlowControl then do
    .when port.useHalfHandshake (setRts false)
    let msr ← readLine port.msr
    let msr ← waitForCts port n msr
    .when (¬ dcd msr ∨ (cts msr ^^ port.useHalfHandshake)) sendByte
    .when port.useHalfHandshake (setRts true)
  else
    sendByte

/-- What one pass of the loop does with the line status: take in a byte, or else send one. `room` says
that a byte has arrived and `ReceiveFifoFull` is still clear after it was tested again. -/
def moveByte (n : Nat) (lsr : BitVec 8) (room : Bool) : Exec SerialDev Unit := do
  let dev ← .get
  if room then
    receiveByte port lsr
  else
    .when (thre lsr ∧ ¬ iohSerialFifoEmpty dev.transmit) (transmitByte port n)

/-- One pass of the loop over the line status, with `ReceiveFifoFull`. -/
def receiveTransmitPass (n : Nat) (receiveFifoFull : Bool) :
    Exec SerialDev (Bool ⊕ EfiStatus) := do
  let lsr ← readLine port.lsr
  let dev ← .get
  let arrived := dr lsr && !receiveFifoFull
  let receiveFifoFull := if arrived then iohSerialFifoFull dev.receive else receiveFifoFull
  moveByte port n lsr (arrived && !receiveFifoFull)
  let dev ← .get
  if thre lsr ∧ ¬ iohSerialFifoEmpty dev.transmit then
    pure (.inl receiveFifoFull)
  else
    pure (.inr .success)

def iohSerialReceiveTransmit (n : Nat) : Exec SerialDev EfiStatus := do
  let dev ← .get
  if dev.softwareLoopbackEnable then
    loopback n
  else do
    let receiveFifoFull := iohSerialFifoFull dev.receive
    .when (dev.hardwareFlowControl ∧ ¬ port.useHalfHandshake ∧ ¬ receiveFifoFull) (setRts true)
    .loop n (receiveTransmitPass port n) receiveFifoFull

/-! ## The write function -/

/-- Move bytes until the transmit FIFO is empty, or `Elapsed` reaches the timeout: whether it did. -/
def drain (n : Nat) : Exec SerialDev Bool :=
  .loop n (fun elapsed => do
    let status ← iohSerialReceiveTransmit port n
    let dev ← .get
    if status ≠ .success ∨ ¬ iohSerialFifoEmpty dev.transmit then
      if dev.timeout ≤ elapsed then
        pure (.inr true)
      else
        pure (.inl (elapsed + 10))
    else
      pure (.inr false)) (0 : BitVec 32)

/-- The arguments of a write: `*BufferSize` and what `Buffer` points at, if it is not `NULL`. -/
structure WriteCall where
  bufferSize : BitVec 32
  buffer : Option (Nat → BitVec 8)

/-- The status, and `*BufferSize` on return. The locals are `Index` and `ActualWrite`; `Elapsed` is 0
whenever a byte is added. -/
def iohSerialWrite (n : Nat) (call : WriteCall) : Exec SerialDev (EfiStatus × Nat) :=
  if call.bufferSize = 0 then
    pure (.success, call.bufferSize.toNat)
  else match call.buffer with
  | none => pure (.deviceError, call.bufferSize.toNat)
  | some charBuffer =>
    .loop n (fun (index, actualWrite) => do
      if index < call.bufferSize.toNat then do
        addTransmit (charBuffer index)
        let timedOut ← drain port n
        if timedOut then
          pure (.inr (.timeout, actualWrite))
        else
          pure (.inl (index + 1, actualWrite + 1))
      else
        pure (.inr (.success, call.bufferSize.toNat))) ((0 : Nat), (0 : Nat))

end SerialPort

/-! ## The output stream -/

def SerialPort.WriteCall.bytes (call : SerialPort.WriteCall) : List (BitVec 8) :=
  match call.buffer with
  | none => []
  | some charBuffer => (List.range call.bufferSize.toNat).map charBuffer

def reported (served : List (SerialPort.WriteCall × EfiStatus × Nat)) : List (BitVec 8) :=
  served.flatMap fun (call, _, bufferSize) => call.bytes.take bufferSize

/-- The device as the driver starts it, with the flow control and loopback settings of the caller. -/
def SerialDev.start (softwareLoopbackEnable hardwareFlowControl : Bool) (timeout : BitVec 32) :
    SerialDev where
  receive := .empty
  transmit := .empty
  softwareLoopbackEnable := softwareLoopbackEnable
  hardwareFlowControl := hardwareFlowControl
  timeout := timeout
  mcr := 0
  reads := 0
  thr := []

/-- The bytes of the call go to the line, and no byte of an earlier call is in the transmit FIFO. -/
def Unhindered (call : SerialPort.WriteCall) (dev : SerialDev) : Prop :=
  call.bytes = [] ∨ dev.softwareLoopbackEnable = false ∧ iohSerialFifoEmpty dev.transmit = true

instance (call : SerialPort.WriteCall) (dev : SerialDev) : Decidable (Unhindered call dev) :=
  inferInstanceAs (Decidable (_ ∨ _))

end Quark.Uart
