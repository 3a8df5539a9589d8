import Quark.PciHostBridge.HostBridge
import Quark.Machine.Elements

/-!
# PCI root bridge I/O

`PciRootBridgeIo.c`: polls, memory and I/O accesses, `CopyMem` and the accesses to configuration space.

The accesses are served by the CPU I/O protocol, which is another driver's. A read is modelled by the bytes
that it stores from the start of `Buffer`, a write by the bytes that it finds there; what follows them in
memory is the caller's. The widths are the numbers of `EFI_PCI_ROOT_BRIDGE_IO_PROTOCOL_WIDTH`: the code
computes with them.
-/

namespace Quark.PciHostBridge

open Machine

/-! ## Widths -/

abbrev efiPciWidthUint8 : Nat := 0
abbrev efiPciWidthUint16 : Nat := 1
abbrev efiPciWidthUint32 : Nat := 2
abbrev efiPciWidthUint64 : Nat := 3
abbrev efiPciWidthFifoUint64 : Nat := 7
abbrev efiPciWidthFillUint64 : Nat := 11
abbrev efiPciWidthMaximum : Nat := 12

def elementSize (width : Nat) : Nat := 2 ^ (width % 4)

def isFifo (width : Nat) : Bool := 4 ≤ width ∧ width < 8

def isFill (width : Nat) : Bool := 8 ≤ width ∧ width < 12

/-- The bytes of a buffer that an access of `count` elements takes. A fill has one element in the buffer. -/
def bufferLength (width count : Nat) : Nat :=
  if isFill width then min count 1 * elementSize width else count * elementSize width

/-! ## Protocols -/

/-- `EFI_CPU_IO_PROTOCOL`, on a machine `σ`. -/
structure CpuIo (σ : Type) where
  memRead : Nat → BitVec 64 → BitVec 32 → σ → (EfiStatus × List Byte) × σ
  memWrite : Nat → BitVec 64 → BitVec 32 → List Byte → σ → EfiStatus × σ
  ioRead : Nat → BitVec 64 → BitVec 32 → σ → (EfiStatus × List Byte) × σ
  ioWrite : Nat → BitVec 64 → BitVec 32 → List Byte → σ → EfiStatus × σ

def CpuIo.StoresElements {σ : Type} (io : CpuIo σ) : Prop :=
  ∀ width address count s,
    (io.memRead width address count s).1.2.length =
      (if (io.memRead width address count s).1.1.isError then 0 else bufferLength width count.toNat) ∧
    (io.ioRead width address count s).1.2.length =
      (if (io.ioRead width address count s).1.1.isError then 0 else bufferLength width count.toNat)

/-- `EFI_METRONOME_ARCH_PROTOCOL`: the length of a tick. -/
structure Metronome where
  tickPeriod : BitVec 32
  tickPeriod_ne_zero : tickPeriod ≠ 0

theorem tick_ne_zero : (100 : BitVec 32) ≠ 0 := by decide

/-- `PCI_ROOT_BRIDGE_INSTANCE`, as far as the accesses look at it, and the protocols they use. -/
structure RootBridgeIo (σ : Type) where
  aperture : Aperture
  hecBase : BitVec 32
  cpuIo : CpuIo σ
  metronome : Metronome
  assertEnabled : Bool

/-- `PciAddress` and `PciData`, as the constructor sets them. -/
abbrev pciAddress : BitVec 64 := 0xCF8
abbrev pciDataPort : BitVec 64 := 0xCFC

def call {σ α : Type} (f : σ → α × σ) : Exec σ α := fun s => .ret (f s).1 (f s).2

section

variable {σ : Type} (p : RootBridgeIo σ)

/-! ## Memory and I/O space -/

/-- The test of `Width` that most accesses begin with. -/
def widthRefused (width : Nat) : Bool :=
  width = efiPciWidthUint64 ∨ width = efiPciWidthFifoUint64 ∨ width = efiPciWidthFillUint64 ∨
    width ≥ efiPciWidthMaximum

/-- The test of `Address` against the aperture of memory. -/
def beyondMemory (a : Aperture) (address : BitVec 64) : Bool :=
  if a.mem64Limit > a.mem64Base then address > a.mem64Limit else address > a.mem32Limit.setWidth 64

/-- The tests of `Address` against the aperture of I/O and against the size of an element. -/
def beyondIo (a : Aperture) (width : Nat) (address : BitVec 64) : Bool :=
  address > a.ioLimit.setWidth 64 ∨ address &&& BitVec.ofNat 64 (2 ^ (width % 4) - 1) ≠ 0

def rootBridgeIoMemRead (width : Nat) (address : BitVec 64) (count : BitVec 32) :
    Exec σ (EfiStatus × List Byte) :=
  if widthRefused width then pure (.invalidParameter, [])
  else if beyondMemory p.aperture address then pure (.invalidParameter, [])
  else call (p.cpuIo.memRead width address count)

def rootBridgeIoMemWrite (width : Nat) (address : BitVec 64) (count : BitVec 32) (bytes : List Byte) :
    Exec σ EfiStatus :=
  if widthRefused width then pure .invalidParameter
  else if beyondMemory p.aperture address then pure .invalidParameter
  else call (p.cpuIo.memWrite width address count bytes)

def rootBridgeIoIoRead (width : Nat) (address : BitVec 64) (count : BitVec 32) :
    Exec σ (EfiStatus × List Byte) :=
  if widthRefused width then pure (.invalidParameter, [])
  else if beyondIo p.aperture width address then pure (.invalidParameter, [])
  else call (p.cpuIo.ioRead width address count)

def rootBridgeIoIoWrite (width : Nat) (address : BitVec 64) (count : BitVec 32) (bytes : List Byte) :
    Exec σ EfiStatus :=
  if widthRefused width then pure .invalidParameter
  else if beyondIo p.aperture width address then pure .invalidParameter
  else call (p.cpuIo.ioWrite width address count bytes)

/-! ## Polls -/

/-- `*Result`. -/
def resultValue (result : ByteStore) : BitVec 64 := BitVec.ofNat 64 (leValue (result.read 0 8))

/-- The ticks that a poll waits: `Delay` in periods, rounded up, and one more. -/
def numberOfTicks (delay : BitVec 64) (m : Metronome) : BitVec 64 :=
  let period := m.tickPeriod.setWidth 64
  (if delay % period ≠ 0 then delay / period + 1 else delay / period) + 1

/-- `while (NumberOfTicks)`. -/
def pollTicks (read : Exec σ (EfiStatus × List Byte)) (mask value : BitVec 64) :
    Nat → ByteStore → Exec σ (EfiStatus × ByteStore)
  | 0, result => pure (.timeout, result)
  | ticks + 1, result => do
    let (status, bytes) ← read
    let result := result.put 0 bytes
    if status.isError then pure (status, result)
    else if resultValue result &&& mask = value then pure (.success, result)
    else pollTicks read mask value ticks result

/-- A poll of what `read` reads. -/
def poll (read : Exec σ (EfiStatus × List Byte)) (m : Metronome) (width : Nat) (mask value delay : BitVec 64)
    (result : ByteStore) : Exec σ (EfiStatus × ByteStore) :=
  if width > efiPciWidthUint64 then pure (.invalidParameter, result)
  else do
    let (status, bytes) ← read
    let result := result.put 0 bytes
    if status.isError then pure (status, result)
    else if resultValue result &&& mask = value then pure (.success, result)
    else if delay ≠ 0 then pollTicks read mask value (numberOfTicks delay m).toNat result
    else pure (.timeout, result)

def rootBridgeIoPollMem (width : Nat) (address mask value delay : BitVec 64) (result : ByteStore) :
    Exec σ (EfiStatus × ByteStore) :=
  poll (rootBridgeIoMemRead p width address 1) p.metronome width mask value delay result

def rootBridgeIoPollIo (width : Nat) (address mask value delay : BitVec 64) (result : ByteStore) :
    Exec σ (EfiStatus × ByteStore) :=
  poll (rootBridgeIoIoRead p width address 1) p.metronome width mask value delay result

/-! ## `CopyMem` -/

/-- The loop of `CopyMem`: both addresses go on by `step`. -/
def copyElements (width : Nat) (step : BitVec 64) : Nat → BitVec 64 → BitVec 64 → Exec σ EfiStatus
  | 0, _, _ => pure .success
  | n + 1, destAddress, srcAddress => do
    let (status, result) ← rootBridgeIoMemRead p width srcAddress 1
    if status.isError then pure status
    else do
      let status ← rootBridgeIoMemWrite p width destAddress 1 result
      if status.isError then pure status
      else copyElements width step n (destAddress + step) (srcAddress + step)

/-- `Count * Stride` and `(Count - 1) * Stride` are products of two `UINTN`. -/
def rootBridgeIoCopyMem (width : Nat) (destAddress srcAddress : BitVec 64) (count : BitVec 32) :
    Exec σ EfiStatus :=
  if width > efiPciWidthUint64 then pure .invalidParameter
  else if destAddress = srcAddress then pure .success
  else
    let stride := (1 : BitVec 32) <<< width
    if destAddress > srcAddress ∧ destAddress < srcAddress + (count * stride).setWidth 64 then
      let last := ((count - 1) * stride).setWidth 64
      copyElements p width (-stride.setWidth 64) count.toNat (destAddress + last) (srcAddress + last)
    else copyElements p width (stride.setWidth 64) count.toNat destAddress srcAddress

/-! ## Configuration space -/

/-- `EFI_PCI_ROOT_BRIDGE_IO_PROTOCOL_PCI_ADDRESS`. -/
structure PciIoAddress where
  register : BitVec 8
  function : BitVec 8
  device : BitVec 8
  bus : BitVec 8
  extendedRegister : BitVec 32
  deriving DecidableEq, Repr

/-- `PCI_CONFIG_ACCESS_CF8`; `Reserved` is 0. -/
structure PciConfigAccessCf8 where
  reg : BitVec 8
  func : BitVec 3
  dev : BitVec 5
  bus : BitVec 8
  enable : BitVec 1
  deriving DecidableEq, Repr

/-- The `UINT32` that the bit fields are. -/
def PciConfigAccessCf8.uint32 (pci : PciConfigAccessCf8) : BitVec 32 :=
  pci.enable ++ (0 : BitVec 7) ++ pci.bus ++ pci.dev ++ pci.func ++ pci.reg

/-- `PCIE_OFF`, with the products of `UINTN`. -/
def pcieOff (bus device function register : BitVec 32) : BitVec 64 :=
  ((bus <<< 20) + (device <<< 15) + (function <<< 12) + register).setWidth 64

/-- The loop of `RootBridgeIoPciRW`. The user's buffer goes on at `pos`. -/
def pciRWElements (write : Bool) (width : Nat) :
    Nat → PciConfigAccessCf8 → Nat → Nat → ByteStore → Exec σ ByteStore
  | 0, _, _, _, userBuffer => pure userBuffer
  | n + 1, pci, pciDataStride, pos, userBuffer => do
    let pciAligned := { pci with reg := pci.reg &&& 0xFC }
    let pciData := pciDataPort + BitVec.ofNat 64 pciDataStride
    let _ ← rootBridgeIoIoWrite p efiPciWidthUint32 pciAddress 1 (leBytes 4 pciAligned.uint32.toNat)
    let userBuffer ← (if write then do
        let _ ← rootBridgeIoIoWrite p width pciData 1 (userBuffer.read pos (bufferLength width 1))
        pure userBuffer
      else do
        let (_, bytes) ← rootBridgeIoIoRead p width pciData 1
        pure (userBuffer.put pos bytes))
    let stride := 2 ^ width
    -- Only a width that is no FIFO moves the address on; the code counts the fills among the FIFOs.
    let pci := if width ≤ efiPciWidthUint64 then { pci with reg := pci.reg + BitVec.ofNat 8 stride } else pci
    pciRWElements write width n pci ((pciDataStride + stride) % 4) (pos + stride) userBuffer

def rootBridgeIoPciRW (write : Bool) (width : Nat) (userAddress : PciIoAddress) (count : BitVec 32)
    (userBuffer : ByteStore) : Exec σ (EfiStatus × ByteStore) :=
  if width ≥ efiPciWidthMaximum then pure (.invalidParameter, userBuffer)
  else do
    assert p.assertEnabled (userAddress.extendedRegister = 0)
    let pci : PciConfigAccessCf8 :=
      { reg := userAddress.register, func := userAddress.function.setWidth 3,
        dev := userAddress.device.setWidth 5, bus := userAddress.bus, enable := 1 }
    let userBuffer ← pciRWElements p write width count.toNat pci (userAddress.register.toNat % 4) 0 userBuffer
    pure (.success, userBuffer)

def extConfigAdd (hecBase : BitVec 32) (address : PciIoAddress) : BitVec 64 :=
  let pciExtReg :=
    if address.extendedRegister = 0 then address.register.setWidth 32 else address.extendedRegister &&& 0x0FFF
  hecBase.setWidth 64 +
    pcieOff (address.bus.setWidth 32) (address.device.setWidth 32) (address.function.setWidth 32) pciExtReg

def rootBridgeIoPciRead (width : Nat) (address : PciIoAddress) (count : BitVec 32) (buffer : ByteStore) :
    Exec σ (EfiStatus × ByteStore) :=
  if widthRefused width then pure (.invalidParameter, buffer)
  else if p.hecBase = 0 then rootBridgeIoPciRW p false width address count buffer
  else do
    let (status, bytes) ← call (p.cpuIo.memRead width (extConfigAdd p.hecBase address) count)
    pure (status, buffer.put 0 bytes)

/-- `RootBridgeIoPciWrite`, which takes the 64-bit widths too. -/
def rootBridgeIoPciWrite (width : Nat) (address : PciIoAddress) (count : BitVec 32) (buffer : ByteStore) :
    Exec σ (EfiStatus × ByteStore) :=
  if width ≥ efiPciWidthMaximum then pure (.invalidParameter, buffer)
  else if p.hecBase = 0 then rootBridgeIoPciRW p true width address count buffer
  else do
    let status ← call (p.cpuIo.memWrite width (extConfigAdd p.hecBase address) count
      (buffer.read 0 (bufferLength width count.toNat)))
    pure (status, buffer)

end

end Quark.PciHostBridge
