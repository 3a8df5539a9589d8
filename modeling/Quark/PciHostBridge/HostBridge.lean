import Quark.Base.Efi
import Quark.Machine.AddressSpace
import Mathlib.Data.Nat.Size

/-!
# PCI host bridge

`PciHostBridge.c`: the resources that the PCI bus driver asks for, bridge by bridge, and their allocation in
the address spaces of the GCD. `Index` runs over the six types of `PCI_RESOURCE_TYPE`; the nodes of a root
bridge are a function of the type.

The GCD is an `AddressSpace` for I/O and one for memory. `EFI_PHYSICAL_ADDRESS` has 64 bits, `UINTN` has 32.
-/

namespace Quark.PciHostBridge

open Machine

/-! ## Data -/

/-- `PCI_RESOURCE_TYPE`. -/
inductive ResType where
  | io
  | mem32
  | pMem32
  | mem64
  | pMem64
  | bus
  deriving DecidableEq, Repr

/-- The types from `TypeIo` up to, and without, `TypeBus`. -/
def resTypes : List ResType := [.io, .mem32, .pMem32, .mem64, .pMem64]

inductive ResStatus where
  | none
  | submitted
  | requested
  | allocated
  deriving DecidableEq, Repr

structure ResNode where
  base : BitVec 64
  length : BitVec 64
  alignment : BitVec 64
  status : ResStatus
  deriving DecidableEq, Repr

structure Aperture where
  busBase : BitVec 32
  busLimit : BitVec 32
  mem32Base : BitVec 32
  mem32Limit : BitVec 32
  mem64Base : BitVec 64
  mem64Limit : BitVec 64
  ioBase : BitVec 32
  ioLimit : BitVec 32
  deriving DecidableEq, Repr

/-- `PCI_ROOT_BRIDGE_INSTANCE`. -/
structure RootBridge where
  handle : Nat
  aperture : Aperture
  rootBridgeAllocAttrib : BitVec 64
  resAllocNode : ResType → ResNode
  busScanCount : BitVec 32
  busNumberAssigned : Bool

/-- The spaces of the GCD. -/
inductive Space where
  | io
  | memory
  deriving DecidableEq, Repr

abbrev Gcd := Space → AddressSpace

/-- `PCI_HOST_BRIDGE_INSTANCE`, and the GCD. -/
structure HostBridge where
  bridges : List RootBridge
  resourceSubmited : Bool
  canRestarted : Bool
  gcd : Gcd

/-- `EFI_PCI_HOST_BRIDGE_RESOURCE_ALLOCATION_PHASE`, and any value that is none. -/
inductive Phase where
  | beginEnumeration
  | endEnumeration
  | beginBusAllocation
  | endBusAllocation
  | beginResourceAllocation
  | allocateResources
  | setResources
  | freeResources
  | endResourceAllocation
  | unknown
  deriving DecidableEq, Repr

/-- What the driver is built and started with: whether `ASSERT` is enabled, `Pci64BitResourceAllocation`, and
how far loops are followed. -/
structure Config where
  assertEnabled : Bool
  pci64BitResourceAllocation : Bool
  fuel : Nat

namespace RootBridge

def setNode (b : RootBridge) (index : ResType) (node : ResNode) : RootBridge :=
  { b with resAllocNode := Function.update b.resAllocNode index node }

/-- The four stores that make a node empty. `Alignment` is not among them. -/
def resetNode (b : RootBridge) (index : ResType) : RootBridge :=
  b.setNode index { b.resAllocNode index with base := 0, length := 0, status := .none }

end RootBridge

/-! ## The GCD -/

def ResType.space : ResType → Space
  | .io => .io
  | _ => .memory

/-- `AllocateIoSpace` and `AllocateMemorySpace` with `EfiGcdAllocateAddress`. -/
def allocateSpace (space : Space) (baseAddress addrLen : BitVec 64) : Exec Gcd Bool := do
  let gcd ← Exec.get
  if (gcd space).Grants baseAddress.toNat addrLen.toNat then do
    Exec.modify fun gcd => fillExtent gcd .held ⟨space, baseAddress.toNat, addrLen.toNat⟩
    pure true
  else pure false

/-- `FreeIoSpace` and `FreeMemorySpace`. -/
def freeSpace (space : Space) (baseAddress addrLen : BitVec 64) : Exec Gcd EfiStatus := do
  let gcd ← Exec.get
  if addrLen = 0 then pure .invalidParameter
  else if (gcd space).All .held baseAddress.toNat addrLen.toNat then do
    Exec.modify fun gcd => fillExtent gcd .free ⟨space, baseAddress.toNat, addrLen.toNat⟩
    pure .success
  else pure .notFound

/-! ## Search for an address -/

/-- The count of shifts until `Alignment` is zero. -/
def bitsOfAlignment (alignment : BitVec 64) : Nat := Nat.size alignment.toNat

def alignUp (baseAddress alignment : BitVec 64) : BitVec 64 :=
  if baseAddress &&& ~~~alignment ≠ baseAddress then (baseAddress + alignment) &&& ~~~alignment
  else baseAddress

def alignDown (baseAddress alignment : BitVec 64) : BitVec 64 :=
  if baseAddress &&& ~~~alignment ≠ baseAddress then baseAddress &&& ~~~alignment else baseAddress

/-- One round of a search: an address inside the window is tried, and `next` follows it. -/
def tryAddress (space : Space) (inside : Bool) (addrLen baseAddress next : BitVec 64) :
    Exec Gcd (BitVec 64 ⊕ Option (BitVec 64)) :=
  if inside then do
    let granted ← allocateSpace space baseAddress addrLen
    pure (if granted then .inr (some baseAddress) else .inl next)
  else pure (.inr none)

/-- One round of an upward search that stays below `limit`. -/
def searchUp (space : Space) (limit addrLen alignment baseAddress : BitVec 64) :
    Exec Gcd (BitVec 64 ⊕ Option (BitVec 64)) :=
  tryAddress space (baseAddress + addrLen ≤ limit) addrLen baseAddress (baseAddress + (alignment + 1))

/-- One round of a downward search that stays above `start`. -/
def searchDown (space : Space) (start addrLen alignment baseAddress : BitVec 64) :
    Exec Gcd (BitVec 64 ⊕ Option (BitVec 64)) :=
  tryAddress space (start ≤ baseAddress) addrLen baseAddress (baseAddress - (alignment + 1))

/-- `TypeIo`: an alignment of 16 bits and more is dropped. -/
def placeIo (c : Config) (a : Aperture) (node : ResNode) : Exec Gcd (Option (BitVec 64)) :=
  if a.ioBase < a.ioLimit then
    let alignment := if bitsOfAlignment node.alignment ≥ 16 then 0 else node.alignment
    Exec.loop c.fuel (searchUp .io ((a.ioLimit + 1).setWidth 64) node.length alignment)
      (alignUp (a.ioBase.setWidth 64) alignment)
  else pure none

/-- `TypeMem32`. -/
def placeMem32 (c : Config) (a : Aperture) (node : ResNode) : Exec Gcd (Option (BitVec 64)) :=
  if a.mem32Base < a.mem32Limit then
    Exec.loop c.fuel (searchUp .memory ((a.mem32Limit + 1).setWidth 64) node.length node.alignment)
      (alignUp (a.mem32Base.setWidth 64) node.alignment)
  else pure none

/-- `TypePMem32`, from the label `StartTypePMem32` on. -/
def placePMem32 (c : Config) (a : Aperture) (node : ResNode) : Exec Gcd (Option (BitVec 64)) :=
  if a.mem32Base < a.mem32Limit then
    Exec.loop c.fuel (searchDown .memory (a.mem32Base.setWidth 64) node.length node.alignment)
      (alignDown ((a.mem32Limit + 1).setWidth 64 - node.length) node.alignment)
  else pure none

/-- `TypeMem64` and `TypePMem64`, as far as the 64-bit aperture goes. -/
def placeMem64 (c : Config) (a : Aperture) (node : ResNode) : Exec Gcd (Option (BitVec 64)) :=
  if a.mem64Limit > a.mem64Base ∧ c.pci64BitResourceAllocation then
    Exec.loop c.fuel (searchDown .memory a.mem64Base node.length node.alignment)
      (alignDown (a.mem64Limit + 1 - node.length) node.alignment)
  else pure none

def RootBridge.place (b : RootBridge) (index : ResType) : Option (BitVec 64) → RootBridge
  | none => b
  | some base => b.setNode index { b.resAllocNode index with base := base, status := .allocated }

/-! ## Allocation -/

/-- The `switch` over the type of the node that is attempted. -/
def allocateNode (c : Config) (b : RootBridge) (index : ResType) : Exec Gcd RootBridge :=
  match index with
  | .io => do
    let base ← placeIo c b.aperture (b.resAllocNode index)
    pure (b.place index base)
  | .mem32 => do
    let base ← placeMem32 c b.aperture (b.resAllocNode index)
    pure (b.place index base)
  | .pMem32 => do
    let base ← placePMem32 c b.aperture (b.resAllocNode index)
    pure (b.place index base)
  | .mem64 | .pMem64 => do
    let base ← placeMem64 c b.aperture (b.resAllocNode index)
    let b := b.place index base
    if (b.resAllocNode index).status ≠ .allocated then do
      let base ← placePMem32 c b.aperture (b.resAllocNode index)
      pure (b.place index base)
    else pure b
  | .bus => pure b

/-- One round of the loop over `Index2`, with `MaxAlignment` and `Index`. -/
def pickStep (node : ResType → ResNode) (handled : ResType → Bool) (max : BitVec 64 × Option ResType)
    (index2 : ResType) : BitVec 64 × Option ResType :=
  if handled index2 then max
  else if max.1 ≤ (node index2).alignment then ((node index2).alignment, some index2)
  else max

/-- The node with the greatest alignment that is not handled, the last of them if there are several. -/
def pickNode (node : ResType → ResNode) (handled : ResType → Bool) : Option ResType :=
  (resTypes.foldl (pickStep node handled) (0, none)).2

/-- The locals of the loop over `Index1`. `attempts` lists the nodes that it attempted. -/
structure Progress where
  bridge : RootBridge
  resNodeHandled : ResType → Bool
  returnStatus : EfiStatus
  attempts : List ResType

/-- What an attempt at `index` leaves, with the bridge it gives. -/
def Progress.attempted (p : Progress) (index : ResType) (b : RootBridge) : Progress where
  bridge := b
  resNodeHandled := Function.update p.resNodeHandled index true
  returnStatus :=
    if (b.resAllocNode index).status ≠ .allocated then .outOfResources else p.returnStatus
  attempts := p.attempts ++ [index]

/-- The loop over `Index1`. -/
def allocateTypes (c : Config) : List ResType → Progress → Exec Gcd Progress
  | [], p => pure p
  | index1 :: rest, p =>
    if (p.bridge.resAllocNode index1).status = .none then
      allocateTypes c rest { p with resNodeHandled := Function.update p.resNodeHandled index1 true }
    else
      match pickNode p.bridge.resAllocNode p.resNodeHandled with
      | none => do
        assert c.assertEnabled False
        Exec.halt .outOfBounds
      | some index => do
        let b ← allocateNode c p.bridge index
        allocateTypes c rest (p.attempted index b)

def allocateBridges (c : Config) :
    List RootBridge → EfiStatus → Exec Gcd (List RootBridge × EfiStatus × List (List ResType))
  | [], returnStatus => pure ([], returnStatus, [])
  | b :: bridges, returnStatus => do
    let p ← allocateTypes c resTypes ⟨b, fun _ => false, returnStatus, []⟩
    let r ← allocateBridges c bridges p.returnStatus
    pure (p.bridge :: r.1, r.2.1, p.attempts :: r.2.2)

def RootBridge.zeroFailed (b : RootBridge) : RootBridge :=
  resTypes.foldl (fun b index =>
    if (b.resAllocNode index).status ≠ .allocated
    then b.setNode index { b.resAllocNode index with length := 0 } else b) b

/-- The `switch` over the type of an allocated node in `EfiPciHostBridgeFreeResources`. -/
def freeNode (index : ResType) (node : ResNode) : Exec Gcd EfiStatus :=
  match index with
  | .io => freeSpace .io node.base node.length
  | .mem32 => freeSpace .memory node.base node.length
  | .pMem64 => freeSpace .memory node.base node.length
  | _ => pure .success

def freeTypes : List ResType → RootBridge → EfiStatus → Exec Gcd (RootBridge × EfiStatus)
  | [], b, returnStatus => pure (b, returnStatus)
  | index :: rest, b, returnStatus =>
    if (b.resAllocNode index).status = .allocated then do
      let st ← freeNode index (b.resAllocNode index)
      freeTypes rest (b.resetNode index) (if st.isError then st else returnStatus)
    else freeTypes rest b returnStatus

def freeBridges : List RootBridge → EfiStatus → Exec Gcd (List RootBridge × EfiStatus)
  | [], returnStatus => pure ([], returnStatus)
  | b :: bridges, returnStatus => do
    let r ← freeTypes resTypes b returnStatus
    let rs ← freeBridges bridges r.2
    pure (r.1 :: rs.1, rs.2)

def onGcd {α : Type} (x : Exec Gcd α) : Exec HostBridge α := fun s =>
  match x s.gcd with
  | .ret a gcd => .ret a { s with gcd := gcd }
  | .stop w gcd => .stop w { s with gcd := gcd }

/-- All nodes of a bridge are reset, `TypeBus` too. -/
def RootBridge.reset (b : RootBridge) : RootBridge :=
  (resTypes ++ [ResType.bus]).foldl RootBridge.resetNode b

/-- `NotifyPhase`: its status, and the nodes attempted, bridge by bridge. -/
def notifyPhase (c : Config) (phase : Phase) : Exec HostBridge (EfiStatus × List (List ResType)) := do
  let s ← Exec.get
  match phase with
  | .beginEnumeration =>
    if s.canRestarted then do
      Exec.modify fun s => { s with bridges := s.bridges.map RootBridge.reset, resourceSubmited := false }
      pure (.success, [])
    else pure (.notReady, [])
  | .beginBusAllocation => do
    Exec.modify fun s => { s with canRestarted := false }
    pure (.success, [])
  | .allocateResources =>
    if s.resourceSubmited then do
      let r ← onGcd (allocateBridges c s.bridges .success)
      Exec.modify fun s => { s with bridges := r.1.map RootBridge.zeroFailed }
      pure (r.2.1, r.2.2)
    else pure (.notReady, [])
  | .freeResources => do
    let r ← onGcd (freeBridges s.bridges .success)
    Exec.modify fun s => { s with bridges := r.1, resourceSubmited := false, canRestarted := true }
    pure (r.2, [])
  | .unknown => pure (.invalidParameter, [])
  | _ => pure (.success, [])

/-! ## Requests -/

/-- What `SubmitResources` reads of an `EFI_ACPI_ADDRESS_SPACE_DESCRIPTOR`. -/
structure Descriptor where
  resType : BitVec 8
  specificFlag : BitVec 8
  addrSpaceGranularity : BitVec 64
  addrRangeMin : BitVec 64
  addrRangeMax : BitVec 64
  addrLen : BitVec 64
  deriving DecidableEq, Repr

abbrev acpiAddressSpaceTypeMem : BitVec 8 := 0
abbrev acpiAddressSpaceTypeIo : BitVec 8 := 1
abbrev acpiAddressSpaceTypeBus : BitVec 8 := 2

abbrev combineMemPmem : BitVec 64 := 1

/-- A configuration: its address space descriptors, and whether an end tag follows them. -/
structure Configuration where
  descriptors : List Descriptor
  endTag : Bool
  deriving DecidableEq, Repr

def getPowerOfTwo64 (operand : Nat) : Nat := if operand = 0 then 0 else 2 ^ operand.log2

def power2MaxMemory (memoryLength : BitVec 64) : BitVec 64 :=
  if memoryLength.toNat >>> 32 ≠ 0 then
    BitVec.ofNat 64 (getPowerOfTwo64 ((memoryLength.toNat >>> 32) % 2 ^ 32) <<< 32)
  else BitVec.ofNat 64 (getPowerOfTwo64 (memoryLength.toNat % 2 ^ 32))

/-- The check of the alignment, in front of `CpuDeadLoop`. -/
def checkAlignment {σ : Type} (d : Descriptor) : Exec σ EfiStatus :=
  if power2MaxMemory (d.addrRangeMax + 1) ≠ d.addrRangeMax + 1 then .halt .deadLoop else pure .success

/-- The `switch` over `ResType` that checks a descriptor. -/
def checkDescriptor {σ : Type} (b : RootBridge) (d : Descriptor) : Exec σ EfiStatus :=
  if d.resType = acpiAddressSpaceTypeMem then
    if d.addrSpaceGranularity ≠ 32 ∧ d.addrSpaceGranularity ≠ 64 then pure .invalidParameter
    else if d.addrSpaceGranularity = 32 ∧ d.addrLen > 0xffffffff then pure .invalidParameter
    else if b.rootBridgeAllocAttrib &&& combineMemPmem ≠ 0 ∧ d.specificFlag &&& 0x06 ≠ 0 then
      pure .invalidParameter
    else checkAlignment d
  else if d.resType = acpiAddressSpaceTypeIo then checkAlignment d
  else pure .invalidParameter

def checkDescriptors {σ : Type} (b : RootBridge) : List Descriptor → Exec σ EfiStatus
  | [] => pure .success
  | d :: ds => do
    let st ← checkDescriptor b d
    if st.isError then pure st else checkDescriptors b ds

def RootBridge.request (b : RootBridge) (index : ResType) (d : Descriptor) (status : ResStatus) :
    RootBridge :=
  b.setNode index
    { b.resAllocNode index with length := d.addrLen, alignment := d.addrRangeMax, status := status }

def RootBridge.mark (b : RootBridge) (index : ResType) : RootBridge :=
  b.setNode index { b.resAllocNode index with status := .submitted }

/-- The second loop of `SubmitResources`, over one descriptor: the bridge, and whether `ResourceSubmited`
is set. -/
def applyDescriptor (b : RootBridge) (d : Descriptor) : RootBridge × Bool :=
  if d.resType = acpiAddressSpaceTypeMem then
    if d.addrSpaceGranularity = 32 then
      if d.specificFlag = 0x06 then (b.mark .pMem32, false) else (b.request .mem32 d .requested, true)
    else if d.addrSpaceGranularity = 64 then
      if d.specificFlag = 0x06 then (b.mark .pMem64, false) else (b.request .mem64 d .submitted, true)
    else (b, false)
  else if d.resType = acpiAddressSpaceTypeIo then (b.request .io d .requested, true)
  else (b, false)

def applyDescriptors : RootBridge → List Descriptor → RootBridge × Bool
  | b, [] => (b, false)
  | b, d :: ds =>
    let r := applyDescriptor b d
    let rs := applyDescriptors r.1 ds
    (rs.1, r.2 || rs.2)

def updateBridge (handle : Nat) (f : RootBridge → RootBridge) : List RootBridge → List RootBridge
  | [] => []
  | b :: bs => if b.handle = handle then f b :: bs else b :: updateBridge handle f bs

def submitResources (rootBridgeHandle : Nat) (configuration : Option Configuration) :
    Exec HostBridge EfiStatus := do
  let s ← Exec.get
  match configuration, s.bridges.find? (·.handle = rootBridgeHandle) with
  | none, _ => pure .invalidParameter
  | _, none => pure .invalidParameter
  | some config, some b => do
    let st ← checkDescriptors b config.descriptors
    if st.isError then pure st
    else if ¬ config.endTag then pure .invalidParameter
    else do
      let r := applyDescriptors b config.descriptors
      Exec.modify fun s => { s with
        bridges := updateBridge rootBridgeHandle (fun _ => r.1) s.bridges
        resourceSubmited := s.resourceSubmited || r.2 }
      pure .success

/-- The checks of `SetBusNumbers` on the range: its first bus and its length. -/
def busRange (a : Aperture) (d : Descriptor) : Option (BitVec 32 × BitVec 32) :=
  let busStart := d.addrRangeMin.setWidth 32
  let busLen := d.addrLen.setWidth 32
  let busEnd := busStart + busLen - 1
  if busStart > busEnd then none
  else if busStart < a.busBase ∨ busEnd > a.busLimit then none
  else some (busStart, busLen)

/-- The stores of `SetBusNumbers`. -/
def RootBridge.assignBus (b : RootBridge) (busStart busLen : BitVec 32) : RootBridge :=
  let node : ResNode := { b.resAllocNode .bus with
    base := busStart.setWidth 64, length := busLen.setWidth 64, status := .allocated }
  { b.setNode .bus node with
    busScanCount := b.busScanCount + 1
    busNumberAssigned := b.busNumberAssigned || b.busScanCount + 1 > 0 }

/-- `SetBusNumbers`. A configuration holds one descriptor of buses, and an end tag. -/
def setBusNumbers (rootBridgeHandle : Nat) (configuration : Option Configuration) :
    Exec HostBridge EfiStatus := do
  let s ← Exec.get
  match configuration with
  | some ⟨[d], true⟩ =>
    if d.resType ≠ acpiAddressSpaceTypeBus then pure .invalidParameter
    else
      match s.bridges.find? (·.handle = rootBridgeHandle) with
      | none => pure .invalidParameter
      | some b =>
        match busRange b.aperture d with
        | none => pure .invalidParameter
        | some r => do
          Exec.modify fun s => { s with
            bridges := updateBridge rootBridgeHandle (fun b => b.assignBus r.1 r.2) s.bridges }
          pure .success
  | _ => pure .invalidParameter

/-- The calls that change the driver's state. -/
inductive Call where
  | notifyPhase (phase : Phase)
  | submitResources (rootBridgeHandle : Nat) (configuration : Option Configuration)
  | setBusNumbers (rootBridgeHandle : Nat) (configuration : Option Configuration)
  deriving DecidableEq, Repr

def serveCall (c : Config) : Call → Exec HostBridge (EfiStatus × List (List ResType))
  | .notifyPhase phase => notifyPhase c phase
  | .submitResources handle configuration => do
    let st ← submitResources handle configuration
    pure (st, [])
  | .setBusNumbers handle configuration => do
    let st ← setBusNumbers handle configuration
    pure (st, [])

end Quark.PciHostBridge
