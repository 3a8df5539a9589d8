import Quark.PciHostBridge.HostBridge
import Quark.Machine.LittleEndian

/-!
# PCI host bridge: what allocation promises

A node that was asked for gets a range of its own: inside the aperture of its bridge, aligned, and disjoint
from all others. What the driver holds of the GCD is what its nodes say, and no more.
-/

namespace Quark.PciHostBridge

open Machine

/-! ## Ranges of nodes -/

def RootBridge.status (b : RootBridge) (t : ResType) : ResStatus := (b.resAllocNode t).status

def RootBridge.range (b : RootBridge) (t : ResType) : Extent Space :=
  ⟨t.space, (b.resAllocNode t).base.toNat, (b.resAllocNode t).length.toNat⟩

def RootBridge.range? (b : RootBridge) (t : ResType) : Option (Extent Space) :=
  if b.status t = .allocated then some (b.range t) else none

def allocatedRanges (bridges : List RootBridge) : List (Extent Space) :=
  bridges.flatMap fun b => resTypes.filterMap b.range?

def InWindow (first last : Nat) (r : Extent Space) : Prop := first ≤ r.base ∧ r.base + r.length ≤ last + 1

/-- The range lies inside the aperture of its bridge. A node of 64-bit memory may be in the 32-bit window. -/
def InAperture (a : Aperture) (t : ResType) (r : Extent Space) : Prop :=
  match t with
  | .io => InWindow a.ioBase.toNat a.ioLimit.toNat r
  | .mem32 | .pMem32 => InWindow a.mem32Base.toNat a.mem32Limit.toNat r
  | .mem64 | .pMem64 => InWindow a.mem64Base.toNat a.mem64Limit.toNat r ∨
      InWindow a.mem32Base.toNat a.mem32Limit.toNat r
  | .bus => True

structure Placed (b : RootBridge) (t : ResType) : Prop where
  allocated : b.status t = .allocated
  inAperture : InAperture b.aperture t (b.range t)
  aligned : (b.resAllocNode t).alignment.toNat + 1 ∣ (b.resAllocNode t).base.toNat

/-! ## Allocation -/

/-- What allocation promises about one bridge: the nodes asked for are attempted once each and no others, and
on success they are placed. -/
structure BridgeServed (st : EfiStatus) (b b' : RootBridge) (attempts : List ResType) : Prop where
  once : ∀ t ∈ resTypes, b.status t ≠ .none → attempts.count t = 1
  only : ∀ t ∈ resTypes, b.status t = .none → t ∉ attempts ∧ b'.status t = .none
  placed : st = .success → ∀ t ∈ resTypes, b.status t ≠ .none → Placed b' t

/-- A list of bridges before and after, with the attempts. -/
inductive AllServed (st : EfiStatus) :
    List RootBridge → List RootBridge → List (List ResType) → Prop where
  | nil : AllServed st [] [] []
  | cons {b b' : RootBridge} {a : List ResType} {bs bs' : List RootBridge} {as : List (List ResType)}
      (h : BridgeServed st b b' a) (t : AllServed st bs bs' as) :
      AllServed st (b :: bs) (b' :: bs') (a :: as)

/-- What a call of `NotifyPhase (EfiPciHostBridgeAllocateResources)` promises. -/
def AllocationSound (c : Config) (call : Call) (s : HostBridge) : Prop :=
  call = .notifyPhase .allocateResources → s.resourceSubmited = true →
    ∀ st attempts s', serveCall c call s = .ret (st, attempts) s' →
      AllServed st s.bridges s'.bridges attempts ∧ (allocatedRanges s'.bridges).Pairwise Extent.Disjoint

/-- The node of `i` goes before that of `j`: its alignment is greater, or the same with a later type. -/
def Beats (b : RootBridge) (i j : ResType) : Prop :=
  (b.resAllocNode j).alignment < (b.resAllocNode i).alignment ∨
    (b.resAllocNode j).alignment = (b.resAllocNode i).alignment ∧ resTypes.idxOf j < resTypes.idxOf i

instance (b : RootBridge) (i j : ResType) : Decidable (Beats b i j) := inferInstanceAs (Decidable (_ ∨ _))

/-- No node that was not asked for gets in the way of one that was: as many requested nodes go before it as
have an earlier type. -/
def PicksFit (b : RootBridge) : Prop :=
  ∀ j ∈ resTypes, b.status j = .none →
    resTypes.countP (fun i => b.status i ≠ .none ∧ resTypes.idxOf i < resTypes.idxOf j) ≤
      resTypes.countP (fun i => b.status i ≠ .none ∧ Beats b i j)

/-- An upward search from `first` does not wrap. -/
def UpwardFits (first : Nat) (node : ResNode) : Prop :=
  first + node.alignment.toNat + node.length.toNat < 2 ^ 64

def DownwardFits (first last : Nat) (node : ResNode) : Prop :=
  0 < first ∧ node.length.toNat ≤ last + 1

def Downward32Fits (a : Aperture) (node : ResNode) : Prop :=
  a.mem32Base < a.mem32Limit →
    DownwardFits a.mem32Base.toNat a.mem32Limit.toNat node ∧ a.mem32Limit.toNat + 1 < 2 ^ 32

def SearchFits (c : Config) (a : Aperture) (t : ResType) (node : ResNode) : Prop :=
  match t with
  | .io => node.alignment.toNat < 0xFFFF ∧ UpwardFits a.ioBase.toNat node
  | .mem32 => node.alignment.toNat + 1 < 2 ^ 64
  | .pMem32 => node.alignment.toNat + 1 < 2 ^ 64 ∧ Downward32Fits a node
  | .mem64 | .pMem64 => node.alignment.toNat + 1 < 2 ^ 64 ∧ Downward32Fits a node ∧
      (a.mem64Base < a.mem64Limit → c.pci64BitResourceAllocation = true →
        DownwardFits a.mem64Base.toNat a.mem64Limit.toNat node)
  | .bus => True

def AllocationFits (c : Config) (call : Call) (s : HostBridge) : Prop :=
  call = .notifyPhase .allocateResources → s.resourceSubmited = true → ∀ b ∈ s.bridges,
    PicksFit b ∧ ∀ t ∈ resTypes, b.status t ≠ .none → SearchFits c b.aperture t (b.resAllocNode t)

/-! ## What the driver holds -/

/-- The addresses of the GCD that the driver holds are those of its allocated nodes, each in one of them. -/
structure HoldsExactly (s : HostBridge) : Prop where
  backs : Backs s.gcd (allocatedRanges s.bridges)
  exact : Exact s.gcd (allocatedRanges s.bridges)

def NoneAllocated (bridges : List RootBridge) : Prop :=
  ∀ b ∈ bridges, ∀ t ∈ resTypes, b.status t ≠ .allocated

def Descriptor.target? (d : Descriptor) : Option ResType :=
  if d.resType = acpiAddressSpaceTypeMem then
    if d.addrSpaceGranularity = 32 then if d.specificFlag = 0x06 then some .pMem32 else some .mem32
    else if d.addrSpaceGranularity = 64 then if d.specificFlag = 0x06 then some .pMem64 else some .mem64
    else none
  else if d.resType = acpiAddressSpaceTypeIo then some .io
  else none

/-- When a call loses no range: enumeration begins, and resources are allocated, with no node allocated;
requests are for nodes that are not; and no `TypePMem32` or `TypeMem64` is allocated when resources are
freed. -/
def CallKeepsRanges (call : Call) (s : HostBridge) : Prop :=
  match call with
  | .notifyPhase .beginEnumeration => s.canRestarted = true → NoneAllocated s.bridges
  | .notifyPhase .allocateResources => s.resourceSubmited = true → NoneAllocated s.bridges
  | .notifyPhase .freeResources =>
    ∀ b ∈ s.bridges, b.status .pMem32 ≠ .allocated ∧ b.status .mem64 ≠ .allocated
  | .submitResources handle (some config) =>
    ∀ b ∈ s.bridges, b.handle = handle → ∀ d ∈ config.descriptors, ∀ t, d.target? = some t →
      b.status t ≠ .allocated
  | _ => True

/-- The driver has just started: its nodes are empty and it holds nothing. -/
structure Started (s : HostBridge) : Prop where
  nodes : ∀ b ∈ s.bridges, ∀ t, b.resAllocNode t = ⟨0, 0, 0, .none⟩
  submitted : s.resourceSubmited = false
  held : ∀ k a, s.gcd k a ≠ .held

structure Idle (s : HostBridge) : Prop where
  nodes : ∀ b ∈ s.bridges, ∀ t ∈ resTypes, b.status t = .none
  submitted : s.resourceSubmited = false

def requestCalls (reqs : List (Nat × Option Configuration)) : List Call :=
  reqs.map fun r => .submitResources r.1 r.2

/-- After the resources are freed, the same requests again are allocated the same ranges. -/
def RepeatsRanges (c : Config) (s : HostBridge) : Prop :=
  ∀ reqs s₁ r t r' u, Idle s →
    Exec.serve (serveCall c) (requestCalls reqs) s = .ret () s₁ →
    notifyPhase c .allocateResources s₁ = .ret r t →
    CallKeepsRanges (.notifyPhase .freeResources) t →
    notifyPhase c .freeResources t = .ret r' u →
    ∃ u₁ v, Exec.serve (serveCall c) (requestCalls reqs) u = .ret () u₁ ∧
      notifyPhase c .allocateResources u₁ = .ret r v ∧ v.bridges = t.bridges

def FreeHoldsNone (c : Config) (call : Call) (s : HostBridge) : Prop :=
  call = .notifyPhase .freeResources → ∀ r s', serveCall c call s = .ret r s' → ∀ k a, s'.gcd k a ≠ .held

/-! ## PCI host bridge: the bytes of a configuration

`SubmitResources` gets a pointer to packed descriptors. What it takes from them is a `Configuration`; bytes
that end within a descriptor, or without a byte behind the last one, are none.
-/

abbrev acpiAddressSpaceDescriptor : Byte := 0x8A
abbrev acpiEndTagDescriptor : Byte := 0x79

/-- `sizeof (EFI_ACPI_ADDRESS_SPACE_DESCRIPTOR)`. -/
abbrev descriptorSize : Nat := 46

/-- The fields of the descriptor at `temp`. -/
def descriptorAt (temp : List Byte) : Option Descriptor := do
  let resType ← word? 1 temp 3
  let specificFlag ← word? 1 temp 5
  let addrSpaceGranularity ← word? 8 temp 6
  let addrRangeMin ← word? 8 temp 14
  let addrRangeMax ← word? 8 temp 22
  let addrLen ← word? 8 temp 38
  some {
    resType := BitVec.ofNat 8 resType
    specificFlag := BitVec.ofNat 8 specificFlag
    addrSpaceGranularity := BitVec.ofNat 64 addrSpaceGranularity
    addrRangeMin := BitVec.ofNat 64 addrRangeMin
    addrRangeMax := BitVec.ofNat 64 addrRangeMax
    addrLen := BitVec.ofNat 64 addrLen }

/-- The walk over the descriptors: at most `n` bytes are followed. -/
def configurationFrom : Nat → List Byte → Option Configuration
  | 0, _ => none
  | n + 1, temp => do
    let tag ← temp.head?
    if tag = acpiAddressSpaceDescriptor then do
      let d ← descriptorAt temp
      let config ← configurationFrom n (temp.drop descriptorSize)
      some { config with descriptors := d :: config.descriptors }
    else some ⟨[], tag = acpiEndTagDescriptor⟩

def configurationOf (bytes : List Byte) : Option Configuration := configurationFrom bytes.length bytes

/-- A descriptor as it is laid out, with the fields that `SubmitResources` does not read. -/
def Descriptor.bytes (d : Descriptor) (len genFlag addrTranslationOffset : Nat) : List Byte :=
  acpiAddressSpaceDescriptor :: leBytes 2 len ++ leBytes 1 d.resType.toNat ++ leBytes 1 genFlag ++
    leBytes 1 d.specificFlag.toNat ++ leBytes 8 d.addrSpaceGranularity.toNat ++
    leBytes 8 d.addrRangeMin.toNat ++ leBytes 8 d.addrRangeMax.toNat ++
    leBytes 8 addrTranslationOffset ++ leBytes 8 d.addrLen.toNat

/-! ## Valid descriptors -/

/-- The type, the granularity, the flags and the length of a descriptor can be asked for of a bridge. -/
def Descriptor.Typed (b : RootBridge) (d : Descriptor) : Prop :=
  d.resType = acpiAddressSpaceTypeIo ∨
    d.resType = acpiAddressSpaceTypeMem ∧
      (d.addrSpaceGranularity = 32 ∨ d.addrSpaceGranularity = 64) ∧
      (d.addrSpaceGranularity = 32 → d.addrLen.toNat < 2 ^ 32) ∧
      (b.rootBridgeAllocAttrib &&& combineMemPmem ≠ 0 → d.specificFlag &&& 0x06 = 0)

/-- The alignment is of the form `2^n - 1`. -/
def Descriptor.Aligned (d : Descriptor) : Prop := ∃ n ≤ 64, d.addrRangeMax.toNat = 2 ^ n - 1

structure Descriptor.Valid (b : RootBridge) (d : Descriptor) : Prop where
  typed : d.Typed b
  aligned : d.Aligned

structure Configuration.Valid (b : RootBridge) (config : Configuration) : Prop where
  descriptors : ∀ d ∈ config.descriptors, d.Valid b
  endTag : config.endTag = true

/-! ## Atomic submission -/

/-- The node that a descriptor is about asks for its length and alignment. -/
structure Records (b : RootBridge) (t : ResType) (d : Descriptor) : Prop where
  asked : b.status t ≠ .none
  length : (b.resAllocNode t).length = d.addrLen
  alignment : (b.resAllocNode t).alignment = d.addrRangeMax

def AllRecorded (handle : Nat) (config : Configuration) (s : HostBridge) : Prop :=
  ∃ b, s.bridges.find? (fun b => decide (b.handle = handle)) = some b ∧
    ∀ d ∈ config.descriptors, ∃ t, d.target? = some t ∧ Records b t d

/-- A valid configuration is recorded as a whole, and any other is rejected with nothing changed. -/
structure SubmitsAtomically (s : HostBridge) (handle : Nat) (b : RootBridge) (config : Configuration)
    (out : Outcome HostBridge EfiStatus) : Prop where
  success : config.Valid b → ∃ s', out = .ret .success s' ∧ AllRecorded handle config s'
  invalid : ¬ config.Valid b → out = .ret .invalidParameter s

def Misaligned (b : RootBridge) (ds : List Descriptor) : Prop :=
  ∃ pre d post, ds = pre ++ d :: post ∧ (∀ d' ∈ pre, d'.Valid b) ∧ d.Typed b ∧ ¬ d.Aligned

/-- Descriptors for one node ask for the same, and one for prefetchable memory asks for what its node has
already. -/
structure Recordable (b : RootBridge) (ds : List Descriptor) : Prop where
  agree : ∀ d ∈ ds, ∀ d' ∈ ds, d.target? = d'.target? →
    d.addrLen = d'.addrLen ∧ d.addrRangeMax = d'.addrRangeMax
  prefetchable : ∀ d ∈ ds, ∀ t, d.target? = some t → t = .pMem32 ∨ t = .pMem64 →
    (b.resAllocNode t).length = d.addrLen ∧ (b.resAllocNode t).alignment = d.addrRangeMax

/-! ## Reports of the resources

`RootBridgeIoConfiguration` and `GetProposedResources` describe the nodes of a bridge to other drivers, in ACPI
descriptors. Both clear their buffer first: a field that is not set is 0.
-/

/-- `EFI_ACPI_ADDRESS_SPACE_DESCRIPTOR`. -/
structure AcpiDescriptor where
  desc : BitVec 8
  len : BitVec 16
  resType : BitVec 8
  genFlag : BitVec 8
  specificFlag : BitVec 8
  addrSpaceGranularity : BitVec 64
  addrRangeMin : BitVec 64
  addrRangeMax : BitVec 64
  addrTranslationOffset : BitVec 64
  addrLen : BitVec 64
  deriving DecidableEq, Repr

abbrev efiResourceSatisfied : BitVec 64 := 0
abbrev efiResourceNonexistent : BitVec 64 := 0xFFFFFFFFFFFFFFFF
abbrev efiResourceLess : BitVec 64 := 0xFFFFFFFFFFFFFFFE

/-- What `GetProposedResources` writes for a node that is not `ResNone`. -/
def proposedDescriptor (index : ResType) (node : ResNode) : AcpiDescriptor :=
  let offset := if node.status = .allocated then efiResourceSatisfied else efiResourceLess
  match index with
  | .io => ⟨0x8A, 0x2B, 1, 0, 0, 0, node.base, 0, offset, node.length⟩
  | .mem32 => ⟨0x8A, 0x2B, 0, 0, 0, 32, node.base, 0, offset, node.length⟩
  | .pMem32 => ⟨0x8A, 0x2B, 0, 0, 6, 32, 0, 0, efiResourceNonexistent, 0⟩
  | .mem64 => ⟨0x8A, 0x2B, 0, 0, 0, 64, node.base, 0, offset, node.length⟩
  | .pMem64 => ⟨0x8A, 0x2B, 0, 0, 6, 64, 0, 0, efiResourceNonexistent, 0⟩
  | .bus => ⟨0, 0, 0, 0, 0, 0, 0, 0, 0, 0⟩

/-- What `RootBridgeIoConfiguration` writes for a node that is `ResAllocated`. -/
def configurationDescriptor (index : ResType) (node : ResNode) : AcpiDescriptor :=
  let last := node.base + node.length - 1
  match index with
  | .io => ⟨0x8A, 0x2B, acpiAddressSpaceTypeIo, 0, 0, 0, node.base, last, 0, node.length⟩
  | .mem32 => ⟨0x8A, 0x2B, acpiAddressSpaceTypeMem, 0, 0, 32, node.base, last, 0, node.length⟩
  | .pMem32 => ⟨0x8A, 0x2B, acpiAddressSpaceTypeMem, 0, 6, 32, node.base, last, 0, node.length⟩
  | .mem64 => ⟨0x8A, 0x2B, acpiAddressSpaceTypeMem, 0, 6, 64, node.base, last, 0, node.length⟩
  | .pMem64 => ⟨0x8A, 0x2B, acpiAddressSpaceTypeMem, 0, 6, 64, node.base, last, 0, node.length⟩
  | .bus => ⟨0x8A, 0x2B, acpiAddressSpaceTypeBus, 0, 0, 0, node.base, last, 0, node.length⟩

/-- `GetProposedResources`. `pool` is the answer of `AllocatePool`; with no node to describe it is not asked,
and `Buffer` stays `NULL`. The end tag is written behind the descriptors. -/
def getProposedResources (c : Config) (pool : Bool) (rootBridgeHandle : Nat) :
    Exec HostBridge (EfiStatus × Option (List AcpiDescriptor)) := do
  let s ← Exec.get
  match s.bridges.find? (·.handle = rootBridgeHandle) with
  | none => pure (.invalidParameter, none)
  | some b =>
    let requested := resTypes.filter fun index => (b.resAllocNode index).status ≠ .none
    if requested.length > 0 ∧ ¬ pool then pure (.outOfResources, none)
    else do
      assert c.assertEnabled (requested.length > 0)
      if requested.length = 0 then Exec.halt .outOfBounds
      else pure (.success, some (requested.map fun index => proposedDescriptor index (b.resAllocNode index)))

/-- `RootBridgeIoConfiguration`. `configBuffer` says whether there is a buffer from an earlier call. -/
def rootBridgeIoConfiguration (pool configBuffer : Bool) (b : RootBridge) :
    EfiStatus × Option (List AcpiDescriptor) :=
  if ¬ configBuffer ∧ ¬ pool then (.outOfResources, none)
  else
    let allocated := (resTypes ++ [ResType.bus]).filter fun index => (b.resAllocNode index).status = .allocated
    (.success, some (allocated.map fun index => configurationDescriptor index (b.resAllocNode index)))

/-! ## Agreement -/

def AcpiDescriptor.summary (d : AcpiDescriptor) : BitVec 8 × BitVec 64 × BitVec 8 × BitVec 64 × BitVec 64 :=
  (d.resType, d.addrSpaceGranularity, d.specificFlag, d.addrRangeMin, d.addrLen)

/-- The descriptors of I/O and memory in the current configuration are, in order, those that the proposal calls
satisfied. -/
def ReportsAgree (c : Config) (s : HostBridge) (handle : Nat) (b : RootBridge) : Prop :=
  ∀ pool pool' configBuffer config proposed t,
    rootBridgeIoConfiguration pool configBuffer b = (.success, some config) →
    getProposedResources c pool' handle s = .ret (.success, some proposed) t →
    (config.filter fun d => d.resType ≠ acpiAddressSpaceTypeBus).map AcpiDescriptor.summary =
      (proposed.filter fun d => d.addrTranslationOffset = efiResourceSatisfied).map AcpiDescriptor.summary

end Quark.PciHostBridge
