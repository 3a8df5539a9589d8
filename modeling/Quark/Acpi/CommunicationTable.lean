import Quark.Base.Efi

/-!
# The SMM communication table

`GetSmmCommunicationAcpiTableAddress`: the RSDT and, from revision 2 on, the XSDT list the addresses of the
ACPI tables. Both are scanned for the table by which a driver calls into SMM.

Pointers have 32 bits. A table is known by the fields that are compared.
-/

namespace Quark.Acpi

open Machine

/-! ## Tables in memory -/

/-- What is compared of a table: its header, and the identifier behind the header, which is there if the
table is long enough. -/
structure AcpiTable where
  signature : BitVec 32
  length : BitVec 32
  identifier : BitVec 128
  deriving DecidableEq

/-- `sizeof (EFI_ACPI_DESCRIPTION_HEADER)`. -/
abbrev acpiHeaderSize : BitVec 32 := 36

/-- The RSDP with the RSDT and the XSDT that it points to. The length of each is that of its header and its
entries, and a table stands at every address that is listed. -/
structure RootTables where
  revision : BitVec 8
  rsdtLength : BitVec 32
  rsdt : List (BitVec 32)
  xsdtLength : BitVec 32
  xsdt : List (BitVec 64)
  tableAt : BitVec 32 → Option AcpiTable
  rsdtLength_eq : rsdtLength.toNat = 36 + 4 * rsdt.length
  xsdtLength_eq : xsdtLength.toNat = 36 + 8 * xsdt.length
  xsdt_lt : ∀ a ∈ xsdt, a.toNat < 2 ^ 32
  rsdt_tables : ∀ a ∈ rsdt, a ≠ 0 → (tableAt a).isSome
  xsdt_tables : ∀ a ∈ xsdt, a ≠ 0 → (tableAt (a.setWidth 32)).isSome

/-- The GUIDs of `gST->ConfigurationTable` that are told apart. -/
inductive VendorGuid where
  | acpi20
  | acpi10
  | acpi
  | other
  deriving DecidableEq, Repr

/-- An entry of `gST->ConfigurationTable`, with the ACPI tables that it points to if it is one of these. -/
structure ConfigurationTable where
  vendorGuid : VendorGuid
  vendorTable : RootTables

/-! ## The search -/

/-- `EFI_ACPI_4_0_UEFI_ACPI_DATA_TABLE_SIGNATURE`: "UEFI". -/
abbrev uefiAcpiDataTableSignature : BitVec 32 := 0x49464555

/-- `sizeof (EFI_SMM_COMMUNICATION_ACPI_TABLE)`. -/
abbrev communicationTableSize : BitVec 32 := 66

abbrev gEfiSmmCommunicationProtocolGuid : BitVec 128 := 0xC68ED8E29DC64CBD9D94DB65ACC5C332

def AcpiTable.IsCommunication (t : AcpiTable) : Prop :=
  t.signature = uefiAcpiDataTableSignature ∧ t.length = communicationTableSize ∧
    t.identifier = gEfiSmmCommunicationProtocolGuid

instance (t : AcpiTable) : Decidable t.IsCommunication := instDecidableAnd

/-- One of the two scans, from an index on and for `k` entries; the entries of the RSDT are widened. -/
def scanTables (r : RootTables) (entries : List (BitVec 64)) : Nat → Nat → Exec Unit (Option (BitVec 64))
  | 0, _ => pure none
  | k + 1, index =>
    match entries[index]? with
    | none => .halt .outOfBounds
    | some entry =>
      let smmAcpi := entry.setWidth 32
      if smmAcpi = 0 then scanTables r entries k (index + 1)
      else
        match r.tableAt smmAcpi with
        | none => .halt .outOfBounds
        | some table =>
          if table.IsCommunication then pure (some (smmAcpi.setWidth 64)) else scanTables r entries k (index + 1)

def RootTables.rsdtEntries (r : RootTables) : List (BitVec 64) := r.rsdt.map fun a => a.setWidth 64

def notFound (asserts : Bool) : Exec Unit (BitVec 64) := do
  assert asserts False
  pure 0

def getSmmCommunicationAcpiTableAddress (asserts : Bool) (configuration : List ConfigurationTable) :
    Exec Unit (BitVec 64) := do
  let rsdp := configuration.find? fun t => t.vendorGuid ≠ .other
  assert asserts (rsdp.isSome = true)
  match rsdp with
  | none => pure 0
  | some t => do
    let r := t.vendorTable
    let tableCount := (r.rsdtLength - acpiHeaderSize) / 4
    match ← scanTables r r.rsdtEntries tableCount.toNat 0 with
    | some address => pure address
    | none =>
      if r.revision ≥ 2 then do
        let tableCount := (r.rsdtLength - acpiHeaderSize) / 8
        match ← scanTables r r.xsdt tableCount.toNat 0 with
        | some address => pure address
        | none => notFound asserts
      else notFound asserts

/-! ## What is to be found -/

def RootTables.Lists (r : RootTables) (entries : List (BitVec 64)) (address : BitVec 64) : Prop :=
  address ∈ entries ∧ address ≠ 0 ∧ ∃ t, r.tableAt (address.setWidth 32) = some t ∧ t.IsCommunication

def RootTables.Listed (r : RootTables) (address : BitVec 64) : Prop :=
  r.Lists r.rsdtEntries address ∨ r.revision ≥ 2 ∧ r.Lists r.xsdt address

/-- No read is outside a table, and an address is returned exactly if one is listed, and then one that is. -/
structure SearchExact (asserts : Bool) (configuration : List ConfigurationTable) (r : RootTables) : Prop where
  inside : ∀ u, getSmmCommunicationAcpiTableAddress asserts configuration () ≠ .stop .outOfBounds u
  found : (∃ address, address ≠ 0 ∧ getSmmCommunicationAcpiTableAddress asserts configuration () = .ret address ()) ↔
    ∃ address, r.Listed address
  listed : ∀ address, address ≠ 0 → getSmmCommunicationAcpiTableAddress asserts configuration () = .ret address () →
    r.Listed address

end Quark.Acpi
