import Quark.Acpi.CommunicationTable
import Quark.Machine.Scan

/-!
# SMM communication table: what the two scans reach

The scan of the RSDT reaches every entry. That of the XSDT takes its count from the RSDT, so it reaches half
as many entries as the RSDT has, whatever the XSDT has.
-/

namespace Quark.Acpi

open Machine Exec

section

variable {r : RootTables} {entries : List (BitVec 64)}

/-! ## One scan -/

def RootTables.Placed (r : RootTables) (entries : List (BitVec 64)) : Prop :=
  ∀ a ∈ entries, a.toNat < 2 ^ 32 ∧ (a ≠ 0 → (r.tableAt (a.setWidth 32)).isSome)

def RootTables.hits (r : RootTables) (entry : BitVec 64) : Bool :=
  entry.setWidth 32 ≠ (0 : BitVec 32) ∧ ∃ t ∈ r.tableAt (entry.setWidth 32), t.IsCommunication

theorem setWidth_setWidth_of_lt {a : BitVec 64} (h : a.toNat < 2 ^ 32) : (a.setWidth 32).setWidth 64 = a := by
  apply BitVec.eq_of_toNat_eq
  rw [BitVec.toNat_setWidth, BitVec.toNat_setWidth]
  omega

theorem setWidth_eq_zero_iff {a : BitVec 64} (h : a.toNat < 2 ^ 32) : a.setWidth 32 = (0 : BitVec 32) ↔ a = 0 := by
  constructor
  · intro h0
    rw [← setWidth_setWidth_of_lt h, h0]
    rfl
  · rintro rfl
    rfl

theorem placed_rsdt (r : RootTables) : r.Placed r.rsdtEntries := by
  intro a ha
  obtain ⟨b, hb, rfl⟩ := List.mem_map.mp ha
  have hwidth : (b.setWidth 64).setWidth 32 = b := by
    apply BitVec.eq_of_toNat_eq
    rw [BitVec.toNat_setWidth, BitVec.toNat_setWidth]
    omega
  have hlt : (b.setWidth 64).toNat < 2 ^ 32 := by
    rw [BitVec.toNat_setWidth]
    omega
  refine ⟨hlt, fun hne => ?_⟩
  rw [hwidth]
  apply r.rsdt_tables b hb
  rintro rfl
  exact hne rfl

theorem placed_xsdt (r : RootTables) : r.Placed r.xsdt :=
  fun a ha => ⟨r.xsdt_lt a ha, r.xsdt_tables a ha⟩

theorem lists_iff (h : r.Placed entries) (address : BitVec 64) :
    r.Lists entries address ↔ address ∈ entries ∧ r.hits address = true := by
  unfold RootTables.Lists RootTables.hits
  rw [decide_eq_true_eq]
  refine and_congr_right fun hmem => and_congr ?_ Iff.rfl
  exact (not_congr (setWidth_eq_zero_iff (h address hmem).1)).symm

theorem scanTables_eq (h : r.Placed entries) : ∀ k index : Nat, scanTables r entries k index () =
    match scan r.hits entries k index with
    | .hit _ a => .ret (some a) ()
    | .miss => .ret none ()
    | .past => .stop .outOfBounds () := by
  intro k
  induction k with
  | zero => intro index; rfl
  | succ k ih =>
    intro index
    cases hread : entries[index]? with
    | none =>
      rw [scan_succ_none k hread, scanTables, hread]
      rfl
    | some a =>
      obtain ⟨hlt, htable⟩ := h a (List.mem_of_getElem? hread)
      rw [scan_succ_some k hread, scanTables, hread]
      by_cases h0 : a.setWidth 32 = (0 : BitVec 32)
      · have hno : r.hits a = false := by simp [RootTables.hits, h0]
        simp only [h0, if_true, hno, Bool.false_eq_true, if_false]
        exact ih (index + 1)
      · obtain ⟨t, ht⟩ := Option.isSome_iff_exists.mp (htable fun hz => h0 ((setWidth_eq_zero_iff hlt).mpr hz))
        by_cases hcomm : t.IsCommunication
        · have hyes : r.hits a = true := decide_eq_true ⟨h0, t, ht, hcomm⟩
          simp only [h0, if_false, ht, hcomm, if_true, hyes, setWidth_setWidth_of_lt hlt]
          rfl
        · have hno : r.hits a = false := by
            refine decide_eq_false ?_
            rintro ⟨-, t', ht', hcomm'⟩
            rw [ht] at ht'
            cases ht'
            exact hcomm hcomm'
          simp only [h0, if_false, ht, hcomm, hno, Bool.false_eq_true]
          exact ih (index + 1)

theorem scanTables_hit (h : r.Placed entries) {k : Nat} (hhit : ∃ a ∈ entries.take k, r.hits a = true) :
    ∃ a, r.Lists entries a ∧ scanTables r entries k 0 () = .ret (some a) () := by
  have hdrop : ∃ a ∈ (entries.drop 0).take k, r.hits a = true := hhit
  obtain ⟨found, a, hscan, -, hread, ha⟩ := scan_hit k 0 hdrop
  exact ⟨a, (lists_iff h a).mpr ⟨List.mem_of_getElem? hread, ha⟩, by rw [scanTables_eq h, hscan]⟩

theorem scanTables_miss (h : r.Placed entries) {k : Nat} (hno : ∀ a ∈ entries.take k, r.hits a = false)
    (hle : k ≤ entries.length) : scanTables r entries k 0 () = .ret none () := by
  rw [scanTables_eq h, scan_miss k 0 hno (by omega)]

theorem scanTables_past (h : r.Placed entries) {k : Nat} (hno : ∀ a ∈ entries, r.hits a = false)
    (hlt : entries.length < k) : scanTables r entries k 0 () = .stop .outOfBounds () := by
  rw [scanTables_eq h, scan_past k 0 hno (Nat.zero_le _) (by omega)]

/-! ## The two counts -/

theorem rsdtCount (r : RootTables) : ((r.rsdtLength - acpiHeaderSize) / 4).toNat = r.rsdtEntries.length := by
  have hlength := r.rsdtLength_eq
  have hsub : (r.rsdtLength - acpiHeaderSize).toNat = r.rsdtLength.toNat - 36 :=
    BitVec.toNat_sub_of_le (by rw [BitVec.le_def, hlength]; exact Nat.le_add_right 36 _)
  rw [BitVec.toNat_udiv, hsub, RootTables.rsdtEntries, List.length_map, hlength]
  show (36 + 4 * r.rsdt.length - 36) / 4 = _
  omega

theorem xsdtCount (r : RootTables) : ((r.rsdtLength - acpiHeaderSize) / 8).toNat = r.rsdt.length / 2 := by
  have hlength := r.rsdtLength_eq
  have hsub : (r.rsdtLength - acpiHeaderSize).toNat = r.rsdtLength.toNat - 36 :=
    BitVec.toNat_sub_of_le (by rw [BitVec.le_def, hlength]; exact Nat.le_add_right 36 _)
  rw [BitVec.toNat_udiv, hsub, hlength]
  show (36 + 4 * r.rsdt.length - 36) / 8 = _
  omega

end

/-! ## The search -/

section

variable {asserts : Bool} {configuration : List ConfigurationTable} {t : ConfigurationTable}

def searchRoot (asserts : Bool) (r : RootTables) : Exec Unit (BitVec 64) := do
  match ← scanTables r r.rsdtEntries r.rsdtEntries.length 0 with
  | some address => pure address
  | none =>
    if r.revision ≥ 2 then do
      match ← scanTables r r.xsdt (r.rsdt.length / 2) 0 with
      | some address => pure address
      | none => notFound asserts
    else notFound asserts

theorem search_eq (h : configuration.find? (fun t => t.vendorGuid ≠ .other) = some t) :
    getSmmCommunicationAcpiTableAddress asserts configuration () = searchRoot asserts t.vendorTable () := by
  have hassert : assert asserts ((some t).isSome = true) () = .ret () () := assert_of (fun _ => rfl) ()
  unfold getSmmCommunicationAcpiTableAddress searchRoot
  rw [h, bind_of_ret hassert]
  dsimp only
  rw [rsdtCount, xsdtCount] <;> rfl

theorem notFound_ret {asserts : Bool} {address : BitVec 64} {u : Unit}
    (h : notFound asserts () = .ret address u) : address = 0 := by
  unfold notFound at h
  obtain ⟨_, _, -, h⟩ := ret_of_bind h
  cases h
  rfl

theorem notFound_inside (asserts : Bool) (u : Unit) : notFound asserts () ≠ .stop .outOfBounds u := by
  cases asserts <;> simp [notFound, assert, Exec.halt, bind, Exec.bind, pure, Exec.pure]

/-- The RSDT lists the table, or the XSDT is not read, or it lists the table among the first of its entries, half
as many as the RSDT has; or neither lists it, and the XSDT has no fewer entries than that. -/
def RootTables.Reached (r : RootTables) : Prop :=
  (∃ a, r.Lists r.rsdtEntries a) ∨ r.revision < 2 ∨ (∃ a, r.Lists (r.xsdt.take (r.rsdt.length / 2)) a) ∨
    (¬ ∃ a, r.Lists r.xsdt a) ∧ r.rsdt.length / 2 ≤ r.xsdt.length

theorem exists_lists_iff {r : RootTables} {entries : List (BitVec 64)} (h : r.Placed entries) :
    (∃ a, r.Lists entries a) ↔ ∃ a ∈ entries, r.hits a = true := by
  simp only [lists_iff h]

theorem no_hits {r : RootTables} {entries : List (BitVec 64)} (h : r.Placed entries) (hno : ¬ ∃ a, r.Lists entries a) :
    ∀ a ∈ entries, r.hits a = false := by
  rw [exists_lists_iff h] at hno
  intro a ha
  exact Bool.eq_false_iff.mpr fun hhit => hno ⟨a, ha, hhit⟩

theorem RootTables.Placed.take {r : RootTables} {entries : List (BitVec 64)} (h : r.Placed entries) (k : Nat) :
    r.Placed (entries.take k) := fun a ha => h a (List.mem_of_mem_take ha)

theorem searchRoot_of_rsdt {r : RootTables} (h : ∃ a, r.Lists r.rsdtEntries a) :
    ∃ a, r.Listed a ∧ searchRoot asserts r () = .ret a () := by
  rw [exists_lists_iff (placed_rsdt r)] at h
  obtain ⟨a, ha, hscan⟩ := scanTables_hit (placed_rsdt r) (k := r.rsdtEntries.length) (by rwa [List.take_length])
  refine ⟨a, .inl ha, ?_⟩
  unfold searchRoot
  rw [bind_of_ret hscan]
  rfl

theorem scan_rsdt_miss {r : RootTables} (h : ¬ ∃ a, r.Lists r.rsdtEntries a) :
    scanTables r r.rsdtEntries r.rsdtEntries.length 0 () = .ret none () := by
  apply scanTables_miss (placed_rsdt r) _ (Nat.le_refl _)
  rw [List.take_length]
  exact no_hits (placed_rsdt r) h

theorem searchRoot_of_revision {r : RootTables} (h : ¬ ∃ a, r.Lists r.rsdtEntries a) (hrev : ¬ r.revision ≥ 2) :
    searchRoot asserts r () = notFound asserts () := by
  unfold searchRoot
  rw [bind_of_ret (scan_rsdt_miss h)]
  simp only [if_neg hrev]

theorem searchRoot_of_hit {r : RootTables} (h : ¬ ∃ a, r.Lists r.rsdtEntries a) (hrev : r.revision ≥ 2)
    (hhit : ∃ a, r.Lists (r.xsdt.take (r.rsdt.length / 2)) a) :
    ∃ a, r.Listed a ∧ searchRoot asserts r () = .ret a () := by
  rw [exists_lists_iff ((placed_xsdt r).take _)] at hhit
  obtain ⟨a, ha, hscan⟩ := scanTables_hit (placed_xsdt r) hhit
  refine ⟨a, .inr ⟨hrev, ha⟩, ?_⟩
  unfold searchRoot
  rw [bind_of_ret (scan_rsdt_miss h)]
  simp only [if_pos hrev]
  rw [bind_of_ret hscan]
  rfl

theorem searchRoot_of_miss {r : RootTables} (h : ¬ ∃ a, r.Lists r.rsdtEntries a) (hrev : r.revision ≥ 2)
    (hno : ¬ ∃ a, r.Lists (r.xsdt.take (r.rsdt.length / 2)) a) (hle : r.rsdt.length / 2 ≤ r.xsdt.length) :
    searchRoot asserts r () = notFound asserts () := by
  have hscan := scanTables_miss (placed_xsdt r) (no_hits ((placed_xsdt r).take _) hno) hle
  unfold searchRoot
  rw [bind_of_ret (scan_rsdt_miss h)]
  simp only [if_pos hrev]
  rw [bind_of_ret hscan]

theorem searchRoot_of_past {r : RootTables} (h : ¬ ∃ a, r.Lists r.rsdtEntries a) (hrev : r.revision ≥ 2)
    (hno : ¬ ∃ a, r.Lists r.xsdt a) (hlt : r.xsdt.length < r.rsdt.length / 2) :
    searchRoot asserts r () = .stop .outOfBounds () := by
  have hscan := scanTables_past (placed_xsdt r) (no_hits (placed_xsdt r) hno) hlt
  unfold searchRoot
  rw [bind_of_ret (scan_rsdt_miss h)]
  simp only [if_pos hrev]
  rw [bind_of_stop hscan]

theorem listed_ne_zero {r : RootTables} {a : BitVec 64} (h : r.Listed a) : a ≠ 0 := by
  rcases h with h | ⟨-, h⟩
  · exact h.2.1
  · exact h.2.1

theorem exact_of_ret (h : configuration.find? (fun t => t.vendorGuid ≠ .other) = some t) {a : BitVec 64}
    (ha : t.vendorTable.Listed a) (hrun : searchRoot asserts t.vendorTable () = .ret a ()) :
    SearchExact asserts configuration t.vendorTable := by
  rw [← search_eq h] at hrun
  constructor
  · intro u hstop
    rw [hrun] at hstop
    cases hstop
  · exact ⟨fun _ => ⟨a, ha⟩, fun _ => ⟨a, listed_ne_zero ha, hrun⟩⟩
  · intro b _ hb
    rw [hrun] at hb
    cases hb
    exact ha

theorem exact_of_notFound (h : configuration.find? (fun t => t.vendorGuid ≠ .other) = some t)
    (hnone : ¬ ∃ a, t.vendorTable.Listed a) (hrun : searchRoot asserts t.vendorTable () = notFound asserts ()) :
    SearchExact asserts configuration t.vendorTable := by
  rw [← search_eq h] at hrun
  constructor
  · intro u
    rw [hrun]
    exact notFound_inside asserts u
  · refine ⟨?_, fun hlisted => absurd hlisted hnone⟩
    rintro ⟨a, hne, ha⟩
    rw [hrun] at ha
    exact absurd (notFound_ret ha) hne
  · intro a hne ha
    rw [hrun] at ha
    exact absurd (notFound_ret ha) hne

theorem reached_of_exact (h : configuration.find? (fun t => t.vendorGuid ≠ .other) = some t)
    (hexact : SearchExact asserts configuration t.vendorTable) : t.vendorTable.Reached := by
  by_cases hrsdt : ∃ a, t.vendorTable.Lists t.vendorTable.rsdtEntries a
  · exact .inl hrsdt
  by_cases hrev : t.vendorTable.revision ≥ 2
  · by_cases hhit : ∃ a, t.vendorTable.Lists (t.vendorTable.xsdt.take (t.vendorTable.rsdt.length / 2)) a
    · exact .inr (.inr (.inl hhit))
    · have hall : ¬ ∃ a, t.vendorTable.Lists t.vendorTable.xsdt a := by
        rintro ⟨a, ha⟩
        have hle : t.vendorTable.rsdt.length / 2 ≤ t.vendorTable.xsdt.length := by
          by_contra hlt
          rw [List.take_of_length_le (by omega)] at hhit
          exact hhit ⟨a, ha⟩
        obtain ⟨b, hne, hb⟩ := hexact.found.mpr ⟨a, .inr ⟨hrev, ha⟩⟩
        rw [search_eq h, searchRoot_of_miss hrsdt hrev hhit hle] at hb
        exact hne (notFound_ret hb)
      refine .inr (.inr (.inr ⟨hall, ?_⟩))
      by_contra hlt
      apply hexact.inside ()
      rw [search_eq h]
      exact searchRoot_of_past hrsdt hrev hall (by omega)
  · exact .inr (.inl (BitVec.not_le.mp hrev))

theorem exact_of_reached (h : configuration.find? (fun t => t.vendorGuid ≠ .other) = some t)
    (hreached : t.vendorTable.Reached) : SearchExact asserts configuration t.vendorTable := by
  by_cases hrsdt : ∃ a, t.vendorTable.Lists t.vendorTable.rsdtEntries a
  · obtain ⟨a, ha, hrun⟩ := @searchRoot_of_rsdt asserts _ hrsdt
    exact exact_of_ret h ha hrun
  by_cases hrev : t.vendorTable.revision ≥ 2
  · rcases hreached with hin | hlow | hhit | ⟨hnone, hle⟩
    · exact absurd hin hrsdt
    · exact absurd hrev (BitVec.not_le.mpr hlow)
    · obtain ⟨a, ha, hrun⟩ := @searchRoot_of_hit asserts _ hrsdt hrev hhit
      exact exact_of_ret h ha hrun
    · have htake : ¬ ∃ a, t.vendorTable.Lists (t.vendorTable.xsdt.take (t.vendorTable.rsdt.length / 2)) a := by
        rintro ⟨a, hmem, ha⟩
        exact hnone ⟨a, List.mem_of_mem_take hmem, ha⟩
      apply exact_of_notFound h
      · rintro ⟨a, hin | ⟨-, hin⟩⟩
        · exact hrsdt ⟨a, hin⟩
        · exact hnone ⟨a, hin⟩
      · exact searchRoot_of_miss hrsdt hrev htake hle
  · apply exact_of_notFound h
    · rintro ⟨a, hin | ⟨hrev', -⟩⟩
      · exact hrsdt ⟨a, hin⟩
      · exact hrev hrev'
    · exact searchRoot_of_revision hrsdt hrev

/-- The search is exact if and only if `Reached` holds of the tables. -/
theorem getSmmCommunicationAcpiTableAddress_exact_iff (asserts : Bool)
    (h : configuration.find? (fun t => t.vendorGuid ≠ .other) = some t) :
    SearchExact asserts configuration t.vendorTable ↔ t.vendorTable.Reached :=
  ⟨reached_of_exact h, exact_of_reached h⟩

/-- An RSDT with two tables, and an XSDT that has the communication table at `place`. -/
def twoTables (xsdt : List (BitVec 64)) (hlength : xsdt.length = 2) (h : ∀ a ∈ xsdt, a = 0x1000 ∨ a = 0x2000) :
    RootTables where
  revision := 2
  rsdtLength := 44
  rsdt := [0x1000, 0x1000]
  xsdtLength := 52
  xsdt := xsdt
  tableAt a :=
    if a = 0x1000 then some ⟨0x50434146, 244, 0⟩
    else if a = 0x2000 then some ⟨uefiAcpiDataTableSignature, communicationTableSize, gEfiSmmCommunicationProtocolGuid⟩
    else none
  rsdtLength_eq := rfl
  xsdtLength_eq := by rw [hlength]; rfl
  xsdt_lt := by
    intro a ha
    rcases h a ha with rfl | rfl <;> simp
  rsdt_tables := by
    intro a ha _
    have hfirst : a = 0x1000 := by simpa using ha
    subst hfirst
    rfl
  xsdt_tables := by
    intro a ha _
    rcases h a ha with rfl | rfl <;> rfl

theorem getSmmCommunicationAcpiTableAddress_exact_first_entry :
    SearchExact true [⟨.acpi20, twoTables [0x2000, 0x1000] rfl (by simp)⟩]
      (twoTables [0x2000, 0x1000] rfl (by simp)) := by
  have hfind : [(⟨.acpi20, twoTables [0x2000, 0x1000] rfl (by simp)⟩ : ConfigurationTable)].find?
      (fun t => t.vendorGuid ≠ .other) = some ⟨.acpi20, twoTables [0x2000, 0x1000] rfl (by simp)⟩ := rfl
  rw [getSmmCommunicationAcpiTableAddress_exact_iff true hfind]
  refine .inr (.inr (.inl ⟨0x2000, ?_, by decide, _, rfl, by decide⟩))
  exact List.mem_cons_self

/-- As the second entry of the XSDT the table is not found: the count of the scan is 1. -/
theorem getSmmCommunicationAcpiTableAddress_misses_second_entry :
    ¬ SearchExact true [⟨.acpi20, twoTables [0x1000, 0x2000] rfl (by simp)⟩]
      (twoTables [0x1000, 0x2000] rfl (by simp)) := by
  intro hexact
  have hfind : [(⟨.acpi20, twoTables [0x1000, 0x2000] rfl (by simp)⟩ : ConfigurationTable)].find?
      (fun t => t.vendorGuid ≠ .other) = some ⟨.acpi20, twoTables [0x1000, 0x2000] rfl (by simp)⟩ := rfl
  have hlisted : (twoTables [0x1000, 0x2000] rfl (by simp)).Listed 0x2000 :=
    .inr ⟨by decide, by simp [twoTables], by decide, _, rfl, by decide⟩
  obtain ⟨a, hne, ha⟩ := hexact.found.mpr ⟨_, hlisted⟩
  have hrun : getSmmCommunicationAcpiTableAddress true
      [⟨.acpi20, twoTables [0x1000, 0x2000] rfl (by simp)⟩] () = .stop .deadLoop () := by
    rw [search_eq hfind]
    rfl
  rw [hrun] at ha
  cases ha

end

end Quark.Acpi
