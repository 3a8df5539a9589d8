import Quark.Library.PlatformVariables

/-!
# The search of a table of variables

Which entry `PlatformFindVariableTableEntry` returns, for each of the ways in which it is asked.
-/

namespace Quark.PlatformHelper

open Machine Bds

/-- A pointer into a table is one to the given entry, and it is `NULL` only if the table does not have the
entry. -/
structure PointsAt (table : List VariableTableEntry) (entry : VariableTableEntry) (p : Option Nat) :
    Prop where
  get : ∀ i, p = some i → table[i]? = some entry
  absent : p = none → entry ∉ table

/-- The search has found the entry with the GUID and the name, and the entry for all variables of the
vendor if it is asked for. Without a name these are the same. -/
structure LookupExact (table : List VariableTableEntry) (vendorGuid : BitVec 128)
    (variableName : Option (List Char16)) (r : Option Nat × Option (Option Nat)) : Prop where
  found : PointsAt table ⟨vendorGuid, variableName⟩ r.1
  vendorGlobal : ∀ g, r.2 = some g → PointsAt table ⟨vendorGuid, none⟩ g
  same : variableName = none → ∀ g, r.2 = some g → g = r.1

namespace PointsAt

variable {pre rest : List VariableTableEntry} {e entry : VariableTableEntry} {p : Option Nat}

theorem nil : PointsAt [] e none := ⟨fun _ h => (nomatch h), fun _ => List.not_mem_nil⟩

theorem other (h : PointsAt pre e p) (hne : entry ≠ e) : PointsAt (pre ++ [entry]) e p := by
  refine ⟨fun i hi => ?_, fun hp hmem => ?_⟩
  · have hget := h.get i hi
    have hlt : i < pre.length := (List.getElem?_eq_some_iff.mp hget).1
    rw [List.getElem?_append_left hlt]
    exact hget
  · rcases List.mem_append.mp hmem with hmem | hmem
    · exact h.absent hp hmem
    · exact hne (List.mem_singleton.mp hmem).symm

theorem here (pre rest : List VariableTableEntry) (e : VariableTableEntry) :
    PointsAt (pre ++ e :: rest) e (some pre.length) := by
  refine ⟨fun i hi => ?_, fun h => (nomatch h)⟩
  cases hi
  rw [List.getElem?_append_right (Nat.le_refl _), Nat.sub_self]
  rfl

theorem append (h : PointsAt pre e p) (hp : p ≠ none) (rest : List VariableTableEntry) :
    PointsAt (pre ++ rest) e p := by
  refine ⟨fun i hi => ?_, fun hnone => absurd hnone hp⟩
  have hget := h.get i hi
  have hlt : i < pre.length := (List.getElem?_eq_some_iff.mp hget).1
  rw [List.getElem?_append_left hlt]
  exact hget

end PointsAt

section

variable (wantsGlobal : Bool) (vendorGuid : BitVec 128) (name : List Char16)

theorem findEntries_cons (variableName : Option (List Char16)) (index : Nat) (entry : VariableTableEntry)
    (table : List VariableTableEntry) (l : FindLocals) :
    findEntries wantsGlobal vendorGuid variableName index (entry :: table) l =
      match findEntryBody wantsGlobal vendorGuid variableName index entry l with
      | .inr l => l
      | .inl l => findEntries wantsGlobal vendorGuid variableName (index + 1) table l := rfl

theorem findEntries_both (rest pre : List VariableTableEntry) (l : FindLocals)
    (hfound : PointsAt pre ⟨vendorGuid, some name⟩ l.found)
    (hglobal : PointsAt pre ⟨vendorGuid, none⟩ l.vendorGlobal) :
    let r := findEntries true vendorGuid (some name) pre.length rest l
    PointsAt (pre ++ rest) ⟨vendorGuid, some name⟩ r.found ∧
      PointsAt (pre ++ rest) ⟨vendorGuid, none⟩ r.vendorGlobal := by
  induction rest generalizing pre l with
  | nil =>
    rw [List.append_nil]
    exact ⟨hfound, hglobal⟩
  | cons entry rest ih =>
    have hnext := ih (pre ++ [entry])
    rw [List.length_append, List.append_assoc] at hnext
    obtain ⟨guid, variableName⟩ := entry
    dsimp only
    rw [findEntries_cons]
    unfold findEntryBody
    by_cases hguid : guid = vendorGuid
    · rw [if_pos hguid]
      subst hguid
      cases variableName with
      | none =>
        rw [if_pos (.inl rfl), if_pos ⟨rfl, rfl⟩]
        have hother : PointsAt (pre ++ [⟨guid, none⟩]) ⟨guid, some name⟩ l.found :=
          hfound.other (by simp)
        by_cases hf : l.found ≠ none
        · rw [if_pos hf]
          exact ⟨hfound.append hf _, .here pre rest _⟩
        · rw [if_neg hf, if_neg (by simp)]
          exact hnext _ hother (.here pre [] _)
      | some found =>
        rw [if_neg (by simp)]
        by_cases hname : found = name
        · subst hname
          rw [if_pos rfl, if_pos rfl]
          exact hnext _ (.here pre [] _) (hglobal.other (by simp))
        · rw [if_neg (by simpa using hname)]
          exact hnext _ (hfound.other (by simpa using hname)) (hglobal.other (by simp))
    · rw [if_neg hguid]
      exact hnext _ (hfound.other (by simp [hguid])) (hglobal.other (by simp [hguid]))

theorem findEntries_named (rest pre : List VariableTableEntry) (l : FindLocals)
    (hfound : PointsAt pre ⟨vendorGuid, some name⟩ l.found) :
    PointsAt (pre ++ rest) ⟨vendorGuid, some name⟩
      (findEntries false vendorGuid (some name) pre.length rest l).found := by
  induction rest generalizing pre l with
  | nil =>
    rw [List.append_nil]
    exact hfound
  | cons entry rest ih =>
    have hnext := ih (pre ++ [entry])
    rw [List.length_append, List.append_assoc] at hnext
    obtain ⟨guid, variableName⟩ := entry
    rw [findEntries_cons]
    unfold findEntryBody
    by_cases hguid : guid = vendorGuid
    · rw [if_pos hguid]
      subst hguid
      cases variableName with
      | none =>
        rw [if_pos (.inl rfl), if_neg (by simp), if_neg (by simp)]
        exact hnext _ (hfound.other (by simp))
      | some found =>
        rw [if_neg (by simp)]
        by_cases hname : found = name
        · subst hname
          rw [if_pos rfl, if_neg (by decide)]
          exact .here pre rest _
        · rw [if_neg (by simpa using hname)]
          exact hnext _ (hfound.other (by simpa using hname))
    · rw [if_neg hguid]
      exact hnext _ (hfound.other (by simp [hguid]))

def firstOfVendor (vendorGuid : BitVec 128) (table : List VariableTableEntry) :
    Option VariableTableEntry :=
  table.find? fun e => e.vendorGuid = vendorGuid

theorem findEntries_unnamed (rest pre : List VariableTableEntry) :
    let r := findEntries wantsGlobal vendorGuid none pre.length rest ⟨none, none⟩
    match firstOfVendor vendorGuid rest with
    | none => r = ⟨none, none⟩
    | some e => e.vendorGuid = vendorGuid ∧ ∃ i, (pre ++ rest)[i]? = some e ∧
        r = ⟨some i, if e.variableName = none ∧ wantsGlobal = true then some i else none⟩ := by
  induction rest generalizing pre with
  | nil => rfl
  | cons entry rest ih =>
    have hnext := ih (pre ++ [entry])
    rw [List.length_append, List.append_assoc] at hnext
    dsimp only
    rw [findEntries_cons]
    unfold findEntryBody firstOfVendor
    by_cases hguid : entry.vendorGuid = vendorGuid
    · rw [List.find?_cons_of_pos (by simpa using hguid), if_pos hguid, if_pos (.inr rfl)]
      refine ⟨hguid, pre.length, (PointsAt.here pre rest entry).get _ rfl, ?_⟩
      by_cases hglobal : entry.variableName = none ∧ wantsGlobal = true
      · rw [if_pos hglobal, if_pos hglobal]
        rfl
      · rw [if_neg hglobal, if_neg hglobal]
        rfl
    · rw [List.find?_cons_of_neg (by simpa using hguid), if_neg hguid]
      exact hnext

end

/-- The search is exact unless it is asked for the entry of a vendor, and a variable of the vendor comes
first in the table. -/
theorem platformFindVariableTableEntry_exact_iff (table : List VariableTableEntry)
    (vendorGuid : BitVec 128) (variableName : Option (List Char16))
    (vendorGlobalEntryPtr : Option (Option Nat)) :
    LookupExact table vendorGuid variableName
      (platformFindVariableTableEntry (some table) (some vendorGuid) variableName
        vendorGlobalEntryPtr) ↔
      (variableName = none →
        ∀ e, firstOfVendor vendorGuid table = some e → e.variableName = none) := by
  unfold platformFindVariableTableEntry
  cases variableName with
  | some name =>
    refine ⟨fun _ h => (nomatch h), fun _ => ?_⟩
    cases vendorGlobalEntryPtr with
    | none =>
      refine ⟨findEntries_named vendorGuid name table [] ⟨none, none⟩ .nil, fun g hg => ?_, fun h => (nomatch h)⟩
      cases hg
    | some old =>
      obtain ⟨hfound, hglobal⟩ := findEntries_both vendorGuid name table [] ⟨none, none⟩ .nil .nil
      refine ⟨hfound, fun g hg => ?_, fun h => (nomatch h)⟩
      cases hg
      exact hglobal
  | none =>
    have hsearch := findEntries_unnamed vendorGlobalEntryPtr.isSome vendorGuid table []
    have hglobalEntry : ∀ e : VariableTableEntry, e.vendorGuid = vendorGuid → e.variableName = none →
        e = ⟨vendorGuid, none⟩ := by
      rintro ⟨guid, name⟩ rfl rfl
      rfl
    dsimp only at hsearch ⊢
    cases hfirst : firstOfVendor vendorGuid table with
    | none =>
      rw [hfirst] at hsearch
      refine ⟨fun _ _ e he => (nomatch he), fun _ => ?_⟩
      have hnot : (⟨vendorGuid, none⟩ : VariableTableEntry) ∉ table := by
        intro hmem
        have hall := List.find?_eq_none.mp hfirst _ hmem
        simp at hall
      have hnull : PointsAt table ⟨vendorGuid, none⟩ none := ⟨fun _ h => (nomatch h), fun _ => hnot⟩
      rw [show findEntries vendorGlobalEntryPtr.isSome vendorGuid none 0 table ⟨none, none⟩ =
        ⟨none, none⟩ from hsearch]
      refine ⟨hnull, fun g hg => ?_, fun _ g hg => ?_⟩
      · cases vendorGlobalEntryPtr with
        | none => cases hg
        | some old =>
          cases hg
          exact hnull
      · cases vendorGlobalEntryPtr with
        | none => cases hg
        | some old =>
          cases hg
          rfl
    | some e =>
      rw [hfirst] at hsearch
      obtain ⟨hguid, i, hget, hr⟩ := hsearch
      rw [List.nil_append] at hget
      rw [show findEntries vendorGlobalEntryPtr.isSome vendorGuid none 0 table ⟨none, none⟩ = _ from hr]
      constructor
      · intro hexact _ e' he'
        cases he'
        have hfound := hexact.found.get i rfl
        rw [hget] at hfound
        cases hfound
        rfl
      · intro hcond
        have hname := hcond rfl e rfl
        have he := hglobalEntry e hguid hname
        rw [he] at hget
        have hpoints : PointsAt table ⟨vendorGuid, none⟩ (some i) :=
          ⟨fun j hj => by cases hj; exact hget, fun h => (nomatch h)⟩
        refine ⟨hpoints, fun g hg => ?_, fun _ g hg => ?_⟩
        · cases vendorGlobalEntryPtr with
          | none => cases hg
          | some old =>
            cases hg
            rw [if_pos ⟨hname, rfl⟩]
            exact hpoints
        · cases vendorGlobalEntryPtr with
          | none => cases hg
          | some old =>
            cases hg
            exact if_pos ⟨hname, rfl⟩

/-- A table with one variable of a vendor, and no entry for all of its variables: the search for that entry
returns the variable. -/
theorem platformFindVariableTableEntry_not_exact :
    ∃ table vendorGuid, ¬ LookupExact table vendorGuid none
      (platformFindVariableTableEntry (some table) (some vendorGuid) none none) := by
  refine ⟨[⟨gEfiGlobalVariableGuid, some (wide ['P', 'K'])⟩], gEfiGlobalVariableGuid, fun h => ?_⟩
  have hfound := h.found.get 0 (by decide)
  cases hfound

/-! ## The scan for the variables of a table

The scan takes a failing call for a variable that is not in the table. It comes to its end exactly if the
names up to the first match fit into its buffer and enough calls are answered.
-/

open Machine Bds Exec

/-! ## Looking up a variable -/

theorem PointsAt.ne_none_iff {table : List VariableTableEntry} {entry : VariableTableEntry} {p : Option Nat}
    (h : PointsAt table entry p) : p ≠ none ↔ entry ∈ table := by
  refine ⟨fun hp => ?_, fun hmem hp => h.absent hp hmem⟩
  obtain ⟨i, hi⟩ := Option.ne_none_iff_exists'.mp hp
  exact List.mem_of_getElem? (h.get i hi)

theorem platformFindVariableTableEntry_iff (id : VariableId) (table : List VariableTableEntry) :
    ((platformFindVariableTableEntry (some table) (some id.vendorGuid) (some id.name) (some none)).1 ≠ none ∨
      (platformFindVariableTableEntry (some table) (some id.vendorGuid) (some id.name) (some none)).2 ≠
        some none) ↔ InTable table id := by
  obtain ⟨hfound, hglobal⟩ := findEntries_both id.vendorGuid id.name table [] ⟨none, none⟩ .nil .nil
  have hboth := or_congr hfound.ne_none_iff hglobal.ne_none_iff
  refine Iff.trans ?_ (hboth.trans ⟨?_, ?_⟩)
  · exact or_congr Iff.rfl (not_congr Option.some_inj)
  · rintro (h | h)
    · exact ⟨_, h, rfl, .inr rfl⟩
    · exact ⟨_, h, rfl, .inl rfl⟩
  · rintro ⟨⟨guid, name⟩, hmem, hguid, hname⟩
    cases hguid
    rcases hname with hname | hname
    · cases hname
      exact .inr hmem
    · cases hname
      exact .inl hmem

/-! ## One pass -/

section

variable {faults : Faults} {table : List VariableTableEntry} {calls : Nat} {ids : List VariableId}

theorem scanBody_fault (hfault : faults calls ≠ none) :
    scanBody faults table () ⟨ids, calls⟩ = .ret (.inl ()) ⟨ids, calls + 1⟩ := by
  obtain ⟨status, hstatus⟩ := Option.ne_none_iff_exists'.mp hfault
  have hcall : nextVariableName faults efiPageSize ⟨ids, calls⟩ =
      .ret (.error status.val) ⟨ids, calls + 1⟩ := by
    simp only [nextVariableName, bind, Exec.bind, Exec.get, Exec.modify, hstatus]
    rfl
  refine (bind_of_ret hcall).trans ?_
  exact congrFun (if_neg status.property.2) _

theorem scanBody_end (hanswer : faults calls = none) :
    scanBody faults table () ⟨[], calls⟩ = .ret (.inr false) ⟨[], calls + 1⟩ := by
  have hcall : nextVariableName faults efiPageSize ⟨[], calls⟩ =
      .ret (.error .notFound) ⟨[], calls + 1⟩ := by
    simp only [nextVariableName, bind, Exec.bind, Exec.get, Exec.modify, hanswer]
    rfl
  exact (bind_of_ret hcall).trans rfl

theorem scanBody_tooSmall (table : List VariableTableEntry) {id : VariableId} (ids : List VariableId)
    (hanswer : faults calls = none)
    (hsize : efiPageSize < strSize id.name) :
    scanBody faults table () ⟨id :: ids, calls⟩ = .ret (.inl ()) ⟨id :: ids, calls + 1⟩ := by
  have hcall : nextVariableName faults efiPageSize ⟨id :: ids, calls⟩ =
      .ret (.error .bufferTooSmall) ⟨id :: ids, calls + 1⟩ := by
    simp only [nextVariableName, bind, Exec.bind, Exec.get, Exec.modify, hanswer]
    exact congrFun (if_pos hsize) _
  exact (bind_of_ret hcall).trans rfl

theorem scanBody_next (table : List VariableTableEntry) {id : VariableId} (ids : List VariableId)
    (hanswer : faults calls = none)
    (hsize : strSize id.name ≤ efiPageSize) :
    scanBody faults table () ⟨id :: ids, calls⟩ =
      .ret (if InTable table id then .inr true else .inl ()) ⟨ids, calls + 1⟩ := by
  have hcall : nextVariableName faults efiPageSize ⟨id :: ids, calls⟩ = .ret (.ok id) ⟨ids, calls + 1⟩ := by
    simp only [nextVariableName, bind, Exec.bind, Exec.get, Exec.modify, hanswer]
    exact congrFun (if_neg (Nat.not_lt.mpr hsize)) _
  refine (bind_of_ret hcall).trans ?_
  have hfind := platformFindVariableTableEntry_iff id table
  by_cases htable : InTable table id
  · rw [if_pos htable]
    exact congrFun (if_pos (hfind.mpr htable)) _
  · rw [if_neg htable]
    exact congrFun (if_neg (mt hfind.mp htable)) _

/-! ## The whole scan -/

theorem scanServed_cons {id : VariableId} (htable : ¬ InTable table id) :
    ScanServed faults table calls (id :: ids) ↔ strSize id.name ≤ efiPageSize ∧
      (∀ id ∈ upToMatch table ids, strSize id.name ≤ efiPageSize) ∧
      ∃ n, answersNeeded table ids + 1 ≤ answered faults calls n := by
  have hup : upToMatch table (id :: ids) = id :: upToMatch table ids := if_neg htable
  have hneeded : answersNeeded table (id :: ids) = answersNeeded table ids + 1 := if_neg htable
  refine ⟨fun h => ?_, fun h => ⟨?_, ?_⟩⟩
  · obtain ⟨hfits, hanswers⟩ := h
    rw [hup, List.forall_mem_cons] at hfits
    rw [hneeded] at hanswers
    exact ⟨hfits.1, hfits.2, hanswers⟩
  · rw [hup, List.forall_mem_cons]
    exact ⟨h.1, h.2.1⟩
  · rw [hneeded]
    exact h.2.2

theorem answersNeeded_pos (table : List VariableTableEntry) (ids : List VariableId) :
    0 < answersNeeded table ids := by
  cases ids with
  | nil => exact Nat.one_pos
  | cons id ids =>
    unfold answersNeeded
    split
    · exact Nat.one_pos
    · exact Nat.succ_pos _

theorem answered_succ (hanswer : faults calls = none) (n : Nat) :
    answered faults calls (n + 1) = answered faults (calls + 1) n + 1 := by
  rw [answered, if_pos hanswer, Nat.add_comm]

theorem answered_fault (hfault : faults calls ≠ none) (n : Nat) :
    answered faults calls (n + 1) = answered faults (calls + 1) n := by
  rw [answered, if_neg hfault, Nat.zero_add]

theorem ScanServed.fault_iff (hfault : faults calls ≠ none) :
    ScanServed faults table calls ids ↔ ScanServed faults table (calls + 1) ids := by
  refine ⟨fun h => ⟨h.fits, ?_⟩, fun h => ⟨h.fits, ?_⟩⟩
  · obtain ⟨n, hn⟩ := h.answers
    cases n with
    | zero => exact absurd hn (Nat.not_le.mpr (answersNeeded_pos table ids))
    | succ n => exact ⟨n, answered_fault hfault n ▸ hn⟩
  · obtain ⟨n, hn⟩ := h.answers
    exact ⟨n + 1, (answered_fault hfault n).symm ▸ hn⟩

theorem scanServed_of_ret (fuel : Nat) {r : Bool} {s : Enumeration}
    (hrun : Exec.loop fuel (scanBody faults table) () ⟨ids, calls⟩ = .ret r s) :
    ScanServed faults table calls ids := by
  induction fuel generalizing ids calls with
  | zero => cases hrun
  | succ fuel ih =>
    by_cases hanswer : faults calls = none
    · cases ids with
      | nil =>
        refine ⟨nofun, 1, ?_⟩
        rw [answered_succ hanswer 0]
        exact Nat.le_add_left 1 _
      | cons id ids =>
        by_cases hsize : strSize id.name ≤ efiPageSize
        · have hbody := scanBody_next table ids hanswer hsize
          by_cases htable : InTable table id
          · refine ⟨?_, 1, ?_⟩
            · rw [upToMatch, if_pos htable, List.forall_mem_singleton]
              exact hsize
            · rw [answersNeeded, if_pos htable, answered_succ hanswer 0]
              exact Nat.le_add_left 1 _
          · rw [if_neg htable] at hbody
            rw [loop_of_inl hbody] at hrun
            obtain ⟨hfits, n, hn⟩ := ih hrun
            refine (scanServed_cons htable).mpr ⟨hsize, hfits, n + 1, ?_⟩
            rw [answered_succ hanswer]
            exact Nat.succ_le_succ hn
        · -- the scan does not get past a name that is too long
          have hbody := scanBody_tooSmall table ids hanswer (Nat.not_le.mp hsize)
          rw [loop_of_inl hbody] at hrun
          have hfits := (ih hrun).fits
          refine absurd (hfits id ?_) hsize
          unfold upToMatch
          split
          · exact List.mem_singleton_self id
          · exact List.mem_cons_self
    · rw [loop_of_inl (scanBody_fault hanswer)] at hrun
      exact (ScanServed.fault_iff hanswer).mpr (ih hrun)

theorem ScanServed.decides (n : Nat) (hfits : ∀ id ∈ upToMatch table ids, strSize id.name ≤ efiPageSize)
    (hn : answersNeeded table ids ≤ answered faults calls n) :
    ∃ r s, Exec.loop n (scanBody faults table) () ⟨ids, calls⟩ = .ret r s ∧
      (r = true ↔ ∃ id ∈ ids, InTable table id) := by
  induction n generalizing ids calls with
  | zero => exact absurd hn (Nat.not_le.mpr (answersNeeded_pos table ids))
  | succ n ih =>
    by_cases hanswer : faults calls = none
    · rw [answered_succ hanswer] at hn
      cases ids with
      | nil => exact ⟨false, _, loop_of_inr (scanBody_end hanswer) n, by simp⟩
      | cons id ids =>
        by_cases htable : InTable table id
        · have hsize : strSize id.name ≤ efiPageSize :=
            hfits id (by rw [upToMatch, if_pos htable]; exact List.mem_singleton_self id)
          have hbody := scanBody_next table ids hanswer hsize
          rw [if_pos htable] at hbody
          exact ⟨true, _, loop_of_inr hbody n, iff_of_true rfl ⟨id, List.mem_cons_self, htable⟩⟩
        · have hup : upToMatch table (id :: ids) = id :: upToMatch table ids := if_neg htable
          have hneeded : answersNeeded table (id :: ids) = answersNeeded table ids + 1 := if_neg htable
          rw [hup, List.forall_mem_cons] at hfits
          rw [hneeded] at hn
          have hbody := scanBody_next table ids hanswer hfits.1
          rw [if_neg htable] at hbody
          obtain ⟨r, s, hrun, hr⟩ := ih hfits.2 (Nat.le_of_succ_le_succ hn)
          refine ⟨r, s, (loop_of_inl hbody n).trans hrun, hr.trans ?_⟩
          simp [htable]
    · rw [answered_fault hanswer] at hn
      obtain ⟨r, s, hrun, hr⟩ := ih hfits hn
      exact ⟨r, s, (loop_of_inl (scanBody_fault hanswer) n).trans hrun, hr⟩

end

theorem scanDecides_iff (faults : Faults) (table : List VariableTableEntry) (ids : List VariableId) :
    ScanDecides faults table ids ↔ ScanServed faults table 0 ids := by
  constructor
  · rintro ⟨fuel, r, s, hrun, -⟩
    exact scanServed_of_ret fuel hrun
  · rintro ⟨hfits, n, hn⟩
    obtain ⟨r, s, hrun, hr⟩ := ScanServed.decides n hfits hn
    exact ⟨n, r, s, hrun, hr⟩

def nameOfLength (n : Nat) : VariableId := global (List.replicate n 0x41#16)

theorem strSize_nameOfLength (n : Nat) : strSize (nameOfLength n).name = 2 * (n + 1) :=
  congrArg (fun k => 2 * (k + 1)) List.length_replicate

/-- A name of 2048 characters does not fit into a page with its zero, and the scan never ends, although every
call is answered. -/
theorem scan_not_decides : ¬ ScanDecides (fun _ => none) [] [nameOfLength 2048] := by
  rintro ⟨fuel, r, s, hrun, -⟩
  have hsize := (scanServed_of_ret fuel hrun).fits (nameOfLength 2048) List.mem_cons_self
  rw [strSize_nameOfLength] at hsize
  exact absurd hsize (by decide)

end Quark.PlatformHelper
