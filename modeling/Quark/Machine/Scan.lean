import Mathlib.Data.List.Basic

/-!
# A scan with a count

An array is searched from an index on, for as many entries as a count says. The count need not fit the
array: then the scan may go past its end before it has found anything.
-/

namespace Quark.Machine

/-- How a scan ends. -/
inductive Scanned (α : Type) where
  | hit (index : Nat) (a : α)
  | miss
  | past

/-- Search `k` entries from an index on. -/
def scan {α : Type} (p : α → Bool) (entries : List α) : Nat → Nat → Scanned α
  | 0, _ => .miss
  | k + 1, index =>
    match entries[index]? with
    | none => .past
    | some a => if p a then .hit index a else scan p entries k (index + 1)

variable {α : Type} {p : α → Bool} {entries : List α}

theorem scan_succ_none (k : Nat) {index : Nat} (h : entries[index]? = none) : scan p entries (k + 1) index = .past := by
  rw [scan, h]

theorem scan_succ_some (k : Nat) {index : Nat} {a : α} (h : entries[index]? = some a) :
    scan p entries (k + 1) index = if p a then .hit index a else scan p entries k (index + 1) := by
  rw [scan, h]

theorem scan_hit : ∀ (k index : Nat), (∃ a ∈ (entries.drop index).take k, p a = true) →
    ∃ found a, scan p entries k index = .hit found a ∧ found < index + k ∧ entries[found]? = some a ∧ p a = true := by
  intro k
  induction k with
  | zero =>
    rintro index ⟨a, ha, -⟩
    simp at ha
  | succ k ih =>
    rintro index ⟨a, ha, hp⟩
    cases hread : entries[index]? with
    | none =>
      rw [List.drop_eq_nil_of_le (List.getElem?_eq_none_iff.mp hread)] at ha
      cases ha
    | some b =>
      rw [scan_succ_some k hread]
      by_cases hb : p b = true
      · exact ⟨index, b, if_pos hb, by omega, hread, hb⟩
      · obtain ⟨hlt, hget⟩ := List.getElem?_eq_some_iff.mp hread
        rw [List.drop_eq_getElem_cons hlt, List.take_succ_cons, hget, List.mem_cons] at ha
        rcases ha with rfl | ha
        · exact absurd hp hb
        · obtain ⟨found, c, hscan, hfound, hentry, hc⟩ := ih (index + 1) ⟨a, ha, hp⟩
          exact ⟨found, c, by rw [if_neg hb, hscan], by omega, hentry, hc⟩

theorem scan_miss : ∀ (k index : Nat), (∀ a ∈ (entries.drop index).take k, p a = false) →
    index + k ≤ entries.length → scan p entries k index = .miss := by
  intro k
  induction k with
  | zero => intro index _ _; rfl
  | succ k ih =>
    intro index h hle
    have hlt : index < entries.length := by omega
    rw [List.drop_eq_getElem_cons hlt, List.take_succ_cons, List.forall_mem_cons] at h
    rw [scan_succ_some k (List.getElem?_eq_getElem hlt), h.1, if_neg Bool.false_ne_true]
    exact ih (index + 1) h.2 (by omega)

theorem scan_past : ∀ (k index : Nat), (∀ a ∈ entries.drop index, p a = false) → index ≤ entries.length →
    entries.length < index + k → scan p entries k index = .past := by
  intro k
  induction k with
  | zero => intro index _ _ _; omega
  | succ k ih =>
    intro index h hle hlong
    by_cases hlt : index < entries.length
    · rw [List.drop_eq_getElem_cons hlt, List.forall_mem_cons] at h
      rw [scan_succ_some k (List.getElem?_eq_getElem hlt), h.1, if_neg Bool.false_ne_true]
      exact ih (index + 1) h.2 (by omega) (by omega)
    · exact scan_succ_none k (List.getElem?_eq_none_iff.mpr (by omega))

end Quark.Machine
