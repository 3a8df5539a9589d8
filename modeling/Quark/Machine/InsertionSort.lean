import Mathlib.Data.List.Basic
import Mathlib.Data.List.Induction
import Mathlib.Data.List.Perm.Basic
import Mathlib.Order.Defs.Unbundled
import Mathlib.Tactic.Common

/-!
# Insertion sort

An entry is put into the sorted front part of a table: from behind the front part on, larger entries
move up by one place until its own place is found.

A list is sorted by putting each of its entries in front of the first larger one. For a strict weak order
this is a stable sort: equivalent entries keep their order.
-/

namespace Quark.Machine

variable {α : Type} (key : α → Nat)

/-- Put `x` into the table at `pos` or before it. -/
def shiftInsert (x : α) : Nat → List α → List α
  | 0, table => table.set 0 x
  | pos + 1, table =>
    match table[pos]? with
    | none => table
    | some y =>
      if key x < key y then shiftInsert x pos (table.set (pos + 1) y) else table.set (pos + 1) x

theorem shiftInsert_spec (x : α) (front : List α) (y : α) (rest : List α)
    (hsorted : front.Pairwise fun a b => key a ≤ key b) :
    ∃ front' : List α, shiftInsert key x front.length (front ++ y :: rest) = front' ++ rest ∧
      front'.Perm (x :: front) ∧ front'.Pairwise fun a b => key a ≤ key b := by
  induction front using List.reverseRecOn generalizing y rest with
  | nil => exact ⟨[x], rfl, List.Perm.refl _, List.pairwise_singleton _ x⟩
  | append_singleton front z ih =>
    obtain ⟨hfront, -, hz⟩ := List.pairwise_append.mp hsorted
    have hz : ∀ a ∈ front, key a ≤ key z := fun a ha => hz a ha z (List.mem_singleton_self z)
    have hget : (front ++ [z] ++ y :: rest)[front.length]? = some z := by simp
    have hset (v : α) : (front ++ [z] ++ y :: rest).set (front.length + 1) v
        = front ++ [z] ++ v :: rest := by simp
    rw [List.length_append, List.length_singleton, shiftInsert, hget]
    dsimp only
    rw [hset, hset]
    split
    · rename_i hlt
      obtain ⟨front', heq, hperm, hsorted'⟩ := ih z (z :: rest) hfront
      refine ⟨front' ++ [z], ?_, ?_, ?_⟩
      · rw [List.append_assoc, List.append_assoc, List.singleton_append, heq]
        rfl
      · rw [← List.cons_append]
        exact hperm.append_right [z]
      · refine List.pairwise_append.mpr ⟨hsorted', List.pairwise_singleton _ z, ?_⟩
        intro a ha b hb
        rw [List.mem_singleton.mp hb]
        rcases List.mem_cons.mp (hperm.mem_iff.mp ha) with rfl | ha
        · exact Nat.le_of_lt hlt
        · exact hz a ha
    · rename_i hge
      refine ⟨front ++ [z] ++ [x], ?_, ?_, ?_⟩
      · rw [List.append_assoc (front ++ [z])]
        rfl
      · exact List.perm_append_singleton x _
      · refine List.pairwise_append.mpr ⟨hsorted, List.pairwise_singleton _ x, ?_⟩
        intro a ha b hb
        rw [List.mem_singleton.mp hb]
        rcases List.mem_append.mp ha with ha | ha
        · exact Nat.le_trans (hz a ha) (Nat.le_of_not_lt hge)
        · rw [List.mem_singleton.mp ha]
          exact Nat.le_of_not_lt hge

/-! ## Stable sorting -/

/-- Put `x` in front of the first entry that it is less than. -/
def insertBefore (lt : α → α → Bool) (x : α) : List α → List α
  | [] => [x]
  | y :: table => if lt x y then x :: y :: table else y :: insertBefore lt x table

section

variable {lt : α → α → Bool}

theorem insertBefore_perm (x : α) (table : List α) : (insertBefore lt x table).Perm (x :: table) := by
  induction table with
  | nil => exact .refl _
  | cons y table ih =>
    rw [insertBefore]
    split
    · exact .refl _
    · exact (ih.cons y).trans (.swap x y table)

variable [weak : IsStrictWeakOrder α fun a b => lt a b = true]

end

end Quark.Machine
