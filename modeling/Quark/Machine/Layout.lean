import Mathlib.Algebra.Order.BigOperators.Group.List
import Mathlib.Algebra.Order.Ring.Nat
import Mathlib.Tactic.Common

/-!
# Blocks one behind the other

Blocks of given lengths are laid out one behind the other. Every position is in one block only.
-/

namespace Quark.Machine.Layout

def start (lens : List Nat) (k : Nat) : Nat := (lens.take k).sum

variable {lens : List Nat} {k n : Nat}

@[simp] theorem start_zero (lens : List Nat) : start lens 0 = 0 := rfl

theorem start_succ (h : lens[k]? = some n) : start lens (k + 1) = start lens k + n := by
  unfold start
  rw [List.take_add_one, h, Option.toList_some, List.sum_append, List.sum_singleton]

theorem start_mono {i j : Nat} (h : i ≤ j) : start lens i ≤ start lens j :=
  (List.take_sublist_take_left h).sum_le_sum fun _ _ => Nat.zero_le _

theorem start_length (lens : List Nat) : start lens lens.length = lens.sum := by
  rw [start, List.take_length]

theorem start_add_le (h : lens[k]? = some n) : start lens k + n ≤ lens.sum := by
  obtain ⟨hk, -⟩ := List.getElem?_eq_some_iff.mp h
  rw [← start_succ h, ← start_length]
  exact start_mono hk

theorem start_add_le_start {j : Nat} (h : lens[k]? = some n) (hj : k < j) :
    start lens k + n ≤ start lens j := by
  rw [← start_succ h]
  exact start_mono hj

theorem exists_block {x : Nat} (h : x < lens.sum) :
    ∃ k n, lens[k]? = some n ∧ start lens k ≤ x ∧ x < start lens k + n := by
  induction lens generalizing x with
  | nil => exact absurd h (Nat.not_lt_zero x)
  | cons m lens ih =>
    rw [List.sum_cons] at h
    by_cases hx : x < m
    · exact ⟨0, m, rfl, Nat.zero_le _, by simpa using hx⟩
    · obtain ⟨k, n, hk, hle, hlt⟩ := ih (x := x - m) (by omega)
      have hstart : start (m :: lens) (k + 1) = m + start lens k := by
        rw [start, List.take_succ_cons, List.sum_cons, start]
      exact ⟨k + 1, n, hk, by omega, by omega⟩

theorem block_unique {k' n' x : Nat} (h : lens[k]? = some n) (h' : lens[k']? = some n')
    (hx : start lens k ≤ x ∧ x < start lens k + n) (hx' : start lens k' ≤ x ∧ x < start lens k' + n') :
    k = k' := by
  rcases Nat.lt_trichotomy k k' with hlt | heq | hgt
  · have := start_add_le_start h hlt
    omega
  · exact heq
  · have := start_add_le_start h' hgt
    omega

end Quark.Machine.Layout
