import Mathlib.Data.List.Basic
import Mathlib.Data.Nat.ModEq
import Mathlib.Tactic.Common

/-!
# A ring buffer

An array of `N` places with the index of the oldest entry, the index of the next free place, and the
number of free places. The three are kept by hand and have to agree: they do in every buffer that can
be built here. What the buffer stands for is the list of its entries, oldest first.
-/

namespace Quark.Machine

structure RingBuffer (α : Type) (N : Nat) where
  data : Vector α N
  first : Nat
  last : Nat
  surplus : Nat
  first_lt : first < N
  surplus_le : surplus ≤ N
  last_eq : last = (first + (N - surplus)) % N

namespace RingBuffer

variable {α : Type} {N : Nat}

theorem capacity_pos (b : RingBuffer α N) : 0 < N := Nat.zero_lt_of_lt b.first_lt

theorem last_lt (b : RingBuffer α N) : b.last < N := by
  rw [b.last_eq]
  exact Nat.mod_lt _ b.capacity_pos

/-- The place `i` steps after the one at index 0, round the end of the array. -/
def slot (b : RingBuffer α N) (i : Nat) : α :=
  have hi : i % N < N := Nat.mod_lt i b.capacity_pos
  b.data[i % N]

def toList (b : RingBuffer α N) : List α :=
  (List.range (N - b.surplus)).map fun i => b.slot (b.first + i)

def next (N i : Nat) : Nat := if i + 1 = N then 0 else i + 1

theorem next_eq {i : Nat} (h : i < N) : next N i = (i + 1) % N := by
  unfold next
  split
  next he => rw [he, Nat.mod_self]
  next he => rw [Nat.mod_eq_of_lt (by omega)]

def push (b : RingBuffer α N) (x : α) (h : b.surplus ≠ 0) : RingBuffer α N where
  data := b.data.set b.last x b.last_lt
  first := b.first
  last := next N b.last
  surplus := b.surplus - 1
  first_lt := b.first_lt
  surplus_le := Nat.le_trans (Nat.sub_le _ _) b.surplus_le
  last_eq := by
    have hs := b.surplus_le
    have hc : N - (b.surplus - 1) = N - b.surplus + 1 := by omega
    rw [next_eq b.last_lt, b.last_eq, hc, Nat.mod_add_mod, Nat.add_assoc]

def pop (b : RingBuffer α N) (h : b.surplus ≠ N) : RingBuffer α N where
  data := b.data
  first := next N b.first
  last := b.last
  surplus := b.surplus + 1
  first_lt := by
    rw [next_eq b.first_lt]
    exact Nat.mod_lt _ b.capacity_pos
  surplus_le := by have := b.surplus_le; omega
  last_eq := by
    have hs := b.surplus_le
    have hc : 1 + (N - (b.surplus + 1)) = N - b.surplus := by omega
    rw [next_eq b.first_lt, b.last_eq, Nat.mod_add_mod, Nat.add_assoc, hc]

theorem length_toList (b : RingBuffer α N) : b.toList.length = N - b.surplus := by simp [toList]

theorem toList_eq_nil {b : RingBuffer α N} : b.toList = [] ↔ b.surplus = N := by
  rw [← List.length_eq_zero_iff, length_toList]
  have := b.surplus_le
  omega

theorem add_mod_ne {a k N : Nat} (hk : 0 < k) (hN : k < N) : (a + k) % N ≠ a % N := by
  intro h
  have hd : N ∣ a + k - a := (Nat.modEq_iff_dvd' (Nat.le_add_right a k)).mp h.symm
  rw [Nat.add_sub_cancel_left] at hd
  exact absurd (Nat.le_of_dvd hk hd) (by omega)

theorem toList_push (b : RingBuffer α N) (x : α) (h : b.surplus ≠ 0) :
    (b.push x h).toList = b.toList ++ [x] := by
  have hs := b.surplus_le
  have hc : N - (b.push x h).surplus = (N - b.surplus) + 1 := by
    show N - (b.surplus - 1) = _
    omega
  unfold toList
  rw [hc, List.range_succ, List.map_append, List.map_singleton]
  congr 1
  · apply List.map_congr_left
    intro i hi
    have hlt : i < N - b.surplus := List.mem_range.mp hi
    have hne : b.last ≠ (b.first + i) % N := by
      have hm := add_mod_ne (a := b.first + i) (k := N - b.surplus - i) (N := N) (by omega) (by omega)
      rw [show b.first + i + (N - b.surplus - i) = b.first + (N - b.surplus) by omega] at hm
      rw [b.last_eq]
      exact hm
    exact Vector.getElem_set_ne b.last_lt _ hne
  · have hl : (b.first + (N - b.surplus)) % N = b.last := b.last_eq.symm
    show [(b.push x h).slot (b.first + (N - b.surplus))] = [x]
    congr 1
    unfold slot push
    simp only [hl]
    exact Vector.getElem_set_self _

theorem toList_pop (b : RingBuffer α N) (h : b.surplus ≠ N) :
    b.toList = b.slot b.first :: (b.pop h).toList := by
  have hs := b.surplus_le
  have hc : N - b.surplus = (N - (b.surplus + 1)) + 1 := by omega
  unfold toList
  rw [hc, List.range_succ_eq_map, List.map_cons, List.map_map]
  congr 1
  apply List.map_congr_left
  intro i _
  have hm : (b.first + (i + 1)) % N = ((b.pop h).first + i) % N := by
    show _ = (next N b.first + i) % N
    rw [next_eq b.first_lt, Nat.mod_add_mod, Nat.add_assoc, Nat.add_comm 1 i]
  show b.slot (b.first + (i + 1)) = (b.pop h).slot ((b.pop h).first + i)
  unfold slot
  simp only [hm]
  rfl

end RingBuffer

end Quark.Machine
