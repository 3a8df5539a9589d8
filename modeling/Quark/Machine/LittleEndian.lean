import Mathlib.Algebra.Group.Nat.Defs
import Mathlib.Data.Finset.Card
import Mathlib.Data.List.Basic
import Mathlib.Tactic.Common

/-!
# Little-endian words

The bytes of a word, least significant first, and the word that a sequence of bytes is.
-/

namespace Quark.Machine

abbrev Byte := BitVec 8

/-- The `k` low bytes of `v`. -/
def leBytes : Nat → Nat → List Byte
  | 0, _ => []
  | k + 1, v => BitVec.ofNat 8 v :: leBytes k (v / 256)

def leValue : List Byte → Nat
  | [] => 0
  | b :: bs => b.toNat + 256 * leValue bs

@[simp] theorem length_leBytes (k v : Nat) : (leBytes k v).length = k := by
  induction k generalizing v with
  | zero => rfl
  | succ k ih => rw [leBytes, List.length_cons, ih]

theorem leValue_leBytes (k v : Nat) : leValue (leBytes k v) = v % 256 ^ k := by
  induction k generalizing v with
  | zero => rw [Nat.pow_zero, Nat.mod_one]; rfl
  | succ k ih =>
    rw [leBytes, leValue, ih, BitVec.toNat_ofNat]
    show v % 256 + 256 * (v / 256 % 256 ^ k) = v % 256 ^ (k + 1)
    rw [Nat.pow_succ, Nat.mul_comm (256 ^ k) 256, Nat.mod_mul]

theorem leValue_lt (bs : List Byte) : leValue bs < 256 ^ bs.length := by
  induction bs with
  | nil => exact Nat.one_pos
  | cons b bs ih =>
    have hb := b.isLt
    rw [leValue, List.length_cons, Nat.pow_succ]
    omega

theorem leValue_pair_lt (lo hi : Byte) : leValue [lo, hi] < 0x10000 := by
  have h := leValue_lt [lo, hi]
  simpa using h

/-- The word of `k` bytes at offset `off`, if it is inside. -/
def word? (k : Nat) (bs : List Byte) (off : Nat) : Option Nat :=
  if off + k ≤ bs.length then some (leValue ((bs.drop off).take k)) else none

theorem word?_lt {k off v : Nat} {bs : List Byte} (h : word? k bs off = some v) : v < 256 ^ k := by
  unfold word? at h
  split at h
  · injection h with h
    rw [← h]
    refine Nat.lt_of_lt_of_le (leValue_lt _) (Nat.pow_le_pow_right (by decide) ?_)
    exact List.length_take_le k (bs.drop off)
  · cases h

theorem word?_append (k v : Nat) (pre post : List Byte) :
    word? k (pre ++ (leBytes k v ++ post)) pre.length = some (v % 256 ^ k) := by
  unfold word?
  rw [if_pos (by simp), List.drop_left, List.take_left' (length_leBytes k v), leValue_leBytes]

theorem testBit_leValue (bs : List Byte) (i : Nat) :
    (leValue bs).testBit i = (bs[i / 8]?.getD 0).getLsbD (i % 8) := by
  induction bs generalizing i with
  | nil =>
    rw [leValue, Nat.zero_testBit, List.getElem?_nil]
    exact (BitVec.getLsbD_zero).symm
  | cons b bs ih =>
    have hb : b.toNat < 2 ^ 8 := b.isLt
    have hsplit : leValue (b :: bs) = 2 ^ 8 * leValue bs + b.toNat := Nat.add_comm _ _
    rw [hsplit, Nat.testBit_two_pow_mul_add (leValue bs) hb]
    split
    · next hlt =>
      rw [Nat.div_eq_of_lt hlt, Nat.mod_eq_of_lt hlt]
      rfl
    · next hge =>
      obtain ⟨j, rfl⟩ := Nat.exists_eq_add_of_le (Nat.not_lt.mp hge)
      rw [ih, Nat.add_sub_cancel_left, Nat.add_div_left j (by decide), Nat.add_mod_left]
      rfl

/-! ## Buffers

A buffer of bytes is read and written in spans. A span that is not inside the buffer is not there.
-/

/-- The `n` bytes at offset `off`, if they are inside. -/
def bytes? (n : Nat) (bs : List Byte) (off : Nat) : Option (List Byte) :=
  if off + n ≤ bs.length then some ((bs.drop off).take n) else none

/-- The buffer with `bytes` at offset `off`, if there is room for them. -/
def put? (bs : List Byte) (off : Nat) (bytes : List Byte) : Option (List Byte) :=
  if off + bytes.length ≤ bs.length then some (bs.take off ++ bytes ++ bs.drop (off + bytes.length))
  else none

variable {n off : Nat} {bs bytes : List Byte}

theorem bytes?_of_le (h : off + n ≤ bs.length) : bytes? n bs off = some ((bs.drop off).take n) :=
  if_pos h

theorem bytes?_eq_some {r : List Byte} (h : bytes? n bs off = some r) :
    off + n ≤ bs.length ∧ r = (bs.drop off).take n := by
  unfold bytes? at h
  split at h
  · next hle =>
    injection h with h
    exact ⟨hle, h.symm⟩
  · cases h

theorem length_of_bytes? {r : List Byte} (h : bytes? n bs off = some r) : r.length = n := by
  obtain ⟨hle, rfl⟩ := bytes?_eq_some h
  rw [List.length_take, List.length_drop]
  omega

theorem word?_eq_some {k v : Nat} (h : word? k bs off = some v) :
    off + k ≤ bs.length ∧ v = leValue ((bs.drop off).take k) := by
  unfold word? at h
  split at h
  · next hle =>
    injection h with h
    exact ⟨hle, h.symm⟩
  · cases h

theorem word?_inside {k : Nat} (h : off + k ≤ bs.length) :
    word? k bs off = some (leValue ((bs.drop off).take k)) := if_pos h

theorem put?_of_le (h : off + bytes.length ≤ bs.length) :
    ∃ bs', put? bs off bytes = some bs' ∧ bs'.length = bs.length := by
  refine ⟨_, if_pos h, ?_⟩
  rw [List.length_append, List.length_append, List.length_take, List.length_drop]
  omega

/-! ## Absent words -/

theorem exists_not_mem_le (used : List Nat) : ∃ n ≤ used.length, n ∉ used := by
  by_contra hall
  have hsub : Finset.range (used.length + 1) ⊆ used.toFinset := by
    intro n hn
    rw [List.mem_toFinset]
    by_contra hno
    exact hall ⟨n, Nat.le_of_lt_succ (Finset.mem_range.mp hn), hno⟩
  have hcard := Finset.card_le_card hsub
  rw [Finset.card_range] at hcard
  have hle := List.toFinset_card_le used
  omega

end Quark.Machine
