import Mathlib.Data.Nat.Bitwise
import Mathlib.Tactic.Common

/-!
# Fields of a register

A register is a word of `n` bits that several fields share. Code reads a field by shifting it down and
masking it, and writes it by merging new bits into the register under a mask. What a merge does to a
field is decided by the two masks alone: it replaces a field that its mask covers, and leaves a field
that its mask does not meet.
-/

namespace Quark.Machine

variable {n : Nat}

/-- The register `r` with the bits of `mask` taken from `data`. -/
def merge (r data mask : BitVec n) : BitVec n := (r &&& ~~~mask) ||| (data &&& mask)

/-- The field of `r` that starts at bit `lo` and has the width of `mask`. -/
def field (r : BitVec n) (lo : Nat) (mask : BitVec n) : BitVec n := (r >>> lo) &&& mask

theorem getLsbD_field (r : BitVec n) (lo : Nat) (mask : BitVec n) (i : Nat) :
    (field r lo mask).getLsbD i = (r.getLsbD (lo + i) && mask.getLsbD i) := by
  simp [field]

theorem getLsbD_merge (r data mask : BitVec n) (i : Nat) :
    (merge r data mask).getLsbD i = if mask.getLsbD i then data.getLsbD i else r.getLsbD i := by
  by_cases hi : i < n
  · simp only [merge, BitVec.getLsbD_or, BitVec.getLsbD_and, BitVec.getLsbD_not, hi, decide_true]
    cases mask.getLsbD i <;> simp
  · simp [BitVec.getLsbD_of_ge, Nat.le_of_not_lt hi]

theorem field_merge_covered {r data mask fm : BitVec n} {lo : Nat} (h : field mask lo fm = fm) :
    field (merge r data mask) lo fm = field data lo fm := by
  apply BitVec.eq_of_getLsbD_eq
  intro i _
  have hbit : (mask.getLsbD (lo + i) && fm.getLsbD i) = fm.getLsbD i := by
    rw [← getLsbD_field, h]
  rw [getLsbD_field, getLsbD_field, getLsbD_merge]
  cases hf : fm.getLsbD i with
  | false => simp
  | true =>
    rw [hf, Bool.and_true] at hbit
    rw [if_pos hbit]

theorem field_merge_apart {r data mask fm : BitVec n} {lo : Nat} (h : field mask lo fm = 0) :
    field (merge r data mask) lo fm = field r lo fm := by
  apply BitVec.eq_of_getLsbD_eq
  intro i _
  have hbit : (mask.getLsbD (lo + i) && fm.getLsbD i) = false := by
    rw [← getLsbD_field, h]
    simp
  rw [getLsbD_field, getLsbD_field, getLsbD_merge]
  cases hf : fm.getLsbD i with
  | false => simp
  | true =>
    rw [hf, Bool.and_true] at hbit
    rw [if_neg (by simp [hbit])]

theorem merge_and_apart {r data mask m : BitVec n} (h : mask &&& m = 0) :
    merge r data mask &&& m = r &&& m := by
  apply BitVec.eq_of_getLsbD_eq
  intro i _
  have hbit : (mask.getLsbD i && m.getLsbD i) = false := by
    rw [← BitVec.getLsbD_and, h]
    simp
  rw [BitVec.getLsbD_and, BitVec.getLsbD_and, getLsbD_merge]
  cases hm : m.getLsbD i with
  | false => simp
  | true =>
    rw [hm, Bool.and_true] at hbit
    rw [if_neg (by simp [hbit])]

theorem merge_and_covered {r data mask m : BitVec n} (h : mask &&& m = m) :
    merge r data mask &&& m = data &&& m := by
  apply BitVec.eq_of_getLsbD_eq
  intro i _
  have hbit : (mask.getLsbD i && m.getLsbD i) = m.getLsbD i := by
    rw [← BitVec.getLsbD_and, h]
  rw [BitVec.getLsbD_and, BitVec.getLsbD_and, getLsbD_merge]
  cases hm : m.getLsbD i with
  | false => simp
  | true =>
    rw [hm, Bool.and_true] at hbit
    rw [if_pos hbit]

theorem merge_of_agree {r data mask : BitVec n} (h : r &&& mask = data &&& mask) :
    merge r data mask = r := by
  unfold merge
  rw [← h, ← BitVec.and_or_distrib_left]
  have hall : ~~~mask ||| mask = BitVec.allOnes n := by
    apply BitVec.eq_of_getLsbD_eq
    intro i hi
    simp [hi]
  rw [hall, BitVec.and_allOnes]

theorem field_or (a b : BitVec n) (lo : Nat) (fm : BitVec n) :
    field (a ||| b) lo fm = field a lo fm ||| field b lo fm := by
  apply BitVec.eq_of_getLsbD_eq
  intro i _
  simp only [getLsbD_field, BitVec.getLsbD_or, Bool.and_or_distrib_right]

theorem field_shift {v fm : BitVec n} {lo : Nat} (hv : v &&& fm = v)
    (hfm : field (fm <<< lo) lo fm = fm) : field (v <<< lo) lo fm = v := by
  apply BitVec.eq_of_getLsbD_eq
  intro i _
  have hvi : (v.getLsbD i && fm.getLsbD i) = v.getLsbD i := by
    rw [← BitVec.getLsbD_and, hv]
  have hfi := congrArg (BitVec.getLsbD · i) hfm
  simp only [getLsbD_field, BitVec.getLsbD_shiftLeft] at hfi ⊢
  rw [show lo + i - lo = i by omega] at hfi ⊢
  cases hv' : v.getLsbD i with
  | false => simp
  | true =>
    rw [hv', Bool.true_and] at hvi
    rw [hvi] at hfi ⊢
    simpa using hfi

theorem field_shift_apart {v vm fm : BitVec n} {lo k : Nat} (hv : v &&& vm = v)
    (hfm : field (vm <<< k) lo fm = 0) : field (v <<< k) lo fm = 0 := by
  apply BitVec.eq_of_getLsbD_eq
  intro i _
  have hvi : ∀ j, (v.getLsbD j && vm.getLsbD j) = v.getLsbD j := by
    intro j
    rw [← BitVec.getLsbD_and, hv]
  have hfi := congrArg (BitVec.getLsbD · i) hfm
  simp only [getLsbD_field, BitVec.getLsbD_shiftLeft] at hfi ⊢
  rw [← hvi (lo + i - k)]
  cases hv' : v.getLsbD (lo + i - k) with
  | false => simp
  | true => simpa using hfi

theorem and_two_pow_sub_one {v : BitVec n} {w : Nat} (hw : w < n) (hv : v.toNat < 2 ^ w) :
    v &&& BitVec.ofNat n (2 ^ w - 1) = v := by
  apply BitVec.eq_of_toNat_eq
  have hlt : 2 ^ w - 1 < 2 ^ n := by
    have := Nat.pow_lt_pow_right (a := 2) (by omega) hw
    omega
  rw [BitVec.toNat_and, BitVec.toNat_ofNat, Nat.mod_eq_of_lt hlt, Nat.and_two_pow_sub_one_eq_mod,
    Nat.mod_eq_of_lt hv]

theorem toNat_and_not_low {m : BitVec n} {k : Nat} (hm : m.toNat = 2 ^ k - 1) (b : BitVec n) :
    (b &&& ~~~m).toNat = b.toNat / 2 ^ k * 2 ^ k := by
  have hbits : b &&& ~~~m = (b >>> k) <<< k := by
    apply BitVec.eq_of_getLsbD_eq
    intro i hi
    have hmask : m.getLsbD i = decide (i < k) := by
      rw [BitVec.getLsbD, hm, Nat.testBit_two_pow_sub_one]
    rw [BitVec.getLsbD_and, BitVec.getLsbD_not, hmask, BitVec.getLsbD_shiftLeft,
      BitVec.getLsbD_ushiftRight]
    by_cases hk : i < k
    · simp [hk]
    · have : k + (i - k) = i := by omega
      simp [hi, hk, this]
  have hlt : b.toNat / 2 ^ k * 2 ^ k ≤ b.toNat := Nat.div_mul_le_self _ _
  rw [hbits, BitVec.toNat_shiftLeft, BitVec.toNat_ushiftRight, Nat.shiftRight_eq_div_pow,
    Nat.shiftLeft_eq, Nat.mod_eq_of_lt (Nat.lt_of_le_of_lt hlt b.isLt)]

end Quark.Machine
