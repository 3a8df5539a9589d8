import Mathlib.Data.LawfulXor.Basic
import Quark.Library.Crc32
import Quark.Machine.LittleEndian

/-!
# CRC-32: the table and the polynomial

The bit by bit division is linear in exclusive or. What is above the low byte of a checksum only moves down in
eight steps; what the low byte becomes is in the table.
-/

namespace Quark.Crc32

open Machine

/-! ## The loop over the bytes -/

def crcOf (bs : List UInt8) : Nat := bs.foldl crcByte 0xffffffff ^^^ 0xffffffff

theorem crcLoop_eq (rd : Mem) (n ptr crc : Nat) :
    crcLoop rd n ptr crc = (rd.bytes ptr n).foldl crcByte crc := by
  induction n generalizing ptr crc with
  | zero => rfl
  | succ n ih => rw [crcLoop, ih, Mem.bytes_u32, Mem.bytes_succ, List.foldl_cons]

theorem platformCalculateCrc32_eq {rd : Mem} {data n : Nat} (hn : n ≠ 0) (hdata : data ≠ 0) :
    platformCalculateCrc32 rd data n = .ok (crcOf (rd.bytes data n)) := by
  unfold platformCalculateCrc32 crcOf
  rw [if_neg (by omega), crcLoop_eq]

theorem crcTable_lt : ∀ v ∈ crcTable, v < 2 ^ 32 := by decide +kernel

theorem crcByte_lt {crc : Nat} (h : crc < 2 ^ 32) (b : UInt8) : crcByte crc b < 2 ^ 32 := by
  unfold crcByte
  refine Nat.xor_lt_two_pow (Nat.lt_of_le_of_lt (Nat.shiftRight_le crc 8) h) ?_
  rw [List.getD_eq_getElem?_getD]
  cases hv : crcTable[crc % 256 ^^^ b.toNat]? with
  | none => exact Nat.two_pow_pos 32
  | some v => exact crcTable_lt v (List.mem_of_getElem? hv)

theorem crcOf_lt (bs : List UInt8) : crcOf bs < 0x100000000 := by
  have hfold : ∀ (bs : List UInt8) crc, crc < 2 ^ 32 → bs.foldl crcByte crc < 2 ^ 32 := by
    intro bs
    induction bs with
    | nil => exact fun _ h => h
    | cons b bs ih => exact fun crc h => ih _ (crcByte_lt h b)
  exact Nat.xor_lt_two_pow (n := 32) (hfold bs _ (by decide)) (by decide)

/-! ## Bit by bit -/

def crcBit (crc : Nat) : Nat := if crc % 2 = 1 then (crc >>> 1) ^^^ 0xEDB88320 else crc >>> 1

def crc32 (bytes : List UInt8) : Nat :=
  bytes.foldl (fun crc b => crcBit^[8] (crc ^^^ b.toNat)) 0xFFFFFFFF ^^^ 0xFFFFFFFF

theorem crcBit_xor (x y : Nat) : crcBit (x ^^^ y) = crcBit x ^^^ crcBit y := by
  have hmod : (x ^^^ y) % 2 = x % 2 ^^^ y % 2 := Nat.xor_mod_two_pow (n := 1)
  rw [crcBit, crcBit, crcBit, hmod, Nat.shiftRight_xor_distrib]
  rcases Nat.mod_two_eq_zero_or_one x with hx | hx <;> rcases Nat.mod_two_eq_zero_or_one y with hy | hy
  · simp [hx, hy]
  · simp [hx, hy, Nat.xor_assoc]
  · simp only [hx, hy, Nat.reduceXor, if_true, if_false, zero_ne_one]
    ac_rfl
  · -- the polynomial is added twice
    simp only [hx, hy, Nat.reduceXor, if_true, if_false, zero_ne_one]
    rw [Nat.xor_comm (y >>> 1), ← Nat.xor_assoc, Nat.xor_assoc (x >>> 1) _ _, Nat.xor_self, Nat.xor_zero]

theorem iterate_crcBit_xor (n : Nat) (x y : Nat) : crcBit^[n] (x ^^^ y) = crcBit^[n] x ^^^ crcBit^[n] y := by
  induction n generalizing x y with
  | zero => rfl
  | succ n ih => rw [Function.iterate_succ_apply, Function.iterate_succ_apply, Function.iterate_succ_apply,
      crcBit_xor, ih]

theorem crcBit_double (x : Nat) : crcBit (2 * x) = x := by
  rw [crcBit, if_neg (by omega), Nat.shiftRight_one, Nat.mul_div_cancel_left x (by decide)]

theorem iterate_crcBit_high (n x : Nat) : crcBit^[n] (2 ^ n * x) = x := by
  induction n with
  | zero => exact Nat.one_mul x
  | succ n ih => rw [Function.iterate_succ_apply, Nat.pow_succ', Nat.mul_assoc, crcBit_double, ih]

theorem eq_high_xor_low (x : Nat) : x = 2 ^ 8 * (x >>> 8) ^^^ x % 256 := by
  apply Nat.eq_of_testBit_eq
  intro i
  rw [Nat.testBit_xor, Nat.testBit_two_pow_mul, Nat.testBit_shiftRight,
    show x % 256 = x % 2 ^ 8 from rfl, Nat.testBit_mod_two_pow]
  by_cases hi : i < 8
  · simp [hi, Nat.not_le.mpr hi]
  · simp [hi, Nat.not_lt.mp hi, Nat.add_sub_cancel' (Nat.not_lt.mp hi)]

/-! ## The table -/

theorem crcBit_eq : crcBit = fun x => x >>> 1 ^^^ x % 2 * 0xEDB88320 := by
  funext x
  rcases Nat.mod_two_eq_zero_or_one x with hx | hx <;> simp [crcBit, hx]

theorem crcTable_eq_map : crcTable = (List.range 256).map crcBit^[8] := by
  rw [crcBit_eq]
  decide +kernel

theorem crcTable_eq (i : Nat) (hi : i < 256) : crcTable.getD i 0 = crcBit^[8] i := by
  rw [crcTable_eq_map, List.getD_eq_getElem?_getD, List.getElem?_map, List.getElem?_range hi, Option.map_some,
    Option.getD_some]

theorem crcByte_eq (crc : Nat) (b : UInt8) : crcByte crc b = crcBit^[8] (crc ^^^ b.toNat) := by
  have hlow : crc % 256 ^^^ b.toNat < 256 :=
    Nat.xor_lt_two_pow (n := 8) (Nat.mod_lt _ (by decide)) b.toNat_lt
  calc crcByte crc b = crc >>> 8 ^^^ crcBit^[8] (crc % 256 ^^^ b.toNat) := by rw [crcByte, crcTable_eq _ hlow]
    _ = crcBit^[8] (2 ^ 8 * (crc >>> 8) ^^^ (crc % 256 ^^^ b.toNat)) := by
      rw [iterate_crcBit_xor 8 (2 ^ 8 * (crc >>> 8)), iterate_crcBit_high]
    _ = crcBit^[8] (crc ^^^ b.toNat) := by rw [← Nat.xor_assoc, ← eq_high_xor_low]

theorem crcOf_eq_crc32 (bs : List UInt8) : crcOf bs = crc32 bs :=
  congrArg (· ^^^ 0xFFFFFFFF) (congrArg (fun f => bs.foldl f 0xFFFFFFFF) (funext₂ crcByte_eq))

theorem platformCalculateCrc32_standard (rd : Mem) {data dataSize : Nat} (hdata : data ≠ 0)
    (hsize : dataSize ≠ 0) :
    platformCalculateCrc32 rd data dataSize = .ok (crc32 (rd.bytes data dataSize)) := by
  rw [platformCalculateCrc32_eq hsize hdata, crcOf_eq_crc32]

theorem platformCalculateCrc32_standard_quark :
    platformCalculateCrc32 (fun a => [0x51, 0x75, 0x61, 0x72, 0x6B].getD (a - 0x1000) 0) 0x1000 5
      = .ok (crc32 [0x51, 0x75, 0x61, 0x72, 0x6B]) :=
  platformCalculateCrc32_standard _ (by decide) (by decide)

/-! ## Bursts of errors -/

/-- The bits of some bytes, least significant first. -/
def bitOf (bs : List UInt8) (i : Nat) : Bool := (leValue (bs.map UInt8.toBitVec)).testBit i

theorem eq_of_bitOf {bs bs' : List UInt8} (hlength : bs.length = bs'.length)
    (h : ∀ i, bitOf bs i = bitOf bs' i) : bs = bs' := by
  have hvalue : leValue (bs.map UInt8.toBitVec) = leValue (bs'.map UInt8.toBitVec) := Nat.eq_of_testBit_eq h
  clear h
  induction bs generalizing bs' with
  | nil => exact (List.length_eq_zero_iff.mp hlength.symm).symm
  | cons b bs ih =>
    obtain ⟨b', bs', rfl⟩ := List.exists_cons_of_length_eq_add_one hlength.symm
    have hb := b.toBitVec.isLt
    have hb' := b'.toBitVec.isLt
    rw [List.map_cons, List.map_cons, leValue, leValue] at hvalue
    have hhead : b.toBitVec = b'.toBitVec := BitVec.eq_of_toNat_eq (by omega)
    rw [UInt8.toBitVec_inj.mp hhead, ih (Nat.succ.inj hlength) (by omega)]

theorem iterate_crcBit_bytes (bs : List UInt8) (crc : Nat) :
    bs.foldl (fun crc b => crcBit^[8] (crc ^^^ b.toNat)) crc =
      crcBit^[8 * bs.length] (crc ^^^ leValue (bs.map UInt8.toBitVec)) := by
  induction bs generalizing crc with
  | nil => exact (Nat.xor_zero crc).symm
  | cons b bs ih =>
    have hb : b.toBitVec.toNat < 256 := b.toBitVec.isLt
    have hsplit := eq_high_xor_low (leValue ((b :: bs).map UInt8.toBitVec))
    rw [List.map_cons, leValue, Nat.shiftRight_eq_div_pow, Nat.add_mul_mod_self_left, Nat.mod_eq_of_lt hb,
      Nat.add_mul_div_left _ _ (by decide), Nat.div_eq_of_lt hb, Nat.zero_add] at hsplit
    rw [List.foldl_cons, ih, List.map_cons, leValue, hsplit, List.length_cons, Nat.mul_succ,
      Function.iterate_add_apply, Nat.xor_comm (2 ^ 8 * _), ← Nat.xor_assoc, iterate_crcBit_xor 8 (_ ^^^ _),
      iterate_crcBit_high]
    rfl

/-- A checksum that is not zero does not become zero: the polynomial has bit 31. -/
theorem crcBit_pos {x : Nat} (hpos : 0 < x) (hlt : x < 2 ^ 32) : 0 < crcBit x ∧ crcBit x < 2 ^ 32 := by
  unfold crcBit
  have hhalf : x >>> 1 < 2 ^ 31 := by
    rw [Nat.shiftRight_one]
    omega
  split
  · refine ⟨Nat.pos_of_ne_zero fun hzero => ?_, Nat.xor_lt_two_pow (hhalf.trans (by decide)) (by decide)⟩
    have heq := xor_eq_zero_iff.mp hzero
    omega
  · rw [Nat.shiftRight_one] at hhalf ⊢
    omega

theorem iterate_crcBit_pos (n : Nat) {x : Nat} (hpos : 0 < x) (hlt : x < 2 ^ 32) : 0 < crcBit^[n] x := by
  induction n generalizing x with
  | zero => exact hpos
  | succ n ih =>
    obtain ⟨hpos', hlt'⟩ := crcBit_pos hpos hlt
    exact ih hpos' hlt'

/-- A number with all its bits in a burst is the burst, moved up to where it starts. -/
theorem exists_burst {x first : Nat} (hpos : x ≠ 0)
    (hbits : ∀ i, x.testBit i = true → first ≤ i ∧ i < first + 32) :
    ∃ burst, x = 2 ^ first * burst ∧ 0 < burst ∧ burst < 2 ^ 32 := by
  have hsplit : x = 2 ^ first * (x >>> first) := by
    apply Nat.eq_of_testBit_eq
    intro i
    rw [Nat.testBit_two_pow_mul, Nat.testBit_shiftRight]
    by_cases hi : first ≤ i
    · rw [decide_eq_true hi, Bool.true_and, Nat.add_sub_cancel' hi]
    · rw [decide_eq_false hi, Bool.false_and]
      exact Bool.eq_false_iff.mpr fun hset => hi (hbits i hset).1
  refine ⟨x >>> first, hsplit, ?_, ?_⟩
  · refine Nat.pos_of_ne_zero fun hnone => hpos ?_
    rw [hsplit, hnone, Nat.mul_zero]
  · refine Nat.lt_pow_two_of_testBit _ fun i hi => ?_
    rw [Nat.testBit_shiftRight]
    exact Bool.eq_false_iff.mpr fun hset => absurd (hbits _ hset).2 (by omega)

/-- The checksums of two sequences of bytes that differ in a burst are different. -/
theorem crc32_burst {bs bs' : List UInt8} {first : Nat} (hlength : bs.length = bs'.length) (hne : bs ≠ bs')
    (hburst : ∀ i, bitOf bs i ≠ bitOf bs' i → first ≤ i ∧ i < first + 32) : crc32 bs ≠ crc32 bs' := by
  intro heq
  have hfold := (xor_left_involutive 0xFFFFFFFF).injective heq
  rw [iterate_crcBit_bytes, iterate_crcBit_bytes, ← hlength] at hfold
  have hpos : leValue (bs.map UInt8.toBitVec) ^^^ leValue (bs'.map UInt8.toBitVec) ≠ 0 := by
    intro hsame
    exact hne (eq_of_bitOf hlength fun i => congrArg (Nat.testBit · i) (xor_eq_zero_iff.mp hsame))
  obtain ⟨burst, hx, hburstPos, hsmall⟩ := exists_burst hpos fun i hi => hburst i fun hsame => by
    rw [Nat.testBit_xor, show Nat.testBit _ i = Nat.testBit _ i from hsame, Bool.xor_self] at hi
    cases hi
  have hlt : leValue (bs.map UInt8.toBitVec) ^^^ leValue (bs'.map UInt8.toBitVec) < 2 ^ (8 * bs.length) := by
    have hbound := leValue_lt (bs.map UInt8.toBitVec)
    have hbound' := leValue_lt (bs'.map UInt8.toBitVec)
    rw [List.length_map, show (256 : Nat) = 2 ^ 8 from rfl, ← Nat.pow_mul] at hbound hbound'
    exact Nat.xor_lt_two_pow hbound (hlength ▸ hbound')
  have hfirst : first ≤ 8 * bs.length := by
    refine ((Nat.pow_lt_pow_iff_right (by decide)).mp (Nat.lt_of_le_of_lt ?_ hlt)).le
    rw [hx]
    exact Nat.le_mul_of_pos_right _ hburstPos
  -- from where the burst starts on, the division turns the difference into what is left of the burst
  have hzero : crcBit^[8 * bs.length] (2 ^ first * burst) = 0 := by
    rw [← hx, iterate_crcBit_xor, xor_eq_zero_iff]
    rw [iterate_crcBit_xor, iterate_crcBit_xor] at hfold
    exact (xor_right_involutive _).injective hfold
  rw [← Nat.sub_add_cancel hfirst, Function.iterate_add_apply, iterate_crcBit_high] at hzero
  exact absurd hzero (Nat.ne_of_gt (iterate_crcBit_pos _ hburstPos hsmall))

/-- A change of a buffer within 32 bits that follow one another changes its checksum. -/
theorem platformCalculateCrc32_detects_burst {rd rd' : Mem} {data dataSize first : Nat} (hdata : data ≠ 0)
    (hne : rd.bytes data dataSize ≠ rd'.bytes data dataSize)
    (hburst : ∀ i, bitOf (rd.bytes data dataSize) i ≠ bitOf (rd'.bytes data dataSize) i →
      first ≤ i ∧ i < first + 32) :
    platformCalculateCrc32 rd data dataSize ≠ platformCalculateCrc32 rd' data dataSize := by
  have hlength : (rd.bytes data dataSize).length = (rd'.bytes data dataSize).length := by
    rw [Mem.length_bytes, Mem.length_bytes]
  have hsize : dataSize ≠ 0 := by
    rintro rfl
    exact hne rfl
  rw [platformCalculateCrc32_eq hsize hdata, platformCalculateCrc32_eq hsize hdata, crcOf_eq_crc32,
    crcOf_eq_crc32]
  exact fun heq => crc32_burst hlength hne hburst (Except.ok.inj heq)

theorem platformCalculateCrc32_detects_burst_quark :
    platformCalculateCrc32 (fun a => [0x51, 0x75, 0x61, 0x72, 0x6B].getD (a - 0x1000) 0) 0x1000 5 ≠
      platformCalculateCrc32 (fun a => [0x50, 0x75, 0x61, 0x72, 0x6B].getD (a - 0x1000) 0) 0x1000 5 := by
  have hbytes : ∀ b : UInt8, Mem.bytes (fun a => [b, 0x75, 0x61, 0x72, 0x6B].getD (a - 0x1000) 0) 0x1000 5 =
      [b, 0x75, 0x61, 0x72, 0x6B] := fun _ => rfl
  refine platformCalculateCrc32_detects_burst (by decide) ?_ fun i hi => ⟨Nat.zero_le i, ?_⟩
  · rw [hbytes, hbytes]
    decide
  · by_contra hge
    obtain ⟨k, hk⟩ : ∃ k, i / 8 = k + 1 := ⟨i / 8 - 1, by omega⟩
    refine hi ?_
    rw [hbytes, hbytes]
    simp only [bitOf, testBit_leValue, hk, List.map_cons, List.getElem?_cons_succ]

end Quark.Crc32
