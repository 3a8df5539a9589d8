import Quark.Library.SpiProtect
import Mathlib.Tactic.Common
import Mathlib.Tactic.ByContra

/-!
# When the protection of the flash is what it is reported to be

Each of the three parts can fail: a range may be taken for one that ends at the start of the address space,
the rounded end of a range may be past the flash, and the two last registers are not read back when they are
cleared.
-/

namespace Quark.PlatformHelper

open Machine Exec

/-! ## The two ends of a register -/

theorem toNat_and_page (v : BitVec 32) : (v &&& (0xFFF : BitVec 32)).toNat = v.toNat % 4096 :=
  Nat.and_two_pow_sub_one_eq_mod v.toNat 12

theorem protectedBase_toNat (v : BitVec 32) : (protectedBase v).toNat = v.toNat % 4096 * 4096 := by
  unfold protectedBase
  rw [BitVec.toNat_shiftLeft, toNat_and_page, Nat.shiftLeft_eq]
  omega

theorem and_limit_eq (v : BitVec 32) :
    v &&& (0x00FFF000 : BitVec 32) = ((v >>> 12) &&& (0xFFF : BitVec 32)) <<< 12 := by
  have hmask : (0x00FFF000 : BitVec 32) = (0xFFF : BitVec 32) <<< 12 := by decide
  rw [hmask]
  apply BitVec.eq_of_getLsbD_eq
  intro i hi
  simp only [BitVec.getLsbD_and, BitVec.getLsbD_shiftLeft, BitVec.getLsbD_ushiftRight, hi, decide_true,
    Bool.true_and]
  by_cases hlow : i < 12
  · simp [hlow]
  · rw [Nat.add_sub_cancel' (Nat.not_lt.mp hlow)]
    simp [hlow]

theorem protectedLimit_toNat (v : BitVec 32) :
    (protectedLimit v).toNat = v.toNat / 4096 % 4096 * 4096 + 4095 := by
  unfold protectedLimit
  rw [and_limit_eq, BitVec.toNat_add, BitVec.toNat_shiftLeft, toNat_and_page, BitVec.toNat_ushiftRight,
    Nat.shiftLeft_eq, Nat.shiftRight_eq_div_pow]
  show (v.toNat / 4096 % 4096 * 4096 % 4294967296 + 4095) % 4294967296 = _
  omega

theorem alignLength_toNat {length : BitVec 32} (h : length.toNat ≤ flashSpace) :
    (alignLength length).toNat = (length.toNat + 0xFFF) / 0x1000 * 0x1000 := by
  unfold alignLength
  rw [BitVec.toNat_add, toNat_and_page, BitVec.toNat_sub]
  show (length.toNat + (4294967296 - length.toNat + 4096) % 4294967296 % 4096) % 4294967296 = _
  have hspace : length.toNat ≤ 0x1000000 := h
  omega

/-! ## The value for a range -/

section

variable (base length : BitVec 32)

theorem and_parts {a b c m m₁ m₂ : BitVec 32} :
    ((a &&& m₁) ||| (b &&& m₂) ||| c) &&& m = (a &&& (m₁ &&& m)) ||| (b &&& (m₂ &&& m)) ||| (c &&& m) := by
  rw [BitVec.and_or_distrib_right, BitVec.and_or_distrib_right, BitVec.and_assoc, BitVec.and_assoc]

theorem protectValue_base : protectValue 0 base length &&& (0xFFF : BitVec 32) = (base >>> 12) &&& (0xFFF : BitVec 32) := by
  unfold protectValue
  rw [if_pos rfl, and_parts]
  simp

theorem protectValue_limit :
    protectValue 0 base length &&& (0x00FFF000 : BitVec 32) =
      (base + alignLength length - 1) &&& (0x00FFF000 : BitVec 32) := by
  unfold protectValue
  rw [if_pos rfl, and_parts]
  simp

theorem protectValue_wpe : protectValue 0 base length &&& wpe ≠ 0 := by
  unfold protectValue
  rw [if_pos rfl, and_parts]
  simp

variable {base length}

theorem protectedBase_protectValue (base length : BitVec 32) :
    (protectedBase (protectValue 0 base length)).toNat = base.toNat / 0x1000 % 0x1000 * 0x1000 := by
  have hpage : (protectValue 0 base length).toNat % 4096 = base.toNat / 4096 % 4096 := by
    rw [← toNat_and_page, protectValue_base, toNat_and_page, BitVec.toNat_ushiftRight,
      Nat.shiftRight_eq_div_pow]
  rw [protectedBase_toNat, hpage]

theorem protectedLimit_protectValue (hpos : 0 < length.toNat)
    (hend : base.toNat + length.toNat ≤ flashSpace) :
    (protectedLimit (protectValue 0 base length)).toNat =
      (roundedEnd base.toNat length.toNat - 1) / 0x1000 % 0x1000 * 0x1000 + 0xFFF := by
  have hspace : base.toNat + length.toNat ≤ 0x1000000 := hend
  have hsame : protectedLimit (protectValue 0 base length) = protectedLimit (base + alignLength length - 1) :=
    congrArg (· + 0xFFF) (protectValue_limit base length)
  have hlast : (base + alignLength length - 1).toNat = roundedEnd base.toNat length.toNat - 1 := by
    unfold roundedEnd
    rw [BitVec.toNat_sub, BitVec.toNat_add, alignLength_toNat (Nat.le_trans (Nat.le_add_left _ _) hend)]
    show (4294967296 - 1 + (base.toNat + (length.toNat + 0xFFF) / 0x1000 * 0x1000) % 4294967296) % 4294967296 = _
    omega
  rw [hsame, protectedLimit_toNat, hlast]

end

/-! ## What is reported -/

section

variable {s : SpiRegisters} {base length : BitVec 32}

theorem protectsUpTo_iff {v limit : BitVec 32} :
    protectsUpTo v base limit = true ↔ v &&& wpe ≠ 0 ∧ (protectedBase v).toNat ≤ base.toNat ∧
      limit.toNat ≤ (protectedLimit v).toNat := decide_eq_true_iff

theorem platformIsSpiRangeProtected_ret (s : SpiRegisters) (base : BitVec 32) (hlength : 0 < length) :
    platformIsSpiRangeProtected base length s =
      .ret (protectsUpTo (s.pbr .pbr0) base (base + (length - 1)) ||
        (protectsUpTo (s.pbr .pbr1) base (base + (length - 1)) ||
          protectsUpTo (s.pbr .pbr2) base (base + (length - 1)))) s := by
  unfold platformIsSpiRangeProtected
  rw [if_pos hlength]
  refine (bind_of_ret (x := readPbr .pbr0) (s := s) rfl).trans ?_
  cases protectsUpTo (s.pbr .pbr0) base (base + (length - 1)) with
  | true => rfl
  | false =>
    refine (bind_of_ret (x := readPbr .pbr1) (s := s) rfl).trans ?_
    cases protectsUpTo (s.pbr .pbr1) base (base + (length - 1)) with
    | true => rfl
    | false =>
      refine (bind_of_ret (x := readPbr .pbr2) (s := s) rfl).trans ?_
      cases protectsUpTo (s.pbr .pbr2) base (base + (length - 1)) with
      | true => rfl
      | false => rfl

theorem exists_register {p : ProtectRegister → Prop} :
    (∃ r, p r) ↔ p .pbr0 ∨ p .pbr1 ∨ p .pbr2 := by
  constructor
  · rintro ⟨r, hr⟩
    cases r with
    | pbr0 => exact .inl hr
    | pbr1 => exact .inr (.inl hr)
    | pbr2 => exact .inr (.inr hr)
  · rintro (h | h | h)
    · exact ⟨_, h⟩
    · exact ⟨_, h⟩
    · exact ⟨_, h⟩

theorem reported_iff :
    Reported s base length ↔ 0 < length.toNat ∧ ∃ r, s.pbr r &&& wpe ≠ 0 ∧
      (protectedBase (s.pbr r)).toNat ≤ base.toNat ∧
        (base + (length - 1)).toNat ≤ (protectedLimit (s.pbr r)).toNat := by
  have hanswer : (∃ r, s.pbr r &&& wpe ≠ 0 ∧ (protectedBase (s.pbr r)).toNat ≤ base.toNat ∧
      (base + (length - 1)).toNat ≤ (protectedLimit (s.pbr r)).toNat) ↔
      (protectsUpTo (s.pbr .pbr0) base (base + (length - 1)) ||
        (protectsUpTo (s.pbr .pbr1) base (base + (length - 1)) ||
          protectsUpTo (s.pbr .pbr2) base (base + (length - 1)))) = true := by
    rw [Bool.or_eq_true, Bool.or_eq_true, ← exists_register
      (p := fun r => protectsUpTo (s.pbr r) base (base + (length - 1)) = true)]
    exact exists_congr fun r => protectsUpTo_iff.symm
  rw [hanswer]
  by_cases hlength : 0 < length
  · have hrun := platformIsSpiRangeProtected_ret s base hlength
    constructor
    · rintro ⟨t, ht⟩
      rw [hrun] at ht
      injection ht with hvalue
      exact ⟨hlength, hvalue⟩
    · rintro ⟨-, hvalue⟩
      rw [hvalue] at hrun
      exact ⟨s, hrun⟩
  · refine iff_of_false ?_ fun h => hlength h.1
    rintro ⟨t, ht⟩
    unfold platformIsSpiRangeProtected at ht
    rw [if_neg hlength] at ht
    cases ht

theorem last_toNat (base : BitVec 32) (hpos : 0 < length.toNat) :
    (base + (length - 1)).toNat = (base.toNat + length.toNat - 1) % 2 ^ 32 := by
  rw [BitVec.toNat_add, BitVec.toNat_sub]
  show (base.toNat + (4294967296 - 1 + length.toNat) % 4294967296) % 4294967296 = _
  have hlt := length.isLt
  omega

theorem protectedLimit_lt (v : BitVec 32) : (protectedLimit v).toNat < flashSpace := by
  rw [protectedLimit_toNat]
  show _ < 0x1000000
  omega

theorem query_iff : (Reported s base length →
    ∀ a, base.toNat ≤ a → a < base.toNat + length.toNat → Protected s a) ↔
      WrapRefused s base.toNat length.toNat := by
  have hbase := base.isLt
  have hlength := length.isLt
  constructor
  · intro hquery hwrap r henabled hle
    by_contra hnot
    have hpos : 0 < length.toNat := by omega
    have hlast := last_toNat base hpos
    have hreported : Reported s base length := by
      refine reported_iff.mpr ⟨hpos, r, henabled, hle, ?_⟩
      omega
    obtain ⟨r', hcovers⟩ := hquery hreported (2 ^ 32 - 1) (by omega) (by omega)
    have hlimit := protectedLimit_lt (s.pbr r')
    have hspace : (protectedLimit (s.pbr r')).toNat < 0x1000000 := hlimit
    have hcovered := hcovers.2.2
    omega
  · intro hrefused hreported a hlow hhigh
    obtain ⟨hpos, r, henabled, hle, hlimit⟩ := reported_iff.mp hreported
    have hlast := last_toNat base hpos
    by_cases hwrap : 2 ^ 32 < base.toNat + length.toNat
    · have hbeyond := hrefused hwrap r henabled hle
      omega
    · refine ⟨r, henabled, Nat.le_trans hle hlow, ?_⟩
      omega

end

/-! ## What is written -/

section

variable {latch : Latch} {dxe : Bool} {s t : SpiRegisters} {base length : BitVec 32} {r : ProtectRegister}

theorem freeRegister_ret (s : SpiRegisters) :
    ∃ offset, freeRegister s = .ret offset s ∧ ∀ r, offset = some r → s.pbr r = 0 := by
  by_cases h0 : s.pbr .pbr0 = 0
  · refine ⟨some .pbr0, (bind_of_ret (x := readPbr .pbr0) (s := s) rfl).trans ?_, ?_⟩
    · rw [if_pos h0]
      rfl
    · rintro r ⟨⟩
      exact h0
  · by_cases h1 : s.pbr .pbr1 = 0
    · refine ⟨some .pbr1, (bind_of_ret (x := readPbr .pbr0) (s := s) rfl).trans ?_, ?_⟩
      · rw [if_neg h0]
        refine (bind_of_ret (x := readPbr .pbr1) (s := s) rfl).trans ?_
        rw [if_pos h1]
        rfl
      · rintro r ⟨⟩
        exact h1
    · refine ⟨if s.pbr .pbr2 = 0 then some .pbr2 else none,
        (bind_of_ret (x := readPbr .pbr0) (s := s) rfl).trans ?_, ?_⟩
      · rw [if_neg h0]
        refine (bind_of_ret (x := readPbr .pbr1) (s := s) rfl).trans ?_
        rw [if_neg h1]
        refine (bind_of_ret (x := readPbr .pbr2) (s := s) rfl).trans ?_
        split
        · rfl
        · rfl
      · intro r hr
        split at hr
        · next h2 =>
          cases hr
          exact h2
        · cases hr

theorem pbr_eq_zero (hfree : freeRegister s = .ret (some r) s) : s.pbr r = 0 := by
  obtain ⟨offset, hret, hzero⟩ := freeRegister_ret s
  rw [hret] at hfree
  injection hfree with hoffset
  exact hzero r hoffset

theorem readPbr_update (s : SpiRegisters) (r : ProtectRegister) (v : BitVec 32) :
    readPbr r { s with pbr := Function.update s.pbr r v } =
      .ret v { s with pbr := Function.update s.pbr r v } :=
  congrArg (Outcome.ret · _) (Function.update_self r v s.pbr)

theorem writeFirstFreeSpiProtect_ret (latch : Latch) (base length : BitVec 32)
    (hfree : freeRegister s = .ret (some r) s) :
    writeFirstFreeSpiProtect latch 0 base length s =
      .ret (if protectValue 0 base length = latch s.spis r 0 (protectValue 0 base length)
        then (.success, some r) else (.deviceError, none))
        { s with pbr := Function.update s.pbr r (latch s.spis r 0 (protectValue 0 base length)) } := by
  have hwrite : writePbr latch r (protectValue 0 base length) s =
      .ret () { s with pbr := Function.update s.pbr r (latch s.spis r 0 (protectValue 0 base length)) } := by
    rw [← pbr_eq_zero hfree]
    rfl
  have hread := readPbr_update s r (latch s.spis r 0 (protectValue 0 base length))
  refine (bind_of_ret hfree).trans ((bind_of_ret hwrite).trans ((bind_of_ret hread).trans ?_))
  split
  · rfl
  · rfl

theorem write_of_free (dxe : Bool) (hfree : freeRegister s = .ret (some r) s)
    (htaken : latch s.spis r 0 (protectValue 0 base length) = protectValue 0 base length) :
    ∃ t, platformWriteFirstFreeSpiProtect latch dxe 0 base length s = .ret .success t ∧
      t.pbr = Function.update s.pbr r (protectValue 0 base length) := by
  have hwrite := writeFirstFreeSpiProtect_ret latch base length hfree
  rw [htaken, if_pos rfl] at hwrite
  cases dxe with
  | true => exact ⟨_, (bind_of_ret hwrite).trans rfl, rfl⟩
  | false => exact ⟨_, (bind_of_ret hwrite).trans rfl, rfl⟩

theorem free_of_write
    (hrun : platformWriteFirstFreeSpiProtect latch dxe 0 base length s = .ret .success t) :
    ∃ r, freeRegister s = .ret (some r) s ∧
      latch s.spis r 0 (protectValue 0 base length) = protectValue 0 base length := by
  obtain ⟨offset, hfree, -⟩ := freeRegister_ret s
  cases offset with
  | none =>
    have hwrite : writeFirstFreeSpiProtect latch 0 base length s = .ret (.notFound, none) s :=
      (bind_of_ret hfree).trans rfl
    have hstatus := hrun.symm.trans (bind_of_ret hwrite)
    cases hstatus
  | some r =>
    refine ⟨r, hfree, ?_⟩
    by_contra htaken
    have hwrite := writeFirstFreeSpiProtect_ret latch base length hfree
    rw [if_neg (Ne.symm htaken)] at hwrite
    have hstatus := hrun.symm.trans (bind_of_ret hwrite)
    cases hstatus

theorem covers_kept (hfree : freeRegister s = .ret (some r) s) (r' : ProtectRegister) (v : BitVec 32)
    (henabled : s.pbr r' &&& wpe ≠ 0) : Function.update s.pbr r v r' = s.pbr r' := by
  have hne : r' ≠ r := by
    rintro rfl
    rw [pbr_eq_zero hfree] at henabled
    exact henabled (by decide)
  rw [Function.update_of_ne hne]

theorem reported_write_iff (hfree : freeRegister s = .ret (some r) s) (hpos : 0 < length.toNat)
    (hend : base.toNat + length.toNat ≤ flashSpace)
    (hpbr : t.pbr = Function.update s.pbr r (protectValue 0 base length)) :
    Reported t base length ↔ roundedEnd base.toNat length.toNat ≤ flashSpace ∨
      ∃ r, s.pbr r &&& wpe ≠ 0 ∧ (protectedBase (s.pbr r)).toNat ≤ base.toNat ∧
        base.toNat + length.toNat ≤ (protectedLimit (s.pbr r)).toNat + 1 := by
  have hspace : base.toNat + length.toNat ≤ 0x1000000 := hend
  have hfirst := protectedBase_protectValue base length
  have hlimit := protectedLimit_protectValue hpos hend
  have hlast := last_toNat base hpos
  rw [reported_iff, hpbr]
  constructor
  · rintro ⟨-, r', henabled, hle, hle'⟩
    by_cases hr : r' = r
    · subst hr
      rw [Function.update_self] at hle'
      refine .inl ?_
      rw [hlimit] at hle'
      unfold roundedEnd at hle' ⊢
      show _ ≤ 0x1000000
      omega
    · rw [Function.update_of_ne hr] at henabled hle hle'
      refine .inr ⟨r', henabled, hle, ?_⟩
      omega
  · rintro (hrounded | ⟨r', henabled, hle, hle'⟩)
    · refine ⟨hpos, r, ?_⟩
      rw [Function.update_self]
      refine ⟨protectValue_wpe base length, ?_, ?_⟩
      · rw [hfirst]
        omega
      · have hin : roundedEnd base.toNat length.toNat ≤ 0x1000000 := hrounded
        rw [hlimit]
        unfold roundedEnd at hin ⊢
        omega
    · refine ⟨hpos, r', ?_⟩
      rw [covers_kept hfree r' _ henabled]
      refine ⟨henabled, hle, ?_⟩
      omega

theorem write_iff : (0 < length.toNat → base.toNat + length.toNat ≤ flashSpace →
    ∀ t, platformWriteFirstFreeSpiProtect latch dxe 0 base length s = .ret .success t →
      Reported t base length ∧ (∀ a, Protected s a → Protected t a) ∧
        ∀ b n, Reported s b n → Reported t b n) ↔ WriteCovers latch s base length := by
  constructor
  · intro hwrite hpos hend r hfree htaken
    obtain ⟨t, hrun, hpbr⟩ := write_of_free dxe hfree htaken
    exact (reported_write_iff hfree hpos hend hpbr).mp (hwrite hpos hend t hrun).1
  · intro hcovers hpos hend t hrun
    obtain ⟨r, hfree, htaken⟩ := free_of_write hrun
    obtain ⟨t', hrun', hpbr⟩ := write_of_free dxe hfree htaken
    rw [hrun] at hrun'
    injection hrun' with _ ht
    rw [← ht] at hpbr
    refine ⟨(reported_write_iff hfree hpos hend hpbr).mpr (hcovers hpos hend r hfree htaken), ?_, ?_⟩
    · rintro a ⟨r', hcovered⟩
      refine ⟨r', ?_⟩
      rw [hpbr, covers_kept hfree r' _ hcovered.1]
      exact hcovered
    · intro b n hreported
      obtain ⟨hn, r', henabled, hle, hle'⟩ := reported_iff.mp hreported
      refine reported_iff.mpr ⟨hn, r', ?_⟩
      rw [hpbr, covers_kept hfree r' _ henabled]
      exact ⟨henabled, hle, hle'⟩

end

/-! ## What is cleared -/

section

variable {latch : Latch} {s : SpiRegisters}

def SpiRegisters.cleared (s : SpiRegisters) (latch : Latch) : SpiRegisters :=
  { s with pbr := fun r => latch s.spis r (s.pbr r) 0 }

theorem platformClearSpiProtect_success (t : SpiRegisters) :
    platformClearSpiProtect latch s = .ret .success t ↔
      s.spis &&& scl = 0 ∧ latch s.spis .pbr0 (s.pbr .pbr0) 0 = 0 ∧ t = s.cleared latch := by
  by_cases hscl : s.spis &&& scl = 0
  · by_cases hfirst : latch s.spis .pbr0 (s.pbr .pbr0) 0 = 0
    · have hrun : platformClearSpiProtect latch s = .ret .success (s.cleared latch) := by
        unfold platformClearSpiProtect
        refine (bind_of_ret (x := readSpis) rfl).trans ?_
        rw [if_neg (not_not.mpr hscl)]
        refine (bind_of_ret (x := writePbr latch .pbr0 0) rfl).trans ?_
        refine (bind_of_ret (x := readPbr .pbr0) (b := latch s.spis .pbr0 (s.pbr .pbr0) 0) rfl).trans ?_
        rw [if_neg (not_not.mpr hfirst)]
        refine (bind_of_ret (x := writePbr latch .pbr1 0) rfl).trans ?_
        refine (bind_of_ret (x := readPbr .pbr0) (b := latch s.spis .pbr0 (s.pbr .pbr0) 0) rfl).trans ?_
        rw [if_neg (not_not.mpr hfirst)]
        refine (bind_of_ret (x := writePbr latch .pbr2 0) rfl).trans ?_
        refine (bind_of_ret (x := readPbr .pbr0) (b := latch s.spis .pbr0 (s.pbr .pbr0) 0) rfl).trans ?_
        rw [if_neg (not_not.mpr hfirst)]
        refine congrArg (Outcome.ret _) (congrArg (SpiRegisters.mk s.spis · s.bootScript) (funext fun r => ?_))
        cases r with
        | pbr0 => rfl
        | pbr1 => rfl
        | pbr2 => rfl
      rw [hrun]
      constructor
      · rintro ⟨⟩
        exact ⟨hscl, hfirst, rfl⟩
      · rintro ⟨-, -, rfl⟩
        rfl
    · have hrun : ∃ t, platformClearSpiProtect latch s = .ret .accessDenied t := by
        refine ⟨{ s with pbr := Function.update s.pbr .pbr0 (latch s.spis .pbr0 (s.pbr .pbr0) 0) }, ?_⟩
        refine (bind_of_ret (x := readSpis) rfl).trans ?_
        rw [if_neg (not_not.mpr hscl)]
        refine (bind_of_ret (x := writePbr latch .pbr0 0) rfl).trans ?_
        refine (bind_of_ret (x := readPbr .pbr0) (b := latch s.spis .pbr0 (s.pbr .pbr0) 0) rfl).trans ?_
        rw [if_pos hfirst]
        rfl
      obtain ⟨t', hrun⟩ := hrun
      rw [hrun]
      refine iff_of_false ?_ fun h => hfirst h.2.1
      rintro ⟨⟩
  · have hrun : platformClearSpiProtect latch s = .ret .accessDenied s := by
      refine (bind_of_ret (x := readSpis) rfl).trans ?_
      rw [if_pos hscl]
      rfl
    rw [hrun]
    refine iff_of_false ?_ fun h => hscl h.1
    rintro ⟨⟩

theorem clear_iff : (∀ t, platformClearSpiProtect latch s = .ret .success t → ∀ a, ¬ Protected t a) ↔
    ClearTaken latch s := by
  constructor
  · intro hclear hscl hfirst r _ a hcovers
    exact hclear _ ((platformClearSpiProtect_success _).mpr ⟨hscl, hfirst, rfl⟩) a ⟨r, hcovers⟩
  · rintro htaken t hrun a ⟨r, hcovers⟩
    obtain ⟨hscl, hfirst, rfl⟩ := (platformClearSpiProtect_success _).mp hrun
    by_cases hr : r = .pbr0
    · subst hr
      refine hcovers.1 ?_
      show latch s.spis .pbr0 (s.pbr .pbr0) 0 &&& wpe = 0
      rw [hfirst]
      decide
    · exact htaken hscl hfirst r hr a hcovers

end

/-! ## Agreement -/

theorem protectionAgrees_iff (latch : Latch) (dxe : Bool) (s : SpiRegisters) (base length : BitVec 32) :
    ProtectionAgrees latch dxe s base length ↔
      WrapRefused s base.toNat length.toNat ∧ WriteCovers latch s base length ∧ ClearTaken latch s := by
  constructor
  · intro h
    exact ⟨query_iff.mp h.query, write_iff.mp h.write, clear_iff.mp h.clear⟩
  · rintro ⟨hquery, hwrite, hclear⟩
    exact ⟨query_iff.mpr hquery, write_iff.mpr hwrite, clear_iff.mpr hclear⟩

def takesAll : Latch := fun _ _ _ value => value

/-- The upper half of the last page of the flash: the limit that is written for it is the end of the first
page. -/
theorem protection_not_agrees :
    ¬ ProtectionAgrees takesAll true ⟨0, fun _ => 0, []⟩ 0x00FFF800 0x800 := by
  intro h
  have hcovers := write_iff.mp h.write (by decide) (by decide) .pbr0 rfl rfl
  rcases hcovers with hrounded | ⟨r, henabled, -⟩
  · exact absurd hrounded (by decide)
  · exact henabled (show (0 : BitVec 32) &&& wpe = 0 by decide)

end Quark.PlatformHelper
