import Quark.PiSmmCpu.ProcessorLocation

/-!
# Processor location: which widths are used

Whatever leaf 0xB says, the location that is left is the one by the widths of leaf 1 and leaf 4. These are
small, but for a thread width of 32, which shifts as a width of 0 does.
-/

namespace Quark.PiSmmCpu

open Machine Exec

/-! ## The fields of a number -/

theorem toNat_and_not_shift (x : BitVec 32) {k : Nat} (hk : k < 32) :
    (x &&& ~~~(BitVec.allOnes 32 <<< k)).toNat = x.toNat % 2 ^ k := by
  apply Nat.eq_of_testBit_eq
  intro i
  rw [Nat.testBit_mod_two_pow, BitVec.testBit_toNat, BitVec.testBit_toNat, BitVec.getLsbD_and, BitVec.getLsbD_not,
    BitVec.getLsbD_shiftLeft, BitVec.getLsbD_allOnes]
  by_cases hi : i < k
  · have h32 : i < 32 := by omega
    simp [hi, h32]
  · by_cases h32 : i < 32
    · have hsub : i - k < 32 := by omega
      simp [hi, h32, hsub]
    · rw [BitVec.getLsbD_of_ge _ _ (Nat.not_lt.mp h32)]
      simp [hi]

theorem recombine (a t c : Nat) : a / 2 ^ (t + c) * 2 ^ (t + c) + a / 2 ^ t % 2 ^ c * 2 ^ t + a % 2 ^ t = a := by
  have hfields : a / 2 ^ t / 2 ^ c * 2 ^ c + a / 2 ^ t % 2 ^ c = a / 2 ^ t := by
    rw [Nat.mul_comm]
    exact Nat.div_add_mod (a / 2 ^ t) (2 ^ c)
  calc a / 2 ^ (t + c) * 2 ^ (t + c) + a / 2 ^ t % 2 ^ c * 2 ^ t + a % 2 ^ t
      = (a / 2 ^ t / 2 ^ c * 2 ^ c + a / 2 ^ t % 2 ^ c) * 2 ^ t + a % 2 ^ t := by
        rw [Nat.pow_add, ← Nat.div_div_eq_div_mul, Nat.add_mul, Nat.mul_assoc, Nat.mul_comm (2 ^ t)]
    _ = a / 2 ^ t * 2 ^ t + a % 2 ^ t := by rw [hfields]
    _ = a := by
        rw [Nat.mul_comm]
        exact Nat.div_add_mod a (2 ^ t)

theorem toNat_ofNat_two_pow {k : Nat} (hk : k < 32) : (BitVec.ofNat 32 (2 ^ k)).toNat = 2 ^ k := by
  rw [BitVec.toNat_ofNat]
  exact Nat.mod_eq_of_lt (Nat.pow_lt_pow_right (by omega) hk)

theorem eq_of_mod_eq {t t' : Nat} (ht' : t' < 32) (h : ∀ a : BitVec 32, a.toNat % 2 ^ t = a.toNat % 2 ^ t') :
    t = t' := by
  rcases Nat.lt_trichotomy t t' with hlt | heq | hgt
  · have hpow : 2 ^ t < 2 ^ t' := Nat.pow_lt_pow_right (by omega) hlt
    have hmod := h (BitVec.ofNat 32 (2 ^ t))
    rw [toNat_ofNat_two_pow (by omega), Nat.mod_self, Nat.mod_eq_of_lt hpow] at hmod
    exact absurd hmod.symm (Nat.pos_iff_ne_zero.mp (Nat.two_pow_pos t))
  · exact heq
  · have hpow : 2 ^ t' < 2 ^ t := Nat.pow_lt_pow_right (by omega) hgt
    have hmod := h (BitVec.ofNat 32 (2 ^ t'))
    rw [toNat_ofNat_two_pow ht', Nat.mod_self, Nat.mod_eq_of_lt hpow] at hmod
    exact absurd hmod (Nat.pos_iff_ne_zero.mp (Nat.two_pow_pos t'))

theorem eq_of_div_eq {k k' : Nat} (hk' : k' < 32) (h : ∀ a : BitVec 32, a.toNat / 2 ^ k = a.toNat / 2 ^ k') :
    k = k' := by
  rcases Nat.lt_trichotomy k k' with hlt | heq | hgt
  · have hpow : 2 ^ k < 2 ^ k' := Nat.pow_lt_pow_right (by omega) hlt
    have hdiv := h (BitVec.ofNat 32 (2 ^ k))
    rw [toNat_ofNat_two_pow (by omega), Nat.div_self (Nat.two_pow_pos k), Nat.div_eq_of_lt hpow] at hdiv
    cases hdiv
  · exact heq
  · have hpow : 2 ^ k' < 2 ^ k := Nat.pow_lt_pow_right (by omega) hgt
    have hdiv := h (BitVec.ofNat 32 (2 ^ k'))
    rw [toNat_ofNat_two_pow hk', Nat.div_self (Nat.two_pow_pos k'), Nat.div_eq_of_lt hpow] at hdiv
    cases hdiv

/-! ## The widths of leaf 1 and leaf 4 -/

def Widths.shifted (w : Widths) : Widths := ⟨BitVec.ofNat 32 (w.threadBits.toNat % 32), w.coreBits⟩

theorem toNat_bitsFor (n : BitVec 32) :
    (bitsFor n).toNat = if n - 1 = 0 then 0 else Nat.log2 (n - 1).toNat + 1 := by
  unfold bitsFor highBitSet32
  by_cases h : n - 1 = 0
  · rw [if_pos h, if_pos h]
    rfl
  · have hlog : Nat.log2 (n - 1).toNat < 32 := by
      rw [Nat.log2_lt fun h0 => h (BitVec.eq_of_toNat_eq h0)]
      exact (n - 1).isLt
    have hcast : (Nat.log2 (n - 1).toNat : Int) + 1 = ((Nat.log2 (n - 1).toNat + 1 : Nat) : Int) := rfl
    rw [if_neg h, if_neg h, hcast, BitVec.ofInt_natCast, BitVec.toNat_ofNat]
    exact Nat.mod_eq_of_lt (by omega)

theorem toNat_bitsFor_le {n : BitVec 32} {k : Nat} (hpos : 0 < n.toNat) (hle : n.toNat ≤ 2 ^ k) :
    (bitsFor n).toNat ≤ k := by
  have hpred : (n - 1).toNat = n.toNat - 1 := BitVec.toNat_sub_of_le (by rw [BitVec.le_def]; exact hpos)
  rw [toNat_bitsFor]
  split
  · exact Nat.zero_le k
  · next h =>
    have hne : (n - 1).toNat ≠ 0 := fun h0 => h (BitVec.eq_of_toNat_eq h0)
    rw [Nat.succ_le_iff, Nat.log2_lt hne, hpred]
    omega

theorem toNat_bitsFor_zero : (bitsFor 0).toNat = 32 := by
  rw [toNat_bitsFor]
  rfl

theorem maxCoresPerPackage_bounds (c : Cpuid) :
    0 < c.maxCoresPerPackage.toNat ∧ c.maxCoresPerPackage.toNat ≤ 2 ^ 6 := by
  have hlt := c.cacheParamsEax.isLt
  unfold Cpuid.maxCoresPerPackage
  split
  · rw [BitVec.toNat_add, BitVec.toNat_ushiftRight, Nat.shiftRight_eq_div_pow]
    have hone : (1 : BitVec 32).toNat = 1 := rfl
    rw [hone]
    omega
  · exact ⟨Nat.one_pos, by decide⟩

theorem countWidths_coreBits_le (c : Cpuid) : c.countWidths.coreBits.toNat ≤ 6 :=
  toNat_bitsFor_le (maxCoresPerPackage_bounds c).1 (maxCoresPerPackage_bounds c).2

theorem countWidths_threadBits (c : Cpuid) :
    c.countWidths.threadBits.toNat ≤ 8 ∨ c.countWidths.threadBits.toNat = 32 := by
  have hdef : c.countWidths.threadBits = bitsFor (((c.versionEbx >>> 16) &&& 0xFF) / c.maxCoresPerPackage) := rfl
  rw [hdef]
  generalize hq : ((c.versionEbx >>> 16) &&& 0xFF) / c.maxCoresPerPackage = q
  by_cases h : q = 0
  · rw [h]
    exact .inr toNat_bitsFor_zero
  · left
    apply toNat_bitsFor_le
    · exact Nat.pos_of_ne_zero fun h0 => h (BitVec.eq_of_toNat_eq h0)
    · rw [← hq, BitVec.toNat_udiv, BitVec.toNat_and]
      calc ((c.versionEbx >>> 16).toNat &&& (0xFF : BitVec 32).toNat) / c.maxCoresPerPackage.toNat
          ≤ (c.versionEbx >>> 16).toNat &&& (0xFF : BitVec 32).toNat := Nat.div_le_self _ _
        _ ≤ (0xFF : BitVec 32).toNat := Nat.and_le_right
        _ ≤ 2 ^ 8 := by decide

/-! ## The location -/

theorem locate_decodes (c : Cpuid) (apicId : BitVec 32) :
    (locate apicId c.countWidths).Decodes c.countWidths.shifted apicId := by
  have hc := countWidths_coreBits_le c
  have ht := countWidths_threadBits c
  have hshift : c.countWidths.shifted.threadBits.toNat = c.countWidths.threadBits.toNat % 32 := by
    show (BitVec.ofNat 32 (c.countWidths.threadBits.toNat % 32)).toNat = _
    rw [BitVec.toNat_ofNat]
    omega
  have hcore : c.countWidths.shifted.coreBits = c.countWidths.coreBits := rfl
  have hsum : (c.countWidths.threadBits + c.countWidths.coreBits).toNat % 32 =
      c.countWidths.threadBits.toNat % 32 + c.countWidths.coreBits.toNat := by
    rw [BitVec.toNat_add]
    omega
  constructor
  · rw [hshift]
    exact toNat_and_not_shift apicId (Nat.mod_lt _ (by omega))
  · rw [hshift, hcore]
    show ((apicId >>> (c.countWidths.threadBits.toNat % 32)) &&&
      ~~~(BitVec.allOnes 32 <<< (c.countWidths.coreBits.toNat % 32))).toNat = _
    rw [toNat_and_not_shift _ (Nat.mod_lt _ (by omega)), BitVec.toNat_ushiftRight, Nat.shiftRight_eq_div_pow,
      Nat.mod_eq_of_lt (show c.countWidths.coreBits.toNat < 32 by omega)]
  · rw [hshift, hcore]
    show (apicId >>> ((c.countWidths.threadBits + c.countWidths.coreBits).toNat % 32)).toNat = _
    rw [hsum, BitVec.toNat_ushiftRight, Nat.shiftRight_eq_div_pow]

theorem Location.Decodes.recombine {l : Location} {w : Widths} {apicId : BitVec 32} (h : l.Decodes w apicId) :
    l.package.toNat * 2 ^ (w.threadBits.toNat + w.coreBits.toNat) + l.core.toNat * 2 ^ w.threadBits.toNat +
      l.thread.toNat = apicId.toNat := by
  rw [h.package, h.core, h.thread]
  exact PiSmmCpu.recombine apicId.toNat w.threadBits.toNat w.coreBits.toNat

theorem widths_eq_of_decodes {c : Cpuid} {w : Widths}
    (h : ∀ apicId, (locate apicId c.countWidths).Decodes w apicId) : w = c.countWidths.shifted := by
  have hc := countWidths_coreBits_le c
  have ht := countWidths_threadBits c
  have hshift : c.countWidths.shifted.threadBits.toNat = c.countWidths.threadBits.toNat % 32 := by
    show (BitVec.ofNat 32 (c.countWidths.threadBits.toNat % 32)).toNat = _
    rw [BitVec.toNat_ofNat]
    omega
  have hcore : c.countWidths.shifted.coreBits.toNat ≤ 6 := hc
  have hthread : w.threadBits.toNat = c.countWidths.shifted.threadBits.toNat := by
    apply eq_of_mod_eq (by omega)
    intro a
    rw [← (h a).thread, (locate_decodes c a).thread]
  have hpackage : w.threadBits.toNat + w.coreBits.toNat =
      c.countWidths.shifted.threadBits.toNat + c.countWidths.shifted.coreBits.toNat := by
    apply eq_of_div_eq (by omega)
    intro a
    rw [← (h a).package, (locate_decodes c a).package]
  have hcoreBits : w.coreBits = c.countWidths.shifted.coreBits := BitVec.eq_of_toNat_eq (by omega)
  cases w
  exact congrArg₂ Widths.mk (BitVec.eq_of_toNat_eq hthread) hcoreBits

/-! ## The function -/

theorem level_of_drop {c : Cpuid} {i : Nat} {rest : List TopologyLevel} (h : c.topology.drop i = rest)
    (hi : i ≤ c.topology.length) :
    c.level (BitVec.ofNat 32 i) = rest.headD ⟨0, 0, 0⟩ := by
  have hlt := c.topology_length
  unfold Cpuid.level
  rw [BitVec.toNat_ofNat, Nat.mod_eq_of_lt (by omega), ← h, List.getD_eq_getElem?_getD, List.headD_eq_head?_getD,
    List.head?_drop]

theorem loop_coreBitsBody (c : Cpuid) (threadBits : BitVec 32) (old : Location) (rest : List TopologyLevel) :
    ∀ i : Nat, c.topology.drop i = rest → i ≤ c.topology.length →
      loop (rest.length + 1) (coreBitsBody c threadBits) (BitVec.ofNat 32 i) old =
        .ret ((coreShift? rest).elim 0 (· - threadBits)) old := by
  induction rest with
  | nil =>
    intro i hdrop hi
    apply loop_of_inr
    unfold coreBitsBody
    rw [level_of_drop hdrop hi]
    rfl
  | cons l rest ih =>
    intro i hdrop hi
    have hlevel := level_of_drop hdrop hi
    have hlength := congrArg List.length hdrop
    rw [List.length_drop, List.length_cons] at hlength
    have hnext : BitVec.ofNat 32 i + 1 = BitVec.ofNat 32 (i + 1) := by
      rw [BitVec.ofNat_add]
      rfl
    rw [coreShift?]
    by_cases hcore : l.levelType = levelTypeCore
    · rw [if_pos hcore]
      apply loop_of_inr
      simp only [coreBitsBody, hlevel, List.headD_cons, if_pos hcore]
      rfl
    · by_cases hinvalid : l.levelType = levelTypeInvalid
      · rw [if_neg hcore, if_pos hinvalid]
        apply loop_of_inr
        simp only [coreBitsBody, hlevel, List.headD_cons, if_neg hcore, hinvalid, ne_eq, not_true, if_false]
        rfl
      · have hbody : coreBitsBody c threadBits (BitVec.ofNat 32 i) old = .ret (.inl (BitVec.ofNat 32 (i + 1))) old := by
          simp only [coreBitsBody, hlevel, List.headD_cons, if_neg hcore, hinvalid, ne_eq, not_false_eq_true, if_true,
            hnext]
          rfl
        rw [if_neg hcore, if_neg hinvalid, List.length_cons, loop_of_inl hbody]
        exact ih (i + 1) (by rw [← List.drop_drop, hdrop]; rfl) (by omega)

theorem smmGetProcessorLocation_returns {asserts : Bool} {c : Cpuid}
    (h : asserts = true → c.versionEdx.getLsbD 28 = true) (apicId : BitVec 32) (old : Location) :
    ∃ fuel, smmGetProcessorLocation fuel asserts c apicId old = .ret () (locate apicId c.countWidths) := by
  by_cases hvalid : c.topologyValid = true
  · have hone : 1 ≤ c.topology.length := by
      cases hlist : c.topology with
      | nil => simp [Cpuid.topologyValid, Cpuid.level, hlist] at hvalid
      | cons l rest =>
        rw [List.length_cons]
        omega
    have hloop : loop ((c.topology.drop 1).length + 1) (coreBitsBody c ((c.level 0).eax &&& 0x1F)) 1 old =
        .ret c.topologyWidths.coreBits old :=
      loop_coreBitsBody c ((c.level 0).eax &&& 0x1F) old (c.topology.drop 1) 1 rfl hone
    refine ⟨(c.topology.drop 1).length + 1, ?_⟩
    have hleaf : (Exec.when (c.topologyValid = true) do
        let coreBits ← loop ((c.topology.drop 1).length + 1) (coreBitsBody c ((c.level 0).eax &&& 0x1F)) 1
        Exec.modify fun _ => locate apicId ⟨(c.level 0).eax &&& 0x1F, coreBits⟩ : Exec Location Unit) old =
        .ret () (locate apicId c.topologyWidths) := by
      rw [Exec.when, if_pos hvalid, bind_of_ret hloop]
      rfl
    unfold smmGetProcessorLocation
    rw [bind_of_ret (assert_of h old), bind_of_ret hleaf]
    rfl
  · refine ⟨0, ?_⟩
    unfold smmGetProcessorLocation
    rw [bind_of_ret (assert_of h old), Exec.when, if_neg hvalid]
    rfl

theorem location_of_ret {fuel : Nat} {asserts : Bool} {c : Cpuid} {apicId : BitVec 32} {old l : Location}
    (h : smmGetProcessorLocation fuel asserts c apicId old = .ret () l) :
    (asserts = true → c.versionEdx.getLsbD 28 = true) ∧ l = locate apicId c.countWidths := by
  unfold smmGetProcessorLocation at h
  obtain ⟨_, _, hassert, h⟩ := ret_of_bind h
  obtain ⟨_, _, -, h⟩ := ret_of_bind h
  cases h
  exact ⟨(of_assert hassert).1, rfl⟩

/-- Hyper-threading is reported where that is asserted, and the widths to be used are those that the counts of
leaf 1 and leaf 4 give, with a thread width of 32 for none. -/
def CountsGiveWidths (asserts : Bool) (c : Cpuid) : Prop :=
  (asserts = true → c.versionEdx.getLsbD 28 = true) ∧ c.widths = c.countWidths.shifted

theorem countsGiveWidths_of_faithful {asserts : Bool} {c : Cpuid} (h : LocationsFaithful asserts c) :
    CountsGiveWidths asserts c := by
  obtain ⟨location, hruns, hdecodes, -⟩ := h
  have hlocation : ∀ apicId, location apicId = locate apicId c.countWidths := by
    intro apicId
    obtain ⟨fuel, hrun⟩ := hruns apicId ⟨0, 0, 0⟩
    exact (location_of_ret hrun).2
  obtain ⟨fuel, hrun⟩ := hruns 0 ⟨0, 0, 0⟩
  refine ⟨(location_of_ret hrun).1, widths_eq_of_decodes fun apicId => ?_⟩
  rw [← hlocation apicId]
  exact (hdecodes apicId).1

/-- The locations are faithful exactly if leaf 1 and leaf 4 give the widths to be used. -/
theorem smmGetProcessorLocation_faithful_iff (asserts : Bool) (c : Cpuid) :
    LocationsFaithful asserts c ↔ CountsGiveWidths asserts c := by
  constructor
  · exact countsGiveWidths_of_faithful
  · rintro ⟨hassert, hwidths⟩
    have hdecodes : ∀ apicId, (locate apicId c.countWidths).Decodes c.widths apicId := by
      intro apicId
      rw [hwidths]
      exact locate_decodes c apicId
    refine ⟨fun apicId => locate apicId c.countWidths, fun apicId old => ?_, fun apicId => ?_, ?_⟩
    · exact smmGetProcessorLocation_returns hassert apicId old
    · exact ⟨hdecodes apicId, (hdecodes apicId).recombine⟩
    · intro a b hab
      have ha := (hdecodes a).recombine
      have hb := (hdecodes b).recombine
      change locate a c.countWidths = locate b c.countWidths at hab
      rw [hab, hb] at ha
      exact BitVec.eq_of_toNat_eq ha.symm

/-- 96 cores with two threads each: leaf 0xB reports 1 bit for threads and 8 bits up to the package, leaf 1 and
leaf 4 have room for 255 and 64. -/
def ninetySixCores : Cpuid where
  maxLeaf := 0x16
  versionEbx := 0x00FF0800
  versionEdx := 0x10000000
  cacheParamsEax := 0xFC000121
  topology := [⟨1, 2, 0x100⟩, ⟨8, 192, 0x201⟩]
  topology_length := by decide

theorem smmGetProcessorLocation_96_cores : ¬ LocationsFaithful true ninetySixCores := by
  intro h
  obtain ⟨-, hwidths⟩ := countsGiveWidths_of_faithful h
  exact absurd hwidths (by decide)

end Quark.PiSmmCpu
