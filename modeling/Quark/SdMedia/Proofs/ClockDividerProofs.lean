import Quark.SdMedia.ClockDivider

/-!
# The divider that is chosen

Doubling comes by the powers of two in order. The nested divisions give the last divider whose clock, not
rounded, is at least the target.
-/

namespace Quark.SdMedia

open Machine

variable {base target : Nat}

theorem divide_ok {a b : Nat} (h : b ≠ 0) : divide a b = .ok (a / b) := if_neg h

theorem divider_of_pos {n : Nat} (h : 0 < n) : divider n = 2 * n := if_neg (Nat.ne_of_gt h)

theorem divider_pos (n : Nat) : 0 < divider n := by
  unfold divider
  split <;> omega

theorem aboveExact_of_whole {n : Nat} (h : AboveWhole base target n) : AboveExact base target n := by
  have hmul := (Nat.le_div_iff_mul_le (divider_pos n)).mp h
  rw [Nat.succ_mul] at hmul
  exact Nat.lt_of_lt_of_le (Nat.lt_add_of_pos_right (divider_pos n)) hmul

theorem aboveWhole_zero (h : target < base) : AboveWhole base target 0 := by
  unfold AboveWhole
  rwa [divider, if_pos rfl, Nat.div_one]

theorem Fastest.mono {is8BitMode : Bool} {above above' : Nat → Prop} {r : Except EfiStatus (BitVec 16)}
    (h : Fastest base target is8BitMode above r) (hmono : ∀ n, above n → above' n) :
    Fastest base target is8BitMode above' r := by
  cases r with
  | ok bits => exact ⟨h.1, h.2.1, fun n hn hlt => hmono n (h.2.2 n hn hlt)⟩
  | error status => exact ⟨h.1, fun n hn => hmono n (h.2 n hn)⟩

/-! ## The bits -/

theorem freqSel_both : ∀ n < 1024, freqSel (upperFreqSel n ||| lowerFreqSel n) = n := by decide +kernel

theorem freqSel_lower : ∀ n < 256, freqSel (lowerFreqSel n) = n := by decide +kernel

/-! ## Eight bits -/

def Found8 (base target k : Nat) : Except EfiStatus Nat → Prop
  | .ok n => ∃ j, k ≤ j ∧ j ≤ 7 ∧ n = 2 ^ j ∧ base / (2 * 2 ^ j) ≤ target ∧
      ∀ i, k ≤ i → i < j → AboveWhole base target (2 ^ i)
  | .error status => status = .unsupported ∧ ∀ i, k ≤ i → i ≤ 7 → AboveWhole base target (2 ^ i)

theorem aboveWhole_pow {i : Nat} (h : ¬ base / (2 * 2 ^ i) ≤ target) : AboveWhole base target (2 ^ i) := by
  unfold AboveWhole
  rw [divider_of_pos (Nat.two_pow_pos i)]
  exact Nat.lt_of_not_le h

theorem search8Bit_ok (base target : Nat) : ∀ {k fuel : Nat}, k + fuel = 8 → 0 < fuel →
    ∃ r, search8Bit base target fuel (2 ^ k) = .ok r ∧ Found8 base target k r := by
  intro k fuel
  induction fuel generalizing k with
  | zero => intro _ hfuel; cases hfuel
  | succ fuel ih =>
    intro hk _
    have hpow : 2 ^ k ≤ 2 ^ 7 := Nat.pow_le_pow_right (by decide) (by omega)
    have hpos := Nat.two_pow_pos k
    have hdouble : u32 (2 ^ k * 2) = 2 ^ (k + 1) := by rw [u32_of_lt (by omega), Nat.pow_succ]
    have hdiv : divide base (u32 (2 * 2 ^ k)) = .ok (base / (2 * 2 ^ k)) := by
      rw [u32_of_lt (by omega), divide_ok (by omega)]
    unfold search8Bit
    rw [hdiv]
    show ∃ r, (if target ≥ base / (2 * 2 ^ k) then _ else _) = _ ∧ _
    by_cases hslow : base / (2 * 2 ^ k) ≤ target
    · rw [if_pos hslow]
      exact ⟨_, rfl, k, Nat.le_refl k, by omega, rfl, hslow, fun i hi hlt => absurd hlt (Nat.not_lt.mpr hi)⟩
    · have hfast := aboveWhole_pow hslow
      rw [if_neg hslow, hdouble]
      by_cases hlast : k = 7
      · subst hlast
        rw [if_pos (by decide)]
        refine ⟨_, rfl, rfl, fun i hi hi' => ?_⟩
        rwa [Nat.le_antisymm hi' hi]
      · have hnext : 2 ^ (k + 1) ≤ 2 ^ 7 := Nat.pow_le_pow_right (by decide) (by omega)
        rw [if_neg (show ¬ 2 ^ (k + 1) > vMmioClkctlMax8BitFreqSel from Nat.not_lt.mpr hnext)]
        obtain ⟨r, hrun, hfound⟩ := ih (k := k + 1) (by omega) (by omega)
        refine ⟨r, hrun, ?_⟩
        -- the divider of this pass is above the target as well
        have hcons : ∀ i, k ≤ i → (k + 1 ≤ i → AboveWhole base target (2 ^ i)) → AboveWhole base target (2 ^ i) := by
          intro i hi hrest
          rcases Nat.eq_or_lt_of_le hi with rfl | hlt
          · exact hfast
          · exact hrest hlt
        cases r with
        | ok n =>
          obtain ⟨j, hkj, hj, hn, hle, hbefore⟩ := hfound
          exact ⟨j, Nat.le_of_succ_le hkj, hj, hn, hle, fun i hi hlt => hcons i hi fun hi' => hbefore i hi' hlt⟩
        | error status => exact ⟨hfound.1, fun i hi hi' => hcons i hi fun hi'' => hfound.2 i hi'' hi'⟩

/-! ## Ten bits -/

theorem calculate10Bit_ok (hbase : base < 0x100000000) (htarget : 0 < target) (hfast : target < base / (2 * 1)) :
    ∃ n, calculate10Bit base target = .ok n ∧ 0 < n ∧ base / (2 * n) ≤ target ∧
      ∀ m, 0 < m → m < n → AboveExact base target m ∧ (m ≤ target → AboveWhole base target m) := by
  have hquotient : base / target / 2 = base / (target * 2) := Nat.div_div_eq_div_mul base target 2
  have hlower : base / (target * 2) * (target * 2) ≤ base := Nat.div_mul_le_self base _
  have hupper : base < (target * 2) * (base / (target * 2) + 1) := Nat.lt_mul_div_succ base (by omega)
  have hpos : 0 < base / (target * 2) := by
    refine Nat.div_pos ?_ (by omega)
    have hmul := (Nat.le_div_iff_mul_le (by decide)).mp hfast
    omega
  have hrun : calculate10Bit base target = (do
      let currFreq ← divide base (u32 (2 * (base / (target * 2))))
      if target < currFreq then
        let n := u32 (base / (target * 2) + 1)
        let _ ← divide base (u32 (2 * n))
        pure n
      else pure (base / (target * 2))) := by
    unfold calculate10Bit
    rw [divide_ok (Nat.ne_of_gt htarget), ← hquotient]
    rfl
  generalize base / (target * 2) = n at hlower hupper hpos hrun
  have hle : n * 2 ≤ n * (target * 2) := Nat.mul_le_mul_left n (by omega)
  -- dividers before `N` are above the target
  have hbefore : ∀ m, 0 < m → m < n → AboveExact base target m ∧ (m ≤ target → AboveWhole base target m) := by
    intro m hm hlt
    unfold AboveExact AboveWhole
    rw [divider_of_pos hm]
    have hstep : (m + 1) * (target * 2) ≤ base := (Nat.mul_le_mul_right _ hlt).trans hlower
    have hsum : (m + 1) * (target * 2) = target * (2 * m) + 2 * target := by ring
    constructor
    · omega
    · intro hmt
      refine (Nat.le_div_iff_mul_le (by omega)).mpr ?_
      rw [Nat.succ_mul]
      omega
  rw [u32_of_lt (by omega), divide_ok (by omega)] at hrun
  by_cases hslow : base / (2 * n) ≤ target
  · refine ⟨n, hrun.trans (if_neg (Nat.not_lt.mpr hslow)), hpos, hslow, hbefore⟩
  · have hn : AboveWhole base target n := by
      unfold AboveWhole
      rw [divider_of_pos hpos]
      exact Nat.lt_of_not_le hslow
    have hmul := (Nat.le_div_iff_mul_le (by omega)).mp (Nat.lt_of_not_le hslow)
    have hgrow : 2 * (2 * n) ≤ base := (Nat.mul_le_mul_right (2 * n) (Nat.succ_le_succ htarget)).trans hmul
    have hdiv : divide base (u32 (2 * u32 (n + 1))) = .ok (base / (2 * (n + 1))) := by
      rw [u32_of_lt (show n + 1 < 0x100000000 by omega), u32_of_lt (by omega), divide_ok (by omega)]
    refine ⟨n + 1, ?_, Nat.succ_pos n, ?_, fun m hm hlt => ?_⟩
    · refine hrun.trans ((if_pos (Nat.lt_of_not_le hslow)).trans ?_)
      rw [hdiv, u32_of_lt (by omega)]
      rfl
    · refine Nat.le_of_lt (Nat.div_lt_of_lt_mul ?_)
      calc base < target * 2 * (n + 1) := hupper
        _ = 2 * (n + 1) * target := by ring
    · rcases Nat.eq_or_lt_of_le (Nat.le_of_lt_succ hlt) with rfl | hlt'
      · exact ⟨aboveExact_of_whole hn, fun _ => hn⟩
      · exact hbefore m hm hlt'

/-! ## The choice -/

theorem divideBy_two (base : Nat) : divide base (u32 (2 * 1)) = .ok (base / (2 * 1)) := divide_ok (by decide)

theorem fastest_zero (is8BitMode : Bool) (above : Nat → Prop) (h : base ≤ target) :
    Fastest base target is8BitMode above (.ok (lowerFreqSel 0)) := by
  have hsel : freqSel (lowerFreqSel 0) = 0 := freqSel_lower 0 (by decide)
  refine ⟨?_, ?_, fun n _ hlt => ?_⟩
  · rw [hsel]
    cases is8BitMode
    · exact Nat.zero_le _
    · exact .inl rfl
  · rw [hsel]
    exact (Nat.div_le_self _ _).trans h
  · rw [hsel] at hlt
    exact absurd (divider_pos n) (Nat.not_lt.mpr (Nat.le_of_lt_succ hlt))

theorem fastest8 {r : Except EfiStatus Nat} (hfast : target < base) (h : Found8 base target 0 r) :
    Fastest base target true (AboveWhole base target)
      (match r with
        | .ok n => .ok (lowerFreqSel n)
        | .error status => .error status) := by
  cases r with
  | ok n =>
    obtain ⟨j, -, hj, rfl, hle, hbefore⟩ := h
    have hpos := Nat.two_pow_pos j
    have hsel : freqSel (lowerFreqSel (2 ^ j)) = 2 ^ j :=
      freqSel_lower _ (Nat.lt_of_le_of_lt (Nat.pow_le_pow_right (by decide) hj) (by decide))
    refine ⟨?_, ?_, fun n hn hlt => ?_⟩
    · rw [hsel]
      exact .inr ⟨j, hj, rfl⟩
    · rwa [hsel, divider_of_pos hpos]
    · rw [hsel, divider_of_pos hpos] at hlt
      obtain rfl | ⟨i, -, rfl⟩ := hn
      · exact aboveWhole_zero hfast
      · rw [divider_of_pos (Nat.two_pow_pos i)] at hlt
        refine hbefore i (Nat.zero_le i) ?_
        exact (Nat.pow_lt_pow_iff_right (by decide)).mp (Nat.lt_of_mul_lt_mul_left hlt)
  | error status =>
    refine ⟨h.1, fun n hn => ?_⟩
    obtain rfl | ⟨i, hi, rfl⟩ := hn
    · exact aboveWhole_zero hfast
    · exact h.2 i (Nat.zero_le i) hi

theorem fastest10 {above : Nat → Prop} {n : Nat} (hn : 0 < n) (hmax : n ≤ vMmioClkctlMax10BitFreqSel)
    (hle : base / (2 * n) ≤ target) (hbefore : ∀ m < n, above m) {bits : BitVec 16} (hbits : freqSel bits = n) :
    Fastest base target false above (.ok bits) := by
  refine ⟨?_, ?_, fun m _ hlt => ?_⟩
  · rwa [hbits]
  · rwa [hbits, divider_of_pos hn]
  · rw [hbits, divider_of_pos hn] at hlt
    refine hbefore m ?_
    unfold divider at hlt
    split at hlt
    · omega
    · omega

theorem fastest10_choice {above : Nat → Prop} {n : Nat} (hn : 0 < n) (hle : base / (2 * n) ≤ target)
    (hbefore : ∀ m < n, m ≤ vMmioClkctlMax10BitFreqSel → above m) :
    Fastest base target false above
      (if n > vMmioClkctlMax10BitFreqSel then .error .unsupported else .ok (upperFreqSel n ||| lowerFreqSel n)) := by
  by_cases hmax : n ≤ vMmioClkctlMax10BitFreqSel
  · rw [if_neg (Nat.not_lt.mpr hmax)]
    exact fastest10 hn hmax hle (fun m hm => hbefore m hm (hm.le.trans hmax))
      (freqSel_both n (Nat.lt_succ_of_le hmax))
  · have hlt := Nat.lt_of_not_le hmax
    rw [if_pos hlt]
    exact ⟨rfl, fun m hm => hbefore m (Nat.lt_of_le_of_lt hm hlt) hm⟩

/-- For every base clock and every target frequency there is no division by zero, and the bits are for the
fastest clock that is not above the target: in whole hertz with 8 bits, and with 10 bits when the target is at least
the largest `N`; for smaller targets the clocks of smaller dividers, not rounded, are above the target. -/
theorem dividedClockModeBits_fastest (base target : BitVec 32) (is8BitMode : Bool) (h : 0 < target.toNat) :
    ∃ r, dividedClockModeBits base target is8BitMode = .ok r ∧
      Fastest base.toNat target.toNat is8BitMode (AboveExact base.toNat target.toNat) r ∧
      (is8BitMode = true ∨ vMmioClkctlMax10BitFreqSel ≤ target.toNat →
        Fastest base.toNat target.toNat is8BitMode (AboveWhole base.toNat target.toNat) r) := by
  unfold dividedClockModeBits
  generalize hb : base.toNat = b
  generalize target.toNat = t at h
  have hbase : b < 0x100000000 := hb ▸ base.isLt
  by_cases hslow : t < b
  · rw [if_pos hslow]
    cases is8BitMode with
    | true =>
      obtain ⟨r, hrun, hfound⟩ := @search8Bit_ok b t 0 8 rfl (by decide)
      have hfastest := fastest8 hslow hfound
      rw [if_pos rfl, show (1 : Nat) = 2 ^ 0 from rfl, hrun]
      refine ⟨_, ?_, hfastest.mono fun _ => aboveExact_of_whole, fun _ => hfastest⟩
      cases r <;> rfl
    | false =>
      rw [if_neg (by decide), divideBy_two]
      by_cases hhalf : t < b / (2 * 1)
      · obtain ⟨n, hrun, hn, hle, hbefore⟩ := calculate10Bit_ok hbase h hhalf
        have hwhole : ∀ m < n, m ≤ t → AboveWhole b t m := by
          intro m hm hmt
          rcases Nat.eq_zero_or_pos m with rfl | hpos
          · exact aboveWhole_zero hslow
          · exact (hbefore m hpos hm).2 hmt
        have hexact : ∀ m < n, AboveExact b t m := by
          intro m hm
          rcases Nat.eq_zero_or_pos m with rfl | hpos
          · exact aboveExact_of_whole (aboveWhole_zero hslow)
          · exact (hbefore m hpos hm).1
        refine ⟨_, ?_, fastest10_choice hn hle fun m hm _ => hexact m hm, fun hmode => ?_⟩
        · show (if t < b / (2 * 1) then _ else _) = _
          rw [if_pos hhalf, hrun]
          show (if n > vMmioClkctlMax10BitFreqSel then _ else _) = _
          split <;> rfl
        · refine fastest10_choice hn hle fun m hm hmax => hwhole m hm (hmax.trans ?_)
          exact hmode.resolve_left (by decide)
      · have hone := @fastest10 b t (AboveWhole b t) 1 (by decide) (by decide) (Nat.le_of_not_lt hhalf)
          (fun m hm => Nat.lt_one_iff.mp hm ▸ aboveWhole_zero hslow) _ (freqSel_lower 1 (by decide))
        refine ⟨_, ?_, hone.mono fun _ => aboveExact_of_whole, fun _ => hone⟩
        show (if t < b / (2 * 1) then _ else _) = _
        rw [if_neg hhalf]
        rfl
  · rw [if_neg hslow]
    have hzero := fun above => @fastest_zero b t is8BitMode above (Nat.le_of_not_lt hslow)
    exact ⟨_, rfl, hzero _, fun _ => hzero _⟩

theorem dividedClockModeBits_fastest_identification :
    0 < (400000 : BitVec 32).toNat ∧
      ∃ r, dividedClockModeBits 50000000 400000 false = .ok r ∧
        Fastest (50000000 : BitVec 32).toNat (400000 : BitVec 32).toNat false
          (AboveExact (50000000 : BitVec 32).toNat (400000 : BitVec 32).toNat) r ∧
        (false = true ∨ vMmioClkctlMax10BitFreqSel ≤ (400000 : BitVec 32).toNat →
          Fastest (50000000 : BitVec 32).toNat (400000 : BitVec 32).toNat false
            (AboveWhole (50000000 : BitVec 32).toNat (400000 : BitVec 32).toNat) r) :=
  ⟨by decide, dividedClockModeBits_fastest 50000000 400000 false (by decide)⟩

/-- 1 MHz for a target of 500 Hz: `N` is 1000, and with 999 the clock is 500 Hz in whole hertz as well. -/
theorem dividedClockModeBits_not_fastest_whole :
    ¬ ∀ (base target : BitVec 32) (is8BitMode : Bool), 0 < target.toNat →
      ∃ r, dividedClockModeBits base target is8BitMode = .ok r ∧
        Fastest base.toNat target.toNat is8BitMode (AboveWhole base.toNat target.toNat) r := by
  intro h
  obtain ⟨r, hrun, hfastest⟩ := h 1000000 500 false (by decide)
  have hbits : dividedClockModeBits 1000000 500 false = .ok (.ok 0xE8C0) := by decide
  rw [hbits] at hrun
  cases hrun
  have hadmissible : Admissible false 999 := show 999 ≤ vMmioClkctlMax10BitFreqSel by decide
  have habove : 500 < 1000000 / divider 999 := hfastest.2.2 999 hadmissible (by decide)
  exact absurd habove (by decide)

end Quark.SdMedia
