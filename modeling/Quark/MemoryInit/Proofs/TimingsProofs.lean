import Mathlib.Data.Fintype.Sigma
import Mathlib.Data.Fintype.Sum
import Mathlib.Tactic.DeriveFintype
import Mathlib.Tactic.FinCases
import Quark.MemoryInit.Timings

/-!
# Restoring the delays of the DDR PHY

Each delay is read from one or two fields of registers that other delays share. A setter stays within
its own masks, so it replaces the delay it is for and leaves every other one; a run of setters then
brings one delay after the other to its stored value.
-/

namespace Quark.MemoryInit

open Machine Exec

/-! ## Delays and the bits they occupy -/

/-- The delays of the PHY, as far as they are told apart by the hardware: no rank, save for the clock. -/
inductive Delay where
  | rcvn (ch : Fin numChannels) (bl : Fin numByteLanes)
  | rdqs (ch : Fin numChannels) (bl : Fin numByteLanes)
  | wdqs (ch : Fin numChannels) (bl : Fin numByteLanes)
  | wdq (ch : Fin numChannels) (bl : Fin numByteLanes)
  | vref (ch : Fin numChannels) (bl : Fin numByteLanes)
  | wctl (ch : Fin numChannels)
  | wcmd (ch : Fin numChannels)
  | wclk (ch : Fin numChannels) (rk : Fin numRanks)
  deriving DecidableEq, Fintype

namespace Delay

def get : Delay → Phy → BitVec 32
  | rcvn ch bl, p => getRcvn p ch 0 bl
  | rdqs ch bl, p => getRdqs p ch 0 bl
  | wdqs ch bl, p => getWdqs p ch 0 bl
  | wdq ch bl, p => getWdq p ch 0 bl
  | vref ch bl, p => getVref p ch bl
  | wctl ch, p => getWctl p ch 0
  | wcmd ch, p => getWcmd p ch
  | wclk ch rk, p => getWclk p ch rk

def dqFields (f : DqDelay) (channel byteLane : Nat) : List (Nat × Nat × BitVec 32) :=
  [(dqReg b01ptrctl0 channel byteLane, laneOf f.rdptr byteLane, 0xF),
    (laneReg b0dllpicoder0 b1dllpicoder0 channel byteLane, f.pi, 0x3F)]

def fields : Delay → List (Nat × Nat × BitVec 32)
  | rcvn ch bl => dqFields MemoryInit.rcvn ch bl
  | rdqs ch bl => [(laneReg b0rxdqspicode b1rxdqspicode ch bl, 0, 0x7F)]
  | wdqs ch bl => dqFields MemoryInit.wdqs ch bl
  | wdq ch bl => dqFields MemoryInit.wdq ch bl
  | vref ch bl => [(laneReg b0vrefctl b1vrefctl ch bl, 2, 0x3F)]
  | wctl ch => [(cccReg ccptrreg ch, 24, 0xF), (cccReg eccb1dllpicoder0 ch, 24, 0x3F)]
  | wcmd ch => [(cccReg cmdptrreg ch, 8, 0xF), (cccReg cmddllpicoder1 ch, 16, 0x3F)]
  | wclk ch rk => [(cccReg ccptrreg ch, if rk.val ≠ 0 then 12 else 8, 0xF),
      (cccReg eccb1dllpicoder0 ch, if rk.val ≠ 0 then 16 else 8, 0x3F)]

def dqFootprint (f : DqDelay) (channel byteLane : Nat) : List (Nat × BitVec 32) :=
  [(dqReg b01ptrctl0 channel byteLane, 0xF#32 <<< laneOf f.rdptr byteLane),
    (laneReg b0dllpicoder0 b1dllpicoder0 channel byteLane, 0x3F#32 <<< f.pi),
    (dqReg b01dbctl1 channel byteLane, 1#32 <<< laneOf f.enable byteLane ||| 1#32 <<< laneOf f.select byteLane)]

def footprint : Delay → List (Nat × BitVec 32)
  | rcvn ch bl => dqFootprint MemoryInit.rcvn ch bl
  | rdqs ch bl => [(laneReg b0rxdqspicode b1rxdqspicode ch bl, 0x7F)]
  | wdqs ch bl => dqFootprint MemoryInit.wdqs ch bl
  | wdq ch bl => dqFootprint MemoryInit.wdq ch bl
  | vref ch bl => [(laneReg b0vrefctl b1vrefctl ch bl, 0xFC)]
  | wctl ch => [(cccReg ccptrreg ch, 0xFF000000), (cccReg eccb1dllpicoder0 ch, 0x3F000000),
      (cccReg eccb1dllpicoder1 ch, 0x3F000000), (cccReg eccb1dllpicoder2 ch, 0x3F000000),
      (cccReg eccb1dllpicoder3 ch, 0x3F000000), (cccReg cccfgreg1 ch, 0x30 ||| 0x3000)]
  | wcmd ch => [(cccReg cmdptrreg ch, 0xF00), (cccReg cmddllpicoder1 ch, 0x3F3F3F3F),
      (cccReg cmddllpicoder0 ch, 0x3F3F3F3F), (cccReg cmdcfgreg0 ch, 0x10000 ||| 0x20000)]
  | wclk _ _ => []

end Delay

def Apart (f : Nat × Nat × BitVec 32) (w : Nat × BitVec 32) : Prop :=
  f.1 ≠ w.1 ∨ field w.2 f.2.1 f.2.2 = 0

instance (f : Nat × Nat × BitVec 32) (w : Nat × BitVec 32) : Decidable (Apart f w) :=
  inferInstanceAs (Decidable (_ ∨ _))

theorem footprint_apart : ∀ d d' : Delay, d ≠ d' →
    ∀ f ∈ d'.fields, ∀ w ∈ d.footprint, Apart f w := by
  decide +kernel

def Phy.fieldAt (p : Phy) (f : Nat × Nat × BitVec 32) : BitVec 32 := field (p.reg f.1) f.2.1 f.2.2

theorem Delay.get_congr {d : Delay} {p q : Phy} (h : ∀ f ∈ d.fields, p.fieldAt f = q.fieldAt f) :
    d.get p = d.get q := by
  cases d with
  | rdqs ch bl =>
    have hf := h (laneReg b0rxdqspicode b1rxdqspicode ch bl, 0, 0x7F) (List.mem_singleton_self _)
    simp only [Phy.fieldAt, field, BitVec.ushiftRight_zero] at hf
    exact hf
  | vref ch bl =>
    have hf := h (laneReg b0vrefctl b1vrefctl ch bl, 2, 0x3F) (List.mem_singleton_self _)
    simp only [Phy.fieldAt] at hf
    simp only [get, getVref, hf]
  | _ =>
    simp only [fields, dqFields, List.forall_mem_cons, Phy.fieldAt] at h
    simp only [get, getRcvn, getWdqs, getWdq, getDq, getWctl, getWcmd, getWclk, h.1, h.2.1]

/-! ## Setters stay within their masks -/

def Within (ws : List (Nat × BitVec 32)) {α : Type} (x : Exec Phy α) : Prop :=
  ∀ f, (∀ w ∈ ws, Apart f w) → Keeps (fun p => p.fieldAt f) x

namespace Within

variable {ws : List (Nat × BitVec 32)} {α β : Type}

theorem bind {x : Exec Phy β} {k : β → Exec Phy α} (hx : Within ws x) (hk : ∀ b, Within ws (k b)) :
    Within ws (x >>= k) :=
  fun f hf => (hx f hf).bind fun b => hk b f hf

theorem isbM32m {addr : Nat} {data mask : BitVec 32} (h : (addr, mask) ∈ ws) :
    Within ws (MemoryInit.isbM32m addr data mask) := by
  intro f hf
  refine Keeps.modify fun p => ?_
  unfold Phy.fieldAt Phy.wrMask32
  rcases hf _ h with hne | hmask
  · exact congrArg (field · f.2.1 f.2.2) (if_neg hne)
  · by_cases ha : f.1 = addr
    · simp only [if_pos ha]
      exact field_merge_apart hmask
    · simp only [if_neg ha]

theorem errorCheck (piCount bound : BitVec 32) (minor : Nat) :
    Within ws (MemoryInit.errorCheck piCount bound minor) := by
  intro f _
  refine Keeps.when (Keeps.bind (Keeps.modify fun p => rfl) fun _ => ?_)
  exact Keeps.when (Keeps.halt _)

end Within

theorem within_setDq (f : DqDelay) (channel byteLane : Nat) (piCount : BitVec 32) :
    Within (Delay.dqFootprint f channel byteLane) (setDq f channel byteLane piCount) := by
  refine .bind (.isbM32m (by simp [Delay.dqFootprint])) fun _ => ?_
  refine .bind (.isbM32m (by simp [Delay.dqFootprint])) fun _ => ?_
  refine .bind (.isbM32m (by simp [Delay.dqFootprint])) fun _ => ?_
  exact .errorCheck _ _ _

theorem within_setRdqs (ch : Fin numChannels) (rk : Nat) (bl : Fin numByteLanes)
    (piCount : BitVec 32) : Within (Delay.rdqs ch bl).footprint (setRdqs ch rk bl piCount) := by
  refine .bind (.isbM32m (by simp [Delay.footprint])) fun _ => ?_
  exact .errorCheck _ _ _

theorem within_setVref (ch : Fin numChannels) (bl : Fin numByteLanes) (setting : BitVec 32) :
    Within (Delay.vref ch bl).footprint (setVref ch bl setting) := by
  unfold setVref
  cases vrefCodes[setting.toNat]? with
  | none => exact fun _ _ => Keeps.halt _
  | some code => exact .isbM32m (by simp [Delay.footprint])

theorem within_setWctl (ch : Fin numChannels) (rk : Nat) (piCount : BitVec 32) :
    Within (Delay.wctl ch).footprint (setWctl ch rk piCount) := by
  refine .bind (.isbM32m (by simp [Delay.footprint])) fun _ => ?_
  refine .bind (.isbM32m (by simp [Delay.footprint])) fun _ => ?_
  refine .bind (.isbM32m (by simp [Delay.footprint])) fun _ => ?_
  refine .bind (.isbM32m (by simp [Delay.footprint])) fun _ => ?_
  refine .bind (.isbM32m (by simp [Delay.footprint])) fun _ => ?_
  refine .bind (.isbM32m (by simp [Delay.footprint])) fun _ => ?_
  exact .errorCheck _ _ _

theorem within_setWcmd (ch : Fin numChannels) (piCount : BitVec 32) :
    Within (Delay.wcmd ch).footprint (setWcmd ch piCount) := by
  refine .bind (.isbM32m (by simp [Delay.footprint])) fun _ => ?_
  refine .bind (.isbM32m (by simp [Delay.footprint])) fun _ => ?_
  refine .bind (.isbM32m (by simp [Delay.footprint])) fun _ => ?_
  refine .bind (.isbM32m (by simp [Delay.footprint])) fun _ => ?_
  exact .errorCheck _ _ _

/-! ## Setters set their delay -/

theorem toNat_two_fields_lt (a b : BitVec 32) (i j : Nat) :
    (field a i 0xF * halfClk + field b j 0x3F).toNat < 1024 := by
  have ha : (field a i 0xF).toNat ≤ 15 := by
    rw [field, BitVec.toNat_and]
    exact Nat.and_le_right
  have hb : (field b j 0x3F).toNat ≤ 63 := by
    rw [field, BitVec.toNat_and]
    exact Nat.and_le_right
  have h64 : (halfClk : BitVec 32).toNat = 64 := rfl
  rw [BitVec.toNat_add, BitVec.toNat_mul, h64]
  omega

section TwoFields

variable {v : BitVec 32} (hv : v.toNat < 1024)
include hv

theorem coarse_toNat : (v / halfClk).toNat < 16 := by
  have : (v / halfClk).toNat = v.toNat / 64 := BitVec.toNat_udiv
  omega

theorem coarse_and : (v / halfClk) &&& 0xF = v / halfClk :=
  and_two_pow_sub_one (w := 4) (by omega) (coarse_toNat hv)

theorem adjust_toNat : (adjust v).toNat = v.toNat % 64 := by
  have hq : (v / halfClk).toNat = v.toNat / 64 := BitVec.toNat_udiv
  have h64 : (halfClk : BitVec 32).toNat = 64 := rfl
  rw [adjust, coarse_and hv, BitVec.toNat_sub, BitVec.toNat_mul, hq, h64]
  omega

theorem adjust_and : adjust v &&& 0x3F = adjust v :=
  and_two_pow_sub_one (w := 6) (by omega) (by rw [adjust_toNat hv]; omega)

theorem coarse_add_fine : (v / halfClk) * halfClk + adjust v = v := by
  have hq : (v / halfClk).toNat = v.toNat / 64 := BitVec.toNat_udiv
  have h64 : (halfClk : BitVec 32).toNat = 64 := rfl
  apply BitVec.eq_of_toNat_eq
  rw [BitVec.toNat_add, BitVec.toNat_mul, adjust_toNat hv, hq, h64]
  omega

theorem wp_errorCheck_adjust {minor : Nat} {Q : Unit → Phy → Prop} {E : Stop → Phy → Prop}
    {p : Phy} (hQ : Q () p) : wp (errorCheck (adjust v) 0x3F minor) Q E p := by
  rw [errorCheck, wp_when]
  refine ⟨fun h => absurd h ?_, fun _ => hQ⟩
  have hlt := adjust_toNat hv
  rw [gt_iff_lt, BitVec.lt_def, hlt]
  have : (0x3F : BitVec 32).toNat = 63 := rfl
  omega

end TwoFields

theorem wp_isbM32m {addr : Nat} {data mask : BitVec 32} {Q : Unit → Phy → Prop}
    {E : Stop → Phy → Prop} {p : Phy} :
    wp (isbM32m addr data mask) Q E p ↔ Q () (p.wrMask32 addr data mask) :=
  Iff.rfl

theorem reg_wrMask32_same (p : Phy) (addr : Nat) (data mask : BitVec 32) :
    (p.wrMask32 addr data mask).reg addr = merge (p.reg addr) data mask :=
  if_pos rfl

theorem reg_wrMask32_ne {p : Phy} {a addr : Nat} {data mask : BitVec 32} (h : a ≠ addr) :
    (p.wrMask32 addr data mask).reg a = p.reg a :=
  if_neg h

theorem dqReg_ne {base base' : Nat} (h : base ≠ base') (channel byteLane : Nat) :
    dqReg base channel byteLane ≠ dqReg base' channel byteLane := by
  unfold dqReg
  omega

theorem laneOf_eq (places : Nat × Nat) (byteLane : Nat) :
    laneOf places byteLane = places.1 ∨ laneOf places byteLane = places.2 := by
  unfold laneOf
  by_cases h : OddLane byteLane
  · exact .inr (if_pos h)
  · exact .inl (if_neg h)

structure DqDelay.Fits (f : DqDelay) : Prop where
  rdptr : ∀ byteLane, field (0xF#32 <<< laneOf f.rdptr byteLane) (laneOf f.rdptr byteLane) 0xF = 0xF#32
  pi : field (0x3F#32 <<< f.pi) f.pi 0x3F = 0x3F#32

theorem wp_setDq {f : DqDelay} (hf : f.Fits) {channel byteLane : Nat} {v : BitVec 32}
    (hv : v.toNat < 1024) {E : Stop → Phy → Prop} (p : Phy) :
    wp (setDq f channel byteLane v) (fun _ q => getDq f q channel byteLane = v) E p := by
  have hpi : laneReg b0dllpicoder0 b1dllpicoder0 channel byteLane ≠
      dqReg b01ptrctl0 channel byteLane := by
    rcases laneOf_eq (b0dllpicoder0, b1dllpicoder0) byteLane with h | h <;>
      · rw [laneReg, h]
        exact dqReg_ne (by decide) _ _
  have hdb : laneReg b0dllpicoder0 b1dllpicoder0 channel byteLane ≠
      dqReg b01dbctl1 channel byteLane := by
    rcases laneOf_eq (b0dllpicoder0, b1dllpicoder0) byteLane with h | h <;>
      · rw [laneReg, h]
        exact dqReg_ne (by decide) _ _
  have hptr : dqReg b01ptrctl0 channel byteLane ≠ dqReg b01dbctl1 channel byteLane :=
    dqReg_ne (by decide) _ _
  rw [setDq, wp_bind, wp_isbM32m, wp_bind, wp_isbM32m, wp_bind, deadband, wp_isbM32m]
  apply wp_errorCheck_adjust hv
  rw [getDq, reg_wrMask32_ne hptr, reg_wrMask32_ne hpi.symm, reg_wrMask32_same, reg_wrMask32_ne hdb,
    reg_wrMask32_same, field_merge_covered (hf.rdptr _), field_merge_covered hf.pi,
    field_shift (coarse_and hv) (hf.rdptr _), field_shift (adjust_and hv) hf.pi]
  exact coarse_add_fine hv

theorem wp_setRdqs {channel rank byteLane : Nat} {v : BitVec 32} (hv : v.toNat < 128)
    {E : Stop → Phy → Prop} (p : Phy)
    (hE : ∀ q : Phy, 0x47 < v → q.posts.head? = some (0xEE, 0xE1) → E .deadLoop q) :
    wp (setRdqs channel rank byteLane v)
      (fun _ q => getRdqs q channel rank byteLane = v ∧ v ≤ 0x47) E p := by
  have hread : getRdqs (p.wrMask32 (laneReg b0rxdqspicode b1rxdqspicode channel byteLane) (v <<< 0)
      0x7F) channel rank byteLane = v := by
    have hfit : v &&& 0x7F = v := and_two_pow_sub_one (w := 7) (by omega) hv
    have hcov : field ((0x7F : BitVec 32) <<< 0) 0 0x7F = 0x7F := by decide
    rw [getRdqs, reg_wrMask32_same, ← BitVec.ushiftRight_zero (merge _ _ _)]
    exact (field_merge_covered (by decide)).trans (field_shift hfit hcov)
  rw [setRdqs, wp_bind, wp_isbM32m, errorCheck, wp_when]
  refine ⟨fun h => ?_, fun h => ⟨hread, BitVec.not_lt.mp h⟩⟩
  rw [postCode, wp_bind, wp_modify, wp_when]
  exact ⟨fun _ => hE _ h rfl, fun h => absurd rfl h⟩

theorem fits_of_places {f : DqDelay}
    (h : field (0xF#32 <<< f.rdptr.1) f.rdptr.1 0xF = 0xF#32 ∧
      field (0xF#32 <<< f.rdptr.2) f.rdptr.2 0xF = 0xF#32 ∧ field (0x3F#32 <<< f.pi) f.pi 0x3F = 0x3F#32) :
    f.Fits := by
  refine ⟨fun byteLane => ?_, h.2.2⟩
  rcases laneOf_eq f.rdptr byteLane with hl | hl
  · rw [hl]; exact h.1
  · rw [hl]; exact h.2.1

theorem rcvn_fits : rcvn.Fits := fits_of_places (by decide)

theorem wdqs_fits : wdqs.Fits := fits_of_places (by decide)

theorem wdq_fits : wdq.Fits := fits_of_places (by decide)

theorem vrefCodes_spec {i : Nat} (hi : i < 64) :
    ∃ code, vrefCodes[i]? = some code ∧ code &&& 0x3F = code ∧ vrefCodes.idxOf? code = some i := by
  have key : ∀ i : Fin 64, (vrefCodes[i.val]?).any (fun code =>
      code &&& 0x3F = code ∧ vrefCodes.idxOf? code = some i.val) = true := by
    decide +kernel
  obtain ⟨code, hcode, hspec⟩ := (Option.any_eq_true _ _).mp (key ⟨i, hi⟩)
  exact ⟨code, hcode, of_decide_eq_true hspec⟩

theorem wp_setVref {channel byteLane : Nat} {v : BitVec 32} (hv : v.toNat < 64)
    {E : Stop → Phy → Prop} (p : Phy) :
    wp (setVref channel byteLane v) (fun _ q => getVref q channel byteLane = v) E p := by
  obtain ⟨code, hcode, hfit, hidx⟩ := vrefCodes_spec hv
  have hcov : field (0xFC : BitVec 32) 2 0x3F = 0x3F := by decide
  have hshift : field ((0x3F : BitVec 32) <<< 2) 2 0x3F = 0x3F := by decide
  rw [setVref, hcode]
  show getVref (p.wrMask32 _ _ _) channel byteLane = v
  rw [getVref, reg_wrMask32_same, field_merge_covered hcov, field_shift hfit hshift, hidx]
  simp

theorem getVref_lt (p : Phy) (channel byteLane : Nat) : (getVref p channel byteLane).toNat < 64 := by
  simp only [getVref]
  cases h : vrefCodes.idxOf? (field (p.reg (laneReg b0vrefctl b1vrefctl channel byteLane)) 2 0x3F) with
  | none => exact (by decide : (BitVec.ofNat 32 (vrefCodes.length / 2)).toNat < 64)
  | some j =>
    obtain ⟨hj, _⟩ := List.findIdx?_eq_some_iff_getElem.mp h
    have hlen : vrefCodes.length = 64 := rfl
    show j % 2 ^ 32 < 64
    omega

theorem cccReg_ne {base base' : Nat} (h : base ≠ base') (channel : Nat) :
    cccReg base channel ≠ cccReg base' channel := by
  unfold cccReg
  omega

theorem wp_setWctl {channel rank : Nat} {v : BitVec 32} (hv : v.toNat < 1024)
    {E : Stop → Phy → Prop} (p : Phy) :
    wp (setWctl channel rank v) (fun _ q => getWctl q channel rank = v) E p := by
  have hcoarse : field (((v / halfClk) <<< 28) ||| ((v / halfClk) <<< 24)) 24 0xF = v / halfClk := by
    have hhigh : field ((v / halfClk) <<< 28) 24 0xF = 0 :=
      field_shift_apart (coarse_and hv) (by decide)
    have hlow : field ((v / halfClk) <<< 24) 24 0xF = v / halfClk :=
      field_shift (coarse_and hv) (by decide)
    rw [field_or, hhigh, hlow]
    exact BitVec.zero_or
  have hfine : field (adjust v <<< 24) 24 0x3F = adjust v := field_shift (adjust_and hv) (by decide)
  have hne := fun (base base' : Nat) (h : base ≠ base') => cccReg_ne h channel
  rw [setWctl]
  simp only [wp_bind, wp_isbM32m, deadband]
  apply wp_errorCheck_adjust hv
  rw [getWctl]
  -- the pointer field is written first, the fine field second; the later writes go elsewhere
  rw [reg_wrMask32_ne (hne ccptrreg cccfgreg1 (by decide)),
    reg_wrMask32_ne (hne ccptrreg eccb1dllpicoder3 (by decide)),
    reg_wrMask32_ne (hne ccptrreg eccb1dllpicoder2 (by decide)),
    reg_wrMask32_ne (hne ccptrreg eccb1dllpicoder1 (by decide)),
    reg_wrMask32_ne (hne ccptrreg eccb1dllpicoder0 (by decide)), reg_wrMask32_same,
    reg_wrMask32_ne (hne eccb1dllpicoder0 cccfgreg1 (by decide)),
    reg_wrMask32_ne (hne eccb1dllpicoder0 eccb1dllpicoder3 (by decide)),
    reg_wrMask32_ne (hne eccb1dllpicoder0 eccb1dllpicoder2 (by decide)),
    reg_wrMask32_ne (hne eccb1dllpicoder0 eccb1dllpicoder1 (by decide)), reg_wrMask32_same,
    field_merge_covered (by decide), field_merge_covered (by decide), hcoarse, hfine]
  exact coarse_add_fine hv

theorem wp_setWcmd {channel : Nat} {v : BitVec 32} (hv : v.toNat < 1024)
    {E : Stop → Phy → Prop} (p : Phy) :
    wp (setWcmd channel v) (fun _ q => getWcmd q channel = v) E p := by
  have hcoarse : field ((v / halfClk) <<< 8) 8 0xF = v / halfClk :=
    field_shift (coarse_and hv) (by decide)
  have hfine : field ((adjust v <<< 24) ||| (adjust v <<< 16) ||| (adjust v <<< 8) |||
      (adjust v <<< 0)) 16 0x3F = adjust v := by
    have happart : ∀ k, field ((0x3F : BitVec 32) <<< k) 16 0x3F = 0 →
        field (adjust v <<< k) 16 0x3F = 0 := fun k h => field_shift_apart (adjust_and hv) h
    have hown : field (adjust v <<< 16) 16 0x3F = adjust v := field_shift (adjust_and hv) (by decide)
    rw [field_or, field_or, field_or, happart 24 (by decide), happart 8 (by decide),
      happart 0 (by decide), hown]
    simp
  have hne := fun (base base' : Nat) (h : base ≠ base') => cccReg_ne h channel
  rw [setWcmd]
  simp only [wp_bind, wp_isbM32m, deadband]
  apply wp_errorCheck_adjust hv
  rw [getWcmd]
  rw [reg_wrMask32_ne (hne cmdptrreg cmdcfgreg0 (by decide)),
    reg_wrMask32_ne (hne cmdptrreg cmddllpicoder0 (by decide)),
    reg_wrMask32_ne (hne cmdptrreg cmddllpicoder1 (by decide)), reg_wrMask32_same,
    reg_wrMask32_ne (hne cmddllpicoder1 cmdcfgreg0 (by decide)),
    reg_wrMask32_ne (hne cmddllpicoder1 cmddllpicoder0 (by decide)), reg_wrMask32_same,
    field_merge_covered (by decide), field_merge_covered (by decide), hcoarse, hfine]
  exact coarse_add_fine hv

/-! ## The stored record -/

def MrcTimings.of (p : Phy) (scramblerSeed : BitVec 32) (ddrSpeed : BitVec 8) : MrcTimings where
  rcvn ch rk bl := getRcvn p ch rk bl
  rdqs ch rk bl := getRdqs p ch rk bl
  wdqs ch rk bl := getWdqs p ch rk bl
  wdq ch rk bl := getWdq p ch rk bl
  vref ch bl := getVref p ch bl
  wctl ch rk := getWctl p ch rk
  wcmd ch := getWcmd p ch
  scramblerSeed := scramblerSeed
  ddrSpeed := ddrSpeed

theorem storeTimings_timings (p : Phy) (m : MrcParams) :
    (storeTimings p m).timings = MrcTimings.of p m.timings.scramblerSeed m.ddrSpeed := by
  apply MrcTimings.ext
  case rcvn => funext ch rk bl; fin_cases ch; fin_cases rk <;> fin_cases bl <;> rfl
  case rdqs => funext ch rk bl; fin_cases ch; fin_cases rk <;> fin_cases bl <;> rfl
  case wdqs => funext ch rk bl; fin_cases ch; fin_cases rk <;> fin_cases bl <;> rfl
  case wdq => funext ch rk bl; fin_cases ch; fin_cases rk <;> fin_cases bl <;> rfl
  case vref => funext ch bl; fin_cases ch; fin_cases bl <;> rfl
  case wctl => funext ch rk; fin_cases ch; fin_cases rk <;> rfl
  case wcmd => funext ch; fin_cases ch; rfl
  case scramblerSeed => rfl
  case ddrSpeed => rfl

/-! ## Restoring -/

/-- What restoring the delays of `r` in `s` leads to: the stored delays are those of `r`, and the clock
delay, which is not stored, stays as it was. -/
def target (r s : Phy) : Delay → BitVec 32
  | .wclk ch rk => getWclk s ch rk
  | d => d.get r

def Settled (r s : Phy) (d : Delay) (q : Phy) : Prop :=
  d.get q = target r s d ∧ ∀ ch bl, d = .rdqs ch bl → getRdqs r ch 0 bl ≤ 0x47

def Refused (r : Phy) (w : Stop) (q : Phy) : Prop :=
  w = .deadLoop ∧ q.posts.head? = some (0xEE, 0xE1) ∧
    ∃ (ch : Fin numChannels) (bl : Fin numByteLanes), 0x47 < getRdqs r ch 0 bl

section Restore

variable {r s p : Phy}

theorem wp_gains_of_within {d : Delay} {x : Exec Phy Unit} {E : Stop → Phy → Prop}
    (hw : Within d.footprint x) (hread : wp x (fun _ => Settled r s d) E p) :
    wp x (fun _ => Gains (Settled r s) (· = d) p) E p := by
  unfold wp at hread ⊢
  cases hx : x p with
  | stop w q => rw [hx] at hread; exact hread
  | ret _ q =>
    rw [hx] at hread
    refine ⟨fun d' h => h ▸ hread, fun d' h => ?_⟩
    by_cases hd : d = d'
    · exact hd ▸ hread
    · have hkeep : d'.get q = d'.get p := Delay.get_congr fun f hf =>
        (hw f (footprint_apart d d' hd f hf)).of_ret hx
      exact ⟨hkeep.trans h.1, h.2⟩

theorem wp_restoreLane (seed : BitVec 32) (speed : BitVec 8) (ch : Fin numChannels)
    (rk : Fin numRanks) (bl : Fin numByteLanes) :
    wp (restoreLane (MrcTimings.of r seed speed) ch rk bl)
      (fun _ => Gains (Settled r s) (fun d => d = .rcvn ch bl ∨ d = .rdqs ch bl ∨ d = .wdqs ch bl ∨
        d = .wdq ch bl ∨ rk = 0 ∧ d = .vref ch bl) p) (Refused r) p := by
  have hdq : ∀ f : DqDelay, (getDq f r ch bl).toNat < 1024 := fun f => toNat_two_fields_lt _ _ _ _
  refine wp_gains_bind (wp_gains_of_within (within_setDq rcvn ch bl _) ?_) fun _ t => ?_
  · refine wp_mono (wp_setDq rcvn_fits (hdq rcvn) p) (fun _ q h => ⟨h, nofun⟩) fun _ _ h => h
  refine wp_gains_bind (wp_gains_of_within (within_setRdqs ch rk bl _) ?_) fun _ t => ?_
  · have hlt : (getRdqs r ch rk bl).toNat < 128 := by
      rw [getRdqs, BitVec.toNat_and]
      exact Nat.lt_succ_of_le Nat.and_le_right
    refine wp_mono (E := Refused r) (wp_setRdqs hlt t fun q h hpost => ?_) ?_ fun _ _ h => h
    · exact ⟨rfl, hpost, ch, bl, h⟩
    · intro _ q h
      refine ⟨h.1, fun ch' bl' heq => ?_⟩
      injection heq with hch hbl
      rw [← hch, ← hbl]
      exact h.2
  refine wp_gains_bind (wp_gains_of_within (within_setDq wdqs ch bl _) ?_) fun _ t => ?_
  · exact wp_mono (wp_setDq wdqs_fits (hdq wdqs) t) (fun _ q h => ⟨h, nofun⟩) fun _ _ h => h
  refine wp_gains_bind (wp_gains_of_within (within_setDq wdq ch bl _) ?_) fun _ t => ?_
  · exact wp_mono (wp_setDq wdq_fits (hdq wdq) t) (fun _ q h => ⟨h, nofun⟩) fun _ _ h => h
  rw [wp_when]
  refine ⟨fun hrk => ?_, fun hrk => Gains.nothing.mono fun d h => hrk h.1⟩
  refine wp_mono (wp_gains_of_within (within_setVref ch bl _) ?_)
    (fun _ q h => h.mono fun d hd => hd.2) fun _ _ h => h
  exact wp_mono (wp_setVref (getVref_lt r ch bl) t) (fun _ q h => ⟨h, nofun⟩) fun _ _ h => h

theorem wp_restoreRank (seed : BitVec 32) (speed : BitVec 8) (ch : Fin numChannels)
    (rk : Fin numRanks) :
    wp (restoreRank (MrcTimings.of r seed speed) ch rk)
      (fun _ => Gains (Settled r s) (fun d => (∃ bl ∈ List.finRange numByteLanes,
        d = .rcvn ch bl ∨ d = .rdqs ch bl ∨ d = .wdqs ch bl ∨ d = .wdq ch bl ∨
          rk = 0 ∧ d = .vref ch bl) ∨ d = .wctl ch) p) (Refused r) p := by
  refine wp_gains_bind (wp_gains_serve (fun bl t => wp_restoreLane seed speed ch rk bl) _ p)
    fun _ t => wp_gains_of_within (within_setWctl ch rk _) ?_
  have hlt : (getWctl r ch rk).toNat < 1024 := toNat_two_fields_lt _ _ _ _
  exact wp_mono (wp_setWctl hlt t) (fun _ q h => ⟨h, nofun⟩) fun _ _ h => h

theorem wp_restoreChannel (seed : BitVec 32) (speed : BitVec 8) (ch : Fin numChannels) :
    wp (restoreChannel (MrcTimings.of r seed speed) ch)
      (fun _ => Gains (Settled r s) (fun d => (∃ rk ∈ List.finRange numRanks,
        (∃ bl ∈ List.finRange numByteLanes, d = .rcvn ch bl ∨ d = .rdqs ch bl ∨ d = .wdqs ch bl ∨
          d = .wdq ch bl ∨ rk = 0 ∧ d = .vref ch bl) ∨ d = .wctl ch) ∨ d = .wcmd ch) p)
      (Refused r) p := by
  refine wp_gains_bind (wp_gains_serve (fun rk t => wp_restoreRank seed speed ch rk) _ p)
    fun _ t => wp_gains_of_within (within_setWcmd ch _) ?_
  have hlt : (getWcmd r ch).toNat < 1024 := toNat_two_fields_lt _ _ _ _
  exact wp_mono (wp_setWcmd hlt t) (fun _ q h => ⟨h, nofun⟩) fun _ _ h => h

theorem wp_restoreTimings (r s : Phy) (m : MrcParams) :
    wp (restoreTimings (storeTimings r m)) (fun _ q => ∀ d, Settled r s d q) (Refused r) s := by
  rw [restoreTimings, storeTimings_timings]
  refine wp_mono (wp_gains_serve (fun ch t => wp_restoreChannel (s := s) _ _ ch) _ s) ?_
    fun _ _ h => h
  intro _ q h d
  have hch : ∀ ch : Fin numChannels, ch ∈ List.finRange numChannels := List.mem_finRange
  have hrk : ∀ rk : Fin numRanks, rk ∈ List.finRange numRanks := List.mem_finRange
  have hbl : ∀ bl : Fin numByteLanes, bl ∈ List.finRange numByteLanes := List.mem_finRange
  cases d with
  | rcvn ch bl => exact h.1 _ ⟨ch, hch ch, .inl ⟨0, hrk 0, .inl ⟨bl, hbl bl, by simp⟩⟩⟩
  | rdqs ch bl => exact h.1 _ ⟨ch, hch ch, .inl ⟨0, hrk 0, .inl ⟨bl, hbl bl, by simp⟩⟩⟩
  | wdqs ch bl => exact h.1 _ ⟨ch, hch ch, .inl ⟨0, hrk 0, .inl ⟨bl, hbl bl, by simp⟩⟩⟩
  | wdq ch bl => exact h.1 _ ⟨ch, hch ch, .inl ⟨0, hrk 0, .inl ⟨bl, hbl bl, by simp⟩⟩⟩
  | vref ch bl => exact h.1 _ ⟨ch, hch ch, .inl ⟨0, hrk 0, .inl ⟨bl, hbl bl, by simp⟩⟩⟩
  | wctl ch => exact h.1 _ ⟨ch, hch ch, .inl ⟨0, hrk 0, .inr rfl⟩⟩
  | wcmd ch => exact h.1 _ ⟨ch, hch ch, .inr rfl⟩
  | wclk ch rk => exact h.2 _ ⟨rfl, nofun⟩

end Restore

structure SameDelays (r q : Phy) : Prop where
  rcvn : ∀ (ch : Fin numChannels) (rk : Fin numRanks) (bl : Fin numByteLanes),
    getRcvn q ch rk bl = getRcvn r ch rk bl
  rdqs : ∀ (ch : Fin numChannels) (rk : Fin numRanks) (bl : Fin numByteLanes),
    getRdqs q ch rk bl = getRdqs r ch rk bl
  wdqs : ∀ (ch : Fin numChannels) (rk : Fin numRanks) (bl : Fin numByteLanes),
    getWdqs q ch rk bl = getWdqs r ch rk bl
  wdq : ∀ (ch : Fin numChannels) (rk : Fin numRanks) (bl : Fin numByteLanes),
    getWdq q ch rk bl = getWdq r ch rk bl
  vref : ∀ (ch : Fin numChannels) (bl : Fin numByteLanes), getVref q ch bl = getVref r ch bl
  wctl : ∀ (ch : Fin numChannels) (rk : Fin numRanks), getWctl q ch rk = getWctl r ch rk
  wcmd : ∀ ch : Fin numChannels, getWcmd q ch = getWcmd r ch

def RdqsInRange (r : Phy) : Prop :=
  ∀ (ch : Fin numChannels) (rk : Fin numRanks) (bl : Fin numByteLanes), getRdqs r ch rk bl ≤ 0x47

theorem sameDelays_of_settled {r s q : Phy} (h : ∀ d, Settled r s d q) : SameDelays r q where
  rcvn ch _ bl := (h (.rcvn ch bl)).1
  rdqs ch _ bl := (h (.rdqs ch bl)).1
  wdqs ch _ bl := (h (.wdqs ch bl)).1
  wdq ch _ bl := (h (.wdq ch bl)).1
  vref ch bl := (h (.vref ch bl)).1
  wctl ch _ := (h (.wctl ch)).1
  wcmd ch := (h (.wcmd ch)).1

theorem storeTimings_of_sameDelays {r q : Phy} (h : SameDelays r q) (m : MrcParams) :
    storeTimings q (storeTimings r m) = storeTimings r m := by
  have hof : ∀ seed speed, MrcTimings.of q seed speed = MrcTimings.of r seed speed := by
    intro seed speed
    apply MrcTimings.ext
    case rcvn => funext ch rk bl; exact h.rcvn ch rk bl
    case rdqs => funext ch rk bl; exact h.rdqs ch rk bl
    case wdqs => funext ch rk bl; exact h.wdqs ch rk bl
    case wdq => funext ch rk bl; exact h.wdq ch rk bl
    case vref => funext ch bl; exact h.vref ch bl
    case wctl => funext ch rk; exact h.wctl ch rk
    case wcmd => funext ch; exact h.wcmd ch
    case scramblerSeed => rfl
    case ddrSpeed => rfl
  have ht : (storeTimings q (storeTimings r m)).timings = (storeTimings r m).timings := by
    rw [storeTimings_timings, storeTimings_timings, hof]
    rfl
  have heta : ∀ p m', storeTimings p m' = ⟨(storeTimings p m').timings, m'.ddrSpeed⟩ := fun _ _ => rfl
  rw [heta q, ht]

theorem restoreTimings_returns {r : Phy} (hr : RdqsInRange r) (s : Phy) (m : MrcParams) :
    ∃ q, restoreTimings (storeTimings r m) s = .ret () q ∧ ∀ d, Settled r s d q := by
  have h := wp_restoreTimings r s m
  unfold wp at h
  cases hx : restoreTimings (storeTimings r m) s with
  | ret u q => rw [hx] at h; exact ⟨q, rfl, h⟩
  | stop w q =>
    rw [hx] at h
    obtain ⟨-, -, ch, bl, hlt⟩ := h
    exact absurd (hr ch 0 bl) (BitVec.not_le.mpr hlt)

theorem restoreTimings_stops {r : Phy} (hr : ¬ RdqsInRange r) (s : Phy) (m : MrcParams) :
    ∃ q, restoreTimings (storeTimings r m) s = .stop .deadLoop q ∧
      q.posts.head? = some (0xEE, 0xE1) := by
  have h := wp_restoreTimings r s m
  unfold wp at h
  cases hx : restoreTimings (storeTimings r m) s with
  | ret u q =>
    rw [hx] at h
    exact absurd (fun ch _ bl => (h (.rdqs ch bl)).2 ch bl rfl) hr
  | stop w q =>
    rw [hx] at h
    obtain ⟨rfl, hpost, -⟩ := h
    exact ⟨q, rfl, hpost⟩

/-- Saved timings restore the trained PHY, all but the clock delay, which the record does not hold. A
read strobe delay above `0x47` is refused by `set_rdqs`, and the boot stops there. -/
theorem restoreTimings_storeTimings (r s : Phy) (m : MrcParams) :
    (RdqsInRange r → ∃ q, restoreTimings (storeTimings r m) s = .ret () q ∧ SameDelays r q ∧
      (∀ (ch : Fin numChannels) (rk : Fin numRanks), getWclk q ch rk = getWclk s ch rk) ∧
      storeTimings q (storeTimings r m) = storeTimings r m) ∧
    (¬ RdqsInRange r → ∃ q, restoreTimings (storeTimings r m) s = .stop .deadLoop q ∧
      q.posts.head? = some (0xEE, 0xE1)) := by
  refine ⟨fun hr => ?_, fun hr => restoreTimings_stops hr s m⟩
  obtain ⟨q, hq, hset⟩ := restoreTimings_returns hr s m
  have hsame := sameDelays_of_settled hset
  exact ⟨q, hq, hsame, fun ch rk => (hset (.wclk ch rk)).1, storeTimings_of_sameDelays hsame m⟩

def phyWith (addr : Nat) (v : BitVec 32) : Phy := ⟨fun a => if a = addr then v else 0, []⟩

def blankTimings : MrcTimings :=
  ⟨fun _ _ _ => 0, fun _ _ _ => 0, fun _ _ _ => 0, fun _ _ _ => 0, fun _ _ => 0, fun _ _ => 0,
    fun _ => 0, 0, 0⟩

/-- Trained with a clock delay of one half clock, the PHY comes back with none; trained with a read
strobe delay of `0x48`, it does not come back. -/
theorem restoreTimings_incomplete :
    (∃ q, restoreTimings (storeTimings (phyWith ccptrreg 0x100) ⟨blankTimings, 0⟩) (phyWith 0 0) =
        .ret () q ∧ getWclk q 0 0 = 0 ∧ getWclk (phyWith ccptrreg 0x100) 0 0 = 64) ∧
      ∃ q, restoreTimings (storeTimings (phyWith b0rxdqspicode 0x48) ⟨blankTimings, 0⟩) (phyWith 0 0) =
        .stop .deadLoop q := by
  constructor
  · have hr : RdqsInRange (phyWith ccptrreg 0x100) := by
      unfold RdqsInRange
      decide
    obtain ⟨q, hq, hset⟩ := restoreTimings_returns hr (phyWith 0 0) ⟨blankTimings, 0⟩
    exact ⟨q, hq, (hset (.wclk 0 0)).1.trans (by decide), by decide⟩
  · have hr : ¬ RdqsInRange (phyWith b0rxdqspicode 0x48) := fun h =>
      absurd (h 0 0 0) (by decide)
    obtain ⟨q, hq, -⟩ := restoreTimings_stops hr (phyWith 0 0) ⟨blankTimings, 0⟩
    exact ⟨q, hq⟩

/-! ## Setters and getters of the delays

A delay reads as what it was last set to, and a setter leaves the delays it does not program. The clock
setter programs both ranks.
-/

namespace Delay

def set : Delay → Nat → BitVec 32 → Exec Phy Unit
  | rcvn ch bl, rank, v => setRcvn ch rank bl v
  | rdqs ch bl, rank, v => setRdqs ch rank bl v
  | wdqs ch bl, rank, v => setWdqs ch rank bl v
  | wdq ch bl, rank, v => setWdq ch rank bl v
  | vref ch bl, _, v => setVref ch bl v
  | wctl ch, rank, v => setWctl ch rank v
  | wcmd ch, _, v => setWcmd ch v
  | wclk ch rk, _, v => setWclk ch rk v

def read : Delay → Nat → Phy → BitVec 32
  | rcvn ch bl, rank, p => getRcvn p ch rank bl
  | rdqs ch bl, rank, p => getRdqs p ch rank bl
  | wdqs ch bl, rank, p => getWdqs p ch rank bl
  | wdq ch bl, rank, p => getWdq p ch rank bl
  | vref ch bl, _, p => getVref p ch bl
  | wctl ch, rank, p => getWctl p ch rank
  | wcmd ch, _, p => getWcmd p ch
  | wclk ch rk, _, p => getWclk p ch rk

theorem read_eq (d : Delay) (rank : Nat) (p : Phy) : d.read rank p = d.get p := by
  cases d <;> rfl

def InRange : Delay → BitVec 32 → Prop
  | rdqs _ _, v => v.toNat < 128
  | vref _ _, v => v.toNat < 64
  | _, v => v.toNat < 1024

/-- The values that the setter of a delay takes: `set_rdqs` ends in its error check above 0x47. -/
def Takes (d : Delay) (v : BitVec 32) : Prop :=
  d.InRange v ∧ ∀ ch bl, d = rdqs ch bl → v ≤ 0x47

def Programs : Delay → Delay → Prop
  | wclk ch _, d => ∃ rk, d = wclk ch rk
  | d, d' => d' = d

def clockFootprint (ch : Fin numChannels) : List (Nat × BitVec 32) :=
  [(cccReg ccptrreg ch, 0xFF00), (cccReg eccb1dllpicoder0 ch, 0x3F3F00),
    (cccReg eccb1dllpicoder1 ch, 0x3F3F00), (cccReg eccb1dllpicoder2 ch, 0x3F3F00),
    (cccReg eccb1dllpicoder3 ch, 0x3F3F00), (cccReg cccfgreg1 ch, 0xF ||| 0xF00)]

end Delay

theorem clockFootprint_apart : ∀ (ch : Fin numChannels) (d : Delay), (∀ rk, d ≠ .wclk ch rk) →
    ∀ f ∈ d.fields, ∀ w ∈ Delay.clockFootprint ch, Apart f w := by
  decide +kernel

theorem within_setWclk (ch : Fin numChannels) (rk : Nat) (piCount : BitVec 32) :
    Within (Delay.clockFootprint ch) (setWclk ch rk piCount) := by
  refine .bind (.isbM32m (by simp [Delay.clockFootprint])) fun _ => ?_
  refine .bind (.isbM32m (by simp [Delay.clockFootprint])) fun _ => ?_
  refine .bind (.isbM32m (by simp [Delay.clockFootprint])) fun _ => ?_
  refine .bind (.isbM32m (by simp [Delay.clockFootprint])) fun _ => ?_
  refine .bind (.isbM32m (by simp [Delay.clockFootprint])) fun _ => ?_
  refine .bind (.isbM32m (by simp [Delay.clockFootprint])) fun _ => ?_
  exact .errorCheck _ _ _

theorem field_pair {x m : BitVec 32} {i j : Nat} (hx : x &&& m = x)
    (hi : field (m <<< i) i m = m) (hj : field (m <<< j) j m = m)
    (hij : field (m <<< i) j m = 0) (hji : field (m <<< j) i m = 0) :
    field ((x <<< i) ||| (x <<< j)) i m = x ∧ field ((x <<< i) ||| (x <<< j)) j m = x := by
  constructor
  · rw [field_or, field_shift hx hi, field_shift_apart hx hji]
    exact BitVec.or_zero
  · rw [field_or, field_shift_apart hx hij, field_shift hx hj]
    exact BitVec.zero_or

theorem wp_setWclk {channel rank : Nat} {v : BitVec 32} (hv : v.toNat < 1024)
    {E : Stop → Phy → Prop} (p : Phy) :
    wp (setWclk channel rank v) (fun _ q => ∀ rk, getWclk q channel rk = v) E p := by
  obtain ⟨hcoarse₁, hcoarse₀⟩ := field_pair (i := 12) (j := 8) (coarse_and hv) (by decide) (by decide)
    (by decide) (by decide)
  obtain ⟨hfine₁, hfine₀⟩ := field_pair (i := 16) (j := 8) (adjust_and hv) (by decide) (by decide)
    (by decide) (by decide)
  have hne := fun (base base' : Nat) (h : base ≠ base') => cccReg_ne h channel
  rw [setWclk]
  simp only [wp_bind, wp_isbM32m, deadband]
  apply wp_errorCheck_adjust hv
  intro rk
  rw [getWclk]
  rw [reg_wrMask32_ne (hne ccptrreg cccfgreg1 (by decide)),
    reg_wrMask32_ne (hne ccptrreg eccb1dllpicoder3 (by decide)),
    reg_wrMask32_ne (hne ccptrreg eccb1dllpicoder2 (by decide)),
    reg_wrMask32_ne (hne ccptrreg eccb1dllpicoder1 (by decide)),
    reg_wrMask32_ne (hne ccptrreg eccb1dllpicoder0 (by decide)), reg_wrMask32_same,
    reg_wrMask32_ne (hne eccb1dllpicoder0 cccfgreg1 (by decide)),
    reg_wrMask32_ne (hne eccb1dllpicoder0 eccb1dllpicoder3 (by decide)),
    reg_wrMask32_ne (hne eccb1dllpicoder0 eccb1dllpicoder2 (by decide)),
    reg_wrMask32_ne (hne eccb1dllpicoder0 eccb1dllpicoder1 (by decide)), reg_wrMask32_same]
  by_cases hrk : rk = 0
  · rw [if_neg (not_not.mpr hrk), if_neg (not_not.mpr hrk), field_merge_covered (by decide),
      field_merge_covered (by decide), hcoarse₀, hfine₀]
    exact coarse_add_fine hv
  · rw [if_pos hrk, if_pos hrk, field_merge_covered (by decide), field_merge_covered (by decide),
      hcoarse₁, hfine₁]
    exact coarse_add_fine hv

def Delay.written : Delay → List (Nat × BitVec 32)
  | .wclk ch _ => Delay.clockFootprint ch
  | d => d.footprint

theorem within_set (d : Delay) (rank : Nat) (v : BitVec 32) : Within d.written (d.set rank v) := by
  cases d with
  | rcvn ch bl => exact within_setDq rcvn ch bl v
  | rdqs ch bl => exact within_setRdqs ch rank bl v
  | wdqs ch bl => exact within_setDq wdqs ch bl v
  | wdq ch bl => exact within_setDq wdq ch bl v
  | vref ch bl => exact within_setVref ch bl v
  | wctl ch => exact within_setWctl ch rank v
  | wcmd ch => exact within_setWcmd ch v
  | wclk ch rk => exact within_setWclk ch rk v

theorem written_apart {d d' : Delay} (h : ¬ d.Programs d') :
    ∀ f ∈ d'.fields, ∀ w ∈ d.written, Apart f w := by
  cases d with
  | wclk ch rk => exact clockFootprint_apart ch d' fun rk' heq => h ⟨rk', heq⟩
  | _ => exact footprint_apart _ d' fun heq => h heq.symm

theorem get_of_not_programs {d d' : Delay} {rank : Nat} {v : BitVec 32} {p q : Phy}
    (h : ¬ d.Programs d') (hset : d.set rank v p = .ret () q) : d'.get q = d'.get p :=
  Delay.get_congr fun f hf => (within_set d rank v f (written_apart h f hf)).of_ret hset

theorem wp_set_of_own {d : Delay} {rank : Nat} {v : BitVec 32} {p : Phy}
    (hown : ∀ d', d.Programs d' → d' = d)
    (h : wp (d.set rank v) (fun _ q => d.get q = v) (fun _ _ => False) p) :
    wp (d.set rank v) (fun _ q => ∀ d', d.Programs d' → d'.get q = v) (fun _ _ => False) p := by
  refine wp_mono h (fun _ q hq d' hd => ?_) fun _ _ h => h
  rw [hown d' hd]
  exact hq

theorem wp_set {d : Delay} (rank : Nat) {v : BitVec 32} (h : d.Takes v) (p : Phy) :
    wp (d.set rank v) (fun _ q => ∀ d', d.Programs d' → d'.get q = v) (fun _ _ => False) p := by
  obtain ⟨hrange, hcheck⟩ := h
  cases d with
  | rcvn ch bl => exact wp_set_of_own (fun _ h => h) (wp_setDq rcvn_fits hrange p)
  | wdqs ch bl => exact wp_set_of_own (fun _ h => h) (wp_setDq wdqs_fits hrange p)
  | wdq ch bl => exact wp_set_of_own (fun _ h => h) (wp_setDq wdq_fits hrange p)
  | vref ch bl => exact wp_set_of_own (fun _ h => h) (wp_setVref hrange p)
  | wctl ch =>
    have hset : wp (setWctl ch rank v) (fun _ q => getWctl q ch rank = v) (fun _ _ => False) p :=
      wp_setWctl hrange p
    exact wp_set_of_own (fun _ h => h) hset
  | wcmd ch => exact wp_set_of_own (fun _ h => h) (wp_setWcmd hrange p)
  | wclk ch rk =>
    have hset : wp (setWclk ch rk v) (fun _ q => ∀ rank', getWclk q ch rank' = v) (fun _ _ => False) p :=
      wp_setWclk hrange p
    refine wp_mono hset ?_ fun _ _ h => h
    rintro _ q hq _ ⟨rk', rfl⟩
    exact hq rk'
  | rdqs ch bl =>
    have hle := hcheck ch bl rfl
    have hset : wp (setRdqs ch rank bl v) (fun _ q => getRdqs q ch rank bl = v ∧ v ≤ 0x47)
        (fun _ _ => False) p :=
      wp_setRdqs hrange p fun q hlt _ => absurd hle (BitVec.not_le.mpr hlt)
    refine wp_set_of_own (fun _ h => h) (wp_mono hset (fun _ q hq => ?_) fun _ _ h => h)
    exact hq.1

theorem set_refused {d : Delay} (rank : Nat) {v : BitVec 32} (hrange : d.InRange v) (h : ¬ d.Takes v)
    (p : Phy) : ∃ q, d.set rank v p = .stop .deadLoop q ∧ q.posts.head? = some (0xEE, 0xE1) := by
  have hcheck : ∃ ch bl, d = .rdqs ch bl ∧ 0x47 < v := by
    by_contra hnone
    refine h ⟨hrange, fun ch bl heq => ?_⟩
    by_contra hle
    exact hnone ⟨ch, bl, heq, BitVec.not_le.mp hle⟩
  obtain ⟨ch, bl, rfl, hlt⟩ := hcheck
  have hwp : wp (setRdqs ch rank bl v) (fun _ q => getRdqs q ch rank bl = v ∧ v ≤ 0x47)
      (fun w q => w = .deadLoop ∧ q.posts.head? = some (0xEE, 0xE1)) p :=
    wp_setRdqs hrange p fun q _ hpost => ⟨rfl, hpost⟩
  have hrun : ∃ w q, setRdqs ch rank bl v p = .stop w q := by
    cases hx : setRdqs ch rank bl v p with
    | ret _ q => exact absurd (wp_of_ret hwp hx).2 (BitVec.not_le.mpr hlt)
    | stop w q => exact ⟨w, q, rfl⟩
  obtain ⟨w, q, hx⟩ := hrun
  obtain ⟨rfl, hpost⟩ := wp_of_stop hwp hx
  exact ⟨q, hx, hpost⟩

/-- Every delay reads as what it was set to, and setting it leaves every other delay; the clocks of both
ranks are set together, and a read strobe delay above `0x47` is refused. -/
theorem set_lawful (d : Delay) (rank : Nat) (v : BitVec 32) (p : Phy) (hrange : d.InRange v) :
    (d.Takes v → ∃ q, d.set rank v p = .ret () q ∧
      (∀ d', d.Programs d' → ∀ rk, d'.read rk q = v) ∧
      (∀ d', ¬ d.Programs d' → ∀ rk, d'.read rk q = d'.read rk p)) ∧
    (¬ d.Takes v → ∃ q, d.set rank v p = .stop .deadLoop q ∧
      q.posts.head? = some (0xEE, 0xE1)) := by
  refine ⟨fun h => ?_, fun h => set_refused rank hrange h p⟩
  obtain ⟨_, q, hset, hread⟩ := returns_of_wp (wp_set rank h p)
  refine ⟨q, hset, fun d' hd rk => ?_, fun d' hd rk => ?_⟩
  · rw [Delay.read_eq]
    exact hread d' hd
  · rw [Delay.read_eq, Delay.read_eq]
    exact get_of_not_programs hd hset

theorem set_rcvn_lane :
    ∃ q, Delay.set (.rcvn 0 3) 1 0x3FF (phyWith b01ptrctl0 0xFFFF) = .ret () q ∧
      getRcvn q 0 0 3 = 0x3FF ∧ getWdqs q 0 0 3 = getWdqs (phyWith b01ptrctl0 0xFFFF) 0 0 3 := by
  obtain ⟨q, hset, hread, hkeep⟩ := (set_lawful (.rcvn 0 3) 1 0x3FF (phyWith b01ptrctl0 0xFFFF)
    (show (0x3FF : BitVec 32).toNat < 1024 by decide)).1 ⟨show (0x3FF : BitVec 32).toNat < 1024 by decide, nofun⟩
  exact ⟨q, hset, hread (.rcvn 0 3) rfl 0, hkeep (.wdqs 0 3) nofun 0⟩

/-- The clock delay of one rank is set with that of the other, and a read strobe delay of `0x48` does not
come back from its setter. -/
theorem set_not_lens :
    (∃ q, Delay.set (.wclk 0 0) 0 64 (phyWith 0 0) = .ret () q ∧
      getWclk (phyWith 0 0) 0 1 = 0 ∧ getWclk q 0 1 = 64) ∧
    ∃ q, Delay.set (.rdqs 0 0) 0 0x48 (phyWith 0 0) = .stop .deadLoop q := by
  constructor
  · have htakes : (Delay.wclk 0 0).Takes 64 := ⟨show (64 : BitVec 32).toNat < 1024 by decide, nofun⟩
    obtain ⟨_, q, hset, hread⟩ := returns_of_wp (wp_set 0 htakes (phyWith 0 0))
    exact ⟨q, hset, by decide, hread (.wclk 0 1) ⟨1, rfl⟩⟩
  · have hrange : (Delay.rdqs 0 0).InRange 0x48 := show (0x48 : BitVec 32).toNat < 128 by decide
    have hrefused : ¬ (Delay.rdqs 0 0).Takes 0x48 := fun h => absurd (h.2 0 0 rfl) (by decide)
    obtain ⟨q, hset, -⟩ := set_refused 0 hrange hrefused (phyWith 0 0)
    exact ⟨q, hset⟩

end Quark.MemoryInit
