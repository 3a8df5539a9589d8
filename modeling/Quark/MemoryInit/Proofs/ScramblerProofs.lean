import Quark.MemoryInit.Scrambler
import Mathlib.Tactic.Ring

/-!
# The scrambler never locks up

The low bits of the shifted values, inverted, are a stream that obeys a linear recurrence, and the register
holds thirty-two of its bits.
-/

namespace Quark.MemoryInit

/-! ## One shift -/

abbrev feedback (x : BitVec 32) : Bool :=
  !(x.getLsbD 0 ^^ x.getLsbD 1 ^^ x.getLsbD 2 ^^ x.getLsbD 22)

theorem and_bit (x : BitVec 32) (k : Nat) (hk : k < 32) :
    (x &&& BitVec.twoPow 32 k) >>> k = (BitVec.ofBool (x.getLsbD k)).setWidth 32 := by
  apply BitVec.eq_of_getLsbD_eq
  intro i hi
  simp only [BitVec.getLsbD_ushiftRight, BitVec.getLsbD_and, BitVec.getLsbD_twoPow, BitVec.getLsbD_setWidth,
    BitVec.getLsbD_ofBool]
  by_cases h : i = 0
  · subst h; simp [hk]
  · simp [h]

theorem xor_bits : ∀ a b c d : Bool,
    (1#32 ^^^ (BitVec.ofBool a).setWidth 32 ^^^ (BitVec.ofBool b).setWidth 32 ^^^ (BitVec.ofBool c).setWidth 32 ^^^
      (BitVec.ofBool d).setWidth 32) = (BitVec.ofBool !(a ^^ b ^^ c ^^ d)).setWidth 32 := by
  decide

theorem lfsrShift_eq (x : BitVec 32) :
    lfsrShift x = x >>> 1 ||| ((BitVec.ofBool (feedback x)).setWidth 32) <<< 31 := by
  have h0 : x &&& 0x00000001 = (BitVec.ofBool (x.getLsbD 0)).setWidth 32 := and_bit x 0 (by decide)
  have h1 : (x &&& 0x00000002) >>> 1 = (BitVec.ofBool (x.getLsbD 1)).setWidth 32 := and_bit x 1 (by decide)
  have h2 : (x &&& 0x00000004) >>> 2 = (BitVec.ofBool (x.getLsbD 2)).setWidth 32 := and_bit x 2 (by decide)
  have h22 : (x &&& 0x00400000) >>> 22 = (BitVec.ofBool (x.getLsbD 22)).setWidth 32 := and_bit x 22 (by decide)
  rw [lfsrShift, h0, h1, h2, h22]
  exact congrArg (fun b : BitVec 32 => x >>> 1 ||| b <<< 31) (xor_bits _ _ _ _)

theorem getLsbD_lfsrShift (x : BitVec 32) {i : Nat} (hi : i < 31) : (lfsrShift x).getLsbD i = x.getLsbD (i + 1) := by
  rw [lfsrShift_eq, BitVec.getLsbD_or, BitVec.getLsbD_shiftLeft, BitVec.getLsbD_ushiftRight, Nat.add_comm 1]
  simp [hi]

theorem getLsbD_lfsrShift_last (x : BitVec 32) : (lfsrShift x).getLsbD 31 = feedback x := by
  rw [lfsrShift_eq, BitVec.getLsbD_or, BitVec.getLsbD_shiftLeft, BitVec.getLsbD_ushiftRight]
  simp [feedback]

theorem lfsrShift_injective : Function.Injective lfsrShift := by
  intro x y h
  have hlater : ∀ i < 31, x.getLsbD (i + 1) = y.getLsbD (i + 1) := by
    intro i hi
    rw [← getLsbD_lfsrShift x hi, ← getLsbD_lfsrShift y hi, h]
  have hlast : feedback x = feedback y := by rw [← getLsbD_lfsrShift_last, ← getLsbD_lfsrShift_last, h]
  -- the other taps are equal, so the lowest bit is what the feedback leaves
  have hfirst : x.getLsbD 0 = y.getLsbD 0 := by
    have h1 := hlater 0 (by decide)
    have h2 := hlater 1 (by decide)
    have h22 := hlater 21 (by decide)
    simp only [feedback, h1, h2, h22, Bool.not_inj_iff, Bool.xor_left_inj] at hlast
    exact hlast
  apply BitVec.eq_of_getLsbD_eq
  intro i hi
  cases i with
  | zero => exact hfirst
  | succ i => exact hlater i (by omega)

/-! ## The stream -/

def stream (x : BitVec 32) (n : Nat) : Bool := !(lfsrShift^[n] x).getLsbD 0

theorem getLsbD_iterate (x : BitVec 32) : ∀ i < 32, ∀ n, (lfsrShift^[n] x).getLsbD i = !stream x (n + i) := by
  intro i
  induction i with
  | zero => intro _ n; simp [stream]
  | succ i ih =>
    intro hi n
    rw [← getLsbD_lfsrShift _ (by omega), ← Function.iterate_succ_apply' lfsrShift, ih (by omega)]
    congr 2
    omega

theorem stream_recurrence (x : BitVec 32) (n : Nat) :
    stream x (n + 32) = (stream x n ^^ stream x (n + 1) ^^ stream x (n + 2) ^^ stream x (n + 22)) := by
  have h := getLsbD_iterate x 31 (by decide) (n + 1)
  rw [Function.iterate_succ_apply', getLsbD_lfsrShift_last, feedback, getLsbD_iterate x 0 (by decide),
    getLsbD_iterate x 1 (by decide), getLsbD_iterate x 2 (by decide), getLsbD_iterate x 22 (by decide)] at h
  rw [show n + 32 = n + 1 + 31 from rfl, ← Bool.not_inj_iff, ← h]
  simp

theorem eq_lockUp_of_stream {x : BitVec 32} (h : ∀ n, stream x n = false) : x = lockUp := by
  apply BitVec.eq_of_getLsbD_eq
  intro i hi
  have hx := getLsbD_iterate x i hi 0
  rw [h] at hx
  rw [show lockUp = BitVec.allOnes 32 from rfl, BitVec.getLsbD_allOnes, decide_eq_true hi]
  exact hx

/-! ## Thirty-two shifts -/

theorem lfsr32_injective : Function.Injective lfsr32 := lfsrShift_injective.iterate 32

theorem lfsr32_lockUp : lfsr32 lockUp = lockUp :=
  Function.iterate_fixed (by decide : lfsrShift lockUp = lockUp) 32

/-- A stream of period 32 is zero: what the recurrence says of the distances 1 and 21 it says, added to itself
twice, of their doubles, and so of 32 and 672. -/
theorem lfsr32_fixed {x : BitVec 32} (h : lfsr32 x = x) : x = lockUp := by
  have hperiod : ∀ m, stream x (m + 32) = stream x m := fun m => by
    rw [stream, Function.iterate_add_apply, show lfsrShift^[32] x = x from h, ← stream]
  have hfirst : ∀ m, (stream x m ^^ stream x (m + 1) ^^ stream x (m + 21)) = false := by
    intro m
    have hm := stream_recurrence x (m + 31)
    rw [hperiod, show m + 31 + 1 = m + 32 from rfl, show m + 31 + 2 = m + 1 + 32 from rfl,
      show m + 31 + 22 = m + 21 + 32 from rfl, hperiod, hperiod, hperiod] at hm
    revert hm
    cases stream x (m + 31) <;> cases stream x m <;> cases stream x (m + 1) <;> cases stream x (m + 21) <;> decide
  have hdouble : ∀ k, (∀ m, (stream x m ^^ stream x (m + k) ^^ stream x (m + 21 * k)) = false) →
      ∀ m, (stream x m ^^ stream x (m + 2 * k) ^^ stream x (m + 21 * (2 * k))) = false := by
    intro k hk m
    have h0 := hk m
    have h1 := hk (m + k)
    have h21 := hk (m + 21 * k)
    rw [show m + k + k = m + 2 * k by ring] at h1
    rw [show m + 21 * k + k = m + k + 21 * k by ring, show m + 21 * k + 21 * k = m + 21 * (2 * k) by ring] at h21
    revert h0 h1 h21
    generalize stream x m = a, stream x (m + k) = b, stream x (m + 21 * k) = c, stream x (m + 2 * k) = d,
      stream x (m + k + 21 * k) = e, stream x (m + 21 * (2 * k)) = f
    revert a b c d e f
    decide
  have hlast := hdouble 16 (hdouble 8 (hdouble 4 (hdouble 2 (hdouble 1 hfirst))))
  refine eq_lockUp_of_stream fun n => ?_
  have hrounds : ∀ j, stream x (n + 32 * j) = stream x n := by
    intro j
    induction j with
    | zero => rfl
    | succ j ih => rw [Nat.mul_succ, ← Nat.add_assoc, hperiod, ih]
  have h672 := hlast n
  rw [show 21 * (2 * 16) = 32 * 21 by rfl, hrounds, show 2 * 16 = 32 by rfl, hperiod, Bool.xor_self,
    Bool.false_xor] at h672
  exact h672

theorem lfsr32_ne_lockUp {x : BitVec 32} (h : x ≠ lockUp) : lfsr32 x ≠ lockUp :=
  fun hx => h (lfsr32_injective (hx.trans lfsr32_lockUp.symm))

theorem iterate_lfsr32_ne_lockUp {x : BitVec 32} (h : x ≠ lockUp) (n : Nat) : lfsr32^[n] x ≠ lockUp := by
  induction n with
  | zero => exact h
  | succ n ih =>
    rw [Function.iterate_succ_apply']
    exact lfsr32_ne_lockUp ih

/-! ## The boots -/

theorem bootLfsr_ne_lockUp (b : Boot) {seed : BitVec 32} (h : seed ≠ lockUp) : bootLfsr b seed ≠ lockUp := by
  unfold bootLfsr
  split
  · split
    · -- the clock is masked to 28 bits
      intro hb
      have htop := congrArg (BitVec.getLsbD · 31) hb
      simp at htop
    · exact iterate_lfsr32_ne_lockUp h 16
  · exact h

theorem enableScrambling_seed (b : Boot) {seed : BitVec 32} (h : seed ≠ lockUp) :
    (enableScrambling b seed).1 ≠ lockUp := by
  unfold enableScrambling
  split
  · exact h
  · dsimp only
    split
    · exact bootLfsr_ne_lockUp b h
    · exact h

theorem enableScrambling_key (b : Boot) {seed : BitVec 32} (h : seed ≠ lockUp)
    (hb : (enableScrambling b seed).2 ≠ []) :
    ∃ key, (enableScrambling b seed).2 = keyWrites key ∧ key ≠ lockUp ∧ lfsr32 key ≠ key := by
  unfold enableScrambling at hb ⊢
  split at hb
  · exact absurd rfl hb
  next hen =>
    rw [if_neg hen]
    have hkey := lfsr32_ne_lockUp (bootLfsr_ne_lockUp b h)
    exact ⟨_, rfl, hkey, fun hfix => hkey (lfsr32_fixed hfix)⟩

theorem scramblerRun_keys (boots : List Boot) : ∀ {seed : BitVec 32}, seed ≠ lockUp →
    ∀ writes ∈ scramblerRun boots seed, writes ≠ [] →
      ∃ key, writes = keyWrites key ∧ key ≠ lockUp ∧ lfsr32 key ≠ key := by
  induction boots with
  | nil => intro seed _ writes hmem; cases hmem
  | cons b boots ih =>
    intro seed h writes hmem hne
    rcases List.mem_cons.mp hmem with rfl | hmem
    · exact enableScrambling_key b h hne
    · exact ih (enableScrambling_seed b h) writes hmem hne

/-- The generator permutes the values, leaves all but the lock-up value, and reaches that one from no other; and
no boot of a run writes a key of it. -/
theorem scrambler_never_locksUp {seed : BitVec 32} (h : seed ≠ lockUp) :
    Function.Injective lfsr32 ∧ (∀ x, lfsr32 x = x ↔ x = lockUp) ∧ (∀ n, lfsr32^[n] seed ≠ lockUp) ∧
    ∀ boots, ∀ writes ∈ scramblerRun boots seed, writes ≠ [] →
      ∃ key, writes = keyWrites key ∧ key ≠ lockUp ∧ lfsr32 key ≠ key :=
  ⟨lfsr32_injective, fun _ => ⟨lfsr32_fixed, fun hx => hx ▸ lfsr32_lockUp⟩, iterate_lfsr32_ne_lockUp h,
    fun boots => scramblerRun_keys boots h⟩

theorem scrambler_never_locksUp_factory : (∀ n, lfsr32^[n] 0 ≠ lockUp) ∧
    ∃ key, (enableScrambling ⟨1, bmCold, 0x123456789⟩ 0).2 = keyWrites key ∧ key ≠ lockUp ∧ lfsr32 key ≠ key :=
  have h := @scrambler_never_locksUp 0 (by decide)
  ⟨h.2.2.1, h.2.2.2 [⟨1, bmCold, 0x123456789⟩] _ (List.mem_singleton.mpr rfl) (List.cons_ne_nil _ _)⟩

end Quark.MemoryInit
