import Quark.Machine.Exec

/-!
# EFI status codes and `ASSERT`

`ASSERT` is compiled in unless `MDEPKG_NDEBUG` is defined, and tests `DebugAssertEnabled ()` first,
which reads `PcdDebugPropertyMask`. The build scripts set that mask to `0x23` or `0x27`: asserts are
enabled and a failing one ends in `CpuDeadLoop`. A build that leaves the mask at its default has
them disabled, so the flag stays a parameter.
-/

namespace Quark

open Machine

/-- The `EFI_STATUS` values of the modelled code. -/
inductive EfiStatus where
  | success
  | invalidParameter
  | unsupported
  | badBufferSize
  | bufferTooSmall
  | notReady
  | deviceError
  | writeProtected
  | outOfResources
  | volumeCorrupted
  | mediaChanged
  | notFound
  | accessDenied
  | timeout
  | alreadyStarted
  | incompatibleVersion
  | securityViolation
  | crcError
  deriving DecidableEq, Repr

/-- `EFI_ERROR`. -/
def EfiStatus.isError : EfiStatus → Bool
  | .success => false
  | _ => true

/-- The `UINT32` a status is, with the error bit of `ENCODE_ERROR`. -/
def EfiStatus.code : EfiStatus → Nat
  | .success => 0
  | .invalidParameter => 0x80000002
  | .unsupported => 0x80000003
  | .badBufferSize => 0x80000004
  | .bufferTooSmall => 0x80000005
  | .notReady => 0x80000006
  | .deviceError => 0x80000007
  | .writeProtected => 0x80000008
  | .outOfResources => 0x80000009
  | .volumeCorrupted => 0x8000000A
  | .mediaChanged => 0x8000000D
  | .notFound => 0x8000000E
  | .accessDenied => 0x8000000F
  | .timeout => 0x80000012
  | .alreadyStarted => 0x80000014
  | .incompatibleVersion => 0x80000019
  | .securityViolation => 0x8000001A
  | .crcError => 0x8000001B

@[simp] theorem EfiStatus.isError_success : EfiStatus.success.isError = false := rfl

theorem EfiStatus.isError_eq_false {st : EfiStatus} : st.isError = false ↔ st = .success := by
  cases st <;> simp [isError]

/-- `ASSERT (c)` in a build where `DebugAssertEnabled ()` is `enabled`. -/
def assert {σ : Type} (enabled : Bool) (c : Prop) [Decidable c] : Exec σ Unit :=
  if enabled ∧ ¬ c then .halt .deadLoop else pure ()

/-- `ASSERT_EFI_ERROR (st)`. -/
def assertEfiError {σ : Type} (enabled : Bool) (st : EfiStatus) : Exec σ Unit :=
  assert enabled (st.isError = false)

section

variable {σ : Type} {Q : Unit → σ → Prop} {E : Stop → σ → Prop} {s : σ}

theorem assert_of {enabled : Bool} {c : Prop} [Decidable c] (h : enabled = true → c) (s : σ) :
    assert enabled c s = .ret () s := by
  unfold assert
  rw [if_neg fun hfail => hfail.2 (h hfail.1)]
  rfl

theorem of_assert {enabled : Bool} {c : Prop} [Decidable c] {u : Unit} {t : σ}
    (h : assert enabled c s = .ret u t) : (enabled = true → c) ∧ t = s := by
  unfold assert at h
  by_cases hfail : enabled = true ∧ ¬ c
  · rw [if_pos hfail] at h
    cases h
  · rw [if_neg hfail] at h
    refine ⟨fun henabled => Decidable.byContradiction fun hc => hfail ⟨henabled, hc⟩, ?_⟩
    cases h
    rfl

@[simp] theorem wp_assert (enabled : Bool) (c : Prop) [Decidable c] :
    (assert enabled c : Exec σ Unit).wp Q E s ↔
      ((enabled = true → c) → Q () s) ∧ (enabled = true ∧ ¬ c → E .deadLoop s) := by
  unfold assert
  rw [Exec.wp_ite]
  simp only [Exec.wp_halt, Exec.wp_pure]
  constructor
  · rintro ⟨h₁, h₂⟩
    exact ⟨fun h => h₂ fun hno => hno.2 (h hno.1), h₁⟩
  · rintro ⟨h₁, h₂⟩
    exact ⟨h₂, fun h => h₁ fun he => Decidable.byContradiction fun hc => h ⟨he, hc⟩⟩

@[simp] theorem wp_assertEfiError (enabled : Bool) (st : EfiStatus) :
    (assertEfiError enabled st : Exec σ Unit).wp Q E s ↔
      ((enabled = true → st.isError = false) → Q () s) ∧
        (enabled = true ∧ ¬ st.isError = false → E .deadLoop s) :=
  wp_assert enabled _

end

end Quark
