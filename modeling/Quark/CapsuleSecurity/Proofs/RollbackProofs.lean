import Quark.CapsuleSecurity.Proofs.VersionsProofs
import Mathlib.Order.Bounds.Basic

/-!
# No rollback

A capsule that is accepted on a secure SKU leaves an array in which no entry is lower than in flash, and
every entry is the greatest of the one in flash and of the versions that the capsule offers for it.
-/

namespace Quark.CapsuleSecurity

open Machine MfhLib VersionFloor SmiFlash

/-- The versions that flash and capsule have for an index. The capsule as a whole has one at the index of
capsule images. -/
def Context.svnCandidates (C : Context) (hints : List UpdateHint) (i : Nat) : Set Nat :=
  { v | v = readCurrentSvnArray C.rd i ∨
    (∃ hint ∈ hints, C.Signed hint ∧ C.version hint = (i, v)) ∨
    (cshIdentifier C.rd C.signedCapsule = quarkCshIdentifier ∧ i = quarkFixedSvnIndexCapsuleImage ∧
      v = securityVersionNumber C.rd C.signedCapsule) }

/-- What an accepted capsule leaves with the caller. `svnArray` is the new array, which the caller gets
unless the update point is `SvnUpdNever`. -/
structure AntiRollback (C : Context) (hints : List UpdateHint) (r : SecurityResult)
    (svnArray : Nat → Nat) : Prop where
  handed : r.svnAreaUpdPoint ≠ svnUpdNever → r.newSvnArray = svnArray
  le : ∀ i, readCurrentSvnArray C.rd i ≤ svnArray i
  images : ∀ hint ∈ hints, C.Signed hint →
    readCurrentSvnArray C.rd (C.version hint).1 ≤ (C.version hint).2
  greatest : ∀ i, IsGreatest (C.svnCandidates hints i) (svnArray i)
  never_iff : r.svnAreaUpdPoint = svnUpdNever ↔ svnArray = readCurrentSvnArray C.rd

section

variable {C : Context} {hints : List UpdateHint}

theorem updateCapsuleSvn_cases (C : Context) (flash : Nat → Nat) (i : Nat) :
    (C.updateCapsuleSvn flash).svnArray i = flash i ∨
      (cshIdentifier C.rd C.signedCapsule = quarkCshIdentifier ∧ i = quarkFixedSvnIndexCapsuleImage ∧
        (C.updateCapsuleSvn flash).svnArray i = securityVersionNumber C.rd C.signedCapsule) := by
  by_cases hi : i = quarkFixedSvnIndexCapsuleImage
  · subst hi
    rw [updateCapsuleSvn_svnArray]
    split
    case isTrue h => exact .inr ⟨h.1, rfl, Function.update_self _ _ _⟩
    case isFalse => exact .inl rfl
  · exact .inl (updateCapsuleSvn_of_ne C flash hi)

theorem le_updateCapsuleSvn (flash : Nat → Nat)
    (hid : cshIdentifier C.rd C.signedCapsule = quarkCshIdentifier) :
    securityVersionNumber C.rd C.signedCapsule ≤
      (C.updateCapsuleSvn flash).svnArray quarkFixedSvnIndexCapsuleImage := by
  rw [updateCapsuleSvn_svnArray]
  split
  case isTrue => rw [Function.update_self]
  case isFalse h => exact Nat.not_lt.mp fun hlt => h ⟨hid, hlt⟩

theorem isGreatest_raised (C : Context) (hints : List UpdateHint) (i : Nat) :
    IsGreatest (C.svnCandidates hints i)
      (raised (C.updateCapsuleSvn (readCurrentSvnArray C.rd)).svnArray (C.versions hints) i) := by
  have hmem : ∀ {v}, (i, v) ∈ C.versions hints ↔
      ∃ hint ∈ hints, C.Signed hint ∧ C.version hint = (i, v) := by
    intro v
    simp only [Context.versions, List.mem_map, List.mem_filter, decide_eq_true_eq, and_assoc]
  constructor
  · rcases raised_eq_or (C.updateCapsuleSvn (readCurrentSvnArray C.rd)).svnArray
      (C.versions hints) i with h | h
    · rw [h]
      exact (updateCapsuleSvn_cases C _ i).imp id .inr
    · exact .inr (.inl (hmem.mp h))
  · rintro v (rfl | h | ⟨hid, rfl, rfl⟩)
    · exact le_trans ((updateCapsuleSvn_tracks C _).le i) (le_raised _ _ i)
    · exact le_raised_of_mem (x := (i, v)) _ (hmem.mpr h)
    · exact le_trans (le_updateCapsuleSvn _ hid) (le_raised _ _ _)

theorem chooseUpdatePoint_spec {σ : Type} {asserts : Bool} {l : SvnLocals} {buffer : Nat → Nat}
    {r : SecurityResult} {s t : σ}
    (hrun : (chooseUpdatePoint asserts l buffer hints : Exec σ _) s = .ret r t) :
    r.status = l.status ∧ r.newSvnArray = l.newSvnArray buffer ∧
      (r.svnAreaUpdPoint = svnUpdNever ↔ l.svnArrayUpdated = false) := by
  unfold chooseUpdatePoint at hrun
  split at hrun
  case isTrue hno =>
    injection hrun with hr _
    subst hr
    exact ⟨rfl, rfl, iff_of_true rfl hno⟩
  case isFalse hyes =>
    have hpoint : svnUpdAtStart ≠ svnUpdNever ∧ svnUpdAtEnd ≠ svnUpdNever ∧
        svnUpdAtTrigAddr ≠ svnUpdNever := by decide
    split at hrun
    case isTrue =>
      obtain ⟨_, u, -, hrun⟩ := Exec.ret_of_bind hrun
      split at hrun
      · injection hrun with hr _
        subst hr
        exact ⟨rfl, rfl, iff_of_false hpoint.2.2 hyes⟩
      · injection hrun with hr _
        subst hr
        exact ⟨rfl, rfl, iff_of_false hpoint.2.1 hyes⟩
    case isFalse =>
      injection hrun with hr _
      subst hr
      exact ⟨rfl, rfl, iff_of_false hpoint.1 hyes⟩

end

theorem secureSku_antiRollback {σ : Type} (C : Context) (priorities : List HintPriority)
    (hints : List UpdateHint) (buffer : Nat → Nat) {r : SecurityResult} {s t : σ}
    (hrun : C.secureSku priorities hints buffer s = .ret r t) (hsuccess : r.status = .success) :
    ∃ svnArray, AntiRollback C hints r svnArray := by
  obtain ⟨l, hl, hv⟩ := versionChecks_verdict C hints s
  unfold Context.secureSku at hrun
  rw [Exec.bind_of_ret hl] at hrun
  split at hrun
  case isTrue herr =>
    injection hrun with hr _
    subst hr
    rw [show l.status = .success from hsuccess] at herr
    cases herr
  case isFalse hok =>
    have hok : l.status.isError = false := by simpa using hok
    obtain ⟨reordered, u, -, hrun⟩ := Exec.ret_of_bind hrun
    obtain ⟨-, hnew, hnever⟩ := chooseUpdatePoint_spec hrun
    have heach := (hv.accepted_iff.mp hok).1
    have hupdated : l.svnArrayUpdated = false ↔ l.svnArray = readCurrentSvnArray C.rd := by
      rw [← Bool.not_eq_true, hv.tracks.updated, not_not]
    refine ⟨l.svnArray, ?_, hv.tracks.le, heach.notBelow, ?_, hnever.trans hupdated⟩
    · intro hpoint
      have hyes : l.svnArrayUpdated = true := by simpa using mt hnever.mpr hpoint
      rw [hnew, SvnLocals.newSvnArray, if_pos hyes]
    · intro i
      rw [hv.svnArray hok]
      exact isGreatest_raised C hints i

def signedStage1 : Context where
  debugAssertEnabled := true
  rd := Mem.ofWords [(0xFFF08000, mfhIdentifier), (0xFFF08010, 1),
    (0xFFF08018, typeFwStage1Signed), (0xFFF0801C, 0xFFE80000),
    (0x1000000, quarkCshIdentifier), (0x100000C, quarkFixedSvnIndexCapsuleImage), (0x1000010, 3),
    (0x1001400, quarkCshIdentifier), (0x100140C, quarkFixedSvnIndexStage1Image), (0x1001410, 1)]
  signedCapsule := 0x1000000
  securityAuthenticateImage := fun _ => .success
  useMfhHeader := none
  mStage1MfhList := [0xFFF08018]
  mStage2MfhItem := none

theorem secureSku_antiRollback_signedStage1 : ∃ r,
    signedStage1.secureSku mPriorityHintList [⟨0xFFE80000, 0x40000, 0x1000, 0⟩] (fun _ => 0) () =
      .ret r () ∧ r.status = .success ∧
      ∃ svnArray, AntiRollback signedStage1 [⟨0xFFE80000, 0x40000, 0x1000, 0⟩] r svnArray :=
  ⟨_, rfl, rfl, secureSku_antiRollback signedStage1 mPriorityHintList
    [⟨0xFFE80000, 0x40000, 0x1000, 0⟩] (fun _ => 0) (s := ()) (t := ()) rfl rfl⟩

end Quark.CapsuleSecurity
