import Quark.CapsuleSecurity.Versions

/-!
# The version checks as offers

The second pass comes to its end exactly if every image passes for itself and the versions are taken
one after the other, and it leaves the floors in the array.
-/

namespace Quark.CapsuleSecurity

open Machine MfhLib VersionFloor

section

variable {σ : Type} {C : Context} {hint : UpdateHint} {hints : List UpdateHint} {l : SvnLocals} {s : σ}

theorem Context.versions_cons_signed (h : C.Signed hint) :
    C.versions (hint :: hints) = C.version hint :: C.versions hints := by
  simp [Context.versions, h]

theorem Context.versions_cons_unsigned (h : ¬ C.Signed hint) :
    C.versions (hint :: hints) = C.versions hints := by
  simp [Context.versions, h]

theorem Context.forall_versions {p : Nat × Nat → Prop} :
    (∀ x ∈ C.versions hints, p x) ↔ ∀ hint ∈ hints, C.Signed hint → p (C.version hint) := by
  simp only [Context.versions, List.forall_mem_map, List.mem_filter, decide_eq_true_eq, and_imp]

theorem Context.ascending_versions : Ascending (C.versions hints) ↔ C.VersionsAscend hints := by
  unfold Ascending Context.versions Context.VersionsAscend
  rw [List.pairwise_map, List.pairwise_filter]
  simp only [decide_eq_true_eq]

/-! ## One hint -/

theorem updateSvnArray_eq (hint : UpdateHint) (l : SvnLocals) :
    C.updateSvnArray hint l =
      if l.status.isError = false ∧ (C.version hint).2 ≠ l.svnArray (C.version hint).1 then
        if (C.version hint).2 < l.svnArray (C.version hint).1 then
          { l with status := .securityViolation }
        else
          { l with
            svnArray := Function.update l.svnArray (C.version hint).1 (C.version hint).2
            svnArrayUpdated := true
            svnRecoveryUpdated :=
              l.svnRecoveryUpdated ∨ hint.targetAddr = pcdFlashFvFixedStage1AreaBase }
      else l := rfl

theorem updateSvnArray_error (h : l.status.isError = true) : C.updateSvnArray hint l = l := by
  rw [updateSvnArray_eq, if_neg]
  rintro ⟨hno, -⟩
  rw [h] at hno
  cases hno

theorem updateSvnArray_refused (hl : l.status = .success)
    (h : (C.version hint).2 < l.svnArray (C.version hint).1) :
    C.updateSvnArray hint l = { l with status := .securityViolation } := by
  rw [updateSvnArray_eq, if_pos ⟨by rw [hl]; rfl, Nat.ne_of_lt h⟩, if_pos h]

theorem updateSvnArray_taken (hl : l.status = .success)
    (h : l.svnArray (C.version hint).1 ≤ (C.version hint).2) :
    (C.updateSvnArray hint l).status = .success ∧
      (C.updateSvnArray hint l).svnArray =
        Function.update l.svnArray (C.version hint).1 (C.version hint).2 := by
  rw [updateSvnArray_eq]
  by_cases heq : (C.version hint).2 = l.svnArray (C.version hint).1
  · rw [if_neg (fun hne => hne.2 heq), heq, Function.update_eq_self]
    exact ⟨hl, rfl⟩
  · rw [if_pos ⟨by rw [hl]; rfl, heq⟩, if_neg (Nat.not_lt.mpr h)]
    exact ⟨hl, rfl⟩

theorem authenticateHint_ret (hint : UpdateHint) (stage3PlusImage : Bool) (s : σ) :
    (C.authenticateHint hint stage3PlusImage : Exec σ _) s = .ret
      (if stage3PlusImage then
        if ∃ item ∈ itemsOf C.rd C.useMfhHeader findAnyFitFilter,
            itemFlashAddress C.rd item = hint.targetAddr then .success
        else .unsupported
      else C.securityAuthenticateImage (u32 (C.dataToWrite hint + pcdFvSecurityHeaderSize))) s := by
  unfold Context.authenticateHint
  cases stage3PlusImage with
  | false => rfl
  | true =>
    rw [if_pos rfl, if_pos rfl, Exec.bind_of_ret (mfhLibFindForFlashAddress_eq _ _ _ _ s)]
    by_cases hin : ∃ item ∈ itemsOf C.rd C.useMfhHeader findAnyFitFilter,
        itemFlashAddress C.rd item = hint.targetAddr
    · rw [if_pos hin, if_neg]
      · rfl
      · simpa [Option.isNone_iff_eq_none] using hin
    · rw [if_neg hin, if_pos]
      · rfl
      · simpa [Option.isNone_iff_eq_none] using hin

theorem checkHint_unsigned (h : ¬ C.Signed hint) (s : σ) :
    (C.checkHint hint l : Exec σ _) s = .ret l s := by
  unfold Context.checkHint
  by_cases harea : Context.isUnsignedDataArea hint.targetAddr = true
  · rw [if_pos harea]
    rfl
  · rw [if_neg harea, if_pos (fun hid => h ⟨by simpa using harea, hid⟩)]
    rfl

theorem checkHint_signed (h : C.Signed hint) (s : σ) :
    (C.checkHint hint l : Exec σ _) s =
      .ret (C.updateSvnArray hint { l with status := C.hintStatus hint }) s := by
  unfold Context.checkHint
  rw [if_neg (by rw [h.1]; decide), if_neg (not_not.mpr h.2)]
  unfold Context.hintStatus
  show (if (C.validateSvnIndex hint.targetAddr (C.version hint).1).1.isError then _ else _ :
    Exec σ SvnLocals) s = _
  by_cases herr : (C.validateSvnIndex hint.targetAddr (C.version hint).1).1.isError = true
  · rw [if_pos herr]
    simp only [if_pos herr]
    rw [updateSvnArray_error herr]
    rfl
  · rw [if_neg herr, Exec.bind_of_ret (authenticateHint_ret _ _ s)]
    simp only [if_neg herr]
    rfl

/-! ## The pass -/

theorem secondPass_error (h : l.status.isError = true) (s : σ) :
    (C.secondPass hints l : Exec σ _) s = .ret l s := by
  cases hints with
  | nil => rfl
  | cons hint hints =>
    unfold Context.secondPass
    rw [if_pos h]
    rfl

structure Passed (C : Context) (hints : List UpdateHint) (l l' : SvnLocals) : Prop where
  success_iff : l'.status.isError = false ↔
    (∀ hint ∈ hints, C.Signed hint → C.hintStatus hint = .success) ∧
      (offerAll l.svnArray (C.versions hints)).isSome
  svnArray : l'.status.isError = false → offerAll l.svnArray (C.versions hints) = some l'.svnArray

theorem Passed.of_error {l' : SvnLocals} (herr : l'.status.isError = true)
    (h : (∀ hint ∈ hints, C.Signed hint → C.hintStatus hint = .success) →
      offerAll l.svnArray (C.versions hints) = none) : Passed C hints l l' := by
  constructor
  · constructor
    · intro hno
      rw [herr] at hno
      cases hno
    · rintro ⟨hstatus, hsome⟩
      rw [h hstatus] at hsome
      cases hsome
  · intro hno
    rw [herr] at hno
    cases hno

theorem secondPass_passed (C : Context) (hints : List UpdateHint) {l : SvnLocals} (hl : l.status = .success) (s : σ) :
    ∃ l', (C.secondPass hints l : Exec σ _) s = .ret l' s ∧ Passed C hints l l' := by
  induction hints generalizing l with
  | nil =>
    refine ⟨l, rfl, ?_, fun _ => rfl⟩
    simp [hl, Context.versions, offerAll]
  | cons hint hints ih =>
    have hgo : (C.secondPass (hint :: hints) l : Exec σ _) =
        C.checkHint hint l >>= fun l => C.secondPass hints l := by
      rw [Context.secondPass, if_neg (by rw [hl]; decide)]
    rw [hgo]
    by_cases hsigned : C.Signed hint
    · rw [Exec.bind_of_ret (checkHint_signed hsigned s)]
      by_cases hstatus : C.hintStatus hint = .success
      · rw [hstatus]
        have hsame : { l with status := .success } = l := by rw [← hl]
        rw [hsame]
        by_cases hlow : (C.version hint).2 < l.svnArray (C.version hint).1
        · rw [updateSvnArray_refused hl hlow, secondPass_error rfl]
          refine ⟨_, rfl, Passed.of_error rfl fun _ => ?_⟩
          rw [Context.versions_cons_signed hsigned]
          simp [offerAll, offer, hlow]
        · obtain ⟨hok, harray⟩ := updateSvnArray_taken hl (Nat.not_lt.mp hlow)
          obtain ⟨l', hl', hpassed⟩ := ih hok
          refine ⟨l', hl', ?_⟩
          have hoffer : offerAll l.svnArray (C.versions (hint :: hints)) =
              offerAll (C.updateSvnArray hint l).svnArray (C.versions hints) := by
            rw [Context.versions_cons_signed hsigned, harray]
            simp [offerAll, offer, hlow]
          constructor
          · rw [hoffer, hpassed.success_iff, List.forall_mem_cons]
            simp only [hstatus, implies_true, true_and]
          · rw [hoffer]
            exact hpassed.svnArray
      · have herr : (C.hintStatus hint).isError = true := by
          by_contra hno
          exact hstatus (EfiStatus.isError_eq_false.mp (by simpa using hno))
        rw [updateSvnArray_error herr, secondPass_error herr]
        refine ⟨_, rfl, Passed.of_error herr fun hall => ?_⟩
        exact absurd (hall hint List.mem_cons_self hsigned) hstatus
    · rw [Exec.bind_of_ret (checkHint_unsigned hsigned s)]
      obtain ⟨l', hl', hpassed⟩ := ih hl
      refine ⟨l', hl', ?_⟩
      constructor
      · rw [Context.versions_cons_unsigned hsigned, hpassed.success_iff, List.forall_mem_cons]
        simp only [hsigned, false_implies, true_and]
      · rw [Context.versions_cons_unsigned hsigned]
        exact hpassed.svnArray

/-! ## The array and its flag -/

/-- The array has not fallen below the one in flash, and the flag tells whether it is another one. -/
structure Tracks (flash : Nat → Nat) (l : SvnLocals) : Prop where
  le : ∀ i, flash i ≤ l.svnArray i
  updated : l.svnArrayUpdated = true ↔ l.svnArray ≠ flash

variable {flash : Nat → Nat}

theorem Tracks.withStatus (h : Tracks flash l) (status : EfiStatus) :
    Tracks flash { l with status } :=
  ⟨h.le, h.updated⟩

theorem Tracks.raise (h : Tracks flash l) {i v : Nat} (hv : l.svnArray i < v) (recovery : Bool) :
    Tracks flash ⟨l.status, Function.update l.svnArray i v, true, recovery⟩ := by
  constructor
  · intro j
    show flash j ≤ Function.update l.svnArray i v j
    by_cases hj : j = i
    · subst hj
      rw [Function.update_self]
      exact le_trans (h.le j) hv.le
    · rw [Function.update_of_ne hj]
      exact h.le j
  · refine iff_of_true rfl ?_
    intro heq
    have hi : Function.update l.svnArray i v i = flash i := congrFun heq i
    have hle := h.le i
    rw [Function.update_self] at hi
    omega

theorem Tracks.updateSvnArray (h : Tracks flash l) (hint : UpdateHint) :
    Tracks flash (C.updateSvnArray hint l) := by
  rw [updateSvnArray_eq]
  split
  case isTrue hne =>
    split
    case isTrue => exact h.withStatus _
    case isFalse hle => exact h.raise (by omega) _
  case isFalse => exact h

theorem secondPass_tracks (h : Tracks flash l) {l' : SvnLocals} {t : σ}
    (hrun : (C.secondPass hints l : Exec σ _) s = .ret l' t) : Tracks flash l' := by
  induction hints generalizing l with
  | nil =>
    injection hrun with hl _
    exact hl ▸ h
  | cons hint hints ih =>
    by_cases herr : l.status.isError = true
    · rw [secondPass_error herr] at hrun
      injection hrun with hl _
      exact hl ▸ h
    · rw [Context.secondPass, if_neg herr] at hrun
      by_cases hsigned : C.Signed hint
      · rw [Exec.bind_of_ret (checkHint_signed hsigned s)] at hrun
        exact ih ((h.withStatus _).updateSvnArray hint) hrun
      · rw [Exec.bind_of_ret (checkHint_unsigned hsigned s)] at hrun
        exact ih h hrun

/-! ## The header of the capsule -/

theorem updateCapsuleSvn_tracks (C : Context) (flash : Nat → Nat) :
    Tracks flash (C.updateCapsuleSvn flash) := by
  have hsame : Tracks flash ⟨.success, flash, false, false⟩ :=
    ⟨fun _ => le_refl _, iff_of_false Bool.false_ne_true (not_not.mpr rfl)⟩
  unfold Context.updateCapsuleSvn
  split
  case isTrue =>
    by_cases hindex :
        securityVersionNumberIndex C.rd C.signedCapsule = quarkFixedSvnIndexCapsuleImage
    · simp only [hindex, ne_eq, not_true, if_false]
      split
      case isTrue hlt => exact hsame.raise hlt _
      case isFalse => exact hsame
    · simp only [hindex, ne_eq, not_false_eq_true, if_true]
      split
      case isTrue hlt => exact (hsame.withStatus _).raise hlt _
      case isFalse => exact hsame.withStatus _
  case isFalse => exact hsame

theorem updateCapsuleSvn_success (C : Context) (flash : Nat → Nat) :
    (C.updateCapsuleSvn flash).status.isError = false ↔ C.HeaderValid := by
  unfold Context.updateCapsuleSvn Context.HeaderValid
  by_cases hid : cshIdentifier C.rd C.signedCapsule = quarkCshIdentifier
  · by_cases hindex : securityVersionNumberIndex C.rd C.signedCapsule = quarkFixedSvnIndexCapsuleImage
    · simp only [hid, hindex, if_true, ne_eq, not_true, if_false]
      split <;> simp
    · simp only [hid, hindex, if_true, ne_eq, not_false_eq_true]
      split <;> simp [EfiStatus.isError]
  · simp [hid]

theorem updateCapsuleSvn_svnArray (C : Context) (flash : Nat → Nat) :
    (C.updateCapsuleSvn flash).svnArray =
      if cshIdentifier C.rd C.signedCapsule = quarkCshIdentifier ∧
          flash quarkFixedSvnIndexCapsuleImage < securityVersionNumber C.rd C.signedCapsule then
        Function.update flash quarkFixedSvnIndexCapsuleImage
          (securityVersionNumber C.rd C.signedCapsule)
      else flash := by
  unfold Context.updateCapsuleSvn
  by_cases hid : cshIdentifier C.rd C.signedCapsule = quarkCshIdentifier
  · by_cases hlt :
        flash quarkFixedSvnIndexCapsuleImage < securityVersionNumber C.rd C.signedCapsule
    · by_cases hindex :
          securityVersionNumberIndex C.rd C.signedCapsule = quarkFixedSvnIndexCapsuleImage
      · simp [hid, hlt, hindex]
      · simp [hid, hlt, hindex]
    · by_cases hindex :
          securityVersionNumberIndex C.rd C.signedCapsule = quarkFixedSvnIndexCapsuleImage
      · simp [hid, hlt, hindex]
      · simp [hid, hlt, hindex]
  · simp [hid]

theorem updateCapsuleSvn_of_ne (C : Context) (flash : Nat → Nat) {i : Nat}
    (hi : i ≠ quarkFixedSvnIndexCapsuleImage) : (C.updateCapsuleSvn flash).svnArray i = flash i := by
  rw [updateCapsuleSvn_svnArray]
  split
  · exact Function.update_of_ne hi _ _
  · rfl

theorem index_lt_of_success (h : C.hintStatus hint = .success) :
    (C.version hint).1 < quarkFixedSvnIndexCapsuleImage := by
  by_contra hle
  unfold Context.hintStatus Context.validateSvnIndex at h
  rw [if_pos (Nat.not_lt.mp hle)] at h
  cases h

/-! ## The checks as a whole -/

structure Verdict (C : Context) (hints : List UpdateHint) (l : SvnLocals) : Prop where
  accepted_iff : l.status.isError = false ↔ C.EachValid hints ∧ C.VersionsAscend hints
  svnArray : l.status.isError = false → l.svnArray =
    raised (C.updateCapsuleSvn (readCurrentSvnArray C.rd)).svnArray (C.versions hints)
  tracks : Tracks (readCurrentSvnArray C.rd) l

theorem versionChecks_verdict (C : Context) (hints : List UpdateHint) (s : σ) :
    ∃ l, (C.versionChecks hints : Exec σ _) s = .ret l s ∧ Verdict C hints l := by
  have htracks := updateCapsuleSvn_tracks C (readCurrentSvnArray C.rd)
  have hheader := updateCapsuleSvn_success C (readCurrentSvnArray C.rd)
  by_cases hvalid : C.HeaderValid
  · have hok := EfiStatus.isError_eq_false.mp (hheader.mpr hvalid)
    obtain ⟨l, hl, hpassed⟩ := secondPass_passed C hints hok s
    refine ⟨l, hl, ?_, ?_, secondPass_tracks htracks hl⟩
    · rw [hpassed.success_iff, offerAll_isSome, Context.forall_versions, Context.ascending_versions]
      -- the floors of the images are those in flash
      have hfloor : ∀ hint, C.hintStatus hint = .success →
          (C.updateCapsuleSvn (readCurrentSvnArray C.rd)).svnArray (C.version hint).1 =
            readCurrentSvnArray C.rd (C.version hint).1 := fun hint h =>
        updateCapsuleSvn_of_ne C _ (Nat.ne_of_lt (index_lt_of_success h))
      constructor
      · rintro ⟨hstatus, hlow, hasc⟩
        refine ⟨⟨hvalid, hstatus, ?_⟩, hasc⟩
        intro hint hmem hsigned
        rw [← hfloor hint (hstatus hint hmem hsigned)]
        exact hlow hint hmem hsigned
      · rintro ⟨⟨-, hstatus, hlow⟩, hasc⟩
        refine ⟨hstatus, ?_, hasc⟩
        intro hint hmem hsigned
        rw [hfloor hint (hstatus hint hmem hsigned)]
        exact hlow hint hmem hsigned
    · intro haccepted
      exact (offerAll_eq_some.mp (hpassed.svnArray haccepted)).2.2
  · have herr : (C.updateCapsuleSvn (readCurrentSvnArray C.rd)).status.isError = true := by
      by_contra hno
      exact hvalid (hheader.mp (by simpa using hno))
    refine ⟨_, secondPass_error herr s, ?_, ?_, htracks⟩
    · refine iff_of_false (by rw [herr]; decide) ?_
      rintro ⟨heach, -⟩
      exact hvalid heach.header
    · intro hno
      rw [herr] at hno
      cases hno

end

/-! ## The order of the hints and the verdict

The array that an accepted capsule leaves is the same in every order of its hints. Whether it is
accepted is not: an image is compared with what the images before it have put into the array.
-/

section

variable {C : Context} {hints hints' : List UpdateHint}

theorem Context.EachValid.perm (h : C.EachValid hints) (hperm : hints.Perm hints') :
    C.EachValid hints' :=
  ⟨h.header, fun hint hmem => h.status hint (hperm.mem_iff.mpr hmem),
    fun hint hmem => h.notBelow hint (hperm.mem_iff.mpr hmem)⟩

theorem Context.versions_perm (hperm : hints.Perm hints') :
    (C.versions hints).Perm (C.versions hints') :=
  (hperm.filter _).map _

theorem Verdict.newSvnArray_eq {l l' : SvnLocals} (h : Verdict C hints l) (h' : Verdict C hints' l')
    (hperm : hints.Perm hints') (hl : l.status.isError = false) (hl' : l'.status.isError = false)
    (buffer : Nat → Nat) : l.newSvnArray buffer = l'.newSvnArray buffer := by
  have harray : l.svnArray = l'.svnArray := by
    rw [h.svnArray hl, h'.svnArray hl', raised_perm _ (Context.versions_perm hperm)]
  have hupdated : l.svnArrayUpdated = l'.svnArrayUpdated := by
    rw [Bool.eq_iff_iff, h.tracks.updated, h'.tracks.updated, harray]
  unfold SvnLocals.newSvnArray
  rw [harray, hupdated]

end

/-- The order of the hints makes no difference exactly for a capsule that is refused in every order,
and between two orders in both or in neither of which the images with a common index ascend. -/
theorem sameVerdict_iff (C : Context) {hints hints' : List UpdateHint}
    (hperm : hints.Perm hints') :
    C.SameVerdict hints hints' ↔
      ¬ C.EachValid hints ∨ (C.VersionsAscend hints ↔ C.VersionsAscend hints') := by
  have heach : C.EachValid hints ↔ C.EachValid hints' :=
    ⟨fun h => h.perm hperm, fun h => h.perm hperm.symm⟩
  constructor
  · intro hsame
    obtain ⟨l, l', hl, hl', hstatus, -⟩ := hsame Unit ()
    obtain ⟨m, hm, hv⟩ := versionChecks_verdict C hints ()
    obtain ⟨m', hm', hv'⟩ := versionChecks_verdict C hints' ()
    rw [hl] at hm
    rw [hl'] at hm'
    injection hm with hm
    injection hm' with hm'
    subst hm hm'
    have haccepted := hv.accepted_iff
    rw [hstatus, hv'.accepted_iff, ← heach] at haccepted
    by_cases hvalid : C.EachValid hints
    · right
      simp only [hvalid, true_and] at haccepted
      exact haccepted.symm
    · exact .inl hvalid
  · intro h σ s
    obtain ⟨l, hl, hv⟩ := versionChecks_verdict C hints s
    obtain ⟨l', hl', hv'⟩ := versionChecks_verdict C hints' s
    have hiff : l.status.isError = false ↔ l'.status.isError = false := by
      rw [hv.accepted_iff, hv'.accepted_iff, ← heach]
      rcases h with hinvalid | hasc
      · simp only [hinvalid, false_and]
      · rw [hasc]
    refine ⟨l, l', hl, hl', ?_, ?_⟩
    · rw [Bool.eq_iff_iff, ← not_iff_not]
      simpa using hiff
    · intro hok
      exact hv.newSvnArray_eq hv' hperm hok (hiff.mp hok)

/-! ## Every order -/

section

variable {C : Context} {hints : List UpdateHint}

theorem Context.exists_versionsAscend (C : Context) (hints : List UpdateHint) :
    ∃ sorted, hints.Perm sorted ∧ C.VersionsAscend sorted := by
  let le := fun a b => decide ((C.version a).2 ≤ (C.version b).2)
  have htrans : ∀ a b c, le a b = true → le b c = true → le a c = true := by
    intro a b c hab hbc
    exact decide_eq_true (Nat.le_trans (of_decide_eq_true hab) (of_decide_eq_true hbc))
  have htotal : ∀ a b, (le a b || le b a) = true := by
    intro a b
    simp only [le, Bool.or_eq_true, decide_eq_true_eq]
    exact Nat.le_total _ _
  refine ⟨hints.mergeSort le, (List.mergeSort_perm _ _).symm, ?_⟩
  exact (List.pairwise_mergeSort htrans htotal hints).imp fun h _ _ _ => of_decide_eq_true h

theorem exists_perm_cons_cons {a b : UpdateHint} (ha : a ∈ hints) (hb : b ∈ hints) (hne : a ≠ b) :
    ∃ rest, hints.Perm (a :: b :: rest) := by
  have hb' : b ∈ hints.erase a := (List.mem_erase_of_ne hne.symm).mpr hb
  exact ⟨(hints.erase a).erase b,
    (List.perm_cons_erase ha).trans ((List.perm_cons_erase hb').cons a)⟩

end

/-- A capsule has the same verdict in every order if and only if it has none to pass in or no two of its
signed images share an index with different versions. -/
theorem sameVerdict_all_iff (C : Context) (hints : List UpdateHint) :
    (∀ hints', hints.Perm hints' → C.SameVerdict hints hints') ↔
      ¬ C.EachValid hints ∨ C.OneVersionPerIndex hints := by
  constructor
  · intro hall
    by_cases hvalid : C.EachValid hints
    · right
      have hiff : ∀ hints', hints.Perm hints' →
          (C.VersionsAscend hints ↔ C.VersionsAscend hints') := fun hints' hperm =>
        ((sameVerdict_iff C hperm).mp (hall hints' hperm)).resolve_left (not_not.mpr hvalid)
      obtain ⟨sorted, hperm, hsorted⟩ := C.exists_versionsAscend hints
      have hasc := (hiff sorted hperm).mpr hsorted
      -- any two hints can come first, and in either order
      have hle : ∀ a ∈ hints, ∀ b ∈ hints, C.Signed a → C.Signed b →
          (C.version a).1 = (C.version b).1 → (C.version a).2 ≤ (C.version b).2 := by
        intro a ha b hb hsa hsb hindex
        by_cases hab : a = b
        · rw [hab]
        · obtain ⟨rest, hrest⟩ := exists_perm_cons_cons ha hb hab
          have hfirst := List.rel_of_pairwise_cons ((hiff _ hrest).mp hasc) List.mem_cons_self
          exact hfirst hsa hsb hindex
      intro a ha b hb hsa hsb hindex
      exact Nat.le_antisymm (hle a ha b hb hsa hsb hindex) (hle b hb a ha hsb hsa hindex.symm)
    · exact .inl hvalid
  · intro h hints' hperm
    refine (sameVerdict_iff C hperm).mpr ?_
    rcases h with hinvalid | hequal
    · exact .inl hinvalid
    · right
      have hascends : ∀ table, hints.Perm table → C.VersionsAscend table := by
        intro table htable
        refine List.pairwise_of_forall_mem_list ?_
        intro a ha b hb hsa hsb hindex
        exact (hequal a (htable.mem_iff.mpr ha) b (htable.mem_iff.mpr hb) hsa hsb hindex).le
      exact iff_of_true (hascends hints (.refl _)) (hascends hints' hperm)

theorem verdictOrder_iff (C : Context) {hints hints' : List UpdateHint}
    (hperm : hints.Perm hints') :
    (C.SameVerdict hints hints' ↔
      ¬ C.EachValid hints ∨ (C.VersionsAscend hints ↔ C.VersionsAscend hints')) ∧
    ((∀ table, hints.Perm table → C.SameVerdict hints table) ↔
      ¬ C.EachValid hints ∨ C.OneVersionPerIndex hints) :=
  ⟨sameVerdict_iff C hperm, sameVerdict_all_iff C hints⟩

/-! ## Two stage 1 images -/

/-- A flash with two signed stage 1 items in its MFH and an empty array, and a capsule with an image for
each: the first of version 1, the second of version 2. -/
def twoStage1 : Context where
  debugAssertEnabled := true
  rd := Mem.ofWords [(0xFFF08000, mfhIdentifier), (0xFFF08010, 2),
    (0xFFF08018, typeFwStage1Signed), (0xFFF0801C, 0xFFE80000),
    (0xFFF08028, typeFwStage1Signed), (0xFFF0802C, 0xFFEC0000),
    (0x1000000, quarkCshIdentifier), (0x100000C, quarkFixedSvnIndexCapsuleImage),
    (0x1001400, quarkCshIdentifier), (0x100140C, quarkFixedSvnIndexStage1Image), (0x1001410, 1),
    (0x1041400, quarkCshIdentifier), (0x104140C, quarkFixedSvnIndexStage1Image), (0x1041410, 2)]
  signedCapsule := 0x1000000
  securityAuthenticateImage := fun _ => .success
  useMfhHeader := none
  mStage1MfhList := [0xFFF08018, 0xFFF08028]
  mStage2MfhItem := none

def firstStage1 : UpdateHint := ⟨0xFFE80000, 0x40000, 0x1000, 0⟩
def secondStage1 : UpdateHint := ⟨0xFFEC0000, 0x40000, 0x41000, 0⟩

theorem verdictOrder_iff_twoStage1 :
    (twoStage1.SameVerdict [firstStage1, secondStage1] [secondStage1, firstStage1] ↔
      ¬ twoStage1.EachValid [firstStage1, secondStage1] ∨
        (twoStage1.VersionsAscend [firstStage1, secondStage1] ↔
          twoStage1.VersionsAscend [secondStage1, firstStage1])) ∧
    ((∀ table, [firstStage1, secondStage1].Perm table →
        twoStage1.SameVerdict [firstStage1, secondStage1] table) ↔
      ¬ twoStage1.EachValid [firstStage1, secondStage1] ∨
        twoStage1.OneVersionPerIndex [firstStage1, secondStage1]) :=
  verdictOrder_iff twoStage1 (List.Perm.swap secondStage1 firstStage1 [])

/-- The two images are accepted in one order and taken for a rollback in the other. -/
theorem not_sameVerdict :
    ¬ ∀ (C : Context) (hints hints' : List UpdateHint), hints.Perm hints' →
      C.SameVerdict hints hints' := by
  intro h
  obtain ⟨l, l', hl, hl', hstatus, -⟩ := h twoStage1 [firstStage1, secondStage1]
    [secondStage1, firstStage1] (List.Perm.swap secondStage1 firstStage1 []) Unit ()
  have hup : ((twoStage1.versionChecks [firstStage1, secondStage1] ()).value?.map
      SvnLocals.status) = some .success := by rfl
  have hdown : ((twoStage1.versionChecks [secondStage1, firstStage1] ()).value?.map
      SvnLocals.status) = some .securityViolation := by rfl
  rw [hl] at hup
  rw [hl'] at hdown
  have hl_status : l.status = .success := Option.some.inj hup
  have hl'_status : l'.status = .securityViolation := Option.some.inj hdown
  rw [hl_status, hl'_status] at hstatus
  cases hstatus

end Quark.CapsuleSecurity
