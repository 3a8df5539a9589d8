import Quark.SmiFlash.Intake

/-!
# What each part of the driver leaves alone

The parse reads the capsule and fills the block table, the MFH validation updates the image list, and
the update steps drive the flash. Each of them keeps every other global, which is said here once per
function: `parseMask`, `imagesMask` and `updateMask` blank out the fields the part may change.
-/

namespace Quark.SmiFlash

open Machine

def SmmState.ramMask (s : SmmState) : SmmState := { s with ram := fun _ => 0 }

/-- The globals that challenging and parsing a capsule leave alone. What the model has behind the end
of the block table is one of them. -/
def SmmState.parseMask (P : Platform) (s : SmmState) : SmmState :=
  { s with
    ram := fun _ => 0
    capsuleReads := []
    stateMachinePrivateData := fun i =>
      if i < P.maxBlockNumber then .zero else s.stateMachinePrivateData i
    updateStatusPacket := ⟨0, 0, .success⟩
    currBlock := 0 }

def SmmState.imagesMask (s : SmmState) : SmmState :=
  { s with spiImageList := [], updateStatusPacket := ⟨0, 0, .success⟩ }

def SmmState.updateMask (P : Platform) (s : SmmState) : SmmState :=
  { s with
    ram := fun _ => 0
    flash := fun _ => 0
    capsuleReads := []
    stateMachinePrivateData := fun i =>
      if i < P.maxBlockNumber then .zero else s.stateMachinePrivateData i
    updateStatusPacket := ⟨0, 0, .success⟩
    currBlock := 0
    lastBlockDone := false
    stateId := 0
    activeState := .start
    svnUpdated := false
    spiCycles := [] }

section

variable {σ γ : Type} {f : σ → γ}

theorem keeps_assert (enabled : Bool) (c : Prop) [Decidable c] :
    (assert enabled c : Exec σ Unit).Keeps f :=
  .ite (.halt _) (.pure _)

theorem keeps_assertEfiError (enabled : Bool) (st : EfiStatus) :
    (assertEfiError enabled st : Exec σ Unit).Keeps f :=
  keeps_assert _ _

/-! ## Libraries -/

theorem keeps_mfhFindNext (asserts : Bool) (rd : Mem) (filter : Nat) (inc : Bool)
    (ctx : MfhLib.FindContext) :
    (MfhLib.findNext asserts rd filter inc ctx : Exec σ _).Keeps f := by
  refine .loop (fun l => ?_) _ _
  refine .ite (.ite (.pure _) (.ite ?_ (.ite (.pure _) (.pure _))))
    (.ite (.pure _) (.ite (.pure _) (.pure _)))
  exact .bind (keeps_assert _ _) fun _ => .pure _

theorem keeps_mfhLibFindFirstWithFilter (asserts : Bool) (rd : Mem) (mfh : Option Nat)
    (filter : Nat) (boot : Bool) :
    (MfhLib.mfhLibFindFirstWithFilter asserts rd mfh filter boot : Exec σ _).Keeps f := by
  unfold MfhLib.mfhLibFindFirstWithFilter
  dsimp only
  split
  · exact .pure _
  · exact .bind (keeps_mfhFindNext _ _ _ _ _) fun _ => .pure _

theorem keeps_mfhLibFindNextWithFilter (asserts : Bool) (rd : Mem) (filter : Nat)
    (ctx : MfhLib.FindContext) :
    (MfhLib.mfhLibFindNextWithFilter asserts rd filter ctx : Exec σ _).Keeps f :=
  .bind (keeps_mfhFindNext _ _ _ _ _) fun _ => .pure _

theorem keeps_pdatFindNext (fuel : Nat) (rd : Mem) (filter : Nat) (inc : Bool)
    (ctx : PlatformDataLib.FindContext) :
    (PlatformDataLib.findNext fuel rd filter inc ctx : Exec σ _).Keeps f := by
  refine .loop (fun l => ?_) _ _
  exact .ite (.pure _) (.ite (.pure _) (.ite (.pure _) (.pure _)))

theorem keeps_pDatLibFindFirstWithFilter (fuel : Nat) (rd : Mem) (area : Option Nat) (filter : Nat)
    (crc : Nat) (ctx : PlatformDataLib.FindContext) :
    (PlatformDataLib.pDatLibFindFirstWithFilter fuel rd area filter crc ctx : Exec σ _).Keeps f := by
  unfold PlatformDataLib.pDatLibFindFirstWithFilter
  dsimp only
  split
  · exact .pure _
  · exact keeps_pdatFindNext _ _ _ _ _

end

/-! ## Challenge and parse -/

section Parse

variable (P : Platform)

theorem keeps_readCapsule32 (a : Nat) : (readCapsule32 P a).Keeps (SmmState.parseMask P) :=
  .bind .get fun _ => .bind (.modify fun _ => rfl) fun _ => .pure _

theorem keeps_findTotalCapsuleImageSize (h : Nat) :
    (findTotalCapsuleImageSize P h).Keeps (SmmState.parseMask P) := by
  refine .ite (.pure _) (.bind (keeps_readCapsule32 P _) fun _ => .loop (fun l => ?_) _ _)
  refine .bind (keeps_readCapsule32 P _) fun _ => .ite (.pure _) ?_
  refine .bind (keeps_readCapsule32 P _) fun _ => .bind (keeps_readCapsule32 P _) fun _ => ?_
  exact .ite (.pure _) (.bind (keeps_readCapsule32 P _) fun _ => .pure _)

theorem keeps_challengeCapsule : (challengeCapsule P).Keeps (SmmState.parseMask P) := by
  refine .ite (.pure _) ?_
  refine .bind (.bind .get fun _ => .bind (.modify fun _ => rfl) fun _ => .pure _) fun _ => ?_
  refine .ite (.pure _) (.bind (keeps_findTotalCapsuleImageSize P _) ?_)
  rintro ⟨status, total⟩
  refine .ite (.pure _) (.bind (keeps_readCapsule32 P _) fun _ => ?_)
  exact .bind (keeps_readCapsule32 P _) fun _ => .ite (.pure _) (.pure _)

theorem keeps_copyMem (d a n : Nat) : (copyMem P d a n).Keeps SmmState.ramMask :=
  .modify fun _ => rfl

theorem keeps_store32 (a v : Nat) : (store32 a v).Keeps SmmState.ramMask :=
  .modify fun _ => rfl

theorem keeps_keepNetworkItem (c d : Option Nat) :
    (keepNetworkItem P c d).Keeps SmmState.ramMask := by
  refine .bind .get fun s => ?_
  split
  · exact keeps_copyMem P _ _ _
  · exact .pure _

theorem keeps_checkPlatformDataPolicy (area header : Nat) :
    (checkPlatformDataPolicy P area header).Keeps SmmState.ramMask := by
  refine .bind .get fun s => .ite (.pure _) ?_
  refine .bind (keeps_pDatLibFindFirstWithFilter _ _ _ _ _ _) ?_
  rintro ⟨_, _⟩
  refine .bind (keeps_pDatLibFindFirstWithFilter _ _ _ _ _ _) ?_
  rintro ⟨_, _⟩
  refine .bind (keeps_keepNetworkItem P _ _) fun _ => .bind .get fun _ => ?_
  refine .bind (keeps_pdatFindNext _ _ _ _ _) ?_
  rintro ⟨_, _⟩
  refine .bind (keeps_pdatFindNext _ _ _ _ _) ?_
  rintro ⟨_, _⟩
  refine .bind (keeps_keepNetworkItem P _ _) fun _ => .bind .get fun _ => ?_
  split
  · exact keeps_store32 _ _
  · exact .bind (keeps_assertEfiError _ _) fun _ => keeps_store32 _ _

theorem keeps_recordBlock (i : Nat) (b : StateMachinePrivateData) :
    (recordBlock P i b).Keeps (SmmState.parseMask P) := by
  unfold recordBlock
  split
  case isFalse h => exact .halt _
  case isTrue h =>
    refine .modify fun s => ?_
    have e : (fun j => if j < P.maxBlockNumber then StateMachinePrivateData.zero
        else Function.update s.stateMachinePrivateData i b j) =
        fun j => if j < P.maxBlockNumber then .zero else s.stateMachinePrivateData j := by
      funext j
      by_cases hj : j < P.maxBlockNumber
      · rw [if_pos hj, if_pos hj]
      · rw [if_neg hj, if_neg hj, Function.update_of_ne (by omega)]
    exact congrArg (fun tab => ({ s.parseMask P with stateMachinePrivateData := tab } : SmmState)) e

theorem keeps_recordHint (e h hint : Nat) : (recordHint P e h hint).Keeps (SmmState.parseMask P) := by
  have hbody : ∀ l, (initialiseBody P h hint l).Keeps (SmmState.parseMask P) := by
    intro l
    refine .bind (keeps_readCapsule32 P _) fun _ => .bind (keeps_readCapsule32 P _) fun _ => ?_
    refine .ite (.bind (keeps_assert _ _) fun _ => .bind ?_ fun _ => .bind ?_ fun _ => .pure _)
      (.pure _)
    · exact .when ((keeps_checkPlatformDataPolicy P _ _).of_comp (SmmState.parseMask P))
    · exact keeps_recordBlock P _ _
  refine .bind ?_ ?_
  · refine .bind (keeps_readCapsule32 P _) fun _ => .bind (keeps_readCapsule32 P _) fun _ => ?_
    exact .bind (keeps_assert _ _) fun _ => .loop hbody _ _
  · rintro ⟨_, _⟩
    exact .bind (.modify fun _ => rfl) fun _ => .pure _

theorem keeps_matchBody (h hint : Nat) (l : List SpiImagePresent × Nat) :
    (matchBody P h hint l).Keeps (SmmState.parseMask P) := by
  obtain ⟨_ | ⟨im, es⟩, e⟩ := l
  · exact .pure _
  refine .ite (.pure _) (.bind (keeps_readCapsule32 P _) fun _ => .ite (.pure _) ?_)
  refine .bind (keeps_readCapsule32 P _) fun _ => .bind (keeps_readCapsule32 P _) fun _ => ?_
  refine .ite (.ite (.bind (keeps_recordHint P _ _ _) fun _ => .pure _) ?_) (.pure _)
  refine .bind (keeps_readCapsule32 P _) fun _ => .ite ?_ (.pure _)
  exact .bind (keeps_recordHint P _ _ _) fun _ => .pure _

theorem keeps_matchImages (h hint : Nat) (es : List SpiImagePresent) (e : Nat) :
    (matchImages P h hint es e).Keeps (SmmState.parseMask P) :=
  .loop (keeps_matchBody P h hint) _ _

theorem keeps_parseBody (h : Nat) (l : Nat × Nat) :
    (parseBody P h l).Keeps (SmmState.parseMask P) := by
  refine .bind (keeps_readCapsule32 P _) fun _ => .bind .get fun _ => .ite ?_ (.pure _)
  refine .bind (keeps_readCapsule32 P _) fun _ => .ite (.pure _) ?_
  refine .bind (keeps_readCapsule32 P _) fun _ => .bind (keeps_readCapsule32 P _) fun _ => ?_
  refine .ite (.pure _) (.bind (keeps_matchImages P _ _ _ _) fun r => ?_)
  cases r with
  | none => exact .pure _
  | some e => exact .pure _

theorem keeps_isRegionUpdate (hint size target : Nat) :
    (isRegionUpdate P hint size target).Keeps (SmmState.parseMask P) :=
  .ite (.pure _) (.bind (keeps_readCapsule32 P _) fun _ =>
    .ite (.bind (keeps_readCapsule32 P _) fun _ => .pure _) (.pure _))

theorem keeps_capsuleParse : (capsuleParse P).Keeps (SmmState.parseMask P) := by
  refine .ite (.pure _) (.bind (keeps_readCapsule32 P _) fun _ => ?_)
  refine .bind (.modify fun _ => rfl) fun _ => .bind ?_ fun st => .ite (.pure _) ?_
  · refine .bind (keeps_isRegionUpdate P _ _ _) fun _ => .ite ?_ ?_
    · exact .bind (keeps_recordHint P _ _ _) fun _ => .pure _
    · refine .bind (keeps_isRegionUpdate P _ _ _) fun _ => .ite ?_ ?_
      · exact .bind (keeps_recordHint P _ _ _) fun _ => .pure _
      · exact .loop (keeps_parseBody P _) _ _
  · refine .bind .get fun _ => .bind (keeps_assert _ _) fun _ => ?_
    exact .bind (.modify fun _ => rfl) fun _ => .pure _

/-! ## Image list -/

theorem keeps_modifyElement (e : Option Nat) (f : SpiImagePresent → SpiImagePresent) :
    (modifyElement e f).Keeps SmmState.imagesMask := by
  refine .modify fun s => ?_
  cases e <;> rfl

theorem keeps_validateMfhItem (cur : Option (Nat × MfhLib.FindContext)) :
    (validateMfhItem P cur).Keeps SmmState.imagesMask := by
  refine .bind .get fun s => ?_
  cases cur with
  | none => exact .pure _
  | some c =>
    refine .ite (.pure _) (.bind ?_ fun _ =>
      .bind (keeps_mfhLibFindNextWithFilter _ _ _ _) fun _ => .pure _)
    exact .ite (keeps_modifyElement _ _) (.ite (keeps_modifyElement _ _) (.pure _))

theorem keeps_setStageSizes : (setStageSizes P).Keeps SmmState.imagesMask := by
  refine .bind .get fun _ => .bind (keeps_modifyElement _ _) fun _ => .bind (keeps_assert _ _) fun _ =>
    .bind (keeps_modifyElement _ _) fun _ => .when ?_
  exact .bind (keeps_assert _ _) fun _ => keeps_modifyElement _ _

theorem keeps_validateMfhForFlashUpdate (mfh : Option Nat) :
    (validateMfhForFlashUpdate P mfh).Keeps SmmState.imagesMask := by
  refine .bind .get fun _ => .bind (keeps_assert _ _) fun _ => .bind (keeps_assert _ _) fun _ =>
    .bind (keeps_modifyElement _ _) fun _ => .bind (keeps_modifyElement _ _) fun _ =>
    .bind (keeps_mfhLibFindFirstWithFilter _ _ _ _ _) fun _ =>
    .bind (.loop (keeps_validateMfhItem P) _ _) fun _ => .bind ?_ fun _ =>
    .bind (.modify fun _ => rfl) fun _ => .pure _
  exact .when (keeps_setStageSizes P)

theorem keeps_validateMfh (offset : Nat) : (validateMfh P offset).Keeps SmmState.imagesMask :=
  .bind .get fun _ => .ite (keeps_validateMfhForFlashUpdate P _)
    (.ite (keeps_validateMfhForFlashUpdate P _) (.pure _))

/-! ## Update -/

theorem keeps_update_of_parse {α : Type} {x : Exec SmmState α} (h : x.Keeps (SmmState.parseMask P)) :
    x.Keeps (SmmState.updateMask P) := by
  intro s
  have e : ∀ u : SmmState, u.updateMask P = (u.parseMask P).updateMask P := by
    intro u
    have et : (fun i => if i < P.maxBlockNumber then StateMachinePrivateData.zero
        else if i < P.maxBlockNumber then .zero else u.stateMachinePrivateData i) =
        fun i => if i < P.maxBlockNumber then .zero else u.stateMachinePrivateData i := by
      funext i
      by_cases hi : i < P.maxBlockNumber <;> simp only [hi, if_true, if_false]
    exact congrArg (fun tab => ({ u.updateMask P with stateMachinePrivateData := tab } : SmmState))
      et.symm
  rw [e, h s, ← e]

theorem keeps_spiExecute (op : SpiOp) (caller : SpiCaller) (a n : Nat) (data : Mem) :
    (spiExecute P op caller a n data).Keeps (SmmState.updateMask P) :=
  .bind .get fun _ => .bind (.modify fun _ => rfl) fun _ => .pure _

theorem keeps_platformFlashEraseWriteFrom (data : Mem) (e w : Bool) :
    ∀ n a k, (platformFlashEraseWriteFrom P data e w n a k).Keeps (SmmState.updateMask P) := by
  intro n
  induction n with
  | zero => intro a k; exact .pure _
  | succ n ih =>
    intro a k
    refine .bind (.ite (keeps_spiExecute P _ _ _ _ _) (.pure _)) fun _ => .ite (.pure _) ?_
    refine .bind (.ite (keeps_spiExecute P _ _ _ _ _) (.pure _)) fun _ => .ite (.pure _) ?_
    exact ih _ _

theorem keeps_updateSvnArea : (updateSvnArea P).Keeps (SmmState.updateMask P) := by
  refine .bind .get fun _ => .bind ?_ fun _ => .bind (.modify fun _ => rfl) fun _ => .pure _
  exact .ite (.pure _) (.ite (.pure _) (.ite (.pure _) (.ite (.pure _) (.ite (.pure _)
    (.ite (.pure _) (keeps_platformFlashEraseWriteFrom P _ _ _ _ _ _))))))

theorem keeps_smiFlashUpdateState (id : Nat) :
    (smiFlashUpdateState P id).Keeps (SmmState.updateMask P) := by
  unfold smiFlashUpdateState
  split
  · exact keeps_update_of_parse P (keeps_challengeCapsule P)
  · exact keeps_update_of_parse P (keeps_capsuleParse P)
  · refine .bind .get fun _ => .ite (.bind (.modify fun _ => rfl) fun _ => .pure _) ?_
    exact .bind (keeps_spiExecute P _ _ _ _ _) fun _ => .bind (keeps_assertEfiError _ _) fun _ =>
      .pure _
  · refine .bind .get fun _ => .ite (.pure _) ?_
    exact .bind (keeps_spiExecute P _ _ _ _ _) fun _ => .bind (keeps_assertEfiError _ _) fun _ =>
      .bind (.modify fun _ => rfl) fun _ => .pure _
  · exact .halt _

theorem keeps_smiStateMachine : (smiStateMachine P).Keeps (SmmState.updateMask P) := by
  refine .bind (.modify fun s => ?_) fun _ => .bind .get fun _ =>
    .bind (keeps_smiFlashUpdateState P _) fun _ => .bind (.modify fun s => ?_) fun _ => .pure _
  · unfold SmmState.activate
    split <;> rfl
  · unfold SmmState.advance
    dsimp only
    split <;> rfl

theorem keeps_updateBody (u : Unit) : (updateBody P u).Keeps (SmmState.updateMask P) := by
  refine .bind .get fun _ => .bind (.ite (keeps_updateSvnArea P) (.pure _)) fun _ =>
    .ite (.pure _) ?_
  exact .bind (keeps_smiStateMachine P) fun _ => .bind .get fun _ => .ite (.pure _) (.pure _)

theorem keeps_updateCapsule : (updateCapsule P).Keeps (SmmState.updateMask P) :=
  .bind (.modify fun _ => rfl) fun _ => .loop (keeps_updateBody P) _ _

theorem keeps_finishSvnUpdate (st : EfiStatus) :
    (finishSvnUpdate P st).Keeps (SmmState.updateMask P) :=
  .bind .get fun _ => .bind (.ite (keeps_updateSvnArea P) (.pure _)) fun _ => .bind .get fun _ =>
    .bind (.when (keeps_assert _ _)) fun _ => .pure _

end Parse

/-! ## Capsule intake

What one iteration of the fragment loop does is said once, by `wp_fragmentBody`. The results of this
module and of `LaunchProofs` are invariants of the loop heads, carried over the SMIs of a run.
-/

variable {P : Platform}

/-! ## One fragment -/

section

variable {info fragment : Nat} {s : SmmState}

theorem wp_rejectFragment {Q : EfiStatus → SmmState → Prop} {E : Stop → SmmState → Prop}
    (status : EfiStatus) :
    (rejectFragment info status).wp Q E s ↔ Q status (s.rejected info status) := Iff.rfl

theorem receiveFragment_eq : receiveFragment P fragment s = .ret () (s.received P fragment) := rfl

theorem wp_receiveFragment {Q : Unit → SmmState → Prop} {E : Stop → SmmState → Prop} :
    (receiveFragment P fragment).wp Q E s ↔ Q () (s.received P fragment) := by
  unfold Exec.wp
  rw [receiveFragment_eq]

/-- One iteration of the fragment loop: the terminator ends it, a misfit is refused, and an accepted
fragment is copied and, if it is the last one, processed. -/
theorem wp_fragmentBody {Q : Nat ⊕ Option EfiStatus → SmmState → Prop} {E : Stop → SmmState → Prop}
    (hend : ¬ IsFragment P s fragment → Q (.inr none) s)
    (hoffset : IsFragment P s fragment → fragmentBufferOffset (s.rd P) fragment ≠ s.bufferOffset →
      Q (.inr (some .invalidParameter)) (s.rejected info .invalidParameter))
    (hsize : IsFragment P s fragment → fragmentBufferOffset (s.rd P) fragment = s.bufferOffset →
      P.pcdMaxSizeNonPopulateCapsule < u32 (s.bufferOffset + fragmentSize (s.rd P) fragment) →
      Q (.inr (some .outOfResources)) (s.rejected info .outOfResources))
    (hdead : IsFragment P s fragment → fragmentBufferOffset (s.rd P) fragment = s.bufferOffset →
      P.debugAssertEnabled = true →
      P.pcdMaxSizeNonPopulateCapsule < u32 (s.bufferOffset + fragmentSize (s.rd P) fragment) →
      E .deadLoop s)
    (hnext : Accepts P s fragment → ¬ IsLast P (s.received P fragment) fragment →
      Q (.inl (u32 (fragment + sizeofCapsuleFragment))) (s.received P fragment))
    (hlast : Accepts P s fragment → IsLast P (s.received P fragment) fragment →
      (processCapsule P info).wp (fun r => Q (.inr r)) E (s.received P fragment)) :
    (fragmentBody P info fragment).wp Q E s := by
  unfold fragmentBody
  rw [Exec.wp_bind, Exec.wp_get, Exec.wp_ite]
  refine ⟨fun h => hend fun hf => h.elim hf.1 hf.2, fun h => ?_⟩
  have hfrag : IsFragment P s fragment := not_or.mp h
  rw [Exec.wp_ite, Exec.wp_bind, wp_rejectFragment]
  refine ⟨fun ho => hoffset hfrag ho, fun ho => ?_⟩
  rw [not_not] at ho
  rw [Exec.wp_bind, wp_assert]
  refine ⟨fun _ => ?_, fun ⟨ha, hlt⟩ => hdead hfrag ho ha (not_le.mp hlt)⟩
  rw [Exec.wp_ite, Exec.wp_bind, wp_rejectFragment]
  refine ⟨fun hlt => hsize hfrag ho hlt, fun hlt => ?_⟩
  have hacc : Accepts P s fragment := ⟨hfrag, ho, not_lt.mp hlt⟩
  rw [Exec.wp_bind, wp_receiveFragment, Exec.wp_bind, Exec.wp_get, Exec.wp_ite, Exec.wp_bind]
  exact ⟨fun hl => hlast hacc hl, fun hl => hnext hacc hl⟩

end

/-! ## One request -/

def SmmState.setupMask (s : SmmState) : SmmState :=
  { s with
    svnUpdated := false
    svnAreaUpdPoint := 0
    svnAreaUpdTrigAddr := 0
    svnAreaBuffer := fun _ => 0
    spiImageList := []
    updateStatusPacket := ⟨0, 0, .success⟩ }

theorem keeps_setupRequest (info : Nat) : (setupRequest P info).Keeps SmmState.setupMask := by
  refine .bind .get fun s => .bind (.modify fun _ => rfl) fun _ => .bind (.modify fun t => ?_) fun _ =>
    .modify fun _ => rfl
  split <;> rfl

theorem setupRequest_returns (info : Nat) (s : SmmState) :
    ∃ t, setupRequest P info s = .ret () t := ⟨_, rfl⟩

theorem wp_smmStep {Q : EfiStatus → SmmState → Prop} {E : Stop → SmmState → Prop}
    (I R : SmmState → Prop) {event : SmmEvent} {s : SmmState}
    (hend : Q .success { s with endOfDxe := true })
    (hidle : ∀ memory smi, event = .softwareSmi memory smi →
      ∀ status, Q status { s with ram := memory })
    (hfail : ∀ memory smi, event = .softwareSmi memory smi → ∀ status,
      Q status { s with
        ram := memory.wr32 (infoStatusAt (u32 smi.ebx)) status.code
        updateStatusPacket := { s.updateStatusPacket with status := status } })
    (hget : ∀ memory smi, event = .softwareSmi memory smi →
      (getCap P (u32 smi.ebx)).wp Q E { s with ram := memory })
    (hsetup : ∀ memory smi t, event = .softwareSmi memory smi →
      setupRequest P (u32 smi.ebx) { s with ram := memory } = .ret () t → I t)
    (hbody : ∀ memory smi fragment t, event = .softwareSmi memory smi →
      event.TakesUp P s fragment t → I t →
      (fragmentBody P (u32 smi.ebx) fragment).wp (fun r t' => match r with
        | .inl _ => I t'
        | .inr (some status) => Q status t'
        | .inr none => R t') E t)
    (hdone : ∀ memory smi t, event = .softwareSmi memory smi → R t →
      Q .success { t with ram := t.ram.wr32 (infoStatusAt (u32 smi.ebx)) EfiStatus.success.code })
    (hE : ∀ t, I t → E .unfinished t) :
    (smmStep P event).wp Q E s := by
  cases event with
  | endOfDxe => exact hend
  | softwareSmi memory smi =>
    show (smiFlashSMIHandler P smi).wp Q E { s with ram := memory }
    unfold smiFlashSMIHandler
    dsimp only
    rw [Exec.wp_ite]
    refine ⟨fun _ => hidle memory smi rfl _, fun hop => ?_⟩
    rw [not_or, not_not, not_not] at hop
    rw [Exec.wp_ite]
    refine ⟨fun hupd => ?_, fun _ => ?_⟩
    · unfold updateCap
      rw [Exec.wp_bind, Exec.wp_get, Exec.wp_ite]
      refine ⟨fun _ => hidle memory smi rfl _, fun hvalid => ?_⟩
      rw [Exec.wp_ite]
      refine ⟨fun _ => hfail memory smi rfl _, fun hbuf => ?_⟩
      rw [Exec.wp_ite]
      refine ⟨fun _ => hfail memory smi rfl _, fun hdxe => ?_⟩
      obtain ⟨t₀, ht₀⟩ := setupRequest_returns (P := P) (u32 smi.ebx) { s with ram := memory }
      rw [Exec.wp_bind]
      unfold Exec.wp
      rw [ht₀]
      show Exec.wp _ Q E t₀
      rw [Exec.wp_bind]
      refine Exec.wp_loop_visits
        (R := fun r t' => Exec.wp (match r with
          | some status => pure status
          | none => do
            setInfoStatus (u32 smi.ebx) .success
            pure .success) Q E t')
        (fun _ t => I t) _ _ (fun fragment t hv hI => ?_) (fun _ t hI => hE t hI) _
        (hsetup memory smi t₀ rfl ht₀)
      have htake : SmmEvent.TakesUp P (.softwareSmi memory smi) s fragment t := by
        refine ⟨?_, hop.2.symm.trans hupd, by simpa using hvalid, hbuf, by simpa using hdxe,
          t₀, ht₀, hv⟩
        have := hop.1
        omega
      refine Exec.wp_mono (hbody memory smi fragment t rfl htake hI) ?_ (fun _ _ h => h)
      rintro (f | (_ | status)) t' h
      · exact h
      · exact hdone memory smi t' rfl h
      · exact h
    · rw [Exec.wp_ite]
      exact ⟨fun _ => hget memory smi rfl, fun _ => hidle memory smi rfl _⟩

/-! ## Confinement -/

theorem disjoint_of_isAddressValid {a n : Nat} (h : isAddressValid P a n = true) :
    ∀ d ∈ P.smramRanges, (⟨a, n⟩ : Range).Disjoint d.range := by
  intro d hd
  have hno : d.meets a n = false := by
    unfold isAddressValid at h
    split at h
    · cases h
    · split at h
      · cases h
      · rename_i hin
        exact Bool.eq_false_iff.mpr fun hm => hin (List.any_eq_true.mpr ⟨d, hd, hm⟩)
  have hends := of_decide_eq_false hno
  rw [not_or] at hends
  exact Range.disjoint_of_ends hends.1 hends.2

theorem Accepts.fits {s : SmmState} {fragment : Nat} (h : Accepts P s fragment)
    (hw : s.bufferOffset + fragmentSize (s.rd P) fragment < 0x100000000) :
    s.bufferOffset + fragmentSize (s.rd P) fragment ≤ P.pcdMaxSizeNonPopulateCapsule := by
  have hle := h.2.2
  rwa [u32_of_lt hw] at hle

theorem buffer_add_lt {k : Nat} (h : k ≤ P.pcdMaxSizeNonPopulateCapsule) :
    P.capsuleSmmBuffer + k < 0x100000000 := by
  have hb := P.buffer_below_flash
  have hf := P.flash_base.2
  omega

theorem copy_confined {s : SmmState} {fragment : Nat} (hacc : Accepts P s fragment)
    (hb : FragmentBounded P s fragment) :
    CopyMemCall.Confined P
      ⟨⟨u32 (P.capsuleSmmBuffer + s.bufferOffset), fragmentSize (s.rd P) fragment⟩,
        ⟨u32 (fragmentAddress (s.rd P) fragment), fragmentSize (s.rd P) fragment⟩⟩ := by
  obtain ⟨hvalid, hwrap⟩ := hb hacc
  have hfit := hacc.fits hwrap
  have hdst := buffer_add_lt (P := P) (k := s.bufferOffset) (by omega)
  refine ⟨disjoint_of_isAddressValid hvalid, ?_⟩
  rw [u32_of_lt hdst]
  refine ⟨Nat.le_add_right _ _, ?_⟩
  show P.capsuleSmmBuffer + s.bufferOffset + fragmentSize (s.rd P) fragment ≤
    P.capsuleSmmBuffer + P.pcdMaxSizeNonPopulateCapsule
  omega

theorem keeps_processCapsule_copies (info : Nat) :
    (processCapsule P info).Keeps SmmState.copies := by
  refine .bind .get fun _ => .bind (keeps_assert _ _) fun _ =>
    .bind ((keeps_validateMfh P _).of_comp SmmState.copies) fun _ => .bind (.ite (.pure _) ?_) fun _ =>
    .bind ((keeps_finishSvnUpdate P _).of_comp SmmState.copies) fun _ =>
    .bind (.modify fun _ => rfl) fun _ => .pure _
  exact (keeps_updateCapsule P).of_comp SmmState.copies

theorem keeps_getCap_copies (a : Nat) : (getCap P a).Keeps SmmState.copies :=
  .ite (.pure _) (.bind .get fun _ => .bind (.modify fun _ => rfl) fun _ =>
    .bind (.modify fun _ => rfl) fun _ => .bind (.modify fun _ => rfl) fun _ => .pure _)

def SmmState.CopiesConfined (P : Platform) (s : SmmState) : Prop := ∀ c ∈ s.copies, c.Confined P

theorem SmmState.CopiesConfined.of_copies_eq {s t : SmmState} (h : s.CopiesConfined P)
    (e : t.copies = s.copies) : t.CopiesConfined P := by
  unfold SmmState.CopiesConfined
  rw [e]
  exact h

theorem SmmState.CopiesConfined.received {s : SmmState} {fragment : Nat} (h : s.CopiesConfined P)
    (hacc : Accepts P s fragment) (hb : FragmentBounded P s fragment) :
    (s.received P fragment).CopiesConfined P := by
  intro c hc
  rcases List.mem_append.mp hc with hc | hc
  · exact h c hc
  · rw [List.mem_singleton.mp hc]
    exact copy_confined hacc hb

theorem wp_fragmentBody_confined {info fragment : Nat} {s : SmmState} (h : s.CopiesConfined P)
    (hb : FragmentBounded P s fragment) :
    (fragmentBody P info fragment).wp (fun _ t => t.CopiesConfined P)
      (fun _ t => t.CopiesConfined P) s := by
  refine wp_fragmentBody (fun _ => h) (fun _ _ => h.of_copies_eq rfl)
    (fun _ _ _ => h.of_copies_eq rfl) (fun _ _ _ _ => h) (fun hacc _ => h.received hacc hb) fun hacc _ => ?_
  have hr := h.received hacc hb
  exact Exec.wp_mono ((keeps_processCapsule_copies info).wp _) (fun _ _ e => hr.of_copies_eq e)
    (fun _ _ e => hr.of_copies_eq e)

theorem wp_smmStep_confined {event : SmmEvent} {s : SmmState} (h : s.CopiesConfined P)
    (hb : ∀ fragment t, event.TakesUp P s fragment t → FragmentBounded P t fragment) :
    (smmStep P event).wp (fun _ t => t.CopiesConfined P) (fun _ t => t.CopiesConfined P) s := by
  refine wp_smmStep (SmmState.CopiesConfined P) (SmmState.CopiesConfined P) (h.of_copies_eq rfl)
    (fun _ _ _ _ => h.of_copies_eq rfl) (fun _ _ _ _ => h.of_copies_eq rfl) ?_ ?_ ?_
    (fun _ _ t _ ht => SmmState.CopiesConfined.of_copies_eq ht rfl) (fun _ ht => ht)
  · intro memory smi _
    have h' : SmmState.CopiesConfined P { s with ram := memory } := h.of_copies_eq rfl
    exact Exec.wp_mono ((keeps_getCap_copies _).wp _) (fun _ _ e => h'.of_copies_eq e)
      (fun _ _ e => h'.of_copies_eq e)
  · intro memory smi t _ ht
    have e := (keeps_setupRequest (P := P) _).field SmmState.copies ht
    exact h.of_copies_eq e
  · intro memory smi fragment t _ htake ht
    refine Exec.wp_mono (wp_fragmentBody_confined ht (hb fragment t htake)) ?_ (fun _ _ e => e)
    rintro (f | (_ | status)) t' h' <;> exact h'

def SmmState.entryMask (s : SmmState) : SmmState :=
  { s with
    stage1Element := none
    stage2Element := none
    osElement := none
    nvramElement := none
    svnAreaBuffer := fun _ => 0 }

theorem keeps_smiFlashDxeEntry : (smiFlashDxeEntry P).Keeps SmmState.entryMask := by
  refine .bind (.bind .get fun t => ?_) fun _ => .modify fun _ => rfl
  suffices h : ∀ es i, (setupImageGlobalsFrom P i es).Keeps SmmState.entryMask from h _ _
  intro es
  induction es with
  | nil => intro i; exact .pure _
  | cons e es ih =>
    intro i
    refine .bind (.ite (.modify fun _ => rfl) (.ite ?_ (.ite ?_ (.pure _)))) fun _ => ih _
    · exact .bind .get fun _ => .bind (keeps_assert _ _) fun _ => .modify fun _ => rfl
    · exact .bind .get fun _ => .bind (keeps_assert _ _) fun _ => .modify fun _ => rfl

/-- As long as every fragment that the handler accepts, as it stands in memory when it is taken up,
has a valid source range of its own and an end offset that is no more than a `UINT32`, every copy
of every run of SMIs reads outside SMRAM and writes inside the capsule buffer. -/
theorem fragment_copies_confined {s₀ : SmmState} (h₀ : Started P s₀) (events : List SmmEvent)
    (hb : Exec.EachMeets (smmStep P) (fun event s =>
      ∀ fragment t, event.TakesUp P s fragment t → FragmentBounded P t fragment) events s₀) :
    ∀ c ∈ (smmRun P events s₀).state.copies, c.Confined P := by
  have hrun : (smmRun P events).wp (fun _ t => t.CopiesConfined P) (fun _ t => t.CopiesConfined P)
      s₀ := by
    refine Exec.wp_serve (fun e s hs hC => wp_smmStep_confined hs hC) events s₀ hb ?_
    obtain ⟨ram, flash, hs⟩ := h₀
    have hnil : s₀.copies = [] := keeps_smiFlashDxeEntry.field SmmState.copies hs
    intro c hc
    rw [hnil] at hc
    cases hc
  exact Exec.wp_state hrun

def updateSmi (memory : Mem) : SmmEvent := .softwareSmi memory ⟨smiInputUpdateCap, 0xEF27, 0x4000⟩

def oneFragment : Mem :=
  Mem.ofWords [(0x4000, 0x5000), (0x4004, 1), (0x5000, 0x6000), (0x500C, 1)]

theorem fragment_copies_confined_one_fragment :
    (smmRun .sample [updateSmi oneFragment]
        (startedState .sample (fun _ => 0) fun _ => 0)).state.copies.length = 1 ∧
      ∀ c ∈ (smmRun .sample [updateSmi oneFragment]
        (startedState .sample (fun _ => 0) fun _ => 0)).state.copies, c.Confined .sample := by
  refine ⟨by decide +kernel, fragment_copies_confined ⟨_, _, rfl⟩ _ ⟨?_, fun _ _ _ => trivial⟩⟩
  rintro fragment t ⟨-, -, -, -, -, t₀, ht₀, hv⟩
  injection ht₀ with _ ht₀
  subst ht₀
  rcases hv.head_or with h | ⟨z, hz, hv⟩
  · injection h with hf ht
    subst hf ht
    exact fun _ => ⟨by decide +kernel, by decide +kernel⟩
  · -- the second head is the terminator, where the loop ends
    injection hz with hz hs
    injection hz with hz
    obtain ⟨f, u⟩ := z
    subst hz hs
    rcases hv.head_or with h | ⟨z, hz, -⟩
    · injection h with hf ht
      subst hf ht
      exact fun hacc => absurd hacc.1.2 (by decide +kernel)
    · injection hz with hz
      cases hz

def secondFragmentInSmram : Mem :=
  Mem.ofWords [(0x4000, 0x5000), (0x4004, 2), (0x5000, 0x6000), (0x500C, 1),
    (0x5018, 0x20000), (0x5020, 1), (0x5024, 1)]

/-- The packet is found valid, since only its first fragment is looked at, and the byte at the start
of SMRAM is copied into the capsule buffer. -/
theorem smram_copied_by_second_fragment :
    Started .sample (startedState .sample (fun _ => 0) fun _ => 0) ∧
      isCapsuleInfoPacketValid .sample secondFragmentInSmram 0x4000 = true ∧
      ∃ c ∈ (smmRun .sample [updateSmi secondFragmentInSmram]
        (startedState .sample (fun _ => 0) fun _ => 0)).state.copies, ¬ c.Confined .sample := by
  have hrun : (smmRun .sample [updateSmi secondFragmentInSmram]
      (startedState .sample (fun _ => 0) fun _ => 0)).state.copies =
      [⟨⟨0x10000, 1⟩, ⟨0x6000, 1⟩⟩, ⟨⟨0x10001, 1⟩, ⟨0x20000, 1⟩⟩] := by decide +kernel
  refine ⟨⟨_, _, rfl⟩, by decide +kernel, ⟨⟨0x10001, 1⟩, ⟨0x20000, 1⟩⟩, ?_, ?_⟩
  · rw [hrun]
    exact List.mem_cons_of_mem _ List.mem_cons_self
  · intro h
    exact h.1 ⟨0x20000, 0x10000, by decide⟩ List.mem_cons_self 0x20000 (by decide) (by decide)
      ⟨by decide, by decide⟩

end Quark.SmiFlash
