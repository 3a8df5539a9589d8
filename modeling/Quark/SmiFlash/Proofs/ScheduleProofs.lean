import Quark.SmiFlash.Proofs.LaunchProofs
import Quark.SmiFlash.Schedule

/-!
# The update run carries out its schedule

`updateRun_spec` relates the erase and write states of the state machine to `issue`: whatever the SPI
controller answers, the run does to the flash what carrying out the schedule does, and it ends the
way the schedule ends.
-/

namespace Quark.SmiFlash

open Machine

variable {P : Platform}

/-! ## Carrying out a schedule -/

theorem issue_append (p q : List PlanItem) (d : FlashDevice) :
    issue P (p ++ q) d =
      match issue P p d with
      | (.finished, d') => issue P q d'
      | r => r := by
  induction p generalizing d with
  | nil => rfl
  | cons i p ih =>
    cases i with
    | refuse status => rfl
    | cycle c =>
      simp only [List.cons_append, issue]
      split
      · exact ih _
      · cases c.caller with
        | svnArea => rfl
        | block =>
          dsimp only
          split
          · rfl
          · exact ih _

theorem issue_append_of_finished {p : List PlanItem} {d d' : FlashDevice}
    (h : issue P p d = (.finished, d')) (q : List PlanItem) :
    issue P (p ++ q) d = issue P q d' := by
  rw [issue_append, h]

theorem issue_append_of_ne {p : List PlanItem} {d d' : FlashDevice} {e : Ending}
    (h : issue P p d = (e, d')) (he : e ≠ .finished) (q : List PlanItem) :
    issue P (p ++ q) d = (e, d') := by
  rw [issue_append, h]
  cases e with
  | finished => exact absurd rfl he
  | failed status => rfl
  | deadLoop => rfl

/-! ## The operations that are issued -/

theorem FlashDevice.Adds.refl (I : SpiCycle → Prop) (d : FlashDevice) : d.Adds I d :=
  ⟨[], (List.append_nil _).symm, fun _ hc => (List.not_mem_nil hc).elim⟩

theorem FlashDevice.Adds.trans {I : SpiCycle → Prop} {d d' d'' : FlashDevice} (h : d.Adds I d')
    (h' : d'.Adds I d'') : d.Adds I d'' := by
  obtain ⟨p, hp, hIp⟩ := h
  obtain ⟨q, hq, hIq⟩ := h'
  refine ⟨p ++ q, by rw [hq, hp, List.append_assoc], fun c hc => ?_⟩
  rcases List.mem_append.mp hc with hc | hc
  · exact hIp c hc
  · exact hIq c hc

theorem issue_adds {I : SpiCycle → Prop} (plan : List PlanItem) (d : FlashDevice)
    (hI : ∀ c, .cycle c ∈ plan → ∀ ok, I ⟨c.op, c.caller, c.address, ok⟩) :
    d.Adds I (issue P plan d).2 := by
  induction plan generalizing d with
  | nil => exact .refl I d
  | cons i plan ih =>
    cases i with
    | refuse status => exact .refl I d
    | cycle c =>
      have hone : d.Adds I (c.issued P d) := by
        refine ⟨[_], rfl, fun x hx => ?_⟩
        rw [List.mem_singleton.mp hx]
        exact hI c List.mem_cons_self _
      have hgo : d.Adds I (issue P plan (c.issued P d)).2 :=
        hone.trans (ih _ fun c' hc' => hI c' (List.mem_cons_of_mem _ hc'))
      simp only [issue]
      split
      · exact hgo
      · cases c.caller with
        | svnArea => exact hone
        | block =>
          dsimp only
          split
          · exact hone
          · exact hgo

/-! ## Single operations -/

def SmmState.withDevice (s : SmmState) (d : FlashDevice) : SmmState :=
  { s with flash := d.flash, spiCycles := d.cycles }

@[simp] theorem withDevice_device (s : SmmState) (d : FlashDevice) : (s.withDevice d).device = d := rfl

theorem wp_spiExecute {op : SpiOp} {caller : SpiCaller} {writeAddress length a : Nat}
    {data : Mem} {Q : EfiStatus → SmmState → Prop} {E : Stop → SmmState → Prop} {s : SmmState}
    (ha : u32 (P.spiFlashBaseAddress + writeAddress) = a) :
    (spiExecute P op caller writeAddress length data).wp Q E s ↔
      Q (if (P.spiAnswer s.device.cycles.length).ok then .success else .deviceError)
        (s.withDevice (PlannedCycle.issued P ⟨op, caller, a, length, fun _ => data⟩ s.device)) := by
  subst ha
  exact Iff.rfl

theorem flash_address {a : Nat} :
    u32 (P.spiFlashBaseAddress + sub32 a P.spiFlashBaseAddress) = u32 a := by
  have hb := P.flash_base.2
  unfold sub32 u32
  omega

theorem wp_eraseWriteBlock {data : Mem} {Q : EfiStatus → SmmState → Prop}
    {E : Stop → SmmState → Prop} {s : SmmState}
    (hfin : ∀ d, issue P [.cycle (svnErase data), .cycle (svnProgram data)] s.device = (.finished, d) →
      Q .success (s.withDevice d))
    (hfail : ∀ d, issue P [.cycle (svnErase data), .cycle (svnProgram data)] s.device =
      (.failed .deviceError, d) → Q .deviceError (s.withDevice d)) :
    (platformFlashEraseWriteFrom P data true true 1
      (sub32 flashRegionSvnBaseAddress P.spiFlashBaseAddress) 0).wp Q E s := by
  have ha : u32 (P.spiFlashBaseAddress + sub32 flashRegionSvnBaseAddress P.spiFlashBaseAddress) =
      flashRegionSvnBaseAddress := flash_address
  have hdata : (fun k => data (0 + k)) = data := funext fun k => by rw [Nat.zero_add]
  unfold platformFlashEraseWriteFrom
  rw [if_pos rfl, Exec.wp_bind, wp_spiExecute ha, if_pos rfl, Exec.wp_ite, hdata]
  simp only [issue] at hfin hfail
  by_cases hok : (P.spiAnswer s.device.cycles.length).ok = true
  · rw [if_pos hok]
    rw [if_pos hok] at hfin hfail
    refine ⟨fun h => absurd h Bool.false_ne_true, fun _ => ?_⟩
    rw [Exec.wp_bind, wp_spiExecute ha, Exec.wp_ite, withDevice_device]
    by_cases hok' : (P.spiAnswer ((svnErase data).issued P s.device).cycles.length).ok = true
    · rw [if_pos hok'] at hfin
      refine ⟨fun h => ?_, fun _ => hfin _ rfl⟩
      change (if (P.spiAnswer ((svnErase data).issued P s.device).cycles.length).ok = true then
        EfiStatus.success else .deviceError).isError = true at h
      rw [if_pos hok'] at h
      cases h
    · rw [if_neg hok'] at hfail
      have hst : (if (P.spiAnswer ((svnErase data).issued P s.device).cycles.length).ok = true then
        EfiStatus.success else .deviceError) = .deviceError := if_neg hok'
      refine ⟨fun _ => ?_, fun h => ?_⟩
      · change Q (if (P.spiAnswer ((svnErase data).issued P s.device).cycles.length).ok = true then
          EfiStatus.success else .deviceError) _
        rw [hst]
        exact hfail _ rfl
      · change ¬ (if (P.spiAnswer ((svnErase data).issued P s.device).cycles.length).ok = true then
          EfiStatus.success else .deviceError).isError = true at h
        rw [hst] at h
        exact absurd rfl h
  · rw [if_neg hok]
    rw [if_neg hok] at hfail
    exact ⟨fun _ => hfail _ rfl, fun h => absurd rfl h⟩

def SmmState.svnAttempted (s : SmmState) (status : EfiStatus) (d : FlashDevice) : SmmState :=
  { s with
    flash := d.flash
    spiCycles := d.cycles
    svnUpdated := if status.isError then s.svnUpdated else true
    updateStatusPacket := { s.updateStatusPacket with status := status } }

theorem wp_updateSvnArea {Q : EfiStatus → SmmState → Prop} {E : Stop → SmmState → Prop}
    {s : SmmState}
    (hfin : ∀ d, issue P (svnPlan P s.svnAreaBuffer) s.device = (.finished, d) →
      Q .success (s.svnAttempted .success d))
    (hfail : ∀ status d, issue P (svnPlan P s.svnAreaBuffer) s.device = (.failed status, d) →
      status.isError = true → Q status (s.svnAttempted status d)) :
    (updateSvnArea P).wp Q E s := by
  unfold svnPlan at hfin hfail
  unfold updateSvnArea platformFlashEraseWrite
  rw [Exec.wp_bind, Exec.wp_get, Exec.wp_bind, if_neg (by decide), if_neg (by decide),
    if_neg (by decide), Exec.wp_ite]
  refine ⟨fun hl => ?_, fun hl => ?_⟩
  · rw [if_pos hl] at hfail
    exact hfail .notReady s.device rfl rfl
  rw [if_neg hl] at hfin hfail
  rw [Exec.wp_ite]
  refine ⟨fun hi => ?_, fun hi => ?_⟩
  · rw [if_pos hi] at hfail
    exact hfail P.spiInfoStatus s.device rfl hi
  rw [if_neg hi] at hfin hfail
  rw [Exec.wp_ite]
  refine ⟨fun hb => ?_, fun hb => ?_⟩
  · rw [if_pos hb] at hfail
    exact hfail .invalidParameter s.device rfl rfl
  rw [if_neg hb] at hfin hfail
  exact wp_eraseWriteBlock (fun d h => hfin d h) (fun d h => hfail _ d h rfl)

/-! ## The erase and write states -/

theorem issue_block {c : PlannedCycle} (hc : c.caller = .block) (d : FlashDevice) :
    issue P [.cycle c] d =
      (if P.debugAssertEnabled = true ∧ ¬ (P.spiAnswer d.cycles.length).ok = true then .deadLoop
        else .finished, c.issued P d) := by
  simp only [issue, hc]
  by_cases hok : (P.spiAnswer d.cycles.length).ok = true <;>
    by_cases ha : P.debugAssertEnabled = true <;> simp [hok, ha]

theorem wp_assertAnswer {Q : Unit → SmmState → Prop} {E : Stop → SmmState → Prop} {s : SmmState}
    (enabled : Bool) (answer : SpiAnswer) :
    (assertEfiError enabled (if answer.ok then .success else .deviceError)).wp Q E s ↔
      (¬ (enabled = true ∧ ¬ answer.ok = true) → Q () s) ∧
        (enabled = true ∧ ¬ answer.ok = true → E .deadLoop s) := by
  rw [wp_assertEfiError]
  by_cases hok : answer.ok = true <;> cases enabled <;> simp [hok, EfiStatus.isError]

section

variable {bs : List StateMachinePrivateData} {i : Nat} {s : SmmState}

theorem AtErase.currElement (h : AtErase P bs i s) (hi : i < bs.length) :
    s.currElement = bs.get ⟨i, hi⟩ := by
  unfold SmmState.currElement
  rw [h.currBlock_eq]
  exact h.recorded.entry i hi

theorem AtErase.svnReached (h : AtErase P bs i s) (hi : i < bs.length) :
    isSvnUpdatePointReached s = svnDue s i (bs.get ⟨i, hi⟩) := by
  have hv : s.currElement.isValid = true := by
    rw [h.currElement hi]
    exact h.recorded.valid _ (List.get_mem _ _)
  unfold isSvnUpdatePointReached svnDue
  rw [hv, h.stateId_eq, h.currBlock_eq, h.currElement hi]
  by_cases h₁ : s.svnAreaUpdPoint = svnUpdNever <;> by_cases h₂ : s.svnAreaUpdPoint = svnUpdAtEnd <;>
    by_cases h₃ : s.svnAreaUpdPoint = svnUpdAtStart <;> simp [h₁, h₂, h₃]

end

def SmmState.runMask (s : SmmState) : SmmState :=
  { s with
    flash := fun _ => 0
    spiCycles := []
    updateStatusPacket := { s.updateStatusPacket with blocksCompleted := 0, status := .success }
    currBlock := 0
    lastBlockDone := false
    stateId := 0
    svnUpdated := false }

/-- The state machine is about to write block `i`. -/
structure AtWrite (P : Platform) (bs : List StateMachinePrivateData) (i : Nat) (s : SmmState) :
    Prop where
  recorded : Recorded P bs s
  active : s.activeState = .inProgress
  stateId_eq : s.stateId = writeBlockState
  currBlock_eq : s.currBlock = i

section

variable {bs : List StateMachinePrivateData} {i : Nat} {s t : SmmState}

theorem Recorded.of_table (h : Recorded P bs s)
    (e : t.stateMachinePrivateData = s.stateMachinePrivateData) : Recorded P bs t := by
  refine ⟨h.length_le, ?_, h.valid, h.targetAddr_lt, ?_⟩
  · rw [e]
    exact h.entry
  · rw [e]
    exact h.rest

theorem wp_erase_step {Q : EfiStatus → SmmState → Prop} {E : Stop → SmmState → Prop}
    (h : AtErase P bs i s) (hi : i < bs.length)
    (hfin : ∀ t d, issue P [.cycle (blockErase P s.ram (bs.get ⟨i, hi⟩))] s.device = (.finished, d) →
      AtWrite P bs i t → t.device = d → t.runMask = s.runMask → t.svnUpdated = s.svnUpdated →
      Q .success t)
    (hdead : ∀ t d, issue P [.cycle (blockErase P s.ram (bs.get ⟨i, hi⟩))] s.device = (.deadLoop, d) →
      t.device = d → t.runMask = s.runMask → E .deadLoop t) :
    (smiStateMachine P).wp Q E s := by
  have helem := h.currElement hi
  have hvalid : (bs.get ⟨i, hi⟩).isValid = true := h.recorded.valid _ (List.get_mem _ _)
  rw [issue_block rfl] at hfin hdead
  rw [wp_smiStateMachine, activate_of_inProgress h.active, h.stateId_eq]
  show (eraseBlock P).wp _ E s
  unfold eraseBlock
  rw [Exec.wp_bind, Exec.wp_get, helem, hvalid, if_neg (by decide), Exec.wp_bind,
    wp_spiExecute flash_address, Exec.wp_bind, wp_assertAnswer]
  refine ⟨fun hok => ?_, fun hok => ?_⟩
  · rw [if_neg hok] at hfin
    refine hfin _ _ rfl ?_ rfl rfl rfl
    refine ⟨h.recorded.of_table rfl, h.active, ?_, h.currBlock_eq⟩
    show nextStateId P _ = writeBlockState
    rw [nextStateId_of_ne (by show s.stateId ≠ 3; rw [h.stateId_eq]; decide)]
    show s.stateId + 1 = 3
    rw [h.stateId_eq]
  · rw [if_pos hok] at hdead
    exact hdead _ _ rfl rfl rfl

theorem nextStateId_of_write (hrec : Recorded P bs s) {u : SmmState} {k : Nat}
    (htab : u.stateMachinePrivateData = s.stateMachinePrivateData)
    (hid : u.stateId = writeBlockState) (hk : u.currBlock = k) :
    nextStateId P u = if k < bs.length then eraseBlockState else smiFlashUpdateMaxStates - 1 := by
  have hrec' := hrec.of_table htab
  subst hk
  unfold nextStateId
  rw [if_pos hid, hid]
  by_cases hlt : u.currBlock < bs.length
  · have hv : u.currElement.isValid = true := by
      unfold SmmState.currElement
      rw [hrec'.entry _ hlt]
      exact hrec.valid _ (List.get_mem _ _)
    rw [if_pos hlt, if_pos ⟨lt_of_lt_of_le hlt hrec.length_le, hv⟩]
  · have hv : u.currElement.isValid = false := hrec'.rest _ (not_lt.mp hlt)
    rw [if_neg hlt, if_neg (fun hc => by rw [hv] at hc; cases hc.2)]
    rfl

theorem wp_write_step {Q : EfiStatus → SmmState → Prop} {E : Stop → SmmState → Prop}
    (h : AtWrite P bs i s) (hi : i < bs.length)
    (hfin : ∀ t d, issue P [.cycle (blockProgram P s.ram (bs.get ⟨i, hi⟩))] s.device =
      (.finished, d) → (i + 1 < bs.length → AtErase P bs (i + 1) t) →
      (bs.length ≤ i + 1 → t.stateId = smiFlashUpdateMaxStates - 1) →
      t.updateStatusPacket.blocksCompleted = i + 1 → t.device = d → t.runMask = s.runMask →
      t.svnUpdated = s.svnUpdated → Q .success t)
    (hdead : ∀ t d, issue P [.cycle (blockProgram P s.ram (bs.get ⟨i, hi⟩))] s.device =
      (.deadLoop, d) → t.device = d → t.runMask = s.runMask → E .deadLoop t) :
    (smiStateMachine P).wp Q E s := by
  have helem : s.currElement = bs.get ⟨i, hi⟩ := by
    unfold SmmState.currElement
    rw [h.currBlock_eq]
    exact h.recorded.entry i hi
  have hvalid : (bs.get ⟨i, hi⟩).isValid = true := h.recorded.valid _ (List.get_mem _ _)
  have hcurr : s.currBlock + 1 = i + 1 := by rw [h.currBlock_eq]
  rw [issue_block rfl] at hfin hdead
  rw [wp_smiStateMachine, activate_of_inProgress h.active, h.stateId_eq]
  show (writeBlock P).wp _ E s
  unfold writeBlock
  rw [Exec.wp_bind, Exec.wp_get, helem, hvalid, if_neg (by decide), Exec.wp_bind,
    wp_spiExecute flash_address, Exec.wp_bind, wp_assertAnswer]
  refine ⟨fun hok => ?_, fun hok => ?_⟩
  · rw [if_neg hok] at hfin
    refine hfin _ _ rfl (fun hnext => ?_) (fun hlast => ?_) hcurr rfl rfl rfl
    · refine ⟨h.recorded.of_table rfl, h.active, ?_, hcurr⟩
      show nextStateId P _ = eraseBlockState
      refine (nextStateId_of_write h.recorded ?_ ?_ ?_).trans (if_pos hnext)
      · rfl
      · exact h.stateId_eq
      · exact hcurr
    · show nextStateId P _ = smiFlashUpdateMaxStates - 1
      refine (nextStateId_of_write h.recorded ?_ ?_ ?_).trans (if_neg (not_lt.mpr hlast))
      · rfl
      · exact h.stateId_eq
      · exact hcurr
  · rw [if_pos hok] at hdead
    exact hdead _ _ rfl rfl rfl

theorem wp_updateBody_erase {Q : Unit ⊕ EfiStatus → SmmState → Prop} {E : Stop → SmmState → Prop}
    {b : StateMachinePrivateData} {plan : List PlanItem} (h : AtErase P bs i s) (hi : i < bs.length)
    (hb : bs.get ⟨i, hi⟩ = b)
    (hplan : plan = (if svnDue s i b then svnPlan P s.svnAreaBuffer else []) ++
      [.cycle (blockErase P s.ram b)])
    (hfin : ∀ t d, issue P plan s.device = (.finished, d) → AtWrite P bs i t → t.device = d →
      t.runMask = s.runMask → t.svnUpdated = (s.svnUpdated || svnDue s i b) → Q (.inl ()) t)
    (hfail : ∀ status t d, issue P plan s.device = (.failed status, d) → status.isError = true →
      t.device = d → t.runMask = s.runMask → Q (.inr status) t)
    (hdead : ∀ t d, issue P plan s.device = (.deadLoop, d) → t.device = d → t.runMask = s.runMask →
      E .deadLoop t) :
    (updateBody P ()).wp Q E s := by
  subst hb hplan
  have hreach := h.svnReached hi
  -- a write state is never the last one
  have hnot : ∀ t, AtWrite P bs i t → t.stateId ≠ smiFlashUpdateMaxStates - 1 := by
    intro t ht
    rw [ht.stateId_eq]
    decide
  cases hdue : svnDue s i (bs.get ⟨i, hi⟩) with
  | false =>
    rw [hdue] at hfin hfail hdead hreach
    simp only [Bool.false_eq_true, if_false, List.nil_append, Bool.or_false] at hfin hdead
    refine wp_updateBody_of_not_reached hreach (wp_erase_step h hi ?_ hdead)
    intro t d hd hw hdev hmask hsvn
    exact ⟨fun _ => hfin t d hd hw hdev hmask hsvn, fun hc => absurd ⟨rfl, hnot t hw⟩ hc⟩
  | true =>
    rw [hdue] at hfin hfail hdead hreach
    simp only [if_true, Bool.or_true] at hfin hfail hdead
    unfold updateBody
    rw [Exec.wp_bind, Exec.wp_get, Exec.wp_bind, hreach, if_pos rfl]
    refine wp_updateSvnArea (fun d₁ hd₁ => ?_) (fun status d₁ hd₁ hst => ?_)
    · rw [Exec.wp_ite]
      refine ⟨fun hc => absurd hc Bool.false_ne_true, fun _ => ?_⟩
      rw [issue_append_of_finished hd₁] at hfin hdead
      have hu : AtErase P bs i (s.svnAttempted .success d₁) :=
        ⟨h.recorded.of_table rfl, h.active, h.stateId_eq, h.currBlock_eq⟩
      rw [Exec.wp_bind]
      refine wp_erase_step hu hi ?_ hdead
      intro t d hd hw hdev hmask hsvn
      rw [Exec.wp_bind, Exec.wp_get, Exec.wp_ite]
      exact ⟨fun _ => hfin t d hd hw hdev hmask hsvn, fun hc => absurd ⟨rfl, hnot t hw⟩ hc⟩
    · rw [Exec.wp_ite]
      refine ⟨fun _ => ?_, fun hc => absurd hst hc⟩
      exact hfail status _ d₁ (issue_append_of_ne hd₁ (by intro hc; cases hc) _) hst rfl rfl

theorem wp_updateBody_write {Q : Unit ⊕ EfiStatus → SmmState → Prop} {E : Stop → SmmState → Prop}
    {b : StateMachinePrivateData} (h : AtWrite P bs i s) (hi : i < bs.length)
    (hb : bs.get ⟨i, hi⟩ = b)
    (hnext : ∀ t d, issue P [.cycle (blockProgram P s.ram b)] s.device = (.finished, d) →
      AtErase P bs (i + 1) t → i + 1 < bs.length → t.device = d → t.runMask = s.runMask →
      t.svnUpdated = s.svnUpdated → Q (.inl ()) t)
    (hlast : ∀ t d, issue P [.cycle (blockProgram P s.ram b)] s.device = (.finished, d) →
      i + 1 = bs.length → t.updateStatusPacket.blocksCompleted = bs.length → t.device = d →
      t.runMask = s.runMask → t.svnUpdated = s.svnUpdated → Q (.inr .success) t)
    (hdead : ∀ t d, issue P [.cycle (blockProgram P s.ram b)] s.device = (.deadLoop, d) →
      t.device = d → t.runMask = s.runMask → E .deadLoop t) :
    (updateBody P ()).wp Q E s := by
  subst hb
  refine wp_updateBody_of_not_reached (not_reached_of_stateId (by rw [h.stateId_eq]; decide))
    (wp_write_step h hi ?_ hdead)
  intro t d hd hmore hend hdone hdev hmask hsvn
  by_cases hlt : i + 1 < bs.length
  · have ht := hmore hlt
    have hid : t.stateId ≠ smiFlashUpdateMaxStates - 1 := by
      rw [ht.stateId_eq]
      decide
    exact ⟨fun _ => hnext t d hd ht hlt hdev hmask hsvn, fun hc => absurd ⟨rfl, hid⟩ hc⟩
  · have hid := hend (not_lt.mp hlt)
    have heq : i + 1 = bs.length := by omega
    exact ⟨fun hc => absurd hid hc.2, fun _ => hlast t d hd heq (hdone.trans heq) hdev hmask hsvn⟩

end

/-! ## The blocks -/

def anyDue (s : SmmState) : Nat → List StateMachinePrivateData → Bool
  | _, [] => false
  | i, b :: bs => svnDue s i b || anyDue s (i + 1) bs

theorem blocksPlan_congr {s t : SmmState} (h : t.runMask = s.runMask) :
    ∀ i bs, blocksPlan P t i bs = blocksPlan P s i bs ∧ anyDue t i bs = anyDue s i bs := by
  have hram : t.ram = s.ram := (congrArg SmmState.ram h :)
  have hbuf : t.svnAreaBuffer = s.svnAreaBuffer := (congrArg SmmState.svnAreaBuffer h :)
  have hdue : ∀ i b, svnDue t i b = svnDue s i b := by
    have hp : t.svnAreaUpdPoint = s.svnAreaUpdPoint := (congrArg SmmState.svnAreaUpdPoint h :)
    have ha : t.svnAreaUpdTrigAddr = s.svnAreaUpdTrigAddr :=
      (congrArg SmmState.svnAreaUpdTrigAddr h :)
    intro i b
    unfold svnDue
    rw [hp, ha]
  intro i bs
  induction bs generalizing i with
  | nil => exact ⟨rfl, rfl⟩
  | cons b bs ih =>
    simp only [blocksPlan, blockPlan, anyDue, hdue, hram, hbuf, (ih (i + 1)).1, (ih (i + 1)).2]
    exact ⟨trivial, trivial⟩

theorem wp_updateLoop_blocks {bs : List StateMachinePrivateData}
    {R : EfiStatus → SmmState → Prop} {E : Stop → SmmState → Prop} :
    ∀ (rest : List StateMachinePrivateData) (i n : Nat) (s : SmmState), AtErase P bs i s →
      bs.drop i = rest → rest ≠ [] → 2 * rest.length ≤ n →
      (∀ t d, issue P (blocksPlan P s i rest) s.device = (.finished, d) → t.device = d →
        t.runMask = s.runMask → t.updateStatusPacket.blocksCompleted = bs.length →
        t.svnUpdated = (s.svnUpdated || anyDue s i rest) → R .success t) →
      (∀ status t d, issue P (blocksPlan P s i rest) s.device = (.failed status, d) →
        status.isError = true → t.device = d → t.runMask = s.runMask → R status t) →
      (∀ t d, issue P (blocksPlan P s i rest) s.device = (.deadLoop, d) → t.device = d →
        t.runMask = s.runMask → E .deadLoop t) →
      (Exec.loop n (updateBody P) ()).wp R E s := by
  intro rest
  induction rest with
  | nil => intro i n s _ _ hne; exact absurd rfl hne
  | cons b rest ih =>
    intro i n s h hdrop _ hn hfin hfail hdead
    obtain ⟨n, rfl⟩ : ∃ m, n = m + 1 + 1 := ⟨n - 2, by simp only [List.length_cons] at hn; omega⟩
    have hi : i < bs.length := by
      by_contra hc
      rw [List.drop_eq_nil_of_le (not_lt.mp hc)] at hdrop
      cases hdrop
    have hcons := List.drop_eq_getElem_cons hi
    rw [hdrop] at hcons
    injection hcons with hb hrest
    have hb : bs.get ⟨i, hi⟩ = b := hb.symm
    -- split the plan of the block at its program cycle
    have hsplit : blocksPlan P s i (b :: rest) =
        ((if svnDue s i b then svnPlan P s.svnAreaBuffer else []) ++
          [.cycle (blockErase P s.ram b)]) ++
        ([.cycle (blockProgram P s.ram b)] ++ blocksPlan P s (i + 1) rest) := by
      simp only [blocksPlan, blockPlan, List.append_assoc, List.cons_append, List.nil_append]
    rw [hsplit] at hfin hfail hdead
    rw [Exec.wp_loop_succ]
    refine wp_updateBody_erase h hi hb rfl ?_ ?_ ?_
    · intro t d hd hw hdev hmask hsvn
      rw [issue_append_of_finished hd] at hfin hfail hdead
      have hram : t.ram = s.ram := (congrArg SmmState.ram hmask :)
      show (Exec.loop (n + 1) (updateBody P) ()).wp R E t
      rw [Exec.wp_loop_succ]
      rw [← hram, ← hdev] at hfin hfail hdead
      refine wp_updateBody_write hw hi hb ?_ ?_ ?_
      · intro u d' hd' hu hlt hdev' hmask' hsvn'
        have hmask'' := hmask'.trans hmask
        obtain ⟨hplan, hany⟩ := blocksPlan_congr (P := P) hmask'' (i + 1) rest
        rw [issue_append_of_finished hd', ← hdev', ← hplan] at hfin hfail hdead
        have hne : rest ≠ [] := by
          intro hc
          have hlen := congrArg List.length hrest
          rw [hc, List.length_drop] at hlen
          simp only [List.length_nil] at hlen
          omega
        refine ih (i + 1) n u hu hrest.symm hne (by simp only [List.length_cons] at hn; omega) ?_ ?_ ?_
        · intro v e he hve hvm hvb hvs
          refine hfin v e he hve (hvm.trans hmask'') hvb ?_
          rw [hvs, hsvn', hsvn, hany, Bool.or_assoc]
          rfl
        · intro status v e he hst hve hvm
          exact hfail status v e he hst hve (hvm.trans hmask'')
        · intro v e he hve hvm
          exact hdead v e he hve (hvm.trans hmask'')
      · intro u d' hd' hend hdone hdev' hmask' hsvn'
        have hnil : rest = [] := by
          rw [hrest, List.drop_eq_nil_of_le (by omega)]
        subst hnil
        rw [issue_append_of_finished hd'] at hfin
        refine hfin u d' rfl hdev' (hmask'.trans hmask) hdone ?_
        rw [hsvn', hsvn]
        simp only [anyDue, Bool.or_false]
      · intro u d' hd' hdev' hmask'
        rw [issue_append_of_ne hd' (by intro hc; cases hc)] at hdead
        exact hdead u d' rfl hdev' (hmask'.trans hmask)
    · intro status t d hd hst hdev hmask
      rw [issue_append_of_ne hd (by intro hc; cases hc)] at hfail
      exact hfail status t d rfl hst hdev hmask
    · intro t d hd hdev hmask
      rw [issue_append_of_ne hd (by intro hc; cases hc)] at hdead
      exact hdead t d rfl hdev hmask

/-! ## The run -/

theorem wp_updateLoop_empty {R : EfiStatus → SmmState → Prop} {E : Stop → SmmState → Prop} {n : Nat}
    {s : SmmState} (h : AtErase P [] 0 s)
    (hR : ∀ t, t.device = s.device → t.runMask = s.runMask → R .deviceError t)
    (hE : n < 2 → ∀ t, t.device = s.device → E .unfinished t) :
    (Exec.loop n (updateBody P) ()).wp R E s := by
  have hinvalid : s.currElement.isValid = false := h.recorded.rest _ (Nat.zero_le _)
  have hreach : isSvnUpdatePointReached s = false := if_pos (.inr (.inr hinvalid))
  cases n with
  | zero => exact hE (by decide) s rfl
  | succ n =>
  rw [Exec.wp_loop_succ]
  refine wp_updateBody_of_not_reached hreach ?_
  rw [wp_smiStateMachine, activate_of_inProgress h.active, h.stateId_eq]
  show (eraseBlock P).wp _ E s
  unfold eraseBlock
  rw [Exec.wp_bind, Exec.wp_get, if_pos hinvalid, Exec.wp_bind, Exec.wp_modify, Exec.wp_pure]
  have hid : (SmmState.advance P .success { s with lastBlockDone := true }).stateId =
      writeBlockState := by
    show nextStateId P _ = writeBlockState
    rw [nextStateId_of_ne (by show s.stateId ≠ 3; rw [h.stateId_eq]; decide)]
    show s.stateId + 1 = 3
    rw [h.stateId_eq]
  refine ⟨fun _ => ?_, fun hc => absurd ⟨rfl, by rw [hid]; decide⟩ hc⟩
  cases n with
  | zero => exact hE (by decide) _ rfl
  | succ n =>
  show (Exec.loop (n + 1) (updateBody P) ()).wp R E _
  rw [Exec.wp_loop_succ]
  refine wp_updateBody_of_not_reached (not_reached_of_stateId (by rw [hid]; decide)) ?_
  have hact : (SmmState.advance P .success { s with lastBlockDone := true }).activeState =
      .inProgress := h.active
  rw [wp_smiStateMachine, activate_of_inProgress hact, hid]
  show (writeBlock P).wp _ E _
  unfold writeBlock
  rw [Exec.wp_bind, Exec.wp_get, Exec.wp_ite]
  refine ⟨fun _ => ⟨fun hc => absurd hc.1 Bool.noConfusion, fun _ => hR _ rfl rfl⟩, fun hc => ?_⟩
  exact absurd hinvalid hc

theorem wp_finishSvnUpdate_of_success {Q : EfiStatus → SmmState → Prop}
    {E : Stop → SmmState → Prop} {s : SmmState}
    (hfin : ∀ t, issue P (endPlan P s) s.device = (.finished, t.device) → t.runMask = s.runMask →
      Q .success t)
    (hfail : ∀ status t, status.isError = true → Q status t) (hdead : ∀ t, E .deadLoop t) :
    (finishSvnUpdate P .success).wp Q E s := by
  -- the check that an expected SVN update has happened
  have hcheck : ∀ (status : EfiStatus) (t : SmmState), Q status t →
      (Exec.get >>= fun u => Exec.when (u.svnAreaUpdPoint ≠ svnUpdNever)
        (assert P.debugAssertEnabled u.svnUpdated) >>= fun _ => pure status : Exec SmmState _).wp
        Q E t := by
    intro status t hQ
    rw [Exec.wp_bind, Exec.wp_get, Exec.wp_bind, Exec.wp_when, wp_assert]
    exact ⟨fun _ => ⟨fun _ => hQ, fun _ => hdead t⟩, fun _ => hQ⟩
  unfold finishSvnUpdate
  rw [Exec.wp_bind, Exec.wp_get, Exec.wp_bind, Exec.wp_ite]
  unfold endPlan at hfin
  refine ⟨fun hc => ?_, fun hc => ?_⟩
  · rw [if_pos hc.2] at hfin
    refine wp_updateSvnArea (fun d hd => ?_) (fun status d _ hst => ?_)
    · exact hcheck _ _ (hfin _ hd rfl)
    · exact hcheck _ _ (hfail _ _ hst)
  · rw [if_neg (fun he => hc ⟨rfl, he⟩)] at hfin
    exact hcheck _ _ (hfin s rfl rfl)

theorem updateRun_success {bs : List StateMachinePrivateData} {s t : SmmState}
    (h : AtErase P bs 0 s) (hrun : updateRun P s = .ret .success t) :
    issue P (schedule P s bs) s.device = (.finished, t.device) ∧ t.runMask = s.runMask ∧ bs ≠ [] := by
  -- the run returns the same when its loop is followed for long enough
  obtain ⟨n, hn, hlong⟩ : ∃ n, 2 * bs.length + 2 ≤ n ∧
      (Exec.loop n (updateBody P) () >>= finishSvnUpdate P) s = .ret .success t := by
    refine ⟨max P.fuel (2 * bs.length + 2), Nat.le_max_right _ _, ?_⟩
    exact Exec.bind_mono (fun _ _ hr => Exec.loop_mono hr (Nat.le_max_left _ _)) hrun
  have hwp : (Exec.loop n (updateBody P) () >>= finishSvnUpdate P).wp
      (fun status u => status.isError = false →
        issue P (schedule P s bs) s.device = (.finished, u.device) ∧ u.runMask = s.runMask ∧ bs ≠ [])
      (fun _ _ => True) s := by
    have herr : ∀ (status : EfiStatus) (u : SmmState), status.isError = true →
        (finishSvnUpdate P status).wp (fun status u => status.isError = false →
          issue P (schedule P s bs) s.device = (.finished, u.device) ∧ u.runMask = s.runMask ∧
            bs ≠ []) (fun _ _ => True) u := fun status u hst =>
      wp_finishSvnUpdate_of_error hst (fun hc => by rw [hst] at hc; cases hc) trivial
    rw [Exec.wp_bind]
    by_cases hnil : bs = []
    · subst hnil
      exact wp_updateLoop_empty h (fun t _ _ => herr _ _ rfl) fun _ _ _ => trivial
    · refine wp_updateLoop_blocks bs 0 n s h rfl hnil (by omega) ?_ ?_ (fun _ _ _ _ _ => trivial)
      · intro u d hd hdev hmask _ _
        have hend : endPlan P u = endPlan P s := by
          have hp : u.svnAreaUpdPoint = s.svnAreaUpdPoint :=
            (congrArg SmmState.svnAreaUpdPoint hmask :)
          have hbuf : u.svnAreaBuffer = s.svnAreaBuffer := (congrArg SmmState.svnAreaBuffer hmask :)
          unfold endPlan
          rw [hp, hbuf]
        refine wp_finishSvnUpdate_of_success (fun v hv hvm _ => ?_) (fun status v hst hc => ?_)
          (fun _ => trivial)
        · unfold schedule
          rw [issue_append_of_finished hd, ← hdev, ← hend]
          exact ⟨hv, hvm.trans hmask, hnil⟩
        · rw [hst] at hc
          cases hc
      · intro status u d _ hst _ _
        exact herr status u hst
  exact Exec.wp_of_ret hwp hlong rfl

/-! ## The operations of a run -/

section

variable {bs : List StateMachinePrivateData} {s : SmmState}

theorem svnPlan_ofBlocks (buffer : Mem) : ∀ c, .cycle c ∈ svnPlan P buffer → ∀ ok,
    SpiCycle.OfBlocks bs ⟨c.op, c.caller, c.address, ok⟩ := by
  intro c hc ok
  unfold svnPlan at hc
  have hcase : c = svnErase buffer ∨ c = svnProgram buffer := by
    split at hc
    · simp at hc
    split at hc
    · simp at hc
    split at hc
    · simp at hc
    · simpa using hc
  rcases hcase with rfl | rfl
  · exact rfl
  · exact rfl

theorem updateRun_adds (h : AtErase P bs 0 s) :
    s.device.Adds (SpiCycle.OfBlocks bs) (updateRun P s).state.device := by
  have hblock : ∀ (ram : Mem) (op : SpiOp) (b : StateMachinePrivateData), b ∈ bs → ∀ ok,
      SpiCycle.OfBlocks bs ⟨op, .block, u32 b.targetAddr, ok⟩ := fun ram op b hb ok =>
    ⟨b, hb, u32_of_lt (h.recorded.targetAddr_lt b hb)⟩
  have herase : ∀ (t : SmmState) (i : Nat) (b : StateMachinePrivateData), b ∈ bs →
      ∀ c, .cycle c ∈ (if svnDue t i b then svnPlan P t.svnAreaBuffer else []) ++
        [PlanItem.cycle (blockErase P t.ram b)] →
      ∀ ok, SpiCycle.OfBlocks bs ⟨c.op, c.caller, c.address, ok⟩ := by
    intro t i b hb c hc ok
    rcases List.mem_append.mp hc with hc | hc
    · split at hc
      · exact svnPlan_ofBlocks _ c hc ok
      · exact (List.not_mem_nil hc).elim
    · injection List.mem_singleton.mp hc with hc
      rw [hc]
      exact hblock t.ram _ b hb ok
  have hwrite : ∀ (t : SmmState) (b : StateMachinePrivateData), b ∈ bs →
      ∀ c, .cycle c ∈ [PlanItem.cycle (blockProgram P t.ram b)] →
      ∀ ok, SpiCycle.OfBlocks bs ⟨c.op, c.caller, c.address, ok⟩ := by
    intro t b hb c hc ok
    injection List.mem_singleton.mp hc with hc
    rw [hc]
    exact hblock t.ram _ b hb ok
  -- what an operation list adds, in the form in which the steps give it
  have hadd : ∀ (t : SmmState) (plan : List PlanItem) (e : Ending) (d : FlashDevice),
      s.device.Adds (SpiCycle.OfBlocks bs) t.device →
      (∀ c, .cycle c ∈ plan → ∀ ok, SpiCycle.OfBlocks bs ⟨c.op, c.caller, c.address, ok⟩) →
      issue P plan t.device = (e, d) → s.device.Adds (SpiCycle.OfBlocks bs) d := by
    intro t plan e d ht hplan hd
    have hnew := issue_adds (P := P) plan t.device hplan
    rw [hd] at hnew
    exact ht.trans hnew
  have hloop : (updateLoop P).wp (fun _ t => s.device.Adds (SpiCycle.OfBlocks bs) t.device)
      (fun _ t => s.device.Adds (SpiCycle.OfBlocks bs) t.device) s := by
    by_cases hnil : bs = []
    · subst hnil
      exact wp_updateLoop_empty h (fun t hdev _ => by rw [hdev]; exact .refl _ _)
        (fun _ t hdev => by rw [hdev]; exact .refl _ _)
    have hlen : 0 < bs.length := List.length_pos_of_ne_nil hnil
    refine Exec.wp_loop (fun _ t => s.device.Adds (SpiCycle.OfBlocks bs) t.device ∧
      ∃ i, i < bs.length ∧ (AtErase P bs i t ∨ AtWrite P bs i t)) ?_ (fun _ t hI => hI.1) _
      ⟨.refl _ _, 0, hlen, .inl h⟩
    rintro _ t ⟨ht, i, hi, he | hw⟩
    · have hmem : bs.get ⟨i, hi⟩ ∈ bs := List.get_mem _ _
      refine wp_updateBody_erase he hi rfl rfl ?_ ?_ ?_
      · intro v d hd hv hdev _ _
        rw [hdev]
        exact ⟨hadd t _ _ d ht (herase t i _ hmem) hd, i, hi, .inr hv⟩
      · intro status v d hd _ hdev _
        rw [hdev]
        exact hadd t _ _ d ht (herase t i _ hmem) hd
      · intro v d hd hdev _
        rw [hdev]
        exact hadd t _ _ d ht (herase t i _ hmem) hd
    · have hmem : bs.get ⟨i, hi⟩ ∈ bs := List.get_mem _ _
      refine wp_updateBody_write hw hi rfl ?_ ?_ ?_
      · intro v d hd hv hlt hdev _ _
        rw [hdev]
        exact ⟨hadd t _ _ d ht (hwrite t _ hmem) hd, i + 1, hlt, .inl hv⟩
      · intro v d hd _ _ hdev _ _
        rw [hdev]
        exact hadd t _ _ d ht (hwrite t _ hmem) hd
      · intro v d hd hdev _
        rw [hdev]
        exact hadd t _ _ d ht (hwrite t _ hmem) hd
  have hfinish : ∀ status t, s.device.Adds (SpiCycle.OfBlocks bs) t.device →
      (finishSvnUpdate P status).wp (fun _ t => s.device.Adds (SpiCycle.OfBlocks bs) t.device)
        (fun _ t => s.device.Adds (SpiCycle.OfBlocks bs) t.device) t := by
    intro status t ht
    have hcheck : ∀ (status : EfiStatus) (v : SmmState),
        s.device.Adds (SpiCycle.OfBlocks bs) v.device →
        (Exec.get >>= fun u => Exec.when (u.svnAreaUpdPoint ≠ svnUpdNever)
          (assert P.debugAssertEnabled u.svnUpdated) >>= fun _ => pure status : Exec SmmState _).wp
          (fun _ t => s.device.Adds (SpiCycle.OfBlocks bs) t.device)
          (fun _ t => s.device.Adds (SpiCycle.OfBlocks bs) t.device) v := by
      intro status v hv
      rw [Exec.wp_bind, Exec.wp_get, Exec.wp_bind, Exec.wp_when, wp_assert]
      exact ⟨fun _ => ⟨fun _ => hv, fun _ => hv⟩, fun _ => hv⟩
    unfold finishSvnUpdate
    rw [Exec.wp_bind, Exec.wp_get, Exec.wp_bind, Exec.wp_ite]
    refine ⟨fun _ => ?_, fun _ => hcheck _ _ ht⟩
    refine wp_updateSvnArea (fun d hd => ?_) (fun status d hd _ => ?_)
    · exact hcheck _ _ (hadd t _ _ d ht (svnPlan_ofBlocks _) hd)
    · exact hcheck _ _ (hadd t _ _ d ht (svnPlan_ofBlocks _) hd)
  refine Exec.wp_state (I := fun t : SmmState => s.device.Adds (SpiCycle.OfBlocks bs) t.device) ?_
  unfold updateRun
  rw [Exec.wp_bind]
  exact Exec.wp_mono hloop (fun status t ht => hfinish status t ht) (fun _ _ ht => ht)

end

end Quark.SmiFlash
