import Mathlib.Data.List.GetD
import Quark.SmiFlash.Proofs.ScheduleProofs

/-!
# When the SVN area is written

A run that ends in success has issued its whole schedule, so the operations it adds to the record are
those of the schedule. From their order follows when the SVN area was written, and how often.
-/

namespace Quark.SmiFlash

open Machine

variable {P : Platform}

/-! ## The record of a schedule -/

theorem issue_svnPlan_finished {buffer : Mem} {d d' : FlashDevice}
    (h : issue P (svnPlan P buffer) d = (.finished, d')) : d'.cycles = d.cycles ++ svnWritten := by
  unfold svnPlan at h
  split at h
  · cases h
  split at h
  · cases h
  split at h
  · cases h
  simp only [issue] at h
  split at h
  · rename_i hok
    split at h
    · rename_i hok'
      injection h with _ h
      subst h
      show (d.cycles ++ [_]) ++ [_] = _
      rw [hok, hok', List.append_assoc]
      rfl
    · cases h
  · cases h

/-- The record of the operations on the blocks from block `i` on, each with the SVN update in front of
it that is due. -/
def BlocksLogged (s : SmmState) : Nat → List StateMachinePrivateData → List SpiCycle → Prop
  | _, [], cycles => cycles = []
  | i, b :: bs, cycles => ∃ ok ok' rest, cycles = (if svnDue s i b then svnWritten else []) ++
      ⟨.erase, .block, b.targetAddr, ok⟩ :: ⟨.program, .block, b.targetAddr, ok'⟩ :: rest ∧
      BlocksLogged s (i + 1) bs rest

theorem issue_blocksPlan_finished {s : SmmState} {bs : List StateMachinePrivateData}
    (hlt : ∀ b ∈ bs, b.targetAddr < 0x100000000) {i : Nat} {d d' : FlashDevice}
    (h : issue P (blocksPlan P s i bs) d = (.finished, d')) :
    ∃ cycles, d'.cycles = d.cycles ++ cycles ∧ BlocksLogged s i bs cycles := by
  induction bs generalizing i d with
  | nil =>
    injection h with _ h
    exact ⟨[], by rw [h, List.append_nil], rfl⟩
  | cons b bs ih =>
    have hb := u32_of_lt (hlt b List.mem_cons_self)
    -- the SVN update, if one is due
    obtain ⟨d₁, hd₁, hrest⟩ : ∃ d₁ : FlashDevice,
        d₁.cycles = d.cycles ++ (if svnDue s i b then svnWritten else []) ∧
        issue P ([.cycle (blockErase P s.ram b)] ++ ([.cycle (blockProgram P s.ram b)] ++
          blocksPlan P s (i + 1) bs)) d₁ = (.finished, d') := by
      simp only [blocksPlan, blockPlan, List.append_assoc, List.cons_append, List.nil_append] at h ⊢
      cases hdue : svnDue s i b with
      | false =>
        rw [hdue] at h
        exact ⟨d, (List.append_nil _).symm, h⟩
      | true =>
        rw [hdue, if_pos rfl, issue_append] at h
        split at h
        · rename_i d₁ hsvn
          exact ⟨d₁, issue_svnPlan_finished hsvn, h⟩
        · rename_i hne
          exact absurd h (fun hc => hne _ hc)
    rw [issue_append, issue_block rfl] at hrest
    split at hrest
    case h_2 hne => exact absurd hrest (hne _)
    rename_i d₂ h₂
    injection h₂ with _ h₂
    rw [issue_append, issue_block rfl] at hrest
    split at hrest
    case h_2 hne => exact absurd hrest (hne _)
    rename_i d₃ h₃
    injection h₃ with _ h₃
    obtain ⟨cycles, hc, hlog⟩ := ih (fun b hb => hlt b (List.mem_cons_of_mem _ hb)) hrest
    have hcycles : d'.cycles = d.cycles ++ ((if svnDue s i b then svnWritten else []) ++
        ⟨.erase, .block, b.targetAddr, (P.spiAnswer d₁.cycles.length).ok⟩ ::
        ⟨.program, .block, b.targetAddr, (P.spiAnswer d₂.cycles.length).ok⟩ :: cycles) := by
      rw [hc, ← h₃]
      show (d₂.cycles ++ [⟨.program, .block, u32 b.targetAddr, _⟩]) ++ cycles = _
      rw [← h₂]
      show ((d₁.cycles ++ [⟨.erase, .block, u32 b.targetAddr, _⟩]) ++ [_]) ++ cycles = _
      rw [hb, hd₁]
      simp only [List.append_assoc, List.cons_append, List.nil_append]
    exact ⟨_, hcycles, _, _, cycles, rfl, hlog⟩

/-! ## Counting SVN updates -/

def dueCount (s : SmmState) : Nat → List StateMachinePrivateData → Nat
  | _, [] => 0
  | i, b :: bs => (if svnDue s i b then 1 else 0) + dueCount s (i + 1) bs

def svnCycles (cycles : List SpiCycle) : List SpiCycle := cycles.filter fun c => c.caller = .svnArea

theorem svnCycles_append (xs ys : List SpiCycle) :
    svnCycles (xs ++ ys) = svnCycles xs ++ svnCycles ys := List.filter_append ..

theorem svnCycles_of_noSvn {cycles : List SpiCycle} (h : NoSvn cycles) : svnCycles cycles = [] := by
  refine List.filter_eq_nil_iff.mpr fun c hc => ?_
  rw [h c hc]
  decide

theorem noSvn_of_svnCycles {cycles : List SpiCycle} (h : svnCycles cycles = []) : NoSvn cycles := by
  intro c hc
  have hn := List.filter_eq_nil_iff.mp h c hc
  cases hcaller : c.caller with
  | block => rfl
  | svnArea => rw [hcaller] at hn; exact absurd (by decide) hn

theorem svnCycles_svnWritten : svnCycles svnWritten = svnWritten := rfl

section

variable {s : SmmState} {i : Nat} {bs : List StateMachinePrivateData} {cycles : List SpiCycle}

theorem BlocksLogged.length_svnCycles (h : BlocksLogged s i bs cycles) :
    (svnCycles cycles).length = 2 * dueCount s i bs := by
  induction bs generalizing i cycles with
  | nil =>
    rw [show cycles = [] from h]
    rfl
  | cons b bs ih =>
    obtain ⟨ok, ok', rest, rfl, hrest⟩ := h
    have hblock : svnCycles (⟨.erase, .block, b.targetAddr, ok⟩ ::
        ⟨.program, .block, b.targetAddr, ok'⟩ :: rest) = svnCycles rest := rfl
    rw [svnCycles_append, hblock, List.length_append, ih hrest]
    simp only [dueCount]
    cases svnDue s i b with
    | true =>
      show 2 + _ = _
      rw [if_pos rfl]
      omega
    | false =>
      show 0 + _ = _
      rw [if_neg Bool.false_ne_true]
      omega

theorem BlocksLogged.noSvn (h : BlocksLogged s i bs cycles) (hd : dueCount s i bs = 0) :
    NoSvn cycles := by
  refine noSvn_of_svnCycles (List.length_eq_zero_iff.mp ?_)
  rw [h.length_svnCycles, hd]

theorem BlocksLogged.one_due (h : BlocksLogged s i bs cycles) (hd : dueCount s i bs = 1) :
    ∃ pre b k ok post, cycles = pre ++ svnWritten ++ ⟨.erase, .block, b.targetAddr, ok⟩ :: post ∧
      b ∈ bs ∧ svnDue s k b = true ∧ NoSvn pre ∧ NoSvn post := by
  induction bs generalizing i cycles with
  | nil => cases hd
  | cons b bs ih =>
    obtain ⟨ok, ok', rest, rfl, hrest⟩ := h
    simp only [dueCount] at hd
    cases hdue : svnDue s i b with
    | true =>
      rw [hdue, if_pos rfl] at hd
      refine ⟨[], b, i, ok, ⟨.program, .block, b.targetAddr, ok'⟩ :: rest, rfl, List.mem_cons_self,
        hdue, fun c hc => (List.not_mem_nil hc).elim, ?_⟩
      intro c hc
      rcases List.mem_cons.mp hc with hc | hc
      · rw [hc]
      · exact hrest.noSvn (by omega) c hc
    | false =>
      rw [hdue, if_neg Bool.false_ne_true, Nat.zero_add] at hd
      obtain ⟨pre, b', k, ok₁, post, rfl, hmem, hdue', hpre, hpost⟩ := ih hrest hd
      refine ⟨⟨.erase, .block, b.targetAddr, ok⟩ :: ⟨.program, .block, b.targetAddr, ok'⟩ :: pre, b',
        k, ok₁, post, rfl, List.mem_cons_of_mem _ hmem, hdue', ?_, hpost⟩
      intro c hc
      rcases List.mem_cons.mp hc with hc | hc
      · rw [hc]
      · rcases List.mem_cons.mp hc with hc | hc
        · rw [hc]
        · exact hpre c hc

end

/-! ## The update points -/

section

variable {s : SmmState}

theorem dueCount_of_never (hp : s.svnAreaUpdPoint = svnUpdNever ∨ s.svnAreaUpdPoint = svnUpdAtEnd) :
    ∀ i bs, dueCount s i bs = 0 := by
  have hdue : ∀ i b, svnDue s i b = false := by
    intro i b
    unfold svnDue
    rcases hp with hp | hp <;> simp [hp]
  intro i bs
  induction bs generalizing i with
  | nil => rfl
  | cons b bs ih => simp only [dueCount, hdue, ih, Bool.false_eq_true, if_false]

theorem dueCount_atStart (hp : s.svnAreaUpdPoint = svnUpdAtStart) :
    ∀ i bs, dueCount s (i + 1) bs = 0 := by
  intro i bs
  induction bs generalizing i with
  | nil => rfl
  | cons b bs ih =>
    have hdue : svnDue s (i + 1) b = false := by simp [svnDue, hp]
    simp only [dueCount, hdue, ih, Bool.false_eq_true, if_false]

theorem dueCount_trigger (h₀ : s.svnAreaUpdPoint ≠ svnUpdNever)
    (h₁ : s.svnAreaUpdPoint ≠ svnUpdAtStart) (h₂ : s.svnAreaUpdPoint ≠ svnUpdAtEnd) :
    ∀ i bs, dueCount s i bs = blocksAt s.svnAreaUpdTrigAddr bs := by
  intro i bs
  induction bs generalizing i with
  | nil => rfl
  | cons b bs ih =>
    simp only [dueCount, blocksAt, List.countP_cons, svnDue, h₀, h₁, h₂, ne_eq, not_false_eq_true,
      true_and, if_false, decide_eq_true_eq] at ih ⊢
    rw [ih, Nat.add_comm]

end

/-- For a run that ends in success, the SVN area has been written as requested exactly when no trigger
address is used, or exactly one recorded block lies at it. -/
theorem svn_update_honoured_iff {bs : List StateMachinePrivateData} {s t : SmmState}
    (h : AtErase P bs 0 s) (hrun : updateRun P s = .ret .success t) :
    (∃ cycles, t.spiCycles = s.spiCycles ++ cycles ∧
        Honoured s.svnAreaUpdPoint s.svnAreaUpdTrigAddr cycles) ↔
      s.svnAreaUpdPoint = svnUpdNever ∨ s.svnAreaUpdPoint = svnUpdAtStart ∨
        s.svnAreaUpdPoint = svnUpdAtEnd ∨ blocksAt s.svnAreaUpdTrigAddr bs = 1 := by
  obtain ⟨hissue, -, hne⟩ := updateRun_success h hrun
  unfold schedule at hissue
  rw [issue_append] at hissue
  split at hissue
  case h_2 hno => exact absurd hissue (hno _)
  rename_i d hd
  obtain ⟨cycles, hcycles, hlog⟩ := issue_blocksPlan_finished h.recorded.targetAddr_lt hd
  have hcycles : d.cycles = s.spiCycles ++ cycles := hcycles
  -- the record of the run, as a whole
  have hwhole : t.spiCycles = s.spiCycles ++
      (cycles ++ if s.svnAreaUpdPoint = svnUpdAtEnd then svnWritten else []) := by
    unfold endPlan at hissue
    by_cases hp : s.svnAreaUpdPoint = svnUpdAtEnd
    · rw [if_pos hp] at hissue ⊢
      rw [← List.append_assoc, ← hcycles]
      exact issue_svnPlan_finished hissue
    · rw [if_neg hp] at hissue ⊢
      injection hissue with _ hdt
      rw [List.append_nil, ← hcycles, hdt]
      rfl
  have hunique : ∀ ys, t.spiCycles = s.spiCycles ++ ys →
      ys = cycles ++ if s.svnAreaUpdPoint = svnUpdAtEnd then svnWritten else [] := by
    intro ys hys
    exact List.append_cancel_left (hys.symm.trans hwhole)
  by_cases h₀ : s.svnAreaUpdPoint = svnUpdNever
  · refine ⟨fun _ => .inl h₀, fun _ => ⟨_, hwhole, ?_⟩⟩
    unfold Honoured
    rw [if_pos h₀, if_neg (by rw [h₀]; decide), List.append_nil]
    exact hlog.noSvn (dueCount_of_never (.inl h₀) 0 bs)
  by_cases h₁ : s.svnAreaUpdPoint = svnUpdAtStart
  · refine ⟨fun _ => .inr (.inl h₁), fun _ => ⟨_, hwhole, ?_⟩⟩
    unfold Honoured
    rw [if_neg h₀, if_pos h₁, if_neg (by rw [h₁]; decide), List.append_nil]
    cases bs with
    | nil => exact absurd rfl hne
    | cons b bs =>
      obtain ⟨ok, ok', rest, rfl, hrest⟩ := hlog
      have hdue : svnDue s 0 b = true := by simp [svnDue, h₁]
      refine ⟨_, by rw [hdue, if_pos rfl], ?_⟩
      intro c hc
      rcases List.mem_cons.mp hc with hc | hc
      · rw [hc]
      · rcases List.mem_cons.mp hc with hc | hc
        · rw [hc]
        · exact hrest.noSvn (dueCount_atStart h₁ 0 bs) c hc
  by_cases h₂ : s.svnAreaUpdPoint = svnUpdAtEnd
  · refine ⟨fun _ => .inr (.inr (.inl h₂)), fun _ => ⟨_, hwhole, ?_⟩⟩
    unfold Honoured
    rw [if_neg h₀, if_neg h₁, if_pos h₂, if_pos h₂]
    exact ⟨cycles, rfl, hlog.noSvn (dueCount_of_never (.inr h₂) 0 bs)⟩
  -- a trigger address
  have hcount := dueCount_trigger h₀ h₁ h₂ 0 bs
  rw [if_neg h₂, List.append_nil] at hwhole hunique
  constructor
  · rintro ⟨ys, hys, hhon⟩
    rw [hunique ys hys] at hhon
    unfold Honoured at hhon
    rw [if_neg h₀, if_neg h₁, if_neg h₂] at hhon
    obtain ⟨pre, ok, post, rfl, hpre, hpost⟩ := hhon
    have hlen := hlog.length_svnCycles
    have hpost' : svnCycles (⟨.erase, .block, s.svnAreaUpdTrigAddr, ok⟩ :: post) = svnCycles post :=
      rfl
    rw [svnCycles_append, svnCycles_append, hpost', svnCycles_of_noSvn hpre, svnCycles_of_noSvn hpost,
      svnCycles_svnWritten, hcount] at hlen
    have htwo : 2 = 2 * blocksAt s.svnAreaUpdTrigAddr bs := hlen
    exact .inr (.inr (.inr (by omega)))
  · intro hcond
    have hone : blocksAt s.svnAreaUpdTrigAddr bs = 1 :=
      ((hcond.resolve_left h₀).resolve_left h₁).resolve_left h₂
    obtain ⟨pre, b, k, ok, post, rfl, -, hdue, hpre, hpost⟩ := hlog.one_due (hcount.trans hone)
    have haddr : b.targetAddr = s.svnAreaUpdTrigAddr := by
      have hat := (of_decide_eq_true hdue).2.2
      rwa [if_neg h₁] at hat
    refine ⟨_, hwhole, ?_⟩
    unfold Honoured
    rw [if_neg h₀, if_neg h₁, if_neg h₂, haddr]
    exact ⟨pre, ok, post, rfl, hpre, hpost⟩

def bufferBlock (targetAddr : Nat) : StateMachinePrivateData :=
  ⟨0x10000, targetAddr, flashBlockSize, true⟩

def parsedState (point trigAddr : Nat) (bs : List StateMachinePrivateData) : SmmState :=
  { loadedState (fun _ => 0) (fun _ => 0) with
    stateMachinePrivateData := fun i => bs.getD i .zero
    updateStatusPacket := ⟨0, bs.length, .success⟩
    activeState := .inProgress
    stateId := eraseBlockState
    svnAreaUpdPoint := point
    svnAreaUpdTrigAddr := trigAddr }

theorem atErase_parsedState (point trigAddr : Nat) {bs : List StateMachinePrivateData}
    (hlen : bs.length ≤ P.maxBlockNumber) (hvalid : ∀ b ∈ bs, b.isValid = true)
    (hlt : ∀ b ∈ bs, b.targetAddr < 0x100000000) :
    AtErase P bs 0 (parsedState point trigAddr bs) := by
  refine ⟨⟨hlen, fun i hi => ?_, hvalid, hlt, fun i hi => ?_⟩, rfl, rfl, rfl⟩
  · exact List.getD_eq_getElem _ _ hi
  · show (bs.getD i .zero).isValid = false
    rw [List.getD_eq_default _ _ hi]
    rfl

theorem svn_update_honoured_iff_two_blocks :
    (∃ cycles, (updateRun .sample (parsedState svnUpdAtTrigAddr 0xFF801000
        [bufferBlock 0xFF800000, bufferBlock 0xFF801000])).state.spiCycles = [] ++ cycles ∧
        Honoured svnUpdAtTrigAddr 0xFF801000 cycles) ↔
      svnUpdAtTrigAddr = svnUpdNever ∨ svnUpdAtTrigAddr = svnUpdAtStart ∨
        svnUpdAtTrigAddr = svnUpdAtEnd ∨
        blocksAt 0xFF801000 [bufferBlock 0xFF800000, bufferBlock 0xFF801000] = 1 :=
  svn_update_honoured_iff (atErase_parsedState _ _ (by decide) (by decide) (by decide))
    (Outcome.eq_ret (by decide +kernel))

theorem svn_written_for_each_trigger_block :
    AtErase .sample [bufferBlock 0xFF800000, bufferBlock 0xFF800000] 0
        (parsedState svnUpdAtTrigAddr 0xFF800000 [bufferBlock 0xFF800000, bufferBlock 0xFF800000]) ∧
      (updateRun .sample (parsedState svnUpdAtTrigAddr 0xFF800000
        [bufferBlock 0xFF800000, bufferBlock 0xFF800000])).value? = some .success ∧
      ¬ ∃ cycles, (updateRun .sample (parsedState svnUpdAtTrigAddr 0xFF800000
        [bufferBlock 0xFF800000, bufferBlock 0xFF800000])).state.spiCycles = [] ++ cycles ∧
        Honoured svnUpdAtTrigAddr 0xFF800000 cycles := by
  have hrec : (updateRun .sample (parsedState svnUpdAtTrigAddr 0xFF800000
      [bufferBlock 0xFF800000, bufferBlock 0xFF800000])).state.spiCycles =
      svnWritten ++ [⟨.erase, .block, 0xFF800000, true⟩, ⟨.program, .block, 0xFF800000, true⟩] ++
      (svnWritten ++
        [⟨.erase, .block, 0xFF800000, true⟩, ⟨.program, .block, 0xFF800000, true⟩]) := by
    decide +kernel
  refine ⟨atErase_parsedState _ _ (by decide) (by decide) (by decide), by decide +kernel, ?_⟩
  rintro ⟨cycles, hcycles, hhon⟩
  rw [List.nil_append, hrec] at hcycles
  unfold Honoured at hhon
  rw [if_neg (by decide), if_neg (by decide), if_neg (by decide)] at hhon
  obtain ⟨pre, ok, post, hsplit, hpre, hpost⟩ := hhon
  have hlen := congrArg (fun l => (svnCycles l).length) (hcycles.trans hsplit)
  have hpost' : svnCycles (⟨.erase, .block, 0xFF800000, ok⟩ :: post) = svnCycles post := rfl
  simp only [svnCycles_append, hpost', svnCycles_of_noSvn hpre, svnCycles_of_noSvn hpost] at hlen
  revert hlen
  decide

end Quark.SmiFlash
