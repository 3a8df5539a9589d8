import Quark.SmiFlash.Proofs.IntakeProofs

/-!
# From the last fragment to the first erase

The state machine challenges the capsule, then parses it, and only then issues its first SPI
operation. So an update that issues any has passed both.
-/

namespace Quark.SmiFlash

open Machine

variable {P : Platform}

theorem wp_smiStateMachine {Q : EfiStatus → SmmState → Prop} {E : Stop → SmmState → Prop}
    {s : SmmState} :
    (smiStateMachine P).wp Q E s ↔
      (smiFlashUpdateState P s.activate.stateId).wp (fun status t => Q status (t.advance P status)) E
        s.activate := by
  unfold smiStateMachine
  simp only [Exec.wp_bind, Exec.wp_modify, Exec.wp_get, Exec.wp_pure]

theorem activate_of_start {s : SmmState} (h : s.activeState = .start) :
    s.activate = { s with stateId := challengeCapsuleState, activeState := .inProgress } :=
  if_pos h

theorem activate_of_inProgress {s : SmmState} (h : s.activeState = .inProgress) : s.activate = s :=
  if_neg (by rw [h]; decide)

theorem activate_spiCycles (s : SmmState) : s.activate.spiCycles = s.spiCycles := by
  unfold SmmState.activate
  split <;> rfl

theorem nextStateId_of_ne {s : SmmState} (h : s.stateId ≠ writeBlockState) :
    nextStateId P s = s.stateId + 1 :=
  if_neg h

theorem advance_spiCycles (status : EfiStatus) (s : SmmState) :
    (s.advance P status).spiCycles = s.spiCycles := by
  unfold SmmState.advance
  dsimp only
  split <;> rfl

theorem wp_updateBody_of_not_reached {Q : Unit ⊕ EfiStatus → SmmState → Prop}
    {E : Stop → SmmState → Prop} {s : SmmState} (hsvn : isSvnUpdatePointReached s = false)
    (h : (smiStateMachine P).wp (fun status t =>
      (status.isError = false ∧ t.stateId ≠ smiFlashUpdateMaxStates - 1 → Q (.inl ()) t) ∧
      (¬ (status.isError = false ∧ t.stateId ≠ smiFlashUpdateMaxStates - 1) → Q (.inr status) t))
      E s) :
    (updateBody P ()).wp Q E s := by
  unfold updateBody
  rw [Exec.wp_bind, Exec.wp_get, Exec.wp_bind, hsvn, if_neg Bool.false_ne_true, Exec.wp_pure,
    Exec.wp_ite]
  refine ⟨fun he => absurd he Bool.false_ne_true, fun _ => ?_⟩
  rw [Exec.wp_bind]
  refine Exec.wp_mono h (fun status t ht => ?_) (fun _ _ he => he)
  rw [Exec.wp_bind, Exec.wp_get, Exec.wp_ite]
  exact ht

def SmmState.TableClear (s : SmmState) : Prop := ∀ i, (s.stateMachinePrivateData i).isValid = false

theorem not_reached_of_clear {s : SmmState} (h : s.TableClear) : isSvnUpdatePointReached s = false :=
  if_pos (.inr (.inr (h _)))

theorem not_reached_of_stateId {s : SmmState} (h : s.stateId ≠ eraseBlockState) :
    isSvnUpdatePointReached s = false := by
  unfold isSvnUpdatePointReached
  rw [if_pos h]
  exact ite_self _

theorem ReachesErase.spiCycles_eq {s t : SmmState} (h : ReachesErase P s t) :
    t.spiCycles = s.spiCycles := by
  obtain ⟨v, w, hv, hw, rfl⟩ := h
  have e₁ := (keeps_challengeCapsule P).field SmmState.spiCycles hv
  have e₂ := (keeps_capsuleParse P).field SmmState.spiCycles hw
  calc (w.advance P .success).spiCycles = w.spiCycles := advance_spiCycles _ _
    _ = (v.advance P .success).spiCycles := e₂
    _ = v.spiCycles := advance_spiCycles _ _
    _ = s.activate.spiCycles := e₁
    _ = s.spiCycles := activate_spiCycles s

/-- Where the update stands while it has not come to its first erase: at the challenge, at the parse,
or past both. -/
inductive Underway (P : Platform) (s₀ : SmmState) : SmmState → Prop
  | challenge : Underway P s₀ s₀
  | parse {v : SmmState} (h : challengeCapsule P s₀.activate = .ret .success v) :
      Underway P s₀ (v.advance P .success)
  | erase {t u : SmmState} (h : ReachesErase P s₀ t) : Underway P s₀ u

def SilentUnlessErase (P : Platform) (s₀ t : SmmState) : Prop :=
  t.spiCycles = s₀.spiCycles ∨ ∃ u, ReachesErase P s₀ u

section

variable {s₀ : SmmState}

theorem challenged_fields (hstart : s₀.activeState = .start) {v : SmmState} {status : EfiStatus}
    (h : challengeCapsule P s₀.activate = .ret status v) :
    v.spiCycles = s₀.spiCycles ∧ v.stateId = challengeCapsuleState ∧ v.activeState = .inProgress := by
  rw [activate_of_start hstart] at h
  have hspi := (keeps_challengeCapsule P).field SmmState.spiCycles h
  have hid := (keeps_challengeCapsule P).field SmmState.stateId h
  have hact := (keeps_challengeCapsule P).field SmmState.activeState h
  exact ⟨hspi, hid, hact⟩

theorem Underway.silent (hstart : s₀.activeState = .start) {t : SmmState} (h : Underway P s₀ t) :
    SilentUnlessErase P s₀ t := by
  cases h with
  | challenge => exact .inl rfl
  | parse h => exact .inl ((advance_spiCycles _ _).trans (challenged_fields hstart h).1)
  | erase h => exact .inr ⟨_, h⟩

theorem wp_silent_step {x : Exec SmmState EfiStatus} {t : SmmState} {R : EfiStatus → SmmState → Prop}
    (hx : x.Keeps (SmmState.parseMask P)) (ht : t.spiCycles = s₀.spiCycles)
    (hret : ∀ status v, x t = .ret status v → R status v) :
    x.wp R (fun _ u => SilentUnlessErase P s₀ u) t :=
  hx.wp_of (fun status v hv _ => hret status v hv)
    fun _ _ e => .inl ((congrArg SmmState.spiCycles e :).trans ht)

theorem wp_updateBody_underway (hstart : s₀.activeState = .start) (hclear : s₀.TableClear)
    {t : SmmState} (h : Underway P s₀ t) :
    (updateBody P ()).wp (fun r u => match r with
        | .inl _ => Underway P s₀ u
        | .inr status => SilentUnlessErase P s₀ u ∧
          (status.isError = false → ∃ e, ReachesErase P s₀ e))
      (fun _ u => SilentUnlessErase P s₀ u) t := by
  cases h with
  | challenge =>
    refine wp_updateBody_of_not_reached (not_reached_of_clear hclear) ?_
    have hid₀ : s₀.activate.stateId = challengeCapsuleState := by rw [activate_of_start hstart]
    rw [wp_smiStateMachine, hid₀]
    refine wp_silent_step (keeps_challengeCapsule P) (activate_spiCycles s₀) fun status v hv => ?_
    obtain ⟨hspi, hid, -⟩ := challenged_fields hstart hv
    cases hst : status.isError with
    | true =>
      refine ⟨fun hc => absurd hc.1 Bool.noConfusion, fun _ => ⟨.inl ?_, ?_⟩⟩
      · exact (advance_spiCycles _ _).trans hspi
      · exact fun hc => absurd (hst.symm.trans hc) Bool.noConfusion
    | false =>
      rw [EfiStatus.isError_eq_false] at hst
      subst hst
      refine ⟨fun _ => .parse hv, fun hc => absurd ⟨rfl, ?_⟩ hc⟩
      show nextStateId P v ≠ 4
      rw [nextStateId_of_ne (by rw [hid]; decide), hid]
      decide
  | @parse v hv =>
    obtain ⟨hspi, hid, hact⟩ := challenged_fields hstart hv
    have hid' : (v.advance P .success).stateId = parseCapsuleState := by
      show nextStateId P v = 1
      rw [nextStateId_of_ne (by rw [hid]; decide), hid]
    refine wp_updateBody_of_not_reached (not_reached_of_stateId (by rw [hid']; decide)) ?_
    rw [wp_smiStateMachine, activate_of_inProgress (show (v.advance P .success).activeState = _ from
      hact), hid']
    refine wp_silent_step (keeps_capsuleParse P) ((advance_spiCycles _ _).trans hspi)
      fun status w hw => ?_
    have hwspi := ((keeps_capsuleParse P).field SmmState.spiCycles hw).trans
      ((advance_spiCycles _ _).trans hspi)
    cases hst : status.isError with
    | true =>
      refine ⟨fun hc => absurd hc.1 Bool.noConfusion, fun _ => ⟨.inl ?_, ?_⟩⟩
      · exact (advance_spiCycles _ _).trans hwspi
      · exact fun hc => absurd (hst.symm.trans hc) Bool.noConfusion
    | false =>
      rw [EfiStatus.isError_eq_false] at hst
      subst hst
      have herase : ReachesErase P s₀ (w.advance P .success) := ⟨v, w, hv, hw, rfl⟩
      exact ⟨fun _ => .erase herase, fun _ => ⟨.inr ⟨_, herase⟩, fun _ => ⟨_, herase⟩⟩⟩
  | erase he =>
    have htriv : ∀ u, SilentUnlessErase P s₀ u := fun u => .inr ⟨_, he⟩
    unfold Exec.wp
    cases updateBody P () t with
    | stop w u => exact htriv u
    | ret r u =>
      cases r with
      | inl _ => exact .erase he
      | inr status => exact ⟨htriv u, fun _ => ⟨_, he⟩⟩

theorem wp_updateLoop_silent (hstart : s₀.activeState = .start) (hclear : s₀.TableClear) :
    (updateLoop P).wp (fun status u => SilentUnlessErase P s₀ u ∧
        (status.isError = false → ∃ e, ReachesErase P s₀ e))
      (fun _ u => SilentUnlessErase P s₀ u) s₀ := by
  refine Exec.wp_loop (fun _ t => Underway P s₀ t) (fun _ t h => ?_) (fun _ t h => h.silent hstart) _
    .challenge
  refine Exec.wp_mono (wp_updateBody_underway hstart hclear h) ?_ (fun _ _ e => e)
  rintro (_ | status) u hu <;> exact hu

end

/-! ## The last fragment -/

theorem Launches.spiCycles_eq {info : Nat} {s t : SmmState} (h : Launches P info s t) :
    t.spiCycles = s.spiCycles := by
  obtain ⟨u, hu, ht⟩ := h
  have e := (keeps_validateMfh P _).field SmmState.spiCycles hu
  exact ht.spiCycles_eq.trans e

theorem wp_finishSvnUpdate_of_error {status : EfiStatus} (h : status.isError = true)
    {Q : EfiStatus → SmmState → Prop} {E : Stop → SmmState → Prop} {s : SmmState}
    (hQ : Q status s) (hE : E .deadLoop s) : (finishSvnUpdate P status).wp Q E s := by
  unfold finishSvnUpdate
  rw [Exec.wp_bind, Exec.wp_get, Exec.wp_bind, if_neg (fun hc => by rw [h] at hc; cases hc.1),
    Exec.wp_pure, Exec.wp_bind, Exec.wp_get, Exec.wp_bind, Exec.wp_when, wp_assert]
  exact ⟨fun _ => ⟨fun _ => hQ, fun _ => hE⟩, fun _ => hQ⟩

def SmmState.intakeAndTail (P : Platform) (s : SmmState) :
    List IntakeEvent × (Nat → StateMachinePrivateData) :=
  (s.intake, (s.updateMask P).stateMachinePrivateData)

theorem wp_processCapsule_reset {info : Nat} {r : SmmState} (hclear : r.TableClear) :
    (processCapsule P info).wp (fun _ u => u.bufferOffset = 0 ∧ u.intake = r.intake ++ [.reset] ∧
      u.TableClear) (fun _ _ => True) r := by
  have hreset : ∀ t : SmmState, t.intakeAndTail P = r.intakeAndTail P →
      (resetStateMachineDataStructures P).wp (fun _ u => u.bufferOffset = 0 ∧
        u.intake = r.intake ++ [.reset] ∧ u.TableClear) (fun _ _ => True) t := by
    intro t e
    have hint : t.intake = r.intake := congrArg Prod.fst e
    refine ⟨rfl, by rw [← hint], fun i => ?_⟩
    have he := congrFun (congrArg Prod.snd e) i
    show (if i < P.maxBlockNumber then StateMachinePrivateData.zero
      else t.stateMachinePrivateData i).isValid = false
    change (if i < P.maxBlockNumber then StateMachinePrivateData.zero
      else t.stateMachinePrivateData i) = _ at he
    rw [he]
    show (if i < P.maxBlockNumber then StateMachinePrivateData.zero
      else r.stateMachinePrivateData i).isValid = false
    split
    · rfl
    · exact hclear i
  have hframe : (validateMfh P (newMfhSourceOffset (r.rd P) info)).Keeps
      (SmmState.intakeAndTail P) :=
    (keeps_validateMfh P _).of_comp fun s => s.intakeAndTail P
  unfold processCapsule
  rw [Exec.wp_bind, Exec.wp_get, Exec.wp_bind, wp_assert]
  refine ⟨fun _ => ?_, fun _ => trivial⟩
  rw [Exec.wp_bind]
  refine hframe.wp_of (fun status u _ hu => ?_) (fun _ _ _ => trivial)
  rw [Exec.wp_bind]
  refine Exec.Keeps.wp_of (f := SmmState.intakeAndTail P) (.ite (.pure _) ?_)
    (fun status' v _ hv => ?_) (fun _ _ _ => trivial)
  · exact (keeps_updateCapsule P).of_comp fun s => (s.intake, s.stateMachinePrivateData)
  · rw [Exec.wp_bind]
    refine Exec.Keeps.wp_of (f := SmmState.intakeAndTail P) ?_ (fun status'' w _ hw => ?_)
      (fun _ _ _ => trivial)
    · exact (keeps_finishSvnUpdate P _).of_comp fun s => (s.intake, s.stateMachinePrivateData)
    · rw [Exec.wp_bind]
      exact hreset w (hw.trans (hv.trans hu))

theorem wp_processCapsule_silent {info : Nat} {r : SmmState} (hclear : r.TableClear)
    (hno : ¬ ∃ t, Launches P info r t) :
    (processCapsule P info).wp (fun _ u => u.spiCycles = r.spiCycles)
      (fun _ u => u.spiCycles = r.spiCycles) r := by
  unfold processCapsule
  rw [Exec.wp_bind, Exec.wp_get, Exec.wp_bind, wp_assert]
  refine ⟨fun _ => ?_, fun _ => rfl⟩
  rw [Exec.wp_bind]
  refine (keeps_validateMfh P _).wp_of (fun status u hu hmask => ?_)
    (fun _ u e => (congrArg SmmState.spiCycles e :))
  have hspi : u.spiCycles = r.spiCycles := (congrArg SmmState.spiCycles hmask :)
  have htab := (congrArg SmmState.stateMachinePrivateData hmask :)
  have huc : u.launch.TableClear := fun i => by
    have hi := congrFun htab i
    exact (congrArg StateMachinePrivateData.isValid hi).trans (hclear i)
  -- a failed status passes through the SVN check point and the reset
  have hfailed : ∀ (status : EfiStatus) (v : SmmState), status.isError = true →
      v.spiCycles = r.spiCycles →
      (finishSvnUpdate P status >>= fun status => resetStateMachineDataStructures P >>= fun _ =>
        pure (if status.isError then some status else none) : Exec SmmState _).wp
        (fun _ u => u.spiCycles = r.spiCycles) (fun _ u => u.spiCycles = r.spiCycles) v := by
    intro status v hst hv
    rw [Exec.wp_bind]
    exact wp_finishSvnUpdate_of_error hst hv hv
  rw [Exec.wp_bind]
  cases hst : status.isError with
  | true =>
    rw [if_pos rfl, Exec.wp_pure]
    exact hfailed status u hst hspi
  | false =>
    rw [if_neg Bool.false_ne_true]
    rw [EfiStatus.isError_eq_false] at hst
    subst hst
    have hnever : ¬ ∃ e, ReachesErase P u.launch e := by
      rintro ⟨e, v, w, hv, hw, rfl⟩
      exact hno ⟨_, u, hu, v, w, hv, hw, rfl⟩
    have hstart : u.launch.activeState = .start := rfl
    refine Exec.wp_mono (wp_updateLoop_silent hstart huc) ?_ ?_
    · rintro status v ⟨hs, hok⟩
      have hv : v.spiCycles = r.spiCycles := (hs.resolve_right hnever).trans hspi
      cases hst : status.isError with
      | true => exact hfailed status v hst hv
      | false => exact absurd (hok hst) hnever
    · intro w v hs
      exact (hs.resolve_right hnever).trans hspi

/-! ## Reassembly of a capsule over several SMIs

Between SMIs the driver is quiet: the buffer holds what was received, and no block is recorded. The
fragment loop keeps this, and an SMI in which the flash is touched has received a whole capsule.
-/

variable {P : Platform}

/-! ## The received bytes -/

theorem reassembled_accepted (intake : List IntakeEvent) (data : List UInt8) :
    reassembled (intake ++ [.accepted data]) = reassembled intake ++ data := by
  unfold reassembled
  rw [List.foldl_append]
  rfl

theorem reassembled_reset (intake : List IntakeEvent) :
    reassembled (intake ++ [.reset]) = [] := by
  unfold reassembled
  rw [List.foldl_append]
  rfl

structure SmmState.Quiet (P : Platform) (s : SmmState) : Prop where
  assembled : s.Assembled P
  bounded : s.bufferOffset ≤ P.pcdMaxSizeNonPopulateCapsule
  clear : s.TableClear

theorem quiet_of_reset {s : SmmState} {intake : List IntakeEvent} (ho : s.bufferOffset = 0)
    (hi : s.intake = intake ++ [.reset]) (hc : s.TableClear) : s.Quiet P := by
  refine ⟨?_, by omega, hc⟩
  unfold SmmState.Assembled
  rw [ho, hi, reassembled_reset]
  rfl

theorem SmmState.Quiet.of_ram {s t : SmmState} (h : s.Quiet P)
    (hram : ∀ k < s.bufferOffset, t.ram (P.capsuleSmmBuffer + k) = s.ram (P.capsuleSmmBuffer + k))
    (ho : t.bufferOffset = s.bufferOffset) (hi : t.intake = s.intake)
    (htab : t.stateMachinePrivateData = s.stateMachinePrivateData) : t.Quiet P := by
  refine ⟨?_, by rw [ho]; exact h.bounded, ?_⟩
  · unfold SmmState.Assembled
    rw [ho, hi, ← h.assembled]
    refine Mem.bytes_congr fun k hk => ?_
    have hb := h.bounded
    rw [u32_of_lt (buffer_add_lt (by omega))]
    exact hram k hk
  · unfold SmmState.TableClear
    rw [htab]
    exact h.clear

theorem wr32_buffer {m : Mem} {a n v : Nat} (h : P.OutsideBuffer a n) {i : Nat} (hi : i + 4 ≤ n)
    {k : Nat} (hk : k < P.pcdMaxSizeNonPopulateCapsule) :
    m.wr32 (a + i) v (P.capsuleSmmBuffer + k) = m (P.capsuleSmmBuffer + k) := by
  refine Mem.wr32_outside m (fun j hj => ?_) (buffer_add_lt (by omega))
  have hout := h (i + j) (by omega)
  rw [← Nat.add_assoc] at hout
  omega

/-! ## One fragment -/

section

variable {s : SmmState} {fragment : Nat}

theorem copied_rd_outside (hfit : s.bufferOffset + fragmentSize (s.rd P) fragment ≤
      P.pcdMaxSizeNonPopulateCapsule) {x : Nat} (hx : x < 0x100000000)
    (hout : x < P.capsuleSmmBuffer ∨ P.capsuleSmmBuffer + P.pcdMaxSizeNonPopulateCapsule ≤ x) :
    (s.copied P fragment).rd P x = s.rd P x := by
  have hb := P.buffer_below_flash
  have hf := P.flash_base.2
  have hdst := buffer_add_lt (P := P) (k := s.bufferOffset) (by omega)
  unfold SmmState.rd
  split
  · rfl
  · show s.ram.copy (s.rd P) _ _ _ x = s.ram x
    rw [u32_of_lt hdst]
    exact Mem.copy_outside _ _ _ hdst (by omega) hx (by omega)

theorem copied_rd32 (hout : P.OutsideBuffer fragment sizeofCapsuleFragment)
    (hfit : s.bufferOffset + fragmentSize (s.rd P) fragment ≤ P.pcdMaxSizeNonPopulateCapsule)
    {i : Nat} (hi : i + 4 ≤ sizeofCapsuleFragment) :
    ((s.copied P fragment).rd P).rd32 (fragment + i) = (s.rd P).rd32 (fragment + i) := by
  refine Mem.rd32_congr fun k hk => ?_
  have ho := hout (i + k) (by omega)
  rw [← Nat.add_assoc] at ho
  exact copied_rd_outside hfit (u32_lt _) ho

theorem received_bufferOffset (h : FragmentSound P s fragment) (hacc : Accepts P s fragment) :
    (s.received P fragment).bufferOffset = s.bufferOffset + fragmentSize (s.rd P) fragment := by
  have hsize : fragmentSize ((s.copied P fragment).rd P) fragment = fragmentSize (s.rd P) fragment :=
    copied_rd32 (h.entry_outside hacc.1) (hacc.fits (h.no_wrap hacc)) (i := 12) (by decide)
  show u32 (s.bufferOffset + fragmentSize ((s.copied P fragment).rd P) fragment) = _
  rw [hsize, u32_of_lt (h.no_wrap hacc)]

theorem isLast_received (h : FragmentSound P s fragment) (hacc : Accepts P s fragment) :
    IsLast P (s.received P fragment) fragment ↔ IsLast P s fragment := by
  have hflags : fragmentFlags ((s.copied P fragment).rd P) fragment =
      fragmentFlags (s.rd P) fragment :=
    copied_rd32 (h.entry_outside hacc.1) (hacc.fits (h.no_wrap hacc)) (i := 16) (by decide)
  show fragmentFlags ((s.copied P fragment).rd P) fragment &&& 1 = 1 ↔ _
  rw [hflags]
  exact Iff.rfl

theorem SmmState.Quiet.received (hq : s.Quiet P) (h : FragmentSound P s fragment)
    (hacc : Accepts P s fragment) : (s.received P fragment).Quiet P := by
  have hfit := hacc.fits (h.no_wrap hacc)
  have hdst := buffer_add_lt (P := P) (k := s.bufferOffset) (by omega)
  have hend := buffer_add_lt (P := P) (k := s.bufferOffset + fragmentSize (s.rd P) fragment) hfit
  have hoff := received_bufferOffset h hacc
  refine ⟨?_, by rw [hoff]; exact hfit, hq.clear⟩
  unfold SmmState.Assembled
  rw [hoff, Mem.bytes_append]
  show _ = reassembled (s.intake ++ [.accepted _])
  rw [reassembled_accepted, ← hq.assembled]
  show Mem.bytes (s.ram.copy (s.rd P) (u32 (P.capsuleSmmBuffer + s.bufferOffset)) _ _) _ _ ++
    Mem.bytes (s.ram.copy (s.rd P) (u32 (P.capsuleSmmBuffer + s.bufferOffset)) _ _) _ _ = _
  rw [u32_of_lt hdst]
  congr 1
  · refine Mem.bytes_congr fun k hk => ?_
    have hlt : P.capsuleSmmBuffer + k < 0x100000000 := by omega
    rw [u32_of_lt hlt]
    exact Mem.copy_outside _ _ _ hdst (by omega) hlt (.inl (by omega))
  · refine List.map_congr_left fun k hk => ?_
    have hk := List.mem_range.mp hk
    have hlt : P.capsuleSmmBuffer + s.bufferOffset + k < 0x100000000 := by omega
    show s.ram.copy _ _ _ _ (u32 _) = _
    rw [u32_of_lt hlt]
    exact Mem.copy_inside _ _ _ hk hlt

end

/-! ## One SMI -/

/-- The loop heads of an SMI served in `s`. -/
structure AtHead (P : Platform) (s t : SmmState) : Prop where
  quiet : t.Quiet P
  spiCycles_eq : t.spiCycles = s.spiCycles
  flash_eq : t.flash = s.flash

/-- The SPI operations of an SMI come after a last fragment that completes a capsule which passes the
challenge and the parse. -/
def Covered (P : Platform) (event : SmmEvent) (s u : SmmState) : Prop :=
  u.spiCycles = s.spiCycles ∨
    ∃ fragment t t', event.TakesUp P s fragment t ∧ Accepts P t fragment ∧
      IsLast P (t.received P fragment) fragment ∧ (t.received P fragment).WholeCapsule P ∧
      Launches P event.info (t.received P fragment) t' ∧ t'.spiCycles = s.spiCycles

section

variable {event : SmmEvent} {s : SmmState}

theorem atHead_setup (hq : s.Quiet P) (he : EventSound P event s) {memory : Mem} {smi : SoftwareSmi}
    {t : SmmState} (hev : event = .softwareSmi memory smi)
    (ht : setupRequest P (u32 smi.ebx) { s with ram := memory } = .ret () t) : AtHead P s t := by
  have hk := keeps_setupRequest (P := P) (u32 smi.ebx)
  have hram : t.ram = memory := hk.field SmmState.ram ht
  have hoff := hk.field SmmState.bufferOffset ht
  have hint := hk.field SmmState.intake ht
  have htab := hk.field SmmState.stateMachinePrivateData ht
  have hspi := hk.field SmmState.spiCycles ht
  have hflash := hk.field SmmState.flash ht
  refine ⟨hq.of_ram ?_ hoff hint htab, hspi, hflash⟩
  rw [hram]
  exact he.buffer_kept memory smi hev

theorem wp_fragmentBody_head {fragment : Nat} {t : SmmState} (hsound : FragmentSound P t fragment)
    (htake : event.TakesUp P s fragment t) (hh : AtHead P s t) :
    (fragmentBody P event.info fragment).wp (fun r t' => match r with
        | .inl _ => AtHead P s t'
        | .inr _ => t'.Quiet P ∧ Covered P event s t')
      (fun _ t' => Covered P event s t') t := by
  have hrej : ∀ status, (t.rejected event.info status).Quiet P ∧
      Covered P event s (t.rejected event.info status) := fun status =>
    ⟨quiet_of_reset rfl rfl hh.quiet.clear, .inl hh.spiCycles_eq⟩
  refine wp_fragmentBody (fun _ => ⟨hh.quiet, .inl hh.spiCycles_eq⟩) (fun _ _ => hrej _)
    (fun _ _ _ => hrej _) (fun _ _ _ _ => .inl hh.spiCycles_eq) (fun hacc _ => ?_) fun hacc hlast => ?_
  · exact ⟨hh.quiet.received hsound hacc, hh.spiCycles_eq, hh.flash_eq⟩
  · have hrq := hh.quiet.received hsound hacc
    have hwhole : (t.received P fragment).WholeCapsule P := by
      refine ⟨hrq.assembled, ?_⟩
      rw [received_bufferOffset hsound hacc]
      exact hsound.completes hacc ((isLast_received hsound hacc).mp hlast)
    have hcov : (processCapsule P event.info).wp (fun _ => Covered P event s)
        (fun _ => Covered P event s) (t.received P fragment) := by
      by_cases hL : ∃ t', Launches P event.info (t.received P fragment) t'
      · obtain ⟨t', hL⟩ := hL
        have hc : ∀ u, Covered P event s u := fun u => .inr ⟨fragment, t, t', htake, hacc, hlast,
          hwhole, hL, hL.spiCycles_eq.trans hh.spiCycles_eq⟩
        unfold Exec.wp
        split <;> exact hc _
      · exact Exec.wp_mono (wp_processCapsule_silent hrq.clear hL)
          (fun _ _ e => .inl (e.trans hh.spiCycles_eq)) (fun _ _ e => .inl (e.trans hh.spiCycles_eq))
    refine Exec.wp_mono (Exec.wp_and (wp_processCapsule_reset hrq.clear) hcov) ?_ (fun _ _ e => e.2)
    rintro r u ⟨⟨ho, hi, hc⟩, hcov⟩
    exact ⟨quiet_of_reset ho hi hc, hcov⟩

theorem wp_getCap_quiet {memory : Mem} {a : Nat} (hq : s.Quiet P)
    (hkept : ∀ k < s.bufferOffset, memory (P.capsuleSmmBuffer + k) = s.ram (P.capsuleSmmBuffer + k))
    (hout : P.OutsideBuffer a sizeofUpdateStatusPacket) :
    (getCap P a).wp (fun _ t => t.Quiet P ∧ Covered P event s t) (fun _ t => Covered P event s t)
      { s with ram := memory } := by
  unfold getCap
  rw [Exec.wp_ite]
  have hb := hq.bounded
  refine ⟨fun _ => ⟨hq.of_ram hkept rfl rfl rfl, .inl rfl⟩, fun _ => ⟨?_, .inl rfl⟩⟩
  refine hq.of_ram (fun k hk => ?_) rfl rfl rfl
  have h8 := fun m v => wr32_buffer (m := m) (v := v) hout (i := 8) (by decide) (k := k) (by omega)
  have h0 := fun m v => wr32_buffer (m := m) (v := v) hout (i := 0) (by decide) (k := k) (by omega)
  have h4 := fun m v => wr32_buffer (m := m) (v := v) hout (i := 4) (by decide) (k := k) (by omega)
  exact (h4 _ _).trans ((h0 _ _).trans ((h8 _ _).trans (hkept k hk)))

theorem wp_smmStep_quiet (hq : s.Quiet P) (he : EventSound P event s) :
    (smmStep P event).wp (fun _ t => t.Quiet P ∧ Covered P event s t)
      (fun _ t => Covered P event s t) s := by
  have hb := hq.bounded
  refine wp_smmStep (AtHead P s) (fun t => t.Quiet P ∧ Covered P event s t)
    ⟨hq.of_ram (fun _ _ => rfl) rfl rfl rfl, .inl rfl⟩ ?_ ?_ ?_ ?_ ?_ ?_
    (fun t ht => .inl ht.spiCycles_eq)
  · intro memory smi hev status
    exact ⟨hq.of_ram (he.buffer_kept memory smi hev) rfl rfl rfl, .inl rfl⟩
  · intro memory smi hev status
    refine ⟨hq.of_ram (fun k hk => ?_) rfl rfl rfl, .inl rfl⟩
    have h8 := wr32_buffer (m := memory) (v := status.code) (he.status_outside memory smi hev) (i := 8)
      (by decide) (k := k) (by omega)
    exact h8.trans (he.buffer_kept memory smi hev k hk)
  · intro memory smi hev
    exact wp_getCap_quiet hq (he.buffer_kept memory smi hev) (he.status_outside memory smi hev)
  · intro memory smi t hev ht
    exact atHead_setup hq he hev ht
  · intro memory smi fragment t hev htake hh
    have hinfo : u32 smi.ebx = event.info := by rw [hev]; rfl
    rw [hinfo]
    refine Exec.wp_mono (wp_fragmentBody_head (he.fragments fragment t htake) htake hh) ?_
      (fun _ _ e => e)
    rintro (f | (_ | status)) t' h' <;> exact h'
  · rintro memory smi t hev ⟨htq, hcov⟩
    have htb := htq.bounded
    refine ⟨htq.of_ram (fun k hk => ?_) rfl rfl rfl, hcov⟩
    exact wr32_buffer (he.status_outside memory smi hev) (i := 8) (by decide) (by omega)

theorem atHead_of_takesUp (hq : s.Quiet P) (he : EventSound P event s) {fragment : Nat}
    {t : SmmState} (htake : event.TakesUp P s fragment t) : AtHead P s t := by
  cases event with
  | endOfDxe => exact htake.elim
  | softwareSmi memory smi =>
    obtain ⟨h₁, h₂, h₃, h₄, h₅, t₀, ht₀, hv⟩ := htake
    suffices key : ∀ y, Exec.Visits (fragmentBody P (u32 smi.ebx))
        (capsuleLocation (SmmState.rd P { s with ram := memory }) (u32 smi.ebx), t₀) y →
        AtHead P s y.2 from key _ hv
    intro y hy
    induction hy with
    | refl => exact atHead_setup hq he rfl ht₀
    | tail hvis hit ih =>
      rename_i b c
      have htake : SmmEvent.TakesUp P (.softwareSmi memory smi) s b.1 b.2 :=
        ⟨h₁, h₂, h₃, h₄, h₅, t₀, ht₀, hvis⟩
      have hwp := wp_fragmentBody_head (he.fragments _ _ htake) htake ih
      have hc := Exec.wp_of_ret hwp hit
      exact hc

theorem misfit_refused (info : Nat) {fragment : Nat} {t : SmmState}
    (hsound : FragmentSound P t fragment) (hmis : Misfit P t fragment) :
    ∃ status, fragmentBody P info fragment t = .ret (.inr (some status)) (t.rejected info status) ∧
      status.isError = true := by
  have hwp : (fragmentBody P info fragment).wp
      (fun r t' => ∃ status, r = .inr (some status) ∧ t' = t.rejected info status ∧
        status.isError = true) (fun _ _ => False) t := by
    have hnot : ¬ Accepts P t fragment := by
      intro hacc
      have hfit := hacc.fits (hsound.no_wrap hacc)
      rcases hmis.2 with h | h
      · exact h hacc.2.1
      · omega
    refine wp_fragmentBody (fun h => absurd hmis.1 h) (fun _ _ => ⟨_, rfl, rfl, rfl⟩)
      (fun _ _ _ => ⟨_, rfl, rfl, rfl⟩) (fun hf ho ha hlt => ?_) (fun h => absurd h hnot)
      (fun h => absurd h hnot)
    have hfit := hsound.no_assert hf ha ho
    have hmax := buffer_add_lt (P := P) (k := P.pcdMaxSizeNonPopulateCapsule) le_rfl
    rw [u32_of_lt (by omega)] at hlt
    omega
  unfold Exec.wp at hwp
  cases hx : fragmentBody P info fragment t with
  | stop w t' => rw [hx] at hwp; exact hwp.elim
  | ret r t' =>
    rw [hx] at hwp
    obtain ⟨status, rfl, rfl, hst⟩ := hwp
    exact ⟨status, rfl, hst⟩

theorem reassembles_of_sound (hq : s.Quiet P) (he : EventSound P event s) :
    Reassembles P event s where
  assembled := fun status t h => (Exec.wp_of_ret (wp_smmStep_quiet hq he) h).1.assembled
  refuses := by
    intro fragment t htake hmis
    have hh := atHead_of_takesUp hq he htake
    obtain ⟨status, hbody, hst⟩ := misfit_refused event.info (he.fragments _ _ htake) hmis
    exact ⟨status, _, hbody, hst, rfl, hh.flash_eq, hh.spiCycles_eq⟩
  launches := by
    intro hne
    have hcov : Covered P event s (smmStep P event s).state :=
      Exec.wp_state (Exec.wp_mono (wp_smmStep_quiet hq he) (fun _ _ h => h.2) (fun _ _ h => h))
    exact hcov.resolve_left hne

end

/-! ## Runs -/

theorem Started.quiet {s : SmmState} (h : Started P s) : s.Quiet P := by
  obtain ⟨ram, flash, hs⟩ := h
  have hk := keeps_smiFlashDxeEntry (P := P)
  have hoff : s.bufferOffset = 0 := hk.field SmmState.bufferOffset hs
  have hint : s.intake = [] := hk.field SmmState.intake hs
  have htab := hk.field SmmState.stateMachinePrivateData hs
  refine ⟨?_, by omega, fun i => ?_⟩
  · unfold SmmState.Assembled
    rw [hoff, hint]
    rfl
  · exact congrArg StateMachinePrivateData.isValid (congrFun htab i)

/-- In every run of sound events the capsule is reassembled, misfits are refused, and the flash is
touched only on a whole capsule that passed the challenge and the parse. -/
theorem run_reassembles {s₀ : SmmState} (h₀ : Started P s₀) (events : List SmmEvent)
    (he : Exec.EachMeets (smmStep P) (EventSound P) events s₀) :
    Exec.EachMeets (smmStep P) (Reassembles P) events s₀ := by
  refine Exec.EachMeets.of_invariant (I := SmmState.Quiet P) (E := fun _ _ => True)
    (fun e s hs hC => ?_) (fun e s hs hC => reassembles_of_sound hs hC) events s₀ he h₀.quiet
  exact Exec.wp_mono (wp_smmStep_quiet hs hC) (fun _ _ h => h.1) (fun _ _ _ => trivial)

/-! ## A capsule of one block -/

/-- A capsule at `a` with one hint: the block at offset `0x160` goes to the start of the flash. -/
def oneBlockCapsule (a : Nat) : List (Nat × Nat) :=
  [(a, 0xd400d1e4), (a + 4, 0x442ba314), (a + 8, 0x2ea9ed89), (a + 12, 0xcb97814c),
   (a + 16, 0x20), (a + 20, 0), (a + 24, 0x1160),
   (a + 0x20, 0xFF800000), (a + 0x24, 0x1000), (a + 0x28, 0x160)]

/-- The memory of a caller with the capsule at `0x6000`, one fragment of it, and the buffer as it is
once the capsule has been copied there. -/
def oneBlockMemory (offset size flags : Nat) : Mem :=
  Mem.ofWords ([(0x4000, 0x5000), (0x4004, size),
    (0x5000, 0x6000), (0x5008, offset), (0x500C, size), (0x5010, flags)] ++
    oneBlockCapsule 0x6000 ++ oneBlockCapsule 0x10000)

def releasePlatform : Platform := { Platform.sample with debugAssertEnabled := false }

def continues {σ ℓ ρ : Type} : Outcome σ (ℓ ⊕ ρ) → Bool
  | .ret (.inl _) _ => true
  | _ => false

theorem takesUp_first {P : Platform} {s : SmmState} {memory : Mem} {smi : SoftwareSmi} {fragment : Nat}
    {t : SmmState} (h : SmmEvent.TakesUp P (.softwareSmi memory smi) s fragment t)
    (hend : continues (fragmentBody P (u32 smi.ebx)
      (capsuleLocation (SmmState.rd P { s with ram := memory }) (u32 smi.ebx))
      (setupRequest P (u32 smi.ebx) { s with ram := memory }).state) = false) :
    fragment = capsuleLocation (SmmState.rd P { s with ram := memory }) (u32 smi.ebx) ∧
      t = (setupRequest P (u32 smi.ebx) { s with ram := memory }).state := by
  obtain ⟨-, -, -, -, -, t₀, ht₀, hv⟩ := h
  rw [ht₀] at hend ⊢
  rcases hv.head_or with h | ⟨z, hz, -⟩
  · injection h with hf ht
    exact ⟨hf, ht⟩
  · unfold Exec.Iterates at hz
    change continues (fragmentBody P _ _ t₀) = false at hend
    rw [hz] at hend
    cases hend

theorem run_reassembles_one_block :
    Exec.EachMeets (smmStep releasePlatform) (Reassembles releasePlatform)
      [updateSmi (oneBlockMemory 0 0x1160 1)]
      (startedState releasePlatform (fun _ => 0) fun _ => 0) := by
  refine run_reassembles ⟨_, _, rfl⟩ _ ⟨⟨?_, ?_, ?_⟩, fun _ _ _ => trivial⟩
  · intro memory smi _ k hk
    exact absurd hk (Nat.not_lt_zero k)
  · intro memory smi h
    injection h with _ h
    rw [← h]
    unfold Platform.OutsideBuffer
    decide +kernel
  · intro fragment t htake
    obtain ⟨rfl, rfl⟩ := takesUp_first htake (by decide +kernel)
    refine ⟨fun _ => ?_, fun _ => by decide +kernel, fun _ h => absurd h (by decide),
      fun _ _ => by decide +kernel⟩
    unfold Platform.OutsideBuffer
    decide +kernel

/-- A capsule is received, a fragment out of sequence drops it, and then the first byte alone is
sent again, marked as the last fragment. -/
def staleCapsule : List SmmEvent :=
  [updateSmi (oneBlockMemory 0 0x1160 0), updateSmi (oneBlockMemory 5 0x1160 0),
    updateSmi (oneBlockMemory 0 1 1)]

/-- The capsule that was dropped is still in the buffer, and the flash is updated from it although
one byte has been received. -/
theorem stale_capsule_launched :
    Started releasePlatform (startedState releasePlatform (fun _ => 0) fun _ => 0) ∧
      ¬ Exec.EachMeets (smmStep releasePlatform) (Reassembles releasePlatform) staleCapsule
        (startedState releasePlatform (fun _ => 0) fun _ => 0) := by
  refine ⟨⟨_, _, rfl⟩, fun h => ?_⟩
  have ha := Outcome.eq_ret (a := .success)
    (o := smmStep releasePlatform (updateSmi (oneBlockMemory 0 0x1160 0))
      (startedState releasePlatform (fun _ => 0) fun _ => 0)) (by decide +kernel)
  have h₂ := h.2 _ _ ha
  have hb := Outcome.eq_ret (a := .invalidParameter)
    (o := smmStep releasePlatform (updateSmi (oneBlockMemory 5 0x1160 0))
      (smmStep releasePlatform (updateSmi (oneBlockMemory 0 0x1160 0))
        (startedState releasePlatform (fun _ => 0) fun _ => 0)).state) (by decide +kernel)
  have h₃ := (h₂.2 _ _ hb).1
  obtain ⟨fragment, t, t', htake, -, -, hwhole, -⟩ := h₃.launches (by decide +kernel)
  obtain ⟨rfl, rfl⟩ := takesUp_first htake (by decide +kernel)
  exact absurd hwhole.2 (by decide +kernel)

end Quark.SmiFlash
