import Quark.SmmDispatcher.Spec
import Quark.SmmDispatcher.Proofs.SourceProofs
import Mathlib.Data.List.TakeWhile

/-!
# SMIs that the dispatcher loses

A call of the dispatcher serves the first active source of the database. It then writes `EOS` into `SMIS` by
a read-modify-write, which clears every other status bit there, and the loop ends since
`QNCSmmSetAndCheckEos` always reports success.
-/

namespace Quark.SmmDispatcher

open Machine Exec

variable {ae : Bool}

/-! ## Sources of records -/

theorem mem_descs_of_recordOk {r : DatabaseRecord} (h : RecordOk r) :
    r.srcDesc ∈ nullSourceDesc :: sourceDescs := by
  unfold RecordOk at h
  cases hc : r.childContext with
  | powerButton _ => simp only [hc] at h
  | qncn type =>
    simp only [hc] at h
    rw [h.1]
    unfold qncnSourceDescs
    split_ifs <;> decide
  | _ => simp only [hc] at h; rw [h.1]; decide

theorem compareSources_iff {a b : SourceDesc} (ha : a ∈ nullSourceDesc :: sourceDescs)
    (hb : b ∈ nullSourceDesc :: sourceDescs) : compareSources a b = true ↔ a = b := by
  have key : ∀ a ∈ nullSourceDesc :: sourceDescs, ∀ b ∈ nullSourceDesc :: sourceDescs,
      compareSources a b = true ↔ a = b := by decide
  exact key a ha b hb

def Shared (t : AddrType) (a : Nat) : Prop :=
  (t = .gpe ∧ (a = smis ∨ a = smie ∨ a = pmcw)) ∨ (t = .acpi ∧ a = pm1c)

instance (t : AddrType) (a : Nat) : Decidable (Shared t a) := inferInstanceAs (Decidable (_ ∨ _))

theorem regs_own {src a : SourceDesc} (hsrc : src ∈ sourceDescs)
    (ha : a ∈ nullSourceDesc :: sourceDescs) (hne : a ≠ src) (hout : ¬ InSmis src) :
    ∀ d ∈ src.enables ++ src.sts.toList, ¬ Shared d.type d.reg ∧
      ∀ e ∈ a.sts, ¬ (d.type = e.type ∧ d.reg = e.reg) := by
  have key : ∀ src ∈ sourceDescs, ∀ a ∈ nullSourceDesc :: sourceDescs, a ≠ src →
      (∃ e ∈ src.sts, e.type = .gpe ∧ e.reg = smis) ∨
        ∀ d ∈ src.enables ++ src.sts.toList, ¬ Shared d.type d.reg ∧
          ∀ e ∈ a.sts, ¬ (d.type = e.type ∧ d.reg = e.reg) := by decide
  have hin : ∀ src ∈ sourceDescs, (∃ e ∈ src.sts, e.type = .gpe ∧ e.reg = smis) → InSmis src := by
    intro src hsrc
    simp only [sourceDescs, List.mem_cons, List.not_mem_nil, or_false] at hsrc
    rcases hsrc with rfl | rfl | rfl | rfl | rfl | rfl | rfl
    · exact fun _ => ⟨1, rfl⟩
    · exact fun _ => ⟨2, rfl⟩
    · exact fun _ => ⟨4, rfl⟩
    · exact fun _ => ⟨9, rfl⟩
    · exact fun h => absurd h (by decide)
    · exact fun h => absurd h (by decide)
    · exact fun h => absurd h (by decide)
  rcases key src hsrc a ha hne with h | h
  · exact absurd (hin src hsrc h) hout
  · exact h

/-! ## The queue -/

theorem contextsMatch_record (hw : Hw) (r : DatabaseRecord) :
    ∃ elapsed, (contextsMatch hw r).2 = { r with elapsedTime := elapsed } := by
  obtain ⟨handle, src, callback, context, elapsed, clear⟩ := r
  cases context with
  | periodicTimer period tick =>
    simp only [contextsMatch]
    cases contextToTimerInterval period tick with
    | none => exact ⟨elapsed, rfl⟩
    | some interval => exact ⟨(elapsed + interval) % 2 ^ 64, rfl⟩
  | _ => exact ⟨elapsed, rfl⟩

theorem call_mem_exhaust {hw : Hw} {a : SourceDesc} {r : DatabaseRecord} :
    ∀ {rs : List DatabaseRecord}, r ∈ rs → compareSources r.srcDesc a = true →
      (contextsMatch hw r).1 = true →
      ∃ elapsed, Event.call r.handle r.callback r.childContext elapsed ∈ (exhaust hw a rs).2 := by
  intro rs
  induction rs with
  | nil => intro h; cases h
  | cons r' rs ih =>
    intro hr hsrc hmatch
    rw [exhaust]
    rcases List.mem_cons.mp hr with rfl | hr
    · obtain ⟨elapsed, he⟩ := contextsMatch_record hw r
      rw [if_pos hsrc]
      refine ⟨elapsed, ?_⟩
      simp only [hmatch, he, if_true]
      exact List.mem_cons_self
    · obtain ⟨elapsed, he⟩ := ih hr hsrc hmatch
      refine ⟨elapsed, ?_⟩
      by_cases hsrc' : compareSources r'.srcDesc a = true
      · rw [if_pos hsrc']
        by_cases hm : (contextsMatch hw r').1 = true
        · simp only [hm, if_true]
          exact List.mem_cons_of_mem _ he
        · simp only [hm, Bool.false_eq_true, if_false]
          exact he
      · rw [if_neg hsrc']
        exact he

/-! ## One call -/

/-- Clearing a source leaves the log, and the registers that are neither shared nor hold its status. -/
structure Cleared (src : SourceDesc) (s t : State) : Prop where
  log : t.log = s.log
  reg : ∀ ty a, ¬ Shared ty a → (∀ d ∈ src.sts, ¬ (ty = d.type ∧ a = d.reg)) →
    t.hw.reg ty a = s.hw.reg ty a
  sciEn : qncSmmGetSciEn t.hw = qncSmmGetSciEn s.hw

theorem sciEn_of_reg {h h' : Hw} (hreg : h'.reg .acpi pm1c = h.reg .acpi pm1c) :
    qncSmmGetSciEn h' = qncSmmGetSciEn h := by
  rw [qncSmmGetSciEn_eq, qncSmmGetSciEn_eq, hreg]

theorem pm1c_ne {src : SourceDesc} (h : src ∈ nullSourceDesc :: sourceDescs) :
    ∀ d ∈ src.enables ++ src.sts.toList, ¬ (AddrType.acpi = d.type ∧ pm1c = d.reg) := by
  have key : ∀ src ∈ nullSourceDesc :: sourceDescs, ∀ d ∈ src.enables ++ src.sts.toList,
      ¬ (AddrType.acpi = d.type ∧ pm1c = d.reg) := by decide
  exact key src h

theorem cleared_clearSource {src : SourceDesc} (h : src ∈ nullSourceDesc :: sourceDescs) (s : State) :
    Cleared src s { s with hw := qncSmmClearSource s.hw src } where
  log := rfl
  reg _ _ _ hne := reg_clearSource_ne hne
  sciEn := sciEn_of_reg (reg_clearSource_ne fun d hd =>
    pm1c_ne h d (List.mem_append_right _ (Option.mem_toList.mpr hd)))

theorem wp_programTimers (src : SourceDesc) (s : State) :
    wp (qncSmmPeriodicTimerProgramTimers ae) (fun _ t => Cleared src s t ∧ t.db = s.db)
      (fun _ _ => True) s := by
  have hsts : ∀ {ty a}, ¬ Shared ty a → ∀ d ∈ timerSourceDesc.sts, ¬ (ty = d.type ∧ a = d.reg) := by
    intro ty a hsh d hd hc
    cases hd
    exact hsh (.inl ⟨hc.1, .inl hc.2⟩)
  have hen : ∀ {ty a}, ¬ Shared ty a → ∀ d ∈ timerSourceDesc.enables, ¬ (ty = d.type ∧ a = d.reg) := by
    intro ty a hsh d hd hc
    have hd : d = ⟨.gpe, smie, .dword, 1⟩ := List.mem_singleton.mp hd
    rw [hd] at hc
    exact hsh (.inl ⟨hc.1, .inr (.inl hc.2)⟩)
  have hstart : ∀ (t : State) (v : BitVec 32), t.log = s.log → t.hw = s.hw → t.db = s.db →
      wp (startTimer v) (fun _ u => Cleared src s u ∧ u.db = s.db) (fun _ _ => True) t := by
    intro t v hlog hhw hdb
    rw [startTimer, wp_modify]
    refine ⟨⟨hlog, fun ty a hsh _ => ?_, sciEn_of_reg ?_⟩, hdb⟩
    · rw [reg_clearSource_ne (hsts hsh), Hw.ioOr, reg_ioWrite_ne, hhw]
      exact fun hc => hsh (.inl ⟨hc.1, .inr (.inr hc.2)⟩)
    · rw [reg_clearSource_ne (by decide), Hw.ioOr, reg_ioWrite_ne (by decide), hhw]
  unfold qncSmmPeriodicTimerProgramTimers
  rw [wp_bind, wp_get, wp_bind, wp_modify, wp_ite]
  refine ⟨fun _ => ?_, fun _ => ?_⟩
  · rw [wp_bind, selectRate]
    cases smmPeriodicTimerIntervals.idxOf? (scanTimers s.db).2 with
    | some index =>
      rw [wp_bind, wp_modify, wp_pure]
      exact hstart _ _ rfl rfl rfl
    | none =>
      rw [wp_bind, wp_assert]
      refine ⟨fun _ => ?_, fun _ => trivial⟩
      rw [wp_pure]
      exact hstart _ _ rfl rfl rfl
  · rw [wp_modify]
    refine ⟨⟨rfl, fun ty a hsh _ => reg_disableSource_ne (hen hsh), sciEn_of_reg ?_⟩, rfl⟩
    exact reg_disableSource_ne (by decide)

theorem wp_clearSourceOf {fn : Option ClearSourceFn} {src : SourceDesc}
    (h : src ∈ nullSourceDesc :: sourceDescs) (s : State) :
    wp (clearSourceOf ae fn src) (fun _ t => Cleared src s t) (fun _ _ => True) s := by
  have hdefault := cleared_clearSource h s
  cases fn with
  | none => exact hdefault
  | some fn =>
    cases fn with
    | qncn => exact hdefault
    | periodicTimer =>
      show wp (qncSmmPeriodicTimerProgramTimers ae >>= _) _ _ s
      rw [wp_bind]
      refine wp_mono (wp_programTimers src s) ?_ (fun _ _ h => h)
      intro _ t ht
      rw [wp_modify]
      exact ⟨ht.1.log, ht.1.reg, ht.1.sciEn⟩

/-- What a pass over `suffix` records: the first active source, and the calls of its children. -/
def passEvents (hw : Hw) (suffix : List DatabaseRecord) : List Event :=
  match suffix.dropWhile fun r => !sourceIsActive hw r.srcDesc with
  | [] => []
  | r :: rs => .active r.srcDesc :: (exhaust hw r.srcDesc (r :: rs)).2

def passSource (hw : Hw) (suffix : List DatabaseRecord) : SourceDesc :=
  match suffix.dropWhile fun r => !sourceIsActive hw r.srcDesc with
  | [] => nullSourceDesc
  | r :: _ => r.srcDesc

/-- What a pass over `suffix` does: it adds its events to the log and clears its source. -/
structure Passed (suffix : List DatabaseRecord) (s t : State) : Prop where
  log : t.log = s.log ++ passEvents s.hw suffix
  reg : ∀ ty a, ¬ Shared ty a → (∀ d ∈ (passSource s.hw suffix).sts, ¬ (ty = d.type ∧ a = d.reg)) →
    t.hw.reg ty a = s.hw.reg ty a
  sciEn : qncSmmGetSciEn t.hw = qncSmmGetSciEn s.hw

theorem wp_searchPass {s : State} {l : Locals} :
    ∀ suffix before, (∀ r ∈ suffix, RecordOk r) →
      wp (searchPass ae l before suffix) (fun _ t => Passed suffix s t) (fun _ _ => True) s := by
  intro suffix
  induction suffix with
  | nil =>
    intro before _
    exact ⟨(List.append_nil _).symm, fun _ _ _ _ => rfl, rfl⟩
  | cons r rs ih =>
    intro before hok
    rw [searchPass, wp_bind, wp_get, wp_ite]
    refine ⟨fun hinactive => ?_, fun hactive => ?_⟩
    · -- an inactive record is passed over
      have hdrop : (r :: rs).dropWhile (fun r => !sourceIsActive s.hw r.srcDesc) =
          rs.dropWhile fun r => !sourceIsActive s.hw r.srcDesc := by
        rw [List.dropWhile_cons_of_pos]
        simpa using hinactive
      refine wp_mono (ih (before ++ [r]) fun x hx => hok x (List.mem_cons_of_mem r hx)) ?_
        (fun _ _ h => h)
      intro _ t ht
      refine ⟨?_, ?_, ht.sciEn⟩
      · rw [passEvents, hdrop]; exact ht.log
      · rw [passSource, hdrop]; exact ht.reg
    · have hact : sourceIsActive s.hw r.srcDesc = true := by simpa using hactive
      have hdrop : (r :: rs).dropWhile (fun r => !sourceIsActive s.hw r.srcDesc) = r :: rs := by
        rw [List.dropWhile_cons_of_neg]
        simp [hact]
      rw [wp_bind, wp_modify, wp_bind]
      refine wp_mono (wp_clearSourceOf (mem_descs_of_recordOk (hok r List.mem_cons_self)) _) ?_
        (fun _ _ h => h)
      intro _ t ht
      rw [wp_pure]
      refine ⟨?_, ?_, ht.sciEn⟩
      · rw [passEvents, hdrop]; exact ht.log
      · rw [passSource, hdrop]; exact ht.reg

/-- What a call does when children are registered: one pass, after which `SMIS` is clear. -/
structure Called (s t : State) : Prop where
  passed : Passed s.db s t
  smis : t.hw.reg .gpe smis = 0

theorem wp_dispatcher {s : State} (hok : ∀ r ∈ s.db, RecordOk r) (hne : s.db ≠ []) :
    wp (qncSmmCoreDispatcher ae) (fun _ t => Called s t) (fun _ _ => True) s := by
  have hempty : ¬ s.db.isEmpty = true := by simpa using hne
  unfold qncSmmCoreDispatcher dispatchChildren
  rw [wp_bind, wp_bind, wp_get, if_neg hempty, dispatchLoop, wp_bind, wp_get, wp_bind]
  refine wp_mono (wp_searchPass s.db [] hok) ?_ (fun _ _ h => h)
  intro l t ht
  rw [wp_bind, wp_get, wp_bind, wp_modify]
  -- `EOS` is set, so the loop ends here
  show wp (pure (99, l) : Exec State (Nat × Locals)) _ _ _
  rw [wp_pure]
  have hcalled : Called s { t with hw := (qncSmmSetAndCheckEos t.hw).2 } := by
    refine ⟨⟨ht.log, fun ty a hsh hsts => ?_, ?_⟩, reg_setAndCheckEos_smis⟩
    · rw [reg_setAndCheckEos_ne fun hc => hsh (.inl ⟨hc.1, .inl hc.2⟩)]
      exact ht.reg ty a hsh hsts
    · rw [← ht.sciEn]
      exact sciEn_of_reg (reg_setAndCheckEos_ne (by decide))
  show wp (assert ae (99 > 0) >>= _) _ _ _
  rw [wp_bind, wp_assert]
  refine ⟨fun _ => ?_, fun _ => trivial⟩
  rw [wp_bind, wp_when]
  refine ⟨fun _ => ?_, fun _ => hcalled⟩
  rw [wp_modify, wp_pure]
  refine ⟨⟨hcalled.passed.log, fun ty a hsh hsts => ?_, ?_⟩, reg_sxGoToSleep_smis hcalled.smis⟩
  · rw [reg_sxGoToSleep_ne (fun hc => hsh (.inl ⟨hc.1, .inl hc.2⟩))
      (fun hc => hsh (.inl ⟨hc.1, .inr (.inl hc.2)⟩)) (fun hc => hsh (.inr hc))]
    exact hcalled.passed.reg ty a hsh hsts
  · rw [qncSmmGetSciEn_sxGoToSleep]
    exact hcalled.passed.sciEn

/-! ## What is lost -/

theorem firstActive_eq_head? (s : State) :
    firstActive s = (s.db.dropWhile fun r => !sourceIsActive s.hw r.srcDesc).head? :=
  List.find?_eq_head?_dropWhile_not _ _

theorem active_not_mem_exhaust {hw : Hw} {a b : SourceDesc} :
    ∀ rs : List DatabaseRecord, Event.active b ∉ (exhaust hw a rs).2 := by
  intro rs
  induction rs with
  | nil => exact List.not_mem_nil
  | cons r rs ih =>
    rw [exhaust]
    split
    · intro h
      dsimp only at h
      split at h
      · rcases List.mem_cons.mp h with h | h
        · cases h
        · exact ih h
      · exact ih h
    · exact ih

theorem active_mem_passEvents {s : State} {a : SourceDesc}
    (h : Event.active a ∈ passEvents s.hw s.db) :
    ∃ r, firstActive s = some r ∧ a = r.srcDesc := by
  rw [firstActive_eq_head?]
  unfold passEvents at h
  cases hd : s.db.dropWhile fun r => !sourceIsActive s.hw r.srcDesc with
  | nil => rw [hd] at h; cases h
  | cons r rs =>
    rw [hd] at h
    rcases List.mem_cons.mp h with h | h
    · injection h with h
      exact ⟨r, rfl, h⟩
    · exact absurd h (active_not_mem_exhaust _)

theorem dispatched_of_firstActive {s : State} (hok : ∀ r ∈ s.db, RecordOk r) {r : DatabaseRecord}
    (hr : firstActive s = some r) {src : SourceDesc} (hsrc : src ∈ sourceDescs)
    (hcmp : compareSources r.srcDesc src = true) : Dispatched s (passEvents s.hw s.db) src := by
  have hsrc' : src ∈ nullSourceDesc :: sourceDescs := List.mem_cons_of_mem _ hsrc
  have hmem : r ∈ s.db := List.mem_of_find?_eq_some hr
  have hactive : sourceIsActive s.hw r.srcDesc = true :=
    List.find?_some (p := fun x : DatabaseRecord => sourceIsActive s.hw x.srcDesc) hr
  have heq : r.srcDesc = src := (compareSources_iff (mem_descs_of_recordOk (hok r hmem)) hsrc').mp hcmp
  rw [firstActive_eq_head?] at hr
  obtain ⟨rs, hd⟩ : ∃ rs, s.db.dropWhile (fun r => !sourceIsActive s.hw r.srcDesc) = r :: rs :=
    List.head?_eq_some_iff.mp hr
  have hevents : passEvents s.hw s.db =
      .active r.srcDesc :: (exhaust s.hw r.srcDesc (r :: rs)).2 := by
    unfold passEvents
    rw [hd]
  rw [hevents]
  refine ⟨⟨r.srcDesc, List.mem_cons_self, hcmp⟩, ?_⟩
  intro x hx hxcmp hxmatch
  have hxeq : x.srcDesc = src := (compareSources_iff (mem_descs_of_recordOk (hok x hx)) hsrc').mp hxcmp
  -- the records before the first active one are inactive, so `x` is not among them
  rw [← List.takeWhile_append_dropWhile (p := fun r => !sourceIsActive s.hw r.srcDesc) (l := s.db), hd]
    at hx
  rcases List.mem_append.mp hx with hx | hx
  · have hinactive := List.mem_takeWhile_imp hx
    rw [hxeq, ← heq, hactive] at hinactive
    cases hinactive
  · rw [heq]
    obtain ⟨elapsed, he⟩ := call_mem_exhaust hx hxcmp hxmatch
    exact ⟨elapsed, List.mem_cons_of_mem _ he⟩

theorem dispatcher_of_empty {s : State} (h : s.db = []) :
    qncSmmCoreDispatcher ae s = .ret .interruptSourcePending s := by
  obtain ⟨db, hw, timer, next, log⟩ := s
  simp only at h
  subst h
  cases ae <;> rfl

theorem passSource_mem {s : State} (hok : ∀ r ∈ s.db, RecordOk r) :
    passSource s.hw s.db ∈ nullSourceDesc :: sourceDescs := by
  unfold passSource
  cases hd : s.db.dropWhile fun r => !sourceIsActive s.hw r.srcDesc with
  | nil => exact List.mem_cons_self
  | cons r rs =>
    have hr : r ∈ s.db := (List.dropWhile_sublist _).subset (hd ▸ List.mem_cons_self)
    exact mem_descs_of_recordOk (hok r hr)

section Call

variable {s s' : State} {st : DispatchStatus} (hok : ∀ r ∈ s.db, RecordOk r)
  (hret : qncSmmCoreDispatcher ae s = .ret st s')
include hok hret

theorem smisServed_of_noSmiLost (h : NoSmiLost s s') : SmisServed s := by
  by_cases hdb : s.db = []
  · exact .inl hdb
  have hcalled : Called s s' := wp_of_ret (Q := fun _ t => Called s t) (wp_dispatcher hok hdb) hret
  obtain ⟨events, hlog, hall⟩ := h
  refine .inr fun src hsrc hin hpend => ?_
  rw [hcalled.passed.log, List.append_cancel_left_eq] at hlog
  subst hlog
  rcases hall src hsrc hpend with h | h
  · obtain ⟨bit, hbit⟩ := hin
    have : sourceIsActive s'.hw src = false := sourceIsActive_of_zero hbit hcalled.smis
    exact absurd h (by rw [Pending, this]; decide)
  · obtain ⟨⟨a, ha, hcmp⟩, -⟩ := h
    obtain ⟨r, hr, rfl⟩ := active_mem_passEvents ha
    exact ⟨r, hr, hcmp⟩

theorem noSmiLost_of_smisServed (h : SmisServed s) : NoSmiLost s s' := by
  by_cases hdb : s.db = []
  · rw [dispatcher_of_empty hdb] at hret
    injection hret with _ hs
    subst hs
    exact ⟨[], (List.append_nil _).symm, fun _ _ h => .inl h⟩
  have hcalled : Called s s' := wp_of_ret (Q := fun _ t => Called s t) (wp_dispatcher hok hdb) hret
  have hserved := h.resolve_left hdb
  refine ⟨passEvents s.hw s.db, hcalled.passed.log, fun src hsrc hpend => ?_⟩
  by_cases hin : InSmis src
  · obtain ⟨r, hr, hcmp⟩ := hserved src hsrc hin hpend
    exact .inr (dispatched_of_firstActive hok hr hsrc hcmp)
  -- outside `SMIS` a source is dispatched, or its registers are left alone
  by_cases hown : passSource s.hw s.db = src
  · have hne : src ≠ nullSourceDesc := fun hc => by rw [hc] at hsrc; exact absurd hsrc (by decide)
    unfold passSource at hown
    cases hd : s.db.dropWhile fun r => !sourceIsActive s.hw r.srcDesc with
    | nil => rw [hd] at hown; exact absurd hown.symm hne
    | cons r rs =>
      rw [hd] at hown
      have hown' : r.srcDesc = src := hown
      have hr : firstActive s = some r := by rw [firstActive_eq_head?, hd]; rfl
      have hmem : src ∈ nullSourceDesc :: sourceDescs := List.mem_cons_of_mem _ hsrc
      exact .inr (dispatched_of_firstActive hok hr hsrc
        ((compareSources_iff (hown' ▸ hmem) hmem).mpr hown'))
  · refine .inl ?_
    have hregs := regs_own hsrc (passSource_mem hok) hown hin
    have hsame : sourceIsActive s'.hw src = sourceIsActive s.hw src :=
      sourceIsActive_congr
        (fun d hd => hcalled.passed.reg d.type d.reg (hregs d hd).1 (hregs d hd).2)
        hcalled.passed.sciEn
    rw [Pending, hsame]
    exact hpend

/-- A call of the dispatcher loses no SMI exactly when no child is registered, or the sources pending in
`SMIS` are no more than the one of the first active record. -/
theorem noSmiLost_iff_smisServed : NoSmiLost s s' ↔ SmisServed s :=
  ⟨smisServed_of_noSmiLost hok hret, noSmiLost_of_smisServed hok hret⟩

end Call

/-- A child for the software SMI `0x55` and one for a GPI, with the status bits `pending` of `SMIS` set. -/
def twoChildren (pending : BitVec 32) : State where
  db := [⟨0, swSourceDesc, 1, .sw 0x55, 0, none⟩, ⟨1, gpiSourceDesc, 2, .gpi 0, 0, none⟩]
  hw := ⟨fun t a => if t = .gpe ∧ a = smie then 0x210 else if t = .gpe ∧ a = smis then pending else 0,
    0x55⟩
  timer := ⟨0, 0, 0⟩
  nextHandle := 2
  log := []

theorem recordOk_twoChildren (pending : BitVec 32) : ∀ r ∈ (twoChildren pending).db, RecordOk r := by
  intro r hr
  simp only [twoChildren, List.mem_cons, List.not_mem_nil, or_false] at hr
  rcases hr with rfl | rfl
  · exact ⟨rfl, rfl, by decide⟩
  · exact ⟨rfl, rfl⟩

theorem dispatcher_twoChildren {p : BitVec 32}
    (h : (qncSmmCoreDispatcher true (twoChildren p)).value? = some .success) :
    ∃ s', qncSmmCoreDispatcher true (twoChildren p) = .ret .success s' :=
  ⟨_, Outcome.eq_ret h⟩

theorem noSmiLost_one_pending :
    ∃ s', qncSmmCoreDispatcher true (twoChildren 0x10) = .ret .success s' ∧
      NoSmiLost (twoChildren 0x10) s' := by
  obtain ⟨s', hs'⟩ := dispatcher_twoChildren (p := 0x10) (by decide +kernel)
  refine ⟨s', hs', (noSmiLost_iff_smisServed (recordOk_twoChildren _) hs').mpr (.inr ?_)⟩
  intro src hsrc _ hpend
  have key : ∀ src ∈ sourceDescs, sourceIsActive (twoChildren 0x10).hw src = true →
      src = swSourceDesc := by decide +kernel
  refine ⟨⟨0, swSourceDesc, 1, .sw 0x55, 0, none⟩, by decide +kernel, ?_⟩
  rw [key src hsrc hpend]
  decide

theorem smi_lost_two_pending :
    ∃ s', qncSmmCoreDispatcher true (twoChildren 0x210) = .ret .success s' ∧
      ¬ NoSmiLost (twoChildren 0x210) s' := by
  obtain ⟨s', hs'⟩ := dispatcher_twoChildren (p := 0x210) (by decide +kernel)
  refine ⟨s', hs', fun h => ?_⟩
  rcases smisServed_of_noSmiLost (recordOk_twoChildren _) hs' h with h | h
  · cases h
  · obtain ⟨r, hr, hcmp⟩ := h gpiSourceDesc (by decide) ⟨9, rfl⟩ (by unfold Pending; decide +kernel)
    have hfirst : firstActive (twoChildren 0x210) = some ⟨0, swSourceDesc, 1, .sw 0x55, 0, none⟩ := by
      decide +kernel
    rw [hfirst] at hr
    injection hr with hr
    rw [← hr] at hcmp
    exact absurd hcmp (by decide)

end Quark.SmmDispatcher
