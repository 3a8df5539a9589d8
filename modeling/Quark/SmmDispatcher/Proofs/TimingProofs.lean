import Quark.SmmDispatcher.Proofs.RegistrationProofs

/-!
# Timing of the periodic SMI

The rate is merged into `PMCW` by an OR, and the elapsed time of a child grows by the interval that the child
asked for. Both are right as long as no bit of an earlier rate is left over and all children asked for the
programmed interval.
-/

namespace Quark.SmmDispatcher

open Machine Exec

variable {ae : Bool}

/-! ## Intervals -/

def TimerChild (r : DatabaseRecord) (period tick : Nat) : Prop :=
  r.childContext = .periodicTimer period tick ∧ tick ∈ smmPeriodicTimerIntervals

def TicksSupported (db : List DatabaseRecord) : Prop := ∀ t ∈ ticks db, t ∈ smmPeriodicTimerIntervals

theorem intervals_spec {t : Nat} (h : t ∈ smmPeriodicTimerIntervals) : 0 < t ∧ t ≤ 2 ^ 64 - 1 := by
  have key : ∀ t ∈ smmPeriodicTimerIntervals, 0 < t ∧ t ≤ 2 ^ 64 - 1 := by decide
  exact key t h

theorem contextToTimerInterval_supported {period tick : Nat} (h : tick ∈ smmPeriodicTimerIntervals) :
    contextToTimerInterval period tick = some tick := by
  have hpos := (intervals_spec h).1
  have hne : tick ≠ 0 := Nat.ne_of_gt hpos
  have key : ∀ t ∈ smmPeriodicTimerIntervals,
      smmPeriodicTimerIntervals.find? (fun interval => decide (t = interval)) = some t := by decide
  unfold contextToTimerInterval
  rw [← key tick h]
  congr 1
  funext interval
  simp [hne]

theorem foldr_min_spec {M : Nat} : ∀ {l : List Nat}, l ≠ [] → (∀ x ∈ l, x ≤ M) →
    l.foldr min M ∈ l ∧ ∀ b ∈ l, l.foldr min M ≤ b := by
  intro l
  induction l with
  | nil => intro h; exact absurd rfl h
  | cons a l ih =>
    intro _ hM
    rw [List.foldr_cons]
    by_cases hl : l = []
    · subst hl
      have ha : min a M = a := Nat.min_eq_left (hM a List.mem_cons_self)
      simp [ha]
    · obtain ⟨hmem, hle⟩ := ih hl fun x hx => hM x (List.mem_cons_of_mem a hx)
      refine ⟨?_, fun b hb => ?_⟩
      · rcases Nat.le_total a (l.foldr min M) with h | h
        · rw [Nat.min_eq_left h]; exact List.mem_cons_self
        · rw [Nat.min_eq_right h]; exact List.mem_cons_of_mem a hmem
      · rcases List.mem_cons.mp hb with rfl | hb
        · exact Nat.min_le_left _ _
        · exact Nat.le_trans (Nat.min_le_right _ _) (hle b hb)

theorem scanTimers_eq {db : List DatabaseRecord} (hok : ∀ r ∈ db, RecordOk r) :
    scanTimers db = ((ticks db).length, (ticks db).foldr min (2 ^ 64 - 1)) := by
  induction db with
  | nil => rfl
  | cons r db ih =>
    have hrest := ih fun x hx => hok x (List.mem_cons_of_mem r hx)
    have hr := hok r List.mem_cons_self
    unfold RecordOk at hr
    cases hc : r.childContext with
    | periodicTimer period tick =>
      simp only [hc] at hr
      obtain ⟨interval, hint⟩ := Option.isSome_iff_exists.mp hr.2.2
      have hticks : ticks (r :: db) = tick :: ticks db := by
        simp [ticks, DatabaseRecord.tick?, hc]
      rw [hticks, scanTimers]
      simp only [hc, hint, hrest, List.length_cons, List.foldr_cons]
    | _ =>
      have hticks : ticks (r :: db) = ticks db := by simp [ticks, DatabaseRecord.tick?, hc]
      rw [hticks, scanTimers]
      simp only [hc, hrest]

theorem min?_ticks {db : List DatabaseRecord} (hok : ∀ r ∈ db, RecordOk r) (hsup : TicksSupported db)
    (hne : ticks db ≠ []) : (ticks db).min? = some (scanTimers db).2 ∧
      (scanTimers db).2 ∈ smmPeriodicTimerIntervals := by
  rw [scanTimers_eq hok]
  have hspec := foldr_min_spec hne fun t ht => (intervals_spec (hsup t ht)).2
  exact ⟨List.min?_eq_some_iff.mpr hspec, hsup _ hspec.1⟩

theorem idxOf?_interval {t : Nat} (h : t ∈ smmPeriodicTimerIntervals) :
    smmPeriodicTimerIntervals.idxOf? t = some (smmPeriodicTimerIntervals.idxOf t) := by
  have key : ∀ t ∈ smmPeriodicTimerIntervals,
      smmPeriodicTimerIntervals.idxOf? t = some (smmPeriodicTimerIntervals.idxOf t) := by decide
  exact key t h

theorem getElem?_code {t : Nat} (h : t ∈ smmPeriodicTimerIntervals) :
    smmPeriodicTimerIntervals[(BitVec.ofNat 32 (smmPeriodicTimerIntervals.idxOf t)).toNat]? = some t ∧
      BitVec.ofNat 32 (smmPeriodicTimerIntervals.idxOf t) &&& 0x7 =
        BitVec.ofNat 32 (smmPeriodicTimerIntervals.idxOf t) := by
  have key : ∀ t ∈ smmPeriodicTimerIntervals,
      smmPeriodicTimerIntervals[(BitVec.ofNat 32 (smmPeriodicTimerIntervals.idxOf t)).toNat]? = some t ∧
        BitVec.ofNat 32 (smmPeriodicTimerIntervals.idxOf t) &&& 0x7 =
          BitVec.ofNat 32 (smmPeriodicTimerIntervals.idxOf t) := by decide
  exact key t h

theorem leastCode_of_min? {l : List Nat} {m : Nat} (h : l.min? = some m) :
    leastCode l = BitVec.ofNat 32 (smmPeriodicTimerIntervals.idxOf m) := by
  rw [leastCode, h]

/-! ## The rate -/

theorem rateField_of_reg {h h' : Hw} (hreg : h'.reg .gpe pmcw = h.reg .gpe pmcw) :
    rateField h' = rateField h := by
  rw [rateField, rateField, hreg]

theorem rateField_ioOr {hw : Hw} {code : BitVec 32} (hcode : code &&& 0x7 = code) :
    rateField (hw.ioOr .gpe pmcw .dword (code ||| pmcwPse)) = rateField hw ||| code := by
  have hplain : ¬ IsStatus .gpe pmcw := by decide
  have hfull : ∀ v : BitVec 32, v &&& Width.dword.mask = v := fun v => BitVec.and_allOnes
  have hpse : pmcwPse &&& 0x7 = (0 : BitVec 32) := by decide
  have hmerge : ∀ r v : BitVec 32, merge r v Width.dword.mask = v := by
    intro r v
    apply BitVec.eq_of_getLsbD_eq
    intro i hi
    have hm : ∀ i < 32, (Width.dword.mask).getLsbD i = true := by decide
    rw [getLsbD_merge, if_pos (hm i hi)]
  rw [rateField, Hw.ioOr, reg_ioWrite_plain hplain, hmerge, Hw.ioRead, hfull]
  apply BitVec.eq_of_getLsbD_eq
  intro i hi
  have hc := congrArg (BitVec.getLsbD · i) hcode
  have hp := congrArg (BitVec.getLsbD · i) hpse
  simp only [BitVec.getLsbD_and, BitVec.getLsbD_or, rateField] at hc hp ⊢
  rw [Bool.and_or_distrib_right, Bool.and_or_distrib_right, hc, hp]
  simp

theorem wp_programTimers_rate {s : State} (hok : ∀ r ∈ s.db, RecordOk r) (hsup : TicksSupported s.db) :
    wp (qncSmmPeriodicTimerProgramTimers ae) (fun _ t =>
      rateField t.hw = rateField s.hw ||| leastCode (ticks s.db) ∧ t.db = s.db ∧ t.log = s.log ∧
        t.nextHandle = s.nextHandle) (fun _ _ => False) s := by
  unfold qncSmmPeriodicTimerProgramTimers
  rw [wp_bind, wp_get, wp_bind, wp_modify, wp_ite]
  by_cases hne : ticks s.db = []
  · have hzero : (scanTimers s.db).1 = 0 := by rw [scanTimers_eq hok, hne]; rfl
    refine ⟨fun hpos => absurd hpos (by rw [hzero]; decide), fun _ => ?_⟩
    rw [wp_modify]
    refine ⟨?_, rfl, rfl, rfl⟩
    have hsame : rateField (qncSmmDisableSource s.hw timerSourceDesc) = rateField s.hw :=
      rateField_of_reg (reg_disableSource_ne (by decide))
    rw [hne]
    exact hsame.trans (BitVec.or_zero).symm
  · obtain ⟨hmin, hmem⟩ := min?_ticks hok hsup hne
    have hpos : 0 < (scanTimers s.db).1 := by
      rw [scanTimers_eq hok]
      exact List.length_pos_iff.mpr hne
    refine ⟨fun _ => ?_, fun hc => absurd hpos hc⟩
    rw [wp_bind, selectRate]
    simp only [idxOf?_interval hmem]
    rw [wp_bind, wp_modify, wp_pure, startTimer, wp_modify]
    refine ⟨?_, rfl, rfl, rfl⟩
    rw [leastCode_of_min? hmin, ← rateField_ioOr (getElem?_code hmem).2]
    exact rateField_of_reg (reg_clearSource_ne (by decide))

theorem rateIsLeast_of_rate {s : State} (hok : ∀ r ∈ s.db, RecordOk r) (hsup : TicksSupported s.db)
    {rate : BitVec 32} (hrate : rateField s.hw = rate ||| leastCode (ticks s.db))
    (hfit : rate &&& ~~~leastCode (ticks s.db) = 0) : RateIsLeast s := by
  intro hne
  obtain ⟨hmin, hmem⟩ := min?_ticks hok hsup hne
  have hsub : rate ||| leastCode (ticks s.db) = leastCode (ticks s.db) := by
    apply BitVec.eq_of_getLsbD_eq
    intro i hi
    have hb := congrArg (BitVec.getLsbD · i) hfit
    simp only [BitVec.getLsbD_and, BitVec.getLsbD_not, hi, decide_true, Bool.true_and] at hb
    rw [BitVec.getLsbD_or]
    cases hl : (leastCode (ticks s.db)).getLsbD i
    · simpa [hl] using hb
    · simp
  rw [hrate, hsub, hmin, leastCode_of_min? hmin]
  exact (getElem?_code hmem).1

/-! ## Registration -/

theorem KeepsRecords.ticks {g : DatabaseRecord → DatabaseRecord} (hg : KeepsRecords g)
    (db : List DatabaseRecord) : SmmDispatcher.ticks (db.map g) = SmmDispatcher.ticks db := by
  unfold SmmDispatcher.ticks
  rw [List.filterMap_map]
  congr 1
  funext r
  obtain ⟨e, he⟩ := hg r
  show (g r).tick? = r.tick?
  rw [he]
  rfl

def timerRecord (handle callback period tick : Nat) : DatabaseRecord :=
  ⟨handle, timerSourceDesc, callback, .periodicTimer period tick, 0, some .periodicTimer⟩

theorem recordOk_timerRecord {handle callback period tick : Nat}
    (h : tick ∈ smmPeriodicTimerIntervals) : RecordOk (timerRecord handle callback period tick) :=
  ⟨rfl, rfl, by rw [contextToTimerInterval_supported h]; rfl⟩

theorem ticks_append (db : List DatabaseRecord) (handle callback period tick : Nat) :
    ticks (db ++ [timerRecord handle callback period tick]) = ticks db ++ [tick] := by
  unfold ticks
  rw [List.filterMap_append]
  rfl

theorem wp_register_timer {s : State} {callback period tick : Nat} (hok : ∀ r ∈ s.db, RecordOk r)
    (hsup : TicksSupported s.db) (htick : tick ∈ smmPeriodicTimerIntervals) :
    wp (qncSmmCoreRegister ae ⟨false, true, callback, .periodicTimer period tick⟩) (fun _ t =>
      t.db = (s.db ++ [timerRecord s.nextHandle callback period tick]).map resetElapsed ∧
      rateField t.hw = (rateField s.hw ||| leastCode (ticks s.db)) ||| leastCode (ticks t.db))
      (fun _ _ => False) s := by
  have hticks := ticks_append s.db s.nextHandle callback period tick
  have hok' : ∀ r ∈ s.db ++ [timerRecord s.nextHandle callback period tick], RecordOk r := by
    intro r hr
    rcases List.mem_append.mp hr with hr | hr
    · exact hok r hr
    · rw [List.mem_singleton.mp hr]; exact recordOk_timerRecord htick
  have hsup' : TicksSupported (s.db ++ [timerRecord s.nextHandle callback period tick]) := by
    intro t ht
    rw [hticks] at ht
    rcases List.mem_append.mp ht with ht | ht
    · exact hsup t ht
    · rw [List.mem_singleton.mp ht]; exact htick
  rw [qncSmmCoreRegister]
  simp only [Bool.false_eq_true, if_false, not_true_eq_false, wp_bind, wp_get,
    contextToTimerInterval_supported htick]
  refine wp_mono (wp_programTimers_rate hok hsup) ?_ (fun _ _ h => h)
  rintro _ t ⟨hrate, hdb, -, hnext⟩
  rw [insertRecord, wp_bind, wp_modify, wp_bind]
  show wp (qncSmmPeriodicTimerProgramTimers ae >>= _) _ _ _
  rw [wp_bind]
  have hdb' : t.db ++ [timerRecord s.nextHandle callback period tick] =
      s.db ++ [timerRecord s.nextHandle callback period tick] := by rw [hdb]
  refine wp_mono (wp_programTimers_rate ?_ ?_) ?_ (fun _ _ h => h)
  · show ∀ r ∈ t.db ++ [timerRecord s.nextHandle callback period tick], RecordOk r
    rw [hdb']
    exact hok'
  · show TicksSupported (t.db ++ [timerRecord s.nextHandle callback period tick])
    rw [hdb']
    exact hsup'
  rintro _ u ⟨hrate', hudb, -, -⟩
  have hudb : u.db = s.db ++ [timerRecord s.nextHandle callback period tick] := hudb.trans hdb'
  rw [wp_modify, wp_modify, wp_pure]
  refine ⟨by rw [hudb], ?_⟩
  show rateField (qncSmmEnableSource u.hw timerSourceDesc) = _ ||| leastCode (ticks (u.db.map resetElapsed))
  rw [keepsRecords_resetElapsed.ticks, rateField_of_reg (reg_enableSource_ne (by decide) (by decide)),
    hrate', ← hrate, hudb]
  show _ ||| leastCode (ticks (t.db ++ [timerRecord s.nextHandle callback period tick])) = _
  rw [hdb']

/-! ## The dispatcher -/

def TimersOnly (db : List DatabaseRecord) : Prop :=
  ∀ r ∈ db, ∃ period tick, TimerChild r period tick

theorem TimersOnly.supported {db : List DatabaseRecord} (h : TimersOnly db) : TicksSupported db := by
  intro t ht
  obtain ⟨r, hr, hrt⟩ := List.mem_filterMap.mp ht
  obtain ⟨period, tick, hc, hmem⟩ := h r hr
  rw [DatabaseRecord.tick?, hc] at hrt
  injection hrt with hrt
  exact hrt ▸ hmem

theorem TimersOnly.ticks_ne_nil {db : List DatabaseRecord} (h : TimersOnly db) (hne : db ≠ []) :
    ticks db ≠ [] := by
  obtain ⟨r, rs, rfl⟩ := List.exists_cons_of_ne_nil hne
  obtain ⟨period, tick, hc, -⟩ := h r List.mem_cons_self
  simp [ticks, DatabaseRecord.tick?, hc]

theorem RecordOk.timer {r : DatabaseRecord} {period tick : Nat} (h : RecordOk r)
    (hr : TimerChild r period tick) :
    r.srcDesc = timerSourceDesc ∧ r.clearSource = some .periodicTimer := by
  unfold RecordOk at h
  rw [hr.1] at h
  exact ⟨h.1, h.2.1⟩

def callOf (hw : Hw) (r : DatabaseRecord) : Option Event :=
  if (contextsMatch hw r).1 then
    some (.call r.handle r.callback r.childContext (contextsMatch hw r).2.elapsedTime)
  else none

theorem exhaust_eq {hw : Hw} {src : SourceDesc} (hsrc : src ∈ nullSourceDesc :: sourceDescs) :
    ∀ {rs : List DatabaseRecord}, (∀ r ∈ rs, r.srcDesc = src) →
      exhaust hw src rs = (rs.map fun r => (contextsMatch hw r).2, rs.filterMap (callOf hw)) := by
  intro rs
  induction rs with
  | nil => intro _; rfl
  | cons r rs ih =>
    intro h
    have hcmp : compareSources r.srcDesc src = true := by
      rw [h r List.mem_cons_self]
      exact (compareSources_iff hsrc hsrc).mpr rfl
    obtain ⟨e, he⟩ := contextsMatch_record hw r
    rw [exhaust, if_pos hcmp, ih fun x hx => h x (List.mem_cons_of_mem r hx)]
    by_cases hm : (contextsMatch hw r).1 = true
    · have hcall : callOf hw r = some (.call r.handle r.callback r.childContext e) := by
        rw [callOf, if_pos hm, he]
      simp [hcall, hm, he]
    · have hcall : callOf hw r = none := if_neg hm
      simp [hcall, hm]

theorem keepsRecords_contextsMatch (hw : Hw) : KeepsRecords fun r => (contextsMatch hw r).2 :=
  contextsMatch_record hw

theorem wp_clearSource_timer {s : State} (hok : ∀ r ∈ s.db, RecordOk r) (htimers : TimersOnly s.db)
    (hne : s.db ≠ []) :
    wp (clearSourceOf ae (some .periodicTimer) timerSourceDesc) (fun _ t =>
      t.db = s.db.map resetElapsed ∧ t.log = s.log ∧ t.nextHandle = s.nextHandle ∧
        rateField t.hw = rateField s.hw ||| leastCode (ticks s.db) ∧ SameEnables s.hw t.hw)
      (fun _ _ => False) s := by
  have hpos : 0 < (scanTimers s.db).1 := by
    rw [scanTimers_eq hok]
    exact List.length_pos_iff.mpr (htimers.ticks_ne_nil hne)
  show wp (qncSmmPeriodicTimerProgramTimers ae >>= _) _ _ s
  rw [wp_bind]
  refine wp_mono (wp_and (wp_programTimers_rate hok htimers.supported)
    (wp_programTimers_enables (.inl hpos))) ?_ (fun _ _ h => h.1)
  rintro _ t ⟨⟨hrate, hdb, hlog, hnext⟩, hen, -⟩
  rw [wp_modify]
  exact ⟨by rw [hdb], hlog, hnext, hrate, hen⟩

structure TimersServed (s t : State) : Prop where
  db : t.db = s.db.map fun r => resetElapsed (contextsMatch s.hw r).2
  log : t.log = s.log ++ .active timerSourceDesc :: s.db.filterMap (callOf s.hw)
  nextHandle : t.nextHandle = s.nextHandle
  rate : rateField t.hw = rateField s.hw ||| leastCode (ticks s.db)
  enables : SameEnables s.hw t.hw

theorem sameEnables_setAndCheckEos (h : Hw) : SameEnables h (qncSmmSetAndCheckEos h).2 := by
  intro d hd
  refine readBitDesc_of_reg (reg_setAndCheckEos_ne fun hc => (enableBits_spec hd).1 ?_)
  exact .inl ⟨hc.1, .inr hc.2⟩

theorem wp_dispatcher_timers {s : State} (hok : ∀ r ∈ s.db, RecordOk r) (htimers : TimersOnly s.db)
    (hne : s.db ≠ []) (hactive : sourceIsActive s.hw timerSourceDesc = true) :
    wp (qncSmmCoreDispatcher ae) (fun _ t => TimersServed s t) (fun _ _ => False) s := by
  have hsrc : ∀ r ∈ s.db, r.srcDesc = timerSourceDesc ∧ r.clearSource = some .periodicTimer := by
    intro r hr
    obtain ⟨period, tick, hchild⟩ := htimers r hr
    exact (hok r hr).timer hchild
  have hsx : ∀ r ∈ s.db, r.childContext.isSx = false := by
    intro r hr
    obtain ⟨period, tick, hchild⟩ := htimers r hr
    rw [hchild.1]
    rfl
  have hcalls : (s.db.filterMap (callOf s.hw)).any Event.isSxCall = false := by
    rw [List.any_eq_false]
    intro e he
    obtain ⟨r, hr, hcall⟩ := List.mem_filterMap.mp he
    unfold callOf at hcall
    split at hcall
    · injection hcall with hcall
      rw [← hcall]
      simp [Event.isSxCall, hsx r hr]
    · cases hcall
  have hempty : ¬ s.db.isEmpty = true := by simpa using hne
  have hexhaust : exhaust s.hw timerSourceDesc s.db =
      (s.db.map fun r => (contextsMatch s.hw r).2, s.db.filterMap (callOf s.hw)) :=
    exhaust_eq (by decide) fun r hr => (hsrc r hr).1
  obtain ⟨r, rs, hdb⟩ := List.exists_cons_of_ne_nil hne
  have hr := hsrc r (hdb ▸ List.mem_cons_self)
  have hkeep := keepsRecords_contextsMatch s.hw
  unfold qncSmmCoreDispatcher dispatchChildren
  rw [wp_bind, wp_bind, wp_get, if_neg hempty, dispatchLoop, wp_bind, wp_get, wp_bind, hdb, searchPass,
    wp_bind, wp_get, hr.1, if_neg (by simp [hactive]), wp_bind, wp_modify, ← hdb, hexhaust, hr.2, wp_bind]
  have hok' : ∀ x ∈ s.db.map fun r => (contextsMatch s.hw r).2, RecordOk x := by
    intro x hx
    obtain ⟨y, hy, rfl⟩ := List.mem_map.mp hx
    exact hkeep.recordOk (hok y hy)
  have htimers' : TimersOnly (s.db.map fun r => (contextsMatch s.hw r).2) := by
    intro x hx
    obtain ⟨y, hy, rfl⟩ := List.mem_map.mp hx
    obtain ⟨period, tick, hchild⟩ := htimers y hy
    obtain ⟨e, he⟩ := contextsMatch_record s.hw y
    exact ⟨period, tick, by rw [he]; exact hchild⟩
  refine wp_mono (wp_clearSource_timer hok' htimers' (by simpa using hne)) ?_ (fun _ _ h => h)
  rintro _ t ⟨htdb, htlog, htnext, htrate, hten⟩
  rw [wp_pure, wp_bind, wp_get, wp_bind, wp_modify]
  show wp (pure (99, _) : Exec State (Nat × Locals)) _ _ _
  rw [wp_pure]
  show wp (assert ae (99 > 0) >>= _) _ _ _
  rw [wp_bind, wp_assert]
  refine ⟨fun _ => ?_, fun h => absurd (by decide) h.2⟩
  rw [wp_bind, wp_when]
  refine ⟨fun h => ?_, fun _ => ?_⟩
  · simp [hcalls, hsx r (hdb ▸ List.mem_cons_self)] at h
  rw [wp_pure]
  constructor
  · exact htdb.trans (List.map_map ..)
  · exact htlog
  · exact htnext
  · rw [← hkeep.ticks]
    exact (rateField_of_reg (reg_setAndCheckEos_ne (by decide))).trans htrate
  · exact hten.trans (sameEnables_setAndCheckEos t.hw)

/-! ## Runs -/

theorem wp_onDispatcher {α : Type} {x : Exec State α} {Q : α → Timed → Prop} {E : Stop → Timed → Prop}
    {s : Timed} :
    wp (onDispatcher x) Q E s ↔ wp x (fun a t => Q a { s with dispatcher := t })
      (fun w t => E w { s with dispatcher := t }) s.dispatcher := by
  unfold wp onDispatcher
  cases x s.dispatcher <;> exact Iff.rfl

/-- The elapsed time of a child is the real time since its last call, a multiple of the child's interval that
has not reached its period. -/
def OnTime (real : Nat → Nat) (r : DatabaseRecord) : Prop :=
  ∃ period tick, TimerChild r period tick ∧ tick ∣ r.elapsedTime ∧ r.elapsedTime = real r.handle ∧
    (r.elapsedTime < period ∨ r.elapsedTime = 0)

structure TimedInv (s : Timed) : Prop where
  registry : Registry s.dispatcher
  onTime : ∀ r ∈ s.dispatcher.db, OnTime s.real r

theorem TimedInv.timersOnly {s : Timed} (h : TimedInv s) : TimersOnly s.dispatcher.db := by
  intro r hr
  obtain ⟨period, tick, hchild, -⟩ := h.onTime r hr
  exact ⟨period, tick, hchild⟩

theorem resetElapsed_onTime {real : Nat → Nat} {r : DatabaseRecord} (h : OnTime real r) :
    resetElapsed r = r := by
  obtain ⟨period, tick, ⟨hc, -⟩, -, -, hlt⟩ := h
  obtain ⟨handle, src, callback, context, elapsed, clear⟩ := r
  simp only at hc hlt
  subst hc
  unfold resetElapsed
  simp only
  split
  · have hzero : elapsed = 0 := by omega
    rw [hzero]
  · rfl

theorem onTime_timerRecord {real : Nat → Nat} {handle callback period tick : Nat}
    (htick : tick ∈ smmPeriodicTimerIntervals) (hreal : real handle = 0) :
    OnTime real (timerRecord handle callback period tick) :=
  ⟨period, tick, ⟨rfl, htick⟩, Nat.dvd_zero tick, hreal.symm, .inr rfl⟩

/-! ### Registration -/

theorem TimedInv.register {s : Timed} (h : TimedInv s) {callback period tick : Nat}
    (htick : tick ∈ smmPeriodicTimerIntervals) :
    wp (timedStep ae (.register callback period tick)) (fun _ t => TimedInv t ∧
      ticks t.dispatcher.db = ticks s.dispatcher.db ++ [tick] ∧
      rateField t.dispatcher.hw = (rateField s.dispatcher.hw ||| leastCode (ticks s.dispatcher.db)) |||
        leastCode (ticks t.dispatcher.db)) (fun _ _ => False) s := by
  rw [timedStep, wp_bind, wp_modify, wp_bind, wp_onDispatcher]
  refine wp_mono (wp_and (wp_register_timer h.registry.recordOk h.timersOnly.supported htick)
    (wp_register h.registry _)) ?_ (fun _ _ h => h.1)
  rintro r t ⟨⟨hdb, hrate⟩, hpost⟩
  rw [wp_pure]
  set real := Function.update s.real s.dispatcher.nextHandle 0 with hreal
  have hon : ∀ r ∈ s.dispatcher.db ++ [timerRecord s.dispatcher.nextHandle callback period tick],
      OnTime real r := by
    intro r hr
    rcases List.mem_append.mp hr with hr | hr
    · obtain ⟨period, tick, hchild, hdvd, helapsed, hlt⟩ := h.onTime r hr
      have hne : r.handle ≠ s.dispatcher.nextHandle := Nat.ne_of_lt (h.registry.handle_lt r hr)
      refine ⟨period, tick, hchild, hdvd, ?_, hlt⟩
      rw [helapsed, hreal, Function.update_of_ne hne]
    · rw [List.mem_singleton.mp hr]
      exact onTime_timerRecord htick (Function.update_self ..)
  have hsame : t.db = s.dispatcher.db ++ [timerRecord s.dispatcher.nextHandle callback period tick] := by
    rw [hdb]
    refine (List.map_congr_left fun r hr => resetElapsed_onTime (hon r hr)).trans ?_
    exact List.map_id' _
  refine ⟨⟨hpost.registry, fun r hr => hon r (hsame ▸ hr)⟩, ?_, hrate⟩
  show ticks t.db = _
  rw [hsame, ticks_append]

theorem TimedInv.unRegister {s : Timed} (h : TimedInv s) (handle : Nat) :
    wp (timedStep ae (.unRegister handle)) (fun _ => TimedInv) (fun _ _ => False) s := by
  have hsub : wp (qncSmmCoreUnRegister handle) (fun _ t => t.db.Sublist s.dispatcher.db)
      (fun _ _ => False) s.dispatcher := by
    rw [qncSmmCoreUnRegister, wp_bind, wp_get]
    cases s.dispatcher.db.find? (fun r => decide (r.handle = handle)) with
    | none => exact List.Sublist.refl _
    | some record =>
      show wp (Exec.modify _ >>= _) _ _ _
      rw [wp_bind, wp_modify, wp_bind, wp_get, wp_bind, wp_when]
      exact ⟨fun _ => List.filter_sublist, fun _ => List.filter_sublist⟩
  rw [timedStep, wp_bind, wp_onDispatcher]
  refine wp_mono (wp_and hsub (wp_unRegister h.registry handle)) ?_ (fun _ _ h => h.1)
  rintro _ t ⟨hsub, hreg, -⟩
  exact ⟨hreg, fun r hr => h.onTime r (hsub.subset hr)⟩

/-! ### Timer SMIs -/

theorem Registry.elapsed {s t : State} {g : DatabaseRecord → DatabaseRecord} (h : Registry s)
    (hg : KeepsRecords g) (hdb : t.db = s.db.map g) (hnext : t.nextHandle = s.nextHandle)
    (hen : SameEnables s.hw t.hw) : Registry t := by
  have hmem : ∀ r ∈ t.db, ∃ r' ∈ s.db, g r' = r := fun r hr => List.mem_map.mp (hdb ▸ hr)
  constructor
  · intro r hr
    obtain ⟨r', hr', rfl⟩ := hmem r hr
    exact hg.recordOk (h.recordOk r' hr')
  · intro r hr
    obtain ⟨r', hr', rfl⟩ := hmem r hr
    rw [hg.handle, hnext]
    exact h.handle_lt r' hr'
  · rw [hdb, hg.map_handle]
    exact h.handle_nodup
  · rw [hdb, hg.swValues]
    exact h.sw_nodup
  · rw [hdb, hg.swValues]
    exact h.sw_le
  · intro src hsrc d hd
    rw [hen d (mem_enableBits hsrc hd), hdb, hg.uses]
    exact h.enables src hsrc d hd

theorem reg_raiseTimer (h : Hw) (ty : AddrType) (a : Nat) :
    h.raiseTimer.reg ty a = if ty = .gpe ∧ a = smis then h.reg ty a ||| 0x2 else h.reg ty a :=
  rfl

theorem sameEnables_raiseTimer (h : Hw) : SameEnables h h.raiseTimer := by
  intro d hd
  refine readBitDesc_of_reg ((reg_raiseTimer h _ _).trans (if_neg fun hc => (enableBits_spec hd).1 ?_))
  exact .inl ⟨hc.1, .inr hc.2⟩

theorem rateField_raiseTimer (h : Hw) : rateField h.raiseTimer = rateField h :=
  rateField_of_reg ((reg_raiseTimer h _ _).trans (if_neg (by decide)))

theorem sourceIsActive_raiseTimer {s : State} (h : Registry s) {r : DatabaseRecord} (hr : r ∈ s.db)
    (hsrc : r.srcDesc = timerSourceDesc) : sourceIsActive s.hw.raiseTimer timerSourceDesc = true := by
  have hmem : (⟨.gpe, smie, .dword, 1⟩ : BitDesc) ∈ timerSourceDesc.enables := by decide
  have hen : readBitDesc s.hw.raiseTimer ⟨.gpe, smie, .dword, 1⟩ = true := by
    rw [sameEnables_raiseTimer s.hw _ (mem_enableBits (by decide) hmem)]
    exact (h.enables timerSourceDesc (by decide) _ hmem).mpr ⟨r, hr, hsrc ▸ hmem⟩
  have hsts : readBitDesc s.hw.raiseTimer ⟨.gpe, smis, .dword, 1⟩ = true := by
    have hreg : s.hw.raiseTimer.reg .gpe smis = s.hw.reg .gpe smis ||| 0x2 := by
      rw [reg_raiseTimer, if_pos ⟨rfl, rfl⟩]
    have hmask : (Width.dword.mask).getLsbD 1 = true := by decide
    have hbit : (0x2 : BitVec 32).getLsbD 1 = true := by decide
    rw [readBitDesc, Hw.ioRead, hreg, BitVec.getLsbD_and, BitVec.getLsbD_or, hmask, hbit]
    simp
  simp [sourceIsActive, timerSourceDesc, smiSource, SourceDesc.enables, hen, hsts]

/-- The elapsed time of a child grows by the child's interval. It does not wrap, since a multiple of the
interval below the period is at least one interval below the greatest multiple that fits. -/
theorem contextsMatch_onTime {hw : Hw} {real : Nat → Nat} {r : DatabaseRecord} {period tick : Nat}
    (h : OnTime real r) (hc : r.childContext = .periodicTimer period tick)
    (hperiod : period ≤ (2 ^ 64 - 1) / tick * tick) :
    contextsMatch hw r =
      (decide (period ≤ r.elapsedTime + tick), { r with elapsedTime := r.elapsedTime + tick }) := by
  obtain ⟨period', tick', ⟨hc', hmem⟩, ⟨k, hk⟩, -, hlt⟩ := h
  rw [hc] at hc'
  injection hc' with hp ht
  subst hp ht
  have hpos := intervals_spec hmem
  have hmax : (2 ^ 64 - 1) / tick * tick ≤ 2 ^ 64 - 1 := Nat.div_mul_le_self _ _
  have hfits : r.elapsedTime + tick < 2 ^ 64 := by
    rcases hlt with hlt | hzero
    · have hkm : k < (2 ^ 64 - 1) / tick := by
        have : tick * k < tick * ((2 ^ 64 - 1) / tick) := by
          calc tick * k = r.elapsedTime := hk.symm
            _ < period := hlt
            _ ≤ (2 ^ 64 - 1) / tick * tick := hperiod
            _ = tick * ((2 ^ 64 - 1) / tick) := Nat.mul_comm _ _
        exact Nat.lt_of_mul_lt_mul_left this
      have hnext : tick * (k + 1) ≤ tick * ((2 ^ 64 - 1) / tick) := Nat.mul_le_mul_left tick hkm
      rw [Nat.mul_succ, Nat.mul_comm tick ((2 ^ 64 - 1) / tick)] at hnext
      omega
    · omega
  have hwrap : (r.elapsedTime + tick) % 2 ^ 64 = r.elapsedTime + tick := Nat.mod_eq_of_lt hfits
  unfold contextsMatch
  rw [hc]
  simp only [contextToTimerInterval_supported hmem, hwrap, ge_iff_le]

theorem any_isCallOf {hw : Hw} {db : List DatabaseRecord} (hnodup : (db.map (·.handle)).Nodup)
    {r : DatabaseRecord} (hr : r ∈ db) :
    (db.filterMap (callOf hw)).any (isCallOf r.handle) = (contextsMatch hw r).1 := by
  rw [Bool.eq_iff_iff, List.any_eq_true]
  constructor
  · rintro ⟨e, he, hcall⟩
    obtain ⟨r', hr', hcallOf⟩ := List.mem_filterMap.mp he
    unfold callOf at hcallOf
    split at hcallOf
    · rename_i hm
      injection hcallOf with hcallOf
      have hhandle : r'.handle = r.handle := by
        rw [← hcallOf] at hcall
        simpa [isCallOf] using hcall
      have hsame : r' = r := List.inj_on_of_nodup_map hnodup hr' hr hhandle
      exact hsame ▸ hm
    · cases hcallOf
  · intro hm
    have hcallOf : callOf hw r = some (.call r.handle r.callback r.childContext
      (contextsMatch hw r).2.elapsedTime) := if_pos hm
    exact ⟨_, List.mem_filterMap.mpr ⟨r, hr, hcallOf⟩, by simp [isCallOf]⟩

theorem leastCode_programmed {s : State} (htimers : TimersOnly s.db) (hne : s.db ≠ [])
    (hall : ∀ t ∈ ticks s.db, t = programmedInterval s.hw) :
    leastCode (ticks s.db) = rateField s.hw := by
  have hticks := htimers.ticks_ne_nil hne
  obtain ⟨t, ts, hcons⟩ := List.exists_cons_of_ne_nil hticks
  have ht : t = programmedInterval s.hw := hall t (hcons ▸ List.mem_cons_self)
  have hmin : (ticks s.db).min? = some (programmedInterval s.hw) := by
    refine List.min?_eq_some_iff.mpr ⟨?_, fun b hb => ?_⟩
    · rw [hcons, ← ht]
      exact List.mem_cons_self
    · exact Nat.le_of_eq (hall b hb).symm
  have hlt : (rateField s.hw).toNat < 8 := by
    have hle : (s.hw.reg .gpe pmcw &&& 0x7).toNat ≤ 7 := by
      rw [BitVec.toNat_and]
      exact Nat.and_le_right
    exact Nat.lt_succ_of_le hle
  have key : ∀ k < 8, smmPeriodicTimerIntervals.idxOf (smmPeriodicTimerIntervals.getD k 0) = k := by
    decide
  rw [leastCode_of_min? hmin, programmedInterval, key _ hlt, BitVec.ofNat_toNat, BitVec.setWidth_eq]

theorem timerSmi_of_empty {s : Timed} (h : s.dispatcher.db = []) :
    timedStep ae .timerSmi s = .ret () (s.tick.restart []) := by
  have hret : onDispatcher (qncSmmCoreDispatcher ae) s.tick = .ret .interruptSourcePending s.tick := by
    unfold onDispatcher
    rw [dispatcher_of_empty (s := s.tick.dispatcher) h]
  have hlog : s.tick.dispatcher.log.drop s.dispatcher.log.length = [] := List.drop_length ..
  show ((onDispatcher (qncSmmCoreDispatcher ae)) >>= _) s.tick = _
  rw [bind_of_ret hret]
  show Outcome.ret () (s.tick.restart (s.tick.dispatcher.log.drop s.dispatcher.log.length)) = _
  rw [hlog]

structure TimerServed (s t : Timed) : Prop where
  inv : TimedInv t
  rate : RateIsLeast t.dispatcher
  children : ∀ r ∈ s.dispatcher.db, ChildTimed s t r

theorem child_at_timerSmi {s : Timed} {t : State} (hinv : TimedInv s) {r : DatabaseRecord}
    (hr : r ∈ s.dispatcher.db) (hserved : TimersServed s.tick.dispatcher t)
    (hfits : RateFits .timerSmi s) :
    let events := Event.active timerSourceDesc :: s.dispatcher.db.filterMap (callOf s.tick.dispatcher.hw)
    let r' := resetElapsed (contextsMatch s.tick.dispatcher.hw r).2
    let u := Timed.restart ⟨t, s.tick.real⟩ events
    ChildTimed s u r ∧ OnTime u.real r' := by
  intro events r' u
  obtain ⟨period, tick, ⟨hc, hmem⟩, hdvd, helapsed, hlt⟩ := hinv.onTime r hr
  obtain ⟨hprog, hperiod⟩ := hfits r hr period tick hc
  have hmatch : contextsMatch s.tick.dispatcher.hw r =
      (decide (period ≤ r.elapsedTime + tick), { r with elapsedTime := r.elapsedTime + tick }) :=
    contextsMatch_onTime (hinv.onTime r hr) hc hperiod
  have hreal : s.tick.real r.handle = r.elapsedTime + tick := by
    rw [helapsed, hprog]
    rfl
  have hany : events.any (isCallOf r.handle) = decide (period ≤ r.elapsedTime + tick) := by
    rw [List.any_cons, any_isCallOf hinv.registry.handle_nodup hr, hmatch]
    rfl
  have hdrop : u.dispatcher.log.drop s.dispatcher.log.length = events := by
    show t.log.drop _ = _
    rw [hserved.log]
    exact List.drop_left ..
  have hr' : r' ∈ u.dispatcher.db := by
    show r' ∈ t.db
    rw [hserved.db]
    exact List.mem_map_of_mem hr
  have hhandle : r'.handle = r.handle :=
    (keepsRecords_resetElapsed.handle _).trans ((keepsRecords_contextsMatch _).handle r)
  have hureal : u.real r.handle =
      if events.any (isCallOf r.handle) then 0 else r.elapsedTime + tick := by
    rw [← hreal]
    rfl
  have hcr' : r'.childContext = .periodicTimer period tick := by
    obtain ⟨e, he⟩ := keepsRecords_resetElapsed (contextsMatch s.tick.dispatcher.hw r).2
    show (resetElapsed (contextsMatch s.tick.dispatcher.hw r).2).childContext = _
    rw [he, hmatch]
    exact hc
  have helapsed' : r'.elapsedTime =
      if period ≤ r.elapsedTime + tick then 0 else r.elapsedTime + tick := by
    show (resetElapsed (contextsMatch s.tick.dispatcher.hw r).2).elapsedTime = _
    rw [hmatch]
    unfold resetElapsed
    simp only [hc, ge_iff_le]
    split <;> rfl
  by_cases hdue : period ≤ r.elapsedTime + tick
  · -- the period has passed: the child is called and starts over
    have hcalled : events.any (isCallOf r.handle) = true := by rw [hany]; exact decide_eq_true hdue
    rw [if_pos hcalled] at hureal
    rw [if_pos hdue] at helapsed'
    refine ⟨?_, period, tick, ⟨hcr', hmem⟩, helapsed' ▸ Nat.dvd_zero tick, ?_, .inr helapsed'⟩
    · intro p k hpk
      rw [hc] at hpk
      injection hpk with hp hk
      subst hp hk
      rw [← hprog, ← helapsed, hdrop]
      refine ⟨fun _ => List.mem_cons_of_mem _ (List.mem_filterMap.mpr ⟨r, hr, ?_⟩),
        fun hlt => absurd hdue (Nat.not_le_of_lt hlt)⟩
      rw [callOf, hmatch, if_pos (decide_eq_true hdue)]
    · rw [helapsed', hhandle, hureal]
  · have hnot : ¬ events.any (isCallOf r.handle) = true := by rw [hany]; simpa using hdue
    rw [if_neg hnot] at hureal
    rw [if_neg hdue] at helapsed'
    refine ⟨?_, period, tick, ⟨hcr', hmem⟩, ?_, ?_, .inl ?_⟩
    · intro p k hpk
      rw [hc] at hpk
      injection hpk with hp hk
      subst hp hk
      rw [← hprog, ← helapsed, hdrop]
      exact ⟨fun hle => absurd hle hdue, fun _ => ⟨by simpa using hnot, r', hr', hhandle, helapsed'⟩⟩
    · rw [helapsed']
      exact Nat.dvd_add hdvd (Nat.dvd_refl tick)
    · rw [helapsed', hhandle, hureal]
    · rw [helapsed']
      exact Nat.lt_of_not_le hdue

theorem TimedInv.timerSmi {s : Timed} (h : TimedInv s) (hfits : RateFits .timerSmi s) :
    wp (timedStep ae .timerSmi) (fun _ => TimerServed s) (fun _ _ => False) s := by
  have htick : Registry s.tick.dispatcher :=
    h.registry.elapsed keepsRecords_id (List.map_id _).symm rfl (sameEnables_raiseTimer _)
  by_cases hne : s.dispatcher.db = []
  · unfold wp
    rw [timerSmi_of_empty hne]
    have hmem : ∀ r, r ∉ s.dispatcher.db := by
      intro r
      rw [hne]
      exact List.not_mem_nil
    refine ⟨⟨htick, fun r hr => absurd hr (hmem r)⟩, fun hc => ?_, fun r hr => absurd hr (hmem r)⟩
    have hticks : ticks s.dispatcher.db = [] := by rw [hne]; rfl
    exact absurd hticks hc
  obtain ⟨r₀, hr₀⟩ := List.exists_mem_of_ne_nil _ hne
  have hsrc₀ : r₀.srcDesc = timerSourceDesc := by
    obtain ⟨period, tick, hchild⟩ := h.timersOnly r₀ hr₀
    exact ((h.registry.recordOk r₀ hr₀).timer hchild).1
  have hactive := sourceIsActive_raiseTimer h.registry hr₀ hsrc₀
  have hall : ∀ t ∈ ticks s.dispatcher.db, t = programmedInterval s.dispatcher.hw := by
    intro t ht
    obtain ⟨r, hr, hrt⟩ := List.mem_filterMap.mp ht
    obtain ⟨period, tick, hc, -⟩ := h.timersOnly r hr
    rw [DatabaseRecord.tick?, hc] at hrt
    injection hrt with hrt
    exact hrt ▸ (hfits r hr period tick hc).1
  have hcode := leastCode_programmed h.timersOnly hne hall
  rw [timedStep, wp_bind, wp_get, wp_bind, wp_modify, wp_bind, wp_onDispatcher]
  refine wp_mono (wp_dispatcher_timers htick.recordOk h.timersOnly hne hactive) ?_
    (fun _ _ h => h)
  intro _ t ht
  rw [wp_modify]
  have hdrop : t.log.drop s.dispatcher.log.length =
      .active timerSourceDesc :: s.dispatcher.db.filterMap (callOf s.tick.dispatcher.hw) := by
    rw [ht.log]
    exact List.drop_left ..
  show TimerServed s (Timed.restart ⟨t, s.tick.real⟩ (t.log.drop s.dispatcher.log.length))
  rw [hdrop]
  have hkeeps : KeepsRecords fun r => resetElapsed (contextsMatch s.tick.dispatcher.hw r).2 := by
    intro r
    obtain ⟨e, he⟩ := contextsMatch_record s.tick.dispatcher.hw r
    obtain ⟨e', he'⟩ := keepsRecords_resetElapsed (contextsMatch s.tick.dispatcher.hw r).2
    refine ⟨e', he'.trans ?_⟩
    rw [he]
  have hreg : Registry t := htick.elapsed hkeeps ht.db ht.nextHandle ht.enables
  have hticks : ticks t.db = ticks s.dispatcher.db := by
    rw [ht.db]
    exact hkeeps.ticks _
  have hrate : rateField t.hw = rateField s.dispatcher.hw ||| leastCode (ticks t.db) := by
    rw [hticks, ← rateField_raiseTimer]
    exact ht.rate
  have hfit : rateField s.dispatcher.hw &&& ~~~leastCode (ticks t.db) = 0 := by
    rw [hticks, hcode]
    exact BitVec.and_not_self _
  have hleast : RateIsLeast t :=
    rateIsLeast_of_rate hreg.recordOk (fun k hk => h.timersOnly.supported k (hticks ▸ hk)) hrate hfit
  refine ⟨⟨hreg, fun r hr => ?_⟩, hleast, fun r hr => (child_at_timerSmi h hr ht hfits).1⟩
  obtain ⟨r', hr', rfl⟩ := List.mem_map.mp (ht.db ▸ hr)
  exact (child_at_timerSmi h hr' ht hfits).2

/-! ### The result -/

theorem TimedInv.step {s : Timed} {op : TimerOp} (h : TimedInv s) (hsup : op.Supported)
    (hfits : RateFits op s) : wp (timedStep ae op) (fun _ => TimedInv) (fun _ _ => False) s := by
  cases op with
  | register callback period tick =>
    exact wp_mono (h.register hsup) (fun _ _ ht => ht.1) (fun _ _ h => h)
  | unRegister handle => exact h.unRegister handle
  | timerSmi => exact wp_mono (h.timerSmi hfits) (fun _ _ ht => ht.inv) (fun _ _ h => h)

theorem TimedInv.sound {s : Timed} {op : TimerOp} (h : TimedInv s) (hsup : op.Supported)
    (hfits : RateFits op s) : TimingSound ae op s := by
  intro s' hret
  cases op with
  | register callback period tick =>
    obtain ⟨hinv, hticks, hrate⟩ := wp_of_ret (h.register hsup) hret
    refine rateIsLeast_of_rate hinv.registry.recordOk hinv.timersOnly.supported hrate ?_
    rw [hticks]
    exact hfits
  | unRegister handle => exact trivial
  | timerSmi =>
    have hserved := wp_of_ret (h.timerSmi hfits) hret
    exact ⟨hserved.rate, hserved.children⟩

/-- Every run of registrations with supported intervals, unregistrations and timer SMIs whose steps all find
a rate that fits comes to its end; each registration and each timer SMI of it leaves `PMCW` at the least
interval asked for, and each timer SMI calls the children whose period has really passed. -/
theorem timing_sound {s₀ : Timed} (h₀ : Started s₀.dispatcher) (ops : List TimerOp)
    (hops : EachMeets (timedStep ae) (fun op s => op.Supported ∧ RateFits op s) ops s₀) :
    EachMeets (timedStep ae) (TimingSound ae) ops s₀ ∧
      ∃ s', serve (timedStep ae) ops s₀ = .ret () s' := by
  have hinv : TimedInv s₀ := by
    refine ⟨h₀.registry, fun r hr => ?_⟩
    rw [h₀.db] at hr
    cases hr
  have hstep : ∀ op s, TimedInv s → op.Supported ∧ RateFits op s →
      wp (timedStep ae op) (fun _ => TimedInv) (fun _ _ => False) s :=
    fun op s hs hop => hs.step hop.1 hop.2
  obtain ⟨_, s', hret, -⟩ := returns_of_wp (wp_serve hstep ops s₀ hops hinv)
  exact ⟨EachMeets.of_invariant hstep (fun op s hs hop => hs.sound hop.1 hop.2) ops s₀ hops hinv, s', hret⟩

def startTimed : Timed := ⟨startState, fun _ => 0⟩

theorem started_startTimed : Started startTimed.dispatcher := started_startState

def afterRun (ops : List TimerOp) : Timed := (serve (timedStep true) ops startTimed).state

theorem timing_sound_one_child :
    EachMeets (timedStep true) (TimingSound true) [.register 1 20000 15000, .timerSmi] startTimed := by
  have hfirst : (TimerOp.register 1 20000 15000).Supported ∧
      RateFits (.register 1 20000 15000) startTimed := by
    refine ⟨by simp [TimerOp.Supported, smmPeriodicTimerIntervals], ?_⟩
    unfold RateFits
    decide +kernel
  refine And.left (timing_sound started_startTimed [.register 1 20000 15000, .timerSmi]
    ⟨hfirst, fun _ s' hret => ⟨⟨trivial, ?_⟩, fun _ _ _ => trivial⟩⟩)
  have hs' : s' = afterRun [.register 1 20000 15000] := by
    rw [afterRun, serve, bind_of_ret hret]
    rfl
  have hdb : s'.dispatcher.db = [timerRecord 0 1 20000 15000] := by rw [hs']; decide +kernel
  have hrate : programmedInterval s'.dispatcher.hw = 15000 := by rw [hs']; decide +kernel
  intro r hr period tick hc
  rw [hdb, List.mem_singleton] at hr
  rw [hr] at hc
  injection hc with hp ht
  subst hp ht
  exact ⟨hrate.symm, by decide⟩

/-- A child that wants an SMI every 16 ms registers after one that wants it every 64 ms: the timer stays at
64 ms. -/
def slowThenFast : List TimerOp := [.register 1 640000 640000, .register 2 160000 160000]

/-- A child that wants an SMI every 32 ms registers after one that wants it every 16 ms: the timer runs at
16 ms, and each tick adds 32 ms to the time of the second child. -/
def fastThenSlow : List TimerOp := [.register 1 160000 160000, .register 2 640000 320000]

theorem timing_unsound :
    (∀ op ∈ slowThenFast ++ fastThenSlow ++ [.timerSmi], op.Supported) ∧
      ¬ EachMeets (timedStep true) (TimingSound true) slowThenFast startTimed ∧
      ¬ EachMeets (timedStep true) (TimingSound true) (fastThenSlow ++ [.timerSmi]) startTimed := by
  have hret : ∀ op s, (timedStep true op s).value? = some () →
      timedStep true op s = .ret () (timedStep true op s).state := fun op s h => Outcome.eq_ret h
  refine ⟨?_, fun h => ?_, fun h => ?_⟩
  · simp [slowThenFast, fastThenSlow, TimerOp.Supported, smmPeriodicTimerIntervals]
  · have hsecond := (h.2 () _ (hret _ _ (by decide +kernel))).1 _ (hret _ _ (by decide +kernel))
    have hrate := hsecond (by decide +kernel)
    exact absurd hrate (by decide +kernel)
  · have hthird := ((h.2 () _ (hret _ _ (by decide +kernel))).2 () _ (hret _ _ (by decide +kernel))).1
      _ (hret _ _ (by decide +kernel))
    obtain ⟨-, hlate⟩ := hthird.2 (timerRecord 1 2 640000 320000) (by decide +kernel) 640000 320000 rfl
    obtain ⟨-, hrecord⟩ := hlate (by decide +kernel)
    exact absurd hrecord (by decide +kernel)

end Quark.SmmDispatcher
