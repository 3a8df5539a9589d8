import Quark.SmmDispatcher.Proofs.DispatchProofs
import Mathlib.Data.List.Nodup

/-!
# Registration of SMI children

Registering a child sets the enable bit of its source and leaves all others; unregistering the last child of
a source clears it. The hardware accesses in between write status registers and `PMCW`, or one bit of
`BIOS_CNTL` that is no enable bit.
-/

namespace Quark.SmmDispatcher

open Machine Exec

variable {ae : Bool}

/-! ## Enable bits -/

def enableBits : List BitDesc := sourceDescs.flatMap SourceDesc.enables

theorem mem_enableBits {src : SourceDesc} (hsrc : src ∈ sourceDescs) {d : BitDesc}
    (hd : d ∈ src.enables) : d ∈ enableBits :=
  List.mem_flatMap.mpr ⟨src, hsrc, hd⟩

def SameEnables (h h' : Hw) : Prop := ∀ d ∈ enableBits, readBitDesc h' d = readBitDesc h d

theorem SameEnables.refl (h : Hw) : SameEnables h h := fun _ _ => rfl

theorem SameEnables.trans {h h' h'' : Hw} (a : SameEnables h h') (b : SameEnables h' h'') :
    SameEnables h h'' :=
  fun d hd => (b d hd).trans (a d hd)

theorem enableBits_spec {d : BitDesc} (hd : d ∈ enableBits) :
    ¬ IsStatus d.type d.reg ∧ d.width.mask.getLsbD d.bit = true ∧
      ¬ (d.type = .gpe ∧ d.reg = pmcw) := by
  have key : ∀ d ∈ enableBits, ¬ IsStatus d.type d.reg ∧ d.width.mask.getLsbD d.bit = true ∧
      ¬ (d.type = .gpe ∧ d.reg = pmcw) := by decide
  exact key d hd

theorem enableBits_ext {d e : BitDesc} (hd : d ∈ enableBits) (he : e ∈ enableBits)
    (h : e.type = d.type ∧ e.reg = d.reg ∧ e.bit = d.bit) : e = d := by
  have key : ∀ d ∈ enableBits, ∀ e ∈ enableBits,
      e.type = d.type ∧ e.reg = d.reg ∧ e.bit = d.bit → e = d := by decide
  exact key d hd e he h

theorem sameEnables_clearSource {src : SourceDesc} (hsrc : src ∈ nullSourceDesc :: sourceDescs) (h : Hw) :
    SameEnables h (qncSmmClearSource h src) := by
  intro d hd
  obtain ⟨hplain, hin, -⟩ := enableBits_spec hd
  have key : ∀ src ∈ nullSourceDesc :: sourceDescs, ∀ e ∈ src.sts,
      IsStatus e.type e.reg ∨ (¬ IsStatus e.type e.reg ∧ e.width.mask.getLsbD e.bit = true ∧
        ∀ d ∈ enableBits, ¬ (d.type = e.type ∧ d.reg = e.reg ∧ d.bit = e.bit)) := by decide
  cases hs : src.sts with
  | none =>
    unfold qncSmmClearSource
    rw [hs]
    rfl
  | some e =>
    unfold qncSmmClearSource
    rw [hs]
    show readBitDesc (writeBitDesc h e _) d = _
    rcases key src hsrc e hs with hst | ⟨hpl, hein, hne⟩
    · refine readBitDesc_of_reg (reg_writeBitDesc_ne fun hc => hplain ?_)
      rw [hc.1, hc.2]
      exact hst
    · rw [readBitDesc_writeBitDesc hpl hein hin, if_neg (hne d hd)]

theorem readBitDesc_foldl {v : Bool} {d : BitDesc} (hd : d ∈ enableBits) :
    ∀ {ds : List BitDesc} {h : Hw}, (∀ e ∈ ds, e ∈ enableBits) →
      readBitDesc (ds.foldl (fun h e => writeBitDesc h e v) h) d =
        if d ∈ ds then v else readBitDesc h d := by
  intro ds
  induction ds with
  | nil => intro h _; simp
  | cons e ds ih =>
    intro h hall
    have he := hall e List.mem_cons_self
    rw [List.foldl_cons, ih fun x hx => hall x (List.mem_cons_of_mem e hx),
      readBitDesc_writeBitDesc (enableBits_spec he).1 (enableBits_spec he).2.1 (enableBits_spec hd).2.1]
    by_cases hds : d ∈ ds
    · simp [hds]
    · by_cases hde : d = e
      · simp [hde]
      · have hne : ¬ (d.type = e.type ∧ d.reg = e.reg ∧ d.bit = e.bit) :=
          fun hc => hde (enableBits_ext he hd hc)
        simp [hds, hde, hne]

theorem enables_mem {src : SourceDesc} (hsrc : src ∈ nullSourceDesc :: sourceDescs) :
    ∀ e ∈ src.enables, e ∈ enableBits := by
  have key : ∀ src ∈ nullSourceDesc :: sourceDescs, ∀ e ∈ src.enables, e ∈ enableBits := by decide
  exact key src hsrc

theorem readBitDesc_disableSource {src : SourceDesc} (hsrc : src ∈ nullSourceDesc :: sourceDescs)
    {d : BitDesc} (hd : d ∈ enableBits) (h : Hw) :
    readBitDesc (qncSmmDisableSource h src) d = if d ∈ src.enables then false else readBitDesc h d :=
  readBitDesc_foldl hd (enables_mem hsrc)

theorem readBitDesc_enableSource {src : SourceDesc} (hsrc : src ∈ nullSourceDesc :: sourceDescs)
    {d : BitDesc} (hd : d ∈ enableBits) (h : Hw) :
    readBitDesc (qncSmmEnableSource h src) d = if d ∈ src.enables then true else readBitDesc h d := by
  rw [qncSmmEnableSource, sameEnables_clearSource hsrc _ d hd]
  exact readBitDesc_foldl hd (enables_mem hsrc)

theorem compareEnables_iff {a b : SourceDesc} (ha : a ∈ nullSourceDesc :: sourceDescs)
    (hb : b ∈ nullSourceDesc :: sourceDescs) {d : BitDesc} (hd : d ∈ a.enables) :
    compareEnables a b = true ↔ d ∈ b.enables := by
  have key : ∀ a ∈ nullSourceDesc :: sourceDescs, ∀ b ∈ nullSourceDesc :: sourceDescs,
      ∀ d ∈ a.enables, compareEnables a b = true ↔ d ∈ b.enables := by decide
  exact key a ha b hb d hd

/-! ## Records -/

def KeepsRecords (g : DatabaseRecord → DatabaseRecord) : Prop :=
  ∀ r, ∃ elapsed, g r = { r with elapsedTime := elapsed }

theorem keepsRecords_id : KeepsRecords id := fun r => ⟨r.elapsedTime, rfl⟩

theorem keepsRecords_resetElapsed : KeepsRecords resetElapsed := by
  intro r
  obtain ⟨handle, src, callback, context, elapsed, clear⟩ := r
  cases context with
  | periodicTimer period tick =>
    by_cases h : elapsed ≥ period
    · exact ⟨0, by simp [resetElapsed, h]⟩
    · exact ⟨elapsed, by simp [resetElapsed, h]⟩
  | _ => exact ⟨elapsed, rfl⟩

namespace KeepsRecords

variable {g : DatabaseRecord → DatabaseRecord} (hg : KeepsRecords g)
include hg

theorem srcDesc (r : DatabaseRecord) : (g r).srcDesc = r.srcDesc := by
  obtain ⟨e, he⟩ := hg r
  rw [he]

theorem handle (r : DatabaseRecord) : (g r).handle = r.handle := by
  obtain ⟨e, he⟩ := hg r
  rw [he]

theorem recordOk {r : DatabaseRecord} (h : RecordOk r) : RecordOk (g r) := by
  obtain ⟨e, he⟩ := hg r
  rw [he]
  exact h

theorem swValue? (r : DatabaseRecord) : (g r).swValue? = r.swValue? := by
  obtain ⟨e, he⟩ := hg r
  rw [he]
  rfl

theorem swValues (db : List DatabaseRecord) :
    SmmDispatcher.swValues (db.map g) = SmmDispatcher.swValues db := by
  unfold SmmDispatcher.swValues
  rw [List.filterMap_map]
  congr 1
  funext r
  exact hg.swValue? r

theorem uses (db : List DatabaseRecord) (d : BitDesc) : Uses (db.map g) d ↔ Uses db d := by
  unfold Uses
  constructor
  · rintro ⟨r, hr, hd⟩
    obtain ⟨r', hr', rfl⟩ := List.mem_map.mp hr
    rw [hg.srcDesc] at hd
    exact ⟨r', hr', hd⟩
  · rintro ⟨r, hr, hd⟩
    refine ⟨g r, List.mem_map_of_mem hr, ?_⟩
    rw [hg.srcDesc]
    exact hd

theorem map_handle (db : List DatabaseRecord) :
    (db.map g).map (·.handle) = db.map (·.handle) := by
  rw [List.map_map]
  exact List.map_congr_left fun r _ => hg.handle r

end KeepsRecords

theorem sw_le_of_recordOk {db : List DatabaseRecord} (h : ∀ r ∈ db, RecordOk r) :
    ∀ v ∈ swValues db, v ≤ maximumSwiValue := by
  intro v hv
  obtain ⟨r, hr, hrv⟩ := List.mem_filterMap.mp hv
  have hok := h r hr
  unfold DatabaseRecord.swValue? at hrv
  unfold RecordOk at hok
  cases hc : r.childContext with
  | sw value =>
    simp only [hc] at hrv hok
    injection hrv with hrv
    exact hrv ▸ hok.2.2
  | _ => simp [hc] at hrv

theorem Registry.insert {s t : State} {rec : DatabaseRecord} {g : DatabaseRecord → DatabaseRecord}
    (h : Registry s) (hg : KeepsRecords g) (hrec : RecordOk rec) (hhandle : rec.handle = s.nextHandle)
    (hsw : ∀ v, rec.swValue? = some v → v ∉ swValues s.db) (hdb : t.db = (s.db ++ [rec]).map g)
    (hnext : t.nextHandle = s.nextHandle + 1)
    (hen : ∀ d ∈ enableBits, readBitDesc t.hw d =
      if d ∈ rec.srcDesc.enables then true else readBitDesc s.hw d) : Registry t := by
  have hok : ∀ r ∈ t.db, RecordOk r := by
    intro r hr
    rw [hdb] at hr
    obtain ⟨r', hr', rfl⟩ := List.mem_map.mp hr
    apply hg.recordOk
    rcases List.mem_append.mp hr' with hr' | hr'
    · exact h.recordOk r' hr'
    · rw [List.mem_singleton.mp hr']; exact hrec
  have hvalues : swValues t.db = swValues s.db ++ rec.swValue?.toList := by
    rw [hdb, hg.swValues]
    unfold swValues
    rw [List.filterMap_append]
    rfl
  refine ⟨hok, ?_, ?_, ?_, sw_le_of_recordOk hok, ?_⟩
  · intro r hr
    rw [hdb] at hr
    obtain ⟨r', hr', rfl⟩ := List.mem_map.mp hr
    rw [hg.handle, hnext]
    rcases List.mem_append.mp hr' with hr' | hr'
    · exact Nat.lt_succ_of_lt (h.handle_lt r' hr')
    · rw [List.mem_singleton.mp hr', hhandle]; exact Nat.lt_succ_self _
  · rw [hdb, hg.map_handle, List.map_append, List.nodup_append]
    refine ⟨h.handle_nodup, by simp, ?_⟩
    intro a ha b hb
    obtain ⟨r, hr, rfl⟩ := List.mem_map.mp ha
    rw [List.map_singleton, List.mem_singleton] at hb
    rw [hb, hhandle]
    exact Nat.ne_of_lt (h.handle_lt r hr)
  · rw [hvalues, List.nodup_append]
    refine ⟨h.sw_nodup, ?_, ?_⟩
    · cases rec.swValue? <;> simp
    · intro a ha b hb hab
      exact hsw b (Option.mem_toList.mp hb) (hab ▸ ha)
  · intro src hsrc d hd
    rw [hen d (mem_enableBits hsrc hd), hdb, hg.uses]
    have huse : Uses (s.db ++ [rec]) d ↔ Uses s.db d ∨ d ∈ rec.srcDesc.enables := by
      unfold Uses
      simp [or_and_right, exists_or]
    rw [huse]
    by_cases hmem : d ∈ rec.srcDesc.enables
    · simp [hmem]
    · simp [hmem, h.enables src hsrc d hd]

theorem Registry.remove {s t : State} {rec : DatabaseRecord} (h : Registry s) (hrec : rec ∈ s.db)
    (hdb : t.db = s.db.filter (·.handle ≠ rec.handle)) (hnext : t.nextHandle = s.nextHandle)
    (hhw : t.hw = if t.db.all (fun r => !compareEnables rec.srcDesc r.srcDesc)
      then qncSmmDisableSource s.hw rec.srcDesc else s.hw) : Registry t := by
  have hsub : t.db.Sublist s.db := hdb ▸ List.filter_sublist
  have hrecDesc := mem_descs_of_recordOk (h.recordOk rec hrec)
  refine ⟨fun r hr => h.recordOk r (hsub.subset hr), ?_, (hsub.map _).nodup h.handle_nodup,
    (hsub.filterMap _).nodup h.sw_nodup, fun v hv => h.sw_le v ((hsub.filterMap _).subset hv), ?_⟩
  · intro r hr
    rw [hnext]
    exact h.handle_lt r (hsub.subset hr)
  · intro src hsrc d hd
    have hold := h.enables src hsrc d hd
    -- the records other than `rec` are those that stay
    have huses : Uses s.db d ↔ d ∈ rec.srcDesc.enables ∨ Uses t.db d := by
      constructor
      · rintro ⟨r, hr, hrd⟩
        by_cases hhandle : r.handle = rec.handle
        · have hreq : r = rec := List.inj_on_of_nodup_map h.handle_nodup hr hrec hhandle
          exact .inl (hreq ▸ hrd)
        · refine .inr ⟨r, ?_, hrd⟩
          rw [hdb, List.mem_filter]
          exact ⟨hr, by simpa using hhandle⟩
      · rintro (hrd | ⟨r, hr, hrd⟩)
        · exact ⟨rec, hrec, hrd⟩
        · exact ⟨r, hsub.subset hr, hrd⟩
    have hcmp : d ∈ rec.srcDesc.enables →
        (t.db.all (fun r => !compareEnables rec.srcDesc r.srcDesc) = true ↔ ¬ Uses t.db d) := by
      intro hmem
      rw [List.all_eq_true]
      constructor
      · rintro hall ⟨r, hr, hrd⟩
        have hr' := mem_descs_of_recordOk (h.recordOk r (hsub.subset hr))
        have := hall r hr
        rw [(compareEnables_iff hrecDesc hr' hmem).mpr hrd] at this
        cases this
      · intro hno r hr
        have hr' := mem_descs_of_recordOk (h.recordOk r (hsub.subset hr))
        have : compareEnables rec.srcDesc r.srcDesc ≠ true := fun hc =>
          hno ⟨r, hr, (compareEnables_iff hrecDesc hr' hmem).mp hc⟩
        simpa using this
    rw [hhw]
    by_cases hmem : d ∈ rec.srcDesc.enables
    · by_cases hsafe : t.db.all (fun r => !compareEnables rec.srcDesc r.srcDesc) = true
      · rw [if_pos hsafe, readBitDesc_disableSource hrecDesc (mem_enableBits hsrc hd), if_pos hmem]
        simpa using (hcmp hmem).mp hsafe
      · rw [if_neg hsafe, hold, huses]
        have : Uses t.db d := by
          by_contra hno
          exact hsafe ((hcmp hmem).mpr hno)
        simp [this]
    · have hread : readBitDesc (if t.db.all (fun r => !compareEnables rec.srcDesc r.srcDesc)
          then qncSmmDisableSource s.hw rec.srcDesc else s.hw) d = readBitDesc s.hw d := by
        split
        · rw [readBitDesc_disableSource hrecDesc (mem_enableBits hsrc hd), if_neg hmem]
        · rfl
      rw [hread, hold, huses]
      simp [hmem]

/-! ## Calls -/

theorem scanTimers_pos {r : DatabaseRecord} {period tick : Nat}
    (hc : r.childContext = .periodicTimer period tick)
    (hi : (contextToTimerInterval period tick).isSome) :
    ∀ {db : List DatabaseRecord}, r ∈ db → 0 < (scanTimers db).1 := by
  intro db
  induction db with
  | nil => intro h; cases h
  | cons x db ih =>
    intro h
    obtain ⟨interval, hint⟩ := Option.isSome_iff_exists.mp hi
    rcases List.mem_cons.mp h with rfl | h
    · simp [scanTimers, hc, hint]
    · have hpos := ih h
      unfold scanTimers
      split
      · split
        · exact Nat.succ_pos _
        · exact hpos
      · exact hpos

theorem wp_programTimers_enables {s : State}
    (h : 0 < (scanTimers s.db).1 ∨ ∀ d ∈ timerSourceDesc.enables, readBitDesc s.hw d = false) :
    wp (qncSmmPeriodicTimerProgramTimers ae) (fun _ t => SameEnables s.hw t.hw ∧ t.db = s.db ∧
      t.nextHandle = s.nextHandle) (fun _ _ => True) s := by
  have htimer : timerSourceDesc ∈ nullSourceDesc :: sourceDescs := by decide
  have hstart : ∀ (t : State) (v : BitVec 32), t.hw = s.hw → t.db = s.db → t.nextHandle = s.nextHandle →
      wp (startTimer v) (fun _ u => SameEnables s.hw u.hw ∧ u.db = s.db ∧ u.nextHandle = s.nextHandle)
        (fun _ _ => True) t := by
    intro t v hhw hdb hnext
    rw [startTimer, wp_modify]
    refine ⟨?_, hdb, hnext⟩
    refine SameEnables.trans ?_ (sameEnables_clearSource htimer _)
    intro d hd
    refine (readBitDesc_of_reg (reg_ioWrite_ne (enableBits_spec hd).2.2)).trans ?_
    rw [hhw]
  unfold qncSmmPeriodicTimerProgramTimers
  rw [wp_bind, wp_get, wp_bind, wp_modify, wp_ite]
  refine ⟨fun _ => ?_, fun hzero => ?_⟩
  · rw [wp_bind, selectRate]
    cases smmPeriodicTimerIntervals.idxOf? (scanTimers s.db).2 with
    | some index =>
      rw [wp_bind, wp_modify, wp_pure]
      exact hstart _ _ rfl rfl rfl
    | none =>
      rw [wp_bind, wp_assert]
      refine ⟨fun _ => ?_, fun _ => trivial⟩
      rw [wp_pure]
      exact hstart _ _ rfl rfl rfl
  · rw [wp_modify]
    refine ⟨fun d hd => ?_, rfl, rfl⟩
    have hclear := h.resolve_left hzero
    show readBitDesc (qncSmmDisableSource s.hw timerSourceDesc) d = _
    rw [readBitDesc_disableSource htimer hd]
    split
    · exact (hclear d ‹_›).symm
    · rfl

theorem wp_clearSourceOf_enables {s : State} {rec : DatabaseRecord} (hrec : RecordOk rec)
    (hmem : rec ∈ s.db) :
    wp (clearSourceOf ae rec.clearSource rec.srcDesc) (fun _ t => SameEnables s.hw t.hw ∧
      t.nextHandle = s.nextHandle ∧ ∃ g, KeepsRecords g ∧ t.db = s.db.map g) (fun _ _ => True) s := by
  have hdesc := mem_descs_of_recordOk hrec
  have hdefault : SameEnables s.hw (qncSmmClearSource s.hw rec.srcDesc) :=
    sameEnables_clearSource hdesc s.hw
  have hid : ∃ g, KeepsRecords g ∧ s.db = s.db.map g := ⟨id, keepsRecords_id, (List.map_id _).symm⟩
  cases hfn : rec.clearSource with
  | none => exact ⟨hdefault, rfl, hid⟩
  | some fn =>
    cases fn with
    | qncn => exact ⟨hdefault, rfl, hid⟩
    | periodicTimer =>
      have hpos : 0 < (scanTimers s.db).1 := by
        unfold RecordOk at hrec
        cases hc : rec.childContext with
        | periodicTimer period tick =>
          simp only [hc] at hrec
          exact scanTimers_pos hc hrec.2.2 hmem
        | _ => simp [hc, hfn] at hrec
      show wp (qncSmmPeriodicTimerProgramTimers ae >>= _) _ _ s
      rw [wp_bind]
      refine wp_mono (wp_programTimers_enables (.inl hpos)) ?_ (fun _ _ h => h)
      rintro _ t ⟨hen, hdb, hnext⟩
      rw [wp_modify]
      exact ⟨hen, hnext, resetElapsed, keepsRecords_resetElapsed, by rw [hdb]⟩

theorem wp_insertRecord {s t : State} (rec : DatabaseRecord) (h : Registry s) (hrec : RecordOk rec)
    (hhandle : rec.handle = s.nextHandle) (hsw : ∀ v, rec.swValue? = some v → v ∉ swValues s.db)
    (hen : SameEnables s.hw t.hw) (hdb : t.db = s.db) (hnext : t.nextHandle = s.nextHandle) :
    wp (insertRecord ae rec) (fun _ => Registry) (fun _ _ => True) t := by
  rw [insertRecord, wp_bind, wp_modify, wp_bind]
  refine wp_mono (wp_clearSourceOf_enables hrec (List.mem_append_right _ List.mem_cons_self)) ?_
    (fun _ _ h => h)
  rintro _ u ⟨hen', hnext', g, hg, hdb'⟩
  rw [wp_modify]
  refine h.insert hg hrec hhandle hsw (hdb'.trans ?_) (hnext'.trans ?_) ?_
  · rw [← hdb]
  · rw [← hnext]
  · intro d hd
    show readBitDesc (qncSmmEnableSource u.hw rec.srcDesc) d = _
    rw [readBitDesc_enableSource (mem_descs_of_recordOk hrec) hd, hen' d hd, hen d hd]

theorem duplicateCheck_success {db : List DatabaseRecord} {v : Nat} :
    smiInputValueDuplicateCheck db v = .success ↔ v ∉ swValues db := by
  have hany : db.any (fun r => r.childContext = .sw v) = true ↔ v ∈ swValues db := by
    rw [List.any_eq_true, swValues, List.mem_filterMap]
    constructor
    · rintro ⟨r, hr, hc⟩
      have hc : r.childContext = .sw v := by simpa using hc
      exact ⟨r, hr, by rw [DatabaseRecord.swValue?, hc]⟩
    · rintro ⟨r, hr, hv⟩
      refine ⟨r, hr, ?_⟩
      unfold DatabaseRecord.swValue? at hv
      cases hc : r.childContext with
      | sw value =>
        simp only [hc] at hv
        injection hv with hv
        simp [hv]
      | _ => simp [hc] at hv
  unfold smiInputValueDuplicateCheck
  split
  · rename_i h
    simp [hany.mp h]
  · rename_i h
    simpa using fun hc => h (hany.mpr hc)

theorem freeSwiValue_some {db : List DatabaseRecord} {v : Nat} (h : freeSwiValue db = some v) :
    1 ≤ v ∧ v < maximumSwiValue ∧ v ∉ swValues db := by
  have hmem := List.mem_of_find?_eq_some h
  have hfree := List.find?_some h
  rw [List.mem_range'_1] at hmem
  exact ⟨hmem.1, by omega, duplicateCheck_success.mp (by simpa using hfree)⟩

theorem freeSwiValue_none {db : List DatabaseRecord} (h : freeSwiValue db = none) {v : Nat}
    (h1 : 1 ≤ v) (hlt : v < maximumSwiValue) : v ∈ swValues db := by
  by_contra hno
  have := List.find?_eq_none.mp h v (List.mem_range'_1.mpr ⟨h1, by omega⟩)
  exact this (by simpa using duplicateCheck_success.mpr hno)

/-- What one registration does: the registry is kept, a rejection changes nothing, and an automatic request
is served unless `MAXIMUM_SWI_VALUE` alone is free. -/
structure RegisterPost (req : Registration) (s : State) (r : Registered) (t : State) : Prop where
  registry : Registry t
  rejected : r.1.isError = true → t = s
  automatic : (Request.register req).Automatic → (∃ v, FreeValue s v ∧ v < maximumSwiValue) →
    r.1 = .success ∧ ∃ v, FreeValue s v ∧ r.2 = .sw v

theorem RegisterPost.rejection {req : Registration} {s : State} {st : EfiStatus} {c : Context}
    (h : Registry s) (hauto : ¬ (Request.register req).Automatic) :
    RegisterPost req s (st, c) s :=
  ⟨h, fun _ => rfl, fun ha => absurd ha hauto⟩

theorem wp_insertRecord_post {req : Registration} {s t : State} (rec : DatabaseRecord)
    (hauto : ¬ (Request.register req).Automatic) (h : Registry s) (hrec : RecordOk rec)
    (hhandle : rec.handle = s.nextHandle) (hsw : ∀ v, rec.swValue? = some v → v ∉ swValues s.db)
    (hen : SameEnables s.hw t.hw) (hdb : t.db = s.db) (hnext : t.nextHandle = s.nextHandle)
    (c : Context) :
    wp (do insertRecord ae rec; pure (EfiStatus.success, c) : Exec State Registered)
      (RegisterPost req s) (fun _ _ => True) t := by
  rw [wp_bind]
  refine wp_mono (wp_insertRecord rec h hrec hhandle hsw hen hdb hnext) ?_ (fun _ _ h => h)
  intro _ u hu
  exact ⟨hu, nofun, fun ha => absurd ha hauto⟩

theorem enables_inj {a b : SourceDesc} (ha : a ∈ nullSourceDesc :: sourceDescs)
    (hb : b ∈ nullSourceDesc :: sourceDescs) {d : BitDesc} (hda : d ∈ a.enables)
    (hdb : d ∈ b.enables) : a = b := by
  have key : ∀ a ∈ nullSourceDesc :: sourceDescs, ∀ b ∈ nullSourceDesc :: sourceDescs,
      ∀ d ∈ a.enables, d ∈ b.enables → a = b := by decide
  exact key a ha b hb d hda hdb

theorem scanTimers_pos_of_srcDesc {db : List DatabaseRecord} (hok : ∀ r ∈ db, RecordOk r)
    {r : DatabaseRecord} (hr : r ∈ db) (hsrc : r.srcDesc = timerSourceDesc) :
    0 < (scanTimers db).1 := by
  have hrok := hok r hr
  unfold RecordOk at hrok
  cases hc : r.childContext with
  | periodicTimer period tick =>
    simp only [hc] at hrok
    exact scanTimers_pos hc hrok.2.2 hr
  | qncn type =>
    simp only [hc, hsrc] at hrok
    have := hrok.1
    unfold qncnSourceDescs at this
    split_ifs at this <;> exact absurd this (by decide)
  | powerButton phase => simp only [hc] at hrok
  | _ =>
    simp only [hc, hsrc] at hrok
    exact absurd hrok.1 (by decide)

theorem wp_registerSw {s : State} {req : Registration} {v : Nat} (h : Registry s)
    (hfree : (Request.register req).Automatic → FreeValue s v) :
    wp (registerSw ae req.callback v) (RegisterPost req s) (fun _ _ => True) s := by
  rw [registerSw, wp_bind, wp_get, wp_ite]
  refine ⟨fun hgt => ⟨h, fun _ => rfl, fun ha => ?_⟩, fun hle => ?_⟩
  · exact absurd (hfree ha).2.1 (Nat.not_le_of_gt hgt)
  rw [wp_ite]
  refine ⟨fun hdup => ⟨h, fun _ => rfl, fun ha => ?_⟩, fun hnodup => ?_⟩
  · rw [duplicateCheck_success.mpr (hfree ha).2.2] at hdup
    cases hdup
  have hno : v ∉ swValues s.db :=
    duplicateCheck_success.mp (EfiStatus.isError_eq_false.mp (by simpa using hnodup))
  rw [wp_bind]
  refine wp_mono (wp_insertRecord ⟨s.nextHandle, swSourceDesc, req.callback, .sw v, 0, none⟩ h
    ⟨rfl, rfl, Nat.le_of_not_lt hle⟩ rfl ?_ (.refl _) rfl rfl) ?_ (fun _ _ h => h)
  · intro w hw
    injection hw with hw
    exact hw ▸ hno
  · intro _ u hu
    exact ⟨hu, nofun, fun ha _ => ⟨rfl, v, hfree ha, rfl⟩⟩

theorem wp_register {s : State} (h : Registry s) (req : Registration) :
    wp (qncSmmCoreRegister ae req) (RegisterPost req s) (fun _ _ => True) s := by
  unfold qncSmmCoreRegister
  rw [wp_ite]
  refine ⟨fun hnull => ?_, fun _ => ?_⟩
  · exact .rejection h fun ha => Bool.false_ne_true (ha.1.symm.trans hnull)
  rw [wp_ite]
  refine ⟨fun halloc => .rejection h fun ha => halloc ha.2.1, fun _ => ?_⟩
  rw [wp_bind, wp_get]
  have hauto : ∀ {c : Context}, req.context = c → c ≠ .sw anySwiValue →
      ¬ (Request.register req).Automatic := fun hc hne ha => hne (hc.symm.trans ha.2.2)
  cases hc : req.context with
  | sx type phase =>
    show wp (ite _ _ _) _ _ s
    rw [wp_ite]
    refine ⟨fun _ => .rejection h (hauto hc nofun), fun _ => ?_⟩
    exact wp_insertRecord_post ⟨s.nextHandle, sxSourceDesc, req.callback, .sx type phase, 0, none⟩
      (hauto hc nofun) h ⟨rfl, rfl⟩ rfl nofun (.refl _) rfl rfl _
  | sw value =>
    by_cases hany : value = anySwiValue
    · simp only [hany, if_true]
      cases hfree : freeSwiValue s.db with
      | none =>
        refine ⟨h, fun _ => rfl, fun _ ⟨v, hv, hlt⟩ => ?_⟩
        exact absurd (freeSwiValue_none hfree hv.1 hlt) hv.2.2
      | some v =>
        obtain ⟨h1, hlt, hno⟩ := freeSwiValue_some hfree
        exact wp_registerSw h fun _ => ⟨h1, Nat.le_of_lt hlt, hno⟩
    · simp only [hany, if_false]
      exact wp_registerSw h fun ha => absurd ha (hauto hc fun hc => hany (by injection hc))
  | gpi num =>
    exact wp_insertRecord_post ⟨s.nextHandle, gpiSourceDesc, req.callback, .gpi num, 0, none⟩
      (hauto hc nofun) h ⟨rfl, rfl⟩ rfl nofun (.refl _) rfl rfl _
  | qncn type =>
    show wp (ite _ _ _) _ _ s
    rw [wp_ite]
    refine ⟨fun _ => .rejection h (hauto hc nofun), fun _ => ?_⟩
    exact wp_insertRecord_post
      ⟨s.nextHandle, qncnSourceDescs type.toNat, req.callback, .qncn type, 0, some .qncn⟩
      (hauto hc nofun) h ⟨rfl, rfl⟩ rfl nofun (.refl _) rfl rfl _
  | periodicTimer period tick =>
    have hnauto := hauto hc nofun
    cases hint : contextToTimerInterval period tick with
    | none =>
      simp only [hint]
      exact .rejection h hnauto
    | some interval =>
      simp only [hint]
      rw [wp_bind]
      -- before the record is inserted the timer is enabled only if it has children
      have hidle : 0 < (scanTimers s.db).1 ∨
          ∀ d ∈ timerSourceDesc.enables, readBitDesc s.hw d = false := by
        refine or_iff_not_imp_left.mpr fun hzero d hd => ?_
        have hmatch := h.enables timerSourceDesc (by decide) d hd
        by_contra hset
        obtain ⟨r, hr, hrd⟩ := hmatch.mp (by simpa using hset)
        have hsrc : r.srcDesc = timerSourceDesc :=
          enables_inj (mem_descs_of_recordOk (h.recordOk r hr)) (by decide) hrd hd
        exact hzero (scanTimers_pos_of_srcDesc h.recordOk hr hsrc)
      refine wp_mono (wp_programTimers_enables hidle) ?_ (fun _ _ h => h)
      rintro _ t ⟨hen, hdb, hnext⟩
      refine wp_insertRecord_post ⟨s.nextHandle, timerSourceDesc, req.callback,
        .periodicTimer period tick, 0, some .periodicTimer⟩ hnauto h ?_ rfl nofun hen hdb hnext _
      exact ⟨rfl, rfl, by rw [hint]; rfl⟩
  | powerButton phase => exact .rejection h (hauto hc nofun)

theorem wp_unRegister {s : State} (h : Registry s) (handle : Nat) :
    wp (qncSmmCoreUnRegister handle) (fun st t => Registry t ∧ (st.isError = true → t = s))
      (fun _ _ => True) s := by
  rw [qncSmmCoreUnRegister, wp_bind, wp_get]
  cases hfind : s.db.find? (fun r => decide (r.handle = handle)) with
  | none => exact ⟨h, fun _ => rfl⟩
  | some rec =>
    have hrec : rec ∈ s.db := List.mem_of_find?_eq_some hfind
    have hhandle : rec.handle = handle := by simpa using List.find?_some hfind
    subst hhandle
    show wp (Exec.modify _ >>= _) _ _ s
    rw [wp_bind, wp_modify, wp_bind, wp_get, wp_bind, wp_when]
    refine ⟨fun hsafe => ?_, fun hsafe => ?_⟩
    · rw [wp_modify]
      exact ⟨h.remove hrec rfl rfl (if_pos hsafe).symm, nofun⟩
    · exact ⟨h.remove hrec rfl rfl (if_neg hsafe).symm, nofun⟩

/-! ## Sequences of calls -/

theorem wp_serveRequest {s : State} (h : Registry s) (q : Request) :
    wp (serveRequest ae q) (fun _ => Registry) (fun _ _ => True) s := by
  cases q with
  | register req =>
    rw [serveRequest, wp_bind]
    exact wp_mono (wp_register h req) (fun _ _ hp => hp.registry) (fun _ _ h => h)
  | unRegister handle =>
    rw [serveRequest, wp_bind]
    exact wp_mono (wp_unRegister h handle) (fun _ _ hp => hp.1) (fun _ _ h => h)

theorem callSound_of_notLastValue {s : State} {q : Request} (h : Registry s) (hq : NotLastValue q s) :
    CallSound ae q s := by
  intro st context s' hret
  cases q with
  | register req =>
    have hwp : wp (serveRequest ae (.register req)) (fun r t => (r.1.isError = true → t = s) ∧
        ((Request.register req).Automatic → (∃ v, FreeValue s v ∧ v < maximumSwiValue) →
          r.1 = .success ∧ ∃ v, FreeValue s v ∧ r.2 = some (.sw v))) (fun _ _ => True) s := by
      rw [serveRequest, wp_bind]
      refine wp_mono (wp_register h req) ?_ (fun _ _ h => h)
      intro r t hp
      refine ⟨hp.rejected, fun ha hv => ?_⟩
      obtain ⟨hst, v, hv, hc⟩ := hp.automatic ha hv
      exact ⟨hst, v, hv, congrArg some hc⟩
    obtain ⟨hrej, hauto⟩ := wp_of_ret hwp hret
    refine ⟨fun herr => ?_, fun ha hv => hauto ha (hq ha hv)⟩
    rw [hrej herr]
    exact ⟨rfl, rfl⟩
  | unRegister handle =>
    have hwp : wp (serveRequest ae (.unRegister handle)) (fun r t => r.1.isError = true → t = s)
        (fun _ _ => True) s := by
      rw [serveRequest, wp_bind]
      exact wp_mono (wp_unRegister h handle) (fun _ _ hp => hp.2) (fun _ _ h => h)
    have hrej := wp_of_ret hwp hret
    refine ⟨fun herr => ?_, fun ha => ha.elim⟩
    rw [hrej herr]
    exact ⟨rfl, rfl⟩

structure Started (s : State) : Prop where
  db : s.db = []
  enables : ∀ src ∈ sourceDescs, ∀ d ∈ src.enables, readBitDesc s.hw d = false

theorem Started.registry {s : State} (h : Started s) : Registry s := by
  have hmem : ∀ r, r ∉ s.db := by
    intro r
    rw [h.db]
    exact List.not_mem_nil
  have hvalues : swValues s.db = [] := by
    rw [h.db]
    rfl
  constructor
  · exact fun r hr => absurd hr (hmem r)
  · exact fun r hr => absurd hr (hmem r)
  · rw [h.db]
    exact List.nodup_nil
  · rw [hvalues]
    exact List.nodup_nil
  · intro v hv
    rw [hvalues] at hv
    cases hv
  · intro src hsrc d hd
    rw [h.enables src hsrc d hd]
    exact ⟨nofun, fun ⟨r, hr, _⟩ => absurd hr (hmem r)⟩

/-- Along every sequence of calls that asks for no automatic value when `MAXIMUM_SWI_VALUE` alone is free,
the registry holds before and after each call, and every call does what it promises. -/
theorem registry_serve {s₀ : State} (h₀ : Started s₀) (reqs : List Request)
    (hreqs : EachMeets (serveRequest ae) NotLastValue reqs s₀) :
    EachMeets (serveRequest ae) (fun q s => Registry s ∧ CallSound ae q s) reqs s₀ ∧
      wp (serve (serveRequest ae) reqs) (fun _ => Registry) (fun _ _ => True) s₀ := by
  have hstep : ∀ q s, Registry s → NotLastValue q s →
      wp (serveRequest ae q) (fun _ => Registry) (fun _ _ => True) s :=
    fun q s hs _ => wp_serveRequest hs q
  refine ⟨EachMeets.of_invariant hstep (fun q s hs hq => ⟨hs, callSound_of_notLastValue hs hq⟩) reqs s₀
    hreqs h₀.registry, wp_serve hstep reqs s₀ hreqs h₀.registry⟩

def startState : State := ⟨[], ⟨fun _ _ => 0, 0⟩, ⟨0, 0, 0⟩, 0, []⟩

theorem started_startState : Started startState :=
  ⟨rfl, fun src hsrc d hd => by simp [readBitDesc, startState, Hw.ioRead]⟩

def automaticRequest : Request := .register ⟨false, true, 1, .sw anySwiValue⟩

theorem registry_serve_automatic :
    EachMeets (serveRequest true) (fun q s => Registry s ∧ CallSound true q s)
      [automaticRequest, .unRegister 0] startState := by
  have hreqs : EachMeets (serveRequest true) NotLastValue [automaticRequest, .unRegister 0]
      startState := by
    refine ⟨fun _ _ => ?_, fun _ s' _ => ⟨fun ha => ha.elim, fun _ _ _ => trivial⟩⟩
    exact ⟨1, ⟨by decide, by decide, by decide⟩, by decide⟩
  exact (registry_serve started_startState _ hreqs).1

def swRequest (v : Nat) : Request := .register ⟨false, true, 1, .sw v⟩

theorem wp_swRequest {s : State} {v : Nat} (hv : v ≤ maximumSwiValue) (hno : v ∉ swValues s.db) :
    wp (serveRequest ae (swRequest v)) (fun _ t => swValues t.db = swValues s.db ++ [v])
      (fun _ _ => False) s := by
  have hany : v ≠ anySwiValue := fun hc => absurd hv (by rw [hc]; decide)
  have hle : ¬ v > maximumSwiValue := Nat.not_lt.mpr hv
  have hdup : (smiInputValueDuplicateCheck s.db v).isError = false := by
    rw [duplicateCheck_success.mpr hno]
    rfl
  simp only [serveRequest, swRequest, qncSmmCoreRegister, registerSw, insertRecord, clearSourceOf,
    wp_bind, wp_get, wp_modify, wp_pure, hany, hle, hdup, Bool.false_eq_true, if_false, not_true_eq_false]
  simp [swValues, DatabaseRecord.swValue?]

theorem serve_swRequests (ae : Bool) : ∀ (vs : List Nat) (s : State),
    (∀ v ∈ vs, v ≤ maximumSwiValue) → (swValues s.db ++ vs).Nodup →
      ∃ s', serve (serveRequest ae) (vs.map swRequest) s = .ret () s' ∧
        swValues s'.db = swValues s.db ++ vs := by
  intro vs
  induction vs with
  | nil => intro s _ _; exact ⟨s, rfl, (List.append_nil _).symm⟩
  | cons v vs ih =>
    intro s hle hnodup
    have hno : v ∉ swValues s.db := fun h =>
      (List.nodup_append.mp hnodup).2.2 v h v List.mem_cons_self rfl
    obtain ⟨_, t, ht, htv⟩ := returns_of_wp (wp_swRequest (hle v List.mem_cons_self) hno)
    have hassoc : swValues t.db ++ vs = swValues s.db ++ v :: vs := by
      rw [htv, List.append_assoc, List.singleton_append]
    obtain ⟨u, hu, huv⟩ := ih t (fun w hw => hle w (List.mem_cons_of_mem v hw)) (hassoc ▸ hnodup)
    exact ⟨u, (bind_of_ret ht).trans hu, huv.trans hassoc⟩

/-- With the values `1` to `0xFE` in use and `0xFF` free, an automatic request is turned down. -/
theorem automaticRequest_refused :
    ∃ s, serve (serveRequest true) ((List.range' 1 254).map swRequest) startState = .ret () s ∧
      FreeValue s maximumSwiValue ∧ ¬ CallSound true automaticRequest s := by
  obtain ⟨s, hs, hvalues⟩ := serve_swRequests true (List.range' 1 254) startState
    (fun v hv => by
      have := (List.mem_range'_1.mp hv).2
      show v ≤ 255
      omega) List.nodup_range'
  have hvalues : swValues s.db = List.range' 1 254 := hvalues
  have hfree : FreeValue s maximumSwiValue := by
    refine ⟨by decide, le_refl _, ?_⟩
    rw [hvalues, List.mem_range'_1]
    decide
  have hnone : freeSwiValue s.db = none := by
    rw [freeSwiValue, List.find?_eq_none]
    intro v hv hsucc
    have hno := duplicateCheck_success.mp (by simpa using hsucc)
    rw [hvalues] at hno
    exact hno hv
  have hrefused : wp (serveRequest true automaticRequest) (fun r _ => r.1 = .outOfResources)
      (fun _ _ => False) s := by
    simp only [serveRequest, automaticRequest, qncSmmCoreRegister, wp_bind, wp_get, wp_pure, hnone,
      Bool.false_eq_true, if_false, not_true_eq_false, if_true]
  refine ⟨s, hs, hfree, fun hsound => ?_⟩
  obtain ⟨⟨st, context⟩, t, hret, hst⟩ := returns_of_wp hrefused
  have hauto := (hsound st context t hret).2 ⟨rfl, rfl, rfl⟩ ⟨_, hfree⟩
  exact absurd (hst.symm.trans hauto.1) (by decide)

end Quark.SmmDispatcher
