import Quark.SmmDispatcher.Callbacks
import Quark.SmmDispatcher.Proofs.RegistrationProofs

/-!
# Callbacks that change the database

The calls of a callback take records out of the database and put new ones at its end. The dispatcher holds on
to two records while a callback runs: the one that is called, and the one that the source was found in.
-/

namespace Quark.SmmDispatcher

open Machine Exec

variable {ae : Bool}

/-! ## Changes of the database -/

/-- From `s` to `t` the records that are kept change no more than their elapsed times, and new ones with new
handles are added. -/
structure Edited (keep : Nat → Bool) (s t : State) : Prop where
  db : ∃ g new, KeepsRecords g ∧ t.db = (s.db.filter fun r => keep r.handle).map g ++ new ∧
    (new.map (·.handle)).Nodup ∧ ∀ r ∈ new, s.nextHandle ≤ r.handle ∧ r.handle < t.nextHandle
  next : s.nextHandle ≤ t.nextHandle

theorem Edited.of_map {s t : State} {g : DatabaseRecord → DatabaseRecord} (hg : KeepsRecords g)
    (hdb : t.db = s.db.map g) (hnext : t.nextHandle = s.nextHandle) : Edited (fun _ => true) s t := by
  refine ⟨⟨g, [], hg, ?_, List.nodup_nil, fun r hr => absurd hr List.not_mem_nil⟩, hnext.ge⟩
  rw [hdb, List.append_nil, List.filter_true]

theorem Edited.refl {s t : State} (hdb : t.db = s.db) (hnext : t.nextHandle = s.nextHandle) :
    Edited (fun _ => true) s t :=
  .of_map keepsRecords_id (hdb.trans (List.map_id _).symm) hnext

theorem Edited.trans {s t u : State} {keep keep' : Nat → Bool} (h : Edited keep s t)
    (h' : Edited keep' t u) : Edited (fun k => keep k && keep' k) s u := by
  obtain ⟨g, new, hg, hdb, hnodup, hnew⟩ := h.db
  obtain ⟨g', new', hg', hdb', hnodup', hnew'⟩ := h'.db
  have hfilter : ∀ rs : List DatabaseRecord,
      (rs.map g).filter (fun r => keep' r.handle) = (rs.filter fun r => keep' r.handle).map g := by
    intro rs
    rw [List.filter_map]
    congr 2
    funext r
    exact congrArg keep' (hg.handle r)
  refine ⟨⟨g' ∘ g, (new.filter fun r => keep' r.handle).map g' ++ new', ?_, ?_, ?_, ?_⟩,
    h.next.trans h'.next⟩
  · intro r
    obtain ⟨e, he⟩ := hg r
    obtain ⟨e', he'⟩ := hg' (g r)
    exact ⟨e', by rw [Function.comp_apply, he', he]⟩
  · rw [hdb', hdb, List.filter_append, hfilter, List.map_append, List.map_map, List.filter_filter,
      List.append_assoc]
    congr 3
    funext r
    exact Bool.and_comm _ _
  · rw [List.map_append, hg'.map_handle]
    refine List.nodup_append.mpr ⟨?_, hnodup', ?_⟩
    · exact hnodup.sublist (List.filter_sublist.map _)
    · intro x hx y hy hxy
      obtain ⟨r, hr, rfl⟩ := List.mem_map.mp hx
      obtain ⟨r', hr', rfl⟩ := List.mem_map.mp hy
      have hlt := (hnew r (List.mem_of_mem_filter hr)).2
      have hge := (hnew' r' hr').1
      omega
  · intro r hr
    rcases List.mem_append.mp hr with hr | hr
    · obtain ⟨r', hr', rfl⟩ := List.mem_map.mp hr
      rw [hg'.handle]
      have := hnew r' (List.mem_of_mem_filter hr')
      have := h'.next
      omega
    · have := hnew' r hr
      have := h.next
      omega

theorem Edited.handles {s t : State} {keep : Nat → Bool} (h : Edited keep s t) :
    ∃ new, SmmDispatcher.handles t = (SmmDispatcher.handles s).filter keep ++ new ∧ new.Nodup ∧
      ∀ k ∈ new, s.nextHandle ≤ k ∧ k < t.nextHandle := by
  obtain ⟨g, new, hg, hdb, hnodup, hnew⟩ := h.db
  refine ⟨new.map (·.handle), ?_, hnodup, ?_⟩
  · unfold SmmDispatcher.handles
    rw [hdb, List.map_append, hg.map_handle, List.filter_map]
    rfl
  · intro k hk
    obtain ⟨r, hr, rfl⟩ := List.mem_map.mp hk
    exact hnew r hr

theorem Handles.edited {s t : State} {keep : Nat → Bool} (h : Handles s) (hedit : Edited keep s t) :
    Handles t := by
  obtain ⟨new, hhandles, hnodup, hnew⟩ := hedit.handles
  have hnext := hedit.next
  refine ⟨?_, ?_⟩
  · intro k hk
    rw [hhandles] at hk
    rcases List.mem_append.mp hk with hk | hk
    · have := h.lt k (List.mem_of_mem_filter hk)
      omega
    · exact (hnew k hk).2
  · rw [hhandles]
    refine List.nodup_append.mpr ⟨h.nodup.filter _, hnodup, ?_⟩
    intro x hx y hy hxy
    have hlt := h.lt x (List.mem_of_mem_filter hx)
    have hge := (hnew y hy).1
    omega

theorem Edited.origin {s t : State} {keep : Nat → Bool} (h : Edited keep s t) {r : DatabaseRecord}
    (hr : r ∈ t.db) (hlt : r.handle < s.nextHandle) :
    ∃ r₀ ∈ s.db, ∃ elapsed, r = { r₀ with elapsedTime := elapsed } := by
  obtain ⟨g, new, hg, hdb, -, hnew⟩ := h.db
  rw [hdb] at hr
  rcases List.mem_append.mp hr with hr | hr
  · obtain ⟨r₀, hr₀, rfl⟩ := List.mem_map.mp hr
    exact ⟨r₀, List.mem_of_mem_filter hr₀, hg r₀⟩
  · exact absurd hlt (Nat.not_lt.mpr (hnew r hr).1)

/-! ## Calls of the protocols -/

def Edits {α : Type} (keep : Nat → Bool) (x : Exec State α) (s : State) : Prop :=
  wp x (fun _ t => Edited keep s t ∧ t.log = s.log) (fun w _ => w ≠ .outOfBounds) s

structure SameRecords (g : DatabaseRecord → DatabaseRecord) (s t : State) : Prop where
  db : t.db = s.db.map g
  next : t.nextHandle = s.nextHandle
  log : t.log = s.log

theorem wp_programTimers_same (s : State) :
    wp (qncSmmPeriodicTimerProgramTimers ae) (fun _ t => SameRecords id s t) (fun w _ => w ≠ .outOfBounds)
      s := by
  have hid : s.db = s.db.map id := (List.map_id _).symm
  unfold qncSmmPeriodicTimerProgramTimers
  rw [wp_bind, wp_get, wp_bind, wp_modify, wp_ite]
  refine ⟨fun _ => ?_, fun _ => ⟨hid, rfl, rfl⟩⟩
  rw [wp_bind, selectRate]
  cases smmPeriodicTimerIntervals.idxOf? (scanTimers s.db).2 with
  | some index => exact ⟨hid, rfl, rfl⟩
  | none =>
    rw [wp_bind, wp_assert]
    exact ⟨fun _ => ⟨hid, rfl, rfl⟩, fun _ h => by cases h⟩

theorem wp_clearSourceOf_same (fn : Option ClearSourceFn) (src : SourceDesc) (s : State) :
    wp (clearSourceOf ae fn src) (fun _ t => ∃ g, KeepsRecords g ∧ SameRecords g s t)
      (fun w _ => w ≠ .outOfBounds) s := by
  have hid : s.db = s.db.map id := (List.map_id _).symm
  cases fn with
  | none => exact ⟨id, keepsRecords_id, hid, rfl, rfl⟩
  | some fn =>
    cases fn with
    | qncn => exact ⟨id, keepsRecords_id, hid, rfl, rfl⟩
    | periodicTimer =>
      show wp (qncSmmPeriodicTimerProgramTimers ae >>= _) _ _ s
      rw [wp_bind]
      refine wp_mono (wp_programTimers_same s) ?_ (fun _ _ h => h)
      intro _ t ht
      rw [wp_modify]
      refine ⟨resetElapsed, keepsRecords_resetElapsed, ?_, ht.next, ht.log⟩
      show t.db.map resetElapsed = _
      rw [ht.db, List.map_id]

theorem edits_insertRecord {s t : State} (record : DatabaseRecord) (h : SameRecords id s t)
    (hhandle : record.handle = s.nextHandle) :
    wp (insertRecord ae record) (fun _ u => Edited (fun _ => true) s u ∧ u.log = s.log)
      (fun w _ => w ≠ .outOfBounds) t := by
  rw [insertRecord, wp_bind, wp_modify, wp_bind]
  refine wp_mono (wp_clearSourceOf_same _ _ _) ?_ (fun _ _ h => h)
  rintro _ u ⟨g, hg, hdb, hnext, hlog⟩
  rw [wp_modify]
  have hnext' : u.nextHandle = s.nextHandle + 1 := hnext.trans (congrArg (· + 1) h.next)
  refine ⟨⟨⟨g, [g record], hg, ?_, List.nodup_singleton _, ?_⟩, ?_⟩, hlog.trans h.log⟩
  · show u.db = _
    rw [hdb]
    show (t.db ++ [record]).map g = _
    rw [h.db, List.map_id, List.filter_true, List.map_append]
    rfl
  · intro r hr
    rw [List.mem_singleton.mp hr, hg.handle, hhandle]
    show _ ≤ _ ∧ _ < u.nextHandle
    omega
  · show _ ≤ u.nextHandle
    omega

theorem edits_pure {α : Type} (a : α) (s : State) : Edits (fun _ => true) (pure a) s :=
  ⟨.refl rfl rfl, rfl⟩

theorem edits_insert {α : Type} {s t : State} (record : DatabaseRecord) (a : α) (h : SameRecords id s t)
    (hhandle : record.handle = s.nextHandle) :
    wp (insertRecord ae record >>= fun _ => pure a) (fun _ u => Edited (fun _ => true) s u ∧ u.log = s.log)
      (fun w _ => w ≠ .outOfBounds) t := by
  rw [wp_bind]
  exact edits_insertRecord record h hhandle

theorem edits_registerSw (callback value : Nat) (s : State) :
    Edits (fun _ => true) (registerSw ae callback value) s := by
  unfold Edits
  rw [registerSw, wp_bind, wp_get, wp_ite]
  refine ⟨fun _ => edits_pure _ s, fun _ => ?_⟩
  rw [wp_ite]
  exact ⟨fun _ => edits_pure _ s, fun _ => edits_insert _ _ ⟨(List.map_id _).symm, rfl, rfl⟩ rfl⟩

theorem edits_register (req : Registration) (s : State) :
    Edits (fun _ => true) (qncSmmCoreRegister ae req) s := by
  have hsame : SameRecords id s s := ⟨(List.map_id _).symm, rfl, rfl⟩
  unfold Edits qncSmmCoreRegister
  rw [wp_ite]
  refine ⟨fun _ => edits_pure _ s, fun _ => ?_⟩
  rw [wp_ite]
  refine ⟨fun _ => edits_pure _ s, fun _ => ?_⟩
  rw [wp_bind, wp_get]
  cases req.context with
  | sx type phase =>
    show wp (ite _ _ _) _ _ s
    rw [wp_ite]
    exact ⟨fun _ => edits_pure _ s, fun _ => edits_insert _ _ hsame rfl⟩
  | sw value =>
    dsimp only
    split
    · exact edits_pure _ s
    · exact edits_registerSw _ _ s
  | gpi num => exact edits_insert _ _ hsame rfl
  | qncn type =>
    show wp (ite _ _ _) _ _ s
    rw [wp_ite]
    exact ⟨fun _ => edits_pure _ s, fun _ => edits_insert _ _ hsame rfl⟩
  | periodicTimer period tick =>
    dsimp only
    split
    · exact edits_pure _ s
    · rw [wp_bind]
      refine wp_mono (wp_programTimers_same s) ?_ (fun _ _ h => h)
      intro _ t ht
      exact edits_insert _ _ ht rfl
  | powerButton phase => exact edits_pure _ s

theorem edits_unRegister (handle : Nat) (s : State) :
    Edits (fun k => k ≠ handle) (qncSmmCoreUnRegister handle) s := by
  have hfilter : ∀ t : State, t.db = s.db.filter (fun r => decide (r.handle ≠ handle)) →
      t.nextHandle = s.nextHandle → Edited (fun k => k ≠ handle) s t := by
    intro t hdb hnext
    refine ⟨⟨id, [], keepsRecords_id, ?_, List.nodup_nil, fun r hr => absurd hr List.not_mem_nil⟩, hnext.ge⟩
    rw [hdb, List.map_id, List.append_nil]
  unfold Edits
  rw [qncSmmCoreUnRegister, wp_bind, wp_get]
  cases hfind : s.db.find? (fun r => decide (r.handle = handle)) with
  | none =>
    refine ⟨hfilter s ?_ rfl, rfl⟩
    refine (List.filter_eq_self.mpr fun r hr => ?_).symm
    simpa using List.find?_eq_none.mp hfind r hr
  | some record =>
    show wp (Exec.modify _ >>= _) _ _ s
    rw [wp_bind, wp_modify, wp_bind, wp_get, wp_bind, wp_when]
    exact ⟨fun _ => ⟨hfilter _ rfl rfl, rfl⟩, fun _ => ⟨hfilter _ rfl rfl, rfl⟩⟩

def keeps (reqs : List Request) (k : Nat) : Bool := Request.unRegister k ∉ reqs

theorem edits_serveRequest (q : Request) (s : State) : Edits (keeps [q]) (serveRequest ae q) s := by
  unfold Edits
  cases q with
  | register req =>
    have hkeep : keeps [.register req] = fun _ => true := by
      funext k
      simp [keeps]
    rw [serveRequest, wp_bind, hkeep]
    exact edits_register req s
  | unRegister handle =>
    have hkeep : keeps [.unRegister handle] = fun k => decide (k ≠ handle) := by
      funext k
      simp [keeps]
    rw [serveRequest, wp_bind, hkeep]
    exact edits_unRegister handle s

theorem edits_serve (reqs : List Request) (s : State) :
    Edits (keeps reqs) (serve (serveRequest ae) reqs) s := by
  induction reqs generalizing s with
  | nil =>
    have hkeep : keeps [] = fun _ => true := by
      funext k
      simp [keeps]
    rw [hkeep]
    exact edits_pure () s
  | cons q reqs ih =>
    have hkeep : keeps (q :: reqs) = fun k => keeps [q] k && keeps reqs k := by
      funext k
      simp [keeps, not_or]
    unfold Edits
    show wp (serveRequest ae q >>= _) _ _ s
    rw [wp_bind, hkeep]
    refine wp_mono (edits_serveRequest q s) ?_ (fun _ _ h => h)
    rintro _ t ⟨hedit, hlog⟩
    refine wp_mono (ih t) ?_ (fun _ _ h => h)
    rintro _ u ⟨hedit', hlog'⟩
    exact ⟨hedit.trans hedit', hlog'.trans hlog⟩

/-! ## Turns -/

def Turn.call? (turn : Turn) : Option Event :=
  let r := (contextsMatch turn.hw turn.record).2
  if turn.matched then
    some (.call r.handle r.callback r.childContext r.elapsedTime)
  else none

def turnCount (turns : List Turn) (handle : Nat) : Nat := turns.countP (·.record.handle = handle)

theorem handle_contextsMatch (hw : Hw) (r : DatabaseRecord) : (contextsMatch hw r).2.handle = r.handle := by
  obtain ⟨elapsed, he⟩ := contextsMatch_record hw r
  rw [he]

theorem keepsRecords_withElapsed (handle elapsed : Nat) : KeepsRecords (withElapsed handle elapsed) := by
  intro r
  unfold withElapsed
  split
  · exact ⟨elapsed, rfl⟩
  · exact ⟨r.elapsedTime, rfl⟩

theorem edited_storeElapsed (r : DatabaseRecord) (s : State) :
    Edited (fun _ => true) s (storeElapsed r s) :=
  .of_map (keepsRecords_withElapsed r.handle r.elapsedTime) rfl rfl

theorem countP_calls (turns : List Turn) (handle : Nat) :
    (turns.filterMap Turn.call?).countP (Event.calls handle) =
      (turns.filter (·.record.handle = handle)).countP Turn.matched := by
  induction turns with
  | nil => rfl
  | cons turn turns ih =>
    have hhandle := handle_contextsMatch turn.hw turn.record
    by_cases hm : turn.matched = true
    · have hcall : turn.call? = some (.call turn.record.handle (contextsMatch turn.hw turn.record).2.callback
          (contextsMatch turn.hw turn.record).2.childContext
          (contextsMatch turn.hw turn.record).2.elapsedTime) := by
        unfold Turn.call?
        rw [if_pos hm, hhandle]
      rw [List.filterMap_cons_some hcall]
      by_cases hh : turn.record.handle = handle
      · rw [List.countP_cons_of_pos (by simpa [Event.calls] using hh),
          List.filter_cons_of_pos (by simpa using hh), List.countP_cons_of_pos hm, ih]
      · rw [List.countP_cons_of_neg (by simpa [Event.calls] using hh),
          List.filter_cons_of_neg (by simpa using hh), ih]
    · have hcall : turn.call? = none := by
        unfold Turn.call?
        rw [if_neg hm]
      rw [List.filterMap_cons_none hcall]
      by_cases hh : turn.record.handle = handle
      · rw [List.filter_cons_of_pos (by simpa using hh), List.countP_cons_of_neg hm, ih]
      · rw [List.filter_cons_of_neg (by simpa using hh), ih]

/-! ## Rounds -/

theorem wp_recordAt {s : State} {handle : Nat} (h : handle ∈ handles s) :
    wp (recordAt handle) (fun r t => t = s ∧ s.db.find? (·.handle = handle) = some r ∧ r ∈ s.db ∧
      r.handle = handle) (fun w _ => w ≠ .outOfBounds) s := by
  rw [recordAt, wp_bind, wp_get]
  cases hfind : s.db.find? (fun r => decide (r.handle = handle)) with
  | none =>
    obtain ⟨r, hr, hh⟩ := List.mem_map.mp h
    exact absurd hh (by simpa using List.find?_eq_none.mp hfind r hr)
  | some r => exact ⟨rfl, rfl, List.mem_of_find?_eq_some hfind, by simpa using List.find?_some hfind⟩

theorem wp_getNextNode {s : State} {handle : Nat} (h : handle ∈ handles s) :
    wp (getNextNode handle) (fun n t => t = s ∧ n = next? (handles s) handle)
      (fun w _ => w ≠ .outOfBounds) s := by
  rw [getNextNode, wp_bind]
  refine wp_mono (wp_recordAt h) ?_ (fun _ _ h => h)
  rintro _ t ⟨rfl, -⟩
  exact ⟨rfl, rfl⟩

/-- What the turn of a record does: a turn and its call are noted, and the database is edited. -/
structure TurnTaken (keep : Nat → Bool) (r : DatabaseRecord) (l : Exhausting) (s : State) (l' : Exhausting)
    (t : State) : Prop where
  edited : Edited keep s t
  turns : l'.turns = l.turns ++ [⟨r, s.hw⟩]
  log : t.log = s.log ++ (Turn.call? ⟨r, s.hw⟩).toList

theorem wp_callChild (callbacks : Callbacks) (r : DatabaseRecord) (s : State) :
    wp (callChild ae callbacks r) (fun _ t => Edited (keeps (callbacks r (entered r s)).requests) s t ∧
      t.log = (entered r s).log) (fun w _ => w ≠ .outOfBounds) s := by
  rw [callChild, wp_bind, wp_modify, wp_bind, wp_get, wp_bind]
  refine wp_mono (edits_serve _ (entered r s)) ?_ (fun _ _ h => h)
  rintro _ t ⟨hedit, hlog⟩
  rw [wp_modify]
  have hentered : Edited (fun _ => true) s (entered r s) :=
    .of_map (keepsRecords_withElapsed r.handle r.elapsedTime) rfl rfl
  refine ⟨?_, hlog⟩
  have htrans := hentered.trans hedit
  simp only [Bool.true_and] at htrans
  exact ⟨htrans.db, htrans.next⟩

theorem wp_dispatchRecord (callbacks : Callbacks) {r : DatabaseRecord} (l : Exhausting) {s : State}
    (hr : r.handle ∈ handles s)
    (hspare : (contextsMatch s.hw r).1 = true → Request.unRegister r.handle ∉
      (callbacks (contextsMatch s.hw r).2 (entered (contextsMatch s.hw r).2 s)).requests) :
    wp (dispatchRecord ae callbacks r l) (fun l' t => ∃ keep, TurnTaken keep r l s l' t ∧
      ∀ k, keep k = false → (contextsMatch s.hw r).1 = true ∧ Request.unRegister k ∈
        (callbacks (contextsMatch s.hw r).2 (entered (contextsMatch s.hw r).2 s)).requests)
      (fun w _ => w ≠ .outOfBounds) s := by
  rw [dispatchRecord, wp_bind, wp_get, wp_ite]
  refine ⟨fun hm => ?_, fun hm => ?_⟩
  · rw [wp_bind]
    refine wp_mono (wp_callChild callbacks _ s) ?_ (fun _ _ h => h)
    rintro _ t ⟨hedit, hlog⟩
    have hstays : r.handle ∈ handles t := by
      obtain ⟨new, hhandles, -, -⟩ := hedit.handles
      rw [hhandles]
      refine List.mem_append_left _ (List.mem_filter.mpr ⟨hr, ?_⟩)
      exact decide_eq_true (hspare hm)
    rw [wp_bind]
    refine wp_mono (wp_recordAt hstays) ?_ (fun _ _ h => h)
    rintro r' _ ⟨rfl, -⟩
    refine ⟨_, ⟨hedit, rfl, ?_⟩, fun k hk => ⟨hm, ?_⟩⟩
    · have hmatched : Turn.matched ⟨r, s.hw⟩ = true := hm
      rw [hlog, Turn.call?, if_pos hmatched]
      rfl
    · simpa [keeps] using hk
  · rw [wp_bind, wp_modify]
    refine ⟨fun _ => true, ⟨edited_storeElapsed _ s, rfl, ?_⟩, nofun⟩
    have hmatched : ¬ Turn.matched ⟨r, s.hw⟩ = true := hm
    rw [Turn.call?, if_neg hmatched]
    exact (List.append_nil _).symm

def watched (s : State) (a : DatabaseRecord) : List Nat :=
  (s.db.filter fun r => compareSources r.srcDesc a.srcDesc).map (·.handle)

/-- What holds at the head of every round for the source of `a`, from the state `s` on. -/
structure Queue (s : State) (a : DatabaseRecord) (l : Exhausting) (t : State) : Prop where
  unique : Handles t
  next : s.nextHandle ≤ t.nextHandle
  found : a.handle ∈ handles t
  origin : ∀ r ∈ t.db, r.handle < s.nextHandle →
    ∃ r₀ ∈ s.db, ∃ elapsed, r = { r₀ with elapsedTime := elapsed }
  walking : Walking (watched s a) (handles t) l.linkToExhaust (turnCount l.turns)
  turnOrigin : ∀ turn ∈ l.turns, turn.record.handle < s.nextHandle →
    ∃ r₀ ∈ s.db, ∃ elapsed, turn.record = { r₀ with elapsedTime := elapsed }
  log : t.log = s.log ++ .active a.srcDesc :: l.turns.filterMap Turn.call?

theorem watched_lt {s : State} (h : Handles s) {a : DatabaseRecord} {k : Nat} (hk : k ∈ watched s a) :
    k < s.nextHandle := by
  obtain ⟨r, hr, rfl⟩ := List.mem_map.mp hk
  exact h.lt _ (List.mem_map_of_mem (List.mem_of_mem_filter hr))

theorem Handles.inj {s : State} (h : Handles s) {r r' : DatabaseRecord} (hr : r ∈ s.db) (hr' : r' ∈ s.db)
    (heq : r.handle = r'.handle) : r = r' :=
  List.inj_on_of_nodup_map h.nodup hr hr' heq

theorem Queue.step {callbacks : Callbacks} {s t : State} {a : DatabaseRecord} {l : Exhausting}
    (hs : Handles s) (h : Queue s a l t) (hspare : RoundSpares callbacks a l t) :
    wp (exhaustStep ae callbacks a.srcDesc l) (fun x t' => match x with
      | .inl l' => Queue s a l' t'
      | .inr l' => Queue s a l' t' ∧ l'.linkToExhaust = none) (fun w _ => w ≠ .outOfBounds) t := by
  unfold exhaustStep
  cases hlink : l.linkToExhaust with
  | none => exact ⟨h, hlink⟩
  | some link =>
    have hwalk := h.walking
    rw [hlink] at hwalk
    have hmem : link ∈ handles t := by
      obtain ⟨done, todo, hsplit, hcursor, -⟩ := hwalk.split
      rw [hsplit]
      exact List.mem_append_right _ (List.mem_of_mem_head? hcursor.symm)
    dsimp only
    rw [wp_bind]
    refine wp_mono (wp_recordAt hmem) ?_ (fun _ _ h => h)
    rintro r t₁ ⟨ht, hfind, hr, hhandle⟩
    rw [ht]
    have hnew : ∀ {t' : State} {new : List Nat}, (∀ k ∈ new, t.nextHandle ≤ k ∧ k < t'.nextHandle) →
        ∀ k ∈ new, k ∉ watched s a := by
      intro t' new hlt k hk hw
      have hge := (hlt k hk).1
      have := watched_lt hs hw
      have := h.next
      omega
    -- the rest of the round, after whatever the turn of the record did
    have hrest : ∀ (l' : Exhausting) (t' : State) (keep : Nat → Bool), Edited keep t t' →
        keep link = true → keep a.handle = true →
        (link ∈ watched s a → turnCount l'.turns link = turnCount l.turns link + 1) →
        (∀ k, k ≠ link → turnCount l'.turns k = turnCount l.turns k) →
        (∀ turn ∈ l'.turns, turn.record.handle < s.nextHandle →
          ∃ r₀ ∈ s.db, ∃ elapsed, turn.record = { r₀ with elapsedTime := elapsed }) →
        t'.log = s.log ++ .active a.srcDesc :: l'.turns.filterMap Turn.call? →
        wp (getNextNode link >>= fun next =>
          (pure (.inl { l' with linkToExhaust := next }) : Exec State (Exhausting ⊕ Exhausting)))
          (fun x t' => match x with
            | .inl l' => Queue s a l' t'
            | .inr l' => Queue s a l' t' ∧ l'.linkToExhaust = none) (fun w _ => w ≠ .outOfBounds) t' := by
      intro l' t' keep hedit hkl hka hcount hother hturn hlog
      obtain ⟨new, hhandles, hnodup, hfresh⟩ := hedit.handles
      have hstay : ∀ k, k ∈ handles t → keep k = true → k ∈ handles t' := by
        intro k hk hkeep
        rw [hhandles]
        exact List.mem_append_left _ (List.mem_filter.mpr ⟨hk, hkeep⟩)
      have hunique := h.unique.edited hedit
      rw [wp_bind]
      refine wp_mono (wp_getNextNode (hstay link hmem hkl)) ?_ (fun _ _ h => h)
      rintro n _ ⟨rfl, rfl⟩
      refine ⟨hunique, h.next.trans hedit.next, hstay _ h.found hka, ?_, ?_, hturn, hlog⟩
      · intro r' hr' hlt
        obtain ⟨r₁, hr₁, e, rfl⟩ := hedit.origin hr' (hlt.trans_le h.next)
        obtain ⟨r₀, hr₀, e', he'⟩ := h.origin r₁ hr₁ hlt
        exact ⟨r₀, hr₀, e, by rw [he']⟩
      · exact hwalk.step hhandles hkl hunique.nodup (hnew hfresh) hcount hother
    rw [wp_ite]
    refine ⟨fun hsrc => ?_, fun hsrc => ?_⟩
    · have hno : ∀ k, k = link ∨ k = a.handle → (contextsMatch t.hw r).1 = true →
          Request.unRegister k ∉
            (callbacks (contextsMatch t.hw r).2 (entered (contextsMatch t.hw r).2 t)).requests :=
        fun k hk hm => hspare link r hlink hfind hsrc hm k hk
      rw [wp_bind]
      refine wp_mono (wp_dispatchRecord callbacks l (hhandle ▸ hmem)
        fun hm => hno r.handle (.inl hhandle) hm) ?_ (fun _ _ h => h)
      rintro l' t' ⟨keep, htaken, hkeep⟩
      have hkept : ∀ k, k = link ∨ k = a.handle → keep k = true := by
        intro k hk
        by_contra hc
        obtain ⟨hm, hmem'⟩ := hkeep k (by simpa using hc)
        exact hno k hk hm hmem'
      refine hrest l' t' keep htaken.edited (hkept link (.inl rfl)) (hkept _ (.inr rfl)) ?_ ?_ ?_ ?_
      · intro _
        unfold turnCount
        rw [htaken.turns, List.countP_append, List.countP_singleton]
        simp [hhandle]
      · intro k hk
        unfold turnCount
        rw [htaken.turns, List.countP_append, List.countP_singleton]
        have hne : ¬ r.handle = k := fun hc => hk (hc.symm.trans hhandle)
        simp [hne]
      · intro turn hturn hlt
        rw [htaken.turns] at hturn
        rcases List.mem_append.mp hturn with hturn | hturn
        · exact h.turnOrigin turn hturn hlt
        · rw [List.mem_singleton] at hturn
          subst hturn
          exact h.origin r hr hlt
      · rw [htaken.log, h.log, htaken.turns, List.filterMap_append, List.append_assoc, List.cons_append]
        cases hc : Turn.call? ⟨r, t.hw⟩ <;> simp [hc]
    · rw [wp_bind, wp_pure]
      refine hrest l t (fun _ => true) (.refl rfl rfl) rfl rfl ?_ (fun _ _ => rfl) h.turnOrigin h.log
      -- a record that is not of the source is not watched
      intro hw
      obtain ⟨r₀, hr₀, hh⟩ := List.mem_map.mp hw
      obtain ⟨hr₀, hsrc₀⟩ := List.mem_filter.mp hr₀
      have hlt : r.handle < s.nextHandle := by
        rw [hhandle]
        exact watched_lt hs hw
      obtain ⟨r₁, hr₁, e, he⟩ := h.origin r hr hlt
      have hsame : r₁ = r₀ := by
        refine hs.inj hr₁ hr₀ ?_
        have : r.handle = r₁.handle := by rw [he]
        exact this.symm.trans (hhandle.trans hh.symm)
      rw [he, hsame] at hsrc
      exact absurd hsrc₀ hsrc

/-! ## One call -/

section Call

variable {callbacks : Callbacks} {s : State} {a : DatabaseRecord}

theorem Queue.start (hok : ∀ r ∈ s.db, RecordOk r) (hs : Handles s) (ha : firstActive s = some a)
    (child sx : Bool) :
    Queue s a ⟨some a.handle, child, sx, []⟩ { s with log := s.log ++ [.active a.srcDesc] } := by
  obtain ⟨hactive, pre, post, hsplit, hpre⟩ := List.find?_eq_some_iff_append.mp ha
  have hmem : a ∈ s.db := List.mem_of_find?_eq_some ha
  refine ⟨⟨hs.lt, hs.nodup⟩, le_refl _, List.mem_map_of_mem hmem, fun r hr _ => ⟨r, hr, r.elapsedTime, rfl⟩,
    ⟨hs.nodup, pre.map (·.handle), (a :: post).map (·.handle), ?_, rfl, ?_, fun _ _ _ => rfl⟩,
    fun turn hturn => absurd hturn List.not_mem_nil, rfl⟩
  · show s.db.map (·.handle) = _
    rw [hsplit, List.map_append]
  · intro k hk hpre'
    obtain ⟨r, hr, rfl⟩ := List.mem_map.mp hk
    obtain ⟨hr, hsrc⟩ := List.mem_filter.mp hr
    obtain ⟨r', hr', hh⟩ := List.mem_map.mp hpre'
    have hmem' : r' ∈ s.db := by
      rw [hsplit]
      exact List.mem_append_left _ hr'
    have hsame : r' = r := hs.inj hmem' hr hh
    have heq : r.srcDesc = a.srcDesc :=
      (compareSources_iff (mem_descs_of_recordOk (hok r hr)) (mem_descs_of_recordOk (hok a hmem))).mp hsrc
    have hinactive := hpre r' hr'
    rw [hsame, heq] at hinactive
    simp [hactive] at hinactive

def Served (s : State) (a : DatabaseRecord) (turns : List Turn) (t : State) : Prop :=
  ∃ l u, Queue s a l u ∧ l.linkToExhaust = none ∧ l.turns = turns ∧ handles t = handles u ∧ t.log = u.log

theorem wp_serveSource (hok : ∀ r ∈ s.db, RecordOk r) (hs : Handles s) (ha : firstActive s = some a)
    (hspare : CallsSpare ae callbacks s) (fuel : Nat) :
    wp (serveSource ae callbacks fuel ⟨false, false, .interruptSourcePending⟩ a)
      (fun r t => Served s a r.2 t) (fun w _ => w ≠ .outOfBounds) s := by
  rw [serveSource, wp_bind, wp_modify, wp_bind]
  refine wp_mono (wp_loop_visits (R := fun l t => Queue s a l t ∧ l.linkToExhaust = none)
    (fun l t => Queue s a l t) _ _ ?_ (fun _ _ _ => nofun) fuel
    (Queue.start hok hs ha false a.childContext.isSx)) ?_ (fun _ _ h => h)
  · intro l t hv h
    refine wp_mono (h.step hs (hspare a ha l t hv)) ?_ (fun _ _ h => h)
    rintro (l' | l') t' h'
    · exact h'
    · exact h'
  rintro l t ⟨hqueue, hnone⟩
  rw [wp_bind]
  refine wp_mono (wp_recordAt hqueue.found) ?_ (fun _ _ h => h)
  rintro r _ ⟨rfl, -⟩
  rw [wp_bind]
  refine wp_mono (wp_clearSourceOf_same _ _ _) ?_ (fun _ _ h => h)
  rintro _ u ⟨g, hg, hdb, -, hlog⟩
  refine ⟨l, _, hqueue, hnone, rfl, ?_, hlog⟩
  unfold handles
  rw [hdb, hg.map_handle]

def Dispatches (s : State) (turns : List Turn) (t : State) : Prop :=
  (firstActive s = none ∧ t.log = s.log) ∨ ∃ a, firstActive s = some a ∧ Served s a turns t

theorem wp_dispatcherWith (hok : ∀ r ∈ s.db, RecordOk r) (hs : Handles s)
    (hspare : CallsSpare ae callbacks s) (fuel : Nat) :
    wp (dispatcherWith ae callbacks fuel) (fun r t => Dispatches s r.2 t) (fun w _ => w ≠ .outOfBounds)
      s := by
  -- what follows the loop leaves the database and the log
  have hend : ∀ (n : Nat) (l : Locals) (turns : List Turn) (t : State), Dispatches s turns t →
      wp (assert ae (n > 0) >>= fun _ => Exec.when (l.sxChildWasDispatched = true)
        (Exec.modify fun s => { s with hw := qncSmmSxGoToSleep s.hw }) >>= fun _ =>
          (pure (l.status, turns) : Exec State (DispatchStatus × List Turn)))
        (fun r t => Dispatches s r.2 t) (fun w _ => w ≠ .outOfBounds) t := by
    intro n l turns t h
    rw [wp_bind, wp_assert]
    refine ⟨fun _ => ?_, fun _ => nofun⟩
    rw [wp_bind, wp_when]
    exact ⟨fun _ => h, fun _ => h⟩
  rw [dispatcherWith, wp_bind, wp_get, wp_ite]
  refine ⟨fun hempty => ?_, fun _ => ?_⟩
  · have hnone : firstActive s = none := by
      unfold firstActive
      rw [List.isEmpty_iff.mp hempty]
      rfl
    rw [wp_bind, wp_pure]
    exact hend _ _ _ s (.inl ⟨hnone, rfl⟩)
  · rw [wp_bind, dispatchLoopWith, wp_bind, searchWith, wp_bind, wp_get]
    cases ha : firstActive s with
    | none => exact hend _ _ _ _ (.inl ⟨ha, rfl⟩)
    | some a =>
      refine wp_mono (wp_serveSource hok hs ha hspare fuel) ?_ (fun _ _ h => h)
      rintro r t hserved
      exact hend _ _ _ _ (.inr ⟨a, ha, hserved⟩)

theorem DispatchedOnce.of_served {turns : List Turn} {t : State} (hs : Handles s) (h : Served s a turns t)
    {r : DatabaseRecord} (hr : r ∈ s.db) (hsrc : compareSources r.srcDesc a.srcDesc = true)
    (hstays : r.handle ∈ handles t) :
    DispatchedOnce turns (.active a.srcDesc :: turns.filterMap Turn.call?) r := by
  obtain ⟨l, u, hqueue, hnone, rfl, hhandles, -⟩ := h
  have hwalk := hqueue.walking
  rw [hnone] at hwalk
  have hwatched : r.handle ∈ watched s a := List.mem_map_of_mem (List.mem_filter.mpr ⟨hr, hsrc⟩)
  have hone : turnCount l.turns r.handle = 1 := hwalk.finished hwatched (hhandles ▸ hstays)
  unfold turnCount at hone
  rw [List.countP_eq_length_filter, List.length_eq_one_iff] at hone
  obtain ⟨turn, hturn⟩ := hone
  have hmem : turn ∈ l.turns.filter (·.record.handle = r.handle) := by
    rw [hturn]
    exact List.mem_cons_self
  obtain ⟨hmem, hh⟩ := List.mem_filter.mp hmem
  have hh : turn.record.handle = r.handle := of_decide_eq_true hh
  have hlt : turn.record.handle < s.nextHandle := by
    rw [hh]
    exact hs.lt _ (List.mem_map_of_mem hr)
  obtain ⟨r₀, hr₀, e, he⟩ := hqueue.turnOrigin turn hmem hlt
  have hsame : r₀ = r := by
    refine hs.inj hr₀ hr ?_
    have : turn.record.handle = r₀.handle := by rw [he]
    exact this.symm.trans hh
  refine ⟨turn, e, hturn, by rw [he, hsame], ?_⟩
  rw [List.countP_cons_of_neg (by simp [Event.calls]), countP_calls, hturn, List.countP_singleton]

end Call

/-- If every callback that a call of the dispatcher makes spares its own record and the one that the source
was found in, no freed record is used, and every child of the source that stays registered is dispatched once,
whatever else the callbacks do. -/
theorem robust_of_callsSpare (ae : Bool) (callbacks : Callbacks) (s : State) (hok : ∀ r ∈ s.db, RecordOk r)
    (hs : Handles s) (hspare : CallsSpare ae callbacks s) : Robust ae callbacks s := by
  constructor
  · intro fuel t hstop
    have h := wp_dispatcherWith hok hs hspare fuel
    unfold wp at h
    rw [hstop] at h
    exact h rfl
  · intro fuel st turns t hret
    have h : Dispatches s turns t :=
      wp_of_ret (Q := fun r t => Dispatches s r.2 t) (wp_dispatcherWith hok hs hspare fuel) hret
    rcases h with ⟨hnone, hlog⟩ | ⟨a, ha, hserved⟩
    · refine ⟨[], by rw [hlog, List.append_nil], fun a ha => ?_⟩
      rw [hnone] at ha
      nomatch ha
    · refine ⟨.active a.srcDesc :: turns.filterMap Turn.call?, ?_, fun b hb r hr hsrc hstays => ?_⟩
      · obtain ⟨l, u, hqueue, -, rfl, -, hlog⟩ := hserved
        rw [hlog, hqueue.log]
      · rw [ha] at hb
        injection hb with hb
        subst hb
        exact .of_served hs hserved hr hsrc hstays

/-! ## Examples -/

/-- A callback that registers a child for a GPI, and unregisters the child that came after its own. -/
def busyCallback : Callbacks := fun r _ =>
  ⟨[.register ⟨false, true, 3, .gpi 1⟩, .unRegister (r.handle + 1)], id⟩

def oneShotCallback : Callbacks := fun r _ => ⟨[.unRegister r.handle], id⟩

theorem handles_twoChildren (pending : BitVec 32) : Handles (twoChildren pending) :=
  ⟨by simp [handles, twoChildren], by simp [handles, twoChildren]⟩

theorem robust_of_callsSpare_busy : Robust true busyCallback (twoChildren 0x10) := by
  refine robust_of_callsSpare true busyCallback _ (recordOk_twoChildren _) (handles_twoChildren _) ?_
  intro a ha l t _ link r _ hfind _ _ h hh hmem
  have hfirst : firstActive (twoChildren 0x10) = some ⟨0, swSourceDesc, 1, .sw 0x55, 0, none⟩ := by
    decide +kernel
  have hlink : r.handle = link := by simpa using List.find?_some hfind
  rw [hfirst] at ha
  injection ha with ha
  have hlater : h = link + 1 := by
    simpa [busyCallback, handle_contextsMatch, hlink] using hmem
  rcases hh with hh | hh
  · omega
  · rw [← ha] at hh
    have hzero : h = 0 := hh
    omega

def usesFreed {α : Type} : Outcome State α → Bool
  | .stop .outOfBounds _ => true
  | _ => false

/-- A child that unregisters itself from its callback is used after it was freed. -/
theorem not_robust_oneShot : ¬ Robust true oneShotCallback (twoChildren 0x10) := by
  intro h
  have hfreed : usesFreed (dispatcherWith true oneShotCallback 4 (twoChildren 0x10)) = true := by
    decide +kernel
  have hno := h.noFreed 4
  generalize dispatcherWith true oneShotCallback 4 (twoChildren 0x10) = o at hfreed hno
  cases o with
  | ret r t => nomatch hfreed
  | stop w t =>
    cases w with
    | outOfBounds => exact hno t rfl
    | deadLoop => nomatch hfreed
    | unfinished => nomatch hfreed

end Quark.SmmDispatcher
