import Quark.Ohci.HouseKeeper
import Mathlib.Tactic.Cases

/-!
# What one call of the house keeper services

The walk takes the entries at the front of the list that are finished and periodic, one after the other,
and ends at the first entry of another kind. What it does there decides the rest.
-/

namespace Quark.Ohci

open Machine InterruptContextEntry

variable {s t : OhcDev} {e : InterruptContextEntry}

/-! ## Entries -/

theorem exists_cons_cons {α : Type} {l : List α} (h : 2 ≤ l.length) : ∃ a b m, l = a :: b :: m := by
  rcases l with _ | ⟨a, _ | ⟨b, m⟩⟩
  · exact absurd h (by simp)
  · exact absurd h (by simp)
  · exact ⟨a, b, m, rfl⟩

theorem OhcDev.at_iff {C : InterruptContextEntry → Prop} {p : Nat} (h : s.entry p = some e) :
    s.At C p ↔ C e := by
  constructor
  · rintro ⟨e', he', hc⟩
    rw [h] at he'
    cases he'
    exact hc
  · exact fun hc => ⟨e, h, hc⟩

def InterruptContextEntry.serviced (e : InterruptContextEntry) : InterruptContextEntry :=
  match e.ed, e.dataTd with
  | some ed, td :: _ => if e.Completed then resubmit e ed td else e
  | _, _ => e

theorem serviced_nextEntry (e : InterruptContextEntry) : e.serviced.nextEntry = e.nextEntry := by
  unfold serviced
  split
  · split <;> rfl
  · rfl

theorem serviced_of_not_completed (h : ¬ e.Completed) : e.serviced = e := by
  unfold serviced
  split
  · rw [if_neg h]
  · rfl

theorem InterruptContextEntry.WellFormed.exists_tds (h : e.WellFormed) :
    ∃ f ed td td' tds, e.callBackFunction = some f ∧ e.ed = some ed ∧ e.dataTd = td :: td' :: tds := by
  obtain ⟨f, hf⟩ := Option.ne_none_iff_exists'.mp h.callBack
  obtain ⟨ed, hed⟩ := Option.ne_none_iff_exists'.mp h.ed
  obtain ⟨td, td', tds, htd⟩ := exists_cons_cons h.tds
  exact ⟨f, ed, td, td', tds, hf, hed, htd⟩

theorem InterruptContextEntry.WellFormed.call_eq (h : e.WellFormed) (hf : e.Finished) : ∃ c, e.call = some c := by
  obtain ⟨f, ed, td, td', tds, hcb, hed, htd⟩ := h.exists_tds
  refine ⟨ohciInvokeInterruptCallBack f td e.context e.result, ?_⟩
  unfold call
  rw [hcb, htd]
  exact if_pos hf

theorem call_of_pending (h : e.Pending) : e.call = none := by
  unfold call
  split
  · exact if_neg (not_not_intro h)
  · rfl

theorem InterruptContextEntry.Completed.finished (h : e.Completed) : e.Finished := by
  unfold Finished Pending
  rw [show e.result = 0 from h]
  decide

/-! ## Re-submitting -/

theorem setToggles_map {β : Type} (f : TdDescriptor → β)
    (hf : ∀ (td : TdDescriptor) n, f { td with dataToggle := n } = f td) (toggle : Nat)
    (tds : List TdDescriptor) : (setToggles toggle tds).map f = tds.map f := by
  induction tds generalizing toggle with
  | nil => rfl
  | cons td tds ih =>
    cases tds with
    | nil => simp only [setToggles, List.map_cons, List.map_nil, hf]
    | cons td' tds =>
      have ih' := ih (toggle ^^^ 1)
      simp only [setToggles, List.map_cons, hf] at ih' ⊢
      rw [ih']

theorem reactivate_map {β : Type} (f : TdDescriptor → β)
    (hf : ∀ (td : TdDescriptor) a b c d, f { td with
      errorCount := a, conditionCode := b, currBufferPointer := c, nextTD := d } = f td)
    (tds : List TdDescriptor) : (reactivate tds).map f = tds.map f := by
  induction tds with
  | nil => rfl
  | cons td tds ih =>
    cases tds with
    | nil => simp only [reactivate, List.map_cons, List.map_nil, hf]
    | cons td' tds =>
      simp only [reactivate, List.map_cons, hf] at ih ⊢
      rw [ih]

theorem reactivate_data (tds : List TdDescriptor) :
    ∀ td ∈ (reactivate tds).dropLast, td.conditionCode = tdTobeProcessed ∧ td.errorCount = 0 ∧
      td.currBufferPointer = td.dataBuffer := by
  induction tds with
  | nil => intro td htd; cases htd
  | cons td tds ih =>
    cases tds with
    | nil => intro td htd; cases htd
    | cons td' tds =>
      intro x hx
      have hne : reactivate (td' :: tds) ≠ [] := by cases tds <;> simp [reactivate]
      rw [reactivate, List.dropLast_cons_of_ne_nil hne] at hx
      rcases List.mem_cons.mp hx with rfl | hx
      · exact ⟨rfl, rfl, rfl⟩
      · exact ih x hx

theorem reactivate_linked (tds : List TdDescriptor) :
    (reactivate tds).dropLast.map TdDescriptor.nextTD =
      (reactivate tds).tail.map TdDescriptor.address := by
  induction tds with
  | nil => rfl
  | cons td tds ih =>
    cases tds with
    | nil => rfl
    | cons td' tds =>
      have hne : reactivate (td' :: tds) ≠ [] := by cases tds <;> simp [reactivate]
      have haddr := reactivate_map TdDescriptor.address (fun _ _ _ _ _ => rfl) (td' :: tds)
      obtain ⟨x, xs, hx⟩ := List.exists_cons_of_ne_nil hne
      rw [reactivate, List.dropLast_cons_of_ne_nil hne, List.map_cons, ih, List.tail_cons]
      rw [hx] at haddr ⊢
      rw [List.map_cons, List.map_cons] at haddr
      rw [List.map_cons, List.tail_cons, (List.cons.inj haddr).1]

theorem InterruptContextEntry.WellFormed.armed (h : e.WellFormed) (hc : e.Completed) :
    e.serviced.Armed ∧ e.SameTransfer e.serviced := by
  obtain ⟨f, ed, td, td', tds, hcb, hed, htd⟩ := h.exists_tds
  have hserved : e.serviced = resubmit e ed td := by
    unfold serviced
    rw [hed, htd]
    exact if_pos hc
  have hhead : ∃ x, (resubmit e ed td).dataTd.head? = some x ∧ x.address = td.address := by
    unfold resubmit
    rw [htd]
    cases tds <;> exact ⟨_, rfl, rfl⟩
  obtain ⟨x, hx, haddr⟩ := hhead
  rw [hserved]
  refine ⟨⟨⟨_, x, rfl, hx, ?_, rfl, rfl⟩, reactivate_data _, reactivate_linked _⟩,
    rfl, rfl, rfl, rfl, rfl, ?_⟩
  · rw [haddr]
  · show (reactivate (setToggles ed.toggleCarry e.dataTd)).map _ = _
    rw [reactivate_map _ (fun _ _ _ _ _ => rfl), setToggles_map _ (fun _ _ => rfl)]

/-! ## The walk -/

structure InterruptContextEntry.Passed (e : InterruptContextEntry) : Prop where
  wellFormed : e.WellFormed
  finished : e.Finished
  periodic : e.isPeriodic = true

def OhcDev.pass (s : OhcDev) (p : Nat) : OhcDev :=
  { s with
    callBacks := s.callBacks ++ ((s.entry p).bind call).toList
    entry := Function.update s.entry p ((s.entry p).map serviced) }

/-- What the entries at `ps` are, and what was called, after all of them were passed. -/
structure OhcDev.PassedOver (s : OhcDev) (ps : List Nat) (t : OhcDev) : Prop where
  list_eq : t.interruptContextList = s.interruptContextList
  freed_eq : t.freed = s.freed
  callBacks_eq : t.callBacks = s.callBacks ++ ps.filterMap fun p => (s.entry p).bind call
  passed : ∀ p ∈ ps, t.entry p = (s.entry p).map serviced
  others : ∀ p, p ∉ ps → t.entry p = s.entry p

theorem passedOver_foldl (ps : List Nat) (hnd : ps.Nodup) :
    s.PassedOver ps (ps.foldl OhcDev.pass s) := by
  induction ps generalizing s with
  | nil => exact ⟨rfl, rfl, (List.append_nil _).symm, fun p hp => absurd hp List.not_mem_nil,
      fun _ _ => rfl⟩
  | cons a ps ih =>
    obtain ⟨ha, hnd⟩ := List.nodup_cons.mp hnd
    have hrest := ih (s := s.pass a) hnd
    have hsame : ∀ p ∈ ps, (s.pass a).entry p = s.entry p := by
      intro p hp
      have hpa : p ≠ a := by
        rintro rfl
        exact ha hp
      exact Function.update_of_ne hpa _ _
    refine ⟨hrest.list_eq, hrest.freed_eq, ?_, ?_, ?_⟩
    · rw [List.foldl_cons, hrest.callBacks_eq]
      have hmap : ps.filterMap (fun p => ((s.pass a).entry p).bind call) =
          ps.filterMap fun p => (s.entry p).bind call :=
        List.filterMap_congr fun p hp => by rw [hsame p hp]
      rw [hmap]
      show s.callBacks ++ ((s.entry a).bind call).toList ++ _ = _
      cases hcall : (s.entry a).bind call with
      | none => simp [hcall]
      | some c => simp [hcall]
    · intro p hp
      by_cases hpa : p = a
      · subst hpa
        rw [List.foldl_cons, hrest.others p ha]
        exact Function.update_self _ _ _
      · have hp' : p ∈ ps := (List.mem_cons.mp hp).resolve_left hpa
        rw [List.foldl_cons, hrest.passed p hp', hsame p hp']
    · intro p hp
      rw [List.mem_cons, not_or] at hp
      rw [List.foldl_cons, hrest.others p hp.2]
      exact Function.update_of_ne hp.1 _ _

theorem foldl_pass_tpl (ps : List Nat) : (ps.foldl OhcDev.pass s).tpl = s.tpl := by
  induction ps generalizing s with
  | nil => rfl
  | cons a ps ih =>
    rw [List.foldl_cons, ih]
    rfl

theorem readEntry_eq {p : Nat} (he : s.entry p = some e) : readEntry p s = .ret e s := by
  unfold readEntry
  rw [Exec.bind_of_ret (show Exec.get s = .ret s s from rfl), he]
  rfl

theorem ohciFreeInterruptContextEntry_eq {p : Nat} (hp : p ≠ 0) (he : s.entry p = some e) :
    ohciFreeInterruptContextEntry p s = .ret () { s with
      entry := Function.update s.entry p none
      freed := s.freed ++ e.releases p } := by
  unfold ohciFreeInterruptContextEntry
  rw [if_neg hp, Exec.bind_of_ret (readEntry_eq he)]
  rfl

theorem InterruptContextEntry.WellFormed.invoke (h : e.WellFormed) (hf : e.Finished) :
    invokeCallBack e s = .ret () { s with callBacks := s.callBacks ++ e.call.toList } := by
  obtain ⟨f, ed, td, td', tds, hcb, hed, htd⟩ := h.exists_tds
  have hcall : e.call = some (ohciInvokeInterruptCallBack f td e.context e.result) := by
    unfold call
    rw [hcb, htd]
    exact if_pos hf
  unfold invokeCallBack
  rw [hcb, htd, hcall]
  rfl

theorem houseKeeperBody_passed {tpl p pre : Nat} (hp : p ≠ 0) (he : s.entry p = some e)
    (h : e.Passed) :
    houseKeeperBody tpl (p, pre) s = .ret (.inl (e.nextEntry, p)) (s.pass p) := by
  obtain ⟨f, ed, td, td', tds, hcb, hed, htd⟩ := h.wellFormed.exists_tds
  unfold houseKeeperBody
  dsimp only
  rw [if_neg hp, Exec.bind_of_ret (readEntry_eq he), if_neg h.finished,
    Exec.bind_of_ret (h.wellFormed.invoke h.finished), if_pos h.periodic]
  have hpass : s.pass p = { s with
      callBacks := s.callBacks ++ e.call.toList
      entry := Function.update s.entry p (some e.serviced) } := by
    unfold OhcDev.pass
    rw [he]
    rfl
  rw [hpass]
  by_cases hc : e.result = efiUsbNoerror
  · have hserved : e.serviced = resubmit e ed td := by
      unfold serviced
      rw [hed, htd]
      exact if_pos hc
    rw [if_pos hc, hed, htd, hserved]
    rfl
  · rw [if_neg hc, serviced_of_not_completed hc, ← he, Function.update_eq_self]
    rfl

theorem loop_passed {tpl p pre n : Nat} {done rest : List Nat}
    (hl : Linked nextEntry s.entry p (done ++ rest)) (hdone : ∀ a ∈ done, s.At Passed a) :
    ∃ q last, Exec.loop (done.length + n) (houseKeeperBody tpl) (p, pre) s =
        Exec.loop n (houseKeeperBody tpl) (q, last) (done.foldl OhcDev.pass s) ∧
      Linked nextEntry s.entry q rest ∧ (done = [] → last = pre) ∧ (done ≠ [] → last ≠ 0) := by
  induction done generalizing s p pre with
  | nil =>
    refine ⟨p, pre, ?_, hl, fun _ => rfl, fun h => absurd rfl h⟩
    rw [List.length_nil, Nat.zero_add]
    rfl
  | cons a done ih =>
    have hnd := hl.nodup
    rw [List.cons_append] at hl hnd
    obtain ⟨ha, -⟩ := List.nodup_cons.mp hnd
    obtain ⟨rfl, hne, e, he, htail⟩ := hl
    have hpassed : e.Passed := (OhcDev.at_iff he).mp (hdone p List.mem_cons_self)
    have hsame : ∀ b ∈ done ++ rest, (s.pass p).entry b = s.entry b := by
      intro b hb
      have hbp : b ≠ p := by
        rintro rfl
        exact ha hb
      exact Function.update_of_ne hbp _ _
    have htail' : Linked nextEntry (s.pass p).entry e.nextEntry (done ++ rest) :=
      htail.congr fun b hb x hx => ⟨x, (hsame b hb).trans hx, rfl⟩
    have hdone' : ∀ b ∈ done, (s.pass p).At Passed b := by
      intro b hb
      obtain ⟨x, hx, hp⟩ := hdone b (List.mem_cons_of_mem p hb)
      exact ⟨x, (hsame b (List.mem_append_left rest hb)).trans hx, hp⟩
    obtain ⟨q, last, hloop, hq, hnil, hcons⟩ := ih htail' hdone'
    refine ⟨q, last, ?_, ?_, fun h => absurd h (List.cons_ne_nil _ _), fun _ => ?_⟩
    · rw [List.length_cons, Nat.add_right_comm,
        Exec.loop_of_inl (houseKeeperBody_passed hne he hpassed), hloop, List.foldl_cons]
    · refine hq.congr fun b hb x hx => ⟨x, ?_, rfl⟩
      rw [← hsame b (List.mem_append_right done hb)]
      exact hx
    · by_cases hd : done = []
      · rw [hnil hd]
        exact hne
      · exact hcons hd

/-! ## Where the walk ends -/

section Ends

variable {ps done rest : List Nat}

def OhcDev.raised (s : OhcDev) : OhcDev := { s with tpl := tplNotify }

theorem houseKeeper_eq {fuel n : Nat} (hctx : s.Contexts (done ++ rest))
    (hdone : ∀ a ∈ done, s.At Passed a) (hfuel : fuel = done.length + n) :
    ∃ q last, ohciHouseKeeper fuel s =
        Exec.loop n (houseKeeperBody s.tpl) (q, last) (done.foldl OhcDev.pass s.raised) ∧
      Linked nextEntry s.entry q rest ∧ (done = [] → last = 0) ∧ (done ≠ [] → last ≠ 0) := by
  subst hfuel
  exact loop_passed (s := s.raised) hctx hdone

theorem houseKeeper_end {fuel : Nat} (hctx : s.Contexts done) (hdone : ∀ a ∈ done, s.At Passed a)
    (hfuel : done.length < fuel) :
    ohciHouseKeeper fuel s = .ret () { done.foldl OhcDev.pass s.raised with tpl := s.tpl } := by
  have hctx' : s.Contexts (done ++ []) := by
    rw [List.append_nil]
    exact hctx
  obtain ⟨q, last, hrun, hq, -⟩ :=
    houseKeeper_eq hctx' hdone (show fuel = done.length + (fuel - done.length - 1 + 1) by omega)
  have hq : q = 0 := hq
  subst hq
  rw [hrun]
  exact Exec.loop_of_inr rfl _

theorem houseKeeper_pending {fuel p : Nat} (hctx : s.Contexts (done ++ p :: rest))
    (hdone : ∀ a ∈ done, s.At Passed a) (hp : s.At Pending p)
    (hfuel : (done ++ p :: rest).length < fuel) :
    ohciHouseKeeper fuel s = .ret () (done.foldl OhcDev.pass s.raised) := by
  rw [List.length_append, List.length_cons] at hfuel
  obtain ⟨q, last, hrun, ⟨rfl, hne, e, he, -⟩, -⟩ :=
    houseKeeper_eq hctx hdone (show fuel = done.length + (fuel - done.length - 1 + 1) by omega)
  have hnd := Linked.nodup hctx
  obtain ⟨hnd', -, hdis⟩ := List.nodup_append.mp hnd
  have hpass := passedOver_foldl (s := s.raised) done hnd'
  have he' : (done.foldl OhcDev.pass s.raised).entry q = some e :=
    (hpass.others q fun hmem => hdis q hmem q List.mem_cons_self rfl).trans he
  have hpend := (OhcDev.at_iff he).mp hp
  rw [hrun]
  refine Exec.loop_of_inr ?_ _
  unfold houseKeeperBody
  dsimp only
  rw [if_neg hne, Exec.bind_of_ret (readEntry_eq he'), if_pos hpend]
  rfl

theorem houseKeeper_retired {fuel p : Nat} (hctx : s.Contexts (done ++ p :: rest))
    (hdone : ∀ a ∈ done, s.At Passed a) (hwf : s.At WellFormed p) (hp : s.At Retired p)
    (hfuel : (done ++ p :: rest).length < fuel) :
    ∃ s', ohciHouseKeeper fuel s = .ret () s' ∧
      (done = [] ∧ s'.freed = s.freed ∨
        s'.entry p = none ∧ s'.interruptContextList = s.interruptContextList ∧
          ∀ a ∈ done, s'.entry a = (s.entry a).map serviced) := by
  rw [List.length_append, List.length_cons] at hfuel
  obtain ⟨q, last, hrun, ⟨rfl, hne, e, he, -⟩, hnil, hcons⟩ :=
    houseKeeper_eq hctx hdone (show fuel = done.length + (fuel - done.length - 1 + 1) by omega)
  obtain ⟨hnd', -, hdis⟩ := List.nodup_append.mp (Linked.nodup hctx)
  have hpass := passedOver_foldl (s := s.raised) done hnd'
  have hq : q ∉ done := fun hmem => hdis q hmem q List.mem_cons_self rfl
  have he' : (done.foldl OhcDev.pass s.raised).entry q = some e := (hpass.others q hq).trans he
  have hwf := (OhcDev.at_iff he).mp hwf
  obtain ⟨hfin, hper⟩ := (OhcDev.at_iff he).mp hp
  have hper : ¬ e.isPeriodic = true := by
    rw [hper]
    decide
  rw [hrun]
  by_cases hd : done = []
  · refine ⟨_, Exec.loop_of_inr (t := { done.foldl OhcDev.pass s.raised with
      callBacks := (done.foldl OhcDev.pass s.raised).callBacks ++ e.call.toList
      interruptContextList := e.nextEntry
      tpl := s.tpl }) ?_ _, .inl ⟨hd, hpass.freed_eq⟩⟩
    unfold houseKeeperBody
    dsimp only
    rw [if_neg hne, Exec.bind_of_ret (readEntry_eq he'), if_neg hfin,
      Exec.bind_of_ret (hwf.invoke hfin), if_neg hper, if_pos (hnil hd), hnil hd]
    rfl
  · refine ⟨_, Exec.loop_of_inr (t := { done.foldl OhcDev.pass s.raised with
      callBacks := (done.foldl OhcDev.pass s.raised).callBacks ++ e.call.toList
      entry := Function.update (Function.update (done.foldl OhcDev.pass s.raised).entry q (some e)) q
        none
      freed := (done.foldl OhcDev.pass s.raised).freed ++ e.releases q
      tpl := s.tpl }) ?_ _, .inr ⟨Function.update_self _ _ _, hpass.list_eq, fun a ha => ?_⟩⟩
    · unfold houseKeeperBody
      dsimp only
      rw [if_neg hne, Exec.bind_of_ret (readEntry_eq he'), if_neg hfin,
        Exec.bind_of_ret (hwf.invoke hfin), if_neg hper, if_neg (hcons hd)]
      rw [Exec.bind_of_ret (show writeEntry q _ _ = _ from rfl),
        Exec.bind_of_ret (ohciFreeInterruptContextEntry_eq hne (Function.update_self _ _ _))]
      rfl
    · have haq : a ≠ q := by
        rintro rfl
        exact hq ha
      show Function.update (Function.update _ q _) q _ a = _
      rw [Function.update_of_ne haq, Function.update_of_ne haq]
      exact hpass.passed a ha

end Ends

/-! ## Serviced -/

section Serviced

variable {ps done rest : List Nat}

theorem exists_split (Q : Nat → Prop) (ps : List Nat) : ∃ done rest, ps = done ++ rest ∧
    (∀ a ∈ done, Q a) ∧ ∀ p r, rest = p :: r → ¬ Q p := by
  induction ps with
  | nil => exact ⟨[], [], rfl, fun a ha => absurd ha List.not_mem_nil, fun p r h => by cases h⟩
  | cons a ps ih =>
    by_cases ha : Q a
    · obtain ⟨done, rest, rfl, hdone, hrest⟩ := ih
      refine ⟨a :: done, rest, rfl, fun b hb => ?_, hrest⟩
      rcases List.mem_cons.mp hb with rfl | hb
      · exact ha
      · exact hdone b hb
    · refine ⟨[], a :: ps, rfl, fun b hb => absurd hb List.not_mem_nil, fun p r h => ?_⟩
      cases h
      exact ha

theorem at_cases {p : Nat} (hwf : s.At WellFormed p) (h : ¬ s.At Passed p) :
    s.At Pending p ∨ s.At Retired p := by
  obtain ⟨e, he, hw⟩ := hwf
  by_cases hp : e.Pending
  · exact .inl ⟨e, he, hp⟩
  · refine .inr ⟨e, he, hp, ?_⟩
    by_contra hper
    exact h ⟨e, he, hw, hp, Bool.not_eq_false _ ▸ hper⟩

theorem serviced_of_passedOver (hctx : s.Contexts (done ++ rest))
    (hdone : ∀ a ∈ done, s.At Passed a) (hrest : ∀ a ∈ rest, s.At Pending a)
    (hwhole : ∀ p ∈ done ++ rest, ∀ e, s.entry p = some e → e.Completed → e.DeliversReceived)
    (ht : s.PassedOver done t) (htpl : t.tpl = s.tpl) : s.Serviced (done ++ rest) t := by
  have hnot : ∀ p ∈ done ++ rest, ¬ s.At Retired p := by
    intro p hp
    rcases List.mem_append.mp hp with hp | hp
    · obtain ⟨e, he, hpass⟩ := hdone p hp
      rw [OhcDev.at_iff he]
      exact fun hr => absurd (hr.2.symm.trans hpass.periodic) (by decide)
    · obtain ⟨e, he, hpend⟩ := hrest p hp
      rw [OhcDev.at_iff he]
      exact fun hr => hr.1 hpend
  obtain ⟨-, -, hdis⟩ := List.nodup_append.mp (Linked.nodup hctx)
  have hrest_entry : ∀ p ∈ rest, t.entry p = s.entry p := fun p hp =>
    ht.others p fun hmem => hdis p hmem p hp rfl
  refine ⟨htpl, ?_, hwhole, ?_, ?_, fun p hp hr => absurd hr (hnot p hp), ?_, ?_, ?_⟩
  · have hnil : rest.filterMap (fun p => (s.entry p).bind call) = [] := by
      refine List.filterMap_eq_nil_iff.mpr fun p hp => ?_
      obtain ⟨e, he, hpend⟩ := hrest p hp
      rw [he]
      exact call_of_pending hpend
    rw [ht.callBacks_eq, List.filterMap_append, hnil, List.append_nil]
  · have hfilter : (done ++ rest).filter (fun p => ¬ s.At Retired p) = done ++ rest :=
      List.filter_eq_self.mpr fun p hp => decide_eq_true (hnot p hp)
    rw [hfilter]
    unfold OhcDev.Contexts
    rw [ht.list_eq]
    refine Linked.congr hctx fun a ha x hx => ?_
    rcases List.mem_append.mp ha with ha | ha
    · refine ⟨x.serviced, ?_, serviced_nextEntry x⟩
      rw [ht.passed a ha, hx]
      rfl
    · exact ⟨x, (hrest_entry a ha).trans hx, rfl⟩
  · have hnil : (done ++ rest).flatMap s.retiredReleases = [] := by
      refine List.flatMap_eq_nil_iff.mpr fun p hp => ?_
      have hp' := hnot p hp
      unfold OhcDev.retiredReleases
      split
      · rename_i e he
        rw [OhcDev.at_iff he] at hp'
        exact if_neg hp'
      · rfl
    rw [hnil, List.append_nil, ht.freed_eq]
  · intro p hp e he hc hper
    rcases List.mem_append.mp hp with hp | hp
    · have hpass := (OhcDev.at_iff he).mp (hdone p hp)
      obtain ⟨harm, hsame⟩ := hpass.wellFormed.armed hc
      refine ⟨e.serviced, ?_, harm, hsame⟩
      rw [ht.passed p hp, he]
      rfl
    · exact absurd ((OhcDev.at_iff he).mp (hrest p hp)) hc.finished
  · intro p hp e he _ hc
    rcases List.mem_append.mp hp with hp | hp
    · have hpass := (OhcDev.at_iff he).mp (hdone p hp)
      refine ⟨e.nextEntry, ?_⟩
      rw [ht.passed p hp, he, Option.map_some,
        serviced_of_not_completed fun h => hc ⟨h, hpass.periodic⟩]
    · exact ⟨e.nextEntry, (hrest_entry p hp).trans he⟩
  · intro p hp
    exact ht.others p fun hmem => hp (List.mem_append_left rest hmem)

theorem pending_of_callBacks (hwf : ∀ p ∈ rest, s.At WellFormed p) (ht : s.PassedOver done t)
    (h : s.Serviced (done ++ rest) t) : ∀ p ∈ rest, s.At Pending p := by
  have heq := h.callBacks_eq
  rw [ht.callBacks_eq, List.filterMap_append, ← List.append_assoc] at heq
  have hnil : rest.filterMap (fun p => (s.entry p).bind call) = [] :=
    List.append_right_eq_self.mp heq.symm
  intro p hp
  obtain ⟨e, he, hw⟩ := hwf p hp
  refine ⟨e, he, ?_⟩
  by_contra hpend
  obtain ⟨c, hc⟩ := hw.call_eq hpend
  have hnone := List.filterMap_eq_nil_iff.mp hnil p hp
  rw [he] at hnone
  exact absurd (hc.symm.trans hnone) (by simp)

theorem not_serviced_of_retired {p : Nat} (hctx : s.Contexts (done ++ p :: rest))
    (hdone : ∀ a ∈ done, s.At Passed a) (hp : s.At Retired p) (h : s.Serviced (done ++ p :: rest) t)
    (ht : done = [] ∧ t.freed = s.freed ∨
      t.entry p = none ∧ t.interruptContextList = s.interruptContextList ∧
        ∀ a ∈ done, t.entry a = (s.entry a).map serviced) : False := by
  obtain ⟨e, he, hr⟩ := hp
  rcases ht with ⟨-, hfreed⟩ | ⟨hnone, hlist, hpassed⟩
  · have heq := h.freed_eq
    rw [hfreed] at heq
    have hnil := List.append_right_eq_self.mp heq.symm
    have hp := List.flatMap_eq_nil_iff.mp hnil p (List.mem_append_right done List.mem_cons_self)
    unfold OhcDev.retiredReleases at hp
    rw [he] at hp
    dsimp only at hp
    rw [if_pos hr] at hp
    unfold releases at hp
    simp at hp
  · have hfilter : (done ++ p :: rest).filter (fun p => ¬ s.At Retired p) =
        done ++ rest.filter fun p => ¬ s.At Retired p := by
      have hd : done.filter (fun p => ¬ s.At Retired p) = done := by
        refine List.filter_eq_self.mpr fun a ha => decide_eq_true ?_
        obtain ⟨x, hx, hpass⟩ := hdone a ha
        rw [OhcDev.at_iff hx]
        exact fun hret => absurd (hret.2.symm.trans hpass.periodic) (by decide)
      rw [List.filter_append, hd, List.filter_cons_of_neg]
      rw [decide_eq_true_eq, not_not]
      exact ⟨e, he, hr⟩
    have hctx' := h.contexts
    rw [hfilter] at hctx'
    unfold OhcDev.Contexts at hctx hctx'
    rw [hlist] at hctx'
    obtain ⟨q, ⟨rfl, hne, -⟩, hq'⟩ := hctx.behind hctx' fun a ha x hx =>
      ⟨x.serviced, by rw [hpassed a ha, hx]; rfl, serviced_nextEntry x⟩
    -- the link behind the passed entries still points to the entry that was freed
    cases hm : rest.filter fun p => ¬ s.At Retired p with
    | nil =>
      rw [hm] at hq'
      exact hne hq'
    | cons b m =>
      rw [hm] at hq'
      obtain ⟨rfl, -, x, hx, -⟩ := hq'
      rw [hnone] at hx
      cases hx

/-- One call services the contexts if and only if no finished entry has to leave the list, no finished
entry stands behind one that is pending, the call is made at `TPL_NOTIFY` if there is one that is
pending, and no completed transfer was short or spread over several TDs. -/
theorem houseKeeper_services_iff {fuel : Nat} (hctx : s.Contexts ps)
    (hwf : ∀ p ∈ ps, s.At WellFormed p) (hfuel : ps.length < fuel) :
    (∃ s', ohciHouseKeeper fuel s = .ret () s' ∧ s.Serviced ps s') ↔ s.Serviceable ps := by
  obtain ⟨done, rest, rfl, hdone, hrest⟩ := exists_split (s.At Passed) ps
  obtain ⟨hnd, -, -⟩ := List.nodup_append.mp (Linked.nodup hctx)
  have hpass : s.PassedOver done (done.foldl OhcDev.pass s.raised) :=
    let h := passedOver_foldl (s := s.raised) done hnd
    ⟨h.list_eq, h.freed_eq, h.callBacks_eq, h.passed, h.others⟩
  have hdone_not : ∀ p ∈ done, ¬ s.At Pending p ∧ ¬ s.At Retired p := by
    intro p hp
    obtain ⟨e, he, hpd⟩ := hdone p hp
    rw [OhcDev.at_iff he, OhcDev.at_iff he]
    exact ⟨hpd.finished, fun hr => absurd (hr.2.symm.trans hpd.periodic) (by decide)⟩
  constructor
  · rintro ⟨s', hrun, hs⟩
    -- in every case but the third what is left is pending, and the TPL is the one that was restored
    have key : (∀ p ∈ rest, s.At Pending p) ∧ (rest ≠ [] → s.tpl = tplNotify) := by
      rcases rest with _ | ⟨p, rest⟩
      · exact ⟨fun p hp => absurd hp List.not_mem_nil, fun h => absurd rfl h⟩
      have hwfp := hwf p (List.mem_append_right done List.mem_cons_self)
      rcases at_cases hwfp (hrest p rest rfl) with hp | hp
      · rw [houseKeeper_pending hctx hdone hp hfuel] at hrun
        cases hrun
        refine ⟨pending_of_callBacks (fun q hq => hwf q (List.mem_append_right done hq)) hpass hs,
          fun _ => ?_⟩
        rw [← hs.tpl_eq, foldl_pass_tpl]
        rfl
      · obtain ⟨s'', hrun', hout⟩ := houseKeeper_retired hctx hdone hwfp hp hfuel
        rw [hrun'] at hrun
        cases hrun
        exact (not_serviced_of_retired hctx hdone hp hs hout).elim
    refine ⟨fun p hp => ?_, List.pairwise_append.mpr ⟨?_, ?_, ?_⟩, ?_, hs.delivers⟩
    · rcases List.mem_append.mp hp with hp | hp
      · exact (hdone_not p hp).2
      · obtain ⟨e, he, hpend⟩ := key.1 p hp
        rw [OhcDev.at_iff he]
        exact fun hr => hr.1 hpend
    · exact List.pairwise_of_forall_mem_list fun p hp q _ hpend => absurd hpend (hdone_not p hp).1
    · exact List.pairwise_of_forall_mem_list fun p _ q hq _ => key.1 q hq
    · exact fun p hp q _ hpend => absurd hpend (hdone_not p hp).1
    · rintro ⟨p, hp, hpend⟩
      rcases List.mem_append.mp hp with hp | hp
      · exact absurd hpend (hdone_not p hp).1
      · exact key.2 (List.ne_nil_of_mem hp)
  · intro hs
    rcases rest with _ | ⟨p, rest⟩
    · refine ⟨_, houseKeeper_end (by rwa [List.append_nil] at hctx) hdone ?_, ?_⟩
      · rwa [List.append_nil] at hfuel
      · exact serviced_of_passedOver hctx hdone (fun a ha => absurd ha List.not_mem_nil) hs.whole
          ⟨hpass.list_eq, hpass.freed_eq, hpass.callBacks_eq, hpass.passed, hpass.others⟩ rfl
    · have hmem : p ∈ done ++ p :: rest := List.mem_append_right done List.mem_cons_self
      have hp : s.At Pending p :=
        (at_cases (hwf p hmem) (hrest p rest rfl)).resolve_right (hs.not_retired p hmem)
      have hall : ∀ q ∈ p :: rest, s.At Pending q := by
        intro q hq
        rcases List.mem_cons.mp hq with rfl | hq
        · exact hp
        · have hpw := (List.pairwise_append.mp hs.pending_last).2.1
          exact (List.pairwise_cons.mp hpw).1 q hq hp
      refine ⟨_, houseKeeper_pending hctx hdone hp hfuel, ?_⟩
      refine serviced_of_passedOver hctx hdone hall hs.whole hpass ?_
      rw [foldl_pass_tpl, hs.tpl_eq ⟨p, hmem, hp⟩]
      rfl

end Serviced

/-! ## Two keyboards -/

/-- A periodic transfer of one packet of 8 bytes; `conditionCode` and `currBufferPointer` are those of
its data TD. -/
def packetEntry (conditionCode currBufferPointer nextEntry : Nat) : InterruptContextEntry where
  ed := some ⟨0, 0, 1, 0x100⟩
  dataTd := [⟨0x1000, 2, 0, conditionCode, currBufferPointer, 0, 0x8000, 8⟩, ⟨0x1040, 0, 0, 0, 0, 0, 0, 0⟩]
  callBackFunction := some 0xC0DE
  context := 0xDA7A
  isPeriodic := true
  uCBuffer := 0x8000
  uCBufferMapping := 0x9000
  nextEntry

theorem wellFormed_packetEntry (c b n : Nat) : (packetEntry c b n).WellFormed :=
  ⟨Option.some_ne_none _, Option.some_ne_none _, Nat.le_refl 2⟩

def oneContext : OhcDev where
  interruptContextList := 0x100
  entry := fun p => if p = 0x100 then some (packetEntry tdNoError 0 0) else none
  tpl := tplNotify
  callBacks := []
  freed := []

theorem serviceable_oneContext : oneContext.Serviceable [0x100] where
  not_retired := by decide
  pending_last := by decide
  tpl_eq := fun _ => rfl
  whole := by
    intro p hp e he _
    rw [List.mem_singleton.mp hp] at he
    cases he
    exact ⟨rfl, by decide⟩

theorem contexts_oneContext : oneContext.Contexts [0x100] := ⟨rfl, by decide, _, rfl, rfl⟩

theorem houseKeeper_services_iff_oneContext : oneContext.Serviceable [0x100] ∧
    ∃ s', ohciHouseKeeper 2 oneContext = .ret () s' ∧ oneContext.Serviced [0x100] s' :=
  ⟨serviceable_oneContext, (houseKeeper_services_iff contexts_oneContext
    (by
      intro p hp
      rw [List.mem_singleton.mp hp]
      exact ⟨_, rfl, wellFormed_packetEntry _ _ _⟩) (by decide)).mpr serviceable_oneContext⟩

def twoContexts : OhcDev where
  interruptContextList := 0x100
  entry := fun p =>
    if p = 0x100 then some (packetEntry tdTobeProcessed 0x8000 0x200)
    else if p = 0x200 then some (packetEntry tdNoError 0 0)
    else none
  tpl := tplNotify
  callBacks := []
  freed := []

theorem completed_entry_behind_pending_not_called :
    twoContexts.Contexts [0x100, 0x200] ∧ (∀ p ∈ [0x100, 0x200], twoContexts.At WellFormed p) ∧
      ¬ ∃ s', ohciHouseKeeper 3 twoContexts = .ret () s' ∧
        twoContexts.Serviced [0x100, 0x200] s' := by
  refine ⟨⟨rfl, by decide, _, rfl, rfl, by decide, _, rfl, rfl⟩, ?_, ?_⟩
  · intro p hp
    rcases List.mem_pair.mp hp with rfl | rfl
    · exact ⟨_, rfl, wellFormed_packetEntry _ _ _⟩
    · exact ⟨_, rfl, wellFormed_packetEntry _ _ _⟩
  · rintro ⟨s', hrun, hs⟩
    have hnone : (ohciHouseKeeper 3 twoContexts).state.callBacks = [] := by decide
    rw [hrun] at hnone
    have hcall := hs.callBacks_eq
    rw [show s'.callBacks = [] from hnone] at hcall
    exact absurd hcall (by decide)

end Quark.Ohci
