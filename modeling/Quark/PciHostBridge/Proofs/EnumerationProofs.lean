import Quark.PciHostBridge.Proofs.HoldingProofs

/-!
# Enumerations

The ranges that the driver holds, over sequences of calls, and an enumeration that is repeated.
-/

namespace Quark.PciHostBridge

open Machine Exec

variable {c : Config}

/-! ## The same requests again -/

def descriptorsFor (handle : Nat) (es : List Effect) : List Descriptor :=
  es.flatMap fun
    | some (h, ds) => if h = handle then ds else []
    | none => []

def requestsBeside (handle : Nat) (es : List Effect) : List Effect :=
  es.map fun
    | some (h, ds) => if h = handle then none else some (h, ds)
    | none => none

theorem afterRequests_nil (es : List Effect) : afterRequests es [] = [] := by
  induction es with
  | nil => rfl
  | cons e es ih =>
    cases e with
    | none => exact ih
    | some e => exact ih

theorem afterRequests_cons (es : List Effect) : ∀ (b : RootBridge) (bs : List RootBridge),
    afterRequests es (b :: bs) = (applyDescriptors b (descriptorsFor b.handle es)).1 ::
      afterRequests (requestsBeside b.handle es) bs := by
  induction es with
  | nil => intro b bs; rfl
  | cons e es ih =>
    intro b bs
    cases e with
    | none => exact ih b bs
    | some e =>
      obtain ⟨handle, ds⟩ := e
      show afterRequests es (updateBridge handle _ (b :: bs)) = _
      by_cases hh : handle = b.handle
      · subst hh
        have hfor : descriptorsFor b.handle (some (b.handle, ds) :: es) =
            ds ++ descriptorsFor b.handle es := by
          simp [descriptorsFor]
        have hbeside : requestsBeside b.handle (some (b.handle, ds) :: es) =
            none :: requestsBeside b.handle es := by
          simp [requestsBeside]
        rw [updateBridge, if_pos rfl, ih, handle_applyDescriptors, applyDescriptors_append, hfor, hbeside]
        rfl
      · have hfor : descriptorsFor b.handle (some (handle, ds) :: es) = descriptorsFor b.handle es := by
          simp [descriptorsFor, hh]
        have hbeside : requestsBeside b.handle (some (handle, ds) :: es) =
            some (handle, ds) :: requestsBeside b.handle es := by
          simp [requestsBeside, hh]
        rw [updateBridge, if_neg (fun hc => hh hc.symm), ih, hfor, hbeside]
        rfl

def FreshBridge (b : RootBridge) : Prop := CleanBridge b ∧ ∀ t ∈ resTypes, b.status t = .none

theorem afterRequests_again : ∀ {bs bs' : List RootBridge} {es : List Effect}, (∀ b ∈ bs, FreshBridge b) →
    List.Forall₂ AllocatedFrom (afterRequests es bs) bs' →
    afterRequests es ((bs'.map RootBridge.zeroFailed).map (·.mapNodes resTypes freedNode)) =
      afterRequests es bs := by
  intro bs
  induction bs with
  | nil =>
    intro bs' es _ h
    rw [afterRequests_nil] at h
    cases h
    rfl
  | cons b bs ih =>
    intro bs' es hfresh h
    rw [afterRequests_cons] at h
    obtain ⟨b', bs'', hb', hrest, rfl⟩ := List.forall₂_cons_left_iff.mp h
    obtain ⟨hclean, hnone⟩ := hfresh b List.mem_cons_self
    have hhandle : (b'.zeroFailed.mapNodes resTypes freedNode).handle = b.handle := by
      rw [zeroFailed_eq]
      show b'.handle = b.handle
      rw [hb'.same]
      exact handle_applyDescriptors b _
    rw [List.map_cons, List.map_cons, afterRequests_cons, afterRequests_cons, hhandle,
      applyDescriptors_again hclean hnone hb', ih (fun x hx => hfresh x (List.mem_cons_of_mem b hx)) hrest]

theorem nodeAfter_nodeAfter (t : ResType) (ds : List Descriptor) (node : ResNode) :
    nodeAfter t ds (nodeAfter t ds node) = nodeAfter t ds node := by
  rcases nodeAfter_cases t ds with hid | ⟨d, -, -, hstore⟩
  · rw [hid]
  · rw [hstore, hstore, storeRequest_storeRequest]

theorem afterRequests_twice : ∀ (bs : List RootBridge) (es : List Effect),
    afterRequests es (afterRequests es bs) = afterRequests es bs := by
  intro bs
  induction bs with
  | nil => intro es; rw [afterRequests_nil, afterRequests_nil]
  | cons b bs ih =>
    intro es
    rw [afterRequests_cons, afterRequests_cons, handle_applyDescriptors, ih]
    congr 1
    rw [applyDescriptors_eq, applyDescriptors_eq]
    unfold RootBridge.withNodes
    congr 1
    funext t
    exact nodeAfter_nodeAfter t _ _

/-! ## Bridges keep their handles and attributes -/

theorem SameIds.trans {bs bs' bs'' : List RootBridge} (h : SameIds bs bs') (h' : SameIds bs' bs'') :
    SameIds bs bs'' := by
  induction h generalizing bs'' with
  | nil => exact h'
  | cons hb _ ih =>
    obtain ⟨b'', rest, hb'', hrest, rfl⟩ := List.forall₂_cons_left_iff.mp h'
    exact .cons ⟨hb''.1.trans hb.1, hb''.2.trans hb.2⟩ (ih hrest)

theorem sameIds_map {bs : List RootBridge} {f : RootBridge → RootBridge}
    (h : ∀ b, (f b).handle = b.handle ∧ (f b).rootBridgeAllocAttrib = b.rootBridgeAllocAttrib) :
    SameIds bs (bs.map f) := by
  induction bs with
  | nil => exact .nil
  | cons b bs ih => exact .cons (h b) ih

theorem sameIds_afterRequests : ∀ (bs : List RootBridge) (es : List Effect),
    SameIds bs (afterRequests es bs) := by
  intro bs
  induction bs with
  | nil =>
    intro es
    rw [afterRequests_nil]
    exact .nil
  | cons b bs ih =>
    intro es
    rw [afterRequests_cons]
    exact .cons ⟨handle_applyDescriptors b _, attrib_applyDescriptors b _⟩ (ih _)

theorem sameIds_allocatedFrom {bs bs' : List RootBridge} (h : List.Forall₂ AllocatedFrom bs bs') :
    SameIds bs bs' := by
  refine h.imp fun b b' hb => ?_
  rw [hb.same]
  exact ⟨rfl, rfl⟩

theorem sameIds_freed (bs : List RootBridge) :
    SameIds bs (bs.map (·.mapNodes resTypes freedNode)) := sameIds_map fun _ => ⟨rfl, rfl⟩

/-! ## Sequences of calls -/

/-- The invariant: what is held is what the nodes say, and the nodes that are not allocated are clean. -/
structure LeakInv (s : HostBridge) : Prop where
  holds : HoldsExactly s
  clean : ∀ b ∈ s.bridges, CleanBridge b

def SameRanges (b b' : RootBridge) : Prop :=
  (∀ t ∈ resTypes, b'.range? t = b.range? t) ∧ CleanBridge b'

theorem clean_of_sameRanges {bs bs' : List RootBridge} (h : List.Forall₂ SameRanges bs bs') :
    ∀ b' ∈ bs', CleanBridge b' := by
  induction h with
  | nil => exact fun _ hb => absurd hb List.not_mem_nil
  | cons hb _ ih =>
    intro x hx
    rcases List.mem_cons.mp hx with rfl | hx
    · exact hb.2
    · exact ih x hx

theorem LeakInv.sameRanges {s s' : HostBridge} (h : LeakInv s) (hgcd : s'.gcd = s.gcd)
    (hb : List.Forall₂ SameRanges s.bridges s'.bridges) : LeakInv s' := by
  have hranges := allocatedRanges_congr (hb.imp fun _ _ h => h.1)
  refine ⟨⟨?_, ?_⟩, clean_of_sameRanges hb⟩
  · rw [hgcd, hranges]
    exact h.holds.backs
  · rw [hgcd, hranges]
    exact h.holds.exact

theorem sameRanges_reset {b : RootBridge} (h : ∀ t ∈ resTypes, b.status t ≠ .allocated) :
    SameRanges b b.reset := by
  refine ⟨fun t ht => ?_, fun t _ => ?_⟩
  · rw [range?_of_not_allocated (h t ht)]
    refine range?_of_not_allocated ?_
    rw [RootBridge.status, resAllocNode_reset]
    exact fun hc => by cases hc
  · rw [resAllocNode_reset]
    exact cleanNode_emptied _

theorem range?_zeroFailed (b : RootBridge) {t : ResType} (ht : t ∈ resTypes) :
    b.zeroFailed.range? t = b.range? t := by
  have hnode := resAllocNode_zeroFailed b ht
  by_cases hst : b.status t = .allocated
  · exact range?_congr (hnode.trans (zeroed_of_allocated hst))
  · rw [range?_of_not_allocated hst]
    refine range?_of_not_allocated ?_
    rw [RootBridge.status, hnode, status_zeroed]
    exact hst

theorem sameRanges_zeroFailed {b : RootBridge} (h : CleanBridge b) : SameRanges b b.zeroFailed := by
  refine ⟨fun t ht => range?_zeroFailed b ht, ?_⟩
  rw [zeroFailed_eq]
  exact h.mapNodes CleanNode.zeroed

theorem sameRanges_assignBus {b : RootBridge} (h : CleanBridge b) (busStart busLen : BitVec 32) :
    SameRanges b (b.assignBus busStart busLen) := by
  have hnode : ∀ t ∈ resTypes, (b.assignBus busStart busLen).resAllocNode t = b.resAllocNode t :=
    fun t ht => resAllocNode_setNode_ne b _ (mem_resTypes.mp ht)
  refine ⟨fun t ht => range?_congr (hnode t ht), fun t ht => ?_⟩
  rw [hnode t ht]
  exact h t ht

theorem sameRanges_applyDescriptors {b : RootBridge} {ds : List Descriptor} (h : CleanBridge b)
    (hnot : ∀ d ∈ ds, ∀ t, d.target? = some t → b.status t ≠ .allocated) :
    SameRanges b (applyDescriptors b ds).1 :=
  ⟨fun t _ => range?_applyDescriptors fun d hd => hnot d hd t, h.applyDescriptors hnot⟩

theorem allocatedRanges_of_none {bs : List RootBridge} (h : NoneAllocated bs) : allocatedRanges bs = [] := by
  unfold allocatedRanges
  rw [List.flatMap_eq_nil_iff]
  intro b hb
  rw [List.filterMap_eq_nil_iff]
  exact fun t ht => range?_of_not_allocated (h b hb t ht)

theorem noneAllocated_freed (bs : List RootBridge) :
    NoneAllocated (bs.map (·.mapNodes resTypes freedNode)) := by
  intro b' hb' t ht
  obtain ⟨b, -, rfl⟩ := List.mem_map.mp hb'
  have hnode : (b.mapNodes resTypes freedNode).resAllocNode t = freedNode (b.resAllocNode t) :=
    resAllocNode_mapNodes ht
  rw [RootBridge.status, hnode]
  unfold freedNode
  split
  · exact fun hc => by cases hc
  · assumption

theorem clean_allocatedFrom {bs bs' : List RootBridge} (h : List.Forall₂ AllocatedFrom bs bs')
    (hclean : ∀ b ∈ bs, CleanBridge b) : ∀ b' ∈ bs', CleanBridge b' := by
  induction h with
  | nil => exact fun _ hb => absurd hb List.not_mem_nil
  | cons hb _ ih =>
    intro x hx
    rcases List.mem_cons.mp hx with rfl | hx
    · exact (hclean _ List.mem_cons_self).allocatedFrom hb
    · exact ih (fun y hy => hclean y (List.mem_cons_of_mem _ hy)) x hx

/-- What `EfiPciHostBridgeAllocateResources` does when there are requests and no node is allocated. -/
structure Allocated (s t : HostBridge) : Prop where
  inv : LeakInv t
  absent : ∀ k a, t.gcd k a = .absent ↔ s.gcd k a = .absent
  bridges : ∃ bs, List.Forall₂ AllocatedFrom s.bridges bs ∧ t.bridges = bs.map RootBridge.zeroFailed

theorem LeakInv.allocate {s : HostBridge} (h : LeakInv s) (hnone : NoneAllocated s.bridges)
    (hsub : s.resourceSubmited = true) :
    wp (notifyPhase c .allocateResources) (fun _ t => Allocated s t) (fun _ _ => True) s := by
  rw [notifyPhase, wp_bind, wp_get]
  show wp (ite _ _ _) _ _ s
  rw [if_pos hsub, wp_bind, wp_onGcd]
  have hgrants : Grants s.gcd s.gcd (allocatedRanges ([] ++ s.bridges)) :=
    ⟨h.holds.backs, h.holds.exact, fun _ _ => Iff.rfl⟩
  refine wp_mono (wp_allocateBridges_holds hnone hgrants) ?_ (fun _ _ h => h)
  rintro r gcd' ⟨hgrants', hfrom⟩
  rw [wp_bind, wp_modify, wp_pure]
  have hclean := clean_allocatedFrom hfrom h.clean
  have hsame := forall₂_map (f := RootBridge.zeroFailed) fun b hb => sameRanges_zeroFailed (hclean b hb)
  have hranges := allocatedRanges_congr (hsame.imp fun _ _ h => h.1)
  refine ⟨⟨⟨?_, ?_⟩, clean_of_sameRanges hsame⟩, hgrants'.absent, r.1, hfrom, rfl⟩
  · show Backs gcd' (allocatedRanges (r.1.map RootBridge.zeroFailed))
    rw [hranges]
    exact hgrants'.backs
  · show Exact gcd' (allocatedRanges (r.1.map RootBridge.zeroFailed))
    rw [hranges]
    exact hgrants'.exact

/-- What `EfiPciHostBridgeFreeResources` does when every range is of a type that is given back. -/
structure Freed (s t : HostBridge) : Prop where
  inv : LeakInv t
  absent : ∀ k a, t.gcd k a = .absent ↔ s.gcd k a = .absent
  bridges : t.bridges = s.bridges.map (·.mapNodes resTypes freedNode)
  submitted : t.resourceSubmited = false

theorem LeakInv.free {s : HostBridge} (h : LeakInv s) (hall : ∀ b ∈ s.bridges, FreesAll b) :
    wp (notifyPhase c .freeResources) (fun _ t => Freed s t) (fun _ _ => False) s := by
  rw [notifyPhase, wp_bind, wp_get]
  show wp (onGcd _ >>= _) _ _ s
  rw [wp_bind, wp_onGcd]
  have hbacks : Backs s.gcd (allocatedRanges ([] ++ s.bridges)) := h.holds.backs
  refine wp_mono (wp_freeBridges hbacks) ?_ (fun _ _ h => h)
  rintro r gcd' ⟨rfl, hfrees⟩
  rw [wp_bind, wp_modify, wp_pure]
  refine ⟨⟨⟨hfrees.backs, hfrees.exact hall h.holds.exact⟩, ?_⟩, hfrees.absent, rfl, rfl⟩
  intro b' hb'
  obtain ⟨b, hb, rfl⟩ := List.mem_map.mp hb'
  exact (h.clean b hb).mapNodes CleanNode.freed

theorem Freed.exact {s t : HostBridge} (h : Freed s t) : Exact t.gcd [] := by
  have hranges := allocatedRanges_of_none (noneAllocated_freed s.bridges)
  rw [← hranges, ← h.bridges]
  exact h.inv.holds.exact

theorem Freed.holds_none {s t : HostBridge} (h : Freed s t) (k : Space) (a : Nat) :
    t.gcd k a ≠ .held := by
  intro hc
  obtain ⟨r, hr, -⟩ := (h.exact k a).mp hc
  cases hr

theorem LeakInv.notifyPhase {s : HostBridge} {phase : Phase} (h : LeakInv s)
    (hkeep : CallKeepsRanges (.notifyPhase phase) s) :
    wp (notifyPhase c phase) (fun _ => LeakInv) (fun _ _ => True) s := by
  cases phase with
  | allocateResources =>
    by_cases hsub : s.resourceSubmited = true
    · exact wp_mono (h.allocate (hkeep hsub) hsub) (fun _ _ ht => ht.inv) (fun _ _ h => h)
    · rw [PciHostBridge.notifyPhase, wp_bind, wp_get]
      show wp (ite _ _ _) _ _ s
      rw [if_neg hsub]
      exact h
  | beginEnumeration =>
    rw [PciHostBridge.notifyPhase, wp_bind, wp_get]
    show wp (ite _ _ _) _ _ s
    rw [wp_ite]
    refine ⟨fun hcan => ?_, fun _ => h⟩
    rw [wp_bind, wp_modify, wp_pure]
    exact h.sameRanges rfl (forall₂_map fun b hb => sameRanges_reset (hkeep hcan b hb))
  | freeResources =>
    exact wp_mono (h.free hkeep) (fun _ _ ht => ht.inv) (fun _ _ h => h.elim)
  | beginBusAllocation => exact ⟨⟨h.holds.backs, h.holds.exact⟩, h.clean⟩
  | _ => exact h

theorem LeakInv.submitResources {s : HostBridge} {handle : Nat} {configuration : Option Configuration}
    (h : LeakInv s) (hkeep : CallKeepsRanges (.submitResources handle configuration) s) :
    wp (submitResources handle configuration) (fun _ => LeakInv) (fun _ _ => True) s := by
  rw [PciHostBridge.submitResources, wp_bind, wp_get]
  cases configuration with
  | none => exact h
  | some config =>
    cases hb : s.bridges.find? (fun b => decide (b.handle = handle)) with
    | none => exact h
    | some b =>
      show wp (checkDescriptors b config.descriptors >>= _) _ _ s
      rw [wp_bind]
      refine wp_mono (wp_checkDescriptors b s config.descriptors) ?_ (fun _ _ h => h)
      rintro st t ⟨rfl, -⟩
      rw [wp_ite]
      refine ⟨fun _ => h, fun _ => ?_⟩
      rw [wp_ite]
      refine ⟨fun _ => h, fun _ => ?_⟩
      rw [wp_bind, wp_modify, wp_pure]
      have hrefl : ∀ b ∈ t.bridges, SameRanges b b := fun b hb => ⟨fun _ _ => rfl, h.clean b hb⟩
      refine h.sameRanges rfl (forall₂_updateBridge hrefl fun b' hb' => ?_)
      rw [hb] at hb'
      injection hb' with hb'
      subst hb'
      have hmem := List.mem_of_find?_eq_some hb
      have hhandle : b.handle = handle := by simpa using List.find?_some hb
      exact sameRanges_applyDescriptors (h.clean b hmem) (hkeep b hmem hhandle)

theorem LeakInv.setBusNumbers {s : HostBridge} (h : LeakInv s) (handle : Nat)
    (configuration : Option Configuration) :
    wp (setBusNumbers handle configuration) (fun _ => LeakInv) (fun _ _ => True) s := by
  have hrefl : ∀ b ∈ s.bridges, SameRanges b b := fun b hb => ⟨fun _ _ => rfl, h.clean b hb⟩
  rw [PciHostBridge.setBusNumbers, wp_bind, wp_get]
  split
  · rw [wp_ite]
    refine ⟨fun _ => h, fun _ => ?_⟩
    split
    · exact h
    · split
      · exact h
      · rw [wp_bind, wp_modify, wp_pure]
        refine h.sameRanges rfl (forall₂_updateBridge hrefl fun b hb => ?_)
        exact sameRanges_assignBus (h.clean b (List.mem_of_find?_eq_some hb)) _ _
  · exact h

theorem LeakInv.call {s : HostBridge} {call : Call} (h : LeakInv s) (hkeep : CallKeepsRanges call s) :
    wp (serveCall c call) (fun _ => LeakInv) (fun _ _ => True) s := by
  cases call with
  | notifyPhase phase => exact h.notifyPhase hkeep
  | submitResources handle configuration =>
    rw [serveCall, wp_bind]
    exact h.submitResources hkeep
  | setBusNumbers handle configuration =>
    rw [serveCall, wp_bind]
    exact h.setBusNumbers handle configuration

theorem LeakInv.freeHoldsNone {s : HostBridge} {call : Call} (h : LeakInv s)
    (hkeep : CallKeepsRanges call s) : FreeHoldsNone c call s := by
  rintro rfl r s' hret
  have hfreed := wp_of_ret (h.free (c := c) hkeep) hret
  exact hfreed.holds_none

/-! ## A repeated enumeration -/

theorem noneAllocated_afterRequests {bs : List RootBridge} :
    ∀ es : List Effect, NoneAllocated bs → NoneAllocated (afterRequests es bs) := by
  induction bs with
  | nil =>
    intro es h
    rw [afterRequests_nil]
    exact h
  | cons b bs ih =>
    intro es h
    rw [afterRequests_cons]
    intro b' hb' t ht
    rcases List.mem_cons.mp hb' with rfl | hb'
    · rw [applyDescriptors_eq]
      show (nodeAfter t _ (b.resAllocNode t)).status ≠ .allocated
      rcases nodeAfter_cases t (descriptorsFor b.handle es) with hid | ⟨d, -, -, hstore⟩
      · rw [hid]
        exact h b List.mem_cons_self t ht
      · rw [hstore]
        exact (status_storeRequest t d _).1
    · exact ih _ (fun x hx => h x (List.mem_cons_of_mem b hx)) b' hb' t ht

theorem clean_afterRequests {bs : List RootBridge} : ∀ {es : List Effect}, NoneAllocated bs →
    (∀ b ∈ bs, CleanBridge b) → ∀ b' ∈ afterRequests es bs, CleanBridge b' := by
  induction bs with
  | nil =>
    intro es _ _ b' hb'
    rw [afterRequests_nil] at hb'
    cases hb'
  | cons b bs ih =>
    intro es hnone hclean b' hb'
    rw [afterRequests_cons] at hb'
    rcases List.mem_cons.mp hb' with rfl | hb'
    · refine (hclean b List.mem_cons_self).applyDescriptors fun d _ t htarget => ?_
      refine hnone b List.mem_cons_self t (mem_resTypes.mpr ?_)
      rintro rfl
      exact target_ne_bus d htarget
    · exact ih (fun x hx => hnone x (List.mem_cons_of_mem b hx))
        (fun x hx => hclean x (List.mem_cons_of_mem b hx)) b' hb'

theorem allocate_not_submitted {s : HostBridge} (h : s.resourceSubmited = false) :
    notifyPhase c .allocateResources s = .ret (.notReady, []) s := by
  show (if s.resourceSubmited = true then _ else _ : Exec HostBridge _) s = _
  rw [if_neg (by rw [h]; nofun)]
  rfl

theorem allocate_congr {s t u : HostBridge} {r : EfiStatus × List (List ResType)}
    (hb : u.bridges = s.bridges) (hgcd : u.gcd = s.gcd) (hsub : u.resourceSubmited = s.resourceSubmited)
    (h : notifyPhase c .allocateResources s = .ret r t) :
    ∃ v, notifyPhase c .allocateResources u = .ret r v ∧ v.bridges = t.bridges := by
  by_cases hs : s.resourceSubmited = true
  · have hunfold : ∀ s : HostBridge, s.resourceSubmited = true →
        notifyPhase c .allocateResources s = (onGcd (allocateBridges c s.bridges .success) >>= fun r => do
          Exec.modify fun s => { s with bridges := r.1.map RootBridge.zeroFailed }
          pure (r.2.1, r.2.2)) s := by
      intro s hs
      show (if s.resourceSubmited = true then _ else _ : Exec HostBridge _) s = _
      rw [if_pos hs]
    rw [hunfold s hs] at h
    rw [hunfold u (hsub.trans hs), hb]
    cases hret : allocateBridges c s.bridges .success s.gcd with
    | stop w g =>
      change Exec.bind (onGcd _) _ s = _ at h
      unfold Exec.bind onGcd at h
      rw [hret] at h
      cases h
    | ret p g =>
      have hon : ∀ s' : HostBridge, s'.gcd = s.gcd →
          onGcd (allocateBridges c s.bridges .success) s' = .ret p { s' with gcd := g } := by
        intro s' hg
        unfold onGcd
        rw [hg, hret]
      rw [bind_of_ret (hon s rfl)] at h
      rw [bind_of_ret (hon u hgcd)]
      injection h with hr ht
      exact ⟨_, by rw [← hr]; rfl, by rw [← ht]⟩
  · have hs' : s.resourceSubmited = false := by simpa using hs
    rw [allocate_not_submitted hs'] at h
    injection h with hr ht
    refine ⟨u, ?_, by rw [← ht, hb]⟩
    rw [allocate_not_submitted (hsub.trans hs'), hr]

theorem Idle.noneAllocated {s : HostBridge} (h : Idle s) : NoneAllocated s.bridges := by
  intro b hb t ht
  rw [h.nodes b hb t ht]
  nofun

theorem LeakInv.requested {s : HostBridge} (h : LeakInv s) (hidle : Idle s) (es : List Effect) :
    LeakInv (requested es s) := by
  have hnone := hidle.noneAllocated
  have hranges : allocatedRanges (afterRequests es s.bridges) = allocatedRanges s.bridges := by
    rw [allocatedRanges_of_none hnone, allocatedRanges_of_none (noneAllocated_afterRequests es hnone)]
  refine ⟨⟨?_, ?_⟩, clean_afterRequests hnone h.clean⟩
  · show Backs s.gcd (allocatedRanges (afterRequests es s.bridges))
    rw [hranges]
    exact h.holds.backs
  · show Exact s.gcd (allocatedRanges (afterRequests es s.bridges))
    rw [hranges]
    exact h.holds.exact

theorem map_freed_of_none {bs : List RootBridge} (h : NoneAllocated bs) :
    bs.map (·.mapNodes resTypes freedNode) = bs := by
  refine (List.map_congr_left fun b hb => ?_).trans (List.map_id bs)
  show { b with resAllocNode := fun t => if t ∈ resTypes then freedNode (b.resAllocNode t)
    else b.resAllocNode t } = b
  congr 1
  funext t
  by_cases ht : t ∈ resTypes
  · rw [if_pos ht]
    exact if_neg (h b hb t ht)
  · rw [if_neg ht]

theorem requests_after_round {s t u : HostBridge} {es : List Effect}
    {r : EfiStatus × List (List ResType)} (h : LeakInv s) (hidle : Idle s)
    (halloc : PciHostBridge.notifyPhase c .allocateResources (requested es s) = .ret r t)
    (hfree : Freed t u) :
    SameIds s.bridges u.bridges ∧ afterRequests es u.bridges = afterRequests es s.bridges ∧
      ∀ k a, t.gcd k a = .absent ↔ s.gcd k a = .absent := by
  have hnone := noneAllocated_afterRequests es hidle.noneAllocated
  rw [hfree.bridges]
  by_cases hsub : (requested es s).resourceSubmited = true
  · have hret := wp_of_ret ((h.requested hidle es).allocate hnone hsub) halloc
    obtain ⟨bs, hfrom, hbridges⟩ := hret.bridges
    rw [hbridges]
    refine ⟨?_, ?_, hret.absent⟩
    · have hzero : SameIds bs (bs.map RootBridge.zeroFailed) := sameIds_map fun b => by
        rw [zeroFailed_eq]
        exact ⟨rfl, rfl⟩
      exact (((sameIds_afterRequests s.bridges es).trans (sameIds_allocatedFrom hfrom)).trans hzero).trans
        (sameIds_freed _)
    · exact afterRequests_again (fun b hb => ⟨h.clean b hb, hidle.nodes b hb⟩) hfrom
  · have hsub' : (requested es s).resourceSubmited = false := by simpa using hsub
    rw [allocate_not_submitted hsub'] at halloc
    injection halloc with _ ht
    rw [← ht]
    show SameIds s.bridges ((afterRequests es s.bridges).map _) ∧
      afterRequests es ((afterRequests es s.bridges).map _) = _ ∧ _
    rw [map_freed_of_none hnone]
    exact ⟨sameIds_afterRequests s.bridges es, afterRequests_twice s.bridges es, fun _ _ => Iff.rfl⟩

theorem LeakInv.repeatsRanges {s : HostBridge} (h : LeakInv s) : RepeatsRanges c s := by
  intro reqs s₁ r t r' u hidle hreqs halloc hkeep hfree
  obtain ⟨es, rfl, hparallel⟩ := requestCalls_parallel hreqs
  have hnone := noneAllocated_afterRequests es hidle.noneAllocated
  have hkeep' : CallKeepsRanges (.notifyPhase .allocateResources) (PciHostBridge.requested es s) :=
    fun _ => hnone
  have hinv : LeakInv t := wp_of_ret ((h.requested hidle es).notifyPhase hkeep') halloc
  have hfreed := wp_of_ret (hinv.free (c := c) hkeep) hfree
  obtain ⟨hids, hbridges, habsent⟩ := requests_after_round h hidle halloc hfreed
  -- nothing is held before and after, and the same addresses exist
  have hgcd : u.gcd = s.gcd := by
    refine Exact.unique hfreed.exact ?_ fun k a => (hfreed.absent k a).trans (habsent k a)
    rw [← allocatedRanges_of_none hidle.noneAllocated]
    exact h.holds.exact
  have hsub : (PciHostBridge.requested es u).resourceSubmited =
      (PciHostBridge.requested es s).resourceSubmited := by
    show (u.resourceSubmited || _) = (s.resourceSubmited || _)
    rw [hfreed.submitted, hidle.submitted]
  obtain ⟨v, hv, hvb⟩ := allocate_congr (s := PciHostBridge.requested es s)
    (u := PciHostBridge.requested es u) hbridges hgcd hsub halloc
  exact ⟨_, v, hparallel u hids, hv, hvb⟩

theorem Started.leakInv {s : HostBridge} (h : Started s) : LeakInv s := by
  have hnone : NoneAllocated s.bridges := by
    intro b hb t _
    rw [RootBridge.status, h.nodes b hb t]
    exact fun hc => by cases hc
  have hranges := allocatedRanges_of_none hnone
  refine ⟨⟨hranges ▸ Backs.nil _, ?_⟩, fun b hb t _ => ?_⟩
  · rw [hranges]
    intro k a
    refine ⟨fun hc => absurd hc (h.held k a), ?_⟩
    rintro ⟨r, hr, -⟩
    cases hr
  · rw [h.nodes b hb t]
    exact ⟨fun _ => rfl, fun _ => rfl⟩

theorem ranges_held {s₀ : HostBridge} (h₀ : Started s₀) (calls : List Call)
    (hcalls : EachMeets (serveCall c) CallKeepsRanges calls s₀) :
    EachMeets (serveCall c) (fun call s => HoldsExactly s ∧ RepeatsRanges c s ∧ FreeHoldsNone c call s)
        calls s₀ ∧
      wp (Exec.serve (serveCall c) calls) (fun _ s => HoldsExactly s ∧ RepeatsRanges c s)
        (fun _ _ => True) s₀ := by
  have hstep : ∀ call s, LeakInv s → CallKeepsRanges call s →
      wp (serveCall c call) (fun _ => LeakInv) (fun _ _ => True) s := fun _ _ hs hkeep => hs.call hkeep
  constructor
  · exact EachMeets.of_invariant hstep
      (fun _ _ hs hkeep => ⟨hs.holds, hs.repeatsRanges, hs.freeHoldsNone hkeep⟩) calls s₀ hcalls h₀.leakInv
  · exact wp_mono (wp_serve hstep calls s₀ hcalls h₀.leakInv)
      (fun _ _ hs => ⟨hs.holds, hs.repeatsRanges⟩) (fun _ _ h => h)

theorem keepsRanges_round {call : Call} (hcall : CallKeepsRanges call twoBridges)
    (halloc : NoneAllocated (afterRequest call).bridges)
    (hfree : ∀ b ∈ (afterAllocation call).bridges, FreesAll b) :
    EachMeets (serveCall exampleConfig) CallKeepsRanges
      [call, .notifyPhase .allocateResources, .notifyPhase .freeResources] twoBridges := by
  refine ⟨hcall, fun r s hs => ?_⟩
  have hs₁ : s = afterRequest call := by
    rw [afterRequest, hs]
    rfl
  subst hs₁
  refine ⟨fun _ => halloc, fun r' s' hs' => ?_⟩
  have hs₂ : s' = afterAllocation call := by
    change notifyPhase exampleConfig .allocateResources (afterRequest call) = _ at hs'
    rw [afterAllocation, hs']
    rfl
  subst hs₂
  exact ⟨hfree, fun _ _ _ => trivial⟩

theorem ranges_held_io :
    EachMeets (serveCall exampleConfig) (fun call s => HoldsExactly s ∧ RepeatsRanges exampleConfig s ∧
        FreeHoldsNone exampleConfig call s)
        [ioRequest 0x10 0xF, .notifyPhase .allocateResources, .notifyPhase .freeResources] twoBridges ∧
      wp (Exec.serve (serveCall exampleConfig)
        [ioRequest 0x10 0xF, .notifyPhase .allocateResources, .notifyPhase .freeResources])
        (fun _ s => HoldsExactly s ∧ RepeatsRanges exampleConfig s) (fun _ _ => True) twoBridges := by
  have hcall : CallKeepsRanges (ioRequest 0x10 0xF) twoBridges := by
    intro b hb _ d _ t _
    rw [RootBridge.status, started_twoBridges.nodes b hb t]
    exact fun hc => by cases hc
  have halloc : ∀ b ∈ (afterRequest (ioRequest 0x10 0xF)).bridges, ∀ t ∈ resTypes,
      b.status t ≠ .allocated := by
    decide +kernel
  have hfree : ∀ b ∈ (afterAllocation (ioRequest 0x10 0xF)).bridges,
      b.status .pMem32 ≠ .allocated ∧ b.status .mem64 ≠ .allocated := by
    decide +kernel
  exact ranges_held started_twoBridges _ (keepsRanges_round hcall halloc hfree)

theorem free_after_request {call : Call} {P : HostBridge → Prop}
    (r r' r'' : EfiStatus × List (List ResType))
    (hreq : (serveCall exampleConfig call twoBridges).value? = some r)
    (halloc : (notifyPhase exampleConfig .allocateResources (afterRequest call)).value? = some r')
    (hfree : (notifyPhase exampleConfig .freeResources (afterAllocation call)).value? = some r'')
    (h : EachMeets (serveCall exampleConfig) (fun call s => P s ∧ RepeatsRanges exampleConfig s ∧
      FreeHoldsNone exampleConfig call s)
      [call, .notifyPhase .allocateResources, .notifyPhase .freeResources] twoBridges) (k : Space) (a : Nat) :
    (notifyPhase exampleConfig .freeResources (afterAllocation call)).state.gcd k a ≠ .held := by
  have hlast := (h.2 _ _ (Outcome.eq_ret hreq)).2 _ _ (Outcome.eq_ret halloc)
  exact hlast.1.2.2 rfl _ _ (Outcome.eq_ret hfree) k a

theorem not_holdsExactly {calls : List Call} {P : HostBridge → Prop} {k : Space} {a : Nat}
    (hret : (Exec.serve (serveCall exampleConfig) calls twoBridges).value? = some ())
    (hnone : allocatedRanges (Exec.serve (serveCall exampleConfig) calls twoBridges).state.bridges = [])
    (hheld : (Exec.serve (serveCall exampleConfig) calls twoBridges).state.gcd k a = .held) :
    ¬ wp (Exec.serve (serveCall exampleConfig) calls) (fun _ s => HoldsExactly s ∧ P s)
      (fun _ _ => True) twoBridges := by
  intro h
  have hexact := (wp_of_ret h (Outcome.eq_ret hret)).1.exact
  obtain ⟨r, hr, -⟩ := (hexact k a).mp hheld
  rw [hnone] at hr
  cases hr

/-- A 64-bit range of memory is still held after the resources are freed. And a range of I/O that is allocated
when the enumeration begins anew is held by no node. -/
theorem ranges_leaked :
    ¬ EachMeets (serveCall exampleConfig) (fun call s => HoldsExactly s ∧ RepeatsRanges exampleConfig s ∧
        FreeHoldsNone exampleConfig call s)
        [mem64Request 1 1, .notifyPhase .allocateResources, .notifyPhase .freeResources] twoBridges ∧
      ¬ wp (Exec.serve (serveCall exampleConfig) [ioRequest 0x10 0xF, .notifyPhase .allocateResources,
          .notifyPhase .beginEnumeration])
        (fun _ s => HoldsExactly s ∧ RepeatsRanges exampleConfig s) (fun _ _ => True) twoBridges := by
  constructor
  · intro h
    have hheld : (notifyPhase exampleConfig .freeResources
        (afterAllocation (mem64Request 1 1))).state.gcd .memory 2 = .held := by
      decide +kernel
    exact free_after_request (.success, []) (.success, [[.mem64], []]) (.success, []) (by decide +kernel)
      (by decide +kernel) (by decide +kernel) h .memory 2 hheld
  · exact not_holdsExactly (by decide +kernel) (by decide +kernel)
      (k := .io) (a := 0x1000) (by decide +kernel)

end Quark.PciHostBridge
