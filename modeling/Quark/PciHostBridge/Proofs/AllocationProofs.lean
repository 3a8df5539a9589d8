import Quark.PciHostBridge.Proofs.BridgeProofs

/-!
# Allocation is sound

Where no pick goes to a node that was not asked for and no search wraps, a call of
`NotifyPhase (EfiPciHostBridgeAllocateResources)` attempts each requested node once and, if it succeeds, has
placed them all. This holds along every sequence of calls of the driver.
-/

namespace Quark.PciHostBridge

open Machine Exec

variable {c : Config}

/-! ## One attempt -/

theorem backs_attempted {P : BitVec 64 → Prop} {pre post : List RootBridge} {b b' : RootBridge}
    {t : ResType} {gcd gcd' : Gcd} (ht : t ∈ resTypes)
    (hb : Backs gcd (allocatedRanges (pre ++ b :: post))) (h : Attempted P b t gcd b' gcd') :
    Backs gcd' (allocatedRanges (pre ++ b' :: post)) := by
  obtain ⟨r, rfl, hfound, -⟩ := h
  cases r with
  | none =>
    have hsame : gcd' = gcd := hfound
    rw [hsame]
    exact hb
  | some base =>
    obtain ⟨hgrant, rfl⟩ := hfound
    obtain ⟨l₁, l₂, hold, hnew⟩ := allocatedRanges_setNode pre post b ht
    have hrange : ((b.place t (some base)).range? t).toList =
        [⟨t.space, base.toNat, (b.resAllocNode t).length.toNat⟩] := by
      simp [RootBridge.place, RootBridge.range?, RootBridge.status, RootBridge.range]
    have hnew' := hnew { b.resAllocNode t with base := base, status := .allocated }
    show Backs _ (allocatedRanges (pre ++ b.setNode t _ :: post))
    rw [hnew']
    show Backs _ (l₁ ++ ((b.place t (some base)).range? t).toList ++ l₂)
    rw [hrange, List.append_assoc]
    have hsub : (l₁ ++ l₂).Sublist (l₁ ++ (b.range? t).toList ++ l₂) := by
      rw [List.append_assoc]
      exact List.Sublist.append_left (List.sublist_append_right _ _) _
    exact Backs.allocate ((hold ▸ hb).sublist hsub) hgrant

theorem bridgeOk_attempted {b b' : RootBridge} {t : ResType} {gcd gcd' : Gcd} (hok : BridgeOk b)
    (ht : t ∈ resTypes) (h : Attempted (GoodAddress b.aperture t (b.resAllocNode t)) b t gcd b' gcd') :
    BridgeOk b' := by
  obtain ⟨r, rfl, -, hgood⟩ := h
  cases r with
  | none => exact hok
  | some base =>
    obtain ⟨hin, halign⟩ := hgood base rfl
    intro u hu
    by_cases hut : u = t
    · subst hut
      have hnode : (b.place u (some base)).resAllocNode u =
          { b.resAllocNode u with base := base, status := .allocated } := resAllocNode_setNode ..
      refine ⟨?_, fun _ => ⟨?_, ?_, ?_⟩⟩
      · rw [hnode]
        exact ⟨(hok u hu).1.alignment, (hok u hu).1.length⟩
      · rw [RootBridge.status, hnode]
      · rw [RootBridge.range, hnode, aperture_place]
        exact hin
      · rw [hnode]
        exact halign
    · have hnode : (b.place t (some base)).resAllocNode u = b.resAllocNode u :=
        resAllocNode_setNode_ne b _ hut
      obtain ⟨hnodeOk, hplaced⟩ := hok u hu
      refine ⟨hnode ▸ hnodeOk, fun hst => ?_⟩
      obtain ⟨-, hin, halign⟩ := hplaced (by rw [RootBridge.status, ← hnode]; exact hst)
      refine ⟨hst, ?_, hnode ▸ halign⟩
      rw [RootBridge.range, hnode, aperture_place]
      exact hin

/-! ## One bridge -/

theorem wp_allocateTypes {K : List ResType → List ResType → Progress → Gcd → Prop}
    (hskip : ∀ i done rest p gcd, K done (i :: rest) p gcd → p.bridge.status i = .none →
      K (done ++ [i]) rest { p with resNodeHandled := Function.update p.resNodeHandled i true } gcd)
    (hpick : ∀ i done rest p gcd t, K done (i :: rest) p gcd → p.bridge.status i ≠ .none →
      pickNode p.bridge.resAllocNode p.resNodeHandled = some t →
      wp (allocateNode c p.bridge t) (fun b gcd' => K (done ++ [i]) rest (p.attempted t b) gcd')
        (fun _ _ => True) gcd) :
    ∀ rest done p gcd, K done rest p gcd →
      wp (allocateTypes c rest p) (fun p' gcd' => K (done ++ rest) [] p' gcd') (fun _ _ => True) gcd := by
  intro rest
  induction rest with
  | nil =>
    intro done p gcd h
    rw [allocateTypes, wp_pure, List.append_nil]
    exact h
  | cons i rest ih =>
    intro done p gcd h
    have hassoc : done ++ i :: rest = (done ++ [i]) ++ rest := by simp
    rw [allocateTypes, wp_ite, hassoc]
    refine ⟨fun hnone => ih _ _ _ (hskip i done rest p gcd h hnone), fun hsome => ?_⟩
    cases ht : pickNode p.bridge.resAllocNode p.resNodeHandled with
    | none =>
      show wp (assert c.assertEnabled False >>= _) _ _ gcd
      rw [wp_bind, wp_assert]
      exact ⟨fun _ => trivial, fun _ => trivial⟩
    | some t =>
      show wp (allocateNode c p.bridge t >>= _) _ _ gcd
      rw [wp_bind]
      refine wp_mono (hpick i done rest p gcd t h hsome ht) ?_ (fun _ _ h => h)
      intro b gcd' hb
      exact ih _ _ _ hb

/-- The loop over `Index1` for the bridge `b₀`, between the bridges `pre` and `post`. -/
structure Serving (b₀ : RootBridge) (pre post : List RootBridge) (done rest : List ResType)
    (p : Progress) (gcd : Gcd) : Prop where
  picking : Picking b₀ done rest p
  length : ∀ t, (p.bridge.resAllocNode t).length = (b₀.resAllocNode t).length
  aperture : p.bridge.aperture = b₀.aperture
  status : p.returnStatus = .success → ∀ t ∈ p.attempts, p.bridge.status t = .allocated
  ok : BridgeOk p.bridge
  backs : Backs gcd (allocatedRanges (pre ++ p.bridge :: post))

def BridgeFits (c : Config) (b : RootBridge) : Prop :=
  PicksFit b ∧ ∀ t ∈ resTypes, b.status t ≠ .none → SearchFits c b.aperture t (b.resAllocNode t)

theorem SearchFits.congr {a : Aperture} {t : ResType} {node node' : ResNode}
    (h : SearchFits c a t node) (halign : node'.alignment = node.alignment)
    (hlen : node'.length = node.length) : SearchFits c a t node' := by
  unfold SearchFits UpwardFits Downward32Fits DownwardFits at *
  rw [halign, hlen]
  exact h

theorem Serving.pick {b₀ : RootBridge} {pre post : List RootBridge} {done rest : List ResType}
    {i t : ResType} {p : Progress} {gcd : Gcd} (h : Serving b₀ pre post done (i :: rest) p gcd)
    (hfit : BridgeFits c b₀) (hi : p.bridge.status i ≠ .none)
    (ht : pickNode p.bridge.resAllocNode p.resNodeHandled = some t) :
    wp (allocateNode c p.bridge t)
      (fun b gcd' => Serving b₀ pre post (done ++ [i]) rest (p.attempted t b) gcd')
      (fun _ _ => True) gcd := by
  obtain ⟨hmem, hreq, hnew⟩ := h.picking.pick_requested hi hfit.1 ht
  have hsearch : SearchFits c p.bridge.aperture t (p.bridge.resAllocNode t) := by
    rw [h.aperture]
    exact (hfit.2 t hmem hreq).congr (h.picking.alignment t) (h.length t)
  refine wp_mono (wp_allocateNode (finds_good (h.ok t hmem).1 hsearch)) ?_ (fun _ _ h => h)
  intro b gcd' hatt
  obtain ⟨r, hb, hfound, hgood⟩ := hatt
  have hother : ∀ u, u ≠ t → b.resAllocNode u = p.bridge.resAllocNode u := by
    intro u hu
    rw [hb]
    cases r with
    | none => rfl
    | some base => exact resAllocNode_setNode_ne _ _ hu
  refine ⟨h.picking.pick hi hfit.1 ht hb, ?_, ?_, ?_, ?_, ?_⟩
  · intro u
    rw [← h.length u]
    show (b.resAllocNode u).length = _
    rw [hb]
    cases r with
    | none => rfl
    | some base =>
      by_cases hu : u = t
      · rw [hu]; simp [RootBridge.place]
      · rw [RootBridge.place, resAllocNode_setNode_ne _ _ hu]
  · show b.aperture = _
    rw [hb, aperture_place]
    exact h.aperture
  · intro hst u hu
    have hboth : b.status t = .allocated ∧ p.returnStatus = .success := by
      have : (if (b.resAllocNode t).status ≠ .allocated then EfiStatus.outOfResources
        else p.returnStatus) = .success := hst
      split at this
      · cases this
      · rename_i hal
        exact ⟨not_not.mp hal, this⟩
    rcases List.mem_append.mp hu with hu | hu
    · have hne : u ≠ t := fun hc => hnew (hc ▸ hu)
      show (b.resAllocNode u).status = _
      rw [hother u hne]
      exact h.status hboth.2 u hu
    · rw [List.mem_singleton.mp hu]
      exact hboth.1
  · exact bridgeOk_attempted h.ok hmem ⟨r, hb, hfound, hgood⟩
  · exact backs_attempted hmem h.backs ⟨r, hb, hfound, hgood⟩

theorem Serving.skip {b₀ : RootBridge} {pre post : List RootBridge} {done rest : List ResType}
    {i : ResType} {p : Progress} {gcd : Gcd} (h : Serving b₀ pre post done (i :: rest) p gcd)
    (hi : p.bridge.status i = .none) : Serving b₀ pre post (done ++ [i]) rest
      { p with resNodeHandled := Function.update p.resNodeHandled i true } gcd :=
  ⟨h.picking.skip hi, h.length, h.aperture, h.status, h.ok, h.backs⟩

theorem returnStatus_le (index : ResType) (b : RootBridge) (p : Progress)
    (h : (p.attempted index b).returnStatus = .success) : p.returnStatus = .success := by
  unfold Progress.attempted at h
  dsimp only at h
  split at h
  · cases h
  · exact h

theorem wp_allocateBridge {b : RootBridge} {pre post : List RootBridge} {gcd : Gcd} {st : EfiStatus}
    (hfit : BridgeFits c b) (hok : BridgeOk b)
    (hbacks : Backs gcd (allocatedRanges (pre ++ b :: post))) :
    wp (allocateTypes c resTypes ⟨b, fun _ => false, st, []⟩) (fun p gcd' =>
      (p.returnStatus = .success → st = .success) ∧ BridgeOk p.bridge ∧
        BridgeServed p.returnStatus b p.bridge p.attempts ∧
        Backs gcd' (allocatedRanges (pre ++ p.bridge :: post))) (fun _ _ => True) gcd := by
  have hstart : Serving b pre post [] resTypes ⟨b, fun _ => false, st, []⟩ gcd :=
    ⟨.start b st, fun _ => rfl, rfl, fun _ t ht => absurd ht List.not_mem_nil, hok, hbacks⟩
  refine wp_mono (wp_allocateTypes
    (K := fun done rest p gcd => Serving b pre post done rest p gcd ∧
      (p.returnStatus = .success → st = .success)) ?_ ?_ resTypes [] _ gcd ⟨hstart, fun h => h⟩) ?_
    (fun _ _ h => h)
  · exact fun i done rest p gcd h hi => ⟨h.1.skip hi, h.2⟩
  · intro i done rest p gcd t h hi ht
    refine wp_mono (h.1.pick hfit hi ht) ?_ (fun _ _ h => h)
    exact fun b' gcd' hs => ⟨hs, fun hst => h.2 (returnStatus_le t b' p hst)⟩
  · rintro p gcd' ⟨h, hst⟩
    refine ⟨hst, h.ok, ⟨?_, ?_, ?_⟩, h.backs⟩
    · intro t ht hreq
      exact List.count_eq_one_of_mem h.picking.nodup (h.picking.all_attempted ht hreq)
    · intro t ht hnone
      exact ⟨fun hc => (h.picking.requested t hc).2 hnone, (h.picking.none_iff t).mpr hnone⟩
    · intro hsucc t ht hreq
      exact (h.ok t ht).2 (h.status hsucc t (h.picking.all_attempted ht hreq))

/-! ## All bridges -/

theorem BridgeServed.of_status {st st' : EfiStatus} {b b' : RootBridge} {a : List ResType}
    (h : BridgeServed st b b' a) (hst : st' = .success → st = .success) : BridgeServed st' b b' a :=
  ⟨h.once, h.only, fun hs => h.placed (hst hs)⟩

theorem wp_allocateBridges : ∀ {bs pre : List RootBridge} {gcd : Gcd} {st : EfiStatus},
    (∀ b ∈ bs, BridgeFits c b ∧ BridgeOk b) → Backs gcd (allocatedRanges (pre ++ bs)) →
    wp (allocateBridges c bs st) (fun r gcd' =>
      (r.2.1 = .success → st = .success) ∧ (∀ b ∈ r.1, BridgeOk b) ∧ AllServed r.2.1 bs r.1 r.2.2 ∧
        Backs gcd' (allocatedRanges (pre ++ r.1))) (fun _ _ => True) gcd := by
  intro bs
  induction bs with
  | nil =>
    intro pre gcd st _ hbacks
    exact ⟨fun h => h, fun b hb => absurd hb List.not_mem_nil, .nil, hbacks⟩
  | cons b bs ih =>
    intro pre gcd st hbs hbacks
    obtain ⟨hfit, hok⟩ := hbs b List.mem_cons_self
    rw [allocateBridges, wp_bind]
    refine wp_mono (wp_allocateBridge hfit hok hbacks) ?_ (fun _ _ h => h)
    rintro p gcd' ⟨hst, hok', hserved, hbacks'⟩
    rw [wp_bind]
    have hassoc : ∀ l : List RootBridge, pre ++ p.bridge :: l = (pre ++ [p.bridge]) ++ l := by simp
    rw [hassoc] at hbacks'
    refine wp_mono (ih (fun b' hb' => hbs b' (List.mem_cons_of_mem b hb')) hbacks') ?_ (fun _ _ h => h)
    rintro r gcd'' ⟨hst', hoks, hall, hbacks''⟩
    rw [wp_pure]
    refine ⟨fun h => hst (hst' h), ?_, .cons (hserved.of_status hst') hall, ?_⟩
    · intro b' hb'
      rcases List.mem_cons.mp hb' with rfl | hb'
      · exact hok'
      · exact hoks b' hb'
    · rw [hassoc]
      exact hbacks''

theorem Placed.congr {b b' : RootBridge} {t : ResType} (h : Placed b t)
    (hap : b'.aperture = b.aperture) (hnode : b'.resAllocNode t = b.resAllocNode t) : Placed b' t := by
  obtain ⟨hst, hin, halign⟩ := h
  refine ⟨by rw [RootBridge.status, hnode]; exact hst, ?_, hnode ▸ halign⟩
  rw [hap, RootBridge.range, hnode]
  exact hin

theorem BridgeServed.zeroFailed {st : EfiStatus} {b b' : RootBridge} {a : List ResType}
    (h : BridgeServed st b b' a) : BridgeServed st b b'.zeroFailed a := by
  have hnode := fun t ht => resAllocNode_zeroFailed b' (t := t) ht
  have hap : b'.zeroFailed.aperture = b'.aperture := by rw [zeroFailed_eq]; rfl
  refine ⟨h.once, fun t ht hnone => ⟨(h.only t ht hnone).1, ?_⟩, fun hs t ht hreq => ?_⟩
  · rw [RootBridge.status, hnode t ht, status_zeroed]
    exact (h.only t ht hnone).2
  · have hplaced := h.placed hs t ht hreq
    exact hplaced.congr hap ((hnode t ht).trans (zeroed_of_allocated hplaced.allocated))

theorem AllServed.zeroFailed {st : EfiStatus} {bs bs' : List RootBridge} {as : List (List ResType)}
    (h : AllServed st bs bs' as) : AllServed st bs (bs'.map RootBridge.zeroFailed) as := by
  induction h with
  | nil => exact .nil
  | cons hb _ ih => exact .cons hb.zeroFailed ih

theorem wp_onGcd {α : Type} {x : Exec Gcd α} {Q : α → HostBridge → Prop} {E : Stop → HostBridge → Prop}
    {s : HostBridge} :
    wp (onGcd x) Q E s ↔ wp x (fun a gcd => Q a { s with gcd := gcd })
      (fun w gcd => E w { s with gcd := gcd }) s.gcd := by
  unfold wp onGcd
  cases x s.gcd <;> exact Iff.rfl

/-! ## Sequences of calls -/

structure AllocInv (s : HostBridge) : Prop where
  ok : ∀ b ∈ s.bridges, BridgeOk b
  backs : Backs s.gcd (allocatedRanges s.bridges)

theorem AllocInv.kept {s s' : HostBridge} (h : AllocInv s) (hgcd : s'.gcd = s.gcd)
    (hb : List.Forall₂ Kept s.bridges s'.bridges) : AllocInv s' :=
  ⟨forall₂_kept_ok hb h.ok, hgcd ▸ h.backs.sublist (allocatedRanges_sublist hb)⟩

theorem kept_freed {b : RootBridge} (hok : BridgeOk b) : Kept b (b.mapNodes resTypes freedNode) := by
  refine ⟨rfl, fun t ht => ?_⟩
  have hnode : (b.mapNodes resTypes freedNode).resAllocNode t = freedNode (b.resAllocNode t) :=
    resAllocNode_mapNodes ht
  rw [RootBridge.status, hnode]
  unfold freedNode
  split
  · exact .inr ⟨(fun hc => by cases hc), (hok t ht).1.cleared rfl rfl⟩
  · exact .inl rfl

theorem AllocInv.allocate {s : HostBridge} (h : AllocInv s)
    (hfits : AllocationFits c (.notifyPhase .allocateResources) s) (hsub : s.resourceSubmited = true) :
    wp (notifyPhase c .allocateResources) (fun r s' => AllocInv s' ∧
      AllServed r.1 s.bridges s'.bridges r.2) (fun _ _ => True) s := by
  rw [notifyPhase, wp_bind, wp_get]
  show wp (ite _ _ _) _ _ s
  rw [if_pos hsub, wp_bind, wp_onGcd]
  have hbacks : Backs s.gcd (allocatedRanges ([] ++ s.bridges)) := h.backs
  refine wp_mono (wp_allocateBridges (fun b hb => ⟨hfits rfl hsub b hb, h.ok b hb⟩) hbacks) ?_
    (fun _ _ h => h)
  rintro r gcd' ⟨-, hok, hall, hbacks⟩
  rw [wp_bind, wp_modify, wp_pure]
  have hkept := forall₂_map (f := RootBridge.zeroFailed) fun b hb => kept_zeroFailed (hok b hb)
  exact ⟨⟨forall₂_kept_ok hkept hok, hbacks.sublist (allocatedRanges_sublist hkept)⟩, hall.zeroFailed⟩

theorem AllocInv.notifyPhase {s : HostBridge} {phase : Phase} (h : AllocInv s)
    (hfits : AllocationFits c (.notifyPhase phase) s) :
    wp (notifyPhase c phase) (fun _ => AllocInv) (fun _ _ => True) s := by
  cases phase with
  | allocateResources =>
    by_cases hsub : s.resourceSubmited = true
    · exact wp_mono (h.allocate hfits hsub) (fun _ _ hr => hr.1) (fun _ _ h => h)
    · rw [PciHostBridge.notifyPhase, wp_bind, wp_get]
      show wp (ite _ _ _) _ _ s
      rw [if_neg hsub]
      exact h
  | beginEnumeration =>
    rw [PciHostBridge.notifyPhase, wp_bind, wp_get]
    show wp (ite _ _ _) _ _ s
    rw [wp_ite]
    refine ⟨fun _ => ?_, fun _ => h⟩
    rw [wp_bind, wp_modify, wp_pure]
    exact h.kept rfl (forall₂_map fun b hb => kept_reset (h.ok b hb))
  | freeResources =>
    rw [PciHostBridge.notifyPhase, wp_bind, wp_get]
    show wp (onGcd _ >>= _) _ _ s
    rw [wp_bind, wp_onGcd]
    have hbacks : Backs s.gcd (allocatedRanges ([] ++ s.bridges)) := h.backs
    refine wp_mono (wp_freeBridges hbacks) ?_ (fun _ _ h => h.elim)
    rintro r gcd' ⟨rfl, hfrees⟩
    rw [wp_bind, wp_modify, wp_pure]
    have hkept := forall₂_map (f := (·.mapNodes resTypes freedNode)) fun b hb => kept_freed (h.ok b hb)
    exact ⟨forall₂_kept_ok hkept h.ok, hfrees.backs⟩
  | beginBusAllocation => exact ⟨h.ok, h.backs⟩
  | _ => exact h

theorem AllocInv.submitResources {s : HostBridge} (h : AllocInv s) (handle : Nat)
    (configuration : Option Configuration) :
    wp (submitResources handle configuration) (fun _ => AllocInv) (fun _ _ => True) s := by
  rw [PciHostBridge.submitResources, wp_bind, wp_get]
  cases configuration with
  | none => exact h
  | some config =>
    cases hb : s.bridges.find? (fun b => decide (b.handle = handle)) with
    | none => exact h
    | some b =>
      show wp (checkDescriptors b config.descriptors >>= _) _ _ s
      rw [wp_bind]
      refine wp_mono (wp_checkDescriptors b s config.descriptors) ?_ (fun _ _ h => h)
      rintro st t ⟨rfl, hds⟩
      rw [wp_ite]
      refine ⟨fun _ => h, fun herr => ?_⟩
      rw [wp_ite]
      refine ⟨fun _ => h, fun _ => ?_⟩
      rw [wp_bind, wp_modify, wp_pure]
      have hok : BridgeOk b := h.ok b (List.mem_of_find?_eq_some hb)
      refine h.kept rfl (forall₂_updateBridge (fun b _ => Kept.refl b) fun b' hb' => ?_)
      rw [hb] at hb'
      injection hb' with hb'
      exact hb' ▸ kept_applyDescriptors hok (hds (by simpa using herr))

theorem AllocInv.setBusNumbers {s : HostBridge} (h : AllocInv s) (handle : Nat)
    (configuration : Option Configuration) :
    wp (setBusNumbers handle configuration) (fun _ => AllocInv) (fun _ _ => True) s := by
  rw [PciHostBridge.setBusNumbers, wp_bind, wp_get]
  split
  · rw [wp_ite]
    refine ⟨fun _ => h, fun _ => ?_⟩
    split
    · exact h
    · split
      · exact h
      · rw [wp_bind, wp_modify, wp_pure]
        exact h.kept rfl (forall₂_updateBridge (fun b _ => Kept.refl b) fun b _ => kept_assignBus b _ _)
  · exact h

theorem AllocInv.call {s : HostBridge} {call : Call} (h : AllocInv s) (hfits : AllocationFits c call s) :
    wp (serveCall c call) (fun _ => AllocInv) (fun _ _ => True) s := by
  cases call with
  | notifyPhase phase => exact h.notifyPhase hfits
  | submitResources handle configuration =>
    rw [serveCall, wp_bind]
    exact h.submitResources handle configuration
  | setBusNumbers handle configuration =>
    rw [serveCall, wp_bind]
    exact h.setBusNumbers handle configuration

theorem AllocInv.sound {s : HostBridge} {call : Call} (h : AllocInv s) (hfits : AllocationFits c call s) :
    AllocationSound c call s := by
  rintro rfl hsub st attempts s' hret
  have hpost := wp_of_ret (h.allocate hfits hsub) hret
  exact ⟨hpost.2, hpost.1.backs.disjoint⟩

theorem Started.allocInv {s : HostBridge} (h : Started s) : AllocInv s := by
  have hst : ∀ b ∈ s.bridges, ∀ t, b.status t ≠ .allocated := by
    intro b hb t
    rw [RootBridge.status, h.nodes b hb t]
    exact fun hc => by cases hc
  have hranges : allocatedRanges s.bridges = [] := by
    unfold allocatedRanges
    rw [List.flatMap_eq_nil_iff]
    intro b hb
    rw [List.filterMap_eq_nil_iff]
    exact fun t _ => range?_of_not_allocated (hst b hb t)
  refine ⟨fun b hb t _ => ⟨?_, fun hc => absurd hc (hst b hb t)⟩, hranges ▸ Backs.nil _⟩
  rw [h.nodes b hb t]
  exact ⟨⟨0, by decide, rfl⟩, fun _ => by decide⟩

/-- Along every sequence of calls, from the start of the driver, in which resources are allocated only where no
pick goes wrong and no search wraps, each call that allocates does what it promises. -/
theorem allocation_sound {s₀ : HostBridge} (h₀ : Started s₀) (calls : List Call)
    (hcalls : EachMeets (serveCall c) (AllocationFits c) calls s₀) :
    EachMeets (serveCall c) (AllocationSound c) calls s₀ :=
  EachMeets.of_invariant (fun _ _ hs hfits => hs.call hfits) (fun _ _ hs hfits => hs.sound hfits) calls s₀
    hcalls h₀.allocInv

/-! ## Examples -/

def newBridge (handle : Nat) (a : Aperture) : RootBridge where
  handle := handle
  aperture := a
  rootBridgeAllocAttrib := 3
  resAllocNode _ := ⟨0, 0, 0, .none⟩
  busScanCount := 0
  busNumberAssigned := false

/-- A bridge with I/O from `0x1000` to `0x1FFF` and three bytes of memory, and one with 64-bit memory at the
end of the address space. -/
def twoBridges : HostBridge where
  bridges := [newBridge 1 ⟨0, 0, 1, 2, 0, 0, 0x1000, 0x1FFF⟩,
    newBridge 2 ⟨0, 0, 0, 0, 0xFFFFFFFFFFFFFFF0, 0xFFFFFFFFFFFFFFFF, 0, 0⟩]
  resourceSubmited := false
  canRestarted := true
  gcd := fun
    | .io, a => if 0x1000 ≤ a ∧ a ≤ 0x1FFF then .free else .absent
    | .memory, a => if 1 ≤ a ∧ a ≤ 2 ∨ 2 ^ 64 - 16 ≤ a then .free else .absent

theorem started_twoBridges : Started twoBridges := by
  refine ⟨fun b hb t => ?_, rfl, fun k a => ?_⟩
  · simp only [twoBridges, List.mem_cons, List.not_mem_nil, or_false] at hb
    rcases hb with rfl | rfl <;> rfl
  · cases k <;> (simp only [twoBridges]; split <;> simp)

def ioRequest (length alignment : BitVec 64) : Call :=
  .submitResources 1 (some ⟨[⟨1, 0, 0, 0, alignment, length⟩], true⟩)

def mem64Request (length alignment : BitVec 64) : Call :=
  .submitResources 1 (some ⟨[⟨0, 0, 64, 0, alignment, length⟩], true⟩)

def exampleConfig : Config := ⟨true, true, 16⟩

def afterRequest (call : Call) : HostBridge := (serveCall exampleConfig call twoBridges).state

def afterAllocation (call : Call) : HostBridge :=
  (notifyPhase exampleConfig .allocateResources (afterRequest call)).state

theorem sound_after_request {call : Call} {st : EfiStatus} {attempts : List (List ResType)}
    (hreq : (serveCall exampleConfig call twoBridges).value? = some (.success, []))
    (hsub : (afterRequest call).resourceSubmited = true)
    (halloc : (notifyPhase exampleConfig .allocateResources (afterRequest call)).value? =
      some (st, attempts))
    (h : EachMeets (serveCall exampleConfig) (AllocationSound exampleConfig)
      [call, .notifyPhase .allocateResources] twoBridges) :
    AllServed st (afterRequest call).bridges (afterAllocation call).bridges attempts :=
  ((h.2 _ _ (Outcome.eq_ret hreq)).1 rfl hsub st attempts _ (Outcome.eq_ret halloc)).1

theorem allocation_sound_io :
    EachMeets (serveCall exampleConfig) (AllocationSound exampleConfig)
      [ioRequest 0x10 0xF, .notifyPhase .allocateResources] twoBridges := by
  refine allocation_sound started_twoBridges _ ⟨nofun, fun r s' hret => ⟨fun _ _ b hb => ?_,
    fun _ _ _ => trivial⟩⟩
  have hs' : s' = afterRequest (ioRequest 0x10 0xF) := by
    rw [afterRequest, hret]
    rfl
  subst hs'
  have hall : ∀ b ∈ (afterRequest (ioRequest 0x10 0xF)).bridges,
      b.aperture.ioBase.toNat ≤ 0x1000 ∧ (∀ t ∈ resTypes, b.status t ≠ .none → t = .io ∧
        (b.resAllocNode t).alignment = 0xF ∧ (b.resAllocNode t).length = 0x10) ∧
      ∀ j ∈ resTypes, b.status j = .none →
        resTypes.countP (fun i => b.status i ≠ .none ∧ resTypes.idxOf i < resTypes.idxOf j) ≤
          resTypes.countP (fun i => b.status i ≠ .none ∧ Beats b i j) := by
    decide +kernel
  obtain ⟨hbase, hreq, hpicks⟩ := hall b hb
  refine ⟨hpicks, fun t ht hst => ?_⟩
  obtain ⟨rfl, halign, hlen⟩ := hreq t ht hst
  refine ⟨by rw [halign]; decide, ?_⟩
  unfold UpwardFits
  rw [halign, hlen, show (0xF : BitVec 64).toNat = 0xF from rfl,
    show (0x10 : BitVec 64).toNat = 0x10 from rfl]
  omega

theorem AllServed.first {st : EfiStatus} {bs bs' : List RootBridge} {a : List ResType}
    {as : List (List ResType)} (h : AllServed st bs bs' (a :: as)) :
    ∃ b b', bs.head? = some b ∧ bs'.head? = some b' ∧ BridgeServed st b b' a := by
  cases h with
  | cons hb _ => exact ⟨_, _, rfl, rfl, hb⟩

/-- A request for I/O without alignment is not attempted at all: the pick goes to `TypePMem64`, which has no
alignment either and a later type. And a request for 64-bit memory that is longer than the end of the 32-bit
window is granted memory of the other bridge. -/
theorem allocation_unsound :
    ¬ EachMeets (serveCall exampleConfig) (AllocationSound exampleConfig)
        [ioRequest 0x10 0, .notifyPhase .allocateResources] twoBridges ∧
      ¬ EachMeets (serveCall exampleConfig) (AllocationSound exampleConfig)
        [mem64Request 4 1, .notifyPhase .allocateResources] twoBridges := by
  constructor
  · intro h
    have hserved := sound_after_request (by decide +kernel) (by decide +kernel)
      (show _ = some (EfiStatus.outOfResources, [[ResType.pMem64], []]) by decide +kernel) h
    obtain ⟨b, b', hb, -, hbridge⟩ := hserved.first
    have hst : (afterRequest (ioRequest 0x10 0)).bridges.head?.map (·.status .io) = some .requested := by
      decide +kernel
    rw [hb, Option.map_some, Option.some.injEq] at hst
    exact absurd (hbridge.once .io (by decide) (by rw [hst]; nofun)) (by decide)
  · intro h
    have hserved := sound_after_request (by decide +kernel) (by decide +kernel)
      (show _ = some (EfiStatus.success, [[ResType.mem64], []]) by decide +kernel) h
    obtain ⟨b, b', hb, hb', hbridge⟩ := hserved.first
    have hst : (afterRequest (mem64Request 4 1)).bridges.head?.map (·.status .mem64) = some .submitted := by
      decide +kernel
    have hout : (afterAllocation (mem64Request 4 1)).bridges.head?.map
        (fun b => (b.aperture, (b.resAllocNode .mem64).base)) =
          some (⟨0, 0, 1, 2, 0, 0, 0x1000, 0x1FFF⟩, 0xFFFFFFFFFFFFFFFC) := by decide +kernel
    rw [hb, Option.map_some, Option.some.injEq] at hst
    rw [hb'] at hout
    simp only [Option.map_some, Option.some.injEq, Prod.mk.injEq] at hout
    have hin := (hbridge.placed rfl .mem64 (by decide) (by rw [hst]; nofun)).inAperture
    unfold InAperture InWindow RootBridge.range at hin
    rw [hout.1, hout.2] at hin
    simp at hin
    omega

end Quark.PciHostBridge
