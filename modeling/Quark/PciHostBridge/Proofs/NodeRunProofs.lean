import Quark.PciHostBridge.Proofs.EnumerationProofs

/-!
# What holds of every node

A property of nodes that the stores of the driver keep holds of the nodes of I/O and memory along every
sequence of calls.
-/

namespace Quark.PciHostBridge

open Machine Exec

variable {c : Config} {P : ResType → ResNode → Prop}

/-- The property is kept by every store into a node: an address that was found, a length of zero, a reset, and
the request of a descriptor that passed the checks. -/
structure NodeClosed (P : ResType → ResNode → Prop) : Prop where
  empty : ∀ t ∈ resTypes, P t ⟨0, 0, 0, .none⟩
  place : ∀ t ∈ resTypes, ∀ node base, P t node → node.length ≠ 0 →
    P t { node with base := base, status := .allocated }
  zeroed : ∀ t ∈ resTypes, ∀ node, P t node → P t (zeroed node)
  emptied : ∀ t ∈ resTypes, ∀ node, P t node → P t (emptied node)
  stored : ∀ t ∈ resTypes, ∀ node d, P t node → d.target? = some t → DescriptorOk d →
    P t (storeRequest t d node)

def RootBridge.Satisfies (b : RootBridge) (P : ResType → ResNode → Prop) : Prop :=
  ∀ t ∈ resTypes, P t (b.resAllocNode t)

def NodesSatisfy (P : ResType → ResNode → Prop) (s : HostBridge) : Prop := ∀ b ∈ s.bridges, b.Satisfies P

theorem Started.satisfies {s : HostBridge} (h : Started s) (hP : NodeClosed P) : NodesSatisfy P s := by
  intro b hb t ht
  rw [h.nodes b hb t]
  exact hP.empty t ht

theorem RootBridge.Satisfies.mapNodes {b : RootBridge} (h : b.Satisfies P) {l : List ResType}
    {g : ResNode → ResNode} (hg : ∀ t ∈ resTypes, ∀ node, P t node → P t (g node)) :
    (b.mapNodes l g).Satisfies P := by
  intro t ht
  unfold RootBridge.mapNodes
  dsimp only
  split
  · exact hg t ht _ (h t ht)
  · exact h t ht

/-! ## Allocation -/

theorem wp_allocateNode_satisfies (hP : NodeClosed P) {b : RootBridge} {t : ResType} (h : b.Satisfies P)
    (gcd : Gcd) :
    wp (allocateNode c b t) (fun b' _ => b'.Satisfies P) (fun _ _ => True) gcd := by
  refine wp_mono (wp_allocateNode (finds_searches c b.aperture (b.resAllocNode t) t gcd)) ?_ (fun _ _ h => h)
  rintro b' gcd' ⟨r, rfl, hfound, -⟩
  cases r with
  | none => exact h
  | some base =>
    have hlen : (b.resAllocNode t).length ≠ 0 := by
      intro hzero
      rw [hzero] at hfound
      exact hfound.1.1 rfl
    intro u hu
    by_cases hut : u = t
    · subst hut
      have hnode : (b.place u (some base)).resAllocNode u =
          { b.resAllocNode u with base := base, status := .allocated } := Function.update_self ..
      rw [hnode]
      exact hP.place u hu _ base (h u hu) hlen
    · unfold RootBridge.place
      rw [resAllocNode_setNode_ne b _ hut]
      exact h u hu

theorem wp_allocateBridges_satisfies (hP : NodeClosed P) {bs : List RootBridge}
    (h : ∀ b ∈ bs, b.Satisfies P) (st : EfiStatus) (gcd : Gcd) :
    wp (allocateBridges c bs st) (fun r _ => ∀ b ∈ r.1, b.Satisfies P) (fun _ _ => True) gcd := by
  induction bs generalizing st gcd with
  | nil => exact fun b hb => absurd hb List.not_mem_nil
  | cons b bs ih =>
    rw [allocateBridges, wp_bind]
    refine wp_mono (wp_allocateTypes (K := fun _ _ p _ => p.bridge.Satisfies P) ?_ ?_ resTypes [] _ gcd
      (h b List.mem_cons_self)) ?_ (fun _ _ h => h)
    · exact fun _ _ _ _ _ hp _ => hp
    · exact fun _ _ _ _ gcd _ hp _ _ => wp_allocateNode_satisfies hP hp gcd
    · intro p gcd' hp
      rw [wp_bind]
      refine wp_mono (ih (fun b' hb' => h b' (List.mem_cons_of_mem b hb')) p.returnStatus gcd') ?_
        (fun _ _ h => h)
      intro r gcd'' hr b' hb'
      rcases List.mem_cons.mp hb' with rfl | hb'
      · exact hp
      · exact hr b' hb'

/-! ## Freeing -/

theorem wp_freeNode_returns (t : ResType) (node : ResNode) (gcd : Gcd) :
    wp (freeNode t node) (fun _ _ => True) (fun _ _ => False) gcd := by
  have hspace : ∀ space base len, wp (freeSpace space base len) (fun _ _ => True) (fun _ _ => False) gcd := by
    intro space base len
    rw [freeSpace, wp_bind, wp_get, wp_ite]
    refine ⟨fun _ => trivial, fun _ => ?_⟩
    rw [wp_ite]
    exact ⟨fun _ => trivial, fun _ => trivial⟩
  cases t with
  | io => exact hspace _ _ _
  | mem32 => exact hspace _ _ _
  | pMem64 => exact hspace _ _ _
  | _ => trivial

theorem wp_freeTypes_nodes {l : List ResType} (hl : l.Nodup) (b : RootBridge) (st : EfiStatus) (gcd : Gcd) :
    wp (freeTypes l b st) (fun r _ => r.1 = b.mapNodes l freedNode) (fun _ _ => False) gcd := by
  induction l generalizing b st gcd with
  | nil =>
    rw [freeTypes, wp_pure, mapNodes_nil]
  | cons t l ih =>
    obtain ⟨ht, hnodup⟩ := List.nodup_cons.mp hl
    rw [freeTypes, wp_ite]
    refine ⟨fun hst => ?_, fun hst => ?_⟩
    · rw [wp_bind]
      refine wp_mono (wp_freeNode_returns t _ gcd) ?_ (fun _ _ h => h)
      intro st' gcd' _
      refine wp_mono (ih hnodup _ _ gcd') ?_ (fun _ _ h => h)
      intro r _ hr
      rw [hr]
      exact mapNodes_freed_of_allocated ht hst
    · refine wp_mono (ih hnodup b st gcd) ?_ (fun _ _ h => h)
      intro r _ hr
      rw [hr]
      exact mapNodes_freed_of_not_allocated ht hst

theorem wp_freeBridges_nodes (bs : List RootBridge) (st : EfiStatus) (gcd : Gcd) :
    wp (freeBridges bs st) (fun r _ => r.1 = bs.map (·.mapNodes resTypes freedNode)) (fun _ _ => False)
      gcd := by
  induction bs generalizing st gcd with
  | nil => exact rfl
  | cons b bs ih =>
    rw [freeBridges, wp_bind]
    refine wp_mono (wp_freeTypes_nodes resTypes_nodup b st gcd) ?_ (fun _ _ h => h)
    intro r gcd' hr
    rw [wp_bind]
    refine wp_mono (ih r.2 gcd') ?_ (fun _ _ h => h)
    intro rs _ hrs
    rw [wp_pure, hr, hrs]
    rfl

/-! ## Calls -/

theorem NodesSatisfy.notifyPhase (hP : NodeClosed P) {s : HostBridge} (h : NodesSatisfy P s) (phase : Phase) :
    wp (notifyPhase c phase) (fun _ => NodesSatisfy P) (fun _ _ => True) s := by
  rw [PciHostBridge.notifyPhase, wp_bind, wp_get]
  cases phase with
  | allocateResources =>
    show wp (ite _ _ _) _ _ s
    rw [wp_ite]
    refine ⟨fun _ => ?_, fun _ => h⟩
    rw [wp_bind, wp_onGcd]
    refine wp_mono (wp_allocateBridges_satisfies hP h .success s.gcd) ?_ (fun _ _ h => h)
    intro r gcd' hr
    rw [wp_bind, wp_modify, wp_pure]
    intro b hb
    obtain ⟨b', hb', rfl⟩ := List.mem_map.mp hb
    rw [zeroFailed_eq]
    exact (hr b' hb').mapNodes hP.zeroed
  | beginEnumeration =>
    show wp (ite _ _ _) _ _ s
    rw [wp_ite]
    refine ⟨fun _ => ?_, fun _ => h⟩
    rw [wp_bind, wp_modify, wp_pure]
    intro b hb
    obtain ⟨b', hb', rfl⟩ := List.mem_map.mp hb
    rw [reset_eq]
    exact (h b' hb').mapNodes hP.emptied
  | freeResources =>
    show wp (onGcd _ >>= _) _ _ s
    rw [wp_bind, wp_onGcd]
    refine wp_mono (wp_freeBridges_nodes s.bridges .success s.gcd) ?_ (fun _ _ h => h.elim)
    intro r gcd' hr
    rw [wp_bind, wp_modify, wp_pure]
    intro b hb
    rw [hr] at hb
    obtain ⟨b', hb', rfl⟩ := List.mem_map.mp hb
    refine (h b' hb').mapNodes fun t ht node hnode => ?_
    unfold freedNode
    split
    · exact hP.emptied t ht node hnode
    · exact hnode
  | beginBusAllocation => exact h
  | _ => exact h

theorem RootBridge.Satisfies.applyDescriptors (hP : NodeClosed P) {b : RootBridge} (h : b.Satisfies P)
    {ds : List Descriptor} (hds : ∀ d ∈ ds, DescriptorOk d) :
    (applyDescriptors b ds).1.Satisfies P := by
  intro t ht
  rw [applyDescriptors_eq]
  show P t (nodeAfter t ds (b.resAllocNode t))
  rcases nodeAfter_cases t ds with hsame | ⟨d, hd, htarget, hstored⟩
  · rw [hsame]
    exact h t ht
  · rw [hstored]
    exact hP.stored t ht _ d (h t ht) htarget (hds d hd)

theorem satisfies_updateBridge {handle : Nat} {f : RootBridge → RootBridge} {bs : List RootBridge}
    (h : ∀ b ∈ bs, b.Satisfies P) (hf : ∀ b ∈ bs, bs.find? (·.handle = handle) = some b → (f b).Satisfies P) :
    ∀ b ∈ updateBridge handle f bs, b.Satisfies P := by
  have hall : List.Forall₂ (fun b b' => b ∈ bs → b'.Satisfies P) bs (updateBridge handle f bs) :=
    forall₂_updateBridge (fun b _ hb => h b hb) (fun b hfind hb => hf b hb hfind)
  have hmem : ∀ {bs bs' : List RootBridge} {Q : RootBridge → Prop},
      List.Forall₂ (fun b b' => Q b → b'.Satisfies P) bs bs' → (∀ b ∈ bs, Q b) →
      ∀ b ∈ bs', b.Satisfies P := by
    intro bs bs' Q hr
    induction hr with
    | nil => exact fun _ b hb => absurd hb List.not_mem_nil
    | cons hb _ ih =>
      intro hQ b' hb'
      rcases List.mem_cons.mp hb' with rfl | hb'
      · exact hb (hQ _ List.mem_cons_self)
      · exact ih (fun b hb => hQ b (List.mem_cons_of_mem _ hb)) b' hb'
  exact hmem hall fun b hb => hb

theorem NodesSatisfy.submitResources (hP : NodeClosed P) {s : HostBridge} (h : NodesSatisfy P s)
    (handle : Nat) (configuration : Option Configuration) :
    wp (submitResources handle configuration) (fun _ => NodesSatisfy P) (fun _ _ => True) s := by
  rw [PciHostBridge.submitResources, wp_bind, wp_get]
  cases configuration with
  | none => exact h
  | some config =>
    cases hb : s.bridges.find? (fun b => decide (b.handle = handle)) with
    | none => exact h
    | some b =>
      show wp (checkDescriptors b config.descriptors >>= _) _ _ s
      rw [wp_bind]
      refine wp_mono (wp_checkDescriptors b s config.descriptors) ?_ (fun _ _ h => h)
      rintro st t ⟨rfl, hds⟩
      rw [wp_ite]
      refine ⟨fun _ => h, fun herr => ?_⟩
      rw [wp_ite]
      refine ⟨fun _ => h, fun _ => ?_⟩
      rw [wp_bind, wp_modify, wp_pure]
      exact satisfies_updateBridge h fun b' _ _ =>
        (h b (List.mem_of_find?_eq_some hb)).applyDescriptors hP (hds (by simpa using herr))

theorem NodesSatisfy.setBusNumbers {s : HostBridge} (h : NodesSatisfy P s) (handle : Nat)
    (configuration : Option Configuration) :
    wp (setBusNumbers handle configuration) (fun _ => NodesSatisfy P) (fun _ _ => True) s := by
  have hassign : ∀ b ∈ s.bridges, ∀ busStart busLen, (b.assignBus busStart busLen).Satisfies P := by
    intro b hb busStart busLen t ht
    have hnode : (b.assignBus busStart busLen).resAllocNode t = b.resAllocNode t :=
      resAllocNode_setNode_ne b _ (mem_resTypes.mp ht)
    rw [hnode]
    exact h b hb t ht
  rw [PciHostBridge.setBusNumbers, wp_bind, wp_get]
  split
  · rw [wp_ite]
    refine ⟨fun _ => h, fun _ => ?_⟩
    split
    · exact h
    · split
      · exact h
      · rw [wp_bind, wp_modify, wp_pure]
        exact satisfies_updateBridge h fun b hb _ => hassign b hb _ _
  · exact h

theorem NodesSatisfy.call (hP : NodeClosed P) {s : HostBridge} (h : NodesSatisfy P s) (call : Call) :
    wp (serveCall c call) (fun _ => NodesSatisfy P) (fun _ _ => True) s := by
  cases call with
  | notifyPhase phase => exact h.notifyPhase hP phase
  | submitResources handle configuration =>
    rw [serveCall, wp_bind]
    exact h.submitResources hP handle configuration
  | setBusNumbers handle configuration =>
    rw [serveCall, wp_bind]
    exact h.setBusNumbers handle configuration

theorem Started.nodesSatisfy (hP : NodeClosed P) {s₀ s : HostBridge} (h₀ : Started s₀) {calls : List Call}
    (hrun : serve (serveCall c) calls s₀ = .ret () s) : NodesSatisfy P s := by
  have hkeep : ∀ {calls : List Call} {s₀ : HostBridge}, NodesSatisfy P s₀ →
      serve (serveCall c) calls s₀ = .ret () s → NodesSatisfy P s := by
    intro calls
    induction calls with
    | nil =>
      intro s₀ h hrun
      cases hrun
      exact h
    | cons call calls ih =>
      intro s₀ h hrun
      obtain ⟨a, t, hcall, hrest⟩ := serve_cons_ret.mp hrun
      exact ih (wp_of_ret (Q := fun _ => NodesSatisfy P) (h.call hP call) hcall) hrest
  exact hkeep (h₀.satisfies hP) hrun

/-! ## Where the two reports agree

The nodes of prefetchable memory are marked but get no length, and are never allocated. Of the nodes that can
be, only that of 64-bit memory is described differently: one report calls it prefetchable.
-/

variable {c : Config}

def PrefetchableUnused (t : ResType) (node : ResNode) : Prop :=
  t = .pMem32 ∨ t = .pMem64 → node.length = 0 ∧ node.status ≠ .allocated

theorem nodeClosed_prefetchableUnused : NodeClosed PrefetchableUnused where
  empty _ _ _ := ⟨rfl, nofun⟩
  place _ _ _ _ h hlen ht := absurd (h ht).1 hlen
  zeroed _ _ node h ht := by
    refine ⟨?_, (status_zeroed node) ▸ (h ht).2⟩
    unfold zeroed
    split
    · rfl
    · exact (h ht).1
  emptied _ _ _ _ _ := ⟨rfl, nofun⟩
  stored _ _ node d h _ _ ht := by
    rcases ht with rfl | rfl
    · exact ⟨(h (.inl rfl)).1, nofun⟩
    · exact ⟨(h (.inr rfl)).1, nofun⟩

def configured (b : RootBridge) (t : ResType) :
    Option (BitVec 8 × BitVec 64 × BitVec 8 × BitVec 64 × BitVec 64) :=
  if b.status t = .allocated then some (configurationDescriptor t (b.resAllocNode t)).summary else none

def satisfied (b : RootBridge) (t : ResType) :
    Option (BitVec 8 × BitVec 64 × BitVec 8 × BitVec 64 × BitVec 64) :=
  if b.status t ≠ .none ∧ (proposedDescriptor t (b.resAllocNode t)).addrTranslationOffset = efiResourceSatisfied
  then some (proposedDescriptor t (b.resAllocNode t)).summary else none

theorem filter_map_filter_map {α β γ : Type} (p : α → Bool) (f : α → β) (q : β → Bool) (g : β → γ)
    (l : List α) :
    (((l.filter p).map f).filter q).map g =
      l.filterMap fun a => if p a = true ∧ q (f a) = true then some (g (f a)) else none := by
  induction l with
  | nil => rfl
  | cons a l ih =>
    rw [List.filterMap_cons]
    by_cases hp : p a = true
    · by_cases hq : q (f a) = true
      · rw [List.filter_cons_of_pos hp, List.map_cons, List.filter_cons_of_pos hq, List.map_cons, ih,
          if_pos ⟨hp, hq⟩]
      · rw [List.filter_cons_of_pos hp, List.map_cons, List.filter_cons_of_neg hq, ih, if_neg fun h => hq h.2]
    · rw [List.filter_cons_of_neg hp, ih, if_neg fun h => hp h.1]

theorem resType_configurationDescriptor {t : ResType} (ht : t ∈ resTypes) (node : ResNode) :
    (configurationDescriptor t node).resType ≠ acpiAddressSpaceTypeBus := by
  have hne := mem_resTypes.mp ht
  have hio : acpiAddressSpaceTypeIo ≠ acpiAddressSpaceTypeBus := by decide
  have hmem : acpiAddressSpaceTypeMem ≠ acpiAddressSpaceTypeBus := by decide
  cases t with
  | io => exact hio
  | bus => exact absurd rfl hne
  | _ => exact hmem

theorem configured_report (pool configBuffer : Bool) (b : RootBridge) {config : List AcpiDescriptor}
    (h : rootBridgeIoConfiguration pool configBuffer b = (.success, some config)) :
    (config.filter fun d => d.resType ≠ acpiAddressSpaceTypeBus).map AcpiDescriptor.summary =
      resTypes.filterMap (configured b) := by
  unfold rootBridgeIoConfiguration at h
  split at h
  · cases h
  · injection h with _ h
    injection h with h
    rw [← h, filter_map_filter_map, List.filterMap_append]
    have hbus : (configurationDescriptor .bus (b.resAllocNode .bus)).resType = acpiAddressSpaceTypeBus := rfl
    have hnone : ∀ f : ResType → Option (BitVec 8 × BitVec 64 × BitVec 8 × BitVec 64 × BitVec 64),
        f .bus = none → List.filterMap f [ResType.bus] = [] := by
      intro f hf
      rw [List.filterMap_cons_none hf]
      rfl
    rw [hnone _ (if_neg fun h => (of_decide_eq_true h.2 :
      (configurationDescriptor .bus (b.resAllocNode .bus)).resType ≠ acpiAddressSpaceTypeBus) hbus),
      List.append_nil]
    refine List.filterMap_congr fun t ht => if_congr ?_ rfl rfl
    rw [decide_eq_true_eq, decide_eq_true_eq]
    exact and_iff_left (resType_configurationDescriptor ht _)

theorem satisfied_report {pool : Bool} {handle : Nat} {s t : HostBridge} {b : RootBridge}
    (hb : s.bridges.find? (·.handle = handle) = some b) {proposed : List AcpiDescriptor}
    (h : getProposedResources c pool handle s = .ret (.success, some proposed) t) :
    (proposed.filter fun d => d.addrTranslationOffset = efiResourceSatisfied).map AcpiDescriptor.summary =
      resTypes.filterMap (satisfied b) := by
  have hwp : wp (getProposedResources c pool handle) (fun r _ => ∀ proposed, r = (.success, some proposed) →
      (proposed.filter fun d => d.addrTranslationOffset = efiResourceSatisfied).map AcpiDescriptor.summary =
        resTypes.filterMap (satisfied b)) (fun _ _ => True) s := by
    rw [getProposedResources, wp_bind, wp_get, hb]
    dsimp only
    rw [wp_ite]
    refine ⟨fun _ proposed h => (nomatch h), fun _ => ?_⟩
    rw [wp_bind, wp_assert]
    refine ⟨fun _ => ?_, fun _ => trivial⟩
    rw [wp_ite]
    refine ⟨fun _ => trivial, fun _ proposed h => ?_⟩
    injection h with _ h
    injection h with h
    rw [← h, filter_map_filter_map]
    refine List.filterMap_congr fun t _ => if_congr ?_ rfl rfl
    rw [decide_eq_true_eq, decide_eq_true_eq]
    exact Iff.rfl
  exact wp_of_ret hwp h proposed rfl

theorem getProposedResources_ret {handle : Nat} {s : HostBridge} {b : RootBridge}
    (hb : s.bridges.find? (·.handle = handle) = some b) {t : ResType} (ht : t ∈ resTypes)
    (hst : b.status t ≠ .none) :
    ∃ proposed u, getProposedResources c true handle s = .ret (.success, some proposed) u := by
  have hpos : 0 < (resTypes.filter fun index => decide ((b.resAllocNode index).status ≠ .none)).length :=
    List.length_pos_of_mem (List.mem_filter.mpr ⟨ht, decide_eq_true hst⟩)
  refine ⟨(resTypes.filter fun index => (b.resAllocNode index).status ≠ .none).map
    fun index => proposedDescriptor index (b.resAllocNode index), s, ?_⟩
  unfold getProposedResources
  refine (bind_of_ret (rfl : Exec.get s = .ret s s)).trans ?_
  rw [hb]
  dsimp only
  rw [if_neg fun h => h.2 rfl]
  refine (bind_of_ret (assert_of (fun _ => hpos) s)).trans ?_
  rw [if_neg (Nat.pos_iff_ne_zero.mp hpos)]
  rfl

theorem satisfied_eq (b : RootBridge) {t : ResType} (ht : t = .io ∨ t = .mem32 ∨ t = .mem64) :
    satisfied b t = if b.status t = .allocated then
      some (proposedDescriptor t (b.resAllocNode t)).summary else none := by
  have hoffset : (proposedDescriptor t (b.resAllocNode t)).addrTranslationOffset =
      if b.status t = .allocated then efiResourceSatisfied else efiResourceLess := by
    rcases ht with rfl | rfl | rfl <;> rfl
  unfold satisfied
  rw [hoffset]
  by_cases hst : b.status t = .allocated
  · rw [if_pos hst, if_pos hst, if_pos ⟨by rw [hst]; decide, rfl⟩]
  · rw [if_neg hst, if_neg hst, if_neg fun h => absurd h.2 (by decide)]

theorem satisfied_prefetchable (b : RootBridge) {t : ResType} (ht : t = .pMem32 ∨ t = .pMem64) :
    satisfied b t = none := by
  have hoffset : (proposedDescriptor t (b.resAllocNode t)).addrTranslationOffset = efiResourceNonexistent := by
    rcases ht with rfl | rfl <;> rfl
  unfold satisfied
  rw [hoffset, if_neg fun h => absurd h.2 (by decide)]

theorem configured_eq_satisfied (b : RootBridge) {t : ResType} (ht : t = .io ∨ t = .mem32) :
    configured b t = satisfied b t := by
  rw [satisfied_eq b (by rcases ht with rfl | rfl <;> decide)]
  rcases ht with rfl | rfl <;> rfl

theorem filterMap_resTypes {α : Type} (f : ResType → Option α) :
    resTypes.filterMap f = (f .io).toList ++ ((f .mem32).toList ++ ((f .pMem32).toList ++
      ((f .mem64).toList ++ (f .pMem64).toList))) := by
  unfold resTypes
  rw [List.filterMap_eq_flatMap_toList]
  simp

theorem not_reportsAgree {handle : Nat} {s : HostBridge} {b : RootBridge}
    (hb : s.bridges.find? (·.handle = handle) = some b) (hpMem32 : b.status .pMem32 ≠ .allocated)
    (hpMem64 : b.status .pMem64 ≠ .allocated) (halloc : b.status .mem64 = .allocated) :
    ¬ ReportsAgree c s handle b := by
  intro hagree
  have hconfig : configured b .mem64 = some (configurationDescriptor .mem64 (b.resAllocNode .mem64)).summary :=
    if_pos halloc
  have hnone32 : configured b .pMem32 = none := if_neg hpMem32
  have hnone64 : configured b .pMem64 = none := if_neg hpMem64
  have hproposed := satisfied_eq b (t := .mem64) (.inr (.inr rfl))
  rw [if_pos halloc] at hproposed
  obtain ⟨proposed, t, hret⟩ := getProposedResources_ret (c := c) hb (t := .mem64) (by decide)
    (by rw [halloc]; decide)
  have h := hagree true true true _ proposed t rfl hret
  rw [configured_report true true b rfl, satisfied_report hb hret, filterMap_resTypes, filterMap_resTypes,
    configured_eq_satisfied b (.inl rfl), configured_eq_satisfied b (.inr rfl), hnone32, hnone64,
    satisfied_prefetchable b (.inl rfl), satisfied_prefetchable b (.inr rfl), hconfig, hproposed] at h
  have hlast := List.append_cancel_left (List.append_cancel_left h)
  have hsummary := (List.cons.inj hlast).1
  -- The prefetch flag is 6 in the one and 0 in the other.
  have hflag : (6 : BitVec 8) = 0 := congrArg (fun x => x.2.2.1) hsummary
  exact absurd hflag (by decide)

/-- The reports that are returned agree exactly as long as the node of 64-bit memory is not allocated. -/
theorem reportsAgree_iff {s₀ : HostBridge} (h₀ : Started s₀) (calls : List Call) (s : HostBridge)
    (hrun : serve (serveCall c) calls s₀ = .ret () s) (handle : Nat) (b : RootBridge)
    (hb : s.bridges.find? (·.handle = handle) = some b) :
    ReportsAgree c s handle b ↔ b.status .mem64 ≠ .allocated := by
  have hunused := h₀.nodesSatisfy nodeClosed_prefetchableUnused hrun b (List.mem_of_find?_eq_some hb)
  have hpMem32 : b.status .pMem32 ≠ .allocated := (hunused .pMem32 (by decide) (.inl rfl)).2
  have hpMem64 : b.status .pMem64 ≠ .allocated := (hunused .pMem64 (by decide) (.inr rfl)).2
  constructor
  · exact fun hagree halloc => not_reportsAgree hb hpMem32 hpMem64 halloc hagree
  · intro hne pool pool' configBuffer config proposed t hconfig hproposed
    rw [configured_report pool configBuffer b hconfig, satisfied_report hb hproposed]
    refine List.filterMap_congr fun t ht => ?_
    cases t with
    | io => exact configured_eq_satisfied b (.inl rfl)
    | mem32 => exact configured_eq_satisfied b (.inr rfl)
    | pMem32 =>
      rw [satisfied_prefetchable b (.inl rfl)]
      exact if_neg hpMem32
    | mem64 =>
      rw [satisfied_eq b (.inr (.inr rfl)), if_neg hne]
      exact if_neg hne
    | pMem64 =>
      rw [satisfied_prefetchable b (.inr rfl)]
      exact if_neg hpMem64
    | bus => exact absurd rfl (mem_resTypes.mp ht)

/-! ## Examples -/

def afterCalls (calls : List Call) : HostBridge := (serve (serveCall exampleConfig) calls twoBridges).state

theorem find_of_map {α : Type} {p : α → Bool} {l : List α} {f : α → ResStatus} {st : ResStatus}
    (h : (l.find? p).map f = some st) : ∃ a, l.find? p = some a ∧ f a = st := by
  cases ha : l.find? p with
  | none => rw [ha] at h; cases h
  | some a =>
    rw [ha] at h
    injection h with h
    exact ⟨a, rfl, h⟩

theorem reportsAgree_iff_io :
    ∃ b, (afterCalls [ioRequest 0x10 0xF, .notifyPhase .allocateResources]).bridges.find? (·.handle = 1) =
        some b ∧
      ReportsAgree exampleConfig (afterCalls [ioRequest 0x10 0xF, .notifyPhase .allocateResources]) 1 b := by
  have hstatus : ((afterCalls [ioRequest 0x10 0xF, .notifyPhase .allocateResources]).bridges.find?
      (·.handle = 1)).map (·.status .mem64) = some .none := by decide +kernel
  have hret : (serve (serveCall exampleConfig) [ioRequest 0x10 0xF, .notifyPhase .allocateResources]
      twoBridges).value? = some () := by decide +kernel
  obtain ⟨b, hb, hst⟩ := find_of_map hstatus
  refine ⟨b, hb, (reportsAgree_iff started_twoBridges _ _ (Outcome.eq_ret hret) 1 b hb).mpr ?_⟩
  rw [hst]
  nofun

theorem reportsAgree_not_mem64 :
    ∃ b, (afterCalls [mem64Request 1 1, .notifyPhase .allocateResources]).bridges.find? (·.handle = 1) =
        some b ∧
      ¬ ReportsAgree exampleConfig (afterCalls [mem64Request 1 1, .notifyPhase .allocateResources]) 1 b := by
  have hstatus : ((afterCalls [mem64Request 1 1, .notifyPhase .allocateResources]).bridges.find?
      (·.handle = 1)).map (·.status .mem64) = some .allocated := by decide +kernel
  have hpMem32 : ((afterCalls [mem64Request 1 1, .notifyPhase .allocateResources]).bridges.find?
      (·.handle = 1)).map (·.status .pMem32) = some .none := by decide +kernel
  have hpMem64 : ((afterCalls [mem64Request 1 1, .notifyPhase .allocateResources]).bridges.find?
      (·.handle = 1)).map (·.status .pMem64) = some .none := by decide +kernel
  obtain ⟨b, hb, hst⟩ := find_of_map hstatus
  rw [hb] at hpMem32 hpMem64
  replace hpMem32 : b.status .pMem32 = .none := Option.some.inj hpMem32
  replace hpMem64 : b.status .pMem64 = .none := Option.some.inj hpMem64
  exact ⟨b, hb, not_reportsAgree hb (by rw [hpMem32]; nofun) (by rw [hpMem64]; nofun) hst⟩

end Quark.PciHostBridge
