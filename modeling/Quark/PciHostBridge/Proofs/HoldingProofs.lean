import Quark.PciHostBridge.Proofs.AllocationProofs

/-!
# What the driver holds

As long as no allocated node is forgotten, the driver holds of the GCD what its nodes say and no more. A node is
forgotten when it is reset, asked for or attempted again while it is allocated, and when a `TypePMem32` or a
`TypeMem64` is freed.
-/

namespace Quark.PciHostBridge

open Machine Exec

variable {c : Config}

/-! ## Allocation -/

def RootBridge.withNodes (b : RootBridge) (nodes : ResType → ResNode) : RootBridge :=
  { b with resAllocNode := nodes }

structure AllocatedFrom (b b' : RootBridge) : Prop where
  same : b' = b.withNodes b'.resAllocNode
  node : ∀ t, b'.resAllocNode t = b.resAllocNode t ∨ t ∈ resTypes ∧ (b.resAllocNode t).length ≠ 0 ∧
    ∃ base, b'.resAllocNode t = { b.resAllocNode t with base := base, status := .allocated }

theorem AllocatedFrom.refl (b : RootBridge) : AllocatedFrom b b := ⟨rfl, fun _ => .inl rfl⟩

theorem AllocatedFrom.place {b b' : RootBridge} {t : ResType} {base : BitVec 64}
    (h : AllocatedFrom b b') (ht : t ∈ resTypes) (hlen : (b'.resAllocNode t).length ≠ 0) :
    AllocatedFrom b (b'.place t (some base)) := by
  constructor
  · have hother : ∀ nodes, b'.withNodes nodes = b.withNodes nodes := by
      intro nodes
      rw [h.same]
      rfl
    exact hother (b'.place t (some base)).resAllocNode
  · intro u
    by_cases hu : u = t
    · subst hu
      have hnode : (b'.place u (some base)).resAllocNode u =
          { b'.resAllocNode u with base := base, status := .allocated } := resAllocNode_setNode ..
      refine .inr ⟨ht, ?_, base, ?_⟩
      · rcases h.node u with heq | ⟨-, hne, -⟩
        · exact heq ▸ hlen
        · exact hne
      · rw [hnode]
        rcases h.node u with heq | ⟨-, -, base', heq⟩ <;> rw [heq]
    · have hnode : (b'.place t (some base)).resAllocNode u = b'.resAllocNode u :=
        resAllocNode_setNode_ne b' _ hu
      rw [hnode]
      exact h.node u

structure Grants (gcd : Gcd) (gcd' : Gcd) (l : List (Extent Space)) : Prop where
  backs : Backs gcd' l
  exact : Exact gcd' l
  absent : ∀ k a, gcd' k a = .absent ↔ gcd k a = .absent

theorem grants_attempted {P : BitVec 64 → Prop} {pre post : List RootBridge} {b b' : RootBridge}
    {t : ResType} {gcd₀ gcd gcd' : Gcd} (ht : t ∈ resTypes) (hst : b.status t ≠ .allocated)
    (h : Grants gcd₀ gcd (allocatedRanges (pre ++ b :: post))) (hatt : Attempted P b t gcd b' gcd') :
    Grants gcd₀ gcd' (allocatedRanges (pre ++ b' :: post)) := by
  have hbacks := backs_attempted ht h.backs hatt
  obtain ⟨r, rfl, hfound, -⟩ := hatt
  cases r with
  | none =>
    have hsame : gcd' = gcd := hfound
    rw [hsame]
    exact h
  | some base =>
    obtain ⟨hgrant, rfl⟩ := hfound
    refine ⟨hbacks, ?_, fun k a => (absent_fillExtent (by decide) (by decide) hgrant.2.2 k a).trans
      (h.absent k a)⟩
    obtain ⟨l₁, l₂, hold, hnew⟩ := allocatedRanges_setNode pre post b ht
    have hrange : ((b.place t (some base)).range? t).toList =
        [⟨t.space, base.toNat, (b.resAllocNode t).length.toNat⟩] := by
      simp [RootBridge.place, RootBridge.range?, RootBridge.status, RootBridge.range]
    rw [range?_of_not_allocated hst, Option.toList_none, List.append_nil] at hold
    have hnew' := hnew { b.resAllocNode t with base := base, status := .allocated }
    show Exact _ (allocatedRanges (pre ++ b.setNode t _ :: post))
    rw [hnew']
    show Exact _ (l₁ ++ ((b.place t (some base)).range? t).toList ++ l₂)
    rw [hrange, List.append_assoc]
    exact Exact.allocate (hold ▸ h.exact)

/-- The loop over `Index1`, seen from the GCD: the nodes that are allocated are handled. -/
structure Tracking (gcd₀ : Gcd) (b₀ : RootBridge) (pre post : List RootBridge) (p : Progress)
    (gcd : Gcd) : Prop where
  grants : Grants gcd₀ gcd (allocatedRanges (pre ++ p.bridge :: post))
  handled : ∀ t ∈ resTypes, p.bridge.status t = .allocated → p.resNodeHandled t = true
  allocatedFrom : AllocatedFrom b₀ p.bridge

theorem Tracking.pick {gcd₀ gcd : Gcd} {b₀ : RootBridge} {pre post : List RootBridge} {p : Progress}
    {t : ResType} (h : Tracking gcd₀ b₀ pre post p gcd)
    (ht : pickNode p.bridge.resAllocNode p.resNodeHandled = some t) :
    wp (allocateNode c p.bridge t) (fun b gcd' => Tracking gcd₀ b₀ pre post (p.attempted t b) gcd')
      (fun _ _ => True) gcd := by
  obtain ⟨hmem, hfree, -⟩ := pickNode_some ht
  have hst : p.bridge.status t ≠ .allocated := by
    intro hc
    rw [h.handled t hmem hc] at hfree
    cases hfree
  refine wp_mono (wp_allocateNode (finds_searches c _ _ t gcd)) ?_ (fun _ _ h => h)
  intro b gcd' hatt
  refine ⟨grants_attempted hmem hst h.grants hatt, ?_, ?_⟩
  · intro u hu hal
    show Function.update p.resNodeHandled t true u = true
    by_cases hut : u = t
    · rw [hut, Function.update_self]
    · rw [Function.update_of_ne hut]
      refine h.handled u hu ?_
      obtain ⟨r, rfl, -⟩ := hatt
      cases r with
      | none => exact hal
      | some base =>
        have hnode : (p.bridge.place t (some base)).resAllocNode u = p.bridge.resAllocNode u :=
          resAllocNode_setNode_ne _ _ hut
        rw [RootBridge.status, ← hnode]
        exact hal
  · show AllocatedFrom b₀ b
    obtain ⟨r, rfl, hfound, -⟩ := hatt
    cases r with
    | none => exact h.allocatedFrom
    | some base =>
      refine h.allocatedFrom.place hmem fun hc => hfound.1.1 ?_
      rw [hc]
      rfl

theorem wp_allocateBridge_holds {gcd₀ gcd : Gcd} {b : RootBridge} {pre post : List RootBridge}
    {st : EfiStatus} (hnone : ∀ t ∈ resTypes, b.status t ≠ .allocated)
    (hgrants : Grants gcd₀ gcd (allocatedRanges (pre ++ b :: post))) :
    wp (allocateTypes c resTypes ⟨b, fun _ => false, st, []⟩) (fun p gcd' =>
      Grants gcd₀ gcd' (allocatedRanges (pre ++ p.bridge :: post)) ∧ AllocatedFrom b p.bridge)
      (fun _ _ => True) gcd := by
  refine wp_mono (wp_allocateTypes (K := fun _ _ p gcd => Tracking gcd₀ b pre post p gcd) ?_ ?_ resTypes []
    _ gcd ⟨hgrants, fun t ht hc => absurd hc (hnone t ht), .refl b⟩) ?_ (fun _ _ h => h)
  · intro i _ _ p gcd h _
    refine ⟨h.grants, fun t ht hst => ?_, h.allocatedFrom⟩
    show Function.update p.resNodeHandled i true t = true
    by_cases hti : t = i
    · rw [hti, Function.update_self]
    · rw [Function.update_of_ne hti]
      exact h.handled t ht hst
  · exact fun _ _ _ p gcd t h _ ht => h.pick ht
  · exact fun p gcd' h => ⟨h.grants, h.allocatedFrom⟩

theorem wp_allocateBridges_holds {gcd₀ : Gcd} : ∀ {bs pre : List RootBridge} {gcd : Gcd} {st : EfiStatus},
    NoneAllocated bs → Grants gcd₀ gcd (allocatedRanges (pre ++ bs)) →
    wp (allocateBridges c bs st) (fun r gcd' => Grants gcd₀ gcd' (allocatedRanges (pre ++ r.1)) ∧
      List.Forall₂ AllocatedFrom bs r.1) (fun _ _ => True) gcd := by
  intro bs
  induction bs with
  | nil => intro pre gcd st _ h; exact ⟨h, .nil⟩
  | cons b bs ih =>
    intro pre gcd st hnone hgrants
    rw [allocateBridges, wp_bind]
    refine wp_mono (wp_allocateBridge_holds (hnone b List.mem_cons_self) hgrants) ?_ (fun _ _ h => h)
    rintro p gcd' ⟨hgrants', hfrom⟩
    have hassoc : ∀ l : List RootBridge, pre ++ p.bridge :: l = (pre ++ [p.bridge]) ++ l := by simp
    rw [hassoc] at hgrants'
    rw [wp_bind]
    refine wp_mono (ih (fun b' hb' => hnone b' (List.mem_cons_of_mem b hb')) hgrants') ?_ (fun _ _ h => h)
    rintro r gcd'' ⟨hgrants'', hfroms⟩
    rw [wp_pure]
    refine ⟨?_, .cons hfrom hfroms⟩
    rw [hassoc]
    exact hgrants''

/-! ## Nodes that are not allocated -/

structure CleanNode (node : ResNode) : Prop where
  base : node.status ≠ .allocated → node.base = 0
  length : node.status = .none → node.length = 0

theorem cleanNode_emptied (node : ResNode) : CleanNode (emptied node) := ⟨fun _ => rfl, fun _ => rfl⟩

theorem CleanNode.zeroed {node : ResNode} (h : CleanNode node) : CleanNode (zeroed node) := by
  unfold PciHostBridge.zeroed
  split
  · exact ⟨h.base, fun _ => rfl⟩
  · exact h

theorem CleanNode.freed {node : ResNode} (h : CleanNode node) : CleanNode (freedNode node) := by
  unfold freedNode
  split
  · exact cleanNode_emptied node
  · exact h

def CleanBridge (b : RootBridge) : Prop := ∀ t ∈ resTypes, CleanNode (b.resAllocNode t)

theorem CleanBridge.mapNodes {b : RootBridge} {l : List ResType} {g : ResNode → ResNode}
    (h : CleanBridge b) (hg : ∀ {node}, CleanNode node → CleanNode (g node)) :
    CleanBridge (b.mapNodes l g) := by
  intro t ht
  show CleanNode (if t ∈ l then g (b.resAllocNode t) else b.resAllocNode t)
  split
  · exact hg (h t ht)
  · exact h t ht

theorem CleanBridge.allocatedFrom {b b' : RootBridge} (h : CleanBridge b) (hfrom : AllocatedFrom b b') :
    CleanBridge b' := by
  intro t ht
  rcases hfrom.node t with heq | ⟨-, -, base, heq⟩
  · rw [heq]
    exact h t ht
  · rw [heq]
    exact ⟨fun hc => absurd rfl hc, nofun⟩

/-! ## Requests -/

def storeRequest (t : ResType) (d : Descriptor) (node : ResNode) : ResNode :=
  match t with
  | .pMem32 | .pMem64 => { node with status := .submitted }
  | .mem64 => { node with length := d.addrLen, alignment := d.addrRangeMax, status := .submitted }
  | _ => { node with length := d.addrLen, alignment := d.addrRangeMax, status := .requested }

def nodeAfter (t : ResType) (ds : List Descriptor) (node : ResNode) : ResNode :=
  match (ds.filter fun d => d.target? = some t).getLast? with
  | none => node
  | some d => storeRequest t d node

theorem storeRequest_storeRequest (t : ResType) (d d' : Descriptor) (node : ResNode) :
    storeRequest t d' (storeRequest t d node) = storeRequest t d' node := by
  cases t <;> rfl

theorem nodeAfter_cons (t : ResType) (d : Descriptor) (ds : List Descriptor) (node : ResNode) :
    nodeAfter t (d :: ds) node =
      nodeAfter t ds (if d.target? = some t then storeRequest t d node else node) := by
  unfold nodeAfter
  by_cases hd : d.target? = some t
  · rw [List.filter_cons_of_pos (by simpa using hd), if_pos hd]
    cases hl : ds.filter fun d => decide (d.target? = some t) with
    | nil => rfl
    | cons e l =>
      rw [List.getLast?_cons_cons]
      cases he : (e :: l).getLast? with
      | none => simp at he
      | some x => exact (storeRequest_storeRequest t d x node).symm
  · rw [List.filter_cons_of_neg (by simpa using hd), if_neg hd]

theorem applyDescriptor_eq (b : RootBridge) (d : Descriptor) :
    (applyDescriptor b d).1 = b.withNodes fun t =>
      if d.target? = some t then storeRequest t d (b.resAllocNode t) else b.resAllocNode t := by
  have hset : ∀ (t : ResType) (node : ResNode), node = storeRequest t d (b.resAllocNode t) →
      b.setNode t node = b.withNodes fun u =>
        if some t = some u then storeRequest u d (b.resAllocNode u) else b.resAllocNode u := by
    rintro t node rfl
    unfold RootBridge.setNode RootBridge.withNodes
    congr 1
    funext u
    by_cases hu : u = t
    · subst hu
      simp
    · have : ¬ some t = some u := fun hc => hu (Option.some.inj hc).symm
      rw [Function.update_of_ne hu, if_neg this]
  have hnone : b = b.withNodes fun t =>
      if none = some t then storeRequest t d (b.resAllocNode t) else b.resAllocNode t := rfl
  unfold applyDescriptor Descriptor.target?
  by_cases hmem : d.resType = acpiAddressSpaceTypeMem
  · simp only [if_pos hmem]
    by_cases h32 : d.addrSpaceGranularity = 32
    · simp only [if_pos h32]
      by_cases hpre : d.specificFlag = 0x06
      · simp only [if_pos hpre]
        exact hset .pMem32 _ rfl
      · simp only [if_neg hpre]
        exact hset .mem32 _ rfl
    · simp only [if_neg h32]
      by_cases h64 : d.addrSpaceGranularity = 64
      · simp only [if_pos h64]
        by_cases hpre : d.specificFlag = 0x06
        · simp only [if_pos hpre]
          exact hset .pMem64 _ rfl
        · simp only [if_neg hpre]
          exact hset .mem64 _ rfl
      · simp only [if_neg h64]
        exact hnone
  · simp only [if_neg hmem]
    by_cases hio : d.resType = acpiAddressSpaceTypeIo
    · simp only [if_pos hio]
      exact hset .io _ rfl
    · simp only [if_neg hio]
      exact hnone

theorem applyDescriptors_eq (ds : List Descriptor) : ∀ b : RootBridge,
    (applyDescriptors b ds).1 =
      b.withNodes fun t => nodeAfter t ds (b.resAllocNode t) := by
  induction ds with
  | nil => intro b; rfl
  | cons d ds ih =>
    intro b
    show (applyDescriptors (applyDescriptor b d).1 ds).1 = _
    rw [ih, applyDescriptor_eq]
    unfold RootBridge.withNodes
    congr 1
    funext t
    exact (nodeAfter_cons t d ds _).symm

theorem applyDescriptors_append (ds ds' : List Descriptor) (b : RootBridge) :
    (applyDescriptors (applyDescriptors b ds).1 ds').1 = (applyDescriptors b (ds ++ ds')).1 := by
  induction ds generalizing b with
  | nil => rfl
  | cons d ds ih => exact ih (applyDescriptor b d).1

def submits (ds : List Descriptor) : Bool := (applyDescriptors (newBridge 0 ⟨0, 0, 0, 0, 0, 0, 0, 0⟩) ds).2

theorem applyDescriptors_submits (ds : List Descriptor) (b : RootBridge) :
    (applyDescriptors b ds).2 = submits ds := by
  have hany : ∀ b b' : RootBridge, (applyDescriptors b ds).2 = (applyDescriptors b' ds).2 := by
    induction ds with
    | nil => intro b b'; rfl
    | cons d ds ih =>
      intro b b'
      have hd : (applyDescriptor b d).2 = (applyDescriptor b' d).2 := by
        unfold applyDescriptor
        split_ifs <;> rfl
      show ((applyDescriptor b d).2 || _) = ((applyDescriptor b' d).2 || _)
      rw [hd, ih _ (applyDescriptor b' d).1]
  exact hany _ _

theorem target_ne_bus (d : Descriptor) : d.target? ≠ some .bus := by
  unfold Descriptor.target?
  split_ifs <;> nofun

theorem nodeAfter_cases (t : ResType) (ds : List Descriptor) :
    (∀ node, nodeAfter t ds node = node) ∨
      ∃ d ∈ ds, d.target? = some t ∧ ∀ node, nodeAfter t ds node = storeRequest t d node := by
  unfold nodeAfter
  cases hl : (ds.filter fun d => decide (d.target? = some t)).getLast? with
  | none => exact .inl fun _ => rfl
  | some d =>
    have hmem := List.mem_of_getLast? hl
    obtain ⟨hd, htarget⟩ := List.mem_filter.mp hmem
    exact .inr ⟨d, hd, by simpa using htarget, fun _ => rfl⟩

theorem status_storeRequest (t : ResType) (d : Descriptor) (node : ResNode) :
    (storeRequest t d node).status ≠ .allocated ∧ (storeRequest t d node).status ≠ .none := by
  cases t <;> exact ⟨nofun, nofun⟩

theorem base_storeRequest (t : ResType) (d : Descriptor) (node : ResNode) :
    (storeRequest t d node).base = node.base := by
  cases t <;> rfl

theorem range?_applyDescriptors {b : RootBridge} {ds : List Descriptor} {t : ResType}
    (h : ∀ d ∈ ds, d.target? = some t → b.status t ≠ .allocated) :
    (applyDescriptors b ds).1.range? t = b.range? t := by
  rw [applyDescriptors_eq]
  rcases nodeAfter_cases t ds with hid | ⟨d, hd, htarget, hstore⟩
  · exact range?_congr (hid _)
  · rw [range?_of_not_allocated (h d hd htarget)]
    refine range?_of_not_allocated ?_
    show (nodeAfter t ds (b.resAllocNode t)).status ≠ .allocated
    rw [hstore]
    exact (status_storeRequest t d _).1

theorem CleanBridge.applyDescriptors {b : RootBridge} {ds : List Descriptor} (h : CleanBridge b)
    (hnot : ∀ d ∈ ds, ∀ t, d.target? = some t → b.status t ≠ .allocated) :
    CleanBridge (applyDescriptors b ds).1 := by
  intro t ht
  rw [applyDescriptors_eq]
  show CleanNode (nodeAfter t ds (b.resAllocNode t))
  rcases nodeAfter_cases t ds with hid | ⟨d, hd, htarget, hstore⟩
  · rw [hid]
    exact h t ht
  · rw [hstore]
    refine ⟨fun _ => ?_, fun hc => absurd hc (status_storeRequest t d _).2⟩
    rw [base_storeRequest]
    exact (h t ht).base (hnot d hd t htarget)

theorem nodeAfter_again {t : ResType} {ds : List Descriptor} {node node' : ResNode}
    (hclean : CleanNode node) (hnone : node.status = .none)
    (hfrom : node' = nodeAfter t ds node ∨ (nodeAfter t ds node).length ≠ 0 ∧
      ∃ base, node' = { nodeAfter t ds node with base := base, status := .allocated }) :
    nodeAfter t ds (freedNode (zeroed node')) = nodeAfter t ds node := by
  have hbase : node.base = 0 := hclean.base (by rw [hnone]; nofun)
  have hlen := hclean.length hnone
  rcases nodeAfter_cases t ds with hid | ⟨d, hd, htarget, hstore⟩
  · simp only [hid] at hfrom ⊢
    rcases hfrom with rfl | ⟨hne, -⟩
    · obtain ⟨base, length, alignment, status⟩ := node'
      simp only at hnone hlen
      subst hnone hlen
      rfl
    · exact absurd hlen hne
  · simp only [hstore] at hfrom ⊢
    -- the store overwrites what differs
    have hfreed : (freedNode (zeroed node')).base = 0 ∧ (freedNode (zeroed node')).length = 0 ∧
        (freedNode (zeroed node')).alignment = (storeRequest t d node).alignment := by
      rcases hfrom with rfl | ⟨-, base, rfl⟩
      · have hst := (status_storeRequest t d node).1
        have hz : zeroed (storeRequest t d node) = { storeRequest t d node with length := 0 } := if_pos hst
        have hf : freedNode { storeRequest t d node with length := 0 } =
            { storeRequest t d node with length := 0 } := if_neg hst
        rw [hz, hf]
        exact ⟨(base_storeRequest t d node).trans hbase, rfl, rfl⟩
      · exact ⟨rfl, rfl, rfl⟩
    obtain ⟨hb, hl, ha⟩ := hfreed
    generalize freedNode (zeroed node') = m at hb hl ha
    obtain ⟨mbase, mlength, malignment, mstatus⟩ := m
    obtain ⟨nbase, nlength, nalignment, nstatus⟩ := node
    simp only at hb hl ha hbase hlen
    subst hb hl hbase hlen
    cases t <;> simp only [storeRequest] at ha ⊢
    all_goals simp [ha]

theorem applyDescriptors_again {b b' : RootBridge} {ds : List Descriptor} (hclean : CleanBridge b)
    (hnone : ∀ t ∈ resTypes, b.status t = .none)
    (hfrom : AllocatedFrom (applyDescriptors b ds).1 b') :
    (applyDescriptors (b'.zeroFailed.mapNodes resTypes freedNode) ds).1 = (applyDescriptors b ds).1 := by
  rw [applyDescriptors_eq] at hfrom
  rw [applyDescriptors_eq, applyDescriptors_eq, zeroFailed_eq]
  have hother : ∀ nodes, b'.withNodes nodes = b.withNodes nodes := by
    intro nodes
    rw [hfrom.same]
    rfl
  show b'.withNodes _ = _
  rw [hother]
  unfold RootBridge.withNodes
  congr 1
  funext t
  by_cases ht : t ∈ resTypes
  · have hnode : ((b'.mapNodes resTypes zeroed).mapNodes resTypes freedNode).resAllocNode t =
        freedNode (zeroed (b'.resAllocNode t)) := by
      rw [resAllocNode_mapNodes ht, resAllocNode_mapNodes ht]
    rw [hnode]
    refine nodeAfter_again (hclean t ht) (hnone t ht) ?_
    rcases hfrom.node t with heq | ⟨-, hne, hbase⟩
    · exact .inl heq
    · exact .inr ⟨hne, hbase⟩
  · have hbus : t = .bus := by
      by_contra hc
      exact ht (mem_resTypes.mpr hc)
    have hid : ∀ node, nodeAfter t ds node = node := by
      rcases nodeAfter_cases t ds with hid | ⟨d, -, htarget, -⟩
      · exact hid
      · exact absurd (hbus ▸ htarget) (target_ne_bus d)
    have hnode : ((b'.mapNodes resTypes zeroed).mapNodes resTypes freedNode).resAllocNode t =
        b'.resAllocNode t := by
      show ite _ _ _ = _
      rw [if_neg ht]
      show ite _ _ _ = _
      rw [if_neg ht]
    rw [hid, hid, hnode]
    rcases hfrom.node t with heq | ⟨hmem, -⟩
    · exact heq.trans (hid _)
    · exact absurd hmem ht

/-! ## Requests of several bridges -/

abbrev Effect := Option (Nat × List Descriptor)

def Effect.onBridges : Effect → List RootBridge → List RootBridge
  | none, bs => bs
  | some (handle, ds), bs => updateBridge handle (fun b => (applyDescriptors b ds).1) bs

def Effect.submits : Effect → Bool
  | none => false
  | some (_, ds) => PciHostBridge.submits ds

def afterRequests (es : List Effect) (bs : List RootBridge) : List RootBridge :=
  es.foldl (fun bs e => e.onBridges bs) bs

def requested (es : List Effect) (s : HostBridge) : HostBridge where
  bridges := afterRequests es s.bridges
  resourceSubmited := s.resourceSubmited || es.any Effect.submits
  canRestarted := s.canRestarted
  gcd := s.gcd

def SameIds (bs bs' : List RootBridge) : Prop :=
  List.Forall₂ (fun b b' => b'.handle = b.handle ∧
    b'.rootBridgeAllocAttrib = b.rootBridgeAllocAttrib) bs bs'

theorem handle_applyDescriptors (b : RootBridge) (ds : List Descriptor) :
    (applyDescriptors b ds).1.handle = b.handle := by
  rw [applyDescriptors_eq]
  rfl

theorem attrib_applyDescriptors (b : RootBridge) (ds : List Descriptor) :
    (applyDescriptors b ds).1.rootBridgeAllocAttrib = b.rootBridgeAllocAttrib := by
  rw [applyDescriptors_eq]
  rfl

theorem updateBridge_found {handle : Nat} {f : RootBridge → RootBridge} {b : RootBridge} :
    ∀ {bs : List RootBridge}, bs.find? (fun b => decide (b.handle = handle)) = some b →
      updateBridge handle (fun _ => f b) bs = updateBridge handle f bs := by
  intro bs
  induction bs with
  | nil => intro h; cases h
  | cons x bs ih =>
    intro h
    unfold updateBridge
    by_cases hx : x.handle = handle
    · rw [List.find?_cons_of_pos (by simpa using hx)] at h
      injection h with h
      rw [if_pos hx, if_pos hx, h]
    · rw [List.find?_cons_of_neg (by simpa using hx)] at h
      rw [if_neg hx, if_neg hx, ih h]

theorem SameIds.effect {bs bs' : List RootBridge} (h : SameIds bs bs') (e : Effect) :
    SameIds (e.onBridges bs) (e.onBridges bs') := by
  cases e with
  | none => exact h
  | some e =>
    obtain ⟨handle, ds⟩ := e
    show SameIds (updateBridge handle _ bs) (updateBridge handle _ bs')
    induction h with
    | nil => exact .nil
    | @cons b b' bs bs' hb hrest ih =>
      unfold updateBridge
      by_cases hh : b.handle = handle
      · rw [if_pos hh, if_pos (hb.1.trans hh)]
        refine .cons ?_ hrest
        rw [handle_applyDescriptors, handle_applyDescriptors, attrib_applyDescriptors,
          attrib_applyDescriptors]
        exact hb
      · rw [if_neg hh, if_neg (by rw [hb.1]; exact hh)]
        exact .cons hb ih

theorem SameIds.find? {bs bs' : List RootBridge} (h : SameIds bs bs') (handle : Nat) :
    (bs.find? (fun b => decide (b.handle = handle)) = none ∧
      bs'.find? (fun b => decide (b.handle = handle)) = none) ∨
    ∃ b b', bs.find? (fun b => decide (b.handle = handle)) = some b ∧
      bs'.find? (fun b => decide (b.handle = handle)) = some b' ∧
      b'.rootBridgeAllocAttrib = b.rootBridgeAllocAttrib := by
  induction h with
  | nil => exact .inl ⟨rfl, rfl⟩
  | @cons b b' bs bs' hb hrest ih =>
    by_cases hh : b.handle = handle
    · refine .inr ⟨b, b', List.find?_cons_of_pos (by simpa using hh),
        List.find?_cons_of_pos (by simpa [hb.1] using hh), hb.2⟩
    · rw [List.find?_cons_of_neg (by simpa using hh), List.find?_cons_of_neg (by simpa [hb.1] using hh)]
      exact ih

theorem checkDescriptors_congr {σ : Type} {b b' : RootBridge}
    (h : b'.rootBridgeAllocAttrib = b.rootBridgeAllocAttrib) (ds : List Descriptor) :
    (checkDescriptors b' ds : Exec σ EfiStatus) = checkDescriptors b ds := by
  induction ds with
  | nil => rfl
  | cons d ds ih =>
    have hd : (checkDescriptor b' d : Exec σ EfiStatus) = checkDescriptor b d := by
      unfold checkDescriptor
      rw [h]
    rw [checkDescriptors, checkDescriptors, hd, ih]

theorem checkDescriptors_pure (b : RootBridge) (ds : List Descriptor) :
    (∃ st, ∀ s : HostBridge, checkDescriptors b ds s = .ret st s) ∨
      ∃ w, ∀ s : HostBridge, checkDescriptors b ds s = .stop w s := by
  induction ds with
  | nil => exact .inl ⟨.success, fun _ => rfl⟩
  | cons d ds ih =>
    have hd : (∃ st, ∀ s : HostBridge, checkDescriptor b d s = .ret st s) ∨
        ∃ w, ∀ s : HostBridge, checkDescriptor b d s = .stop w s := by
      unfold checkDescriptor checkAlignment
      split_ifs
      all_goals first | exact .inl ⟨_, fun _ => rfl⟩ | exact .inr ⟨_, fun _ => rfl⟩
    rcases hd with ⟨st, hst⟩ | ⟨w, hw⟩
    · by_cases herr : st.isError = true
      · refine .inl ⟨st, fun s => ?_⟩
        rw [checkDescriptors, bind_of_ret (hst s), if_pos herr]
        rfl
      · rcases ih with ⟨st', hst'⟩ | ⟨w, hw⟩
        · refine .inl ⟨st', fun s => ?_⟩
          rw [checkDescriptors, bind_of_ret (hst s), if_neg herr]
          exact hst' s
        · refine .inr ⟨w, fun s => ?_⟩
          rw [checkDescriptors, bind_of_ret (hst s), if_neg herr]
          exact hw s
    · refine .inr ⟨w, fun s => ?_⟩
      show Exec.bind (checkDescriptor b d) _ s = _
      unfold Exec.bind
      rw [hw s]

def submitTo (handle : Nat) (config : Configuration) (b : RootBridge) : Exec HostBridge EfiStatus := do
  let st ← checkDescriptors b config.descriptors
  if st.isError then pure st
  else if ¬ config.endTag then pure .invalidParameter
  else do
    let r := applyDescriptors b config.descriptors
    Exec.modify fun s => { s with
      bridges := updateBridge handle (fun _ => r.1) s.bridges
      resourceSubmited := s.resourceSubmited || r.2 }
    pure .success

theorem submitResources_found {s : HostBridge} {handle : Nat} {config : Configuration} {b : RootBridge}
    (h : s.bridges.find? (fun b => decide (b.handle = handle)) = some b) :
    submitResources handle (some config) s = submitTo handle config b s := by
  unfold submitResources
  rw [bind_of_ret (show Exec.get s = .ret s s from rfl), h]
  rfl

theorem submitResources_not_found {s : HostBridge} {handle : Nat} {configuration : Option Configuration}
    (h : s.bridges.find? (fun b => decide (b.handle = handle)) = none) :
    submitResources handle configuration s = .ret .invalidParameter s := by
  unfold submitResources
  rw [bind_of_ret (show Exec.get s = .ret s s from rfl), h]
  cases configuration <;> rfl

theorem requested_none (s : HostBridge) : requested [none] s = s := by
  simp [requested, afterRequests, Effect.onBridges, Effect.submits]

theorem requested_append (es es' : List Effect) (s : HostBridge) :
    requested es' (requested es s) = requested (es ++ es') s := by
  simp [requested, afterRequests, Bool.or_assoc]

theorem submitTo_effect (handle : Nat) (config : Configuration) (b : RootBridge) :
    (∃ st e, ∀ (s : HostBridge) (b' : RootBridge), b'.rootBridgeAllocAttrib = b.rootBridgeAllocAttrib →
      s.bridges.find? (fun b => decide (b.handle = handle)) = some b' →
      submitTo handle config b' s = .ret st (requested [e] s)) ∨
    ∃ w, ∀ s : HostBridge, submitTo handle config b s = .stop w s := by
  rcases checkDescriptors_pure b config.descriptors with ⟨st, hst⟩ | ⟨w, hw⟩
  · left
    have hcheck : ∀ (s : HostBridge) (b' : RootBridge),
        b'.rootBridgeAllocAttrib = b.rootBridgeAllocAttrib →
        checkDescriptors b' config.descriptors s = .ret st s := by
      intro s b' hb'
      rw [checkDescriptors_congr hb']
      exact hst s
    by_cases herr : st.isError = true
    · refine ⟨st, none, fun s b' hb' _ => ?_⟩
      rw [submitTo, bind_of_ret (hcheck s b' hb'), if_pos herr, requested_none]
      rfl
    · by_cases htag : config.endTag = true
      · refine ⟨.success, some (handle, config.descriptors), fun s b' hb' hfind => ?_⟩
        rw [submitTo, bind_of_ret (hcheck s b' hb'), if_neg herr, if_neg (not_not.mpr htag)]
        have hupdate := updateBridge_found (f := fun b => (applyDescriptors b config.descriptors).1) hfind
        have hsub := applyDescriptors_submits config.descriptors b'
        show Outcome.ret EfiStatus.success _ = _
        simp only [hupdate, hsub]
        simp [requested, afterRequests, Effect.onBridges, Effect.submits]
      · refine ⟨.invalidParameter, none, fun s b' hb' _ => ?_⟩
        rw [submitTo, bind_of_ret (hcheck s b' hb'), if_neg herr, if_pos htag, requested_none]
        rfl
  · right
    refine ⟨w, fun s => ?_⟩
    show Exec.bind (checkDescriptors b config.descriptors) _ s = _
    unfold Exec.bind
    rw [hw s]

theorem submitResources_parallel {s s' : HostBridge} {handle : Nat} {configuration : Option Configuration}
    {st : EfiStatus} (h : submitResources handle configuration s = .ret st s') :
    ∃ e : Effect, s' = requested [e] s ∧ ∀ u : HostBridge, SameIds s.bridges u.bridges →
      submitResources handle configuration u = .ret st (requested [e] u) := by
  cases configuration with
  | none =>
    have hs : submitResources handle none s = .ret .invalidParameter s := rfl
    rw [hs] at h
    injection h with hst hs
    refine ⟨none, ?_, fun u _ => ?_⟩
    · rw [requested_none, hs]
    · rw [requested_none, ← hst]
      rfl
  | some config =>
    cases hs : s.bridges.find? (fun b => decide (b.handle = handle)) with
    | none =>
      rw [submitResources_not_found hs] at h
      injection h with hst hs'
      refine ⟨none, ?_, fun u hids => ?_⟩
      · rw [requested_none, hs']
      · rcases hids.find? handle with ⟨-, hu⟩ | ⟨b, b', hc, -⟩
        · rw [submitResources_not_found hu, requested_none, hst]
        · rw [hs] at hc
          cases hc
    | some b =>
      rw [submitResources_found hs] at h
      rcases submitTo_effect handle config b with ⟨st', e, he⟩ | ⟨w, hw⟩
      · rw [he s b rfl hs] at h
        injection h with hst hs'
        refine ⟨e, hs'.symm, fun u hids => ?_⟩
        rcases hids.find? handle with ⟨hc, -⟩ | ⟨x, b', hx, hu, hattrib⟩
        · rw [hs] at hc
          cases hc
        · rw [hs] at hx
          injection hx with hx
          subst hx
          rw [submitResources_found hu, ← hst]
          exact he u b' hattrib hu
      · rw [hw s] at h
        cases h

theorem requestCalls_parallel : ∀ {reqs : List (Nat × Option Configuration)} {s s₁ : HostBridge},
    Exec.serve (serveCall c) (requestCalls reqs) s = .ret () s₁ →
    ∃ es, s₁ = requested es s ∧ ∀ u : HostBridge, SameIds s.bridges u.bridges →
      Exec.serve (serveCall c) (requestCalls reqs) u = .ret () (requested es u) := by
  intro reqs
  induction reqs with
  | nil =>
    intro s s₁ h
    have hs : s = s₁ := by injection h
    refine ⟨[], ?_, fun u _ => ?_⟩
    · rw [← hs]
      simp [requested, afterRequests]
    · show Outcome.ret () u = _
      simp [requested, afterRequests]
  | cons r reqs ih =>
    intro s s₁ h
    have hserve : ∀ s : HostBridge, Exec.serve (serveCall c) (requestCalls (r :: reqs)) s =
        (serveCall c (.submitResources r.1 r.2) >>= fun _ =>
          Exec.serve (serveCall c) (requestCalls reqs)) s := fun _ => rfl
    have hcall : ∀ {s s' : HostBridge} {st : EfiStatus}, submitResources r.1 r.2 s = .ret st s' →
        serveCall c (.submitResources r.1 r.2) s = .ret (st, []) s' := by
      intro s s' st hret
      show (submitResources r.1 r.2 >>= fun st => pure (st, [])) s = _
      rw [bind_of_ret hret]
      rfl
    rw [hserve] at h
    cases hret : submitResources r.1 r.2 s with
    | stop w s' =>
      have hstop : serveCall c (.submitResources r.1 r.2) s = .stop w s' := by
        show Exec.bind (submitResources r.1 r.2) _ s = _
        unfold Exec.bind
        rw [hret]
      change Exec.bind (serveCall c (.submitResources r.1 r.2)) _ s = _ at h
      unfold Exec.bind at h
      rw [hstop] at h
      cases h
    | ret st s' =>
      rw [bind_of_ret (hcall hret)] at h
      obtain ⟨e, rfl, hu⟩ := submitResources_parallel hret
      obtain ⟨es, rfl, hes⟩ := ih h
      refine ⟨e :: es, ?_, fun u hids => ?_⟩
      · rw [requested_append]
        rfl
      · have hids' : SameIds (requested [e] s).bridges (requested [e] u).bridges := hids.effect e
        rw [hserve, bind_of_ret (hcall (hu u hids)), hes _ hids', requested_append]
        rfl

end Quark.PciHostBridge
