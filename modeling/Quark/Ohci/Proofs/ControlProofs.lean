import Quark.Ohci.Proofs.BulkProofs

/-!
# Control transfers

What `OhciControlTransfer` gives to the controller, and what it leaves behind.
-/

namespace Quark.Ohci.Transfer

open Machine Exec

def ControlRequest.requestAnswer (pf : Platform) (p : ControlRequest) : Except EfiStatus Mapped :=
  pf.mapRequest .busMasterRead p.request sizeofUsbDeviceRequest

/-- What `PciIo->Map` answers for the data of a control transfer, if there is any. -/
def ControlRequest.dataAnswer (pf : Platform) (p : ControlRequest) : Except EfiStatus Mapped :=
  if p.data ≠ 0 ∧ p.dataLength.getD 0 ≠ 0 then
    pf.mapData (if p.transferDirection = .dataIn then .busMasterWrite else .busMasterRead) p.data
      (p.dataLength.getD 0)
  else .ok ⟨0, p.dataLength.getD 0, 0⟩

def ControlRequest.DataMapped (pf : Platform) (p : ControlRequest) : Prop :=
  ∃ m, p.dataAnswer pf = .ok m

def ControlRequest.DataBelow (pf : Platform) (p : ControlRequest) : Prop :=
  ∀ m, p.dataAnswer pf = .ok m → m.phyAddr + m.length ≤ 0x100000000

section

variable (asserts : Bool) (pf : Platform) {p : ControlRequest} {pool₀ : MemPool}
  {live : List Allocation} {h : Held} {t : HcDev} {tds : List Nat} {headTd ed z : Nat}

/-! ## The way out -/

theorem unmapSetupBuff_ret (hgrown : Grown pool₀ [edUnit h.ed] t.memPool) :
    ∃ pool', unmapSetupBuff asserts h t = .ret () { t with
        memPool := pool'
        mappings := if h.reqMapping ≠ 0 then t.mappings.erase h.reqMapping else t.mappings } ∧
      Grown pool₀ [] pool' := by
  obtain ⟨pool', hed, hgrown'⟩ := freeEdBuff_ret asserts (h := h) (t := { t with
    mappings := if h.reqMapping ≠ 0 then t.mappings.erase h.reqMapping else t.mappings }) hgrown
  exact ⟨pool', (bind_of_ret (unmap_ret h.reqMapping t)).trans hed, hgrown'⟩

theorem freeTdBuff_ret
    (hlist : Linked TdDescriptor.nextTDPointer (fun a => some (t.td a)) h.headTd tds)
    (hlen : tds.length < walkLimit)
    (hgrown : Grown pool₀ (tds.map tdUnit ++ [edUnit h.ed]) t.memPool) :
    ∃ pool', freeTdBuff asserts h t = .ret () { t with
        memPool := pool'
        mappings := if h.reqMapping ≠ 0 then t.mappings.erase h.reqMapping else t.mappings } ∧
      Grown pool₀ [] pool' := by
  obtain ⟨pool₁, hfree, hgrown₁⟩ := freeTds_free asserts hlist hlen hgrown
  obtain ⟨pool₂, hout, hgrown₂⟩ := unmapSetupBuff_ret asserts (h := h)
    (t := { t with memPool := pool₁ }) hgrown₁
  exact ⟨pool₂, (bind_of_ret hfree).trans hout, hgrown₂⟩

theorem unmapDataBuff_ret
    (hlist : Linked TdDescriptor.nextTDPointer (fun a => some (t.td a)) h.headTd tds)
    (hlen : tds.length < walkLimit)
    (hgrown : Grown pool₀ (tds.map tdUnit ++ [edUnit h.ed]) t.memPool) :
    ∃ t', unmapDataBuff asserts pf h t = .ret () t' ∧ Unwound pf pool₀ h t t' ∧
      t'.mappings = (if h.reqMapping ≠ 0
        then (if h.dataMapping ≠ 0 then t.mappings.erase h.dataMapping else t.mappings).erase
          h.reqMapping
        else if h.dataMapping ≠ 0 then t.mappings.erase h.dataMapping else t.mappings) := by
  obtain ⟨t₁, hdetach, hframe, hkept, hhead, hother⟩ :=
    detachED_ret (pf.write .detachHead) h.list h.headEd h.ed t
  have htd : t₁.td = t.td := by rw [hframe]
  have hpool : t₁.memPool = t.memPool := by rw [hframe]
  have hmappings : t₁.mappings = t.mappings := by rw [hframe]
  rw [← htd] at hlist
  rw [← hpool] at hgrown
  obtain ⟨pool₂, hout, hgrown₂⟩ := freeTdBuff_ret asserts (h := h) (t := { t₁ with
    mappings := if h.dataMapping ≠ 0 then t₁.mappings.erase h.dataMapping else t₁.mappings })
    hlist hlen hgrown
  have hsame : ∀ list, ({ t₁ with
      memPool := pool₂
      mappings := if h.reqMapping ≠ 0 then (if h.dataMapping ≠ 0 then t₁.mappings.erase h.dataMapping
        else t₁.mappings).erase h.reqMapping else if h.dataMapping ≠ 0
        then t₁.mappings.erase h.dataMapping else t₁.mappings } : HcDev).head list = t₁.head list :=
    head_eq rfl rfl
  refine ⟨_, (bind_of_ret hdetach).trans ((bind_of_ret (unmap_ret h.dataMapping t₁)).trans hout),
    ⟨hgrown₂, ?_, ?_, fun heq hok => (hsame h.list).trans (hhead heq hok),
      fun list hne => (hsame list).trans (hother list hne)⟩, ?_⟩
  · rw [hframe]
  · rw [← hsame h.list] at hkept
    exact hkept
  · show (if h.reqMapping ≠ 0 then (if h.dataMapping ≠ 0 then t₁.mappings.erase h.dataMapping
      else t₁.mappings).erase h.reqMapping else _) = _
    rw [hmappings]

/-! ## The stages -/

/-- The list of a control transfer: the setup TD, the data TDs, the status TD and the empty one. -/
structure Staged (pf : Platform) (p : ControlRequest) (mapped : Mapped) (pool₀ : MemPool)
    (t : HcDev) (ed setupTd : Nat) (tds : List Nat) (t' : HcDev) : Prop where
  grown : Grown pool₀ (tds.map tdUnit ++ [edUnit ed]) t'.memPool
  list : TdList t'.td setupTd tds
  frame : t' = { t with
    memPool := t'.memPool
    td := t'.td
    ed := t'.ed }

structure Complete (p : ControlRequest) (mapped : Mapped) (ed setupTd : Nat) (tds data : List Nat)
    (statusTd q : Nat) (t' : HcDev) : Prop where
  tds_eq : tds = [setupTd] ++ data ++ [statusTd] ++ [q]
  tail : (t'.ed ed).tdTailPointer = q
  head : (t'.ed ed).tdHeadPointer = u32 setupTd / 16
  emptyTd : (t'.td q).currBufferPointer = 0 ∧ (t'.td q).bufferEndPointer = 0
  covers : CoversBuffer mapped.phyAddr mapped.length p.maxPacketLength 1 (data.map t'.td)

theorem controlStages_ret (ed : Nat) {mapped : Mapped} {setupTd : Nat}
    (hbelow : mapped.phyAddr + mapped.length ≤ 0x100000000)
    (hallowed : packetLengthAllowed p.maxPacketLength = true)
    (howns : Owns pf.buffer pool₀ 2 ([setupTd].map tdUnit ++ [edUnit ed]) t.memPool)
    (hlist : TdList t.td setupTd [setupTd]) (hed : (t.ed ed).tdHeadPointer = 0) :
    ∃ status t' tds, controlStages asserts pf p ed setupTd mapped t = .ret status t' ∧
      Staged pf p mapped pool₀ t ed setupTd tds t' ∧
      ((status = .outOfResources) ∨ (status = .success ∧ ∃ data statusTd q,
        Complete p mapped ed setupTd tds data statusTd q t')) := by
  obtain ⟨hmax, hsmall⟩ := packetLength_pos hallowed
  let stage : DataStage :=
    ⟨if p.transferDirection = .dataIn then tdInPid else tdOutPid, p.maxPacketLength⟩
  let st : DataStart := ⟨t, [setupTd], [edUnit ed], pool₀, 2⟩
  have hstart : Split pf.buffer stage mapped 1 st [] ⟨setupTd, mapped.length, mapped.phyAddr, 1, 2⟩
      t := by
    refine ⟨howns, hlist, rfl, fun a _ => rfl, ?_, fun _ => ?_, ?_, fun hne => absurd rfl hne, rfl, rfl⟩
    · simp
    · simp
    · simp
  obtain ⟨⟨status, l⟩, t₁, hloop, data, hsplit, hend⟩ := returns_of_wp
    (wp_dataStage asserts (n := mapped.length + 1) hmax (Nat.lt_succ_self _) hstart)
  have hrun : controlStages asserts pf p ed setupTd mapped t = _ := bind_of_ret hloop
  have hhead : l.headTd = setupTd := hsplit.list.next.1
  have hlist₁ : TdList t₁.td setupTd ([setupTd] ++ data) := by
    rw [← hhead]
    exact hhead ▸ hsplit.list
  have howns₁ : Owns pf.buffer pool₀ l.index (([setupTd] ++ data).map tdUnit ++ [edUnit ed])
      t₁.memPool := hsplit.owns
  have hframe := hsplit.frame
  have hstaged : Staged pf p mapped pool₀ t ed setupTd ([setupTd] ++ data) t₁ :=
    ⟨howns₁.grown, hlist₁, by rw [hframe]⟩
  rcases hend with ⟨hstatus, hzero⟩ | ⟨hstatus, -⟩
  · change status = .success at hstatus
    change l.leftLength = 0 at hzero
    subst hstatus
    have hleft := hsplit.left
    change l.leftLength = mapped.length - data.length * p.maxPacketLength at hleft
    have hcovers : CoversBuffer mapped.phyAddr mapped.length p.maxPacketLength 1
        (dataTds stage mapped 1 data.length) := by
      refine covers_dataTds (p := stage) hbelow hmax hsmall (Nat.le_refl 1) ?_ fun hcount => ?_
      · show mapped.length ≤ data.length * p.maxPacketLength
        omega
      · exact hsplit.needed fun hnil => by rw [hnil] at hcount; cases hcount
    obtain ⟨init, z, hinit⟩ : ∃ init z, [setupTd] ++ data = init ++ [z] :=
      ⟨_, _, (List.dropLast_append_getLast (List.cons_ne_nil setupTd data)).symm⟩
    have hlist₁' := hlist₁
    have howns₁' := howns₁
    rw [hinit] at hlist₁' howns₁'
    obtain ⟨status, t₂, hstatusStage, hr⟩ := statusStage_ret asserts
      (if p.transferDirection = .dataIn then tdOutPid else tdInPid) hlist₁' howns₁'
    rcases hr with ⟨rfl, rfl⟩ | ⟨rfl, hed₂, statusTd, happ⟩
    · exact ⟨_, t₂, _, hrun.trans ((bind_of_ret hstatusStage).trans rfl), hstaged, .inl rfl⟩
    · have hframe₂ := happ.frame
      have hed₂' : (t₂.ed ed).tdHeadPointer = 0 := by
        rw [hed₂, hframe]
        exact hed
      obtain ⟨status, t₃, hempty, hr⟩ := emptyStage_ret asserts ed happ.list
        happ.owns hed₂'
      refine ⟨status, t₃, ?_⟩
      have hret := hrun.trans ((bind_of_ret hstatusStage).trans hempty)
      rcases hr with ⟨rfl, rfl⟩ | ⟨rfl, q, happ₃, htail, hhead₃⟩
      · refine ⟨_, hret, ⟨happ.owns.grown, happ.list, ?_⟩, .inl rfl⟩
        rw [hframe₂, hframe]
      · have hframe₃ := happ₃.frame
        refine ⟨_, hret, ⟨happ₃.owns.grown, happ₃.list, ?_⟩, .inr ⟨rfl, data, statusTd, q, ?_, htail,
          hhead₃, ?_, ?_⟩⟩
        · rw [hframe₃, hframe₂, hframe]
        · rw [hinit]
        · rw [happ₃.new]
          exact ⟨rfl, rfl⟩
        · refine CoversBuffer.of_unlinked ?_
          rw [List.map_map]
          have hsame : data.map (TdDescriptor.unlinked ∘ t₃.td) =
              data.map fun a => (t₁.td a).unlinked := by
            refine List.map_congr_left fun a ha => ?_
            have hin : a ∈ init ++ [z] := by
              rw [← hinit]
              exact List.mem_append_right _ ha
            exact (happ₃.same a (List.mem_append_left _ hin)).trans (happ.same a hin)
          rw [hsame, hsplit.tds_eq]
          exact hcovers
  · change status = .outOfResources at hstatus
    subst hstatus
    exact ⟨_, t₁, _, hrun.trans rfl, hstaged, .inl rfl⟩

/-! ## Handing the list to the controller -/

structure ControlSubmitted (t : HcDev) (ed headTd : Nat) (tds : List Nat) (t' : HcDev) : Prop where
  frame : t' = { t with
    ed := t'.ed
    td := t'.td
    controlEnable := t'.controlEnable
    listFilled := t'.listFilled
    rung := t'.rung }
  pointer : Linked TdDescriptor.nextTDPointer (fun a => some (t'.td a)) headTd tds
  rung : t'.rung = t.rung ∨ ∃ g, t'.rung = g :: t.rung ∧ g.head = t.controlHead ∧ g.td = t.td ∧
    g.ed ed = ohciSetEDField .skip 0 (t.ed ed)

theorem controlSubmit_ret (ed : Nat)
    (hlist : Linked TdDescriptor.nextTDPointer (fun a => some (t.td a)) headTd (tds ++ [z]))
    (hlen : tds.length < walkLimit) :
    ∃ r t', controlSubmit pf p ed headTd t = .ret r t' ∧
      ControlSubmitted t ed headTd (tds ++ [z]) t' := by
  have hskip : modifyEd ed (ohciSetEDField .skip 0) t = .ret () { t with
      ed := Function.update t.ed ed (ohciSetEDField .skip 0 (t.ed ed)) } := rfl
  have hself : Function.update t.ed ed (ohciSetEDField .skip 0 (t.ed ed)) ed =
      ohciSetEDField .skip 0 (t.ed ed) := Function.update_self _ _ _
  unfold controlSubmit
  rw [bind_of_ret hskip]
  cases henable : pf.write .enableList with
  | false =>
    have hen : ohciSetHcControl false .controlList true { t with
        ed := Function.update t.ed ed (ohciSetEDField .skip 0 (t.ed ed)) } = .ret .deviceError { t with
        ed := Function.update t.ed ed (ohciSetEDField .skip 0 (t.ed ed)) } := rfl
    exact ⟨_, _, (bind_of_ret hen).trans rfl, rfl, hlist, .inl rfl⟩
  | true =>
    have hen : ohciSetHcControl true .controlList true { t with
        ed := Function.update t.ed ed (ohciSetEDField .skip 0 (t.ed ed)) } = .ret .success { t with
        ed := Function.update t.ed ed (ohciSetEDField .skip 0 (t.ed ed))
        controlEnable := true } := rfl
    rw [bind_of_ret hen, if_neg (by decide)]
    cases hfill : pf.write .setFilled with
    | false =>
      have hset : ohciSetHcCommandStatus false .controlList true { t with
          ed := Function.update t.ed ed (ohciSetEDField .skip 0 (t.ed ed))
          controlEnable := true } = .ret .deviceError _ := rfl
      exact ⟨_, _, (bind_of_ret hset).trans rfl, rfl, hlist, .inl rfl⟩
    | true =>
      have hset : ohciSetHcCommandStatus true .controlList true { t with
          ed := Function.update t.ed ed (ohciSetEDField .skip 0 (t.ed ed))
          controlEnable := true } = .ret .success { t with
          ed := Function.update t.ed ed (ohciSetEDField .skip 0 (t.ed ed))
          controlEnable := true
          listFilled := true
          rung := ⟨t.controlHead, Function.update t.ed ed (ohciSetEDField .skip 0 (t.ed ed)), t.td⟩ ::
            t.rung } := rfl
      rw [bind_of_ret hset, if_neg (by decide)]
      obtain ⟨l, t', hwait, hstate, -⟩ :=
        returns_of_wp (wp_waitIfDone ed 0 pf.look p.timeOut
          (t := { t with
            ed := Function.update t.ed ed (ohciSetEDField .skip 0 (t.ed ed))
            controlEnable := true
            listFilled := true
            rung := ⟨t.controlHead, Function.update t.ed ed (ohciSetEDField .skip 0 (t.ed ed)),
              t.td⟩ :: t.rung }) hlist hlen)
      refine ⟨_, t', (bind_of_ret hwait).trans rfl, ?_, ?_, .inr ⟨_, by rw [hstate]; rfl, rfl, rfl,
        hself⟩⟩
      · rw [hstate]
        rfl
      · rw [hstate]
        exact look_linked _ hlist

end


/-! ## From the mappings on -/

/-- What a part of a control transfer has done. It comes to detaching the ED if `reached`. -/
structure ControlDone (pf : Platform) (p : ControlRequest) (pool₀ : MemPool) (h : Held)
    (reached : Prop) (t t' : HcDev) : Prop where
  pool : Grown pool₀ [] t'.memPool
  mappings : t'.mappings =
    if h.reqMapping ≠ 0 then t.mappings.erase h.reqMapping else t.mappings
  poolMemory : t'.poolMemory = t.poolMemory
  head : t'.head h.list = 0 ∨ t'.head h.list = t.head h.list
  detached : reached → h.headEd = h.ed → pf.write .detachHead = true → t'.head h.list = 0
  otherHead : ∀ list, list ≠ h.list → t'.head list = t.head list
  rung : t'.rung = t.rung ∨ ∃ g mapped setupTd data statusTd q, p.dataAnswer pf = .ok mapped ∧
    t'.rung = g :: t.rung ∧ g.head = t.controlHead ∧
    ExactList g h.ed [setupTd] data [statusTd] q mapped p.maxPacketLength 1

section

variable (asserts : Bool) (pf : Platform) {p : ControlRequest} {pool₀ : MemPool} {h : Held}
  {s t : HcDev}

theorem controlOut_ret {m : Mapped} {t₁ : HcDev} {tds : List Nat} {r : TransferResult}
    (hmap : p.dataAnswer pf = .ok m)
    (hlist : Linked TdDescriptor.nextTDPointer (fun a => some (t₁.td a)) h.headTd tds)
    (hlen : tds.length < walkLimit)
    (hgrown : Grown pool₀ (tds.map tdUnit ++ [edUnit h.ed]) t₁.memPool)
    (hmappings : t₁.mappings = addMapping m.mapping t.mappings)
    (hmemory : t₁.poolMemory = t.poolMemory) (hheads : ∀ list, t₁.head list = t.head list)
    (hrung : t₁.rung = t.rung ∨ ∃ g setupTd data statusTd q, t₁.rung = g :: t.rung ∧
      g.head = t.controlHead ∧ ExactList g h.ed [setupTd] data [statusTd] q m p.maxPacketLength 1) :
    ∃ t', (do
        unmapDataBuff asserts pf { h with dataMapping := m.mapping }
        pure r : Exec HcDev TransferResult) t₁ = .ret r t' ∧
      ControlDone pf p pool₀ h (p.DataMapped pf) t t' := by
  obtain ⟨t', hout, hunwound, hunmapped⟩ := unmapDataBuff_ret asserts pf
    (h := { h with dataMapping := m.mapping }) hlist hlen hgrown
  have hframe := hunwound.frame
  refine ⟨t', (bind_of_ret hout).trans rfl, hunwound.pool, ?_, ?_, ?_,
    fun _ => hunwound.detached, fun list hne => ?_, ?_⟩
  · have hback := erase_addMapping m.mapping t.mappings
    rw [← hmappings] at hback
    rw [hunmapped]
    dsimp only
    rw [hback]
  · rw [hframe]
    exact hmemory
  · rw [← hheads h.list]
    exact hunwound.head
  · rw [hunwound.otherHead list hne, hheads]
  · have hsame : t'.rung = t₁.rung := by rw [hframe]
    rw [hsame]
    rcases hrung with hrung | ⟨g, setupTd, data, statusTd, q, hg, hhead, hexact⟩
    · exact .inl hrung
    · exact .inr ⟨g, m, setupTd, data, statusTd, q, hmap, hg, hhead, hexact⟩

theorem mapControlData_ret (p : ControlRequest) (pf : Platform) (t : HcDev) :
    mapControlData pf p t = match p.dataAnswer pf with
      | .error status => .ret (.error status) t
      | .ok m => .ret (.ok m) { t with mappings := addMapping m.mapping t.mappings } := by
  unfold mapControlData ControlRequest.dataAnswer
  by_cases hdata : p.data ≠ 0 ∧ p.dataLength.getD 0 ≠ 0
  · rw [if_pos hdata, if_pos hdata]
    cases pf.mapData (if p.transferDirection = .dataIn then .busMasterWrite else .busMasterRead)
      p.data (p.dataLength.getD 0) with
    | error status => rfl
    | ok m => exact map_ret m t
  · rw [if_neg hdata, if_neg hdata]
    rfl

theorem controlData_ret (hbelow : p.DataBelow pf)
    (hallowed : packetLengthAllowed p.maxPacketLength = true)
    (howns : Owns pf.buffer pool₀ 2 ([h.headTd].map tdUnit ++ [edUnit h.ed]) t.memPool)
    (hlist : TdList t.td h.headTd [h.headTd]) (hed : (t.ed h.ed).tdHeadPointer = 0) :
    ∃ r t', controlData asserts pf p h t = .ret r t' ∧ ControlDone pf p pool₀ h (p.DataMapped pf) t t' := by
  have hanswer := mapControlData_ret p pf t
  cases hmap : p.dataAnswer pf with
  | error status =>
    rw [hmap] at hanswer
    obtain ⟨pool', hout, hgrown⟩ := freeTdBuff_ret asserts (h := h) hlist.pointer
      hlist.length_lt howns.grown
    refine ⟨p.failed status, { t with
        memPool := pool'
        mappings := if h.reqMapping ≠ 0 then t.mappings.erase h.reqMapping else t.mappings },
      (bind_of_ret hanswer).trans ((bind_of_ret hout).trans rfl), hgrown, rfl, rfl,
      .inr (head_eq rfl rfl h.list), ?_, fun list _ => ?_, .inl rfl⟩
    · rintro ⟨m, hm⟩
      rw [hmap] at hm
      cases hm
    · exact head_eq rfl rfl list
  | ok m =>
    rw [hmap] at hanswer
    have hrun : controlData asserts pf p h t = _ := bind_of_ret hanswer
    obtain ⟨status, t₁, tds, hstages, hstaged, hr⟩ := controlStages_ret asserts
      pf h.ed (p := p) (t := { t with mappings := addMapping m.mapping t.mappings })
      (hbelow m hmap) hallowed howns hlist hed
    have hframe := hstaged.frame
    have hheads : ∀ list, t₁.head list = t.head list := by
      intro list
      rw [hframe]
      cases list <;> rfl
    rcases hr with rfl | ⟨rfl, data, statusTd, q, hcomplete⟩
    · obtain ⟨t', hout, hdone⟩ := controlOut_ret asserts pf
        (r := p.failed .outOfResources) hmap hstaged.list.pointer hstaged.list.length_lt
        hstaged.grown (by rw [hframe]) (by rw [hframe]) hheads (.inl (by rw [hframe]))
      exact ⟨_, t', hrun.trans ((bind_of_ret hstages).trans hout), hdone⟩
    · have hlist₁ := hstaged.list
      have hgrown₁ := hstaged.grown
      have hlen₁ := hlist₁.length_lt
      have htds := hcomplete.tds_eq
      have hlen : ([h.headTd] ++ data ++ [statusTd]).length < walkLimit := by
        rw [htds, List.length_append] at hlen₁
        omega
      have hpointer := hlist₁.pointer
      rw [htds] at hpointer
      obtain ⟨r, t₂, hsubmit, hsubmitted⟩ := controlSubmit_ret pf h.ed (p := p)
        hpointer hlen
      have hframe₂ := hsubmitted.frame
      have hpointer₂ := hsubmitted.pointer
      rw [← htds] at hpointer₂
      have hmem : t₂.memPool = t₁.memPool := by rw [hframe₂]
      have hexact : ∀ g : Schedule, g.td = t₁.td → g.ed h.ed = ohciSetEDField .skip 0 (t₁.ed h.ed) →
          ExactList g h.ed [h.headTd] data [statusTd] q m p.maxPacketLength 1 := by
        intro g hgtd hged
        have hheadTd : 16 * (g.ed h.ed).tdHeadPointer = h.headTd := by
          rw [hged]
          show 16 * (t₁.ed h.ed).tdHeadPointer = h.headTd
          rw [hcomplete.head]
          have hin : h.headTd ∈ tds := by rw [htds]; simp
          exact head_aligned hgrown₁ (List.mem_append_left _ (List.mem_map_of_mem hin))
            (hlist₁.below _ hin)
        refine ⟨?_, ?_, ?_, ?_⟩
        · rw [hheadTd, hgtd, ← htds]
          exact hlist₁
        · rw [hged]
          exact hcomplete.tail
        · rw [hgtd]
          exact hcomplete.emptyTd
        · rw [hgtd]
          exact hcomplete.covers
      obtain ⟨t', hout, hdone⟩ := controlOut_ret asserts pf (t := t) (r := r)
        hmap hpointer₂ hlen₁ (by rw [hmem]; exact hgrown₁) (by rw [hframe₂, hframe])
        (by rw [hframe₂, hframe]) (fun list => by
          rw [hframe₂]
          have := hheads list
          cases list <;> exact this) (by
          rcases hsubmitted.rung with hrung | ⟨g, hrung, hghead, hgtd, hged⟩
          · exact .inl (by rw [hrung, hframe])
          · refine .inr ⟨g, h.headTd, data, statusTd, q, by rw [hrung, hframe], ?_, hexact g hgtd hged⟩
            rw [hghead, hframe])
      exact ⟨_, t', hrun.trans ((bind_of_ret hstages).trans ((bind_of_ret hsubmit).trans hout)), hdone⟩

/-! ## The pool with one unit left -/

def OneUnitLeft (pool : MemPool) : Prop :=
  ∃ x, (∃ b ∈ pool, ∃ k, b.Free k 1 ∧ b.unitAddress k = x) ∧
    ∀ b ∈ pool, ∀ k, b.Free k 1 → b.unitAddress k = x

theorem edUnit_len (ed : Nat) : (edUnit ed).len = usbHcMemUnit := by
  show usbHcMemRound 16 = 64
  decide

theorem edUnit_covers {b : MemBlock} {ed k : Nat} (hb : b.Sound) (halign : ed % usbHcMemUnit = 0)
    (hcovers : (edUnit ed).Covers (b.unitAddress k)) : b.unitAddress k = ed := by
  obtain ⟨hlow, hhigh⟩ := hcovers
  rw [edUnit_len] at hhigh
  have hhost := hb.aligned
  unfold MemBlock.unitAddress at *
  change ed ≤ b.bufHost + 64 * k at hlow
  change b.bufHost + 64 * k < ed + 64 at hhigh
  change ed % 64 = 0 at halign
  change b.bufHost % 64 = 0 at hhost
  show b.bufHost + 64 * k = ed
  omega

theorem unitAddress_of_full {b₀ b : MemBlock} {ed k : Nat} (h : Loaded [edUnit ed] b₀ b) (hb : b.Sound)
    (halign : ed % usbHcMemUnit = 0) (hfull : ∀ k, ¬ b.Free k 1) (hfree : b₀.Free k 1) :
    b₀.unitAddress k = ed := by
  have hclear := hfree.2 k (Nat.le_refl k) (Nat.lt_succ_self k)
  have hunits : b.units = b₀.units := by
    unfold MemBlock.units
    rw [h.bitsLen]
  have hset : b.isSet k = true := by
    by_contra hne
    refine hfull k ⟨by rw [hunits]; exact hfree.1, fun i hlow hhigh => ?_⟩
    rw [show i = k by omega]
    exact Bool.eq_false_iff.mpr hne
  have haddr : b₀.unitAddress k = b.unitAddress k := by
    unfold MemBlock.unitAddress
    rw [h.bufHost]
  rcases (h.isSet k).mp hset with hset₀ | ⟨-, a, ha, hcovers⟩
  · rw [hclear] at hset₀
    cases hset₀
  · rw [List.mem_singleton.mp ha] at hcovers
    rw [haddr]
    exact edUnit_covers hb halign hcovers

theorem oneUnitLeft_of_full {pool₀ pool : MemPool} {ed : Nat} (hgrown : Grown pool₀ [edUnit ed] pool)
    (hfull : ∀ b ∈ pool, ∀ k, ¬ b.Free k 1) : OneUnitLeft pool₀ := by
  obtain ⟨base, hbase, rfl⟩ := hgrown.loaded
  obtain ⟨b, hb, hinside⟩ := hgrown.inside _ List.mem_cons_self
  have halign : ed % usbHcMemUnit = 0 := hinside.aligned
  have hsub : ∀ b₀ ∈ trimmed base, b₀ ∈ base := by
    intro b₀ hb₀
    cases base with
    | nil => exact hb₀
    | cons head next =>
      rcases List.mem_cons.mp hb₀ with rfl | hb₀
      · exact List.mem_cons_self
      · exact List.mem_cons_of_mem head (List.mem_of_mem_filter hb₀)
  refine ⟨ed, ?_, fun b₀ hb₀ k hfree => ?_⟩
  · -- the ED is in a block that was not empty before, or the first one
    obtain ⟨before, behind, rfl⟩ := List.append_of_mem hb
    obtain ⟨x, b₀, z, rfl, hx, hloaded, -⟩ := forall₂_split hbase
    have hsound := hgrown.sound.blocks b hb
    obtain ⟨k, n, hmem, hlen, hunits, hn⟩ := hinside.units hsound
    have hunits₀ : b.units = b₀.units := by
      unfold MemBlock.units
      rw [hloaded.bitsLen]
    have hfree : ∀ i < b.units, b₀.isSet i = false → b₀.Free i 1 := by
      intro i hi hclear
      refine ⟨by rw [← hunits₀]; exact hi, fun j hlow hhigh => ?_⟩
      rw [show j = i by omega]
      exact hclear
    have hk : k < b.units := by omega
    have hcovers : (edUnit ed).Covers (b.unitAddress k) := by
      refine ⟨Nat.le_of_eq hmem, ?_⟩
      rw [← hmem, edUnit_len]
      change ed < ed + 64
      omega
    have hclear := hloaded.free k hk ⟨_, List.mem_cons_self, hcovers⟩
    have hkept : b₀ ∈ trimmed (x ++ b₀ :: z) := by
      by_contra hdropped
      have hempty : ¬ b₀.InUse := by
        intro huse
        refine hdropped ?_
        cases x with
        | nil => exact List.mem_cons_self
        | cons head x =>
          refine List.mem_cons_of_mem head (List.mem_filter.mpr ⟨?_, decide_eq_true huse⟩)
          exact List.mem_append_right x List.mem_cons_self
      have hzero : ∀ i < b.units, b₀.isSet i = false := by
        intro i hi
        have hbytes := not_not.mp hempty
        unfold usbHcIsMemBlockEmpty at hbytes
        unfold MemBlock.isSet
        rw [of_decide_eq_true hbytes (i / 8) (by unfold MemBlock.units at hunits₀ hi; omega)]
        simp
      have heq : ∀ i < b.units, b₀.unitAddress i = ed := fun i hi =>
        unitAddress_of_full hloaded hsound halign (hfull b hb) (hfree i hi (hzero i hi))
      have hmany : 8 ≤ b.units := by
        unfold MemBlock.units at hk ⊢
        omega
      have h₀ := heq 0 (by omega)
      have h₁ := heq 1 (by omega)
      unfold MemBlock.unitAddress at h₀ h₁
      change b₀.bufHost + 64 * 0 = ed at h₀
      change b₀.bufHost + 64 * 1 = ed at h₁
      omega
    refine ⟨b₀, hkept, k, hfree k hk hclear, ?_⟩
    unfold MemBlock.unitAddress
    rw [← hloaded.bufHost]
    exact hmem.symm
  · obtain ⟨x, z, rfl⟩ := List.append_of_mem (hsub b₀ hb₀)
    obtain ⟨y, b, w, hsplit, -, hloaded, -⟩ := forall₂_split hbase.flip
    have hmem : b ∈ pool := by
      rw [hsplit]
      exact List.mem_append_right y List.mem_cons_self
    exact unitAddress_of_full hloaded (hgrown.sound.blocks b hmem) halign (hfull b hmem) hfree

/-! ## The whole transfer -/

/-- What it takes for a control transfer to come to detaching its ED, once that is on the list. -/
structure ControlRequest.Detaches (pf : Platform) (p : ControlRequest) (pool : MemPool) : Prop where
  request : ∃ m, p.requestAnswer pf = .ok m
  setupTd : ¬ (OneUnitLeft pool ∧ pf.buffer 1 = none)
  data : p.DataMapped pf

theorem controlSetup_ret (hbelow : p.DataBelow pf)
    (hallowed : packetLengthAllowed p.maxPacketLength = true)
    (hreq : h.reqMapping = 0) (howns : Owns pf.buffer pool₀ 1 [edUnit h.ed] t.memPool)
    (hed : (t.ed h.ed).tdHeadPointer = 0) :
    ∃ r t', controlSetup asserts pf p h t = .ret r t' ∧
      ControlDone pf p pool₀ h (p.Detaches pf pool₀) t t' := by
  have hback : (if h.reqMapping ≠ 0 then t.mappings.erase h.reqMapping else t.mappings) =
      t.mappings := if_neg (not_not.mpr hreq)
  cases hmap : p.requestAnswer pf with
  | error status =>
    have hanswer : map (p.requestAnswer pf) t = .ret (.error status) t := by rw [hmap]; rfl
    obtain ⟨pool', hfree, hgrown⟩ := freeEdBuff_ret asserts (h := h) howns.grown
    refine ⟨p.failed status, { t with memPool := pool' },
      (bind_of_ret hanswer).trans ((bind_of_ret hfree).trans rfl), hgrown, hback.symm, rfl,
      .inr (head_eq rfl rfl h.list), fun hd => ?_, fun list _ => head_eq rfl rfl list, .inl rfl⟩
    obtain ⟨m, hm⟩ := hd.request
    rw [hmap] at hm
    cases hm
  | ok m =>
    have hanswer : map (p.requestAnswer pf) t = .ret (.ok m) { t with
        mappings := addMapping m.mapping t.mappings } := by
      rw [hmap]
      exact map_ret m t
    have hrun : controlSetup asserts pf p h t = _ := bind_of_ret hanswer
    obtain ⟨setupTd, t₁, hcreate, hr⟩ := ohciCreateTD_ret asserts (t := { t with
      mappings := addMapping m.mapping t.mappings }) howns
    rcases hr with ⟨rfl, rfl, hnone⟩ | ⟨hne, hlt, -, pool', rfl, howns'⟩
    · obtain ⟨pool', hout, hgrown⟩ := unmapSetupBuff_ret asserts
        (h := { h with reqMapping := m.mapping }) (t := { t with
          mappings := addMapping m.mapping t.mappings }) howns.grown
      refine ⟨p.failed .outOfResources, { t with
          memPool := pool'
          mappings := if m.mapping ≠ 0 then (addMapping m.mapping t.mappings).erase m.mapping
            else addMapping m.mapping t.mappings },
        hrun.trans ((bind_of_ret hcreate).trans ((bind_of_ret hout).trans rfl)), hgrown, ?_, rfl,
        .inr (head_eq rfl rfl h.list), fun hd => ?_, fun list _ => head_eq rfl rfl list, .inl rfl⟩
      · rw [hback]
        exact erase_addMapping m.mapping t.mappings
      · exact absurd ⟨oneUnitLeft_of_full howns.grown hnone.full, hnone.buffer⟩ hd.setupTd
    · have hmod : modifyTd setupTd (setupTdFields m.phyAddr) { t with
          memPool := pool'
          td := Function.update t.td setupTd zeroTd
          mappings := addMapping m.mapping t.mappings } = .ret () { t with
          memPool := pool'
          td := Function.update t.td setupTd (setupTdFields m.phyAddr zeroTd)
          mappings := addMapping m.mapping t.mappings } := by
        unfold modifyTd
        show Outcome.ret () _ = _
        simp only [Function.update_self, Function.update_idem]
      have hself : Function.update t.td setupTd (setupTdFields m.phyAddr zeroTd) setupTd =
          setupTdFields m.phyAddr zeroTd := Function.update_self _ _ _
      have hlist : TdList (Function.update t.td setupTd (setupTdFields m.phyAddr zeroTd)) setupTd
          [setupTd] := by
        refine ⟨⟨rfl, hne, _, rfl, ?_⟩, ⟨rfl, hne, _, rfl, ?_⟩, fun a ha => ?_⟩
        · rw [hself]
          rfl
        · rw [hself]
          rfl
        · rw [List.mem_singleton.mp ha]
          exact hlt
      obtain ⟨r, t', hdata, hdone⟩ := controlData_ret asserts pf (p := p)
        (h := { h with
          reqMapping := m.mapping
          headTd := setupTd }) (t := { t with
          memPool := pool'
          td := Function.update t.td setupTd (setupTdFields m.phyAddr zeroTd)
          mappings := addMapping m.mapping t.mappings }) hbelow hallowed howns' hlist hed
      refine ⟨r, t', hrun.trans ((bind_of_ret hcreate).trans ?_), hdone.pool, ?_, hdone.poolMemory, ?_,
        fun hd => hdone.detached hd.data, fun list hne => ?_, hdone.rung⟩
      · rw [if_neg hne]
        exact (bind_of_ret hmod).trans hdata
      · rw [hback, hdone.mappings]
        exact erase_addMapping m.mapping t.mappings
      · exact hdone.head
      · exact hdone.otherHead list hne

/-- A control transfer leaves its ED on the list: it gets as far as attaching it, and it does not come to
detaching it or the head cannot be written then. -/
structure ControlRequest.Strands (pf : Platform) (p : ControlRequest) (s : HcDev) : Prop where
  valid : p.invalid = false
  opens : Opens pf s
  attached : pf.write .attachHead = true
  stuck : ¬ p.Detaches pf s.memPool ∨ pf.write .detachHead = false

structure ControlOutcome (pf : Platform) (p : ControlRequest) (s t : HcDev) : Prop where
  restored : Restored s t
  heads : HeadsKept .controlList (p.Strands pf s) s t
  rung : t.rung = s.rung ∨ ∃ g ed mapped setupTd data statusTd q, p.dataAnswer pf = .ok mapped ∧
    t.rung = g :: s.rung ∧
    ((pf.write .clearHead = true ∨ s.controlHead = 0) → pf.write .attachHead = true → g.head = ed) ∧
    ExactList g ed [setupTd] data [statusTd] q mapped p.maxPacketLength 1

theorem ControlRequest.of_valid {p : ControlRequest} (h : p.invalid = false) :
    packetLengthAllowed p.maxPacketLength = true := by
  unfold ControlRequest.invalid at h
  cases hlen : p.dataLength with
  | none => rw [hlen] at h; cases h
  | some dataLength =>
    rw [hlen] at h
    simp only [decide_eq_false_iff_not, not_or, not_not] at h
    exact h.2.2.2.2.2.2.1

theorem ohciControlTransfer_ret {s : HcDev} (p : ControlRequest) (hstart : TransferStart pf s)
    (hbelow : p.DataBelow pf) :
    ∃ r t, ohciControlTransfer asserts pf p s = .ret r t ∧ ControlOutcome pf p s t := by
  unfold ohciControlTransfer
  by_cases hinvalid : p.invalid = true
  · rw [if_pos hinvalid]
    exact ⟨_, s, rfl, Restored.refl s, ⟨fun hzero _ => hzero, fun _ _ => rfl⟩, .inl rfl⟩
  · rw [if_neg hinvalid]
    have hvalid := Bool.eq_false_iff.mpr hinvalid
    have hallowed := ControlRequest.of_valid hvalid
    refine withEd_ret asserts pf .controlList hstart (fun e => rfl) (fun r t ht => ?_)
      fun headEd ed t₁ hopened => ?_
    · exact ⟨ht.restored, ⟨fun hzero _ => ht.empty hzero, ht.otherHead⟩, .inl ht.rung⟩
    · obtain ⟨r, t, hdata, hdone⟩ := controlSetup_ret asserts pf (p := p)
        (h := ⟨.controlList, headEd, ed, 0, 0, 0⟩) hbelow hallowed rfl hopened.owns hopened.noTds
      refine ⟨r, t, hdata, ⟨hdone.pool.eq_of_nil, ?_, ?_⟩, ⟨fun hzero hstrands => ?_,
        fun list' hne => ?_⟩, ?_⟩
      · have hmappings : t.mappings = t₁.mappings := hdone.mappings
        rw [hmappings, hopened.mappings]
      · rw [hdone.poolMemory, hopened.poolMemory]
      · obtain ⟨heq, hhead⟩ := hopened.head (.inr hzero)
        rcases hdone.head with hd | hd
        · exact hd
        · change t.head .controlList = t₁.head .controlList at hd
          by_cases hatt : pf.write .attachHead = true
          · have hdet : p.Detaches pf s.memPool := by
              by_contra hno
              exact hstrands ⟨hvalid, hopened.opens, hatt, .inl hno⟩
            have hok : pf.write .detachHead = true := by
              by_contra hno
              exact hstrands ⟨hvalid, hopened.opens, hatt, .inr (Bool.eq_false_iff.mpr hno)⟩
            exact hdone.detached hdet heq hok
          · rw [hd, hhead, if_neg hatt]
      · exact (hdone.otherHead list' hne).trans (hopened.otherHead list' hne)
      · rcases hdone.rung with hrung | ⟨g, m, setupTd, data, statusTd, q, hm, hg, hghead, hexact⟩
        · exact .inl (hrung.trans hopened.rung)
        · refine .inr ⟨g, ed, m, setupTd, data, statusTd, q, hm, by rw [hg, hopened.rung],
            fun hclr hatt => ?_, hexact⟩
          have hhead := (hopened.head hclr).2
          rw [if_pos hatt] at hhead
          exact hghead.trans hhead

end

end Quark.Ohci.Transfer
