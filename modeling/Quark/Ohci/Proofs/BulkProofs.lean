import Quark.Ohci.Proofs.StageProofs

/-!
# Bulk transfers

What `OhciBulkTransfer` gives to the controller, what it reports, and what it leaves behind.
-/

namespace Quark.Ohci.Transfer

open Machine Exec

/-! ## What a transfer leaves behind -/

/-- What has been held is given back, and the head of the list is `NULL` if it was the ED's. -/
structure Unwound (pf : Platform) (pool₀ : MemPool) (h : Held) (t t' : HcDev) : Prop where
  pool : Grown pool₀ [] t'.memPool
  frame : t' = { t with
    memPool := t'.memPool
    ed := t'.ed
    controlHead := t'.controlHead
    bulkHead := t'.bulkHead
    mappings := t'.mappings }
  head : t'.head h.list = 0 ∨ t'.head h.list = t.head h.list
  detached : h.headEd = h.ed → pf.write .detachHead = true → t'.head h.list = 0
  otherHead : ∀ list, list ≠ h.list → t'.head list = t.head list

/-- What a bulk transfer makes of the toggle, by what the controller had done at the last look: the memory
`td` and the list-filled bit. -/
def BulkReport (pf : Platform) (firstToggle : Nat) (data : List Nat) (r : TransferResult)
    (td : Nat → TdDescriptor) (listFilled : Bool) : Prop :=
  ∃ toggle result, result = (if listFilled then ⟨tdTobeProcessed, toggle⟩ else edResult td data toggle) ∧
    r.dataToggle = (if result.errorCode ≠ tdNoError ∧ result.errorCode ≠ tdTobeProcessed
      then some result.nextToggle else some (firstToggle ^^^ (data.length % 2))) ∧
    (Steady pf.look data → (∀ a ∈ data.head?, (td a).conditionCode ≠ 0) → toggle = firstToggle)

section

variable (asserts : Bool) (pf : Platform) {p : BulkRequest} {pool₀ : MemPool} {h : Held} {t : HcDev}
  {tds data : List Nat} {headTd ed q firstToggle dataToggle : Nat}

theorem freeOhciTdBuff_ret
    (hlist : Linked TdDescriptor.nextTDPointer (fun a => some (t.td a)) h.headTd tds)
    (hlen : tds.length < walkLimit)
    (hgrown : Grown pool₀ (tds.map tdUnit ++ [edUnit h.ed]) t.memPool) :
    ∃ t', freeOhciTdBuff asserts pf h t = .ret () t' ∧ Unwound pf pool₀ h t t' ∧
      t'.mappings = if h.dataMapping ≠ 0 then t.mappings.erase h.dataMapping else t.mappings := by
  obtain ⟨t₁, hdetach, hframe, hkept, hhead, hother⟩ :=
    detachED_ret (pf.write .detachHead) h.list h.headEd h.ed t
  have htd : t₁.td = t.td := by rw [hframe]
  have hpool : t₁.memPool = t.memPool := by rw [hframe]
  rw [← htd] at hlist
  rw [← hpool] at hgrown
  obtain ⟨pool₂, hfree, hgrown₂⟩ := freeTds_free asserts hlist hlen hgrown
  have hunmap := unmap_ret h.dataMapping { t₁ with memPool := pool₂ }
  obtain ⟨pool₃, hed, hgrown₃⟩ := freeEdBuff_ret asserts (h := h)
    (t := { t₁ with
      memPool := pool₂
      mappings := if h.dataMapping ≠ 0 then t₁.mappings.erase h.dataMapping else t₁.mappings }) hgrown₂
  have hsame : ∀ list, ({ t₁ with
      memPool := pool₃
      mappings := if h.dataMapping ≠ 0 then t₁.mappings.erase h.dataMapping else t₁.mappings } :
      HcDev).head list = t₁.head list := fun list => head_eq rfl rfl list
  refine ⟨_, (bind_of_ret hdetach).trans ((bind_of_ret hfree).trans ((bind_of_ret hunmap).trans hed)),
    ⟨hgrown₃, ?_, ?_, fun heq hok => (hsame h.list).trans (hhead heq hok),
      fun list hne => (hsame list).trans (hother list hne)⟩, ?_⟩
  · rw [hframe]
  · rw [hsame h.list]
    exact hkept
  · show (if h.dataMapping ≠ 0 then t₁.mappings.erase h.dataMapping else t₁.mappings) = _
    rw [hframe]

structure BulkSubmitted (pf : Platform) (t : HcDev) (ed headTd firstToggle dataToggle : Nat)
    (data : List Nat) (q : Nat) (r : TransferResult) (t' : HcDev) : Prop where
  frame : t' = { t with
    ed := t'.ed
    td := t'.td
    bulkEnable := t'.bulkEnable
    listFilled := t'.listFilled
    rung := t'.rung }
  pointer : Linked TdDescriptor.nextTDPointer (fun a => some (t'.td a)) headTd (data ++ [q])
  rung : t'.rung = t.rung ∨ ∃ g, t'.rung = g :: t.rung ∧ g.head = t.bulkHead ∧ g.td = t.td ∧
    g.ed ed = ohciSetEDField .skip 0 (t.ed ed) ∧
    (pf.write .enableList = true → dataToggle = firstToggle ^^^ (data.length % 2) →
      BulkReport pf firstToggle data r t'.td t'.listFilled)

theorem bulkSubmit_ret (ed firstToggle dataToggle : Nat)
    (hlist : Linked TdDescriptor.nextTDPointer (fun a => some (t.td a)) headTd (data ++ [q]))
    (hlen : data.length < walkLimit) :
    ∃ r t', bulkSubmit pf p ed headTd firstToggle dataToggle t = .ret r t' ∧
      BulkSubmitted pf t ed headTd firstToggle dataToggle data q r t' := by
  have hskip : modifyEd ed (ohciSetEDField .skip 0) t = .ret () { t with
      ed := Function.update t.ed ed (ohciSetEDField .skip 0 (t.ed ed)) } := rfl
  unfold bulkSubmit
  rw [bind_of_ret hskip]
  cases hfill : pf.write .setFilled with
  | false =>
    have hset : ohciSetHcCommandStatus false .bulkList true { t with
        ed := Function.update t.ed ed (ohciSetEDField .skip 0 (t.ed ed)) } = .ret .deviceError { t with
        ed := Function.update t.ed ed (ohciSetEDField .skip 0 (t.ed ed)) } := rfl
    exact ⟨_, _, (bind_of_ret hset).trans rfl, rfl, hlist, .inl rfl⟩
  | true =>
    have hset : ohciSetHcCommandStatus true .bulkList true { t with
        ed := Function.update t.ed ed (ohciSetEDField .skip 0 (t.ed ed)) } = .ret .success { t with
        ed := Function.update t.ed ed (ohciSetEDField .skip 0 (t.ed ed))
        listFilled := true
        rung := ⟨t.bulkHead, Function.update t.ed ed (ohciSetEDField .skip 0 (t.ed ed)), t.td⟩ ::
          t.rung } := rfl
    rw [bind_of_ret hset, if_neg (by decide)]
    have hself : Function.update t.ed ed (ohciSetEDField .skip 0 (t.ed ed)) ed =
        ohciSetEDField .skip 0 (t.ed ed) := Function.update_self _ _ _
    cases henable : pf.write .enableList with
    | false =>
      have hen : ohciSetHcControl false .bulkList true { t with
          ed := Function.update t.ed ed (ohciSetEDField .skip 0 (t.ed ed))
          listFilled := true
          rung := ⟨t.bulkHead, Function.update t.ed ed (ohciSetEDField .skip 0 (t.ed ed)), t.td⟩ ::
            t.rung } = .ret .deviceError _ := rfl
      refine ⟨_, _, (bind_of_ret hen).trans rfl, rfl, hlist, .inr ⟨_, rfl, rfl, rfl, hself, ?_⟩⟩
      intro h
      rw [henable] at h
      cases h
    | true =>
      have hen : ohciSetHcControl true .bulkList true { t with
          ed := Function.update t.ed ed (ohciSetEDField .skip 0 (t.ed ed))
          listFilled := true
          rung := ⟨t.bulkHead, Function.update t.ed ed (ohciSetEDField .skip 0 (t.ed ed)), t.td⟩ ::
            t.rung } = .ret .success { t with
          ed := Function.update t.ed ed (ohciSetEDField .skip 0 (t.ed ed))
          listFilled := true
          bulkEnable := true
          rung := ⟨t.bulkHead, Function.update t.ed ed (ohciSetEDField .skip 0 (t.ed ed)), t.td⟩ ::
            t.rung } := rfl
      rw [bind_of_ret hen, if_neg (by decide)]
      obtain ⟨l, t', hwait, hstate, toggle, hresult, hsteady⟩ :=
        returns_of_wp (wp_waitIfDone ed firstToggle pf.look p.timeOut
          (t := { t with
            ed := Function.update t.ed ed (ohciSetEDField .skip 0 (t.ed ed))
            listFilled := true
            bulkEnable := true
            rung := ⟨t.bulkHead, Function.update t.ed ed (ohciSetEDField .skip 0 (t.ed ed)), t.td⟩ ::
              t.rung }) hlist hlen)
      refine ⟨_, t', (bind_of_ret hwait).trans rfl, ?_, ?_, .inr ⟨_, by rw [hstate]; rfl, rfl, rfl,
        hself, fun _ hdata => ⟨toggle, l.edResult, ?_, ?_, fun hst hfirst => hsteady hst ?_⟩⟩⟩
      · rw [hstate]
        rfl
      · rw [hstate]
        exact look_linked _ hlist
      · have hfilled : t'.listFilled = (pf.look l.timeCount).listFilled := by
          rw [hstate]
          rfl
        rw [hresult, hfilled]
      · show (if _ then _ else some dataToggle) = _
        rw [hdata]
      · rintro ⟨a, ha, hcode⟩
        refine hfirst a ha ?_
        rw [hstate]
        exact hcode

end


/-! ## From the mapping on -/

def BulkRequest.mapAnswer (pf : Platform) (p : BulkRequest) : Except EfiStatus Mapped :=
  pf.mapData (if endPointIn p.endPointAddress then .busMasterWrite else .busMasterRead) p.data
    (p.dataLength.getD 0)

structure BulkDone (pf : Platform) (p : BulkRequest) (firstToggle : Nat) (pool₀ : MemPool) (h : Held)
    (t : HcDev) (r : TransferResult) (t' : HcDev) : Prop where
  pool : Grown pool₀ [] t'.memPool
  mappings : t'.mappings = t.mappings
  poolMemory : t'.poolMemory = t.poolMemory
  head : t'.head h.list = 0 ∨ t'.head h.list = t.head h.list
  detached : (∃ m, p.mapAnswer pf = .ok m) → h.headEd = h.ed → pf.write .detachHead = true →
    t'.head h.list = 0
  otherHead : ∀ list, list ≠ h.list → t'.head list = t.head list
  rung : t'.rung = t.rung ∨ ∃ g mapped data q, p.mapAnswer pf = .ok mapped ∧ t'.rung = g :: t.rung ∧
    g.head = t.bulkHead ∧ ExactList g h.ed [] data [] q mapped p.maxPacketLength firstToggle ∧
    (pf.write .enableList = true → BulkReport pf firstToggle data r t'.td t'.listFilled)

section

variable (asserts : Bool) (pf : Platform) {p : BulkRequest} {pool₀ : MemPool} {h : Held} {t : HcDev}
  {firstToggle : Nat}

theorem packetLength_pos {n : Nat} (h : packetLengthAllowed n = true) : 0 < n ∧ n < 0x100000000 := by
  unfold packetLengthAllowed at h
  simp only [decide_eq_true_eq] at h
  omega

theorem head_aligned {pool : MemPool} {live : List Allocation} {td : Nat}
    (hgrown : Grown pool₀ live pool) (hmem : tdUnit td ∈ live) (hlt : td < 0x100000000) :
    16 * (u32 td / 16) = td := by
  obtain ⟨b, -, hinside⟩ := hgrown.inside _ hmem
  have halign : td % 64 = 0 := hinside.aligned
  rw [u32_of_lt hlt]
  omega

theorem TdList.head_mem {td : Nat → TdDescriptor} {headTd : Nat} {tds : List Nat}
    (h : TdList td headTd tds) (hne : tds ≠ []) : headTd ∈ tds := by
  cases tds with
  | nil => exact absurd rfl hne
  | cons a tds => exact h.next.1 ▸ List.mem_cons_self

theorem bulkOut_ret (firstToggle : Nat) {m : Mapped} {t₁ : HcDev} {tds : List Nat} {headTd : Nat} {r : TransferResult}
    (hmap : p.mapAnswer pf = .ok m)
    (hlist : Linked TdDescriptor.nextTDPointer (fun a => some (t₁.td a)) headTd tds)
    (hlen : tds.length < walkLimit)
    (hgrown : Grown pool₀ (tds.map tdUnit ++ [edUnit h.ed]) t₁.memPool)
    (hmappings : t₁.mappings = addMapping m.mapping t.mappings)
    (hmemory : t₁.poolMemory = t.poolMemory)
    (hheads : ∀ list, t₁.head list = t.head list)
    (hrung : t₁.rung = t.rung ∨ ∃ g data q, t₁.rung = g :: t.rung ∧ g.head = t.bulkHead ∧
      ExactList g h.ed [] data [] q m p.maxPacketLength firstToggle ∧
      (pf.write .enableList = true → BulkReport pf firstToggle data r t₁.td t₁.listFilled)) :
    ∃ t', (do
        freeOhciTdBuff asserts pf { h with
          headTd
          dataMapping := m.mapping }
        pure r : Exec HcDev TransferResult) t₁ = .ret r t' ∧
      BulkDone pf p firstToggle pool₀ h t r t' := by
  obtain ⟨t', hfree, hunwound, hunmapped⟩ := freeOhciTdBuff_ret asserts pf
    (h := { h with
      headTd
      dataMapping := m.mapping }) hlist hlen hgrown
  have hframe := hunwound.frame
  refine ⟨t', (bind_of_ret hfree).trans rfl, hunwound.pool, ?_, ?_, ?_, fun _ => hunwound.detached,
    fun list hne => ?_, ?_⟩
  · have hback := erase_addMapping m.mapping t.mappings
    rw [← hmappings] at hback
    exact hunmapped.trans hback
  · rw [hframe]
    exact hmemory
  · rw [← hheads h.list]
    exact hunwound.head
  · rw [hunwound.otherHead list hne, hheads]
  · have hsame : t'.rung = t₁.rung := by rw [hframe]
    have htd : t'.td = t₁.td := by rw [hframe]
    have hfilled : t'.listFilled = t₁.listFilled := by rw [hframe]
    rw [hsame, htd, hfilled]
    rcases hrung with hrung | ⟨g, data, q, hg, hghead, hexact, hreport⟩
    · exact .inl hrung
    · exact .inr ⟨g, m, data, q, hmap, hg, hghead, hexact, hreport⟩

theorem bulkData_ret (firstToggle : Nat) (hcontract : MapContract (p.mapAnswer pf))
    (hallowed : packetLengthAllowed p.maxPacketLength = true) (htoggle : firstToggle ≤ 1)
    (howns : Owns pf.buffer pool₀ 1 [edUnit h.ed] t.memPool)
    (hed : (t.ed h.ed).tdHeadPointer = 0) :
    ∃ r t', bulkData asserts pf p firstToggle h t = .ret r t' ∧
      BulkDone pf p firstToggle pool₀ h t r t' := by
  obtain ⟨hmax, hsmall⟩ := packetLength_pos hallowed
  cases hmap : p.mapAnswer pf with
  | error status =>
    obtain ⟨pool', hfree, hgrown⟩ := freeEdBuff_ret asserts (h := h) howns.grown
    have hanswer : map (p.mapAnswer pf) t = .ret (.error status) t := by rw [hmap]; rfl
    refine ⟨_, _, (bind_of_ret hanswer).trans ((bind_of_ret hfree).trans rfl), hgrown, rfl, rfl,
      .inr ?_, ?_, fun list _ => ?_, .inl rfl⟩
    · exact head_eq rfl rfl h.list
    · rintro ⟨m, hm⟩
      rw [hmap] at hm
      cases hm
    · exact head_eq rfl rfl list
  | ok m =>
    obtain ⟨hpos, hbelow⟩ := hcontract m hmap
    have hanswer : map (p.mapAnswer pf) t = .ret (.ok m) { t with
        mappings := addMapping m.mapping t.mappings } := by
      rw [hmap]
      exact map_ret m t
    have hrun : bulkData asserts pf p firstToggle h t = _ := bind_of_ret hanswer
    -- the data stage
    let stage : DataStage :=
      ⟨if endPointIn p.endPointAddress then tdInPid else tdOutPid, p.maxPacketLength⟩
    let st : DataStart :=
      ⟨{ t with mappings := addMapping m.mapping t.mappings }, [], [edUnit h.ed], pool₀, 1⟩
    have hstart : Split pf.buffer stage m firstToggle st [] ⟨0, m.length, m.phyAddr, firstToggle, 1⟩
        { t with mappings := addMapping m.mapping t.mappings } := by
      refine ⟨howns, ⟨rfl, rfl, fun a ha => absurd ha List.not_mem_nil⟩, rfl,
        fun a ha => absurd ha List.not_mem_nil, ?_, fun _ => ?_, ?_, fun hne => absurd rfl hne, rfl, rfl⟩
      · simp
      · simp
      · simp
    obtain ⟨⟨status, l⟩, t₁, hloop, data, hsplit, hend⟩ := returns_of_wp
      (wp_dataStage asserts (n := m.length + 1) hmax (Nat.lt_succ_self _) hstart)
    have hdata : st.pre ++ data = data := rfl
    have hlist := hsplit.list
    rw [hdata] at hlist
    have hgrown := hsplit.owns.grown
    rw [hdata] at hgrown
    have hframe := hsplit.frame
    have hheads : ∀ list, t₁.head list = t.head list := by
      intro list
      rw [hframe]
      cases list <;> rfl
    rcases hend with ⟨hstatus, hzero⟩ | ⟨hstatus, -⟩
    · -- the whole buffer is split
      change status = .success at hstatus
      change l.leftLength = 0 at hzero
      subst hstatus
      have hleft := hsplit.left
      change l.leftLength = m.length - data.length * p.maxPacketLength at hleft
      have hne : data ≠ [] := by
        rintro rfl
        simp only [List.length_nil, Nat.zero_mul, Nat.sub_zero] at hleft
        omega
      have hcovers : CoversBuffer m.phyAddr m.length p.maxPacketLength firstToggle
          (dataTds stage m firstToggle data.length) := by
        refine covers_dataTds (p := stage) hbelow hmax hsmall htoggle ?_ fun hcount => ?_
        · show m.length ≤ data.length * p.maxPacketLength
          omega
        · exact hsplit.needed hne
      obtain ⟨init, z, hinit⟩ : ∃ init z, data = init ++ [z] :=
        ⟨_, _, (List.dropLast_append_getLast hne).symm⟩
      have hed₁ : (t₁.ed h.ed).tdHeadPointer = 0 := by
        rw [hframe]
        exact hed
      have hlist₁ := hlist
      have howns₁ := hsplit.owns
      rw [hdata] at howns₁
      rw [hinit] at hlist₁ howns₁
      obtain ⟨status, t₂, hempty, hr⟩ := emptyStage_ret asserts h.ed hlist₁
        howns₁ hed₁
      rcases hr with ⟨rfl, rfl⟩ | ⟨rfl, q, happ, htail, hhead⟩
      · -- no memory for the empty TD
        obtain ⟨t', hout, hdone⟩ := bulkOut_ret asserts pf firstToggle
          (r := p.failed .outOfResources l.dataToggle) hmap hlist.pointer hlist.length_lt hgrown
          (by rw [hframe]) (by rw [hframe]) hheads (.inl (by rw [hframe]))
        exact ⟨_, t', hrun.trans ((bind_of_ret hloop).trans ((bind_of_ret hempty).trans hout)), hdone⟩
      · have hlist₂ := happ.list
        have hgrown₂ := happ.owns.grown
        have hframe₂ := happ.frame
        have hlen₂ := hlist₂.length_lt
        rw [← hinit] at hlist₂ hgrown₂ hlen₂
        have hlen : data.length < walkLimit := by
          rw [List.length_append] at hlen₂
          omega
        obtain ⟨r, t₃, hsubmit, hsubmitted⟩ := bulkSubmit_ret pf h.ed firstToggle
          l.dataToggle (p := p) hlist₂.pointer hlen
        have hframe₃ := hsubmitted.frame
        have hmem : t₃.memPool = t₂.memPool := by rw [hframe₃]
        rw [← hmem] at hgrown₂
        have hexact : ∀ g : Schedule, g.td = t₂.td →
            g.ed h.ed = ohciSetEDField .skip 0 (t₂.ed h.ed) →
            ExactList g h.ed [] data [] q m p.maxPacketLength firstToggle := by
          intro g hgtd hged
          have hheadTd : 16 * (g.ed h.ed).tdHeadPointer = l.headTd := by
            rw [hged]
            show 16 * (t₂.ed h.ed).tdHeadPointer = l.headTd
            rw [hhead]
            have hin := hlist.head_mem hne
            exact head_aligned hgrown (List.mem_append_left _ (List.mem_map_of_mem hin))
              (hlist.below _ hin)
          refine ⟨?_, ?_, ?_, ?_⟩
          · rw [hheadTd, hgtd]
            simpa using hlist₂
          · rw [hged]
            exact htail
          · rw [hgtd, happ.new]
            exact ⟨rfl, rfl⟩
          · rw [hgtd]
            refine CoversBuffer.of_unlinked ?_
            rw [List.map_map]
            have hsame : data.map (TdDescriptor.unlinked ∘ t₂.td) =
                data.map fun a => (t₁.td a).unlinked := by
              refine List.map_congr_left fun a ha => ?_
              rw [hinit] at ha
              exact happ.same a ha
            rw [hsame, hsplit.tds_eq]
            exact hcovers
        obtain ⟨t', hout, hdone⟩ := bulkOut_ret asserts pf firstToggle
          (t := t) (r := r) hmap hsubmitted.pointer hlen₂ hgrown₂
          (by rw [hframe₃, hframe₂, hframe]) (by rw [hframe₃, hframe₂, hframe])
          (fun list => by
            rw [hframe₃, hframe₂]
            have := hheads list
            cases list <;> exact this) (by
            rcases hsubmitted.rung with hrung | ⟨g, hrung, hghead, hgtd, hged, hreport⟩
            · exact .inl (by rw [hrung, hframe₂, hframe])
            · refine .inr ⟨g, data, q, by rw [hrung, hframe₂, hframe], ?_, hexact g hgtd hged,
                fun hok => hreport hok hsplit.toggle_eq⟩
              rw [hghead, hframe₂, hframe])
        exact ⟨_, t', hrun.trans ((bind_of_ret hloop).trans ((bind_of_ret hempty).trans
          ((bind_of_ret hsubmit).trans hout))), hdone⟩
    · -- no memory for a data TD
      change status = .outOfResources at hstatus
      subst hstatus
      obtain ⟨t', hout, hdone⟩ := bulkOut_ret asserts pf firstToggle
        (r := p.failed .outOfResources l.dataToggle) hmap hlist.pointer hlist.length_lt hgrown
        (by rw [hframe]) (by rw [hframe]) hheads (.inl (by rw [hframe]))
      exact ⟨_, t', hrun.trans ((bind_of_ret hloop).trans hout), hdone⟩

end


/-! ## The whole transfer -/

section

variable (asserts : Bool) (pf : Platform) {s t : HcDev}

theorem update_nextED (mem : Nat → EdDescriptor) (a b n : Nat) :
    (Function.update mem a { mem a with nextED := n } b).tdHeadPointer = (mem b).tdHeadPointer := by
  by_cases hab : b = a
  · rw [hab, Function.update_self]
  · rw [Function.update_of_ne hab]

theorem ohciAttachED_ret (ed newEd : Nat) (t : HcDev) :
    ∃ mem, ohciAttachED ed newEd t = .ret () { t with ed := mem } ∧
      ∀ a, (mem a).tdHeadPointer = (t.ed a).tdHeadPointer := by
  unfold ohciAttachED
  by_cases hed : ed = 0
  · rw [if_pos hed]
    exact ⟨t.ed, rfl, fun _ => rfl⟩
  · rw [if_neg hed, bind_of_ret (get_ret t)]
    have hfirst : modifyEd ed (fun e => { e with nextED := newEd }) t = .ret () { t with
        ed := Function.update t.ed ed { t.ed ed with nextED := newEd } } := rfl
    rw [bind_of_ret hfirst]
    unfold Exec.when
    by_cases hnext : (t.ed ed).nextED ≠ 0
    · rw [if_pos hnext]
      exact ⟨_, rfl, fun a => (update_nextED _ newEd a _).trans (update_nextED t.ed ed a newEd)⟩
    · rw [if_neg hnext]
      exact ⟨_, rfl, fun a => update_nextED t.ed ed a newEd⟩

theorem ohciSetMemoryPointer_ret (ok : Bool) (list : ListType) (value : Nat) (t : HcDev) :
    ∃ t', ohciSetMemoryPointer ok list value t = .ret () t' ∧
      t' = { t with
        controlHead := t'.controlHead
        bulkHead := t'.bulkHead } ∧
      t'.head list = (if ok then value else t.head list) ∧
      (∀ list', list' ≠ list → t'.head list' = t.head list') := by
  unfold ohciSetMemoryPointer Exec.when
  cases ok with
  | false => exact ⟨t, rfl, rfl, rfl, fun _ _ => rfl⟩
  | true =>
    cases list with
    | controlList =>
      refine ⟨_, rfl, rfl, rfl, fun list' hne => ?_⟩
      cases list' with
      | controlList => exact absurd rfl hne
      | bulkList => rfl
    | bulkList =>
      refine ⟨_, rfl, rfl, rfl, fun list' hne => ?_⟩
      cases list' with
      | controlList => rfl
      | bulkList => exact absurd rfl hne

theorem ohciAttachEDToList_ret (ok : Bool) (list : ListType) (ed : Nat) (t : HcDev) :
    ∃ headEd t', ohciAttachEDToList ok list ed t = .ret headEd t' ∧
      t' = { t with
        ed := t'.ed
        controlHead := t'.controlHead
        bulkHead := t'.bulkHead } ∧
      (∀ a, (t'.ed a).tdHeadPointer = (t.ed a).tdHeadPointer) ∧
      (t.head list = 0 → headEd = ed ∧ t'.head list = if ok then ed else 0) ∧
      (∀ list', list' ≠ list → t'.head list' = t.head list') := by
  unfold ohciAttachEDToList
  rw [bind_of_ret (get_ret t)]
  by_cases hhead : t.head list = 0
  · rw [if_pos hhead]
    obtain ⟨t', hset, hframe, hvalue, hother⟩ := ohciSetMemoryPointer_ret ok list ed t
    rw [hhead] at hvalue
    refine ⟨ed, t', (bind_of_ret hset).trans rfl, ?_, fun a => ?_, fun _ => ⟨rfl, hvalue⟩, hother⟩
    · rw [hframe]
    · rw [hframe]
  · rw [if_neg hhead]
    obtain ⟨mem, hattach, hmem⟩ := ohciAttachED_ret (t.head list) ed t
    refine ⟨t.head list, _, (bind_of_ret hattach).trans rfl, rfl, hmem, fun h => absurd h hhead,
      fun list' _ => ?_⟩
    cases list' <;> rfl

structure TransferStart (pf : Platform) (s : HcDev) : Prop where
  sound : Sound s.memPool
  fresh : FreshFrom 0 s.memPool pf.buffer

structure Restored (s t : HcDev) : Prop where
  memPool : t.memPool = s.memPool
  mappings : t.mappings = s.mappings
  poolMemory : t.poolMemory = s.poolMemory

theorem Restored.refl (s : HcDev) : Restored s s := ⟨rfl, rfl, rfl⟩

/-- What the transfer on a list does to the heads: no other list changes, and an empty list is empty again
unless the ED is left on it. -/
structure HeadsKept (list : ListType) (stranded : Prop) (s t : HcDev) : Prop where
  empty : s.head list = 0 → ¬ stranded → t.head list = 0
  otherHead : ∀ list', list' ≠ list → t.head list' = s.head list'

structure NotOpened (list : ListType) (s t : HcDev) : Prop where
  restored : Restored s t
  empty : s.head list = 0 → t.head list = 0
  otherHead : ∀ list', list' ≠ list → t.head list' = s.head list'
  rung : t.rung = s.rung

structure Opens (pf : Platform) (s : HcDev) : Prop where
  disabled : pf.write .disableList = true
  cleared : pf.write .clearFilled = true
  memory : ¬ NoMemory s.memPool (pf.buffer 0)

structure Opened (pf : Platform) (list : ListType) (s : HcDev) (headEd ed : Nat) (t : HcDev) :
    Prop where
  opens : Opens pf s
  owns : Owns pf.buffer s.memPool 1 [edUnit ed] t.memPool
  noTds : (t.ed ed).tdHeadPointer = 0
  head : (pf.write .clearHead = true ∨ s.head list = 0) →
    headEd = ed ∧ t.head list = if pf.write .attachHead then ed else 0
  otherHead : ∀ list', list' ≠ list → t.head list' = s.head list'
  mappings : t.mappings = s.mappings
  poolMemory : t.poolMemory = s.poolMemory
  rung : t.rung = s.rung

theorem isError_writeStatus (ok : Bool) : (writeStatus ok).isError = !ok := by
  cases ok <;> rfl

theorem withEd_ret {α : Type} {Q : α → HcDev → Prop} (list : ListType) (hstart : TransferStart pf s)
    {failed noMemory : α} {fields : EdDescriptor → EdDescriptor}
    (hfields : ∀ e, (fields e).tdHeadPointer = 0) {rest : Nat → Nat → Exec HcDev α}
    (hnot : ∀ r t, NotOpened list s t → Q r t)
    (hrest : ∀ headEd ed t, Opened pf list s headEd ed t →
      ∃ r t', rest headEd ed t = .ret r t' ∧ Q r t') :
    ∃ r t, (do
        let status ← ohciSetHcControl (pf.write .disableList) list false
        if status.isError then pure failed
        else do
          let status ← ohciSetHcCommandStatus (pf.write .clearFilled) list false
          if status.isError then pure failed
          else do
            ohciSetMemoryPointer (pf.write .clearHead) list 0
            let ed ← ohciCreateED asserts (pf.buffer 0)
            if ed = 0 then pure noMemory
            else do
              modifyEd ed fields
              let headEd ← ohciAttachEDToList (pf.write .attachHead) list ed
              rest headEd ed : Exec HcDev α) s = .ret r t ∧ Q r t := by
  obtain ⟨t₁, hdisable, hframe₁, hheads₁⟩ : ∃ t₁, ohciSetHcControl (pf.write .disableList) list
      false s = .ret (writeStatus (pf.write .disableList)) t₁ ∧
      t₁ = { s with
        controlEnable := t₁.controlEnable
        bulkEnable := t₁.bulkEnable } ∧ ∀ list', t₁.head list' = s.head list' := by
    unfold ohciSetHcControl Exec.when
    cases pf.write .disableList with
    | false => exact ⟨s, rfl, rfl, fun _ => rfl⟩
    | true => cases list <;> exact ⟨_, rfl, rfl, head_eq rfl rfl⟩
  have hearly : NotOpened list s t₁ := by
    refine ⟨⟨?_, ?_, ?_⟩, fun hzero => (hheads₁ list).trans hzero, fun list' _ => hheads₁ list', ?_⟩ <;>
      rw [hframe₁]
  rw [bind_of_ret hdisable, isError_writeStatus]
  by_cases hdis : pf.write .disableList = true
  · have hclear : ohciSetHcCommandStatus (pf.write .clearFilled) list false t₁ =
        .ret (writeStatus (pf.write .clearFilled)) t₁ := by
      unfold ohciSetHcCommandStatus Exec.when
      rw [if_neg (by simp)]
      rfl
    rw [hdis, if_neg (by decide), bind_of_ret hclear, isError_writeStatus]
    by_cases hclr : pf.write .clearFilled = true
    · obtain ⟨t₂, hnull, hframe₂, hhead₂, hother₂⟩ :=
        ohciSetMemoryPointer_ret (pf.write .clearHead) list 0 t₁
      rw [hclr, if_neg (by decide), bind_of_ret hnull]
      have hzero₂ : (pf.write .clearHead = true ∨ s.head list = 0) → t₂.head list = 0 := by
        intro h
        rw [hhead₂, hheads₁]
        split
        · rfl
        · exact h.resolve_left (by assumption)
      have hpool₂ : t₂.memPool = s.memPool := by rw [hframe₂, hframe₁]
      have howns : Owns pf.buffer s.memPool 0 [] t₂.memPool := by
        rw [hpool₂]
        exact ⟨Grown.none hstart.sound, hstart.fresh⟩
      obtain ⟨ed, t₃, hcreate, hr⟩ := ohciCreateED_ret asserts howns
      rw [bind_of_ret hcreate]
      rcases hr with ⟨rfl, rfl, -⟩ | ⟨hne, -, hroom, pool', rfl, howns'⟩
      · rw [if_pos rfl]
        refine ⟨_, t₃, rfl, hnot _ _ ⟨⟨hpool₂, ?_, ?_⟩, fun hzero => hzero₂ (.inr hzero),
          fun list' hne => (hother₂ list' hne).trans (hheads₁ list'), ?_⟩⟩ <;> rw [hframe₂, hframe₁]
      · rw [hpool₂] at hroom
        obtain ⟨mem, hmod, hmem⟩ : ∃ mem, modifyEd ed fields { t₂ with
            memPool := pool'
            ed := Function.update t₂.ed ed (ohciSetEDField .skip 1 zeroEd) } = .ret () { t₂ with
            memPool := pool'
            ed := mem } ∧ (mem ed).tdHeadPointer = 0 :=
          ⟨_, rfl, by dsimp only; rw [Function.update_self]; exact hfields _⟩
        obtain ⟨headEd, t₄, hattach, hframe₄, htdhead, hhead₄, hother₄⟩ :=
          ohciAttachEDToList_ret (pf.write .attachHead) list ed { t₂ with
            memPool := pool'
            ed := mem }
        rw [if_neg hne, bind_of_ret hmod, bind_of_ret hattach]
        have hsame : ∀ list', ({ t₂ with
            memPool := pool'
            ed := mem } : HcDev).head list' = t₂.head list' := head_eq rfl rfl
        refine hrest headEd ed t₄ ⟨⟨hdis, hclr, hroom⟩, ?_, (htdhead ed).trans hmem, fun hs => ?_,
          fun list' hne => ?_, ?_, ?_, ?_⟩
        · rw [hframe₄]
          exact howns'
        · exact hhead₄ ((hsame list).trans (hzero₂ hs))
        · rw [hother₄ list' hne, hsame, hother₂ list' hne, hheads₁]
        · rw [hframe₄, hframe₂, hframe₁]
        · rw [hframe₄, hframe₂, hframe₁]
        · rw [hframe₄, hframe₂, hframe₁]
    · rw [Bool.eq_false_iff.mpr hclr, if_pos (by decide)]
      exact ⟨_, t₁, rfl, hnot _ _ hearly⟩
  · rw [Bool.eq_false_iff.mpr hdis, if_pos (by decide)]
    exact ⟨_, t₁, rfl, hnot _ _ hearly⟩

/-- A bulk transfer leaves its ED on the list: it gets as far as attaching it, and the data cannot be
mapped or the head cannot be written at the end. -/
structure BulkRequest.Strands (pf : Platform) (p : BulkRequest) (s : HcDev) : Prop where
  valid : p.invalid = false
  opens : Opens pf s
  attached : pf.write .attachHead = true
  stuck : (∀ m, p.mapAnswer pf ≠ .ok m) ∨ pf.write .detachHead = false

structure BulkOutcome (pf : Platform) (p : BulkRequest) (s : HcDev) (r : TransferResult) (t : HcDev) :
    Prop where
  restored : Restored s t
  heads : HeadsKept .bulkList (p.Strands pf s) s t
  rung : t.rung = s.rung ∨ ∃ g ed mapped data q, p.mapAnswer pf = .ok mapped ∧ t.rung = g :: s.rung ∧
    ((pf.write .clearHead = true ∨ s.bulkHead = 0) → pf.write .attachHead = true → g.head = ed) ∧
    ExactList g ed [] data [] q mapped p.maxPacketLength (p.dataToggle.getD 0) ∧
    (pf.write .enableList = true →
      BulkReport pf (p.dataToggle.getD 0) data r t.td t.listFilled)

theorem BulkRequest.of_valid {p : BulkRequest} (h : p.invalid = false) :
    packetLengthAllowed p.maxPacketLength = true ∧ p.dataToggle.getD 0 ≤ 1 := by
  unfold BulkRequest.invalid at h
  cases hlen : p.dataLength with
  | none => rw [hlen] at h; cases h
  | some dataLength =>
    cases htoggle : p.dataToggle with
    | none => rw [hlen, htoggle] at h; cases h
    | some toggle =>
      rw [hlen, htoggle] at h
      simp only [decide_eq_false_iff_not, not_or, not_not] at h
      refine ⟨h.2.2.2.2, ?_⟩
      have := h.2.2.2.1
      show toggle ≤ 1
      omega

theorem ohciBulkTransfer_ret (p : BulkRequest) (hstart : TransferStart pf s)
    (hcontract : MapContract (p.mapAnswer pf)) :
    ∃ r t, ohciBulkTransfer asserts pf p s = .ret r t ∧ BulkOutcome pf p s r t := by
  unfold ohciBulkTransfer
  by_cases hinvalid : p.invalid = true
  · rw [if_pos hinvalid]
    exact ⟨_, s, rfl, Restored.refl s, ⟨fun hzero _ => hzero, fun _ _ => rfl⟩, .inl rfl⟩
  · rw [if_neg hinvalid]
    have hvalid := Bool.eq_false_iff.mpr hinvalid
    obtain ⟨hallowed, htoggle⟩ := BulkRequest.of_valid hvalid
    refine withEd_ret asserts pf .bulkList hstart (fun e => rfl) (fun r t ht => ?_)
      fun headEd ed t₁ hopened => ?_
    · exact ⟨ht.restored, ⟨fun hzero _ => ht.empty hzero, ht.otherHead⟩, .inl ht.rung⟩
    · obtain ⟨r, t, hdata, hdone⟩ := bulkData_ret asserts pf (p.dataToggle.getD 0) (p := p)
        (h := ⟨.bulkList, headEd, ed, 0, 0, 0⟩) hcontract hallowed htoggle hopened.owns hopened.noTds
      refine ⟨r, t, hdata, ⟨hdone.pool.eq_of_nil, ?_, ?_⟩, ⟨fun hzero hstrands => ?_,
        fun list' hne => ?_⟩, ?_⟩
      · rw [hdone.mappings, hopened.mappings]
      · rw [hdone.poolMemory, hopened.poolMemory]
      · obtain ⟨heq, hhead⟩ := hopened.head (.inr hzero)
        rcases hdone.head with hd | hd
        · exact hd
        · change t.head .bulkList = t₁.head .bulkList at hd
          by_cases hatt : pf.write .attachHead = true
          · have hok : (∃ m, p.mapAnswer pf = .ok m) ∧ pf.write .detachHead = true := by
              constructor
              · by_contra hno
                exact hstrands ⟨hvalid, hopened.opens, hatt, .inl fun m hm => hno ⟨m, hm⟩⟩
              · by_contra hno
                exact hstrands ⟨hvalid, hopened.opens, hatt, .inr (Bool.eq_false_iff.mpr hno)⟩
            exact hdone.detached hok.1 heq hok.2
          · rw [hd, hhead, if_neg hatt]
      · exact (hdone.otherHead list' hne).trans (hopened.otherHead list' hne)
      · rcases hdone.rung with hrung | ⟨g, m, data, q, hm, hg, hghead, hexact, hreport⟩
        · exact .inl (hrung.trans hopened.rung)
        · refine .inr ⟨g, ed, m, data, q, hm, by rw [hg, hopened.rung], fun hclr hatt => ?_, hexact,
            hreport⟩
          have hhead := (hopened.head hclr).2
          rw [if_pos hatt] at hhead
          exact hghead.trans hhead

end

end Quark.Ohci.Transfer
