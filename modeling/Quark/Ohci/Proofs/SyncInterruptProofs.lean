import Quark.Ohci.SyncInterrupt
import Quark.Ohci.Proofs.ResetProofs

/-!
# The TDs of interrupt transfers

With packets of at least a byte every pass takes some bytes off the buffer. With packets of no byte no pass does,
and the loop goes on as long as there is memory for a TD.
-/

namespace Quark.Ohci.Transfer

open Machine Exec

section

variable {pf : Platform} {p : InterruptTransfer} {m : Mapped} {pool₀ : MemPool} {live : List Allocation}
  {index : Nat} {t : HcDev}

theorem InterruptTransfer.Accepted.toggle (h : p.Accepted) (hm : p.mapped pf = some m) : p.dataToggle ≤ 1 := by
  have hnew : p.isNewTransfer = true := by
    by_contra hnot
    unfold InterruptTransfer.mapped at hm
    rw [if_pos (Bool.eq_false_iff.mpr hnot)] at hm
    split at hm <;> cases hm
  rcases h with ⟨r, hvalid, hp⟩ | ⟨r, hvalid, hp⟩
  · rw [hp] at hnew ⊢
    unfold AsyncInterruptRequest.invalid at hvalid
    unfold AsyncInterruptRequest.transfer at hnew ⊢
    cases htoggle : r.dataToggle with
    | none => exact Nat.zero_le 1
    | some dataToggle =>
      rw [htoggle] at hvalid
      simp only [decide_eq_false_iff_not, not_or, not_and, not_not] at hvalid
      have htwo := (hvalid.2 hnew).2.1
      show dataToggle ≤ 1
      omega
  · rw [hp]
    unfold SyncInterruptRequest.invalid at hvalid
    unfold SyncInterruptRequest.transfer
    cases hlen : r.dataLength with
    | none =>
      rw [hlen] at hvalid
      cases hvalid
    | some dataLength =>
      cases htoggle : r.dataToggle with
      | none =>
        rw [hlen, htoggle] at hvalid
        cases hvalid
      | some dataToggle =>
        rw [hlen, htoggle] at hvalid
        simp only [decide_eq_false_iff_not, not_or, not_and, not_not] at hvalid
        have htwo := hvalid.2.2.2.2.2.1
        show dataToggle ≤ 1
        omega

theorem InterruptTransfer.mapped_contract (hm : p.mapped pf = some m)
    (hcontract : MapContract (pf.mapData .busMasterWrite p.ucBuffer p.dataLength)) :
    0 < m.length ∧ m.phyAddr + m.length ≤ 0x100000000 := by
  unfold InterruptTransfer.mapped at hm
  split at hm
  · cases hm
  · split at hm
    · cases hm
    · split at hm
      · cases hm
      · next m' hmap =>
        injection hm with hm
        exact hcontract m (hm ▸ hmap)

theorem InterruptTransfer.split_start (p : InterruptTransfer) (m : Mapped)
    (howns : Owns pf.buffer pool₀ index live t.memPool) :
    Split pf.buffer p.stage m p.dataToggle ⟨t, [], live, pool₀, index⟩ [] (p.start m index) t := by
  refine ⟨howns, ⟨rfl, rfl, fun a ha => absurd ha List.not_mem_nil⟩, rfl,
    fun a ha => absurd ha List.not_mem_nil, ?_, fun _ => ?_, ?_, fun hne => absurd rfl hne, rfl, rfl⟩
  · simp [InterruptTransfer.start]
  · simp [InterruptTransfer.start]
  · simp [InterruptTransfer.start]

theorem Split.covers {st : DataStart} {tds : List Nat} {l : DataLocals} {t : HcDev} {stage : DataStage}
    {toggle : Nat} (hbelow : m.phyAddr + m.length ≤ 0x100000000) (hmax : 0 < stage.maxPacketLength)
    (hsmall : stage.maxPacketLength < 0x100000000) (htoggle : toggle ≤ 1)
    (h : Split pf.buffer stage m toggle st tds l t) :
    l.leftLength ≤ m.length ∧
      CoversBuffer m.phyAddr (m.length - l.leftLength) stage.maxPacketLength toggle (tds.map t.td) := by
  have hleft := h.left
  have hneeded : 0 < tds.length → (tds.length - 1) * stage.maxPacketLength < m.length := by
    intro hpos
    exact h.needed (List.ne_nil_of_length_pos hpos)
  have hmul : 0 < tds.length → tds.length * stage.maxPacketLength =
      (tds.length - 1) * stage.maxPacketLength + stage.maxPacketLength := by
    intro hpos
    rw [← Nat.succ_mul, Nat.succ_eq_add_one, Nat.sub_add_cancel hpos]
  refine ⟨by omega, CoversBuffer.of_unlinked ?_⟩
  rw [List.map_map]
  have hsame : dataTds stage m toggle tds.length =
      dataTds stage { m with length := m.length - l.leftLength } toggle tds.length := by
    refine List.map_congr_left fun i hi => ?_
    have hlt := List.mem_range.mp hi
    have hle : (i + 1) * stage.maxPacketLength ≤ tds.length * stage.maxPacketLength :=
      Nat.mul_le_mul_right _ hlt
    rw [Nat.succ_mul] at hle
    have hmin : min stage.maxPacketLength (m.length - i * stage.maxPacketLength) =
        min stage.maxPacketLength (m.length - l.leftLength - i * stage.maxPacketLength) := by
      omega
    unfold dataTd
    rw [hmin]
  have htds : tds.map (TdDescriptor.unlinked ∘ t.td) = _ := h.tds_eq
  rw [htds, hsame]
  refine @covers_dataTds stage { m with length := m.length - l.leftLength } toggle _ ?_ hmax hsmall htoggle ?_ ?_
  · show m.phyAddr + (m.length - l.leftLength) ≤ _
    omega
  · show m.length - l.leftLength ≤ _
    omega
  · intro hpos
    show (tds.length - 1) * stage.maxPacketLength < m.length - l.leftLength
    have := hneeded hpos
    have := hmul hpos
    omega

theorem tdsExact_of_pos (asserts : Bool) (hpos : p.maxPacketLength ≠ 0)
    (hbelow : m.phyAddr + m.length ≤ 0x100000000) (htoggle : p.dataToggle ≤ 1)
    (howns : Owns pf.buffer pool₀ index live t.memPool) : TdsExact asserts pf p m index t := by
  have hmax : 0 < p.stage.maxPacketLength := by
    refine Nat.pos_of_ne_zero fun hzero => hpos (BitVec.eq_of_toNat_eq ?_)
    exact hzero
  have hsmall : p.stage.maxPacketLength < 0x100000000 :=
    p.maxPacketLength.isLt.trans (by decide)
  have hstart := p.split_start m howns
  constructor
  · refine (returns_of_wp (Q := fun r t' => (r.1 = .success → r.2.leftLength = 0) ∧
      Visits (dataStageBody asserts pf.buffer p.stage) (p.start m index, t) (r.2, t')) ?_).imp
      fun r ⟨t', hret, hr⟩ => ⟨t', hret, hr⟩
    refine wp_loop_visits_total
      (fun l u => ∃ tds, Split pf.buffer p.stage m p.dataToggle ⟨t, [], live, pool₀, index⟩ tds l u)
      (fun l _ => l.leftLength) _ _ ?_ (Nat.lt_succ_self _) ⟨[], hstart⟩
    rintro l u hv ⟨tds, h⟩
    obtain ⟨r, u', hbody, hr⟩ := h.body asserts
    refine wp_of_eq_ret hbody ?_
    rcases hr with ⟨hzero, rfl, rfl⟩ | ⟨-, rfl, rfl⟩ | ⟨td, l', hleft, rfl, hl', hsplit⟩
    · exact ⟨fun _ => hzero, hv⟩
    · exact ⟨fun hbad => (nomatch hbad), hv⟩
    · refine ⟨⟨_, hsplit⟩, ?_⟩
      show l'.leftLength < l.leftLength
      rw [hl']
      split <;> omega
  · intro l t' hv
    obtain ⟨tds, h⟩ := hv.invariant (fun l u => ∃ tds,
      Split pf.buffer p.stage m p.dataToggle ⟨t, [], live, pool₀, index⟩ tds l u) (fun l u _ hI => by
        obtain ⟨tds, h⟩ := hI
        obtain ⟨r, u', hbody, hr⟩ := h.body asserts
        refine wp_of_eq_ret hbody ?_
        rcases hr with ⟨-, rfl, rfl⟩ | ⟨-, rfl, rfl⟩ | ⟨td, l', -, rfl, -, hsplit⟩
        · trivial
        · trivial
        · exact ⟨_, hsplit⟩) ⟨[], hstart⟩
    obtain ⟨hle, hcovers⟩ := h.covers hbelow hmax hsmall htoggle
    exact ⟨tds, h.list, hle, hcovers⟩

theorem tdsExact_of_noMemory (asserts : Bool) (hlen : 0 < m.length)
    (howns : Owns pf.buffer pool₀ index live t.memPool) (hnone : NoMemory t.memPool (pf.buffer index)) :
    TdsExact asserts pf p m index t := by
  obtain ⟨td, t', hcreate, hr⟩ := ohciCreateTD_ret asserts howns
  rcases hr with ⟨rfl, rfl, -⟩ | ⟨-, -, hroom, -⟩
  · have hbody : dataStageBody asserts pf.buffer p.stage (p.start m index) t' =
        .ret (.inr (.outOfResources, p.start m index)) t' := by
      unfold dataStageBody
      rw [if_pos (show 0 < (p.start m index).leftLength from hlen)]
      exact (bind_of_ret hcreate).trans (congrFun (if_pos rfl) t')
    refine ⟨⟨_, t', loop_of_inr hbody _, fun hbad => (nomatch hbad), .refl⟩, fun l u hv => ?_⟩
    rcases hv.head_or with hself | ⟨z, hz, -⟩
    · injection hself with hl hu
      rw [hl]
      refine ⟨[], ⟨rfl, rfl, fun a ha => absurd ha List.not_mem_nil⟩, Nat.le_refl _, ?_⟩
      show CoversBuffer m.phyAddr (m.length - m.length) _ _ []
      rw [Nat.sub_self]
      exact ⟨by simp, nofun, .nil, nofun, nofun, nofun, nofun, .nil⟩
    · have hcontra := hbody.symm.trans hz
      injection hcontra with hcontra
      cases hcontra
  · exact absurd hnone hroom

theorem not_tdsExact_of_zero (asserts : Bool) (hzero : p.maxPacketLength = 0) (hlen : 0 < m.length)
    (howns : Owns pf.buffer pool₀ index live t.memPool) (hroom : ¬ NoMemory t.memPool (pf.buffer index)) :
    ¬ TdsExact asserts pf p m index t := by
  intro hexact
  have hstart := p.split_start m howns
  have hleft : 0 < (p.start m index).leftLength := hlen
  have hmax : p.stage.maxPacketLength = 0 := congrArg BitVec.toNat hzero
  obtain ⟨td, t', hcreate, hr⟩ := ohciCreateTD_ret asserts howns
  rcases hr with ⟨-, -, hnone⟩ | ⟨htd, hlt, -, pool', rfl, howns'⟩
  · exact hroom hnone
  · obtain ⟨t₁, hstep, hsplit⟩ := hstart.step hleft htd hlt howns'
    obtain ⟨u, t₂, hmod, hlink⟩ := ret_of_bind hstep
    rw [hmax] at hsplit hmod
    have hsub : (if 0 < (p.start m index).leftLength then 0 else (p.start m index).leftLength) = 0 :=
      if_pos hleft
    rw [hsub] at hsplit hmod
    have hvisit : Visits (dataStageBody asserts pf.buffer p.stage) (p.start m index, t)
        (⟨td, m.length, m.phyAddr, p.dataToggle ^^^ 1, index + 1⟩, t₁) := by
      refine .single ?_
      show dataStageBody asserts pf.buffer p.stage (p.start m index) t = _
      unfold dataStageBody
      rw [if_pos hleft, hmax, hsub]
      refine (bind_of_ret hcreate).trans ((congrFun (if_neg htd) _).trans ?_)
      exact (bind_of_ret hmod).trans ((bind_of_ret hlink).trans rfl)
    obtain ⟨tds, hlist, -, hcovers⟩ := hexact.covers _ _ hvisit
    have hnil : tds = [] := by
      have hnone := hcovers.none.mpr (Nat.sub_self _)
      exact List.map_eq_nil_iff.mp hnone
    rw [hnil] at hlist
    exact htd hlist.next

end

/-! ## When the TDs are exact -/

/-- The TDs of an interrupt transfer are exact, whichever entry point it comes from, unless the packets have no byte
and there is memory for a TD. -/
theorem tdsExact_iff (asserts : Bool) (pf : Platform) (p : InterruptTransfer) (haccepted : p.Accepted)
    (m : Mapped) (hm : p.mapped pf = some m)
    (hcontract : MapContract (pf.mapData .busMasterWrite p.ucBuffer p.dataLength)) (pool₀ : MemPool)
    (live : List Allocation) (index : Nat) (t : HcDev) (howns : Owns pf.buffer pool₀ index live t.memPool) :
    TdsExact asserts pf p m index t ↔
      p.maxPacketLength ≠ 0 ∨ NoMemory t.memPool (pf.buffer index) := by
  obtain ⟨hlen, hbelow⟩ := InterruptTransfer.mapped_contract hm hcontract
  constructor
  · intro hexact
    by_contra hno
    rw [not_or, not_not] at hno
    exact not_tdsExact_of_zero asserts hno.1 hlen howns hno.2 hexact
  · rintro (hpos | hnone)
    · exact tdsExact_of_pos asserts hpos hbelow (haccepted.toggle hm) howns
    · exact tdsExact_of_noMemory asserts hlen howns hnone

def syncOf8 : SyncInterruptRequest where
  endPointAddress := 0x81
  isSlowDevice := true
  maxPacketLength := 0
  data := 0x2000
  dataLength := some 8
  dataToggle := some 0
  transferResult := some 0

theorem resetDev_owns (data : Except EfiStatus Mapped) :
    Owns (quietPlatform data).buffer resetDev.memPool 0 [] resetDev.memPool :=
  ⟨.none resetDev_sound, (resetDev_start data).fresh⟩

theorem resetDev_room (data : Except EfiStatus Mapped) :
    ¬ NoMemory resetDev.memPool ((quietPlatform data).buffer 0) := by
  intro hnone
  refine hnone.full emptyBlock List.mem_cons_self 0 ⟨by decide, fun i _ _ => ?_⟩
  show (0 : BitVec 8).getLsbD (i % 8) = false
  exact BitVec.getLsbD_zero

theorem not_tdsExact_syncOf8 : syncOf8.invalid = false ∧
    (syncOf8.transfer 0x4000).mapped (quietPlatform (.ok ⟨0x4000, 8, 7⟩)) = some ⟨0x4000, 8, 7⟩ ∧
    ¬ TdsExact true (quietPlatform (.ok ⟨0x4000, 8, 7⟩)) (syncOf8.transfer 0x4000) ⟨0x4000, 8, 7⟩ 0 resetDev := by
  refine ⟨by decide, by rfl, ?_⟩
  exact not_tdsExact_of_zero true rfl (by decide) (resetDev_owns _) (resetDev_room _)

theorem tdsExact_iff_syncOf8 :
    TdsExact true (quietPlatform (.ok ⟨0x4000, 8, 7⟩)) ({ syncOf8 with maxPacketLength := 8 }.transfer 0x4000)
        ⟨0x4000, 8, 7⟩ 0 resetDev ↔
      (8 : BitVec 8) ≠ 0 ∨ NoMemory resetDev.memPool ((quietPlatform (.ok ⟨0x4000, 8, 7⟩)).buffer 0) := by
  refine tdsExact_iff true _ _ (.inr ⟨{ syncOf8 with maxPacketLength := 8 }, by decide, rfl⟩) _ rfl ?_
    resetDev.memPool [] 0 resetDev (resetDev_owns _)
  rintro m' hm
  cases hm
  decide

/-! ## What transfers release

Control and bulk transfers release all that they take. A synchronous interrupt transfer keeps the buffer
that it has taken from the pool memory: only the entries of asynchronous transfers own a buffer that is
freed later.
-/

/-! ## What the schedule leaves alone -/

section

variable {σ γ : Type} {f : σ → γ} (asserts : Bool)

theorem keeps_markUnits (count byte bit : Nat) (block : MemBlock) :
    Keeps f (markUnits asserts count byte bit block : Exec σ MemBlock) := by
  induction count generalizing byte bit block with
  | zero => exact .pure _
  | succ count ih =>
    refine .bind ?_ fun _ => ih _ _ _
    exact .ite (.halt _) (.pure _)

theorem keeps_usbHcAllocMemFromBlock (block : MemBlock) (units : Nat) :
    Keeps f (usbHcAllocMemFromBlock asserts block units : Exec σ (Option Nat × MemBlock)) := by
  refine .bind (.ite (.halt _) (.pure _)) fun _ => .bind (.loop (fun l => ?_) _ _) fun l => ?_
  · unfold searchBody
    exact .ite (.ite (.ite (.pure _) (.pure _)) (.pure _)) (.pure _)
  · exact .ite (.pure _) (.bind (keeps_markUnits asserts _ _ _ _) fun _ => .pure _)

theorem keeps_allocFromBlocks (units : Nat) (pool : MemPool) :
    Keeps f (allocFromBlocks asserts units pool : Exec σ (Option Nat × MemPool)) := by
  induction pool with
  | nil => exact .pure _
  | cons block next ih =>
    refine .bind (keeps_usbHcAllocMemFromBlock asserts block units) ?_
    rintro ⟨mem | mem, block'⟩
    · exact .bind ih fun _ => .pure _
    · exact .pure _

theorem keeps_usbHcAllocateMem (pool : MemPool) (size : Nat) (buffer : Option Nat) :
    Keeps f (usbHcAllocateMem asserts pool size buffer : Exec σ (Option Nat × MemPool)) := by
  refine .bind (.ite (.halt _) (.pure _)) fun _ => .bind (keeps_allocFromBlocks asserts _ _) ?_
  rintro ⟨mem | mem, pool'⟩
  · dsimp only
    cases usbHcAllocMemBlock (newBlockPages (usbHcMemRound size)) buffer with
    | none => exact .pure _
    | some newBlock => exact .bind (keeps_usbHcAllocMemFromBlock asserts _ _) fun _ => .pure _
  · exact .pure _

end

section

variable (asserts : Bool)

theorem keeps_ohciCreateTD (buffer : Option Nat) : Keeps held (ohciCreateTD asserts buffer) := by
  refine .bind .get fun s => .bind (keeps_usbHcAllocateMem asserts _ _ _) ?_
  rintro ⟨mem | mem, pool⟩
  · exact .bind (.modify fun _ => rfl) fun _ => .pure _
  · exact .bind (.modify fun _ => rfl) fun _ => .pure _

theorem keeps_ohciCreateED (buffer : Option Nat) : Keeps held (ohciCreateED asserts buffer) := by
  refine .bind .get fun s => .bind (keeps_usbHcAllocateMem asserts _ _ _) ?_
  rintro ⟨mem | mem, pool⟩
  · exact .bind (.modify fun _ => rfl) fun _ => .pure _
  · exact .bind (.modify fun _ => rfl) fun _ => .pure _

theorem keeps_modifyTd (td : Nat) (g : TdDescriptor → TdDescriptor) : Keeps held (modifyTd td g) :=
  .modify fun _ => rfl

theorem keeps_modifyEd (ed : Nat) (g : EdDescriptor → EdDescriptor) : Keeps held (modifyEd ed g) :=
  .modify fun _ => rfl

theorem keeps_unmap (mapping : Nat) : Keeps held (unmap mapping) := .when (.modify fun _ => rfl)

theorem keeps_map (answer : Except EfiStatus Mapped) : Keeps held (map answer) := by
  cases answer with
  | error status => exact .pure _
  | ok m => exact .bind (.when (.modify fun _ => rfl)) fun _ => .pure _

theorem keeps_lastTdBody (td : Nat) : Keeps held (lastTdBody td) :=
  .bind .get fun _ => .ite (.pure _) (.pure _)

theorem keeps_ohciLinkTD (td₁ td₂ : Nat) : Keeps held (ohciLinkTD td₁ td₂) := by
  refine .ite (.pure _) (.ite (.pure _) ?_)
  exact .bind (.loop keeps_lastTdBody _ _) fun _ => keeps_modifyTd _ _

theorem keeps_ohciAttachTDListToED (ed headTd : Nat) : Keeps held (ohciAttachTDListToED ed headTd) := by
  refine .bind .get fun _ => .ite ?_ (keeps_modifyEd _ _)
  exact .bind (.loop keeps_lastTdBody _ _) fun _ => keeps_modifyTd _ _

theorem keeps_ohciAttachED (ed newEd : Nat) : Keeps held (ohciAttachED ed newEd) := by
  refine .ite (.pure _) (.bind .get fun _ => .bind (keeps_modifyEd _ _) fun _ => ?_)
  exact .when (keeps_modifyEd _ _)

theorem keeps_dataStageBody (buffer : Nat → Option Nat) (p : DataStage) (l : DataLocals) :
    Keeps held (dataStageBody asserts buffer p l) := by
  refine .ite (.bind (keeps_ohciCreateTD asserts _) fun td => .ite (.pure _) ?_) (.pure _)
  exact .bind (keeps_modifyTd _ _) fun _ => .bind (.when (keeps_ohciLinkTD _ _)) fun _ => .pure _

theorem keeps_emptyStage (buffer : Option Nat) (ed headTd : Nat) :
    Keeps held (emptyStage asserts buffer ed headTd) := by
  refine .bind (keeps_ohciCreateTD asserts _) fun td => .ite (.pure _) ?_
  refine .bind (keeps_modifyTd _ _) fun _ => .bind (keeps_ohciLinkTD _ _) fun _ => ?_
  refine .bind (keeps_modifyEd _ _) fun _ => ?_
  exact .bind (keeps_ohciAttachTDListToED _ _) fun _ => .pure _

theorem keeps_checkIfDone (look : Look) (byRegister : Bool) (ed headTd nextToggle : Nat) :
    Keeps held (checkIfDone look byRegister ed headTd nextToggle) := by
  refine .bind (.modify fun _ => rfl) fun _ => .bind .get fun _ => .ite (.pure _) ?_
  refine .bind (.loop (fun l => ?_) _ _) fun _ => .ite (.pure _) (.ite (.pure _) (.pure _))
  refine .bind .get fun _ => .ite (.ite (.pure _) (.ite (.pure _) (.pure _))) ?_
  exact .ite (.pure _) (.pure _)

/-! ## What a call leaves alone -/

theorem keeps_ohciFindMinInterruptEDList (depth : Nat) :
    Keeps held (ohciFindMinInterruptEDList asserts depth) := by
  have hcount : ∀ ed, Keeps held (countEdNum ed) := fun ed =>
    .loop (fun _ => .bind .get fun _ => .ite (.pure _) (.pure _)) _ _
  have hsearch : ∀ count index minEdNum tempEd,
      Keeps held (findMinEdList depth count minEdNum tempEd index) := by
    intro count index
    induction index with
    | zero => exact fun _ _ => .pure _
    | succ index ih =>
      intro minEdNum tempEd
      exact .bind .get fun _ => .bind (hcount _) fun _ => .ite (ih _ _) (ih _ _)
  refine .ite (.pure _) (.bind (hsearch _ _ _ _) fun _ => ?_)
  exact .bind (.ite (.halt _) (.pure _)) fun _ => .pure _

theorem keeps_ohciFindWorkingEd (edHead deviceAddress endPointNum edDir : Nat) :
    Keeps held (ohciFindWorkingEd edHead deviceAddress endPointNum edDir) :=
  .loop (fun _ => .bind .get fun _ => .ite (.pure _) (.ite (.pure _) (.pure _))) _ _

theorem keeps_ohciFreeInterruptEdByAddr (functionAddress endPointNum : Nat) :
    Keeps held (ohciFreeInterruptEdByAddr asserts functionAddress endPointNum) := by
  refine .bind (.serve (fun index => ?_) _) fun _ => .pure _
  refine .bind .get fun s => .when (.loop (fun ed => ?_) _ _)
  refine .bind .get fun s => .ite (.ite ?_ (.pure _)) (.pure _)
  refine .bind (keeps_modifyEd _ _) fun _ => ?_
  exact .bind (.when (keeps_freeMem asserts _ _)) fun _ => .pure _

theorem keeps_freeInterruptTdBuff (headTd headEd ed mapping : Nat) :
    Keeps held (freeInterruptTdBuff asserts headTd headEd ed mapping) := by
  refine .bind (keeps_freeTds asserts _) fun _ => .bind (.when ?_) fun _ => keeps_unmap _
  refine .bind (.loop (fun ed => ?_) _ _) fun _ => ?_
  · exact .bind .get fun _ => .ite (.halt _) (.ite (.pure _) (.pure _))
  · exact .bind .get fun _ => .bind (keeps_modifyEd _ _) fun _ => keeps_freeMem asserts _ _

theorem keeps_setPeriodicEnable (ok value : Bool) : Keeps held (setPeriodicEnable ok value) :=
  .when (.modify fun _ => rfl)

theorem keeps_interruptEd (buffer : Option Nat) (p : InterruptCall) :
    Keeps held (interruptEd asserts buffer p) := by
  refine .bind (keeps_ohciFindMinInterruptEDList asserts _) fun _ => ?_
  refine .bind (keeps_ohciFindWorkingEd _ _ _ _) fun _ => ?_
  refine .ite (.bind (keeps_modifyEd _ _) fun _ => .pure _) ?_
  refine .bind (keeps_ohciCreateED asserts _) fun _ => .ite (.pure _) ?_
  exact .bind (keeps_modifyEd _ _) fun _ => .bind (keeps_ohciAttachED _ _) fun _ => .pure _

theorem keeps_startInterrupt {p : InterruptCall} (hp : p.callBackFunction = false) (pf : CallPlatform)
    (m : Mapped) (headEd ed headTd dataToggle : Nat) :
    Keeps held (startInterrupt asserts pf p m headEd ed headTd dataToggle) := by
  have hno : ¬ p.callBackFunction = true := by rw [hp]; exact Bool.false_ne_true
  unfold startInterrupt
  rw [if_neg fun hyes => hno hyes.1]
  refine .bind ?_ fun _ => .bind (keeps_modifyEd _ _) fun _ => ?_
  · unfold Exec.when
    rw [if_neg hno]
    exact .pure _
  · exact .bind .get fun _ => .bind (.when (keeps_setPeriodicEnable _ _)) fun _ => .pure _

theorem keeps_newInterrupt {p : InterruptCall} (hp : p.callBackFunction = false) (pf : CallPlatform) :
    Keeps held (newInterrupt asserts pf p) := by
  refine .bind (keeps_map _) fun mapped => ?_
  cases mapped with
  | error status => exact .pure _
  | ok m =>
    refine .bind (keeps_interruptEd asserts _ _) fun r => ?_
    refine .ite (.bind (keeps_unmap _) fun _ => .pure _) ?_
    refine .bind (.loop (keeps_dataStageBody asserts _ _) _ _) fun l => ?_
    have hlast : ∀ status : EfiStatus, Keeps held (if status.isError = true then do
          freeInterruptTdBuff asserts l.2.headTd r.1 r.2 m.mapping
          pure ⟨status, 0, 0, l.2.dataToggle⟩
        else startInterrupt asserts pf p m r.1 r.2 l.2.headTd l.2.dataToggle) := fun status =>
      .ite (.bind (keeps_freeInterruptTdBuff asserts _ _ _ _) fun _ => .pure _)
        (keeps_startInterrupt asserts hp _ _ _ _ _ _)
    exact .ite (.bind (.pure _) hlast) (.bind (keeps_emptyStage asserts _ _ _) hlast)

theorem keeps_syncWait (look : Nat → Look) (ed headTd timeOut : Nat) :
    Keeps held (syncWait look ed headTd timeOut) := by
  refine .bind (keeps_checkIfDone _ _ _ _ _) fun _ => .bind (.loop (fun l => ?_) _ _) fun _ => .pure _
  exact .ite (.bind (keeps_checkIfDone _ _ _ _ _) fun _ => .pure _) (.pure _)

/-! ## A buffer that no entry owns -/

structure Pinned (u : Nat) (s : HcDev) : Prop where
  taken : u ∈ s.poolMemory
  unowned : ∀ a e, s.entry a = some e → a ≠ u ∧ e.uCBuffer ≠ u

variable {u : Nat} {s t : HcDev}

theorem Pinned.of_held (h : Pinned u s) (hsame : held t = held s) : Pinned u t := by
  have hentry : t.entry = s.entry := congrArg Prod.fst hsame
  have hpool : t.poolMemory = s.poolMemory := congrArg (fun x => x.2.2) hsame
  refine ⟨hpool ▸ h.taken, ?_⟩
  rw [hentry]
  exact h.unowned

theorem Pinned.wp_keeps {α : Type} {x : Exec HcDev α} (h : Pinned u s) (hx : Keeps held x) :
    wp x (fun _ => Pinned u) (fun _ _ => True) s :=
  hx.wp_of (fun _ _ _ hsame => h.of_held hsame) fun _ _ _ => trivial

theorem Pinned.update (h : Pinned u s) {a : Nat} {e? : Option InterruptContextEntry}
    (he : ∀ e, e? = some e → a ≠ u ∧ e.uCBuffer ≠ u) :
    Pinned u { s with entry := Function.update s.entry a e? } := by
  refine ⟨h.taken, fun b e hb => ?_⟩
  by_cases hba : b = a
  · subst hba
    exact he e ((Function.update_self b e? s.entry).symm.trans hb)
  · exact h.unowned b e ((Function.update_of_ne hba e? s.entry).symm.trans hb)

theorem Pinned.erase (h : Pinned u s) {buffer : Nat} (hne : buffer ≠ u) :
    Pinned u { s with poolMemory := s.poolMemory.erase buffer } :=
  ⟨(List.mem_erase_of_ne hne.symm).mpr h.taken, h.unowned⟩

theorem Pinned.wp_freeEntry (h : Pinned u s) (entry : Nat) :
    wp (ohciFreeInterruptContextEntry asserts entry) (fun _ => Pinned u) (fun _ _ => True) s := by
  unfold ohciFreeInterruptContextEntry
  rw [wp_bind, wp_get]
  cases he : s.entry entry with
  | none => trivial
  | some e =>
    obtain ⟨hentry, hbuffer⟩ := h.unowned entry e he
    dsimp only
    rw [wp_bind]
    refine wp_mono (h.wp_keeps (keeps_unmap _)) (fun _ s₁ h₁ => ?_) fun _ _ hE => hE
    rw [wp_bind, wp_when]
    have hrest : ∀ s₂, Pinned u s₂ → wp (do
        freeTds asserts e.dataTd
        freePool entry
        Exec.modify fun s => { s with entry := Function.update s.entry entry none })
        (fun _ => Pinned u) (fun _ _ => True) s₂ := by
      intro s₂ h₂
      rw [wp_bind]
      refine wp_mono (h₂.wp_keeps (keeps_freeTds asserts _)) (fun _ s₃ h₃ => ?_) fun _ _ hE => hE
      rw [wp_bind]
      exact (h₃.erase hentry).update nofun
    exact ⟨fun _ => hrest _ (h₁.erase hbuffer), fun _ => hrest _ h₁⟩

theorem wp_readEntry {Q : InterruptContextEntry → HcDev → Prop} {a : Nat}
    (hQ : ∀ e, s.entry a = some e → Q e s) : wp (readEntry a) Q (fun _ _ => True) s := by
  unfold readEntry
  rw [wp_bind, wp_get]
  cases he : s.entry a with
  | none => trivial
  | some e => exact hQ e he

theorem Pinned.wp_freeContext (h : Pinned u s) (deviceAddress endPointAddress dataToggle : Nat) :
    wp (ohciFreeInterruptContext asserts deviceAddress endPointAddress dataToggle) (fun _ => Pinned u)
      (fun _ _ => True) s := by
  have hhead : wp (.loop walkLimit (freeHeadBody asserts deviceAddress endPointAddress) dataToggle)
      (fun _ => Pinned u) (fun _ _ => True) s := by
    refine wp_loop (fun _ => Pinned u) (fun l s₁ h₁ => ?_) (fun _ _ _ => trivial) walkLimit h
    unfold freeHeadBody
    rw [wp_bind, wp_get, wp_ite]
    refine ⟨fun _ => h₁, fun _ => ?_⟩
    rw [wp_bind]
    refine wp_readEntry fun e _ => ?_
    rw [wp_ite]
    refine ⟨fun _ => ?_, fun _ => h₁⟩
    rw [wp_bind, wp_modify, wp_bind]
    have h₂ : Pinned u { s₁ with interruptContextList := e.nextEntry } := ⟨h₁.taken, h₁.unowned⟩
    exact wp_mono (h₂.wp_freeEntry asserts _) (fun _ _ h₃ => h₃) fun _ _ hE => hE
  unfold ohciFreeInterruptContext
  rw [wp_bind]
  refine wp_mono hhead (fun _ s₁ h₁ => ?_) fun _ _ hE => hE
  rw [wp_bind, wp_get, wp_ite]
  refine ⟨fun _ => h₁, fun _ => ?_⟩
  refine wp_loop (fun _ => Pinned u) (fun l s₂ h₂ => ?_) (fun _ _ _ => trivial) walkLimit h₁
  -- the entries behind the head
  unfold freeBehindBody
  rw [wp_bind]
  refine wp_readEntry fun e he => ?_
  rw [wp_ite]
  refine ⟨fun _ => h₂, fun _ => ?_⟩
  rw [wp_bind]
  refine wp_readEntry fun next _ => ?_
  rw [wp_ite]
  refine ⟨fun _ => ?_, fun _ => h₂⟩
  rw [wp_bind, wp_get, wp_bind, wp_modify, wp_bind]
  have h₃ : Pinned u { s₂ with
      entry := Function.update s₂.entry l.1 (some { e with nextEntry := next.nextEntry }) } :=
    h₂.update fun e' he' => by
      injection he' with he'
      subst he'
      exact h₂.unowned l.1 e he
  exact wp_mono (h₃.wp_freeEntry asserts _) (fun _ _ h₄ => h₄) fun _ _ hE => hE

theorem Pinned.wp_call (h : Pinned u s) {p : InterruptCall} (hp : p.callBackFunction = false)
    (pf : CallPlatform) :
    wp (ohciInterruptTransfer asserts pf p) (fun _ => Pinned u) (fun _ _ => True) s := by
  unfold ohciInterruptTransfer
  rw [wp_ite, wp_ite]
  refine ⟨fun _ => h, fun _ => ⟨fun _ => ?_, fun _ => h.wp_keeps (keeps_newInterrupt asserts hp pf)⟩⟩
  rw [wp_bind]
  refine wp_mono (h.wp_keeps (keeps_setPeriodicEnable _ _)) (fun _ s₁ h₁ => ?_) fun _ _ hE => hE
  rw [wp_bind]
  refine wp_mono (h₁.wp_freeContext asserts _ _ _) (fun _ s₂ h₂ => ?_) fun _ _ hE => hE
  rw [wp_bind]
  refine wp_mono (h₂.wp_keeps (keeps_ohciFreeInterruptEdByAddr asserts _ _)) (fun _ s₃ h₃ => ?_)
    fun _ _ hE => hE
  rw [wp_bind]
  exact wp_mono (h₃.wp_keeps (keeps_setPeriodicEnable _ _)) (fun _ _ h₄ => h₄) fun _ _ hE => hE

end

/-! ## Control, bulk and synchronous interrupt transfers -/

/-- A transfer that the driver waits for, and what the platform does during it. -/
inductive WaitedTransfer where
  | listed (e : TransferRequest)
  | syncInterrupt (pf pfDown : Platform) (p : SyncCall)

def serveWaited (asserts : Bool) : WaitedTransfer → Exec HcDev TransferResult
  | .listed e => serveTransfer asserts e
  | .syncInterrupt pf pfDown p => ohciSyncInterruptTransfer asserts pf pfDown p

def Releases (asserts : Bool) (e : WaitedTransfer) (s : HcDev) : Prop :=
  ∃ r t, serveWaited asserts e s = .ret r t ∧ Restored s t

/-- The pool is sound, and the interrupt transfers have their memory from `AllocatePool`. -/
structure MemoryInOrder (s : HcDev) : Prop where
  sound : Sound s.memPool
  owned : ∀ a e, s.entry a = some e →
    a ∈ s.poolMemory ∧ (e.uCBuffer ≠ 0 → e.uCBuffer ∈ s.poolMemory)

/-- What the platform promises: `AllocatePool` returns memory that is not in use. -/
def WaitedPromised : WaitedTransfer → HcDev → Prop
  | .listed e, s => Promised e s
  | .syncInterrupt pf _ _, s => pf.pool 0 ∉ s.poolMemory

def WaitedTransfer.takesNoBuffer : WaitedTransfer → Bool
  | .listed _ => true
  | .syncInterrupt pf _ p => p.request.invalid = true ∨ pf.pool 0 = 0

theorem syncInterrupt_pinned (asserts : Bool) (pf pfDown : Platform) (p : SyncCall) {s : HcDev}
    (hs : MemoryInOrder s) (hfresh : pf.pool 0 ∉ s.poolMemory) (hvalid : ¬ p.request.invalid = true)
    (hbuffer : pf.pool 0 ≠ 0) :
    wp (ohciSyncInterruptTransfer asserts pf pfDown p) (fun _ => Pinned (pf.pool 0)) (fun _ _ => True) s := by
  unfold ohciSyncInterruptTransfer
  dsimp only
  rw [if_neg hvalid, if_neg hbuffer, wp_bind, wp_modify]
  have htaken : Pinned (pf.pool 0) { s with poolMemory := pf.pool 0 :: s.poolMemory } := by
    refine ⟨List.mem_cons_self, fun a e he => ?_⟩
    obtain ⟨hentry, huc⟩ := hs.owned a e he
    refine ⟨fun heq => hfresh (heq ▸ hentry), fun heq => hfresh ?_⟩
    rw [← heq]
    exact huc (heq ▸ hbuffer)
  rw [wp_bind]
  refine wp_mono (htaken.wp_call asserts rfl _) (fun up s₁ h₁ => ?_) fun _ _ hE => hE
  have hdown : ∀ (transferResult : Option Nat) s₂, Pinned (pf.pool 0) s₂ → wp (do
      let down ← ohciInterruptTransfer asserts ⟨pfDown, 0⟩ (p.takeDown up.dataToggle)
      pure (⟨down.status, p.request.dataLength, some down.dataToggle, transferResult⟩ : TransferResult))
      (fun _ => Pinned (pf.pool 0)) (fun _ _ => True) s₂ := by
    intro transferResult s₂ h₂
    rw [wp_bind]
    exact wp_mono (h₂.wp_call asserts rfl _) (fun _ _ h₃ => h₃) fun _ _ hE => hE
  rw [wp_ite]
  refine ⟨fun _ => hdown _ s₁ h₁, fun _ => ?_⟩
  rw [wp_bind]
  refine wp_mono (h₁.wp_keeps (keeps_syncWait _ _ _ _)) (fun result s₂ h₂ => ?_) fun _ _ hE => hE
  exact hdown _ s₂ h₂

/-- Control and bulk transfers release what they take; a synchronous interrupt transfer does so exactly if it
takes no buffer in the first place. -/
theorem waitedTransfer_releases_iff (asserts : Bool) (e : WaitedTransfer) (s : HcDev)
    (hs : MemoryInOrder s) (hpromised : WaitedPromised e s) :
    Releases asserts e s ↔ e.takesNoBuffer = true := by
  cases e with
  | listed e =>
    refine iff_of_true ?_ rfl
    cases e with
    | control pf p =>
      obtain ⟨r, t, hrun, hout⟩ :=
        ohciControlTransfer_ret asserts pf p ⟨hs.sound, hpromised.1⟩ hpromised.2
      exact ⟨r, t, hrun, hout.restored⟩
    | bulk pf p =>
      obtain ⟨r, t, hrun, hout⟩ :=
        ohciBulkTransfer_ret asserts pf p ⟨hs.sound, hpromised.1⟩ hpromised.2
      exact ⟨r, t, hrun, hout.restored⟩
  | syncInterrupt pf pfDown p =>
    have hiff : (WaitedTransfer.syncInterrupt pf pfDown p).takesNoBuffer = true ↔
        p.request.invalid = true ∨ pf.pool 0 = 0 := decide_eq_true_iff
    rw [hiff]
    constructor
    · rintro ⟨r, t, hrun, hrestored⟩
      by_contra hno
      rw [not_or] at hno
      have hpinned := wp_of_ret (syncInterrupt_pinned asserts pf pfDown p hs hpromised hno.1 hno.2) hrun
      have htaken := hpinned.taken
      rw [hrestored.poolMemory] at htaken
      exact hpromised htaken
    · intro hnone
      by_cases hinvalid : p.request.invalid = true
      · exact ⟨_, s, congrFun (if_pos hinvalid) s, Restored.refl s⟩
      · have hbuffer := hnone.resolve_left hinvalid
        exact ⟨_, s, (congrFun (if_neg hinvalid) s).trans (congrFun (if_pos hbuffer) s), Restored.refl s⟩

def poolPlatform : Platform := { quietPlatform (.ok ⟨0x2000, 8, 7⟩) with pool := fun _ => 0x9000 }

def syncOf8Bytes : SyncCall where
  deviceAddress := 1
  timeOut := 0
  request := ⟨0x81, true, 8, 0x8000, some 8, some 0, some 0⟩

def syncTransferOf8 : WaitedTransfer := .syncInterrupt poolPlatform poolPlatform syncOf8Bytes

theorem waitedTransfer_releases_iff_syncOf8 :
    Releases true syncTransferOf8 resetDev ↔ syncTransferOf8.takesNoBuffer = true :=
  waitedTransfer_releases_iff true syncTransferOf8 resetDev
    ⟨resetDev_sound, fun _ _ he => by cases he⟩ List.not_mem_nil

/-- A transfer on a tree that has just been built returns and leaves its buffer behind. -/
theorem syncInterrupt_not_releases :
    (serveWaited true syncTransferOf8 treeDev).value?.isSome = true ∧
      ¬ Releases true syncTransferOf8 treeDev := by
  have hrun : (serveWaited true syncTransferOf8 treeDev).value?.isSome = true ∧
      (serveWaited true syncTransferOf8 treeDev).state.poolMemory ≠ treeDev.poolMemory := by
    decide +kernel
  refine ⟨hrun.1, ?_⟩
  rintro ⟨r, t, hret, hrestored⟩
  rw [hret] at hrun
  exact hrun.2 hrestored.poolMemory

end Quark.Ohci.Transfer
