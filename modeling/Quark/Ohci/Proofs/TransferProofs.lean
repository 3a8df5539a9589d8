import Quark.Ohci.Proofs.ControlProofs

/-!
# Runs of control and bulk transfers

The lists that the controller is given, and what stays reachable for it after the transfers.
-/

namespace Quark.Ohci.Transfer

open Machine Exec

/-! ## A pool, a device and a platform to begin with -/

def emptyBlock : MemBlock where
  bits _ := 0
  bitsLen := 128
  bufHost := 0x10000
  bufLen := 0x10000

def resetDev : HcDev where
  memPool := [emptyBlock]
  td _ := zeroTd
  ed _ := zeroEd
  controlHead := 0
  bulkHead := 0
  periodicEnable := false
  controlEnable := false
  bulkEnable := false
  listFilled := false
  mappings := []
  poolMemory := []
  entry _ := none
  interruptContextList := 0
  hccaInterruptTable _ := 0
  intervalList _ _ := 0
  rung := []

def idleLook : Look where
  td _ := ⟨0, 0, 0xF, 0, 0⟩
  ed _ := ⟨0, 0, 0⟩
  listFilled := true

/-- A platform where everything succeeds, the data are mapped as given by the argument, and the
controller does nothing. -/
def quietPlatform (data : Except EfiStatus Mapped) : Platform where
  write _ := true
  buffer _ := none
  mapRequest _ _ _ := .ok ⟨0x3000, 8, 7⟩
  mapData _ _ _ := data
  pool _ := 0
  look _ := idleLook

def bulkOf20 : BulkRequest where
  deviceAddress := 1
  endPointAddress := 2
  maxPacketLength := 8
  data := 0x2000
  dataLength := some 20
  dataToggle := some 1
  timeOut := 1
  transferResult := some 0

theorem emptyBlock_sound : emptyBlock.Sound := by
  refine ⟨by decide, by decide, rfl, by decide⟩

theorem resetDev_sound : Sound resetDev.memPool := by
  refine ⟨List.cons_ne_nil _ _, fun b hb => ?_, List.pairwise_singleton _ _, fun b hb => by cases hb⟩
  rw [List.mem_singleton.mp hb]
  exact emptyBlock_sound

theorem resetDev_start (data : Except EfiStatus Mapped) :
    TransferStart (quietPlatform data) resetDev :=
  ⟨resetDev_sound, ⟨fun _ _ _ h => (nomatch h), fun _ _ _ _ _ _ _ h => (nomatch h)⟩⟩

/-! ## The lists that the controller is given -/

def HandedOut (pool : MemPool) (a : Nat) : Prop :=
  ∃ b ∈ pool, ∃ k < b.units, b.unitAddress k = a ∧ b.isSet k = true

/-- An ED is reached from a head by the links of the controller. -/
inductive OnList (mem : Nat → EdDescriptor) : Nat → Nat → Prop
  | here {ed : Nat} (hne : ed ≠ 0) : OnList mem ed ed
  | next {ed ed' : Nat} (hne : ed ≠ 0) (hrest : OnList mem (mem ed).nextED ed') : OnList mem ed ed'

/-- No ED that the controller can reach from `HC_CONTROL_HEAD` or `HC_BULK_HEAD` has been given back to
the pool. -/
def NoFreedEd (s : HcDev) : Prop :=
  ∀ list ed, OnList s.ed (s.head list) ed → HandedOut s.memPool ed

/-- A transfer, and what the platform does during it. -/
inductive TransferRequest where
  | control (pf : Platform) (p : ControlRequest)
  | bulk (pf : Platform) (p : BulkRequest)

def serveTransfer (asserts : Bool) : TransferRequest → Exec HcDev TransferResult
  | .control pf p => ohciControlTransfer asserts pf p
  | .bulk pf p => ohciBulkTransfer asserts pf p

def Promised : TransferRequest → HcDev → Prop
  | .control pf p, s => FreshFrom 0 s.memPool pf.buffer ∧ p.DataBelow pf
  | .bulk pf p, s => FreshFrom 0 s.memPool pf.buffer ∧ MapContract (p.mapAnswer pf)

def Strands : TransferRequest → HcDev → Prop
  | .control pf p, s => p.Strands pf s
  | .bulk pf p, s => p.Strands pf s

structure BetweenTransfers (s : HcDev) : Prop where
  sound : Sound s.memPool
  empty : ∀ list, s.head list = 0

theorem BetweenTransfers.noFreedEd {s : HcDev} (h : BetweenTransfers s) : NoFreedEd s := by
  intro list ed hed
  rw [h.empty list] at hed
  cases hed with
  | here hne => exact absurd rfl hne
  | next hne _ => exact absurd rfl hne

theorem HeadsKept.between {list : ListType} {stranded : Prop} {s t : HcDev}
    (h : HeadsKept list stranded s t) (hs : BetweenTransfers s) (hrestored : Restored s t)
    (hnot : ¬ stranded) : BetweenTransfers t := by
  refine ⟨?_, fun list' => ?_⟩
  · rw [hrestored.memPool]
    exact hs.sound
  · by_cases heq : list' = list
    · rw [heq]
      exact h.empty (hs.empty list) hnot
    · rw [h.otherHead list' heq]
      exact hs.empty list'

theorem serveTransfer_between (asserts : Bool) (e : TransferRequest) (s : HcDev)
    (hs : BetweenTransfers s) (he : Promised e s ∧ ¬ Strands e s) :
    wp (serveTransfer asserts e) (fun _ => BetweenTransfers) (fun _ _ => False) s := by
  obtain ⟨hpromised, hnot⟩ := he
  cases e with
  | control pf p =>
    obtain ⟨r, t, hrun, hout⟩ :=
      ohciControlTransfer_ret asserts pf p ⟨hs.sound, hpromised.1⟩ hpromised.2
    exact wp_of_eq_ret hrun (hout.heads.between hs hout.restored hnot)
  | bulk pf p =>
    obtain ⟨r, t, hrun, hout⟩ :=
      ohciBulkTransfer_ret asserts pf p ⟨hs.sound, hpromised.1⟩ hpromised.2
    exact wp_of_eq_ret hrun (hout.heads.between hs hout.restored hnot)

/-- As long as no transfer leaves its ED on a list, the controller can reach no ED that has been given
back. -/
theorem serveTransfer_noFreedEd (asserts : Bool) (s : HcDev) (hs : BetweenTransfers s)
    (requests : List TransferRequest)
    (h : EachMeets (serveTransfer asserts) (fun e s => Promised e s ∧ ¬ Strands e s) requests s) :
    wp (serve (serveTransfer asserts) requests) (fun _ => NoFreedEd) (fun _ _ => False) s := by
  refine wp_mono (wp_serve (serveTransfer_between asserts) requests s h hs) ?_ fun _ _ hE => hE
  exact fun _ t ht => ht.noFreedEd

theorem bulkOf20_meets : Promised (.bulk (quietPlatform (.ok ⟨0x2000, 20, 8⟩)) bulkOf20) resetDev ∧
    ¬ Strands (.bulk (quietPlatform (.ok ⟨0x2000, 20, 8⟩)) bulkOf20) resetDev := by
  refine ⟨⟨(resetDev_start (.ok ⟨0x2000, 20, 8⟩)).fresh, ?_⟩, fun hstrands => ?_⟩
  · rintro m hm
    cases hm
    decide
  · rcases hstrands.stuck with hno | hno
    · exact hno _ rfl
    · cases hno

theorem serveTransfer_noFreedEd_reset :
    wp (serve (serveTransfer true) [.bulk (quietPlatform (.ok ⟨0x2000, 20, 8⟩)) bulkOf20])
      (fun _ => NoFreedEd) (fun _ _ => False) resetDev := by
  have hmeets := bulkOf20_meets
  have hbetween : BetweenTransfers resetDev :=
    ⟨resetDev_sound, fun list => by cases list <;> rfl⟩
  revert hmeets hbetween
  generalize (TransferRequest.bulk (quietPlatform (.ok ⟨0x2000, 20, 8⟩)) bulkOf20) = e
  generalize resetDev = s
  intro hmeets hbetween
  exact serveTransfer_noFreedEd true s hbetween [e] (eachMeets_cons.mpr ⟨hmeets, by
    cases serveTransfer true e s <;> trivial⟩)

/-- `PciIo->Map` fails for a bulk transfer, and the ED that has been given back is the head of the bulk
list. -/
theorem serveTransfer_not_noFreedEd :
    ∃ pf p t, BetweenTransfers resetDev ∧ Promised (.bulk pf p) resetDev ∧
      (serve (serveTransfer true) [.bulk pf p] : Exec HcDev Unit) resetDev = .ret () t ∧
      ¬ NoFreedEd t := by
  obtain ⟨r, t, hrun, hout⟩ := ohciBulkTransfer_ret true (quietPlatform (.error .outOfResources))
    bulkOf20 (resetDev_start _) (fun m hm => by cases hm)
  refine ⟨quietPlatform (.error .outOfResources), bulkOf20, t,
    ⟨resetDev_sound, fun list => by cases list <;> rfl⟩,
    ⟨(resetDev_start (.error .outOfResources)).fresh, fun m hm => by cases hm⟩,
    (bind_of_ret hrun).trans rfl, fun hno => ?_⟩
  have hhead : t.head .bulkList = 0x10000 := by
    have hstate : ((ohciBulkTransfer true (quietPlatform (.error .outOfResources)) bulkOf20
        resetDev).state).bulkHead = 0x10000 := by decide +kernel
    rw [hrun] at hstate
    exact hstate
  obtain ⟨b, hb, k, -, -, hset⟩ := hno .bulkList 0x10000 (by rw [hhead]; exact .here (by decide))
  rw [hout.restored.memPool] at hb
  rw [List.mem_singleton.mp hb] at hset
  unfold MemBlock.isSet emptyBlock at hset
  simp at hset

/-! ## When the toggle of a bulk pipe is right

`CheckEDStatus` goes over the completed TDs to the first one that is not, so its answer is about that one and the
one in front of it.
-/

section

variable {td : Nat → TdDescriptor} {data : List Nat} {firstToggle toggle : Nat}

theorem RetiredInOrder.take_drop (h : RetiredInOrder td data) :
    (∀ a ∈ data.take (completedTds td data), (td a).conditionCode = 0) ∧
      ∀ a ∈ data.drop (completedTds td data), (td a).conditionCode ≠ 0 := by
  induction data with
  | nil => exact ⟨nofun, nofun⟩
  | cons a data ih =>
    obtain ⟨hhead, htail⟩ := List.pairwise_cons.mp h
    by_cases ha : (td a).conditionCode = 0
    · have hcount : completedTds td (a :: data) = completedTds td data + 1 :=
        List.countP_cons_of_pos (decide_eq_true ha)
      obtain ⟨htake, hdrop⟩ := ih htail
      rw [hcount, List.take_succ_cons, List.drop_succ_cons]
      refine ⟨fun b hb => ?_, hdrop⟩
      rcases List.mem_cons.mp hb with rfl | hb
      · exact ha
      · exact htake b hb
    · -- no TD behind this one is completed
      have hnone : ∀ b ∈ a :: data, (td b).conditionCode ≠ 0 := by
        intro b hb hcode
        rcases List.mem_cons.mp hb with rfl | hb
        · exact ha hcode
        · exact ha (hhead b hb hcode)
      have hcount : completedTds td (a :: data) = 0 := by
        refine List.countP_eq_zero.mpr fun b hb => ?_
        rw [decide_eq_true_eq]
        exact hnone b hb
      rw [hcount]
      exact ⟨nofun, hnone⟩

theorem completedTds_le (td : Nat → TdDescriptor) (data : List Nat) : completedTds td data ≤ data.length :=
  List.countP_le_length

theorem edResult_append {done : List Nat} (hdone : ∀ a ∈ done, (td a).conditionCode = 0) (rest : List Nat) :
    edResult td (done ++ rest) toggle = edResult td rest (match done.getLast? with
      | none => toggle
      | some b => ((td b).dataToggle &&& 1) ^^^ 1) := by
  induction done generalizing toggle with
  | nil => rfl
  | cons a done ih =>
    have ha := hdone a List.mem_cons_self
    have hstep : edResult td (a :: done ++ rest) toggle =
        edResult td (done ++ rest) (((td a).dataToggle &&& 1) ^^^ 1) := if_neg (not_not.mpr ha)
    rw [hstep, ih fun b hb => hdone b (List.mem_cons_of_mem a hb)]
    cases done with
    | nil => rfl
    | cons b done =>
      rw [List.getLast?_cons_cons]
      cases hlast : (b :: done).getLast? with
      | none =>
        rw [List.getLast?_eq_none_iff] at hlast
        cases hlast
      | some z => rfl

theorem RetiredInOrder.edResult_eq (h : RetiredInOrder td data) :
    edResult td data toggle = edResult td (data.drop (completedTds td data))
      (match (data.take (completedTds td data)).getLast? with
      | none => toggle
      | some b => ((td b).dataToggle &&& 1) ^^^ 1) := by
  have hsplit : edResult td (data.take (completedTds td data) ++ data.drop (completedTds td data)) toggle = _ :=
    edResult_append h.take_drop.1 (data.drop (completedTds td data))
  rwa [List.take_append_drop] at hsplit

theorem xor_eq_xor_iff (a b c : Nat) : a ^^^ b = a ^^^ c ↔ b = c := by
  refine ⟨fun h => ?_, fun h => by rw [h]⟩
  have hcancel := congrArg (a ^^^ ·) h
  simpa [← Nat.xor_assoc] using hcancel

theorem xor_parity_eq_iff {n k : Nat} (hle : k ≤ n) :
    firstToggle ^^^ (n % 2) = firstToggle ^^^ (k % 2) ↔ (n - k) % 2 = 0 := by
  rw [xor_eq_xor_iff]
  omega

theorem next_of_last {k bit : Nat} (hk : 0 < k) :
    (bit &&& 1) ^^^ 1 = firstToggle ^^^ (k % 2) ↔ bit % 2 = firstToggle ^^^ ((k - 1) % 2) := by
  have hflip := xor_toggle firstToggle (k - 1)
  rw [Nat.sub_add_cancel hk] at hflip
  rw [← hflip, Nat.xor_comm _ 1, Nat.xor_comm _ 1, xor_eq_xor_iff, Nat.and_one_is_mod]

theorem BulkReport.reports_iff {pf : Platform} {r : TransferResult} {listFilled : Bool}
    (h : BulkReport pf firstToggle data r td listFilled) (hsteady : Steady pf.look data)
    (horder : RetiredInOrder td data) :
    ReportsToggle firstToggle data td r ↔ ToggleRight firstToggle data td listFilled := by
  obtain ⟨toggle, result, hresult, hreport, hfirst⟩ := h
  have hle := completedTds_le td data
  obtain ⟨hdone, hleft⟩ := horder.take_drop
  have hwalk : edResult td data toggle = _ := horder.edResult_eq
  have hlength : data.length = completedTds td data + (data.drop (completedTds td data)).length := by
    rw [List.length_drop]
    omega
  unfold ReportsToggle ToggleRight
  cases hrest : data.drop (completedTds td data) with
  | nil =>
    -- all are completed, whatever the list-filled bit says
    rw [hrest] at hlength hwalk
    have hall : data.length = completedTds td data := hlength
    have hcode : ¬ (result.errorCode ≠ tdNoError ∧ result.errorCode ≠ tdTobeProcessed) := by
      rw [hresult]
      split
      · exact fun hand => hand.2 rfl
      · rw [hwalk]
        exact fun hand => hand.1 rfl
    rw [hreport, if_neg hcode, hall]
    exact iff_of_true rfl nofun
  | cons a rest =>
    rw [hrest] at hwalk hleft
    have ha : (td a).conditionCode ≠ 0 := hleft a List.mem_cons_self
    have hstop : edResult td data toggle = ⟨(td a).conditionCode,
        match (data.take (completedTds td data)).getLast? with
        | none => toggle
        | some b => ((td b).dataToggle &&& 1) ^^^ 1⟩ := hwalk.trans (if_pos ha)
    have hhead : ∀ P : Nat → Prop, (∀ x ∈ (a :: rest).head?, P x) ↔ P a :=
      fun P => ⟨fun hall => hall a rfl, fun hP x hx => Option.mem_some_iff.mp hx ▸ hP⟩
    rw [hhead]
    by_cases hwait : listFilled = true ∨ (td a).conditionCode = tdTobeProcessed
    · have hcode : result.errorCode = tdTobeProcessed := by
        rw [hresult]
        split
        · rfl
        · next hfilled =>
          rw [hstop]
          exact hwait.resolve_left hfilled
      rw [if_pos hwait, hreport, if_neg fun hand => hand.2 hcode, Option.some_inj]
      exact xor_parity_eq_iff hle
    · rw [not_or] at hwait
      rw [if_neg hwait.1] at hresult
      have hcode : result.errorCode ≠ tdNoError ∧ result.errorCode ≠ tdTobeProcessed := by
        rw [hresult, hstop]
        exact ⟨ha, hwait.2⟩
      rw [if_neg (not_or.mpr hwait), hreport, if_pos hcode, Option.some_inj, hresult, hstop]
      cases hlast : (data.take (completedTds td data)).getLast? with
      | none =>
        -- the first TD has failed
        have hnil := List.getLast?_eq_none_iff.mp hlast
        have hzero : completedTds td data = 0 := by
          have hlen := congrArg List.length hnil
          rw [List.length_take, List.length_nil] at hlen
          omega
        have htoggle : toggle = firstToggle := by
          refine hfirst hsteady fun b hb => ?_
          rw [hzero, List.drop_zero] at hrest
          rw [hrest] at hb
          exact Option.mem_some_iff.mp hb ▸ ha
        rw [hzero]
        refine iff_of_true ?_ nofun
        show toggle = firstToggle ^^^ 0
        rw [Nat.xor_zero, htoggle]
      | some b =>
        have hpos : 0 < completedTds td data := by
          refine Nat.pos_of_ne_zero fun hzero => ?_
          rw [hzero] at hlast
          cases hlast
        refine (next_of_last hpos).trans ⟨fun hb x hx => ?_, fun hall => hall b rfl⟩
        rw [← Option.mem_some_iff.mp hx]
        exact hb

end

/-- In every bulk transfer whose list has been given to a controller that retires TDs for good and in order, the
toggle that is reported is the one behind the completed TDs exactly when `ToggleRight` holds at the last look. -/
theorem bulkTransfer_reportsToggle_iff (asserts : Bool) (pf : Platform) (s : HcDev)
    (hstart : TransferStart pf s) (p : BulkRequest) (hcontract : MapContract (p.mapAnswer pf)) :
    ∃ r t, ohciBulkTransfer asserts pf p s = .ret r t ∧
      (t.rung = s.rung ∨ ∃ g ed mapped data q, p.mapAnswer pf = .ok mapped ∧ t.rung = g :: s.rung ∧
        ExactList g ed [] data [] q mapped p.maxPacketLength (p.dataToggle.getD 0) ∧
        (pf.write .enableList = true → Steady pf.look data → RetiredInOrder t.td data →
          (ReportsToggle (p.dataToggle.getD 0) data t.td r ↔
            ToggleRight (p.dataToggle.getD 0) data t.td t.listFilled))) := by
  obtain ⟨r, t, hrun, hout⟩ := ohciBulkTransfer_ret asserts pf p hstart hcontract
  refine ⟨r, t, hrun, ?_⟩
  rcases hout.rung with hrung | ⟨g, ed, m, data, q, hm, hg, -, hexact, hreport⟩
  · exact .inl hrung
  · exact .inr ⟨g, ed, m, data, q, hm, hg, hexact,
      fun henable hsteady horder => (hreport henable).reports_iff hsteady horder⟩

theorem bulkTransfer_reportsToggle_iff_bulkOf20 :
    ∃ r t, ohciBulkTransfer true (quietPlatform (.ok ⟨0x2000, 20, 8⟩)) bulkOf20 resetDev = .ret r t ∧
      (t.rung = resetDev.rung ∨ ∃ g ed mapped data q,
        bulkOf20.mapAnswer (quietPlatform (.ok ⟨0x2000, 20, 8⟩)) = .ok mapped ∧
        t.rung = g :: resetDev.rung ∧
        ExactList g ed [] data [] q mapped bulkOf20.maxPacketLength (bulkOf20.dataToggle.getD 0) ∧
        ((quietPlatform (.ok ⟨0x2000, 20, 8⟩)).write .enableList = true →
          Steady (quietPlatform (.ok ⟨0x2000, 20, 8⟩)).look data → RetiredInOrder t.td data →
          (ReportsToggle (bulkOf20.dataToggle.getD 0) data t.td r ↔
            ToggleRight (bulkOf20.dataToggle.getD 0) data t.td t.listFilled))) := by
  refine bulkTransfer_reportsToggle_iff true _ resetDev (resetDev_start (.ok ⟨0x2000, 20, 8⟩)) bulkOf20 ?_
  rintro m hm
  cases hm
  decide

/-- The controller has done nothing within the time, and the toggle has been flipped for each of three TDs. -/
theorem bulkTransfer_not_reportsToggle :
    ∃ r t g, ohciBulkTransfer true (quietPlatform (.ok ⟨0x2000, 20, 8⟩)) bulkOf20 resetDev = .ret r t ∧
      t.rung = [g] ∧
      Machine.Linked TdDescriptor.nextTD (fun a => some (g.td a)) (16 * (g.ed g.head).tdHeadPointer)
        [0x10040, 0x10080, 0x100C0, 0x10100] ∧
      bulkOf20.dataToggle = some 1 ∧ completedTds t.td [0x10040, 0x10080, 0x100C0] = 0 ∧
      ¬ ReportsToggle 1 [0x10040, 0x10080, 0x100C0] t.td r := by
  have hvalue : (ohciBulkTransfer true (quietPlatform (.ok ⟨0x2000, 20, 8⟩)) bulkOf20
      resetDev).value?.map TransferResult.dataToggle = some (some 0) := by decide +kernel
  have hcount : completedTds (ohciBulkTransfer true (quietPlatform (.ok ⟨0x2000, 20, 8⟩)) bulkOf20
      resetDev).state.td [0x10040, 0x10080, 0x100C0] = 0 := by decide +kernel
  -- the list that the controller has been given
  have hrung : (ohciBulkTransfer true (quietPlatform (.ok ⟨0x2000, 20, 8⟩)) bulkOf20
      resetDev).state.rung.map (fun g => [16 * (g.ed g.head).tdHeadPointer, (g.td 0x10040).nextTD,
        (g.td 0x10080).nextTD, (g.td 0x100C0).nextTD, (g.td 0x10100).nextTD]) =
      [[0x10040, 0x10080, 0x100C0, 0x10100, 0]] := by decide +kernel
  cases hrun : ohciBulkTransfer true (quietPlatform (.ok ⟨0x2000, 20, 8⟩)) bulkOf20 resetDev with
  | stop w t =>
    rw [hrun] at hvalue
    cases hvalue
  | ret r t =>
    rw [hrun] at hvalue hcount hrung
    have htoggle : r.dataToggle = some 0 := Option.some_inj.mp hvalue
    obtain ⟨g, hg, hlinks⟩ := List.map_eq_singleton_iff.mp hrung
    simp only [List.cons.injEq, and_true] at hlinks
    obtain ⟨hhead, h₁, h₂, h₃, h₄⟩ := hlinks
    refine ⟨r, t, g, rfl, hg, ⟨hhead, by decide, _, rfl, h₁, by decide, _, rfl, h₂,
      by decide, _, rfl, h₃, by decide, _, rfl, h₄⟩, rfl, hcount, ?_⟩
    change completedTds t.td _ = 0 at hcount
    unfold ReportsToggle
    rw [hcount, htoggle]
    decide

end Quark.Ohci.Transfer
