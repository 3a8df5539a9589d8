import Mathlib.Data.List.Chain
import Mathlib.Data.List.Range
import Quark.Ohci.Proofs.ScheduleProofs

/-!
# Data stages

The loop that splits the mapped buffer into packets. After `k` passes there are `k` data TDs in the list,
the `i`-th of them for the packet at `i * MaxPacketLength`.
-/

namespace Quark.Ohci.Transfer

open Machine Exec

def dataTd (p : DataStage) (mapped : Mapped) (toggle i : Nat) : TdDescriptor :=
  dataTdFields p.dataPidDir (toggle ^^^ (i % 2)) (mapped.phyAddr + i * p.maxPacketLength)
    (min p.maxPacketLength (mapped.length - i * p.maxPacketLength)) zeroTd

def dataTds (p : DataStage) (mapped : Mapped) (toggle count : Nat) : List TdDescriptor :=
  (List.range count).map (dataTd p mapped toggle)

/-- Where a data stage starts: the TDs that are in the list already, and what the pool has given
besides. -/
structure DataStart where
  s : HcDev
  pre : List Nat
  rest : List Allocation
  pool₀ : MemPool
  index : Nat

/-- The TDs at `tds` have been built for the first packets. -/
structure Split (buffer : Nat → Option Nat) (p : DataStage) (mapped : Mapped) (toggle : Nat)
    (st : DataStart) (tds : List Nat) (l : DataLocals) (t : HcDev) : Prop where
  owns : Owns buffer st.pool₀ l.index ((st.pre ++ tds).map tdUnit ++ st.rest) t.memPool
  list : TdList t.td l.headTd (st.pre ++ tds)
  tds_eq : tds.map (fun a => (t.td a).unlinked) = dataTds p mapped toggle tds.length
  pre_eq : ∀ a ∈ st.pre, (t.td a).unlinked = (st.s.td a).unlinked
  left : l.leftLength = mapped.length - tds.length * p.maxPacketLength
  phyAddr : 0 < l.leftLength → l.mapPhyAddr = mapped.phyAddr + tds.length * p.maxPacketLength
  toggle_eq : l.dataToggle = toggle ^^^ (tds.length % 2)
  needed : tds ≠ [] → (tds.length - 1) * p.maxPacketLength < mapped.length
  index_eq : l.index = st.index + tds.length
  frame : t = { st.s with
    memPool := t.memPool
    td := t.td }

section

variable {buffer : Nat → Option Nat} {p : DataStage} {mapped : Mapped} {toggle : Nat}
  {st : DataStart} {tds : List Nat} {l : DataLocals} {t : HcDev} (asserts : Bool)

theorem xor_toggle (toggle n : Nat) : toggle ^^^ (n % 2) ^^^ 1 = toggle ^^^ ((n + 1) % 2) := by
  rw [Nat.xor_assoc]
  have h : n % 2 ^^^ 1 = (n + 1) % 2 := by
    rcases Nat.mod_two_eq_zero_or_one n with h | h
    · rw [h, show (n + 1) % 2 = 1 by omega]
      rfl
    · rw [h, show (n + 1) % 2 = 0 by omega]
      rfl
  rw [h]

theorem not_mem_of_grown {pool₀ pool : MemPool} {rest : List Allocation} {td : Nat}
    (h : Grown pool₀ (tdUnit td :: (tds.map tdUnit ++ rest)) pool) : td ∉ tds := by
  intro hmem
  have hapart := (List.pairwise_cons.mp h.apart).1 (tdUnit td)
    (List.mem_append_left _ (List.mem_map_of_mem hmem))
  have hround : usbHcMemRound sizeofTd = 64 := by decide
  have hlen : (tdUnit td).len = 64 := hround
  unfold Allocation.Apart at hapart
  rw [hlen] at hapart
  omega

theorem Split.step (h : Split buffer p mapped toggle st tds l t) (hleft : 0 < l.leftLength) {td : Nat}
    {pool' : MemPool} (htd : td ≠ 0) (hlt : td < 0x100000000)
    (howns : Owns buffer st.pool₀ (l.index + 1) (tdUnit td :: ((st.pre ++ tds).map tdUnit ++ st.rest))
      pool') :
    let n := if p.maxPacketLength < l.leftLength then p.maxPacketLength else l.leftLength
    ∃ t', (do
        modifyTd td (dataTdFields p.dataPidDir l.dataToggle l.mapPhyAddr n)
        .when (l.headTd ≠ 0) (ohciLinkTD l.headTd td)
        : Exec HcDev Unit) { t with
          memPool := pool'
          td := Function.update t.td td zeroTd } = .ret () t' ∧
      Split buffer p mapped toggle st (tds ++ [td]) {
        headTd := if l.headTd = 0 then td else l.headTd
        leftLength := l.leftLength - n
        mapPhyAddr := l.mapPhyAddr + n
        dataToggle := l.dataToggle ^^^ 1
        index := l.index + 1 } t' := by
  intro n
  have hfresh : td ∉ st.pre ++ tds := not_mem_of_grown howns.grown
  have hphy := h.phyAddr hleft
  have hn : n = min p.maxPacketLength (mapped.length - tds.length * p.maxPacketLength) := by
    have := h.left
    show (if p.maxPacketLength < l.leftLength then p.maxPacketLength else l.leftLength) = _
    split <;> omega
  -- the TD as it is put into the list
  have hnew : dataTdFields p.dataPidDir l.dataToggle l.mapPhyAddr n zeroTd =
      dataTd p mapped toggle tds.length := by
    unfold dataTd
    rw [← hn, ← h.toggle_eq, ← hphy]
  have hmod : modifyTd td (dataTdFields p.dataPidDir l.dataToggle l.mapPhyAddr n) { t with
        memPool := pool'
        td := Function.update t.td td zeroTd } = .ret () { t with
        memPool := pool'
        td := Function.update t.td td (dataTd p mapped toggle tds.length) } := by
    unfold modifyTd
    show Outcome.ret () _ = _
    simp only [Function.update_self, Function.update_idem]
    rw [hnew]
  have hperm : (tdUnit td :: ((st.pre ++ tds).map tdUnit ++ st.rest)).Perm
      ((st.pre ++ (tds ++ [td])).map tdUnit ++ st.rest) := by
    rw [← List.append_assoc, @List.map_append _ _ tdUnit (st.pre ++ tds), List.append_assoc]
    exact List.perm_middle.symm
  have htwo : (tds ++ [td]).length = tds.length + 1 := by rw [List.length_append]; rfl
  have hmul : (tds.length + 1) * p.maxPacketLength = tds.length * p.maxPacketLength +
      p.maxPacketLength := Nat.succ_mul _ _
  have hleft' := h.left
  -- what the new list and its memory have to satisfy
  have hdone : ∀ mem : Nat → TdDescriptor,
      TdList mem (if l.headTd = 0 then td else l.headTd) (st.pre ++ tds ++ [td]) →
      (∀ a ∈ st.pre ++ tds, (mem a).unlinked = (t.td a).unlinked) →
      (mem td).unlinked = dataTd p mapped toggle tds.length →
      Split buffer p mapped toggle st (tds ++ [td]) {
        headTd := if l.headTd = 0 then td else l.headTd
        leftLength := l.leftLength - n
        mapPhyAddr := l.mapPhyAddr + n
        dataToggle := l.dataToggle ^^^ 1
        index := l.index + 1 } { t with
          memPool := pool'
          td := mem } := by
    intro mem hlist hsame hmem
    refine ⟨howns.perm hperm, by rw [← List.append_assoc]; exact hlist, ?_, fun a ha => ?_, ?_,
      fun hpos => ?_, ?_, fun _ => ?_, ?_, ?_⟩
    · have hold : tds.map (fun a => (mem a).unlinked) = tds.map fun a => (t.td a).unlinked :=
        List.map_congr_left fun a ha => hsame a (List.mem_append_right _ ha)
      rw [List.map_append, hold, h.tds_eq, htwo]
      unfold dataTds
      rw [List.range_succ, List.map_append, List.map_singleton, List.map_singleton, hmem]
    · rw [hsame a (List.mem_append_left _ ha)]
      exact h.pre_eq a ha
    · show l.leftLength - n = _
      rw [htwo, hmul]
      omega
    · have hpos' : 0 < l.leftLength - n := hpos
      show l.mapPhyAddr + n = _
      rw [htwo, hmul]
      omega
    · show l.dataToggle ^^^ 1 = _
      rw [htwo, h.toggle_eq, xor_toggle]
    · rw [htwo, Nat.add_sub_cancel]
      omega
    · show l.index + 1 = _
      rw [htwo, h.index_eq]
      omega
    · have hframe := h.frame
      rw [hframe]
  show ∃ t', (modifyTd td _ >>= fun _ => _ : Exec HcDev Unit) _ = _ ∧ _
  rw [bind_of_ret hmod]
  rcases List.eq_nil_or_concat (st.pre ++ tds) with hnil | ⟨init, z, hconcat⟩
  · have hhead : l.headTd = 0 := by
      have hlist := h.list.next
      rw [hnil] at hlist
      exact hlist
    refine ⟨_, by unfold Exec.when; rw [if_neg (not_not.mpr hhead)]; rfl, hdone _ ?_ ?_ ?_⟩
    · rw [if_pos hhead, hnil]
      have hself : Function.update t.td td (dataTd p mapped toggle tds.length) td =
          dataTd p mapped toggle tds.length := Function.update_self _ _ _
      exact TdList.single htd hlt (by rw [hself]; rfl) (by rw [hself]; rfl)
    · intro a ha
      rw [hnil] at ha
      cases ha
    · rw [Function.update_self]
      rfl
  · rw [List.concat_eq_append] at hconcat
    have hlist := h.list
    rw [hconcat] at hlist hfresh
    have hhead : l.headTd ≠ 0 := by
      cases init with
      | nil => exact hlist.next.1 ▸ hlist.next.2.1
      | cons a init => exact hlist.next.1 ▸ hlist.next.2.1
    have hold : ∀ a ∈ init ++ [z], a ≠ td := fun a ha heq => hfresh (heq ▸ ha)
    have hlist' : TdList (Function.update t.td td (dataTd p mapped toggle tds.length)) l.headTd
        (init ++ [z]) := by
      refine hlist.congr (fun a ha => ?_) fun a ha => ?_
      · rw [Function.update_of_ne (hold a ha)]
      · rw [Function.update_of_ne (hold a ha)]
    have hself : Function.update t.td td (dataTd p mapped toggle tds.length) td =
        dataTd p mapped toggle tds.length := Function.update_self _ _ _
    have hlink := ohciLinkTD_ret (t := { t with
        memPool := pool'
        td := Function.update t.td td (dataTd p mapped toggle tds.length) }) hlist' hfresh
    have hz : z ∈ init ++ [z] := by simp
    refine ⟨_, by unfold Exec.when; rw [if_pos hhead]; exact hlink, hdone _ ?_ ?_ ?_⟩
    · rw [if_neg hhead, hconcat]
      exact hlist'.snoc htd hlt hfresh (by rw [hself]; rfl) (by rw [hself]; rfl)
    · intro a ha
      rw [hconcat] at ha
      by_cases haz : a = z
      · rw [haz, Function.update_self]
        show TdDescriptor.unlinked
          { Function.update t.td td (dataTd p mapped toggle tds.length) z with
            nextTD := td
            nextTDPointer := td } = _
        rw [Function.update_of_ne (hold z hz)]
        rfl
      · rw [Function.update_of_ne haz]
        show (Function.update t.td td _ a).unlinked = _
        rw [Function.update_of_ne (hold a ha)]
    · rw [Function.update_of_ne (Ne.symm (hold z hz))]
      show (Function.update t.td td _ td).unlinked = _
      rw [hself]
      rfl

theorem Split.body (h : Split buffer p mapped toggle st tds l t) :
    ∃ r t', dataStageBody asserts buffer p l t = .ret r t' ∧
      ((l.leftLength = 0 ∧ r = .inr (.success, l) ∧ t' = t) ∨
        (0 < l.leftLength ∧ r = .inr (.outOfResources, l) ∧ t' = t) ∨
        ∃ td l', 0 < l.leftLength ∧ r = .inl l' ∧
          l'.leftLength = l.leftLength - (if p.maxPacketLength < l.leftLength then p.maxPacketLength
            else l.leftLength) ∧
          Split buffer p mapped toggle st (tds ++ [td]) l' t') := by
  by_cases hleft : 0 < l.leftLength
  · obtain ⟨td, t₁, hcreate, hr⟩ := ohciCreateTD_ret asserts h.owns
    have hbody : dataStageBody asserts buffer p l = _ := if_pos hleft
    have hrun := (congrFun hbody t).trans (bind_of_ret hcreate)
    rcases hr with ⟨rfl, rfl, -⟩ | ⟨htd, hlt, -, pool', rfl, howns⟩
    · rw [if_pos rfl] at hrun
      exact ⟨_, _, hrun, .inr (.inl ⟨hleft, rfl, rfl⟩)⟩
    · rw [if_neg htd] at hrun
      obtain ⟨t', hstep, hsplit⟩ := h.step hleft htd hlt howns
      obtain ⟨u, t₂, hmod, hlink⟩ := ret_of_bind hstep
      refine ⟨_, t', hrun.trans ?_, .inr (.inr ⟨td, _, hleft, rfl, rfl, hsplit⟩)⟩
      exact (bind_of_ret hmod).trans ((bind_of_ret hlink).trans rfl)
  · have hzero : l.leftLength = 0 := by omega
    refine ⟨.inr (.success, l), t, ?_, .inl ⟨hzero, rfl, rfl⟩⟩
    unfold dataStageBody
    rw [if_neg hleft]
    rfl

theorem wp_dataStage (hmax : 0 < p.maxPacketLength) {n : Nat} (hn : l.leftLength < n)
    (h : Split buffer p mapped toggle st tds l t) :
    wp (Exec.loop n (dataStageBody asserts buffer p) l) (fun r t' => ∃ tds,
      Split buffer p mapped toggle st tds r.2 t' ∧
      ((r.1 = .success ∧ r.2.leftLength = 0) ∨ (r.1 = .outOfResources ∧ 0 < r.2.leftLength)))
      (fun _ _ => False) t := by
  refine wp_loop_total (fun l t => ∃ tds, Split buffer p mapped toggle st tds l t)
    (fun l _ => l.leftLength) ?_ n l t hn ⟨tds, h⟩
  rintro l t ⟨tds, h⟩
  obtain ⟨r, t', hbody, hr⟩ := h.body asserts
  refine wp_of_eq_ret hbody ?_
  rcases hr with ⟨hzero, rfl, rfl⟩ | ⟨hpos, rfl, rfl⟩ | ⟨td, l', hpos, rfl, hleft, hsplit⟩
  · exact ⟨tds, h, .inl ⟨rfl, hzero⟩⟩
  · exact ⟨tds, h, .inr ⟨rfl, hpos⟩⟩
  · refine ⟨⟨_, hsplit⟩, ?_⟩
    show l'.leftLength < l.leftLength
    rw [hleft]
    split <;> omega

end

/-! ## The packets cover the buffer -/

section

variable {p : DataStage} {mapped : Mapped} {toggle i count : Nat}

theorem dataTd_fields (hbelow : mapped.phyAddr + mapped.length ≤ 0x100000000)
    (hi : i * p.maxPacketLength < mapped.length) (hmax : 0 < p.maxPacketLength)
    (hsmall : p.maxPacketLength < 0x100000000) :
    (dataTd p mapped toggle i).currBufferPointer = mapped.phyAddr + i * p.maxPacketLength ∧
      (dataTd p mapped toggle i).bufferEndPointer + 1 = mapped.phyAddr + i * p.maxPacketLength +
        min p.maxPacketLength (mapped.length - i * p.maxPacketLength) ∧
      (dataTd p mapped toggle i).actualSendLength =
        min p.maxPacketLength (mapped.length - i * p.maxPacketLength) := by
  generalize hk : i * p.maxPacketLength = k at hi
  have hend : dataTd p mapped toggle i = dataTdFields p.dataPidDir (toggle ^^^ (i % 2))
      (mapped.phyAddr + k) (min p.maxPacketLength (mapped.length - k)) zeroTd := by
    unfold dataTd
    rw [hk]
  generalize hn : min p.maxPacketLength (mapped.length - k) = n at hend
  rw [hend]
  refine ⟨u32_of_lt (by omega), ?_, u32_of_lt (by omega)⟩
  show u32 (mapped.phyAddr + k + n - 1) + 1 = _
  rw [u32_of_lt (by omega)]
  omega

theorem dataTd_toggle (htoggle : toggle ≤ 1) :
    (dataTd p mapped toggle i).dataToggle = 2 + (toggle ^^^ (i % 2)) := by
  show ((toggle ^^^ (i % 2)) ||| 0x2) % 4 = 2 + (toggle ^^^ (i % 2))
  have hcases : toggle = 0 ∨ toggle = 1 := by omega
  rcases Nat.mod_two_eq_zero_or_one i with h | h
  · rcases hcases with rfl | rfl <;> rw [h] <;> rfl
  · rcases hcases with rfl | rfl <;> rw [h] <;> rfl

theorem CoversBuffer.of_unlinked {base len max : Nat} {tds : List TdDescriptor}
    (h : CoversBuffer base len max toggle (tds.map TdDescriptor.unlinked)) :
    CoversBuffer base len max toggle tds := by
  refine ⟨?_, fun td htd => ?_, ?_, fun td htd => ?_, fun td htd => ?_, fun td htd => ?_,
    fun td htd => ?_, ?_⟩
  · have hnone := h.none
    rwa [List.map_eq_nil_iff] at hnone
  · refine h.first td.unlinked ?_
    rw [List.head?_map]
    exact Option.mem_map_of_mem _ htd
  · exact (List.isChain_map _).mp h.contiguous
  · refine h.last td.unlinked ?_
    rw [List.getLast?_map]
    exact Option.mem_map_of_mem _ htd
  · exact h.size td.unlinked (List.mem_map_of_mem htd)
  · refine h.full td.unlinked ?_
    rw [← List.map_dropLast]
    exact List.mem_map_of_mem htd
  · refine h.firstToggle td.unlinked ?_
    rw [List.head?_map]
    exact Option.mem_map_of_mem _ htd
  · exact (List.isChain_map _).mp h.alternating

theorem covers_dataTds (hbelow : mapped.phyAddr + mapped.length ≤ 0x100000000)
    (hmax : 0 < p.maxPacketLength) (hsmall : p.maxPacketLength < 0x100000000) (htoggle : toggle ≤ 1)
    (hall : mapped.length ≤ count * p.maxPacketLength)
    (hneeded : 0 < count → (count - 1) * p.maxPacketLength < mapped.length) :
    CoversBuffer mapped.phyAddr mapped.length p.maxPacketLength toggle
      (dataTds p mapped toggle count) := by
  have hin : ∀ i < count, i * p.maxPacketLength < mapped.length := by
    intro i hi
    have hle : i * p.maxPacketLength ≤ (count - 1) * p.maxPacketLength :=
      Nat.mul_le_mul_right _ (by omega)
    have := hneeded (by omega)
    omega
  have hsucc : ∀ i, (i + 1) * p.maxPacketLength = i * p.maxPacketLength + p.maxPacketLength :=
    fun i => Nat.succ_mul i _
  have hfields : ∀ i < count, (dataTd p mapped toggle i).currBufferPointer =
        mapped.phyAddr + i * p.maxPacketLength ∧
      (dataTd p mapped toggle i).bufferEndPointer + 1 = mapped.phyAddr + i * p.maxPacketLength +
        min p.maxPacketLength (mapped.length - i * p.maxPacketLength) ∧
      (dataTd p mapped toggle i).actualSendLength =
        min p.maxPacketLength (mapped.length - i * p.maxPacketLength) := fun i hi =>
    dataTd_fields hbelow (hin i hi) hmax hsmall
  have hspan : ∀ i < count, (dataTd p mapped toggle i).span =
      min p.maxPacketLength (mapped.length - i * p.maxPacketLength) := by
    intro i hi
    obtain ⟨hcur, hend, -⟩ := hfields i hi
    unfold TdDescriptor.span
    omega
  have hhead : ∀ td ∈ (dataTds p mapped toggle count).head?,
      0 < count ∧ td = dataTd p mapped toggle 0 := by
    intro td htd
    unfold dataTds at htd
    cases count with
    | zero => cases htd
    | succ n =>
      rw [List.range_succ_eq_map, List.map_cons, List.head?_cons] at htd
      exact ⟨Nat.succ_pos n, (Option.mem_some_iff.mp htd).symm⟩
  refine ⟨?_, fun td htd => ?_, ?_, fun td htd => ?_, fun td htd => ?_, fun td htd => ?_,
    fun td htd => ?_, ?_⟩
  · unfold dataTds
    rw [List.map_eq_nil_iff, List.range_eq_nil]
    constructor
    · rintro rfl
      omega
    · intro hlen
      by_contra hcount
      have := hneeded (by omega)
      omega
  · obtain ⟨hpos, rfl⟩ := hhead td htd
    rw [(hfields 0 hpos).1, Nat.zero_mul, Nat.add_zero]
  · unfold dataTds
    rw [List.isChain_map, List.isChain_range]
    intro i hi
    have hi' : i + 1 < count := by omega
    have := hin (i + 1) hi'
    rw [(hfields i (by omega)).2.1]
    show (dataTd p mapped toggle (i + 1)).currBufferPointer = _
    rw [(hfields (i + 1) hi').1, hsucc i]
    rw [hsucc i] at this
    omega
  · unfold dataTds at htd
    cases count with
    | zero => cases htd
    | succ n =>
      rw [List.range_succ, List.map_append, List.map_singleton, List.getLast?_concat] at htd
      rw [← Option.mem_some_iff.mp htd, (hfields n (by omega)).2.1]
      have := hin n (by omega)
      rw [hsucc n] at hall
      omega
  · unfold dataTds at htd
    obtain ⟨i, hi, rfl⟩ := List.mem_map.mp htd
    have hi' := List.mem_range.mp hi
    have := hin i hi'
    rw [hspan i hi', (hfields i hi').2.2]
    omega
  · unfold dataTds at htd
    cases count with
    | zero => cases htd
    | succ n =>
      rw [List.range_succ, List.map_append, List.map_singleton, List.dropLast_concat] at htd
      obtain ⟨i, hi, rfl⟩ := List.mem_map.mp htd
      have hi' := List.mem_range.mp hi
      have := hin (i + 1) (by omega)
      rw [hspan i (by omega)]
      rw [hsucc i] at this
      omega
  · obtain ⟨hpos, rfl⟩ := hhead td htd
    rw [dataTd_toggle htoggle]
    show 2 + (toggle ^^^ 0) = 2 + toggle
    rw [Nat.xor_zero]
  · unfold dataTds
    rw [List.isChain_map, List.isChain_range]
    intro i _
    show (dataTd p mapped toggle (i + 1)).dataToggle = _
    rw [dataTd_toggle htoggle, dataTd_toggle htoggle]
    have hcases : toggle = 0 ∨ toggle = 1 := by omega
    rcases Nat.mod_two_eq_zero_or_one i with h | h
    · have h' : (i + 1) % 2 = 1 := by omega
      rcases hcases with rfl | rfl <;> rw [h, h'] <;> rfl
    · have h' : (i + 1) % 2 = 0 := by omega
      rcases hcases with rfl | rfl <;> rw [h, h'] <;> rfl

end

/-! ## Waiting for the controller

The driver looks at the TDs by its own links, which the controller leaves alone, so what it sees is what
the controller had done by the last look.
-/

def edResult (td : Nat → TdDescriptor) : List Nat → Nat → EdResult
  | [], nextToggle => ⟨tdNoError, nextToggle⟩
  | a :: tds, nextToggle =>
    if (td a).conditionCode ≠ 0 then ⟨(td a).conditionCode, nextToggle⟩
    else edResult td tds (((td a).dataToggle &&& 1) ^^^ 1)

/-- The controller does not take back that it has retired a TD, nor change the TD afterwards. -/
def Steady (look : Nat → Look) (tds : List Nat) : Prop :=
  ∀ n, ∀ a ∈ tds, ((look n).td a).conditionCode = 0 → (look (n + 1)).td a = (look n).td a

def FirstRetired (look : Nat → Look) (tds : List Nat) (n : Nat) : Prop :=
  ∃ a ∈ tds.head?, ((look n).td a).conditionCode = 0

/-- What a wait that ends with the look `l.timeCount` has found. -/
structure Waited (look : Nat → Look) (t : HcDev) (tds : List Nat) (nextToggle : Nat) (l : WaitLocals)
    (t' : HcDev) : Prop where
  state : t' = (look l.timeCount).at t
  result : ∃ toggle,
    l.edResult = (if (look l.timeCount).listFilled then ⟨tdTobeProcessed, toggle⟩
      else edResult t'.td tds toggle) ∧
    (Steady look tds → ¬ FirstRetired look tds l.timeCount → toggle = nextToggle)

section

variable {look : Nat → Look} {t : HcDev} {tds : List Nat} {headTd ed z nextToggle : Nat}

theorem look_linked (lk : Look)
    (h : Linked TdDescriptor.nextTDPointer (fun a => some (t.td a)) headTd tds) :
    Linked TdDescriptor.nextTDPointer (fun a => some ((lk.at t).td a)) headTd tds := by
  refine h.congr fun a _ x hx => ?_
  cases hx
  exact ⟨_, rfl, rfl⟩

theorem loop_checkEdStatus : ∀ {tds : List Nat} {headTd : Nat} (nextToggle : Nat),
    Linked TdDescriptor.nextTDPointer (fun a => some (t.td a)) headTd (tds ++ [z]) →
      ∀ n, tds.length < n →
        Exec.loop n (checkEdStatusBody ed) (headTd, nextToggle) t =
          .ret (edResult t.td tds nextToggle) t := by
  intro tds
  induction tds with
  | nil =>
    rintro headTd nextToggle ⟨rfl, hne, x, hx, hend⟩ n hn
    obtain ⟨n, rfl⟩ : ∃ m, n = m + 1 := ⟨n - 1, by simp only [List.length_nil] at hn; omega⟩
    cases hx
    have hlast : (t.td headTd).nextTDPointer = 0 := hend
    refine loop_of_inr ?_ n
    unfold checkEdStatusBody
    show (if headTd ≠ 0 then (if (t.td headTd).nextTDPointer = 0 then _ else _) else _
      : Exec HcDev _) t = _
    rw [if_pos hne, if_pos hlast]
    rfl
  | cons a tds ih =>
    rintro headTd nextToggle ⟨rfl, hne, x, hx, htail⟩ n hn
    rw [List.length_cons] at hn
    obtain ⟨n, rfl⟩ : ∃ m, n = m + 1 := ⟨n - 1, by omega⟩
    cases hx
    have hnext : (t.td headTd).nextTDPointer ≠ 0 := by
      cases tds with
      | nil => exact htail.1 ▸ htail.2.1
      | cons b tds => exact htail.1 ▸ htail.2.1
    by_cases hcode : (t.td headTd).conditionCode ≠ 0
    · refine (loop_of_inr ?_ n).trans (b := .ret ⟨(t.td headTd).conditionCode, nextToggle⟩ t) ?_
      · unfold checkEdStatusBody
        show (if headTd ≠ 0 then (if (t.td headTd).nextTDPointer = 0 then _
          else if (t.td headTd).conditionCode ≠ 0 then _ else _) else _ : Exec HcDev _) t = _
        rw [if_pos hne, if_neg hnext, if_pos hcode]
        rfl
      · unfold edResult
        rw [if_pos hcode]
    · have hbody : checkEdStatusBody ed (headTd, nextToggle) t =
          .ret (.inl ((t.td headTd).nextTDPointer, ((t.td headTd).dataToggle &&& 1) ^^^ 1)) t := by
        unfold checkEdStatusBody
        show (if headTd ≠ 0 then (if (t.td headTd).nextTDPointer = 0 then _
          else if (t.td headTd).conditionCode ≠ 0 then _ else _) else _ : Exec HcDev _) t = _
        rw [if_pos hne, if_neg hnext, if_neg hcode]
        rfl
      have hresult : edResult t.td (headTd :: tds) nextToggle =
          edResult t.td tds (((t.td headTd).dataToggle &&& 1) ^^^ 1) := if_neg hcode
      rw [loop_of_inl hbody, hresult]
      exact ih _ htail n (by omega)

theorem checkIfDone_ret (ed : Nat) (lk : Look) (nextToggle : Nat)
    (h : Linked TdDescriptor.nextTDPointer (fun a => some (t.td a)) headTd (tds ++ [z]))
    (hlen : tds.length < walkLimit) :
    ∃ status, checkIfDone lk true ed headTd nextToggle t =
      .ret (status, if lk.listFilled then ⟨tdTobeProcessed, nextToggle⟩
        else edResult (lk.at t).td tds nextToggle) (lk.at t) := by
  have hwalk : checkEdStatus ed headTd nextToggle (lk.at t) = _ :=
    loop_checkEdStatus nextToggle (look_linked lk h) walkLimit hlen
  have hlook : checkIfDone lk true ed headTd nextToggle t =
      (if true = true ∧ lk.listFilled = true then
        pure (.notReady, ⟨tdTobeProcessed, nextToggle⟩)
      else do
        let result ← checkEdStatus ed headTd nextToggle
        if result.errorCode = tdNoError then pure (.success, result)
        else if result.errorCode = tdTobeProcessed then pure (.notReady, result)
        else pure (.deviceError, result) : Exec HcDev _) (lk.at t) := rfl
  rw [hlook]
  by_cases hfilled : lk.listFilled = true
  · rw [if_pos ⟨rfl, hfilled⟩, if_pos hfilled]
    exact ⟨_, rfl⟩
  · rw [if_neg fun hc => hfilled hc.2, if_neg hfilled, bind_of_ret hwalk]
    split
    · exact ⟨_, rfl⟩
    · split
      · exact ⟨_, rfl⟩
      · exact ⟨_, rfl⟩

theorem edResult_nextToggle {td : Nat → TdDescriptor} {toggle : Nat}
    (h : ∀ a ∈ tds.head?, (td a).conditionCode ≠ 0) : (edResult td tds toggle).nextToggle = toggle := by
  cases tds with
  | nil => rfl
  | cons a tds =>
    unfold edResult
    rw [if_pos (h a rfl)]

theorem Waited.next {l : WaitLocals} {t' : HcDev} (h : Waited look t tds nextToggle l t')
    (status : EfiStatus) :
    Waited look t tds nextToggle ⟨l.timeCount + 1, status,
      if (look (l.timeCount + 1)).listFilled then ⟨tdTobeProcessed, l.edResult.nextToggle⟩
      else edResult ((look (l.timeCount + 1)).at t').td tds l.edResult.nextToggle⟩
      ((look (l.timeCount + 1)).at t') := by
  obtain ⟨hstate, toggle, hresult, hsteady⟩ := h
  subst hstate
  refine ⟨rfl, l.edResult.nextToggle, rfl, fun hst hfirst => ?_⟩
  -- if the first TD has not been retired now, it had not been before
  have hbefore : ¬ FirstRetired look tds l.timeCount := by
    rintro ⟨a, ha, hcode⟩
    refine hfirst ⟨a, ha, ?_⟩
    rw [hst _ a (List.mem_of_mem_head? ha) hcode]
    exact hcode
  rw [← hsteady hst hbefore, hresult]
  split
  · rfl
  · exact edResult_nextToggle fun a ha hcode => hbefore ⟨a, ha, hcode⟩

theorem wp_waitIfDone (ed nextToggle : Nat) (look : Nat → Look) (timeOut : Nat)
    (h : Linked TdDescriptor.nextTDPointer (fun a => some (t.td a)) headTd (tds ++ [z]))
    (hlen : tds.length < walkLimit) :
    wp (waitIfDone look true ed headTd nextToggle timeOut) (Waited look t tds nextToggle)
      (fun _ _ => False) t := by
  obtain ⟨status, hfirst⟩ := checkIfDone_ret ed (look 0) nextToggle h hlen
  unfold waitIfDone
  rw [wp_bind]
  refine wp_of_eq_ret hfirst ?_
  refine wp_loop_total (Waited look t tds nextToggle) (fun l _ => timeOut + 1 - l.timeCount) ?_
    _ _ _ (by show timeOut + 1 - 0 < timeOut + 2; omega) ⟨rfl, nextToggle, rfl, fun _ _ => rfl⟩
  rintro l t' hl
  unfold waitBody
  rw [wp_ite]
  refine ⟨fun hc => ?_, fun _ => hl⟩
  have hlinked : Linked TdDescriptor.nextTDPointer (fun a => some (t'.td a)) headTd (tds ++ [z]) := by
    rw [hl.state]
    exact look_linked _ h
  obtain ⟨status', hlook⟩ := checkIfDone_ret ed (look (l.timeCount + 1))
    l.edResult.nextToggle hlinked hlen
  rw [wp_bind]
  refine wp_of_eq_ret hlook ⟨hl.next status', ?_⟩
  show timeOut + 1 - (l.timeCount + 1) < timeOut + 1 - l.timeCount
  have := hc.2
  omega

end

/-! ## The other stages, and the way out

The TDs behind the data stage, handing the list to the controller, and giving everything back.
-/

section

variable {buffer : Nat → Option Nat} {pool₀ : MemPool} {rest : List Allocation} {i : Nat}
  {t : HcDev} {headTd q z : Nat} {init : List Nat} (asserts : Bool)

/-! ## A TD more -/

theorem append_ret (pool' : MemPool) {f : TdDescriptor → TdDescriptor} (h : TdList t.td headTd (init ++ [z]))
    (hq : q ≠ 0) (hlt : q < 0x100000000) (hfresh : q ∉ init ++ [z]) (hnext : (f zeroTd).nextTD = 0)
    (hpointer : (f zeroTd).nextTDPointer = 0) :
    ∃ mem, (do
        modifyTd q f
        ohciLinkTD headTd q
        : Exec HcDev Unit) { t with
          memPool := pool'
          td := Function.update t.td q zeroTd } = .ret () { t with
            memPool := pool'
            td := mem } ∧
      TdList mem headTd (init ++ [z] ++ [q]) ∧
      (∀ a ∈ init ++ [z], (mem a).unlinked = (t.td a).unlinked) ∧ mem q = f zeroTd := by
  have hold : ∀ a ∈ init ++ [z], a ≠ q := fun a ha heq => hfresh (heq ▸ ha)
  have hmod : modifyTd q f { t with
        memPool := pool'
        td := Function.update t.td q zeroTd } = .ret () { t with
        memPool := pool'
        td := Function.update t.td q (f zeroTd) } := by
    unfold modifyTd
    show Outcome.ret () _ = _
    simp only [Function.update_self, Function.update_idem]
  have hlist' : TdList (Function.update t.td q (f zeroTd)) headTd (init ++ [z]) := by
    refine h.congr (fun a ha => ?_) fun a ha => ?_
    · rw [Function.update_of_ne (hold a ha)]
    · rw [Function.update_of_ne (hold a ha)]
  have hself : Function.update t.td q (f zeroTd) q = f zeroTd := Function.update_self _ _ _
  have hlink := ohciLinkTD_ret (t := { t with
      memPool := pool'
      td := Function.update t.td q (f zeroTd) }) hlist' hfresh
  have hz : z ∈ init ++ [z] := by simp
  refine ⟨_, (bind_of_ret hmod).trans hlink, ?_, fun a ha => ?_, ?_⟩
  · exact hlist'.snoc hq hlt hfresh (by rw [hself]; exact hnext) (by rw [hself]; exact hpointer)
  · by_cases haz : a = z
    · rw [haz, Function.update_self]
      show TdDescriptor.unlinked { Function.update t.td q (f zeroTd) z with
        nextTD := q
        nextTDPointer := q } = _
      rw [Function.update_of_ne (hold z hz)]
      rfl
    · rw [Function.update_of_ne haz]
      show (Function.update t.td q _ a).unlinked = _
      rw [Function.update_of_ne (hold a ha)]
  · rw [Function.update_of_ne (Ne.symm (hold z hz))]
    exact hself

/-- What a stage of one TD makes of a list: the list with the TD behind it, or no memory for it. -/
structure Appended (buffer : Nat → Option Nat) (pool₀ : MemPool) (rest : List Allocation) (i : Nat)
    (t : HcDev) (headTd : Nat) (tds : List Nat) (f : TdDescriptor → TdDescriptor) (q : Nat)
    (t' : HcDev) : Prop where
  pos : q ≠ 0
  owns : Owns buffer pool₀ (i + 1) ((tds ++ [q]).map tdUnit ++ rest) t'.memPool
  list : TdList t'.td headTd (tds ++ [q])
  same : ∀ a ∈ tds, (t'.td a).unlinked = (t.td a).unlinked
  new : t'.td q = f zeroTd
  frame : t' = { t with
    memPool := t'.memPool
    td := t'.td
    ed := t'.ed }

theorem perm_snoc (tds : List Nat) (q : Nat) (rest : List Allocation) :
    (tdUnit q :: (tds.map tdUnit ++ rest)).Perm ((tds ++ [q]).map tdUnit ++ rest) := by
  rw [List.map_append, List.append_assoc]
  exact List.perm_middle.symm

theorem statusStage_ret (statusPidDir : Nat) (h : TdList t.td headTd (init ++ [z]))
    (howns : Owns buffer pool₀ i ((init ++ [z]).map tdUnit ++ rest) t.memPool) :
    ∃ status t', statusStage asserts (buffer i) statusPidDir headTd t = .ret status t' ∧
      ((status = .outOfResources ∧ t' = t) ∨ (status = .success ∧ t'.ed = t.ed ∧
        ∃ q, Appended buffer pool₀ rest i t headTd (init ++ [z]) (statusTdFields statusPidDir) q t')) := by
  obtain ⟨q, t₁, hcreate, hr⟩ := ohciCreateTD_ret asserts howns
  have hrun : statusStage asserts (buffer i) statusPidDir headTd t = _ := bind_of_ret hcreate
  rcases hr with ⟨rfl, rfl, -⟩ | ⟨hq, hlt, -, pool', rfl, howns'⟩
  · rw [if_pos rfl] at hrun
    exact ⟨_, _, hrun, .inl ⟨rfl, rfl⟩⟩
  · rw [if_neg hq] at hrun
    have hfresh := not_mem_of_grown howns'.grown
    obtain ⟨mem, happend, hlist, hsame, hnew⟩ := append_ret pool'
      (f := statusTdFields statusPidDir) h hq hlt hfresh rfl rfl
    obtain ⟨u, t₂, hmod, hlink⟩ := ret_of_bind happend
    refine ⟨.success, _, hrun.trans ((bind_of_ret hmod).trans (bind_of_ret hlink)),
      .inr ⟨rfl, rfl, q, hq, ?_, hlist, hsame, hnew, rfl⟩⟩
    exact howns'.perm (perm_snoc (init ++ [z]) q rest)

theorem emptyStage_ret (ed : Nat) (h : TdList t.td headTd (init ++ [z]))
    (howns : Owns buffer pool₀ i ((init ++ [z]).map tdUnit ++ rest) t.memPool)
    (hed : (t.ed ed).tdHeadPointer = 0) :
    ∃ status t', emptyStage asserts (buffer i) ed headTd t = .ret status t' ∧
      ((status = .outOfResources ∧ t' = t) ∨ (status = .success ∧ ∃ q,
        Appended buffer pool₀ rest i t headTd (init ++ [z]) emptyTdFields q t' ∧
        (t'.ed ed).tdTailPointer = q ∧ (t'.ed ed).tdHeadPointer = u32 headTd / 16)) := by
  obtain ⟨q, t₁, hcreate, hr⟩ := ohciCreateTD_ret asserts howns
  have hrun : emptyStage asserts (buffer i) ed headTd t = _ := bind_of_ret hcreate
  rcases hr with ⟨rfl, rfl, -⟩ | ⟨hq, hlt, -, pool', rfl, howns'⟩
  · rw [if_pos rfl] at hrun
    exact ⟨_, _, hrun, .inl ⟨rfl, rfl⟩⟩
  · rw [if_neg hq] at hrun
    have hfresh := not_mem_of_grown howns'.grown
    obtain ⟨mem, happend, hlist, hsame, hnew⟩ := append_ret pool'
      (f := emptyTdFields) h hq hlt hfresh rfl rfl
    obtain ⟨u, t₂, hmod, hlink⟩ := ret_of_bind happend
    have htail : modifyEd ed (fun e => { e with tdTailPointer := q }) { t with
        memPool := pool'
        td := mem } = .ret () { t with
        memPool := pool'
        td := mem
        ed := Function.update t.ed ed { t.ed ed with tdTailPointer := q } } := rfl
    have hzero : u32 ((Function.update t.ed ed { t.ed ed with tdTailPointer := q } ed).tdHeadPointer
        * 16) = 0 := by
      rw [Function.update_self]
      show u32 ((t.ed ed).tdHeadPointer * 16) = 0
      rw [hed]
      rfl
    have hattach : ohciAttachTDListToED ed headTd { t with
        memPool := pool'
        td := mem
        ed := Function.update t.ed ed { t.ed ed with tdTailPointer := q } } = .ret () { t with
        memPool := pool'
        td := mem
        ed := Function.update t.ed ed
          (ohciSetEDField .tdheadPtr headTd { t.ed ed with tdTailPointer := q }) } := by
      unfold ohciAttachTDListToED
      refine (bind_of_ret (get_ret _)).trans ?_
      show (if u32 ((Function.update t.ed ed { t.ed ed with tdTailPointer := q } ed).tdHeadPointer
        * 16) ≠ 0 then _ else _ : Exec HcDev _) _ = _
      rw [if_neg (not_not.mpr hzero)]
      unfold modifyEd
      show Outcome.ret () _ = _
      simp only [Function.update_self, Function.update_idem]
    refine ⟨.success, _, hrun.trans ((bind_of_ret hmod).trans ((bind_of_ret hlink).trans
      ((bind_of_ret htail).trans (bind_of_ret hattach)))), .inr ⟨rfl, q,
      ⟨hq, howns'.perm (perm_snoc (init ++ [z]) q rest), hlist, hsame, hnew, rfl⟩, ?_, ?_⟩⟩
    · show (Function.update t.ed ed _ ed).tdTailPointer = q
      rw [Function.update_self]
      rfl
    · show (Function.update t.ed ed _ ed).tdHeadPointer = _
      rw [Function.update_self]
      rfl

end

/-! ## The way out -/

section

variable {pool₀ : MemPool} {live : List Allocation} {t : HcDev} (asserts : Bool) {pf : Platform}
  {h : Held}

theorem head_eq {s t : HcDev} (hcontrol : t.controlHead = s.controlHead)
    (hbulk : t.bulkHead = s.bulkHead) (list : ListType) : t.head list = s.head list := by
  cases list with
  | controlList => exact hcontrol
  | bulkList => exact hbulk

/-- What detaching the ED does: nothing to the memory that is held, and the head of its list is `NULL` if
it was the head and the register can be written. -/
theorem detachED_ret (ok : Bool) (list : ListType) (headEd ed : Nat) (t : HcDev) :
    ∃ t', detachED ok list headEd ed t = .ret () t' ∧
      t' = { t with
        ed := t'.ed
        controlHead := t'.controlHead
        bulkHead := t'.bulkHead } ∧
      (t'.head list = 0 ∨ t'.head list = t.head list) ∧
      (headEd = ed → ok = true → t'.head list = 0) ∧
      (∀ list', list' ≠ list → t'.head list' = t.head list') := by
  unfold detachED
  have hskip : modifyEd ed (ohciSetEDField .skip 1) t = .ret () { t with
      ed := Function.update t.ed ed (ohciSetEDField .skip 1 (t.ed ed)) } := rfl
  rw [bind_of_ret hskip]
  by_cases hhead : headEd = ed
  · rw [if_pos hhead]
    unfold ohciSetMemoryPointer Exec.when
    by_cases hok : ok = true
    · rw [if_pos hok]
      cases list with
      | controlList =>
        refine ⟨_, rfl, rfl, .inl rfl, fun _ _ => rfl, fun list' hne => ?_⟩
        cases list' with
        | controlList => exact absurd rfl hne
        | bulkList => rfl
      | bulkList =>
        refine ⟨_, rfl, rfl, .inl rfl, fun _ _ => rfl, fun list' hne => ?_⟩
        cases list' with
        | controlList => rfl
        | bulkList => exact absurd rfl hne
    · rw [if_neg hok]
      refine ⟨_, rfl, rfl, .inr ?_, fun _ h => absurd h hok, fun list' _ => ?_⟩
      · cases list <;> rfl
      · cases list' <;> rfl
  · rw [if_neg hhead]
    refine ⟨_, rfl, rfl, .inr ?_, fun h => absurd h hhead, fun list' _ => ?_⟩
    · cases list <;> rfl
    · cases list' <;> rfl

theorem unmap_ret (mapping : Nat) (t : HcDev) : unmap mapping t = .ret () { t with
    mappings := if mapping ≠ 0 then t.mappings.erase mapping else t.mappings } := by
  unfold unmap Exec.when
  by_cases hm : mapping ≠ 0
  · rw [if_pos hm, if_pos hm]
    rfl
  · rw [if_neg hm, if_neg hm]
    rfl

def addMapping (mapping : Nat) (mappings : List Nat) : List Nat :=
  if mapping ≠ 0 then mapping :: mappings else mappings

theorem map_ret (m : Mapped) (t : HcDev) : map (.ok m) t = .ret (.ok m) { t with
    mappings := addMapping m.mapping t.mappings } := by
  have hadd : (Exec.when (m.mapping ≠ 0) (.modify fun s => { s with
      mappings := m.mapping :: s.mappings }) : Exec HcDev Unit) t = .ret () { t with
      mappings := addMapping m.mapping t.mappings } := by
    unfold Exec.when addMapping
    split <;> rfl
  exact (bind_of_ret hadd).trans rfl

theorem erase_addMapping (mapping : Nat) (mappings : List Nat) :
    (if mapping ≠ 0 then (addMapping mapping mappings).erase mapping
      else addMapping mapping mappings) = mappings := by
  unfold addMapping
  by_cases hm : mapping ≠ 0
  · rw [if_pos hm, if_pos hm, List.erase_cons_head]
  · rw [if_neg hm, if_neg hm]

theorem freeEdBuff_ret (hgrown : Grown pool₀ (edUnit h.ed :: live) t.memPool) :
    ∃ pool', freeEdBuff asserts h t = .ret () { t with memPool := pool' } ∧ Grown pool₀ live pool' :=
  freeMem_ret asserts hgrown

theorem freeTds_free {tds : List Nat} {headTd : Nat}
    (hlist : Linked TdDescriptor.nextTDPointer (fun a => some (t.td a)) headTd tds)
    (hlen : tds.length < walkLimit)
    (hgrown : Grown pool₀ (tds.map tdUnit ++ live) t.memPool) :
    ∃ pool', freeTds asserts headTd t = .ret () { t with memPool := pool' } ∧ Grown pool₀ live pool' :=
  freeTds_ret asserts walkLimit hlen hlist hgrown

end

end Quark.Ohci.Transfer
