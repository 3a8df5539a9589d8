import Quark.SmiFlash.Proofs.SvnPointProofs
import Quark.SmiFlash.Spec

/-!
# The update does what it is for

`issue` is followed to its end in three cases: no operation fails, the first failure is reported, or
it is not. In the first case the flash is computed block by block.
-/

namespace Quark.SmiFlash

open Machine

variable {P : Platform}

/-! ## How a schedule ends -/

theorem issue_cycles (plan : List PlanItem) (d : FlashDevice) :
    ∃ cycles, (issue P plan d).2.cycles = d.cycles ++ cycles ∧
      ∀ c rest, plan = .cycle c :: rest → cycles ≠ [] := by
  induction plan generalizing d with
  | nil => exact ⟨[], (List.append_nil _).symm, fun c rest h => by cases h⟩
  | cons i plan ih =>
    cases i with
    | refuse status => exact ⟨[], (List.append_nil _).symm, fun c rest h => by cases h⟩
    | cycle c =>
      obtain ⟨cycles, hc, -⟩ := ih (c.issued P d)
      have hcons : (issue P plan (c.issued P d)).2.cycles =
          d.cycles ++ (⟨c.op, c.caller, c.address, (P.spiAnswer d.cycles.length).ok⟩ :: cycles) := by
        rw [hc]
        show (d.cycles ++ [_]) ++ cycles = _
        rw [List.append_assoc]
        rfl
      simp only [issue]
      split
      · exact ⟨_, hcons, fun _ _ _ hnil => by cases hnil⟩
      · cases c.caller with
        | svnArea => exact ⟨[_], rfl, fun _ _ _ hnil => by cases hnil⟩
        | block =>
          dsimp only
          split
          · exact ⟨[_], rfl, fun _ _ _ hnil => by cases hnil⟩
          · exact ⟨_, hcons, fun _ _ _ hnil => by cases hnil⟩

def effect : List PlanItem → Mem → Mem
  | [], flash => flash
  | .refuse _ :: plan, flash => effect plan flash
  | .cycle c :: plan, flash => effect plan (c.op.apply c.address c.length (c.data flash) flash)

theorem effect_append (p q : List PlanItem) (flash : Mem) :
    effect (p ++ q) flash = effect q (effect p flash) := by
  induction p generalizing flash with
  | nil => rfl
  | cons i p ih => cases i <;> exact ih _

theorem SpiAnswer.eq_done {a : SpiAnswer} (h : a.ok = true) : a = .done := by
  cases a with
  | done => rfl
  | failed content => cases h

theorem succeeds_of_append {p q : List PlanItem} {n : Nat} (h : Succeeds P (p ++ q) n) :
    ∃ m, Succeeds P q m := by
  induction p generalizing n with
  | nil => exact ⟨n, h⟩
  | cons i p ih =>
    cases i with
    | refuse status => exact h.elim
    | cycle c => exact ih h.2

theorem issue_of_succeeds {plan : List PlanItem} {d : FlashDevice}
    (h : Succeeds P plan d.cycles.length) :
    ∃ cycles, issue P plan d = (.finished, ⟨effect plan d.flash, d.cycles ++ cycles⟩) ∧
      ∀ c ∈ cycles, c.ok = true := by
  induction plan generalizing d with
  | nil => exact ⟨[], by rw [List.append_nil]; rfl, fun c hc => (List.not_mem_nil hc).elim⟩
  | cons i plan ih =>
    cases i with
    | refuse status => exact h.elim
    | cycle c =>
      obtain ⟨hok, hrest⟩ := h
      have hlen : (c.issued P d).cycles.length = d.cycles.length + 1 := List.length_append
      obtain ⟨cycles, hissue, hall⟩ := ih (d := c.issued P d) (by rw [hlen]; exact hrest)
      have hflash : (c.issued P d).flash = c.op.apply c.address c.length (c.data d.flash) d.flash := by
        show (P.spiAnswer d.cycles.length).apply _ _ _ _ _ = _
        rw [SpiAnswer.eq_done hok]
        rfl
      refine ⟨⟨c.op, c.caller, c.address, true⟩ :: cycles, ?_, ?_⟩
      · simp only [issue]
        rw [if_pos hok, hissue, hflash]
        show (Ending.finished, FlashDevice.mk _ ((d.cycles ++ [⟨_, _, _, (P.spiAnswer _).ok⟩]) ++ _)) = _
        rw [hok, List.append_assoc]
        rfl
      · intro x hx
        rcases List.mem_cons.mp hx with rfl | hx
        · rfl
        · exact hall x hx

theorem issue_of_reports {plan : List PlanItem} {d : FlashDevice}
    (h : Reports P plan d.cycles.length) (hno : ¬ Succeeds P plan d.cycles.length) :
    ∃ status d' cycles, issue P plan d = (.failed status, d') ∧ d'.cycles = d.cycles ++ cycles ∧
      ∀ pre c post, cycles = pre ++ c :: post → c.ok = false → post = [] := by
  induction plan generalizing d with
  | nil => exact absurd trivial hno
  | cons i plan ih =>
    cases i with
    | refuse status =>
      refine ⟨status, d, [], rfl, (List.append_nil _).symm, fun pre c post hnil => ?_⟩
      exact absurd hnil.symm (List.append_ne_nil_of_right_ne_nil _ (List.cons_ne_nil _ _))
    | cycle c =>
      have hlen : (c.issued P d).cycles.length = d.cycles.length + 1 := List.length_append
      simp only [Reports] at h
      by_cases hok : (P.spiAnswer d.cycles.length).ok = true
      · rw [if_pos hok] at h
        have hno' : ¬ Succeeds P plan (c.issued P d).cycles.length := fun hs =>
          hno ⟨hok, by rw [← hlen]; exact hs⟩
        obtain ⟨status, d', cycles, hissue, hcycles, hlast⟩ :=
          ih (d := c.issued P d) (by rw [hlen]; exact h) hno'
        refine ⟨status, d', ⟨c.op, c.caller, c.address, (P.spiAnswer d.cycles.length).ok⟩ :: cycles,
          ?_, ?_, ?_⟩
        · simp only [issue]
          rw [if_pos hok, hissue]
        · rw [hcycles]
          show (d.cycles ++ [_]) ++ cycles = _
          rw [List.append_assoc]
          rfl
        · intro pre x post hsplit hx
          cases pre with
          | nil =>
            injection hsplit with hhead _
            rw [← hhead] at hx
            exact absurd (hok.symm.trans hx) Bool.noConfusion
          | cons y pre =>
            injection hsplit with _ htail
            exact hlast pre x post htail hx
      · rw [if_neg hok] at h
        -- the failing operation is the only one that is added
        have hone : ∀ status, issue P (.cycle c :: plan) d = (.failed status, c.issued P d) →
            ∃ status d' cycles, issue P (.cycle c :: plan) d = (.failed status, d') ∧
              d'.cycles = d.cycles ++ cycles ∧
              ∀ pre c post, cycles = pre ++ c :: post → c.ok = false → post = [] := by
          intro status hissue
          refine ⟨status, c.issued P d, [_], hissue, rfl, fun pre x post hsplit _ => ?_⟩
          cases pre with
          | nil => injection hsplit with _ htail; exact htail.symm
          | cons y pre =>
            injection hsplit with _ htail
            exact absurd htail.symm (List.append_ne_nil_of_right_ne_nil _ (List.cons_ne_nil _ _))
        rcases h with hsvn | ⟨ha, status, rest', rfl⟩
        · refine hone .deviceError ?_
          simp only [issue]
          rw [if_neg hok, hsvn]
        · cases hcaller : c.caller with
          | svnArea =>
            refine hone .deviceError ?_
            simp only [issue]
            rw [if_neg hok, hcaller]
          | block =>
            refine hone status ?_
            simp only [issue]
            rw [if_neg hok, hcaller, ha]
            rfl

theorem issue_of_not_reports {plan : List PlanItem} {d : FlashDevice}
    (h : ¬ Reports P plan d.cycles.length) :
    (issue P plan d).1 = .deadLoop ∨
      ∃ pre c post, (issue P plan d).2.cycles = d.cycles ++ (pre ++ c :: post) ∧ c.ok = false ∧
        (post ≠ [] ∨ (issue P plan d).1 = .finished) := by
  induction plan generalizing d with
  | nil => exact absurd trivial h
  | cons i plan ih =>
    cases i with
    | refuse status => exact absurd trivial h
    | cycle c =>
      have hlen : (c.issued P d).cycles.length = d.cycles.length + 1 := List.length_append
      have hadd : (c.issued P d).cycles =
          d.cycles ++ [⟨c.op, c.caller, c.address, (P.spiAnswer d.cycles.length).ok⟩] := rfl
      simp only [Reports] at h
      by_cases hok : (P.spiAnswer d.cycles.length).ok = true
      · rw [if_pos hok] at h
        have hgo : issue P (.cycle c :: plan) d = issue P plan (c.issued P d) := by
          simp only [issue]
          rw [if_pos hok]
        rw [hgo]
        rcases ih (d := c.issued P d) (by rw [hlen]; exact h) with hdead | ⟨pre, x, post, hc, hx, hend⟩
        · exact .inl hdead
        · refine .inr ⟨⟨c.op, c.caller, c.address, (P.spiAnswer d.cycles.length).ok⟩ :: pre, x, post, ?_,
            hx, hend⟩
          rw [hc, hadd, List.append_assoc]
          rfl
      · rw [if_neg hok, not_or] at h
        have hcaller : c.caller = .block := by
          cases hcc : c.caller with
          | block => rfl
          | svnArea => exact absurd hcc h.1
        by_cases ha : P.debugAssertEnabled = true
        · refine .inl ?_
          simp only [issue]
          rw [if_neg hok, hcaller]
          dsimp only
          rw [if_pos ha]
        · have hgo : issue P (.cycle c :: plan) d = issue P plan (c.issued P d) := by
            simp only [issue]
            rw [if_neg hok, hcaller]
            dsimp only
            rw [if_neg ha]
          rw [hgo]
          obtain ⟨cycles, hc, hne⟩ := issue_cycles (P := P) plan (c.issued P d)
          refine .inr ⟨[], ⟨c.op, c.caller, c.address, (P.spiAnswer d.cycles.length).ok⟩, cycles, ?_,
            Bool.eq_false_iff.mpr hok, ?_⟩
          · rw [hc, hadd, List.append_assoc]
            rfl
          · cases plan with
            | nil => exact .inr rfl
            | cons i rest =>
              cases i with
              | cycle c' => exact .inl (hne c' rest rfl)
              | refuse status =>
                exact absurd ⟨Bool.eq_false_iff.mpr ha, status, rest, rfl⟩ h.2

/-! ## The flash, block by block -/

/-- A block as a well-formed hint table gives it: an aligned block of the flash with its data in
memory. -/
structure BlockFits (P : Platform) (b : StateMachinePrivateData) : Prop where
  aligned : b.targetAddr % flashBlockSize = 0
  size_eq : b.blockSize = flashBlockSize
  below_4gb : b.targetAddr + flashBlockSize ≤ 0x100000000
  source_lt : b.sourceAddr + flashBlockSize ≤ P.spiFlashBaseAddress

def InBlock (a x : Nat) : Prop := a ≤ x ∧ x < a + flashBlockSize

instance (a x : Nat) : Decidable (InBlock a x) := inferInstanceAs (Decidable (_ ∧ _))

theorem erase_program {a : Nat} (ha : a % flashBlockSize = 0) (n : Nat) (junk data flash : Mem)
    (x : Nat) :
    SpiOp.program.apply a flashBlockSize data (SpiOp.erase.apply a n junk flash) x =
      if InBlock a x then data (x - a) else flash x := by
  have hblock : x / flashBlockSize = a / flashBlockSize ↔ InBlock a x := by
    show x / 4096 = a / 4096 ↔ a ≤ x ∧ x < a + 4096
    have ha' : a % 4096 = 0 := ha
    omega
  show (if a ≤ x ∧ x < a + flashBlockSize then
      (if x / flashBlockSize = a / flashBlockSize then 0xFF else flash x) &&& data (x - a)
    else if x / flashBlockSize = a / flashBlockSize then 0xFF else flash x) = _
  by_cases hx : InBlock a x
  · rw [if_pos (show a ≤ x ∧ x < a + flashBlockSize from hx), if_pos hx, if_pos (hblock.mpr hx)]
    exact UInt8.neg_one_and
  · rw [if_neg (show ¬ (a ≤ x ∧ x < a + flashBlockSize) from hx), if_neg hx,
      if_neg (fun h => hx (hblock.mp h))]

def blockAfter (s : SmmState) (i : Nat) (b : StateMachinePrivateData) (flash : Mem) : Mem := fun x =>
  if InBlock b.targetAddr x then s.ram (b.sourceAddr + (x - b.targetAddr))
  else if svnDue s i b = true ∧ InBlock flashRegionSvnBaseAddress x then
    s.svnAreaBuffer (x - flashRegionSvnBaseAddress)
  else flash x

def blocksAfter (s : SmmState) : Nat → List StateMachinePrivateData → Mem → Mem
  | _, [], flash => flash
  | i, b :: bs, flash => blocksAfter s (i + 1) bs (blockAfter s i b flash)

theorem effect_svnPlan {buffer flash : Mem} {rest : List PlanItem} {n : Nat}
    (h : Succeeds P (svnPlan P buffer ++ rest) n) (x : Nat) :
    effect (svnPlan P buffer) flash x =
      if InBlock flashRegionSvnBaseAddress x then buffer (x - flashRegionSvnBaseAddress)
      else flash x := by
  unfold svnPlan at h ⊢
  split at h
  · exact h.elim
  split at h
  · exact h.elim
  split at h
  · exact h.elim
  rw [if_neg ‹_›, if_neg ‹_›, if_neg ‹_›]
  exact erase_program (a := flashRegionSvnBaseAddress) (by decide) _ _ _ _ _

theorem readWith_source {ram flash : Mem} {b : StateMachinePrivateData} (hb : BlockFits P b) {k : Nat}
    (hk : k < flashBlockSize) : readWith P ram flash (u32 (b.sourceAddr + k)) = ram (b.sourceAddr + k) := by
  have hsrc := hb.source_lt
  have hf := P.flash_base.2
  unfold readWith
  rw [u32_of_lt (by omega), if_neg (by omega)]

theorem effect_block {s : SmmState} {b : StateMachinePrivateData} (hb : BlockFits P b) (flash : Mem)
    (x : Nat) :
    effect [.cycle (blockErase P s.ram b), .cycle (blockProgram P s.ram b)] flash x =
      if InBlock b.targetAddr x then s.ram (b.sourceAddr + (x - b.targetAddr)) else flash x := by
  have hlt : b.targetAddr + 4096 ≤ 0x100000000 := hb.below_4gb
  have haddr : u32 b.targetAddr = b.targetAddr := u32_of_lt (by omega)
  simp only [effect, blockErase, blockProgram, hb.size_eq, haddr]
  rw [erase_program hb.aligned]
  by_cases hx : InBlock b.targetAddr x
  · rw [if_pos hx, if_pos hx]
    have hx' := hx.2
    have hx'' := hx.1
    exact readWith_source hb (by omega)
  · rw [if_neg hx, if_neg hx]

theorem effect_blocksPlan {s : SmmState} :
    ∀ (bs : List StateMachinePrivateData) (i n : Nat) (flash : Mem), (∀ b ∈ bs, BlockFits P b) →
      Succeeds P (blocksPlan P s i bs) n →
      effect (blocksPlan P s i bs) flash = blocksAfter s i bs flash := by
  intro bs
  induction bs with
  | nil => intro i n flash _ _; rfl
  | cons b bs ih =>
    intro i n flash hfit hs
    have hb := hfit b List.mem_cons_self
    have hone : effect (blockPlan P s i b) flash = blockAfter s i b flash := by
      funext x
      unfold blockPlan blockAfter
      rw [effect_append, effect_block hb]
      by_cases hx : InBlock b.targetAddr x
      · rw [if_pos hx, if_pos hx]
      · rw [if_neg hx, if_neg hx]
        simp only [blocksPlan, blockPlan, List.append_assoc] at hs
        cases hdue : svnDue s i b with
        | false =>
          rw [if_neg Bool.false_ne_true, if_neg (fun h => absurd h.1 Bool.noConfusion)]
          rfl
        | true =>
          rw [hdue, if_pos rfl] at hs
          rw [if_pos rfl, effect_svnPlan hs]
          by_cases hsvn : InBlock flashRegionSvnBaseAddress x
          · rw [if_pos hsvn, if_pos ⟨rfl, hsvn⟩]
          · rw [if_neg hsvn, if_neg (fun h => hsvn h.2)]
    obtain ⟨m, hrest⟩ : ∃ m, Succeeds P (blocksPlan P s (i + 1) bs) m := by
      exact succeeds_of_append hs
    show effect (blockPlan P s i b ++ blocksPlan P s (i + 1) bs) flash = _
    rw [effect_append, hone]
    exact ih (i + 1) m _ (fun b hb => hfit b (List.mem_cons_of_mem _ hb)) hrest

theorem blocksAfter_append (s : SmmState) (p q : List StateMachinePrivateData) (i : Nat)
    (flash : Mem) :
    blocksAfter s i (p ++ q) flash = blocksAfter s (i + p.length) q (blocksAfter s i p flash) := by
  induction p generalizing i flash with
  | nil => rfl
  | cons b p ih =>
    show blocksAfter s (i + 1) (p ++ q) _ = _
    rw [ih, List.length_cons, Nat.add_right_comm, Nat.add_assoc]
    rfl

theorem blocksAfter_stable {s : SmmState} {x : Nat} {v : UInt8} :
    ∀ (bs : List StateMachinePrivateData) (i : Nat) (flash : Mem), flash x = v →
      (∀ b ∈ bs, ¬ InBlock b.targetAddr x) →
      (∀ pre c post, bs = pre ++ c :: post → svnDue s (i + pre.length) c = true →
        InBlock flashRegionSvnBaseAddress x →
        s.svnAreaBuffer (x - flashRegionSvnBaseAddress) = v) →
      blocksAfter s i bs flash x = v := by
  intro bs
  induction bs with
  | nil => intro i flash hv _ _; exact hv
  | cons b bs ih =>
    intro i flash hv hout hsvn
    refine ih (i + 1) _ ?_ (fun c hc => hout c (List.mem_cons_of_mem _ hc)) ?_
    · unfold blockAfter
      rw [if_neg (hout b List.mem_cons_self)]
      by_cases hdue : svnDue s i b = true ∧ InBlock flashRegionSvnBaseAddress x
      · rw [if_pos hdue]
        exact hsvn [] b bs rfl hdue.1 hdue.2
      · rw [if_neg hdue]
        exact hv
    · intro pre c post hsplit hdue
      refine hsvn (b :: pre) c post (by rw [hsplit]; rfl) ?_
      rw [List.length_cons, show i + (pre.length + 1) = i + 1 + pre.length by omega]
      exact hdue

theorem InBlock.unique {a b x : Nat} (ha : InBlock a x) (hb : InBlock b x)
    (ha' : a % flashBlockSize = 0) (hb' : b % flashBlockSize = 0) : a = b := by
  have h₁ : a ≤ x ∧ x < a + 4096 := ha
  have h₂ : b ≤ x ∧ x < b + 4096 := hb
  have h₃ : a % 4096 = 0 := ha'
  have h₄ : b % 4096 = 0 := hb'
  omega

theorem inBlock_add (a : Nat) {k : Nat} (hk : k < flashBlockSize) : InBlock a (a + k) :=
  ⟨Nat.le_add_right _ _, Nat.add_lt_add_left hk _⟩

theorem blocksAfter_target_iff {s : SmmState} {bs : List StateMachinePrivateData} (flash : Mem)
    (hal : ∀ b ∈ bs, b.targetAddr % flashBlockSize = 0)
    (hdist : bs.Pairwise fun b c => b.targetAddr ≠ c.targetAddr) :
    (∀ b ∈ bs, ∀ k < flashBlockSize,
        blocksAfter s 0 bs flash (b.targetAddr + k) = s.ram (b.sourceAddr + k)) ↔
      SvnSpares s bs := by
  have hsvn_al : flashRegionSvnBaseAddress % flashBlockSize = 0 := by decide
  -- a byte of one block is in no block after it
  have hlater : ∀ pre b post, bs = pre ++ b :: post → ∀ c ∈ post, ∀ x, InBlock b.targetAddr x →
      ¬ InBlock c.targetAddr x := by
    intro pre b post hsplit c hc x hb hcx
    rw [hsplit, List.pairwise_append] at hdist
    have hcmem : c ∈ bs := by
      rw [hsplit]
      exact List.mem_append_right _ (List.mem_cons_of_mem _ hc)
    have hbmem : b ∈ bs := by
      rw [hsplit]
      exact List.mem_append_right _ List.mem_cons_self
    exact List.rel_of_pairwise_cons hdist.2.1 hc (hb.unique hcx (hal b hbmem) (hal c hcmem))
  constructor
  · intro hdata pre b mid c post hsplit hb hdue k hk
    have hsplit' : bs = pre ++ b :: (mid ++ c :: post) := by
      rw [hsplit, List.append_assoc, List.cons_append]
    have hbmem : b ∈ bs := by
      rw [hsplit']
      exact List.mem_append_right _ List.mem_cons_self
    have hx : InBlock b.targetAddr (b.targetAddr + k) := inBlock_add _ hk
    have hout := fun d hd => hlater pre b _ hsplit' d hd _ hx
    rw [← hdata b hbmem k hk, hsplit, blocksAfter_append]
    have hlen : 0 + (pre ++ b :: mid).length = pre.length + 1 + mid.length := by
      simp only [List.length_append, List.length_cons]
      omega
    have hval : s.svnAreaBuffer (b.targetAddr + k - flashRegionSvnBaseAddress) =
        s.svnAreaBuffer k := by
      rw [hb, Nat.add_sub_cancel_left]
    rw [hlen]
    refine (blocksAfter_stable post _ _ ?_ (fun d hd => hout d ?_) fun _ _ _ _ _ _ => hval).symm
    · unfold blockAfter
      rw [if_neg (hout c (List.mem_append_right _ List.mem_cons_self)), if_pos ⟨hdue, hb ▸ hx⟩]
      exact hval
    · exact List.mem_append_right _ (List.mem_cons_of_mem _ hd)
  · intro hspare b hbmem k hk
    obtain ⟨pre, post, hsplit⟩ := List.append_of_mem hbmem
    have hx : InBlock b.targetAddr (b.targetAddr + k) := inBlock_add _ hk
    rw [hsplit, blocksAfter_append]
    refine blocksAfter_stable post _ _ ?_ (fun c hc => hlater pre b post hsplit c hc _ hx) ?_
    · unfold blockAfter
      rw [if_pos hx, Nat.add_sub_cancel_left]
    · intro mid c post' hpost hdue hsvn
      have hb := hx.unique hsvn (hal b hbmem) hsvn_al
      rw [hb, Nat.add_sub_cancel_left]
      refine hspare pre b mid c post' ?_ hb ?_ k hk
      · rw [hsplit, hpost, List.append_assoc, List.cons_append]
      · rw [Nat.zero_add] at hdue
        exact hdue

/-! ## The blocks of a hint table -/

section Hints

variable {hints : List UpdateHint}

theorem mem_hintBlocks {b : StateMachinePrivateData} :
    b ∈ hintBlocks P hints ↔ ∃ h ∈ hints, ∃ j < h.size / flashBlockSize, h.block P j = b := by
  simp only [hintBlocks, UpdateHint.blocks, List.mem_flatMap, List.mem_map, List.mem_range]

theorem block_inside {h : UpdateHint} {j : Nat} (hj : j < h.size / flashBlockSize) :
    j * flashBlockSize + flashBlockSize ≤ h.size := by
  have hmul := Nat.mul_le_mul_right flashBlockSize (Nat.succ_le_of_lt hj)
  rw [Nat.succ_mul] at hmul
  exact hmul.trans (Nat.div_mul_le_self _ _)

theorem block_sourceAddr (hw : WellFormedHints P hints) {h : UpdateHint} (hh : h ∈ hints) {j : Nat}
    (hj : j < h.size / flashBlockSize) :
    (h.block P j).sourceAddr = P.capsuleSmmBuffer + h.sourceOffset + j * flashBlockSize := by
  have hsrc := hw.source_inside h hh
  have hin := block_inside hj
  have hbuf := P.buffer_below_flash
  have hf := P.flash_base.2
  have h4 : 0 < flashBlockSize := by decide
  exact u32_of_lt (by omega)

theorem blockFits_of_mem (hw : WellFormedHints P hints) {b : StateMachinePrivateData}
    (hb : b ∈ hintBlocks P hints) : BlockFits P b := by
  obtain ⟨h, hh, j, hj, rfl⟩ := mem_hintBlocks.mp hb
  have hal := hw.aligned h hh
  have hin := block_inside hj
  have hbelow := hw.below_4gb h hh
  have hsrc := hw.source_inside h hh
  have hbuf := P.buffer_below_flash
  refine ⟨?_, rfl, ?_, ?_⟩
  · show (h.targetAddr + j * flashBlockSize) % flashBlockSize = 0
    rw [Nat.add_mul_mod_self_right]
    exact hal
  · show h.targetAddr + j * flashBlockSize + flashBlockSize ≤ _
    omega
  · rw [block_sourceAddr hw hh hj]
    omega

theorem hintBlocks_distinct (hw : WellFormedHints P hints) :
    (hintBlocks P hints).Pairwise fun b c => b.targetAddr ≠ c.targetAddr := by
  have h4 : 0 < flashBlockSize := by decide
  unfold hintBlocks
  rw [List.pairwise_flatMap]
  constructor
  · intro h _
    unfold UpdateHint.blocks
    rw [List.pairwise_map]
    refine List.pairwise_lt_range.imp fun {j k} hjk => ?_
    show h.targetAddr + j * flashBlockSize ≠ h.targetAddr + k * flashBlockSize
    have hmul := Nat.mul_lt_mul_of_pos_right hjk h4
    omega
  · refine hw.disjoint.imp fun {h h'} hdis b hb c hc => ?_
    obtain ⟨j, hj, rfl⟩ := List.mem_map.mp hb
    obtain ⟨k, hk, rfl⟩ := List.mem_map.mp hc
    have hj' := block_inside (List.mem_range.mp hj)
    have hk' := block_inside (List.mem_range.mp hk)
    intro heq
    have heq : h.targetAddr + j * flashBlockSize = h'.targetAddr + k * flashBlockSize := heq
    refine hdis (h.targetAddr + j * flashBlockSize) (Nat.le_add_right _ _) ?_ ⟨?_, ?_⟩
    · show _ < h.targetAddr + h.size
      omega
    · show h'.targetAddr ≤ _
      omega
    · show _ < h'.targetAddr + h'.size
      omega

theorem target_iff_blocks (hw : WellFormedHints P hints) {ram flash : Mem} :
    (∀ h ∈ hints, ∀ k < h.size,
        flash (h.targetAddr + k) = ram (P.capsuleSmmBuffer + h.sourceOffset + k)) ↔
      ∀ b ∈ hintBlocks P hints, ∀ k < flashBlockSize,
        flash (b.targetAddr + k) = ram (b.sourceAddr + k) := by
  constructor
  · intro hdata b hb k hk
    obtain ⟨h, hh, j, hj, rfl⟩ := mem_hintBlocks.mp hb
    have hin := block_inside hj
    have hbyte := hdata h hh (j * flashBlockSize + k) (by omega)
    rw [block_sourceAddr hw hh hj]
    simp only [← Nat.add_assoc] at hbyte
    exact hbyte
  · intro hdata h hh k hk
    have h4 : 0 < flashBlockSize := by decide
    have hdiv : k / flashBlockSize < h.size / flashBlockSize := by
      have hdvd := Nat.dvd_of_mod_eq_zero (hw.whole_blocks h hh).2
      exact Nat.div_lt_div_of_lt_of_dvd hdvd hk
    have hbyte := hdata _ (mem_hintBlocks.mpr ⟨h, hh, _, hdiv, rfl⟩) (k % flashBlockSize)
      (Nat.mod_lt _ h4)
    rw [block_sourceAddr hw hh hdiv] at hbyte
    have hk' := Nat.div_add_mod' k flashBlockSize
    have ht : (h.block P (k / flashBlockSize)).targetAddr + k % flashBlockSize =
        h.targetAddr + k := by
      show h.targetAddr + k / flashBlockSize * flashBlockSize + k % flashBlockSize = _
      omega
    rwa [ht, Nat.add_assoc (P.capsuleSmmBuffer + h.sourceOffset), hk'] at hbyte

theorem not_inBlock_of_outside {x : Nat}
    (hx : ∀ h ∈ hints, ¬ (h.targetAddr ≤ x ∧ x < h.targetAddr + h.size)) :
    ∀ b ∈ hintBlocks P hints, ¬ InBlock b.targetAddr x := by
  intro b hb hin
  obtain ⟨h, hh, j, hj, rfl⟩ := mem_hintBlocks.mp hb
  have hj' := block_inside hj
  have h₁ : h.targetAddr + j * flashBlockSize ≤ x := hin.1
  have h₂ : x < h.targetAddr + j * flashBlockSize + flashBlockSize := hin.2
  exact hx h hh ⟨by omega, by omega⟩

end Hints

/-! ## The run -/

section

variable {hints : List UpdateHint} {bs : List StateMachinePrivateData} {s : SmmState}

theorem updateLoop_ends (h : AtErase P bs 0 s) (hne : bs ≠ []) (hfuel : 2 * bs.length ≤ P.fuel) :
    match issue P (blocksPlan P s 0 bs) s.device with
    | (.finished, d) => ∃ t, updateLoop P s = .ret .success t ∧ t.device = d ∧
        t.runMask = s.runMask ∧ t.updateStatusPacket.blocksCompleted = bs.length
    | (.failed status, d) => ∃ t, updateLoop P s = .ret status t ∧ status.isError = true ∧
        t.device = d
    | (.deadLoop, _) => ∃ t, updateLoop P s = .stop .deadLoop t := by
  have hwp : (updateLoop P).wp
      (fun status t =>
        (status = .success ∧ issue P (blocksPlan P s 0 bs) s.device = (.finished, t.device) ∧
          t.runMask = s.runMask ∧ t.updateStatusPacket.blocksCompleted = bs.length) ∨
        (status.isError = true ∧
          issue P (blocksPlan P s 0 bs) s.device = (.failed status, t.device)))
      (fun e t => e = .deadLoop ∧ issue P (blocksPlan P s 0 bs) s.device = (.deadLoop, t.device))
      s := by
    refine wp_updateLoop_blocks bs 0 P.fuel s h rfl hne hfuel ?_ ?_ ?_
    · intro t d hd hdev hmask hdone _
      exact .inl ⟨rfl, by rw [hd, hdev], hmask, hdone⟩
    · intro status t d hd hst hdev _
      exact .inr ⟨hst, by rw [hd, hdev]⟩
    · intro t d hd hdev _
      exact ⟨rfl, by rw [hd, hdev]⟩
  unfold Exec.wp at hwp
  split at hwp
  · rename_i status t hret
    rcases hwp with ⟨rfl, hissue, hmask, hdone⟩ | ⟨hst, hissue⟩
    · rw [hissue]
      exact ⟨t, hret, rfl, hmask, hdone⟩
    · rw [hissue]
      exact ⟨t, hret, hst, rfl⟩
  · rename_i e t hstop
    obtain ⟨rfl, hissue⟩ := hwp
    rw [hissue]
    exact ⟨t, hstop⟩


theorem updateLoop_of_empty (h : AtErase P [] 0 s) (hfuel : 2 ≤ P.fuel) :
    ∃ t, updateLoop P s = .ret .deviceError t ∧ t.device = s.device := by
  have hwp : (updateLoop P).wp (fun status t => status = .deviceError ∧ t.device = s.device)
      (fun _ _ => False) s :=
    wp_updateLoop_empty h (fun t hdev _ => ⟨rfl, hdev⟩) fun hlt => absurd hlt (by omega)
  unfold Exec.wp at hwp
  split at hwp
  · rename_i status t hret
    obtain ⟨rfl, hdev⟩ := hwp
    exact ⟨t, hret, hdev⟩
  · exact hwp.elim

theorem updated_iff {t : SmmState} (hw : WellFormedHints P hints) (h : Parsed P hints s)
    (hs : Succeeds P (blocksPlan P s 0 (hintBlocks P hints)) s.spiCycles.length)
    (hflash : t.flash = effect (blocksPlan P s 0 (hintBlocks P hints)) s.flash)
    (hmask : t.runMask = s.runMask)
    (hdone : t.updateStatusPacket.blocksCompleted = (hintBlocks P hints).length) :
    Updated P hints s t ↔ SvnSpares s (hintBlocks P hints) := by
  rw [effect_blocksPlan _ 0 _ _ (fun b hb => blockFits_of_mem hw hb) hs] at hflash
  have htargets := blocksAfter_target_iff (s := s) s.flash
    (fun b hb => (blockFits_of_mem hw hb).aligned) (hintBlocks_distinct hw)
  have htotal : t.updateStatusPacket.totalBlocks = s.updateStatusPacket.totalBlocks :=
    (congrArg (fun u : SmmState => u.updateStatusPacket.totalBlocks) hmask :)
  constructor
  · intro hupd
    refine htargets.mp ?_
    rw [← hflash]
    exact (target_iff_blocks hw).mp hupd.target
  · intro hspare
    refine ⟨(target_iff_blocks hw).mpr ?_, fun x hx hsvn => ?_, ?_⟩
    · rw [hflash]
      exact htargets.mpr hspare
    · rw [hflash]
      exact blocksAfter_stable _ 0 s.flash rfl (not_inBlock_of_outside hx)
        fun _ _ _ _ _ hin => absurd hin hsvn
    · rw [hdone, htotal, h.totalBlocks_eq]

/-- The update is correct exactly when the first operation to fail, if there is one, is on the SVN
area, and, if there is none, no SVN update spoils a block. -/
theorem update_correct_iff (hw : WellFormedHints P hints) (h : Parsed P hints s)
    (hfuel : 2 * (hintBlocks P hints).length + 2 ≤ P.fuel) :
    UpdateCorrect P hints s ↔
      Reports P (blocksPlan P s 0 (hintBlocks P hints)) s.spiCycles.length ∧
        (Succeeds P (blocksPlan P s 0 (hintBlocks P hints)) s.spiCycles.length →
          SvnSpares s (hintBlocks P hints)) := by
  by_cases hne : hintBlocks P hints = []
  · obtain ⟨t, hret, hdev⟩ := updateLoop_of_empty (hne ▸ h.atErase) (by omega)
    have hcycles : t.spiCycles = s.spiCycles := congrArg FlashDevice.cycles hdev
    rw [hne]
    constructor
    · intro _
      refine ⟨trivial, fun _ pre b mid c post hsplit => ?_⟩
      rw [List.append_assoc] at hsplit
      exact absurd hsplit.symm (List.append_ne_nil_of_right_ne_nil _ (List.cons_ne_nil _ _))
    · intro _
      refine ⟨.deviceError, t, hret, (fun hc => by cases hc), fun pre c post hsplit => ?_⟩
      rw [hcycles] at hsplit
      have hnil := List.append_cancel_left ((List.append_nil _).trans hsplit)
      exact absurd hnil.symm (List.append_ne_nil_of_right_ne_nil _ (List.cons_ne_nil _ _))
  have hends := updateLoop_ends h.atErase hne (by omega)
  constructor
  · rintro ⟨status, t, hret, hupd, hlast⟩
    constructor
    · by_contra hno
      rcases issue_of_not_reports (d := s.device) hno with hdead | ⟨pre, c, post, hcyc, hok, hend⟩
      · split at hends
        case h_3 =>
          obtain ⟨u, hstop⟩ := hends
          rw [hret] at hstop
          cases hstop
        all_goals rename_i hissue; rw [hissue] at hdead; cases hdead
      · split at hends
        · rename_i d hissue
          obtain ⟨u, hsucc, hdev, -⟩ := hends
          rw [hret] at hsucc
          cases hsucc
          have hcycles : t.spiCycles = d.cycles := congrArg FlashDevice.cycles hdev
          rw [hissue] at hcyc
          exact absurd (hlast pre c post (hcycles.trans hcyc) hok).1 Bool.noConfusion
        · rename_i st d hissue
          obtain ⟨u, hfail, -, hdev⟩ := hends
          rw [hret] at hfail
          cases hfail
          have hcycles : t.spiCycles = d.cycles := congrArg FlashDevice.cycles hdev
          rw [hissue] at hcyc hend
          rcases hend with hpost | hfin
          · exact hpost (hlast pre c post (hcycles.trans hcyc) hok).2
          · cases hfin
        · obtain ⟨u, hstop⟩ := hends
          rw [hret] at hstop
          cases hstop
    · intro hs
      obtain ⟨cycles, hissue, -⟩ := issue_of_succeeds (d := s.device) hs
      rw [hissue] at hends
      obtain ⟨u, hsucc, hdev, hmask, hdone⟩ := hends
      rw [hret] at hsucc
      cases hsucc
      have hflash := congrArg FlashDevice.flash hdev
      exact (updated_iff hw h hs hflash hmask hdone).mp (hupd rfl)
  · rintro ⟨hreports, hspare⟩
    by_cases hs : Succeeds P (blocksPlan P s 0 (hintBlocks P hints)) s.spiCycles.length
    · obtain ⟨cycles, hissue, hall⟩ := issue_of_succeeds (d := s.device) hs
      rw [hissue] at hends
      obtain ⟨t, hsucc, hdev, hmask, hdone⟩ := hends
      refine ⟨.success, t, hsucc, fun _ => ?_, fun pre c post hsplit hok => ?_⟩
      · exact (updated_iff hw h hs (congrArg FlashDevice.flash hdev) hmask hdone).mpr (hspare hs)
      · have hcycles : t.spiCycles = s.spiCycles ++ cycles := congrArg FlashDevice.cycles hdev
        have heq := List.append_cancel_left (hcycles.symm.trans hsplit)
        have hc := hall c (by rw [heq]; exact List.mem_append_right _ List.mem_cons_self)
        rw [hok] at hc
        cases hc
    · obtain ⟨status, d, cycles, hissue, hcyc, hlast⟩ :=
        issue_of_reports (d := s.device) hreports hs
      rw [hissue] at hends
      obtain ⟨t, hfail, hst, hdev⟩ := hends
      refine ⟨status, t, hfail, fun hc => ?_, fun pre c post hsplit hok => ⟨hst, ?_⟩⟩
      · rw [hc] at hst
        cases hst
      · have hcycles : t.spiCycles = s.spiCycles ++ cycles :=
          (congrArg FlashDevice.cycles hdev).trans hcyc
        exact hlast pre c post (List.append_cancel_left (hcycles.symm.trans hsplit)) hok

end

def oneBlockHint : UpdateHint := ⟨0xFF800000, 0x1000, 0x1000⟩

theorem wellFormedHints_oneBlock : WellFormedHints .sample [oneBlockHint] where
  aligned := by decide
  whole_blocks := by decide
  below_4gb := by decide
  disjoint := List.pairwise_singleton _ _
  blocks_le := by decide
  source_inside := by decide

theorem parsed_oneBlock (hP : P.capsuleSmmBuffer = Platform.sample.capsuleSmmBuffer)
    (hmax : P.pcdMaxSizeNonPopulateCapsule = Platform.sample.pcdMaxSizeNonPopulateCapsule) :
    Parsed P [oneBlockHint]
      (parsedState svnUpdNever 0 (hintBlocks .sample [oneBlockHint])) := by
  have hbs : hintBlocks P [oneBlockHint] = hintBlocks .sample [oneBlockHint] := by
    unfold hintBlocks UpdateHint.blocks UpdateHint.block
    rw [hP]
  refine ⟨?_, by rw [hbs]; rfl⟩
  rw [hbs]
  refine atErase_parsedState _ _ ?_ (by decide) (by decide)
  unfold Platform.maxBlockNumber
  rw [hmax]
  decide

theorem update_correct_iff_one_block :
    UpdateCorrect .sample [oneBlockHint]
        (parsedState svnUpdNever 0 (hintBlocks .sample [oneBlockHint])) ↔
      Reports .sample (blocksPlan .sample
          (parsedState svnUpdNever 0 (hintBlocks .sample [oneBlockHint])) 0
          (hintBlocks .sample [oneBlockHint])) 0 ∧
        (Succeeds .sample (blocksPlan .sample
            (parsedState svnUpdNever 0 (hintBlocks .sample [oneBlockHint])) 0
            (hintBlocks .sample [oneBlockHint])) 0 →
          SvnSpares (parsedState svnUpdNever 0 (hintBlocks .sample [oneBlockHint]))
            (hintBlocks .sample [oneBlockHint])) :=
  update_correct_iff wellFormedHints_oneBlock (parsed_oneBlock rfl rfl) (by decide)

/-- The sample platform in a build without `ASSERT`s, with a controller that fails its first cycle. -/
def failingPlatform : Platform :=
  { Platform.sample with
    debugAssertEnabled := false
    spiAnswer := fun n => if n = 0 then .failed (fun _ => 0) else .done }

/-- The erase of the only block fails; the block is programmed and success is reported. -/
theorem failed_erase_not_reported :
    WellFormedHints failingPlatform [oneBlockHint] ∧
      Parsed failingPlatform [oneBlockHint]
        (parsedState svnUpdNever 0 (hintBlocks .sample [oneBlockHint])) ∧
      ¬ UpdateCorrect failingPlatform [oneBlockHint]
        (parsedState svnUpdNever 0 (hintBlocks .sample [oneBlockHint])) := by
  have hrec : (updateLoop failingPlatform
      (parsedState svnUpdNever 0 (hintBlocks .sample [oneBlockHint]))).state.spiCycles =
      [] ++ ([] ++ ⟨.erase, .block, 0xFF800000, false⟩ ::
        [⟨.program, .block, 0xFF800000, true⟩]) := by
    decide +kernel
  have hval : (updateLoop failingPlatform
      (parsedState svnUpdNever 0 (hintBlocks .sample [oneBlockHint]))).value? = some .success := by
    decide +kernel
  refine ⟨⟨by decide, by decide, by decide, List.pairwise_singleton _ _, by decide, by decide⟩,
    parsed_oneBlock rfl rfl, ?_⟩
  rintro ⟨status, t, hret, -, hlast⟩
  rw [hret] at hrec hval
  cases hval
  exact absurd (hlast _ _ _ hrec rfl).1 Bool.noConfusion

end Quark.SmiFlash
