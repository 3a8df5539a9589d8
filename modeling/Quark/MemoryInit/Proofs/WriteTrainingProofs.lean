import Quark.MemoryInit.Proofs.ReadTrainingProofs

/-!
# Write training

`wr_train` looks for WDQ in the half clock before WDQS. The two limits of a rank come closer by one code
for each test that its lane fails and stop before they meet. The delay itself is common to the ranks, so
it gets the average of their middles.
-/

namespace Quark.MemoryInit

open Machine Exec

/-! ## Delays -/

abbrev DelayIndex := Side × Fin numChannels × Fin numRanks × Fin numByteLanes

namespace WrVars

def withDelay (a : WrVars) (k : DelayIndex) (v : BitVec 32) : WrVars :=
  { a with delay := Function.update a.delay k v }

def limit (a : WrVars) (side : Side) (r : Fin numChannels × Fin numRanks) (bl : Fin numByteLanes) : Nat :=
  (a.delay (side, r.1, r.2, bl)).toNat

variable {a : WrVars} {side side' : Side} {r r' : Fin numChannels × Fin numRanks}
variable {bl bl' : Fin numByteLanes} {v : BitVec 32}

theorem delay_withDelay_self {k : DelayIndex} : (a.withDelay k v).delay k = v := Function.update_self ..

theorem delay_withDelay_of_ne {k k' : DelayIndex} (h : k' ≠ k) :
    (a.withDelay k v).delay k' = a.delay k' := Function.update_of_ne h ..

theorem limit_withDelay_self : (a.withDelay (side, r.1, r.2, bl) v).limit side r bl = v.toNat :=
  congrArg BitVec.toNat delay_withDelay_self

theorem limit_withDelay_of_ne (h : ¬ (side' = side ∧ r' = r ∧ bl' = bl)) :
    (a.withDelay (side, r.1, r.2, bl) v).limit side' r' bl' = a.limit side' r' bl' := by
  refine congrArg BitVec.toNat (delay_withDelay_of_ne fun heq => ?_)
  simp only [Prod.mk.injEq] at heq
  exact h ⟨heq.1, Prod.ext heq.2.1 heq.2.2.1, heq.2.2.2⟩

end WrVars

@[simp] theorem wp_setDelay {k : DelayIndex} {v : BitVec 32} {Q : Unit → WrTraining → Prop}
    {E : Stop → WrTraining → Prop} {s : WrTraining} :
    wp (setDelay k v) Q E s ↔ Q () { s with vars := s.vars.withDelay k v } := Iff.rfl

theorem wdq_takes {v : BitVec 32} (h : v.toNat < 1024) (ch : Fin numChannels) (bl : Fin numByteLanes) :
    (Delay.wdq ch bl).Takes v := ⟨h, nofun⟩

theorem getWdqs_lt (p : Phy) (ch rk bl : Nat) : (getWdqs p ch rk bl).toNat < 1024 :=
  toNat_two_fields_lt _ _ _ _

theorem wp_programWdq {ch : Fin numChannels} {rk : Fin numRanks} {bl : Fin numByteLanes} {v : BitVec 32}
    (h : v.toNat < 1024) {Q : Unit → WrTraining → Prop} {E : Stop → WrTraining → Prop} {s : WrTraining}
    (hQ : ∀ q, (∀ d' : Delay, d'.get q = if d' = .wdq ch bl then v else d'.get s.phy) →
      Q () { s with phy := q, vars := { s.vars with programmed := (ch, bl, v) :: s.vars.programmed } }) :
    wp (programWdq ch rk bl v) Q E s := by
  unfold programWdq
  rw [wp_bind, wp_modifyVars]
  exact wp_set_onPhy (d := .wdq ch bl) rk (wdq_takes h ch bl) nofun hQ

/-! ## The window -/

abbrev WdqLog := List (Fin numChannels × Fin numByteLanes × BitVec 32)

def InHalfClock (P : TrainParams) (W : Fin numByteLanes → Nat) (old log : WdqLog) : Prop :=
  ∃ new, log = new ++ old ∧
    ∀ e ∈ new, e.2.1 ∈ P.lanes ∧ W e.2.1 ≤ e.2.2.toNat + 64 ∧ e.2.2.toNat ≤ W e.2.1

theorem InHalfClock.cons {P : TrainParams} {W : Fin numByteLanes → Nat} {old log : WdqLog}
    (h : InHalfClock P W old log) (ch : Fin numChannels) {bl : Fin numByteLanes} {v : BitVec 32}
    (hbl : bl ∈ P.lanes) (hlow : W bl ≤ v.toNat + 64) (hhigh : v.toNat ≤ W bl) :
    InHalfClock P W old ((ch, bl, v) :: log) := by
  obtain ⟨new, rfl, hall⟩ := h
  refine ⟨(ch, bl, v) :: new, rfl, fun e he => ?_⟩
  rcases List.mem_cons.mp he with rfl | he
  · exact ⟨hbl, hlow, hhigh⟩
  · exact hall e he

/-- The arrays while the limits are searched: they are apart and within the half clock before WDQS. -/
structure WrLimits (P : TrainParams) (W : Fin numByteLanes → Nat) (old : WdqLog) (a : WrVars) : Prop where
  low : ∀ r ∈ P.ranks, ∀ bl ∈ P.lanes, W bl ≤ a.limit sideL r bl + 64
  lt : ∀ r ∈ P.ranks, ∀ bl ∈ P.lanes, a.limit sideL r bl < a.limit sideR r bl
  high : ∀ r ∈ P.ranks, ∀ bl ∈ P.lanes, a.limit sideR r bl ≤ W bl
  programmed : InHalfClock P W old a.programmed
  finalDelay : a.finalDelay = fun _ => 0
  numRanksEnabled : a.numRanksEnabled = 0

def WrCollapsed (w : Stop) (s : WrTraining) : Prop :=
  w = .deadLoop ∧ ∃ side : Side, s.phy.posts.head? = some (0xEE, 0x80 + side.val)

/-- Training stops with a post code, or the bound on the tests of a search was too low or a test failed on
no tested lane. -/
def WrStops (P : TrainParams) (errors : Nat → BitVec 32) (fuel : Nat) (w : Stop) (s : WrTraining) :
    Prop :=
  WrCollapsed w s ∨ w = .unfinished ∧ ¬ (Attributed P errors ∧ P.lanes.length * 64 < fuel)

section Window

variable {P : TrainParams} {W : Fin numByteLanes → Nat} {old : WdqLog} {a a' : WrVars} {side : Side}
variable {r : Fin numChannels × Fin numRanks} {bl : Fin numByteLanes}

theorem WrLimits.withDelay (h : WrLimits P W old a) {v : BitVec 32}
    (hv : if side = sideL then a.limit sideL r bl ≤ v.toNat ∧ v.toNat < a.limit sideR r bl
      else a.limit sideL r bl < v.toNat ∧ v.toNat ≤ a.limit sideR r bl) :
    WrLimits P W old (a.withDelay (side, r.1, r.2, bl) v) := by
  have hrest : ∀ side' r' bl', ¬ (r' = r ∧ bl' = bl) →
      (a.withDelay (side, r.1, r.2, bl) v).limit side' r' bl' = a.limit side' r' bl' :=
    fun side' r' bl' hne => WrVars.limit_withDelay_of_ne fun heq => hne heq.2
  have hall : ∀ r' ∈ P.ranks, ∀ bl' ∈ P.lanes,
      W bl' ≤ (a.withDelay (side, r.1, r.2, bl) v).limit sideL r' bl' + 64 ∧
        (a.withDelay (side, r.1, r.2, bl) v).limit sideL r' bl' <
          (a.withDelay (side, r.1, r.2, bl) v).limit sideR r' bl' ∧
        (a.withDelay (side, r.1, r.2, bl) v).limit sideR r' bl' ≤ W bl' := by
    intro r' hr' bl' hbl'
    have hlow := h.low r' hr' bl' hbl'
    have hlt := h.lt r' hr' bl' hbl'
    have hhigh := h.high r' hr' bl' hbl'
    by_cases hown : r' = r ∧ bl' = bl
    · obtain ⟨rfl, rfl⟩ := hown
      rcases side_cases side with rfl | rfl
      · rw [if_pos rfl] at hv
        rw [WrVars.limit_withDelay_self, WrVars.limit_withDelay_of_ne fun heq => absurd heq.1 (by decide)]
        omega
      · rw [if_neg (by decide)] at hv
        rw [WrVars.limit_withDelay_self, WrVars.limit_withDelay_of_ne fun heq => absurd heq.1 (by decide)]
        omega
    · rw [hrest _ _ _ hown, hrest _ _ _ hown]
      exact ⟨hlow, hlt, hhigh⟩
  exact ⟨fun r' hr' bl' hbl' => (hall r' hr' bl' hbl').1, fun r' hr' bl' hbl' => (hall r' hr' bl' hbl').2.1,
    fun r' hr' bl' hbl' => (hall r' hr' bl' hbl').2.2, h.programmed, h.finalDelay, h.numRanksEnabled⟩

theorem WrLimits.program (h : WrLimits P W old a) (ch : Fin numChannels) {v : BitVec 32}
    (hbl : bl ∈ P.lanes) (hlow : W bl ≤ v.toNat + 64) (hhigh : v.toNat ≤ W bl) :
    WrLimits P W old { a with programmed := (ch, bl, v) :: a.programmed } :=
  ⟨h.low, h.lt, h.high, h.programmed.cons ch hbl hlow hhigh, h.finalDelay, h.numRanksEnabled⟩

theorem WrLimits.limit_mem (h : WrLimits P W old a) (hr : r ∈ P.ranks) (hbl : bl ∈ P.lanes)
    (side : Side) : W bl ≤ a.limit side r bl + 64 ∧ a.limit side r bl ≤ W bl := by
  have hlow := h.low r hr bl hbl
  have hlt := h.lt r hr bl hbl
  have hhigh := h.high r hr bl hbl
  rcases side_cases side with rfl | rfl
  · exact ⟨hlow, hlt.le.trans hhigh⟩
  · exact ⟨hlow.trans (Nat.add_le_add_right hlt.le 64), hhigh⟩

/-! ## The search -/

/-- What the search of a rank from one side has come to when lane `bl` has failed `c bl` times. -/
structure Narrowing (P : TrainParams) (W : Fin numByteLanes → Nat) (old : WdqLog) (side : Side)
    (r : Fin numChannels × Fin numRanks) (a : WrVars) (c : Fin numByteLanes → Nat) (a' : WrVars) : Prop where
  limits : WrLimits P W old a'
  moved : ∀ bl ∈ P.lanes, if side = sideL then a'.limit side r bl = a.limit side r bl + c bl
    else a'.limit side r bl + c bl = a.limit side r bl

variable {c : Fin numByteLanes → Nat}

theorem Narrowing.bound (hr : r ∈ P.ranks) (ha : WrLimits P W old a)
    (h : Narrowing P W old side r a c a') (hbl : bl ∈ P.lanes) : c bl < 64 := by
  have hmoved := h.moved bl hbl
  have hlt := h.limits.lt r hr bl hbl
  have hlow := h.limits.low r hr bl hbl
  have hhigh := h.limits.high r hr bl hbl
  have hlow' := ha.low r hr bl hbl
  have hhigh' := ha.high r hr bl hbl
  rcases side_cases side with rfl | rfl
  · rw [if_pos rfl] at hmoved
    change a'.limit sideL r bl = a.limit sideL r bl + c bl at hmoved
    omega
  · rw [if_neg (by decide)] at hmoved
    change a'.limit sideR r bl + c bl = a.limit sideR r bl at hmoved
    omega

theorem Narrowing.move (h : Narrowing P W old side r a c a') {v : BitVec 32}
    (hv : if side = sideL then v.toNat = a'.limit sideL r bl + 1 ∧ v.toNat < a'.limit sideR r bl
      else v.toNat + 1 = a'.limit sideR r bl ∧ a'.limit sideL r bl < v.toNat) :
    Narrowing P W old side r a (Function.update c bl (c bl + 1))
      (a'.withDelay (side, r.1, r.2, bl) v) := by
  refine ⟨h.limits.withDelay ?_, fun b hb => ?_⟩
  · split at hv
    · rw [if_pos ‹_›]
      omega
    · rw [if_neg ‹_›]
      omega
  · have hmoved := h.moved b hb
    by_cases hbb : b = bl
    · subst hbb
      rw [Function.update_self, WrVars.limit_withDelay_self]
      rcases side_cases side with rfl | rfl
      · rw [if_pos rfl] at hv hmoved ⊢
        change a'.limit sideL r b = a.limit sideL r b + c b at hmoved
        show v.toNat = a.limit sideL r b + (c b + 1)
        omega
      · rw [if_neg (by decide)] at hv hmoved ⊢
        change a'.limit sideR r b + c b = a.limit sideR r b at hmoved
        show v.toNat + (c b + 1) = a.limit sideR r b
        omega
    · rw [Function.update_of_ne hbb, WrVars.limit_withDelay_of_ne fun heq => hbb heq.2.2]
      exact hmoved

theorem Narrowing.wp_wrAdjust (hW : ∀ bl, W bl < 1024) (hr : r ∈ P.ranks) {s : WrTraining}
    (h : Narrowing P W old side r a c s.vars) (hbl : bl ∈ P.lanes) :
    wp (wrAdjust side r.1 r.2 bl) (fun _ t => t.tests = s.tests ∧
      Narrowing P W old side r a (Function.update c bl (c bl + 1)) t.vars) WrCollapsed s := by
  have hlt := h.limits.lt r hr bl hbl
  have hhigh := h.limits.high r hr bl hbl
  have hlow := h.limits.low r hr bl hbl
  have hWbl := hW bl
  unfold wrAdjust
  rw [wp_bind, wp_get, wp_bind, wp_setDelay, wp_bind, wp_get, wp_ite]
  generalize hv : (if side = sideL then s.vars.delay (side, r.1, r.2, bl) + wdqStep
    else s.vars.delay (side, r.1, r.2, bl) - wdqStep) = v
  -- the new value, and whether it is the other limit
  have hnew : (if side = sideL then v.toNat = s.vars.limit sideL r bl + 1
      else v.toNat + 1 = s.vars.limit sideR r bl) ∧
      ((s.vars.withDelay (side, r.1, r.2, bl) v).delay (sideL, r.1, r.2, bl) ≠
        (s.vars.withDelay (side, r.1, r.2, bl) v).delay (sideR, r.1, r.2, bl) ↔
        (s.vars.withDelay (side, r.1, r.2, bl) v).limit sideL r bl ≠
          (s.vars.withDelay (side, r.1, r.2, bl) v).limit sideR r bl) := by
    refine ⟨?_, (BitVec.toNat_inj.not).symm⟩
    rcases side_cases side with rfl | rfl
    · rw [if_pos rfl] at hv ⊢
      subst hv
      show (s.vars.delay (sideL, r.1, r.2, bl) + 1).toNat = (s.vars.delay (sideL, r.1, r.2, bl)).toNat + 1
      have hlim : s.vars.limit sideL r bl = (s.vars.delay (sideL, r.1, r.2, bl)).toNat := rfl
      rw [BitVec.toNat_add, show (1 : BitVec 32).toNat = 1 from rfl]
      exact Nat.mod_eq_of_lt (by omega)
    · rw [if_neg (by decide)] at hv ⊢
      subst hv
      show (s.vars.delay (sideR, r.1, r.2, bl) - 1).toNat + 1 = (s.vars.delay (sideR, r.1, r.2, bl)).toNat
      have hlim : s.vars.limit sideR r bl = (s.vars.delay (sideR, r.1, r.2, bl)).toNat := rfl
      rw [BitVec.toNat_sub_of_le]
      · rw [show (1 : BitVec 32).toNat = 1 from rfl]
        omega
      · rw [BitVec.le_def, show (1 : BitVec 32).toNat = 1 from rfl]
        omega
  obtain ⟨hval, hne⟩ := hnew
  constructor
  · intro hopen
    have hopen' := hne.mp hopen
    have hmove : Narrowing P W old side r a (Function.update c bl (c bl + 1))
        (s.vars.withDelay (side, r.1, r.2, bl) v) := by
      refine h.move ?_
      rcases side_cases side with rfl | rfl
      · rw [if_pos rfl] at hval ⊢
        rw [WrVars.limit_withDelay_self, WrVars.limit_withDelay_of_ne fun heq => absurd heq.1 (by decide)]
          at hopen'
        exact ⟨hval, by omega⟩
      · rw [if_neg (by decide)] at hval ⊢
        rw [WrVars.limit_withDelay_of_ne fun heq => absurd heq.1 (by decide), WrVars.limit_withDelay_self]
          at hopen'
        exact ⟨hval, by omega⟩
    obtain ⟨hl, hh⟩ := hmove.limits.limit_mem hr hbl side
    refine wp_programWdq ?_ fun q _ => ⟨rfl, hmove.limits.program r.1 hbl hl hh, hmove.moved⟩
    exact hh.trans_lt hWbl
  · intro _
    rw [wp_onPhy, postCode, wp_bind, wp_modify, wp_when]
    exact ⟨fun _ => ⟨rfl, side, rfl⟩, fun hne => absurd rfl hne⟩

theorem Narrowing.follows (hW : ∀ bl, W bl < 1024) (hr : r ∈ P.ranks) (ha : WrLimits P W old a) :
    Follows P (wrAdjust side r.1 r.2) (Narrowing P W old side r a) WrCollapsed 64 where
  congr := by
    intro c c' a' hc h
    refine ⟨h.limits, fun bl hbl => ?_⟩
    rw [← hc bl hbl]
    exact h.moved bl hbl
  adjust := fun hbl h => h.wp_wrAdjust hW hr hbl
  bound := fun h hbl => h.bound hr ha hbl

theorem WrLimits.narrowing (h : WrLimits P W old a) (side : Side)
    (r : Fin numChannels × Fin numRanks) : Narrowing P W old side r a (fun _ => 0) a := by
  refine ⟨h, fun bl _ => ?_⟩
  split <;> rfl

variable {errors : Nat → BitVec 32} {fuel : Nat}

theorem wp_wrSearches (hW : ∀ bl, W bl < 1024) (side : Side) (s : WrTraining)
    (hs : WrLimits P W old s.vars) :
    wp (P.eachRank fun ch rk => testUntilPass P errors fuel (wrAdjust side ch rk))
      (fun _ t => WrLimits P W old t.vars) (WrStops P errors fuel) s := by
  refine wp_serve_mem (I := fun t : WrTraining => WrLimits P W old t.vars) (fun r hr t ht => ?_) s hs
  refine wp_mono ((Narrowing.follows hW hr ht).wp_testUntilPass fuel (ht.narrowing side r)) ?_
    fun _ _ he => he
  exact fun _ u hu => hu.2.limits

theorem wp_wrStart (hW : ∀ bl, W bl < 1024) (side : Side) {E : Stop → WrTraining → Prop}
    (s : WrTraining) (hs : WrLimits P W old s.vars) :
    wp (P.eachRank fun ch rk => serve (wrStartLane side ch rk) P.lanes)
      (fun _ t => WrLimits P W old t.vars) E s := by
  refine wp_serve_mem (I := fun t : WrTraining => WrLimits P W old t.vars) (fun r hr t ht => ?_) s hs
  refine wp_serve_mem (I := fun t : WrTraining => WrLimits P W old t.vars) (fun bl hbl u hu => ?_) t ht
  obtain ⟨hlow, hhigh⟩ := hu.limit_mem hr hbl side
  unfold wrStartLane
  rw [wp_bind, wp_get]
  exact wp_programWdq (hhigh.trans_lt (hW bl)) fun q _ => hu.program r.1 hbl hlow hhigh

theorem wp_wrSides (hW : ∀ bl, W bl < 1024) (s : WrTraining) (hs : WrLimits P W old s.vars) :
    wp (serve (fun side : Side => do
      onPhy (postCode 0x08 (0x10 + side.val))
      P.eachRank fun ch rk => serve (wrStartLane side ch rk) P.lanes
      P.eachRank fun ch rk => testUntilPass P errors fuel (wrAdjust side ch rk)) [sideL, sideR])
      (fun _ t => WrLimits P W old t.vars) (WrStops P errors fuel) s := by
  refine wp_serve_mem (I := fun t : WrTraining => WrLimits P W old t.vars) (fun side _ t ht => ?_) s hs
  rw [wp_bind]
  refine wp_postCode (by decide) fun q => ?_
  rw [wp_bind]
  refine wp_mono (wp_wrStart hW side { t with phy := q } ht) ?_ fun _ _ he => he
  exact fun _ u hu => wp_wrSearches hW side u hu

/-! ## Initial values -/

def HalfClock (d : RankLane) (s : WrTraining) : Prop :=
  s.vars.delay (sideL, d.1.1, d.1.2, d.2) = getWdqs s.phy d.1.1 d.1.2 d.2 - qrtrClk - qrtrClk ∧
    s.vars.delay (sideR, d.1.1, d.1.2, d.2) = getWdqs s.phy d.1.1 d.1.2 d.2

theorem wp_wrInitLane (r : Fin numChannels × Fin numRanks) (bl : Fin numByteLanes) (s : WrTraining)
    {E : Stop → WrTraining → Prop} :
    wp (wrInitLane r.1 r.2 bl) (fun _ => Gains HalfClock (· = (r, bl)) s) E s := by
  unfold wrInitLane
  rw [wp_bind, wp_get, wp_bind, wp_setDelay, wp_setDelay]
  have hne : ∀ d : RankLane, d ≠ (r, bl) → ∀ side side' : Side,
      ((side', d.1.1, d.1.2, d.2) : DelayIndex) ≠ (side, r.1, r.2, bl) := by
    rintro ⟨⟨ch, rk⟩, bl'⟩ hd side side' heq
    simp only [Prod.mk.injEq] at heq
    exact hd (Prod.ext (Prod.ext heq.2.1 heq.2.2.1) heq.2.2.2)
  have hside : ((sideL, r.1, r.2, bl) : DelayIndex) ≠ (sideR, r.1, r.2, bl) :=
    fun heq => absurd (congrArg Prod.fst heq) (show ¬ sideL = sideR by decide)
  have hown : HalfClock (r, bl) { s with
      vars := (s.vars.withDelay (sideL, r.1, r.2, bl)
        (getWdqs s.phy r.1 r.2 bl - qrtrClk - qrtrClk)).withDelay (sideR, r.1, r.2, bl)
        (getWdqs s.phy r.1 r.2 bl - qrtrClk + qrtrClk) } := by
    refine ⟨?_, ?_⟩
    · exact (WrVars.delay_withDelay_of_ne hside).trans WrVars.delay_withDelay_self
    · exact WrVars.delay_withDelay_self.trans (BitVec.sub_add_cancel _ _)
  refine ⟨?_, fun d hd => ?_⟩
  · rintro d rfl
    exact hown
  · by_cases hdr : d = (r, bl)
    · rw [hdr]
      exact hown
    · refine ⟨?_, ?_⟩
      · exact ((WrVars.delay_withDelay_of_ne (hne d hdr _ _)).trans
          (WrVars.delay_withDelay_of_ne (hne d hdr _ _))).trans hd.1
      · exact ((WrVars.delay_withDelay_of_ne (hne d hdr _ _)).trans
          (WrVars.delay_withDelay_of_ne (hne d hdr _ _))).trans hd.2

theorem wp_wrInit {s : WrTraining} (hW : ∀ bl ∈ P.lanes, 64 ≤ (getWdqs s.phy 0 0 bl).toNat)
    {E : Stop → WrTraining → Prop} :
    wp (do
      P.eachRank fun ch rk => serve (wrInitLane ch rk) P.lanes
      modifyVars fun a => { a with finalDelay := fun _ => 0, numRanksEnabled := 0 })
      (fun _ t => WrLimits P (fun bl => (getWdqs s.phy 0 0 bl).toNat) s.vars.programmed t.vars) E s := by
  have hinit : wp (P.eachRank fun ch rk => serve (wrInitLane ch rk) P.lanes)
      (fun _ => Gains HalfClock (fun d => ∃ r ∈ P.ranks, ∃ bl ∈ P.lanes, d = (r, bl)) s) E s :=
    wp_gains_eachRank (fun r bl t => wp_wrInitLane r bl t) s
  have hkeep : Keeps (fun t : WrTraining => (t.phy, t.vars.programmed))
      (P.eachRank fun ch rk => serve (wrInitLane ch rk) P.lanes) :=
    keeps_eachRank fun _ _ _ _ => rfl
  rw [wp_bind]
  refine wp_mono (wp_and hinit (hkeep.wp s)) ?_ fun _ _ he => he.1
  rintro _ t ⟨⟨hmet, -⟩, ht⟩
  obtain ⟨hphy, hlog⟩ := Prod.mk.inj ht
  have hlimits : ∀ r ∈ P.ranks, ∀ bl ∈ P.lanes,
      t.vars.limit sideL r bl + 64 = (getWdqs s.phy 0 0 bl).toNat ∧
        t.vars.limit sideR r bl = (getWdqs s.phy 0 0 bl).toNat := by
    intro r hr bl hbl
    obtain ⟨hleft, hright⟩ := hmet (r, bl) ⟨r, hr, bl, hbl, rfl⟩
    have hwdqs : getWdqs t.phy r.1 r.2 bl = getWdqs s.phy 0 0 bl := by
      rw [hphy, RdRun.channel_eq r.1]
      rfl
    rw [hwdqs] at hleft hright
    refine ⟨?_, congrArg BitVec.toNat hright⟩
    have hge := hW bl hbl
    have hlt := getWdqs_lt s.phy 0 0 bl
    show (t.vars.delay (sideL, r.1, r.2, bl)).toNat + 64 = _
    rw [hleft, BitVec.toNat_sub, BitVec.toNat_sub]
    show (2 ^ 32 - 32 + (2 ^ 32 - 32 + (getWdqs s.phy 0 0 bl).toNat) % 2 ^ 32) % 2 ^ 32 + 64 = _
    omega
  rw [wp_modifyVars]
  refine ⟨fun r hr bl hbl => ?_, fun r hr bl hbl => ?_, fun r hr bl hbl => ?_, ?_, rfl, rfl⟩
  · exact (hlimits r hr bl hbl).1.ge
  · have hboth := hlimits r hr bl hbl
    show t.vars.limit sideL r bl < t.vars.limit sideR r bl
    omega
  · exact (hlimits r hr bl hbl).2.le
  · exact ⟨[], hlog, nofun⟩

end Window

/-! ## Placement -/

def WrVars.middle (a : WrVars) (r : Fin numChannels × Fin numRanks) (bl : Fin numByteLanes) : Nat :=
  (a.limit sideR r bl + a.limit sideL r bl) / 2

/-- The arrays when `n` ranks have been placed, the middles of whose lanes sum up to `total`. -/
structure WrPlacing (P : TrainParams) (W : Fin numByteLanes → Nat) (old : WdqLog) (a s : WrVars) (n : Nat)
    (total : Fin numByteLanes → Nat) : Prop where
  delay : s.delay = a.delay
  count : s.numRanksEnabled = .ofNat 32 n
  finalDelay : ∀ bl ∈ P.lanes, s.finalDelay (0, bl) = .ofNat 32 (total bl)
  programmed : InHalfClock P W old s.programmed

section Place

variable {P : TrainParams} {W : Fin numByteLanes → Nat} {old : WdqLog} {a : WrVars}
variable {E : Stop → WrTraining → Prop}

theorem ofNat_div_ofNat {m n : Nat} (hm : m < 2 ^ 32) (hn : n < 2 ^ 32) :
    (.ofNat 32 m / .ofNat 32 n : BitVec 32) = .ofNat 32 (m / n) := by
  refine BitVec.eq_of_toNat_eq ?_
  rw [BitVec.toNat_udiv, BitVec.toNat_ofNat, BitVec.toNat_ofNat, BitVec.toNat_ofNat,
    Nat.mod_eq_of_lt hm, Nat.mod_eq_of_lt hn, Nat.mod_eq_of_lt ((Nat.div_le_self m n).trans_lt hm)]

theorem wp_wrPlaceLanes {rk : Fin numRanks} {n : Nat} {total : Fin numByteLanes → Nat}
    (hW : ∀ bl, W bl < 1024) (hn : 0 < n) (hn' : n ≤ 2)
    (hhigh : ∀ bl ∈ P.lanes, total bl + a.middle (0, rk) bl ≤ n * W bl)
    (hlow : ∀ bl ∈ P.lanes, n * W bl ≤ total bl + a.middle (0, rk) bl + n * 64) :
    ∀ (ls done : List (Fin numByteLanes)) (s : WrTraining), (done ++ ls).Nodup → ls ⊆ P.lanes →
      WrPlacing P W old a s.vars n
        (fun bl => if bl ∈ done then total bl + a.middle (0, rk) bl else total bl) →
      (∀ bl ∈ done, (Delay.wdq 0 bl).get s.phy = .ofNat 32 ((total bl + a.middle (0, rk) bl) / n)) →
      wp (serve (wrPlaceLane 0 rk) ls) (fun _ t =>
        WrPlacing P W old a t.vars n
          (fun bl => if bl ∈ done ++ ls then total bl + a.middle (0, rk) bl else total bl) ∧
          ∀ bl ∈ done ++ ls,
            (Delay.wdq 0 bl).get t.phy = .ofNat 32 ((total bl + a.middle (0, rk) bl) / n)) E s := by
  intro ls
  induction ls with
  | nil =>
    intro done s _ _ hs hplaced
    rw [List.append_nil]
    exact ⟨hs, hplaced⟩
  | cons bl ls ih =>
    intro done s hnodup hls hs hplaced
    have hbl := hls List.mem_cons_self
    have hfresh : bl ∉ done := fun hmem =>
      (List.nodup_append.mp hnodup).2.2 bl hmem bl List.mem_cons_self rfl
    have happend : done ++ bl :: ls = (done ++ [bl]) ++ ls := by simp
    have hWbl := hW bl
    have hhigh' := hhigh bl hbl
    have hlow' := hlow bl hbl
    have hsum : total bl + a.middle (0, rk) bl ≤ 2 * 1023 :=
      hhigh'.trans (Nat.mul_le_mul hn' (by omega))
    -- the sum so far, and what is programmed
    have hmiddle : ((a.delay (sideR, 0, rk, bl) + a.delay (sideL, 0, rk, bl)) / 2).toNat =
        a.middle (0, rk) bl := by
      have hdef : a.middle (0, rk) bl =
        ((a.delay (sideR, 0, rk, bl)).toNat + (a.delay (sideL, 0, rk, bl)).toNat) / 2 := rfl
      rw [BitVec.toNat_udiv, BitVec.toNat_add, hdef, show (2 : BitVec 32).toNat = 2 from rfl,
        Nat.mod_eq_of_lt (by omega)]
    have hnew : s.vars.finalDelay (0, bl) +
        (s.vars.delay (sideR, 0, rk, bl) + s.vars.delay (sideL, 0, rk, bl)) / 2 =
        .ofNat 32 (total bl + a.middle (0, rk) bl) := by
      refine BitVec.eq_of_toNat_eq ?_
      rw [hs.finalDelay bl hbl, if_neg hfresh, hs.delay, BitVec.toNat_add, hmiddle,
        BitVec.toNat_ofNat, BitVec.toNat_ofNat]
      omega
    have hvalue : (.ofNat 32 ((total bl + a.middle (0, rk) bl) / n) : BitVec 32).toNat =
        (total bl + a.middle (0, rk) bl) / n := by
      rw [BitVec.toNat_ofNat]
      have hle := Nat.div_le_self (total bl + a.middle (0, rk) bl) n
      exact Nat.mod_eq_of_lt (by omega)
    have hquot : (total bl + a.middle (0, rk) bl) / n ≤ W bl := Nat.div_le_of_le_mul hhigh'
    have hquot' : W bl ≤ (total bl + a.middle (0, rk) bl) / n + 64 := by
      rw [← Nat.add_mul_div_left _ _ hn, Nat.le_div_iff_mul_le hn, Nat.mul_comm]
      exact hlow'
    refine (wp_bind _ _).mpr ?_
    unfold wrPlaceLane
    rw [wp_bind, wp_get, wp_bind, wp_modifyVars, wp_bind, wp_get]
    dsimp only
    rw [hnew, Function.update_self, hs.count, ofNat_div_ofNat (by omega) (by omega)]
    refine wp_programWdq (by omega) fun q hq => ?_
    rw [happend]
    refine ih (done ++ [bl]) _ (happend ▸ hnodup) (fun b hb => hls (List.mem_cons_of_mem bl hb)) ?_ ?_
    · refine ⟨hs.delay, rfl, fun b hb => ?_, hs.programmed.cons 0 hbl (by omega) (by omega)⟩
      show Function.update s.vars.finalDelay (0, bl) _ (0, b) = _
      by_cases hbb : b = bl
      · subst hbb
        rw [Function.update_self, if_pos (by simp)]
      · rw [Function.update_of_ne (by simp [hbb]), hs.finalDelay b hb]
        simp [hbb]
    · intro b hb
      rw [hq]
      rcases List.mem_append.mp hb with hb | hb
      · have hbb : b ≠ bl := fun heq => hfresh (heq ▸ hb)
        rw [if_neg (by simp [hbb])]
        exact hplaced b hb
      · obtain rfl := List.mem_singleton.mp hb
        rw [if_pos rfl]

theorem wp_wrPlaceRanks (hW : ∀ bl, W bl < 1024) :
    ∀ (rs : List (Fin numChannels × Fin numRanks)) (n : Nat) (total : Fin numByteLanes → Nat)
      (s : WrTraining),
      (∀ r ∈ rs, ∀ bl ∈ P.lanes, a.middle r bl ≤ W bl ∧ W bl ≤ a.middle r bl + 64) →
      n + rs.length ≤ 2 → (∀ bl ∈ P.lanes, total bl ≤ n * W bl ∧ n * W bl ≤ total bl + n * 64) →
      WrPlacing P W old a s.vars n total →
      wp (serve (fun r => wrPlaceRank P r.1 r.2) rs) (fun _ t =>
        t.vars.delay = a.delay ∧ InHalfClock P W old t.vars.programmed ∧
          (rs ≠ [] → ∀ bl ∈ P.lanes, (Delay.wdq 0 bl).get t.phy =
            .ofNat 32 ((total bl + (rs.map fun r => a.middle r bl).sum) / (n + rs.length)))) E s := by
  intro rs
  induction rs with
  | nil => intro n total s _ _ _ hs; exact ⟨hs.delay, hs.programmed, nofun⟩
  | cons r rs ih =>
    intro n total s hmid hlen htotal hs
    obtain ⟨ch, rk⟩ := r
    obtain rfl := RdRun.channel_eq ch
    rw [List.length_cons] at hlen
    have htotal' : ∀ bl ∈ P.lanes, total bl + a.middle (0, rk) bl ≤ (n + 1) * W bl ∧
        (n + 1) * W bl ≤ total bl + a.middle (0, rk) bl + (n + 1) * 64 := by
      intro bl hbl
      obtain ⟨h₁, h₂⟩ := htotal bl hbl
      obtain ⟨h₃, h₄⟩ := hmid (0, rk) List.mem_cons_self bl hbl
      rw [Nat.succ_mul, Nat.succ_mul]
      omega
    refine (wp_bind _ _).mpr ?_
    dsimp only
    unfold wrPlaceRank
    rw [wp_bind, wp_modifyVars]
    have hcount : s.vars.numRanksEnabled + 1 = .ofNat 32 (n + 1) := by
      rw [hs.count, BitVec.ofNat_add]
      rfl
    have hplacing : WrPlacing P W old a { s.vars with numRanksEnabled := s.vars.numRanksEnabled + 1 }
        (n + 1) (fun bl => if bl ∈ [] then total bl + a.middle (0, rk) bl else total bl) := by
      refine ⟨hs.delay, hcount, fun bl hbl => ?_, hs.programmed⟩
      rw [if_neg List.not_mem_nil]
      exact hs.finalDelay bl hbl
    refine wp_mono (wp_wrPlaceLanes hW (Nat.succ_pos n) (by omega) (fun bl hbl => (htotal' bl hbl).1)
      (fun bl hbl => (htotal' bl hbl).2) P.lanes [] _ (lanes_nodup P) (List.Subset.refl _) hplacing nofun)
      ?_ fun _ _ he => he
    · rintro _ t ⟨ht, hplaced⟩
      rw [List.nil_append] at ht hplaced
      have ht' : WrPlacing P W old a t.vars (n + 1) (fun bl => total bl + a.middle (0, rk) bl) := by
        refine ⟨ht.delay, ht.count, fun bl hbl => ?_, ht.programmed⟩
        rw [ht.finalDelay bl hbl, if_pos hbl]
      cases rs with
      | nil => exact ⟨ht.delay, ht.programmed, fun _ bl hbl => hplaced bl hbl⟩
      | cons r' rs =>
        refine wp_mono (ih (n + 1) _ t (fun r hr => hmid r (List.mem_cons_of_mem _ hr)) (by omega)
          htotal' ht') ?_ fun _ _ he => he
        rintro _ u ⟨hudelay, hulog, hu⟩
        refine ⟨hudelay, hulog, fun _ bl hbl => ?_⟩
        have hlast := hu (List.cons_ne_nil r' rs) bl hbl
        rw [List.map_cons, List.sum_cons, ← Nat.add_assoc, List.length_cons, ← Nat.add_assoc n,
          Nat.add_right_comm n]
        exact hlast

end Place

/-! ## The whole function -/

/-- What write training comes to: every value it gives to `set_wdq` is within the half clock before WDQS, the
limits of a rank are apart, and what is programmed at the end is neither below all the left limits nor
above all the right ones. -/
structure WithinWindow (P : TrainParams) (W : Fin numByteLanes → Nat) (old : WdqLog) (t : WrTraining) :
    Prop where
  programmed : InHalfClock P W old t.vars.programmed
  low : ∀ r ∈ P.ranks, ∀ bl ∈ P.lanes, W bl - 64 ≤ t.vars.limit sideL r bl
  lt : ∀ r ∈ P.ranks, ∀ bl ∈ P.lanes, t.vars.limit sideL r bl < t.vars.limit sideR r bl
  high : ∀ r ∈ P.ranks, ∀ bl ∈ P.lanes, t.vars.limit sideR r bl ≤ W bl
  wdq_ge : ∀ r ∈ P.ranks, ∀ bl ∈ P.lanes,
    ∃ r' ∈ P.ranks, t.vars.limit sideL r' bl ≤ (getWdq t.phy r.1 r.2 bl).toNat
  wdq_le : ∀ r ∈ P.ranks, ∀ bl ∈ P.lanes,
    ∃ r' ∈ P.ranks, (getWdq t.phy r.1 r.2 bl).toNat ≤ t.vars.limit sideR r' bl

theorem wp_wrPlace {P : TrainParams} {W : Fin numByteLanes → Nat} {old : WdqLog}
    (hW : ∀ bl, W bl < 1024) {s : WrTraining} (h : WrLimits P W old s.vars)
    {E : Stop → WrTraining → Prop} :
    wp (P.eachRank (wrPlaceRank P)) (fun _ t => WithinWindow P W old t) E s := by
  have hmiddle : ∀ r ∈ P.ranks, ∀ bl ∈ P.lanes,
      s.vars.limit sideL r bl ≤ s.vars.middle r bl ∧ s.vars.middle r bl ≤ s.vars.limit sideR r bl := by
    intro r hr bl hbl
    have hlt := h.lt r hr bl hbl
    unfold WrVars.middle
    omega
  have hplacing : WrPlacing P W old s.vars s.vars 0 (fun _ => 0) := by
    refine ⟨rfl, h.numRanksEnabled, fun bl _ => ?_, h.programmed⟩
    exact congrFun h.finalDelay (0, bl)
  refine wp_mono (wp_wrPlaceRanks hW P.ranks 0 (fun _ => 0) s (fun r hr bl hbl => ?_)
    (by simpa using ranks_length_le P) (fun bl _ => by omega) hplacing) ?_ fun _ _ he => he
  · obtain ⟨hl, hr'⟩ := hmiddle r hr bl hbl
    have hlow := h.low r hr bl hbl
    have hhigh := h.high r hr bl hbl
    omega
  rintro _ t ⟨hdelay, hlog, hplaced⟩
  have hlimit : ∀ side r bl, t.vars.limit side r bl = s.vars.limit side r bl := by
    intro side r bl
    exact congrArg BitVec.toNat (congrFun hdelay _)
  have hwdq : ∀ r ∈ P.ranks, ∀ bl ∈ P.lanes, (getWdq t.phy r.1 r.2 bl).toNat =
      (P.ranks.map fun r => s.vars.middle r bl).sum / P.ranks.length := by
    intro r hr bl hbl
    obtain ⟨r', hr', hle⟩ := exists_average_le (fun r => s.vars.middle r bl) (List.ne_nil_of_mem hr)
    have hmid := (hmiddle r' hr' bl hbl).2
    have hhigh := h.high r' hr' bl hbl
    have hWbl := hW bl
    rw [RdRun.channel_eq r.1]
    show ((Delay.wdq 0 bl).get t.phy).toNat = _
    rw [hplaced (List.ne_nil_of_mem hr) bl hbl, Nat.zero_add, Nat.zero_add, BitVec.toNat_ofNat]
    exact Nat.mod_eq_of_lt (by omega)
  refine ⟨hlog, fun r hr bl hbl => ?_, fun r hr bl hbl => ?_, fun r hr bl hbl => ?_,
    fun r hr bl hbl => ?_, fun r hr bl hbl => ?_⟩
  · rw [hlimit]
    have hlow := h.low r hr bl hbl
    omega
  · rw [hlimit, hlimit]
    exact h.lt r hr bl hbl
  · rw [hlimit]
    exact h.high r hr bl hbl
  · obtain ⟨r', hr', hle⟩ := exists_le_average (fun r => s.vars.middle r bl) (List.ne_nil_of_mem hr)
    refine ⟨r', hr', ?_⟩
    rw [hlimit, hwdq r hr bl hbl]
    exact (hmiddle r' hr' bl hbl).1.trans hle
  · obtain ⟨r', hr', hle⟩ := exists_average_le (fun r => s.vars.middle r bl) (List.ne_nil_of_mem hr)
    refine ⟨r', hr', ?_⟩
    rw [hlimit, hwdq r hr bl hbl]
    exact hle.trans (hmiddle r' hr' bl hbl).2

theorem wrTrain_outcome (P : TrainParams) (errors : Nat → BitVec 32) (fuel : Nat) (s : WrTraining)
    (hW : ∀ bl ∈ P.lanes, 64 ≤ (getWdqs s.phy 0 0 bl).toNat) :
    wp (wrTrain P errors fuel)
      (fun _ t => WithinWindow P (fun bl => (getWdqs s.phy 0 0 bl).toNat) s.vars.programmed t)
      (WrStops P errors fuel) s := by
  have hlt : ∀ bl : Fin numByteLanes, (getWdqs s.phy 0 0 bl).toNat < 1024 :=
    fun bl => getWdqs_lt s.phy 0 0 bl
  unfold wrTrain
  rw [wp_bind, wp_onPhy, postCode, wp_bind, wp_modify, wp_when]
  refine ⟨fun heq => absurd heq (by decide), fun _ => ?_⟩
  have hinit := wp_wrInit (P := P) (E := WrStops P errors fuel)
    (s := { s with phy := { s.phy with posts := (0x08, 0x00) :: s.phy.posts } }) hW
  rw [wp_bind] at hinit
  rw [wp_bind]
  refine wp_mono hinit ?_ fun _ _ he => he
  rintro _ t ht
  rw [wp_bind]
  refine wp_mono ht ?_ fun _ _ he => he
  rintro _ u hu
  rw [wp_bind]
  refine wp_mono (wp_wrSides hlt u hu) ?_ fun _ _ he => he
  exact fun _ v hv => wp_wrPlace hlt hv

def wdqsAt64 : WrTraining :=
  ⟨⟨fun reg => if reg = dqReg b01ptrctl0 0 0 then 0x10010 else 0, []⟩, false, 0,
    ⟨fun _ => 0, fun _ => 0, 0, []⟩⟩

theorem wrTrain_outcome_oneRank :
    (∀ bl ∈ oneRank.lanes, 64 ≤ (getWdqs wdqsAt64.phy 0 0 bl).toNat) ∧
      wp (wrTrain oneRank narrowErrors 100)
        (fun _ t => WithinWindow oneRank (fun bl => (getWdqs wdqsAt64.phy 0 0 bl).toNat)
          wdqsAt64.vars.programmed t)
        (WrStops oneRank narrowErrors 100) wdqsAt64 := by
  have hW : ∀ bl ∈ oneRank.lanes, 64 ≤ (getWdqs wdqsAt64.phy 0 0 bl).toNat := by decide
  revert hW
  -- the run itself is not to be evaluated
  generalize oneRank = P
  intro hW
  exact ⟨hW, wrTrain_outcome P narrowErrors 100 wdqsAt64 hW⟩

def twoRanks : TrainParams := ⟨3, 1, true⟩

/-- The lane fails 33 times from the left for the second rank, and 33 times from the right for the first. -/
def apartErrors (n : Nat) : BitVec 32 :=
  if 1 ≤ n ∧ n ≤ 33 ∨ 35 ≤ n ∧ n ≤ 67 then 0x100 else 0

theorem apartErrors_attributed : Attributed twoRanks apartErrors := by
  intro n hfails
  refine ⟨0, by decide, ?_⟩
  unfold TestFails testResult apartErrors at hfails
  unfold LaneFails testResult apartErrors
  split
  · decide
  · rw [if_neg ‹_›] at hfails
    exact absurd rfl hfails

theorem wrTrain_not_inside :
    Attributed twoRanks apartErrors ∧
      (∀ bl ∈ twoRanks.lanes, 64 ≤ (getWdqs wdqsAt64.phy 0 0 bl).toNat) ∧
      (wrTrain twoRanks apartErrors 100 wdqsAt64).value? = some () ∧
      (getWdq (wrTrain twoRanks apartErrors 100 wdqsAt64).state.phy 0 1 0).toNat <
        (wrTrain twoRanks apartErrors 100 wdqsAt64).state.vars.limit sideL (0, 1) 0 := by
  refine ⟨apartErrors_attributed, by decide, ?_⟩
  decide +kernel

end Quark.MemoryInit
