import Quark.MemoryInit.Proofs.ReadSearchProofs

/-!
# The limits that read training finds

The searches of `rd_train` one after the other: the ranks from one side, and the four sides. The ranks have
VREF in common, so what they move it adds up. At the end each limit is a number that is counted from the
error registers.
-/

namespace Quark.MemoryInit

open Machine Exec

/-- Training stops with a post code, or the bound on the tests of a search was too low or a test failed on
no tested lane. -/
def RdStops (P : TrainParams) (errors : Nat → BitVec 32) (fuel : Nat) (w : Stop) (s : RdTraining) :
    Prop :=
  RdCollapsed w s ∨ w = .unfinished ∧ ¬ (Attributed P errors ∧ P.lanes.length * (54 * 54) < fuel)

/-! ## One search -/

section Search

variable {P : TrainParams} {errors : Nat → BitVec 32} {fuel : Nat} {p : RdPass} {a : RdVars}

theorem RdPass.Ready.follows (h : p.Ready a P) :
    Follows P (rdAdjust p.sideY p.sideX p.ch p.rk) (p.Searching a P) RdCollapsed (54 * 54) where
  congr := fun hc hs => hs.congr hc
  adjust := fun hbl hs => hs.wp_rdAdjust h hbl
  bound := fun hs hbl => hs.bound h hbl

theorem RdPass.Ready.wp_rdStartLanes (h : p.Ready a P) {E : Stop → RdTraining → Prop} :
    ∀ ls ⊆ P.lanes, ∀ s : RdTraining, s.vars = a →
      wp (serve (rdStartLane p.sideY p.sideX p.ch p.rk) ls)
        (fun _ t => t.tests = s.tests ∧ t.vars = a) E s := by
  intro ls
  induction ls with
  | nil => intro _ s hs; exact ⟨rfl, hs⟩
  | cons bl ls ih =>
    intro hls s hs
    have hbl := hls List.mem_cons_self
    show wp (rdStartLane p.sideY p.sideX p.ch p.rk bl >>= fun _ => _) _ _ s
    unfold rdStartLane
    rw [wp_bind, wp_bind, wp_get, wp_bind]
    refine wp_set_onPhy (d := .rdqs p.ch bl) p.rk (rdqs_takes ?_ p.ch bl) nofun fun q _ => ?_
    · rw [hs]
      exact (h.x_start bl hbl).le.trans (coord_le (by decide))
    · refine wp_set_onPhy (d := .vref p.ch bl) 0 (vref_takes ?_ p.ch bl) nofun fun q' _ => ?_
      · rw [hs]
        exact h.y_le bl hbl
      · exact ih (fun b hb => hls (List.mem_cons_of_mem bl hb)) _ hs

theorem RdPass.Ready.wp_rdSearch {s : RdTraining} (h : p.Ready s.vars P) (errors : Nat → BitVec 32)
    (fuel : Nat) :
    wp (rdSearch P errors fuel p.sideY p.sideX p.ch p.rk) (fun _ t =>
      t.tests = s.tests + testsUntilPass errors fuel s.tests ∧
        p.Searching s.vars P (fun bl => laneFailures P errors bl fuel s.tests) t.vars)
      (RdStops P errors fuel) s := by
  unfold rdSearch
  rw [wp_bind]
  refine wp_mono (h.wp_rdStartLanes P.lanes (List.Subset.refl _) s rfl) ?_ fun _ _ he => he
  rintro _ t ⟨htests, hvars⟩
  have hsearching : p.Searching s.vars P (fun _ => 0) t.vars := by
    rw [hvars]
    exact h.searching
  refine wp_mono (h.follows.wp_testUntilPass fuel hsearching) ?_ fun _ _ he => he
  rintro _ u ⟨hu, hsearch⟩
  rw [← htests]
  exact ⟨hu, hsearch⟩

end Search

/-! ## The ranks from one side -/

/-- A call of `rd_train`, and the number of tests before it. -/
structure RdRun where
  P : TrainParams
  errors : Nat → BitVec 32
  fuel : Nat
  start : Nat

namespace RdRun

variable (R : RdRun)

def testsBefore : Nat → Nat
  | 0 => R.start
  | k + 1 => testsBefore k + testsUntilPass R.errors R.fuel (testsBefore k)

def failures (k : Nat) (bl : Fin numByteLanes) : Nat :=
  laneFailures R.P R.errors bl R.fuel (R.testsBefore k)

variable {R}

def pass (sideY sideX : Side) (r : Fin numChannels × Fin numRanks) : RdPass := ⟨sideY, sideX, r.1, r.2⟩

/-- The arrays before the ranks `rs` are searched from one side. -/
structure Ready (sideY sideX : Side) (P : TrainParams) (rs : List (Fin numChannels × Fin numRanks))
    (a : RdVars) : Prop where
  x_start : ∀ r ∈ rs, ∀ bl ∈ P.lanes,
    a.xCoordinate ((pass sideY sideX r).xIndex bl) = coord sideX 0
  x_leaves : ∀ r ∈ rs, ∀ bl ∈ P.lanes,
    Leaves sideX (a.xCoordinate (other sideX, sideY, r.1, r.2, bl))
  y_le : ∀ bl ∈ P.lanes, a.yCoordinate (sideX, sideY, 0, bl) ≤ 63
  y_lt : ∀ bl ∈ P.lanes, coord sideY (a.yCoordinate (sideX, sideY, 0, bl)) <
    room sideY (a.yCoordinate (sideX, other sideY, 0, bl))
  y_leaves : ∀ bl ∈ P.lanes, Leaves sideY (a.yCoordinate (sideX, other sideY, 0, bl))

/-- The arrays when the ranks `rs` have been searched from one side. The searches are numbered from `j`
on. -/
structure Searched (R : RdRun) (sideY sideX : Side) (rs : List (Fin numChannels × Fin numRanks))
    (j : Nat) (a a' : RdVars) : Prop where
  x_own : ∀ q ∈ rs.zipIdx j, ∀ bl ∈ R.P.lanes,
    a'.xCoordinate ((pass sideY sideX q.1).xIndex bl) =
      coord sideX (R.failures q.2 bl % (pass sideY sideX q.1).xRoom a bl)
  y_own : ∀ bl ∈ R.P.lanes, a'.yCoordinate (sideX, sideY, 0, bl) =
    coord sideY (coord sideY (a.yCoordinate (sideX, sideY, 0, bl)) +
      ((rs.zipIdx j).map fun q => R.failures q.2 bl / (pass sideY sideX q.1).xRoom a bl).sum)
  y_lt : ∀ bl ∈ R.P.lanes, coord sideY (a.yCoordinate (sideX, sideY, 0, bl)) +
      ((rs.zipIdx j).map fun q => R.failures q.2 bl / (pass sideY sideX q.1).xRoom a bl).sum <
    room sideY (a.yCoordinate (sideX, other sideY, 0, bl))
  x_frame : ∀ k, (∀ r ∈ rs, ∀ bl ∈ R.P.lanes, k ≠ (pass sideY sideX r).xIndex bl) →
    a'.xCoordinate k = a.xCoordinate k
  y_frame : ∀ k, (∀ bl ∈ R.P.lanes, k ≠ (sideX, sideY, 0, bl)) → a'.yCoordinate k = a.yCoordinate k
  finalDelay : a'.finalDelay = a.finalDelay
  numRanksEnabled : a'.numRanksEnabled = a.numRanksEnabled

section Ranks

variable {sideY sideX : Side} {r : Fin numChannels × Fin numRanks}
variable {rs : List (Fin numChannels × Fin numRanks)} {j : Nat} {a a' a'' : RdVars}

theorem channel_eq (ch : Fin numChannels) : ch = 0 := Fin.eq_zero ch

theorem yIndex_pass (bl : Fin numByteLanes) :
    (pass sideY sideX r).yIndex bl = (sideX, sideY, 0, bl) := by
  rw [RdPass.yIndex, pass, channel_eq r.1]

theorem yMoved_pass (bl : Fin numByteLanes) :
    (pass sideY sideX r).yMoved a bl = coord sideY (a.yCoordinate (sideX, sideY, 0, bl)) := by
  rw [RdPass.yMoved, yIndex_pass]
  rfl

theorem yRoom_pass (bl : Fin numByteLanes) :
    (pass sideY sideX r).yRoom a bl = room sideY (a.yCoordinate (sideX, other sideY, 0, bl)) := by
  rw [RdPass.yRoom, show (pass sideY sideX r).ch = 0 from channel_eq r.1]
  rfl

theorem xIndex_pass_ne {r' : Fin numChannels × Fin numRanks} (h : r' ≠ r) (bl bl' : Fin numByteLanes) :
    (pass sideY sideX r').xIndex bl ≠ (pass sideY sideX r).xIndex bl' := by
  intro heq
  simp only [RdPass.xIndex, pass, Prod.mk.injEq] at heq
  exact h (Prod.ext heq.2.2.1 heq.2.2.2.1)

theorem other_xIndex_ne (r' : Fin numChannels × Fin numRanks) (bl bl' : Fin numByteLanes) :
    ((other sideX, sideY, r'.1, r'.2, bl) : XIndex) ≠ (pass sideY sideX r).xIndex bl' :=
  fun heq => other_ne sideX (congrArg Prod.fst heq)

theorem other_yIndex_ne (bl bl' : Fin numByteLanes) :
    ((sideX, other sideY, 0, bl) : YIndex) ≠ (sideX, sideY, 0, bl') :=
  fun heq => other_ne sideY (congrArg (fun k => k.2.1) heq)

theorem Ready.head (h : Ready sideY sideX R.P (r :: rs) a) : (pass sideY sideX r).Ready a R.P := by
  refine ⟨h.x_start r List.mem_cons_self, fun bl hbl => ?_, fun bl hbl => ?_,
    h.x_leaves r List.mem_cons_self, fun bl hbl => ?_⟩
  · rw [yIndex_pass]
    exact h.y_le bl hbl
  · rw [yMoved_pass, yRoom_pass]
    exact h.y_lt bl hbl
  · rw [pass, channel_eq r.1]
    exact h.y_leaves bl hbl

structure HeadSearched (R : RdRun) (sideY sideX : Side) (r : Fin numChannels × Fin numRanks) (j : Nat)
    (a a' : RdVars) : Prop where
  x_own : ∀ bl ∈ R.P.lanes, a'.xCoordinate ((pass sideY sideX r).xIndex bl) =
    coord sideX (R.failures j bl % (pass sideY sideX r).xRoom a bl)
  y_own : ∀ bl ∈ R.P.lanes, a'.yCoordinate (sideX, sideY, 0, bl) =
    coord sideY (coord sideY (a.yCoordinate (sideX, sideY, 0, bl)) +
      R.failures j bl / (pass sideY sideX r).xRoom a bl)
  y_lt : ∀ bl ∈ R.P.lanes, coord sideY (a.yCoordinate (sideX, sideY, 0, bl)) +
      R.failures j bl / (pass sideY sideX r).xRoom a bl <
    room sideY (a.yCoordinate (sideX, other sideY, 0, bl))
  x_frame : ∀ k, (∀ bl ∈ R.P.lanes, k ≠ (pass sideY sideX r).xIndex bl) →
    a'.xCoordinate k = a.xCoordinate k
  y_frame : ∀ k, (∀ bl ∈ R.P.lanes, k ≠ (sideX, sideY, 0, bl)) → a'.yCoordinate k = a.yCoordinate k
  finalDelay : a'.finalDelay = a.finalDelay
  numRanksEnabled : a'.numRanksEnabled = a.numRanksEnabled

theorem headSearched (h : (pass sideY sideX r).Searching a R.P (R.failures j) a') :
    HeadSearched R sideY sideX r j a a' := by
  refine ⟨h.x_own, fun bl hbl => ?_, fun bl hbl => ?_, h.x_frame, fun k hk => ?_, h.finalDelay,
    h.numRanksEnabled⟩
  · have hy := h.y_own bl hbl
    rwa [yIndex_pass, yMoved_pass] at hy
  · have hlt := h.y_lt bl hbl
    rwa [yMoved_pass, yRoom_pass] at hlt
  · refine h.y_frame k fun bl hbl => ?_
    rw [yIndex_pass]
    exact hk bl hbl

variable (hr : r ∉ rs) (hhead : HeadSearched R sideY sideX r j a a')

include hr hhead

theorem Ready.tail (h : Ready sideY sideX R.P (r :: rs) a) : Ready sideY sideX R.P rs a' := by
  have hother : ∀ bl ∈ R.P.lanes, a'.yCoordinate (sideX, other sideY, 0, bl) =
      a.yCoordinate (sideX, other sideY, 0, bl) :=
    fun bl _ => hhead.y_frame _ fun bl' _ => other_yIndex_ne bl bl'
  refine ⟨fun r' hr' bl hbl => ?_, fun r' hr' bl hbl => ?_, fun bl hbl => ?_, fun bl hbl => ?_,
    fun bl hbl => ?_⟩
  · have hne : r' ≠ r := fun heq => hr (heq ▸ hr')
    rw [hhead.x_frame _ fun bl' _ => xIndex_pass_ne hne bl bl']
    exact h.x_start r' (List.mem_cons_of_mem r hr') bl hbl
  · rw [hhead.x_frame _ fun bl' _ => other_xIndex_ne r' bl bl']
    exact h.x_leaves r' (List.mem_cons_of_mem r hr') bl hbl
  · rw [hhead.y_own bl hbl]
    have hlt := (hhead.y_lt bl hbl).trans_le room_le
    exact coord_le (by omega)
  · have hlt := hhead.y_lt bl hbl
    have hle : room sideY (a.yCoordinate (sideX, other sideY, 0, bl)) ≤ 54 := room_le
    rw [hhead.y_own bl hbl, coord_coord (by omega), hother bl hbl]
    exact hlt
  · rw [hother bl hbl]
    exact h.y_leaves bl hbl

theorem Searched.cons (h : Searched R sideY sideX rs (j + 1) a' a'') :
    Searched R sideY sideX (r :: rs) j a a'' := by
  have hroom : ∀ r' bl, (pass sideY sideX r').xRoom a' bl = (pass sideY sideX r').xRoom a bl := by
    intro r' bl
    exact congrArg (room sideX) (hhead.x_frame _ fun bl' _ => other_xIndex_ne r' bl bl')
  have hsum : ∀ bl ∈ R.P.lanes, coord sideY (a'.yCoordinate (sideX, sideY, 0, bl)) +
      ((rs.zipIdx (j + 1)).map fun q => R.failures q.2 bl / (pass sideY sideX q.1).xRoom a' bl).sum =
      coord sideY (a.yCoordinate (sideX, sideY, 0, bl)) +
        (((r :: rs).zipIdx j).map fun q =>
          R.failures q.2 bl / (pass sideY sideX q.1).xRoom a bl).sum := by
    intro bl hbl
    have hlt := hhead.y_lt bl hbl
    have hle : room sideY (a.yCoordinate (sideX, other sideY, 0, bl)) ≤ 54 := room_le
    rw [hhead.y_own bl hbl, coord_coord (by omega), List.zipIdx_cons, List.map_cons, List.sum_cons,
      Nat.add_assoc]
    simp only [hroom]
  refine ⟨?_, fun bl hbl => ?_, fun bl hbl => ?_, fun k hk => ?_, fun k hk => ?_,
    h.finalDelay.trans hhead.finalDelay, h.numRanksEnabled.trans hhead.numRanksEnabled⟩
  · rw [List.zipIdx_cons]
    rintro q hq bl hbl
    rcases List.mem_cons.mp hq with rfl | hq
    · rw [h.x_frame _ fun r' hr' bl' _ =>
        (xIndex_pass_ne (fun heq : r' = r => hr (heq ▸ hr')) bl' bl).symm]
      exact hhead.x_own bl hbl
    · rw [h.x_own q hq bl hbl, hroom]
  · rw [h.y_own bl hbl, hsum bl hbl]
  · rw [← hsum bl hbl, ← hhead.y_frame _ fun bl' _ => other_yIndex_ne bl bl']
    exact h.y_lt bl hbl
  · rw [h.x_frame k fun r' hr' => hk r' (List.mem_cons_of_mem r hr')]
    exact hhead.x_frame k (hk r List.mem_cons_self)
  · rw [h.y_frame k hk]
    exact hhead.y_frame k hk

end Ranks

theorem Ready.searched_nil {sideY sideX : Side} {a : RdVars} {j : Nat}
    (h : Ready sideY sideX R.P [] a) : Searched R sideY sideX [] j a a := by
  refine ⟨nofun, fun bl hbl => ?_, fun bl hbl => ?_, fun _ _ => rfl, fun _ _ => rfl, rfl, rfl⟩
  · exact (coord_coord (h.y_le bl hbl)).symm
  · exact h.y_lt bl hbl

theorem wp_rdSearches (R : RdRun) (sideY sideX : Side) :
    ∀ (rs : List (Fin numChannels × Fin numRanks)) (j : Nat) (s : RdTraining), rs.Nodup →
      Ready sideY sideX R.P rs s.vars → s.tests = R.testsBefore j →
      wp (serve (fun r => rdSearch R.P R.errors R.fuel sideY sideX r.1 r.2) rs) (fun _ t =>
        t.tests = R.testsBefore (j + rs.length) ∧ Searched R sideY sideX rs j s.vars t.vars)
        (RdStops R.P R.errors R.fuel) s := by
  intro rs
  induction rs with
  | nil => intro j s _ hready htests; exact ⟨htests, hready.searched_nil⟩
  | cons r rs ih =>
    intro j s hnodup hready htests
    obtain ⟨hr, hrs⟩ := List.nodup_cons.mp hnodup
    show wp (rdSearch R.P R.errors R.fuel sideY sideX r.1 r.2 >>= fun _ => _) _ _ s
    rw [wp_bind]
    refine wp_mono (hready.head.wp_rdSearch R.errors R.fuel) ?_ fun _ _ he => he
    rintro _ t ⟨ht, hsearching⟩
    rw [htests] at ht hsearching
    have hhead : HeadSearched R sideY sideX r j s.vars t.vars := headSearched hsearching
    refine wp_mono (ih (j + 1) t hrs (hready.tail hr hhead) ht) ?_ fun _ _ he => he
    rintro _ u ⟨hu, hsearched⟩
    refine ⟨?_, hsearched.cons hr hhead⟩
    rw [hu, List.length_cons, Nat.add_assoc, Nat.add_comm 1]

/-! ## The four sides -/

variable (R)

def sideFailures (sideY sideX : Side) (k : Nat) (bl : Fin numByteLanes) : Nat :=
  R.failures ((2 * sideY.val + sideX.val) * R.P.ranks.length + k) bl

/-- After how many failures RDQS starts over: when the left side has passed `0x35`, and when the right side
has come to the left one or fallen below `0x0A`. -/
def period (sideY sideX : Side) (k : Nat) (bl : Fin numByteLanes) : Nat :=
  if sideX = sideL then 54 else 63 - max 9 (R.sideFailures sideY sideL k bl % 54)

def xMoved (sideY sideX : Side) (k : Nat) (bl : Fin numByteLanes) : Nat :=
  R.sideFailures sideY sideX k bl % R.period sideY sideX k bl

def yMoved (sideY sideX : Side) (bl : Fin numByteLanes) : Nat :=
  ((List.range R.P.ranks.length).map fun k =>
    R.sideFailures sideY sideX k bl / R.period sideY sideX k bl).sum

/-- The arrays when the searches from the sides `done` are made. -/
structure Progress (done : List (Side × Side)) (a : RdVars) : Prop where
  x : ∀ sideY sideX, ∀ q ∈ R.P.ranks.zipIdx, ∀ bl ∈ R.P.lanes,
    a.xCoordinate ((pass sideY sideX q.1).xIndex bl) =
      coord sideX (if (sideY, sideX) ∈ done then R.xMoved sideY sideX q.2 bl else 0)
  y : ∀ sideY sideX, ∀ bl ∈ R.P.lanes, a.yCoordinate (sideX, sideY, 0, bl) =
    coord sideY (if (sideY, sideX) ∈ done then R.yMoved sideY sideX bl else 0)
  bottom_lt : ∀ sideX, (sideB, sideX) ∈ done → ∀ bl ∈ R.P.lanes, R.yMoved sideB sideX bl < 54
  top_lt : ∀ sideX, (sideT, sideX) ∈ done → ∀ bl ∈ R.P.lanes,
    R.yMoved sideT sideX bl < 63 - max 9 (R.yMoved sideB sideX bl)

structure Due (done : List (Side × Side)) (sideY sideX : Side) : Prop where
  fresh : (sideY, sideX) ∉ done
  x_order : if sideX = sideL then (sideY, sideR) ∉ done else (sideY, sideL) ∈ done
  y_order : if sideY = sideB then (sideT, sideX) ∉ done else (sideB, sideX) ∈ done

variable {R} {done : List (Side × Side)} {sideY sideX : Side} {a a' : RdVars}

theorem period_pos (sideY sideX : Side) (k : Nat) (bl : Fin numByteLanes) : 0 < R.period sideY sideX k bl := by
  unfold period
  split <;> omega

theorem xMoved_left_lt (sideY : Side) (k : Nat) (bl : Fin numByteLanes) : R.xMoved sideY sideL k bl < 54 :=
  Nat.mod_lt _ (period_pos sideY sideL k bl)

theorem Progress.x_other (h : R.Progress done a) (hdue : Due done sideY sideX)
    {q : (Fin numChannels × Fin numRanks) × Nat} (hq : q ∈ R.P.ranks.zipIdx) {bl : Fin numByteLanes}
    (hbl : bl ∈ R.P.lanes) :
    Leaves sideX (a.xCoordinate (other sideX, sideY, q.1.1, q.1.2, bl)) ∧
      (pass sideY sideX q.1).xRoom a bl = R.period sideY sideX q.2 bl := by
  have hx := h.x sideY (other sideX) q hq bl hbl
  have hroom : (pass sideY sideX q.1).xRoom a bl =
      room sideX (a.xCoordinate ((pass sideY (other sideX) q.1).xIndex bl)) := rfl
  show Leaves sideX (a.xCoordinate ((pass sideY (other sideX) q.1).xIndex bl)) ∧ _
  rw [hroom, hx]
  have horder := hdue.x_order
  rcases side_cases sideX with rfl | rfl
  · rw [if_pos rfl] at horder
    rw [show other 0 = sideR from rfl, if_neg horder]
    refine ⟨⟨by decide, by decide⟩, ?_⟩
    rw [period, if_pos rfl]
    rfl
  · rw [if_neg (by decide)] at horder
    rw [show other 1 = sideL from rfl, if_pos horder]
    have hlt := xMoved_left_lt (R := R) sideY q.2 bl
    refine ⟨?_, ?_⟩
    · show R.xMoved sideY sideL q.2 bl ≤ 53
      omega
    · rw [period, if_neg (by decide)]
      rfl

theorem Progress.y_other (h : R.Progress done a) (hdue : Due done sideY sideX)
    {bl : Fin numByteLanes} (hbl : bl ∈ R.P.lanes) :
    Leaves sideY (a.yCoordinate (sideX, other sideY, 0, bl)) ∧
      room sideY (a.yCoordinate (sideX, other sideY, 0, bl)) =
        if sideY = sideB then 54 else 63 - max 9 (R.yMoved sideB sideX bl) := by
  rw [h.y (other sideY) sideX bl hbl]
  have horder := hdue.y_order
  rcases side_cases sideY with rfl | rfl
  · rw [if_pos rfl] at horder
    rw [show other 0 = sideT from rfl, if_neg horder]
    rw [if_pos (show (0 : Side) = sideB from rfl)]
    exact ⟨⟨by decide, by decide⟩, by decide⟩
  · rw [if_neg (by decide)] at horder
    rw [show other 1 = sideB from rfl, if_pos horder]
    have hlt := h.bottom_lt sideX horder bl hbl
    refine ⟨?_, ?_⟩
    · show R.yMoved sideB sideX bl ≤ 53
      omega
    · rfl

theorem exists_mem_zipIdx {α : Type} {l : List α} {x : α} (h : x ∈ l) : ∃ k, (x, k) ∈ l.zipIdx := by
  obtain ⟨k, hk, rfl⟩ := List.getElem_of_mem h
  exact ⟨k, List.mk_mem_zipIdx_iff_getElem?.mpr (List.getElem?_eq_getElem hk)⟩

theorem Progress.ready (h : R.Progress done a) (hdue : Due done sideY sideX) :
    Ready sideY sideX R.P R.P.ranks a := by
  have hy : ∀ bl ∈ R.P.lanes, a.yCoordinate (sideX, sideY, 0, bl) = coord sideY 0 := by
    intro bl hbl
    rw [h.y sideY sideX bl hbl, if_neg hdue.fresh]
  refine ⟨fun r hr bl hbl => ?_, fun r hr bl hbl => ?_, fun bl hbl => ?_, fun bl hbl => ?_,
    fun bl hbl => (h.y_other hdue hbl).1⟩
  · obtain ⟨k, hk⟩ := exists_mem_zipIdx hr
    rw [h.x sideY sideX (r, k) hk bl hbl, if_neg hdue.fresh]
  · obtain ⟨k, hk⟩ := exists_mem_zipIdx hr
    exact (h.x_other hdue hk hbl).1
  · rw [hy bl hbl]
    exact coord_le (by decide)
  · rw [hy bl hbl, coord_coord (by decide)]
    exact room_pos (h.y_other hdue hbl).1

theorem Progress.sum_eq (h : R.Progress done a) (hdue : Due done sideY sideX)
    {bl : Fin numByteLanes} (hbl : bl ∈ R.P.lanes) :
    ((R.P.ranks.zipIdx ((2 * sideY.val + sideX.val) * R.P.ranks.length)).map fun q =>
      R.failures q.2 bl / (pass sideY sideX q.1).xRoom a bl).sum = R.yMoved sideY sideX bl := by
  have hrange : List.range R.P.ranks.length = R.P.ranks.zipIdx.map Prod.snd := by
    rw [List.zipIdx_map_snd, List.range_eq_range']
  rw [yMoved, hrange, List.map_map, List.zipIdx_eq_map_add, List.map_map]
  refine congrArg List.sum (List.map_congr_left fun ⟨r, k⟩ hq => ?_)
  show R.failures (_ + k) bl / (pass sideY sideX r).xRoom a bl = _
  rw [(h.x_other hdue hq hbl).2]
  rfl

theorem Progress.next (h : R.Progress done a) (hdue : Due done sideY sideX)
    (hs : Searched R sideY sideX R.P.ranks ((2 * sideY.val + sideX.val) * R.P.ranks.length) a a') :
    R.Progress ((sideY, sideX) :: done) a' := by
  have hyown : ∀ bl ∈ R.P.lanes, coord sideY (a.yCoordinate (sideX, sideY, 0, bl)) = 0 := by
    intro bl hbl
    rw [h.y sideY sideX bl hbl, if_neg hdue.fresh, coord_coord (by decide)]
  have hylt : ∀ bl ∈ R.P.lanes, R.yMoved sideY sideX bl <
      if sideY = sideB then 54 else 63 - max 9 (R.yMoved sideB sideX bl) := by
    intro bl hbl
    have hlt := hs.y_lt bl hbl
    rwa [hyown bl hbl, Nat.zero_add, h.sum_eq hdue hbl, (h.y_other hdue hbl).2] at hlt
  refine ⟨fun sy sx q hq bl hbl => ?_, fun sy sx bl hbl => ?_, fun sx hsx bl hbl => ?_,
    fun sx hsx bl hbl => ?_⟩
  · by_cases hside : (sy, sx) = (sideY, sideX)
    · obtain ⟨rfl, rfl⟩ := Prod.mk.inj hside
      have hq' : (q.1, (2 * sy.val + sx.val) * R.P.ranks.length + q.2) ∈
          R.P.ranks.zipIdx ((2 * sy.val + sx.val) * R.P.ranks.length) := by
        rw [List.zipIdx_eq_map_add]
        obtain ⟨r, k⟩ := q
        exact List.mem_map.mpr ⟨(r, k), hq, rfl⟩
      rw [if_pos List.mem_cons_self, hs.x_own _ hq' bl hbl, (h.x_other hdue hq hbl).2, xMoved,
        sideFailures]
    · have hmem : (sy, sx) ∈ (sideY, sideX) :: done ↔ (sy, sx) ∈ done := by
        rw [List.mem_cons, or_iff_right hside]
      have hframe : a'.xCoordinate ((pass sy sx q.1).xIndex bl) =
          a.xCoordinate ((pass sy sx q.1).xIndex bl) := by
        refine hs.x_frame _ fun r hr bl' _ heq => hside ?_
        simp only [RdPass.xIndex, pass, Prod.mk.injEq] at heq
        exact Prod.ext heq.2.1 heq.1
      rw [hframe, h.x sy sx q hq bl hbl]
      simp only [hmem]
  · by_cases hside : (sy, sx) = (sideY, sideX)
    · obtain ⟨rfl, rfl⟩ := Prod.mk.inj hside
      rw [if_pos List.mem_cons_self, hs.y_own bl hbl, hyown bl hbl, Nat.zero_add,
        h.sum_eq hdue hbl]
    · have hmem : (sy, sx) ∈ (sideY, sideX) :: done ↔ (sy, sx) ∈ done := by
        rw [List.mem_cons, or_iff_right hside]
      have hframe : a'.yCoordinate (sx, sy, 0, bl) = a.yCoordinate (sx, sy, 0, bl) := by
        refine hs.y_frame _ fun bl' _ heq => hside ?_
        simp only [Prod.mk.injEq] at heq
        exact Prod.ext heq.2.1 heq.1
      rw [hframe, h.y sy sx bl hbl]
      simp only [hmem]
  · rcases List.mem_cons.mp hsx with heq | hsx
    · obtain ⟨hy, rfl⟩ := Prod.mk.inj heq
      have hlt := hylt bl hbl
      rw [← hy, if_pos rfl] at hlt
      exact hlt
    · exact h.bottom_lt sx hsx bl hbl
  · rcases List.mem_cons.mp hsx with heq | hsx
    · obtain ⟨hy, rfl⟩ := Prod.mk.inj heq
      have hlt := hylt bl hbl
      rw [← hy, if_neg (by decide)] at hlt
      exact hlt
    · exact h.top_lt sx hsx bl hbl

structure Limits (R : RdRun) (a : RdVars) : Prop where
  progress : R.Progress rdSides.reverse a
  finalDelay : a.finalDelay = fun _ => 0
  numRanksEnabled : a.numRanksEnabled = 0

theorem wp_rdSide (done : List (Side × Side)) (sideY sideX : Side) {s : RdTraining}
    (hdue : Due done sideY sideX) (h : R.Progress done s.vars)
    (htests : s.tests = R.testsBefore ((2 * sideY.val + sideX.val) * R.P.ranks.length)) :
    wp (do
      onPhy (postCode 0x07 (0x10 + (sideY.val * 2) + sideX.val))
      R.P.eachRank (rdSearch R.P R.errors R.fuel sideY sideX)) (fun _ t =>
        t.tests = R.testsBefore ((2 * sideY.val + sideX.val + 1) * R.P.ranks.length) ∧
          R.Progress ((sideY, sideX) :: done) t.vars ∧ t.vars.finalDelay = s.vars.finalDelay ∧
          t.vars.numRanksEnabled = s.vars.numRanksEnabled)
      (RdStops R.P R.errors R.fuel) s := by
  rw [wp_bind]
  refine wp_postCode (by decide) fun q => ?_
  refine wp_mono (wp_rdSearches R sideY sideX R.P.ranks _ { s with phy := q } (ranks_nodup R.P)
    (h.ready hdue) htests) ?_ fun _ _ he => he
  rintro _ t ⟨ht, hsearched⟩
  refine ⟨?_, h.next hdue hsearched, hsearched.finalDelay, hsearched.numRanksEnabled⟩
  rw [ht]
  exact congrArg R.testsBefore (Nat.succ_mul _ _).symm

theorem wp_rdSides {s : RdTraining} (h : R.Progress [] s.vars) (htests : s.tests = R.start)
    (hdelay : s.vars.finalDelay = fun _ => 0) (hcount : s.vars.numRanksEnabled = 0) :
    wp (serve (fun (sideY, sideX) => do
      onPhy (postCode 0x07 (0x10 + (sideY.val * 2) + sideX.val))
      R.P.eachRank (rdSearch R.P R.errors R.fuel sideY sideX)) rdSides)
      (fun _ t => R.Limits t.vars) (RdStops R.P R.errors R.fuel) s := by
  have htests₀ : s.tests = R.testsBefore ((2 * (sideB : Side).val + (sideL : Side).val) *
      R.P.ranks.length) := by
    rw [show 2 * (sideB : Side).val + (sideL : Side).val = 0 from rfl, Nat.zero_mul]
    exact htests
  refine (wp_bind _ _).mpr (wp_mono (wp_rdSide [] sideB sideL (by constructor <;> decide) h htests₀)
    ?_ fun _ _ he => he)
  rintro _ t ⟨ht, ht', htd, htc⟩
  refine (wp_bind _ _).mpr (wp_mono (wp_rdSide _ sideB sideR
    (by constructor <;> decide) ht' ht) ?_ fun _ _ he => he)
  rintro _ u ⟨hu, hu', hud, huc⟩
  refine (wp_bind _ _).mpr (wp_mono (wp_rdSide _ sideT sideL
    (by constructor <;> decide) hu' hu) ?_ fun _ _ he => he)
  rintro _ v ⟨hv, hv', hvd, hvc⟩
  refine (wp_bind _ _).mpr (wp_mono (wp_rdSide _ sideT sideR
    (by constructor <;> decide) hv' hv) ?_ fun _ _ he => he)
  rintro _ w ⟨-, hw', hwd, hwc⟩
  refine ⟨hw', ?_, ?_⟩
  · rw [hwd, hvd, hud, htd, hdelay]
  · rw [hwc, hvc, huc, htc, hcount]

end RdRun

end Quark.MemoryInit
