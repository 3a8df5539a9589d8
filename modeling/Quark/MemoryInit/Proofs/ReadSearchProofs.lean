import Mathlib.Algebra.Order.BigOperators.Group.List
import Mathlib.Data.List.Nodup
import Quark.MemoryInit.Training
import Quark.MemoryInit.Proofs.TimingsProofs

/-!
# Testing until the lanes pass

The loop `do { … } while (result & 0xFF)`, whatever it does for a lane that fails. What it comes to
depends on how often each lane has failed, and that can be counted from the error registers alone.
-/

namespace Quark.MemoryInit

open Machine Exec

/-! ## Counting the failures -/

def testResult (errors : Nat → BitVec 32) (n : Nat) : BitVec 32 := (errors n >>> 8) &&& 0xFF

def TestFails (errors : Nat → BitVec 32) (n : Nat) : Prop := testResult errors n &&& 0xFF ≠ 0

instance (errors : Nat → BitVec 32) (n : Nat) : Decidable (TestFails errors n) :=
  inferInstanceAs (Decidable (_ ≠ _))

/-- How many of `fuel` tests from test `n` on are made until one passes, that one included. -/
def testsUntilPass (errors : Nat → BitVec 32) : Nat → Nat → Nat
  | 0, _ => 0
  | fuel + 1, n => if TestFails errors n then testsUntilPass errors fuel (n + 1) + 1 else 1

def laneFailures (P : TrainParams) (errors : Nat → BitVec 32) (bl : Fin numByteLanes) : Nat → Nat → Nat
  | 0, _ => 0
  | fuel + 1, n =>
    if TestFails errors n then
      (if LaneFails P (testResult errors n) bl then 1 else 0) +
        laneFailures P errors bl fuel (n + 1)
    else 0

def Attributed (P : TrainParams) (errors : Nat → BitVec 32) : Prop :=
  ∀ n, TestFails errors n → ∃ bl ∈ P.lanes, LaneFails P (testResult errors n) bl

/-! ## Rules -/

section Rules

variable {α β : Type} {s : Training α} {E : Stop → Training α → Prop}

@[simp] theorem wp_onPhy {x : Exec Phy β} {Q : β → Training α → Prop} :
    wp (onPhy x) Q E s ↔
      wp x (fun b p => Q b { s with phy := p }) (fun w p => E w { s with phy := p }) s.phy := by
  unfold wp onPhy
  cases x s.phy <;> exact Iff.rfl

@[simp] theorem wp_modifyVars {Q : Unit → Training α → Prop} (f : α → α) :
    wp (modifyVars f) Q E s ↔ Q () { s with vars := f s.vars } := Iff.rfl

theorem wp_checkBlsEx {Q : BitVec 32 → Training α → Prop} {errors : Nat → BitVec 32} :
    wp (checkBlsEx errors) Q E s ↔
      Q (testResult errors s.tests) { s with hteSetup := false, tests := s.tests + 1 } := Iff.rfl

theorem wp_postCode {major minor : Nat} (h : major ≠ 0xEE) {Q : Unit → Training α → Prop}
    (hQ : ∀ p, Q () { s with phy := p }) : wp (onPhy (postCode major minor)) Q E s := by
  rw [wp_onPhy, postCode, wp_bind, wp_modify, wp_when]
  exact ⟨fun heq => absurd heq h, fun _ => hQ _⟩

theorem wp_set_onPhy {d : Delay} (rank : Nat) {v : BitVec 32} (h : d.Takes v)
    (hclk : ∀ ch rk, d ≠ .wclk ch rk) {Q : Unit → Training α → Prop}
    (hQ : ∀ q, (∀ d', d'.get q = if d' = d then v else d'.get s.phy) → Q () { s with phy := q }) :
    wp (onPhy (d.set rank v)) Q E s := by
  obtain ⟨_, q, hset, hread⟩ := returns_of_wp (wp_set rank h s.phy)
  rw [wp_onPhy]
  have hown : ∀ d', d.Programs d' ↔ d' = d := by
    intro d'
    cases d with
    | wclk ch rk => exact absurd rfl (hclk ch rk)
    | _ => exact Iff.rfl
  refine wp_of_eq_ret hset (hQ q fun d' => ?_)
  by_cases hd : d' = d
  · rw [if_pos hd]
    exact hread d' ((hown d').mpr hd)
  · rw [if_neg hd]
    exact get_of_not_programs (fun hp => hd ((hown d').mp hp)) hset

end Rules

theorem lanes_nodup (P : TrainParams) : P.lanes.Nodup :=
  (List.nodup_finRange numByteLanes).sublist (List.take_sublist _ _)

theorem ranks_nodup (P : TrainParams) : P.ranks.Nodup := by
  have hrk : ∀ p : Fin numRanks → Bool, ((List.finRange numRanks).filter p).Nodup :=
    fun p => (List.nodup_finRange numRanks).filter p
  refine List.nodup_flatMap.mpr ⟨fun ch _ => ?_, ?_⟩
  · exact (hrk _).map fun a b hab => (Prod.mk.inj hab).2
  · refine ((List.nodup_finRange numChannels).filter _).imp fun {a b} hab => ?_
    intro x hx hx'
    obtain ⟨rk, -, rfl⟩ := List.mem_map.mp hx
    obtain ⟨rk', -, heq⟩ := List.mem_map.mp hx'
    exact hab (Prod.mk.inj heq).1.symm

/-! ## The loop -/

section Loop

variable {α : Type} {P : TrainParams} {errors : Nat → BitVec 32}
variable {adjust : Fin numByteLanes → Exec (Training α) Unit}
variable {I : (Fin numByteLanes → Nat) → α → Prop} {E : Stop → Training α → Prop} {B : Nat}

/-- `I c` says what has become of the arrays when lane `bl` has failed `c bl` times: it depends on the
tested lanes only, each adjustment goes one failure further or ends in `E`, and no lane fails `B` times. -/
structure Follows (P : TrainParams) (adjust : Fin numByteLanes → Exec (Training α) Unit)
    (I : (Fin numByteLanes → Nat) → α → Prop) (E : Stop → Training α → Prop) (B : Nat) : Prop where
  congr : ∀ {c c' a}, (∀ bl ∈ P.lanes, c bl = c' bl) → I c a → I c' a
  adjust : ∀ {c s bl}, bl ∈ P.lanes → I c s.vars → wp (adjust bl)
    (fun _ t => t.tests = s.tests ∧ I (Function.update c bl (c bl + 1)) t.vars) E s
  bound : ∀ {c a bl}, I c a → bl ∈ P.lanes → c bl < B

theorem Follows.wp_serve (h : Follows P adjust I E B) (result : BitVec 32) :
    ∀ ls : List (Fin numByteLanes), ls.Nodup → ls ⊆ P.lanes → ∀ c s, I c s.vars →
      wp (serve (fun bl => when (LaneFails P result bl) (adjust bl)) ls)
        (fun _ t => t.tests = s.tests ∧
          I (fun bl => c bl + if bl ∈ ls ∧ LaneFails P result bl then 1 else 0) t.vars) E s := by
  intro ls
  induction ls with
  | nil =>
    intro _ _ c s hI
    refine ⟨rfl, h.congr (fun bl _ => ?_) hI⟩
    simp
  | cons a ls ih =>
    intro hnodup hsub c s hI
    obtain ⟨ha, hls⟩ := List.nodup_cons.mp hnodup
    have hmem : a ∈ P.lanes := hsub List.mem_cons_self
    have hrest : ls ⊆ P.lanes := fun x hx => hsub (List.mem_cons_of_mem a hx)
    show wp (when (LaneFails P result a) (adjust a) >>= fun _ =>
      serve (fun bl => when (LaneFails P result bl) (adjust bl)) ls) _ _ s
    rw [wp_bind, wp_when]
    constructor
    · intro hfails
      refine wp_mono (h.adjust hmem hI) ?_ fun _ _ he => he
      rintro _ t ⟨htests, ht⟩
      refine wp_mono (ih hls hrest _ t ht) ?_ fun _ _ he => he
      rintro _ u ⟨hu, hIu⟩
      refine ⟨hu.trans htests, h.congr (fun bl _ => ?_) hIu⟩
      by_cases hbl : bl = a
      · subst hbl
        simp [ha, hfails]
      · simp [hbl]
    · intro hpasses
      refine wp_mono (ih hls hrest c s hI) ?_ fun _ _ he => he
      rintro _ u ⟨hu, hIu⟩
      refine ⟨hu, h.congr (fun bl _ => ?_) hIu⟩
      by_cases hbl : bl = a
      · subst hbl
        simp [ha, hpasses]
      · simp [hbl]

theorem Follows.wp_testRound (h : Follows P adjust I E B) (errors : Nat → BitVec 32)
    {c : Fin numByteLanes → Nat} {s : Training α} (hI : I c s.vars) :
    wp (testRound P errors adjust ()) (fun r t => t.tests = s.tests + 1 ∧
      if TestFails errors s.tests then
        r = .inl () ∧
          I (fun bl => c bl + if LaneFails P (testResult errors s.tests) bl then 1 else 0) t.vars
      else r = .inr () ∧ I c t.vars) E s := by
  unfold testRound
  rw [wp_bind, wp_checkBlsEx, wp_bind, wp_when]
  constructor
  · intro hfails
    have hfails' : TestFails errors s.tests := hfails
    refine wp_mono (h.wp_serve _ P.lanes (lanes_nodup P) (List.Subset.refl _) c _ hI) ?_
      fun _ _ he => he
    rintro _ t ⟨ht, hIt⟩
    rw [wp_pure, if_pos hfails', if_pos hfails]
    refine ⟨ht, rfl, h.congr (fun bl hbl => ?_) hIt⟩
    simp [hbl]
  · intro hpasses
    have hpasses' : ¬ TestFails errors s.tests := hpasses
    rw [wp_pure, if_neg hpasses', if_neg hpasses]
    exact ⟨rfl, rfl, hI⟩

theorem sum_add_hits {c : Fin numByteLanes → Nat} {n : Nat} (hattr : Attributed P errors)
    (hfails : TestFails errors n) :
    (P.lanes.map c).sum + 1 ≤
      (P.lanes.map fun bl => c bl + if LaneFails P (testResult errors n) bl then 1 else 0).sum := by
  obtain ⟨bl, hbl, hlane⟩ := hattr n hfails
  have hlt : (P.lanes.map c).sum <
      (P.lanes.map fun bl => c bl + if LaneFails P (testResult errors n) bl then 1 else 0).sum := by
    refine List.sum_lt_sum _ _ (fun b _ => Nat.le_add_right _ _) ⟨bl, hbl, ?_⟩
    rw [if_pos hlane]
    exact Nat.lt_succ_self _
  exact hlt

theorem Follows.sum_le (h : Follows P adjust I E B) {c : Fin numByteLanes → Nat} {a : α}
    (hI : I c a) : (P.lanes.map c).sum ≤ P.lanes.length * B := by
  have hle := List.sum_le_card_nsmul (P.lanes.map c) B (by
    intro x hx
    obtain ⟨bl, hbl, rfl⟩ := List.mem_map.mp hx
    exact (h.bound hI hbl).le)
  simpa using hle

/-- The loop counts the failures of each lane. It ends before the bound on the tests is used up, if this
is not below what the lanes can fail, and if each test that fails is counted for some lane. -/
theorem Follows.wp_loop (h : Follows P adjust I E B) : ∀ fuel c s, I c s.vars →
    wp (loop fuel (testRound P errors adjust) ())
      (fun _ t => t.tests = s.tests + testsUntilPass errors fuel s.tests ∧
        I (fun bl => c bl + laneFailures P errors bl fuel s.tests) t.vars)
      (fun w t => E w t ∨ w = .unfinished ∧ ¬ (Attributed P errors ∧
        P.lanes.length * B < fuel + (P.lanes.map c).sum)) s := by
  intro fuel
  induction fuel with
  | zero =>
    intro c s hI
    refine .inr ⟨rfl, fun ⟨_, hlt⟩ => ?_⟩
    have := h.sum_le hI
    omega
  | succ fuel ih =>
    intro c s hI
    rw [wp_loop_succ]
    refine wp_mono (h.wp_testRound errors hI) ?_ fun _ _ he => .inl he
    rintro r t ⟨ht, hr⟩
    by_cases hfails : TestFails errors s.tests
    · rw [if_pos hfails] at hr
      obtain ⟨rfl, hIt⟩ := hr
      refine wp_mono (ih _ t hIt) ?_ ?_
      · rintro _ u ⟨hu, hIu⟩
        unfold testsUntilPass laneFailures
        rw [if_pos hfails]
        refine ⟨by rw [hu, ht]; omega, h.congr (fun bl _ => ?_) hIu⟩
        rw [if_pos hfails, ht, Nat.add_assoc]
      · rintro w u (he | ⟨rfl, hlt⟩)
        · exact .inl he
        · refine .inr ⟨rfl, fun ⟨hattr, hfuel⟩ => hlt ⟨hattr, ?_⟩⟩
          have := sum_add_hits (c := c) hattr hfails
          omega
    · rw [if_neg hfails] at hr
      obtain ⟨rfl, hIt⟩ := hr
      unfold testsUntilPass laneFailures
      rw [if_neg hfails]
      refine ⟨ht, h.congr (fun bl _ => ?_) hIt⟩
      rw [if_neg hfails]
      rfl

theorem Follows.wp_testUntilPass (h : Follows P adjust I E B) (fuel : Nat) {s : Training α}
    (hI : I (fun _ => 0) s.vars) :
    wp (testUntilPass P errors fuel adjust)
      (fun _ t => t.tests = s.tests + testsUntilPass errors fuel s.tests ∧
        I (fun bl => laneFailures P errors bl fuel s.tests) t.vars)
      (fun w t => E w t ∨ w = .unfinished ∧ ¬ (Attributed P errors ∧
        P.lanes.length * B < fuel)) s := by
  unfold testUntilPass
  rw [wp_bind, wp_modify]
  refine wp_mono (h.wp_loop fuel (fun _ => 0) { s with hteSetup := true } hI) ?_ ?_
  · rintro _ t ⟨ht, hIt⟩
    exact ⟨ht, h.congr (fun bl _ => Nat.zero_add _) hIt⟩
  · rintro w t (he | ⟨rfl, hlt⟩)
    · exact .inl he
    · refine .inr ⟨rfl, fun ⟨hattr, hfuel⟩ => hlt ⟨hattr, ?_⟩⟩
      omega

theorem wp_testUntilPass_unattributed (hfails : ∀ n, TestFails errors n)
    (hlanes : ∀ n, ∀ bl ∈ P.lanes, ¬ LaneFails P (testResult errors n) bl) (fuel : Nat)
    (s : Training α) :
    wp (testUntilPass P errors fuel adjust) (fun _ _ => False) (fun w _ => w = .unfinished) s := by
  have hround : ∀ t : Training α, testRound P errors adjust () t =
      .ret (.inl ()) { t with hteSetup := false, tests := t.tests + 1 } := by
    intro t
    have hserve : ∀ ls ⊆ P.lanes, ∀ u : Training α,
        serve (fun bl => when (LaneFails P (testResult errors t.tests) bl) (adjust bl)) ls u =
          .ret () u := by
      intro ls
      induction ls with
      | nil => intro _ u; rfl
      | cons bl ls ih =>
        intro hls u
        have hwhen : when (LaneFails P (testResult errors t.tests) bl) (adjust bl) u = .ret () u := by
          rw [when, if_neg (hlanes t.tests bl (hls List.mem_cons_self))]
          rfl
        exact (bind_of_ret hwhen).trans (ih (fun b hb => hls (List.mem_cons_of_mem bl hb)) u)
    have hfails' : (testResult errors t.tests &&& 0xFF) ≠ 0 := hfails t.tests
    have hadjust : when (testResult errors t.tests &&& 0xFF ≠ 0)
        (serve (fun bl => when (LaneFails P (testResult errors t.tests) bl) (adjust bl)) P.lanes)
        { t with hteSetup := false, tests := t.tests + 1 } =
          .ret () { t with hteSetup := false, tests := t.tests + 1 } := by
      rw [when, if_pos hfails']
      exact hserve P.lanes (List.Subset.refl _) _
    have htest : checkBlsEx errors t = .ret (testResult errors t.tests)
        { t with hteSetup := false, tests := t.tests + 1 } := rfl
    refine (bind_of_ret htest).trans ((bind_of_ret hadjust).trans ?_)
    rw [if_pos hfails']
    rfl
  unfold testUntilPass
  rw [wp_bind, wp_modify]
  generalize { s with hteSetup := true } = t
  induction fuel generalizing t with
  | zero => exact rfl
  | succ fuel ih =>
    rw [wp_loop_succ]
    exact wp_of_eq_ret (hround t) (ih _)

end Loop

/-! ## The searches of read training

A search moves a RDQS coordinate inwards from its end of the range, one code for each failure of the lane.
When it closes on the other side, VREF moves one code inwards and the search starts over. So the
failures of a lane are divided by the room that the other side leaves: the remainder is how far the
coordinate has come, the quotient how far VREF has.
-/

/-! ## Coordinates -/

def coord (side : Side) (n : Nat) : Nat := if side = 0 then n else 63 - n

def other (side : Side) : Side := if side = 0 then 1 else 0

/-- How many codes a side can move until the eye is closed, with the other side at `o`. -/
def room (side : Side) (o : Nat) : Nat := if side = 0 then min 54 o else 63 - max 9 o

def Leaves (side : Side) (o : Nat) : Prop := if side = 0 then 10 ≤ o ∧ o ≤ 63 else o ≤ 53

def Closed (lo hi : Nat) : Prop := lo > 63 - 10 ∨ hi < 0 + 10 ∨ lo = hi

theorem side_cases (side : Side) : side = 0 ∨ side = 1 := by
  rcases side with ⟨_ | _ | n, h⟩
  · exact .inl rfl
  · exact .inr rfl
  · omega

theorem other_ne (side : Side) : other side ≠ side := by
  rcases side_cases side with rfl | rfl <;> decide

section Coordinates

variable {side : Side} {o n : Nat}

theorem coord_le (h : n ≤ 63) : coord side n ≤ 63 := by
  unfold coord
  split <;> omega

theorem coord_coord (h : n ≤ 63) : coord side (coord side n) = n := by
  unfold coord
  split <;> omega

theorem room_pos (h : Leaves side o) : 0 < room side o := by
  unfold Leaves at h
  unfold room
  split <;> simp_all <;> omega

theorem room_le : room side o ≤ 54 := by
  unfold room
  split <;> omega

theorem moveIn_coord (h : n < 63) : moveIn side 1 (coord side n) = coord side (n + 1) := by
  unfold moveIn coord u8
  split <;> omega

theorem closed_iff (hleaves : Leaves side o) (h : n ≤ room side o) :
    Closed (if side = 0 then coord side n else o) (if side = 0 then o else coord side n) ↔
      n = room side o := by
  unfold Leaves at hleaves
  unfold room at h ⊢
  unfold Closed coord
  rcases side_cases side with rfl | rfl
  · simp only [if_pos] at hleaves h ⊢
    omega
  · simp only [show (1 : Side) ≠ 0 by decide, if_false] at hleaves h ⊢
    omega

theorem succ_div_mod_of_lt {m : Nat} (h : n % m + 1 < m) : (n + 1) % m = n % m + 1 ∧ (n + 1) / m = n / m := by
  have hn := Nat.div_add_mod n m
  obtain ⟨hdiv, hmod⟩ := (Nat.div_mod_unique (show 0 < m by omega) (a := n + 1) (d := n / m)
    (c := n % m + 1)).mpr ⟨by omega, h⟩
  exact ⟨hmod, hdiv⟩

theorem succ_div_mod_of_eq {m : Nat} (h : n % m + 1 = m) : (n + 1) % m = 0 ∧ (n + 1) / m = n / m + 1 := by
  have hn := Nat.div_add_mod n m
  obtain ⟨hdiv, hmod⟩ := (Nat.div_mod_unique (show 0 < m by omega) (a := n + 1) (d := n / m + 1)
    (c := 0)).mpr ⟨by rw [Nat.mul_add]; omega, by omega⟩
  exact ⟨hmod, hdiv⟩

end Coordinates

theorem rdqs_takes {v : Nat} (h : v ≤ 63) (ch : Fin numChannels) (bl : Fin numByteLanes) :
    (Delay.rdqs ch bl).Takes (.ofNat 32 v) := by
  have hv : (BitVec.ofNat 32 v).toNat = v := by
    rw [BitVec.toNat_ofNat]
    omega
  refine ⟨?_, fun _ _ _ => ?_⟩
  · show (BitVec.ofNat 32 v).toNat < 128
    omega
  · rw [BitVec.le_def, hv]
    exact h.trans (by decide)

theorem vref_takes {v : Nat} (h : v ≤ 63) (ch : Fin numChannels) (bl : Fin numByteLanes) :
    (Delay.vref ch bl).Takes (.ofNat 32 v) := by
  refine ⟨?_, nofun⟩
  show (BitVec.ofNat 32 v).toNat < 64
  rw [BitVec.toNat_ofNat]
  omega

/-! ## Writing the coordinates -/

namespace RdVars

def withX (a : RdVars) (k : XIndex) (v : Nat) : RdVars :=
  { a with xCoordinate := Function.update a.xCoordinate k v }

def withY (a : RdVars) (k : YIndex) (v : Nat) : RdVars :=
  { a with yCoordinate := Function.update a.yCoordinate k v }

variable {a : RdVars} {k k' : XIndex} {l l' : YIndex} {v : Nat}

@[simp] theorem withX_self : (a.withX k v).xCoordinate k = v := Function.update_self ..

theorem withX_of_ne (h : k' ≠ k) : (a.withX k v).xCoordinate k' = a.xCoordinate k' :=
  Function.update_of_ne h ..

@[simp] theorem yCoordinate_withX : (a.withX k v).yCoordinate = a.yCoordinate := rfl

@[simp] theorem withY_self : (a.withY l v).yCoordinate l = v := Function.update_self ..

theorem withY_of_ne (h : l' ≠ l) : (a.withY l v).yCoordinate l' = a.yCoordinate l' :=
  Function.update_of_ne h ..

@[simp] theorem xCoordinate_withY : (a.withY l v).xCoordinate = a.xCoordinate := rfl

end RdVars

@[simp] theorem wp_setX {k : XIndex} {v : Nat} {Q : Unit → RdTraining → Prop}
    {E : Stop → RdTraining → Prop} {s : RdTraining} :
    wp (setX k v) Q E s ↔ Q () { s with vars := s.vars.withX k v } := Iff.rfl

@[simp] theorem wp_setY {k : YIndex} {v : Nat} {Q : Unit → RdTraining → Prop}
    {E : Stop → RdTraining → Prop} {s : RdTraining} :
    wp (setY k v) Q E s ↔ Q () { s with vars := s.vars.withY k v } := Iff.rfl

/-! ## One search -/

def RdCollapsed (w : Stop) (s : RdTraining) : Prop :=
  w = .deadLoop ∧ ∃ sideY sideX : Side,
    s.phy.posts.head? = some (0xEE, 0x70 + (sideY.val * 2) + sideX.val)

structure RdPass where
  sideY : Side
  sideX : Side
  ch : Fin numChannels
  rk : Fin numRanks

namespace RdPass

variable (p : RdPass) (a : RdVars) (bl : Fin numByteLanes)

def xIndex : XIndex := (p.sideX, p.sideY, p.ch, p.rk, bl)

def yIndex : YIndex := (p.sideX, p.sideY, p.ch, bl)

def xRoom : Nat := room p.sideX (a.xCoordinate (other p.sideX, p.sideY, p.ch, p.rk, bl))

def yRoom : Nat := room p.sideY (a.yCoordinate (p.sideX, other p.sideY, p.ch, bl))

def yMoved : Nat := coord p.sideY (a.yCoordinate (p.yIndex bl))

structure Ready (P : TrainParams) : Prop where
  x_start : ∀ bl ∈ P.lanes, a.xCoordinate (p.xIndex bl) = coord p.sideX 0
  y_le : ∀ bl ∈ P.lanes, a.yCoordinate (p.yIndex bl) ≤ 63
  y_lt : ∀ bl ∈ P.lanes, p.yMoved a bl < p.yRoom a bl
  x_leaves : ∀ bl ∈ P.lanes,
    Leaves p.sideX (a.xCoordinate (other p.sideX, p.sideY, p.ch, p.rk, bl))
  y_leaves : ∀ bl ∈ P.lanes, Leaves p.sideY (a.yCoordinate (p.sideX, other p.sideY, p.ch, bl))

/-- The arrays when lane `bl` has failed `c bl` times in the pass. -/
structure Searching (P : TrainParams) (c : Fin numByteLanes → Nat) (a' : RdVars) : Prop where
  x_own : ∀ bl ∈ P.lanes, a'.xCoordinate (p.xIndex bl) = coord p.sideX (c bl % p.xRoom a bl)
  y_own : ∀ bl ∈ P.lanes, a'.yCoordinate (p.yIndex bl) =
    coord p.sideY (p.yMoved a bl + c bl / p.xRoom a bl)
  y_lt : ∀ bl ∈ P.lanes, p.yMoved a bl + c bl / p.xRoom a bl < p.yRoom a bl
  x_frame : ∀ k, (∀ bl ∈ P.lanes, k ≠ p.xIndex bl) → a'.xCoordinate k = a.xCoordinate k
  y_frame : ∀ k, (∀ bl ∈ P.lanes, k ≠ p.yIndex bl) → a'.yCoordinate k = a.yCoordinate k
  finalDelay : a'.finalDelay = a.finalDelay
  numRanksEnabled : a'.numRanksEnabled = a.numRanksEnabled

theorem xIndex_injective : Function.Injective p.xIndex := by
  intro b b' h
  simpa [xIndex] using h

theorem yIndex_injective : Function.Injective p.yIndex := by
  intro b b' h
  simpa [yIndex] using h

variable {p a bl} {P : TrainParams} {c : Fin numByteLanes → Nat} {a' : RdVars}

theorem Ready.searching (h : p.Ready a P) : p.Searching a P (fun _ => 0) a := by
  refine ⟨fun bl hbl => ?_, fun bl hbl => ?_, fun bl hbl => ?_, fun _ _ => rfl, fun _ _ => rfl, rfl, rfl⟩
  · rw [Nat.zero_mod]
    exact h.x_start bl hbl
  · rw [Nat.zero_div, Nat.add_zero, yMoved, coord_coord (h.y_le bl hbl)]
  · rw [Nat.zero_div, Nat.add_zero]
    exact h.y_lt bl hbl

theorem Searching.congr {c' : Fin numByteLanes → Nat} (hc : ∀ bl ∈ P.lanes, c bl = c' bl)
    (h : p.Searching a P c a') : p.Searching a P c' a' := by
  refine ⟨fun bl hbl => ?_, fun bl hbl => ?_, fun bl hbl => ?_, h.x_frame, h.y_frame, h.finalDelay,
    h.numRanksEnabled⟩
  · rw [← hc bl hbl]
    exact h.x_own bl hbl
  · rw [← hc bl hbl]
    exact h.y_own bl hbl
  · rw [← hc bl hbl]
    exact h.y_lt bl hbl

theorem Searching.bound (hready : p.Ready a P) (h : p.Searching a P c a') (hbl : bl ∈ P.lanes) :
    c bl < 54 * 54 := by
  have hlt := h.y_lt bl hbl
  have hroom : p.yRoom a bl ≤ 54 := room_le
  have hxroom : p.xRoom a bl ≤ 54 := room_le
  have hpos : 0 < p.xRoom a bl := room_pos (hready.x_leaves bl hbl)
  have hdiv : c bl / p.xRoom a bl < 54 := by omega
  calc c bl < 54 * p.xRoom a bl := (Nat.div_lt_iff_lt_mul hpos).mp hdiv
    _ ≤ 54 * 54 := Nat.mul_le_mul_left 54 hxroom

theorem Searching.stay (h : p.Searching a P c a') (hbl : bl ∈ P.lanes)
    (hlt : c bl % p.xRoom a bl + 1 < p.xRoom a bl) :
    p.Searching a P (Function.update c bl (c bl + 1))
      (a'.withX (p.xIndex bl) (coord p.sideX (c bl % p.xRoom a bl + 1))) := by
  obtain ⟨hmod, hdiv⟩ := succ_div_mod_of_lt hlt
  refine ⟨fun b hb => ?_, fun b hb => ?_, fun b hb => ?_, fun k hk => ?_, h.y_frame, h.finalDelay,
    h.numRanksEnabled⟩
  · by_cases hbb : b = bl
    · subst hbb
      rw [Function.update_self, RdVars.withX_self, hmod]
    · rw [Function.update_of_ne hbb, RdVars.withX_of_ne (p.xIndex_injective.ne hbb)]
      exact h.x_own b hb
  · by_cases hbb : b = bl
    · subst hbb
      rw [Function.update_self, hdiv]
      exact h.y_own b hb
    · rw [Function.update_of_ne hbb]
      exact h.y_own b hb
  · by_cases hbb : b = bl
    · subst hbb
      rw [Function.update_self, hdiv]
      exact h.y_lt b hb
    · rw [Function.update_of_ne hbb]
      exact h.y_lt b hb
  · rw [RdVars.withX_of_ne (hk bl hbl)]
    exact h.x_frame k hk

theorem Searching.next (h : p.Searching a P c a') (hbl : bl ∈ P.lanes)
    (heq : c bl % p.xRoom a bl + 1 = p.xRoom a bl)
    (hlt : p.yMoved a bl + c bl / p.xRoom a bl + 1 < p.yRoom a bl) (v : Nat) :
    p.Searching a P (Function.update c bl (c bl + 1))
      (((a'.withX (p.xIndex bl) v).withY (p.yIndex bl)
        (coord p.sideY (p.yMoved a bl + c bl / p.xRoom a bl + 1))).withX (p.xIndex bl)
          (coord p.sideX 0)) := by
  obtain ⟨hmod, hdiv⟩ := succ_div_mod_of_eq heq
  refine ⟨fun b hb => ?_, fun b hb => ?_, fun b hb => ?_, fun k hk => ?_, fun k hk => ?_, h.finalDelay,
    h.numRanksEnabled⟩
  · by_cases hbb : b = bl
    · subst hbb
      rw [Function.update_self, RdVars.withX_self, hmod]
    · rw [Function.update_of_ne hbb, RdVars.withX_of_ne (p.xIndex_injective.ne hbb),
        RdVars.xCoordinate_withY, RdVars.withX_of_ne (p.xIndex_injective.ne hbb)]
      exact h.x_own b hb
  · rw [RdVars.yCoordinate_withX]
    by_cases hbb : b = bl
    · subst hbb
      rw [Function.update_self, RdVars.withY_self, hdiv, Nat.add_assoc]
    · rw [Function.update_of_ne hbb, RdVars.withY_of_ne (p.yIndex_injective.ne hbb)]
      exact h.y_own b hb
  · by_cases hbb : b = bl
    · subst hbb
      rw [Function.update_self, hdiv, ← Nat.add_assoc]
      exact hlt
    · rw [Function.update_of_ne hbb]
      exact h.y_lt b hb
  · rw [RdVars.withX_of_ne (hk bl hbl), RdVars.xCoordinate_withY, RdVars.withX_of_ne (hk bl hbl)]
    exact h.x_frame k hk
  · rw [RdVars.yCoordinate_withX, RdVars.withY_of_ne (hk bl hbl)]
    exact h.y_frame k hk

theorem Searching.rdqsClosed_iff (hready : p.Ready a P) (h : p.Searching a P c a')
    (hbl : bl ∈ P.lanes) :
    RdqsClosed (a'.withX (p.xIndex bl) (coord p.sideX (c bl % p.xRoom a bl + 1)))
        p.sideY p.ch p.rk bl ↔ c bl % p.xRoom a bl + 1 = p.xRoom a bl := by
  have hleaves := hready.x_leaves bl hbl
  have hmod := Nat.mod_lt (c bl) (room_pos hleaves : 0 < p.xRoom a bl)
  have hother : ∀ v, (a'.withX (p.xIndex bl) v).xCoordinate (other p.sideX, p.sideY, p.ch, p.rk, bl) =
      a.xCoordinate (other p.sideX, p.sideY, p.ch, p.rk, bl) := by
    have hne : ∀ b, (other p.sideX, p.sideY, p.ch, p.rk, bl) ≠ p.xIndex b :=
      fun b heq => other_ne p.sideX (congrArg Prod.fst heq)
    intro v
    rw [RdVars.withX_of_ne (hne bl)]
    exact h.x_frame _ fun b _ => hne b
  refine Iff.trans ?_ (closed_iff hleaves (show c bl % p.xRoom a bl + 1 ≤ _ from hmod))
  have hself : ∀ v, (a'.withX (p.xIndex bl) v).xCoordinate (p.sideX, p.sideY, p.ch, p.rk, bl) = v :=
    fun _ => RdVars.withX_self
  unfold RdqsClosed Closed
  rcases side_cases p.sideX with hside | hside
  · rw [hside] at hother hself ⊢
    rw [hself, ← hother]
    exact Iff.rfl
  · rw [hside] at hother hself ⊢
    rw [hself, ← hother]
    exact Iff.rfl

theorem Searching.vrefClosed_iff (hready : p.Ready a P) (h : p.Searching a P c a')
    (hbl : bl ∈ P.lanes) (v : Nat) :
    VrefClosed ((a'.withX (p.xIndex bl) v).withY (p.yIndex bl)
        (coord p.sideY (p.yMoved a bl + c bl / p.xRoom a bl + 1))) p.sideX p.ch bl ↔
      p.yMoved a bl + c bl / p.xRoom a bl + 1 = p.yRoom a bl := by
  have hlt := h.y_lt bl hbl
  have hother : ∀ w, ((a'.withX (p.xIndex bl) v).withY (p.yIndex bl) w).yCoordinate
      (p.sideX, other p.sideY, p.ch, bl) = a.yCoordinate (p.sideX, other p.sideY, p.ch, bl) := by
    have hne : ∀ b, (p.sideX, other p.sideY, p.ch, bl) ≠ p.yIndex b :=
      fun b heq => other_ne p.sideY (congrArg (fun k => k.2.1) heq)
    intro w
    rw [RdVars.withY_of_ne (hne bl)]
    exact h.y_frame _ fun b _ => hne b
  refine Iff.trans ?_ (closed_iff (hready.y_leaves bl hbl) hlt)
  have hself : ∀ w, ((a'.withX (p.xIndex bl) v).withY (p.yIndex bl) w).yCoordinate
      (p.sideX, p.sideY, p.ch, bl) = w := fun _ => RdVars.withY_self
  unfold VrefClosed Closed
  rcases side_cases p.sideY with hside | hside
  · rw [hside] at hother hself ⊢
    rw [hself, ← hother]
    exact Iff.rfl
  · rw [hside] at hother hself ⊢
    rw [hself, ← hother]
    exact Iff.rfl

theorem Searching.wp_rdAdjust (hready : p.Ready a P) {s : RdTraining}
    (h : p.Searching a P c s.vars) (hbl : bl ∈ P.lanes) :
    wp (rdAdjust p.sideY p.sideX p.ch p.rk bl) (fun _ t => t.tests = s.tests ∧
      p.Searching a P (Function.update c bl (c bl + 1)) t.vars) RdCollapsed s := by
  have hleaves := hready.x_leaves bl hbl
  have hpos : 0 < p.xRoom a bl := room_pos hleaves
  have hmod : c bl % p.xRoom a bl < p.xRoom a bl := Nat.mod_lt (c bl) hpos
  have hxroom : p.xRoom a bl ≤ 54 := room_le
  have hyroom : p.yRoom a bl ≤ 54 := room_le
  have hylt := h.y_lt bl hbl
  have hx : moveIn p.sideX rdqsStep (s.vars.xCoordinate (p.xIndex bl)) =
      coord p.sideX (c bl % p.xRoom a bl + 1) := by
    rw [h.x_own bl hbl]
    exact moveIn_coord (by omega)
  have hy : moveIn p.sideY vrefStep (s.vars.yCoordinate (p.yIndex bl)) =
      coord p.sideY (p.yMoved a bl + c bl / p.xRoom a bl + 1) := by
    rw [h.y_own bl hbl]
    exact moveIn_coord (by omega)
  -- the new setting of RDQS is one that `set_rdqs` takes
  have hset : ∀ {t : RdTraining}, t.tests = s.tests →
      p.Searching a P (Function.update c bl (c bl + 1)) t.vars →
      wp (onPhy (setRdqs p.ch p.rk bl (.ofNat 32 (t.vars.xCoordinate (p.xIndex bl)))))
        (fun _ t => t.tests = s.tests ∧
          p.Searching a P (Function.update c bl (c bl + 1)) t.vars) RdCollapsed t := by
    intro t ht hsearching
    refine wp_set_onPhy (d := .rdqs p.ch bl) p.rk (rdqs_takes ?_ p.ch bl) (fun _ _ hd => by cases hd)
      fun q _ => ⟨ht, hsearching⟩
    have hlt := Nat.mod_lt (Function.update c bl (c bl + 1) bl) hpos
    rw [hsearching.x_own bl hbl]
    exact coord_le (by omega)
  unfold rdAdjust
  rw [wp_bind, wp_get, wp_bind, wp_setX, wp_bind, wp_get, wp_bind, wp_when]
  change (RdqsClosed (s.vars.withX (p.xIndex bl) (moveIn p.sideX rdqsStep
      (s.vars.xCoordinate (p.xIndex bl)))) p.sideY p.ch p.rk bl → _) ∧ (¬ RdqsClosed (s.vars.withX
      (p.xIndex bl) (moveIn p.sideX rdqsStep (s.vars.xCoordinate (p.xIndex bl)))) p.sideY p.ch p.rk bl → _)
  rw [hx, h.rdqsClosed_iff hready hbl]
  constructor
  · intro hclosed
    unfold nextVref
    rw [wp_bind, wp_get, wp_bind, wp_setY, wp_bind, wp_get, wp_ite]
    change (VrefClosed ((s.vars.withX (p.xIndex bl) _).withY (p.yIndex bl) (moveIn p.sideY vrefStep
      (s.vars.yCoordinate (p.yIndex bl)))) p.sideX p.ch bl → _) ∧ (¬ VrefClosed ((s.vars.withX
      (p.xIndex bl) _).withY (p.yIndex bl) (moveIn p.sideY vrefStep
      (s.vars.yCoordinate (p.yIndex bl)))) p.sideX p.ch bl → _)
    rw [hy, h.vrefClosed_iff hready hbl]
    constructor
    · intro _
      rw [wp_onPhy, postCode, wp_bind, wp_modify, wp_when]
      exact ⟨fun _ => ⟨rfl, p.sideY, p.sideX, rfl⟩, fun hne => absurd rfl hne⟩
    · intro hopen
      rw [wp_bind]
      refine wp_set_onPhy (d := .vref p.ch bl) 0 (vref_takes ?_ p.ch bl) (fun _ _ hd => by cases hd)
        fun q _ => ?_
      · change (RdVars.withY _ (p.yIndex bl) _).yCoordinate (p.yIndex bl) ≤ 63
        rw [RdVars.withY_self]
        exact hy.le.trans (coord_le (by omega))
      · have hnext := h.next hbl hclosed (by omega)
          (moveIn p.sideX rdqsStep (s.vars.xCoordinate (p.xIndex bl)))
        rw [← hy] at hnext
        rw [wp_setX, wp_bind, wp_get]
        have hstart : (if p.sideX = sideL then rdqsMin else rdqsMax) = coord p.sideX 0 := rfl
        rw [hstart]
        exact hset rfl hnext
  · intro hopen
    have hstay := h.stay hbl (show c bl % p.xRoom a bl + 1 < p.xRoom a bl by omega)
    rw [← hx] at hstay
    rw [wp_bind, wp_get]
    exact hset rfl hstay

end RdPass

end Quark.MemoryInit
