import Mathlib.Data.Fintype.Prod
import Mathlib.Algebra.Group.Action.Defs
import Quark.MemoryInit.Proofs.ReadLimitsProofs

/-!
# Read training

`rd_train` as a whole. Each failing test moves a limit, so training ends; the limits of a side stay in
order, and what is programmed is an average of them. How wide the eyes are is another matter, as the two
sides are only kept from meeting.
-/

namespace Quark.MemoryInit

open Machine Exec

abbrev RankLane := (Fin numChannels × Fin numRanks) × Fin numByteLanes

/-! ## Initial values -/

def Initial (d : RankLane) (s : RdTraining) : Prop :=
  ∀ sideY sideX, s.vars.xCoordinate (sideX, sideY, d.1.1, d.1.2, d.2) = coord sideX 0 ∧
    s.vars.yCoordinate (sideX, sideY, d.1.1, d.2) = coord sideY 0

theorem side_forall {p : Side → Prop} (h0 : p 0) (h1 : p 1) (side : Side) : p side := by
  rcases side_cases side with rfl | rfl
  · exact h0
  · exact h1

theorem wp_rdInitLane (r : Fin numChannels × Fin numRanks) (bl : Fin numByteLanes) (s : RdTraining)
    {E : Stop → RdTraining → Prop} :
    wp (rdInitLane r.1 r.2 bl) (fun _ => Gains Initial (· = (r, bl)) s) E s := by
  unfold rdInitLane
  simp only [wp_bind, wp_setX, wp_setY]
  refine ⟨?_, fun d hd => ?_⟩
  · rintro d rfl
    refine side_forall (side_forall ?_ ?_) (side_forall ?_ ?_) <;>
      simp [RdVars.withX, RdVars.withY, coord]
  · have hx : ∀ {a : RdVars} {k : XIndex} {sideX : Side},
        a.xCoordinate k = coord sideX 0 → ∀ {k' : XIndex} {v : Nat}, v = coord k'.1 0 →
          k.1 = sideX → (a.withX k' v).xCoordinate k = coord sideX 0 := by
      intro a k sideX ha k' v hv hside
      by_cases hk : k = k'
      · rw [← hk, RdVars.withX_self, hv, ← hk, hside]
      · rw [RdVars.withX_of_ne hk, ha]
    have hy : ∀ {a : RdVars} {k : YIndex} {sideY : Side},
        a.yCoordinate k = coord sideY 0 → ∀ {k' : YIndex} {v : Nat}, v = coord k'.2.1 0 →
          k.2.1 = sideY → (a.withY k' v).yCoordinate k = coord sideY 0 := by
      intro a k sideY ha k' v hv hside
      by_cases hk : k = k'
      · rw [← hk, RdVars.withY_self, hv, ← hk, hside]
      · rw [RdVars.withY_of_ne hk, ha]
    intro sideY sideX
    obtain ⟨hdx, hdy⟩ := hd sideY sideX
    exact ⟨hx (hx (hx (hx hdx rfl rfl) rfl rfl) rfl rfl) rfl rfl,
      hy (hy (hy (hy hdy rfl rfl) rfl rfl) rfl rfl) rfl rfl⟩

theorem wp_gains_eachRank {α δ : Type} {met : δ → Training α → Prop}
    {D : (Fin numChannels × Fin numRanks) → Fin numByteLanes → δ → Prop} {P : TrainParams}
    {f : Fin numChannels → Fin numRanks → Fin numByteLanes → Exec (Training α) Unit}
    {E : Stop → Training α → Prop}
    (hf : ∀ r bl s, wp (f r.1 r.2 bl) (fun _ => Gains met (D r bl) s) E s) (s : Training α) :
    wp (P.eachRank fun ch rk => serve (f ch rk) P.lanes)
      (fun _ => Gains met (fun d => ∃ r ∈ P.ranks, ∃ bl ∈ P.lanes, D r bl d) s) E s :=
  wp_gains_serve (fun r t => wp_gains_serve (hf r) P.lanes t) P.ranks s

theorem keeps_eachRank {α γ : Type} {P : TrainParams} {g : Training α → γ}
    {f : Fin numChannels → Fin numRanks → Fin numByteLanes → Exec (Training α) Unit}
    (hf : ∀ ch rk bl, Keeps g (f ch rk bl)) :
    Keeps g (P.eachRank fun ch rk => serve (f ch rk) P.lanes) := by
  have hserve : ∀ {ε : Type} {step : ε → Exec (Training α) Unit}, (∀ e, Keeps g (step e)) →
      ∀ es, Keeps g (serve step es) := by
    intro ε step hstep es
    induction es with
    | nil => exact Keeps.pure ()
    | cons e es ih => exact Keeps.bind (hstep e) fun _ => ih
  exact hserve (fun r => hserve (hf r.1 r.2) P.lanes) P.ranks

/-! ## Centers -/

/-- "average the TOP side LEFT & RIGHT values", the same for BOTTOM, and "average the above averages". -/
def xMiddle (a : RdVars) (r : Fin numChannels × Fin numRanks) (bl : Fin numByteLanes) : Nat :=
  ((a.xCoordinate (sideR, sideT, r.1, r.2, bl) + a.xCoordinate (sideL, sideT, r.1, r.2, bl)) / 2 +
    (a.xCoordinate (sideR, sideB, r.1, r.2, bl) + a.xCoordinate (sideL, sideB, r.1, r.2, bl)) / 2) / 2

def yMiddle (a : RdVars) (bl : Fin numByteLanes) : Nat :=
  ((a.yCoordinate (sideR, sideT, 0, bl) + a.yCoordinate (sideR, sideB, 0, bl)) / 2 +
    (a.yCoordinate (sideL, sideT, 0, bl) + a.yCoordinate (sideL, sideB, 0, bl)) / 2) / 2

def Centered (d : RankLane) (s : RdTraining) : Prop :=
  s.vars.xCenter (d.1.1, d.1.2, d.2) = u8 (xMiddle s.vars d.1 d.2) ∧
    s.vars.yCenter (0, d.2) = u8 (yMiddle s.vars d.2)

theorem wp_rdCenterLane (r : Fin numChannels × Fin numRanks) (bl : Fin numByteLanes) (s : RdTraining)
    {E : Stop → RdTraining → Prop} :
    wp (rdCenterLane r.1 r.2 bl) (fun _ => Gains Centered (· = (r, bl)) s) E s := by
  unfold rdCenterLane
  rw [wp_modifyVars]
  have hch : r.1 = 0 := RdRun.channel_eq r.1
  refine ⟨?_, fun d hd => ?_⟩
  · rintro d rfl
    refine ⟨Function.update_self .., ?_⟩
    show Function.update _ (r.1, bl) _ (0, bl) = _
    rw [hch]
    exact Function.update_self ..
  · obtain ⟨⟨ch, rk⟩, bl'⟩ := d
    refine ⟨?_, ?_⟩
    · show Function.update _ (r.1, r.2, bl) _ (ch, rk, bl') = _
      by_cases hk : (ch, rk, bl') = (r.1, r.2, bl)
      · simp only [Prod.mk.injEq] at hk
        obtain ⟨rfl, rfl, rfl⟩ := hk
        exact Function.update_self ..
      · rw [Function.update_of_ne hk]
        exact hd.1
    · show Function.update _ (r.1, bl) _ (0, bl') = _
      rw [hch]
      by_cases hk : bl' = bl
      · subst hk
        exact Function.update_self ..
      · rw [Function.update_of_ne (by simp [hk])]
        exact hd.2

theorem keeps_rdCenterLane (ch : Fin numChannels) (rk : Fin numRanks) (bl : Fin numByteLanes) :
    Keeps (fun s : RdTraining => (s.vars.xCoordinate, s.vars.yCoordinate, s.vars.finalDelay,
      s.vars.numRanksEnabled)) (rdCenterLane ch rk bl) := fun _ => rfl

/-! ## Final placements -/

/-- What is programmed for a lane when `n` ranks have been placed that sum up to `total`. -/
def Placed (a : RdVars) (total n : Nat) (bl : Fin numByteLanes) (p : Phy) : Prop :=
  (Delay.rdqs 0 bl).get p = .ofNat 32 (total / n) ∧ (Delay.vref 0 bl).get p = .ofNat 32 (a.yCenter (0, bl))

structure Placing (P : TrainParams) (a : RdVars) (s : RdTraining) (n : Nat) (total : Fin numByteLanes → Nat) :
    Prop where
  xCoordinate : s.vars.xCoordinate = a.xCoordinate
  yCoordinate : s.vars.yCoordinate = a.yCoordinate
  xCenter : s.vars.xCenter = a.xCenter
  yCenter : s.vars.yCenter = a.yCenter
  count : s.vars.numRanksEnabled = n
  finalDelay : ∀ bl ∈ P.lanes, s.vars.finalDelay (0, bl) = total bl

section Place

variable {P : TrainParams} {a : RdVars} {E : Stop → RdTraining → Prop}

theorem wp_rdPlaceLanes {rk : Fin numRanks} {n : Nat} {total : Fin numByteLanes → Nat}
    (hx : ∀ bl ∈ P.lanes, total bl + a.xCenter (0, rk, bl) ≤ 63 * n)
    (hy : ∀ bl ∈ P.lanes, a.yCenter (0, bl) ≤ 63) (hn : n ≤ 2) :
    ∀ (ls : List (Fin numByteLanes)) (done : List (Fin numByteLanes)) (s : RdTraining), (done ++ ls).Nodup →
      ls ⊆ P.lanes →
      Placing P a s n (fun bl => if bl ∈ done then total bl + a.xCenter (0, rk, bl) else total bl) →
      (∀ bl ∈ done, Placed a (total bl + a.xCenter (0, rk, bl)) n bl s.phy) →
      wp (serve (rdPlaceLane 0 rk) ls) (fun _ t =>
        Placing P a t n (fun bl => if bl ∈ done ++ ls then total bl + a.xCenter (0, rk, bl) else total bl) ∧
          ∀ bl ∈ done ++ ls, Placed a (total bl + a.xCenter (0, rk, bl)) n bl t.phy) E s := by
  intro ls
  induction ls with
  | nil =>
    intro done s _ _ hs hplaced
    rw [List.append_nil]
    exact ⟨hs, hplaced⟩
  | cons bl ls ih =>
    intro done s hnodup hls hs hplaced
    have hbl := hls List.mem_cons_self
    have hfresh : bl ∉ done := fun hmem =>
      (List.nodup_append.mp hnodup).2.2 bl hmem bl List.mem_cons_self rfl
    have happend : done ++ bl :: ls = (done ++ [bl]) ++ ls := by simp
    have hsum := hx bl hbl
    have hold : s.vars.finalDelay (0, bl) = total bl := by
      rw [hs.finalDelay bl hbl, if_neg hfresh]
    have hquot : (total bl + a.xCenter (0, rk, bl)) / n ≤ 63 :=
      Nat.div_le_of_le_mul (by rw [Nat.mul_comm]; exact hsum)
    have hnew : u32 (s.vars.finalDelay (0, bl) + s.vars.xCenter (0, rk, bl)) =
        total bl + a.xCenter (0, rk, bl) := by
      rw [hold, hs.xCenter]
      exact u32_of_lt (by omega)
    show wp (rdPlaceLane 0 rk bl >>= fun _ => serve (rdPlaceLane 0 rk) ls) _ _ s
    unfold rdPlaceLane
    rw [wp_bind, wp_bind, wp_modifyVars, wp_bind, wp_get, wp_bind]
    dsimp only
    rw [Function.update_self, hnew, hs.count]
    refine wp_set_onPhy (d := .rdqs 0 bl) rk (rdqs_takes hquot 0 bl) nofun fun q hq => ?_
    rw [hs.yCenter]
    refine wp_set_onPhy (d := .vref 0 bl) 0 (vref_takes (hy bl hbl) 0 bl) nofun fun q' hq' => ?_
    rw [happend]
    refine ih (done ++ [bl]) _ (happend ▸ hnodup) (fun b hb => hls (List.mem_cons_of_mem bl hb)) ?_ ?_
    · refine ⟨hs.xCoordinate, hs.yCoordinate, hs.xCenter, rfl, rfl, fun b hb => ?_⟩
      show Function.update s.vars.finalDelay (0, bl) _ (0, b) = _
      by_cases hbb : b = bl
      · subst hbb
        rw [Function.update_self, if_pos (by simp)]
      · rw [Function.update_of_ne (by simp [hbb]), hs.finalDelay b hb]
        simp [hbb]
    · intro b hb
      rcases List.mem_append.mp hb with hb | hb
      · have hbb : b ≠ bl := fun heq => hfresh (heq ▸ hb)
        obtain ⟨hrdqs, hvref⟩ := hplaced b hb
        refine ⟨?_, ?_⟩
        · rw [hq', if_neg nofun, hq, if_neg (by simp [hbb])]
          exact hrdqs
        · rw [hq', if_neg (by simp [hbb]), hq, if_neg nofun]
          exact hvref
      · obtain rfl := List.mem_singleton.mp hb
        refine ⟨?_, ?_⟩
        · rw [hq', if_neg nofun, hq, if_pos rfl]
        · rw [hq', if_pos rfl]

theorem wp_rdPlaceRanks (hy : ∀ bl ∈ P.lanes, a.yCenter (0, bl) ≤ 63) :
    ∀ (rs : List (Fin numChannels × Fin numRanks)) (n : Nat) (total : Fin numByteLanes → Nat)
      (s : RdTraining), (∀ r ∈ rs, ∀ bl ∈ P.lanes, a.xCenter (r.1, r.2, bl) ≤ 63) →
      n + rs.length ≤ 2 → (∀ bl ∈ P.lanes, total bl ≤ 63 * n) →
      Placing P a s n total → wp (serve (fun r => rdPlaceRank P r.1 r.2) rs) (fun _ t =>
        t.vars.xCoordinate = a.xCoordinate ∧ t.vars.yCoordinate = a.yCoordinate ∧
          (rs ≠ [] → ∀ bl ∈ P.lanes, Placed a
            (total bl + (rs.map fun r => a.xCenter (r.1, r.2, bl)).sum) (n + rs.length) bl t.phy)) E s := by
  intro rs
  induction rs with
  | nil => intro n total s _ _ _ hs; exact ⟨hs.xCoordinate, hs.yCoordinate, nofun⟩
  | cons r rs ih =>
    intro n total s hx hlen hle hs
    obtain ⟨ch, rk⟩ := r
    obtain rfl := RdRun.channel_eq ch
    rw [List.length_cons] at hlen
    have hle' : ∀ bl ∈ P.lanes, total bl + a.xCenter (0, rk, bl) ≤ 63 * (n + 1) := by
      intro bl hbl
      have h₁ := hle bl hbl
      have h₂ : a.xCenter (0, rk, bl) ≤ 63 := hx (0, rk) List.mem_cons_self bl hbl
      omega
    refine (wp_bind _ _).mpr ?_
    dsimp only
    unfold rdPlaceRank
    rw [wp_bind, wp_modifyVars]
    have hcount : u32 (s.vars.numRanksEnabled + 1) = n + 1 := by
      rw [hs.count]
      exact u32_of_lt (by omega)
    refine wp_mono (wp_rdPlaceLanes hle' hy (by omega) P.lanes [] _ (lanes_nodup P)
      (List.Subset.refl _) ?_ nofun) ?_ fun _ _ he => he
    · refine ⟨hs.xCoordinate, hs.yCoordinate, hs.xCenter, hs.yCenter, hcount, fun bl hbl => ?_⟩
      rw [if_neg List.not_mem_nil]
      exact hs.finalDelay bl hbl
    · rintro _ t ⟨ht, hplaced⟩
      rw [List.nil_append] at ht hplaced
      have ht' : Placing P a t (n + 1) (fun bl => total bl + a.xCenter (0, rk, bl)) := by
        refine ⟨ht.xCoordinate, ht.yCoordinate, ht.xCenter, ht.yCenter, ht.count, fun bl hbl => ?_⟩
        rw [ht.finalDelay bl hbl, if_pos hbl]
      cases rs with
      | nil =>
        refine ⟨ht.xCoordinate, ht.yCoordinate, fun _ bl hbl => ?_⟩
        exact hplaced bl hbl
      | cons r' rs =>
        refine wp_mono (ih (n + 1) _ t (fun r hr => hx r (List.mem_cons_of_mem _ hr)) (by omega) hle' ht') ?_ fun _ _ he => he
        rintro _ u ⟨hux, huy, hu⟩
        refine ⟨hux, huy, fun _ bl hbl => ?_⟩
        have hlast := hu (List.cons_ne_nil r' rs) bl hbl
        rw [List.map_cons, List.sum_cons, ← Nat.add_assoc, List.length_cons, ← Nat.add_assoc n,
          Nat.add_right_comm n]
        exact hlast

end Place

/-! ## The whole function -/

structure Found (R : RdRun) (t : RdTraining) : Prop where
  progress : R.Progress rdSides.reverse t.vars
  rdqs : ∀ bl ∈ R.P.lanes, (Delay.rdqs 0 bl).get t.phy =
    .ofNat 32 ((R.P.ranks.map fun r => xMiddle t.vars r bl).sum / R.P.ranks.length)
  vref : ∀ bl ∈ R.P.lanes, (Delay.vref 0 bl).get t.phy = .ofNat 32 (yMiddle t.vars bl)

section Whole

variable {R : RdRun} {a : RdVars} {sideY sideX : Side} {bl : Fin numByteLanes}
variable {r : Fin numChannels × Fin numRanks}

theorem mem_rdSides (sideY sideX : Side) : (sideY, sideX) ∈ rdSides.reverse := by
  rcases side_cases sideY with rfl | rfl <;> rcases side_cases sideX with rfl | rfl <;> decide

theorem ranks_length_le (P : TrainParams) : P.ranks.length ≤ 2 := by
  have hle := (ranks_nodup P).length_le_card
  rwa [Fintype.card_prod, Fintype.card_fin, Fintype.card_fin] at hle

theorem progress_x (h : R.Progress rdSides.reverse a) (sideY sideX : Side)
    {q : (Fin numChannels × Fin numRanks) × Nat} (hq : q ∈ R.P.ranks.zipIdx) (hbl : bl ∈ R.P.lanes) :
    a.xCoordinate (sideX, sideY, q.1.1, q.1.2, bl) = coord sideX (R.xMoved sideY sideX q.2 bl) := by
  have hx := h.x sideY sideX q hq bl hbl
  rwa [if_pos (mem_rdSides sideY sideX)] at hx

theorem progress_y (h : R.Progress rdSides.reverse a) (sideY sideX : Side) (hbl : bl ∈ R.P.lanes) :
    a.yCoordinate (sideX, sideY, 0, bl) = coord sideY (R.yMoved sideY sideX bl) := by
  have hy := h.y sideY sideX bl hbl
  rwa [if_pos (mem_rdSides sideY sideX)] at hy

theorem limits_x (h : R.Progress rdSides.reverse a) (hr : r ∈ R.P.ranks) (hbl : bl ∈ R.P.lanes)
    (sideY : Side) :
    a.xCoordinate (sideL, sideY, r.1, r.2, bl) < a.xCoordinate (sideR, sideY, r.1, r.2, bl) ∧
      a.xCoordinate (sideL, sideY, r.1, r.2, bl) ≤ rdqsMax - minRdqsEye ∧
      rdqsMin + minRdqsEye ≤ a.xCoordinate (sideR, sideY, r.1, r.2, bl) ∧
      a.xCoordinate (sideR, sideY, r.1, r.2, bl) ≤ rdqsMax := by
  obtain ⟨k, hk⟩ := RdRun.exists_mem_zipIdx hr
  have hleft : R.xMoved sideY sideL k bl < 54 := RdRun.xMoved_left_lt sideY k bl
  have hright : R.xMoved sideY sideR k bl < 63 - max 9 (R.xMoved sideY sideL k bl) :=
    Nat.mod_lt _ (RdRun.period_pos sideY sideR k bl)
  rw [progress_x h sideY sideL hk hbl, progress_x h sideY sideR hk hbl]
  show R.xMoved sideY sideL k bl < 63 - R.xMoved sideY sideR k bl ∧
    R.xMoved sideY sideL k bl ≤ 53 ∧ 10 ≤ 63 - R.xMoved sideY sideR k bl ∧
    63 - R.xMoved sideY sideR k bl ≤ 63
  omega

theorem limits_y (h : R.Progress rdSides.reverse a) (hbl : bl ∈ R.P.lanes) (sideX : Side) :
    a.yCoordinate (sideX, sideB, 0, bl) < a.yCoordinate (sideX, sideT, 0, bl) ∧
      a.yCoordinate (sideX, sideT, 0, bl) ≤ vrefMax := by
  have hbottom := h.bottom_lt sideX (mem_rdSides sideB sideX) bl hbl
  have htop := h.top_lt sideX (mem_rdSides sideT sideX) bl hbl
  rw [progress_y h sideB sideX hbl, progress_y h sideT sideX hbl]
  show R.yMoved sideB sideX bl < 63 - R.yMoved sideT sideX bl ∧ 63 - R.yMoved sideT sideX bl ≤ 63
  omega

theorem xMiddle_le (h : R.Progress rdSides.reverse a) (hr : r ∈ R.P.ranks) (hbl : bl ∈ R.P.lanes) :
    xMiddle a r bl ≤ 63 := by
  obtain ⟨-, -, -, htop⟩ := limits_x h hr hbl sideT
  obtain ⟨-, htop', -, -⟩ := limits_x h hr hbl sideT
  obtain ⟨-, -, -, hbottom⟩ := limits_x h hr hbl sideB
  obtain ⟨-, hbottom', -, -⟩ := limits_x h hr hbl sideB
  change _ ≤ 53 at htop' hbottom'
  change _ ≤ 63 at htop hbottom
  unfold xMiddle
  omega

theorem yMiddle_le (h : R.Progress rdSides.reverse a) (hbl : bl ∈ R.P.lanes) : yMiddle a bl ≤ 63 := by
  obtain ⟨hleft, hleft'⟩ := limits_y h hbl sideL
  obtain ⟨hright, hright'⟩ := limits_y h hbl sideR
  change _ ≤ 63 at hleft' hright'
  unfold yMiddle
  omega

theorem wp_rdInit (R : RdRun) (hranks : R.P.ranks ≠ []) (s : RdTraining)
    {E : Stop → RdTraining → Prop} :
    wp (R.P.eachRank fun ch rk => serve (rdInitLane ch rk) R.P.lanes)
      (fun _ t => R.Progress [] t.vars ∧ t.tests = s.tests) E s := by
  have hinit : wp (R.P.eachRank fun ch rk => serve (rdInitLane ch rk) R.P.lanes)
      (fun _ => Gains Initial (fun d => ∃ r ∈ R.P.ranks, ∃ bl ∈ R.P.lanes, d = (r, bl)) s) E s :=
    wp_gains_eachRank (fun r bl t => wp_rdInitLane r bl t) s
  have htests : Keeps (fun t : RdTraining => t.tests)
      (R.P.eachRank fun ch rk => serve (rdInitLane ch rk) R.P.lanes) :=
    keeps_eachRank fun _ _ _ _ => rfl
  refine wp_mono (wp_and hinit (htests.wp s)) ?_ fun _ _ he => he.1
  rintro _ t ⟨⟨hmet, -⟩, ht⟩
  obtain ⟨r₀, hr₀⟩ := List.exists_mem_of_ne_nil _ hranks
  refine ⟨⟨fun sideY sideX q hq bl hbl => ?_, fun sideY sideX bl hbl => ?_, nofun, nofun⟩, ht⟩
  · rw [if_neg List.not_mem_nil]
    exact (hmet (q.1, bl) ⟨q.1, List.fst_mem_of_mem_zipIdx hq, bl, hbl, rfl⟩ sideY sideX).1
  · rw [if_neg List.not_mem_nil]
    have hy := (hmet (r₀, bl) ⟨r₀, hr₀, bl, hbl, rfl⟩ sideY sideX).2
    rwa [RdRun.channel_eq r₀.1] at hy

theorem wp_rdPlace (hranks : R.P.ranks ≠ []) {s : RdTraining} (h : R.Limits s.vars)
    {E : Stop → RdTraining → Prop} :
    wp (do
      R.P.eachRank fun ch rk => serve (rdCenterLane ch rk) R.P.lanes
      onPhy (postCode 0x07 0x40)
      R.P.eachRank (rdPlaceRank R.P)) (fun _ t => Found R t) E s := by
  have hcenter : wp (R.P.eachRank fun ch rk => serve (rdCenterLane ch rk) R.P.lanes)
      (fun _ => Gains Centered (fun d => ∃ r ∈ R.P.ranks, ∃ bl ∈ R.P.lanes, d = (r, bl)) s) E s :=
    wp_gains_eachRank (fun r bl t => wp_rdCenterLane r bl t) s
  have hkeep := (keeps_eachRank (P := R.P) keeps_rdCenterLane).wp s
  rw [wp_bind]
  refine wp_mono (wp_and hcenter hkeep) ?_ fun _ _ he => he.1
  rintro _ t ⟨⟨hmet, -⟩, ht⟩
  simp only [Prod.mk.injEq] at ht
  obtain ⟨hx, hy, hdelay, hcount⟩ := ht
  have hprogress : R.Progress rdSides.reverse t.vars := by
    obtain ⟨hpx, hpy, hbottom, htop⟩ := h.progress
    refine ⟨?_, ?_, hbottom, htop⟩
    · rw [hx]
      exact hpx
    · rw [hy]
      exact hpy
  have hxCenter : ∀ r ∈ R.P.ranks, ∀ bl ∈ R.P.lanes,
      t.vars.xCenter (r.1, r.2, bl) = xMiddle t.vars r bl := by
    intro r hr bl hbl
    have hmiddle := xMiddle_le hprogress hr hbl
    rw [(hmet (r, bl) ⟨r, hr, bl, hbl, rfl⟩).1]
    exact Nat.mod_eq_of_lt (hmiddle.trans_lt (by decide))
  obtain ⟨r₀, hr₀⟩ := List.exists_mem_of_ne_nil _ hranks
  have hyCenter : ∀ bl ∈ R.P.lanes, t.vars.yCenter (0, bl) = yMiddle t.vars bl := by
    intro bl hbl
    have hmiddle := yMiddle_le hprogress hbl
    rw [(hmet (r₀, bl) ⟨r₀, hr₀, bl, hbl, rfl⟩).2]
    exact Nat.mod_eq_of_lt (hmiddle.trans_lt (by decide))
  rw [wp_bind]
  refine wp_postCode (by decide) fun p => ?_
  have hplacing : Placing R.P t.vars { t with phy := p } 0 (fun _ => 0) := by
    refine ⟨rfl, rfl, rfl, rfl, ?_, fun bl _ => ?_⟩
    · exact hcount.trans h.numRanksEnabled
    · exact congrFun (hdelay.trans h.finalDelay) (0, bl)
  refine wp_mono (wp_rdPlaceRanks (fun bl hbl => (hyCenter bl hbl).trans_le (yMiddle_le hprogress hbl))
    R.P.ranks 0 (fun _ => 0) _ (fun r hr bl hbl => (hxCenter r hr bl hbl).trans_le
      (xMiddle_le hprogress hr hbl)) (by simpa using ranks_length_le R.P) (fun _ _ => Nat.zero_le _)
    hplacing) ?_ fun _ _ he => he
  rintro _ u ⟨hux, huy, hplaced⟩
  have hxMiddle : ∀ r bl, xMiddle u.vars r bl = xMiddle t.vars r bl := by
    intro r bl
    unfold xMiddle
    rw [hux]
  refine ⟨?_, fun bl hbl => ?_, fun bl hbl => ?_⟩
  · obtain ⟨hpx, hpy, hbottom, htop⟩ := hprogress
    refine ⟨?_, ?_, hbottom, htop⟩
    · rw [hux]
      exact hpx
    · rw [huy]
      exact hpy
  · rw [(hplaced hranks bl hbl).1, Nat.zero_add, Nat.zero_add]
    congr 3
    refine List.map_congr_left fun r hr => ?_
    rw [hxMiddle, hxCenter r hr bl hbl]
  · have hyMiddle : yMiddle u.vars bl = yMiddle t.vars bl := by
      unfold yMiddle
      rw [huy]
    rw [(hplaced hranks bl hbl).2, hyCenter bl hbl, hyMiddle]

theorem wp_rdTrain (R : RdRun) (hranks : R.P.ranks ≠ []) {s : RdTraining} (hstart : s.tests = R.start) :
    wp (rdTrain R.P R.errors R.fuel) (fun _ t => Found R t) (RdStops R.P R.errors R.fuel) s := by
  unfold rdTrain
  rw [wp_bind]
  refine wp_postCode (by decide) fun p => ?_
  rw [wp_bind]
  refine wp_mono (wp_rdInit R hranks _) ?_ fun _ _ he => he
  rintro _ t ⟨hprogress, htests⟩
  rw [wp_bind, wp_modifyVars, wp_bind]
  have hprogress' : R.Progress [] { t.vars with finalDelay := fun _ => 0, numRanksEnabled := 0 } :=
    ⟨hprogress.x, hprogress.y, hprogress.bottom_lt, hprogress.top_lt⟩
  refine wp_mono (RdRun.wp_rdSides (s := { t with vars := _ }) hprogress' (htests.trans hstart) rfl rfl)
    ?_ fun _ _ he => he
  rintro _ u hlimits
  rw [wp_bind]
  refine wp_postCode (by decide) fun q => ?_
  exact wp_rdPlace hranks (s := { u with phy := q }) hlimits

end Whole

/-! ## What read training leaves

The limits of a side never meet, and what is programmed is an average of middles: over the two sides of the
other coordinate, and for RDQS over the ranks as well. So it is within the outermost limits only. The
tests that are to keep an eye open look at each limit alone, and how wide the eye is depends on the
failures of both sides.
-/

/-! ## Averages -/

section Average

variable {α : Type} {l : List α}

theorem exists_le_average (f : α → Nat) (hl : l ≠ []) : ∃ x ∈ l, f x ≤ (l.map f).sum / l.length := by
  have hpos : 0 < l.length := List.length_pos_iff.mpr hl
  by_contra hnone
  push Not at hnone
  have hle := List.card_nsmul_le_sum (l.map f) ((l.map f).sum / l.length + 1) (by
    intro v hv
    obtain ⟨x, hx, rfl⟩ := List.mem_map.mp hv
    exact hnone x hx)
  rw [List.length_map, smul_eq_mul] at hle
  exact absurd (Nat.lt_mul_div_succ (l.map f).sum hpos) hle.not_gt

theorem exists_average_le (f : α → Nat) (hl : l ≠ []) : ∃ x ∈ l, (l.map f).sum / l.length ≤ f x := by
  have hpos : 0 < l.length := List.length_pos_iff.mpr hl
  by_contra hnone
  push Not at hnone
  have hlt : (l.map f).sum < (l.map fun _ => (l.map f).sum / l.length).sum :=
    List.sum_lt_sum_of_ne_nil hl _ _ hnone
  rw [List.map_const', List.sum_replicate, smul_eq_mul] at hlt
  exact absurd (Nat.mul_div_le (l.map f).sum l.length) hlt.not_ge

end Average

/-! ## The programmed values -/

/-- The limits of every lane are in order and keep their distance from the ends of the range, and what is
programmed is neither below all the lower limits nor above all the upper ones. -/
structure WithinLimits (P : TrainParams) (t : RdTraining) : Prop where
  order : ∀ r ∈ P.ranks, ∀ bl ∈ P.lanes, ∀ sideY,
    t.vars.xCoordinate (sideL, sideY, r.1, r.2, bl) < t.vars.xCoordinate (sideR, sideY, r.1, r.2, bl) ∧
      t.vars.xCoordinate (sideL, sideY, r.1, r.2, bl) ≤ rdqsMax - minRdqsEye ∧
      rdqsMin + minRdqsEye ≤ t.vars.xCoordinate (sideR, sideY, r.1, r.2, bl)
  rdqs_ge : ∀ r ∈ P.ranks, ∀ bl ∈ P.lanes, ∃ r' ∈ P.ranks, ∃ sideY,
    t.vars.xCoordinate (sideL, sideY, r'.1, r'.2, bl) ≤ (getRdqs t.phy r.1 r.2 bl).toNat
  rdqs_le : ∀ r ∈ P.ranks, ∀ bl ∈ P.lanes, ∃ r' ∈ P.ranks, ∃ sideY,
    (getRdqs t.phy r.1 r.2 bl).toNat ≤ t.vars.xCoordinate (sideR, sideY, r'.1, r'.2, bl)
  vref_ge : ∀ r ∈ P.ranks, ∀ bl ∈ P.lanes, ∃ sideX,
    t.vars.yCoordinate (sideX, sideB, r.1, bl) ≤ (getVref t.phy r.1 bl).toNat
  vref_le : ∀ r ∈ P.ranks, ∀ bl ∈ P.lanes, ∃ sideX,
    (getVref t.phy r.1 bl).toNat ≤ t.vars.yCoordinate (sideX, sideT, r.1, bl)

section Middle

variable {a : RdVars} {r : Fin numChannels × Fin numRanks} {bl : Fin numByteLanes}

theorem exists_le_xMiddle
    (h : ∀ sideY, a.xCoordinate (sideL, sideY, r.1, r.2, bl) < a.xCoordinate (sideR, sideY, r.1, r.2, bl)) :
    ∃ sideY, a.xCoordinate (sideL, sideY, r.1, r.2, bl) ≤ xMiddle a r bl := by
  have hbottom := h sideB
  have htop := h sideT
  unfold xMiddle
  rcases Nat.le_total (a.xCoordinate (sideL, sideB, r.1, r.2, bl))
    (a.xCoordinate (sideL, sideT, r.1, r.2, bl)) with hle | hle
  · exact ⟨sideB, by omega⟩
  · exact ⟨sideT, by omega⟩

theorem exists_xMiddle_le
    (h : ∀ sideY, a.xCoordinate (sideL, sideY, r.1, r.2, bl) < a.xCoordinate (sideR, sideY, r.1, r.2, bl)) :
    ∃ sideY, xMiddle a r bl ≤ a.xCoordinate (sideR, sideY, r.1, r.2, bl) := by
  have hbottom := h sideB
  have htop := h sideT
  unfold xMiddle
  rcases Nat.le_total (a.xCoordinate (sideR, sideB, r.1, r.2, bl))
    (a.xCoordinate (sideR, sideT, r.1, r.2, bl)) with hle | hle
  · exact ⟨sideT, by omega⟩
  · exact ⟨sideB, by omega⟩

theorem exists_le_yMiddle
    (h : ∀ sideX, a.yCoordinate (sideX, sideB, 0, bl) < a.yCoordinate (sideX, sideT, 0, bl)) :
    ∃ sideX, a.yCoordinate (sideX, sideB, 0, bl) ≤ yMiddle a bl := by
  have hleft := h sideL
  have hright := h sideR
  unfold yMiddle
  rcases Nat.le_total (a.yCoordinate (sideL, sideB, 0, bl)) (a.yCoordinate (sideR, sideB, 0, bl))
    with hle | hle
  · exact ⟨sideL, by omega⟩
  · exact ⟨sideR, by omega⟩

theorem exists_yMiddle_le
    (h : ∀ sideX, a.yCoordinate (sideX, sideB, 0, bl) < a.yCoordinate (sideX, sideT, 0, bl)) :
    ∃ sideX, yMiddle a bl ≤ a.yCoordinate (sideX, sideT, 0, bl) := by
  have hleft := h sideL
  have hright := h sideR
  unfold yMiddle
  rcases Nat.le_total (a.yCoordinate (sideL, sideT, 0, bl)) (a.yCoordinate (sideR, sideT, 0, bl))
    with hle | hle
  · exact ⟨sideR, by omega⟩
  · exact ⟨sideL, by omega⟩

end Middle

theorem Found.withinLimits {R : RdRun} {t : RdTraining} (h : Found R t) : WithinLimits R.P t := by
  have horder := fun r (hr : r ∈ R.P.ranks) bl (hbl : bl ∈ R.P.lanes) => limits_x h.progress hr hbl
  have hrdqs : ∀ r ∈ R.P.ranks, ∀ bl ∈ R.P.lanes, (getRdqs t.phy r.1 r.2 bl).toNat =
      (R.P.ranks.map fun r => xMiddle t.vars r bl).sum / R.P.ranks.length := by
    intro r hr bl hbl
    obtain ⟨r', hr', hle⟩ := exists_average_le (fun r => xMiddle t.vars r bl) (List.ne_nil_of_mem hr)
    have hmiddle := xMiddle_le h.progress hr' hbl
    rw [RdRun.channel_eq r.1]
    show ((Delay.rdqs 0 bl).get t.phy).toNat = _
    rw [h.rdqs bl hbl, BitVec.toNat_ofNat]
    exact Nat.mod_eq_of_lt (by omega)
  have hvref : ∀ (r : Fin numChannels × Fin numRanks), ∀ bl ∈ R.P.lanes,
      (getVref t.phy r.1 bl).toNat = yMiddle t.vars bl := by
    intro r bl hbl
    have hmiddle := yMiddle_le h.progress hbl
    rw [RdRun.channel_eq r.1]
    show ((Delay.vref 0 bl).get t.phy).toNat = _
    rw [h.vref bl hbl, BitVec.toNat_ofNat]
    exact Nat.mod_eq_of_lt (by omega)
  refine ⟨fun r hr bl hbl sideY => ?_, fun r hr bl hbl => ?_, fun r hr bl hbl => ?_,
    fun r hr bl hbl => ?_, fun r hr bl hbl => ?_⟩
  · obtain ⟨hlt, hleft, hright, -⟩ := horder r hr bl hbl sideY
    exact ⟨hlt, hleft, hright⟩
  · obtain ⟨r', hr', hle⟩ := exists_le_average (fun r => xMiddle t.vars r bl) (List.ne_nil_of_mem hr)
    obtain ⟨sideY, hside⟩ := exists_le_xMiddle fun sideY => (horder r' hr' bl hbl sideY).1
    exact ⟨r', hr', sideY, (hside.trans hle).trans (hrdqs r hr bl hbl).ge⟩
  · obtain ⟨r', hr', hle⟩ := exists_average_le (fun r => xMiddle t.vars r bl) (List.ne_nil_of_mem hr)
    obtain ⟨sideY, hside⟩ := exists_xMiddle_le fun sideY => (horder r' hr' bl hbl sideY).1
    exact ⟨r', hr', sideY, (hrdqs r hr bl hbl).le.trans (hle.trans hside)⟩
  · obtain ⟨sideX, hside⟩ := exists_le_yMiddle fun sideX => (limits_y h.progress hbl sideX).1
    rw [hvref r bl hbl, RdRun.channel_eq r.1]
    exact ⟨sideX, hside⟩
  · obtain ⟨sideX, hside⟩ := exists_yMiddle_le fun sideX => (limits_y h.progress hbl sideX).1
    rw [hvref r bl hbl, RdRun.channel_eq r.1]
    exact ⟨sideX, hside⟩

theorem wp_rdTrain_nil {P : TrainParams} (hranks : P.ranks = []) (errors : Nat → BitVec 32) (fuel : Nat)
    (s : RdTraining) {E : Stop → RdTraining → Prop} :
    wp (rdTrain P errors fuel) (fun _ _ => True) E s := by
  have heach : ∀ (f : Fin numChannels → Fin numRanks → Exec RdTraining Unit), P.eachRank f = pure () := by
    intro f
    rw [TrainParams.eachRank, hranks]
    rfl
  simp [rdTrain, heach, rdSides, serve, postCode]

theorem rdTrain_outcome (P : TrainParams) (errors : Nat → BitVec 32) (fuel : Nat) (s : RdTraining) :
    wp (rdTrain P errors fuel) (fun _ t => WithinLimits P t) (RdStops P errors fuel) s := by
  by_cases hranks : P.ranks = []
  · refine wp_mono (wp_rdTrain_nil hranks errors fuel s) ?_ fun _ _ he => he
    have hnone : ∀ r, r ∉ P.ranks := by simp [hranks]
    rintro _ t -
    exact ⟨fun r hr => absurd hr (hnone r), fun r hr => absurd hr (hnone r),
      fun r hr => absurd hr (hnone r), fun r hr => absurd hr (hnone r), fun r hr => absurd hr (hnone r)⟩
  · exact wp_mono (wp_rdTrain ⟨P, errors, fuel, s.tests⟩ hranks rfl) (fun _ _ h => h.withinLimits)
      fun _ _ he => he

/-! ### Where training does less -/

def oneRank : TrainParams := ⟨1, 1, true⟩

def untrained : RdTraining :=
  ⟨⟨fun _ => 0, []⟩, false, 0, ⟨fun _ => 0, fun _ => 0, fun _ => 0, fun _ => 0, fun _ => 0, 0⟩⟩

/-- The lane fails 30 times from the right at the bottom, and 34 times from the left at the top. -/
def crossedErrors (n : Nat) : BitVec 32 :=
  if 1 ≤ n ∧ n ≤ 30 ∨ 32 ≤ n ∧ n ≤ 65 then 0x100 else 0

def narrowErrors (n : Nat) : BitVec 32 :=
  if n ≤ 30 ∨ 32 ≤ n ∧ n ≤ 62 then 0x100 else 0

theorem wp_rdTrain_unattributed {R : RdRun} (hranks : R.P.ranks ≠ [])
    (hfails : ∀ n, TestFails R.errors n)
    (hlanes : ∀ n, ∀ bl ∈ R.P.lanes, ¬ LaneFails R.P (testResult R.errors n) bl) (s : RdTraining) :
    wp (rdTrain R.P R.errors R.fuel) (fun _ _ => False) (fun w _ => w = .unfinished) s := by
  obtain ⟨r, rs, hrs⟩ := List.exists_cons_of_ne_nil hranks
  unfold rdTrain
  rw [wp_bind]
  refine wp_postCode (by decide) fun p => ?_
  rw [wp_bind]
  refine wp_mono (wp_rdInit R hranks _) ?_ fun _ _ he => he
  rintro _ t ⟨hprogress, -⟩
  rw [wp_bind, wp_modifyVars, wp_bind]
  -- the first search does not end
  have hprogress' : R.Progress [] { t.vars with finalDelay := fun _ => 0, numRanksEnabled := 0 } :=
    ⟨hprogress.x, hprogress.y, hprogress.bottom_lt, hprogress.top_lt⟩
  have hready : RdRun.Ready sideB sideL R.P R.P.ranks _ := hprogress'.ready (by constructor <;> decide)
  rw [hrs] at hready
  refine (wp_bind _ _).mpr ?_
  rw [wp_bind]
  refine wp_postCode (by decide) fun q => ?_
  rw [TrainParams.eachRank, hrs]
  refine (wp_bind _ _).mpr ?_
  unfold rdSearch
  rw [wp_bind]
  refine wp_mono (hready.head.wp_rdStartLanes R.P.lanes (List.Subset.refl _) _ rfl) ?_ fun _ _ he => he
  rintro _ u -
  exact wp_mono (wp_testUntilPass_unattributed hfails hlanes R.fuel u) (fun _ _ h => h.elim)
    fun _ _ he => he

theorem rdTrain_not_collapsed {R : RdRun} (hranks : R.P.ranks ≠ [])
    (hfails : ∀ n, TestFails R.errors n)
    (hlanes : ∀ n, ∀ bl ∈ R.P.lanes, ¬ LaneFails R.P (testResult R.errors n) bl) (s : RdTraining) :
    ¬ wp (rdTrain R.P R.errors R.fuel) (fun _ _ => True) RdCollapsed s := by
  intro h
  have hendless := wp_rdTrain_unattributed hranks hfails hlanes s
  refine not_wp_false (wp_mono (wp_and h hendless) (fun _ _ hq => hq.2) fun _ _ he => ?_)
  exact absurd (he.1.1.symm.trans he.2) nofun

theorem rdTrain_not_inside :
    ((rdTrain oneRank crossedErrors 100 untrained).value? = some () ∧
      (getRdqs (rdTrain oneRank crossedErrors 100 untrained).state.phy 0 0 0).toNat <
        (rdTrain oneRank crossedErrors 100 untrained).state.vars.xCoordinate (sideL, sideT, 0, 0, 0)) ∧
      ∀ fuel, ¬ wp (rdTrain oneRank (fun _ => 0x8000) fuel) (fun _ _ => True) RdCollapsed untrained := by
  have hranks : oneRank.ranks ≠ [] := by decide
  have hfails : TestFails (fun _ => 0x8000) 0 := by decide
  have hlanes : ∀ bl ∈ oneRank.lanes, ¬ LaneFails oneRank (testResult (fun _ => 0x8000) 0) bl := by decide
  refine ⟨by decide +kernel, fun fuel => ?_⟩
  exact rdTrain_not_collapsed (R := ⟨oneRank, fun _ => 0x8000, fuel, 0⟩) hranks (fun _ => hfails)
    (fun _ => hlanes) untrained

/-! ## The width of the eyes -/

def EyesOpen (P : TrainParams) (a : RdVars) : Prop :=
  ∀ r ∈ P.ranks, ∀ bl ∈ P.lanes,
    (∀ sideY, a.xCoordinate (sideL, sideY, r.1, r.2, bl) + minRdqsEye ≤
      a.xCoordinate (sideR, sideY, r.1, r.2, bl)) ∧
    ∀ sideX, a.yCoordinate (sideX, sideB, r.1, bl) + minVrefEye ≤ a.yCoordinate (sideX, sideT, r.1, bl)

def RdRun.EyesFit (R : RdRun) : Prop :=
  ∀ q ∈ R.P.ranks.zipIdx, ∀ bl ∈ R.P.lanes,
    (∀ sideY, R.xMoved sideY sideL q.2 bl + R.xMoved sideY sideR q.2 bl ≤ 53) ∧
    ∀ sideX, R.yMoved sideB sideX bl + R.yMoved sideT sideX bl ≤ 53

theorem Found.eyesOpen_iff {R : RdRun} {t : RdTraining} (h : Found R t) :
    EyesOpen R.P t.vars ↔ R.EyesFit := by
  have hx : ∀ q ∈ R.P.ranks.zipIdx, ∀ bl ∈ R.P.lanes, ∀ sideY,
      (t.vars.xCoordinate (sideL, sideY, q.1.1, q.1.2, bl) + minRdqsEye ≤
        t.vars.xCoordinate (sideR, sideY, q.1.1, q.1.2, bl) ↔
        R.xMoved sideY sideL q.2 bl + R.xMoved sideY sideR q.2 bl ≤ 53) := by
    intro q hq bl hbl sideY
    obtain ⟨hlt, -, -, -⟩ := limits_x h.progress (List.fst_mem_of_mem_zipIdx hq) hbl sideY
    rw [progress_x h.progress sideY sideL hq hbl, progress_x h.progress sideY sideR hq hbl] at hlt ⊢
    change R.xMoved sideY sideL q.2 bl < 63 - R.xMoved sideY sideR q.2 bl at hlt
    show R.xMoved sideY sideL q.2 bl + 10 ≤ 63 - R.xMoved sideY sideR q.2 bl ↔ _
    omega
  have hy : ∀ bl ∈ R.P.lanes, ∀ ch sideX,
      (t.vars.yCoordinate (sideX, sideB, ch, bl) + minVrefEye ≤
        t.vars.yCoordinate (sideX, sideT, ch, bl) ↔
        R.yMoved sideB sideX bl + R.yMoved sideT sideX bl ≤ 53) := by
    intro bl hbl ch sideX
    obtain ⟨hlt, -⟩ := limits_y h.progress hbl sideX
    rw [RdRun.channel_eq ch]
    rw [progress_y h.progress sideB sideX hbl, progress_y h.progress sideT sideX hbl] at hlt ⊢
    change R.yMoved sideB sideX bl < 63 - R.yMoved sideT sideX bl at hlt
    show R.yMoved sideB sideX bl + 10 ≤ 63 - R.yMoved sideT sideX bl ↔ _
    omega
  constructor
  · intro hopen q hq bl hbl
    obtain ⟨hox, hoy⟩ := hopen q.1 (List.fst_mem_of_mem_zipIdx hq) bl hbl
    exact ⟨fun sideY => (hx q hq bl hbl sideY).mp (hox sideY),
      fun sideX => (hy bl hbl q.1.1 sideX).mp (hoy sideX)⟩
  · intro hfit r hr bl hbl
    obtain ⟨k, hk⟩ := RdRun.exists_mem_zipIdx hr
    obtain ⟨hfx, hfy⟩ := hfit (r, k) hk bl hbl
    exact ⟨fun sideY => (hx (r, k) hk bl hbl sideY).mpr (hfx sideY),
      fun sideX => (hy bl hbl r.1 sideX).mpr (hfy sideX)⟩

theorem rdTrain_eyesOpen_iff (P : TrainParams) (errors : Nat → BitVec 32) (fuel : Nat)
    (s : RdTraining) :
    wp (rdTrain P errors fuel)
      (fun _ t => EyesOpen P t.vars ↔ (RdRun.mk P errors fuel s.tests).EyesFit) (fun _ _ => True) s := by
  by_cases hranks : P.ranks = []
  · refine wp_mono (wp_rdTrain_nil hranks errors fuel s) ?_ fun _ _ he => he
    rintro _ t -
    simp [EyesOpen, RdRun.EyesFit, hranks]
  · exact wp_mono (wp_rdTrain ⟨P, errors, fuel, s.tests⟩ hranks rfl) (fun _ _ h => h.eyesOpen_iff)
      fun _ _ _ => trivial

theorem rdTrain_narrow :
    (rdTrain oneRank narrowErrors 100 untrained).value? = some () ∧
      ¬ EyesOpen oneRank (rdTrain oneRank narrowErrors 100 untrained).state.vars := by
  refine ⟨by decide +kernel, fun h => ?_⟩
  have hwidth := (h (0, 0) (by decide) 0 (by decide)).1 sideB
  revert hwidth
  decide +kernel

end Quark.MemoryInit
