import Quark.CapsuleSecurity.FirstPass

/-!
# Proofs: what the first pass leaves

A first pass that ends without an error has seen every hint before the terminator, and it has marked
exactly the fixed areas that they target.
-/

namespace Quark.CapsuleSecurity

open Machine MfhLib

def hintsOf (table : List UpdateHint) : List UpdateHint := table.takeWhile fun hint => hint.size ≠ 0

theorem notedPriorities_append (noted : List UpdateHint) (hint : UpdateHint) :
    notedPriorities (noted ++ [hint]) = (notedPriorities noted).map fun priorityEle =>
      if priorityEle.fixedAddress ∧ hint.targetAddr = priorityEle.flashAddress then
        { priorityEle with imageLimit := 1 }
      else priorityEle := by
  unfold notedPriorities
  rw [List.map_map]
  refine List.map_congr_left fun priorityEle _ => ?_
  dsimp only [Function.comp]
  by_cases h : priorityEle.fixedAddress = true ∧ hint.targetAddr = priorityEle.flashAddress
  · rw [if_pos h, if_pos ⟨h.1, hint, List.mem_append_right _ List.mem_cons_self, h.2⟩]
  · rw [if_neg h]
    congr 1
    refine if_congr (and_congr_right fun hfixed => ?_) rfl rfl
    constructor
    · rintro ⟨x, hx, heq⟩
      rcases List.mem_append.mp hx with hx | hx
      · exact ⟨x, hx, heq⟩
      · rw [List.mem_singleton.mp hx] at heq
        exact absurd ⟨hfixed, heq⟩ h
    · rintro ⟨x, hx, heq⟩
      exact ⟨x, List.mem_append_left _ hx, heq⟩

theorem fixedAreas_distinct : mPriorityHintList.Pairwise fun a b =>
    a.fixedAddress = true → b.fixedAddress = true → a.flashAddress ≠ b.flashAddress := by
  decide

theorem notedPriorities_distinct (noted : List UpdateHint) :
    (notedPriorities noted).Pairwise fun a b =>
      a.fixedAddress = true → b.fixedAddress = true → a.flashAddress ≠ b.flashAddress :=
  List.pairwise_map.mpr fixedAreas_distinct

theorem set_found {priorities : List HintPriority} {hint : UpdateHint} {i : Nat}
    {priorityEle : HintPriority}
    (hdistinct : priorities.Pairwise fun a b =>
      a.fixedAddress = true → b.fixedAddress = true → a.flashAddress ≠ b.flashAddress)
    (hfind : Intake.checkFixedInPriorityList priorities hint = some i)
    (hget : priorities[i]? = some priorityEle) :
    priorities.set i { priorityEle with imageLimit := 1 } = priorities.map fun priorityEle =>
      if priorityEle.fixedAddress ∧ hint.targetAddr = priorityEle.flashAddress then
        { priorityEle with imageLimit := 1 }
      else priorityEle := by
  induction priorities generalizing i with
  | nil => cases hget
  | cons first priorities ih =>
    obtain ⟨hfirst, hrest⟩ := List.pairwise_cons.mp hdistinct
    unfold Intake.checkFixedInPriorityList at hfind
    rw [List.findIdx?_cons] at hfind
    by_cases h : first.fixedAddress = true ∧ hint.targetAddr = first.flashAddress
    · rw [if_pos (decide_eq_true h)] at hfind
      injection hfind with hi
      subst hi
      injection hget with hele
      subst hele
      rw [List.map_cons, if_pos h, List.set_cons_zero]
      congr 1
      refine (List.map_id priorities).symm.trans (List.map_congr_left fun other hother => ?_)
      rw [if_neg fun ho => hfirst other hother h.1 ho.1 (h.2.symm.trans ho.2)]
      rfl
    · rw [if_neg (by simpa using h)] at hfind
      obtain ⟨j, hj, rfl⟩ := Option.map_eq_some_iff.mp hfind
      rw [List.map_cons, if_neg h, List.set_cons_succ, ih hrest hj hget]

namespace Intake

variable {σ : Type} {I : Intake} {hint : UpdateHint} {l l' : Locals} {noted : List UpdateHint}
  {s s' : σ}

theorem noteMfh_keeps (hint : UpdateHint) (l : Locals) :
    (I.noteMfh hint l).1.priorities = l.priorities ∧
      (I.noteMfh hint l).1.updateHintCount = l.updateHintCount := by
  unfold noteMfh
  split
  · dsimp only
    split <;> split <;> exact ⟨rfl, rfl⟩
  · exact ⟨rfl, rfl⟩

theorem isError_of_noteMfh (h : (I.noteMfh hint l).2 = false) :
    (I.noteMfh hint l).1.status.isError = true := by
  unfold noteMfh at h ⊢
  split at h
  case isTrue htarget =>
    rw [if_pos htarget]
    dsimp only at h ⊢
    split at h
    case isTrue hnone =>
      rw [if_pos hnone]
      rfl
    case isFalse => cases h
  case isFalse => cases h

theorem noteFixed_noted (h : (noteFixed hint l).2 = true) (hl : l.priorities = notedPriorities noted) :
    (noteFixed hint l).1.priorities = notedPriorities (noted ++ [hint]) ∧
      (noteFixed hint l).1.updateHintCount = l.updateHintCount := by
  rw [notedPriorities_append, ← hl]
  have hdistinct := notedPriorities_distinct noted
  rw [← hl] at hdistinct
  unfold noteFixed at h ⊢
  cases hfind : checkFixedInPriorityList l.priorities hint with
  | none =>
    refine ⟨(List.map_id l.priorities).symm.trans (List.map_congr_left fun other hother => ?_), rfl⟩
    have hno := List.findIdx?_eq_none_iff.mp hfind other hother
    rw [if_neg (by simpa using hno)]
    rfl
  | some i =>
    simp only [hfind] at h
    cases hget : l.priorities[i]? with
    | none =>
      obtain ⟨hlt, -⟩ := List.findIdx?_eq_some_iff_getElem.mp hfind
      rw [List.getElem?_eq_getElem hlt] at hget
      cases hget
    | some priorityEle =>
      simp only [hget] at h ⊢
      split at h
      case isTrue => cases h
      case isFalse hlimit =>
        rw [if_neg hlimit]
        exact ⟨set_found hdistinct hfind hget, rfl⟩

theorem isError_of_noteFixed (h : (noteFixed hint l).2 = false) :
    (noteFixed hint l).1.status.isError = true := by
  unfold noteFixed at h ⊢
  split at h
  case h_1 => cases h
  case h_2 i hfind =>
    split at h
    case h_1 => cases h
    case h_2 priorityEle hget =>
      split at h
      case isTrue hlimit =>
        rw [if_pos hlimit]
        rfl
      case isFalse => cases h

theorem notePlatformData_ret {goOn : Bool} (h : I.notePlatformData hint l s = .ret (l', goOn) s') :
    l'.priorities = l.priorities ∧ l'.updateHintCount = l.updateHintCount ∧
      (goOn = false → l'.status.isError = true) := by
  unfold notePlatformData at h
  split at h
  case isTrue =>
    obtain ⟨status, u, -, hret⟩ := Exec.ret_of_bind h
    injection hret with hret _
    injection hret with hl hgo
    subst hl
    refine ⟨rfl, rfl, fun hfalse => ?_⟩
    subst hfalse
    simpa using hgo
  case isFalse =>
    injection h with hret _
    injection hret with hl hgo
    subst hl hgo
    exact ⟨rfl, rfl, nofun⟩

theorem firstPassHint_ret {goOn : Bool} (hl : l.priorities = notedPriorities noted)
    (h : I.firstPassHint hint l s = .ret (l', goOn) s') :
    (goOn = true → l'.priorities = notedPriorities (noted ++ [hint]) ∧
      l'.updateHintCount = l.updateHintCount + 1) ∧
    (goOn = false → l'.status.isError = true) := by
  unfold firstPassHint at h
  split at h
  · injection h with hret _
    injection hret with hl' hgo
    subst hl' hgo
    exact ⟨nofun, fun _ => rfl⟩
  · dsimp only at h
    obtain ⟨hmfh, hmfhCount⟩ := I.noteMfh_keeps hint l
    split at h
    case isTrue hgo =>
      injection h with hret _
      injection hret with hl' hgo'
      subst hl' hgo'
      exact ⟨nofun, fun _ => isError_of_noteMfh hgo⟩
    case isFalse =>
      split at h
      case isTrue hgo =>
        injection h with hret _
        injection hret with hl' hgo'
        subst hl' hgo'
        exact ⟨nofun, fun _ => isError_of_noteFixed hgo⟩
      case isFalse hgo =>
        obtain ⟨hnoted, hcount⟩ := noteFixed_noted (eq_true_of_ne_false hgo) (hmfh.trans hl)
        obtain ⟨⟨m, goOnData⟩, u, hdata, hret⟩ := Exec.ret_of_bind h
        obtain ⟨hpri, hdataCount, herr⟩ := notePlatformData_ret hdata
        dsimp only at hret hpri hdataCount
        split at hret
        case isTrue hfalse =>
          injection hret with hret _
          injection hret with hl' hgo'
          subst hl' hgo'
          exact ⟨nofun, fun _ => herr hfalse⟩
        case isFalse =>
          injection hret with hret _
          injection hret with hl' hgo'
          subst hl' hgo'
          exact ⟨fun _ => ⟨hpri.trans hnoted, by rw [hdataCount, hcount, hmfhCount]⟩, nofun⟩

theorem firstPassHints_ret {table : List UpdateHint} (hl : l.priorities = notedPriorities noted)
    (h : I.firstPassHints table l s = .ret l' s') (hok : l'.status.isError = false) :
    l'.priorities = notedPriorities (noted ++ hintsOf table) ∧
      l'.updateHintCount = l.updateHintCount + (hintsOf table).length := by
  induction table generalizing l s noted with
  | nil =>
    injection h with hret _
    subst hret
    exact ⟨by rw [hl]; simp [hintsOf], rfl⟩
  | cons hint table ih =>
    unfold firstPassHints at h
    split at h
    case isTrue hsize =>
      injection h with hret _
      subst hret
      have hnil : hintsOf (hint :: table) = [] := by simp [hintsOf, hsize]
      rw [hnil, List.append_nil]
      exact ⟨hl, rfl⟩
    case isFalse hsize =>
      have hcons : hintsOf (hint :: table) = hint :: hintsOf table := by simp [hintsOf, hsize]
      obtain ⟨⟨m, goOn⟩, u, hhint, hrest⟩ := Exec.ret_of_bind h
      obtain ⟨hgo, hstop⟩ := firstPassHint_ret hl hhint
      cases goOn with
      | false =>
        injection hrest with hret _
        subst hret
        rw [hstop rfl] at hok
        cases hok
      | true =>
        obtain ⟨hnoted, hcount⟩ := hgo rfl
        obtain ⟨hpri, hcount'⟩ := ih hnoted hrest
        rw [hcons, hpri, hcount', hcount, List.append_assoc, List.length_cons]
        exact ⟨rfl, by omega⟩

theorem firstPass_ret {table : List UpdateHint} (h : I.firstPass table s = .ret l s')
    (hok : l.status.isError = false) :
    l.priorities = notedPriorities (hintsOf table) ∧ l.updateHintCount = (hintsOf table).length := by
  unfold firstPass at h
  obtain ⟨m, u, hpass, hrest⟩ := Exec.ret_of_bind h
  have hm : m = l := by
    split at hrest
    · injection hrest
    · split at hrest
      · injection hrest with hret _
        subst hret
        cases hok
      · split at hrest
        · injection hrest with hret _
          subst hret
          cases hok
        · injection hrest
  subst hm
  have hstart : (mPriorityHintList.map fun priorityEle => { priorityEle with imageLimit := 0 }) =
      notedPriorities [] :=
    List.map_congr_left fun priorityEle _ => by simp
  obtain ⟨hpri, hcount⟩ := firstPassHints_ret hstart hpass hok
  exact ⟨hpri, hcount.trans (Nat.zero_add _)⟩

end Intake

/-! ## Proofs: the order of the hints

The loop of `MoveUpNextProrityElement` swaps a hint that is wanted with the first one passed over, which is
what a promotion does. The third pass is one promotion after the other, on what is left of the table.
-/

theorem swapHint_split (front passed rest : List UpdateHint) (hint : UpdateHint) :
    swapHint (front ++ (passed ++ hint :: rest)) front.length (front.length + passed.length) =
      front ++ hint :: (Promotion.rotate passed ++ rest) := by
  unfold swapHint
  cases passed with
  | nil => simp [Promotion.rotate]
  | cons first passed => simp [Promotion.rotate]

/-! ## One priority element -/

section Element

variable {σ : Type} {rd : Mem} {priorityEle : HintPriority} {s : σ}
  {front moved passed hints tail : List UpdateHint} {hint : UpdateHint}

/-- The loop of `MoveUpNextProrityElement` after it has promoted `moved` and gone by `passed`. -/
def moveUpHead (priorityEle : HintPriority) (front moved passed rest : List UpdateHint) : MoveLocals where
  hints := front ++ (moved ++ (passed ++ rest))
  index := moved.length + passed.length
  hintPosIdx := moved.length
  mfhIndex := if priorityEle.fixedAddress then 0 else moved.length

theorem getElem?_moveUpHead :
    (moveUpHead priorityEle front moved passed (hint :: hints)).hints[
      front.length + (moved.length + passed.length)]? = some hint := by
  simp [moveUpHead]

theorem swapHint_moveUpHead :
    swapHint (moveUpHead priorityEle front moved passed (hint :: hints)).hints
        (front.length + moved.length) (front.length + (moved.length + passed.length)) =
      front ++ ((moved ++ [hint]) ++ (Promotion.rotate passed ++ hints)) := by
  have h := swapHint_split (front ++ moved) passed hints hint
  rw [List.length_append, List.append_assoc, Nat.add_assoc] at h
  simpa [moveUpHead] using h

theorem moveUpBody_pass (front hints : List UpdateHint) {hintsLeft : Nat} (hleft : moved.length + passed.length < hintsLeft)
    (hroom : moved.length < priorityEle.imageLimit)
    (hwant : ¬ priorityEle.wants rd moved.length hint = true) :
    moveUpBody rd priorityEle front.length hintsLeft
        (moveUpHead priorityEle front moved passed (hint :: hints)) s =
      .ret (.inl (moveUpHead priorityEle front moved (passed ++ [hint]) hints)) s := by
  have hnext : { moveUpHead priorityEle front moved passed (hint :: hints) with
      index := moved.length + passed.length + 1 } =
        moveUpHead priorityEle front moved (passed ++ [hint]) hints := by
    simp [moveUpHead, Nat.add_assoc]
  unfold moveUpBody
  rw [if_pos ⟨hleft, hroom⟩, show (moveUpHead priorityEle front moved passed (hint :: hints)).index =
    moved.length + passed.length from rfl, getElem?_moveUpHead]
  dsimp only
  rw [hnext]
  unfold HintPriority.wants at hwant
  by_cases hfixed : priorityEle.fixedAddress = true
  · rw [if_pos hfixed] at hwant ⊢
    rw [if_neg (by simpa using hwant)]
    rfl
  · rw [if_neg hfixed] at hwant ⊢
    cases hlist : priorityEle.mfhItemList with
    | none => rfl
    | some mfhItemList =>
      rw [hlist] at hwant
      dsimp only
      rw [if_neg (by simpa [moveUpHead, hfixed] using fun _ => by simpa using hwant)]
      rfl

theorem moveUpBody_fixed (front hints : List UpdateHint) {hintsLeft : Nat} (hleft : moved.length + passed.length < hintsLeft)
    (hroom : moved.length < priorityEle.imageLimit) (hfixed : priorityEle.fixedAddress = true)
    (hwant : priorityEle.wants rd moved.length hint = true) :
    ∃ l, moveUpBody rd priorityEle front.length hintsLeft
        (moveUpHead priorityEle front moved passed (hint :: hints)) s = .ret (.inr l) s ∧
      l.hintPosIdx = (moved ++ [hint]).length ∧
      l.hints = front ++ ((moved ++ [hint]) ++ (Promotion.rotate passed ++ hints)) := by
  unfold HintPriority.wants at hwant
  rw [if_pos hfixed] at hwant
  refine ⟨{ moveUpHead priorityEle front moved passed (hint :: hints) with
    hints := front ++ ((moved ++ [hint]) ++ (Promotion.rotate passed ++ hints))
    hintPosIdx := moved.length + 1 }, ?_, by simp, rfl⟩
  unfold moveUpBody
  rw [if_pos ⟨hleft, hroom⟩, show (moveUpHead priorityEle front moved passed (hint :: hints)).index =
    moved.length + passed.length from rfl, getElem?_moveUpHead]
  dsimp only
  rw [if_pos hfixed, if_pos (by simpa using hwant),
    show (moveUpHead priorityEle front moved passed (hint :: hints)).hintPosIdx = moved.length from rfl,
    swapHint_moveUpHead]
  rfl

theorem moveUpBody_take (front hints : List UpdateHint) {hintsLeft : Nat} (hleft : moved.length + passed.length < hintsLeft)
    (hroom : moved.length < priorityEle.imageLimit) (hfixed : ¬ priorityEle.fixedAddress = true)
    (hwant : priorityEle.wants rd moved.length hint = true) :
    moveUpBody rd priorityEle front.length hintsLeft
        (moveUpHead priorityEle front moved passed (hint :: hints)) s =
      .ret (.inl (moveUpHead priorityEle front (moved ++ [hint]) (Promotion.rotate passed) hints)) s := by
  have hrotate : (Promotion.rotate passed).length = passed.length :=
    (Promotion.rotate_perm passed).length_eq
  have hnext : moveUpHead priorityEle front (moved ++ [hint]) (Promotion.rotate passed) hints =
      ⟨front ++ ((moved ++ [hint]) ++ (Promotion.rotate passed ++ hints)),
        moved.length + passed.length + 1, moved.length + 1, moved.length + 1⟩ := by
    simp [moveUpHead, hrotate, hfixed]
    omega
  unfold HintPriority.wants at hwant
  rw [if_neg hfixed] at hwant
  unfold moveUpBody
  rw [if_pos ⟨hleft, hroom⟩, show (moveUpHead priorityEle front moved passed (hint :: hints)).index =
    moved.length + passed.length from rfl, getElem?_moveUpHead]
  dsimp only
  rw [if_neg hfixed]
  cases hlist : priorityEle.mfhItemList with
  | none =>
    rw [hlist] at hwant
    cases hwant
  | some mfhItemList =>
    rw [hlist] at hwant
    dsimp only
    rw [if_pos (by simpa [moveUpHead, hfixed, hroom] using hwant),
      show (moveUpHead priorityEle front moved passed (hint :: hints)).hintPosIdx = moved.length from rfl,
      swapHint_moveUpHead, hnext]
    simp only [moveUpHead, if_neg hfixed]
    rfl

theorem loop_moveUp (rd : Mem) (s : σ) (front moved passed hints tail : List UpdateHint)
    (hmoved : priorityEle.fixedAddress = true → moved = []) :
    ∃ l : MoveLocals,
      Exec.loop (hints.length + 1)
          (moveUpBody rd priorityEle front.length (moved.length + passed.length + hints.length))
          (moveUpHead priorityEle front moved passed (hints ++ tail)) s = .ret l s ∧
        let r := Promotion.scan (priorityEle.wants rd) priorityEle.limit moved passed hints
        l.hintPosIdx = r.1.length ∧ l.hints = front ++ (r.1 ++ (r.2 ++ tail)) := by
  induction hints generalizing moved passed with
  | nil =>
    refine ⟨moveUpHead priorityEle front moved passed ([] ++ tail), Exec.loop_of_inr ?_ _, rfl, rfl⟩
    unfold moveUpBody
    rw [if_neg (by simp [moveUpHead])]
    rfl
  | cons hint hints ih =>
    have hleft : moved.length + passed.length <
        moved.length + passed.length + (hint :: hints).length := by simp
    have hlimit : moved.length < priorityEle.limit ↔ moved.length < priorityEle.imageLimit := by
      unfold HintPriority.limit
      by_cases hfixed : priorityEle.fixedAddress = true
      · rw [if_pos hfixed, hmoved hfixed]
        simp
      · rw [if_neg hfixed]
    unfold Promotion.scan
    by_cases hroom : moved.length < priorityEle.imageLimit
    · rw [if_pos (hlimit.mpr hroom)]
      by_cases hwant : priorityEle.wants rd moved.length hint = true
      · rw [if_pos hwant]
        by_cases hfixed : priorityEle.fixedAddress = true
        · obtain ⟨l, hbody, hpos, hhints⟩ := moveUpBody_fixed (s := s) front
            (hints ++ tail) hleft hroom hfixed hwant
          refine ⟨l, Exec.loop_of_inr hbody _, ?_⟩
          have hfull : Promotion.scan (priorityEle.wants rd) priorityEle.limit (moved ++ [hint])
              (Promotion.rotate passed) hints = (moved ++ [hint], Promotion.rotate passed ++ hints) := by
            cases hints with
            | nil => simp [Promotion.scan]
            | cons next hints =>
              unfold Promotion.scan
              rw [if_neg (by simp [HintPriority.limit, hfixed])]
          rw [hfull]
          exact ⟨hpos, by rw [hhints]; simp⟩
        · have hstep := moveUpBody_take (s := s) front (hints ++ tail) hleft hroom
            hfixed hwant
          have hcount : moved.length + passed.length + (hint :: hints).length =
              (moved ++ [hint]).length + (Promotion.rotate passed).length + hints.length := by
            have := (Promotion.rotate_perm passed).length_eq
            simp only [List.length_append, List.length_cons, List.length_nil]
            omega
          obtain ⟨l, hloop, h⟩ := ih (moved ++ [hint]) (Promotion.rotate passed)
            (fun h => absurd h hfixed)
          refine ⟨l, ?_, h⟩
          rw [← hloop, ← hcount]
          exact Exec.loop_of_inl hstep _
      · rw [if_neg hwant]
        have hstep := moveUpBody_pass (s := s) front (hints ++ tail) hleft hroom hwant
        have hcount : moved.length + passed.length + (hint :: hints).length =
            moved.length + (passed ++ [hint]).length + hints.length := by
          simp only [List.length_append, List.length_cons, List.length_nil]
          omega
        obtain ⟨l, hloop, h⟩ := ih moved (passed ++ [hint]) hmoved
        refine ⟨l, ?_, h⟩
        rw [← hloop, ← hcount]
        exact Exec.loop_of_inl hstep _
    · rw [if_neg (fun h => hroom (hlimit.mp h))]
      refine ⟨moveUpHead priorityEle front moved passed (hint :: hints ++ tail),
        Exec.loop_of_inr ?_ _, rfl, by simp [moveUpHead]⟩
      unfold moveUpBody
      rw [if_neg (fun h => hroom h.2)]
      rfl

theorem moveUpNextPrority_eq {priorities : List HintPriority} {pos : Nat}
    (hele : priorities[nextPriorityPosition priorities pos]? = some priorityEle) :
    let r := Promotion.promote (priorityEle.wants rd) priorityEle.limit hints
    moveUpNextPrority rd priorities front.length hints.length pos (front ++ (hints ++ tail)) s =
      .ret (r.1.length, nextPriorityPosition priorities pos + 1, front ++ (r.1 ++ (r.2 ++ tail))) s := by
  obtain ⟨l, hloop, hpos, hhints⟩ := loop_moveUp rd s front [] [] hints tail
    (fun _ => rfl : priorityEle.fixedAddress = true → _)
  unfold moveUpNextPrority
  dsimp only
  rw [hele]
  dsimp only
  have hhead : moveUpHead priorityEle front [] [] (hints ++ tail) =
      ⟨front ++ (hints ++ tail), 0, 0, 0⟩ := by
    simp [moveUpHead]
  simp only [hhead, List.length_nil, Nat.zero_add] at hloop
  rw [Exec.bind_of_ret hloop, hpos, hhints]
  rfl

end Element

/-! ## All priority elements -/

section Elements

variable {rd : Mem}

theorem inPriorityOrder_cons (priorityEle : HintPriority) (priorities : List HintPriority)
    (hints : List UpdateHint) :
    inPriorityOrder rd (priorityEle :: priorities) hints =
      (Promotion.promote (priorityEle.wants rd) priorityEle.limit hints).1 ++
        inPriorityOrder rd priorities
          (Promotion.promote (priorityEle.wants rd) priorityEle.limit hints).2 :=
  List.append_assoc ..

theorem inPriorityOrder_append (priorities priorities' : List HintPriority) (hints : List UpdateHint) :
    inPriorityOrder rd (priorities ++ priorities') hints =
      (promoteAll rd priorities hints).1 ++
        inPriorityOrder rd priorities' (promoteAll rd priorities hints).2 := by
  induction priorities generalizing hints with
  | nil => rfl
  | cons priorityEle priorities ih =>
    rw [List.cons_append, inPriorityOrder_cons, ih, promoteAll, List.append_assoc]

theorem inPriorityOrder_perm (priorities : List HintPriority) (hints : List UpdateHint) :
    (inPriorityOrder rd priorities hints).Perm hints := by
  induction priorities generalizing hints with
  | nil => exact .refl _
  | cons priorityEle priorities ih =>
    rw [inPriorityOrder_cons]
    exact ((ih _).append_left _).trans (Promotion.promote_perm _ _ hints)

theorem inPriorityOrder_cons_of_none {priorityEle : HintPriority} (h : priorityEle.imageLimit = 0)
    (priorities : List HintPriority) (hints : List UpdateHint) :
    inPriorityOrder rd (priorityEle :: priorities) hints = inPriorityOrder rd priorities hints := by
  have hlimit : priorityEle.limit = 0 := by
    unfold HintPriority.limit
    rw [h, Nat.min_zero, ite_self]
  have hpromote : Promotion.promote (priorityEle.wants rd) priorityEle.limit hints = ([], hints) := by
    rw [hlimit]
    cases hints <;> simp [Promotion.promote, Promotion.scan]
  rw [inPriorityOrder_cons, hpromote]
  rfl

theorem inPriorityOrder_drop_findIdx (priorities : List HintPriority) (hints : List UpdateHint) :
    inPriorityOrder rd
        (priorities.drop (priorities.findIdx fun priorityEle => 0 < priorityEle.imageLimit)) hints =
      inPriorityOrder rd priorities hints := by
  induction priorities with
  | nil => rfl
  | cons priorityEle priorities ih =>
    rw [List.findIdx_cons]
    by_cases h : 0 < priorityEle.imageLimit
    · rw [decide_eq_true h]
      rfl
    · rw [decide_eq_false h, inPriorityOrder_cons_of_none (by omega)]
      exact ih

theorem inPriorityOrder_nextPriorityPosition (priorities : List HintPriority) (pos : Nat)
    (hints : List UpdateHint) :
    inPriorityOrder rd (priorities.drop (nextPriorityPosition priorities pos)) hints =
      inPriorityOrder rd (priorities.drop pos) hints := by
  unfold nextPriorityPosition
  rw [← List.drop_drop, inPriorityOrder_drop_findIdx]

theorem inPriorityOrder_of_length_le {hints : List UpdateHint} (h : hints.length ≤ 1)
    (priorities : List HintPriority) : inPriorityOrder rd priorities hints = hints := by
  have hperm := (inPriorityOrder_perm priorities hints : (inPriorityOrder rd priorities hints).Perm hints)
  match hints, h with
  | [], _ => exact List.perm_nil.mp hperm
  | [hint], _ => exact List.perm_singleton.mp hperm

end Elements

theorem loop_reorder {σ : Type} (C : Context) (priorities : List HintPriority) (tail : List UpdateHint)
    (s : σ) (n pos : Nat) (front hints : List UpdateHint) (hn : priorities.length - pos < n) :
    Exec.loop n (C.reorderBody priorities (front.length + hints.length))
        (pos, front.length, front ++ (hints ++ tail)) s =
      .ret (front ++ (inPriorityOrder C.rd (priorities.drop pos) hints ++ tail)) s := by
  induction n generalizing pos front hints with
  | zero => exact absurd hn (Nat.not_lt_zero _)
  | succ n ih =>
    by_cases hgo : pos < priorities.length ∧ front.length < front.length + hints.length - 1
    · obtain ⟨hpos, hmany⟩ := hgo
      rw [← inPriorityOrder_nextPriorityPosition]
      have hnext : pos ≤ nextPriorityPosition priorities pos := Nat.le_add_right ..
      have hbody : ∀ moved pos' table, moveUpNextPrority C.rd priorities front.length hints.length pos
          (front ++ (hints ++ tail)) s = .ret (moved, pos', table) s →
          C.reorderBody priorities (front.length + hints.length)
            (pos, front.length, front ++ (hints ++ tail)) s =
              .ret (.inl (pos', front.length + moved, table)) s := by
        intro moved pos' table hmove
        unfold Context.reorderBody
        dsimp only
        rw [if_pos ⟨hpos, hmany⟩, Nat.add_sub_cancel_left, Exec.bind_of_ret hmove]
        rfl
      cases hele : priorities[nextPriorityPosition priorities pos]? with
      | none =>
        have hend : priorities.length ≤ nextPriorityPosition priorities pos :=
          List.getElem?_eq_none_iff.mp hele
        have hmove : moveUpNextPrority C.rd priorities front.length hints.length pos
            (front ++ (hints ++ tail)) s =
            .ret (0, nextPriorityPosition priorities pos, front ++ (hints ++ tail)) s := by
          unfold moveUpNextPrority
          simp only [hele]
          rfl
        rw [Exec.loop_of_inl (hbody _ _ _ hmove)]
        exact ih _ front hints (by omega)
      | some priorityEle =>
        obtain ⟨hlt, hget⟩ := List.getElem?_eq_some_iff.mp hele
        let r := Promotion.promote (priorityEle.wants C.rd) priorityEle.limit hints
        have hlen : r.1.length + r.2.length = hints.length := by
          rw [← List.length_append]
          exact (Promotion.promote_perm _ _ hints).length_eq
        have h := ih (nextPriorityPosition priorities pos + 1) (front ++ r.1) r.2 (by omega)
        rw [Exec.loop_of_inl (hbody _ _ _ (moveUpNextPrority_eq hele)), List.drop_eq_getElem_cons hlt,
          hget, inPriorityOrder_cons]
        rw [List.length_append, Nat.add_assoc, hlen] at h
        simpa only [List.append_assoc] using h
    · have hsame : inPriorityOrder C.rd (priorities.drop pos) hints = hints := by
        by_cases hpos : pos < priorities.length
        · exact inPriorityOrder_of_length_le (by omega) _
        · rw [List.drop_eq_nil_of_le (by omega)]
          rfl
      rw [hsame]
      refine Exec.loop_of_inr ?_ _
      unfold Context.reorderBody
      dsimp only
      rw [if_neg hgo]
      rfl

theorem reorderTable_eq {σ : Type} (C : Context) (priorities : List HintPriority)
    (hints tail : List UpdateHint) (s : σ) :
    C.reorderTable priorities hints.length (hints ++ tail) s =
      .ret (inPriorityOrder C.rd (C.setMfhPriorities priorities) hints ++ tail) s := by
  have h := loop_reorder C (C.setMfhPriorities priorities) tail s
    ((C.setMfhPriorities priorities).length + 1) 0 [] hints (by omega)
  rw [List.length_nil, Nat.zero_add] at h
  exact h

/-! ## Proofs: the priorities

The recovery image comes first, then the other fixed areas, then the stage 1 images as far as the MFH lists
them one behind the other.
-/

section

variable {C : Context} {hints table : List UpdateHint}

theorem take_length_hintsOf (table : List UpdateHint) :
    table.take (hintsOf table).length = hintsOf table :=
  List.prefix_iff_eq_take.mp (List.takeWhile_prefix _) |>.symm

theorem hintsOf_append_drop (table : List UpdateHint) :
    hintsOf table ++ table.drop (hintsOf table).length = table := by
  conv_rhs => rw [← List.take_append_drop (hintsOf table).length table]
  rw [take_length_hintsOf]

theorem reorderTable_of_firstPass {σ : Type} {I : Intake} (C : Context) {l : Intake.Locals} {s s' : σ}
    (h : I.firstPass table s = .ret l s') (hok : l.status.isError = false) (t : σ) :
    C.reorderTable l.priorities l.updateHintCount table t =
      .ret (inPriorityOrder C.rd (C.setMfhPriorities (notedPriorities (hintsOf table))) (hintsOf table) ++
        table.drop (hintsOf table).length) t := by
  obtain ⟨hpri, hcount⟩ := Intake.firstPass_ret h hok
  have heq := reorderTable_eq C (notedPriorities (hintsOf table)) (hintsOf table)
    (table.drop (hintsOf table).length) t
  rw [hintsOf_append_drop] at heq
  rw [hpri, hcount]
  exact heq

theorem setMfhPriorities_noted (C : Context) (hints : List UpdateHint) :
    ∃ stage2, C.setMfhPriorities (notedPriorities hints) =
      (notedPriorities hints).filter (·.fixedAddress) ++
        [⟨0, false, C.mStage1MfhList.length, typeFwStage1Signed, C.mStage1MfhList.head?⟩, stage2] := by
  by_cases h : C.mStage2MfhItem.isSome = true
  · exact ⟨⟨0, false, 1, typeFwStage2Signed, C.mStage2MfhItem⟩, by
      simp [Context.setMfhPriorities, notedPriorities, mPriorityHintList, h, typeInvalid,
        typeFwStage1Signed, typeFwStage2Signed]⟩
  · exact ⟨⟨0, false, 0, typeFwStage2Signed, none⟩, by
      simp [Context.setMfhPriorities, notedPriorities, mPriorityHintList, h, typeInvalid,
        typeFwStage1Signed, typeFwStage2Signed]⟩

/-! ## The recovery image -/

theorem head?_inPriorityOrder
    (h : ∃ hint ∈ hints, hint.targetAddr = pcdFlashFvFixedStage1AreaBase) :
    (inPriorityOrder C.rd (C.setMfhPriorities (notedPriorities hints)) hints).head?.map
      UpdateHint.targetAddr = some pcdFlashFvFixedStage1AreaBase := by
  let recovery : HintPriority := ⟨pcdFlashFvFixedStage1AreaBase, true, 1, typeInvalid, none⟩
  obtain ⟨rest, hrest⟩ : ∃ rest, C.setMfhPriorities (notedPriorities hints) = recovery :: rest := by
    refine ⟨C.setMfhPriorities (notedPriorities hints).tail, ?_⟩
    have hhead : notedPriorities hints = recovery :: (notedPriorities hints).tail := by
      simp only [notedPriorities, mPriorityHintList, List.map_cons, List.tail_cons]
      rw [if_pos ⟨trivial, h⟩]
    conv_lhs => rw [hhead]
    rfl
  have hwants : recovery.wants C.rd =
      fun _ (hint : UpdateHint) => decide (recovery.flashAddress = hint.targetAddr) := by
    funext k hint
    rfl
  obtain ⟨hint, hmem, htarget⟩ := h
  obtain ⟨found, hfound, hpromoted⟩ :=
    @Promotion.exists_promoted _ hints (fun hint : UpdateHint => recovery.flashAddress = hint.targetAddr)
      ⟨hint, hmem, by simp [recovery, htarget]⟩
  rw [hrest, inPriorityOrder_cons, hwants, show recovery.limit = 1 from rfl, hpromoted]
  simpa using (of_decide_eq_true hfound).symm

/-- On a secure SKU the third pass permutes the hints of the table, leaves what stands behind them, and
puts a hint at the recovery image first. -/
theorem reorder_permutes_recovery_first {σ : Type} (I : Intake) (C : Context) (table : List UpdateHint)
    {l : Intake.Locals} {s s' : σ} (h : I.firstPass table s = .ret l s')
    (hok : l.status.isError = false) (t : σ) :
    ∃ hints, C.reorderTable l.priorities l.updateHintCount table t =
        .ret (hints ++ table.drop (hintsOf table).length) t ∧
      hints.Perm (hintsOf table) ∧
      ((∃ hint ∈ hintsOf table, hint.targetAddr = pcdFlashFvFixedStage1AreaBase) →
        hints.head?.map UpdateHint.targetAddr = some pcdFlashFvFixedStage1AreaBase) :=
  ⟨inPriorityOrder C.rd (C.setMfhPriorities (notedPriorities (hintsOf table))) (hintsOf table),
    reorderTable_of_firstPass C h hok t, inPriorityOrder_perm _ _, head?_inPriorityOrder⟩

theorem reorder_permutes_recovery_first_sample :
    ∃ l, sampleIntake.firstPass (sampleTable 0xFFD00000 pcdFlashFvFixedStage1AreaBase) () = .ret l () ∧
      ∃ hints, sampleChecks.reorderTable l.priorities l.updateHintCount
          (sampleTable 0xFFD00000 pcdFlashFvFixedStage1AreaBase) () = .ret (hints ++ [⟨0, 0, 0, 0⟩]) () ∧
        hints.head?.map UpdateHint.targetAddr = some pcdFlashFvFixedStage1AreaBase := by
  let l : Intake.Locals := ⟨.success, none, 0,
    notedPriorities (hintsOf (sampleTable 0xFFD00000 pcdFlashFvFixedStage1AreaBase)), false, none, 2⟩
  have hpass : sampleIntake.firstPass (sampleTable 0xFFD00000 pcdFlashFvFixedStage1AreaBase) () =
      .ret l () := by rfl
  refine ⟨l, hpass, ?_⟩
  obtain ⟨hints, hrun, -, hfirst⟩ := reorder_permutes_recovery_first sampleIntake sampleChecks
    (sampleTable 0xFFD00000 pcdFlashFvFixedStage1AreaBase) hpass rfl ()
  exact ⟨hints, hrun, hfirst (by decide)⟩

/-! ## Stage 1 images -/

theorem exists_wants_of_promoted {rd : Mem} {priorities : List HintPriority} {hint : UpdateHint}
    (h : hint ∈ (promoteAll rd priorities hints).1) :
    ∃ priorityEle ∈ priorities, ∃ k, priorityEle.wants rd k hint = true := by
  induction priorities generalizing hints with
  | nil => cases h
  | cons priorityEle priorities ih =>
    rw [promoteAll] at h
    rcases List.mem_append.mp h with h | h
    · obtain ⟨k, hk⟩ := List.mem_iff_getElem?.mp h
      exact ⟨priorityEle, List.mem_cons_self, k, Promotion.want_of_promoted hk⟩
    · obtain ⟨other, hmem, k, hwant⟩ := ih h
      exact ⟨other, List.mem_cons_of_mem _ hmem, k, hwant⟩

theorem targetsFixedArea_of_promoted {rd : Mem} {hint : UpdateHint}
    (h : hint ∈ (promoteAll rd ((notedPriorities hints).filter (·.fixedAddress)) hints).1) :
    TargetsFixedArea hint := by
  obtain ⟨priorityEle, hmem, k, hwant⟩ := exists_wants_of_promoted h
  obtain ⟨hmem, hfixed⟩ := List.mem_filter.mp hmem
  obtain ⟨compiled, hcompiled, rfl⟩ := List.mem_map.mp hmem
  refine ⟨compiled, hcompiled, hfixed, ?_⟩
  unfold HintPriority.wants at hwant
  rw [if_pos hfixed] at hwant
  exact of_decide_eq_true hwant

theorem stage1First_append {front back : List UpdateHint}
    (hfront : ∀ hint ∈ front, TargetsFixedArea hint ∨ C.targetsStage1 hint = true)
    (hback : ∀ hint ∈ back, C.targetsStage1 hint = false) : C.Stage1First (front ++ back) := by
  refine List.pairwise_append.mpr ⟨?_, ?_, ?_⟩
  · exact List.Pairwise.imp_of_mem (fun ha _ _ _ => hfront _ ha) (List.pairwise_of_forall fun _ _ => trivial)
  · refine List.Pairwise.imp_of_mem (fun _ hb _ hlater => ?_) (List.pairwise_of_forall fun _ _ => trivial)
    rw [hback _ hb] at hlater
    cases hlater
  · exact fun a ha _ _ _ => hfront a ha

theorem promote_stage1 (h : C.Stage1Run hints) :
    ∃ others, (Promotion.promote
          (HintPriority.wants C.rd
            ⟨0, false, C.mStage1MfhList.length, typeFwStage1Signed, C.mStage1MfhList.head?⟩)
          C.mStage1MfhList.length hints).1 = hints.filter C.targetsStage1 ++ others ∧
      ∀ hint ∈ others ++ (Promotion.promote
          (HintPriority.wants C.rd
            ⟨0, false, C.mStage1MfhList.length, typeFwStage1Signed, C.mStage1MfhList.head?⟩)
          C.mStage1MfhList.length hints).2, C.targetsStage1 hint = false := by
  have hwants : ∀ k first (hint : UpdateHint), C.mStage1MfhList.head? = some first →
      (HintPriority.wants C.rd
        ⟨0, false, C.mStage1MfhList.length, typeFwStage1Signed, C.mStage1MfhList.head?⟩ k hint = true ↔
        itemFlashAddress C.rd (u32 (first + sizeofMfhFlashItem * k)) = hint.targetAddr) := by
    intro k first hint hfirst
    simp [HintPriority.wants, hfirst]
  have hlen : (hints.filter C.targetsStage1).length ≤ C.mStage1MfhList.length := by
    by_contra hgt
    have hlast : C.mStage1MfhList.length < (hints.filter C.targetsStage1).length := by omega
    have := (h _ _ (List.getElem?_eq_getElem hlast)).1
    omega
  refine Promotion.scan_run (by simpa using hlen) (fun k hint hget => ?_) (fun k hk hint _ hwant => ?_)
    (fun _ hmem => by cases hmem)
  · obtain ⟨-, first, hfirst, haddr⟩ := h k hint hget
    rw [List.length_nil, Nat.zero_add]
    exact (hwants k first hint hfirst).mpr haddr
  · -- What is wanted has the target of a stage 1 hint.
    obtain ⟨-, first, hfirst, haddr⟩ := h k _ (List.getElem?_eq_getElem hk)
    rw [List.length_nil, Nat.zero_add] at hwant
    have hsame := ((hwants k first hint hfirst).mp hwant).symm.trans haddr
    have hstage1 := (List.mem_filter.mp (List.getElem_mem hk)).2
    unfold Context.targetsStage1 at hstage1 ⊢
    rwa [hsame]

/-- If the hints at stage 1 images follow the MFH from its first listed item on, they come before every
hint that targets neither a fixed area nor a stage 1 image. -/
theorem reorder_stage1_first {σ : Type} (I : Intake) (C : Context) (table : List UpdateHint)
    {l : Intake.Locals} {s s' : σ} (h : I.firstPass table s = .ret l s')
    (hok : l.status.isError = false) (hrun : C.Stage1Run (C.leftByFixedAreas (hintsOf table))) (t : σ) :
    ∃ hints, C.reorderTable l.priorities l.updateHintCount table t =
        .ret (hints ++ table.drop (hintsOf table).length) t ∧
      C.Stage1First hints := by
  refine ⟨_, reorderTable_of_firstPass C h hok t, ?_⟩
  obtain ⟨stage2, hsplit⟩ := setMfhPriorities_noted C (hintsOf table)
  obtain ⟨others, hmoved, hnone⟩ := promote_stage1 hrun
  unfold Context.leftByFixedAreas at hmoved hnone
  rw [hsplit, inPriorityOrder_append, inPriorityOrder_cons,
    show HintPriority.limit ⟨0, false, C.mStage1MfhList.length, typeFwStage1Signed,
      C.mStage1MfhList.head?⟩ = C.mStage1MfhList.length from rfl, hmoved, List.append_assoc,
    ← List.append_assoc]
  refine stage1First_append (fun hint hmem => ?_) (fun hint hmem => hnone hint ?_)
  · rcases List.mem_append.mp hmem with hmem | hmem
    · exact .inl (targetsFixedArea_of_promoted hmem)
    · exact .inr (List.mem_filter.mp hmem).2
  · rcases List.mem_append.mp hmem with hmem | hmem
    · exact List.mem_append_left _ hmem
    · exact List.mem_append_right _ ((inPriorityOrder_perm _ _).mem_iff.mp hmem)

theorem reorder_stage1_first_sample :
    ∃ l, sampleIntake.firstPass (sampleTable flashRegionRmuBaseAddress 0xFFD00000) () = .ret l () ∧
      ∃ hints, sampleChecks.reorderTable l.priorities l.updateHintCount
          (sampleTable flashRegionRmuBaseAddress 0xFFD00000) () = .ret (hints ++ [⟨0, 0, 0, 0⟩]) () ∧
        sampleChecks.Stage1First hints := by
  let l : Intake.Locals := ⟨.success, none, 0,
    notedPriorities (hintsOf (sampleTable flashRegionRmuBaseAddress 0xFFD00000)), false, none, 2⟩
  have hpass : sampleIntake.firstPass (sampleTable flashRegionRmuBaseAddress 0xFFD00000) () =
      .ret l () := by rfl
  refine ⟨l, hpass, ?_⟩
  refine reorder_stage1_first sampleIntake sampleChecks (sampleTable flashRegionRmuBaseAddress 0xFFD00000)
    hpass rfl (fun k hint hget => ?_) ()
  have hone : (sampleChecks.leftByFixedAreas (hintsOf (sampleTable flashRegionRmuBaseAddress
      0xFFD00000))).filter sampleChecks.targetsStage1 = [⟨0xFFD00000, 0x1000, 0x1100, 0⟩] := by rfl
  rw [hone] at hget
  cases k with
  | zero =>
    injection hget with hget
    subst hget
    exact ⟨by decide, sampleLayout.flashItemList, rfl, by rfl⟩
  | succ k => simp at hget

theorem variable_store_before_stage1 :
    ¬ ∀ (I : Intake) (C : Context) (table : List UpdateHint) (l : Intake.Locals), C.Collected →
      I.firstPass table () = .ret l () → l.status.isError = false →
      ∃ hints, C.reorderTable l.priorities l.updateHintCount table () =
          .ret (hints ++ table.drop (hintsOf table).length) () ∧
        C.OnlyRecoveryBefore hints := by
  intro hall
  let l : Intake.Locals := ⟨.success, none, 0,
    notedPriorities (hintsOf (sampleTable flashRegionBiosNvStorageBase 0xFFD00000)), true, none, 2⟩
  obtain ⟨hints, hrun, horder⟩ := hall sampleIntake sampleChecks
    (sampleTable flashRegionBiosNvStorageBase 0xFFD00000) l (fun _ => by rfl) (by rfl) rfl
  have hreal : sampleChecks.reorderTable
      (notedPriorities (hintsOf (sampleTable flashRegionBiosNvStorageBase 0xFFD00000))) 2
      (sampleTable flashRegionBiosNvStorageBase 0xFFD00000) () =
      .ret (sampleTable flashRegionBiosNvStorageBase 0xFFD00000) () := by rfl
  have hsame := hrun.symm.trans hreal
  injection hsame with hsame _
  have hhints : hints = (sampleTable flashRegionBiosNvStorageBase 0xFFD00000).take 2 :=
    (List.append_cancel_right hsame : hints = _)
  rw [hhints] at horder
  have hfirst := List.rel_of_pairwise_cons horder List.mem_cons_self (by decide)
  revert hfirst
  decide

end

end Quark.CapsuleSecurity
