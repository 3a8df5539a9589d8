import Mathlib.Data.List.Pairwise
import Mathlib.Data.List.Perm.Basic
import Mathlib.Order.MinMax
import Mathlib.Logic.Function.Basic

/-!
# Version floors

A floor is kept for every key. A version offered under a key is refused below the floor of the key and
becomes its floor otherwise. Whether a list of offers is taken depends on its order, and only through
the offers that share a key; what the floors are afterwards does not.
-/

namespace Quark.Machine.VersionFloor

variable {κ α : Type} [DecidableEq κ] [LinearOrder α]

def offer (floor : κ → α) (x : κ × α) : Option (κ → α) :=
  if x.2 < floor x.1 then none else some (Function.update floor x.1 x.2)

def offerAll : (κ → α) → List (κ × α) → Option (κ → α)
  | floor, [] => some floor
  | floor, x :: xs => (offer floor x).bind fun raised => offerAll raised xs

def Ascending (xs : List (κ × α)) : Prop := xs.Pairwise fun x y => x.1 = y.1 → x.2 ≤ y.2

def raised (floor : κ → α) : List (κ × α) → κ → α
  | [], k => floor k
  | x :: xs, k => if x.1 = k then max x.2 (raised floor xs k) else raised floor xs k

/-! ## The greatest offers -/

theorem raised_cons (floor : κ → α) (x : κ × α) (xs : List (κ × α)) (k : κ) :
    raised floor (x :: xs) k =
      if x.1 = k then max x.2 (raised floor xs k) else raised floor xs k := rfl

theorem le_raised (floor : κ → α) (xs : List (κ × α)) (k : κ) : floor k ≤ raised floor xs k := by
  induction xs with
  | nil => exact le_refl _
  | cons x xs ih =>
    rw [raised_cons]
    split
    · exact le_trans ih (le_max_right _ _)
    · exact ih

theorem le_raised_of_mem (floor : κ → α) {xs : List (κ × α)} {x : κ × α} (hx : x ∈ xs) :
    x.2 ≤ raised floor xs x.1 := by
  induction xs with
  | nil => simp at hx
  | cons y ys ih =>
    rw [raised_cons]
    rcases List.mem_cons.mp hx with rfl | hx
    · rw [if_pos rfl]
      exact le_max_left _ _
    · split
      · exact le_trans (ih hx) (le_max_right _ _)
      · exact ih hx

theorem raised_eq_or (floor : κ → α) (xs : List (κ × α)) (k : κ) :
    raised floor xs k = floor k ∨ (k, raised floor xs k) ∈ xs := by
  induction xs with
  | nil => exact .inl rfl
  | cons x xs ih =>
    rw [raised_cons]
    split
    case isTrue hk =>
      rcases max_choice x.2 (raised floor xs k) with hmax | hmax
      · rw [hmax]
        exact .inr (List.mem_cons.mpr (.inl (by rw [← hk])))
      · rw [hmax]
        exact ih.imp id (List.mem_cons_of_mem x)
    case isFalse => exact ih.imp id (List.mem_cons_of_mem x)

theorem raised_le {floor bound : κ → α} {xs : List (κ × α)} {k : κ} (hfloor : floor k ≤ bound k)
    (hxs : ∀ x ∈ xs, x.1 = k → x.2 ≤ bound k) : raised floor xs k ≤ bound k := by
  rcases raised_eq_or floor xs k with h | h
  · rw [h]
    exact hfloor
  · exact hxs _ h rfl

theorem raised_perm (floor : κ → α) {xs ys : List (κ × α)} (h : xs.Perm ys) :
    raised floor xs = raised floor ys := by
  funext k
  apply le_antisymm
  · refine raised_le (le_raised floor ys k) ?_
    rintro x hx rfl
    exact le_raised_of_mem floor (h.mem_iff.mp hx)
  · refine raised_le (le_raised floor xs k) ?_
    rintro x hx rfl
    exact le_raised_of_mem floor (h.mem_iff.mpr hx)

/-! ## Runs of offers -/

theorem raised_update {floor : κ → α} {x : κ × α} {xs : List (κ × α)} (hx : floor x.1 ≤ x.2) :
    raised (Function.update floor x.1 x.2) xs = raised floor (x :: xs) := by
  funext k
  induction xs with
  | nil =>
    by_cases hk : x.1 = k
    · subst hk
      simp [raised, hx]
    · simp [raised, hk, Function.update_of_ne (Ne.symm hk)]
  | cons y ys ih =>
    rw [raised_cons, ih, raised_cons, raised_cons, raised_cons]
    by_cases hy : y.1 = k
    · by_cases hk : x.1 = k
      · simp only [hy, hk, if_true]
        exact max_left_comm _ _ _
      · simp only [hy, hk, if_true, if_false]
    · simp only [hy, if_false]

/-- All offers are taken if and only if none is below its floor and those under one key ascend, and
then the greatest ones are the floors. -/
theorem offerAll_eq_some {floor after : κ → α} {xs : List (κ × α)} :
    offerAll floor xs = some after ↔
      (∀ x ∈ xs, floor x.1 ≤ x.2) ∧ Ascending xs ∧ after = raised floor xs := by
  induction xs generalizing floor with
  | nil =>
    have hraised : raised floor ([] : List (κ × α)) = floor := rfl
    simp [offerAll, Ascending, hraised, eq_comm]
  | cons x xs ih =>
    by_cases hx : x.2 < floor x.1
    · have hnone : offerAll floor (x :: xs) = none := by simp [offerAll, offer, hx]
      simp only [hnone, List.forall_mem_cons]
      constructor
      · intro h
        cases h
      · intro h
        exact absurd hx (not_lt.mpr h.1.1)
    · have hle : floor x.1 ≤ x.2 := not_lt.mp hx
      have hsome : offerAll floor (x :: xs) = offerAll (Function.update floor x.1 x.2) xs := by
        simp [offerAll, offer, hx]
      rw [hsome, ih, raised_update hle, List.forall_mem_cons]
      -- an offer under the key of `x` is above the new floor exactly if it is not below `x`
      have hfloors : (∀ y ∈ xs, Function.update floor x.1 x.2 y.1 ≤ y.2) ↔
          (∀ y ∈ xs, floor y.1 ≤ y.2) ∧ ∀ y ∈ xs, x.1 = y.1 → x.2 ≤ y.2 := by
        constructor
        · intro h
          constructor
          · intro y hy
            have hy' := h y hy
            by_cases hk : y.1 = x.1
            · rw [hk, Function.update_self] at hy'
              rw [hk]
              exact le_trans hle hy'
            · rwa [Function.update_of_ne hk] at hy'
          · intro y hy hk
            have hy' := h y hy
            rwa [← hk, Function.update_self] at hy'
        · rintro ⟨h, hasc⟩ y hy
          by_cases hk : y.1 = x.1
          · rw [hk, Function.update_self]
            exact hasc y hy hk.symm
          · rw [Function.update_of_ne hk]
            exact h y hy
      rw [hfloors]
      unfold Ascending
      rw [List.pairwise_cons]
      tauto

theorem offerAll_isSome {floor : κ → α} {xs : List (κ × α)} :
    (offerAll floor xs).isSome ↔ (∀ x ∈ xs, floor x.1 ≤ x.2) ∧ Ascending xs := by
  rw [Option.isSome_iff_exists]
  simp only [offerAll_eq_some]
  constructor
  · rintro ⟨_, h, hasc, _⟩
    exact ⟨h, hasc⟩
  · rintro ⟨h, hasc⟩
    exact ⟨_, h, hasc, rfl⟩

end Quark.Machine.VersionFloor
