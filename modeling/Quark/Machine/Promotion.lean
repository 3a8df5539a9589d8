import Mathlib.Data.List.Basic
import Mathlib.Data.List.Perm.Basic

/-!
# Promotion by swaps

A list is walked once, and an element that is wanted next is swapped with the first element that has been
passed over. The promoted elements end up in front, in the order in which they were found; the others stay
behind them, with their order disturbed by the swaps.
-/

namespace Quark.Machine

namespace Promotion

variable {α : Type}

/-- The elements passed over, after the first of them has changed places with the one just found. -/
def rotate : List α → List α
  | [] => []
  | y :: ys => ys ++ [y]

/-- The walk, with the elements promoted and those passed over so far. `want k x` says that `x` is wanted as
promoted element `k`; at most `limit` elements are promoted. -/
def scan (want : Nat → α → Bool) (limit : Nat) : List α → List α → List α → List α × List α
  | moved, passed, [] => (moved, passed)
  | moved, passed, x :: xs =>
    if moved.length < limit then
      if want moved.length x then scan want limit (moved ++ [x]) (rotate passed) xs
      else scan want limit moved (passed ++ [x]) xs
    else (moved, passed ++ x :: xs)

def promote (want : Nat → α → Bool) (limit : Nat) (xs : List α) : List α × List α :=
  scan want limit [] [] xs

variable {want : Nat → α → Bool} {limit : Nat}

theorem rotate_perm (passed : List α) : (rotate passed).Perm passed := by
  cases passed with
  | nil => exact .nil
  | cons y ys => exact List.perm_append_singleton y ys

theorem scan_perm (want : Nat → α → Bool) (limit : Nat) (moved passed xs : List α) :
    ((scan want limit moved passed xs).1 ++ (scan want limit moved passed xs).2).Perm
      (moved ++ passed ++ xs) := by
  induction xs generalizing moved passed with
  | nil => rw [scan, List.append_nil]
  | cons x xs ih =>
    unfold scan
    split
    · split
      · refine (ih (moved ++ [x]) (rotate passed)).trans ?_
        rw [List.append_assoc, List.append_assoc, List.append_assoc]
        refine List.Perm.append_left moved ?_
        refine List.Perm.trans ?_ List.perm_middle.symm
        exact ((rotate_perm passed).append_right xs).cons x
      · refine (ih moved (passed ++ [x])).trans ?_
        rw [List.append_assoc, List.append_assoc, List.append_assoc]
        exact List.Perm.refl _
    · rw [List.append_assoc]

theorem promote_perm (want : Nat → α → Bool) (limit : Nat) (xs : List α) :
    ((promote want limit xs).1 ++ (promote want limit xs).2).Perm xs :=
  scan_perm want limit [] [] xs

theorem scan_moved (want : Nat → α → Bool) (limit : Nat) (moved passed xs : List α) :
    ∃ found, (scan want limit moved passed xs).1 = moved ++ found ∧
      ∀ k x, found[k]? = some x → want (moved.length + k) x = true := by
  induction xs generalizing moved passed with
  | nil => exact ⟨[], (List.append_nil _).symm, fun k x h => by simp at h⟩
  | cons x xs ih =>
    unfold scan
    split
    · split
      case isTrue hwant =>
        obtain ⟨found, hfound, hall⟩ := ih (moved ++ [x]) (rotate passed)
        refine ⟨x :: found, by rw [hfound, List.append_assoc]; rfl, fun k y hy => ?_⟩
        cases k with
        | zero =>
          injection hy with hy
          rw [← hy]
          exact hwant
        | succ k =>
          have h := hall k y hy
          rw [List.length_append, List.length_singleton] at h
          rwa [show moved.length + (k + 1) = moved.length + 1 + k by omega]
      · exact ih moved (passed ++ [x])
    · exact ⟨[], (List.append_nil _).symm, fun k x h => by simp at h⟩

theorem want_of_promoted {xs : List α} {k : Nat} {x : α} (h : (promote want limit xs).1[k]? = some x) :
    want k x = true := by
  obtain ⟨found, hfound, hall⟩ := scan_moved want limit ([] : List α) [] xs
  unfold promote at h
  rw [hfound] at h
  have := hall k x h
  rwa [List.length_nil, Nat.zero_add] at this

theorem exists_promoted {xs : List α} {p : α → Bool} (h : ∃ x ∈ xs, p x = true) :
    ∃ x, p x = true ∧ (promote (fun _ => p) 1 xs).1 = [x] := by
  have key : ∀ passed : List α, ∃ x, p x = true ∧ (scan (fun _ => p) 1 [] passed xs).1 = [x] := by
    induction xs with
    | nil =>
      obtain ⟨x, hx, -⟩ := h
      cases hx
    | cons y ys ih =>
      intro passed
      unfold scan
      rw [if_pos (show ([] : List α).length < 1 from Nat.zero_lt_one)]
      split
      case isTrue hy =>
        refine ⟨y, hy, ?_⟩
        cases ys with
        | nil => rfl
        | cons z zs =>
          unfold scan
          rw [if_neg (by simp)]
          rfl
      case isFalse hy =>
        obtain ⟨x, hx, hpx⟩ := h
        rcases List.mem_cons.mp hx with rfl | hx
        · exact absurd hpx hy
        · exact ih ⟨x, hx, hpx⟩ (passed ++ [y])
  exact key []

theorem scan_found (want : Nat → α → Bool) (limit : Nat) (moved passed xs : List α) :
    ∃ found, (scan want limit moved passed xs).1 = moved ++ found ∧
      (found ++ (scan want limit moved passed xs).2).Perm (passed ++ xs) := by
  obtain ⟨found, hfound, -⟩ := scan_moved want limit moved passed xs
  refine ⟨found, hfound, ?_⟩
  have h := scan_perm want limit moved passed xs
  rw [hfound, List.append_assoc, List.append_assoc] at h
  exact (List.perm_append_left_iff moved).mp h

/-- Elements that satisfy `p` and are wanted one after the other, in the order in which they stand, are
promoted before all others, and none is left behind. -/
theorem scan_run {p : α → Bool} {xs moved passed : List α}
    (hlimit : moved.length + (xs.filter p).length ≤ limit)
    (hwant : ∀ k x, (xs.filter p)[k]? = some x → want (moved.length + k) x = true)
    (honly : ∀ k < (xs.filter p).length, ∀ x ∈ xs, want (moved.length + k) x = true → p x = true)
    (hpassed : ∀ x ∈ passed, p x = false) :
    ∃ others, (scan want limit moved passed xs).1 = moved ++ xs.filter p ++ others ∧
      ∀ x ∈ others ++ (scan want limit moved passed xs).2, p x = false := by
  induction xs generalizing moved passed with
  | nil => exact ⟨[], by simp [scan], fun x hx => hpassed x (by simpa [scan] using hx)⟩
  | cons x xs ih =>
    by_cases hp : p x = true
    · have hfilter : (x :: xs).filter p = x :: xs.filter p := List.filter_cons_of_pos hp
      rw [hfilter, List.length_cons] at hlimit honly
      rw [hfilter] at hwant ⊢
      have hroom : moved.length < limit := by omega
      have hnow : want moved.length x = true := hwant 0 x rfl
      have hlen : (moved ++ [x]).length = moved.length + 1 := by simp
      unfold scan
      rw [if_pos hroom, if_pos hnow]
      obtain ⟨others, hfst, hrest⟩ := @ih (moved ++ [x]) (rotate passed)
        (by rw [hlen]; omega)
        (fun k y hy => by
          have h := hwant (k + 1) y hy
          rwa [hlen, show moved.length + 1 + k = moved.length + (k + 1) by omega])
        (fun k hk y hy hw => by
          rw [hlen, show moved.length + 1 + k = moved.length + (k + 1) by omega] at hw
          exact honly (k + 1) (by omega) y (List.mem_cons_of_mem x hy) hw)
        (fun y hy => hpassed y ((rotate_perm passed).mem_iff.mp hy))
      exact ⟨others, by rw [hfst]; simp, hrest⟩
    · have hfilter : (x :: xs).filter p = xs.filter p := List.filter_cons_of_neg hp
      have hpx : p x = false := eq_false_of_ne_true hp
      rw [hfilter] at hlimit hwant honly ⊢
      have hpassed' : ∀ y ∈ passed ++ [x], p y = false := by
        intro y hy
        rcases List.mem_append.mp hy with hy | hy
        · exact hpassed y hy
        · rw [List.mem_singleton.mp hy]
          exact hpx
      by_cases hempty : xs.filter p = []
      · -- Nothing is left to be promoted in order.
        rw [hempty, List.append_nil]
        obtain ⟨found, hfst, hperm⟩ := scan_found want limit moved passed (x :: xs)
        refine ⟨found, hfst, fun y hy => ?_⟩
        rcases List.mem_append.mp (hperm.mem_iff.mp hy) with hy | hy
        · exact hpassed y hy
        · rcases List.mem_cons.mp hy with rfl | hy
          · exact hpx
          · exact eq_false_of_ne_true fun htrue =>
              List.not_mem_nil (hempty ▸ List.mem_filter.mpr ⟨hy, htrue⟩)
      · have hpos : 0 < (xs.filter p).length := List.length_pos_iff.mpr hempty
        have hroom : moved.length < limit := by omega
        have hnow : ¬ want moved.length x = true := fun h => hp (honly 0 hpos x List.mem_cons_self h)
        unfold scan
        rw [if_pos hroom, if_neg hnow]
        exact ih hlimit hwant (fun k hk y hy => honly k hk y (List.mem_cons_of_mem x hy)) hpassed'

end Promotion

end Quark.Machine
