import Mathlib.Data.List.Basic
import Mathlib.Data.List.Nodup

/-!
# Walks over lists that are edited

A cursor walks over a list of keys, and the list may be edited at every step: keys are taken out, and new
ones are added at its end. As long as the key under the cursor stays, every key that stays is met once.
-/

namespace Quark.Machine

variable {κ : Type} [DecidableEq κ]

/-- The key behind `k`. -/
def next? (l : List κ) (k : κ) : Option κ := (l.dropWhile (· ≠ k)).tail.head?

theorem next?_append {pre post : List κ} {k : κ} (h : k ∉ pre) : next? (pre ++ k :: post) k = post.head? := by
  have hdrop : (pre ++ k :: post).dropWhile (· ≠ k) = k :: post := by
    induction pre with
    | nil => exact List.dropWhile_cons_of_neg (by simp)
    | cons x pre ih =>
      rw [List.mem_cons, not_or] at h
      rw [List.cons_append, List.dropWhile_cons_of_pos (by simpa using Ne.symm h.1)]
      exact ih h.2
  unfold next?
  rw [hdrop]
  rfl

/-- A walk that stands at `cursor` in `l`: `count` says how often each key was met. The keys of `watched` in
front of the cursor were met once, and those from it on not at all. -/
structure Walking (watched l : List κ) (cursor : Option κ) (count : κ → Nat) : Prop where
  nodup : l.Nodup
  split : ∃ done todo, l = done ++ todo ∧ cursor = todo.head? ∧
    (∀ k ∈ watched, k ∈ done → count k = 1) ∧ ∀ k ∈ watched, k ∈ todo → count k = 0

variable {watched l l' : List κ} {count count' : κ → Nat}

theorem Walking.step {k : κ} {keep : κ → Bool} {new : List κ} (h : Walking watched l (some k) count)
    (hl : l' = l.filter keep ++ new) (hk : keep k = true) (hnodup : l'.Nodup)
    (hnew : ∀ j ∈ new, j ∉ watched) (hcount : k ∈ watched → count' k = count k + 1)
    (hother : ∀ j, j ≠ k → count' j = count j) : Walking watched l' (next? l' k) count' := by
  obtain ⟨done, todo, hsplit, hcursor, hdone, htodo⟩ := h.split
  cases todo with
  | nil => nomatch hcursor
  | cons x rest =>
    obtain rfl : k = x := Option.some.inj hcursor
    have hl' : l' = done.filter keep ++ k :: (rest.filter keep ++ new) := by
      rw [hl, hsplit, List.filter_append, List.filter_cons_of_pos hk, List.append_assoc, List.cons_append]
    have hdis := h.nodup
    rw [hsplit] at hdis
    obtain ⟨-, hrest, hne⟩ := List.nodup_append.mp hdis
    have hfront : ∀ j ∈ done, j ≠ k := fun j hj => hne j hj k List.mem_cons_self
    have hback : ∀ j ∈ rest, j ≠ k := fun j hj hc => (List.nodup_cons.mp hrest).1 (hc ▸ hj)
    refine ⟨hnodup, done.filter keep ++ [k], rest.filter keep ++ new, ?_, ?_, ?_, ?_⟩
    · rw [hl', List.append_assoc]
      rfl
    · rw [hl']
      exact next?_append fun hmem => hfront k (List.mem_of_mem_filter hmem) rfl
    · intro j hj hmem
      rcases List.mem_append.mp hmem with hmem | hmem
      · have hmem := List.mem_of_mem_filter hmem
        rw [hother j (hfront j hmem)]
        exact hdone j hj hmem
      · rw [List.mem_singleton] at hmem
        subst hmem
        rw [hcount hj, htodo j hj List.mem_cons_self]
    · intro j hj hmem
      rcases List.mem_append.mp hmem with hmem | hmem
      · have hmem := List.mem_of_mem_filter hmem
        rw [hother j (hback j hmem)]
        exact htodo j hj (List.mem_cons_of_mem k hmem)
      · exact absurd hj (hnew j hmem)

omit [DecidableEq κ] in
theorem Walking.finished (h : Walking watched l none count) {k : κ} (hk : k ∈ watched) (hl : k ∈ l) :
    count k = 1 := by
  obtain ⟨done, todo, hsplit, hcursor, hdone, -⟩ := h.split
  cases todo with
  | nil =>
    rw [hsplit, List.append_nil] at hl
    exact hdone k hk hl
  | cons x rest => nomatch hcursor

end Quark.Machine
