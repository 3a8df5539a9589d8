import Mathlib.Data.List.Forall2

/-!
# Matching a sequence with a counter

A sequence of keys is looked for in a stream of strokes. A matcher that only keeps how many keys it has seen
is right as long as the counter is the length of the longest beginning of the sequence that the stream ends
with. A stroke that is expected keeps it so; a stroke that is not expected does if the stream then ends with
no beginning of the sequence.
-/

namespace Quark.Machine

variable {α β : Type} (R : α → β → Prop)

def EndsWith (strokes : List α) (keys : List β) : Prop :=
  ∃ before last, strokes = before ++ last ∧ List.Forall₂ R last keys

/-- The counter is the length of the longest beginning of the keys that the strokes end with, all of the keys
apart. -/
structure Longest (strokes : List α) (keys : List β) (w : Nat) : Prop where
  lt : w < keys.length
  matched : EndsWith R strokes (keys.take w)
  longest : ∀ j, j < keys.length → EndsWith R strokes (keys.take j) → j ≤ w

variable {R} {strokes : List α} {keys : List β} {stroke : α} {key : β} {w : Nat}

theorem endsWith_nil : EndsWith R strokes [] := ⟨strokes, [], (List.append_nil _).symm, .nil⟩

theorem endsWith_concat :
    EndsWith R (strokes ++ [stroke]) (keys ++ [key]) ↔ EndsWith R strokes keys ∧ R stroke key := by
  constructor
  · rintro ⟨before, last, hstrokes, hlast⟩
    have hreverse := List.rel_reverse hlast
    rw [List.reverse_append, List.reverse_singleton, List.singleton_append] at hreverse
    obtain ⟨s, rest, hs, hrest, heq⟩ := List.forall₂_cons_right_iff.mp hreverse
    have hsplit : last = rest.reverse ++ [s] := by
      rw [← List.reverse_reverse last, heq, List.reverse_cons]
    rw [hsplit, ← List.append_assoc] at hstrokes
    obtain ⟨hinit, hstroke⟩ := List.append_inj' hstrokes rfl
    cases hstroke
    refine ⟨⟨before, rest.reverse, hinit, ?_⟩, hs⟩
    have hback := List.rel_reverse hrest
    rw [List.reverse_reverse] at hback
    exact hback
  · rintro ⟨⟨before, last, hstrokes, hlast⟩, hstroke⟩
    refine ⟨before, last ++ [stroke], ?_, List.rel_append hlast (.cons hstroke .nil)⟩
    rw [hstrokes, List.append_assoc]

theorem eq_nil_of_endsWith_nil (h : EndsWith R [] keys) : keys = [] := by
  obtain ⟨before, last, hstrokes, hlast⟩ := h
  obtain ⟨-, rfl⟩ := List.append_eq_nil_iff.mp hstrokes.symm
  cases hlast
  rfl

theorem take_succ_of_getElem? {j : Nat} (h : keys[j]? = some key) :
    keys.take (j + 1) = keys.take j ++ [key] := by
  rw [List.take_add_one, h]
  rfl

theorem endsWith_take_succ {j : Nat} (h : keys[j]? = some key) :
    EndsWith R (strokes ++ [stroke]) (keys.take (j + 1)) ↔
      EndsWith R strokes (keys.take j) ∧ R stroke key := by
  rw [take_succ_of_getElem? h]
  exact endsWith_concat

namespace Longest

theorem start (h : 0 < keys.length) : Longest R [] keys 0 := by
  refine ⟨h, endsWith_nil, fun j hj hends => ?_⟩
  have hnil := eq_nil_of_endsWith_nil hends
  rw [List.take_eq_nil_iff] at hnil
  rcases hnil with hnil | hnil
  · exact Nat.le_of_eq hnil
  · rw [hnil] at hj
    exact absurd hj (Nat.not_lt_zero j)

theorem pred {j : Nat} (h : Longest R strokes keys w) (hj : j < keys.length)
    (hends : EndsWith R (strokes ++ [stroke]) (keys.take (j + 1))) :
    j ≤ w ∧ ∃ key, keys[j]? = some key ∧ R stroke key := by
  have hkey := List.getElem?_eq_getElem hj
  obtain ⟨hbefore, hstroke⟩ := (endsWith_take_succ hkey).mp hends
  exact ⟨h.longest j hj hbefore, _, hkey, hstroke⟩

theorem advance (h : Longest R strokes keys w) (hkey : keys[w]? = some key) (hstroke : R stroke key)
    (hlt : w + 1 < keys.length) : Longest R (strokes ++ [stroke]) keys (w + 1) := by
  refine ⟨hlt, (endsWith_take_succ hkey).mpr ⟨h.matched, hstroke⟩, fun j hj hends => ?_⟩
  cases j with
  | zero => exact Nat.zero_le _
  | succ j => exact Nat.succ_le_succ (h.pred (Nat.lt_of_succ_lt hj) hends).1

theorem complete_iff (h : Longest R strokes keys w) (hkey : keys[w]? = some key) :
    EndsWith R (strokes ++ [stroke]) keys ↔ w + 1 = keys.length ∧ R stroke key := by
  constructor
  · intro hends
    obtain ⟨j, hj⟩ := Nat.exists_eq_add_of_lt h.lt
    have hlast : w + j < keys.length := by omega
    have hall : keys.take (w + j + 1) = keys := List.take_of_length_le (Nat.le_of_eq hj)
    rw [← hall] at hends
    obtain ⟨hle, key', hkey', hstroke⟩ := h.pred hlast hends
    obtain rfl : j = 0 := by omega
    rw [Nat.add_zero, hkey] at hkey'
    cases hkey'
    exact ⟨hj.symm, hstroke⟩
  · rintro ⟨hlast, hstroke⟩
    have hends : EndsWith R (strokes ++ [stroke]) (keys.take (w + 1)) :=
      (endsWith_take_succ hkey).mpr ⟨h.matched, hstroke⟩
    rw [List.take_of_length_le (Nat.le_of_eq hlast.symm)] at hends
    exact hends

theorem reset (h : Longest R strokes keys w) (hkey : keys[w]? = some key) (hstroke : ¬ R stroke key)
    (hnone : ∀ j, 0 < j → j ≤ w → ¬ EndsWith R (strokes ++ [stroke]) (keys.take j)) :
    Longest R (strokes ++ [stroke]) keys 0 := by
  refine ⟨Nat.lt_of_le_of_lt (Nat.zero_le w) h.lt, endsWith_nil, fun j hj hends => ?_⟩
  cases j with
  | zero => exact Nat.le_refl 0
  | succ j =>
    obtain ⟨hle, key', hkey', hstroke'⟩ := h.pred (Nat.lt_of_succ_lt hj) hends
    rcases Nat.lt_or_eq_of_le hle with hlt | rfl
    · exact absurd hends (hnone (j + 1) (Nat.succ_pos j) hlt)
    · rw [hkey] at hkey'
      cases hkey'
      exact absurd hstroke' hstroke

end Longest

end Quark.Machine
