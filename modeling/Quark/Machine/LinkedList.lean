import Mathlib.Data.Finset.Card
import Mathlib.Data.List.Basic

/-!
# Linked lists

A heap of nodes with one link each. Pointers are numbers and `0` is `NULL`; a pointer to a node that is
not there (never allocated, or freed) has no node in the heap.
-/

namespace Quark.Machine

variable {α : Type}

/-- The nodes that are reached from `p` through the links are those of the list, in this order, and the
last link is `NULL`. -/
def Linked (next : α → Nat) (heap : Nat → Option α) : Nat → List Nat → Prop
  | p, [] => p = 0
  | p, a :: l => p = a ∧ a ≠ 0 ∧ ∃ x, heap a = some x ∧ Linked next heap (next x) l

namespace Linked

variable {next : α → Nat} {heap heap' : Nat → Option α} {p : Nat} {l l' : List Nat}

theorem node (h : Linked next heap p l) {a : Nat} (ha : a ∈ l) :
    a ≠ 0 ∧ ∃ x, heap a = some x := by
  induction l generalizing p with
  | nil => cases ha
  | cons b l ih =>
    obtain ⟨-, hne, x, hx, htail⟩ := h
    rcases List.mem_cons.mp ha with rfl | ha
    · exact ⟨hne, x, hx⟩
    · exact ih htail ha

theorem unique (h : Linked next heap p l) (h' : Linked next heap p l') : l = l' := by
  induction l generalizing p l' with
  | nil =>
    have hp : p = 0 := h
    cases l' with
    | nil => rfl
    | cons b l' =>
      obtain ⟨hb, hne, -⟩ := h'
      exact absurd (hb.symm.trans hp) hne
  | cons a l ih =>
    obtain ⟨ha, hne, x, hx, htail⟩ := h
    cases l' with
    | nil =>
      have hp : p = 0 := h'
      exact absurd (ha.symm.trans hp) hne
    | cons b l' =>
      obtain ⟨hb, -, y, hy, htail'⟩ := h'
      have hab : a = b := ha.symm.trans hb
      subst hab
      have hxy : x = y := Option.some.inj (hx.symm.trans hy)
      subst hxy
      rw [ih htail htail']

theorem drop (h : Linked next heap p (l ++ l')) : ∃ q, Linked next heap q l' := by
  induction l generalizing p with
  | nil => exact ⟨p, h⟩
  | cons a l ih =>
    obtain ⟨-, -, x, -, htail⟩ := h
    exact ih htail

theorem nodup (h : Linked next heap p l) : l.Nodup := by
  induction l generalizing p with
  | nil => exact List.nodup_nil
  | cons a l ih =>
    have hlist := h
    obtain ⟨rfl, hne, x, hx, htail⟩ := h
    refine List.nodup_cons.mpr ⟨fun ha => ?_, ih htail⟩
    -- a second visit of the node would be followed by the list as a whole again
    obtain ⟨pre, post, rfl⟩ := List.append_of_mem ha
    obtain ⟨q, hq⟩ := htail.drop
    have hq' : q = p := hq.1
    rw [hq'] at hq
    have hlen := congrArg List.length (hlist.unique hq)
    rw [List.length_cons, List.length_append, List.length_cons] at hlen
    omega

theorem congr (h : Linked next heap p l)
    (hsame : ∀ a ∈ l, ∀ x, heap a = some x → ∃ y, heap' a = some y ∧ next y = next x) :
    Linked next heap' p l := by
  induction l generalizing p with
  | nil => exact h
  | cons a l ih =>
    obtain ⟨ha, hne, x, hx, htail⟩ := h
    obtain ⟨y, hy, hnext⟩ := hsame a List.mem_cons_self x hx
    refine ⟨ha, hne, y, hy, ?_⟩
    rw [hnext]
    exact ih htail fun b hb => hsame b (List.mem_cons_of_mem a hb)

theorem behind {m m' : List Nat} (h : Linked next heap p (l ++ m))
    (h' : Linked next heap' p (l ++ m'))
    (hsame : ∀ a ∈ l, ∀ x, heap a = some x → ∃ y, heap' a = some y ∧ next y = next x) :
    ∃ q, Linked next heap q m ∧ Linked next heap' q m' := by
  induction l generalizing p with
  | nil => exact ⟨p, h, h'⟩
  | cons a l ih =>
    obtain ⟨ha, hne, x, hx, htail⟩ := h
    obtain ⟨-, -, z, hz, htail'⟩ := h'
    obtain ⟨y, hy, hnext⟩ := hsame a List.mem_cons_self x hx
    rw [hz] at hy
    cases hy
    rw [hnext] at htail'
    exact ih htail htail' fun b hb => hsame b (List.mem_cons_of_mem a hb)

theorem snoc {z q : Nat} {v w : α} (h : Linked next heap p (l ++ [z])) (hz : heap' z = some v)
    (hlink : next v = q) (hq : q ≠ 0) (hnew : heap' q = some w) (hend : next w = 0)
    (hsame : ∀ a ∈ l, ∀ x, heap a = some x → ∃ y, heap' a = some y ∧ next y = next x) :
    Linked next heap' p (l ++ [z] ++ [q]) := by
  induction l generalizing p with
  | nil =>
    obtain ⟨hp, hne, x, hx, -⟩ := h
    exact ⟨hp, hne, v, hz, hlink, hq, w, hnew, hend⟩
  | cons a l ih =>
    obtain ⟨hp, hne, x, hx, htail⟩ := h
    obtain ⟨w, hw, hnext⟩ := hsame a List.mem_cons_self x hx
    refine ⟨hp, hne, w, hw, ?_⟩
    rw [hnext]
    exact ih htail fun b hb => hsame b (List.mem_cons_of_mem a hb)

theorem length_lt {N : Nat} (h : Linked next heap p l) (hN : ∀ a ∈ l, a < N) (hpos : 0 < N) :
    l.length < N := by
  have hsub : (0 :: l).toFinset ⊆ Finset.range N := by
    intro a ha
    rw [List.mem_toFinset] at ha
    rcases List.mem_cons.mp ha with rfl | ha
    · exact Finset.mem_range.mpr hpos
    · exact Finset.mem_range.mpr (hN a ha)
  have hnodup : (0 :: l).Nodup :=
    List.nodup_cons.mpr ⟨fun ha => (h.node ha).1 rfl, h.nodup⟩
  have hcard := Finset.card_le_card hsub
  rw [List.toFinset_card_of_nodup hnodup, Finset.card_range, List.length_cons] at hcard
  exact hcard

end Linked

end Quark.Machine
