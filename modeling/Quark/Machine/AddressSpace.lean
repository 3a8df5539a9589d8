import Mathlib.Algebra.Group.Nat.Defs
import Mathlib.Data.List.Pairwise
import Mathlib.Data.Nat.Notation

/-!
# Address spaces

An address space hands out ranges at addresses that the caller names. A range is granted when it is not
empty, lies below `2 ^ 64` and is wholly free, and it can be given back.
-/

namespace Quark.Machine

/-- What an address is: not to be had, free, or handed out. -/
inductive Cell where
  | absent
  | free
  | held
  deriving DecidableEq, Repr

abbrev AddressSpace := Nat → Cell

namespace AddressSpace

/-- Every address of the range is `c`. -/
def All (m : AddressSpace) (c : Cell) (base length : Nat) : Prop :=
  ∀ i < length, m (base + i) = c

instance (m : AddressSpace) (c : Cell) (base length : Nat) : Decidable (m.All c base length) :=
  inferInstanceAs (Decidable (∀ i < length, _))

def fill (m : AddressSpace) (c : Cell) (base length : Nat) : AddressSpace := fun a =>
  if base ≤ a ∧ a < base + length then c else m a

def Grants (m : AddressSpace) (base length : Nat) : Prop :=
  length ≠ 0 ∧ base + length ≤ 2 ^ 64 ∧ m.All .free base length

instance (m : AddressSpace) (base length : Nat) : Decidable (m.Grants base length) :=
  inferInstanceAs (Decidable (_ ∧ _))

theorem fill_in {m : AddressSpace} {c : Cell} {base length a : Nat}
    (h : base ≤ a ∧ a < base + length) : m.fill c base length a = c := if_pos h

theorem fill_out {m : AddressSpace} {c : Cell} {base length a : Nat}
    (h : ¬ (base ≤ a ∧ a < base + length)) : m.fill c base length a = m a := if_neg h

theorem All.at {m : AddressSpace} {c : Cell} {base length a : Nat} (h : m.All c base length)
    (ha : base ≤ a ∧ a < base + length) : m a = c := by
  have := h (a - base) (by omega)
  rwa [Nat.add_sub_cancel' ha.1] at this

end AddressSpace

/-! ## Ranges of several spaces -/

/-- A range of the address space named by `κ`. -/
structure Extent (κ : Type) where
  space : κ
  base : Nat
  length : Nat
  deriving DecidableEq, Repr

namespace Extent

variable {κ : Type}

def Contains (r : Extent κ) (k : κ) (a : Nat) : Prop :=
  r.space = k ∧ r.base ≤ a ∧ a < r.base + r.length

def Disjoint (r q : Extent κ) : Prop := ∀ k a, ¬ (r.Contains k a ∧ q.Contains k a)

theorem Disjoint.symm {r q : Extent κ} (h : r.Disjoint q) : q.Disjoint r :=
  fun k a ⟨hq, hr⟩ => h k a ⟨hr, hq⟩

def Held (g : κ → AddressSpace) (r : Extent κ) : Prop :=
  r.length ≠ 0 ∧ (g r.space).All .held r.base r.length

theorem Held.at {g : κ → AddressSpace} {r : Extent κ} (h : r.Held g) {k : κ} {a : Nat}
    (ha : r.Contains k a) : g k a = .held := by
  obtain ⟨rfl, ha⟩ := ha
  exact h.2.at ha

theorem Held.disjoint_free {g : κ → AddressSpace} {r q : Extent κ} (h : r.Held g)
    (hq : (g q.space).All .free q.base q.length) : r.Disjoint q := by
  rintro k a ⟨hr, hqk, hqa⟩
  have h1 := h.at hr
  rw [← hqk, hq.at hqa] at h1
  cases h1

end Extent

section Spaces

variable {κ : Type}

structure Backs (g : κ → AddressSpace) (l : List (Extent κ)) : Prop where
  held : ∀ r ∈ l, r.Held g
  disjoint : l.Pairwise Extent.Disjoint

def Exact (g : κ → AddressSpace) (l : List (Extent κ)) : Prop :=
  ∀ k a, g k a = .held ↔ ∃ r ∈ l, r.Contains k a

variable {g : κ → AddressSpace}

theorem Backs.nil (g : κ → AddressSpace) : Backs g [] := ⟨fun _ h => absurd h List.not_mem_nil, .nil⟩

theorem Backs.sublist {l l' : List (Extent κ)} (h : Backs g l) (hl : l'.Sublist l) : Backs g l' :=
  ⟨fun r hr => h.held r (hl.subset hr), h.disjoint.sublist hl⟩

theorem Exact.unique {g' : κ → AddressSpace} (h : Exact g []) (h' : Exact g' [])
    (habsent : ∀ k a, g k a = .absent ↔ g' k a = .absent) : g = g' := by
  have hnone : ∀ {g : κ → AddressSpace}, Exact g [] → ∀ k a, g k a ≠ .held := by
    intro g h k a hheld
    obtain ⟨r, hr, -⟩ := (h k a).mp hheld
    cases hr
  funext k a
  have h1 := hnone h k a
  have h2 := hnone h' k a
  have h3 := habsent k a
  cases hg : g k a <;> cases hg' : g' k a <;> simp_all

variable [DecidableEq κ]

/-- The spaces with the addresses of a range set to `c`. -/
def fillExtent (g : κ → AddressSpace) (c : Cell) (r : Extent κ) : κ → AddressSpace :=
  Function.update g r.space ((g r.space).fill c r.base r.length)

theorem fillExtent_in {c : Cell} {r : Extent κ} {k : κ} {a : Nat} (h : r.Contains k a) :
    fillExtent g c r k a = c := by
  obtain ⟨rfl, ha⟩ := h
  rw [fillExtent, Function.update_self, AddressSpace.fill_in ha]

theorem fillExtent_out {c : Cell} {r : Extent κ} {k : κ} {a : Nat} (h : ¬ r.Contains k a) :
    fillExtent g c r k a = g k a := by
  by_cases hk : k = r.space
  · subst hk
    rw [fillExtent, Function.update_self, AddressSpace.fill_out fun ha => h ⟨rfl, ha⟩]
  · rw [fillExtent, Function.update_of_ne hk]

theorem absent_fillExtent {c c' : Cell} {r : Extent κ} (hc : c ≠ .absent) (hc' : c' ≠ .absent)
    (h : (g r.space).All c r.base r.length) (k : κ) (a : Nat) :
    fillExtent g c' r k a = .absent ↔ g k a = .absent := by
  by_cases hin : r.Contains k a
  · rw [fillExtent_in hin]
    obtain ⟨rfl, ha⟩ := hin
    rw [h.at ha]
    simp [hc, hc']
  · rw [fillExtent_out hin]

theorem Backs.allocate {l₁ l₂ : List (Extent κ)} {r : Extent κ} (h : Backs g (l₁ ++ l₂))
    (hr : (g r.space).Grants r.base r.length) : Backs (fillExtent g .held r) (l₁ ++ r :: l₂) := by
  have hfree : ∀ q ∈ l₁ ++ l₂, q.Disjoint r := fun q hq => (h.held q hq).disjoint_free hr.2.2
  have hself : r.Held (fillExtent g .held r) := by
    refine ⟨hr.1, fun i hi => ?_⟩
    exact fillExtent_in ⟨rfl, Nat.le_add_right _ _, by omega⟩
  have hkeep : ∀ q ∈ l₁ ++ l₂, q.Held (fillExtent g .held r) := by
    intro q hq
    refine ⟨(h.held q hq).1, fun i hi => ?_⟩
    have hin : q.Contains q.space (q.base + i) := ⟨rfl, Nat.le_add_right _ _, by omega⟩
    rw [fillExtent_out fun hc => hfree q hq _ _ ⟨hin, hc⟩]
    exact (h.held q hq).2 i hi
  constructor
  · intro q hq
    rcases List.mem_append.mp hq with hq | hq
    · exact hkeep q (List.mem_append_left _ hq)
    · rcases List.mem_cons.mp hq with rfl | hq
      · exact hself
      · exact hkeep q (List.mem_append_right _ hq)
  · have hpair := List.pairwise_append.mp h.disjoint
    refine List.pairwise_append.mpr ⟨hpair.1, List.pairwise_cons.mpr ⟨?_, hpair.2.1⟩, ?_⟩
    · exact fun q hq => (hfree q (List.mem_append_right _ hq)).symm
    · intro a ha b hb
      rcases List.mem_cons.mp hb with rfl | hb
      · exact hfree a (List.mem_append_left _ ha)
      · exact hpair.2.2 a ha b hb

theorem Backs.release {l₁ l₂ : List (Extent κ)} {r : Extent κ} (h : Backs g (l₁ ++ r :: l₂)) :
    Backs (fillExtent g .free r) (l₁ ++ l₂) := by
  have hpair := List.pairwise_append.mp h.disjoint
  have hcons := List.pairwise_cons.mp hpair.2.1
  have hdisj : ∀ q ∈ l₁ ++ l₂, q.Disjoint r := by
    intro q hq
    rcases List.mem_append.mp hq with hq | hq
    · exact hpair.2.2 q hq r List.mem_cons_self
    · exact (hcons.1 q hq).symm
  have hsub : (l₁ ++ l₂).Sublist (l₁ ++ r :: l₂) := List.Sublist.append_left (List.sublist_cons_self _ _) _
  refine ⟨fun q hq => ⟨(h.held q (hsub.subset hq)).1, fun i hi => ?_⟩, h.disjoint.sublist hsub⟩
  have hin : q.Contains q.space (q.base + i) := ⟨rfl, Nat.le_add_right _ _, by omega⟩
  rw [fillExtent_out fun hc => hdisj q hq _ _ ⟨hin, hc⟩]
  exact (h.held q (hsub.subset hq)).2 i hi

theorem Exact.allocate {l₁ l₂ : List (Extent κ)} {r : Extent κ} (h : Exact g (l₁ ++ l₂)) :
    Exact (fillExtent g .held r) (l₁ ++ r :: l₂) := by
  intro k a
  by_cases hin : r.Contains k a
  · rw [fillExtent_in hin]
    exact ⟨fun _ => ⟨r, List.mem_append_right _ List.mem_cons_self, hin⟩, fun _ => rfl⟩
  · rw [fillExtent_out hin, h k a]
    constructor
    · rintro ⟨q, hq, hc⟩
      exact ⟨q, (List.Sublist.append_left (List.sublist_cons_self _ _) _).subset hq, hc⟩
    · rintro ⟨q, hq, hc⟩
      refine ⟨q, ?_, hc⟩
      rcases List.mem_append.mp hq with hq | hq
      · exact List.mem_append_left _ hq
      · rcases List.mem_cons.mp hq with rfl | hq
        · exact absurd hc hin
        · exact List.mem_append_right _ hq

theorem Exact.release {l₁ l₂ : List (Extent κ)} {r : Extent κ} (h : Exact g (l₁ ++ r :: l₂))
    (hb : Backs g (l₁ ++ r :: l₂)) : Exact (fillExtent g .free r) (l₁ ++ l₂) := by
  have hpair := List.pairwise_append.mp hb.disjoint
  have hcons := List.pairwise_cons.mp hpair.2.1
  intro k a
  by_cases hin : r.Contains k a
  · rw [fillExtent_in hin]
    refine ⟨nofun, ?_⟩
    rintro ⟨q, hq, hc⟩
    rcases List.mem_append.mp hq with hq | hq
    · exact absurd ⟨hc, hin⟩ (hpair.2.2 q hq r List.mem_cons_self k a)
    · exact absurd ⟨hin, hc⟩ (hcons.1 q hq k a)
  · rw [fillExtent_out hin, h k a]
    constructor
    · rintro ⟨q, hq, hc⟩
      refine ⟨q, ?_, hc⟩
      rcases List.mem_append.mp hq with hq | hq
      · exact List.mem_append_left _ hq
      · rcases List.mem_cons.mp hq with rfl | hq
        · exact absurd hc hin
        · exact List.mem_append_right _ hq
    · rintro ⟨q, hq, hc⟩
      exact ⟨q, (List.Sublist.append_left (List.sublist_cons_self _ _) _).subset hq, hc⟩

end Spaces

end Quark.Machine
