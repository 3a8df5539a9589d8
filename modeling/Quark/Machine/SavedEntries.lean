import Mathlib.Data.List.Basic
import Mathlib.Logic.Function.Basic

/-!
# Tables that several agents open and close

An agent opens an entry of a shared table: it keeps the value that the entry has and stores another one there.
When it closes its entries it puts the kept values back, the oldest first.
-/

namespace Quark.Machine

section PutBack

variable {κ ν : Type} [DecidableEq κ]

def putBack (kept : List (κ × ν)) (t : κ → ν) : κ → ν :=
  kept.foldl (fun t r => Function.update t r.1 r.2) t

def LastKept (kept : List (κ × ν)) (k : κ) (v : ν) : Prop :=
  ∃ l l', kept = l ++ (k, v) :: l' ∧ k ∉ l'.map Prod.fst

theorem putBack_cons (r : κ × ν) (kept : List (κ × ν)) (t : κ → ν) :
    putBack (r :: kept) t = putBack kept (Function.update t r.1 r.2) := rfl

theorem putBack_of_not_mem {k : κ} : ∀ {kept : List (κ × ν)} {t : κ → ν}, k ∉ kept.map Prod.fst →
    putBack kept t k = t k := by
  intro kept
  induction kept with
  | nil => intro t _; rfl
  | cons r kept ih =>
    intro t h
    rw [List.map_cons, List.mem_cons, not_or] at h
    rw [putBack_cons, ih h.2, Function.update_of_ne h.1]

theorem putBack_of_lastKept {kept : List (κ × ν)} {k : κ} {v : ν} (h : LastKept kept k v) (t : κ → ν) :
    putBack kept t k = v := by
  obtain ⟨l, l', rfl, hl'⟩ := h
  have happ : putBack (l ++ (k, v) :: l') t = putBack ((k, v) :: l') (putBack l t) := List.foldl_append
  rw [happ, putBack_cons, putBack_of_not_mem hl', Function.update_self]

theorem exists_lastKept {k : κ} : ∀ {kept : List (κ × ν)}, k ∈ kept.map Prod.fst →
    ∃ v, LastKept kept k v := by
  intro kept
  induction kept with
  | nil => intro h; cases h
  | cons r kept ih =>
    intro h
    by_cases hk : k ∈ kept.map Prod.fst
    · obtain ⟨v, l, l', rfl, hl'⟩ := ih hk
      exact ⟨v, r :: l, l', rfl, hl'⟩
    · rw [List.map_cons, List.mem_cons] at h
      rcases h with rfl | h
      · exact ⟨r.2, [], kept, rfl, hk⟩
      · exact absurd h hk

omit [DecidableEq κ] in
theorem LastKept.mem {kept : List (κ × ν)} {k : κ} {v : ν} (h : LastKept kept k v) : (k, v) ∈ kept := by
  obtain ⟨l, l', rfl, -⟩ := h
  simp

end PutBack

structure OpenTable (ι κ ν : Type) where
  table : κ → ν
  kept : ι → List (κ × ν)

/-- A step of an agent. -/
inductive OpenStep (ι κ : Type) where
  | opens (i : ι) (k : κ)
  | closes (i : ι)

namespace OpenTable

variable {ι κ ν : Type} [DecidableEq ι] [DecidableEq κ]

/-- An entry is opened: it gets the value `v`. -/
def opens (s : OpenTable ι κ ν) (i : ι) (k : κ) (v : ν) : OpenTable ι κ ν where
  table := Function.update s.table k v
  kept := Function.update s.kept i (s.kept i ++ [(k, s.table k)])

def closes (s : OpenTable ι κ ν) (i : ι) : OpenTable ι κ ν where
  table := putBack (s.kept i) s.table
  kept := Function.update s.kept i []

/-- A step, where `opened` has the values of the open entries. -/
def step (opened : κ → ν) (s : OpenTable ι κ ν) : OpenStep ι κ → OpenTable ι κ ν
  | .opens i k => s.opens i k (opened k)
  | .closes i => s.closes i

def Quiet (s : OpenTable ι κ ν) : Prop := ∀ i, s.kept i = []

/-- An agent that closes an entry as the last one puts the value of `t₀` back. -/
def ClosesLast (t₀ : κ → ν) (s : OpenTable ι κ ν) : OpenStep ι κ → Prop
  | .opens _ _ => True
  | .closes i => ∀ k v, LastKept (s.kept i) k v → v = t₀ k ∨ ∃ j ≠ i, k ∈ (s.kept j).map Prod.fst

def AllCloseLast (opened t₀ : κ → ν) : List (OpenStep ι κ) → OpenTable ι κ ν → Prop
  | [], _ => True
  | a :: as, s => s.ClosesLast t₀ a ∧ AllCloseLast opened t₀ as (s.step opened a)

variable {opened t₀ : κ → ν}

/-- Every value is that of `t₀` or that of an open entry. -/
structure TwoValued (opened t₀ : κ → ν) (s : OpenTable ι κ ν) : Prop where
  table : ∀ k, s.table k = t₀ k ∨ s.table k = opened k
  kept : ∀ i, ∀ r ∈ s.kept i, r.2 = t₀ r.1 ∨ r.2 = opened r.1

theorem TwoValued.step {s : OpenTable ι κ ν} (h : TwoValued opened t₀ s) (a : OpenStep ι κ) :
    TwoValued opened t₀ (s.step opened a) := by
  cases a with
  | opens i k =>
    refine ⟨fun k' => ?_, fun j r hr => ?_⟩
    · show Function.update s.table k (opened k) k' = _ ∨ Function.update s.table k (opened k) k' = _
      by_cases hk : k' = k
      · rw [hk, Function.update_self]
        exact .inr rfl
      · rw [Function.update_of_ne hk]
        exact h.table k'
    · change r ∈ Function.update s.kept i (s.kept i ++ [(k, s.table k)]) j at hr
      by_cases hj : j = i
      · rw [hj, Function.update_self] at hr
        rcases List.mem_append.mp hr with hr | hr
        · exact h.kept i r hr
        · rw [List.mem_singleton.mp hr]
          exact h.table k
      · rw [Function.update_of_ne hj] at hr
        exact h.kept j r hr
  | closes i =>
    refine ⟨fun k => ?_, fun j r hr => ?_⟩
    · show putBack (s.kept i) s.table k = _ ∨ putBack (s.kept i) s.table k = _
      by_cases hk : k ∈ (s.kept i).map Prod.fst
      · obtain ⟨v, hv⟩ := exists_lastKept hk
        rw [putBack_of_lastKept hv]
        exact h.kept i _ hv.mem
      · rw [putBack_of_not_mem hk]
        exact h.table k
    · change r ∈ Function.update s.kept i [] j at hr
      by_cases hj : j = i
      · rw [hj, Function.update_self] at hr
        cases hr
      · rw [Function.update_of_ne hj] at hr
        exact h.kept j r hr

/-- An entry that differs from `t₀` is kept by some agent. -/
def Recoverable (t₀ : κ → ν) (s : OpenTable ι κ ν) : Prop :=
  ∀ k, s.table k = t₀ k ∨ ∃ i, k ∈ (s.kept i).map Prod.fst

theorem Recoverable.step {s : OpenTable ι κ ν} (h : Recoverable t₀ s) {a : OpenStep ι κ}
    (ha : s.ClosesLast t₀ a) : Recoverable t₀ (s.step opened a) := by
  intro k
  cases a with
  | opens i k₁ =>
    by_cases hk : k = k₁
    · refine .inr ⟨i, ?_⟩
      show k ∈ (Function.update s.kept i (s.kept i ++ [(k₁, s.table k₁)]) i).map Prod.fst
      rw [Function.update_self, hk]
      simp
    · rcases h k with heq | ⟨j, hj⟩
      · exact .inl ((Function.update_of_ne hk _ _).trans heq)
      · refine .inr ⟨j, ?_⟩
        show k ∈ (Function.update s.kept i (s.kept i ++ [(k₁, s.table k₁)]) j).map Prod.fst
        by_cases hji : j = i
        · subst hji
          rw [Function.update_self, List.map_append]
          exact List.mem_append_left _ hj
        · rw [Function.update_of_ne hji]
          exact hj
  | closes i =>
    have hother : ∀ j ≠ i, k ∈ (s.kept j).map Prod.fst →
        k ∈ (Function.update s.kept i [] j).map Prod.fst := by
      intro j hj hk
      rw [Function.update_of_ne hj]
      exact hk
    by_cases hk : k ∈ (s.kept i).map Prod.fst
    · obtain ⟨v, hv⟩ := exists_lastKept hk
      rcases ha k v hv with rfl | ⟨j, hj, hkj⟩
      · exact .inl (putBack_of_lastKept hv s.table)
      · exact .inr ⟨j, hother j hj hkj⟩
    · rcases h k with heq | ⟨j, hj⟩
      · exact .inl ((putBack_of_not_mem hk).trans heq)
      · refine .inr ⟨j, hother j (fun hji => hk (hji ▸ hj)) hj⟩

/-- An entry that stays open: its value, and the values kept of it, are that of the open entry. -/
structure Stuck (opened t₀ : κ → ν) (k : κ) (s : OpenTable ι κ ν) : Prop where
  ne : opened k ≠ t₀ k
  table : s.table k = opened k
  kept : ∀ i, ∀ r ∈ s.kept i, r.1 = k → r.2 = opened k

theorem Stuck.step {s : OpenTable ι κ ν} {k : κ} (h : Stuck opened t₀ k s) (a : OpenStep ι κ) :
    Stuck opened t₀ k (s.step opened a) := by
  cases a with
  | opens i k₁ =>
    refine ⟨h.ne, ?_, fun j r hr hk => ?_⟩
    · show Function.update s.table k₁ (opened k₁) k = opened k
      by_cases hk : k = k₁
      · rw [hk, Function.update_self]
      · rw [Function.update_of_ne hk]
        exact h.table
    · change r ∈ Function.update s.kept i (s.kept i ++ [(k₁, s.table k₁)]) j at hr
      by_cases hj : j = i
      · rw [hj, Function.update_self] at hr
        rcases List.mem_append.mp hr with hr | hr
        · exact h.kept i r hr hk
        · rw [List.mem_singleton.mp hr] at hk ⊢
          rw [show k₁ = k from hk]
          exact h.table
      · rw [Function.update_of_ne hj] at hr
        exact h.kept j r hr hk
  | closes i =>
    refine ⟨h.ne, ?_, fun j r hr hk => ?_⟩
    · show putBack (s.kept i) s.table k = opened k
      by_cases hk : k ∈ (s.kept i).map Prod.fst
      · obtain ⟨v, hv⟩ := exists_lastKept hk
        rw [putBack_of_lastKept hv]
        exact h.kept i _ hv.mem rfl
      · rw [putBack_of_not_mem hk]
        exact h.table
    · change r ∈ Function.update s.kept i [] j at hr
      by_cases hj : j = i
      · rw [hj, Function.update_self] at hr
        cases hr
      · rw [Function.update_of_ne hj] at hr
        exact h.kept j r hr hk

theorem stuck_of_not_closesLast {s : OpenTable ι κ ν} (h : TwoValued opened t₀ s) {a : OpenStep ι κ}
    (ha : ¬ s.ClosesLast t₀ a) : ∃ k, Stuck opened t₀ k (s.step opened a) := by
  cases a with
  | opens i k => exact absurd trivial ha
  | closes i =>
    unfold ClosesLast at ha
    push Not at ha
    obtain ⟨k, v, hv, hne, hnone⟩ := ha
    have hval : v = opened k := (h.kept i _ hv.mem).resolve_left hne
    refine ⟨k, hval ▸ hne, (putBack_of_lastKept hv s.table).trans hval, fun j r hr hk => ?_⟩
    change r ∈ Function.update s.kept i [] j at hr
    by_cases hj : j = i
    · rw [hj, Function.update_self] at hr
      cases hr
    · rw [Function.update_of_ne hj] at hr
      exact absurd (List.mem_map.mpr ⟨r, hr, hk⟩) (hnone j hj)

theorem table_eq_iff (as : List (OpenStep ι κ)) : ∀ {s : OpenTable ι κ ν}, TwoValued opened t₀ s →
    Recoverable t₀ s → (as.foldl (step opened) s).Quiet →
    ((as.foldl (step opened) s).table = t₀ ↔ AllCloseLast opened t₀ as s) := by
  induction as with
  | nil =>
    intro s _ hrec hquiet
    refine ⟨fun _ => trivial, fun _ => funext fun k => ?_⟩
    rcases hrec k with heq | ⟨i, hi⟩
    · exact heq
    · rw [show s.kept i = [] from hquiet i] at hi
      cases hi
  | cons a as ih =>
    intro s htwo hrec hquiet
    by_cases ha : s.ClosesLast t₀ a
    · rw [List.foldl_cons, ih (htwo.step a) (hrec.step ha) hquiet]
      exact ⟨fun h => ⟨ha, h⟩, fun h => h.2⟩
    · refine ⟨fun heq => ?_, fun h => absurd h.1 ha⟩
      obtain ⟨k, hstuck⟩ := stuck_of_not_closesLast htwo ha
      have hend : ∀ (bs : List (OpenStep ι κ)) {s : OpenTable ι κ ν}, Stuck opened t₀ k s →
          Stuck opened t₀ k (bs.foldl (OpenTable.step opened) s) := by
        intro bs
        induction bs with
        | nil => exact fun h => h
        | cons b bs ih => exact fun h => ih (h.step b)
      have hlast := hend as hstuck
      rw [List.foldl_cons] at heq
      exact absurd (hlast.table.symm.trans (congrFun heq k)) hlast.ne

end OpenTable

end Quark.Machine
