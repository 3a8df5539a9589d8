import Mathlib.Algebra.GroupWithZero.Nat
import Mathlib.Data.List.Range
import Mathlib.Data.List.Sort
import Mathlib.Tactic.Common

/-!
# Spans of a file

A span is a run of consecutive positions. Spans that follow each other without a gap cover one long
run, in order; and among non-empty spans there is at most one order in which they do so.
-/

namespace Quark.Machine

/-- The positions from `offset` on, `length` of them. -/
structure Span where
  offset : Nat
  length : Nat
  deriving DecidableEq, Repr

namespace Span

def positions (s : Span) : List Nat := List.range' s.offset s.length

def Inside (size : Nat) (s : Span) : Prop := s.length = 0 ∨ s.offset + s.length ≤ size

instance (size : Nat) (s : Span) : Decidable (s.Inside size) := by
  unfold Inside
  infer_instance

theorem inside_of_pos {size : Nat} {s : Span} (h : 0 < s.length) :
    s.Inside size ↔ s.offset + s.length ≤ size := by
  unfold Inside
  omega

/-- Each span begins where the one before it ends, and the first one at `start`. -/
def Tile : Nat → List Span → Prop
  | _, [] => True
  | start, s :: ss => s.offset = start ∧ Tile (start + s.length) ss

def total (ss : List Span) : Nat := (ss.map length).sum

@[simp] theorem total_nil : total [] = 0 := rfl

@[simp] theorem total_cons (s : Span) (ss : List Span) : total (s :: ss) = s.length + total ss := rfl

theorem total_perm {ss ts : List Span} (h : ss.Perm ts) : total ss = total ts :=
  (h.map length).sum_nat

@[simp] theorem total_append (ss ts : List Span) : total (ss ++ ts) = total ss + total ts := by
  simp [total]

theorem tile_append {start : Nat} {ss ts : List Span} :
    Tile start (ss ++ ts) ↔ Tile start ss ∧ Tile (start + total ss) ts := by
  induction ss generalizing start with
  | nil => simp [Tile]
  | cons s ss ih =>
    rw [List.cons_append, Tile, Tile, ih, total_cons, Nat.add_assoc, and_assoc]

theorem Tile.flatMap_positions {start : Nat} {ss : List Span} (h : Tile start ss) :
    ss.flatMap positions = List.range' start (total ss) := by
  induction ss generalizing start with
  | nil => rfl
  | cons s ss ih =>
    obtain ⟨hs, ht⟩ := h
    rw [List.flatMap_cons, ih ht, positions, hs, total_cons, ← List.range'_append_1]

theorem Tile.start_le {start : Nat} {ss : List Span} (h : Tile start ss) {s : Span} (hs : s ∈ ss) :
    start ≤ s.offset := by
  induction ss generalizing start with
  | nil => cases hs
  | cons t ts ih =>
    obtain ⟨ht, htile⟩ := h
    rcases List.mem_cons.mp hs with rfl | hs
    · exact ht.ge
    · have := ih htile hs
      omega

theorem Tile.exists_end {start : Nat} {ss : List Span} (h : Tile start ss) (hne : ss ≠ []) :
    ∃ s ∈ ss, s.offset + s.length = start + total ss := by
  induction ss generalizing start with
  | nil => exact absurd rfl hne
  | cons s ss ih =>
    obtain ⟨hs, htile⟩ := h
    by_cases hss : ss = []
    · refine ⟨s, List.mem_cons_self, ?_⟩
      rw [hss, total_cons, total_nil, hs]
      rfl
    · obtain ⟨t, ht, hend⟩ := ih htile hss
      refine ⟨t, List.mem_cons_of_mem s ht, ?_⟩
      rw [hend, total_cons, Nat.add_assoc]

theorem Tile.pairwise {start : Nat} {ss : List Span} (h : Tile start ss)
    (hpos : ∀ s ∈ ss, 0 < s.length) : ss.Pairwise fun s t => s.offset < t.offset := by
  induction ss generalizing start with
  | nil => exact List.Pairwise.nil
  | cons s ss ih =>
    obtain ⟨hs, htile⟩ := h
    have hlen := hpos s List.mem_cons_self
    refine List.pairwise_cons.mpr ⟨fun t ht => ?_, ih htile fun t ht => hpos t (.tail s ht)⟩
    have := htile.start_le ht
    omega

theorem tile_of_perm {start : Nat} {ss ts : List Span} (hperm : ts.Perm ss) (htile : Tile start ts)
    (hpos : ∀ s ∈ ss, 0 < s.length) (hsorted : ss.Pairwise fun s t => s.offset ≤ t.offset) :
    Tile start ss := by
  have hpos' : ∀ s ∈ ts, 0 < s.length := fun s hs => hpos s (hperm.mem_iff.mp hs)
  have hlt := htile.pairwise hpos'
  have hinj : ∀ s ∈ ts, ∀ t ∈ ts, s.offset = t.offset → s = t := by
    intro s hs t ht
    exact List.Pairwise.forall_of_forall_of_flip (R := fun s t => s.offset = t.offset → s = t)
      (fun _ _ _ => rfl) (hlt.imp fun h he => absurd he h.ne) (hlt.imp fun h he => absurd he h.ne')
      hs ht
  have hanti : ∀ s t, s ∈ ts → t ∈ ss → s.offset ≤ t.offset → t.offset ≤ s.offset → s = t :=
    fun s t hs ht hst hts => hinj s hs t (hperm.mem_iff.mpr ht) (Nat.le_antisymm hst hts)
  have : ts = ss := hperm.eq_of_pairwise hanti (hlt.imp Nat.le_of_lt) hsorted
  rw [← this]
  exact htile

/-- Each position below `size` is in one of the spans and no more, and no other position is in one. -/
def Partition (size : Nat) (ss : List Span) : Prop := (ss.flatMap positions).Perm (List.range size)

theorem Tile.partition {ss : List Span} {size : Nat} (h : Tile 0 ss) (htotal : total ss = size) :
    Partition size ss := by
  rw [Partition, h.flatMap_positions, htotal, ← List.range_eq_range']

theorem Partition.perm {size : Nat} {ss ts : List Span} (h : Partition size ss) (hperm : ts.Perm ss) :
    Partition size ts :=
  (hperm.flatMap_right positions).trans h

def Apart (s t : Span) : Prop := s.positions.Disjoint t.positions

theorem Apart.symm {s t : Span} (h : s.Apart t) : t.Apart s := fun _ ht hs => h hs ht

theorem apart_of_le {s t : Span} (h : s.offset + s.length ≤ t.offset) : s.Apart t := by
  intro i hs ht
  rw [positions, List.mem_range'_1] at hs ht
  omega

theorem apart_of_empty {s t : Span} (h : t.length = 0) : s.Apart t := by
  intro i _ ht
  rw [positions, List.mem_range'_1] at ht
  omega

end Span

end Quark.Machine
