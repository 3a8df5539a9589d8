import Mathlib.Data.List.Infix
import Mathlib.Data.List.Nodup
import Quark.Machine.Scan
import Quark.PiSmmCpu.ProfileLog

/-!
# SMM profile: how long the log keeps to its buffer

Until the buffer is full, the log holds the first appearances of the faults. Without the ring it stays so
from then on. In ring mode one more fault takes the first place, and the count is then past the end of the
buffer: the next fault that is not found there is sought behind it.
-/

namespace Quark.PiSmmCpu

open Machine Exec

/-! ## The scan -/

section

variable {e : SmmProfileEntry} {s : ProfileLog}

theorem findSame_succ (k index : Nat) {old : SmmProfileEntry} (h : s.entries[index]? = some old) :
    findSame e (k + 1) index s = if old.key = e.key then .ret index s else findSame e k (index + 1) s := by
  have hget : (Exec.get : Exec ProfileLog ProfileLog) s = .ret s s := rfl
  rw [findSame, bind_of_ret hget, h]
  by_cases hkey : old.key = e.key
  · simp only [if_pos hkey]
    rfl
  · simp only [if_neg hkey]

theorem findSame_outOfBounds (k : Nat) {index : Nat} (h : s.entries[index]? = none) :
    findSame e (k + 1) index s = .stop .outOfBounds s := by
  have hget : (Exec.get : Exec ProfileLog ProfileLog) s = .ret s s := rfl
  rw [findSame, bind_of_ret hget, h]
  rfl

theorem findSame_eq : ∀ k index : Nat, findSame e k index s =
    match scan (fun old : SmmProfileEntry => old.key = e.key) s.entries k index with
    | .hit found _ => .ret found s
    | .miss => .ret (index + k) s
    | .past => .stop .outOfBounds s := by
  intro k
  induction k with
  | zero => intro index; rfl
  | succ k ih =>
    intro index
    cases hread : s.entries[index]? with
    | none => rw [findSame_outOfBounds k hread, scan_succ_none k hread]
    | some old =>
      rw [findSame_succ k index hread, scan_succ_some k hread]
      by_cases hkey : old.key = e.key
      · simp only [hkey, if_true, decide_true]
      · simp only [hkey, if_false, decide_false, Bool.false_eq_true]
        rw [ih (index + 1), Nat.add_assoc, Nat.add_comm 1]

theorem not_mem_keys_iff {entries : List SmmProfileEntry} :
    e.key ∉ keys entries ↔ ∀ old ∈ entries, decide (old.key = e.key) = false := by
  simp only [keys, List.mem_map, not_exists, not_and, decide_eq_false_iff_not]

theorem findSame_hit {k index : Nat} (h : e.key ∈ keys ((s.entries.drop index).take k)) :
    ∃ found, found < index + k ∧ findSame e k index s = .ret found s := by
  obtain ⟨old, hold, hkey⟩ := List.mem_map.mp h
  obtain ⟨found, a, hscan, hlt, -⟩ := scan_hit (p := fun old => decide (old.key = e.key)) k index
    ⟨old, hold, decide_eq_true hkey⟩
  exact ⟨found, hlt, by rw [findSame_eq, hscan]⟩

theorem findSame_miss {k index : Nat} (h : e.key ∉ keys ((s.entries.drop index).take k))
    (hle : index + k ≤ s.entries.length) : findSame e k index s = .ret (index + k) s := by
  rw [findSame_eq, scan_miss k index (not_mem_keys_iff.mp h) hle]

theorem findSame_past {k index : Nat} (h : e.key ∉ keys (s.entries.drop index)) (hle : index ≤ s.entries.length)
    (hlt : s.entries.length < index + k) : findSame e k index s = .stop .outOfBounds s := by
  rw [findSame_eq, scan_past k index (not_mem_keys_iff.mp h) hle hlt]

end

/-! ## One fault -/

/-- The buffer that the faults of `noted` have been logged in, one behind the other. -/
def filledLog (max : Nat) (noted : List SmmProfileEntry) : ProfileLog :=
  ⟨max, noted.length, noted.length * profileEntrySize, noted ++ List.replicate (max - noted.length) zeroEntry⟩

/-- The full buffer after one more fault: it has the first place, and the count is past the end. -/
def wrappedLog (max : Nat) (noted : List SmmProfileEntry) (e : SmmProfileEntry) : ProfileLog :=
  ⟨max, max + 1, (max + 1) * profileEntrySize, e :: noted.tail⟩

section

variable {max : Nat} {ring : Bool} {noted : List SmmProfileEntry} {e f : SmmProfileEntry}

def place (ring : Bool) (s : ProfileLog) : Nat :=
  if ring then s.curDataEntries % s.maxDataEntries else s.curDataEntries

def logged (s : ProfileLog) (at' : Nat) (e : SmmProfileEntry) : ProfileLog :=
  ⟨s.maxDataEntries, s.curDataEntries + 1, (s.curDataEntries + 1) * profileEntrySize, s.entries.set at' e⟩

section

variable {s : ProfileLog}

theorem logFault_eq : logFault ring e s =
    (findSame e s.curDataEntries 0 >>= fun index => Exec.when (index = s.curDataEntries)
      (Exec.when (place ring s < s.maxDataEntries)
        (if place ring s < s.entries.length then .modify fun t => logged t (place ring s) e
        else .halt .outOfBounds))) s := rfl

theorem logFault_of_found {found : Nat} (hlt : found < s.curDataEntries)
    (h : findSame e s.curDataEntries 0 s = .ret found s) : logFault ring e s = .ret () s := by
  rw [logFault_eq, bind_of_ret h, Exec.when, if_neg (Nat.ne_of_lt hlt)]
  rfl

theorem logFault_of_past {t : ProfileLog} (h : findSame e s.curDataEntries 0 s = .stop .outOfBounds t) :
    logFault ring e s = .stop .outOfBounds t := by
  rw [logFault_eq, bind_of_stop h]

theorem logFault_of_room (h : findSame e s.curDataEntries 0 s = .ret s.curDataEntries s)
    (hlt : place ring s < s.maxDataEntries) (hroom : place ring s < s.entries.length) :
    logFault ring e s = .ret () (logged s (place ring s) e) := by
  rw [logFault_eq, bind_of_ret h, Exec.when, if_pos rfl, Exec.when, if_pos hlt, if_pos hroom]
  rfl

theorem logFault_of_full (h : findSame e s.curDataEntries 0 s = .ret s.curDataEntries s)
    (hge : ¬ place ring s < s.maxDataEntries) : logFault ring e s = .ret () s := by
  rw [logFault_eq, bind_of_ret h, Exec.when, if_pos rfl, Exec.when, if_neg hge]
  rfl

end

theorem filledLog_nil : filledLog max [] = emptyLog max := by
  simp [filledLog, emptyLog]

theorem filledLog_scanned :
    ((filledLog max noted).entries.drop 0).take (filledLog max noted).curDataEntries = noted := by
  simp [filledLog]

theorem logFault_filledLog_same (h : e.key ∈ keys noted) :
    logFault ring e (filledLog max noted) = .ret () (filledLog max noted) := by
  rw [← @filledLog_scanned max noted] at h
  obtain ⟨found, hlt, hfound⟩ := findSame_hit h
  rw [Nat.zero_add] at hlt
  exact logFault_of_found hlt hfound

theorem findSame_filledLog (h : e.key ∉ keys noted) (hle : noted.length ≤ max) :
    findSame e noted.length 0 (filledLog max noted) = .ret noted.length (filledLog max noted) := by
  rw [← @filledLog_scanned max noted] at h
  have hroom : 0 + noted.length ≤ (filledLog max noted).entries.length := by
    simp only [filledLog, List.length_append, List.length_replicate]
    omega
  rw [findSame_miss (k := noted.length) h hroom, Nat.zero_add]

theorem logFault_filledLog_new (h : e.key ∉ keys noted) (hlt : noted.length < max) :
    logFault ring e (filledLog max noted) = .ret () (filledLog max (noted ++ [e])) := by
  have hplace : place ring (filledLog max noted) = noted.length := by
    show (if ring then noted.length % max else noted.length) = noted.length
    rw [Nat.mod_eq_of_lt hlt, ite_self]
  have hset : (filledLog max noted).entries.set noted.length e = (filledLog max (noted ++ [e])).entries := by
    obtain ⟨k, hk⟩ : ∃ k, max - noted.length = k + 1 := ⟨max - noted.length - 1, by omega⟩
    have hk' : max - (noted ++ [e]).length = k := by
      rw [List.length_append, List.length_singleton]
      omega
    simp only [filledLog]
    rw [hk, hk', List.replicate_succ, List.set_append_right _ _ (Nat.le_refl _), Nat.sub_self, List.set_cons_zero,
      List.append_assoc]
    rfl
  have hroom : noted.length < (filledLog max noted).entries.length := by
    simp only [filledLog, List.length_append, List.length_replicate]
    omega
  rw [logFault_of_room (findSame_filledLog h (Nat.le_of_lt hlt)) (hplace ▸ hlt) (hplace ▸ hroom), hplace]
  unfold logged
  rw [hset]
  simp [filledLog]

theorem logFault_filledLog_full (h : e.key ∉ keys noted) (hfull : noted.length = max) :
    logFault false e (filledLog max noted) = .ret () (filledLog max noted) := by
  apply logFault_of_full (findSame_filledLog h (Nat.le_of_eq hfull))
  show ¬ noted.length < max
  omega

theorem logFault_filledLog_wrap (h : e.key ∉ keys noted) (hfull : noted.length = max) (hpos : 0 < max) :
    logFault true e (filledLog max noted) = .ret () (wrappedLog max noted e) := by
  have hplace : place true (filledLog max noted) = 0 := by
    show noted.length % max = 0
    rw [hfull, Nat.mod_self]
  have hentries : (filledLog max noted).entries = noted := by
    simp [filledLog, hfull]
  have hroom : 0 < (filledLog max noted).entries.length := by
    rw [hentries]
    omega
  rw [logFault_of_room (findSame_filledLog h (Nat.le_of_eq hfull)) (hplace ▸ hpos) (hplace ▸ hroom), hplace]
  unfold logged
  rw [hentries]
  cases noted with
  | nil => exact absurd hfull (Nat.ne_of_lt hpos)
  | cons d rest =>
    subst hfull
    rfl

theorem length_wrappedLog (hfull : noted.length = max) (hpos : 0 < max) :
    (wrappedLog max noted e).entries.length = max := by
  simp only [wrappedLog, List.length_cons, List.length_tail]
  omega

theorem logFault_wrappedLog_same (h : f.key ∈ keys (e :: noted.tail)) (hfull : noted.length = max) (hpos : 0 < max) :
    logFault ring f (wrappedLog max noted e) = .ret () (wrappedLog max noted e) := by
  have hlength := length_wrappedLog (e := e) hfull hpos
  have hscanned : ((wrappedLog max noted e).entries.drop 0).take (max + 1) = e :: noted.tail := by
    rw [List.drop_zero, List.take_of_length_le (by omega)]
    rfl
  rw [← hscanned] at h
  obtain ⟨found, hlt, hfound⟩ := findSame_hit h
  rw [Nat.zero_add] at hlt
  exact logFault_of_found hlt hfound

theorem logFault_wrappedLog_new (h : f.key ∉ keys (e :: noted.tail)) (hfull : noted.length = max) (hpos : 0 < max) :
    logFault ring f (wrappedLog max noted e) = .stop .outOfBounds (wrappedLog max noted e) := by
  have hlength := length_wrappedLog (e := e) hfull hpos
  apply logFault_of_past
  apply findSame_past h (Nat.zero_le _)
  rw [hlength]
  show max < 0 + (max + 1)
  omega

end

/-! ## The first appearances -/

section

variable {max : Nat} {noted : List SmmProfileEntry} {e : SmmProfileEntry}

theorem noteFirst_of_mem (h : e.key ∈ keys noted) : noteFirst noted e = noted := if_pos h

theorem noteFirst_of_new (h : e.key ∉ keys noted) : noteFirst noted e = noted ++ [e] := if_neg h

theorem prefix_noteFirst (noted : List SmmProfileEntry) (e : SmmProfileEntry) : noted <+: noteFirst noted e := by
  unfold noteFirst
  split
  · exact List.prefix_rfl
  · exact List.prefix_append noted [e]

theorem prefix_foldl_noteFirst (faults : List SmmProfileEntry) :
    ∀ noted : List SmmProfileEntry, noted <+: faults.foldl noteFirst noted := by
  induction faults with
  | nil => intro noted; exact List.prefix_rfl
  | cons e rest ih => intro noted; exact (prefix_noteFirst noted e).trans (ih (noteFirst noted e))

theorem nodup_noteFirst (h : (keys noted).Nodup) : (keys (noteFirst noted e)).Nodup := by
  by_cases hmem : e.key ∈ keys noted
  · rwa [noteFirst_of_mem hmem]
  · rw [noteFirst_of_new hmem, keys, List.map_append]
    exact List.Nodup.append h (List.nodup_singleton _) (List.disjoint_singleton.mpr hmem)

theorem nodup_foldl_noteFirst (faults : List SmmProfileEntry) :
    ∀ noted : List SmmProfileEntry, (keys noted).Nodup → (keys (faults.foldl noteFirst noted)).Nodup := by
  induction faults with
  | nil => intro noted h; exact h
  | cons e rest ih => intro noted h; exact ih _ (nodup_noteFirst h)

theorem firsts_append (early late : List SmmProfileEntry) :
    firsts (early ++ late) = late.foldl noteFirst (firsts early) :=
  List.foldl_append

theorem length_firsts_le_of_early {early faults : List SmmProfileEntry} (h : early <+: faults) :
    (firsts early).length ≤ (firsts faults).length := by
  obtain ⟨late, rfl⟩ := h
  rw [firsts_append]
  exact (prefix_foldl_noteFirst late (firsts early)).length_le

theorem exists_overflow (faults : List SmmProfileEntry) : ∀ noted : List SmmProfileEntry, noted.length ≤ max →
    max < (faults.foldl noteFirst noted).length →
    ∃ early e late, faults = early ++ e :: late ∧ (early.foldl noteFirst noted).length = max ∧
      e.key ∉ keys (early.foldl noteFirst noted) := by
  induction faults with
  | nil =>
    intro noted hle hlt
    exact absurd hlt (Nat.not_lt.mpr hle)
  | cons e rest ih =>
    intro noted hle hlt
    by_cases hnow : e.key ∉ keys noted ∧ noted.length = max
    · exact ⟨[], e, rest, rfl, hnow.2, hnow.1⟩
    · have hstep : (noteFirst noted e).length ≤ max := by
        by_cases hmem : e.key ∈ keys noted
        · rwa [noteFirst_of_mem hmem]
        · have hne : noted.length ≠ max := fun hmax => hnow ⟨hmem, hmax⟩
          rw [noteFirst_of_new hmem, List.length_append, List.length_singleton]
          omega
      obtain ⟨early, e', late, hsplit, hlength, hnew⟩ := ih (noteFirst noted e) hstep hlt
      exact ⟨e :: early, e', late, by rw [hsplit]; rfl, hlength, hnew⟩

theorem mostRecent_of_le (h : noted.length ≤ max) : mostRecent max noted = noted := by
  rw [mostRecent, Nat.sub_eq_zero_of_le h, List.drop_zero]

theorem foldl_noteRecent_eq (faults : List SmmProfileEntry) : ∀ noted : List SmmProfileEntry,
    (faults.foldl noteFirst noted).length ≤ max →
    faults.foldl (noteRecent max) noted = faults.foldl noteFirst noted := by
  induction faults with
  | nil => intro noted _; rfl
  | cons e rest ih =>
    intro noted h
    have hle : noted.length ≤ max := (prefix_foldl_noteFirst (e :: rest) noted).length_le.trans h
    have hstep : noteRecent max noted e = noteFirst noted e := by
      rw [noteRecent, mostRecent_of_le hle, noteFirst]
    rw [List.foldl_cons, hstep]
    exact ih _ h

theorem foldl_noteRecent_same (faults : List SmmProfileEntry)
    (h : ∀ f ∈ faults, f.key ∈ keys (mostRecent max noted)) : faults.foldl (noteRecent max) noted = noted := by
  induction faults with
  | nil => rfl
  | cons f rest ih =>
    have hstep : noteRecent max noted f = noted := if_pos (h f List.mem_cons_self)
    rw [List.foldl_cons, hstep]
    exact ih fun g hg => h g (List.mem_cons_of_mem f hg)

end

/-! ## Sequences of faults -/

section

variable {max : Nat} {ring : Bool} {noted : List SmmProfileEntry} {e : SmmProfileEntry}

theorem serve_append {early late : List SmmProfileEntry} {s t : ProfileLog}
    (h : serve (logFault ring) early s = .ret () t) :
    serve (logFault ring) (early ++ late) s = serve (logFault ring) late t := by
  induction early generalizing s with
  | nil => cases h; rfl
  | cons f rest ih =>
    obtain ⟨_, u, hf, hrest⟩ := ret_of_bind h
    rw [List.cons_append, serve, bind_of_ret hf]
    exact ih hrest

theorem serve_filledLog (faults : List SmmProfileEntry) : ∀ noted : List SmmProfileEntry,
    (faults.foldl noteFirst noted).length ≤ max →
    serve (logFault ring) faults (filledLog max noted) = .ret () (filledLog max (faults.foldl noteFirst noted)) := by
  induction faults with
  | nil => intro noted _; rfl
  | cons e rest ih =>
    intro noted h
    have hstep : logFault ring e (filledLog max noted) = .ret () (filledLog max (noteFirst noted e)) := by
      by_cases hmem : e.key ∈ keys noted
      · rw [noteFirst_of_mem hmem, logFault_filledLog_same hmem]
      · have hle := (prefix_foldl_noteFirst rest (noteFirst noted e)).length_le.trans h
        rw [noteFirst_of_new hmem] at hle ⊢
        rw [List.length_append, List.length_singleton] at hle
        exact logFault_filledLog_new hmem hle
    rw [serve, bind_of_ret hstep]
    exact ih _ h

theorem serve_noRing (faults : List SmmProfileEntry) : ∀ noted : List SmmProfileEntry,
    noted.length ≤ max → (keys noted).Nodup →
    ∃ noted', serve (logFault false) faults (filledLog max noted) = .ret () (filledLog max noted') ∧
      (keys noted').Nodup := by
  induction faults with
  | nil =>
    intro noted _ hnodup
    exact ⟨noted, rfl, hnodup⟩
  | cons e rest ih =>
    intro noted hle hnodup
    by_cases hmem : e.key ∈ keys noted
    · rw [serve, bind_of_ret (logFault_filledLog_same hmem)]
      exact ih noted hle hnodup
    · rcases Nat.lt_or_eq_of_le hle with hlt | hfull
      · have hnodup' := nodup_noteFirst (e := e) hnodup
        rw [noteFirst_of_new hmem] at hnodup'
        rw [serve, bind_of_ret (logFault_filledLog_new hmem hlt)]
        exact ih _ (by rw [List.length_append, List.length_singleton]; exact hlt) hnodup'
      · rw [serve, bind_of_ret (logFault_filledLog_full hmem hfull)]
        exact ih noted hle hnodup

theorem serve_wrappedLog (hfull : noted.length = max) (hpos : 0 < max) (late : List SmmProfileEntry)
    {s : ProfileLog} :
    serve (logFault ring) late (wrappedLog max noted e) = .ret () s ↔
      s = wrappedLog max noted e ∧ ∀ f ∈ late, f.key ∈ keys (e :: noted.tail) := by
  induction late with
  | nil =>
    constructor
    · intro h
      cases h
      exact ⟨rfl, fun f hf => nomatch hf⟩
    · rintro ⟨rfl, -⟩
      rfl
  | cons f rest ih =>
    by_cases hmem : f.key ∈ keys (e :: noted.tail)
    · rw [serve, bind_of_ret (logFault_wrappedLog_same hmem hfull hpos), ih, List.forall_mem_cons]
      exact and_congr_right fun _ => (and_iff_right hmem).symm
    · rw [serve, bind_of_stop (logFault_wrappedLog_new hmem hfull hpos)]
      constructor
      · intro h
        cases h
      · rintro ⟨-, h⟩
        exact absurd (h f List.mem_cons_self) hmem

theorem serve_to_wrap {early late : List SmmProfileEntry} (hfull : (firsts early).length = max)
    (hnew : e.key ∉ keys (firsts early)) (hpos : 0 < max) :
    serve (logFault true) (early ++ e :: late) (emptyLog max) =
      serve (logFault true) late (wrappedLog max (firsts early) e) := by
  have hearly : serve (logFault true) early (emptyLog max) = .ret () (filledLog max (firsts early)) := by
    rw [← filledLog_nil]
    exact serve_filledLog early [] (Nat.le_of_eq hfull)
  rw [serve_append hearly, serve, bind_of_ret (logFault_filledLog_wrap hnew hfull hpos)]

theorem mem_keys_wrapped {key : FaultKey} :
    key ∈ keys (e :: noted.tail) ↔ key ∈ keys (noted.tail ++ [e]) := by
  simp only [keys, List.map_cons, List.map_append, List.map_nil, List.mem_cons, List.mem_append, List.not_mem_nil,
    or_false]
  exact or_comm

theorem mostRecent_overflow (hfull : noted.length = max) (hpos : 0 < max) :
    mostRecent max (noted ++ [e]) = noted.tail ++ [e] := by
  cases noted with
  | nil => exact absurd hfull (Nat.ne_of_lt hpos)
  | cons d rest =>
    rw [mostRecent, List.length_append, List.length_singleton, hfull, Nat.add_sub_cancel_left]
    rfl

end

/-! ## The condition -/

section

variable {max : Nat} {faults : List SmmProfileEntry}

theorem kept_of_few {ring : Bool} (h : (firsts faults).length ≤ max) : LogKept max ring faults := by
  have hrun : serve (logFault ring) faults (emptyLog max) = .ret () (filledLog max (firsts faults)) := by
    rw [← filledLog_nil]
    exact serve_filledLog faults [] h
  have hstored : (filledLog max (firsts faults)).stored = firsts faults := by
    simp [filledLog, ProfileLog.stored]
  refine ⟨_, hrun, ?_, fun _ => ?_⟩
  · rw [hstored]
    exact nodup_foldl_noteFirst faults [] List.nodup_nil
  · rw [hstored, foldl_noteRecent_eq faults [] h, ← firsts, mostRecent_of_le h]

theorem kept_of_noRing (max : Nat) (faults : List SmmProfileEntry) : LogKept max false faults := by
  obtain ⟨noted, hrun, hnodup⟩ := @serve_noRing max faults [] (Nat.zero_le max) List.nodup_nil
  have hstored : (filledLog max noted).stored = noted := by
    simp [filledLog, ProfileLog.stored]
  rw [filledLog_nil] at hrun
  exact ⟨_, hrun, by rwa [hstored], fun h => nomatch h⟩

theorem kept_of_wrapped {early late : List SmmProfileEntry} {e : SmmProfileEntry} (hpos : 0 < max)
    (hfull : (firsts early).length = max) (hnew : e.key ∉ keys (firsts early))
    (hlate : ∀ f ∈ late, f.key ∈ keys ((firsts early).tail ++ [e])) : LogKept max true (early ++ e :: late) := by
  have hstored : (wrappedLog max (firsts early) e).stored = e :: (firsts early).tail := by
    have hlength := length_wrappedLog (e := e) hfull hpos
    exact List.take_of_length_le (Nat.le_succ_of_le (Nat.le_of_eq hlength))
  have hrun : serve (logFault true) late (wrappedLog max (firsts early) e) =
      .ret () (wrappedLog max (firsts early) e) :=
    (serve_wrappedLog hfull hpos late).mpr ⟨rfl, fun f hf => mem_keys_wrapped.mpr (hlate f hf)⟩
  refine ⟨wrappedLog max (firsts early) e, (serve_to_wrap hfull hnew hpos).trans hrun, ?_, fun _ => ?_⟩
  · have hnodup := nodup_foldl_noteFirst early [] List.nodup_nil
    rw [hstored, keys, List.map_cons, List.nodup_cons]
    constructor
    · intro hmem
      obtain ⟨x, hx, hkey⟩ := List.mem_map.mp hmem
      exact hnew (List.mem_map.mpr ⟨x, List.mem_of_mem_tail hx, hkey⟩)
    · rw [List.map_tail]
      exact hnodup.tail
  · have hnoted : (early ++ e :: late).foldl (noteRecent max) [] = firsts early ++ [e] := by
      have hstep : noteRecent max (firsts early) e = firsts early ++ [e] := by
        rw [noteRecent, mostRecent_of_le (Nat.le_of_eq hfull), if_neg hnew]
      rw [List.foldl_append, foldl_noteRecent_eq early [] (Nat.le_of_eq hfull), List.foldl_cons, ← firsts, hstep]
      apply foldl_noteRecent_same
      rwa [mostRecent_overflow hfull hpos]
    rw [hstored, hnoted, mostRecent_overflow hfull hpos]
    exact (List.perm_append_singleton e _).symm

theorem ringSafe_of_kept (hpos : 0 < max) (h : LogKept max true faults) : RingSafe max faults := by
  by_cases hfew : (firsts faults).length ≤ max
  · exact .inl hfew
  · obtain ⟨early, e, late, rfl, hfull, hnew⟩ := exists_overflow faults [] (Nat.zero_le max) (Nat.not_le.mp hfew)
    obtain ⟨s, hrun, -, -⟩ := h
    change (firsts early).length = max at hfull
    change e.key ∉ keys (firsts early) at hnew
    rw [serve_to_wrap hfull hnew hpos, serve_wrappedLog hfull hpos late] at hrun
    exact .inr ⟨early, e, late, rfl, hfull, hnew, fun f hf => mem_keys_wrapped.mp (hrun.2 f hf)⟩

theorem RingSafe.of_prefix {early : List SmmProfileEntry} (h : RingSafe max faults) (hearly : early <+: faults) :
    RingSafe max early := by
  rcases h with hfew | ⟨before, e, late, rfl, hfull, hnew, hlate⟩
  · exact .inl ((length_firsts_le_of_early hearly).trans hfew)
  · rcases List.prefix_or_prefix_of_prefix hearly (List.prefix_append before (e :: late)) with hshort | ⟨rest, rfl⟩
    · exact .inl ((length_firsts_le_of_early hshort).trans (Nat.le_of_eq hfull))
    · rw [List.prefix_append_right_inj, List.prefix_cons_iff] at hearly
      rcases hearly with rfl | ⟨late', rfl, hlate'⟩
      · rw [List.append_nil]
        exact .inl (Nat.le_of_eq hfull)
      · exact .inr ⟨before, e, late', rfl, hfull, hnew, fun f hf => hlate f (hlate'.mem hf)⟩

theorem kept_of_ringSafe (hpos : 0 < max) (h : RingSafe max faults) : LogKept max true faults := by
  rcases h with hfew | ⟨early, e, late, rfl, hfull, hnew, hlate⟩
  · exact kept_of_few hfew
  · exact kept_of_wrapped hpos hfull hnew hlate

theorem maxEntries_pos (morePages : Nat) : 0 < maxEntries morePages := by
  show 0 < (0x1000 * (morePages + 1) - 72) / 56
  omega

/-- In every state of a run the log keeps to its buffer, exactly if the ring is off, or no more different faults
occur than there is room for, or one more and then not the first one again. -/
theorem logFault_kept_iff (morePages : Nat) (ring : Bool) (faults : List SmmProfileEntry) :
    (∀ early, early <+: faults → LogKept (maxEntries morePages) ring early) ↔
      ring = false ∨ RingSafe (maxEntries morePages) faults := by
  have hpos := maxEntries_pos morePages
  cases ring with
  | false => exact ⟨fun _ => .inl rfl, fun _ early _ => kept_of_noRing _ early⟩
  | true =>
    constructor
    · intro h
      exact .inr (ringSafe_of_kept hpos (h faults List.prefix_rfl))
    · rintro (hoff | hsafe) early hearly
      · cases hoff
      · exact kept_of_ringSafe hpos (hsafe.of_prefix hearly)

theorem foldl_noteFirst_of_nodup (faults : List SmmProfileEntry) : ∀ noted : List SmmProfileEntry,
    (keys (noted ++ faults)).Nodup → faults.foldl noteFirst noted = noted ++ faults := by
  induction faults with
  | nil => intro noted _; exact (List.append_nil noted).symm
  | cons e rest ih =>
    intro noted h
    have hnew : e.key ∉ keys noted := by
      rw [keys, List.map_append] at h
      exact fun hmem => List.disjoint_of_nodup_append h hmem List.mem_cons_self
    have hsplit : noted ++ e :: rest = noted ++ [e] ++ rest := List.append_cons noted e rest
    rw [List.foldl_cons, noteFirst_of_new hnew, hsplit]
    rw [hsplit] at h
    exact ih _ h

theorem firsts_of_nodup (h : (keys faults).Nodup) : firsts faults = faults :=
  foldl_noteFirst_of_nodup faults [] h

theorem length_le_of_ringSafe (h : RingSafe max faults) (hnodup : (keys faults).Nodup) : faults.length ≤ max + 1 := by
  rcases h with hfew | ⟨early, e, late, rfl, hfull, -, hlate⟩
  · rw [firsts_of_nodup hnodup] at hfew
    exact Nat.le_succ_of_le hfew
  · rw [List.append_cons, keys, List.map_append] at hnodup
    have hearly : firsts early = early := by
      rw [List.map_append] at hnodup
      exact firsts_of_nodup hnodup.of_append_left.of_append_left
    rw [hearly] at hfull hlate
    cases late with
    | nil =>
      rw [List.length_append, List.length_singleton, hfull]
    | cons f rest =>
      have hmem : f.key ∈ keys (early ++ [e]) := by
        have hin := hlate f List.mem_cons_self
        rw [keys, List.map_append, List.mem_append] at hin ⊢
        rcases hin with hin | hin
        · rw [List.map_tail] at hin
          exact .inl (List.mem_of_mem_tail hin)
        · exact .inr hin
      exact absurd List.mem_cons_self (List.disjoint_of_nodup_append hnodup hmem)

def faultAt (address : Nat) : SmmProfileEntry := ⟨1, 0, 0, 2, 0x7F001000, BitVec.ofNat 64 address, 0xFFFFFFFFFFFFFFFF⟩

/-- 73 faults in ring mode, in a profile of one page, which has 71 entries: the last fault is sought behind the
end of the buffer. -/
theorem logFault_ring_73_faults : ¬ LogKept (maxEntries 0) true ((List.range 73).map faultAt) := by
  intro h
  have hnodup : (keys ((List.range 73).map faultAt)).Nodup := by
    rw [keys, List.map_map]
    refine List.Nodup.map_on ?_ List.nodup_range
    intro x hx y hy heq
    have haddress := congrArg (fun k : FaultKey => k.address.toNat) heq
    rw [List.mem_range] at hx hy
    simp only [Function.comp_apply, faultAt, SmmProfileEntry.key, BitVec.toNat_ofNat] at haddress
    omega
  have hle := length_le_of_ringSafe (ringSafe_of_kept (maxEntries_pos 0) h) hnodup
  rw [List.length_map, List.length_range] at hle
  exact absurd hle (by decide)

end

end Quark.PiSmmCpu
