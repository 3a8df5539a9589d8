import Quark.CapsuleSecurity.FirstPass
import Quark.Library.Proofs.MfhLookupProofs

/-!
# Proofs: the stage 1 items of an MFH

`SetMfhGlobals` stores one item after the other without looking at the size of `mStage1MfhList`, and a
valid MFH may have more stage 1 items than the list has room for.
-/

namespace Quark.CapsuleSecurity

open Machine MfhLib

/-- `SetMfhGlobals` returns and has not stored more than `mStage1MfhList` holds. -/
def GlobalsFit (asserts : Bool) (rd : Mem) (mfh : Nat) : Prop :=
  ∀ (σ : Type) (s : σ), ∃ status g,
    setMfhGlobals asserts rd (some mfh) s = .ret (status, g) s ∧
      g.mStage1MfhList.length ≤ maxStage1InMfh

abbrev stageItems (rd : Mem) (l : MfhLayout) : List Nat :=
  l.selectedItems rd findAllSignedStage1Stage2Filter

def isStage2Item (rd : Mem) (item : Nat) : Bool := itemType rd item = typeFwStage2Signed

def isListedStage1Item (rd : Mem) (item : Nat) : Bool :=
  itemType rd item = typeFwStage1Signed ∧ itemFlashAddress rd item ≠ pcdFlashFvFixedStage1AreaBase

/-- Up to the second stage 2 item there are no more stage 1 items than `mStage1MfhList` holds. -/
def FewStage1Items (rd : Mem) (items : List Nat) : Prop :=
  ∀ n, (items.take n).countP (isStage2Item rd) ≤ 1 →
    (items.take n).countP (isListedStage1Item rd) ≤ maxStage1InMfh

section

variable {rd : Mem}

theorem itemType_of_mem_stageItems {l : MfhLayout} {item : Nat} (h : item ∈ stageItems rd l) :
    itemType rd item = typeFwStage1Signed ∨ itemType rd item = typeFwStage2Signed := by
  obtain ⟨index, hindex, rfl⟩ := List.mem_map.mp h
  obtain ⟨hlt, hmatch⟩ := of_decide_eq_true (List.mem_filter.mp hindex).2
  have hbits : ∀ type < 64, isFilterMatch findAllSignedStage1Stage2Filter type = true →
      type = typeFwStage1Signed ∨ type = typeFwStage2Signed := by decide
  exact hbits _ hlt hmatch

theorem walk_noteItem_iff {items : List Nat}
    (htypes : ∀ item ∈ items, itemType rd item = typeFwStage1Signed ∨ itemType rd item = typeFwStage2Signed)
    (g : MfhGlobals) (hg : g.mStage1MfhList.length ≤ maxStage1InMfh) :
    (∃ r, walk (noteItem rd) (fun g => .ok (.success, g)) g items = .ok r ∧
        r.2.mStage1MfhList.length ≤ maxStage1InMfh) ↔
      ∀ n, g.mStage2MfhItem.isSome.toNat + (items.take n).countP (isStage2Item rd) ≤ 1 →
        g.mStage1MfhList.length + (items.take n).countP (isListedStage1Item rd) ≤ maxStage1InMfh := by
  induction items generalizing g with
  | nil => simp [walk, hg]
  | cons item items ih =>
    have hsplit : ∀ P : Nat → Prop, (∀ n, P n) ↔ P 0 ∧ ∀ n, P (n + 1) := fun P =>
      ⟨fun h => ⟨h 0, fun n => h (n + 1)⟩, fun h n => n.casesOn h.1 h.2⟩
    have hrest := fun i hi => htypes i (List.mem_cons_of_mem item hi)
    rw [hsplit]
    simp only [List.take_zero, List.countP_nil, Nat.add_zero, hg, implies_true, true_and,
      List.take_succ_cons, List.countP_cons]
    unfold walk noteItem
    by_cases hstage2 : itemType rd item = typeFwStage2Signed
    · have hnot : isListedStage1Item rd item = false := by
        simp [isListedStage1Item, hstage2, typeFwStage1Signed, typeFwStage2Signed]
      have hyes : isStage2Item rd item = true := by simp [isStage2Item, hstage2]
      rw [if_pos hstage2]
      simp only [hnot, hyes, if_true, Bool.false_eq_true, if_false, Nat.add_zero]
      by_cases hseen : g.mStage2MfhItem.isSome = true
      · -- the second stage 2 item
        rw [if_pos hseen, hseen]
        refine iff_of_true ⟨_, rfl, hg⟩ fun n h => ?_
        rw [Bool.toNat_true] at h
        omega
      · rw [if_neg hseen, eq_false_of_ne_true hseen]
        refine (ih hrest { g with mStage2MfhItem := some item } hg).trans ?_
        refine forall_congr' fun n => ?_
        simp only [Option.isSome_some, Bool.toNat_true, Bool.toNat_false, Nat.zero_add]
        rw [Nat.add_comm 1]
    · have hstage1 := (htypes item List.mem_cons_self).resolve_right hstage2
      have hyes : isStage2Item rd item = false := by simp [isStage2Item, hstage2]
      rw [if_neg hstage2]
      simp only [hyes, Bool.false_eq_true, if_false, Nat.add_zero]
      by_cases hfixed : itemFlashAddress rd item = pcdFlashFvFixedStage1AreaBase
      · have hnot : isListedStage1Item rd item = false := by simp [isListedStage1Item, hfixed]
        rw [if_neg (not_not.mpr hfixed)]
        simp only [hnot, Bool.false_eq_true, if_false, Nat.add_zero]
        exact ih hrest g hg
      · have hlisted : isListedStage1Item rd item = true := by
          simp [isListedStage1Item, hstage1, hfixed]
        rw [if_pos hfixed]
        simp only [hlisted, if_true]
        unfold storeStage1
        by_cases hroom : g.mStage1MfhList.length < maxStage1InMfh
        · rw [if_pos hroom]
          have hlen : (g.mStage1MfhList ++ [item]).length = g.mStage1MfhList.length + 1 := by simp
          refine (ih hrest { g with mStage1MfhList := g.mStage1MfhList ++ [item] }
            (by rw [hlen]; omega)).trans ?_
          refine forall_congr' fun n => ?_
          dsimp only
          rw [hlen, Nat.add_assoc, Nat.add_comm 1]
        · rw [if_neg hroom]
          refine iff_of_false ?_ fun h => ?_
          · rintro ⟨r, hr, -⟩
            cases hr
          · have hseen : g.mStage2MfhItem.isSome.toNat ≤ 1 := Bool.toNat_le _
            have := h 0 (by simpa using hseen)
            omega

theorem setMfhGlobals_eq (asserts : Bool) {mfh : Nat} {l : MfhLayout}
    (hvalid : mfhLibValidateMfhBaseAddress rd mfh = some l) {σ : Type} (s : σ) :
    setMfhGlobals asserts rd (some mfh) s =
      settle s (walk (noteItem rd) (fun g => .ok (.success, g)) ⟨[], none⟩ (stageItems rd l)) := by
  have hyields := yields_all asserts rd (some mfh) findAllSignedStage1Stage2Filter
  have hitems : itemsOf rd (some mfh) findAllSignedStage1Stage2Filter = stageItems rd l := itemsOf_eq hvalid
  rw [hitems] at hyields
  have hlen : (stageItems rd l).length ≤ mfhMaxNumFlashItems :=
    (length_selectedItems_le l findAllSignedStage1Stage2Filter).trans (flashItemCount_le_of_valid hvalid)
  refine loop_of_yields (setMfhGlobalsBody asserts rd) (fun g next => (g, next)) (noteItem rd)
    (fun g => (.success, g)) s (fun _ => rfl) (fun g item ctx => ?_) hyields (Nat.lt_succ_of_le hlen)
    ⟨[], none⟩
  dsimp only [setMfhGlobalsBody]
  rcases noteItem rd g item with g' | (w | r)
  · rfl
  · rfl
  · rfl

/-- No more is stored than the list holds if and only if the MFH has few enough stage 1 items up to its
second stage 2 item. -/
theorem globalsFit_iff (asserts : Bool) {mfh : Nat} {l : MfhLayout}
    (hvalid : mfhLibValidateMfhBaseAddress rd mfh = some l) :
    GlobalsFit asserts rd mfh ↔ FewStage1Items rd (stageItems rd l) := by
  have hwalk := @walk_noteItem_iff rd (stageItems rd l)
    (fun item h => itemType_of_mem_stageItems h) ⟨[], none⟩ (Nat.zero_le _)
  simp only [Option.isSome_none, Bool.toNat_false, List.length_nil, Nat.zero_add] at hwalk
  refine Iff.trans ?_ hwalk
  unfold GlobalsFit
  simp only [setMfhGlobals_eq asserts hvalid]
  cases hitems : walk (noteItem rd) (fun g => .ok (.success, g)) ⟨[], none⟩ (stageItems rd l) with
  | error w =>
    refine iff_of_false (fun h => ?_) ?_
    · obtain ⟨status, g, hrun, -⟩ := h Unit ()
      cases hrun
    · rintro ⟨r, hr, -⟩
      cases hr
  | ok r =>
    constructor
    · intro h
      obtain ⟨status, g, hrun, hlen⟩ := h Unit ()
      injection hrun with hrun _
      exact ⟨r, rfl, by rw [hrun]; exact hlen⟩
    · rintro ⟨r', hr, hlen⟩ σ s
      injection hr with hr
      subst hr
      exact ⟨r.1, r.2, rfl, hlen⟩

end

theorem globalsFit_iff_sample :
    GlobalsFit true (sampleMfh 0) pcdFlashNvMfh := by
  have hvalid : mfhLibValidateMfhBaseAddress (sampleMfh 0) pcdFlashNvMfh = some sampleLayout := by rfl
  refine (globalsFit_iff true hvalid).mpr fun n _ => ?_
  have hitems : stageItems (sampleMfh 0) sampleLayout = [pcdFlashNvMfh + 28] := by rfl
  rw [hitems]
  refine List.countP_le_length.trans ((List.length_take_le' _ _).trans ?_)
  rw [List.length_singleton]
  decide

def crowdedMfh : Mem := fun a =>
  if a < pcdFlashNvMfh + 24 then
    Mem.ofWords [(pcdFlashNvMfh, mfhIdentifier), (pcdFlashNvMfh + 16, 21)] a
  else
    match (a - (pcdFlashNvMfh + 24)) % 16 with
    | 0 => 1
    | 6 => UInt8.ofNat (0x80 + (a - (pcdFlashNvMfh + 24)) / 16)
    | 7 => 0xFF
    | _ => 0

theorem crowded_mfh_overruns :
    mfhLibValidateMfhBaseAddress crowdedMfh pcdFlashNvMfh =
        some ⟨pcdFlashNvMfh, pcdFlashNvMfh + 24, pcdFlashNvMfh + 24, 360⟩ ∧
      ¬ GlobalsFit true crowdedMfh pcdFlashNvMfh := by
  have hvalid : mfhLibValidateMfhBaseAddress crowdedMfh pcdFlashNvMfh =
      some ⟨pcdFlashNvMfh, pcdFlashNvMfh + 24, pcdFlashNvMfh + 24, 360⟩ := by rfl
  refine ⟨hvalid, fun hfit => ?_⟩
  have hrun : setMfhGlobals true crowdedMfh (some pcdFlashNvMfh) () = .stop .outOfBounds () := by rfl
  obtain ⟨status, g, hret, -⟩ := hfit Unit ()
  rw [hrun] at hret
  cases hret

end Quark.CapsuleSecurity
