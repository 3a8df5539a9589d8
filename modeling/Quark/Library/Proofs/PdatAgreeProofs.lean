import Quark.Library.Proofs.PdatReadProofs

/-!
# The two lookups agree

Both walks pass the items that do not match. The mask of an identifier selects the items with that identifier,
and it is not the filter for any item.
-/

namespace Quark.PlatformDataLib

open Machine Record

variable {rd : Mem} {userArea : Option Nat} {items : List PdatItem} {itemId : Nat}

theorem mask_ne_findAny (hid : itemId < 64) : 2 ^ itemId ≠ findAnyItemFilter := by
  have hle : 2 ^ itemId ≤ 2 ^ 63 := Nat.pow_le_pow_right (by decide) (Nat.le_of_lt_succ hid)
  exact Nat.ne_of_lt (Nat.lt_of_le_of_lt hle (by decide))

theorem selectedBy_mask (hid : itemId < 64) :
    PdatItem.selectedBy (2 ^ itemId) = fun c => decide (c.identifier = itemId) := by
  funext c
  unfold PdatItem.selectedBy isFilterMatch
  rw [decide_eq_decide, or_iff_right (mask_ne_findAny hid), Nat.testBit_two_pow, decide_eq_true_iff, eq_comm]
  exact and_iff_right_of_imp fun h => h ▸ hid

/-- On an area that is valid and a sequence of whole items, the two lookups return the same item, or none when no
item has the identifier. -/
theorem pDatLibFindItem_eq_findFirst {crc : Nat}
    (hsuccess : pDatLibValidateArea rd (areaOf userArea) true crc = .success)
    (hfits : areaOf userArea + sizeofPdatAreaHeader + areaLength rd (areaOf userArea) < 0x100000000)
    (hitems : HasItems rd (areaOf userArea) items) (hid : itemId < 64) {fuel : Nat}
    (hfuel : areaLength rd (areaOf userArea) < fuel) (asserts doCrcCheck : Bool) (calcCrc calcCrc' : Nat)
    (ctx₀ : FindContext) :
    ∃ item ctx, pDatLibFindItem fuel asserts rd userArea itemId doCrcCheck calcCrc () = .ret item () ∧
      pDatLibFindFirstWithFilter fuel rd userArea (2 ^ itemId) calcCrc' ctx₀ () = .ret (item, ctx) () ∧
      (item = none ↔ ∀ c ∈ items, c.identifier ≠ itemId) := by
  have S : LookupSetup rd userArea items := ⟨valid_of_success hsuccess, hfits, hitems⟩
  have hlength := Nat.lt_of_le_of_lt (LookupSetup.length_le_areaLength S.walk) hfuel
  have hitem := (pDatLibFindItem_start S.valid fuel asserts itemId doCrcCheck calcCrc).trans
    (S.loop_findItem itemId hfuel)
  have hfirst := pDatLibFindFirstWithFilter_eq userArea (2 ^ itemId) calcCrc' ctx₀ () (valid_system S.valid) hfits
    hitems hlength
  rw [findIn, selectedBy_mask hid] at hfirst
  cases hloc : locate (fun c => decide (PdatItem.identifier c = itemId))
      (areaOf userArea + sizeofPdatAreaHeader) items with
  | none =>
    rw [hloc] at hitem hfirst
    refine ⟨none, _, hitem, hfirst, fun _ c hc => ?_, fun _ => rfl⟩
    exact of_decide_eq_false (locate_eq_none.mp hloc c hc)
  | some l =>
    rw [hloc] at hitem hfirst
    refine ⟨some l.1, _, hitem, hfirst, nofun, fun habsent => ?_⟩
    obtain ⟨before, hsplit, -, hl, -⟩ := locate_eq_some hloc
    exact absurd (of_decide_eq_true hl) (habsent l.2.1 (hsplit ▸ List.mem_append_right _ List.mem_cons_self))

theorem pDatLibFindItem_eq_findFirst_mac1 :
    ∃ item ctx, pDatLibFindItem 100 true sampleArea (some 0x1000) 4 false 0 () = .ret item () ∧
      pDatLibFindFirstWithFilter 100 sampleArea (some 0x1000) (2 ^ 4) 0 ⟨0, 0⟩ () = .ret (item, ctx) () ∧
      (item = none ↔ ∀ c ∈ [sampleMac0, sampleMac1], c.identifier ≠ 4) :=
  @pDatLibFindItem_eq_findFirst sampleArea (some 0x1000) [sampleMac0, sampleMac1] 4 0 valid_sampleArea (by decide)
    hasItems_sampleArea (by decide) 100 (by decide) true false 0 0 ⟨0, 0⟩

end Quark.PlatformDataLib
