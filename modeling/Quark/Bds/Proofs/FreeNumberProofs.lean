import Quark.Bds.Proofs.OptionAddProofs

/-!
# The free option number

The bound of the search is the length of the order, and one more for `BootNext`; so many numbers cannot take
all the numbers up to the bound.
-/

namespace Quark.Bds.Proofs

open Machine Exec

variable {behind : VariableId → List Byte} {store : VariableStore}

def Taken (behind : VariableId → List Byte) (store : VariableStore) (type : LoadOptionType) (n : Nat) : Prop :=
  n ∈ store.order type ∨ bootNextOf behind store type = some n

def FreeNumber (taken : Nat → Prop) : Except EfiStatus Nat → Prop
  | .ok n => n < loadOptionNumberMax ∧ ¬ taken n ∧ ∀ m < n, taken m
  | .error status => status = .outOfResources ∧ ∀ m < loadOptionNumberMax, taken m

theorem mem_used_iff {type : LoadOptionType} {n : Nat} :
    n ∈ store.order type ++ (bootNextOf behind store type).toList ↔ Taken behind store type n := by
  rw [List.mem_append, Option.mem_toList, Taken]

theorem FreeNumber.unique {taken : Nat → Prop} {r r' : Except EfiStatus Nat} (h : FreeNumber taken r)
    (h' : FreeNumber taken r') : r = r' := by
  cases r with
  | ok n =>
    cases r' with
    | ok m =>
      rcases Nat.lt_trichotomy n m with hlt | rfl | hlt
      · exact absurd (h'.2.2 n hlt) h.2.1
      · rfl
      · exact absurd (h.2.2 m hlt) h'.2.1
    | error status => exact absurd (h'.2 n h.1) h.2.1
  | error status =>
    cases r' with
    | ok m => exact absurd (h.2 m h'.1) h'.2.1
    | error status' => rw [h.1, h'.1]

/-- The search returns the smallest number that is not taken, and runs out of them exactly when all 65536 are
taken. -/
theorem getFreeOptionNumber_exact (enabled : Bool) (type : LoadOptionType)
    (h : type = .boot → store.data (global (wide ['B', 'o', 'o', 't', 'N', 'e', 'x', 't'])) ≠ [] →
      2 ≤ (bootNextMemory behind store).length) :
    ∃ r, getFreeOptionNumber enabled behind type store = .ret r store ∧
      ∀ r', FreeNumber (Taken behind store type) r' ↔ r' = r := by
  obtain ⟨n, hleast, hrun⟩ := @getFreeOptionNumber_ret enabled behind store type h
  have hfree : ¬ Taken behind store type n := fun htaken => hleast.1 (mem_used_iff.mpr htaken)
  have hbefore : ∀ m < n, Taken behind store type m := fun m hm => mem_used_iff.mp (hleast.2 m hm)
  refine ⟨_, hrun, fun r' => ?_⟩
  have hresult : FreeNumber (Taken behind store type)
      (if n < loadOptionNumberMax then .ok n else .error .outOfResources) := by
    split
    next hlt => exact ⟨hlt, hfree, hbefore⟩
    next hge => exact ⟨rfl, fun m hm => hbefore m (Nat.lt_of_lt_of_le hm (Nat.not_lt.mp hge))⟩
  exact ⟨fun hr' => hr'.unique hresult, fun hr' => hr' ▸ hresult⟩

def storeWithBootNext : VariableStore :=
  ((∅ : VariableStore).insert (global (orderName .boot)) [0, 0, 1, 0, 1, 0]).insert
    (global (wide ['B', 'o', 'o', 't', 'N', 'e', 'x', 't'])) [2, 0]

theorem getFreeOptionNumber_exact_bootNext :
    ∃ r, getFreeOptionNumber true (fun _ => []) .boot storeWithBootNext = .ret r storeWithBootNext ∧
      ∀ r', FreeNumber (Taken (fun _ => []) storeWithBootNext .boot) r' ↔ r' = r :=
  getFreeOptionNumber_exact true .boot fun _ _ => by decide

end Quark.Bds.Proofs
