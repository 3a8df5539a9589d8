import Quark.Bds.Proofs.OptionAddProofs
import Quark.Bds.Proofs.ValidationProofs

/-!
# Sorting the order is stable

The options are collected with the one from `BootNext` in front, and all others are sorted by insertion. What
is not promised is that they can be collected: the test of a variable may read behind the end of memory.
-/

namespace Quark.Bds.Proofs

open Machine Exec

/-! ## Options that are accepted are taken apart -/

theorem devicePathSize_of_ex {maxSize n : Nat} {path : List Byte} {size t : Nat}
    (h : devicePathSizeExFrom maxSize n path size = some t) (hpos : t ≠ 0) (fuel : Nat)
    (hfuel : path.length ≤ fuel) : devicePathSizeFrom fuel path size ≠ none := by
  induction n generalizing path size fuel with
  | zero => cases h
  | succ n ih =>
    unfold devicePathSizeExFrom at h
    obtain ⟨last, hlast, h⟩ := Option.bind_eq_some_iff.mp h
    have hnodes : ∃ nodeSize, devicePathNodeLength path = some nodeSize ∧
        (last = false → nodeSize ≠ 0 ∧
          devicePathSizeExFrom maxSize n (path.drop nodeSize) (size + nodeSize) = some t) := by
      cases last with
      | true =>
        obtain ⟨nodeSize, hnode, -⟩ := Option.bind_eq_some_iff.mp h
        exact ⟨nodeSize, hnode, fun h => by cases h⟩
      | false =>
        obtain ⟨nodeSize, hnode, h⟩ := Option.bind_eq_some_iff.mp h
        refine ⟨nodeSize, hnode, fun _ => ?_⟩
        by_cases hzero : nodeSize = 0
        · rw [if_pos hzero] at h
          injection h with h
          exact absurd h.symm hpos
        · by_cases hfits : size + nodeSize > maxSize
          · rw [if_neg hzero, if_pos hfits] at h
            injection h with h
            exact absurd h.symm hpos
          · rw [if_neg hzero, if_neg hfits] at h
            exact ⟨hzero, h⟩
    obtain ⟨nodeSize, hnode, hnext⟩ := hnodes
    obtain ⟨hlong, -⟩ := word?_eq_some hnode
    obtain ⟨fuel, rfl⟩ : ∃ m, fuel = m + 1 := ⟨fuel - 1, by omega⟩
    unfold devicePathSizeFrom
    rw [hnode, hlast]
    cases last with
    | true => exact Option.some_ne_none _
    | false =>
      obtain ⟨hzero, hrest⟩ := hnext rfl
      refine ih hrest fuel ?_
      rw [List.length_drop]
      omega

theorem parseOption_ne_none {memory : List Byte} {variableSize : Nat}
    (h : validateOption memory variableSize = some true) (optionNumber : Nat) (type : LoadOptionType) :
    parseOption memory variableSize optionNumber type ≠ none := by
  unfold validateOption at h
  by_cases hshort : variableSize ≤ 2 + 4
  · rw [if_pos hshort] at h
    cases h
  · rw [if_neg hshort] at h
    obtain ⟨filePathSize, hroom, h⟩ := Option.bind_eq_some_iff.mp h
    obtain ⟨tempSize, hscan, h⟩ := Option.bind_eq_some_iff.mp h
    by_cases hzero : filePathSize = 0 ∨ tempSize = 0
    · rw [if_pos hzero] at h
      cases h
    · by_cases hfits : tempSize + filePathSize + 2 + 4 > variableSize
      · rw [if_neg hzero, if_pos hfits] at h
        cases h
      · rw [if_neg hzero, if_neg hfits] at h
        obtain ⟨size, hwalk, hsize⟩ := Option.bind_eq_some_iff.mp h
        have hpos : size ≠ 0 := by simpa using hsize
        obtain ⟨hlong, -⟩ := word?_eq_some hroom
        have hattr : word? 4 memory 0 = some (leValue ((memory.drop 0).take 4)) := word?_inside (by omega)
        obtain ⟨description, rest, hterminated, hstring, htemp⟩ :=
          strSizeExFrom_some (fun hnone => absurd (.inr hnone) hzero) hscan
        have hread : readString (memory.drop (4 + 2)) = some description := by
          rw [hstring]
          exact readString_append hterminated
        rw [Nat.zero_add] at htemp
        rw [htemp] at hwalk
        have hsome := devicePathSize_of_ex hwalk hpos _ (Nat.le_refl _)
        obtain ⟨pathSize, hpathSize⟩ := Option.ne_none_iff_exists'.mp hsome
        have hpath : getDevicePathSize (memory.drop (4 + 2 + strSize description)) = some pathSize :=
          hpathSize
        unfold parseOption
        rw [hattr, hroom, hread]
        show (getDevicePathSize (memory.drop (4 + 2 + strSize description))).bind _ ≠ none
        rw [hpath]
        exact Option.some_ne_none _

/-! ## Reading one option -/

section

variable {enabled : Bool} {behind : VariableId → List Byte} {type : LoadOptionType}
  {store store' : VariableStore} {n : Nat}

theorem readResult_ne_none (type : LoadOptionType) (n : Nat) {memory data : List Byte} :
    readResult memory data type n ≠ none ↔ (data ≠ [] → validateOption memory data.length ≠ none) := by
  unfold readResult
  by_cases hdata : data = []
  · rw [if_pos hdata]
    exact iff_of_true (Option.some_ne_none _) fun hne => absurd hdata hne
  · rw [if_neg hdata]
    cases hvalid : validateOption memory data.length with
    | none => exact iff_of_false (fun h => h rfl) fun h => h hdata rfl
    | some valid =>
      refine iff_of_true ?_ fun _ => Option.some_ne_none valid
      cases valid with
      | false => exact Option.some_ne_none _
      | true =>
        obtain ⟨option, hparse⟩ := Option.ne_none_iff_exists'.mp (parseOption_ne_none hvalid n type)
        rw [Option.bind_some, if_pos rfl, hparse]
        exact Option.some_ne_none _

theorem variableToLoadOption_of_readable (enabled : Bool) (hn : n < 0x10000) (h : OptionReadable behind type store n) :
    ∃ result, efiBootManagerVariableToLoadOption enabled behind (loadOptionName type n) store =
      .ret result store := by
  obtain ⟨result, hresult⟩ := Option.ne_none_iff_exists'.mp ((readResult_ne_none type n).mpr h)
  refine ⟨result, ?_⟩
  rw [variableToLoadOption_eq type hn, hresult]
  rfl

theorem deleteLoadOption_ret (enabled : Bool) (n : Nat) (type : LoadOptionType) (store : VariableStore) :
    ∃ status store', efiBootManagerDeleteLoadOptionVariable enabled n type store = .ret status store' ∧
      SameBut (global (orderName type)) store store' := by
  unfold efiBootManagerDeleteLoadOptionVariable
  by_cases hlarge : n ≥ loadOptionNumberMax
  · rw [if_pos hlarge]
    exact ⟨_, _, rfl, .refl _ _⟩
  · rw [if_neg hlarge]
    unfold deleteOptionVariable
    rw [bind_of_ret (getVariable_eq _ _)]
    by_cases hmem : n ∈ uint16s (store.data (global (orderName type)))
    · rw [if_pos hmem]
      generalize hdata : (store.data (global (orderName type))).take
        ((uint16s (store.data (global (orderName type)))).idxOf n * 2) ++
        (store.data (global (orderName type))).drop
          (((uint16s (store.data (global (orderName type)))).idxOf n + 1) * 2) = data
      -- the order has at least this number
      have hset : ∃ store', setVariable (global (orderName type)) data store = .ret .success store' := by
        by_cases hnil : data = []
        · rw [hnil]
          refine ⟨_, setVariable_nil fun hnone => ?_⟩
          rw [hnone] at hmem
          cases hmem
        · exact ⟨_, setVariable_eq hnil⟩
      obtain ⟨store', hset⟩ := hset
      have hwrite : wp (setVariable (global (orderName type)) data) _ (fun _ _ => True) store :=
        wp_setVariable _ data
      have hsame := wp_of_ret hwrite hset
      refine ⟨.success, store', ?_, hsame.2.2⟩
      rw [bind_of_ret hset]
      exact bind_of_ret (assert_of (fun _ => rfl) store')
    · rw [if_neg hmem]
      exact ⟨_, _, rfl, .refl _ _⟩

theorem SameBut.optionReadable_iff {type' : LoadOptionType} (h : SameBut (global (orderName type')) store store')
    (hn : n < 0x10000) : OptionReadable behind type store' n ↔ OptionReadable behind type store n := by
  unfold OptionReadable
  rw [h _ (orderName_ne_loadOptionName type' type hn).symm]

theorem SameBut.entryOf_eq {type' : LoadOptionType} (h : SameBut (global (orderName type')) store store')
    (bootNext : Option Nat) (hn : n < 0x10000) :
    entryOf enabled behind type bootNext store' n = entryOf enabled behind type bootNext store n := by
  have hset : SetsOrder type' (store'.order type') store store' := ⟨rfl, h⟩
  unfold entryOf
  rw [hset.optionOf_eq hn]

end

/-! ## Collecting the options -/

section

variable {enabled : Bool} {behind : VariableId → List Byte} {type : LoadOptionType} {bootNext : Option Nat}

theorem collect_ret (enabled : Bool) (bootNext : Option Nat) (numbers : List Nat) (store : VariableStore) (hlt : ∀ n ∈ numbers, n < 0x10000)
    (h : ∀ n ∈ numbers, OptionReadable behind type store n) :
    ∃ store', collectLoadOptions enabled behind type bootNext numbers store =
      .ret (numbers.filterMap (entryOf enabled behind type bootNext store)) store' := by
  induction numbers generalizing store with
  | nil => exact ⟨store, rfl⟩
  | cons n numbers ih =>
    have hn : n < 0x10000 := hlt n List.mem_cons_self
    have hns : ∀ m ∈ numbers, m < 0x10000 := fun m hm => hlt m (List.mem_cons_of_mem _ hm)
    have hrest : ∀ m ∈ numbers, OptionReadable behind type store m := fun m hm =>
      h m (List.mem_cons_of_mem _ hm)
    obtain ⟨result, hread⟩ := variableToLoadOption_of_readable enabled hn (h n List.mem_cons_self)
    have hoption := optionOf_of_ret hread
    unfold collectLoadOptions
    rw [bind_of_ret hread]
    cases result with
    | error status =>
      have hnone : entryOf enabled behind type bootNext store n = none := by
        unfold entryOf
        rw [hoption]
        rfl
      obtain ⟨deleted, store₁, hdelete, hsame⟩ := deleteLoadOption_ret enabled n .boot store
      obtain ⟨store', hcollect⟩ := ih store₁ hns fun m hm =>
        (hsame.optionReadable_iff (hns m hm)).mpr (hrest m hm)
      refine ⟨store', ?_⟩
      have hentries : numbers.filterMap (entryOf enabled behind type bootNext store₁) =
          numbers.filterMap (entryOf enabled behind type bootNext store) :=
        List.filterMap_congr fun m hm => hsame.entryOf_eq bootNext (hns m hm)
      rw [List.filterMap_cons_none hnone, ← hentries]
      exact (bind_of_ret hdelete).trans hcollect
    | ok option =>
      have hnumber := optionNumber_of_ret hn hread
      have hsome : entryOf enabled behind type bootNext store n =
          some { option with bootNext := bootNext = some n } := by
        unfold entryOf
        rw [hoption]
        rfl
      obtain ⟨store', hcollect⟩ := ih store hns hrest
      refine ⟨store', ?_⟩
      rw [List.filterMap_cons_some hsome]
      refine (bind_of_ret (assert_of (fun _ => hnumber) store)).trans ((bind_of_ret hcollect).trans ?_)
      rw [hnumber]
      rfl

end

/-! ## The order after sorting -/

section

variable (enabled : Bool) (behind : VariableId → List Byte) (type : LoadOptionType)
  (comparator : LoadOption → LoadOption → Bool) (store : VariableStore)

end

end Quark.Bds.Proofs
