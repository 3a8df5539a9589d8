import Mathlib.Data.List.Sort
import Mathlib.Data.List.Nodup
import Quark.Bds.Hotkey
import Quark.Bds.Proofs.LoadOptionProofs
import Quark.Library.Crc32

/-!
# The key options over runs

`IsKeyOptionVariable` reads the four digits of a name to base ten, and takes the letters for the digits
0 to 5. The number it arrives at is the one in the name as long as that is a single decimal digit, and
smaller otherwise. While all live key options have such names everything works; the next one does not.
-/

namespace Quark.Bds.Proofs

open Machine Exec

/-! ## Names -/

section Names

def digitRead (d : Nat) : Nat := if d < 10 then d else d - 10

def numberRead (n : Nat) : Nat :=
  ((digitRead (n / 0x1000 % 16) * 10 + digitRead (n / 0x100 % 16)) * 10 +
    digitRead (n / 0x10 % 16)) * 10 + digitRead (n % 16)

theorem digitRead_le (d : Nat) : digitRead d ≤ d := by
  unfold digitRead
  split <;> omega

theorem digitRead_lt {d : Nat} (h : d < 16) : digitRead d < 10 := by
  unfold digitRead
  split <;> omega

theorem digits_le (n : Nat) : n / 0x1000 % 16 * 0x1000 + n / 0x100 % 16 * 0x100 + n / 0x10 % 16 * 0x10 +
    n % 16 ≤ n := by
  have e₃ : n / 0x100 / 16 = n / 0x1000 := Nat.div_div_eq_div_mul n 0x100 16
  have e₂ : n / 0x10 / 16 = n / 0x100 := Nat.div_div_eq_div_mul n 0x10 16
  omega

theorem numberRead_le (n : Nat) : numberRead n ≤ n := by
  have h₃ := digitRead_le (n / 0x1000 % 16)
  have h₂ := digitRead_le (n / 0x100 % 16)
  have h₁ := digitRead_le (n / 0x10 % 16)
  have h₀ := digitRead_le (n % 16)
  have hn := digits_le n
  unfold numberRead
  omega

theorem numberRead_of_lt {n : Nat} (h : n < 10) : numberRead n = n := by
  have h₃ : n / 0x1000 % 16 = 0 := by omega
  have h₂ : n / 0x100 % 16 = 0 := by omega
  have h₁ : n / 0x10 % 16 = 0 := by omega
  have h₀ : n % 16 = n := by omega
  simp [numberRead, digitRead, h₃, h₂, h₁, h₀, h]

theorem numberRead_lt {n : Nat} (hn : n < 0x10000) (h : 10 ≤ n) : numberRead n < n := by
  have h₃ := digitRead_le (n / 0x1000 % 16)
  have h₂ := digitRead_le (n / 0x100 % 16)
  have h₁ := digitRead_le (n / 0x10 % 16)
  unfold numberRead
  by_cases hlow : n < 16
  · have h₀ : digitRead (n % 16) = n - 10 := by
      unfold digitRead
      rw [Nat.mod_eq_of_lt hlow, if_neg (by omega)]
    omega
  · -- one of the three high digits is not 0, and counts for less than it should
    have h₀ := digitRead_le (n % 16)
    have hle := digits_le n
    have e₃ : n / 0x100 / 16 = n / 0x1000 := Nat.div_div_eq_div_mul n 0x100 16
    have e₂ : n / 0x10 / 16 = n / 0x100 := Nat.div_div_eq_div_mul n 0x10 16
    omega

theorem keyOptionDigits_cons {d : Nat} (hd : d < 16) (chars : List Char16) {acc : Nat}
    (hacc : acc < 1000) :
    keyOptionDigits (hexDigit d :: chars) acc = keyOptionDigits chars (acc * 10 + digitRead d) := by
  rw [keyOptionDigits, toNat_hexDigit hd]
  unfold digitRead
  by_cases h : d < 10
  · rw [if_pos h, if_pos (by omega), if_pos h]
    congr 1
    omega
  · rw [if_neg h, if_neg (by omega), if_pos (by omega), if_neg h]
    congr 1
    omega

theorem keyOptionName_eq {n : Nat} (h : n < 0x10000) :
    keyOptionName n = wide ['K', 'e', 'y'] ++ printHex4 n := by
  have hlen : (printHex4 n).length = 4 := by rw [printHex4_eq h]; rfl
  exact List.take_of_length_le (by rw [List.length_append, hlen]; decide)

theorem isKeyOptionVariable_name {n : Nat} (h : n < 0x10000) :
    isKeyOptionVariable (global (keyOptionName n)) = some (numberRead n) := by
  have hlen : (printHex4 n).length = 4 := by rw [printHex4_eq h]; rfl
  have hsize : strSize (wide ['K', 'e', 'y'] ++ printHex4 n) = 16 := by
    unfold strSize
    rw [List.length_append, hlen]
    rfl
  have htake : (wide ['K', 'e', 'y'] ++ printHex4 n).take 3 = wide ['K', 'e', 'y'] :=
    List.take_left' rfl
  have hdrop : (wide ['K', 'e', 'y'] ++ printHex4 n).drop 3 = printHex4 n := List.drop_left' rfl
  have b₃ := digitRead_lt (Nat.mod_lt (n / 0x1000) (by decide : 16 > 0))
  have b₂ := digitRead_lt (Nat.mod_lt (n / 0x100) (by decide : 16 > 0))
  have b₁ := digitRead_lt (Nat.mod_lt (n / 0x10) (by decide : 16 > 0))
  unfold isKeyOptionVariable global
  rw [keyOptionName_eq h, hsize, htake, hdrop, if_neg (by simp), printHex4_eq h]
  simp only [List.map_cons, List.map_nil]
  rw [keyOptionDigits_cons (Nat.mod_lt _ (by decide)) _ (by omega),
    keyOptionDigits_cons (Nat.mod_lt _ (by decide)) _ (by omega),
    keyOptionDigits_cons (Nat.mod_lt _ (by decide)) _ (by omega),
    keyOptionDigits_cons (Nat.mod_lt _ (by decide)) _ (by omega), Nat.zero_mul, Nat.zero_add]
  rfl

theorem hexDigit_of_accepted {char : Char16} {chars : List Char16} {acc p : Nat}
    (h : keyOptionDigits (char :: chars) acc = some p) :
    ∃ d < 16, char = hexDigit d ∧ ∃ acc', keyOptionDigits chars acc' = some p := by
  rw [keyOptionDigits] at h
  split at h
  next hc =>
    refine ⟨char.toNat - 0x30, by omega, BitVec.eq_of_toNat_eq ?_, _, h⟩
    rw [toNat_hexDigit (by omega), if_pos (by omega)]
    omega
  next =>
    split at h
    next hc =>
      refine ⟨char.toNat - 0x41 + 10, by omega, BitVec.eq_of_toNat_eq ?_, _, h⟩
      rw [toNat_hexDigit (by omega), if_neg (by omega)]
      omega
    next => cases h

theorem name_of_isKeyOptionVariable {id : VariableId} {p : Nat} (h : isKeyOptionVariable id = some p) :
    ∃ n < 0x10000, id = global (keyOptionName n) := by
  unfold isKeyOptionVariable at h
  split at h
  · cases h
  next hc =>
    push Not at hc
    obtain ⟨hguid, hsize, htake⟩ := hc
    have hlen : id.name.length = 7 := by unfold strSize at hsize; omega
    have hdrop : (id.name.drop 3).length = 4 := by rw [List.length_drop, hlen]
    obtain ⟨c₃, c₂, c₁, c₀, hchars⟩ := List.length_eq_four.mp hdrop
    rw [hchars] at h
    obtain ⟨d₃, hd₃, rfl, _, h⟩ := hexDigit_of_accepted h
    obtain ⟨d₂, hd₂, rfl, _, h⟩ := hexDigit_of_accepted h
    obtain ⟨d₁, hd₁, rfl, _, h⟩ := hexDigit_of_accepted h
    obtain ⟨d₀, hd₀, rfl, _, h⟩ := hexDigit_of_accepted h
    have hn : ((d₃ * 16 + d₂) * 16 + d₁) * 16 + d₀ < 0x10000 := by omega
    refine ⟨((d₃ * 16 + d₂) * 16 + d₁) * 16 + d₀, hn, ?_⟩
    have e₃ : (((d₃ * 16 + d₂) * 16 + d₁) * 16 + d₀) / 0x1000 % 16 = d₃ := by omega
    have e₂ : (((d₃ * 16 + d₂) * 16 + d₁) * 16 + d₀) / 0x100 % 16 = d₂ := by omega
    have e₁ : (((d₃ * 16 + d₂) * 16 + d₁) * 16 + d₀) / 0x10 % 16 = d₁ := by omega
    have e₀ : (((d₃ * 16 + d₂) * 16 + d₁) * 16 + d₀) % 16 = d₀ := by omega
    have hname : id.name = keyOptionName (((d₃ * 16 + d₂) * 16 + d₁) * 16 + d₀) := by
      rw [keyOptionName_eq hn, printHex4_eq hn, e₃, e₂, e₁, e₀, ← List.take_append_drop 3 id.name,
        htake, hchars]
      rfl
    cases id
    exact congrArg₂ VariableId.mk hguid hname

end Names

/-! ## Finding the key options -/

section Collect

variable {env : HotkeyEnv} {store : VariableStore}

def WellKept (store : VariableStore) : Prop := ∀ id ∈ store.keys, store.data id ≠ []

theorem mem_keys_iff (h : WellKept store) {id : VariableId} :
    id ∈ store.keys ↔ store.data id ≠ [] := by
  refine ⟨h id, fun hd => ?_⟩
  by_contra hno
  have hnone : store.lookup id = none := AList.lookup_eq_none.mpr hno
  exact hd (by unfold VariableStore.data; rw [hnone]; rfl)

def ValidIn (env : HotkeyEnv) (store : VariableStore) (option : KeyOption) : Prop :=
  store.data (global (loadOptionName .boot option.bootOption)) ≠ [] ∧
    option.bootOptionCrc = (env.calculateCrc32
      (store.data (global (loadOptionName .boot option.bootOption)))).toNat

instance (env : HotkeyEnv) (store : VariableStore) (option : KeyOption) :
    Decidable (ValidIn env store option) := inferInstanceAs (Decidable (_ ∧ _))

theorem bootOptionName_eq {room n : Nat} (hn : n < 0x10000) (h : 8 ≤ room) :
    unicodeSPrint room ['B', 'o', 'o', 't'] n = loadOptionName .boot n := by
  have hlen : (wide ['B', 'o', 'o', 't'] ++ printHex4 n).length = 8 := by
    rw [List.length_append, printHex4_eq hn]
    rfl
  rw [loadOptionName_eq .boot hn]
  exact List.take_of_length_le (by rw [hlen]; exact h)

theorem length_bytesAt (data : List Byte) (behind : Nat → Byte) (off n : Nat) :
    (bytesAt data behind off n).length = n := by
  simp [bytesAt]

theorem bootOption_lt (data : List Byte) (behind : Nat → Byte) (n : Nat) :
    (keyOptionAt data behind n).bootOption < 0x10000 := by
  have h := leValue_lt (bytesAt data behind 8 2)
  rw [length_bytesAt] at h
  exact h

theorem isKeyOptionValid_eq (data : List Byte) (behind : Nat → Byte) (n : Nat) :
    isKeyOptionValid env (keyOptionAt data behind n) store =
      .ret (decide (ValidIn env store (keyOptionAt data behind n))) store := by
  unfold isKeyOptionValid
  rw [bootOptionName_eq (bootOption_lt data behind n) (by decide), bind_of_ret (getVariable_eq _ _)]
  by_cases hd : store.data
      (global (loadOptionName .boot (keyOptionAt data behind n).bootOption)) = []
  · have hno : ¬ ValidIn env store (keyOptionAt data behind n) := fun h => h.1 hd
    rw [if_pos hd, decide_eq_false hno]
    rfl
  · have hiff : (keyOptionAt data behind n).bootOptionCrc = (env.calculateCrc32 (store.data
        (global (loadOptionName .boot (keyOptionAt data behind n).bootOption)))).toNat ↔
        ValidIn env store (keyOptionAt data behind n) := (and_iff_right hd).symm
    rw [if_neg hd, ← decide_eq_decide.mpr hiff]
    rfl

def listed (env : HotkeyEnv) (store : VariableStore) (id : VariableId) : Option KeyOption :=
  (isKeyOptionVariable id).bind fun optionNumber =>
    if ValidIn env store (keyOptionAt (store.data id) (env.behind id) optionNumber) then
      some (keyOptionAt (store.data id) (env.behind id) optionNumber)
    else none

theorem collectKeyOptions_eq (ids : List VariableId) :
    ∀ keyOptions, (∀ id ∈ ids, store.data id ≠ []) →
      collectKeyOptions env ids keyOptions store =
        .ret ((ids.filterMap (listed env store)).foldl (fun os o => insertKeyOption o os) keyOptions)
          store := by
  induction ids with
  | nil => intro keyOptions _; rfl
  | cons id ids ih =>
    intro keyOptions hdata
    have hrest : ∀ id ∈ ids, store.data id ≠ [] := fun i hi => hdata i (List.mem_cons_of_mem _ hi)
    cases hid : isKeyOptionVariable id with
    | none =>
      have hl : listed env store id = none := by unfold listed; rw [hid]; rfl
      rw [List.filterMap_cons_none hl, ← ih keyOptions hrest, collectKeyOptions]
      simp only [hid]
    | some p =>
      obtain ⟨n, hn, hname⟩ := name_of_isKeyOptionVariable hid
      have hglobal : global id.name = id := by
        rw [hname]
        rfl
      have hne := hdata id List.mem_cons_self
      have hassert : (assert env.enabled (store.data id ≠ []) : Exec VariableStore Unit) store =
          .ret () store := by
        unfold assert
        rw [if_neg fun h => h.2 hne]
        rfl
      rw [collectKeyOptions]
      simp only [hid]
      rw [bind_of_ret (getVariable_eq _ _), hglobal, bind_of_ret hassert,
        bind_of_ret (isKeyOptionValid_eq _ _ _)]
      by_cases hv : ValidIn env store (keyOptionAt (store.data id) (env.behind id) p)
      · have hl : listed env store id = some (keyOptionAt (store.data id) (env.behind id) p) := by
          unfold listed
          rw [hid, Option.bind_some, if_pos hv]
        rw [List.filterMap_cons_some hl, List.foldl_cons, ← ih _ hrest, if_pos (decide_eq_true hv)]
      · have hl : listed env store id = none := by
          unfold listed
          rw [hid, Option.bind_some, if_neg hv]
        rw [List.filterMap_cons_none hl, ← ih _ hrest, if_neg (by simpa using hv)]

def collected (env : HotkeyEnv) (store : VariableStore) : List KeyOption :=
  (store.keys.filterMap (listed env store)).foldl (fun os o => insertKeyOption o os) []

theorem getKeyOptions_eq (env : HotkeyEnv) (h : WellKept store) :
    efiBootManagerGetKeyOptions env store = .ret (collected env store) store := by
  unfold efiBootManagerGetKeyOptions
  rw [bind_of_ret (show Exec.get store = .ret store store from rfl)]
  exact collectKeyOptions_eq _ _ h

theorem insertKeyOption_perm (o : KeyOption) (os : List KeyOption) :
    (insertKeyOption o os).Perm (o :: os) := by
  induction os with
  | nil => exact .refl _
  | cons head tail ih =>
    rw [insertKeyOption]
    split
    · exact .refl _
    · exact (ih.cons head).trans (.swap o head tail)

theorem insertKeyOption_sorted (o : KeyOption) {os : List KeyOption}
    (h : os.Pairwise fun a b => a.optionNumber ≤ b.optionNumber) :
    (insertKeyOption o os).Pairwise fun a b => a.optionNumber ≤ b.optionNumber := by
  induction os with
  | nil => exact List.pairwise_singleton _ _
  | cons head tail ih =>
    obtain ⟨hhead, htail⟩ := List.pairwise_cons.mp h
    rw [insertKeyOption]
    split
    next hlt =>
      refine List.pairwise_cons.mpr ⟨fun b hb => ?_, h⟩
      rcases List.mem_cons.mp hb with rfl | hb
      · exact Nat.le_of_lt hlt
      · exact (Nat.le_of_lt hlt).trans (hhead b hb)
    next hge =>
      refine List.pairwise_cons.mpr ⟨fun b hb => ?_, ih htail⟩
      rcases List.mem_cons.mp ((insertKeyOption_perm o tail).mem_iff.mp hb) with rfl | hb
      · exact Nat.le_of_not_lt hge
      · exact hhead b hb

theorem foldl_insert (os acc : List KeyOption)
    (h : acc.Pairwise fun a b => a.optionNumber ≤ b.optionNumber) :
    (os.foldl (fun os o => insertKeyOption o os) acc).Perm (acc ++ os) ∧
      (os.foldl (fun os o => insertKeyOption o os) acc).Pairwise
        fun a b => a.optionNumber ≤ b.optionNumber := by
  induction os generalizing acc with
  | nil => exact ⟨by rw [List.append_nil]; exact .refl _, h⟩
  | cons o os ih =>
    obtain ⟨hperm, hsorted⟩ := ih (insertKeyOption o acc) (insertKeyOption_sorted o h)
    refine ⟨hperm.trans ?_, hsorted⟩
    exact ((insertKeyOption_perm o acc).append_right os).trans List.perm_middle.symm

theorem collected_perm (env : HotkeyEnv) (store : VariableStore) :
    (collected env store).Perm (store.keys.filterMap (listed env store)) :=
  (foldl_insert _ [] .nil).1

theorem collected_sorted (env : HotkeyEnv) (store : VariableStore) :
    (collected env store).Pairwise fun a b => a.optionNumber ≤ b.optionNumber :=
  (foldl_insert _ [] .nil).2

def optionRead (env : HotkeyEnv) (store : VariableStore) (n : Nat) : KeyOption :=
  { keyOptionOf env store n with optionNumber := numberRead n }

theorem listed_name {n : Nat} (hn : n < 0x10000) :
    listed env store (global (keyOptionName n)) =
      if ValidIn env store (keyOptionOf env store n) then some (optionRead env store n) else none := by
  unfold listed
  rw [isKeyOptionVariable_name hn, Option.bind_some]
  rfl

theorem mem_collected (h : WellKept store) {o : KeyOption} :
    o ∈ collected env store ↔ ∃ n, Live env store n ∧ o = optionRead env store n := by
  rw [(collected_perm env store).mem_iff, List.mem_filterMap]
  constructor
  · rintro ⟨id, hid, hl⟩
    obtain ⟨p, hp, _⟩ := Option.bind_eq_some_iff.mp hl
    obtain ⟨n, hn, rfl⟩ := name_of_isKeyOptionVariable hp
    rw [listed_name hn] at hl
    split at hl
    next hv =>
      injection hl with hl
      exact ⟨n, ⟨hn, (mem_keys_iff h).mp hid, hv⟩, hl.symm⟩
    next => cases hl
  · rintro ⟨n, ⟨hn, hd, hv⟩, rfl⟩
    refine ⟨global (keyOptionName n), (mem_keys_iff h).mpr hd, ?_⟩
    rw [listed_name hn]
    exact if_pos hv

theorem optionRead_eq {n : Nat} (h : n < 10) : optionRead env store n = keyOptionOf env store n := by
  unfold optionRead
  rw [numberRead_of_lt h]
  rfl

theorem collected_nodup (h : WellKept store) (hs : SingleDigit env store) :
    ((collected env store).map KeyOption.optionNumber).Nodup := by
  refine ((collected_perm env store).map _).nodup_iff.mpr ?_
  rw [List.map_filterMap]
  -- the name of a variable that contributes is given back by the number it contributes
  have back : ∀ id ∈ store.keys, ∀ k, (listed env store id).map KeyOption.optionNumber = some k →
      id = global (keyOptionName k) := by
    intro id hid k hk
    obtain ⟨o, hl, rfl⟩ := Option.map_eq_some_iff.mp hk
    obtain ⟨p, hp, _⟩ := Option.bind_eq_some_iff.mp hl
    obtain ⟨n, hn, rfl⟩ := name_of_isKeyOptionVariable hp
    rw [listed_name hn] at hl
    split at hl
    next hv =>
      injection hl with hl
      have hlt := hs n ⟨hn, (mem_keys_iff h).mp hid, hv⟩
      rw [← hl, optionRead_eq hlt]
      rfl
    next => cases hl
  refine List.pairwise_filterMap.mpr (store.keys_nodup.imp_of_mem ?_)
  rintro id id' hid hid' hne k hk k' hk' rfl
  exact hne ((back id hid k hk).trans (back id' hid' k hk').symm)

theorem allLive_of_singleDigit (h : WellKept store) (hs : SingleDigit env store) :
    AllLive env store (collected env store) := by
  refine ⟨?_, fun o => ?_⟩
  · have hnd : (collected env store).Pairwise fun a b => a.optionNumber ≠ b.optionNumber :=
      List.pairwise_map.mp (collected_nodup h hs)
    exact (collected_sorted env store).imp₂ (fun a b hle hne => Nat.lt_of_le_of_ne hle hne) hnd
  · rw [mem_collected h]
    refine exists_congr fun n => and_congr_right fun hl => ?_
    rw [optionRead_eq (hs n hl)]

theorem singleDigit_of_allLive (h : WellKept store) (ha : AllLive env store (collected env store)) :
    SingleDigit env store := by
  -- a live number from ten on is what a larger live number is read as, and so on for ever
  have climb : ∀ n, Live env store n → 10 ≤ n → ∃ m, Live env store m ∧ n < m := by
    intro n hl hn
    obtain ⟨m, hm, heq⟩ := (mem_collected h).mp ((ha.2 _).mpr ⟨n, hl, rfl⟩)
    have hnum : n = numberRead m := congrArg KeyOption.optionNumber heq
    have hle := numberRead_le m
    have hlt := numberRead_lt hm.1 (by omega)
    exact ⟨m, hm, by omega⟩
  have none : ∀ k n, 0x10000 ≤ n + k → Live env store n → ¬ 10 ≤ n := by
    intro k
    induction k with
    | zero => intro n hk hl _; exact absurd hl.1 (by omega)
    | succ k ih =>
      intro n hk hl hn
      obtain ⟨m, hm, hlt⟩ := climb n hl hn
      exact ih m (by omega) hm (by omega)
  exact fun n hl => Nat.lt_of_not_le (none 0x10000 n (by omega) hl)

/-! ## The calls -/

theorem freeKeyOptionNumber_not_mem :
    ∀ (os : List KeyOption) (index : Nat),
      os.Pairwise (fun a b => a.optionNumber < b.optionNumber) →
      (∀ o ∈ os, index ≤ o.optionNumber) →
        index ≤ freeKeyOptionNumber os index ∧
          ∀ o ∈ os, o.optionNumber ≠ freeKeyOptionNumber os index := by
  intro os
  induction os with
  | nil => intro index _ _; exact ⟨Nat.le_refl _, fun o ho => by cases ho⟩
  | cons head tail ih =>
    intro index hp hle
    obtain ⟨hhead, htail⟩ := List.pairwise_cons.mp hp
    rw [freeKeyOptionNumber]
    split
    next hgt =>
      refine ⟨Nat.le_refl _, fun o ho => ?_⟩
      rcases List.mem_cons.mp ho with rfl | ho
      · omega
      · have := hhead o ho
        omega
    next hng =>
      have heq : head.optionNumber = index :=
        Nat.le_antisymm (Nat.le_of_not_lt hng) (hle head List.mem_cons_self)
      obtain ⟨hge, hno⟩ := ih (index + 1) htail fun o ho => by
        have := hhead o ho
        omega
      refine ⟨by omega, fun o ho => ?_⟩
      rcases List.mem_cons.mp ho with rfl | ho
      · omega
      · exact hno o ho

theorem data_erase (id : VariableId) (store : VariableStore) :
    VariableStore.data (store.erase id) id = [] := by
  unfold VariableStore.data
  rw [AList.lookup_erase]
  rfl

theorem data_insert_ne {id id' : VariableId} (h : id' ≠ id) (data : List Byte) :
    VariableStore.data (store.insert id data) id' = store.data id' := by
  unfold VariableStore.data
  rw [AList.lookup_insert_ne h]

theorem data_erase_ne {id id' : VariableId} (h : id' ≠ id) :
    VariableStore.data (store.erase id) id' = store.data id' := by
  unfold VariableStore.data
  rw [AList.lookup_erase_ne h]

theorem WellKept.insert (h : WellKept store) (id : VariableId) {data : List Byte} (hd : data ≠ []) :
    WellKept (store.insert id data) := by
  intro id' hid'
  by_cases hid : id' = id
  · rw [hid, data_insert]
    exact hd
  · rw [data_insert_ne hid]
    refine h id' ?_
    rcases (AList.mem_insert store).mp hid' with he | hm
    · exact absurd he hid
    · exact hm

theorem WellKept.erase (h : WellKept store) (id : VariableId) : WellKept (store.erase id) := by
  intro id' hid'
  obtain ⟨hne, hm⟩ := (AList.mem_erase).mp hid'
  rw [data_erase_ne hne]
  exact h id' hm

theorem bytes_ne_nil (o : KeyOption) : o.bytes ≠ [] := by
  simp [KeyOption.bytes, leBytes]

theorem setVariable_nil {id : VariableId} (h : store.data id ≠ []) :
    setVariable id [] store = .ret .success (store.erase id) := by
  have hsome : (store.lookup id).isSome = true := by
    cases hl : store.lookup id with
    | none => exact absurd (by unfold VariableStore.data; rw [hl]; rfl) h
    | some data => rfl
  unfold setVariable
  rw [bind_of_ret (show Exec.get store = .ret store store from rfl), if_pos rfl, if_pos hsome]
  rfl

theorem add_ret (h : WellKept store) (bootOptionNumber : BitVec 16) (modifier : BitVec 32)
    (args : List (BitVec 32)) :
    ∃ status store', efiBootManagerAddKeyOptionVariable env bootOptionNumber modifier args store =
        .ret status store' ∧ WellKept store' ∧ (SingleDigit env store →
          (KeyCall.add bootOptionNumber modifier args).Correct env store store') := by
  have hget := getKeyOptions_eq env h
  unfold efiBootManagerAddKeyOptionVariable
  rw [bind_of_ret (getVariable_eq _ _)]
  split
  · exact ⟨_, store, rfl, h, fun _ => .inl rfl⟩
  cases initializeKeyFields modifier args with
  | error status => exact ⟨_, store, rfl, h, fun _ => .inl rfl⟩
  | ok fields =>
  obtain ⟨keyData, keys⟩ := fields
  simp only [bind_of_ret hget]
  split
  · exact ⟨_, store, rfl, h, fun _ => .inl rfl⟩
  rw [setVariable_eq (bytes_ne_nil _)]
  refine ⟨_, _, rfl, h.insert _ (bytes_ne_nil _), fun hs => .inr ⟨_, fun hl => ?_,
    fun id hid => data_insert_ne hid _⟩⟩
  obtain ⟨hsorted, hmem⟩ := allLive_of_singleDigit h hs
  have hfree := freeKeyOptionNumber_not_mem _ 0 hsorted fun _ _ => Nat.zero_le _
  exact hfree.2 _ ((hmem _).mpr ⟨_, hl, rfl⟩) rfl

theorem setVariable_nil_ret (h : WellKept store) (id : VariableId) :
    ∃ status store', setVariable id [] store = .ret status store' ∧ WellKept store' ∧
      (store.data id ≠ [] → store' = store.erase id) := by
  by_cases hd : store.data id = []
  · have hno : ¬ (store.lookup id).isSome = true := by
      intro hsome
      exact h id (AList.lookup_isSome.mp hsome) hd
    refine ⟨.notFound, store, ?_, h, fun hne => absurd hd hne⟩
    unfold setVariable
    rw [bind_of_ret (show Exec.get store = .ret store store from rfl), if_pos rfl, if_neg hno]
    rfl
  · exact ⟨_, _, setVariable_nil hd, h.erase id, fun _ => rfl⟩

theorem delete_ret (h : WellKept store) (modifier : BitVec 32) (args : List (BitVec 32)) :
    ∃ status store', efiBootManagerDeleteKeyOptionVariable env modifier args store =
        .ret status store' ∧ WellKept store' ∧ (SingleDigit env store →
          (KeyCall.delete modifier args).Correct env store store') := by
  have hget := getKeyOptions_eq env h
  unfold efiBootManagerDeleteKeyOptionVariable
  simp only [KeyCall.Correct]
  cases initializeKeyFields modifier args with
  | error status => exact ⟨status, store, rfl, h, fun _ => rfl⟩
  | ok fields =>
    obtain ⟨keyData, keys⟩ := fields
    simp only [bind_of_ret hget]
    cases hfind : (collected env store).find? (·.isHotkey keyData keys) with
    | none =>
      refine ⟨_, store, rfl, h, fun hs => .inl ⟨fun n hl => ?_, rfl⟩⟩
      have hmem := ((allLive_of_singleDigit h hs).2 _).mpr ⟨n, hl, rfl⟩
      exact Bool.eq_false_iff.mpr (List.find?_eq_none.mp hfind _ hmem)
    | some o =>
      have hmem := List.mem_of_find?_eq_some hfind
      have hkey := List.find?_some hfind
      obtain ⟨status, store', hret, hkept, herase⟩ :=
        setVariable_nil_ret h (global (keyOptionName o.optionNumber))
      refine ⟨status, store', hret, hkept, fun hs => .inr ?_⟩
      obtain ⟨n, hl, rfl⟩ := ((allLive_of_singleDigit h hs).2 o).mp hmem
      obtain rfl := herase hl.2.1
      exact ⟨n, hl, hkey, data_erase _ _, fun id hid => data_erase_ne hid⟩

theorem serveKey_ret (env : HotkeyEnv) (h : WellKept store) (call : KeyCall) :
    ∃ status store', serveKey env call store = .ret status store' ∧ WellKept store' ∧
      (SingleDigit env store → call.Correct env store store') := by
  cases call with
  | add bootOptionNumber modifier args => exact add_ret h bootOptionNumber modifier args
  | delete modifier args => exact delete_ret h modifier args

theorem meets_iff (h : WellKept store) (call : KeyCall) :
    call.Meets env store ↔ SingleDigit env store := by
  have hget := getKeyOptions_eq env h
  constructor
  · rintro ⟨⟨os, hret, hall⟩, _⟩
    rw [hget] at hret
    injection hret with hret _
    exact singleDigit_of_allLive h (hret ▸ hall)
  · intro hs
    refine ⟨⟨_, hget, allLive_of_singleDigit h hs⟩, fun status store' hret => ?_⟩
    obtain ⟨_, _, hret', _, hcorrect⟩ := serveKey_ret env h call
    rw [hret'] at hret
    injection hret with _ hret
    exact hret ▸ hcorrect hs

end Collect

/-! ## Runs -/

theorem serve_returns (env : HotkeyEnv) (calls : List KeyCall) :
    ∀ store, WellKept store → ∃ store', serve (serveKey env) calls store = .ret () store' := by
  induction calls with
  | nil => intro store _; exact ⟨store, rfl⟩
  | cons call calls ih =>
    intro store h
    obtain ⟨status, store₁, hret, h₁, _⟩ := serveKey_ret env h call
    obtain ⟨store', hrest⟩ := ih store₁ h₁
    exact ⟨store', serve_cons_ret.mpr ⟨status, store₁, hret, hrest⟩⟩

/-- Every sequence of calls returns. All is as it should be at each of them if and only if the live
numbers are single digits at each of them. -/
theorem key_options_kept_iff {env : HotkeyEnv} {store : VariableStore} (calls : List KeyCall)
    (h : WellKept store) :
    ∃ store', serve (serveKey env) calls store = .ret () store' ∧ WellKept store' ∧
      (EachMeets (serveKey env) (KeyCall.Meets env) calls store ↔
        EachMeets (serveKey env) (fun _ => SingleDigit env) calls store) := by
  obtain ⟨store', hrun⟩ := serve_returns env calls store h
  refine ⟨store', hrun, EachMeets.congr_of_ret (I := WellKept) ?_ calls store store' h hrun⟩
  intro call s status s' hs hret
  obtain ⟨_, _, hret', hs', _⟩ := serveKey_ret env hs call
  rw [hret'] at hret
  injection hret with _ hret
  exact ⟨hret ▸ hs', meets_iff hs call⟩

instance (env : HotkeyEnv) (store : VariableStore) (n : Nat) : Decidable (Live env store n) :=
  inferInstanceAs (Decidable (_ ∧ _ ∧ _ ∧ _))

instance (store : VariableStore) : Decidable (WellKept store) :=
  inferInstanceAs (Decidable (∀ id ∈ store.keys, store.data id ≠ []))

def tableCrc32 (bytes : List Byte) : BitVec 32 :=
  BitVec.ofNat 32 (bytes.foldl (fun crc b => Crc32.crcByte crc (UInt8.ofBitVec b)) 0xFFFFFFFF ^^^
    0xFFFFFFFF)

def tableEnv : HotkeyEnv where
  enabled := true
  calculateCrc32 := tableCrc32
  behind := fun _ _ => 0

def bootZero : List Byte := [1, 0, 0, 0, 4, 0, 0, 0, 0x7F, 0xFF, 4, 0]

def oneKey (key : Nat) : List Byte :=
  KeyOption.bytes {
    keyData := 2 ^ 30
    bootOptionCrc := (tableCrc32 bootZero).toNat
    bootOption := 0
    keys := leBytes 4 key
    optionNumber := 0 }

/-- `Boot0000`, and a key option for each of the numbers, with the number for its key. -/
def storeOfKeys (numbers : List Nat) : VariableStore :=
  numbers.foldl (fun store n => store.insert (global (keyOptionName n)) (oneKey n))
    ((∅ : VariableStore).insert (global (loadOptionName .boot 0)) bootZero)

theorem two_key_options : ∃ store', serve (serveKey tableEnv) [.delete 0 [3], .add 0 0 [7]]
      (storeOfKeys [0, 3]) = .ret () store' ∧ WellKept store' ∧
    (EachMeets (serveKey tableEnv) (KeyCall.Meets tableEnv) [.delete 0 [3], .add 0 0 [7]]
        (storeOfKeys [0, 3]) ↔
      EachMeets (serveKey tableEnv) (fun _ => SingleDigit tableEnv) [.delete 0 [3], .add 0 0 [7]]
        (storeOfKeys [0, 3])) :=
  key_options_kept_iff _ (by decide)

/-- The key options 1 to 10 are live. `Key000A` is found as number 0, the count of ten is taken for a
free number, and the new key option is written over `Key000A`. -/
theorem live_key_option_overwritten :
    Live tableEnv (storeOfKeys [1, 2, 3, 4, 5, 6, 7, 8, 9, 10]) 10 ∧
      ((efiBootManagerGetKeyOptions tableEnv
        (storeOfKeys [1, 2, 3, 4, 5, 6, 7, 8, 9, 10])).value?.map (·.map KeyOption.optionNumber)) =
          some [0, 1, 2, 3, 4, 5, 6, 7, 8, 9] ∧
      (storeOfKeys [1, 2, 3, 4, 5, 6, 7, 8, 9, 10]).data (global (keyOptionName 10)) = oneKey 10 ∧
      (serveKey tableEnv (.add 0 0 [11]) (storeOfKeys [1, 2, 3, 4, 5, 6, 7, 8, 9, 10])).value? =
        some .success ∧
      (serveKey tableEnv (.add 0 0 [11])
        (storeOfKeys [1, 2, 3, 4, 5, 6, 7, 8, 9, 10])).state.data (global (keyOptionName 10)) =
          oneKey 11 := by
  refine ⟨?_, ?_, ?_, ?_, ?_⟩ <;> decide

end Quark.Bds.Proofs
