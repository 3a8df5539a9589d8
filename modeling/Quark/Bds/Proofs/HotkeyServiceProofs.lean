import Quark.Bds.Proofs.HotkeyProofs
import Quark.Bds.HotkeyService

/-!
# When the enumeration of the key options stays inside

The array has room for what is written to it in every case: it is grown by a whole key option, and no more
than the part in front of the number is copied. What is read of a variable is inside exactly if the variable
has the fixed part, and the keys that it counts unless it is not valid.
-/

namespace Quark.Bds.Proofs

open Machine Machine.Exec

section

variable {env : HotkeyEnv} {fresh : Nat → Byte} {store : VariableStore} {keyOption : List Byte}

theorem ret_of_inBounds {σ α : Type} {o : Option α} {a : α} {s t : σ} (h : inBounds o s = .ret a t) :
    o = some a := by
  cases o with
  | none => cases h
  | some b =>
    cases h
    rfl

theorem bootOptionIn_lt (keyOption : List Byte) : bootOptionIn keyOption < 0x10000 := by
  have hlt := leValue_lt ((keyOption.drop 8).take 2)
  exact Nat.lt_of_lt_of_le hlt (Nat.pow_le_pow_right (by decide) (List.length_take_le 2 _))

theorem inputKeyCount_lt (keyData : Nat) : inputKeyCount keyData < 4 := Nat.mod_lt _ (by decide)

/-! ## The test of a key option -/

theorem isKeyOptionValidIn_ret (env : HotkeyEnv) (store : VariableStore) (h : 10 ≤ keyOption.length) :
    ∃ valid, isKeyOptionValidIn env keyOption store = .ret valid store ∧
      (valid = true ↔ ValidKeyOption env store keyOption) := by
  have hnumber : inBounds (word? 2 keyOption 8) store = .ret (bootOptionIn keyOption) store := by
    rw [word?_inside (by omega)]
    rfl
  have hcrc : inBounds (word? 4 keyOption 4) store =
      .ret (leValue ((keyOption.drop 4).take 4)) store := by
    rw [word?_inside (by omega)]
    rfl
  have hname := bootOptionName_eq (bootOptionIn_lt keyOption) (show 8 ≤ 17 by decide)
  by_cases hd : store.data (global (loadOptionName .boot (bootOptionIn keyOption))) = []
  · refine ⟨false, ?_, iff_of_false Bool.false_ne_true fun hvalid => hvalid.1 hd⟩
    refine (bind_of_ret hnumber).trans ?_
    rw [hname, bind_of_ret (getVariable_eq _ _), if_pos hd]
    rfl
  · refine ⟨decide (leValue ((keyOption.drop 4).take 4) = (env.calculateCrc32 (store.data
      (global (loadOptionName .boot (bootOptionIn keyOption))))).toNat), ?_, ?_⟩
    · refine (bind_of_ret hnumber).trans ?_
      rw [hname, bind_of_ret (getVariable_eq _ _), if_neg hd]
      exact (bind_of_ret hcrc).trans rfl
    · exact decide_eq_true_iff.trans (and_iff_right hd).symm

theorem head_of_isKeyOptionValidIn {valid : Bool} {t : VariableStore}
    (h : isKeyOptionValidIn env keyOption store = .ret valid t) : 10 ≤ keyOption.length := by
  obtain ⟨number, s, hnumber, -⟩ := ret_of_bind h
  exact (word?_eq_some (ret_of_inBounds hnumber)).1

/-! ## The array -/

theorem placeOfNumber_ret (store : VariableStore) {keyOptions : List Byte} {count : Nat} (optionNumber : Nat)
    (hlen : keyOptions.length = sizeofKeyOption * (count + 1)) (left index : Nat)
    (h : index + left = count) :
    ∃ place, placeOfNumber keyOptions optionNumber left index store = .ret place store ∧ place ≤ count := by
  induction left generalizing index with
  | zero => exact ⟨index, rfl, Nat.le_of_eq h⟩
  | succ left ih =>
    have hread : inBounds (word? 2 keyOptions (sizeofKeyOption * index + optionNumberOffset)) store =
        .ret (leValue ((keyOptions.drop (sizeofKeyOption * index + optionNumberOffset)).take 2)) store := by
      have hinside : 24 * index + 22 + 2 ≤ keyOptions.length := by
        rw [hlen]
        show _ ≤ 24 * (count + 1)
        omega
      rw [word?_inside hinside]
      rfl
    by_cases hlt : optionNumber <
        leValue ((keyOptions.drop (sizeofKeyOption * index + optionNumberOffset)).take 2)
    · refine ⟨index, (bind_of_ret hread).trans ?_, by omega⟩
      rw [if_pos hlt]
      rfl
    · obtain ⟨place, hplace, hle⟩ := ih (index + 1) (by omega)
      refine ⟨place, (bind_of_ret hread).trans ?_, hle⟩
      rw [if_neg hlt]
      exact hplace

theorem inBounds_put (store : VariableStore) (bs bytes : List Byte) (off : Nat) (h : off + bytes.length ≤ bs.length) :
    ∃ bs', inBounds (put? bs off bytes) store = .ret bs' store ∧ bs'.length = bs.length := by
  obtain ⟨bs', hput, hlength⟩ := put?_of_le h
  refine ⟨bs', ?_, hlength⟩
  rw [hput]
  rfl

theorem inBounds_bytes (store : VariableStore) (bs : List Byte) (n off : Nat) (h : off + n ≤ bs.length) :
    ∃ r, inBounds (bytes? n bs off) store = .ret r store ∧ r.length = n := by
  refine ⟨_, ?_, length_of_bytes? (bytes?_of_le h)⟩
  rw [bytes?_of_le h]
  rfl

theorem insertInMemory_ret (fresh : Nat → Byte) (store : VariableStore) {keyOptions : List Byte} {count : Nat} (optionNumber : Nat)
    (hlen : keyOptions.length = sizeofKeyOption * count) (hhead : 10 ≤ keyOption.length)
    (hkeys : 10 + 4 * inputKeyCount (leValue (keyOption.take 4)) ≤ keyOption.length) :
    ∃ keyOptions', insertInMemory fresh count keyOptions keyOption optionNumber store =
      .ret keyOptions' store ∧ keyOptions'.length = sizeofKeyOption * (count + 1) := by
  have hgrown : (keyOptions ++ (List.range sizeofKeyOption).map fresh).length = 24 * (count + 1) := by
    rw [List.length_append, hlen, List.length_map, List.length_range]
    show 24 * count + 24 = _
    omega
  obtain ⟨index, hplace, hindex⟩ :=
    placeOfNumber_ret store optionNumber hgrown count 0 (Nat.zero_add count)
  -- the tail is moved by one place
  obtain ⟨moved, hmoved, hmovedLength⟩ := inBounds_bytes store
    (keyOptions ++ (List.range sizeofKeyOption).map fresh) (sizeofKeyOption * (count - index))
    (sizeofKeyOption * index) (by
      rw [hgrown]
      show 24 * index + 24 * (count - index) ≤ _
      omega)
  obtain ⟨ks₁, hks₁, hlen₁⟩ := inBounds_put store
    (keyOptions ++ (List.range sizeofKeyOption).map fresh) moved (sizeofKeyOption * (index + 1)) (by
      rw [hgrown, hmovedLength]
      show 24 * (index + 1) + 24 * (count - index) ≤ _
      omega)
  rw [hgrown] at hlen₁
  -- the key option is copied into the gap, with no more than three keys
  have hcount := inputKeyCount_lt (leValue (keyOption.take 4))
  have hsize : inBounds (sizeOfKeyOption keyOption) store =
      .ret (10 + 4 * inputKeyCount (leValue (keyOption.take 4))) store := by
    unfold sizeOfKeyOption
    rw [word?_inside (by omega)]
    rfl
  obtain ⟨copied, hcopied, hcopiedLength⟩ := inBounds_bytes store keyOption
    (10 + 4 * inputKeyCount (leValue (keyOption.take 4))) 0 (by omega)
  obtain ⟨ks₂, hks₂, hlen₂⟩ := inBounds_put store ks₁ copied
    (sizeofKeyOption * index) (by
      rw [hlen₁, hcopiedLength]
      show 24 * index + _ ≤ _
      omega)
  obtain ⟨ks₃, hks₃, hlen₃⟩ := inBounds_put store ks₂ (leBytes 2 optionNumber)
    (sizeofKeyOption * index + optionNumberOffset) (by
      rw [hlen₂, hlen₁, length_leBytes]
      show 24 * index + 22 + 2 ≤ _
      omega)
  refine ⟨ks₃, ?_, hlen₃.trans (hlen₂.trans hlen₁)⟩
  refine (bind_of_ret hplace).trans ((bind_of_ret hmoved).trans ((bind_of_ret hks₁).trans ?_))
  exact (bind_of_ret hsize).trans ((bind_of_ret hcopied).trans ((bind_of_ret hks₂).trans hks₃))

theorem keys_of_insertInMemory {keyOptions keyOptions' : List Byte} {count optionNumber : Nat}
    {t : VariableStore}
    (h : insertInMemory fresh count keyOptions keyOption optionNumber store = .ret keyOptions' t) :
    10 + 4 * inputKeyCount (leValue (keyOption.take 4)) ≤ keyOption.length := by
  obtain ⟨index, _, -, h⟩ := ret_of_bind h
  obtain ⟨moved, _, -, h⟩ := ret_of_bind h
  obtain ⟨ks₁, _, -, h⟩ := ret_of_bind h
  obtain ⟨size, _, hsize, h⟩ := ret_of_bind h
  obtain ⟨copied, _, hcopied, -⟩ := ret_of_bind h
  obtain ⟨keyData, hkeyData, rfl⟩ := Option.map_eq_some_iff.mp (ret_of_inBounds hsize)
  obtain ⟨-, rfl⟩ := word?_eq_some hkeyData
  have hinside := (bytes?_eq_some (ret_of_inBounds hcopied)).1
  rw [Nat.zero_add, List.drop_zero] at hinside
  exact hinside

/-! ## The enumeration -/

theorem collectInMemory_iff (ids : List VariableId) (count : Nat) (keyOptions : List Byte)
    (hlen : keyOptions.length = sizeofKeyOption * count) :
    (∃ count' keyOptions', collectInMemory env fresh ids count keyOptions store =
        .ret (count', keyOptions') store ∧ keyOptions'.length = sizeofKeyOption * count') ↔
      ∀ id ∈ ids, isKeyOptionVariable id ≠ none → KeyOptionFits env store (store.data id) := by
  induction ids generalizing count keyOptions with
  | nil => exact iff_of_true ⟨count, keyOptions, rfl, hlen⟩ nofun
  | cons id ids ih =>
    rw [List.forall_mem_cons]
    cases hid : isKeyOptionVariable id with
    | none =>
      rw [collectInMemory]
      simp only [hid]
      rw [ih count keyOptions hlen]
      exact (and_iff_right fun h => absurd rfl h).symm
    | some optionNumber =>
      obtain ⟨n, -, hname⟩ := name_of_isKeyOptionVariable hid
      have hglobal : global id.name = id := by
        rw [hname]
        rfl
      have hget : efiBootManagerGetVariableAndSize id.name store = .ret (store.data id) store := by
        rw [getVariable_eq, hglobal]
      rw [collectInMemory]
      simp only [hid]
      rw [bind_of_ret hget]
      by_cases hhead : 10 ≤ (store.data id).length
      · have hassert : (assert env.enabled (store.data id ≠ []) : Exec VariableStore Unit) store =
            .ret () store := by
          refine assert_of (fun _ hnil => ?_) store
          rw [hnil] at hhead
          exact absurd hhead (by decide)
        obtain ⟨valid, hvalid, hiff⟩ :=
          isKeyOptionValidIn_ret env store hhead
        rw [bind_of_ret hassert, bind_of_ret hvalid]
        cases valid with
        | false =>
          have hnot : ¬ ValidKeyOption env store (store.data id) := fun h => Bool.false_ne_true (hiff.mpr h)
          rw [if_neg Bool.false_ne_true, ih count keyOptions hlen]
          exact (and_iff_right fun _ => ⟨hhead, fun h => absurd h hnot⟩).symm
        | true =>
          have hlive := hiff.mp rfl
          rw [if_pos rfl]
          by_cases hkeys : 10 + 4 * inputKeyCount (leValue ((store.data id).take 4)) ≤ (store.data id).length
          · obtain ⟨keyOptions', hinsert, hlen'⟩ :=
              insertInMemory_ret fresh store optionNumber hlen hhead hkeys
            rw [bind_of_ret hinsert, ih (count + 1) keyOptions' hlen']
            exact (and_iff_right fun _ => ⟨hhead, fun _ => hkeys⟩).symm
          · refine iff_of_false ?_ fun h => hkeys ((h.1 nofun).keys hlive)
            rintro ⟨count', keyOptions', hrun, -⟩
            obtain ⟨inserted, _, hinsert, -⟩ := ret_of_bind hrun
            exact hkeys (keys_of_insertInMemory hinsert)
      · refine iff_of_false ?_ fun h => hhead (h.1 nofun).head
        rintro ⟨count', keyOptions', hrun, -⟩
        obtain ⟨_, s, hassert, hrun⟩ := ret_of_bind hrun
        obtain ⟨valid, _, hvalid, -⟩ := ret_of_bind hrun
        exact hhead (head_of_isKeyOptionValidIn hvalid)

end

/-- The enumeration is safe exactly if each key option variable has a key option in it. -/
theorem enumerationSafe_iff (env : HotkeyEnv) (fresh : Nat → Byte) (store : VariableStore) :
    EnumerationSafe env fresh store ↔
      ∀ id ∈ store.keys, isKeyOptionVariable id ≠ none → KeyOptionFits env store (store.data id) :=
  collectInMemory_iff store.keys 0 [] rfl

/-- A key option variable of one byte: the number of its boot option is read behind it. -/
theorem enumeration_not_safe : ¬ EnumerationSafe tableEnv (fun _ => 0)
    ((∅ : VariableStore).insert (global (keyOptionName 0)) [0]) := by
  intro h
  have hfits := (collectInMemory_iff _ 0 [] rfl).mp h (global (keyOptionName 0)) (by decide) (by decide)
  exact absurd hfits.head (by decide)

/-! ## What the hotkey service recognises

Each hotkey counts how many of its keys it has seen. The count is that of the longest beginning of its keys
that its keystrokes end with, as long as no keystroke breaks off a sequence and is part of another beginning:
the count then starts at zero.
-/

/-! ## One hotkey -/

section

variable {keyData hotkeyData : KeyData} {hotkey : Hotkey} {since : List KeyData}

def Completes (keyData : KeyData) (hotkey : Hotkey) : Prop :=
  hotkey.waitingKey + 1 = hotkey.codeCount ∧
    ∃ hotkeyData, hotkey.keyData[hotkey.waitingKey]? = some hotkeyData ∧ Expected keyData hotkeyData

def afterStroke (keyData hotkeyData : KeyData) (hotkey : Hotkey) : Hotkey :=
  { hotkey with waitingKey :=
      if Expected keyData hotkeyData ∧ hotkey.waitingKey + 1 ≠ hotkey.codeCount then hotkey.waitingKey + 1
      else 0 }

theorem completes_iff (keyData : KeyData) (hkey : hotkey.keyData[hotkey.waitingKey]? = some hotkeyData) :
    Completes keyData hotkey ↔ hotkey.waitingKey + 1 = hotkey.codeCount ∧ Expected keyData hotkeyData := by
  refine and_congr_right fun _ => ⟨?_, fun h => ⟨hotkeyData, hkey, h⟩⟩
  rintro ⟨other, hother, h⟩
  rw [hkey] at hother
  cases hother
  exact h

/-- A hotkey has an array of three keys, waits for one of them, and has counted its keystrokes. -/
structure Follows (since : List KeyData) (hotkey : Hotkey) : Prop where
  array : hotkey.keyData.length = 3
  count : hotkey.codeCount ≤ 3
  waiting : hotkey.waitingKey < 3
  counted : 0 < hotkey.codeCount → Longest Expected since hotkey.keys hotkey.waitingKey

theorem Follows.length_keys (h : Follows since hotkey) : hotkey.keys.length = hotkey.codeCount := by
  unfold Hotkey.keys
  rw [List.length_take, h.array]
  exact Nat.min_eq_left h.count

theorem Follows.exists_key (h : Follows since hotkey) :
    ∃ hotkeyData, hotkey.keyData[hotkey.waitingKey]? = some hotkeyData :=
  ⟨_, List.getElem?_eq_getElem (h.array ▸ h.waiting)⟩

theorem Follows.keys_getElem? (h : Follows since hotkey) (hcount : 0 < hotkey.codeCount) :
    hotkey.keys[hotkey.waitingKey]? = hotkey.keyData[hotkey.waitingKey]? :=
  List.getElem?_take_of_lt (h.length_keys ▸ (h.counted hcount).lt)

theorem Follows.completes_iff (h : Follows since hotkey) (hcount : 0 < hotkey.codeCount) :
    Completes keyData hotkey ↔ EndsWith Expected (since ++ [keyData]) hotkey.keys := by
  obtain ⟨hotkeyData, hkey⟩ := h.exists_key
  rw [Proofs.completes_iff keyData hkey, ← h.length_keys]
  exact ((h.counted hcount).complete_iff ((h.keys_getElem? hcount).trans hkey)).symm

theorem Follows.step (h : Follows since hotkey) (hclean : StrokeClean keyData since hotkey)
    (hkey : hotkey.keyData[hotkey.waitingKey]? = some hotkeyData) {since' : List KeyData}
    (hfired : Completes keyData hotkey → since' = [])
    (hnot : ¬ Completes keyData hotkey → since' = since ++ [keyData]) :
    Follows since' (afterStroke keyData hotkeyData hotkey) := by
  have hiff := Proofs.completes_iff keyData hkey
  have hwaiting := h.waiting
  have hcountLe := h.count
  by_cases hexpected : Expected keyData hotkeyData
  · by_cases hlast : hotkey.waitingKey + 1 = hotkey.codeCount
    · -- the last key
      have hzero : afterStroke keyData hotkeyData hotkey = { hotkey with waitingKey := 0 } := by
        unfold afterStroke
        rw [if_neg fun hcase => hcase.2 hlast]
      rw [hzero, hfired (hiff.mpr ⟨hlast, hexpected⟩)]
      refine ⟨h.array, h.count, Nat.zero_lt_succ 2, fun hcount => Longest.start ?_⟩
      show 0 < hotkey.keys.length
      rw [h.length_keys]
      exact hcount
    · have hnext : afterStroke keyData hotkeyData hotkey =
          { hotkey with waitingKey := hotkey.waitingKey + 1 } := by
        unfold afterStroke
        rw [if_pos ⟨hexpected, hlast⟩]
      rw [hnext, hnot fun hcomplete => hlast hcomplete.1]
      refine ⟨h.array, h.count, ?_, fun hcount => ?_⟩
      · show hotkey.waitingKey + 1 < 3
        rcases Nat.eq_zero_or_pos hotkey.codeCount with hnone | hcount
        · -- a hotkey without keys waits for a null key
          by_contra hthird
          obtain htwo : hotkey.waitingKey = 2 := by omega
          rw [htwo] at hkey
          exact hclean.noKeys hnone htwo hotkeyData hkey hexpected
        · have hlt := (h.counted hcount).lt
          rw [h.length_keys] at hlt
          omega
      · have hlt := (h.counted hcount).lt
        refine (h.counted hcount).advance ((h.keys_getElem? hcount).trans hkey) hexpected ?_
        rw [h.length_keys] at hlt ⊢
        omega
  · have hzero : afterStroke keyData hotkeyData hotkey = { hotkey with waitingKey := 0 } := by
      unfold afterStroke
      rw [if_neg fun hcase => hexpected hcase.1]
    rw [hzero, hnot fun hcomplete => hexpected (hiff.mp hcomplete).2]
    refine ⟨h.array, h.count, Nat.zero_lt_succ 2, fun hcount => ?_⟩
    refine (h.counted hcount).reset ((h.keys_getElem? hcount).trans hkey) hexpected ?_
    refine hclean.broken hcount fun other hother => ?_
    rw [hkey] at hother
    cases hother
    exact hexpected

end

/-! ## The loop over the hotkeys -/

section

variable (asserts : Bool) (load : Nat → EfiStatus) (keyData : KeyData)

theorem visitHotkey_ret {hotkey : Hotkey} {hotkeyData : KeyData} (place : Nat) (s : HotkeyService)
    (hwaiting : hotkey.waitingKey < 3)
    (hkey : hotkey.keyData[hotkey.waitingKey]? = some hotkeyData) :
    ∃ t, visitHotkey asserts load keyData place hotkey s = .ret (afterStroke keyData hotkeyData hotkey) t ∧
      t.hotkeys = s.hotkeys ∧ (Completes keyData hotkey → t.triggered = s.triggered ++ [place]) ∧
      (¬ Completes keyData hotkey → t.triggered = s.triggered) := by
  have hiff := completes_iff keyData hkey
  have hread : inBounds hotkey.keyData[hotkey.waitingKey]? s = .ret hotkeyData s := by
    rw [hkey]
    rfl
  unfold visitHotkey
  rw [bind_of_ret (assert_of (fun _ => hwaiting) s), bind_of_ret hread]
  by_cases hexpected : Expected keyData hotkeyData
  · rw [if_pos hexpected]
    by_cases hlast : hotkey.waitingKey + 1 = hotkey.codeCount
    · have hzero : afterStroke keyData hotkeyData hotkey = { hotkey with waitingKey := 0 } := by
        unfold afterStroke
        rw [if_neg fun hcase => hcase.2 hlast]
      have hcomplete := hiff.mpr ⟨hlast, hexpected⟩
      rw [if_pos hlast, hzero]
      cases hcontinue : hotkey.isContinue with
      | true => exact ⟨_, rfl, rfl, fun _ => rfl, fun h => absurd hcomplete h⟩
      | false => exact ⟨_, rfl, rfl, fun _ => rfl, fun h => absurd hcomplete h⟩
    · have hnext : afterStroke keyData hotkeyData hotkey =
          { hotkey with waitingKey := hotkey.waitingKey + 1 } := by
        unfold afterStroke
        rw [if_pos ⟨hexpected, hlast⟩]
      rw [if_neg hlast, hnext]
      exact ⟨s, rfl, rfl, fun h => absurd h.1 hlast, fun _ => rfl⟩
  · have hzero : afterStroke keyData hotkeyData hotkey = { hotkey with waitingKey := 0 } := by
      unfold afterStroke
      rw [if_neg fun hcase => hexpected hcase.1]
    rw [if_neg hexpected, hzero]
    exact ⟨s, rfl, rfl, fun h => absurd (hiff.mp h).2 hexpected, fun _ => rfl⟩

theorem visitHotkeys_ret (hotkeys : List Hotkey) (place : Nat) (s : HotkeyService)
    (hvalid : ∀ hotkey ∈ hotkeys, hotkey.waitingKey < 3 ∧ hotkey.keyData.length = 3) :
    ∃ after t, visitHotkeys asserts load keyData place hotkeys s = .ret after t ∧ t.hotkeys = s.hotkeys ∧
      List.Forall₂ (fun hotkey next => ∃ hotkeyData, hotkey.keyData[hotkey.waitingKey]? = some hotkeyData ∧
        next = afterStroke keyData hotkeyData hotkey) hotkeys after ∧
      ∃ new, t.triggered = s.triggered ++ new ∧ ∀ p, p ∈ new ↔
        ∃ i hotkey, hotkeys[i]? = some hotkey ∧ p = place + i ∧ Completes keyData hotkey := by
  induction hotkeys generalizing place s with
  | nil => exact ⟨[], s, rfl, rfl, .nil, [], (List.append_nil _).symm, by simp⟩
  | cons hotkey hotkeys ih =>
    obtain ⟨hwaiting, harray⟩ := hvalid hotkey List.mem_cons_self
    have hkey := List.getElem?_eq_getElem (harray ▸ hwaiting : hotkey.waitingKey < hotkey.keyData.length)
    obtain ⟨t, hvisit, hsame, hfired, hnot⟩ :=
      visitHotkey_ret asserts load keyData place s hwaiting hkey
    obtain ⟨after, u, hrest, hsame', hafter, new, htriggered, hnew⟩ :=
      ih (place + 1) t fun h hmem => hvalid h (List.mem_cons_of_mem _ hmem)
    refine ⟨_, u, (bind_of_ret hvisit).trans ((bind_of_ret hrest).trans rfl), hsame'.trans hsame,
      .cons ⟨_, hkey, rfl⟩ hafter, ?_⟩
    have hshift : ∀ p, (∃ i h, (hotkey :: hotkeys)[i]? = some h ∧ p = place + i ∧ Completes keyData h) ↔
        (p = place ∧ Completes keyData hotkey) ∨ p ∈ new := by
      intro p
      rw [hnew]
      constructor
      · rintro ⟨i, h, hget, hp, hcomplete⟩
        cases i with
        | zero =>
          cases hget
          exact .inl ⟨hp, hcomplete⟩
        | succ i => exact .inr ⟨i, h, hget, by omega, hcomplete⟩
      · rintro (⟨hp, hcomplete⟩ | ⟨i, h, hget, hp, hcomplete⟩)
        · exact ⟨0, hotkey, rfl, hp, hcomplete⟩
        · exact ⟨i + 1, h, hget, by omega, hcomplete⟩
    by_cases hcomplete : Completes keyData hotkey
    · refine ⟨place :: new, ?_, fun p => ?_⟩
      · rw [htriggered, hfired hcomplete, List.append_assoc]
        rfl
      · rw [hshift, List.mem_cons, and_iff_left hcomplete]
    · refine ⟨new, ?_, fun p => ?_⟩
      · rw [htriggered, hnot hcomplete]
      · rw [hshift, or_iff_right fun h => hcomplete h.2]

theorem hotkeyCallback_ret (s : HotkeyService) (hpending : s.bootOption = none)
    (hvalid : ∀ hotkey ∈ s.hotkeys, hotkey.waitingKey < 3 ∧ hotkey.keyData.length = 3) :
    ∃ t, hotkeyCallback asserts load keyData s = .ret .success t ∧
      List.Forall₂ (fun hotkey next => ∃ hotkeyData, hotkey.keyData[hotkey.waitingKey]? = some hotkeyData ∧
        next = afterStroke keyData hotkeyData hotkey) s.hotkeys t.hotkeys ∧
      ∀ place, Fired s t place ↔ ∃ hotkey, s.hotkeys[place]? = some hotkey ∧ Completes keyData hotkey := by
  obtain ⟨after, u, hvisit, -, hafter, new, htriggered, hnew⟩ :=
    visitHotkeys_ret asserts load keyData s.hotkeys 0 s hvalid
  refine ⟨{ u with hotkeys := after }, ?_, hafter, fun place => ?_⟩
  · unfold hotkeyCallback
    refine (bind_of_ret (x := Exec.get) (s := s) rfl).trans ?_
    rw [if_neg (not_not.mpr hpending)]
    exact (bind_of_ret hvisit).trans rfl
  · show place ∈ u.triggered.drop s.triggered.length ↔ _
    rw [htriggered, List.drop_left, hnew]
    constructor
    · rintro ⟨i, hotkey, hget, hi, hcomplete⟩
      rw [Nat.zero_add] at hi
      subst hi
      exact ⟨hotkey, hget, hcomplete⟩
    · rintro ⟨hotkey, hget, hcomplete⟩
      exact ⟨place, hotkey, hget, (Nat.zero_add place).symm, hcomplete⟩

theorem hotkeyCallback_dropped (s : HotkeyService) (hpending : s.bootOption ≠ none) :
    hotkeyCallback asserts load keyData s = .ret .success s := by
  refine (bind_of_ret (x := Exec.get) (s := s) rfl).trans ?_
  rw [if_pos hpending]
  rfl

end

/-! ## Runs of the service -/

section

variable (asserts : Bool)

def Tracked (w : Watched) : Prop :=
  ∀ place hotkey, w.service.hotkeys[place]? = some hotkey → Follows (w.since place) hotkey

theorem Tracked.valid {w : Watched} (h : Tracked w) :
    ∀ hotkey ∈ w.service.hotkeys, hotkey.waitingKey < 3 ∧ hotkey.keyData.length = 3 := by
  intro hotkey hmem
  obtain ⟨place, hget⟩ := List.mem_iff_getElem?.mp hmem
  exact ⟨(h place hotkey hget).waiting, (h place hotkey hget).array⟩

theorem Tracked.waitingValid {w : Watched} (h : Tracked w) : WaitingValid w.service := by
  intro hotkey hmem
  obtain ⟨hwaiting, harray⟩ := h.valid hotkey hmem
  rw [harray]
  exact hwaiting

theorem getElem?_of_forall₂ {α β : Type} {R : α → β → Prop} {as : List α} {bs : List β}
    (h : List.Forall₂ R as bs) {i : Nat} {b : β} (hb : bs[i]? = some b) : ∃ a, as[i]? = some a ∧ R a b := by
  induction h generalizing i with
  | nil => cases hb
  | cons hab _ ih =>
    cases i with
    | zero =>
      cases hb
      exact ⟨_, rfl, hab⟩
    | succ i => exact ih hb

theorem serveHotkey_stroke {keyData : KeyData} {load : Nat → EfiStatus} {w : Watched} {status : EfiStatus}
    {t : HotkeyService} (h : hotkeyCallback asserts load keyData w.service = .ret status t) :
    serveHotkey asserts (.stroke keyData load) w =
      .ret () ⟨t, strokesSince w.service t keyData w.since⟩ := by
  simp only [serveHotkey, h]

theorem serveHotkey_boot {readyToBoot : Bool} {w : Watched} {t : HotkeyService}
    (h : efiBootManagerHotkeyBoot readyToBoot w.service = .ret () t) :
    serveHotkey asserts (.boot readyToBoot) w = .ret () ⟨t, w.since⟩ := by
  simp only [serveHotkey, h]

theorem serveHotkey_step (event : HotkeyEvent) (w : Watched) (htracked : Tracked w) (hclean : Clean event w) :
    ∃ w', serveHotkey asserts event w = .ret () w' ∧ Tracked w' ∧
      ∀ keyData load, event = .stroke keyData load → w.service.bootOption = none →
        ∀ place hotkey, w.service.hotkeys[place]? = some hotkey → 0 < hotkey.codeCount →
          (Fired w.service w'.service place ↔
            EndsWith Expected (w.since place ++ [keyData]) hotkey.keys) := by
  cases event with
  | stroke keyData load =>
    by_cases hpending : w.service.bootOption = none
    · obtain ⟨t, hcall, hafter, hfired⟩ :=
        hotkeyCallback_ret asserts load keyData w.service hpending htracked.valid
      refine ⟨⟨t, strokesSince w.service t keyData w.since⟩, serveHotkey_stroke asserts hcall, ?_, ?_⟩
      · intro place next hnext
        obtain ⟨hotkey, hget, hotkeyData, hkey, rfl⟩ := getElem?_of_forall₂ hafter hnext
        have hiff : Fired w.service t place ↔ Completes keyData hotkey := by
          rw [hfired, hget]
          simp
        refine (htracked place hotkey hget).step (hclean keyData load rfl hpending place hotkey hget) hkey
          (fun hcomplete => ?_) fun hnot => ?_
        · show strokesSince w.service t keyData w.since place = _
          unfold strokesSince
          rw [if_pos hpending, if_pos (hiff.mpr hcomplete)]
        · show strokesSince w.service t keyData w.since place = _
          unfold strokesSince
          rw [if_pos hpending, if_neg (mt hiff.mp hnot)]
      · rintro _ _ ⟨⟩ _ place hotkey hget hcount
        rw [← (htracked place hotkey hget).completes_iff hcount, hfired, hget]
        simp
    · have hsame : strokesSince w.service w.service keyData w.since = w.since := by
        funext place
        exact if_neg hpending
      have hserve := serveHotkey_stroke asserts (hotkeyCallback_dropped asserts load keyData w.service hpending)
      rw [hsame] at hserve
      exact ⟨_, hserve, htracked, fun _ _ _ hnone => absurd hnone hpending⟩
  | boot readyToBoot =>
    by_cases hpending : w.service.bootOption = none
    · have hboot : efiBootManagerHotkeyBoot readyToBoot w.service = .ret () w.service := by
        refine (bind_of_ret (x := Exec.get) (s := w.service) rfl).trans ?_
        unfold Exec.when
        rw [if_neg (not_not.mpr hpending)]
        rfl
      exact ⟨_, serveHotkey_boot asserts hboot, htracked, nofun⟩
    · have hboot : efiBootManagerHotkeyBoot readyToBoot w.service =
          .ret () { w.service with
            hotkeys := if readyToBoot = true then [] else w.service.hotkeys
            bootOption := none } := by
        refine (bind_of_ret (x := Exec.get) (s := w.service) rfl).trans ?_
        unfold Exec.when
        rw [if_pos hpending]
        cases readyToBoot with
        | true => rfl
        | false => rfl
      refine ⟨_, serveHotkey_boot asserts hboot, ?_, nofun⟩
      cases readyToBoot with
      | true =>
        intro place hotkey hget
        cases hget
      | false => exact htracked

theorem length_generateKeyShiftState_le (keyOption : KeyOption) (depths : List (Nat × BitVec 32 × BitVec 32))
    (keyShiftState : BitVec 32) :
    (generateKeyShiftState keyOption depths keyShiftState).length ≤ 2 ^ depths.length := by
  induction depths generalizing keyShiftState with
  | nil => exact Nat.le_refl 1
  | cons depth depths ih =>
    obtain ⟨bit, right, left⟩ := depth
    have hright := ih (keyShiftState ||| right)
    have hleft := ih (keyShiftState ||| left)
    have hsame := ih keyShiftState
    rw [generateKeyShiftState, List.length_cons, Nat.pow_succ]
    split
    · rw [List.length_append]
      omega
    · omega

theorem follows_hotkeyFor (isContinue : Bool) (keyOption : KeyOption) (keyShiftState : BitVec 32) :
    Follows [] (hotkeyFor isContinue keyOption keyShiftState) := by
  have hcount := inputKeyCount_lt keyOption.keyData
  have harray : (hotkeyFor isContinue keyOption keyShiftState).keyData.length = 3 := by
    show ((List.range 3).map _).length = 3
    rw [List.length_map, List.length_range]
  refine ⟨harray, Nat.le_of_lt_succ hcount, Nat.zero_lt_succ 2, fun hpos => Longest.start ?_⟩
  unfold Hotkey.keys
  rw [List.length_take, harray]
  exact Nat.lt_min.mpr ⟨hpos, Nat.zero_lt_succ 2⟩

theorem processKeyOption_forall {P : Hotkey → Prop} {isContinue : Bool} {hotkeys : List Hotkey}
    (keyOption : KeyOption) (h : ∀ hotkey ∈ hotkeys, P hotkey)
    (hnew : ∀ keyShiftState, P (hotkeyFor isContinue keyOption keyShiftState)) :
    ∀ hotkey ∈ processKeyOption isContinue hotkeys keyOption, P hotkey := by
  intro hotkey hmem
  rcases List.mem_append.mp hmem with hmem | hmem
  · exact h hotkey hmem
  · obtain ⟨keyShiftState, -, rfl⟩ := List.mem_map.mp hmem
    exact hnew keyShiftState

theorem foldl_processKeyOption (isContinue : Bool) (keyOptions : List KeyOption) (hotkeys : List Hotkey)
    (h : ∀ hotkey ∈ hotkeys, Follows [] hotkey) :
    ∀ hotkey ∈ keyOptions.foldl (processKeyOption isContinue) hotkeys, Follows [] hotkey := by
  induction keyOptions generalizing hotkeys with
  | nil => exact h
  | cons keyOption keyOptions ih =>
    exact ih _ (processKeyOption_forall keyOption h (follows_hotkeyFor isContinue keyOption))

def startWatched (keyOptions : List KeyOption) (continueKeyOption : Option KeyOption) : Watched :=
  ⟨efiBootManagerStartHotkeyService keyOptions continueKeyOption, fun _ => []⟩

theorem tracked_start (keyOptions : List KeyOption) (continueKeyOption : Option KeyOption) :
    Tracked (startWatched keyOptions continueKeyOption) := by
  intro place hotkey hget
  refine foldl_processKeyOption true continueKeyOption.toList _ ?_ hotkey (List.mem_of_getElem? hget)
  exact foldl_processKeyOption false keyOptions [] nofun

/-- In a run whose keystrokes are clean the hotkeys are recognised exactly, and in bounds. -/
theorem hotkeys_recognised (keyOptions : List KeyOption) (continueKeyOption : Option KeyOption)
    (events : List HotkeyEvent)
    (hclean : EachMeets (serveHotkey asserts) Clean events (startWatched keyOptions continueKeyOption)) :
    EachMeets (serveHotkey asserts) (Recognises asserts) events
      (startWatched keyOptions continueKeyOption) := by
  refine EachMeets.of_invariant (E := fun _ _ => False) (I := Tracked) ?_ ?_ events _ hclean
    (tracked_start keyOptions continueKeyOption)
  · intro event w htracked hevent
    obtain ⟨w', hserve, htracked', -⟩ := serveHotkey_step asserts event w htracked hevent
    exact wp_of_eq_ret hserve htracked'
  · intro event w htracked hevent
    obtain ⟨w', hserve, htracked', hexact⟩ := serveHotkey_step asserts event w htracked hevent
    exact ⟨htracked.waitingValid, w', hserve, htracked'.waitingValid, hexact⟩

end

def typed (c : Char16) : KeyData := ⟨⟨0, c⟩, efiShiftStateValid⟩

def twoCharacters (c d : Char16) : KeyOption where
  keyData := 2 * 2 ^ 30
  bootOptionCrc := 0
  bootOption := 1
  keys := leBytes 2 0 ++ (leBytes 2 c.toNat ++ (leBytes 2 0 ++ leBytes 2 d.toNat))
  optionNumber := 0

theorem two_characters_recognised :
    EachMeets (serveHotkey true) (Recognises true)
      [.stroke (typed 0x41) fun _ => .success, .stroke (typed 0x42) fun _ => .success]
      (startWatched [twoCharacters 0x41 0x42] none) := by
  refine hotkeys_recognised true _ none _ ⟨?_, fun _ w hfirst => ⟨?_, fun _ _ _ => trivial⟩⟩
  · rintro _ _ ⟨⟩ - place hotkey hget
    have hwaiting : hotkey.waitingKey = 0 := by
      have hmem := List.mem_of_getElem? hget
      rw [List.mem_singleton.mp hmem]
      rfl
    refine ⟨fun _ htwo => by omega, fun _ _ j hj hle => by omega⟩
  · cases hfirst
    rintro _ _ ⟨⟩ - place hotkey hget
    have hsecond : Expected (typed 0x42) (typed 0x42) := by decide
    have hmem := List.mem_of_getElem? hget
    cases List.mem_singleton.mp hmem
    exact ⟨nofun, fun _ hnot => absurd hsecond (hnot _ rfl)⟩

/-- The first key twice before the second: the second stroke breaks off the sequence, and is not taken for a new
start. -/
theorem two_characters_missed :
    ¬ EachMeets (serveHotkey true) (Recognises true)
      [.stroke (typed 0x41) fun _ => .success, .stroke (typed 0x41) fun _ => .success,
        .stroke (typed 0x42) fun _ => .success]
      (startWatched [twoCharacters 0x41 0x42] none) := by
  intro h
  obtain ⟨-, h⟩ := h.2 () _ rfl
  obtain ⟨⟨-, w, hserve, -, hexact⟩, -⟩ := h () _ rfl
  have hends : EndsWith Expected [typed 0x41, typed 0x41, typed 0x42] [typed 0x41, typed 0x42] :=
    ⟨[typed 0x41], [typed 0x41, typed 0x42], rfl, .cons (by decide) (.cons (by decide) .nil)⟩
  have hfired := (hexact (typed 0x42) _ rfl rfl 0 _ rfl (by decide)).mpr hends
  cases hserve
  exact absurd hfired (by decide)

end Quark.Bds.Proofs
