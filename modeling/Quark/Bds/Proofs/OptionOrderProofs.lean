import Mathlib.Data.List.InsertIdx
import Mathlib.Data.List.Perm.Basic
import Quark.Bds.OptionOrder
import Quark.Bds.Proofs.LoadOptionProofs

/-!
# The order variables over runs

Each function is described by what it does to the data of the two order variables; the variables of the
options have other names, so that collecting options does not change which of them are valid. The
references that `EfiBootManagerGetLoadOptions` deletes are deleted from `BootOrder` for both types, so
that a dangling reference in `DriverOrder` stays there and may cost a boot option its place.
-/

namespace Quark.Bds.Proofs

open Machine Exec

/-! ## Arrays of numbers -/

section Numbers

variable {bs : List Byte}

@[simp] theorem uint16s_nil : uint16s [] = [] := rfl

@[simp] theorem uint16s_singleton (lo : Byte) : uint16s [lo] = [] := rfl

@[simp] theorem uint16s_cons_cons (lo hi : Byte) (rest : List Byte) :
    uint16s (lo :: hi :: rest) = leValue [lo, hi] :: uint16s rest := rfl

theorem length_uint16s (bs : List Byte) : (uint16s bs).length = bs.length / 2 := by
  induction bs using uint16s.induct with
  | case1 lo hi rest ih =>
    rw [uint16s_cons_cons, List.length_cons, ih, List.length_cons, List.length_cons]
    omega
  | case2 bs h =>
    rcases bs with _ | ⟨lo, _ | ⟨hi, rest⟩⟩
    · simp
    · simp
    · exact absurd rfl (h lo hi rest)

theorem uint16s_lt {n : Nat} (h : n ∈ uint16s bs) : n < 0x10000 := by
  induction bs using uint16s.induct with
  | case1 lo hi rest ih =>
    rcases List.mem_cons.mp h with rfl | h
    · exact leValue_pair_lt lo hi
    · exact ih h
  | case2 bs hbs =>
    rcases bs with _ | ⟨lo, _ | ⟨hi, rest⟩⟩
    · simp at h
    · simp at h
    · exact absurd rfl (hbs lo hi rest)

theorem uint16s_leBytes (n : Nat) (bs : List Byte) :
    uint16s (leBytes 2 n ++ bs) = n % 0x10000 :: uint16s bs := by
  have h := leValue_leBytes 2 n
  show leValue (leBytes 2 n) :: uint16s bs = _
  rw [h]
  rfl

theorem uint16s_take (k : Nat) (bs : List Byte) :
    uint16s (bs.take (k * 2)) = (uint16s bs).take k := by
  induction k generalizing bs with
  | zero => simp
  | succ k ih =>
    have hk : (k + 1) * 2 = k * 2 + 1 + 1 := by omega
    rcases bs with _ | ⟨lo, _ | ⟨hi, rest⟩⟩
    · simp
    · simp [hk]
    · rw [hk, List.take_succ_cons, List.take_succ_cons, uint16s_cons_cons, ih, uint16s_cons_cons,
        List.take_succ_cons]

theorem uint16s_drop (k : Nat) (bs : List Byte) :
    uint16s (bs.drop (k * 2)) = (uint16s bs).drop k := by
  induction k generalizing bs with
  | zero => simp
  | succ k ih =>
    have hk : (k + 1) * 2 = k * 2 + 1 + 1 := by omega
    rcases bs with _ | ⟨lo, _ | ⟨hi, rest⟩⟩
    · simp
    · simp [hk]
    · rw [hk, List.drop_succ_cons, List.drop_succ_cons, ih, uint16s_cons_cons, List.drop_succ_cons]

theorem uint16s_append {front : List Byte} {k : Nat} (h : front.length = k * 2) (bs : List Byte) :
    uint16s (front ++ bs) = uint16s front ++ uint16s bs := by
  induction k generalizing front with
  | zero =>
    rw [List.length_eq_zero_iff.mp (h.trans (Nat.zero_mul 2))]
    rfl
  | succ k ih =>
    rcases front with _ | ⟨lo, _ | ⟨hi, front⟩⟩
    · simp at h
    · simp at h
      omega
    · have hf : front.length = k * 2 := by
        simp only [List.length_cons] at h
        omega
      rw [List.cons_append, List.cons_append, uint16s_cons_cons, ih hf, uint16s_cons_cons,
        List.cons_append]

theorem uint16s_flatMap {ns : List Nat} (h : ∀ n ∈ ns, n < 0x10000) :
    uint16s (ns.flatMap fun n => leBytes 2 n) = ns := by
  induction ns with
  | nil => rfl
  | cons n ns ih =>
    rw [List.flatMap_cons, uint16s_leBytes, Nat.mod_eq_of_lt (h n List.mem_cons_self),
      ih fun m hm => h m (List.mem_cons_of_mem _ hm)]

theorem insertIdx_eq_append {ns : List Nat} {k : Nat} (h : k ≤ ns.length) (n : Nat) :
    ns.insertIdx k n = ns.take k ++ n :: ns.drop k := by
  induction k generalizing ns with
  | zero => rfl
  | succ k ih =>
    cases ns with
    | nil => simp at h
    | cons m ns =>
      rw [List.insertIdx_succ_cons, ih (Nat.le_of_succ_le_succ h), List.take_succ_cons,
        List.drop_succ_cons, List.cons_append]

theorem uint16s_insert {k n : Nat} (hk : k ≤ (uint16s bs).length) (hn : n < 0x10000) :
    uint16s (bs.take (k * 2) ++ (leBytes 2 n ++ bs.drop (k * 2))) = (uint16s bs).insertIdx k n := by
  have hlen : (bs.take (k * 2)).length = k * 2 := by
    rw [length_uint16s] at hk
    rw [List.length_take]
    omega
  rw [uint16s_append hlen, uint16s_leBytes, uint16s_take, uint16s_drop, Nat.mod_eq_of_lt hn]
  exact (insertIdx_eq_append hk n).symm

theorem uint16s_erase {k : Nat} (hk : k < (uint16s bs).length) :
    uint16s (bs.take (k * 2) ++ bs.drop ((k + 1) * 2)) = (uint16s bs).eraseIdx k := by
  have hlen : (bs.take (k * 2)).length = k * 2 := by
    rw [length_uint16s] at hk
    rw [List.length_take]
    omega
  rw [uint16s_append hlen, uint16s_take, uint16s_drop, List.eraseIdx_eq_take_drop_succ]

end Numbers

/-! ## Names -/

theorem orderName_ne_loadOptionName (type type' : LoadOptionType) {n : Nat} (h : n < 0x10000) :
    global (orderName type) ≠ global (loadOptionName type' n) := by
  intro heq
  injection heq with _ heq
  have hlen := congrArg List.length heq
  rw [loadOptionName_eq type' h, List.length_append, printHex4_eq h] at hlen
  cases type <;> cases type' <;> revert hlen <;> simp [orderName, namePrefix, wide]

theorem orderName_ne {type type' : LoadOptionType} (h : type ≠ type') :
    global (orderName type) ≠ global (orderName type') := by
  cases type <;> cases type' <;> first | exact absurd rfl h | decide

/-! ## The store -/

section Store

variable {store store' : VariableStore} {enabled : Bool} {behind : VariableId → List Byte}

def SameBut (id : VariableId) (store store' : VariableStore) : Prop :=
  ∀ id' ≠ id, store'.data id' = store.data id'

theorem SameBut.refl (id : VariableId) (store : VariableStore) : SameBut id store store :=
  fun _ _ => rfl

theorem SameBut.trans {id : VariableId} {store'' : VariableStore} (h : SameBut id store store')
    (h' : SameBut id store' store'') : SameBut id store store'' :=
  fun id' hid => (h' id' hid).trans (h id' hid)

theorem wp_setVariable (id : VariableId) (data : List Byte) {E : Stop → VariableStore → Prop} :
    wp (setVariable id data) (fun st store' => (data ≠ [] → st = .success) ∧
      store'.data id = data ∧ SameBut id store store') E store := by
  unfold setVariable
  rw [wp_bind, wp_get, wp_ite]
  refine ⟨fun hnil => ?_, fun hne => ?_⟩
  · rw [hnil, wp_ite]
    refine ⟨fun _ => ⟨fun h => absurd rfl h, ?_, fun id' hid => ?_⟩,
      fun hno => ⟨fun h => absurd rfl h, ?_, .refl _ _⟩⟩
    · show ((AList.erase id store).lookup id).getD [] = []
      rw [AList.lookup_erase]
      rfl
    · show ((AList.erase id store).lookup id').getD [] = _
      rw [AList.lookup_erase_ne hid]
      rfl
    · show (store.lookup id).getD [] = []
      rw [Option.not_isSome_iff_eq_none.mp hno]
      rfl
  · refine ⟨fun _ => rfl, data_insert id data, fun id' hid => ?_⟩
    show ((AList.insert id data store).lookup id').getD [] = _
    rw [AList.lookup_insert_ne hid]
    rfl

def SetsOrder (type : LoadOptionType) (ns : List Nat) (store store' : VariableStore) : Prop :=
  store'.order type = ns ∧ SameBut (global (orderName type)) store store'

theorem SetsOrder.unchanged (type : LoadOptionType) (store : VariableStore) :
    SetsOrder type (store.order type) store store :=
  ⟨rfl, .refl _ _⟩

theorem SetsOrder.order_other {type other : LoadOptionType} {ns : List Nat}
    (h : SetsOrder type ns store store') (hne : other ≠ type) :
    store'.order other = store.order other :=
  congrArg uint16s (h.2 _ (orderName_ne hne))

theorem SetsOrder.optionOf_eq {type type' : LoadOptionType} {ns : List Nat}
    (h : SetsOrder type ns store store') {n : Nat} (hn : n < 0x10000) :
    optionOf enabled behind type' n store' = optionOf enabled behind type' n store := by
  have hd := h.2 _ (orderName_ne_loadOptionName type type' hn).symm
  unfold optionOf
  rw [variableToLoadOption_eq type' hn, variableToLoadOption_eq type' hn, hd]
  cases readResult (store.data (global (loadOptionName type' n)) ++
    behind (global (loadOptionName type' n))) (store.data (global (loadOptionName type' n))) type' n <;> rfl

theorem order_lt {type : LoadOptionType} {n : Nat} (h : n ∈ store.order type) : n < 0x10000 :=
  uint16s_lt h

/-! ## The four functions -/

theorem wp_assertEfiError {Q : Unit → VariableStore → Prop} {st : EfiStatus} (hQ : Q () store) :
    wp (assertEfiError enabled st) Q (fun _ _ => True) store := by
  unfold assertEfiError
  rw [wp_assert]
  exact ⟨fun _ => hQ, fun _ => trivial⟩

theorem wp_addOptionNumber (type : LoadOptionType) {n : Nat} (position : Nat) (hn : n < 0x10000) :
    wp (addOptionNumberToOrderVariable enabled type n position) (fun st store' =>
      st = .alreadyStarted ∧ store' = store ∨
      st = .success ∧ n ∉ store.order type ∧ SetsOrder type
        ((store.order type).insertIdx (min position (store.order type).length) n) store store')
      (fun _ _ => True) store := by
  unfold addOptionNumberToOrderVariable
  rw [wp_bind]
  show wp (if n ∈ store.order type then _ else _) _ _ store
  rw [wp_ite]
  refine ⟨fun _ => .inl ⟨rfl, rfl⟩, fun hmem => ?_⟩
  rw [wp_bind]
  refine wp_mono (wp_setVariable _ _) ?_ (fun _ _ h => h)
  rintro st store' ⟨hst, hdata, hsame⟩
  rw [wp_bind]
  refine wp_assertEfiError (.inr ⟨hst ?_, hmem, ?_, hsame⟩)
  · simp [leBytes]
  · show uint16s (store'.data (global (orderName type))) = _
    rw [hdata, ← length_uint16s]
    exact uint16s_insert (Nat.min_le_right _ _) hn

theorem wp_deleteLoadOption (type : LoadOptionType) (n : Nat) (hnd : (store.order type).Nodup) :
    wp (efiBootManagerDeleteLoadOptionVariable enabled n type) (fun _ store' =>
      SetsOrder type ((store.order type).filter (· ≠ n)) store store') (fun _ _ => True) store := by
  have absent : n ∉ store.order type →
      SetsOrder type ((store.order type).filter (· ≠ n)) store store := by
    intro hn
    have hf : (store.order type).filter (· ≠ n) = store.order type :=
      List.filter_eq_self.mpr fun m hm => decide_eq_true fun he => hn (he ▸ hm)
    rw [hf]
    exact .unchanged _ _
  unfold efiBootManagerDeleteLoadOptionVariable
  rw [wp_ite]
  refine ⟨fun hge => absent fun hmem => ?_, fun _ => ?_⟩
  · exact absurd (order_lt hmem) (Nat.not_lt.mpr hge)
  unfold deleteOptionVariable
  rw [wp_bind]
  show wp (if n ∈ store.order type then _ else _) _ _ store
  rw [wp_ite]
  refine ⟨fun hmem => ?_, absent⟩
  rw [wp_bind]
  refine wp_mono (wp_setVariable _ _) ?_ (fun _ _ h => h)
  rintro st store' ⟨_, hdata, hsame⟩
  rw [wp_bind]
  refine wp_assertEfiError ⟨?_, hsame⟩
  show uint16s (store'.data (global (orderName type))) = _
  rw [hdata, uint16s_erase (List.idxOf_lt_length_of_mem hmem), ← List.erase_eq_eraseIdx_of_idxOf rfl]
  refine (List.Nodup.erase_eq_filter hnd n).trans (List.filter_congr fun m _ => ?_)
  by_cases hmn : m = n <;> simp [hmn]

theorem wp_loadOptionToVariable (option : LoadOption) (hn : option.optionNumber < 0x10000) :
    wp (efiBootManagerLoadOptionToVariable option) (fun _ store' =>
      ∀ type, store'.order type = store.order type) (fun _ _ => True) store := by
  unfold efiBootManagerLoadOptionToVariable
  cases option.filePath with
  | none => exact fun _ => rfl
  | some filePath =>
    show wp (if option.optionNumber = loadOptionNumberUnassigned then _ else _) _ _ store
    rw [wp_ite]
    refine ⟨fun _ _ => rfl, fun _ => ?_⟩
    rw [wp_ite]
    refine ⟨fun _ => trivial, fun _ => ?_⟩
    refine wp_mono (wp_setVariable _ _) ?_ (fun _ _ h => h)
    rintro st store' ⟨_, _, hsame⟩ type
    exact congrArg uint16s (hsame _ (orderName_ne_loadOptionName type _ hn))

/-- The references that collecting the options of `type` deletes, all of them from `BootOrder`. -/
def dangling (enabled : Bool) (behind : VariableId → List Byte) (type : LoadOptionType)
    (numbers : List Nat) (store : VariableStore) (n : Nat) : Prop :=
  n ∈ numbers ∧ optionOf enabled behind type n store = none

instance (enabled : Bool) (behind : VariableId → List Byte) (type : LoadOptionType)
    (numbers : List Nat) (store : VariableStore) (n : Nat) :
    Decidable (dangling enabled behind type numbers store n) :=
  inferInstanceAs (Decidable (_ ∧ _))

theorem optionOf_of_ret {type : LoadOptionType} {n : Nat} {r : Except EfiStatus LoadOption}
    (h : efiBootManagerVariableToLoadOption enabled behind (loadOptionName type n) store =
      .ret r store') : optionOf enabled behind type n store = r.toOption := by
  unfold optionOf
  rw [h]
  cases r <;> rfl

theorem optionNumber_of_ret {type : LoadOptionType} {n : Nat} (hn : n < 0x10000) {option : LoadOption}
    (h : efiBootManagerVariableToLoadOption enabled behind (loadOptionName type n) store =
      .ret (.ok option) store') : option.optionNumber = n := by
  rw [variableToLoadOption_eq type hn] at h
  cases hr : readResult (store.data (global (loadOptionName type n)) ++
      behind (global (loadOptionName type n))) (store.data (global (loadOptionName type n))) type n with
  | none => rw [hr] at h; cases h
  | some r =>
    rw [hr] at h
    injection h with h _
    subst h
    unfold readResult at hr
    split at hr
    · cases hr
    · obtain ⟨valid, _, hr⟩ := Option.bind_eq_some_iff.mp hr
      split at hr
      · obtain ⟨option', hp, he⟩ := Option.map_eq_some_iff.mp hr
        injection he with he
        subst he
        unfold parseOption at hp
        simp only [Option.bind_eq_bind, Option.bind_eq_some_iff] at hp
        obtain ⟨_, _, _, _, _, _, _, _, hp⟩ := hp
        injection hp with hp
        rw [← hp]
      · cases hr

theorem store_of_ret {type : LoadOptionType} {n : Nat} (hn : n < 0x10000)
    {r : Except EfiStatus LoadOption}
    (h : efiBootManagerVariableToLoadOption enabled behind (loadOptionName type n) store =
      .ret r store') : store' = store := by
  rw [variableToLoadOption_eq type hn] at h
  cases hr : readResult (store.data (global (loadOptionName type n)) ++
      behind (global (loadOptionName type n))) (store.data (global (loadOptionName type n))) type n with
  | none => rw [hr] at h; cases h
  | some r =>
    rw [hr] at h
    injection h with _ h
    exact h.symm

theorem wp_collect (type : LoadOptionType) (bootNext : Option Nat) (numbers : List Nat) :
    ∀ store, (∀ n ∈ numbers, n < 0x10000) → (store.order .boot).Nodup →
      wp (collectLoadOptions enabled behind type bootNext numbers) (fun options store' =>
        SetsOrder .boot ((store.order .boot).filter fun n =>
          ¬ dangling enabled behind type numbers store n) store store' ∧
        options.map LoadOption.optionNumber =
          numbers.filter (fun n => (optionOf enabled behind type n store).isSome) ∧
        ∀ option ∈ options, option.bootNext = decide (bootNext = some option.optionNumber))
        (fun _ _ => True) store := by
  induction numbers with
  | nil =>
    intro store _ _
    refine ⟨⟨?_, .refl _ _⟩, rfl, fun option h => by cases h⟩
    exact (List.filter_eq_self.mpr fun n _ => by simp [dangling]).symm
  | cons n numbers ih =>
    intro store hlt hnd
    have hn : n < 0x10000 := hlt n List.mem_cons_self
    have hns : ∀ m ∈ numbers, m < 0x10000 := fun m hm => hlt m (List.mem_cons_of_mem _ hm)
    show wp (efiBootManagerVariableToLoadOption enabled behind (loadOptionName type n) >>= _) _ _ store
    rw [wp_bind]
    refine wp_mono (wp_returns _ store) ?_ (fun _ _ h => h)
    intro r store₁ hr
    obtain rfl := store_of_ret hn hr
    have hopt := optionOf_of_ret hr
    cases r with
    | error st =>
      have hnone : optionOf enabled behind type n store₁ = none := hopt
      rw [wp_bind]
      refine wp_mono (wp_deleteLoadOption .boot n hnd) ?_ (fun _ _ h => h)
      intro _ store₂ h₂
      have hsame : ∀ m ∈ numbers, optionOf enabled behind type m store₂ =
          optionOf enabled behind type m store₁ := fun m hm => h₂.optionOf_eq (hns m hm)
      have hnd₂ : (store₂.order .boot).Nodup := by
        rw [h₂.1]
        exact hnd.filter _
      refine wp_mono (ih store₂ hns hnd₂) ?_ (fun _ _ h => h)
      rintro options store₃ ⟨h₃, hmap, hflags⟩
      refine ⟨⟨?_, h₂.2.trans h₃.2⟩, ?_, hflags⟩
      · rw [h₃.1, h₂.1, List.filter_filter]
        refine List.filter_congr fun m _ => ?_
        rw [← Bool.decide_and, decide_eq_decide]
        unfold dangling
        by_cases hmn : m = n
        · subst hmn
          simp [hnone]
        · by_cases hm : m ∈ numbers
          · simp [hmn, hm, hsame m hm]
          · simp [hmn, hm]
      · rw [hmap, List.filter_cons_of_neg (by simp [hnone])]
        exact List.filter_congr fun m hm => by rw [hsame m hm]
    | ok option =>
      have hsome : optionOf enabled behind type n store₁ = some option := hopt
      have hnum := optionNumber_of_ret hn hr
      rw [wp_bind, wp_assert]
      refine ⟨fun _ => ?_, fun _ => trivial⟩
      rw [wp_bind]
      refine wp_mono (ih store₁ hns hnd) ?_ (fun _ _ h => h)
      rintro options store₃ ⟨h₃, hmap, hflags⟩
      rw [wp_pure]
      refine ⟨⟨?_, h₃.2⟩, ?_, ?_⟩
      · rw [h₃.1]
        refine List.filter_congr fun m _ => ?_
        rw [decide_eq_decide]
        unfold dangling
        by_cases hmn : m = n
        · subst hmn
          simp [hsome]
        · simp [hmn]
      · rw [List.map_cons, hmap, List.filter_cons_of_pos (by simp [hsome])]
        exact congrArg (· :: _) hnum
      · intro option' hmem
        rcases List.mem_cons.mp hmem with rfl | hmem
        · rfl
        · exact hflags option' hmem

theorem wp_readBootNextOf (type : LoadOptionType) :
    wp (readBootNextOf behind type) (fun bootNext store' => store' = store ∧
      (∀ b, bootNext = some b → b < 0x10000) ∧ (type = .driver → bootNext = none))
      (fun _ _ => True) store := by
  have hnone : ∀ b, (none : Option Nat) = some b → b < 0x10000 := by
    intro b hb
    cases hb
  cases type with
  | driver => exact ⟨rfl, hnone, fun _ => rfl⟩
  | boot =>
    show wp (if store.data (global (wide ['B', 'o', 'o', 't', 'N', 'e', 'x', 't'])) = [] then _ else _)
      _ _ store
    rw [wp_ite]
    refine ⟨fun _ => ⟨rfl, hnone, fun _ => rfl⟩, fun _ => ?_⟩
    rw [wp_bind]
    cases hw : word? 2 (store.data (global (wide ['B', 'o', 'o', 't', 'N', 'e', 'x', 't'])) ++
        behind (global (wide ['B', 'o', 'o', 't', 'N', 'e', 'x', 't']))) 0 with
    | none => exact trivial
    | some b =>
      refine ⟨rfl, ?_, fun h => by cases h⟩
      rintro b' hb'
      injection hb' with hb'
      subst hb'
      exact word?_lt hw

theorem wp_getLoadOptions (type : LoadOptionType) (hnd : (store.order .boot).Nodup) :
    wp (efiBootManagerGetLoadOptions enabled behind type) (fun options store' => ∃ bootNext,
      (type = .driver → bootNext = none) ∧
      SetsOrder .boot ((store.order .boot).filter fun n =>
        ¬ dangling enabled behind type (bootNext.toList ++ store.order type) store n) store store' ∧
      options.map LoadOption.optionNumber = (bootNext.toList ++ store.order type).filter
        (fun n => (optionOf enabled behind type n store).isSome) ∧
      ∀ option ∈ options, option.bootNext = decide (bootNext = some option.optionNumber))
      (fun _ _ => True) store := by
  unfold efiBootManagerGetLoadOptions
  rw [wp_bind]
  refine wp_mono (wp_readBootNextOf type) ?_ (fun _ _ h => h)
  rintro bootNext store' ⟨rfl, hlt, hdriver⟩
  have hall : ∀ n ∈ bootNext.toList ++ store'.order type, n < 0x10000 := by
    intro n hn
    rcases List.mem_append.mp hn with hb | ho
    · exact hlt n (Option.mem_toList.mp hb)
    · exact order_lt ho
  show wp (collectLoadOptions enabled behind type bootNext (bootNext.toList ++ store'.order type)) _ _
    store'
  refine wp_mono (wp_collect type bootNext _ store' hall hnd) ?_ (fun _ _ h => h)
  rintro options store₁ ⟨hset, hmap, hflags⟩
  exact ⟨bootNext, hdriver, hset, hmap, hflags⟩

theorem filter_dangling_boot (bootNext : Option Nat) :
    ((store.order .boot).filter fun n =>
      ¬ dangling enabled behind .boot (bootNext.toList ++ store.order .boot) store n) =
      store.sound enabled behind .boot := by
  refine List.filter_congr fun n hn => ?_
  unfold dangling
  by_cases ho : optionOf enabled behind .boot n store = none
  · simp [hn, ho]
  · have hsome := Option.isSome_iff_ne_none.mpr ho
    simp [ho, hsome]

theorem filter_dangling_driver :
    ((store.order .boot).filter fun n =>
      ¬ dangling enabled behind .driver (store.order .driver) store n) = store.order .boot ↔
      ∀ n ∈ store.order .driver, optionOf enabled behind .driver n store = none →
        n ∉ store.order .boot := by
  rw [List.filter_eq_self]
  unfold dangling
  constructor
  · intro h n hn hnone hb
    have := h n hb
    simp [hn, hnone] at this
  · intro h n hb
    refine decide_eq_true ?_
    rintro ⟨hn, hnone⟩
    exact h n hn hnone hb

theorem sound_eq_iff (type : LoadOptionType) : store.order type = store.sound enabled behind type ↔
    ∀ n ∈ store.order type, optionOf enabled behind type n store ≠ none := by
  unfold VariableStore.sound
  rw [eq_comm, List.filter_eq_self]
  exact forall₂_congr fun n _ => Option.isSome_iff_ne_none

theorem other_boot {other : LoadOptionType} (h : other ≠ .boot) : other = .driver := by
  cases other with
  | boot => exact absurd rfl h
  | driver => rfl

theorem other_driver {other : LoadOptionType} (h : other ≠ .driver) : other = .boot := by
  cases other with
  | boot => rfl
  | driver => exact absurd rfl h

def Distinct (store : VariableStore) : Prop := ∀ type, (store.order type).Nodup

theorem wp_get_correct (type : LoadOptionType) (hnd : Distinct store) :
    wp (efiBootManagerGetLoadOptions enabled behind type) (fun _ store' => Distinct store' ∧
      ∀ answer, (OrderRequest.Correct enabled ⟨.get type, behind⟩ answer store store' ↔
        OrderRequest.Clean enabled ⟨.get type, behind⟩ store)) (fun _ _ => True) store := by
  refine wp_mono (wp_getLoadOptions type (hnd .boot)) ?_ (fun _ _ h => h)
  rintro options store' ⟨bootNext, hdriver, hset, _, _⟩
  have hother : store'.order .driver = store.order .driver := hset.order_other (by decide)
  refine ⟨?_, fun answer => ?_⟩
  · rintro (_ | _)
    · rw [hset.1]
      exact (hnd .boot).filter _
    · rw [hother]
      exact hnd .driver
  cases type with
  | boot =>
    refine iff_of_true ⟨fun other hne => ?_, ?_⟩ trivial
    · rw [other_boot hne]
      exact hother
    · show store'.order .boot = _
      rw [hset.1]
      exact filter_dangling_boot bootNext
  | driver =>
    obtain rfl := hdriver rfl
    constructor
    · rintro ⟨_, hsound⟩
      exact (sound_eq_iff .driver).mp (hother.symm.trans hsound)
    · intro hclean
      refine ⟨fun other hne => ?_, hother.trans ((sound_eq_iff .driver).mpr hclean)⟩
      rw [other_driver hne, hset.1]
      exact filter_dangling_driver.mpr fun n hn hnone => absurd hnone (hclean n hn)

theorem insertOption_eq (comparator : LoadOption → LoadOption → Bool) (option : LoadOption)
    (done : List LoadOption) : insertOption comparator option done = insertBefore comparator option done := by
  induction done with
  | nil => rfl
  | cons head tail ih => rw [insertOption, insertBefore, ih]

theorem foldl_insertOption_perm (comparator : LoadOption → LoadOption → Bool)
    (options done : List LoadOption) :
    (options.foldl (fun done option => insertOption comparator option done) done).Perm
      (done ++ options) := by
  induction options generalizing done with
  | nil =>
    rw [List.append_nil]
    exact .refl _
  | cons option options ih =>
    refine (ih _).trans ?_
    show (insertOption comparator option done ++ options).Perm _
    rw [insertOption_eq]
    refine ((insertBefore_perm option done).append_right options).trans ?_
    exact List.perm_middle.symm

def startOf (options : List LoadOption) : Nat :=
  match options with
  | first :: _ => if first.bootNext then 1 else 0
  | [] => 0

theorem drop_startOf {bootNext : Option Nat} {options : List LoadOption}
    {valid : Nat → Bool} {ns : List Nat}
    (hmap : options.map LoadOption.optionNumber = (bootNext.toList ++ ns).filter valid)
    (hflags : ∀ option ∈ options, option.bootNext = decide (bootNext = some option.optionNumber)) :
    (options.drop (startOf options)).map LoadOption.optionNumber = ns.filter valid := by
  have hstart : ∀ first rest, options = first :: rest →
      startOf options = if bootNext = some first.optionNumber then 1 else 0 := by
    rintro first rest rfl
    show (if first.bootNext = true then 1 else 0) = _
    rw [hflags first List.mem_cons_self]
    simp
  cases bootNext with
  | none =>
    have hzero : startOf options = 0 := by
      cases options with
      | nil => rfl
      | cons first rest =>
        rw [hstart first rest rfl]
        simp
    rw [hzero]
    exact hmap
  | some b =>
    by_cases hb : valid b = true
    · -- the option from `BootNext` is there
      rw [Option.toList_some, List.singleton_append, List.filter_cons_of_pos hb] at hmap
      cases options with
      | nil => cases hmap
      | cons first rest =>
        injection hmap with hfirst hrest
        rw [hstart first rest rfl, hfirst, if_pos rfl]
        exact hrest
    · rw [Option.toList_some, List.singleton_append, List.filter_cons_of_neg hb] at hmap
      have hzero : startOf options = 0 := by
        cases options with
        | nil => rfl
        | cons first rest =>
          rw [hstart first rest rfl]
          refine if_neg fun hfirst => hb ?_
          have hmem : first.optionNumber ∈ ns.filter valid := by
            rw [← hmap]
            exact List.mem_cons_self
          injection hfirst with hfirst
          rw [hfirst]
          exact (List.mem_filter.mp hmem).2
      rw [hzero]
      exact hmap

theorem wp_sort_correct (type : LoadOptionType) (comparator : LoadOption → LoadOption → Bool)
    (hnd : Distinct store) :
    wp (efiBootManagerSortLoadOptionVariable enabled behind type comparator) (fun _ store' =>
      Distinct store' ∧ ∀ answer,
        (OrderRequest.Correct enabled ⟨.sort type comparator, behind⟩ answer store store' ↔
          OrderRequest.Clean enabled ⟨.sort type comparator, behind⟩ store)) (fun _ _ => True) store := by
  unfold efiBootManagerSortLoadOptionVariable
  rw [wp_bind]
  refine wp_mono (wp_getLoadOptions type (hnd .boot)) ?_ (fun _ _ h => h)
  rintro options store₁ ⟨bootNext, hdriver, hset, hmap, hflags⟩
  show wp (setVariable (global (orderName type)) (((options.drop (startOf options)).foldl
    (fun done option => insertOption comparator option done) []).flatMap
      fun option => leBytes 2 option.optionNumber) >>= _) _ _ store₁
  rw [wp_bind]
  refine wp_mono (wp_setVariable _ _) ?_ (fun _ _ h => h)
  rintro st store₂ ⟨_, hdata, hsame⟩
  rw [wp_pure]
  have hperm : (((options.drop (startOf options)).foldl
      (fun done option => insertOption comparator option done) []).map LoadOption.optionNumber).Perm
        (store.sound enabled behind type) := by
    have h := (foldl_insertOption_perm comparator (options.drop (startOf options)) []).map
      LoadOption.optionNumber
    rw [List.nil_append, drop_startOf hmap hflags] at h
    exact h
  have hlt : ∀ n ∈ ((options.drop (startOf options)).foldl
      (fun done option => insertOption comparator option done) []).map LoadOption.optionNumber,
        n < 0x10000 :=
    fun n hn => order_lt (List.mem_filter.mp (hperm.mem_iff.mp hn)).1
  have horder : (store₂.order type).Perm (store.sound enabled behind type) := by
    have hu := uint16s_flatMap hlt
    rw [List.flatMap_map] at hu
    show (uint16s (store₂.data (global (orderName type)))).Perm _
    rw [hdata, hu]
    exact hperm
  have hother : ∀ other ≠ type, store₂.order other = store₁.order other := fun other hne =>
    congrArg uint16s (hsame _ (orderName_ne hne))
  have hboot₁ : (store₁.order .boot).Nodup := by
    rw [hset.1]
    exact (hnd .boot).filter _
  have hdriver₁ : store₁.order .driver = store.order .driver := hset.order_other (by decide)
  have hnodup : Distinct store₂ := by
    intro other
    by_cases ho : other = type
    · rw [ho]
      exact horder.nodup_iff.mpr ((hnd type).filter _)
    · rw [hother other ho]
      cases other with
      | boot => exact hboot₁
      | driver =>
        rw [hdriver₁]
        exact hnd .driver
  refine ⟨hnodup, fun answer => ?_⟩
  cases type with
  | boot =>
    refine iff_of_true ⟨fun other hne => ?_, horder⟩ trivial
    rw [hother other hne, other_boot hne]
    exact hdriver₁
  | driver =>
    obtain rfl := hdriver rfl
    have hboot : store₂.order .boot = _ := (hother .boot (by decide)).trans hset.1
    refine Iff.trans ?_ filter_dangling_driver
    constructor
    · rintro ⟨hsame', _⟩
      exact hboot.symm.trans (hsame' .boot (by decide))
    · intro hclean
      refine ⟨fun other hne => ?_, horder⟩
      rw [other_driver hne]
      exact hboot.trans hclean

theorem wp_getFreeOptionNumber (type : LoadOptionType) :
    wp (getFreeOptionNumber enabled behind type) (fun r store' => store' = store ∧
      ∀ st, r = .error st → st ≠ .success) (fun _ _ => True) store := by
  unfold getFreeOptionNumber
  rw [wp_bind]
  show wp (readBootNextOf behind type >>= _) _ _ store
  rw [wp_bind]
  refine wp_mono (wp_readBootNextOf type) ?_ (fun _ _ h => h)
  rintro bootNext store' ⟨rfl, _, _⟩
  rw [wp_bind, wp_assert]
  refine ⟨fun _ => ?_, fun _ => trivial⟩
  rw [wp_ite]
  refine ⟨fun _ => ⟨rfl, fun st hst => ?_⟩, fun _ => ⟨rfl, fun st hst => ?_⟩⟩
  · injection hst with hst
    rw [← hst]
    decide
  · cases hst

theorem wp_addNumbered (behind : VariableId → List Byte) (option : LoadOption) (position : Nat) (hnd : Distinct store) :
    wp (addNumberedOption enabled option position) (fun answer store' => Distinct store' ∧
        OrderRequest.Correct enabled ⟨.add option position, behind⟩ answer store store')
      (fun _ _ => True) store := by
  unfold addNumberedOption
  rw [wp_ite]
  have hinv : EfiStatus.invalidParameter ≠ .success := by decide
  have hstarted : EfiStatus.alreadyStarted ≠ .success := by decide
  refine ⟨fun _ => ⟨hnd, fun _ _ => rfl, .inl ⟨hinv, rfl⟩⟩, fun hlt => ?_⟩
  have hn : option.optionNumber < 0x10000 := Nat.lt_of_not_ge hlt
  rw [wp_bind]
  refine wp_mono (wp_addOptionNumber option.optionType position hn) ?_ (fun _ _ h => h)
  rintro st store₁ (⟨rfl, rfl⟩ | ⟨rfl, hmem, hset⟩)
  · exact ⟨hnd, fun _ _ => rfl, .inl ⟨hstarted, rfl⟩⟩
  -- from here on the number is in the order, whether or not the variable can be written
  show wp (efiBootManagerLoadOptionToVariable option >>= _) _ _ store₁
  rw [wp_bind]
  refine wp_mono (wp_loadOptionToVariable option hn) ?_ (fun _ _ h => h)
  intro st store₂ horder
  rw [wp_pure]
  refine ⟨fun type => ?_, fun other hne => (horder other).trans (hset.order_other hne),
    .inr ⟨hmem, (horder _).trans hset.1⟩⟩
  rw [horder type]
  by_cases ht : type = option.optionType
  · rw [ht, hset.1]
    refine (List.perm_insertIdx _ _ (Nat.min_le_right _ _)).nodup_iff.mpr ?_
    exact List.nodup_cons.mpr ⟨hmem, hnd _⟩
  · rw [hset.order_other ht]
    exact hnd type

theorem wp_add_correct (option : LoadOption) (position : Nat) (hnd : Distinct store) :
    wp (efiBootManagerAddLoadOptionVariable enabled behind option position) (fun answer store' =>
      Distinct store' ∧
        OrderRequest.Correct enabled ⟨.add option position, behind⟩ answer store store')
      (fun _ _ => True) store := by
  have assigned : wp (assignedNumber enabled behind option) (fun r store' => store' = store ∧
      ∀ st, r = .error st → st ≠ .success) (fun _ _ => True) store := by
    unfold assignedNumber
    rw [wp_ite]
    refine ⟨fun _ => wp_getFreeOptionNumber _, fun _ => ⟨rfl, fun st h => by cases h⟩⟩
  unfold efiBootManagerAddLoadOptionVariable
  rw [wp_bind]
  refine wp_mono assigned ?_ (fun _ _ h => h)
  rintro r store' ⟨rfl, hst⟩
  cases r with
  | error st => exact ⟨hnd, fun _ _ => rfl, .inl ⟨hst st rfl, rfl⟩⟩
  | ok n => exact wp_addNumbered behind { option with optionNumber := n } position hnd

theorem wp_delete_correct (behind : VariableId → List Byte) (type : LoadOptionType) (n : Nat) (hnd : Distinct store) :
    wp (efiBootManagerDeleteLoadOptionVariable enabled n type) (fun _ store' => Distinct store' ∧
      ∀ answer, OrderRequest.Correct enabled ⟨.delete n type, behind⟩ answer store store')
      (fun _ _ => True) store := by
  refine wp_mono (wp_deleteLoadOption type n (hnd type)) ?_ (fun _ _ h => h)
  intro _ store' hset
  refine ⟨fun other => ?_, fun _ => ⟨fun other hne => hset.order_other hne, hset.1⟩⟩
  by_cases ho : other = type
  · rw [ho, hset.1]
    exact (hnd type).filter _
  · rw [hset.order_other ho]
    exact hnd other

/-! ## Runs -/

theorem wp_serveOrder (request : OrderRequest) (hnd : Distinct store) :
    wp (serveOrder enabled request) (fun answer store' => Distinct store' ∧
      (request.Correct enabled answer store store' ↔ request.Clean enabled store))
      (fun _ _ => True) store := by
  obtain ⟨call, behind⟩ := request
  cases call with
  | add option position =>
    refine wp_mono (wp_add_correct option position hnd) ?_ (fun _ _ h => h)
    intro answer store' h
    exact ⟨h.1, iff_of_true h.2 trivial⟩
  | delete n type =>
    show wp (efiBootManagerDeleteLoadOptionVariable enabled n type >>= _) _ _ store
    rw [wp_bind]
    refine wp_mono (wp_delete_correct behind type n hnd) ?_ (fun _ _ h => h)
    intro st store' h
    exact ⟨h.1, iff_of_true (h.2 _) trivial⟩
  | sort type comparator =>
    show wp (efiBootManagerSortLoadOptionVariable enabled behind type comparator >>= _) _ _ store
    rw [wp_bind]
    refine wp_mono (wp_sort_correct type comparator hnd) ?_ (fun _ _ h => h)
    intro _ store' h
    exact ⟨h.1, h.2 _⟩
  | get type =>
    show wp (efiBootManagerGetLoadOptions enabled behind type >>= _) _ _ store
    rw [wp_bind]
    refine wp_mono (wp_get_correct type hnd) ?_ (fun _ _ h => h)
    intro _ store' h
    exact ⟨h.1, h.2 _⟩

end Store

/-- A call made in this state, whatever it answers, leaves the orders free of duplicates and changed as
they should be. -/
def Meets (enabled : Bool) (request : OrderRequest) (store : VariableStore) : Prop :=
  ∀ answer store', serveOrder enabled request store = .ret answer store' →
    Distinct store' ∧ request.Correct enabled answer store store'

/-- Along every run from orders without duplicates, every call does what it is to do if and only if no
call collects driver options over a dangling reference. The orders stay free of duplicates in any
case. -/
theorem orders_kept_iff {enabled : Bool} {requests : List OrderRequest} {store store' : VariableStore}
    (hnd : Distinct store) (hrun : serve (serveOrder enabled) requests store = .ret () store') :
    Distinct store' ∧ (EachMeets (serveOrder enabled) (Meets enabled) requests store ↔
      EachMeets (serveOrder enabled) (OrderRequest.Clean enabled) requests store) := by
  refine EachMeets.congr_of_ret (I := Distinct) ?_ requests store store' hnd hrun
  intro request s answer s' hs hret
  have h := wp_of_ret (wp_serveOrder request hs) hret
  refine ⟨h.1, fun hm => h.2.mp (hm answer s' hret).2, fun hc answer' s'' hret' => ?_⟩
  have h' := wp_of_ret (wp_serveOrder request hs) hret'
  exact ⟨h'.1, h'.2.mpr hc⟩

def smallOption : List Byte := [1, 0, 0, 0, 4, 0, 0, 0, 0x7F, 0xFF, 4, 0]

/-- `BootOrder` is `0001`, `DriverOrder` is `0001`, and `Boot0001` is valid. There is no
`Driver0001`. -/
def storeWithoutDriver : VariableStore :=
  (((∅ : VariableStore).insert (global (orderName .boot)) [1, 0]).insert
    (global (orderName .driver)) [1, 0]).insert (global (loadOptionName .boot 1)) smallOption

def storeWithDriver : VariableStore :=
  storeWithoutDriver.insert (global (loadOptionName .driver 1)) smallOption

def collectDrivers : OrderRequest := ⟨.get .driver, fun _ => []⟩

def collectBoots : OrderRequest := ⟨.get .boot, fun _ => []⟩

theorem distinct_storeWithDriver : Distinct storeWithDriver := by
  rintro (_ | _) <;> decide

theorem orders_kept_small : ∃ store', serve (serveOrder true) [collectDrivers, collectBoots]
      storeWithDriver = .ret () store' ∧ Distinct store' ∧
    (EachMeets (serveOrder true) (Meets true) [collectDrivers, collectBoots] storeWithDriver ↔
      EachMeets (serveOrder true) (OrderRequest.Clean true) [collectDrivers, collectBoots]
        storeWithDriver) := by
  have hv : (serve (serveOrder true) [collectDrivers, collectBoots] storeWithDriver).value? =
      some () := by decide
  have hrun := Outcome.eq_ret hv
  exact ⟨_, hrun, orders_kept_iff distinct_storeWithDriver hrun⟩

/-- `Driver0001` is missing. Collecting the driver options leaves the reference to it in `DriverOrder`,
and deletes the reference to `Boot0001` from `BootOrder`. -/
theorem boot_reference_lost :
    (serveOrder true collectDrivers storeWithoutDriver).value? = some (.success, 0) ∧
      (serveOrder true collectDrivers storeWithoutDriver).state.order .driver = [1] ∧
      storeWithoutDriver.sound true (fun _ => []) .driver = [] ∧
      storeWithoutDriver.order .boot = [1] ∧
      storeWithoutDriver.sound true (fun _ => []) .boot = [1] ∧
      (serveOrder true collectDrivers storeWithoutDriver).state.order .boot = [] := by
  refine ⟨?_, ?_, ?_, ?_, ?_, ?_⟩ <;> decide

end Quark.Bds.Proofs
