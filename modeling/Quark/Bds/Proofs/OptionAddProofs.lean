import Quark.Bds.Proofs.OptionOrderProofs
import Quark.Bds.Proofs.HotkeyProofs

/-!
# When an addition is atomic

The order is written first. Whatever goes wrong from there on leaves the number in it, and a variable that is
not in the order is replaced.
-/

namespace Quark.Bds.Proofs

open Machine Exec

/-! ## The smallest number that is not used -/

theorem leastUnused_unique {used : List Nat} {n m : Nat} (hn : LeastUnused used n) (hm : LeastUnused used m) :
    n = m := by
  rcases Nat.lt_trichotomy n m with h | h | h
  · exact absurd (hm.2 n h) hn.1
  · exact h
  · exact absurd (hn.2 m h) hm.1

def freeNumberIn (used : List Nat) : Nat :=
  ((List.range used.length).find? fun n => decide (n ∉ used)).getD used.length

theorem leastUnused_freeNumberIn (used : List Nat) : LeastUnused used (freeNumberIn used) := by
  unfold freeNumberIn
  cases hfind : (List.range used.length).find? fun n => decide (n ∉ used) with
  | some n =>
    obtain ⟨hn, hsome⟩ : n ∉ used ∧ ∀ m < n, m ∈ used := by
      rw [List.find?_range_eq_some] at hfind
      obtain ⟨hn, -, hbefore⟩ := hfind
      refine ⟨of_decide_eq_true hn, fun m hm => ?_⟩
      have hnot := hbefore m hm
      simpa using hnot
    exact ⟨hn, hsome⟩
  | none =>
    have hall : ∀ m < used.length, m ∈ used := by
      intro m hm
      have hnot := List.find?_eq_none.mp hfind m (List.mem_range.mpr hm)
      simpa using hnot
    obtain ⟨n, hle, hn⟩ := exists_not_mem_le used
    rcases Nat.lt_or_eq_of_le hle with hlt | rfl
    · exact absurd (hall n hlt) hn
    · exact ⟨hn, hall⟩

theorem leastUnused_le {used : List Nat} {n k : Nat} (h : LeastUnused used n) (hk : k ∉ used) : n ≤ k := by
  by_contra hlt
  exact hk (h.2 k (Nat.lt_of_not_le hlt))

/-! ## The number of the option -/

section

variable {enabled : Bool} {behind : VariableId → List Byte} {store : VariableStore} {option : LoadOption}

theorem bootNextOf_absent (h : store.data (global (wide ['B', 'o', 'o', 't', 'N', 'e', 'x', 't'])) = []) :
    bootNextOf behind store .boot = none := if_pos h

theorem bootNextOf_present (h : store.data (global (wide ['B', 'o', 'o', 't', 'N', 'e', 'x', 't'])) ≠ []) :
    bootNextOf behind store .boot = some (leValue ((bootNextMemory behind store).take 2)) := if_neg h

theorem readBootNextOf_ret (type : LoadOptionType)
    (h : type = .boot → store.data (global (wide ['B', 'o', 'o', 't', 'N', 'e', 'x', 't'])) ≠ [] →
      2 ≤ (bootNextMemory behind store).length) :
    readBootNextOf behind type store = .ret (bootNextOf behind store type) store := by
  cases type with
  | driver => rfl
  | boot =>
    refine (bind_of_ret (getVariable_eq _ _)).trans ?_
    by_cases hnone : store.data (global (wide ['B', 'o', 'o', 't', 'N', 'e', 'x', 't'])) = []
    · rw [if_pos hnone, bootNextOf_absent hnone]
      rfl
    · have hread : word? 2 (bootNextMemory behind store) 0 =
          some (leValue ((bootNextMemory behind store).take 2)) := by
        rw [word?_inside (by rw [Nat.zero_add]; exact h rfl hnone)]
        rfl
      rw [if_neg hnone, bootNextOf_present hnone]
      show (inBounds (word? 2 (bootNextMemory behind store) 0) >>= _) store = _
      rw [hread]
      rfl

theorem used_lt (type : LoadOptionType) :
    ∀ n ∈ store.order type ++ (bootNextOf behind store type).toList, n < 0x10000 := by
  intro n hn
  rcases List.mem_append.mp hn with hn | hn
  · exact order_lt hn
  · cases type with
    | driver => cases hn
    | boot =>
      by_cases hnone : store.data (global (wide ['B', 'o', 'o', 't', 'N', 'e', 'x', 't'])) = []
      · rw [bootNextOf_absent hnone] at hn
        cases hn
      · rw [bootNextOf_present hnone] at hn
        rw [List.mem_singleton.mp hn]
        have hlt := leValue_lt ((bootNextMemory behind store).take 2)
        exact Nat.lt_of_lt_of_le hlt (Nat.pow_le_pow_right (by decide) (List.length_take_le 2 _))

theorem getFreeOptionNumber_ret (type : LoadOptionType)
    (h : type = .boot → store.data (global (wide ['B', 'o', 'o', 't', 'N', 'e', 'x', 't'])) ≠ [] →
      2 ≤ (bootNextMemory behind store).length) :
    ∃ n, LeastUnused (store.order type ++ (bootNextOf behind store type).toList) n ∧
      getFreeOptionNumber enabled behind type store =
        .ret (if n < loadOptionNumberMax then .ok n else .error .outOfResources) store := by
  have hleast := leastUnused_freeNumberIn (store.order type ++ (bootNextOf behind store type).toList)
  have hmax : 0x10000 ∉ store.order type ++ (bootNextOf behind store type).toList :=
    fun hmem => Nat.lt_irrefl _ (used_lt type _ hmem)
  have hle := leastUnused_le hleast hmax
  have hrun : getFreeOptionNumber enabled behind type store =
      (assert enabled (freeNumberIn (store.order type ++ (bootNextOf behind store type).toList) ≤ 0x10000) >>=
        fun _ =>
          if freeNumberIn (store.order type ++ (bootNextOf behind store type).toList) = 0x10000 then
            pure (.error .outOfResources)
          else pure (.ok (freeNumberIn
            (store.order type ++ (bootNextOf behind store type).toList) % 0x10000))) store := by
    -- the test of the search is that for both lists together
    have htest : (fun n => decide (n ∉ store.order type ++ (bootNextOf behind store type).toList)) =
        fun n => decide (n ∉ store.order type ∧ bootNextOf behind store type ≠ some n) := by
      funext n
      rw [decide_eq_decide, List.mem_append, not_or]
      refine and_congr_right fun _ => not_congr ?_
      cases bootNextOf behind store type with
      | none => simp
      | some m => simp [eq_comm]
    unfold freeNumberIn
    rw [List.length_append, htest]
    exact (bind_of_ret (getVariable_eq _ _)).trans (bind_of_ret (readBootNextOf_ret type h))
  generalize freeNumberIn (store.order type ++ (bootNextOf behind store type).toList) = n at hrun hle hleast
  refine ⟨n, hleast, hrun.trans ((bind_of_ret (assert_of (fun _ => hle) store)).trans ?_)⟩
  by_cases hn : n = 0x10000
  · rw [if_pos hn, if_neg (by rw [hn]; decide)]
    rfl
  · have hlt : n < 0x10000 := Nat.lt_of_le_of_ne hle hn
    have hlt' : n < loadOptionNumberMax := hlt
    rw [if_neg hn, if_pos hlt']
    show Outcome.ret (Except.ok (n % 0x10000)) store = _
    rw [Nat.mod_eq_of_lt hlt]

theorem readBootNext_stop
    (hpresent : store.data (global (wide ['B', 'o', 'o', 't', 'N', 'e', 'x', 't'])) ≠ [])
    (hshort : ¬ 2 ≤ (bootNextMemory behind store).length) :
    readBootNext behind store = .stop .outOfBounds store := by
  have hword : word? 2 (bootNextMemory behind store) 0 = none :=
    if_neg (by rw [Nat.zero_add]; exact hshort)
  refine (bind_of_ret (getVariable_eq _ _)).trans ?_
  rw [if_neg hpresent]
  show (inBounds (word? 2 (bootNextMemory behind store) 0) >>= _) store = _
  rw [hword]
  rfl

theorem getFreeOptionNumber_stop
    (hpresent : store.data (global (wide ['B', 'o', 'o', 't', 'N', 'e', 'x', 't'])) ≠ [])
    (hshort : ¬ 2 ≤ (bootNextMemory behind store).length) :
    getFreeOptionNumber enabled behind .boot store = .stop .outOfBounds store :=
  (bind_of_ret (getVariable_eq _ _)).trans (bind_of_stop (readBootNext_stop hpresent hshort))

theorem assignedNumber_ret (enabled : Bool) (h : BootNextReadable behind option store) :
    ∃ n, NumberFor behind option store n ∧ (∀ m, NumberFor behind option store m → m = n) ∧
      (assignedNumber enabled behind option store = .ret (.ok n) store ∨
        loadOptionNumberMax ≤ n ∧ assignedNumber enabled behind option store =
          .ret (.error .outOfResources) store) := by
  unfold NumberFor assignedNumber
  by_cases hunassigned : option.optionNumber = loadOptionNumberUnassigned
  · obtain ⟨n, hleast, hrun⟩ := getFreeOptionNumber_ret option.optionType (h hunassigned)
    simp only [if_pos hunassigned]
    refine ⟨n, hleast, fun m hm => leastUnused_unique hm hleast, ?_⟩
    by_cases hlt : n < loadOptionNumberMax
    · rw [if_pos hlt] at hrun
      exact .inl hrun
    · rw [if_neg hlt] at hrun
      exact .inr ⟨Nat.not_lt.mp hlt, hrun⟩
  · simp only [if_neg hunassigned]
    exact ⟨option.optionNumber, rfl, fun m hm => hm, .inl rfl⟩

end

/-! ## The two writes -/

section

variable {enabled : Bool} {failures : SetFailures} {option : LoadOption} {position n : Nat}
  {store : VariableStore}

def orderWith (store : VariableStore) (type : LoadOptionType) (n position : Nat) : List Byte :=
  let optionOrder := store.data (global (orderName type))
  let position := min position (optionOrder.length / 2)
  optionOrder.take (position * 2) ++ (leBytes 2 n ++ optionOrder.drop (position * 2))

theorem orderWith_ne_nil (store : VariableStore) (type : LoadOptionType) (n position : Nat) :
    orderWith store type n position ≠ [] := by
  simp [orderWith, leBytes]

theorem length_orderWith (store : VariableStore) (type : LoadOptionType) (n position : Nat) :
    (orderWith store type n position).length = (store.data (global (orderName type))).length + 2 := by
  unfold orderWith
  dsimp only
  rw [List.length_append, List.length_append, length_leBytes, List.length_take, List.length_drop]
  omega

theorem addOptionNumberUnless_ret (enabled : Bool) (failure : Option Failure) (type : LoadOptionType)
    (position : Nat) (hmem : n ∉ store.order type) :
    addOptionNumberUnless enabled failure type n position store =
      match failure with
      | some status =>
        if enabled = true then .stop .deadLoop store else .ret status.val store
      | none => .ret .success (store.insert (global (orderName type)) (orderWith store type n position)) := by
  refine (bind_of_ret (getVariable_eq _ _)).trans ?_
  show (if n ∈ store.order type then _ else _ : Exec VariableStore EfiStatus) store = _
  rw [if_neg hmem]
  cases failure with
  | some status =>
    refine (bind_of_ret (x := setVariableUnless (some status) _ _) rfl).trans ?_
    unfold assertEfiError assert
    cases enabled with
    | true =>
      dsimp only
      rw [if_pos ⟨rfl, by rw [status.property]; decide⟩]
      rfl
    | false =>
      dsimp only
      rw [if_neg fun h => Bool.false_ne_true h.1]
      rfl
  | none =>
    have hset : setVariableUnless none (global (orderName type)) (orderWith store type n position) store =
        .ret .success (store.insert (global (orderName type)) (orderWith store type n position)) :=
      setVariable_eq (orderWith_ne_nil store type n position)
    refine (bind_of_ret hset).trans ((bind_of_ret (assert_of (fun _ => rfl) _)).trans ?_)
    rfl

theorem optionVariable_ne_nil (option : LoadOption) (filePath : List Byte) :
    optionVariable option filePath ≠ [] := by
  simp [optionVariable, leBytes]

theorem loadOptionToVariableUnless_ret (option : LoadOption) (store : VariableStore) {filePath : List Byte}
    (failure : Option Failure)
    (hpath : option.filePath = some filePath) (hn : option.optionNumber < loadOptionNumberMax)
    (hsize : (optionVariable option filePath).length < 0x100000000) :
    loadOptionToVariableUnless failure option store =
      match failure with
      | some status => .ret status.val store
      | none => .ret .success (store.insert
          (global (loadOptionName option.optionType option.optionNumber)) (optionVariable option filePath)) := by
  unfold loadOptionToVariableUnless
  rw [hpath]
  show (if option.optionNumber = loadOptionNumberUnassigned then _ else _ : Exec VariableStore _) store = _
  have hassigned : option.optionNumber ≠ loadOptionNumberUnassigned := Nat.ne_of_lt hn
  rw [if_neg hassigned, optionVariableSize_eq hsize]
  show (if (optionVariable option filePath).length > (optionVariable option filePath).length then _ else _ :
    Exec VariableStore EfiStatus) store = _
  rw [if_neg (Nat.lt_irrefl _)]
  cases failure with
  | some status => rfl
  | none => exact setVariable_eq (optionVariable_ne_nil option filePath)

theorem loadOptionToVariableUnless_fails (option : LoadOption) (failure : Option Failure)
    (hn : option.optionNumber < loadOptionNumberMax)
    (hbad : ¬ ∃ filePath, option.filePath = some filePath ∧
      (optionVariable option filePath).length < 0x100000000) {status : EfiStatus} {t : VariableStore}
    (hrun : loadOptionToVariableUnless failure option store = .ret status t) :
    status = .invalidParameter ∧ t = store := by
  unfold loadOptionToVariableUnless at hrun
  cases hpath : option.filePath with
  | none =>
    rw [hpath] at hrun
    cases hrun
    exact ⟨rfl, rfl⟩
  | some filePath =>
    rw [hpath] at hrun
    have hlarge : (optionVariable option filePath).length > optionVariableSize option filePath := by
      have hsize : ¬ (optionVariable option filePath).length < 0x100000000 :=
        fun hlt => hbad ⟨filePath, hpath, hlt⟩
      have hlength := length_optionVariable option filePath
      unfold optionVariableSize
      omega
    have hstop : (if option.optionNumber = loadOptionNumberUnassigned then _ else _ :
        Exec VariableStore EfiStatus) store = .ret status t := hrun
    have hassigned : option.optionNumber ≠ loadOptionNumberUnassigned := Nat.ne_of_lt hn
    rw [if_neg hassigned] at hstop
    have hhalt : (if (optionVariable option filePath).length > optionVariableSize option filePath then _
        else _ : Exec VariableStore EfiStatus) store = .ret status t := hstop
    rw [if_pos hlarge] at hhalt
    cases hhalt

def ordered (store : VariableStore) (option : LoadOption) (n position : Nat) : VariableStore :=
  store.insert (global (orderName option.optionType)) (orderWith store option.optionType n position)

theorem addNumberedOptionUnless_listed (hn : n < loadOptionNumberMax) (hmem : n ∈ store.order option.optionType) :
    addNumberedOptionUnless enabled failures { option with optionNumber := n } position store =
      .ret (.alreadyStarted, n) store := by
  have hlisted : addOptionNumberUnless enabled failures.order option.optionType n position store =
      .ret .alreadyStarted store := by
    refine (bind_of_ret (getVariable_eq _ _)).trans ?_
    show (if n ∈ store.order option.optionType then _ else _ : Exec VariableStore EfiStatus) store = _
    rw [if_pos hmem]
    rfl
  unfold addNumberedOptionUnless
  rw [if_neg (Nat.not_le.mpr hn)]
  exact (bind_of_ret hlisted).trans rfl

theorem addNumberedOptionUnless_new (hn : n < loadOptionNumberMax) (hmem : n ∉ store.order option.optionType) :
    addNumberedOptionUnless enabled failures { option with optionNumber := n } position store =
      match failures.order with
      | some status => if enabled = true then .stop .deadLoop store else .ret (status.val, n) store
      | none => (loadOptionToVariableUnless failures.option { option with optionNumber := n } >>= fun status =>
          pure (status, n)) (ordered store option n position) := by
  have horder := addOptionNumberUnless_ret enabled failures.order option.optionType position hmem
  unfold addNumberedOptionUnless
  rw [if_neg (Nat.not_le.mpr hn)]
  cases hfailure : failures.order with
  | some status =>
    rw [hfailure] at horder
    cases henabled : enabled with
    | true =>
      rw [henabled] at horder
      exact bind_of_stop horder
    | false =>
      rw [henabled] at horder
      refine (bind_of_ret horder).trans ?_
      rw [if_pos status.property]
      rfl
  | none =>
    rw [hfailure] at horder
    exact (bind_of_ret horder).trans rfl

theorem ordered_data_ne : (ordered store option n position).data (global (orderName option.optionType)) ≠
    store.data (global (orderName option.optionType)) := by
  intro h
  have hlength := congrArg List.length h
  unfold ordered at hlength
  rw [data_insert, length_orderWith] at hlength
  omega

theorem added_of_written {filePath : List Byte} (hpath : option.filePath = some filePath)
    (hn : n < loadOptionNumberMax) (hmem : n ∉ store.order option.optionType)
    (hfresh : store.data (global (loadOptionName option.optionType n)) = []) :
    Added option position n store ((ordered store option n position).insert
      (global (loadOptionName option.optionType n)) (optionVariable option filePath)) := by
  have hne := orderName_ne_loadOptionName option.optionType option.optionType hn
  refine ⟨?_, hmem, hfresh, ⟨filePath, hpath, ?_⟩, fun id horder hoption => ?_⟩
  · have hdata : VariableStore.data ((ordered store option n position).insert
        (global (loadOptionName option.optionType n)) (optionVariable option filePath))
          (global (orderName option.optionType)) = orderWith store option.optionType n position := by
      rw [data_insert_ne hne]
      exact data_insert _ _
    show uint16s _ = _
    rw [hdata]
    unfold orderWith
    dsimp only
    rw [← length_uint16s]
    exact uint16s_insert (Nat.min_le_right _ _) hn
  · rw [data_insert]
    rfl
  · rw [data_insert_ne hoption]
    exact data_insert_ne horder _

end

/-! ## Atomic additions -/

section

variable (enabled : Bool) (behind : VariableId → List Byte) (failures : SetFailures) (option : LoadOption)
  (position : Nat) (store : VariableStore)

theorem undisturbed_of_atomic {n : Nat} (hn : n < loadOptionNumberMax)
    (hmem : n ∉ store.order option.optionType) {status : EfiStatus} {number : Nat} {store' : VariableStore}
    (hrun : addNumberedOptionUnless enabled failures { option with optionNumber := n } position store =
      .ret (status, number) store')
    (h : status = .success ∧ Added option position number store store' ∨
      status.isError = true ∧ ∀ id, store'.data id = store.data id) :
    AddUndisturbed enabled failures option n store := by
  rw [addNumberedOptionUnless_new hn hmem] at hrun
  cases hfailure : failures.order with
  | some failure =>
    have hsome : failures.order ≠ none := by
      rw [hfailure]
      exact Option.some_ne_none failure
    refine ⟨fun _ => ?_, fun hnone => absurd hnone hsome, fun hnone => absurd hnone hsome,
      fun hnone => absurd hnone hsome⟩
    cases henabled : enabled with
    | false => rfl
    | true =>
      rw [hfailure, henabled] at hrun
      cases hrun
  | none =>
    rw [hfailure] at hrun
    obtain ⟨written, t, hwrite, hret⟩ := ret_of_bind hrun
    cases hret
    -- an error leaves the number in the order
    have hsuccess : store' = ordered store option n position → status = .success := by
      rintro rfl
      rcases h with ⟨hsuccess, -⟩ | ⟨-, hsame⟩
      · exact hsuccess
      · exact absurd (hsame _) ordered_data_ne
    have hpath : ∃ filePath, option.filePath = some filePath ∧
        (optionVariable option filePath).length < 0x100000000 := by
      by_contra hbad
      obtain ⟨rfl, ht⟩ := loadOptionToVariableUnless_fails { option with optionNumber := n }
        failures.option hn hbad hwrite
      cases hsuccess ht
    obtain ⟨filePath, hfile, hsize⟩ := hpath
    have hwrite' := loadOptionToVariableUnless_ret { option with optionNumber := n }
      (ordered store option n position) failures.option hfile hn hsize
    rw [hwrite] at hwrite'
    have hoption : failures.option = none := by
      cases hfails : failures.option with
      | none => rfl
      | some failure =>
        rw [hfails] at hwrite'
        injection hwrite' with hstatus ht
        have hfailed := failure.property
        rw [← hstatus, hsuccess ht] at hfailed
        cases hfailed
    rw [hoption] at hwrite'
    injection hwrite' with hstatus ht
    rcases h with ⟨-, hadded⟩ | ⟨hfailed, -⟩
    · exact ⟨fun hne => absurd hfailure hne, fun _ => ⟨filePath, hfile, hsize⟩, fun _ => hadded.fresh,
        fun _ => hoption⟩
    · rw [hstatus] at hfailed
      cases hfailed

theorem atomic_of_undisturbed {n : Nat} (hn : n < loadOptionNumberMax)
    (hmem : n ∉ store.order option.optionType) (h : AddUndisturbed enabled failures option n store) :
    ∃ status number store', addNumberedOptionUnless enabled failures { option with optionNumber := n } position
        store = .ret (status, number) store' ∧
      (status = .success ∧ Added option position number store store' ∨
        status.isError = true ∧ ∀ id, store'.data id = store.data id) := by
  rw [addNumberedOptionUnless_new hn hmem]
  cases hfailure : failures.order with
  | some failure =>
    have hdisabled := h.order (by rw [hfailure]; exact Option.some_ne_none failure)
    refine ⟨failure.val, n, store, ?_, .inr ⟨failure.property, fun _ => rfl⟩⟩
    rw [hdisabled]
    rfl
  | none =>
    obtain ⟨filePath, hpath, hsize⟩ := h.filePath hfailure
    have hwrite := loadOptionToVariableUnless_ret { option with optionNumber := n }
      (ordered store option n position) failures.option hpath hn hsize
    rw [h.option hfailure] at hwrite ⊢
    exact ⟨.success, n, _, (bind_of_ret hwrite).trans rfl,
      .inl ⟨rfl, added_of_written hpath hn hmem (h.fresh hfailure)⟩⟩

theorem addAtomic_iff : AddAtomic enabled behind failures option position store ↔
    AddClean enabled behind failures option store := by
  constructor
  · rintro ⟨status, number, store', hrun, houtcome⟩
    have hreadable : BootNextReadable behind option store := by
      intro hunassigned hboot hnone
      by_contra hshort
      have hassigned : assignedNumber enabled behind option store = .stop .outOfBounds store := by
        unfold assignedNumber
        rw [if_pos hunassigned, hboot]
        exact getFreeOptionNumber_stop hnone hshort
      have hstop := hrun.symm.trans (bind_of_stop hassigned)
      cases hstop
    refine ⟨hreadable, fun n hnumber hn hmem => ?_⟩
    obtain ⟨m, -, hunique, hassigned⟩ := assignedNumber_ret enabled hreadable
    obtain rfl := hunique n hnumber
    rcases hassigned with hassigned | ⟨hge, -⟩
    · have hrest := (bind_of_ret hassigned).symm.trans hrun
      exact undisturbed_of_atomic enabled failures option position store hn hmem hrest houtcome
    · exact absurd hn (Nat.not_lt.mpr hge)
  · rintro ⟨hreadable, hundisturbed⟩
    obtain ⟨n, hnumber, -, hassigned⟩ := assignedNumber_ret enabled hreadable
    rcases hassigned with hassigned | ⟨-, hassigned⟩
    · have hrest : ∃ status number store',
          addNumberedOptionUnless enabled failures { option with optionNumber := n } position store =
              .ret (status, number) store' ∧
            (status = .success ∧ Added option position number store store' ∨
              status.isError = true ∧ ∀ id, store'.data id = store.data id) := by
        by_cases hn : n < loadOptionNumberMax
        · by_cases hmem : n ∈ store.order option.optionType
          · exact ⟨_, _, _, addNumberedOptionUnless_listed hn hmem, .inr ⟨rfl, fun _ => rfl⟩⟩
          · exact atomic_of_undisturbed enabled failures option position store hn hmem
              (hundisturbed n hnumber hn hmem)
        · refine ⟨.invalidParameter, n, store, ?_, .inr ⟨rfl, fun _ => rfl⟩⟩
          unfold addNumberedOptionUnless
          rw [if_pos (Nat.not_lt.mp hn)]
          rfl
      obtain ⟨status, number, store', hrun, houtcome⟩ := hrest
      exact ⟨status, number, store', (bind_of_ret hassigned).trans hrun, houtcome⟩
    · exact ⟨_, _, store, (bind_of_ret hassigned).trans rfl, .inr ⟨rfl, fun _ => rfl⟩⟩

end

theorem addLoadOptionUnless_none (enabled : Bool) (behind : VariableId → List Byte) (option : LoadOption)
    (position : Nat) : addLoadOptionUnless enabled behind ⟨none, none⟩ option position =
      efiBootManagerAddLoadOptionVariable enabled behind option position := rfl

def pathlessOption : LoadOption where
  optionNumber := 0
  optionType := .boot
  attributes := 1
  description := none
  filePath := none
  optionalData := []
  bootNext := false

/-- The number of an option that has no device path is put into the order, and then there is an error. -/
theorem pathless_not_atomic : ¬ AddAtomic true (fun _ => []) ⟨none, none⟩ pathlessOption 0 ∅ := by
  rintro ⟨status, number, store', hrun, h⟩
  have hrest : addNumberedOptionUnless true ⟨none, none⟩ { pathlessOption with optionNumber := 0 } 0 ∅ =
      .ret (status, number) store' := hrun
  have hundisturbed := undisturbed_of_atomic true ⟨none, none⟩ pathlessOption 0 ∅ (by decide) (by decide) hrest h
  obtain ⟨filePath, hpath, -⟩ := hundisturbed.filePath rfl
  cases hpath

end Quark.Bds.Proofs
