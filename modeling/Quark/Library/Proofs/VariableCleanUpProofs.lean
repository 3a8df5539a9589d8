import Quark.Library.Proofs.VariableTableProofs

/-!
# The clean-up of the variable store

Which variables `PlatformDeleteVariables` leaves, and what it answers.
-/

namespace Quark.PlatformHelper

open Machine Exec Bds

/-! ## What the clean-up is for -/

def Matched (maintainTable : Option (List VariableTableEntry)) (id : VariableId) : Prop :=
  ∃ table, maintainTable = some table ∧
    (⟨id.vendorGuid, some id.name⟩ ∈ table ∨ ⟨id.vendorGuid, none⟩ ∈ table)

structure ValidStore (store : StoredVariables) : Prop where
  nodup : (store.map StoredVariable.id).Nodup
  named : ∀ v ∈ store, v.id.name ≠ [] ∧ 0 ∉ v.id.name
  below : ∀ v ∈ store, strSize v.id.name ≤ efiPageSize

/-- `AllocatePool` and `ReallocatePool` always have memory. -/
structure CleanUpMemory.Served (memory : CleanUpMemory) : Prop where
  nameBuffer : memory.nameBuffer = true
  names : ∀ i, memory.names i = ⟨true, true⟩
  guids : ∀ i, memory.guids i = ⟨true, true⟩

/-- What a clean-up of `store` is to come to. -/
structure CleanedUp (store : StoredVariables) (maintainTable : Option (List VariableTableEntry))
    (r : DeleteResult) (t : StoredVariables) : Prop where
  left : ∀ v, v ∈ t ↔ v ∈ store ∧ (v.writeProtected = true ∨ Matched maintainTable v.id)
  sublist : t.Sublist store
  counts : ∀ d m, r.deleteCount = some d → r.maintainCount = some m → d + m = store.length
  status : r.status = .notFound ↔ t = store

theorem isMaintained_iff (maintainTable : Option (List VariableTableEntry)) (id : VariableId) :
    isMaintained maintainTable id = true ↔ Matched maintainTable id := by
  cases maintainTable with
  | none =>
    refine ⟨fun h => ?_, fun ⟨table, htable, _⟩ => ?_⟩
    · cases h
    · cases htable
  | some table =>
    obtain ⟨hfound, hglobal⟩ := findEntries_both id.vendorGuid id.name table [] ⟨none, none⟩ .nil .nil
    have hiff : ∀ {e : VariableTableEntry} {p : Option Nat}, PointsAt ([] ++ table) e p →
        (p ≠ none ↔ e ∈ table) := by
      intro e p hp
      constructor
      · intro hne
        obtain ⟨i, hi⟩ := Option.ne_none_iff_exists'.mp hne
        exact List.mem_of_getElem? (hp.get i hi)
      · intro hmem hnone
        exact hp.absent hnone hmem
    have hsearch : isMaintained (some table) id = true ↔
        (findEntries true id.vendorGuid (some id.name) 0 table ⟨none, none⟩).found ≠ none ∨
        some (findEntries true id.vendorGuid (some id.name) 0 table ⟨none, none⟩).vendorGlobal ≠
          some none := by
      unfold isMaintained platformFindVariableTableEntry
      simp
    have hmatched : Matched (some table) id ↔
        (⟨id.vendorGuid, some id.name⟩ ∈ table ∨ ⟨id.vendorGuid, none⟩ ∈ table) := by
      refine ⟨fun ⟨table', htable, h⟩ => ?_, fun h => ⟨table, rfl, h⟩⟩
      cases htable
      exact h
    rw [hsearch, hmatched]
    exact or_congr (hiff hfound) (Iff.trans (by simp) (hiff hglobal))

/-! ## Data pools -/

section

variable {σ α : Type} (asserts : Bool) {m : PoolMemory} (size terminatorLen : Nat) {data : List α}
  {p : Option (DataPool α)}

def PoolHolds (data : List α) (p : Option (DataPool α)) : Prop :=
  match p with
  | none => data = []
  | some pool => data ≠ [] ∧ pool.data = data

theorem platformDataPoolAppend_ret (appendData : List α) (h : PoolHolds data p)
    (hm : m = ⟨true, true⟩) (happend : appendData ≠ []) (s : σ) :
    ∃ pool, (platformDataPoolAppend asserts m size p appendData terminatorLen : Exec σ _) s =
      .ret (true, some pool) s ∧ PoolHolds (data ++ appendData) (some pool) := by
  subst hm
  obtain ⟨created, hcreate, hdata⟩ : ∃ created, (createDataPool asserts ⟨true, true⟩ p : Exec σ _) s =
      .ret (some created) s ∧ created.data = data := by
    cases p with
    | none => exact ⟨_, rfl, (show data = [] from h).symm⟩
    | some pool => exact ⟨pool, rfl, h.2⟩
  obtain ⟨grown, hgrow, hgrown⟩ : ∃ grown, (growDataPool asserts ⟨true, true⟩
      (size * appendData.length + terminatorLen) created : Exec σ _) s = .ret (some grown) s ∧
      grown.data = data := by
    unfold growDataPool
    split
    · exact ⟨_, rfl, hdata⟩
    · exact ⟨created, rfl, hdata⟩
  have hrun : (platformDataPoolAppend asserts ⟨true, true⟩ size p appendData terminatorLen :
      Exec σ _) s = .ret (true, some { grown with
        data := grown.data ++ appendData
        cnt := grown.cnt + 1
        len := grown.len + size * appendData.length
        termLen := terminatorLen }) s := by
    unfold platformDataPoolAppend
    rw [if_neg happend]
    exact (bind_of_ret hcreate).trans (bind_of_ret hgrow)
  refine ⟨_, hrun, by simp [happend], ?_⟩
  rw [← hgrown]

end

/-! ## Going through the store -/

section

variable {store done rest : StoredVariables} {v : StoredVariable} (vendorGuidBuf : BitVec 128)

def cursor (done : StoredVariables) : VariableId :=
  match done.getLast? with
  | none => ⟨vendorGuidBuf, []⟩
  | some v => v.id

theorem cursor_snoc : cursor vendorGuidBuf (done ++ [v]) = v.id := by
  unfold cursor
  rw [List.getLast?_concat]

theorem rest_of_cursor (h : ValidStore store) (hstore : store = done ++ rest) :
    (if (cursor vendorGuidBuf done).name = [] then store
      else (store.dropWhile fun v => v.id ≠ cursor vendorGuidBuf done).tail) = rest := by
  rcases List.eq_nil_or_concat done with rfl | ⟨d, w, rfl⟩
  · exact (if_pos rfl).trans hstore
  · rw [List.concat_eq_append] at hstore ⊢
    have hw : w ∈ store := by
      rw [hstore]
      simp
    have hnodup := h.nodup
    rw [hstore] at hnodup
    have hbefore : ∀ u ∈ d, u.id ≠ w.id := by
      intro u hu heq
      rw [List.map_append, List.map_append, List.append_assoc] at hnodup
      refine (List.disjoint_of_nodup_append hnodup) (List.mem_map_of_mem hu) ?_
      rw [heq]
      simp
    rw [cursor_snoc, if_neg (h.named w hw).1, hstore, List.append_assoc,
      List.dropWhile_append_of_pos (fun u hu => by simpa using hbefore u hu)]
    simp

theorem getNextVariableName_cons (h : ValidStore store) (hstore : store = done ++ v :: rest) :
    getNextVariableName store efiPageSize (cursor vendorGuidBuf done) = .ok v.id := by
  have hv : v ∈ store := by
    rw [hstore]
    simp
  unfold getNextVariableName
  rw [rest_of_cursor vendorGuidBuf h hstore]
  exact if_neg (Nat.not_lt.mpr (h.below v hv))

theorem getNextVariableName_end (h : ValidStore store) (hstore : store = done) :
    getNextVariableName store efiPageSize (cursor vendorGuidBuf done) = .error .notFound := by
  unfold getNextVariableName
  rw [rest_of_cursor vendorGuidBuf h (show store = done ++ [] by rw [List.append_nil]; exact hstore)]

end

/-! ## Collecting -/

section

variable (asserts : Bool) {memory : CleanUpMemory} {vendorGuidBuf : BitVec 128}
  {maintainTable : Option (List VariableTableEntry)} {count : Option Nat}
  {store done rest : StoredVariables} {l : CollectLocals}

def toDelete (maintainTable : Option (List VariableTableEntry)) (store : StoredVariables) :
    StoredVariables :=
  store.filter fun v => !isMaintained maintainTable v.id

def nameData (vs : StoredVariables) : List Char16 := vs.flatMap fun v => v.id.name ++ [0]

def guidData (vs : StoredVariables) : List (BitVec 128) := vs.map fun v => v.id.vendorGuid

structure Collected (vendorGuidBuf : BitVec 128) (maintainTable : Option (List VariableTableEntry))
    (count : Option Nat) (done : StoredVariables) (l : CollectLocals) : Prop where
  current : l.current = cursor vendorGuidBuf done
  status : l.status = .success
  maintainCount : l.maintainCount =
    count.map (· + (done.length - (toDelete maintainTable done).length))
  names : PoolHolds (nameData (toDelete maintainTable done)) l.names
  guids : PoolHolds (guidData (toDelete maintainTable done)) l.guids

theorem toDelete_snoc (v : StoredVariable) : toDelete maintainTable (done ++ [v]) =
    toDelete maintainTable done ++ if isMaintained maintainTable v.id then [] else [v] := by
  unfold toDelete
  rw [List.filter_append]
  by_cases hv : isMaintained maintainTable v.id = true
  · simp [hv]
  · simp [hv]

theorem toDelete_length_le (maintainTable : Option (List VariableTableEntry)) (vs : StoredVariables) :
    (toDelete maintainTable vs).length ≤ vs.length :=
  List.length_filter_le _ _

theorem Collected.body (h : Collected vendorGuidBuf maintainTable count done l)
    (hvalid : ValidStore store) (hmem : memory.Served) {v : StoredVariable}
    (hstore : store = done ++ v :: rest) :
    ∃ l', collectBody asserts memory maintainTable l store = .ret (.inl l') store ∧
      Collected vendorGuidBuf maintainTable count (done ++ [v]) l' := by
  have hnext := getNextVariableName_cons vendorGuidBuf hvalid hstore
  rw [← h.current] at hnext
  have hget : (Exec.get : Exec StoredVariables _) store = .ret store store := rfl
  unfold collectBody
  rw [bind_of_ret hget, hnext]
  have hle := toDelete_length_le maintainTable done
  dsimp only
  by_cases hmaintained : isMaintained maintainTable v.id = true
  · rw [if_pos hmaintained]
    refine ⟨_, rfl, (cursor_snoc _).symm, rfl, ?_, ?_, ?_⟩
    · show l.maintainCount.map (· + 1) = _
      rw [h.maintainCount, toDelete_snoc, if_pos hmaintained, List.append_nil, List.length_append,
        List.length_singleton, Option.map_map]
      congr 1
      funext k
      show k + _ + 1 = k + _
      omega
    · rw [toDelete_snoc, if_pos hmaintained, List.append_nil]
      exact h.names
    · rw [toDelete_snoc, if_pos hmaintained, List.append_nil]
      exact h.guids
  · rw [if_neg hmaintained]
    obtain ⟨names, hname, hnames⟩ := platformDataPoolAppend_ret asserts 2 2 (v.id.name ++ [0]) h.names
      (hmem.names l.index) (by simp) store
    obtain ⟨guids, hguid, hguids⟩ := platformDataPoolAppend_ret asserts 16 16 [v.id.vendorGuid] h.guids
      (hmem.guids l.index) (by simp) store
    have hname' : platformMultiStringInsert asserts (memory.names l.index) l.names v.id.name store =
        .ret (true, some names) store := hname
    have hguid' : platformMultiGuidInsert asserts (memory.guids l.index) l.guids v.id.vendorGuid store =
        .ret (true, some guids) store := hguid
    refine ⟨_, (bind_of_ret hname').trans ((bind_of_ret hguid').trans rfl), (cursor_snoc _).symm, rfl, ?_,
      ?_, ?_⟩
    · show l.maintainCount = _
      rw [h.maintainCount, toDelete_snoc, if_neg hmaintained, List.length_append, List.length_append,
        Nat.add_sub_add_right]
    · rw [toDelete_snoc, if_neg hmaintained]
      have happend : nameData (toDelete maintainTable done ++ [v]) =
          nameData (toDelete maintainTable done) ++ (v.id.name ++ [0]) := by
        unfold nameData
        simp
      rw [happend]
      exact hnames
    · rw [toDelete_snoc, if_neg hmaintained]
      have happend : guidData (toDelete maintainTable done ++ [v]) =
          guidData (toDelete maintainTable done) ++ [v.id.vendorGuid] := by
        unfold guidData
        simp
      rw [happend]
      exact hguids

theorem collect_ret (hvalid : ValidStore store) (hmem : memory.Served) :
    ∀ (rest done : StoredVariables) (l : CollectLocals) (n : Nat), rest.length < n →
      store = done ++ rest → Collected vendorGuidBuf maintainTable count done l →
      ∃ l', Exec.loop n (collectBody asserts memory maintainTable) l store = .ret l' store ∧
        Collected vendorGuidBuf maintainTable count store l' := by
  intro rest
  induction rest with
  | nil =>
    rintro done l (_ | n) hn hstore h
    · cases hn
    · rw [List.append_nil] at hstore
      have hnext := getNextVariableName_end vendorGuidBuf hvalid hstore
      rw [← h.current] at hnext
      have hget : (Exec.get : Exec StoredVariables _) store = .ret store store := rfl
      have hbody : collectBody asserts memory maintainTable l store =
          .ret (.inr { l with status := .success }) store := by
        unfold collectBody
        rw [bind_of_ret hget, hnext]
        rfl
      refine ⟨_, loop_of_inr hbody n, ?_⟩
      rw [hstore]
      exact ⟨h.current, rfl, h.maintainCount, h.names, h.guids⟩
  | cons v rest ih =>
    rintro done l (_ | n) hn hstore h
    · cases hn
    · obtain ⟨l', hbody, h'⟩ := h.body asserts hvalid hmem hstore
      obtain ⟨l'', hloop, h''⟩ := ih (done ++ [v]) l' n (Nat.lt_of_succ_lt_succ hn)
        (by rw [hstore]; simp) h'
      exact ⟨l'', (loop_of_inl hbody n).trans hloop, h''⟩

end

/-! ## Deleting -/

section

variable (asserts : Bool) {store : StoredVariables} {v : StoredVariable}

theorem find_of_mem (hnodup : (store.map StoredVariable.id).Nodup) (hv : v ∈ store) :
    store.find? (fun w => decide (w.id = v.id)) = some v := by
  cases hfind : store.find? (fun w => decide (w.id = v.id)) with
  | none =>
    have hnone := List.find?_eq_none.mp hfind v hv
    simp at hnone
  | some w =>
    have hw := List.mem_of_find?_eq_some hfind
    have hid : w.id = v.id := by simpa using List.find?_some hfind
    rw [List.inj_on_of_nodup_map hnodup hw hv hid]

theorem deleteVariable_ret (hnodup : (store.map StoredVariable.id).Nodup) (hv : v ∈ store) :
    deleteVariable v.id store = if v.writeProtected then .ret .writeProtected store
      else .ret .success (store.filter fun w => w.id ≠ v.id) := by
  have hget : (Exec.get : Exec StoredVariables _) store = .ret store store := rfl
  unfold deleteVariable
  rw [bind_of_ret hget, find_of_mem hnodup hv]
  dsimp only
  split
  · rfl
  · rfl

def leftOf (vs store : StoredVariables) : StoredVariables :=
  store.filter fun w => w.writeProtected || !decide (w.id ∈ vs.map StoredVariable.id)

structure Deletable (vs store : StoredVariables) : Prop where
  nodup : (store.map StoredVariable.id).Nodup
  mem : ∀ v ∈ vs, v ∈ store
  distinct : (vs.map StoredVariable.id).Nodup
  named : ∀ v ∈ vs, v.id.name ≠ [] ∧ 0 ∉ v.id.name

def protectedCount (vs : StoredVariables) : Nat := vs.countP StoredVariable.writeProtected

theorem takeWhile_name {name rest : List Char16} (h : (0 : Char16) ∉ name) :
    (name ++ 0 :: rest).takeWhile (fun c => decide (c ≠ 0)) = name := by
  rw [List.takeWhile_append_of_pos]
  · simp
  · intro c hc
    refine decide_eq_true fun hzero => h ?_
    rw [← hzero]
    exact hc

theorem delete_ret (vs : StoredVariables) :
    ∀ (store : StoredVariables) (names : List Char16) (guids : List (BitVec 128)) (l : DeleteLocals)
      (n : Nat), vs.length < n → Deletable vs store →
      names.drop l.position = nameData vs ++ [0] → guids.drop l.guidIndex = guidData vs ++ [0] →
      ∃ d, Exec.loop n (deleteBody asserts names guids) l store = .ret d (leftOf vs store) ∧
        d.deleteCount = l.deleteCount + (vs.length - protectedCount vs) ∧
        d.maintainCount = l.maintainCount.map (· + protectedCount vs) := by
  induction vs with
  | nil =>
    rintro store names guids l (_ | n) hn h hnames hguids
    · cases hn
    · have hfirst : names[l.position]? = some 0 := by
        rw [← List.head?_drop, hnames]
        rfl
      have hbody : deleteBody asserts names guids l store = .ret (.inr l) store := by
        unfold deleteBody
        rw [hfirst]
        rfl
      have hleft : leftOf [] store = store := by
        unfold leftOf
        simp
      refine ⟨l, ?_, rfl, ?_⟩
      · rw [hleft]
        exact loop_of_inr hbody n
      · show _ = l.maintainCount.map id
        rw [Option.map_id_fun]
        rfl
  | cons v vs ih =>
    rintro store names guids l (_ | n) hn h hnames hguids
    · cases hn
    · obtain ⟨hne, hzero⟩ := h.named v List.mem_cons_self
      have hv := h.mem v List.mem_cons_self
      obtain ⟨hnew, hdistinct⟩ := List.nodup_cons.mp h.distinct
      have hsplit : names.drop l.position = v.id.name ++ 0 :: (nameData vs ++ [0]) := by
        rw [hnames]
        unfold nameData
        simp
      obtain ⟨c, name, hname⟩ := List.exists_cons_of_ne_nil hne
      have hfirst : names[l.position]? = some c := by
        rw [← List.head?_drop, hsplit, hname]
        rfl
      have hc : c ≠ 0 := by
        intro hc
        refine hzero ?_
        rw [hname, hc]
        exact List.mem_cons_self
      have htake : (names.drop l.position).takeWhile (fun c => decide (c ≠ 0)) = v.id.name := by
        rw [hsplit]
        exact takeWhile_name hzero
      have hguid : guids[l.guidIndex]? = some v.id.vendorGuid := by
        rw [← List.head?_drop, hguids]
        rfl
      have hsize : getVariableSize store v.id = .bufferTooSmall := if_pos ⟨v, hv, rfl⟩
      have hnames' : names.drop (l.position + (v.id.name.length + 1)) = nameData vs ++ [0] := by
        rw [← List.drop_drop, hsplit, List.drop_append, List.drop_eq_nil_of_le (Nat.le_succ _)]
        simp
      have hguids' : guids.drop (l.guidIndex + 1) = guidData vs ++ [0] := by
        rw [← List.drop_drop, hguids]
        rfl
      have hdelete := deleteVariable_ret h.nodup hv
      have hbody : deleteBody asserts names guids l store = (do
          let status ← deleteVariable v.id
          if status = .writeProtected then
            pure (.inl { l with
              position := l.position + (v.id.name.length + 1)
              guidIndex := l.guidIndex + 1
              maintainCount := l.maintainCount.map (· + 1) })
          else do
            assertEfiError asserts status
            pure (.inl { l with
              position := l.position + (v.id.name.length + 1)
              guidIndex := l.guidIndex + 1
              deleteCount := l.deleteCount + 1 }) : Exec _ (DeleteLocals ⊕ DeleteLocals)) store := by
        have hget : (Exec.get : Exec StoredVariables _) store = .ret store store := rfl
        have hgetFirst : (inBounds names[l.position]? : Exec StoredVariables _) store = .ret c store := by
          rw [hfirst]
          rfl
        have hgetGuid : (inBounds guids[l.guidIndex]? : Exec StoredVariables _) store =
            .ret v.id.vendorGuid store := by
          rw [hguid]
          rfl
        have hwhen : (Exec.when ((getVariableSize store v.id).isError = true ∧
            getVariableSize store v.id ≠ .bufferTooSmall)
            (assertEfiError asserts (getVariableSize store v.id)) : Exec StoredVariables Unit) store =
            .ret () store := by
          unfold Exec.when
          rw [if_neg fun hbad => hbad.2 hsize]
          rfl
        unfold deleteBody
        rw [bind_of_ret hgetFirst, if_neg hc, htake, bind_of_ret hgetGuid, bind_of_ret hget]
        exact bind_of_ret hwhen
      by_cases hprot : v.writeProtected = true
      · -- it stays, and is counted as maintained
        rw [if_pos hprot] at hdelete
        rw [bind_of_ret hdelete, if_pos rfl] at hbody
        obtain ⟨d, hloop, hcount, hmaintain⟩ := ih store names guids { l with
            position := l.position + (v.id.name.length + 1)
            guidIndex := l.guidIndex + 1
            maintainCount := l.maintainCount.map (· + 1) } n (Nat.lt_of_succ_lt_succ hn)
          ⟨h.nodup, fun w hw => h.mem w (List.mem_cons_of_mem v hw), hdistinct,
            fun w hw => h.named w (List.mem_cons_of_mem v hw)⟩ hnames' hguids'
        have hleft : leftOf (v :: vs) store = leftOf vs store := by
          unfold leftOf
          refine List.filter_congr fun w hw => ?_
          by_cases hid : w.id = v.id
          · rw [List.inj_on_of_nodup_map h.nodup hw hv hid, hprot]
            rfl
          · simp [hid]
        have hone : protectedCount (v :: vs) = protectedCount vs + 1 := by
          unfold protectedCount
          rw [List.countP_cons_of_pos hprot]
        refine ⟨d, ?_, ?_, ?_⟩
        · rw [hleft]
          exact (loop_of_inl hbody n).trans hloop
        · rw [hcount, hone, List.length_cons, Nat.add_sub_add_right]
        · rw [hmaintain, hone, Option.map_map]
          congr 1
          funext k
          show k + 1 + _ = k + (_ + 1)
          omega
      · -- it is deleted
        rw [if_neg hprot] at hdelete
        have hassert : (assertEfiError asserts .success : Exec StoredVariables Unit)
            (store.filter fun w => w.id ≠ v.id) = .ret () (store.filter fun w => w.id ≠ v.id) :=
          assert_of (fun _ => rfl) _
        rw [bind_of_ret hdelete, if_neg (by decide), bind_of_ret hassert] at hbody
        have hsub : (store.filter fun w => w.id ≠ v.id).Sublist store := List.filter_sublist
        have hothers : ∀ w ∈ vs, w ∈ store.filter fun w => w.id ≠ v.id := by
          intro w hw
          refine List.mem_filter.mpr ⟨h.mem w (List.mem_cons_of_mem v hw), decide_eq_true fun hid => ?_⟩
          refine hnew ?_
          rw [← hid]
          exact List.mem_map_of_mem hw
        obtain ⟨d, hloop, hcount, hmaintain⟩ := ih (store.filter fun w => w.id ≠ v.id) names guids
          { l with
            position := l.position + (v.id.name.length + 1)
            guidIndex := l.guidIndex + 1
            deleteCount := l.deleteCount + 1 } n (Nat.lt_of_succ_lt_succ hn)
          ⟨h.nodup.sublist (hsub.map _), hothers, hdistinct,
            fun w hw => h.named w (List.mem_cons_of_mem v hw)⟩ hnames' hguids'
        have hleft : leftOf (v :: vs) store = leftOf vs (store.filter fun w => w.id ≠ v.id) := by
          unfold leftOf
          rw [List.filter_filter]
          refine List.filter_congr fun w hw => ?_
          by_cases hid : w.id = v.id
          · have hwv := List.inj_on_of_nodup_map h.nodup hw hv hid
            simp [hwv, hprot]
          · simp [hid]
        have hsame : protectedCount (v :: vs) = protectedCount vs := by
          unfold protectedCount
          rw [List.countP_cons_of_neg hprot]
        have hle : protectedCount vs ≤ vs.length := List.countP_le_length
        refine ⟨d, ?_, ?_, ?_⟩
        · rw [hleft]
          exact (loop_of_inl hbody n).trans hloop
        · rw [hcount, hsame, List.length_cons]
          show l.deleteCount + 1 + _ = _
          omega
        · rw [hmaintain, hsame]

end

/-! ## The clean-up -/

section

variable {store : StoredVariables} {maintainTable : Option (List VariableTableEntry)}

theorem toDelete_deletable (h : ValidStore store) : Deletable (toDelete maintainTable store) store := by
  have hsub : (toDelete maintainTable store).Sublist store := List.filter_sublist
  exact ⟨h.nodup, fun v hv => hsub.subset hv, h.nodup.sublist (hsub.map _),
    fun v hv => h.named v (hsub.subset hv)⟩

theorem mem_toDelete {v : StoredVariable} (hv : v ∈ store) :
    v.id ∈ (toDelete maintainTable store).map StoredVariable.id ↔ ¬ Matched maintainTable v.id := by
  rw [← isMaintained_iff]
  constructor
  · intro hmem
    obtain ⟨w, hw, hid⟩ := List.mem_map.mp hmem
    rw [← hid]
    simpa using (List.mem_filter.mp hw).2
  · intro hnot
    refine List.mem_map_of_mem (List.mem_filter.mpr ⟨hv, ?_⟩)
    simpa using hnot

theorem leftOf_toDelete (v : StoredVariable) : v ∈ leftOf (toDelete maintainTable store) store ↔
    v ∈ store ∧ (v.writeProtected = true ∨ Matched maintainTable v.id) := by
  unfold leftOf
  rw [List.mem_filter]
  refine and_congr_right fun hv => ?_
  rw [Bool.or_eq_true, Bool.not_eq_true', decide_eq_false_iff_not, mem_toDelete hv, not_not]

theorem length_leftOf : (leftOf (toDelete maintainTable store) store).length +
    ((toDelete maintainTable store).length - protectedCount (toDelete maintainTable store)) =
      store.length := by
  have hgone : (toDelete maintainTable store).length - protectedCount (toDelete maintainTable store) =
      store.countP fun v => !(v.writeProtected ||
        !decide (v.id ∈ (toDelete maintainTable store).map StoredVariable.id)) := by
    have hsplit := List.length_eq_countP_add_countP StoredVariable.writeProtected
      (l := toDelete maintainTable store)
    have hneg : (toDelete maintainTable store).countP (fun v => decide ¬ v.writeProtected = true) =
        store.countP fun v => !(v.writeProtected ||
          !decide (v.id ∈ (toDelete maintainTable store).map StoredVariable.id)) := by
      unfold toDelete
      rw [List.countP_filter]
      refine List.countP_congr fun v hv => ?_
      have hmem := @mem_toDelete store maintainTable v hv
      rw [← isMaintained_iff] at hmem
      unfold toDelete at hmem
      simp [hmem]
    unfold protectedCount
    omega
  rw [hgone]
  unfold leftOf
  rw [← List.countP_eq_length_filter]
  have hsum := List.length_eq_countP_add_countP (fun v : StoredVariable => v.writeProtected ||
    !decide (v.id ∈ (toDelete maintainTable store).map StoredVariable.id)) (l := store)
  simp only [Bool.not_eq_true, Bool.decide_eq_false] at hsum
  omega

theorem platformDeleteVariables_ret (asserts : Bool) {memory : CleanUpMemory} (hmem : memory.Served)
    (vendorGuidBuf : BitVec 128) (wantsDeleteCount wantsMaintainCount : Bool) (h : ValidStore store) :
    platformDeleteVariables asserts memory vendorGuidBuf maintainTable wantsDeleteCount
        wantsMaintainCount store =
      .ret ⟨if toDelete maintainTable store = [] then .success
            else if store.length = (leftOf (toDelete maintainTable store) store).length
              then .notFound else .success,
          if wantsDeleteCount then
            some (store.length - (leftOf (toDelete maintainTable store) store).length) else none,
          if wantsMaintainCount then some (leftOf (toDelete maintainTable store) store).length
            else none⟩
        (leftOf (toDelete maintainTable store) store) := by
  have hassert : (assert asserts (memory.nameBuffer = true) : Exec StoredVariables Unit) store =
      .ret () store := assert_of (fun _ => hmem.nameBuffer) store
  have hget : (Exec.get : Exec StoredVariables _) store = .ret store store := rfl
  have hstart : Collected vendorGuidBuf maintainTable (if wantsMaintainCount then some 0 else none) []
      ⟨⟨vendorGuidBuf, []⟩, .success, if wantsMaintainCount then some 0 else none, none, none, 0⟩ := by
    refine ⟨rfl, rfl, ?_, rfl, rfl⟩
    cases wantsMaintainCount <;> rfl
  obtain ⟨l, hloop, hl⟩ := collect_ret asserts h hmem store [] _ (store.length + 1)
    (Nat.lt_succ_self _) rfl hstart
  have hlen := @length_leftOf store maintainTable
  have hle := toDelete_length_le maintainTable store
  have hprot : protectedCount (toDelete maintainTable store) ≤ (toDelete maintainTable store).length :=
    List.countP_le_length
  unfold platformDeleteVariables
  rw [bind_of_ret hassert, hmem.nameBuffer, if_neg (by decide), bind_of_ret hget, bind_of_ret hloop,
    hl.status]
  by_cases hnil : toDelete maintainTable store = []
  · -- there is nothing to delete
    have hnames : l.names = none := by
      have := hl.names
      rw [hnil] at this
      cases hn : l.names with
      | none => rfl
      | some pool =>
        rw [hn] at this
        exact absurd rfl this.1
    have hleft : leftOf (toDelete maintainTable store) store = store := by
      rw [hnil]
      unfold leftOf
      simp
    rw [hnames, hleft, if_pos hnil, hl.maintainCount, hnil]
    cases wantsDeleteCount <;> cases wantsMaintainCount <;> simp [EfiStatus.isError] <;> rfl
  · obtain ⟨v, vs, hvs⟩ := List.exists_cons_of_ne_nil hnil
    obtain ⟨names, hnames, hnameData⟩ : ∃ names, l.names = some names ∧
        names.data = nameData (toDelete maintainTable store) := by
      have := hl.names
      cases hn : l.names with
      | none =>
        rw [hn] at this
        have hempty : nameData (toDelete maintainTable store) = [] := this
        rw [hvs] at hempty
        unfold nameData at hempty
        simp at hempty
      | some pool =>
        rw [hn] at this
        exact ⟨pool, rfl, this.2⟩
    obtain ⟨guids, hguids, hguidData⟩ : ∃ guids, l.guids = some guids ∧
        guids.data = guidData (toDelete maintainTable store) := by
      have := hl.guids
      cases hn : l.guids with
      | none =>
        rw [hn] at this
        have hempty : guidData (toDelete maintainTable store) = [] := this
        rw [hvs] at hempty
        cases hempty
      | some pool =>
        rw [hn] at this
        exact ⟨pool, rfl, this.2⟩
    obtain ⟨d, hdelete, hcount, hmaintain⟩ := delete_ret asserts (toDelete maintainTable store) store
      (names.contents 0) (guids.contents 0) ⟨0, 0, 0, l.maintainCount⟩ (store.length + 1)
      (Nat.lt_succ_of_le hle) (toDelete_deletable h)
      (by unfold DataPool.contents; rw [hnameData]; rfl)
      (by unfold DataPool.contents; rw [hguidData]; rfl)
    rw [hnames, hguids, if_neg hnil]
    dsimp only [EfiStatus.isError]
    rw [bind_of_ret hdelete, hmaintain, hcount, hl.maintainCount]
    have hdeleted : 0 + ((toDelete maintainTable store).length -
        protectedCount (toDelete maintainTable store)) =
        store.length - (leftOf (toDelete maintainTable store) store).length := by omega
    have hzero : store.length - (leftOf (toDelete maintainTable store) store).length = 0 ↔
        store.length = (leftOf (toDelete maintainTable store) store).length := by omega
    have hmaintained : 0 + (store.length - (toDelete maintainTable store).length) +
        protectedCount (toDelete maintainTable store) =
        (leftOf (toDelete maintainTable store) store).length := by omega
    show Outcome.ret (DeleteResult.mk _ _ _) _ = _
    rw [hdeleted]
    simp only [hzero]
    cases wantsMaintainCount with
    | false => rfl
    | true =>
      show Outcome.ret (DeleteResult.mk _ _ (some (0 + (store.length -
        (toDelete maintainTable store).length) + protectedCount (toDelete maintainTable store)))) _ = _
      rw [hmaintained]
      rfl

/-- The clean-up does what it is for exactly when the store has a variable that the table does not
match. -/
theorem platformDeleteVariables_cleanedUp_iff (asserts : Bool) {memory : CleanUpMemory}
    (hmem : memory.Served) (vendorGuidBuf : BitVec 128)
    (maintainTable : Option (List VariableTableEntry)) (wantsDeleteCount wantsMaintainCount : Bool)
    (store : StoredVariables) (h : ValidStore store) :
    wp (platformDeleteVariables asserts memory vendorGuidBuf maintainTable wantsDeleteCount
        wantsMaintainCount) (CleanedUp store maintainTable) (fun _ _ => False) store ↔
      ∃ v ∈ store, ¬ Matched maintainTable v.id := by
  have hrun := @platformDeleteVariables_ret store maintainTable asserts memory hmem vendorGuidBuf
    wantsDeleteCount wantsMaintainCount h
  have hlen := @length_leftOf store maintainTable
  have hnil : toDelete maintainTable store = [] ↔ ∀ v ∈ store, Matched maintainTable v.id := by
    unfold toDelete
    rw [List.filter_eq_nil_iff]
    refine forall₂_congr fun v _ => ?_
    rw [← isMaintained_iff]
    simp
  have hiff : wp (platformDeleteVariables asserts memory vendorGuidBuf maintainTable wantsDeleteCount
      wantsMaintainCount) (CleanedUp store maintainTable) (fun _ _ => False) store ↔
      CleanedUp store maintainTable _ _ := ⟨fun hwp => wp_of_ret hwp hrun, wp_of_eq_ret hrun⟩
  rw [hiff]
  by_cases hempty : toDelete maintainTable store = []
  · have hleft : leftOf (toDelete maintainTable store) store = store := by
      rw [hempty]
      unfold leftOf
      simp
    rw [if_pos hempty, hleft]
    refine ⟨fun hclean => ?_, fun ⟨v, hv, hnot⟩ => absurd (hnil.mp hempty v hv) hnot⟩
    have hstatus := hclean.status.mpr rfl
    cases hstatus
  · have hsome : ∃ v ∈ store, ¬ Matched maintainTable v.id := by
      by_contra hno
      refine hempty (hnil.mpr fun v hv => ?_)
      by_contra hnot
      exact hno ⟨v, hv, hnot⟩
    have hsub : (leftOf (toDelete maintainTable store) store).Sublist store := List.filter_sublist
    refine ⟨fun _ => hsome, fun _ => ⟨leftOf_toDelete, hsub, fun d m hd hm => ?_, ?_⟩⟩
    · have hle := hsub.length_le
      cases wantsDeleteCount with
      | false => cases hd
      | true =>
        cases wantsMaintainCount with
        | false => cases hm
        | true =>
          cases hd
          cases hm
          omega
    · rw [if_neg hempty]
      by_cases hsame : store.length = (leftOf (toDelete maintainTable store) store).length
      · rw [if_pos hsame]
        exact ⟨fun _ => hsub.eq_of_length hsame.symm, fun _ => rfl⟩
      · rw [if_neg hsame]
        refine ⟨fun hstatus => (nomatch hstatus), fun heq => absurd ?_ hsame⟩
        rw [heq]

def enoughMemory : CleanUpMemory := ⟨true, fun _ => ⟨true, true⟩, fun _ => ⟨true, true⟩⟩

theorem enoughMemory_served : enoughMemory.Served := ⟨rfl, fun _ => rfl, fun _ => rfl⟩

def twoVariables : StoredVariables :=
  [⟨⟨gEfiGlobalVariableGuid, wide ['P', 'K']⟩, true⟩, ⟨⟨1, wide ['A']⟩, false⟩]

theorem twoVariables_valid : ValidStore twoVariables :=
  ⟨by decide, by decide, by decide⟩

theorem platformDeleteVariables_cleanedUp_two :
    wp (platformDeleteVariables true enoughMemory 0 (some [⟨gEfiGlobalVariableGuid, none⟩]) true true)
        (CleanedUp twoVariables (some [⟨gEfiGlobalVariableGuid, none⟩])) (fun _ _ => False)
        twoVariables ↔
      ∃ v ∈ twoVariables, ¬ Matched (some [⟨gEfiGlobalVariableGuid, none⟩]) v.id :=
  platformDeleteVariables_cleanedUp_iff true enoughMemory_served 0 _ true true twoVariables
    twoVariables_valid

/-- The store is empty, and the answer is `EFI_SUCCESS` though nothing has been deleted. -/
theorem platformDeleteVariables_not_cleanedUp :
    ∃ memory : CleanUpMemory, memory.Served ∧ ValidStore [] ∧
      ¬ wp (platformDeleteVariables true memory 0 none true true) (CleanedUp [] none)
        (fun _ _ => False) [] := by
  have hvalid : ValidStore [] := ⟨List.nodup_nil, fun _ h => (nomatch h), fun _ h => (nomatch h)⟩
  refine ⟨enoughMemory, enoughMemory_served, hvalid, fun hwp => ?_⟩
  have hclean := wp_of_ret hwp
    (platformDeleteVariables_ret true enoughMemory_served 0 true true hvalid)
  have hstatus := hclean.status.mpr rfl
  cases hstatus

end

end Quark.PlatformHelper
