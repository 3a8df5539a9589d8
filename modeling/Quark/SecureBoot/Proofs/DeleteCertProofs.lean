import Quark.SecureBoot.Proofs.ListWalkProofs

/-!
# Deleting certificates

In a database the certificates that begin with the owner are the signatures of the owner. What the two walks
leave is written back, unless there is nothing left and no authentication to be put in front.
-/

namespace Quark.SecureBoot.Proofs

open Machine

/-! ## Databases as lists of entries -/

theorem size_bytes {list : SignatureList} {signature : Signature} (h : signature ∈ list.signatures) :
    signature.bytes.length = list.entrySize := by
  rw [Signature.bytes, List.length_append, signature.owner.length_bytes, list.same_size signature h]
  rfl

def entryList (list : SignatureList) : EntryList where
  type := list.type
  header := list.header
  entrySize := list.entrySize
  entries := list.signatures.map Signature.bytes
  same_size := fun entry h => by
    obtain ⟨signature, hmem, rfl⟩ := List.mem_map.mp h
    exact size_bytes hmem
  size_pos := Nat.lt_of_lt_of_le (by decide) (Nat.le_add_right 16 list.dataSize)
  size_lt := list.size_lt

theorem size_entryList (list : SignatureList) : (entryList list).size = list.size := by
  show _ + _ + (list.signatures.map Signature.bytes).length * list.entrySize = _
  rw [List.length_map]
  rfl

theorem bytes_entryList (list : SignatureList) : (entryList list).bytes = list.bytes := by
  unfold EntryList.bytes SignatureList.bytes
  rw [size_entryList, List.flatMap_def]
  rfl

theorem length_signatureList (list : SignatureList) : list.bytes.length = list.size := by
  rw [← bytes_entryList, length_bytes, size_entryList]

theorem le_size_signatureList (list : SignatureList) :
    sizeofSignatureList + list.header.length ≤ list.size := Nat.le_add_right _ _

theorem certCount_signatureList (list : SignatureList) (pre post : List Byte) (h : list.size < 0x100000000) :
    certCount (pre ++ (list.bytes ++ post)) pre.length = .ok list.signatures.length := by
  have hcount : certCount (pre ++ ((entryList list).bytes ++ post)) pre.length =
      .ok (entryList list).entries.length :=
    certCount_eq (entryList list) (entryList list).size_pos pre post (by rw [size_entryList]; exact h)
  rw [bytes_entryList] at hcount
  rw [hcount]
  exact congrArg Except.ok (List.length_map _)

theorem listBytes_map (database : List SignatureList) :
    listBytes (database.map entryList) = databaseBytes database := by
  unfold listBytes databaseBytes
  rw [List.flatMap_map]
  exact List.flatMap_congr fun list _ => bytes_entryList list

theorem databaseBytes_cons (list : SignatureList) (database : List SignatureList) :
    databaseBytes (list :: database) = list.bytes ++ databaseBytes database := List.flatMap_cons

theorem length_databaseBytes_cons (list : SignatureList) (database : List SignatureList) :
    (databaseBytes (list :: database)).length = list.size + (databaseBytes database).length := by
  rw [databaseBytes_cons, List.length_append, length_signatureList]

theorem length_le_databaseBytes (database : List SignatureList) :
    database.length ≤ (databaseBytes database).length := by
  have hle := length_le_listBytes (database.map entryList)
  rw [List.length_map, listBytes_map] at hle
  exact hle

/-! ## What is left -/

section

variable (owner : Guid)

theorem keptEntries_map {dataSize : Nat} (signatures : List Signature)
    (hsize : ∀ signature ∈ signatures, signature.data.length = dataSize) (content pre post : List Byte)
    (hcontent : content = pre ++ (signatures.flatMap Signature.bytes ++ post)) :
    keptEntries owner.bytes content (sizeofSignatureOwner + dataSize) pre.length (signatures.map Signature.bytes) =
      (signatures.filter fun s => s.owner ≠ owner).map Signature.bytes := by
  induction signatures generalizing pre with
  | nil => rfl
  | cons signature signatures ih =>
    have hlen : signature.bytes.length = sizeofSignatureOwner + dataSize := by
      rw [Signature.bytes, List.length_append, signature.owner.length_bytes, hsize signature List.mem_cons_self]
      rfl
    have hread : (content.drop pre.length).take 16 = signature.owner.bytes := by
      rw [hcontent, List.drop_left, List.flatMap_cons, Signature.bytes, List.append_assoc, List.append_assoc]
      exact List.take_left' signature.owner.length_bytes
    have hrest := ih (fun s hs => hsize s (List.mem_cons_of_mem _ hs)) (pre ++ signature.bytes)
      (by rw [hcontent, List.flatMap_cons]; simp only [List.append_assoc])
    rw [List.length_append, hlen] at hrest
    rw [List.map_cons, keptEntries, hread]
    by_cases heq : signature.owner = owner
    · rw [if_pos (congrArg Guid.bytes heq), hrest, List.filter_cons_of_neg (by simpa using heq)]
    · rw [if_neg (bytes_ne heq), hrest, List.filter_cons_of_pos (by simpa using heq), List.map_cons]

theorem keptList_entryList (list : SignatureList) (content pre post : List Byte)
    (hcontent : content = pre ++ (list.bytes ++ post)) :
    keptList owner.bytes content pre.length (entryList list) = entryList (list.without owner) := by
  have hkept := keptEntries_map owner list.signatures list.same_size content
    (pre ++ listHead list.type list.size list.header list.entrySize) post
    (by rw [hcontent, SignatureList.bytes]; simp only [List.append_assoc])
  rw [List.length_append, length_listHead, ← Nat.add_assoc] at hkept
  have hentries : (keptList owner.bytes content pre.length (entryList list)).entries =
      (entryList (list.without owner)).entries := hkept
  unfold keptList entryList at hentries ⊢
  congr

theorem size_without_le (list : SignatureList) : (list.without owner).size ≤ list.size :=
  Nat.add_le_add_left (Nat.mul_le_mul_right _ (List.length_filter_le _ _)) _

def firstPass (database : List SignatureList) : List SignatureList :=
  (database.map (SignatureList.without owner)).filter fun list => ¬ list.size ≤ sizeofSignatureList

theorem keptLists_map (database : List SignatureList) (content pre post : List Byte)
    (hcontent : content = pre ++ (databaseBytes database ++ post)) :
    keptLists owner.bytes content pre.length (database.map entryList) =
        (firstPass owner database).map entryList ∧
      (Erases owner.bytes content pre.length (database.map entryList) ↔ HasOwner owner database) := by
  induction database generalizing pre with
  | nil =>
    refine ⟨rfl, iff_of_false (fun h => h) ?_⟩
    rintro ⟨list, hmem, -⟩
    cases hmem
  | cons list database ih =>
    have hkept := keptList_entryList owner list content pre (databaseBytes database ++ post)
      (by rw [hcontent, databaseBytes_cons, List.append_assoc])
    obtain ⟨hrest, herases⟩ := ih (pre ++ list.bytes)
      (by rw [hcontent, databaseBytes_cons]; simp only [List.append_assoc])
    rw [List.length_append, length_signatureList, ← size_entryList] at hrest herases
    constructor
    · unfold firstPass at hrest ⊢
      rw [List.map_cons, List.map_cons, keptLists, hkept, size_entryList, hrest, List.filter_cons]
      by_cases hsmall : (list.without owner).size ≤ sizeofSignatureList
      · rw [if_pos hsmall, if_neg (by simpa using hsmall)]
      · rw [if_neg hsmall, if_pos (by simpa using hsmall), List.map_cons]
    · rw [List.map_cons, Erases, hkept, herases]
      unfold HasOwner
      rw [List.exists_mem_cons_iff]
      refine or_congr_left ?_
      show ((list.signatures.filter fun s => s.owner ≠ owner).map Signature.bytes).length <
        (list.signatures.map Signature.bytes).length ↔ _
      rw [List.length_map, List.length_map]
      refine List.length_filter_lt_length_iff_exists.trans ?_
      simp only [decide_eq_true_eq, not_not]

theorem ownersInside_map (database : List SignatureList) (pos length : Nat)
    (h : pos + (databaseBytes database).length ≤ length) :
    OwnersInside length pos (database.map entryList) := by
  induction database generalizing pos with
  | nil => trivial
  | cons list database ih =>
    rw [length_databaseBytes_cons] at h
    refine ⟨fun hne => ?_, ih (pos + (entryList list).size) (by rw [size_entryList]; omega)⟩
    have hpos : 1 ≤ (entryList list).entries.length := List.length_pos_iff.mpr hne
    have hmul : ((entryList list).entries.length - 1) * (entryList list).entrySize + (entryList list).entrySize =
        (entryList list).entries.length * (entryList list).entrySize := by
      rw [Nat.sub_one_mul]
      exact Nat.sub_add_cancel (Nat.le_mul_of_pos_left _ hpos)
    have hentry : 16 ≤ (entryList list).entrySize := Nat.le_add_right 16 list.dataSize
    have hsize : (entryList list).size = sizeofSignatureList + (entryList list).header.length +
        (entryList list).entries.length * (entryList list).entrySize := rfl
    rw [size_entryList] at hsize
    omega

end

/-! ## Writing the variable -/

section

variable {services : Services} {payload : List Byte} {v : SignatureVariable}

theorem append_parts (a b c d e f : List Byte) :
    a ++ b ++ c ++ d ++ e ++ f = (a ++ b) ++ (c ++ (d ++ (e ++ f))) := by
  simp only [List.append_assoc]

theorem descriptorData_eq (services : Services) : ∃ time : List Byte, time.length = 16 ∧
    descriptorData services = time ++ (leBytes 4 24 ++ (leBytes 2 0x0200 ++ (leBytes 2 0x0EF1 ++
      gEfiCertPkcs7Guid))) := by
  have hparts : descriptorData services = _ := append_parts _ _ _ _ _ _
  refine ⟨_, ?_, hparts⟩
  cases services.time with
  | none => rfl
  | some time => rw [List.length_append, List.length_ofFn, List.length_replicate]

theorem length_descriptorData (services : Services) : (descriptorData services).length = 40 := by
  obtain ⟨time, htime, heq⟩ := descriptorData_eq services
  rw [heq]
  simp only [List.length_append, length_leBytes, htime]
  rfl

theorem authenticationSize_eq (services : Services) (payload : List Byte) :
    authenticationSize (descriptorData services ++ payload) = 40 := by
  obtain ⟨time, htime, heq⟩ := descriptorData_eq services
  unfold authenticationSize
  rw [heq, List.append_assoc, List.drop_left' htime, List.append_assoc, List.take_left' (length_leBytes 4 24),
    leValue_leBytes]
  rfl

theorem createPayload_eq (h : services.allocates .payload = true) (hsize : 40 + payload.length < 0x100000000) :
    setupCreateTimeBasedAuthVarPayload services payload = .ok (.ok (descriptorData services ++ payload)) := by
  have hzero : List.replicate ((40 + payload.length) % 0x100000000) (0 : Byte) =
      List.replicate 40 0 ++ List.replicate payload.length 0 := by
    rw [Nat.mod_eq_of_lt hsize, List.replicate_append_replicate]
  have hdescriptor : put? (List.replicate 40 0 ++ payload) 0 (descriptorData services) =
      some (descriptorData services ++ payload) := by
    have hput := put?_append [] (List.replicate 40 0 ++ payload) (descriptorData services)
      (by rw [length_descriptorData, List.length_append, List.length_replicate]; exact Nat.le_add_right _ _)
    rw [length_descriptorData, List.drop_left' (List.length_replicate)] at hput
    exact hput
  unfold setupCreateTimeBasedAuthVarPayload
  rw [h]
  dsimp only
  rw [hzero]
  refine (if_neg (by decide)).trans ?_
  by_cases hnil : payload = []
  · refine (if_pos hnil).trans ((bind_of_ok (x := pure _) rfl).trans ?_)
    subst hnil
    simp only [List.length_nil, List.replicate_zero, List.append_nil] at hdescriptor ⊢
    exact bind_of_ok (inside_of_some hdescriptor)
  · have hcopy : put? (List.replicate 40 0 ++ List.replicate payload.length 0) 40 payload =
        some (List.replicate 40 (0 : Byte) ++ payload) := by
      have hput := put?_append (List.replicate 40 (0 : Byte)) (List.replicate payload.length 0) payload
        (Nat.le_of_eq List.length_replicate.symm)
      rw [List.length_replicate, List.drop_of_length_le (Nat.le_of_eq List.length_replicate),
        List.append_nil] at hput
      exact hput
    refine (if_neg hnil).trans ((bind_of_ok (inside_of_some hcopy)).trans ?_)
    exact bind_of_ok (inside_of_some hdescriptor)

theorem createPayload_fails (h : services.allocates .payload = false) :
    setupCreateTimeBasedAuthVarPayload services payload = .ok (.error .outOfResources) := if_pos h

theorem setVariable_payload {attributes : BitVec 32} (hauth : attributes &&& timeBasedAccess ≠ 0)
    (hrefusal : services.refusal = .success) (store : Option SignatureVariable) :
    setVariable services attributes (descriptorData services ++ payload) store =
      match store with
      | some old => if attributes &&& appendWrite ≠ 0 then appendTo old payload
        else replaceBy attributes payload (some old)
      | none => replaceBy attributes payload none := by
  have hpayload : (if attributes &&& timeBasedAccess ≠ 0 then
      (descriptorData services ++ payload).drop (authenticationSize (descriptorData services ++ payload))
      else descriptorData services ++ payload) = payload := by
    rw [if_pos hauth, authenticationSize_eq, List.drop_left' (length_descriptorData services)]
  refine (if_neg (not_not_intro hrefusal)).trans ?_
  cases store with
  | none => exact congrArg (fun data => replaceBy attributes data none) hpayload
  | some old =>
    exact congrArg (fun data => if attributes &&& appendWrite ≠ 0 then appendTo old data
      else replaceBy attributes data (some old)) hpayload

theorem setVariable_refused (hrefusal : services.refusal ≠ .success) (attributes : BitVec 32) (data : List Byte)
    (store : Option SignatureVariable) :
    setVariable services attributes data store = (services.refusal, store) := if_pos hrefusal

theorem setVariable_authenticated (hauth : v.attributes &&& timeBasedAccess ≠ 0) :
    setVariable services v.attributes (descriptorData services ++ payload) (some v) =
      if services.refusal ≠ .success then (services.refusal, some v)
      else replaceBy v.attributes payload (some v) := by
  by_cases hrefusal : services.refusal = .success
  · have happend : ¬ v.attributes &&& appendWrite ≠ 0 := fun h => h v.no_append
    rw [if_neg (not_not_intro hrefusal), setVariable_payload hauth hrefusal]
    dsimp only
    rw [if_neg happend]
  · rw [if_pos hrefusal]
    exact setVariable_refused hrefusal _ _ _

theorem contents_replaceBy (attributes : BitVec 32) (hsize : payload.length < 0x100000000) :
    contents (replaceBy attributes payload (some v)).2 = payload := by
  unfold replaceBy
  by_cases hnil : payload = []
  · rw [dif_neg (not_not_intro hnil), hnil]
    rfl
  · rw [dif_pos hnil, dif_pos hsize]
    rfl

theorem bytes?_front (payload tail : List Byte) : bytes? payload.length (payload ++ tail) 0 = some payload := by
  have hread := bytes?_append [] tail (rfl : payload.length = payload.length)
  exact hread

theorem writeBack_authenticated (tail : List Byte) (hsize : 40 + payload.length < 0x100000000)
    (hauth : v.attributes &&& timeBasedAccess ≠ 0) (halloc : services.allocates .payload = true) :
    writeBack services v (payload ++ tail) payload.length =
      .ok (if services.refusal ≠ .success then (services.refusal, some v)
        else replaceBy v.attributes payload (some v)) := by
  rw [← setVariable_authenticated hauth]
  exact (bind_of_ok (inside_of_some (bytes?_front _ tail))).trans
    ((if_pos hauth).trans (bind_of_ok (createPayload_eq halloc hsize)))

theorem writeBack_ret (services : Services) (tail : List Byte) (hsize : 40 + payload.length < 0x100000000)
    (hleft : v.attributes &&& timeBasedAccess = 0 → payload ≠ []) :
    ∃ status store', writeBack services v (payload ++ tail) payload.length = .ok (status, store') ∧
      (status = .success → contents store' = payload) := by
  have hlt : payload.length < 0x100000000 := by omega
  by_cases hauth : v.attributes &&& timeBasedAccess = 0
  · have hset : setVariable services v.attributes payload (some v) =
        if services.refusal ≠ .success then (services.refusal, some v)
        else replaceBy v.attributes payload (some v) := by
      have happend : ¬ v.attributes &&& appendWrite ≠ 0 := fun h => h v.no_append
      unfold setVariable
      rw [if_neg (not_not_intro hauth)]
      dsimp only
      rw [if_neg happend]
    have hpos : payload.length > 0 := List.length_pos_iff.mpr (hleft hauth)
    refine ⟨(setVariable services v.attributes payload (some v)).1,
      (setVariable services v.attributes payload (some v)).2,
      (bind_of_ok (inside_of_some (bytes?_front _ tail))).trans
        ((if_neg (not_not_intro hauth)).trans (if_pos hpos)), ?_⟩
    rw [hset]
    by_cases hrefusal : services.refusal ≠ .success
    · rw [if_pos hrefusal]
      exact fun h => absurd h hrefusal
    · rw [if_neg hrefusal]
      exact fun _ => contents_replaceBy _ hlt
  · cases halloc : services.allocates .payload with
    | false =>
      refine ⟨.outOfResources, some v, ?_, fun h => by cases h⟩
      exact (bind_of_ok (inside_of_some (bytes?_front _ tail))).trans
        ((if_pos hauth).trans (bind_of_ok (createPayload_fails halloc)))
    | true =>
      have hwrite := writeBack_authenticated tail hsize hauth halloc
      by_cases hrefusal : services.refusal ≠ .success
      · rw [if_pos hrefusal] at hwrite
        exact ⟨_, _, hwrite, fun h => absurd h hrefusal⟩
      · rw [if_neg hrefusal] at hwrite
        exact ⟨_, _, hwrite, fun _ => contents_replaceBy _ hlt⟩

theorem writeBack_nothing (oldData : List Byte) (hplain : v.attributes &&& timeBasedAccess = 0) :
    writeBack services v oldData 0 = .ok (.success, some v) :=
  (bind_of_ok (inside_of_some (bytes?_front [] oldData))).trans
    ((if_neg (not_not_intro hplain)).trans (if_neg (Nat.lt_irrefl 0)))

end

/-! ## The whole deletion -/

section

variable {services : Services} {owner : Guid} {database : List SignatureList} {v : SignatureVariable}

theorem filter_firstPass (owner : Guid) (database : List SignatureList) :
    (firstPass owner database).filter (fun list => list.signatures ≠ []) = databaseWithout owner database := by
  unfold firstPass databaseWithout
  rw [List.filter_filter]
  refine List.filter_congr fun list _ => ?_
  rw [← Bool.decide_and, decide_eq_decide]
  refine and_iff_left_of_imp fun hsome hsmall => ?_
  have hone : 1 * list.entrySize ≤ list.signatures.length * list.entrySize :=
    Nat.mul_le_mul_right _ (List.length_pos_iff.mpr hsome)
  have hpos : 16 ≤ list.entrySize := Nat.le_add_right 16 list.dataSize
  unfold SignatureList.size at hsmall
  omega

theorem setupDeleteCert_eq (services : Services) (hdata : v.data = databaseBytes database)
    (hold : services.allocates .oldData = true) (hnew : services.allocates .data = true) :
    (¬ HasOwner owner database ∧ setupDeleteCert services (some owner) (some v) = .ok (.notFound, some v)) ∨
      (HasOwner owner database ∧ ∃ tail, setupDeleteCert services (some owner) (some v) =
        writeBack services v (databaseBytes (databaseWithout owner database) ++ tail)
          (databaseBytes (databaseWithout owner database)).length) := by
  have hlists : v.data = listBytes (database.map entryList) ++ [] := by
    rw [listBytes_map, List.append_nil, hdata]
  have hlength : v.data.length = (databaseBytes database).length := congrArg List.length hdata
  have hinside := ownersInside_map database 0 v.data.length (by omega)
  obtain ⟨hkept, herases⟩ := keptLists_map owner database v.data [] []
    (by rw [List.nil_append, List.append_nil, hdata])
  rw [List.length_nil] at hkept herases
  have hfilter : ((firstPass owner database).map entryList).filter (fun list => list.entries ≠ []) =
      (databaseWithout owner database).map entryList := by
    rw [← filter_firstPass, List.filter_map]
    refine congrArg _ (List.filter_congr fun list _ => ?_)
    show decide (list.signatures.map Signature.bytes ≠ []) = _
    rw [decide_eq_decide]
    exact not_congr List.map_eq_nil_iff
  have hruns := deleteWalks_eq services owner v (database.map entryList) [] hlists (.inl rfl) hinside hold hnew
  rw [herases, hkept, hfilter, listBytes_map] at hruns
  exact hruns

theorem databaseBytes_eq_nil : databaseBytes database = [] ↔ database = [] := by
  constructor
  · intro h
    have hfewer := length_le_databaseBytes database
    rw [h] at hfewer
    exact List.eq_nil_of_length_eq_zero (Nat.le_zero.mp hfewer)
  · intro h
    rw [h]
    rfl

theorem length_databaseWithout_le (owner : Guid) (database : List SignatureList) :
    (databaseBytes (databaseWithout owner database)).length ≤ (databaseBytes database).length := by
  induction database with
  | nil => exact Nat.le_refl _
  | cons list database ih =>
    have hsize := size_without_le owner list
    unfold databaseWithout at ih ⊢
    rw [List.map_cons, List.filter_cons]
    split
    · rw [length_databaseBytes_cons, length_databaseBytes_cons]
      omega
    · rw [length_databaseBytes_cons]
      omega

theorem last_not_exact (hdata : v.data = databaseBytes database) (hold : services.allocates .oldData = true) (hnew : services.allocates .data = true)
    (hhas : HasOwner owner database) (hplain : v.attributes &&& timeBasedAccess = 0)
    (hnil : databaseWithout owner database = []) : ¬ DeleteExact services owner database (some v) := by
  rintro ⟨status, store', hrun, -, hexact⟩
  rcases setupDeleteCert_eq services hdata hold hnew with ⟨hno, -⟩ | ⟨-, tail, hwrite⟩
  · exact hno hhas
  · rw [hwrite, hnil] at hrun
    cases hrun.symm.trans (writeBack_nothing tail hplain)
    have hleft := hexact hhas rfl
    rw [hnil] at hleft
    exact v.data_ne hleft

end

/-- The deletion is exact if and only if there is memory to find that there is nothing to be deleted, and a
variable without authentication does not lose its last signature. -/
theorem deleteExact_iff (services : Services) (owner : Guid) (database : List SignatureList)
    (store : Option SignatureVariable) (hholds : Holds store database) :
    DeleteExact services owner database store ↔ DeleteClean services owner database store := by
  obtain ⟨hcontents, hsize⟩ := hholds
  cases store with
  | none =>
    obtain rfl : database = [] := databaseBytes_eq_nil.mp hcontents.symm
    have hnone : ¬ HasOwner owner [] := by
      rintro ⟨list, hmem, -⟩
      cases hmem
    refine iff_of_true ⟨.notFound, none, rfl, fun _ => ⟨rfl, rfl⟩, fun h => absurd h hnone⟩ ?_
    intro v hv
    cases hv
  | some v =>
    have hdata : v.data = databaseBytes database := hcontents
    -- without memory the deletion fails
    have hfails : setupDeleteCert services (some owner) (some v) = .ok (.outOfResources, some v) →
        (DeleteExact services owner database (some v) ↔ HasOwner owner database) := by
      intro hrun
      constructor
      · rintro ⟨status, store', hrun', hnot, -⟩
        rw [hrun] at hrun'
        cases hrun'
        by_contra hno
        obtain ⟨hstatus, -⟩ := hnot hno
        cases hstatus
      · exact fun hhas => ⟨_, _, hrun, fun hno => absurd hhas hno, fun _ h => by cases h⟩
    cases hold : services.allocates .oldData with
    | false =>
      rw [hfails (if_pos hold)]
      constructor
      · rintro hhas w -
        refine ⟨fun hno => absurd hhas hno, fun _ h => ?_⟩
        rw [hold] at h
        cases h
      · intro hclean
        by_contra hno
        obtain ⟨h, -⟩ := (hclean v rfl).1 hno
        rw [hold] at h
        cases h
    | true =>
      cases hnew : services.allocates .data with
      | false =>
        have hrun : setupDeleteCert services (some owner) (some v) = .ok (.outOfResources, some v) := by
          unfold setupDeleteCert
          rw [hold, hnew]
          rfl
        rw [hfails hrun]
        constructor
        · rintro hhas w -
          refine ⟨fun hno => absurd hhas hno, fun _ _ h => ?_⟩
          rw [hnew] at h
          cases h
        · intro hclean
          by_contra hno
          obtain ⟨-, h⟩ := (hclean v rfl).1 hno
          rw [hnew] at h
          cases h
      | true =>
        have hshorter := length_databaseWithout_le owner database
        rcases setupDeleteCert_eq services hdata hold hnew with
          ⟨hno, hrun⟩ | ⟨hhas, tail, hrun⟩
        · refine iff_of_true ⟨_, _, hrun, fun _ => ⟨rfl, rfl⟩, fun hhas => absurd hhas hno⟩ ?_
          exact fun w _ => ⟨fun _ => ⟨hold, hnew⟩, fun hhas => absurd hhas hno⟩
        · by_cases hlast : v.attributes &&& timeBasedAccess = 0 ∧ databaseWithout owner database = []
          · obtain ⟨hplain, hnil⟩ := hlast
            refine iff_of_false (last_not_exact hdata hold hnew hhas hplain hnil) ?_
            exact fun hclean => (hclean v rfl).2 hhas hold hnew hplain hnil
          · have hleft : v.attributes &&& timeBasedAccess = 0 →
                databaseBytes (databaseWithout owner database) ≠ [] := fun hplain hnil =>
              hlast ⟨hplain, databaseBytes_eq_nil.mp hnil⟩
            obtain ⟨status, store', hwrite, hexact⟩ :=
              writeBack_ret services tail (Nat.lt_of_le_of_lt (Nat.add_le_add_left hshorter 40) hsize)
                hleft
            refine iff_of_true ⟨status, store', hrun.trans hwrite, fun hno => absurd hhas hno,
              fun _ => hexact⟩ ?_
            rintro w hw
            cases hw
            exact ⟨fun hno => absurd hhas hno, fun _ _ _ hplain hnil => hlast ⟨hplain, hnil⟩⟩

def guidOf (b : Byte) : Guid := ⟨List.replicate 16 b, List.length_replicate⟩

def loneList : SignatureList where
  type := guidOf 1
  header := []
  dataSize := 0
  signatures := [⟨guidOf 2, []⟩]
  same_size := by
    intro signature h
    rw [List.mem_singleton.mp h]
    rfl
  size_lt := by decide

def loneVariable (attributes : BitVec 32) (no_append : attributes &&& appendWrite = 0) : SignatureVariable where
  attributes
  data := databaseBytes [loneList]
  no_append
  data_ne := fun h => by cases databaseBytes_eq_nil.mp h
  size_lt := by decide

def willing : Services := ⟨fun _ => true, none, .success⟩

theorem lone_deleted : DeleteExact willing (guidOf 2) [loneList] (some (loneVariable 0x27 (by decide))) := by
  refine (deleteExact_iff willing (guidOf 2) [loneList] _ ⟨rfl, by decide⟩).mpr ?_
  intro v hv
  injection hv with hv
  subst hv
  exact ⟨fun _ => ⟨rfl, rfl⟩, fun _ _ _ hplain => absurd hplain (by decide)⟩

theorem lone_not_deleted :
    ¬ DeleteExact willing (guidOf 2) [loneList] (some (loneVariable 0x7 (by decide))) := by
  have hhas : HasOwner (guidOf 2) [loneList] :=
    ⟨loneList, List.mem_singleton_self _, ⟨guidOf 2, []⟩, List.mem_singleton_self _, rfl⟩
  refine last_not_exact rfl rfl rfl hhas ?_ ?_
  · show (0x7 : BitVec 32) &&& timeBasedAccess = 0
    decide
  · rfl

end Quark.SecureBoot.Proofs
