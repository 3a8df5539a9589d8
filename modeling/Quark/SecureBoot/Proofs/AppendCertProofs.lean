import Quark.SecureBoot.Proofs.DeleteCertProofs

/-!
# Appending, finding and deleting a certificate

The appended signature is in a list of its own behind the database. No list in front of it has the owner, so
it is the one that is found, and the only one that is deleted.
-/

namespace Quark.SecureBoot.Proofs

open Machine

/-! ## The new list -/

section

variable {certType owner : Guid} {sigData : List Byte}

theorem newList_bytes (hlt : sizeofSignatureOwner + sigData.length < 0x100000000) :
    (newList certType owner sigData hlt).bytes =
      listHead certType (sizeofSignatureList + (sizeofSignatureOwner + sigData.length)) []
        (sizeofSignatureOwner + sigData.length) ++ (owner.bytes ++ sigData) := by
  have hsize : (newList certType owner sigData hlt).size =
      sizeofSignatureList + (sizeofSignatureOwner + sigData.length) := by
    unfold SignatureList.size
    show sizeofSignatureList + 0 + 1 * (sizeofSignatureOwner + sigData.length) = _
    rw [Nat.add_zero, Nat.one_mul]
  unfold SignatureList.bytes
  rw [hsize]
  show _ ++ (Signature.bytes ⟨owner, sigData⟩ ++ []) = _
  rw [List.append_nil]
  rfl

theorem newList_size (certType owner : Guid) {sigData : List Byte}
    (hlt : sizeofSignatureOwner + sigData.length < 0x100000000) :
    (newList certType owner sigData hlt).size =
      sizeofSignatureList + (sizeofSignatureOwner + sigData.length) := by
  rw [← length_signatureList, newList_bytes hlt, List.length_append, length_listHead, List.length_append,
    owner.length_bytes]
  rfl

theorem put?_zeros (pre bytes : List Byte) (n off : Nat) (hoff : pre.length = off) (h : bytes.length ≤ n) :
    put? (pre ++ List.replicate n 0) off bytes =
      some (pre ++ bytes ++ List.replicate (n - bytes.length) 0) := by
  rw [← hoff, put?_append _ _ _ (by rw [List.length_replicate]; exact h), List.drop_replicate, List.append_assoc]

theorem setupAppendCert_eq (services : Services) (store : Option SignatureVariable)
    (hdata : services.allocates .setData = true)
    (hlt : sizeofSignatureList + (sizeofSignatureOwner + sigData.length) < 0x100000000)
    (hlt' : sizeofSignatureOwner + sigData.length < 0x100000000) :
    setupAppendCert services (some certType) (some owner) sigData store =
      setupSetTimeBasedAuthVariable services (0x7 ||| timeBasedAccess)
        (newList certType owner sigData hlt').bytes true store := by
  have hmod : (sizeofSignatureList + sizeofSignatureOwner + sigData.length) % 0x100000000 =
      sizeofSignatureList + (sizeofSignatureOwner + sigData.length) := by
    rw [Nat.add_assoc]
    exact Nat.mod_eq_of_lt hlt
  have hzeros : List.replicate (sizeofSignatureList + (sizeofSignatureOwner + sigData.length)) (0 : Byte) =
      List.replicate 16 0 ++ List.replicate (28 + sigData.length) 0 := by
    rw [List.replicate_append_replicate]
    unfold sizeofSignatureList sizeofSignatureOwner
    congr 1
    omega
  have hlist := put?_zeros (List.replicate 16 (0 : Byte))
    (leBytes 4 (sizeofSignatureList + (sizeofSignatureOwner + sigData.length))) (28 + sigData.length) 16
    rfl (by rw [length_leBytes]; omega)
  have hheader := put?_zeros (List.replicate 16 (0 : Byte) ++
      leBytes 4 (sizeofSignatureList + (sizeofSignatureOwner + sigData.length)))
    (leBytes 4 0) (28 + sigData.length - 4) 20 rfl (by rw [length_leBytes]; omega)
  have hentry := put?_zeros (List.replicate 16 (0 : Byte) ++
      leBytes 4 (sizeofSignatureList + (sizeofSignatureOwner + sigData.length)) ++ leBytes 4 0)
    (leBytes 4 (sizeofSignatureOwner + sigData.length)) (28 + sigData.length - 4 - 4) 24 rfl
    (by rw [length_leBytes]; omega)
  have htype : put? (List.replicate 16 (0 : Byte) ++
      leBytes 4 (sizeofSignatureList + (sizeofSignatureOwner + sigData.length)) ++ leBytes 4 0 ++
        leBytes 4 (sizeofSignatureOwner + sigData.length) ++
          List.replicate (28 + sigData.length - 4 - 4 - 4) 0) 0 certType.bytes =
      some (certType.bytes ++ leBytes 4 (sizeofSignatureList + (sizeofSignatureOwner + sigData.length)) ++
        leBytes 4 0 ++ leBytes 4 (sizeofSignatureOwner + sigData.length) ++
          List.replicate (28 + sigData.length - 4 - 4 - 4) 0) := by
    have hput := put?_append [] (List.replicate 16 (0 : Byte) ++
        (leBytes 4 (sizeofSignatureList + (sizeofSignatureOwner + sigData.length)) ++ (leBytes 4 0 ++
          (leBytes 4 (sizeofSignatureOwner + sigData.length) ++
            List.replicate (28 + sigData.length - 4 - 4 - 4) 0)))) certType.bytes
      (by rw [certType.length_bytes, List.length_append, List.length_replicate]; exact Nat.le_add_right _ _)
    rw [certType.length_bytes, List.drop_left' List.length_replicate] at hput
    simp only [List.append_assoc]
    exact hput
  have howner := put?_zeros (certType.bytes ++
      leBytes 4 (sizeofSignatureList + (sizeofSignatureOwner + sigData.length)) ++ leBytes 4 0 ++
        leBytes 4 (sizeofSignatureOwner + sigData.length))
    owner.bytes (28 + sigData.length - 4 - 4 - 4) sizeofSignatureList
    (by simp only [List.length_append, length_leBytes, certType.length_bytes]; rfl)
    (by rw [owner.length_bytes]; omega)
  have hdataPut := put?_zeros (certType.bytes ++
      leBytes 4 (sizeofSignatureList + (sizeofSignatureOwner + sigData.length)) ++ leBytes 4 0 ++
        leBytes 4 (sizeofSignatureOwner + sigData.length) ++ owner.bytes)
    sigData (28 + sigData.length - 4 - 4 - 4 - 16) (sizeofSignatureList + sizeofSignatureOwner)
    (by simp only [List.length_append, length_leBytes, certType.length_bytes, owner.length_bytes]; rfl)
    (by omega)
  rw [length_leBytes] at hlist hheader hentry
  rw [owner.length_bytes] at howner
  have hbytes : certType.bytes ++ leBytes 4 (sizeofSignatureList + (sizeofSignatureOwner + sigData.length)) ++
      leBytes 4 0 ++ leBytes 4 (sizeofSignatureOwner + sigData.length) ++ owner.bytes ++ sigData =
        (newList certType owner sigData hlt').bytes := by
    rw [newList_bytes hlt']
    unfold listHead
    simp only [List.append_assoc, List.nil_append]
    rfl
  have hrest : 28 + sigData.length - 4 - 4 - 4 - 16 = sigData.length := by omega
  unfold setupAppendCert
  dsimp only
  rw [hdata, hmod, hzeros]
  refine (if_neg (by decide)).trans ?_
  refine (bind_of_ok (inside_of_some hlist)).trans ((bind_of_ok (inside_of_some hheader)).trans ?_)
  refine (bind_of_ok (inside_of_some hentry)).trans ((bind_of_ok (inside_of_some htype)).trans ?_)
  refine (bind_of_ok (inside_of_some howner)).trans ?_
  rw [hrest]
  rw [hrest] at hdataPut
  by_cases hpos : sigData.length > 0
  · rw [Nat.sub_self, List.replicate_zero, List.append_nil, hbytes] at hdataPut
    exact (if_pos hpos).trans (bind_of_ok (inside_of_some hdataPut))
  · obtain rfl : sigData = [] := List.eq_nil_of_length_eq_zero (Nat.le_zero.mp (Nat.not_lt.mp hpos))
    rw [← hbytes, List.length_nil, List.replicate_zero]
    exact (if_neg hpos).trans (bind_of_ok (x := pure _) rfl)

structure IsAppended (store : Option SignatureVariable) (bytes : List Byte) (w : SignatureVariable) : Prop where
  data : w.data = contents store ++ bytes
  authenticated : w.attributes &&& timeBasedAccess ≠ 0
  attributes : ∀ v, store = some v → w.attributes = v.attributes

theorem setupSetTimeBasedAuthVariable_ret (services : Services) (store : Option SignatureVariable)
    {bytes : List Byte} (hne : bytes ≠ []) (hsize : 40 + ((contents store).length + bytes.length) < 0x100000000)
    (hauth : ∀ v, store = some v → v.attributes &&& timeBasedAccess ≠ 0) :
    ∃ status appended, setupSetTimeBasedAuthVariable services (0x7 ||| timeBasedAccess) bytes true store =
        .ok (status, appended) ∧ (services.Willing → status = .success) ∧
      (status = .success → services.allocates .payload = true ∧ services.refusal = .success ∧
        ∃ w, appended = some w ∧ IsAppended store bytes w) := by
  unfold setupSetTimeBasedAuthVariable
  cases halloc : services.allocates .payload with
  | false =>
    refine ⟨.outOfResources, store, bind_of_ok (createPayload_fails halloc), fun hwilling => ?_,
      fun h => by cases h⟩
    rw [hwilling.1 .payload] at halloc
    cases halloc
  | true =>
    rw [bind_of_ok (createPayload_eq halloc (by omega))]
    by_cases hrefusal : services.refusal = .success
    · cases store with
      | none =>
        -- the variable is made
        have hset : setVariable services (0x7 ||| timeBasedAccess) (descriptorData services ++ bytes) none =
            replaceBy (0x7 ||| timeBasedAccess) bytes none := setVariable_payload (by decide) hrefusal none
        have hlt : bytes.length < 0x100000000 := by omega
        unfold replaceBy at hset
        rw [dif_pos hne, dif_pos hlt] at hset
        refine ⟨_, _, congrArg Except.ok hset, fun _ => rfl, fun _ => ⟨rfl, hrefusal, _, rfl, rfl, ?_, ?_⟩⟩
        · show (0x7 ||| timeBasedAccess) &&& ~~~appendWrite &&& timeBasedAccess ≠ 0
          decide
        · intro v hv
          cases hv
      | some v =>
        -- the list is appended
        have hset : setVariable services (0x7 ||| timeBasedAccess ||| appendWrite)
            (descriptorData services ++ bytes) (some v) = appendTo v bytes := by
          rw [setVariable_payload (by decide) hrefusal]
          exact if_pos (by decide)
        have hlt : (v.data ++ bytes).length < 0x100000000 := by
          have hcontents : contents (some v) = v.data := rfl
          rw [hcontents] at hsize
          rw [List.length_append]
          omega
        unfold appendTo at hset
        rw [dif_pos hlt] at hset
        refine ⟨_, _, congrArg Except.ok hset, fun _ => rfl, fun _ => ⟨rfl, hrefusal, _, rfl, rfl, ?_, ?_⟩⟩
        · exact hauth v rfl
        · intro v' hv
          injection hv with hv
          have hattributes : v.attributes = v'.attributes := congrArg SignatureVariable.attributes hv
          exact hattributes
    · refine ⟨services.refusal, store, ?_, fun hwilling => absurd hwilling.2 hrefusal,
        fun h => absurd h hrefusal⟩
      exact congrArg Except.ok (setVariable_refused hrefusal _ _ _)

/-! ## Finding the owner -/

theorem findOwner_none {dataSize : Nat} (signatures : List Signature)
    (hsize : ∀ signature ∈ signatures, signature.data.length = dataSize)
    (hother : ∀ signature ∈ signatures, signature.owner ≠ owner) (pre post : List Byte) :
    findOwner owner.bytes (pre ++ (signatures.flatMap Signature.bytes ++ post))
      (sizeofSignatureOwner + dataSize) signatures.length pre.length = .ok none := by
  induction signatures generalizing pre with
  | nil => rfl
  | cons signature signatures ih =>
    have hread : bytes? 16 (pre ++ ((signature :: signatures).flatMap Signature.bytes ++ post)) pre.length =
        some signature.owner.bytes := by
      rw [List.flatMap_cons, Signature.bytes, List.append_assoc, List.append_assoc]
      exact bytes?_append _ _ signature.owner.length_bytes
    have hlen : signature.bytes.length = sizeofSignatureOwner + dataSize := by
      rw [Signature.bytes, List.length_append, signature.owner.length_bytes, hsize signature List.mem_cons_self]
      rfl
    have hpre : pre ++ ((signature :: signatures).flatMap Signature.bytes ++ post) =
        (pre ++ signature.bytes) ++ (signatures.flatMap Signature.bytes ++ post) := by
      rw [List.flatMap_cons]
      simp only [List.append_assoc]
    have hnext : pre.length + (sizeofSignatureOwner + dataSize) = (pre ++ signature.bytes).length := by
      rw [List.length_append, hlen]
    have hne : signature.owner.bytes ≠ owner.bytes := bytes_ne (hother signature List.mem_cons_self)
    refine (bind_of_ok (inside_of_some hread)).trans ((if_neg hne).trans ?_)
    rw [hpre, hnext]
    exact ih (fun s hs => hsize s (List.mem_cons_of_mem _ hs)) (fun s hs => hother s (List.mem_cons_of_mem _ hs)) _

theorem certMatch_eq (list : SignatureList) (pre post : List Byte) (hlt : list.size < 0x100000000)
    (found : Option Nat)
    (hfind : findOwner owner.bytes (pre ++ (list.bytes ++ post)) list.entrySize list.signatures.length
      (pre.length + sizeofSignatureList + list.header.length) = .ok found) :
    certMatch (pre ++ (list.bytes ++ post)) pre.length (some (ownerFilter owner)) =
      .ok (match found with
        | some cert => (list.signatures.length, some cert)
        | none => (0, none)) := by
  have hle := le_size_signatureList list
  have hparts : list.bytes ++ post = listHead list.type list.size list.header list.entrySize ++
      (list.signatures.flatMap Signature.bytes ++ post) := List.append_assoc ..
  have hheader : signatureHeaderSize (pre ++ (list.bytes ++ post)) pre.length = .ok list.header.length := by
    rw [hparts]
    exact signatureHeaderSize_eq (by omega)
  have hentry : signatureSize (pre ++ (list.bytes ++ post)) pre.length = .ok list.entrySize := by
    rw [hparts]
    exact signatureSize_eq list.size_lt
  refine (bind_of_ok hheader).trans ((bind_of_ok (certCount_signatureList list pre post hlt)).trans ?_)
  have htype : typeMatches (pre ++ (list.bytes ++ post)) pre.length (ownerFilter owner) = .ok true := rfl
  refine (bind_of_ok htype).trans ((bind_of_ok hentry).trans ?_)
  refine (if_neg (by decide)).trans ((if_neg (fun h => h.1 rfl)).trans ((bind_of_ok hfind).trans ?_))
  cases found with
  | none => rfl
  | some cert => rfl

theorem certMatch_other (list : SignatureList) (hother : ∀ signature ∈ list.signatures, signature.owner ≠ owner)
    (pre post : List Byte) (hlt : list.size < 0x100000000) :
    certMatch (pre ++ (list.bytes ++ post)) pre.length (some (ownerFilter owner)) = .ok (0, none) := by
  refine certMatch_eq list pre post hlt none ?_
  have hfind := findOwner_none list.signatures list.same_size hother
    (pre ++ listHead list.type list.size list.header list.entrySize) post
  rw [List.length_append, length_listHead, ← Nat.add_assoc] at hfind
  rw [SignatureList.bytes, List.append_assoc, ← List.append_assoc pre]
  exact hfind

theorem certMatch_new (certType owner : Guid) {sigData : List Byte}
    (hlt' : sizeofSignatureOwner + sigData.length < 0x100000000)
    (hlt : sizeofSignatureList + (sizeofSignatureOwner + sigData.length) < 0x100000000) (pre : List Byte) :
    certMatch (pre ++ ((newList certType owner sigData hlt').bytes ++ [])) pre.length (some (ownerFilter owner)) =
      .ok (1, some (pre.length + sizeofSignatureList)) := by
  refine certMatch_eq (newList certType owner sigData hlt') pre [] (by rw [newList_size]; exact hlt)
    (some (pre.length + sizeofSignatureList)) ?_
  have hread : bytes? 16 (pre ++ ((newList certType owner sigData hlt').bytes ++ []))
      (pre.length + sizeofSignatureList) = some owner.bytes := by
    have hread := bytes?_append (pre ++ listHead certType (sizeofSignatureList +
      (sizeofSignatureOwner + sigData.length)) [] (sizeofSignatureOwner + sigData.length)) sigData
      owner.length_bytes
    rw [List.length_append, length_listHead, List.append_assoc] at hread
    rw [List.append_nil, newList_bytes hlt']
    exact hread
  exact (bind_of_ok (inside_of_some hread)).trans (if_pos rfl)

theorem absent_cons {list : SignatureList} {database : List SignatureList}
    (h : ¬ HasOwner owner (list :: database)) :
    (∀ signature ∈ list.signatures, signature.owner ≠ owner) ∧ ¬ HasOwner owner database := by
  constructor
  · exact fun signature hmem howner => h ⟨list, List.mem_cons_self, signature, hmem, howner⟩
  · rintro ⟨list', hmem, hsome⟩
    exact h ⟨list', List.mem_cons_of_mem _ hmem, hsome⟩

theorem findNextFrom_new (certType : Guid) {owner : Guid} {sigData : List Byte}
    (hlt' : sizeofSignatureOwner + sigData.length < 0x100000000)
    (database : List SignatureList) (habsent : ¬ HasOwner owner database) (list : SignatureList) (n : Nat)
    (hn : database.length < n) (pre : List Byte)
    (hlt : (pre ++ (list.bytes ++ (databaseBytes database ++
      (newList certType owner sigData hlt').bytes))).length < 0x100000000) :
    findNextFrom (pre ++ (list.bytes ++ (databaseBytes database ++ (newList certType owner sigData hlt').bytes)))
        (some (ownerFilter owner)) n pre.length =
      .ok (some ((pre ++ (list.bytes ++ databaseBytes database)).length,
        some ((pre ++ (list.bytes ++ databaseBytes database)).length + sizeofSignatureList))) := by
  induction database generalizing list n pre with
  | nil =>
    obtain ⟨n, rfl⟩ : ∃ m, n = m + 1 := ⟨n - 1, by omega⟩
    have hnew := newList_size certType owner hlt'
    simp only [List.length_append, length_signatureList, hnew] at hlt
    have hsize : signatureListSize (pre ++ (list.bytes ++ (databaseBytes [] ++
        (newList certType owner sigData hlt').bytes))) pre.length = .ok list.size := by
      rw [SignatureList.bytes, List.append_assoc]
      exact signatureListSize_eq (by omega)
    have hend : (pre ++ list.bytes).length = pre.length + list.size := by
      rw [List.length_append, length_signatureList]
    have hmatch := certMatch_new certType owner hlt' (by omega) (pre ++ list.bytes)
    rw [List.append_nil, List.append_assoc, hend] at hmatch
    have hinside : ¬ pre.length + list.size ≥ (pre ++ (list.bytes ++ (databaseBytes [] ++
        (newList certType owner sigData hlt').bytes))).length := by
      have hheader : 0 < sizeofSignatureList := by decide
      simp only [List.length_append, length_signatureList, hnew]
      omega
    refine (bind_of_ok hsize).trans ((if_neg hinside).trans ((bind_of_ok hmatch).trans ?_))
    show Except.ok (some (pre.length + list.size, some (pre.length + list.size + sizeofSignatureList))) =
      Except.ok (some ((pre ++ (list.bytes ++ [])).length, some ((pre ++ (list.bytes ++ [])).length + _)))
    rw [List.append_nil, hend]
  | cons next database ih =>
    obtain ⟨n, rfl⟩ : ∃ m, n = m + 1 := ⟨n - 1, by omega⟩
    obtain ⟨hother, hrest⟩ := absent_cons habsent
    have hnext := le_size_signatureList next
    have hsizes := hlt
    rw [databaseBytes_cons] at hsizes
    simp only [List.length_append, length_signatureList] at hsizes
    have hparts : pre ++ (list.bytes ++ (databaseBytes (next :: database) ++
        (newList certType owner sigData hlt').bytes)) =
          (pre ++ list.bytes) ++ (next.bytes ++ (databaseBytes database ++
            (newList certType owner sigData hlt').bytes)) := by
      rw [databaseBytes_cons]
      simp only [List.append_assoc]
    have hsize : signatureListSize (pre ++ (list.bytes ++ (databaseBytes (next :: database) ++
        (newList certType owner sigData hlt').bytes))) pre.length = .ok list.size := by
      rw [SignatureList.bytes, List.append_assoc]
      exact signatureListSize_eq (by omega)
    have hend : pre.length + list.size = (pre ++ list.bytes).length := by
      rw [List.length_append, length_signatureList]
    have hmatch := certMatch_other next hother (pre ++ list.bytes)
      (databaseBytes database ++ (newList certType owner sigData hlt').bytes) (by omega)
    rw [← hparts, ← hend] at hmatch
    have hinside : ¬ pre.length + list.size ≥ (pre ++ (list.bytes ++ (databaseBytes (next :: database) ++
        (newList certType owner sigData hlt').bytes))).length := by
      have hheader : 0 < sizeofSignatureList := by decide
      rw [databaseBytes_cons]
      simp only [List.length_append, length_signatureList]
      omega
    refine (bind_of_ok hsize).trans ((if_neg hinside).trans ((bind_of_ok hmatch).trans ?_))
    refine (if_pos rfl).trans ?_
    have hnew := ih hrest next n (Nat.lt_of_succ_lt_succ hn) (pre ++ list.bytes) (by rw [← hparts]; exact hlt)
    rw [← hparts, ← hend] at hnew
    rw [hnew, databaseBytes_cons]
    simp only [List.append_assoc]

theorem findNextCert_end (hlt' : sizeofSignatureOwner + sigData.length < 0x100000000) (pre : List Byte)
    (hlt : sizeofSignatureList + (sizeofSignatureOwner + sigData.length) < 0x100000000)
    (filter : Option FindCertFilter) :
    findNextCert (pre ++ (newList certType owner sigData hlt').bytes) filter pre.length = .ok none := by
  have hnew := newList_size certType owner hlt'
  have hsize : signatureListSize (pre ++ (newList certType owner sigData hlt').bytes) pre.length =
      .ok (newList certType owner sigData hlt').size := by
    rw [SignatureList.bytes]
    exact signatureListSize_eq (by omega)
  refine (bind_of_ok hsize).trans (if_pos (Nat.le_of_eq ?_))
  rw [List.length_append, length_signatureList]

theorem findsAppended {services : Services} {store : Option SignatureVariable} {database : List SignatureList}
    (happendable : Appendable owner sigData database store)
    (hlt' : sizeofSignatureOwner + sigData.length < 0x100000000) {w : SignatureVariable}
    (hw : IsAppended store (newList certType owner sigData hlt').bytes w)
    (halloc : services.allocates .findContext = true) :
    FindsAppended services certType owner sigData store (some w) := by
  have hroom := happendable.size_lt
  have hdata := hw.data
  rw [happendable.holds.contents_eq] at hdata
  have hnew := newList_size certType owner hlt'
  have hcert : w.data.drop ((databaseBytes database).length + sizeofSignatureList) = owner.bytes ++ sigData := by
    rw [hdata, newList_bytes hlt', ← List.drop_drop, List.drop_left]
    exact List.drop_left' length_listHead
  have hfind : findFirstCert services (some (ownerFilter owner)) (some w) =
      .ok (some ((databaseBytes database).length, some ((databaseBytes database).length + sizeofSignatureList))) := by
    unfold findFirstCert
    rw [halloc]
    refine (if_neg (by decide)).trans ?_
    cases database with
    | nil =>
      have hmatch := certMatch_new certType owner hlt' (by omega) []
      rw [List.append_nil] at hmatch
      have hmatch' : certMatch w.data 0 (some (ownerFilter owner)) = .ok (1, some (0 + sizeofSignatureList)) := by
        rw [hdata]
        exact hmatch
      exact (bind_of_ok hmatch').trans (if_neg (by decide))
    | cons list database =>
      obtain ⟨hother, hrest⟩ := absent_cons happendable.absent
      have hsize := length_databaseBytes_cons list database
      rw [databaseBytes_cons, List.append_assoc] at hdata
      have hmatch := certMatch_other list hother [] (databaseBytes database ++
        (newList certType owner sigData hlt').bytes) (by omega)
      rw [List.nil_append, ← hdata] at hmatch
      have hfewer := length_le_databaseBytes database
      have hlength := congrArg List.length hdata
      simp only [List.length_append, length_signatureList] at hlength
      have hwalk := findNextFrom_new certType hlt' database hrest list (w.data.length + 1)
        (by omega) [] (by rw [List.nil_append, ← hdata]; exact w.size_lt)
      rw [List.nil_append, ← hdata, List.nil_append, ← databaseBytes_cons] at hwalk
      exact (bind_of_ok hmatch).trans ((if_pos rfl).trans hwalk)
  refine ⟨_, _, hfind, ?_, rfl, hcert, ?_, ?_⟩
  · rw [happendable.holds.contents_eq]
  · have hcontents : contents (some w) = w.data := rfl
    rw [hcontents, hw.data, newList_bytes hlt']
  · have hcontents : contents (some w) = w.data := rfl
    rw [hcontents, hdata]
    exact findNextCert_end hlt' _ (by omega) _

/-! ## Deleting the new list -/

theorem without_of_absent {list : SignatureList} (h : ∀ signature ∈ list.signatures, signature.owner ≠ owner) :
    list.without owner = list := by
  have hfilter : list.signatures.filter (fun signature => signature.owner ≠ owner) = list.signatures :=
    List.filter_eq_self.mpr fun signature hmem => decide_eq_true (h signature hmem)
  cases list with
  | mk type header dataSize signatures same_size size_lt =>
    unfold SignatureList.without
    congr

theorem databaseWithout_appended {database : List SignatureList} (habsent : ¬ HasOwner owner database)
    (hfull : ∀ list ∈ database, list.signatures ≠ [])
    (hlt' : sizeofSignatureOwner + sigData.length < 0x100000000) :
    databaseWithout owner (database ++ [newList certType owner sigData hlt']) = database := by
  unfold databaseWithout
  rw [List.map_append, List.filter_append]
  have hmap : database.map (SignatureList.without owner) = database := by
    refine (List.map_congr_left fun list hmem => ?_).trans (List.map_id _)
    exact without_of_absent fun signature hs howner => habsent ⟨list, hmem, signature, hs, howner⟩
  have hnew : ((newList certType owner sigData hlt').without owner).signatures = [] :=
    List.filter_eq_nil_iff.mpr fun signature hmem => by
      rw [List.mem_singleton.mp hmem]
      simp
  have hlast : ([newList certType owner sigData hlt'].map (SignatureList.without owner)).filter
      (fun list => list.signatures ≠ []) = [] := by
    rw [List.map_singleton, List.filter_cons_of_neg (by simpa using hnew), List.filter_nil]
  rw [hmap, hlast, List.append_nil]
  exact List.filter_eq_self.mpr fun list hmem => decide_eq_true (hfull list hmem)

theorem clear_append {attributes : BitVec 32} (h : attributes &&& appendWrite = 0) :
    attributes &&& ~~~appendWrite = attributes := by
  apply BitVec.eq_of_getLsbD_eq
  intro i hi
  have hbit := congrArg (fun a : BitVec 32 => a.getLsbD i) h
  simp only [BitVec.getLsbD_and, BitVec.getLsbD_not, hi, decide_true, Bool.true_and] at hbit ⊢
  cases hset : appendWrite.getLsbD i with
  | false => simp
  | true =>
    rw [hset, Bool.and_true] at hbit
    rw [hbit]
    simp

theorem replaceBy_restores {store : Option SignatureVariable} {bytes : List Byte} {w : SignatureVariable}
    (hw : IsAppended store bytes w) (hlt : (contents store).length < 0x100000000) :
    replaceBy w.attributes (contents store) (some w) = (.success, store) := by
  unfold replaceBy
  cases store with
  | none => rfl
  | some v =>
    have hcontents : contents (some v) = v.data := rfl
    have hattributes : w.attributes &&& ~~~appendWrite = v.attributes := by
      rw [hw.attributes v rfl]
      exact clear_append v.no_append
    rw [dif_pos (by rw [hcontents]; exact v.data_ne), dif_pos hlt]
    refine congrArg (fun v => (EfiStatus.success, some v)) ?_
    cases v with
    | mk attributes data no_append data_ne size_lt =>
      congr

theorem deletes_appended (services : Services) {store : Option SignatureVariable} {database : List SignatureList}
    (happendable : Appendable owner sigData database store)
    (hlt' : sizeofSignatureOwner + sigData.length < 0x100000000) {w : SignatureVariable}
    (hw : IsAppended store (newList certType owner sigData hlt').bytes w)
    (halloc : services.allocates .payload = true) (hrefusal : services.refusal = .success) :
    ∃ status store', setupDeleteCert services (some owner) (some w) = .ok (status, store') ∧
      (services.Willing → status = .success) ∧ (status = .success → store' = store) := by
  have hfails : setupDeleteCert services (some owner) (some w) = .ok (.outOfResources, some w) →
      ¬ services.Willing → ∃ status store', setupDeleteCert services (some owner) (some w) =
        .ok (status, store') ∧ (services.Willing → status = .success) ∧ (status = .success → store' = store) :=
    fun hrun hno => ⟨_, _, hrun, fun hwilling => absurd hwilling hno, fun h => by cases h⟩
  cases hold : services.allocates .oldData with
  | false =>
    refine hfails (if_pos hold) fun hwilling => ?_
    rw [hwilling.1 .oldData] at hold
    cases hold
  | true =>
    cases hnew : services.allocates .data with
    | false =>
      refine hfails ?_ fun hwilling => ?_
      · unfold setupDeleteCert
        rw [hold, hnew]
        rfl
      · rw [hwilling.1 .data] at hnew
        cases hnew
    | true =>
      have hroom := happendable.size_lt
      have hcontents := happendable.holds.contents_eq
      have hbytes : databaseBytes (database ++ [newList certType owner sigData hlt']) =
          databaseBytes database ++ (newList certType owner sigData hlt').bytes := by
        unfold databaseBytes
        rw [List.flatMap_append, List.flatMap_singleton]
      have hdata : w.data = databaseBytes (database ++ [newList certType owner sigData hlt']) := by
        rw [hw.data, hcontents, hbytes]
      have hhas : HasOwner owner (database ++ [newList certType owner sigData hlt']) :=
        ⟨_, List.mem_append_right _ (List.mem_singleton_self _), ⟨owner, sigData⟩, List.mem_singleton_self _, rfl⟩
      rcases setupDeleteCert_eq services hdata hold hnew with ⟨hno, -⟩ | ⟨-, tail, hrun⟩
      · exact absurd hhas hno
      · rw [databaseWithout_appended happendable.absent happendable.not_empty,
          writeBack_authenticated tail (by omega) hw.authenticated halloc,
          if_neg (not_not_intro hrefusal), ← hcontents,
          replaceBy_restores hw (by rw [hcontents]; omega)] at hrun
        exact ⟨_, _, hrun, fun _ => rfl, fun _ => rfl⟩

end

theorem append_delete_inverse (services : Services) (certType owner : Guid) (sigData : List Byte)
    (database : List SignatureList) (store : Option SignatureVariable)
    (happendable : Appendable owner sigData database store) :
    AppendDeleteInverse services certType owner sigData store := by
  have hroom := happendable.size_lt
  have hlt' : sizeofSignatureOwner + sigData.length < 0x100000000 := by omega
  cases hset : services.allocates .setData with
  | false =>
    refine ⟨.outOfResources, store, if_pos hset, fun hwilling => ?_, fun h => by cases h⟩
    rw [hwilling.1 .setData] at hset
    cases hset
  | true =>
    have hne : (newList certType owner sigData hlt').bytes ≠ [] := by
      intro hnil
      have hlength := length_signatureList (newList certType owner sigData hlt')
      rw [hnil, newList_size _ _ hlt'] at hlength
      have hheader : 0 < sizeofSignatureList := by decide
      rw [List.length_nil] at hlength
      omega
    obtain ⟨status, appended, hrun, hwilling, hsuccess⟩ := setupSetTimeBasedAuthVariable_ret services store hne
      (by rw [happendable.holds.contents_eq, length_signatureList, newList_size]; exact hroom) happendable.authenticated
    refine ⟨status, appended, (setupAppendCert_eq services store hset (by omega) hlt').trans hrun, hwilling,
      fun hstatus => ?_⟩
    obtain ⟨halloc, hrefusal, w, rfl, hw⟩ := hsuccess hstatus
    exact ⟨findsAppended happendable hlt' hw, deletes_appended services happendable hlt' hw halloc hrefusal⟩

/-- A signature without data is appended to a database of one list, found and deleted. -/
theorem append_delete_lone :
    AppendDeleteInverse willing (guidOf 1) (guidOf 3) [] (some (loneVariable 0x27 (by decide))) := by
  refine append_delete_inverse willing (guidOf 1) (guidOf 3) [] [loneList] _ ⟨⟨rfl, by decide⟩, ?_, ?_, ?_, by decide⟩
  · intro v hv
    injection hv with hv
    subst hv
    decide
  · intro list hlist
    rw [List.mem_singleton.mp hlist]
    exact List.cons_ne_nil _ _
  · rintro ⟨list, hlist, signature, hsignature, howner⟩
    rw [List.mem_singleton.mp hlist] at hsignature
    rw [List.mem_singleton.mp hsignature] at howner
    exact absurd howner (by decide)

end Quark.SecureBoot.Proofs
