import Quark.SecureBoot.SignatureDatabase

/-!
# The walks over signature lists

The first walk copies the headers and the certificates of other owners, and drops a list that has shrunk to
its header. The second walk drops the lists that have no certificate but a header of their own. Both stay
inside their buffers as long as each list is as large as its header and its certificates.
-/

namespace Quark.SecureBoot.Proofs

open Machine

theorem bind_of_ok {ε α β : Type} {x : Except ε α} {k : α → Except ε β} {a : α} (h : x = .ok a) :
    (x >>= k) = k a := by
  rw [h]
  rfl

theorem bytes?_append (pre : List Byte) {mid : List Byte} (post : List Byte) {n : Nat} (h : mid.length = n) :
    bytes? n (pre ++ (mid ++ post)) pre.length = some mid := by
  rw [bytes?_of_le (by rw [List.length_append, List.length_append]; omega), List.drop_left,
    List.take_left' h]

theorem put?_append (pre tail bytes : List Byte) (h : bytes.length ≤ tail.length) :
    put? (pre ++ tail) pre.length bytes = some (pre ++ (bytes ++ tail.drop bytes.length)) := by
  unfold put?
  rw [if_pos (by rw [List.length_append]; omega), List.take_left, List.append_assoc,
    ← List.drop_drop, List.drop_left]

theorem word32_append {v : Nat} (h : v < 0x100000000) (pre post : List Byte) :
    word? 4 (pre ++ (leBytes 4 v ++ post)) pre.length = some v :=
  (word?_append 4 v pre post).trans (congrArg some (Nat.mod_eq_of_lt h))

theorem inside_of_some {α : Type} {x : Option α} {a : α} (h : x = some a) : inside x = .ok a := by
  rw [h]
  rfl

theorem bytes_ne {guid guid' : Guid} (h : guid ≠ guid') : guid.bytes ≠ guid'.bytes := by
  intro hbytes
  cases guid with
  | mk bytes length_bytes =>
    cases guid' with
    | mk bytes' length_bytes' =>
      dsimp only at hbytes
      subst hbytes
      exact h rfl

/-! ## The fields of a list -/

section

variable {type : Guid} {listSize size : Nat} {header pre post : List Byte}

theorem length_listHead : (listHead type listSize header size).length = sizeofSignatureList + header.length := by
  unfold listHead sizeofSignatureList
  simp only [List.length_append, length_leBytes, type.length_bytes]
  omega

theorem signatureListSize_eq (h : listSize < 0x100000000) :
    signatureListSize (pre ++ (listHead type listSize header size ++ post)) pre.length = .ok listSize := by
  have hword := word32_append h (pre ++ type.bytes)
    (leBytes 4 header.length ++ (leBytes 4 size ++ header) ++ post)
  rw [List.length_append, type.length_bytes] at hword
  unfold signatureListSize listHead
  simp only [List.append_assoc] at hword ⊢
  rw [hword]
  rfl

theorem signatureHeaderSize_eq (h : header.length < 0x100000000) :
    signatureHeaderSize (pre ++ (listHead type listSize header size ++ post)) pre.length =
      .ok header.length := by
  have hword := word32_append h (pre ++ (type.bytes ++ leBytes 4 listSize))
    (leBytes 4 size ++ header ++ post)
  rw [List.length_append, List.length_append, type.length_bytes, length_leBytes] at hword
  unfold signatureHeaderSize listHead
  simp only [List.append_assoc] at hword ⊢
  rw [hword]
  rfl

theorem signatureSize_eq (h : size < 0x100000000) :
    signatureSize (pre ++ (listHead type listSize header size ++ post)) pre.length = .ok size := by
  have hword := word32_append h (pre ++ (type.bytes ++ (leBytes 4 listSize ++ leBytes 4 header.length)))
    (header ++ post)
  rw [List.length_append, List.length_append, List.length_append, type.length_bytes, length_leBytes,
    length_leBytes] at hword
  unfold signatureSize listHead
  simp only [List.append_assoc] at hword ⊢
  rw [hword]
  rfl

theorem put?_size (kept : List Byte) (listSize' : Nat) :
    put? (kept ++ (listHead type listSize header size ++ post)) (kept.length + 16) (leBytes 4 listSize') =
      some (kept ++ (listHead type listSize' header size ++ post)) := by
  have hput := put?_append (kept ++ type.bytes)
    (leBytes 4 listSize ++ (leBytes 4 header.length ++ (leBytes 4 size ++ header) ++ post))
    (leBytes 4 listSize') (by rw [List.length_append, length_leBytes, length_leBytes]; omega)
  rw [List.length_append, type.length_bytes, length_leBytes, List.drop_left' (length_leBytes 4 listSize)] at hput
  unfold listHead
  simp only [List.append_assoc] at hput ⊢
  exact hput

theorem put?_entry (kept certs tail : List Byte) {entry : List Byte} (h : entry.length ≤ tail.length) :
    put? (kept ++ (listHead type listSize header size ++ (certs ++ tail)))
        (kept.length + (sizeofSignatureList + header.length) + certs.length) entry =
      some (kept ++ (listHead type listSize header size ++ (certs ++ entry ++ tail.drop entry.length))) := by
  have hput := put?_append (kept ++ (listHead type listSize header size ++ certs)) tail entry h
  rw [List.length_append, List.length_append, length_listHead, ← Nat.add_assoc] at hput
  simp only [List.append_assoc] at hput ⊢
  exact hput

theorem sub32_eq {a b : Nat} (ha : a < 0x100000000) (hb : b ≤ a) : sub32 a b = a - b := by
  unfold sub32
  rw [Nat.mod_eq_of_lt (Nat.lt_of_le_of_lt hb ha)]
  omega

end

/-! ## Lists of entries -/

theorem length_flatten {entries : List (List Byte)} {size : Nat} (h : ∀ entry ∈ entries, entry.length = size) :
    entries.flatten.length = entries.length * size := by
  induction entries with
  | nil => rw [List.flatten_nil, List.length_nil, List.length_nil, Nat.zero_mul]
  | cons entry entries ih =>
    rw [List.flatten_cons, List.length_append, h entry List.mem_cons_self,
      ih fun e he => h e (List.mem_cons_of_mem _ he), List.length_cons, Nat.succ_mul, Nat.add_comm]

theorem length_bytesSized (list : EntryList) (extra : Nat) : (list.bytesSized extra).length = list.size := by
  unfold EntryList.bytesSized EntryList.size
  rw [List.length_append, length_listHead, length_flatten list.same_size]

theorem length_bytes (list : EntryList) : list.bytes.length = list.size := length_bytesSized list 0

theorem le_size (list : EntryList) : sizeofSignatureList + list.header.length ≤ list.size :=
  Nat.le_add_right _ _

theorem count_of_size (list : EntryList) {extra : Nat} (hextra : extra < list.entrySize)
    (h : list.size + extra < 0x100000000) :
    sub32 (sub32 (list.size + extra) sizeofSignatureList) list.header.length / list.entrySize =
      list.entries.length := by
  have hle := le_size list
  have hcount : sub32 (sub32 (list.size + extra) sizeofSignatureList) list.header.length =
      list.entrySize * list.entries.length + extra := by
    rw [sub32_eq h (by omega), sub32_eq (by omega) (by omega), Nat.mul_comm list.entrySize]
    unfold EntryList.size
    omega
  rw [hcount, Nat.mul_add_div list.size_pos, Nat.div_eq_of_lt hextra, Nat.add_zero]

theorem certCount_eq (list : EntryList) {extra : Nat} (hextra : extra < list.entrySize) (pre post : List Byte)
    (h : list.size + extra < 0x100000000) :
    certCount (pre ++ (list.bytesSized extra ++ post)) pre.length = .ok list.entries.length := by
  have hle := le_size list
  have hlist : list.bytesSized extra ++ post =
      listHead list.type (list.size + extra) list.header list.entrySize ++ (list.entries.flatten ++ post) :=
    List.append_assoc ..
  unfold certCount
  rw [hlist, bind_of_ok (signatureListSize_eq h), bind_of_ok (signatureHeaderSize_eq (by omega)),
    bind_of_ok (signatureSize_eq list.size_lt), if_neg (Nat.ne_of_gt list.size_pos), count_of_size list hextra h]
  rfl

theorem listBytes_cons (list : EntryList) (lists : List EntryList) :
    listBytes (list :: lists) = list.bytes ++ listBytes lists := List.flatMap_cons

theorem length_listBytes_cons (list : EntryList) (lists : List EntryList) :
    (listBytes (list :: lists)).length = list.size + (listBytes lists).length := by
  rw [listBytes_cons, List.length_append, length_bytes]

theorem length_le_listBytes (lists : List EntryList) : lists.length ≤ (listBytes lists).length := by
  induction lists with
  | nil => exact Nat.le_refl _
  | cons list lists ih =>
    have hle := le_size list
    have hheader : 0 < sizeofSignatureList := by decide
    rw [length_listBytes_cons, List.length_cons]
    omega

/-! ## The first walk -/

def keptEntries (owner content : List Byte) (size : Nat) : Nat → List (List Byte) → List (List Byte)
  | _, [] => []
  | pos, entry :: entries =>
    if (content.drop pos).take 16 = owner then keptEntries owner content size (pos + size) entries
    else entry :: keptEntries owner content size (pos + size) entries

theorem mem_of_keptEntries {owner content : List Byte} {size pos : Nat} {entries : List (List Byte)}
    {entry : List Byte} (h : entry ∈ keptEntries owner content size pos entries) : entry ∈ entries := by
  induction entries generalizing pos with
  | nil => cases h
  | cons first entries ih =>
    rw [keptEntries] at h
    split at h
    · exact List.mem_cons_of_mem _ (ih h)
    · rcases List.mem_cons.mp h with rfl | h
      · exact List.mem_cons_self
      · exact List.mem_cons_of_mem _ (ih h)

theorem length_keptEntries_le (owner content : List Byte) (size pos : Nat) (entries : List (List Byte)) :
    (keptEntries owner content size pos entries).length ≤ entries.length := by
  induction entries generalizing pos with
  | nil => exact Nat.le_refl _
  | cons entry entries ih =>
    have hrest := ih (pos + size)
    rw [keptEntries]
    split
    · rw [List.length_cons]
      omega
    · rw [List.length_cons, List.length_cons]
      omega

def keptList (owner content : List Byte) (pos : Nat) (list : EntryList) : EntryList :=
  { list with
    entries := keptEntries owner content list.entrySize (pos + sizeofSignatureList + list.header.length) list.entries
    same_size := fun entry h => list.same_size entry (mem_of_keptEntries h) }

def keptLists (owner content : List Byte) : Nat → List EntryList → List EntryList
  | _, [] => []
  | pos, list :: lists =>
    if (keptList owner content pos list).size ≤ sizeofSignatureList then
      keptLists owner content (pos + list.size) lists
    else keptList owner content pos list :: keptLists owner content (pos + list.size) lists

def Erases (owner content : List Byte) : Nat → List EntryList → Prop
  | _, [] => False
  | pos, list :: lists => (keptList owner content pos list).entries.length < list.entries.length ∨
      Erases owner content (pos + list.size) lists

theorem keptList_size_le (owner content : List Byte) (pos : Nat) (list : EntryList) :
    (keptList owner content pos list).size ≤ list.size := by
  refine Nat.add_le_add_left (Nat.mul_le_mul_right _ ?_) _
  exact length_keptEntries_le _ _ _ _ _

theorem keptList_size_add (owner content : List Byte) (pos : Nat) (list : EntryList) (extra : Nat) :
    list.size + extra - (list.entries.length - (keptList owner content pos list).entries.length) * list.entrySize =
      (keptList owner content pos list).size + extra := by
  have hfewer : (keptList owner content pos list).entries.length ≤ list.entries.length :=
    length_keptEntries_le _ _ _ _ _
  have hmul := Nat.mul_le_mul_right list.entrySize hfewer
  have hsize : list.size = sizeofSignatureList + list.header.length +
      list.entries.length * list.entrySize := rfl
  have hkept : (keptList owner content pos list).size = sizeofSignatureList + list.header.length +
      (keptList owner content pos list).entries.length * list.entrySize := rfl
  rw [Nat.sub_mul, hsize, hkept]
  omega

theorem length_flatten_keptList (owner content : List Byte) (pos : Nat) (list : EntryList) :
    (keptList owner content pos list).entries.flatten.length =
      (keptList owner content pos list).size - (sizeofSignatureList + list.header.length) := by
  refine (length_flatten (keptList owner content pos list).same_size).trans ?_
  unfold EntryList.size
  exact (Nat.add_sub_cancel_left ..).symm

theorem length_keptLists_le (owner content : List Byte) (pos : Nat) (lists : List EntryList) :
    (listBytes (keptLists owner content pos lists)).length ≤ (listBytes lists).length := by
  induction lists generalizing pos with
  | nil => exact Nat.le_refl _
  | cons list lists ih =>
    have hsize := keptList_size_le owner content pos list
    have hrest := ih (pos + list.size)
    rw [keptLists]
    split
    · rw [length_listBytes_cons]
      omega
    · rw [length_listBytes_cons, length_listBytes_cons]
      omega

section

variable (owner content : List Byte)

theorem eraseCerts_eq {type : Guid} {header : List Byte} {size : Nat} (entries : List (List Byte))
    (hsize : ∀ entry ∈ entries, entry.length = size)
    (pre post kept certs tail : List Byte) (listSize : Nat) (l : EraseLocals)
    (hcontent : content = pre ++ (entries.flatten ++ post))
    (hinside : entries ≠ [] → pre.length + (entries.length - 1) * size + 16 ≤ content.length)
    (hlist : listSize < 0x100000000) (hroom : entries.length * size ≤ listSize)
    (htail : entries.flatten.length ≤ tail.length)
    (hdata : l.data = kept ++ (listHead type listSize header size ++ (certs ++ tail)))
    (hoffset : l.offset = kept.length + (sizeofSignatureList + header.length) + certs.length)
    (hlt : l.data.length < 0x100000000) :
    ∃ tail', tail'.length + (keptEntries owner content size pre.length entries).flatten.length = tail.length ∧
      eraseCerts owner content kept.length size entries.length pre.length l =
      .ok { l with
        data := kept ++ (listHead type (listSize -
          (entries.length - (keptEntries owner content size pre.length entries).length) * size) header size ++
            (certs ++ (keptEntries owner content size pre.length entries).flatten ++ tail'))
        offset := l.offset + (keptEntries owner content size pre.length entries).flatten.length
        isItemFound := l.isItemFound ||
          decide ((keptEntries owner content size pre.length entries).length < entries.length) } := by
  induction entries generalizing pre certs tail listSize l with
  | nil =>
    refine ⟨tail, rfl, ?_⟩
    unfold eraseCerts
    simp only [keptEntries, List.flatten_nil, List.length_nil, Nat.sub_self, Nat.zero_mul, Nat.sub_zero,
      Nat.add_zero, List.append_nil, Nat.lt_irrefl, decide_false, Bool.or_false]
    rw [← hdata]
    rfl
  | cons entry entries ih =>
    have hhead := hsize entry List.mem_cons_self
    have hrest : ∀ e ∈ entries, e.length = size := fun e he => hsize e (List.mem_cons_of_mem _ he)
    have hold : content = (pre ++ entry) ++ (entries.flatten ++ post) := by
      rw [hcontent, List.flatten_cons]
      simp only [List.append_assoc]
    have hnext : pre.length + size = (pre ++ entry).length := by rw [List.length_append, hhead]
    have hinside' := hinside (List.cons_ne_nil _ _)
    rw [List.length_cons, Nat.add_sub_cancel] at hinside'
    have howner : bytes? 16 content pre.length = some ((content.drop pre.length).take 16) :=
      bytes?_of_le (by omega)
    have hnextInside : entries ≠ [] → (pre ++ entry).length + (entries.length - 1) * size + 16 ≤ content.length := by
      intro hne
      have hpos : 1 ≤ entries.length := List.length_pos_iff.mpr hne
      have hmul : (entries.length - 1) * size + size = entries.length * size := by
        rw [Nat.sub_one_mul]
        exact Nat.sub_add_cancel (Nat.le_mul_of_pos_left _ hpos)
      omega
    have hwhole : bytes? size content pre.length = some entry := by
      rw [hcontent, List.flatten_cons, List.append_assoc]
      exact bytes?_append _ _ hhead
    have hfewer := length_keptEntries_le owner content size (pre ++ entry).length entries
    rw [List.flatten_cons, List.length_append, hhead] at htail
    rw [List.length_cons, Nat.succ_mul] at hroom
    have hlength := congrArg List.length hdata
    simp only [List.length_append, length_listHead] at hlength
    by_cases heq : (content.drop pre.length).take 16 = owner
    · -- the list becomes smaller by one entry
      have hkept : keptEntries owner content size pre.length (entry :: entries) =
          keptEntries owner content size (pre ++ entry).length entries := by
        rw [keptEntries, if_pos heq, hnext]
      have hread : signatureListSize l.data kept.length = .ok listSize := by
        rw [hdata]
        exact signatureListSize_eq hlist
      have hput : put? l.data (kept.length + 16) (leBytes 4 (listSize - size)) =
          some (kept ++ (listHead type (listSize - size) header size ++ (certs ++ tail))) := by
        rw [hdata]
        exact put?_size kept _
      obtain ⟨tail', htail', hrun⟩ := ih hrest (pre ++ entry) certs tail (listSize - size)
        { l with
          data := kept ++ (listHead type (listSize - size) header size ++ (certs ++ tail))
          isItemFound := true }
        hold hnextInside (by omega) (by omega) (by omega) rfl hoffset
        (by simp only [List.length_append, length_listHead]; omega)
      rw [hkept]
      refine ⟨tail', htail', ?_⟩
      refine (bind_of_ok (inside_of_some howner)).trans ((if_pos heq).trans ?_)
      refine (bind_of_ok hread).trans ?_
      rw [sub32_eq hlist (by omega)]
      refine (bind_of_ok (inside_of_some hput)).trans ?_
      rw [hnext]
      refine hrun.trans ?_
      have hfound : (l.isItemFound || decide ((keptEntries owner content size (pre ++ entry).length entries).length <
          (entry :: entries).length)) = true := by
        rw [List.length_cons, decide_eq_true (Nat.lt_succ_of_le hfewer), Bool.or_true]
      have hshrink : listSize - size -
          (entries.length - (keptEntries owner content size (pre ++ entry).length entries).length) * size =
          listSize - ((entry :: entries).length -
            (keptEntries owner content size (pre ++ entry).length entries).length) * size := by
        rw [List.length_cons, Nat.succ_sub hfewer, Nat.succ_mul, Nat.sub_sub, Nat.add_comm size]
      rw [hfound, hshrink]
      rfl
    · -- the entry is copied
      have hkept : keptEntries owner content size pre.length (entry :: entries) =
          entry :: keptEntries owner content size (pre ++ entry).length entries := by
        rw [keptEntries, if_neg heq, hnext]
      have hput : put? l.data l.offset entry =
          some (kept ++ (listHead type listSize header size ++
            (certs ++ entry ++ tail.drop entry.length))) := by
        rw [hdata, hoffset]
        exact put?_entry kept certs tail (by omega)
      obtain ⟨tail', htail', hrun⟩ := ih hrest (pre ++ entry) (certs ++ entry) (tail.drop entry.length) listSize
        { l with
          data := kept ++ (listHead type listSize header size ++ (certs ++ entry ++ tail.drop entry.length))
          offset := l.offset + size }
        hold hnextInside hlist (by omega) (by rw [List.length_drop]; omega) rfl
        (by show l.offset + size = _; rw [List.length_append, hhead, hoffset]; omega)
        (by simp only [List.length_append, length_listHead, List.length_drop]; omega)
      rw [hkept]
      refine ⟨tail', ?_, ?_⟩
      · rw [List.flatten_cons, List.length_append]
        rw [List.length_drop] at htail'
        omega
      · refine (bind_of_ok (inside_of_some howner)).trans ((if_neg heq).trans ?_)
        refine (bind_of_ok (inside_of_some hwhole)).trans ((bind_of_ok (inside_of_some hput)).trans ?_)
        have hmod : (l.offset + size) % 0x100000000 = l.offset + size := Nat.mod_eq_of_lt (by omega)
        rw [hmod, hnext]
        refine hrun.trans ?_
        have hflat : (entry :: keptEntries owner content size (pre ++ entry).length entries).flatten.length =
            size + (keptEntries owner content size (pre ++ entry).length entries).flatten.length := by
          rw [List.flatten_cons, List.length_append, hhead]
        rw [hflat, List.flatten_cons]
        simp only [List.append_assoc, Nat.add_assoc, List.length_cons, Nat.add_sub_add_right,
          Nat.add_lt_add_iff_right]

def Stops (rest : List Byte) : Prop :=
  rest = [] ∨ 20 ≤ rest.length ∧ rest.length < leValue ((rest.drop 16).take 4)

theorem eraseLists_stops {rest pre : List Byte} {n : Nat} {l : EraseLocals} (hcontent : content = pre ++ rest)
    (hstops : Stops rest) (hlist : l.certList = pre.length) (hitem : l.itemDataSize = rest.length) :
    eraseLists owner content (n + 1) l = .ok l := by
  rcases hstops with rfl | ⟨hheader, hlong⟩
  · exact if_pos hitem
  · have hne : l.itemDataSize ≠ 0 := by omega
    have hlength : content.length = pre.length + rest.length := by rw [hcontent, List.length_append]
    have hdrop : content.drop (l.certList + 16) = rest.drop 16 := by
      rw [hcontent, hlist, ← List.drop_drop, List.drop_left]
    have hsize : signatureListSize content l.certList = .ok (leValue ((rest.drop 16).take 4)) := by
      unfold signatureListSize
      rw [word?_inside (by omega), hdrop]
      rfl
    exact (if_neg hne).trans ((bind_of_ok hsize).trans (if_pos (by omega)))

theorem eraseLists_step (list : EntryList) {extra : Nat} (hextra : extra < list.entrySize) (n : Nat)
    (pre post kept tail : List Byte) (l : EraseLocals) (hlist : l.certList = pre.length)
    (hcontent : content = pre ++ (list.bytesSized extra ++ post)) (hitem : list.size + extra ≤ l.itemDataSize)
    (hdata : l.data = kept ++ tail) (hoffset : l.offset = kept.length) (htail : list.size ≤ tail.length)
    (howners : list.entries ≠ [] → pre.length + sizeofSignatureList + list.header.length +
      (list.entries.length - 1) * list.entrySize + 16 ≤ content.length)
    (hsize : list.size + extra < 0x100000000) (hlt : l.data.length < 0x100000000) :
    ∃ tail', tail'.length + (keptList owner content pre.length list).size = tail.length ∧
      eraseLists owner content (n + 1) l = eraseLists owner content n {
        certList := l.certList + (list.size + extra)
        itemDataSize := l.itemDataSize - (list.size + extra)
        data := kept ++ ((keptList owner content pre.length list).bytesSized extra ++ tail')
        offset := if (keptList owner content pre.length list).size + extra ≤ sizeofSignatureList then kept.length
          else kept.length + (keptList owner content pre.length list).size
        isItemFound := l.isItemFound ||
          decide ((keptList owner content pre.length list).entries.length < list.entries.length) } := by
  have hle := le_size list
  have hentry := list.size_lt
  have hlength : l.data.length = kept.length + tail.length := by rw [hdata, List.length_append]
  -- the list at the front of what is left
  have hfields : content = pre ++ (listHead list.type (list.size + extra) list.header list.entrySize ++
      (list.entries.flatten ++ post)) := by
    rw [hcontent, EntryList.bytesSized, List.append_assoc]
  have hlistSize : signatureListSize content l.certList = .ok (list.size + extra) := by
    rw [hlist, hfields]
    exact signatureListSize_eq hsize
  have hheaderSize : signatureHeaderSize content l.certList = .ok list.header.length := by
    rw [hlist, hfields]
    exact signatureHeaderSize_eq (by omega)
  have hentrySize : signatureSize content l.certList = .ok list.entrySize := by
    rw [hlist, hfields]
    exact signatureSize_eq hentry
  have hcount : certCount content l.certList = .ok list.entries.length := by
    rw [hlist, hcontent]
    exact certCount_eq list hextra pre post hsize
  have hhead : bytes? ((sizeofSignatureList + list.header.length) % 0x100000000) content l.certList =
      some (listHead list.type (list.size + extra) list.header list.entrySize) := by
    rw [hlist, hfields, Nat.mod_eq_of_lt (by omega)]
    exact bytes?_append _ _ length_listHead
  have hput : put? l.data l.offset (listHead list.type (list.size + extra) list.header list.entrySize) =
      some (kept ++ (listHead list.type (list.size + extra) list.header list.entrySize ++
        ([] ++ tail.drop (sizeofSignatureList + list.header.length)))) := by
    rw [hdata, hoffset, put?_append _ _ _ (by rw [length_listHead]; omega), length_listHead]
    rfl
  have hmod : (l.offset + (listHead list.type (list.size + extra) list.header list.entrySize).length) %
      0x100000000 = kept.length + (sizeofSignatureList + list.header.length) := by
    rw [length_listHead, hoffset]
    exact Nat.mod_eq_of_lt (by omega)
  have hcerts : list.entries.flatten.length = list.entries.length * list.entrySize :=
    length_flatten list.same_size
  have hsizeEq : list.size = sizeofSignatureList + list.header.length +
      list.entries.length * list.entrySize := rfl
  have hcert : l.certList + sizeofSignatureList + list.header.length =
      (pre ++ listHead list.type (list.size + extra) list.header list.entrySize).length := by
    rw [List.length_append, length_listHead, hlist, Nat.add_assoc]
  obtain ⟨tail', htail', herase⟩ := eraseCerts_eq owner content list.entries list.same_size
    (pre ++ listHead list.type (list.size + extra) list.header list.entrySize) post kept []
    (tail.drop (sizeofSignatureList + list.header.length)) (list.size + extra)
    { l with
      data := kept ++ (listHead list.type (list.size + extra) list.header list.entrySize ++
        ([] ++ tail.drop (sizeofSignatureList + list.header.length)))
      offset := kept.length + (sizeofSignatureList + list.header.length) }
    (by rw [List.append_assoc]; exact hfields)
    (by rw [← hcert, hlist]; exact howners)
    hsize (by omega)
    (by rw [hcerts, List.length_drop]; omega) rfl rfl
    (by simp only [List.length_append, length_listHead, List.length_nil, List.length_drop]; omega)
  rw [← hcert, hlist] at htail' herase
  have hentries : keptEntries owner content list.entrySize (pre.length + sizeofSignatureList + list.header.length)
      list.entries = (keptList owner content pre.length list).entries := rfl
  rw [hentries] at htail' herase
  -- what is left of it
  have hshrink := keptList_size_add owner content pre.length list extra
  have hkeptLength := length_flatten_keptList owner content pre.length list
  have hkeptBytes : listHead list.type ((keptList owner content pre.length list).size + extra) list.header
      list.entrySize ++ (([] : List Byte) ++ (keptList owner content pre.length list).entries.flatten ++ tail') =
      (keptList owner content pre.length list).bytesSized extra ++ tail' := by
    rw [List.nil_append, ← List.append_assoc]
    rfl
  have hkeptLe : sizeofSignatureList + list.header.length ≤ (keptList owner content pre.length list).size :=
    le_size (keptList owner content pre.length list)
  have hshrinks := keptList_size_le owner content pre.length list
  rw [hshrink, hkeptBytes] at herase
  rw [hkeptLength, List.length_drop] at htail'
  have hnewSize : signatureListSize (kept ++ ((keptList owner content pre.length list).bytesSized extra ++ tail'))
      kept.length = .ok ((keptList owner content pre.length list).size + extra) := by
    rw [EntryList.bytesSized, List.append_assoc]
    exact signatureListSize_eq (by omega)
  have hpos : l.itemDataSize ≠ 0 := by
    have hheader : 0 < sizeofSignatureList := by decide
    omega
  have hend : kept.length + (sizeofSignatureList + list.header.length) +
      ((keptList owner content pre.length list).size - (sizeofSignatureList + list.header.length)) =
        kept.length + (keptList owner content pre.length list).size := by omega
  refine ⟨tail', by omega, ?_⟩
  refine (if_neg hpos).trans ((bind_of_ok hlistSize).trans ((if_neg (by omega)).trans ?_))
  refine (bind_of_ok hheaderSize).trans ((bind_of_ok (inside_of_some hhead)).trans ?_)
  refine (bind_of_ok (inside_of_some hput)).trans ((bind_of_ok hcount).trans ?_)
  refine (bind_of_ok hentrySize).trans ?_
  rw [hmod, hoffset, hlist]
  refine (bind_of_ok herase).trans ((bind_of_ok hnewSize).trans ?_)
  rw [hkeptLength, hend]

theorem eraseLists_lists (lists : List EntryList) (rest : List Byte) (n : Nat) (pre kept tail : List Byte)
    (l : EraseLocals) (hlist : l.certList = pre.length) (hcontent : content = pre ++ (listBytes lists ++ rest))
    (hitem : l.itemDataSize = (listBytes lists ++ rest).length) (hdata : l.data = kept ++ tail)
    (hoffset : l.offset = kept.length) (htail : (listBytes lists).length ≤ tail.length)
    (hinside : OwnersInside content.length pre.length lists) (hold : content.length < 0x100000000)
    (hlt : l.data.length < 0x100000000) :
    ∃ l' tail', eraseLists owner content (lists.length + n) l = eraseLists owner content n l' ∧
      l'.certList = (pre ++ listBytes lists).length ∧ l'.itemDataSize = rest.length ∧
      l'.data = kept ++ (listBytes (keptLists owner content pre.length lists) ++ tail') ∧
      l'.offset = (kept ++ listBytes (keptLists owner content pre.length lists)).length ∧
      l'.data.length = l.data.length ∧
      (l'.isItemFound = true ↔ l.isItemFound = true ∨ Erases owner content pre.length lists) := by
  induction lists generalizing pre kept tail l with
  | nil =>
    refine ⟨l, tail, congrArg (eraseLists owner content · l) (Nat.zero_add n), ?_, hitem, hdata, ?_, rfl, ?_⟩
    · rw [hlist]
      exact congrArg List.length (List.append_nil pre).symm
    · rw [hoffset]
      exact congrArg List.length (List.append_nil kept).symm
    · exact ⟨Or.inl, fun h => h.resolve_right fun h => h⟩
  | cons list lists ih =>
    obtain ⟨howners, hinside⟩ := hinside
    have hsize := length_listBytes_cons list lists
    have hpre : content = (pre ++ list.bytes) ++ (listBytes lists ++ rest) := by
      rw [hcontent, listBytes_cons]
      simp only [List.append_assoc]
    have hparts : content = pre ++ (list.bytesSized 0 ++ (listBytes lists ++ rest)) :=
      hpre.trans (List.append_assoc ..)
    have hold' := congrArg List.length hcontent
    rw [List.length_append, List.length_append, hsize] at hold'
    rw [List.length_append, hsize] at hitem
    rw [hsize] at htail
    have hlength : l.data.length = kept.length + tail.length := by rw [hdata, List.length_append]
    obtain ⟨tail₁, htail₁, hstep⟩ := eraseLists_step owner content list list.size_pos (lists.length + n) pre
      (listBytes lists ++ rest) kept tail l hlist hparts (by omega) hdata hoffset (by omega) howners (by omega) hlt
    simp only [Nat.add_zero] at hstep
    have hrun : eraseLists owner content ((list :: lists).length + n) l = _ :=
      (congrArg (eraseLists owner content · l) (Nat.succ_add lists.length n)).trans hstep
    have hbytes := length_bytesSized (keptList owner content pre.length list) 0
    have hnext : l.certList + list.size = (pre ++ list.bytes).length := by
      rw [List.length_append, length_bytes, hlist]
    have hposition : pre.length + list.size = (pre ++ list.bytes).length := by rw [← hnext, hlist]
    have hrestItem : l.itemDataSize - list.size = (listBytes lists ++ rest).length := by
      rw [List.length_append]
      omega
    have hdataLength : (kept ++ ((keptList owner content pre.length list).bytesSized 0 ++ tail₁)).length =
        l.data.length := by
      rw [List.length_append, List.length_append, hbytes, hlength]
      omega
    have herases : Erases owner content pre.length (list :: lists) ↔
        (keptList owner content pre.length list).entries.length < list.entries.length ∨
          Erases owner content (pre ++ list.bytes).length lists := by
      rw [← hposition]
      rfl
    have hend : ((pre ++ list.bytes) ++ listBytes lists).length = (pre ++ listBytes (list :: lists)).length := by
      rw [listBytes_cons, List.append_assoc]
    have hshrinks := keptList_size_le owner content pre.length list
    rw [hposition] at hinside
    by_cases hdropped : (keptList owner content pre.length list).size ≤ sizeofSignatureList
    · have hfirst : keptLists owner content pre.length (list :: lists) =
          keptLists owner content (pre ++ list.bytes).length lists := by
        rw [keptLists, if_pos hdropped, hposition]
      obtain ⟨l', tail', hwalk, hcert, hitem', hdata', hoffset', hlength', hfound⟩ := ih (pre ++ list.bytes) kept
        ((keptList owner content pre.length list).bytesSized 0 ++ tail₁) ⟨l.certList + list.size,
          l.itemDataSize - list.size, kept ++ ((keptList owner content pre.length list).bytesSized 0 ++ tail₁),
          kept.length,
          l.isItemFound || decide ((keptList owner content pre.length list).entries.length < list.entries.length)⟩
        hnext hpre hrestItem rfl rfl (by rw [List.length_append]; omega) hinside (by rw [hdataLength]; exact hlt)
      rw [if_pos hdropped] at hrun
      rw [hfirst]
      refine ⟨l', tail', hrun.trans hwalk, hcert.trans hend, hitem', hdata', hoffset',
        hlength'.trans hdataLength, ?_⟩
      rw [hfound, herases, Bool.or_eq_true, decide_eq_true_eq, or_assoc]
    · have hfirst : keptLists owner content pre.length (list :: lists) =
          keptList owner content pre.length list :: keptLists owner content (pre ++ list.bytes).length lists := by
        rw [keptLists, if_neg hdropped, hposition]
      obtain ⟨l', tail', hwalk, hcert, hitem', hdata', hoffset', hlength', hfound⟩ := ih (pre ++ list.bytes)
        (kept ++ (keptList owner content pre.length list).bytes) tail₁ ⟨l.certList + list.size,
          l.itemDataSize - list.size, kept ++ ((keptList owner content pre.length list).bytesSized 0 ++ tail₁),
          kept.length + (keptList owner content pre.length list).size,
          l.isItemFound || decide ((keptList owner content pre.length list).entries.length < list.entries.length)⟩
        hnext hpre hrestItem (List.append_assoc ..).symm (by rw [List.length_append, length_bytes]) (by omega)
        hinside (by rw [hdataLength]; exact hlt)
      rw [if_neg hdropped] at hrun
      rw [hfirst]
      refine ⟨l', tail', hrun.trans hwalk, hcert.trans hend, hitem', ?_, ?_, hlength'.trans hdataLength, ?_⟩
      · rw [hdata', listBytes_cons, List.append_assoc, List.append_assoc]
      · rw [hoffset', listBytes_cons, List.append_assoc]
      · rw [hfound, herases, Bool.or_eq_true, decide_eq_true_eq, or_assoc]

end

/-! ## The second walk -/

theorem packLists_lists (lists : List EntryList) (n left : Nat)
    (pre post kept tail : List Byte) (l : PackLocals) (hlist : l.certList = pre.length)
    (hitem : l.itemDataSize = (listBytes lists).length + left) (hdata : l.oldData = kept ++ tail)
    (hoffset : l.offset = kept.length) (htail : (listBytes lists).length ≤ tail.length)
    (hsource : (pre ++ (listBytes lists ++ post)).length < 0x100000000)
    (hlt : l.oldData.length < 0x100000000) :
    ∃ l' tail', packLists (pre ++ (listBytes lists ++ post)) (lists.length + n) l =
        packLists (pre ++ (listBytes lists ++ post)) n l' ∧
      l'.certList = (pre ++ listBytes lists).length ∧ l'.itemDataSize = left ∧
      l'.oldData = kept ++ (listBytes (lists.filter fun list => list.entries ≠ []) ++ tail') ∧
      l'.offset = (kept ++ listBytes (lists.filter fun list => list.entries ≠ [])).length := by
  induction lists generalizing pre kept tail l with
  | nil =>
    refine ⟨l, tail, congrArg (packLists _ · l) (Nat.zero_add n), ?_, hitem.trans (Nat.zero_add left), hdata, ?_⟩
    · rw [hlist]
      exact congrArg List.length (List.append_nil pre).symm
    · rw [hoffset]
      exact congrArg List.length (List.append_nil kept).symm
  | cons list lists ih =>
    have hsucc : packLists (pre ++ (listBytes (list :: lists) ++ post)) ((list :: lists).length + n) l =
        packLists (pre ++ (listBytes (list :: lists) ++ post)) (lists.length + n + 1) l :=
      congrArg (packLists _ · l) (Nat.succ_add lists.length n)
    have hle := le_size list
    have hbytes := length_bytes list
    have hsize := length_listBytes_cons list lists
    rw [hsize] at hitem htail
    rw [List.length_append, List.length_append, hsize] at hsource
    have hlength : l.oldData.length = kept.length + tail.length := by rw [hdata, List.length_append]
    have hparts : pre ++ (listBytes (list :: lists) ++ post) =
        pre ++ (list.bytes ++ (listBytes lists ++ post)) := by
      rw [listBytes_cons, List.append_assoc]
    have hlistSize : signatureListSize (pre ++ (listBytes (list :: lists) ++ post)) l.certList =
        .ok list.size := by
      rw [hlist, hparts, EntryList.bytes, List.append_assoc]
      exact signatureListSize_eq (by omega)
    have hcount : certCount (pre ++ (listBytes (list :: lists) ++ post)) l.certList =
        .ok list.entries.length := by
      rw [hlist, hparts]
      exact certCount_eq list list.size_pos pre _ (by omega)
    have hpre : pre ++ (listBytes (list :: lists) ++ post) =
        (pre ++ list.bytes) ++ (listBytes lists ++ post) := by
      rw [hparts, List.append_assoc]
    have hnext : l.certList + list.size = (pre ++ list.bytes).length := by
      rw [List.length_append, hbytes, hlist]
    have hend : ((pre ++ list.bytes) ++ listBytes lists).length = (pre ++ listBytes (list :: lists)).length := by
      rw [listBytes_cons, List.append_assoc]
    have hrestItem : l.itemDataSize - list.size = (listBytes lists).length + left := by omega
    have hrestSource : (pre ++ list.bytes ++ (listBytes lists ++ post)).length < 0x100000000 := by
      simp only [List.length_append]
      omega
    have hpos : l.itemDataSize ≠ 0 := by
      rw [hitem]
      have hheader : 0 < sizeofSignatureList := by decide
      omega
    by_cases hempty : list.entries = []
    · -- a list without certificates is passed over
      have hfilter : (list :: lists).filter (fun list => list.entries ≠ []) =
          lists.filter fun list => list.entries ≠ [] := List.filter_cons_of_neg (by simpa using hempty)
      obtain ⟨l', tail', hrun, hcert, hitem', hdata', hoffset'⟩ := ih (pre ++ list.bytes) kept tail
        ⟨l.certList + list.size, l.itemDataSize - list.size, l.oldData, l.offset⟩
        hnext hrestItem hdata hoffset (by omega) hrestSource hlt
      rw [← hpre] at hrun
      rw [hfilter]
      refine ⟨l', tail', hsucc.trans ?_, hcert.trans hend, hitem', hdata', hoffset'⟩
      refine (if_neg hpos).trans ((bind_of_ok hlistSize).trans ((if_neg (by omega)).trans ?_))
      refine (bind_of_ok hcount).trans ?_
      rw [hempty, List.length_nil, if_neg (fun h => h rfl)]
      exact hrun
    · have hfilter : (list :: lists).filter (fun list => list.entries ≠ []) =
          list :: lists.filter fun list => list.entries ≠ [] :=
        List.filter_cons_of_pos (by simpa using hempty)
      have hread : bytes? list.size (pre ++ (listBytes (list :: lists) ++ post)) l.certList =
          some list.bytes := by
        rw [hlist, hparts]
        exact bytes?_append _ _ hbytes
      have hput : put? l.oldData l.offset list.bytes =
          some (kept ++ (list.bytes ++ tail.drop list.size)) := by
        rw [hdata, hoffset, put?_append _ _ _ (by omega), hbytes]
      have hmod : (l.offset + list.size) % 0x100000000 = kept.length + list.size := by
        rw [hoffset]
        exact Nat.mod_eq_of_lt (by omega)
      obtain ⟨l', tail', hrun, hcert, hitem', hdata', hoffset'⟩ := ih (pre ++ list.bytes) (kept ++ list.bytes)
        (tail.drop list.size) ⟨l.certList + list.size, l.itemDataSize - list.size,
          kept ++ (list.bytes ++ tail.drop list.size), kept.length + list.size⟩
        hnext hrestItem (List.append_assoc ..).symm (by rw [List.length_append, hbytes])
        (by rw [List.length_drop]; omega) hrestSource
        (by simp only [List.length_append, List.length_drop, hbytes]; omega)
      rw [← hpre] at hrun
      rw [hfilter]
      refine ⟨l', tail', hsucc.trans ?_, hcert.trans hend, hitem', ?_, ?_⟩
      · have hsome : list.entries.length ≠ 0 := fun h => hempty (List.length_eq_zero_iff.mp h)
        refine (if_neg hpos).trans ((bind_of_ok hlistSize).trans ((if_neg (by omega)).trans ?_))
        refine (bind_of_ok hcount).trans ?_
        rw [if_pos hsome]
        refine (bind_of_ok (inside_of_some hread)).trans ((bind_of_ok (inside_of_some hput)).trans ?_)
        refine (bind_of_ok (x := pure _) rfl).trans ?_
        rw [hmod]
        exact hrun
      · rw [hdata', listBytes_cons, List.append_assoc, List.append_assoc]
      · rw [hoffset', listBytes_cons, List.append_assoc]

/-! ## Both walks -/

theorem deleteWalks_of_erase {services : Services} {owner : Guid} {v : SignatureVariable} {erased : EraseLocals}
    (hold : services.allocates .oldData = true) (hnew : services.allocates .data = true)
    (herase : eraseLists owner.bytes v.data (v.data.length + 1)
      ⟨0, v.data.length, List.replicate v.data.length 0, 0, false⟩ = .ok erased)
    (lists : List EntryList) (left : Nat) (post : List Byte) (hdata : erased.data = listBytes lists ++ post)
    (hoffset : erased.offset = (listBytes lists).length + left) (hlength : erased.data.length = v.data.length)
    (hle : erased.offset ≤ v.data.length)
    (hends : left = 0 ∨ ∃ size, signatureListSize erased.data (listBytes lists).length = .ok size ∧ left < size) :
    (erased.isItemFound = false ∧ setupDeleteCert services (some owner) (some v) = .ok (.notFound, some v)) ∨
      (erased.isItemFound = true ∧ ∃ tail, setupDeleteCert services (some owner) (some v) =
        writeBack services v (listBytes (lists.filter fun list => list.entries ≠ []) ++ tail)
          (listBytes (lists.filter fun list => list.entries ≠ [])).length) := by
  have hrun : setupDeleteCert services (some owner) (some v) =
      if erased.isItemFound = false then pure (.notFound, some v)
      else inside (put? v.data 0 (List.replicate erased.offset 0)) >>= fun oldData =>
        packLists erased.data (erased.offset + 1) ⟨0, erased.offset, oldData, 0⟩ >>= fun packed =>
          writeBack services v packed.oldData packed.offset := by
    unfold setupDeleteCert
    rw [hold, hnew]
    exact (if_neg (by decide)).trans ((if_neg (by decide)).trans (bind_of_ok herase))
  by_cases hfound : erased.isItemFound = true
  · have hput : put? v.data 0 (List.replicate erased.offset 0) =
        some ([] ++ (List.replicate erased.offset 0 ++ v.data.drop erased.offset)) := by
      have hput := put?_append [] v.data (List.replicate erased.offset 0)
        (by rw [List.length_replicate]; exact hle)
      rw [List.length_replicate] at hput
      exact hput
    have hfew := length_le_listBytes lists
    have hcleared : (List.replicate erased.offset (0 : Byte) ++ v.data.drop erased.offset).length =
        v.data.length := by
      rw [List.length_append, List.length_replicate, List.length_drop]
      omega
    obtain ⟨n, hn⟩ : ∃ n, erased.offset + 1 = lists.length + (n + 1) :=
      ⟨erased.offset - lists.length, by omega⟩
    obtain ⟨packed, tail, hpack, hcert, hitem, hpacked, hoffset'⟩ := packLists_lists lists (n + 1) left [] post []
      (List.replicate erased.offset 0 ++ v.data.drop erased.offset)
      ⟨0, erased.offset, [] ++ (List.replicate erased.offset 0 ++ v.data.drop erased.offset), 0⟩ rfl hoffset
      rfl rfl (by omega)
      (by rw [List.nil_append, ← hdata, hlength]; exact v.size_lt)
      (by rw [List.nil_append, hcleared]; exact v.size_lt)
    rw [List.nil_append, ← hdata, ← hn] at hpack
    rw [List.nil_append] at hcert hpacked hoffset'
    have hstop : packLists erased.data (n + 1) packed = .ok packed := by
      by_cases hzero : packed.itemDataSize = 0
      · exact if_pos hzero
      · rcases hends with hleft | ⟨size, hsize, hlarger⟩
        · exact absurd (hitem.trans hleft) hzero
        · rw [← hcert] at hsize
          exact (if_neg hzero).trans ((bind_of_ok hsize).trans (if_pos (by omega)))
    refine .inr ⟨hfound, tail, ?_⟩
    rw [hrun, if_neg (by rw [hfound]; decide)]
    refine (bind_of_ok (inside_of_some hput)).trans ((bind_of_ok (hpack.trans hstop)).trans ?_)
    rw [hpacked, hoffset']
  · have hnone : erased.isItemFound = false := Bool.eq_false_iff.mpr hfound
    exact .inl ⟨hnone, hrun.trans (if_pos hnone)⟩

theorem deleteWalks_eq (services : Services) (owner : Guid) (v : SignatureVariable) (lists : List EntryList)
    (rest : List Byte) (hdata : v.data = listBytes lists ++ rest) (hstops : Stops rest)
    (hinside : OwnersInside v.data.length 0 lists) (hold : services.allocates .oldData = true)
    (hnew : services.allocates .data = true) :
    (¬ Erases owner.bytes v.data 0 lists ∧
        setupDeleteCert services (some owner) (some v) = .ok (.notFound, some v)) ∨
      (Erases owner.bytes v.data 0 lists ∧ ∃ tail, setupDeleteCert services (some owner) (some v) =
        writeBack services v (listBytes ((keptLists owner.bytes v.data 0 lists).filter fun list =>
          list.entries ≠ []) ++ tail)
          (listBytes ((keptLists owner.bytes v.data 0 lists).filter fun list => list.entries ≠ [])).length) := by
  have hlength : v.data.length = (listBytes lists).length + rest.length := by rw [hdata, List.length_append]
  have hfewer := length_le_listBytes lists
  obtain ⟨n, hn⟩ : ∃ n, v.data.length + 1 = lists.length + (n + 1) := ⟨v.data.length - lists.length, by omega⟩
  obtain ⟨erased, tail, hwalk, hcert, hitem, hdata₁, hoffset₁, hlength₁, hfound⟩ := eraseLists_lists owner.bytes
    v.data lists rest (n + 1) [] [] (List.replicate v.data.length 0)
    ⟨0, v.data.length, List.replicate v.data.length 0, 0, false⟩ rfl hdata (congrArg List.length hdata) rfl rfl
    (by rw [List.length_replicate]; omega) hinside v.size_lt
    (by rw [List.length_replicate]; exact v.size_lt)
  have herase := hwalk.trans (eraseLists_stops owner.bytes v.data hdata hstops
    hcert hitem)
  rw [← hn] at herase
  rw [List.nil_append] at hdata₁ hoffset₁
  rw [List.length_nil] at hdata₁ hoffset₁ hfound
  rw [List.length_replicate] at hlength₁
  have hfound' : erased.isItemFound = true ↔ Erases owner.bytes v.data 0 lists :=
    hfound.trans (or_iff_right Bool.false_ne_true)
  have hshorter := length_keptLists_le owner.bytes v.data 0 lists
  have hruns := deleteWalks_of_erase hold hnew herase (keptLists owner.bytes v.data 0 lists) 0 tail hdata₁
    hoffset₁ hlength₁ (by omega) (.inl rfl)
  refine hruns.imp (fun ⟨hnone, hrun⟩ => ⟨fun h => ?_, hrun⟩) fun ⟨hsome, hrun⟩ => ⟨hfound'.mp hsome, hrun⟩
  rw [hfound'.mpr h] at hnone
  cases hnone

end Quark.SecureBoot.Proofs
