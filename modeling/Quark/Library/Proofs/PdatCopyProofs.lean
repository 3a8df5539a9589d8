import Quark.Library.PlatformDataArea
import Quark.Library.Proofs.Crc32Proofs

/-!
# What an area holds

The checksum of an area is one of the bytes of its body, so that two areas with the same bytes are both
valid or both not.
-/

namespace Quark.PlatformDataLib

open Machine Crc32

/-! ## Validity -/

/-- An area that `PDatLibValidateArea` accepts. -/
structure Valid (rd : Mem) (area : Nat) : Prop where
  ne_null : area ≠ 0
  identifier : areaIdentifier rd area = pdatIdentifier
  length_le : areaLength rd area ≤ pcdPlatformDataMaxLen
  length_pos : 0 < areaLength rd area
  body_ne_null : areaBody area ≠ 0
  crc : crcOf (rd.bytes (areaBody area) (areaLength rd area)) = areaCrc rd area

variable {rd : Mem} {area : Nat}

theorem header_of_success {doCrcCheck : Bool} {calcCrc : Nat}
    (h : pDatLibValidateArea rd area doCrcCheck calcCrc = .success) :
    area ≠ 0 ∧ areaIdentifier rd area = pdatIdentifier ∧ areaLength rd area ≤ pcdPlatformDataMaxLen := by
  unfold pDatLibValidateArea at h
  by_cases h0 : area = 0
  · rw [if_pos h0] at h
    cases h
  rw [if_neg h0] at h
  by_cases hid : areaIdentifier rd area ≠ pdatIdentifier
  · rw [if_pos hid] at h
    cases h
  rw [if_neg hid] at h
  by_cases hlen : pcdPlatformDataMaxLen < areaLength rd area
  · rw [if_pos hlen] at h
    cases h
  exact ⟨h0, not_not.mp hid, Nat.not_lt.mp hlen⟩

theorem valid_of_success {calcCrc : Nat} (h : pDatLibValidateArea rd area true calcCrc = .success) :
    Valid rd area := by
  obtain ⟨h0, hid, hlen⟩ := header_of_success h
  unfold pDatLibValidateArea at h
  rw [if_neg h0, if_neg (not_not.mpr hid), if_neg (Nat.not_lt.mpr hlen), if_pos rfl] at h
  by_cases hempty : areaLength rd area = 0 ∨ areaBody area = 0
  · unfold platformCalculateCrc32 at h
    rw [if_pos hempty] at h
    simp only at h
    split at h <;> cases h
  obtain ⟨hpos, hbody⟩ := not_or.mp hempty
  rw [platformCalculateCrc32_eq hpos hbody] at h
  simp only at h
  by_cases hcrc : crcOf (rd.bytes (areaBody area) (areaLength rd area)) ≠ areaCrc rd area
  · rw [if_pos hcrc] at h
    cases h
  exact ⟨h0, hid, hlen, Nat.pos_of_ne_zero hpos, hbody, not_not.mp hcrc⟩

theorem Valid.success (h : Valid rd area) (doCrcCheck : Bool) (calcCrc : Nat) :
    pDatLibValidateArea rd area doCrcCheck calcCrc = .success := by
  unfold pDatLibValidateArea
  rw [if_neg h.ne_null, if_neg (not_not.mpr h.identifier), if_neg (Nat.not_lt.mpr h.length_le)]
  cases doCrcCheck with
  | false => rfl
  | true =>
    rw [if_pos rfl, platformCalculateCrc32_eq h.length_pos.ne' h.body_ne_null]
    exact if_neg (not_not.mpr h.crc)

theorem pDatLibGetSystemAreaPointer_of_valid (h : Valid rd pcdPlatformDataBaseAddress) (doCrcCheck : Bool)
    (calcCrc : Nat) :
    pDatLibGetSystemAreaPointer rd doCrcCheck calcCrc = some pcdPlatformDataBaseAddress := by
  unfold pDatLibGetSystemAreaPointer
  rw [h.success]
  rfl

theorem areaBody_eq (h : area + sizeofPdatAreaHeader + areaLength rd area < 0x100000000) :
    areaBody area = area + sizeofPdatAreaHeader :=
  u32_of_lt (by omega)

theorem limit_eq (h : area + sizeofPdatAreaHeader + areaLength rd area < 0x100000000) :
    u32 (areaBody area + areaLength rd area) = area + sizeofPdatAreaHeader + areaLength rd area := by
  rw [areaBody_eq h, u32_of_lt h]

/-! ## Items -/

theorem length_eq (c : PdatItem) :
    c.length = sizeofPdatItemHeader + ((c.bytes.getD 2 0).toNat + 256 * (c.bytes.getD 3 0).toNat) :=
  c.framed

theorem sizeof_le_length (c : PdatItem) : 16 ≤ c.length := c.header_le

section Fill

variable {a limit : Nat} {c : PdatItem} {items : List PdatItem}

theorem itemIdentifier_of_fill (h : Record.Fill rd limit a (c :: items)) :
    itemIdentifier rd a = c.identifier := by
  have hlen := sizeof_le_length c
  unfold itemIdentifier Mem.rd16 PdatItem.identifier
  rw [← h.bytes, Mem.getD_bytes (by omega), Mem.getD_bytes (by omega)]
  rfl

theorem itemLength_of_fill (h : Record.Fill rd limit a (c :: items)) :
    sizeofPdatItemHeader + itemLength rd a = c.length := by
  have hlen := sizeof_le_length c
  rw [length_eq]
  unfold itemLength Mem.rd16
  rw [← h.bytes, Mem.getD_bytes (by omega), Mem.getD_bytes (by omega), Nat.add_assoc]

theorem length_read (rd : Mem) (a : Nat) :
    (Record.read itemFraming rd a).length = sizeofPdatItemHeader + itemLength rd a := by
  rw [Record.read_length]
  show sizeofPdatItemHeader + (((rd.bytes a 16).getD 2 0).toNat + 256 * ((rd.bytes a 16).getD 3 0).toNat) = _
  rw [Mem.getD_bytes (by decide), Mem.getD_bytes (by decide)]
  unfold itemLength Mem.rd16
  rw [Nat.add_assoc]

theorem next_of_fill (h : Record.Fill rd limit a (c :: items)) (hlimit : limit < 0x100000000) :
    u32 (a + sizeofPdatItemHeader + itemLength rd a) = a + c.length := by
  have hle := h.head_le
  rw [Nat.add_assoc, itemLength_of_fill h, u32_of_lt (by omega)]

theorem walks_findNextBody {σ : Type} (filter : Nat) (hlimit : limit < 0x100000000) :
    Record.Walks (findNextBody rd filter : FindContext → Exec σ _) rd limit (PdatItem.selectedBy filter)
      (fun a => ⟨limit, a⟩) (fun a => (some a, ⟨limit, a⟩)) (none, ⟨limit, limit⟩) where
  ends s := by
    unfold findNextBody
    rw [if_pos (Nat.le_refl limit)]
    rfl
  hits s a c items h hc := by
    have hlt : a < limit := Nat.lt_of_lt_of_le (Nat.lt_add_of_pos_right c.length_pos) h.head_le
    unfold findNextBody
    rw [if_neg (Nat.not_le.mpr hlt)]
    by_cases hany : filter = findAnyItemFilter
    · rw [if_pos hany]
      rfl
    · rw [if_neg hany, itemIdentifier_of_fill h, if_pos ((of_decide_eq_true hc).resolve_left hany)]
      rfl
  passes s a c items h hc := by
    have hlt : a < limit := Nat.lt_of_lt_of_le (Nat.lt_add_of_pos_right c.length_pos) h.head_le
    have hnot := of_decide_eq_false hc
    unfold findNextBody
    rw [if_neg (Nat.not_le.mpr hlt), if_neg fun h => hnot (.inl h), itemIdentifier_of_fill h,
      if_neg fun h => hnot (.inr h), next_of_fill h hlimit]
    rfl

theorem walks_findItemBody {σ : Type} (itemId : Nat) (hlimit : limit < 0x100000000) :
    Record.Walks (findItemBody rd itemId limit : Nat → Exec σ _) rd limit
      (fun c => decide (PdatItem.identifier c = itemId)) id some none where
  ends s := by
    unfold findItemBody
    rw [id, if_pos (Nat.le_refl limit)]
    rfl
  hits s a c items h hc := by
    have hlt : a < limit := Nat.lt_of_lt_of_le (Nat.lt_add_of_pos_right c.length_pos) h.head_le
    unfold findItemBody
    rw [id, if_neg (Nat.not_le.mpr hlt), itemIdentifier_of_fill h, if_pos (of_decide_eq_true hc)]
    rfl
  passes s a c items h hc := by
    have hlt : a < limit := Nat.lt_of_lt_of_le (Nat.lt_add_of_pos_right c.length_pos) h.head_le
    unfold findItemBody
    rw [id, if_neg (Nat.not_le.mpr hlt), itemIdentifier_of_fill h, if_neg (of_decide_eq_false hc),
      next_of_fill h hlimit]
    rfl

/-- What `FindNext` returns when its loop starts at the first one of the items. -/
def findIn (filter limit a : Nat) (items : List PdatItem) : Option Nat × FindContext :=
  ((Record.locate (PdatItem.selectedBy filter) a items).map fun l => (some l.1, ⟨limit, l.1⟩)).getD
    (none, ⟨limit, limit⟩)

theorem findIn_any_cons (limit a : Nat) (c : PdatItem) (items : List PdatItem) :
    findIn findAnyItemFilter limit a (c :: items) = (some a, ⟨limit, a⟩) := rfl

variable {σ : Type} {s : σ} {fuel : Nat}

theorem loop_findNextBody (filter : Nat) (h : Record.Fill rd limit a items) (hlimit : limit < 0x100000000)
    (hfuel : items.length < fuel) :
    Exec.loop fuel (findNextBody rd filter) ⟨limit, a⟩ s = .ret (findIn filter limit a items) s :=
  (walks_findNextBody filter hlimit).loop h hfuel

theorem pDatLibFindNextWithFilter_eq (filter : Nat) (h : Record.Fill rd limit a (c :: items))
    (hlimit : limit < 0x100000000) (hfuel : items.length < fuel) :
    pDatLibFindNextWithFilter fuel rd filter ⟨limit, a⟩ s =
      .ret (findIn filter limit (a + c.length) items) s := by
  show Exec.loop fuel (findNextBody rd filter)
    ⟨limit, u32 (a + sizeofPdatItemHeader + itemLength rd a)⟩ s = _
  rw [next_of_fill h hlimit]
  exact loop_findNextBody filter h.tail hlimit hfuel

end Fill

section Search

variable {σ : Type} {items : List PdatItem} {fuel : Nat} (userArea : Option Nat) (filter calcCrc : Nat)
  (ctx₀ : FindContext) (s : σ)

theorem pDatLibFindFirstWithFilter_start
    (hvalid : userArea = none → Valid rd pcdPlatformDataBaseAddress) :
    pDatLibFindFirstWithFilter fuel rd userArea filter calcCrc ctx₀ s =
      Exec.loop fuel (findNextBody rd filter) (startContext rd (areaOf userArea)) s := by
  unfold pDatLibFindFirstWithFilter
  cases userArea with
  | some area => rfl
  | none =>
    simp only
    rw [pDatLibGetSystemAreaPointer_of_valid (hvalid rfl)]
    rfl

theorem pDatLibFindFirstWithFilter_eq
    (hvalid : userArea = none → Valid rd pcdPlatformDataBaseAddress)
    (hfits : areaOf userArea + sizeofPdatAreaHeader + areaLength rd (areaOf userArea) < 0x100000000)
    (hitems : HasItems rd (areaOf userArea) items) (hfuel : items.length < fuel) :
    pDatLibFindFirstWithFilter fuel rd userArea filter calcCrc ctx₀ s =
      .ret (findIn filter (areaOf userArea + sizeofPdatAreaHeader + areaLength rd (areaOf userArea))
        (areaOf userArea + sizeofPdatAreaHeader) items) s := by
  rw [pDatLibFindFirstWithFilter_start userArea filter calcCrc ctx₀ s hvalid]
  unfold startContext
  rw [limit_eq hfits, areaBody_eq hfits]
  exact loop_findNextBody filter hitems hfits hfuel

end Search

/-! ## Filtered copies of an area

The loop of `PDatLibCopyAreaWithFilterOut` comes by every item. `Copied` is what it has made of the
buffer once it is done with some of them.
-/

open Machine Crc32 Record

variable {m t : Mem} {area dest filter : Nat} {items done rest : List PdatItem} {c : PdatItem}

def droppedItems (filter : Nat) (items : List PdatItem) : List PdatItem :=
  items.filter fun c => !c.keptBy filter

theorem keptItems_append (filter : Nat) (items items' : List PdatItem) :
    keptItems filter (items ++ items') = keptItems filter items ++ keptItems filter items' :=
  List.filter_append items items'

theorem keptItems_of_dropped (h : droppedItems filter items = []) : keptItems filter items = items := by
  refine List.filter_eq_self.mpr fun c hc => ?_
  have hnot := List.filter_eq_nil_iff.mp h c hc
  rwa [Bool.not_eq_true, Bool.not_eq_false'] at hnot

theorem droppedItems_keptItems (filter : Nat) (items : List PdatItem) :
    droppedItems filter (keptItems filter items) = [] := by
  refine List.filter_eq_nil_iff.mpr fun c hc => ?_
  rw [(List.mem_filter.mp hc).2]
  exact Bool.false_ne_true

theorem length_kept_add_dropped (filter : Nat) (items : List PdatItem) :
    (flat (keptItems filter items)).length + (flat (droppedItems filter items)).length =
      (flat items).length :=
  length_flat_filter_add (PdatItem.keptBy filter) items

theorem length_dropped_append (filter : Nat) (done : List PdatItem) (c : PdatItem) :
    (droppedItems filter (done ++ [c])).length =
      if (!c.keptBy filter) = true then (droppedItems filter done).length + 1
      else (droppedItems filter done).length := by
  unfold droppedItems
  rw [List.filter_append, List.length_append]
  cases hc : c.keptBy filter <;> simp [hc]

structure CopySetup (m : Mem) (area dest : Nat) (items : List PdatItem) : Prop where
  hasItems : HasItems m area items
  fits : area + sizeofPdatAreaHeader + areaLength m area < 0x100000000
  buffer : IsBuffer m area dest

structure Copied (m : Mem) (area dest filter : Nat) (done : List PdatItem) (t : Mem) : Prop where
  source : m.Agree t area (area + sizeofPdatAreaHeader + areaLength m area)
  identifier : areaIdentifier t dest = areaIdentifier m area
  length : areaLength t dest + (flat (droppedItems filter done)).length = areaLength m area
  crc : areaCrc t dest = areaCrc m area
  header : droppedItems filter done = [] →
    t.bytes dest sizeofPdatAreaHeader = m.bytes area sizeofPdatAreaHeader
  body : Laid t (dest + sizeofPdatAreaHeader) (keptItems filter done)

def copyHead (area dest filter limit : Nat) (done : List PdatItem) : CopyLocals where
  item := area + sizeofPdatAreaHeader + (flat done).length
  ctx := ⟨limit, area + sizeofPdatAreaHeader + (flat done).length⟩
  currMemLocation := dest + sizeofPdatAreaHeader + (flat (keptItems filter done)).length
  filteredCount := (droppedItems filter done).length

def passed (t : Mem) (area dest filter : Nat) (done : List PdatItem) (c : PdatItem) : Mem :=
  if c.keptBy filter then
    t.copy t (dest + sizeofPdatAreaHeader + (flat (keptItems filter done)).length)
      (area + sizeofPdatAreaHeader + (flat done).length) c.length
  else t.wr32 (u32 (dest + 4)) (sub32 (areaLength t dest) c.length)

namespace CopySetup

variable (S : CopySetup m area dest items)

include S

theorem apart : dest + (sizeofPdatAreaHeader + areaLength m area) ≤ area ∨
    area + (sizeofPdatAreaHeader + areaLength m area) ≤ dest :=
  S.buffer.apart.ends (Nat.add_pos_left (by decide) _) (Nat.add_pos_left (by decide) _)

theorem length_flat : (flat items).length = areaLength m area := by
  have hstop := S.hasItems.stop
  omega

theorem fill_rest (hsplit : done ++ rest = items)
    (h : m.Agree t area (area + sizeofPdatAreaHeader + areaLength m area)) :
    Fill t (area + sizeofPdatAreaHeader + areaLength m area)
      (area + sizeofPdatAreaHeader + (flat done).length) rest := by
  have hfill := S.hasItems
  have hfits := S.fits
  unfold HasItems at hfill
  rw [← hsplit] at hfill
  exact hfill.drop.congr fun k hk => h.at_add hfits.le (by omega) hk

theorem copied_nil (filter : Nat) :
    Copied m area dest filter [] (m.copy m dest area sizeofPdatAreaHeader) := by
  have hin := S.buffer.inside
  have hfits := S.fits
  have hapart := S.apart
  change dest + 12 + areaLength m area < _ at hin
  change area + 12 + areaLength m area < _ at hfits
  change dest + (12 + areaLength m area) ≤ area ∨ area + (12 + areaLength m area) ≤ dest at hapart
  have hbytes : (m.copy m dest area 12).bytes dest 12 = m.bytes area 12 :=
    Mem.bytes_copy m m area (by omega)
  have hsource : m.Agree (m.copy m dest area 12) area (area + 12 + areaLength m area) := by
    refine Mem.agree_copy m m ?_ ?_ ?_ ?_ <;> omega
  exact {
    source := hsource
    identifier := Mem.rd32_of_bytes hbytes (k := 0) (by decide)
    length := Mem.rd32_of_bytes hbytes (k := 4) (by decide)
    crc := Mem.rd32_of_bytes hbytes (k := 8) (by decide)
    header := fun _ => hbytes
    body := laid_nil }

theorem length_le (filter : Nat) (hsplit : done ++ c :: rest = items) :
    (flat (keptItems filter done)).length + (flat (droppedItems filter done)).length + c.length ≤
      areaLength m area := by
  rw [← S.length_flat, ← hsplit, length_kept_add_dropped, flat_append, flat_cons]
  simp only [List.length_append, Record.length]
  omega

theorem agree_of_buffer {t t' : Mem} (h : m.Agree t area (area + sizeofPdatAreaHeader + areaLength m area))
    (hstep : ∀ lo hi, hi ≤ dest ∨ dest + 12 + areaLength m area ≤ lo → hi ≤ 0x100000000 →
      t.Agree t' lo hi) :
    m.Agree t' area (area + sizeofPdatAreaHeader + areaLength m area) := by
  have hapart := S.apart
  have hfits := S.fits
  change area + 12 + areaLength m area < _ at hfits
  change dest + (12 + areaLength m area) ≤ area ∨ area + (12 + areaLength m area) ≤ dest at hapart
  change m.Agree t area (area + 12 + areaLength m area) at h
  exact h.trans (hstep area (area + 12 + areaLength m area) (by omega) hfits.le)

theorem copied_dropped (hsplit : done ++ c :: rest = items) (hc : c.keptBy filter = false)
    (h : Copied m area dest filter done t) :
    Copied m area dest filter (done ++ [c])
      (t.wr32 (u32 (dest + 4)) (sub32 (areaLength t dest) c.length)) := by
  have hin := S.buffer.inside
  have hle := S.length_le filter hsplit
  have hlength := h.length
  have hkept : keptItems filter (done ++ [c]) = keptItems filter done := by
    rw [keptItems_append]
    simp [keptItems, hc]
  have hdropped : droppedItems filter (done ++ [c]) = droppedItems filter done ++ [c] := by
    unfold droppedItems
    rw [List.filter_append]
    simp [hc]
  change dest + 12 + areaLength m area < _ at hin
  have hlt : areaLength t dest < 0x100000000 := Mem.rd32_lt t (dest + 4)
  rw [u32_of_lt (by omega), sub32_of_le (by omega) hlt]
  have hagree : ∀ lo hi, hi ≤ dest + 4 ∨ dest + 8 ≤ lo → hi ≤ 0x100000000 →
      t.Agree (t.wr32 (dest + 4) (areaLength t dest - c.length)) lo hi :=
    fun lo hi hd hhi => Mem.agree_wr32 t (by omega) hhi hd
  have hword : areaLength (t.wr32 (dest + 4) (areaLength t dest - c.length)) dest =
      areaLength t dest - c.length :=
    Mem.rd32_wr32 t (by omega) (by omega)
  exact {
    source := S.agree_of_buffer h.source fun lo hi hd hhi => hagree lo hi (by omega) hhi
    identifier := ((hagree dest (dest + 4) (by omega) (by omega)).rd32 (by omega) (by omega)
      (by omega)).trans h.identifier
    length := by
      rw [hword, hdropped, flat_append, List.length_append]
      simp only [flat_cons, flat_nil, List.append_nil, ← Record.length.eq_1]
      omega
    crc := ((hagree (dest + 8) (dest + 12) (by omega) (by omega)).rd32 (by omega) (by omega)
      (by omega)).trans h.crc
    header := fun hnil => by
      rw [hdropped] at hnil
      exact absurd hnil (by simp)
    body := by
      rw [hkept]
      refine h.body.congr fun k hk => ?_
      exact (hagree (dest + 12) (dest + 12 + areaLength m area) (by omega) (by omega)).at_add
        (a := dest + 12) (by omega) (by omega) (by omega) }

theorem copied_kept (hsplit : done ++ c :: rest = items) (hc : c.keptBy filter = true)
    (h : Copied m area dest filter done t) :
    Copied m area dest filter (done ++ [c])
      (t.copy t (dest + sizeofPdatAreaHeader + (flat (keptItems filter done)).length)
        (area + sizeofPdatAreaHeader + (flat done).length) c.length) := by
  have hin := S.buffer.inside
  have hle := S.length_le filter hsplit
  have hlength := h.length
  have hpos := c.length_pos
  have hkept : keptItems filter (done ++ [c]) = keptItems filter done ++ [c] := by
    rw [keptItems_append]
    simp [keptItems, hc]
  have hdropped : droppedItems filter (done ++ [c]) = droppedItems filter done := by
    unfold droppedItems
    rw [List.filter_append]
    simp [hc]
  have hbytes := (S.fill_rest hsplit h.source).bytes
  change dest + 12 + areaLength m area < _ at hin
  show Copied m area dest filter (done ++ [c])
    (t.copy t (dest + 12 + (flat (keptItems filter done)).length) (area + 12 + (flat done).length) c.length)
  have hagree : ∀ lo hi, hi ≤ dest + 12 + (flat (keptItems filter done)).length ∨
      dest + 12 + (flat (keptItems filter done)).length + c.length ≤ lo → hi ≤ 0x100000000 →
      t.Agree (t.copy t (dest + 12 + (flat (keptItems filter done)).length)
        (area + 12 + (flat done).length) c.length) lo hi :=
    fun lo hi hd hhi => Mem.agree_copy t t (by omega) (by omega) hhi hd
  have hheader := hagree dest (dest + 12) (by omega) (by omega)
  exact {
    source := S.agree_of_buffer h.source fun lo hi hd hhi => hagree lo hi (by omega) hhi
    identifier := (hheader.rd32 (by omega) (by omega) (by omega)).trans h.identifier
    length := by
      rw [hdropped, ← h.length]
      exact congrArg (· + _) (hheader.rd32 (by omega) (by omega) (by omega))
    crc := (hheader.rd32 (by omega) (by omega) (by omega)).trans h.crc
    header := fun hnil => by
      rw [hdropped] at hnil
      exact (hheader.bytes (n := 12) (by omega) (by omega) (by omega)).trans (h.header hnil)
    body := by
      rw [hkept, laid_append]
      refine ⟨h.body.congr fun k hk => ?_, laid_cons.mpr ⟨?_, laid_nil⟩⟩
      · exact (hagree (dest + 12) (dest + 12 + (flat (keptItems filter done)).length) (by omega)
          (by omega)).at_add (a := dest + 12) (by omega) (by omega) (by omega)
      · rw [Mem.bytes_copy t t _ (by omega)]
        exact hbytes }

theorem copied_passed (hsplit : done ++ c :: rest = items) (h : Copied m area dest filter done t) :
    Copied m area dest filter (done ++ [c]) (passed t area dest filter done c) := by
  unfold passed
  cases hc : c.keptBy filter with
  | true => exact S.copied_kept hsplit hc h
  | false => exact S.copied_dropped hsplit hc h

theorem copyHead_append (filter limit : Nat) (hsplit : done ++ c :: rest = items) :
    copyHead area dest filter limit (done ++ [c]) = {
      item := area + sizeofPdatAreaHeader + (flat done).length + c.length
      ctx := ⟨limit, area + sizeofPdatAreaHeader + (flat done).length + c.length⟩
      currMemLocation :=
        if (!c.keptBy filter) = true then
          dest + sizeofPdatAreaHeader + (flat (keptItems filter done)).length
        else u32 (dest + sizeofPdatAreaHeader + (flat (keptItems filter done)).length + c.length)
      filteredCount :=
        if (!c.keptBy filter) = true then (droppedItems filter done).length + 1
        else (droppedItems filter done).length } := by
  have hin := S.buffer.inside
  have hle := S.length_le filter hsplit
  have hdone : (flat (done ++ [c])).length = (flat done).length + c.length := by
    simp [Record.length]
  unfold copyHead
  rw [hdone, length_dropped_append, keptItems_append, ← Nat.add_assoc]
  congr 1
  change dest + 12 + areaLength m area < _ at hin
  cases hc : c.keptBy filter with
  | true =>
    rw [if_neg (by simp)]
    show dest + 12 + (flat (keptItems filter done ++ keptItems filter [c])).length =
      u32 (dest + 12 + (flat (keptItems filter done)).length + c.length)
    rw [u32_of_lt (by omega)]
    simp [keptItems, hc, Record.length, Nat.add_assoc]
  | false =>
    rw [if_pos (by simp)]
    simp [keptItems, hc]

theorem copyHead_nil (filter : Nat) :
    copyHead area dest filter (area + sizeofPdatAreaHeader + areaLength m area) [] = copyStart m area dest := by
  have hin := S.buffer.inside
  unfold copyStart startContext
  rw [limit_eq S.fits, areaBody_eq S.fits, u32_of_lt (Nat.lt_of_le_of_lt (Nat.le_add_right _ _) hin)]
  rfl

theorem copyAreaBody_eq {fuel limit : Nat} (hsplit : done ++ c :: rest = items)
    (hlimit : limit = area + sizeofPdatAreaHeader + areaLength m area)
    (h : Copied m area dest filter done t) (hfuel : items.length < fuel) :
    copyAreaBody fuel dest filter (copyHead area dest filter limit done) t =
      .ret (if rest = [] then .inr (droppedItems filter (done ++ [c])).length
        else .inl (copyHead area dest filter limit (done ++ [c]))) (passed t area dest filter done c) := by
  have hfill := S.fill_rest hsplit h.source
  have hfill' := S.fill_rest hsplit (S.copied_passed hsplit h).source
  have hrest : rest.length < fuel := by
    rw [← hsplit, List.length_append, List.length_cons] at hfuel
    omega
  have hnext := pDatLibFindNextWithFilter_eq (s := passed t area dest filter done c) findAnyItemFilter
    hfill' S.fits hrest
  have hfiltered : isFilteredOut filter (itemIdentifier t (area + sizeofPdatAreaHeader + (flat done).length)) =
      !c.keptBy filter := by
    rw [itemIdentifier_of_fill hfill]
    unfold PdatItem.keptBy
    rw [Bool.not_not]
  subst hlimit
  have hmodify : Exec.modify (fun m => if (!c.keptBy filter) = true then
      m.wr32 (u32 (dest + 4)) (sub32 (areaLength m dest) c.length)
      else m.copy m (dest + sizeofPdatAreaHeader + (flat (keptItems filter done)).length)
        (area + sizeofPdatAreaHeader + (flat done).length) c.length) t =
      .ret () (passed t area dest filter done c) := by
    show Outcome.ret () _ = _
    unfold passed
    cases c.keptBy filter <;> rfl
  unfold copyAreaBody
  rw [Exec.bind_of_ret (x := Exec.get) (b := t) rfl]
  simp only [copyHead, hfiltered, itemLength_of_fill hfill]
  rw [Exec.bind_of_ret hmodify,
    Exec.bind_of_ret (x := Exec.get) (b := passed t area dest filter done c) rfl,
    Exec.bind_of_ret hnext]
  cases rest with
  | nil =>
    rw [if_pos rfl, length_dropped_append]
    rfl
  | cons c' rest =>
    rw [if_neg (List.cons_ne_nil c' rest), findIn_any_cons]
    have hhead := S.copyHead_append filter (area + sizeofPdatAreaHeader + areaLength m area) hsplit
    exact congrArg (fun l => Outcome.ret (Sum.inl l) (passed t area dest filter done c)) hhead.symm

theorem loop_copyAreaBody {fuel n limit : Nat} (hlimit : limit = area + sizeofPdatAreaHeader + areaLength m area)
    (hfuel : items.length < fuel) (hsplit : done ++ c :: rest = items)
    (h : Copied m area dest filter done t) (hn : rest.length < n) :
    ∃ t', Exec.loop n (copyAreaBody fuel dest filter) (copyHead area dest filter limit done) t =
        .ret (droppedItems filter items).length t' ∧ Copied m area dest filter items t' := by
  obtain ⟨n, rfl⟩ : ∃ k, n = k + 1 := ⟨n - 1, by omega⟩
  have hbody := S.copyAreaBody_eq hsplit hlimit h hfuel
  have hpassed := S.copied_passed hsplit h
  induction rest generalizing done c t n with
  | nil =>
    rw [if_pos rfl, hsplit] at hbody
    rw [hsplit] at hpassed
    exact ⟨_, Exec.loop_of_inr hbody n, hpassed⟩
  | cons c' rest ih =>
    have hsplit' : (done ++ [c]) ++ c' :: rest = items := by
      rw [List.append_assoc]
      exact hsplit
    rw [List.length_cons] at hn
    obtain ⟨n, rfl⟩ : ∃ k, n = k + 1 := ⟨n - 1, by omega⟩
    rw [if_neg (List.cons_ne_nil c' rest)] at hbody
    rw [Exec.loop_of_inl hbody]
    exact ih hsplit' hpassed n (by omega) (S.copyAreaBody_eq hsplit' hlimit hpassed hfuel)
      (S.copied_passed hsplit' hpassed)

theorem areaLength_copied (h : Copied m area dest filter items t) :
    areaLength t dest = (flat (keptItems filter items)).length := by
  have hlength := h.length
  have hsum := length_kept_add_dropped filter items
  have hflat := S.length_flat
  omega

theorem body_copied (h : Copied m area dest filter items t) :
    t.bytes (areaBody dest) (areaLength t dest) = flat (keptItems filter items) := by
  have hbody : areaBody dest = u32 (dest + sizeofPdatAreaHeader) := rfl
  rw [hbody, Mem.bytes_u32, S.areaLength_copied h]
  exact h.body

end CopySetup

def checked (t : Mem) (dest filter : Nat) (items : List PdatItem) : Mem :=
  if droppedItems filter items = [] ∨ keptItems filter items = [] then t
  else t.wr32 (u32 (dest + 8)) (crcOf (flat (keptItems filter items)))

namespace CopySetup

variable (S : CopySetup m area dest items)

include S

theorem agree_checked {lo hi : Nat} (hhi : hi ≤ 0x100000000) (h : hi ≤ dest + 8 ∨ dest + 12 ≤ lo) :
    t.Agree (checked t dest filter items) lo hi := by
  have hin := S.buffer.inside
  change dest + 12 + areaLength m area < _ at hin
  unfold checked
  split
  · exact fun _ _ _ => rfl
  · rw [u32_of_lt (by omega)]
    exact Mem.agree_wr32 t (by omega) hhi h

theorem areaLength_checked (h : Copied m area dest filter items t) :
    areaLength (checked t dest filter items) dest = (flat (keptItems filter items)).length := by
  have hin := S.buffer.inside
  change dest + 12 + areaLength m area < _ at hin
  have hagree : t.Agree (checked t dest filter items) dest (dest + 8) :=
    S.agree_checked (by omega) (by omega)
  exact (hagree.rd32 (by omega) (by omega) (by omega)).trans (S.areaLength_copied h)

theorem length_kept_le (filter : Nat) : (flat (keptItems filter items)).length ≤ areaLength m area := by
  rw [← S.length_flat, ← length_kept_add_dropped filter items]
  exact Nat.le_add_right _ _

theorem hasItems_checked (h : Copied m area dest filter items t) :
    HasItems (checked t dest filter items) dest (keptItems filter items) := by
  have hin := S.buffer.inside
  have hle := S.length_kept_le filter
  change dest + 12 + areaLength m area < _ at hin
  have hagree : t.Agree (checked t dest filter items) (dest + 12) (dest + 12 + areaLength m area) :=
    S.agree_checked (by omega) (by omega)
  refine ⟨h.body.congr fun k hk => ?_, by rw [S.areaLength_checked h]⟩
  exact hagree.at_add (a := dest + 12) (by omega) (by omega) (by omega)

theorem areaCrc_checked (hvalid : Valid m area) (h : Copied m area dest filter items t)
    (hkept : keptItems filter items ≠ []) :
    areaCrc (checked t dest filter items) dest = crcOf (flat (keptItems filter items)) := by
  have hin := S.buffer.inside
  change dest + 12 + areaLength m area < _ at hin
  unfold checked
  by_cases hdropped : droppedItems filter items = []
  · rw [if_pos (.inl hdropped)]
    have hbody := S.hasItems.laid
    unfold Laid at hbody
    rw [S.length_flat] at hbody
    rw [keptItems_of_dropped hdropped, h.crc, ← hvalid.crc, ← hbody, areaBody_eq S.fits]
  · rw [if_neg (not_or.mpr ⟨hdropped, hkept⟩), u32_of_lt (by omega)]
    exact Mem.rd32_wr32 t (by omega) (crcOf_lt _)

theorem identifier_checked (hvalid : Valid m area) (h : Copied m area dest filter items t) :
    areaIdentifier (checked t dest filter items) dest = pdatIdentifier := by
  have hin := S.buffer.inside
  change dest + 12 + areaLength m area < _ at hin
  have hagree : t.Agree (checked t dest filter items) dest (dest + 8) :=
    S.agree_checked (by omega) (by omega)
  exact (hagree.rd32 (by omega) (by omega) (by omega)).trans (h.identifier.trans hvalid.identifier)

theorem valid_checked (hvalid : Valid m area) (h : Copied m area dest filter items t) :
    Valid (checked t dest filter items) dest ↔ keptItems filter items ≠ [] := by
  have hin := S.buffer.inside
  have hle := S.length_kept_le filter
  have hlength := S.areaLength_checked h
  change dest + 12 + areaLength m area < _ at hin
  have hbody : areaBody dest = dest + 12 := u32_of_lt (show dest + 12 < 0x100000000 by omega)
  refine ⟨fun hdest hnil => ?_, fun hkept => ?_⟩
  · have hpos := hdest.length_pos
    rw [hlength, hnil] at hpos
    exact absurd hpos (Nat.lt_irrefl 0)
  · obtain ⟨c, rest, hcons⟩ := List.exists_cons_of_ne_nil hkept
    exact {
      ne_null := S.buffer.ne_null
      identifier := S.identifier_checked hvalid h
      length_le := by
        rw [hlength]
        exact hle.trans hvalid.length_le
      length_pos := by
        rw [hlength, hcons, flat_cons, List.length_append]
        exact Nat.add_pos_left c.length_pos _
      body_ne_null := by
        rw [hbody]
        omega
      crc := by
        rw [S.areaCrc_checked hvalid h hkept, hlength, hbody]
        exact congrArg crcOf (S.hasItems_checked h).laid }

theorem success_checked (hvalid : Valid m area) (h : Copied m area dest filter items t) (calcCrc : Nat) :
    pDatLibValidateArea (checked t dest filter items) dest false calcCrc = .success := by
  unfold pDatLibValidateArea
  rw [if_neg S.buffer.ne_null, if_neg (not_not.mpr (S.identifier_checked hvalid h)),
    if_neg (Nat.not_lt.mpr ?_)]
  · rfl
  · rw [S.areaLength_checked h]
    exact (S.length_kept_le filter).trans hvalid.length_le

theorem checksum_eq (h : Copied m area dest filter items t) :
    (Exec.when (0 < (droppedItems filter items).length) do
      let m ← Exec.get
      match platformCalculateCrc32 m (areaBody dest) (areaLength m dest) with
      | .ok crc => Exec.modify fun m => m.wr32 (u32 (dest + 8)) crc
      | .error _ => pure ()) t = .ret () (checked t dest filter items) := by
  have hin := S.buffer.inside
  change dest + 12 + areaLength m area < _ at hin
  have hbody : areaBody dest = dest + 12 := u32_of_lt (show dest + 12 < 0x100000000 by omega)
  have hlength := S.areaLength_copied h
  unfold checked Exec.when
  by_cases hdropped : droppedItems filter items = []
  · rw [if_neg (by rw [hdropped]; exact Nat.lt_irrefl 0), if_pos (.inl hdropped)]
    rfl
  rw [if_pos (List.length_pos_iff.mpr hdropped), Exec.bind_of_ret (x := Exec.get) (b := t) rfl]
  by_cases hkept : keptItems filter items = []
  · rw [if_pos (.inr hkept)]
    unfold platformCalculateCrc32
    rw [hlength, hkept, if_pos (.inl rfl)]
    rfl
  · obtain ⟨c, rest, hcons⟩ := List.exists_cons_of_ne_nil hkept
    have hpos : areaLength t dest ≠ 0 := by
      rw [hlength, hcons, flat_cons, List.length_append]
      exact (Nat.add_pos_left c.length_pos _).ne'
    rw [if_neg (not_or.mpr ⟨hdropped, hkept⟩), platformCalculateCrc32_eq hpos (by rw [hbody]; omega),
      S.body_copied h]
    rfl

theorem ne_nil (hvalid : Valid m area) : items ≠ [] := by
  intro hnil
  have hpos := hvalid.length_pos
  rw [← S.length_flat, hnil] at hpos
  exact absurd hpos (Nat.lt_irrefl 0)

theorem pDatLibCopyAreaWithFilterOut_eq (hvalid : Valid m area) (filter calcCrc : Nat) {fuel : Nat}
    (hfuel : items.length < fuel) :
    ∃ t, Copied m area dest filter items t ∧
      pDatLibCopyAreaWithFilterOut fuel dest area filter calcCrc m =
        .ret .success (checked t dest filter items) := by
  obtain ⟨c, rest, hcons⟩ := List.exists_cons_of_ne_nil (S.ne_nil hvalid)
  have hfirst := pDatLibFindFirstWithFilter_eq (some area) findAnyItemFilter calcCrc ⟨0, 0⟩ m nofun S.fits
    S.hasItems hfuel
  have hhead : copyHead area dest filter (area + sizeofPdatAreaHeader + areaLength m area) [] =
      ⟨area + sizeofPdatAreaHeader, ⟨area + sizeofPdatAreaHeader + areaLength m area,
        area + sizeofPdatAreaHeader⟩, u32 (dest + sizeofPdatAreaHeader), 0⟩ := by
    rw [S.copyHead_nil filter, copyStart, startContext, limit_eq S.fits, areaBody_eq S.fits]
  obtain ⟨t, hloop, hcopied⟩ := S.loop_copyAreaBody (n := fuel) rfl hfuel hcons.symm
    (S.copied_nil filter) (by rw [hcons, List.length_cons] at hfuel; omega)
  refine ⟨t, hcopied, ?_⟩
  unfold pDatLibCopyAreaWithFilterOut
  rw [Exec.bind_of_ret (x := Exec.get) (b := m) rfl]
  simp only [hvalid.success, if_neg S.buffer.ne_null, EfiStatus.isError]
  rw [if_neg Bool.false_ne_true, Exec.bind_of_ret hfirst, hcons, findIn_any_cons]
  simp only
  rw [Exec.bind_of_ret (x := Exec.modify _) (b := ()) rfl]
  have harea : areaOf (some area) = area := rfl
  rw [harea, ← hhead, Exec.bind_of_ret hloop, ← hcons]
  refine (Exec.bind_of_ret (S.checksum_eq hcopied)).trans ?_
  rw [Exec.bind_of_ret (x := Exec.get) (b := checked t dest filter items) rfl,
    S.success_checked hvalid hcopied]
  rfl

end CopySetup

/-! ## What the copy holds -/

namespace CopySetup

variable (S : CopySetup m area dest items)

include S

theorem again {again : Nat} (h : Copied m area dest filter items t)
    (hagain : IsBuffer (checked t dest filter items) dest again) :
    CopySetup (checked t dest filter items) dest again (keptItems filter items) where
  hasItems := S.hasItems_checked h
  fits := by
    rw [S.areaLength_checked h]
    exact Nat.lt_of_le_of_lt (Nat.add_le_add_left (S.length_kept_le filter) _) S.buffer.inside
  buffer := hagain

theorem bytes_copied (h : Copied m area dest filter items t) (hdropped : droppedItems filter items = []) :
    t.bytes dest (sizeofPdatAreaHeader + areaLength m area) =
      m.bytes area (sizeofPdatAreaHeader + areaLength m area) := by
  have hbody := h.body
  have hsource := S.hasItems.laid
  unfold Laid at hbody hsource
  rw [keptItems_of_dropped hdropped, S.length_flat] at hbody
  rw [S.length_flat] at hsource
  rw [Mem.bytes_append, Mem.bytes_append, h.header hdropped, hbody, hsource]

theorem copiesItems (hvalid : Valid m area) {calcCrc fuel : Nat} (hfuel : items.length < fuel)
    (hkept : keptItems filter items ≠ []) : CopiesItems m area dest filter calcCrc fuel items := by
  obtain ⟨t, hcopied, hrun⟩ := S.pDatLibCopyAreaWithFilterOut_eq hvalid filter calcCrc hfuel
  have hdest := (S.valid_checked hvalid hcopied).mpr hkept
  refine ⟨_, hrun, ⟨S.areaLength_checked hcopied, S.hasItems_checked hcopied, hdest.success true⟩, ?_⟩
  intro again hagain
  have S' := S.again hcopied hagain
  have hfuel' : (keptItems filter items).length < fuel :=
    Nat.lt_of_le_of_lt (List.length_filter_le _ _) hfuel
  obtain ⟨u, hcopied', hrun'⟩ := S'.pDatLibCopyAreaWithFilterOut_eq hdest filter calcCrc hfuel'
  have hdropped := droppedItems_keptItems filter items
  have hsame : checked u again filter (keptItems filter items) = u := if_pos (.inl hdropped)
  rw [hsame] at hrun'
  exact ⟨u, hrun', S'.bytes_copied hcopied' hdropped⟩

theorem not_copiesItems (hvalid : Valid m area) {calcCrc fuel : Nat} (hfuel : items.length < fuel)
    (hkept : keptItems filter items = []) : ¬ CopiesItems m area dest filter calcCrc fuel items := by
  obtain ⟨t, hcopied, hrun⟩ := S.pDatLibCopyAreaWithFilterOut_eq hvalid filter calcCrc hfuel
  rintro ⟨t', hrun', hcopy, _⟩
  rw [hrun] at hrun'
  injection hrun' with _ ht
  subst ht
  exact (S.valid_checked hvalid hcopied).mp (valid_of_success (hcopy.valid 0)) hkept

end CopySetup

/-- `PDatLibCopyAreaWithFilterOut` makes a filtered copy of an area unless it is to leave out all its
items: the checksum of an empty body is not computed. -/
theorem copiesItems_iff {calcCrc fuel : Nat} (hsuccess : pDatLibValidateArea m area true calcCrc = .success)
    (hitems : HasItems m area items)
    (hfits : area + sizeofPdatAreaHeader + areaLength m area < 0x100000000)
    (hbuffer : IsBuffer m area dest) (hfuel : items.length < fuel) :
    CopiesItems m area dest filter calcCrc fuel items ↔
      ∃ c ∈ items, isFilteredOut filter (PdatItem.identifier c) = false := by
  have S : CopySetup m area dest items := ⟨hitems, hfits, hbuffer⟩
  have hvalid := valid_of_success hsuccess
  have hiff : keptItems filter items ≠ [] ↔ ∃ c ∈ items, isFilteredOut filter (PdatItem.identifier c) = false := by
    unfold keptItems PdatItem.keptBy
    simp [List.filter_eq_nil_iff]
  rw [← hiff]
  refine ⟨fun hcopies hkept => ?_, S.copiesItems hvalid hfuel⟩
  exact S.not_copiesItems hvalid hfuel hkept hcopies

theorem isBuffer_sampleArea : IsBuffer sampleArea 0x1000 0x2000 where
  ne_null := by decide
  inside := by decide
  apart := Range.disjoint_of_ends (by decide) (by decide)

theorem copiesItems_iff_sample :
    CopiesItems sampleArea 0x1000 0x2000 0x10 0 3 [sampleMac0, sampleMac1] ↔
      ∃ c ∈ [sampleMac0, sampleMac1], isFilteredOut 0x10 (PdatItem.identifier c) = false :=
  copiesItems_iff valid_sampleArea hasItems_sampleArea (by decide) isBuffer_sampleArea (by decide)

theorem copy_without_macs_is_invalid :
    pDatLibValidateArea sampleArea 0x1000 true 0 = .success ∧
      HasItems sampleArea 0x1000 [sampleMac0, sampleMac1] ∧ IsBuffer sampleArea 0x1000 0x2000 ∧
      ¬ CopiesItems sampleArea 0x1000 0x2000 findNetworkItems 0 3 [sampleMac0, sampleMac1] := by
  have S : CopySetup sampleArea 0x1000 0x2000 [sampleMac0, sampleMac1] :=
    ⟨hasItems_sampleArea, by decide, isBuffer_sampleArea⟩
  refine ⟨valid_sampleArea, hasItems_sampleArea, isBuffer_sampleArea, ?_⟩
  exact S.not_copiesItems (valid_of_success valid_sampleArea) (by decide) (by decide)

end Quark.PlatformDataLib
