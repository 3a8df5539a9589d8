import Quark.Library.Proofs.PdatCopyProofs

/-!
# What lookups read

Lookups keep to an area exactly when the body is a sequence of whole items, and when their callers stop at
the end of it. The enumerators find one item behind the other, so that they would come to the first one
that is not wholly inside.
-/

namespace Quark.PlatformDataLib

open Machine Record

variable {rd : Mem} {area limit a : Nat} {items rest : List PdatItem} {c : PdatItem}

theorem inside_area {base len : Nat} (h : area ≤ base)
    (h' : base + len ≤ area + sizeofPdatAreaHeader + areaLength rd area) :
    Range.Inside ⟨base, len⟩ (areaRange rd area) :=
  ⟨h, by rw [areaRange, ← Nat.add_assoc]; exact h'⟩

theorem itemRange_le (h : Fill rd limit a (c :: rest)) : a + (itemRange rd a).len ≤ limit := by
  show a + (sizeofPdatItemHeader + itemLength rd a) ≤ limit
  rw [itemLength_of_fill h]
  exact h.head_le

structure Walk (rd : Mem) (area a : Nat) (rest : List PdatItem) : Prop where
  fill : Fill rd (area + sizeofPdatAreaHeader + areaLength rd area) a rest
  le : area + sizeofPdatAreaHeader ≤ a

theorem Walk.tail (h : Walk rd area a (c :: rest)) : Walk rd area (a + c.length) rest :=
  ⟨h.fill.tail, h.le.trans (Nat.le_add_right _ _)⟩

theorem Walk.inside_item (h : Walk rd area a (c :: rest)) :
    (itemRange rd a).Inside (areaRange rd area) :=
  inside_area ((Nat.le_add_right _ _).trans h.le) (itemRange_le h.fill)

theorem inside_header {t : Mem} (h : Fill t (area + sizeofPdatAreaHeader + areaLength rd area) a (c :: rest))
    (ha : area + sizeofPdatAreaHeader ≤ a) {k n : Nat} (hk : k + n ≤ 16) :
    Range.Inside ⟨a + k, n⟩ (areaRange rd area) := by
  have hle := h.head_le
  have hlen := sizeof_le_length c
  refine inside_area (by omega) ?_
  omega

theorem Walk.inside_header (h : Walk rd area a (c :: rest)) {k n : Nat} (hk : k + n ≤ 16) :
    Range.Inside ⟨a + k, n⟩ (areaRange rd area) :=
  PlatformDataLib.inside_header h.fill h.le hk

theorem Walk.findIn (h : Walk rd area a items) (filter : Nat) :
    ∃ b rest, Walk rd area b rest ∧
      findIn filter (area + sizeofPdatAreaHeader + areaLength rd area) a items =
        (if rest = [] then none else some b, ⟨area + sizeofPdatAreaHeader + areaLength rd area, b⟩) := by
  unfold PlatformDataLib.findIn
  cases hl : locate (PdatItem.selectedBy filter) a items with
  | none =>
    refine ⟨_, [], ⟨Fill.nil, ?_⟩, rfl⟩
    exact h.le.trans h.fill.le
  | some l =>
    obtain ⟨before, hsplit, -, -, hplace⟩ := locate_eq_some hl
    have hfill := h.fill
    rw [hsplit] at hfill
    refine ⟨l.1, l.2.1 :: l.2.2, ⟨?_, ?_⟩, rfl⟩
    · rw [hplace]
      exact hfill.drop
    · rw [hplace]
      exact h.le.trans (Nat.le_add_right _ _)

section Search

variable {userArea : Option Nat}

theorem pDatLibFindItem_start {σ : Type} {s : σ} (hvalid : Valid rd (areaOf userArea)) (fuel : Nat)
    (asserts : Bool) (itemId : Nat) (doCrcCheck : Bool) (calcCrc : Nat) :
    pDatLibFindItem fuel asserts rd userArea itemId doCrcCheck calcCrc s =
      Exec.loop fuel (findItemBody rd itemId
          (u32 (areaOf userArea + sizeofPdatAreaHeader + areaLength rd (areaOf userArea))))
        (u32 (areaOf userArea + sizeofPdatAreaHeader)) s := by
  unfold pDatLibFindItem
  cases userArea with
  | none =>
    have harea : pDatLibGetSystemAreaPointer rd doCrcCheck calcCrc = some pcdPlatformDataBaseAddress :=
      pDatLibGetSystemAreaPointer_of_valid hvalid doCrcCheck calcCrc
    simp only [harea]
    rw [Exec.bind_of_ret (b := ()) (t := s)]
    · rfl
    · unfold Exec.when
      rw [if_pos rfl]
      refine assert_of (fun _ => ?_) s
      rw [harea]
      exact Option.some_ne_none _
  | some area =>
    have hsuccess : pDatLibValidateArea rd area doCrcCheck calcCrc = .success :=
      hvalid.success doCrcCheck calcCrc
    simp only [hsuccess]
    rw [Exec.bind_of_ret (b := ()) (t := s)]
    · rfl
    · unfold Exec.when
      rw [if_neg (Option.some_ne_none area)]
      rfl

structure LookupSetup (rd : Mem) (userArea : Option Nat) (items : List PdatItem) : Prop where
  valid : Valid rd (areaOf userArea)
  fits : areaOf userArea + sizeofPdatAreaHeader + areaLength rd (areaOf userArea) < 0x100000000
  hasItems : HasItems rd (areaOf userArea) items

theorem startContext_eq
    (hfits : areaOf userArea + sizeofPdatAreaHeader + areaLength rd (areaOf userArea) < 0x100000000) :
    startContext rd (areaOf userArea) =
      ⟨areaOf userArea + sizeofPdatAreaHeader + areaLength rd (areaOf userArea),
        areaOf userArea + sizeofPdatAreaHeader⟩ := by
  unfold startContext
  rw [limit_eq hfits, areaBody_eq hfits]

theorem valid_system (hvalid : Valid rd (areaOf userArea)) (h : userArea = none) :
    Valid rd pcdPlatformDataBaseAddress := by
  rw [h] at hvalid
  exact hvalid

end Search

namespace LookupSetup

variable {userArea : Option Nat} (S : LookupSetup rd userArea items)

include S

theorem walk : Walk rd (areaOf userArea) (areaOf userArea + sizeofPdatAreaHeader) items :=
  ⟨S.hasItems, Nat.le_refl _⟩

omit S in
theorem length_le_areaLength (h : Walk rd (areaOf userArea) a rest) :
    rest.length ≤ areaLength rd (areaOf userArea) := by
  have hflat := length_le_flat rest
  have hstop := h.fill.stop
  have hle := h.le
  omega

theorem ends_of_walk (h : Walk rd (areaOf userArea) a rest) {fuel : Nat} (filter : Nat)
    (hfuel : areaLength rd (areaOf userArea) < fuel) :
    Exec.loop fuel (findNextBody rd filter)
        ⟨areaOf userArea + sizeofPdatAreaHeader + areaLength rd (areaOf userArea), a⟩ () =
      .ret (findIn filter (areaOf userArea + sizeofPdatAreaHeader + areaLength rd (areaOf userArea)) a rest) () :=
  loop_findNextBody filter h.fill S.fits (Nat.lt_of_le_of_lt (length_le_areaLength h) hfuel)

theorem walk_of_loop {fuel filter : Nat} {item : Option Nat} {ctx : FindContext}
    (h : Walk rd (areaOf userArea) a rest)
    (hret : Exec.loop fuel (findNextBody rd filter)
      ⟨areaOf userArea + sizeofPdatAreaHeader + areaLength rd (areaOf userArea), a⟩ () = .ret (item, ctx) ()) :
    ∃ b rest', Walk rd (areaOf userArea) b rest' ∧
      ctx = ⟨areaOf userArea + sizeofPdatAreaHeader + areaLength rd (areaOf userArea), b⟩ ∧
      item = if rest' = [] then none else some b := by
  have hmore := Exec.loop_mono hret (Nat.le_max_left fuel (areaLength rd (areaOf userArea) + 1))
  rw [S.ends_of_walk h filter (Nat.le_max_right _ _)] at hmore
  obtain ⟨b, rest', hwalk, hfind⟩ := h.findIn filter
  rw [hfind] at hmore
  injection hmore with hr _
  injection hr with hitem hctx
  exact ⟨b, rest', hwalk, hctx.symm, hitem.symm⟩

theorem advance_eq (h : Walk rd (areaOf userArea) a (c :: rest)) :
    FindContext.advance rd
        ⟨areaOf userArea + sizeofPdatAreaHeader + areaLength rd (areaOf userArea), a⟩ =
      ⟨areaOf userArea + sizeofPdatAreaHeader + areaLength rd (areaOf userArea), a + c.length⟩ := by
  unfold FindContext.advance
  rw [next_of_fill h.fill S.fits]

theorem walk_of_enumerated {item : Option Nat} {ctx : FindContext}
    (h : Enumerated rd userArea false item ctx) :
    ∃ b rest, Walk rd (areaOf userArea) b rest ∧
      ctx = ⟨areaOf userArea + sizeofPdatAreaHeader + areaLength rd (areaOf userArea), b⟩ ∧
      item = if rest = [] then none else some b := by
  induction h with
  | first found =>
    rw [pDatLibFindFirstWithFilter_start _ _ _ _ _ (valid_system S.valid), startContext_eq S.fits] at found
    exact S.walk_of_loop S.walk found
  | @next fuel filter ctx ctx' item item' before goesOn found ih =>
    obtain ⟨b, rest, hwalk, rfl, hitem⟩ := ih
    cases rest with
    | nil => cases goesOn hitem
    | cons c rest =>
      change Exec.loop fuel (findNextBody rd filter) (FindContext.advance rd _) () = _ at found
      rw [S.advance_eq hwalk] at found
      exact S.walk_of_loop hwalk.tail found

theorem walk_of_starts {ctx : FindContext} (h : Starts rd userArea false ctx) :
    ∃ b rest, Walk rd (areaOf userArea) b rest ∧
      ctx = ⟨areaOf userArea + sizeofPdatAreaHeader + areaLength rd (areaOf userArea), b⟩ := by
  cases h with
  | first => exact ⟨_, items, S.walk, startContext_eq S.fits⟩
  | next before goesOn =>
    obtain ⟨b, rest, hwalk, rfl, hitem⟩ := S.walk_of_enumerated before
    cases rest with
    | nil => cases goesOn hitem
    | cons c rest => exact ⟨_, rest, hwalk.tail, S.advance_eq hwalk⟩

theorem walk_of_found {item : Nat} {ctx : FindContext}
    (h : Enumerated rd userArea false (some item) ctx) :
    ∃ c rest, Walk rd (areaOf userArea) item (c :: rest) := by
  obtain ⟨b, rest, hwalk, -, hitem⟩ := S.walk_of_enumerated h
  cases rest with
  | nil => cases hitem
  | cons c rest =>
    injection hitem with hitem
    exact ⟨c, rest, hitem ▸ hwalk⟩

theorem loop_findItem {fuel : Nat} (itemId : Nat) (hfuel : areaLength rd (areaOf userArea) < fuel) :
    Exec.loop fuel (findItemBody rd itemId
        (u32 (areaOf userArea + sizeofPdatAreaHeader + areaLength rd (areaOf userArea))))
      (u32 (areaOf userArea + sizeofPdatAreaHeader)) () =
      .ret (((locate (fun c => decide (PdatItem.identifier c = itemId))
        (areaOf userArea + sizeofPdatAreaHeader) items).map fun l => some l.1).getD none) () := by
  have hbody : u32 (areaOf userArea + sizeofPdatAreaHeader) = areaOf userArea + sizeofPdatAreaHeader :=
    areaBody_eq S.fits
  rw [u32_of_lt S.fits, hbody]
  exact (walks_findItemBody itemId S.fits).loop S.hasItems
    (Nat.lt_of_le_of_lt (length_le_areaLength S.walk) hfuel)

theorem walk_of_findItem {fuel itemId calcCrc item : Nat} {asserts doCrcCheck : Bool}
    (h : pDatLibFindItem fuel asserts rd userArea itemId doCrcCheck calcCrc () = .ret (some item) ()) :
    ∃ c rest, Walk rd (areaOf userArea) item (c :: rest) := by
  rw [pDatLibFindItem_start S.valid] at h
  have hmore := Exec.loop_mono h (Nat.le_max_left fuel (areaLength rd (areaOf userArea) + 1))
  rw [S.loop_findItem itemId (Nat.le_max_right _ _)] at hmore
  injection hmore with hl _
  cases hloc : locate (fun c => decide (PdatItem.identifier c = itemId))
    (areaOf userArea + sizeofPdatAreaHeader) items with
  | none =>
    rw [hloc] at hl
    cases hl
  | some l =>
    rw [hloc] at hl
    injection hl with hl
    obtain ⟨before, hsplit, -, -, hplace⟩ := locate_eq_some hloc
    have hfill := S.hasItems
    unfold HasItems at hfill
    rw [hsplit] at hfill
    refine ⟨l.2.1, l.2.2, ?_, ?_⟩
    · rw [← hl, hplace]
      exact hfill.drop
    · rw [← hl, hplace]
      exact Nat.le_add_right _ _

omit S in
theorem inside_of_pass (h : Walk rd (areaOf userArea) a rest) {r : Range}
    (hend : areaOf userArea + sizeofPdatAreaHeader + areaLength rd (areaOf userArea) ≤ a → False)
    (hr : r ∈ ([⟨a, 2⟩, ⟨a + 2, 2⟩] : List Range)) : r.Inside (areaRange rd (areaOf userArea)) := by
  cases rest with
  | nil =>
    have hstop : a = _ := h.fill.stop
    exact (hend hstop.ge).elim
  | cons c rest =>
    rcases List.mem_pair.mp hr with rfl | rfl
    · exact h.inside_header (k := 0) (by decide)
    · exact h.inside_header (k := 2) (by decide)

theorem inside_findPass {filter : Nat} {ctx ctx' : FindContext} {r : Range}
    (starts : Starts rd userArea false ctx)
    (visits : Exec.Visits (findNextBody rd filter) (ctx, ()) (ctx', ()))
    (read : r ∈ findPassReads rd filter ctx') : r.Inside (areaRange rd (areaOf userArea)) := by
  obtain ⟨b, rest, hwalk, rfl⟩ := S.walk_of_starts starts
  obtain ⟨b', rest', heq, hfill, hle⟩ := (walks_findNextBody filter S.fits).visits hwalk.fill visits
  injection heq with heq _
  subst heq
  simp only [findPassReads] at read
  split at read
  · cases read
  · rename_i hend
    refine inside_of_pass ⟨hfill, hwalk.le.trans hle⟩ (fun h => hend (.inl h)) ?_
    split at read
    · exact List.mem_of_mem_take (i := 1) read
    · exact read

theorem inside_findItemPass {itemId item : Nat} {r : Range}
    (visits : Exec.Visits (findItemBody rd itemId
        (u32 (areaOf userArea + sizeofPdatAreaHeader + areaLength rd (areaOf userArea))))
      (u32 (areaOf userArea + sizeofPdatAreaHeader), ()) (item, ()))
    (read : r ∈ findItemPassReads rd itemId
      (u32 (areaOf userArea + sizeofPdatAreaHeader + areaLength rd (areaOf userArea))) item) :
    r.Inside (areaRange rd (areaOf userArea)) := by
  have hbody : u32 (areaOf userArea + sizeofPdatAreaHeader) = areaOf userArea + sizeofPdatAreaHeader :=
    areaBody_eq S.fits
  rw [u32_of_lt S.fits] at visits read
  rw [hbody] at visits
  obtain ⟨b, rest, heq, hfill, hle⟩ := (walks_findItemBody itemId S.fits).visits S.hasItems visits
  injection heq with heq _
  subst heq
  unfold findItemPassReads at read
  split at read
  · cases read
  · rename_i hend
    refine inside_of_pass ⟨hfill, hle⟩ hend ?_
    split at read
    · exact List.mem_of_mem_take (i := 1) read
    · exact read

theorem walk_of_goesOn {item : Option Nat} {ctx : FindContext}
    (before : Enumerated rd userArea false item ctx) (goesOn : item = none → false = true) :
    ∃ c b rest, Walk rd (areaOf userArea) b (c :: rest) ∧
      ctx = ⟨areaOf userArea + sizeofPdatAreaHeader + areaLength rd (areaOf userArea), b⟩ := by
  obtain ⟨b, rest, hwalk, hctx, hitem⟩ := S.walk_of_enumerated before
  cases rest with
  | nil => cases goesOn hitem
  | cons c rest => exact ⟨c, b, rest, hwalk, hctx⟩

theorem inside_of_reads {r : Range} (h : LookupReads rd userArea false r) :
    r.Inside (areaRange rd (areaOf userArea)) := by
  cases h with
  | header => exact inside_area (Nat.le_refl _) (Nat.le_add_right _ _)
  | body => exact inside_area (Nat.le_add_right _ _) (Nat.le_refl _)
  | advance before goesOn =>
    obtain ⟨c, b, rest, hwalk, rfl⟩ := S.walk_of_goesOn before goesOn
    exact hwalk.inside_header (k := 2) (by decide)
  | pass starts visits read => exact S.inside_findPass starts visits read
  | itemData found =>
    obtain ⟨c, rest, hwalk⟩ := S.walk_of_found found
    exact hwalk.inside_item
  | findItemPass visits read => exact S.inside_findItemPass visits read
  | findItemData found =>
    obtain ⟨c, rest, hwalk⟩ := S.walk_of_findItem found
    exact hwalk.inside_item

/-! ## Copies -/

theorem copied_of_visits {dest filter fuel : Nat} {l : CopyLocals} {t : Mem}
    (hbuffer : IsBuffer rd (areaOf userArea) dest) (hfuel : areaLength rd (areaOf userArea) < fuel)
    (hv : CopyVisits rd (areaOf userArea) dest filter fuel l t) :
    ∃ done c rest, done ++ c :: rest = items ∧
      l = copyHead (areaOf userArea) dest filter
        (areaOf userArea + sizeofPdatAreaHeader + areaLength rd (areaOf userArea)) done ∧
      Copied rd (areaOf userArea) dest filter done t := by
  have C : CopySetup rd (areaOf userArea) dest items := ⟨S.hasItems, S.fits, hbuffer⟩
  have hitems : items.length < fuel := Nat.lt_of_le_of_lt (length_le_areaLength S.walk) hfuel
  refine Exec.Visits.invariant (fun l t => ∃ done c rest, done ++ c :: rest = items ∧
    l = copyHead (areaOf userArea) dest filter
      (areaOf userArea + sizeofPdatAreaHeader + areaLength rd (areaOf userArea)) done ∧
    Copied rd (areaOf userArea) dest filter done t) ?_ hv ?_
  · rintro l t - ⟨done, c, rest, hsplit, rfl, hcopied⟩
    refine Exec.wp_of_eq_ret (C.copyAreaBody_eq hsplit rfl hcopied hitems) ?_
    cases rest with
    | nil => exact trivial
    | cons c' rest =>
      refine ⟨done ++ [c], c', rest, ?_, rfl, C.copied_passed hsplit hcopied⟩
      rw [List.append_assoc]
      exact hsplit
  · obtain ⟨c, rest, hcons⟩ := List.exists_cons_of_ne_nil (C.ne_nil S.valid)
    exact ⟨[], c, rest, hcons.symm, (C.copyHead_nil filter).symm, C.copied_nil filter⟩

theorem copyStays {dest : Nat} (filter : Nat) (hbuffer : IsBuffer rd (areaOf userArea) dest) :
    CopyStays rd (areaOf userArea) dest filter := by
  have C : CopySetup rd (areaOf userArea) dest items := ⟨S.hasItems, S.fits, hbuffer⟩
  refine ⟨fun fuel calcCrc hfuel => ?_, fun fuel l t hfuel hv => ?_, fun fuel l t hfuel hv hfiltered => ?_⟩
  · obtain ⟨t, -, hrun⟩ := C.pDatLibCopyAreaWithFilterOut_eq S.valid filter calcCrc
      (Nat.lt_of_le_of_lt (length_le_areaLength S.walk) hfuel)
    exact ⟨_, _, hrun⟩
  · obtain ⟨done, c, rest, hsplit, rfl, hcopied⟩ := S.copied_of_visits hbuffer hfuel hv
    have hfill := C.fill_rest hsplit hcopied.source
    have ha : areaOf userArea + sizeofPdatAreaHeader ≤
        areaOf userArea + sizeofPdatAreaHeader + (flat done).length := Nat.le_add_right _ _
    intro r hr
    unfold copyPassReads at hr
    rcases List.mem_cons.mp hr with rfl | hr
    · exact inside_header (k := 0) hfill ha (by decide)
    rcases List.mem_cons.mp hr with rfl | hr
    · exact inside_header (k := 2) hfill ha (by decide)
    rcases List.mem_cons.mp hr with rfl | hr
    · exact inside_header (k := 2) hfill ha (by decide)
    split at hr
    · cases hr
    · rw [List.mem_singleton.mp hr]
      exact inside_area ((Nat.le_add_right _ _).trans ha) (itemRange_le hfill)
  · obtain ⟨done, c, rest, hsplit, rfl, hcopied⟩ := S.copied_of_visits hbuffer hfuel hv
    have hfill := C.fill_rest hsplit hcopied.source
    have hle := C.length_le filter hsplit
    have hlength := hcopied.length
    show sizeofPdatItemHeader + itemLength t
      (areaOf userArea + sizeofPdatAreaHeader + (flat done).length) ≤ areaLength t dest
    rw [itemLength_of_fill hfill]
    omega

theorem lookupsStay : LookupsStay rd userArea false where
  reads _ := S.inside_of_reads
  enumerated item ctx h := by
    obtain ⟨c, rest, hwalk⟩ := S.walk_of_found h
    exact hwalk.inside_item
  found fuel asserts itemId doCrcCheck calcCrc item h := by
    obtain ⟨c, rest, hwalk⟩ := S.walk_of_findItem h
    exact hwalk.inside_item
  first_ends fuel filter calcCrc ctx₀ hfuel := by
    rw [pDatLibFindFirstWithFilter_start _ _ _ _ _ (valid_system S.valid), startContext_eq S.fits]
    exact ⟨_, S.ends_of_walk S.walk filter hfuel⟩
  next_ends fuel filter item ctx hfuel before goesOn := by
    obtain ⟨c, b, rest, hwalk, rfl⟩ := S.walk_of_goesOn before goesOn
    have hends := S.ends_of_walk hwalk.tail filter hfuel
    rw [← S.advance_eq hwalk] at hends
    exact ⟨_, hends⟩
  findItem_ends fuel asserts itemId doCrcCheck calcCrc hfuel := by
    rw [pDatLibFindItem_start S.valid]
    exact ⟨_, S.loop_findItem itemId hfuel⟩
  copies dest filter hbuffer := S.copyStays filter hbuffer

end LookupSetup

/-! ## Areas with a broken chain -/

section Necessary

variable {userArea : Option Nat} {pastEnd : Bool}

theorem enumerated_of_starts (hvalid : Valid rd (areaOf userArea)) {ctx : FindContext}
    (h : Starts rd userArea pastEnd ctx) (hlt : ctx.currMemLocation < ctx.limit) :
    Enumerated rd userArea pastEnd (some ctx.currMemLocation) ctx := by
  have hloop : Exec.loop 1 (findNextBody rd findAnyItemFilter) ctx () =
      .ret (some ctx.currMemLocation, ctx) () := by
    refine Exec.loop_of_inr ?_ 0
    unfold findNextBody
    rw [if_neg (Nat.not_le.mpr hlt), if_pos rfl]
    rfl
  cases h with
  | first =>
    have hfound := @pDatLibFindFirstWithFilter_start rd _ 1 userArea findAnyItemFilter 0 ⟨0, 0⟩ ()
      (valid_system hvalid)
    exact .first (hfound.trans hloop)
  | next before goesOn =>
    have hfound : pDatLibFindNextWithFilter 1 rd findAnyItemFilter _ () = _ := hloop
    exact .next before goesOn hfound

theorem LookupsStay.hasItems (hvalid : Valid rd (areaOf userArea))
    (hfits : areaOf userArea + sizeofPdatAreaHeader + areaLength rd (areaOf userArea) < 0x100000000)
    (h : LookupsStay rd userArea pastEnd) : ∃ items, HasItems rd (areaOf userArea) items := by
  refine exists_fill (fun a => Starts rd userArea pastEnd
      ⟨areaOf userArea + sizeofPdatAreaHeader + areaLength rd (areaOf userArea), a⟩) ?_ _ _
    (Nat.le_refl _) ?_ (Nat.le_add_right _ _)
  · intro a hstarts hlt
    have hfound := enumerated_of_starts hvalid hstarts hlt
    have hinside := (h.enumerated _ _ hfound).2
    rw [length_read]
    change a + (sizeofPdatItemHeader + itemLength rd a) ≤
      areaOf userArea + (sizeofPdatAreaHeader + areaLength rd (areaOf userArea)) at hinside
    rw [← Nat.add_assoc (areaOf userArea)] at hinside
    refine ⟨hinside, ?_⟩
    have hnext := Starts.next hfound nofun
    unfold FindContext.advance at hnext
    simp only at hnext
    rw [Nat.add_assoc a, u32_of_lt (Nat.lt_of_le_of_lt hinside hfits)] at hnext
    exact hnext
  · have hfirst : Starts rd userArea pastEnd (startContext rd (areaOf userArea)) := .first
    rw [startContext_eq hfits] at hfirst
    exact hfirst

theorem LookupsStay.stops (hvalid : Valid rd (areaOf userArea))
    (hfits : areaOf userArea + sizeofPdatAreaHeader + areaLength rd (areaOf userArea) < 0x100000000)
    (h : LookupsStay rd userArea pastEnd) : pastEnd = false := by
  obtain ⟨items, hitems⟩ := h.hasItems hvalid hfits
  by_contra hpast
  rw [Bool.not_eq_false] at hpast
  -- an empty filter selects nothing
  have hnone : locate (PdatItem.selectedBy 0) (areaOf userArea + sizeofPdatAreaHeader) items = none :=
    locate_eq_none.mpr fun c _ => by
      unfold PdatItem.selectedBy isFilterMatch
      rw [Nat.zero_testBit]
      simp
  have hend := pDatLibFindFirstWithFilter_eq userArea 0 0 ⟨0, 0⟩ () (valid_system hvalid) hfits hitems
    (Nat.lt_succ_self items.length)
  unfold findIn at hend
  rw [hnone] at hend
  have hread := h.reads _ (.advance (.first hend) fun _ => hpast)
  have hle := hread.2
  unfold areaRange at hle
  simp only at hle
  omega

end Necessary

/-- Lookups keep to a valid area exactly when the body is a sequence of whole items and their callers stop
at a `NULL`. -/
theorem lookupsStay_iff {userArea : Option Nat} {pastEnd : Bool} {calcCrc : Nat}
    (hsuccess : pDatLibValidateArea rd (areaOf userArea) true calcCrc = .success)
    (hfits : areaOf userArea + sizeofPdatAreaHeader + areaLength rd (areaOf userArea) < 0x100000000) :
    LookupsStay rd userArea pastEnd ↔ (∃ items, HasItems rd (areaOf userArea) items) ∧ pastEnd = false := by
  have hvalid := valid_of_success hsuccess
  refine ⟨fun h => ⟨h.hasItems hvalid hfits, h.stops hvalid hfits⟩, ?_⟩
  rintro ⟨⟨items, hitems⟩, rfl⟩
  exact LookupSetup.lookupsStay ⟨hvalid, hfits, hitems⟩

theorem lookupsStay_iff_sample :
    LookupsStay sampleArea (some 0x1000) false ↔
      (∃ items, HasItems sampleArea (areaOf (some 0x1000)) items) ∧ false = false :=
  lookupsStay_iff valid_sampleArea (by decide)

def overrunArea : Mem := Mem.ofWords
  [(0x1000, pdatIdentifier), (0x1004, 16), (0x1008, 0x5002FF95), (0x100C, 0x00640003)]

theorem overrun_item_is_returned :
    pDatLibValidateArea overrunArea 0x1000 true 0 = .success ∧
      ¬ LookupsStay overrunArea (some 0x1000) false := by
  refine ⟨by decide +kernel, fun h => ?_⟩
  have hfound : pDatLibFindFirstWithFilter 1 overrunArea (some 0x1000) findAnyItemFilter 0 ⟨0, 0⟩ () =
      .ret (some 0x100C, ⟨0x101C, 0x100C⟩) () := rfl
  have hinside := h.enumerated _ _ (.first hfound)
  have hnot : ¬ (itemRange overrunArea 0x100C).Inside (areaRange overrunArea 0x1000) := by decide +kernel
  exact hnot hinside

end Quark.PlatformDataLib
