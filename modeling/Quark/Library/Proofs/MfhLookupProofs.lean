import Quark.Library.MfhLookups
import Quark.Library.Proofs.MfhSearchProofs
import Mathlib.Data.List.TakeWhile

/-!
# Lookups in a valid MFH

A search visits what its filter selects. The validation bounds the two counts of the MFH but says nothing
about the entries of the boot priority list, and the lookups differ in what they make of an entry that
refers to no item.
-/

namespace Quark.MfhLib

open Machine

section

variable {asserts : Bool} {rd : Mem} {overrideMfhHeader : Option Nat} {filter : Nat} {l : MfhLayout}

/-! ## Enumeration -/

theorem itemsOf_eq (hvalid : mfhLibValidateMfhBaseAddress rd (overrideMfhHeader.getD pcdFlashNvMfh) = some l) :
    itemsOf rd overrideMfhHeader filter = l.selectedItems rd filter := by
  unfold itemsOf MfhLayout.selectedItems
  rw [hvalid, List.range_eq_range']
  rfl

theorem length_selectedItems_le (l : MfhLayout) (filter : Nat) :
    (l.selectedItems rd filter).length ≤ flashItemCount rd l.mfhHeader := by
  unfold MfhLayout.selectedItems
  rw [List.length_map]
  exact le_trans (List.length_filter_le _ _) (by rw [List.length_range])

theorem item_injective (l : MfhLayout) {i j : Nat} (hi : i < mfhMaxNumFlashItems)
    (hj : j < mfhMaxNumFlashItems) (h : l.item i = l.item j) : i = j := by
  have hmax : mfhMaxNumFlashItems = 240 := rfl
  change u32 (l.flashItemList + 16 * i) = u32 (l.flashItemList + 16 * j) at h
  unfold u32 at h
  omega

theorem nodup_selectedItems (hcount : flashItemCount rd l.mfhHeader ≤ mfhMaxNumFlashItems) :
    (l.selectedItems rd filter).Nodup := by
  unfold MfhLayout.selectedItems
  refine List.Nodup.map_on ?_ (List.nodup_range.filter _)
  intro i hi j hj h
  have hi' := List.mem_range.mp (List.mem_filter.mp hi).1
  have hj' := List.mem_range.mp (List.mem_filter.mp hj).1
  exact item_injective l (lt_of_lt_of_le hi' hcount) (lt_of_lt_of_le hj' hcount) h

theorem mem_bootList {index : Nat} :
    index ∈ l.bootList rd ↔
      ∃ i < bootPriorityListCount rd l.mfhHeader, l.bootIndex rd i = index := by
  unfold MfhLayout.bootList
  simp only [List.mem_map, List.mem_range]

theorem mem_bootIndices {i : Nat} :
    i ∈ bootIndices rd l.bootStart 0 ↔ i < bootPriorityListCount rd l.mfhHeader := by
  unfold bootIndices
  rw [List.mem_range']
  show (∃ j, j < bootPriorityListCount rd l.mfhHeader - 0 ∧ i = 0 + 1 * j) ↔ _
  constructor
  · rintro ⟨j, hj, rfl⟩
    omega
  · intro hi
    exact ⟨i, by omega, by omega⟩

theorem bootStopsOf_eq
    (hvalid : mfhLibValidateMfhBaseAddress rd (overrideMfhHeader.getD pcdFlashNvMfh) = some l) :
    bootStopsOf asserts rd overrideMfhHeader = true ↔
      asserts = true ∧ ∃ index ∈ l.bootList rd, ¬ l.BootItemFits rd index := by
  unfold bootStopsOf
  rw [hvalid]
  show bootStops asserts rd l.bootStart 0 = true ↔ _
  unfold bootStops
  rw [List.any_eq_true]
  constructor
  · rintro ⟨i, hi, hmisfit⟩
    obtain ⟨hasserts, hmisfit⟩ := of_decide_eq_true hmisfit
    exact ⟨hasserts, _, mem_bootList.mpr ⟨i, mem_bootIndices.mp hi, rfl⟩, hmisfit⟩
  · rintro ⟨hasserts, index, hindex, hmisfit⟩
    obtain ⟨i, hi, rfl⟩ := mem_bootList.mp hindex
    exact ⟨i, mem_bootIndices.mpr hi, decide_eq_true ⟨hasserts, hmisfit⟩⟩

theorem bootItemsOf_eq
    (hvalid : mfhLibValidateMfhBaseAddress rd (overrideMfhHeader.getD pcdFlashNvMfh) = some l)
    (hfits : asserts = true → ∀ index ∈ l.bootList rd, l.BootItemFits rd index) :
    bootItemsOf asserts rd overrideMfhHeader filter = l.selectedBootItems rd filter := by
  unfold bootItemsOf
  rw [hvalid]
  show bootItemsFrom asserts rd filter l.bootStart 0 = _
  have hall : (bootIndices rd l.bootStart 0).takeWhile
      (fun i => asserts = false ∨ BootEntryFits rd l.bootStart i) = bootIndices rd l.bootStart 0 := by
    refine List.takeWhile_eq_self_iff.mpr fun i hi => ?_
    refine decide_eq_true ?_
    cases asserts with
    | false => exact .inl rfl
    | true => exact .inr (hfits rfl _ (mem_bootList.mpr ⟨i, mem_bootIndices.mp hi, rfl⟩))
  unfold bootItemsFrom MfhLayout.selectedBootItems MfhLayout.bootList
  rw [hall, List.filter_map, List.map_map, List.range_eq_range']
  rfl

theorem length_selectedBootItems_le (l : MfhLayout) (filter : Nat) :
    (l.selectedBootItems rd filter).length ≤ bootPriorityListCount rd l.mfhHeader := by
  unfold MfhLayout.selectedBootItems MfhLayout.bootList
  rw [List.length_map]
  refine le_trans (List.length_filter_le _ _) ?_
  rw [List.length_map, List.length_range]

theorem length_bootItemsOf_le
    (hvalid : mfhLibValidateMfhBaseAddress rd (overrideMfhHeader.getD pcdFlashNvMfh) = some l) :
    (bootItemsOf asserts rd overrideMfhHeader filter).length ≤ mfhMaxNumFlashItems := by
  have hboot : bootPriorityListCount rd l.mfhHeader ≤ mfhMaxNumBootItems :=
    bootPriorityListCount_le_of_valid hvalid
  have hmax : mfhMaxNumBootItems ≤ mfhMaxNumFlashItems := by decide
  have hlen : (bootIndices rd l.bootStart 0).length = bootPriorityListCount rd l.mfhHeader := by
    unfold bootIndices
    rw [List.length_range']
    rfl
  unfold bootItemsOf
  rw [hvalid]
  show (bootItemsFrom asserts rd filter l.bootStart 0).length ≤ _
  unfold bootItemsFrom
  rw [List.length_map]
  refine le_trans (List.length_filter_le _ _) ?_
  have hshort := (List.takeWhile_prefix (l := bootIndices rd l.bootStart 0) fun i =>
    decide (asserts = false ∨ BootEntryFits rd l.bootStart i)).length_le
  omega

theorem walk_collect {finish : List Nat → Except Stop (List Nat)} (visited items : List Nat) :
    walk (fun visited item => .inl (visited ++ [item])) finish visited items = finish (visited ++ items) := by
  induction items generalizing visited with
  | nil => rw [List.append_nil]; rfl
  | cons item items ih =>
    have hrest := ih (visited ++ [item])
    rw [List.append_assoc] at hrest
    exact hrest

theorem enumerate_of_yields {stops boot : Bool} {items : List Nat}
    (hx : Yields asserts rd filter stops items
      fun _ => mfhLibFindFirstWithFilter asserts rd overrideMfhHeader filter boot)
    (hlen : items.length ≤ mfhMaxNumFlashItems) {σ : Type} (s : σ) :
    enumerate asserts rd overrideMfhHeader filter boot s =
      if stops then .stop .deadLoop s else .ret items s := by
  have hloop := loop_of_yields (enumerateBody asserts rd filter) Prod.mk
    (fun visited item => .inl (visited ++ [item])) id s (fun a => rfl) (fun a item ctx => rfl) hx
    (Nat.lt_succ_of_le hlen) []
  refine hloop.trans ?_
  rw [walk_collect]
  cases stops <;> rfl

/-- A search for all items visits the selected ones, each of them once, and ends. A search for items to boot
visits the selected ones of the boot priority list and ends, if every entry of the list fits or `ASSERT`s
are compiled out; it stops in the `ASSERT` if they are not and some entry does not fit. -/
theorem enumerate_exact (asserts : Bool) (filter : Nat) {overrideMfhHeader : Option Nat} {l : MfhLayout}
    (hvalid : mfhLibValidateMfhBaseAddress rd (overrideMfhHeader.getD pcdFlashNvMfh) = some l)
    {σ : Type} (s : σ) :
    enumerate asserts rd overrideMfhHeader filter false s = .ret (l.selectedItems rd filter) s ∧
      (l.selectedItems rd filter).Nodup ∧
      ((asserts = true → ∀ index ∈ l.bootList rd, l.BootItemFits rd index) →
        enumerate asserts rd overrideMfhHeader filter true s =
          .ret (l.selectedBootItems rd filter) s) ∧
      (asserts = true → (∃ index ∈ l.bootList rd, ¬ l.BootItemFits rd index) →
        enumerate asserts rd overrideMfhHeader filter true s = .stop .deadLoop s) := by
  have hcount : flashItemCount rd l.mfhHeader ≤ mfhMaxNumFlashItems := flashItemCount_le_of_valid hvalid
  have hboot : bootPriorityListCount rd l.mfhHeader ≤ mfhMaxNumBootItems :=
    bootPriorityListCount_le_of_valid hvalid
  have hmax : mfhMaxNumBootItems ≤ mfhMaxNumFlashItems := by decide
  refine ⟨?_, nodup_selectedItems hcount, fun hfits => ?_, fun hasserts hmisfit => ?_⟩
  · have hall := yields_all asserts rd overrideMfhHeader filter
    rw [itemsOf_eq hvalid] at hall
    exact enumerate_of_yields hall ((length_selectedItems_le l filter).trans hcount) s
  · have hyields := yields_boot asserts rd overrideMfhHeader filter
    have hstops : bootStopsOf asserts rd overrideMfhHeader = false := by
      rw [← Bool.not_eq_true, bootStopsOf_eq hvalid]
      rintro ⟨hasserts, index, hindex, hmisfit⟩
      exact hmisfit (hfits hasserts index hindex)
    rw [bootItemsOf_eq hvalid hfits, hstops] at hyields
    have hlen : (l.selectedBootItems rd filter).length ≤ _ := length_selectedBootItems_le l filter
    exact enumerate_of_yields hyields (by omega) s
  · have hyields := yields_boot asserts rd overrideMfhHeader filter
    have hstops : bootStopsOf asserts rd overrideMfhHeader = true :=
      (bootStopsOf_eq hvalid).mpr ⟨hasserts, hmisfit⟩
    rw [hstops] at hyields
    exact enumerate_of_yields hyields (length_bootItemsOf_le hvalid) s

/-- Of the sample MFH a search for all items and one for those to boot visit the one item. -/
theorem enumerate_exact_sample :
    enumerate true (sampleMfh 0) none findAnyFitFilter false () = .ret [pcdFlashNvMfh + 28] () ∧
      enumerate true (sampleMfh 0) none findAnyFitFilter true () = .ret [pcdFlashNvMfh + 28] () := by
  have hvalid : mfhLibValidateMfhBaseAddress (sampleMfh 0) (Option.none.getD pcdFlashNvMfh) =
    some sampleLayout := by rfl
  have h := enumerate_exact true findAnyFitFilter hvalid ()
  have hfits : ∀ index ∈ sampleLayout.bootList (sampleMfh 0),
      sampleLayout.BootItemFits (sampleMfh 0) index := by decide
  exact ⟨h.1, h.2.2.1 fun _ => hfits⟩

/-- A boot priority list that refers to an item which does not exist passes the validation. -/
theorem enumeration_stops_at_misfit :
    mfhLibValidateMfhBaseAddress (sampleMfh 5) pcdFlashNvMfh = some sampleLayout ∧
      enumerate true (sampleMfh 5) none findAnyFitFilter true () = .stop .deadLoop () := by
  constructor
  · rfl
  · rfl

/-! ## Firmware items -/

theorem mfhLibIsAddressWithinFwFlashItem_eq (asserts : Bool) {l : MfhLayout}
    (hvalid : mfhLibValidateMfhBaseAddress rd pcdFlashNvMfh = some l) (checkAddress : Nat) {σ : Type}
    (s : σ) :
    mfhLibIsAddressWithinFwFlashItem asserts rd checkAddress s =
      .ret ((l.selectedItems rd findAnyFwFitFilter).any (isWithinItem rd checkAddress)) s := by
  have hyields := yields_all asserts rd none findAnyFwFitFilter
  have hitems : itemsOf rd none findAnyFwFitFilter = l.selectedItems rd findAnyFwFitFilter := itemsOf_eq hvalid
  rw [hitems] at hyields
  have hlen : (l.selectedItems rd findAnyFwFitFilter).length ≤ _ :=
    (length_selectedItems_le l findAnyFwFitFilter).trans (flashItemCount_le_of_valid hvalid)
  have hloop := loop_of_yields (isAddressWithinBody asserts rd checkAddress) (fun _ : Unit => id)
    (fun _ item => if isWithinItem rd checkAddress item then .inr (.ok true) else .inl ())
    (fun _ => false) s (fun _ => rfl) (fun _ item ctx => ?_) hyields (Nat.lt_succ_of_le hlen) ()
  · refine hloop.trans ?_
    generalize l.selectedItems rd findAnyFwFitFilter = items
    induction items with
    | nil => rfl
    | cons item items ih =>
      unfold walk
      by_cases hwithin : isWithinItem rd checkAddress item = true
      · rw [if_pos hwithin, List.any_cons, hwithin]
        rfl
      · rw [if_neg hwithin, List.any_cons, eq_false_of_ne_true hwithin, Bool.false_or]
        exact ih
  · show (if isWithinItem rd checkAddress item then _ else _ : Exec σ _) s = _
    split <;> rfl

/-- The code takes an address to be in an item if it is behind the first byte of one that ends by 4GB, and
if it is not zero for an empty item at address zero. -/
theorem isWithinItem_iff {checkAddress item : Nat} (haddr : checkAddress < 0x100000000) :
    isWithinItem rd checkAddress item = true ↔ InsideItem rd checkAddress item ∨
      EmptyAtZero rd item ∧ checkAddress ≠ 0 := by
  have hbase : itemFlashAddress rd item < 0x100000000 := rd.rd32_lt _
  have hlen : itemLengthBytes rd item < 0x100000000 := rd.rd32_lt _
  unfold isWithinItem InsideItem EmptyAtZero sub32 u32
  rw [decide_eq_true_eq]
  omega

theorem InsideItem.within {address item : Nat} (h : InsideItem rd address item) :
    WithinItem rd address item := ⟨h.1.le, h.2.1⟩

theorem WithinItem.inside {address item : Nat} (h : WithinItem rd address item)
    (hfirst : address ≠ itemFlashAddress rd item)
    (hend : itemFlashAddress rd item + itemLengthBytes rd item ≤ 0x100000000) :
    InsideItem rd address item :=
  ⟨lt_of_le_of_ne h.1 fun heq => hfirst heq.symm, h.2, hend⟩

/-- Whether the answer is right for an address. Without an empty item at address zero it is if and only if
every firmware item that has the address as its first byte, or that contains it and reaches beyond 4GB,
comes with one that ends by 4GB and has it behind its first byte. With one, every address but zero is
taken to be in an item. -/
theorem isAddressWithin_correct_iff (asserts : Bool) {l : MfhLayout}
    (hvalid : mfhLibValidateMfhBaseAddress rd pcdFlashNvMfh = some l) {checkAddress : Nat}
    (haddr : checkAddress < 0x100000000) {σ : Type} (s : σ) :
    mfhLibIsAddressWithinFwFlashItem asserts rd checkAddress s =
        .ret (decide (∃ item ∈ l.selectedItems rd findAnyFwFitFilter, WithinItem rd checkAddress item)) s ↔
      ((∃ item ∈ l.selectedItems rd findAnyFwFitFilter, EmptyAtZero rd item) ∧ checkAddress ≠ 0 →
        ∃ item ∈ l.selectedItems rd findAnyFwFitFilter, WithinItem rd checkAddress item) ∧
      (¬ ((∃ item ∈ l.selectedItems rd findAnyFwFitFilter, EmptyAtZero rd item) ∧ checkAddress ≠ 0) →
        ∀ item ∈ l.selectedItems rd findAnyFwFitFilter, WithinItem rd checkAddress item →
          checkAddress = itemFlashAddress rd item ∨
            0x100000000 < itemFlashAddress rd item + itemLengthBytes rd item →
          ∃ item' ∈ l.selectedItems rd findAnyFwFitFilter, InsideItem rd checkAddress item') := by
  rw [mfhLibIsAddressWithinFwFlashItem_eq asserts hvalid]
  generalize l.selectedItems rd findAnyFwFitFilter = items
  have hcode : (∃ item ∈ items, isWithinItem rd checkAddress item = true) ↔
      (∃ item ∈ items, InsideItem rd checkAddress item) ∨
        (∃ item ∈ items, EmptyAtZero rd item) ∧ checkAddress ≠ 0 := by
    simp only [isWithinItem_iff haddr]
    constructor
    · rintro ⟨item, hitem, h | ⟨hempty, hne⟩⟩
      · exact .inl ⟨item, hitem, h⟩
      · exact .inr ⟨⟨item, hitem, hempty⟩, hne⟩
    · rintro (⟨item, hitem, h⟩ | ⟨⟨item, hitem, hempty⟩, hne⟩)
      · exact ⟨item, hitem, .inl h⟩
      · exact ⟨item, hitem, .inr ⟨hempty, hne⟩⟩
  have hret : (Outcome.ret (items.any (isWithinItem rd checkAddress)) s : Outcome σ Bool) =
        .ret (decide (∃ item ∈ items, WithinItem rd checkAddress item)) s ↔
      ((∃ item ∈ items, isWithinItem rd checkAddress item = true) ↔
        ∃ item ∈ items, WithinItem rd checkAddress item) := by
    rw [Outcome.ret.injEq, and_iff_left rfl, ← List.any_eq_true, Bool.eq_iff_iff, decide_eq_true_eq]
  rw [hret, hcode]
  by_cases hzero : (∃ item ∈ items, EmptyAtZero rd item) ∧ checkAddress ≠ 0
  · rw [or_iff_right_of_imp fun _ => hzero]
    simp only [hzero, true_iff, not_true_eq_false, false_implies, and_true, ne_eq, not_false_eq_true,
      true_implies]
  · have hinside : (∃ item ∈ items, InsideItem rd checkAddress item) →
        ∃ item ∈ items, WithinItem rd checkAddress item :=
      fun ⟨item, hitem, h⟩ => ⟨item, hitem, h.within⟩
    rw [or_iff_left hzero, and_iff_right fun h => absurd h hzero]
    constructor
    · rintro hsame - item hitem hwithin -
      exact hsame.mpr ⟨item, hitem, hwithin⟩
    · rintro hedge
      refine ⟨hinside, fun ⟨item, hitem, hwithin⟩ => ?_⟩
      by_cases hin : checkAddress = itemFlashAddress rd item ∨
          0x100000000 < itemFlashAddress rd item + itemLengthBytes rd item
      · exact hedge hzero item hitem hwithin hin
      · rw [not_or] at hin
        exact ⟨item, hitem, hwithin.inside hin.1 (Nat.not_lt.mp hin.2)⟩

/-- The first byte of the item of the sample MFH is not found in it, the second one is. -/
theorem isAddressWithin_correct_iff_sample :
    mfhLibIsAddressWithinFwFlashItem true (sampleMfh 0) 0xFFD00001 () =
      .ret (decide (∃ item ∈ sampleLayout.selectedItems (sampleMfh 0) findAnyFwFitFilter,
        WithinItem (sampleMfh 0) 0xFFD00001 item)) () := by
  have hvalid : mfhLibValidateMfhBaseAddress (sampleMfh 0) pcdFlashNvMfh = some sampleLayout := by rfl
  refine (isAddressWithin_correct_iff true hvalid (by decide) ()).mpr ⟨?_, ?_⟩
  · intro _
    decide
  · intro _ item hitem _ hedge
    have hselected : sampleLayout.selectedItems (sampleMfh 0) findAnyFwFitFilter =
      [pcdFlashNvMfh + 28] := by rfl
    rw [hselected, List.mem_singleton] at hitem
    subst hitem
    revert hedge
    decide

theorem first_byte_of_item_missed :
    mfhLibIsAddressWithinFwFlashItem true (sampleMfh 0) 0xFFD00000 () ≠
      .ret (decide (∃ item ∈ sampleLayout.selectedItems (sampleMfh 0) findAnyFwFitFilter,
        WithinItem (sampleMfh 0) 0xFFD00000 item)) () := by
  have hwithin : ∃ item ∈ sampleLayout.selectedItems (sampleMfh 0) findAnyFwFitFilter,
      WithinItem (sampleMfh 0) 0xFFD00000 item := by decide
  have hrun : mfhLibIsAddressWithinFwFlashItem true (sampleMfh 0) 0xFFD00000 () = .ret false () := by rfl
  rw [hrun, decide_eq_true hwithin]
  simp

/-! ## Reads and results -/

theorem layout_of_valid {mfh : Nat} (h : mfhLibValidateMfhBaseAddress rd mfh = some l) :
    l.mfhHeader = mfh ∧ l.bootPriorityList = u32 (mfh + 24) ∧
      l.flashItemList = u32 (mfh + 24 + 4 * bootPriorityListCount rd mfh) ∧
      l.mfhSize = 24 + 4 * bootPriorityListCount rd mfh + 16 * flashItemCount rd mfh := by
  unfold mfhLibValidateMfhBaseAddress at h
  split at h
  · cases h
  · split at h
    · cases h
    · split at h
      · cases h
      · injection h with h
        subst h
        exact ⟨rfl, rfl, rfl, rfl⟩

section

variable {mfh : Nat} (hvalid : mfhLibValidateMfhBaseAddress rd mfh = some l)
include hvalid

theorem contains_header {k : Nat} (hk : k + 4 ≤ 24) : l.Contains ⟨u32 (l.mfhHeader + k), 4⟩ := by
  obtain ⟨-, -, -, hsize⟩ := layout_of_valid hvalid
  exact ⟨k, by rw [hsize]; show k + 4 ≤ _; omega, rfl⟩

theorem contains_bootIndex {i : Nat} (hi : i < bootPriorityListCount rd l.mfhHeader) :
    l.Contains ⟨u32 (l.bootPriorityList + 4 * i), 4⟩ := by
  obtain ⟨hheader, hlist, -, hsize⟩ := layout_of_valid hvalid
  rw [hheader] at hi
  refine ⟨24 + 4 * i, ?_, ?_⟩
  · rw [hsize]
    show 24 + 4 * i + 4 ≤ _
    omega
  · show u32 _ = _
    rw [hlist, hheader]
    unfold u32
    omega

theorem contains_item {index len : Nat} (hindex : index < flashItemCount rd l.mfhHeader)
    (hlen : len ≤ sizeofMfhFlashItem) : l.Contains ⟨l.item index, len⟩ := by
  obtain ⟨hheader, -, hlist, hsize⟩ := layout_of_valid hvalid
  rw [hheader] at hindex
  refine ⟨24 + 4 * bootPriorityListCount rd mfh + 16 * index, ?_, ?_⟩
  · rw [hsize]
    show _ + len ≤ _
    have hlen' : len ≤ 16 := hlen
    omega
  · show u32 (l.flashItemList + 16 * index) = _
    rw [hlist, hheader]
    unfold u32
    omega

end

structure ContextOf (l : MfhLayout) (ctx : FindContext) : Prop where
  mfhHeader : ctx.mfhHeader = l.mfhHeader
  bootPriorityList : ctx.bootPriorityList = l.bootPriorityList
  flashItemList : ctx.flashItemList = l.flashItemList

theorem contextOf_context (l : MfhLayout) (boot : Bool) : ContextOf l (l.context boot) := ⟨rfl, rfl, rfl⟩

theorem ContextOf.advance {ctx : FindContext} (h : ContextOf l ctx) : ContextOf l ctx.advance := by
  unfold FindContext.advance
  split
  · exact ⟨h.mfhHeader, h.bootPriorityList, h.flashItemList⟩
  · exact ⟨h.mfhHeader, h.bootPriorityList, h.flashItemList⟩

theorem ContextOf.itemAt {ctx : FindContext} (h : ContextOf l ctx) (index : Nat) :
    itemAt ctx index = l.item index := by
  unfold MfhLib.itemAt MfhLayout.item
  rw [h.flashItemList]

theorem wp_findNextBody (asserts : Bool) (filter : Nat) {ctx : FindContext} (h : ContextOf l ctx)
    {σ : Type} (s : σ) :
    Exec.wp (findNextBody asserts rd filter ctx) (fun r _ => match r with
      | .inl ctx' => ContextOf l ctx'
      | .inr (item, ctx') => ContextOf l ctx' ∧ ∀ p, item = some p → l.IsItem rd p)
      (fun _ _ => True) s := by
  have hnone : ∀ p, (none : Option Nat) = some p → l.IsItem rd p := fun p hp => by cases hp
  by_cases hboot : ctx.onlyBootFlashItems = true
  · by_cases hend : bootPriorityListCount rd ctx.mfhHeader ≤ ctx.currBootPriorityListIndex
    · unfold Exec.wp
      rw [findNextBody_end asserts hboot hend]
      exact ⟨h, hnone⟩
    · have hlt : ctx.currBootPriorityListIndex < bootPriorityListCount rd ctx.mfhHeader := by omega
      have hnext : ContextOf l (ctx.nextEntry rd) := ⟨h.mfhHeader, h.bootPriorityList, h.flashItemList⟩
      by_cases hfits : BootEntryFits rd ctx ctx.currBootPriorityListIndex
      · unfold Exec.wp
        rw [findNextBody_fits asserts filter s hboot hlt hfits]
        by_cases hmatch : isFilterMatch filter
            (itemType rd (itemAt ctx (bootEntry rd ctx ctx.currBootPriorityListIndex))) = true
        · rw [if_pos hmatch]
          refine ⟨⟨h.mfhHeader, h.bootPriorityList, h.flashItemList⟩, fun p hp => ?_⟩
          have hindex := hfits.1
          rw [h.mfhHeader] at hindex
          injection hp with hp
          exact ⟨_, hindex, by rw [← hp, h.itemAt]⟩
        · rw [if_neg hmatch]
          exact hnext
      · unfold Exec.wp
        rw [findNextBody_misfit asserts filter s hboot hlt hfits]
        cases asserts with
        | true => trivial
        | false => exact hnext
  · unfold findNextBody
    rw [if_neg hboot]
    split
    · exact ⟨h, hnone⟩
    · rename_i hindex
      rw [h.mfhHeader] at hindex
      dsimp only
      split
      · refine ⟨h, fun p hp => ?_⟩
        injection hp with hp
        exact ⟨_, Nat.not_le.mp hindex, by rw [← hp, h.itemAt]⟩
      · exact ⟨h.mfhHeader, h.bootPriorityList, h.flashItemList⟩

theorem wp_findNext (asserts : Bool) (filter : Nat) {ctx : FindContext} {increment : Bool}
    (h : ContextOf l ctx) {σ : Type} (s : σ) :
    Exec.wp (findNext asserts rd filter increment ctx) (fun r _ => ContextOf l r.2 ∧
      ∀ p, r.1 = some p → l.IsItem rd p) (fun _ _ => True) s := by
  have hloop : ∀ ctx, ContextOf l ctx → Exec.wp (Exec.loop (mfhMaxNumFlashItems + 1)
      (findNextBody asserts rd filter) ctx) (fun r _ => ContextOf l r.2 ∧
        ∀ p, r.1 = some p → l.IsItem rd p) (fun _ _ => True) s := by
    intro ctx hctx
    refine Exec.wp_loop (fun ctx _ => ContextOf l ctx) (fun ctx t hctx => ?_) (fun _ _ _ => trivial) _ hctx
    refine Exec.wp_mono (wp_findNextBody asserts filter hctx t) ?_ (fun _ _ h => h)
    rintro (ctx' | ⟨item, ctx'⟩) t hr
    · exact hr
    · exact hr
  unfold findNext
  cases increment with
  | false => exact hloop ctx h
  | true => exact hloop ctx.advance h.advance

theorem found_of_findNext {ctx ctx' : FindContext} {item : Nat} {increment : Bool}
    (h : ContextOf l ctx)
    (hrun : (do
      let (item, ctx) ← findNext asserts rd filter increment ctx
      pure (item.map fun i => (i, ctx)) : Exec Unit _) () = .ret (some (item, ctx')) ()) :
    ContextOf l ctx' ∧ l.IsItem rd item := by
  obtain ⟨r, _, hnext, hret⟩ := Exec.ret_of_bind hrun
  obtain ⟨hctx, hitem⟩ := Exec.wp_of_ret (wp_findNext asserts filter h ()) hnext
  injection hret with hret _
  obtain ⟨found, hfound, heq⟩ := Option.map_eq_some_iff.mp hret
  injection heq with hitem' hctx'
  subst hitem' hctx'
  exact ⟨hctx, hitem found hfound⟩

theorem reached_of_valid (hvalid : mfhLibValidateMfhBaseAddress rd (overrideMfhHeader.getD pcdFlashNvMfh) = some l)
    {item : Nat} {ctx : FindContext} (h : Reached asserts rd overrideMfhHeader item ctx) :
    ContextOf l ctx ∧ l.IsItem rd item := by
  induction h with
  | @first filter item boot ctx found =>
    unfold mfhLibFindFirstWithFilter at found
    simp only [hvalid] at found
    exact found_of_findNext (contextOf_context l boot) found
  | @next filter item item' ctx ctx' before found ih => exact found_of_findNext ih.1 found

theorem contextOf_of_starts
    (hvalid : mfhLibValidateMfhBaseAddress rd (overrideMfhHeader.getD pcdFlashNvMfh) = some l)
    {ctx : FindContext} (h : Starts asserts rd overrideMfhHeader l ctx) : ContextOf l ctx := by
  cases h with
  | first boot => exact contextOf_context l boot
  | next reached => exact (reached_of_valid hvalid reached).1.advance

theorem contains_of_passReads {mfh : Nat} (hvalid : mfhLibValidateMfhBaseAddress rd mfh = some l)
    {ctx : FindContext} (h : ContextOf l ctx) {r : Range} (hr : r ∈ passReads rd ctx) :
    l.Contains r := by
  have hword : 4 ≤ sizeofMfhFlashItem := by decide
  unfold passReads at hr
  simp only [h.mfhHeader, h.bootPriorityList, h.itemAt] at hr
  split at hr
  · split at hr
    · cases hr
    · rename_i hindex
      rcases List.mem_cons.mp hr with rfl | hr
      · exact contains_bootIndex hvalid (Nat.not_le.mp hindex)
      · split at hr
        · cases hr
        · rename_i hitem
          rw [List.mem_singleton.mp hr]
          exact contains_item hvalid (Nat.not_le.mp hitem) hword
  · split at hr
    · cases hr
    · rename_i hitem
      rw [List.mem_singleton.mp hr]
      exact contains_item hvalid (Nat.not_le.mp hitem) hword

theorem searchesConfined_of_valid
    (hvalid : mfhLibValidateMfhBaseAddress rd (overrideMfhHeader.getD pcdFlashNvMfh) = some l) :
    SearchesConfined asserts rd overrideMfhHeader l where
  reads r hr := by
    cases hr with
    | identifier => exact contains_header hvalid (by decide : 0 + 4 ≤ 24)
    | flashItemCount => exact contains_header hvalid (by decide : 16 + 4 ≤ 24)
    | bootPriorityListCount => exact contains_header hvalid (by decide : 20 + 4 ≤ 24)
    | @pass filter ctx ctx' r starts visits read =>
      have hctx : ContextOf l ctx' := by
        refine visits.invariant (fun ctx _ => ContextOf l ctx) (fun ctx t _ h => ?_)
          (contextOf_of_starts hvalid starts)
        refine Exec.wp_mono (wp_findNextBody asserts filter h t) ?_ (fun _ _ h => h)
        rintro (ctx' | ⟨item, ctx'⟩) t hr
        · exact hr
        · trivial
      exact contains_of_passReads hvalid hctx read
    | item reached =>
      obtain ⟨index, hindex, rfl⟩ := (reached_of_valid hvalid reached).2
      exact contains_item hvalid hindex (Nat.le_refl _)
    | bootIndex lt => exact contains_bootIndex hvalid lt
  byFilter item ctx h := (reached_of_valid hvalid h).2
  byType type boot item ctx h := by
    obtain ⟨filter, _, -, hfirst⟩ := Exec.ret_of_bind h
    exact (reached_of_valid hvalid (.first hfirst)).2
  nextByType type item ctx item' ctx' before h := by
    obtain ⟨filter, _, -, hnext⟩ := Exec.ret_of_bind h
    exact (reached_of_valid hvalid (.next before hnext)).2
  byAddress address item h := by
    rw [mfhLibFindForFlashAddress_eq, itemsOf_eq hvalid] at h
    injection h with h _
    have hmem := List.mem_of_find?_eq_some h
    unfold MfhLayout.selectedItems at hmem
    obtain ⟨index, hindex, rfl⟩ := List.mem_map.mp hmem
    exact ⟨index, List.mem_range.mp (List.mem_filter.mp hindex).1, rfl⟩

theorem item_mod (l : MfhLayout) (index : Nat) : l.item index = l.item (index % 0x10000000) := by
  show u32 (l.flashItemList + 16 * index) = u32 (l.flashItemList + 16 * (index % 0x10000000))
  unfold u32
  omega

theorem isItem_item_iff {mfh : Nat} (hvalid : mfhLibValidateMfhBaseAddress rd mfh = some l) {index : Nat} :
    l.IsItem rd (l.item index) ↔ index % 0x10000000 < flashItemCount rd l.mfhHeader := by
  have hcount : flashItemCount rd l.mfhHeader ≤ 240 := flashItemCount_le_of_valid hvalid
  constructor
  · rintro ⟨j, hj, heq⟩
    change u32 (l.flashItemList + 16 * index) = u32 (l.flashItemList + 16 * j) at heq
    unfold u32 at heq
    omega
  · intro hindex
    exact ⟨_, hindex, item_mod l index⟩

/-- Every lookup stays in the MFH it looks at if and only if every entry of the boot priority list of the
system's MFH is below the number of items. An entry is shifted by four bits on the way to an address, so
that its own four highest bits do not count. -/
theorem lookupsConfined_iff (asserts : Bool) (rd : Mem) :
    LookupsConfined asserts rd ↔
      ∀ l, mfhLibValidateMfhBaseAddress rd pcdFlashNvMfh = some l →
        ∀ index ∈ l.bootList rd, index % 0x10000000 < flashItemCount rd l.mfhHeader := by
  constructor
  · rintro h l hvalid index hindex
    obtain ⟨i, hi, rfl⟩ := mem_bootList.mp hindex
    refine (isItem_item_iff hvalid).mp (h.byBootPriorityIndex l hvalid i _ ?_)
    unfold mfhLibFindFlashItemForBootPriorityIndex
    simp only [hvalid, if_pos hi]
    rfl
  · intro h
    refine ⟨fun overrideMfhHeader l hvalid => searchesConfined_of_valid hvalid, ?_⟩
    intro l hvalid i item hitem
    unfold mfhLibFindFlashItemForBootPriorityIndex at hitem
    simp only [hvalid] at hitem
    split at hitem
    · rename_i hi
      injection hitem with hitem
      rw [← hitem]
      exact (isItem_item_iff hvalid).mpr (h l hvalid _ (mem_bootList.mpr ⟨i, hi, rfl⟩))
    · cases hitem

theorem boot_priority_index_outside :
    mfhLibFindFlashItemForBootPriorityIndex (sampleMfh 5) 0 = some (pcdFlashNvMfh + 28 + 80) ∧
      ¬ LookupsConfined true (sampleMfh 5) := by
  have hvalid : mfhLibValidateMfhBaseAddress (sampleMfh 5) pcdFlashNvMfh = some sampleLayout := by rfl
  have hfound : mfhLibFindFlashItemForBootPriorityIndex (sampleMfh 5) 0 =
    some (pcdFlashNvMfh + 28 + 80) := by rfl
  refine ⟨hfound, fun h => ?_⟩
  obtain ⟨index, hindex, heq⟩ := h.byBootPriorityIndex sampleLayout hvalid 0 _ hfound
  have hcount : flashItemCount (sampleMfh 5) sampleLayout.mfhHeader = 1 := by rfl
  obtain rfl : index = 0 := by omega
  exact absurd heq (by decide)

end

end Quark.MfhLib
