import Mathlib.Data.List.Range
import Quark.Library.MfhLib

/-!
# What the searches of an MFH find

`FindNext` goes through the flash item list by index, so a search that asks for all items, and not only
for those to boot, comes by the matching items in the order of the list.
-/

namespace Quark.MfhLib

open Machine

section

variable {σ : Type} {rd : Mem} {filter : Nat} {ctx : FindContext} {s : σ}

def Passes (rd : Mem) (filter item : Nat) : Prop :=
  itemType rd item < 64 ∧ isFilterMatch filter (itemType rd item)

instance (rd : Mem) (filter item : Nat) : Decidable (Passes rd filter item) :=
  inferInstanceAs (Decidable (_ ∧ _))

def itemsFrom (rd : Mem) (filter : Nat) (ctx : FindContext) : List Nat :=
  (List.range' ctx.currFlashItemIndex
    (flashItemCount rd ctx.mfhHeader - ctx.currFlashItemIndex)).filter
      fun i => Passes rd filter (itemAt ctx i)

def Found (rd : Mem) (filter : Nat) (ctx : FindContext) (r : Option Nat × FindContext) : Prop :=
  match itemsFrom rd filter ctx with
  | [] => r.1 = none
  | j :: js => r.1 = some (itemAt ctx j) ∧ r.2 = { ctx with currFlashItemIndex := j } ∧
      itemsFrom rd filter { ctx with currFlashItemIndex := j + 1 } = js

theorem itemsFrom_of_le (h : flashItemCount rd ctx.mfhHeader ≤ ctx.currFlashItemIndex) :
    itemsFrom rd filter ctx = [] := by
  unfold itemsFrom
  rw [Nat.sub_eq_zero_of_le h]
  rfl

theorem itemsFrom_of_lt (h : ctx.currFlashItemIndex < flashItemCount rd ctx.mfhHeader) :
    itemsFrom rd filter ctx =
      if Passes rd filter (itemAt ctx ctx.currFlashItemIndex) then
        ctx.currFlashItemIndex ::
          itemsFrom rd filter { ctx with currFlashItemIndex := ctx.currFlashItemIndex + 1 }
      else itemsFrom rd filter { ctx with currFlashItemIndex := ctx.currFlashItemIndex + 1 } := by
  have hlen : flashItemCount rd ctx.mfhHeader - ctx.currFlashItemIndex =
      flashItemCount rd ctx.mfhHeader - (ctx.currFlashItemIndex + 1) + 1 := by omega
  unfold itemsFrom
  rw [hlen, List.range'_succ, List.filter_cons]
  simp only [decide_eq_true_eq]
  rfl

theorem length_itemsFrom_le (rd : Mem) (filter : Nat) (ctx : FindContext) :
    (itemsFrom rd filter ctx).length ≤
      flashItemCount rd ctx.mfhHeader - ctx.currFlashItemIndex := by
  unfold itemsFrom
  refine le_trans (List.length_filter_le _ _) ?_
  rw [List.length_range']

theorem loop_findNextBody (asserts : Bool) (filter : Nat) {ctx : FindContext} (hboot : ctx.onlyBootFlashItems = false) {n : Nat}
    (hn : flashItemCount rd ctx.mfhHeader - ctx.currFlashItemIndex < n) (s : σ) :
    ∃ r, (Exec.loop n (findNextBody asserts rd filter) ctx : Exec σ _) s = .ret r s ∧
      Found rd filter ctx r := by
  induction n generalizing ctx with
  | zero => omega
  | succ n ih =>
    by_cases hend : flashItemCount rd ctx.mfhHeader ≤ ctx.currFlashItemIndex
    · have hbody : findNextBody asserts rd filter ctx s = .ret (.inr (none, ctx)) s := by
        simp only [findNextBody, hboot, if_pos hend]
        rfl
      refine ⟨_, Exec.loop_of_inr hbody n, ?_⟩
      unfold Found
      rw [itemsFrom_of_le hend]
    · have hlt : ctx.currFlashItemIndex < flashItemCount rd ctx.mfhHeader := by omega
      by_cases hpass : Passes rd filter (itemAt ctx ctx.currFlashItemIndex)
      · have hbody : findNextBody asserts rd filter ctx s =
            .ret (.inr (some (itemAt ctx ctx.currFlashItemIndex), ctx)) s := by
          have hpass' := hpass
          unfold Passes at hpass'
          simp only [findNextBody, hboot, if_neg hend, if_pos hpass']
          rfl
        refine ⟨_, Exec.loop_of_inr hbody n, ?_⟩
        unfold Found
        rw [itemsFrom_of_lt hlt, if_pos hpass]
        exact ⟨rfl, rfl, rfl⟩
      · have hbody : findNextBody asserts rd filter ctx s =
            .ret (.inl { ctx with currFlashItemIndex := ctx.currFlashItemIndex + 1 }) s := by
          have hpass' := hpass
          unfold Passes at hpass'
          simp only [findNextBody, hboot, if_neg hend, if_neg hpass']
          rfl
        have hmore : flashItemCount rd ctx.mfhHeader - (ctx.currFlashItemIndex + 1) < n := by omega
        have hboot' : (FindContext.onlyBootFlashItems
            { ctx with currFlashItemIndex := ctx.currFlashItemIndex + 1 }) = false := hboot
        obtain ⟨r, hr, hfound⟩ := ih hboot' hmore
        refine ⟨r, (Exec.loop_of_inl hbody n).trans hr, ?_⟩
        unfold Found at hfound ⊢
        rw [itemsFrom_of_lt hlt, if_neg hpass]
        exact hfound

theorem mfhLibFindNextWithFilter_ret (asserts : Bool) (filter : Nat) {ctx : FindContext}
    (hboot : ctx.onlyBootFlashItems = false)
    (hcount : flashItemCount rd ctx.mfhHeader ≤ mfhMaxNumFlashItems) (s : σ) :
    ∃ r, (mfhLibFindNextWithFilter asserts rd filter ctx : Exec σ _) s =
        .ret (r.1.map fun i => (i, r.2)) s ∧
      Found rd filter { ctx with currFlashItemIndex := ctx.currFlashItemIndex + 1 } r := by
  have hfuel : flashItemCount rd ctx.mfhHeader - (ctx.currFlashItemIndex + 1) <
      mfhMaxNumFlashItems + 1 := by omega
  have hboot' : (FindContext.onlyBootFlashItems
      { ctx with currFlashItemIndex := ctx.currFlashItemIndex + 1 }) = false := hboot
  obtain ⟨r, hr, hfound⟩ := loop_findNextBody asserts filter hboot' hfuel s
  refine ⟨r, ?_, hfound⟩
  have hnext : (findNext asserts rd filter true ctx : Exec σ _) s = .ret r s := by
    unfold findNext
    rw [if_pos rfl, if_neg (by rw [hboot]; decide)]
    exact hr
  unfold mfhLibFindNextWithFilter
  rw [Exec.bind_of_ret hnext]
  rfl

def MfhLayout.start (l : MfhLayout) : FindContext :=
  { mfhHeader := l.mfhHeader, bootPriorityList := l.bootPriorityList,
    flashItemList := l.flashItemList, currBootPriorityListIndex := 0, currFlashItemIndex := 0,
    onlyBootFlashItems := false }

theorem flashItemCount_le_of_valid {mfh : Nat} {l : MfhLayout}
    (h : mfhLibValidateMfhBaseAddress rd mfh = some l) :
    flashItemCount rd l.mfhHeader ≤ mfhMaxNumFlashItems := by
  unfold mfhLibValidateMfhBaseAddress at h
  split at h
  · cases h
  · split at h
    · cases h
    · split at h
      · cases h
      · injection h with h
        subst h
        show flashItemCount rd mfh ≤ _
        omega

def itemsOf (rd : Mem) (overrideMfhHeader : Option Nat) (filter : Nat) : List Nat :=
  match mfhLibValidateMfhBaseAddress rd (overrideMfhHeader.getD pcdFlashNvMfh) with
  | none => []
  | some l => (itemsFrom rd filter l.start).map (itemAt l.start)

theorem mfhLibFindFirstWithFilter_invalid (asserts : Bool) {overrideMfhHeader : Option Nat}
    (h : mfhLibValidateMfhBaseAddress rd (overrideMfhHeader.getD pcdFlashNvMfh) = none) (s : σ) :
    (mfhLibFindFirstWithFilter asserts rd overrideMfhHeader filter false : Exec σ _) s =
      .ret none s := by
  unfold mfhLibFindFirstWithFilter
  simp only [h]
  rfl

theorem mfhLibFindFirstWithFilter_ret (asserts : Bool) (filter : Nat) {overrideMfhHeader : Option Nat}
    {l : MfhLayout}
    (h : mfhLibValidateMfhBaseAddress rd (overrideMfhHeader.getD pcdFlashNvMfh) = some l) (s : σ) :
    ∃ r, (mfhLibFindFirstWithFilter asserts rd overrideMfhHeader filter false : Exec σ _) s =
        .ret (r.1.map fun i => (i, r.2)) s ∧
      Found rd filter l.start r := by
  have hcount := flashItemCount_le_of_valid h
  have hfuel : flashItemCount rd l.start.mfhHeader - l.start.currFlashItemIndex <
      mfhMaxNumFlashItems + 1 := by
    show flashItemCount rd l.mfhHeader - 0 < _
    omega
  obtain ⟨r, hr, hfound⟩ := loop_findNextBody asserts filter rfl hfuel s
  refine ⟨r, ?_, hfound⟩
  have hnext : (findNext asserts rd filter false l.start : Exec σ _) s = .ret r s := by
    unfold findNext
    rw [if_neg (by decide)]
    exact hr
  unfold mfhLibFindFirstWithFilter
  simp only [h]
  exact Exec.bind_of_ret hnext

theorem loop_findForFlashAddress (asserts : Bool) (flashAddress : Nat) {r : Option Nat × FindContext}
    (hboot : ctx.onlyBootFlashItems = false)
    (hcount : flashItemCount rd ctx.mfhHeader ≤ mfhMaxNumFlashItems)
    (hfound : Found rd findAnyFitFilter ctx r) {n : Nat}
    (hn : (itemsFrom rd findAnyFitFilter ctx).length < n) (s : σ) :
    (Exec.loop n (fun cur => match cur with
      | none => pure (.inr none)
      | some (item, ctx) =>
        if itemFlashAddress rd item = flashAddress then pure (.inr (some item))
        else do
          let next ← mfhLibFindNextWithFilter asserts rd findAnyFitFilter ctx
          pure (.inl next)) (r.1.map fun i => (i, r.2)) : Exec σ _) s =
      .ret (((itemsFrom rd findAnyFitFilter ctx).map (itemAt ctx)).find?
        fun item => itemFlashAddress rd item = flashAddress) s := by
  induction n generalizing ctx r with
  | zero => omega
  | succ n ih =>
    unfold Found at hfound
    cases hitems : itemsFrom rd findAnyFitFilter ctx with
    | nil =>
      rw [hitems] at hfound
      rw [hfound]
      exact Exec.loop_of_inr rfl n
    | cons j js =>
      rw [hitems] at hfound hn
      obtain ⟨hitem, hctx, hjs⟩ := hfound
      rw [hitem, Option.map_some, List.map_cons, List.find?_cons]
      by_cases haddr : itemFlashAddress rd (itemAt ctx j) = flashAddress
      · rw [decide_eq_true haddr]
        refine Exec.loop_of_inr ?_ n
        simp only [if_pos haddr]
        rfl
      · rw [decide_eq_false haddr]
        have hboot' : (FindContext.onlyBootFlashItems { ctx with currFlashItemIndex := j }) = false :=
          hboot
        have hboot'' : (FindContext.onlyBootFlashItems
            { ctx with currFlashItemIndex := j + 1 }) = false := hboot
        obtain ⟨r', hr', hfound'⟩ :=
          mfhLibFindNextWithFilter_ret asserts findAnyFitFilter hboot' hcount s
        have hrest := ih hboot'' hcount hfound' (by rw [hjs]; exact Nat.lt_of_succ_lt_succ hn)
        rw [hjs] at hrest
        refine (Exec.loop_of_inl ?_ n).trans hrest
        simp only [if_neg haddr, hctx]
        exact Exec.bind_of_ret hr'

theorem mfhLibFindForFlashAddress_eq (asserts : Bool) (rd : Mem) (overrideMfhHeader : Option Nat)
    (flashAddress : Nat) (s : σ) :
    (mfhLibFindForFlashAddress asserts rd overrideMfhHeader flashAddress : Exec σ _) s =
      .ret ((itemsOf rd overrideMfhHeader findAnyFitFilter).find?
        fun item => itemFlashAddress rd item = flashAddress) s := by
  unfold mfhLibFindForFlashAddress itemsOf
  cases hvalid : mfhLibValidateMfhBaseAddress rd (overrideMfhHeader.getD pcdFlashNvMfh) with
  | none =>
    rw [Exec.bind_of_ret (mfhLibFindFirstWithFilter_invalid asserts hvalid s)]
    rfl
  | some l =>
    obtain ⟨r, hr, hfound⟩ :=
      mfhLibFindFirstWithFilter_ret asserts findAnyFitFilter hvalid s
    rw [Exec.bind_of_ret hr]
    have hcount : flashItemCount rd l.start.mfhHeader ≤ _ := flashItemCount_le_of_valid hvalid
    refine loop_findForFlashAddress asserts flashAddress rfl hcount hfound ?_ s
    have hlen := length_itemsFrom_le rd findAnyFitFilter l.start
    omega

end

/-! ## Searches of an MFH to their end

A caller calls `MfhLibFindFirstWithFilter` once and `MfhLibFindNextWithFilter` until it returns `NULL`.
`Yields` says what such a caller comes by, and whether the search ends or runs into the `ASSERT` on the
boot priority list.
-/

abbrev Search := (σ : Type) → Exec σ (Option (Nat × FindContext))

/-- The call `x` and the calls of `MfhLibFindNextWithFilter` after it find the items one by one. After
the last one the search ends, or it stops in an `ASSERT`. -/
def Yields (asserts : Bool) (rd : Mem) (filter : Nat) (stops : Bool) : List Nat → Search → Prop
  | [], x => ∀ σ (s : σ), x σ s = if stops then .stop .deadLoop s else .ret none s
  | item :: items, x => ∃ ctx, (∀ σ (s : σ), x σ s = .ret (some (item, ctx)) s) ∧
      Yields asserts rd filter stops items fun _ => mfhLibFindNextWithFilter asserts rd filter ctx

/-! ## All items -/

section

variable {rd : Mem} {filter : Nat}

theorem yields_of_found (asserts : Bool) (ctx : FindContext) (hboot : ctx.onlyBootFlashItems = false)
    (hcount : flashItemCount rd ctx.mfhHeader ≤ mfhMaxNumFlashItems) {x : Search}
    (hx : ∀ σ (s : σ), ∃ r, x σ s = .ret (r.1.map fun i => (i, r.2)) s ∧ Found rd filter ctx r) :
    Yields asserts rd filter false ((itemsFrom rd filter ctx).map (itemAt ctx)) x := by
  generalize hitems : itemsFrom rd filter ctx = items
  induction items generalizing ctx x with
  | nil =>
    intro σ s
    obtain ⟨r, hr, hfound⟩ := hx σ s
    unfold Found at hfound
    rw [hitems] at hfound
    rw [hr, hfound]
    rfl
  | cons j js ih =>
    refine ⟨{ ctx with currFlashItemIndex := j }, fun σ s => ?_, ?_⟩
    · obtain ⟨r, hr, hfound⟩ := hx σ s
      unfold Found at hfound
      rw [hitems] at hfound
      rw [hr, hfound.1, hfound.2.1]
      rfl
    · have hjs : itemsFrom rd filter { ctx with currFlashItemIndex := j + 1 } = js := by
        obtain ⟨r, hr, hfound⟩ := hx Unit ()
        unfold Found at hfound
        rw [hitems] at hfound
        exact hfound.2.2
      refine ih { ctx with currFlashItemIndex := j + 1 } hboot hcount (fun σ s => ?_) hjs
      have hboot' : (FindContext.onlyBootFlashItems { ctx with currFlashItemIndex := j }) = false := hboot
      exact mfhLibFindNextWithFilter_ret asserts filter hboot' hcount s

theorem yields_all (asserts : Bool) (rd : Mem) (overrideMfhHeader : Option Nat) (filter : Nat) :
    Yields asserts rd filter false (itemsOf rd overrideMfhHeader filter)
      fun _ => mfhLibFindFirstWithFilter asserts rd overrideMfhHeader filter false := by
  unfold itemsOf
  cases hvalid : mfhLibValidateMfhBaseAddress rd (overrideMfhHeader.getD pcdFlashNvMfh) with
  | none => exact fun σ s => mfhLibFindFirstWithFilter_invalid asserts hvalid s
  | some l =>
    have hcount : flashItemCount rd l.start.mfhHeader ≤ mfhMaxNumFlashItems :=
      flashItemCount_le_of_valid hvalid
    exact yields_of_found asserts l.start rfl hcount fun σ s =>
      mfhLibFindFirstWithFilter_ret asserts filter hvalid s

end

/-! ## Items to boot -/

section

variable {rd : Mem} {filter : Nat} {ctx : FindContext}

def bootEntry (rd : Mem) (ctx : FindContext) (i : Nat) : Nat :=
  rd.rd32 (ctx.bootPriorityList + 4 * i)

def BootEntryFits (rd : Mem) (ctx : FindContext) (i : Nat) : Prop :=
  bootEntry rd ctx i < flashItemCount rd ctx.mfhHeader ∧
    itemType rd (itemAt ctx (bootEntry rd ctx i)) ≤ 63

instance (rd : Mem) (ctx : FindContext) (i : Nat) : Decidable (BootEntryFits rd ctx i) :=
  inferInstanceAs (Decidable (_ ∧ _))

def bootIndices (rd : Mem) (ctx : FindContext) (b : Nat) : List Nat :=
  List.range' b (bootPriorityListCount rd ctx.mfhHeader - b)

/-- The matching items that the entries from `b` on refer to, up to the entry at which the `ASSERT`
fails. -/
def bootItemsFrom (asserts : Bool) (rd : Mem) (filter : Nat) (ctx : FindContext) (b : Nat) : List Nat :=
  (((bootIndices rd ctx b).takeWhile fun i => asserts = false ∨ BootEntryFits rd ctx i).filter fun i =>
    BootEntryFits rd ctx i ∧ isFilterMatch filter (itemType rd (itemAt ctx (bootEntry rd ctx i)))).map
      fun i => itemAt ctx (bootEntry rd ctx i)

def bootStops (asserts : Bool) (rd : Mem) (ctx : FindContext) (b : Nat) : Bool :=
  (bootIndices rd ctx b).any fun i => asserts ∧ ¬ BootEntryFits rd ctx i

theorem bootIndices_of_le {b : Nat} (h : bootPriorityListCount rd ctx.mfhHeader ≤ b) :
    bootIndices rd ctx b = [] := by
  unfold bootIndices
  rw [Nat.sub_eq_zero_of_le h]
  rfl

theorem bootIndices_of_lt {b : Nat} (h : b < bootPriorityListCount rd ctx.mfhHeader) :
    bootIndices rd ctx b = b :: bootIndices rd ctx (b + 1) := by
  have hlen : bootPriorityListCount rd ctx.mfhHeader - b =
      bootPriorityListCount rd ctx.mfhHeader - (b + 1) + 1 := by omega
  unfold bootIndices
  rw [hlen, List.range'_succ]

theorem bootStops_of_lt {asserts : Bool} {b : Nat} (h : b < bootPriorityListCount rd ctx.mfhHeader) :
    bootStops asserts rd ctx b =
      (decide (asserts ∧ ¬ BootEntryFits rd ctx b) || bootStops asserts rd ctx (b + 1)) := by
  unfold bootStops
  rw [bootIndices_of_lt h, List.any_cons]

theorem bootItemsFrom_of_lt {asserts : Bool} {b : Nat}
    (h : b < bootPriorityListCount rd ctx.mfhHeader) :
    bootItemsFrom asserts rd filter ctx b =
      if asserts = false ∨ BootEntryFits rd ctx b then
        if BootEntryFits rd ctx b ∧
            isFilterMatch filter (itemType rd (itemAt ctx (bootEntry rd ctx b))) then
          itemAt ctx (bootEntry rd ctx b) :: bootItemsFrom asserts rd filter ctx (b + 1)
        else bootItemsFrom asserts rd filter ctx (b + 1)
      else [] := by
  unfold bootItemsFrom
  rw [bootIndices_of_lt h, List.takeWhile_cons]
  by_cases hgo : asserts = false ∨ BootEntryFits rd ctx b
  · rw [if_pos (decide_eq_true hgo), if_pos hgo, List.filter_cons]
    simp only [decide_eq_true_eq]
    split <;> rfl
  · rw [if_neg (by simpa using hgo), if_neg hgo]
    rfl

def searchAt (asserts : Bool) (rd : Mem) (filter n : Nat) (ctx : FindContext) : Search := fun _ => do
  let (item, ctx) ← .loop n (findNextBody asserts rd filter) ctx
  pure (item.map fun i => (i, ctx))

theorem searchAt_of_inl {asserts : Bool} {ctx' : FindContext} {n : Nat} {σ : Type} {s : σ}
    (h : findNextBody asserts rd filter ctx s = .ret (.inl ctx') s) :
    searchAt asserts rd filter (n + 1) ctx σ s = searchAt asserts rd filter n ctx' σ s := by
  unfold searchAt
  show Exec.bind _ _ s = Exec.bind _ _ s
  unfold Exec.bind
  rw [Exec.loop_of_inl h]

theorem searchAt_of_inr {asserts : Bool} {r : Option Nat × FindContext} {n : Nat} {σ : Type} {s : σ}
    (h : findNextBody asserts rd filter ctx s = .ret (.inr r) s) :
    searchAt asserts rd filter (n + 1) ctx σ s = .ret (r.1.map fun i => (i, r.2)) s := by
  unfold searchAt
  rw [Exec.bind_of_ret (Exec.loop_of_inr h n)]
  rfl

def FindContext.looked (ctx : FindContext) (rd : Mem) : FindContext :=
  { ctx with currFlashItemIndex := bootEntry rd ctx ctx.currBootPriorityListIndex }

def FindContext.nextEntry (ctx : FindContext) (rd : Mem) : FindContext :=
  { ctx.looked rd with currBootPriorityListIndex := ctx.currBootPriorityListIndex + 1 }

section

variable {σ : Type} {s : σ}

theorem findNextBody_end (asserts : Bool) (hboot : ctx.onlyBootFlashItems = true)
    (h : bootPriorityListCount rd ctx.mfhHeader ≤ ctx.currBootPriorityListIndex) :
    findNextBody asserts rd filter ctx s = .ret (.inr (none, ctx)) s := by
  unfold findNextBody
  rw [if_pos hboot, if_pos h]
  rfl

theorem findNextBody_misfit (asserts : Bool) (filter : Nat) (s : σ) (hboot : ctx.onlyBootFlashItems = true)
    (h : ctx.currBootPriorityListIndex < bootPriorityListCount rd ctx.mfhHeader)
    (hfits : ¬ BootEntryFits rd ctx ctx.currBootPriorityListIndex) :
    findNextBody asserts rd filter ctx s =
      if asserts then .stop .deadLoop s else .ret (.inl (ctx.nextEntry rd)) s := by
  have hmisfit : flashItemCount rd ctx.mfhHeader ≤ bootEntry rd ctx ctx.currBootPriorityListIndex ∨
      63 < itemType rd (itemAt ctx (bootEntry rd ctx ctx.currBootPriorityListIndex)) := by
    unfold BootEntryFits at hfits
    omega
  unfold findNextBody
  rw [if_pos hboot, if_neg (Nat.not_le.mpr h)]
  change (if flashItemCount rd ctx.mfhHeader ≤ bootEntry rd ctx ctx.currBootPriorityListIndex ∨
    63 < itemType rd (itemAt ctx (bootEntry rd ctx ctx.currBootPriorityListIndex)) then _ else _ :
      Exec σ _) s = _
  rw [if_pos hmisfit]
  cases asserts <;> rfl

theorem findNextBody_fits (asserts : Bool) (filter : Nat) (s : σ) (hboot : ctx.onlyBootFlashItems = true)
    (h : ctx.currBootPriorityListIndex < bootPriorityListCount rd ctx.mfhHeader)
    (hfits : BootEntryFits rd ctx ctx.currBootPriorityListIndex) :
    findNextBody asserts rd filter ctx s =
      if isFilterMatch filter
          (itemType rd (itemAt ctx (bootEntry rd ctx ctx.currBootPriorityListIndex))) then
        .ret (.inr (some (itemAt ctx (bootEntry rd ctx ctx.currBootPriorityListIndex)),
          ctx.looked rd)) s
      else .ret (.inl (ctx.nextEntry rd)) s := by
  have hfit : ¬ (flashItemCount rd ctx.mfhHeader ≤ bootEntry rd ctx ctx.currBootPriorityListIndex ∨
      63 < itemType rd (itemAt ctx (bootEntry rd ctx ctx.currBootPriorityListIndex))) := by
    unfold BootEntryFits at hfits
    omega
  unfold findNextBody
  rw [if_pos hboot, if_neg (Nat.not_le.mpr h)]
  change (if flashItemCount rd ctx.mfhHeader ≤ bootEntry rd ctx ctx.currBootPriorityListIndex ∨
    63 < itemType rd (itemAt ctx (bootEntry rd ctx ctx.currBootPriorityListIndex)) then _ else
      if isFilterMatch filter
        (itemType rd (itemAt ctx (bootEntry rd ctx ctx.currBootPriorityListIndex))) then _ else _ :
      Exec σ _) s = _
  rw [if_neg hfit]
  split <;> rfl

end

theorem searchAt_next (asserts : Bool) (hboot : ctx.onlyBootFlashItems = true) :
    (fun _ => mfhLibFindNextWithFilter asserts rd filter (ctx.looked rd) : Search) =
      searchAt asserts rd filter (mfhMaxNumFlashItems + 1) (ctx.nextEntry rd) := by
  have hlooked : (ctx.looked rd).onlyBootFlashItems = true := hboot
  funext σ
  unfold mfhLibFindNextWithFilter findNext searchAt
  rw [if_pos rfl, if_pos hlooked]
  rfl

theorem yields_searchAt (asserts : Bool) {n : Nat} (hboot : ctx.onlyBootFlashItems = true)
    (hcount : bootPriorityListCount rd ctx.mfhHeader ≤ mfhMaxNumBootItems)
    (hn : bootPriorityListCount rd ctx.mfhHeader - ctx.currBootPriorityListIndex < n) :
    Yields asserts rd filter (bootStops asserts rd ctx ctx.currBootPriorityListIndex)
      (bootItemsFrom asserts rd filter ctx ctx.currBootPriorityListIndex)
      (searchAt asserts rd filter n ctx) := by
  obtain ⟨n, rfl⟩ : ∃ m, n = m + 1 := ⟨n - 1, by omega⟩
  induction hrem : bootPriorityListCount rd ctx.mfhHeader - ctx.currBootPriorityListIndex
    generalizing ctx n with
  | zero =>
    have hle : bootPriorityListCount rd ctx.mfhHeader ≤ ctx.currBootPriorityListIndex := by omega
    unfold bootStops bootItemsFrom
    rw [bootIndices_of_le hle]
    exact fun σ s => searchAt_of_inr (findNextBody_end asserts hboot hle)
  | succ rem ih =>
    have hlt : ctx.currBootPriorityListIndex < bootPriorityListCount rd ctx.mfhHeader := by omega
    have hnext : ∀ m, rem < m + 1 → Yields asserts rd filter
        (bootStops asserts rd ctx (ctx.currBootPriorityListIndex + 1))
        (bootItemsFrom asserts rd filter ctx (ctx.currBootPriorityListIndex + 1))
        (searchAt asserts rd filter (m + 1) (ctx.nextEntry rd)) := by
      intro m hm
      have hrem' : bootPriorityListCount rd ctx.mfhHeader -
        (ctx.currBootPriorityListIndex + 1) = rem := by omega
      have hfuel : bootPriorityListCount rd ctx.mfhHeader -
        (ctx.currBootPriorityListIndex + 1) < m + 1 := by omega
      exact @ih (ctx.nextEntry rd) hboot hcount m hfuel hrem'
    -- The call under way goes on to the next entry.
    have hskip : (∀ σ (s : σ), findNextBody asserts rd filter ctx s = .ret (.inl (ctx.nextEntry rd)) s) →
        Yields asserts rd filter (bootStops asserts rd ctx (ctx.currBootPriorityListIndex + 1))
          (bootItemsFrom asserts rd filter ctx (ctx.currBootPriorityListIndex + 1))
          (searchAt asserts rd filter (n + 1) ctx) := by
      intro hbody
      obtain ⟨m, rfl⟩ : ∃ m, n = m + 1 := ⟨n - 1, by omega⟩
      have hsame : searchAt asserts rd filter (m + 1 + 1) ctx =
          searchAt asserts rd filter (m + 1) (ctx.nextEntry rd) := by
        funext σ s
        exact searchAt_of_inl (hbody σ s)
      rw [hsame]
      exact hnext m (by omega)
    rw [bootStops_of_lt hlt, bootItemsFrom_of_lt hlt]
    by_cases hfits : BootEntryFits rd ctx ctx.currBootPriorityListIndex
    · have hbody := fun σ (s : σ) => findNextBody_fits asserts filter s hboot hlt hfits
      have hgo : decide (asserts = true ∧ ¬ BootEntryFits rd ctx ctx.currBootPriorityListIndex) = false :=
        decide_eq_false fun h => h.2 hfits
      rw [if_pos (.inr hfits), hgo, Bool.false_or]
      by_cases hmatch : isFilterMatch filter
          (itemType rd (itemAt ctx (bootEntry rd ctx ctx.currBootPriorityListIndex))) = true
      · rw [if_pos ⟨hfits, hmatch⟩]
        refine ⟨ctx.looked rd, fun σ s => searchAt_of_inr ((hbody σ s).trans (if_pos hmatch)), ?_⟩
        have hmax : mfhMaxNumBootItems < mfhMaxNumFlashItems := by decide
        rw [searchAt_next asserts hboot]
        exact hnext _ (by omega)
      · rw [if_neg fun h => hmatch h.2]
        exact hskip fun σ s => (hbody σ s).trans (if_neg hmatch)
    · have hbody := fun σ (s : σ) => findNextBody_misfit asserts filter s hboot hlt hfits
      cases asserts with
      | true =>
        have hstop : ¬ (true = false ∨ BootEntryFits rd ctx ctx.currBootPriorityListIndex) := by
          simpa using hfits
        rw [if_neg hstop]
        intro σ s
        unfold searchAt
        show Exec.bind (Exec.bind _ _) _ s = _
        unfold Exec.bind
        rw [hbody σ s, decide_eq_true ⟨rfl, hfits⟩]
        rfl
      | false =>
        rw [if_pos (.inl rfl), if_neg fun h => hfits h.1]
        exact hskip fun σ s => hbody σ s

def MfhLayout.bootStart (l : MfhLayout) : FindContext := { l.start with onlyBootFlashItems := true }

/-- The matching items that the boot priority list of the MFH refers to, up to the entry at which the
`ASSERT` fails. -/
def bootItemsOf (asserts : Bool) (rd : Mem) (overrideMfhHeader : Option Nat) (filter : Nat) : List Nat :=
  match mfhLibValidateMfhBaseAddress rd (overrideMfhHeader.getD pcdFlashNvMfh) with
  | none => []
  | some l => bootItemsFrom asserts rd filter l.bootStart 0

def bootStopsOf (asserts : Bool) (rd : Mem) (overrideMfhHeader : Option Nat) : Bool :=
  match mfhLibValidateMfhBaseAddress rd (overrideMfhHeader.getD pcdFlashNvMfh) with
  | none => false
  | some l => bootStops asserts rd l.bootStart 0

theorem bootPriorityListCount_le_of_valid {mfh : Nat} {l : MfhLayout}
    (h : mfhLibValidateMfhBaseAddress rd mfh = some l) :
    bootPriorityListCount rd l.mfhHeader ≤ mfhMaxNumBootItems := by
  unfold mfhLibValidateMfhBaseAddress at h
  split at h
  · cases h
  · split at h
    · cases h
    · split at h
      · cases h
      · injection h with h
        subst h
        show bootPriorityListCount rd mfh ≤ _
        omega

theorem yields_boot (asserts : Bool) (rd : Mem) (overrideMfhHeader : Option Nat) (filter : Nat) :
    Yields asserts rd filter (bootStopsOf asserts rd overrideMfhHeader)
      (bootItemsOf asserts rd overrideMfhHeader filter)
      fun _ => mfhLibFindFirstWithFilter asserts rd overrideMfhHeader filter true := by
  unfold bootStopsOf bootItemsOf
  cases hvalid : mfhLibValidateMfhBaseAddress rd (overrideMfhHeader.getD pcdFlashNvMfh) with
  | none =>
    intro σ s
    unfold mfhLibFindFirstWithFilter
    simp only [hvalid]
    rfl
  | some l =>
    have hcount : bootPriorityListCount rd l.bootStart.mfhHeader ≤ mfhMaxNumBootItems :=
      bootPriorityListCount_le_of_valid hvalid
    have hmax : mfhMaxNumBootItems < mfhMaxNumFlashItems := by decide
    have hfirst : (fun _ => mfhLibFindFirstWithFilter asserts rd overrideMfhHeader filter true : Search) =
        searchAt asserts rd filter (mfhMaxNumFlashItems + 1) l.bootStart := by
      funext σ
      unfold mfhLibFindFirstWithFilter searchAt
      simp only [hvalid]
      rfl
    rw [hfirst]
    exact yields_searchAt asserts rfl hcount (by omega)

end

/-! ## Loops of callers -/

section

variable {α ρ : Type}

/-- What a caller makes of the items that its search yields: `visit` goes on with another `α`, or has a
result. -/
def walk (visit : α → Nat → α ⊕ Except Stop ρ) (finish : α → Except Stop ρ) :
    α → List Nat → Except Stop ρ
  | a, [] => finish a
  | a, item :: items =>
    match visit a item with
    | .inl a' => walk visit finish a' items
    | .inr r => r

def settle {σ : Type} (s : σ) : Except Stop ρ → Outcome σ ρ
  | .ok r => .ret r s
  | .error w => .stop w s

variable {σ ℓ : Type} {asserts stops : Bool} {rd : Mem} {filter : Nat}
  (body : ℓ → Exec σ (ℓ ⊕ ρ)) (head : α → Option (Nat × FindContext) → ℓ)
  (visit : α → Nat → α ⊕ Except Stop ρ) (finish : α → ρ)

theorem loop_of_yields (s : σ)
    (hnone : ∀ a, body (head a none) s = .ret (.inr (finish a)) s)
    (hsome : ∀ a item ctx, body (head a (some (item, ctx))) s = match visit a item with
      | .inl a' => (do
          let next ← mfhLibFindNextWithFilter asserts rd filter ctx
          pure (.inl (head a' next)) : Exec σ (ℓ ⊕ ρ)) s
      | .inr r => settle s (r.map .inr))
    {items : List Nat} {x : Search} (hx : Yields asserts rd filter stops items x) {n : Nat}
    (hn : items.length < n) (a : α) :
    (do let cur ← x σ; Exec.loop n body (head a cur)) s =
      settle s (walk visit (fun a => if stops then .error .deadLoop else .ok (finish a)) a items) := by
  induction items generalizing a x n with
  | nil =>
    obtain ⟨n, rfl⟩ : ∃ m, n = m + 1 := ⟨n - 1, by omega⟩
    have hend := hx σ s
    cases stops with
    | true =>
      show Exec.bind _ _ s = _
      unfold Exec.bind
      rw [hend]
      rfl
    | false =>
      rw [Exec.bind_of_ret hend]
      exact Exec.loop_of_inr (hnone a) n
  | cons item items ih =>
    obtain ⟨n, rfl⟩ : ∃ m, n = m + 1 := ⟨n - 1, by omega⟩
    obtain ⟨ctx, hfirst, hrest⟩ := hx
    have hbody := hsome a item ctx
    rw [Exec.bind_of_ret (hfirst σ s)]
    unfold walk
    cases hvisit : visit a item with
    | inr r =>
      rw [hvisit] at hbody
      cases r with
      | ok r => exact Exec.loop_of_inr hbody n
      | error w =>
        show Exec.bind _ _ s = _
        unfold Exec.bind
        rw [hbody]
        rfl
    | inl a' =>
      rw [hvisit] at hbody
      change body (head a (some (item, ctx))) s = ((mfhLibFindNextWithFilter asserts rd filter ctx >>=
        fun next => pure (.inl (head a' next))) : Exec σ (ℓ ⊕ ρ)) s at hbody
      rw [← ih hrest (Nat.lt_of_succ_lt_succ hn) a']
      cases hnext : mfhLibFindNextWithFilter asserts rd filter ctx s with
      | ret next t =>
        rw [Exec.bind_of_ret hnext] at hbody ⊢
        exact Exec.loop_of_inl hbody n
      | stop w t =>
        change _ = Exec.bind _ _ s at hbody
        unfold Exec.bind at hbody
        rw [hnext] at hbody
        show Exec.bind _ _ s = Exec.bind _ _ s
        unfold Exec.bind
        rw [hbody, hnext]

end

end Quark.MfhLib
