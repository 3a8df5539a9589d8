import Quark.PlatformInit.Proofs.MemoryMapProofs
import Mathlib.Data.List.TakeWhile

/-!
# Properties of the hand-off
-/

namespace Quark.PlatformInit

open Machine Machine.Exec

section

variable (platform : Platform)

def Known (entries : List MemoryTypeInformation) : Prop :=
  platform.enabled = true → ∀ entry ∈ entries, entry.type < platform.efiMaxMemoryType

theorem usedEntries_cons (entry : MemoryTypeInformation) (data : List MemoryTypeInformation) :
    usedEntries platform (entry :: data) =
      if Terminates platform entry then [] else entry :: usedEntries platform data := by
  unfold usedEntries
  rw [List.takeWhile_cons]
  by_cases h : Terminates platform entry <;> simp [h]

theorem addMemoryData_ret (data : List MemoryTypeInformation) (memorySize : Nat) (hobs : List Hob)
    (h : Known platform (usedEntries platform data)) :
    addMemoryData platform data memorySize hobs =
      .ret (peiMemoryLength (usedEntries platform data) memorySize) hobs := by
  induction data generalizing memorySize with
  | nil => rfl
  | cons entry data ih =>
    rw [usedEntries_cons] at h ⊢
    rw [addMemoryData]
    by_cases hterm : Terminates platform entry
    · have htype : entry.type = platform.efiMaxMemoryType := hterm
      rw [if_pos htype, if_pos hterm]
      rfl
    · have htype : ¬ entry.type = platform.efiMaxMemoryType := hterm
      rw [if_neg hterm] at h
      rw [if_neg htype, if_neg hterm]
      have hassert := assert_of (fun henabled => h henabled entry List.mem_cons_self) hobs
      rw [bind_of_ret hassert]
      exact ih _ fun henabled e he => h henabled e (List.mem_cons_of_mem entry he)

theorem known_of_addMemoryData {data : List MemoryTypeInformation} {memorySize r : Nat}
    {hobs hobs' : List Hob} (h : addMemoryData platform data memorySize hobs = .ret r hobs') :
    Known platform (usedEntries platform data) := by
  induction data generalizing memorySize hobs with
  | nil =>
    intro _ entry hentry
    cases hentry
  | cons entry data ih =>
    rw [usedEntries_cons]
    rw [addMemoryData] at h
    by_cases hterm : Terminates platform entry
    · rw [if_pos hterm]
      intro _ entry hentry
      cases hentry
    · have htype : ¬ entry.type = platform.efiMaxMemoryType := hterm
      rw [if_neg htype] at h
      rw [if_neg hterm]
      obtain ⟨_, u, hassert, hrest⟩ := ret_of_bind h
      intro henabled e he
      rcases List.mem_cons.mp he with rfl | he
      · exact (of_assert hassert).1 henabled
      · exact ih hrest henabled e he

theorem getPlatformMemorySize_ret (hobs : List Hob) (h : Known platform (countedEntries platform)) :
    getPlatformMemorySize platform hobs =
      .ret (peiMemoryLength (countedEntries platform) peiMinMemorySize)
        (hobs ++ [.memoryTypeInformation (memoryData platform)]) := by
  unfold getPlatformMemorySize
  rw [bind_of_ret (addMemoryData_ret platform _ _ hobs h)]
  rfl

theorem known_of_getPlatformMemorySize {r : Nat} {hobs hobs' : List Hob}
    (h : getPlatformMemorySize platform hobs = .ret r hobs') :
    Known platform (countedEntries platform) := by
  obtain ⟨_, _, hadd, _⟩ := ret_of_bind h
  exact known_of_addMemoryData platform hadd

theorem peiMemoryLength_eq (entries : List MemoryTypeInformation) (memorySize : Nat)
    (h : pages entries < 2 ^ 20) (hsize : memorySize + pages entries * efiPageSize < 2 ^ 64) :
    peiMemoryLength entries memorySize = memorySize + pages entries * efiPageSize := by
  induction entries generalizing memorySize with
  | nil => rfl
  | cons entry entries ih =>
    have hpages : pages (entry :: entries) = entry.numberOfPages.toNat + pages entries := rfl
    have hpage : efiPageSize = 4096 := rfl
    rw [hpages] at h hsize ⊢
    have hproduct : (memorySize + entry.numberOfPages.toNat * efiPageSize % 2 ^ 32) % 2 ^ 64 =
        memorySize + entry.numberOfPages.toNat * efiPageSize := by
      rw [hpage] at hsize ⊢
      omega
    have hrest := ih (memorySize + entry.numberOfPages.toNat * efiPageSize) (by omega)
      (by rw [hpage] at hsize ⊢; omega)
    have hcons : peiMemoryLength (entry :: entries) memorySize = peiMemoryLength entries
      ((memorySize + entry.numberOfPages.toNat * efiPageSize % 2 ^ 32) % 2 ^ 64) := rfl
    rw [hcons, hproduct, hrest, Nat.add_mul, Nat.add_assoc]

/-! ### The walk to the terminator -/

theorem pagesBetween_succ (data : List MemoryTypeInformation) {start stop : Nat} (h : start ≤ stop) :
    pagesBetween platform data start (stop + 1) =
      pagesBetween platform data start stop + (entryAt platform data stop).numberOfPages.toNat := by
  have hlength : stop + 1 - start = (stop - start) + 1 := by omega
  have hlast : start + (stop - start) = stop := by omega
  unfold pagesBetween
  rw [hlength, List.range'_concat, List.map_append, List.sum_append, List.map_singleton,
    List.sum_singleton, Nat.one_mul, hlast]

theorem requiredBody_of_not (data : List MemoryTypeInformation) (hobs : List Hob) {index : Nat}
    (h : ¬ Terminates platform (entryAt platform data index)) (tempPageNum : Nat) :
    requiredBody platform data (index, tempPageNum) hobs =
      .ret (.inl ((index + 1) % 2 ^ 8,
        (tempPageNum + (entryAt platform data index).numberOfPages.toNat) % 2 ^ 32)) hobs := by
  have htype : ¬ (entryAt platform data index).type = platform.efiMaxMemoryType := h
  unfold requiredBody
  simp only [if_neg htype]
  rfl

theorem requiredBody_of_terminates (data : List MemoryTypeInformation) (hobs : List Hob) {index : Nat}
    (h : Terminates platform (entryAt platform data index)) (tempPageNum : Nat) :
    requiredBody platform data (index, tempPageNum) hobs = .ret (.inr tempPageNum) hobs := by
  have htype : (entryAt platform data index).type = platform.efiMaxMemoryType := h
  unfold requiredBody
  simp only [if_pos htype]
  rfl

theorem walk_run (data : List MemoryTypeInformation) (hobs : List Hob) (n : Nat) {k : Nat} (hk : k ≤ 256)
    (h : ∀ i < k, ¬ Terminates platform (entryAt platform data i)) :
    loop (n + k) (requiredBody platform data) (0, 0) hobs =
      loop n (requiredBody platform data)
        (k % 2 ^ 8, pagesBetween platform data 0 k % 2 ^ 32) hobs := by
  induction k generalizing n with
  | zero => rfl
  | succ k ih =>
    have hindex : k % 2 ^ 8 = k := by omega
    have hbody := requiredBody_of_not platform data hobs (h k (Nat.lt_succ_self k))
      (pagesBetween platform data 0 k % 2 ^ 32)
    have hfuel : n + (k + 1) = (n + 1) + k := by omega
    rw [hfuel, ih (n + 1) (by omega) fun i hi => h i (by omega), hindex, loop_of_inl hbody,
      pagesBetween_succ platform data (Nat.zero_le k), Nat.mod_add_mod]

theorem walk_ret (data : List MemoryTypeInformation) (hobs : List Hob) {k : Nat} (hk : k < 256)
    (h : FirstTerminator platform data k) :
    loop 257 (requiredBody platform data) (0, 0) hobs =
      .ret (pagesBetween platform data 0 k % 2 ^ 32) hobs := by
  obtain ⟨hterm, hbefore⟩ := h
  have hfuel : 257 = (256 - k + 1) + k := by omega
  have hindex : k % 2 ^ 8 = k := by omega
  rw [hfuel, walk_run platform data hobs _ (by omega) hbefore, hindex]
  exact loop_of_inr (requiredBody_of_terminates platform data hobs hterm _) _

theorem exists_firstTerminator {data : List MemoryTypeInformation} {hobs hobs' : List Hob} {r : Nat}
    (h : loop 257 (requiredBody platform data) (0, 0) hobs = .ret r hobs') :
    ∃ k < 256, FirstTerminator platform data k := by
  by_cases hexists : ∃ k, k < 256 ∧ Terminates platform (entryAt platform data k)
  · have hfind := Nat.find_spec hexists
    exact ⟨Nat.find hexists, hfind.1, hfind.2, fun i hi hterm =>
      Nat.find_min hexists hi ⟨by omega, hterm⟩⟩
  · have hnone : ∀ i < 256, ¬ Terminates platform (entryAt platform data i) :=
      fun i hi hterm => hexists ⟨i, hi, hterm⟩
    have hfuel : 257 = (0 + 1) + 256 := rfl
    have hindex : 256 % 2 ^ 8 = 0 := rfl
    rw [hfuel, walk_run platform data hobs (0 + 1) (Nat.le_refl 256) hnone, hindex,
      loop_of_inl (requiredBody_of_not platform data hobs (hnone 0 (by omega)) _)] at h
    cases h

theorem entryAt_used (data : List MemoryTypeInformation) {i : Nat}
    (h : i < (usedEntries platform data).length) :
    entryAt platform data i = (usedEntries platform data)[i] := by
  have hstart : usedEntries platform data <+: data := List.takeWhile_prefix _
  have hget : data[i]? = some (usedEntries platform data)[i] := by
    rw [hstart.getElem h]
    exact List.getElem?_eq_getElem _
  rw [entryAt, hget]
  rfl

theorem not_terminates_used (data : List MemoryTypeInformation) {i : Nat}
    (h : i < (usedEntries platform data).length) : ¬ Terminates platform (entryAt platform data i) := by
  rw [entryAt_used platform data h]
  have hmem : (usedEntries platform data)[i] ∈ usedEntries platform data := List.getElem_mem h
  have := List.mem_takeWhile_imp hmem
  exact of_decide_eq_true this

theorem pagesBetween_used (data : List MemoryTypeInformation) :
    pagesBetween platform data 0 (usedEntries platform data).length =
      pages (usedEntries platform data) := by
  unfold pagesBetween pages
  congr 1
  refine List.ext_getElem (by simp) fun i hi hi' => ?_
  rw [List.length_map] at hi'
  simp [entryAt_used platform data hi']

theorem pagesBetween_eq {data : List MemoryTypeInformation} {k : Nat}
    (h : FirstTerminator platform data k) :
    pagesBetween platform data 0 k = pages (usedEntries platform data) +
      pagesBetween platform data (usedEntries platform data).length k := by
  have hle : (usedEntries platform data).length ≤ k :=
    Nat.le_of_not_lt fun hlt => not_terminates_used platform data hlt h.1
  rw [← pagesBetween_used]
  unfold pagesBetween
  have happend := List.range'_append_1 (s := 0) (m := (usedEntries platform data).length)
    (n := k - (usedEntries platform data).length)
  rw [Nat.zero_add, Nat.add_sub_cancel' hle] at happend
  rw [← List.sum_append, ← List.map_append, Nat.sub_zero, Nat.sub_zero, happend]

theorem requiredSize_iff (used others : Nat) :
    requiredSize 0 ((used + others) % 2 ^ 32) =
        (if used = 0 then 0 else (used + dxeMemSizePages) * efiPageSize) ↔
      (used = 0 → others % 2 ^ 32 = 0 ∨ (others + dxeMemSizePages) % 2 ^ 20 = 0) ∧
        (0 < used → used + dxeMemSizePages < 2 ^ 20 ∧ others % 2 ^ 20 = 0) := by
  -- only the low twenty bits of the pages reach the product
  have hlow : ∀ sum, sum % 2 ^ 32 % 2 ^ 20 = sum % 2 ^ 20 := fun sum =>
    Nat.mod_mod_of_dvd sum ⟨2 ^ 12, rfl⟩
  have hproduct : ∀ sum, (sum % 2 ^ 32 + dxeMemSizePages) * efiPageSize % 2 ^ 32 =
      (sum + dxeMemSizePages) % 2 ^ 20 * efiPageSize := by
    intro sum
    have hsum : (sum % 2 ^ 32 + dxeMemSizePages) % 2 ^ 20 = (sum + dxeMemSizePages) % 2 ^ 20 := by
      rw [Nat.add_mod, hlow, ← Nat.add_mod]
    have hsize : 2 ^ 32 = 2 ^ 20 * efiPageSize := by decide
    rw [← hsum, hsize, Nat.mul_mod_mul_right]
  unfold requiredSize
  rw [hproduct]
  unfold dxeMemSizePages efiPageSize
  by_cases hused : used = 0
  · subst hused
    rw [Nat.zero_add, if_pos rfl]
    split_ifs with hsum
    · exact ⟨fun _ => ⟨fun _ => .inl hsum, fun hpos => absurd hpos (Nat.lt_irrefl 0)⟩, fun _ => rfl⟩
    · constructor
      · intro hproduct
        exact ⟨fun _ => .inr (by omega), fun hpos => absurd hpos (Nat.lt_irrefl 0)⟩
      · rintro ⟨hlost, _⟩
        rw [(hlost rfl).resolve_left hsum]
  · rw [if_neg hused]
    by_cases hsum : (used + others) % 2 ^ 32 = 0
    · rw [if_pos hsum]
      have hzero := hlow (used + others)
      rw [hsum, Nat.zero_mod] at hzero
      constructor
      · intro hnothing
        omega
      · rintro ⟨_, hfew⟩
        obtain ⟨hlt, hothers⟩ := hfew (Nat.pos_of_ne_zero hused)
        have hless : used < 2 ^ 20 := by omega
        rw [Nat.add_mod, hothers, Nat.add_zero, Nat.mod_mod, Nat.mod_eq_of_lt hless] at hzero
        exact absurd hzero.symm hused
    · rw [if_neg hsum]
      constructor
      · omega
      · omega

/-! ### The choices among the ranges -/

def installation (requiredMemSize : Nat) : Installation :=
  let peiMemoryLength := peiMemoryLength (countedEntries platform) peiMinMemorySize
  let peiMemoryBase := 0x100000 + ((extended platform).rangeLength - peiMemoryLength)
  { memoryMap := [lowMemory, legacyRange, extended platform, tsegOf platform, rmuOf platform]
    peiMemory := ⟨peiMemoryBase, peiMemoryLength⟩
    requiredMemSize := requiredMemSize
    installed := ⟨peiMemoryBase, sub64 peiMemoryLength requiredMemSize⟩
    largeMemRange :=
      if (extended platform).rangeLength - peiMemoryLength ≥ 0xA0000 then
        ⟨0x100000, (extended platform).rangeLength - peiMemoryLength⟩
      else ⟨0, 0xA0000⟩ }

def builtHobs : List Hob :=
  let peiMemoryLength := peiMemoryLength (countedEntries platform) peiMinMemorySize
  [.memoryTypeInformation (memoryData platform),
    .resourceDescriptor ⟨true, mainMemoryAttribute + testedAttribute,
      0x100000 + ((extended platform).rangeLength - peiMemoryLength), peiMemoryLength⟩,
    .resourceDescriptor ⟨true, mainMemoryAttribute, 0, 0xA0000⟩,
    .resourceDescriptor ⟨false, reservedAttribute .reservedMemory, 0xA0000, 0x60000⟩,
    .resourceDescriptor ⟨true, mainMemoryAttribute, 0x100000,
      (extended platform).rangeLength - peiMemoryLength⟩,
    .resourceDescriptor ⟨false, reservedAttribute .smramCacheable, (tsegOf platform).physicalAddress,
      tsegLength platform⟩,
    .resourceDescriptor ⟨false, reservedAttribute .reservedMemory, (rmuOf platform).physicalAddress,
      0x10000⟩]

variable {platform}

theorem Fits.le_extended (h : Fits platform) :
    peiMemoryLength (countedEntries platform) peiMinMemorySize ≤ (extended platform).rangeLength := by
  have hlength : (extended platform).rangeLength =
    platform.totalMemorySize.toNat - 0x100000 - tsegLength platform - 0x10000 := rfl
  unfold Fits at h
  omega

theorem Fits.tsegLength_le (h : Fits platform) :
    0x100000 + tsegLength platform + 0x10000 ≤ platform.totalMemorySize.toNat := by
  unfold Fits at h
  omega

theorem extended_end (h : Fits platform) :
    0x100000 + (extended platform).rangeLength =
      platform.totalMemorySize.toNat - tsegLength platform - 0x10000 := by
  have hlength : (extended platform).rangeLength =
    platform.totalMemorySize.toNat - 0x100000 - tsegLength platform - 0x10000 := rfl
  have := h.tsegLength_le
  omega

theorem extended_lt (h : Fits platform) : 0x100000 + (extended platform).rangeLength < maxAddress := by
  have := extended_end h
  have := platform.totalMemorySize.isLt
  have := h.tsegLength_le
  have hmax : maxAddress = 0xFFFFFFFF := rfl
  omega

theorem lowMemory_isUsable : lowMemory.isUsable := by decide

theorem extended_isUsable (h : Fits platform) : (extended platform).isUsable := by
  refine ⟨rfl, ?_⟩
  have hlt := extended_lt h
  have haddress : (extended platform).physicalAddress = 0x100000 := rfl
  have hmax : maxAddress = 0xFFFFFFFF := rfl
  rw [haddress, hmax]
  rw [hmax] at hlt
  omega

theorem not_isUsable {range : MapRange} (h : range.type ≠ .mainMemory) : ¬ range.isUsable :=
  fun husable => h husable.1

theorem tsegOf_not_isUsable : ¬ (tsegOf platform).isUsable := by
  refine not_isUsable ?_
  rw [tsegOf_type]
  decide

theorem rmuOf_not_isUsable : ¬ (rmuOf platform).isUsable := by
  refine not_isUsable ?_
  have htype : (rmuOf platform).type = .reservedMemory := rfl
  rw [htype]
  decide

theorem legacyRange_not_isUsable : ¬ legacyRange.isUsable := not_isUsable (by decide)

theorem peiMemoryLength_ge (entries : List MemoryTypeInformation) (memorySize : Nat)
    (h : memorySize + entries.length * (2 ^ 32 - efiPageSize) < 2 ^ 64) :
    memorySize ≤ peiMemoryLength entries memorySize := by
  induction entries generalizing memorySize with
  | nil => exact Nat.le_refl memorySize
  | cons entry entries ih =>
    have hcons : peiMemoryLength (entry :: entries) memorySize = peiMemoryLength entries
      ((memorySize + entry.numberOfPages.toNat * efiPageSize % 2 ^ 32) % 2 ^ 64) := rfl
    have hpage : efiPageSize = 4096 := rfl
    rw [List.length_cons, Nat.succ_mul] at h
    have hproduct : entry.numberOfPages.toNat * efiPageSize % 2 ^ 32 ≤ 2 ^ 32 - efiPageSize := by
      rw [hpage]
      omega
    have hsum : (memorySize + entry.numberOfPages.toNat * efiPageSize % 2 ^ 32) % 2 ^ 64 =
        memorySize + entry.numberOfPages.toNat * efiPageSize % 2 ^ 32 := Nat.mod_eq_of_lt (by omega)
    rw [hcons, hsum]
    have := ih (memorySize + entry.numberOfPages.toNat * efiPageSize % 2 ^ 32) (by omega)
    omega

theorem memoryData_length (platform : Platform) : (memoryData platform).length ≤ 2 ^ 32 := by
  have hdefault : (defaultMemoryTypeInformation platform).length ≤ 2 ^ 32 := by
    show 6 ≤ 2 ^ 32
    omega
  unfold memoryData
  split_ifs
  · exact hdefault
  · cases hvariable : getVariable platform with
    | none => exact hdefault
    | some data =>
      have hfits := (Option.filter_eq_some_iff.mp hvariable).2
      have := platform.efiMaxMemoryType.isLt
      have := of_decide_eq_true hfits
      rw [Option.getD_some]
      omega

theorem le_peiMemoryLength (platform : Platform) :
    peiMinMemorySize ≤ peiMemoryLength (countedEntries platform) peiMinMemorySize := by
  refine peiMemoryLength_ge _ _ ?_
  have hle : (countedEntries platform).length ≤ 2 ^ 32 :=
    Nat.le_trans (List.takeWhile_prefix _).length_le (memoryData_length platform)
  have := Nat.mul_le_mul_right (2 ^ 32 - efiPageSize) hle
  have hpage : efiPageSize = 4096 := rfl
  have hmin : peiMinMemorySize = 50331648 := rfl
  rw [hpage] at this ⊢
  rw [hmin]
  omega

theorem choosePeiMemory_eq (h : Fits platform) :
    choosePeiMemory (peiMemoryLength (countedEntries platform) peiMinMemorySize)
        [lowMemory, legacyRange, extended platform, tsegOf platform, rmuOf platform] 0 (0, none) =
      (0x100000 + ((extended platform).rangeLength -
        peiMemoryLength (countedEntries platform) peiMinMemorySize), some 2) := by
  have hmin := le_peiMemoryLength platform
  have hle := h.le_extended
  have hend := extended_lt h
  generalize peiMemoryLength (countedEntries platform) peiMinMemorySize = length at hmin hle ⊢
  have hsmall : ¬ lowMemory.rangeLength ≥ length := by
    have hlow : lowMemory.rangeLength = 0xA0000 := rfl
    have : peiMinMemorySize = 50331648 := rfl
    omega
  have hbase : sub64 (((extended platform).physicalAddress + (extended platform).rangeLength) % 2 ^ 64)
      length = 0x100000 + ((extended platform).rangeLength - length) := by
    have haddress : (extended platform).physicalAddress = 0x100000 := rfl
    have hmax : maxAddress = 0xFFFFFFFF := rfl
    rw [hmax] at hend
    rw [haddress, Nat.mod_eq_of_lt (by omega), sub64_of_le (by omega) (by omega)]
    omega
  unfold choosePeiMemory
  rw [if_neg fun hall => hsmall hall.2.2]
  unfold choosePeiMemory
  rw [if_neg fun hall => legacyRange_not_isUsable hall.1]
  unfold choosePeiMemory
  rw [if_pos ⟨extended_isUsable h, Nat.zero_le _, hle⟩, hbase]
  unfold choosePeiMemory
  rw [if_neg fun hall => tsegOf_not_isUsable hall.1]
  unfold choosePeiMemory
  rw [if_neg fun hall => rmuOf_not_isUsable hall.1]
  rfl

theorem chooseLargeMemRange_eq (h : Fits platform) (requiredMemSize : Nat) :
    chooseLargeMemRange (peiMemoryLength (countedEntries platform) peiMinMemorySize) 2
        [lowMemory, legacyRange, extended platform, tsegOf platform, rmuOf platform] 0 ⟨0, 0⟩ =
      (installation platform requiredMemSize).largeMemRange := by
  have hle := h.le_extended
  have hend := extended_lt h
  unfold installation
  generalize peiMemoryLength (countedEntries platform) peiMinMemorySize = length at hle ⊢
  have hmax : maxAddress = 0xFFFFFFFF := rfl
  rw [hmax] at hend
  have hrest : sub64 (extended platform).rangeLength length =
      (extended platform).rangeLength - length := sub64_of_le hle (by omega)
  have haddress : (extended platform).physicalAddress % 2 ^ 32 = 0x100000 := rfl
  have hfits : ((extended platform).rangeLength - length) % 2 ^ 32 =
      (extended platform).rangeLength - length := Nat.mod_eq_of_lt (by omega)
  simp only [chooseLargeMemRange, if_pos tsegOf_not_isUsable, if_pos rmuOf_not_isUsable,
    if_pos legacyRange_not_isUsable, extended_isUsable h, lowMemory_isUsable, not_true, if_false, ne_eq]
  rw [hrest, haddress, hfits]
  rfl

theorem resourcesOf_eq (h : Fits platform) :
    resourcesOf (peiMemoryLength (countedEntries platform) peiMinMemorySize) 2 0
        [lowMemory, legacyRange, extended platform, tsegOf platform, rmuOf platform] =
      (builtHobs platform).drop 2 := by
  have hle := h.le_extended
  have hend := extended_lt h
  have hmax : maxAddress = 0xFFFFFFFF := rfl
  rw [hmax] at hend
  have hrest := sub64_of_le hle (by omega)
  have htype := tsegOf_type platform
  unfold builtHobs
  simp only [resourcesOf, resourceOf, hrest, htype, tsegOf_length]
  rfl

/-! ### The whole hand-off -/

theorem retriveRequiredMemorySize_eq (data : List MemoryTypeInformation) (size : Nat) :
    retriveRequiredMemorySize platform size [.memoryTypeInformation data] =
      (do
        let tempPageNum ← loop 257 (requiredBody platform data) (0, 0)
        pure (requiredSize size tempPageNum)) [.memoryTypeInformation data] := rfl

theorem retriveRequiredMemorySize_ret {k : Nat} (hk : k < 256)
    (hfirst : FirstTerminator platform (memoryData platform) k) :
    retriveRequiredMemorySize platform 0 [.memoryTypeInformation (memoryData platform)] =
      .ret (requiredSize 0 (pagesBetween platform (memoryData platform) 0 k % 2 ^ 32))
        [.memoryTypeInformation (memoryData platform)] := by
  rw [retriveRequiredMemorySize_eq, bind_of_ret (walk_ret platform _ _ hk hfirst)]
  rfl

theorem installEfiMemory_ret (h : Fits platform) (hknown : Known platform (countedEntries platform))
    {k : Nat} (hk : k < 256) (hfirst : FirstTerminator platform (memoryData platform) k) :
    installEfiMemory platform [] =
      .ret (installation platform
        (requiredSize 0 (pagesBetween platform (memoryData platform) 0 k % 2 ^ 32)))
        (builtHobs platform) := by
  have hsize := getPlatformMemorySize_ret platform [] hknown
  rw [List.nil_append] at hsize
  have hrequired := retriveRequiredMemorySize_ret hk hfirst
  generalize requiredSize 0 (pagesBetween platform (memoryData platform) 0 k % 2 ^ 32) =
    requiredMemSize at hrequired ⊢
  unfold installEfiMemory
  rw [bind_of_ret hsize, bind_of_ret hrequired, getMemoryMap_eq platform h.tsegLength_le]
  have hassert : assert platform.enabled ((some 2 : Option Nat).isSome = true)
      [Hob.memoryTypeInformation (memoryData platform)] =
        .ret () [Hob.memoryTypeInformation (memoryData platform)] :=
    assert_of (fun _ => rfl) _
  dsimp only
  rw [choosePeiMemory_eq h]
  dsimp only
  rw [bind_of_ret hassert]
  dsimp only [Option.getD_some]
  rw [chooseLargeMemRange_eq h requiredMemSize, resourcesOf_eq h]
  rfl

theorem known_of_installEfiMemory {installation : Installation} {hobs : List Hob}
    (hret : installEfiMemory platform [] = .ret installation hobs) :
    Known platform (countedEntries platform) ∧
      ∃ k < 256, FirstTerminator platform (memoryData platform) k := by
  obtain ⟨_, u, hsize, hret⟩ := ret_of_bind hret
  have hknown := known_of_getPlatformMemorySize platform hsize
  refine ⟨hknown, ?_⟩
  rw [getPlatformMemorySize_ret platform [] hknown, List.nil_append] at hsize
  cases hsize
  obtain ⟨_, u, hrequired, _⟩ := ret_of_bind hret
  rw [retriveRequiredMemorySize_eq] at hrequired
  obtain ⟨_, _, hwalk, _⟩ := ret_of_bind hrequired
  exact exists_firstTerminator platform hwalk

theorem tseg_range (platform : Platform) :
    ([lowMemory, legacyRange, extended platform, tsegOf platform, rmuOf platform].filter
      (·.type = .smramCacheable)).map MapRange.span = [(tsegOf platform).span] := by
  have hlow : lowMemory.type ≠ .smramCacheable := by decide
  have hlegacy : legacyRange.type ≠ .smramCacheable := by decide
  have hextended : (extended platform).type = .mainMemory := rfl
  have hrmu : (rmuOf platform).type = .reservedMemory := rfl
  have htseg := tsegOf_type platform
  simp [hlow, hlegacy, hextended, hrmu, htseg]

theorem partition_memoryMap (h : Fits platform) :
    Span.Partition platform.totalMemorySize.toNat
      ([lowMemory, legacyRange, extended platform, tsegOf platform, rmuOf platform].map
        MapRange.span) := by
  have htotal : Span.total [(extended platform).span] = (extended platform).rangeLength := by
    rw [Span.total_cons, Span.total_nil, Nat.add_zero, MapRange.span]
  exact partition_of_tile platform [(extended platform).span] h.tsegLength_le ⟨rfl, trivial⟩ htotal

theorem partition_resources (h : Fits platform) :
    Span.Partition platform.totalMemorySize.toNat
      ((resources (builtHobs platform)).map ResourceDescriptor.span) := by
  have hrest := Nat.sub_add_cancel h.le_extended
  have htseg : (tsegOf platform).span = ⟨(tsegOf platform).physicalAddress, tsegLength platform⟩ := by
    rw [MapRange.span, tsegOf_length]
  generalize hlength : (extended platform).rangeLength -
    peiMemoryLength (countedEntries platform) peiMinMemorySize = length at hrest
  have htotal : Span.total [⟨0x100000, length⟩, ⟨0x100000 + length,
      peiMemoryLength (countedEntries platform) peiMinMemorySize⟩] =
      (extended platform).rangeLength := by
    rw [Span.total_cons, Span.total_cons, Span.total_nil, Nat.add_zero]
    exact hrest
  have htile : Span.Tile 0x100000 [⟨0x100000, length⟩, ⟨0x100000 + length,
      peiMemoryLength (countedEntries platform) peiMinMemorySize⟩] := ⟨rfl, rfl, trivial⟩
  have hpartition := partition_of_tile platform _ h.tsegLength_le htile htotal
  have hrmu : (rmuOf platform).span = ⟨(rmuOf platform).physicalAddress, 0x10000⟩ := rfl
  have hlow : lowMemory.span = ⟨0, 0xA0000⟩ := rfl
  have hlegacy : legacyRange.span = ⟨0xA0000, 0x60000⟩ := rfl
  rw [htseg, hrmu, hlow, hlegacy] at hpartition
  unfold builtHobs
  simp only [resources, List.map_cons, List.map_nil, ResourceDescriptor.span]
  rw [hlength]
  -- the HOB of PEI memory is the first one
  have hmove : ∀ a b c d e f : Span, [d, a, b, c, e, f].Perm ([a, b] ++ [c, d] ++ [e, f]) := by
    intro a b c d e f
    exact (List.perm_append_comm : ([d] ++ [a, b, c]).Perm _).append_right [e, f]
  exact hpartition.perm (hmove _ _ _ _ _ _)

theorem apart_tseg (h : Fits platform) {s : Span}
    (hs : s.offset + s.length ≤ platform.totalMemorySize.toNat - tsegLength platform) :
    s.Apart (tsegOf platform).span := by
  have hfit := h.tsegLength_le
  have hlength : (tsegOf platform).span.length = tsegLength platform := tsegOf_length platform
  have haddress : (tsegOf platform).span.offset = _ := tsegOf_address platform (by omega)
  by_cases hzero : tsegLength platform = 0
  · exact Span.apart_of_empty (by rw [hlength, hzero])
  · refine Span.apart_of_le ?_
    rw [haddress, if_neg hzero]
    exact hs

theorem apart_ranges (h : Fits platform) (requiredMemSize : Nat) :
    [(installation platform requiredMemSize).peiMemory,
      (installation platform requiredMemSize).largeMemRange, (tsegOf platform).span,
      (rmuOf platform).span].Pairwise Span.Apart := by
  have hfit := h.tsegLength_le
  have hle := h.le_extended
  have hend := extended_end h
  have hpei : (installation platform requiredMemSize).peiMemory =
    ⟨0x100000 + ((extended platform).rangeLength -
      peiMemoryLength (countedEntries platform) peiMinMemorySize),
      peiMemoryLength (countedEntries platform) peiMinMemorySize⟩ := rfl
  have hlarge : (installation platform requiredMemSize).largeMemRange.offset +
      (installation platform requiredMemSize).largeMemRange.length ≤
      (installation platform requiredMemSize).peiMemory.offset := by
    rw [hpei]
    show (ite _ _ _ : Span).offset + (ite _ _ _ : Span).length ≤ _
    split_ifs
    · exact Nat.le_refl _
    · show 0 + 0xA0000 ≤ 0x100000 + _
      omega
  have hpei_end : (installation platform requiredMemSize).peiMemory.offset +
      (installation platform requiredMemSize).peiMemory.length =
      platform.totalMemorySize.toNat - tsegLength platform - 0x10000 := by
    rw [hpei]
    dsimp only
    omega
  have hrmu : (rmuOf platform).span =
    ⟨platform.totalMemorySize.toNat - tsegLength platform - 0x10000, 0x10000⟩ := rfl
  have hlarge_end : (installation platform requiredMemSize).largeMemRange.offset +
      (installation platform requiredMemSize).largeMemRange.length ≤
      platform.totalMemorySize.toNat - tsegLength platform - 0x10000 := by omega
  simp only [List.pairwise_cons, List.mem_cons, List.not_mem_nil, or_false, forall_eq_or_imp, forall_eq,
    false_implies, implies_true, List.Pairwise.nil, and_true]
  refine ⟨⟨(Span.apart_of_le hlarge).symm, apart_tseg h (by omega), Span.apart_of_le ?_⟩,
    ⟨apart_tseg h (by omega), Span.apart_of_le ?_⟩, (apart_tseg h ?_).symm⟩
  · rw [hpei_end, hrmu]
  · rw [hrmu]
    exact hlarge_end
  · rw [hrmu]
    dsimp only
    omega

theorem infoPostInstallMemory_eq (h : Fits platform) :
    infoPostInstallMemory (builtHobs platform) = (rmuOf platform).span.offset := by
  have hle := h.le_extended
  have hend := extended_end h
  have hlt := extended_lt h
  have hmax : maxAddress = 0xFFFFFFFF := rfl
  have hrmu : (rmuOf platform).span.offset =
    platform.totalMemorySize.toNat - tsegLength platform - 0x10000 := rfl
  rw [hmax] at hlt
  rw [hrmu, ← hend]
  unfold builtHobs infoPostInstallMemory
  simp [calcLength]
  omega

theorem partitioned_of (h : Fits platform) {requiredMemSize : Nat}
    (hrequired : requiredMemSize =
      if pages (countedEntries platform) = 0 then 0
      else (pages (countedEntries platform) + dxeMemSizePages) * efiPageSize)
    (hfew : 0 < pages (countedEntries platform) →
      pages (countedEntries platform) + dxeMemSizePages < 2 ^ 20) :
    Partitioned platform (installation platform requiredMemSize) (builtHobs platform)
      (tsegOf platform).span (rmuOf platform).span := by
  have hle := h.le_extended
  have hpages : pages (countedEntries platform) + dxeMemSizePages < 2 ^ 20 := by
    by_cases hzero : pages (countedEntries platform) = 0
    · rw [hzero]
      decide
    · exact hfew (Nat.pos_of_ne_zero hzero)
  have hpage : efiPageSize = 4096 := rfl
  have hdxe : dxeMemSizePages = 32 := rfl
  have hmin : peiMinMemorySize = 50331648 := rfl
  have hlength : peiMemoryLength (countedEntries platform) peiMinMemorySize =
      peiMinMemorySize + pages (countedEntries platform) * efiPageSize := by
    refine peiMemoryLength_eq _ _ (by omega) ?_
    rw [hpage, hmin]
    omega
  exact {
    tseg_range := tseg_range platform
    rmu_range := rfl
    memory_map := partition_memoryMap h
    resource_hobs := partition_resources h
    apart := apart_ranges h requiredMemSize
    pei_memory := hlength
    required := hrequired
    required_le := by
      show requiredMemSize ≤ peiMemoryLength (countedEntries platform) peiMinMemorySize
      rw [hlength, hrequired, hpage, hdxe, hmin]
      split_ifs <;> omega
    rmu_base := infoPostInstallMemory_eq h }

theorem not_handsOver_of (h : ∀ i < 256, ¬ Terminates platform (entryAt platform (memoryData platform) i)) :
    ¬ HandsOver platform := by
  rintro ⟨_, _, _, _, hret, _⟩
  obtain ⟨_, k, hk, hfirst⟩ := known_of_installEfiMemory hret
  exact h k hk hfirst.1

end

/-- Memory is handed over as a partition exactly when both walks over the memory types agree. -/
theorem handsOver_iff (platform : Platform) (h : Fits platform) :
    HandsOver platform ↔ WalksAgree platform := by
  have hsplit : ∀ {k}, FirstTerminator platform (memoryData platform) k →
      pagesBetween platform (memoryData platform) 0 k = pages (countedEntries platform) +
        pagesBetween platform (memoryData platform) (countedEntries platform).length k :=
    pagesBetween_eq platform
  constructor
  · rintro ⟨settled, hobs, tseg, rmu, hret, hpartitioned⟩
    obtain ⟨hknown, k, hk, hfirst⟩ := known_of_installEfiMemory hret
    have hrequired := hpartitioned.required
    rw [installEfiMemory_ret h hknown hk hfirst] at hret
    cases hret
    refine ⟨hknown, k, hk, hfirst, ?_⟩
    change requiredSize 0 _ = _ at hrequired
    rw [hsplit hfirst] at hrequired
    exact (requiredSize_iff _ _).mp hrequired
  · rintro ⟨hknown, k, hk, hfirst, hagree⟩
    have hrequired := (requiredSize_iff _ _).mpr hagree
    rw [← hsplit hfirst] at hrequired
    exact ⟨_, _, _, _, installEfiMemory_ret h hknown hk hfirst,
      partitioned_of h hrequired fun hpos => (hagree.2 hpos).1⟩

def firstBoot : Platform where
  enabled := true
  efiMaxMemoryType := 14
  tSegSize := 0x200000
  totalMemorySize := 0x10000000
  bootInRecoveryMode := false
  variable_ := none
  behind _ := ⟨0, 0⟩

theorem firstBoot_handsOver : HandsOver firstBoot := by
  refine (handsOver_iff firstBoot (by unfold Fits; decide)).mpr ⟨fun _ => by decide, 5, by decide, ?_, ?_⟩
  · exact ⟨by decide, by decide⟩
  · decide

/-- The variable holds one entry and no terminator, the HOB list ends behind it, and the memory behind
that is clear. -/
def unterminated : Platform :=
  { firstBoot with
    variable_ := some [⟨0, 0x20⟩]
    behind := fun i => if i = 0 then ⟨0x0008FFFF, 0⟩ else ⟨0, 0⟩ }

/-- `RetriveRequiredMemorySize` does not come to an end. -/
theorem unterminated_not_handsOver : Fits unterminated ∧ ¬ HandsOver unterminated := by
  refine ⟨by unfold Fits; decide, not_handsOver_of fun i _ hterm => ?_⟩
  have hdata : memoryData unterminated = [⟨0, 0x20⟩] := by decide
  rw [hdata] at hterm
  rcases i with _ | _ | i
  · revert hterm
    decide
  · revert hterm
    decide
  · have hentry : entryAt unterminated [⟨0, 0x20⟩] (i + 2) = ⟨0, 0⟩ := rfl
    rw [hentry] at hterm
    revert hterm
    decide

end Quark.PlatformInit
