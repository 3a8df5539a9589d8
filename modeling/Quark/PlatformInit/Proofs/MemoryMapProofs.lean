import Quark.PlatformInit.HandOff

/-!
# Properties of the memory map
-/

namespace Quark.PlatformInit

open Machine

theorem sub64_of_le {a b : Nat} (h : b ≤ a) (ha : a < 2 ^ 64) : sub64 a b = a - b := by
  unfold sub64
  omega

theorem shiftBlocks_le {k : Nat} (n : Nat) (tsegMask blocks : BitVec 32)
    (hmask : tsegMask.toNat < 2 ^ k) (hblocks : blocks.toNat * 2 ^ k < 2 ^ 32) :
    (shiftBlocks n tsegMask blocks).toNat ≤ blocks.toNat * 2 ^ k := by
  have hpos : 0 < 2 ^ k := Nat.two_pow_pos k
  induction n generalizing k tsegMask blocks with
  | zero => exact Nat.le_mul_of_pos_right _ hpos
  | succ n ih =>
    rw [shiftBlocks]
    split_ifs with hzero
    · exact Nat.le_mul_of_pos_right _ hpos
    · cases k with
      | zero =>
        have : tsegMask.toNat = 0 := by omega
        exact absurd (BitVec.eq_of_toNat_eq this) hzero
      | succ k =>
        have hshift : (tsegMask >>> 1).toNat < 2 ^ k := by
          rw [BitVec.toNat_ushiftRight, Nat.shiftRight_eq_div_pow]
          omega
        have hpow : 2 ^ (k + 1) = 2 * 2 ^ k := Nat.pow_succ'
        have hdouble : (blocks <<< 1).toNat = blocks.toNat * 2 := by
          have : blocks.toNat * 2 < 2 ^ 32 := by
            have : blocks.toNat * 2 ≤ blocks.toNat * 2 ^ (k + 1) :=
              Nat.mul_le_mul_left _ (by have := Nat.two_pow_pos k; omega)
            omega
          rw [BitVec.toNat_shiftLeft, Nat.shiftLeft_eq, Nat.pow_one, Nat.mod_eq_of_lt this]
        have hsame : (blocks <<< 1).toNat * 2 ^ k = blocks.toNat * 2 ^ (k + 1) := by
          rw [hdouble, hpow, Nat.mul_assoc]
        have := ih (tsegMask >>> 1) (blocks <<< 1) hshift (by rw [hsame]; exact hblocks)
          (Nat.two_pow_pos k)
        rw [hsame] at this
        exact this

theorem chooseRanges_size (tSegSize : BitVec 32) :
    (chooseRanges tSegSize &&& smramSizeMask).toNat < 2 ^ 15 := by
  have hsize : chooseRanges tSegSize &&& smramSizeMask = tSegSize >>> 17 &&& smramSizeMask := by
    have hflags : (smramCacheableMask ||| smramTsegMask) &&& smramSizeMask = 0 := by decide
    rw [chooseRanges, BitVec.and_or_distrib_right, hflags]
    simp
  have hle : (tSegSize >>> 17 &&& smramSizeMask).toNat ≤ (tSegSize >>> 17).toNat := by
    rw [BitVec.toNat_and]
    exact Nat.and_le_left
  have hshift : (tSegSize >>> 17).toNat < 2 ^ 15 := by
    rw [BitVec.toNat_ushiftRight, Nat.shiftRight_eq_div_pow]
    have := tSegSize.isLt
    omega
  rw [hsize]
  exact Nat.lt_of_le_of_lt hle hshift

theorem blockNum_le (tSegSize : BitVec 32) : (blockNum (chooseRanges tSegSize)).toNat ≤ 2 ^ 14 := by
  have hle := shiftBlocks_le (k := 15) 32 _ 1 (chooseRanges_size tSegSize) (by decide)
  have hone : (1 : BitVec 32).toNat = 1 := rfl
  rw [blockNum, BitVec.toNat_ushiftRight, Nat.shiftRight_eq_div_pow]
  rw [hone] at hle
  omega

theorem chooseRanges_tseg (tSegSize : BitVec 32) : chooseRanges tSegSize &&& smramTsegMask ≠ 0 := by
  have hflags : (smramCacheableMask ||| smramTsegMask) &&& smramTsegMask = smramTsegMask := by decide
  intro hzero
  rw [chooseRanges, BitVec.and_or_distrib_right, hflags] at hzero
  have hbit := congrArg (fun x => x.getLsbD 18) hzero
  simp [smramTsegMask] at hbit

section

variable (platform : Platform)

theorem tsegLength_eq :
    tsegLength platform = (blockNum (chooseRanges platform.tSegSize)).toNat * 0x20000 := by
  have := blockNum_le platform.tSegSize
  rw [tsegLength, BitVec.toNat_mul, BitVec.toNat_mul]
  have h128 : (128 : BitVec 32).toNat = 128 := rfl
  have h1024 : (1024 : BitVec 32).toNat = 1024 := rfl
  rw [h128, h1024]
  omega

theorem tsegLength_eq_zero : tsegLength platform = 0 ↔ blockNum (chooseRanges platform.tSegSize) = 0 := by
  rw [tsegLength_eq]
  constructor
  · intro h
    have : (blockNum (chooseRanges platform.tSegSize)).toNat = 0 := by omega
    exact BitVec.eq_of_toNat_eq this
  · intro h
    rw [h]
    rfl

def tsegOf : MapRange := (tsegRange (chooseRanges platform.tSegSize) platform.totalMemorySize.toNat).1

theorem tsegOf_length : (tsegOf platform).rangeLength = tsegLength platform := by
  have hzero := tsegLength_eq_zero platform
  unfold tsegOf tsegRange
  split_ifs with h
  · exact (hzero.mpr h).symm
  · rfl

theorem tsegOf_type : (tsegOf platform).type = .smramCacheable := by
  unfold tsegOf tsegRange
  split_ifs <;> rfl

theorem tsegOf_address (h : tsegLength platform ≤ platform.totalMemorySize.toNat) :
    (tsegOf platform).physicalAddress =
      if tsegLength platform = 0 then 0
      else platform.totalMemorySize.toNat - tsegLength platform := by
  have hzero := tsegLength_eq_zero platform
  have htotal := platform.totalMemorySize.isLt
  unfold tsegOf tsegRange
  split_ifs with hblocks hlength hlength
  · rfl
  · exact absurd (hzero.mpr hblocks) hlength
  · exact absurd (hzero.mp hlength) hblocks
  · exact sub64_of_le h (by omega)

def extended : MapRange :=
  ⟨0x100000, 0x100000, platform.totalMemorySize.toNat - 0x100000 - tsegLength platform - 0x10000,
    .mainMemory⟩

def rmuOf : MapRange :=
  let base := platform.totalMemorySize.toNat - tsegLength platform - 0x10000
  ⟨base, base, 0x10000, .reservedMemory⟩

def lowMemory : MapRange := ⟨0, 0, 0xA0000, .mainMemory⟩

def legacyRange : MapRange := ⟨0xA0000, 0xA0000, 0x60000, .reservedMemory⟩

theorem getMemoryMap_eq
    (h : 0x100000 + tsegLength platform + 0x10000 ≤ platform.totalMemorySize.toNat) :
    (getMemoryMap platform.tSegSize platform.totalMemorySize).1 =
      [lowMemory, legacyRange, extended platform, tsegOf platform, rmuOf platform] := by
  have htotal := platform.totalMemorySize.isLt
  have hrow : sub64 platform.totalMemorySize.toNat 0x100000 = platform.totalMemorySize.toNat - 0x100000 :=
    sub64_of_le (by omega) (by omega)
  have htop : (0x100000 + (platform.totalMemorySize.toNat - 0x100000)) % 2 ^ 64 =
      platform.totalMemorySize.toNat := by omega
  have hrest : sub64 (sub64 (platform.totalMemorySize.toNat - 0x100000) (tsegLength platform)) 0x10000 =
      platform.totalMemorySize.toNat - 0x100000 - tsegLength platform - 0x10000 := by
    rw [sub64_of_le (b := tsegLength platform) (by omega) (by omega), sub64_of_le (by omega) (by omega)]
  have hbase : sub64 (sub64 platform.totalMemorySize.toNat (tsegLength platform)) 0x10000 =
      platform.totalMemorySize.toNat - tsegLength platform - 0x10000 := by
    rw [sub64_of_le (b := tsegLength platform) (by omega) (by omega), sub64_of_le (by omega) (by omega)]
  have hlength := tsegOf_length platform
  unfold getMemoryMap
  simp only [hrow, htop, if_pos (chooseRanges_tseg platform.tSegSize), Option.map_some,
    Option.getD_some, Option.toList_some]
  unfold tsegOf at hlength
  rw [hlength, hrest, hbase]
  rfl

theorem partition_of_tile (ss : List Span)
    (h : 0x100000 + tsegLength platform + 0x10000 ≤ platform.totalMemorySize.toNat)
    (htile : Span.Tile 0x100000 ss) (htotal : Span.total ss = (extended platform).rangeLength) :
    Span.Partition platform.totalMemorySize.toNat
      ([lowMemory.span, legacyRange.span] ++ ss ++ [(tsegOf platform).span, (rmuOf platform).span]) := by
  have hlength := tsegOf_length platform
  have haddress := tsegOf_address platform (by omega)
  have hrow : (extended platform).rangeLength =
    platform.totalMemorySize.toNat - 0x100000 - tsegLength platform - 0x10000 := rfl
  have hlow : Span.Tile 0 ([lowMemory.span, legacyRange.span] ++ ss) :=
    Span.tile_append.mpr ⟨⟨rfl, rfl, trivial⟩, htile⟩
  have hlow_total : Span.total ([lowMemory.span, legacyRange.span] ++ ss) =
      platform.totalMemorySize.toNat - tsegLength platform - 0x10000 := by
    have htwo : Span.total [lowMemory.span, legacyRange.span] = 0x100000 := rfl
    rw [Span.total_append, htotal, htwo, hrow]
    omega
  have hrmu : (rmuOf platform).span =
    ⟨platform.totalMemorySize.toNat - tsegLength platform - 0x10000, 0x10000⟩ := rfl
  by_cases hzero : tsegLength platform = 0
  · -- without TSEG its empty range stands at the bottom
    have htseg : (tsegOf platform).span = ⟨0, 0⟩ := by
      rw [MapRange.span, hlength, haddress, if_pos hzero, hzero]
    have hall : Span.Tile 0 ((tsegOf platform).span :: ([lowMemory.span, legacyRange.span] ++ ss) ++
        [(rmuOf platform).span]) := by
      refine Span.tile_append.mpr ⟨⟨by rw [htseg], by rw [htseg]; exact hlow⟩, ?_, trivial⟩
      rw [Span.total_cons, hlow_total, htseg, hrmu]
      simp
    have hsize : Span.total ((tsegOf platform).span :: ([lowMemory.span, legacyRange.span] ++ ss) ++
        [(rmuOf platform).span]) = platform.totalMemorySize.toNat := by
      rw [Span.total_append, Span.total_cons, hlow_total, htseg, hrmu]
      simp only [Span.total_cons, Span.total_nil]
      omega
    exact (hall.partition hsize).perm List.perm_middle
  · have htseg : (tsegOf platform).span =
        ⟨platform.totalMemorySize.toNat - tsegLength platform, tsegLength platform⟩ := by
      rw [MapRange.span, hlength, haddress, if_neg hzero]
    have hall : Span.Tile 0 (([lowMemory.span, legacyRange.span] ++ ss) ++
        [(rmuOf platform).span, (tsegOf platform).span]) := by
      refine Span.tile_append.mpr ⟨hlow, ?_, ?_, trivial⟩
      · rw [hlow_total, hrmu, Nat.zero_add]
      · rw [hlow_total, htseg, hrmu]
        dsimp only
        omega
    have hsize : Span.total (([lowMemory.span, legacyRange.span] ++ ss) ++
        [(rmuOf platform).span, (tsegOf platform).span]) = platform.totalMemorySize.toNat := by
      rw [Span.total_append, hlow_total, htseg, hrmu]
      simp only [Span.total_cons, Span.total_nil]
      omega
    exact (hall.partition hsize).perm ((List.Perm.swap _ _ []).append_left _)

end

end Quark.PlatformInit
