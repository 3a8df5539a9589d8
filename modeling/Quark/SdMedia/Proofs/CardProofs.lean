import Quark.SdMedia.Contract
import Mathlib.Data.Nat.ModEq

/-!
# Facts about the geometry and the addresses of a card
-/

namespace Quark.SdMedia

open Machine Machine.Exec

theorem caculateCardParameter_eq {enabled : Bool} {cardType : CardType} {csd : Csd}
    {parameter : CardParameter}
    (h : caculateCardParameter enabled cardType csd () = .ret (.ok parameter) ()) :
    ∃ maxFrequency, parameter = transferBlocks maxFrequency (2 ^ csd.readBlLen)
      (csdBlockNumber cardType csd (2 ^ csd.readBlLen)) := by
  unfold caculateCardParameter at h
  cases hf : frequencyOf csd.tranSpeed with
  | none =>
    rw [hf] at h
    injection h with h
    cases h
  | some frequency =>
    cases hm : multipleOf cardType csd.tranSpeed with
    | none =>
      rw [hf, hm] at h
      injection h with h
      cases h
    | some multiple =>
      rw [hf, hm] at h
      refine ⟨frequency * multiple % 2 ^ 32 / 10, ?_⟩
      obtain ⟨_, _, _, hret⟩ := ret_of_bind h
      injection hret with hret
      injection hret with hret
      exact hret.symm

theorem Csd.readBlLen_lt (csd : Csd) : csd.readBlLen < 16 := BitVec.isLt _

theorem Csd.cSize_lt (csd : Csd) : csd.cSize < 2 ^ 12 := by
  have h₁ := (csd.extractLsb' 62 2).isLt
  have h₂ := (csd.extractLsb' 64 10).isLt
  unfold cSize
  omega

theorem Csd.cSizeV2_lt (csd : Csd) : csd.cSizeV2 < 2 ^ 22 := BitVec.isLt _

theorem Csd.cSizeMult_lt (csd : Csd) : csd.cSizeMult < 2 ^ 3 := BitVec.isLt _

theorem csdBlockNumber_bounds (cardType : CardType) (csd : Csd) :
    0 < csdBlockNumber cardType csd (2 ^ csd.readBlLen) ∧
      csdBlockNumber cardType csd (2 ^ csd.readBlLen) * 2 ^ csd.readBlLen ≤ 2 ^ 41 := by
  have hlen : 2 ^ csd.readBlLen ≤ 2 ^ 15 :=
    Nat.pow_le_pow_right (by decide) (Nat.le_of_lt_succ csd.readBlLen_lt)
  have hpos : 0 < 2 ^ csd.readBlLen := Nat.two_pow_pos _
  unfold csdBlockNumber
  split
  · have hv2 := csd.cSizeV2_lt
    constructor
    · exact Nat.div_pos (by omega) hpos
    · have := Nat.div_mul_le_self ((csd.cSizeV2 + 1) * (512 * 1024)) (2 ^ csd.readBlLen)
      omega
  · have hsize := csd.cSize_lt
    have hmult : 2 ^ (csd.cSizeMult + 2) ≤ 2 ^ 9 :=
      Nat.pow_le_pow_right (by decide) (by have := csd.cSizeMult_lt; omega)
    constructor
    · exact Nat.mul_pos (Nat.two_pow_pos _) (Nat.succ_pos _)
    · calc 2 ^ (csd.cSizeMult + 2) * (csd.cSize + 1) * 2 ^ csd.readBlLen
          ≤ 2 ^ 9 * 2 ^ 12 * 2 ^ 15 := Nat.mul_le_mul (Nat.mul_le_mul hmult hsize) hlen
        _ ≤ 2 ^ 41 := by decide

namespace CardData

variable (card : CardData)

theorem parameter_eq : ∃ maxFrequency, card.parameter = transferBlocks maxFrequency
    (2 ^ card.csd.readBlLen) (csdBlockNumber card.cardType card.csd (2 ^ card.csd.readBlLen)) := by
  obtain ⟨enabled, h⟩ := card.calculated
  exact caculateCardParameter_eq h

theorem blockSize_dvd : card.blockSize ∣ 512 := by
  obtain ⟨maxFrequency, h⟩ := card.parameter_eq
  unfold blockSize
  rw [h]
  unfold transferBlocks
  split
  · exact dvd_refl 512
  · rename_i hle
    have hexp : card.csd.readBlLen ≤ 9 := by
      by_contra hlt
      have : 2 ^ 10 ≤ 2 ^ card.csd.readBlLen := Nat.pow_le_pow_right (by decide) (by omega)
      omega
    exact Nat.pow_dvd_pow 2 hexp

theorem blockSize_pos : 0 < card.blockSize := Nat.pos_of_dvd_of_pos card.blockSize_dvd (by decide)

theorem blockSize_le : card.blockSize ≤ 512 := Nat.le_of_dvd (by decide) card.blockSize_dvd

theorem boundary_pos : 0 < card.boundarySize := Nat.lt_of_lt_of_le (by decide) card.boundary_ge

theorem size_le : (card.lastBlock + 1) * card.blockSize ≤ 2 ^ 41 := by
  obtain ⟨maxFrequency, h⟩ := card.parameter_eq
  obtain ⟨hpos, hle⟩ := csdBlockNumber_bounds card.cardType card.csd
  unfold lastBlock blockSize
  rw [h]
  unfold transferBlocks
  split
  · rename_i hgt
    have hnumber : 0 < csdBlockNumber card.cardType card.csd (2 ^ card.csd.readBlLen)
        * 2 ^ card.csd.readBlLen / 512 :=
      Nat.div_pos (Nat.le_trans hgt.le (Nat.le_mul_of_pos_left _ hpos)) (by decide)
    have hmul := Nat.div_mul_le_self (csdBlockNumber card.cardType card.csd (2 ^ card.csd.readBlLen)
      * 2 ^ card.csd.readBlLen) 512
    dsimp only
    rw [Nat.sub_add_cancel hnumber]
    omega
  · dsimp only
    rw [Nat.sub_add_cancel hpos]
    exact hle

theorem lastBlock_lt : card.lastBlock + 1 ≤ 2 ^ 41 :=
  Nat.le_trans (Nat.le_mul_of_pos_right _ card.blockSize_pos) card.size_le

theorem InRange.end_le {card : CardData} {lba : BitVec 64} {bufferSize : BitVec 32}
    (h : card.InRange lba bufferSize) (hmod : bufferSize.toNat % card.blockSize = 0) :
    card.start lba + bufferSize.toNat ≤ 2 ^ 41 := by
  have hsize : bufferSize.toNat / card.blockSize * card.blockSize = bufferSize.toNat :=
    Nat.div_mul_cancel (Nat.dvd_of_mod_eq_zero hmod)
  calc card.start lba + bufferSize.toNat
      = (lba.toNat + bufferSize.toNat / card.blockSize) * card.blockSize := by
        rw [Nat.add_mul, hsize]
        rfl
    _ ≤ (card.lastBlock + 1) * card.blockSize := Nat.mul_le_mul_right _ h
    _ ≤ 2 ^ 41 := card.size_le

theorem not_reachesPast_of_inRange {card : CardData} {lba : BitVec 64} {bufferSize : BitVec 32}
    (h : card.InRange lba bufferSize) (hmod : bufferSize.toNat % card.blockSize = 0) :
    ¬ card.ReachesPast lba bufferSize := by
  have hsize : bufferSize.toNat / card.blockSize * card.blockSize = bufferSize.toNat :=
    Nat.div_mul_cancel (Nat.dvd_of_mod_eq_zero hmod)
  have hle := Nat.mul_le_mul_right card.blockSize h
  rw [Nat.add_mul, hsize] at hle
  rintro ⟨-, hlt⟩
  unfold start at hlt
  omega

/-! ## Addresses -/

def addressAt (lba : BitVec 64) (offset : Nat) : BitVec 32 :=
  if card.sectorAddressing then BitVec.ofNat 32 (card.start lba / 512 + offset / 512)
  else BitVec.ofNat 32 (card.start lba + offset)

theorem addressOf_eq {lba : BitVec 64} (h : card.start lba < 2 ^ 64) :
    addressOf card lba = card.addressAt lba 0 := by
  have hsize := card.blockSize_le
  have hmul : (lba * BitVec.ofNat 64 card.blockSize).toNat = card.start lba := by
    rw [BitVec.toNat_mul, BitVec.toNat_ofNat, Nat.mod_eq_of_lt (a := card.blockSize) (by omega)]
    exact Nat.mod_eq_of_lt h
  unfold addressOf addressAt
  split
  · apply BitVec.eq_of_toNat_eq
    rw [BitVec.toNat_setWidth, BitVec.toNat_udiv, hmul, BitVec.toNat_ofNat]
    rfl
  · apply BitVec.eq_of_toNat_eq
    rw [BitVec.toNat_setWidth, hmul, BitVec.toNat_ofNat]
    rfl

theorem advanceAddress_eq {lba : BitVec 64} {offset length : Nat}
    (h : card.sectorAddressing = true → 512 ∣ offset) :
    advanceAddress card (card.addressAt lba offset) length = card.addressAt lba (offset + length) := by
  unfold advanceAddress addressAt
  split
  · rename_i hsector
    obtain ⟨k, rfl⟩ := h hsector
    rw [← BitVec.ofNat_add]
    congr 1
    omega
  · rw [← BitVec.ofNat_add]
    congr 1
    omega

theorem position_addressAt {lba : BitVec 64} {bufferSize : BitVec 32} {offset : Nat}
    (haddr : card.Addressable lba bufferSize) (hend : card.start lba + bufferSize.toNat ≤ 2 ^ 41)
    (hoff : offset < bufferSize.toNat) (hboundary : card.boundarySize ∣ offset) :
    card.position (card.addressAt lba offset) = card.start lba + offset := by
  unfold Addressable at haddr
  unfold position addressAt
  split
  · rename_i hsector
    rw [if_pos hsector] at haddr
    obtain ⟨⟨k, hk⟩, hsize⟩ := haddr
    have hdvd : 512 ∣ offset := by
      rcases hsize with hle | hdvd
      · have hzero := Nat.eq_zero_of_dvd_of_lt hboundary (by omega)
        rw [hzero]
        exact dvd_zero 512
      · exact dvd_trans hdvd hboundary
    obtain ⟨j, rfl⟩ := hdvd
    rw [BitVec.toNat_ofNat, Nat.mod_eq_of_lt (by omega)]
    omega
  · rename_i hsector
    rw [if_neg hsector] at haddr
    obtain ⟨j, rfl⟩ := hboundary
    have hj : j ≤ (bufferSize.toNat - 1) / card.boundarySize := by
      rw [Nat.le_div_iff_mul_le card.boundary_pos, Nat.mul_comm]
      omega
    have hmul := Nat.mul_le_mul_right card.boundarySize hj
    rw [Nat.mul_comm j] at hmul
    rw [BitVec.toNat_ofNat, Nat.mod_eq_of_lt (by omega)]

end CardData

end Quark.SdMedia
