import Quark.SmiFlash.Intake

/-!
# The check of addresses against SMRAM

Of two ranges that meet, one starts in the other, and these are the two tests for each descriptor. A descriptor
of size 0 is met where it starts.
-/

namespace Quark.SmiFlash

open Machine

variable {P : Platform} {a n : Nat}

/-- The addresses that a descriptor keeps off: its range, or its start if the range is empty. -/
def EfiSmramDescriptor.guarded (d : EfiSmramDescriptor) : Range := ⟨d.cpuStart, max d.physicalSize 1⟩

theorem EfiSmramDescriptor.meets_iff (d : EfiSmramDescriptor) (hn : 0 < n) :
    d.meets a n = true ↔ ¬ (⟨a, n⟩ : Range).Disjoint d.guarded := by
  have hpos : 0 < max d.physicalSize 1 := Nat.lt_of_lt_of_le Nat.zero_lt_one (Nat.le_max_right _ _)
  unfold meets
  rw [decide_eq_true_iff]
  constructor
  · intro hmeets hdisjoint
    have hends := hdisjoint.ends hn hpos
    have hle := Nat.le_max_left d.physicalSize 1
    rcases hmeets with ⟨hstart, hlt⟩ | ⟨hstart, hlt⟩
    · rcases hends with hend | hend
      · exact absurd (Nat.le_trans hend hstart) (Nat.not_le.mpr (Nat.lt_add_of_pos_right hn))
      · exact absurd (Nat.lt_of_lt_of_le hlt (Nat.add_le_add_left hle _)) (Nat.not_lt.mpr hend)
    · rcases hends with hend | hend
      · exact absurd hlt (Nat.not_lt.mpr hend)
      · exact absurd (Nat.le_trans hend hstart) (Nat.not_le.mpr (Nat.lt_add_of_pos_right hpos))
  · intro hmeet
    by_contra hnot
    obtain ⟨hin, hout⟩ := not_or.mp hnot
    refine hmeet (Range.disjoint_of_ends (fun hstart => ?_) hout)
    -- a range that starts in an empty one starts where that one starts
    rcases Nat.eq_zero_or_pos d.physicalSize with hzero | hsize
    · have heq : a = d.cpuStart := by
        have hlt : a < d.cpuStart + max d.physicalSize 1 := hstart.2
        rw [hzero] at hlt
        exact Nat.le_antisymm (Nat.le_of_lt_succ hlt) hstart.1
      exact hout ⟨Nat.le_of_eq heq, heq ▸ Nat.lt_add_of_pos_right hn⟩
    · have hlt : a < d.cpuStart + max d.physicalSize 1 := hstart.2
      rw [Nat.max_eq_left hsize] at hlt
      exact hin ⟨hstart.1, hlt⟩

theorem isAddressInSmram_iff (hn : 0 < n) :
    isAddressInSmram P a n = true ↔ ∃ d ∈ P.smramRanges, ¬ (⟨a, n⟩ : Range).Disjoint d.guarded := by
  unfold isAddressInSmram
  rw [List.any_eq_true]
  exact exists_congr fun d => and_congr_right fun _ => d.meets_iff hn

theorem wraps_iff (hn : 0 < n) (hle : n < 0x100000000) :
    0 < n ∧ maxAddress - (n - 1) < a ↔ ¬ a + n ≤ maxAddress + 1 := by
  have hmax : maxAddress = 0xFFFFFFFF := rfl
  omega

/-- The two checks on a range of `UINTN` addresses. -/
theorem isAddressValid_exact (P : Platform) (buffer length : BitVec 32) (hn : 0 < length.toNat) :
    (isAddressValid P buffer.toNat length.toNat = true ↔ buffer.toNat + length.toNat ≤ maxAddress + 1 ∧
      ∀ d ∈ P.smramRanges, (⟨buffer.toNat, length.toNat⟩ : Range).Disjoint d.guarded) ∧
      (buffer.toNat + length.toNat ≤ maxAddress + 1 →
        isAddressInSmram P buffer.toNat length.toNat = !isAddressValid P buffer.toNat length.toNat) := by
  unfold isAddressValid
  rw [if_congr (wraps_iff hn length.isLt) rfl rfl]
  have hin := isAddressInSmram_iff (P := P) (a := buffer.toNat) hn
  by_cases hlimit : buffer.toNat + length.toNat ≤ maxAddress + 1
  · rw [if_neg (not_not.mpr hlimit)]
    cases hsmram : isAddressInSmram P buffer.toNat length.toNat with
    | true =>
      obtain ⟨d, hd, hmeet⟩ := hin.mp hsmram
      exact ⟨⟨nofun, fun hvalid => absurd (hvalid.2 d hd) hmeet⟩, fun _ => rfl⟩
    | false =>
      refine ⟨⟨fun _ => ⟨hlimit, fun d hd => ?_⟩, fun _ => rfl⟩, fun _ => rfl⟩
      by_contra hmeet
      rw [hin.mpr ⟨d, hd, hmeet⟩] at hsmram
      cases hsmram
  · rw [if_pos hlimit]
    exact ⟨⟨nofun, fun hvalid => absurd hvalid.1 hlimit⟩, fun hinside => absurd hinside hlimit⟩

theorem isAddressValid_exact_touching :
    (isAddressValid .sample 0x10000 0x10000 = true ↔ 0x10000 + 0x10000 ≤ maxAddress + 1 ∧
      ∀ d ∈ Platform.sample.smramRanges, (⟨0x10000, 0x10000⟩ : Range).Disjoint d.guarded) :=
  (isAddressValid_exact .sample 0x10000 0x10000 (by decide)).1

def emptyInside : Platform := { Platform.sample with smramRanges := [⟨0x1800, 0, by decide⟩] }

theorem isAddressValid_not_exact : ¬ ∀ (P : Platform) (buffer length : BitVec 32), 0 < length.toNat →
    (isAddressValid P buffer.toNat length.toNat = true ↔ buffer.toNat + length.toNat ≤ maxAddress + 1 ∧
      ∀ d ∈ P.smramRanges, (⟨buffer.toNat, length.toNat⟩ : Range).Disjoint d.range) := by
  intro h
  have hvalid := (h emptyInside 0x1000 0x1000 (by decide)).mpr ⟨by decide, fun d hd => ?_⟩
  · exact absurd hvalid (by decide)
  · rw [List.mem_singleton.mp hd]
    exact fun a _ _ hin => absurd hin.2 (Nat.not_lt.mpr hin.1)

end Quark.SmiFlash
