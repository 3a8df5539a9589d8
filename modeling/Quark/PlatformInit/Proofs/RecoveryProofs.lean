import Quark.PlatformInit.Recovery

/-!
# The recovery module: what it reads and announces

Each step adds reads and HOBs to what is noted. The run is contained in the file if and only if each of them is,
which is then said in offsets of the file.
-/

namespace Quark.PlatformInit.Recovery

open Machine Exec

/-! ## What is noted -/

section
variable {file : LoadedFile} {s : RecoveryState}

@[simp] theorem contained_noteRead (addr n : Nat) :
    (s.noteRead addr n).Contained file ↔ s.Contained file ∧ file.Inside (addr % 2 ^ 32) n := by
  constructor
  · rintro ⟨hreads, hhobs⟩
    exact ⟨⟨fun r hr => hreads r (List.mem_append_left _ hr), hhobs⟩,
      hreads _ (List.mem_append_right _ (List.mem_singleton_self _))⟩
  · rintro ⟨⟨hreads, hhobs⟩, hread⟩
    refine ⟨fun r hr => ?_, hhobs⟩
    rcases List.mem_append.mp hr with hr | hr
    · exact hreads r hr
    · rw [List.mem_singleton.mp hr]
      exact hread

@[simp] theorem contained_build (hob : Hob) :
    (s.build hob).Contained file ↔ s.Contained file ∧ hob.InFile file := by
  constructor
  · rintro ⟨hreads, hhobs⟩
    exact ⟨⟨hreads, fun h hh => hhobs h (List.mem_append_left _ hh)⟩,
      hhobs _ (List.mem_append_right _ (List.mem_singleton_self _)) rfl⟩
  · rintro ⟨⟨hreads, hhobs⟩, hbuilt⟩
    refine ⟨hreads, fun h hh hwritten => ?_⟩
    rcases List.mem_append.mp hh with hh | hh
    · exact hhobs h hh hwritten
    · rw [List.mem_singleton.mp hh]
      exact hbuilt

@[simp] theorem contained_boot :
    RecoveryState.Contained file { s with bootOnFlashUpdate := true, bootingRecoveryDxe := true } ↔
      s.Contained file :=
  ⟨fun h => ⟨h.reads, h.hobs⟩, fun h => ⟨h.reads, h.hobs⟩⟩

theorem contained_updateFvHobs (P : RecoveryPlatform) (buffer size : Nat) (hobs : List Hob) :
    ((RecoveryState.start hobs).updateFvHobs P buffer size).Contained file ↔
      (hobs.any (isFlashFvMain P) = true → file.Inside buffer size) := by
  constructor
  · rintro ⟨-, hhobs⟩ hany
    obtain ⟨hob, hmem, hmain⟩ := List.any_eq_true.mp hany
    refine hhobs ⟨.firmwareVolume buffer size, true⟩ ?_ rfl
    refine List.mem_map.mpr ⟨⟨hob, false⟩, List.mem_map_of_mem hmem, ?_⟩
    exact if_pos hmain
  · intro hinside
    refine ⟨by simp [RecoveryState.start, RecoveryState.updateFvHobs], fun h hh hwritten => ?_⟩
    obtain ⟨e, he, heq⟩ := List.mem_map.mp hh
    obtain ⟨hob, hmem, rfl⟩ := List.mem_map.mp he
    by_cases hmain : isFlashFvMain P hob = true
    · rw [← heq, if_pos hmain]
      exact hinside (List.any_eq_true.mpr ⟨hob, hmem, hmain⟩)
    · rw [← heq, if_neg hmain] at hwritten
      cases hwritten

theorem any_start (P : RecoveryPlatform) (hobs : List Hob) :
    ((RecoveryState.start hobs).hobs.any fun h => isFlashFvMain P h.hob) = hobs.any (isFlashFvMain P) := by
  rw [RecoveryState.start, List.any_map]
  rfl

end

/-! ## Steps -/

section
variable (P : RecoveryPlatform) (file : LoadedFile)

theorem readBytes_eq (addr n : Nat) (s : RecoveryState) :
    readBytes file addr n s = .ret (file.bytesAt addr n) (s.noteRead addr n) := rfl

def SecurityInside (secHdr : Nat) : Prop :=
  secHdr ≠ 0 → file.Inside (secHdr % 2 ^ 32) 4 ∧
    (file.bytesAt secHdr 4 = quarkCshIdentifier → file.Inside (secHdr % 2 ^ 32) P.fvSecurityHeaderSize)

theorem buildCapsuleSecurityHeaderHob_spec (secHdr : Nat) (s : RecoveryState) :
    ∃ t, buildCapsuleSecurityHeaderHob P file secHdr s = .ret () t ∧
      (t.Contained file ↔ s.Contained file ∧ SecurityInside P file secHdr) := by
  rw [buildCapsuleSecurityHeaderHob]
  by_cases hnull : secHdr ≠ 0
  · rw [when, if_pos hnull, bind_of_ret (readBytes_eq file _ _ s)]
    by_cases hid : file.bytesAt secHdr 4 = quarkCshIdentifier
    · rw [when, if_pos hid, bind_of_ret (readBytes_eq file _ _ _)]
      refine ⟨_, rfl, ?_⟩
      simp [SecurityInside, hnull, hid, Hob.InFile, and_assoc]
    · rw [when, if_neg hid]
      refine ⟨_, rfl, ?_⟩
      simp [SecurityInside, hnull, hid]
  · rw [when, if_neg hnull]
    refine ⟨_, rfl, ?_⟩
    simp [SecurityInside, hnull]

def CapsuleInside (capsuleHeader : Nat) : Prop :=
  file.Inside ((capsuleHeader + 24) % 2 ^ 32) 4 ∧
    file.Inside capsuleHeader (leValue (file.bytesAt (capsuleHeader + 24) 4))

theorem capsuleInFile_spec (buffer capsuleHeader secHdr : Nat) (s : RecoveryState) :
    ∃ t, capsuleInFile P file buffer capsuleHeader secHdr s = .ret () t ∧
      (t.Contained file ↔ s.Contained file ∧
        (capsuleHeader < (buffer + file.recoveryCapsuleSize) % 2 ^ 32 →
          file.Inside (capsuleHeader % 2 ^ 32) 16 ∧
            (file.bytesAt capsuleHeader 16 = efiCapsuleHeaderGuid →
              SecurityInside P file secHdr ∧ (P.bootModeError = false → CapsuleInside file capsuleHeader)))) := by
  rw [capsuleInFile]
  generalize (buffer + file.recoveryCapsuleSize) % 2 ^ 32 = limit
  by_cases hbelow : capsuleHeader < limit
  · rw [when, if_pos hbelow, bind_of_ret (readBytes_eq file _ _ s)]
    by_cases hguid : file.bytesAt capsuleHeader 16 = efiCapsuleHeaderGuid
    · obtain ⟨u, hu, hcontained⟩ := buildCapsuleSecurityHeaderHob_spec P file secHdr (s.noteRead capsuleHeader 16)
      rw [when, if_pos hguid, bind_of_ret hu]
      by_cases hboot : P.bootModeError = false
      · rw [when, if_pos hboot]
        refine ⟨_, rfl, ?_⟩
        rw [contained_build, contained_noteRead, contained_boot, hcontained, contained_noteRead]
        simp [hbelow, hguid, hboot, CapsuleInside, Hob.InFile, and_assoc]
      · rw [when, if_neg hboot]
        refine ⟨_, rfl, ?_⟩
        rw [hcontained, contained_noteRead]
        simp [hbelow, hguid, hboot, and_assoc]
    · rw [when, if_neg hguid]
      refine ⟨_, rfl, ?_⟩
      simp [hbelow, hguid]
  · rw [when, if_neg hbelow]
    refine ⟨_, rfl, ?_⟩
    simp [hbelow]

theorem topOfFile_spec (hobUpdate : Bool) (buffer : Nat) (s : RecoveryState) :
    ∃ t, topOfFile P file hobUpdate buffer s
        = .ret (if file.bytesAt (buffer + 40) 4 = efiFvhSignature then
            ((buffer + leValue (file.bytesAt (buffer + 32) 8) + P.fvSecurityHeaderSize) % 2 ^ 32,
              (buffer + leValue (file.bytesAt (buffer + 32) 8)) % 2 ^ 32)
          else (buffer, 0)) t ∧
      (t.Contained file ↔ s.Contained file ∧ file.Inside ((buffer + 40) % 2 ^ 32) 4 ∧
        (file.bytesAt (buffer + 40) 4 = efiFvhSignature →
          file.Inside ((buffer + 32) % 2 ^ 32) 8 ∧
            (hobUpdate = false → file.Inside buffer (leValue (file.bytesAt (buffer + 32) 8))))) := by
  rw [topOfFile, bind_of_ret (readBytes_eq file _ _ s)]
  by_cases hsig : file.bytesAt (buffer + 40) 4 = efiFvhSignature
  · rw [if_pos hsig, if_pos hsig, bind_of_ret (readBytes_eq file _ _ _)]
    by_cases hupdate : hobUpdate = false
    · rw [when, if_pos hupdate]
      refine ⟨_, rfl, ?_⟩
      simp [hsig, hupdate, Hob.InFile, and_assoc]
    · rw [when, if_neg hupdate]
      refine ⟨_, rfl, ?_⟩
      simp [hsig, hupdate, and_assoc]
  · rw [if_neg hsig, if_neg hsig]
    refine ⟨_, rfl, ?_⟩
    simp [hsig]

end

/-! ## Offsets -/

section
variable {file : LoadedFile}

theorem inside_offset {off n : Nat} (hn : 0 < n) :
    file.Inside ((file.base + off) % 2 ^ 32) n ↔ off % 2 ^ 32 + n ≤ file.recoveryCapsuleSize := by
  have hend := file.end_le
  have hpage := file.page_le
  rw [LoadedFile.Inside, ← Nat.add_mod_mod]
  have hoff := Nat.mod_lt off (Nat.two_pow_pos 32)
  generalize off % 2 ^ 32 = o at hoff
  omega

theorem inside_of_offset {off n : Nat} (hlt : off < file.recoveryCapsuleSize) :
    file.Inside ((file.base + off) % 2 ^ 32) n ↔ off + n ≤ file.recoveryCapsuleSize := by
  have hend := file.end_le
  rw [LoadedFile.Inside, Nat.mod_eq_of_lt (by omega)]
  omega

theorem inside_size {off : Nat} (hoff : off < 2 ^ 32) :
    file.Inside ((file.base + off) % 2 ^ 32) file.recoveryCapsuleSize ↔ off = 0 := by
  have hend := file.end_le
  have hpage := file.page_le
  have hbase := file.base_lt
  rw [LoadedFile.Inside]
  omega

theorem inside_of_header {off n : Nat} (hoff : off < 2 ^ 32)
    (hheader : (off + 40) % 2 ^ 32 + 4 ≤ file.recoveryCapsuleSize) :
    file.Inside ((file.base + off) % 2 ^ 32) n ↔ off + n ≤ file.recoveryCapsuleSize := by
  have hend := file.end_le
  have hpage := file.page_le
  rw [LoadedFile.Inside]
  omega

theorem inside_offset_lt {off n : Nat} (hoff : off < 2 ^ 32) (hn : 0 < n) :
    file.Inside ((file.base + off) % 2 ^ 32) n ↔ off + n ≤ file.recoveryCapsuleSize := by
  rw [inside_offset hn, Nat.mod_eq_of_lt hoff]

theorem bytesAt_mod (file : LoadedFile) (addr n : Nat) : file.bytesAt (addr % 2 ^ 32) n = file.bytesAt addr n := by
  rw [LoadedFile.bytesAt, LoadedFile.bytesAt]
  refine List.map_congr_left fun i _ => ?_
  rw [Nat.mod_add_mod]

theorem bytesAt_mod_add (file : LoadedFile) (addr off n : Nat) :
    file.bytesAt (addr % 2 ^ 32 + off) n = file.bytesAt (addr + off) n := by
  rw [← bytesAt_mod, Nat.mod_add_mod, bytesAt_mod]

end

/-! ## A file that fits -/

section
variable (P : RecoveryPlatform) (file : LoadedFile)

theorem topOfFile_places : (if file.HasVolume P then
      (((file.base + P.fvSecurityHeaderSize) % 2 ^ 32 + file.fvLength P + P.fvSecurityHeaderSize) % 2 ^ 32,
        ((file.base + P.fvSecurityHeaderSize) % 2 ^ 32 + file.fvLength P) % 2 ^ 32)
      else ((file.base + P.fvSecurityHeaderSize) % 2 ^ 32, 0))
    = ((file.base + file.capsuleOffset P) % 2 ^ 32,
        if file.HasVolume P then (file.base + file.volumeEnd P) % 2 ^ 32 else 0) := by
  by_cases hvolume : file.HasVolume P
  · rw [if_pos hvolume, if_pos hvolume, LoadedFile.capsuleOffset, if_pos hvolume, LoadedFile.volumeEnd,
      Nat.add_mod_mod, Nat.add_mod_mod, Nat.mod_add_mod, Nat.add_assoc (_ % _), Nat.mod_add_mod]
    simp only [Nat.add_assoc]
  · rw [if_neg hvolume, if_neg hvolume, LoadedFile.capsuleOffset, if_neg hvolume]

theorem platformRecoveryModule_contained (hobs : List Hob) :
    (platformRecoveryModule P file (.start hobs)).state.Contained file ↔
      (hobs.any (isFlashFvMain P) = true →
        file.Inside ((file.base + P.fvSecurityHeaderSize) % 2 ^ 32) file.recoveryCapsuleSize) ∧
      file.Inside ((file.base + (P.fvSecurityHeaderSize + 40)) % 2 ^ 32) 4 ∧
      (file.HasVolume P → file.Inside ((file.base + (P.fvSecurityHeaderSize + 32)) % 2 ^ 32) 8 ∧
        (hobs.any (isFlashFvMain P) = false →
          file.Inside ((file.base + P.fvSecurityHeaderSize) % 2 ^ 32) (file.fvLength P))) ∧
      (file.BelowLimit P → file.Inside ((file.base + file.capsuleOffset P) % 2 ^ 32) 16 ∧
        (file.HasCapsule P →
          SecurityInside P file (if file.HasVolume P then (file.base + file.volumeEnd P) % 2 ^ 32 else 0) ∧
          (P.bootModeError = false → CapsuleInside file ((file.base + file.capsuleOffset P) % 2 ^ 32)))) := by
  have hsignature : file.bytesAt ((file.base + P.fvSecurityHeaderSize) % 2 ^ 32 + 40) 4
      = file.bytes (P.fvSecurityHeaderSize + 40) 4 := by
    rw [bytesAt_mod_add, Nat.add_assoc, LoadedFile.bytes]
  have hlength : leValue (file.bytesAt ((file.base + P.fvSecurityHeaderSize) % 2 ^ 32 + 32) 8) = file.fvLength P := by
    rw [bytesAt_mod_add, Nat.add_assoc, LoadedFile.fvLength, LoadedFile.bytes]
  have hcapsule : file.bytesAt ((file.base + file.capsuleOffset P) % 2 ^ 32) 16 = file.bytes (file.capsuleOffset P) 16 :=
    bytesAt_mod file _ _
  obtain ⟨t, ht, htop⟩ := topOfFile_spec P file (hobs.any (isFlashFvMain P))
    ((file.base + P.fvSecurityHeaderSize) % 2 ^ 32)
    ((RecoveryState.start hobs).updateFvHobs P ((file.base + P.fvSecurityHeaderSize) % 2 ^ 32) file.recoveryCapsuleSize)
  rw [hlength, hsignature] at ht htop
  have ht := ht.trans (congrArg (Outcome.ret · t) (topOfFile_places P file))
  obtain ⟨u, hu, hafter⟩ := capsuleInFile_spec P file ((file.base + P.fvSecurityHeaderSize) % 2 ^ 32)
    ((file.base + file.capsuleOffset P) % 2 ^ 32)
    (if file.HasVolume P then (file.base + file.volumeEnd P) % 2 ^ 32 else 0) t
  have hrun : platformRecoveryModule P file (.start hobs) = .ret () u := by
    rw [platformRecoveryModule, bind_of_ret (show get _ = .ret _ _ from rfl), any_start]
    exact (bind_of_ret ht).trans hu
  rw [hrun]
  show u.Contained file ↔ _
  rw [hafter, htop, contained_updateFvHobs, Nat.mod_mod, Nat.mod_add_mod, Nat.mod_add_mod, Nat.mod_add_mod,
    hcapsule, Nat.add_assoc file.base _ 40, Nat.add_assoc file.base _ 32, and_assoc, and_assoc]
  rfl

theorem securityInside_iff (hvolume : file.HasVolume P) :
    SecurityInside P file ((file.base + file.volumeEnd P) % 2 ^ 32) ↔ file.SecurityHeaderFits P := by
  have hlt : file.volumeEnd P < 2 ^ 32 := Nat.mod_lt _ (Nat.two_pow_pos 32)
  rw [SecurityInside, LoadedFile.SecurityHeaderFits, Nat.mod_mod, inside_offset_lt hlt (by decide), bytesAt_mod]
  constructor
  · intro h _ hnull
    obtain ⟨hid, hcopy⟩ := h hnull
    exact ⟨hid, fun heq => (inside_of_offset (by omega)).mp (hcopy heq)⟩
  · intro h hnull
    obtain ⟨hid, hcopy⟩ := h hvolume hnull
    exact ⟨hid, fun heq => (inside_of_offset (by omega)).mpr (hcopy heq)⟩

theorem capsuleOffset_lt : file.capsuleOffset P < 2 ^ 32 := by
  rw [LoadedFile.capsuleOffset]
  split
  · exact Nat.mod_lt _ (Nat.two_pow_pos 32)
  · exact P.fvSecurityHeaderSize_lt

theorem capsuleInside_iff (hguid : file.capsuleOffset P + 16 ≤ file.recoveryCapsuleSize) :
    CapsuleInside file ((file.base + file.capsuleOffset P) % 2 ^ 32) ↔ file.CapsuleFits P := by
  have hend := file.end_le
  have hpage := file.page_le
  rw [CapsuleInside, LoadedFile.CapsuleFits, inside_of_offset (by omega), Nat.mod_add_mod, bytesAt_mod_add,
    Nat.add_assoc, inside_offset_lt (by omega) (by decide)]
  exact Iff.rfl

theorem recovery_contained_iff_fits (hobs : List Hob) :
    (platformRecoveryModule P file (.start hobs)).state.Contained file ↔ file.Fits P hobs := by
  have hS := P.fvSecurityHeaderSize_lt
  have hend := file.end_le
  have hpage := file.page_le
  rw [platformRecoveryModule_contained, inside_size hS, inside_offset (by decide), inside_offset (by decide),
    inside_offset_lt (capsuleOffset_lt P file) (by decide)]
  constructor
  · rintro ⟨hupdate, hsignature, hvolume, hbelow⟩
    refine ⟨hsignature, hupdate, ?_, fun h => (hbelow h).1, ?_, ?_⟩
    · intro h
      obtain ⟨hlength, hbuilt⟩ := hvolume h
      exact ⟨hlength, fun hnone => (inside_of_header hS hsignature).mp (hbuilt hnone)⟩
    · intro h hcapsule hhas
      have hsecurity := ((hbelow h).2 hcapsule).1
      rw [if_pos hhas, securityInside_iff P file hhas] at hsecurity
      exact hsecurity hhas
    · intro h hcapsule hboot
      exact (capsuleInside_iff P file (hbelow h).1).mp (((hbelow h).2 hcapsule).2 hboot)
  · rintro ⟨hsignature, hupdate, hvolume, hguid, hsecurity, hcapsule⟩
    refine ⟨hupdate, hsignature, ?_, fun h => ⟨hguid h, fun hhas => ⟨?_, fun hboot => ?_⟩⟩⟩
    · intro h
      obtain ⟨hlength, hbuilt⟩ := hvolume h
      exact ⟨hlength, fun hnone => (inside_of_header hS hsignature).mpr (hbuilt hnone)⟩
    · by_cases hv : file.HasVolume P
      · rw [if_pos hv, securityInside_iff P file hv]
        exact hsecurity h hhas
      · rw [if_neg hv]
        exact fun hnull => absurd rfl hnull
    · exact (capsuleInside_iff P file (hguid h)).mpr (hcapsule h hhas hboot)

end

/-- A file of 1104 bytes: behind a security header stands a volume header, with a length of 4096. -/
def longVolume : LoadedFile where
  base := 0x1000
  recoveryCapsuleSize := 0x450
  mem a := if 0x1428 ≤ a ∧ a < 0x142C then efiFvhSignature.getD (a - 0x1428) 0 else if a = 0x1421 then 0x10 else 0
  page_le := by decide
  base_lt := by decide
  end_le := by decide

def recoveryPlatform : RecoveryPlatform := ⟨0x400, 0xFFD70400, false, by decide⟩

theorem recovery_not_contained :
    ¬ (platformRecoveryModule recoveryPlatform longVolume (.start [])).state.Contained longVolume := by
  rintro ⟨-, hhobs⟩
  exact absurd (hhobs ⟨.firmwareVolume 0x1400 0x1000, true⟩ (by decide) rfl).2 (by decide)

end Quark.PlatformInit.Recovery
