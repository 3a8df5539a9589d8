import Quark.SecureBoot.Proofs.AccessProofs

/-!
# Loading, as a whole

The accesses of `LoadPeImageWork` are inside the image exactly if the headers, the certificate and, for
an image that is hashed, the body are.
-/

namespace Quark.SecureBoot

open Machine Machine.Exec

namespace LoadedImage

variable (image : LoadedImage)

theorem peCoffHdrOff_lt : image.peCoffHdrOff < 2 ^ 32 := by
  unfold peCoffHdrOff
  split
  · exact image.word4_lt 60
  · decide

theorem has_iff {off len base : Nat} (hbase : base ≤ image.imageSize) (h : off ≤ base + 0x400000) :
    image.Has off len ↔ off + len ≤ image.imageSize := by
  have hsize := image.copied
  unfold Has
  rw [Nat.mod_eq_of_lt (by omega)]

theorem traced_readPeCoffHdrOff :
    Traced image.imageSize image.readPeCoffHdrOff image.peCoffHdrOff
      (2 ≤ image.imageSize ∧ (image.dosHeader → 64 ≤ image.imageSize)) [] := by
  have hmagic := image.traced_readWord 0 2 Nat.two_pos
  have hlfanew := image.traced_readWord 60 4 (by decide)
  have hhas : image.Has 60 4 ↔ 64 ≤ image.imageSize := image.has_iff (Nat.zero_le _) (by decide)
  have hhas0 : image.Has 0 2 ↔ 2 ≤ image.imageSize :=
    image.has_iff (Nat.zero_le _) (by decide)
  unfold peCoffHdrOff
  by_cases hdos : image.dosHeader
  · rw [if_pos hdos]
    refine (hmagic.bind (K := []) (b := image.word 60 4) (Q := image.Has 60 4) ?_).congr ?_
    · rw [if_pos (show image.word 0 2 = dosSignature from hdos)]
      exact hlfanew
    · rw [hhas0, hhas]
      exact and_congr Iff.rfl ⟨fun h _ => h, fun h => h hdos⟩
  · rw [if_neg hdos]
    refine (hmagic.bind (K := []) (b := 0) (Q := True) ?_).congr ?_
    · rw [if_neg (show ¬ image.word 0 2 = dosSignature from hdos)]
      exact Traced.pure 0
    · rw [hhas0]
      exact and_congr Iff.rfl ⟨fun _ h => absurd h hdos, fun _ => trivial⟩

theorem traced_readCertificate {secDataDir : Nat} :
    Traced image.imageSize (image.readCertificate secDataDir) (image.certificate? secDataDir)
      (image.Has (secDataDir + 4) 4 ∧
        (image.word (secDataDir + 4) 4 ≠ 0 → image.Has secDataDir 4)) [] := by
  have hsize := image.traced_readWord (secDataDir + 4) 4 (by decide)
  have hoffset := image.traced_readWord secDataDir 4 (by decide)
  unfold certificate?
  by_cases h : image.word (secDataDir + 4) 4 = 0
  · rw [if_pos (.inl h)]
    refine (hsize.bind (K := []) (b := none) (Q := True) ?_).congr ?_
    · rw [if_pos h]
      exact Traced.pure none
    · exact and_congr Iff.rfl ⟨fun _ hc => absurd h hc, fun _ => trivial⟩
  · refine (hsize.bind (K := []) (Q := image.Has secDataDir 4) ?_).congr ?_
    · rw [if_neg h]
      simp only [h, false_or]
      exact hoffset.map fun offset =>
        if (image.imageBase.toNat + offset) % 2 ^ 32 = 0 then none else some offset
    · exact and_congr Iff.rfl ⟨fun hin _ => hin, fun hin => hin h⟩

theorem digests_calcHashOf (calcHash : Bool) (secDataDir : Nat) :
    image.Digests
      (image.calcHashOf calcHash image.peCoffHdrOff (image.certificate? secDataDir))
      (if calcHash then image.hashAlg? secDataDir else none)
      (calcHash = true → ∀ c, image.certificate? secDataDir = some c → image.CertificatePresent c) := by
  cases calcHash with
  | false => exact digests_none.congr ⟨fun _ h => absurd h Bool.false_ne_true, fun _ => trivial⟩
  | true =>
    rw [if_pos rfl, calcHashOf, if_pos rfl]
    exact (image.digests_hashByCertificate _).congr ⟨fun h _ => h, fun h => h rfl⟩

theorem secDataDir?_of_not_signed (h : ¬ image.signed) : image.secDataDir? = none := if_neg h

theorem secDataDir?_of_signed (h : image.signed) :
    image.secDataDir? =
      (secDataDirOf image.peCoffHdrOff (image.word (image.peCoffHdrOff + 4) 2)).map Prod.snd :=
  if_pos h

theorem secDataDirOf_le {peCoffHdrOff machine : Nat} {is32 : Bool} {secDataDir : Nat}
    (h : secDataDirOf peCoffHdrOff machine = some (is32, secDataDir)) :
    peCoffHdrOff + 152 ≤ secDataDir ∧ secDataDir ≤ peCoffHdrOff + 168 := by
  unfold secDataDirOf at h
  split_ifs at h
  · injection h with h
    injection h with _ h
    omega
  · injection h with h
    injection h with _ h
    omega

theorem not_hashed_of_none (calcHash : Bool) (h : image.secDataDir? = none) :
    ¬ image.Hashed calcHash := by
  rintro ⟨-, secDataDir, hdir, -⟩
  rw [h] at hdir
  cases hdir

def CertificateChecked (calcHash : Bool) : Prop :=
  calcHash = true → ∀ secDataDir, image.secDataDir? = some secDataDir →
    ∀ certificate, image.certificate? secDataDir = some certificate →
      image.CertificatePresent certificate

/-- What is known of a run of `LoadPeImageWork`. -/
structure LoadRun (calcHash : Bool) (info : Option LoadInfo) (log : List Access) : Prop where
  run : image.loadPeImageWork calcHash [] = .ret info log
  inside : (∀ access ∈ log, access.span.Inside image.imageSize) ↔
    image.HeadersPresent ∧ image.CertificateChecked calcHash ∧
      (image.Hashed calcHash → image.HashInside)
  digestSize : ∀ loadInfo, info = some loadInfo →
    (loadInfo.imageDigestSize ≠ 0 ↔ image.Hashed calcHash)
  loaded : image.Hashed calcHash → ∃ loadInfo, info = some loadInfo
  hashes : image.Hashed calcHash → ∃ sorted : List Span, sorted.Perm image.sectionData ∧
    (sorted.Pairwise fun s t => s.offset ≤ t.offset) ∧
    log.filterMap Access.hashed? = image.hashSpans sorted

theorem load_none (calcHash : Bool) (h : image.secDataDir? = none) {P : Prop}
    (htraced : Traced image.imageSize (image.loadPeImageWork calcHash) none P [])
    (hP : P ↔ image.HeadersPresent) : ∃ info log, image.LoadRun calcHash info log := by
  obtain ⟨log, hrun, hin, -⟩ := htraced
  have hnot := image.not_hashed_of_none calcHash h
  have hchecked : image.CertificateChecked calcHash := by
    intro _ secDataDir hdir
    rw [h] at hdir
    cases hdir
  refine ⟨none, log, hrun [], ?_, ?_, fun hc => absurd hc hnot, fun hc => absurd hc hnot⟩
  · rw [hin, hP]
    exact ⟨fun hp => ⟨hp, hchecked, fun hc => absurd hc hnot⟩, fun hp => hp.1⟩
  · intro loadInfo hinfo
    cases hinfo

theorem has_signature : image.Has image.peCoffHdrOff 4 ↔ image.peCoffHdrOff + 4 ≤ image.imageSize := by
  unfold Has
  rw [Nat.mod_eq_of_lt image.peCoffHdrOff_lt]

theorem headersPresent_of_none (h : image.secDataDir? = none) :
    image.HeadersPresent ↔ (2 ≤ image.imageSize ∧ (image.dosHeader → 64 ≤ image.imageSize)) ∧
      image.Has image.peCoffHdrOff 4 ∧ (image.signed → image.Has (image.peCoffHdrOff + 4) 2) := by
  rw [image.has_signature]
  constructor
  · intro hp
    have hsignature := hp.signature
    refine ⟨⟨hp.dosMagic, hp.lfanew⟩, hsignature, fun hsigned => ?_⟩
    exact (image.has_iff hsignature (by omega)).mpr (hp.machine hsigned)
  · rintro ⟨⟨hmagic, hlfanew⟩, hsignature, hmachine⟩
    refine ⟨hmagic, hlfanew, hsignature, fun hsigned => ?_, fun secDataDir hdir => ?_⟩
    · have hhas := hmachine hsigned
      rwa [image.has_iff hsignature (by omega)] at hhas
    · rw [h] at hdir
      cases hdir

theorem headersPresent_of_some {secDataDir : Nat} (hsigned : image.signed)
    (hdir : image.secDataDir? = some secDataDir) (hle : secDataDir ≤ image.peCoffHdrOff + 168) :
    image.HeadersPresent ↔ (2 ≤ image.imageSize ∧ (image.dosHeader → 64 ≤ image.imageSize)) ∧
      image.Has image.peCoffHdrOff 4 ∧ image.Has (image.peCoffHdrOff + 4) 2 ∧
      image.Has (secDataDir + 4) 4 ∧ (image.word (secDataDir + 4) 4 ≠ 0 → image.Has secDataDir 4) := by
  rw [image.has_signature]
  constructor
  · intro hp
    have hsignature := hp.signature
    have hdirectory := hp.directory secDataDir hdir
    refine ⟨⟨hp.dosMagic, hp.lfanew⟩, hsignature, ?_, ?_, fun _ => ?_⟩
    · exact (image.has_iff hsignature (by omega)).mpr (hp.machine hsigned)
    · exact (image.has_iff hsignature (by omega)).mpr (by omega)
    · exact (image.has_iff hsignature (by omega)).mpr (by omega)
  · rintro ⟨⟨hmagic, hlfanew⟩, hsignature, hmachine, hsize, -⟩
    rw [image.has_iff hsignature (by omega)] at hmachine hsize
    refine ⟨hmagic, hlfanew, hsignature, fun _ => hmachine, fun secDataDir' hdir' => ?_⟩
    rw [hdir] at hdir'
    injection hdir' with hdir'
    omega

theorem hashed_iff {calcHash : Bool} {secDataDir : Nat}
    (hdir : image.secDataDir? = some secDataDir) :
    image.Hashed calcHash ↔
      (if calcHash then image.hashAlg? secDataDir else none).isSome := by
  unfold Hashed
  rw [hdir]
  cases calcHash with
  | false => simp
  | true => simp

theorem certificateChecked_iff {calcHash : Bool} {secDataDir : Nat}
    (hdir : image.secDataDir? = some secDataDir) :
    image.CertificateChecked calcHash ↔ (calcHash = true → ∀ certificate,
      image.certificate? secDataDir = some certificate → image.CertificatePresent certificate) := by
  unfold CertificateChecked
  rw [hdir]
  constructor
  · exact fun h hcalc => h hcalc secDataDir rfl
  · intro h hcalc secDataDir' hdir'
    injection hdir' with hdir'
    rw [← hdir']
    exact h hcalc

theorem load_some {calcHash : Bool} {is32 : Bool} {secDataDir : Nat} (hsigned : image.signed)
    (hdir : secDataDirOf image.peCoffHdrOff (image.word (image.peCoffHdrOff + 4) 2)
      = some (is32, secDataDir)) : ∃ info log, image.LoadRun calcHash info log := by
  have hdir? : image.secDataDir? = some secDataDir := by
    rw [image.secDataDir?_of_signed hsigned, hdir]
    rfl
  have hsignature := image.traced_readWord image.peCoffHdrOff 4 (by decide)
  have hmachine := image.traced_readWord (image.peCoffHdrOff + 4) 2 Nat.two_pos
  obtain ⟨digestSize, hs, hdigest, hsize, hhs⟩ :=
    image.digests_calcHashOf calcHash secDataDir
  rw [← image.hashed_iff hdir?] at hdigest hsize hhs
  have hmap := hdigest.map fun imageDigestSize => some (LoadInfo.mk is32 image.peCoffHdrOff secDataDir
    (image.certificate? secDataDir) imageDigestSize)
  have hword : image.word image.peCoffHdrOff 4 = ntSignature := hsigned
  obtain ⟨log, hrun, hin, hlog⟩ : Traced image.imageSize (image.loadPeImageWork calcHash)
      (some ⟨is32, image.peCoffHdrOff, secDataDir, image.certificate? secDataDir, digestSize⟩)
      ((2 ≤ image.imageSize ∧ (image.dosHeader → 64 ≤ image.imageSize)) ∧
        image.Has image.peCoffHdrOff 4 ∧ image.Has (image.peCoffHdrOff + 4) 2 ∧
        (image.Has (secDataDir + 4) 4 ∧
          (image.word (secDataDir + 4) 4 ≠ 0 → image.Has secDataDir 4)) ∧
        (calcHash = true → ∀ c, image.certificate? secDataDir = some c → image.CertificatePresent c) ∧
        (image.Hashed calcHash → image.HashInside)) hs := by
    refine image.traced_readPeCoffHdrOff.bind (H := []) (K := hs)
      (hsignature.bind (H := []) (K := hs) ?_)
    rw [if_neg (not_not.mpr hword)]
    refine hmachine.bind (H := []) (K := hs) ?_
    rw [hdir]
    exact image.traced_readCertificate.bind (H := []) (K := hs) hmap
  refine ⟨_, log, hrun [], ?_, ?_, fun _ => ⟨_, rfl⟩, fun hc => ?_⟩
  · rw [hin, image.headersPresent_of_some hsigned hdir? (secDataDirOf_le hdir).2,
      image.certificateChecked_iff hdir?]
    simp only [and_assoc]
  · intro loadInfo hinfo
    injection hinfo with hinfo
    rw [← hinfo]
    exact hsize
  · obtain ⟨sorted, hperm, hpairwise, hspans⟩ := hhs hc
    exact ⟨sorted, hperm, hpairwise, hlog.trans hspans⟩

theorem load (calcHash : Bool) : ∃ info log, image.LoadRun calcHash info log := by
  have hsignature := image.traced_readWord image.peCoffHdrOff 4 (by decide)
  have hmachine := image.traced_readWord (image.peCoffHdrOff + 4) 2 Nat.two_pos
  by_cases hsigned : image.signed
  · have hword : image.word image.peCoffHdrOff 4 = ntSignature := hsigned
    cases hdir : secDataDirOf image.peCoffHdrOff (image.word (image.peCoffHdrOff + 4) 2) with
    | some dir => exact image.load_some hsigned hdir
    | none =>
      have hnone : image.secDataDir? = none := by
        rw [image.secDataDir?_of_signed hsigned, hdir]
        rfl
      refine image.load_none calcHash hnone (P := (2 ≤ image.imageSize ∧
        (image.dosHeader → 64 ≤ image.imageSize)) ∧ image.Has image.peCoffHdrOff 4 ∧
          image.Has (image.peCoffHdrOff + 4) 2 ∧ True) ?_ ?_
      · refine image.traced_readPeCoffHdrOff.bind (K := []) (hsignature.bind (K := []) ?_)
        rw [if_neg (not_not.mpr hword)]
        refine hmachine.bind (K := []) ?_
        rw [hdir]
        exact Traced.pure none
      · rw [image.headersPresent_of_none hnone, and_true]
        simp only [hsigned, true_implies]
  · have hnone := image.secDataDir?_of_not_signed hsigned
    have hword : image.word image.peCoffHdrOff 4 ≠ ntSignature := hsigned
    refine image.load_none calcHash hnone (P := (2 ≤ image.imageSize ∧
      (image.dosHeader → 64 ≤ image.imageSize)) ∧ image.Has image.peCoffHdrOff 4 ∧ True) ?_ ?_
    · refine image.traced_readPeCoffHdrOff.bind (K := []) (hsignature.bind (K := []) ?_)
      rw [if_pos hword]
      exact Traced.pure none
    · rw [image.headersPresent_of_none hnone]
      simp only [hsigned, false_implies]

end LoadedImage

end Quark.SecureBoot
