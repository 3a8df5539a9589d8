import Quark.SecureBoot.Proofs.LoadProofs

/-!
# What the hash covers

The loader stays inside an image, and the hash covers what it is to cover, exactly if all that is read
and hashed lies in the file and no section reaches into the certificate table.
-/

namespace Quark.SecureBoot

open Machine

theorem distance_of_le {a b : Nat} (h : b ≤ a) (ha : a < 2 ^ 32) : distance a b = a - b := by
  unfold distance sub32 u32
  omega

namespace LoadedImage

variable (image : LoadedImage)

/-! ## The body of an image -/

theorem securityEntry_bounds : image.peCoffHdrOff + 152 ≤ image.securityEntry ∧
    image.securityEntry ≤ image.peCoffHdrOff + 168 := by
  unfold securityEntry securityEntryOf
  split
  · omega
  · omega

theorem sectionData_length_pos {data : Span} (h : data ∈ image.sectionData) : 0 < data.length := by
  obtain ⟨header, hheader, rfl⟩ := List.mem_map.mp h
  have hne := (List.mem_filter.mp hheader).2
  exact Nat.pos_of_ne_zero (of_decide_eq_true hne)

theorem Hashed.signed {image : LoadedImage} {calcHash : Bool} (h : image.Hashed calcHash) :
    image.signed := by
  by_contra hsigned
  exact image.not_hashed_of_none calcHash (image.secDataDir?_of_not_signed hsigned) h

theorem headers_inside_iff (hentry : image.securityEntry ≤ image.imageSize) :
    (⟨(image.securityEntry + 8) % 2 ^ 32, distance image.sizeOfHeaders (image.securityEntry + 8)⟩
      : Span).Inside image.imageSize ↔
    image.securityEntry + 8 ≤ image.sizeOfHeaders ∧
      (image.sizeOfHeaders = image.securityEntry + 8 ∨ image.sizeOfHeaders ≤ image.imageSize) := by
  have hcopied := image.copied
  have hsize : image.sizeOfHeaders < 2 ^ 32 := image.word4_lt _
  unfold Span.Inside distance sub32 u32
  dsimp only
  omega

theorem tail_inside_iff (hsum : image.sumOfSections < image.imageSize) :
    (⟨image.sumOfSections, distance (distance image.imageSize image.certificateSize) image.sumOfSections⟩
      : Span).Inside image.imageSize ↔
    image.sumOfSections + image.certificateSize ≤ image.imageSize := by
  have hcopied := image.copied
  have hcertificate : image.certificateSize < 2 ^ 32 := image.word4_lt _
  unfold Span.Inside distance sub32 u32
  dsimp only
  omega

theorem sectionTable_inside_iff (hbase : image.peCoffHdrOff ≤ image.imageSize) :
    (∀ i < image.numberOfSections, image.Has (image.sectionTable + 40 * i) 40) ↔
      (image.numberOfSections = 0 ∨
        image.sectionTable + 40 * image.numberOfSections ≤ image.imageSize) := by
  have hnumber : image.numberOfSections < 2 ^ 16 := image.word2_lt _
  have htable : image.sectionTable < image.peCoffHdrOff + 24 + 2 ^ 16 :=
    Nat.add_lt_add_left (image.word2_lt _) _
  have hhas (i : Nat) (hi : i < image.numberOfSections) :
      image.Has (image.sectionTable + 40 * i) 40 ↔
        image.sectionTable + 40 * i + 40 ≤ image.imageSize :=
    image.has_iff hbase (by omega)
  constructor
  · intro h
    rcases Nat.eq_zero_or_pos image.numberOfSections with hzero | hpos
    · exact .inl hzero
    · have hlast := (hhas (image.numberOfSections - 1) (by omega)).mp (h _ (by omega))
      omega
  · intro h i hi
    rw [hhas i hi]
    omega

theorem hashInside_iff (hmachine : image.peCoffHdrOff + 6 ≤ image.imageSize) :
    image.HashInside ↔ image.BodyPresent := by
  have hcopied := image.copied
  obtain ⟨hlow, hhigh⟩ := image.securityEntry_bounds
  have hbase : image.peCoffHdrOff ≤ image.imageSize := by omega
  have hchecksum : image.checkSum = image.peCoffHdrOff + 88 := rfl
  have hhas {off len : Nat} (h : off ≤ image.peCoffHdrOff + 0x400000) :
      image.Has off len ↔ off + len ≤ image.imageSize := image.has_iff hbase h
  have hmiddle : distance image.securityEntry (image.checkSum + 4)
      = image.securityEntry - (image.checkSum + 4) := distance_of_le (by omega) (by omega)
  have hmod : (image.checkSum + 4) % 2 ^ 32 = image.checkSum + 4 := Nat.mod_eq_of_lt (by omega)
  constructor
  · intro h
    have hentry : image.securityEntry ≤ image.imageSize := by
      have hin := h.middle
      rw [hmiddle, hmod, Span.inside_of_pos (by show 0 < _ - _; omega)] at hin
      change image.checkSum + 4 + (image.securityEntry - (image.checkSum + 4)) ≤ _ at hin
      omega
    obtain ⟨hend, hpresent⟩ := (image.headers_inside_iff hentry).mp h.headers
    refine ⟨hentry, hend, hpresent, (image.sectionTable_inside_iff hbase).mp h.sectionTable, ?_, ?_⟩
    · intro data hdata
      exact (Span.inside_of_pos (image.sectionData_length_pos hdata)).mp (h.sectionData data hdata)
    · intro hsum
      have hsize := h.certificateSize hsum
      rw [hhas (by omega)] at hsize
      exact ⟨hsize, (image.tail_inside_iff hsum).mp (h.tail hsum)⟩
  · intro h
    have hentry := h.optionalHeader
    refine ⟨(hhas (by omega)).mpr (by omega), (hhas (by omega)).mpr (by omega), .inr ?_, .inr ?_,
      (hhas (by omega)).mpr (by omega), (image.headers_inside_iff hentry).mpr
        ⟨h.headersEnd, h.headersPresent⟩, (hhas (by omega)).mpr (by omega),
      (hhas (by omega)).mpr (by omega), (image.sectionTable_inside_iff hbase).mpr h.sectionTable, ?_,
      ?_, ?_⟩
    · show 0 + image.checkSum % 2 ^ 32 ≤ image.imageSize
      omega
    · rw [hmiddle, hmod]
      show image.checkSum + 4 + (image.securityEntry - (image.checkSum + 4)) ≤ image.imageSize
      omega
    · exact fun data hdata => .inr (h.sectionData data hdata)
    · exact fun hsum => (hhas (by omega)).mpr (h.tail hsum).1
    · exact fun hsum => (image.tail_inside_iff hsum).mpr (h.tail hsum).2

/-! ## Coverage -/

def sectionsEnd : Nat := image.sizeOfHeaders + Span.total image.sectionData

def tailLength : Nat :=
  if image.sectionsEnd < image.imageSize then
    image.imageSize - image.certificateSize - image.sectionsEnd
  else 0

variable {image}

theorem BodyPresent.sectionsEnd_le (h : image.BodyPresent) {sorted : List Span}
    (hperm : sorted.Perm image.sectionData) (htile : Span.Tile image.sizeOfHeaders sorted) :
    image.sectionsEnd = image.securityEntry + 8 ∨ image.sectionsEnd ≤ image.imageSize := by
  unfold sectionsEnd
  rw [← Span.total_perm hperm]
  by_cases hne : sorted = []
  · rw [hne]
    exact h.headersPresent
  · obtain ⟨s, hs, hend⟩ := htile.exists_end hne
    rw [← hend]
    exact .inr (h.sectionData s (hperm.mem_iff.mp hs))

theorem BodyPresent.sumOfSections_eq (h : image.BodyPresent) {sorted : List Span}
    (hperm : sorted.Perm image.sectionData) (htile : Span.Tile image.sizeOfHeaders sorted) :
    image.sumOfSections = image.sectionsEnd := by
  have hcopied := image.copied
  have hentry := h.optionalHeader
  have hle := h.sectionsEnd_le hperm htile
  exact Nat.mod_eq_of_lt (show image.sectionsEnd < 2 ^ 32 by omega)

theorem BodyPresent.positions_hashSpans (h : image.BodyPresent) {sorted : List Span}
    (hperm : sorted.Perm image.sectionData) (htile : Span.Tile image.sizeOfHeaders sorted) :
    (image.hashSpans sorted).flatMap Span.positions =
      List.range' 0 image.checkSum ++
      (List.range' (image.checkSum + 4) (image.securityEntry - (image.checkSum + 4)) ++
      (List.range' (image.securityEntry + 8) (image.sectionsEnd - (image.securityEntry + 8)) ++
      List.range' image.sectionsEnd image.tailLength)) := by
  have hcopied := image.copied
  have hentry := h.optionalHeader
  have hheaders := h.headersEnd
  have hsizeOfHeaders : image.sizeOfHeaders < 2 ^ 32 := image.word4_lt _
  have hcertificate : image.certificateSize < 2 ^ 32 := image.word4_lt _
  obtain ⟨hlow, hhigh⟩ := image.securityEntry_bounds
  have hchecksum : image.checkSum = image.peCoffHdrOff + 88 := rfl
  have hsum := h.sumOfSections_eq hperm htile
  have hmod₁ : image.checkSum % 2 ^ 32 = image.checkSum := Nat.mod_eq_of_lt (by omega)
  have hmod₂ : (image.checkSum + 4) % 2 ^ 32 = image.checkSum + 4 := Nat.mod_eq_of_lt (by omega)
  have hmod₃ : (image.securityEntry + 8) % 2 ^ 32 = image.securityEntry + 8 :=
    Nat.mod_eq_of_lt (by omega)
  have hsub₁ : distance image.securityEntry (image.checkSum + 4)
      = image.securityEntry - (image.checkSum + 4) := distance_of_le (by omega) (by omega)
  have hsub₂ : distance image.sizeOfHeaders (image.securityEntry + 8)
      = image.sizeOfHeaders - (image.securityEntry + 8) := distance_of_le hheaders hsizeOfHeaders
  have htail : (if image.sumOfSections < image.imageSize then
      [(⟨image.sumOfSections, distance (distance image.imageSize image.certificateSize)
        image.sumOfSections⟩ : Span)] else []).flatMap Span.positions
      = List.range' image.sectionsEnd image.tailLength := by
    unfold tailLength
    rw [hsum]
    by_cases hlt : image.sectionsEnd < image.imageSize
    · have hroom := (h.tail (hsum.symm ▸ hlt)).2
      rw [hsum] at hroom
      rw [if_pos hlt, if_pos hlt, distance_of_le (a := image.imageSize) (by omega) (by omega),
        distance_of_le (by omega) (by omega)]
      exact List.append_nil _
    · rw [if_neg hlt, if_neg hlt]
      rfl
  have hjoin : List.range' (image.securityEntry + 8) (image.sizeOfHeaders - (image.securityEntry + 8))
      ++ List.range' image.sizeOfHeaders (Span.total image.sectionData)
      = List.range' (image.securityEntry + 8) (image.sectionsEnd - (image.securityEntry + 8)) := by
    have happend := List.range'_append_1 (s := image.securityEntry + 8)
      (m := image.sizeOfHeaders - (image.securityEntry + 8)) (n := Span.total image.sectionData)
    have hstart : image.securityEntry + 8 + (image.sizeOfHeaders - (image.securityEntry + 8))
        = image.sizeOfHeaders := by omega
    have hlen : image.sizeOfHeaders - (image.securityEntry + 8) + Span.total image.sectionData
        = image.sectionsEnd - (image.securityEntry + 8) := by
      unfold sectionsEnd
      omega
    rw [hstart, hlen] at happend
    exact happend
  unfold hashSpans
  rw [List.flatMap_cons, List.flatMap_cons, List.flatMap_cons, List.flatMap_append, htail,
    htile.flatMap_positions, Span.total_perm hperm, hmod₁, hmod₂, hmod₃, hsub₁, hsub₂, ← hjoin,
    List.append_assoc]
  rfl

theorem mem_authenticated {x : Nat} :
    x ∈ image.authenticated ↔ x < image.imageSize ∧ image.Authenticated x := by
  unfold authenticated
  rw [List.mem_filter, List.mem_range, decide_eq_true_iff]

theorem authenticated_pairwise : image.authenticated.Pairwise (· < ·) :=
  List.pairwise_lt_range.filter _

/-- With sections that tile and the certificate table at the end, the hash covers what it is to cover
exactly if the sections stay clear of the certificate table. -/
theorem BodyPresent.covers_iff (h : image.BodyPresent) {sorted : List Span}
    (hperm : sorted.Perm image.sectionData) (htile : Span.Tile image.sizeOfHeaders sorted)
    (hcert : image.CertificateAtEnd) :
    (image.hashSpans sorted).flatMap Span.positions = image.authenticated ↔ image.SectionsClear := by
  have hentry := h.optionalHeader
  have hheaders := h.headersEnd
  obtain ⟨hlow, hhigh⟩ := image.securityEntry_bounds
  have hchecksum : image.checkSum = image.peCoffHdrOff + 88 := rfl
  have hend := h.sectionsEnd_le hperm htile
  have hge : image.sizeOfHeaders ≤ image.sectionsEnd := Nat.le_add_right _ _
  have htail := h.tail
  rw [h.sumOfSections_eq hperm htile] at htail
  rw [h.positions_hashSpans hperm htile]
  unfold SectionsClear
  rw [h.sumOfSections_eq hperm htile]
  have hmem (x : Nat) : x ∈ List.range' 0 image.checkSum ++
      (List.range' (image.checkSum + 4) (image.securityEntry - (image.checkSum + 4)) ++
      (List.range' (image.securityEntry + 8) (image.sectionsEnd - (image.securityEntry + 8)) ++
      List.range' image.sectionsEnd image.tailLength)) ↔
      x < image.checkSum ∨ (image.checkSum + 4 ≤ x ∧ x < image.securityEntry) ∨
      (image.securityEntry + 8 ≤ x ∧ x < image.sectionsEnd) ∨
      (image.sectionsEnd ≤ x ∧ x < image.sectionsEnd + image.tailLength) := by
    simp only [List.mem_append, List.mem_range'_1]
    omega
  unfold tailLength at *
  constructor
  · intro heq
    have hiff (x : Nat) := (hmem x).symm.trans (by rw [heq, mem_authenticated])
    unfold Authenticated at hiff
    by_contra hclear
    -- the last byte of the file, and the last one before the security directory
    have hlast := hiff (image.imageSize - 1)
    have hbefore := hiff (image.securityEntry - 1)
    unfold CertificateAtEnd at hcert
    split at hlast
    · omega
    · omega
  · intro hclear
    refine List.Pairwise.eq_of_mem_iff ?_ authenticated_pairwise fun x => ?_
    · refine List.pairwise_append.mpr ⟨List.pairwise_lt_range', List.pairwise_append.mpr
        ⟨List.pairwise_lt_range', List.pairwise_append.mpr
          ⟨List.pairwise_lt_range', List.pairwise_lt_range', ?_⟩, ?_⟩, ?_⟩
      · intro x hx y hy
        simp only [List.mem_range'_1] at hx hy
        omega
      · intro x hx y hy
        simp only [List.mem_append, List.mem_range'_1] at hx hy
        omega
      · intro x hx y hy
        simp only [List.mem_append, List.mem_range'_1] at hx hy
        omega
    · rw [hmem, mem_authenticated]
      unfold Authenticated
      unfold CertificateAtEnd at hcert
      split
      · omega
      · omega

theorem LoadRun.sound_iff {calcHash : Bool} {info : Option LoadInfo} {log : List Access}
    (hrun : image.LoadRun calcHash info log) :
    ((∀ access ∈ log, access.span.Inside image.imageSize) ∧
      (∀ loadInfo, info = some loadInfo → loadInfo.imageDigestSize ≠ 0 → image.SectionsTile →
        image.CertificateAtEnd → hashedPositions log = image.authenticated)) ↔
      image.WellBounded calcHash := by
  have hbody (hheaders : image.HeadersPresent) (hc : image.Hashed calcHash) :
      image.HashInside ↔ image.BodyPresent := image.hashInside_iff (hheaders.machine hc.signed)
  have hcovers (hc : image.Hashed calcHash) (hpresent : image.BodyPresent)
      (htile : image.SectionsTile) (hcert : image.CertificateAtEnd) :
      hashedPositions log = image.authenticated ↔ image.SectionsClear := by
    obtain ⟨sorted, hperm, hpairwise, hspans⟩ := hrun.hashes hc
    obtain ⟨tiles, htiles, htile⟩ := htile
    have hsorted : Span.Tile image.sizeOfHeaders sorted :=
      Span.tile_of_perm (htiles.trans hperm.symm) htile
        (fun s hs => image.sectionData_length_pos (hperm.mem_iff.mp hs)) hpairwise
    unfold hashedPositions
    rw [hspans]
    exact hpresent.covers_iff hperm hsorted hcert
  rw [hrun.inside]
  constructor
  · rintro ⟨⟨hheaders, hcertificate, hinside⟩, hcoverage⟩
    have hpresent (hc : image.Hashed calcHash) : image.BodyPresent :=
      (hbody hheaders hc).mp (hinside hc)
    refine ⟨hheaders, hcertificate, hpresent, fun hc htile hcert => ?_⟩
    obtain ⟨loadInfo, hinfo⟩ := hrun.loaded hc
    have hsize := (hrun.digestSize loadInfo hinfo).mpr hc
    exact (hcovers hc (hpresent hc) htile hcert).mp (hcoverage loadInfo hinfo hsize htile hcert)
  · intro hwell
    refine ⟨⟨hwell.headers, hwell.certificate, fun hc => (hbody hwell.headers hc).mpr (hwell.body hc)⟩,
      fun loadInfo hinfo hsize htile hcert => ?_⟩
    have hc := (hrun.digestSize loadInfo hinfo).mp hsize
    exact (hcovers hc (hwell.body hc) htile hcert).mpr (hwell.clear hc htile hcert)

end LoadedImage

/-! ## Adding a certificate table -/

section Adding

open LoadedImage

variable {before after : LoadedImage}

theorem word_congr {off len : Nat}
    (h : ∀ i < len, after.memory ((off + i) % 2 ^ 32) = before.memory ((off + i) % 2 ^ 32)) :
    after.word off len = before.word off len := by
  unfold word bytes
  rw [List.map_congr_left fun i hi => h i (List.mem_range.mp hi)]

theorem AddsCertificate.word_eq (h : AddsCertificate before after)
    (hentry : before.securityEntry ≤ before.imageSize) {off len : Nat}
    (hoff : off + len ≤ before.checkSum) : after.word off len = before.word off len := by
  have hcopied := before.copied
  obtain ⟨hlow, hhigh⟩ := before.securityEntry_bounds
  have hchecksum : before.checkSum = before.peCoffHdrOff + 88 := rfl
  refine word_congr fun i hi => ?_
  rw [Nat.mod_eq_of_lt (by omega)]
  refine h.kept (off + i) (by omega) ⟨by omega, by omega, ?_⟩
  rw [h.unsigned]
  omega

theorem AddsCertificate.peCoffHdrOff_eq (h : AddsCertificate before after)
    (hentry : before.securityEntry ≤ before.imageSize) :
    after.peCoffHdrOff = before.peCoffHdrOff := by
  have hchecksum : before.checkSum = before.peCoffHdrOff + 88 := rfl
  have hdos : after.dosHeader ↔ before.dosHeader := by
    unfold dosHeader
    rw [h.word_eq hentry (by omega)]
  unfold peCoffHdrOff
  rw [h.word_eq hentry (by omega)]
  exact if_congr hdos rfl rfl

theorem AddsCertificate.securityEntry_eq (h : AddsCertificate before after)
    (hentry : before.securityEntry ≤ before.imageSize) :
    after.securityEntry = before.securityEntry := by
  have hchecksum : before.checkSum = before.peCoffHdrOff + 88 := rfl
  unfold securityEntry magic
  rw [h.peCoffHdrOff_eq hentry, h.word_eq hentry (by omega), h.word_eq hentry (by omega)]

theorem AddsCertificate.authenticated_eq (h : AddsCertificate before after)
    (hentry : before.securityEntry ≤ before.imageSize) :
    after.authenticated = before.authenticated := by
  refine List.Pairwise.eq_of_mem_iff authenticated_pairwise authenticated_pairwise fun x => ?_
  have hsize := h.size
  have hoffset := h.offset
  have hunsigned := h.unsigned
  have hentries := h.securityEntry_eq hentry
  have hchecksum : after.checkSum = before.checkSum := by
    unfold checkSum
    rw [h.peCoffHdrOff_eq hentry]
  rw [mem_authenticated, mem_authenticated]
  unfold Authenticated
  rw [hentries, hchecksum]
  omega

theorem AddsCertificate.map_authenticated (h : AddsCertificate before after)
    (hentry : before.securityEntry ≤ before.imageSize) :
    after.authenticated.map after.memory = before.authenticated.map before.memory := by
  rw [h.authenticated_eq hentry]
  refine List.map_congr_left fun x hx => ?_
  obtain ⟨hlt, hauth⟩ := mem_authenticated.mp hx
  exact h.kept x hlt hauth

theorem AddsCertificate.certificateAtEnd (h : AddsCertificate before after) :
    before.CertificateAtEnd ∧ after.CertificateAtEnd := by
  refine ⟨.inl h.unsigned, .inr ?_⟩
  rw [h.offset, h.size]

end Adding

/-- The loader stays inside an image and its hash covers what it is to cover exactly if the image is
bounded well; and a certificate table that is added to such an image does not change what is hashed. -/
theorem loadedSoundly_iff (image : LoadedImage) (calcHash : Bool) :
    (image.LoadedSoundly calcHash ↔ image.WellBounded calcHash) ∧
    (∀ after : LoadedImage, AddsCertificate image after → image.WellBounded true →
      after.WellBounded true → image.SectionsTile → after.SectionsTile →
      ∀ info info' : LoadInfo, ∀ log log' : List Access,
        image.loadPeImageWork true [] = .ret (some info) log → info.imageDigestSize ≠ 0 →
        after.loadPeImageWork true [] = .ret (some info') log' → info'.imageDigestSize ≠ 0 →
        after.digestInput log' = image.digestInput log) := by
  constructor
  · obtain ⟨info, log, hrun⟩ := image.load calcHash
    rw [← hrun.sound_iff]
    constructor
    · rintro ⟨info', log', hret, hsound⟩
      rw [hrun.run] at hret
      injection hret with hinfo hlog
      rw [← hinfo, ← hlog] at hsound
      exact hsound
    · exact fun hsound => ⟨info, log, hrun.run, hsound⟩
  · intro after hadds hbefore hafter htile htile' info info' log log' hret hsize hret' hsize'
    obtain ⟨hend, hend'⟩ := hadds.certificateAtEnd
    have hcovered {image : LoadedImage} {info : LoadInfo} {log : List Access}
        (hwell : image.WellBounded true) (hret : image.loadPeImageWork true [] = .ret (some info) log)
        (hsize : info.imageDigestSize ≠ 0) (htile : image.SectionsTile)
        (hend : image.CertificateAtEnd) : image.Hashed true ∧
        hashedPositions log = image.authenticated := by
      obtain ⟨info₀, log₀, hrun⟩ := image.load true
      have hret₀ := hrun.run
      rw [hret] at hret₀
      injection hret₀ with hinfo hlog
      rw [← hinfo, ← hlog] at hrun
      exact ⟨(hrun.digestSize info rfl).mp hsize,
        (hrun.sound_iff.mpr hwell).2 info rfl hsize htile hend⟩
    obtain ⟨hhashed, hpos⟩ := hcovered hbefore hret hsize htile hend
    obtain ⟨-, hpos'⟩ := hcovered hafter hret' hsize' htile' hend'
    unfold LoadedImage.digestInput
    rw [hpos, hpos']
    exact hadds.map_authenticated (hbefore.body hhashed).optionalHeader

def truncatedFile : LoadedImage where
  memory x := if x = 0 then 0x4D else if x = 1 then 0x5A else if x = 61 then 0x10 else 0
  imageBase := 0x10000#32
  imageSize := 64
  copied := by decide

theorem truncatedFile_not_loadedSoundly : ¬ truncatedFile.LoadedSoundly true := by
  rintro ⟨info, log, hrun, hin, -⟩
  have hlog : (truncatedFile.loadPeImageWork true []).state =
      [.read ⟨0, 2⟩, .read ⟨60, 4⟩, .read ⟨0x1000, 4⟩] := by decide +kernel
  rw [hrun] at hlog
  have hmem : Access.read ⟨0x1000, 4⟩ ∈ log := by
    rw [show log = _ from hlog]
    decide
  have hinside := hin _ hmem
  revert hinside
  decide

end Quark.SecureBoot
