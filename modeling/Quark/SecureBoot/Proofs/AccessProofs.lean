import Quark.SecureBoot.Authenticode

/-!
# What the loader accesses

The value that each function of the loader yields, when its accesses are inside the image, and what it
hashes.
-/

namespace Quark.SecureBoot

open Machine Machine.Exec

/-- The code yields `a` and hashes `hs`, and its accesses are inside a file of the size exactly if `P`. -/
def Traced {α : Type} (size : Nat) (x : Load α) (a : α) (P : Prop) (hs : List Span) : Prop :=
  ∃ log, (∀ t, x t = .ret a (t ++ log)) ∧ ((∀ access ∈ log, access.span.Inside size) ↔ P) ∧
    log.filterMap Access.hashed? = hs

namespace Traced

variable {α β : Type} {size : Nat} {P Q : Prop} {H K : List Span}

protected theorem pure (a : α) : Traced size (pure a) a True [] := by
  refine ⟨[], fun t => ?_, by simp, rfl⟩
  rw [List.append_nil]
  rfl

protected theorem bind {x : Load α} {f : α → Load β} {a : α} {b : β} (hx : Traced size x a P H)
    (hf : Traced size (f a) b Q K) : Traced size (x >>= f) b (P ∧ Q) (H ++ K) := by
  obtain ⟨log, hrun, hin, rfl⟩ := hx
  obtain ⟨log', hrun', hin', rfl⟩ := hf
  refine ⟨log ++ log', fun t => ?_, ?_, List.filterMap_append⟩
  · rw [bind_of_ret (hrun t), hrun', List.append_assoc]
  · rw [← hin, ← hin', List.forall_mem_append]

theorem congr {x : Load α} {a : α} (hx : Traced size x a P H) (hP : P ↔ Q) :
    Traced size x a Q H := by
  obtain ⟨log, hrun, hin, hhs⟩ := hx
  exact ⟨log, hrun, hin.trans hP, hhs⟩

theorem of {x : Load α} {a : α} (hx : Traced size x a P H) (hP : P ↔ Q) (hhs : H = K) :
    Traced size x a Q K := by
  rw [← hhs]
  exact hx.congr hP

theorem map {x : Load α} {a : α} (f : α → β) (hx : Traced size x a P H) :
    Traced size (x >>= fun a => pure (f a)) (f a) P H := by
  have h : Traced size (x >>= fun a => pure (f a)) (f a) (P ∧ True) (H ++ []) :=
    hx.bind (Traced.pure (f a))
  rw [List.append_nil, and_true] at h
  exact h

theorem read (s : Span) : Traced size (modify (· ++ [.read s])) () (s.Inside size) [] := by
  refine ⟨[.read s], fun t => rfl, ?_, rfl⟩
  simp [Access.span]

theorem hash (s : Span) : Traced size (modify (· ++ [.hash s])) () (s.Inside size) [s] := by
  refine ⟨[.hash s], fun t => rfl, ?_, rfl⟩
  simp [Access.span]

end Traced

namespace LoadedImage

variable (image : LoadedImage)

/-! ## Fields -/

theorem length_bytes (off len : Nat) : (image.bytes off len).length = len := by simp [bytes]

theorem word_lt (off len : Nat) : image.word off len < 256 ^ len := by
  have h := leValue_lt (image.bytes off len)
  rwa [length_bytes] at h

theorem word4_lt (off : Nat) : image.word off 4 < 2 ^ 32 := image.word_lt off 4

theorem word2_lt (off : Nat) : image.word off 2 < 2 ^ 16 := image.word_lt off 2

theorem drop_take_bytes (off : Nat) {k m len : Nat} (h : k + m ≤ len) :
    ((image.bytes off len).drop k).take m = image.bytes (off + k) m := by
  apply List.ext_getElem
  · rw [List.length_take, List.length_drop, length_bytes, length_bytes]
    omega
  · intro i h₁ h₂
    simp [bytes, Nat.add_assoc]

theorem inside_iff_has (off : Nat) {len : Nat} (h : 0 < len) :
    (⟨off % 2 ^ 32, len⟩ : Span).Inside image.imageSize ↔ image.Has off len :=
  Span.inside_of_pos h

theorem traced_readBytes (off len : Nat) (h : 0 < len) :
    Traced image.imageSize (image.readBytes off len) (image.bytes off len) (image.Has off len) [] := by
  have hread : Traced image.imageSize (image.readBytes off len) (image.bytes off len)
      ((⟨off % 2 ^ 32, len⟩ : Span).Inside image.imageSize) [] :=
    (Traced.read ⟨off % 2 ^ 32, len⟩).map fun _ => image.bytes off len
  exact hread.congr (image.inside_iff_has off h)

theorem traced_readWord (off len : Nat) (h : 0 < len) :
    Traced image.imageSize (image.readWord off len) (image.word off len) (image.Has off len) [] :=
  (image.traced_readBytes off len h).map leValue

end LoadedImage

theorem traced_hashUpdate (size off len : Nat) :
    Traced size (hashUpdate off len) () ((⟨off % 2 ^ 32, len⟩ : Span).Inside size)
      [⟨off % 2 ^ 32, len⟩] :=
  Traced.hash _

/-! ## `HashPeImage` -/

def dataOf (headers : List SectionHeader) : List Span :=
  (headers.filter fun header => header.sizeOfRawData ≠ 0).map SectionHeader.data

theorem dataOf_cons_of_pos {header : SectionHeader} {headers : List SectionHeader}
    (h : header.sizeOfRawData ≠ 0) : dataOf (header :: headers) = header.data :: dataOf headers := by
  simp [dataOf, h]

theorem dataOf_cons_of_zero {header : SectionHeader} {headers : List SectionHeader}
    (h : header.sizeOfRawData = 0) : dataOf (header :: headers) = dataOf headers := by
  simp [dataOf, h]

theorem traced_hashSections (size : Nat) (headers : List SectionHeader) (sum : Nat)
    (hptr : ∀ header ∈ headers, header.pointerToRawData < 2 ^ 32) (hsum : sum < 2 ^ 32) :
    Traced size (hashSections headers sum) ((sum + Span.total (dataOf headers)) % 2 ^ 32)
      (∀ s ∈ dataOf headers, s.Inside size) (dataOf headers) := by
  induction headers generalizing sum with
  | nil =>
    have hval : (sum + Span.total (dataOf [])) % 2 ^ 32 = sum := Nat.mod_eq_of_lt hsum
    rw [hval]
    exact (Traced.pure sum).congr ⟨fun _ s hs => absurd hs List.not_mem_nil, fun _ => trivial⟩
  | cons header headers ih =>
    have hptr' : ∀ header ∈ headers, header.pointerToRawData < 2 ^ 32 :=
      fun h hh => hptr h (.tail _ hh)
    rw [hashSections]
    split
    · rename_i hzero
      rw [dataOf_cons_of_zero hzero]
      exact ih sum hptr' hsum
    · rename_i hpos
      rw [dataOf_cons_of_pos hpos, Span.total_cons]
      have hmod : header.pointerToRawData % 2 ^ 32 = header.pointerToRawData :=
        Nat.mod_eq_of_lt (hptr header List.mem_cons_self)
      have hupdate := traced_hashUpdate size header.pointerToRawData header.sizeOfRawData
      rw [hmod] at hupdate
      have hrest := ih ((sum + header.sizeOfRawData) % 2 ^ 32) hptr' (Nat.mod_lt _ (by decide))
      rw [Nat.mod_add_mod, Nat.add_assoc] at hrest
      exact (hupdate.bind hrest).congr List.forall_mem_cons.symm

namespace LoadedImage

variable (image : LoadedImage)

theorem traced_readMagic :
    Traced image.imageSize (image.readMagic image.peCoffHdrOff) image.magic
      (image.Has (image.peCoffHdrOff + 4) 2 ∧ image.Has (image.peCoffHdrOff + 24) 2) [] := by
  have hmachine := image.traced_readWord (image.peCoffHdrOff + 4) 2 Nat.two_pos
  have hmagic := image.traced_readWord (image.peCoffHdrOff + 24) 2 Nat.two_pos
  refine hmachine.bind ?_
  by_cases h : image.word (image.peCoffHdrOff + 4) 2 = machineIa64
  · have hval : image.magic = (if image.word (image.peCoffHdrOff + 24) 2 = hdr32Magic then hdr64Magic
        else image.word (image.peCoffHdrOff + 24) 2) := by
      unfold magic
      simp only [h, true_and]
    rw [if_pos h, hval]
    exact hmagic.map fun magic => if magic = hdr32Magic then hdr64Magic else magic
  · have hval : image.magic = image.word (image.peCoffHdrOff + 24) 2 := by
      unfold magic
      rw [if_neg fun hc => h hc.1]
    rw [if_neg h, hval]
    exact hmagic

theorem traced_readSectionHeader (index : Nat) :
    Traced image.imageSize (image.readSectionHeader image.sectionTable index)
      (image.sectionHeader index) (image.Has (image.sectionTable + 40 * index) 40) [] := by
  have h := (image.traced_readBytes (image.sectionTable + 40 * index) 40 (by decide)).map
    fun header => (⟨leValue ((header.drop 16).take 4), leValue ((header.drop 20).take 4)⟩ :
      SectionHeader)
  rw [image.drop_take_bytes _ (by decide), image.drop_take_bytes _ (by decide)] at h
  exact h

theorem traced_sortSections (n index : Nat) (front : List SectionHeader)
    (hlen : front.length = index)
    (hsorted : front.Pairwise fun a b => a.pointerToRawData ≤ b.pointerToRawData) :
    ∃ sorted : List SectionHeader,
      Traced image.imageSize
        (image.sortSections image.sectionTable n index (front ++ List.replicate n ⟨0, 0⟩)) sorted
        (∀ i < n, image.Has (image.sectionTable + 40 * (index + i)) 40) [] ∧
      sorted.Perm (front ++ (List.range' index n).map image.sectionHeader) ∧
      sorted.Pairwise fun a b => a.pointerToRawData ≤ b.pointerToRawData := by
  induction n generalizing index front with
  | zero =>
    refine ⟨front, ?_, by simp, hsorted⟩
    rw [List.replicate_zero, List.append_nil]
    exact (Traced.pure front).congr ⟨fun _ i hi => absurd hi (Nat.not_lt_zero i), fun _ => trivial⟩
  | succ n ih =>
    obtain ⟨front', hinsert, hperm, hsorted'⟩ := shiftInsert_spec SectionHeader.pointerToRawData
      (image.sectionHeader index) front ⟨0, 0⟩ (List.replicate n ⟨0, 0⟩) hsorted
    have hlen' : front'.length = index + 1 := by
      rw [hperm.length_eq, List.length_cons, hlen]
    obtain ⟨sorted, htraced, hsortedPerm, hpairwise⟩ := ih (index + 1) front' hlen' hsorted'
    rw [hlen] at hinsert
    rw [← hinsert] at htraced
    refine ⟨sorted, ?_, ?_, hpairwise⟩
    · rw [List.replicate_succ]
      refine ((image.traced_readSectionHeader index).bind htraced).congr ?_
      rw [Nat.forall_lt_succ_left]
      refine and_congr Iff.rfl (forall₂_congr fun i _ => ?_)
      rw [Nat.add_assoc, Nat.add_comm 1 i]
    · refine hsortedPerm.trans ?_
      rw [List.range'_succ, List.map_cons]
      exact (hperm.append_right _).trans List.perm_middle.symm

/-- The accesses of `HashPeImage` are inside the image. -/
structure HashInside : Prop where
  machine : image.Has (image.peCoffHdrOff + 4) 2
  magic : image.Has (image.peCoffHdrOff + 24) 2
  front : (⟨0, image.checkSum % 2 ^ 32⟩ : Span).Inside image.imageSize
  middle : (⟨(image.checkSum + 4) % 2 ^ 32, distance image.securityEntry (image.checkSum + 4)⟩
    : Span).Inside image.imageSize
  sizeOfHeaders : image.Has (image.peCoffHdrOff + 84) 4
  headers : (⟨(image.securityEntry + 8) % 2 ^ 32,
    distance image.sizeOfHeaders (image.securityEntry + 8)⟩ : Span).Inside image.imageSize
  numberOfSections : image.Has (image.peCoffHdrOff + 6) 2
  sizeOfOptionalHeader : image.Has (image.peCoffHdrOff + 20) 2
  sectionTable : ∀ i < image.numberOfSections, image.Has (image.sectionTable + 40 * i) 40
  sectionData : ∀ s ∈ image.sectionData, s.Inside image.imageSize
  certificateSize : image.sumOfSections < image.imageSize → image.Has (image.securityEntry + 4) 4
  tail : image.sumOfSections < image.imageSize → (⟨image.sumOfSections,
    distance (distance image.imageSize image.certificateSize) image.sumOfSections⟩
    : Span).Inside image.imageSize

def hashSpans (sorted : List Span) : List Span :=
  ⟨0, image.checkSum % 2 ^ 32⟩ ::
  ⟨(image.checkSum + 4) % 2 ^ 32, distance image.securityEntry (image.checkSum + 4)⟩ ::
  ⟨(image.securityEntry + 8) % 2 ^ 32, distance image.sizeOfHeaders (image.securityEntry + 8)⟩ ::
  (sorted ++ if image.sumOfSections < image.imageSize then
    [⟨image.sumOfSections, distance (distance image.imageSize image.certificateSize) image.sumOfSections⟩]
  else [])

theorem traced_tail :
    Traced image.imageSize
      (when (image.imageSize > image.sumOfSections) (do
        let size ← image.readWord (image.securityEntry + 4) 4
        hashUpdate image.sumOfSections (distance (distance image.imageSize size) image.sumOfSections))) ()
      (image.sumOfSections < image.imageSize → image.Has (image.securityEntry + 4) 4 ∧
        (⟨image.sumOfSections, distance (distance image.imageSize image.certificateSize)
          image.sumOfSections⟩ : Span).Inside image.imageSize)
      (if image.sumOfSections < image.imageSize then
        [⟨image.sumOfSections,
          distance (distance image.imageSize image.certificateSize) image.sumOfSections⟩]
      else []) := by
  unfold when
  by_cases h : image.sumOfSections < image.imageSize
  · rw [if_pos h, if_pos h]
    have hread : Traced image.imageSize (image.readWord (image.securityEntry + 4) 4)
        image.certificateSize (image.Has (image.securityEntry + 4) 4) [] :=
      image.traced_readWord (image.securityEntry + 4) 4 (by decide)
    have hupdate := traced_hashUpdate image.imageSize image.sumOfSections
      (distance (distance image.imageSize image.certificateSize) image.sumOfSections)
    have hmod : image.sumOfSections % 2 ^ 32 = image.sumOfSections :=
      Nat.mod_eq_of_lt (Nat.mod_lt _ (by decide))
    rw [hmod] at hupdate
    refine Traced.congr (hread.bind ?_) (Q := _ → _) ⟨fun hin _ => hin, fun hin => hin h⟩
    exact hupdate
  · rw [if_neg h, if_neg h]
    exact (Traced.pure ()).congr ⟨fun _ hin => absurd hin h, fun _ => trivial⟩

theorem sectionHeader_lt {header : SectionHeader} (h : header ∈ image.sections) :
    header.pointerToRawData < 2 ^ 32 := by
  obtain ⟨index, -, rfl⟩ := List.mem_map.mp h
  exact image.word4_lt _

theorem traced_hashPeImage {hashAlg : Nat} (halg : hashAlg = hashAlgSha1 ∨ hashAlg = hashAlgSha256) :
    ∃ sorted : List Span, sorted.Perm image.sectionData ∧
      (sorted.Pairwise fun s t => s.offset ≤ t.offset) ∧
      Traced image.imageSize (image.hashPeImage image.peCoffHdrOff hashAlg)
        (if hashAlg = hashAlgSha1 then 20 else 32) image.HashInside (image.hashSpans sorted) := by
  obtain ⟨headers, hsort, hperm, hpairwise⟩ :=
    image.traced_sortSections image.numberOfSections 0 [] rfl List.Pairwise.nil
  rw [List.nil_append, ← List.range_eq_range'] at hperm
  rw [List.nil_append] at hsort
  simp only [Nat.zero_add] at hsort
  have hsorted : (dataOf headers).Perm image.sectionData :=
    (hperm.filter _).map SectionHeader.data
  have hptr : ∀ header ∈ headers, header.pointerToRawData < 2 ^ 32 :=
    fun header hh => image.sectionHeader_lt (hperm.mem_iff.mp hh)
  have hsections := traced_hashSections image.imageSize headers image.sizeOfHeaders hptr
    (image.word4_lt _)
  rw [Span.total_perm hsorted] at hsections
  refine ⟨dataOf headers, hsorted, ?_, ?_⟩
  · exact List.pairwise_map.mpr (hpairwise.filter _)
  · unfold hashPeImage
    rw [if_neg (by omega)]
    refine Traced.of (image.traced_readMagic.bind ((traced_hashUpdate _ _ _).bind
      ((traced_hashUpdate _ _ _).bind ((image.traced_readWord _ _ (by decide)).bind
      ((traced_hashUpdate _ _ _).bind ((image.traced_readWord _ _ (by decide)).bind
      ((image.traced_readWord _ _ (by decide)).bind (hsort.bind (hsections.bind
      (image.traced_tail.bind (Traced.pure _))))))))))) ?_ ?_
    · constructor
      · rintro ⟨⟨hmachine, hmagic⟩, hfront, hmiddle, hsize, hheaders, hnumber, hoptional, htable, hdata,
          htail, -⟩
        refine ⟨hmachine, hmagic, ?_, hmiddle, hsize, hheaders, hnumber, hoptional, htable, ?_,
          fun h => (htail h).1, fun h => (htail h).2⟩
        · rw [Nat.zero_mod] at hfront
          exact hfront
        · exact fun s hs => hdata s (hsorted.mem_iff.mpr hs)
      · rintro ⟨hmachine, hmagic, hfront, hmiddle, hsize, hheaders, hnumber, hoptional, htable, hdata,
          hcertificate, htail⟩
        refine ⟨⟨hmachine, hmagic⟩, ?_, hmiddle, hsize, hheaders, hnumber, hoptional, htable, ?_,
          fun h => ⟨hcertificate h, htail h⟩, trivial⟩
        · rw [Nat.zero_mod]
          exact hfront
        · exact fun s hs => hdata s (hsorted.mem_iff.mp hs)
    · simp only [List.nil_append, List.append_nil, List.singleton_append]
      rfl

/-! ## `LoadPeImageWork` -/

/-- The code hashes the image if there is an algorithm, and its accesses are inside the image exactly
if `P` and what is hashed is inside. -/
def Digests (x : Load Nat) (hashAlg? : Option Nat) (P : Prop) : Prop :=
  ∃ digestSize hs, Traced image.imageSize x digestSize (P ∧ (hashAlg?.isSome → image.HashInside)) hs ∧
    (digestSize ≠ 0 ↔ hashAlg?.isSome) ∧
    (hashAlg?.isSome → ∃ sorted : List Span, sorted.Perm image.sectionData ∧
      (sorted.Pairwise fun s t => s.offset ≤ t.offset) ∧ hs = image.hashSpans sorted)

variable {image}

theorem Digests.bind {α : Type} {x : Load α} {f : α → Load Nat} {a : α} {hashAlg? : Option Nat}
    {P Q : Prop} (hx : Traced image.imageSize x a P []) (hf : image.Digests (f a) hashAlg? Q) :
    image.Digests (x >>= f) hashAlg? (P ∧ Q) := by
  obtain ⟨digestSize, hs, htraced, hsize, hhs⟩ := hf
  exact ⟨digestSize, hs, (hx.bind htraced).congr and_assoc.symm, hsize, hhs⟩

theorem Digests.congr {x : Load Nat} {hashAlg? : Option Nat} {P P' : Prop}
    (h : image.Digests x hashAlg? P) (hP : P ↔ P') : image.Digests x hashAlg? P' := by
  obtain ⟨digestSize, hs, htraced, hrest⟩ := h
  exact ⟨digestSize, hs, htraced.congr (and_congr hP Iff.rfl), hrest⟩

theorem digests_none : image.Digests (pure 0) none True := by
  refine ⟨0, [], (Traced.pure 0).congr ?_, ?_, ?_⟩
  · simp
  · simp
  · intro h
    cases h

theorem digests_hashPeImage (hashAlg : Nat) :
    image.Digests (image.hashPeImage image.peCoffHdrOff hashAlg)
      ((some hashAlg).filter fun alg => alg = hashAlgSha1 ∨ alg = hashAlgSha256) True := by
  by_cases h : hashAlg = hashAlgSha1 ∨ hashAlg = hashAlgSha256
  · obtain ⟨sorted, hperm, hpairwise, htraced⟩ := image.traced_hashPeImage h
    rw [Option.filter_some_pos (by simpa using h)]
    refine ⟨_, _, htraced.congr ?_, ?_, fun _ => ⟨sorted, hperm, hpairwise, rfl⟩⟩
    · simp
    · split <;> simp
  · have hnone : image.hashPeImage image.peCoffHdrOff hashAlg = pure 0 := by
      unfold hashPeImage
      rw [if_pos (by omega)]
    rw [Option.filter_some_neg (by simpa using h), hnone]
    exact digests_none

variable (image)

def OidsInside (certificate : Nat) : List (List Byte) → Prop
  | [] => True
  | oid :: oids => image.Has (certificate + 9) 1 ∧ image.Has (certificate + 40) oid.length ∧
    (image.bytes (certificate + 40) oid.length ≠ oid → OidsInside certificate oids)

theorem traced_findHashAlg_of_encoding {certificate : Nat}
    (henc : (image.bytes (certificate + 9) 1).map (· &&& 0x82) = [0x82]) (oids : List (List Byte))
    (hpos : ∀ oid ∈ oids, 0 < oid.length) (index : Nat) :
    Traced image.imageSize (image.findHashAlg certificate oids index)
      ((oids.findIdx? fun oid => image.bytes (certificate + 40) oid.length = oid).map (index + ·))
      (image.OidsInside certificate oids) [] := by
  induction oids generalizing index with
  | nil => exact Traced.pure none
  | cons oid oids ih =>
    have hencoding := image.traced_readBytes (certificate + 9) 1 (by decide)
    have hoid := image.traced_readBytes (certificate + 40) _ (hpos oid List.mem_cons_self)
    refine hencoding.bind (H := []) (K := []) ?_
    rw [if_neg (not_not.mpr henc)]
    refine hoid.bind (H := []) (K := []) ?_
    rw [List.findIdx?_cons]
    by_cases h : image.bytes (certificate + 40) oid.length = oid
    · rw [if_pos h, if_pos (decide_eq_true h)]
      exact (Traced.pure (some index)).congr ⟨fun _ hne => absurd h hne, fun _ => trivial⟩
    · have hrest := ih (fun oid ho => hpos oid (.tail _ ho)) (index + 1)
      rw [if_neg h, if_neg (by simpa using h), Option.map_map]
      have hshift : ((fun i => index + i) ∘ fun i => i + 1) = fun i => index + 1 + i := by
        funext i
        show index + (i + 1) = index + 1 + i
        omega
      rw [hshift]
      exact hrest.congr ⟨fun hin _ => hin, fun hin => hin h⟩

theorem traced_findHashAlg_of_not_encoding {certificate : Nat}
    (henc : (image.bytes (certificate + 9) 1).map (· &&& 0x82) ≠ [0x82]) (oid : List Byte)
    (oids : List (List Byte)) (index : Nat) :
    Traced image.imageSize (image.findHashAlg certificate (oid :: oids) index) none
      (image.Has (certificate + 9) 1) [] := by
  induction oids generalizing oid index with
  | nil =>
    have hencoding := image.traced_readBytes (certificate + 9) 1 (by decide)
    refine (hencoding.bind (b := none) (Q := True) (K := []) ?_).congr (iff_of_eq (and_true _))
    rw [if_pos henc]
    exact Traced.pure none
  | cons oid' oids ih =>
    have hencoding := image.traced_readBytes (certificate + 9) 1 (by decide)
    have hrest := ih oid' (index + 1)
    refine (hencoding.bind (K := []) (b := none) (Q := image.Has (certificate + 9) 1) ?_).congr
      (and_self_iff)
    rw [if_pos henc]
    exact hrest

theorem oidsInside_mHashTable (certificate : Nat) :
    image.OidsInside certificate mHashTable ↔ image.Has (certificate + 9) 1 ∧
      image.Has (certificate + 40) 5 ∧
      (image.bytes (certificate + 40) 5 ≠ [0x2B, 0x0E, 0x03, 0x02, 0x1A] →
        image.Has (certificate + 40) 9) := by
  simp only [OidsInside, mHashTable, List.length_cons, List.length_nil, Nat.zero_add,
    Nat.reduceAdd, implies_true, and_true]
  constructor
  · rintro ⟨hencoding, hsha1, hrest⟩
    exact ⟨hencoding, hsha1, fun h => (hrest h).2.1⟩
  · rintro ⟨hencoding, hsha1, hrest⟩
    refine ⟨hencoding, hsha1, fun h => ?_⟩
    have h9 := hrest h
    exact ⟨hencoding, h9, fun _ => ⟨hencoding, h9, fun _ => ⟨hencoding, h9, fun _ =>
      ⟨hencoding, h9⟩⟩⟩⟩

theorem digests_hashPeImageByType (certificate : Nat) :
    image.Digests (image.hashPeImageByType image.peCoffHdrOff certificate)
      (if (image.bytes (certificate + 9) 1).map (· &&& 0x82) = [0x82] then
        (mHashTable.findIdx? fun oid => image.bytes (certificate + 40) oid.length = oid).filter
          fun index => index = hashAlgSha1 ∨ index = hashAlgSha256
      else none)
      (image.Has (certificate + 9) 1 ∧
        ((image.bytes (certificate + 9) 1).map (· &&& 0x82) = [0x82] → image.Has (certificate + 40) 5 ∧
          (image.bytes (certificate + 40) 5 ≠ [0x2B, 0x0E, 0x03, 0x02, 0x1A] →
            image.Has (certificate + 40) 9))) := by
  unfold hashPeImageByType
  by_cases henc : (image.bytes (certificate + 9) 1).map (· &&& 0x82) = [0x82]
  · have hfind := image.traced_findHashAlg_of_encoding henc mHashTable (by decide) 0
    rw [if_pos henc]
    cases hidx : mHashTable.findIdx? fun oid => image.bytes (certificate + 40) oid.length = oid with
    | none =>
      rw [hidx] at hfind
      refine (Digests.bind hfind digests_none).congr ?_
      rw [and_true, image.oidsInside_mHashTable]
      exact ⟨fun h => ⟨h.1, fun _ => h.2⟩, fun h => ⟨h.1, h.2 henc⟩⟩
    | some index =>
      rw [hidx, Option.map_some, Nat.zero_add] at hfind
      refine (Digests.bind hfind (digests_hashPeImage index)).congr ?_
      rw [and_true, image.oidsInside_mHashTable]
      exact ⟨fun h => ⟨h.1, fun _ => h.2⟩, fun h => ⟨h.1, h.2 henc⟩⟩
  · have hfind : Traced image.imageSize (image.findHashAlg certificate mHashTable 0) none
        (image.Has (certificate + 9) 1) [] :=
      image.traced_findHashAlg_of_not_encoding henc _ _ 0
    rw [if_neg henc]
    refine (Digests.bind hfind digests_none).congr ?_
    exact ⟨fun h => ⟨h.1, fun h' => absurd h' henc⟩, fun h => ⟨h.1, trivial⟩⟩

theorem digests_hashByCertificate (certificate : Option Nat) :
    image.Digests (image.hashByCertificate image.peCoffHdrOff certificate)
      (match certificate with
        | none => some hashAlgSha256
        | some certificate => image.certificateHash? certificate)
      (∀ c, certificate = some c → image.CertificatePresent c) := by
  cases certificate with
  | none =>
    refine (digests_hashPeImage hashAlgSha256).congr ⟨fun _ c hc => ?_, fun _ => trivial⟩
    cases hc
  | some c =>
    have htype := image.traced_readWord (c + 6) 2 Nat.two_pos
    suffices hsuff : image.Digests (image.hashByCertificate image.peCoffHdrOff (some c))
        (image.certificateHash? c) (image.CertificatePresent c) by
      refine hsuff.congr ⟨fun h c' hc' => ?_, fun h => h c rfl⟩
      injection hc' with hc'
      rwa [← hc']
    unfold certificateHash?
    by_cases hguid : image.word (c + 6) 2 = certTypeEfiGuid
    · have hpkcs : image.word (c + 6) 2 ≠ certTypePkcsSignedData := by
        rw [hguid]
        decide
      have hread := image.traced_readBytes (c + 8) 16 (by decide)
      have hpresent : image.CertificatePresent c ↔ image.Has (c + 6) 2 ∧ image.Has (c + 8) 16 := by
        constructor
        · exact fun h => ⟨h.certificateType, h.guid hguid⟩
        · exact fun h => ⟨h.1, fun _ => h.2, fun hc => absurd hc hpkcs, fun hc => absurd hc hpkcs,
            fun hc => absurd hc hpkcs⟩
      rw [if_pos hguid]
      suffices hrest : image.Digests (do
          let certType ← image.readBytes (c + 8) 16
          if certType = gEfiCertTypeRsa2048Sha256Guid then
            image.hashPeImage image.peCoffHdrOff hashAlgSha256
          else
            pure 0)
          (if image.bytes (c + 8) 16 = gEfiCertTypeRsa2048Sha256Guid then some hashAlgSha256 else none)
          (image.Has (c + 8) 16) by
        refine Digests.congr (Digests.bind htype ?_) hpresent.symm
        rw [if_pos hguid]
        exact hrest
      refine (Digests.bind (Q := True) hread ?_).congr (iff_of_eq (and_true _))
      split
      · exact digests_hashPeImage hashAlgSha256
      · exact digests_none
    · rw [if_neg hguid]
      by_cases hpkcs : image.word (c + 6) 2 = certTypePkcsSignedData
      · rw [if_pos hpkcs]
        have hbranch := image.digests_hashPeImageByType c
        refine Digests.congr (Digests.bind htype (by
          rw [if_neg hguid, if_pos hpkcs]
          exact hbranch)) ?_
        constructor
        · rintro ⟨hword, hbyte, hoids⟩
          exact ⟨hword, fun hc => absurd hc hguid, fun _ => hbyte, fun _ henc => (hoids henc).1,
            fun _ henc => (hoids henc).2⟩
        · intro h
          exact ⟨h.certificateType, h.encoding hpkcs,
            fun henc => ⟨h.sha1 hpkcs henc, h.others hpkcs henc⟩⟩
      · rw [if_neg hpkcs]
        refine Digests.congr (Digests.bind (Q := True) htype ?_) ?_
        · rw [if_neg hguid, if_neg hpkcs]
          exact digests_none
        · constructor
          · exact fun h => ⟨h.1, fun hc => absurd hc hguid, fun hc => absurd hc hpkcs,
              fun hc => absurd hc hpkcs, fun hc => absurd hc hpkcs⟩
          · exact fun h => ⟨h.certificateType, trivial⟩

end LoadedImage

end Quark.SecureBoot
