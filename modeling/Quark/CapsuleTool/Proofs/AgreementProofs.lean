import Quark.CapsuleTool.Proofs.CapsuleCreateProofs
import Quark.SmiFlash.Proofs.BoundsProofs

/-!
# The tool and the firmware agree

The capsule is taken apart into header, hint table and payload, and each `UINT32` that the firmware reads
is found in it.
-/

namespace Quark.CapsuleTool

open Machine SmiFlash

/-! ## Bytes in memory -/

theorem length_hintBytes (h : UpdateHint) : h.bytes.length = sizeofUpdateHint := rfl

theorem rd32_of_bytes {m : Mem} {a v : Nat} (hv : v < 0x100000000) (h : m.bytes a 4 = le32 v) :
    m.rd32 a = v := by
  have hget : ∀ k, k < 4 → m (u32 (a + k)) = Mem.byteOf v k := by
    intro k hk
    have hk' := congrArg (fun l => l[k]?) h
    unfold Mem.bytes le32 at hk'
    simpa [List.getElem?_map, List.getElem?_range hk] using hk'
  have h0 := congrArg UInt8.toNat (hget 0 (by decide))
  have h1 := congrArg UInt8.toNat (hget 1 (by decide))
  have h2 := congrArg UInt8.toNat (hget 2 (by decide))
  have h3 := congrArg UInt8.toNat (hget 3 (by decide))
  unfold Mem.byteOf at h0 h1 h2 h3
  simp only [UInt8.toNat_ofNat', Nat.add_zero] at h0 h1 h2 h3
  unfold Mem.rd32 Mem.rd16
  rw [h0, h1, h2, show a + 2 + 1 = a + 3 from rfl, h3]
  omega

theorem bytes_split {m : Mem} {a : Nat} {l l' : List UInt8}
    (h : m.bytes a (l ++ l').length = l ++ l') :
    m.bytes a l.length = l ∧ m.bytes (a + l.length) l'.length = l' := by
  rw [List.length_append, Mem.bytes_append] at h
  exact List.append_inj h (Mem.length_bytes _ _ _)

/-! ## The layout -/

def Progress.pushAll (p : Progress) (l : List (Nat × List UInt8)) : Progress :=
  l.foldl (fun p x => p.push x.1 x.2) p

def total (l : List (Nat × List UInt8)) : Nat := (l.map fun x => (padded x.2).length).sum

theorem total_append (l l' : List (Nat × List UInt8)) : total (l ++ l') = total l + total l' := by
  unfold total
  rw [List.map_append, List.sum_append]

theorem total_cons (x : Nat × List UInt8) (l : List (Nat × List UInt8)) :
    total (x :: l) = (padded x.2).length + total l := by
  unfold total
  rw [List.map_cons, List.sum_cons]

def hintsFrom : Nat → List (Nat × List UInt8) → List UpdateHint
  | _, [] => []
  | sourceOffset, x :: xs =>
    ⟨x.1, (padded x.2).length, sourceOffset, 0xFFFFFFFF⟩ ::
      hintsFrom (sourceOffset + (padded x.2).length) xs

theorem length_hintsFrom (n : Nat) (l : List (Nat × List UInt8)) :
    (hintsFrom n l).length = l.length := by
  induction l generalizing n with
  | nil => rfl
  | cons x l ih => rw [hintsFrom, List.length_cons, List.length_cons, ih]

theorem hintsFrom_append (n : Nat) (l l' : List (Nat × List UInt8)) :
    hintsFrom n (l ++ l') = hintsFrom n l ++ hintsFrom (n + total l) l' := by
  induction l generalizing n with
  | nil => rfl
  | cons x l ih => rw [List.cons_append, hintsFrom, hintsFrom, ih, total_cons, List.cons_append,
      Nat.add_assoc]

theorem pushAll_eq {p : Progress} {l : List (Nat × List UInt8)}
    (h : p.sourceOffset + total l < 0x100000000) :
    p.pushAll l = ⟨p.hintData ++ hintsFrom p.sourceOffset l, p.sourceOffset + total l,
      p.payload ++ l.flatMap fun x => padded x.2⟩ := by
  induction l generalizing p with
  | nil =>
    show p = _
    cases p
    simp [hintsFrom, total]
  | cons x l ih =>
    rw [total_cons] at h ⊢
    have hoff : u32 (p.sourceOffset + (padded x.2).length) =
        p.sourceOffset + (padded x.2).length := u32_of_lt (by omega)
    have hpush : (p.push x.1 x.2).sourceOffset = p.sourceOffset + (padded x.2).length := hoff
    show (p.push x.1 x.2).pushAll l = _
    rw [ih (by rw [hpush]; omega), hpush]
    unfold Progress.push
    simp only [hintsFrom, List.append_assoc, List.singleton_append, List.flatMap_cons, Nat.add_assoc]

structure HintView (P : Platform) (s : SmmState) (l : List (Nat × List UInt8)) : Prop where
  guid : KnownGuid P s
  header_size : (s.rd P).rd32 (headerSizeAt P.capsuleSmmBuffer) = sizeofCapsuleHeader
  image_size : (s.rd P).rd32 (capsuleImageSizeAt P.capsuleSmmBuffer) = 400 + total l
  target : ∀ pre x post, l = pre ++ x :: post → hintTargetAddr P s (hintAt P s pre.length) = x.1
  size : ∀ pre x post, l = pre ++ x :: post →
    hintSize P s (hintAt P s pre.length) = (padded x.2).length
  source : ∀ pre x post, l = pre ++ x :: post →
    hintSourceOffset P s (hintAt P s pre.length) = 400 + total pre
  image : ∀ pre x post, l = pre ++ x :: post →
    (s.rd P).bytes (P.capsuleSmmBuffer + (400 + total pre)) (padded x.2).length = padded x.2
  terminator : hintSize P s (hintAt P s l.length) = 0

theorem length_flatMap_hintBytes (l : List UpdateHint) :
    (l.flatMap UpdateHint.bytes).length = l.length * sizeofUpdateHint := by
  induction l with
  | nil => rfl
  | cons h l ih =>
    rw [List.flatMap_cons, List.length_append, length_hintBytes, ih, List.length_cons, Nat.succ_mul]
    exact Nat.add_comm _ _

theorem bytes_hint {m : Mem} {a : Nat} {pre post : List UpdateHint} {h : UpdateHint}
    (hm : m.bytes a ((pre ++ h :: post).flatMap UpdateHint.bytes).length =
      (pre ++ h :: post).flatMap UpdateHint.bytes) :
    m.bytes (a + pre.length * sizeofUpdateHint) sizeofUpdateHint = h.bytes := by
  rw [List.flatMap_append, List.flatMap_cons] at hm
  have hrest := (bytes_split hm).2
  rw [length_flatMap_hintBytes] at hrest
  exact (bytes_split hrest).1

theorem hint_words {m : Mem} {a : Nat} {h : UpdateHint} (hm : m.bytes a sizeofUpdateHint = h.bytes)
    (ht : h.targetAddr < 0x100000000) (hs : h.size < 0x100000000)
    (ho : h.sourceOffset < 0x100000000) :
    m.rd32 a = h.targetAddr ∧ m.rd32 (a + 4) = h.size ∧ m.rd32 (a + 8) = h.sourceOffset := by
  have hm : m.bytes a (le32 h.targetAddr ++ le32 h.size ++ le32 h.sourceOffset ++
      le32 h.reserved).length = le32 h.targetAddr ++ le32 h.size ++ le32 h.sourceOffset ++
      le32 h.reserved := hm
  obtain ⟨h₃, -⟩ := bytes_split hm
  obtain ⟨h₂, hoff⟩ := bytes_split h₃
  obtain ⟨htarget, hsize⟩ := bytes_split h₂
  exact ⟨rd32_of_bytes ht htarget, rd32_of_bytes hs hsize, rd32_of_bytes ho hoff⟩

section View

variable {P : Platform} {s : SmmState} {l : List (Nat × List UInt8)} {flags : Nat}

theorem capsuleFile_eq (htotal : total l < maxCapsulePayloadSize) :
    capsuleFile flags (Progress.start.pushAll l) = header (u32 flags) (400 + total l) ++
      ((hintTable (hintsFrom 400 l)).flatMap UpdateHint.bytes ++ l.flatMap fun x => padded x.2) := by
  have htotal : total l < 0xA00000 := htotal
  rw [pushAll_eq (show 400 + total l < 0x100000000 by omega)]
  rfl

theorem length_hintTable (hcount : l.length ≤ 19) : (hintTable (hintsFrom 400 l)).length = 20 := by
  unfold hintTable
  rw [List.length_append, List.length_append, length_hintsFrom, List.length_replicate,
    List.length_singleton]
  show l.length + 1 + (19 - l.length) = 20
  omega

theorem length_payload (l : List (Nat × List UInt8)) :
    (l.flatMap fun x => padded x.2).length = total l := by
  rw [List.length_flatMap]
  rfl

theorem length_capsuleFile (hcount : l.length ≤ 19) (htotal : total l < maxCapsulePayloadSize) :
    (capsuleFile flags (Progress.start.pushAll l)).length = 400 + total l := by
  rw [capsuleFile_eq htotal, List.length_append, List.length_append, length_flatMap_hintBytes,
    length_hintTable hcount, length_payload]
  show 80 + (320 + total l) = _
  omega

theorem hintView_of_loaded (hcount : l.length ≤ 19) (htotal : total l < maxCapsulePayloadSize)
    (htargets : ∀ x ∈ l, x.1 < 0x100000000)
    (hroom : 400 + total l ≤ P.pcdMaxSizeNonPopulateCapsule)
    (hloaded : Loaded P s (capsuleFile flags (Progress.start.pushAll l))) : HintView P s l := by
  have hbelow := P.buffer_below_flash
  have hflash := P.flash_base.2
  have htotal' : total l < 0xA00000 := htotal
  unfold Loaded at hloaded
  rw [capsuleFile_eq htotal] at hloaded
  obtain ⟨hheader, hrest⟩ := bytes_split hloaded
  obtain ⟨htable, hpayload⟩ := bytes_split hrest
  -- the words of the header
  unfold header at hheader
  obtain ⟨h₄, -⟩ := bytes_split hheader
  obtain ⟨h₃, himage⟩ := bytes_split h₄
  obtain ⟨h₂, -⟩ := bytes_split h₃
  obtain ⟨hguid, hhead⟩ := bytes_split h₂
  have hsize : (s.rd P).rd32 (headerSizeAt P.capsuleSmmBuffer) = sizeofCapsuleHeader :=
    rd32_of_bytes (by decide) hhead
  have hat : ∀ i ≤ 19, hintAt P s i = P.capsuleSmmBuffer + 80 + i * 16 := by
    intro i hi
    unfold hintAt SmiFlash.hintTable
    rw [hsize, u32_of_lt (show P.capsuleSmmBuffer + 80 < 0x100000000 by omega)]
    exact u32_of_lt (show P.capsuleSmmBuffer + 80 + i * 16 < 0x100000000 by omega)
  -- the hint in the middle of the table
  have hwords : ∀ pre h post, hintTable (hintsFrom 400 l) = pre ++ h :: post → pre.length ≤ 19 →
      h.targetAddr < 0x100000000 → h.size < 0x100000000 → h.sourceOffset < 0x100000000 →
      hintTargetAddr P s (hintAt P s pre.length) = h.targetAddr ∧
        hintSize P s (hintAt P s pre.length) = h.size ∧
        hintSourceOffset P s (hintAt P s pre.length) = h.sourceOffset := by
    intro pre h post heq hpre ht hs ho
    rw [heq] at htable
    rw [hat _ hpre]
    exact hint_words (bytes_hint htable) ht hs ho
  have hmid : ∀ pre x post, l = pre ++ x :: post →
      hintTargetAddr P s (hintAt P s pre.length) = x.1 ∧
        hintSize P s (hintAt P s pre.length) = (padded x.2).length ∧
        hintSourceOffset P s (hintAt P s pre.length) = 400 + total pre := by
    rintro pre x post rfl
    rw [total_append, total_cons] at htotal'
    rw [List.length_append, List.length_cons] at hcount
    obtain ⟨tail, heq⟩ : ∃ tail, hintTable (hintsFrom 400 (pre ++ x :: post)) = hintsFrom 400 pre ++
        ⟨x.1, (padded x.2).length, 400 + total pre, 0xFFFFFFFF⟩ :: tail := by
      unfold hintTable
      rw [hintsFrom_append, hintsFrom, List.append_assoc, List.append_assoc, List.cons_append]
      exact ⟨_, rfl⟩
    have hx := htargets x (List.mem_append_right _ List.mem_cons_self)
    have hmid := hwords _ _ _ heq (by rw [length_hintsFrom]; omega) hx
      (show (padded x.2).length < 0x100000000 by omega) (show 400 + total pre < 0x100000000 by omega)
    rw [length_hintsFrom] at hmid
    exact hmid
  refine ⟨hguid, hsize, rd32_of_bytes (by omega) himage, fun pre x post h => (hmid pre x post h).1,
    fun pre x post h => (hmid pre x post h).2.1, fun pre x post h => (hmid pre x post h).2.2, ?_, ?_⟩
  · rintro pre x post rfl
    rw [List.flatMap_append, List.flatMap_cons] at hpayload
    have hrest := (bytes_split hpayload).2
    rw [length_payload, length_flatMap_hintBytes, length_hintTable hcount] at hrest
    have himg := (bytes_split hrest).1
    rw [show P.capsuleSmmBuffer + (400 + total pre) =
      P.capsuleSmmBuffer + 80 + 20 * 16 + total pre by omega]
    exact himg
  · have heq : hintTable (hintsFrom 400 l) = hintsFrom 400 l ++ UpdateHint.zero ::
        List.replicate (19 - (hintsFrom 400 l).length) .unset := by
      unfold hintTable
      rw [List.append_assoc]
      rfl
    have hend := (hwords _ _ _ heq (by rw [length_hintsFrom]; exact hcount) (by decide) (by decide)
      (by decide)).2.1
    rw [length_hintsFrom] at hend
    exact hend

theorem wp_findTotalBody_hint {hint sum size source : Nat}
    (hsize : (s.rd P).rd32 (sizeAt hint) = size)
    (hsource : (s.rd P).rd32 (sourceOffsetAt hint) = source) (hpos : size ≠ 0)
    (hroom : u32 (source + size) ≤ P.pcdMaxSizeNonPopulateCapsule) :
    (findTotalBody P (hint, sum)).wp
      (fun r t => r = .inl (u32 (hint + SmiFlash.sizeofUpdateHint), u32 (sum + size)) ∧
        t.rd P = s.rd P) (fun _ _ => False) s := by
  unfold findTotalBody
  dsimp only
  rw [Exec.wp_bind, wp_readCapsule32, hsize, Exec.wp_ite]
  refine ⟨fun hz => absurd hz hpos, fun _ => ?_⟩
  rw [Exec.wp_bind, wp_readCapsule32, Exec.wp_bind, wp_readCapsule32, Exec.wp_ite]
  simp only [reads_rd]
  rw [hsize, hsource]
  refine ⟨fun hgt => absurd hroom (Nat.not_le.mpr hgt), fun _ => ?_⟩
  rw [Exec.wp_bind, wp_readCapsule32]
  simp only [reads_rd]
  rw [hsize, Exec.wp_pure]
  exact ⟨rfl, by simp only [reads_rd]⟩

theorem HintView.wp_findTotal (hv : HintView P s l) (himages : ∀ x ∈ l, x.2 ≠ [])
    (htotal : total l < maxCapsulePayloadSize)
    (hroom : 400 + total l ≤ P.pcdMaxSizeNonPopulateCapsule) {pre post : List (Nat × List UInt8)}
    (hl : l = pre ++ post) {fuel : Nat} (hfuel : post.length < fuel) {t : SmmState}
    (ht : t.rd P = s.rd P) :
    (Exec.loop fuel (findTotalBody P) (hintAt P s pre.length, 320 + total pre)).wp
      (fun r t => r = (.success, 320 + total l) ∧ t.rd P = s.rd P) (fun _ _ => False) t := by
  have htotal' : total l < 0xA00000 := htotal
  induction post generalizing pre fuel t with
  | nil =>
    rw [List.append_nil] at hl
    subst hl
    obtain ⟨n, rfl⟩ : ∃ n, fuel = n + 1 := ⟨fuel - 1, by omega⟩
    have hend : (t.rd P).rd32 (sizeAt (hintAt P s l.length)) = 0 := by
      rw [ht]
      exact hv.terminator
    rw [Exec.wp_loop_succ]
    unfold findTotalBody
    dsimp only
    rw [Exec.wp_bind, wp_readCapsule32, hend, if_pos rfl]
    exact ⟨rfl, ht⟩
  | cons x post ih =>
    obtain ⟨n, rfl⟩ : ∃ n, fuel = n + 1 := ⟨fuel - 1, by omega⟩
    have hsum : total l = total pre + ((padded x.2).length + total post) := by
      rw [hl, total_append, total_cons]
    have hpos : 0 < (padded x.2).length := by
      have hx := himages x (by rw [hl]; exact List.mem_append_right _ List.mem_cons_self)
      have hlen := length_padded x.2
      have := List.length_pos_iff.mpr hx
      omega
    have hsize : (t.rd P).rd32 (sizeAt (hintAt P s pre.length)) = (padded x.2).length := by
      rw [ht]
      exact hv.size pre x post hl
    have hsource : (t.rd P).rd32 (sourceOffsetAt (hintAt P s pre.length)) = 400 + total pre := by
      rw [ht]
      exact hv.source pre x post hl
    rw [Exec.wp_loop_succ]
    have hfits : u32 (400 + total pre + (padded x.2).length) ≤ P.pcdMaxSizeNonPopulateCapsule := by
      rw [u32_of_lt (by omega)]
      omega
    refine Exec.wp_mono (wp_findTotalBody_hint hsize hsource (by omega) hfits) ?_ (fun _ _ h => h)
    rintro r t' ⟨rfl, ht'⟩
    dsimp only
    rw [hintAt_succ, u32_of_lt (by omega)]
    have hsplit : l = (pre ++ [x]) ++ post := by
      rw [hl, List.append_assoc]
      rfl
    have hlen : (pre ++ [x]).length = pre.length + 1 := by
      rw [List.length_append, List.length_singleton]
    have hsum' : 320 + total (pre ++ [x]) = 320 + total pre + (padded x.2).length := by
      rw [total_append, total_cons, show total ([] : List (Nat × List UInt8)) = 0 from rfl]
      omega
    rw [List.length_cons] at hfuel
    have hnext := ih hsplit (show post.length < n by omega) (ht'.trans ht)
    rw [hlen, hsum'] at hnext
    exact hnext

theorem HintView.accepted (hv : HintView P s l) (himages : ∀ x ∈ l, x.2 ≠ [])
    (htotal : total l < maxCapsulePayloadSize) (hbuf : P.capsuleSmmBuffer ≠ 0)
    (hroom : 400 + total l ≤ P.pcdMaxSizeNonPopulateCapsule) (hfuel : l.length < P.fuel) :
    Accepted P s l := by
  have hwp : (challengeCapsule P).wp (fun status _ => status = .success) (fun _ _ => False) s := by
    have htable : u32 (P.capsuleSmmBuffer + sizeofCapsuleHeader) = hintAt P s 0 := by
      rw [hintAt_zero]
      unfold SmiFlash.hintTable
      rw [hv.header_size]
    have hguid : ¬ decide ((s.rd P).bytes P.capsuleSmmBuffer 16 = efiQuarkCapsuleGuid) = false := by
      rw [decide_eq_false_iff_not, not_not]
      exact hv.guid
    unfold challengeCapsule
    rw [if_neg hbuf, Exec.wp_bind]
    unfold compareCapsuleGuid
    rw [Exec.wp_bind, Exec.wp_get, Exec.wp_bind, Exec.wp_modify, Exec.wp_pure, if_neg hguid,
      Exec.wp_bind]
    unfold findTotalCapsuleImageSize
    rw [if_neg hbuf, Exec.wp_bind, wp_readCapsule32]
    have hsize : (({ s with capsuleReads := s.capsuleReads ++ [⟨P.capsuleSmmBuffer, 16⟩] } :
        SmmState).rd P).rd32 (headerSizeAt P.capsuleSmmBuffer) = sizeofCapsuleHeader := hv.header_size
    rw [hsize, htable]
    have hsplit : l = [] ++ l := rfl
    refine Exec.wp_mono (hv.wp_findTotal himages htotal hroom hsplit hfuel rfl) ?_ (fun _ _ h => h)
    rintro ⟨status, sum⟩ t ⟨heq, ht⟩
    cases heq
    dsimp only
    have htotal' : total l < 0xA00000 := htotal
    rw [if_neg (by decide), Exec.wp_bind, wp_readCapsule32, Exec.wp_bind, wp_readCapsule32,
      Exec.wp_ite]
    simp only [reads_rd]
    rw [ht, hv.image_size, hv.header_size]
    refine ⟨fun hne => absurd ?_ hne, fun _ => rfl⟩
    show 400 + total l = u32 (80 + (320 + total l))
    rw [u32_of_lt (by omega)]
    omega
  have hchallenge : ∃ v, challengeCapsule P s = .ret .success v := by
    cases hrun : challengeCapsule P s with
    | ret status v =>
      have hstatus := Exec.wp_of_ret hwp hrun
      exact ⟨v, by rw [hstatus]⟩
    | stop w v => exact (Exec.wp_of_stop hwp hrun).elim
  refine ⟨hchallenge, fun i hi => ?_, hv.terminator⟩
  have hl : l = l.take i ++ l.get ⟨i, hi⟩ :: l.drop (i + 1) := by
    rw [List.get_eq_getElem, List.getElem_cons_drop, List.take_append_drop]
  have hlen : (l.take i).length = i := List.length_take_of_le (by omega)
  have ht := hv.target _ _ _ hl
  have hs := hv.size _ _ _ hl
  have ho := hv.source _ _ _ hl
  rw [hlen] at ht hs ho
  have hpos : 0 < (padded (l.get ⟨i, hi⟩).2).length := by
    have hx := List.length_pos_iff.mpr (himages _ (List.get_mem l ⟨i, hi⟩))
    have hlen := length_padded (l.get ⟨i, hi⟩).2
    omega
  refine ⟨ht, ?_, ?_⟩
  · rw [hs]
    omega
  · rw [hs, ho]
    exact hv.image _ _ _ hl

end View

/-! ## Blocks that are read as they are meant -/

theorem written_eq_iff {b : ConfigBlock} {address : Nat} (hne : address ≠ 0) :
    b.written address = some address ↔ b.ReadAsMeant address := by
  unfold ConfigBlock.written
  constructor
  · intro h
    by_cases hempty : ∃ l ∈ b.passed, removeLineBreak l = none
    · rw [if_pos hempty] at h
      cases h
    have hbreak : ∀ l ∈ b.passed, removeLineBreak l ≠ none := fun l hl hn => hempty ⟨l, hl, hn⟩
    rw [if_neg hempty] at h
    by_cases hseen : b.EndInName ∧ b.addressFirst = false
    · rw [if_pos hseen] at h
      have heq := Option.some.inj h
      exact ⟨hbreak, by omega, fun _ => .inr heq.symm⟩
    · rw [if_neg hseen] at h
      by_cases hz : u32 address = 0
      · rw [if_pos hz] at h
        cases h
      · rw [if_neg hz] at h
        have heq := Option.some.inj h
        refine ⟨hbreak, heq ▸ u32_lt address, fun hname => .inl ?_⟩
        by_contra hfirst
        exact hseen ⟨hname, Bool.eq_false_iff.mpr hfirst⟩
  · intro h
    rw [if_neg (fun ⟨l, hl, hn⟩ => h.no_empty_line l hl hn)]
    by_cases hseen : b.EndInName ∧ b.addressFirst = false
    · rw [if_pos hseen]
      rcases h.address_seen hseen.1 with hfirst | heq
      · rw [hfirst] at hseen
        cases hseen.2
      · rw [heq]
    · rw [if_neg hseen, u32_of_lt h.address_lt, if_neg hne]

theorem written_lt {b : ConfigBlock} {address target : Nat} (h : b.written address = some target) :
    target < 0x100000000 := by
  unfold ConfigBlock.written at h
  split at h
  · cases h
  · split at h
    · rw [← Option.some.inj h]
      decide
    · split at h
      · cases h
      · rw [← Option.some.inj h]
        exact u32_lt address

theorem writeAll_eq_some {items : List Item} {p q : Progress} (h : writeAll items p = some q) :
    ∃ l : List (Nat × List UInt8), q = p.pushAll l ∧ l.map Prod.snd = items.map Item.image ∧
      items.map (fun x => x.block.written x.address) = l.map (fun y => some y.1) := by
  induction items generalizing p with
  | nil =>
    cases h
    exact ⟨[], rfl, rfl, rfl⟩
  | cons x items ih =>
    unfold writeAll at h
    cases hw : x.block.written x.address with
    | none =>
      rw [hw] at h
      cases h
    | some target =>
      rw [hw, Option.bind_some] at h
      obtain ⟨l, rfl, himages, htargets⟩ := ih h
      refine ⟨(target, x.image) :: l, rfl, ?_, ?_⟩
      · rw [List.map_cons, List.map_cons, himages]
      · rw [List.map_cons, List.map_cons, hw, htargets]

theorem writeAll_of_written {items : List Item} {p : Progress}
    (h : ∀ x ∈ items, x.block.written x.address = some x.address) :
    writeAll items p = some (p.pushAll (items.map fun x => (x.address, x.image))) := by
  induction items generalizing p with
  | nil => rfl
  | cons x items ih =>
    unfold writeAll
    rw [h x List.mem_cons_self, Option.bind_some, ih fun y hy => h y (List.mem_cons_of_mem _ hy)]
    rfl

def bufferState (P : Platform) (file : List UInt8) : SmmState :=
  parsingState fun a => file.getD (a - P.capsuleSmmBuffer) 0

theorem loaded_bufferState {P : Platform} {file : List UInt8}
    (h : file.length ≤ P.pcdMaxSizeNonPopulateCapsule) : Loaded P (bufferState P file) file := by
  have hbelow := P.buffer_below_flash
  have hflash := P.flash_base.2
  unfold Loaded Mem.bytes
  refine List.ext_getElem (by simp) fun k hk hk' => ?_
  rw [List.getElem_map, List.getElem_range, u32_of_lt (by omega)]
  show (if P.spiFlashBaseAddress ≤ P.capsuleSmmBuffer + k then _ else _) = _
  rw [if_neg (by omega)]
  show file.getD (P.capsuleSmmBuffer + k - P.capsuleSmmBuffer) 0 = _
  rw [Nat.add_sub_cancel_left, List.getD_eq_getElem?_getD, List.getElem?_eq_getElem hk',
    Option.getD_some]

/-- The firmware reads from the capsule what the configuration means if and only if the configuration
has a line and each of its blocks is read as it is meant. -/
theorem capsule_agrees_iff {T : Tool} {c : Config} {op : Bool} {P : Platform} (hc : c.Valid T)
    (hbuf : P.capsuleSmmBuffer ≠ 0) (hroom : 400 + c.payloadSize ≤ P.pcdMaxSizeNonPopulateCapsule)
    (hfuel : maxImagesPerCapsule ≤ P.fuel) :
    (∃ file, capsuleCreate T c.lines op = some file ∧ ∀ s, Loaded P s file →
        Accepted P s (c.items.map fun x => (x.address, x.image))) ↔
      c.lines ≠ [] ∧ ∀ x ∈ c.items, x.block.ReadAsMeant x.address := by
  have hcount : c.items.length ≤ 19 := hc.count
  have hfuel : 20 ≤ P.fuel := hfuel
  rw [capsuleCreate_eq hc]
  constructor
  · rintro ⟨file, hfile, hacc⟩
    by_cases hlines : c.lines = []
    · rw [if_pos hlines] at hfile
      cases hfile
    refine ⟨hlines, fun x hx => ?_⟩
    rw [if_neg hlines] at hfile
    obtain ⟨q, hq, rfl⟩ := Option.map_eq_some_iff.mp hfile
    obtain ⟨l, rfl, himages, htargets⟩ := writeAll_eq_some hq
    have hlen : l.length = c.items.length := by
      have h := congrArg List.length himages
      rwa [List.length_map, List.length_map] at h
    have htotal : total l = c.payloadSize := by
      have h := congrArg (fun is => (is.map fun i => (padded i).length).sum) himages
      rw [List.map_map, List.map_map] at h
      exact h
    have hlt : ∀ y ∈ l, y.1 < 0x100000000 := by
      intro y hy
      have hmem : some y.1 ∈ c.items.map fun x => x.block.written x.address := by
        rw [htargets]
        exact List.mem_map.mpr ⟨y, hy, rfl⟩
      obtain ⟨z, -, hz⟩ := List.mem_map.mp hmem
      exact written_lt hz
    have hsize : total l < maxCapsulePayloadSize := by
      rw [htotal]
      exact hc.size
    have hfit : 400 + total l ≤ P.pcdMaxSizeNonPopulateCapsule := by
      rw [htotal]
      exact hroom
    have hloaded : Loaded P (bufferState P _) _ := loaded_bufferState
      (show (capsuleFile T.capsuleFlags (Progress.start.pushAll l)).length ≤ _ by
        rw [length_capsuleFile (by omega) hsize]; exact hfit)
    have hv := hintView_of_loaded (by omega) hsize hlt hfit hloaded
    -- the address of the block and the target in the capsule are read from the same hint
    obtain ⟨i, hi, rfl⟩ := List.mem_iff_getElem.mp hx
    have haddr := ((hacc _ hloaded).hints i (by rw [List.length_map]; exact hi)).1
    rw [List.get_eq_getElem, List.getElem_map] at haddr
    have hl : l = l.take i ++ l[i] :: l.drop (i + 1) := by
      rw [List.getElem_cons_drop, List.take_append_drop]
    have htarget := hv.target _ _ _ hl
    rw [List.length_take_of_le (by omega)] at htarget
    have hw : c.items[i].block.written c.items[i].address = some l[i].1 := by
      have h := congrArg (fun is => is[i]?) htargets
      simpa [List.getElem?_map, List.getElem?_eq_getElem hi,
        List.getElem?_eq_getElem (show i < l.length by omega)] using h
    rw [← htarget, haddr] at hw
    exact (written_eq_iff (hc.means _ hx).address_ne).mp hw
  · rintro ⟨hlines, hread⟩
    rw [if_neg hlines]
    have hwritten : ∀ x ∈ c.items, x.block.written x.address = some x.address := fun x hx =>
      (written_eq_iff (hc.means x hx).address_ne).mpr (hread x hx)
    rw [writeAll_of_written hwritten]
    refine ⟨_, rfl, fun s hs => ?_⟩
    have htotal : total (c.items.map fun x => (x.address, x.image)) = c.payloadSize := by
      unfold total Config.payloadSize
      rw [List.map_map]
      rfl
    have hsize : total (c.items.map fun x => (x.address, x.image)) < maxCapsulePayloadSize := by
      rw [htotal]
      exact hc.size
    have hlen : (c.items.map fun x => (x.address, x.image)).length = c.items.length :=
      List.length_map _
    have hfit : 400 + total (c.items.map fun x => (x.address, x.image)) ≤
        P.pcdMaxSizeNonPopulateCapsule := by
      rw [htotal]
      exact hroom
    have hlt : ∀ y ∈ c.items.map fun x => (x.address, x.image), y.1 < 0x100000000 := by
      intro y hy
      obtain ⟨x, hx, rfl⟩ := List.mem_map.mp hy
      exact (hread x hx).address_lt
    have himages : ∀ y ∈ c.items.map fun x => (x.address, x.image), y.2 ≠ [] := by
      intro y hy
      obtain ⟨x, hx, rfl⟩ := List.mem_map.mp hy
      exact (hc.means x hx).image_ne
    exact (hintView_of_loaded (by omega) hsize hlt hfit hs).accepted himages hsize hbuf hfit (by omega)

/-! ## Two configurations -/

def rmuAddressLine : Line :=
  startAddressString ++ ['0', 'x', 'F', 'F', 'F', '0', '0', '0', '0', '0', '\n']

def sampleTool : Tool where
  fopen := fun _ => some [0x11]
  asciiStringToUint64 := fun text =>
    if text = ['0', 'x', 'F', 'F', 'F', '0', '0', '0', '0', '0'] then some 0xFFF00000 else none
  inputCapsuleModulesDir := none
  capsuleFlags := 1

def rmuBlock (name : Line) : ConfigBlock where
  beginLine := beginString ++ ['\n']
  before := []
  between := []
  behind := []
  fileLine := fileNameString ++ name ++ ['\n']
  addressLine := rmuAddressLine
  addressFirst := false
  endLine := endString ++ ['\n']

def oneBlock (name : Line) : Config := ⟨[⟨[], rmuBlock name, [0x11], 0xFFF00000⟩], []⟩

def rmuName : Line := ['R', 'M', 'U', '.', 'b', 'i', 'n']

def vendorName : Line := ['V', 'E', 'N', 'D', 'O', 'R', '.', 'b', 'i', 'n']

theorem means_rmuBlock {name : Line} (hbreak : removeLineBreak (rmuBlock name).fileLine ≠ none)
    (hfile : strstr fileNameString (stripped (rmuBlock name).fileLine) ≠ none) :
    (rmuBlock name).Means sampleTool [0x11] 0xFFF00000 where
  begins := (by decide : Contains beginString (beginString ++ ['\n']))
  fillers := fun l hl => absurd hl List.not_mem_nil
  file := by
    obtain ⟨value, hvalue⟩ := Option.ne_none_iff_exists'.mp hfile
    exact ⟨value, hvalue, rfl⟩
  file_break := hbreak
  image_ne := List.cons_ne_nil _ _
  address_text := ⟨_, rfl, by decide⟩
  address_break := (by decide : removeLineBreak rmuAddressLine ≠ none)
  address_no_file := (by decide : strstr fileNameString (stripped rmuAddressLine) = none)
  address_no_end := (by decide : ¬ Contains endString (stripped rmuAddressLine))
  address_no_begin := (by decide : ¬ Contains beginString rmuAddressLine)
  address_ne := by decide
  ends := (by decide : Contains endString (stripped (endString ++ ['\n'])))
  end_break := (by decide : removeLineBreak (endString ++ ['\n']) ≠ none)
  end_no_file := (by decide : strstr fileNameString (stripped (endString ++ ['\n'])) = none)
  end_no_address := (by decide : strstr startAddressString (stripped (endString ++ ['\n'])) = none)
  end_no_begin := (by decide : ¬ Contains beginString (endString ++ ['\n']))

theorem payloadSize_oneBlock (name : Line) : (oneBlock name).payloadSize = 0x1000 := by
  show (padded [0x11]).length + 0 = 0x1000
  rw [length_padded]
  decide

theorem valid_oneBlock {name : Line} (hm : (rmuBlock name).Means sampleTool [0x11] 0xFFF00000) :
    (oneBlock name).Valid sampleTool where
  means := fun x hx => by
    rw [List.mem_singleton.mp hx]
    exact hm
  gaps := fun x hx l hl => by
    rw [List.mem_singleton.mp hx] at hl
    exact absurd hl List.not_mem_nil
  rest := fun l hl => absurd hl List.not_mem_nil
  count := (by decide : 1 ≤ 19)
  size := by
    rw [payloadSize_oneBlock]
    decide

theorem readAsMeant_rmu : (rmuBlock rmuName).ReadAsMeant 0xFFF00000 where
  no_empty_line := by
    have hnil : (rmuBlock rmuName).passed = [] := by decide
    rw [hnil]
    exact fun l hl => absurd hl List.not_mem_nil
  address_lt := by decide
  address_seen := fun h => absurd h (by decide)

theorem capsule_agrees_iff_rmu : (rmuBlock rmuName).ReadAsMeant 0xFFF00000 ∧
    ∃ file, capsuleCreate sampleTool (oneBlock rmuName).lines false = some file ∧
      ∀ s, Loaded roomyPlatform s file → Accepted roomyPlatform s [(0xFFF00000, [0x11])] := by
  refine ⟨readAsMeant_rmu, (capsule_agrees_iff
    (valid_oneBlock (means_rmuBlock (by decide) (by decide))) (by decide)
    (by rw [payloadSize_oneBlock]; decide) (by decide)).mpr ⟨List.cons_ne_nil _ _, fun x hx => ?_⟩⟩
  rw [List.mem_singleton.mp hx]
  exact readAsMeant_rmu

def vendorFile : List UInt8 :=
  (capsuleCreate sampleTool (oneBlock vendorName).lines false).getD []

/-- The line with the name ends the block, so that the address is not read and the hint has the target
that an element of `HintData` starts with. -/
theorem address_behind_end_in_name_lost :
    (oneBlock vendorName).Valid sampleTool ∧
      ¬ ∃ file, capsuleCreate sampleTool (oneBlock vendorName).lines false = some file ∧
        ∀ s, Loaded roomyPlatform s file → Accepted roomyPlatform s [(0xFFF00000, [0x11])] := by
  refine ⟨valid_oneBlock (means_rmuBlock (by decide) (by decide)), ?_⟩
  rintro ⟨file, hfile, hacc⟩
  have hcreate : file = vendorFile := by
    unfold vendorFile
    rw [hfile]
    rfl
  rw [hcreate] at hacc
  have hlen : vendorFile.length ≤ roomyPlatform.pcdMaxSizeNonPopulateCapsule := by decide +kernel
  have hunset : hintTargetAddr roomyPlatform (bufferState roomyPlatform vendorFile)
      (hintAt roomyPlatform (bufferState roomyPlatform vendorFile) 0) = 0xFFFFFFFF := by
    decide +kernel
  obtain ⟨htarget, -⟩ := (hacc _ (loaded_bufferState hlen)).hints 0 (Nat.zero_lt_one)
  have heq : (0xFFFFFFFF : Nat) = 0xFFF00000 := hunset.symm.trans htarget
  omega

end Quark.CapsuleTool
