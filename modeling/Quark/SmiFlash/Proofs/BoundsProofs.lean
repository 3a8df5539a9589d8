import Quark.SmiFlash.Proofs.HintsProofs
import Quark.SmiFlash.Proofs.ScheduleProofs

/-!
# Flash writes are confined

A recorded block lies in the range that its hint had when the parse checked it, as long as the hint is
read back as it was checked. The image list does the rest.
-/

namespace Quark.SmiFlash

open Machine MfhLib

variable {P : Platform}

/-! ## The image list -/

section Images

variable {m : MfhStages} {nvram : Bool} {e : SpiImagePresent}

/-- The entries of the list: the seven fixed regions next to the NVRAM, which all lie above the OS and
the stages, the NVRAM, and the three entries that depend on the MFH. -/
theorem mem_mfhImageList (he : e ∈ mfhImageList m nvram) :
    e ∈ initialSpiImageList.take 4 ++ (initialSpiImageList.drop 5).take 3 ∨ e = nvramImage nvram ∨
      e = m.stage1Image ∨ e = m.stage2Image ∨ e = m.osImage := by
  simp only [mfhImageList, imageListWith, List.mem_append, List.mem_cons, List.not_mem_nil, or_false] at he ⊢
  tauto

theorem fixed_aligned :
    ∀ e ∈ initialSpiImageList.take 4 ++ (initialSpiImageList.drop 5).take 3,
      e.spiImageDefaultBaseAddress % flashBlockSize = 0 := by
  decide

theorem base_aligned (he : e ∈ mfhImageList m nvram) (hu : e.updatable = true)
    (hsize : 1 < e.spiImageMaxSize) : e.spiImageDefaultBaseAddress % flashBlockSize = 0 := by
  rcases mem_mfhImageList he with he | rfl | rfl | rfl | rfl
  · exact fixed_aligned e he
  · exact (by decide : flashRegionBiosNvStorageBase % flashBlockSize = 0)
  · rcases m.stage1_aligned hu with hal | hlim
    · exact hal
    · exfalso
      have hsize : 1 < u32 (sub32 flashRegionBiosStagesLimitAddress m.stage1 + 1) := hsize
      rw [hlim] at hsize
      exact absurd hsize (by decide)
  · exact m.stage2_aligned hu
  · exact (by decide : flashRegionOsDefaultBaseAddress % flashBlockSize = 0)

theorem fixed_apart :
    ∀ e ∈ initialSpiImageList.take 4 ++ (initialSpiImageList.drop 5).take 3,
      e.range.base + e.range.len ≤ (nvramImage true).range.base ∨
        (nvramImage true).range.base + (nvramImage true).range.len ≤ e.range.base := by
  decide

theorem nvram_apart (hm : m.Ordered) (he : e ∈ mfhImageList m nvram) (hu : e.updatable = true) :
    e = nvramImage true ∨ e.range.base + e.range.len ≤ (nvramImage true).range.base ∨
      (nvramImage true).range.base + (nvramImage true).range.len ≤ e.range.base := by
  obtain ⟨hos, hstage⟩ := hm
  have hos : 0xFF800000 ≤ m.stage2 := hos
  have hlim : m.stage1 ≤ 0xFFEFFFFF := m.stage1_le
  rcases mem_mfhImageList he with he | rfl | rfl | rfl | rfl
  · exact .inr (fixed_apart e he)
  · have hnv : nvram = true := hu
    exact .inl (by rw [hnv])
  · refine .inr (.inl ?_)
    show m.stage1 + u32 (sub32 0xFFEFFFFF m.stage1 + 1) ≤ 0xFFF30000
    rw [sub32_of_le hlim (by decide), u32_of_lt (by omega)]
    omega
  · refine .inr (.inl ?_)
    show m.stage2 + sub32 m.stage1 m.stage2 ≤ 0xFFF30000
    rw [sub32_of_le hstage (by omega)]
    omega
  · refine .inr (.inl ?_)
    show 0xFF800000 + sub32 m.stage2 0xFF800000 ≤ 0xFFF30000
    rw [sub32_of_le hos (by omega)]
    omega

end Images

/-! ## Blocks -/

section

variable {s : SmmState} {m : MfhStages} {nvram : Bool}

theorem Records.inside_image {b : StateMachinePrivateData} (hlock : P.quarkCheckSecureLockBoot = true)
    (hreads : Rereads P s) (h : Records P s b) :
    P.spiFlashBaseAddress ≤ b.targetAddr ∧ b.targetAddr + flashBlockSize ≤ 0x100000000 ∧
      ∃ e ∈ s.spiImageList, e.updatable = true ∧ e.range.base ≤ b.targetAddr ∧
        b.targetAddr + flashBlockSize ≤ e.range.base + e.range.len := by
  obtain ⟨hint, u, el, v, l, t, hcall, hhead, hc, rfl⟩ := h
  have hstable := fun l t => hreads hint u el v l t hcall
  cases hcall with
  | region hfalse _ _ _ =>
    rw [hlock] at hfalse
    cases hfalse
  | @image _ _ _ _ _ _ e _ hparse hpass _ hmem hmatch =>
    have himages : u.spiImageList = s.spiImageList := (congrArg SmmState.spiImageList hparse.mask :)
    -- the first head is reached without a step
    obtain ⟨htarget, hsize⟩ := hstable _ _ ⟨[], .refl⟩
    have hbase := hmatch.base_le
    have hend := hmatch.end_le
    have hbase : e.spiImageDefaultBaseAddress ≤ hintTargetAddr P u hint := htarget ▸ hbase
    have hend : hintTargetAddr P u hint + hintSize P u hint ≤
        e.spiImageDefaultBaseAddress + e.spiImageMaxSize := htarget ▸ hsize ▸ hend
    have hflash := hpass.in_flash
    have hbelow := hpass.below_4gb
    have hge : flashBlockSize ≤ hintTargetAddr P u hint :=
      Nat.le_trans (Nat.le_trans (by decide) P.flash_base.1) hflash
    obtain ⟨i, -, -, hat⟩ := initHead_block hge hbelow hstable hhead
    obtain ⟨hdest, hfit⟩ := hat hc
    rw [Nat.succ_mul] at hfit
    have hb : l.block.targetAddr = hintTargetAddr P u hint + i * flashBlockSize := hdest
    rw [hb]
    refine ⟨by omega, by omega, e, himages ▸ hmem, hmatch.updatable, ?_, ?_⟩
    · show e.spiImageDefaultBaseAddress ≤ _
      omega
    · show _ ≤ e.spiImageDefaultBaseAddress + e.spiImageMaxSize
      omega

theorem SpiCycle.range_inside {c : SpiCycle} {base end_ : Nat} (hal : base % flashBlockSize = 0)
    (hbase : base ≤ c.address) (hend : c.address + flashBlockSize ≤ end_) :
    base ≤ c.range.base ∧ c.range.base + c.range.len ≤ end_ := by
  have hal : base % 4096 = 0 := hal
  have hend : c.address + 4096 ≤ end_ := hend
  unfold SpiCycle.range
  cases c.op with
  | erase =>
    show base ≤ c.address / 4096 * 4096 ∧ c.address / 4096 * 4096 + 4096 ≤ end_
    omega
  | program => exact ⟨hbase, hend⟩

theorem SpiCycle.permitted_of_records {c : SpiCycle} {bs : List StateMachinePrivateData}
    (hlock : P.quarkCheckSecureLockBoot = true) (himages : s.spiImageList = mfhImageList m nvram)
    (hreads : Rereads P s) (hnv : nvram = true ∨ m.Ordered) (hbs : ∀ b ∈ bs, Records P s b)
    (hc : c.OfBlocks bs) : c.Permitted P s.spiImageList := by
  unfold SpiCycle.OfBlocks at hc
  unfold SpiCycle.Permitted
  cases hcaller : c.caller with
  | svnArea =>
    rw [hcaller] at hc
    dsimp only at hc ⊢
    unfold SpiCycle.range
    rw [hc]
    cases c.op <;> rfl
  | block =>
    rw [hcaller] at hc
    obtain ⟨b, hb, haddr⟩ := hc
    obtain ⟨hflash, htop, e, hmem, hu, hbase, hend⟩ := (hbs b hb).inside_image hlock hreads
    rw [← haddr] at hflash htop hbase hend
    have hmem' := hmem
    rw [himages] at hmem'
    have hsize : 1 < e.spiImageMaxSize := by
      have hbase : e.spiImageDefaultBaseAddress ≤ c.address := hbase
      have hend : c.address + 4096 ≤ e.spiImageDefaultBaseAddress + e.spiImageMaxSize := hend
      omega
    have hin : c.range.Inside e.range :=
      SpiCycle.range_inside (base_aligned hmem' hu hsize) hbase hend
    refine ⟨?_, ⟨e, hmem, hu, hin⟩, fun hmeet => ?_⟩
    · have hf := P.flash_base.2
      have hfl := SpiCycle.range_inside P.flash_base_aligned hflash htop
      refine ⟨hfl.1, ?_⟩
      show _ ≤ P.spiFlashBaseAddress + (0x100000000 - P.spiFlashBaseAddress)
      omega
    · rcases hnv with rfl | hord
      · rw [himages]
        unfold mfhImageList imageListWith
        simp
      · rcases nvram_apart hord hmem' hu with rfl | hapart
        · exact hmem
        · refine absurd ?_ hmeet
          intro a ha ha' hnva
          have h₁ : e.range.base ≤ c.range.base := hin.1
          have h₂ : c.range.base + c.range.len ≤ e.range.base + e.range.len := hin.2
          omega

theorem rereads_of_updatesMac (h : UpdatesMac P s) : Rereads P s := by
  intro hint u el v l t hcall hhead
  obtain ⟨hu, hv⟩ := hcall.sameRd h
  have ht := hhead.sameRd h hv
  unfold hintTargetAddr hintSize
  rw [ht, hu]
  exact ⟨rfl, rfl⟩

/-- Every block that a run erases or programs is permitted by the image list, and the only other
operations are those on the SVN area, as long as the hints are read back as they were checked and the
NVRAM entry is updatable or the stages of the MFH are in order. -/
theorem flash_writes_confined {w : SmmState} (hlock : P.quarkCheckSecureLockBoot = true)
    (hs : AtParse s) (himages : s.spiImageList = mfhImageList m nvram)
    (hparse : capsuleParse P s = .ret .success w) (hreads : Rereads P s)
    (hnv : nvram = true ∨ m.Ordered) :
    ∃ cycles, (updateRun P (w.advance P .success)).state.spiCycles = s.spiCycles ++ cycles ∧
      ∀ c ∈ cycles, c.Permitted P s.spiImageList := by
  obtain ⟨bs, herase, -, hbs⟩ := atErase_of_parse hs hparse
  obtain ⟨cycles, hcycles, hof⟩ := updateRun_adds herase
  have hkeep : w.spiCycles = s.spiCycles := (keeps_capsuleParse P).field SmmState.spiCycles hparse
  refine ⟨cycles, ?_, fun c hc => ?_⟩
  · rw [← hkeep]
    exact hcycles
  · exact SpiCycle.permitted_of_records hlock himages hreads hnv hbs (hof c hc)

end

def roomyPlatform : Platform :=
  { Platform.sample with
    pcdMaxSizeNonPopulateCapsule := 0x30000
    capsuleSmmBuffer := 0x100000
    fuel := 80
    buffer_below_flash := by decide }

def defaultStages : MfhStages where
  stage1 := 0xFFD00000
  stage2 := 0xFFC00000
  stage1Updatable := true
  stage2Updatable := true
  stage1_le := by decide
  stage2_lt := by decide
  stage1_aligned := fun _ => .inl (by decide)
  stage2_aligned := fun _ => by decide

/-- A state in which the capsule in `ram` is parsed, where the NVRAM is not to be updated. -/
def parsingState (ram : Mem) : SmmState :=
  { loadedState ram (fun _ => 0) with
    spiImageList := mfhImageList defaultStages false
    activeState := .inProgress
    stateId := parseCapsuleState }

theorem atParse_parsingState (ram : Mem) : AtParse (parsingState ram) := ⟨rfl, rfl, fun _ => rfl⟩

def rmuCapsule : Mem :=
  Mem.ofWords [(0x100000, 0xd400d1e4), (0x100004, 0x442ba314), (0x100008, 0x2ea9ed89),
    (0x10000C, 0xcb97814c), (0x100010, 0x20), (0x100014, 1), (0x100018, 0x1160),
    (0x100020, 0xFFF00000), (0x100024, 0x1000), (0x100028, 0x160)]

theorem flash_writes_confined_rmu :
    ∃ cycles, (updateRun roomyPlatform ((capsuleParse roomyPlatform
        (parsingState rmuCapsule)).state.advance roomyPlatform .success)).state.spiCycles =
        [] ++ cycles ∧
      ∀ c ∈ cycles, c.Permitted roomyPlatform (mfhImageList defaultStages false) :=
  flash_writes_confined rfl (atParse_parsingState _) rfl (Outcome.eq_ret (by decide +kernel))
    (rereads_of_updatesMac (by unfold UpdatesMac; decide +kernel)) (.inr (by unfold MfhStages.Ordered; decide))

/-- A capsule with one hint, for the first block of the platform data. Its source is so placed that the
CRC of the platform data is the `TargetAddr` of the hint, and the hint is such that the CRC is
`0xFFF30000`, the start of the NVRAM. -/
def overlappingCapsule : Mem :=
  Mem.ofWords [(0x100000, 0xd400d1e4), (0x100004, 0x442ba314), (0x100008, 0x2ea9ed89),
    (0x10000C, 0xcb97814c), (0x100010, 0x30), (0x100018, 0x1170), (0x10002C, 12),
    (0x100030, 0xFFF10000), (0x100034, 0x1000), (0x100038, 0x28), (0x10003C, 0xef0e2896)]

/-- The hint is checked as one block of platform data; the patch of the platform data then moves its
`TargetAddr`, and the blocks up to the NVRAM are recorded and erased. -/
theorem nvram_erased_by_patched_hint :
    (challengeCapsule roomyPlatform (parsingState overlappingCapsule)).value? = some .success ∧
      AtParse (parsingState overlappingCapsule) ∧
      (capsuleParse roomyPlatform (parsingState overlappingCapsule)).value? = some .success ∧
      ¬ ∃ cycles, (updateRun roomyPlatform ((capsuleParse roomyPlatform
          (parsingState overlappingCapsule)).state.advance roomyPlatform .success)).state.spiCycles =
          [] ++ cycles ∧
        ∀ c ∈ cycles, c.Permitted roomyPlatform (mfhImageList defaultStages false) := by
  refine ⟨by decide +kernel, atParse_parsingState _, by decide +kernel, ?_⟩
  rintro ⟨cycles, hcycles, hall⟩
  have hmem : (⟨.erase, .block, 0xFFF30000, true⟩ : SpiCycle) ∈ (updateRun roomyPlatform
      ((capsuleParse roomyPlatform (parsingState overlappingCapsule)).state.advance roomyPlatform
        .success)).state.spiCycles := by
    decide +kernel
  rw [hcycles, List.nil_append] at hmem
  have hmeet : ¬ (⟨0xFFF30000, 0x1000⟩ : Range).Disjoint (nvramImage true).range := fun hdis =>
    hdis 0xFFF30000 (by decide) (by decide) (by decide)
  have hnv : nvramImage true ∈ mfhImageList defaultStages false :=
    (hall _ hmem : Writable _ _ _).nvram hmeet
  exact absurd hnv (by decide)

/-! ## The capsule is read in bounds

The walk of the challenge is followed along the hints of `TableSound`. The parse comes by the same hints,
since the table does not change under it.
-/

variable {P : Platform} {s : SmmState} {n : Nat}

theorem hintAt_succ (i : Nat) : u32 (hintAt P s i + sizeofUpdateHint) = hintAt P s (i + 1) := by
  unfold hintAt u32 sizeofUpdateHint
  omega

theorem hintAt_zero : hintAt P s 0 = hintTable P s := by
  unfold hintAt hintTable u32
  omega

theorem header_inside (hpcd : sizeofEfiCapsuleHeader ≤ P.pcdMaxSizeNonPopulateCapsule) {k len : Nat}
    (hk : k + len ≤ sizeofEfiCapsuleHeader) :
    (⟨u32 (P.capsuleSmmBuffer + k), len⟩ : Range).Inside P.capsuleRange := by
  have hpcd : 28 ≤ P.pcdMaxSizeNonPopulateCapsule := hpcd
  have hk : k + len ≤ 28 := hk
  have hbuf := P.buffer_below_flash
  have hf := P.flash_base.2
  rw [u32_of_lt (by omega)]
  refine ⟨Nat.le_add_right _ _, ?_⟩
  show P.capsuleSmmBuffer + k + len ≤ P.capsuleSmmBuffer + P.pcdMaxSizeNonPopulateCapsule
  omega

/-! ## The challenge -/

/-- A state that differs from `s` in its record of reads only, which is `base` and reads inside the
buffer. -/
def ReadOn (P : Platform) (s : SmmState) (base : List Range) (t : SmmState) : Prop :=
  ∃ log, t = s.withReads (base ++ log) ∧ ∀ r ∈ log, r.Inside P.capsuleRange

variable {base : List Range}

theorem readOn_withReads (s : SmmState) (base : List Range) :
    ReadOn P s base (s.withReads base) :=
  ⟨[], by rw [List.append_nil], fun r hr => absurd hr List.not_mem_nil⟩

theorem ReadOn.reads {t : SmmState} (h : ReadOn P s base t) {q : Range}
    (hq : q.Inside P.capsuleRange) : ReadOn P s base (t.reads [q]) := by
  obtain ⟨log, rfl, hall⟩ := h
  refine ⟨log ++ [q], ?_, fun r hr => ?_⟩
  · show s.withReads (base ++ log ++ [q]) = _
    rw [List.append_assoc]
  rcases List.mem_append.mp hr with hr | hr
  · exact hall r hr
  · rw [List.mem_singleton.mp hr]
    exact hq

theorem ReadOn.read {t : SmmState} (h : ReadOn P s base t) {a : Nat} (ha : WordInside P a) :
    ReadOn P s base (t.reads [⟨u32 a, 4⟩]) :=
  h.reads ha

theorem ReadOn.rd {t : SmmState} (h : ReadOn P s base t) : t.rd P = s.rd P := by
  obtain ⟨log, rfl, -⟩ := h
  rfl

theorem wp_findTotal {t : SmmState} (hw : WalkEnds P s n) (ht : ReadOn P s base t) (fuel total : Nat) :
    (Exec.loop fuel (findTotalBody P) (hintTable P s, total)).wp
      (fun r t => ReadOn P s base t ∧ (r.1.isError = false → hintSize P s (hintAt P s n) = 0))
      (fun _ t => ReadOn P s base t) t := by
  refine Exec.wp_loop (fun l t => ReadOn P s base t ∧ ∃ i ≤ n, l.1 = hintAt P s i) ?_
    (fun _ _ hI => hI.1) fuel ⟨ht, 0, Nat.zero_le _, hintAt_zero.symm⟩
  rintro ⟨hint, total⟩ t ⟨ht, i, hi, rfl⟩
  have hsize : (t.rd P).rd32 (sizeAt (hintAt P s i)) = hintSize P s (hintAt P s i) := by
    rw [ht.rd]
    rfl
  have h₁ := ht.read (hw.size_inside i hi)
  unfold findTotalBody
  dsimp only
  rw [Exec.wp_bind, wp_readCapsule32, hsize, Exec.wp_ite]
  refine ⟨fun hzero => ⟨h₁, fun _ => ?_⟩, fun hne => ?_⟩
  · -- a hint of size zero in front of the end would have ended the walk before
    rcases Nat.lt_or_ge i n with hlt | hge
    · exact absurd hzero (hw.goes_on i hlt).1
    · rw [show n = i by omega]
      exact hzero
  have hsource : (t.rd P).rd32 (sourceOffsetAt (hintAt P s i)) =
      hintSourceOffset P s (hintAt P s i) := by
    rw [ht.rd]
    rfl
  have h₂ := h₁.read (hw.source_inside i hi hne)
  have h₃ := h₂.read (hw.size_inside i hi)
  rw [Exec.wp_bind, wp_readCapsule32, Exec.wp_bind, wp_readCapsule32, Exec.wp_ite]
  simp only [reads_rd]
  rw [hsize, hsource]
  refine ⟨fun _ => ⟨h₃, fun hc => by cases hc⟩, fun hle => ?_⟩
  rw [Exec.wp_bind, wp_readCapsule32]
  refine ⟨h₃.read (hw.size_inside i hi), i + 1, ?_, hintAt_succ i⟩
  rcases Nat.lt_or_ge i n with hlt | hge
  · exact hlt
  · have hin : i = n := by omega
    subst hin
    rcases hw.ends with hend | hend
    · exact absurd hend hne
    · exact absurd hend hle

theorem wp_challengeCapsule {t : SmmState}
    (hpcd : sizeofEfiCapsuleHeader ≤ P.pcdMaxSizeNonPopulateCapsule)
    (hw : P.capsuleSmmBuffer ≠ 0 → KnownGuid P s → WalkEnds P s n) (ht : ReadOn P s base t) :
    (challengeCapsule P).wp
      (fun status t => ReadOn P s base t ∧ (status.isError = false → KnownGuid P s ∧
        P.capsuleSmmBuffer ≠ 0 ∧ hintSize P s (hintAt P s n) = 0))
      (fun _ t => ReadOn P s base t) t := by
  unfold challengeCapsule
  rw [Exec.wp_ite]
  refine ⟨fun _ => ⟨ht, fun hc => by cases hc⟩, fun hbuf => ?_⟩
  have hrd := ht.rd
  have hguid : ReadOn P s base (t.reads [⟨P.capsuleSmmBuffer, 16⟩]) := by
    have hin : (⟨u32 (P.capsuleSmmBuffer + 0), 16⟩ : Range).Inside P.capsuleRange :=
      header_inside hpcd (by decide)
    have hlt := P.flash_base.2
    have hle := P.buffer_below_flash
    rw [Nat.add_zero, u32_of_lt (by omega)] at hin
    exact ht.reads hin
  have hsize : WordInside P (headerSizeAt P.capsuleSmmBuffer) := header_inside hpcd (by decide)
  have himage : WordInside P (capsuleImageSizeAt P.capsuleSmmBuffer) := header_inside hpcd (by decide)
  rw [Exec.wp_bind]
  unfold compareCapsuleGuid
  rw [Exec.wp_bind, Exec.wp_get, Exec.wp_bind, Exec.wp_modify, Exec.wp_pure, Exec.wp_ite]
  refine ⟨fun _ => ⟨hguid, fun hc => by cases hc⟩, fun hknown => ?_⟩
  have hknown : KnownGuid P s := by
    have hk := of_decide_eq_true (Bool.not_eq_false _ ▸ hknown)
    unfold KnownGuid
    rw [← hrd]
    exact hk
  have hhead := hguid.read hsize
  unfold findTotalCapsuleImageSize
  rw [Exec.wp_bind, if_neg hbuf, Exec.wp_bind, wp_readCapsule32]
  have htable : u32 (P.capsuleSmmBuffer + ((t.reads [⟨P.capsuleSmmBuffer, 16⟩]).rd P).rd32
      (headerSizeAt P.capsuleSmmBuffer)) = hintTable P s := by
    unfold hintTable
    rw [hguid.rd]
  have hloop := wp_findTotal (hw hbuf hknown) hhead P.fuel (sizeofUpdateHint * maxImagesPerCapsule)
  rw [← htable] at hloop
  refine Exec.wp_mono hloop ?_ (fun _ _ hr => hr)
  rintro ⟨status, total⟩ v ⟨hv, hend⟩
  dsimp only
  rw [Exec.wp_ite]
  refine ⟨fun herr => ⟨hv, fun hc => by rw [herr] at hc; cases hc⟩, fun hok => ?_⟩
  have h₂ := (hv.read himage).read hsize
  rw [Exec.wp_bind, wp_readCapsule32, Exec.wp_bind, wp_readCapsule32, Exec.wp_ite]
  refine ⟨fun _ => ⟨h₂, fun hc => by cases hc⟩, fun _ => ⟨h₂, fun _ => ?_⟩⟩
  exact ⟨hknown, hbuf, hend (Bool.eq_false_iff.mpr hok)⟩

/-! ## The parse -/

theorem TableSound.withReads (h : TableSound P s n) (log : List Range) :
    TableSound P (s.withReads log) n where
  walk := ⟨h.walk.size_inside, h.walk.source_inside, h.walk.goes_on, h.walk.ends⟩
  first_inside := h.first_inside
  no_wrap := h.no_wrap
  kept := by
    intro hz hint u e m l t hcall hhead
    have hcall' : Calls P s hint u e m := by
      cases hcall with
      | region lock size_ne target_ge below => exact .region lock size_ne target_ge below
      | image head passes visits mem image => exact .image head passes visits mem image
    exact h.kept hz hint u e m l t hcall' hhead

theorem Calls.target_bounds {hint e : Nat} {u m : SmmState} (h : Calls P s hint u e m) :
    flashBlockSize ≤ hintTargetAddr P u hint ∧
      hintTargetAddr P u hint + hintSize P u hint ≤ 0x100000000 := by
  cases h with
  | region _ _ hge hle => exact ⟨hge, hle⟩
  | image _ hpass _ _ _ =>
    have hflash := P.flash_base.1
    have hin := hpass.in_flash
    refine ⟨?_, hpass.below_4gb⟩
    show 4096 ≤ _
    omega

section Parse

variable (hclear : ∀ i, (s.stateMachinePrivateData i).isValid = false) (h : TableSound P s n)
  (hz : hintSize P s (hintAt P s n) = 0)

include h hz

theorem sameHint_of_memoryOf {w : SmmState} (hw : MemoryOf P s w) {i : Nat} (hi : i ≤ n) :
    SameHint P s w (hintAt P s i) := by
  rcases hw with hrd | ⟨hint, u, e, m, l, t, hcall, hhead, hrd⟩
  · unfold SameHint hintTargetAddr hintSize hintSourceOffset
    rw [hrd]
    exact ⟨rfl, rfl, rfl⟩
  · have hk := h.kept hz hint u e m l t hcall hhead i hi
    unfold SameHint hintTargetAddr hintSize hintSourceOffset at hk ⊢
    rw [hrd]
    exact hk

theorem lt_of_size {w : SmmState} (hw : MemoryOf P s w) {i : Nat} (hi : i ≤ n)
    (hsize : hintSize P w (hintAt P s i) ≠ 0) : i < n := by
  rcases Nat.lt_or_ge i n with hlt | hge
  · exact hlt
  · have hin : i = n := by omega
    subst hin
    obtain ⟨-, hsame, -⟩ := sameHint_of_memoryOf h hz hw hi
    exact absurd (hsame.trans hz) hsize

include hclear

theorem parseHead_hintAt {hint e : Nat} {u : SmmState} (hhead : ParseHead P s hint e u) :
    MemoryOf P s u ∧ ∃ i ≤ n, hint = hintAt P s i := by
  obtain ⟨log, hv⟩ := hhead
  have hinv : Counted P s log e u ∧ ∃ i ≤ n, hint = hintAt P s i := by
    refine Exec.Visits.invariant
      (fun l t => Counted P s log l.2 t ∧ ∃ i ≤ n, l.1 = hintAt P s i) ?_ hv ?_
    · rintro ⟨hint, e⟩ t hl ⟨hcount, i, hi, rfl⟩
      refine Exec.wp_mono (wp_parseBody ⟨log, hl⟩ hcount) ?_ (fun _ _ _ => trivial)
      intro r w hr
      cases r with
      | inr _ => trivial
      | inl l' =>
        obtain ⟨hcount', hnext, hsize⟩ := hr
        refine ⟨hcount', i + 1, lt_of_size h hz hcount.memory hi hsize, ?_⟩
        rw [hnext, hintAt_succ]
    · exact ⟨counted_first hclear log, 0, Nat.zero_le _, hintAt_zero.symm⟩
  exact ⟨hinv.1.memory, hinv.2⟩

omit hclear in
theorem target_inside {i : Nat} (hi : i < n) : WordInside P (targetAddrAt (hintAt P s i)) := by
  rcases Nat.eq_zero_or_pos i with rfl | hpos
  · exact h.first_inside hz hi
  obtain ⟨j, rfl⟩ : ∃ j, i = j + 1 := ⟨i - 1, by omega⟩
  have hbelow := P.buffer_below_flash
  have hf := P.flash_base.2
  have hal := P.flash_base_aligned
  obtain ⟨hs₁, hs₂⟩ := h.walk.source_inside j (by omega) (h.walk.goes_on j (by omega)).1
  obtain ⟨hz₁, hz₂⟩ := h.walk.size_inside (j + 1) (by omega)
  have hnext := hintAt_succ (P := P) (s := s) j
  have hal : P.spiFlashBaseAddress % 4096 = 0 := hal
  change P.capsuleSmmBuffer ≤ u32 (hintAt P s j + 8) at hs₁
  change u32 (hintAt P s j + 8) + 4 ≤ P.capsuleSmmBuffer + P.pcdMaxSizeNonPopulateCapsule at hs₂
  change P.capsuleSmmBuffer ≤ u32 (hintAt P s (j + 1) + 4) at hz₁
  change u32 (hintAt P s (j + 1) + 4) + 4 ≤
    P.capsuleSmmBuffer + P.pcdMaxSizeNonPopulateCapsule at hz₂
  change u32 (hintAt P s j + 16) = hintAt P s (j + 1) at hnext
  have hbase : P.capsuleSmmBuffer ≤ u32 (hintAt P s (j + 1)) ∧ u32 (hintAt P s (j + 1)) + 4 ≤
      P.capsuleSmmBuffer + P.pcdMaxSizeNonPopulateCapsule := by
    unfold u32 at *
    omega
  exact hbase

theorem parseReads_inside (hpcd : sizeofEfiCapsuleHeader ≤ P.pcdMaxSizeNonPopulateCapsule) {r : Range}
    (hr : ParseReads P s r) : r.Inside P.capsuleRange := by
  rcases hr with rfl | ⟨hint, e, u, hhead, hr⟩
  · exact header_inside hpcd (by decide)
  obtain ⟨hmem, i, hi, rfl⟩ := parseHead_hintAt hclear h hz hhead
  rcases hr with rfl | ⟨hsize, hr⟩
  · exact h.walk.size_inside i hi
  have hlt := lt_of_size h hz hmem hi hsize
  rcases hr with rfl | rfl
  · exact target_inside h hz hlt
  · exact h.walk.source_inside i hi (h.walk.goes_on i hlt).1

theorem records_inside {b : StateMachinePrivateData} (hb : Records P s b) :
    b.source.Inside P.capsuleRange := by
  obtain ⟨hint, u, e, m, l, t, hcall, hhead, hcont, rfl⟩ := hb
  obtain ⟨e₀, hph, hsize⟩ := hcall.head
  obtain ⟨hmem, i, hi, rfl⟩ := parseHead_hintAt hclear h hz hph
  have hlt := lt_of_size h hz hmem hi hsize
  obtain ⟨htu, hsu, -⟩ := sameHint_of_memoryOf h hz hmem hi
  have hstable : ∀ l t, InitHead P (hintAt P s i) e m l t →
      hintTargetAddr P t (hintAt P s i) = hintTargetAddr P s (hintAt P s i) ∧
        hintSize P t (hintAt P s i) = hintSize P s (hintAt P s i) := fun l t hl =>
    ⟨(h.kept hz _ u e m l t hcall hl i hi).1, (h.kept hz _ u e m l t hcall hl i hi).2.1⟩
  have hsource : hintSourceOffset P m (hintAt P s i) = hintSourceOffset P s (hintAt P s i) :=
    (h.kept hz _ u e m _ (m.withReads []) hcall ⟨[], .refl⟩ i hi).2.2
  obtain ⟨hge, hle⟩ := hcall.target_bounds
  rw [htu] at hge
  rw [htu, hsu] at hle
  obtain ⟨k, hsrc, -, hblock⟩ := initHead_block hge hle hstable hhead
  obtain ⟨-, hfit⟩ := hblock hcont
  rw [Nat.succ_mul] at hfit
  have hwrap := h.no_wrap hz i hlt (by omega)
  have hmax := (h.walk.goes_on i hlt).2
  rw [u32_of_lt hwrap] at hmax
  have hbelow := P.buffer_below_flash
  have htop := P.flash_base.2
  show P.capsuleSmmBuffer ≤ l.imageSourceAddr ∧ l.imageSourceAddr + flashBlockSize ≤
    P.capsuleSmmBuffer + P.pcdMaxSizeNonPopulateCapsule
  have hpos : 0 < flashBlockSize := by decide
  rw [hsrc, hsource, u32_of_lt (by omega)]
  exact ⟨by omega, by omega⟩

end Parse

/-- The challenge and the parse stay inside the buffer if the capsule is not one for this driver, or if
its hint table is sound. -/
theorem parse_in_bounds (hpcd : sizeofEfiCapsuleHeader ≤ P.pcdMaxSizeNonPopulateCapsule)
    (hclear : ∀ i, (s.stateMachinePrivateData i).isValid = false)
    (h : P.capsuleSmmBuffer = 0 ∨ ¬ KnownGuid P s ∨ ∃ n, TableSound P s n) : InBounds P s := by
  obtain ⟨n, hsound⟩ : ∃ n, P.capsuleSmmBuffer ≠ 0 → KnownGuid P s → TableSound P s n := by
    rcases h with hbuf | hguid | ⟨n, hsound⟩
    · exact ⟨0, fun hne => absurd hbuf hne⟩
    · exact ⟨0, fun _ hk => absurd hk hguid⟩
    · exact ⟨n, fun _ _ => hsound⟩
  have hwp : ∀ base, (challengeCapsule P).wp _ _ (s.withReads base) := fun base =>
    wp_challengeCapsule (n := n) hpcd (fun hne hk => (hsound hne hk).walk)
      (readOn_withReads s base)
  refine ⟨?_, fun v hv => ?_⟩
  · have hread := Exec.wp_state (Exec.wp_mono (hwp []) (fun _ _ hq => hq.1) (fun _ _ hq => hq))
    obtain ⟨log, hlog, hall⟩ := hread
    intro r hr
    unfold readsOf at hr
    rw [hlog] at hr
    exact hall r hr
  obtain ⟨⟨log, rfl, -⟩, hok⟩ := Exec.wp_of_ret (hwp s.capsuleReads) hv
  obtain ⟨hknown, hbuf, hz⟩ := hok rfl
  have hsound' := hsound hbuf hknown
  have hparse : ∀ base, ∃ k, ParseInv P (s.withReads base) base k
      (capsuleParse P (s.withReads base)).state := fun base =>
    Exec.wp_state (Exec.wp_mono (wp_capsuleParse (s := s.withReads base) hclear)
      (fun _ _ hq => hq.1) (fun _ _ hq => hq))
  refine ⟨fun r hr => ?_, fun i hi => ?_⟩
  · obtain ⟨k, hinv⟩ := hparse []
    obtain ⟨ranges, hranges, hall⟩ := hinv.reads
    have hmem : r ∈ ranges := by
      rw [List.nil_append] at hranges
      rw [← hranges]
      exact hr
    exact parseReads_inside (s := s.withReads []) hclear (hsound'.withReads []) hz hpcd (hall r hmem)
  · obtain ⟨k, hinv⟩ := hparse (s.capsuleReads ++ log)
    rcases Nat.lt_or_ge i k with hlt | hge
    · exact records_inside (s := s.withReads (s.capsuleReads ++ log)) hclear (hsound'.withReads _) hz
        (hinv.filled i hlt)
    · rw [hinv.rest i hge] at hi
      cases hi

theorem sameHint_of_updatesMac (hmac : UpdatesMac P s) {hint e : Nat} {u m t : SmmState}
    {l : InitLocals} (hcall : Calls P s hint u e m) (hhead : InitHead P hint e m l t) (a : Nat) :
    SameHint P s t a := by
  have ht := hhead.sameRd hmac (hcall.sameRd hmac).2
  unfold SameHint hintTargetAddr hintSize hintSourceOffset
  rw [ht]
  exact ⟨rfl, rfl, rfl⟩

theorem tableSound_rmuCapsule : TableSound roomyPlatform (parsingState rmuCapsule) 1 where
  walk := {
    size_inside := by unfold WordInside; decide +kernel
    source_inside := by unfold WordInside; decide +kernel
    goes_on := by decide +kernel
    ends := .inl (by decide +kernel) }
  first_inside := fun _ _ => by unfold WordInside; decide +kernel
  no_wrap := fun _ => by decide +kernel
  kept := fun _ _ _ _ _ _ _ hcall hhead _ _ =>
    sameHint_of_updatesMac (by unfold UpdatesMac; decide +kernel) hcall hhead _

theorem parse_in_bounds_rmu : InBounds roomyPlatform (parsingState rmuCapsule) :=
  parse_in_bounds (by decide) (fun _ => rfl) (.inr (.inr ⟨1, tableSound_rmuCapsule⟩))

/-- A capsule whose only hint has its source at the end of the address space, so that `SourceOffset` and
`Size` add up to zero. -/
def wrappingCapsule : Mem :=
  Mem.ofWords [(0x100000, 0xd400d1e4), (0x100004, 0x442ba314), (0x100008, 0x2ea9ed89),
    (0x10000C, 0xcb97814c), (0x100010, 0x20), (0x100014, 1), (0x100018, 0x1160),
    (0x100020, 0xFFF00000), (0x100024, 0x1000), (0x100028, 0xFFFFF000)]

theorem block_in_front_of_buffer_recorded :
    (challengeCapsule roomyPlatform (parsingState wrappingCapsule)).value? = some .success ∧
      (capsuleParse roomyPlatform (parsingState wrappingCapsule)).value? = some .success ∧
      ¬ InBounds roomyPlatform (parsingState wrappingCapsule) := by
  have hok : (challengeCapsule roomyPlatform (parsingState wrappingCapsule)).value? =
      some .success := by decide +kernel
  refine ⟨hok, by decide +kernel, fun h => ?_⟩
  obtain ⟨-, hblocks⟩ := h.parse _ (Outcome.eq_ret hok)
  exact absurd (hblocks 0 (by decide +kernel)) (by decide +kernel)

end Quark.SmiFlash
