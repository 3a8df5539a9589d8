import Quark.SmiFlash.Proofs.BoundsProofs

/-!
# The room in the block table

The parse is followed hint by hint with the number of blocks recorded so far. Each of the three loops either
records what `recordedAt` says or runs into the end of the table, so what becomes of the whole parse can be
read off the hint table.
-/

namespace Quark.SmiFlash

open Machine

variable {P : Platform} {s : SmmState} {n : Nat}

def KeptTable (P : Platform) (s : SmmState) (n : Nat) (t : SmmState) : Prop :=
  ∀ i ≤ n, SameHint P s t (hintAt P s i)

theorem KeptTable.reads {t : SmmState} (h : KeptTable P s n t) (ranges : List Range) :
    KeptTable P s n (t.reads ranges) := h

theorem KeptTable.of_initHead (hkeep : PatchesKeep P s n) {hint e : Nat} {u m t : SmmState} {l : InitLocals}
    (hcall : Calls P s hint u e m) (hhead : InitHead P hint e m l t) : KeptTable P s n t :=
  hkeep.kept hint u e m l t hcall hhead

structure Placed (P : Platform) (s : SmmState) (i : Nat) : Prop where
  target_ge : flashBlockSize ≤ targetOf P s i
  below_4gb : targetOf P s i + sizeOf P s i ≤ 0x100000000

theorem InFlash.placed {i : Nat} (h : InFlash P s i) : Placed P s i :=
  ⟨(Nat.le_trans (by decide) P.flash_base.1).trans h.1, h.2⟩

/-! ## The blocks of a hint -/

section Blocks

variable {i e : Nat} {u m : SmmState}

theorem continues_iff (hi : i ≤ n) (hplaced : Placed P s i) {t : SmmState} (ht : KeptTable P s n t)
    {l : InitLocals} {k : Nat} (hk : k ≤ blocksOf P s i)
    (hdest : l.imageDestinationAddr = u32 (targetOf P s i + k * flashBlockSize)) :
    Continues P (hintAt P s i) l t ↔ k < blocksOf P s i := by
  obtain ⟨htarget, hsize, -⟩ := ht i hi
  have hge := hplaced.target_ge
  have hle := hplaced.below_4gb
  have hlast : lastBlock P t (hintAt P s i) + flashBlockSize = targetOf P s i + sizeOf P s i := by
    have htarget' : flashBlockSize ≤ hintTargetAddr P t (hintAt P s i) := by
      rw [htarget]
      exact hge
    have hend : hintTargetAddr P t (hintAt P s i) + hintSize P t (hintAt P s i) ≤ 0x100000000 := by
      rw [htarget, hsize]
      exact hle
    have h := lastBlock_eq htarget' hend
    rwa [htarget, hsize] at h
  have hblocks : blocksOf P s i = sizeOf P s i / 4096 := rfl
  change l.imageDestinationAddr = u32 (targetOf P s i + k * 4096) at hdest
  change lastBlock P t (hintAt P s i) + 4096 = _ at hlast
  change 4096 ≤ _ at hge
  unfold Continues
  rw [hdest]
  unfold u32
  omega

def BlocksStop (P : Platform) (s : SmmState) (i e : Nat) (st : Stop) : Prop :=
  st = .outOfBounds ∧ P.maxBlockNumber < e + blocksOf P s i ∨
    st = .deadLoop ∧ P.debugAssertEnabled = true ∧ blocksOf P s i ≠ 0 ∧
      targetOf P s i < P.spiFlashBaseAddress

structure BlocksDone (P : Platform) (s : SmmState) (n i e : Nat) (w : SmmState) : Prop where
  room : e + blocksOf P s i ≤ P.maxBlockNumber
  in_flash : P.debugAssertEnabled = true → blocksOf P s i ≠ 0 → P.spiFlashBaseAddress ≤ targetOf P s i
  kept : KeptTable P s n w

theorem wp_initialise_blocks (hkeep : PatchesKeep P s n) (hi : i ≤ n) (hplaced : Placed P s i)
    (hcall : Calls P s (hintAt P s i) u e m) (he : e ≤ P.maxBlockNumber) (ranges : List Range) {N : Nat}
    (hN : blocksOf P s i < N) :
    (Exec.loop N (initialiseBody P P.capsuleSmmBuffer (hintAt P s i))
        (initLocals P m (hintAt P s i) e)).wp
      (fun r w => r = (e + blocksOf P s i, blocksOf P s i) ∧
        w.updateStatusPacket = m.updateStatusPacket ∧ BlocksDone P s n i e w)
      (fun st _ => BlocksStop P s i e st) (m.reads ranges) := by
  have hm : KeptTable P s n m :=
    (KeptTable.of_initHead hkeep hcall ⟨[], .refl⟩ : KeptTable P s n (m.withReads []))
  refine Exec.wp_loop_visits_total
    (fun l t => ∃ k ≤ blocksOf P s i, l.imageDestinationAddr = u32 (targetOf P s i + k * flashBlockSize) ∧
      l.stateElement = e + k ∧ l.numberOfBlocks = k ∧ e + k ≤ P.maxBlockNumber ∧
      (P.debugAssertEnabled = true → k ≠ 0 → P.spiFlashBaseAddress ≤ targetOf P s i) ∧
      t.updateStatusPacket = m.updateStatusPacket)
    (fun l _ => blocksOf P s i - l.numberOfBlocks) _ _ ?_ (lt_of_le_of_lt (Nat.sub_le _ _) hN) ?_
  · rintro l t hv ⟨k, hk, hdest, hel, hnum, hroom, hbase, hst⟩
    have hinit : InitHead P (hintAt P s i) e m l t := ⟨_, hv⟩
    have ht := KeptTable.of_initHead hkeep hcall hinit
    have hiff := continues_iff hi hplaced ht hk hdest
    unfold initialiseBody
    rw [Exec.wp_bind, wp_readCapsule32, Exec.wp_bind, wp_readCapsule32, reads_reads, Exec.wp_ite]
    refine ⟨fun hc => ?_, fun hc => ?_⟩
    · have hc : Continues P (hintAt P s i) l t := hc
      have hlt := hiff.mp hc
      have haddr : l.imageDestinationAddr = targetOf P s i + k * flashBlockSize := by
        have hbelow := hplaced.below_4gb
        have hblocks : blocksOf P s i = sizeOf P s i / 4096 := rfl
        rw [hdest]
        show u32 (targetOf P s i + k * 4096) = targetOf P s i + k * 4096
        exact u32_of_lt (by omega)
      rw [Exec.wp_bind, wp_assert]
      refine ⟨fun hok => ?_, fun ⟨ha, hne⟩ => .inr ⟨rfl, ha, by omega, ?_⟩⟩
      · have hrest : ∀ v : SmmState, v.updateStatusPacket = t.updateStatusPacket →
            (recordBlock P l.stateElement l.block).wp (fun _ w => (∃ k ≤ blocksOf P s i,
              u32 (l.imageDestinationAddr + flashBlockSize) = u32 (targetOf P s i + k * flashBlockSize) ∧
                l.stateElement + 1 = e + k ∧ l.numberOfBlocks + 1 = k ∧ e + k ≤ P.maxBlockNumber ∧
                (P.debugAssertEnabled = true → k ≠ 0 → P.spiFlashBaseAddress ≤ targetOf P s i) ∧
                w.updateStatusPacket = m.updateStatusPacket) ∧
              blocksOf P s i - (l.numberOfBlocks + 1) < blocksOf P s i - l.numberOfBlocks)
              (fun st _ => BlocksStop P s i e st) v := by
          intro v hvs
          unfold recordBlock
          rw [Exec.wp_ite]
          refine ⟨fun hfree => ⟨⟨k + 1, hlt, ?_, by omega, by omega, by omega, fun ha _ => ?_,
            hvs.trans hst⟩, by omega⟩, fun hfull => .inl ⟨rfl, by omega⟩⟩
          · rw [haddr, Nat.succ_mul, ← Nat.add_assoc]
          · -- the first block has been compared with the start of the flash
            by_cases hzero : k = 0
            · have hfirst := hok ha
              rwa [haddr, hzero, Nat.zero_mul, Nat.add_zero] at hfirst
            · exact hbase ha hzero
        rw [Exec.wp_bind, Exec.wp_when]
        refine ⟨fun hpdat => ?_, fun _ => ?_⟩
        · obtain ⟨t', hpatch⟩ := hkeep.returns _ _ _ _ _ _ hcall hinit hc hpdat
            ([⟨u32 (targetAddrAt (hintAt P s i)), 4⟩] ++ [⟨u32 (sizeAt (hintAt P s i)), 4⟩])
          have hmask := keeps_checkPlatformDataPolicy P l.imageSourceAddr P.capsuleSmmBuffer
            (t.reads ([⟨u32 (targetAddrAt (hintAt P s i)), 4⟩] ++
              [⟨u32 (sizeAt (hintAt P s i)), 4⟩]))
          rw [hpatch] at hmask
          refine Exec.wp_of_eq_ret hpatch ?_
          rw [Exec.wp_bind]
          exact hrest t' (congrArg SmmState.updateStatusPacket hmask :)
        · rw [Exec.wp_bind]
          exact hrest (t.reads _) rfl
      · by_contra hin
        exact hne (by omega)
    · have hk : k = blocksOf P s i := by
        have : ¬ k < blocksOf P s i := fun hlt => hc (hiff.mpr hlt)
        omega
      subst hk
      refine ⟨?_, hst, hroom, hbase, ht⟩
      rw [← hel, ← hnum]
  · have htarget := (hm i hi).1
    refine ⟨0, Nat.zero_le _, ?_, rfl, rfl, he, fun _ h => absurd rfl h, rfl⟩
    show hintTargetAddr P m (hintAt P s i) = _
    rw [htarget, Nat.zero_mul, Nat.add_zero]
    exact (u32_of_lt (Mem.rd32_lt _ _)).symm

/-- `TotalBlocks` and the place of the next block agree, and the hint table reads as in `s`. -/
structure Tallied (P : Platform) (s : SmmState) (n e : Nat) (w : SmmState) : Prop where
  totalBlocks_eq : w.updateStatusPacket.totalBlocks = e
  room : e ≤ P.maxBlockNumber
  kept : KeptTable P s n w

theorem Tallied.reads {w : SmmState} (h : Tallied P s n e w) (ranges : List Range) :
    Tallied P s n e (w.reads ranges) := ⟨h.totalBlocks_eq, h.room, h.kept⟩

def HintStop (P : Platform) (s : SmmState) (i e : Nat) (st : Stop) : Prop :=
  BlocksStop P s i e st ∨
    st = .deadLoop ∧ P.debugAssertEnabled = true ∧ targetOf P s i % flashBlockSize ≠ 0

theorem and_blockMask_eq_zero_iff (a : Nat) : a &&& (flashBlockSize - 1) = 0 ↔ a % flashBlockSize = 0 := by
  have h : a &&& (flashBlockSize - 1) = a % flashBlockSize := Nat.and_two_pow_sub_one_eq_mod a 12
  rw [h]

theorem wp_recordHint_blocks (hkeep : PatchesKeep P s n) (hi : i ≤ n) (hplaced : Placed P s i)
    (hcall : Calls P s (hintAt P s i) u e m) (hfuel : blocksOf P s i < P.fuel) (ranges : List Range)
    (h : Tallied P s n e m) :
    (recordHint P e P.capsuleSmmBuffer (hintAt P s i)).wp
      (fun e' w => e' = e + blocksOf P s i ∧ Tallied P s n e' w ∧
        (P.debugAssertEnabled = true → targetOf P s i % flashBlockSize = 0 ∧
          (blocksOf P s i ≠ 0 → P.spiFlashBaseAddress ≤ targetOf P s i)))
      (fun st _ => HintStop P s i e st) (m.reads ranges) := by
  have htarget : (m.rd P).rd32 (targetAddrAt (hintAt P s i)) = targetOf P s i := (h.kept i hi).1
  unfold recordHint initialiseStateMachineData
  rw [Exec.wp_bind, Exec.wp_bind, wp_readCapsule32, Exec.wp_bind, wp_readCapsule32, Exec.wp_bind,
    wp_assert, reads_reads, reads_reads]
  simp only [reads_rd]
  rw [htarget, and_blockMask_eq_zero_iff]
  refine ⟨fun haligned => ?_, fun ⟨ha, hne⟩ => .inr ⟨rfl, ha, hne⟩⟩
  have hwp := wp_initialise_blocks hkeep hi hplaced hcall h.room
    (ranges ++ [⟨u32 (sourceOffsetAt (hintAt P s i)), 4⟩] ++ [⟨u32 (targetAddrAt (hintAt P s i)), 4⟩]) hfuel
  unfold initLocals hintTargetAddr at hwp
  rw [htarget] at hwp
  refine Exec.wp_mono hwp ?_ (fun st _ hstop => .inl hstop)
  rintro ⟨e', k⟩ w ⟨hr, hstatus, hdone⟩
  injection hr with he' hk
  subst he' hk
  refine ⟨rfl, ⟨?_, hdone.room, hdone.kept⟩, fun ha => ⟨haligned ha, hdone.in_flash ha⟩⟩
  have hmax := maxBlockNumber_lt P
  have hroom := hdone.room
  show u32 (w.updateStatusPacket.totalBlocks + blocksOf P s i) = _
  rw [hstatus, h.totalBlocks_eq]
  exact u32_of_lt (by omega)

end Blocks

/-! ## The images for a hint -/

section Images

variable {i : Nat}

theorem recordedAt_of_inFlash (h : InFlash P s i) :
    recordedAt P s i = (takers P s i).length * blocksOf P s i := if_pos h

theorem takers_of_append {before images : List SpiImagePresent} (h : s.spiImageList = before ++ images)
    (hnone : ∀ e ∈ before, e.refuses (targetOf P s i) (sizeOf P s i) = false) :
    takers P s i = before.filter (fun e => e.takes (targetOf P s i) (sizeOf P s i)) ++
      (images.takeWhile fun e => !e.refuses (targetOf P s i) (sizeOf P s i)).filter fun e =>
        e.takes (targetOf P s i) (sizeOf P s i) := by
  unfold takers
  rw [h, List.takeWhile_append_of_pos fun e he => by rw [hnone e he]; rfl, List.filter_append]

def AlignedAt (P : Platform) (s : SmmState) (i : Nat) : Prop :=
  P.debugAssertEnabled = true → InFlash P s i → takers P s i ≠ [] → targetOf P s i % flashBlockSize = 0

def ParseStop (P : Platform) (s : SmmState) (i e : Nat) (st : Stop) : Prop :=
  st = .outOfBounds ∧ P.maxBlockNumber < e + recordedAt P s i ∨ st = .deadLoop ∧ ¬ AlignedAt P s i

structure HintDone (P : Platform) (s : SmmState) (i e : Nat) : Prop where
  room : e + recordedAt P s i ≤ P.maxBlockNumber
  aligned : AlignedAt P s i

/-- The loop over the image list has done with `before`, none of which refuses the hint. -/
structure PastImages (P : Platform) (s : SmmState) (n i e₀ : Nat) (before : List SpiImagePresent)
    (el : Nat) (t : SmmState) : Prop where
  accepted : ∀ e ∈ before, e.refuses (targetOf P s i) (sizeOf P s i) = false
  element_eq : el =
    e₀ + (before.filter fun e => e.takes (targetOf P s i) (sizeOf P s i)).length * blocksOf P s i
  aligned : P.debugAssertEnabled = true →
    before.filter (fun e => e.takes (targetOf P s i) (sizeOf P s i)) ≠ [] →
    targetOf P s i % flashBlockSize = 0
  tallied : Tallied P s n el t

section Past

variable {e₀ el : Nat} {before es : List SpiImagePresent} {e : SpiImagePresent} {t w : SmmState}

theorem PastImages.reads (h : PastImages P s n i e₀ before el t) (ranges : List Range) :
    PastImages P s n i e₀ before el (t.reads ranges) :=
  ⟨h.accepted, h.element_eq, h.aligned, h.tallied.reads ranges⟩

theorem PastImages.skip (h : PastImages P s n i e₀ before el t)
    (hcover : e.covers (targetOf P s i) (sizeOf P s i) = false) :
    PastImages P s n i e₀ (before ++ [e]) el t := by
  have htake : ¬ e.takes (targetOf P s i) (sizeOf P s i) = true := by
    unfold SpiImagePresent.takes
    rw [hcover]
    exact Bool.false_ne_true
  have hfilter : (before ++ [e]).filter (fun e => e.takes (targetOf P s i) (sizeOf P s i)) =
      before.filter fun e => e.takes (targetOf P s i) (sizeOf P s i) := by
    rw [List.filter_append, List.filter_cons, if_neg htake, List.filter_nil, List.append_nil]
  refine ⟨fun e' he' => ?_, by rw [hfilter]; exact h.element_eq, by rw [hfilter]; exact h.aligned,
    h.tallied⟩
  rcases List.mem_append.mp he' with he' | he'
  · exact h.accepted e' he'
  · rw [List.mem_singleton.mp he']
    unfold SpiImagePresent.refuses
    rw [hcover, Bool.false_and]

theorem PastImages.take (h : PastImages P s n i e₀ before el t)
    (htake : e.takes (targetOf P s i) (sizeOf P s i) = true)
    (haligned : P.debugAssertEnabled = true → targetOf P s i % flashBlockSize = 0)
    (hw : Tallied P s n (el + blocksOf P s i) w) :
    PastImages P s n i e₀ (before ++ [e]) (el + blocksOf P s i) w := by
  have hfilter : (before ++ [e]).filter (fun e => e.takes (targetOf P s i) (sizeOf P s i)) =
      before.filter (fun e => e.takes (targetOf P s i) (sizeOf P s i)) ++ [e] := by
    rw [List.filter_append, List.filter_cons, if_pos htake, List.filter_nil]
  refine ⟨fun e' he' => ?_, ?_, fun ha _ => haligned ha, hw⟩
  · rcases List.mem_append.mp he' with he' | he'
    · exact h.accepted e' he'
    · rw [List.mem_singleton.mp he']
      unfold SpiImagePresent.takes at htake
      unfold SpiImagePresent.refuses
      rw [Bool.and_eq_true] at htake
      rw [htake.1, htake.2]
      rfl
  · rw [hfilter, List.length_append, List.length_singleton, Nat.succ_mul, h.element_eq, Nat.add_assoc]

theorem PastImages.add_le (h : PastImages P s n i e₀ before el t) (hflash : InFlash P s i)
    (hsplit : s.spiImageList = before ++ e :: es)
    (htake : e.takes (targetOf P s i) (sizeOf P s i) = true) :
    takers P s i ≠ [] ∧ el + blocksOf P s i ≤ e₀ + recordedAt P s i := by
  have hrefuse : e.refuses (targetOf P s i) (sizeOf P s i) = false := by
    unfold SpiImagePresent.takes at htake
    unfold SpiImagePresent.refuses
    rw [Bool.and_eq_true] at htake
    rw [htake.1, htake.2]
    rfl
  have htakers := takers_of_append hsplit h.accepted
  rw [List.takeWhile_cons_of_pos (by rw [hrefuse]; rfl), List.filter_cons, if_pos htake] at htakers
  refine ⟨?_, ?_⟩
  · rw [htakers]
    exact List.append_ne_nil_of_right_ne_nil _ (List.cons_ne_nil _ _)
  · rw [recordedAt_of_inFlash hflash, htakers, h.element_eq, List.length_append, List.length_cons,
      Nat.add_assoc, ← Nat.succ_mul]
    exact Nat.add_le_add_left (Nat.mul_le_mul_right _ (by omega)) _

theorem PastImages.all (h : PastImages P s n i e₀ s.spiImageList el t) (hflash : InFlash P s i) :
    HintDone P s i e₀ ∧ ¬ Refused P s i ∧ el = e₀ + recordedAt P s i := by
  have htakers := takers_of_append (List.append_nil _).symm h.accepted
  rw [List.takeWhile_nil, List.filter_nil, List.append_nil] at htakers
  have heq : el = e₀ + recordedAt P s i := by
    rw [recordedAt_of_inFlash hflash, htakers]
    exact h.element_eq
  refine ⟨⟨heq ▸ h.tallied.room, ?_⟩, ?_, heq⟩
  · unfold AlignedAt
    rw [htakers]
    exact fun ha _ => h.aligned ha
  · rintro (hout | ⟨e, he, hrefuse⟩)
    · exact hout hflash
    · rw [h.accepted e he] at hrefuse
      cases hrefuse

theorem PastImages.refuse (h : PastImages P s n i e₀ before el t) (hflash : InFlash P s i)
    (hsplit : s.spiImageList = before ++ e :: es)
    (hrefuse : e.refuses (targetOf P s i) (sizeOf P s i) = true) :
    HintDone P s i e₀ ∧ Refused P s i := by
  have htakers := takers_of_append hsplit h.accepted
  rw [List.takeWhile_cons_of_neg (by rw [hrefuse]; exact Bool.false_ne_true), List.filter_nil,
    List.append_nil] at htakers
  have hmem : e ∈ s.spiImageList := by
    rw [hsplit]
    exact List.mem_append_right _ List.mem_cons_self
  refine ⟨⟨?_, ?_⟩, .inr ⟨e, hmem, hrefuse⟩⟩
  · rw [recordedAt_of_inFlash hflash, htakers, ← h.element_eq]
    exact h.tallied.room
  · unfold AlignedAt
    rw [htakers]
    exact fun ha _ => h.aligned ha

end Past

theorem wp_matchImages_blocks {e₀ : Nat} {u : SmmState} (hkeep : PatchesKeep P s n) (hi : i ≤ n)
    (hflash : InFlash P s i) (hhead : ParseHead P s (hintAt P s i) e₀ u)
    (hpass : Passes P u (hintAt P s i)) (himages : u.spiImageList = s.spiImageList)
    (hfuel : blocksOf P s i < P.fuel) (ranges : List Range) (h : Tallied P s n e₀ u) :
    (matchImages P P.capsuleSmmBuffer (hintAt P s i) u.spiImageList e₀).wp
      (fun r w => HintDone P s i e₀ ∧
        (r = none → Refused P s i ∧ w.updateStatusPacket.totalBlocks ≤ P.maxBlockNumber) ∧
        ∀ e, r = some e → ¬ Refused P s i ∧ e = e₀ + recordedAt P s i ∧ Tallied P s n e w)
      (fun st _ => ParseStop P s i e₀ st) (u.reads ranges) := by
  refine Exec.wp_loop_visits_total (fun l t => ∃ before, s.spiImageList = before ++ l.1 ∧
    PastImages P s n i e₀ before l.2 t) (fun l _ => l.1.length) _ _ ?_ (Nat.lt_succ_self _) ?_
  case refine_2 =>
    exact ⟨[], himages.symm, fun _ he => absurd he List.not_mem_nil, by simp,
      fun _ hne => absurd rfl hne, h.reads ranges⟩
  rintro ⟨images, el⟩ t hv ⟨before, hsplit, ht⟩
  cases images with
  | nil =>
    rw [List.append_nil] at hsplit
    rw [← hsplit] at ht
    obtain ⟨hdone, haccept, heq⟩ := ht.all hflash
    refine ⟨hdone, nofun, fun e he => ?_⟩
    injection he with he
    subst he
    exact ⟨haccept, heq, ht.tallied⟩
  | cons e es =>
    obtain ⟨htarget, hsize, -⟩ := ht.tallied.kept i hi
    change (t.rd P).rd32 (targetAddrAt (hintAt P s i)) = targetOf P s i at htarget
    change (t.rd P).rd32 (sizeAt (hintAt P s i)) = sizeOf P s i at hsize
    have hsplit' : s.spiImageList = (before ++ [e]) ++ es := by rw [hsplit, List.append_assoc]; rfl
    have hskip : e.covers (targetOf P s i) (sizeOf P s i) = false → ∀ ranges',
        (∃ before, s.spiImageList = before ++ es ∧ PastImages P s n i e₀ before el (t.reads ranges')) ∧
          es.length < (e :: es).length := fun hcover ranges' =>
      ⟨⟨_, hsplit', (ht.skip hcover).reads ranges'⟩, Nat.lt_succ_self _⟩
    unfold matchBody
    dsimp only
    rw [Exec.wp_ite]
    refine ⟨fun hsmall => ?_, fun hlarge => ?_⟩
    · have h' := hskip (by simp [SpiImagePresent.covers, Nat.not_le.mpr hsmall]) []
      rw [reads_nil] at h'
      exact h'
    rw [Exec.wp_bind, wp_readCapsule32, htarget, Exec.wp_ite]
    refine ⟨fun hbelow => hskip (by simp [SpiImagePresent.covers, Nat.not_le.mpr hbelow]) _,
      fun hbase => ?_⟩
    rw [Exec.wp_bind, wp_readCapsule32, Exec.wp_bind, wp_readCapsule32, reads_reads, reads_reads,
      Exec.wp_ite]
    simp only [reads_rd]
    rw [htarget, hsize]
    refine ⟨fun hc => ?_, fun hc => hskip ?_ _⟩
    · have hcover : e.covers (targetOf P s i) (sizeOf P s i) = true := by
        unfold SpiImagePresent.covers
        exact decide_eq_true ⟨not_lt.mp hlarge, not_lt.mp hbase, hc.1, hc.2⟩
      have hmem : e ∈ u.spiImageList := by
        rw [himages, hsplit]
        exact List.mem_append_right _ List.mem_cons_self
      have hcall : Calls P s (hintAt P s i) u el t := by
        refine .image hhead hpass hv hmem ⟨?_, ?_, hc.2⟩
        · unfold hintTargetAddr
          rw [htarget]
          exact not_lt.mp hbase
        · unfold hintTargetAddr hintSize
          rw [htarget, hsize]
          exact hc.1
      -- an image that takes the hint has its blocks recorded
      have hrecord : e.takes (targetOf P s i) (sizeOf P s i) = true → ∀ ranges',
          (recordHint P el P.capsuleSmmBuffer (hintAt P s i)).wp
            (fun el' w => (∃ before, s.spiImageList = before ++ es ∧
              PastImages P s n i e₀ before el' w) ∧ es.length < (e :: es).length)
            (fun st _ => ParseStop P s i e₀ st) (t.reads ranges') := by
        intro htake ranges'
        obtain ⟨htakers, hadd⟩ := ht.add_le hflash hsplit htake
        refine Exec.wp_mono (wp_recordHint_blocks hkeep hi hflash.placed hcall hfuel ranges' ht.tallied)
          ?_ ?_
        · rintro el' w ⟨rfl, hw, haligned⟩
          exact ⟨⟨_, hsplit', ht.take htake (fun ha => (haligned ha).1) hw⟩, Nat.lt_succ_self _⟩
        · rintro st w ((⟨rfl, hfull⟩ | ⟨-, -, -, hout⟩) | ⟨rfl, ha, hne⟩)
          · exact .inl ⟨rfl, by omega⟩
          · exact absurd hflash.1 (by omega)
          · exact .inr ⟨rfl, fun h => hne (h ha hflash htakers)⟩
      rw [Exec.wp_ite]
      refine ⟨fun hany => ?_, fun hany => ?_⟩
      · rw [Exec.wp_bind]
        exact hrecord (by unfold SpiImagePresent.takes; rw [hcover, hany]; rfl) _
      · rw [Exec.wp_bind, wp_readCapsule32, reads_reads, Exec.wp_ite]
        simp only [reads_rd]
        rw [htarget]
        refine ⟨fun hat => ?_, fun hat => ?_⟩
        · rw [Exec.wp_bind]
          exact hrecord (by
            unfold SpiImagePresent.takes
            rw [hcover, decide_eq_true hat, Bool.or_true]
            rfl) _
        · have hrefuse : e.refuses (targetOf P s i) (sizeOf P s i) = true := by
            unfold SpiImagePresent.refuses
            simp [hcover, hat, eq_false_of_ne_true hany]
          obtain ⟨hdone, hrefused⟩ := ht.refuse hflash hsplit hrefuse
          refine ⟨hdone, fun _ => ⟨hrefused, ?_⟩, nofun⟩
          exact (ht.tallied.totalBlocks_eq.trans_le ht.tallied.room)
    · simp only [SpiImagePresent.covers, decide_eq_false_iff_not]
      exact fun hall => hc hall.2.2

end Images

/-! ## The parse -/

theorem recordedBefore_succ (k : Nat) :
    recordedBefore P s (k + 1) = recordedBefore P s k + recordedAt P s k := by
  unfold recordedBefore
  rw [List.range_succ, List.map_append, List.sum_append, List.map_singleton, List.sum_singleton]

def PassedHints (P : Platform) (s : SmmState) (k : Nat) : Prop :=
  ∀ i < k, ¬ Refused P s i ∧ recordedBefore P s i < P.maxBlockNumber ∧
    HintDone P s i (recordedBefore P s i)

/-- How the loop over the hints ends, and with how many blocks. -/
inductive ParseEnds (P : Platform) (s : SmmState) (n : Nat) : EfiStatus → Nat → Prop where
  | done {k total : Nat} (le : k ≤ n) (passed : PassedHints P s k)
    (ended : k = n ∨ P.maxBlockNumber ≤ recordedBefore P s k) (total_eq : total = recordedBefore P s k) :
    ParseEnds P s n .success total
  | refused {k total : Nat} (lt : k < n) (passed : PassedHints P s k)
    (room : recordedBefore P s k < P.maxBlockNumber) (refused : Refused P s k)
    (done : HintDone P s k (recordedBefore P s k)) (le : total ≤ P.maxBlockNumber) :
    ParseEnds P s n .invalidParameter total

def ParseHalts (P : Platform) (s : SmmState) (n : Nat) (st : Stop) : Prop :=
  ∃ k < n, PassedHints P s k ∧ recordedBefore P s k < P.maxBlockNumber ∧
    ParseStop P s k (recordedBefore P s k) st

/-- The loop comes to hint `k`. -/
structure AtHint (P : Platform) (s : SmmState) (n k : Nat) (l : Nat × Nat) (u : SmmState) : Prop where
  le : k ≤ n
  locals_eq : l = (hintAt P s k, recordedBefore P s k)
  passed : PassedHints P s k
  tallied : Tallied P s n (recordedBefore P s k) u

theorem AtHint.next {k : Nat} {l : Nat × Nat} {u w : SmmState} (h : AtHint P s n k l u) (hlt : k < n)
    (hroom : recordedBefore P s k < P.maxBlockNumber) (haccept : ¬ Refused P s k)
    (hdone : HintDone P s k (recordedBefore P s k))
    (hw : Tallied P s n (recordedBefore P s k + recordedAt P s k) w) :
    AtHint P s n (k + 1) (hintAt P s (k + 1), recordedBefore P s k + recordedAt P s k) w := by
  rw [← recordedBefore_succ] at hw ⊢
  refine ⟨hlt, rfl, fun i hi => ?_, hw⟩
  rcases Nat.lt_succ_iff_lt_or_eq.mp hi with hi | rfl
  · exact h.passed i hi
  · exact ⟨haccept, hroom, hdone⟩

section Loop

variable (htable : TableOf P s n) (hkeep : PatchesKeep P s n)
  (hfuel : ∀ i < n, blocksOf P s i < P.fuel)

include htable hkeep hfuel

theorem wp_parseBody_blocks {k : Nat} {l : Nat × Nat} {u : SmmState} (hhead : ParseHead P s l.1 l.2 u)
    (h : AtHint P s n k l u) :
    (parseBody P P.capsuleSmmBuffer l).wp
      (fun r w => (∀ l', r = .inl l' → k < n ∧ AtHint P s n (k + 1) l' w) ∧
        ∀ status, r = .inr status → ParseEnds P s n status w.updateStatusPacket.totalBlocks)
      (fun st _ => ParseHalts P s n st) u := by
  obtain ⟨hle, rfl, hpassed, htallied⟩ := h
  have himages : u.spiImageList = s.spiImageList :=
    (congrArg SmmState.spiImageList hhead.mask :)
  obtain ⟨htarget, hsize, -⟩ := htallied.kept k hle
  have htarget' : (u.rd P).rd32 (targetAddrAt (hintAt P s k)) = targetOf P s k := htarget
  have hsize' : (u.rd P).rd32 (sizeAt (hintAt P s k)) = sizeOf P s k := hsize
  have hlt : sizeOf P s k ≠ 0 → k < n := by
    intro hne
    rcases Nat.lt_or_eq_of_le hle with hlt | rfl
    · exact hlt
    · exact absurd htable.ends hne
  have hout : ∀ w : SmmState, k < n → recordedBefore P s k < P.maxBlockNumber → ¬ InFlash P s k →
      w.updateStatusPacket = u.updateStatusPacket →
      ParseEnds P s n .invalidParameter w.updateStatusPacket.totalBlocks := by
    intro w hk hroom hflash hw
    have hzero : recordedAt P s k = 0 := if_neg hflash
    refine .refused hk hpassed hroom (.inl hflash) ⟨by omega, fun _ hin => absurd hin hflash⟩ ?_
    rw [hw, htallied.totalBlocks_eq]
    exact hroom.le
  unfold parseBody
  dsimp only
  rw [Exec.wp_bind, wp_readCapsule32, hsize', Exec.wp_bind, Exec.wp_get, Exec.wp_ite]
  refine ⟨fun hc => ?_, fun hc => ⟨nofun, fun status hstatus => ?_⟩⟩
  · obtain ⟨hne, hroom⟩ := hc
    change u.updateStatusPacket.totalBlocks < _ at hroom
    have hroom' : recordedBefore P s k < P.maxBlockNumber := by rwa [htallied.totalBlocks_eq] at hroom
    have hk := hlt hne
    rw [Exec.wp_bind, wp_readCapsule32, reads_reads, Exec.wp_ite]
    simp only [reads_rd]
    rw [htarget']
    refine ⟨fun hbelow => ⟨nofun, fun status hstatus => ?_⟩, fun hbase => ?_⟩
    · injection hstatus with hstatus
      subst hstatus
      exact hout (u.reads _) hk hroom' (fun hin => absurd hin.1 (by omega)) rfl
    rw [Exec.wp_bind, wp_readCapsule32, Exec.wp_bind, wp_readCapsule32, reads_reads, reads_reads,
      Exec.wp_ite]
    simp only [reads_rd]
    rw [htarget', hsize']
    refine ⟨fun habove => ⟨nofun, fun status hstatus => ?_⟩, fun hend => ?_⟩
    · injection hstatus with hstatus
      subst hstatus
      exact hout (u.reads _) hk hroom' (fun hin => absurd hin.2 (by omega)) rfl
    have hflash : InFlash P s k := ⟨not_lt.mp hbase, not_lt.mp hend⟩
    have hpass : Passes P u (hintAt P s k) := by
      refine ⟨?_, hroom, ?_, ?_⟩
      · rw [hsize]
        exact hne
      · rw [htarget]
        exact hflash.1
      · rw [htarget, hsize]
        exact hflash.2
    rw [Exec.wp_bind]
    refine Exec.wp_mono (wp_matchImages_blocks hkeep hle hflash hhead hpass himages (hfuel k hk) _ htallied)
      ?_ (fun st _ hstop => ⟨k, hk, hpassed, hroom', hstop⟩)
    rintro r w ⟨hdone, hrefused, hgo⟩
    cases r with
    | none =>
      refine ⟨nofun, fun status hstatus => ?_⟩
      injection hstatus with hstatus
      subst hstatus
      obtain ⟨hrefused, htotal⟩ := hrefused rfl
      exact .refused hk hpassed hroom' hrefused hdone htotal
    | some e =>
      refine ⟨fun l' hl' => ⟨hk, ?_⟩, nofun⟩
      injection hl' with hl'
      subst hl'
      obtain ⟨haccept, rfl, hw⟩ := hgo e rfl
      rw [hintAt_succ]
      exact AtHint.next ⟨hle, rfl, hpassed, htallied⟩ hk hroom' haccept hdone hw
  · injection hstatus with hstatus
    subst hstatus
    have hover : k = n ∨ P.maxBlockNumber ≤ recordedBefore P s k := by
      by_cases hk : k = n
      · exact .inl hk
      · have hne : sizeOf P s k ≠ 0 := htable.sized k (by omega)
        have hfull : ¬ u.updateStatusPacket.totalBlocks < P.maxBlockNumber := fun hlt => hc ⟨hne, hlt⟩
        rw [htallied.totalBlocks_eq] at hfull
        exact .inr (not_lt.mp hfull)
    exact .done hle hpassed hover htallied.totalBlocks_eq

theorem wp_parseLoop_blocks (hn : n < P.fuel) (log : List Range) :
    (Exec.loop P.fuel (parseBody P P.capsuleSmmBuffer) (hintTable P s, 0)).wp
      (fun status w => ParseEnds P s n status w.updateStatusPacket.totalBlocks)
      (fun st _ => ParseHalts P s n st) ((s.parseStart P).withReads log) := by
  have hstart : AtHint P s n 0 (hintTable P s, 0) ((s.parseStart P).withReads log) :=
    ⟨Nat.zero_le _, by rw [hintAt_zero]; rfl, fun i hi => absurd hi (Nat.not_lt_zero i),
      rfl, Nat.zero_le _, fun i _ => ⟨rfl, rfl, rfl⟩⟩
  refine Exec.wp_loop_ranked (fun r l u => ∃ k, r = n - k ∧ AtHint P s n k l u) _ _ ?_
    (lt_of_le_of_lt (Nat.sub_le n 0) hn) ⟨0, rfl, hstart⟩
  rintro r l u hv ⟨k, rfl, hk⟩
  refine Exec.wp_mono (wp_parseBody_blocks htable hkeep hfuel ⟨log, hv⟩ hk) ?_ (fun _ _ h => h)
  rintro (l' | status) w ⟨hgo, hend⟩
  · obtain ⟨hlt, hnext⟩ := hgo l' rfl
    exact ⟨n - (k + 1), by omega, k + 1, rfl, hnext⟩
  · exact hend status rfl

end Loop

/-! ## Running sums -/

section Sums

theorem recordedBefore_mono {k k' : Nat} (h : k ≤ k') : recordedBefore P s k ≤ recordedBefore P s k' := by
  induction h with
  | refl => exact Nat.le_refl _
  | step _ ih => exact ih.trans (by rw [recordedBefore_succ]; exact Nat.le_add_right _ _)

theorem PassedHints.recordedBefore_le {k : Nat} (h : PassedHints P s k) :
    recordedBefore P s k ≤ P.maxBlockNumber := by
  cases k with
  | zero => exact Nat.zero_le _
  | succ k =>
    rw [recordedBefore_succ]
    exact (h k (Nat.lt_succ_self k)).2.2.room

theorem PassedHints.accepted {k : Nat} (h : PassedHints P s k) : ∀ i < k, ¬ Refused P s i :=
  fun i hi => (h i hi).1

theorem neededBlocks_eq (hregion : ¬ RegionUpdate P s) (haccept : ∀ i < n, ¬ Refused P s i) :
    neededBlocks P s n = recordedBefore P s n := by
  unfold neededBlocks recordedBefore
  rw [if_neg hregion]
  refine congrArg List.sum (List.map_congr_left fun i hi => ?_)
  have hi := haccept i (List.mem_range.mp hi)
  obtain ⟨hflash, hnone⟩ := not_or.mp hi
  have hnone : ∀ e ∈ s.spiImageList, e.refuses (targetOf P s i) (sizeOf P s i) = false := fun e he =>
    eq_false_of_ne_true fun hrefuse => hnone ⟨e, he, hrefuse⟩
  have htakers := takers_of_append (List.append_nil _).symm hnone
  rw [List.takeWhile_nil, List.filter_nil, List.append_nil] at htakers
  rw [recordedAt_of_inFlash (not_not.mp hflash), htakers, List.countP_eq_length_filter]

theorem hintsFit_of_ends {status : EfiStatus} {total : Nat} (hends : ParseEnds P s n status total)
    (hassert : status = .success → P.debugAssertEnabled = true → total < P.maxBlockNumber)
    (hneed : P.maxBlockNumber < neededBlocks P s n → status.isError = true) : HintsFit P s n := by
  -- the parse is done with every hint that it reaches
  have hdone : ∀ k, Reached P s n k → HintDone P s k (recordedBefore P s k) := by
    intro k hk
    cases hends with
    | @done stop total le passed ended total_eq =>
      have hlt : k < stop := by
        by_contra hge
        rcases ended with rfl | hfull
        · exact hge hk.lt
        · have hmono := recordedBefore_mono (P := P) (s := s) (not_lt.mp hge)
          have hroom := hk.room
          omega
      exact (passed k hlt).2.2
    | @refused stop total lt passed room refused done le =>
      rcases Nat.lt_trichotomy k stop with hlt | rfl | hgt
      · exact (passed k hlt).2.2
      · exact done
      · exact absurd refused (hk.accepted stop hgt)
  refine ⟨fun k hk => ?_, fun ha k hk => (hdone k hk).aligned ha, fun k hk haccept hfull => ?_⟩
  · rw [recordedBefore_succ]
    exact (hdone k hk).room
  · cases hends with
    | @done stop total le passed ended total_eq =>
      have hle := passed.recordedBefore_le
      have hge : P.maxBlockNumber ≤ recordedBefore P s stop := by
        rcases ended with rfl | hover
        · rw [← hfull]
          exact recordedBefore_mono hk
        · exact hover
      refine ⟨eq_false_of_ne_true fun ha => ?_, ?_⟩
      · have := hassert rfl ha
        omega
      · by_contra hmore
        cases hneed (not_le.mp hmore)
    | @refused stop total lt passed room refused done le =>
      rcases Nat.lt_or_ge stop k with hlt | hge
      · exact absurd refused (haccept stop hlt)
      · have hmono := recordedBefore_mono (P := P) (s := s) hge
        omega

theorem HintsFit.not_halts (h : HintsFit P s n) {st : Stop} : ¬ ParseHalts P s n st := by
  rintro ⟨k, hk, hpassed, hroom, hstop⟩
  have hreached : Reached P s n k := ⟨hk, hpassed.accepted, hroom⟩
  rcases hstop with ⟨-, hfull⟩ | ⟨-, hunaligned⟩
  · have := h.fits k hreached
    rw [recordedBefore_succ] at this
    omega
  · exact hunaligned fun ha => h.aligned ha k hreached

theorem HintsFit.of_done {k : Nat} (h : HintsFit P s n) (hregion : ¬ RegionUpdate P s) (hk : k ≤ n)
    (hpassed : PassedHints P s k) (hover : k = n ∨ P.maxBlockNumber ≤ recordedBefore P s k) :
    (P.debugAssertEnabled = true → recordedBefore P s k < P.maxBlockNumber) ∧
      neededBlocks P s n ≤ P.maxBlockNumber := by
  have hle := hpassed.recordedBefore_le
  rcases Nat.lt_or_eq_of_le hle with hlt | heq
  · refine ⟨fun _ => hlt, ?_⟩
    rcases hover with rfl | hfull
    · rw [neededBlocks_eq hregion hpassed.accepted]
      exact hle
    · omega
  · obtain ⟨hoff, hneed⟩ := h.full k hk hpassed.accepted heq
    exact ⟨fun ha => absurd ha (by rw [hoff]; exact Bool.false_ne_true), hneed⟩

end Sums

/-! ## The whole parse -/

theorem isRegionUpdate_ret (hint size target : Nat) (u : SmmState) :
    ∃ log, isRegionUpdate P hint size target u = .ret
      (decide (P.quarkCheckSecureLockBoot = false ∧ (u.rd P).rd32 (sizeAt hint) = size ∧
        (u.rd P).rd32 (targetAddrAt hint) = target)) (u.withReads log) := by
  have hwp : (isRegionUpdate P hint size target).wp (fun b w => b = decide
      (P.quarkCheckSecureLockBoot = false ∧ (u.rd P).rd32 (sizeAt hint) = size ∧
        (u.rd P).rd32 (targetAddrAt hint) = target) ∧ ∃ log, w = u.withReads log) (fun _ _ => False) u := by
    unfold isRegionUpdate
    rw [Exec.wp_ite]
    refine ⟨fun hlock => ⟨by simp [hlock], u.capsuleReads, rfl⟩, fun hlock => ?_⟩
    rw [Exec.wp_bind, wp_readCapsule32, Exec.wp_ite]
    refine ⟨fun hsize => ?_, fun hsize => ⟨by simp [hsize], _, rfl⟩⟩
    rw [Exec.wp_bind, wp_readCapsule32]
    exact ⟨decide_eq_decide.mpr (by simp [hlock, hsize]), _, rfl⟩
  obtain ⟨b, w, hret, rfl, log, rfl⟩ := Exec.returns_of_wp hwp
  exact ⟨log, hret⟩

section Whole

variable (htable : TableOf P s n) (hkeep : PatchesKeep P s n) (hn : n < P.fuel)
  (hfuel : ∀ i < n, blocksOf P s i < P.fuel)

theorem RegionUpdate.sizeOf_ne_zero (h : RegionUpdate P s) : sizeOf P s 0 ≠ 0 := by
  have hf := P.flash_base.2
  rcases h.2 with ⟨hsize, -⟩ | ⟨hsize, -⟩
  · omega
  · rw [hsize]
    decide

theorem RegionUpdate.placed (h : RegionUpdate P s) :
    Placed P s 0 ∧ targetOf P s 0 % flashBlockSize = 0 ∧ blocksOf P s 0 ≠ 0 := by
  have hblocks : blocksOf P s 0 = sizeOf P s 0 / 4096 := rfl
  obtain ⟨hf, hf'⟩ := P.flash_base
  have hal : P.spiFlashBaseAddress % 4096 = 0 := P.flash_base_aligned
  rcases h.2 with ⟨hsize, htarget⟩ | ⟨hsize, htarget⟩
  · refine ⟨⟨?_, by omega⟩, by rw [htarget]; exact hal, by omega⟩
    show 4096 ≤ _
    omega
  · refine ⟨⟨?_, ?_⟩, ?_, ?_⟩
    · rw [htarget]
      decide
    · rw [hsize, htarget]
      decide
    · rw [htarget]
      decide
    · rw [hblocks, hsize]
      decide

include htable hkeep hfuel

theorem wp_recordRegion_blocks (h : RegionUpdate P s) (log : List Range) :
    (recordHint P 0 P.capsuleSmmBuffer (hintTable P s)).wp
      (fun _ w => w.updateStatusPacket.totalBlocks = blocksOf P s 0 ∧
        blocksOf P s 0 ≤ P.maxBlockNumber ∧
        (P.debugAssertEnabled = true → P.spiFlashBaseAddress ≤ targetOf P s 0))
      (fun _ _ => ¬ RegionFits P s) ((s.parseStart P).withReads log) := by
  obtain ⟨hplaced, haligned, hblocks⟩ := h.placed
  have hpos : 0 < n := by
    by_contra hzero
    obtain rfl : n = 0 := by omega
    exact h.sizeOf_ne_zero htable.ends
  have hsize := h.sizeOf_ne_zero
  have hcall : Calls P s (hintAt P s 0) ((s.parseStart P).withReads log) 0
      ((s.parseStart P).withReads log) := by
    obtain ⟨hge, hle⟩ := hplaced
    unfold sizeOf targetOf at *
    rw [hintAt_zero] at *
    exact .region h.1 hsize hge hle
  have hstart : Tallied P s n 0 ((s.parseStart P).withReads log) :=
    ⟨rfl, Nat.zero_le _, fun i _ => ⟨rfl, rfl, rfl⟩⟩
  have hwp := wp_recordHint_blocks hkeep (Nat.zero_le n) hplaced hcall (hfuel 0 hpos) [] hstart
  rw [reads_nil, hintAt_zero] at hwp
  refine Exec.wp_mono hwp ?_ ?_
  · rintro e w ⟨rfl, hw, hgood⟩
    have htotal := hw.totalBlocks_eq
    have hroom := hw.room
    rw [Nat.zero_add] at htotal hroom
    exact ⟨htotal, hroom, fun ha => (hgood ha).2 hblocks⟩
  · rintro st w ((⟨-, hfull⟩ | ⟨-, ha, -, hout⟩) | ⟨-, -, hunaligned⟩) hfits
    · have := hfits.fits
      omega
    · have := (hfits.asserted ha).1
      omega
    · exact hunaligned haligned

include hn

theorem wp_parseHints_blocks (log : List Range) :
    (parseHints P P.capsuleSmmBuffer (hintTable P s)).wp
      (fun status w => if RegionUpdate P s then status = .success ∧
          w.updateStatusPacket.totalBlocks = blocksOf P s 0 ∧ blocksOf P s 0 ≤ P.maxBlockNumber ∧
          (P.debugAssertEnabled = true → P.spiFlashBaseAddress ≤ targetOf P s 0)
        else ParseEnds P s n status w.updateStatusPacket.totalBlocks)
      (fun st _ => if RegionUpdate P s then ¬ RegionFits P s else ParseHalts P s n st)
      ((s.parseStart P).withReads log) := by
  have hfirst : ∀ log : List Range, (((s.parseStart P).withReads log).rd P).rd32 (sizeAt (hintTable P s)) =
      sizeOf P s 0 ∧ (((s.parseStart P).withReads log).rd P).rd32 (targetAddrAt (hintTable P s)) =
      targetOf P s 0 := by
    intro log
    unfold sizeOf targetOf
    rw [hintAt_zero]
    exact ⟨rfl, rfl⟩
  have hregion : RegionUpdate P s → ∀ log : List Range,
      (do
        let _ ← recordHint P 0 P.capsuleSmmBuffer (hintTable P s)
        pure .success : Exec SmmState EfiStatus).wp
      (fun status w => if RegionUpdate P s then status = .success ∧
          w.updateStatusPacket.totalBlocks = blocksOf P s 0 ∧ blocksOf P s 0 ≤ P.maxBlockNumber ∧
          (P.debugAssertEnabled = true → P.spiFlashBaseAddress ≤ targetOf P s 0)
        else ParseEnds P s n status w.updateStatusPacket.totalBlocks)
      (fun st _ => if RegionUpdate P s then ¬ RegionFits P s else ParseHalts P s n st)
      ((s.parseStart P).withReads log) := by
    intro h log
    simp only [if_pos h]
    rw [Exec.wp_bind]
    exact Exec.wp_mono (wp_recordRegion_blocks htable hkeep hfuel h log) (fun _ w hw => ⟨rfl, hw⟩)
      fun _ _ hstop => hstop
  obtain ⟨log₁, hcheck₁⟩ := isRegionUpdate_ret (P := P) (hintTable P s)
    (0x100000000 - P.spiFlashBaseAddress) P.spiFlashBaseAddress ((s.parseStart P).withReads log)
  rw [(hfirst log).1, (hfirst log).2] at hcheck₁
  unfold parseHints
  rw [Exec.wp_bind]
  refine Exec.wp_of_eq_ret hcheck₁ ?_
  rw [Exec.wp_ite]
  refine ⟨fun hfull => ?_, fun hfull => ?_⟩
  · obtain ⟨hlock, hat⟩ := of_decide_eq_true hfull
    exact hregion ⟨hlock, .inl hat⟩ log₁
  · obtain ⟨log₂, hcheck₂⟩ := isRegionUpdate_ret (P := P) (hintTable P s) flashRegionBiosStagesMaxSize
      flashRegionBiosStagesBaseAddress ((s.parseStart P).withReads log₁)
    rw [(hfirst log₁).1, (hfirst log₁).2] at hcheck₂
    rw [Exec.wp_bind]
    refine Exec.wp_of_eq_ret hcheck₂ ?_
    rw [Exec.wp_ite]
    refine ⟨fun hstages => ?_, fun hstages => ?_⟩
    · obtain ⟨hlock, hat⟩ := of_decide_eq_true hstages
      exact hregion ⟨hlock, .inr hat⟩ log₂
    · have hno : ¬ RegionUpdate P s := by
        rintro ⟨hlock, hat | hat⟩
        · exact hfull (decide_eq_true ⟨hlock, hat⟩)
        · exact hstages (decide_eq_true ⟨hlock, hat⟩)
      simp only [if_neg hno]
      exact wp_parseLoop_blocks htable hkeep hfuel hn log₂

/-- The parse returns with no more blocks than the table holds, and refuses what needs more, if and only
if what the hints record fits. -/
theorem tableKept_iff (hbuf : P.capsuleSmmBuffer ≠ 0) : TableKept P s n ↔ TableFits P s n := by
  have hparse : (capsuleParse P).wp
      (fun status w => if RegionUpdate P s then
          RegionFits P s ∧ status = .success ∧ w.updateStatusPacket.totalBlocks = blocksOf P s 0
        else ParseEnds P s n status w.updateStatusPacket.totalBlocks ∧
          (status = .success → P.debugAssertEnabled = true →
            w.updateStatusPacket.totalBlocks < P.maxBlockNumber))
      (fun st _ => if RegionUpdate P s then ¬ RegionFits P s
        else ParseHalts P s n st ∨ P.debugAssertEnabled = true ∧
          ∃ total, ParseEnds P s n .success total ∧ P.maxBlockNumber ≤ total) s := by
    unfold capsuleParse
    rw [if_neg hbuf, Exec.wp_bind, wp_readCapsule32, Exec.wp_bind, Exec.wp_modify, Exec.wp_bind]
    have hwp := wp_parseHints_blocks htable hkeep hn hfuel
      (s.capsuleReads ++ [⟨u32 (headerSizeAt P.capsuleSmmBuffer), 4⟩])
    by_cases hregion : RegionUpdate P s
    · simp only [if_pos hregion] at hwp ⊢
      refine Exec.wp_mono hwp ?_ fun _ _ hstop => hstop
      rintro status w ⟨rfl, htotal, hroom, hbase⟩
      rw [if_neg (by decide), Exec.wp_bind, Exec.wp_get, Exec.wp_bind, wp_assert]
      refine ⟨fun hok => ⟨⟨hroom, fun ha => ⟨hbase ha, ?_⟩⟩, rfl, htotal⟩, fun ⟨ha, hfull⟩ hfits => ?_⟩
      · rw [← htotal]
        exact hok ha
      · rw [htotal] at hfull
        exact hfull (hfits.asserted ha).2
    · simp only [if_neg hregion] at hwp ⊢
      refine Exec.wp_mono hwp ?_ fun _ _ hstop => .inl hstop
      intro status w hends
      rw [Exec.wp_ite]
      refine ⟨fun herr => ⟨hends, fun hs => by rw [hs] at herr; cases herr⟩, fun hok => ?_⟩
      have hs : status = .success := by
        cases hends with
        | done => rfl
        | refused => exact absurd rfl hok
      subst hs
      rw [Exec.wp_bind, Exec.wp_get, Exec.wp_bind, wp_assert]
      exact ⟨fun hlt => ⟨hends, fun _ ha => hlt ha⟩, fun ⟨ha, hfull⟩ => .inr ⟨ha, _, hends, not_lt.mp hfull⟩⟩
  unfold TableFits
  by_cases hregion : RegionUpdate P s
  · simp only [if_pos hregion] at hparse ⊢
    constructor
    · rintro ⟨status, t, hret, -, -⟩
      exact (Exec.wp_of_ret hparse hret).1
    · intro hfits
      obtain ⟨status, t, hret, -, -, htotal⟩ := Exec.returns_of_wp
        (Exec.wp_mono hparse (fun _ _ h => h) fun _ _ h => h hfits)
      refine ⟨status, t, hret, htotal ▸ hfits.fits, fun hneed => ?_⟩
      unfold neededBlocks at hneed
      rw [if_pos hregion] at hneed
      have := hfits.fits
      omega
  · simp only [if_neg hregion] at hparse ⊢
    constructor
    · rintro ⟨status, t, hret, -, hneed⟩
      obtain ⟨hends, hassert⟩ := Exec.wp_of_ret hparse hret
      exact hintsFit_of_ends hends hassert hneed
    · intro hfits
      have hgo : ∀ st : Stop, ¬ (ParseHalts P s n st ∨ P.debugAssertEnabled = true ∧
          ∃ total, ParseEnds P s n .success total ∧ P.maxBlockNumber ≤ total) := by
        rintro st (hstop | ⟨ha, total, hends, hfull⟩)
        · exact hfits.not_halts hstop
        · cases hends with
          | done le passed ended total_eq =>
            have := (hfits.of_done hregion le passed ended).1 ha
            omega
      obtain ⟨status, t, hret, hends, -⟩ := Exec.returns_of_wp
        (Exec.wp_mono hparse (fun _ _ h => h) fun st _ hstop => hgo st hstop)
      refine ⟨status, t, hret, ?_, fun hneed => ?_⟩
      · cases hends with
        | done _ passed _ total_eq => exact total_eq.trans_le passed.recordedBefore_le
        | refused _ _ _ _ _ le => exact le
      · cases hends with
        | done le passed ended total_eq =>
          have := (hfits.of_done hregion le passed ended).2
          omega
        | refused => rfl

end Whole

/-! ## Samples -/

theorem patchesKeep_of_updatesMac (h : UpdatesMac P s) (n : Nat) : PatchesKeep P s n where
  returns := by
    intro hint u e m l t hcall hhead _ _ ranges
    have ht := hhead.sameRd h (hcall.sameRd h).2
    have hmac : UpdatesMac P (t.reads ranges) := SameRd.updatesMac h ht
    have hwp : (checkPlatformDataPolicy P l.imageSourceAddr P.capsuleSmmBuffer).wp (fun _ _ => True)
        (fun _ _ => False) (t.reads ranges) := wp_checkPlatformDataPolicy_updatesMac hmac trivial
    obtain ⟨_, t', hret, -⟩ := Exec.returns_of_wp hwp
    exact ⟨t', hret⟩
  kept := fun _ _ _ _ _ _ hcall hhead _ _ => sameHint_of_updatesMac h hcall hhead _

theorem tableKept_iff_rmu : TableKept roomyPlatform (parsingState rmuCapsule) 1 := by
  have hregion : ¬ RegionUpdate roomyPlatform (parsingState rmuCapsule) := by decide
  have hone : recordedBefore roomyPlatform (parsingState rmuCapsule) 1 = 1 := by decide +kernel
  have htable : TableOf roomyPlatform (parsingState rmuCapsule) 1 :=
    ⟨by decide +kernel, by decide +kernel⟩
  refine (tableKept_iff htable (patchesKeep_of_updatesMac (by unfold UpdatesMac; decide +kernel) 1)
    (by decide) (by decide +kernel) (by decide)).mpr ?_
  unfold TableFits
  rw [if_neg hregion]
  refine ⟨fun k hk => ?_, fun _ k hk _ _ => ?_, fun k hk _ hfull => ?_⟩
  · obtain rfl : k = 0 := Nat.lt_one_iff.mp hk.lt
    rw [hone]
    decide
  · obtain rfl : k = 0 := Nat.lt_one_iff.mp hk.lt
    decide +kernel
  · exfalso
    have hle := (recordedBefore_mono hk).trans_eq hone
    rw [hfull] at hle
    exact absurd hle (by decide)

def crowdedCapsule : Mem :=
  Mem.ofWords [(0x100000, 0xd400d1e4), (0x100004, 0x442ba314), (0x100008, 0x2ea9ed89),
    (0x10000C, 0xcb97814c), (0x100010, 0x20), (0x100014, 1), (0x100018, 0x31160),
    (0x100020, 0xFFD00000), (0x100024, 0x2F000), (0x100028, 0x160),
    (0x100030, 0xFFD00000), (0x100034, 0x2000), (0x100038, 0x160)]

/-- There is room for one block when the second hint is taken up, and it records two. -/
theorem second_hint_overruns :
    (challengeCapsule roomyPlatform (parsingState crowdedCapsule)).value? = some .success ∧
      TableOf roomyPlatform (parsingState crowdedCapsule) 2 ∧
      ¬ TableKept roomyPlatform (parsingState crowdedCapsule) 2 := by
  refine ⟨by decide +kernel, ⟨by decide +kernel, by decide +kernel⟩, ?_⟩
  rintro ⟨status, t, hret, -⟩
  have hvalue : (capsuleParse roomyPlatform (parsingState crowdedCapsule)).value? = none := by
    decide +kernel
  rw [hret] at hvalue
  cases hvalue

end Quark.SmiFlash
