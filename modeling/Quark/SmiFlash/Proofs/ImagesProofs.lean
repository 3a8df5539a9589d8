import Quark.SmiFlash.Spec
import Quark.SmiFlash.Proofs.IntakeProofs

/-!
# The image list follows from the MFH

`ValidateMfhForFlashUpdate` leaves an image list of the form `mfhImageList`, with the stages in order
where `ASSERT`s are enabled. The rest of the driver keeps the list, but for the flag of the NVRAM.
-/

namespace Quark.SmiFlash

open Machine MfhLib

variable {P : Platform} {s t : SmmState}

structure Staging (s : SmmState) : Prop where
  stage1 : s.stage1Element = some 8
  stage2 : s.stage2Element = some 9
  os : s.osElement = some 10
  nvram : s.nvramElement = some 4
  list : ∃ (nvram : Bool) (b₁ z₁ : Nat) (u₁ : Bool) (b₂ z₂ : Nat) (u₂ : Bool) (z : Nat),
    s.spiImageList = imageListWith (nvramImage nvram) ⟨typeFwStage1Signed, b₁, z₁, false, u₁, true⟩
      ⟨typeFwStage2Signed, b₂, z₂, false, u₂, false⟩
      ⟨typeInvalid, flashRegionOsDefaultBaseAddress, z, true, true, true⟩ ∧
    b₁ ≤ flashRegionBiosStagesLimitAddress ∧ b₂ < 0x100000000 ∧
    (b₁ % flashBlockSize = 0 ∨ b₁ = flashRegionBiosStagesLimitAddress) ∧
    (u₂ = true → b₂ % flashBlockSize = 0)

theorem Staging.setUp (h : Staging s) : ImagesSetUp s := by
  obtain ⟨nvram, b₁, z₁, u₁, b₂, z₂, u₂, z, hlist, -, hlt, -, -⟩ := h.list
  exact ⟨h.stage1, h.stage2, h.os, h.nvram, nvram, _, _, _, hlist, rfl, rfl, rfl, rfl, rfl, rfl, hlt, z, rfl⟩

theorem wp_modifyElement {i : Nat} {f : SpiImagePresent → SpiImagePresent} {Q : Unit → SmmState → Prop}
    {E : Stop → SmmState → Prop} :
    (modifyElement (some i) f).wp Q E s ↔ Q () { s with spiImageList := s.spiImageList.modify i f } :=
  Iff.rfl

theorem wp_noteMfhItem {type address : Nat} {E : Stop → SmmState → Prop} (h : Staging s)
    (hal : address % flashBlockSize = 0) (hlt : address < 0x100000000) :
    (noteMfhItem s type address).wp (fun _ => Staging) E s := by
  obtain ⟨nvram, b₁, z₁, u₁, b₂, z₂, u₂, z, hlist, hb₁, hb₂, hu₁, hu₂⟩ := h.list
  unfold noteMfhItem
  rw [Exec.wp_ite, Exec.wp_ite]
  refine ⟨fun _ => ?_, fun _ => ⟨fun _ => ?_, fun _ => h⟩⟩
  · rw [h.stage2, wp_modifyElement, hlist]
    exact ⟨h.stage1, h.stage2, h.os, h.nvram, nvram, b₁, z₁, u₁, address, z₂, true, z, rfl, hb₁, hlt,
      hu₁, fun _ => hal⟩
  · rw [h.stage1, wp_modifyElement, hlist]
    refine ⟨h.stage1, h.stage2, h.os, h.nvram, nvram, min b₁ address, z₁, true, b₂, z₂, u₂, z, rfl,
      (Nat.min_le_left _ _).trans hb₁, hb₂, ?_, hu₂⟩
    rcases Nat.le_total b₁ address with hle | hle
    · rw [Nat.min_eq_left hle]
      exact hu₁
    · rw [Nat.min_eq_right hle]
      exact .inl hal

theorem wp_validateMfhItem {cur : Option (Nat × MfhLib.FindContext)} (h : Staging s) :
    (validateMfhItem P cur).wp (fun _ => Staging) (fun _ _ => True) s := by
  unfold validateMfhItem
  rw [Exec.wp_bind, Exec.wp_get]
  cases cur with
  | none => exact h
  | some c =>
    obtain ⟨item, ctx⟩ := c
    dsimp only
    rw [Exec.wp_ite]
    refine ⟨fun _ => h, fun hal => ?_⟩
    rw [Exec.wp_bind]
    refine Exec.wp_mono (wp_noteMfhItem h (not_not.mp hal) (Mem.rd32_lt _ _)) (fun _ t ht => ?_)
      (fun _ _ e => e)
    rw [Exec.wp_bind]
    refine (keeps_mfhLibFindNextWithFilter _ _ _ _).wp_of (f := id) (fun _ v _ hv => ?_)
      (fun _ _ _ => trivial)
    have hv : v = t := hv
    rw [hv]
    exact ht

theorem wp_setStageSizes (h : Staging s) :
    (setStageSizes P).wp (fun _ t => ImagesSetUp t ∧ ∃ m nvram, t.spiImageList = mfhImageList m nvram ∧
      (P.debugAssertEnabled = true → m.Ordered)) (fun _ _ => True) s := by
  obtain ⟨nvram, b₁, z₁, u₁, b₂, z₂, u₂, z, hlist, hb₁, hb₂, hu₁, hu₂⟩ := h.list
  have h₁ : elementBase s s.stage1Element = b₁ := by
    unfold elementBase
    rw [h.stage1, hlist]
    rfl
  have h₂ : elementBase s s.stage2Element = b₂ := by
    unfold elementBase
    rw [h.stage2, hlist]
    rfl
  have h₃ : elementBase s s.osElement = flashRegionOsDefaultBaseAddress := by
    unfold elementBase
    rw [h.os, hlist]
    rfl
  unfold setStageSizes
  rw [Exec.wp_bind, Exec.wp_get]
  dsimp only
  rw [h₁, h₂, h₃, h.stage1, h.stage2, h.os, Exec.wp_bind, wp_modifyElement, Exec.wp_bind, wp_assert]
  refine ⟨fun hstage => ?_, fun _ => trivial⟩
  rw [Exec.wp_bind, wp_modifyElement, Exec.wp_when]
  refine ⟨fun _ => ?_, fun hc => absurd (by intro hc'; cases hc') hc⟩
  rw [Exec.wp_bind, wp_assert]
  refine ⟨fun hos => ?_, fun _ => trivial⟩
  rw [wp_modifyElement, hlist]
  refine ⟨⟨h.stage1, h.stage2, h.os, h.nvram, nvram, _, _, _, rfl, rfl, rfl, rfl, rfl, rfl, rfl, hb₂, _,
    rfl⟩, ?_⟩
  refine ⟨⟨b₁, b₂, u₁, u₂, hb₁, hb₂, fun _ => hu₁, hu₂⟩, nvram, rfl, fun ha => ⟨?_, ?_⟩⟩
  · exact hos ha
  · exact hstage ha

theorem wp_validateMfhForFlashUpdate {mfh : Option Nat} (h : ImagesSetUp s) :
    (validateMfhForFlashUpdate P mfh).wp (fun status t => ImagesSetUp t ∧ (status.isError = false →
      ∃ m nvram, t.spiImageList = mfhImageList m nvram ∧ (P.debugAssertEnabled = true → m.Ordered)))
      (fun _ _ => True) s := by
  obtain ⟨nvram, e₁, e₂, e₃, hlist, ht₁, hf₁, ha₁, ht₂, hf₂, ha₂, hlt, z, rfl⟩ := h.list
  obtain ⟨type₁, b₁, z₁, fixed₁, u₁, any₁⟩ := e₁
  obtain ⟨type₂, b₂, z₂, fixed₂, u₂, any₂⟩ := e₂
  dsimp only at ht₁ hf₁ ha₁ ht₂ hf₂ ha₂ hlt
  subst ht₁ hf₁ ha₁ ht₂ hf₂ ha₂
  unfold validateMfhForFlashUpdate
  rw [Exec.wp_bind, Exec.wp_get, Exec.wp_bind, wp_assert]
  refine ⟨fun _ => ?_, fun _ => trivial⟩
  rw [Exec.wp_bind, wp_assert]
  refine ⟨fun _ => ?_, fun _ => trivial⟩
  rw [h.stage1, h.stage2, Exec.wp_bind, wp_modifyElement, Exec.wp_bind, wp_modifyElement, Exec.wp_bind]
  have hstart : Staging { s with
      spiImageList := (imageListWith (nvramImage nvram)
        ⟨typeFwStage1Signed, flashRegionBiosStagesLimitAddress, z₁, false, false, true⟩
        ⟨typeFwStage2Signed, b₂, z₂, false, false, false⟩
        ⟨typeInvalid, flashRegionOsDefaultBaseAddress, z, true, true, true⟩) } :=
    ⟨h.stage1, h.stage2, h.os, h.nvram, nvram, _, z₁, false, b₂, z₂, false, z, rfl, le_refl _, hlt,
      .inr rfl, fun hc => by cases hc⟩
  refine (keeps_mfhLibFindFirstWithFilter _ _ _ _ _).wp_of (f := id) (fun first v _ hv => ?_)
    (fun _ _ _ => trivial)
  have hv : v = { s with spiImageList := ((s.spiImageList.modify 8 fun e => { e with
        spiImageDefaultBaseAddress := flashRegionBiosStagesLimitAddress, updatable := false }).modify 9
        fun e => { e with updatable := false }) } := hv
  rw [hlist] at hv
  rw [hv, Exec.wp_bind]
  refine Exec.wp_mono (Exec.wp_loop (fun _ => Staging) (R := fun _ => Staging) (fun l t ht => ?_)
    (fun _ _ _ => trivial) _ hstart) (fun status t ht => ?_) (fun _ _ e => e)
  · refine Exec.wp_mono (wp_validateMfhItem ht) ?_ (fun _ _ e => e)
    intro r t' ht'
    cases r <;> exact ht'
  · rw [Exec.wp_bind, Exec.wp_when]
    refine ⟨fun hok => ?_, fun herr => ?_⟩
    · refine Exec.wp_mono (wp_setStageSizes ht) (fun _ v hv => ?_) (fun _ _ e => e)
      exact ⟨⟨hv.1.stage1, hv.1.stage2, hv.1.os, hv.1.nvram, hv.1.list⟩, fun _ => hv.2⟩
    · have hset := ht.setUp
      exact ⟨⟨hset.stage1, hset.stage2, hset.os, hset.nvram, hset.list⟩, fun hok => absurd hok herr⟩

theorem wp_validateMfh {offset : Nat} (h : ImagesSetUp s) :
    (validateMfh P offset).wp (fun status t => ImagesSetUp t ∧ (status.isError = false →
      ∃ m nvram, t.spiImageList = mfhImageList m nvram ∧ (P.debugAssertEnabled = true → m.Ordered)))
      (fun _ _ => True) s := by
  unfold validateMfh
  rw [Exec.wp_bind, Exec.wp_get, Exec.wp_ite, Exec.wp_ite]
  refine ⟨fun _ => wp_validateMfhForFlashUpdate h, fun _ => ⟨fun _ => ?_, fun _ => ?_⟩⟩
  · exact wp_validateMfhForFlashUpdate h
  · exact ⟨h, fun hc => by cases hc⟩

/-! ## Runs of the driver -/

def SmmState.images (s : SmmState) :
    List SpiImagePresent × Option Nat × Option Nat × Option Nat × Option Nat :=
  (s.spiImageList, s.stage1Element, s.stage2Element, s.osElement, s.nvramElement)

theorem ImagesSetUp.of_images (h : ImagesSetUp s) (e : t.images = s.images) : ImagesSetUp t := by
  obtain ⟨hlist, h₁, h₂, h₃, h₄⟩ : t.spiImageList = s.spiImageList ∧
      t.stage1Element = s.stage1Element ∧ t.stage2Element = s.stage2Element ∧
      t.osElement = s.osElement ∧ t.nvramElement = s.nvramElement := by
    simpa only [SmmState.images, Prod.mk.injEq] using e
  refine ⟨h₁.trans h.stage1, h₂.trans h.stage2, h₃.trans h.os, h₄.trans h.nvram, ?_⟩
  rw [hlist]
  exact h.list

theorem Started.imagesSetUp (h : Started P s) : ImagesSetUp s := by
  obtain ⟨ram, flash, hs⟩ := h
  have hentry : smiFlashDxeEntry P (loadedState ram flash) = .ret () { loadedState ram flash with
      stage1Element := some 8, stage2Element := some 9, osElement := some 10, nvramElement := some 4
      svnAreaBuffer := fun _ => 0xFF } := by
    rcases P with ⟨debugAssertEnabled, _⟩
    cases debugAssertEnabled <;> rfl
  rw [hentry] at hs
  cases hs
  exact ⟨rfl, rfl, rfl, rfl, true, _, _, _, rfl, rfl, rfl, rfl, rfl, rfl, rfl,
    (by decide : (0 : Nat) < 0x100000000), 0, rfl⟩

theorem setupRequest_images {info : Nat} (h : ImagesSetUp s)
    (hret : setupRequest P info s = .ret () t) : ImagesSetUp t := by
  obtain ⟨nvram, e₁, e₂, e₃, hlist, hrest⟩ := h.list
  have hwp : (setupRequest P info).wp (fun _ t => ImagesSetUp t) (fun _ _ => True) s := by
    unfold setupRequest
    rw [Exec.wp_bind, Exec.wp_get, Exec.wp_bind, Exec.wp_modify, Exec.wp_bind, h.nvram,
      wp_modifyElement, Exec.wp_modify]
    refine ⟨h.stage1, h.stage2, h.os, rfl, nvramUpdatable (s.rd P) info, e₁, e₂, e₃, ?_, hrest⟩
    show s.spiImageList.modify 4 _ = _
    rw [hlist]
    rfl
  exact Exec.wp_of_ret hwp hret

theorem wp_processCapsule_images {info : Nat} (h : ImagesSetUp s) :
    (processCapsule P info).wp (fun _ => ImagesSetUp) (fun _ _ => True) s := by
  have hfinish : ∀ status t, ImagesSetUp t → (finishSvnUpdate P status >>= fun status =>
      resetStateMachineDataStructures P >>= fun _ =>
        pure (if status.isError then some status else none)).wp (fun _ => ImagesSetUp)
      (fun _ _ => True) t := by
    intro status t ht
    rw [Exec.wp_bind]
    refine ((keeps_finishSvnUpdate P status).of_comp SmmState.images).wp_of (fun _ v _ hv => ?_)
      (fun _ _ _ => trivial)
    exact (ht.of_images hv).of_images rfl
  unfold processCapsule
  rw [Exec.wp_bind, Exec.wp_get, Exec.wp_bind, wp_assert]
  refine ⟨fun _ => ?_, fun _ => trivial⟩
  rw [Exec.wp_bind]
  refine Exec.wp_mono (wp_validateMfh h) (fun status t ht => ?_) (fun _ _ e => e)
  rw [Exec.wp_bind, Exec.wp_ite]
  refine ⟨fun _ => hfinish status t ht.1, fun _ => ?_⟩
  refine ((keeps_updateCapsule P).of_comp SmmState.images).wp_of (fun _ v _ hv => ?_)
    (fun _ _ _ => trivial)
  exact hfinish _ v (ht.1.of_images hv)

/-- Whatever SMIs are served, the image list keeps its shape and the pointers into it are those of the start. -/
theorem wp_smmRun_images (h : Started P s) (events : List SmmEvent) :
    (smmRun P events).wp (fun _ => ImagesSetUp) (fun _ _ => True) s := by
  refine Exec.wp_serve (C := fun _ _ => True) (fun event s hs _ => ?_) events s ?_ h.imagesSetUp
  · refine wp_smmStep ImagesSetUp ImagesSetUp (hs.of_images rfl) (fun _ _ _ _ => hs.of_images rfl)
      (fun _ _ _ _ => hs.of_images rfl) (fun memory smi _ => ?_) (fun memory smi t _ ht => ?_)
      (fun memory smi fragment t _ _ ht => ?_) (fun _ _ t _ ht => ht.of_images rfl)
      (fun _ _ => trivial)
    · have hs' : ImagesSetUp { s with ram := memory } := hs.of_images rfl
      have hkeep : (getCap P (u32 smi.ebx)).Keeps SmmState.ramMask :=
        .ite (.pure _) (.bind .get fun _ => .bind (keeps_store32 _ _) fun _ =>
          .bind (keeps_store32 _ _) fun _ => .bind (keeps_store32 _ _) fun _ => .pure _)
      refine (hkeep.of_comp SmmState.images).wp_of (fun _ v _ hv => ?_) (fun _ _ _ => trivial)
      exact hs'.of_images hv
    · have hs' : ImagesSetUp { s with ram := memory } := hs.of_images rfl
      exact setupRequest_images hs' ht
    · refine wp_fragmentBody (fun _ => ht) (fun _ _ => ht.of_images rfl) (fun _ _ _ => ht.of_images rfl)
        (fun _ _ _ _ => trivial) (fun _ _ => ht.of_images rfl) fun _ _ => ?_
      have hr : ImagesSetUp (t.received P fragment) := ht.of_images rfl
      refine Exec.wp_mono (wp_processCapsule_images hr) (fun r t' ht' => ?_) (fun _ _ e => e)
      cases r <;> exact ht'
  · clear h
    induction events generalizing s with
    | nil => exact trivial
    | cons e es ih => exact ⟨trivial, fun _ _ _ => ih⟩

theorem wp_smmRun_images_twoFragments :
    (smmRun .sample [updateSmi secondFragmentInSmram, .endOfDxe]).wp (fun _ => ImagesSetUp) (fun _ _ => True)
      (startedState .sample (fun _ => 0) fun _ => 0) :=
  wp_smmRun_images ⟨_, _, rfl⟩ _

theorem Launches.images {info : Nat} (hs : ImagesSetUp s) (h : Launches P info s t) :
    ∃ m nvram, t.spiImageList = mfhImageList m nvram ∧ (P.debugAssertEnabled = true → m.Ordered) := by
  obtain ⟨u, hmfh, v, w, hv, hw, rfl⟩ := h
  obtain ⟨m, nvram, hlist, hord⟩ := (Exec.wp_of_ret (wp_validateMfh hs) hmfh).2 rfl
  have hv' := (keeps_challengeCapsule P).field SmmState.spiImageList hv
  have hw' := (keeps_capsuleParse P).field SmmState.spiImageList hw
  have hact : u.launch.activate.spiImageList = u.spiImageList := rfl
  refine ⟨m, nvram, ?_, hord⟩
  rw [← hlist]
  exact hw'.trans (hv'.trans hact)

end Quark.SmiFlash
