import Quark.PiSmmCpu.CpuService

/-!
# The number of processors

Between two updates the number of processors is off by what is pending: it lacks the processors that were added
and still has those that were removed. A processor that is added to a slot whose removal is pending is counted
although it is not one more.
-/

namespace Quark.PiSmmCpu

open Machine Exec

variable {c : CpuConfig}

/-! ## Counting slots -/

theorem countP_of_ne {p q : Nat → Bool} {i : Nat} : ∀ {l : List Nat}, l.Nodup → i ∈ l →
    (∀ j ∈ l, j ≠ i → q j = p j) →
    l.countP q + (if p i then 1 else 0) = l.countP p + (if q i then 1 else 0) := by
  intro l
  induction l with
  | nil => intro _ h; cases h
  | cons x l ih =>
    intro hnodup hi hne
    obtain ⟨hx, hnodup'⟩ := List.nodup_cons.mp hnodup
    rw [List.countP_cons, List.countP_cons]
    rcases List.mem_cons.mp hi with rfl | hi'
    · have hrest : l.countP q = l.countP p :=
        List.countP_congr fun j hj => by
          rw [hne j (List.mem_cons_of_mem i hj) (fun hc => hx (hc ▸ hj))]
      rw [hrest]
      omega
    · have hxi : x ≠ i := fun hc => hx (hc ▸ hi')
      have hsum := ih hnodup' hi' fun j hj => hne j (List.mem_cons_of_mem x hj)
      rw [hne x List.mem_cons_self hxi]
      omega

theorem slots_nodup : c.slots.Nodup := List.nodup_range

theorem mem_slots {i : Nat} : i ∈ c.slots ↔ i < c.mMaxNumberOfCpus.toNat := List.mem_range

def pendingCount (c : CpuConfig) (op : CpuOperation) (s : CpuList) : Nat :=
  c.slots.countP fun index => s.operation index = op

theorem validCount_le (s : CpuList) : validCount c s ≤ c.mMaxNumberOfCpus.toNat := by
  have := List.countP_le_length (p := fun index => decide (s.processorId index ≠ invalidApicId)) (l := c.slots)
  rw [CpuConfig.slots, List.length_range] at this
  exact this

theorem pendingCount_le (op : CpuOperation) (s : CpuList) :
    pendingCount c op s ≤ c.mMaxNumberOfCpus.toNat := by
  have := List.countP_le_length (p := fun index => decide (s.operation index = op)) (l := c.slots)
  rw [CpuConfig.slots, List.length_range] at this
  exact this

theorem pendingCount_update (s s' : CpuList) {i : Nat} {op' : CpuOperation} (hi : i ∈ c.slots)
    (h : s'.operation = Function.update s.operation i op') (op : CpuOperation) :
    pendingCount c op s' + (if s.operation i = op then 1 else 0) =
      pendingCount c op s + (if op' = op then 1 else 0) := by
  have hsum := countP_of_ne (p := fun j => decide (s.operation j = op))
    (q := fun j => decide (s'.operation j = op)) slots_nodup hi fun j _ hj => by
      simp only [h, Function.update_of_ne hj]
  simp only [h, Function.update_self, decide_eq_true_eq] at hsum
  unfold pendingCount
  rw [h]
  exact hsum

theorem validCount_update (s s' : CpuList) {i : Nat} {id : BitVec 64} (hi : i ∈ c.slots)
    (h : s'.processorId = Function.update s.processorId i id) :
    validCount c s' + (if s.processorId i ≠ invalidApicId then 1 else 0) =
      validCount c s + (if id ≠ invalidApicId then 1 else 0) := by
  have hsum := countP_of_ne (p := fun j => decide (s.processorId j ≠ invalidApicId))
    (q := fun j => decide (s'.processorId j ≠ invalidApicId)) slots_nodup hi fun j _ hj => by
      simp only [h, Function.update_of_ne hj]
  simp only [h, Function.update_self, decide_eq_true_eq] at hsum
  unfold validCount
  rw [h]
  exact hsum

/-! ## What is pending -/

/-- The books are off by `d`: so many processors were added to slots whose removal was pending. -/
structure Books (c : CpuConfig) (d : Nat) (s : CpuList) : Prop where
  number : (s.mNumberOfCpus.toNat + pendingCount c .add s) % 2 ^ 32 =
    (validCount c s + d + pendingCount c .remove s) % 2 ^ 32
  off : d ≤ pendingCount c .add s
  removed : ∀ i ∈ c.slots, s.operation i = .remove → s.processorId i = invalidApicId
  pending : ∀ i ∈ c.slots, s.operation i = .add ∨ s.operation i = .switchBsp →
    s.processorId i ≠ invalidApicId
  distinct : DistinctIds c s

theorem Books.switch {d : Nat} {s : CpuList} {i : Nat} (h : Books c d s) (hi : i ∈ c.slots)
    (hop : s.operation i = .none) (hid : s.processorId i ≠ invalidApicId) :
    Books c d { s with operation := Function.update s.operation i .switchBsp } := by
  have hadd := pendingCount_update s { s with operation := Function.update s.operation i .switchBsp }
    hi rfl .add
  have hremove := pendingCount_update s { s with operation := Function.update s.operation i .switchBsp }
    hi rfl .remove
  rw [hop] at hadd hremove
  simp only [reduceCtorEq, if_false, Nat.add_zero] at hadd hremove
  refine ⟨?_, ?_, fun j hj hop' => ?_, fun j hj hop' => ?_, h.distinct⟩
  · rw [hadd, hremove]
    exact h.number
  · rw [hadd]
    exact h.off
  · change Function.update s.operation i .switchBsp j = .remove at hop'
    by_cases hji : j = i
    · rw [hji, Function.update_self] at hop'
      cases hop'
    · rw [Function.update_of_ne hji] at hop'
      exact h.removed j hj hop'
  · change Function.update s.operation i .switchBsp j = .add ∨
      Function.update s.operation i .switchBsp j = .switchBsp at hop'
    by_cases hji : j = i
    · rw [hji]
      exact hid
    · rw [Function.update_of_ne hji] at hop'
      exact h.pending j hj hop'

theorem Books.occupy {d : Nat} {s : CpuList} {i : Nat} {id : BitVec 64} (h : Books c d s) (hi : i ∈ c.slots)
    (hvalid : id ≠ invalidApicId) (hfree : s.processorId i = invalidApicId)
    (hnew : ∀ j ∈ c.slots, s.processorId j ≠ id) :
    Books c (d + if s.operation i = .remove then 1 else 0) (s.occupy i id) := by
  have hadd := pendingCount_update s (s.occupy i id) hi rfl .add
  have hremove := pendingCount_update s (s.occupy i id) hi rfl .remove
  have hcount := validCount_update s (s.occupy i id) hi rfl
  have hop : s.operation i ≠ .add := fun hc => h.pending i hi (.inl hc) hfree
  rw [if_neg hop, if_pos rfl] at hadd
  rw [if_neg (not_not.mpr hfree), if_pos hvalid] at hcount
  simp only [reduceCtorEq, if_false] at hremove
  have hnumber := h.number
  have hoff := h.off
  have hsame : (s.occupy i id).mNumberOfCpus = s.mNumberOfCpus := rfl
  refine ⟨?_, ?_, fun j hj hop' => ?_, fun j hj hop' => ?_, ?_⟩
  · rw [hsame]
    by_cases hrm : s.operation i = .remove
    · rw [if_pos hrm] at hremove ⊢
      omega
    · rw [if_neg hrm] at hremove ⊢
      omega
  · by_cases hrm : s.operation i = .remove
    · rw [if_pos hrm]
      omega
    · rw [if_neg hrm]
      omega
  · change Function.update s.operation i .add j = .remove at hop'
    by_cases hji : j = i
    · rw [hji, Function.update_self] at hop'
      cases hop'
    · rw [Function.update_of_ne hji] at hop'
      show Function.update s.processorId i id j = _
      rw [Function.update_of_ne hji]
      exact h.removed j hj hop'
  · show Function.update s.processorId i id j ≠ _
    by_cases hji : j = i
    · rw [hji, Function.update_self]
      exact hvalid
    · change Function.update s.operation i .add j = .add ∨ Function.update s.operation i .add j = _ at hop'
      rw [Function.update_of_ne hji] at hop' ⊢
      exact h.pending j hj hop'
  · intro j hj k hk hne heq
    change Function.update s.processorId i id j ≠ _ at hne
    change Function.update s.processorId i id j = Function.update s.processorId i id k at heq
    by_cases hji : j = i
    · by_cases hki : k = i
      · rw [hji, hki]
      · rw [hji, Function.update_self, Function.update_of_ne hki] at heq
        exact absurd heq.symm (hnew k hk)
    · by_cases hki : k = i
      · rw [hki, Function.update_self, Function.update_of_ne hji] at heq
        exact absurd heq (hnew j hj)
      · rw [Function.update_of_ne hji] at hne
        rw [Function.update_of_ne hji, Function.update_of_ne hki] at heq
        exact h.distinct j hj k hk hne heq

theorem Books.vacate {d : Nat} {s : CpuList} {i : Nat} (h : Books c d s) (hi : i ∈ c.slots)
    (hop : s.operation i = .none) (hid : s.processorId i ≠ invalidApicId) : Books c d (s.vacate i) := by
  have hadd := pendingCount_update s (s.vacate i) hi rfl .add
  have hremove := pendingCount_update s (s.vacate i) hi rfl .remove
  have hcount := validCount_update s (s.vacate i) hi rfl
  rw [hop] at hadd hremove
  rw [if_pos hid, if_neg (not_not.mpr rfl)] at hcount
  simp only [reduceCtorEq, if_false, if_true] at hadd hremove
  have hnumber := h.number
  have hoff := h.off
  have hsame : (s.vacate i).mNumberOfCpus = s.mNumberOfCpus := rfl
  refine ⟨?_, ?_, fun j hj hop' => ?_, fun j hj hop' => ?_, ?_⟩
  · rw [hsame]
    omega
  · omega
  · show Function.update s.processorId i invalidApicId j = _
    by_cases hji : j = i
    · rw [hji, Function.update_self]
    · change Function.update s.operation i .remove j = .remove at hop'
      rw [Function.update_of_ne hji] at hop' ⊢
      exact h.removed j hj hop'
  · change Function.update s.operation i .remove j = .add ∨ Function.update s.operation i .remove j = _ at hop'
    show Function.update s.processorId i invalidApicId j ≠ _
    by_cases hji : j = i
    · rw [hji, Function.update_self] at hop'
      rcases hop' with hc | hc <;> cases hc
    · rw [Function.update_of_ne hji] at hop' ⊢
      exact h.pending j hj hop'
  · intro j hj k hk hne heq
    change Function.update s.processorId i invalidApicId j ≠ _ at hne
    change Function.update s.processorId i invalidApicId j = Function.update s.processorId i invalidApicId k
      at heq
    by_cases hji : j = i
    · rw [hji, Function.update_self] at hne
      exact absurd rfl hne
    · rw [Function.update_of_ne hji] at hne heq
      by_cases hki : k = i
      · rw [hki, Function.update_self] at heq
        exact absurd heq hne
      · rw [Function.update_of_ne hki] at heq
        exact h.distinct j hj k hk hne heq

/-! ## Applying what is pending -/

/-- An effect that leaves the slots alone and adds `k` to the number of processors. -/
structure Counts (k : BitVec 32) (effect : Nat → CpuList → CpuList) : Prop where
  operation : ∀ i s, (effect i s).operation = s.operation
  processorId : ∀ i s, (effect i s).processorId = s.processorId
  number : ∀ i s, (effect i s).mNumberOfCpus = s.mNumberOfCpus + k

theorem applyPending_spec (op : CpuOperation) {k : BitVec 32} {effect : Nat → CpuList → CpuList}
    (he : Counts k effect) : ∀ (l : List Nat) (s : CpuList), l.Nodup →
    (∀ i, (applyPending op effect l s).operation i =
      if i ∈ l ∧ s.operation i = op then .none else s.operation i) ∧
    (applyPending op effect l s).processorId = s.processorId ∧
    (applyPending op effect l s).mNumberOfCpus =
      s.mNumberOfCpus + k * BitVec.ofNat 32 (l.countP fun i => s.operation i = op) := by
  intro l
  induction l with
  | nil =>
    intro s _
    refine ⟨fun i => ?_, rfl, ?_⟩
    · rw [if_neg (fun h => List.not_mem_nil h.1)]
      rfl
    · simp [applyPending]
  | cons x l ih =>
    intro s hnodup
    obtain ⟨hx, hnodup'⟩ := List.nodup_cons.mp hnodup
    by_cases hop : s.operation x = op
    · have hcons : applyPending op effect (x :: l) s =
          applyPending op effect l (effect x (s.settle x)) := by
        unfold applyPending
        rw [List.foldl_cons, if_pos hop]
      obtain ⟨hoper, hid, hnum⟩ := ih (effect x (s.settle x)) hnodup'
      rw [hcons]
      refine ⟨fun i => ?_, hid.trans (he.processorId _ _), ?_⟩
      · simp only [hoper, he.operation]
        simp only [CpuList.settle]
        by_cases hix : i = x
        · subst hix
          simp [hop]
        · simp [hix]
      · have hcount : (l.countP fun i => decide ((s.settle x).operation i = op)) =
            l.countP fun i => decide (s.operation i = op) :=
          List.countP_congr fun i hi => by
            have hix : i ≠ x := fun hc => hx (hc ▸ hi)
            simp [CpuList.settle, hix]
        have hsame : (s.settle x).mNumberOfCpus = s.mNumberOfCpus := rfl
        simp only [hnum, he.number, he.operation]
        rw [hcount, hsame, List.countP_cons_of_pos (by simpa using hop), BitVec.ofNat_add]
        grind
    · have hcons : applyPending op effect (x :: l) s = applyPending op effect l s := by
        unfold applyPending
        rw [List.foldl_cons, if_neg hop]
      obtain ⟨hoper, hid, hnum⟩ := ih hnodup' (s := s)
      rw [hcons]
      refine ⟨fun i => ?_, hid, ?_⟩
      · rw [hoper]
        by_cases hix : i = x
        · subst hix
          rw [if_neg (fun h => hop h.2), if_neg (fun h => hop h.2)]
        · simp only [List.mem_cons, hix, false_or]
      · rw [hnum, List.countP_cons_of_neg (by simpa using hop)]

theorem counts_markCandidate : Counts 0 markCandidate := ⟨fun _ _ => rfl, fun _ _ => rfl, fun _ _ => by
  simp [markCandidate]⟩

theorem counts_countIn : Counts 1 countIn := ⟨fun _ _ => rfl, fun _ _ => rfl, fun _ _ => rfl⟩

theorem counts_countOut : Counts (-1) countOut := ⟨fun _ _ => rfl, fun _ _ => rfl, fun _ _ => by
  simp [countOut, BitVec.sub_eq_add_neg]⟩

def updated (c : CpuConfig) (s : CpuList) : CpuList :=
  applyPending .remove countOut c.slots
    (applyPending .add countIn c.slots (applyPending .switchBsp markCandidate c.slots s))

theorem pendingCount_congr {op : CpuOperation} {s s' : CpuList}
    (h : ∀ i ∈ c.slots, s'.operation i = op ↔ s.operation i = op) :
    pendingCount c op s' = pendingCount c op s :=
  List.countP_congr fun i hi => by simpa using h i hi

theorem updated_spec (s : CpuList) :
    (∀ i ∈ c.slots, (updated c s).operation i = .none) ∧
    (updated c s).processorId = s.processorId ∧
    (updated c s).mNumberOfCpus = s.mNumberOfCpus + BitVec.ofNat 32 (pendingCount c .add s) -
      BitVec.ofNat 32 (pendingCount c .remove s) := by
  have hswitch := applyPending_spec .switchBsp counts_markCandidate c.slots s slots_nodup
  unfold updated
  generalize applyPending .switchBsp markCandidate c.slots s = s₁ at hswitch
  have hadd := applyPending_spec .add counts_countIn c.slots s₁ slots_nodup
  generalize applyPending .add countIn c.slots s₁ = s₂ at hadd
  have hremove := applyPending_spec .remove counts_countOut c.slots s₂ slots_nodup
  obtain ⟨hop₁, hid₁, hnum₁⟩ := hswitch
  obtain ⟨hop₂, hid₂, hnum₂⟩ := hadd
  obtain ⟨hop₃, hid₃, hnum₃⟩ := hremove
  have haddCount : pendingCount c .add s₁ = pendingCount c .add s := by
    refine pendingCount_congr fun i hi => ?_
    rw [hop₁]
    by_cases hs : s.operation i = .switchBsp <;> simp [hi, hs]
  have hremoveCount : pendingCount c .remove s₂ = pendingCount c .remove s := by
    refine pendingCount_congr fun i hi => ?_
    rw [hop₂, hop₁]
    cases hs : s.operation i <;> simp [hi]
  refine ⟨fun i hi => ?_, hid₃.trans (hid₂.trans hid₁), ?_⟩
  · rw [hop₃, hop₂, hop₁]
    cases hs : s.operation i <;> simp [hi]
  · rw [hnum₃, hnum₂, hnum₁]
    show s.mNumberOfCpus + _ + 1 * BitVec.ofNat 32 (pendingCount c .add s₁) +
      -1 * BitVec.ofNat 32 (pendingCount c .remove s₂) = _
    rw [haddCount, hremoveCount]
    grind

theorem Books.number_updated {d : Nat} {s : CpuList} (h : Books c d s) :
    (updated c s).mNumberOfCpus.toNat = validCount c (updated c s) ↔ d = 0 := by
  obtain ⟨-, hid, hnum⟩ := updated_spec (c := c) s
  have hvalid : validCount c (updated c s) = validCount c s := by
    unfold validCount
    rw [hid]
  have hv := validCount_le (c := c) s
  have ha := pendingCount_le (c := c) .add s
  have hr := pendingCount_le (c := c) .remove s
  have hmax := c.mMaxNumberOfCpus.isLt
  have hnumber := h.number
  have hoff := h.off
  rw [hvalid, hnum, BitVec.toNat_sub, BitVec.toNat_add, BitVec.toNat_ofNat, BitVec.toNat_ofNat]
  omega

theorem Books.updated {s : CpuList} (h : Books c 0 s) : Books c 0 (updated c s) := by
  have hright := h.number_updated.mpr rfl
  obtain ⟨hop, hid, -⟩ := updated_spec (c := c) s
  have hnone : ∀ op, op ≠ .none → pendingCount c op (PiSmmCpu.updated c s) = 0 := by
    intro op hne
    refine List.countP_eq_zero.mpr fun i hi => ?_
    rw [hop i hi]
    simpa using hne.symm
  refine ⟨?_, Nat.zero_le _, fun i hi hc => ?_, fun i hi hc => ?_, ?_⟩
  · rw [hnone .add nofun, hnone .remove nofun, hright]
  · rw [hop i hi] at hc
    cases hc
  · rw [hop i hi] at hc
    rcases hc with hc | hc <;> cases hc
  · unfold DistinctIds
    rw [hid]
    exact h.distinct

/-! ## Steps and runs -/

structure StepBooks (c : CpuConfig) (d : Nat) (step : CpuStep) (s s' : CpuList) : Prop where
  books : ∃ d', d ≤ d' ∧ Books c d' s'
  free : AddsToFreeSlot c step s → Books c d s'
  taken : ¬ AddsToFreeSlot c step s → ∃ d', 0 < d' ∧ Books c d' s'

theorem StepBooks.of_books {d : Nat} {step : CpuStep} {s s' : CpuList} (h : Books c d s')
    (hstep : AddsToFreeSlot c step s) : StepBooks c d step s s' :=
  ⟨⟨d, Nat.le_refl d, h⟩, fun _ => h, fun hc => absurd hstep hc⟩

theorem wp_smmAddProcessor {d : Nat} {s : CpuList} (h : Books c d s) (id : BitVec 64) (outNull : Bool) :
    wp (smmAddProcessor c id outNull) (fun _ s' => StepBooks c d (.smmAddProcessor id outNull) s s')
      (fun _ _ => False) s := by
  cases outNull with
  | true =>
    rw [smmAddProcessor, wp_bind, wp_get, wp_ite]
    refine ⟨fun _ => .of_books h trivial, fun _ => ?_⟩
    rw [wp_ite]
    exact ⟨fun _ => .of_books h trivial, fun hc => absurd (.inl rfl) hc⟩
  | false =>
    rw [smmAddProcessor, wp_bind, wp_get, wp_ite]
    refine ⟨fun hoff => .of_books h fun hon => absurd hon hoff, fun hon => ?_⟩
    rw [wp_ite]
    refine ⟨fun hid => .of_books h fun _ hc => ?_, fun hid => ?_⟩
    · rcases hid with hc' | hid
      · cases hc'
      · exact absurd hid hc
    have hvalid : id ≠ invalidApicId := fun hc => hid (.inr hc)
    rw [wp_ite]
    refine ⟨fun hany => .of_books h fun _ _ hnew => ?_, fun hany => ?_⟩
    · obtain ⟨i, hi, heq⟩ := List.any_eq_true.mp hany
      exact absurd (by simpa using heq) (hnew i hi)
    have hnew : ∀ j ∈ c.slots, s.processorId j ≠ id := by
      intro j hj hc
      exact hany (List.any_eq_true.mpr ⟨j, hj, by simpa using hc⟩)
    cases hslot : freeSlot? c s id with
    | none => exact .of_books h fun _ _ _ i hi => by rw [hslot] at hi; cases hi
    | some i =>
      show wp (Exec.modify _ >>= _) _ _ s
      rw [wp_bind, wp_modify, wp_pure]
      have hi : i ∈ c.slots := List.mem_of_find?_eq_some hslot
      have hfound := List.find?_some hslot
      simp only [decide_eq_true_eq] at hfound
      have hbooks := h.occupy hi hvalid hfound.2 hnew
      refine ⟨⟨_, Nat.le_add_right _ _, hbooks⟩, fun hfree => ?_, fun htaken => ?_⟩
      · have hne := hfree (by simpa using hon) hvalid hnew i hslot
        rwa [if_neg hne] at hbooks
      · by_cases hrm : s.operation i = .remove
        · rw [if_pos hrm] at hbooks
          exact ⟨d + 1, Nat.succ_pos d, hbooks⟩
        · refine absurd (fun _ _ _ j hj => ?_) htaken
          rw [hslot] at hj
          injection hj with hj
          exact hj ▸ hrm

theorem wp_serveCpuStep {d : Nat} {step : CpuStep} {s : CpuList} (h : Books c d s)
    (hstep : step ≠ .smmCpuUpdate) :
    wp (serveCpuStep c step) (fun _ s' => StepBooks c d step s s') (fun _ _ => False) s := by
  cases step with
  | smmSwitchBsp number =>
    rw [serveCpuStep, wp_bind, smmSwitchBsp, wp_bind, wp_get, wp_ite]
    refine ⟨fun _ => .of_books h trivial, fun hlt => ?_⟩
    rw [wp_ite]
    refine ⟨fun _ => .of_books h trivial, fun hid => ?_⟩
    rw [wp_ite]
    refine ⟨fun _ => .of_books h trivial, fun hfree => ?_⟩
    rw [wp_bind, wp_modify, wp_pure]
    have hslot : number.toNat ∈ c.slots := mem_slots.mpr (by rw [ge_iff_le, BitVec.le_def] at hlt; omega)
    rw [not_or, not_not] at hfree
    exact .of_books (h.switch hslot hfree.1 hid) trivial
  | smmAddProcessor id outNull =>
    rw [serveCpuStep, wp_bind]
    exact wp_mono (wp_smmAddProcessor h id outNull) (fun _ _ h => h) (fun _ _ h => h)
  | smmRemoveProcessor number =>
    rw [serveCpuStep, wp_bind, smmRemoveProcessor, wp_bind, wp_get, wp_ite]
    refine ⟨fun _ => .of_books h trivial, fun _ => ?_⟩
    rw [wp_ite]
    refine ⟨fun _ => .of_books h trivial, fun hvalid => ?_⟩
    rw [wp_ite]
    refine ⟨fun _ => .of_books h trivial, fun _ => ?_⟩
    rw [wp_ite]
    refine ⟨fun _ => .of_books h trivial, fun hop => ?_⟩
    rw [wp_bind, wp_modify, wp_pure]
    rw [not_or] at hvalid
    have hlt := hvalid.1
    have hslot : number.toNat ∈ c.slots := mem_slots.mpr (by rw [ge_iff_le, BitVec.le_def] at hlt; omega)
    exact .of_books (h.vacate hslot (not_not.mp hop) hvalid.2) trivial
  | smmCpuUpdate => exact absurd rfl hstep
  | setApicId index id =>
    exact .of_books ⟨h.number, h.off, h.removed, h.pending, h.distinct⟩ trivial
  | enterSmi cpu =>
    exact .of_books ⟨h.number, h.off, h.removed, h.pending, h.distinct⟩ trivial

theorem serve_update (s : CpuList) : serveCpuStep c .smmCpuUpdate s = .ret () (updated c s) := rfl

theorem not_keepsBooks_of_off : ∀ {steps : List CpuStep} {d : Nat} {s : CpuList}, 0 < d → Books c d s →
    ¬ EachMeets (serveCpuStep c) (KeepsBooks c) (steps ++ [.smmCpuUpdate]) s := by
  have hupdate : ∀ {steps : List CpuStep} {d : Nat} {s : CpuList}, 0 < d → Books c d s →
      ¬ EachMeets (serveCpuStep c) (KeepsBooks c) (.smmCpuUpdate :: steps) s := by
    intro steps d s hd h hmeets
    have hright := (hmeets.1 _ (serve_update s)).2 rfl
    exact absurd (h.number_updated.mp hright) (Nat.pos_iff_ne_zero.mp hd)
  intro steps
  induction steps with
  | nil => intro d s hd h; exact hupdate hd h
  | cons step steps ih =>
    intro d s hd h hmeets
    by_cases hstep : step = .smmCpuUpdate
    · subst hstep
      exact hupdate hd h hmeets
    · obtain ⟨_, s', hret, hbooks⟩ := returns_of_wp (wp_serveCpuStep h hstep)
      obtain ⟨d', hle, hbooks'⟩ := hbooks.books
      exact ih (Nat.lt_of_lt_of_le hd hle) hbooks' (hmeets.2 _ s' hret)

theorem books_iff : ∀ {steps : List CpuStep} {s : CpuList}, Books c 0 s →
    (EachMeets (serveCpuStep c) (KeepsBooks c) (steps ++ [.smmCpuUpdate]) s ↔
      EachMeets (serveCpuStep c) (AddsToFreeSlot c) (steps ++ [.smmCpuUpdate]) s) := by
  have hkeeps : ∀ {s : CpuList}, Books c 0 s → KeepsBooks c .smmCpuUpdate s := by
    intro s h s' hret
    rw [serve_update] at hret
    injection hret with _ hs
    subst hs
    exact ⟨h.updated.distinct, fun _ => h.number_updated.mpr rfl⟩
  intro steps
  induction steps with
  | nil =>
    intro s h
    exact ⟨fun _ => ⟨trivial, fun _ _ _ => trivial⟩, fun _ => ⟨hkeeps h, fun _ _ _ => trivial⟩⟩
  | cons step steps ih =>
    intro s h
    rw [List.cons_append, eachMeets_cons, eachMeets_cons]
    by_cases hstep : step = .smmCpuUpdate
    · subst hstep
      rw [serve_update]
      exact ⟨fun hm => ⟨trivial, (ih h.updated).mp hm.2⟩, fun hm => ⟨hkeeps h, (ih h.updated).mpr hm.2⟩⟩
    · obtain ⟨_, s', hret, hbooks⟩ := returns_of_wp (wp_serveCpuStep h hstep)
      rw [hret]
      by_cases hfree : AddsToFreeSlot c step s
      · have hbooks' := hbooks.free hfree
        refine ⟨fun hm => ⟨hfree, (ih hbooks').mp hm.2⟩, fun hm => ⟨fun t ht => ?_, (ih hbooks').mpr hm.2⟩⟩
        rw [hret] at ht
        injection ht with _ ht
        subst ht
        exact ⟨hbooks'.distinct, fun hc => absurd hc hstep⟩
      · obtain ⟨d', hd, hbooks'⟩ := hbooks.taken hfree
        exact ⟨fun hm => absurd hm.2 (not_keepsBooks_of_off hd hbooks'), fun hm => absurd hm.1 hfree⟩

theorem CpusBooted.books {s : CpuList} (h : CpusBooted c s) : Books c 0 s := by
  have hnone : ∀ op, op ≠ .none → pendingCount c op s = 0 := by
    intro op hne
    refine List.countP_eq_zero.mpr fun i _ => ?_
    rw [h.operation i]
    simpa using hne.symm
  have hle := h.number
  rw [BitVec.le_def] at hle
  have hcount : validCount c s = s.mNumberOfCpus.toNat := by
    obtain ⟨m, hm⟩ := Nat.exists_eq_add_of_le hle
    unfold validCount CpuConfig.slots
    rw [hm, List.range_add, List.countP_append]
    have hfirst : (List.range s.mNumberOfCpus.toNat).countP
        (fun i => decide (s.processorId i ≠ invalidApicId)) = s.mNumberOfCpus.toNat := by
      rw [List.countP_eq_length.mpr, List.length_range]
      intro i hi
      simpa using h.valid i (List.mem_range.mp hi)
    have hrest : ((List.range m).map (s.mNumberOfCpus.toNat + ·)).countP
        (fun i => decide (s.processorId i ≠ invalidApicId)) = 0 := by
      rw [List.countP_eq_zero]
      intro i hi
      obtain ⟨j, -, rfl⟩ := List.mem_map.mp hi
      simpa using h.invalid _ (Nat.le_add_right _ j)
    rw [hfirst, hrest, Nat.add_zero]
  refine ⟨?_, Nat.zero_le _, fun i _ hc => ?_, fun i _ hc => ?_, h.distinct⟩
  · rw [hnone .add nofun, hnone .remove nofun, hcount]
  · rw [h.operation i] at hc
    cases hc
  · rw [h.operation i] at hc
    rcases hc with hc | hc <;> cases hc

/-- From the start of the driver, along every sequence of steps up to an update: the processors are distinct and
each update leaves their number right, exactly if no processor is added to a slot whose removal is pending. -/
theorem processors_counted_iff {s₀ : CpuList} (h₀ : CpusBooted c s₀) (steps : List CpuStep) :
    EachMeets (serveCpuStep c) (KeepsBooks c) (steps ++ [.smmCpuUpdate]) s₀ ↔
      EachMeets (serveCpuStep c) (AddsToFreeSlot c) (steps ++ [.smmCpuUpdate]) s₀ :=
  books_iff h₀.books

/-! ## Examples -/

def twoSlots : CpuConfig := ⟨true, 2⟩

def bootedCpus (n : BitVec 32) : CpuList where
  processorId i := if i < n.toNat then BitVec.ofNat 64 i else invalidApicId
  operation _ := .none
  apicId i := if i < n.toNat then BitVec.ofNat 64 i else invalidApicId
  mNumberOfCpus := n
  currentlyExecutingCpu := 0
  switchBsp := false
  candidateBsp _ := false

theorem cpusBooted {n : BitVec 32} (h : n ≤ 2) : CpusBooted twoSlots (bootedCpus n) := by
  have hn : n.toNat ≤ 2 := h
  have hvalid : ∀ i < n.toNat, (bootedCpus n).processorId i = BitVec.ofNat 64 i := fun i hi => if_pos hi
  have hinvalid : ∀ i, n.toNat ≤ i → (bootedCpus n).processorId i = invalidApicId :=
    fun i hi => if_neg (Nat.not_lt.mpr hi)
  have hsmall : ∀ i < 2, ∀ j < 2, BitVec.ofNat 64 i ≠ invalidApicId ∧
      (BitVec.ofNat 64 i = BitVec.ofNat 64 j → i = j) := by decide
  refine ⟨h, fun i hi => ?_, hinvalid, fun i _ j _ hne heq => ?_, fun _ => rfl⟩
  · rw [hvalid i hi]
    have : i < 2 := Nat.lt_of_lt_of_le hi hn
    exact (hsmall i this i this).1
  · have hlt : ∀ k, (bootedCpus n).processorId k ≠ invalidApicId → k < n.toNat := by
      intro k hk
      by_contra hc
      exact hk (hinvalid k (Nat.not_lt.mp hc))
    have hi := hlt i hne
    have hj := hlt j (heq ▸ hne)
    rw [hvalid i hi, hvalid j hj] at heq
    exact (hsmall i (by omega) j (by omega)).2 heq

theorem processors_counted_one_added :
    EachMeets (serveCpuStep twoSlots) (KeepsBooks twoSlots)
        ([.enterSmi 0, .setApicId 1 7, .smmAddProcessor 7 false] ++ [.smmCpuUpdate]) (bootedCpus 1) ↔
      EachMeets (serveCpuStep twoSlots) (AddsToFreeSlot twoSlots)
        ([.enterSmi 0, .setApicId 1 7, .smmAddProcessor 7 false] ++ [.smmCpuUpdate]) (bootedCpus 1) :=
  processors_counted_iff (cpusBooted (by decide)) _

def replaced : List CpuStep := [.enterSmi 0, .smmRemoveProcessor 1, .setApicId 1 7, .smmAddProcessor 7 false]

/-- The removal that was pending is forgotten: three processors are counted, and there are two. -/
theorem replaced_processor_counted_twice :
    ¬ EachMeets (serveCpuStep twoSlots) (KeepsBooks twoSlots) (replaced ++ [.smmCpuUpdate])
      (bootedCpus 2) := by
  intro h
  have hret : (Exec.serve (serveCpuStep twoSlots) replaced (bootedCpus 2)).value? = some () := by
    decide +kernel
  have hright := (h.last (Outcome.eq_ret hret) _ (serve_update _)).2 rfl
  have hwrong : (updated twoSlots (Exec.serve (serveCpuStep twoSlots) replaced
      (bootedCpus 2)).state).mNumberOfCpus.toNat ≠ validCount twoSlots (updated twoSlots
        (Exec.serve (serveCpuStep twoSlots) replaced (bootedCpus 2)).state) := by
    decide +kernel
  exact hwrong hright

end Quark.PiSmmCpu
