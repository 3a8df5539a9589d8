import Quark.PciHostBridge.RootBridgeIo

/-!
# `RootBridgeIoPollMem` and `RootBridgeIoPollIo`

A read stores the bytes of its width in the 64 bits of `*Result` and leaves the others. What is masked and
compared is the whole of `*Result`, with the bytes that the caller left there.
-/

namespace Quark.PciHostBridge

open Machine

def upperBytes (size : Nat) : BitVec 64 := BitVec.allOnes 64 <<< (8 * size)

def zeroExtended (bytes : List Byte) : BitVec 64 := BitVec.ofNat 64 (leValue bytes)

/-- The values of at most `n` reads, one after the other, up to the first that fails. -/
def readings {σ : Type} (read : Exec σ (EfiStatus × List Byte)) : Nat → σ → List (BitVec 64)
  | 0, _ => []
  | n + 1, s => match read s with
    | .ret (status, bytes) t => if status.isError then [] else zeroExtended bytes :: readings read n t
    | .stop _ _ => []

def allowedPolls (delay : BitVec 64) (m : Metronome) : Nat :=
  (if delay ≠ 0 then (numberOfTicks delay m).toNat else 0) + 1

section

variable {σ : Type} (p : RootBridgeIo σ)

def rootBridgeIoPoll : Space → Nat → BitVec 64 → BitVec 64 → BitVec 64 → BitVec 64 → ByteStore →
    Exec σ (EfiStatus × ByteStore)
  | .memory => rootBridgeIoPollMem p
  | .io => rootBridgeIoPollIo p

def polledRead (space : Space) (width : Nat) (address : BitVec 64) : Exec σ (EfiStatus × List Byte) :=
  match space with
  | .memory => rootBridgeIoMemRead p width address 1
  | .io => rootBridgeIoIoRead p width address 1

def polledValues (space : Space) (width : Nat) (address delay : BitVec 64) (s : σ) : List (BitVec 64) :=
  if width > efiPciWidthUint64 then []
  else readings (polledRead p space width address) (allowedPolls delay p.metronome) s

/-- `EFI_SUCCESS` is returned exactly when a polled value, zero-extended and masked, is `Value`. -/
def SucceedsOnMatch (space : Space) (width : Nat) (address mask value delay : BitVec 64) (s : σ) : Prop :=
  ∀ result status result' t,
    rootBridgeIoPoll p space width address mask value delay result s = .ret (status, result') t →
      (status = .success ↔ ∃ v ∈ polledValues p space width address delay s, v &&& mask = value)

def IgnoresResult (space : Space) (width : Nat) (address mask value delay : BitVec 64) (s : σ) : Prop :=
  ∀ result₁ result₂ status₁ status₂ result₁' result₂' t₁ t₂,
    rootBridgeIoPoll p space width address mask value delay result₁ s = .ret (status₁, result₁') t₁ →
    rootBridgeIoPoll p space width address mask value delay result₂ s = .ret (status₂, result₂') t₂ →
      status₁ = status₂ ∧ resultValue result₁' = resultValue result₂'

end

/-! ## The bytes of `*Result` -/

theorem getLsbD_resultValue (result : ByteStore) {i : Nat} (hi : i < 64) :
    (resultValue result).getLsbD i = (result (i / 8)).getLsbD (i % 8) := by
  have hbyte : i / 8 < 8 := by omega
  unfold resultValue ByteStore.read
  rw [BitVec.getLsbD_ofNat, testBit_leValue, List.getElem?_map, List.getElem?_range hbyte]
  simp [hi]

theorem getLsbD_upperBytes {size i : Nat} (hi : i < 64) :
    (upperBytes size).getLsbD i = decide (8 * size ≤ i) := by
  unfold upperBytes
  rw [BitVec.getLsbD_shiftLeft, BitVec.getLsbD_allOnes]
  have hsub : i - 8 * size < 64 := by omega
  by_cases hlow : 8 * size ≤ i
  · simp [hi, hsub, hlow]
  · simp [hlow, Nat.not_le.mp hlow]

theorem getLsbD_zeroExtended (bytes : List Byte) {i : Nat} (hi : i < 64) :
    (zeroExtended bytes).getLsbD i = (bytes[i / 8]?.getD 0).getLsbD (i % 8) := by
  unfold zeroExtended
  rw [BitVec.getLsbD_ofNat, testBit_leValue]
  simp [hi]

theorem resultValue_put (result : ByteStore) (bytes : List Byte) :
    resultValue (result.put 0 bytes) =
      (resultValue result &&& upperBytes bytes.length) ||| zeroExtended bytes := by
  refine BitVec.eq_of_getLsbD_eq fun i hi => ?_
  rw [BitVec.getLsbD_or, BitVec.getLsbD_and, getLsbD_resultValue _ hi, getLsbD_resultValue _ hi,
    getLsbD_upperBytes hi, getLsbD_zeroExtended _ hi]
  unfold ByteStore.put
  rw [if_pos (Nat.zero_le _), Nat.sub_zero]
  by_cases hin : i / 8 < bytes.length
  · have hlow : ¬ 8 * bytes.length ≤ i := by omega
    simp [List.getElem?_eq_getElem hin, hlow]
  · have hhigh : 8 * bytes.length ≤ i := by omega
    simp [List.getElem?_eq_none (Nat.not_lt.mp hin), hhigh]

theorem zeroExtended_and_upperBytes (bytes : List Byte) :
    zeroExtended bytes &&& upperBytes bytes.length = 0 := by
  refine BitVec.eq_of_getLsbD_eq fun i hi => ?_
  rw [BitVec.getLsbD_and, getLsbD_upperBytes hi, getLsbD_zeroExtended _ hi]
  by_cases hin : i / 8 < bytes.length
  · have hlow : ¬ 8 * bytes.length ≤ i := by omega
    simp [hlow]
  · simp [List.getElem?_eq_none (Nat.not_lt.mp hin)]

def resultOf (v : BitVec 64) : ByteStore := fun k => v.extractLsb' (8 * k) 8

theorem resultValue_resultOf (v : BitVec 64) : resultValue (resultOf v) = v := by
  refine BitVec.eq_of_getLsbD_eq fun i hi => ?_
  have hmod : i % 8 < 8 := Nat.mod_lt _ (by decide)
  rw [getLsbD_resultValue _ hi]
  unfold resultOf
  rw [BitVec.getLsbD_extractLsb', Nat.div_add_mod]
  simp [hmod]

/-! ## Masked words -/

theorem or_and_eq_iff {upper e v mask value : BitVec 64} (he : e &&& ~~~upper = 0) (hv : v &&& upper = 0) :
    (e ||| v) &&& mask = value ↔ e &&& mask = value &&& upper ∧ v &&& mask = value &&& ~~~upper := by
  have hbit : ∀ i < 64, (e.getLsbD i = true → upper.getLsbD i = true) ∧
      (v.getLsbD i = true → upper.getLsbD i = false) := by
    intro i hi
    have he := congrArg (fun w => BitVec.getLsbD w i) he
    have hv := congrArg (fun w => BitVec.getLsbD w i) hv
    simp only [BitVec.getLsbD_and, BitVec.getLsbD_not, hi, decide_true, Bool.true_and] at he hv
    constructor
    · intro h
      simpa [h] using he
    · intro h
      simpa [h] using hv
  constructor
  · rintro rfl
    constructor <;> refine BitVec.eq_of_getLsbD_eq fun i hi => ?_
    all_goals
      have h := hbit i hi
      simp only [BitVec.getLsbD_and, BitVec.getLsbD_or, BitVec.getLsbD_not, hi, decide_true, Bool.true_and]
      cases hbe : e.getLsbD i <;> cases hbv : v.getLsbD i <;> cases hbu : upper.getLsbD i <;>
        simp_all
  · rintro ⟨h₁, h₂⟩
    refine BitVec.eq_of_getLsbD_eq fun i hi => ?_
    have h₁ := congrArg (fun w => BitVec.getLsbD w i) h₁
    have h₂ := congrArg (fun w => BitVec.getLsbD w i) h₂
    simp only [BitVec.getLsbD_and, BitVec.getLsbD_or, BitVec.getLsbD_not, hi, decide_true,
      Bool.true_and] at h₁ h₂ ⊢
    rw [Bool.and_or_distrib_right, h₁, h₂]
    cases value.getLsbD i <;> cases upper.getLsbD i <;> rfl

/-! ## Reads -/

section

variable {σ : Type} {p : RootBridgeIo σ} {space : Space} {width : Nat} {address : BitVec 64}

variable (space address) in
theorem polledRead_ret (hio : p.cpuIo.StoresElements) (hwidth : width ≤ efiPciWidthUint64) (s : σ) :
    ∃ status bytes t, polledRead p space width address s = .ret (status, bytes) t ∧
      (status.isError = true → bytes = []) ∧
      (status.isError = false → bytes.length = elementSize width ∧ width < efiPciWidthUint64) := by
  have hlength : bufferLength width (1 : BitVec 32).toNat = elementSize width := by
    have hfill : isFill width = false := by
      have hle : width ≤ 3 := hwidth
      unfold isFill
      simp only [decide_eq_false_iff_not]
      omega
    unfold bufferLength
    rw [hfill]
    exact Nat.one_mul _
  by_cases hrefused : widthRefused width = true
  · refine ⟨.invalidParameter, [], s, ?_, fun _ => rfl, fun h => by cases h⟩
    cases space
    · exact congrFun (if_pos hrefused) s
    · exact congrFun (if_pos hrefused) s
  · have hlt : width < efiPciWidthUint64 := by
      refine Nat.lt_of_le_of_ne hwidth fun heq => hrefused ?_
      unfold widthRefused
      simp [heq]
    have hcall : ∀ f : σ → (EfiStatus × List Byte) × σ,
        (f s).1.2.length = (if (f s).1.1.isError then 0 else bufferLength width (1 : BitVec 32).toNat) →
        ∃ status bytes t, call f s = .ret (status, bytes) t ∧ (status.isError = true → bytes = []) ∧
          (status.isError = false → bytes.length = elementSize width ∧ width < efiPciWidthUint64) := by
      intro f hf
      refine ⟨(f s).1.1, (f s).1.2, (f s).2, rfl, fun h => ?_, fun h => ?_⟩
      · rw [if_pos h] at hf
        exact List.eq_nil_of_length_eq_zero hf
      · rw [h, if_neg (by decide), hlength] at hf
        exact ⟨hf, hlt⟩
    have hreject : ∃ status bytes t,
        (pure (EfiStatus.invalidParameter, []) : Exec σ (EfiStatus × List Byte)) s = .ret (status, bytes) t ∧
          (status.isError = true → bytes = []) ∧
          (status.isError = false → bytes.length = elementSize width ∧ width < efiPciWidthUint64) :=
      ⟨.invalidParameter, [], s, rfl, fun _ => rfl, fun h => by cases h⟩
    cases space
    · show ∃ status bytes t, rootBridgeIoIoRead p width address 1 s = _ ∧ _
      unfold rootBridgeIoIoRead
      rw [if_neg hrefused]
      split
      · exact hreject
      · exact hcall _ (hio width address 1 s).2
    · show ∃ status bytes t, rootBridgeIoMemRead p width address 1 s = _ ∧ _
      unfold rootBridgeIoMemRead
      rw [if_neg hrefused]
      split
      · exact hreject
      · exact hcall _ (hio width address 1 s).1

theorem poll_eq_pollTicks {read : Exec σ (EfiStatus × List Byte)} {m : Metronome} {mask value delay : BitVec 64}
    (hwidth : width ≤ efiPciWidthUint64) (result : ByteStore) :
    poll read m width mask value delay result = pollTicks read mask value (allowedPolls delay m) result := by
  unfold poll allowedPolls
  rw [if_neg (Nat.not_lt.mpr hwidth)]
  by_cases hdelay : delay = 0
  · rw [if_neg (not_not.mpr hdelay)]
    simp only [ne_eq, hdelay, not_true_eq_false, if_false]
    rfl
  · rw [if_pos hdelay]
    simp only [ne_eq, hdelay, not_false_eq_true, if_true]
    rfl

/-! ## A sequence of polls -/

theorem pollTicks_ret (hio : p.cpuIo.StoresElements) (hwidth : width ≤ efiPciWidthUint64)
    (mask value : BitVec 64) (n : Nat) (result : ByteStore) (s : σ) :
    ∃ status result' t,
      pollTicks (polledRead p space width address) mask value n result s = .ret (status, result') t ∧
      (status = .success ↔ ∃ v ∈ readings (polledRead p space width address) n s,
        ((resultValue result &&& upperBytes (elementSize width)) ||| v) &&& mask = value) ∧
      result' 7 = result 7 := by
  induction n generalizing result s with
  | zero =>
    exact ⟨.timeout, result, s, rfl, ⟨fun h => (nomatch h), fun ⟨_, hv, _⟩ => (nomatch hv)⟩, rfl⟩
  | succ n ih =>
    obtain ⟨status, bytes, t, hread, herr, hok⟩ :=
      polledRead_ret space address hio hwidth s
    unfold pollTicks readings
    rw [Exec.bind_of_ret hread, hread]
    dsimp only
    cases hstatus : status.isError with
    | true =>
      have hne : status ≠ .success := fun h => by rw [h] at hstatus; cases hstatus
      rw [herr hstatus, ByteStore.put_nil]
      exact ⟨status, result, t, rfl, ⟨fun h => absurd h hne, fun ⟨_, hv, _⟩ => (nomatch hv)⟩, rfl⟩
    | false =>
      obtain ⟨hlen, hlt⟩ := hok hstatus
      have hvalue := resultValue_put result bytes
      have hsize : elementSize width ≤ 4 := by
        unfold elementSize
        rw [Nat.mod_eq_of_lt (Nat.lt_succ_of_lt hlt)]
        exact Nat.pow_le_pow_right (by decide) (Nat.le_of_lt_succ hlt)
      have hseven : (result.put 0 bytes) 7 = result 7 := ByteStore.put_of_ge (by omega)
      rw [hlen] at hvalue
      rw [if_neg Bool.false_ne_true, if_neg Bool.false_ne_true]
      by_cases hhit : resultValue (result.put 0 bytes) &&& mask = value
      · rw [if_pos hhit]
        rw [hvalue] at hhit
        exact ⟨.success, _, t, rfl, ⟨fun _ => ⟨_, List.mem_cons_self, hhit⟩, fun _ => rfl⟩, hseven⟩
      · rw [if_neg hhit]
        obtain ⟨status', result', t', hrun, hmatch, hkeep⟩ := ih (result.put 0 bytes) t
        refine ⟨status', result', t', hrun, ?_, hkeep.trans hseven⟩
        have hupper : resultValue (result.put 0 bytes) &&& upperBytes (elementSize width) =
            resultValue result &&& upperBytes (elementSize width) := by
          have hlow := zeroExtended_and_upperBytes bytes
          rw [hlen] at hlow
          rw [hvalue, BitVec.and_comm, BitVec.and_or_distrib_left, BitVec.and_comm (upperBytes _) (zeroExtended _),
            hlow, BitVec.and_comm, BitVec.and_assoc, BitVec.and_self]
          exact BitVec.or_zero
        rw [hmatch, hupper, List.exists_mem_cons_iff, ← hvalue]
        exact (or_iff_right hhit).symm

end

/-! ## What polls depend on -/

section

variable {σ : Type} {p : RootBridgeIo σ} {space : Space} {width : Nat}
  {address mask value delay : BitVec 64} {s : σ}

variable (space width address mask value delay s) in
theorem rootBridgeIoPoll_ret (hio : p.cpuIo.StoresElements) (result : ByteStore) :
    ∃ status result' t,
      rootBridgeIoPoll p space width address mask value delay result s = .ret (status, result') t ∧
      (status = .success ↔ ∃ v ∈ polledValues p space width address delay s,
        ((resultValue result &&& upperBytes (elementSize width)) ||| v) &&& mask = value) ∧
      result' 7 = result 7 := by
  have hpoll : rootBridgeIoPoll p space width address mask value delay result =
      poll (polledRead p space width address) p.metronome width mask value delay result := by
    cases space <;> rfl
  rw [hpoll]
  unfold polledValues
  by_cases hwidth : width ≤ efiPciWidthUint64
  · rw [if_neg (Nat.not_lt.mpr hwidth), poll_eq_pollTicks hwidth]
    exact pollTicks_ret hio hwidth mask value _ result s
  · have hgt := Nat.not_le.mp hwidth
    unfold poll
    rw [if_pos hgt, if_pos hgt]
    exact ⟨.invalidParameter, result, s, rfl, ⟨fun h => (nomatch h), fun ⟨_, hv, _⟩ => (nomatch hv)⟩, rfl⟩

theorem readings_and_upperBytes (hio : p.cpuIo.StoresElements) (hwidth : width ≤ efiPciWidthUint64) {n : Nat}
    {v : BitVec 64} (hv : v ∈ readings (polledRead p space width address) n s) :
    v &&& upperBytes (elementSize width) = 0 := by
  induction n generalizing s with
  | zero => cases hv
  | succ n ih =>
    obtain ⟨status, bytes, t, hread, _, hok⟩ :=
      polledRead_ret space address hio hwidth s
    unfold readings at hv
    rw [hread] at hv
    dsimp only at hv
    split at hv
    · cases hv
    · next hstatus =>
      rcases List.mem_cons.mp hv with rfl | hv
      · rw [← (hok (by simpa using hstatus)).1]
        exact zeroExtended_and_upperBytes bytes
      · exact ih hv

theorem polledValues_and_upperBytes (hio : p.cpuIo.StoresElements) {v : BitVec 64}
    (hv : v ∈ polledValues p space width address delay s) : v &&& upperBytes (elementSize width) = 0 := by
  unfold polledValues at hv
  split at hv
  · cases hv
  · next hwidth => exact readings_and_upperBytes hio (Nat.not_lt.mp hwidth) hv

theorem not_ignoresResult (hio : p.cpuIo.StoresElements) :
    ¬ IgnoresResult p space width address mask value delay s := by
  intro hignores
  obtain ⟨status₁, r₁, t₁, hrun₁, _, hseven₁⟩ := rootBridgeIoPoll_ret space width address mask value
    delay s hio (fun _ => 0)
  obtain ⟨status₂, r₂, t₂, hrun₂, _, hseven₂⟩ := rootBridgeIoPoll_ret space width address mask value
    delay s hio (fun _ => 1)
  have heq := congrArg (fun v => BitVec.getLsbD v 56) (hignores _ _ _ _ _ _ _ _ hrun₁ hrun₂).2
  rw [getLsbD_resultValue r₁ (by decide), getLsbD_resultValue r₂ (by decide)] at heq
  change (r₁ 7).getLsbD 0 = (r₂ 7).getLsbD 0 at heq
  rw [hseven₁, hseven₂] at heq
  cases heq

/-- The status is right, whatever `*Result` held, if the mask is zero above the width, if `Value` has a bit
there that the mask has not, or if no polled value matches in the bytes of the width. -/
theorem succeedsOnMatch_iff (hio : p.cpuIo.StoresElements) :
    SucceedsOnMatch p space width address mask value delay s ↔
      mask &&& upperBytes (elementSize width) = 0 ∨
      value &&& upperBytes (elementSize width) &&& ~~~mask ≠ 0 ∨
      ∀ v ∈ polledValues p space width address delay s,
        v &&& mask ≠ value &&& ~~~upperBytes (elementSize width) := by
  have hlow : ∀ v ∈ polledValues p space width address delay s, v &&& upperBytes (elementSize width) = 0 :=
    fun v hv => polledValues_and_upperBytes hio hv
  have hcut : ∀ e : BitVec 64, (e &&& upperBytes (elementSize width)) &&& ~~~upperBytes (elementSize width) = 0 := by
    intro e
    rw [BitVec.and_assoc, BitVec.and_not_self]
    exact BitVec.and_zero
  have hzero : ∀ e : BitVec 64, 0 &&& e = 0 := fun e => BitVec.zero_and
  have hor : ∀ e : BitVec 64, 0 ||| e = e := fun e => BitVec.zero_or
  -- A value matches by itself if `Value` has nothing above the width.
  have hself : ∀ v ∈ polledValues p space width address delay s,
      v &&& mask = value ↔ value &&& upperBytes (elementSize width) = 0 ∧
        v &&& mask = value &&& ~~~upperBytes (elementSize width) := by
    intro v hv
    have h := @or_and_eq_iff _ _ v mask value (hcut 0) (hlow v hv)
    rw [hzero, hor, hzero] at h
    rw [h]
    exact and_congr_left fun _ => eq_comm
  constructor
  · intro hsucceeds
    by_contra hcond
    simp only [not_or, not_not, not_forall] at hcond
    obtain ⟨hmask, hvalue, v, hv, hmatch⟩ := hcond
    by_cases hvalue₀ : value &&& upperBytes (elementSize width) = 0
    · -- The bits that the mask has above the width are left in `*Result`.
      obtain ⟨status, r, t, hrun, hstatus, _⟩ := rootBridgeIoPoll_ret space width address mask value
        delay s hio (resultOf mask)
      have hsuccess := (hsucceeds _ _ _ _ hrun).mpr ⟨v, hv, (hself v hv).mpr ⟨hvalue₀, hmatch⟩⟩
      obtain ⟨w, hw, hhit⟩ := hstatus.mp hsuccess
      rw [resultValue_resultOf, or_and_eq_iff (hcut mask) (hlow w hw), hvalue₀, BitVec.and_comm,
        ← BitVec.and_assoc, BitVec.and_self] at hhit
      exact hmask hhit.1
    · -- The bits of `Value` above the width are left in `*Result`.
      obtain ⟨status, r, t, hrun, hstatus, _⟩ := rootBridgeIoPoll_ret space width address mask value
        delay s hio (resultOf value)
      have hinside : value &&& upperBytes (elementSize width) &&& mask =
          value &&& upperBytes (elementSize width) := by
        have hsplit := BitVec.and_or_distrib_left (x := value &&& upperBytes (elementSize width))
          (y := mask) (z := ~~~mask)
        rw [BitVec.or_not_self, BitVec.and_allOnes, hvalue] at hsplit
        exact (hsplit.trans BitVec.or_zero).symm
      have hsuccess := hstatus.mpr ⟨v, hv, by
        rw [resultValue_resultOf, or_and_eq_iff (hcut value) (hlow v hv)]
        exact ⟨hinside, hmatch⟩⟩
      obtain ⟨w, hw, hhit⟩ := (hsucceeds _ _ _ _ hrun).mp hsuccess
      exact hvalue₀ ((hself w hw).mp hhit).1
  · intro hcond result status result' t hrun
    obtain ⟨status₁, r₁, t₁, hrun₁, hstatus, _⟩ := rootBridgeIoPoll_ret space width address mask value
      delay s hio result
    rw [hrun] at hrun₁
    injection hrun₁ with hans _
    have hfst : status = status₁ := congrArg Prod.fst hans
    rw [hfst, hstatus]
    refine exists_congr fun v => and_congr_right fun hv => ?_
    rw [or_and_eq_iff (hcut _) (hlow v hv), hself v hv]
    refine and_congr_left fun hmatch => ?_
    rcases hcond with hmask | hvalue | hnone
    · have hleft : resultValue result &&& upperBytes (elementSize width) &&& mask = 0 := by
        rw [BitVec.and_assoc, BitVec.and_comm (upperBytes _) mask, hmask]
        exact BitVec.and_zero
      rw [hleft]
      exact eq_comm
    · constructor
      · intro h
        refine absurd ?_ hvalue
        rw [← h, BitVec.and_assoc, BitVec.and_not_self]
        exact BitVec.and_zero
      · intro h
        refine absurd ?_ hvalue
        rw [h, hzero]
    · exact absurd hmatch (hnone v hv)

end

/-- No poll is a function of the device alone; its status is, as far as `succeedsOnMatch_iff` says. -/
theorem rootBridgeIoPoll_not_deviceOnly {σ : Type} (p : RootBridgeIo σ) (hio : p.cpuIo.StoresElements)
    (space : Space) (width : Nat) (address mask value delay : BitVec 64) (s : σ) :
    ¬ (SucceedsOnMatch p space width address mask value delay s ∧
        IgnoresResult p space width address mask value delay s) ∧
      (SucceedsOnMatch p space width address mask value delay s ↔
        mask &&& upperBytes (elementSize width) = 0 ∨
        value &&& upperBytes (elementSize width) &&& ~~~mask ≠ 0 ∨
        ∀ v ∈ polledValues p space width address delay s,
          v &&& mask ≠ value &&& ~~~upperBytes (elementSize width)) :=
  ⟨fun h => not_ignoresResult hio h.2, succeedsOnMatch_iff hio⟩

/-! ## A status register -/

def CpuIo.statusRegister (b : Byte) : CpuIo Unit where
  memRead width _ count s := ((.success, List.replicate (bufferLength width count.toNat) b), s)
  memWrite _ _ _ _ s := (.success, s)
  ioRead width _ count s := ((.success, List.replicate (bufferLength width count.toNat) b), s)
  ioWrite _ _ _ _ s := (.success, s)

theorem CpuIo.statusRegister_stores (b : Byte) : (CpuIo.statusRegister b).StoresElements :=
  fun _ _ _ _ => ⟨List.length_replicate, List.length_replicate⟩

def statusBridge : RootBridgeIo Unit where
  aperture := ⟨0, 0, 0, 0xFFFFFFFF, 0, 0, 0, 0xFFFF⟩
  hecBase := 0xE0000000
  cpuIo := CpuIo.statusRegister 1
  metronome := ⟨100, tick_ne_zero⟩
  assertEnabled := true

theorem rootBridgeIoPoll_not_deviceOnly_status :
    ¬ (SucceedsOnMatch statusBridge .memory 0 0x1000 0xFF 1 0 () ∧
        IgnoresResult statusBridge .memory 0 0x1000 0xFF 1 0 ()) :=
  (rootBridgeIoPoll_not_deviceOnly statusBridge (CpuIo.statusRegister_stores 1) .memory 0 0x1000 0xFF 1 0 ()).1

/-- The register reads 1, and 1 is polled for under a mask of 64 ones; a byte that was left in `*Result`
makes it a timeout. -/
theorem rootBridgeIoPoll_misses_match :
    ¬ (SucceedsOnMatch statusBridge .memory 0 0x1000 0xFFFFFFFFFFFFFFFF 1 0 () ∧
        IgnoresResult statusBridge .memory 0 0x1000 0xFFFFFFFFFFFFFFFF 1 0 ()) := by
  rintro ⟨hsucceeds, -⟩
  have h := (hsucceeds (resultOf 0x100) .timeout _ () rfl).mpr ⟨1, List.mem_cons_self, rfl⟩
  cases h

end Quark.PciHostBridge
