import Quark.SmmDispatcher.Core

/-!
# SMI sources in hardware

What the accesses of the dispatcher do to single registers and bits. A write reaches one register; in a
plain register `WriteBitDesc` changes one bit, and in a status register it clears every bit, since it writes
back all those it has read as 1.
-/

namespace Quark.SmmDispatcher

open Machine

variable {hw : Hw}

/-! ## Writes -/

theorem reg_ioWrite_ne {type t : AddrType} {addr a : Nat} {width : Width} {value : BitVec 32}
    (h : ¬ (t = type ∧ a = addr)) : (hw.ioWrite type addr width value).reg t a = hw.reg t a :=
  if_neg h

theorem reg_ioWrite_status {type : AddrType} {addr : Nat} {width : Width} {value : BitVec 32}
    (h : IsStatus type addr) : (hw.ioWrite type addr width value).reg type addr =
      hw.reg type addr &&& ~~~(value &&& width.mask) := by
  unfold Hw.ioWrite
  simp only [and_self, if_true, if_pos h]

theorem reg_ioWrite_plain {type : AddrType} {addr : Nat} {width : Width} {value : BitVec 32}
    (h : ¬ IsStatus type addr) : (hw.ioWrite type addr width value).reg type addr =
      merge (hw.reg type addr) value width.mask := by
  unfold Hw.ioWrite
  simp only [and_self, if_true, if_neg h]

@[simp] theorem apmCnt_ioWrite (type : AddrType) (addr : Nat) (width : Width) (value : BitVec 32) :
    (hw.ioWrite type addr width value).apmCnt = hw.apmCnt :=
  rfl

theorem reg_ioOr_status {type : AddrType} {addr : Nat} {orData : BitVec 32}
    (h : IsStatus type addr) : (hw.ioOr type addr .dword orData).reg type addr = 0 := by
  rw [Hw.ioOr, reg_ioWrite_status h]
  apply BitVec.eq_of_getLsbD_eq
  intro i hi
  have hm : (Width.dword.mask).getLsbD i = true := by
    have : ∀ i < 32, (Width.dword.mask).getLsbD i = true := by decide
    exact this i hi
  simp only [Hw.ioRead, BitVec.getLsbD_and, BitVec.getLsbD_not, BitVec.getLsbD_or, hm, hi,
    decide_true, Bool.and_true]
  cases (hw.reg type addr).getLsbD i <;> simp

/-! ## Bits -/

theorem reg_writeBitDesc_ne {d : BitDesc} {v : Bool} {t : AddrType} {a : Nat}
    (h : ¬ (t = d.type ∧ a = d.reg)) : (writeBitDesc hw d v).reg t a = hw.reg t a :=
  reg_ioWrite_ne h

theorem getLsbD_writeBitDesc_plain {d : BitDesc} {v : Bool} (h : ¬ IsStatus d.type d.reg) (i : Nat) :
    ((writeBitDesc hw d v).reg d.type d.reg).getLsbD i =
      if i = d.bit ∧ d.width.mask.getLsbD i = true then v else (hw.reg d.type d.reg).getLsbD i := by
  rw [writeBitDesc, Hw.ioAndThenOr, reg_ioWrite_plain h, getLsbD_merge]
  by_cases hi : i < 32
  · cases hm : d.width.mask.getLsbD i with
    | false => simp
    | true =>
      have hone : (1#32 <<< d.bit).getLsbD i = decide (i = d.bit) := by
        rw [BitVec.getLsbD_shiftLeft]
        have h1 : (1#32).getLsbD (i - d.bit) = decide (i - d.bit = 0) :=
          BitVec.getLsbD_one.trans (by simp)
        rw [h1]
        by_cases hib : i = d.bit
        · simp [hib, hib ▸ hi]
        · simp only [hi, decide_true, Bool.true_and, hib, decide_false]
          by_cases hlt : i < d.bit
          · simp [hlt]
          · simp only [hlt, decide_false, Bool.not_false, Bool.true_and, decide_eq_false_iff_not]
            omega
      have hor : (if v = true then 1#32 <<< d.bit else 0).getLsbD i =
          (v && decide (i = d.bit)) := by
        cases v
        · simp
        · simpa using hone
      simp only [Hw.ioRead, BitVec.getLsbD_or, BitVec.getLsbD_and, BitVec.getLsbD_not, hone, hor, hm,
        hi, decide_true, Bool.true_and, Bool.and_true, and_true, if_true]
      by_cases hib : i = d.bit
      · simp [hib]
      · simp [hib]
  · have hm : d.width.mask.getLsbD i = false := BitVec.getLsbD_of_ge _ _ (Nat.le_of_not_lt hi)
    simp [hm]

theorem readBitDesc_writeBitDesc {d e : BitDesc} {v : Bool} (h : ¬ IsStatus d.type d.reg)
    (hin : d.width.mask.getLsbD d.bit = true) (hein : e.width.mask.getLsbD e.bit = true) :
    readBitDesc (writeBitDesc hw d v) e =
      if e.type = d.type ∧ e.reg = d.reg ∧ e.bit = d.bit then v else readBitDesc hw e := by
  unfold readBitDesc Hw.ioRead
  rw [BitVec.getLsbD_and, BitVec.getLsbD_and, hein, Bool.and_true, Bool.and_true]
  by_cases hr : e.type = d.type ∧ e.reg = d.reg
  · obtain ⟨ht, ha⟩ := hr
    rw [ht, ha, getLsbD_writeBitDesc_plain h]
    by_cases hb : e.bit = d.bit
    · simp [hb, hin]
    · simp [hb]
  · rw [reg_writeBitDesc_ne hr, if_neg (fun hc => hr ⟨hc.1, hc.2.1⟩)]

theorem readBitDesc_of_reg {hw' : Hw} {e : BitDesc} (h : hw'.reg e.type e.reg = hw.reg e.type e.reg) :
    readBitDesc hw' e = readBitDesc hw e := by
  unfold readBitDesc Hw.ioRead
  rw [h]

/-! ## Frames of the operations on sources -/

theorem reg_ioWrite_of_zero {type t : AddrType} {addr a : Nat} {width : Width} {value : BitVec 32}
    (h : IsStatus t a) (h0 : hw.reg t a = 0) : (hw.ioWrite type addr width value).reg t a = 0 := by
  by_cases hr : t = type ∧ a = addr
  · obtain ⟨rfl, rfl⟩ := hr
    rw [reg_ioWrite_status h, h0]
    exact BitVec.zero_and
  · rw [reg_ioWrite_ne hr, h0]

theorem reg_clearSource_ne {src : SourceDesc} {t : AddrType} {a : Nat}
    (h : ∀ d ∈ src.sts, ¬ (t = d.type ∧ a = d.reg)) :
    (qncSmmClearSource hw src).reg t a = hw.reg t a := by
  unfold qncSmmClearSource
  cases hs : src.sts with
  | none => rfl
  | some d => exact reg_writeBitDesc_ne (h d hs)

theorem reg_clearSource_of_zero {src : SourceDesc} {t : AddrType} {a : Nat} (h : IsStatus t a)
    (h0 : hw.reg t a = 0) : (qncSmmClearSource hw src).reg t a = 0 := by
  unfold qncSmmClearSource
  cases src.sts with
  | none => exact h0
  | some d => exact reg_ioWrite_of_zero h h0

theorem reg_foldl_writeBitDesc_ne {v : Bool} {t : AddrType} {a : Nat} :
    ∀ {ds : List BitDesc} {hw : Hw}, (∀ d ∈ ds, ¬ (t = d.type ∧ a = d.reg)) →
      (ds.foldl (fun hw d => writeBitDesc hw d v) hw).reg t a = hw.reg t a := by
  intro ds
  induction ds with
  | nil => intro hw _; rfl
  | cons d ds ih =>
    intro hw h
    have hd := h d List.mem_cons_self
    rw [List.foldl_cons, ih fun e he => h e (List.mem_cons_of_mem d he), reg_writeBitDesc_ne hd]

theorem reg_foldl_writeBitDesc_of_zero {v : Bool} {t : AddrType} {a : Nat} (hst : IsStatus t a) :
    ∀ {ds : List BitDesc} {hw : Hw}, hw.reg t a = 0 →
      (ds.foldl (fun hw d => writeBitDesc hw d v) hw).reg t a = 0 := by
  intro ds
  induction ds with
  | nil => intro hw h; exact h
  | cons d ds ih => intro hw h; exact ih (reg_ioWrite_of_zero hst h)

theorem reg_disableSource_ne {src : SourceDesc} {t : AddrType} {a : Nat}
    (h : ∀ d ∈ src.enables, ¬ (t = d.type ∧ a = d.reg)) :
    (qncSmmDisableSource hw src).reg t a = hw.reg t a :=
  reg_foldl_writeBitDesc_ne h

theorem reg_enableSource_ne {src : SourceDesc} {t : AddrType} {a : Nat}
    (he : ∀ d ∈ src.enables, ¬ (t = d.type ∧ a = d.reg))
    (hs : ∀ d ∈ src.sts, ¬ (t = d.type ∧ a = d.reg)) :
    (qncSmmEnableSource hw src).reg t a = hw.reg t a :=
  (reg_clearSource_ne hs).trans (reg_foldl_writeBitDesc_ne he)

theorem reg_setAndCheckEos_smis : (qncSmmSetAndCheckEos hw).2.reg .gpe smis = 0 :=
  reg_ioOr_status (by decide)

theorem reg_setAndCheckEos_ne {t : AddrType} {a : Nat} (h : ¬ (t = .gpe ∧ a = smis)) :
    (qncSmmSetAndCheckEos hw).2.reg t a = hw.reg t a :=
  reg_ioWrite_ne h

theorem qncSmmGetSciEn_eq : qncSmmGetSciEn hw = (hw.reg .acpi pm1c).getLsbD 0 := by
  have hbit : ∀ v : BitVec 32, v &&& pm1cScien = pm1cScien ↔ v.getLsbD 0 = true := by
    intro v
    constructor
    · intro h
      have := congrArg (BitVec.getLsbD · 0) h
      simpa using this
    · intro h
      apply BitVec.eq_of_getLsbD_eq
      intro i _
      have hone : pm1cScien.getLsbD i = decide (i = 0) := BitVec.getLsbD_one.trans (by simp)
      rw [BitVec.getLsbD_and, hone]
      by_cases hi : i = 0
      · simp [hi, h]
      · simp [hi]
  have hmask : (Width.dword.mask).getLsbD 0 = true := by decide
  rw [Bool.eq_iff_iff, qncSmmGetSciEn, decide_eq_true_iff, hbit, Hw.ioRead, BitVec.getLsbD_and, hmask,
    Bool.and_true]

theorem sourceIsActive_congr {hw' : Hw} {src : SourceDesc}
    (hbits : ∀ d ∈ src.enables ++ src.sts.toList, hw'.reg d.type d.reg = hw.reg d.type d.reg)
    (hsci : qncSmmGetSciEn hw' = qncSmmGetSciEn hw) :
    sourceIsActive hw' src = sourceIsActive hw src := by
  have hread : ∀ d ∈ src.enables ++ src.sts.toList, readBitDesc hw' d = readBitDesc hw d :=
    fun d hd => readBitDesc_of_reg (hbits d hd)
  have hall : ∀ l : List BitDesc, (∀ d ∈ l, readBitDesc hw' d = readBitDesc hw d) →
      l.all (readBitDesc hw') = l.all (readBitDesc hw) := by
    intro l hl
    induction l with
    | nil => rfl
    | cons d l ih =>
      rw [List.all_cons, List.all_cons, hl d List.mem_cons_self,
        ih fun e he => hl e (List.mem_cons_of_mem d he)]
  unfold sourceIsActive
  rw [hsci, hall _ fun d hd => hread d (List.mem_append_left _ hd),
    hall _ fun d hd => hread d (List.mem_append_right _ hd)]

theorem sourceIsActive_of_zero {src : SourceDesc} {d : BitDesc} (hd : src.sts = some d)
    (h0 : hw.reg d.type d.reg = 0) : sourceIsActive hw src = false := by
  unfold sourceIsActive
  simp [hd, readBitDesc, Hw.ioRead, h0]

/-! ## Going to sleep -/

theorem reg_sxGoToSleep_ne {t : AddrType} {a : Nat} (hsmis : ¬ (t = .gpe ∧ a = smis))
    (hsmie : ¬ (t = .gpe ∧ a = smie)) (hpm1c : ¬ (t = .acpi ∧ a = pm1c)) :
    (qncSmmSxGoToSleep hw).reg t a = hw.reg t a := by
  have hsts : ∀ d ∈ sxSourceDesc.sts, ¬ (t = d.type ∧ a = d.reg) := by
    intro d hd
    cases hd
    exact hsmis
  have hen : ∀ d ∈ sxSourceDesc.enables, ¬ (t = d.type ∧ a = d.reg) := by
    intro d hd
    simp only [SourceDesc.enables, sxSourceDesc, smiSource, Option.toList_some, Option.toList_none,
      List.append_nil, List.mem_singleton] at hd
    rw [hd]
    exact hsmie
  unfold qncSmmSxGoToSleep
  rw [reg_enableSource_ne hen hsts, reg_clearSource_ne hsts]
  have hwake : ∀ h : Hw, (if h.ioRead .acpi pm1c .dword &&& pm1cScien = 0 then
      h.ioWrite .acpi pm1c .dword (h.ioRead .acpi pm1c .dword &&& ~~~pm1cSlptp) else h).reg t a =
        h.reg t a := by
    intro h
    split
    · exact reg_ioWrite_ne hpm1c
    · rfl
  rw [hwake]
  unfold Hw.ioOr Hw.ioAnd
  rw [reg_ioWrite_ne hpm1c, reg_ioWrite_ne hsmis, reg_ioWrite_ne hsmie, reg_disableSource_ne hen,
    reg_clearSource_ne hsts]

theorem reg_sxGoToSleep_smis (h0 : hw.reg .gpe smis = 0) :
    (qncSmmSxGoToSleep hw).reg .gpe smis = 0 := by
  have hst : IsStatus .gpe smis := by decide
  unfold qncSmmSxGoToSleep qncSmmEnableSource qncSmmDisableSource
  apply reg_clearSource_of_zero hst
  apply reg_foldl_writeBitDesc_of_zero hst
  apply reg_clearSource_of_zero hst
  have hbase : ((qncSmmClearSource hw sxSourceDesc).reg .gpe smis) = 0 :=
    reg_clearSource_of_zero hst h0
  split
  · apply reg_ioWrite_of_zero hst
    apply reg_ioWrite_of_zero hst
    apply reg_ioWrite_of_zero hst
    apply reg_ioWrite_of_zero hst
    exact reg_foldl_writeBitDesc_of_zero hst hbase
  · apply reg_ioWrite_of_zero hst
    apply reg_ioWrite_of_zero hst
    apply reg_ioWrite_of_zero hst
    exact reg_foldl_writeBitDesc_of_zero hst hbase

theorem qncSmmGetSciEn_sxGoToSleep :
    qncSmmGetSciEn (qncSmmSxGoToSleep hw) = qncSmmGetSciEn hw := by
  have hsts : ∀ d ∈ sxSourceDesc.sts, ¬ (AddrType.acpi = d.type ∧ pm1c = d.reg) := by decide
  have hen : ∀ d ∈ sxSourceDesc.enables, ¬ (AddrType.acpi = d.type ∧ pm1c = d.reg) := by decide
  have hplain : ¬ IsStatus .acpi pm1c := by decide
  have hmask : (Width.dword.mask).getLsbD 0 = true := by decide
  have hwake : ∀ h : Hw, ((if h.ioRead .acpi pm1c .dword &&& pm1cScien = 0 then
      h.ioWrite .acpi pm1c .dword (h.ioRead .acpi pm1c .dword &&& ~~~pm1cSlptp) else h).reg
        .acpi pm1c).getLsbD 0 = (h.reg .acpi pm1c).getLsbD 0 := by
    intro h
    have hkeep : (~~~pm1cSlptp).getLsbD 0 = true := by decide
    split
    · rw [reg_ioWrite_plain hplain, getLsbD_merge, if_pos hmask, BitVec.getLsbD_and, hkeep, Hw.ioRead,
        BitVec.getLsbD_and, hmask, Bool.and_true, Bool.and_true]
    · rfl
  rw [qncSmmGetSciEn_eq, qncSmmGetSciEn_eq]
  unfold qncSmmSxGoToSleep
  rw [reg_enableSource_ne hen hsts, reg_clearSource_ne hsts, hwake]
  unfold Hw.ioOr Hw.ioAnd
  have hslpen : pm1cSlpen.getLsbD 0 = false := by decide
  rw [reg_ioWrite_plain hplain, getLsbD_merge, if_pos hmask, BitVec.getLsbD_or, hslpen, Bool.or_false,
    Hw.ioRead, BitVec.getLsbD_and, hmask, Bool.and_true, reg_ioWrite_ne (by decide),
    reg_ioWrite_ne (by decide), reg_disableSource_ne hen, reg_clearSource_ne hsts]

end Quark.SmmDispatcher
