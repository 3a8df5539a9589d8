import Quark.PciHostBridge.Proofs.ConfigAccessProofs

/-!
# Where the two paths agree

Plain widths, and single elements of any width, take the same registers to the same places. From the second
element on, a FIFO or a fill does not: its stride is taken for a number of bytes, and a fill stays at its
first register.
-/

namespace Quark.PciHostBridge

open Machine

def LegacyAgrees (a : Aperture) (width reg count : Nat) : Prop :=
  reg % elementSize width ≠ 0 ∨ count = 0 ∨
    ((width ≤ efiPciWidthUint64 ∨ count = 1) ∧ ∀ i < count, portReachable a (regAt width reg i) = true)

/-! ## Elements of constant stores -/

theorem read_const (b : Byte) (pos n : Nat) : ByteStore.read (fun _ => b) pos n = List.replicate n b := by
  unfold ByteStore.read
  rw [List.map_const', List.length_range]

theorem put_replicate {store : ByteStore} {pos n x : Nat} {b : Byte} (hlow : pos ≤ x) (hhigh : x < pos + n) :
    store.put pos (List.replicate n b) x = b := by
  obtain ⟨i, rfl⟩ := Nat.exists_eq_add_of_le hlow
  refine ByteStore.put_of_getElem? ?_
  rw [List.getElem?_replicate, if_pos (by omega)]

theorem readElements_const (width : Nat) (b : Byte) (off count : Nat) :
    readElements width (fun _ => b) off count = List.replicate (bufferLength width count) b := by
  unfold readElements bufferLength
  split
  · split
    · next h => rw [h, Nat.zero_min, Nat.zero_mul, List.replicate_zero]
    · next h => rw [read_const, Nat.min_eq_right (Nat.one_le_iff_ne_zero.mpr h), Nat.one_mul]
  · split
    · rw [read_const, List.flatten_replicate_replicate]
    · rw [read_const]

theorem readElements_one (width : Nat) (config : ByteStore) (off : Nat) :
    readElements width config off 1 = config.read off (elementSize width) := by
  unfold readElements
  split
  · rw [if_neg Nat.one_ne_zero, Nat.sub_self, Nat.zero_mul, Nat.add_zero]
  · split
    · exact List.flatten_singleton
    · rw [Nat.one_mul]

theorem writeElements_one (width : Nat) (config : ByteStore) (off : Nat) (bytes : List Byte) :
    writeElements width config off 1 bytes = config.put off bytes := by
  unfold writeElements
  split
  · rw [List.replicate_one, List.flatten_singleton]
  · split
    · rw [if_neg Nat.one_ne_zero, Nat.sub_self, Nat.zero_mul, List.drop_zero]
    · rfl

section

variable {p : RootBridgeIo PciSpace} {width : Nat} {loc : PciLocation} {count : BitVec 32}

theorem bufferLength_pos {n : Nat} (h : n ≠ 0) : 0 < bufferLength width n := by
  have hpos := elementSize_pos width
  unfold bufferLength
  split
  · exact Nat.mul_pos (by omega) hpos
  · exact Nat.mul_pos (Nat.pos_of_ne_zero h) hpos

theorem transfers_regAt (a : Aperture) (reg j : Nat) :
    transfers a width (regAt width reg j) =
      (portReachable a (regAt width reg j) && decide (reg % elementSize width = 0)) := by
  have hmod : regAt width reg j % elementSize width = reg % elementSize width := by
    unfold regAt
    split
    · exact Nat.add_mul_mod_self_right _ _ _
    · rfl
  unfold transfers
  rw [hmod]

/-! ## The stores that the paths leave -/

def legacyRead (a : Aperture) (width : Nat) (loc : PciLocation) (n : Nat) (config buffer : ByteStore) :
    ByteStore :=
  ByteStore.transfer (elementSize width) (fun j => transfers a width (regAt width loc.register.toNat j))
    (fun j => j * 2 ^ width) (fun j => loc.base + regAt width loc.register.toNat j) config n 0 buffer

def legacyWrite (a : Aperture) (width : Nat) (loc : PciLocation) (n : Nat) (config buffer : ByteStore) :
    ByteStore :=
  ByteStore.transfer (elementSize width) (fun j => transfers a width (regAt width loc.register.toNat j))
    (fun j => loc.base + regAt width loc.register.toNat j) (fun j => j * 2 ^ width) buffer n 0 config

theorem pathsAgree_read_iff (hio : p.cpuIo.ServesPci p.hecBase) (hhec : p.hecBase ≠ 0)
    (hwidth : widthRefused width = false) (hinside : StaysInside width loc.register.toNat count.toNat)
    (haligned : loc.register.toNat % elementSize width = 0) :
    PathsAgree p false width loc count ↔ ∀ config buffer : ByteStore,
      legacyRead p.aperture width loc count.toNat config buffer =
        buffer.put 0 (readElements width config (loc.base + loc.register.toNat) count.toNat) := by
  have hkeep : ¬ (false = true ∨ loc.register.toNat % elementSize width ≠ 0) := by
    rintro (h | h)
    · cases h
    · exact h haligned
  constructor
  · intro hagree config buffer
    obtain ⟨t₁, hlegacy, _⟩ := legacy_ret loc hio hwidth hinside false buffer ⟨0, config⟩
    obtain ⟨st, t₂, hmapped, _⟩ := mapped_ret loc hio hhec hwidth count false buffer ⟨0, config⟩
    have h := (hagree _ _ _ _ _ _ _ _ hlegacy hmapped).1
    rw [if_neg hkeep] at h
    exact h
  · intro hstores buffer s st₁ st₂ b₁ b₂ t₁ t₂ h₁ h₂
    obtain ⟨u₁, hlegacy, hu₁⟩ := legacy_ret loc hio hwidth hinside false buffer s
    obtain ⟨st, u₂, hmapped, hu₂⟩ := mapped_ret loc hio hhec hwidth count false buffer s
    rw [hlegacy] at h₁
    rw [hmapped, if_neg hkeep] at h₂
    cases h₁
    cases h₂
    exact ⟨hstores s.config buffer, hu₁.trans hu₂.symm⟩

theorem pathsAgree_write_iff (hio : p.cpuIo.ServesPci p.hecBase) (hhec : p.hecBase ≠ 0)
    (hwidth : widthRefused width = false) (hinside : StaysInside width loc.register.toNat count.toNat)
    (haligned : loc.register.toNat % elementSize width = 0) :
    PathsAgree p true width loc count ↔ ∀ config buffer : ByteStore,
      legacyWrite p.aperture width loc count.toNat config buffer =
        writeElements width config (loc.base + loc.register.toNat) count.toNat
          (buffer.read 0 (bufferLength width count.toNat)) := by
  constructor
  · intro hagree config buffer
    obtain ⟨t₁, hlegacy, ht₁⟩ := legacy_ret loc hio hwidth hinside true buffer ⟨0, config⟩
    obtain ⟨st, t₂, hmapped, ht₂⟩ := mapped_ret loc hio hhec hwidth count true buffer ⟨0, config⟩
    have h := (hagree _ _ _ _ _ _ _ _ hlegacy hmapped).2
    have hwrites : true = true ∧ loc.register.toNat % elementSize width = 0 := ⟨rfl, haligned⟩
    rw [ht₁, ht₂, if_pos hwrites] at h
    exact h
  · intro hstores buffer s st₁ st₂ b₁ b₂ t₁ t₂ h₁ h₂
    obtain ⟨u₁, hlegacy, hu₁⟩ := legacy_ret loc hio hwidth hinside true buffer s
    obtain ⟨st, u₂, hmapped, hu₂⟩ := mapped_ret loc hio hhec hwidth count true buffer s
    rw [if_pos ⟨rfl, haligned⟩] at hu₂
    rw [hlegacy] at h₁
    rw [hmapped] at h₂
    cases h₁
    cases h₂
    refine ⟨(if_pos (.inl rfl)).symm, ?_⟩
    rw [hu₁, hu₂]
    exact hstores s.config buffer

/-! ## Agreement -/

theorem pathsAgree_of_nothing (hio : p.cpuIo.ServesPci p.hecBase) (hhec : p.hecBase ≠ 0)
    (hwidth : widthRefused width = false) (hinside : StaysInside width loc.register.toNat count.toNat)
    (write : Bool) (hnothing : loc.register.toNat % elementSize width ≠ 0 ∨ count.toNat = 0) :
    PathsAgree p write width loc count := by
  have htransfer : ∀ (dstPos srcPos : Nat → Nat) (src dst : ByteStore),
      ByteStore.transfer (elementSize width)
        (fun j => transfers p.aperture width (regAt width loc.register.toNat j)) dstPos srcPos src
        count.toNat 0 dst = dst := by
    intro dstPos srcPos src dst
    funext x
    refine ByteStore.transfer_of_untouched fun j _ hj hok => ?_
    rw [transfers_regAt, Bool.and_eq_true, decide_eq_true_eq] at hok
    rcases hnothing with h | h
    · exact absurd hok.2 h
    · omega
  intro buffer s st₁ st₂ b₁ b₂ t₁ t₂ h₁ h₂
  obtain ⟨u₁, hlegacy, hu₁⟩ := legacy_ret loc hio hwidth hinside write buffer s
  obtain ⟨st, u₂, hmapped, hu₂⟩ := mapped_ret loc hio hhec hwidth count write buffer s
  rw [hlegacy] at h₁
  rw [hmapped] at h₂
  cases h₁
  cases h₂
  rw [htransfer] at hu₁
  rw [htransfer, ite_self]
  rw [ite_self] at hu₁
  have hread : count.toNat = 0 → readElements width s.config (loc.base + loc.register.toNat) count.toNat = [] := by
    intro hzero
    unfold readElements
    rw [hzero, if_pos rfl, List.replicate_zero, List.flatten_nil, Nat.zero_mul, ByteStore.read_zero, ite_self,
      ite_self]
  have hwrite : count.toNat = 0 → writeElements width s.config (loc.base + loc.register.toNat) count.toNat
      (buffer.read 0 (bufferLength width count.toNat)) = s.config := by
    intro hzero
    have hlen : bufferLength width 0 = 0 := by
      unfold bufferLength
      rw [Nat.zero_min, Nat.zero_mul, ite_self]
    unfold writeElements
    rw [hzero, if_pos rfl, hlen, ByteStore.read_zero, List.replicate_zero, List.flatten_nil,
      ByteStore.put_nil, ite_self, ite_self]
  constructor
  · split
    · rfl
    · next hmoves =>
      rw [not_or, not_not] at hmoves
      rw [hread (hnothing.resolve_left (not_not.mpr hmoves.2)), ByteStore.put_nil]
  · rw [hu₁, hu₂]
    split
    · next hmoves => exact (hwrite (hnothing.resolve_left (not_not.mpr hmoves.2))).symm
    · rfl

theorem plain_of_le (h : width ≤ efiPciWidthUint64) :
    isFill width = false ∧ isFifo width = false ∧ 2 ^ width = elementSize width := by
  have hle : width ≤ 3 := h
  refine ⟨?_, ?_, ?_⟩
  · unfold isFill
    rw [decide_eq_false_iff_not]
    omega
  · unfold isFifo
    rw [decide_eq_false_iff_not]
    omega
  · unfold elementSize
    rw [Nat.mod_eq_of_lt (by omega)]

theorem pathsAgree_of_reachable (hio : p.cpuIo.ServesPci p.hecBase) (hhec : p.hecBase ≠ 0)
    (hwidth : widthRefused width = false) (hinside : StaysInside width loc.register.toNat count.toNat)
    (haligned : loc.register.toNat % elementSize width = 0) (write : Bool)
    (hkind : width ≤ efiPciWidthUint64 ∨ count.toNat = 1)
    (hreach : ∀ i < count.toNat, portReachable p.aperture (regAt width loc.register.toNat i) = true) :
    PathsAgree p write width loc count := by
  have hok : ∀ j, 0 ≤ j → j < 0 + count.toNat →
      transfers p.aperture width (regAt width loc.register.toNat j) = true := by
    intro j _ hj
    rw [transfers_regAt, hreach j (by omega), Bool.true_and, decide_eq_true_eq]
    exact haligned
  have hfirst : regAt width loc.register.toNat 0 = loc.register.toNat := by
    unfold regAt
    rw [Nat.zero_mul, Nat.add_zero, ite_self]
  by_cases hplain : width ≤ efiPciWidthUint64
  · obtain ⟨hfill, hfifo, hpow⟩ := plain_of_le hplain
    have hpos : ∀ j, j * 2 ^ width = 0 + j * elementSize width := by
      intro j
      rw [hpow, Nat.zero_add]
    have hregs : ∀ j, loc.base + regAt width loc.register.toNat j =
        loc.base + loc.register.toNat + j * elementSize width := by
      intro j
      unfold regAt
      rw [if_pos hplain, Nat.add_assoc]
    have hlen : bufferLength width count.toNat = count.toNat * elementSize width := by
      unfold bufferLength
      rw [hfill]
      rfl
    cases write with
    | false =>
      refine (pathsAgree_read_iff hio hhec hwidth hinside haligned).mpr fun config buffer => ?_
      unfold legacyRead readElements
      rw [hfill, hfifo, if_neg Bool.false_ne_true, if_neg Bool.false_ne_true,
        ByteStore.transfer_contiguous hpos hregs hok, Nat.zero_mul, Nat.add_zero, Nat.add_zero]
    | true =>
      refine (pathsAgree_write_iff hio hhec hwidth hinside haligned).mpr fun config buffer => ?_
      unfold legacyWrite writeElements
      rw [hfill, hfifo, if_neg Bool.false_ne_true, if_neg Bool.false_ne_true,
        ByteStore.transfer_contiguous hregs hpos hok, Nat.zero_mul, Nat.add_zero, Nat.add_zero, hlen]
  · have hone := hkind.resolve_left hplain
    have hok₀ := hok 0 (Nat.le_refl 0) (by omega)
    cases write with
    | false =>
      refine (pathsAgree_read_iff hio hhec hwidth hinside haligned).mpr fun config buffer => ?_
      unfold legacyRead
      rw [hone, readElements_one, ByteStore.transfer_one]
      refine (if_pos hok₀).trans ?_
      rw [hfirst, Nat.zero_mul]
    | true =>
      refine (pathsAgree_write_iff hio hhec hwidth hinside haligned).mpr fun config buffer => ?_
      unfold legacyWrite
      rw [hone, writeElements_one, bufferLength_one, ByteStore.transfer_one]
      refine (if_pos hok₀).trans ?_
      rw [hfirst, Nat.zero_mul]

/-! ## Disagreement -/

theorem not_pathsAgree_read (hio : p.cpuIo.ServesPci p.hecBase) (hhec : p.hecBase ≠ 0)
    (hwidth : widthRefused width = false) (hinside : StaysInside width loc.register.toNat count.toNat)
    (haligned : loc.register.toNat % elementSize width = 0) {x : Nat}
    (hx : x < bufferLength width count.toNat)
    (hleft : ∀ j < count.toNat, portReachable p.aperture (regAt width loc.register.toNat j) = true →
      ¬ (j * 2 ^ width ≤ x ∧ x < j * 2 ^ width + elementSize width)) :
    ¬ PathsAgree p false width loc count := by
  intro hagree
  have h := congrFun ((pathsAgree_read_iff hio hhec hwidth hinside haligned).mp hagree
    (fun _ => 1) (fun _ => 0)) x
  rw [readElements_const, put_replicate (Nat.zero_le x) (by omega)] at h
  unfold legacyRead at h
  rw [ByteStore.transfer_of_untouched fun j _ hj hok => hleft j (by omega) ?_] at h
  · cases h
  · rw [transfers_regAt, Bool.and_eq_true] at hok
    exact hok.1

def writtenLength (width count : Nat) : Nat :=
  if isFifo width then min count 1 * elementSize width else count * elementSize width

theorem writeElements_const (b : Byte) (config : ByteStore) (off n : Nat) :
    writeElements width config off n (List.replicate (bufferLength width n) b) =
      config.put off (List.replicate (writtenLength width n) b) := by
  unfold writeElements bufferLength writtenLength
  by_cases hfill : isFill width = true
  · have hfifo : isFifo width = false := by
      unfold isFill at hfill
      unfold isFifo
      rw [decide_eq_true_eq] at hfill
      rw [decide_eq_false_iff_not]
      omega
    rw [hfill, hfifo, if_pos rfl, if_pos rfl, if_neg Bool.false_ne_true, List.flatten_replicate_replicate]
    rcases Nat.eq_zero_or_pos n with rfl | hpos
    · rw [Nat.zero_mul, Nat.zero_mul]
    · rw [Nat.min_eq_right hpos, Nat.one_mul]
  · rw [if_neg hfill, if_neg hfill]
    by_cases hfifo : isFifo width = true
    · rw [if_pos hfifo, if_pos hfifo]
      split
      · next hzero =>
        rw [hzero, Nat.zero_min, Nat.zero_mul, List.replicate_zero, ByteStore.put_nil]
      · next hpos =>
        obtain ⟨k, rfl⟩ := Nat.exists_eq_succ_of_ne_zero hpos
        have hlast : (k + 1) * elementSize width - k * elementSize width = elementSize width := by
          rw [Nat.succ_mul, Nat.add_sub_cancel_left]
        rw [List.drop_replicate, Nat.min_eq_right (Nat.le_add_left 1 k), Nat.one_mul, Nat.succ_eq_add_one,
          Nat.add_sub_cancel, hlast]
    · rw [if_neg hfifo, if_neg hfifo]

theorem not_pathsAgree_write (hio : p.cpuIo.ServesPci p.hecBase) (hhec : p.hecBase ≠ 0)
    (hwidth : widthRefused width = false) (hinside : StaysInside width loc.register.toNat count.toNat)
    (haligned : loc.register.toNat % elementSize width = 0) {x : Nat}
    (hx : x < writtenLength width count.toNat)
    (hleft : ∀ j < count.toNat, portReachable p.aperture (regAt width loc.register.toNat j) = true →
      ¬ (regAt width loc.register.toNat j ≤ loc.register.toNat + x ∧
        loc.register.toNat + x < regAt width loc.register.toNat j + elementSize width)) :
    ¬ PathsAgree p true width loc count := by
  intro hagree
  have h := congrFun ((pathsAgree_write_iff hio hhec hwidth hinside haligned).mp hagree
    (fun _ => 0) (fun _ => 1)) (loc.base + loc.register.toNat + x)
  rw [read_const, writeElements_const, put_replicate (by omega) (by omega)] at h
  unfold legacyWrite at h
  rw [ByteStore.transfer_of_untouched fun j _ hj hok => ?_] at h
  · cases h
  · rw [transfers_regAt, Bool.and_eq_true] at hok
    have := hleft j (by omega) hok.1
    omega

theorem not_pathsAgree_of_unreachable (hio : p.cpuIo.ServesPci p.hecBase) (hhec : p.hecBase ≠ 0)
    (hwidth : widthRefused width = false) (hinside : StaysInside width loc.register.toNat count.toNat)
    (haligned : loc.register.toNat % elementSize width = 0) (write : Bool) {i : Nat} (hi : i < count.toNat)
    (hreach : portReachable p.aperture (regAt width loc.register.toNat i) = false) :
    ¬ PathsAgree p write width loc count := by
  have hpos := elementSize_pos width
  by_cases hplain : width ≤ efiPciWidthUint64
  · obtain ⟨hfill, hfifo, hpow⟩ := plain_of_le hplain
    have hregs : ∀ j, regAt width loc.register.toNat j = loc.register.toNat + j * elementSize width := by
      intro j
      unfold regAt
      rw [if_pos hplain]
    have hmul : i * elementSize width + elementSize width ≤ count.toNat * elementSize width := by
      rw [← Nat.succ_mul]
      exact Nat.mul_le_mul_right _ hi
    -- No other element meets the place of element `i`.
    have hapart : ∀ j, portReachable p.aperture (regAt width loc.register.toNat j) = true →
        ¬ (j * elementSize width ≤ i * elementSize width ∧
          i * elementSize width < j * elementSize width + elementSize width) := by
      rintro j hj ⟨hle, hlt⟩
      rw [← Nat.succ_mul] at hlt
      have h₁ := Nat.le_of_mul_le_mul_right hle hpos
      have h₂ := Nat.lt_of_mul_lt_mul_right hlt
      have heq : j = i := by omega
      rw [heq, hreach] at hj
      cases hj
    cases write with
    | false =>
      have hlen : bufferLength width count.toNat = count.toNat * elementSize width := by
        unfold bufferLength
        rw [hfill]
        rfl
      refine not_pathsAgree_read (x := i * elementSize width) hio hhec hwidth hinside haligned (by omega)
        fun j _ hj => ?_
      rw [hpow]
      exact hapart j hj
    | true =>
      have hlen : writtenLength width count.toNat = count.toNat * elementSize width := by
        unfold writtenLength
        rw [hfifo]
        rfl
      refine not_pathsAgree_write (x := i * elementSize width) hio hhec hwidth hinside haligned (by omega)
        fun j _ hj => ?_
      have := hapart j hj
      rw [hregs j]
      omega
  · -- A FIFO or a fill stays at its port.
    have hnone : ∀ j, portReachable p.aperture (regAt width loc.register.toNat j) = false := by
      intro j
      unfold regAt at hreach ⊢
      rw [if_neg hplain] at hreach ⊢
      exact hreach
    have hcount : count.toNat ≠ 0 := by omega
    cases write with
    | false =>
      refine not_pathsAgree_read (x := 0) hio hhec hwidth hinside haligned (bufferLength_pos hcount)
        fun j _ hj => ?_
      rw [hnone j] at hj
      cases hj
    | true =>
      have hlen : 0 < writtenLength width count.toNat := by
        unfold writtenLength
        split
        · exact Nat.mul_pos (by omega) hpos
        · exact Nat.mul_pos (Nat.pos_of_ne_zero hcount) hpos
      refine not_pathsAgree_write (x := 0) hio hhec hwidth hinside haligned hlen fun j _ hj => ?_
      rw [hnone j] at hj
      cases hj

theorem not_pathsAgree_of_many (hio : p.cpuIo.ServesPci p.hecBase) (hhec : p.hecBase ≠ 0)
    (hwidth : widthRefused width = false) (hinside : StaysInside width loc.register.toNat count.toNat)
    (haligned : loc.register.toNat % elementSize width = 0) (write : Bool)
    (hkind : ¬ width ≤ efiPciWidthUint64) (hcount : 2 ≤ count.toNat) :
    ¬ PathsAgree p write width loc count := by
  have hpos := elementSize_pos width
  obtain ⟨hlt, hsize⟩ := elementSize_of_accepted hwidth
  have hle : elementSize width ≤ 4 := by omega
  have hgt : 4 ≤ width := Nat.not_le.mp hkind
  have hpow : 16 ≤ 2 ^ width := Nat.pow_le_pow_right (n := 2) (by decide) hgt
  have hstay : ∀ j, regAt width loc.register.toNat j = loc.register.toNat := by
    intro j
    unfold regAt
    rw [if_neg hkind]
  have htwo : elementSize width < count.toNat * elementSize width := by
    have := Nat.mul_le_mul_right (elementSize width) hcount
    omega
  by_cases hreach : portReachable p.aperture loc.register.toNat = true
  case neg =>
    refine not_pathsAgree_of_unreachable (i := 0) hio hhec hwidth hinside haligned write (by omega) ?_
    rw [hstay]
    exact Bool.eq_false_iff.mpr hreach
  have hok : ∀ j, transfers p.aperture width (regAt width loc.register.toNat j) = true := by
    intro j
    rw [transfers_regAt, hstay, hreach, Bool.true_and, decide_eq_true_eq]
    exact haligned
  by_cases hfifo : isFifo width = true
  · have hfill : isFill width = false := by
      unfold isFifo at hfifo
      unfold isFill
      rw [decide_eq_true_eq] at hfifo
      rw [decide_eq_false_iff_not]
      omega
    have hlen : bufferLength width count.toNat = count.toNat * elementSize width := by
      unfold bufferLength
      rw [hfill]
      rfl
    cases write with
    | false =>
      -- The second element of the buffer stays as it is.
      refine not_pathsAgree_read (x := elementSize width) hio hhec hwidth hinside haligned (by omega)
        fun j _ _ => ?_
      rcases Nat.eq_zero_or_pos j with rfl | hj
      · omega
      · have := Nat.mul_le_mul hj hpow
        omega
    | true =>
      -- The last element that is written is another one of the buffer.
      intro hagree
      obtain ⟨k, hk⟩ : ∃ k, count.toNat = k + 1 := ⟨count.toNat - 1, by omega⟩
      have h := congrFun ((pathsAgree_write_iff hio hhec hwidth hinside haligned).mp hagree
        (fun _ => 0) (fun x => if x = k * elementSize width then 1 else 0)) (loc.base + loc.register.toNat)
      have hfar : k * 2 ^ width ≠ k * elementSize width := by
        have := Nat.mul_le_mul_left k hpow
        have := Nat.mul_le_mul_left k hle
        omega
      have hlegacy : legacyWrite p.aperture width loc count.toNat (fun _ => 0)
          (fun x => if x = k * elementSize width then 1 else 0) (loc.base + loc.register.toNat) = 0 := by
        unfold legacyWrite
        refine (ByteStore.transfer_of_last (j := k) (Nat.zero_le k) (by omega) (hok k) ?_ ?_
          (fun j hj hjn => by omega)).trans ?_
        · rw [hstay]
        · rw [hstay]
          omega
        · rw [hstay, Nat.sub_self, Nat.add_zero, if_neg hfar]
      have hmapped : writeElements width (fun _ => 0) (loc.base + loc.register.toNat) count.toNat
          (ByteStore.read (fun x => if x = k * elementSize width then 1 else 0) 0
            (bufferLength width count.toNat)) (loc.base + loc.register.toNat) = 1 := by
        unfold writeElements
        rw [hfill, hfifo, if_neg Bool.false_ne_true, if_pos rfl, if_neg (by omega), hk, Nat.add_sub_cancel]
        have hin : k * elementSize width + 0 < bufferLength width (k + 1) := by
          rw [← hk, hlen, hk, Nat.succ_mul]
          omega
        unfold ByteStore.put ByteStore.read
        rw [if_pos (Nat.le_refl _), Nat.sub_self, List.getElem?_drop, List.getElem?_map,
          List.getElem?_range hin, Option.map_some, Option.getD_some]
        exact if_pos (by omega)
      rw [hlegacy, hmapped] at h
      cases h
  · have hfill : isFill width = true := by
      unfold isFifo at hfifo
      unfold isFill
      rw [decide_eq_true_eq] at hfifo ⊢
      omega
    cases write with
    | false =>
      -- The buffer has the first register in place of the last.
      intro hagree
      have h := congrFun ((pathsAgree_read_iff hio hhec hwidth hinside haligned).mp hagree
        (fun a => if a = loc.base + loc.register.toNat + (count.toNat - 1) * elementSize width then 1 else 0)
        (fun _ => 0)) 0
      have hfar : loc.base + loc.register.toNat ≠
          loc.base + loc.register.toNat + (count.toNat - 1) * elementSize width := by
        have := Nat.mul_pos (show 0 < count.toNat - 1 by omega) hpos
        omega
      have hlegacy : legacyRead p.aperture width loc count.toNat
          (fun a => if a = loc.base + loc.register.toNat + (count.toNat - 1) * elementSize width then 1 else 0)
          (fun _ => 0) 0 = 0 := by
        unfold legacyRead
        refine (ByteStore.transfer_of_last (j := 0) (Nat.le_refl 0) (by omega) (hok 0) (by omega) (by omega)
          fun j hj _ _ => ?_).trans ?_
        · have := Nat.mul_le_mul (show 1 ≤ j by omega) hpow
          omega
        · rw [hstay, Nat.zero_mul, Nat.sub_self, Nat.add_zero, if_neg hfar]
      have hmapped : (ByteStore.put (fun _ => 0) 0 (readElements width
          (fun a => if a = loc.base + loc.register.toNat + (count.toNat - 1) * elementSize width then 1 else 0)
          (loc.base + loc.register.toNat) count.toNat)) 0 = 1 := by
        unfold readElements
        rw [if_pos hfill, if_neg (by omega)]
        refine (ByteStore.put_read_of_mem (Nat.le_refl 0) (by omega)).trans ?_
        rw [Nat.sub_self, Nat.add_zero, if_pos rfl]
      rw [hlegacy, hmapped] at h
      cases h
    | true =>
      -- The second register stays as it is.
      have hlen : writtenLength width count.toNat = count.toNat * elementSize width := by
        unfold writtenLength
        rw [if_neg hfifo]
      refine not_pathsAgree_write (x := elementSize width) hio hhec hwidth hinside haligned (by omega)
        fun j _ _ => ?_
      rw [hstay]
      omega

end

/-- The legacy path moves what the memory-mapped path moves exactly for plain widths and for single elements,
through ports inside the I/O aperture, or where neither path moves anything. -/
theorem pathsAgree_iff (p : RootBridgeIo PciSpace) (hio : p.cpuIo.ServesPci p.hecBase) (hhec : p.hecBase ≠ 0)
    (write : Bool) (width : Nat) (hwidth : widthRefused width = false) (loc : PciLocation) (count : BitVec 32)
    (hinside : StaysInside width loc.register.toNat count.toNat) :
    PathsAgree p write width loc count ↔ LegacyAgrees p.aperture width loc.register.toNat count.toNat := by
  unfold LegacyAgrees
  constructor
  · intro hagree
    by_contra hcond
    rw [not_or, not_or, not_not] at hcond
    obtain ⟨haligned, hcount, hcond⟩ := hcond
    by_cases hkind : width ≤ efiPciWidthUint64 ∨ count.toNat = 1
    · refine hcond ⟨hkind, fun i hi => ?_⟩
      by_contra hreach
      exact not_pathsAgree_of_unreachable hio hhec hwidth hinside haligned write hi
        (Bool.eq_false_iff.mpr hreach) hagree
    · rw [not_or] at hkind
      exact not_pathsAgree_of_many hio hhec hwidth hinside haligned write hkind.1 (by omega) hagree
  · rintro (hunaligned | hzero | ⟨hkind, hreach⟩)
    · exact pathsAgree_of_nothing hio hhec hwidth hinside write (.inl hunaligned)
    · exact pathsAgree_of_nothing hio hhec hwidth hinside write (.inr hzero)
    · by_cases haligned : loc.register.toNat % elementSize width = 0
      · exact pathsAgree_of_reachable hio hhec hwidth hinside haligned write hkind hreach
      · exact pathsAgree_of_nothing hio hhec hwidth hinside write (.inl haligned)

/-! ## A machine -/

def CpuIo.pciMachine (hecBase : BitVec 32) : CpuIo PciSpace where
  memRead width address count s :=
    let off := (address - hecBase.setWidth 64).toNat
    if off % elementSize width ≠ 0 then ((.unsupported, []), s)
    else ((.success, readElements width s.config off count.toNat), s)
  memWrite width address count bytes s :=
    let off := (address - hecBase.setWidth 64).toNat
    if off % elementSize width ≠ 0 then (.unsupported, s)
    else (.success, { s with config := writeElements width s.config off count.toNat bytes })
  ioRead width address _ s :=
    ((.success, s.config.read (selected s.configAddress + (address - pciDataPort).toNat) (elementSize width)), s)
  ioWrite _ address _ bytes s :=
    if address = pciAddress then (.success, { s with configAddress := BitVec.ofNat 32 (leValue bytes) })
    else
      (.success, { s with config :=
        (s.config.put (selected s.configAddress + (address - pciDataPort).toNat) bytes) })

theorem add_sub_toNat (base : BitVec 64) {off : Nat} (h : off < 2 ^ 28) :
    (base + BitVec.ofNat 64 off - base).toNat = off := by
  rw [BitVec.add_comm, BitVec.add_sub_cancel, BitVec.toNat_ofNat, Nat.mod_eq_of_lt (by omega)]

theorem CpuIo.pciMachine_serves (hecBase : BitVec 32) : (CpuIo.pciMachine hecBase).ServesPci hecBase where
  latch bytes s _ := by
    unfold CpuIo.pciMachine
    dsimp only
    rw [if_pos rfl]
  dataRead width k s _ _ hk _ := by
    unfold CpuIo.pciMachine
    dsimp only
    rw [add_sub_toNat _ (by omega)]
  dataWrite width k bytes s _ _ hk _ _ := by
    have hne : pciDataPort + BitVec.ofNat 64 k ≠ pciAddress := by
      interval_cases k <;> decide
    unfold CpuIo.pciMachine
    dsimp only
    rw [if_neg hne, add_sub_toNat _ (by omega)]
  memRead width off count s _ hoff haligned := by
    unfold CpuIo.pciMachine
    dsimp only
    rw [add_sub_toNat _ hoff, if_neg (not_not.mpr haligned)]
  memReadUnaligned width off count s _ hoff hunaligned := by
    unfold CpuIo.pciMachine
    dsimp only
    rw [add_sub_toNat _ hoff, if_pos hunaligned]
  memWrite width off count bytes s _ hoff haligned _ := by
    unfold CpuIo.pciMachine
    dsimp only
    rw [add_sub_toNat _ hoff, if_neg (not_not.mpr haligned)]
  memWriteUnaligned width off count bytes s _ hoff hunaligned := by
    unfold CpuIo.pciMachine
    dsimp only
    rw [add_sub_toNat _ hoff, if_pos hunaligned]

def pciBridge : RootBridgeIo PciSpace where
  aperture := ⟨0, 3, 0x90000000, 0xFE000000, 0, 0, 0x2000, 0xFFFF⟩
  hecBase := 0xE0000000
  cpuIo := CpuIo.pciMachine 0xE0000000
  metronome := ⟨100, tick_ne_zero⟩
  assertEnabled := true

theorem pathsAgree_iff_words : PathsAgree pciBridge false 1 ⟨0, 20, 1, 0⟩ 4 :=
  (pathsAgree_iff pciBridge (CpuIo.pciMachine_serves _) (by decide) false 1 rfl ⟨0, 20, 1, 0⟩ 4
    (show 0 + 4 * 2 ≤ 256 by decide)).mpr (.inr (.inr ⟨.inl (by decide), by decide⟩))

theorem not_pathsAgree_fifo : ¬ PathsAgree pciBridge false 4 ⟨0, 20, 1, 0x40⟩ 2 := by
  have hinside : StaysInside 4 (0x40 : BitVec 8).toNat (2 : BitVec 32).toNat := by
    unfold StaysInside
    decide
  exact not_pathsAgree_of_many (CpuIo.pciMachine_serves _) (by decide) rfl hinside rfl false (by decide)
    (by decide)

end Quark.PciHostBridge
