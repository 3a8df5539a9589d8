import Quark.PciHostBridge.RootBridgeIo
import Mathlib.Tactic.IntervalCases

/-!
# `RootBridgeIoCopyMem`

The copy goes up or down through its elements, as a test of the two ranges says. Every element that is
copied is one that the CPU I/O protocol accepts, hence inside the address space of the processor, and so the
32-bit products of the test and of the start are the true ones.
-/

namespace Quark.PciHostBridge

open Machine

/-- What the CPU I/O protocol does for plain accesses to memory. It refuses a range that the processor, with
its 32 address lines, does not have. -/
structure CpuIo.ServesMemory (io : CpuIo ByteStore) : Prop where
  read : ∀ width address count m, width ≤ efiPciWidthUint64 →
    (io.memRead width address count m).1.1 = .success →
      address.toNat + count.toNat * elementSize width ≤ 2 ^ 32 ∧
      io.memRead width address count m =
        ((.success, m.read address.toNat (count.toNat * elementSize width)), m)
  write : ∀ width address count bytes m, width ≤ efiPciWidthUint64 →
    bytes.length = count.toNat * elementSize width →
    (io.memWrite width address count bytes m).1 = .success →
      address.toNat + count.toNat * elementSize width ≤ 2 ^ 32 ∧
      io.memWrite width address count bytes m = (.success, m.put address.toNat bytes)

def Moved (dst src n : Nat) (m m' : ByteStore) : Prop :=
  m'.read dst n = m.read src n ∧ ∀ a, ¬ (dst ≤ a ∧ a < dst + n) → m' a = m a

theorem moved_move (m : ByteStore) (dst src n : Nat) : Moved dst src n m (m.move dst src n) := by
  constructor
  · have h := @ByteStore.read_put_self m dst (m.read src n)
    rwa [ByteStore.length_read] at h
  · intro a ha
    exact ByteStore.put_read_of_not_mem ha

theorem moved_self (m : ByteStore) (dst n : Nat) : Moved dst dst n m m := ⟨rfl, fun _ _ => rfl⟩

theorem elementSize_le (width : Nat) : elementSize width ≤ 8 := by
  have h : width % 4 ≤ 3 := Nat.le_of_lt_succ (Nat.mod_lt _ (by decide))
  exact Nat.pow_le_pow_right (by decide) h

theorem elementSize_pos (width : Nat) : 0 < elementSize width := Nat.two_pow_pos _

section

variable {p : RootBridgeIo ByteStore} {width : Nat} {m m' : ByteStore}

/-! ## One element -/

theorem memRead_success (hio : p.cpuIo.ServesMemory) (hwidth : width ≤ efiPciWidthUint64)
    {address : BitVec 64} {bytes : List Byte}
    (h : rootBridgeIoMemRead p width address 1 m = .ret (.success, bytes) m') :
    address.toNat + elementSize width ≤ 2 ^ 32 ∧ bytes = m.read address.toNat (elementSize width) ∧ m' = m := by
  unfold rootBridgeIoMemRead at h
  split at h
  · cases h
  · split at h
    · cases h
    · injection h with hans hstate
      have hst := congrArg Prod.fst hans
      obtain ⟨hfits, heq⟩ := hio.read width address 1 m hwidth hst
      rw [heq] at hans hstate
      have hone : (1 : BitVec 32).toNat * elementSize width = elementSize width := Nat.one_mul _
      rw [hone] at hfits hans
      exact ⟨hfits, (congrArg Prod.snd hans).symm, hstate.symm⟩

theorem memWrite_success (hio : p.cpuIo.ServesMemory) (hwidth : width ≤ efiPciWidthUint64)
    {address : BitVec 64} {bytes : List Byte} (hlen : bytes.length = elementSize width)
    (h : rootBridgeIoMemWrite p width address 1 bytes m = .ret .success m') :
    address.toNat + elementSize width ≤ 2 ^ 32 ∧ m' = m.put address.toNat bytes := by
  have hone : (1 : BitVec 32).toNat * elementSize width = elementSize width := Nat.one_mul _
  unfold rootBridgeIoMemWrite at h
  split at h
  · cases h
  · split at h
    · cases h
    · injection h with hst hstate
      obtain ⟨hfits, heq⟩ := hio.write width address 1 bytes m hwidth (hlen.trans hone.symm) hst
      rw [heq] at hstate
      rw [hone] at hfits
      exact ⟨hfits, hstate.symm⟩

theorem copyElements_succ (hio : p.cpuIo.ServesMemory) (hwidth : width ≤ efiPciWidthUint64) {n : Nat}
    {step dest src : BitVec 64} (h : copyElements p width step (n + 1) dest src m = .ret .success m') :
    dest.toNat + elementSize width ≤ 2 ^ 32 ∧ src.toNat + elementSize width ≤ 2 ^ 32 ∧
      copyElements p width step n (dest + step) (src + step)
        (m.put dest.toNat (m.read src.toNat (elementSize width))) = .ret .success m' := by
  unfold copyElements at h
  obtain ⟨⟨status, bytes⟩, m₁, hread, h⟩ := Exec.ret_of_bind h
  dsimp only at h
  split at h
  · next herr =>
    injection h with hst
    rw [hst] at herr
    cases herr
  · next hok =>
    have hst : status = .success := EfiStatus.isError_eq_false.mp (by simpa using hok)
    rw [hst] at hread
    obtain ⟨hsrc, hbytes, hm₁⟩ := memRead_success hio hwidth hread
    obtain ⟨status', m₂, hwrite, h⟩ := Exec.ret_of_bind h
    split at h
    · next herr =>
      injection h with hst'
      rw [hst'] at herr
      cases herr
    · next hok' =>
      have hst' : status' = .success := EfiStatus.isError_eq_false.mp (by simpa using hok')
      rw [hst'] at hwrite
      have hlen : bytes.length = elementSize width := by rw [hbytes, ByteStore.length_read]
      obtain ⟨hdest, hm₂⟩ := memWrite_success hio hwidth hlen hwrite
      rw [hm₂, hm₁, hbytes] at h
      exact ⟨hdest, hsrc, h⟩

/-! ## All elements -/

theorem copyElements_up (hio : p.cpuIo.ServesMemory) (hwidth : width ≤ efiPciWidthUint64) {step : BitVec 64}
    (hstep : step.toNat = elementSize width) {n : Nat} {dest src : BitVec 64}
    (h : copyElements p width step n dest src m = .ret .success m') :
    (n ≠ 0 → dest.toNat + n * elementSize width ≤ 2 ^ 32 ∧ src.toNat + n * elementSize width ≤ 2 ^ 32) ∧
      m' = ByteStore.copyUp (elementSize width) n dest.toNat src.toNat m := by
  induction n generalizing dest src m with
  | zero =>
    injection h with _ hm
    exact ⟨fun hn => absurd rfl hn, hm.symm⟩
  | succ n ih =>
    obtain ⟨hdest, hsrc, h⟩ := copyElements_succ hio hwidth h
    obtain ⟨hfits, hm'⟩ := ih h
    have hdest' : (dest + step).toNat = dest.toNat + elementSize width := by
      rw [BitVec.toNat_add, hstep, Nat.mod_eq_of_lt (by omega)]
    have hsrc' : (src + step).toNat = src.toNat + elementSize width := by
      rw [BitVec.toNat_add, hstep, Nat.mod_eq_of_lt (by omega)]
    rw [hdest', hsrc'] at hfits hm'
    refine ⟨fun _ => ?_, hm'⟩
    rw [Nat.succ_mul]
    rcases Nat.eq_zero_or_pos n with rfl | hpos
    · omega
    · have := hfits (Nat.pos_iff_ne_zero.mp hpos)
      omega

theorem copyElements_down (hio : p.cpuIo.ServesMemory) (hwidth : width ≤ efiPciWidthUint64)
    {step : BitVec 64} (hstep : step.toNat = elementSize width) {n : Nat} {dest src : BitVec 64}
    (h : copyElements p width (-step) (n + 1) dest src m = .ret .success m') :
    dest.toNat + elementSize width ≤ 2 ^ 32 ∧ src.toNat + elementSize width ≤ 2 ^ 32 ∧
      ∃ d s, dest.toNat = d + n * elementSize width ∧ src.toNat = s + n * elementSize width ∧
        m' = ByteStore.copyDown (elementSize width) (n + 1) d s m := by
  have hsize := elementSize_le width
  have hneg : (-step).toNat = 2 ^ 64 - elementSize width := by
    have hpos := elementSize_pos width
    rw [BitVec.toNat_neg, hstep, Nat.mod_eq_of_lt (by omega)]
  induction n generalizing dest src m with
  | zero =>
    obtain ⟨hdest, hsrc, h⟩ := copyElements_succ hio hwidth h
    injection h with _ hm
    refine ⟨hdest, hsrc, dest.toNat, src.toNat, by omega, by omega, ?_⟩
    rw [← hm, ByteStore.copyDown, ByteStore.copyDown, Nat.zero_mul, Nat.add_zero, Nat.add_zero]
  | succ n ih =>
    obtain ⟨hdest, hsrc, h⟩ := copyElements_succ hio hwidth h
    obtain ⟨hdest', hsrc', d, s, hd, hs, hm'⟩ := ih h
    have hdestAdd : (dest + -step).toNat = (dest.toNat + (2 ^ 64 - elementSize width)) % 2 ^ 64 := by
      rw [BitVec.toNat_add, hneg]
    have hsrcAdd : (src + -step).toNat = (src.toNat + (2 ^ 64 - elementSize width)) % 2 ^ 64 := by
      rw [BitVec.toNat_add, hneg]
    have hd' : dest.toNat = d + (n + 1) * elementSize width := by
      rw [Nat.succ_mul]
      omega
    have hs' : src.toNat = s + (n + 1) * elementSize width := by
      rw [Nat.succ_mul]
      omega
    refine ⟨hdest, hsrc, d, s, hd', hs', ?_⟩
    rw [hm', hd', hs']
    rfl

/-! ## The copy -/

private theorem stride_toNat {width : Nat} (hwidth : width ≤ efiPciWidthUint64) :
    (((1 : BitVec 32) <<< width).setWidth 64).toNat = elementSize width := by
  interval_cases width <;> rfl

private theorem product_toNat {width k : Nat} (count : BitVec 32) (hwidth : width ≤ efiPciWidthUint64)
    (hcount : count.toNat = k) (h : k * elementSize width < 2 ^ 32) :
    ((count * ((1 : BitVec 32) <<< width)).setWidth 64).toNat = k * elementSize width := by
  have hstride : ((1 : BitVec 32) <<< width).toNat = elementSize width := by
    interval_cases width <;> rfl
  rw [BitVec.toNat_setWidth, BitVec.toNat_mul, hstride, hcount, Nat.mod_eq_of_lt h,
    Nat.mod_eq_of_lt (by omega)]

/-- `CopyMem` that succeeds has moved the source range to the destination range, however they overlap. -/
theorem rootBridgeIoCopyMem_memmove (p : RootBridgeIo ByteStore) (hio : p.cpuIo.ServesMemory) (width : Nat)
    (destAddress srcAddress : BitVec 64) (count : BitVec 32) (m m' : ByteStore)
    (h : rootBridgeIoCopyMem p width destAddress srcAddress count m = .ret .success m') :
    Moved destAddress.toNat srcAddress.toNat (count.toNat * elementSize width) m m' := by
  unfold rootBridgeIoCopyMem at h
  split at h
  · cases h
  · next hwidth =>
    have hwidth := Nat.not_lt.mp hwidth
    split at h
    · next heq =>
      injection h with _ hm
      rw [heq, ← hm]
      exact moved_self m _ _
    · next hne =>
      have hne' : destAddress.toNat ≠ srcAddress.toNat := fun h => hne (BitVec.eq_of_toNat_eq h)
      dsimp only at h
      split at h
      · next hover =>
        obtain ⟨hgt, hlt⟩ := hover
        have hgt := BitVec.lt_def.mp hgt
        -- An empty copy is not inside the range that its product gives.
        obtain ⟨k, hk⟩ : ∃ k, count.toNat = k + 1 := by
          refine Nat.exists_eq_succ_of_ne_zero fun hzero => ?_
          have hlt := BitVec.lt_def.mp hlt
          have hprod := product_toNat count (k := 0) hwidth hzero (by omega)
          rw [BitVec.toNat_add, hprod, Nat.zero_mul, Nat.add_zero, Nat.mod_eq_of_lt srcAddress.isLt] at hlt
          omega
        rw [hk] at h ⊢
        obtain ⟨hdest, hsrc, d, s, hd, hs, hm'⟩ := copyElements_down hio hwidth (stride_toNat hwidth) h
        have hpred : (count - 1).toNat = k := by
          have := count.isLt
          have hone : (1 : BitVec 32).toNat = 1 := rfl
          rw [BitVec.toNat_sub, hk, hone]
          omega
        have hpos := elementSize_pos width
        have hlast := product_toNat (count - 1) hwidth hpred (by omega)
        rw [BitVec.toNat_add, hlast] at hd hs
        have hd' : d = destAddress.toNat := by
          have := destAddress.isLt
          omega
        have hs' : s = srcAddress.toNat := by
          have := srcAddress.isLt
          omega
        rw [hm', hd', hs', ByteStore.copyDown_eq_move (Nat.le_of_lt hgt)]
        exact moved_move m _ _ _
      · next hover =>
        obtain ⟨hfits, hm'⟩ := copyElements_up hio hwidth (stride_toNat hwidth) h
        have hside : destAddress.toNat ≤ srcAddress.toNat ∨
            srcAddress.toNat + count.toNat * elementSize width ≤ destAddress.toNat := by
          rcases Nat.eq_zero_or_pos count.toNat with hzero | hpos
          · rw [hzero, Nat.zero_mul]
            omega
          · obtain ⟨hdest, hsrc⟩ := hfits (Nat.pos_iff_ne_zero.mp hpos)
            have hprod := product_toNat count hwidth rfl (by omega)
            have hadd : (srcAddress + (count * ((1 : BitVec 32) <<< width)).setWidth 64).toNat =
                srcAddress.toNat + count.toNat * elementSize width := by
              rw [BitVec.toNat_add, hprod, Nat.mod_eq_of_lt (by omega)]
            rw [gt_iff_lt, BitVec.lt_def, BitVec.lt_def, hadd] at hover
            omega
        rw [hm', ByteStore.copyUp_eq_move hside]
        exact moved_move m _ _ _

end

/-! ## An overlap of one byte -/

def CpuIo.plainMemory : CpuIo ByteStore where
  memRead width address count m :=
    let n := count.toNat * elementSize width
    if address.toNat % elementSize width ≠ 0 ∨ 2 ^ 32 < address.toNat + n then ((.unsupported, []), m)
    else ((.success, m.read address.toNat n), m)
  memWrite width address count bytes m :=
    let n := count.toNat * elementSize width
    if address.toNat % elementSize width ≠ 0 ∨ 2 ^ 32 < address.toNat + n then (.unsupported, m)
    else (.success, m.put address.toNat bytes)
  ioRead _ _ _ m := ((.unsupported, []), m)
  ioWrite _ _ _ _ m := (.unsupported, m)

theorem CpuIo.plainMemory_serves : CpuIo.plainMemory.ServesMemory where
  read width address count m _ h := by
    unfold CpuIo.plainMemory at h ⊢
    dsimp only at h ⊢
    split at h
    · cases h
    · next hok =>
      rw [not_or, Nat.not_lt] at hok
      exact ⟨hok.2, if_neg (by omega)⟩
  write width address count bytes m _ _ h := by
    unfold CpuIo.plainMemory at h ⊢
    dsimp only at h ⊢
    split at h
    · cases h
    · next hok =>
      rw [not_or, Nat.not_lt] at hok
      exact ⟨hok.2, if_neg (by omega)⟩

def wholeMemory : RootBridgeIo ByteStore where
  aperture := ⟨0, 0, 0, 0xFFFFFFFF, 0, 0, 0, 0xFFFF⟩
  hecBase := 0xE0000000
  cpuIo := CpuIo.plainMemory
  metronome := ⟨100, tick_ne_zero⟩
  assertEnabled := true

theorem rootBridgeIoCopyMem_memmove_upByOne :
    Moved 0x1001 0x1000 (2 * 1) (BitVec.ofNat 8)
      (rootBridgeIoCopyMem wholeMemory 0 0x1001 0x1000 2 (BitVec.ofNat 8)).state :=
  rootBridgeIoCopyMem_memmove wholeMemory CpuIo.plainMemory_serves 0 0x1001 0x1000 2 (BitVec.ofNat 8) _
    (Outcome.eq_ret rfl)

end Quark.PciHostBridge
