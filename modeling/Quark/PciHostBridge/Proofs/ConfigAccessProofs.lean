import Quark.PciHostBridge.Proofs.CopyMemProofs

/-!
# Legacy and memory-mapped configuration access

The same registers of the same function are reached through the ports `0xCF8` and `0xCFC` and through the
memory-mapped range. The legacy loop takes its stride, its port and its next register from the number of the
width; the memory-mapped path leaves these to the CPU I/O protocol.
-/

namespace Quark.PciHostBridge

open Machine

/-! ## The machine -/

/-- Configuration space, by the offsets of the memory-mapped range, and the latch behind port `0xCF8`. -/
structure PciSpace where
  configAddress : BitVec 32
  config : ByteStore

def selected (configAddress : BitVec 32) : Nat :=
  configAddress.toNat / 2 ^ 8 % 2 ^ 16 * 2 ^ 12 + configAddress.toNat % 2 ^ 8 / 4 * 4

/-- What a read of `count` elements stores: a FIFO reads one place over and over, a fill keeps the last
element. -/
def readElements (width : Nat) (config : ByteStore) (off count : Nat) : List Byte :=
  if isFill width then
    if count = 0 then [] else config.read (off + (count - 1) * elementSize width) (elementSize width)
  else if isFifo width then (List.replicate count (config.read off (elementSize width))).flatten
  else config.read off (count * elementSize width)

/-- What a write of `count` elements leaves: a FIFO writes one place over and over, a fill writes one element
everywhere. -/
def writeElements (width : Nat) (config : ByteStore) (off count : Nat) (bytes : List Byte) : ByteStore :=
  if isFill width then config.put off (List.replicate count bytes).flatten
  else if isFifo width then
    if count = 0 then config else config.put off (bytes.drop ((count - 1) * elementSize width))
  else config.put off bytes

/-- What the CPU I/O protocol does for the two ports and for the memory-mapped range at `hecBase`. Unaligned
addresses are refused. -/
structure CpuIo.ServesPci (io : CpuIo PciSpace) (hecBase : BitVec 32) : Prop where
  latch : ∀ bytes s, bytes.length = 4 →
    io.ioWrite efiPciWidthUint32 pciAddress 1 bytes s =
      (.success, { s with configAddress := BitVec.ofNat 32 (leValue bytes) })
  dataRead : ∀ width k s, widthRefused width = false → k % elementSize width = 0 → k < 4 →
    s.configAddress.getLsbD 31 = true →
    io.ioRead width (pciDataPort + BitVec.ofNat 64 k) 1 s =
      ((.success, s.config.read (selected s.configAddress + k) (elementSize width)), s)
  dataWrite : ∀ width k bytes s, widthRefused width = false → k % elementSize width = 0 → k < 4 →
    s.configAddress.getLsbD 31 = true → bytes.length = elementSize width →
    io.ioWrite width (pciDataPort + BitVec.ofNat 64 k) 1 bytes s =
      (.success, { s with config := s.config.put (selected s.configAddress + k) bytes })
  memRead : ∀ width off count s, widthRefused width = false → off < 2 ^ 28 →
    off % elementSize width = 0 →
    io.memRead width (hecBase.setWidth 64 + BitVec.ofNat 64 off) count s =
      ((.success, readElements width s.config off count.toNat), s)
  memReadUnaligned : ∀ width off count s, widthRefused width = false → off < 2 ^ 28 →
    off % elementSize width ≠ 0 →
    io.memRead width (hecBase.setWidth 64 + BitVec.ofNat 64 off) count s = ((.unsupported, []), s)
  memWrite : ∀ width off count bytes s, widthRefused width = false → off < 2 ^ 28 →
    off % elementSize width = 0 → bytes.length = bufferLength width count.toNat →
    io.memWrite width (hecBase.setWidth 64 + BitVec.ofNat 64 off) count bytes s =
      (.success, { s with config := writeElements width s.config off count.toNat bytes })
  memWriteUnaligned : ∀ width off count bytes s, widthRefused width = false → off < 2 ^ 28 →
    off % elementSize width ≠ 0 →
    io.memWrite width (hecBase.setWidth 64 + BitVec.ofNat 64 off) count bytes s = (.unsupported, s)

structure PciLocation where
  bus : BitVec 8
  device : BitVec 5
  function : BitVec 3
  register : BitVec 8
  deriving DecidableEq, Repr

namespace PciLocation

def address (loc : PciLocation) : PciIoAddress :=
  { register := loc.register, function := loc.function.setWidth 8, device := loc.device.setWidth 8,
    bus := loc.bus, extendedRegister := 0 }

def base (loc : PciLocation) : Nat :=
  (loc.bus.toNat * 2 ^ 8 + loc.device.toNat * 2 ^ 3 + loc.function.toNat) * 2 ^ 12

end PciLocation

def StaysInside (width reg count : Nat) : Prop :=
  if isFifo width then reg + elementSize width ≤ 256 else reg + count * elementSize width ≤ 256

def regAt (width reg i : Nat) : Nat := if width ≤ efiPciWidthUint64 then reg + i * elementSize width else reg

def portReachable (a : Aperture) (r : Nat) : Bool := 0xCFC + r % 4 ≤ a.ioLimit.toNat

section

variable (p : RootBridgeIo PciSpace)

def rootBridgeIoPciAccess (write : Bool) (width : Nat) (address : PciIoAddress) (count : BitVec 32)
    (buffer : ByteStore) : Exec PciSpace (EfiStatus × ByteStore) :=
  if write then rootBridgeIoPciWrite p width address count buffer
  else rootBridgeIoPciRead p width address count buffer

/-- For every content of configuration space and of the buffer, the legacy path and the memory-mapped path leave
the same bytes in both. -/
def PathsAgree (write : Bool) (width : Nat) (loc : PciLocation) (count : BitVec 32) : Prop :=
  ∀ buffer s st₁ st₂ b₁ b₂ t₁ t₂,
    rootBridgeIoPciAccess { p with hecBase := 0 } write width loc.address count buffer s =
      .ret (st₁, b₁) t₁ →
    rootBridgeIoPciAccess p write width loc.address count buffer s = .ret (st₂, b₂) t₂ →
      b₁ = b₂ ∧ t₁.config = t₂.config

end

/-! ## Widths -/

theorem elementSize_of_accepted {width : Nat} (h : widthRefused width = false) :
    width < 12 ∧ (elementSize width = 1 ∨ elementSize width = 2 ∨ elementSize width = 4) := by
  have hlt : width < 12 := by
    unfold widthRefused at h
    rw [decide_eq_false_iff_not] at h
    by_contra hge
    exact h (.inr (.inr (.inr (Nat.not_lt.mp hge))))
  refine ⟨hlt, ?_⟩
  interval_cases width <;> first | (exact absurd h (by decide)) | decide

theorem bufferLength_one (width : Nat) : bufferLength width 1 = elementSize width := by
  unfold bufferLength
  split
  · exact Nat.one_mul _
  · exact Nat.one_mul _

/-! ## Addresses -/

theorem PciLocation.base_lt (loc : PciLocation) : loc.base + 255 < 2 ^ 28 := by
  have hb := loc.bus.isLt
  have hd := loc.device.isLt
  have hf := loc.function.isLt
  unfold PciLocation.base
  omega

theorem extConfigAdd_address (hecBase : BitVec 32) (loc : PciLocation) :
    extConfigAdd hecBase loc.address =
      hecBase.setWidth 64 + BitVec.ofNat 64 (loc.base + loc.register.toNat) := by
  have hb := loc.bus.isLt
  have hd := loc.device.isLt
  have hf := loc.function.isLt
  have hr := loc.register.isLt
  unfold extConfigAdd
  rw [if_pos (show loc.address.extendedRegister = 0 from rfl)]
  refine congrArg (fun off => hecBase.setWidth 64 + off) (BitVec.eq_of_toNat_eq ?_)
  unfold pcieOff PciLocation.address PciLocation.base
  simp only [BitVec.toNat_setWidth, BitVec.toNat_add, BitVec.toNat_shiftLeft, BitVec.toNat_ofNat,
    Nat.shiftLeft_eq]
  omega

theorem uint32_toNat (pci : PciConfigAccessCf8) :
    pci.uint32.toNat = pci.enable.toNat * 2 ^ 31 + pci.bus.toNat * 2 ^ 16 + pci.dev.toNat * 2 ^ 11 +
      pci.func.toNat * 2 ^ 8 + pci.reg.toNat := by
  have hb := pci.bus.isLt
  have hd := pci.dev.isLt
  have hf := pci.func.isLt
  have hr := pci.reg.isLt
  have hz : (0 : BitVec 7).toNat = 0 := rfl
  unfold PciConfigAccessCf8.uint32
  rw [BitVec.toNat_append, ← Nat.shiftLeft_add_eq_or_of_lt hr, BitVec.toNat_append,
    ← Nat.shiftLeft_add_eq_or_of_lt hf, BitVec.toNat_append, ← Nat.shiftLeft_add_eq_or_of_lt hd,
    BitVec.toNat_append, ← Nat.shiftLeft_add_eq_or_of_lt hb, BitVec.toNat_append,
    ← Nat.shiftLeft_add_eq_or_of_lt (by decide), hz]
  simp only [Nat.shiftLeft_eq]
  omega

def PciLocation.cf8 (loc : PciLocation) (reg : BitVec 8) : PciConfigAccessCf8 :=
  { reg, func := loc.function, dev := loc.device, bus := loc.bus, enable := 1 }

theorem and_0xFC_toNat (r : BitVec 8) : (r &&& 0xFC).toNat = r.toNat / 4 * 4 := by
  revert r
  decide

theorem selected_cf8 (loc : PciLocation) (r : BitVec 8) :
    selected (loc.cf8 (r &&& 0xFC)).uint32 + r.toNat % 4 = loc.base + r.toNat := by
  have hb := loc.bus.isLt
  have hd := loc.device.isLt
  have hf := loc.function.isLt
  have hr := r.isLt
  have henable : (1 : BitVec 1).toNat = 1 := rfl
  have hreg := and_0xFC_toNat r
  unfold selected PciLocation.base
  rw [uint32_toNat]
  unfold PciLocation.cf8
  dsimp only
  rw [hreg, henable]
  omega

theorem enabled_cf8 (loc : PciLocation) (reg : BitVec 8) : (loc.cf8 reg).uint32.getLsbD 31 = true := by
  have hb := loc.bus.isLt
  have hd := loc.device.isLt
  have hf := loc.function.isLt
  have hr := reg.isLt
  have henable : (1 : BitVec 1).toNat = 1 := rfl
  show (loc.cf8 reg).uint32.toNat.testBit 31 = true
  rw [uint32_toNat, Nat.testBit_eq_decide_div_mod_eq, decide_eq_true_eq]
  unfold PciLocation.cf8
  dsimp only
  rw [henable]
  omega

theorem ofNat_leBytes (v : BitVec 32) : BitVec.ofNat 32 (leValue (leBytes 4 v.toNat)) = v := by
  have hpow : 256 ^ 4 = 2 ^ 32 := rfl
  rw [leValue_leBytes, hpow, Nat.mod_eq_of_lt v.isLt]
  exact BitVec.ofNat_toNat 32 v

theorem beyondIo_dataPort {a : Aperture} {width k : Nat} (hwidth : widthRefused width = false) (hk : k < 4) :
    beyondIo a width (pciDataPort + BitVec.ofNat 64 k) =
      !(portReachable a k && decide (k % elementSize width = 0)) := by
  obtain ⟨hlt, _⟩ := elementSize_of_accepted hwidth
  have hport : (pciDataPort + BitVec.ofNat 64 k).toNat = 0xCFC + k := by
    rw [BitVec.toNat_add, BitVec.toNat_ofNat]
    show (0xCFC + k % 2 ^ 64) % 2 ^ 64 = 0xCFC + k
    omega
  have hbeyond : pciDataPort + BitVec.ofNat 64 k > a.ioLimit.setWidth 64 ↔ ¬ 0xCFC + k ≤ a.ioLimit.toNat := by
    have hlimit := a.ioLimit.isLt
    rw [gt_iff_lt, BitVec.lt_def, hport, BitVec.toNat_setWidth, Nat.mod_eq_of_lt (by omega), Nat.not_le]
  have haligned : pciDataPort + BitVec.ofNat 64 k &&& BitVec.ofNat 64 (2 ^ (width % 4) - 1) ≠ 0 ↔
      k % elementSize width ≠ 0 := by
    clear hbeyond hport
    interval_cases width <;> first
      | (exact absurd hwidth (by decide))
      | (interval_cases k <;> decide)
  unfold beyondIo portReachable
  rw [Nat.mod_eq_of_lt hk, Bool.eq_iff_iff, decide_eq_true_eq, hbeyond, haligned]
  by_cases hlow : 0xCFC + k ≤ a.ioLimit.toNat
  · by_cases hzero : k % elementSize width = 0 <;> simp [hlow, hzero]
  · simp [hlow]

/-! ## One element of the legacy path -/

/-- The legacy path transfers a register if its port is reachable and the register is aligned. -/
def transfers (a : Aperture) (width r : Nat) : Bool := portReachable a r && decide (r % elementSize width = 0)

section

variable {p : RootBridgeIo PciSpace} {hecBase : BitVec 32} {width : Nat} {loc : PciLocation}

theorem latch_ret (hio : p.cpuIo.ServesPci hecBase) (pci : PciConfigAccessCf8) (s : PciSpace) :
    ∃ status t, rootBridgeIoIoWrite p efiPciWidthUint32 pciAddress 1 (leBytes 4 pci.uint32.toNat) s =
      .ret status t ∧ t.config = s.config ∧
      (0xCF8 ≤ p.aperture.ioLimit.toNat → t.configAddress = pci.uint32) := by
  unfold rootBridgeIoIoWrite
  rw [if_neg (by decide)]
  split
  · next hbeyond =>
    refine ⟨.invalidParameter, s, rfl, rfl, fun hlimit => absurd hbeyond ?_⟩
    have hlt := p.aperture.ioLimit.isLt
    unfold beyondIo
    rw [decide_eq_true_eq, not_or]
    refine ⟨?_, by decide⟩
    rw [gt_iff_lt, BitVec.lt_def, BitVec.toNat_setWidth, Nat.mod_eq_of_lt (by omega)]
    exact Nat.not_lt.mpr hlimit
  · refine ⟨.success, { s with configAddress := pci.uint32 }, ?_, rfl, fun _ => rfl⟩
    unfold call
    rw [hio.latch _ s (length_leBytes 4 _), ofNat_leBytes]

theorem of_transfers {a : Aperture} {r : Nat} (h : transfers a width r = true) :
    0xCF8 ≤ a.ioLimit.toNat ∧ portReachable a (r % 4) = true ∧ r % elementSize width = 0 := by
  unfold transfers at h
  rw [Bool.and_eq_true, decide_eq_true_eq] at h
  obtain ⟨hport, haligned⟩ := h
  unfold portReachable at hport ⊢
  rw [decide_eq_true_eq] at hport
  rw [Nat.mod_mod, decide_eq_true_eq]
  exact ⟨by omega, hport, haligned⟩

theorem mod_four_mod {r : Nat} (hwidth : widthRefused width = false) :
    r % 4 % elementSize width = r % elementSize width := by
  obtain ⟨_, h | h | h⟩ := elementSize_of_accepted hwidth <;> rw [h] <;> omega

theorem beyondIo_of_transfers {r : Nat} (hwidth : widthRefused width = false) :
    beyondIo p.aperture width (pciDataPort + BitVec.ofNat 64 (r % 4)) = !transfers p.aperture width r := by
  have hport : portReachable p.aperture (r % 4) = portReachable p.aperture r := by
    unfold portReachable
    rw [Nat.mod_mod]
  rw [beyondIo_dataPort hwidth (Nat.mod_lt _ (by decide)), mod_four_mod hwidth, hport]
  rfl

theorem selected_of_latched {r : Nat} (hr : r < 256) {t : PciSpace}
    (ht : t.configAddress = (loc.cf8 (BitVec.ofNat 8 r &&& 0xFC)).uint32) :
    selected t.configAddress + r % 4 = loc.base + r ∧ t.configAddress.getLsbD 31 = true := by
  have h := selected_cf8 loc (BitVec.ofNat 8 r)
  rw [BitVec.toNat_ofNat, Nat.mod_eq_of_lt hr] at h
  rw [ht]
  exact ⟨h, enabled_cf8 loc _⟩

variable (width loc) in
theorem next_register (reg i : Nat) :
    (if width ≤ efiPciWidthUint64 then
        { loc.cf8 (BitVec.ofNat 8 (regAt width reg i)) with
          reg := (loc.cf8 (BitVec.ofNat 8 (regAt width reg i))).reg + BitVec.ofNat 8 (2 ^ width) }
      else loc.cf8 (BitVec.ofNat 8 (regAt width reg i))) =
      loc.cf8 (BitVec.ofNat 8 (regAt width reg (i + 1))) ∧
    (regAt width reg i % 4 + 2 ^ width) % 4 = regAt width reg (i + 1) % 4 := by
  unfold regAt
  by_cases hplain : width ≤ efiPciWidthUint64
  · have hsize : elementSize width = 2 ^ width := by
      unfold elementSize
      rw [Nat.mod_eq_of_lt (Nat.lt_succ_of_le hplain)]
    rw [if_pos hplain, if_pos hplain, if_pos hplain, hsize, Nat.succ_mul, ← Nat.add_assoc]
    constructor
    · unfold PciLocation.cf8
      dsimp only
      rw [← BitVec.ofNat_add]
    · omega
  · rw [if_neg hplain, if_neg hplain, if_neg hplain]
    refine ⟨rfl, ?_⟩
    have hdvd : 4 ∣ 2 ^ width := Nat.pow_dvd_pow 2 (m := 2) (by
      have hgt : ¬ width ≤ 3 := hplain
      omega)
    omega

variable (loc) in
theorem pciRWElements_read_succ (hio : p.cpuIo.ServesPci hecBase) (hwidth : widthRefused width = false)
    {reg i : Nat} (hr : regAt width reg i < 256) (n : Nat) (buffer : ByteStore) (s : PciSpace) :
    ∃ t, t.config = s.config ∧
      pciRWElements p false width (n + 1) (loc.cf8 (BitVec.ofNat 8 (regAt width reg i)))
          (regAt width reg i % 4) (i * 2 ^ width) buffer s =
        pciRWElements p false width n (loc.cf8 (BitVec.ofNat 8 (regAt width reg (i + 1))))
          (regAt width reg (i + 1) % 4) ((i + 1) * 2 ^ width)
          (if transfers p.aperture width (regAt width reg i) then
            buffer.put (i * 2 ^ width) (s.config.read (loc.base + regAt width reg i) (elementSize width))
            else buffer) t := by
  obtain ⟨status, t, hlatch, hconfig, hset⟩ :=
    latch_ret hio (loc.cf8 (BitVec.ofNat 8 (regAt width reg i) &&& 0xFC)) s
  obtain ⟨hnext, hstride⟩ := next_register width loc reg i
  have hread : ∃ status, rootBridgeIoIoRead p width
      (pciDataPort + BitVec.ofNat 64 (regAt width reg i % 4)) 1 t =
      .ret (status, if transfers p.aperture width (regAt width reg i) then
        s.config.read (loc.base + regAt width reg i) (elementSize width) else []) t := by
    unfold rootBridgeIoIoRead
    rw [if_neg (by rw [hwidth]; exact Bool.false_ne_true), beyondIo_of_transfers hwidth]
    cases htransfers : transfers p.aperture width (regAt width reg i) with
    | false => exact ⟨.invalidParameter, rfl⟩
    | true =>
      obtain ⟨hlimit, _, haligned⟩ := of_transfers htransfers
      obtain ⟨hsel, hen⟩ := selected_of_latched hr (hset hlimit)
      refine ⟨.success, ?_⟩
      rw [if_neg (by decide), if_pos rfl]
      unfold call
      rw [hio.dataRead width _ t hwidth ((mod_four_mod hwidth).trans haligned) (Nat.mod_lt _ (by decide)) hen,
        hsel, hconfig]
  obtain ⟨status', hread⟩ := hread
  refine ⟨t, hconfig, ?_⟩
  rw [pciRWElements]
  refine (Exec.bind_of_ret hlatch).trans ?_
  rw [if_neg Bool.false_ne_true]
  have hput : (rootBridgeIoIoRead p width (pciDataPort + BitVec.ofNat 64 (regAt width reg i % 4)) 1 >>=
      fun ans => (pure (buffer.put (i * 2 ^ width) ans.2) : Exec PciSpace ByteStore)) t =
      .ret (buffer.put (i * 2 ^ width) (if transfers p.aperture width (regAt width reg i) then
        s.config.read (loc.base + regAt width reg i) (elementSize width) else [])) t :=
    Exec.bind_of_ret hread
  refine (Exec.bind_of_ret hput).trans ?_
  rw [hnext, hstride, Nat.succ_mul]
  split
  · rfl
  · rw [ByteStore.put_nil]

variable (loc) in
theorem pciRWElements_write_succ (hio : p.cpuIo.ServesPci hecBase) (hwidth : widthRefused width = false)
    {reg i : Nat} (hr : regAt width reg i < 256) (n : Nat) (buffer : ByteStore) (s : PciSpace) :
    ∃ t, t.config = (if transfers p.aperture width (regAt width reg i) then
        s.config.put (loc.base + regAt width reg i) (buffer.read (i * 2 ^ width) (elementSize width))
        else s.config) ∧
      pciRWElements p true width (n + 1) (loc.cf8 (BitVec.ofNat 8 (regAt width reg i)))
          (regAt width reg i % 4) (i * 2 ^ width) buffer s =
        pciRWElements p true width n (loc.cf8 (BitVec.ofNat 8 (regAt width reg (i + 1))))
          (regAt width reg (i + 1) % 4) ((i + 1) * 2 ^ width) buffer t := by
  obtain ⟨status, t, hlatch, hconfig, hset⟩ :=
    latch_ret hio (loc.cf8 (BitVec.ofNat 8 (regAt width reg i) &&& 0xFC)) s
  obtain ⟨hnext, hstride⟩ := next_register width loc reg i
  have hlen : bufferLength width 1 = elementSize width := bufferLength_one width
  have hwrite : ∃ status u, rootBridgeIoIoWrite p width
      (pciDataPort + BitVec.ofNat 64 (regAt width reg i % 4)) 1
      (buffer.read (i * 2 ^ width) (bufferLength width 1)) t = .ret status u ∧
      u.config = if transfers p.aperture width (regAt width reg i) then
        s.config.put (loc.base + regAt width reg i) (buffer.read (i * 2 ^ width) (elementSize width))
        else s.config := by
    unfold rootBridgeIoIoWrite
    rw [if_neg (by rw [hwidth]; exact Bool.false_ne_true), beyondIo_of_transfers hwidth, hlen]
    cases htransfers : transfers p.aperture width (regAt width reg i) with
    | false => exact ⟨.invalidParameter, t, rfl, hconfig⟩
    | true =>
      obtain ⟨hlimit, _, haligned⟩ := of_transfers htransfers
      obtain ⟨hsel, hen⟩ := selected_of_latched hr (hset hlimit)
      rw [if_neg (by decide), if_pos rfl]
      unfold call
      rw [hio.dataWrite width _ _ t hwidth ((mod_four_mod hwidth).trans haligned) (Nat.mod_lt _ (by decide))
        hen (ByteStore.length_read _ _ _), hsel, hconfig]
      exact ⟨.success, _, rfl, rfl⟩
  obtain ⟨status', u, hwrite, hu⟩ := hwrite
  refine ⟨u, hu, ?_⟩
  rw [pciRWElements]
  refine (Exec.bind_of_ret hlatch).trans ?_
  rw [if_pos rfl]
  have hkeep : (rootBridgeIoIoWrite p width (pciDataPort + BitVec.ofNat 64 (regAt width reg i % 4)) 1
      (buffer.read (i * 2 ^ width) (bufferLength width 1)) >>=
      fun _ => (pure buffer : Exec PciSpace ByteStore)) t = .ret buffer u := Exec.bind_of_ret hwrite
  refine (Exec.bind_of_ret hkeep).trans ?_
  rw [hnext, hstride, Nat.succ_mul]

/-! ## The legacy loop -/

variable (loc) in
theorem pciRWElements_read (hio : p.cpuIo.ServesPci hecBase) (hwidth : widthRefused width = false)
    {reg n i : Nat} (hr : ∀ j, i ≤ j → j < i + n → regAt width reg j < 256) (buffer : ByteStore)
    (s : PciSpace) :
    ∃ t, t.config = s.config ∧
      pciRWElements p false width n (loc.cf8 (BitVec.ofNat 8 (regAt width reg i))) (regAt width reg i % 4)
          (i * 2 ^ width) buffer s =
        .ret (ByteStore.transfer (elementSize width) (fun j => transfers p.aperture width (regAt width reg j))
          (fun j => j * 2 ^ width) (fun j => loc.base + regAt width reg j) s.config n i buffer) t := by
  induction n generalizing i buffer s with
  | zero => exact ⟨s, rfl, rfl⟩
  | succ n ih =>
    obtain ⟨t, hconfig, hstep⟩ := pciRWElements_read_succ loc hio hwidth
      (hr i (Nat.le_refl i) (by omega)) n buffer s
    obtain ⟨u, hu, hrest⟩ := ih (i := i + 1) (fun j hij hjn => hr j (by omega) (by omega))
      (if transfers p.aperture width (regAt width reg i) then
        buffer.put (i * 2 ^ width) (s.config.read (loc.base + regAt width reg i) (elementSize width))
        else buffer) t
    refine ⟨u, hu.trans hconfig, ?_⟩
    rw [hstep, hrest, hconfig]
    rfl

variable (loc) in
theorem pciRWElements_write (hio : p.cpuIo.ServesPci hecBase) (hwidth : widthRefused width = false)
    {reg n i : Nat} (hr : ∀ j, i ≤ j → j < i + n → regAt width reg j < 256) (buffer : ByteStore)
    (s : PciSpace) :
    ∃ t, t.config = ByteStore.transfer (elementSize width)
        (fun j => transfers p.aperture width (regAt width reg j)) (fun j => loc.base + regAt width reg j)
        (fun j => j * 2 ^ width) buffer n i s.config ∧
      pciRWElements p true width n (loc.cf8 (BitVec.ofNat 8 (regAt width reg i))) (regAt width reg i % 4)
          (i * 2 ^ width) buffer s = .ret buffer t := by
  induction n generalizing i s with
  | zero => exact ⟨s, rfl, rfl⟩
  | succ n ih =>
    obtain ⟨t, hconfig, hstep⟩ := pciRWElements_write_succ loc hio hwidth
      (hr i (Nat.le_refl i) (by omega)) n buffer s
    obtain ⟨u, hu, hrest⟩ := ih (i := i + 1) (fun j hij hjn => hr j (by omega) (by omega)) t
    refine ⟨u, ?_, hstep.trans hrest⟩
    rw [hu, hconfig]
    rfl

/-! ## Both paths -/

theorem regAt_lt {reg count : Nat} (h : StaysInside width reg count) :
    ∀ j, 0 ≤ j → j < 0 + count → regAt width reg j < 256 := by
  intro j _ hj
  have hpos := elementSize_pos width
  unfold StaysInside at h
  unfold regAt
  have hmul : j * elementSize width + elementSize width ≤ count * elementSize width := by
    rw [← Nat.succ_mul]
    exact Nat.mul_le_mul_right _ (by omega)
  split
  · next hplain =>
    have hfifo : isFifo width = false := by
      have hle : width ≤ 3 := hplain
      unfold isFifo
      rw [decide_eq_false_iff_not]
      omega
    rw [hfifo, if_neg Bool.false_ne_true] at h
    omega
  · split at h <;> omega

variable (loc) in
theorem legacy_ret (hio : p.cpuIo.ServesPci hecBase) (hwidth : widthRefused width = false)
    {count : BitVec 32} (hinside : StaysInside width loc.register.toNat count.toNat) (write : Bool)
    (buffer : ByteStore) (s : PciSpace) :
    ∃ t, rootBridgeIoPciAccess { p with hecBase := 0 } write width loc.address count buffer s =
        .ret (.success, if write then buffer else
          ByteStore.transfer (elementSize width)
            (fun j => transfers p.aperture width (regAt width loc.register.toNat j))
            (fun j => j * 2 ^ width) (fun j => loc.base + regAt width loc.register.toNat j) s.config
            count.toNat 0 buffer) t ∧
      t.config = if write then
          ByteStore.transfer (elementSize width)
            (fun j => transfers p.aperture width (regAt width loc.register.toNat j))
            (fun j => loc.base + regAt width loc.register.toNat j) (fun j => j * 2 ^ width) buffer
            count.toNat 0 s.config
        else s.config := by
  have hlt := (elementSize_of_accepted hwidth).1
  have hzero : regAt width loc.register.toNat 0 = loc.register.toNat := by
    unfold regAt
    split
    · rw [Nat.zero_mul, Nat.add_zero]
    · rfl
  have hreg : BitVec.ofNat 8 (regAt width loc.register.toNat 0) = loc.register := by
    rw [hzero]
    exact BitVec.ofNat_toNat 8 loc.register
  -- The fields of the address fit the fields of the latch word.
  have hpci : (⟨loc.address.register, loc.address.function.setWidth 3, loc.address.device.setWidth 5,
      loc.address.bus, 1⟩ : PciConfigAccessCf8) = loc.cf8 loc.register := by
    unfold PciLocation.address PciLocation.cf8
    simp
  have hrw : ∀ t b, pciRWElements { p with hecBase := 0 } write width count.toNat (loc.cf8 loc.register)
      (loc.register.toNat % 4) 0 buffer s = .ret b t →
      rootBridgeIoPciRW { p with hecBase := 0 } write width loc.address count buffer s =
        .ret (.success, b) t := by
    intro t b h
    unfold rootBridgeIoPciRW
    rw [if_neg (Nat.not_le.mpr hlt)]
    refine (Exec.bind_of_ret (assert_of (fun _ => rfl) s)).trans ?_
    rw [hpci]
    exact Exec.bind_of_ret h
  have hio' : ({ p with hecBase := 0 } : RootBridgeIo PciSpace).cpuIo.ServesPci hecBase := hio
  cases write with
  | false =>
    obtain ⟨t, hconfig, hrun⟩ := pciRWElements_read loc hio' hwidth (regAt_lt hinside) buffer s
    rw [hreg, hzero, Nat.zero_mul] at hrun
    refine ⟨t, ?_, hconfig⟩
    show rootBridgeIoPciRead _ width loc.address count buffer s = _
    unfold rootBridgeIoPciRead
    rw [if_neg (by rw [hwidth]; exact Bool.false_ne_true), if_pos rfl]
    exact hrw t _ hrun
  | true =>
    obtain ⟨t, hconfig, hrun⟩ := pciRWElements_write loc hio' hwidth (regAt_lt hinside) buffer s
    rw [hreg, hzero, Nat.zero_mul] at hrun
    refine ⟨t, ?_, hconfig⟩
    show rootBridgeIoPciWrite _ width loc.address count buffer s = _
    unfold rootBridgeIoPciWrite
    rw [if_neg (Nat.not_le.mpr hlt), if_pos rfl]
    exact hrw t _ hrun

theorem call_bind {σ α β : Type} {f : σ → α × σ} {s t : σ} {a : α} (h : f s = (a, t)) (k : α → Exec σ β) :
    (call f >>= k) s = k a t := by
  have hret : call f s = .ret a t := by
    unfold call
    rw [h]
  exact Exec.bind_of_ret hret

variable (loc) in
theorem mapped_ret (hio : p.cpuIo.ServesPci p.hecBase) (hhec : p.hecBase ≠ 0)
    (hwidth : widthRefused width = false) (count : BitVec 32) (write : Bool) (buffer : ByteStore)
    (s : PciSpace) :
    ∃ status t, rootBridgeIoPciAccess p write width loc.address count buffer s =
        .ret (status, if write ∨ loc.register.toNat % elementSize width ≠ 0 then buffer else
          buffer.put 0 (readElements width s.config (loc.base + loc.register.toNat) count.toNat)) t ∧
      t.config = if write = true ∧ loc.register.toNat % elementSize width = 0 then
          writeElements width s.config (loc.base + loc.register.toNat) count.toNat
            (buffer.read 0 (bufferLength width count.toNat))
        else s.config := by
  have hlt := (elementSize_of_accepted hwidth).1
  have hoff : loc.base + loc.register.toNat < 2 ^ 28 := by
    have := loc.base_lt
    have := loc.register.isLt
    omega
  have hmod : (loc.base + loc.register.toNat) % elementSize width = loc.register.toNat % elementSize width := by
    unfold PciLocation.base
    obtain ⟨_, h | h | h⟩ := elementSize_of_accepted hwidth <;> rw [h] <;> omega
  by_cases haligned : loc.register.toNat % elementSize width = 0
  · cases write with
    | false =>
      refine ⟨.success, s, ?_, rfl⟩
      rw [if_neg (by simpa using haligned)]
      show rootBridgeIoPciRead p width loc.address count buffer s = _
      unfold rootBridgeIoPciRead
      rw [if_neg (by rw [hwidth]; exact Bool.false_ne_true), if_neg hhec, extConfigAdd_address]
      exact call_bind (hio.memRead width _ count s hwidth hoff (hmod.trans haligned)) _
    | true =>
      have hlen : (buffer.read 0 (bufferLength width count.toNat)).length = bufferLength width count.toNat :=
        ByteStore.length_read _ _ _
      refine ⟨.success, { s with config := (writeElements width s.config (loc.base + loc.register.toNat)
        count.toNat (buffer.read 0 (bufferLength width count.toNat))) }, ?_, ?_⟩
      case refine_2 => exact (if_pos ⟨rfl, haligned⟩).symm
      show rootBridgeIoPciWrite p width loc.address count buffer s = _
      unfold rootBridgeIoPciWrite
      rw [if_neg (Nat.not_le.mpr hlt), if_neg hhec, extConfigAdd_address]
      exact call_bind (hio.memWrite width _ count _ s hwidth hoff (hmod.trans haligned) hlen) _
  · have hunaligned : (loc.base + loc.register.toNat) % elementSize width ≠ 0 := by rwa [hmod]
    refine ⟨.unsupported, s, ?_, (if_neg fun h => haligned h.2).symm⟩
    rw [if_pos (.inr haligned)]
    cases write with
    | false =>
      show rootBridgeIoPciRead p width loc.address count buffer s = _
      unfold rootBridgeIoPciRead
      rw [if_neg (by rw [hwidth]; exact Bool.false_ne_true), if_neg hhec, extConfigAdd_address]
      refine (call_bind (hio.memReadUnaligned width _ count s hwidth hoff hunaligned) _).trans ?_
      dsimp only
      rw [ByteStore.put_nil]
      rfl
    | true =>
      show rootBridgeIoPciWrite p width loc.address count buffer s = _
      unfold rootBridgeIoPciWrite
      rw [if_neg (Nat.not_le.mpr hlt), if_neg hhec, extConfigAdd_address]
      exact call_bind (hio.memWriteUnaligned width _ count _ s hwidth hoff hunaligned) _

end

end Quark.PciHostBridge
