import Quark.Fvb.Proofs.PlacementProofs

/-!
# Reads and writes of one block

A request that gets to the boundary check is cut at the end of its block, unless the 32-bit sum of its
offset and its length wraps. A write behind the last byte of its block is cut to nothing and still programs
what the data registers hold.
-/

namespace Quark.Fvb

open Machine Machine.Exec
open Spi (Host Exchange Cycle eraseSectorSize)

variable {env : FvbEnv} {v : Volume}

/-! ## The boundary check -/

/-- The request gets to the boundary check, in a block of `len` bytes. -/
structure Served (v : Volume) (status : BitVec 32) (lba : BitVec 64) (blockOffset numBytes : BitVec 32)
    (len : Nat) : Prop where
  bytes : numBytes ≠ 0
  block : v.blocks[lba.toNat]? = some len
  enabled : v.attributes &&& status ≠ 0
  inside : blockOffset.toNat ≤ len

theorem toNat_lbaLength (hsum : v.blocks.sum < 2 ^ 32) {k len : Nat} (hlen : v.blocks[k]? = some len) :
    (BitVec.ofNat 32 len).toNat = len := by
  rw [BitVec.toNat_ofNat]
  exact Nat.mod_eq_of_lt (Nat.lt_of_le_of_lt (block_le_sum hlen) hsum)

section Cut

variable {lbaLength numBytes blockOffset : BitVec 32}

theorem cut_iff (lbaLength : BitVec 32) (hsum : numBytes.toNat + blockOffset.toNat < 2 ^ 32) :
    Cut lbaLength numBytes blockOffset ↔ lbaLength.toNat < numBytes.toNat + blockOffset.toNat := by
  unfold Cut
  rw [BitVec.lt_def, BitVec.toNat_add, Nat.mod_eq_of_lt hsum]

theorem toNat_adjusted (lbaLength : BitVec 32) (hsum : numBytes.toNat + blockOffset.toNat < 2 ^ 32)
    (hinside : blockOffset.toNat ≤ lbaLength.toNat) :
    (adjusted lbaLength numBytes blockOffset).toNat =
      min numBytes.toNat (lbaLength.toNat - blockOffset.toNat) := by
  unfold adjusted
  by_cases hcut : Cut lbaLength numBytes blockOffset
  · rw [if_pos hcut, BitVec.toNat_sub_of_le hinside]
    have := (cut_iff lbaLength hsum).mp hcut
    omega
  · rw [if_neg hcut]
    have := mt (cut_iff lbaLength hsum).mpr hcut
    omega

theorem not_cut_of_wraps (hwraps : 2 ^ 32 ≤ numBytes.toNat + blockOffset.toNat)
    (hinside : blockOffset.toNat ≤ lbaLength.toNat) : ¬ Cut lbaLength numBytes blockOffset := by
  unfold Cut
  bv_omega

end Cut

/-- What a request that is cut at the end of its block ends in: it touches bytes of the block only, it
returns how many it has moved, and it says that it was cut exactly if it was. -/
structure Confined (v : Volume) (lba : BitVec 64) (blockOffset numBytes : BitVec 32)
    (touched : BitVec 32 → Prop) (moved : Nat) (st : EfiStatus) (n : BitVec 32) : Prop where
  inside : ∀ a, touched a → v.InBlock lba a
  count : st = .success ∨ st = .badBufferSize → n.toNat = moved
  cut : st ≠ .deviceError → (st = .badBufferSize ↔ n ≠ numBytes)
  atEnd : n ≠ numBytes → v.blocks[lba.toNat]? = some (blockOffset.toNat + n.toNat)

theorem Confined.rejected {lba : BitVec 64} {blockOffset numBytes : BitVec 32}
    {touched : BitVec 32 → Prop} {st : EfiStatus} (hst : st = .invalidParameter ∨ st = .accessDenied)
    (hnone : ∀ a, ¬ touched a) (moved : Nat) :
    Confined v lba blockOffset numBytes touched moved st numBytes where
  inside := fun a ha => absurd ha (hnone a)
  count := by rcases hst with rfl | rfl <;> exact nofun
  cut := fun _ => ⟨by rcases hst with rfl | rfl <;> exact nofun, fun h => absurd rfl h⟩
  atEnd := fun h => absurd rfl h

theorem Confined.served {status : BitVec 32} {lba : BitVec 64} {blockOffset numBytes : BitVec 32}
    {len : Nat} (hsize : v.blocks.sum < 2 ^ 32) (hs : Served v status lba blockOffset numBytes len)
    (hsum : numBytes.toNat + blockOffset.toNat < 2 ^ 32) {touched : BitVec 32 → Prop} {moved : Nat}
    {st : EfiStatus} (hinside : ∀ a, touched a → v.InBlock lba a)
    (hst : st = .deviceError ∨ st = boundaryStatus (BitVec.ofNat 32 len) numBytes blockOffset ∧
      moved = (adjusted (BitVec.ofNat 32 len) numBytes blockOffset).toNat) :
    Confined v lba blockOffset numBytes touched moved st
      (adjusted (BitVec.ofNat 32 len) numBytes blockOffset) := by
  have hlen := toNat_lbaLength hsize hs.block
  have hle := hs.inside
  have hadj := toNat_adjusted (BitVec.ofNat 32 len) hsum (by omega)
  have hcut := cut_iff (BitVec.ofNat 32 len) hsum
  have hne : adjusted (BitVec.ofNat 32 len) numBytes blockOffset ≠ numBytes ↔
      Cut (BitVec.ofNat 32 len) numBytes blockOffset := by
    rw [hcut]
    constructor
    · intro hne
      by_contra hno
      exact hne (BitVec.eq_of_toNat_eq (by omega))
    · intro hlt heq
      rw [heq] at hadj
      omega
  refine ⟨hinside, fun hok => ?_, fun hok => ?_, fun hok => ?_⟩
  · rcases hst with rfl | ⟨-, rfl⟩
    · rcases hok with hok | hok <;> cases hok
    · rfl
  · obtain ⟨rfl, -⟩ := hst.resolve_left hok
    unfold boundaryStatus
    rw [hne]
    by_cases hc : Cut (BitVec.ofNat 32 len) numBytes blockOffset
    · rw [if_pos hc]
      exact ⟨fun _ => hc, fun _ => rfl⟩
    · rw [if_neg hc]
      exact ⟨nofun, fun h => absurd h hc⟩
  · have := hcut.mp (hne.mp hok)
    rw [hs.block]
    exact congrArg _ (by omega)

/-! ## Reads -/

def ReadConfined (env : FvbEnv) (v : Volume) (lba : BitVec 64) (blockOffset numBytes : BitVec 32) : Prop :=
  ∀ (h : Host) (buffer : List Byte), numBytes.toNat ≤ buffer.length →
    ∃ st n data t reads, fvbReadBlock env v lba blockOffset numBytes buffer h = .ret (st, n, data) t ∧
      t.reads = h.reads ++ reads ∧ t.exchanges = h.exchanges ∧
      Confined v lba blockOffset numBytes (fun a => ∃ r ∈ reads, ∃ i < r.2, a = r.1 + BitVec.ofNat 32 i)
        (reads.map (·.2)).sum st n

theorem wp_fvbReadBlock (env : FvbEnv) (hsize : v.blocks.sum < 2 ^ 32) {lba : BitVec 64}
    {blockOffset numBytes : BitVec 32} {len : Nat}
    (hs : Served v Attr.readStatus lba blockOffset numBytes len) {a n : BitVec 32}
    (ha : a = v.fvBase + BitVec.ofNat 32 (v.start lba.toNat + blockOffset.toNat))
    (hn : n = adjusted (BitVec.ofNat 32 len) numBytes blockOffset) (buffer : List Byte) (h : Host) :
    wp (fvbReadBlock env v lba blockOffset numBytes buffer)
      (fun r t => r = (boundaryStatus (BitVec.ofNat 32 len) numBytes blockOffset, n,
          (List.range n.toNat).map (fun i => Spi.memoryAt env.spi h (a + BitVec.ofNat 32 i)) ++
            buffer.drop n.toNat) ∧ t = { h with reads := h.reads ++ [(a, n.toNat)] })
      (fun _ _ => 2 ^ 32 < a.toNat + n.toNat ∨ buffer.length < n.toNat) h := by
  have hlen := toNat_lbaLength hsize hs.block
  have haddr : (lbaInfoAt v v.blockMap 0 lba.toNat len).lbaAddress + blockOffset = a := by
    have := lbaAddress_add (v := v) v.blockMap lba.toNat len blockOffset.toNat
    rw [BitVec.ofNat_toNat, BitVec.setWidth_eq] at this
    rw [this, ha]
    rfl
  have hnot : ¬ (lbaInfoAt v v.blockMap 0 lba.toNat len).lbaLength < blockOffset := by
    show ¬ BitVec.ofNat 32 len < blockOffset
    rw [BitVec.lt_def, hlen]
    exact Nat.not_lt.mpr hs.inside
  unfold fvbReadBlock
  rw [if_neg hs.bytes, fvbGetLbaAddress_of_block hsize hs.block]
  show wp (if _ then _ else if _ then _ else _) _ _ h
  rw [if_neg hs.enabled, if_neg hnot, wp_bind, haddr]
  show wp (mmioReadBuffer8 env a (adjusted (BitVec.ofNat 32 len) numBytes blockOffset) buffer) _ _ h
  rw [← hn, mmioReadBuffer8, wp_bind, wp_assert]
  refine ⟨fun _ => ?_, fun hassert => .inl (by omega)⟩
  rw [Spi.copyMem, wp_bind, wp_get, wp_bind, wp_when]
  refine ⟨.inr, fun _ => ?_⟩
  show (_, adjusted (BitVec.ofNat 32 len) numBytes blockOffset, _) = _ ∧ _
  rw [← hn]
  exact ⟨rfl, rfl⟩

theorem fvbReadBlock_rejected (env : FvbEnv) (hsize : v.blocks.sum < 2 ^ 32) {lba : BitVec 64}
    {blockOffset numBytes : BitVec 32} (hno : ∀ len, ¬ Served v Attr.readStatus lba blockOffset numBytes len)
    (buffer : List Byte) : ∃ st, (st = .invalidParameter ∨ st = .accessDenied) ∧
      fvbReadBlock env v lba blockOffset numBytes buffer = pure (st, numBytes, buffer) := by
  unfold fvbReadBlock
  by_cases hzero : numBytes = 0
  · exact ⟨.invalidParameter, .inl rfl, if_pos hzero⟩
  rw [if_neg hzero]
  cases hlen : v.blocks[lba.toNat]? with
  | none => exact ⟨.invalidParameter, .inl rfl, by rw [fvbGetLbaAddress_of_none hsize hlen]⟩
  | some len =>
    rw [fvbGetLbaAddress_of_block hsize hlen]
    by_cases henabled : v.attributes &&& Attr.readStatus = 0
    · exact ⟨.accessDenied, .inr rfl, if_pos henabled⟩
    have hbehind : BitVec.ofNat 32 len < blockOffset := by
      rw [BitVec.lt_def, toNat_lbaLength hsize hlen]
      exact Nat.lt_of_not_le fun hle => hno len ⟨hzero, hlen, henabled, hle⟩
    exact ⟨.invalidParameter, .inl rfl, (if_neg henabled).trans (if_pos hbehind)⟩

theorem Placed.toNat_address (hp : Placed env v) {lba : BitVec 64} {len o : Nat}
    (hlen : v.blocks[lba.toNat]? = some len) (ho : o < len) :
    (v.fvBase + BitVec.ofNat 32 (v.start lba.toNat + o)).toNat =
      v.fvBase.toNat + (v.start lba.toNat + o) := by
  have hle : v.start lba.toNat + len ≤ v.blocks.sum := Layout.start_add_le hlen
  have hbelow := hp.below
  generalize v.start lba.toNat = start at *
  generalize v.fvBase = base at *
  rw [BitVec.toNat_add, BitVec.toNat_ofNat]
  omega

theorem readConfined_iff (hp : Placed env v) (lba : BitVec 64) (blockOffset numBytes : BitVec 32) :
    ReadConfined env v lba blockOffset numBytes ↔
      ∀ len, Served v Attr.readStatus lba blockOffset numBytes len →
        numBytes.toNat + blockOffset.toNat < 2 ^ 32 := by
  have hsize := hp.sum_lt
  constructor
  · intro hconfined len hs
    by_contra hwraps
    have hlen := toNat_lbaLength hsize hs.block
    have hend : v.start lba.toNat + len ≤ v.blocks.sum := Layout.start_add_le hs.block
    have hinside := hs.inside
    have hnumBytes := numBytes.isLt
    have hn : adjusted (BitVec.ofNat 32 len) numBytes blockOffset = numBytes :=
      if_neg (not_cut_of_wraps (by omega) (by omega))
    let buffer : List Byte := List.replicate numBytes.toNat 0
    let h := Spi.hostWith fun _ => ByteStore.erased
    obtain ⟨st, n, data, t, reads, hrun, hreads, -, hinBlock, -⟩ := hconfined h buffer
      (by rw [List.length_replicate])
    have hread := wp_of_ret (wp_fvbReadBlock env hsize hs rfl hn.symm buffer h) hrun
    have hall : reads = [(v.fvBase + BitVec.ofNat 32 (v.start lba.toNat + blockOffset.toNat),
        numBytes.toNat)] := by
      have := hreads.symm.trans (congrArg Host.reads hread.2)
      exact List.append_cancel_left this
    -- the byte behind the last one of the block
    obtain ⟨len', o, hlen', ho, heq⟩ := hinBlock _ ⟨_, by rw [hall]; exact List.mem_singleton_self _,
      len - blockOffset.toNat, show len - blockOffset.toNat < numBytes.toNat by omega, rfl⟩
    cases hs.block.symm.trans hlen'
    rw [BitVec.add_assoc, ← BitVec.ofNat_add] at heq
    have := add_ofNat_inj (by omega) (by omega) heq
    omega
  · intro hsum h buffer hbuffer
    by_cases hserved : ∃ len, Served v Attr.readStatus lba blockOffset numBytes len
    · obtain ⟨len, hs⟩ := hserved
      have hlen := toNat_lbaLength hsize hs.block
      have hend : v.start lba.toNat + len ≤ v.blocks.sum := Layout.start_add_le hs.block
      have hinside := hs.inside
      have hadj := toNat_adjusted (BitVec.ofNat 32 len) (hsum len hs) (by omega)
      have hfits : (v.fvBase + BitVec.ofNat 32 (v.start lba.toNat + blockOffset.toNat)).toNat +
          (adjusted (BitVec.ofNat 32 len) numBytes blockOffset).toNat ≤ 2 ^ 32 := by
        have hbelow := hp.below
        rcases Nat.lt_or_ge blockOffset.toNat len with hlt | hge
        · rw [hp.toNat_address hs.block hlt]
          omega
        · have := (v.fvBase + BitVec.ofNat 32 (v.start lba.toNat + blockOffset.toNat)).isLt
          omega
      have hrun := wp_fvbReadBlock env hsize hs rfl rfl buffer h
      obtain ⟨r, t, hrun, rfl, rfl⟩ := returns_of_wp (wp_mono hrun (fun _ _ hq => hq)
        fun _ _ he => absurd he (by omega))
      refine ⟨_, _, _, _, [_], hrun, rfl, rfl, Confined.served hsize hs (hsum len hs) ?_ (.inr ⟨rfl, rfl⟩)⟩
      rintro a ⟨r, hr, i, hi, rfl⟩
      rw [List.mem_singleton.mp hr] at hi ⊢
      refine ⟨len, blockOffset.toNat + i, hs.block, by omega, ?_⟩
      rw [BitVec.add_assoc, ← BitVec.ofNat_add, Nat.add_assoc]
    · obtain ⟨st, hst, hrun⟩ := fvbReadBlock_rejected env hsize
        (fun len hs => hserved ⟨len, hs⟩) buffer
      refine ⟨st, numBytes, buffer, h, [], congrFun hrun h, (List.append_nil _).symm, rfl,
        Confined.rejected hst ?_ _⟩
      rintro a ⟨r, hr, -⟩
      cases hr

/-! ## Writes -/

def WriteConfined (env : FvbEnv) (v : Volume) (lba : BitVec 64) (blockOffset numBytes : BitVec 32) : Prop :=
  ∀ (spis : Nat → BitVec 16) (h : Host) (buffer : List Byte), numBytes.toNat ≤ buffer.length →
    ∃ st n t es, fvbWriteBlock (env.polled spis) v lba blockOffset numBytes buffer h = .ret (st, n) t ∧
      t.exchanges = h.exchanges ++ es ∧
      Confined v lba blockOffset numBytes
        (fun a => ∃ e ∈ es, ∃ x, e.cycle.Touches x ∧ a = BitVec.ofNat 32 (env.spi.window + x))
        (Span.total (es.map (·.cycle.span))) st n

theorem wp_fvbWriteBlock (hsize : v.blocks.sum < 2 ^ 32) (hwrite : v.writeEnabled = true) {lba : BitVec 64}
    {blockOffset numBytes : BitVec 32} {len : Nat}
    (hs : Served v Attr.writeStatus lba blockOffset numBytes len) {n : BitVec 32}
    (hn : n = adjusted (BitVec.ofNat 32 len) numBytes blockOffset) {buffer : List Byte} {h : Host}
    {Q : EfiStatus × BitVec 32 → Host → Prop} {E : Stop → Host → Prop}
    (hexecute : wp (Spi.spiProtocolExecute env.spi 3 0 true true true
        (v.fvWriteBase + BitVec.ofNat 32 (v.start lba.toNat + blockOffset.toNat) -
          env.pcdFlashAreaBaseAddress) n buffer .bios)
      (fun r t => Q (if r.1.isError then r.1 else boundaryStatus (BitVec.ofNat 32 len) numBytes blockOffset,
        n) t) E h) :
    wp (fvbWriteBlock env v lba blockOffset numBytes buffer) Q E h := by
  have haddr : (lbaInfoAt v v.blockMap 0 lba.toNat len).lbaWriteAddress + blockOffset =
      v.fvWriteBase + BitVec.ofNat 32 (v.start lba.toNat + blockOffset.toNat) := by
    show v.fvWriteBase + (0#32 + BitVec.ofNat 32 (v.start lba.toNat)) + blockOffset = _
    rw [BitVec.zero_add, BitVec.add_assoc, BitVec.ofNat_add, BitVec.ofNat_toNat, BitVec.setWidth_eq]
  have hnot : ¬ (lbaInfoAt v v.blockMap 0 lba.toNat len).lbaLength < blockOffset := by
    show ¬ BitVec.ofNat 32 len < blockOffset
    rw [BitVec.lt_def, toNat_lbaLength hsize hs.block]
    exact Nat.not_lt.mpr hs.inside
  unfold fvbWriteBlock
  rw [if_neg (by rw [hwrite]; decide), if_neg hs.bytes, fvbGetLbaAddress_of_block hsize hs.block]
  show wp (if _ then _ else if _ then _ else _) _ _ h
  rw [if_neg hs.enabled, if_neg hnot, wp_bind, haddr]
  show wp (flashFdWrite env _ (adjusted (BitVec.ofNat 32 len) numBytes blockOffset) buffer) _ _ h
  rw [← hn, flashFdWrite, wp_bind]
  refine wp_mono hexecute (fun r t hq => ?_) fun _ _ he => he
  rw [hn] at hq
  exact hq

theorem fvbWriteBlock_rejected (env : FvbEnv) (hsize : v.blocks.sum < 2 ^ 32) {lba : BitVec 64}
    {blockOffset numBytes : BitVec 32}
    (hno : v.writeEnabled = true → ∀ len, ¬ Served v Attr.writeStatus lba blockOffset numBytes len)
    (buffer : List Byte) : ∃ st, (st = .invalidParameter ∨ st = .accessDenied) ∧
      fvbWriteBlock env v lba blockOffset numBytes buffer = pure (st, numBytes) := by
  unfold fvbWriteBlock
  by_cases hwrite : v.writeEnabled = false
  · exact ⟨.accessDenied, .inr rfl, if_pos hwrite⟩
  rw [if_neg hwrite]
  by_cases hzero : numBytes = 0
  · exact ⟨.invalidParameter, .inl rfl, if_pos hzero⟩
  rw [if_neg hzero]
  cases hlen : v.blocks[lba.toNat]? with
  | none => exact ⟨.invalidParameter, .inl rfl, by rw [fvbGetLbaAddress_of_none hsize hlen]⟩
  | some len =>
    rw [fvbGetLbaAddress_of_block hsize hlen]
    by_cases henabled : v.attributes &&& Attr.writeStatus = 0
    · exact ⟨.accessDenied, .inr rfl, if_pos henabled⟩
    have hbehind : BitVec.ofNat 32 len < blockOffset := by
      rw [BitVec.lt_def, toNat_lbaLength hsize hlen]
      exact Nat.lt_of_not_le fun hle =>
        hno (Bool.eq_true_of_not_eq_false hwrite) len ⟨hzero, hlen, henabled, hle⟩
    exact ⟨.invalidParameter, .inl rfl, (if_neg henabled).trans (if_pos hbehind)⟩

theorem Placed.command (hp : Placed env v) {lba : BitVec 64} {len o : Nat}
    (hlen : v.blocks[lba.toNat]? = some len) (ho : o ≤ len) :
    env.spi.linear (v.fvWriteBase + BitVec.ofNat 32 (v.start lba.toNat + o) -
        env.pcdFlashAreaBaseAddress) = v.chipBase env + v.start lba.toNat + o ∧
      v.chipBase env + v.start lba.toNat + len ≤ 0x800000 := by
  have hend : v.start lba.toNat + len ≤ v.blocks.sum := Layout.start_add_le hlen
  obtain ⟨-, -, hpartEnd⟩ := hp.bounds
  have hpart := hp.part
  refine ⟨?_, by omega⟩
  rw [Nat.add_assoc]
  exact hp.linear (by omega)

theorem wp_write_inside (hp : Placed env v) (hwrite : v.writeEnabled = true) {lba : BitVec 64}
    {blockOffset numBytes : BitVec 32} {len : Nat}
    (hs : Served v Attr.writeStatus lba blockOffset numBytes len)
    (hsum : numBytes.toNat + blockOffset.toNat < 2 ^ 32) (hlt : blockOffset.toNat < len) {n : BitVec 32}
    (hn : n = adjusted (BitVec.ofNat 32 len) numBytes blockOffset)
    (buffer : List Byte) (hbuffer : n.toNat ≤ buffer.length) (h : Host) :
    wp (fvbWriteBlock env v lba blockOffset numBytes buffer)
      (fun r t => r.2 = n ∧ ∃ st es,
        Spi.Written env.spi (v.chipBase env + v.start lba.toNat + blockOffset.toNat) n.toNat
          (buffer.take n.toNat) h t st es ∧
        r.1 = if st.isError then st else boundaryStatus (BitVec.ofNat 32 len) numBytes blockOffset)
      (fun _ _ => False) h := by
  have hlen := toNat_lbaLength hp.sum_lt hs.block
  obtain ⟨hlinear, hend⟩ := hp.command hs.block (Nat.le_of_lt hlt)
  have hadj := toNat_adjusted (BitVec.ofNat 32 len) hsum (by omega)
  rw [← hn] at hadj
  have hpos : 0 < numBytes.toNat := Nat.pos_of_ne_zero fun hz => hs.bytes (BitVec.eq_of_toNat_eq hz)
  refine wp_fvbWriteBlock hp.sum_lt hwrite hs hn ?_
  refine wp_mono (Spi.wp_write hp.flash (by omega) (by omega) hbuffer h) ?_ fun _ _ hf => hf
  rintro r t ⟨es, hw⟩
  rw [hlinear] at hw
  exact ⟨rfl, r.1, es, hw, rfl⟩

theorem Confined.of_written (hp : Placed env v) {lba : BitVec 64} {blockOffset numBytes : BitVec 32}
    {len : Nat} (hs : Served v Attr.writeStatus lba blockOffset numBytes len)
    (hsum : numBytes.toNat + blockOffset.toNat < 2 ^ 32) {n : BitVec 32}
    (hn : n = adjusted (BitVec.ofNat 32 len) numBytes blockOffset) {bytes : List Byte} {h t : Host}
    {st : EfiStatus} {es : List Exchange}
    (hw : Spi.Written env.spi (v.chipBase env + v.start lba.toNat + blockOffset.toNat) n.toNat bytes h t
      st es) :
    Confined v lba blockOffset numBytes
      (fun a => ∃ e ∈ es, ∃ x, e.cycle.Touches x ∧ a = BitVec.ofNat 32 (env.spi.window + x))
      (Span.total (es.map (·.cycle.span)))
      (if st.isError then st else boundaryStatus (BitVec.ofNat 32 len) numBytes blockOffset) n := by
  have hlen := toNat_lbaLength hp.sum_lt hs.block
  have hinside := hs.inside
  obtain ⟨-, hend⟩ := hp.command hs.block hinside
  have hadj := toNat_adjusted (BitVec.ofNat 32 len) hsum (by omega)
  rw [← hn] at hadj
  rw [hn]
  refine Confined.served hp.sum_lt hs hsum ?_ ?_
  · rintro a ⟨e, he, x, hx, rfl⟩
    obtain ⟨hlow, hhigh⟩ := hw.within e he x hx
    exact (hp.inBlock_iff hs.block (by omega)).mpr (by omega)
  · rcases hw.outcome with ⟨rfl, htotal, -⟩ | ⟨rfl, -⟩
    · rw [htotal, hn]
      exact .inr ⟨rfl, rfl⟩
    · exact .inl rfl

theorem wp_write_nothing (hp : Placed env v) (hwrite : v.writeEnabled = true) {lba : BitVec 64}
    {blockOffset numBytes : BitVec 32} {len : Nat}
    (hs : Served v Attr.writeStatus lba blockOffset numBytes len)
    (hsum : numBytes.toNat + blockOffset.toNat < 2 ^ 32) (heq : blockOffset.toNat = len)
    (buffer : List Byte) (h : Host) :
    wp (fvbWriteBlock env v lba blockOffset numBytes buffer)
      (fun r t => r.1 = .deviceError ∧ ¬ env.spi.Completes ∨ r.1 = .badBufferSize ∧
        ∃ e, t.exchanges = h.exchanges ++ [e] ∧ e.cycle.Programs ∧
          e.cycle.address = v.chipBase env + v.start lba.toNat + len ∧ e.cycle.length = 64)
      (fun _ _ => False) h := by
  have hlen := toNat_lbaLength hp.sum_lt hs.block
  obtain ⟨hlinear, hend⟩ := hp.command hs.block hs.inside
  have hadj := toNat_adjusted (BitVec.ofNat 32 len) hsum (by omega)
  have hzero : (0 : BitVec 32) = adjusted (BitVec.ofNat 32 len) numBytes blockOffset :=
    BitVec.eq_of_toNat_eq (by show 0 = _; omega)
  have hpos : 0 < numBytes.toNat := Nat.pos_of_ne_zero fun hz => hs.bytes (BitVec.eq_of_toNat_eq hz)
  have hcut : boundaryStatus (BitVec.ofNat 32 len) numBytes blockOffset = .badBufferSize :=
    if_pos ((cut_iff _ hsum).mpr (by omega))
  refine wp_fvbWriteBlock hp.sum_lt hwrite hs hzero ?_
  refine wp_mono (Spi.wp_write_none hp.flash (by omega) h) ?_ fun _ _ hf => hf
  rintro r u (⟨hfail, hno⟩ | ⟨hsuccess, e, hadd, hprograms, haddr, hlength⟩)
  · rw [hfail]
    exact .inl ⟨rfl, hno⟩
  · rw [hsuccess, hcut]
    exact .inr ⟨rfl, e, hadd, hprograms, by omega, hlength⟩

theorem wp_write_behind (hp : Placed env v) (hready : env.spi.Completes) (hwrite : v.writeEnabled = true)
    {lba : BitVec 64} {blockOffset numBytes : BitVec 32} {len : Nat}
    (hs : Served v Attr.writeStatus lba blockOffset numBytes len)
    (hbad : ¬ (numBytes.toNat + blockOffset.toNat < 2 ^ 32 ∧ blockOffset.toNat < len))
    (buffer : List Byte) (h : Host) :
    wp (fvbWriteBlock env v lba blockOffset numBytes buffer)
      (fun _ t => ∃ es, t.exchanges = h.exchanges ++ es ∧ ∃ e ∈ es, e.cycle.Programs ∧
        v.chipBase env + v.start lba.toNat + len ≤ e.cycle.address ∧ e.cycle.address < 2 ^ 24 ∧
        0 < e.cycle.length) (fun _ _ => True) h := by
  have hlen := toNat_lbaLength hp.sum_lt hs.block
  have hinside := hs.inside
  obtain ⟨hlinear, hend⟩ := hp.command hs.block hs.inside
  by_cases hsum : numBytes.toNat + blockOffset.toNat < 2 ^ 32
  · refine wp_mono (wp_write_nothing hp hwrite hs hsum (by omega) buffer h) ?_ fun _ _ _ => trivial
    rintro r u (⟨-, hno⟩ | ⟨-, e, hadd, hprograms, haddr, hlength⟩)
    · exact absurd hready hno
    · exact ⟨[e], hadd, e, List.mem_singleton_self e, hprograms, by omega, by omega, by omega⟩
  · have hn : numBytes = adjusted (BitVec.ofNat 32 len) numBytes blockOffset :=
      (if_neg (not_cut_of_wraps (by omega) (by omega))).symm
    refine wp_fvbWriteBlock hp.sum_lt hwrite hs hn ?_
    refine wp_mono (Spi.wp_write_wraps (v.chipBase env + v.start lba.toNat + len) hp.flash hready
      (by omega) (by omega) (by omega) buffer h) ?_ fun _ _ _ => trivial
    rintro r u ⟨es, hes, e, he, hprograms, hlow, hhigh, hsome⟩
    exact ⟨es, hes, e, he, hprograms, hlow, by omega, hsome⟩

theorem writeConfined_iff (hp : Placed env v) (lba : BitVec 64) (blockOffset numBytes : BitVec 32) :
    WriteConfined env v lba blockOffset numBytes ↔
      (v.writeEnabled = true → ∀ len, Served v Attr.writeStatus lba blockOffset numBytes len →
        numBytes.toNat + blockOffset.toNat < 2 ^ 32 ∧ blockOffset.toNat < len) := by
  constructor
  · intro hconfined hwrite len hs
    by_contra hbad
    let buffer : List Byte := List.replicate numBytes.toNat 0
    let h := Spi.hostWith fun _ => ByteStore.erased
    obtain ⟨st, n, t, es, hrun, hes, hinBlock, -⟩ := hconfined (fun _ => 0) h buffer
      (by rw [List.length_replicate])
    obtain ⟨es', hes', e, he, hprograms, hlow, hhigh, hsome⟩ := wp_of_ret
      (wp_write_behind (hp.polled fun _ => 0) (completes_idle env) hwrite hs hbad buffer h) hrun
    have hbase : v.chipBase (env.polled fun _ => 0) = v.chipBase env := rfl
    obtain rfl := List.append_cancel_left (hes.symm.trans hes')
    have hin := (hp.inBlock_iff hs.block hhigh).mp
      (hinBlock _ ⟨e, he, _, Spi.Cycle.touches_address hprograms hsome, rfl⟩)
    omega
  · intro hgood spis h buffer hbuffer
    by_cases hserved : v.writeEnabled = true ∧ ∃ len, Served v Attr.writeStatus lba blockOffset numBytes len
    · obtain ⟨hwrite, len, hs⟩ := hserved
      obtain ⟨hsum, hlt⟩ := hgood hwrite len hs
      have hlen := toNat_lbaLength hp.sum_lt hs.block
      have hadj := toNat_adjusted (BitVec.ofNat 32 len) hsum (by omega)
      obtain ⟨⟨st, n⟩, t, hrun, hn, st', es, hw, hst⟩ := returns_of_wp
        (wp_write_inside (hp.polled spis) hwrite hs hsum hlt rfl buffer (by omega) h)
      have hn : n = _ := hn
      have hst : st = _ := hst
      rw [hn, hst] at hrun
      exact ⟨_, _, t, es, hrun, hw.exchanges, Confined.of_written (hp.polled spis) hs hsum rfl hw⟩
    · obtain ⟨st, hst, hrun⟩ := fvbWriteBlock_rejected (env.polled spis) hp.sum_lt
        (fun hwrite len hs => hserved ⟨hwrite, len, hs⟩) buffer
      refine ⟨st, numBytes, h, [], congrFun hrun h, (List.append_nil _).symm,
        Confined.rejected hst ?_ _⟩
      rintro a ⟨e, he, -⟩
      cases he

/-- Reads stay in their block exactly if the sum of offset and length does not wrap, and writes exactly if
it does not and the offset is that of a byte of the block. -/
theorem accessConfined_iff (env : FvbEnv) (v : Volume) (hp : Placed env v) (lba : BitVec 64)
    (blockOffset numBytes : BitVec 32) :
    (ReadConfined env v lba blockOffset numBytes ↔
      ∀ len, Served v Attr.readStatus lba blockOffset numBytes len →
        numBytes.toNat + blockOffset.toNat < 2 ^ 32) ∧
    (WriteConfined env v lba blockOffset numBytes ↔
      (v.writeEnabled = true → ∀ len, Served v Attr.writeStatus lba blockOffset numBytes len →
        numBytes.toNat + blockOffset.toNat < 2 ^ 32 ∧ blockOffset.toNat < len)) :=
  ⟨readConfined_iff hp lba blockOffset numBytes, writeConfined_iff hp lba blockOffset numBytes⟩

theorem accessConfined_twoSectors :
    ReadConfined readyFvb twoSectors 1 0x10 0x2000 ∧ WriteConfined readyFvb twoSectors 1 0x10 0x2000 := by
  obtain ⟨hread, hwrite⟩ := accessConfined_iff readyFvb twoSectors placed_twoSectors 1 0x10 0x2000
  refine ⟨hread.mpr fun _ _ => by decide, hwrite.mpr fun _ len hs => ⟨by decide, ?_⟩⟩
  have hblock := hs.block
  rw [blocks_twoSectors] at hblock
  cases hblock
  decide

/-- One byte behind the last one of the first block: nothing is said to be written, and 64 bytes of the
second block are programmed. -/
theorem not_writeConfined :
    (∃ t, fvbWriteBlock readyFvb twoSectors 0 0x1000 1 [0] (Spi.hostWith fun _ => ByteStore.erased) =
        .ret (.badBufferSize, 0) t ∧ t.exchanges.map (·.cycle.span) = [⟨0x101000, 64⟩]) ∧
      ¬ WriteConfined readyFvb twoSectors 0 0x1000 1 := by
  refine ⟨⟨_, rfl, rfl⟩, fun hconfined => ?_⟩
  have hgood := (writeConfined_iff placed_twoSectors 0 0x1000 1).mp hconfined rfl 0x1000
    ⟨by decide, by rw [blocks_twoSectors]; rfl, by decide, by decide⟩
  exact absurd hgood.2 (by decide)

end Quark.Fvb
