import Quark.SdMedia.CeAta

/-!
# CE-ATA transfers: how many chunks come out right

The address is moved on by `Index * TransferSize` from where the chunk before it began. The second chunk is
right if it is a full one, the third if it is half of one and so the last, and no chunk behind it is.
-/

namespace Quark.SdMedia

open Machine Exec

section

variable {asserts : Bool} {boundary : BitVec 32} {answers : DmaAnswers} {l : ChunkLocals} {s t : CeAtaState}
  {fuel : Nat} {status : EfiStatus}

/-! ## One chunk -/

def chunkAddress (boundary : BitVec 32) (l : ChunkLocals) : BitVec 64 :=
  l.address + (l.index * transferSize boundary l.bufferSize).setWidth 64

def chunkCall (boundary : BitVec 32) (l : ChunkLocals) : DmaCall :=
  ⟨BitVec.ofNat 64 ((chunkAddress boundary l).toNat / dataUnitSize), l.pBuf,
    BitVec.ofNat 16 ((transferSize boundary l.bufferSize).toNat / dataUnitSize)⟩

def chunkNext (boundary : BitVec 32) (l : ChunkLocals) : ChunkLocals :=
  ⟨chunkAddress boundary l, l.index + 1, l.bufferSize - transferSize boundary l.bufferSize,
    l.pBuf + (transferSize boundary l.bufferSize).toNat⟩

def CeAtaState.issue (s : CeAtaState) (call : DmaCall) : CeAtaState := { s with calls := s.calls ++ [call] }

def ChunkAligned (asserts : Bool) (boundary : BitVec 32) (l : ChunkLocals) : Prop :=
  asserts = true → (chunkAddress boundary l).toNat % dataUnitSize = 0

theorem chunkBody_eq (h : ChunkAligned asserts boundary l) (s : CeAtaState) :
    chunkBody asserts boundary answers l s = .ret
      (if (answers s.calls.length).isError = true ∨ l.bufferSize - transferSize boundary l.bufferSize = 0 then
        .inr (answers s.calls.length) else .inl (chunkNext boundary l)) (s.issue (chunkCall boundary l)) := by
  have hdma : dmaExt answers (chunkCall boundary l) s =
      .ret (answers s.calls.length) (s.issue (chunkCall boundary l)) := rfl
  have hassert : assert asserts ((chunkAddress boundary l).toNat % dataUnitSize = 0) s = .ret () s := assert_of h s
  change (assert asserts ((chunkAddress boundary l).toNat % dataUnitSize = 0) >>= fun _ =>
    dmaExt answers (chunkCall boundary l) >>= fun status => _) s = _
  rw [bind_of_ret hassert, bind_of_ret hdma]
  by_cases herr : (answers s.calls.length).isError = true
  · rw [if_pos herr, if_pos (.inl herr)]
    rfl
  · by_cases hend : l.bufferSize - transferSize boundary l.bufferSize = 0
    · rw [if_neg herr, if_pos hend, if_pos (.inr hend)]
      rfl
    · rw [if_neg herr, if_neg hend, if_neg (not_or.mpr ⟨herr, hend⟩)]
      rfl

theorem loop_last (h : ChunkAligned asserts boundary l)
    (hend : (answers s.calls.length).isError = true ∨ l.bufferSize - transferSize boundary l.bufferSize = 0) (n : Nat) :
    loop (n + 1) (chunkBody asserts boundary answers) l s =
      .ret (answers s.calls.length) (s.issue (chunkCall boundary l)) := by
  have hbody := @chunkBody_eq asserts boundary answers l h s
  rw [if_pos hend] at hbody
  exact loop_of_inr hbody n

theorem loop_more (h : ChunkAligned asserts boundary l)
    (hmore : ¬ ((answers s.calls.length).isError = true ∨ l.bufferSize - transferSize boundary l.bufferSize = 0))
    (n : Nat) :
    loop (n + 1) (chunkBody asserts boundary answers) l s =
      loop n (chunkBody asserts boundary answers) (chunkNext boundary l) (s.issue (chunkCall boundary l)) := by
  have hbody := @chunkBody_eq asserts boundary answers l h s
  rw [if_neg hmore] at hbody
  exact loop_of_inl hbody n

theorem aligned_of_ret (h : loop fuel (chunkBody asserts boundary answers) l s = .ret status t) :
    ∃ n, fuel = n + 1 ∧ ChunkAligned asserts boundary l := by
  cases fuel with
  | zero => cases h
  | succ n =>
    refine ⟨n, rfl, ?_⟩
    obtain ⟨_, _, hbody, -⟩ := ret_of_bind h
    obtain ⟨_, _, hassert, -⟩ := ret_of_bind hbody
    exact (of_assert hassert).1

theorem calls_prefix : ∀ (fuel : Nat) (l : ChunkLocals) (s : CeAtaState),
    loop fuel (chunkBody asserts boundary answers) l s = .ret status t → s.calls <+: t.calls := by
  intro fuel
  induction fuel with
  | zero => intro l s h; cases h
  | succ n ih =>
    intro l s h
    obtain ⟨_, -, haligned⟩ := aligned_of_ret h
    have hissue : s.calls <+: (s.issue (chunkCall boundary l)).calls := List.prefix_append _ _
    by_cases hend : (answers s.calls.length).isError = true ∨ l.bufferSize - transferSize boundary l.bufferSize = 0
    · rw [loop_last haligned hend] at h
      cases h
      exact hissue
    · rw [loop_more haligned hend] at h
      exact hissue.trans (ih _ _ h)

end

/-! ## The numbers of a chunk -/

structure ChunkLocals.Has (l : ChunkLocals) (address index bufferSize pBuf : Nat) : Prop where
  address : l.address.toNat = address
  index : l.index.toNat = index
  bufferSize : l.bufferSize.toNat = bufferSize
  pBuf : l.pBuf = pBuf

section

variable {boundary : BitVec 32} {l : ChunkLocals} {a i b p : Nat}

theorem toNat_transferSize (boundary size : BitVec 32) :
    (transferSize boundary size).toNat = min size.toNat boundary.toNat := by
  unfold transferSize
  split
  · next h =>
    rw [BitVec.lt_def] at h
    exact (Nat.min_eq_left (Nat.le_of_lt h)).symm
  · next h =>
    rw [BitVec.lt_def, Nat.not_lt] at h
    exact (Nat.min_eq_right h).symm

theorem ChunkLocals.Has.chunkAddress (h : l.Has a i b p)
    (hlt : a + i * min b boundary.toNat % 2 ^ 32 < 2 ^ 64) :
    (chunkAddress boundary l).toNat = a + i * min b boundary.toNat % 2 ^ 32 := by
  have hproduct : (l.index * transferSize boundary l.bufferSize).toNat = i * min b boundary.toNat % 2 ^ 32 := by
    rw [BitVec.toNat_mul, toNat_transferSize, h.index, h.bufferSize]
  rw [SdMedia.chunkAddress, BitVec.toNat_add, BitVec.toNat_setWidth, hproduct, h.address]
  omega

theorem ChunkLocals.Has.last (h : l.Has a i b p) :
    l.bufferSize - transferSize boundary l.bufferSize = 0 ↔ b ≤ boundary.toNat := by
  have hle : transferSize boundary l.bufferSize ≤ l.bufferSize := by
    rw [BitVec.le_def, toNat_transferSize]
    exact Nat.min_le_left _ _
  have hsub : (l.bufferSize - transferSize boundary l.bufferSize).toNat = b - min b boundary.toNat := by
    rw [BitVec.toNat_sub_of_le hle, toNat_transferSize, h.bufferSize]
  constructor
  · intro h0
    rw [h0] at hsub
    change 0 = _ at hsub
    omega
  · intro hb
    apply BitVec.eq_of_toNat_eq
    rw [hsub]
    show b - min b boundary.toNat = 0
    omega

theorem ChunkLocals.Has.chunkCall (h : l.Has a i b p) (hlt : a + i * min b boundary.toNat % 2 ^ 32 < 2 ^ 64) :
    (chunkCall boundary l).lba.toNat = (a + i * min b boundary.toNat % 2 ^ 32) / 512 ∧
      (chunkCall boundary l).buffer = p ∧
      (chunkCall boundary l).sectorCount.toNat = min b boundary.toNat / 512 % 2 ^ 16 := by
  refine ⟨?_, h.pBuf, ?_⟩
  · show (BitVec.ofNat 64 ((SdMedia.chunkAddress boundary l).toNat / 512)).toNat = _
    rw [BitVec.toNat_ofNat, h.chunkAddress hlt]
    omega
  · show (BitVec.ofNat 16 ((transferSize boundary l.bufferSize).toNat / 512)).toNat = _
    rw [BitVec.toNat_ofNat, toNat_transferSize, h.bufferSize]

theorem ChunkLocals.Has.chunkNext (h : l.Has a i b p) (hlt : a + i * min b boundary.toNat % 2 ^ 32 < 2 ^ 64)
    (hi : i + 1 < 2 ^ 32) :
    (chunkNext boundary l).Has (a + i * min b boundary.toNat % 2 ^ 32) (i + 1) (b - min b boundary.toNat)
      (p + min b boundary.toNat) := by
  have hle : transferSize boundary l.bufferSize ≤ l.bufferSize := by
    rw [BitVec.le_def, toNat_transferSize]
    exact Nat.min_le_left _ _
  constructor
  · exact h.chunkAddress hlt
  · show (l.index + 1).toNat = i + 1
    rw [BitVec.toNat_add, h.index]
    exact Nat.mod_eq_of_lt hi
  · show (l.bufferSize - transferSize boundary l.bufferSize).toNat = _
    rw [BitVec.toNat_sub_of_le hle, toNat_transferSize, h.bufferSize]
  · show l.pBuf + (transferSize boundary l.bufferSize).toNat = _
    rw [toNat_transferSize, h.bufferSize, h.pBuf]

theorem ChunkLocals.Has.aligned {asserts : Bool} (h : l.Has a i b p)
    (hlt : a + i * min b boundary.toNat % 2 ^ 32 < 2 ^ 64)
    (hdvd : 512 ∣ a + i * min b boundary.toNat % 2 ^ 32) : ChunkAligned asserts boundary l := by
  intro _
  rw [h.chunkAddress hlt]
  exact Nat.mod_eq_zero_of_dvd hdvd

end

/-! ## Requests -/

section

variable {asserts : Bool} {card : CeAtaCard} {r : CeAtaRequest} {answers : DmaAnswers}

def firstChunk (card : CeAtaCard) (r : CeAtaRequest) : ChunkLocals :=
  ⟨r.lba * card.blockSize.setWidth 64, 0, r.bufferSize, 0⟩

theorem Accepted.start_lt (h : Accepted card r) : startByte card r + r.bufferSize.toNat < 2 ^ 64 :=
  Nat.lt_of_le_of_lt h.inside card.device_lt

theorem Accepted.firstChunk_has (h : Accepted card r) :
    (firstChunk card r).Has (startByte card r) 0 r.bufferSize.toNat 0 := by
  have hlt := h.start_lt
  have hblock := card.blockSize.isLt
  constructor
  · show (r.lba * card.blockSize.setWidth 64).toNat = r.lba.toNat * card.blockSize.toNat
    unfold startByte at hlt
    rw [BitVec.toNat_mul, BitVec.toNat_setWidth, Nat.mod_eq_of_lt (show card.blockSize.toNat < 2 ^ 64 by omega),
      Nat.mod_eq_of_lt (by omega)]
  · rfl
  · rfl
  · rfl

theorem Accepted.ceAtaBlocks_eq (h : Accepted card r) (fuel : Nat) :
    ceAtaBlocks fuel asserts card answers r ⟨[], false⟩ =
      loop fuel (chunkBody asserts card.boundarySize answers) (firstChunk card r) ⟨[], r.write⟩ := by
  have haddress := h.firstChunk_has.address
  have hblock := card.blockSize.isLt
  have hmultiple : ¬ (r.bufferSize % card.blockSize ≠ 0) := by
    intro hne
    apply hne
    apply BitVec.eq_of_toNat_eq
    rw [BitVec.toNat_umod, Nat.mod_eq_zero_of_dvd h.multiple]
    rfl
  have hpositive : r.bufferSize ≠ 0 := by
    intro h0
    have hp := h.positive
    rw [h0] at hp
    exact Nat.lt_irrefl 0 hp
  have hinside : ¬ (r.lba * card.blockSize.setWidth 64 + r.bufferSize.setWidth 64 >
      (card.lastBlock + 1) * card.blockSize.setWidth 64) := by
    have hdevice : ((card.lastBlock + 1) * card.blockSize.setWidth 64).toNat =
        (card.lastBlock + 1).toNat * card.blockSize.toNat := by
      rw [BitVec.toNat_mul, BitVec.toNat_setWidth, Nat.mod_eq_of_lt (show card.blockSize.toNat < 2 ^ 64 by omega)]
      exact Nat.mod_eq_of_lt card.device_lt
    have hsize := r.bufferSize.isLt
    have hlt := h.start_lt
    change (r.lba * card.blockSize.setWidth 64).toNat = startByte card r at haddress
    have hend : (r.lba * card.blockSize.setWidth 64 + r.bufferSize.setWidth 64).toNat =
        startByte card r + r.bufferSize.toNat := by
      rw [BitVec.toNat_add, haddress, BitVec.toNat_setWidth,
        Nat.mod_eq_of_lt (show r.bufferSize.toNat < 2 ^ 64 by omega), Nat.mod_eq_of_lt hlt]
    rw [gt_iff_lt, BitVec.lt_def, hdevice, hend]
    exact Nat.not_lt.mpr h.inside
  unfold ceAtaBlocks
  rw [if_neg (by simp [h.buffer]), if_neg (by simp [h.mediaId]), if_neg hmultiple, if_neg hpositive,
    if_neg h.writable, if_neg hinside]
  cases hwrite : r.write with
  | false => rfl
  | true => rfl

/-! ## What a request with few chunks does -/

def issued (write : Bool) (calls : List DmaCall) : CeAtaState := ⟨calls, write⟩

structure ChunkRight (boundary : BitVec 32) (l : ChunkLocals) (start off size : Nat) : Prop where
  address : (chunkAddress boundary l).toNat = start + off
  lba : (chunkCall boundary l).lba.toNat * 512 = start + off
  buffer : (chunkCall boundary l).buffer = off
  sectors : (chunkCall boundary l).sectorCount.toNat * 512 = size

theorem ChunkRight.aligned {boundary : BitVec 32} {l : ChunkLocals} {start off size : Nat}
    (h : ChunkRight boundary l start off size) (asserts : Bool) : ChunkAligned asserts boundary l := by
  intro _
  have hlba := h.lba
  rw [h.address, ← hlba]
  exact Nat.mul_mod_left _ 512

theorem ChunkLocals.Has.right {boundary : BitVec 32} {l : ChunkLocals} {a i b off start : Nat} (h : l.Has a i b off)
    (haddress : a + i * min b boundary.toNat % 2 ^ 32 = start + off) (hlt : start + off < 2 ^ 64)
    (hstart : 512 ∣ start + off) (hsize : 512 ∣ min b boundary.toNat) (hchunk : min b boundary.toNat < 2 ^ 25) :
    ChunkRight boundary l start off (min b boundary.toNat) := by
  obtain ⟨hlba, hbuffer, hsectors⟩ := h.chunkCall (show a + i * min b boundary.toNat % 2 ^ 32 < 2 ^ 64 by omega)
  refine ⟨by rw [h.chunkAddress (by omega), haddress], ?_, hbuffer, ?_⟩
  · rw [hlba, haddress]
    exact Nat.div_mul_cancel hstart
  · rw [hsectors, Nat.mod_eq_of_lt (by omega)]
    exact Nat.div_mul_cancel hsize

theorem coversTo_append {start : Nat} {calls : List DmaCall} {off mid done : Nat} {c : DmaCall}
    (h : CoversTo start off calls mid) (hlba : c.lba.toNat * 512 = start + mid) (hbuffer : c.buffer = mid)
    (hpos : 0 < c.sectorCount.toNat) (hdone : mid + c.sectorCount.toNat * 512 = done) :
    CoversTo start off (calls ++ [c]) done := by
  induction calls generalizing off with
  | nil =>
    change off = mid at h
    subst h
    exact ⟨hlba, hbuffer, hpos, hdone⟩
  | cons d rest ih =>
    obtain ⟨h₁, h₂, h₃, h₄⟩ := h
    exact ⟨h₁, h₂, h₃, ih h₄⟩

def RestExact (asserts : Bool) (card : CeAtaCard) (r : CeAtaRequest) (l : ChunkLocals) (s : CeAtaState) : Prop :=
  ∀ answers : DmaAnswers, ∃ fuel status t,
    loop fuel (chunkBody asserts card.boundarySize answers) l s = .ret status t ∧
    (∃ done ≤ r.bufferSize.toNat, CoversTo (startByte card r) 0 t.calls done ∧
      (status.isError = false → done = r.bufferSize.toNat)) ∧
    ((∀ k, (answers k).isError = false) → status.isError = false)

theorem RestExact.step {l : ChunkLocals} {s : CeAtaState} {off size : Nat}
    (hright : ChunkRight card.boundarySize l (startByte card r) off size) (hpos : 0 < size)
    (hcovers : CoversTo (startByte card r) 0 s.calls off) (hle : off + size ≤ r.bufferSize.toNat)
    (hlast : l.bufferSize - transferSize card.boundarySize l.bufferSize = 0 → off + size = r.bufferSize.toNat)
    (hrest : l.bufferSize - transferSize card.boundarySize l.bufferSize ≠ 0 →
      CoversTo (startByte card r) 0 (s.issue (chunkCall card.boundarySize l)).calls (off + size) →
      RestExact asserts card r (chunkNext card.boundarySize l) (s.issue (chunkCall card.boundarySize l))) :
    RestExact asserts card r l s := by
  have hsectors := hright.sectors
  have hcall : CoversTo (startByte card r) 0 (s.issue (chunkCall card.boundarySize l)).calls (off + size) :=
    coversTo_append hcovers hright.lba hright.buffer (by omega) (by omega)
  intro answers
  by_cases hend : (answers s.calls.length).isError = true ∨
      l.bufferSize - transferSize card.boundarySize l.bufferSize = 0
  · refine ⟨1, _, _, loop_last (hright.aligned asserts) hend 0, ⟨off + size, hle, hcall, fun hok => ?_⟩, fun hall =>
      hall _⟩
    rcases hend with herr | hzero
    · rw [hok] at herr
      cases herr
    · exact hlast hzero
  · obtain ⟨fuel, status, t, hrun, hdone⟩ := hrest (not_or.mp hend).2 hcall answers
    refine ⟨fuel + 1, status, t, ?_, hdone⟩
    rw [loop_more (hright.aligned asserts) hend, hrun]

theorem RestExact.chunk {l : ChunkLocals} {s : CeAtaState} {a i b off : Nat} (haccepted : Accepted card r)
    (hhas : l.Has a i b off) (hstart : 512 ∣ startByte card r) (hoff : 512 ∣ off)
    (hsize : 512 ∣ min b card.boundarySize.toNat) (hchunk : min b card.boundarySize.toNat < 2 ^ 25)
    (hpos : 0 < min b card.boundarySize.toNat) (htotal : off + b = r.bufferSize.toNat) (hi : i < 3)
    (haddress : a + i * min b card.boundarySize.toNat % 2 ^ 32 = startByte card r + off)
    (hcovers : CoversTo (startByte card r) 0 s.calls off)
    (hrest : card.boundarySize.toNat < b → ∀ l' s',
      ChunkLocals.Has l' (startByte card r + off) (i + 1) (b - card.boundarySize.toNat)
        (off + card.boundarySize.toNat) →
      CoversTo (startByte card r) 0 (CeAtaState.calls s') (off + card.boundarySize.toNat) →
      RestExact asserts card r l' s') : RestExact asserts card r l s := by
  have hlt := haccepted.start_lt
  have hright := hhas.right haddress (by omega) (Nat.dvd_add hstart hoff) hsize hchunk
  have hnext := @ChunkLocals.Has.chunkNext card.boundarySize _ _ _ _ _ hhas (by omega) (by omega)
  apply RestExact.step hright hpos hcovers (by omega)
  · intro hzero
    have hle := hhas.last.mp hzero
    omega
  · intro hne hcalls
    have hfull : card.boundarySize.toNat < b := Nat.not_le.mp fun hle => hne (hhas.last.mpr hle)
    have hmin : min b card.boundarySize.toNat = card.boundarySize.toNat := Nat.min_eq_right (Nat.le_of_lt hfull)
    rw [haddress, hmin] at hnext
    rw [hmin] at hcalls
    exact hrest hfull _ _ hnext hcalls

theorem exact_of_fewChunks (hB : 512 ∣ card.boundarySize.toNat) (h : Accepted card r) (hfew : FewChunks card r) :
    TransferExact asserts card r := by
  have hpos := h.positive
  have hstart : 512 ∣ startByte card r := hfew.start
  have hsize : 512 ∣ r.bufferSize.toNat := hfew.size
  have hchunk := hfew.chunk
  have hchunks := hfew.chunks
  have hexact : RestExact asserts card r (firstChunk card r) ⟨[], r.write⟩ := by
    have hempty : CoversTo (startByte card r) 0 (CeAtaState.calls ⟨[], r.write⟩) 0 := rfl
    apply RestExact.chunk h h.firstChunk_has hstart (Nat.dvd_zero 512) (by omega) hchunk (by omega) (by omega)
      (by omega) (by omega) hempty
    intro hmore₁ l₁ s₁ hhas₁ hcovers₁
    apply RestExact.chunk h hhas₁ hstart (by omega) (by omega) (by omega) (by omega) (by omega) (by omega)
      (by omega) hcovers₁
    intro hmore₂ l₂ s₂ hhas₂ hcovers₂
    apply RestExact.chunk h hhas₂ hstart (by omega) (by omega) (by omega) (by omega) (by omega) (by omega)
      (by omega) hcovers₂
    intro hmore₃
    omega
  intro answers
  obtain ⟨fuel, status, t, hrun, hdone⟩ := hexact answers
  exact ⟨fuel, status, t, by rw [h.ceAtaBlocks_eq, hrun], hdone⟩

/-! ## What an exact request is like -/

theorem loop_cases {boundary : BitVec 32} {l : ChunkLocals} {s t : CeAtaState} {fuel : Nat} {status : EfiStatus}
    {a i b p : Nat} (hhas : l.Has a i b p)
    (h : loop fuel (chunkBody asserts boundary fun _ => .success) l s = .ret status t) :
    (b ≤ boundary.toNat ∧ t.calls = s.calls ++ [chunkCall boundary l]) ∨
      (boundary.toNat < b ∧ ∃ n,
        loop n (chunkBody asserts boundary fun _ => .success) (chunkNext boundary l)
          (s.issue (chunkCall boundary l)) = .ret status t) := by
  obtain ⟨n, rfl, haligned⟩ := aligned_of_ret h
  by_cases hlast : b ≤ boundary.toNat
  · rw [loop_last haligned (.inr (hhas.last.mpr hlast))] at h
    cases h
    exact .inl ⟨hlast, rfl⟩
  · rw [loop_more haligned (by rw [hhas.last]; exact fun hor => hor.elim (fun he => nomatch he) hlast)] at h
    exact .inr ⟨Nat.not_le.mp hlast, n, h⟩

theorem exists_calls {boundary : BitVec 32} {l : ChunkLocals} {s t : CeAtaState} {fuel : Nat} {status : EfiStatus}
    {a i b p : Nat} (hhas : l.Has a i b p)
    (h : loop fuel (chunkBody asserts boundary fun _ => .success) l s = .ret status t) :
    ∃ rest, t.calls = s.calls ++ chunkCall boundary l :: rest := by
  rcases loop_cases hhas h with ⟨-, hcalls⟩ | ⟨-, n, hrun⟩
  · exact ⟨[], hcalls⟩
  · obtain ⟨rest, hrest⟩ := calls_prefix n _ _ hrun
    exact ⟨rest, by rw [← hrest]; exact (List.append_cons _ _ _).symm⟩

theorem fewChunks_of_exact (hB : 512 ∣ card.boundarySize.toNat) (h : Accepted card r)
    (hexact : TransferExact asserts card r) : FewChunks card r := by
  obtain ⟨fuel, status, t, hrun, ⟨done, hdone, hcovers, hall⟩, hok⟩ := hexact fun _ => .success
  have hfull : done = r.bufferSize.toNat := hall (hok fun _ => rfl)
  subst hfull
  have hlt := h.start_lt
  have hpos := h.positive
  have hS := r.bufferSize.isLt
  have hlt₀ : startByte card r + 0 * min r.bufferSize.toNat card.boundarySize.toNat % 2 ^ 32 < 2 ^ 64 := by omega
  have hhas₀ := h.firstChunk_has
  obtain ⟨hlba₀, -, hsectors₀⟩ := hhas₀.chunkCall hlt₀
  have hhas₁ := hhas₀.chunkNext hlt₀ (by omega)
  rw [h.ceAtaBlocks_eq] at hrun
  rcases loop_cases hhas₀ hrun with ⟨hle, hcalls⟩ | ⟨hmore, n, hrun₁⟩
  · -- one chunk
    rw [hcalls] at hcovers
    obtain ⟨hcover, -, hsome, hend⟩ := hcovers
    change 0 + _ = r.bufferSize.toNat at hend
    simp only [dataUnitSize] at hcover hend
    exact ⟨by simp only [dataUnitSize]; omega, by simp only [dataUnitSize]; omega, by omega, .inl hle⟩
  have hlt₁ : startByte card r + 0 * min r.bufferSize.toNat card.boundarySize.toNat % 2 ^ 32 +
      (0 + 1) * min (r.bufferSize.toNat - min r.bufferSize.toNat card.boundarySize.toNat) card.boundarySize.toNat %
        2 ^ 32 < 2 ^ 64 := by omega
  obtain ⟨hlba₁, hbuffer₁, hsectors₁⟩ := hhas₁.chunkCall hlt₁
  have hhas₂ := hhas₁.chunkNext hlt₁ (by omega)
  rcases loop_cases hhas₁ hrun₁ with ⟨hle, hcalls⟩ | ⟨hmore₁, m, hrun₂⟩
  · -- two chunks
    rw [hcalls] at hcovers
    obtain ⟨hcover₀, -, hsome₀, hcover₁, hplace₁, hsome₁, hend⟩ := hcovers
    change _ = r.bufferSize.toNat at hend
    simp only [dataUnitSize] at hcover₀ hcover₁ hplace₁ hend
    have hmin₀ : min r.bufferSize.toNat card.boundarySize.toNat = card.boundarySize.toNat :=
      Nat.min_eq_right (Nat.le_of_lt hmore)
    rw [hmin₀] at hbuffer₁ hlba₁ hlt₁ hlba₀ hle hsectors₀
    rw [Nat.min_eq_left hle, Nat.add_mul, Nat.zero_mul, Nat.zero_mul, Nat.one_mul, Nat.zero_mod, Nat.zero_add,
      Nat.mod_eq_of_lt (show r.bufferSize.toNat - card.boundarySize.toNat < 2 ^ 32 by omega)] at hlba₁
    have hequal : r.bufferSize.toNat = 2 * card.boundarySize.toNat := by
      clear hlt₁ hlt hsectors₀ hlba₀
      omega
    exact ⟨by simp only [dataUnitSize]; omega, by simp only [dataUnitSize]; omega, by omega, .inr (.inl hequal)⟩
  -- three chunks: the third is a half one, and the last
  obtain ⟨rest, hcalls⟩ := exists_calls hhas₂ hrun₂
  have hlast := loop_cases hhas₂ hrun₂
  generalize hS' : r.bufferSize.toNat = S at *
  generalize hB' : card.boundarySize.toNat = B at *
  have hmin₀ : min S B = B := Nat.min_eq_right (Nat.le_of_lt hmore)
  have hmin₁ : min (S - B) B = B := by
    rw [hmin₀] at hmore₁
    exact Nat.min_eq_right (Nat.le_of_lt hmore₁)
  simp only [hmin₀, hmin₁, Nat.zero_mul, Nat.zero_mod, Nat.add_zero, Nat.zero_add, Nat.one_mul] at *
  have hlt₂ : startByte card r + B % 2 ^ 32 + 2 * min (S - B - B) B % 2 ^ 32 < 2 ^ 64 := by
    have := Nat.mod_lt (2 * min (S - B - B) B) (Nat.two_pow_pos 32)
    omega
  subst hB'
  obtain ⟨hlba₂, -, hsectors₂⟩ := hhas₂.chunkCall hlt₂
  have hcovers' := hcovers
  rw [hcalls] at hcovers'
  obtain ⟨hcover₀, -, hsome₀, hcover₁, hplace₁, hsome₁, hcover₂, -, hsome₂, -⟩ := hcovers'
  simp only [dataUnitSize] at hcover₀ hcover₁ hplace₁ hcover₂
  rcases hlast with ⟨hle, hcalls'⟩ | ⟨hmore₂, -⟩
  · rw [hcalls'] at hcovers
    obtain ⟨-, -, -, -, -, -, -, -, -, hend⟩ := hcovers
    change _ = S at hend
    simp only [dataUnitSize] at hend
    rw [Nat.min_eq_left hle, Nat.mod_eq_of_lt (show card.boundarySize.toNat < 2 ^ 32 by omega), Nat.mod_eq_of_lt
      (show 2 * (S - card.boundarySize.toNat - card.boundarySize.toNat) < 2 ^ 32 by omega)] at hlba₂
    rw [Nat.min_eq_left hle] at hsectors₂
    have hequal : 2 * S = 5 * card.boundarySize.toNat := by
      clear hlt₂ hlt₁ hlt hlba₁ hlba₀ hcover₁ hsectors₁ hsectors₀
      omega
    exact ⟨by simp only [dataUnitSize]; omega, by simp only [dataUnitSize]; omega, by omega, .inr (.inr (by rw [hS', hequal]))⟩
  · omega

/-- The transfer of a request that is accepted is exact if and only if it has few chunks. -/
theorem ceAtaBlocks_exact_iff (asserts : Bool) (hB : dataUnitSize ∣ card.boundarySize.toNat) (h : Accepted card r) :
    TransferExact asserts card r ↔ FewChunks card r :=
  ⟨fewChunks_of_exact hB h, exact_of_fewChunks hB h⟩

end

def smallDevice : CeAtaCard where
  mediaId := 0
  blockSize := 512
  lastBlock := 0xFFFF
  readOnly := false
  boundarySize := 4096
  blockSize_pos := by decide
  device_lt := by decide

def requestFor (write : Bool) (bufferSize : BitVec 32) : CeAtaRequest := ⟨write, 0, 8, bufferSize, true⟩

theorem requestFor_accepted (write : Bool) {bufferSize : BitVec 32} (hpos : 0 < bufferSize.toNat)
    (hdvd : 512 ∣ bufferSize.toNat) (hle : bufferSize.toNat ≤ 0x10000) :
    Accepted smallDevice (requestFor write bufferSize) where
  buffer := rfl
  mediaId := rfl
  positive := hpos
  multiple := hdvd
  writable h := nomatch h.2
  inside := by
    show 8 * 512 + bufferSize.toNat ≤ 0x10000 * 512
    omega

theorem ceAtaBlocks_exact_two_chunks : TransferExact true smallDevice (requestFor false 8192) := by
  rw [ceAtaBlocks_exact_iff true (by decide) (requestFor_accepted false (by decide) (by decide) (by decide))]
  exact ⟨by decide, by decide, by decide, .inr (.inl rfl)⟩

theorem ceAtaBlocks_three_chunks : ¬ TransferExact true smallDevice (requestFor false 12288) := by
  intro hexact
  have haccepted : Accepted smallDevice (requestFor false 12288) :=
    requestFor_accepted false (by decide) (by decide) (by decide)
  have hchunks := (fewChunks_of_exact (by decide) haccepted hexact).chunks
  rcases hchunks with h | h | h
  · exact absurd h (by decide)
  · exact absurd h (by decide)
  · exact absurd h (by decide)

end Quark.SdMedia
