import Quark.Fvb.Proofs.AccessProofs
import Quark.Fvb.Proofs.EraseProofs

/-!
# Erasing a range

`FvbEraseCustomBlockRange` saves the first and the last block in the scratch space, erases the blocks and
writes back what lies outside the range. The head of the first block comes back as it was. For the tail of
the last block the number of bytes and their place in the scratch space are those of the head.
-/

namespace Quark.Fvb

open Machine Machine.Exec
open Spi (Host Exchange eraseSectorSize)

variable {env : FvbEnv} {v : Volume}

/-! ## Saving and erasing one block -/

theorem Sectored.eraseSectors (hs : Sectored env v) {k n : Nat} (hn : v.blocks[k]? = some n)
    (chip : ByteStore) : chip.eraseSectors eraseSectorSize (v.sectors env k) =
      chip.erase (v.chipBase env + v.start k) n := by
  funext x
  exact if_congr (hs.mem_sectors hn) rfl rfl

theorem Placed.memoryAt (hp : Placed env v) {x : Nat} (hx : x < v.blocks.sum) (h : Host) :
    Spi.memoryAt env.spi h (v.fvBase + BitVec.ofNat 32 x) = h.chip (v.chipBase env + x) := by
  obtain ⟨hbase, hwindow, hend⟩ := hp.bounds
  have hpart := hp.part
  have haddr : (v.fvBase + BitVec.ofNat 32 x).toNat = v.fvBase.toNat + x := by
    rw [BitVec.toNat_add, BitVec.toNat_ofNat]
    omega
  unfold Spi.memoryAt
  rw [haddr, if_pos (by omega)]
  exact congrArg h.chip (by omega)

def savedByte (v : Volume) (chip : ByteStore) (scratch : List Byte) (b j : Nat) : Byte :=
  if v.attributes &&& Attr.readStatus = 0 then (scratch[j]?).getD 0 else chip (b + j)

abbrev Works (env : FvbEnv) (v : Volume) : Prop := env.spi.Completes ∧ v.Writable

theorem wp_eraseBlock (hp : Placed env v) (hs : Sectored env v) {lba : BitVec 64} {n : Nat}
    (hn : v.blocks[lba.toNat]? = some n) (h : Host) :
    wp (fvbEraseBlock env v lba)
      (fun _ t => Works env v → t.chip = h.chip.erase (v.chipBase env + v.start lba.toNat) n)
      (fun _ _ => False) h := by
  by_cases hwrite : v.Writable
  · obtain ⟨hlba, -⟩ := List.getElem?_eq_some_iff.mp hn
    refine wp_mono (wp_fvbEraseBlock hp hwrite hlba h) ?_ fun _ _ hf => hf
    rintro st t (⟨-, hno, -⟩ | ⟨-, hchip, -⟩) hworks
    · exact absurd hworks.1 hno
    · rw [hchip, hs.eraseSectors hn]
  · rw [fvbEraseBlock_of_not_writable hwrite]
    exact fun hworks => absurd hworks.2 hwrite

structure Copied (env : FvbEnv) (v : Volume) (k n : Nat) (scratch : List Byte) (chip : ByteStore)
    (r : BitVec 32 × List Byte) : Prop where
  size : r.1 = BitVec.ofNat 32 n
  length : r.2.length = scratch.length
  bytes : ∀ j < n, r.2[j]? = some (savedByte v chip scratch (v.chipBase env + v.start k) j)
  stale : v.attributes &&& Attr.readStatus = 0 → r.2 = scratch

theorem wp_copyBlock (hp : Placed env v) {lba : BitVec 64} {n : Nat} (hn : v.blocks[lba.toNat]? = some n)
    {scratch : List Byte} (hscratch : n ≤ scratch.length) (h : Host) :
    wp (fvbReadBlock env v lba 0 (BitVec.ofNat 32 n) scratch)
      (fun r t => Copied env v lba.toNat n scratch h.chip r.2 ∧ t.chip = h.chip) (fun _ _ => False) h := by
  have hsize := hp.sum_lt
  have hlen := toNat_lbaLength hsize hn
  have hend : v.start lba.toNat + n ≤ v.blocks.sum := Layout.start_add_le hn
  have hpos : 0 < n := pos_of_mem_blockLengths (List.mem_of_getElem? hn)
  have hne : BitVec.ofNat 32 n ≠ 0 := by
    intro hz
    have := congrArg BitVec.toNat hz
    rw [hlen] at this
    exact absurd this (Nat.ne_of_gt hpos)
  by_cases hread : v.attributes &&& Attr.readStatus = 0
  · have hdenied : fvbReadBlock env v lba 0 (BitVec.ofNat 32 n) scratch =
        pure (.accessDenied, BitVec.ofNat 32 n, scratch) := by
      unfold fvbReadBlock
      rw [if_neg hne, fvbGetLbaAddress_of_block hsize hn]
      exact if_pos hread
    rw [hdenied]
    refine ⟨⟨rfl, rfl, fun j hj => ?_, fun _ => rfl⟩, rfl⟩
    show scratch[j]? = _
    rw [savedByte, if_pos hread, List.getElem?_eq_getElem (by omega)]
    rfl
  · have hserved : Served v Attr.readStatus lba 0 (BitVec.ofNat 32 n) n := ⟨hne, hn, hread, Nat.zero_le n⟩
    have hzero : (0 : BitVec 32).toNat = 0 := rfl
    have hadj : BitVec.ofNat 32 n = adjusted (BitVec.ofNat 32 n) (BitVec.ofNat 32 n) 0 := by
      apply BitVec.eq_of_toNat_eq
      rw [toNat_adjusted _ (by omega) (Nat.zero_le _)]
      omega
    have hfits := hp.toNat_address hn hpos
    have hbelow := hp.below
    rw [Nat.add_zero] at hfits
    refine wp_mono (wp_fvbReadBlock env hsize hserved (a := v.fvBase + BitVec.ofNat 32 (v.start lba.toNat)) rfl
      hadj scratch h) ?_ fun _ _ he => by omega
    rintro r t ⟨rfl, rfl⟩
    rw [hlen]
    refine ⟨⟨rfl, ?_, fun j hj => ?_, fun h => absurd h hread⟩, rfl⟩
    · rw [List.length_append, List.length_map, List.length_range, List.length_drop]
      omega
    · rw [List.getElem?_append_left (by simpa using hj), List.getElem?_map, List.getElem?_range hj, savedByte,
        if_neg hread, Option.map_some, BitVec.add_assoc, ← BitVec.ofNat_add, hp.memoryAt (by omega),
        Nat.add_assoc]

theorem wp_saveAndErase (hp : Placed env v) (hs : Sectored env v) {lba : BitVec 64} {n : Nat}
    (hn : v.blocks[lba.toNat]? = some n) {scratch : List Byte} (hscratch : n ≤ scratch.length)
    (lbaSize : BitVec 32) (h : Host) :
    wp (saveAndErase env v lba lbaSize scratch)
      (fun r t => Copied env v lba.toNat n scratch h.chip r ∧
        (Works env v → t.chip = h.chip.erase (v.chipBase env + v.start lba.toNat) n))
      (fun _ _ => False) h := by
  have hor : lbaLengthOr v lba lbaSize = BitVec.ofNat 32 n := by
    unfold lbaLengthOr
    rw [fvbGetLbaAddress_of_block hp.sum_lt hn]
    rfl
  rw [saveAndErase, hor, wp_bind]
  refine wp_mono (wp_copyBlock hp hn hscratch h) ?_ fun _ _ hf => hf
  rintro r t ⟨hcopied, hsame⟩
  rw [wp_bind]
  refine wp_mono (wp_eraseBlock hp hs hn t) (fun _ u hchip => ⟨hcopied, fun hworks => ?_⟩) fun _ _ hf => hf
  rw [hchip hworks, hsame]

/-! ## The head of the first block and the blocks between -/

theorem wp_restoreHead (hp : Placed env v) {lba : BitVec 64} {n : Nat} (hn : v.blocks[lba.toNat]? = some n)
    {offset : BitVec 32} (hoffset : offset.toNat < n) {scratch : List Byte} (hscratch : n ≤ scratch.length)
    (h : Host) :
    wp (Exec.when (0 < offset) (do
        let _ ← fvbWriteBlock env v lba 0 offset scratch
        pure ()))
      (fun _ t => Works env v →
        t.chip = h.chip.program (v.chipBase env + v.start lba.toNat) (scratch.take offset.toNat))
      (fun _ _ => False) h := by
  have hzero : (0 : BitVec 32).toNat = 0 := rfl
  rw [wp_when]
  constructor
  · intro hsome
    have hsome : 0 < offset.toNat := hsome
    rw [wp_bind]
    by_cases hwrite : v.Writable
    · have hserved : Served v Attr.writeStatus lba 0 offset n :=
        ⟨fun hz => by rw [hz] at hsome; exact Nat.lt_irrefl 0 hsome, hn, hwrite.2, Nat.zero_le n⟩
      have hlen := toNat_lbaLength hp.sum_lt hn
      have hadj : offset = adjusted (BitVec.ofNat 32 n) offset 0 := by
        apply BitVec.eq_of_toNat_eq
        rw [toNat_adjusted _ (by omega) (Nat.zero_le _)]
        omega
      refine wp_mono (wp_write_inside hp hwrite.1 hserved (by omega) (by omega) hadj _ (by omega) h) ?_
        fun _ _ hf => hf
      rintro r t ⟨-, st, es, hw, -⟩ hworks
      rcases hw.outcome with ⟨-, -, hchip⟩ | ⟨-, hno⟩
      · exact hchip
      · exact absurd hworks.1 hno
    · have hno : v.writeEnabled = true → ∀ len, ¬ Served v Attr.writeStatus lba 0 offset len :=
        fun henabled _ hserved => hwrite ⟨henabled, hserved.enabled⟩
      obtain ⟨st, -, hrejected⟩ := fvbWriteBlock_rejected env hp.sum_lt hno scratch
      rw [hrejected]
      exact fun hworks => absurd hworks.2 hwrite
  · intro hnone _
    have hnone : offset.toNat = 0 := Nat.eq_zero_of_not_pos hnone
    rw [hnone, List.take_zero, ByteStore.program_nil]

theorem wp_eraseMiddle (hp : Placed env v) (hs : Sectored env v) : ∀ (count : Nat) (index : BitVec 64)
    (h : Host), index.toNat + count ≤ v.blocks.length →
    wp (eraseMiddle env v index count)
      (fun _ t => Works env v → t.chip = h.chip.erase (v.chipBase env + v.start index.toNat)
        (v.start (index.toNat + count) - v.start index.toNat)) (fun _ _ => False) h := by
  intro count
  induction count with
  | zero =>
    intro index h _ _
    rw [Nat.add_zero, Nat.sub_self, ByteStore.erase_zero]
  | succ count ih =>
    intro index h hend
    have hlength : v.blocks.length ≤ v.blocks.sum := length_blockLengths_le v.blockMap
    have hsum := hp.sum_lt
    have hn : v.blocks[index.toNat]? = some v.blocks[index.toNat] := List.getElem?_eq_getElem (by omega)
    generalize v.blocks[index.toNat] = n at hn
    have hnext : (index + 1).toNat = index.toNat + 1 := by
      rw [BitVec.toNat_add]
      exact Nat.mod_eq_of_lt (by show index.toNat + 1 < _; omega)
    have hsucc : v.start (index.toNat + 1) = v.start index.toNat + n := Layout.start_succ hn
    have hmono : v.start (index.toNat + 1) ≤ v.start (index.toNat + 1 + count) :=
      Layout.start_mono (Nat.le_add_right _ _)
    rw [eraseMiddle, wp_bind]
    refine wp_mono (wp_eraseBlock hp hs hn h) (fun _ t hchip => ?_) fun _ _ hf => hf
    refine wp_mono (ih (index + 1) t (by omega)) (fun _ u hrest hworks => ?_) fun _ _ hf => hf
    rw [hrest hworks, hchip hworks, hnext, hsucc, ← Nat.add_assoc, ByteStore.erase_erase,
      show index.toNat + (count + 1) = index.toNat + 1 + count by omega]
    congr 1
    omega

theorem wp_eraseBetween (hp : Placed env v) (hs : Sectored env v) {startLba lastLba : BitVec 64}
    (hlt : startLba.toNat < lastLba.toNat) (hlast : lastLba.toNat < v.blocks.length) (h : Host) :
    wp (Exec.when (startLba + 1 < lastLba)
        (eraseMiddle env v (startLba + 1) (lastLba.toNat - startLba.toNat - 1)))
      (fun _ t => Works env v → t.chip = h.chip.erase (v.chipBase env + v.start (startLba.toNat + 1))
        (v.start lastLba.toNat - v.start (startLba.toNat + 1))) (fun _ _ => False) h := by
  have hnext : (startLba + 1).toNat = startLba.toNat + 1 := by
    rw [BitVec.toNat_add]
    exact Nat.mod_eq_of_lt (by show startLba.toNat + 1 < _; have := lastLba.isLt; omega)
  rw [wp_when, BitVec.lt_def, hnext]
  constructor
  · intro hmore
    have hmiddle := wp_eraseMiddle hp hs (lastLba.toNat - startLba.toNat - 1) (startLba + 1) h (by omega)
    rw [hnext, show startLba.toNat + 1 + (lastLba.toNat - startLba.toNat - 1) = lastLba.toNat by omega]
      at hmiddle
    exact hmiddle
  · intro hnone _
    rw [show lastLba.toNat = startLba.toNat + 1 by omega, Nat.sub_self, ByteStore.erase_zero]

/-! ## Up to the last write -/

/-- A byte of the part once the blocks have been erased and the head of the first one is back. -/
def preparedByte (env : FvbEnv) (v : Volume) (first offset last len : Nat) (scratch : List Byte)
    (chip : ByteStore) (x : Nat) : Byte :=
  if v.chipBase env + v.start first ≤ x ∧ x < v.chipBase env + v.start first + offset then
    savedByte v chip scratch (v.chipBase env + v.start first) (x - (v.chipBase env + v.start first))
  else if v.chipBase env + v.start first + offset ≤ x ∧ x < v.chipBase env + v.start last + len then
    ByteStore.erased
  else chip x

/-- The blocks have been erased and the head of the first one has been written back; the scratch space
holds the last block. -/
structure Prepared (env : FvbEnv) (v : Volume) (first offset last len : Nat) (scratch : List Byte)
    (chip : ByteStore) (r : BitVec 32 × List Byte) (t : Host) : Prop where
  size : r.1 = BitVec.ofNat 32 len
  length : r.2.length = scratch.length
  bytes : Works env v → ∀ j < len,
    r.2[j]? = some (savedByte v chip scratch (v.chipBase env + v.start last) j)
  chip : Works env v → ∀ x, t.chip x = preparedByte env v first offset last len scratch chip x

theorem wp_fvbEraseCustomBlockRange (hp : Placed env v) (hs : Sectored env v) {startLba lastLba : BitVec 64}
    {n len : Nat} (hstart : v.blocks[startLba.toNat]? = some n) (hlast : v.blocks[lastLba.toNat]? = some len)
    (hle : startLba.toNat ≤ lastLba.toNat) {offsetStartLba : BitVec 32} (offsetLastLba : BitVec 32)
    (hoffset : offsetStartLba.toNat < n) {scratch : List Byte} (hscratch : ∀ m ∈ v.blocks, m ≤ scratch.length)
    {h : Host} {Q : EfiStatus × List Byte → Host → Prop} {E : Stop → Host → Prop}
    (hfinal : ∀ r t, Prepared env v startLba.toNat offsetStartLba.toNat lastLba.toNat len scratch h.chip r t →
      wp (fvbWriteBlock env v lastLba (offsetLastLba + 1) (r.1 - (offsetStartLba + 1)) r.2)
        (fun w u => Q (w.1, r.2) u) E t) :
    wp (fvbEraseCustomBlockRange env v startLba offsetStartLba lastLba offsetLastLba scratch) Q E h := by
  have hscratchStart := hscratch n (List.mem_of_getElem? hstart)
  have hscratchLast := hscratch len (List.mem_of_getElem? hlast)
  have hlength : v.blocks.length ≤ v.blocks.sum := length_blockLengths_le v.blockMap
  have hsum := hp.sum_lt
  obtain ⟨hlastLt, -⟩ := List.getElem?_eq_some_iff.mp hlast
  have hsucc : v.start (startLba.toNat + 1) = v.start startLba.toNat + n := Layout.start_succ hstart
  rw [fvbEraseCustomBlockRange, wp_bind]
  refine wp_mono (wp_saveAndErase hp hs hstart hscratchStart _ h) ?_ fun _ _ hf => hf.elim
  rintro first t₁ ⟨hcopied, hchip₁⟩
  rw [wp_bind]
  refine wp_mono (wp_restoreHead hp hstart hoffset (by rw [hcopied.length]; exact hscratchStart) t₁) ?_
    fun _ _ hf => hf.elim
  rintro _ t₂ hchip₂
  have hheadLen : (first.2.take offsetStartLba.toNat).length = offsetStartLba.toNat := by
    rw [List.length_take, hcopied.length]
    omega
  -- the first block
  have hfirst : Works env v → ∀ x, t₂.chip x =
      preparedByte env v startLba.toNat offsetStartLba.toNat startLba.toNat n scratch h.chip x := by
    intro hworks x
    rw [hchip₂ hworks, hchip₁ hworks, ByteStore.program_erase (by omega), hheadLen, preparedByte]
    by_cases hin : v.chipBase env + v.start startLba.toNat ≤ x ∧
        x < v.chipBase env + v.start startLba.toNat + offsetStartLba.toNat
    · rw [if_pos hin, if_pos hin, List.getElem?_take_of_lt (by omega), hcopied.bytes _ (by omega)]
      rfl
    · rw [if_neg hin, if_neg hin]
  by_cases hsame : startLba = lastLba
  · subst hsame
    cases hstart.symm.trans hlast
    have hnot : ¬ startLba + 1 < startLba := by bv_omega
    rw [wp_bind, wp_when]
    refine ⟨fun hlt => absurd hlt hnot, fun _ => ?_⟩
    rw [wp_bind, if_neg (BitVec.lt_irrefl _), wp_pure, wp_bind]
    exact hfinal first t₂ ⟨hcopied.size, hcopied.length, fun _ => hcopied.bytes, hfirst⟩
  · have hlt : startLba.toNat < lastLba.toNat :=
      Nat.lt_of_le_of_ne hle fun heq => hsame (BitVec.eq_of_toNat_eq heq)
    have hmono : v.start (startLba.toNat + 1) ≤ v.start lastLba.toNat := Layout.start_mono hlt
    rw [wp_bind]
    refine wp_mono (wp_eraseBetween hp hs hlt hlastLt t₂) ?_ fun _ _ hf => hf.elim
    rintro _ t₃ hchip₃
    rw [wp_bind, if_pos (show startLba < lastLba from hlt)]
    refine wp_mono (wp_saveAndErase hp hs hlast (by rw [hcopied.length]; exact hscratchLast) _ t₃) ?_
      fun _ _ hf => hf.elim
    rintro last t₄ ⟨hcopied', hchip₄⟩
    rw [wp_bind]
    refine hfinal last t₄ ⟨hcopied'.size, hcopied'.length.trans hcopied.length, fun hworks j hj => ?_,
      fun hworks x => ?_⟩
    · rw [hcopied'.bytes j hj]
      unfold savedByte
      by_cases hread : v.attributes &&& Attr.readStatus = 0
      · rw [if_pos hread, if_pos hread, hcopied.stale hread]
      · rw [if_neg hread, if_neg hread, hchip₃ hworks, ByteStore.erase_of_not_mem (by omega), hfirst hworks,
          preparedByte, if_neg (by omega), if_neg (by omega)]
    · rw [hchip₄ hworks, hchip₃ hworks]
      unfold ByteStore.erase
      rw [hfirst hworks, preparedByte, preparedByte]
      by_cases hin : v.chipBase env + v.start startLba.toNat ≤ x ∧
          x < v.chipBase env + v.start startLba.toNat + offsetStartLba.toNat
      · rw [if_pos hin, if_pos hin, if_neg (by omega), if_neg (by omega)]
      · rw [if_neg hin, if_neg hin]
        by_cases herased : v.chipBase env + v.start startLba.toNat + offsetStartLba.toNat ≤ x ∧
            x < v.chipBase env + v.start lastLba.toNat + len
        · rw [if_pos herased]
          split
          · rfl
          split
          · rfl
          exact if_pos (by omega)
        · rw [if_neg herased, if_neg (by omega), if_neg (by omega), if_neg (by omega)]

/-! ## The last write -/

section Last

variable {lastLba : BitVec 64} {len : Nat} {offsetStartLba offsetLastLba d : BitVec 32}

def Fails (v : Volume) (len : Nat) (offsetStartLba offsetLastLba : BitVec 32) : Prop :=
  ¬ v.Writable ∨ offsetStartLba.toNat + 1 = len ∨ offsetStartLba.toNat < offsetLastLba.toNat ∨
    len + offsetLastLba.toNat < offsetStartLba.toNat

theorem toNat_offset_add_one (hoffset : offsetLastLba.toNat < len) (hlen : len < 2 ^ 32) :
    (offsetLastLba + 1).toNat = offsetLastLba.toNat + 1 := by
  rw [BitVec.toNat_add]
  exact Nat.mod_eq_of_lt (by show offsetLastLba.toNat + 1 < _; omega)

theorem toNat_scratchLbaSizeData (hd : d = BitVec.ofNat 32 len - (offsetStartLba + 1)) (hlen : len < 2 ^ 31)
    (hoffset : offsetStartLba.toNat < 2 ^ 31) :
    d.toNat = if offsetStartLba.toNat < len then len - (offsetStartLba.toNat + 1)
      else 2 ^ 32 + len - (offsetStartLba.toNat + 1) := by
  have hlen' : (BitVec.ofNat 32 len).toNat = len := by
    rw [BitVec.toNat_ofNat]
    exact Nat.mod_eq_of_lt (by omega)
  have hone := toNat_offset_add_one hoffset (by decide)
  rw [hd, BitVec.toNat_sub, hone, hlen']
  split <;> omega

theorem wp_last_fails (hp : Placed env v) (hlast : v.blocks[lastLba.toNat]? = some len)
    (hstart : offsetStartLba.toNat < 2 ^ 31) (hoffset : offsetLastLba.toNat < len)
    (hd : d = BitVec.ofNat 32 len - (offsetStartLba + 1)) (hfails : Fails v len offsetStartLba offsetLastLba)
    {buffer : List Byte} (hbuffer : len ≤ buffer.length) (t : Host) :
    wp (fvbWriteBlock env v lastLba (offsetLastLba + 1) d buffer) (fun w _ => w.1 ≠ .success)
      (fun _ _ => False) t := by
  obtain ⟨-, hend⟩ := hp.command hlast (Nat.le_of_lt hoffset)
  have hlen := toNat_lbaLength hp.sum_lt hlast
  have hone := toNat_offset_add_one hoffset (by omega)
  have hsize := toNat_scratchLbaSizeData hd (by omega) hstart
  by_cases hserved : v.writeEnabled = true ∧ ∃ len, Served v Attr.writeStatus lastLba (offsetLastLba + 1) d len
  · obtain ⟨hwrite, len', hs⟩ := hserved
    cases hlast.symm.trans hs.block
    have hpos : 0 < d.toNat := Nat.pos_of_ne_zero fun hz => hs.bytes (BitVec.eq_of_toNat_eq hz)
    have hcut : d.toNat + (offsetLastLba + 1).toNat < 2 ^ 32 ∧ len < d.toNat + (offsetLastLba + 1).toNat := by
      rcases hfails with hno | heq | hlt | hlt
      · exact absurd ⟨hwrite, hs.enabled⟩ hno
      · rw [if_pos (by omega)] at hsize
        omega
      · rw [if_pos (by omega)] at hsize
        omega
      · rw [if_neg (by omega)] at hsize
        omega
    have hstatus : boundaryStatus (BitVec.ofNat 32 len) d (offsetLastLba + 1) = .badBufferSize :=
      if_pos ((cut_iff _ hcut.1).mpr (by omega))
    have hadj := toNat_adjusted (BitVec.ofNat 32 len) hcut.1 (by omega)
    by_cases hbehind : offsetLastLba.toNat + 1 = len
    · refine wp_mono (wp_write_nothing hp hwrite hs hcut.1 (by omega) buffer t) ?_ fun _ _ hf => hf
      rintro w u (⟨hfail, -⟩ | ⟨hbad, -⟩)
      · rw [hfail]
        exact nofun
      · rw [hbad]
        exact nofun
    · refine wp_mono (wp_write_inside hp hwrite hs hcut.1 (by omega) rfl buffer (by omega) t) ?_
        fun _ _ hf => hf
      rintro w u ⟨-, st, es, hw, hst⟩
      rw [hst, hstatus]
      rcases hw.outcome with ⟨rfl, -⟩ | ⟨rfl, -⟩ <;> exact nofun
  · obtain ⟨st, hst, hrejected⟩ := fvbWriteBlock_rejected env hp.sum_lt
      (fun hwrite len hs => hserved ⟨hwrite, len, hs⟩) buffer
    rw [hrejected]
    rcases hst with rfl | rfl <;> exact nofun

theorem wp_last_writes (hp : Placed env v) (hlast : v.blocks[lastLba.toNat]? = some len)
    (hwrite : v.Writable) (hstart : offsetStartLba.toNat + 1 < len)
    (hoffset : offsetLastLba.toNat ≤ offsetStartLba.toNat)
    (hd : d = BitVec.ofNat 32 len - (offsetStartLba + 1)) {buffer : List Byte}
    (hbuffer : len ≤ buffer.length) (t : Host) :
    wp (fvbWriteBlock env v lastLba (offsetLastLba + 1) d buffer)
      (fun w u => env.spi.Completes → w.1 = .success ∧ u.chip =
        t.chip.program (v.chipBase env + v.start lastLba.toNat + (offsetLastLba.toNat + 1))
          (buffer.take (len - (offsetStartLba.toNat + 1)))) (fun _ _ => False) t := by
  obtain ⟨-, hend⟩ := hp.command hlast (Nat.le_refl len)
  have hlen := toNat_lbaLength hp.sum_lt hlast
  have hinside : offsetLastLba.toNat < len := by omega
  have hone := toNat_offset_add_one hinside (by omega)
  have hsize := toNat_scratchLbaSizeData hd (by omega) (by omega)
  rw [if_pos (by omega)] at hsize
  have hs : Served v Attr.writeStatus lastLba (offsetLastLba + 1) d len :=
    ⟨fun hz => by rw [hz] at hsize; exact absurd hsize (Nat.ne_of_lt (by show 0 < _; omega)), hlast, hwrite.2,
      by omega⟩
  have hsum : d.toNat + (offsetLastLba + 1).toNat < 2 ^ 32 := by omega
  have hnot : ¬ Cut (BitVec.ofNat 32 len) d (offsetLastLba + 1) := fun hc => by
    have := (cut_iff _ hsum).mp hc
    omega
  have hstatus : boundaryStatus (BitVec.ofNat 32 len) d (offsetLastLba + 1) = .success := if_neg hnot
  refine wp_mono (wp_write_inside hp hwrite.1 hs hsum (by omega) (if_neg hnot).symm buffer
    (by omega) t) ?_ fun _ _ hf => hf
  rintro w u ⟨-, st, es, hw, hst⟩ hready
  rcases hw.outcome with ⟨rfl, -, hchip⟩ | ⟨-, hno⟩
  · rw [hst, hstatus, hchip, hone, hsize]
    exact ⟨rfl, rfl⟩
  · exact absurd hready hno

theorem wp_last_wraps (hp : Placed env v) (hready : env.spi.Completes)
    (hlast : v.blocks[lastLba.toNat]? = some len) (hwrite : v.Writable) (hlow : len ≤ offsetStartLba.toNat)
    (hhigh : offsetStartLba.toNat ≤ len + offsetLastLba.toNat) (hoffset : offsetLastLba.toNat < len)
    (hd : d = BitVec.ofNat 32 len - (offsetStartLba + 1)) {buffer : List Byte}
    (hbuffer : buffer.length < 2 ^ 31) (t : Host) :
    wp (fvbWriteBlock env v lastLba (offsetLastLba + 1) d buffer) (fun _ _ => False) (fun _ _ => True) t := by
  obtain ⟨-, hend⟩ := hp.command hlast (Nat.le_refl len)
  have hlen := toNat_lbaLength hp.sum_lt hlast
  have hone := toNat_offset_add_one hoffset (by omega)
  have hsize := toNat_scratchLbaSizeData hd (by omega) (by omega)
  rw [if_neg (by omega)] at hsize
  have hs : Served v Attr.writeStatus lastLba (offsetLastLba + 1) d len :=
    ⟨fun hz => by rw [hz] at hsize; exact absurd hsize (Nat.ne_of_lt (by show 0 < _; omega)), hlast, hwrite.2,
      by omega⟩
  have hadj : d = adjusted (BitVec.ofNat 32 len) d (offsetLastLba + 1) :=
    (if_neg (not_cut_of_wraps (by omega) (by omega))).symm
  refine wp_fvbWriteBlock hp.sum_lt hwrite.1 hs hadj ?_
  refine wp_mono (Spi.wp_write_bounded hp.flash hready _ d (by omega) t) ?_ fun _ _ _ => trivial
  intro _ _ hle
  omega

end Last

/-! ## The call -/

section Call

variable {startLba lastLba : BitVec 64} {offsetStartLba offsetLastLba : BitVec 32} {n len : Nat}

/-- Byte `x` of the part lies in the range, whose last byte is at `offsetLastLba`. -/
def InRange (env : FvbEnv) (v : Volume) (startLba : BitVec 64) (offsetStartLba : BitVec 32)
    (lastLba : BitVec 64) (offsetLastLba : BitVec 32) (x : Nat) : Prop :=
  v.chipBase env + v.start startLba.toNat + offsetStartLba.toNat ≤ x ∧
    x ≤ v.chipBase env + v.start lastLba.toNat + offsetLastLba.toNat

/-- The call returns, and if it succeeds then the range of the part is erased and the rest of the volume is
as it was. -/
def RangeErased (env : FvbEnv) (v : Volume) (startLba : BitVec 64) (offsetStartLba : BitVec 32)
    (lastLba : BitVec 64) (offsetLastLba : BitVec 32) (chip : ByteStore) : Prop :=
  ∀ (h : Host) (scratch : List Byte), h.chip = chip → (∀ m ∈ v.blocks, m ≤ scratch.length) →
    ∃ st scratch' t,
      fvbEraseCustomBlockRange env v startLba offsetStartLba lastLba offsetLastLba scratch h =
        .ret (st, scratch') t ∧
      (st = .success → ∀ x, v.chipBase env ≤ x → x < v.chipBase env + v.blocks.sum →
        (InRange env v startLba offsetStartLba lastLba offsetLastLba x → t.chip x = ByteStore.erased) ∧
        (¬ InRange env v startLba offsetStartLba lastLba offsetLastLba x → t.chip x = chip x))

/-- Each byte of the last block behind the range is what the last write makes of it: the bytes from the
start of the block go over the erased ones, or over the head of the block if it is the only one. -/
def TailCopies (env : FvbEnv) (v : Volume) (startLba : BitVec 64) (offsetStartLba : BitVec 32)
    (lastLba : BitVec 64) (offsetLastLba : BitVec 32) (len : Nat) (chip : ByteStore) : Prop :=
  ∀ j, offsetLastLba.toNat < j → j < len →
    chip (v.chipBase env + v.start lastLba.toNat + j) =
      (if startLba = lastLba ∧ j < offsetStartLba.toNat then
        chip (v.chipBase env + v.start lastLba.toNat + j) else ByteStore.erased) &&&
      (if j ≤ offsetLastLba.toNat + (len - (offsetStartLba.toNat + 1)) then
        chip (v.chipBase env + v.start lastLba.toNat + (j - (offsetLastLba.toNat + 1)))
      else ByteStore.erased)

def tailByte (env : FvbEnv) (v : Volume) (offset last lastOffset len : Nat) (scratch : List Byte)
    (chip : ByteStore) (x : Nat) : Byte :=
  if v.chipBase env + v.start last + (lastOffset + 1) ≤ x ∧
      x < v.chipBase env + v.start last + (lastOffset + 1) + (len - (offset + 1)) then
    savedByte v chip scratch (v.chipBase env + v.start last)
      (x - (v.chipBase env + v.start last + (lastOffset + 1)))
  else ByteStore.erased

variable (hp : Placed env v) (hs : Sectored env v) (hstart : v.blocks[startLba.toNat]? = some n)
  (hlast : v.blocks[lastLba.toNat]? = some len) (hle : startLba.toNat ≤ lastLba.toNat)
  (hoffsetStart : offsetStartLba.toNat < n) (hoffsetLast : offsetLastLba.toNat < len)

include hp hs hstart hlast hle hoffsetStart in
theorem eraseRange_writes (hworks : Works env v) (hlow : offsetStartLba.toNat + 1 < len)
    (hhigh : offsetLastLba.toNat ≤ offsetStartLba.toNat) {scratch : List Byte}
    (hscratch : ∀ m ∈ v.blocks, m ≤ scratch.length) (h : Host) :
    ∃ scratch' t, fvbEraseCustomBlockRange env v startLba offsetStartLba lastLba offsetLastLba scratch h =
        .ret (.success, scratch') t ∧
      ∀ x, t.chip x =
        preparedByte env v startLba.toNat offsetStartLba.toNat lastLba.toNat len scratch h.chip x &&&
          tailByte env v offsetStartLba.toNat lastLba.toNat offsetLastLba.toNat len scratch h.chip x := by
  have hscratchLast := hscratch len (List.mem_of_getElem? hlast)
  have hrun := wp_fvbEraseCustomBlockRange hp hs hstart hlast hle offsetLastLba
    hoffsetStart hscratch (h := h) (E := fun _ _ => False)
    (Q := fun w t => w.1 = .success ∧ ∀ x, t.chip x =
      preparedByte env v startLba.toNat offsetStartLba.toNat lastLba.toNat len scratch h.chip x &&&
        tailByte env v offsetStartLba.toNat lastLba.toNat offsetLastLba.toNat len scratch h.chip x)
    fun r t hprepared => ?_
  · obtain ⟨⟨st, scratch'⟩, t, hret, hst, hchip⟩ := returns_of_wp hrun
    have hst : st = .success := hst
    rw [hst] at hret
    exact ⟨scratch', t, hret, hchip⟩
  rw [hprepared.size]
  refine wp_mono (wp_last_writes hp hlast hworks.2 hlow hhigh rfl
    (by rw [hprepared.length]; exact hscratchLast) t) ?_ fun _ _ hf => hf
  intro w u hwritten
  obtain ⟨hsuccess, hchip⟩ := hwritten hworks.1
  refine ⟨hsuccess, fun x => ?_⟩
  rw [hchip, ByteStore.program, hprepared.chip hworks]
  generalize preparedByte env v startLba.toNat offsetStartLba.toNat lastLba.toNat len scratch h.chip x = b
  unfold tailByte
  by_cases hbefore : v.chipBase env + v.start lastLba.toNat + (offsetLastLba.toNat + 1) ≤ x
  · rw [if_pos hbefore]
    by_cases hbehind : x < v.chipBase env + v.start lastLba.toNat + (offsetLastLba.toNat + 1) +
        (len - (offsetStartLba.toNat + 1))
    · rw [if_pos ⟨hbefore, hbehind⟩, List.getElem?_take_of_lt (by omega), hprepared.bytes hworks _ (by omega)]
      rfl
    · rw [if_neg fun hin => hbehind hin.2, List.getElem?_eq_none (by rw [List.length_take]; omega)]
      rfl
  · rw [if_neg hbefore, if_neg fun hin => hbefore hin.1, ByteStore.and_erased]

include hp hs hstart hlast hle hoffsetStart hoffsetLast in
theorem rangeErased_of_fails (hfails : Fails v len offsetStartLba offsetLastLba) (chip : ByteStore) :
    RangeErased env v startLba offsetStartLba lastLba offsetLastLba chip := by
  rintro h scratch rfl hscratch
  have hscratchLast := hscratch len (List.mem_of_getElem? hlast)
  obtain ⟨-, hend⟩ := hp.command hstart (Nat.le_refl n)
  have hrun := wp_fvbEraseCustomBlockRange hp hs hstart hlast hle offsetLastLba
    hoffsetStart hscratch (h := h) (E := fun _ _ => False) (Q := fun w _ => w.1 ≠ .success)
    fun r t hprepared => ?_
  · obtain ⟨⟨st, scratch'⟩, t, hret, hst⟩ := returns_of_wp hrun
    exact ⟨st, scratch', t, hret, fun h => absurd h hst⟩
  rw [hprepared.size]
  exact wp_last_fails hp hlast (by omega) hoffsetLast rfl hfails
    (by rw [hprepared.length]; exact hscratchLast) t

include hp hs hstart hlast hle hoffsetStart hoffsetLast in
theorem not_rangeErased_of_wraps (hworks : Works env v) (hlow : len ≤ offsetStartLba.toNat)
    (hhigh : offsetStartLba.toNat ≤ len + offsetLastLba.toNat) (chip : ByteStore) :
    ¬ RangeErased env v startLba offsetStartLba lastLba offsetLastLba chip := by
  intro herased
  obtain ⟨-, -, hend⟩ := hp.bounds
  have hpart := hp.part
  let scratch : List Byte := List.replicate v.blocks.sum 0
  have hscratch : ∀ m ∈ v.blocks, m ≤ scratch.length := by
    intro m hm
    rw [List.length_replicate]
    exact List.le_sum_of_mem hm
  obtain ⟨st, scratch', t, hret, -⟩ := herased { Spi.hostWith chip with chip := chip } scratch rfl hscratch
  refine wp_of_ret (wp_fvbEraseCustomBlockRange hp hs hstart hlast hle offsetLastLba
    hoffsetStart hscratch (E := fun _ _ => True) (Q := fun _ _ => False) fun r t hprepared => ?_) hret
  rw [hprepared.size]
  have hlen : scratch.length = v.blocks.sum := List.length_replicate
  exact wp_last_wraps hp hworks.1 hlast hworks.2 hlow hhigh hoffsetLast rfl
    (by rw [hprepared.length, hlen]; omega) t

theorem savedByte_of_read (hread : v.attributes &&& Attr.readStatus ≠ 0) (chip : ByteStore)
    (scratch : List Byte) (b j : Nat) : savedByte v chip scratch b j = chip (b + j) := if_neg hread

theorem savedByte_replicate (hread : v.attributes &&& Attr.readStatus = 0) (chip : ByteStore) {m j : Nat}
    (hj : j < m) (byte : Byte) (b : Nat) : savedByte v chip (List.replicate m byte) b j = byte := by
  rw [savedByte, if_pos hread, List.getElem?_replicate_of_lt hj]
  rfl

include hstart hle hoffsetStart in
theorem preparedByte_last (scratch : List Byte) (chip : ByteStore) {j : Nat} (hj : j < len) :
    preparedByte env v startLba.toNat offsetStartLba.toNat lastLba.toNat len scratch chip
        (v.chipBase env + v.start lastLba.toNat + j) =
      if startLba = lastLba ∧ j < offsetStartLba.toNat then
        savedByte v chip scratch (v.chipBase env + v.start lastLba.toNat) j
      else ByteStore.erased := by
  unfold preparedByte
  by_cases hsame : startLba = lastLba
  · subst hsame
    by_cases hhead : j < offsetStartLba.toNat
    · rw [if_pos ⟨by omega, by omega⟩, if_pos ⟨rfl, hhead⟩, Nat.add_sub_cancel_left]
    · rw [if_neg (by omega), if_pos ⟨by omega, by omega⟩, if_neg fun h => hhead h.2]
  · have hlt : startLba.toNat < lastLba.toNat :=
      Nat.lt_of_le_of_ne hle fun heq => hsame (BitVec.eq_of_toNat_eq heq)
    have hbefore : v.start startLba.toNat + n ≤ v.start lastLba.toNat :=
      Layout.start_add_le_start hstart hlt
    rw [if_neg (by omega), if_pos ⟨by omega, by omega⟩, if_neg fun h => hsame h.1]

theorem tailByte_last (scratch : List Byte) (chip : ByteStore) {j : Nat} (hj : offsetLastLba.toNat < j) :
    tailByte env v offsetStartLba.toNat lastLba.toNat offsetLastLba.toNat len scratch chip
        (v.chipBase env + v.start lastLba.toNat + j) =
      if j ≤ offsetLastLba.toNat + (len - (offsetStartLba.toNat + 1)) then
        savedByte v chip scratch (v.chipBase env + v.start lastLba.toNat) (j - (offsetLastLba.toNat + 1))
      else ByteStore.erased := by
  unfold tailByte
  rw [Nat.add_sub_add_left]
  exact if_congr (by omega) rfl rfl

include hp hs hstart hlast hle hoffsetStart in
theorem RangeErased.shown {chip : ByteStore}
    (herased : RangeErased env v startLba offsetStartLba lastLba offsetLastLba chip) (hworks : Works env v)
    (hlow : offsetStartLba.toNat + 1 < len) (hhigh : offsetLastLba.toNat ≤ offsetStartLba.toNat)
    (byte : Byte) {j : Nat} (hj : offsetLastLba.toNat < j) (hlen : j < len) :
    chip (v.chipBase env + v.start lastLba.toNat + j) =
      preparedByte env v startLba.toNat offsetStartLba.toNat lastLba.toNat len
          (List.replicate v.blocks.sum byte) chip (v.chipBase env + v.start lastLba.toNat + j) &&&
        tailByte env v offsetStartLba.toNat lastLba.toNat offsetLastLba.toNat len
          (List.replicate v.blocks.sum byte) chip (v.chipBase env + v.start lastLba.toNat + j) := by
  have hend : v.start lastLba.toNat + len ≤ v.blocks.sum := Layout.start_add_le hlast
  have hscratch : ∀ m ∈ v.blocks, m ≤ (List.replicate v.blocks.sum byte).length := by
    intro m hm
    rw [List.length_replicate]
    exact List.le_sum_of_mem hm
  obtain ⟨buf, t, hret, hchip⟩ := eraseRange_writes hp hs hstart hlast hle hoffsetStart hworks hlow hhigh
    hscratch (Spi.hostWith chip)
  obtain ⟨st, buf', t', hret', hgood⟩ := herased (Spi.hostWith chip) _ rfl hscratch
  rw [hret] at hret'
  injection hret' with hst ht
  subst ht
  have hsame := (hgood (congrArg Prod.fst hst).symm (v.chipBase env + v.start lastLba.toNat + j)
    (by omega) (by omega)).2 fun hin => by
      have := hin.2
      omega
  rw [← hsame, hchip]
  rfl

include hp hs hstart hlast hle hoffsetStart in
theorem not_rangeErased_of_unread (hread : v.attributes &&& Attr.readStatus = 0) (hworks : Works env v)
    (hlow : offsetStartLba.toNat + 1 < len) (hhigh : offsetLastLba.toNat ≤ offsetStartLba.toNat)
    (chip : ByteStore) : ¬ RangeErased env v startLba offsetStartLba lastLba offsetLastLba chip := by
  intro herased
  have hend : v.start lastLba.toNat + len ≤ v.blocks.sum := Layout.start_add_le hlast
  have hbyte : ∀ byte : Byte, chip (v.chipBase env + v.start lastLba.toNat + (offsetLastLba.toNat + 1)) =
      (if startLba = lastLba ∧ offsetLastLba.toNat + 1 < offsetStartLba.toNat then byte
        else ByteStore.erased) &&& byte := by
    intro byte
    have hshown := herased.shown hp hs hstart hlast hle hoffsetStart hworks hlow hhigh byte
      (Nat.lt_succ_self _) (by omega)
    rw [preparedByte_last hstart hle hoffsetStart _ _ (by omega), tailByte_last _ _ (Nat.lt_succ_self _),
      savedByte_replicate hread _ (by omega), savedByte_replicate hread _ (by omega),
      if_pos (show offsetLastLba.toNat + 1 ≤ _ by omega)] at hshown
    exact hshown
  have hclear := hbyte 0
  have hfull := hbyte ByteStore.erased
  rw [ite_self, ByteStore.and_erased] at hfull
  rw [hfull] at hclear
  exact absurd (hclear.trans BitVec.and_zero) (by decide)

include hp hs hstart hlast hle hoffsetStart in
theorem rangeErased_of_copies (hread : v.attributes &&& Attr.readStatus ≠ 0) (hworks : Works env v)
    (hlow : offsetStartLba.toNat + 1 < len) (hhigh : offsetLastLba.toNat ≤ offsetStartLba.toNat)
    {chip : ByteStore} (hcopies : TailCopies env v startLba offsetStartLba lastLba offsetLastLba len chip) :
    RangeErased env v startLba offsetStartLba lastLba offsetLastLba chip := by
  rintro h scratch rfl hscratch
  obtain ⟨scratch', t, hret, hchip⟩ := eraseRange_writes hp hs hstart hlast hle hoffsetStart hworks hlow hhigh
    hscratch h
  have hstartEnd : v.start startLba.toNat + n ≤ v.start lastLba.toNat + len := by
    by_cases hsame : startLba = lastLba
    · subst hsame
      cases hstart.symm.trans hlast
      exact Nat.le_refl _
    · have := Layout.start_add_le_start hstart
        (Nat.lt_of_le_of_ne hle fun heq => hsame (BitVec.eq_of_toNat_eq heq))
      exact Nat.le_trans this (Nat.le_add_right _ _)
  refine ⟨.success, scratch', t, hret, fun _ x _ _ => ?_⟩
  rw [hchip]
  unfold InRange
  by_cases hbehind : v.chipBase env + v.start lastLba.toNat + offsetLastLba.toNat < x
  · refine ⟨fun hin => absurd hin.2 (by omega), fun _ => ?_⟩
    by_cases hlast' : x < v.chipBase env + v.start lastLba.toNat + len
    · -- the bytes that the last write is for
      obtain ⟨j, rfl⟩ : ∃ j, x = v.chipBase env + v.start lastLba.toNat + j :=
        ⟨x - (v.chipBase env + v.start lastLba.toNat), by omega⟩
      rw [preparedByte_last hstart hle hoffsetStart _ _ (by omega), tailByte_last _ _ (by omega),
        savedByte_of_read hread, savedByte_of_read hread]
      exact (hcopies j (by omega) (by omega)).symm
    · rw [preparedByte, tailByte, if_neg (by omega), if_neg (by omega), if_neg (by omega)]
      exact ByteStore.and_erased _
  · rw [tailByte, if_neg (by omega), ByteStore.and_erased, preparedByte]
    constructor
    · rintro ⟨hin, -⟩
      rw [if_neg (by omega), if_pos ⟨hin, by omega⟩]
    · intro hout
      rw [savedByte_of_read hread]
      by_cases hhead : v.chipBase env + v.start startLba.toNat ≤ x ∧
          x < v.chipBase env + v.start startLba.toNat + offsetStartLba.toNat
      · rw [if_pos hhead, Nat.add_sub_cancel' hhead.1]
      · rw [if_neg hhead, if_neg (by omega)]

include hp hs hstart hlast hle hoffsetStart hoffsetLast in
theorem rangeErased_iff_of_completes (hready : env.spi.Completes) (chip : ByteStore) :
    RangeErased env v startLba offsetStartLba lastLba offsetLastLba chip ↔
      Fails v len offsetStartLba offsetLastLba ∨
      v.attributes &&& Attr.readStatus ≠ 0 ∧ offsetStartLba.toNat + 1 < len ∧
        TailCopies env v startLba offsetStartLba lastLba offsetLastLba len chip := by
  by_cases hfails : Fails v len offsetStartLba offsetLastLba
  · exact ⟨fun _ => .inl hfails,
      fun _ => rangeErased_of_fails hp hs hstart hlast hle hoffsetStart hoffsetLast hfails chip⟩
  obtain ⟨hwrite, hne, hhigh, hnear⟩ : v.Writable ∧ offsetStartLba.toNat + 1 ≠ len ∧
      offsetLastLba.toNat ≤ offsetStartLba.toNat ∧
      offsetStartLba.toNat ≤ len + offsetLastLba.toNat := by
    unfold Fails at hfails
    refine ⟨by_contra fun h => hfails (.inl h), fun h => hfails (.inr (.inl h)), ?_, ?_⟩ <;> omega
  have hworks : Works env v := ⟨hready, hwrite⟩
  constructor
  · intro herased
    have hlow : offsetStartLba.toNat + 1 < len := by
      by_contra hlow
      exact not_rangeErased_of_wraps hp hs hstart hlast hle hoffsetStart hoffsetLast hworks (by omega) hnear
        chip herased
    have hread : v.attributes &&& Attr.readStatus ≠ 0 := fun hread =>
      not_rangeErased_of_unread hp hs hstart hlast hle hoffsetStart hread hworks hlow hhigh chip herased
    refine .inr ⟨hread, hlow, fun j hj hlen => ?_⟩
    have hshown := herased.shown hp hs hstart hlast hle hoffsetStart hworks hlow hhigh 0 hj hlen
    rw [preparedByte_last hstart hle hoffsetStart _ _ hlen, tailByte_last _ _ hj,
      savedByte_of_read hread, savedByte_of_read hread] at hshown
    exact hshown
  · rintro (h | ⟨hread, hlow, hcopies⟩)
    · exact absurd h hfails
    · exact rangeErased_of_copies hp hs hstart hlast hle hoffsetStart hread hworks hlow hhigh hcopies

theorem not_tailCopies (hhigh : offsetLastLba.toNat + 1 < len) (hlow : offsetStartLba.toNat + 1 < len) :
    ¬ TailCopies env v startLba offsetStartLba lastLba offsetLastLba len fun x =>
      if x = v.chipBase env + v.start lastLba.toNat + (len - 1) then 0 else ByteStore.erased := by
  intro hcopies
  have hlost := hcopies (len - 1) (by omega) (by omega)
  beta_reduce at hlost
  rw [if_pos rfl, if_neg fun h => absurd h.2 (by omega), ByteStore.erased_and,
    if_neg (show ¬ _ = _ by omega), ite_self] at hlost
  exact absurd hlost (by decide)

end Call

/-- Where the call can succeed, it erases the range and nothing else only if the bytes behind the range
happen to be what the last write makes of them, and for no content at all if the part may fail a cycle. -/
theorem rangeErased_iff (env : FvbEnv) (v : Volume) (hp : Placed env v) (hs : Sectored env v)
    (startLba lastLba : BitVec 64) (offsetStartLba offsetLastLba : BitVec 32) (n len : Nat)
    (hstart : v.blocks[startLba.toNat]? = some n) (hlast : v.blocks[lastLba.toNat]? = some len)
    (hle : startLba.toNat ≤ lastLba.toNat) (hoffsetStart : offsetStartLba.toNat < n)
    (hoffsetLast : offsetLastLba.toNat < len) :
    (∀ spis chip, (env.polled spis).spi.Completes →
      (RangeErased (env.polled spis) v startLba offsetStartLba lastLba offsetLastLba chip ↔
        Fails v len offsetStartLba offsetLastLba ∨
        v.attributes &&& Attr.readStatus ≠ 0 ∧ offsetStartLba.toNat + 1 < len ∧
          TailCopies env v startLba offsetStartLba lastLba offsetLastLba len chip)) ∧
    ((∀ spis chip, RangeErased (env.polled spis) v startLba offsetStartLba lastLba offsetLastLba chip) ↔
      Fails v len offsetStartLba offsetLastLba) := by
  have hsectored : ∀ spis, Sectored (env.polled spis) v := fun _ => ⟨hs.base, hs.blocks⟩
  refine ⟨fun spis chip hready => rangeErased_iff_of_completes (hp.polled spis) (hsectored spis) hstart hlast
    hle hoffsetStart hoffsetLast hready chip, fun hall => ?_, fun hfails spis chip =>
    rangeErased_of_fails (hp.polled spis) (hsectored spis) hstart hlast hle hoffsetStart hoffsetLast hfails
      chip⟩
  by_contra hfails
  rcases (rangeErased_iff_of_completes (hp.polled fun _ => 0) (hsectored _) hstart hlast hle hoffsetStart
    hoffsetLast (completes_idle env) fun x =>
      if x = v.chipBase env + v.start lastLba.toNat + (len - 1) then 0 else ByteStore.erased).mp
    (hall _ _) with h | ⟨-, hlow, hcopies⟩
  · exact hfails h
  · have hhigh : offsetLastLba.toNat ≤ offsetStartLba.toNat :=
      Nat.le_of_not_lt fun hlt => hfails (.inr (.inr (.inl hlt)))
    exact not_tailCopies (by omega) hlow hcopies

theorem rangeErased_twoSectors :
    RangeErased (readyFvb.polled fun _ => 0) twoSectors 0 0x10 1 0x10 fun _ => ByteStore.erased := by
  obtain ⟨hiff, -⟩ := rangeErased_iff readyFvb twoSectors placed_twoSectors sectored_twoSectors 0 1 0x10 0x10
    0x1000 0x1000 (by rw [blocks_twoSectors]; rfl) (by rw [blocks_twoSectors]; rfl) (by decide) (by decide)
    (by decide)
  refine (hiff _ _ (completes_idle readyFvb)).mpr (.inr ⟨by decide, by decide, fun j _ _ => ?_⟩)
  show ByteStore.erased = (if _ then ByteStore.erased else ByteStore.erased) &&&
    if _ then ByteStore.erased else ByteStore.erased
  rw [ite_self, ite_self, ByteStore.and_erased]

theorem not_rangeErased : ¬ RangeErased readyFvb twoSectors 0 0x10 1 0x10 fun x =>
    if x = twoSectors.chipBase readyFvb + twoSectors.start 1 + (0x1000 - 1) then 0 else ByteStore.erased := by
  intro herased
  have hfirst : twoSectors.blocks[(0 : BitVec 64).toNat]? = some 0x1000 := by
    rw [blocks_twoSectors]
    rfl
  have hsecond : twoSectors.blocks[(1 : BitVec 64).toNat]? = some 0x1000 := by
    rw [blocks_twoSectors]
    rfl
  have hoffset : (0x10 : BitVec 32).toNat < 0x1000 := by decide
  have hiff := rangeErased_iff_of_completes placed_twoSectors sectored_twoSectors hfirst hsecond
    (by decide) hoffset hoffset (Spi.readyEnv_completes _ _ _)
  rcases (hiff _).mp herased with h | ⟨-, -, hcopies⟩
  · rcases h with h | h | h | h
    · exact h ⟨rfl, by decide⟩
    · exact absurd h (by decide)
    · exact absurd h (by decide)
    · exact absurd h (by decide)
  · exact not_tailCopies (by decide) (by decide) hcopies

end Quark.Fvb
