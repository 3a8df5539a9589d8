import Quark.Fvb.Volume
import Quark.Machine.BitField

/-!
# The block map

A block map says in runs how long the blocks of a volume are. `FvbGetLbaAddress` walks the runs with a
running offset; it finds the block that the list of all block lengths has at that place.
-/

namespace Quark.Fvb

open Machine

/-! ## What a block map means -/

def blockLengths : List BlockMapEntry → List Nat
  | [] => []
  | e :: blockMap =>
    if e.Ends then [] else List.replicate e.numBlocks.toNat e.length.toNat ++ blockLengths blockMap

def runEnd : List BlockMapEntry → Nat → Nat
  | [], _ => 0
  | e :: blockMap, k =>
    if e.Ends then 0
    else if k < e.numBlocks.toNat then e.numBlocks.toNat
    else e.numBlocks.toNat + runEnd blockMap (k - e.numBlocks.toNat)

def Volume.blocks (v : Volume) : List Nat := blockLengths v.blockMap

abbrev Volume.start (v : Volume) (k : Nat) : Nat := Layout.start v.blocks k

theorem pos_of_mem_blockLengths {m : List BlockMapEntry} {n : Nat} (h : n ∈ blockLengths m) : 0 < n := by
  induction m with
  | nil => cases h
  | cons e m ih =>
    unfold blockLengths at h
    by_cases hends : e.Ends
    · rw [if_pos hends] at h
      cases h
    · rw [if_neg hends] at h
      rcases List.mem_append.mp h with h | h
      · rw [List.eq_of_mem_replicate h]
        rcases Nat.eq_zero_or_pos e.length.toNat with hz | hpos
        · exact absurd (.inr (BitVec.eq_of_toNat_eq hz)) hends
        · exact hpos
      · exact ih h

theorem length_blockLengths_le (m : List BlockMapEntry) : (blockLengths m).length ≤ (blockLengths m).sum :=
  List.length_le_sum_of_one_le _ fun _ h => pos_of_mem_blockLengths h

/-! ## The walk -/

/-- What the walk returns for a block that lies `k` blocks behind where it stands. -/
def lbaInfoAt (v : Volume) (m : List BlockMapEntry) (offset : BitVec 32) (k : Nat) (n : Nat) : LbaInfo where
  lbaAddress := v.fvBase + (offset + BitVec.ofNat 32 (Layout.start (blockLengths m) k))
  lbaWriteAddress := v.fvWriteBase + (offset + BitVec.ofNat 32 (Layout.start (blockLengths m) k))
  lbaLength := BitVec.ofNat 32 n
  numOfBlocks := BitVec.ofNat 32 (runEnd m k - k)

theorem start_replicate_append {c n : Nat} {rest : List Nat} {k : Nat} (h : k ≤ c) :
    Layout.start (List.replicate c n ++ rest) k = k * n := by
  rw [Layout.start, List.take_append_of_le_length (by simpa using h), List.take_replicate,
    List.sum_replicate_nat, Nat.min_eq_left h]

theorem start_replicate_append_add {c n : Nat} {rest : List Nat} {k : Nat} :
    Layout.start (List.replicate c n ++ rest) (c + k) = c * n + Layout.start rest k := by
  have htake : (List.replicate c n ++ rest).take ((List.replicate c n).length + k) =
      List.replicate c n ++ rest.take k := List.take_length_add_append k
  rw [List.length_replicate] at htake
  rw [Layout.start, htake, List.sum_append, List.sum_replicate_nat, Layout.start]

theorem findLba_eq (v : Volume) (lba : BitVec 64) : ∀ (m : List BlockMapEntry) (startLba : BitVec 64)
    (offset : BitVec 32), startLba.toNat ≤ lba.toNat →
    startLba.toNat + (blockLengths m).length < 2 ^ 64 →
    findLba v lba m startLba offset = match (blockLengths m)[lba.toNat - startLba.toNat]? with
      | none => .error .invalidParameter
      | some n => .ok (lbaInfoAt v m offset (lba.toNat - startLba.toNat) n) := by
  intro m
  induction m with
  | nil => intro startLba offset _ _; rfl
  | cons e m ih =>
    intro startLba offset hle hlen
    unfold findLba
    by_cases hends : e.Ends
    · have hnil : blockLengths (e :: m) = [] := if_pos hends
      rw [if_pos hends, hnil]
      rfl
    have hcons : blockLengths (e :: m) = List.replicate e.numBlocks.toNat e.length.toNat ++ blockLengths m :=
      if_neg hends
    rw [hcons, List.length_append, List.length_replicate] at hlen
    have hnext : (startLba + e.numBlocks.setWidth 64).toNat = startLba.toNat + e.numBlocks.toNat := by
      rw [BitVec.toNat_add, BitVec.toNat_setWidth, Nat.mod_eq_of_lt (a := e.numBlocks.toNat) (by omega),
        Nat.mod_eq_of_lt (by omega)]
    rw [if_neg hends, hcons]
    by_cases hhere : lba.toNat < startLba.toNat + e.numBlocks.toNat
    · have hk : lba.toNat - startLba.toNat < e.numBlocks.toNat := by omega
      have hmem : startLba ≤ lba ∧ lba < startLba + e.numBlocks.setWidth 64 :=
        ⟨hle, by rw [BitVec.lt_def, hnext]; exact hhere⟩
      have hsub : (lba - startLba).toNat = lba.toNat - startLba.toNat := BitVec.toNat_sub_of_le hle
      have hoffset : ((lba - startLba) * e.length.setWidth 64).setWidth 32 =
          BitVec.ofNat 32 ((lba.toNat - startLba.toNat) * e.length.toNat) := by
        apply BitVec.eq_of_toNat_eq
        have hdvd : 2 ^ 32 ∣ 2 ^ 64 := by decide
        rw [BitVec.toNat_setWidth, BitVec.toNat_mul, hsub, BitVec.toNat_setWidth,
          Nat.mod_eq_of_lt (a := e.length.toNat) (by omega), Nat.mod_mod_of_dvd _ hdvd, BitVec.toNat_ofNat]
      have hleft : (startLba + e.numBlocks.setWidth 64 - lba).setWidth 32 =
          BitVec.ofNat 32 (e.numBlocks.toNat - (lba.toNat - startLba.toNat)) := by
        apply BitVec.eq_of_toNat_eq
        rw [BitVec.toNat_setWidth, BitVec.toNat_sub_of_le (Nat.le_of_lt hmem.2), hnext, BitVec.toNat_ofNat]
        congr 1
        omega
      rw [if_pos hmem, List.getElem?_append_left (by simpa using hk), List.getElem?_replicate, if_pos hk]
      show Except.ok _ = Except.ok _
      rw [hoffset, hleft, lbaInfoAt, hcons, start_replicate_append (by omega), runEnd, if_neg hends,
        if_pos hk, BitVec.ofNat_toNat, BitVec.setWidth_eq]
    · have hnot : ¬ (startLba ≤ lba ∧ lba < startLba + e.numBlocks.setWidth 64) := by
        rw [BitVec.lt_def, hnext]
        exact fun hc => hhere hc.2
      have hk : lba.toNat - startLba.toNat =
          e.numBlocks.toNat + (lba.toNat - (startLba.toNat + e.numBlocks.toNat)) := by omega
      rw [if_neg hnot, ih _ _ (by rw [hnext]; omega) (by rw [hnext]; omega), hnext,
        List.getElem?_append_right (by rw [List.length_replicate]; omega), List.length_replicate]
      have hidx : lba.toNat - startLba.toNat - e.numBlocks.toNat =
          lba.toNat - (startLba.toNat + e.numBlocks.toNat) := by omega
      rw [hidx]
      cases (blockLengths m)[lba.toNat - (startLba.toNat + e.numBlocks.toNat)]? with
      | none => rfl
      | some n =>
        generalize lba.toNat - (startLba.toNat + e.numBlocks.toNat) = k at hk
        have hstart : offset + e.numBlocks * e.length + BitVec.ofNat 32 (Layout.start (blockLengths m) k) =
            offset + BitVec.ofNat 32 (e.numBlocks.toNat * e.length.toNat +
              Layout.start (blockLengths m) k) := by
          rw [BitVec.ofNat_add, BitVec.ofNat_mul, BitVec.ofNat_toNat, BitVec.ofNat_toNat,
            BitVec.setWidth_eq, BitVec.setWidth_eq, BitVec.add_assoc]
        show Except.ok _ = Except.ok _
        rw [lbaInfoAt, lbaInfoAt, hk, hcons, start_replicate_append_add, hstart, runEnd, if_neg hends,
          if_neg (by omega), Nat.add_sub_cancel_left, Nat.add_sub_add_left]

/-! ## Addresses -/

section Volume

variable {v : Volume}

theorem fvbGetLbaAddress_eq (hsize : v.blocks.sum < 2 ^ 32) (lba : BitVec 64) :
    fvbGetLbaAddress v lba = match v.blocks[lba.toNat]? with
      | none => .error .invalidParameter
      | some n => .ok (lbaInfoAt v v.blockMap 0 lba.toNat n) := by
  have hlen := length_blockLengths_le v.blockMap
  have hsum : v.blocks.sum = (blockLengths v.blockMap).sum := rfl
  exact findLba_eq v lba v.blockMap 0 0 (Nat.zero_le _) (by
    show 0 + _ < _
    omega)

theorem fvbGetLbaAddress_of_block (hsize : v.blocks.sum < 2 ^ 32) {lba : BitVec 64} {n : Nat}
    (hn : v.blocks[lba.toNat]? = some n) :
    fvbGetLbaAddress v lba = .ok (lbaInfoAt v v.blockMap 0 lba.toNat n) := by
  rw [fvbGetLbaAddress_eq hsize, hn]

theorem fvbGetLbaAddress_of_none (hsize : v.blocks.sum < 2 ^ 32) {lba : BitVec 64}
    (hn : v.blocks[lba.toNat]? = none) : fvbGetLbaAddress v lba = .error .invalidParameter := by
  rw [fvbGetLbaAddress_eq hsize, hn]

theorem block_le_sum {k n : Nat} (hn : v.blocks[k]? = some n) : n ≤ v.blocks.sum := by
  have := Layout.start_add_le hn
  omega

theorem of_fvbGetLbaAddress (hsize : v.blocks.sum < 2 ^ 32) {lba : BitVec 64} {info : LbaInfo}
    (h : fvbGetLbaAddress v lba = .ok info) :
    ∃ n, v.blocks[lba.toNat]? = some n ∧ info = lbaInfoAt v v.blockMap 0 lba.toNat n ∧
      info.lbaLength.toNat = n := by
  rw [fvbGetLbaAddress_eq hsize] at h
  cases hn : v.blocks[lba.toNat]? with
  | none => rw [hn] at h; cases h
  | some n =>
    rw [hn] at h
    injection h with h
    have hle := block_le_sum hn
    refine ⟨n, rfl, h.symm, ?_⟩
    rw [← h]
    show (BitVec.ofNat 32 n).toNat = n
    rw [BitVec.toNat_ofNat, Nat.mod_eq_of_lt (by omega)]

theorem runEnd_le_length (m : List BlockMapEntry) (k : Nat) : runEnd m k ≤ (blockLengths m).length := by
  induction m generalizing k with
  | nil => exact Nat.le_refl 0
  | cons e m ih =>
    unfold runEnd blockLengths
    by_cases hends : e.Ends
    · rw [if_pos hends]
      exact Nat.zero_le _
    · rw [if_neg hends, if_neg hends, List.length_append, List.length_replicate]
      have := ih (k - e.numBlocks.toNat)
      by_cases hk : k < e.numBlocks.toNat
      · rw [if_pos hk]
        omega
      · rw [if_neg hk]
        omega

theorem add_ofNat_inj {base : BitVec 32} {x y : Nat} (hx : x < 2 ^ 32) (hy : y < 2 ^ 32)
    (h : base + BitVec.ofNat 32 x = base + BitVec.ofNat 32 y) : x = y := by
  have h := congrArg BitVec.toNat (BitVec.add_right_inj base |>.mp h)
  rwa [BitVec.toNat_ofNat, BitVec.toNat_ofNat, Nat.mod_eq_of_lt hx, Nat.mod_eq_of_lt hy] at h

theorem lbaAddress_add (m : List BlockMapEntry) (k n o : Nat) :
    (lbaInfoAt v m 0 k n).lbaAddress + BitVec.ofNat 32 o =
      v.fvBase + BitVec.ofNat 32 (Layout.start (blockLengths m) k + o) := by
  show v.fvBase + (0#32 + _) + _ = _
  rw [BitVec.zero_add, BitVec.add_assoc, ← BitVec.ofNat_add]

/-- The blocks of a terminated map tile the volume: a block is found exactly if there is one, with the sum
of the lengths before it, its own length and the blocks left in its run, and every byte of the volume has
one block and offset. -/
theorem fvbGetLbaAddress_tiles (v : Volume) (hsize : v.blocks.sum < 2 ^ 32) :
    (∀ lba, (∃ info, fvbGetLbaAddress v lba = .ok info) ↔ lba.toNat < v.blocks.length) ∧
    (∀ lba info, fvbGetLbaAddress v lba = .ok info →
      info.lbaAddress = v.fvBase + BitVec.ofNat 32 (v.blocks.take lba.toNat).sum ∧
      info.lbaWriteAddress = v.fvWriteBase + BitVec.ofNat 32 (v.blocks.take lba.toNat).sum ∧
      v.blocks[lba.toNat]? = some info.lbaLength.toNat ∧
      info.numOfBlocks.toNat = runEnd v.blockMap lba.toNat - lba.toNat) ∧
    (∀ lba lba' info info' o o', fvbGetLbaAddress v lba = .ok info →
      fvbGetLbaAddress v lba' = .ok info' → o < info.lbaLength.toNat → o' < info'.lbaLength.toNat →
      info.lbaAddress + BitVec.ofNat 32 o = info'.lbaAddress + BitVec.ofNat 32 o' →
      lba = lba' ∧ o = o') ∧
    ∀ x < v.blocks.sum, ∃ lba info o, fvbGetLbaAddress v lba = .ok info ∧ o < info.lbaLength.toNat ∧
      info.lbaAddress + BitVec.ofNat 32 o = v.fvBase + BitVec.ofNat 32 x := by
  have hcount : v.blocks.length ≤ v.blocks.sum := length_blockLengths_le v.blockMap
  refine ⟨fun lba => ⟨?_, fun hlt => ?_⟩, fun lba info hinfo => ?_, ?_, fun x hx => ?_⟩
  · rintro ⟨info, hinfo⟩
    obtain ⟨n, hn, -, -⟩ := of_fvbGetLbaAddress hsize hinfo
    exact (List.getElem?_eq_some_iff.mp hn).1
  · exact ⟨_, fvbGetLbaAddress_of_block hsize (List.getElem?_eq_getElem hlt)⟩
  · obtain ⟨n, hn, rfl, hlen⟩ := of_fvbGetLbaAddress hsize hinfo
    have hend : runEnd v.blockMap lba.toNat ≤ v.blocks.length := runEnd_le_length _ _
    refine ⟨?_, ?_, by rw [hlen, hn], ?_⟩
    · show v.fvBase + (0#32 + _) = _
      rw [BitVec.zero_add]
      rfl
    · show v.fvWriteBase + (0#32 + _) = _
      rw [BitVec.zero_add]
      rfl
    · show (BitVec.ofNat 32 _).toNat = _
      rw [BitVec.toNat_ofNat, Nat.mod_eq_of_lt (by omega)]
  · intro lba lba' info info' o o' hinfo hinfo' ho ho' heq
    obtain ⟨n, hn, rfl, hlen⟩ := of_fvbGetLbaAddress hsize hinfo
    obtain ⟨n', hn', rfl, hlen'⟩ := of_fvbGetLbaAddress hsize hinfo'
    rw [hlen] at ho
    rw [hlen'] at ho'
    have hle : v.start lba.toNat + n ≤ v.blocks.sum := Layout.start_add_le hn
    have hle' : v.start lba'.toNat + n' ≤ v.blocks.sum := Layout.start_add_le hn'
    rw [lbaAddress_add, lbaAddress_add] at heq
    have hplace : v.start lba.toNat + o = v.start lba'.toNat + o' :=
      add_ofNat_inj (show v.start lba.toNat + o < _ by omega) (show v.start lba'.toNat + o' < _ by omega) heq
    have hlba := Layout.block_unique hn hn' (x := v.start lba.toNat + o)
      ⟨Nat.le_add_right _ _, Nat.add_lt_add_left ho _⟩
      ⟨by rw [hplace]; exact Nat.le_add_right _ _, by rw [hplace]; exact Nat.add_lt_add_left ho' _⟩
    rw [hlba] at hplace
    exact ⟨BitVec.eq_of_toNat_eq hlba, by omega⟩
  · obtain ⟨k, n, hn, hle, hlt⟩ := Layout.exists_block hx
    obtain ⟨hk, -⟩ := List.getElem?_eq_some_iff.mp hn
    have hlba : (BitVec.ofNat 64 k).toNat = k := by
      rw [BitVec.toNat_ofNat, Nat.mod_eq_of_lt (by omega)]
    have hn' : v.blocks[(BitVec.ofNat 64 k).toNat]? = some n := by rw [hlba]; exact hn
    have hblock := fvbGetLbaAddress_of_block hsize hn'
    rw [hlba] at hblock
    have hlen := block_le_sum hn
    refine ⟨_, _, x - Layout.start v.blocks k, hblock, ?_, ?_⟩
    · show x - Layout.start v.blocks k < (BitVec.ofNat 32 n).toNat
      rw [BitVec.toNat_ofNat, Nat.mod_eq_of_lt (by omega)]
      omega
    · rw [lbaAddress_add]
      congr 2
      show Layout.start v.blocks k + (x - Layout.start v.blocks k) = x
      omega

/-- A volume of two blocks of one sector and one of two, of which the last is found. -/
theorem fvbGetLbaAddress_tiles_runs :
    ∃ info, fvbGetLbaAddress ⟨0xFF900000, 0xFF900000, 3, true, 0x36, [⟨2, 0x1000⟩, ⟨1, 0x2000⟩]⟩ 2 =
      .ok info ∧ info.lbaAddress = 0xFF902000 := by
  obtain ⟨hfound, hinfo, -⟩ := fvbGetLbaAddress_tiles
    ⟨0xFF900000, 0xFF900000, 3, true, 0x36, [⟨2, 0x1000⟩, ⟨1, 0x2000⟩]⟩ (by decide)
  obtain ⟨info, hok⟩ := (hfound 2).mpr (by decide)
  exact ⟨info, hok, (hinfo 2 info hok).1⟩

end Volume

/-! ## The attributes of a volume

`FvbSetVolumeAttributes` merges the status bits of a request into the header, if the capability bits allow
them and the volume is not locked. What one request keeps, every run of requests keeps.
-/

structure Consistent (a : BitVec 32) : Prop where
  read : a &&& Attr.readStatus ≠ 0 → a &&& Attr.readEnabledCap ≠ 0
  write : a &&& Attr.writeStatus ≠ 0 → a &&& Attr.writeEnabledCap ≠ 0
  lock : a &&& Attr.lockStatus ≠ 0 → a &&& Attr.lockCap ≠ 0

/-- The status bits of a request are ones that a volume with attributes `old` may have. -/
structure Permitted (old a : BitVec 32) : Prop where
  readEnabled : a &&& Attr.readStatus ≠ 0 → old &&& Attr.readEnabledCap ≠ 0
  readDisabled : a &&& Attr.readStatus = 0 → old &&& Attr.readDisabledCap ≠ 0
  writeEnabled : a &&& Attr.writeStatus ≠ 0 → old &&& Attr.writeEnabledCap ≠ 0
  writeDisabled : a &&& Attr.writeStatus = 0 → old &&& Attr.writeDisabledCap ≠ 0
  lock : a &&& Attr.lockStatus ≠ 0 → old &&& Attr.lockCap ≠ 0

/-! ## One request -/

theorem and_and_of_covered {x mask m : BitVec 32} (h : mask &&& m = m) : x &&& mask &&& m = x &&& m := by
  rw [BitVec.and_assoc, h]

theorem fvbSetVolumeAttributes_cases (old a : BitVec 32) :
    ((fvbSetVolumeAttributes old a).1 ≠ .success ∧ (fvbSetVolumeAttributes old a).2 = (old, a)) ∨
    (fvbSetVolumeAttributes old a =
        (.success, merge old a Attr.status, merge old a Attr.status) ∧ Permitted old a ∧
      (old &&& Attr.lockStatus ≠ 0 → old &&& Attr.status = a &&& Attr.status)) := by
  have hread : a &&& Attr.status &&& Attr.readStatus = a &&& Attr.readStatus :=
    and_and_of_covered (by decide)
  have hwrite : a &&& Attr.status &&& Attr.writeStatus = a &&& Attr.writeStatus :=
    and_and_of_covered (by decide)
  have hlock : a &&& Attr.status &&& Attr.lockStatus = a &&& Attr.lockStatus :=
    and_and_of_covered (by decide)
  have hcap : ∀ m, Attr.capabilities &&& m = m → old &&& Attr.capabilities &&& m = old &&& m :=
    fun m h => and_and_of_covered h
  unfold fvbSetVolumeAttributes
  simp only [hread, hwrite, hlock]
  rw [hcap Attr.readDisabledCap (by decide), hcap Attr.readEnabledCap (by decide),
    hcap Attr.writeDisabledCap (by decide), hcap Attr.writeEnabledCap (by decide),
    hcap Attr.lockCap (by decide)]
  by_cases hlocked : old &&& Attr.lockStatus ≠ 0 ∧ (old &&& Attr.status) ^^^ (a &&& Attr.status) ≠ 0
  · rw [if_pos hlocked]
    exact .inl ⟨nofun, rfl⟩
  rw [if_neg hlocked]
  by_cases h₁ : old &&& Attr.readDisabledCap = 0 ∧ a &&& Attr.readStatus = 0
  · rw [if_pos h₁]
    exact .inl ⟨nofun, rfl⟩
  rw [if_neg h₁]
  by_cases h₂ : old &&& Attr.readEnabledCap = 0 ∧ a &&& Attr.readStatus ≠ 0
  · rw [if_pos h₂]
    exact .inl ⟨nofun, rfl⟩
  rw [if_neg h₂]
  by_cases h₃ : old &&& Attr.writeDisabledCap = 0 ∧ a &&& Attr.writeStatus = 0
  · rw [if_pos h₃]
    exact .inl ⟨nofun, rfl⟩
  rw [if_neg h₃]
  by_cases h₄ : old &&& Attr.writeEnabledCap = 0 ∧ a &&& Attr.writeStatus ≠ 0
  · rw [if_pos h₄]
    exact .inl ⟨nofun, rfl⟩
  rw [if_neg h₄]
  by_cases h₅ : old &&& Attr.lockCap = 0 ∧ a &&& Attr.lockStatus ≠ 0
  · rw [if_pos h₅]
    exact .inl ⟨nofun, rfl⟩
  rw [if_neg h₅]
  have hmask : (0xFFFFFFFF : BitVec 32) &&& ~~~Attr.status = ~~~Attr.status := by decide
  rw [hmask]
  refine .inr ⟨rfl, ⟨fun h hz => h₂ ⟨hz, h⟩, fun h hz => h₁ ⟨hz, h⟩, fun h hz => h₄ ⟨hz, h⟩,
    fun h hz => h₃ ⟨hz, h⟩, fun h hz => h₅ ⟨hz, h⟩⟩, fun hl => ?_⟩
  by_contra hne
  exact hlocked ⟨hl, fun hz => hne (BitVec.xor_eq_zero_iff.mp hz)⟩

abbrev afterRequest (old a : BitVec 32) : BitVec 32 := (fvbSetVolumeAttributes old a).2.1

structure Follows (old now : BitVec 32) : Prop where
  kept : now &&& ~~~Attr.status = old &&& ~~~Attr.status
  consistent : Consistent old → Consistent now
  locked : old &&& Attr.lockStatus ≠ 0 → now = old

theorem Follows.refl (a : BitVec 32) : Follows a a := ⟨rfl, id, fun _ => rfl⟩

theorem Follows.trans {a b c : BitVec 32} (h : Follows a b) (h' : Follows b c) : Follows a c where
  kept := h'.kept.trans h.kept
  consistent := h'.consistent ∘ h.consistent
  locked := by
    intro hl
    have hb := h.locked hl
    rw [h'.locked (hb.symm ▸ hl), hb]

theorem follows_afterRequest (old a : BitVec 32) : Follows old (afterRequest old a) := by
  rcases fvbSetVolumeAttributes_cases old a with ⟨-, hsame⟩ | ⟨heq, hpermitted, hlocked⟩
  · have hheader : afterRequest old a = old := congrArg Prod.fst hsame
    rw [hheader]
    exact Follows.refl old
  · have hheader : afterRequest old a = merge old a Attr.status := by
      unfold afterRequest
      rw [heq]
    have hcap : ∀ m, Attr.status &&& m = 0 → merge old a Attr.status &&& m = old &&& m :=
      fun m h => merge_and_apart h
    have hstatus : ∀ m, Attr.status &&& m = m → merge old a Attr.status &&& m = a &&& m :=
      fun m h => merge_and_covered h
    rw [hheader]
    refine ⟨hcap _ (by decide), fun _ => ⟨?_, ?_, ?_⟩, fun hl => merge_of_agree (hlocked hl)⟩
    · rw [hstatus _ (by decide), hcap _ (by decide)]
      exact hpermitted.readEnabled
    · rw [hstatus _ (by decide), hcap _ (by decide)]
      exact hpermitted.writeEnabled
    · rw [hstatus _ (by decide), hcap _ (by decide)]
      exact hpermitted.lock

/-! ## Runs -/

def afterRequests (a : BitVec 32) (requests : List (BitVec 32)) : BitVec 32 := requests.foldl afterRequest a

theorem follows_afterRequests (a : BitVec 32) (requests : List (BitVec 32)) :
    Follows a (afterRequests a requests) := by
  induction requests generalizing a with
  | nil => exact Follows.refl a
  | cons r requests ih => exact (follows_afterRequest a r).trans (ih (afterRequest a r))

/-- After any run of requests on a consistent header, the bits outside the status are as they were, the
status bits that are set are permitted, a rejected request changes nothing, and once the volume is locked
no request changes the status. -/
theorem fvbSetVolumeAttributes_run (a : BitVec 32) (hconsistent : Consistent a)
    (requests : List (BitVec 32)) :
    afterRequests a requests &&& ~~~Attr.status = a &&& ~~~Attr.status ∧
    Consistent (afterRequests a requests) ∧
    (∀ r, (fvbSetVolumeAttributes (afterRequests a requests) r).1 ≠ .success →
      (fvbSetVolumeAttributes (afterRequests a requests) r).2 = (afterRequests a requests, r)) ∧
    ∀ more, afterRequests a requests &&& Attr.lockStatus ≠ 0 →
      afterRequests a (requests ++ more) = afterRequests a requests := by
  have hfollows := follows_afterRequests a requests
  refine ⟨hfollows.kept, hfollows.consistent hconsistent, fun r hr => ?_, fun more hl => ?_⟩
  · rcases fvbSetVolumeAttributes_cases (afterRequests a requests) r with ⟨-, hsame⟩ | ⟨heq, -, -⟩
    · exact hsame
    · rw [heq] at hr
      exact absurd rfl hr
  · have happend : afterRequests a (requests ++ more) = afterRequests (afterRequests a requests) more :=
      List.foldl_append
    rw [happend]
    exact (follows_afterRequests _ more).locked hl

theorem fvbSetVolumeAttributes_run_locked :
    afterRequests 0x76 ([0xA4] ++ [0x84]) = afterRequests 0x76 [0xA4] := by
  have hconsistent : Consistent 0x76 := ⟨by decide, by decide, by decide⟩
  exact (fvbSetVolumeAttributes_run 0x76 hconsistent [0xA4]).2.2.2 [0x84] (by decide)

end Quark.Fvb
