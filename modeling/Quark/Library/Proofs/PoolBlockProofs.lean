import Quark.Library.PoolBlock

/-!
# What a data pool holds

A bigger block starts with the bytes of the old one up to `MaxLen`, so the items and the terminator are still there.
Then the item goes over the terminator, and the terminator behind the item.
-/

namespace Quark.PoolBlock

open Machine

variable {t : Terminator} {items : List (List UInt8)} {block : Block} {m : PoolMemory}

/-! ## Bytes in place of others -/

section

variable {memory memory' src : List UInt8} {offset n k j : Nat}

theorem take_drop_of_take (h : memory'.take n = memory.take n) (hk : k + j ≤ n) :
    (memory'.drop k).take j = (memory.drop k).take j := by
  rw [List.take_drop, List.take_drop, ← Nat.min_eq_left hk, ← List.take_take, h, List.take_take]

end

/-! ## Finding a pool -/

theorem Holds.empty (t : Terminator) (alloc : Served efiPageSize) :
    Holds t [] {
      address := alloc.address
      pool := ⟨u32 (alloc.address + descLen), 0, 0, 0, efiPageSize - descLen⟩
      memory := List.replicate (efiPageSize - descLen) 0 } := by
  have haddress := alloc.address_le
  have hsize : descLen + (List.replicate (efiPageSize - descLen) (0 : UInt8)).length = efiPageSize := by
    rw [List.length_replicate]
    rfl
  have hdata : alloc.address + descLen < alloc.address + efiPageSize := Nat.add_lt_add_left (by decide) _
  exact {
    data_eq := u32_of_lt (hdata.trans_le haddress)
    address_le := (congrArg (alloc.address + ·) hsize).trans_le haddress
    size_lt := hsize.trans_lt (by decide)
    cnt_eq := rfl
    cnt_le := Nat.le_refl 0
    len_eq := rfl
    first := rfl
    termLen_eq := rfl
    terminated := rfl
    room := Nat.zero_le _
    room_terminatorLen := fun h => absurd rfl h
    maxLen_le := (congrArg (· - descLen) hsize).ge }

theorem Holds.moved {new : Block} {maxLen : Nat} (h : Holds t items block) (hpool : new.pool = block.pool)
    (htake : new.memory.take block.pool.maxLen = block.memory.take block.pool.maxLen)
    (haddress : new.address + new.size ≤ 0x100000000) (hsize : new.size < 0x100000000)
    (hmaxLen : block.pool.maxLen ≤ maxLen) (hpos : 0 < maxLen) (hle : maxLen ≤ new.size - descLen) :
    Holds t items { new with
      pool := { new.pool with
        maxLen := maxLen
        data := u32 (new.address + descLen) } } := by
  have hterminated := take_drop_of_take htake h.room
  have hfirst : new.memory.take block.pool.len = block.memory.take block.pool.len :=
    take_drop_of_take (k := 0) htake ((Nat.zero_add _).trans_le (Nat.le_of_add_right_le h.room))
  have hdata : new.address + descLen < new.address + new.size :=
    Nat.add_lt_add_left (Nat.lt_of_sub_pos (hpos.trans_le hle)) _
  rw [hpool]
  exact { h with
    data_eq := u32_of_lt (hdata.trans_le haddress)
    address_le := haddress
    size_lt := hsize
    first := hfirst.trans h.first
    terminated := hterminated.trans h.terminated
    room := h.room.trans hmaxLen
    room_terminatorLen := fun hne => (h.room_terminatorLen hne).trans hmaxLen
    maxLen_le := hle }

theorem Terminator.recorded_pos {cnt : Nat} (h : 0 < cnt) : t.recorded cnt = t.terminator.getD [] :=
  if_neg (Nat.ne_of_gt h)

theorem Terminator.length_le (t : Terminator) : (t.terminator.getD []).length ≤ t.terminatorLen := by
  cases hterminator : t.terminator with
  | none => exact Nat.zero_le _
  | some bytes => exact (t.length_eq bytes hterminator).le

theorem Holds.appended {appendData memory : List UInt8} {termLen : Nat} (h : Holds t items block)
    (hne : 0 < appendData.length)
    (hroom : block.pool.len + appendData.length + t.terminatorLen ≤ block.pool.maxLen)
    (hlength : memory.length = block.memory.length)
    (hfirst : memory.take (block.pool.len + appendData.length) = block.memory.take block.pool.len ++ appendData)
    (htermLen : termLen = (t.terminator.getD []).length)
    (hterminated : (memory.drop (block.pool.len + appendData.length)).take termLen = t.terminator.getD []) :
    Holds t (items ++ [appendData]) { block with
      memory := memory
      pool := { block.pool with
        len := block.pool.len + appendData.length
        cnt := block.pool.cnt + 1
        termLen := termLen } } := by
  have hsize : descLen + memory.length = block.size := congrArg (descLen + ·) hlength
  have hflat : (items ++ [appendData]).flatten = items.flatten ++ appendData := by
    rw [List.flatten_append, List.flatten_singleton]
  have hrecorded := t.recorded_pos (Nat.succ_pos block.pool.cnt)
  have htermLe := t.length_le
  exact {
    data_eq := h.data_eq
    address_le := (congrArg (block.address + ·) hsize).trans_le h.address_le
    size_lt := hsize.trans_lt h.size_lt
    cnt_eq := by rw [List.length_append, ← h.cnt_eq, List.length_singleton]
    cnt_le := Nat.add_le_add h.cnt_le hne
    len_eq := by rw [hflat, List.length_append, ← h.len_eq]
    first := by rw [hfirst, h.first, hflat]
    termLen_eq := by rw [htermLen, hrecorded]
    terminated := by rw [hterminated, hrecorded]
    room := (Nat.add_le_add_left (htermLen.trans_le htermLe) _).trans hroom
    room_terminatorLen := fun _ => hroom
    maxLen_le := h.maxLen_le.trans_eq (congrArg (· - descLen) hsize.symm) }

def zeroChar : Terminator := ⟨some [0, 0], 2, by decide, by simp⟩

def filled (n : Nat) (h : n < 0x100000000) : Bytes :=
  ⟨List.replicate n 1, (congrArg (· < 0x100000000) List.length_replicate).mpr h⟩

/-- A string of `CHAR16` without its zero. Its `StrSize` is a `UINTN`. -/
structure WideString where
  chars : List (BitVec 16)
  nonzero : 0 ∉ chars
  strSize_lt : 2 * (chars.length + 1) < 0x100000000

def charBytes (c : BitVec 16) : List UInt8 := [UInt8.ofNat (c.toNat % 256), UInt8.ofNat (c.toNat / 256)]

def stringBytes (s : WideString) : List UInt8 := (s.chars ++ [0]).flatMap charBytes

theorem length_stringBytes (s : WideString) : (stringBytes s).length = 2 * (s.chars.length + 1) := by
  have hchars : ∀ cs : List (BitVec 16), (cs.flatMap charBytes).length = 2 * cs.length := by
    intro cs
    induction cs with
    | nil => rfl
    | cons c cs ih =>
      rw [List.flatMap_cons, List.length_append, ih, List.length_cons, Nat.mul_succ, Nat.add_comm]
      rfl
  rw [stringBytes, hchars, List.length_append]
  rfl

def platformMultiStringInsert (m : PoolMemory) (multiStrList : Option Block) (insertString : Option WideString) :
    Except Overrun (Option Nat × Option Block) :=
  match insertString with
  | none => pure (none, multiStrList)
  | some s => platformDataPoolAppend m multiStrList
      (some ⟨stringBytes s, (length_stringBytes s).trans_lt s.strSize_lt⟩) zeroChar

def charsOf : List UInt8 → List (BitVec 16)
  | lo :: hi :: rest => BitVec.ofNat 16 (lo.toNat + 256 * hi.toNat) :: charsOf rest
  | _ => []

/-- The strings up to an empty one; `s` is the start of the first of them. There are none when the characters end before
that. -/
def stringsFrom : List (BitVec 16) → List (BitVec 16) → Option (List (List (BitVec 16)))
  | _, [] => none
  | s, c :: rest =>
    if c ≠ 0 then stringsFrom (s ++ [c]) rest
    else if s = [] then some []
    else (stringsFrom [] rest).map (s :: ·)

/-- `VariableNamePosition += StrSize (VariableName)`, from the data of a pool on. -/
def Block.strings (block : Block) : Option (List (List (BitVec 16))) :=
  stringsFrom [] (charsOf (block.memory.take (block.pool.len + block.pool.termLen)))

theorem charsOf_flatMap (cs : List (BitVec 16)) (rest : List UInt8) :
    charsOf (cs.flatMap charBytes ++ rest) = cs ++ charsOf rest := by
  induction cs with
  | nil => rfl
  | cons c cs ih =>
    have hc := c.isLt
    have hvalue : (UInt8.ofNat (c.toNat % 256)).toNat + 256 * (UInt8.ofNat (c.toNat / 256)).toNat = c.toNat := by
      rw [UInt8.toNat_ofNat', UInt8.toNat_ofNat']
      omega
    rw [List.flatMap_cons, List.append_assoc, List.cons_append, ← ih]
    show BitVec.ofNat 16 (_ + _) :: charsOf (cs.flatMap charBytes ++ rest) = _
    rw [hvalue, BitVec.ofNat_toNat, BitVec.setWidth_eq]

theorem stringsFrom_cons {c : BitVec 16} (hc : c ≠ 0) (s rest : List (BitVec 16)) :
    stringsFrom s (c :: rest) = stringsFrom (s ++ [c]) rest := if_pos hc

theorem stringsFrom_zero {s : List (BitVec 16)} (hne : s ≠ []) (rest : List (BitVec 16)) :
    stringsFrom s (0 :: rest) = (stringsFrom [] rest).map (s :: ·) :=
  (if_neg (not_not.mpr rfl)).trans (if_neg hne)

theorem stringsFrom_append {s t : List (BitVec 16)} (ht : 0 ∉ t) (hne : s ++ t ≠ []) (rest : List (BitVec 16)) :
    stringsFrom s (t ++ 0 :: rest) = (stringsFrom [] rest).map ((s ++ t) :: ·) := by
  induction t generalizing s with
  | nil =>
    rw [List.append_nil] at hne ⊢
    rw [List.nil_append, stringsFrom_zero hne]
  | cons c t ih =>
    have hc : c ≠ 0 := fun hzero => ht (hzero ▸ List.mem_cons_self)
    rw [List.cons_append, stringsFrom_cons hc,
      ih (fun hmem => ht (List.mem_cons_of_mem c hmem)) (by simp), List.append_assoc, List.singleton_append]

theorem stringsFrom_strings {strings : List WideString} (h : ∀ s ∈ strings, s.chars ≠ []) :
    stringsFrom [] (strings.flatMap (·.chars ++ [0]) ++ [0]) = some (strings.map WideString.chars) := by
  induction strings with
  | nil => rfl
  | cons s strings ih =>
    rw [List.flatMap_cons, List.append_assoc, List.append_assoc, List.singleton_append,
      stringsFrom_append (s := []) s.nonzero (h s List.mem_cons_self),
      ih fun s hs => h s (List.mem_cons_of_mem _ hs)]
    rfl

theorem Holds.strings {strings : List WideString} {block : Block}
    (h : Holds zeroChar (strings.map stringBytes) block) (hne : strings ≠ []) (hchars : ∀ s ∈ strings, s.chars ≠ []) :
    block.strings = some (strings.map WideString.chars) := by
  have hcnt : 0 < block.pool.cnt := by
    rw [h.cnt_eq, List.length_map]
    exact List.length_pos_iff.mpr hne
  have hbytes : (strings.map stringBytes).flatten = (strings.flatMap (·.chars ++ [0])).flatMap charBytes := by
    rw [← List.flatMap_def, List.flatMap_assoc]
    rfl
  rw [Block.strings, List.take_add, h.first, h.terminated, zeroChar.recorded_pos hcnt, hbytes, charsOf_flatMap]
  exact stringsFrom_strings hchars

def sizeOf (strings : List WideString) : Nat := (strings.map fun s => 2 * (s.chars.length + 1)).sum

end Quark.PoolBlock
