import Mathlib.Data.UInt
import Mathlib.Tactic.Ring

/-!
# A 32-bit byte-addressed machine

Addresses and `UINT32` values are natural numbers below `2 ^ 32`; the arithmetic of the source is
`u32` of the arithmetic of the naturals. A memory is a function from addresses to bytes, and
multi-byte values are little-endian.
-/

namespace Quark.Machine

/-- Truncation to `UINT32`, and to `UINTN` and pointers on IA32. -/
def u32 (n : Nat) : Nat := n % 0x100000000

/-- `UINT32` subtraction. -/
def sub32 (a b : Nat) : Nat := u32 (0x100000000 + a - b)

theorem u32_lt (n : Nat) : u32 n < 0x100000000 := Nat.mod_lt _ (by decide)

theorem u32_of_lt {n : Nat} (h : n < 0x100000000) : u32 n = n := Nat.mod_eq_of_lt h

theorem sub32_of_le {a b : Nat} (h : b ≤ a) (ha : a < 0x100000000) : sub32 a b = a - b := by
  have e : 0x100000000 + a - b = (a - b) + 0x100000000 := by omega
  rw [sub32, e, u32, Nat.add_mod_right, Nat.mod_eq_of_lt (by omega)]

abbrev Mem := Nat → UInt8

namespace Mem

/-- The `UINT16` at an address. -/
def rd16 (m : Mem) (a : Nat) : Nat := (m (u32 a)).toNat + 256 * (m (u32 (a + 1))).toNat

/-- The `UINT32` at an address. -/
def rd32 (m : Mem) (a : Nat) : Nat := m.rd16 a + 65536 * m.rd16 (a + 2)

/-- The `UINT64` at an address. -/
def rd64 (m : Mem) (a : Nat) : Nat := m.rd32 a + 0x100000000 * m.rd32 (a + 4)

/-- The memory that holds the given `UINT32`s at the given addresses, and zeros. -/
def ofWords (words : List (Nat × Nat)) : Mem := fun a =>
  match words.find? fun w => w.1 ≤ a ∧ a < w.1 + 4 with
  | some w => UInt8.ofNat (w.2 / 256 ^ (a - w.1))
  | none => 0

def bytes (m : Mem) (a : Nat) (n : Nat) : List UInt8 := (List.range n).map fun k => m (u32 (a + k))

/-- The byte `k` of a `UINT32`. -/
def byteOf (v k : Nat) : UInt8 := UInt8.ofNat (v / 256 ^ k)

/-- Store a `UINT32`. -/
def wr32 (m : Mem) (a v : Nat) : Mem := fun x =>
  let k := sub32 x (u32 a)
  if k < 4 then byteOf v k else m x

/-- `CopyMem`: `n` bytes from `src`, as the reader `rd` sees them, to `dst`. The ranges may
overlap. -/
def copy (m : Mem) (rd : Mem) (dst src n : Nat) : Mem := fun x =>
  let k := sub32 x (u32 dst)
  if k < n then rd (u32 (src + k)) else m x

theorem rd16_lt (m : Mem) (a : Nat) : m.rd16 a < 65536 := by
  have h0 := (m (u32 a)).toNat_lt
  have h1 := (m (u32 (a + 1))).toNat_lt
  unfold rd16
  omega

theorem rd32_lt (m : Mem) (a : Nat) : m.rd32 a < 0x100000000 := by
  have h0 := m.rd16_lt a
  have h1 := m.rd16_lt (a + 2)
  unfold rd32
  omega

theorem length_bytes (m : Mem) (a n : Nat) : (m.bytes a n).length = n := by simp [bytes]

/-! ## Reads that see the same bytes -/

theorem rd16_congr {m m' : Mem} {a : Nat} (h : ∀ k < 2, m (u32 (a + k)) = m' (u32 (a + k))) :
    m.rd16 a = m'.rd16 a := by
  have h0 := h 0 (by decide)
  have h1 := h 1 (by decide)
  unfold rd16
  rw [Nat.add_zero] at h0
  rw [h0, h1]

theorem rd32_congr {m m' : Mem} {a : Nat} (h : ∀ k < 4, m (u32 (a + k)) = m' (u32 (a + k))) :
    m.rd32 a = m'.rd32 a := by
  have hlo : m.rd16 a = m'.rd16 a := rd16_congr fun k hk => h k (by omega)
  have hhi : m.rd16 (a + 2) = m'.rd16 (a + 2) :=
    rd16_congr fun k hk => by rw [Nat.add_assoc]; exact h (2 + k) (by omega)
  unfold rd32
  rw [hlo, hhi]

theorem bytes_congr {m m' : Mem} {a n : Nat} (h : ∀ k < n, m (u32 (a + k)) = m' (u32 (a + k))) :
    m.bytes a n = m'.bytes a n :=
  List.map_congr_left fun k hk => h k (List.mem_range.mp hk)

theorem bytes_append (m : Mem) (a n k : Nat) :
    m.bytes a (n + k) = m.bytes a n ++ m.bytes (a + n) k := by
  unfold bytes
  rw [List.range_add, List.map_append, List.map_map]
  congr 1
  refine List.map_congr_left fun i _ => ?_
  show m (u32 (a + (n + i))) = m (u32 (a + n + i))
  rw [Nat.add_assoc]

theorem bytes_u32 (m : Mem) (a n : Nat) : m.bytes (u32 a) n = m.bytes a n := by
  unfold bytes u32
  refine List.map_congr_left fun k _ => ?_
  rw [Nat.mod_add_mod]

theorem bytes_succ (m : Mem) (a n : Nat) : m.bytes a (n + 1) = m (u32 a) :: m.bytes (a + 1) n := by
  rw [Nat.add_comm n 1, bytes_append]
  rfl

theorem getD_bytes {m : Mem} {a n k : Nat} (h : k < n) : (m.bytes a n).getD k 0 = m (u32 (a + k)) := by
  unfold bytes
  rw [List.getD_eq_getElem?_getD, List.getElem?_map, List.getElem?_range h]
  rfl

theorem bytes_add (m : Mem) {a n k j : Nat} (h : k + j ≤ n) :
    m.bytes (a + k) j = ((m.bytes a n).drop k).take j := by
  obtain ⟨i, rfl⟩ := Nat.exists_eq_add_of_le h
  rw [Nat.add_assoc, bytes_append, bytes_append, List.drop_left' (length_bytes m a k),
    List.take_left' (length_bytes m (a + k) j)]

theorem rd32_of_bytes {m m' : Mem} {a b n k : Nat} (h : m.bytes a n = m'.bytes b n) (hk : k + 4 ≤ n) :
    m.rd32 (a + k) = m'.rd32 (b + k) := by
  have hbyte : ∀ i < 4, m (u32 (a + k + i)) = m' (u32 (b + k + i)) := by
    intro i hi
    have hlt : k + i < n := by omega
    rw [Nat.add_assoc, Nat.add_assoc, ← getD_bytes (m := m) hlt, h, getD_bytes hlt]
  have h0 := hbyte 0 (by decide)
  rw [Nat.add_zero, Nat.add_zero] at h0
  unfold rd32 rd16
  rw [h0, hbyte 1 (by decide), hbyte 2 (by decide), Nat.add_assoc (a + k), Nat.add_assoc (b + k),
    hbyte 3 (by decide)]

/-- Two memories hold the same from `lo` up to `hi`. -/
def Agree (m m' : Mem) (lo hi : Nat) : Prop := ∀ x, lo ≤ x → x < hi → m' x = m x

namespace Agree

variable {m m' m'' : Mem} {lo hi a : Nat}

theorem trans (h : Agree m m' lo hi) (h' : Agree m' m'' lo hi) : Agree m m'' lo hi :=
  fun x hlo hhi => (h' x hlo hhi).trans (h x hlo hhi)

theorem mono {lo' hi' : Nat} (h : Agree m m' lo hi) (hlo : lo ≤ lo') (hhi : hi' ≤ hi) :
    Agree m m' lo' hi' :=
  fun x h₁ h₂ => h x (hlo.trans h₁) (Nat.lt_of_lt_of_le h₂ hhi)

theorem at_add (h : Agree m m' lo hi) (hhi : hi ≤ 0x100000000) (ha : lo ≤ a) {k : Nat}
    (hk : a + k < hi) : m' (u32 (a + k)) = m (u32 (a + k)) := by
  rw [u32_of_lt (Nat.lt_of_lt_of_le hk hhi)]
  exact h (a + k) (ha.trans (Nat.le_add_right a k)) hk

theorem rd32 (h : Agree m m' lo hi) (hhi : hi ≤ 0x100000000) (ha : lo ≤ a) (ha' : a + 4 ≤ hi) :
    m'.rd32 a = m.rd32 a :=
  rd32_congr fun _ _ => h.at_add hhi ha (by omega)

theorem bytes (h : Agree m m' lo hi) (hhi : hi ≤ 0x100000000) {n : Nat} (ha : lo ≤ a)
    (ha' : a + n ≤ hi) : m'.bytes a n = m.bytes a n :=
  bytes_congr fun _ _ => h.at_add hhi ha (by omega)

end Agree

/-! ## Stores -/

theorem sub32_add {a k : Nat} (h : a + k < 0x100000000) : sub32 (a + k) (u32 a) = k := by
  rw [u32_of_lt (by omega), sub32_of_le (by omega) h]
  omega

theorem copy_inside (m rd : Mem) {dst n k : Nat} (src : Nat) (hk : k < n)
    (h : dst + k < 0x100000000) : m.copy rd dst src n (dst + k) = rd (u32 (src + k)) := by
  unfold copy
  rw [sub32_add h]
  exact if_pos hk

theorem copy_outside (m rd : Mem) {dst n x : Nat} (src : Nat) (hdst : dst < 0x100000000)
    (hd : dst + n ≤ 0x100000000) (hx : x < 0x100000000) (h : x < dst ∨ dst + n ≤ x) :
    m.copy rd dst src n x = m x := by
  unfold copy
  refine if_neg ?_
  rw [u32_of_lt hdst]
  unfold sub32 u32
  omega

theorem wr32_outside (m : Mem) {a v x : Nat} (h : ∀ k < 4, x ≠ u32 (a + k))
    (hx : x < 0x100000000) : m.wr32 a v x = m x := by
  unfold wr32
  refine if_neg fun hk => h _ hk ?_
  unfold sub32 u32 at *
  omega

theorem agree_wr32 (m : Mem) {a v lo hi : Nat} (ha : a + 4 ≤ 0x100000000) (hhi : hi ≤ 0x100000000)
    (h : hi ≤ a ∨ a + 4 ≤ lo) : Agree m (m.wr32 a v) lo hi := by
  intro x hlo hx
  refine wr32_outside m (fun k hk => ?_) (by omega)
  rw [u32_of_lt (by omega)]
  omega

theorem agree_copy (m rd : Mem) {dst n src lo hi : Nat} (hdst : dst < 0x100000000)
    (hd : dst + n ≤ 0x100000000) (hhi : hi ≤ 0x100000000) (h : hi ≤ dst ∨ dst + n ≤ lo) :
    Agree m (m.copy rd dst src n) lo hi :=
  fun _ _ _ => copy_outside m rd src hdst hd (by omega) (by omega)

theorem bytes_copy (m rd : Mem) {dst n : Nat} (src : Nat) (h : dst + n ≤ 0x100000000) :
    (m.copy rd dst src n).bytes dst n = rd.bytes src n := by
  refine List.map_congr_left fun k hk => ?_
  have hk := List.mem_range.mp hk
  rw [u32_of_lt (by omega)]
  exact copy_inside m rd src hk (by omega)

theorem rd32_wr32 (m : Mem) {a v : Nat} (ha : a + 4 ≤ 0x100000000) (hv : v < 0x100000000) :
    (m.wr32 a v).rd32 a = v := by
  have hbyte : ∀ k < 4, (m.wr32 a v (u32 (a + k))).toNat = v / 256 ^ k % 256 := by
    intro k hk
    unfold wr32
    rw [u32_of_lt (by omega), sub32_add (by omega)]
    exact (congrArg UInt8.toNat (if_pos hk)).trans UInt8.toNat_ofNat
  have h0 := hbyte 0 (by decide)
  have h1 := hbyte 1 (by decide)
  have h2 := hbyte 2 (by decide)
  have h3 := hbyte 3 (by decide)
  rw [Nat.add_zero] at h0
  unfold rd32 rd16
  rw [h0, h1, h2, Nat.add_assoc, h3]
  omega

end Mem

/-- The half-open range `[base, base + len)`. -/
structure Range where
  base : Nat
  len : Nat
  deriving DecidableEq, Repr

namespace Range

def Inside (r q : Range) : Prop := q.base ≤ r.base ∧ r.base + r.len ≤ q.base + q.len

def Disjoint (r q : Range) : Prop := ∀ a, r.base ≤ a → a < r.base + r.len → ¬ (q.base ≤ a ∧ a < q.base + q.len)

instance (r q : Range) : Decidable (r.Inside q) := inferInstanceAs (Decidable (_ ∧ _))

theorem Disjoint.ends {r q : Range} (h : r.Disjoint q) (hr : 0 < r.len) (hq : 0 < q.len) :
    r.base + r.len ≤ q.base ∨ q.base + q.len ≤ r.base := by
  by_contra hcon
  obtain ⟨h₁, h₂⟩ := not_or.mp hcon
  refine h (max r.base q.base) (Nat.le_max_left _ _) ?_ ⟨Nat.le_max_right _ _, ?_⟩ <;> omega

theorem disjoint_of_ends {r q : Range} (h₁ : ¬ (q.base ≤ r.base ∧ r.base < q.base + q.len))
    (h₂ : ¬ (r.base ≤ q.base ∧ q.base < r.base + r.len)) : r.Disjoint q := by
  intro a h h' ⟨hq, hq'⟩
  by_cases hle : q.base ≤ r.base
  · exact h₁ ⟨hle, by omega⟩
  · exact h₂ ⟨by omega, by omega⟩

end Range

end Quark.Machine
