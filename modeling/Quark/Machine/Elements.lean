import Quark.Machine.ByteStore

/-!
# Moving elements

Bytes that are moved element by element: from one place of a store to another, upwards or downwards, and
between two stores whose elements stand wherever they stand.
-/

namespace Quark.Machine

namespace ByteStore

/-- `n` elements of `size` bytes, from the lowest up. -/
def copyUp (size : Nat) : Nat → Nat → Nat → ByteStore → ByteStore
  | 0, _, _, m => m
  | n + 1, dst, src, m => copyUp size n (dst + size) (src + size) (m.put dst (m.read src size))

/-- `n` elements of `size` bytes, from the highest down. -/
def copyDown (size : Nat) : Nat → Nat → Nat → ByteStore → ByteStore
  | 0, _, _, m => m
  | n + 1, dst, src, m =>
    copyDown size n dst src (m.put (dst + n * size) (m.read (src + n * size) size))

/-- The store with the bytes of `src` moved to `dst`, whatever the two ranges have in common. -/
def move (m : ByteStore) (dst src n : Nat) : ByteStore := m.put dst (m.read src n)

/-- The elements from `i` on, `n` of them: each that `ok` lets through goes from its place in the one store to
its place in the other. -/
def transfer (size : Nat) (ok : Nat → Bool) (dstPos srcPos : Nat → Nat) (src : ByteStore) :
    Nat → Nat → ByteStore → ByteStore
  | 0, _, dst => dst
  | n + 1, i, dst =>
    transfer size ok dstPos srcPos src n (i + 1)
      (if ok i then dst.put (dstPos i) (src.read (srcPos i) size) else dst)

/-! ## Reading what was put -/

theorem put_read_of_mem {m store : ByteStore} {dst src n x : Nat} (hlow : dst ≤ x) (hhigh : x < dst + n) :
    m.put dst (store.read src n) x = store (src + (x - dst)) := by
  have hlt : x - dst < n := by omega
  unfold put read
  rw [if_pos hlow, List.getElem?_map, List.getElem?_range hlt]
  rfl

theorem put_read_of_not_mem {m store : ByteStore} {dst src n x : Nat} (h : ¬ (dst ≤ x ∧ x < dst + n)) :
    m.put dst (store.read src n) x = m x := by
  by_cases hlow : x < dst
  · exact put_of_lt hlow
  · exact put_of_ge (by rw [length_read]; omega)

theorem read_put_of_disjoint {m : ByteStore} {pos k n : Nat} {bytes : List Byte}
    (h : k + n ≤ pos ∨ pos + bytes.length ≤ k) : (m.put pos bytes).read k n = m.read k n := by
  refine List.map_congr_left fun i hi => ?_
  have hlt := List.mem_range.mp hi
  rcases h with h | h
  · exact put_of_lt (by omega)
  · exact put_of_ge (by omega)

@[simp] theorem read_zero (store : ByteStore) (pos : Nat) : store.read pos 0 = [] := rfl

theorem put_of_getElem? {m : ByteStore} {pos i : Nat} {bytes : List Byte} {b : Byte}
    (h : bytes[i]? = some b) : m.put pos bytes (pos + i) = b := by
  unfold put
  rw [if_pos (Nat.le_add_right pos i), Nat.add_sub_cancel_left, h]
  rfl

theorem read_put_self {m : ByteStore} {pos : Nat} {bytes : List Byte} :
    (m.put pos bytes).read pos bytes.length = bytes := by
  refine List.ext_getElem? fun i => ?_
  unfold read
  rw [List.getElem?_map]
  by_cases hi : i < bytes.length
  · rw [List.getElem?_range hi, List.getElem?_eq_getElem hi]
    exact congrArg some (put_of_getElem? (List.getElem?_eq_getElem hi))
  · rw [List.getElem?_eq_none (by simpa using hi), List.getElem?_eq_none (by omega)]
    rfl

theorem put_put_before (store : ByteStore) (pos : Nat) (bytes more : List Byte) :
    (store.put (pos + bytes.length) more).put pos bytes = store.put pos (bytes ++ more) := by
  funext x
  by_cases hlow : x < pos
  · rw [put_of_lt hlow, put_of_lt (by omega), put_of_lt hlow]
  · obtain ⟨i, rfl⟩ := Nat.exists_eq_add_of_le (Nat.not_lt.mp hlow)
    by_cases hmid : i < bytes.length
    · have hi := List.getElem?_eq_getElem hmid
      rw [put_of_getElem? hi, put_of_getElem? ((List.getElem?_append_left hmid).trans hi)]
    · rw [put_of_ge (by omega)]
      unfold put
      rw [if_pos (by omega), if_pos (by omega), List.getElem?_append_right (by omega), Nat.sub_add_eq]

/-! ## Overlapping ranges -/

theorem copyUp_eq_move {size n dst src : Nat} {m : ByteStore} (h : dst ≤ src ∨ src + n * size ≤ dst) :
    copyUp size n dst src m = m.move dst src (n * size) := by
  induction n generalizing dst src m with
  | zero =>
    unfold copyUp move
    rw [Nat.zero_mul, read_zero, put_nil]
  | succ n ih =>
    have hsize : (n + 1) * size = size + n * size := by rw [Nat.succ_mul, Nat.add_comm]
    rw [hsize] at h
    have hrest : (m.put dst (m.read src size)).read (src + size) (n * size) = m.read (src + size) (n * size) :=
      read_put_of_disjoint (by rw [length_read]; omega)
    have hput := put_put m dst (m.read src size) (m.read (src + size) (n * size))
    rw [length_read] at hput
    unfold copyUp
    rw [ih (by omega)]
    unfold move
    rw [hrest, hput, read_append, hsize]

theorem copyDown_eq_move {size n dst src : Nat} {m : ByteStore} (h : src ≤ dst) :
    copyDown size n dst src m = m.move dst src (n * size) := by
  induction n generalizing m with
  | zero =>
    unfold copyDown move
    rw [Nat.zero_mul, read_zero, put_nil]
  | succ n ih =>
    have hsize : (n + 1) * size = n * size + size := Nat.succ_mul n size
    have hrest : (m.put (dst + n * size) (m.read (src + n * size) size)).read src (n * size) =
        m.read src (n * size) := read_put_of_disjoint (by omega)
    have hput := put_put_before m dst (m.read src (n * size)) (m.read (src + n * size) size)
    rw [length_read] at hput
    unfold copyDown
    rw [ih]
    unfold move
    rw [hrest, hput, read_append, hsize]

/-! ## Elements of two stores -/

section

variable {size : Nat} {ok : Nat → Bool} {dstPos srcPos : Nat → Nat} {src dst : ByteStore} {n i x : Nat}

theorem transfer_one : transfer size ok dstPos srcPos src 1 i dst =
    if ok i then dst.put (dstPos i) (src.read (srcPos i) size) else dst := rfl

theorem transfer_of_untouched
    (h : ∀ j, i ≤ j → j < i + n → ok j = true → ¬ (dstPos j ≤ x ∧ x < dstPos j + size)) :
    transfer size ok dstPos srcPos src n i dst x = dst x := by
  induction n generalizing i dst with
  | zero => rfl
  | succ n ih =>
    rw [transfer, ih fun j hij hjn => h j (by omega) (by omega)]
    split
    · next hok => exact put_read_of_not_mem (h i (Nat.le_refl i) (by omega) hok)
    · rfl

theorem transfer_of_last {j : Nat} (hij : i ≤ j) (hjn : j < i + n) (hok : ok j = true)
    (hlow : dstPos j ≤ x) (hhigh : x < dstPos j + size)
    (h : ∀ k, j < k → k < i + n → ok k = true → ¬ (dstPos k ≤ x ∧ x < dstPos k + size)) :
    transfer size ok dstPos srcPos src n i dst x = src (srcPos j + (x - dstPos j)) := by
  induction n generalizing i dst with
  | zero => omega
  | succ n ih =>
    rw [transfer]
    rcases Nat.eq_or_lt_of_le hij with rfl | hlt
    · rw [transfer_of_untouched fun k hik hkn => h k (by omega) (by omega), if_pos hok]
      exact put_read_of_mem hlow hhigh
    · exact ih hlt (by omega) fun k hjk hkn => h k hjk (by omega)

theorem transfer_contiguous {d s : Nat} (hdst : ∀ j, dstPos j = d + j * size)
    (hsrc : ∀ j, srcPos j = s + j * size) (hok : ∀ j, i ≤ j → j < i + n → ok j = true) :
    transfer size ok dstPos srcPos src n i dst =
      dst.put (d + i * size) (src.read (s + i * size) (n * size)) := by
  induction n generalizing i dst with
  | zero => rw [transfer, Nat.zero_mul, read_zero, put_nil]
  | succ n ih =>
    have hput := put_put dst (d + i * size) (src.read (s + i * size) size)
      (src.read (s + (i + 1) * size) (n * size))
    have hnext : ∀ q, q + (i + 1) * size = q + i * size + size := by
      intro q
      rw [Nat.succ_mul, Nat.add_assoc]
    have hsize : size + n * size = (n + 1) * size := by rw [Nat.succ_mul, Nat.add_comm]
    rw [length_read] at hput
    rw [transfer, if_pos (hok i (Nat.le_refl i) (by omega)), ih fun j hij hjn => hok j (by omega) (by omega),
      hdst i, hsrc i, hnext d, hput, hnext s, read_append, hsize]

end

end ByteStore

end Quark.Machine
