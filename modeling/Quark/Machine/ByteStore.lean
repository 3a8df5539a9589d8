import Quark.Machine.LittleEndian

/-!
# A store of bytes

A store is written in spans. Spans that follow each other are as good as one span.
-/

namespace Quark.Machine

abbrev ByteStore := Nat → Byte

namespace ByteStore

/-- The store with the bytes at `pos`. -/
def put (store : ByteStore) (pos : Nat) (bytes : List Byte) : ByteStore := fun x =>
  if pos ≤ x then (bytes[x - pos]?).getD (store x) else store x

/-- The `n` bytes at `pos`. -/
def read (store : ByteStore) (pos n : Nat) : List Byte := (List.range n).map fun i => store (pos + i)

@[simp] theorem length_read (store : ByteStore) (pos n : Nat) : (store.read pos n).length = n := by
  simp [read]

@[simp] theorem put_nil (store : ByteStore) (pos : Nat) : store.put pos [] = store := by
  funext x
  simp [put]

theorem put_of_lt {store : ByteStore} {pos : Nat} {bytes : List Byte} {x : Nat} (h : x < pos) :
    store.put pos bytes x = store x := if_neg (Nat.not_le.mpr h)

theorem put_of_ge {store : ByteStore} {pos : Nat} {bytes : List Byte} {x : Nat}
    (h : pos + bytes.length ≤ x) : store.put pos bytes x = store x := by
  unfold put
  rw [if_pos (by omega), List.getElem?_eq_none (by omega)]
  rfl

theorem put_put (store : ByteStore) (pos : Nat) (bytes more : List Byte) :
    (store.put pos bytes).put (pos + bytes.length) more = store.put pos (bytes ++ more) := by
  funext x
  by_cases hlow : x < pos
  · rw [put_of_lt (by omega), put_of_lt hlow, put_of_lt hlow]
  · by_cases hmid : x < pos + bytes.length
    · rw [put_of_lt hmid]
      unfold put
      rw [if_pos (by omega), if_pos (by omega), List.getElem?_append_left (by omega)]
    · unfold put
      rw [if_pos (by omega), if_pos (by omega), if_pos (by omega),
        List.getElem?_append_right (by omega), List.getElem?_eq_none (l := bytes) (by omega),
        Nat.sub_add_eq]
      rfl

theorem read_append (store : ByteStore) (pos n m : Nat) :
    store.read pos n ++ store.read (pos + n) m = store.read pos (n + m) := by
  unfold read
  rw [List.range_add, List.map_append, List.map_map]
  congr 1
  refine List.map_congr_left fun i _ => ?_
  show store (pos + n + i) = store (pos + (n + i))
  rw [Nat.add_assoc]

end ByteStore

end Quark.Machine
