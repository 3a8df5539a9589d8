import Quark.Machine.ByteStore

/-!
# NOR flash

Erasing sets every bit of a sector, and programming can only clear bits. A part programs one page at a
time: the bytes that do not fit behind the first one's place go to the start of the page.
-/

namespace Quark.Machine.ByteStore

def erased : Byte := 0xFF

@[simp] theorem and_erased (b : Byte) : b &&& erased = b := BitVec.and_allOnes

@[simp] theorem erased_and (b : Byte) : erased &&& b = b := BitVec.allOnes_and

/-- The store with the bits cleared that are clear in the bytes at `pos`. -/
def program (store : ByteStore) (pos : Nat) (bytes : List Byte) : ByteStore := fun x =>
  if pos ≤ x then store x &&& (bytes[x - pos]?).getD erased else store x

/-- The store after a program command of a part with pages of `page` bytes. -/
def programPage (page : Nat) (store : ByteStore) (pos : Nat) (bytes : List Byte) : ByteStore := fun x =>
  if x / page = pos / page then
    store x &&& (bytes[(x % page + (page - pos % page)) % page]?).getD erased
  else store x

/-- The store with `n` bytes at `pos` erased. -/
def erase (store : ByteStore) (pos n : Nat) : ByteStore := fun x =>
  if pos ≤ x ∧ x < pos + n then erased else store x

def eraseSectors (size : Nat) (store : ByteStore) (sectors : List Nat) : ByteStore := fun x =>
  if x / size ∈ sectors then erased else store x

variable {store : ByteStore} {pos n x : Nat} {bytes more : List Byte}

@[simp] theorem program_nil (store : ByteStore) (pos : Nat) : store.program pos [] = store := by
  funext x
  simp [program]

theorem program_of_lt (h : x < pos) : store.program pos bytes x = store x := if_neg (Nat.not_le.mpr h)

theorem program_of_ge (h : pos + bytes.length ≤ x) : store.program pos bytes x = store x := by
  unfold program
  rw [if_pos (by omega), List.getElem?_eq_none (by omega)]
  exact and_erased _

theorem program_program (store : ByteStore) (pos : Nat) (bytes more : List Byte) :
    (store.program pos bytes).program (pos + bytes.length) more = store.program pos (bytes ++ more) := by
  funext x
  by_cases hlow : x < pos
  · rw [program_of_lt (by omega), program_of_lt hlow, program_of_lt hlow]
  by_cases hmid : x < pos + bytes.length
  · rw [program_of_lt hmid]
    unfold program
    rw [if_pos (by omega), if_pos (by omega), List.getElem?_append_left (by omega)]
  · rw [program, if_pos (by omega), program_of_ge (by omega), program, if_pos (by omega),
      List.getElem?_append_right (by omega), Nat.sub_add_eq]

theorem programPage_eq_program {page : Nat} (h : pos % page + bytes.length ≤ page) :
    store.programPage page pos bytes = store.program pos bytes := by
  funext x
  have hpos := Nat.div_add_mod pos page
  have hx := Nat.div_add_mod x page
  rcases Nat.eq_zero_or_pos page with rfl | hpage
  · have : bytes = [] := List.length_eq_zero_iff.mp (by omega)
    subst this
    simp [programPage]
  have hposLt := Nat.mod_lt pos hpage
  have hxLt := Nat.mod_lt x hpage
  unfold programPage
  by_cases hq : x / page = pos / page
  · rw [if_pos hq]
    rw [hq] at hx
    generalize page * (pos / page) = base at hpos hx
    by_cases hle : pos ≤ x
    · have hidx : (x % page + (page - pos % page)) % page = x - pos := by
        rw [show x % page + (page - pos % page) = (x - pos) + page by omega, Nat.add_mod_right]
        exact Nat.mod_eq_of_lt (by omega)
      rw [hidx, program, if_pos hle]
    · have hidx : (x % page + (page - pos % page)) % page = page - (pos - x) := by
        rw [show x % page + (page - pos % page) = page - (pos - x) by omega]
        exact Nat.mod_eq_of_lt (by omega)
      rw [hidx, List.getElem?_eq_none (by omega), program_of_lt (by omega)]
      exact and_erased _
  · rw [if_neg hq]
    rcases Nat.lt_or_ge x pos with hlt | hge
    · rw [program_of_lt hlt]
    · have hdiv : pos / page + 1 ≤ x / page := by
        have := Nat.div_le_div_right (c := page) hge
        omega
      have hmul := Nat.mul_le_mul_left page hdiv
      rw [Nat.mul_add, Nat.mul_one] at hmul
      rw [program_of_ge (by omega)]

theorem erase_of_mem (h : pos ≤ x) (h' : x < pos + n) : store.erase pos n x = erased := if_pos ⟨h, h'⟩

theorem erase_of_not_mem (h : ¬ (pos ≤ x ∧ x < pos + n)) : store.erase pos n x = store x := if_neg h

@[simp] theorem erase_zero (store : ByteStore) (pos : Nat) : store.erase pos 0 = store := by
  funext x
  exact erase_of_not_mem (by omega)

theorem program_erase (h : bytes.length ≤ n) (store : ByteStore) (x : Nat) :
    (store.erase pos n).program pos bytes x =
      if pos ≤ x ∧ x < pos + bytes.length then (bytes[x - pos]?).getD erased
      else if pos + bytes.length ≤ x ∧ x < pos + n then erased else store x := by
  by_cases hlow : x < pos
  · rw [program_of_lt hlow, erase_of_not_mem (by omega), if_neg (by omega), if_neg (by omega)]
  by_cases hmid : x < pos + bytes.length
  · rw [program, if_pos (by omega), erase_of_mem (by omega) (by omega), erased_and, if_pos ⟨by omega, hmid⟩]
  · rw [program_of_ge (by omega), if_neg (by omega)]
    exact if_congr (by omega) rfl rfl

theorem erase_erase (store : ByteStore) (pos n m : Nat) :
    (store.erase pos n).erase (pos + n) m = store.erase pos (n + m) := by
  funext x
  by_cases hfirst : x < pos + n
  · rw [erase_of_not_mem (by omega)]
    unfold erase
    exact if_congr (by omega) rfl rfl
  · unfold erase
    rw [if_neg (c := pos ≤ x ∧ x < pos + n) (by omega)]
    exact if_congr (by omega) rfl rfl

@[simp] theorem eraseSectors_nil (size : Nat) (store : ByteStore) : store.eraseSectors size [] = store := by
  funext x
  exact if_neg List.not_mem_nil

theorem eraseSectors_append (size : Nat) (store : ByteStore) (first second : List Nat) :
    (store.eraseSectors size first).eraseSectors size second =
      store.eraseSectors size (first ++ second) := by
  funext x
  unfold eraseSectors
  by_cases hsecond : x / size ∈ second
  · rw [if_pos hsecond, if_pos (List.mem_append_right _ hsecond)]
  · rw [if_neg hsecond]
    exact if_congr (by simp [hsecond]) rfl rfl

theorem erase_eq_eraseSectors {size : Nat} (hsize : 0 < size) (store : ByteStore) (i : Nat) :
    store.erase (i * size) size = store.eraseSectors size [i] := by
  funext x
  unfold erase eraseSectors
  refine if_congr ?_ rfl rfl
  rw [List.mem_singleton, Nat.div_eq_iff hsize, Nat.add_comm]
  omega

end Quark.Machine.ByteStore
