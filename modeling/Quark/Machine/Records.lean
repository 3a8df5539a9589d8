import Quark.Machine.Exec
import Quark.Machine.Memory

/-!
# Records in memory

Records of different sizes stand one behind the other, each with a header that tells its size. A walk
reads the size of a record to come to the next one.
-/

namespace Quark.Machine

structure Framing where
  /-- The length of a header. -/
  header : Nat
  size : List UInt8 → Nat
  header_pos : 0 < header
  header_le : ∀ bs, header ≤ size bs
  size_append : ∀ bs bs', header ≤ bs.length → size (bs ++ bs') = size bs

@[ext] structure Record (F : Framing) where
  bytes : List UInt8
  framed : bytes.length = F.size bytes

namespace Record

variable {F : Framing}

def length (r : Record F) : Nat := r.bytes.length

def flat (rs : List (Record F)) : List UInt8 := rs.flatMap bytes

/-- Memory holds the records from `a` on. -/
def Laid (m : Mem) (a : Nat) (rs : List (Record F)) : Prop := m.bytes a (flat rs).length = flat rs

instance (m : Mem) (a : Nat) (rs : List (Record F)) : Decidable (Laid m a rs) :=
  inferInstanceAs (Decidable (_ = _))

/-- Memory holds the records from `a` on, and the last one ends at `limit`. -/
structure Fill (m : Mem) (limit a : Nat) (rs : List (Record F)) : Prop where
  laid : Laid m a rs
  stop : a + (flat rs).length = limit

/-- The record that a memory holds at `a`. -/
def read (F : Framing) (m : Mem) (a : Nat) : Record F where
  bytes := m.bytes a (F.size (m.bytes a F.header))
  framed := by
    obtain ⟨k, hk⟩ := Nat.exists_eq_add_of_le (F.header_le (m.bytes a F.header))
    rw [Mem.length_bytes]
    conv_rhs => rw [hk, Mem.bytes_append]
    rw [F.size_append _ _ (Mem.length_bytes m a F.header).ge]

/-- The first of the records from `a` on that `p` holds of: its place and what follows it. -/
def locate (p : Record F → Bool) : Nat → List (Record F) → Option (Nat × Record F × List (Record F))
  | _, [] => none
  | a, r :: rs => if p r then some (a, r, rs) else locate p (a + r.length) rs

variable {m m' : Mem} {a limit : Nat} {r : Record F} {rs rs' : List (Record F)}

theorem header_le (r : Record F) : F.header ≤ r.length := by
  rw [length, r.framed]
  exact F.header_le r.bytes

theorem length_pos (r : Record F) : 0 < r.length := Nat.lt_of_lt_of_le F.header_pos r.header_le

/-! ## Bytes -/

@[simp] theorem flat_nil : flat ([] : List (Record F)) = [] := rfl

@[simp] theorem flat_cons : flat (r :: rs) = r.bytes ++ flat rs := rfl

@[simp] theorem flat_append : flat (rs ++ rs') = flat rs ++ flat rs' := List.flatMap_append

theorem length_le_flat (rs : List (Record F)) : rs.length ≤ (flat rs).length := by
  induction rs with
  | nil => exact Nat.le_refl 0
  | cons r rs ih =>
    have hr : 0 < r.bytes.length := r.length_pos
    rw [flat_cons, List.length_cons, List.length_append]
    omega

theorem length_flat_filter_add (p : Record F → Bool) (rs : List (Record F)) :
    (flat (rs.filter p)).length + (flat (rs.filter fun r => !p r)).length = (flat rs).length := by
  induction rs with
  | nil => rfl
  | cons r rs ih =>
    rw [List.filter_cons, List.filter_cons]
    cases hp : p r
    · simp only [Bool.not_false, if_true, Bool.false_eq_true, if_false, flat_cons, List.length_append]
      omega
    · simp only [Bool.not_true, if_true, Bool.false_eq_true, if_false, flat_cons, List.length_append]
      omega

/-! ## Records laid in memory -/

theorem laid_nil : Laid m a ([] : List (Record F)) := rfl

theorem laid_append : Laid m a (rs ++ rs') ↔ Laid m a rs ∧ Laid m (a + (flat rs).length) rs' := by
  unfold Laid
  rw [flat_append, List.length_append, Mem.bytes_append]
  refine ⟨fun h => List.append_inj h (Mem.length_bytes m a _), ?_⟩
  rintro ⟨h, h'⟩
  rw [h, h']

theorem laid_cons : Laid m a (r :: rs) ↔ m.bytes a r.length = r.bytes ∧ Laid m (a + r.length) rs := by
  have h : flat [r] = r.bytes := by simp
  have hcons : r :: rs = [r] ++ rs := rfl
  rw [hcons, laid_append]
  unfold Laid
  rw [h]
  exact Iff.rfl

theorem Laid.congr (h : Laid m a rs)
    (hm : ∀ k < (flat rs).length, m' (u32 (a + k)) = m (u32 (a + k))) : Laid m' a rs :=
  (Mem.bytes_congr hm).trans h

theorem Fill.nil : Fill m a a ([] : List (Record F)) := ⟨laid_nil, rfl⟩

theorem Fill.tail (h : Fill m limit a (r :: rs)) : Fill m limit (a + r.length) rs := by
  have hstop := h.stop
  rw [flat_cons, List.length_append] at hstop
  exact ⟨(laid_cons.mp h.laid).2, by rw [length]; omega⟩

theorem Fill.bytes (h : Fill m limit a (r :: rs)) : m.bytes a r.length = r.bytes :=
  (laid_cons.mp h.laid).1

theorem Fill.cons (h : m.bytes a r.length = r.bytes) (ht : Fill m limit (a + r.length) rs) :
    Fill m limit a (r :: rs) := by
  have hstop := ht.stop
  rw [length] at hstop
  exact ⟨laid_cons.mpr ⟨h, ht.laid⟩, by rw [flat_cons, List.length_append]; omega⟩

theorem Fill.le (h : Fill m limit a rs) : a ≤ limit := by
  have := h.stop
  omega

theorem Fill.head_le (h : Fill m limit a (r :: rs)) : a + r.length ≤ limit := h.tail.le

theorem Fill.drop (h : Fill m limit a (rs ++ rs')) : Fill m limit (a + (flat rs).length) rs' := by
  have hstop := h.stop
  rw [flat_append, List.length_append] at hstop
  exact ⟨(laid_append.mp h.laid).2, by omega⟩

theorem Fill.congr (h : Fill m limit a rs) (hm : ∀ k, a + k < limit → m' (u32 (a + k)) = m (u32 (a + k))) :
    Fill m' limit a rs := by
  have hstop := h.stop
  exact ⟨h.laid.congr fun k hk => hm k (by omega), hstop⟩

theorem read_length : (read F m a).length = F.size (m.bytes a F.header) := Mem.length_bytes _ _ _

theorem exists_fill (P : Nat → Prop)
    (hstep : ∀ a, P a → a < limit → a + (read F m a).length ≤ limit ∧ P (a + (read F m a).length)) :
    ∀ n a, limit - a ≤ n → P a → a ≤ limit → ∃ rs : List (Record F), Fill m limit a rs := by
  intro n
  induction n with
  | zero =>
    intro a hn _ hle
    obtain rfl : a = limit := by omega
    exact ⟨[], .nil⟩
  | succ n ih =>
    intro a hn hP hle
    by_cases hlt : a < limit
    · obtain ⟨hend, hP'⟩ := hstep a hP hlt
      have hpos := (read F m a).length_pos
      obtain ⟨rs, hrs⟩ := ih _ (by omega) hP' hend
      exact ⟨read F m a :: rs, .cons (congrArg (m.bytes a) read_length) hrs⟩
    · exact ⟨[], ⟨laid_nil, by rw [flat_nil, List.length_nil]; omega⟩⟩

theorem Fill.read_length (h : Fill m limit a (r :: rs)) : (read F m a).length = r.length := by
  obtain ⟨k, hk⟩ := Nat.exists_eq_add_of_le r.header_le
  have hbytes := h.bytes
  rw [Record.read_length, length, r.framed, ← hbytes, hk, Mem.bytes_append,
    F.size_append _ _ (Mem.length_bytes m a F.header).ge]

theorem Fill.unique (h : Fill m limit a rs) (h' : Fill m limit a rs') : rs = rs' := by
  induction rs generalizing a rs' with
  | nil =>
    cases rs' with
    | nil => rfl
    | cons r' rs' =>
      have hpos := r'.length_pos
      have hle := h'.head_le
      have hstop : a = limit := h.stop
      omega
  | cons r rs ih =>
    cases rs' with
    | nil =>
      have hpos := r.length_pos
      have hle := h.head_le
      have hstop : a = limit := h'.stop
      omega
    | cons r' rs' =>
      have hlen : r.length = r'.length := h.read_length.symm.trans h'.read_length
      have hbytes := h.bytes
      rw [hlen, h'.bytes] at hbytes
      obtain rfl : r = r' := Record.ext hbytes.symm
      rw [ih h.tail h'.tail]

/-! ## Walks -/

theorem locate_eq_none {p : Record F → Bool} : locate p a rs = none ↔ ∀ x ∈ rs, p x = false := by
  induction rs generalizing a with
  | nil => simp [locate]
  | cons x rs ih =>
    rw [locate]
    cases hx : p x
    · simp [ih, hx]
    · simp [hx]

theorem locate_eq_some {p : Record F → Bool} {l : Nat × Record F × List (Record F)}
    (h : locate p a rs = some l) : ∃ before, rs = before ++ l.2.1 :: l.2.2 ∧
      (∀ x ∈ before, p x = false) ∧ p l.2.1 = true ∧ l.1 = a + (flat before).length := by
  induction rs generalizing a with
  | nil => cases h
  | cons x rs ih =>
    rw [locate] at h
    cases hx : p x with
    | true =>
      rw [if_pos hx] at h
      injection h with h
      subst h
      exact ⟨[], rfl, by simp, hx, rfl⟩
    | false =>
      rw [if_neg (by rw [hx]; exact Bool.false_ne_true)] at h
      obtain ⟨before, heq, hbefore, hp, hl⟩ := ih h
      refine ⟨x :: before, by rw [heq]; rfl, ?_, hp, ?_⟩
      · intro y hy
        rcases List.mem_cons.mp hy with rfl | hy
        · exact hx
        · exact hbefore y hy
      · rw [hl, flat_cons, List.length_append, length, Nat.add_assoc]

/-- The body of a loop that looks for a record. The loop comes to the record at `a` with the locals
`head a`. -/
structure Walks {σ ℓ ρ : Type} (body : ℓ → Exec σ (ℓ ⊕ ρ)) (m : Mem) (limit : Nat) (p : Record F → Bool)
    (head : Nat → ℓ) (found : Nat → ρ) (ended : ρ) : Prop where
  ends : ∀ s, body (head limit) s = .ret (.inr ended) s
  hits : ∀ s a r rs, Fill m limit a (r :: rs) → p r = true → body (head a) s = .ret (.inr (found a)) s
  passes : ∀ s a r rs, Fill m limit a (r :: rs) → p r = false →
    body (head a) s = .ret (.inl (head (a + r.length))) s

section Walks

variable {σ ℓ ρ : Type} {body : ℓ → Exec σ (ℓ ⊕ ρ)} {p : Record F → Bool} {head : Nat → ℓ}
  {found : Nat → ρ} {ended : ρ} {s : σ}

theorem Walks.loop (w : Walks body m limit p head found ended) {n : Nat} (h : Fill m limit a rs)
    (hn : rs.length < n) :
    Exec.loop n body (head a) s = .ret (((locate p a rs).map fun l => found l.1).getD ended) s := by
  obtain ⟨n, rfl⟩ : ∃ k, n = k + 1 := ⟨n - 1, by omega⟩
  induction rs generalizing a n with
  | nil =>
    obtain rfl : a = limit := h.stop
    exact Exec.loop_of_inr (w.ends s) n
  | cons r rs ih =>
    rw [locate]
    cases hp : p r with
    | true => exact Exec.loop_of_inr (w.hits s a r rs h hp) n
    | false =>
      rw [List.length_cons] at hn
      obtain ⟨n, rfl⟩ : ∃ k, n = k + 1 := ⟨n - 1, by omega⟩
      rw [Exec.loop_of_inl (w.passes s a r rs h hp)]
      exact ih h.tail n (by omega)

theorem Walks.visits (w : Walks body m limit p head found ended) (h : Fill m limit a rs) {y : ℓ × σ}
    (hv : Exec.Visits body (head a, s) y) :
    ∃ (b : Nat) (rs' : List (Record F)), y = (head b, s) ∧ Fill m limit b rs' ∧ a ≤ b := by
  induction hv with
  | refl => exact ⟨a, rs, rfl, h, Nat.le_refl a⟩
  | @tail y z _ hstep ih =>
    obtain ⟨b, rs', rfl, hb, hab⟩ := ih
    have hret : body (head b) s = .ret (.inl z.1) z.2 := hstep
    cases rs' with
    | nil =>
      obtain rfl : b = limit := hb.stop
      rw [w.ends s] at hret
      cases hret
    | cons r rs' =>
      cases hp : p r with
      | true =>
        rw [w.hits s b r rs' hb hp] at hret
        cases hret
      | false =>
        rw [w.passes s b r rs' hb hp] at hret
        injection hret with hl hs
        injection hl with hl
        exact ⟨b + r.length, rs', Prod.ext hl.symm hs.symm, hb.tail, by omega⟩

end Walks

end Record

end Quark.Machine
