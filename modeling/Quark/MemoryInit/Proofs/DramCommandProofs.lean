import Quark.MemoryInit.DramCommand
import Mathlib.Logic.Equiv.Defs

/-!
# The lines are swapped as the tables say

Each loop adds bits between the first place of its field and the last, at a place of its own for each pin.
-/

namespace Quark.MemoryInit

def Permutes {n : Nat} (select : Fin n → BitVec 8) (pins : Equiv.Perm (Fin n)) : Prop :=
  ∀ i, (select i).toNat = pins i

/-! ## One loop -/

section

variable {n p : Nat} {data temp : BitVec 32} {select : Fin n → BitVec 8}

theorem getLsbD_moved (data : BitVec 32) {p : Nat} (i t : Nat) {j : Nat} (hp : p < 32) (hj : j < 32) :
    (((data >>> i) &&& BitVec.twoPow 32 p) <<< t).getLsbD j = (decide (j = p + t) && data.getLsbD (p + i)) := by
  rw [BitVec.getLsbD_shiftLeft, BitVec.getLsbD_and, BitVec.getLsbD_ushiftRight, BitVec.getLsbD_twoPow]
  by_cases hplace : j = p + t
  · subst hplace
    simp [hj, hp, Nat.add_comm i]
  · have hdiff : j < t ∨ p ≠ j - t := by omega
    rcases hdiff with hlt | hne
    · simp [hlt, hplace]
    · simp [hne, hplace]

theorem getLsbD_swapPins (hp : p < 32) {j : Nat} (hj : j < 32) :
    (swapPins data (BitVec.twoPow 32 p) select temp).getLsbD j =
      (temp.getLsbD j || (List.finRange n).any fun i =>
        decide (j = p + (select i).toNat) && data.getLsbD (p + i)) := by
  unfold swapPins
  generalize List.finRange n = pins
  induction pins generalizing temp with
  | nil => simp
  | cons i pins ih =>
    rw [List.foldl_cons, ih, BitVec.getLsbD_or, getLsbD_moved data i _ hp hj, List.any_cons, Bool.or_assoc]

theorem getLsbD_swapPins_place {pins : Equiv.Perm (Fin n)} (h : Permutes select pins) (hp : p < 32) (i : Fin n)
    (hi : p + pins i < 32) (htemp : temp.getLsbD (p + pins i) = false) :
    (swapPins data (BitVec.twoPow 32 p) select temp).getLsbD (p + pins i) = data.getLsbD (p + i) := by
  rw [getLsbD_swapPins hp hi, htemp, Bool.false_or]
  -- no other pin goes to the place
  have honly : ∀ k : Fin n, p + (pins i : Nat) = p + (select k).toNat ↔ k = i := by
    intro k
    rw [h k, Nat.add_left_cancel_iff, Fin.val_inj, pins.apply_eq_iff_eq, eq_comm]
  cases hbit : data.getLsbD (p + i) with
  | true =>
    rw [List.any_eq_true]
    exact ⟨i, List.mem_finRange i, by rw [hbit, Bool.and_true, decide_eq_true_iff, honly]⟩
  | false =>
    rw [List.any_eq_false]
    intro k _
    by_cases hk : k = i
    · rw [hk, hbit, Bool.and_false]
      exact Bool.false_ne_true
    · rw [decide_eq_false (fun heq => hk ((honly k).mp heq)), Bool.false_and]
      exact Bool.false_ne_true

theorem getLsbD_swapPins_other {pins : Equiv.Perm (Fin n)} (h : Permutes select pins) (hp : p < 32) {j : Nat}
    (hj : j < 32) (hout : j < p ∨ p + n ≤ j) :
    (swapPins data (BitVec.twoPow 32 p) select temp).getLsbD j = temp.getLsbD j := by
  rw [getLsbD_swapPins hp hj, Bool.or_eq_left_iff_imp.mpr]
  intro hany
  obtain ⟨k, -, hk⟩ := List.any_eq_true.mp hany
  have hplace := of_decide_eq_true (Bool.and_eq_true_iff.mp hk).1
  rw [h k] at hplace
  have hlt := (pins k).isLt
  omega

end

/-! ## A command -/

section

variable {swap : LineSwap} {bank : Equiv.Perm (Fin 3)} {addr : Equiv.Perm (Fin 16)} {data : BitVec 32}

def swapped (swap : LineSwap) (data : BitVec 32) : BitVec 32 :=
  swapPins data (BitVec.twoPow 32 6) swap.addrSelect
    (swapPins data (BitVec.twoPow 32 3) swap.bankSelect (data &&& ~~~0x003FFFF8))

theorem toRank1_iff : data &&& 0x00400000 ≠ 0 ↔ data.getLsbD 22 = true := by
  rw [show (0x00400000 : BitVec 32) = BitVec.twoPow 32 22 from rfl, BitVec.and_twoPow]
  cases data.getLsbD 22 <;> decide

theorem dramInitCommand_eq (swap : LineSwap) (data : BitVec 32) :
    dramInitCommand swap data =
      if swap.dramBitSwapEnables ≠ 0 ∧ data.getLsbD 22 = true then swapped swap data else data := by
  unfold dramInitCommand
  by_cases henables : swap.dramBitSwapEnables ≠ 0
  · rw [if_pos henables]
    by_cases hrank : data.getLsbD 22 = true
    · rw [if_pos (toRank1_iff.mpr hrank), if_pos ⟨henables, hrank⟩]
      rfl
    · rw [if_neg fun h => hrank (toRank1_iff.mp h), if_neg fun h => hrank h.2]
  · rw [if_neg henables, if_neg fun h => henables h.1]

theorem getLsbD_cleared {j : Nat} (hj : j < 32) :
    (data &&& ~~~0x003FFFF8).getLsbD j = (data.getLsbD j && !decide (3 ≤ j ∧ j < 22)) := by
  have hmask : ∀ j < 32, (~~~0x003FFFF8#32).getLsbD j = !decide (3 ≤ j ∧ j < 22) := by decide
  rw [BitVec.getLsbD_and]
  exact congrArg (data.getLsbD j && ·) (hmask j hj)

theorem getLsbD_cleared_field {j : Nat} (h : 3 ≤ j) (h' : j < 22) : (data &&& ~~~0x003FFFF8).getLsbD j = false := by
  rw [getLsbD_cleared (by omega), decide_eq_true ⟨h, h'⟩, Bool.not_true, Bool.and_false]

theorem swapped_bank (hbank : Permutes swap.bankSelect bank) (haddr : Permutes swap.addrSelect addr) (i : Fin 3) :
    (swapped swap data).getLsbD (3 + bank i) = data.getLsbD (3 + i) := by
  have hlt := (bank i).isLt
  rw [swapped, getLsbD_swapPins_other haddr (by decide) (by omega) (.inl (by omega)),
    getLsbD_swapPins_place hbank (by decide) i (by omega) (getLsbD_cleared_field (by omega) (by omega))]

theorem swapped_addr (hbank : Permutes swap.bankSelect bank) (haddr : Permutes swap.addrSelect addr) (i : Fin 16) :
    (swapped swap data).getLsbD (6 + addr i) = data.getLsbD (6 + i) := by
  have hlt := (addr i).isLt
  refine getLsbD_swapPins_place haddr (by decide) i (by omega) ?_
  rw [getLsbD_swapPins_other hbank (by decide) (by omega) (.inr (by omega))]
  exact getLsbD_cleared_field (by omega) (by omega)

theorem swapped_other (hbank : Permutes swap.bankSelect bank) (haddr : Permutes swap.addrSelect addr) {j : Nat}
    (hj : j < 32) (hout : j < 3 ∨ 22 ≤ j) : (swapped swap data).getLsbD j = data.getLsbD j := by
  rw [swapped, getLsbD_swapPins_other haddr (by decide) hj (by omega),
    getLsbD_swapPins_other hbank (by decide) hj (by omega), getLsbD_cleared hj, decide_eq_false (by omega),
    Bool.not_false, Bool.and_true]

theorem eq_of_fields {x y : BitVec 32} (hbank : ∀ i : Fin 3, x.getLsbD (3 + i) = y.getLsbD (3 + i))
    (haddr : ∀ i : Fin 16, x.getLsbD (6 + i) = y.getLsbD (6 + i))
    (hother : ∀ j < 32, j < 3 ∨ 22 ≤ j → x.getLsbD j = y.getLsbD j) : x = y := by
  apply BitVec.eq_of_getLsbD_eq
  intro j hj
  rcases Nat.lt_or_ge j 3 with hlt | hge
  · exact hother j hj (.inl hlt)
  · rcases Nat.lt_or_ge j 6 with hlt | hge'
    · have := hbank ⟨j - 3, by omega⟩
      rwa [Nat.add_sub_cancel' hge] at this
    · rcases Nat.lt_or_ge j 22 with hlt | hge''
      · have := haddr ⟨j - 6, by omega⟩
        rwa [Nat.add_sub_cancel' hge'] at this
      · exact hother j hj (.inr hge'')

theorem swapped_injective (hbank : Permutes swap.bankSelect bank) (haddr : Permutes swap.addrSelect addr) :
    Function.Injective (swapped swap) := by
  intro x y hxy
  apply eq_of_fields
  · intro i
    calc x.getLsbD (3 + i) = (swapped swap x).getLsbD (3 + bank i) := (swapped_bank hbank haddr i).symm
      _ = (swapped swap y).getLsbD (3 + bank i) := by rw [hxy]
      _ = y.getLsbD (3 + i) := swapped_bank hbank haddr i
  · intro i
    calc x.getLsbD (6 + i) = (swapped swap x).getLsbD (6 + addr i) := (swapped_addr hbank haddr i).symm
      _ = (swapped swap y).getLsbD (6 + addr i) := by rw [hxy]
      _ = y.getLsbD (6 + i) := swapped_addr hbank haddr i
  · intro j hj hout
    calc x.getLsbD j = (swapped swap x).getLsbD j := (swapped_other hbank haddr hj hout).symm
      _ = (swapped swap y).getLsbD j := by rw [hxy]
      _ = y.getLsbD j := swapped_other hbank haddr hj hout

theorem swapped_identity (hbank : Permutes swap.bankSelect (.refl _))
    (haddr : Permutes swap.addrSelect (.refl _)) :
    swapped swap data = data :=
  eq_of_fields (swapped_bank hbank haddr) (swapped_addr hbank haddr) fun _ hj => swapped_other hbank haddr hj

theorem dramInitCommand_injective (hbank : Permutes swap.bankSelect bank) (haddr : Permutes swap.addrSelect addr) :
    Function.Injective (dramInitCommand swap) := by
  -- the rank stays, so a swapped command is not one that is left as it is
  have hrank : ∀ x, (dramInitCommand swap x).getLsbD 22 = x.getLsbD 22 := by
    intro x
    rw [dramInitCommand_eq]
    split
    · exact swapped_other hbank haddr (by decide) (.inr (Nat.le_refl 22))
    · rfl
  intro x y hxy
  have hsame : x.getLsbD 22 = y.getLsbD 22 := by rw [← hrank x, ← hrank y, hxy]
  rw [dramInitCommand_eq, dramInitCommand_eq, hsame] at hxy
  by_cases hswap : swap.dramBitSwapEnables ≠ 0 ∧ y.getLsbD 22 = true
  · rw [if_pos hswap, if_pos hswap] at hxy
    exact swapped_injective hbank haddr hxy
  · rwa [if_neg hswap, if_neg hswap] at hxy

end

/-- The bits of a command to the swapped rank go where the tables say, and no two commands become one. -/
theorem dramInitCommand_faithful {swap : LineSwap} {bank : Equiv.Perm (Fin 3)} {addr : Equiv.Perm (Fin 16)}
    (henables : swap.dramBitSwapEnables ≠ 0) (hbank : Permutes swap.bankSelect bank)
    (haddr : Permutes swap.addrSelect addr) :
    (∀ data, data.getLsbD 22 = true →
      (∀ i : Fin 3, (dramInitCommand swap data).getLsbD (3 + bank i) = data.getLsbD (3 + i)) ∧
      (∀ i : Fin 16, (dramInitCommand swap data).getLsbD (6 + addr i) = data.getLsbD (6 + i)) ∧
      (∀ j < 32, j < 3 ∨ 22 ≤ j → (dramInitCommand swap data).getLsbD j = data.getLsbD j) ∧
      (bank = .refl _ → addr = .refl _ → dramInitCommand swap data = data)) ∧
    Function.Injective (dramInitCommand swap) := by
  refine ⟨fun data hrank => ?_, dramInitCommand_injective hbank haddr⟩
  rw [dramInitCommand_eq, if_pos ⟨henables, hrank⟩]
  refine ⟨swapped_bank hbank haddr, swapped_addr hbank haddr, fun j hj => swapped_other hbank haddr hj, ?_⟩
  rintro rfl rfl
  exact swapped_identity hbank haddr

def crossedLines : LineSwap where
  dramBitSwapEnables := 1
  bankSelect i := BitVec.ofNat 8 (Equiv.swap (0 : Fin 3) 1 i)
  addrSelect i := BitVec.ofNat 8 (Equiv.swap (3 : Fin 16) 5 i)

theorem dramInitCommand_faithful_crossed : Function.Injective (dramInitCommand crossedLines) :=
  have hbank : Permutes crossedLines.bankSelect (Equiv.swap 0 1) := by unfold Permutes; decide
  have haddr : Permutes crossedLines.addrSelect (Equiv.swap 3 5) := by unfold Permutes; decide
  (dramInitCommand_faithful (by decide) hbank haddr).2

end Quark.MemoryInit
