import Mathlib.Data.List.Nodup
import Mathlib.Data.List.Perm.Basic
import Mathlib.Data.List.Range
import Quark.FlashTool.SpiFixup

/-!
# SPI fix-up: which markers are found, and what is written

A search that has read part of the marker and then a byte that does not fit goes on behind that byte. If the
byte is the first one of the marker, the marker is missed. As this letter stands nowhere else in the marker, the
part that was read stands directly in front of it, and was itself found only if no other such part made it be
missed. Where the marker is found, the image is fixed up exactly.
-/

namespace Quark.FlashTool

open Machine

/-! ## The marker -/

def markerTail : List Byte := marker.drop 1

theorem marker_eq : marker = 0x53 :: markerTail := rfl

theorem length_marker : marker.length = 16 := rfl

theorem marker_getElem_ne {i : Nat} (hi : 0 < i) : marker[i]? ≠ some 0x53 := by
  cases i with
  | zero => exact absurd hi (Nat.lt_irrefl 0)
  | succ i =>
    rw [marker_eq, List.getElem?_cons_succ]
    intro h
    exact absurd (List.mem_of_getElem? h) (by decide)

theorem take_marker_cons {k : Nat} (hk : 0 < k) : marker.take k = 0x53 :: markerTail.take (k - 1) := by
  cases k with
  | zero => exact absurd hk (Nat.lt_irrefl 0)
  | succ k => rfl

theorem length_take_marker {k : Nat} (hk : k < marker.length) : (marker.take k).length = k := by
  rw [List.length_take]
  exact Nat.min_eq_left (Nat.le_of_lt hk)

/-! ## One attempt -/

theorem readMarker_cases (ms bs : List Byte) :
    (∃ rest, bs = ms ++ rest ∧ readMarker ms bs = (true, rest)) ∨
    (∃ k < ms.length, bs = ms.take k ∧ readMarker ms bs = (false, [])) ∨
    (∃ k < ms.length, ∃ b rest, bs = ms.take k ++ b :: rest ∧ ms[k]? ≠ some b ∧
      readMarker ms bs = (false, rest)) := by
  induction ms generalizing bs with
  | nil => exact .inl ⟨bs, rfl, by simp [readMarker]⟩
  | cons m ms ih =>
    cases bs with
    | nil => exact .inr (.inl ⟨0, by simp, rfl, by simp [readMarker]⟩)
    | cons b rest =>
      by_cases hb : b = m
      · subst hb
        have hread : readMarker (b :: ms) (b :: rest) = readMarker ms rest := by simp [readMarker]
        rw [hread]
        rcases ih rest with ⟨r, hr, h⟩ | ⟨k, hk, hr, h⟩ | ⟨k, hk, c, r, hr, hne, h⟩
        · exact .inl ⟨r, by rw [hr]; rfl, h⟩
        · exact .inr (.inl ⟨k + 1, by simpa using hk, by rw [hr]; rfl, h⟩)
        · exact .inr (.inr ⟨k + 1, by simpa using hk, c, r, by rw [hr]; rfl, hne, h⟩)
      · refine .inr (.inr ⟨0, by simp, b, rest, rfl, ?_, by simp [readMarker, hb]⟩)
        simpa using Ne.symm hb

theorem length_readMarker_lt {bs rest : List Byte} {found : Bool} (hne : bs ≠ [])
    (h : readMarker marker bs = (found, rest)) : rest.length < bs.length := by
  have hpos := List.length_pos_iff.mpr hne
  rcases readMarker_cases marker bs with ⟨r, hr, h'⟩ | ⟨k, -, hr, h'⟩ | ⟨k, -, b, r, hr, -, h'⟩
  · rw [h] at h'
    cases h'
    rw [hr, List.length_append, length_marker]
    omega
  · rw [h] at h'
    cases h'
    exact hpos
  · rw [h] at h'
    cases h'
    rw [hr, List.length_append, List.length_cons]
    omega

/-- Attempts that fail lead from one rest of the file to another. -/
inductive Reaches : List Byte → List Byte → Prop where
  | refl (bs : List Byte) : Reaches bs bs
  | step {bs rest out : List Byte} :
      bs ≠ [] → readMarker marker bs = (false, rest) → Reaches rest out → Reaches bs out

theorem Reaches.length_le {bs out : List Byte} (h : Reaches bs out) : out.length ≤ bs.length := by
  induction h with
  | refl bs => exact Nat.le_refl _
  | step hne hread _ ih => exact ih.trans (Nat.le_of_lt (length_readMarker_lt hne hread))

theorem Reaches.cases_out {bs out : List Byte} (h : Reaches bs out) :
    bs = out ∨ ∃ rest, readMarker marker bs = (false, rest) ∧ Reaches rest out := by
  cases h with
  | refl => exact .inl rfl
  | step _ hread hrest => exact .inr ⟨_, hread, hrest⟩

theorem Reaches.linear {bs out out' : List Byte} (h : Reaches bs out) (h' : Reaches bs out') :
    Reaches out out' ∨ Reaches out' out := by
  induction h with
  | refl bs => exact .inl h'
  | step hne hread hrest ih =>
    cases h' with
    | refl => exact .inr (.step hne hread hrest)
    | step hne' hread' hrest' =>
      rw [hread] at hread'
      cases hread'
      exact ih hrest'

theorem Reaches.searchMarker {bs out : List Byte} (h : Reaches bs out) : ∀ n, bs.length ≤ n →
    ∃ n', out.length ≤ n' ∧ searchMarker n bs = FlashTool.searchMarker n' out := by
  induction h with
  | refl bs => exact fun n hn => ⟨n, hn, rfl⟩
  | @step bs rest out hne hread _ ih =>
    intro n hn
    have hlt := length_readMarker_lt hne hread
    cases n with
    | zero => omega
    | succ n =>
      obtain ⟨n', hn', hsearch⟩ := ih n (by omega)
      refine ⟨n', hn', ?_⟩
      rw [FlashTool.searchMarker, hread]
      exact hsearch

theorem searchMarker_length (n : Nat) : ∀ bs : List Byte, bs.length ≤ n →
    searchMarker n bs = [] ∨ (searchMarker n bs).length + marker.length ≤ bs.length := by
  induction n with
  | zero =>
    intro bs hle
    exact .inl (List.length_eq_zero_iff.mp (Nat.le_zero.mp hle))
  | succ n ih =>
    intro bs hle
    rcases readMarker_cases marker bs with ⟨r, hr, h⟩ | ⟨k, -, hr, h⟩ | ⟨k, -, b, r, hr, -, h⟩
    · right
      rw [searchMarker, h]
      show r.length + marker.length ≤ bs.length
      rw [hr, List.length_append, Nat.add_comm]
    · rw [searchMarker, h]
      rcases ih [] (Nat.zero_le n) with h' | h'
      · exact .inl h'
      · exact absurd h' (by rw [length_marker]; simp)
    · have hlength := congrArg List.length hr
      rw [List.length_append, List.length_cons] at hlength
      rw [searchMarker, h]
      rcases ih r (by omega) with h' | h'
      · exact .inl h'
      · exact .inr (by show (searchMarker n r).length + _ ≤ _; omega)

/-! ## Bytes in front of a marker -/

def NoMarkerIn (front rest : List Byte) : Prop := ∀ p < front.length, ¬ marker <+: (front ++ rest).drop p

theorem readMarker_incomplete {k : Nat} (hk : 0 < k) (hlt : k < marker.length) (tail : List Byte) :
    readMarker marker (marker.take k ++ 0x53 :: tail) = (false, tail) := by
  have hlength := length_take_marker hlt
  have hletter : (marker.take k ++ 0x53 :: tail)[k]? = some 0x53 := by
    rw [List.getElem?_append_right (by omega), hlength, Nat.sub_self, List.getElem?_cons_zero]
  rcases readMarker_cases marker (marker.take k ++ 0x53 :: tail) with
    ⟨r, hr, -⟩ | ⟨j, hj, hr, -⟩ | ⟨j, hj, b, r, hr, hne, h⟩
  · rw [hr, List.getElem?_append_left hlt] at hletter
    exact absurd hletter (marker_getElem_ne hk)
  · rw [hr] at hletter
    obtain ⟨hkj, -⟩ := List.getElem?_eq_some_iff.mp hletter
    rw [length_take_marker hj] at hkj
    rw [List.getElem?_take_of_lt hkj] at hletter
    exact absurd hletter (marker_getElem_ne hk)
  · have hjlength := length_take_marker hj
    have hb : (marker.take j ++ b :: r)[j]? = some b := by
      rw [List.getElem?_append_right (by omega), hjlength, Nat.sub_self, List.getElem?_cons_zero]
    rcases Nat.lt_trichotomy j k with hjk | rfl | hjk
    · -- the byte that does not fit would be one of the marker
      rw [← hr, List.getElem?_append_left (by omega), List.getElem?_take_of_lt hjk] at hb
      exact absurd hb hne
    · have hsplit := List.append_inj_right hr rfl
      cases hsplit
      exact h
    · rw [hr, List.getElem?_append_left (by omega), List.getElem?_take_of_lt hjk] at hletter
      exact absurd hletter (marker_getElem_ne hk)

theorem reaches_or_partial (tail : List Byte) : ∀ (n : Nat) (front : List Byte), front.length ≤ n →
    NoMarkerIn front (0x53 :: tail) →
    Reaches (front ++ 0x53 :: tail) (0x53 :: tail) ∨
      ∃ before k, 0 < k ∧ k < marker.length ∧ front = before ++ marker.take k ∧
        Reaches (front ++ 0x53 :: tail) (marker.take k ++ 0x53 :: tail) := by
  intro n
  induction n with
  | zero =>
    intro front hle _
    rw [List.length_eq_zero_iff.mp (Nat.le_zero.mp hle)]
    exact .inl (.refl _)
  | succ n ih =>
    intro front hle hno
    by_cases hempty : front = []
    · rw [hempty]
      exact .inl (.refl _)
    have hpos := List.length_pos_iff.mpr hempty
    have hinput : front ++ 0x53 :: tail ≠ [] := by simp
    have hletter : (front ++ 0x53 :: tail)[front.length]? = some 0x53 := by
      rw [List.getElem?_append_right (Nat.le_refl _), Nat.sub_self, List.getElem?_cons_zero]
    rcases readMarker_cases marker (front ++ 0x53 :: tail) with
      ⟨r, hr, -⟩ | ⟨k, hk, hr, -⟩ | ⟨k, hk, b, r, hr, hne, h⟩
    · exact absurd (hr ▸ List.prefix_append marker r) (hno 0 hpos)
    · rw [hr] at hletter
      obtain ⟨hlt, -⟩ := List.getElem?_eq_some_iff.mp hletter
      rw [length_take_marker hk] at hlt
      rw [List.getElem?_take_of_lt hlt] at hletter
      exact absurd hletter (marker_getElem_ne hpos)
    · have hklength := length_take_marker hk
      rcases Nat.lt_trichotomy k front.length with hkf | hkf | hkf
      · -- the attempt ends inside the bytes in front
        have hsplit : front = marker.take k ++ front.drop k := by
          have htake := congrArg (List.take k) hr
          rw [List.take_append_of_le_length (Nat.le_of_lt hkf), List.take_append_of_le_length (by omega),
            List.take_take, Nat.min_self] at htake
          rw [← htake, List.take_append_drop]
        obtain ⟨c, front', hdrop⟩ : ∃ c front', front.drop k = c :: front' :=
          List.exists_cons_of_ne_nil (by rw [Ne, List.drop_eq_nil_iff]; omega)
        have hrest : c :: front' ++ 0x53 :: tail = b :: r := by
          rw [hsplit, hdrop, List.append_assoc] at hr
          exact List.append_inj_right hr rfl
        injection hrest with hc hr'
        have hlength := congrArg List.length hsplit
        rw [List.length_append, hdrop, List.length_cons, hklength] at hlength
        have hno' : NoMarkerIn front' (0x53 :: tail) := by
          intro p hp hmarker
          apply hno (k + 1 + p) (by omega)
          have hfront : front ++ 0x53 :: tail = (marker.take k ++ [c]) ++ (front' ++ 0x53 :: tail) := by
            rw [hsplit, hdrop]
            simp
          have hdrop' : (front ++ 0x53 :: tail).drop (k + 1 + p) = (front' ++ 0x53 :: tail).drop p := by
            rw [hfront, ← List.drop_drop, List.drop_left' (by simp [hklength])]
          rwa [hdrop']
        have hstep : Reaches (front ++ 0x53 :: tail) (front' ++ 0x53 :: tail) := by
          refine .step hinput h ?_
          rw [← hr']
          exact .refl _
        rcases ih front' (by omega) hno' with hreach | ⟨before, j, hj, hjlt, hfront', hreach⟩
        · exact .inl (.step hinput h (hr' ▸ hreach))
        · refine .inr ⟨marker.take k ++ c :: before, j, hj, hjlt, ?_, .step hinput h (hr' ▸ hreach)⟩
          rw [List.append_assoc, List.cons_append, ← hfront', ← hdrop]
          exact hsplit
      · -- all bytes in front are the incomplete marker
        right
        have htake : front = marker.take k := (List.append_inj hr (by omega)).1
        refine ⟨[], k, by omega, hk, htake, ?_⟩
        rw [← htake]
        exact .refl _
      · rw [hr, List.getElem?_append_left (by omega), List.getElem?_take_of_lt hkf] at hletter
        exact absurd hletter (marker_getElem_ne hpos)

theorem not_reaches_of_partial {bs tail : List Byte} {k : Nat} (hk : 0 < k) (hlt : k < marker.length)
    (h : Reaches bs (marker.take k ++ 0x53 :: tail)) : ¬ Reaches bs (0x53 :: tail) := by
  intro hletter
  have hlength := length_take_marker hlt
  rcases h.linear hletter with hforward | hback
  · rcases hforward.cases_out with heq | ⟨rest, hread, hrest⟩
    · have hlengths := congrArg List.length heq
      rw [List.length_append, hlength] at hlengths
      omega
    · rw [readMarker_incomplete hk hlt] at hread
      cases hread
      have hle := hrest.length_le
      rw [List.length_cons] at hle
      omega
  · have hle := hback.length_le
    rw [List.length_append, hlength] at hle
    omega

theorem partial_unique {before before' : List Byte} {k k' : Nat} (hk : 0 < k) (hlt : k < marker.length)
    (hk' : 0 < k') (hlt' : k' < marker.length) (h : before ++ marker.take k = before' ++ marker.take k') :
    before = before' ∧ k = k' := by
  have hsame : ∀ {a b : List Byte} {i j : Nat}, 0 < i → i < marker.length → j < marker.length → i < j →
      a ++ marker.take i ≠ b ++ marker.take j := by
    intro a b i j hi hilt hjlt hij heq
    have hlengths := congrArg List.length heq
    rw [List.length_append, List.length_append, length_take_marker hilt, length_take_marker hjlt] at hlengths
    have hletter : (a ++ marker.take i)[a.length]? = some 0x53 := by
      rw [List.getElem?_append_right (Nat.le_refl _), Nat.sub_self, take_marker_cons hi, List.getElem?_cons_zero]
    rw [heq, List.getElem?_append_right (by omega), List.getElem?_take_of_lt (by omega)] at hletter
    exact marker_getElem_ne (by omega) hletter
  rcases Nat.lt_trichotomy k k' with hkk | rfl | hkk
  · exact absurd h (hsame hk hlt hlt' hkk)
  · exact ⟨List.append_cancel_right h, rfl⟩
  · exact absurd h.symm (hsame hk' hlt' hlt hkk)

theorem reaches_iff_even {front : List Byte} {n : Nat} (h : PartialMarkers front n) : ∀ tail : List Byte,
    NoMarkerIn front (0x53 :: tail) → (Reaches (front ++ 0x53 :: tail) (0x53 :: tail) ↔ n % 2 = 0) := by
  induction h with
  | @none front hnone =>
    intro tail hno
    refine iff_of_true ?_ rfl
    rcases reaches_or_partial tail front.length front (Nat.le_refl _) hno with h | ⟨before, k, hk, hlt, hfront, -⟩
    · exact h
    · exact absurd hfront (hnone before k hk hlt)
  | @more front n k hk hlt _ ih =>
    intro tail hno
    have hcons : marker.take k ++ 0x53 :: tail = 0x53 :: (markerTail.take (k - 1) ++ 0x53 :: tail) := by
      rw [take_marker_cons hk]
      rfl
    have hbefore :
        Reaches (front ++ marker.take k ++ 0x53 :: tail) (marker.take k ++ 0x53 :: tail) ↔ n % 2 = 0 := by
      rw [List.append_assoc, hcons]
      apply ih
      intro p hp
      have hno' := hno p (by rw [List.length_append]; omega)
      rwa [List.append_assoc, hcons] at hno'
    have hexclusive : Reaches (front ++ marker.take k ++ 0x53 :: tail) (0x53 :: tail) ↔ ¬ n % 2 = 0 := by
      rw [← hbefore]
      constructor
      · exact fun h hpartial => not_reaches_of_partial hk hlt hpartial h
      · intro hnot
        rcases reaches_or_partial tail _ _ (Nat.le_refl _) hno with h | ⟨before, j, hj, hjlt, hfront, hreach⟩
        · exact h
        · obtain ⟨-, rfl⟩ := partial_unique hk hlt hj hjlt hfront
          exact absurd hreach hnot
    rw [hexclusive]
    omega

theorem exists_partialMarkers : ∀ (m : Nat) (front : List Byte), front.length ≤ m →
    ∃ n, PartialMarkers front n := by
  intro m
  induction m with
  | zero =>
    intro front hle
    rw [List.length_eq_zero_iff.mp (Nat.le_zero.mp hle)]
    refine ⟨0, .none fun before k hk hlt h => ?_⟩
    have hlength := congrArg List.length h
    rw [List.length_append, length_take_marker hlt, List.length_nil] at hlength
    omega
  | succ m ih =>
    intro front hle
    by_cases hpartial : ∃ before k, 0 < k ∧ k < marker.length ∧ front = before ++ marker.take k
    · obtain ⟨before, k, hk, hlt, rfl⟩ := hpartial
      rw [List.length_append, length_take_marker hlt] at hle
      obtain ⟨n, hn⟩ := ih before (by omega)
      exact ⟨n + 1, .more hk hlt hn⟩
    · exact ⟨0, .none fun before k hk hlt h => hpartial ⟨before, k, hk, hlt, h⟩⟩

/-! ## What the search finds -/

theorem readMarker_append (ms rest : List Byte) : readMarker ms (ms ++ rest) = (true, rest) := by
  induction ms with
  | nil => simp [readMarker]
  | cons m ms ih => simpa [readMarker] using ih

section
variable (img : MarkedImage)

theorem MarkedImage.bin_eq : img.bin = img.front ++ 0x53 :: (markerTail ++ img.back) := by
  rw [MarkedImage.bin, List.append_assoc, marker_eq, List.cons_append]

theorem MarkedImage.length_bin : img.bin.length = img.front.length + 16 + img.back.length := by
  rw [MarkedImage.bin, List.length_append, List.length_append, length_marker]

theorem MarkedImage.noMarkerIn : NoMarkerIn img.front (0x53 :: (markerTail ++ img.back)) := by
  intro p hp
  rw [← img.bin_eq]
  exact img.first p hp

theorem MarkedImage.reached_iff :
    img.Reached ↔ Reaches img.bin (0x53 :: (markerTail ++ img.back)) ∨ img.back = [] := by
  rw [MarkedImage.Reached, img.bin_eq]
  refine or_congr ⟨?_, ?_⟩ Iff.rfl
  · rintro ⟨n, hn, heven⟩
    exact (reaches_iff_even hn _ img.noMarkerIn).mpr heven
  · intro h
    obtain ⟨n, hn⟩ := exists_partialMarkers img.front.length img.front (Nat.le_refl _)
    exact ⟨n, hn, (reaches_iff_even hn _ img.noMarkerIn).mp h⟩

theorem searchMarker_of_reaches (h : Reaches img.bin (0x53 :: (markerTail ++ img.back))) :
    searchMarker img.bin.length img.bin = img.back := by
  obtain ⟨n, hn, hsearch⟩ := h.searchMarker img.bin.length (Nat.le_refl _)
  rw [hsearch]
  cases n with
  | zero => simp at hn
  | succ n =>
    rw [← List.cons_append, ← marker_eq, searchMarker, readMarker_append]

theorem searchMarker_of_not_reaches (h : ¬ Reaches img.bin (0x53 :: (markerTail ++ img.back))) :
    searchMarker img.bin.length img.bin = [] ∨
      (searchMarker img.bin.length img.bin).length < img.back.length := by
  rcases reaches_or_partial _ _ _ (Nat.le_refl _) img.noMarkerIn with hreach | ⟨before, k, hk, hlt, -, hpartial⟩
  · rw [img.bin_eq] at h
    exact absurd hreach h
  rw [← img.bin_eq] at hpartial
  obtain ⟨n, hn, hsearch⟩ := hpartial.searchMarker img.bin.length (Nat.le_refl _)
  rw [List.length_append, List.length_cons] at hn
  cases n with
  | zero => omega
  | succ n =>
    rw [hsearch, searchMarker, readMarker_incomplete hk hlt]
    have hlength : (markerTail ++ img.back).length = 15 + img.back.length := by
      rw [List.length_append]
      rfl
    rcases searchMarker_length n (markerTail ++ img.back) (by omega) with h' | h'
    · exact .inl h'
    · right
      show (searchMarker n (markerTail ++ img.back)).length < img.back.length
      rw [hlength, length_marker] at h'
      omega

theorem spiLocation_eq_iff : spiLocation img.bin = img.front.length + 16 ↔ img.Reached := by
  have hbin := img.length_bin
  rw [img.reached_iff, spiLocation]
  by_cases hreach : Reaches img.bin (0x53 :: (markerTail ++ img.back))
  · rw [searchMarker_of_reaches img hreach]
    exact iff_of_true (by omega) (.inl hreach)
  · have hback : img.back = [] ↔ img.back.length = 0 := List.length_eq_zero_iff.symm
    rw [hback]
    rcases searchMarker_of_not_reaches img hreach with h | h
    · rw [h, List.length_nil]
      simp only [hreach, false_or]
      omega
    · simp only [hreach, false_or]
      omega

theorem spiLocation_le : spiLocation img.bin ≤ img.bin.length := Nat.sub_le _ _

end

/-! ## The sum over the header -/

theorem headerSum_lt (n : Nat) (bs : List Byte) (sum : Nat) (h : sum < 0x10000) :
    headerSum n bs sum < 0x10000 := by
  fun_induction headerSum n bs sum with
  | case1 sum n lo hi rest ih => exact ih (Nat.mod_lt _ (by decide))
  | case2 => exact h

theorem headerSum_add (n : Nat) (bs : List Byte) (sum : Nat) :
    headerSum n bs sum % 0x10000 = (sum + headerSum n bs 0) % 0x10000 := by
  induction n generalizing bs sum with
  | zero => simp [headerSum]
  | succ n ih =>
    rcases bs with _ | ⟨lo, _ | ⟨hi, rest⟩⟩
    · simp [headerSum]
    · simp [headerSum]
    · have hword := leValue_pair_lt lo hi
      have hone := ih rest ((sum + leValue [lo, hi]) % 0x10000)
      have hzero := ih rest (leValue [lo, hi])
      rw [headerSum, headerSum, Nat.zero_add, Nat.mod_eq_of_lt hword]
      omega

theorem headerSum_append (k : Nat) : ∀ (n : Nat) (pre rest : List Byte) (sum : Nat), pre.length = 2 * k → k ≤ n →
    headerSum n (pre ++ rest) sum = headerSum (n - k) rest (headerSum k pre sum) := by
  induction k with
  | zero =>
    intro n pre rest sum hlength _
    have hnil : pre = [] := List.length_eq_zero_iff.mp (by simpa using hlength)
    rw [hnil]
    cases n <;> simp [headerSum]
  | succ k ih =>
    intro n pre rest sum hlength hle
    rcases pre with _ | ⟨lo, _ | ⟨hi, pre⟩⟩
    · simp at hlength
    · simp at hlength
      omega
    · cases n with
      | zero => omega
      | succ n =>
        rw [Nat.add_sub_add_right, headerSum, ← ih n pre rest _ (by simpa [Nat.mul_succ] using hlength) (by omega)]
        rfl

theorem headerSum_checksum {n : Nat} {pre rest : List Byte} (hlength : pre.length = 50) (hn : 26 ≤ n) :
    headerSum n (pre ++ (leBytes 2 ((0x10000 - headerSum n (pre ++ (leBytes 2 0 ++ rest)) 0) % 0x10000) ++ rest)) 0
      = 0 := by
  have hsplit : ∀ word, word < 0x10000 → headerSum n (pre ++ (leBytes 2 word ++ rest)) 0 % 0x10000
      = (headerSum 25 pre 0 + word + headerSum (n - 25 - 1) rest 0) % 0x10000 := by
    intro word hword
    rw [headerSum_append 25 n pre _ 0 hlength (by omega),
      headerSum_append 1 (n - 25) (leBytes 2 word) rest _ (by simp) (by omega), headerSum_add]
    have hone : headerSum 1 (leBytes 2 word) (headerSum 25 pre 0) = (headerSum 25 pre 0 + word) % 0x10000 := by
      show (headerSum 25 pre 0 + leValue (leBytes 2 word)) % 0x10000 = _
      rw [leValue_leBytes, Nat.mod_eq_of_lt (b := 256 ^ 2) hword]
    rw [hone, Nat.mod_add_mod]
  have hzero := hsplit 0 (by decide)
  have hlt := headerSum_lt n (pre ++ (leBytes 2 0 ++ rest)) 0 (by decide)
  generalize headerSum n (pre ++ (leBytes 2 0 ++ rest)) 0 = total at hzero hlt ⊢
  have hsum := hsplit ((0x10000 - total) % 0x10000) (Nat.mod_lt _ (by decide))
  have hlt' := headerSum_lt n (pre ++ (leBytes 2 ((0x10000 - total) % 0x10000) ++ rest)) 0 (by decide)
  omega

/-! ## An image that is fixed up -/

theorem exists_parts (img : MarkedImage) : ∃ first8 middle checksum rest,
    img.bin = first8 ++ (middle ++ (checksum ++ rest)) ∧
      first8.length = 8 ∧ middle.length = 42 ∧ checksum.length = 2 := by
  have hge := img.header_ge.trans img.header_le
  rw [← MarkedImage.bin] at hge
  refine ⟨img.bin.take 8, (img.bin.drop 8).take 42, ((img.bin.drop 8).drop 42).take 2,
    ((img.bin.drop 8).drop 42).drop 2, ?_, ?_, ?_, ?_⟩
  · rw [List.take_append_drop, List.take_append_drop, List.take_append_drop]
  · rw [List.length_take]
    omega
  · rw [List.length_take, List.length_drop]
    omega
  · rw [List.length_take, List.length_drop, List.length_drop]
    omega

theorem writeAt_append {pre old bytes post : List Byte} (h : old.length = bytes.length) :
    writeAt (pre ++ (old ++ post)) pre.length bytes = pre ++ (bytes ++ post) := by
  have hdrop : (pre ++ (old ++ post)).drop (pre.length + bytes.length) = post := by
    rw [← List.append_assoc]
    exact List.drop_left' (by rw [List.length_append, h])
  rw [writeAt, List.take_left, hdrop, List.append_assoc]

section
variable {first8 middle checksum rest : List Byte} (hfirst8 : first8.length = 8) (hmiddle : middle.length = 42)

include hfirst8 in
theorem headerLength_append (post : List Byte) (hmiddle : middle.length = 42) :
    headerLength (first8 ++ (middle ++ post)) = leValue (middle.drop 40) / 2 := by
  rw [headerLength, List.drop_append, List.drop_eq_nil_of_le (by omega), hfirst8, List.nil_append,
    List.drop_append_of_le_length (by omega), List.take_left' (by rw [List.length_drop]; omega)]

include hfirst8 hmiddle in
theorem getElem?_parts (hchecksum : checksum.length = 2) {i : Nat} (h8 : 8 ≤ i) (h50 : i ≠ 50) (h51 : i ≠ 51) :
    (first8 ++ (middle ++ (checksum ++ rest)))[i]? = if i < 50 then middle[i - 8]? else rest[i - 52]? := by
  rw [List.getElem?_append_right (by omega), hfirst8]
  by_cases hi : i < 50
  · rw [List.getElem?_append_left (by omega), if_pos hi]
  · have hbehind : i - 8 - 42 - 2 = i - 52 := by omega
    rw [List.getElem?_append_right (by omega), List.getElem?_append_right (by omega), hmiddle, hchecksum, hbehind,
      if_neg hi]

include hfirst8 hmiddle in
theorem fixChecksum_parts (hchecksum : checksum.length = 2) :
    fixChecksum (first8 ++ (middle ++ (checksum ++ rest))) = first8 ++ (middle ++
      (leBytes 2 ((0x10000 - headerSum (leValue (middle.drop 40) / 2) (first8 ++ (middle ++ (leBytes 2 0 ++ rest))) 0)
        % 0x10000) ++ rest)) := by
  have hwrite : ∀ old : List Byte, old.length = 2 → ∀ word,
      writeAt (first8 ++ (middle ++ (old ++ rest))) 50 (leBytes 2 word)
        = first8 ++ (middle ++ (leBytes 2 word ++ rest)) := by
    intro old hold word
    have hlength : (first8 ++ middle).length = 50 := by rw [List.length_append, hfirst8, hmiddle]
    rw [← List.append_assoc, ← List.append_assoc first8, ← hlength]
    exact writeAt_append (by rw [hold, length_leBytes])
  simp only [fixChecksum]
  rw [hwrite checksum hchecksum, headerLength_append hfirst8 _ hmiddle, hwrite _ (length_leBytes 2 0)]

include hfirst8 hmiddle in
theorem fixupImage_parts (index : Nat) (hchecksum : checksum.length = 2) {bin : List Byte}
    (hbin : bin = first8 ++ (middle ++ (checksum ++ rest))) :
    ∃ words word, words = leBytes 4 (spiLocation bin) ++ leBytes 4 index ∧
      fixupImage index bin = words ++ (middle ++ (leBytes 2 word ++ rest)) ∧
      (26 ≤ leValue (middle.drop 40) / 2 →
        headerSum (headerLength (fixupImage index bin)) (fixupImage index bin) 0 = 0) := by
  have hwords : (leBytes 4 (spiLocation bin) ++ leBytes 4 index).length = 8 := by simp
  have hwrite : writeAt bin 0 (leBytes 4 (spiLocation bin) ++ leBytes 4 index)
      = leBytes 4 (spiLocation bin) ++ leBytes 4 index ++ (middle ++ (checksum ++ rest)) := by
    conv => lhs; arg 1; rw [hbin]
    exact @writeAt_append [] first8 _ _ (hfirst8.trans hwords.symm)
  have hfixed : fixupImage index bin = fixChecksum (leBytes 4 (spiLocation bin) ++ leBytes 4 index
      ++ (middle ++ (checksum ++ rest))) := congrArg fixChecksum hwrite
  rw [fixChecksum_parts hwords hmiddle hchecksum] at hfixed
  refine ⟨_, _, rfl, hfixed, fun hn => ?_⟩
  rw [hfixed, headerLength_append hwords _ hmiddle, ← List.append_assoc _ middle, ← List.append_assoc _ middle]
  exact headerSum_checksum (by rw [List.length_append, hwords, hmiddle]) hn

end

theorem fixupImage_exact_iff (img : MarkedImage) (index : Nat) :
    FixedImage.Exact ⟨img, index, fixupImage index img.bin⟩ ↔ img.Reached := by
  obtain ⟨first8, middle, checksum, rest, hbin, hfirst8, hmiddle, hchecksum⟩ := exists_parts img
  obtain ⟨words, word, hwords, hfixed, hsum⟩ := fixupImage_parts hfirst8 hmiddle index hchecksum hbin
  have hwordsLength : words.length = 8 := by rw [hwords]; simp
  have hoffset : (fixupImage index img.bin).take 4 = leBytes 4 (spiLocation img.bin) := by
    rw [hfixed, hwords, List.append_assoc, List.take_left' (length_leBytes 4 _)]
  rw [← spiLocation_eq_iff]
  constructor
  · intro hexact
    have hexact : (fixupImage index img.bin).take 4 = leBytes 4 (img.front.length + 16) := hexact.offset
    have hvalues := congrArg leValue (hoffset.symm.trans hexact)
    have hlocation := (spiLocation_le img).trans_lt img.length_lt
    have hfront := img.length_lt
    rw [← MarkedImage.bin, img.length_bin] at hfront
    rwa [leValue_leBytes, leValue_leBytes, Nat.mod_eq_of_lt (b := 256 ^ 4) hlocation,
      Nat.mod_eq_of_lt (b := 256 ^ 4) (by omega)] at hvalues
  · intro hlocation
    constructor
    · show (fixupImage index img.bin).length = img.bin.length
      rw [hfixed, hbin]
      simp only [List.length_append, length_leBytes, hwordsLength, hfirst8, hchecksum]
    · exact hoffset.trans (by rw [hlocation]; rfl)
    · show ((fixupImage index img.bin).drop 4).take 4 = leBytes 4 index
      rw [hfixed, hwords, List.append_assoc, List.drop_left' (length_leBytes 4 _),
        List.take_left' (length_leBytes 4 _)]
    · apply hsum
      have hheader := headerLength_append hfirst8 (checksum ++ rest) hmiddle
      have hge : 52 ≤ leValue ((img.bin.drop 48).take 2) := img.header_ge
      rw [← hbin, headerLength] at hheader
      omega
    · intro i h8 h50 h51
      show (fixupImage index img.bin)[i]? = img.bin[i]?
      rw [hfixed, hbin, getElem?_parts hwordsLength hmiddle (length_leBytes 2 word) h8 h50 h51,
        getElem?_parts hfirst8 hmiddle hchecksum h8 h50 h51]

/-! ## The images of a directory -/

theorem fixupListing_exact_iff (listing : List (ImageKind × MarkedImage)) : ∀ stage1Index recoveryIndex,
    (∀ f ∈ fixupListing stage1Index recoveryIndex listing, f.Exact) ↔
      ∀ f ∈ listing, f.1 ≠ .other → f.2.Reached := by
  induction listing with
  | nil => simp [fixupListing]
  | cons file rest ih =>
    intro stage1Index recoveryIndex
    rcases file with ⟨_ | _ | _, img⟩
    · simp [fixupListing, fixupImage_exact_iff, ih]
    · simp [fixupListing, fixupImage_exact_iff, ih]
    · simp [fixupListing, ih]

theorem fixupListing_indices (listing : List (ImageKind × MarkedImage)) : ∀ stage1Index recoveryIndex,
    ((fixupListing stage1Index recoveryIndex listing).map FixedImage.index).Perm
      (List.range' stage1Index (countKind .bootStage1 listing) ++
        List.range' recoveryIndex (countKind .recoveryStage1 listing)) := by
  induction listing with
  | nil =>
    intro stage1Index recoveryIndex
    exact .refl _
  | cons file rest ih =>
    intro stage1Index recoveryIndex
    rcases file with ⟨_ | _ | _, img⟩
    · simpa [fixupListing, countKind, List.range'_succ] using ih (stage1Index + 1) recoveryIndex
    · simp only [fixupListing, countKind, List.map_cons]
      have hrest := (ih stage1Index (recoveryIndex + 1)).cons recoveryIndex
      refine hrest.trans ?_
      simpa [countKind, List.range'_succ] using List.perm_middle.symm
    · simpa [fixupListing, countKind] using ih stage1Index recoveryIndex

theorem nodup_indices_iff (m n : Nat) :
    (List.range' 0 m ++ List.range' 16 n).Nodup ↔ m ≤ 16 ∨ n = 0 := by
  rw [List.nodup_append]
  constructor
  · rintro ⟨-, -, hne⟩
    by_contra hmany
    exact hne 16 (by simp; omega) 16 (by simp; omega) rfl
  · intro hfew
    refine ⟨List.nodup_range', List.nodup_range', fun a ha b hb heq => ?_⟩
    simp at ha hb
    omega

theorem indices_nodup_iff (listing : List (ImageKind × MarkedImage)) :
    ((fixupListing 0 16 listing).map FixedImage.index).Nodup ↔
      countKind .bootStage1 listing ≤ 16 ∨ countKind .recoveryStage1 listing = 0 := by
  rw [(fixupListing_indices listing 0 16).nodup_iff, nodup_indices_iff]

/-- The fix-up is exact if and only if every marker is reached and the indices of the two kinds stay apart. -/
theorem listingExact_iff_reached (listing : List (ImageKind × MarkedImage)) :
    ListingExact listing ↔ ListingReached listing :=
  and_congr (fixupListing_exact_iff listing 0 16) (indices_nodup_iff listing)

/-- An image with an S in front of its marker: what is written into it is the place behind a later one, here the
end. -/
def swallowedImage : MarkedImage where
  front := List.replicate 48 0 ++ [72, 0] ++ List.replicate 22 0 ++ [0x53]
  back := [0]
  first := by decide
  header_even := by decide
  header_ge := by decide
  header_le := by decide
  length_lt := by decide

theorem listing_not_exact : ¬ ListingExact [(.bootStage1, swallowedImage)] := by
  rintro ⟨hexact, -⟩
  have hoffset := (hexact ⟨swallowedImage, 0, fixupImage 0 swallowedImage.bin⟩ (by simp [fixupListing])).offset
  revert hoffset
  decide

end Quark.FlashTool
