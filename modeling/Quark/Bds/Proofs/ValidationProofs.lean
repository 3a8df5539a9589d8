import Quark.Bds.Proofs.LoadOptionProofs

/-!
# When the test of a load option is exact

The two scans of `ValidateOption` are bounded by counters of bytes, and these are only compared after the
bytes were read. The test is exact for data that are a load option, and for data that are refused before a
scan comes to their end.
-/

namespace Quark.Bds.Proofs

open Machine

/-! ## The description -/

theorem leBytes_char (lo hi : Byte) : leBytes 2 (leValue [lo, hi]) = [lo, hi] := by
  have hlo := lo.isLt
  have hhi := hi.isLt
  have hvalue : leValue [lo, hi] = lo.toNat + 256 * hi.toNat := rfl
  have hlow : BitVec.ofNat 8 (leValue [lo, hi]) = lo := by
    apply BitVec.eq_of_toNat_eq
    rw [hvalue, BitVec.toNat_ofNat]
    omega
  have hhigh : BitVec.ofNat 8 (leValue [lo, hi] / 256) = hi := by
    apply BitVec.eq_of_toNat_eq
    rw [hvalue, BitVec.toNat_ofNat]
    omega
  show [BitVec.ofNat 8 (leValue [lo, hi]), BitVec.ofNat 8 (leValue [lo, hi] / 256)] = _
  rw [hlow, hhigh]

theorem strSizeExFrom_some {maxStringLen t : Nat} {string : List Byte} {length : Nat}
    (hlen : t = 0 → length + string.length = maxStringLen) (h : strSizeExFrom maxStringLen string length = some t) :
    ∃ s rest, 0#16 ∉ s ∧ string = stringBytes s ++ rest ∧ t = length + strSize s := by
  induction string, length using strSizeExFrom.induct maxStringLen with
  | case1 lo hi rest length c hgo ih =>
    unfold strSizeExFrom at h
    rw [if_pos hgo] at h
    obtain ⟨s, rest', hs, hrest, rfl⟩ := ih (fun hnone => by rw [← hlen hnone, List.length_cons, List.length_cons]; omega) h
    have hlt := leValue_pair_lt lo hi
    have htoNat : (BitVec.ofNat 16 (leValue [lo, hi])).toNat = leValue [lo, hi] := by
      rw [BitVec.toNat_ofNat]
      exact Nat.mod_eq_of_lt hlt
    refine ⟨BitVec.ofNat 16 (leValue [lo, hi]) :: s, rest', ?_, ?_, ?_⟩
    · intro hmem
      rcases List.mem_cons.mp hmem with hzero | hmem
      · rw [← hzero] at htoNat
        exact hgo.1 htoNat.symm
      · exact hs hmem
    · rw [stringBytes_cons, htoNat, leBytes_char, hrest]
      rfl
    · show length + 2 + 2 * (s.length + 1) = length + 2 * (s.length + 1 + 1)
      omega
  | case2 lo hi rest length c hgo hend =>
    unfold strSizeExFrom at h
    rw [if_neg hgo, if_pos hend] at h
    injection h with h
    have hall := hlen h.symm
    rw [List.length_cons, List.length_cons] at hall
    have hmax := hend.2
    omega
  | case3 lo hi rest length c hgo hend =>
    unfold strSizeExFrom at h
    rw [if_neg hgo, if_neg hend] at h
    cases h
    have hzero : leValue [lo, hi] = 0 := by
      by_contra hne
      by_cases hmax : maxStringLen = length
      · exact hend ⟨hne, hmax⟩
      · exact hgo ⟨hne, hmax⟩
    refine ⟨[], rest, List.not_mem_nil, ?_, rfl⟩
    have hbytes := leBytes_char lo hi
    rw [hzero] at hbytes
    show lo :: hi :: rest = leBytes 2 0 ++ rest
    rw [hbytes]
    rfl
  | case4 string length hshort =>
    unfold strSizeExFrom at h
    split at h
    · next lo hi rest => exact absurd rfl (hshort lo hi rest)
    · cases h

/-! ## The device path -/

section

variable {maxSize : Nat}

theorem isDevicePathEnd_ne_none {path : List Byte} {nodeSize : Nat}
    (h : devicePathNodeLength path = some nodeSize) : ∃ last, isDevicePathEnd path = some last := by
  obtain ⟨hle, -⟩ := word?_eq_some h
  match path with
  | [] => exact absurd hle (by decide)
  | [_] => exact absurd hle (by simp)
  | type :: subType :: rest => exact ⟨_, rfl⟩

theorem pathRefused_of_zero (n : Nat) (path : List Byte) (size : Nat) (hsize : size ≤ maxSize)
    (h : devicePathSizeExFrom maxSize n path size = some 0) :
    PathRefused path (maxSize - size) ∨
      (size = 0 ∧ isDevicePathEnd path = some true ∧ devicePathNodeLength path = some 0) := by
  induction n generalizing path size with
  | zero => cases h
  | succ n ih =>
    unfold devicePathSizeExFrom at h
    obtain ⟨last, hlast, h⟩ := Option.bind_eq_some_iff.mp h
    cases last with
    | true =>
      rw [if_pos rfl] at h
      obtain ⟨nodeSize, hnode, h⟩ := Option.bind_eq_some_iff.mp h
      by_cases hfits : size + nodeSize > maxSize
      · exact .inl (.long hnode (by omega))
      · rw [if_neg hfits] at h
        injection h with h
        obtain ⟨rfl, rfl⟩ : size = 0 ∧ nodeSize = 0 := by omega
        exact .inr ⟨rfl, hlast, hnode⟩
    | false =>
      rw [if_neg Bool.false_ne_true] at h
      obtain ⟨nodeSize, hnode, h⟩ := Option.bind_eq_some_iff.mp h
      by_cases hzero : nodeSize = 0
      · subst hzero
        exact .inl (.empty hlast hnode)
      · rw [if_neg hzero] at h
        by_cases hfits : size + nodeSize > maxSize
        · exact .inl (.long hnode (by omega))
        · rw [if_neg hfits] at h
          have hroom : maxSize - (size + nodeSize) = maxSize - size - nodeSize := Nat.sub_add_eq ..
          rcases ih (path.drop nodeSize) (size + nodeSize) (by omega) h with hrest | hrest
          · rw [hroom] at hrest
            exact .inl (.next hlast hnode hzero (by omega) hrest)
          · omega

theorem zero_of_pathRefused {path : List Byte} {room : Nat} (h : PathRefused path room) :
    ∀ n size, size + room = maxSize → room < n → devicePathSizeExFrom maxSize n path size = some 0 := by
  induction h with
  | @empty path room hend hnode =>
    intro n size hsum hn
    obtain ⟨n, rfl⟩ : ∃ m, n = m + 1 := ⟨n - 1, by omega⟩
    unfold devicePathSizeExFrom
    rw [hend, hnode]
    rfl
  | @long path room nodeSize hnode hroom =>
    intro n size hsum hn
    obtain ⟨n, rfl⟩ : ∃ m, n = m + 1 := ⟨n - 1, by omega⟩
    obtain ⟨last, hlast⟩ := isDevicePathEnd_ne_none hnode
    unfold devicePathSizeExFrom
    rw [hlast, hnode]
    have hpast : size + nodeSize > maxSize := by omega
    have hne : nodeSize ≠ 0 := by omega
    cases last with
    | true => exact if_pos hpast
    | false =>
      refine (if_neg hne).trans ?_
      exact if_pos hpast
  | @next path room nodeSize hend hnode hpos hroom _ ih =>
    intro n size hsum hn
    obtain ⟨n, rfl⟩ : ∃ m, n = m + 1 := ⟨n - 1, by omega⟩
    have hrest := ih n (size + nodeSize) (by omega) (by omega)
    unfold devicePathSizeExFrom
    rw [hend, hnode]
    show (if nodeSize = 0 then some 0 else if size + nodeSize > maxSize then some 0 else
      devicePathSizeExFrom maxSize n (path.drop nodeSize) (size + nodeSize)) = some 0
    rw [if_neg hpos, if_neg (by omega)]
    exact hrest

end

/-! ## The test of a variable -/

section

variable {data : List Byte}

theorem validateOption_of_lt (h : 2 + 4 < data.length) :
    validateOption data data.length =
      (strSizeEx (data.drop (4 + 2)) (data.drop (4 + 2)).length).bind fun tempSize =>
        if pathRoom data = 0 ∨ tempSize = 0 then some false
        else if tempSize + pathRoom data + 2 + 4 > data.length then some false
        else (getDevicePathSizeEx (data.drop (4 + 2 + tempSize)) (pathRoom data)).bind fun size =>
          some (size ≠ 0) := by
  have hroom : word? 2 data 4 = some (pathRoom data) := word?_inside (by omega)
  have hrest : data.length - 2 - 4 = (data.drop (4 + 2)).length := by
    rw [List.length_drop]
    omega
  unfold validateOption
  rw [if_neg (Nat.not_le.mpr h), hroom, hrest]
  rfl

theorem validateOption_described {description : List Char16} {path : List Byte} (hlong : 2 + 4 < data.length)
    (hzero : 0#16 ∉ description) (hdrop : data.drop (4 + 2) = stringBytes description ++ path) :
    validateOption data data.length =
      if pathRoom data = 0 ∨ path.length < pathRoom data then some false
      else (getDevicePathSizeEx path (pathRoom data)).bind fun size => some (size ≠ 0) := by
  have hpath : data.drop (4 + 2 + strSize description) = path := by
    rw [← List.drop_drop, hdrop]
    exact List.drop_left' (length_stringBytes _)
  have hlen : data.length = 6 + strSize description + path.length := by
    have hcount := congrArg List.length hdrop
    rw [List.length_drop, List.length_append, length_stringBytes] at hcount
    omega
  have hscan : strSizeEx (data.drop (4 + 2)) (data.drop (4 + 2)).length = some (strSize description) := by
    have hfits : 0 + 2 * description.length ≤ (stringBytes description ++ path).length := by
      rw [List.length_append, length_stringBytes]
      unfold strSize
      omega
    rw [hdrop]
    refine (strSizeExFrom_append _ path hzero 0 hfits).trans ?_
    rw [Nat.zero_add]
  have hpos : strSize description ≠ 0 := by
    unfold strSize
    omega
  rw [validateOption_of_lt hlong, hscan, Option.bind_some, hpath]
  by_cases hroom : pathRoom data = 0
  · rw [if_pos (.inl hroom), if_pos (.inl hroom)]
  · have hnot : ¬ (pathRoom data = 0 ∨ strSize description = 0) := fun h => h.elim hroom hpos
    rw [if_neg hnot]
    by_cases hfits : path.length < pathRoom data
    · rw [if_pos (by omega), if_pos (.inr hfits)]
    · rw [if_neg (by omega), if_neg fun h => h.elim hroom hfits]

theorem accepts_of_isLoadOption (h : IsLoadOption data) :
    validateOption data data.length = some true ∧
      ∀ optionNumber type, parseOption data data.length optionNumber type ≠ none := by
  obtain ⟨attributes, description, nodes, unused, optionalData, hattributes, hzero, hlt, hdata⟩ := h
  have hnodes := four_le_length nodes
  have hused : (devicePathBytes nodes ++ unused).length = (devicePathBytes nodes).length + unused.length :=
    List.length_append
  have hlong : 2 + 4 < data.length := by
    rw [hdata]
    simp only [List.length_append, length_leBytes, hattributes]
    omega
  have hroom : word? 2 data 4 = some (devicePathBytes nodes ++ unused).length := by
    have hword := word?_append 2 (devicePathBytes nodes ++ unused).length attributes
      (stringBytes description ++ (devicePathBytes nodes ++ unused ++ optionalData))
    rw [← hdata, hattributes] at hword
    rw [hword]
    exact congrArg some (Nat.mod_eq_of_lt hlt)
  have hpathRoom : pathRoom data = (devicePathBytes nodes ++ unused).length := (word?_eq_some hroom).2.symm
  have hdrop : data.drop (4 + 2) =
      stringBytes description ++ (devicePathBytes nodes ++ unused ++ optionalData) := by
    rw [hdata, ← List.append_assoc attributes]
    refine List.drop_left' ?_
    rw [List.length_append, hattributes, length_leBytes]
  constructor
  · have hwalk : getDevicePathSizeEx (devicePathBytes nodes ++ unused ++ optionalData)
        (devicePathBytes nodes ++ unused).length = some (devicePathBytes nodes).length := by
      unfold getDevicePathSizeEx
      rw [List.append_assoc (devicePathBytes nodes), devicePathSizeExFrom_eq nodes _ 0 (by omega) (by omega),
        Nat.zero_add, if_pos (by omega)]
    have hin : (devicePathBytes nodes ++ unused ++ optionalData).length =
        (devicePathBytes nodes ++ unused).length + optionalData.length := List.length_append
    rw [validateOption_described hlong hzero hdrop, hpathRoom, if_neg (by omega), hwalk, Option.bind_some,
      decide_eq_true (by omega)]
  · intro optionNumber type
    have hattr : word? 4 data 0 = some (leValue ((data.drop 0).take 4)) := word?_inside (by omega)
    have hpath : data.drop (4 + 2 + strSize description) =
        devicePathBytes nodes ++ unused ++ optionalData := by
      rw [← List.drop_drop, hdrop]
      exact List.drop_left' (length_stringBytes _)
    have hread : readString (data.drop (4 + 2)) = some description := by
      rw [hdrop]
      exact readString_append hzero
    have hsize : getDevicePathSize (data.drop (4 + 2 + strSize description)) =
        some (devicePathBytes nodes).length := by
      rw [hpath, List.append_assoc (devicePathBytes nodes)]
      exact getDevicePathSize_eq nodes
    unfold parseOption
    rw [hattr, hroom, hread]
    show (getDevicePathSize (data.drop (4 + 2 + strSize description))).bind _ ≠ none
    rw [hsize]
    exact Option.some_ne_none _

theorem refuses_of_optionRefused (h : OptionRefused data) :
    validateOption data data.length = some false := by
  rcases h with hshort | ⟨description, path, hzero, hdrop, hrefused⟩
  · exact if_pos hshort
  · by_cases hlong : 2 + 4 < data.length
    · rw [validateOption_described hlong hzero hdrop]
      by_cases hroom : pathRoom data = 0 ∨ path.length < pathRoom data
      · exact if_pos hroom
      · have hwalk : getDevicePathSizeEx path (pathRoom data) = some 0 := by
          rcases hrefused with hroom' | hfits | hpath | ⟨hend, hnode⟩
          · exact absurd (.inl hroom') hroom
          · exact absurd (.inr hfits) hroom
          · exact zero_of_pathRefused hpath _ 0 (Nat.zero_add _) (Nat.lt_succ_self _)
          · unfold getDevicePathSizeEx devicePathSizeExFrom
            rw [hend, hnode]
            show (if 0 + 0 > pathRoom data then some 0 else some (0 + 0)) = some 0
            exact ite_self _
        rw [if_neg hroom, hwalk]
        rfl
    · exact if_pos (Nat.not_lt.mp hlong)

theorem optionRefused_of_refuses (h : validateOption data data.length = some false) :
    OptionRefused data := by
  by_cases hlong : 2 + 4 < data.length
  · have hscan := h
    rw [validateOption_of_lt hlong] at hscan
    obtain ⟨tempSize, hstring, -⟩ := Option.bind_eq_some_iff.mp hscan
    obtain ⟨description, path, hzero, hdrop, -⟩ := strSizeExFrom_some (fun _ => Nat.zero_add _) hstring
    refine .inr ⟨description, path, hzero, hdrop, ?_⟩
    rw [validateOption_described hlong hzero hdrop] at h
    by_cases hroom : pathRoom data = 0 ∨ path.length < pathRoom data
    · exact hroom.elim .inl fun hfits => .inr (.inl hfits)
    · rw [if_neg hroom] at h
      obtain ⟨size, hwalk, hsize⟩ := Option.bind_eq_some_iff.mp h
      have hnone : size = 0 := by simpa using hsize
      rw [hnone] at hwalk
      rcases pathRefused_of_zero _ path 0 (Nat.zero_le _) hwalk with hpath | ⟨-, hend, hnode⟩
      · exact .inr (.inr (.inl hpath))
      · exact .inr (.inr (.inr ⟨hend, hnode⟩))
  · exact .inl (Nat.not_lt.mp hlong)

end

theorem validationExact_iff (data : List Byte) :
    ValidationExact data ↔ IsLoadOption data ∨ OptionRefused data := by
  constructor
  · intro h
    obtain ⟨accepted, haccepted⟩ := Option.ne_none_iff_exists'.mp h.inside
    cases accepted with
    | true => exact .inl (h.exact.mp haccepted)
    | false => exact .inr (optionRefused_of_refuses haccepted)
  · rintro (h | h)
    · obtain ⟨haccepts, hlater⟩ := accepts_of_isLoadOption h
      refine ⟨?_, iff_of_true haccepts h, fun optionNumber type _ => hlater optionNumber type⟩
      rw [haccepts]
      exact Option.some_ne_none true
    · have hrefuses := refuses_of_optionRefused h
      have hnot : validateOption data data.length ≠ some true := by
        rw [hrefuses]
        decide
      refine ⟨?_, iff_of_false hnot fun hoption => hnot (accepts_of_isLoadOption hoption).1,
        fun _ _ haccepts => absurd haccepts hnot⟩
      rw [hrefuses]
      exact Option.some_ne_none false

theorem unterminated_not_exact : ¬ ValidationExact [1, 0, 0, 0, 4, 0, 0x41, 0] :=
  fun h => h.inside (by decide)

end Quark.Bds.Proofs
