import Quark.Bds.LoadOption

/-!
# The round trip of a load option

The reader finds each field where the writer put it: the description ends at its first zero, the
device path at its end node, and the optional data is what is left. It does not depend on what follows
the buffer in memory. The one thing that can go wrong is the length of the device path, which the
writer cuts to 16 bits.
-/

namespace Quark.Bds.Proofs

open Machine Exec

/-! ## Strings -/

section Strings

variable {s : List Char16} {rest : List Byte}

theorem leValue_char (c : Char16) :
    leValue [BitVec.ofNat 8 c.toNat, BitVec.ofNat 8 (c.toNat / 256)] = c.toNat := by
  have h := leValue_leBytes 2 c.toNat
  have hlt : c.toNat < 256 ^ 2 := c.isLt
  rw [Nat.mod_eq_of_lt hlt] at h
  exact h

theorem stringBytes_cons (c : Char16) (s : List Char16) :
    stringBytes (c :: s) = leBytes 2 c.toNat ++ stringBytes s := by
  rw [stringBytes, List.flatMap_cons, List.append_assoc]
  rfl

theorem length_stringBytes (s : List Char16) : (stringBytes s).length = strSize s := by
  induction s with
  | nil => rfl
  | cons c s ih =>
    rw [stringBytes_cons, List.length_append, length_leBytes, ih]
    simp only [strSize, List.length_cons]
    omega

theorem toNat_ne_zero {c : Char16} (h : c ≠ 0#16) : c.toNat ≠ 0 := fun h0 =>
  h (BitVec.eq_of_toNat_eq h0)

theorem readString_append (h : 0#16 ∉ s) : readString (stringBytes s ++ rest) = some s := by
  induction s with
  | nil => rfl
  | cons c s ih =>
    have hc : c ≠ 0#16 := fun h0 => h (h0 ▸ List.mem_cons_self)
    have hs : 0#16 ∉ s := fun hm => h (List.mem_cons_of_mem _ hm)
    rw [stringBytes_cons, List.append_assoc]
    show (if BitVec.ofNat 16 (leValue [BitVec.ofNat 8 c.toNat, BitVec.ofNat 8 (c.toNat / 256)]) = 0
      then some [] else (readString (stringBytes s ++ rest)).map
        (BitVec.ofNat 16 (leValue [BitVec.ofNat 8 c.toNat, BitVec.ofNat 8 (c.toNat / 256)]) :: ·)) = _
    rw [leValue_char, BitVec.ofNat_toNat, BitVec.setWidth_eq, ih hs]
    exact if_neg hc

theorem strSizeExFrom_append (maxStringLen : Nat) (rest : List Byte) (h : 0#16 ∉ s) :
    ∀ length, length + 2 * s.length ≤ maxStringLen →
      strSizeExFrom maxStringLen (stringBytes s ++ rest) length = some (length + strSize s) := by
  induction s with
  | nil => intro length _; rfl
  | cons c s ih =>
    intro length hle
    have hc : c ≠ 0#16 := fun h0 => h (h0 ▸ List.mem_cons_self)
    have hs : 0#16 ∉ s := fun hm => h (List.mem_cons_of_mem _ hm)
    have hcons : 2 * (c :: s).length = 2 + 2 * s.length := by simp; omega
    rw [stringBytes_cons, List.append_assoc]
    show (if leValue [BitVec.ofNat 8 c.toNat, BitVec.ofNat 8 (c.toNat / 256)] ≠ 0 ∧
        maxStringLen ≠ length then strSizeExFrom maxStringLen (stringBytes s ++ rest) (length + 2)
      else _) = _
    rw [leValue_char, if_pos ⟨toNat_ne_zero hc, by omega⟩, ih hs (length + 2) (by omega)]
    simp only [strSize, List.length_cons]
    congr 1
    omega

end Strings

/-! ## Device paths -/

section DevicePaths

variable {rest : List Byte}

theorem length_nodeBytes (node : DevicePathNode) :
    node.bytes.length = 4 + node.content.length := by
  simp [DevicePathNode.bytes]
  omega

theorem devicePathBytes_cons (node : DevicePathNode) (nodes : List DevicePathNode) :
    devicePathBytes (node :: nodes) = node.bytes ++ devicePathBytes nodes := by
  rw [devicePathBytes, List.flatMap_cons, List.append_assoc]
  rfl

theorem isDevicePathEnd_node (node : DevicePathNode) :
    isDevicePathEnd (node.bytes ++ rest) = some false := by
  show some (decide (node.type = 0x7F#8 ∧ node.subType = 0xFF#8)) = _
  rw [decide_eq_false node.not_end]

theorem devicePathNodeLength_node (node : DevicePathNode) :
    devicePathNodeLength (node.bytes ++ rest) = some node.bytes.length := by
  have h := word?_append 2 (4 + node.content.length) [node.type, node.subType]
    (node.content ++ rest)
  have hlt : 4 + node.content.length < 256 ^ 2 := node.length_lt
  rw [Nat.mod_eq_of_lt hlt, ← length_nodeBytes node] at h
  rw [← h, length_nodeBytes node]
  simp [devicePathNodeLength, DevicePathNode.bytes]

theorem four_le_length (nodes : List DevicePathNode) : 4 ≤ (devicePathBytes nodes).length := by
  simp [devicePathBytes]

theorem devicePathSizeExFrom_eq {maxSize : Nat} (nodes : List DevicePathNode) :
    ∀ n size, size ≤ maxSize → maxSize < size + n →
      devicePathSizeExFrom maxSize n (devicePathBytes nodes ++ rest) size =
        some (if size + (devicePathBytes nodes).length ≤ maxSize
          then size + (devicePathBytes nodes).length else 0) := by
  induction nodes with
  | nil =>
    intro n size hs hn
    obtain ⟨n, rfl⟩ : ∃ m, n = m + 1 := ⟨n - 1, by omega⟩
    show (if size + 4 > maxSize then some 0 else some (size + 4)) =
      some (if size + 4 ≤ maxSize then size + 4 else 0)
    by_cases h : size + 4 ≤ maxSize
    · rw [if_neg (by omega), if_pos h]
    · rw [if_pos (by omega), if_neg h]
  | cons node nodes ih =>
    intro n size hs hn
    obtain ⟨n, rfl⟩ : ∃ m, n = m + 1 := ⟨n - 1, by omega⟩
    have hlen : node.bytes.length = 4 + node.content.length := length_nodeBytes node
    rw [devicePathBytes_cons, List.append_assoc, List.length_append, devicePathSizeExFrom]
    simp only [isDevicePathEnd_node, devicePathNodeLength_node, Option.bind_eq_bind,
      Option.bind_some, Bool.false_eq_true, if_false, List.drop_left]
    rw [if_neg (by omega)]
    by_cases h : size + node.bytes.length > maxSize
    · rw [if_pos h, if_neg (by omega)]
    · rw [if_neg h, ih n (size + node.bytes.length) (by omega) (by omega), Nat.add_assoc]

theorem devicePathSizeFrom_eq (nodes : List DevicePathNode) :
    ∀ n size, nodes.length < n →
      devicePathSizeFrom n (devicePathBytes nodes ++ rest) size =
        some (size + (devicePathBytes nodes).length) := by
  induction nodes with
  | nil =>
    intro n size hn
    obtain ⟨n, rfl⟩ : ∃ m, n = m + 1 := ⟨n - 1, by omega⟩
    rfl
  | cons node nodes ih =>
    intro n size hn
    rw [List.length_cons] at hn
    obtain ⟨n, rfl⟩ : ∃ m, n = m + 1 := ⟨n - 1, by omega⟩
    rw [devicePathBytes_cons, List.append_assoc, List.length_append, devicePathSizeFrom]
    simp only [isDevicePathEnd_node, devicePathNodeLength_node, Option.bind_eq_bind,
      Option.bind_some, Bool.false_eq_true, if_false, List.drop_left]
    rw [ih n _ (by omega), Nat.add_assoc]

theorem length_lt_length_bytes (nodes : List DevicePathNode) :
    nodes.length < (devicePathBytes nodes).length := by
  induction nodes with
  | nil => decide
  | cons node nodes ih =>
    rw [devicePathBytes_cons, List.length_append, length_nodeBytes node, List.length_cons]
    omega

theorem getDevicePathSize_eq (nodes : List DevicePathNode) :
    getDevicePathSize (devicePathBytes nodes ++ rest) = some (devicePathBytes nodes).length := by
  have hlt := length_lt_length_bytes nodes
  unfold getDevicePathSize
  rw [devicePathSizeFrom_eq nodes _ 0 (by rw [List.length_append]; omega), Nat.zero_add]

end DevicePaths

/-! ## Names -/

theorem printHex4_eq {n : Nat} (h : n < 0x10000) :
    printHex4 n = [n / 0x1000 % 16, n / 0x100 % 16, n / 0x10 % 16, n % 16].map hexDigit := by
  have h₇ : n / 16 ^ 7 % 16 = 0 := by omega
  have h₆ : n / 16 ^ 6 % 16 = 0 := by omega
  have h₅ : n / 16 ^ 5 % 16 = 0 := by omega
  have h₄ : n / 16 ^ 4 % 16 = 0 := by omega
  unfold printHex4
  simp only [List.map_cons, List.map_nil, h₇, h₆, h₅, h₄, List.dropWhile_cons, List.dropWhile_nil,
    decide_true, if_true, List.nil_append]
  rw [Nat.pow_zero, Nat.div_one, Nat.pow_one]
  rfl

theorem toNat_hexDigit {d : Nat} (h : d < 16) :
    (hexDigit d).toNat = if d < 10 then 0x30 + d else 0x41 + (d - 10) := by
  unfold hexDigit
  rw [BitVec.toNat_ofNat]
  split <;> omega

theorem charToUint_hexDigit {enabled : Bool} {d : Nat} (h : d < 16) (store : VariableStore) :
    charToUint enabled (hexDigit d) store = .ret d store := by
  unfold charToUint
  rw [toNat_hexDigit h]
  by_cases hd : d < 10
  · rw [if_pos hd, if_pos (by omega), Nat.add_sub_cancel_left]
    rfl
  · rw [if_neg hd, if_neg (by omega), if_pos (by omega)]
    have he : 0x41 + (d - 10) - 0x41 + 0xA = d := by omega
    rw [he]
    rfl

theorem charAt_digit {text digits : List Char16} {i : Nat} (hi : i < digits.length) :
    charAt (text ++ digits) (text.length + i) = some digits[i] := by
  unfold charAt
  rw [List.append_assoc, List.getElem?_append_right (Nat.le_add_right _ _), Nat.add_sub_cancel_left,
    List.getElem?_append_left hi, List.getElem?_eq_getElem hi]

theorem optionNumberOfName_eq {enabled : Bool} {n : Nat} (h : n < 0x10000) (text : List Char16)
    (store : VariableStore) :
    optionNumberOfName enabled (text ++ printHex4 n) text.length store = .ret n store := by
  have digit : ∀ {c : Option Char16} {d : Nat} {k : Nat → Exec VariableStore Nat}, d < 16 →
      c = some (hexDigit d) →
      (inBounds c >>= fun c => charToUint enabled c >>= k) store = k d store := by
    intro c d k hd hc
    rw [hc]
    exact bind_of_ret (charToUint_hexDigit hd store)
  have h₀ : charAt (text ++ printHex4 n) text.length = some (hexDigit (n / 0x1000 % 16)) := by
    rw [printHex4_eq h]
    exact charAt_digit (i := 0) (by simp)
  have h₁ : charAt (text ++ printHex4 n) (text.length + 1) = some (hexDigit (n / 0x100 % 16)) := by
    rw [printHex4_eq h]
    exact charAt_digit (i := 1) (by simp)
  have h₂ : charAt (text ++ printHex4 n) (text.length + 2) = some (hexDigit (n / 0x10 % 16)) := by
    rw [printHex4_eq h]
    exact charAt_digit (i := 2) (by simp)
  have h₃ : charAt (text ++ printHex4 n) (text.length + 3) = some (hexDigit (n % 16)) := by
    rw [printHex4_eq h]
    exact charAt_digit (i := 3) (by simp)
  unfold optionNumberOfName
  rw [digit (Nat.mod_lt _ (by decide)) h₀, digit (Nat.mod_lt _ (by decide)) h₁,
    digit (Nat.mod_lt _ (by decide)) h₂, digit (Nat.mod_lt _ (by decide)) h₃]
  have hn : (n / 0x1000 % 16 * 0x1000 + n / 0x100 % 16 * 0x100 + n / 0x10 % 16 * 0x10 + n % 16 * 0x1) %
      0x10000 = n := by omega
  rw [hn]
  rfl

def namePrefix : LoadOptionType → List Char16
  | .boot => wide ['B', 'o', 'o', 't']
  | .driver => wide ['D', 'r', 'i', 'v', 'e', 'r']

theorem loadOptionName_eq (type : LoadOptionType) {n : Nat} (h : n < 0x10000) :
    loadOptionName type n = namePrefix type ++ printHex4 n := by
  have hlen : (printHex4 n).length = 4 := by rw [printHex4_eq h]; rfl
  cases type with
  | boot => exact List.take_of_length_le (by rw [List.length_append, hlen]; decide)
  | driver => exact List.take_of_length_le (by rw [List.length_append, hlen]; decide)

theorem typeOfName_eq (type : LoadOptionType) (digits : List Char16) :
    typeOfName (namePrefix type ++ digits) = type := by
  cases type <;> rfl

/-! ## The reader -/

theorem getVariable_eq (name : List Char16) (store : VariableStore) :
    efiBootManagerGetVariableAndSize name store = .ret (store.data (global name)) store := rfl

theorem inBounds_some {σ α : Type} (a : α) (s : σ) : inBounds (some a) s = .ret a s := rfl

/-- What the data of a variable is read as: an option, an error, or nothing if the reader leaves the
memory that is mapped. -/
def readResult (memory data : List Byte) (type : LoadOptionType) (n : Nat) :
    Option (Except EfiStatus LoadOption) :=
  if data = [] then some (.error .notFound)
  else (validateOption memory data.length).bind fun valid =>
    if valid then (parseOption memory data.length n type).map .ok
    else some (.error .invalidParameter)

theorem variableToLoadOption_eq {enabled : Bool} {behind : VariableId → List Byte}
    (type : LoadOptionType) {n : Nat} (h : n < 0x10000) (store : VariableStore) :
    efiBootManagerVariableToLoadOption enabled behind (loadOptionName type n) store =
      inBounds (readResult (store.data (global (loadOptionName type n)) ++
        behind (global (loadOptionName type n))) (store.data (global (loadOptionName type n))) type n)
        store := by
  have hname := loadOptionName_eq type h
  have hnum : optionNumberOfName enabled (loadOptionName type n) (numOff type) store =
      .ret n store := by
    have hoff : numOff type = (namePrefix type).length := by cases type <;> rfl
    rw [hname, hoff]
    exact optionNumberOfName_eq h _ _
  have htype : typeOfName (loadOptionName type n) = type := by
    rw [hname]
    exact typeOfName_eq _ _
  unfold efiBootManagerVariableToLoadOption readResult
  rw [bind_of_ret (getVariable_eq _ _)]
  by_cases hd : store.data (global (loadOptionName type n)) = []
  · rw [if_pos hd, if_pos hd]
    rfl
  · rw [if_neg hd, if_neg hd]
    cases validateOption (store.data (global (loadOptionName type n)) ++
        behind (global (loadOptionName type n))) (store.data (global (loadOptionName type n))).length with
    | none => rfl
    | some valid =>
      cases valid with
      | false => rfl
      | true =>
        rw [bind_of_ret (inBounds_some _ _), if_pos rfl]
        simp only [htype]
        rw [bind_of_ret hnum, Option.bind_some, if_pos rfl]
        cases parseOption (store.data (global (loadOptionName type n)) ++
            behind (global (loadOptionName type n))) (store.data (global (loadOptionName type n))).length
            n type <;> rfl

/-! ## The variable -/

section Variable

variable {option : LoadOption} {nodes : List DevicePathNode} {behind : List Byte}

theorem length_optionVariable (option : LoadOption) (filePath : List Byte) :
    (optionVariable option filePath).length =
      4 + 2 + strSize (option.description.getD []) + filePath.length + option.optionalData.length := by
  simp only [optionVariable, List.length_append, length_leBytes, length_stringBytes]
  omega

theorem optionVariableSize_eq {filePath : List Byte}
    (h : (optionVariable option filePath).length < 0x100000000) :
    optionVariableSize option filePath = (optionVariable option filePath).length := by
  rw [length_optionVariable] at h ⊢
  exact Nat.mod_eq_of_lt h

theorem no_zero_description (h : option.WellFormed nodes) :
    0#16 ∉ option.description.getD [] := by
  cases hd : option.description with
  | none => exact List.not_mem_nil
  | some s => exact h.description s hd

def fromDescription (option : LoadOption) (nodes : List DevicePathNode) (behind : List Byte) :
    List Byte :=
  stringBytes (option.description.getD []) ++
    (devicePathBytes nodes ++ (option.optionalData ++ behind))

theorem memory_eq (option : LoadOption) (nodes : List DevicePathNode) (behind : List Byte) :
    optionVariable option (devicePathBytes nodes) ++ behind =
      leBytes 4 option.attributes.toNat ++ (leBytes 2 ((devicePathBytes nodes).length % 0x10000) ++
        fromDescription option nodes behind) := by
  simp only [optionVariable, fromDescription, List.append_assoc]

theorem read_attributes :
    word? 4 (optionVariable option (devicePathBytes nodes) ++ behind) 0 =
      some option.attributes.toNat := by
  rw [memory_eq]
  have h := word?_append 4 option.attributes.toNat []
    (leBytes 2 ((devicePathBytes nodes).length % 0x10000) ++ fromDescription option nodes behind)
  have hlt : option.attributes.toNat < 256 ^ 4 := option.attributes.isLt
  rw [Nat.mod_eq_of_lt hlt] at h
  exact h

theorem read_filePathSize :
    word? 2 (optionVariable option (devicePathBytes nodes) ++ behind) 4 =
      some ((devicePathBytes nodes).length % 0x10000) := by
  rw [memory_eq]
  have h := word?_append 2 ((devicePathBytes nodes).length % 0x10000)
    (leBytes 4 option.attributes.toNat) (fromDescription option nodes behind)
  have hsize : (256 : Nat) ^ 2 = 0x10000 := rfl
  rw [length_leBytes, hsize, Nat.mod_mod] at h
  exact h

theorem drop_description :
    (optionVariable option (devicePathBytes nodes) ++ behind).drop (4 + 2) =
      fromDescription option nodes behind := by
  rw [memory_eq, ← List.append_assoc]
  exact List.drop_left' (by simp)

theorem drop_filePath :
    (optionVariable option (devicePathBytes nodes) ++ behind).drop
        (4 + 2 + strSize (option.description.getD [])) =
      devicePathBytes nodes ++ (option.optionalData ++ behind) := by
  rw [← List.drop_drop, drop_description]
  exact List.drop_left' (length_stringBytes _)

theorem drop_optionalData :
    (optionVariable option (devicePathBytes nodes) ++ behind).drop
        (4 + 2 + strSize (option.description.getD []) + (devicePathBytes nodes).length) =
      option.optionalData ++ behind := by
  rw [← List.drop_drop, drop_filePath]
  exact List.drop_left

theorem validateOption_eq (h : option.WellFormed nodes) :
    validateOption (optionVariable option (devicePathBytes nodes) ++ behind)
        (optionVariable option (devicePathBytes nodes)).length =
      some (decide ((devicePathBytes nodes).length < 0x10000)) := by
  have hpath := four_le_length nodes
  have hstr : strSize (option.description.getD []) =
      2 * (option.description.getD []).length + 2 := Nat.mul_succ _ _
  have hsize := length_optionVariable option (devicePathBytes nodes)
  have htemp : strSizeEx (fromDescription option nodes behind)
      ((optionVariable option (devicePathBytes nodes)).length - 2 - 4) =
        some (strSize (option.description.getD [])) := by
    have := strSizeExFrom_append
      ((optionVariable option (devicePathBytes nodes)).length - 2 - 4)
      (devicePathBytes nodes ++ (option.optionalData ++ behind))
      (no_zero_description h) 0 (by omega)
    rw [Nat.zero_add] at this
    exact this
  have hlen : (devicePathBytes nodes).length % 0x10000 ≤ (devicePathBytes nodes).length :=
    Nat.mod_le _ _
  unfold validateOption
  rw [if_neg (by omega), read_filePathSize, drop_description]
  simp only [Option.bind_eq_bind, Option.bind_some, htemp, drop_filePath]
  by_cases hz : (devicePathBytes nodes).length % 0x10000 = 0
  · rw [if_pos (Or.inl hz), decide_eq_false (by omega)]
  · rw [if_neg (by omega), if_neg (by omega)]
    unfold getDevicePathSizeEx
    rw [devicePathSizeExFrom_eq nodes _ 0 (Nat.zero_le _) (by omega), Option.bind_some, Nat.zero_add]
    by_cases hlt : (devicePathBytes nodes).length < 0x10000
    · rw [if_pos (by omega), decide_eq_true hlt]
      exact congrArg some (decide_eq_true (by omega))
    · rw [if_neg (by omega), decide_eq_false hlt]
      rfl

def readBack (option : LoadOption) (nodes : List DevicePathNode) : LoadOption :=
  { option with
    description := some (option.description.getD [])
    filePath := some (devicePathBytes nodes)
    bootNext := false }

theorem parseOption_eq (h : option.WellFormed nodes)
    (hlt : (devicePathBytes nodes).length < 0x10000) :
    parseOption (optionVariable option (devicePathBytes nodes) ++ behind)
        (optionVariable option (devicePathBytes nodes)).length option.optionNumber option.optionType =
      some (readBack option nodes) := by
  have hdesc : readString (fromDescription option nodes behind) =
      some (option.description.getD []) := readString_append (no_zero_description h)
  have hod : (optionVariable option (devicePathBytes nodes)).length -
      (4 + 2 + strSize (option.description.getD []) + (devicePathBytes nodes).length) =
        option.optionalData.length := by
    rw [length_optionVariable]
    omega
  unfold parseOption
  rw [read_attributes, read_filePathSize, drop_description, Nat.mod_eq_of_lt hlt]
  simp only [Option.bind_eq_bind, Option.bind_some, hdesc, drop_filePath, getDevicePathSize_eq,
    drop_optionalData, hod, List.take_left, BitVec.ofNat_toNat, BitVec.setWidth_eq, readBack]

end Variable

/-! ## The round trip -/

section RoundTrip

variable {enabled : Bool} {behind : VariableId → List Byte} {option : LoadOption}
  {nodes : List DevicePathNode} {store : VariableStore}

theorem setVariable_eq {id : VariableId} {data : List Byte} (h : data ≠ []) :
    setVariable id data store = .ret .success (store.insert id data) := by
  unfold setVariable
  rw [bind_of_ret (show Exec.get store = .ret store store from rfl), if_neg h]
  rfl

theorem data_insert (id : VariableId) (data : List Byte) :
    VariableStore.data (store.insert id data) id = data := by
  unfold VariableStore.data
  rw [AList.lookup_insert]
  rfl

theorem write_eq (h : option.WellFormed nodes) :
    efiBootManagerLoadOptionToVariable option store =
      if optionVariableSize option (devicePathBytes nodes) <
          (optionVariable option (devicePathBytes nodes)).length then .stop .outOfBounds store
      else .ret .success (store.insert (global (loadOptionName option.optionType option.optionNumber))
        (optionVariable option (devicePathBytes nodes))) := by
  have hnum : option.optionNumber ≠ loadOptionNumberUnassigned := Nat.ne_of_lt h.number_lt
  unfold efiBootManagerLoadOptionToVariable
  rw [h.filePath]
  simp only [if_neg hnum]
  split
  · rfl
  · refine setVariable_eq fun hnil => ?_
    have hl := length_optionVariable option (devicePathBytes nodes)
    rw [hnil] at hl
    simp at hl
    omega

theorem read_eq (h : option.WellFormed nodes)
    (hstore : store.data (global (loadOptionName option.optionType option.optionNumber)) =
      optionVariable option (devicePathBytes nodes)) :
    efiBootManagerVariableToLoadOption enabled behind
        (loadOptionName option.optionType option.optionNumber) store =
      if (devicePathBytes nodes).length < 0x10000 then .ret (.ok (readBack option nodes)) store
      else .ret (.error .invalidParameter) store := by
  have hne : store.data (global (loadOptionName option.optionType option.optionNumber)) ≠ [] := by
    intro hnil
    have hl := length_optionVariable option (devicePathBytes nodes)
    rw [← hstore, hnil] at hl
    simp at hl
    omega
  have hv : validateOption (optionVariable option (devicePathBytes nodes) ++
        behind (global (loadOptionName option.optionType option.optionNumber)))
      (optionVariable option (devicePathBytes nodes)).length =
        some (decide ((devicePathBytes nodes).length < 0x10000)) := validateOption_eq h
  rw [variableToLoadOption_eq _ h.number_lt, readResult, if_neg hne, hstore, hv, Option.bind_some]
  by_cases hlt : (devicePathBytes nodes).length < 0x10000
  · rw [if_pos hlt, if_pos (decide_eq_true hlt), parseOption_eq h hlt]
    rfl
  · rw [if_neg hlt, if_neg (by simpa using hlt)]
    rfl

theorem read_written (h : option.WellFormed nodes) :
    efiBootManagerVariableToLoadOption enabled behind
        (loadOptionName option.optionType option.optionNumber)
        (store.insert (global (loadOptionName option.optionType option.optionNumber))
          (optionVariable option (devicePathBytes nodes))) =
      if (devicePathBytes nodes).length < 0x10000 then
        .ret (.ok (readBack option nodes)) (store.insert
          (global (loadOptionName option.optionType option.optionNumber))
          (optionVariable option (devicePathBytes nodes)))
      else .ret (.error .invalidParameter) (store.insert
        (global (loadOptionName option.optionType option.optionNumber))
        (optionVariable option (devicePathBytes nodes))) :=
  read_eq h (data_insert _ _)

theorem fits_of_roundTrips (h : option.WellFormed nodes)
    (hrt : RoundTrips enabled behind option store) :
    (devicePathBytes nodes).length < 0x10000 ∧
      4 + 2 + strSize (option.description.getD []) + (devicePathBytes nodes).length +
        option.optionalData.length < 0x100000000 := by
  obtain ⟨store', hw, option', hr, _⟩ := hrt
  rw [write_eq h, length_optionVariable] at hw
  split at hw
  · cases hw
  next hfits =>
    injection hw with _ hw
    subst hw
    rw [read_written h] at hr
    by_cases hlt : (devicePathBytes nodes).length < 0x10000
    · refine ⟨hlt, ?_⟩
      unfold optionVariableSize at hfits
      omega
    · rw [if_neg hlt] at hr
      cases hr

theorem roundTrips_of_fits (h : option.WellFormed nodes)
    (hlt : (devicePathBytes nodes).length < 0x10000)
    (hfits : 4 + 2 + strSize (option.description.getD []) + (devicePathBytes nodes).length +
      option.optionalData.length < 0x100000000) :
    RoundTrips enabled behind option store := by
  rw [← length_optionVariable] at hfits
  have hw : efiBootManagerLoadOptionToVariable option store = _ := write_eq h
  rw [optionVariableSize_eq hfits, if_neg (Nat.lt_irrefl _)] at hw
  refine ⟨_, hw, readBack option nodes, ?_, rfl, rfl, rfl, rfl, h.filePath.symm, rfl⟩
  rw [read_written h, if_pos hlt]

/-- An option is read back from its variable exactly when the length of its device path fits in 16
bits and the size of the variable in 32. -/
theorem loadOption_roundTrips_iff (h : option.WellFormed nodes) :
    RoundTrips enabled behind option store ↔
      (devicePathBytes nodes).length < 0x10000 ∧
        4 + 2 + strSize (option.description.getD []) + (devicePathBytes nodes).length +
          option.optionalData.length < 0x100000000 :=
  ⟨fits_of_roundTrips h, fun ⟨hlt, hfits⟩ => roundTrips_of_fits h hlt hfits⟩

def longNode : DevicePathNode where
  type := 4#8
  subType := 4#8
  content := List.replicate 0xFFFB 0
  not_end := by decide
  length_lt := by rw [List.length_replicate]; decide

def shortNode : DevicePathNode where
  type := 4#8
  subType := 1#8
  content := [1, 2, 3]
  not_end := by decide
  length_lt := by decide

def driverOption (nodes : List DevicePathNode) : LoadOption where
  optionNumber := 0x1AF
  optionType := .driver
  attributes := 1
  description := some [0x41]
  filePath := some (devicePathBytes nodes)
  optionalData := []
  bootNext := false

theorem driverOption_wellFormed (nodes : List DevicePathNode) :
    (driverOption nodes).WellFormed nodes where
  number_lt := by
    show 0x1AF < 0x10000
    decide
  description := by
    intro s hs
    injection hs with hs
    rw [← hs]
    decide
  filePath := rfl

theorem short_path_roundTrips :
    RoundTrips true (fun _ => []) (driverOption [shortNode, shortNode]) ∅ ↔
      (devicePathBytes [shortNode, shortNode]).length < 0x10000 ∧
        4 + 2 + strSize [0x41] + (devicePathBytes [shortNode, shortNode]).length + 0 <
          0x100000000 :=
  loadOption_roundTrips_iff (driverOption_wellFormed _)

theorem long_path_lost :
    (efiBootManagerLoadOptionToVariable (driverOption [longNode]) ∅).value? = some .success ∧
      ¬ RoundTrips true (fun _ => []) (driverOption [longNode]) ∅ := by
  have hl : (devicePathBytes [longNode]).length = 65539 := by
    have hc : longNode.content.length = 0xFFFB := List.length_replicate
    have hend : (devicePathBytes []).length = 4 := rfl
    rw [devicePathBytes_cons, List.length_append, length_nodeBytes, hc, hend]
  have hlt : (optionVariable (driverOption [longNode]) (devicePathBytes [longNode])).length <
      0x100000000 := by
    have hs : strSize ((driverOption [longNode]).description.getD []) = 4 := rfl
    have ho : (driverOption [longNode]).optionalData.length = 0 := rfl
    rw [length_optionVariable, hl, hs, ho]
    decide
  have hw : efiBootManagerLoadOptionToVariable (driverOption [longNode]) ∅ = _ :=
    write_eq (driverOption_wellFormed [longNode])
  rw [optionVariableSize_eq hlt, if_neg (Nat.lt_irrefl _)] at hw
  refine ⟨?_, fun hrt => ?_⟩
  · rw [hw]
    rfl
  · have hpath := (fits_of_roundTrips (driverOption_wellFormed [longNode]) hrt).1
    rw [hl] at hpath
    exact absurd hpath (by decide)

end RoundTrip

end Quark.Bds.Proofs
