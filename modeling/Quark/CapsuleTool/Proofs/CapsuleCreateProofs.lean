import Quark.CapsuleTool.Config

/-!
# What the tool makes of a configuration

The lines of a block are followed one by one. The outcome for a block is `written`, and the capsule is
made of the outcomes of all blocks.
-/

namespace Quark.CapsuleTool

open Machine

/-! ## Strings -/

theorem infix_iff_contains {needle : Line} (line : Line) : Contains needle line ↔ needle <:+: line := by
  induction line with
  | nil =>
    unfold Contains strstr
    by_cases hn : needle = []
    · simp [hn]
    · simp [hn]
  | cons c cs ih =>
    unfold Contains strstr
    by_cases hp : needle.isPrefixOf (c :: cs) = true
    · rw [if_pos hp]
      exact ⟨fun _ => (List.isPrefixOf_iff_prefix.mp hp).isInfix, fun _ => Option.some_ne_none _⟩
    · rw [if_neg hp, List.infix_cons_iff]
      refine ih.trans ⟨.inr, fun h => h.resolve_left fun hpre => hp ?_⟩
      exact List.isPrefixOf_iff_prefix.mpr hpre

theorem prefix_of_stripped (line : Line) : stripped line <+: line := by
  unfold stripped removeLineBreak
  split
  · exact List.nil_prefix
  · rename_i cs h
    have hl : line = cs.reverse ++ ['\r', '\n'] := by
      rw [← List.reverse_reverse line, h]
      simp
    rw [Option.getD_some, hl]
    exact List.prefix_append _ _
  · rename_i cs _ _ h
    have hl : line = cs.reverse ++ ['\n'] := by
      rw [← List.reverse_reverse line, h]
      simp
    rw [Option.getD_some, hl]
    exact List.prefix_append _ _
  · exact List.prefix_rfl

theorem not_contains_stripped {needle line : Line} (h : ¬ Contains needle line) :
    ¬ Contains needle (stripped line) := by
  rw [infix_iff_contains] at h ⊢
  exact fun hi => h (hi.trans (prefix_of_stripped line).isInfix)

/-! ## The stream -/

/-- The lines `ls` are still to be read. -/
structure Stream.At (f : Stream) (ls : List Line) (lastLineOpen : Bool) : Prop where
  lines_eq : f.lines = ls
  open_eq : f.lastLineOpen = lastLineOpen
  feof_eq : f.feof = (ls.isEmpty && lastLineOpen)
  line : ls = [] → ∃ str, f.lineString = some str ∧ ¬ Contains beginString str

variable {T : Tool} {f : Stream} {ls : List Line} {l : Line} {op : Bool}

def Stream.behind (l : Line) (ls : List Line) (op : Bool) : Stream :=
  ⟨ls, some l, ls.isEmpty && op, op⟩

theorem Stream.At.read (h : f.At (l :: ls) op) : readLineInStream f = Stream.behind l ls op := by
  unfold readLineInStream
  rw [h.lines_eq]
  dsimp only
  rw [h.open_eq]
  rfl

theorem Stream.at_behind (h : ls = [] → ¬ Contains beginString l) :
    (Stream.behind l ls op).At ls op :=
  ⟨rfl, rfl, rfl, fun hn => ⟨l, rfl, h hn⟩⟩

/-! ## The inner loop -/

section Block

variable {hint : UpdateHint} {payload : List UInt8} {n : Nat}

theorem blockLoop_empty_line (hf : f.At (l :: ls) op) (hl : removeLineBreak l = none) :
    blockLoop T n f hint payload = none := by
  cases n with
  | zero => rfl
  | succ n =>
    unfold blockLoop
    rw [hf.read]
    show ((some l).bind removeLineBreak).bind _ = none
    rw [Option.bind_some, hl]
    rfl

theorem blockLoop_end {hint' : UpdateHint} {payload' : List UInt8} (hf : f.At (l :: ls) op)
    (hl : removeLineBreak l ≠ none)
    (hline : processLine T (stripped l) hint payload = some (hint', payload'))
    (hend : Contains endString (stripped l)) :
    blockLoop T (n + 1) f hint payload =
      some (Stream.behind (stripped l) ls op, hint', payload') := by
  obtain ⟨line, hline'⟩ := Option.ne_none_iff_exists'.mp hl
  have hs : stripped l = line := by
    unfold stripped
    rw [hline', Option.getD_some]
  rw [hs] at hline hend ⊢
  unfold blockLoop
  rw [hf.read]
  show ((some l).bind removeLineBreak).bind _ = _
  rw [Option.bind_some, hline', Option.bind_some]
  show (processLine T line hint payload).bind _ = _
  rw [hline, Option.bind_some]
  dsimp only
  rw [if_neg (fun h => h.1 hend), if_neg (not_not_intro hend)]
  rfl

theorem blockLoop_line {hint' : UpdateHint} {payload' : List UInt8} (hf : f.At (l :: ls) op)
    (hl : removeLineBreak l ≠ none)
    (hline : processLine T (stripped l) hint payload = some (hint', payload'))
    (hend : ¬ Contains endString (stripped l)) (hls : ls ≠ []) :
    blockLoop T (n + 1) f hint payload =
      blockLoop T n (Stream.behind (stripped l) ls op) hint' payload' := by
  obtain ⟨line, hline'⟩ := Option.ne_none_iff_exists'.mp hl
  have hs : stripped l = line := by
    unfold stripped
    rw [hline', Option.getD_some]
  have hfeof : (Stream.behind l ls op).feof = false := by
    unfold Stream.behind
    rw [List.isEmpty_eq_false_iff.mpr hls, Bool.false_and]
  rw [hs] at hline hend ⊢
  conv => lhs; unfold blockLoop
  rw [hf.read]
  show ((some l).bind removeLineBreak).bind _ = _
  rw [Option.bind_some, hline', Option.bind_some]
  show (processLine T line hint payload).bind _ = _
  rw [hline, Option.bind_some]
  dsimp only
  rw [if_pos ⟨hend, hfeof⟩]
  rfl

theorem IsFiller.process (h : IsFiller l) :
    processLine T (stripped l) hint payload = some (hint, payload) := by
  unfold processLine
  rw [h.no_file, h.no_address]

theorem blockLoop_fillers {fs : List Line} (hf : f.At (fs ++ ls) op) (hfs : ∀ l ∈ fs, IsFiller l)
    (hls : ls ≠ []) :
    (∃ l ∈ fs, removeLineBreak l = none) ∧ blockLoop T (fs.length + n) f hint payload = none ∨
      (∀ l ∈ fs, removeLineBreak l ≠ none) ∧ ∃ f', f'.At ls op ∧
        blockLoop T (fs.length + n) f hint payload = blockLoop T n f' hint payload := by
  induction fs generalizing f with
  | nil =>
    refine .inr ⟨fun l hl => absurd hl List.not_mem_nil, f, hf, ?_⟩
    rw [List.length_nil, Nat.zero_add]
  | cons l fs ih =>
    rw [List.cons_append] at hf
    by_cases hl : removeLineBreak l = none
    · exact .inl ⟨⟨l, List.mem_cons_self, hl⟩, blockLoop_empty_line hf hl⟩
    have hfill := hfs l List.mem_cons_self
    have hne : fs ++ ls ≠ [] := fun h => hls (List.append_eq_nil_iff.mp h).2
    have hstep : blockLoop T (fs.length + n + 1) f hint payload =
        blockLoop T (fs.length + n) (Stream.behind (stripped l) (fs ++ ls) op) hint payload :=
      blockLoop_line hf hl hfill.process hfill.no_end hne
    rw [List.length_cons, Nat.add_right_comm, hstep]
    rcases ih (Stream.at_behind fun h => absurd h hne)
        (fun l hl => hfs l (List.mem_cons_of_mem _ hl)) with ⟨⟨x, hx, hnone⟩, hrun⟩ | ⟨hall, f', hf', hrun⟩
    · exact .inl ⟨⟨x, List.mem_cons_of_mem _ hx, hnone⟩, hrun⟩
    · refine .inr ⟨fun x hx => ?_, f', hf', hrun⟩
      rcases List.mem_cons.mp hx with rfl | hx
      · exact hl
      · exact hall x hx

theorem blockLoop_to_line {fs : List Line} {hint' : UpdateHint} {payload' : List UInt8}
    (hf : f.At (fs ++ l :: ls) op) (hfs : ∀ l ∈ fs, IsFiller l) (hl : removeLineBreak l ≠ none)
    (hline : processLine T (stripped l) hint payload = some (hint', payload'))
    (hend : ¬ Contains endString (stripped l)) (hls : ls ≠ []) :
    (∃ l ∈ fs, removeLineBreak l = none) ∧ blockLoop T (fs.length + (n + 1)) f hint payload = none ∨
      (∀ l ∈ fs, removeLineBreak l ≠ none) ∧ ∃ f', f'.At ls op ∧
        blockLoop T (fs.length + (n + 1)) f hint payload = blockLoop T n f' hint' payload' := by
  rcases blockLoop_fillers hf hfs (List.cons_ne_nil l ls) with hnone | ⟨hall, f', hf', hrun⟩
  · exact .inl hnone
  · refine .inr ⟨hall, Stream.behind (stripped l) ls op, Stream.at_behind fun h => absurd h hls, ?_⟩
    rw [hrun]
    exact blockLoop_line hf' hl hline hend hls

theorem blockLoop_to_end {fs : List Line} {hint' : UpdateHint} {payload' : List UInt8}
    (hf : f.At (fs ++ l :: ls) op) (hfs : ∀ l ∈ fs, IsFiller l) (hl : removeLineBreak l ≠ none)
    (hline : processLine T (stripped l) hint payload = some (hint', payload'))
    (hend : Contains endString (stripped l)) :
    (∃ l ∈ fs, removeLineBreak l = none) ∧ blockLoop T (fs.length + (n + 1)) f hint payload = none ∨
      (∀ l ∈ fs, removeLineBreak l ≠ none) ∧
        blockLoop T (fs.length + (n + 1)) f hint payload =
          some (Stream.behind (stripped l) ls op, hint', payload') := by
  rcases blockLoop_fillers hf hfs (List.cons_ne_nil l ls) with hnone | ⟨hall, f', hf', hrun⟩
  · exact .inl hnone
  · refine .inr ⟨hall, ?_⟩
    rw [hrun]
    exact blockLoop_end hf' hl hline hend

theorem blockLoop_two {fs fs' : List Line} {l' : Line} {hint₁ hint₂ : UpdateHint}
    {payload₁ payload₂ : List UInt8} (hf : f.At (fs ++ l :: (fs' ++ l' :: ls)) op)
    (hfs : ∀ l ∈ fs, IsFiller l) (hfs' : ∀ l ∈ fs', IsFiller l)
    (hl : removeLineBreak l ≠ none) (hl' : removeLineBreak l' ≠ none)
    (hline : processLine T (stripped l) hint payload = some (hint₁, payload₁))
    (hline' : processLine T (stripped l') hint₁ payload₁ = some (hint₂, payload₂))
    (hend : ¬ Contains endString (stripped l)) (hend' : Contains endString (stripped l')) :
    (∃ l ∈ fs ++ fs', removeLineBreak l = none) ∧
        blockLoop T (fs.length + (fs'.length + (n + 1) + 1)) f hint payload = none ∨
      (∀ l ∈ fs ++ fs', removeLineBreak l ≠ none) ∧
        blockLoop T (fs.length + (fs'.length + (n + 1) + 1)) f hint payload =
          some (Stream.behind (stripped l') ls op, hint₂, payload₂) := by
  have hne : fs' ++ l' :: ls ≠ [] := by simp
  rcases blockLoop_to_line hf hfs hl hline hend hne with ⟨⟨x, hx, hn⟩, hrun⟩ | ⟨hall, f', hf', hrun⟩
  · exact .inl ⟨⟨x, List.mem_append_left _ hx, hn⟩, hrun⟩
  rw [hrun]
  rcases blockLoop_to_end hf' hfs' hl' hline' hend' with ⟨⟨x, hx, hn⟩, hrun'⟩ | ⟨hall', hrun'⟩
  · exact .inl ⟨⟨x, List.mem_append_right _ hx, hn⟩, hrun'⟩
  · refine .inr ⟨fun x hx => ?_, hrun'⟩
    rcases List.mem_append.mp hx with hx | hx
    · exact hall x hx
    · exact hall' x hx

theorem blockLoop_three {fs fs' fs'' : List Line} {l' l'' : Line} {hint₁ hint₂ hint₃ : UpdateHint}
    {payload₁ payload₂ payload₃ : List UInt8}
    (hf : f.At (fs ++ l :: (fs' ++ l' :: (fs'' ++ l'' :: ls))) op)
    (hfs : ∀ l ∈ fs, IsFiller l) (hfs' : ∀ l ∈ fs', IsFiller l) (hfs'' : ∀ l ∈ fs'', IsFiller l)
    (hl : removeLineBreak l ≠ none) (hl' : removeLineBreak l' ≠ none)
    (hl'' : removeLineBreak l'' ≠ none)
    (hline : processLine T (stripped l) hint payload = some (hint₁, payload₁))
    (hline' : processLine T (stripped l') hint₁ payload₁ = some (hint₂, payload₂))
    (hline'' : processLine T (stripped l'') hint₂ payload₂ = some (hint₃, payload₃))
    (hend : ¬ Contains endString (stripped l)) (hend' : ¬ Contains endString (stripped l'))
    (hend'' : Contains endString (stripped l'')) :
    (∃ l ∈ fs ++ fs' ++ fs'', removeLineBreak l = none) ∧ blockLoop T
        (fs.length + (fs'.length + (fs''.length + (n + 1) + 1) + 1)) f hint payload = none ∨
      (∀ l ∈ fs ++ fs' ++ fs'', removeLineBreak l ≠ none) ∧ blockLoop T
        (fs.length + (fs'.length + (fs''.length + (n + 1) + 1) + 1)) f hint payload =
          some (Stream.behind (stripped l'') ls op, hint₃, payload₃) := by
  have hne : fs' ++ l' :: (fs'' ++ l'' :: ls) ≠ [] := by simp
  rw [List.append_assoc]
  rcases blockLoop_to_line hf hfs hl hline hend hne with ⟨⟨x, hx, hn⟩, hrun⟩ | ⟨hall, f', hf', hrun⟩
  · exact .inl ⟨⟨x, List.mem_append_left _ hx, hn⟩, hrun⟩
  rw [hrun]
  rcases blockLoop_two hf' hfs' hfs'' hl' hl'' hline' hline'' hend' hend'' with
    ⟨⟨x, hx, hn⟩, hrun'⟩ | ⟨hall', hrun'⟩
  · exact .inl ⟨⟨x, List.mem_append_right _ hx, hn⟩, hrun'⟩
  · refine .inr ⟨fun x hx => ?_, hrun'⟩
    rcases List.mem_append.mp hx with hx | hx
    · exact hall x hx
    · exact hall' x hx

end Block

/-! ## Blocks -/

theorem length_padded (image : List UInt8) :
    (padded image).length = image.length + padSize image.length := by
  unfold padded
  rw [List.length_append, List.length_replicate]

theorem padded_aligned (image : List UInt8) : (padded image).length % 0x1000 = 0 := by
  rw [length_padded]
  unfold padSize
  show (image.length + if image.length % 4096 ≠ 0 then 4096 - image.length % 4096 else 0) % 4096 = 0
  split <;> omega

section Means

variable {b : ConfigBlock} {image : List UInt8} {address : Nat} (hm : b.Means T image address)
  {hint : UpdateHint} {payload : List UInt8}

include hm

theorem ConfigBlock.Means.process_file
    (hsize : payload.length + (padded image).length < maxCapsulePayloadSize) :
    processLine T (stripped b.fileLine) hint payload =
      some ({ hint with size := (padded image).length }, payload ++ padded image) := by
  obtain ⟨value, hvalue, hopen⟩ := hm.file
  have hsize : payload.length + (padded image).length < 0xA00000 := hsize
  have hlen := length_padded image
  unfold processLine
  rw [hvalue]
  dsimp only
  rw [hopen]
  dsimp only
  rw [u32_of_lt (show image.length < 0x100000000 by omega), List.take_length]
  rw [if_neg, u32_of_lt (show (padded image).length < 0x100000000 by omega)]
  rw [u32_of_lt (by omega)]
  show ¬ 0xA00000 ≤ _
  omega

theorem ConfigBlock.Means.process_address :
    processLine T (stripped b.addressLine) hint payload =
      some ({ hint with targetAddr := u32 address }, payload) := by
  obtain ⟨value, hvalue, htext⟩ := hm.address_text
  unfold processLine
  rw [hm.address_no_file, hvalue]
  dsimp only
  rw [htext]

theorem ConfigBlock.Means.process_end :
    processLine T (stripped b.endLine) hint payload = some (hint, payload) := by
  unfold processLine
  rw [hm.end_no_file, hm.end_no_address]

end Means

def ConfigBlock.inner (b : ConfigBlock) : List Line :=
  b.before ++ b.firstLine :: (b.between ++ b.secondLine :: (b.behind ++ [b.endLine]))

def ConfigBlock.hint (b : ConfigBlock) (image : List UInt8) (address : Nat) : UpdateHint :=
  { UpdateHint.unset with
    size := (padded image).length
    targetAddr := if b.EndInName ∧ b.addressFirst = false then 0xFFFFFFFF else u32 address }

theorem blockLoop_block {b : ConfigBlock} {image : List UInt8} {address n : Nat} {rest : List Line}
    {payload : List UInt8} (hm : b.Means T image address)
    (hsize : payload.length + (padded image).length < maxCapsulePayloadSize)
    (hn : b.inner.length ≤ n) (hf : f.At (b.inner ++ rest) op) :
    (∃ l ∈ b.passed, removeLineBreak l = none) ∧ blockLoop T n f .unset payload = none ∨
      (∀ l ∈ b.passed, removeLineBreak l ≠ none) ∧ ∃ f' left, f'.At (left ++ rest) op ∧
        (∀ l ∈ left, ¬ Contains beginString l) ∧ left.length ≤ b.inner.length ∧
        blockLoop T n f .unset payload =
          some (f', b.hint image address, payload ++ padded image) := by
  have hbefore : ∀ l ∈ b.before, IsFiller l := fun l hl => hm.fillers l (by simp [hl])
  have hbetween : ∀ l ∈ b.between, IsFiller l := fun l hl => hm.fillers l (by simp [hl])
  have hbehind : ∀ l ∈ b.behind, IsFiller l := fun l hl => hm.fillers l (by simp [hl])
  have hend_begin : ¬ Contains beginString (stripped b.endLine) := not_contains_stripped hm.end_no_begin
  -- the length of the lines, for the bound of the loop
  have hlen : b.inner.length =
      b.before.length + (b.between.length + (b.behind.length + 1 + 1) + 1) := by
    unfold ConfigBlock.inner
    simp only [List.length_append, List.length_cons, List.length_nil]
  have hlines : b.inner ++ rest = b.before ++ b.firstLine :: (b.between ++ b.secondLine ::
      (b.behind ++ b.endLine :: rest)) := by
    unfold ConfigBlock.inner
    simp only [List.append_assoc, List.cons_append, List.nil_append]
  rw [hlines] at hf
  unfold ConfigBlock.hint ConfigBlock.passed
  cases hfirst : b.addressFirst with
  | false =>
    rw [show b.firstLine = b.fileLine by unfold ConfigBlock.firstLine; rw [hfirst]; rfl,
      show b.secondLine = b.addressLine by unfold ConfigBlock.secondLine; rw [hfirst]; rfl] at hf
    by_cases hname : b.EndInName
    · rw [if_pos hname, if_neg (by decide), if_pos ⟨hname, rfl⟩]
      obtain ⟨m, rfl⟩ : ∃ m, n = b.before.length + (m + 1) := ⟨n - b.before.length - 1, by omega⟩
      rcases blockLoop_to_end hf hbefore hm.file_break (hm.process_file hsize) hname with
        hnone | ⟨hall, hrun⟩
      · exact .inl hnone
      · refine .inr ⟨hall, _, b.between ++ b.addressLine :: (b.behind ++ [b.endLine]),
          ?_, ?_, ?_, hrun⟩
        · simp only [List.append_assoc, List.cons_append, List.nil_append]
          exact Stream.at_behind fun h => absurd h (by simp)
        · intro l hl
          simp only [List.mem_append, List.mem_cons, List.not_mem_nil, or_false] at hl
          rcases hl with hl | rfl | hl | rfl
          · exact (hbetween l hl).no_begin
          · exact hm.address_no_begin
          · exact (hbehind l hl).no_begin
          · exact hm.end_no_begin
        · rw [hlen]
          simp only [List.length_append, List.length_cons, List.length_nil]
          omega
    · rw [if_neg hname, if_neg (fun h => hname h.1)]
      obtain ⟨m, rfl⟩ : ∃ m, n = b.before.length + (b.between.length + (b.behind.length +
          (m + 1) + 1) + 1) :=
        ⟨n - b.before.length - b.between.length - b.behind.length - 3, by omega⟩
      rcases blockLoop_three hf hbefore hbetween hbehind hm.file_break hm.address_break hm.end_break
          (hm.process_file hsize) hm.process_address hm.process_end hname hm.address_no_end hm.ends with
        hnone | ⟨hall, hrun⟩
      · exact .inl hnone
      · exact .inr ⟨hall, _, [], Stream.at_behind fun _ => hend_begin,
          fun l hl => absurd hl List.not_mem_nil, Nat.zero_le _, hrun⟩
  | true =>
    rw [show b.firstLine = b.addressLine by unfold ConfigBlock.firstLine; rw [hfirst]; rfl,
      show b.secondLine = b.fileLine by unfold ConfigBlock.secondLine; rw [hfirst]; rfl] at hf
    have hseen : ¬ (b.EndInName ∧ true = false) := fun h => by cases h.2
    rw [if_neg hseen]
    by_cases hname : b.EndInName
    · rw [if_pos hname, if_pos rfl]
      obtain ⟨m, rfl⟩ : ∃ m, n = b.before.length + (b.between.length + (m + 1) + 1) :=
        ⟨n - b.before.length - b.between.length - 2, by omega⟩
      rcases blockLoop_two hf hbefore hbetween hm.address_break hm.file_break hm.process_address
          (hm.process_file hsize) hm.address_no_end hname with hnone | ⟨hall, hrun⟩
      · exact .inl hnone
      · refine .inr ⟨hall, _, b.behind ++ [b.endLine], ?_, ?_, ?_, hrun⟩
        · simp only [List.append_assoc, List.cons_append, List.nil_append]
          exact Stream.at_behind fun h => absurd h (by simp)
        · intro l hl
          rcases List.mem_append.mp hl with hl | hl
          · exact (hbehind l hl).no_begin
          · rw [List.mem_singleton.mp hl]
            exact hm.end_no_begin
        · rw [hlen, List.length_append, List.length_singleton]
          omega
    · rw [if_neg hname]
      obtain ⟨m, rfl⟩ : ∃ m, n = b.before.length + (b.between.length + (b.behind.length +
          (m + 1) + 1) + 1) :=
        ⟨n - b.before.length - b.between.length - b.behind.length - 3, by omega⟩
      rcases blockLoop_three hf hbefore hbetween hbehind hm.address_break hm.file_break hm.end_break
          hm.process_address (hm.process_file hsize) hm.process_end hm.address_no_end hname hm.ends with
        hnone | ⟨hall, hrun⟩
      · exact .inl hnone
      · exact .inr ⟨hall, _, [], Stream.at_behind fun _ => hend_begin,
          fun l hl => absurd hl List.not_mem_nil, Nat.zero_le _, hrun⟩

/-! ## The configuration -/

def Progress.push (p : Progress) (target : Nat) (image : List UInt8) : Progress where
  hintData := p.hintData ++ [⟨target, (padded image).length, p.sourceOffset, 0xFFFFFFFF⟩]
  sourceOffset := u32 (p.sourceOffset + (padded image).length)
  payload := p.payload ++ padded image

theorem addHint_hint {b : ConfigBlock} {image : List UInt8} {address : Nat} (p : Progress)
    (himage : image ≠ []) (hbreak : ∀ l ∈ b.passed, removeLineBreak l ≠ none) :
    addHint p (b.hint image address) (p.payload ++ padded image) =
      (b.written address).map fun target => p.push target image := by
  have hpos : 0 < image.length := List.length_pos_iff.mpr himage
  have hlen := length_padded image
  have hsize : ¬ ((padded image).length = 0 ∨ (padded image).length % 0x1000 ≠ 0) := by
    have hal := padded_aligned image
    omega
  have hno : ¬ ∃ l ∈ b.passed, removeLineBreak l = none := fun ⟨l, hl, hn⟩ => hbreak l hl hn
  unfold addHint ConfigBlock.written ConfigBlock.hint
  dsimp only
  rw [if_neg hsize, if_neg hno]
  by_cases hseen : b.EndInName ∧ b.addressFirst = false
  · rw [if_pos hseen, if_pos hseen, if_neg (by decide)]
    rfl
  · rw [if_neg hseen, if_neg hseen]
    by_cases hz : u32 address = 0
    · rw [if_pos hz, if_pos hz]
      rfl
    · rw [if_neg hz, if_neg hz]
      rfl

def writeAll : List Item → Progress → Option Progress
  | [], p => some p
  | x :: xs, p => (x.block.written x.address).bind fun target => writeAll xs (p.push target x.image)

section Config

variable {p : Progress} {n : Nat}

theorem configLoop_rest (hf : f.At ls op) (hls : ∀ l ∈ ls, ¬ Contains beginString l)
    (hn : ls.length + 2 ≤ n) : configLoop T n f p = some p := by
  induction n generalizing f ls with
  | zero => omega
  | succ n ih =>
    unfold configLoop
    by_cases hgo : f.feof = false ∧ p.hintData.length < maxImagesPerCapsule - 1
    swap
    · rw [if_neg hgo]
    rw [if_pos hgo]
    cases ls with
    | cons l ls =>
      have hl := hls l List.mem_cons_self
      rw [hf.read]
      show (some l).bind _ = _
      rw [Option.bind_some, if_neg hl]
      rw [List.length_cons] at hn
      exact ih (Stream.at_behind fun _ => hl) (fun x hx => hls x (List.mem_cons_of_mem _ hx))
        (by omega)
    | nil =>
      obtain ⟨str, hstr, hbegin⟩ := hf.line rfl
      have hread : readLineInStream f = { f with feof := true } := by
        unfold readLineInStream
        rw [hf.lines_eq]
      rw [hread]
      show f.lineString.bind _ = _
      rw [hstr, Option.bind_some, if_neg hbegin]
      cases n with
      | zero => exact absurd hn (by simp)
      | succ n =>
        unfold configLoop
        exact if_neg fun h => by cases h.1

theorem configLoop_gap {gap : List Line} (hf : f.At (gap ++ ls) op)
    (hgap : ∀ l ∈ gap, ¬ Contains beginString l) (hls : ls ≠ [])
    (hcount : p.hintData.length < maxImagesPerCapsule - 1) :
    ∃ f', f'.At ls op ∧ configLoop T (gap.length + n) f p = configLoop T n f' p := by
  induction gap generalizing f with
  | nil => exact ⟨f, hf, by rw [List.length_nil, Nat.zero_add]⟩
  | cons l gap ih =>
    have hl := hgap l List.mem_cons_self
    have hne : gap ++ ls ≠ [] := fun h => hls (List.append_eq_nil_iff.mp h).2
    rw [List.cons_append] at hf
    have hfeof : f.feof = false := by
      rw [hf.feof_eq, List.isEmpty_cons, Bool.false_and]
    obtain ⟨f', hf', hrun⟩ := ih (Stream.at_behind (l := l) fun h => absurd h hne)
      (fun x hx => hgap x (List.mem_cons_of_mem _ hx))
    refine ⟨f', hf', ?_⟩
    rw [List.length_cons, Nat.add_right_comm, ← hrun]
    conv => lhs; unfold configLoop
    rw [if_pos ⟨hfeof, hcount⟩, hf.read]
    show (some l).bind _ = _
    rw [Option.bind_some, if_neg hl]

theorem configLoop_block {b : ConfigBlock} {image : List UInt8} {address : Nat} {rest : List Line}
    (hm : b.Means T image address)
    (hsize : p.payload.length + (padded image).length < maxCapsulePayloadSize)
    (hcount : p.hintData.length < maxImagesPerCapsule - 1) (hn : b.inner.length ≤ n)
    (hf : f.At (b.lines ++ rest) op) :
    configLoop T (n + 1) f p = none ∧ b.written address = none ∨
      ∃ f' left target, f'.At (left ++ rest) op ∧ (∀ l ∈ left, ¬ Contains beginString l) ∧
        left.length ≤ b.inner.length ∧ b.written address = some target ∧
        configLoop T (n + 1) f p = configLoop T n f' (p.push target image) := by
  have hf : f.At (b.beginLine :: (b.inner ++ rest)) op := hf
  have hfeof : f.feof = false := by
    rw [hf.feof_eq, List.isEmpty_cons, Bool.false_and]
  have hne : b.inner ++ rest ≠ [] := by
    unfold ConfigBlock.inner
    simp
  have hrun : configLoop T (n + 1) f p =
      (blockLoop T n (Stream.behind b.beginLine (b.inner ++ rest) op) .unset p.payload).bind
        fun r => (addHint p r.2.1 r.2.2).bind fun p => configLoop T n r.1 p := by
    conv => lhs; unfold configLoop
    rw [if_pos ⟨hfeof, hcount⟩, hf.read]
    show (some b.beginLine).bind _ = _
    rw [Option.bind_some, if_pos hm.begins]
    rfl
  rw [hrun]
  rcases blockLoop_block hm hsize hn (Stream.at_behind (l := b.beginLine) fun h => absurd h hne) with
    ⟨hempty, hnone⟩ | ⟨hbreak, f', left, hf', hleft, hlen, hblock⟩
  · refine .inl ⟨?_, ?_⟩
    · rw [hnone]
      rfl
    · unfold ConfigBlock.written
      rw [if_pos hempty]
  · rw [hblock, Option.bind_some]
    dsimp only
    rw [addHint_hint p hm.image_ne hbreak]
    cases hw : b.written address with
    | none => exact .inl ⟨rfl, rfl⟩
    | some target => exact .inr ⟨f', left, target, hf', hleft, hlen, rfl, rfl⟩

theorem configLoop_eq {items : List Item} {gap rest : List Line}
    (hmeans : ∀ x ∈ items, x.block.Means T x.image x.address)
    (hgaps : ∀ x ∈ items, ∀ l ∈ x.gap, ¬ Contains beginString l)
    (hgap : ∀ l ∈ gap, ¬ Contains beginString l) (hrest : ∀ l ∈ rest, ¬ Contains beginString l)
    (hcount : p.hintData.length + items.length ≤ maxImagesPerCapsule - 1)
    (hsize : p.payload.length + (items.map fun x => (padded x.image).length).sum <
      maxCapsulePayloadSize)
    (hf : f.At (gap ++ (items.flatMap (fun x => x.gap ++ x.block.lines) ++ rest)) op)
    (hn : (gap ++ (items.flatMap (fun x => x.gap ++ x.block.lines) ++ rest)).length + 2 ≤ n) :
    configLoop T n f p = writeAll items p := by
  induction items generalizing f p n gap with
  | nil =>
    rw [List.flatMap_nil, List.nil_append] at hf hn
    refine configLoop_rest hf (fun l hl => ?_) hn
    rcases List.mem_append.mp hl with hl | hl
    · exact hgap l hl
    · exact hrest l hl
  | cons x items ih =>
    have hm := hmeans x List.mem_cons_self
    rw [List.length_cons] at hcount
    rw [List.map_cons, List.sum_cons] at hsize
    have hlines : gap ++ ((x :: items).flatMap (fun x => x.gap ++ x.block.lines) ++ rest) =
        (gap ++ x.gap) ++ (x.block.lines ++
          (items.flatMap (fun x => x.gap ++ x.block.lines) ++ rest)) := by
      rw [List.flatMap_cons]
      simp only [List.append_assoc]
    rw [hlines] at hf hn
    have hblen : (x.block.lines ++ (items.flatMap (fun x => x.gap ++ x.block.lines) ++ rest)).length =
        x.block.inner.length + 1 +
          (items.flatMap (fun x => x.gap ++ x.block.lines) ++ rest).length := by
      rw [List.length_append]
      rfl
    rw [List.length_append, hblen] at hn
    have hgap' : ∀ l ∈ gap ++ x.gap, ¬ Contains beginString l := by
      intro l hl
      rcases List.mem_append.mp hl with hl | hl
      · exact hgap l hl
      · exact hgaps x List.mem_cons_self l hl
    obtain ⟨m, rfl⟩ : ∃ m, n = (gap ++ x.gap).length + (m + 1) :=
      ⟨n - (gap ++ x.gap).length - 1, by omega⟩
    obtain ⟨f₁, hf₁, hrun₁⟩ := configLoop_gap (T := T) (p := p) (n := m + 1) hf hgap'
      (fun h => absurd (List.append_eq_nil_iff.mp h).1 (List.cons_ne_nil _ _)) (by omega)
    have hroom : p.payload.length + (padded x.image).length < maxCapsulePayloadSize := by omega
    have hfuel : x.block.inner.length ≤ m := by omega
    rw [hrun₁]
    rcases configLoop_block hm hroom (by omega) hfuel hf₁ with
      ⟨hnone, hw⟩ | ⟨f₂, left, target, hf₂, hleft, hlen, hw, hrun₂⟩
    · rw [hnone]
      unfold writeAll
      rw [hw]
      rfl
    · rw [hrun₂]
      conv => rhs; unfold writeAll
      rw [hw, Option.bind_some]
      refine ih (fun y hy => hmeans y (List.mem_cons_of_mem _ hy))
        (fun y hy => hgaps y (List.mem_cons_of_mem _ hy)) hleft ?_ ?_ hf₂ ?_
      · show (p.hintData ++ [_]).length + _ ≤ _
        rw [List.length_append, List.length_singleton]
        omega
      · show (p.payload ++ padded x.image).length + _ < _
        rw [List.length_append]
        omega
      · rw [List.length_append]
        omega

end Config

theorem capsuleCreate_eq {c : Config} (hc : c.Valid T) :
    capsuleCreate T c.lines op =
      if c.lines = [] then none else (writeAll c.items .start).map (capsuleFile T.capsuleFlags) := by
  unfold capsuleCreate
  by_cases hne : c.lines = []
  · rw [if_pos hne, hne]
    rfl
  · have hat : Stream.At ⟨c.lines, none, false, op⟩
        ([] ++ (c.items.flatMap (fun x => x.gap ++ x.block.lines) ++ c.rest)) op := by
      refine ⟨rfl, rfl, ?_, fun h => absurd h hne⟩
      show false = (List.isEmpty c.lines && op)
      rw [List.isEmpty_eq_false_iff.mpr hne, Bool.false_and]
    have hcount := hc.count
    have hsize := hc.size
    unfold Config.payloadSize at hsize
    rw [if_neg hne]
    congr 1
    refine configLoop_eq hc.means hc.gaps (fun l hl => absurd hl List.not_mem_nil) hc.rest ?_ ?_ hat
      (Nat.le_refl _)
    · show 0 + _ ≤ _
      omega
    · show 0 + _ < _
      omega

end Quark.CapsuleTool
