import Quark.SmiFlash.Spec
import Quark.SmiFlash.Proofs.LaunchProofs

/-!
# What the parse records and reads

The block table is filled from the front with blocks of hints, and every read is of the header or of a
hint that the parse comes by. `ParseInv` is the invariant of the three nested loops.
-/

namespace Quark.SmiFlash

open Machine

variable {P : Platform} {s : SmmState} {base : List Range}

section Reads

@[simp] theorem reads_ram (s : SmmState) (ranges : List Range) : (s.reads ranges).ram = s.ram := rfl

@[simp] theorem reads_rd (s : SmmState) (ranges : List Range) : (s.reads ranges).rd P = s.rd P := rfl

theorem reads_reads (s : SmmState) (p q : List Range) : (s.reads p).reads q = s.reads (p ++ q) := by
  show s.withReads (s.capsuleReads ++ p ++ q) = _
  rw [List.append_assoc]
  rfl

theorem reads_nil (s : SmmState) : s.reads [] = s := by
  unfold SmmState.reads
  rw [List.append_nil]
  rfl

theorem wp_readCapsule32 {a : Nat} {Q : Nat → SmmState → Prop} {E : Stop → SmmState → Prop} :
    (readCapsule32 P a).wp Q E s ↔ Q ((s.rd P).rd32 a) (s.reads [⟨u32 a, 4⟩]) := Iff.rfl

end Reads

/-- The parse in `s` has filled the block table up to `n`, and has added its reads to `base`. -/
structure ParseInv (P : Platform) (s : SmmState) (base : List Range) (n : Nat) (w : SmmState) :
    Prop where
  le_max : n ≤ P.maxBlockNumber
  filled : ∀ i < n, Records P s (w.stateMachinePrivateData i)
  rest : ∀ i, n ≤ i → (w.stateMachinePrivateData i).isValid = false
  reads : ∃ ranges, w.capsuleReads = base ++ ranges ∧ ∀ r ∈ ranges, ParseReads P s r
  mask : w.parseMask P = s.parseMask P

theorem ParseInv.more_reads {n : Nat} {w : SmmState} (h : ParseInv P s base n w) {ranges : List Range}
    (hr : ∀ r ∈ ranges, ParseReads P s r) : ParseInv P s base n (w.reads ranges) := by
  obtain ⟨old, hold, hall⟩ := h.reads
  refine ⟨h.le_max, h.filled, h.rest, ⟨old ++ ranges, ?_, ?_⟩, h.mask⟩
  · show w.capsuleReads ++ ranges = _
    rw [hold, List.append_assoc]
  · intro r hmem
    rcases List.mem_append.mp hmem with hmem | hmem
    · exact hall r hmem
    · exact hr r hmem

theorem ParseInv.of_ram {n : Nat} {w v : SmmState} (h : ParseInv P s base n w)
    (hv : v.ramMask = w.ramMask) : ParseInv P s base n v := by
  have htab : v.stateMachinePrivateData = w.stateMachinePrivateData :=
    (congrArg SmmState.stateMachinePrivateData hv :)
  have hreads : v.capsuleReads = w.capsuleReads := (congrArg SmmState.capsuleReads hv :)
  have hmask : v.parseMask P = w.parseMask P := (congrArg (SmmState.parseMask P) hv :)
  refine ⟨h.le_max, ?_, ?_, ?_, hmask.trans h.mask⟩
  · rw [htab]; exact h.filled
  · rw [htab]; exact h.rest
  · rw [hreads]; exact h.reads

theorem wp_recordBlock {n : Nat} {w : SmmState} {b : StateMachinePrivateData}
    {Q : Unit → SmmState → Prop} {E : Stop → SmmState → Prop} (h : ParseInv P s base n w)
    (hb : Records P s b)
    (hQ : ∀ v, ParseInv P s base (n + 1) v → v.updateStatusPacket = w.updateStatusPacket →
      v.ram = w.ram → Q () v)
    (hE : E .outOfBounds w) : (recordBlock P n b).wp Q E w := by
  have hkeeps := keeps_recordBlock P n b w
  unfold recordBlock at hkeeps ⊢
  rw [Exec.wp_ite]
  refine ⟨fun hlt => ?_, fun _ => hE⟩
  rw [if_pos hlt] at hkeeps
  refine hQ _ ⟨hlt, ?_, ?_, h.reads, hkeeps.trans h.mask⟩ rfl rfl
  · intro i hi
    show Records P s (Function.update w.stateMachinePrivateData n b i)
    by_cases hin : i = n
    · rw [hin, Function.update_self]
      exact hb
    · rw [Function.update_of_ne hin]
      exact h.filled i (by omega)
  · intro i hi
    show (Function.update w.stateMachinePrivateData n b i).isValid = false
    rw [Function.update_of_ne (by omega)]
    exact h.rest i (by omega)

section Hint

variable {hint : Nat} {u : SmmState}

theorem parseReads_of_head {e : Nat} (hhead : ParseHead P s hint e u) (hsize : hintSize P u hint ≠ 0) :
    ParseReads P s ⟨u32 (targetAddrAt hint), 4⟩ ∧ ParseReads P s ⟨u32 (sizeAt hint), 4⟩ ∧
      ParseReads P s ⟨u32 (sourceOffsetAt hint), 4⟩ :=
  ⟨.inr ⟨hint, e, u, hhead, .inr ⟨hsize, .inl rfl⟩⟩, .inr ⟨hint, e, u, hhead, .inl rfl⟩,
    .inr ⟨hint, e, u, hhead, .inr ⟨hsize, .inr rfl⟩⟩⟩

theorem ParseHead.mask {e : Nat} (h : ParseHead P s hint e u) : u.parseMask P = s.parseMask P := by
  obtain ⟨ranges, hv⟩ := h
  exact Exec.Keeps.visits (keeps_parseBody P P.capsuleSmmBuffer) hv

theorem Calls.head {e : Nat} {m : SmmState} (h : Calls P s hint u e m) :
    ∃ e₀, ParseHead P s hint e₀ u ∧ hintSize P u hint ≠ 0 := by
  cases h with
  | region _ hne _ _ => exact ⟨0, ⟨_, .refl⟩, hne⟩
  | image hhead hpass _ _ _ => exact ⟨_, hhead, hpass.size_ne⟩

theorem wp_initialise {e n : Nat} {m : SmmState} {ranges : List Range} (hcall : Calls P s hint u e m)
    (h : ParseInv P s base e (m.reads ranges)) :
    (Exec.loop n (initialiseBody P P.capsuleSmmBuffer hint) (initLocals P m hint e)).wp
      (fun r w => ParseInv P s base r.1 w ∧ r.1 = e + r.2 ∧
        w.updateStatusPacket = m.updateStatusPacket ∧ MemoryOf P s w)
      (fun _ w => ∃ n, ParseInv P s base n w) (m.reads ranges) := by
  obtain ⟨e₀, hhead, hsize⟩ := hcall.head
  obtain ⟨hrt, hrs, -⟩ := parseReads_of_head hhead hsize
  refine Exec.wp_loop_visits (fun l t => ParseInv P s base l.stateElement t ∧
    l.stateElement = e + l.numberOfBlocks ∧ t.updateStatusPacket = m.updateStatusPacket)
    _ _ ?_ (fun l t hI => ⟨_, hI.1⟩) n ⟨h, rfl, rfl⟩
  rintro l t hv ⟨hI, hel, hst⟩
  have hI' : ParseInv P s base l.stateElement (t.reads [⟨u32 (targetAddrAt hint), 4⟩,
      ⟨u32 (sizeAt hint), 4⟩]) := by
    refine hI.more_reads fun r hr => ?_
    rcases List.mem_cons.mp hr with rfl | hr
    · exact hrt
    · rw [List.mem_singleton.mp hr]
      exact hrs
  unfold initialiseBody
  rw [Exec.wp_bind, wp_readCapsule32, Exec.wp_bind, wp_readCapsule32, reads_reads, Exec.wp_ite]
  have hinit : InitHead P hint e m l t := ⟨_, hv⟩
  refine ⟨fun hc => ?_, fun _ => ⟨hI', hel, hst, .inr ⟨hint, u, e, m, l, t, hcall, hinit, rfl⟩⟩⟩
  have hrec : Records P s l.block := ⟨hint, u, e, m, l, t, hcall, hinit, hc, rfl⟩
  rw [Exec.wp_bind, wp_assert]
  refine ⟨fun _ => ?_, fun _ => ⟨_, hI'⟩⟩
  -- the patch of the platform data changes the memory only
  have hgo : ∀ v : SmmState, v.ramMask = (t.reads [⟨u32 (targetAddrAt hint), 4⟩,
      ⟨u32 (sizeAt hint), 4⟩]).ramMask →
      (recordBlock P l.stateElement l.block).wp (fun _ w => ParseInv P s base (l.stateElement + 1) w ∧
          l.stateElement + 1 = e + (l.numberOfBlocks + 1) ∧
          w.updateStatusPacket = m.updateStatusPacket)
        (fun _ w => ∃ n, ParseInv P s base n w) v := by
    intro v hvm
    have hvs : v.updateStatusPacket = t.updateStatusPacket :=
      (congrArg SmmState.updateStatusPacket hvm :)
    refine wp_recordBlock (hI'.of_ram hvm) hrec ?_ ⟨_, hI'.of_ram hvm⟩
    intro w hw hws _
    exact ⟨hw, by omega, hws.trans (hvs.trans hst)⟩
  rw [Exec.wp_bind, Exec.wp_when]
  refine ⟨fun _ => ?_, fun _ => ?_⟩
  · refine (keeps_checkPlatformDataPolicy P _ _).wp_of (fun _ v _ hvm => ?_) ?_
    · rw [Exec.wp_bind]
      exact hgo v hvm
    · exact fun _ v hvm => ⟨_, hI'.of_ram hvm⟩
  · rw [Exec.wp_bind]
    exact hgo _ rfl

/-- The block table and `TotalBlocks` agree, and memory is as at a place where the parse comes by. -/
structure Counted (P : Platform) (s : SmmState) (base : List Range) (n : Nat) (w : SmmState) :
    Prop where
  inv : ParseInv P s base n w
  totalBlocks_eq : w.updateStatusPacket.totalBlocks = n
  memory : MemoryOf P s w

theorem Counted.more_reads {n : Nat} {w : SmmState} (h : Counted P s base n w) {ranges : List Range}
    (hr : ∀ r ∈ ranges, ParseReads P s r) : Counted P s base n (w.reads ranges) :=
  ⟨h.inv.more_reads hr, h.totalBlocks_eq, h.memory⟩

theorem ParseInv.of_status {n : Nat} {w : SmmState} (h : ParseInv P s base n w) (p : UpdateStatusPacket) :
    ParseInv P s base n { w with updateStatusPacket := p } :=
  ⟨h.le_max, h.filled, h.rest, h.reads, h.mask⟩

theorem maxBlockNumber_lt (P : Platform) : P.maxBlockNumber < 0x100000000 := by
  have hbuf := P.buffer_below_flash
  have hf := P.flash_base.2
  have hdiv := Nat.div_le_self P.pcdMaxSizeNonPopulateCapsule flashBlockSize
  show P.pcdMaxSizeNonPopulateCapsule / flashBlockSize < _
  omega

theorem wp_recordHint {e : Nat} {m : SmmState} {ranges : List Range} (hcall : Calls P s hint u e m)
    (h : Counted P s base e (m.reads ranges)) :
    (recordHint P e P.capsuleSmmBuffer hint).wp (fun e' w => Counted P s base e' w)
      (fun _ w => ∃ n, ParseInv P s base n w) (m.reads ranges) := by
  obtain ⟨hinv, htotal, -⟩ := h
  obtain ⟨e₀, hhead, hsize⟩ := hcall.head
  obtain ⟨hrt, -, hro⟩ := parseReads_of_head hhead hsize
  have hinv' : ParseInv P s base e (m.reads (ranges ++ [⟨u32 (sourceOffsetAt hint), 4⟩] ++
      [⟨u32 (targetAddrAt hint), 4⟩])) := by
    rw [List.append_assoc, ← reads_reads]
    refine hinv.more_reads fun r hr => ?_
    rcases List.mem_append.mp hr with hr | hr
    · rw [List.mem_singleton.mp hr]
      exact hro
    · rw [List.mem_singleton.mp hr]
      exact hrt
  unfold recordHint initialiseStateMachineData
  rw [Exec.wp_bind, Exec.wp_bind, wp_readCapsule32, Exec.wp_bind, wp_readCapsule32, Exec.wp_bind,
    wp_assert, reads_reads, reads_reads]
  refine ⟨fun _ => ?_, fun _ => ⟨_, hinv'⟩⟩
  refine Exec.wp_mono (wp_initialise hcall hinv') ?_ (fun _ _ hn => hn)
  rintro ⟨e', n⟩ w ⟨hw, hn, hstatus, hmem⟩
  refine ⟨hw.of_status _, ?_, hmem⟩
  have hmax := maxBlockNumber_lt P
  have hle := hw.le_max
  have hcount : m.updateStatusPacket.totalBlocks = e := htotal
  show u32 (w.updateStatusPacket.totalBlocks + n) = e'
  rw [hstatus, hcount, ← hn]
  exact u32_of_lt (by omega)

theorem wp_matchImages {e₀ : Nat} {ranges : List Range} (hhead : ParseHead P s hint e₀ u)
    (hpass : Passes P u hint) (h : Counted P s base e₀ (u.reads ranges)) :
    (matchImages P P.capsuleSmmBuffer hint u.spiImageList e₀).wp
      (fun r w => match r with
        | some e => Counted P s base e w
        | none => ∃ n, ParseInv P s base n w)
      (fun _ w => ∃ n, ParseInv P s base n w) (u.reads ranges) := by
  obtain ⟨hrt, hrs, -⟩ := parseReads_of_head hhead hpass.size_ne
  have hone : ∀ r ∈ [(⟨u32 (targetAddrAt hint), 4⟩ : Range)], ParseReads P s r := by
    intro r hr
    rw [List.mem_singleton.mp hr]
    exact hrt
  have hmore : ∀ r ∈ [(⟨u32 (targetAddrAt hint), 4⟩ : Range)] ++ [⟨u32 (targetAddrAt hint), 4⟩] ++
      [⟨u32 (sizeAt hint), 4⟩], ParseReads P s r := by
    intro r hr
    rcases List.mem_append.mp hr with hr | hr
    · rcases List.mem_append.mp hr with hr | hr
      · exact hone r hr
      · exact hone r hr
    · rw [List.mem_singleton.mp hr]
      exact hrs
  refine Exec.wp_loop_visits (fun l t => Counted P s base l.2 t ∧ ∀ e ∈ l.1, e ∈ u.spiImageList) _ _
    ?_ (fun l t hI => ⟨_, hI.1.inv⟩) _ ⟨h, fun e he => he⟩
  rintro ⟨images, el⟩ t hv ⟨hI, hmem⟩
  cases images with
  | nil => exact hI
  | cons e es =>
    have hes : ∀ e' ∈ es, e' ∈ u.spiImageList := fun e' he' => hmem e' (List.mem_cons_of_mem _ he')
    have hkeep : ∀ ranges', (∀ r ∈ ranges', ParseReads P s r) → Counted P s base el (t.reads ranges') :=
      fun ranges' hr => hI.more_reads hr
    unfold matchBody
    dsimp only
    rw [Exec.wp_ite]
    refine ⟨fun _ => ⟨hI, hes⟩, fun _ => ?_⟩
    rw [Exec.wp_bind, wp_readCapsule32, Exec.wp_ite]
    refine ⟨fun _ => ⟨hkeep _ hone, hes⟩, fun hbase => ?_⟩
    rw [Exec.wp_bind, wp_readCapsule32, Exec.wp_bind, wp_readCapsule32, reads_reads, reads_reads,
      Exec.wp_ite]
    refine ⟨fun hc => ?_, fun _ => ⟨hkeep _ hmore, hes⟩⟩
    have hcall : Calls P s hint u el t :=
      .image hhead hpass hv (hmem e List.mem_cons_self) ⟨not_lt.mp hbase, hc.1, hc.2⟩
    rw [Exec.wp_ite]
    refine ⟨fun _ => ?_, fun _ => ?_⟩
    · rw [Exec.wp_bind]
      refine Exec.wp_mono (wp_recordHint hcall (hkeep _ hmore)) ?_ (fun _ _ hn => hn)
      exact fun e' w hw => ⟨hw, hes⟩
    · have hmore' := hkeep (_ ++ [⟨u32 (targetAddrAt hint), 4⟩]) (by
        intro r hr
        rcases List.mem_append.mp hr with hr | hr
        · exact hmore r hr
        · exact hone r hr)
      rw [Exec.wp_bind, wp_readCapsule32, reads_reads, Exec.wp_ite]
      refine ⟨fun _ => ?_, fun _ => ⟨_, hmore'.inv⟩⟩
      rw [Exec.wp_bind]
      refine Exec.wp_mono (wp_recordHint hcall hmore') ?_ (fun _ _ hn => hn)
      exact fun e' w hw => ⟨hw, hes⟩

end Hint

/-! ## The parse -/

theorem wp_parseBody {hint e₀ : Nat} {u : SmmState} (hhead : ParseHead P s hint e₀ u)
    (hI : Counted P s base e₀ u) :
    (parseBody P P.capsuleSmmBuffer (hint, e₀)).wp (fun r w => match r with
        | .inl l => Counted P s base l.2 w ∧ l.1 = u32 (hint + sizeofUpdateHint) ∧ hintSize P u hint ≠ 0
        | .inr status => (∃ n, ParseInv P s base n w) ∧
          (status.isError = false → ∃ n, Counted P s base n w))
      (fun _ w => ∃ n, ParseInv P s base n w) u := by
  have hsizeRead : ParseReads P s ⟨u32 (sizeAt hint), 4⟩ := .inr ⟨hint, e₀, u, hhead, .inl rfl⟩
  have hone : Counted P s base e₀ (u.reads [⟨u32 (sizeAt hint), 4⟩]) := by
    refine hI.more_reads fun r hr => ?_
    rw [List.mem_singleton.mp hr]
    exact hsizeRead
  unfold parseBody
  dsimp only
  rw [Exec.wp_bind, wp_readCapsule32, Exec.wp_bind, Exec.wp_get, Exec.wp_ite]
  refine ⟨fun hc => ?_, fun _ => ⟨⟨_, hone.inv⟩, fun _ => ⟨_, hone⟩⟩⟩
  obtain ⟨hrt, -, -⟩ := parseReads_of_head hhead hc.1
  have htwo : Counted P s base e₀
      (u.reads ([⟨u32 (sizeAt hint), 4⟩] ++ [⟨u32 (targetAddrAt hint), 4⟩])) := by
    refine hI.more_reads fun r hr => ?_
    rcases List.mem_append.mp hr with hr | hr
    · rw [List.mem_singleton.mp hr]
      exact hsizeRead
    · rw [List.mem_singleton.mp hr]
      exact hrt
  have hfour : Counted P s base e₀ (u.reads ([⟨u32 (sizeAt hint), 4⟩] ++
      [⟨u32 (targetAddrAt hint), 4⟩] ++ [⟨u32 (targetAddrAt hint), 4⟩] ++
      [⟨u32 (sizeAt hint), 4⟩])) := by
    refine hI.more_reads fun r hr => ?_
    simp only [List.mem_append, List.mem_singleton] at hr
    rcases hr with ((rfl | rfl) | rfl) | rfl
    · exact hsizeRead
    · exact hrt
    · exact hrt
    · exact hsizeRead
  have hfail : ∀ w, Counted P s base e₀ w → (∃ n, ParseInv P s base n w) ∧
      (EfiStatus.isError .invalidParameter = false → ∃ n, Counted P s base n w) :=
    fun w hw => ⟨⟨_, hw.inv⟩, fun _ => ⟨_, hw⟩⟩
  rw [Exec.wp_bind, wp_readCapsule32, reads_reads, Exec.wp_ite]
  refine ⟨fun _ => hfail _ htwo, fun hflash => ?_⟩
  rw [Exec.wp_bind, wp_readCapsule32, Exec.wp_bind, wp_readCapsule32, reads_reads, reads_reads,
    Exec.wp_ite]
  refine ⟨fun _ => hfail _ hfour, fun hbelow => ?_⟩
  have hpass : Passes P u hint := ⟨hc.1, hc.2, not_lt.mp hflash, not_lt.mp hbelow⟩
  rw [Exec.wp_bind]
  refine Exec.wp_mono (wp_matchImages hhead hpass hfour) ?_ (fun _ _ hn => hn)
  intro r w hw
  cases r with
  | none => exact ⟨hw, fun hc => by cases hc⟩
  | some e => exact ⟨hw, rfl, hpass.size_ne⟩

theorem wp_parseLoop {log : List Range} (n : Nat)
    (h : Counted P s base 0 ((s.parseStart P).withReads log)) :
    (Exec.loop n (parseBody P P.capsuleSmmBuffer) (hintTable P s, 0)).wp
      (fun status w => (∃ n, ParseInv P s base n w) ∧
        (status.isError = false → ∃ n, Counted P s base n w))
      (fun _ w => ∃ n, ParseInv P s base n w) ((s.parseStart P).withReads log) := by
  refine Exec.wp_loop_visits (fun l u => Counted P s base l.2 u) _ _ ?_ (fun l u hI => ⟨_, hI.inv⟩) n h
  rintro ⟨hint, e₀⟩ u hv hI
  refine Exec.wp_mono (wp_parseBody ⟨log, hv⟩ hI) ?_ (fun _ _ hn => hn)
  intro r w hw
  cases r with
  | inl l => exact hw.1
  | inr status => exact hw

theorem counted_parseStart (hclear : ∀ i, (s.stateMachinePrivateData i).isValid = false)
    {ranges : List Range} (hr : ∀ r ∈ ranges, ParseReads P s r) :
    Counted P s base 0 ((s.parseStart P).withReads (base ++ ranges)) :=
  ⟨⟨Nat.zero_le _, fun i hi => absurd hi (Nat.not_lt_zero i), fun i _ => hclear i,
    ⟨ranges, rfl, hr⟩, rfl⟩, rfl, .inl rfl⟩

theorem counted_first (hclear : ∀ i, (s.stateMachinePrivateData i).isValid = false)
    (log : List Range) : Counted P s log 0 ((s.parseStart P).withReads log) :=
  ⟨⟨Nat.zero_le _, fun i hi => absurd hi (Nat.not_lt_zero i), fun i _ => hclear i,
    ⟨[], (List.append_nil log).symm, fun _ hr => absurd hr List.not_mem_nil⟩, rfl⟩, rfl, .inl rfl⟩

theorem ParseHead.counted {hint e₀ : Nat} {u : SmmState}
    (hclear : ∀ i, (s.stateMachinePrivateData i).isValid = false) (h : ParseHead P s hint e₀ u) :
    ∃ base, Counted P s base e₀ u := by
  obtain ⟨log, hv⟩ := h
  refine ⟨log, ?_⟩
  refine Exec.Visits.invariant (fun l t => Counted P s log l.2 t) (fun l t hl hI => ?_) hv ?_
  · have hhead : ParseHead P s l.1 l.2 t := ⟨log, hl⟩
    refine Exec.wp_mono (wp_parseBody hhead hI) ?_ (fun _ _ _ => trivial)
    intro r w hw
    cases r with
    | inl l => exact hw.1
    | inr status => exact trivial
  · exact counted_first hclear log

theorem wp_isRegionUpdate {log : List Range} {size target : Nat} (hsize : size ≠ 0)
    {Q : Bool → SmmState → Prop} {E : Stop → SmmState → Prop}
    (h : Counted P s base 0 ((s.parseStart P).withReads log))
    (hQ : ∀ b log', Counted P s base 0 ((s.parseStart P).withReads log') →
      (b = true → P.quarkCheckSecureLockBoot = false ∧ hintSize P s (hintTable P s) = size ∧
        hintTargetAddr P s (hintTable P s) = target) →
      Q b ((s.parseStart P).withReads log')) :
    (isRegionUpdate P (hintTable P s) size target).wp Q E ((s.parseStart P).withReads log) := by
  have hhead : ParseHead P s (hintTable P s) 0 ((s.parseStart P).withReads log) := ⟨_, .refl⟩
  have hone : Counted P s base 0 (((s.parseStart P).withReads log).reads
      [⟨u32 (sizeAt (hintTable P s)), 4⟩]) := by
    refine h.more_reads fun r hr => ?_
    rw [List.mem_singleton.mp hr]
    exact .inr ⟨_, _, _, hhead, .inl rfl⟩
  unfold isRegionUpdate
  rw [Exec.wp_ite]
  refine ⟨fun _ => hQ false log h (fun hb => by cases hb), fun hlock => ?_⟩
  rw [Exec.wp_bind, wp_readCapsule32, Exec.wp_ite]
  refine ⟨fun heq => ?_, fun _ => hQ false _ hone (fun hb => by cases hb)⟩
  have heq : hintSize P s (hintTable P s) = size := heq
  have hne : hintSize P s (hintTable P s) ≠ 0 := by omega
  have hrt := (parseReads_of_head hhead hne).1
  have htwo : Counted P s base 0 ((((s.parseStart P).withReads log).reads
      [⟨u32 (sizeAt (hintTable P s)), 4⟩]).reads [⟨u32 (targetAddrAt (hintTable P s)), 4⟩]) := by
    refine hone.more_reads fun r hr => ?_
    rw [List.mem_singleton.mp hr]
    exact hrt
  rw [Exec.wp_bind, wp_readCapsule32]
  exact hQ _ _ htwo fun hb => ⟨Bool.eq_false_iff.mpr hlock, heq, of_decide_eq_true hb⟩

theorem wp_recordRegion {log : List Range} (h : Counted P s base 0 ((s.parseStart P).withReads log))
    (hlock : P.quarkCheckSecureLockBoot = false) (hne : hintSize P s (hintTable P s) ≠ 0)
    (htarget : flashBlockSize ≤ hintTargetAddr P s (hintTable P s))
    (hend : hintTargetAddr P s (hintTable P s) + hintSize P s (hintTable P s) ≤ 0x100000000) :
    (recordHint P 0 P.capsuleSmmBuffer (hintTable P s)).wp (fun _ w =>
      (∃ n, ParseInv P s base n w) ∧ (EfiStatus.isError .success = false → ∃ n, Counted P s base n w))
      (fun _ w => ∃ n, ParseInv P s base n w) ((s.parseStart P).withReads log) := by
  have hcall : Calls P s (hintTable P s) ((s.parseStart P).withReads log) 0
      ((s.parseStart P).withReads log) := .region hlock hne htarget hend
  have hstart : Counted P s base 0 (((s.parseStart P).withReads log).reads []) := by
    rw [reads_nil]
    exact h
  have hwp := wp_recordHint hcall hstart
  rw [reads_nil] at hwp
  exact Exec.wp_mono hwp (fun e w hw => ⟨⟨e, hw.inv⟩, fun _ => ⟨e, hw⟩⟩) (fun _ _ hn => hn)

theorem wp_parseHints {log : List Range} (h : Counted P s base 0 ((s.parseStart P).withReads log)) :
    (parseHints P P.capsuleSmmBuffer (hintTable P s)).wp
      (fun status w => (∃ n, ParseInv P s base n w) ∧
        (status.isError = false → ∃ n, Counted P s base n w))
      (fun _ w => ∃ n, ParseInv P s base n w) ((s.parseStart P).withReads log) := by
  obtain ⟨hf, hf'⟩ := P.flash_base
  unfold parseHints
  rw [Exec.wp_bind]
  refine wp_isRegionUpdate (by omega) h fun b log' hc hb => ?_
  cases b with
  | true =>
    obtain ⟨hlock, hsize, htarget⟩ := hb rfl
    rw [if_pos rfl, Exec.wp_bind]
    refine wp_recordRegion hc hlock (by omega) ?_ (by omega)
    rw [htarget]
    exact Nat.le_trans (by decide) hf
  | false =>
    rw [if_neg Bool.false_ne_true, Exec.wp_bind]
    refine wp_isRegionUpdate (by decide) hc fun b log'' hc hb => ?_
    cases b with
    | true =>
      obtain ⟨hlock, hsize, htarget⟩ := hb rfl
      rw [if_pos rfl, Exec.wp_bind]
      refine wp_recordRegion hc hlock ?_ ?_ ?_
      · rw [hsize]
        decide
      · rw [htarget]
        decide
      · rw [hsize, htarget]
        decide
    | false =>
      rw [if_neg Bool.false_ne_true]
      exact wp_parseLoop P.fuel hc

theorem wp_capsuleParse (hclear : ∀ i, (s.stateMachinePrivateData i).isValid = false) :
    (capsuleParse P).wp
      (fun status w => (∃ n, ParseInv P s s.capsuleReads n w) ∧
        (status.isError = false → ∃ n, ParseInv P s s.capsuleReads n w ∧
          w.updateStatusPacket.totalBlocks = n ∧ w.currBlock = 0))
      (fun _ w => ∃ n, ParseInv P s s.capsuleReads n w) s := by
  have hnone : ParseInv P s s.capsuleReads 0 s :=
    ⟨Nat.zero_le _, fun i hi => absurd hi (Nat.not_lt_zero i), fun i _ => hclear i,
      ⟨[], (List.append_nil _).symm, fun r hr => (List.not_mem_nil hr).elim⟩, rfl⟩
  have hstart : Counted P s s.capsuleReads 0 ((s.parseStart P).withReads (s.capsuleReads ++
      [⟨u32 (headerSizeAt P.capsuleSmmBuffer), 4⟩])) :=
    counted_parseStart hclear fun r hr => .inl (List.mem_singleton.mp hr)
  unfold capsuleParse
  rw [Exec.wp_ite]
  refine ⟨fun _ => ⟨⟨0, hnone⟩, fun hc => by cases hc⟩, fun _ => ?_⟩
  rw [Exec.wp_bind, wp_readCapsule32, Exec.wp_bind, Exec.wp_modify, Exec.wp_bind]
  refine Exec.wp_mono (wp_parseHints hstart) ?_ (fun _ _ hn => hn)
  rintro status w ⟨hinv, hok⟩
  rw [Exec.wp_ite]
  refine ⟨fun herr => ⟨hinv, fun hc => by rw [herr] at hc; cases hc⟩, fun hne => ?_⟩
  obtain ⟨n, hn, hcount, -⟩ := hok (Bool.eq_false_iff.mpr hne)
  rw [Exec.wp_bind, Exec.wp_get, Exec.wp_bind, wp_assert]
  refine ⟨fun _ => ?_, fun _ => hinv⟩
  have hdone : ParseInv P s s.capsuleReads n { w with
      currBlock := 0
      updateStatusPacket := { w.updateStatusPacket with status := .success } } :=
    ⟨hn.le_max, hn.filled, hn.rest, hn.reads, hn.mask⟩
  exact ⟨⟨n, hdone⟩, fun _ => ⟨n, hdone, hcount, rfl⟩⟩

/-! ## The blocks of a hint -/

section Blocks

variable {hint e : Nat} {m : SmmState}

theorem iterates_initialise {l l' : InitLocals} {t t' : SmmState}
    (h : Exec.Iterates (initialiseBody P P.capsuleSmmBuffer hint) (l, t) (l', t')) :
    Continues P hint l t ∧ l'.imageSourceAddr = u32 (l.imageSourceAddr + flashBlockSize) ∧
      l'.imageDestinationAddr = u32 (l.imageDestinationAddr + flashBlockSize) := by
  have hwp : (initialiseBody P P.capsuleSmmBuffer hint l).wp (fun r _ => match r with
      | .inl l' => Continues P hint l t ∧
          l'.imageSourceAddr = u32 (l.imageSourceAddr + flashBlockSize) ∧
          l'.imageDestinationAddr = u32 (l.imageDestinationAddr + flashBlockSize)
      | .inr _ => True) (fun _ _ => True) t := by
    unfold initialiseBody
    rw [Exec.wp_bind, wp_readCapsule32, Exec.wp_bind, wp_readCapsule32, Exec.wp_ite]
    refine ⟨fun hc => ?_, fun _ => trivial⟩
    rw [Exec.wp_bind, wp_assert]
    refine ⟨fun _ => ?_, fun _ => trivial⟩
    rw [Exec.wp_bind]
    refine (Exec.Keeps.when (keeps_checkPlatformDataPolicy P _ _)).wp_of (fun _ v _ _ => ?_)
      (fun _ _ _ => trivial)
    rw [Exec.wp_bind]
    exact (keeps_recordBlock P _ _).wp_of (fun _ _ _ _ => ⟨hc, rfl, rfl⟩) (fun _ _ _ => trivial)
  have hret : initialiseBody P P.capsuleSmmBuffer hint l t = .ret (.inl l') t' := h
  have hpost := Exec.wp_of_ret hwp hret
  exact hpost

theorem lastBlock_eq {t : SmmState} (hge : flashBlockSize ≤ hintTargetAddr P t hint)
    (hle : hintTargetAddr P t hint + hintSize P t hint ≤ 0x100000000) :
    lastBlock P t hint + flashBlockSize = hintTargetAddr P t hint + hintSize P t hint := by
  have hge : 4096 ≤ hintTargetAddr P t hint := hge
  show sub32 (u32 (hintTargetAddr P t hint + hintSize P t hint)) 4096 + 4096 = _
  unfold sub32 u32
  omega

/-- The blocks of a hint whose target and size do not change while it is recorded: the heads of the
loop are at the blocks of the range `[target, target + size)`, or at address 0 behind the top. -/
theorem initHead_block {target size : Nat} (hge : flashBlockSize ≤ target)
    (hle : target + size ≤ 0x100000000)
    (hstable : ∀ l t, InitHead P hint e m l t →
      hintTargetAddr P t hint = target ∧ hintSize P t hint = size)
    {l : InitLocals} {t : SmmState} (h : InitHead P hint e m l t) :
    ∃ i, l.imageSourceAddr =
        u32 (P.capsuleSmmBuffer + hintSourceOffset P m hint + i * flashBlockSize) ∧
      (l.imageDestinationAddr = 0 ∨ l.imageDestinationAddr = target + i * flashBlockSize) ∧
      (Continues P hint l t → l.imageDestinationAddr = target + i * flashBlockSize ∧
        (i + 1) * flashBlockSize ≤ size) := by
  -- what a block that belongs to the hint tells about its address
  have hcont : ∀ (l : InitLocals) (t : SmmState) (i : Nat), InitHead P hint e m l t →
      (l.imageDestinationAddr = 0 ∨ l.imageDestinationAddr = target + i * flashBlockSize) →
      Continues P hint l t → l.imageDestinationAddr = target + i * flashBlockSize ∧
        (i + 1) * flashBlockSize ≤ size := by
    intro l t i hl hpos hc
    obtain ⟨htarget, hsize⟩ := hstable l t hl
    have hlast : lastBlock P t hint + flashBlockSize =
        hintTargetAddr P t hint + hintSize P t hint :=
      lastBlock_eq (by rw [htarget]; exact hge) (by rw [htarget, hsize]; exact hle)
    rw [htarget, hsize] at hlast
    have hdest := hpos.resolve_left hc.2
    have hc₁ := hc.1
    rw [Nat.succ_mul]
    exact ⟨hdest, by omega⟩
  obtain ⟨ranges, hv⟩ := h
  suffices hpos : ∃ i, l.imageSourceAddr =
        u32 (P.capsuleSmmBuffer + hintSourceOffset P m hint + i * flashBlockSize) ∧
      (l.imageDestinationAddr = 0 ∨ l.imageDestinationAddr = target + i * flashBlockSize) by
    obtain ⟨i, hsrc, hdest⟩ := hpos
    exact ⟨i, hsrc, hdest, hcont l t i ⟨ranges, hv⟩ hdest⟩
  have key : ∀ y : InitLocals × SmmState, Exec.Visits (initialiseBody P P.capsuleSmmBuffer hint)
      (initLocals P m hint e, m.withReads ranges) y → ∃ i, y.1.imageSourceAddr =
        u32 (P.capsuleSmmBuffer + hintSourceOffset P m hint + i * flashBlockSize) ∧
      (y.1.imageDestinationAddr = 0 ∨ y.1.imageDestinationAddr = target + i * flashBlockSize) := by
    intro y hy
    induction hy with
    | refl =>
      have hfirst := (hstable _ _ ⟨ranges, .refl⟩).1
      refine ⟨0, by rw [Nat.zero_mul]; rfl, .inr ?_⟩
      rw [Nat.zero_mul]
      exact hfirst
    | @tail y z hvy hstep ih =>
      obtain ⟨i, hsrc, hdest⟩ := ih
      obtain ⟨hc, hsrc', hdest'⟩ := iterates_initialise hstep
      obtain ⟨hat, hfit⟩ := hcont y.1 y.2 i ⟨ranges, hvy⟩ hdest hc
      refine ⟨i + 1, ?_, ?_⟩
      · rw [hsrc', hsrc, Nat.succ_mul, ← Nat.add_assoc]
        unfold u32
        omega
      · rw [hdest', hat]
        rw [Nat.succ_mul] at hfit ⊢
        by_cases htop : target + i * flashBlockSize + flashBlockSize = 0x100000000
        · left
          rw [htop]
          decide
        · right
          rw [u32_of_lt (by omega), Nat.add_assoc]
  exact key (l, t) hv

end Blocks

/-! ## A capsule that updates the MAC addresses -/

section UpdatesMac

variable {t : SmmState}

def SameRd (P : Platform) (s t : SmmState) : Prop := t.rd P = s.rd P

theorem SameRd.updatesMac (h : UpdatesMac P s) (ht : SameRd P s t) : UpdatesMac P t := by
  unfold UpdatesMac
  rw [ht]
  exact h

theorem wp_checkPlatformDataPolicy_updatesMac {a : Nat} {Q : Unit → SmmState → Prop}
    {E : Stop → SmmState → Prop} (h : UpdatesMac P t) (hQ : Q () t) :
    (checkPlatformDataPolicy P a P.capsuleSmmBuffer).wp Q E t := by
  unfold UpdatesMac at h
  unfold checkPlatformDataPolicy
  rw [Exec.wp_bind, Exec.wp_get, if_pos h]
  exact hQ

theorem wp_initialiseBody_sameRd (h : UpdatesMac P s) (ht : SameRd P s t) (hint : Nat)
    (l : InitLocals) :
    (initialiseBody P P.capsuleSmmBuffer hint l).wp (fun _ => SameRd P s) (fun _ => SameRd P s) t := by
  have hrec : (recordBlock P l.stateElement l.block).wp (fun _ => SameRd P s) (fun _ => SameRd P s)
      (t.reads ([⟨u32 (targetAddrAt hint), 4⟩] ++ [⟨u32 (sizeAt hint), 4⟩])) := by
    unfold recordBlock
    rw [Exec.wp_ite]
    exact ⟨fun _ => ht, fun _ => ht⟩
  unfold initialiseBody
  rw [Exec.wp_bind, wp_readCapsule32, Exec.wp_bind, wp_readCapsule32, reads_reads, Exec.wp_ite]
  refine ⟨fun _ => ?_, fun _ => ht⟩
  rw [Exec.wp_bind, wp_assert]
  refine ⟨fun _ => ?_, fun _ => ht⟩
  rw [Exec.wp_bind, Exec.wp_when]
  refine ⟨fun _ => wp_checkPlatformDataPolicy_updatesMac (ht.updatesMac h) ?_, fun _ => ?_⟩
  · rw [Exec.wp_bind]
    exact hrec
  · rw [Exec.wp_bind]
    exact hrec

theorem wp_recordHint_sameRd (h : UpdatesMac P s) (ht : SameRd P s t) (hint e : Nat) :
    (recordHint P e P.capsuleSmmBuffer hint).wp (fun _ => SameRd P s) (fun _ => SameRd P s) t := by
  unfold recordHint initialiseStateMachineData
  rw [Exec.wp_bind, Exec.wp_bind, wp_readCapsule32, Exec.wp_bind, wp_readCapsule32, Exec.wp_bind,
    wp_assert]
  refine ⟨fun _ => ?_, fun _ => ht⟩
  refine Exec.wp_mono (Exec.wp_loop (R := fun _ => SameRd P s) (E := fun _ => SameRd P s)
    (fun _ => SameRd P s) (fun l t' ht' => ?_) (fun _ _ ht' => ht') P.fuel ht) ?_ (fun _ _ ht' => ht')
  · refine Exec.wp_mono (wp_initialiseBody_sameRd h ht' hint l) ?_ (fun _ _ hw => hw)
    intro r w hw
    cases r <;> exact hw
  · rintro ⟨e', n⟩ w hw
    exact hw

theorem wp_matchBody_sameRd (h : UpdatesMac P s) (ht : SameRd P s t) (hint : Nat)
    (l : List SpiImagePresent × Nat) :
    (matchBody P P.capsuleSmmBuffer hint l).wp (fun _ => SameRd P s) (fun _ => SameRd P s) t := by
  obtain ⟨_ | ⟨e, es⟩, el⟩ := l
  · exact ht
  unfold matchBody
  dsimp only
  rw [Exec.wp_ite]
  refine ⟨fun _ => ht, fun _ => ?_⟩
  rw [Exec.wp_bind, wp_readCapsule32, Exec.wp_ite]
  refine ⟨fun _ => ht, fun _ => ?_⟩
  rw [Exec.wp_bind, wp_readCapsule32, Exec.wp_bind, wp_readCapsule32, reads_reads, reads_reads,
    Exec.wp_ite]
  refine ⟨fun _ => ?_, fun _ => ht⟩
  rw [Exec.wp_ite]
  refine ⟨fun _ => ?_, fun _ => ?_⟩
  · rw [Exec.wp_bind]
    exact Exec.wp_mono (wp_recordHint_sameRd h (show SameRd P s (t.reads _) from ht) hint el)
      (fun _ _ hw => hw) (fun _ _ hw => hw)
  · rw [Exec.wp_bind, wp_readCapsule32, reads_reads, Exec.wp_ite]
    refine ⟨fun _ => ?_, fun _ => ht⟩
    rw [Exec.wp_bind]
    exact Exec.wp_mono (wp_recordHint_sameRd h (show SameRd P s (t.reads _) from ht) hint el)
      (fun _ _ hw => hw) (fun _ _ hw => hw)

theorem wp_parseBody_sameRd (h : UpdatesMac P s) (ht : SameRd P s t) (l : Nat × Nat) :
    (parseBody P P.capsuleSmmBuffer l).wp (fun _ => SameRd P s) (fun _ => SameRd P s) t := by
  obtain ⟨hint, el⟩ := l
  unfold parseBody
  dsimp only
  rw [Exec.wp_bind, wp_readCapsule32, Exec.wp_bind, Exec.wp_get, Exec.wp_ite]
  refine ⟨fun _ => ?_, fun _ => ht⟩
  rw [Exec.wp_bind, wp_readCapsule32, reads_reads, Exec.wp_ite]
  refine ⟨fun _ => ht, fun _ => ?_⟩
  rw [Exec.wp_bind, wp_readCapsule32, Exec.wp_bind, wp_readCapsule32, reads_reads, reads_reads,
    Exec.wp_ite]
  refine ⟨fun _ => ht, fun _ => ?_⟩
  rw [Exec.wp_bind]
  refine Exec.wp_mono (Exec.wp_loop (R := fun _ => SameRd P s) (E := fun _ => SameRd P s)
    (fun _ => SameRd P s) (fun l t' ht' => ?_) (fun _ _ ht' => ht') _ ht) ?_ (fun _ _ ht' => ht')
  · refine Exec.wp_mono (wp_matchBody_sameRd h ht' hint l) ?_ (fun _ _ hw => hw)
    intro r w hw
    cases r <;> exact hw
  · intro r w hw
    cases r <;> exact hw

theorem sameRd_of_visits {ℓ ρ : Type} {body : ℓ → Exec SmmState (ℓ ⊕ ρ)}
    (hbody : ∀ l t, SameRd P s t → (body l).wp (fun _ => SameRd P s) (fun _ => SameRd P s) t)
    {x y : ℓ × SmmState} (hv : Exec.Visits body x y) (hx : SameRd P s x.2) : SameRd P s y.2 := by
  induction hv with
  | refl => exact hx
  | @tail y z _ hstep ih =>
    have hret : body y.1 y.2 = .ret (.inl z.1) z.2 := hstep
    have hz := Exec.wp_of_ret (hbody y.1 y.2 ih) hret
    exact hz

theorem Calls.sameRd {hint e : Nat} {u m : SmmState} (h : UpdatesMac P s)
    (hcall : Calls P s hint u e m) : SameRd P s u ∧ SameRd P s m := by
  cases hcall with
  | region _ _ _ _ => exact ⟨rfl, rfl⟩
  | image hhead _ hv _ _ =>
    obtain ⟨ranges, hhead⟩ := hhead
    have hu : SameRd P s u :=
      sameRd_of_visits (fun l t ht => wp_parseBody_sameRd h ht l) hhead rfl
    exact ⟨hu, sameRd_of_visits (fun l t ht => wp_matchBody_sameRd h ht hint l) hv hu⟩

theorem InitHead.sameRd {hint e : Nat} {m : SmmState} {l : InitLocals} (h : UpdatesMac P s)
    (hm : SameRd P s m) (hhead : InitHead P hint e m l t) : SameRd P s t := by
  obtain ⟨ranges, hv⟩ := hhead
  exact sameRd_of_visits (fun l t ht => wp_initialiseBody_sameRd h ht hint l) hv hm

end UpdatesMac

theorem Records.isValid {b : StateMachinePrivateData} (h : Records P s b) : b.isValid = true := by
  obtain ⟨hint, u, e, m, l, t, -, -, -, rfl⟩ := h
  rfl

theorem Records.targetAddr_lt {b : StateMachinePrivateData} (h : Records P s b) :
    b.targetAddr < 0x100000000 := by
  obtain ⟨hint, u, e, m, l, t, -, -, hc, rfl⟩ := h
  exact lt_of_le_of_lt hc.1 (u32_lt _)

theorem atErase_of_parse {w : SmmState} (hs : AtParse s) (h : capsuleParse P s = .ret .success w) :
    ∃ bs, AtErase P bs 0 (w.advance P .success) ∧
      w.updateStatusPacket.totalBlocks = bs.length ∧ ∀ b ∈ bs, Records P s b := by
  obtain ⟨-, hok⟩ := Exec.wp_of_ret (wp_capsuleParse hs.clear) h
  obtain ⟨n, hinv, hcount, hcurr⟩ := hok rfl
  have hmem : ∀ b ∈ (List.range n).map w.stateMachinePrivateData, Records P s b := by
    intro b hb
    obtain ⟨i, hi, rfl⟩ := List.mem_map.mp hb
    exact hinv.filled i (List.mem_range.mp hi)
  have hactive : w.activeState = s.activeState := (congrArg SmmState.activeState hinv.mask :)
  have hid : w.stateId = s.stateId := (congrArg SmmState.stateId hinv.mask :)
  have hlen : ((List.range n).map w.stateMachinePrivateData).length = n := by
    rw [List.length_map, List.length_range]
  refine ⟨(List.range n).map w.stateMachinePrivateData, ⟨⟨?_, ?_, ?_, ?_, ?_⟩, ?_, ?_, hcurr⟩, ?_, hmem⟩
  · rw [hlen]
    exact hinv.le_max
  · intro i hi
    show w.stateMachinePrivateData i = ((List.range n).map w.stateMachinePrivateData)[i]
    rw [List.getElem_map, List.getElem_range]
  · exact fun b hb => (hmem b hb).isValid
  · exact fun b hb => (hmem b hb).targetAddr_lt
  · intro i hi
    rw [hlen] at hi
    exact hinv.rest i hi
  · exact hactive.trans hs.active
  · show nextStateId P _ = eraseBlockState
    have hparse : w.stateId = 1 := hid.trans hs.stateId_eq
    rw [nextStateId_of_ne (by show w.stateId ≠ 3; rw [hparse]; decide)]
    show w.stateId + 1 = 2
    rw [hparse]
  · rw [hlen]
    exact hcount

end Quark.SmiFlash
