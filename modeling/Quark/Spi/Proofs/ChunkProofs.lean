import Quark.Spi.NorPart

/-!
# The cycles of a data transfer

`SendSpiCmd` cuts a transfer at the ends of the 256-byte pages and into lengths that the control word can
express. One iteration of its loop is one cycle; the ranges of the cycles so far tile the first part of the
transfer.
-/

namespace Quark.Spi

open Machine Machine.Exec

/-! ## The length of one cycle -/

theorem toNat_pageEnd {a : BitVec 32} (h : a.toNat < 2 ^ 32 - 256) :
    (pageEnd a).toNat = (a.toNat / 256 + 1) * 256 := by
  unfold pageEnd
  rw [toNat_and_not_low (k := 8) (by decide)]
  have : (a + 0x100).toNat = a.toNat + 256 := by
    rw [BitVec.toNat_add]
    exact Nat.mod_eq_of_lt (by show a.toNat + 256 < _; omega)
  rw [this]
  show (a.toNat + 256) / 256 * 256 = _
  omega

theorem toNat_and_not_seven (n : BitVec 32) : (n &&& ~~~7).toNat = n.toNat / 8 * 8 :=
  toNat_and_not_low (k := 3) (by decide) n

def Expressible (n : Nat) : Prop := 0 < n ∧ (n ≤ 8 ∨ 8 ∣ n ∧ n ≤ 64)

theorem toNat_spiDataCount {a n : BitVec 32} (h : a.toNat + n.toNat ≤ 2 ^ 32 - 256) (hn : 0 < n.toNat) :
    (spiDataCount a n).toNat ≤ n.toNat ∧ a.toNat % 256 + (spiDataCount a n).toNat ≤ 256 ∧
      Expressible (spiDataCount a n).toNat := by
  have hend := toNat_pageEnd (a := a) (by omega)
  have hsum : (a + n).toNat = a.toNat + n.toNat := by
    rw [BitVec.toNat_add]
    exact Nat.mod_eq_of_lt (by omega)
  -- the bytes that are left, or those that are left in the page
  generalize htrim : (if pageEnd a < a + n then pageEnd a - a else n) = trimmed
  have htrimmed : 0 < trimmed.toNat ∧ trimmed.toNat ≤ n.toNat ∧ a.toNat % 256 + trimmed.toNat ≤ 256 := by
    rw [← htrim]
    by_cases hlt : pageEnd a < a + n
    · rw [if_pos hlt]
      rw [BitVec.lt_def, hend, hsum] at hlt
      have : (pageEnd a - a).toNat = (a.toNat / 256 + 1) * 256 - a.toNat := by
        rw [BitVec.toNat_sub_of_le (by rw [BitVec.le_def, hend]; omega), hend]
      rw [this]
      omega
    · rw [if_neg hlt]
      rw [BitVec.lt_def, hend, hsum] at hlt
      omega
  have hcount : spiDataCount a n = if 64 ≤ trimmed then 64
      else if trimmed &&& ~~~7 ≠ 0 then trimmed &&& ~~~7 else trimmed := by
    rw [← htrim]
    rfl
  have h7 := toNat_and_not_seven trimmed
  rw [hcount]
  unfold Expressible
  by_cases h64 : 64 ≤ trimmed
  · rw [if_pos h64]
    have : 64 ≤ trimmed.toNat := h64
    refine ⟨?_, ?_, ?_⟩
    · show 64 ≤ _
      omega
    · show _ + 64 ≤ _
      omega
    · decide
  · rw [if_neg h64]
    have h64 : trimmed.toNat < 64 := Nat.lt_of_not_le h64
    by_cases h8 : trimmed &&& ~~~7 = 0
    · rw [if_neg (not_not.mpr h8)]
      have : trimmed.toNat / 8 * 8 = 0 := by rw [← h7, h8]; rfl
      omega
    · rw [if_pos h8, h7]
      have : trimmed.toNat / 8 * 8 ≠ 0 := by
        rw [← h7]
        exact fun hz => h8 (BitVec.eq_of_toNat_eq hz)
      omega

theorem toNat_spiDataCount_le (a n : BitVec 32) : (spiDataCount a n).toNat ≤ 64 := by
  unfold spiDataCount
  dsimp only
  generalize (if pageEnd a < a + n then pageEnd a - a else n) = trimmed
  by_cases h64 : 64 ≤ trimmed
  · rw [if_pos h64]
    exact Nat.le_refl 64
  · rw [if_neg h64]
    have h64 : trimmed.toNat < 64 := Nat.lt_of_not_le h64
    have h7 := toNat_and_not_seven trimmed
    by_cases h8 : trimmed &&& ~~~7 = 0
    · rw [if_neg (not_not.mpr h8)]
      omega
    · rw [if_pos h8]
      omega

theorem spiDataCount_of_wraps {a n : BitVec 32} (ha : a.toNat < 2 ^ 32 - 256) (hn : 64 ≤ n.toNat)
    (hwraps : 2 ^ 32 ≤ a.toNat + n.toNat) : spiDataCount a n = 64 := by
  have hend := toNat_pageEnd ha
  have hnot : ¬ pageEnd a < a + n := by
    rw [BitVec.lt_def, hend]
    bv_omega
  unfold spiDataCount
  rw [if_neg hnot]
  exact if_pos hn

/-! ## The control word -/

theorem field_commandBits : ∀ (opcodeIndex : Fin numOpcode) (prefixOpcodeIndex : Fin numPrefixOpcode)
    (atomic : Bool),
    field (commandBits opcodeIndex prefixOpcodeIndex atomic) 14 1 = 0#16 ∧
    field (commandBits opcodeIndex prefixOpcodeIndex atomic) 8 0x3F = 0#16 ∧
    Fin.ofNat numOpcode (field (commandBits opcodeIndex prefixOpcodeIndex atomic) 4 7).toNat =
      opcodeIndex ∧
    Fin.ofNat numPrefixOpcode (field (commandBits opcodeIndex prefixOpcodeIndex atomic) 3 1).toNat =
      prefixOpcodeIndex ∧
    field (commandBits opcodeIndex prefixOpcodeIndex atomic) 2 1 = if atomic then 1 else 0 := by
  decide

theorem field_and_apart {x m fm : BitVec 16} {lo : Nat} (h : field m lo fm = 0#16) :
    field (x &&& m) lo fm = 0#16 := by
  apply BitVec.eq_of_getLsbD_eq
  intro i _
  have hi := congrArg (BitVec.getLsbD · i) h
  simp only [getLsbD_field] at hi ⊢
  rw [BitVec.getLsbD_and, Bool.and_assoc, hi]
  simp

theorem field_dataBits_apart {lo : Nat} {fm : BitVec 16} (hdc : field Spic.dc lo fm = 0#16)
    (hdbc : field Spic.dbc lo fm = 0#16) (dataCycle : Bool) (n : BitVec 32) :
    field (dataBits dataCycle n) lo fm = 0#16 := by
  cases dataCycle with
  | false => exact BitVec.eq_of_getLsbD_eq fun i _ => by simp [dataBits, getLsbD_field]
  | true =>
    show field (Spic.dc ||| (_ &&& Spic.dbc)) lo fm = 0#16
    rw [field_or, hdc, field_and_apart hdbc]
    rfl

theorem field_dataBits : ∀ k : Fin 65,
    field (dataBits true (BitVec.ofNat 32 k)) 14 1 = 1 ∧
      (field (dataBits true (BitVec.ofNat 32 k)) 8 0x3F).toNat + 1 = if k.val = 0 then 64 else k.val := by
  decide

section Decode

variable {env : Env} (opcodeIndex : Fin numOpcode) (prefixOpcodeIndex : Fin numPrefixOpcode)
  (dataCycle atomic : Bool) (n : BitVec 32) (h : Host)

theorem opcode_cycleOf : (cycleOf env (spic opcodeIndex prefixOpcodeIndex dataCycle atomic n) h).opcode =
    env.opMenu opcodeIndex := by
  obtain ⟨-, -, hindex, -, -⟩ := field_commandBits opcodeIndex prefixOpcodeIndex atomic
  show env.opMenu (Fin.ofNat numOpcode (field (spic _ _ _ _ _) 4 7).toNat) = _
  rw [spic, field_or, field_dataBits_apart (by decide) (by decide), BitVec.zero_or, hindex]

theorem prefixOpcode?_cycleOf :
    (cycleOf env (spic opcodeIndex prefixOpcodeIndex dataCycle atomic n) h).prefixOpcode? =
      if atomic then some (env.preOp prefixOpcodeIndex) else none := by
  obtain ⟨-, -, -, hindex, hatomic⟩ := field_commandBits opcodeIndex prefixOpcodeIndex atomic
  show (if field (spic _ _ _ _ _) 2 1 = 0 then none else
    some (env.preOp (Fin.ofNat numPrefixOpcode (field (spic _ _ _ _ _) 3 1).toNat))) = _
  rw [spic, field_or, field_dataBits_apart (by decide) (by decide), BitVec.zero_or, hatomic, field_or,
    field_dataBits_apart (by decide) (by decide), BitVec.zero_or, hindex]
  cases atomic <;> rfl

theorem length_cycleOf (hn : n.toNat ≤ 64) :
    (cycleOf env (spic opcodeIndex prefixOpcodeIndex true atomic n) h).length =
      if n.toNat = 0 then 64 else n.toNat := by
  obtain ⟨hdc, hdbc, -⟩ := field_commandBits opcodeIndex prefixOpcodeIndex atomic
  obtain ⟨hdc', hdbc'⟩ := field_dataBits ⟨n.toNat, by omega⟩
  rw [BitVec.ofNat_toNat, BitVec.setWidth_eq] at hdc' hdbc'
  show (if field (spic _ _ _ _ _) 14 1 = 0 then 0 else (field (spic _ _ _ _ _) 8 0x3F).toNat + 1) = _
  rw [spic, field_or, hdc, hdc', field_or, hdbc, BitVec.or_zero, BitVec.or_zero, hdbc', if_neg (by decide)]

theorem length_cycleOf_noData :
    (cycleOf env (spic opcodeIndex prefixOpcodeIndex false atomic n) h).length = 0 := by
  obtain ⟨hdc, -⟩ := field_commandBits opcodeIndex prefixOpcodeIndex atomic
  show (if field (spic _ _ _ _ _) 14 1 = 0 then 0 else (field (spic _ _ _ _ _) 8 0x3F).toNat + 1) = 0
  rw [spic, show dataBits false n = 0#16 from rfl, BitVec.zero_or, hdc]
  rfl

end Decode

/-! ## One iteration -/

variable {env : Env}

theorem wp_waitTicks (env : Env) (errorCheck : Bool) : ∀ (ticks : Nat) (h : Host),
    wp (waitTicks env errorCheck ticks) (fun _ t => ∃ p, t = { h with polls := p }) (fun _ _ => False)
      h := by
  intro ticks
  induction ticks with
  | zero => intro h; exact ⟨h.polls, rfl⟩
  | succ ticks ih =>
    intro h
    show wp (readSpis env >>= _) _ _ h
    rw [wp_bind]
    show wp (if _ then _ else _) _ _ { h with polls := h.polls + 1 }
    rw [wp_ite, wp_ite]
    refine ⟨fun _ => ⟨fun _ => ⟨_, rfl⟩, fun _ => ⟨_, rfl⟩⟩, fun _ => ?_⟩
    exact wp_mono (ih _) (fun _ _ ⟨p, hp⟩ => ⟨p, hp⟩) fun _ _ h => h

theorem waitTicks_of_completes (errorCheck : Bool) : ∀ {ticks k j : Nat} {h : Host}, h.polls = k → j < ticks →
    (∀ i < j, env.spis (k + i) &&& Spis.scip ≠ 0) → env.spis (k + j) &&& (Spis.scip ||| Spis.bas) = 0 →
    ∃ t, waitTicks env errorCheck ticks h = .ret true t := by
  intro ticks
  induction ticks with
  | zero => intro k j h _ hj; exact absurd hj (Nat.not_lt_zero j)
  | succ ticks ih =>
    rintro k j h rfl hj hbusy hidle
    have hread : waitTicks env errorCheck (ticks + 1) h =
        (if env.spis h.polls &&& Spis.scip = 0 then
          if env.spis h.polls &&& Spis.bas ≠ 0 ∧ errorCheck = true then pure false else pure true
        else waitTicks env errorCheck ticks : Exec Host Bool) { h with polls := h.polls + 1 } := rfl
    rw [hread]
    cases j with
    | zero =>
      rw [Nat.add_zero, BitVec.and_or_distrib_left] at hidle
      obtain ⟨hscip, hbas⟩ := BitVec.or_eq_zero_iff.mp hidle
      have hscip : env.spis h.polls &&& Spis.scip = 0 := hscip
      rw [if_pos hscip, if_neg fun hc => hc.1 hbas]
      exact ⟨_, rfl⟩
    | succ j =>
      have hfirst : env.spis h.polls &&& Spis.scip ≠ 0 := hbusy 0 (by omega)
      rw [if_neg hfirst]
      refine ih (k := h.polls + 1) (j := j) rfl (by omega) (fun i hi => ?_) ?_
      · rw [Nat.add_assoc, Nat.add_comm 1 i]
        exact hbusy (i + 1) (by omega)
      · rw [Nat.add_assoc, Nat.add_comm 1 j]
        exact hidle

theorem wp_waitForSpiCycleComplete (errorCheck : Bool) (h : Host) :
    wp (waitForSpiCycleComplete env errorCheck)
      (fun complete t => (∃ p, t = { h with polls := p }) ∧ (complete = false → ¬ env.Completes))
      (fun _ _ => False) h := by
  have hall := wp_and (wp_waitTicks env errorCheck waitCount h) (wp_returns _ h)
  refine wp_mono hall ?_ fun _ _ h => h.1
  rintro complete t ⟨hp, hret⟩
  refine ⟨hp, ?_⟩
  rintro rfl hcompletes
  obtain ⟨j, hj, hbusy, hidle⟩ := hcompletes h.polls
  obtain ⟨t', ht'⟩ := waitTicks_of_completes errorCheck rfl hj hbusy hidle
  rw [ht'] at hret
  injection hret with hret
  cases hret

def Exchange.moved (shiftOut : Bool) (e : Exchange) : List Byte :=
  if shiftOut then e.cycle.data else e.answer

def cycleLength (cmd : Command) (n : Nat) : Nat := if cmd.dataCycle then if n = 0 then 64 else n else 0

/-- One cycle at `a` with `len` data bytes has been run. -/
structure Added (env : Env) (cmd : Command) (a : BitVec 32) (len : Nat) (t u : Host) (e : Exchange) :
    Prop where
  exchanges : u.exchanges = t.exchanges ++ [e]
  chip : u.chip = (env.respond e.cycle t.chip).1
  opcode : e.cycle.opcode = env.opMenu cmd.opcodeIndex
  prefixOpcode? : e.cycle.prefixOpcode? = if cmd.atomic then some (env.preOp cmd.prefixOpcodeIndex) else none
  address : e.cycle.address = a.toNat % 2 ^ 24
  length : e.cycle.length = len
  dataLength : e.cycle.data.length = len
  answerLength : e.answer.length = len

theorem toNat_and_spiaMask (a : BitVec 32) : (a &&& spiaMask).toNat = a.toNat % 2 ^ 24 := by
  rw [BitVec.toNat_and]
  exact Nat.and_two_pow_sub_one_eq_mod a.toNat 24

theorem wp_startCycle {cmd : Command} {a n : BitVec 32} (hle : n.toNat ≤ 64) (t : Host) :
    wp (startCycle env cmd a n)
      (fun _ u => ∃ e, Added env cmd a (cycleLength cmd n.toNat) t u e ∧
        e.cycle.data = (List.range (cycleLength cmd n.toNat)).map t.spid ∧
        e.answer = (List.range (cycleLength cmd n.toNat)).map u.spid)
      (fun _ _ => False) t := by
  let v : Host := { t with spia := a &&& spiaMask, polls := t.polls + 1 }
  let word := spic cmd.opcodeIndex cmd.prefixOpcodeIndex cmd.dataCycle cmd.atomic n
  let c := cycleOf env word v
  have hlength : c.length = cycleLength cmd n.toNat := by
    show (cycleOf env (spic _ _ cmd.dataCycle _ n) v).length = _
    unfold cycleLength
    cases cmd.dataCycle with
    | false => exact length_cycleOf_noData _ _ _ _ _
    | true => exact length_cycleOf _ _ _ _ _ hle
  have hrange : ∀ f : Nat → Byte, ((List.range c.length).map f).length = cycleLength cmd n.toNat := by
    intro f
    rw [List.length_map, List.length_range, hlength]
  exact ⟨_, ⟨rfl, rfl, opcode_cycleOf _ _ _ _ _ _, prefixOpcode?_cycleOf _ _ _ _ _ _,
    toNat_and_spiaMask _, hlength, hrange _, hrange _⟩, congrArg (List.map _ <| List.range ·) hlength,
    congrArg (List.map _ <| List.range ·) hlength⟩

def Transfer.stored (cmd : Command) (l : Transfer) (n : Nat) (e : Exchange) : List Byte :=
  if cmd.shiftOut then l.buffer
  else l.buffer.take l.position ++ e.answer.take n ++ l.buffer.drop (l.position + n)

theorem wp_finishCycle {cmd : Command} {l : Transfer} {n : BitVec 32} (u : Host) {e : Exchange}
    (hanswer : e.answer.take n.toNat = (List.range n.toNat).map u.spid) :
    wp (finishCycle env cmd l n)
      (fun r v => v.exchanges = u.exchanges ∧ v.chip = u.chip ∧
        (r = .inr (.deviceError, l.buffer) ∧ ¬ env.Completes ∨
          r = nextTransfer l n (l.stored cmd n.toNat e)))
      (fun _ _ => l.buffer.length < l.position + n.toNat) u := by
  rw [finishCycle, wp_bind]
  refine wp_mono (wp_waitForSpiCycleComplete true u) ?_ fun _ _ h => h.elim
  rintro complete v ⟨⟨p, rfl⟩, hfail⟩
  rw [wp_ite, wp_ite]
  refine ⟨fun hc => ⟨rfl, rfl, .inl ⟨rfl, hfail hc⟩⟩, fun _ =>
    ⟨fun hshift => ⟨rfl, rfl, .inr ?_⟩, fun hshift => ?_⟩⟩
  · rw [Transfer.stored, if_pos hshift]
  · rw [wp_bind, shiftInData, wp_bind, wp_when]
    refine ⟨id, fun _ => ⟨rfl, rfl, .inr ?_⟩⟩
    rw [Transfer.stored, if_neg hshift, hanswer]

theorem wp_sendCycle (env : Env) (cmd : Command) {l : Transfer} {n : BitVec 32}
    (hn : spiDataCount l.hardwareSpiAddr l.dataByteCount = n) (hle : n.toNat ≤ 64)
    (hdata : cmd.dataCycle = false → n.toNat = 0) (t : Host) :
    wp (sendCycle env cmd l)
      (fun r u => ∃ e, Added env cmd l.hardwareSpiAddr (cycleLength cmd n.toNat) t u e ∧
        (cmd.shiftOut = true → e.cycle.data.take n.toNat = (l.buffer.drop l.position).take n.toNat) ∧
        (r = .inr (.deviceError, l.buffer) ∧ ¬ env.Completes ∨
          r = nextTransfer l n (l.stored cmd n.toNat e)))
      (fun _ _ => l.buffer.length < l.position + n.toNat) t := by
  -- the cycle has registers for all bytes that are moved
  have hcover : ∀ f : Nat → Byte, ((List.range (cycleLength cmd n.toNat)).map f).take n.toNat =
      (List.range n.toNat).map f := by
    intro f
    have hlen : n.toNat ≤ cycleLength cmd n.toNat := by
      unfold cycleLength
      cases hd : cmd.dataCycle with
      | false => rw [hdata hd]; exact Nat.zero_le _
      | true => rw [if_pos rfl]; split <;> omega
    rw [← List.map_take, List.take_range, Nat.min_eq_left hlen]
  have hrest : ∀ v : Host, v.exchanges = t.exchanges → v.chip = t.chip →
      (cmd.shiftOut = true →
        (List.range n.toNat).map v.spid = (l.buffer.drop l.position).take n.toNat) →
      wp (startCycle env cmd l.hardwareSpiAddr n >>= fun _ => finishCycle env cmd l n)
        (fun r u => ∃ e, Added env cmd l.hardwareSpiAddr (cycleLength cmd n.toNat) t u e ∧
          (cmd.shiftOut = true → e.cycle.data.take n.toNat = (l.buffer.drop l.position).take n.toNat) ∧
          (r = .inr (.deviceError, l.buffer) ∧ ¬ env.Completes ∨
            r = nextTransfer l n (l.stored cmd n.toNat e)))
        (fun _ _ => l.buffer.length < l.position + n.toNat) v := by
    intro v hexchanges hchip hout
    rw [wp_bind]
    refine wp_mono (wp_startCycle hle v) ?_ fun _ _ h => h.elim
    rintro _ u ⟨e, he, hcycle, hanswer⟩
    refine wp_mono (wp_finishCycle u (by rw [hanswer, hcover])) ?_ fun _ _ h => h
    rintro r w ⟨hwe, hwc, hr⟩
    refine ⟨e, ⟨?_, ?_, he.opcode, he.prefixOpcode?, he.address, he.length, he.dataLength,
      he.answerLength⟩, fun hshift => ?_, hr⟩
    · rw [hwe, he.exchanges, hexchanges]
    · rw [hwc, he.chip, hchip]
    · rw [hcycle, hcover, hout hshift]
  show wp (Exec.when _ (shiftOutData l _) >>= fun _ => startCycle env cmd l.hardwareSpiAddr _ >>= fun _ =>
    finishCycle env cmd l _) _ _ t
  rw [hn, wp_bind, wp_when]
  refine ⟨fun hshift => ?_, fun hshift => hrest t rfl rfl fun h => absurd h hshift⟩
  rw [shiftOutData, wp_bind, wp_when]
  refine ⟨id, fun hfits => hrest _ rfl rfl fun _ => ?_⟩
  apply List.ext_getElem?
  intro i
  rw [List.getElem?_map, List.getElem?_take]
  by_cases hi : i < n.toNat
  · rw [List.getElem?_range hi, if_pos hi, List.getElem?_drop]
    have hlt : l.position + i < l.buffer.length := by omega
    show some (if i < n.toNat then _ else _) = _
    rw [if_pos hi, List.getElem?_eq_getElem hlt]
    rfl
  · rw [if_neg hi, List.getElem?_eq_none (by simpa using hi)]
    rfl

/-! ## The transfer -/

def Chunk (s : Span) : Prop := s.offset % 256 + s.length ≤ 256 ∧ Expressible s.length

def onChip (s : Span) : Span := ⟨s.offset % 2 ^ 24, s.length⟩

/-- From `h` to `t` the exchanges `es` have been made, one for each of the ranges, which tile what comes
behind `a`. -/
structure Sent (env : Env) (cmd : Command) (a : Nat) (h t : Host) (es : List Exchange)
    (spans : List Span) : Prop where
  exchanges : t.exchanges = h.exchanges ++ es
  chip : t.chip = es.foldl (fun chip e => (env.respond e.cycle chip).1) h.chip
  opcode : ∀ e ∈ es, e.cycle.opcode = env.opMenu cmd.opcodeIndex ∧
    e.cycle.prefixOpcode? = if cmd.atomic then some (env.preOp cmd.prefixOpcodeIndex) else none
  dataLength : ∀ e ∈ es, e.cycle.data.length = e.cycle.length
  tile : Span.Tile a spans
  chunk : ∀ s ∈ spans, Chunk s
  span : es.map (·.cycle.span) = spans.map onChip

theorem Sent.none {cmd : Command} {a : Nat} {h : Host} : Sent env cmd a h h [] [] where
  exchanges := (List.append_nil _).symm
  chip := rfl
  opcode := fun _ he => absurd he List.not_mem_nil
  dataLength := fun _ he => absurd he List.not_mem_nil
  tile := trivial
  chunk := fun _ hs => absurd hs List.not_mem_nil
  span := rfl

theorem Sent.more {cmd : Command} {a : Nat} {h t u : Host} {es : List Exchange} {spans : List Span}
    (hs : Sent env cmd a h t es spans) {addr : BitVec 32} {n : Nat} {e : Exchange}
    (he : Added env cmd addr n t u e) (ha : addr.toNat = a + Span.total spans)
    (hchunk : Chunk ⟨addr.toNat, n⟩) :
    Sent env cmd a h u (es ++ [e]) (spans ++ [⟨addr.toNat, n⟩]) where
  exchanges := by rw [he.exchanges, hs.exchanges, List.append_assoc]
  chip := by rw [he.chip, hs.chip, List.foldl_append]; rfl
  opcode := by
    intro e' he'
    rcases List.mem_append.mp he' with he' | he'
    · exact hs.opcode e' he'
    · rw [List.mem_singleton.mp he']
      exact ⟨he.opcode, he.prefixOpcode?⟩
  dataLength := by
    intro e' he'
    rcases List.mem_append.mp he' with he' | he'
    · exact hs.dataLength e' he'
    · rw [List.mem_singleton.mp he', he.dataLength, he.length]
  tile := Span.tile_append.mpr ⟨hs.tile, ha, trivial⟩
  chunk := by
    intro s hmem
    rcases List.mem_append.mp hmem with hmem | hmem
    · exact hs.chunk s hmem
    · rw [List.mem_singleton.mp hmem]
      exact hchunk
  span := by
    rw [List.map_append, List.map_append, hs.span]
    refine congrArg (_ ++ [·]) ?_
    show Span.mk e.cycle.address e.cycle.length = _
    rw [he.address, he.length]
    rfl

/-- The first `k` bytes of the buffer are what the exchanges have moved. -/
structure Carried (shiftOut : Bool) (buffer now : List Byte) (es : List Exchange) (k : Nat) : Prop where
  out : shiftOut = true → now = buffer
  moved : es.flatMap (·.moved shiftOut) = now.take k
  rest : now.drop k = buffer.drop k
  length : now.length = buffer.length

theorem Carried.none {shiftOut : Bool} {buffer : List Byte} : Carried shiftOut buffer buffer [] 0 :=
  ⟨fun _ => rfl, rfl, rfl, rfl⟩

theorem Carried.more {cmd : Command} {buffer : List Byte} {l : Transfer} {es : List Exchange} {n : Nat}
    (hc : Carried cmd.shiftOut buffer l.buffer es l.position) {e : Exchange}
    (hdata : e.cycle.data.length = n) (hanswer : e.answer.length = n)
    (hout : cmd.shiftOut = true → e.cycle.data.take n = (l.buffer.drop l.position).take n)
    (hbuffer : l.position + n ≤ buffer.length) :
    Carried cmd.shiftOut buffer (l.stored cmd n e) (es ++ [e]) (l.position + n) := by
  have hlength := hc.length
  have hall : e.answer.take n = e.answer := List.take_of_length_le (Nat.le_of_eq hanswer)
  unfold Transfer.stored
  by_cases hshift : cmd.shiftOut = true
  · rw [if_pos hshift]
    refine ⟨hc.out, ?_, ?_, hlength⟩
    · rw [List.flatMap_append, hc.moved, List.take_add, List.flatMap_singleton, Exchange.moved,
        if_pos hshift, ← hout hshift, List.take_of_length_le (Nat.le_of_eq hdata)]
    · rw [← List.drop_drop, ← List.drop_drop, hc.rest]
  · rw [if_neg hshift, hall]
    have htake : (l.buffer.take l.position).length = l.position := by
      rw [List.length_take]
      omega
    refine ⟨fun h => absurd h hshift, ?_, ?_, ?_⟩
    · rw [List.flatMap_append, hc.moved, List.flatMap_singleton, Exchange.moved, if_neg hshift,
        List.take_left' (by rw [List.length_append, htake, hanswer])]
    · rw [List.drop_left' (by rw [List.length_append, htake, hanswer]), ← List.drop_drop, hc.rest,
        List.drop_drop]
    · rw [List.length_append, List.length_append, htake, hanswer, List.length_drop]
      omega

def Transferred (env : Env) (cmd : Command) (a count : Nat) (buffer : List Byte) (h : Host)
    (r : EfiStatus × List Byte) (t : Host) : Prop :=
  ∃ es spans, Sent env cmd a h t es spans ∧
    (r.1 = .success ∧ Span.total spans = count ∧ Carried cmd.shiftOut buffer r.2 es count ∨
      r.1 = .deviceError ∧ Span.total spans ≤ count ∧ ¬ env.Completes)

theorem wp_sendLoop {cmd : Command} (hdata : cmd.dataCycle = true) {addr count : BitVec 32}
    (hcount : 0 < count.toNat) (hend : addr.toNat + count.toNat ≤ 2 ^ 32 - 256) {buffer : List Byte}
    (hbuffer : count.toNat ≤ buffer.length) (h : Host) :
    wp (Exec.loop (2 ^ 32) (sendCycle env cmd) ⟨addr, count, 0, buffer⟩)
      (Transferred env cmd addr.toNat count.toNat buffer h) (fun _ _ => False) h := by
  refine wp_loop_total (fun (l : Transfer) t => ∃ es spans, Sent env cmd addr.toNat h t es spans ∧
      Carried cmd.shiftOut buffer l.buffer es l.position ∧ l.position = Span.total spans ∧
      l.hardwareSpiAddr.toNat = addr.toNat + Span.total spans ∧
      l.dataByteCount.toNat + Span.total spans = count.toNat ∧ 0 < l.dataByteCount.toNat)
    (fun l _ => l.dataByteCount.toNat) ?_ _ _ _ count.isLt
    ⟨[], [], Sent.none, Carried.none, rfl, rfl, rfl, hcount⟩
  rintro l t ⟨es, spans, hsent, hcarried, hposition, haddr, hleft, hpos⟩
  obtain ⟨hle, hpage, hexpressible⟩ := toNat_spiDataCount (a := l.hardwareSpiAddr) (n := l.dataByteCount)
    (by omega) hpos
  generalize hn : spiDataCount l.hardwareSpiAddr l.dataByteCount = n at hle hpage hexpressible
  have hlen := hcarried.length
  have hn64 : n.toNat ≤ 64 := by
    unfold Expressible at hexpressible
    omega
  have hno : cmd.dataCycle = false → n.toNat = 0 := fun h => by simp [hdata] at h
  have hfull : cycleLength cmd n.toNat = n.toNat := by
    rw [cycleLength, if_pos hdata, if_neg (by have := hexpressible.1; omega)]
  refine wp_mono (wp_sendCycle env _ hn hn64 hno t) ?_ fun _ _ h => absurd h (by omega)
  rintro r u ⟨e, he, hout, hr⟩
  rw [hfull] at he
  have hsent' := hsent.more he haddr ⟨hpage, hexpressible⟩
  have hcarried' := hcarried.more he.dataLength he.answerLength hout (by omega)
  have htotal : Span.total (spans ++ [⟨l.hardwareSpiAddr.toNat, n.toNat⟩]) =
      Span.total spans + n.toNat := by simp
  have hsub : (l.dataByteCount - n).toNat = l.dataByteCount.toNat - n.toNat :=
    BitVec.toNat_sub_of_le hle
  rcases hr with ⟨rfl, hfail⟩ | rfl
  · exact ⟨_, _, hsent', .inr ⟨rfl, by omega, hfail⟩⟩
  unfold nextTransfer
  by_cases hmore : 0 < l.dataByteCount - n
  · rw [if_pos hmore]
    have hmore : 0 < (l.dataByteCount - n).toNat := hmore
    have hadd : (l.hardwareSpiAddr + n).toNat = l.hardwareSpiAddr.toNat + n.toNat := by
      rw [BitVec.toNat_add]
      exact Nat.mod_eq_of_lt (by omega)
    refine ⟨⟨_, _, hsent', hcarried', ?_, ?_, ?_, hmore⟩, ?_⟩
    · show l.position + n.toNat = _
      omega
    · show (l.hardwareSpiAddr + n).toNat = _
      omega
    · show (l.dataByteCount - n).toNat + _ = _
      omega
    · show (l.dataByteCount - n).toNat < _
      have := hexpressible.1
      omega
  · rw [if_neg hmore]
    have hdone : (l.dataByteCount - n).toNat = 0 := by
      have : ¬ 0 < (l.dataByteCount - n).toNat := hmore
      omega
    refine ⟨_, _, hsent', .inl ⟨rfl, by omega, ?_⟩⟩
    rw [show count.toNat = l.position + n.toNat by omega]
    exact hcarried'

/-- The exchange starts within 64 bytes behind `stop`. -/
structure Beyond (cmd : Command) (env : Env) (stop : Nat) (e : Exchange) : Prop where
  opcode : e.cycle.opcode = env.opMenu cmd.opcodeIndex
  prefixOpcode? : e.cycle.prefixOpcode? = if cmd.atomic then some (env.preOp cmd.prefixOpcodeIndex) else none
  low : stop ≤ e.cycle.address
  high : e.cycle.address < stop + 64
  some : 0 < e.cycle.length

theorem wp_sendLoop_wraps {cmd : Command} (hdata : cmd.dataCycle = true) (hready : env.Completes)
    {addr count : BitVec 32} {stop : Nat} (hstop : stop + 64 ≤ 2 ^ 24) (haddr : addr.toNat ≤ stop)
    (hwraps : 2 ^ 32 ≤ addr.toNat + count.toNat) (buffer : List Byte) (h : Host) :
    wp (Exec.loop (2 ^ 32) (sendCycle env cmd) ⟨addr, count, 0, buffer⟩)
      (fun _ t => ∃ es, t.exchanges = h.exchanges ++ es ∧ ∃ e ∈ es, Beyond cmd env stop e)
      (fun _ _ => True) h := by
  refine wp_loop (fun (l : Transfer) t => ∃ es, t.exchanges = h.exchanges ++ es ∧
      ((∃ e ∈ es, Beyond cmd env stop e) ∨ l.hardwareSpiAddr.toNat < stop + 64 ∧
        2 ^ 32 ≤ l.hardwareSpiAddr.toNat + l.dataByteCount.toNat)) ?_ (fun _ _ _ => trivial) _
    ⟨[], (List.append_nil _).symm, .inr ⟨by show addr.toNat < _; omega, hwraps⟩⟩
  rintro l t ⟨es, hes, hfound | ⟨hlow, hleft⟩⟩
  · refine wp_mono (wp_sendCycle env _ rfl (toNat_spiDataCount_le _ _) (fun h => by simp [hdata] at h) t) ?_
      fun _ _ _ => trivial
    rintro r u ⟨e, he, -⟩
    obtain ⟨e', hmem, hbeyond⟩ := hfound
    have hgrown : u.exchanges = h.exchanges ++ (es ++ [e]) := by
      rw [he.exchanges, hes, List.append_assoc]
    have hfound : ∃ e' ∈ es ++ [e], Beyond cmd env stop e' :=
      ⟨e', List.mem_append_left _ hmem, hbeyond⟩
    cases r with
    | inl l' => exact ⟨_, hgrown, .inl hfound⟩
    | inr r => exact ⟨_, hgrown, hfound⟩
  · have hn := spiDataCount_of_wraps (a := l.hardwareSpiAddr) (n := l.dataByteCount) (by omega) (by omega)
      hleft
    have h64 : (64 : BitVec 32).toNat = 64 := rfl
    refine wp_mono (wp_sendCycle env _ hn (Nat.le_refl 64) (fun h => by simp [hdata] at h) t) ?_
      fun _ _ _ => trivial
    rintro r u ⟨e, he, -, hr⟩
    have hgrown : u.exchanges = h.exchanges ++ (es ++ [e]) := by
      rw [he.exchanges, hes, List.append_assoc]
    have hsub : (l.dataByteCount - 64).toNat = l.dataByteCount.toNat - 64 :=
      BitVec.toNat_sub_of_le (by show 64 ≤ l.dataByteCount.toNat; omega)
    have hmore : 0 < l.dataByteCount - 64 := by
      show 0 < (l.dataByteCount - 64).toNat
      omega
    obtain rfl := hr.resolve_left fun hfail => absurd hready hfail.2
    rw [nextTransfer, if_pos hmore]
    refine ⟨_, hgrown, ?_⟩
    by_cases hbehind : stop ≤ l.hardwareSpiAddr.toNat
    · refine .inl ⟨e, List.mem_append_right _ (List.mem_singleton_self e), he.opcode, he.prefixOpcode?,
        ?_, ?_, ?_⟩
      · rw [he.address, Nat.mod_eq_of_lt (by omega)]
        exact hbehind
      · rw [he.address, Nat.mod_eq_of_lt (by omega)]
        exact hlow
      · rw [he.length, cycleLength, if_pos hdata, if_neg (by decide)]
        decide
    · have hadd : (l.hardwareSpiAddr + 64).toNat = l.hardwareSpiAddr.toNat + 64 := by
        rw [BitVec.toNat_add, h64]
        exact Nat.mod_eq_of_lt (by omega)
      refine .inr ⟨?_, ?_⟩
      · show (l.hardwareSpiAddr + 64).toNat < _
        omega
      · show _ ≤ (l.hardwareSpiAddr + 64).toNat + (l.dataByteCount - 64).toNat
        omega

theorem wp_sendLoop_bounded {cmd : Command} (hdata : cmd.dataCycle = true) (hshift : cmd.shiftOut = true)
    (hready : env.Completes) (addr count : BitVec 32) {buffer : List Byte} (hbuffer : buffer.length < 2 ^ 32)
    (h : Host) :
    wp (Exec.loop (2 ^ 32) (sendCycle env cmd) ⟨addr, count, 0, buffer⟩)
      (fun _ _ => count.toNat ≤ buffer.length) (fun _ _ => True) h := by
  refine wp_loop (fun (l : Transfer) _ => l.buffer = buffer ∧ l.position ≤ buffer.length ∧
      (l.position + l.dataByteCount.toNat) % 2 ^ 32 = count.toNat) ?_ (fun _ _ _ => trivial) _
    ⟨rfl, Nat.zero_le _, by show (0 + count.toNat) % _ = _; omega⟩
  rintro l t ⟨rfl, hposition, hleft⟩
  have hle := toNat_spiDataCount_le l.hardwareSpiAddr l.dataByteCount
  generalize hn : spiDataCount l.hardwareSpiAddr l.dataByteCount = n at hle
  refine wp_mono (wp_sendCycle env _ hn hle (fun h => by simp [hdata] at h) t) ?_ fun _ _ _ => trivial
  rintro r u ⟨e, he, hout, hr⟩
  obtain rfl := hr.resolve_left fun hfail => absurd hready hfail.2
  have hfits : l.position + n.toNat ≤ l.buffer.length := by
    have hlen := congrArg List.length (hout hshift)
    have hcover : n.toNat ≤ cycleLength cmd n.toNat := by
      rw [cycleLength, if_pos hdata]
      split <;> omega
    rw [List.length_take, List.length_take, List.length_drop, he.dataLength] at hlen
    omega
  have hsub : (l.dataByteCount - n).toNat = (2 ^ 32 - n.toNat + l.dataByteCount.toNat) % 2 ^ 32 :=
    BitVec.toNat_sub _ _
  rw [Transfer.stored, if_pos hshift, nextTransfer]
  by_cases hmore : 0 < l.dataByteCount - n
  · rw [if_pos hmore]
    refine ⟨rfl, hfits, ?_⟩
    show (l.position + n.toNat + (l.dataByteCount - n).toNat) % 2 ^ 32 = count.toNat
    omega
  · rw [if_neg hmore]
    have hdone : ¬ 0 < (l.dataByteCount - n).toNat := hmore
    omega

/-! ## A command without bytes to move -/

theorem spiDataCount_zero {a : BitVec 32} (h : a.toNat < 2 ^ 32 - 256) : spiDataCount a 0 = 0 := by
  have hend := toNat_pageEnd h
  have hnot : ¬ pageEnd a < a + 0 := by
    rw [BitVec.lt_def, hend]
    show ¬ _ < (a + 0#32).toNat
    rw [BitVec.add_zero]
    omega
  unfold spiDataCount
  rw [if_neg hnot]
  decide

theorem wp_sendCycle_none {cmd : Command} {a : BitVec 32} (hend : a.toNat < 2 ^ 32 - 256)
    {buffer : List Byte} (h : Host) :
    wp (sendCycle env cmd ⟨a, 0, 0, buffer⟩)
      (fun r t => ∃ e, Added env cmd a (cycleLength cmd 0) h t e ∧
        (r = .inr (.deviceError, buffer) ∧ ¬ env.Completes ∨ ∃ b, r = .inr (.success, b)))
      (fun _ _ => False) h := by
  have hzero : (0 : BitVec 32).toNat = 0 := rfl
  have hcount : spiDataCount (Transfer.hardwareSpiAddr ⟨a, 0, 0, buffer⟩)
      (Transfer.dataByteCount ⟨a, 0, 0, buffer⟩) = 0 := spiDataCount_zero hend
  have hstep := wp_sendCycle env cmd hcount (by rw [hzero]; exact Nat.zero_le _)
    (fun _ => hzero) h
  rw [hzero] at hstep
  refine wp_mono hstep ?_ fun _ _ hlt => absurd hlt (Nat.not_lt_zero _)
  rintro r t ⟨e, he, -, hfail | rfl⟩
  · exact ⟨e, he, .inl hfail⟩
  · exact ⟨e, he, .inr ⟨_, if_neg (show ¬ (0 : BitVec 32) < 0 - 0 by decide)⟩⟩

theorem wp_sendSpiCmd_none (cmd : Command) (hopcode : env.opMenu cmd.opcodeIndex ≠ 0)
    (hsize : env.initTable.biosSize ≠ 0) {region : RegionType}
    (hregion : ¬ ((env.initTable.opcodeMenu cmd.opcodeIndex).type = .read ∧ region = .bios))
    {address : BitVec 32} (hend : (spiOffset2Physical env address region).toNat < 2 ^ 32 - 256)
    {buffer : List Byte} (h : Host) :
    wp (sendSpiCmd env cmd address 0 buffer region)
      (fun r t => ∃ e, Added env cmd (spiOffset2Physical env address region) (cycleLength cmd 0) h t e ∧
        (r.1 = .success ∨ r.1 = .deviceError ∧ ¬ env.Completes)) (fun _ _ => False) h := by
  unfold sendSpiCmd
  rw [if_neg fun hor => hor.elim hopcode hsize, if_neg hregion, ite_self]
  generalize spiOffset2Physical env address region = a at hend ⊢
  refine wp_loop_total (fun l t => l = ⟨a, 0, 0, buffer⟩ ∧ t = h) (fun _ _ => 0) ?_ _ _ _ (by decide)
    ⟨rfl, rfl⟩
  rintro l t ⟨rfl, rfl⟩
  refine wp_mono (wp_sendCycle_none hend t) ?_ fun _ _ hf => hf
  rintro r u ⟨e, he, ⟨rfl, hfail⟩ | ⟨b, rfl⟩⟩
  · exact ⟨e, he, .inr ⟨rfl, hfail⟩⟩
  · exact ⟨e, he, .inl rfl⟩

/-! ## The command -/

theorem wp_sendSpiCmd {cmd : Command} (hdata : cmd.dataCycle = true)
    (hopcode : env.opMenu cmd.opcodeIndex ≠ 0) (hsize : env.initTable.biosSize ≠ 0) {region : RegionType}
    (hregion : ¬ ((env.initTable.opcodeMenu cmd.opcodeIndex).type = .read ∧ region = .bios))
    {address count : BitVec 32} (hcount : 0 < count.toNat)
    (hend : (spiOffset2Physical env address region).toNat + count.toNat ≤ 2 ^ 32 - 256)
    {buffer : List Byte} (hbuffer : count.toNat ≤ buffer.length) (h : Host) :
    wp (sendSpiCmd env cmd address count buffer region)
      (Transferred env cmd (spiOffset2Physical env address region).toNat count.toNat buffer h)
      (fun _ _ => False) h := by
  unfold sendSpiCmd
  rw [if_neg fun hor => hor.elim hopcode hsize, if_neg hregion, if_neg fun hno => by simp [hdata] at hno]
  exact wp_sendLoop hdata hcount hend hbuffer h

/-- The cycles of a data transfer: their ranges tile the transfer in order, each within a page and of a
length the control word can express, and they move the bytes of the buffer. The address register has the
low 24 bits of where a range starts. A cycle that the part does not complete is the last one. -/
theorem sendSpiCmd_chunks (env : Env) (cmd : Command) (address count : BitVec 32) (buffer : List Byte)
    (region : RegionType) (h : Host) (hdata : cmd.dataCycle = true)
    (hopcode : env.opMenu cmd.opcodeIndex ≠ 0) (hsize : env.initTable.biosSize ≠ 0)
    (hregion : ¬ ((env.initTable.opcodeMenu cmd.opcodeIndex).type = .read ∧ region = .bios))
    (hcount : 0 < count.toNat)
    (hend : (spiOffset2Physical env address region).toNat + count.toNat ≤ 2 ^ 32 - 256)
    (hbuffer : count.toNat ≤ buffer.length) :
    ∃ r t es spans, sendSpiCmd env cmd address count buffer region h = .ret r t ∧
      t.exchanges = h.exchanges ++ es ∧
      es.map (·.cycle.span) = spans.map onChip ∧
      Span.Tile (spiOffset2Physical env address region).toNat spans ∧ (∀ s ∈ spans, Chunk s) ∧
      (r.1 = .success ∧ Span.total spans = count.toNat ∧
          es.flatMap (·.moved cmd.shiftOut) = r.2.take count.toNat ∧
          (cmd.shiftOut = true → r.2 = buffer) ∨
        r.1 = .deviceError ∧ Span.total spans ≤ count.toNat ∧ ¬ env.Completes) := by
  obtain ⟨r, t, hrun, es, spans, hsent, hend⟩ :=
    returns_of_wp (wp_sendSpiCmd hdata hopcode hsize hregion hcount hend hbuffer h)
  refine ⟨r, t, es, spans, hrun, hsent.exchanges, hsent.span, hsent.tile, hsent.chunk, ?_⟩
  rcases hend with ⟨hsuccess, htotal, hcarried⟩ | hfailed
  · exact .inl ⟨hsuccess, htotal, hcarried.moved, hcarried.out⟩
  · exact .inr hfailed

theorem sendSpiCmd_chunks_page :
    ∃ r t es spans, sendSpiCmd (readyEnv 0x800000 0x800000 0) ⟨3, 0, true, true, true⟩ 0xFE 3 [1, 2, 3] .bios
        (hostWith fun _ => ByteStore.erased) = .ret r t ∧ t.exchanges = es ∧
      es.map (·.cycle.span) = spans.map onChip ∧ Span.Tile 0xFE spans ∧ Span.total spans = 3 ∧
      es.flatMap (·.moved true) = [1, 2, 3] := by
  obtain ⟨r, t, es, spans, hrun, hes, hspans, htile, -, hend⟩ :=
    sendSpiCmd_chunks (readyEnv 0x800000 0x800000 0) ⟨3, 0, true, true, true⟩ 0xFE 3 [1, 2, 3] .bios
      (hostWith fun _ => ByteStore.erased) rfl (by decide) (by decide) (by decide) (by decide) (by decide)
      (by decide)
  rcases hend with ⟨-, htotal, hmoved, hbuffer⟩ | ⟨-, -, hfail⟩
  · rw [hbuffer rfl] at hmoved
    exact ⟨r, t, es, spans, hrun, hes, hspans, htile, htotal, hmoved⟩
  · exact absurd (readyEnv_completes _ _ _) hfail

/-- A byte behind the reach of the address register is programmed at the start of the part. -/
theorem sendSpiCmd_not_chunks : ∃ t, sendSpiCmd (readyEnv 0x800000 0x800000 0) ⟨3, 0, true, true, true⟩
      0x01000000 1 [0] .all (hostWith fun _ => ByteStore.erased) = .ret (.success, [0]) t ∧
    ¬ Span.Tile 0x01000000 (t.exchanges.map (·.cycle.span)) :=
  ⟨_, rfl, fun htile => absurd htile.1 (by decide)⟩

end Quark.Spi
