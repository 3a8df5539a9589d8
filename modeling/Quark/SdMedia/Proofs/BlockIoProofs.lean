import Quark.SdMedia.Proofs.CardProofs

/-!
# The block device keeps its contract

A run of requests each of which meets its condition is answered as the contract has it.
-/

namespace Quark.SdMedia

open Machine Machine.Exec

variable {card : CardData} {host : Host}

/-! ## Commands -/

def commandOf (card : CardData) (index : BitVec 16) (argument : BitVec 32) (transfer : Transfer)
    (responseType : ResponseType) : Command where
  index := if card.cardType.isMmc then index else index ||| autoCmd12Enable
  argument := argument
  transfer := transfer
  responseType := responseType

theorem wp_sendCommand {Q : EfiStatus × List Byte → Bus → Prop} {E : Stop → Bus → Prop} {bus : Bus}
    {index : BitVec 16} {argument : BitVec 32} {transfer : Transfer} {responseType : ResponseType} :
    (sendCommand card host index argument transfer responseType).wp Q E bus ↔
      Q ((host.answer bus.log.length).outcome,
          bringIn card (commandOf card index argument transfer responseType) bus.disk)
        { disk := carryOut card host (commandOf card index argument transfer responseType) bus,
          log := bus.log ++ [(commandOf card index argument transfer responseType,
            host.answer bus.log.length)] } := Iff.rfl

def Succeeded (bus bus' : Bus) : Prop :=
  ∃ new : List (Command × Answer), bus'.log = bus.log ++ new ∧
    ∀ entry ∈ new, entry.2.outcome.isError = false

theorem Succeeded.refl (bus : Bus) : Succeeded bus bus :=
  ⟨[], (List.append_nil _).symm, fun _ h => absurd h List.not_mem_nil⟩

theorem Succeeded.trans {bus bus' bus'' : Bus} (h : Succeeded bus bus') (h' : Succeeded bus' bus'') :
    Succeeded bus bus'' := by
  obtain ⟨new, hlog, hok⟩ := h
  obtain ⟨new', hlog', hok'⟩ := h'
  refine ⟨new ++ new', ?_, ?_⟩
  · rw [hlog', hlog, List.append_assoc]
  · intro entry hentry
    rcases List.mem_append.mp hentry with hentry | hentry
    · exact hok entry hentry
    · exact hok' entry hentry

theorem Succeeded.single {bus bus' : Bus} {command : Command} {answer : Answer}
    (hlog : bus'.log = bus.log ++ [(command, answer)]) (hok : answer.outcome.isError = false) :
    Succeeded bus bus' := by
  refine ⟨_, hlog, fun entry hentry => ?_⟩
  rw [List.mem_singleton.mp hentry]
  exact hok

theorem Succeeded.not_failed {bus bus' : Bus} (h : Succeeded bus bus') :
    ¬ ∃ entry ∈ bus'.log.drop bus.log.length, entry.2.outcome.isError = true := by
  obtain ⟨new, hlog, hok⟩ := h
  rintro ⟨entry, hentry, herr⟩
  rw [hlog, List.drop_left] at hentry
  rw [hok entry hentry] at herr
  cases herr

/-! ## Reading -/

theorem wp_announce (length : Nat) (bus : Bus) :
    (announce card host length).wp (fun status bus' => bus'.disk = bus.disk ∧
      (status.isError = false → Succeeded bus bus')) (fun _ _ => False) bus := by
  unfold announce
  rw [wp_ite]
  refine ⟨fun _ => ?_, fun _ => ?_⟩
  · rw [wp_bind]
    have hblocklen : (sendBlocklen card host).wp (fun status bus' => bus'.disk = bus.disk ∧
        (status.isError = false → Succeeded bus bus')) (fun _ _ => False) bus := by
      unfold sendBlocklen
      rw [wp_ite]
      refine ⟨fun _ => ?_, fun _ => ⟨rfl, fun _ => Succeeded.refl bus⟩⟩
      rw [wp_bind, wp_sendCommand]
      exact ⟨rfl, fun hok => Succeeded.single rfl hok⟩
    refine wp_mono hblocklen ?_ (fun _ _ h => h)
    rintro status bus' ⟨hdisk, hok⟩
    rw [wp_ite]
    refine ⟨fun herr => ⟨hdisk, fun h => ?_⟩, fun hno => ?_⟩
    · rw [herr] at h
      cases h
    · unfold sendBlockCount
      rw [wp_bind, wp_sendCommand]
      refine ⟨hdisk, fun hok' => ?_⟩
      exact (hok (Bool.eq_false_iff.mpr hno)).trans (Succeeded.single rfl hok')
  · exact ⟨rfl, fun _ => Succeeded.refl bus⟩

/-- The variables at the head of a transfer loop that was started on `bus`. -/
structure AtHead (card : CardData) (lba : BitVec 64) (bufferSize : Nat) (l : Progress) : Prop where
  split : l.offset + l.remainingLength = bufferSize
  status : l.status = .success
  boundary : l.remainingLength = 0 ∨ card.boundarySize ∣ l.offset
  address : l.remainingLength = 0 ∨ l.address = card.addressAt lba l.offset

section

variable {lba : BitVec 64} {bufferSize : BitVec 32}

theorem AtHead.first (hbound : card.start lba < 2 ^ 64) : AtHead card lba bufferSize.toNat
    (Progress.first card lba bufferSize.toNat) :=
  ⟨Nat.zero_add _, rfl, .inr (dvd_zero _), .inr (card.addressOf_eq hbound)⟩

theorem transferLength_spec (card : CardData) (bufferSize : BitVec 32) {remaining : Nat} (hpos : 0 < remaining)
    (hle : remaining ≤ bufferSize.toNat) :
    0 < transferLength card bufferSize.toNat remaining ∧
      transferLength card bufferSize.toNat remaining ≤ remaining ∧
      (transferLength card bufferSize.toNat remaining = remaining ∨
        transferLength card bufferSize.toNat remaining = card.boundarySize) ∧
      transferLength card bufferSize.toNat remaining ≤ card.boundarySize := by
  have hblock := card.blockSize_pos
  have hboundary := card.boundary_pos
  have hge := card.boundary_ge
  have hle512 := card.blockSize_le
  unfold transferLength
  split
  · split
    · omega
    · omega
  · split
    · omega
    · omega

theorem AtHead.next {l : Progress} (h : AtHead card lba bufferSize.toNat l)
    (haddr : card.Addressable lba bufferSize) (hpos : l.remainingLength ≠ 0) (data : List Byte) :
    AtHead card lba bufferSize.toNat
      (l.advance card (transferLength card bufferSize.toNat l.remainingLength) .success data) := by
  have hsplit := h.split
  obtain ⟨hpos', hle, hlength, -⟩ := transferLength_spec card bufferSize
    (Nat.pos_of_ne_zero hpos) (by omega)
  have hdvd : card.boundarySize ∣ l.offset := h.boundary.resolve_left hpos
  refine ⟨?_, rfl, ?_, ?_⟩
  · show l.offset + _ + (l.remainingLength - _) = _
    omega
  · rcases hlength with hall | hboundary
    · left
      show l.remainingLength - _ = 0
      omega
    · right
      show card.boundarySize ∣ l.offset + _
      rw [hboundary]
      exact Nat.dvd_add hdvd (dvd_refl _)
  · rcases hlength with hall | hboundary
    · left
      show l.remainingLength - _ = 0
      omega
    · by_cases hlast : l.remainingLength - transferLength card bufferSize.toNat l.remainingLength = 0
      · exact .inl hlast
      · right
        show advanceAddress card l.address _ = _
        rw [h.address.resolve_left hpos, card.advanceAddress_eq ?_]
        · rfl
        · intro hsector
          unfold CardData.Addressable at haddr
          rw [if_pos hsector] at haddr
          rcases haddr.2 with hsmall | hdvd512
          · omega
          · exact dvd_trans hdvd512 hdvd

theorem AtHead.position {l : Progress} (h : AtHead card lba bufferSize.toNat l)
    (haddr : card.Addressable lba bufferSize) (hend : card.start lba + bufferSize.toNat ≤ 2 ^ 41)
    (hpos : l.remainingLength ≠ 0) : card.position l.address = card.start lba + l.offset := by
  have hsplit := h.split
  rw [h.address.resolve_left hpos]
  exact card.position_addressAt haddr hend (by omega) (h.boundary.resolve_left hpos)

theorem wp_readBody {bus : Bus} (haddr : card.Addressable lba bufferSize)
    (hend : card.start lba + bufferSize.toNat ≤ 2 ^ 41) (l : Progress) (t : Bus)
    (hhead : AtHead card lba bufferSize.toNat l) (hdisk : t.disk = bus.disk)
    (hdata : l.data = bus.disk.read (card.start lba) l.offset) (hok : Succeeded bus t) :
    (readBody card host bufferSize.toNat l).wp (fun r t' => match r with
      | .inl l' => (AtHead card lba bufferSize.toNat l' ∧ t'.disk = bus.disk ∧
          l'.data = bus.disk.read (card.start lba) l'.offset ∧ Succeeded bus t') ∧
          l'.remainingLength < l.remainingLength
      | .inr result => t'.disk = bus.disk ∧ (result.1 = .success → Succeeded bus t' ∧
          result.2 = bus.disk.read (card.start lba) bufferSize.toNat)) (fun _ _ => False) t := by
  have hsplit := hhead.split
  unfold readBody
  rw [wp_ite]
  refine ⟨fun hzero => ?_, fun hpos => ?_⟩
  · refine ⟨hdisk, fun _ => ⟨hok, ?_⟩⟩
    rw [← hsplit, hzero, Nat.add_zero]
    exact hdata
  · obtain ⟨hlpos, hlle, -, -⟩ := transferLength_spec card bufferSize
      (Nat.pos_of_ne_zero hpos) (by omega)
    -- a data command that succeeds brings in what stands at its position
    have hcommand (index : BitVec 16) (t' : Bus) (hdisk' : t'.disk = bus.disk)
        (hok' : Succeeded bus t') :
        (sendCommand card host index l.address
            (.inData (transferLength card bufferSize.toNat l.remainingLength)) .responseR1 >>= fun r =>
          if r.1.isError then pure (.inr (r.1, l.data))
          else pure (.inl (l.advance card (transferLength card bufferSize.toNat l.remainingLength)
            r.1 r.2)) : Exec Bus (Progress ⊕ EfiStatus × List Byte)).wp (fun r t' => match r with
          | .inl l' => (AtHead card lba bufferSize.toNat l' ∧ t'.disk = bus.disk ∧
              l'.data = bus.disk.read (card.start lba) l'.offset ∧ Succeeded bus t') ∧
              l'.remainingLength < l.remainingLength
          | .inr result => t'.disk = bus.disk ∧ (result.1 = .success → Succeeded bus t' ∧
              result.2 = bus.disk.read (card.start lba) bufferSize.toNat)) (fun _ _ => False) t' := by
      rw [wp_bind, wp_sendCommand]
      dsimp only
      rw [wp_ite]
      refine ⟨fun herr => ⟨hdisk', fun hsuccess => ?_⟩, fun hno => ?_⟩
      · dsimp only at hsuccess
        rw [hsuccess] at herr
        cases herr
      · have hfine := Bool.eq_false_iff.mpr hno
        rw [EfiStatus.isError_eq_false.mp hfine]
        refine ⟨⟨hhead.next haddr hpos _, hdisk', ?_, hok'.trans (Succeeded.single rfl hfine)⟩, ?_⟩
        · show l.data ++ t'.disk.read (card.position l.address) _ = _
          rw [hdata, hdisk', hhead.position haddr hend hpos, ByteStore.read_append]
          rfl
        · show l.remainingLength - _ < l.remainingLength
          omega
    rw [wp_ite]
    refine ⟨fun _ => ?_, fun _ => hcommand _ t hdisk hok⟩
    unfold readMultiple
    rw [wp_bind]
    refine wp_mono (wp_announce _ t) ?_ (fun _ _ h => h)
    rintro status t' ⟨hdisk', hok'⟩
    rw [wp_ite]
    refine ⟨fun herr => ⟨hdisk'.trans hdisk, fun hsuccess => ?_⟩, fun hno => ?_⟩
    · dsimp only at hsuccess
      rw [hsuccess] at herr
      cases herr
    · exact hcommand _ t' (hdisk'.trans hdisk) (hok.trans (hok' (Bool.eq_false_iff.mpr hno)))

theorem wp_readTransfers {bus : Bus} (haddr : card.Addressable lba bufferSize)
    (hend : card.start lba + bufferSize.toNat ≤ 2 ^ 41) :
    (readTransfers card host lba bufferSize.toNat).wp (fun result t' => t'.disk = bus.disk ∧
      (result.1 = .success → Succeeded bus t' ∧
        result.2 = bus.disk.read (card.start lba) bufferSize.toNat)) (fun _ _ => False) bus := by
  unfold readTransfers
  rw [wp_bind]
  have hloop : (loop (bufferSize.toNat + 1) (readBody card host bufferSize.toNat)
      (Progress.first card lba bufferSize.toNat)).wp (fun result t' => t'.disk = bus.disk ∧
        (result.1 = .success → Succeeded bus t' ∧
          result.2 = bus.disk.read (card.start lba) bufferSize.toNat)) (fun _ _ => False) bus := by
    refine wp_loop_total
      (fun l t => AtHead card lba bufferSize.toNat l ∧ t.disk = bus.disk ∧
        l.data = bus.disk.read (card.start lba) l.offset ∧ Succeeded bus t)
      (fun l _ => l.remainingLength) ?_ _ _ bus (Nat.lt_succ_self _)
      ⟨AtHead.first (by omega), rfl, rfl, Succeeded.refl bus⟩
    rintro l t ⟨hhead, hdisk, hdata, hok⟩
    refine wp_mono (wp_readBody haddr hend l t hhead hdisk hdata hok) ?_ (fun _ _ h => h)
    rintro (l' | result) t' h
    · exact h
    · exact h
  refine wp_mono hloop ?_ (fun _ _ h => h)
  rintro result t ⟨hdisk, hsuccess⟩
  rw [wp_bind, wp_when]
  refine ⟨fun herr => ?_, fun _ => ⟨hdisk, hsuccess⟩⟩
  unfold sendStop
  rw [wp_bind, wp_sendCommand]
  refine ⟨hdisk, fun hs => ?_⟩
  rw [hs] at herr
  cases herr

/-! ## Writing -/

/-- The commands that are still to come in a write of which `remaining` bytes are left. -/
def commandsLeft (card : CardData) (bufferSize remaining : Nat) : Nat :=
  if remaining = 0 then 0
  else if bufferSize > card.blockSize then
    ((remaining - 1) / card.boundarySize + 1) * card.commandsOfTransfer
  else 1

theorem commandsLeft_self {n : Nat} (h : n ≠ 0) :
    commandsLeft card n n = card.commandsOfWrite n := if_neg h

theorem commandsOfTransfer_pos (card : CardData) : 0 < card.commandsOfTransfer := by
  unfold CardData.commandsOfTransfer
  split
  · split <;> decide
  · decide

theorem commandsLeft_step (card : CardData) {n remaining : Nat} (h : remaining ≠ 0) (hle : remaining ≤ n) :
    commandsLeft card n remaining =
      (if n > card.blockSize then card.commandsOfTransfer else 1) +
        commandsLeft card n (remaining - transferLength card n remaining) := by
  have hboundary := card.boundary_pos
  unfold commandsLeft transferLength
  rw [if_neg h]
  by_cases hmulti : n > card.blockSize
  · rw [if_pos hmulti, if_pos hmulti, if_pos hmulti, if_pos hmulti]
    by_cases hgt : remaining > card.boundarySize
    · rw [if_pos hgt, if_neg (by omega)]
      have hdiv : (remaining - 1) / card.boundarySize
          = (remaining - card.boundarySize - 1) / card.boundarySize + 1 := by
        rw [← Nat.add_div_right _ hboundary]
        congr 1
        omega
      rw [hdiv, Nat.add_mul _ 1, Nat.one_mul, Nat.add_comm]
    · rw [if_neg hgt, Nat.sub_self, if_pos rfl, Nat.div_eq_of_lt (by omega), Nat.zero_add, Nat.one_mul]
      rfl
  · rw [if_neg hmulti, if_neg hmulti, if_neg hmulti, if_neg hmulti]
    have hsmall : ¬ remaining > card.blockSize := by omega
    rw [if_neg hsmall, Nat.sub_self, if_pos rfl]

theorem wp_announce_of_ok (card : CardData) (host : Host) (length : Nat) (bus : Bus)
    (hok : ∀ k < card.commandsOfTransfer - 1,
      (host.answer (bus.log.length + k)).outcome.isError = false) :
    (announce card host length).wp (fun status bus' => status = .success ∧ bus'.disk = bus.disk ∧
      Succeeded bus bus' ∧ bus'.log.length = bus.log.length + (card.commandsOfTransfer - 1))
      (fun _ _ => False) bus := by
  unfold announce
  unfold CardData.commandsOfTransfer at hok ⊢
  rw [wp_ite]
  refine ⟨fun hmmc => ?_, fun hmmc => ?_⟩
  · rw [if_pos hmmc] at hok ⊢
    rw [wp_bind]
    unfold sendBlocklen
    by_cases hddr : card.extCsdCardType &&& 0b1100#8 = 0
    · rw [if_pos hddr] at hok ⊢
      have hfirst := hok 0 (by decide)
      have hsecond := hok 1 (by decide)
      rw [Nat.add_zero] at hfirst
      rw [if_pos hddr, wp_bind, wp_sendCommand]
      dsimp only
      rw [wp_pure, if_neg (Bool.eq_false_iff.mp hfirst)]
      unfold sendBlockCount
      rw [wp_bind, wp_sendCommand]
      have hlength : (bus.log ++ [(commandOf card setBlocklen (BitVec.ofNat 32 card.blockSize) .noData
          .responseR1, host.answer bus.log.length)]).length = bus.log.length + 1 := by
        rw [List.length_append, List.length_singleton]
      refine ⟨?_, rfl, (Succeeded.single rfl hfirst).trans (Succeeded.single rfl ?_), ?_⟩
      · dsimp only
        rw [hlength]
        exact EfiStatus.isError_eq_false.mp hsecond
      · dsimp only
        rw [hlength]
        exact hsecond
      · dsimp only
        rw [List.length_append, hlength]
        rfl
    · rw [if_neg hddr] at hok ⊢
      have hfirst := hok 0 (by decide)
      rw [Nat.add_zero] at hfirst
      rw [if_neg hddr, wp_pure, if_neg (by decide)]
      unfold sendBlockCount
      rw [wp_bind, wp_sendCommand]
      refine ⟨EfiStatus.isError_eq_false.mp hfirst, rfl, Succeeded.single rfl hfirst, ?_⟩
      dsimp only
      rw [List.length_append]
      rfl
  · rw [if_neg hmmc]
    exact ⟨rfl, rfl, Succeeded.refl bus, rfl⟩

theorem bufferBytes_append (buffer : Nat → Byte) (n m : Nat) :
    bufferBytes buffer 0 n ++ bufferBytes buffer n m = bufferBytes buffer 0 (n + m) := by
  have h := ByteStore.read_append buffer 0 n m
  rw [Nat.zero_add] at h
  exact h

theorem length_bufferBytes (buffer : Nat → Byte) (off n : Nat) :
    (bufferBytes buffer off n).length = n := by simp [bufferBytes]

/-- What is known at a head of the loop of a write that was started on `bus`. -/
structure Written (card : CardData) (lba : BitVec 64) (bufferSize : Nat) (buffer : Nat → Byte)
    (bus : Bus) (l : Progress) (t : Bus) : Prop where
  head : AtHead card lba bufferSize l
  disk : t.disk = bus.disk.put (card.start lba) (bufferBytes buffer 0 l.offset)
  ok : Succeeded bus t
  commands : t.log.length + commandsLeft card bufferSize l.remainingLength
    = bus.log.length + card.commandsOfWrite bufferSize

theorem Written.next {bus t : Bus} {buffer : Nat → Byte} {l : Progress} {index : BitVec 16}
    (h : Written card lba bufferSize.toNat buffer bus l t) (haddr : card.Addressable lba bufferSize)
    (hend : card.start lba + bufferSize.toNat ≤ 2 ^ 41) (hpos : l.remainingLength ≠ 0)
    {t' : Bus} (hdisk : t'.disk = t.disk) (hok : Succeeded t t')
    (hlog : t'.log.length + 1 = t.log.length +
      (if bufferSize.toNat > card.blockSize then card.commandsOfTransfer else 1))
    (hanswer : (host.answer t'.log.length).outcome.isError = false) :
    let command := commandOf card index l.address (.outData (bufferBytes buffer l.offset
      (transferLength card bufferSize.toNat l.remainingLength))) .responseR1
    Written card lba bufferSize.toNat buffer bus
      (l.advance card (transferLength card bufferSize.toNat l.remainingLength) .success [])
      { disk := carryOut card host command t',
        log := t'.log ++ [(command, host.answer t'.log.length)] } := by
  intro command
  have hsplit := h.head.split
  have hstep := commandsLeft_step card hpos (show l.remainingLength ≤ bufferSize.toNat by omega)
  have hcommands := h.commands
  refine ⟨h.head.next haddr hpos [], ?_, (h.ok.trans hok).trans (Succeeded.single rfl hanswer), ?_⟩
  · have hcarry : carryOut card host command t' = t'.disk.put (card.position l.address)
        (bufferBytes buffer l.offset (transferLength card bufferSize.toNat l.remainingLength)) := by
      show (if (host.answer t'.log.length).outcome.isError = true then _ else _) = _
      rw [if_neg (Bool.eq_false_iff.mp hanswer)]
      rfl
    have hput := ByteStore.put_put bus.disk (card.start lba) (bufferBytes buffer 0 l.offset)
      (bufferBytes buffer l.offset (transferLength card bufferSize.toNat l.remainingLength))
    rw [length_bufferBytes, bufferBytes_append] at hput
    show carryOut card host command t' = _
    rw [hcarry, hdisk, h.disk, h.head.position haddr hend hpos, hput]
    rfl
  · show (t'.log ++ [_]).length + commandsLeft card bufferSize.toNat
      (l.remainingLength - transferLength card bufferSize.toNat l.remainingLength) = _
    rw [List.length_append, List.length_singleton]
    omega

theorem wp_writeBody {bus : Bus} {buffer : Nat → Byte} (haddr : card.Addressable lba bufferSize)
    (hend : card.start lba + bufferSize.toNat ≤ 2 ^ 41)
    (hanswers : ∀ k < card.commandsOfWrite bufferSize.toNat,
      (host.answer (bus.log.length + k)).outcome.isError = false)
    (l : Progress) (t : Bus) (h : Written card lba bufferSize.toNat buffer bus l t) :
    (writeBody card host buffer bufferSize.toNat l).wp (fun r t' => match r with
      | .inl l' => Written card lba bufferSize.toNat buffer bus l' t' ∧
          l'.remainingLength < l.remainingLength
      | .inr status => status = .success ∧ Succeeded bus t' ∧
          t'.disk = bus.disk.put (card.start lba) (bufferBytes buffer 0 bufferSize.toNat))
      (fun _ _ => False) t := by
  have hsplit := h.head.split
  have hcommands := h.commands
  unfold writeBody
  rw [wp_ite]
  refine ⟨fun hzero => ?_, fun hpos => ?_⟩
  · refine ⟨h.head.status, h.ok, ?_⟩
    rw [h.disk, ← hsplit, hzero, Nat.add_zero]
  · obtain ⟨hlpos, hlle, -, -⟩ := transferLength_spec card bufferSize
      (Nat.pos_of_ne_zero hpos) (by omega)
    have hshorter : l.remainingLength - transferLength card bufferSize.toNat l.remainingLength
        < l.remainingLength := by omega
    have hstep := commandsLeft_step card hpos (show l.remainingLength ≤ bufferSize.toNat by omega)
    have hanswer (k : Nat) (hlow : bus.log.length ≤ k)
        (hhigh : k < bus.log.length + card.commandsOfWrite bufferSize.toNat) :
        (host.answer k).outcome.isError = false := by
      have hk := hanswers (k - bus.log.length) (by omega)
      rwa [Nat.add_sub_cancel' hlow] at hk
    obtain ⟨new, hnew, -⟩ := h.ok
    have hlow : bus.log.length ≤ t.log.length := by
      rw [hnew, List.length_append]
      exact Nat.le_add_right _ _
    rw [wp_ite]
    refine ⟨fun hmulti => ?_, fun hsingle => ?_⟩
    · rw [if_pos hmulti] at hstep
      have hone := commandsOfTransfer_pos card
      unfold writeMultiple
      rw [wp_bind]
      have hannounce := wp_announce_of_ok card host
        (transferLength card bufferSize.toNat l.remainingLength) t
        (fun k hk => hanswer (t.log.length + k) (by omega) (by omega))
      refine wp_mono hannounce ?_ (fun _ _ hE => hE)
      rintro status t' ⟨rfl, hdisk, hok, hlog⟩
      have hlast := hanswer t'.log.length (by omega) (by omega)
      rw [wp_ite]
      refine ⟨fun herr => absurd herr (by decide), fun _ => ?_⟩
      rw [wp_bind, wp_sendCommand]
      dsimp only
      rw [wp_ite]
      refine ⟨fun herr => absurd herr (Bool.eq_false_iff.mp hlast), fun _ => ?_⟩
      rw [EfiStatus.isError_eq_false.mp hlast]
      refine ⟨h.next haddr hend hpos hdisk hok ?_ hlast, hshorter⟩
      rw [if_pos hmulti]
      omega
    · rw [if_neg hsingle] at hstep
      have hlast := hanswer t.log.length (by omega) (by omega)
      unfold writeSingle
      rw [wp_bind, wp_sendCommand]
      dsimp only
      rw [EfiStatus.isError_eq_false.mp hlast]
      refine ⟨h.next haddr hend hpos rfl (Succeeded.refl t) ?_ hlast, hshorter⟩
      rw [if_neg hsingle]

theorem wp_writeTransfers {bus : Bus} {buffer : Nat → Byte} (haddr : card.Addressable lba bufferSize)
    (hend : card.start lba + bufferSize.toNat ≤ 2 ^ 41) (hpos : bufferSize.toNat ≠ 0)
    (hanswers : ∀ k < card.commandsOfWrite bufferSize.toNat,
      (host.answer (bus.log.length + k)).outcome.isError = false) :
    (writeTransfers card host lba bufferSize.toNat buffer).wp (fun _ t' => Succeeded bus t' ∧
      t'.disk = Request.putBuffer card lba bufferSize buffer bus.disk) (fun _ _ => False) bus := by
  unfold writeTransfers
  rw [wp_bind]
  have hloop : (loop (bufferSize.toNat + 1) (writeBody card host buffer bufferSize.toNat)
      (Progress.first card lba bufferSize.toNat)).wp (fun status t' => status = .success ∧
        Succeeded bus t' ∧ t'.disk = Request.putBuffer card lba bufferSize buffer bus.disk)
      (fun _ _ => False) bus := by
    refine wp_loop_total (Written card lba bufferSize.toNat buffer bus)
      (fun l _ => l.remainingLength) ?_ _ _ bus (Nat.lt_succ_self _)
      ⟨AtHead.first (by omega), (ByteStore.put_nil _ _).symm, Succeeded.refl bus, ?_⟩
    · intro l t h
      refine wp_mono (wp_writeBody haddr hend hanswers l t h) ?_ (fun _ _ hE => hE)
      rintro (l' | status) t' h'
      · exact h'
      · exact h'
    · rw [← commandsLeft_self hpos]
      rfl
  refine wp_mono hloop ?_ (fun _ _ hE => hE)
  rintro status t ⟨rfl, hok, hdisk⟩
  rw [wp_bind, wp_when]
  exact ⟨fun herr => absurd herr (by decide), fun _ => ⟨hok, hdisk⟩⟩

/-! ## One request -/

theorem wp_read {mediaId : BitVec 32} {buffer : Bool} {bus : Bus}
    (hmeets : (Request.read mediaId lba bufferSize buffer).Meets card host bus) :
    (perform card host (.read mediaId lba bufferSize buffer)).wp (fun answer bus' =>
      Honoured card bus.disk (.read mediaId lba bufferSize buffer) bus answer bus' ∧
        bus'.disk = bus.disk) (fun _ _ => False) bus := by
  -- a request that is turned down, or that is for no data, leaves everything as it is
  have hsame (status : EfiStatus) (hrejected : card.ReachesPast lba bufferSize → status ≠ .success)
      (hempty : status = .success → bufferSize.toNat = 0) :
      Honoured card bus.disk (.read mediaId lba bufferSize buffer) bus (status, []) bus ∧
        bus.disk = bus.disk := by
    refine ⟨⟨fun hpast => ⟨hrejected hpast, rfl⟩, fun hfailed => ?_, ?_, ?_⟩, rfl⟩
    · exact absurd hfailed (Succeeded.refl bus).not_failed
    · intro _ _ _ _ hrequest
      cases hrequest
    · intro _ lba' bufferSize' _ hrequest hsuccess
      injection hrequest with _ _ hsize _
      rw [← hsize, hempty hsuccess]
      rfl
  unfold perform mmcsdBlockReadBlocks
  rw [wp_ite]
  refine ⟨fun _ => hsame _ (fun _ h => by cases h) (fun h => by cases h), fun hmedia => ?_⟩
  rw [wp_ite]
  refine ⟨fun _ => hsame _ (fun _ h => by cases h) (fun h => by cases h), fun hmod => ?_⟩
  rw [wp_ite]
  refine ⟨fun _ => hsame _ (fun _ h => by cases h) (fun h => by cases h), fun hrange => ?_⟩
  obtain ⟨hwrap, hcarried⟩ := hmeets (not_not.mp hmedia) (not_not.mp hmod)
  have hinRange : card.InRange lba bufferSize := by
    have hlast := card.lastBlock_lt
    have hdiv : bufferSize.toNat / card.blockSize ≤ bufferSize.toNat := Nat.div_le_self _ _
    have hsize := bufferSize.isLt
    have hle := BitVec.le_def.mp (BitVec.not_lt.mp hrange)
    have hone : (1 : BitVec 64).toNat = 1 := rfl
    rw [BitVec.toNat_add, BitVec.toNat_add, BitVec.toNat_ofNat, BitVec.toNat_ofNat, hone] at hle
    unfold CardData.InRange
    omega
  have hnot := CardData.not_reachesPast_of_inRange hinRange (not_not.mp hmod)
  rw [wp_ite]
  refine ⟨fun _ => hsame _ (fun _ h => by cases h) (fun h => by cases h), fun hbuffer => ?_⟩
  rw [wp_ite]
  refine ⟨fun hzero => hsame _ (fun hpast => absurd hpast hnot) (fun _ => ?_), fun hnonzero => ?_⟩
  · rw [hzero]
    rfl
  · have hpos : 0 < bufferSize.toNat := Nat.pos_of_ne_zero fun h => hnonzero (BitVec.eq_of_toNat_eq h)
    have haddr := hcarried hpos (Bool.eq_true_of_not_eq_false hbuffer) hinRange
    refine wp_mono (wp_readTransfers haddr (hinRange.end_le (not_not.mp hmod))) ?_ (fun _ _ h => h)
    rintro answer bus' ⟨hdisk, hsuccess⟩
    refine ⟨⟨fun hpast => absurd hpast hnot, fun hfailed hs => ?_, ?_, ?_⟩, hdisk⟩
    · exact absurd hfailed (hsuccess hs).1.not_failed
    · intro _ _ _ _ hrequest
      cases hrequest
    · intro _ lba' bufferSize' _ hrequest hs
      injection hrequest with _ hlba hsize _
      rw [← hlba, ← hsize]
      exact (hsuccess hs).2

theorem wp_write {mediaId : BitVec 32} {buffer : Option (Nat → Byte)} {bus : Bus}
    (hmeets : (Request.write mediaId lba bufferSize buffer).Meets card host bus) :
    (perform card host (.write mediaId lba bufferSize buffer)).wp (fun answer bus' =>
      Honoured card bus.disk (.write mediaId lba bufferSize buffer) bus answer bus' ∧
        bus'.disk = (Request.write mediaId lba bufferSize buffer).written card answer.1 bus.disk)
      (fun _ _ => False) bus := by
  unfold perform mmcsdBlockWriteBlocks
  rw [wp_bind, wp_bind]
  by_cases hzero : bufferSize = 0
  · -- a write of no data succeeds at once, with and without a buffer
    have hstatus : (writeStatus card host lba bufferSize buffer).wp (fun _ bus' => bus' = bus)
        (fun _ _ => False) bus := by
      cases buffer with
      | none => exact rfl
      | some buffer =>
        have hmod : ¬ bufferSize.toNat % card.blockSize ≠ 0 := by
          rw [hzero]
          exact not_not.mpr (Nat.zero_mod _)
        show (if bufferSize.toNat % card.blockSize ≠ 0 then _ else _ : Exec Bus EfiStatus).wp _ _ bus
        rw [if_neg hmod, if_pos hzero]
        exact rfl
    have hput (buffer : Nat → Byte) (store : ByteStore) :
        Request.putBuffer card lba bufferSize buffer store = store := by
      unfold Request.putBuffer
      rw [hzero]
      exact ByteStore.put_nil _ _
    refine wp_mono hstatus ?_ (fun _ _ h => h)
    rintro status bus' rfl
    refine ⟨⟨fun hpast => ?_, fun hfailed => ?_, ?_, ?_⟩, ?_⟩
    · have hpos := hpast.1
      rw [hzero] at hpos
      exact absurd hpos (Nat.lt_irrefl 0)
    · exact absurd hfailed (Succeeded.refl bus').not_failed
    · intro mediaId' lba' bufferSize' buffer' hrequest _
      injection hrequest with _ hlba hsize hbuffer
      subst hlba hsize hbuffer
      cases buffer with
      | none => exact ⟨hzero, rfl⟩
      | some buffer => exact (hput buffer bus'.disk).symm
    · intro _ _ _ _ hrequest
      cases hrequest
    · cases buffer with
      | none => rfl
      | some buffer =>
        exact (hput buffer bus'.disk).symm
  · obtain ⟨hbuffer, hmod, hreadOnly, hinRange, haddr, hanswers⟩ := hmeets.resolve_left hzero
    obtain ⟨buffer, rfl⟩ := Option.isSome_iff_exists.mp hbuffer
    have hnot := CardData.not_reachesPast_of_inRange hinRange hmod
    have hpos : bufferSize.toNat ≠ 0 := fun h => hzero (BitVec.eq_of_toNat_eq h)
    show (if bufferSize.toNat % card.blockSize ≠ 0 then _ else _ : Exec Bus EfiStatus).wp _ _ bus
    rw [if_neg (not_not.mpr hmod), if_neg hzero, if_neg (Bool.eq_false_iff.mp hreadOnly)]
    refine wp_mono (wp_writeTransfers haddr (hinRange.end_le hmod) hpos hanswers) ?_ (fun _ _ h => h)
    rintro status bus' ⟨hok, hdisk⟩
    refine ⟨⟨fun hpast => absurd hpast hnot, fun hfailed => ?_, ?_, ?_⟩, ?_⟩
    · exact absurd hfailed hok.not_failed
    · intro _ lba' bufferSize' buffer' hrequest _
      injection hrequest with _ hlba hsize hbuffer
      subst hlba hsize hbuffer
      exact hdisk
    · intro _ _ _ _ hrequest
      cases hrequest
    · exact hdisk

end

/-! ## Runs -/

theorem perform_honoured {request : Request} {bus : Bus} (hmeets : request.Meets card host bus) :
    ∃ answer bus', perform card host request bus = .ret answer bus' ∧
      Honoured card bus.disk request bus answer bus' ∧
      bus'.disk = request.written card answer.1 bus.disk := by
  cases request with
  | read mediaId lba bufferSize buffer =>
    obtain ⟨answer, bus', hret, hhonoured, hdisk⟩ := returns_of_wp (wp_read hmeets)
    exact ⟨answer, bus', hret, hhonoured, hdisk⟩
  | write mediaId lba bufferSize buffer =>
    obtain ⟨answer, bus', hret, hhonoured, hdisk⟩ := returns_of_wp (wp_write hmeets)
    exact ⟨answer, bus', hret, hhonoured, hdisk⟩

theorem keepsContract (card : CardData) (host : Host) :
    ∀ (requests : List Request) (bus : Bus),
      EachMeets (perform card host) (Request.Meets card host) requests bus →
      KeepsContract card host bus.disk requests bus := by
  intro requests
  induction requests with
  | nil => intro bus _; exact trivial
  | cons request requests ih =>
    intro bus hmeets
    obtain ⟨answer, bus', hret, hhonoured, hdisk⟩ := perform_honoured hmeets.1
    refine ⟨answer, bus', hret, hhonoured, ?_⟩
    rw [← hdisk]
    exact ih bus' (hmeets.2 answer bus' hret)

def smallCard : CardData where
  cardType := .sdMemoryCard
  csd := 0x32#128 <<< 96 ||| 9#128 <<< 80
  parameter := { maxFrequency := 25000000, blockLen := 512, blockNumber := 4 }
  extCsdCardType := 0
  boundarySize := 0x80000
  calculated := ⟨true, rfl⟩
  boundary_ge := by decide
  blockLen_dvd := by decide

def readyHost : Host where
  answer _ := ⟨.success, 0x900⟩
  spoiled _ disk := disk

def writeAndRead : List Request :=
  [.write 0 1 512 (some fun i => BitVec.ofNat 8 i), .read 0 1 512 true]

theorem writeAndRead_keepsContract :
    KeepsContract smallCard readyHost (fun _ => 0) writeAndRead ⟨fun _ => 0, []⟩ := by
  refine keepsContract smallCard readyHost writeAndRead ⟨fun _ => 0, []⟩ ⟨?_, fun _ _ _ => ⟨?_, ?_⟩⟩
  · refine .inr ⟨rfl, rfl, rfl, ?_, ?_, fun _ _ => ?_⟩
    · show (1 : BitVec 64).toNat + 512 / 512 ≤ 4
      decide
    · show 1 * 512 + (512 - 1) / 0x80000 * 0x80000 < 2 ^ 32
      decide
    · have hready : (Answer.mk .success 0x900).outcome.isError = false := by decide
      exact hready
  · intro _ _
    refine ⟨?_, fun _ _ _ => ?_⟩
    · show (1 : BitVec 64).toNat + 512 / 512 < 2 ^ 64
      decide
    · show 1 * 512 + (512 - 1) / 0x80000 * 0x80000 < 2 ^ 32
      decide
  · exact fun _ _ _ => trivial

def outOfRangeHost : Host where
  answer _ := ⟨.success, 0x80000900⟩
  spoiled _ disk := disk

/-- A write to the block behind the last one is given to the card, which turns it down, and succeeds. -/
theorem writePastEnd_breaksContract :
    ¬ KeepsContract smallCard outOfRangeHost (fun _ => 0) [.write 0 4 512 (some fun _ => 0)]
      ⟨fun _ => 0, []⟩ := by
  rintro ⟨answer, bus', hret, hhonoured, -⟩
  have hpast : smallCard.ReachesPast 4 512 := by
    constructor
    · decide
    · show (3 + 1) * 512 < 4 * 512 + 512
      decide
  have hstatus : answer.1 = .success := by
    have hwp : (perform smallCard outOfRangeHost (.write 0 4 512 (some fun _ => 0))).wp
        (fun answer _ => answer.1 = .success) (fun _ _ => True) ⟨fun _ => 0, []⟩ := by
      unfold perform mmcsdBlockWriteBlocks
      rw [wp_bind, wp_bind]
      exact wp_mono (wp_returns _ _) (fun _ _ _ => rfl) (fun _ _ _ => trivial)
    have hsuccess := wp_of_ret hwp hret
    exact hsuccess
  exact (hhonoured.rejected hpast).1 hstatus

end Quark.SdMedia
