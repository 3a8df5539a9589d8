import Quark.Spi.Proofs.ChunkProofs

/-!
# The protection registers across a command

`SpiProtocolExecute` switches off SMIs and opens the BIOS range while it runs a command. `SendSpiCmd` and
what it calls leave the two registers alone, whatever the part answers, so that undoing the two changes is
all there is to do.
-/

namespace Quark.Spi

open Machine Machine.Exec

variable {env : Env}

def Host.protection (h : Host) : BitVec 16 × BitVec 32 := (h.biosCntl, h.hmisc)

section Frame

theorem keeps_readSpis : Keeps Host.protection (readSpis env) := fun _ => rfl

theorem keeps_writeSpic (word : BitVec 16) : Keeps Host.protection (writeSpic env word) := fun _ => rfl

theorem keeps_waitTicks (errorCheck : Bool) :
    ∀ ticks, Keeps Host.protection (waitTicks env errorCheck ticks) := by
  intro ticks
  induction ticks with
  | zero => exact Keeps.pure false
  | succ ticks ih =>
    refine Keeps.bind keeps_readSpis fun data16 => ?_
    exact Keeps.ite (Keeps.ite (Keeps.pure false) (Keeps.pure true)) ih

theorem keeps_shiftOutData (l : Transfer) (n : Nat) : Keeps Host.protection (shiftOutData l n) := by
  refine Keeps.bind (Keeps.when (Keeps.halt _)) fun _ => ?_
  exact Keeps.modify fun _ => rfl

theorem keeps_shiftInData (l : Transfer) (n : Nat) : Keeps Host.protection (shiftInData l n) := by
  refine Keeps.bind (Keeps.when (Keeps.halt _)) fun _ => ?_
  exact Keeps.bind Keeps.get fun _ => Keeps.pure _

theorem keeps_copyMem (a : BitVec 32) (n : Nat) (buffer : List Byte) :
    Keeps Host.protection (copyMem env a n buffer) := by
  refine Keeps.bind Keeps.get fun _ => Keeps.bind (Keeps.when (Keeps.halt _)) fun _ => ?_
  exact Keeps.bind (Keeps.modify fun _ => rfl) fun _ => Keeps.pure _

theorem keeps_sendCycle (cmd : Command) (l : Transfer) : Keeps Host.protection (sendCycle env cmd l) := by
  refine Keeps.bind (Keeps.when (keeps_shiftOutData _ _)) fun _ => Keeps.bind ?_ fun _ => ?_
  · exact Keeps.bind (Keeps.modify fun _ => rfl) fun _ =>
      Keeps.bind keeps_readSpis fun _ => keeps_writeSpic _
  · refine Keeps.bind (keeps_waitTicks true waitCount) fun complete => ?_
    refine Keeps.ite (Keeps.pure _) (Keeps.ite (Keeps.pure _) ?_)
    exact Keeps.bind (keeps_shiftInData _ _) fun _ => Keeps.pure _

theorem keeps_sendSpiCmd (cmd : Command) (address dataByteCount : BitVec 32) (buffer : List Byte)
    (region : RegionType) :
    Keeps Host.protection (sendSpiCmd env cmd address dataByteCount buffer region) := by
  refine Keeps.ite ?_ (Keeps.ite ?_ ?_)
  · exact Keeps.bind (Keeps.ite (Keeps.halt _) (Keeps.pure _)) fun _ => Keeps.pure _
  · exact Keeps.bind (keeps_copyMem _ _ _) fun _ => Keeps.pure _
  · exact Keeps.loop (keeps_sendCycle cmd) _ _

end Frame

theorem restore_saved {x y : BitVec 16} (h : y &&& ~~~Cntl.saved = x &&& ~~~Cntl.saved) :
    (y &&& ~~~Cntl.saved) ||| (x &&& Cntl.saved) = x := by
  rw [h, ← BitVec.and_or_distrib_left]
  have hall : ~~~Cntl.saved ||| Cntl.saved = BitVec.allOnes 16 := by decide
  rw [hall, BitVec.and_allOnes]

theorem or_and_not_saved (x : BitVec 16) {e : BitVec 16} (he : e &&& ~~~Cntl.saved = 0) :
    (x ||| e) &&& ~~~Cntl.saved = x &&& ~~~Cntl.saved := by
  rw [BitVec.and_or_distrib_right, he]
  exact BitVec.or_zero

theorem and_and_not_saved (x : BitVec 16) {e : BitVec 16} (he : ~~~e &&& ~~~Cntl.saved = ~~~Cntl.saved) :
    (x &&& ~~~e) &&& ~~~Cntl.saved = x &&& ~~~Cntl.saved := by
  rw [BitVec.and_assoc, he]

theorem wp_spiProtocolExecute_protection (opcodeIndex prefixOpcodeIndex : BitVec 8)
    (dataCycle atomic shiftOut : Bool) (address dataByteCount : BitVec 32) (buffer : List Byte)
    (region : RegionType) (h : Host) :
    wp (spiProtocolExecute env opcodeIndex prefixOpcodeIndex dataCycle atomic shiftOut address
      dataByteCount buffer region) (fun _ t => t.protection = h.protection) (fun _ _ => True) h := by
  unfold spiProtocolExecute
  by_cases hindex : opcodeIndex.toNat < numOpcode ∧ prefixOpcodeIndex.toNat < numPrefixOpcode
  · rw [dif_pos hindex, wp_bind]
    refine (keeps_waitTicks false waitCount).wp_of (fun complete t _ ht => ?_) fun _ _ _ => trivial
    by_cases hcomplete : complete = false
    · rw [if_pos hcomplete]
      exact ht
    rw [if_neg hcomplete]
    obtain ⟨hcntl, hmisc⟩ := Prod.mk.inj ht
    simp only [wp_bind, wp_get, wp_modify, wp_when]
    -- what the register shows outside the saved bits when the command starts
    have hopened : ∀ u : BitVec 16 × BitVec 32,
        (u.1 &&& ~~~Cntl.saved = t.biosCntl &&& ~~~Cntl.saved) →
        wp (sendSpiCmd env ⟨⟨opcodeIndex.toNat, hindex.1⟩, ⟨prefixOpcodeIndex.toNat, hindex.2⟩, dataCycle,
          atomic, shiftOut⟩ address dataByteCount buffer region)
          (fun r s => wp (pure r) (fun _ t => t.protection = h.protection) (fun _ _ => True)
            { s with
              biosCntl := (s.biosCntl &&& ~~~Cntl.saved) ||| (t.biosCntl &&& Cntl.saved)
              hmisc := t.hmisc })
          (fun _ _ => True) { t with biosCntl := u.1, hmisc := u.2 } := by
      intro u hu
      refine (keeps_sendSpiCmd _ _ _ _ _).wp_of (fun r s _ hs => ?_) fun _ _ _ => trivial
      obtain ⟨hs, -⟩ := Prod.mk.inj hs
      refine Prod.ext ?_ hmisc
      show (s.biosCntl &&& ~~~Cntl.saved) ||| (t.biosCntl &&& Cntl.saved) = h.biosCntl
      rw [hs, restore_saved hu, hcntl]
    have hset := or_and_not_saved t.biosCntl (e := Cntl.bioswe ||| Cntl.smmBwp) (by decide)
    refine ⟨fun _ => ?_, fun _ => hopened (_, t.hmisc &&& ~~~smiEn) hset⟩
    refine hopened (_, t.hmisc &&& ~~~smiEn) ?_
    rw [or_and_not_saved _ (by decide), and_and_not_saved _ (by decide), hset]
  · rw [dif_neg hindex]
    rfl

/-- On return the write protection, cache and SMM protection bits of `BIOS_CNTL` and the SMI enable bit of
`HMISC` are what they were on entry, for all arguments and whatever the controller and the part answer. -/
theorem spiProtocolExecute_restores (env : Env) (opcodeIndex prefixOpcodeIndex : BitVec 8)
    (dataCycle atomic shiftOut : Bool) (address dataByteCount : BitVec 32) (buffer : List Byte)
    (region : RegionType) (h t : Host) (r : EfiStatus × List Byte)
    (hrun : spiProtocolExecute env opcodeIndex prefixOpcodeIndex dataCycle atomic shiftOut address
      dataByteCount buffer region h = .ret r t) :
    t.biosCntl &&& Cntl.saved = h.biosCntl &&& Cntl.saved ∧ t.hmisc &&& smiEn = h.hmisc &&& smiEn := by
  have hp := wp_of_ret (wp_spiProtocolExecute_protection opcodeIndex prefixOpcodeIndex dataCycle atomic
    shiftOut address dataByteCount buffer region h) hrun
  obtain ⟨hcntl, hmisc⟩ := Prod.mk.inj hp
  rw [hcntl, hmisc]
  exact ⟨rfl, rfl⟩

theorem spiProtocolExecute_restores_erase :
    ∃ t, spiProtocolExecute (readyEnv 0x800000 0x800000 0) 5 0 false true false 0x1000 0 [] .bios
        (hostWith fun _ => 0) = .ret (.success, []) t ∧
      t.biosCntl &&& Cntl.saved = 0 ∧ t.hmisc &&& smiEn = smiEn := by
  have hrun : ∃ t, spiProtocolExecute (readyEnv 0x800000 0x800000 0) 5 0 false true false 0x1000 0 []
      .bios (hostWith fun _ => 0) = .ret (.success, []) t := ⟨_, rfl⟩
  obtain ⟨t, hrun⟩ := hrun
  obtain ⟨hcntl, hmisc⟩ := spiProtocolExecute_restores _ _ _ _ _ _ _ _ _ _ _ _ _ hrun
  exact ⟨t, hrun, hcntl, hmisc⟩

/-! ## Reads of the BIOS region

Reads of the BIOS region do not run a cycle: they copy from the memory window at the end of the address
space. The address is worked out from a base that `SpiOffset2Physical` should have set and does not.
-/

variable {env : Env}

/-! ## Around the command -/

def Host.contents (h : Host) : ByteStore × (Nat → Byte) × List Exchange × List (BitVec 32 × Nat) :=
  (h.chip, h.spid, h.exchanges, h.reads)

theorem Host.contents_eq {h t : Host} (heq : t.contents = h.contents) :
    t.chip = h.chip ∧ t.spid = h.spid ∧ t.exchanges = h.exchanges ∧ t.reads = h.reads := by
  obtain ⟨hchip, h⟩ := Prod.mk.inj heq
  obtain ⟨hspid, h⟩ := Prod.mk.inj h
  obtain ⟨hexchanges, hreads⟩ := Prod.mk.inj h
  exact ⟨hchip, hspid, hexchanges, hreads⟩

theorem wp_spiProtocolExecute {opcodeIndex prefixOpcodeIndex : BitVec 8}
    (hop : opcodeIndex.toNat < numOpcode) (hpre : prefixOpcodeIndex.toNat < numPrefixOpcode)
    {dataCycle atomic shiftOut : Bool} {address count : BitVec 32} {buffer : List Byte}
    {region : RegionType} {h : Host} {Q : EfiStatus × List Byte → Host → Prop} {E : Stop → Host → Prop}
    (hbusy : ¬ env.Completes → ∀ t : Host, t.contents = h.contents → Q (.deviceError, buffer) t)
    (hsend : ∀ t : Host, t.contents = h.contents →
      wp (sendSpiCmd env ⟨⟨opcodeIndex.toNat, hop⟩, ⟨prefixOpcodeIndex.toNat, hpre⟩, dataCycle, atomic,
        shiftOut⟩ address count buffer region)
        (fun r u => ∀ v : Host, v.contents = u.contents → Q r v) E t) :
    wp (spiProtocolExecute env opcodeIndex prefixOpcodeIndex dataCycle atomic shiftOut address count
      buffer region) Q E h := by
  unfold spiProtocolExecute
  rw [dif_pos ⟨hop, hpre⟩, wp_bind]
  refine wp_mono (wp_waitForSpiCycleComplete false h) ?_ fun _ _ hf => hf.elim
  rintro complete t ⟨⟨p, rfl⟩, hfail⟩
  rw [wp_ite]
  refine ⟨fun hc => hbusy (hfail hc) _ rfl, fun _ => ?_⟩
  simp only [wp_bind, wp_get, wp_modify, wp_when]
  constructor <;> intro _ <;> refine wp_mono (hsend _ rfl) (fun r u hq => hq _ rfl) fun _ _ he => he

/-! ## The window -/

structure Env.Mapped (env : Env) : Prop where
  size : env.initTable.biosStartOffset.toNat + env.initTable.biosSize.toNat = env.flashSize
  fits : env.flashSize ≤ 2 ^ 24
  some : env.initTable.biosSize ≠ 0

variable {env : Env}

/-! ## What a cycle touches -/

theorem Cycle.Touches.mem {c : Cycle} {x : Nat} (h : c.Touches x) (hprograms : c.Programs)
    (hpage : c.address % 256 + c.length ≤ 256) : c.address ≤ x ∧ x < c.address + c.length := by
  rcases h with ⟨-, hsame, hlt⟩ | ⟨⟨-, herase⟩, -⟩
  · unfold pageSize at *
    omega
  · rw [hprograms.2] at herase
    exact absurd herase (by decide)

theorem Cycle.touches_address {c : Cycle} (hprograms : c.Programs) (hlen : 0 < c.length) :
    c.Touches c.address := by
  refine .inl ⟨hprograms, rfl, ?_⟩
  unfold pageSize
  omega

/-! ## The set-up -/

structure Env.Flash (env : Env) : Prop extends env.Mapped where
  nor : env.respond = norRespond
  writeEnable : env.preOp 0 = SpiCommand.writeEnable
  writeCode : env.opMenu 3 = SpiCommand.write
  eraseCode : env.opMenu 5 = SpiCommand.erase
  writeType : (env.initTable.opcodeMenu 3).type = .write
  eraseType : (env.initTable.opcodeMenu 5).type = .write

theorem Env.Flash.polled (hflash : env.Flash) (spis : Nat → BitVec 16) :
    Env.Flash { env with spis := spis } where
  size := hflash.size
  fits := hflash.fits
  some := hflash.some
  nor := hflash.nor
  writeEnable := hflash.writeEnable
  writeCode := hflash.writeCode
  eraseCode := hflash.eraseCode
  writeType := hflash.writeType
  eraseType := hflash.eraseType

abbrev Env.linear (env : Env) (offset : BitVec 32) : Nat := (spiOffset2Physical env offset .bios).toNat

/-! ## The write command -/

abbrev writeCommand : Command := ⟨3, 0, true, true, true⟩

theorem chip_of_sent : ∀ {es : List Exchange} {spans : List Span} {a : Nat} {s : ByteStore},
    (∀ e ∈ es, e.cycle.Programs) → (∀ e ∈ es, e.cycle.data.length = e.cycle.length) → Span.Tile a spans →
    (∀ sp ∈ spans, Chunk sp) → es.map (·.cycle.span) = spans →
    es.foldl (fun c e => (norRespond e.cycle c).1) s = s.program a (es.flatMap (·.cycle.data)) := by
  intro es
  induction es with
  | nil => intro spans a s _ _ _ _ _; exact (ByteStore.program_nil s a).symm
  | cons e es ih =>
    rintro _ a s hprograms hdata htile hchunk rfl
    obtain ⟨hoffset, htile⟩ := htile
    have hpage := (hchunk _ List.mem_cons_self).1
    have hlen := hdata e List.mem_cons_self
    have hfirst : (norRespond e.cycle s).1 = s.program a e.cycle.data := by
      unfold norRespond
      rw [if_pos (hprograms e List.mem_cons_self)]
      show ByteStore.programPage pageSize s e.cycle.address e.cycle.data = _
      have haddr : e.cycle.address = a := hoffset
      rw [ByteStore.programPage_eq_program (by rw [hlen]; exact hpage), haddr]
    rw [List.foldl_cons, hfirst, List.flatMap_cons, ← ByteStore.program_program]
    have hnext : a + e.cycle.data.length = a + e.cycle.span.length := by rw [hlen]; rfl
    rw [hnext]
    exact ih (fun e' he => hprograms e' (.tail _ he)) (fun e' he => hdata e' (.tail _ he)) htile
      (fun sp hsp => hchunk sp (.tail _ hsp)) rfl

structure Written (env : Env) (a count : Nat) (bytes : List Byte) (h t : Host) (st : EfiStatus)
    (es : List Exchange) : Prop where
  exchanges : t.exchanges = h.exchanges ++ es
  programs : ∀ e ∈ es, e.cycle.Programs
  within : ∀ e ∈ es, ∀ x, e.cycle.Touches x → a ≤ x ∧ x < a + count
  outcome : st = .success ∧ Span.total (es.map (·.cycle.span)) = count ∧ t.chip = h.chip.program a bytes ∨
    st = .deviceError ∧ ¬ env.Completes

theorem sendSpiCmd_write (hflash : env.Flash) (offset count : BitVec 32) (buffer : List Byte) :
    sendSpiCmd env writeCommand offset count buffer .bios =
      Exec.loop (2 ^ 32) (sendCycle env writeCommand)
        ⟨spiOffset2Physical env offset .bios, count, 0, buffer⟩ := by
  have hopcode : env.opMenu 3 ≠ 0 := by
    rw [hflash.writeCode]
    decide
  have hregion : ¬ ((env.initTable.opcodeMenu 3).type = .read ∧ RegionType.bios = .bios) := by
    rintro ⟨htype, -⟩
    rw [hflash.writeType] at htype
    cases htype
  unfold sendSpiCmd
  rw [if_neg fun hor => hor.elim hopcode hflash.some, if_neg hregion, if_neg fun hno => nomatch hno.1]

theorem wp_write (hflash : env.Flash) {offset count : BitVec 32} (hcount : 0 < count.toNat)
    (hend : env.linear offset + count.toNat ≤ 2 ^ 24) {buffer : List Byte}
    (hbuffer : count.toNat ≤ buffer.length) (h : Host) :
    wp (spiProtocolExecute env 3 0 true true true offset count buffer .bios)
      (fun r t => ∃ es, Written env (env.linear offset) count.toNat (buffer.take count.toNat) h t r.1 es)
      (fun _ _ => False) h := by
  refine wp_spiProtocolExecute (by decide) (by decide) (fun hno t ht => ?_) fun t ht => ?_
  · obtain ⟨-, -, hexchanges, -⟩ := Host.contents_eq ht
    exact ⟨[], by rw [hexchanges, List.append_nil], nofun, nofun, .inr ⟨rfl, hno⟩⟩
  obtain ⟨hchip, -, hexchanges, -⟩ := Host.contents_eq ht
  have hlinear : env.linear offset = (spiOffset2Physical env offset .bios).toNat := rfl
  show wp (sendSpiCmd env writeCommand offset count buffer .bios) _ _ t
  rw [sendSpiCmd_write hflash]
  refine wp_mono (wp_sendLoop rfl hcount (by omega) hbuffer t) ?_ fun _ _ hf => hf
  rintro r u ⟨es, spans, hsent, hend'⟩ v hv
  obtain ⟨hvchip, -, hvexchanges, -⟩ := Host.contents_eq hv
  have hprograms : ∀ e ∈ es, e.cycle.Programs := by
    intro e he
    obtain ⟨hop, hpre⟩ := hsent.opcode e he
    refine ⟨hpre.trans ?_, hop.trans hflash.writeCode⟩
    exact congrArg some hflash.writeEnable
  have htotal : Span.total spans ≤ count.toNat := by
    rcases hend' with ⟨-, ht, -⟩ | ⟨-, ht, -⟩ <;> omega
  -- no range reaches the address register's 24 bits
  have hranges : ∀ sp ∈ spans, env.linear offset ≤ sp.offset ∧
      sp.offset + sp.length ≤ env.linear offset + Span.total spans := by
    intro sp hsp
    refine ⟨hsent.tile.start_le hsp, ?_⟩
    obtain ⟨before, after, rfl⟩ := List.append_of_mem hsp
    obtain ⟨-, hoffset, -⟩ := Span.tile_append.mp hsent.tile
    rw [Span.total_append, Span.total_cons, hoffset]
    omega
  have hspan : es.map (·.cycle.span) = spans := by
    rw [hsent.span]
    refine (List.map_congr_left fun sp hsp => ?_).trans (List.map_id _)
    obtain ⟨-, hle⟩ := hranges sp hsp
    have hpos := (hsent.chunk sp hsp).2.1
    show Span.mk (sp.offset % 2 ^ 24) sp.length = sp
    rw [Nat.mod_eq_of_lt (by omega)]
  have hspans : ∀ e ∈ es, e.cycle.span ∈ spans := by
    intro e he
    rw [← hspan]
    exact List.mem_map_of_mem he
  refine ⟨es, by rw [hvexchanges, hsent.exchanges, hexchanges], hprograms, fun e he x hx => ?_, ?_⟩
  · obtain ⟨hge, hle⟩ := hranges _ (hspans e he)
    obtain ⟨hlo, hhi⟩ := hx.mem (hprograms e he) (hsent.chunk _ (hspans e he)).1
    have haddr : e.cycle.span.offset = e.cycle.address := rfl
    have hlen : e.cycle.span.length = e.cycle.length := rfl
    omega
  · rcases hend' with ⟨hsuccess, htot, hcarried⟩ | ⟨herror, -, hno⟩
    · refine .inl ⟨hsuccess, by rw [hspan, htot], ?_⟩
      have hmoved : es.flatMap (·.cycle.data) = buffer.take count.toNat := by
        have := hcarried.moved
        rw [hcarried.out rfl] at this
        exact this
      rw [hvchip, hsent.chip, hchip, hflash.nor, ← hmoved]
      exact chip_of_sent hprograms hsent.dataLength hsent.tile hsent.chunk hspan
    · exact .inr ⟨herror, hno⟩

/-! ## Commands without bytes -/

theorem wp_execute_none (hmap : env.Mapped) (opcodeIndex prefixOpcodeIndex : BitVec 8)
    (hop : opcodeIndex.toNat < numOpcode) (hpre : prefixOpcodeIndex.toNat < numPrefixOpcode)
    (hopcode : env.opMenu ⟨opcodeIndex.toNat, hop⟩ ≠ 0)
    (htype : (env.initTable.opcodeMenu ⟨opcodeIndex.toNat, hop⟩).type = .write)
    {dataCycle atomic shiftOut : Bool} {offset : BitVec 32} (hoffset : env.linear offset < 2 ^ 24)
    {buffer : List Byte} (h : Host) :
    wp (spiProtocolExecute env opcodeIndex prefixOpcodeIndex dataCycle atomic shiftOut offset 0 buffer .bios)
      (fun r t => r.1 = .deviceError ∧ ¬ env.Completes ∨ r.1 = .success ∧
        ∃ e, Added env ⟨⟨opcodeIndex.toNat, hop⟩, ⟨prefixOpcodeIndex.toNat, hpre⟩, dataCycle, atomic,
          shiftOut⟩ (spiOffset2Physical env offset .bios) (if dataCycle then 64 else 0) h t e)
      (fun _ _ => False) h := by
  refine wp_spiProtocolExecute hop hpre (fun hno _ _ => .inl ⟨rfl, hno⟩) fun t ht => ?_
  obtain ⟨hchip, -, hexchanges, -⟩ := Host.contents_eq ht
  have hregion : ¬ ((env.initTable.opcodeMenu ⟨opcodeIndex.toNat, hop⟩).type = .read ∧
      RegionType.bios = .bios) := by
    rintro ⟨hread, -⟩
    rw [htype] at hread
    cases hread
  have hlinear : env.linear offset = (spiOffset2Physical env offset .bios).toNat := rfl
  refine wp_mono (wp_sendSpiCmd_none ⟨⟨opcodeIndex.toNat, hop⟩, ⟨prefixOpcodeIndex.toNat, hpre⟩,
    dataCycle, atomic, shiftOut⟩ hopcode hmap.some hregion (by omega) t) ?_ fun _ _ hf => hf
  rintro r u ⟨e, hadded, hstatus⟩ v hv
  obtain ⟨hvchip, -, hvexchanges, -⟩ := Host.contents_eq hv
  rcases hstatus with hsuccess | hfail
  · refine .inr ⟨hsuccess, e, { hadded with exchanges := ?_, chip := ?_ }⟩
    · rw [hvexchanges, hadded.exchanges, hexchanges]
    · rw [hvchip, hadded.chip, hchip]
  · exact .inl hfail

theorem wp_erase (hflash : env.Flash) {offset : BitVec 32} (hoffset : env.linear offset < 2 ^ 24)
    (h : Host) :
    wp (spiProtocolExecute env 5 0 false true false offset 0 [] .bios)
      (fun r t => r.1 = .deviceError ∧ ¬ env.Completes ∨ r.1 = .success ∧
        (∃ e, t.exchanges = h.exchanges ++ [e]) ∧
        t.chip = h.chip.erase (env.linear offset / eraseSectorSize * eraseSectorSize) eraseSectorSize)
      (fun _ _ => False) h := by
  have hopcode : env.opMenu 5 ≠ 0 := by
    rw [hflash.eraseCode]
    decide
  refine wp_mono (wp_execute_none hflash.toMapped 5 0 (by decide)
    (by decide) hopcode hflash.eraseType hoffset h) ?_ fun _ _ hf => hf
  rintro r t (hfail | ⟨hsuccess, e, he⟩)
  · exact .inl hfail
  have herases : e.cycle.Erases :=
    ⟨he.prefixOpcode?.trans (congrArg some hflash.writeEnable), he.opcode.trans hflash.eraseCode⟩
  have hnot : ¬ e.cycle.Programs := by
    rintro ⟨-, hwrite⟩
    rw [herases.2] at hwrite
    exact absurd hwrite (by decide)
  refine .inr ⟨hsuccess, ⟨e, he.exchanges⟩, ?_⟩
  rw [he.chip, hflash.nor, norRespond, if_neg hnot, if_pos herases, he.address, Nat.mod_eq_of_lt hoffset]

theorem wp_write_none (hflash : env.Flash) {offset : BitVec 32} (hoffset : env.linear offset < 2 ^ 24)
    {buffer : List Byte} (h : Host) :
    wp (spiProtocolExecute env 3 0 true true true offset 0 buffer .bios)
      (fun r t => r.1 = .deviceError ∧ ¬ env.Completes ∨ r.1 = .success ∧
        ∃ e, t.exchanges = h.exchanges ++ [e] ∧ e.cycle.Programs ∧
          e.cycle.address = env.linear offset ∧ e.cycle.length = 64) (fun _ _ => False) h := by
  have hopcode : env.opMenu 3 ≠ 0 := by
    rw [hflash.writeCode]
    decide
  refine wp_mono (wp_execute_none hflash.toMapped 3 0 (by decide)
    (by decide) hopcode hflash.writeType hoffset h) ?_ fun _ _ hf => hf
  rintro r t (hfail | ⟨hsuccess, e, he⟩)
  · exact .inl hfail
  refine .inr ⟨hsuccess, e, he.exchanges, ⟨he.prefixOpcode?.trans (congrArg some hflash.writeEnable),
    he.opcode.trans hflash.writeCode⟩, he.address.trans (Nat.mod_eq_of_lt hoffset), he.length⟩

theorem wp_write_wraps (stop : Nat) (hflash : env.Flash) (hready : env.Completes)
    {offset count : BitVec 32}
    (hstop : stop + 64 ≤ 2 ^ 24) (hoffset : env.linear offset ≤ stop)
    (hwraps : 2 ^ 32 ≤ env.linear offset + count.toNat) (buffer : List Byte) (h : Host) :
    wp (spiProtocolExecute env 3 0 true true true offset count buffer .bios)
      (fun _ t => ∃ es, t.exchanges = h.exchanges ++ es ∧ ∃ e ∈ es, e.cycle.Programs ∧
        stop ≤ e.cycle.address ∧ e.cycle.address < stop + 64 ∧ 0 < e.cycle.length)
      (fun _ _ => True) h := by
  refine wp_spiProtocolExecute (by decide) (by decide) (fun hno _ _ => absurd hready hno) fun t ht => ?_
  obtain ⟨-, -, hexchanges, -⟩ := Host.contents_eq ht
  show wp (sendSpiCmd env writeCommand offset count buffer .bios) _ _ t
  rw [sendSpiCmd_write hflash]
  refine wp_mono (wp_sendLoop_wraps rfl hready hstop hoffset hwraps buffer t) ?_ fun _ _ _ => trivial
  rintro r u ⟨es, hes, e, he, hbeyond⟩ v hv
  obtain ⟨-, -, hvexchanges, -⟩ := Host.contents_eq hv
  refine ⟨es, by rw [hvexchanges, hes, hexchanges], e, he, ⟨hbeyond.prefixOpcode?.trans ?_,
    hbeyond.opcode.trans hflash.writeCode⟩, hbeyond.low, hbeyond.high, hbeyond.some⟩
  exact congrArg some hflash.writeEnable

theorem wp_write_bounded (hflash : env.Flash) (hready : env.Completes) (offset count : BitVec 32)
    {buffer : List Byte} (hbuffer : buffer.length < 2 ^ 32) (h : Host) :
    wp (spiProtocolExecute env 3 0 true true true offset count buffer .bios)
      (fun _ _ => count.toNat ≤ buffer.length) (fun _ _ => True) h := by
  refine wp_spiProtocolExecute (by decide) (by decide) (fun hno _ _ => absurd hready hno) fun t _ => ?_
  show wp (sendSpiCmd env writeCommand offset count buffer .bios) _ _ t
  rw [sendSpiCmd_write hflash]
  exact wp_mono (wp_sendLoop_bounded rfl rfl hready _ _ hbuffer t) (fun _ _ hle _ _ => hle) fun _ _ _ => trivial

end Quark.Spi
