import Mathlib.Data.List.TakeDrop
import Quark.Uart.Serial

/-!
# The output stream of the serial port

Bytes are conserved on their way to the line: what was written to the holding register, followed by
what is in the transmit FIFO, is what was handed over. The stream is that of the reported bytes as
long as no byte is in the FIFO when a call starts. A call that times out leaves one there.
-/

namespace Quark.Uart.Proofs

open Machine Exec SerialPort

/-! ## The FIFOs -/

theorem fifoEmpty_iff {fifo : SerialDevFifo} : iohSerialFifoEmpty fifo = true ↔ fifo.toList = [] := by
  rw [RingBuffer.toList_eq_nil]
  exact decide_eq_true_iff

theorem fifoAdd_of_empty {fifo : SerialDevFifo} (h : iohSerialFifoEmpty fifo = true)
    (data : BitVec 8) : (iohSerialFifoAdd fifo data).2.toList = [data] := by
  have hs : fifo.surplus = 16 := decide_eq_true_iff.mp h
  unfold iohSerialFifoAdd
  rw [dif_neg (by omega), RingBuffer.toList_push, fifoEmpty_iff.mp h]
  rfl

theorem fifoRemove_toList {fifo : SerialDevFifo} (h : iohSerialFifoEmpty fifo = false)
    (old : BitVec 8) :
    fifo.toList = (iohSerialFifoRemove fifo old).2.2 :: (iohSerialFifoRemove fifo old).2.1.toList := by
  have hs : fifo.surplus ≠ 16 := decide_eq_false_iff_not.mp h
  unfold iohSerialFifoRemove
  rw [dif_neg hs]
  exact RingBuffer.toList_pop fifo hs

/-! ## Bytes on their way -/

/-- The bytes `l`, handed over when `base` had been written, are on their way: some of them have
followed `base` to the line, the rest is in the transmit FIFO. -/
def OnTheWay (base l : List (BitVec 8)) (dev : SerialDev) : Prop :=
  dev.softwareLoopbackEnable = false ∧
    ∃ sent, dev.thr = base ++ sent ∧ l = sent ++ dev.transmit.toList

section

variable {port : SerialPort} {base l : List (BitVec 8)} {dev : SerialDev} {n : Nat}

def sending (dev : SerialDev) : Bool × List (BitVec 8) × SerialDevFifo :=
  (dev.softwareLoopbackEnable, dev.thr, dev.transmit)

theorem OnTheWay.congr {dev' : SerialDev} (h : OnTheWay base l dev) (hs : sending dev' = sending dev) :
    OnTheWay base l dev' := by
  injection hs with hl hs
  injection hs with ht hf
  unfold OnTheWay
  rw [hl, ht, hf]
  exact h

theorem OnTheWay.wp_keeps {α : Type} {x : Exec SerialDev α} (h : OnTheWay base l dev)
    (hx : Keeps sending x) :
    wp x (fun _ => OnTheWay base l) (fun _ => OnTheWay base l) dev :=
  wp_mono (hx.wp dev) (fun _ _ => h.congr) (fun _ _ => h.congr)

theorem keeps_readLine (reg : Nat → BitVec 8) : Keeps sending (readLine reg) :=
  .bind .get fun _ => .bind (.modify fun _ => rfl) fun _ => .pure _

theorem keeps_setRts (rts : Bool) : Keeps sending (setRts rts) := .modify fun _ => rfl

theorem keeps_receiveByte (lsr : BitVec 8) : Keeps sending (receiveByte port lsr) := by
  refine .bind (keeps_readLine _) fun data => .ite (.pure _) ?_
  refine .bind (.modify fun _ => rfl) fun _ => .bind .get fun _ => ?_
  exact .when (keeps_setRts _)

theorem keeps_waitForCts (msr : BitVec 8) : Keeps sending (waitForCts port n msr) := by
  refine Keeps.loop (fun ⟨timeOut, msr⟩ => ?_) n _
  refine .ite (.ite (.pure _) ?_) (.pure _)
  exact .bind (keeps_readLine _) fun _ => .pure _

theorem wp_sendByte (h : OnTheWay base l dev) (he : iohSerialFifoEmpty dev.transmit = false) :
    wp sendByte (fun _ => OnTheWay base l) (fun _ => OnTheWay base l) dev := by
  obtain ⟨hl, sent, hthr, hfifo⟩ := h
  have hout := fifoRemove_toList he 0
  simp only [sendByte, removeTransmit, writeThr, wp_bind, wp_get, wp_modify, wp_pure]
  refine ⟨hl, sent ++ [(iohSerialFifoRemove dev.transmit 0).2.2], ?_, ?_⟩
  · show dev.thr ++ [_] = _
    rw [hthr, List.append_assoc]
  · rw [hfifo, hout, List.append_assoc]
    rfl

theorem wp_transmitByte (h : OnTheWay base l dev)
    (he : iohSerialFifoEmpty dev.transmit = false) :
    wp (transmitByte port n) (fun _ => OnTheWay base l) (fun _ => OnTheWay base l) dev := by
  -- up to the test of CTS the transmit FIFO is the one that was found non-empty
  have keep : ∀ {α : Type} {x : Exec SerialDev α} {k : α → Exec SerialDev Unit} {s : SerialDev},
      Keeps sending x → sending s = sending dev →
      (∀ a t, sending t = sending dev → wp (k a) (fun _ => OnTheWay base l)
        (fun _ => OnTheWay base l) t) →
      wp (x >>= k) (fun _ => OnTheWay base l) (fun _ => OnTheWay base l) s := by
    intro α x k s hx hs hk
    rw [wp_bind]
    refine wp_mono (hx.wp s) (fun a t ht => hk a t (ht.trans hs)) (fun w t ht => ?_)
    exact h.congr (ht.trans hs)
  unfold transmitByte
  rw [wp_bind, wp_get, wp_ite]
  refine ⟨fun _ => ?_, fun _ => wp_sendByte h he⟩
  refine keep (.when (keeps_setRts _)) rfl fun _ s₁ h₁ => ?_
  refine keep (keeps_readLine _) h₁ fun msr s₂ h₂ => ?_
  refine keep (keeps_waitForCts msr) h₂ fun msr s₃ h₃ => ?_
  have hfifo : s₃.transmit = dev.transmit := congrArg (fun x => x.2.2) h₃
  rw [wp_bind]
  refine wp_mono (Q := fun _ => OnTheWay base l) (E := fun _ => OnTheWay base l) ?_
    (fun _ s₄ h₄ => h₄.wp_keeps (.when (keeps_setRts _))) (fun _ _ h₄ => h₄)
  rw [wp_when]
  refine ⟨fun _ => wp_sendByte (h.congr h₃) ?_, fun _ => h.congr h₃⟩
  rw [hfifo]
  exact he

theorem wp_moveByte (lsr : BitVec 8) (room : Bool) (h : OnTheWay base l dev) :
    wp (moveByte port n lsr room) (fun _ => OnTheWay base l) (fun _ => OnTheWay base l) dev := by
  unfold moveByte
  rw [wp_bind, wp_get, wp_ite]
  refine ⟨fun _ => h.wp_keeps (keeps_receiveByte lsr), fun _ => ?_⟩
  rw [wp_when]
  refine ⟨fun hc => wp_transmitByte h ?_, fun _ => h⟩
  exact Bool.eq_false_iff.mpr hc.2

theorem wp_receiveTransmitPass (full : Bool) (h : OnTheWay base l dev) :
    wp (receiveTransmitPass port n full) (fun r t => OnTheWay base l t ∧ ∀ st, r = .inr st →
      st = .success) (fun _ => OnTheWay base l) dev := by
  unfold receiveTransmitPass
  rw [wp_bind]
  refine wp_mono (h.wp_keeps (keeps_readLine _)) ?_ (fun _ _ h => h)
  intro lsr s₁ h₁
  rw [wp_bind, wp_get]
  rw [wp_bind]
  refine wp_mono (wp_moveByte lsr _ h₁) ?_ (fun _ _ h => h)
  intro _ s₂ h₂
  rw [wp_bind, wp_get, wp_ite, wp_pure, wp_pure]
  refine ⟨fun _ => ⟨h₂, ?_⟩, fun _ => ⟨h₂, ?_⟩⟩
  · intro st hst
    cases hst
  · intro st hst
    injection hst with hst
    exact hst.symm

theorem wp_receiveTransmit (h : OnTheWay base l dev) :
    wp (iohSerialReceiveTransmit port n) (fun st t => st = .success ∧ OnTheWay base l t)
      (fun _ => OnTheWay base l) dev := by
  unfold iohSerialReceiveTransmit
  rw [wp_bind, wp_get, wp_ite]
  refine ⟨fun hl => absurd hl (Bool.eq_false_iff.mp h.1), fun _ => ?_⟩
  rw [wp_bind]
  refine wp_mono (h.wp_keeps (.when (keeps_setRts _))) ?_ (fun _ _ h => h)
  intro _ s₁ h₁
  refine wp_loop (fun _ => OnTheWay base l) ?_ (fun _ _ h => h) n h₁
  intro full s hs
  refine wp_mono (wp_receiveTransmitPass full hs) ?_ (fun _ _ h => h)
  rintro r t ⟨ht, hst⟩
  cases r with
  | inl full' => exact ht
  | inr st => exact ⟨hst st rfl, ht⟩

theorem wp_drain (h : OnTheWay base l dev) :
    wp (drain port n) (fun timedOut t => OnTheWay base l t ∧
      iohSerialFifoEmpty t.transmit = !timedOut) (fun _ => OnTheWay base l) dev := by
  unfold drain
  refine wp_loop (fun _ => OnTheWay base l) ?_ (fun _ _ h => h) n h
  intro elapsed s hs
  rw [wp_bind]
  refine wp_mono (wp_receiveTransmit hs) ?_ (fun _ _ h => h)
  rintro st t ⟨rfl, ht⟩
  rw [wp_bind, wp_get, wp_ite]
  refine ⟨fun hmore => ?_, fun hdone => ?_⟩
  · have hne : iohSerialFifoEmpty t.transmit = false := by
      rcases hmore with hst | hne
      · exact absurd rfl hst
      · exact Bool.eq_false_iff.mpr hne
    rw [wp_ite, wp_pure, wp_pure]
    exact ⟨fun _ => ⟨ht, hne⟩, fun _ => ht⟩
  · rw [wp_pure]
    refine ⟨ht, ?_⟩
    by_contra hne
    exact hdone (.inr fun he => hne he)

end

/-! ## A call -/

section

variable {port : SerialPort} {dev : SerialDev} {n : Nat}

/-- At the head of the loop over a buffer: the first `index` bytes are written, and nothing is left in
the FIFO. -/
def Written (base : List (BitVec 8)) (charBuffer : Nat → BitVec 8) (size : Nat)
    (l : Nat × Nat) (dev : SerialDev) : Prop :=
  dev.softwareLoopbackEnable = false ∧ iohSerialFifoEmpty dev.transmit = true ∧ l.1 ≤ size ∧
    l.2 = l.1 ∧ dev.thr = base ++ (List.range l.1).map charBuffer

theorem wp_addTransmit {base : List (BitVec 8)} {data : BitVec 8}
    (hl : dev.softwareLoopbackEnable = false) (he : iohSerialFifoEmpty dev.transmit = true)
    (hthr : dev.thr = base) :
    wp (addTransmit data) (fun _ => OnTheWay base [data]) (fun _ => OnTheWay base [data]) dev := by
  unfold addTransmit
  rw [wp_modify]
  refine ⟨hl, [], ?_, ?_⟩
  · rw [List.append_nil]
    exact hthr
  · rw [List.nil_append]
    exact (fifoAdd_of_empty he data).symm

theorem OnTheWay.single {base : List (BitVec 8)} {data : BitVec 8} (h : OnTheWay base [data] dev) :
    dev.thr = base ++ (if iohSerialFifoEmpty dev.transmit then [data] else []) := by
  obtain ⟨_, sent, hthr, hl⟩ := h
  cases he : iohSerialFifoEmpty dev.transmit with
  | true =>
    rw [fifoEmpty_iff.mp he, List.append_nil] at hl
    rw [hthr, ← hl]
    rfl
  | false =>
    have hne : dev.transmit.toList ≠ [] := fun hnil => by
      rw [fifoEmpty_iff.mpr hnil] at he
      cases he
    have hlen : sent.length + dev.transmit.toList.length = 1 := by
      rw [← List.length_append, ← hl]
      rfl
    have hpos := List.length_pos_iff.mpr hne
    have hnil : sent = [] := List.length_eq_zero_iff.mp (by omega)
    rw [hthr, hnil]
    rfl

theorem wp_write_buffer {call : WriteCall} {charBuffer : Nat → BitVec 8}
    (hb : call.buffer = some charBuffer) (hl : dev.softwareLoopbackEnable = false)
    (he : iohSerialFifoEmpty dev.transmit = true) :
    wp (iohSerialWrite port n call) (fun ans t => t.thr = dev.thr ++ call.bytes.take ans.2)
      (fun _ _ => True) dev := by
  have hbytes : call.bytes = (List.range call.bufferSize.toNat).map charBuffer := by
    unfold WriteCall.bytes
    rw [hb]
  unfold iohSerialWrite
  rw [wp_ite]
  refine ⟨fun hz => ?_, fun _ => ?_⟩
  · rw [wp_pure, hz]
    exact (List.append_nil _).symm
  rw [hb]
  refine wp_loop (Written dev.thr charBuffer call.bufferSize.toNat) ?_ (fun _ _ _ => trivial) n
    ⟨hl, he, Nat.zero_le _, rfl, by simp⟩
  rintro ⟨index, actualWrite⟩ s ⟨hls, hes, hle, hact, hthr⟩
  change actualWrite = index at hact
  subst hact
  change s.thr = dev.thr ++ (List.range actualWrite).map charBuffer at hthr
  show wp (if actualWrite < call.bufferSize.toNat then _ else _) _ _ s
  rw [wp_ite]
  refine ⟨fun hlt => ?_, fun hge => ?_⟩
  · rw [wp_bind]
    refine wp_mono (wp_addTransmit hls hes hthr) ?_ (fun _ _ _ => trivial)
    intro _ s₁ h₁
    rw [wp_bind]
    refine wp_mono (wp_drain h₁) ?_ (fun _ _ _ => trivial)
    rintro timedOut s₂ ⟨h₂, hfifo⟩
    have hthr₂ := h₂.single
    rw [hfifo] at hthr₂
    rw [wp_ite, wp_pure, wp_pure]
    refine ⟨fun hto => ?_, fun hto => ?_⟩
    · rw [hto] at hthr₂
      show s₂.thr = dev.thr ++ call.bytes.take actualWrite
      rw [hthr₂, hbytes, ← List.map_take, List.take_range, Nat.min_eq_left hle]
      exact List.append_nil _
    · rw [Bool.eq_false_iff.mpr hto] at hthr₂ hfifo
      refine ⟨h₂.1, hfifo, hlt, rfl, ?_⟩
      rw [hthr₂, List.range_succ, List.map_append, List.append_assoc]
      rfl
  · have heq : actualWrite = call.bufferSize.toNat := Nat.le_antisymm hle (Nat.le_of_not_lt hge)
    rw [wp_pure]
    show s.thr = dev.thr ++ call.bytes.take call.bufferSize.toNat
    rw [hthr, hbytes, List.take_of_length_le (by simp), heq]

theorem wp_write_nothing {call : WriteCall} (hb : call.bytes = []) :
    wp (iohSerialWrite port n call) (fun ans t => t.thr = dev.thr ++ call.bytes.take ans.2)
      (fun _ _ => True) dev := by
  rw [hb]
  unfold iohSerialWrite
  rw [wp_ite]
  refine ⟨fun _ => by simp, fun hz => ?_⟩
  cases hbuf : call.buffer with
  | none => simp
  | some charBuffer =>
    unfold WriteCall.bytes at hb
    rw [hbuf, List.map_eq_nil_iff, List.range_eq_nil] at hb
    exact absurd (BitVec.eq_of_toNat_eq hb) hz

theorem wp_write {call : WriteCall} (h : Unhindered call dev) :
    wp (iohSerialWrite port n call) (fun ans t => t.thr = dev.thr ++ call.bytes.take ans.2)
      (fun _ _ => True) dev := by
  rcases h with hnil | ⟨hl, he⟩
  · exact wp_write_nothing hnil
  · cases hb : call.buffer with
    | none => exact wp_write_nothing (by unfold WriteCall.bytes; rw [hb])
    | some charBuffer => exact wp_write_buffer hb hl he

end

/-! ## Sequences of calls -/

theorem reported_append (served served' : List (WriteCall × EfiStatus × Nat)) :
    reported (served ++ served') = reported served ++ reported served' :=
  List.flatMap_append

/-- Every run of calls, none of which finds the loopback on or a byte left in the FIFO, puts on the
line exactly the bytes that the calls report. -/
theorem stream_exact {port : SerialPort} {n : Nat} {calls : List WriteCall} {dev t : SerialDev}
    {results : List (EfiStatus × Nat)} (hC : EachMeets (iohSerialWrite port n) Unhindered calls dev)
    (hrun : answers (iohSerialWrite port n) calls dev = .ret results t) :
    t.thr = dev.thr ++ reported (calls.zip results) := by
  have hstep : ∀ served call s, s.thr = dev.thr ++ reported served → Unhindered call s →
      wp (iohSerialWrite port n call) (fun ans t =>
        t.thr = dev.thr ++ reported (served ++ [(call, ans)])) (fun _ _ => True) s := by
    intro served call s hs hc
    refine wp_mono (wp_write hc) ?_ (fun _ _ h => h)
    intro ans t ht
    rw [ht, hs, reported_append, List.append_assoc]
    congr 2
    exact (List.append_nil _).symm
  have h := wp_answers (I := fun served s => s.thr = dev.thr ++ reported served) hstep calls [] dev hC
    (List.append_nil _).symm
  have ht := wp_of_ret h hrun
  exact ht

/-- A line whose holding register is busy at the first two reads of its status and free from then
on. -/
def slowLine : SerialPort where
  useHalfHandshake := false
  lsr := fun k => if k < 2 then 0 else 0x20#8
  msr := fun _ => 0
  rbr := fun _ => 0

def oneByte (data : BitVec 8) : WriteCall := ⟨1, some fun _ => data⟩

/-- Two calls of one byte each. The line becomes free before the first one gives up. -/
theorem stream_exact_prompt :
    ∃ results t, answers (iohSerialWrite slowLine 4) [oneByte 0x41, oneByte 0x42]
        (.start false false 20) = .ret results t ∧
      t.thr = [] ++ reported ([oneByte 0x41, oneByte 0x42].zip results) := by
  have hC : EachMeets (iohSerialWrite slowLine 4) Unhindered [oneByte 0x41, oneByte 0x42]
      (.start false false 20) := by decide +kernel
  have hv : (answers (iohSerialWrite slowLine 4) [oneByte 0x41, oneByte 0x42]
      (.start false false 20)).value? = some [(.success, 1), (.success, 1)] := by decide +kernel
  have hrun := Outcome.eq_ret hv
  exact ⟨_, _, hrun, stream_exact hC hrun⟩

/-- With a timeout of 10 microseconds the first call gives up and reports nothing. The second one
sends the byte it left. -/
theorem left_byte_sent :
    (answers (iohSerialWrite slowLine 4) [oneByte 0x41, oneByte 0x42] (.start false false 10)).value? =
        some [(.timeout, 0), (.success, 1)] ∧
      (answers (iohSerialWrite slowLine 4) [oneByte 0x41, oneByte 0x42]
        (.start false false 10)).state.thr = [0x41#8, 0x42#8] ∧
      reported ([oneByte 0x41, oneByte 0x42].zip [(.timeout, 0), (.success, 1)]) = [0x42#8] := by
  refine ⟨?_, ?_, ?_⟩ <;> decide +kernel

end Quark.Uart.Proofs
