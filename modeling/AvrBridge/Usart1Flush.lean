import AvrBridge.Usart1Transmit

/-! Flush calls and the data register interrupt. The idle flag, UDRIE1, the ring and the one
waker slot are written by the kick-off, both polls and both branches of the routine. -/

namespace AvrBridge.Usart1Flush

open Rust Lts ConstCircularBuffer
open UsartWriter (startTxIfNeeded usart1Udre canWrite txBufferEmpty)

/-! ## The system -/

/-- The writer, the flush call in progress, the waker of its future if that was pending when
polled last and has not been woken since, and the flush characters queued so far. -/
structure State where
  usart : Usart1
  writer : UsartWriter
  call : Option UartFlush
  pending : Option Waker
  queued : List UInt8
  deriving DecidableEq, Repr

inductive Act where
  | flush
  | dropFlush
  | poll (waker : Waker)
  | queueFlush
  | usart1Udre
  deriving DecidableEq, Repr

/-- A call starts, is dropped or goes on, or the routine runs. -/
def step (s : State) : Act → Option State
  | .flush =>
      match s.call with
      | none => some { s with call := some .canWrite }
      | some _ => none
  | .dropFlush => some { s with call := none, pending := none }
  | .poll waker =>
      match s.call with
      | some .canWrite =>
          let (f, u, w) := UartFlush.awaitCanWrite s.usart s.writer waker
          let pending := if f = .canWrite then some waker else none
          some { s with usart := u, writer := w, call := some f, pending := pending }
      | some .drain =>
          let (f, u, w) := UartFlush.awaitDrained s.usart s.writer waker
          let pending := if f = .drain then some waker else none
          some { s with usart := u, writer := w, call := some f, pending := pending }
      | _ => none
  | .queueFlush =>
      match s.call with
      | some .queue =>
          let (u, w) := UsartWriter.queueFlush s.usart s.writer
          some { s with
            usart := u
            writer := w
            call := some .drain
            queued := s.queued ++ s.writer.flushCharOpt.toList }
      | _ => none
  | .usart1Udre =>
      if s.usart.ucsr1b &&& udrie1 ≠ 0 then
        let (woken, u, w) := UsartWriter.usart1Udre s.usart s.writer
        let pending := if woken = s.pending then none else s.pending
        some { s with usart := u, writer := w, pending := pending }
      else none

/-- An idle transmitter with these bytes in its ring and UDRIE1 clear. -/
structure Idle (flushCharOpt : Option UInt8) (content : List UInt8) (s : State) : Prop where
  flushCharOpt_eq : s.writer.flushCharOpt = flushCharOpt
  wf : s.writer.buffer.WF
  queue_eq : s.writer.buffer.queue = content
  txIdle : s.writer.txIdle = true
  udrie1_clear : s.usart.ucsr1b &&& udrie1 = 0
  udr1 : s.usart.udr1 = []
  call : s.call = none
  pending : s.pending = none
  queued : s.queued = []

def system (flushCharOpt : Option UInt8) (content : List UInt8) : System State Act :=
  .ofFunFrom (Idle flushCharOpt content) step

/-! ## The writer -/

/-- The interrupt is enabled while the transmitter is not idle, and these bytes have been or
are to be written to UDR1 in this order. -/
structure Armed (bytes : List UInt8) (u : Usart1) (w : UsartWriter) : Prop where
  wf : w.buffer.WF
  idle : w.txIdle = false ↔ u.ucsr1b &&& udrie1 ≠ 0
  order : u.udr1 ++ w.buffer.queue = bytes

theorem udrie1_set (x : BitVec 8) : (x ||| udrie1) &&& udrie1 ≠ 0 := by
  have habsorb : (x ||| udrie1) &&& udrie1 = udrie1 := by
    apply BitVec.eq_of_getLsbD_eq
    intro i _
    rw [BitVec.getLsbD_and, BitVec.getLsbD_or]
    cases udrie1.getLsbD i <;> simp
  rw [habsorb]
  decide

section Writer

variable {bytes : List UInt8} {u : Usart1} {w : UsartWriter}

theorem Armed.setWaker (h : Armed bytes u w) (waker : Option Waker) :
    Armed bytes u { w with wakerOpt := waker } :=
  ⟨h.wf, h.idle, h.order⟩

/-- A byte taken from the ring and written to UDR1. -/
theorem Armed.advance (h : Armed bytes u w) {byte : UInt8} {rest : List UInt8}
    (hq : w.buffer.queue = byte :: rest) :
    (w.buffer.advance 1).WF ∧ (u.udr1 ++ [byte]) ++ (w.buffer.advance 1).queue = bytes := by
  obtain ⟨hwf, hrest⟩ := advance_one h.wf hq
  constructor
  · exact hwf
  · rw [hrest, List.append_assoc, List.singleton_append, ← hq, h.order]

/-- The kick-off: after it a ring that was not empty has a busy transmitter. -/
theorem Armed.startTxIfNeeded (h : Armed bytes u w) :
    Armed bytes (startTxIfNeeded u w).1 (startTxIfNeeded u w).2 ∧
      (startTxIfNeeded u w).2.wakerOpt = w.wakerOpt ∧
      (startTxIfNeeded u w).2.flushCharOpt = w.flushCharOpt ∧
      (w.buffer.queue ≠ [] → (startTxIfNeeded u w).2.txIdle = false) := by
  cases hidle : w.txIdle with
  | false =>
    rw [Usart1Transmit.startTxIfNeeded_busy hidle]
    exact ⟨h, rfl, rfl, fun _ => hidle⟩
  | true =>
    cases hq : w.buffer.queue with
    | nil =>
      rw [Usart1Transmit.startTxIfNeeded_empty h.wf hq]
      exact ⟨h, rfl, rfl, fun hne => absurd rfl hne⟩
    | cons byte rest =>
      obtain ⟨hwf, horder⟩ := h.advance hq
      rw [Usart1Transmit.startTxIfNeeded_kick h.wf hidle hq]
      refine ⟨⟨hwf, ?_, horder⟩, rfl, rfl, fun _ => rfl⟩
      exact iff_of_true rfl (udrie1_set u.ucsr1b)

/-- The routine: it takes the waker, and leaves the interrupt enabled if it wrote a byte. -/
theorem Armed.usart1Udre (h : Armed bytes u w) :
    (usart1Udre u w).1 = w.wakerOpt ∧
      Armed bytes (usart1Udre u w).2.1 (usart1Udre u w).2.2 ∧
      (usart1Udre u w).2.2.flushCharOpt = w.flushCharOpt ∧
      (usart1Udre u w).2.2.buffer.len ≤ w.buffer.len := by
  cases hq : w.buffer.queue with
  | nil =>
    simp only [UsartWriter.usart1Udre, readByte_of_nil h.wf hq]
    refine ⟨trivial, ⟨h.wf, ?_, h.order⟩, trivial, Nat.le_refl _⟩
    exact iff_of_false (fun hfalse => (by cases hfalse)) (fun hne => hne BitVec.zero_and)
  | cons byte rest =>
    obtain ⟨hwf, horder⟩ := h.advance hq
    simp only [UsartWriter.usart1Udre, readByte_eq h.wf hq, UsartWriter.sendByte]
    refine ⟨trivial, ⟨hwf, h.idle, horder⟩, trivial, ?_⟩
    exact Nat.sub_le ..

/-- On a ring that is not empty the routine writes its head to UDR1. -/
theorem Armed.usart1Udre_head (h : Armed bytes u w) {byte : UInt8} {rest : List UInt8}
    (hq : w.buffer.queue = byte :: rest) :
    (UsartWriter.usart1Udre u w).2.1.udr1 = u.udr1 ++ [byte] ∧
      (UsartWriter.usart1Udre u w).2.2.buffer.queue = rest := by
  simp only [UsartWriter.usart1Udre, readByte_eq h.wf hq, UsartWriter.sendByte]
  exact ⟨trivial, (advance_one h.wf hq).2⟩

/-- Both polls: ready, or pending on a busy transmitter with the waker in its slot. -/
theorem Armed.canWrite (h : Armed bytes u w) (waker : Waker) :
    (canWrite u w waker = (.ready (.ok ()), u, w) ∧ w.buffer.len < bufferCapacity) ∨
      ∃ u' w', canWrite u w waker = (.pending, u', w') ∧ Armed bytes u' w' ∧
        w'.flushCharOpt = w.flushCharOpt ∧ w'.txIdle = false ∧ w'.wakerOpt = some waker := by
  have hle := h.wf.len_le
  by_cases hfull : w.buffer.len = bufferCapacity
  · right
    have hne : w.buffer.queue ≠ [] := by
      intro hnil
      have hlen := h.wf.length_queue
      rw [hnil, hfull] at hlen
      cases hlen
    obtain ⟨harmed, -, hflush, hbusy⟩ := h.startTxIfNeeded
    have hf : w.buffer.isFull = true := isFull_iff.mpr hfull
    refine ⟨_, _, ?_, harmed.setWaker (some waker), hflush, hbusy hne, rfl⟩
    rw [UsartWriter.canWrite, hf]
    rfl
  · left
    have hf : w.buffer.isFull = false := isFull_of_lt (by omega)
    constructor
    · rw [UsartWriter.canWrite, hf]
      rfl
    · omega

theorem Armed.txBufferEmpty (h : Armed bytes u w) (waker : Waker) :
    txBufferEmpty u w waker = (.ready (.ok ()), u, w) ∨
      ∃ u' w', txBufferEmpty u w waker = (.pending, u', w') ∧ Armed bytes u' w' ∧
        w'.flushCharOpt = w.flushCharOpt ∧ w'.txIdle = false ∧ w'.wakerOpt = some waker := by
  by_cases hnil : w.buffer.queue = []
  · left
    rw [UsartWriter.txBufferEmpty, (isEmpty_iff h.wf).mpr hnil]
    rfl
  · right
    obtain ⟨harmed, -, hflush, hbusy⟩ := h.startTxIfNeeded
    have he : w.buffer.isEmpty = false := isEmpty_of_ne h.wf hnil
    refine ⟨_, _, ?_, harmed.setWaker (some waker), hflush, hbusy hnil, rfl⟩
    rw [UsartWriter.txBufferEmpty, he]
    rfl

/-- The critical section of a flush puts its character behind the ring. -/
theorem Armed.queueFlush (h : Armed bytes u w) (hroom : w.buffer.len < bufferCapacity) :
    Armed (bytes ++ w.flushCharOpt.toList) (UsartWriter.queueFlush u w).1
        (UsartWriter.queueFlush u w).2 ∧
      (UsartWriter.queueFlush u w).2.flushCharOpt = w.flushCharOpt := by
  cases hf : w.flushCharOpt with
  | none =>
    obtain ⟨harmed, -, hflush, -⟩ := h.startTxIfNeeded
    rw [Usart1Transmit.queueFlush_none hf, Option.toList_none, List.append_nil]
    exact ⟨harmed, hflush.trans hf⟩
  | some flushChar =>
    have hfit : w.buffer.len + 1 ≤ bufferCapacity := hroom
    have hqueued : Armed (bytes ++ [flushChar]) u
        { w with buffer := (w.buffer.writeByte flushChar).2 } := by
      rw [writeByte_eq h.wf hroom]
      refine ⟨copyIn_wf h.wf (Nat.le_refl 1) hfit, h.idle, ?_⟩
      show u.udr1 ++ (w.buffer.copyIn [flushChar] 1).queue = bytes ++ [flushChar]
      rw [copyIn_queue h.wf (Nat.le_refl 1) hfit, ← List.append_assoc, h.order]
      rfl
    obtain ⟨harmed, -, hflush, -⟩ := hqueued.startTxIfNeeded
    rw [Usart1Transmit.queueFlush_some hf]
    exact ⟨harmed, hflush.trans hf⟩

end Writer

/-! ## Runs -/

structure Inv (flushCharOpt : Option UInt8) (content : List UInt8) (s : State) : Prop where
  armed : Armed (content ++ s.queued) s.usart s.writer
  flushCharOpt_eq : s.writer.flushCharOpt = flushCharOpt
  waiting : ∀ w, s.pending = some w → s.writer.txIdle = false ∧ s.writer.wakerOpt = some w
  awaiting : s.pending ≠ none → s.call = some .canWrite ∨ s.call = some .drain
  room : s.call = some .queue → s.writer.buffer.len < bufferCapacity

variable {flushCharOpt : Option UInt8} {content : List UInt8} {s t : State}

theorem inv_idle (h : Idle flushCharOpt content s) : Inv flushCharOpt content s := by
  constructor
  · rw [h.queued, List.append_nil]
    refine ⟨h.wf, ?_, ?_⟩
    · rw [h.txIdle, h.udrie1_clear]
      exact iff_of_false (fun hfalse => (by cases hfalse)) (fun hne => hne rfl)
    · rw [h.udr1, h.queue_eq, List.nil_append]
  · exact h.flushCharOpt_eq
  · intro w hw
    rw [h.pending] at hw
    cases hw
  · intro hne
    exact absurd h.pending hne
  · intro hcall
    rw [h.call] at hcall
    cases hcall

/-- A future that is pending waits for the interrupt; one that is ready waits for nothing. -/
theorem inv_poll {waker : Waker} (h : Inv flushCharOpt content s)
    (hs : step s (.poll waker) = some t) : Inv flushCharOpt content t := by
  simp only [step] at hs
  split at hs
  · rcases h.armed.canWrite waker with
      ⟨hready, hroom⟩ | ⟨u', w', hpend, harmed, hflush, hbusy, hslot⟩
    · simp only [UartFlush.awaitCanWrite, hready] at hs
      cases hs
      refine ⟨h.armed, h.flushCharOpt_eq, ?_, ?_, fun _ => hroom⟩
      · intro w hw
        cases hw
      · intro hne
        exact absurd rfl hne
    · simp only [UartFlush.awaitCanWrite, hpend] at hs
      cases hs
      refine ⟨harmed, hflush.trans h.flushCharOpt_eq, ?_, fun _ => .inl rfl, ?_⟩
      · intro w hw
        cases hw
        exact ⟨hbusy, hslot⟩
      · intro hcall
        cases hcall
  · rcases h.armed.txBufferEmpty waker with
      hready | ⟨u', w', hpend, harmed, hflush, hbusy, hslot⟩
    · simp only [UartFlush.awaitDrained, hready] at hs
      cases hs
      refine ⟨h.armed, h.flushCharOpt_eq, ?_, ?_, ?_⟩
      · intro w hw
        cases hw
      · intro hne
        exact absurd rfl hne
      · intro hcall
        cases hcall
    · simp only [UartFlush.awaitDrained, hpend] at hs
      cases hs
      refine ⟨harmed, hflush.trans h.flushCharOpt_eq, ?_, fun _ => .inr rfl, ?_⟩
      · intro w hw
        cases hw
        exact ⟨hbusy, hslot⟩
      · intro hcall
        cases hcall
  · cases hs

theorem inv_queueFlush (h : Inv flushCharOpt content s) (hs : step s .queueFlush = some t) :
    Inv flushCharOpt content t := by
  simp only [step] at hs
  split at hs
  · rename_i hcall
    cases hs
    obtain ⟨harmed, hflush⟩ := h.armed.queueFlush (h.room hcall)
    have hnone : s.pending = none := by
      by_contra hne
      rcases h.awaiting hne with hc | hc
      · rw [hcall] at hc
        cases hc
      · rw [hcall] at hc
        cases hc
    rw [List.append_assoc] at harmed
    refine ⟨harmed, hflush.trans h.flushCharOpt_eq, ?_, fun _ => .inr rfl, ?_⟩
    · intro w hw
      exact absurd (hnone.symm.trans hw) (by simp)
    · intro hc
      cases hc
  · cases hs

/-- After the routine no future is waiting: the slot held its waker. -/
theorem inv_usart1Udre (h : Inv flushCharOpt content s) (hs : step s .usart1Udre = some t) :
    Inv flushCharOpt content t := by
  simp only [step] at hs
  split at hs
  · obtain ⟨hwoken, harmed, hflush, hlen⟩ := h.armed.usart1Udre
    have hnone : (if (usart1Udre s.usart s.writer).1 = s.pending then none else s.pending) =
        none := by
      cases hp : s.pending with
      | none => exact ite_self none
      | some w =>
        rw [hwoken, (h.waiting w hp).2, if_pos rfl]
    cases hs
    refine ⟨harmed, hflush.trans h.flushCharOpt_eq, ?_, ?_, ?_⟩
    · intro w hw
      exact absurd (hnone.symm.trans hw) (by simp)
    · intro hne
      exact absurd hnone hne
    · intro hcall
      exact Nat.lt_of_le_of_lt hlen (h.room hcall)
  · cases hs

theorem inv_step {act : Act} (h : Inv flushCharOpt content s) (hs : step s act = some t) :
    Inv flushCharOpt content t := by
  cases act with
  | flush =>
    simp only [step] at hs
    split at hs
    · cases hs
      refine ⟨h.armed, h.flushCharOpt_eq, h.waiting, fun _ => .inl rfl, ?_⟩
      intro hcall
      cases hcall
    · cases hs
  | dropFlush =>
    cases hs
    refine ⟨h.armed, h.flushCharOpt_eq, ?_, ?_, ?_⟩
    · intro w hw
      cases hw
    · intro hne
      exact absurd rfl hne
    · intro hcall
      cases hcall
  | poll waker => exact inv_poll h hs
  | queueFlush => exact inv_queueFlush h hs
  | usart1Udre => exact inv_usart1Udre h hs

theorem inv_of_reachable (h : (system flushCharOpt content).Reachable s) :
    Inv flushCharOpt content s :=
  h.invariant (I := Inv flushCharOpt content) (fun _ hi => inv_idle hi)
    (fun _ _ _ hi hs => inv_step hi hs)

/-- The `USART1_UDRE` that is due: it takes the waker out of the slot and wakes it, and writes
the head of the ring to UDR1. -/
structure Due (s : State) (waker : Waker) (t : State) : Prop where
  runs : step s .usart1Udre = some t
  wakes : (usart1Udre s.usart s.writer).1 = some waker
  taken : t.writer.wakerOpt = none
  pending : t.pending = none
  head : ∀ byte rest, s.writer.buffer.queue = byte :: rest →
    t.usart.udr1 = s.usart.udr1 ++ [byte] ∧ t.writer.buffer.queue = rest

theorem Inv.exists_due (h : Inv flushCharOpt content s) {w : Waker} (hw : s.pending = some w) :
    ∃ t, Due s w t := by
  obtain ⟨hbusy, hslot⟩ := h.waiting w hw
  have henabled := h.armed.idle.mp hbusy
  have hwakes : (usart1Udre s.usart s.writer).1 = some w := h.armed.usart1Udre.1.trans hslot
  have htaken : (usart1Udre s.usart s.writer).2.2.wakerOpt = none := by
    unfold UsartWriter.usart1Udre
    split <;> rfl
  refine ⟨_, if_pos henabled, hwakes, htaken, ?_, ?_⟩
  · show (if (usart1Udre s.usart s.writer).1 = s.pending then none else s.pending) = none
    rw [hwakes, hw, if_pos rfl]
  · intro byte rest hq
    exact h.armed.usart1Udre_head hq

/-- In every state between two critical sections the transmitter is busy exactly if UDRIE1 is
set; a future left pending and not woken since has UDRIE1 set and its waker in the slot, and
the interrupt that is due wakes it; and the bytes written to UDR1 followed by those in the ring
are the first content and the flush characters, in order. -/
theorem flush_never_stranded (h : (system flushCharOpt content).Reachable s) :
    (s.writer.txIdle = false ↔ s.usart.ucsr1b &&& udrie1 ≠ 0) ∧
      (∀ w, s.pending = some w →
        s.usart.ucsr1b &&& udrie1 ≠ 0 ∧ s.writer.wakerOpt = some w ∧ ∃ t, Due s w t) ∧
      s.usart.udr1 ++ s.writer.buffer.queue = content ++ s.queued := by
  have hinv := inv_of_reachable h
  refine ⟨hinv.armed.idle, ?_, hinv.armed.order⟩
  intro w hw
  obtain ⟨hbusy, hslot⟩ := hinv.waiting w hw
  exact ⟨hinv.armed.idle.mp hbusy, hslot, hinv.exists_due hw⟩

/-- Two bytes in the ring: the kick-off of a flush sends the first. -/
def twoBytes : State where
  usart := ⟨0b00001000, []⟩
  writer := ⟨some 10, (((ConstCircularBuffer.new bufferCapacity).writeByte 7).2.writeByte 8).2,
    none, true⟩
  call := none
  pending := none
  queued := []

/-- The future of the flush waits; the interrupt that is due wakes it and sends the second byte. -/
theorem flush_never_stranded_twoBytes : ∃ s, (system (some 10) [7, 8]).Reachable s ∧
    s.pending = some 3 ∧ s.usart.udr1 = [7] ∧ s.writer.buffer.queue = [8, 10] ∧
    s.usart.ucsr1b &&& udrie1 ≠ 0 ∧ s.writer.wakerOpt = some 3 ∧ ∃ t, Due s 3 t := by
  have hidle : Idle (some 10) [7, 8] twoBytes := by
    refine ⟨rfl, ⟨?_, ?_, ?_, ?_, ?_⟩, ?_, rfl, ?_, rfl, rfl, rfl, rfl⟩ <;> decide
  obtain ⟨s, hs, htest⟩ := exists_reachable_of_runFun (f := step)
    [.flush, .poll 3, .queueFlush, .poll 3]
    (fun s => s.pending == some 3 && s.usart.udr1 == [7] && s.writer.buffer.queue == [8, 10])
    (.init (M := system (some 10) [7, 8]) hidle) (by decide)
  simp only [Bool.and_eq_true, beq_iff_eq, and_assoc] at htest
  exact ⟨s, hs, htest.1, htest.2.1, htest.2.2, (flush_never_stranded hs).2.1 3 htest.1⟩

end AvrBridge.Usart1Flush
