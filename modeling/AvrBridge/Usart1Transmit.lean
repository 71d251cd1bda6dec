import AvrBridge.AvrUart
import AvrBridge.ConstRefinement
import AvrBridge.Lts

/-! The two ways into UDR1. `write` waits for UDRE1 before each byte; `flush` puts its
character into the ring and, when the transmitter is idle, `start_tx_if_needed` moves it
on without looking. The last byte of a write may still be in UDR1 then. -/

namespace AvrBridge.Usart1Transmit

open Rust Lts ConstCircularBuffer

/-! ## The hardware -/

/-- UDR1 behind the shift register, the bytes that have left, and those ignored because
they were written while UDRE1 was clear. -/
structure Transmitter where
  left : List UInt8
  shift : Option UInt8
  udr1 : Option UInt8
  ignored : List UInt8
  deriving DecidableEq, Repr

namespace Transmitter

def udre1 (h : Transmitter) : Bool := h.udr1.isNone

def write (h : Transmitter) (byte : UInt8) : Transmitter :=
  if h.udre1 then { h with udr1 := some byte } else { h with ignored := h.ignored ++ [byte] }

/-- The bytes on their way out, the first to leave in front. -/
def line (h : Transmitter) : List UInt8 := h.left ++ h.shift.toList ++ h.udr1.toList

end Transmitter

/-! ## The system -/

/-- The call in progress. `sending` is inside the critical section of a write. -/
inductive Call where
  | idle
  | write (buf : List UInt8)
  | sending (byte : UInt8) (rest : List UInt8)
  | flush (f : UartFlush)
  deriving DecidableEq, Repr

/-- The registers, the writer, the call in progress, and the bytes of the writes and the
flush characters in the order of the calls. -/
structure State where
  ucsr1b : BitVec 8
  hw : Transmitter
  writer : UsartWriter
  call : Call
  asked : List UInt8
  deriving DecidableEq, Repr

/-- The state after code that left UCSR1B and the writer so and wrote these bytes. -/
def State.store (s : State) (u : Usart1) (w : UsartWriter) (call : Call) : State :=
  { s with
    ucsr1b := u.ucsr1b
    hw := u.udr1.foldl Transmitter.write s.hw
    writer := w
    call := call }

inductive Act where
  | load
  | shiftOut
  | usart1Udre
  | write (buf : List UInt8)
  | flush
  | pollCanWrite (waker : Waker)
  | sendByte
  | queueFlush
  | pollDrained (waker : Waker)
  deriving DecidableEq, Repr

/-- The hardware moves a byte, the routine runs outside a critical section, or the call
goes on. -/
def step (s : State) : Act → Option State
  | .load =>
      match s.hw.udr1, s.hw.shift with
      | some byte, none => some { s with hw := { s.hw with udr1 := none, shift := some byte } }
      | _, _ => none
  | .shiftOut =>
      match s.hw.shift with
      | some byte => some { s with hw := { s.hw with left := s.hw.left ++ [byte], shift := none } }
      | none => none
  | .usart1Udre =>
      match s.call with
      | .sending _ _ => none
      | call =>
          if s.ucsr1b &&& udrie1 ≠ 0 ∧ s.hw.udre1 = true then
            let (_, u, w) := UsartWriter.usart1Udre ⟨s.ucsr1b, []⟩ s.writer
            some (s.store u w call)
          else none
  | .write buf =>
      match s.call, UartWrite.enter buf with
      | .idle, .canWrite => some { s with call := .write buf, asked := s.asked ++ buf }
      | .idle, _ => some s
      | _, _ => none
  | .flush =>
      match s.call with
      | .idle => some { s with
          call := .flush .canWrite
          asked := s.asked ++ s.writer.flushCharOpt.toList }
      | _ => none
  | .pollCanWrite waker =>
      match s.call with
      | .write buf =>
          let (answer, u, w) := UartWrite.await ⟨s.ucsr1b, []⟩ s.writer waker
          let call := match answer, buf with
            | .send, byte :: rest => .sending byte rest
            | .canWrite, _ => .write buf
            | _, _ => .idle
          some (s.store u w call)
      | .flush .canWrite =>
          let (f, u, w) := UartFlush.awaitCanWrite ⟨s.ucsr1b, []⟩ s.writer waker
          let call := match f with
            | .done _ => .idle
            | f => .flush f
          some (s.store u w call)
      | _ => none
  | .sendByte =>
      match s.call with
      | .sending byte rest =>
          if s.hw.udre1 then
            let call := match rest with
              | [] => .idle
              | byte :: rest => .sending byte rest
            some (s.store (UsartWriter.sendByte ⟨s.ucsr1b, []⟩ byte) s.writer call)
          else none
      | _ => none
  | .queueFlush =>
      match s.call with
      | .flush .queue =>
          let (u, w) := UsartWriter.queueFlush ⟨s.ucsr1b, []⟩ s.writer
          some (s.store u w (.flush .drain))
      | _ => none
  | .pollDrained waker =>
      match s.call with
      | .flush .drain =>
          let (f, u, w) := UartFlush.awaitDrained ⟨s.ucsr1b, []⟩ s.writer waker
          let call := match f with
            | .done _ => .idle
            | f => .flush f
          some (s.store u w call)
      | _ => none

/-- The static writer with any flush character, nothing on the line. -/
def start (ucsr1b : BitVec 8) (flushCharOpt : Option UInt8) : State :=
  ⟨ucsr1b, ⟨[], none, none, []⟩, { UsartWriter.new with flushCharOpt := flushCharOpt }, .idle, []⟩

def system (ucsr1b : BitVec 8) (flushCharOpt : Option UInt8) : System State Act :=
  .ofFun (start ucsr1b flushCharOpt) step

/-- UDRE1 is set when a flush is about to start an idle transmitter. -/
def KickReady (s : State) : Act → Prop
  | .queueFlush =>
      s.writer.flushCharOpt = none ∨ s.writer.txIdle = false ∨ s.hw.udre1 = true
  | _ => True

instance (s : State) (a : Act) : Decidable (KickReady s a) :=
  match a with
  | .queueFlush => inferInstanceAs (Decidable (_ ∨ _))
  | .load | .shiftOut | .usart1Udre | .write _ | .flush | .pollCanWrite _ | .sendByte
  | .pollDrained _ => inferInstanceAs (Decidable True)

/-! ## Order -/

/-- The bytes of a call that are not in the ring yet. -/
def Call.rest (flushCharOpt : Option UInt8) : Call → List UInt8
  | .write buf => buf
  | .sending byte rest => byte :: rest
  | .flush .canWrite | .flush .queue => flushCharOpt.toList
  | .idle | .flush .drain | .flush (.done _) => []

/-- No byte was ignored, and the line, the ring and the call hold the bytes asked for in
the order of the calls. -/
structure InOrder (s : State) : Prop where
  ignored : s.hw.ignored = []
  order : s.hw.line ++ s.writer.buffer.queue ++ s.call.rest s.writer.flushCharOpt = s.asked

/-- Bytes are in the ring only while a flush waits for a busy transmitter. -/
structure Sound (s : State) : Prop where
  wf : s.writer.buffer.WF
  queue_nil : s.call ≠ .flush .drain → s.writer.buffer.queue = []
  busy : s.writer.buffer.queue ≠ [] → s.writer.txIdle = false

section Writer

open UsartWriter

variable {u : Usart1} {w : UsartWriter}

theorem startTxIfNeeded_busy (h : w.txIdle = false) : startTxIfNeeded u w = (u, w) := by
  rw [startTxIfNeeded, h, Bool.false_and, if_neg Bool.false_ne_true]

theorem startTxIfNeeded_empty (h : w.buffer.WF) (hq : w.buffer.queue = []) :
    startTxIfNeeded u w = (u, w) := by
  rw [startTxIfNeeded, (isEmpty_iff h).mpr hq, Bool.not_true, Bool.and_false,
    if_neg Bool.false_ne_true]

theorem isEmpty_cons (h : w.buffer.WF) {byte : UInt8} {rest : List UInt8}
    (hq : w.buffer.queue = byte :: rest) : w.buffer.isEmpty = false := by
  apply isEmpty_of_ne h
  rw [hq]
  exact List.cons_ne_nil _ _

theorem startTxIfNeeded_kick (h : w.buffer.WF) (hidle : w.txIdle = true) {byte : UInt8}
    {rest : List UInt8} (hq : w.buffer.queue = byte :: rest) :
    startTxIfNeeded u w =
      (⟨u.ucsr1b ||| udrie1, u.udr1 ++ [byte]⟩,
        { w with buffer := w.buffer.advance 1, txIdle := false }) := by
  rw [startTxIfNeeded, hidle, isEmpty_cons h hq, Bool.not_false, Bool.and_true, if_pos rfl,
    readByte_eq h hq]

theorem canWrite_empty (h : w.buffer.WF) (hq : w.buffer.queue = []) (waker : Waker) :
    canWrite u w waker = (.ready (.ok ()), u, w) := by
  have hfull : w.buffer.isFull = false := by
    rw [isFull, h.len_of_nil hq]
    rfl
  rw [canWrite, hfull, Bool.not_false, if_pos rfl]

theorem queueFlush_none (h : w.flushCharOpt = none) : queueFlush u w = startTxIfNeeded u w := by
  cases w
  cases h
  rfl

theorem queueFlush_some {flushChar : UInt8} (h : w.flushCharOpt = some flushChar) :
    queueFlush u w = startTxIfNeeded u { w with buffer := (w.buffer.writeByte flushChar).2 } := by
  cases w
  cases h
  rfl

/-- What `Usart1TxBufferEmpty` leaves: nothing moves, whether it waits or not. -/
theorem txBufferEmpty_keeps (h : w.buffer.WF) (hbusy : w.buffer.queue ≠ [] → w.txIdle = false)
    (waker : Waker) :
    w.buffer.queue = [] ∧ txBufferEmpty u w waker = (.ready (.ok ()), u, w) ∨
      txBufferEmpty u w waker = (.pending, u, { w with wakerOpt := some waker }) := by
  by_cases hq : w.buffer.queue = []
  · refine .inl ⟨hq, ?_⟩
    rw [txBufferEmpty, (isEmpty_iff h).mpr hq, if_pos rfl]
  · refine .inr ?_
    have hempty : w.buffer.isEmpty = false := isEmpty_of_ne h hq
    rw [txBufferEmpty, hempty, if_neg Bool.false_ne_true, startTxIfNeeded_busy (hbusy hq)]

end Writer

/-! ## What a step does -/

@[simp] theorem store_hw (s : State) (u : Usart1) (w : UsartWriter) (c : Call) :
    (s.store u w c).hw = u.udr1.foldl Transmitter.write s.hw := rfl

@[simp] theorem store_writer (s : State) (u : Usart1) (w : UsartWriter) (c : Call) :
    (s.store u w c).writer = w := rfl

@[simp] theorem store_call (s : State) (u : Usart1) (w : UsartWriter) (c : Call) :
    (s.store u w c).call = c := rfl

@[simp] theorem store_asked (s : State) (u : Usart1) (w : UsartWriter) (c : Call) :
    (s.store u w c).asked = s.asked := rfl

theorem write_ready {h : Transmitter} (hready : h.udre1 = true) (byte : UInt8) :
    (h.write byte).ignored = h.ignored ∧ (h.write byte).line = h.line ++ [byte] := by
  have hnone : h.udr1 = none := Option.isNone_iff_eq_none.mp hready
  rw [Transmitter.write, if_pos hready]
  constructor
  · rfl
  · simp [Transmitter.line, hnone]

theorem write_busy {h : Transmitter} (hbusy : h.udre1 = false) (byte : UInt8) :
    (h.write byte).ignored ≠ [] := by
  rw [Transmitter.write, hbusy, if_neg Bool.false_ne_true]
  exact List.append_ne_nil_of_right_ne_nil _ (List.cons_ne_nil _ _)

variable {s t : State}

/-- The shift register takes a byte or sends one: the line keeps its order. -/
theorem line_step (hs : step s .load = some t ∨ step s .shiftOut = some t) :
    t = { s with hw := t.hw } ∧ t.hw.line = s.hw.line ∧ t.hw.ignored = s.hw.ignored := by
  rcases hs with hs | hs
  · simp only [step] at hs
    split at hs
    · rename_i byte hudr hshift
      cases hs
      refine ⟨rfl, ?_, rfl⟩
      simp [Transmitter.line, hudr, hshift]
    · cases hs
  · simp only [step] at hs
    split at hs
    · rename_i byte hshift
      cases hs
      refine ⟨rfl, ?_, rfl⟩
      simp [Transmitter.line, hshift]
    · cases hs

/-- What the routine does: the oldest byte of the ring goes to a free UDR1, or the ring is
empty and the transmitter idle from here on. -/
theorem usart1Udre_step (h : Sound s) (hs : step s .usart1Udre = some t) :
    t.call = s.call ∧ t.asked = s.asked ∧ t.writer.flushCharOpt = s.writer.flushCharOpt ∧
      (s.writer.buffer.queue = [] ∧ t.hw = s.hw ∧ t.writer.buffer = s.writer.buffer ∨
        ∃ byte, s.writer.buffer.queue = byte :: t.writer.buffer.queue ∧
          s.hw.udre1 = true ∧ t.hw = s.hw.write byte ∧ t.writer.buffer.WF ∧
          t.writer.txIdle = s.writer.txIdle) := by
  have hs' : ∃ c, s.call = c ∧ s.hw.udre1 = true ∧
      t = s.store (UsartWriter.usart1Udre ⟨s.ucsr1b, []⟩ s.writer).2.1
        (UsartWriter.usart1Udre ⟨s.ucsr1b, []⟩ s.writer).2.2 c := by
    simp only [step] at hs
    split at hs
    · cases hs
    · split at hs
      · rename_i hc
        cases hs
        exact ⟨_, rfl, hc.2, rfl⟩
      · cases hs
  obtain ⟨c, hc, hready, rfl⟩ := hs'
  cases hq : s.writer.buffer.queue with
  | nil =>
    have hread := readByte_of_nil h.wf hq
    simp [UsartWriter.usart1Udre, hread, hc, hq]
  | cons byte rest =>
    have hread := readByte_eq h.wf hq
    obtain ⟨hwf, hrest⟩ := advance_one h.wf hq
    simp [UsartWriter.usart1Udre, hread, hc, hready, UsartWriter.sendByte, hrest, hwf]

/-- The ring after the flush character went in. -/
theorem queue_writeByte {b : ConstCircularBuffer bufferCapacity} (h : b.WF) (hq : b.queue = [])
    (byte : UInt8) : (b.writeByte byte).2.WF ∧ (b.writeByte byte).2.queue = [byte] := by
  have hroom : b.len < bufferCapacity := by
    rw [h.len_of_nil hq]
    decide
  have hfit : b.len + 1 ≤ bufferCapacity := hroom
  rw [writeByte_eq h hroom]
  constructor
  · exact copyIn_wf h (Nat.le_refl 1) hfit
  · show (b.copyIn [byte] 1).queue = [byte]
    rw [copyIn_queue h (Nat.le_refl 1) hfit, hq]
    rfl

/-- What the critical section of `flush` does: nothing without a flush character, else
the character waits in the ring or goes to UDR1 at once. -/
theorem queueFlush_step (h : Sound s) (hs : step s .queueFlush = some t) :
    s.call = .flush .queue ∧ t.call = .flush .drain ∧ t.asked = s.asked ∧ t.writer.buffer.WF ∧
      (s.writer.flushCharOpt = none ∧ t.hw = s.hw ∧ t.writer.buffer.queue = [] ∨
        ∃ flushChar, s.writer.flushCharOpt = some flushChar ∧
          (s.writer.txIdle = false ∧ t.hw = s.hw ∧ t.writer.buffer.queue = [flushChar] ∧
              t.writer.txIdle = false ∨
            s.writer.txIdle = true ∧ t.hw = s.hw.write flushChar ∧
              t.writer.buffer.queue = [])) := by
  have hs' : s.call = .flush .queue ∧
      t = s.store (UsartWriter.queueFlush ⟨s.ucsr1b, []⟩ s.writer).1
        (UsartWriter.queueFlush ⟨s.ucsr1b, []⟩ s.writer).2 (.flush .drain) := by
    simp only [step] at hs
    split at hs
    · rename_i hc
      cases hs
      exact ⟨hc, rfl⟩
    · cases hs
  obtain ⟨hc, rfl⟩ := hs'
  have hq : s.writer.buffer.queue = [] := h.queue_nil (by simp [hc])
  cases hf : s.writer.flushCharOpt with
  | none =>
    have hstart := startTxIfNeeded_empty (u := ⟨s.ucsr1b, []⟩) (w := s.writer) h.wf hq
    rw [queueFlush_none hf, hstart]
    simp [hc, hq, h.wf]
  | some flushChar =>
    obtain ⟨hwf, hone⟩ := queue_writeByte h.wf hq flushChar
    generalize hb : (s.writer.buffer.writeByte flushChar).2 = b at hwf hone
    rw [queueFlush_some hf, hb]
    by_cases hidle : s.writer.txIdle = true
    · obtain ⟨hwf', hempty⟩ := advance_one hwf hone
      have hkick := startTxIfNeeded_kick (u := ⟨s.ucsr1b, []⟩)
        (w := { s.writer with buffer := b }) hwf hidle hone
      rw [hkick]
      simp [hc, hidle, hwf', hempty]
    · have hbusy : s.writer.txIdle = false := Bool.eq_false_iff.mpr hidle
      rw [startTxIfNeeded_busy (w := { s.writer with buffer := b }) hbusy]
      simp [hc, hwf, hone, hbusy]

/-- A poll of `Usart1CanWrite` finds room and lets the call go on. -/
theorem pollCanWrite_step {waker : Waker} (h : Sound s)
    (hs : step s (.pollCanWrite waker) = some t) :
    s.writer.buffer.queue = [] ∧ t.hw = s.hw ∧ t.writer = s.writer ∧ t.asked = s.asked ∧
      ∀ c, t.call.rest c = s.call.rest c := by
  cases hc : s.call with
  | write buf =>
    have hq : s.writer.buffer.queue = [] := h.queue_nil (by simp [hc])
    simp only [step, hc, UartWrite.await, canWrite_empty h.wf hq] at hs
    cases buf <;> cases hs <;> exact ⟨hq, rfl, rfl, rfl, fun _ => rfl⟩
  | flush f =>
    cases f with
    | canWrite =>
      have hq : s.writer.buffer.queue = [] := h.queue_nil (by simp [hc])
      simp only [step, hc, UartFlush.awaitCanWrite, canWrite_empty h.wf hq] at hs
      cases hs
      exact ⟨hq, rfl, rfl, rfl, fun _ => rfl⟩
    | queue | drain | done => simp [step, hc] at hs
  | idle | sending => simp [step, hc] at hs

/-- A poll of `Usart1TxBufferEmpty` moves no byte, and ends the call on an empty ring. -/
theorem pollDrained_step {waker : Waker} (h : Sound s)
    (hs : step s (.pollDrained waker) = some t) :
    t.hw = s.hw ∧ t.writer.buffer = s.writer.buffer ∧ t.writer.txIdle = s.writer.txIdle ∧
      t.writer.flushCharOpt = s.writer.flushCharOpt ∧ t.asked = s.asked ∧
      (∀ c, t.call.rest c = s.call.rest c) ∧
      (t.call = .flush .drain ∨ s.writer.buffer.queue = []) := by
  have hc : s.call = .flush .drain := by
    simp only [step] at hs
    split at hs
    · assumption
    · cases hs
  rcases txBufferEmpty_keeps (u := ⟨s.ucsr1b, []⟩) h.wf h.busy waker with ⟨hq, hpoll⟩ | hpoll
  · simp only [step, hc, UartFlush.awaitDrained, hpoll] at hs
    cases hs
    exact ⟨rfl, rfl, rfl, rfl, rfl, fun c => by rw [hc]; rfl, .inr hq⟩
  · simp only [step, hc, UartFlush.awaitDrained, hpoll] at hs
    cases hs
    exact ⟨rfl, rfl, rfl, rfl, rfl, fun c => by rw [hc]; rfl, .inl rfl⟩

/-- A turn of the send loop: the next byte of the slice goes to a free UDR1. -/
theorem sendByte_step (h : Sound s) (hs : step s .sendByte = some t) :
    s.writer.buffer.queue = [] ∧ t.writer = s.writer ∧ t.asked = s.asked ∧
      ∃ byte, s.hw.udre1 = true ∧ t.hw = s.hw.write byte ∧
        ∀ c, s.call.rest c = byte :: t.call.rest c := by
  cases hc : s.call with
  | sending byte rest =>
    have hq : s.writer.buffer.queue = [] := h.queue_nil (by simp [hc])
    simp only [step, hc] at hs
    split at hs
    · rename_i hready
      cases rest <;> cases hs <;> exact ⟨hq, rfl, rfl, byte, hready, rfl, fun _ => rfl⟩
    · cases hs
  | idle | write | flush => simp [step, hc] at hs

/-- A call begins: its bytes are asked for and rest with it. -/
theorem begin_step {act : Act} (hact : act = .flush ∨ ∃ buf, act = .write buf)
    (hs : step s act = some t) :
    s.call = .idle ∧ t.call ≠ .flush .drain ∧ t.hw = s.hw ∧ t.writer = s.writer ∧
      t.asked = s.asked ++ t.call.rest s.writer.flushCharOpt := by
  rcases hact with rfl | ⟨buf, rfl⟩
  · simp only [step] at hs
    split at hs
    · rename_i hc
      cases hs
      exact ⟨hc, by simp, rfl, rfl, rfl⟩
    · cases hs
  · cases hc : s.call with
    | idle =>
      cases buf with
      | nil =>
        cases hs.symm.trans (show step s (.write []) = some s by simp [step, hc, UartWrite.enter])
        exact ⟨rfl, by simp [hc], rfl, rfl, by simp [hc, Call.rest]⟩
      | cons byte buf =>
        simp only [step, hc, UartWrite.enter, List.isEmpty_cons, Bool.false_eq_true,
          if_false] at hs
        cases hs
        exact ⟨rfl, by simp, rfl, rfl, rfl⟩
    | write | sending | flush => simp [step, hc] at hs

/-! ## Runs -/

theorem sound_start (ucsr1b : BitVec 8) (flushCharOpt : Option UInt8) :
    Sound (start ucsr1b flushCharOpt) where
  wf := new_wf (by decide)
  queue_nil := fun _ => new_queue
  busy := fun hq => absurd new_queue hq

/-- A step that finds the ring empty and leaves the writer alone. -/
theorem Sound.of_empty (h : Sound s) (hq : s.writer.buffer.queue = []) (hw : t.writer = s.writer) :
    Sound t := by
  rw [← hw] at hq
  exact ⟨hw ▸ h.wf, fun _ => hq, fun hne => absurd hq hne⟩

theorem sound_step {act : Act} (h : Sound s) (hs : step s act = some t) : Sound t := by
  cases act with
  | load =>
    obtain ⟨ht, -, -⟩ := line_step (.inl hs)
    rw [ht]
    exact ⟨h.wf, h.queue_nil, h.busy⟩
  | shiftOut =>
    obtain ⟨ht, -, -⟩ := line_step (.inr hs)
    rw [ht]
    exact ⟨h.wf, h.queue_nil, h.busy⟩
  | usart1Udre =>
    obtain ⟨hcall, -, -, ⟨hq, -, hbuf⟩ | ⟨byte, hq, -, -, hwf, hidle⟩⟩ := usart1Udre_step h hs
    · refine ⟨hbuf ▸ h.wf, ?_, ?_⟩
      · intro _
        rw [hbuf, hq]
      · intro hne
        rw [hbuf] at hne
        exact absurd hq hne
    · have hne : s.writer.buffer.queue ≠ [] := by
        rw [hq]
        exact List.cons_ne_nil _ _
      refine ⟨hwf, ?_, ?_⟩
      · intro hc
        rw [hcall] at hc
        exact absurd (h.queue_nil hc) hne
      · intro _
        rw [hidle, h.busy hne]
  | write buf =>
    obtain ⟨hc, -, -, hw, -⟩ := begin_step (.inr ⟨buf, rfl⟩) hs
    exact h.of_empty (h.queue_nil (by simp [hc])) hw
  | flush =>
    obtain ⟨hc, -, -, hw, -⟩ := begin_step (.inl rfl) hs
    exact h.of_empty (h.queue_nil (by simp [hc])) hw
  | pollCanWrite waker =>
    obtain ⟨hq, -, hw, -, -⟩ := pollCanWrite_step h hs
    exact h.of_empty hq hw
  | sendByte =>
    obtain ⟨hq, hw, -, -⟩ := sendByte_step h hs
    exact h.of_empty hq hw
  | queueFlush =>
    obtain ⟨-, hc, -, hwf, hrest⟩ := queueFlush_step h hs
    refine ⟨hwf, fun hne => absurd hc hne, ?_⟩
    intro hne
    rcases hrest with ⟨-, -, hq⟩ | ⟨_, -, ⟨-, -, -, hbusy⟩ | ⟨-, -, hq⟩⟩
    · exact absurd hq hne
    · exact hbusy
    · exact absurd hq hne
  | pollDrained waker =>
    obtain ⟨-, hbuf, hidle, -, -, -, hc⟩ := pollDrained_step h hs
    refine ⟨hbuf ▸ h.wf, ?_, ?_⟩
    · intro hne
      rw [hbuf]
      exact hc.resolve_left hne
    · intro hne
      rw [hbuf] at hne
      rw [hidle, h.busy hne]

/-- **Step lemma.** A step keeps the order exactly if it does not start a flush on a
transmitter that is idle and not ready. -/
theorem inOrder_step {act : Act} (h : Sound s) (ho : InOrder s) (hs : step s act = some t) :
    InOrder t ↔ KickReady s act := by
  have horder := ho.order
  cases act with
  | load =>
    obtain ⟨ht, hline, hig⟩ := line_step (.inl hs)
    refine iff_of_true ⟨hig.trans ho.ignored, ?_⟩ trivial
    rw [hline, ht, horder]
  | shiftOut =>
    obtain ⟨ht, hline, hig⟩ := line_step (.inr hs)
    refine iff_of_true ⟨hig.trans ho.ignored, ?_⟩ trivial
    rw [hline, ht, horder]
  | usart1Udre =>
    obtain ⟨hcall, hasked, hf, ⟨hq, hhw, hbuf⟩ | ⟨byte, hq, hready, hhw, -, -⟩⟩ :=
      usart1Udre_step h hs
    · refine iff_of_true ⟨hhw ▸ ho.ignored, ?_⟩ trivial
      rw [hhw, hbuf, hcall, hf, hasked, horder]
    · obtain ⟨hig, hline⟩ := write_ready hready byte
      rw [← hhw] at hig hline
      refine iff_of_true ⟨hig.trans ho.ignored, ?_⟩ trivial
      rw [hline, hcall, hf, hasked, ← horder, hq, List.append_assoc s.hw.line]
      rfl
  | write buf =>
    obtain ⟨hc, -, hhw, hw, hasked⟩ := begin_step (.inr ⟨buf, rfl⟩) hs
    refine iff_of_true ⟨hhw ▸ ho.ignored, ?_⟩ trivial
    rw [hc, Call.rest, List.append_nil] at horder
    rw [hhw, hw, hasked, horder]
  | flush =>
    obtain ⟨hc, -, hhw, hw, hasked⟩ := begin_step (.inl rfl) hs
    refine iff_of_true ⟨hhw ▸ ho.ignored, ?_⟩ trivial
    rw [hc, Call.rest, List.append_nil] at horder
    rw [hhw, hw, hasked, horder]
  | pollCanWrite waker =>
    obtain ⟨-, hhw, hw, hasked, hrest⟩ := pollCanWrite_step h hs
    refine iff_of_true ⟨hhw ▸ ho.ignored, ?_⟩ trivial
    rw [hhw, hw, hasked, hrest, horder]
  | sendByte =>
    obtain ⟨hq, hw, hasked, byte, hready, hhw, hrest⟩ := sendByte_step h hs
    obtain ⟨hig, hline⟩ := write_ready hready byte
    rw [← hhw] at hig hline
    refine iff_of_true ⟨hig.trans ho.ignored, ?_⟩ trivial
    rw [hline, hw, hasked, ← horder, hq, hrest, List.append_nil, List.append_nil,
      List.append_assoc]
    rfl
  | queueFlush =>
    obtain ⟨hc, hc', hasked, -, hdone⟩ := queueFlush_step h hs
    have hq : s.writer.buffer.queue = [] := h.queue_nil (by simp [hc])
    rw [hc, hq, List.append_nil, Call.rest] at horder
    rcases hdone with ⟨hf, hhw, hq'⟩ | ⟨flushChar, hf, ⟨hbusy, hhw, hq', -⟩ | ⟨hidle, hhw, hq'⟩⟩
    · refine iff_of_true ⟨hhw ▸ ho.ignored, ?_⟩ (.inl hf)
      rw [hhw, hq', hc', hasked, ← horder, hf, Call.rest, List.append_nil]
      rfl
    · refine iff_of_true ⟨hhw ▸ ho.ignored, ?_⟩ (.inr (.inl hbusy))
      rw [hhw, hq', hc', hasked, ← horder, hf, Call.rest, List.append_nil]
      rfl
    · cases hready : s.hw.udre1 with
      | true =>
        obtain ⟨hig, hline⟩ := write_ready hready flushChar
        rw [← hhw] at hig hline
        refine iff_of_true ⟨hig.trans ho.ignored, ?_⟩ (.inr (.inr hready))
        rw [hline, hq', hc', hasked, ← horder, hf, Call.rest, List.append_nil, List.append_nil]
        rfl
      | false =>
        apply iff_of_false
        · intro ht
          exact write_busy hready flushChar (hhw ▸ ht.ignored)
        · intro hkick
          rcases hkick with hnone | hbusy | hset
          · exact Option.some_ne_none _ (hf.symm.trans hnone)
          · exact Bool.false_ne_true (hbusy.symm.trans hidle)
          · exact Bool.false_ne_true (hready.symm.trans hset)
  | pollDrained waker =>
    obtain ⟨hhw, hbuf, -, hf, hasked, hrest, -⟩ := pollDrained_step h hs
    refine iff_of_true ⟨hhw ▸ ho.ignored, ?_⟩ trivial
    rw [hhw, hbuf, hf, hasked, hrest, horder]

theorem inOrder_start (ucsr1b : BitVec 8) (flushCharOpt : Option UInt8) :
    InOrder (start ucsr1b flushCharOpt) := by
  constructor
  · rfl
  · show [] ++ (ConstCircularBuffer.new bufferCapacity).queue ++ [] = []
    rw [new_queue]
    rfl

/-- **Transmit order, exactly.** On every run on which a flush starts an idle transmitter
only when UDR1 is free no byte is ignored and all leave in the order of the calls, and the
next step keeps that exactly if it does the same. -/
theorem transmits_in_order (ucsr1b : BitVec 8) (flushCharOpt : Option UInt8) (s : State)
    (h : (system ucsr1b flushCharOpt).ReachedWhile KickReady s) :
    InOrder s ∧ ∀ act t, step s act = some t → (InOrder t ↔ KickReady s act) := by
  have hinv : Sound s ∧ InOrder s := by
    refine h.invariant (I := fun s => Sound s ∧ InOrder s) ?_ fun s act t hi hg hs =>
      ⟨sound_step hi.1 hs, (inOrder_step hi.1 hi.2 hs).mpr hg⟩
    rintro s rfl
    exact ⟨sound_start .., inOrder_start ..⟩
  exact ⟨hinv.2, fun act t hs => inOrder_step hinv.1 hinv.2 hs⟩

/-- One byte has left when a flush with a line feed starts. -/
def sentOne : State :=
  ⟨0b10011000, ⟨[1], none, none, []⟩, { UsartWriter.new with flushCharOpt := some 10 },
    .flush .queue, [1, 10]⟩

theorem transmits_in_order_sentOne :
    InOrder sentOne ∧
      ∀ act t, step sentOne act = some t → (InOrder t ↔ KickReady sentOne act) :=
  transmits_in_order 0b10011000 (some 10) sentOne
    (reachedWhile_of_runFun [.write [1], .pollCanWrite 0, .sendByte, .load, .shiftOut, .flush,
      .pollCanWrite 0] (.init rfl) (by decide))

/-- A write of two bytes leaves the second in UDR1, and the flush right after it writes
over that. -/
theorem transmits_in_order_false :
    ¬ ∀ (ucsr1b : BitVec 8) (flushCharOpt : Option UInt8) (s : State),
      (system ucsr1b flushCharOpt).Reachable s → InOrder s := by
  intro h
  obtain ⟨s, hs, hlost⟩ := exists_reachable_of_runFun
    [.write [1, 2], .pollCanWrite 0, .sendByte, .load, .sendByte, .flush, .pollCanWrite 0,
      .queueFlush] (fun s => s.hw.ignored == [10])
    (show (system (AvrUart.init 0) (some 10)).Reachable _ from .init rfl) (by decide)
  have hnone := (h (AvrUart.init 0) (some 10) s hs).ignored
  rw [beq_iff_eq.mp hlost] at hnone
  cases hnone

end AvrBridge.Usart1Transmit
