import AvrBridge.AvrUart
import AvrBridge.Lts

/-! Who writes UCSR1B. `init` and `start_tx_if_needed` modify the bits they name, but the
routine of the empty data register stores the reset value when the ring has run dry,
and with UDRIE1 the enables of the receiver and the transmitter go. -/

namespace AvrBridge.UsartWriter

namespace Control

open Rust Lts

structure State where
  uart : Usart1
  writer : UsartWriter
  deriving DecidableEq, Repr

inductive Op where
  | canWrite (waker : Waker)
  | queueFlush
  | txBufferEmpty (waker : Waker)
  | usart1Udre
  deriving DecidableEq, Repr

/-- The two polls, the critical section of `flush` and the routine, in any order; the
routine runs only while UDRIE1 is set. -/
def step (s : State) : Op → Option State
  | .canWrite waker =>
      let (_, uart, writer) := canWrite s.uart s.writer waker
      some ⟨uart, writer⟩
  | .queueFlush =>
      let (uart, writer) := queueFlush s.uart s.writer
      some ⟨uart, writer⟩
  | .txBufferEmpty waker =>
      let (_, uart, writer) := txBufferEmpty s.uart s.writer waker
      some ⟨uart, writer⟩
  | .usart1Udre =>
      if s.uart.ucsr1b &&& udrie1 = 0 then none
      else
        let (_, uart, writer) := usart1Udre s.uart s.writer
        some ⟨uart, writer⟩

/-- The runs after `init`, from any register and any writer. -/
def system (ucsr1b : BitVec 8) (writer : UsartWriter) : System State Op :=
  .ofFun ⟨⟨AvrUart.init ucsr1b, []⟩, writer⟩ step

/-- No bit of UCSR1B but UDRIE1 differs from what `init` left. -/
def Kept (ucsr1b : BitVec 8) (s : State) : Prop :=
  ∀ i, i ≠ 5 → s.uart.ucsr1b.getLsbD i = (AvrUart.init ucsr1b).getLsbD i

/-- The routine finds a byte in the ring. -/
def FindsByte (s : State) : Op → Prop
  | .usart1Udre => s.writer.buffer.isEmpty = false
  | _ => True

instance (s : State) (op : Op) : Decidable (FindsByte s op) :=
  match op with
  | .usart1Udre => inferInstanceAs (Decidable (_ = _))
  | .canWrite _ | .queueFlush | .txBufferEmpty _ => inferInstanceAs (Decidable True)

/-! ## What each access does to the register -/

theorem getLsbD_udrie1 {i : Nat} (hi : i ≠ 5) : udrie1.getLsbD i = false := by
  rw [udrie1, ← BitVec.twoPow_eq, BitVec.getLsbD_twoPow]
  simp [Ne.symm hi]

theorem startTxIfNeeded_ucsr1b (u : Usart1) (w : UsartWriter) :
    (startTxIfNeeded u w).1.ucsr1b = u.ucsr1b ∨
      (startTxIfNeeded u w).1.ucsr1b = u.ucsr1b ||| udrie1 := by
  unfold startTxIfNeeded
  split
  · split
    · exact .inr rfl
    · exact .inl rfl
  · exact .inl rfl

theorem canWrite_ucsr1b (u : Usart1) (w : UsartWriter) (waker : Waker) :
    (canWrite u w waker).2.1.ucsr1b = u.ucsr1b ∨
      (canWrite u w waker).2.1.ucsr1b = u.ucsr1b ||| udrie1 := by
  unfold canWrite
  split
  · exact .inl rfl
  · exact startTxIfNeeded_ucsr1b u w

theorem txBufferEmpty_ucsr1b (u : Usart1) (w : UsartWriter) (waker : Waker) :
    (txBufferEmpty u w waker).2.1.ucsr1b = u.ucsr1b ∨
      (txBufferEmpty u w waker).2.1.ucsr1b = u.ucsr1b ||| udrie1 := by
  unfold txBufferEmpty
  split
  · exact .inl rfl
  · exact startTxIfNeeded_ucsr1b u w

theorem usart1Udre_ucsr1b (u : Usart1) (w : UsartWriter) :
    (usart1Udre u w).2.1.ucsr1b = if w.buffer.isEmpty then 0 else u.ucsr1b := by
  unfold usart1Udre ConstCircularBuffer.readByte
  cases w.buffer.isEmpty <;> rfl

/-! ## Runs -/

variable {ucsr1b : BitVec 8} {s t : State} {op : Op}

/-- **What a step does to UCSR1B**: it sets UDRIE1 or leaves it, unless the routine finds
the ring empty. -/
theorem step_ucsr1b (hs : step s op = some t) :
    FindsByte s op ∧ (t.uart.ucsr1b = s.uart.ucsr1b ∨ t.uart.ucsr1b = s.uart.ucsr1b ||| udrie1) ∨
      ¬ FindsByte s op ∧ t.uart.ucsr1b = 0 := by
  cases op with
  | canWrite waker =>
    cases hs
    exact .inl ⟨trivial, canWrite_ucsr1b s.uart s.writer waker⟩
  | queueFlush =>
    cases hs
    exact .inl ⟨trivial, startTxIfNeeded_ucsr1b s.uart _⟩
  | txBufferEmpty waker =>
    cases hs
    exact .inl ⟨trivial, txBufferEmpty_ucsr1b s.uart s.writer waker⟩
  | usart1Udre =>
    simp only [step] at hs
    split at hs
    · cases hs
    · cases hs
      have hreg := usart1Udre_ucsr1b s.uart s.writer
      cases hempty : s.writer.buffer.isEmpty with
      | false =>
        rw [hempty, if_neg Bool.false_ne_true] at hreg
        exact .inl ⟨hempty, .inl hreg⟩
      | true =>
        rw [hempty, if_pos rfl] at hreg
        exact .inr ⟨fun hfinds => Bool.false_ne_true (hfinds.symm.trans hempty), hreg⟩

/-- What `init` enables. -/
theorem getLsbD_init {i : Nat} (hi : i = 7 ∨ i = 4 ∨ i = 3) :
    (AvrUart.init ucsr1b).getLsbD i = true := by
  rcases hi with rfl | rfl | rfl <;>
    simp [AvrUart.init, rxcie1, txcie1, udrie1, rxen1, txen1, ucsz12]

/-- **Step lemma.** -/
theorem kept_step_iff (h : Kept ucsr1b s) (hs : step s op = some t) :
    Kept ucsr1b t ↔ FindsByte s op := by
  rcases step_ucsr1b hs with ⟨hfinds, hreg⟩ | ⟨hdry, hreg⟩
  · refine iff_of_true (fun i hi => ?_) hfinds
    rcases hreg with hreg | hreg
    · rw [hreg, h i hi]
    · rw [hreg, BitVec.getLsbD_or, getLsbD_udrie1 hi, Bool.or_false, h i hi]
  · refine iff_of_false (fun hkept => ?_) hdry
    have hrx := (hkept 7 (by decide)).trans (getLsbD_init (by decide))
    rw [hreg] at hrx
    cases hrx

/-- The receiver with its interrupt and the transmitter are enabled. -/
structure Enabled (s : State) : Prop where
  rxcie1 : s.uart.ucsr1b.getLsbD 7 = true
  rxen1 : s.uart.ucsr1b.getLsbD 4 = true
  txen1 : s.uart.ucsr1b.getLsbD 3 = true

theorem Kept.enabled (h : Kept ucsr1b s) : Enabled s where
  rxcie1 := (h 7 (by decide)).trans (getLsbD_init (by decide))
  rxen1 := (h 4 (by decide)).trans (getLsbD_init (by decide))
  txen1 := (h 3 (by decide)).trans (getLsbD_init (by decide))

/-- **UCSR1B, exactly.** On every run whose routines all find a byte in the ring only
UDRIE1 changes, and the next step keeps that exactly if it is no routine on an empty
ring. -/
theorem only_udrie1_changes (ucsr1b : BitVec 8) (writer : UsartWriter) (s : State)
    (h : (system ucsr1b writer).ReachedWhile FindsByte s) :
    Kept ucsr1b s ∧ Enabled s ∧
      ∀ op t, step s op = some t → (Kept ucsr1b t ↔ FindsByte s op) := by
  have hkept : Kept ucsr1b s := by
    refine h.invariant ?_ fun s op t hi hg hs => (kept_step_iff hi hs).mpr hg
    rintro s rfl i -
    rfl
  exact ⟨hkept, hkept.enabled, fun op t hs => kept_step_iff hkept hs⟩

/-- A writer that flushes with a line feed and has two bytes in its ring. -/
def twoQueued : UsartWriter :=
  ⟨some 10, (((ConstCircularBuffer.new 64).writeByte 1).2.writeByte 2).2, none, true⟩

/-- `twoQueued` after a flush and one routine. -/
def flushedOnce : State :=
  ⟨⟨0b10111000, [1, 2]⟩, ⟨some 10, ⟨2, 3, 1, [1, 2, 10] ++ List.replicate 61 0⟩, none, false⟩⟩

theorem only_udrie1_changes_twoQueued :
    Kept 0 flushedOnce ∧ Enabled flushedOnce ∧
      ∀ op t, step flushedOnce op = some t → (Kept 0 t ↔ FindsByte flushedOnce op) :=
  only_udrie1_changes 0 twoQueued flushedOnce
    (reachedWhile_of_runFun [.queueFlush, .usart1Udre] (.init rfl) (by decide))

/-- A flush with an empty ring sends the flush character, and the routine after it finds
nothing. -/
theorem only_udrie1_changes_false :
    ¬ ∀ (ucsr1b : BitVec 8) (writer : UsartWriter) (s : State),
      (system ucsr1b writer).Reachable s → Kept ucsr1b s := by
  intro h
  obtain ⟨s, hs, hreg⟩ := exists_reachable_of_runFun
    [.canWrite 0, .queueFlush, .txBufferEmpty 0, .usart1Udre] (fun s => s.uart.ucsr1b == 0)
    (show (system 0 ⟨some 10, .new 64, none, true⟩).Reachable _ from .init rfl) (by decide)
  have hkept := h 0 ⟨some 10, .new 64, none, true⟩ s hs 7 (by decide)
  rw [beq_iff_eq.mp hreg] at hkept
  exact absurd hkept (by decide)

end Control

end AvrBridge.UsartWriter
