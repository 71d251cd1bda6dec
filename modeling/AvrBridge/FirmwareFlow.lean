import AvrBridge.FirmwareFrames

/-! CTS in the whole program. To the reader a run of the program is a run of its flow control:
the receive interrupt, the critical sections of `try_read_to`, and steps that keep the ring and
the pin. So what `USART1_RX` is given reaches the frames, if that is little enough behind the edge
of CTS. -/

namespace AvrBridge.Firmware

open Rust Lts Tasks Framing

/-- `USART1_RX` is given at most 15 bytes while CTS is high. -/
def PeerStops (x : State × Trace) : Act → Prop
  | .usart1Rx _ => x.1.reader.cts = true → x.2.sinceHigh < 15
  | .ft240 _ | .usart1 _ | .usart1Udre => True

instance (x : State × Trace) (act : Act) : Decidable (PeerStops x act) :=
  match act with
  | .usart1Rx _ => inferInstanceAs (Decidable (_ → _))
  | .ft240 _ | .usart1 _ | .usart1Udre => inferInstanceAs (Decidable True)

/-- The reader of the program as a state of its flow control. -/
def flow (s : State) (tr : Trace) (returned : List UInt8) (future : UsartReader.Future) :
    UsartReader.State :=
  ⟨s.reader, future, tr.received, returned, tr.sinceHigh⟩

/-- What the reader owes to a peer that stops in time. -/
structure Polite (s : State) (tr : Trace) : Prop where
  lossless : ∃ returned future, UsartReader.Lossless (flow s tr returned future)
  accepted : tr.accepted = tr.received

section Steps

variable {p : Profile} {s t : State} {tr : Trace}

/-- The critical section of `try_read_to` in the loop of `read_to`. -/
theorem serve_reader {r r' : UsartReader} {buf buf' : List UInt8} {total : Nat}
    {future : UartReadTo} (h : UartReadTo.serve r term buf total = .ok (future, r', buf')) :
    ∃ c, r' = (r.serve c).2 := by
  obtain ⟨rest, hrest, h⟩ := bind_eq_ok.mp h
  refine ⟨.tryReadTo term rest, ?_⟩
  generalize hout : r.takeTo term rest = out at h
  obtain ⟨result, r'', rest'⟩ := out
  have hserve : (r.serve (.tryReadTo term rest)).2 = r'' := by
    simp only [UsartReader.serve, hout]
    cases result <;> rfl
  rw [hserve]
  cases result with
  | error e =>
    cases h
    rfl
  | ok status =>
    cases status with
    | partialRead len =>
      obtain ⟨next, hnext, h⟩ := bind_eq_ok.mp h
      cases h
      rfl
    | complete len =>
      cases h
      rfl
    | bufferFull len =>
      cases h
      rfl

/-- What a step of the task does to the reader. -/
theorem usart1Step_reader {act : Usart1Act} (hs : usart1Step p s act = some t) :
    (act = .take ∧ ∃ c, t.reader = (s.reader.serve c).2) ∨
      (act ≠ .take ∧ t.reader.buffer = s.reader.buffer ∧ t.reader.cts = s.reader.cts) := by
  unfold usart1Step at hs
  split at hs
  case h_1 =>
    cases hs
    exact .inr ⟨nofun, rfl, rfl⟩
  case h_2 =>
    obtain ⟨⟨byte, w⟩, -, hs⟩ := Option.bind_eq_some_iff.mp hs
    cases hs
    exact .inr ⟨nofun, rfl, rfl⟩
  case h_3 =>
    obtain ⟨⟨storage, pool⟩, -, hs⟩ := Option.bind_eq_some_iff.mp hs
    cases hs
    exact .inr ⟨nofun, rfl, rfl⟩
  case h_4 =>
    obtain ⟨⟨storage, pool⟩, -, hs⟩ := Option.bind_eq_some_iff.mp hs
    cases storage with
    | none =>
      cases hs
      exact .inr ⟨nofun, rfl, rfl⟩
    | some tx =>
      obtain ⟨task, -, hs⟩ := Option.bind_eq_some_iff.mp hs
      cases hs
      exact .inr ⟨nofun, rfl, rfl⟩
  case h_5 w rx tx total _ =>
    have hkeeps : (UartReadTo.await s.reader w total).2 = (s.reader.canRead w).2 := by
      unfold UartReadTo.await
      split <;> rename_i heq <;> rw [heq]
    cases hs
    obtain ⟨hbuffer, hcts⟩ := s.reader.canRead_keeps w
    rw [← hkeeps] at hbuffer hcts
    exact .inr ⟨nofun, hbuffer, hcts⟩
  case h_6 =>
    obtain ⟨row, -, hs⟩ := Option.bind_eq_some_iff.mp hs
    obtain ⟨⟨r, reader, row'⟩, hserve, hs⟩ := Option.bind_eq_some_iff.mp hs
    cases hs
    exact .inl ⟨rfl, serve_reader (toOption_eq_some.mp hserve)⟩
  case h_7 =>
    obtain ⟨row, -, hs⟩ := Option.bind_eq_some_iff.mp hs
    obtain ⟨f, -, hs⟩ := Option.bind_eq_some_iff.mp hs
    obtain ⟨f', -, hs⟩ := Option.bind_eq_some_iff.mp hs
    obtain ⟨buf, -, hs⟩ := Option.bind_eq_some_iff.mp hs
    dsimp only at hs
    split at hs
    · obtain ⟨task, -, hs⟩ := Option.bind_eq_some_iff.mp hs
      cases hs
      exact .inr ⟨nofun, rfl, rfl⟩
    · cases hs
      exact .inr ⟨nofun, rfl, rfl⟩
  case h_8 =>
    dsimp only at hs
    split at hs
    · obtain ⟨task, -, hs⟩ := Option.bind_eq_some_iff.mp hs
      cases hs
      exact .inr ⟨nofun, rfl, rfl⟩
    · cases hs
      exact .inr ⟨nofun, rfl, rfl⟩
  case h_9 =>
    obtain ⟨buf, -, hs⟩ := Option.bind_eq_some_iff.mp hs
    obtain ⟨⟨byte, w⟩, -, hs⟩ := Option.bind_eq_some_iff.mp hs
    dsimp only at hs
    split at hs
    · obtain ⟨task, -, hs⟩ := Option.bind_eq_some_iff.mp hs
      cases hs
      exact .inr ⟨nofun, rfl, rfl⟩
    · cases hs
      exact .inr ⟨nofun, rfl, rfl⟩
  case h_10 => cases hs

/-- A step that keeps the ring and the pin, and brings no byte. -/
theorem polite_keeps {ur : Trace} (h : Polite s tr) (hbuffer : t.reader.buffer = s.reader.buffer)
    (hcts : t.reader.cts = s.reader.cts) (hreceived : ur.received = tr.received)
    (hsince : ur.sinceHigh = tr.sinceHigh) (haccepted : ur.accepted = tr.accepted) :
    Polite t ur := by
  obtain ⟨⟨returned, future, hbounded, hconserved, hcredit⟩, hall⟩ := h
  refine ⟨⟨returned, future, ⟨?_, ?_, ?_⟩, ?_, ?_⟩, ?_⟩
  · show t.reader.buffer.WF
    rw [hbuffer]
    exact hbounded.wf
  · show t.reader.cts = false → 16 ≤ t.reader.buffer.freeSpace
    rw [hbuffer, hcts]
    exact hbounded.low
  · show t.reader.cts = true → t.reader.buffer.freeSpace ≤ 32
    rw [hbuffer, hcts]
    exact hbounded.high
  · show returned ++ t.reader.buffer.queue = ur.received
    rw [hbuffer, hreceived]
    exact hconserved
  · show t.reader.cts = true → 15 ≤ t.reader.buffer.freeSpace + ur.sinceHigh
    rw [hbuffer, hcts, hsince]
    exact hcredit
  · rw [haccepted, hreceived, hall]

theorem polite_step {act : Act} (hinv : Inv s) (h : Polite s tr) (hg : PeerStops (s, tr) act)
    (hs : step p s act = some t) : Polite t (tr.record s act t) := by
  cases act with
  | ft240 act =>
    have hreader := (ft240Step_spares hs).reader
    exact polite_keeps h (by rw [hreader]) (by rw [hreader]) (List.append_nil _) rfl
      (List.append_nil _)
  | usart1 act =>
    obtain ⟨rfl, c, hreader⟩ | ⟨hne, hbuffer, hcts⟩ := usart1Step_reader hs
    · obtain ⟨⟨returned, future, hlossless⟩, hall⟩ := h
      -- the critical section is the one of the flow control, from its own waiting place
      have hwaits : UsartReader.Lossless (flow s tr returned (.take c)) :=
        ⟨hlossless.bounded, hlossless.conserved, hlossless.credit⟩
      let served : UsartReader.State :=
        ⟨(s.reader.serve c).2, .idle, tr.received, returned ++ (s.reader.serve c).1,
          if (s.reader.serve c).2.cts then tr.sinceHigh else 0⟩
      have hserve : UsartReader.step (flow s tr returned (.take c)) .serve = some served := by
        simp only [UsartReader.step, flow]
        rfl
      have hserved := UsartReader.lossless_step (a := .serve) hwaits trivial hserve
      refine ⟨⟨returned ++ (s.reader.serve c).1, .idle, ?_⟩, ?_⟩
      · have hreceived : (tr.record s (.usart1 .take) t).received = tr.received :=
          List.append_nil _
        have hsince : (tr.record s (.usart1 .take) t).sinceHigh =
            if t.reader.cts then tr.sinceHigh else 0 := rfl
        rw [flow, hreceived, hsince, hreader]
        exact hserved
      · show tr.accepted ++ [] = tr.received ++ []
        rw [hall]
    · refine polite_keeps h hbuffer hcts (List.append_nil _) ?_ (List.append_nil _)
      cases act with
      | take => exact absurd rfl hne
      | canWrite _ | strobe _ | request _ | canRead _ | compose => rfl
  | usart1Rx byte =>
    cases hs
    obtain ⟨⟨returned, future, hlossless⟩, hall⟩ := h
    have hstops : UsartReader.PeerStops (flow s tr returned future) (.receive byte) := hg
    have hroom := hlossless.room hstops
    have hreceived := UsartReader.lossless_step (a := .receive byte) hlossless hg rfl
    refine ⟨⟨returned, future, hreceived⟩, ?_⟩
    have hstored : accepts s (.usart1Rx byte) = [byte] := by
      rw [accepts, if_neg]
      rw [ConstCircularBuffer.isFull_iff]
      exact Nat.ne_of_lt hroom
    show tr.accepted ++ accepts s (.usart1Rx byte) = tr.received ++ [byte]
    rw [hstored, hall]
  | usart1Udre =>
    have hoff : initUcsr1b &&& udrie1 = 0 := by decide
    rw [step, hinv.ucsr1b, if_pos hoff] at hs
    cases hs

end Steps

theorem polite_start : Polite start .empty :=
  ⟨⟨[], .idle, UsartReader.bounded_new, rfl, nofun⟩, rfl⟩

theorem polite_of_stops {p : Profile} {s : State} {tr : Trace}
    (h : (traced p).ReachedWhile PeerStops (s, tr)) : Inv s ∧ Polite s tr := by
  refine h.invariant (I := fun x => Inv x.1 ∧ Polite x.1 x.2) ?_ ?_
  · rintro x rfl
    exact ⟨inv_start, polite_start⟩
  · rintro ⟨s, tr⟩ act y ⟨hinv, hpolite⟩ hg hy
    obtain ⟨t, ht, rfl⟩ := tracedStep_eq_some.mp hy
    exact ⟨inv_step hinv ht, polite_step hinv hpolite hg ht⟩

/-- With such a peer the bytes that `USART1_RX` was given are those taken off the ring and those
in it, and the frames received are the frames of the stream. -/
theorem frames_of_stops {p : Profile} {s : State} {tr : Trace}
    (h : (traced p).ReachedWhile PeerStops (s, tr)) :
    ∃ taken, tr.received = taken ++ s.reader.buffer.queue ∧
      frames tr.events = (cut endsFrame bufferSize taken).1 := by
  obtain ⟨a, hacc, haccepted, hevents⟩ := accounts_of_traced h.reachable
  use a.taken
  constructor
  · rw [← (polite_of_stops h).2.accepted, haccepted]
  · rw [hevents, frames_events, hacc.cut_taken]

end AvrBridge.Firmware
