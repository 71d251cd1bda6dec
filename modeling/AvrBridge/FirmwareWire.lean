import AvrBridge.FirmwareFlow

/-! The line before `USART1_RX`. A byte waits in the receive hardware for the interrupt, which
does not run in a critical section, and `Usart1WriterHandle::write` is in one for a whole message.
The hardware has `depth` places, and a byte that finds none of them free is lost, CTS low or not.
That none is, is what the peer is asked for here beside its stop at CTS. -/

namespace AvrBridge.Firmware

open Rust Lts Tasks Framing

/-- What the peer has sent, what of it is in the hardware, and how much came since CTS went
high. -/
structure Wire where
  sent : List UInt8
  held : List UInt8
  sentHigh : Nat
  deriving DecidableEq, Repr

def Wire.empty : Wire := ⟨[], [], 0⟩

def Wire.send (w : Wire) (depth : Nat) (cts : Bool) (byte : UInt8) : Wire where
  sent := w.sent ++ [byte]
  held := if w.held.length < depth then w.held ++ [byte] else w.held
  sentHigh := if cts then w.sentHigh + 1 else 0

/-- What a step of the program leaves in the hardware: `USART1_RX` is given the oldest byte. -/
def Wire.rest (w : Wire) : Act → Option (List UInt8)
  | .usart1Rx byte => if w.held.head? = some byte then some w.held.tail else none
  | .ft240 _ | .usart1 _ | .usart1Udre => some w.held

/-- A byte that comes while a step of the program runs counts as sent before or behind it. -/
inductive WireAct where
  | send (byte : UInt8)
  | step (act : Act)
  deriving DecidableEq, Repr

def wireStep (p : Profile) (depth : Nat) (x : (State × Trace) × Wire) :
    WireAct → Option ((State × Trace) × Wire)
  | .send byte => some (x.1, x.2.send depth x.1.1.reader.cts byte)
  | .step act => do
      let held ← x.2.rest act
      let y ← tracedStep p x.1 act
      return (y, ⟨x.2.sent, held, if y.1.reader.cts then x.2.sentHigh else 0⟩)

def wire (p : Profile) (depth : Nat) : System ((State × Trace) × Wire) WireAct :=
  .ofFun ((start, .empty), .empty) (wireStep p depth)

/-- The peer sends at most `limit` bytes while CTS is high, and no byte finds the hardware
full. -/
def Arrives (limit depth : Nat) (x : (State × Trace) × Wire) : WireAct → Prop
  | .send _ => (x.1.1.reader.cts = true → x.2.sentHigh < limit) ∧ x.2.held.length < depth
  | .step _ => True

instance (limit depth : Nat) (x : (State × Trace) × Wire) (act : WireAct) :
    Decidable (Arrives limit depth x act) :=
  match act with
  | .send _ => inferInstanceAs (Decidable (_ ∧ _))
  | .step _ => inferInstanceAs (Decidable True)

/-- While CTS is high the bytes it was given since and those that wait are the ones sent since
and at most a full hardware. -/
structure Waits (limit depth : Nat) (cts : Bool) (tr : Trace) (w : Wire) : Prop where
  sent : w.sent = tr.received ++ w.held
  fits : w.held.length ≤ depth
  stopped : w.sentHigh ≤ limit
  credit : cts = true → tr.sinceHigh + w.held.length ≤ w.sentHigh + depth

section Steps

variable {p : Profile} {limit depth : Nat} {s t : State} {tr : Trace} {w : Wire}

theorem waits_send {byte : UInt8} (h : Waits limit depth s.reader.cts tr w)
    (hg : Arrives limit depth ((s, tr), w) (.send byte)) :
    Waits limit depth s.reader.cts tr (w.send depth s.reader.cts byte) := by
  obtain ⟨hstops, hroom⟩ := hg
  have hheld : (w.send depth s.reader.cts byte).held = w.held ++ [byte] := if_pos hroom
  have hlen : (w.send depth s.reader.cts byte).held.length = w.held.length + 1 := by
    rw [hheld, List.length_append, List.length_singleton]
  cases hcts : s.reader.cts with
  | false =>
    rw [hcts] at hheld hlen
    constructor
    · rw [hheld, ← List.append_assoc, ← h.sent]
      rfl
    · rw [hlen]
      exact hroom
    · exact Nat.zero_le limit
    · exact nofun
  | true =>
    have hhigh : (w.send depth true byte).sentHigh = w.sentHigh + 1 := rfl
    have hcredit := h.credit hcts
    have hlimit := hstops hcts
    rw [hcts] at hheld hlen
    constructor
    · rw [hheld, ← List.append_assoc, ← h.sent]
      rfl
    · rw [hlen]
      exact hroom
    · rw [hhigh]
      exact hlimit
    · intro _
      rw [hlen, hhigh]
      omega

/-- Only `USART1_RX` raises CTS, and no other step counts. -/
theorem high_of_high (tr : Trace) {act : Act} (hwf : s.reader.buffer.WF)
    (hs : step p s act = some t) (hcts : t.reader.cts = true) :
    (∃ byte, act = .usart1Rx byte) ∨
      (s.reader.cts = true ∧ countSince tr.sinceHigh s act t = tr.sinceHigh) := by
  cases act with
  | ft240 act =>
    rw [(ft240Step_spares hs).reader] at hcts
    exact .inr ⟨hcts, rfl⟩
  | usart1 act =>
    right
    obtain ⟨rfl, c, hreader⟩ | ⟨hne, -, hkeeps⟩ := usart1Step_reader hs
    · obtain ⟨-, -, hserve⟩ := UsartReader.serve_spec hwf c
      rw [← hreader, hcts] at hserve
      constructor
      · split at hserve
        · cases hserve
        · exact hserve.symm
      · exact if_pos hcts
    · rw [hkeeps] at hcts
      refine ⟨hcts, ?_⟩
      cases act with
      | take => exact absurd rfl hne
      | canWrite _ | strobe _ | request _ | canRead _ | compose => rfl
  | usart1Rx byte => exact .inl ⟨byte, rfl⟩
  | usart1Udre =>
    right
    simp only [step] at hs
    split at hs
    · cases hs
    · cases hs
      exact ⟨hcts, rfl⟩

theorem wireStep_eq_some {act : Act} {y : (State × Trace) × Wire} :
    wireStep p depth ((s, tr), w) (.step act) = some y ↔
      ∃ held t, w.rest act = some held ∧ step p s act = some t ∧
        y = ((t, tr.record s act t), ⟨w.sent, held, if t.reader.cts then w.sentHigh else 0⟩) := by
  simp only [wireStep]
  rw [Option.bind_eq_bind, Option.bind_eq_some_iff]
  constructor
  · rintro ⟨held, hheld, hy⟩
    obtain ⟨z, hz, hy⟩ := Option.bind_eq_some_iff.mp hy
    obtain ⟨t, ht, rfl⟩ := tracedStep_eq_some.mp hz
    exact ⟨held, t, hheld, ht, (Option.some.inj hy).symm⟩
  · rintro ⟨held, t, hheld, ht, rfl⟩
    refine ⟨held, hheld, ?_⟩
    rw [tracedStep_eq_some.mpr ⟨t, ht, rfl⟩]
    rfl

/-- A step that leaves the hardware alone. -/
theorem waits_keeps {act : Act} (h : Waits limit depth s.reader.cts tr w)
    (hcomes : comes act = [])
    (hhigh : t.reader.cts = true →
      s.reader.cts = true ∧ countSince tr.sinceHigh s act t = tr.sinceHigh) :
    Waits limit depth t.reader.cts (tr.record s act t)
      ⟨w.sent, w.held, if t.reader.cts then w.sentHigh else 0⟩ := by
  constructor
  · rw [Trace.record, hcomes, List.append_nil]
    exact h.sent
  · exact h.fits
  · have hstopped := h.stopped
    dsimp only
    split <;> omega
  · intro hcts
    obtain ⟨hbefore, hsince⟩ := hhigh hcts
    have hcredit := h.credit hbefore
    rw [Trace.record, hsince, if_pos hcts]
    exact hcredit

theorem waits_step {act : Act} {held : List UInt8} (hwf : s.reader.buffer.WF)
    (h : Waits limit depth s.reader.cts tr w) (hheld : w.rest act = some held)
    (hs : step p s act = some t) :
    Waits limit depth t.reader.cts (tr.record s act t)
      ⟨w.sent, held, if t.reader.cts then w.sentHigh else 0⟩ := by
  cases act with
  | usart1Rx byte =>
    obtain ⟨hhead, rfl⟩ : w.held.head? = some byte ∧ w.held.tail = held := by
      simpa only [Wire.rest, Option.ite_none_right_eq_some, Option.some.injEq] using hheld
    have hcons := List.eq_cons_of_mem_head? hhead
    have hlen := congrArg List.length hcons
    rw [List.length_cons] at hlen
    have hfits := h.fits
    have hstopped := h.stopped
    constructor
    · show w.sent = tr.received ++ [byte] ++ w.held.tail
      rw [List.append_assoc, List.singleton_append, ← hcons]
      exact h.sent
    · dsimp only
      omega
    · dsimp only
      split <;> omega
    · intro hcts
      show (if s.reader.cts && t.reader.cts then tr.sinceHigh + 1 else 0) + w.held.tail.length ≤
        (if t.reader.cts then w.sentHigh else 0) + depth
      cases hbefore : s.reader.cts with
      | false =>
        rw [Bool.false_and, if_neg Bool.false_ne_true]
        omega
      | true =>
        have hcredit := h.credit hbefore
        rw [hcts, Bool.and_self, if_pos rfl, if_pos rfl]
        omega
  | ft240 _ | usart1 _ | usart1Udre =>
    cases hheld
    apply waits_keeps h rfl
    intro hcts
    obtain ⟨_, hact⟩ | hkept := high_of_high tr hwf hs hcts
    · cases hact
    · exact hkept

/-- What waits still finds its place in the ring. -/
theorem Waits.peerStops {act : Act} {held : List UInt8} (hfit : limit + depth ≤ 15)
    (h : Waits limit depth s.reader.cts tr w) (hheld : w.rest act = some held) :
    PeerStops (s, tr) act := by
  cases act with
  | usart1Rx byte =>
    intro hcts
    obtain ⟨hhead, -⟩ : w.held.head? = some byte ∧ w.held.tail = held := by
      simpa only [Wire.rest, Option.ite_none_right_eq_some, Option.some.injEq] using hheld
    have hlen := congrArg List.length (List.eq_cons_of_mem_head? hhead)
    rw [List.length_cons] at hlen
    have hcredit := h.credit hcts
    have hstopped := h.stopped
    show tr.sinceHigh < 15
    omega
  | ft240 _ | usart1 _ | usart1Udre => trivial

end Steps

/-- **From the line to the frames.** The peer sends at most `limit` bytes while CTS is high, and
the receive hardware of `depth` places is never full when a byte comes: `USART1_RX` is never kept
waiting for longer. If the two make at most 15, no byte is lost in any such run: what the peer has
sent are the bytes taken off the ring, those in it and those in the hardware, in this order, and
the frames received are the frames of the stream. -/
theorem frames_of_polite_peer (p : Profile) (limit depth : Nat) (s : State) (tr : Trace)
    (w : Wire) (hfit : limit + depth ≤ 15)
    (h : (wire p depth).ReachedWhile (Arrives limit depth) ((s, tr), w)) :
    ∃ taken, w.sent = taken ++ s.reader.buffer.queue ++ w.held ∧
      frames tr.events = (cut endsFrame bufferSize taken).1 := by
  have hboth : (traced p).ReachedWhile PeerStops (s, tr) ∧
      Waits limit depth s.reader.cts tr w := by
    refine h.invariant (I := fun x => (traced p).ReachedWhile PeerStops x.1 ∧
      Waits limit depth x.1.1.reader.cts x.1.2 x.2) ?_ ?_
    · rintro x rfl
      refine ⟨.init rfl, rfl, Nat.zero_le depth, Nat.zero_le limit, nofun⟩
    · rintro ⟨⟨s, tr⟩, w⟩ act y ⟨hrun, hwaits⟩ hg hy
      cases act with
      | send byte =>
        cases hy
        exact ⟨hrun, waits_send hwaits hg⟩
      | step act =>
        obtain ⟨held, t, hheld, ht, rfl⟩ := wireStep_eq_some.mp hy
        obtain ⟨-, ⟨_, _, hlossless⟩, -⟩ := polite_of_stops hrun
        constructor
        · exact hrun.step (hwaits.peerStops hfit hheld) (tracedStep_eq_some.mpr ⟨t, ht, rfl⟩)
        · exact waits_step hlossless.bounded.wf hwaits hheld ht
  obtain ⟨hrun, hwaits⟩ := hboth
  obtain ⟨taken, hreceived, hframes⟩ := frames_of_stops hrun
  use taken
  constructor
  · rw [hwaits.sent, hreceived]
  · exact hframes

/-- A short line, then more than the ring takes with CTS low: CTS goes high, two more bytes come
and one of them is still in the hardware. -/
def pastCts : List WireAct :=
  [.step (.usart1 (.canWrite ⟨false, true, true⟩)), .step (.usart1 (.request 0)),
    .step (.usart1 (.request 0)), .send 104, .send 10, .step (.usart1Rx 104),
    .step (.usart1Rx 10), .step (.usart1 (.canRead 0)), .step (.usart1 .take)] ++
  (List.replicate 49 [.send 97, .step (.usart1Rx 97)]).flatten ++
  [.send 98, .send 99, .step (.usart1Rx 98)]

theorem frames_of_polite_peer_pastCts :
    ∃ s tr w, (wire .dev 2).ReachedWhile (Arrives 13 2) ((s, tr), w) ∧
      (s.reader.cts = true ∧ w.held = [99] ∧ tr.events = [.frame [104, 10] (.ok (.complete 2))]) ∧
      ∃ taken, w.sent = taken ++ s.reader.buffer.queue ++ w.held ∧
        frames tr.events = (cut endsFrame bufferSize taken).1 := by
  obtain ⟨⟨⟨s, tr⟩, w⟩, hs, hlast⟩ := exists_reachedWhile_of_runFun pastCts
    (fun x => x.1.1.reader.cts && (x.2.held == [99]) &&
      (x.1.2.events == [.frame [104, 10] (.ok (.complete 2))]))
    (show (wire .dev 2).ReachedWhile (Arrives 13 2) ((start, .empty), .empty) from .init rfl)
    (by decide +kernel)
  simp only [Bool.and_eq_true, beq_iff_eq] at hlast
  exact ⟨s, tr, w, hs, ⟨hlast.1.1, hlast.1.2, hlast.2⟩,
    frames_of_polite_peer .dev 13 2 s tr w (by decide) hs⟩

/-- A byte that finds the hardware full is lost, with CTS low: the interrupt has not run yet. -/
theorem not_carried_overrun :
    ∃ s tr w, (wire .dev 2).Reachable ((s, tr), w) ∧ s.reader.cts = false ∧
      w.sent = [1, 2, 3] ∧ tr.received ++ w.held = [1, 2] := by
  obtain ⟨⟨⟨s, tr⟩, w⟩, hs, hlast⟩ := exists_reachable_of_runFun [.send 1, .send 2, .send 3]
    (fun x => !x.1.1.reader.cts && x.2.sent == [1, 2, 3] && x.1.2.received ++ x.2.held == [1, 2])
    (show (wire .dev 2).Reachable ((start, .empty), .empty) from .init rfl) (by decide +kernel)
  simp only [Bool.and_eq_true, Bool.not_eq_true', beq_iff_eq] at hlast
  exact ⟨s, tr, w, hs, hlast.1.1, hlast.1.2, hlast.2⟩

end AvrBridge.Firmware
