import AvrBridge.AvrUart
import AvrBridge.ConstRefinement
import AvrBridge.Lts

/-! CTS against the receive ring. The routine raises CTS when fewer than 16 places
are free, a reader lowers it when more than 32 are: between the two the pin keeps its
level. While it is high the places left and the bytes that came since make up 15. -/

namespace AvrBridge.UsartReader

open Rust Lts ConstCircularBuffer

/-! ## What a routine and a critical section do -/

variable {r : UsartReader}

theorem usart1Rx_of_room (h : r.buffer.WF) (hroom : r.buffer.len < bufferCapacity) (byte : UInt8) :
    (r.usart1Rx byte).2.buffer.WF ∧
      (r.usart1Rx byte).2.buffer.queue = r.buffer.queue ++ [byte] := by
  rw [usart1Rx, writeByte_eq h hroom]
  exact ⟨copyIn_wf h (Nat.le_refl 1) hroom, copyIn_queue h (Nat.le_refl 1) hroom⟩

theorem usart1Rx_of_full (hfull : r.buffer.len = bufferCapacity) (byte : UInt8) :
    (r.usart1Rx byte).2.buffer = r.buffer := by
  rw [usart1Rx, writeByte, if_pos (by rw [isFull, hfull, beq_self_eq_true])]

/-- The pin after a routine. -/
theorem cts_usart1Rx (byte : UInt8) :
    (r.usart1Rx byte).2.cts =
      if (r.usart1Rx byte).2.buffer.freeSpace < deassertThreshold then true else r.cts := rfl

/-- One call of the reader, by its method and arguments. -/
inductive Call where
  | read (dest : List UInt8)
  | tryReadTo (term : UInt8) (dest : List UInt8)
  deriving DecidableEq, Repr

def Call.dest : Call → List UInt8
  | .read dest | .tryReadTo _ dest => dest

/-- The critical section of a call: the bytes it returns and the reader after it. -/
def serve (r : UsartReader) : Call → List UInt8 × UsartReader
  | .read dest =>
      match r.take dest with
      | (.ok n, r, dest) => (dest.take n, r)
      | (.error _, r, _) => ([], r)
  | .tryReadTo term dest =>
      match r.takeTo term dest with
      | (.ok status, r, dest) => (dest.take status.count, r)
      | (.error _, r, _) => ([], r)

/-- A critical section returns a prefix of the ring and leaves the rest there. -/
theorem serve_spec (h : r.buffer.WF) (c : Call) :
    (r.serve c).2.buffer.WF ∧ (r.serve c).1 ++ (r.serve c).2.buffer.queue = r.buffer.queue ∧
      (r.serve c).2.cts =
        if reassertThreshold < (r.serve c).2.buffer.freeSpace then false else r.cts := by
  have htake (n : Nat) (dest : List UInt8) (hn : n ≤ r.buffer.len) :
      (r.buffer.queue.take n ++ dest.drop n).take n ++ (r.buffer.advance n).queue =
        r.buffer.queue := by
    rw [List.take_left' (by rw [List.length_take, h.length_queue, Nat.min_eq_left hn]),
      advance_queue h hn, List.take_append_drop]
  cases c with
  | read dest =>
    rcases read_cases h dest with ⟨e, he⟩ | ⟨n, hn, -, hn'⟩
    · simp only [serve, take, he]
      exact ⟨h, rfl, rfl⟩
    · simp only [serve, take, hn']
      exact ⟨advance_wf h hn, htake n dest hn, rfl⟩
  | tryReadTo term dest =>
    rcases readTo_cases h term dest with ⟨e, he⟩ | ⟨status, hn, -, hn'⟩
    · simp only [serve, takeTo, he]
      exact ⟨h, rfl, rfl⟩
    · simp only [serve, takeTo, hn']
      exact ⟨advance_wf h hn, htake status.count dest hn, rfl⟩

/-! ## The system -/

/-- Where the call in progress stands. -/
inductive Future where
  | idle
  | canRead (c : Call)
  | take (c : Call)
  deriving DecidableEq, Repr

/-- The reader, the call in progress, and what happened so far: the bytes received, the
bytes returned, and how many bytes came since CTS went high. -/
structure State where
  reader : UsartReader
  future : Future
  received : List UInt8
  returned : List UInt8
  sinceHigh : Nat
  deriving DecidableEq, Repr

inductive Act where
  | receive (byte : UInt8)
  | call (c : Call)
  | poll (w : Waker)
  | serve
  deriving DecidableEq, Repr

def step (s : State) : Act → Option State
  | .receive byte =>
      let reader := (s.reader.usart1Rx byte).2
      some { s with
        reader := reader
        received := s.received ++ [byte]
        sinceHigh := if s.reader.cts && reader.cts then s.sinceHigh + 1 else 0 }
  | .call c =>
      match s.future with
      | .idle => some { s with future := if c.dest.isEmpty then .idle else .canRead c }
      | _ => none
  | .poll w =>
      match s.future with
      | .canRead c =>
          match s.reader.canRead w with
          | (.ready (.ok ()), reader) => some { s with reader := reader, future := .take c }
          | (.ready (.error _), reader) => some { s with reader := reader, future := .idle }
          | (.pending, reader) => some { s with reader := reader }
      | _ => none
  | .serve =>
      match s.future with
      | .take c =>
          let (bytes, reader) := s.reader.serve c
          some { s with
            reader := reader
            future := .idle
            returned := s.returned ++ bytes
            sinceHigh := if reader.cts then s.sinceHigh else 0 }
      | _ => none

def system : System State Act := .ofFun ⟨.new, .idle, [], [], 0⟩ step

/-- The peer sends at most 15 bytes while CTS is high. -/
def PeerStops (s : State) : Act → Prop
  | .receive _ => s.reader.cts = true → s.sinceHigh < 15
  | _ => True

instance (s : State) (a : Act) : Decidable (PeerStops s a) :=
  match a with
  | .receive _ => inferInstanceAs (Decidable (_ → _))
  | .call _ | .poll _ | .serve => inferInstanceAs (Decidable True)

/-! ## The hysteresis -/

/-- The level of CTS bounds the free places. -/
structure Bounded (r : UsartReader) : Prop where
  wf : r.buffer.WF
  low : r.cts = false → 16 ≤ r.buffer.freeSpace
  high : r.cts = true → r.buffer.freeSpace ≤ 32

theorem bounded_new : Bounded new :=
  ⟨new_wf (by decide), fun _ => by decide, nofun⟩

theorem Bounded.usart1Rx (h : Bounded r) (byte : UInt8) : Bounded (r.usart1Rx byte).2 := by
  have hle := h.wf.len_le
  have hcts := cts_usart1Rx (r := r) byte
  have hlen : (r.usart1Rx byte).2.buffer.WF ∧
      (r.usart1Rx byte).2.buffer.freeSpace ≤ r.buffer.freeSpace := by
    rcases Nat.lt_or_eq_of_le hle with hlt | heq
    · obtain ⟨hwf, hq⟩ := usart1Rx_of_room h.wf hlt byte
      have hql := congrArg List.length hq
      rw [hwf.length_queue, List.length_append, h.wf.length_queue] at hql
      exact ⟨hwf, by simp only [freeSpace, hql, List.length_singleton]; omega⟩
    · rw [usart1Rx_of_full heq byte]
      exact ⟨h.wf, Nat.le_refl _⟩
  obtain ⟨hwf, hfree⟩ := hlen
  have hd : deassertThreshold = 16 := rfl
  refine ⟨hwf, fun hlow => ?_, fun hhigh => ?_⟩
  · rw [hlow] at hcts
    split at hcts
    · cases hcts
    · omega
  · by_cases hc : r.cts = true
    · have := h.high hc
      omega
    · rw [hhigh] at hcts
      split at hcts
      · omega
      · exact absurd hcts.symm hc

theorem Bounded.serve (h : Bounded r) (c : Call) : Bounded (r.serve c).2 := by
  obtain ⟨hwf, hq, hcts⟩ := serve_spec h.wf c
  have hfree : r.buffer.freeSpace ≤ (r.serve c).2.buffer.freeSpace := by
    have := congrArg List.length hq
    rw [List.length_append, hwf.length_queue, h.wf.length_queue] at this
    simp only [freeSpace]
    omega
  have hr : reassertThreshold = 32 := rfl
  refine ⟨hwf, fun hlow => ?_, fun hhigh => ?_⟩
  · rw [hlow] at hcts
    split at hcts
    · omega
    · have := h.low hcts.symm
      omega
  · rw [hhigh] at hcts
    split at hcts
    · cases hcts
    · omega

/-- A future that finds the ring empty or not changes neither the ring nor the pin. -/
theorem canRead_keeps (w : Waker) :
    (r.canRead w).2.buffer = r.buffer ∧ (r.canRead w).2.cts = r.cts := by
  unfold canRead
  split <;> exact ⟨rfl, rfl⟩

/-- **Step lemma**: what a step does to the reader and the history. -/
theorem step_cases {s t : State} {a : Act} (hs : step s a = some t) :
    (∃ byte, a = .receive byte ∧ t.reader = (s.reader.usart1Rx byte).2 ∧
      t.received = s.received ++ [byte] ∧ t.returned = s.returned ∧
      t.sinceHigh = if s.reader.cts && t.reader.cts then s.sinceHigh + 1 else 0) ∨
    (t.reader.buffer = s.reader.buffer ∧ t.reader.cts = s.reader.cts ∧
      t.received = s.received ∧ t.returned = s.returned ∧ t.sinceHigh = s.sinceHigh) ∨
    (∃ c, t.reader = (s.reader.serve c).2 ∧ t.received = s.received ∧
      t.returned = s.returned ++ (s.reader.serve c).1 ∧
      t.sinceHigh = if t.reader.cts then s.sinceHigh else 0) := by
  cases a with
  | receive byte =>
    cases hs
    exact .inl ⟨byte, rfl, rfl, rfl, rfl, rfl⟩
  | call c =>
    simp only [step] at hs
    split at hs
    · cases hs
      exact .inr (.inl ⟨rfl, rfl, rfl, rfl, rfl⟩)
    · cases hs
  | poll w =>
    simp only [step] at hs
    obtain ⟨hbuf, hcts⟩ := s.reader.canRead_keeps w
    split at hs
    · split at hs <;> rename_i hp <;> cases hs <;> rw [hp] at hbuf hcts <;>
        exact .inr (.inl ⟨hbuf, hcts, rfl, rfl, rfl⟩)
    · cases hs
  | serve =>
    simp only [step] at hs
    split at hs
    · rename_i c _
      cases hs
      exact .inr (.inr ⟨c, rfl, rfl, rfl, rfl⟩)
    · cases hs

theorem bounded_step {s t : State} {a : Act} (h : Bounded s.reader) (hs : step s a = some t) :
    Bounded t.reader := by
  obtain ⟨byte, -, hr, -⟩ | ⟨hbuf, hcts, -⟩ | ⟨c, hr, -⟩ := step_cases hs
  · exact hr ▸ h.usart1Rx byte
  · exact ⟨hbuf ▸ h.wf, fun hlow => hbuf ▸ h.low (hcts ▸ hlow), fun hhigh =>
      hbuf ▸ h.high (hcts ▸ hhigh)⟩
  · exact hr ▸ h.serve c

/-! ## Nothing is lost -/

/-- What was returned and what is queued is what was received, and while CTS is high
the places left and the bytes that came since make up 15. -/
structure Lossless (s : State) : Prop where
  bounded : Bounded s.reader
  conserved : s.returned ++ s.reader.buffer.queue = s.received
  credit : s.reader.cts = true → 15 ≤ s.reader.buffer.freeSpace + s.sinceHigh

/-- A byte that a polite peer sends finds a place. -/
theorem Lossless.room {s : State} {byte : UInt8} (h : Lossless s)
    (hg : PeerStops s (.receive byte)) : s.reader.buffer.len < bufferCapacity := by
  have hcap : bufferCapacity = 64 := rfl
  have hfree : s.reader.buffer.freeSpace = 64 - s.reader.buffer.len := rfl
  cases hc : s.reader.cts with
  | false =>
    have := h.bounded.low hc
    omega
  | true =>
    have hlt : s.sinceHigh < 15 := hg hc
    have := h.credit hc
    omega

theorem lossless_step {s t : State} {a : Act} (h : Lossless s) (hg : PeerStops s a)
    (hs : step s a = some t) : Lossless t := by
  have hb := bounded_step h.bounded hs
  obtain ⟨byte, rfl, hr, hrec, hret, hsince⟩ | ⟨hbuf, hcts, hrec, hret, hsince⟩ |
    ⟨c, hr, hrec, hret, hsince⟩ := step_cases hs
  · have hroom := h.room hg
    obtain ⟨hwf, hq⟩ := usart1Rx_of_room h.bounded.wf hroom byte
    rw [← hr] at hwf hq
    refine ⟨hb, by rw [hret, hrec, hq, ← h.conserved, List.append_assoc], fun hhigh => ?_⟩
    have hlen := congrArg List.length hq
    rw [hwf.length_queue, List.length_append, h.bounded.wf.length_queue,
      List.length_singleton] at hlen
    have hcap : bufferCapacity = 64 := rfl
    have hfree : s.reader.buffer.freeSpace = 64 - s.reader.buffer.len := rfl
    have hfree' : t.reader.buffer.freeSpace = 64 - t.reader.buffer.len := rfl
    cases hc : s.reader.cts with
    | false =>
      have := h.bounded.low hc
      omega
    | true =>
      have := h.credit hc
      rw [hc, hhigh] at hsince
      simp only [Bool.and_self, if_true] at hsince
      omega
  · exact ⟨hb, by rw [hret, hrec, hbuf, h.conserved], fun hhigh => by
      rw [hbuf, hsince]; exact h.credit (hcts ▸ hhigh)⟩
  · obtain ⟨hwf, hq, hcts⟩ := serve_spec h.bounded.wf c
    rw [← hr] at hwf hq hcts
    refine ⟨hb, by rw [hret, hrec, List.append_assoc, hq, h.conserved], fun hhigh => ?_⟩
    rw [hhigh] at hsince hcts
    have hhigh' : s.reader.cts = true := by
      split at hcts
      · cases hcts
      · exact hcts.symm
    have hcredit := h.credit hhigh'
    have hlen := congrArg List.length hq
    rw [List.length_append, hwf.length_queue, h.bounded.wf.length_queue] at hlen
    have hfree : s.reader.buffer.freeSpace = 64 - s.reader.buffer.len := rfl
    have hfree' : t.reader.buffer.freeSpace = 64 - t.reader.buffer.len := rfl
    simp only [if_true] at hsince
    omega

/-- **Flow control.** On every run the level of CTS bounds the free places of the ring,
and on every run whose peer stops in time no byte is lost. -/
theorem flow_control (s : State) :
    (system.Reachable s →
      (s.reader.cts = false → 16 ≤ s.reader.buffer.freeSpace) ∧
      (s.reader.cts = true → s.reader.buffer.freeSpace ≤ 32)) ∧
    (system.ReachedWhile PeerStops s → s.returned ++ s.reader.buffer.queue = s.received) := by
  constructor
  · intro h
    have hb : Bounded s.reader := by
      refine System.Reachable.invariant (I := fun s => Bounded s.reader) ?_ ?_ h
      · rintro s rfl
        exact bounded_new
      · exact fun s a t hi hs => bounded_step hi hs
    exact ⟨hb.low, hb.high⟩
  · intro h
    refine (h.invariant (I := Lossless) ?_ fun s a t hi hg hs => lossless_step hi hg hs).conserved
    rintro s rfl
    exact ⟨bounded_new, by decide, nofun⟩

/-- More bytes than the ring takes with CTS low: the last two come with CTS high. -/
def pastCts : List Act := List.replicate 51 (.receive 7)

/-- A read of 40 bytes lowers CTS; one more byte comes before it. -/
def readForty : List Act := [.call (.read (List.replicate 40 0)), .poll 1, .receive 8, .serve]

theorem flow_control_pastCts :
    ∃ s t : State,
      (s.reader.cts = true ∧ s.sinceHigh = 2 ∧ s.received.length = 51) ∧
      (t.reader.cts = false ∧ t.returned.length = 40 ∧ t.received.length = 52) ∧
      ((s.reader.cts = false → 16 ≤ s.reader.buffer.freeSpace) ∧
        (s.reader.cts = true → s.reader.buffer.freeSpace ≤ 32)) ∧
      s.returned ++ s.reader.buffer.queue = s.received ∧
      ((t.reader.cts = false → 16 ≤ t.reader.buffer.freeSpace) ∧
        (t.reader.cts = true → t.reader.buffer.freeSpace ≤ 32)) ∧
      t.returned ++ t.reader.buffer.queue = t.received := by
  have hstart : system.ReachedWhile PeerStops ⟨.new, .idle, [], [], 0⟩ := .init rfl
  obtain ⟨s, hs, htest⟩ := exists_reachedWhile_of_runFun pastCts
    (fun s => s.reader.cts && s.sinceHigh == 2 && s.received.length == 51) hstart
    (by decide +kernel)
  obtain ⟨t, ht, hlast⟩ := exists_reachedWhile_of_runFun (pastCts ++ readForty)
    (fun t => !t.reader.cts && t.returned.length == 40 && t.received.length == 52) hstart
    (by decide +kernel)
  simp only [Bool.and_eq_true, Bool.not_eq_true', beq_iff_eq, and_assoc] at htest hlast
  exact ⟨s, t, htest, hlast, (flow_control s).1 hs.reachable, (flow_control s).2 hs,
    (flow_control t).1 ht.reachable, (flow_control t).2 ht⟩

end AvrBridge.UsartReader
