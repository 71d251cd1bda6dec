import AvrBridge.Usart1FlowControl

/-! `read_to` against the receive interrupt. However the stream is split between the
ring before the call and the interrupts during it, the bytes already stored, the ring
and the bytes to come are the stream, so the loop stops at its first terminator. -/

namespace AvrBridge.UartReadTo

open Rust Lts Window ConstCircularBuffer UsartReader

/-! ## The first terminator -/

section Terminator

variable {stream : List UInt8} {term : UInt8} {k total n : Nat}

/-- A stretch of the stream that starts before the first terminator has its first
terminator there, or ends before it. -/
theorem findIdx?_take_drop (hk : stream[k]? = some term) (hfirst : term ∉ stream.take k)
    (htotal : total ≤ k) (n : Nat) :
    ((stream.drop total).take n).findIdx? (· == term) =
      if k - total < n then some (k - total) else none := by
  have hklt : k < stream.length := (List.getElem?_eq_some_iff.mp hk).1
  -- a terminator at place `j` of the stretch is not one of the first `k` bytes
  have hlate : ∀ j, (hj : j < ((stream.drop total).take n).length) →
      ((stream.drop total).take n)[j] = term → k ≤ total + j := by
    intro j hj he
    rw [List.getElem_take, List.getElem_drop] at he
    rcases Nat.lt_or_ge (total + j) k with hlt | hge
    · refine absurd (List.mem_iff_getElem.mpr ⟨total + j, ?_, ?_⟩) hfirst
      · rw [List.length_take]
        omega
      · rw [List.getElem_take]
        exact he
    · exact hge
  split
  · rename_i hn
    have hlen : k - total < ((stream.drop total).take n).length := by
      rw [List.length_take, List.length_drop]
      omega
    refine List.findIdx?_eq_some_iff_getElem.mpr ⟨hlen, ?_, fun j hj => ?_⟩
    · rw [beq_iff_eq, List.getElem_take, List.getElem_drop]
      rw [← Option.some_inj, ← hk, List.getElem?_eq_getElem hklt]
      congr 2
      omega
    · rw [beq_iff_eq]
      intro he
      have := hlate j (by omega) he
      omega
  · rename_i hn
    refine List.findIdx?_eq_none_iff.mpr fun x hx => ?_
    rw [beq_eq_false_iff_ne]
    rintro rfl
    obtain ⟨j, hj, he⟩ := List.mem_iff_getElem.mp hx
    have := hlate j hj he
    rw [List.length_take] at hj
    omega

end Terminator

/-! ## The system -/

/-- The reader, the future, its buffer, and the bytes still to come. -/
structure State where
  reader : UsartReader
  future : UartReadTo
  buf : List UInt8
  coming : List UInt8
  deriving DecidableEq, Repr

inductive Act where
  | receive
  | poll (w : Waker)
  | serve
  deriving DecidableEq, Repr

/-- The next byte arrives, the future is polled, or it enters its critical section. -/
def step (term : UInt8) (s : State) : Act → Option State
  | .receive =>
      match s.coming with
      | byte :: rest => some { s with reader := (s.reader.usart1Rx byte).2, coming := rest }
      | [] => none
  | .poll w =>
      match s.future with
      | .canRead total =>
          some { s with future := (await s.reader w total).1, reader := (await s.reader w total).2 }
      | _ => none
  | .serve =>
      match s.future with
      | .take total =>
          match UartReadTo.serve s.reader term s.buf total with
          | .ok (future, reader, buf) => some ⟨reader, future, buf, s.coming⟩
          | .error _ => none
      | _ => none

/-- The call of `read_to(term, buf)` while any part of the stream is in the ring. -/
def system (term : UInt8) (stream buf : List UInt8) : System State Act :=
  .ofFunFrom (fun s => s.reader.buffer.WF ∧ s.reader.buffer.queue ++ s.coming = stream ∧
    s.buf = buf ∧ enter buf 0 = .ok s.future) (step term)

/-- The ring is not full when a byte arrives. -/
def HasRoom (s : State) : Act → Prop
  | .receive => s.reader.buffer.len < bufferCapacity
  | _ => True

instance (s : State) (a : Act) : Decidable (HasRoom s a) :=
  match a with
  | .receive => inferInstanceAs (Decidable (_ < _))
  | .poll _ | .serve => inferInstanceAs (Decidable True)

/-! ## The invariant -/

section Frame

variable {stream buf : List UInt8} {term : UInt8} {k total : Nat}

/-- The first `total` bytes of the stream are in the buffer `cur`, the others in the ring
or still to come; behind them the buffer is as it was. -/
structure Progress (stream buf : List UInt8) (r : UsartReader) (cur coming : List UInt8)
    (total : Nat) : Prop where
  wf : r.buffer.WF
  cur_eq : cur = stream.take total ++ buf.drop total
  stream_eq : r.buffer.queue ++ coming = stream.drop total

/-- What holds of the future: it has read no terminator yet, or exactly up to the first. -/
def FramedAt (stream buf : List UInt8) (k : Nat) (r : UsartReader) (cur coming : List UInt8) :
    UartReadTo → Prop
  | .canRead total => total ≤ k ∧ Progress stream buf r cur coming total
  | .take total => total ≤ k ∧ Progress stream buf r cur coming total ∧ r.buffer.queue ≠ []
  | .done result =>
      result = .ok (.complete (k + 1)) ∧ Progress stream buf r cur coming (k + 1)

def Framed (stream buf : List UInt8) (k : Nat) (s : State) : Prop :=
  FramedAt stream buf k s.reader s.buf s.coming s.future

variable {r : UsartReader} {cur coming : List UInt8}

theorem Progress.receive (h : Progress stream buf r cur coming total) {byte : UInt8}
    {rest : List UInt8} (hc : coming = byte :: rest) (hroom : r.buffer.len < bufferCapacity) :
    Progress stream buf (r.usart1Rx byte).2 cur rest total := by
  obtain ⟨hwf, hq⟩ := usart1Rx_of_room h.wf hroom byte
  refine ⟨hwf, h.cur_eq, ?_⟩
  rw [hq, List.append_assoc, ← h.stream_eq, hc]
  rfl

theorem framed_receive {s t : State} (h : Framed stream buf k s) (hg : HasRoom s .receive)
    (hs : step term s .receive = some t) : Framed stream buf k t := by
  simp only [step] at hs
  split at hs
  · rename_i byte rest hc
    cases hs
    unfold Framed at h ⊢
    cases hf : s.future with
    | canRead total =>
      rw [hf] at h
      exact ⟨h.1, h.2.receive hc hg⟩
    | take total =>
      rw [hf] at h
      obtain ⟨htotal, hp, hne⟩ := h
      have hp' := hp.receive hc hg
      refine ⟨htotal, hp', fun hnil => ?_⟩
      have hlen := congrArg List.length (hp'.stream_eq.trans hp.stream_eq.symm)
      rw [hnil, hc] at hlen
      have hpos := List.length_pos_iff.mpr hne
      simp only [List.nil_append, List.length_append, List.length_cons] at hlen
      omega
    | done result =>
      rw [hf] at h
      exact ⟨h.1, h.2.receive hc hg⟩
  · cases hs

theorem await_ready (hpos : 0 < r.buffer.len) (w : Waker) (total : Nat) :
    await r w total = (.take total, r) := by
  rw [await, UsartReader.canRead, if_pos hpos]

theorem framed_await (h : Progress stream buf r cur coming total) (htotal : total ≤ k) (w : Waker) :
    FramedAt stream buf k (await r w total).2 cur coming (await r w total).1 := by
  by_cases hpos : 0 < r.buffer.len
  · rw [await_ready hpos]
    refine ⟨htotal, h, fun hnil => ?_⟩
    rw [← h.wf.length_queue, hnil] at hpos
    exact Nat.lt_irrefl 0 hpos
  · have hpending : await r w total = (.canRead total, { r with waker := some w }) := by
      rw [await, UsartReader.canRead, if_neg hpos]
    rw [hpending]
    exact ⟨htotal, h.wf, h.cur_eq, h.stream_eq⟩

theorem enter_of_lt {cur : List UInt8} (h : total < cur.length) :
    enter cur total = .ok (.canRead total) := by
  have hne : cur.drop total ≠ [] := by
    rw [Ne, List.drop_eq_nil_iff]
    omega
  rw [enter, sliceOf_length (Nat.le_of_lt h), ok_bind, if_neg (by rwa [List.isEmpty_iff])]
  rfl

theorem Progress.length_cur (h : Progress stream buf r cur coming total)
    (hs : total ≤ stream.length) (hb : total ≤ buf.length) : cur.length = buf.length := by
  rw [h.cur_eq, List.length_append, List.length_take, List.length_drop]
  omega

/-- Storing the oldest `n` bytes of the ring behind the `total` bytes read. -/
theorem Progress.advance (h : Progress stream buf r cur coming total)
    (hs : total ≤ stream.length) (hb : total ≤ buf.length) {n : Nat} (hn : n ≤ r.buffer.len) :
    Progress stream buf (r.reassert (r.buffer.advance n))
      (splice cur total (r.buffer.queue.take n ++ (cur.drop total).drop n)) coming (total + n) := by
  have hcur := h.length_cur hs hb
  have hqn : n ≤ r.buffer.queue.length := by rw [h.wf.length_queue]; exact hn
  have htake : r.buffer.queue.take n = (stream.drop total).take n := by
    rw [← h.stream_eq, List.take_append_of_le_length hqn]
  have hstream : (stream.take total).length = total := by rw [List.length_take]; omega
  refine ⟨advance_wf h.wf hn, ?_, ?_⟩
  · have hsrc : (cur.drop total).drop n = buf.drop (total + n) := by
      rw [h.cur_eq, List.drop_left' hstream, List.drop_drop]
    have hhead : cur.take total = stream.take total := by
      rw [h.cur_eq, List.take_left' hstream]
    have htail :
        cur.drop (total + (r.buffer.queue.take n ++ buf.drop (total + n)).length) = [] := by
      rw [List.drop_eq_nil_iff, List.length_append, List.length_take, List.length_drop]
      omega
    rw [hsrc, splice, htail, hhead, htake, List.append_nil, ← List.append_assoc, List.take_add]
  · rw [show (r.reassert (r.buffer.advance n)).buffer = r.buffer.advance n from rfl,
      advance_queue h.wf hn, ← List.drop_append_of_le_length hqn, h.stream_eq, List.drop_drop]

section Serve

variable (hk : stream[k]? = some term) (hfirst : term ∉ stream.take k)
  (hbuf : k + 1 ≤ buf.length)

include hk hfirst hbuf

/-- **The critical section**: it stops at the first terminator, or reads on. -/
theorem framed_serve (h : Progress stream buf r cur coming total) (htotal : total ≤ k)
    (hne : r.buffer.queue ≠ []) :
    ∃ future r' cur', UartReadTo.serve r term cur total = .ok (future, r', cur') ∧
      FramedAt stream buf k r' cur' coming future := by
  have hklt : k < stream.length := (List.getElem?_eq_some_iff.mp hk).1
  have hs : total ≤ stream.length := by omega
  have hb : total ≤ buf.length := by omega
  have hcur := h.length_cur hs hb
  have hrest : sliceOf cur total cur.length = .ok (cur.drop total) := sliceOf_length (by omega)
  have hdest : cur.drop total ≠ [] := by
    rw [Ne, List.drop_eq_nil_iff]
    omega
  have heq := readTo_eq h.wf term hdest hne
  obtain ⟨n, hmin⟩ : ∃ n, n = min (cur.drop total).length r.buffer.len := ⟨_, rfl⟩
  rw [← hmin] at heq
  have hn : n ≤ r.buffer.len := by omega
  have hfind := findIdx?_take_drop hk hfirst htotal n
  rw [← h.stream_eq, List.take_append_of_le_length (by rwa [h.wf.length_queue])] at hfind
  simp only [UartReadTo.serve, hrest, ok_bind, takeTo, heq, hfind]
  by_cases hc : k - total < n
  · have hp := h.advance hs hb (Nat.le_trans hc hn)
    have hsum : total + (k - total + 1) = k + 1 := by omega
    rw [Nat.succ_eq_add_one, hsum] at hp
    simp only [if_pos hc, hsum]
    exact ⟨_, _, _, rfl, rfl, hp⟩
  · have hp := h.advance hs hb hn
    have hle : total + n ≤ k := by omega
    have henter : enter (splice cur total (r.buffer.queue.take n ++ (cur.drop total).drop n))
        (total + n) = .ok (.canRead (total + n)) :=
      enter_of_lt (by rw [hp.length_cur (by omega) (by omega)]; omega)
    simp only [if_neg hc, henter, ok_bind]
    exact ⟨_, _, _, rfl, hle, hp⟩

end Serve

/-- **Step lemma.** -/
theorem framed_step (hk : stream[k]? = some term) (hfirst : term ∉ stream.take k)
    (hbuf : k + 1 ≤ buf.length) {s t : State} {a : Act} (h : Framed stream buf k s)
    (hg : HasRoom s a) (hs : step term s a = some t) : Framed stream buf k t := by
  cases a with
  | receive => exact framed_receive h hg hs
  | poll w =>
    simp only [step] at hs
    split at hs
    · rename_i total hf
      cases hs
      rw [Framed, hf] at h
      exact framed_await h.2 h.1 w
    · cases hs
  | serve =>
    simp only [step] at hs
    split at hs
    · rename_i total hf
      rw [Framed, hf] at h
      obtain ⟨htotal, hp, hne⟩ := h
      obtain ⟨future, r', cur', heq, hframed⟩ := framed_serve hk hfirst hbuf hp htotal hne
      rw [heq] at hs
      cases hs
      exact hframed
    · cases hs

end Frame

/-- **Framing does not depend on timing.** Whatever part of the stream is in the ring
before the call and wherever the other bytes arrive, a call that completes returns
exactly the bytes up to the first terminator. -/
theorem frame_of_schedule (stream buf : List UInt8) (term : UInt8) (k : Nat)
    (hk : stream[k]? = some term) (hfirst : term ∉ stream.take k) (hbuf : k + 1 ≤ buf.length)
    (s : State) (h : (system term stream buf).ReachedWhile HasRoom s)
    (result : Except ReadError ReadStatus) (hdone : s.future = .done result) :
    result = .ok (.complete (k + 1)) ∧ s.buf.take (k + 1) = stream.take (k + 1) ∧
      s.buf.drop (k + 1) = buf.drop (k + 1) ∧
      s.reader.buffer.queue ++ s.coming = stream.drop (k + 1) := by
  have hframed : Framed stream buf k s := by
    refine h.invariant ?_ fun s a t hi hg hs => framed_step hk hfirst hbuf hi hg hs
    rintro s ⟨hwf, hstream, hcur, henter⟩
    rw [enter_of_lt (by omega)] at henter
    rw [Framed, ← Except.ok.inj henter]
    exact ⟨Nat.zero_le k, hwf, hcur, hstream⟩
  rw [Framed, hdone] at hframed
  obtain ⟨hres, hp⟩ := hframed
  have hlen : (stream.take (k + 1)).length = k + 1 := by
    have := (List.getElem?_eq_some_iff.mp hk).1
    rw [List.length_take]
    omega
  refine ⟨hres, ?_, ?_, hp.stream_eq⟩
  · rw [hp.cur_eq, List.take_left' hlen]
  · rw [hp.cur_eq, List.drop_left' hlen]

/-- A call with one byte of `ab⏎c` in the ring and four places. -/
def splitStart : State :=
  ⟨(UsartReader.new.usart1Rx 97).2, .canRead 0, [0, 0, 0, 0], [98, 10, 99]⟩

/-- The second byte comes before the first critical section, the terminator before the
second, the last byte after the call. -/
def splitSchedule : List Act :=
  [.poll 1, .receive, .serve, .poll 1, .receive, .poll 1, .serve, .receive]

def splitEnd : State :=
  ⟨⟨false, ⟨3, 4, 1, [97, 98, 10, 99] ++ List.replicate 60 0⟩, none⟩, .done (.ok (.complete 3)),
    [97, 98, 10, 0], []⟩

theorem frame_of_schedule_split :
    (Except.ok (.complete 3) : Except ReadError ReadStatus) = .ok (.complete 3) ∧
      splitEnd.buf.take 3 = [97, 98, 10] ∧ splitEnd.buf.drop 3 = [0] ∧
      splitEnd.reader.buffer.queue ++ splitEnd.coming = [99] := by
  have hwf : splitStart.reader.buffer.WF :=
    (usart1Rx_of_room (show UsartReader.new.buffer.WF from new_wf (by decide)) (by decide) 97).1
  exact frame_of_schedule [97, 98, 10, 99] [0, 0, 0, 0] 10 2 (by decide) (by decide) (by decide)
    splitEnd (reachedWhile_of_runFun splitSchedule
      (.init ⟨hwf, by decide, rfl, by decide⟩) (by decide)) _ rfl

end AvrBridge.UartReadTo
