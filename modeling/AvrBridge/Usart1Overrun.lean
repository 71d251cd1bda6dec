import AvrBridge.Usart1Framing

/-! `read_to` on a destination that fills up before a terminator comes. The ring answers a
partial read, the loop calls `try_read_to` again with the empty rest of the buffer, and
that is an error: the status for a full buffer is never produced. -/

namespace AvrBridge.UartReadTo

open Rust Lts Window ConstCircularBuffer UsartReader

variable {stream buf cur coming : List UInt8} {term : UInt8} {total : Nat} {r : UsartReader}

/-- Before the buffer is full the call stands as any other; then it is over, and has
failed. -/
def FilledAt (stream buf : List UInt8) (r : UsartReader) (cur coming : List UInt8) :
    UartReadTo → Prop
  | .done result =>
      result = .error .destinationEmpty ∧ Progress stream buf r cur coming buf.length
  | .canRead total => FramedAt stream buf (buf.length - 1) r cur coming (.canRead total)
  | .take total => FramedAt stream buf (buf.length - 1) r cur coming (.take total)

def Filled (stream buf : List UInt8) (s : State) : Prop :=
  FilledAt stream buf s.reader s.buf s.coming s.future

theorem filledAt_iff {future : UartReadTo} (h : ∀ result, future ≠ .done result) :
    FilledAt stream buf r cur coming future ↔
      FramedAt stream buf (buf.length - 1) r cur coming future := by
  cases future with
  | done result => exact absurd rfl (h result)
  | canRead total => exact Iff.rfl
  | take total => exact Iff.rfl

/-- A call that waits or is in its critical section. -/
theorem filled_progress {s : State} (hbuf : buf ≠ []) (h : Filled stream buf s)
    (hf : s.future = .canRead total ∨ s.future = .take total) :
    total < buf.length ∧ Progress stream buf s.reader s.buf s.coming total := by
  have hpos := List.length_pos_iff.mpr hbuf
  rcases hf with hf | hf
  · rw [Filled, hf] at h
    obtain ⟨htotal, hp⟩ := h
    exact ⟨by omega, hp⟩
  · rw [Filled, hf] at h
    obtain ⟨htotal, hp, -⟩ := h
    exact ⟨by omega, hp⟩

theorem enter_full (cur : List UInt8) :
    enter cur cur.length = .ok (.done (.error .destinationEmpty)) := by
  rw [enter, sliceOf_length (Nat.le_refl _), List.drop_length]
  rfl

theorem await_ne_done (r : UsartReader) (w : Waker) (total : Nat)
    (result : Except ReadError ReadStatus) : (await r w total).1 ≠ .done result := by
  unfold await UsartReader.canRead
  split <;> rename_i heq <;> split at heq <;> cases heq <;> simp

section Overrun

variable (hlen : buf.length ≤ stream.length) (hterm : term ∉ stream.take buf.length)

include hlen hterm

/-- **The critical section** finds no terminator: it reads on, or the next call of
`try_read_to` finds the buffer full. -/
theorem filled_serve (h : Progress stream buf r cur coming total) (htotal : total < buf.length)
    (hne : r.buffer.queue ≠ []) :
    ∃ future r' cur', UartReadTo.serve r term cur total = .ok (future, r', cur') ∧
      FilledAt stream buf r' cur' coming future ∧
      (future = .done (.error .destinationEmpty) ∨
        ∃ total', future = .canRead total' ∧ total < total') := by
  have hcur := h.length_cur (by omega) (Nat.le_of_lt htotal)
  have hrest : sliceOf cur total cur.length = .ok (cur.drop total) := sliceOf_length (by omega)
  have hdest : cur.drop total ≠ [] := by
    rw [Ne, List.drop_eq_nil_iff]
    omega
  have heq := readTo_eq h.wf term hdest hne
  obtain ⟨n, hmin⟩ : ∃ n, n = min (cur.drop total).length r.buffer.len := ⟨_, rfl⟩
  rw [← hmin] at heq
  have hn : n ≤ r.buffer.len := by omega
  rw [List.length_drop] at hmin
  have hpos : 0 < n := by
    have := List.length_pos_iff.mpr hne
    rw [h.wf.length_queue] at this
    omega
  have hnone : (r.buffer.queue.take n).findIdx? (· == term) = none := by
    refine List.findIdx?_eq_none_iff.mpr fun x hx => ?_
    rw [beq_eq_false_iff_ne]
    rintro rfl
    rw [← List.take_append_of_le_length (by rwa [h.wf.length_queue]), h.stream_eq,
      List.take_drop] at hx
    refine hterm ((List.take_subset_take_left stream ?_) (List.mem_of_mem_drop hx))
    omega
  have hp := h.advance (by omega) (Nat.le_of_lt htotal) hn
  have hlen' := hp.length_cur (by omega) (by omega)
  simp only [UartReadTo.serve, hrest, ok_bind, takeTo, heq, hnone]
  by_cases hfull : total + n = buf.length
  · rw [hfull] at hp ⊢
    have henter := enter_full (splice cur total (r.buffer.queue.take n ++ (cur.drop total).drop n))
    rw [hlen'] at henter
    simp only [henter, ok_bind]
    exact ⟨_, _, _, rfl, ⟨rfl, hp⟩, .inl rfl⟩
  · have henter : enter (splice cur total (r.buffer.queue.take n ++ (cur.drop total).drop n))
        (total + n) = .ok (.canRead (total + n)) := enter_of_lt (by omega)
    simp only [henter, ok_bind]
    exact ⟨_, _, _, rfl, ⟨by omega, hp⟩, .inr ⟨_, rfl, by omega⟩⟩

/-- **Step lemma.** -/
theorem filled_step {s t : State} {a : Act} (hbuf : buf ≠ []) (h : Filled stream buf s)
    (hg : HasRoom s a) (hs : step term s a = some t) : Filled stream buf t := by
  cases a with
  | receive =>
    have hfuture : t.future = s.future := by
      simp only [step] at hs
      split at hs <;> cases hs
      rfl
    by_cases hdone : ∃ result, s.future = .done result
    · obtain ⟨result, hf⟩ := hdone
      rw [Filled, hf] at h
      simp only [step] at hs
      split at hs
      · rename_i byte rest hc
        cases hs
        rw [Filled, hfuture, hf]
        exact ⟨h.1, h.2.receive hc hg⟩
      · cases hs
    · have hne : ∀ result, s.future ≠ .done result := fun result hf => hdone ⟨result, hf⟩
      rw [Filled, filledAt_iff hne] at h
      rw [Filled, filledAt_iff (hfuture ▸ hne)]
      exact framed_receive h hg hs
  | poll w =>
    cases hf : s.future with
    | canRead total =>
      rw [Filled, hf] at h
      simp only [step, hf] at hs
      cases hs
      refine (filledAt_iff fun result hdone => ?_).mpr (framed_await h.2 h.1 w)
      exact await_ne_done s.reader w total result hdone
    | take total => simp [step, hf] at hs
    | done result => simp [step, hf] at hs
  | serve =>
    cases hf : s.future with
    | take total =>
      obtain ⟨htotal, hp⟩ := filled_progress hbuf h (.inr hf)
      rw [Filled, hf] at h
      obtain ⟨future, r', cur', heq, hfilled, -⟩ := filled_serve hlen hterm hp htotal h.2.2
      simp only [step, hf, heq] at hs
      cases hs
      exact hfilled
    | canRead total => simp [step, hf] at hs
    | done result => simp [step, hf] at hs

theorem filled_reachable (hbuf : buf ≠ []) {s : State}
    (h : (system term stream buf).ReachedWhile HasRoom s) : Filled stream buf s := by
  have hpos := List.length_pos_iff.mpr hbuf
  refine h.invariant ?_ fun s a t hi hg hs => filled_step hlen hterm hbuf hi hg hs
  rintro s ⟨hwf, hstream, hcur, henter⟩
  rw [enter_of_lt hpos] at henter
  rw [Filled, ← Except.ok.inj henter]
  exact ⟨Nat.zero_le _, hwf, hcur, hstream⟩

/-- A call that waits can be run to its end: a byte comes if the ring is empty, and the
critical section takes it. The induction is on the places left in the buffer. -/
theorem exists_done (hbuf : buf ≠ []) (left : Nat) {s : State}
    (h : (system term stream buf).ReachedWhile HasRoom s) (hf : s.future = .canRead total)
    (hleft : buf.length - total ≤ left) :
    ∃ t, (system term stream buf).ReachedWhile HasRoom t ∧
      t.future = .done (.error .destinationEmpty) := by
  induction left generalizing s total with
  | zero =>
    have := (filled_progress hbuf (filled_reachable hlen hterm hbuf h) (.inl hf)).1
    omega
  | succ left ih =>
    obtain ⟨u, hu, hfu, hne⟩ : ∃ u, (system term stream buf).ReachedWhile HasRoom u ∧
        u.future = .canRead total ∧ u.reader.buffer.queue ≠ [] := by
      by_cases hq : s.reader.buffer.queue = []
      · obtain ⟨htotal, hp⟩ :=
          filled_progress hbuf (filled_reachable hlen hterm hbuf h) (.inl hf)
        have hroom : s.reader.buffer.len < bufferCapacity := by
          rw [← hp.wf.length_queue, hq]
          decide
        obtain ⟨byte, rest, hcoming⟩ : ∃ byte rest, s.coming = byte :: rest := by
          refine List.exists_cons_of_ne_nil fun hnil => ?_
          have hdrop := hp.stream_eq.symm
          rw [hq, hnil, List.append_nil, List.drop_eq_nil_iff] at hdrop
          omega
        have hreceive := h.step (a := Act.receive) hroom
          (show step term s .receive =
              some { s with reader := (s.reader.usart1Rx byte).2, coming := rest } by
            simp only [step, hcoming])
        refine ⟨_, hreceive, hf, ?_⟩
        rw [(usart1Rx_of_room hp.wf hroom byte).2]
        exact List.append_ne_nil_of_right_ne_nil _ (List.cons_ne_nil _ _)
      · exact ⟨s, h, hf, hq⟩
    obtain ⟨htotal, hp⟩ := filled_progress hbuf (filled_reachable hlen hterm hbuf hu) (.inl hfu)
    have hpos : 0 < u.reader.buffer.len := by
      rw [← hp.wf.length_queue]
      exact List.length_pos_iff.mpr hne
    have hpoll := hu.step (a := Act.poll 0) trivial
      (show step term u (.poll 0) = some { u with future := .take total } by
        simp only [step, hfu, await_ready hpos])
    obtain ⟨future, r', cur', heq, -, hfuture⟩ := filled_serve hlen hterm hp htotal hne
    have hserve := hpoll.step (a := Act.serve) trivial
      (show step term _ .serve = some ⟨r', future, cur', u.coming⟩ by simp only [step, heq])
    rcases hfuture with hdone | ⟨total', hread, hlt⟩
    · exact ⟨_, hserve, hdone⟩
    · exact ih hserve hread (by omega)

end Overrun

/-- **A full destination, exactly.** Every call that completes on a stream without a
terminator in its first `buf.length` bytes has stored these and returns an error; the
full buffer is reported on no such input. -/
theorem full_destination_fails (stream buf : List UInt8) (term : UInt8) (hbuf : buf ≠ [])
    (hlen : buf.length ≤ stream.length) (hterm : term ∉ stream.take buf.length) :
    (∀ s, (system term stream buf).ReachedWhile HasRoom s → ∀ result, s.future = .done result →
      result = .error .destinationEmpty ∧ s.buf = stream.take buf.length ∧
        s.reader.buffer.queue ++ s.coming = stream.drop buf.length) ∧
    ¬ ∀ s, (system term stream buf).ReachedWhile HasRoom s → ∀ result, s.future = .done result →
      result = .ok (.bufferFull buf.length) ∧ s.buf = stream.take buf.length ∧
        s.reader.buffer.queue ++ s.coming = stream.drop buf.length := by
  have hpos := List.length_pos_iff.mpr hbuf
  constructor
  · intro s h result hdone
    have hfilled := filled_reachable hlen hterm hbuf h
    rw [Filled, hdone] at hfilled
    obtain ⟨hresult, hp⟩ := hfilled
    refine ⟨hresult, ?_, hp.stream_eq⟩
    rw [hp.cur_eq, List.drop_length, List.append_nil]
  · intro hall
    have hstart : (system term stream buf).ReachedWhile HasRoom
        ⟨UsartReader.new, .canRead 0, buf, stream⟩ :=
      .init ⟨new_wf (by decide), by rw [show UsartReader.new.buffer.queue = [] from new_queue]; rfl,
        rfl, enter_of_lt hpos⟩
    obtain ⟨t, ht, hdone⟩ := exists_done hlen hterm hbuf buf.length hstart rfl (Nat.sub_le ..)
    have hok := (hall t ht _ hdone).1
    cases hok

/-- One place and a byte that is no line feed. -/
theorem full_destination_fails_one :
    (∀ s, (system 10 [97, 98] [0]).ReachedWhile HasRoom s → ∀ result, s.future = .done result →
      result = .error .destinationEmpty ∧ s.buf = [97] ∧
        s.reader.buffer.queue ++ s.coming = [98]) ∧
    ¬ ∀ s, (system 10 [97, 98] [0]).ReachedWhile HasRoom s → ∀ result, s.future = .done result →
      result = .ok (.bufferFull 1) ∧ s.buf = [97] ∧ s.reader.buffer.queue ++ s.coming = [98] :=
  full_destination_fails [97, 98] [0] 10 (by decide) (by decide) (by decide)

/-- The byte comes, the future is polled, and its critical section stores the byte. -/
theorem full_destination_fails_false :
    ¬ ∀ (stream buf : List UInt8) (term : UInt8), buf ≠ [] → buf.length ≤ stream.length →
      term ∉ stream.take buf.length →
      ∀ s, (system term stream buf).ReachedWhile HasRoom s → ∀ result, s.future = .done result →
        result = .ok (.bufferFull buf.length) ∧ s.buf = stream.take buf.length ∧
          s.reader.buffer.queue ++ s.coming = stream.drop buf.length := by
  intro h
  have hend : (system 10 [97] [0]).ReachedWhile HasRoom
      ⟨⟨false, ⟨1, 1, 0, 97 :: List.replicate 63 0⟩, none⟩, .done (.error .destinationEmpty), [97],
        []⟩ :=
    reachedWhile_of_runFun [.receive, .poll 0, .serve]
      (.init (s := ⟨UsartReader.new, .canRead 0, [0], [97]⟩)
        ⟨new_wf (by decide), by decide, rfl, by decide⟩) (by decide)
  have hok := (h [97] [0] 10 (by decide) (by decide) (by decide) _ hend _ rfl).1
  cases hok

end AvrBridge.UartReadTo
