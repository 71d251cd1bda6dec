import AvrBridge.CircularRefinement
import AvrBridge.ConstRefinement

/-! The two rings answer alike. `CircularBuffer` keeps one place free and lies in memory it is
handed, `ConstCircularBuffer` counts its bytes and holds its own array; over one byte of memory
more the first is the second, up to the kinds of their errors and to a write of no bytes. -/

namespace AvrBridge.RingEquivalence

open Rust Fifo

/-- The calls that both rings have. The `write` of `CircularBuffer` is the `write_all` of the
other. -/
inductive Call where
  | reset
  | readByte
  | writeByte (byte : UInt8)
  | write (bytes : List UInt8)

def Call.onConst : Call → ConstCircularBuffer.Call
  | .reset => .reset
  | .readByte => .readByte
  | .writeByte byte => .writeByte byte
  | .write bytes => .writeAll bytes

def Call.onCircular : Call → CircularBuffer.Call
  | .reset => .reset
  | .readByte => .readByte
  | .writeByte byte => .writeByte byte
  | .write bytes => .write bytes

/-- An answer of `ConstCircularBuffer` in the words of `CircularBuffer`, which takes a write of no
bytes. -/
def inCircular : ConstCircularBuffer.Answer → Option CircularBuffer.Answer
  | .reset capacity => some (.reset capacity)
  | .readByte (.ok byte) => some (.readByte (.ok byte))
  | .readByte (.error _) => some (.readByte (.error .bufferEmpty))
  | .writeByte result => some (.writeByte result)
  | .write (.ok n) => some (.write (.ok n))
  | .write (.error .sourceEmpty) => some (.write (.ok 0))
  | .write (.error _) => some (.write (.error .insufficientSpace))
  | .new | .read _ _ | .readTo _ _ => none

section Queue

variable {CAPACITY : Nat} (q : BoundedFifo UInt8 CAPACITY)

/-- To the queue a call is the same by either ring. -/
theorem fifoCall_alike (c : Call) :
    (ConstCircularBuffer.fifoCall q c.onConst).2 = (CircularBuffer.fifoCall q c.onCircular).2 ∧
    inCircular (ConstCircularBuffer.fifoCall q c.onConst).1 =
      some (CircularBuffer.fifoCall q c.onCircular).1 := by
  have hbound := q.bound
  have hroom : q.room = CAPACITY - q.items.length := rfl
  cases c with
  | reset => exact ⟨rfl, rfl⟩
  | readByte =>
    cases hq : q.items with
    | nil => simp [ConstCircularBuffer.fifoCall, CircularBuffer.fifoCall, Call.onConst,
        Call.onCircular, hq, inCircular]
    | cons byte rest => simp [ConstCircularBuffer.fifoCall, CircularBuffer.fifoCall,
        Call.onConst, Call.onCircular, hq, inCircular]
  | writeByte byte =>
    by_cases hfull : q.items.length = CAPACITY
    · have hnone : q.room = 0 := by omega
      simp [ConstCircularBuffer.fifoCall, CircularBuffer.fifoCall, Call.onConst, Call.onCircular,
        hfull, hnone, inCircular]
    · have hsome : q.room ≠ 0 := by omega
      simp [ConstCircularBuffer.fifoCall, CircularBuffer.fifoCall, Call.onConst, Call.onCircular,
        hfull, hsome, inCircular]
  | write bytes =>
    by_cases hnil : bytes = []
    · -- the one refuses it and the other stores nothing
      have hsame : q.offer [] = q := by
        ext1
        rw [BoundedFifo.items_offer, List.take_nil, List.append_nil]
      simp [ConstCircularBuffer.fifoCall, CircularBuffer.fifoCall, Call.onConst, Call.onCircular,
        hnil, hsame, inCircular]
    · by_cases hfit : q.room < bytes.length
      · simp [ConstCircularBuffer.fifoCall, CircularBuffer.fifoCall, Call.onConst,
          Call.onCircular, hnil, hfit, inCircular]
      · simp [ConstCircularBuffer.fifoCall, CircularBuffer.fifoCall, Call.onConst,
          Call.onCircular, hnil, hfit, inCircular]

/-- The same for calls one after another. -/
theorem fifoCalls_alike (cs : List Call) :
    (ConstCircularBuffer.fifoCalls q (cs.map Call.onConst)).2 =
      (CircularBuffer.fifoCalls q (cs.map Call.onCircular)).2 ∧
    (ConstCircularBuffer.fifoCalls q (cs.map Call.onConst)).1.map inCircular =
      (CircularBuffer.fifoCalls q (cs.map Call.onCircular)).1.map some := by
  induction cs generalizing q with
  | nil => exact ⟨rfl, rfl⟩
  | cons c cs ih =>
    obtain ⟨hqueue, hanswer⟩ := fifoCall_alike q c
    obtain ⟨hqueues, hanswers⟩ := ih (CircularBuffer.fifoCall q c.onCircular).2
    simp only [List.map_cons, ConstCircularBuffer.fifoCalls, CircularBuffer.fifoCalls, hqueue,
      hanswer]
    exact ⟨hqueues, by rw [hanswers]⟩

end Queue

/-- **The rings agree.** Any calls that both have, on a fresh `ConstCircularBuffer` of `CAPACITY`
bytes and on a fresh `CircularBuffer` over `CAPACITY + 1` bytes of memory with any contents: no
call panics, the answers are the same, and so are the bytes stored and the lengths afterwards. -/
theorem rings_agree (CAPACITY : Nat) (hcap : 1 ≤ CAPACITY) (ptr : Nat) (storage : List UInt8)
    (hlen : storage.length = CAPACITY + 1) (cs : List Call) :
    let run := (ConstCircularBuffer.new CAPACITY).runCalls (cs.map Call.onConst)
    ∃ answers s, (CircularBuffer.new ptr (CAPACITY + 1) storage).runCalls
        (cs.map Call.onCircular) = .ok (answers, s) ∧
      run.1.map inCircular = answers.map some ∧ s.queue = run.2.queue ∧
      s.len = .ok run.2.len ∧ s.freeSpace = .ok run.2.freeSpace := by
  intro run
  obtain ⟨hconst, hrun⟩ := ConstCircularBuffer.runCalls_simulates hcap
    (ConstCircularBuffer.represents_new hcap) (cs.map Call.onConst)
  obtain ⟨s, hcircular, hs⟩ := CircularBuffer.runCalls_simulates
    (CircularBuffer.represents_new ptr hlen) (cs.map Call.onCircular)
  obtain ⟨hqueue, hanswers⟩ :=
    fifoCalls_alike (BoundedFifo.empty : BoundedFifo UInt8 CAPACITY) cs
  rw [← hqueue] at hs
  have hitems : s.queue = run.2.queue := hs.queue_eq.trans hrun.2.symm
  refine ⟨_, s, hcircular, ?_, hitems, ?_, ?_⟩
  · rw [hconst]
    exact hanswers
  · rw [CircularBuffer.len_eq hs.wf, hitems, hrun.1.length_queue]
  · rw [CircularBuffer.freeSpace_eq hs.wf, hitems, hrun.1.length_queue, hs.capacity_eq]
    rfl

/-- Both wrap, both refuse what does not fit, and one refuses no bytes. -/
theorem rings_agree_aroundTheEnd :
    ∃ answers s, (CircularBuffer.new 16 3 [7, 8, 9]).runCalls
        (([.write [1, 2], .readByte, .write [3], .write [], .writeByte 4] : List Call).map
          Call.onCircular) = .ok (answers, s) ∧
      ((ConstCircularBuffer.new 2).runCalls
        (([.write [1, 2], .readByte, .write [3], .write [], .writeByte 4] : List Call).map
          Call.onConst)).1.map inCircular = answers.map some ∧ s.queue = [2, 3] ∧
      s.len = .ok 2 ∧ s.freeSpace = .ok 0 :=
  rings_agree 2 (by decide) 16 [7, 8, 9] rfl
    [.write [1, 2], .readByte, .write [3], .write [], .writeByte 4]

end AvrBridge.RingEquivalence
