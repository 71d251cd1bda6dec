import AvrBridge.ConstCircularBuffer
import AvrBridge.Fifo

/-! `ConstCircularBuffer` refines the abstract bounded queue. Every bulk copy is
first rewritten as one cyclic read or write of `Window`; the position invariant
`WF` and the queue behind it then follow from the window lemmas. -/

namespace AvrBridge.ConstCircularBuffer

open Rust Window Fifo

variable {CAPACITY : Nat}

/-- The three position fields agree with each other and with the storage. -/
structure WF (s : ConstCircularBuffer CAPACITY) : Prop where
  length_buf : s.buf.length = CAPACITY
  rPos_lt : s.rPos < CAPACITY
  wPos_lt : s.wPos < CAPACITY
  len_le : s.len ≤ CAPACITY
  wPos_eq : s.wPos = (s.rPos + s.len) % CAPACITY

/-- The `len` bytes found cyclically from `r_pos`. -/
def queue (s : ConstCircularBuffer CAPACITY) : List UInt8 := window s.buf s.rPos s.len

theorem WF.length_queue {s : ConstCircularBuffer CAPACITY} (h : s.WF) :
    s.queue.length = s.len := length_window (by have := h.len_le; have := h.length_buf; omega)

theorem WF.len_of_nil {s : ConstCircularBuffer CAPACITY} (h : s.WF) (hq : s.queue = []) :
    s.len = 0 := by
  rw [← h.length_queue, hq, List.length_nil]

theorem WF.len_of_cons {s : ConstCircularBuffer CAPACITY} (h : s.WF) {byte : UInt8}
    {rest : List UInt8} (hq : s.queue = byte :: rest) : s.len = rest.length + 1 := by
  rw [← h.length_queue, hq, List.length_cons]

theorem WF.wPos_eq_wrap {s : ConstCircularBuffer CAPACITY} (h : s.WF) :
    s.wPos = wrap s.buf.length (s.rPos + s.len) := by
  have := h.rPos_lt
  have := h.len_le
  rw [h.length_buf, wrap_eq_mod (by omega), h.wPos_eq]

theorem wrapPos_eq_wrap (CAPACITY pos : Nat) : wrapPos CAPACITY pos = wrap CAPACITY pos := by
  unfold wrapPos wrap
  split <;> split <;> omega

theorem new_wf (hcap : 1 ≤ CAPACITY) : (new CAPACITY).WF where
  length_buf := List.length_replicate
  rPos_lt := hcap
  wPos_lt := hcap
  len_le := Nat.zero_le _
  wPos_eq := by simp [new]

theorem new_queue : (new CAPACITY).queue = [] := window_zero _ _

theorem reset_wf {s : ConstCircularBuffer CAPACITY} (h : s.WF) : s.reset.2.WF where
  length_buf := h.length_buf
  rPos_lt := Nat.lt_of_le_of_lt (Nat.zero_le _) h.rPos_lt
  wPos_lt := Nat.lt_of_le_of_lt (Nat.zero_le _) h.rPos_lt
  len_le := Nat.zero_le _
  wPos_eq := by simp [reset]

theorem isEmpty_iff {s : ConstCircularBuffer CAPACITY} (h : s.WF) :
    s.isEmpty = true ↔ s.queue = [] := by
  rw [← List.length_eq_zero_iff, h.length_queue]
  simp [isEmpty]

theorem isEmpty_of_ne {s : ConstCircularBuffer CAPACITY} (h : s.WF) (hs : s.queue ≠ []) :
    s.isEmpty = false := by
  rw [Bool.eq_false_iff, ne_eq, isEmpty_iff h]
  exact hs

theorem isFull_iff {s : ConstCircularBuffer CAPACITY} : s.isFull = true ↔ s.len = CAPACITY :=
  beq_iff_eq

theorem isFull_of_lt {s : ConstCircularBuffer CAPACITY} (hs : s.len < CAPACITY) :
    s.isFull = false := by
  rw [Bool.eq_false_iff, ne_eq, isFull_iff]
  exact Nat.ne_of_lt hs

/-! ## Taking bytes out -/

/-- Move the read position past `n` bytes. -/
def advance (s : ConstCircularBuffer CAPACITY) (n : Nat) : ConstCircularBuffer CAPACITY :=
  { s with rPos := wrapPos CAPACITY (s.rPos + n), len := s.len - n }

theorem advance_wf {s : ConstCircularBuffer CAPACITY} (h : s.WF) {n : Nat} (hn : n ≤ s.len) :
    (s.advance n).WF := by
  have hr := h.rPos_lt
  have hl := h.len_le
  have hw : wrapPos CAPACITY (s.rPos + n) = (s.rPos + n) % CAPACITY := by
    rw [wrapPos_eq_wrap, wrap_eq_mod (by omega)]
  refine ⟨h.length_buf, ?_, h.wPos_lt, by simp only [advance]; omega, ?_⟩
  · simp only [advance, hw]
    exact Nat.mod_lt _ (by omega)
  · simp only [advance, hw, Nat.mod_add_mod]
    rw [h.wPos_eq]
    congr 1; omega

theorem advance_queue {s : ConstCircularBuffer CAPACITY} (h : s.WF) {n : Nat} (hn : n ≤ s.len) :
    (s.advance n).queue = s.queue.drop n := by
  have hb := h.length_buf
  have hr := h.rPos_lt
  have hl := h.len_le
  simp only [queue, advance]
  rw [drop_window (by omega) (by omega) hn, wrapPos_eq_wrap, hb]

/-- One byte taken out leaves the others. -/
theorem advance_one {s : ConstCircularBuffer CAPACITY} (h : s.WF) {byte : UInt8}
    {rest : List UInt8} (hq : s.queue = byte :: rest) :
    (s.advance 1).WF ∧ (s.advance 1).queue = rest := by
  have hlen := h.len_of_cons hq
  constructor
  · exact advance_wf h (by omega)
  · rw [advance_queue h (by omega), hq, List.drop_one, List.tail_cons]

/-- Both copies together store the selected bytes at the start of `dest`. -/
theorem copyOut_eq {firstHalf secondHalf dest : List UInt8} {off f len : Nat}
    (hf : f ≤ len) (hlen : len ≤ dest.length) (ha : off + f ≤ firstHalf.length)
    (hb : len - f ≤ secondHalf.length) :
    copyOut firstHalf off secondHalf dest f len =
      (firstHalf.drop off).take f ++ secondHalf.take (len - f) ++ dest.drop len := by
  have h1 : ((firstHalf.drop off).take f).length = f := by
    rw [List.length_take, List.length_drop]; omega
  have h2 : (secondHalf.take (len - f)).length = len - f := by rw [List.length_take]; omega
  have hs : splice (splice dest 0 ((firstHalf.drop off).take f)) f (secondHalf.take (len - f)) =
      splice dest 0 ((firstHalf.drop off).take f ++ secondHalf.take (len - f)) := by
    rw [← splice_splice_append (by omega), h1, Nat.zero_add]
  have hall : splice dest 0 ((firstHalf.drop off).take f ++ secondHalf.take (len - f)) =
      (firstHalf.drop off).take f ++ secondHalf.take (len - f) ++ dest.drop len := by
    rw [splice_zero, List.length_append, h1, h2]
    congr 2; omega
  simp only [copyOut, copyNonoverlapping, List.drop_zero]
  split
  · rw [hs, hall]
  · have hz : len - f = 0 := by omega
    rw [← hall, hz]
    simp

/-- The split copies of `read` store the oldest `len` bytes. -/
theorem copyOut_ring {s : ConstCircularBuffer CAPACITY} (h : s.WF) {dest : List UInt8} {len : Nat}
    (hq : len ≤ s.len) (hd : len ≤ dest.length) :
    copyOut s.buf s.rPos s.buf dest (min len (CAPACITY - s.rPos)) len =
      s.queue.take len ++ dest.drop len := by
  have hb := h.length_buf
  have hr := h.rPos_lt
  have hl := h.len_le
  rw [copyOut_eq (by omega) hd (by omega) (by omega), queue, take_window,
    Nat.min_eq_left hq, window_eq_append (by omega) (by omega)]
  congr 2
  · by_cases hc : len ≤ CAPACITY - s.rPos
    · rw [Nat.min_eq_left hc]
    · rw [Nat.min_eq_right (by omega), List.take_of_length_le (by rw [List.length_drop]; omega),
        List.take_of_length_le (by rw [List.length_drop]; omega)]
  · congr 1; omega

/-! What the reads answer on an empty ring. -/

theorem readByte_of_nil {s : ConstCircularBuffer CAPACITY} (h : s.WF) (hs : s.queue = []) :
    s.readByte = (.error .sourceEmpty, s) := by
  rw [readByte, if_pos ((isEmpty_iff h).mpr hs)]

theorem read_of_nil {s : ConstCircularBuffer CAPACITY} (h : s.WF) {dest : List UInt8}
    (hd : dest ≠ []) (hs : s.queue = []) : s.read dest = (.error .sourceEmpty, s, dest) := by
  rw [read, if_neg (by rwa [List.isEmpty_iff]), if_pos ((isEmpty_iff h).mpr hs)]

theorem readTo_of_nil {s : ConstCircularBuffer CAPACITY} (h : s.WF) (term : UInt8)
    {dest : List UInt8} (hd : dest ≠ []) (hs : s.queue = []) :
    s.readTo term dest = (.error .sourceEmpty, s, dest) := by
  rw [readTo, if_neg (by rwa [List.isEmpty_iff]), if_pos ((isEmpty_iff h).mpr hs)]

/-- `read` on a nonempty ring and destination. -/
theorem read_eq {s : ConstCircularBuffer CAPACITY} (h : s.WF) {dest : List UInt8}
    (hd : dest ≠ []) (hs : s.queue ≠ []) :
    s.read dest = (.ok (min dest.length s.len), s.advance (min dest.length s.len),
      s.queue.take (min dest.length s.len) ++ dest.drop (min dest.length s.len)) := by
  have he : s.isEmpty = false := isEmpty_of_ne h hs
  have hd' : dest.isEmpty = false := by simpa using hd
  simp only [read, hd', he, Bool.false_eq_true, if_false, advance]
  rw [copyOut_ring h (by omega) (by omega)]

theorem halves_spec {s : ConstCircularBuffer CAPACITY} (h : s.WF) {n : Nat} (hn : n ≤ s.len) :
    (s.halves n (CAPACITY - s.rPos)).1 ++ (s.halves n (CAPACITY - s.rPos)).2 = s.queue.take n ∧
    (s.halves n (CAPACITY - s.rPos)).1.length = min n (CAPACITY - s.rPos) := by
  have hb := h.length_buf
  have hr := h.rPos_lt
  have hl := h.len_le
  rw [queue, take_window, Nat.min_eq_left hn, window_eq_append (by omega) (by omega)]
  unfold halves slice
  split
  · have hz : n - (s.buf.length - s.rPos) = 0 := by omega
    simp only [hz, Nat.add_sub_cancel_left, List.take_zero, Nat.sub_zero, List.append_nil,
      List.length_take, List.length_drop, true_and]
    omega
  · rw [hb]
    have hall : ∀ m, CAPACITY - s.rPos ≤ m → (s.buf.drop s.rPos).take m = s.buf.drop s.rPos :=
      fun m hm => List.take_of_length_le (by rw [List.length_drop]; omega)
    simp only [hall _ (Nat.le_refl _), hall n (by omega), List.drop_zero, Nat.sub_zero,
      List.length_drop, true_and]
    omega

/-- Together the halves hold the bytes that may be read. -/
theorem length_halves {s : ConstCircularBuffer CAPACITY} (h : s.WF) {n : Nat} (hn : n ≤ s.len) :
    (s.halves n (CAPACITY - s.rPos)).1.length + (s.halves n (CAPACITY - s.rPos)).2.length = n := by
  rw [← List.length_append, (halves_spec h hn).1, List.length_take, h.length_queue,
    Nat.min_eq_left hn]

/-- Searching the two halves is searching the bytes in reading order. -/
theorem findTerm_eq (a b : List UInt8) (term : UInt8) (n : Nat) :
    findTerm a b term n =
      match (a ++ b).findIdx? (· == term) with
      | some i => (true, i + 1)
      | none => (false, n) := by
  rw [findTerm, List.findIdx?_append]
  cases a.findIdx? (· == term) with
  | some i => rfl
  | none =>
    cases b.findIdx? (· == term) with
    | some j => simp only [Option.map_some, Option.or_some, Nat.add_comm j]; rfl
    | none => rfl

/-- `readTo` on a nonempty ring and destination. -/
theorem readTo_eq {s : ConstCircularBuffer CAPACITY} (h : s.WF) (term : UInt8)
    {dest : List UInt8} (hd : dest ≠ []) (hs : s.queue ≠ []) :
    s.readTo term dest =
      match (s.queue.take (min dest.length s.len)).findIdx? (· == term) with
      | some i => (.ok (.complete (i + 1)), s.advance (i + 1),
          s.queue.take (i + 1) ++ dest.drop (i + 1))
      | none => (.ok (.partialRead (min dest.length s.len)), s.advance (min dest.length s.len),
          s.queue.take (min dest.length s.len) ++ dest.drop (min dest.length s.len)) := by
  have he : s.isEmpty = false := isEmpty_of_ne h hs
  have hd' : dest.isEmpty = false := by simpa using hd
  have hn : min dest.length s.len ≤ s.len := Nat.min_le_right ..
  generalize hm : min dest.length s.len = n at hn
  obtain ⟨happ, hlen⟩ := halves_spec h hn
  have hsum := length_halves h hn
  have hq : (s.queue.take n).length = n := by rw [List.length_take, h.length_queue]; omega
  -- the copy of any selected length is a copy out of the two halves in reading order
  have hcopy : ∀ len, len ≤ n → copyOut (s.halves n (CAPACITY - s.rPos)).1 0
      (s.halves n (CAPACITY - s.rPos)).2 dest (min len (CAPACITY - s.rPos)) len =
        s.queue.take len ++ dest.drop len := by
    intro len hle
    rw [copyOut_eq (by omega) (by omega) (by omega) (by omega), List.drop_zero]
    have htake : s.queue.take len = (s.queue.take n).take len := by
      rw [List.take_take, Nat.min_eq_left hle]
    rw [htake, ← happ, List.take_append, hlen]
    congr 2
    · by_cases hc : len ≤ CAPACITY - s.rPos
      · rw [Nat.min_eq_left hc]
      · rw [List.take_of_length_le (by omega), List.take_of_length_le (by omega)]
    · congr 1; omega
  simp only [readTo, hd', he, Bool.false_eq_true, if_false, hm, findTerm_eq, happ]
  cases hf : (s.queue.take n).findIdx? (· == term) with
  | none => simp only [hcopy n (Nat.le_refl _), advance, Bool.false_eq_true, if_false]
  | some i =>
    have hi : i < n := by
      have := (List.findIdx?_eq_some_iff_getElem.mp hf).1
      omega
    simp only [hcopy (i + 1) hi, advance, if_true]

/-- A read leaves everything as it is, or takes the oldest bytes off the ring. -/
theorem read_cases {s : ConstCircularBuffer CAPACITY} (h : s.WF) (dest : List UInt8) :
    (∃ e, s.read dest = (.error e, s, dest)) ∨ ∃ n, n ≤ s.len ∧ n ≤ dest.length ∧
      s.read dest = (.ok n, s.advance n, s.queue.take n ++ dest.drop n) := by
  by_cases hd : dest = []
  · exact .inl ⟨.destinationEmpty, by rw [read, if_pos (List.isEmpty_iff.mpr hd)]⟩
  by_cases hs : s.queue = []
  · exact .inl ⟨.sourceEmpty, read_of_nil h hd hs⟩
  · exact .inr ⟨_, Nat.min_le_right .., Nat.min_le_left .., read_eq h hd hs⟩

theorem readTo_cases {s : ConstCircularBuffer CAPACITY} (h : s.WF) (term : UInt8)
    (dest : List UInt8) :
    (∃ e, s.readTo term dest = (.error e, s, dest)) ∨
      ∃ status : ReadStatus, status.count ≤ s.len ∧ status.count ≤ dest.length ∧
        s.readTo term dest = (.ok status, s.advance status.count,
          s.queue.take status.count ++ dest.drop status.count) := by
  by_cases hd : dest = []
  · exact .inl ⟨.destinationEmpty, by rw [readTo, if_pos (List.isEmpty_iff.mpr hd)]⟩
  by_cases hs : s.queue = []
  · exact .inl ⟨.sourceEmpty, readTo_of_nil h term hd hs⟩
  · rw [readTo_eq h term hd hs]
    cases hf : (s.queue.take (min dest.length s.len)).findIdx? (· == term) with
    | none => exact .inr ⟨.partialRead _, Nat.min_le_right .., Nat.min_le_left .., rfl⟩
    | some i =>
      have hi := (List.findIdx?_eq_some_iff_getElem.mp hf).1
      rw [List.length_take, h.length_queue] at hi
      refine .inr ⟨.complete (i + 1), ?_, ?_, rfl⟩ <;> simp only [ReadStatus.count] <;> omega

/-! ## Putting bytes in -/

/-- Both copies of a write are one cyclic write at `w_pos`. -/
theorem copyIn_buf {s : ConstCircularBuffer CAPACITY} (h : s.WF) {src : List UInt8} {len : Nat}
    (hlen : len ≤ src.length) :
    (s.copyIn src len).buf = ringWrite s.buf s.wPos (src.take len) := by
  have hb := h.length_buf
  have hfst : (src.take len).take (CAPACITY - s.wPos) =
      src.take (min len (CAPACITY - s.wPos)) := by rw [List.take_take, Nat.min_comm]
  simp only [copyIn, copyNonoverlapping, ringWrite, List.drop_zero, hb, hfst]
  split
  · have hm : min len (CAPACITY - s.wPos) = CAPACITY - s.wPos := by omega
    rw [hm, List.drop_take]
  · have hz : (src.take len).drop (CAPACITY - s.wPos) = [] :=
      List.drop_of_length_le (by rw [List.length_take]; omega)
    rw [hz, splice_nil]

theorem copyIn_wf {s : ConstCircularBuffer CAPACITY} (h : s.WF) {src : List UInt8} {len : Nat}
    (hlen : len ≤ src.length) (hfit : s.len + len ≤ CAPACITY) : (s.copyIn src len).WF := by
  have hb := h.length_buf
  have hr := h.rPos_lt
  have hw := h.wPos_lt
  have hpos : (s.copyIn src len).wPos = (s.wPos + len) % CAPACITY := by
    rw [← wrap_eq_mod (by omega), ← wrapPos_eq_wrap]; rfl
  refine ⟨?_, hr, ?_, hfit, ?_⟩
  · rw [copyIn_buf h hlen, length_ringWrite (by omega) (by rw [List.length_take]; omega), hb]
  · rw [hpos]
    exact Nat.mod_lt _ (by omega)
  · rw [hpos, h.wPos_eq, Nat.mod_add_mod]
    simp only [copyIn]
    congr 1; omega

theorem copyIn_queue {s : ConstCircularBuffer CAPACITY} (h : s.WF) {src : List UInt8} {len : Nat}
    (hlen : len ≤ src.length) (hfit : s.len + len ≤ CAPACITY) :
    (s.copyIn src len).queue = s.queue ++ src.take len := by
  have hb := h.length_buf
  have hr := h.rPos_lt
  have ht : (src.take len).length = len := by rw [List.length_take]; omega
  have hq : window (ringWrite s.buf (wrap s.buf.length (s.rPos + s.len)) (src.take len)) s.rPos
      (s.len + (src.take len).length) = s.queue ++ src.take len :=
    window_ringWrite (by omega) (by omega)
  rw [← h.wPos_eq_wrap, ← copyIn_buf h hlen, ht] at hq
  exact hq

/-- Writing one byte is the block write of a one-byte slice. -/
theorem writeByte_eq {s : ConstCircularBuffer CAPACITY} (h : s.WF) (hf : s.len < CAPACITY)
    (byte : UInt8) : s.writeByte byte = (.ok (), s.copyIn [byte] 1) := by
  have hb := h.length_buf
  have hw := h.wPos_lt
  have hfull : s.isFull = false := isFull_of_lt hf
  have hbuf : s.buf.set s.wPos byte = (s.copyIn [byte] 1).buf := by
    rw [copyIn_buf h (by simp), set_eq_ringWrite (by omega)]
    rfl
  have hpos : (if s.wPos + 1 = CAPACITY then 0 else s.wPos + 1) =
      wrapPos CAPACITY (s.wPos + 1) := by
    unfold wrapPos
    split <;> split <;> omega
  simp only [writeByte, hfull, Bool.false_eq_true, if_false, hbuf, hpos, copyIn]

theorem readByte_eq {s : ConstCircularBuffer CAPACITY} (h : s.WF) {byte : UInt8}
    {rest : List UInt8} (hq : s.queue = byte :: rest) :
    s.readByte = (.ok byte, s.advance 1) := by
  have hb := h.length_buf
  have hr := h.rPos_lt
  have hn := h.len_of_cons hq
  have hl := h.len_le
  have he : s.isEmpty = false := isEmpty_of_ne h (by simp [hq])
  have hbyte : s.buf.getD s.rPos 0 = byte := by
    have h0 : s.queue[0]? = s.buf[s.rPos]? := by
      rw [queue, getElem?_window (by omega) (by omega), if_pos (by omega), Nat.add_zero, wrap,
        if_pos (by omega)]
    rw [List.getD_eq_getElem?_getD, ← h0, hq]
    rfl
  have hpos : (if s.rPos + 1 = CAPACITY then 0 else s.rPos + 1) =
      wrapPos CAPACITY (s.rPos + 1) := by
    unfold wrapPos
    split <;> split <;> omega
  simp only [readByte, he, Bool.false_eq_true, if_false, hbyte, hpos, advance]

/-! ## The abstract calls -/

/-- A call on the buffer, with the arguments it borrows. -/
inductive Call where
  | new
  | reset
  | readByte
  | read (dest : List UInt8)
  | readTo (term : UInt8) (dest : List UInt8)
  | writeByte (byte : UInt8)
  | writeAll (src : List UInt8)
  | write (src : List UInt8)

/-- What a call returns, with the destination slice after it. -/
inductive Answer where
  | new
  | reset (capacity : Nat)
  | readByte (result : Except ReadError UInt8)
  | read (result : Except ReadError Nat) (dest : List UInt8)
  | readTo (result : Except ReadError ReadStatus) (dest : List UInt8)
  | writeByte (result : Except BufferError Unit)
  | write (result : Except WriteError Nat)

/-- The byte count of a successful bulk call. -/
def Answer.okCount : Answer → Option Nat
  | .read (.ok n) _ | .write (.ok n) => some n
  | .readTo (.ok status) _ => some status.count
  | _ => none

def call (s : ConstCircularBuffer CAPACITY) : Call → Answer × ConstCircularBuffer CAPACITY
  | .new => (.new, ConstCircularBuffer.new CAPACITY)
  | .reset => (.reset s.reset.1, s.reset.2)
  | .readByte => (.readByte s.readByte.1, s.readByte.2)
  | .read dest => (.read (s.read dest).1 (s.read dest).2.2, (s.read dest).2.1)
  | .readTo term dest =>
      (.readTo (s.readTo term dest).1 (s.readTo term dest).2.2, (s.readTo term dest).2.1)
  | .writeByte byte => (.writeByte (s.writeByte byte).1, (s.writeByte byte).2)
  | .writeAll src => (.write (s.writeAll src).1, (s.writeAll src).2)
  | .write src => (.write (s.write src).1, (s.write src).2)

/-- The calls one after another from state `s`: every answer and the last state. -/
def runCalls (s : ConstCircularBuffer CAPACITY) :
    List Call → List Answer × ConstCircularBuffer CAPACITY
  | [] => ([], s)
  | c :: cs => ((s.call c).1 :: ((s.call c).2.runCalls cs).1, ((s.call c).2.runCalls cs).2)

/-- What the same call does to a bounded queue of bytes. -/
def fifoCall (q : BoundedFifo UInt8 CAPACITY) : Call → Answer × BoundedFifo UInt8 CAPACITY
  | .new => (.new, .empty)
  | .reset => (.reset CAPACITY, .empty)
  | .readByte =>
      match q.items with
      | [] => (.readByte (.error .sourceEmpty), q)
      | byte :: _ => (.readByte (.ok byte), q.discard 1)
  | .read dest =>
      if dest = [] then (.read (.error .destinationEmpty) dest, q)
      else if q.items = [] then (.read (.error .sourceEmpty) dest, q)
      else
        let n := min dest.length q.items.length
        (.read (.ok n) (q.items.take n ++ dest.drop n), q.discard n)
  | .readTo term dest =>
      if dest = [] then (.readTo (.error .destinationEmpty) dest, q)
      else if q.items = [] then (.readTo (.error .sourceEmpty) dest, q)
      else
        let n := min dest.length q.items.length
        match (q.items.take n).findIdx? (· == term) with
        | some i =>
            (.readTo (.ok (.complete (i + 1))) (q.items.take (i + 1) ++ dest.drop (i + 1)),
              q.discard (i + 1))
        | none => (.readTo (.ok (.partialRead n)) (q.items.take n ++ dest.drop n), q.discard n)
  | .writeByte byte =>
      if q.room = 0 then (.writeByte (.error .insufficientSpace), q)
      else (.writeByte (.ok ()), q.offer [byte])
  | .writeAll src =>
      if src = [] then (.write (.error .sourceEmpty), q)
      else if q.room < src.length then (.write (.error .insufficientSpace), q)
      else (.write (.ok src.length), q.offer src)
  | .write src =>
      if src = [] then (.write (.error .sourceEmpty), q)
      else if q.room = 0 then (.write (.error .destinationFull), q)
      else (.write (.ok (min src.length q.room)), q.offer src)

def fifoCalls (q : BoundedFifo UInt8 CAPACITY) :
    List Call → List Answer × BoundedFifo UInt8 CAPACITY
  | [] => ([], q)
  | c :: cs => ((fifoCall q c).1 :: (fifoCalls (fifoCall q c).2 cs).1,
      (fifoCalls (fifoCall q c).2 cs).2)

/-! ## The simulation -/

/-- `s` is well formed and stores exactly `q`. -/
def Represents (s : ConstCircularBuffer CAPACITY) (q : BoundedFifo UInt8 CAPACITY) : Prop :=
  s.WF ∧ s.queue = q.items

namespace Represents

variable {s : ConstCircularBuffer CAPACITY} {q : BoundedFifo UInt8 CAPACITY}

theorem len_eq (h : Represents s q) : s.len = q.items.length := by
  rw [← h.2, h.1.length_queue]

theorem freeSpace_eq (h : Represents s q) : s.freeSpace = q.room := by
  rw [freeSpace, BoundedFifo.room, h.len_eq]

theorem discard (h : Represents s q) {n : Nat} (hn : n ≤ q.items.length) :
    Represents (s.advance n) (q.discard n) := by
  have hl : n ≤ s.len := by rw [h.len_eq]; exact hn
  exact ⟨advance_wf h.1 hl, by rw [advance_queue h.1 hl, h.2, BoundedFifo.items_discard]⟩

theorem offer (h : Represents s q) (src : List UInt8) :
    Represents (s.copyIn src (min src.length s.freeSpace)) (q.offer src) := by
  have hl := h.1.len_le
  have hfree : s.freeSpace = CAPACITY - s.len := rfl
  have hle : min src.length s.freeSpace ≤ src.length := Nat.min_le_left ..
  constructor
  · exact copyIn_wf h.1 hle (by omega)
  · rw [copyIn_queue h.1 hle (by omega), h.2, BoundedFifo.items_offer, ← h.freeSpace_eq]
    congr 1
    by_cases hc : src.length ≤ s.freeSpace
    · rw [Nat.min_eq_left hc, List.take_length, List.take_of_length_le hc]
    · rw [Nat.min_eq_right (by omega)]

end Represents

theorem represents_new (hcap : 1 ≤ CAPACITY) :
    Represents (new CAPACITY) (BoundedFifo.empty : BoundedFifo UInt8 CAPACITY) :=
  ⟨new_wf hcap, new_queue⟩

section Simulation

variable {s : ConstCircularBuffer CAPACITY} {q : BoundedFifo UInt8 CAPACITY}

/-- One call on the buffer answers as the queue does and stays a representation of it. -/
def Simulates (s : ConstCircularBuffer CAPACITY) (q : BoundedFifo UInt8 CAPACITY)
    (c : Call) : Prop :=
  (s.call c).1 = (fifoCall q c).1 ∧ Represents (s.call c).2 (fifoCall q c).2

theorem readByte_simulates (h : Represents s q) : Simulates s q .readByte := by
  cases hq : q.items with
  | nil =>
    simp only [Simulates, call, readByte_of_nil h.1 (h.2.trans hq), fifoCall, hq]
    exact ⟨trivial, h⟩
  | cons byte rest =>
    rw [Simulates, call, readByte_eq h.1 (h.2.trans hq)]
    simp only [fifoCall, hq]
    exact ⟨trivial, h.discard (by simp [hq])⟩

theorem read_simulates (h : Represents s q) (dest : List UInt8) : Simulates s q (.read dest) := by
  by_cases hd : dest = []
  · subst hd
    exact ⟨rfl, h⟩
  by_cases hq : q.items = []
  · simp only [Simulates, call, read_of_nil h.1 hd (h.2.trans hq), fifoCall, hd, hq, if_false,
      if_true]
    exact ⟨trivial, h⟩
  · rw [Simulates, call, read_eq h.1 hd (h.2 ▸ hq)]
    simp only [fifoCall, hd, hq, if_false, h.len_eq, h.2]
    exact ⟨trivial, h.discard (Nat.min_le_right ..)⟩

theorem readTo_simulates (h : Represents s q) (term : UInt8) (dest : List UInt8) :
    Simulates s q (.readTo term dest) := by
  by_cases hd : dest = []
  · subst hd
    exact ⟨rfl, h⟩
  by_cases hq : q.items = []
  · simp only [Simulates, call, readTo_of_nil h.1 term hd (h.2.trans hq), fifoCall, hd, hq,
      if_false, if_true]
    exact ⟨trivial, h⟩
  · rw [Simulates, call, readTo_eq h.1 term hd (h.2 ▸ hq)]
    simp only [fifoCall, hd, hq, if_false, h.len_eq, h.2]
    cases hf : (q.items.take (min dest.length q.items.length)).findIdx? (· == term) with
    | none => exact ⟨rfl, h.discard (Nat.min_le_right ..)⟩
    | some i =>
      have hi := (List.findIdx?_eq_some_iff_getElem.mp hf).1
      rw [List.length_take] at hi
      exact ⟨rfl, h.discard (by omega)⟩

theorem writeByte_simulates (h : Represents s q) (byte : UInt8) :
    Simulates s q (.writeByte byte) := by
  have hl := h.1.len_le
  have hfree : s.freeSpace = CAPACITY - s.len := rfl
  have hroom := h.freeSpace_eq
  by_cases hf : q.room = 0
  · have he : s.isFull = true := isFull_iff.mpr (by omega)
    simp only [Simulates, call, writeByte, he, fifoCall, hf, if_true]
    exact ⟨trivial, h⟩
  · have ho := h.offer [byte]
    rw [List.length_singleton, Nat.min_eq_left (by omega)] at ho
    rw [Simulates, call, writeByte_eq h.1 (by omega)]
    simp only [fifoCall, hf, if_false]
    exact ⟨trivial, ho⟩

theorem writeAll_simulates (h : Represents s q) (src : List UInt8) :
    Simulates s q (.writeAll src) := by
  have hroom := h.freeSpace_eq
  by_cases hs : src = []
  · subst hs
    exact ⟨rfl, h⟩
  by_cases hf : q.room < src.length
  · simp only [Simulates, call, writeAll, List.isEmpty_iff, hs, hroom, hf, fifoCall,
      if_false, if_true]
    exact ⟨trivial, h⟩
  · have ho := h.offer src
    rw [Nat.min_eq_left (by omega)] at ho
    simp only [Simulates, call, writeAll, List.isEmpty_iff, hs, hroom, hf, fifoCall, if_false]
    exact ⟨trivial, ho⟩

theorem write_simulates (h : Represents s q) (src : List UInt8) : Simulates s q (.write src) := by
  have hl := h.1.len_le
  have hfree : s.freeSpace = CAPACITY - s.len := rfl
  have hroom := h.freeSpace_eq
  by_cases hs : src = []
  · subst hs
    exact ⟨rfl, h⟩
  by_cases hf : q.room = 0
  · have he : s.isFull = true := isFull_iff.mpr (by omega)
    simp only [Simulates, call, write, List.isEmpty_iff, hs, he, fifoCall, hf, if_false, if_true]
    exact ⟨trivial, h⟩
  · have he : s.isFull = false := isFull_of_lt (by omega)
    simp only [Simulates, call, write, List.isEmpty_iff, hs, he, fifoCall, hf, if_false,
      Bool.false_eq_true, hroom]
    exact ⟨trivial, hroom ▸ h.offer src⟩

/-- **Simulation step.** -/
theorem call_simulates (hcap : 1 ≤ CAPACITY) (h : Represents s q) (c : Call) :
    Simulates s q c := by
  cases c with
  | new => exact ⟨rfl, represents_new hcap⟩
  | reset => exact ⟨rfl, reset_wf h.1, window_zero _ _⟩
  | readByte => exact readByte_simulates h
  | read dest => exact read_simulates h dest
  | readTo term dest => exact readTo_simulates h term dest
  | writeByte byte => exact writeByte_simulates h byte
  | writeAll src => exact writeAll_simulates h src
  | write src => exact write_simulates h src

/-- **Simulation of a run.** -/
theorem runCalls_simulates (hcap : 1 ≤ CAPACITY) (h : Represents s q) (cs : List Call) :
    (s.runCalls cs).1 = (fifoCalls q cs).1 ∧ Represents (s.runCalls cs).2 (fifoCalls q cs).2 := by
  induction cs generalizing s q with
  | nil => exact ⟨rfl, h⟩
  | cons c cs ih =>
    obtain ⟨ha, hr⟩ := call_simulates hcap h c
    obtain ⟨has, hrs⟩ := ih hr
    exact ⟨by rw [runCalls, fifoCalls, ha, has], hrs⟩

/-- A successful bulk call of the abstract queue moves at least one byte. -/
theorem fifoCall_okCount (q : BoundedFifo UInt8 CAPACITY) (c : Call) {n : Nat}
    (hn : (fifoCall q c).1.okCount = some n) : 1 ≤ n := by
  have hpos : ∀ {l : List UInt8}, l ≠ [] → 1 ≤ l.length := List.length_pos_iff.mpr
  cases c with
  | new | reset => cases hn
  | readByte => simp only [fifoCall] at hn; split at hn <;> cases hn
  | writeByte byte => simp only [fifoCall] at hn; split at hn <;> cases hn
  | read dest =>
    simp only [fifoCall] at hn
    split at hn
    · cases hn
    split at hn
    · cases hn
    · cases hn
      have := hpos ‹dest ≠ []›
      have := hpos ‹q.items ≠ []›
      omega
  | readTo term dest =>
    simp only [fifoCall] at hn
    split at hn
    · cases hn
    split at hn
    · cases hn
    split at hn
    · cases hn
      exact Nat.le_add_left ..
    · cases hn
      have := hpos ‹dest ≠ []›
      have := hpos ‹q.items ≠ []›
      simp only [ReadStatus.count]
      omega
  | writeAll src =>
    simp only [fifoCall] at hn
    split at hn
    · cases hn
    split at hn
    · cases hn
    · cases hn
      exact hpos ‹src ≠ []›
  | write src =>
    simp only [fifoCall] at hn
    split at hn
    · cases hn
    split at hn
    · cases hn
    · cases hn
      have := hpos ‹src ≠ []›
      omega

theorem fifoCalls_okCount (q : BoundedFifo UInt8 CAPACITY) (cs : List Call) {a : Answer} {n : Nat}
    (ha : a ∈ (fifoCalls q cs).1) (hn : a.okCount = some n) : 1 ≤ n := by
  induction cs generalizing q with
  | nil => cases ha
  | cons c cs ih =>
    rcases List.mem_cons.mp ha with rfl | hrest
    · exact fifoCall_okCount q c hn
    · exact ih _ hrest

end Simulation

/-- **Refinement.** After every sequence of calls the position fields are
consistent, the stored bytes are those of the bounded queue, and every answer
and destination slice was the queue's; a successful bulk call moved a byte. -/
theorem refines_boundedFifo (CAPACITY : Nat) (hcap : 1 ≤ CAPACITY) (cs : List Call) :
    let run := (new CAPACITY).runCalls cs
    let spec := fifoCalls (BoundedFifo.empty : BoundedFifo UInt8 CAPACITY) cs
    (run.2.rPos < CAPACITY ∧ run.2.wPos < CAPACITY ∧ run.2.len ≤ CAPACITY ∧
      run.2.wPos = (run.2.rPos + run.2.len) % CAPACITY) ∧
    run.2.queue = spec.2.items ∧ run.1 = spec.1 ∧
    ∀ a ∈ run.1, ∀ n, a.okCount = some n → 1 ≤ n := by
  obtain ⟨ha, hwf, hq⟩ := runCalls_simulates hcap (represents_new hcap) cs
  refine ⟨⟨hwf.rPos_lt, hwf.wPos_lt, hwf.len_le, hwf.wPos_eq⟩, hq, ha, fun a hmem n hn => ?_⟩
  rw [ha] at hmem
  exact fifoCalls_okCount _ cs hmem hn

/-- A ring of three bytes whose second write wraps and whose read crosses the end. -/
theorem refines_boundedFifo_three :
    ((new 3).runCalls [.write [1, 2], .readByte, .write [3, 4, 5], .read [0, 0, 0]]).2.wPos =
      (((new 3).runCalls [.write [1, 2], .readByte, .write [3, 4, 5], .read [0, 0, 0]]).2.rPos +
        ((new 3).runCalls [.write [1, 2], .readByte, .write [3, 4, 5], .read [0, 0, 0]]).2.len)
        % 3 :=
  (refines_boundedFifo 3 (by decide)
    [.write [1, 2], .readByte, .write [3, 4, 5], .read [0, 0, 0]]).1.2.2.2

end AvrBridge.ConstCircularBuffer
