import AvrBridge.CircularBuffer
import AvrBridge.Fifo

/-! `CircularBuffer` refines the bounded queue that is one place smaller than its memory.
The length is not stored: it is read off the two pointers, and since a full buffer keeps
one place open, equal pointers always mean empty. -/

namespace AvrBridge.CircularBuffer

open Rust Window Fifo

/-! ## The queue behind the pointers -/

/-- Both pointers are in `[start_ptr, end_ptr)`. -/
structure WF (s : CircularBuffer) : Prop where
  length_storage : s.storage.length = s.capacity
  endPtr_eq : s.endPtr = s.startPtr + s.capacity
  startPtr_le_readPtr : s.startPtr ≤ s.readPtr
  readPtr_lt : s.readPtr < s.endPtr
  startPtr_le_writePtr : s.startPtr ≤ s.writePtr
  writePtr_lt : s.writePtr < s.endPtr

def rPos (s : CircularBuffer) : Nat := s.readPtr - s.startPtr

/-- The number of places from the read pointer on to the write pointer. -/
def count (s : CircularBuffer) : Nat :=
  if s.readPtr ≤ s.writePtr then s.writePtr - s.readPtr
  else s.capacity + s.writePtr - s.readPtr

/-- The bytes in these places. -/
def queue (s : CircularBuffer) : List UInt8 := window s.storage s.rPos s.count

variable {s : CircularBuffer}

theorem WF.rPos_lt (h : s.WF) : s.rPos < s.storage.length := by
  have hlen := h.length_storage
  have hend := h.endPtr_eq
  have hr := h.startPtr_le_readPtr
  have hr' := h.readPtr_lt
  unfold rPos
  omega

theorem WF.writePos_lt (h : s.WF) : s.writePtr - s.startPtr < s.storage.length := by
  have hlen := h.length_storage
  have hend := h.endPtr_eq
  have hw := h.startPtr_le_writePtr
  have hw' := h.writePtr_lt
  omega

/-- The count is the way from the read pointer to the write pointer. -/
theorem WF.count_eq (h : s.WF) :
    s.count = distance s.storage.length s.rPos (s.writePtr - s.startPtr) := by
  have hlen := h.length_storage
  have hr := h.startPtr_le_readPtr
  have hw := h.startPtr_le_writePtr
  unfold count distance rPos
  split <;> split <;> omega

theorem WF.count_lt (h : s.WF) : s.count < s.capacity := by
  rw [h.count_eq, ← h.length_storage]
  exact distance_lt h.rPos_lt h.writePos_lt

theorem WF.length_queue (h : s.WF) : s.queue.length = s.count := by
  have hc := h.count_lt
  have hlen := h.length_storage
  exact length_window (by omega)

/-- The write pointer is `count` places past the read pointer. -/
theorem WF.writePos_eq (h : s.WF) :
    s.writePtr - s.startPtr = wrap s.storage.length (s.rPos + s.count) := by
  rw [h.count_eq, wrap_distance h.rPos_lt h.writePos_lt]

/-- `len` is the number of queued bytes. -/
theorem len_eq (h : s.WF) : s.len = .ok s.queue.length := by
  have hend := h.endPtr_eq
  have hr := h.startPtr_le_readPtr
  have hr' := h.readPtr_lt
  have hw := h.startPtr_le_writePtr
  rw [h.length_queue, len, count]
  by_cases hle : s.readPtr ≤ s.writePtr
  · rw [if_neg (by omega), if_pos hle, asUsize, if_pos (by omega)]
    congr 1
    omega
  · rw [if_pos (by omega), if_neg hle, asUsize, if_pos (by omega)]
    congr 1
    omega

theorem freeSpace_eq (h : s.WF) : s.freeSpace = .ok (s.capacity - 1 - s.queue.length) := by
  have hlt := h.count_lt
  rw [← h.length_queue] at hlt
  rw [freeSpace, len_eq h, ok_bind, subUsize, if_pos (by omega), ok_bind, subUsize,
    if_pos (by omega)]
  congr 1
  omega

/-- `is_full` agrees with `write_byte`. -/
theorem isFull_eq (h : s.WF) : s.isFull = .ok (s.queue.length == s.capacity - 1) := by
  have hlt := h.count_lt
  rw [← h.length_queue] at hlt
  rw [isFull, freeSpace_eq h, ok_bind]
  congr 1
  rw [Bool.eq_iff_iff, beq_iff_eq, beq_iff_eq]
  omega

/-! ## Moving the pointers -/

/-- The state with the read pointer `n` places further. -/
def skip (s : CircularBuffer) (n : Nat) : CircularBuffer :=
  { s with readPtr := s.startPtr + wrap s.capacity (s.rPos + n) }

/-- The state with these bytes behind the queue and the write pointer past them. -/
def append (s : CircularBuffer) (bytes : List UInt8) : CircularBuffer :=
  { s with
    storage := ringWrite s.storage (s.writePtr - s.startPtr) bytes
    writePtr := s.startPtr + wrap s.capacity (s.writePtr - s.startPtr + bytes.length) }

theorem skip_wf (h : s.WF) {n : Nat} (hn : n ≤ s.count) : (s.skip n).WF := by
  have hlt := h.rPos_lt
  have hc := h.count_lt
  have hlen := h.length_storage
  have hwrap : wrap s.capacity (s.rPos + n) < s.capacity := wrap_lt (by omega)
  refine ⟨hlen, h.endPtr_eq, Nat.le_add_right .., ?_, h.startPtr_le_writePtr, h.writePtr_lt⟩
  show s.startPtr + wrap s.capacity (s.rPos + n) < s.endPtr
  rw [h.endPtr_eq]
  omega

theorem skip_queue (h : s.WF) {n : Nat} (hn : n ≤ s.count) :
    (s.skip n).queue = s.queue.drop n := by
  have hc := h.count_lt
  have hlen := h.length_storage
  have hpos : (s.skip n).rPos = wrap s.storage.length (s.rPos + n) := by
    rw [hlen]
    exact Nat.add_sub_cancel_left ..
  have hcount : (s.skip n).count = s.count - n := by
    rw [h.count_eq] at hn ⊢
    rw [(skip_wf h (h.count_eq ▸ hn)).count_eq, hpos]
    exact distance_wrap_left h.rPos_lt h.writePos_lt hn
  rw [queue, queue, drop_window h.rPos_lt (by omega) hn, hpos, hcount]
  rfl

theorem append_wf (h : s.WF) {bytes : List UInt8} (hfit : s.count + bytes.length < s.capacity) :
    (s.append bytes).WF := by
  have hlen := h.length_storage
  have hend := h.endPtr_eq
  have hw := h.startPtr_le_writePtr
  have hw' := h.writePtr_lt
  have hwrap : wrap s.capacity (s.writePtr - s.startPtr + bytes.length) < s.capacity :=
    wrap_lt (by omega)
  refine ⟨?_, hend, h.startPtr_le_readPtr, h.readPtr_lt, Nat.le_add_right .., ?_⟩
  · show (ringWrite s.storage (s.writePtr - s.startPtr) bytes).length = s.capacity
    rw [length_ringWrite (by omega) (by omega), hlen]
  · show s.startPtr + wrap s.capacity (s.writePtr - s.startPtr + bytes.length) < s.endPtr
    omega

theorem append_queue (h : s.WF) {bytes : List UInt8}
    (hfit : s.count + bytes.length < s.capacity) :
    (s.append bytes).queue = s.queue ++ bytes := by
  have hlen := h.length_storage
  have hwpos : (s.append bytes).writePtr - s.startPtr =
      wrap s.storage.length (s.writePtr - s.startPtr + bytes.length) := by
    rw [hlen]
    exact Nat.add_sub_cancel_left ..
  have hcount : (s.append bytes).count = s.count + bytes.length := by
    have hcap : (s.append bytes).storage.length = s.storage.length :=
      (append_wf h hfit).length_storage.trans hlen.symm
    rw [h.count_eq, ← hlen] at hfit
    rw [h.count_eq, (append_wf h (by rwa [h.count_eq, ← hlen])).count_eq, hcap]
    show distance s.storage.length s.rPos ((s.append bytes).writePtr - s.startPtr) = _
    rw [hwpos, distance_wrap_right h.rPos_lt h.writePos_lt hfit]
  have hwrite : window (ringWrite s.storage (wrap s.storage.length (s.rPos + s.count)) bytes)
      s.rPos (s.count + bytes.length) = s.queue ++ bytes :=
    window_ringWrite h.rPos_lt (by omega)
  rw [← h.writePos_eq, ← hcount] at hwrite
  exact hwrite

/-! ## The operations -/

/-- The compare of `read_byte` and `write_byte` against the end. -/
theorem wrapPtr_eq (h : s.WF) {i : Nat} (hi : i ≤ s.capacity) :
    s.wrapPtr (s.startPtr + i) = s.startPtr + wrap s.capacity i := by
  have hend := h.endPtr_eq
  unfold wrapPtr wrap
  split <;> split <;> omega

theorem queue_eq_nil_iff (h : s.WF) : s.queue = [] ↔ s.readPtr = s.writePtr := by
  have hr := h.startPtr_le_readPtr
  have hw := h.startPtr_le_writePtr
  rw [← List.length_eq_zero_iff, h.length_queue, h.count_eq,
    distance_eq_zero_iff h.rPos_lt h.writePos_lt, rPos]
  omega

theorem readByte_nil (h : s.WF) (hq : s.queue = []) :
    s.readByte = .ok (.error .bufferEmpty, s) := by
  rw [readByte, if_pos ((queue_eq_nil_iff h).mp hq)]
  rfl

theorem readByte_cons (h : s.WF) {byte : UInt8} {rest : List UInt8}
    (hq : s.queue = byte :: rest) : s.readByte = .ok (.ok byte, s.skip 1) := by
  have hlt := h.rPos_lt
  have hlen := h.length_storage
  have hc := h.count_lt
  have hpos : 0 < s.count := by
    rw [← h.length_queue, hq]
    exact Nat.succ_pos _
  have hne : s.readPtr ≠ s.writePtr := fun heq => by
    rw [(queue_eq_nil_iff h).mpr heq] at hq
    cases hq
  have hget : s.storage[s.rPos]? = some byte := by
    have h0 : s.queue[0]? = s.storage[s.rPos]? := by
      rw [queue, getElem?_window hlt (by omega), if_pos hpos, Nat.add_zero, wrap, if_pos hlt]
    rw [← h0, hq]
    rfl
  have hload : s.load s.readPtr = .ok byte := by
    rw [load, if_pos ⟨h.startPtr_le_readPtr, h.readPtr_lt⟩]
    exact index_ok hget
  have hwrap : s.wrapPtr (s.readPtr + 1) = s.startPtr + wrap s.capacity (s.rPos + 1) := by
    rw [← wrapPtr_eq h (by omega), rPos]
    have hle := h.startPtr_le_readPtr
    congr 1
    omega
  rw [readByte, if_neg hne, hload, ok_bind, hwrap]
  rfl

/-- Where the write pointer goes, and when that is the read pointer. -/
theorem nextWritePtr_eq (h : s.WF) :
    s.wrapPtr (s.writePtr + 1) =
        s.startPtr + wrap s.capacity (s.writePtr - s.startPtr + 1) ∧
      (s.wrapPtr (s.writePtr + 1) = s.readPtr ↔ s.queue.length = s.capacity - 1) := by
  have hend := h.endPtr_eq
  have hr := h.startPtr_le_readPtr
  have hr' := h.readPtr_lt
  have hw := h.startPtr_le_writePtr
  have hw' := h.writePtr_lt
  have hwrap : s.wrapPtr (s.writePtr + 1) =
      s.startPtr + wrap s.capacity (s.writePtr - s.startPtr + 1) := by
    rw [← wrapPtr_eq h (by omega)]
    congr 1
    omega
  constructor
  · exact hwrap
  · rw [hwrap, h.length_queue, count, wrap]
    split <;> split <;> omega

theorem store_eq (bytes : List UInt8) {ptr : Nat} (hlo : s.startPtr ≤ ptr)
    (hhi : ptr + bytes.length ≤ s.endPtr) :
    s.store ptr bytes =
      .ok { s with storage := splice s.storage (ptr - s.startPtr) bytes } :=
  if_pos ⟨hlo, hhi⟩

theorem writeByte_full (h : s.WF) (hfull : s.queue.length = s.capacity - 1) (byte : UInt8) :
    s.writeByte byte = .ok (.error .insufficientSpace, s) := by
  rw [writeByte, if_pos ((nextWritePtr_eq h).2.mpr hfull)]
  rfl

theorem writeByte_room (h : s.WF) (hroom : s.queue.length ≠ s.capacity - 1) (byte : UInt8) :
    s.writeByte byte = .ok (.ok (), s.append [byte]) := by
  obtain ⟨hnext, hfull⟩ := nextWritePtr_eq h
  have hlen := h.length_storage
  have hend := h.endPtr_eq
  have hlo := h.startPtr_le_writePtr
  have hlt := h.writePtr_lt
  have hone : ringWrite s.storage (s.writePtr - s.startPtr) [byte] =
      splice s.storage (s.writePtr - s.startPtr) [byte] :=
    ringWrite_of_le (by rw [List.length_singleton]; omega)
  rw [writeByte, if_neg (fun heq => hroom (hfull.mp heq)),
    store_eq [byte] hlo hlt, ok_bind, hnext, ← hone]
  rfl

theorem write_full {bytes : List UInt8} (h : s.WF)
    (hfull : s.capacity - 1 - s.queue.length < bytes.length) :
    s.write bytes = .ok (.error .insufficientSpace, s) := by
  rw [write, freeSpace_eq h, ok_bind, if_pos hfull]
  rfl

/-- The two copies of `write` are one cyclic write at the write pointer. -/
theorem write_fits {bytes : List UInt8} (h : s.WF)
    (hfit : bytes.length ≤ s.capacity - 1 - s.queue.length) :
    s.write bytes = .ok (.ok bytes.length, s.append bytes) := by
  have hlen := h.length_storage
  have hend := h.endPtr_eq
  have hlo := h.startPtr_le_writePtr
  have hlt := h.writePtr_lt
  have hspace : asUsize (s.endPtr - s.writePtr) = .ok (s.endPtr - s.writePtr) := by
    rw [asUsize, if_pos (by omega)]
    congr 1
    omega
  rw [write, freeSpace_eq h, ok_bind, if_neg (by omega), hspace, ok_bind]
  by_cases hwraps : s.endPtr - s.writePtr < bytes.length
  · -- the rest goes to the start of the storage, and the write pointer behind it
    have hc := h.count_lt
    rw [h.length_queue] at hfit
    have hfirst := store_eq (bytes.take (s.endPtr - s.writePtr)) hlo
      (by rw [List.length_take]; omega)
    rw [Nat.min_eq_right (Nat.le_of_lt hwraps)]
    simp only [sliceOf_zero (Nat.le_of_lt hwraps), ok_bind, hfirst, subUsize,
      if_pos (Nat.le_of_lt hwraps), sliceOf_length (Nat.le_of_lt hwraps)]
    have hdrop : s.startPtr + (bytes.drop (s.endPtr - s.writePtr)).length ≤ s.endPtr := by
      rw [List.length_drop]
      omega
    have hspace' : s.storage.length - (s.writePtr - s.startPtr) = s.endPtr - s.writePtr := by
      omega
    have hwrap : wrap s.capacity (s.writePtr - s.startPtr + bytes.length) =
        bytes.length - (s.endPtr - s.writePtr) := by
      rw [wrap, if_neg (by omega)]
      omega
    rw [if_pos (by omega), store, if_pos ⟨Nat.le_refl _, hdrop⟩, ok_bind, append, ringWrite,
      hspace', hwrap, Nat.sub_self]
    rfl
  · have hall := store_eq bytes hlo (by omega)
    rw [Nat.min_eq_left (by omega)]
    simp only [sliceOf_zero (Nat.le_refl _), List.take_length, ok_bind, hall, subUsize,
      if_pos (Nat.le_refl _), Nat.sub_self, gt_iff_lt, Nat.lt_irrefl, if_false]
    have hptr : s.wrapPtr (s.writePtr + bytes.length) =
        s.startPtr + wrap s.capacity (s.writePtr - s.startPtr + bytes.length) := by
      rw [← wrapPtr_eq h (by omega)]
      congr 1
      omega
    rw [append, ← hptr, ringWrite_of_le (by omega)]
    rfl

/-! ## The abstract calls -/

inductive Call where
  | reset
  | readByte
  | writeByte (byte : UInt8)
  | write (bytes : List UInt8)

/-- What a call returns. -/
inductive Answer where
  | reset (capacity : Nat)
  | readByte (result : Except BufferError UInt8)
  | writeByte (result : Except BufferError Unit)
  | write (result : Except BufferError Nat)

def Answer.isError : Answer → Bool
  | .readByte (.error _) | .writeByte (.error _) | .write (.error _) => true
  | .reset _ | .readByte (.ok _) | .writeByte (.ok _) | .write (.ok _) => false

def call (s : CircularBuffer) : Call → Except Panic (Answer × CircularBuffer)
  | .reset => do
      let (capacity, s) ← s.reset
      return (.reset capacity, s)
  | .readByte => do
      let (result, s) ← s.readByte
      return (.readByte result, s)
  | .writeByte byte => do
      let (result, s) ← s.writeByte byte
      return (.writeByte result, s)
  | .write bytes => do
      let (result, s) ← s.write bytes
      return (.write result, s)

/-- The calls one after another: every answer and the last state. -/
def runCalls (s : CircularBuffer) : List Call → Except Panic (List Answer × CircularBuffer)
  | [] => return ([], s)
  | c :: cs => do
      let (answer, s) ← s.call c
      let (answers, s) ← s.runCalls cs
      return (answer :: answers, s)

/-- What the same call does to a bounded queue of bytes. -/
def fifoCall {cap : Nat} (q : BoundedFifo UInt8 cap) : Call → Answer × BoundedFifo UInt8 cap
  | .reset => (.reset cap, .empty)
  | .readByte =>
      match q.items with
      | [] => (.readByte (.error .bufferEmpty), q)
      | byte :: _ => (.readByte (.ok byte), q.discard 1)
  | .writeByte byte =>
      if q.items.length = cap then (.writeByte (.error .insufficientSpace), q)
      else (.writeByte (.ok ()), q.offer [byte])
  | .write bytes =>
      if q.room < bytes.length then (.write (.error .insufficientSpace), q)
      else (.write (.ok bytes.length), q.offer bytes)

def fifoCalls {cap : Nat} (q : BoundedFifo UInt8 cap) :
    List Call → List Answer × BoundedFifo UInt8 cap
  | [] => ([], q)
  | c :: cs => ((fifoCall q c).1 :: (fifoCalls (fifoCall q c).2 cs).1,
      (fifoCalls (fifoCall q c).2 cs).2)

/-! ## The simulation -/

/-- `s` lies at `ptr`, is well formed and stores exactly `q`. -/
structure Represents {cap : Nat} (ptr : Nat) (s : CircularBuffer) (q : BoundedFifo UInt8 cap) :
    Prop where
  wf : s.WF
  startPtr_eq : s.startPtr = ptr
  capacity_eq : s.capacity = cap + 1
  queue_eq : s.queue = q.items

theorem represents_new {cap : Nat} (ptr : Nat) {storage : List UInt8}
    (hlen : storage.length = cap + 1) :
    Represents ptr (new ptr (cap + 1) storage) (BoundedFifo.empty : BoundedFifo UInt8 cap) where
  wf := ⟨hlen, rfl, Nat.le_refl _, Nat.lt_add_of_pos_right (Nat.succ_pos cap), Nat.le_refl _,
    Nat.lt_add_of_pos_right (Nat.succ_pos cap)⟩
  startPtr_eq := rfl
  capacity_eq := rfl
  queue_eq := by simp [queue, count, new, BoundedFifo.empty]

variable {cap ptr : Nat} {q : BoundedFifo UInt8 cap}

theorem Represents.skip (h : Represents ptr s q) {n : Nat} (hn : n ≤ q.items.length) :
    Represents ptr (s.skip n) (q.discard n) := by
  have hcount : n ≤ s.count := by rwa [← h.wf.length_queue, h.queue_eq]
  exact ⟨skip_wf h.wf hcount, h.startPtr_eq, h.capacity_eq, by
    rw [skip_queue h.wf hcount, h.queue_eq, BoundedFifo.items_discard]⟩

theorem Represents.append (h : Represents ptr s q) {bytes : List UInt8}
    (hfit : bytes.length ≤ q.room) : Represents ptr (s.append bytes) (q.offer bytes) := by
  have hcap := h.capacity_eq
  have hbound := q.bound
  have hfit' : s.count + bytes.length < s.capacity := by
    rw [← h.wf.length_queue, h.queue_eq]
    rw [BoundedFifo.room] at hfit
    omega
  exact ⟨append_wf h.wf hfit', h.startPtr_eq, h.capacity_eq, by
    rw [append_queue h.wf hfit', h.queue_eq, BoundedFifo.items_offer,
      List.take_of_length_le hfit]⟩

theorem Represents.reset (h : Represents ptr s q) :
    Represents ptr { s with readPtr := s.startPtr, writePtr := s.startPtr }
      (BoundedFifo.empty : BoundedFifo UInt8 cap) where
  wf := by
    have hend := h.wf.endPtr_eq
    have hcap := h.capacity_eq
    have hlt : s.startPtr < s.endPtr := by omega
    exact ⟨h.wf.length_storage, hend, Nat.le_refl _, hlt, Nat.le_refl _, hlt⟩
  startPtr_eq := h.startPtr_eq
  capacity_eq := h.capacity_eq
  queue_eq := by simp [queue, count, BoundedFifo.empty]

/-- **Simulation step.** No call stops, each answers as the queue does, and one that fails
changes nothing. -/
theorem call_simulates (h : Represents ptr s q) (c : Call) :
    ∃ s', s.call c = .ok ((fifoCall q c).1, s') ∧ Represents ptr s' (fifoCall q c).2 ∧
      ((fifoCall q c).1.isError = true → s' = s) := by
  have hcap := h.capacity_eq
  have hbound := q.bound
  have hq := congrArg List.length h.queue_eq
  have hroom : q.room = cap - q.items.length := rfl
  cases c with
  | reset =>
    refine ⟨{ s with readPtr := s.startPtr, writePtr := s.startPtr }, ?_, ?_, ?_⟩
    · rw [call, CircularBuffer.reset, subUsize, if_pos (by omega), hcap]
      rfl
    · exact h.reset
    · intro herr
      cases herr
  | readByte =>
    cases hitems : q.items with
    | nil =>
      refine ⟨s, ?_, ?_, fun _ => rfl⟩
      · rw [call, readByte_nil h.wf (h.queue_eq.trans hitems), fifoCall, hitems]
        rfl
      · rw [fifoCall, hitems]
        exact h
    | cons byte rest =>
      refine ⟨s.skip 1, ?_, ?_, fun herr => ?_⟩
      · rw [call, readByte_cons h.wf (h.queue_eq.trans hitems), fifoCall, hitems]
        rfl
      · rw [fifoCall, hitems]
        exact h.skip (by simp [hitems])
      · rw [fifoCall, hitems] at herr
        cases herr
  | writeByte byte =>
    by_cases hfull : q.items.length = cap
    · refine ⟨s, ?_, ?_, fun _ => rfl⟩
      · rw [call, writeByte_full h.wf (by omega), fifoCall, if_pos hfull]
        rfl
      · rw [fifoCall, if_pos hfull]
        exact h
    · refine ⟨s.append [byte], ?_, ?_, fun herr => ?_⟩
      · rw [call, writeByte_room h.wf (by omega), fifoCall, if_neg hfull]
        rfl
      · rw [fifoCall, if_neg hfull]
        exact h.append (by rw [List.length_singleton]; omega)
      · rw [fifoCall, if_neg hfull] at herr
        cases herr
  | write bytes =>
    by_cases hfull : q.room < bytes.length
    · refine ⟨s, ?_, ?_, fun _ => rfl⟩
      · rw [call, write_full h.wf (by omega), fifoCall, if_pos hfull]
        rfl
      · rw [fifoCall, if_pos hfull]
        exact h
    · refine ⟨s.append bytes, ?_, ?_, fun herr => ?_⟩
      · rw [call, write_fits h.wf (by omega), fifoCall, if_neg hfull]
        rfl
      · rw [fifoCall, if_neg hfull]
        exact h.append (by omega)
      · rw [fifoCall, if_neg hfull] at herr
        cases herr

/-- **Simulation of a run.** -/
theorem runCalls_simulates (h : Represents ptr s q) (cs : List Call) :
    ∃ s', s.runCalls cs = .ok ((fifoCalls q cs).1, s') ∧ Represents ptr s' (fifoCalls q cs).2 := by
  induction cs generalizing s q with
  | nil => exact ⟨s, rfl, h⟩
  | cons c cs ih =>
    obtain ⟨t, hcall, ht, -⟩ := call_simulates h c
    obtain ⟨u, hrun, hu⟩ := ih ht
    refine ⟨u, ?_, hu⟩
    simp only [runCalls, hcall, ok_bind, hrun]
    rfl

/-- **Refinement.** Every sequence of calls on a buffer over `capacity` bytes of memory runs
without an access outside them, answers as the queue of one byte less does, and leaves
both pointers inside and the lengths of the queue behind. A call that fails then changes
nothing. -/
theorem refines_fifo_one_smaller (ptr capacity : Nat) (storage : List UInt8)
    (hcap : 1 ≤ capacity) (hlen : storage.length = capacity) (cs : List Call) :
    let spec := fifoCalls (BoundedFifo.empty : BoundedFifo UInt8 (capacity - 1)) cs
    ∃ s, (new ptr capacity storage).runCalls cs = .ok (spec.1, s) ∧
      (ptr ≤ s.readPtr ∧ s.readPtr < ptr + capacity) ∧
      (ptr ≤ s.writePtr ∧ s.writePtr < ptr + capacity) ∧
      s.queue = spec.2.items ∧ s.len = .ok spec.2.items.length ∧
      s.freeSpace = .ok (capacity - 1 - spec.2.items.length) ∧
      spec.2.items.length ≤ capacity - 1 ∧
      ∀ c answer s', s.call c = .ok (answer, s') → answer.isError = true → s' = s := by
  obtain ⟨cap, rfl⟩ : ∃ cap, capacity = cap + 1 := ⟨capacity - 1, by omega⟩
  obtain ⟨s, hrun, hs⟩ := runCalls_simulates (represents_new ptr hlen) cs
  have hend := hs.wf.endPtr_eq
  rw [hs.startPtr_eq, hs.capacity_eq] at hend
  refine ⟨s, hrun, ⟨hs.startPtr_eq ▸ hs.wf.startPtr_le_readPtr, hend ▸ hs.wf.readPtr_lt⟩,
    ⟨hs.startPtr_eq ▸ hs.wf.startPtr_le_writePtr, hend ▸ hs.wf.writePtr_lt⟩, hs.queue_eq, ?_, ?_,
    (fifoCalls BoundedFifo.empty cs).2.bound, fun c answer s' hc herr => ?_⟩
  · rw [len_eq hs.wf, hs.queue_eq]
  · rw [freeSpace_eq hs.wf, hs.queue_eq, hs.capacity_eq]
  · obtain ⟨t, hcall, -, hsame⟩ := call_simulates hs c
    cases hcall.symm.trans hc
    exact hsame herr

/-- Three bytes of memory: the second write goes around the end, the third does not fit. -/
def aroundTheEnd : List Call :=
  [.write [1, 2], .readByte, .write [3], .write [], .writeByte 4, .write [5]]

theorem refines_fifo_one_smaller_aroundTheEnd :
    ∃ s, (new 16 3 [0, 0, 0]).runCalls aroundTheEnd =
        .ok ((fifoCalls (BoundedFifo.empty : BoundedFifo UInt8 2) aroundTheEnd).1, s) ∧
      (16 ≤ s.readPtr ∧ s.readPtr < 16 + 3) ∧ (16 ≤ s.writePtr ∧ s.writePtr < 16 + 3) ∧
      s.queue = [2, 3] ∧ s.len = .ok 2 ∧ s.freeSpace = .ok 0 ∧ 2 ≤ 3 - 1 ∧
      ∀ c answer s', s.call c = .ok (answer, s') → answer.isError = true → s' = s :=
  refines_fifo_one_smaller 16 3 [0, 0, 0] (by decide) rfl aroundTheEnd

end AvrBridge.CircularBuffer
