import AvrBridge.ConstRefinement

/-! The block operations of `ConstCircularBuffer` against loops of `read_byte` and
`write_byte`. Here the whole state is compared, not only the bytes in the ring. -/

namespace AvrBridge.ConstCircularBuffer

open Rust Window

variable {CAPACITY : Nat}

/-! ## The loops -/

/-- `write_byte` on the bytes in turn until one is refused: how many went in, and the state. -/
def writeBytes (s : ConstCircularBuffer CAPACITY) :
    List UInt8 → Nat × ConstCircularBuffer CAPACITY
  | [] => (0, s)
  | byte :: src =>
      match s.writeByte byte with
      | (.ok (), t) => ((t.writeBytes src).1 + 1, (t.writeBytes src).2)
      | (.error _, t) => (0, t)

/-- `read_byte` into the places in turn until there is none or the ring is empty. -/
def readBytes (s : ConstCircularBuffer CAPACITY) :
    List UInt8 → Nat × ConstCircularBuffer CAPACITY × List UInt8
  | [] => (0, s, [])
  | place :: dest =>
      match s.readByte with
      | (.ok byte, t) =>
          ((t.readBytes dest).1 + 1, (t.readBytes dest).2.1, byte :: (t.readBytes dest).2.2)
      | (.error _, t) => (0, t, place :: dest)

/-- The same, also until a byte equal to `term` has been stored: whether one has. -/
def readBytesTo (s : ConstCircularBuffer CAPACITY) (term : UInt8) :
    List UInt8 → Bool × Nat × ConstCircularBuffer CAPACITY × List UInt8
  | [] => (false, 0, s, [])
  | place :: dest =>
      match s.readByte with
      | (.ok byte, t) =>
          if byte == term then (true, 1, t, byte :: dest)
          else
            let r := t.readBytesTo term dest
            (r.1, r.2.1 + 1, r.2.2.1, byte :: r.2.2.2)
      | (.error _, t) => (false, 0, t, place :: dest)

/-- The bytes a call has moved: none if it fails. -/
def moved {ε : Type} : Except ε Nat → Nat
  | .ok n => n
  | .error _ => 0

/-- Whether a `read_to` answers `Complete`, and the bytes it has moved. -/
def movedTo {ε : Type} : Except ε ReadStatus → Bool × Nat
  | .ok (.complete n) => (true, n)
  | .ok status => (false, status.count)
  | .error _ => (false, 0)

/-! ## Copies in -/

section Composition

variable {s : ConstCircularBuffer CAPACITY}

theorem copyIn_zero (h : s.WF) (src : List UInt8) : s.copyIn src 0 = s := by
  have hw := h.wPos_lt
  have hpos : wrapPos CAPACITY s.wPos = s.wPos := by
    rw [wrapPos_eq_wrap, wrap_eq_self hw]
  have hbuf : (s.copyIn src 0).buf = s.buf := by
    rw [copyIn_buf h (Nat.zero_le _), List.take_zero, ringWrite_of_le (by
      rw [h.length_buf]
      exact Nat.le_of_lt hw), splice_nil]
  calc s.copyIn src 0
      = { s with buf := (s.copyIn src 0).buf, wPos := wrapPos CAPACITY s.wPos } := rfl
    _ = s := by rw [hbuf, hpos]

/-- A block of one byte and the block of the rest are one block. -/
theorem copyIn_copyIn (h : s.WF) (byte : UInt8) {src : List UInt8} {len : Nat}
    (hlen : len ≤ src.length) (hfit : s.len + (len + 1) ≤ CAPACITY) :
    (s.copyIn [byte] 1).copyIn src len = s.copyIn (byte :: src) (len + 1) := by
  have hb := h.length_buf
  have hw := h.wPos_lt
  have hone : (s.copyIn [byte] 1).WF := copyIn_wf h (Nat.le_refl 1) (by omega)
  have hpos : wrapPos CAPACITY (wrapPos CAPACITY (s.wPos + 1) + len) =
      wrapPos CAPACITY (s.wPos + (len + 1)) := by
    rw [wrapPos_eq_wrap, wrapPos_eq_wrap, wrapPos_eq_wrap, wrap_wrap_add (by omega),
      Nat.add_assoc, Nat.add_comm 1]
  have hbuf : ((s.copyIn [byte] 1).copyIn src len).buf =
      (s.copyIn (byte :: src) (len + 1)).buf := by
    have hnext : (s.copyIn [byte] 1).wPos = wrap s.buf.length (s.wPos + 1) := by
      rw [hb, ← wrapPos_eq_wrap]
      rfl
    have hfirst : (s.copyIn [byte] 1).buf = ringWrite s.buf s.wPos [byte] :=
      copyIn_buf h (Nat.le_refl 1)
    have hall : len + 1 ≤ (byte :: src).length := Nat.succ_le_succ hlen
    rw [copyIn_buf hone hlen, copyIn_buf h hall, hnext, hfirst, List.take_succ_cons]
    exact ringWrite_cons (by omega) (by rw [List.length_take]; omega)
  calc (s.copyIn [byte] 1).copyIn src len
      = { s with
          buf := ((s.copyIn [byte] 1).copyIn src len).buf
          wPos := wrapPos CAPACITY (wrapPos CAPACITY (s.wPos + 1) + len)
          len := s.len + 1 + len } := rfl
    _ = s.copyIn (byte :: src) (len + 1) := by
      rw [hbuf, hpos, Nat.add_assoc, Nat.add_comm 1]
      rfl

/-- The loop of `write_byte` is one block write of what fits. -/
theorem writeBytes_eq (h : s.WF) (src : List UInt8) :
    s.writeBytes src =
      (min src.length s.freeSpace, s.copyIn src (min src.length s.freeSpace)) := by
  induction src generalizing s with
  | nil =>
    rw [List.length_nil, Nat.zero_min, copyIn_zero h]
    rfl
  | cons byte src ih =>
    have hle := h.len_le
    have hfree : s.freeSpace = CAPACITY - s.len := rfl
    by_cases hfull : s.len = CAPACITY
    · have hres : s.writeByte byte = (.error .insufficientSpace, s) := by
        rw [writeByte, isFull, if_pos (by simpa using hfull)]
      have hzero : min (byte :: src).length s.freeSpace = 0 := by omega
      rw [hzero, copyIn_zero h]
      simp only [writeBytes, hres]
    · have hone : (s.copyIn [byte] 1).WF := copyIn_wf h (Nat.le_refl 1) (by omega)
      have hrest : min src.length (s.copyIn [byte] 1).freeSpace + 1 =
          min (byte :: src).length s.freeSpace := by
        show min src.length (CAPACITY - (s.len + 1)) + 1 = _
        rw [List.length_cons]
        omega
      have hfit : s.len + (min src.length (s.copyIn [byte] 1).freeSpace + 1) ≤ CAPACITY := by
        rw [hrest, hfree]
        omega
      simp only [writeBytes, writeByte_eq h (by omega) byte, ih hone]
      rw [copyIn_copyIn h byte (Nat.min_le_left ..) hfit, hrest]

theorem moved_write (h : s.WF) (src : List UInt8) :
    (moved (s.write src).1, (s.write src).2) =
      (min src.length s.freeSpace, s.copyIn src (min src.length s.freeSpace)) := by
  have hle := h.len_le
  have hfree : s.freeSpace = CAPACITY - s.len := rfl
  by_cases hsrc : src = []
  · subst hsrc
    rw [List.length_nil, Nat.zero_min, copyIn_zero h]
    rfl
  · by_cases hfull : s.len = CAPACITY
    · have hzero : min src.length s.freeSpace = 0 := by omega
      rw [hzero, copyIn_zero h, write, if_neg (by rwa [List.isEmpty_iff]), isFull,
        if_pos (by simpa using hfull)]
      rfl
    · rw [write, if_neg (by rwa [List.isEmpty_iff]), isFull, if_neg (by simpa using hfull)]
      rfl

theorem moved_writeAll_fits (h : s.WF) {src : List UInt8} (hfit : src.length ≤ s.freeSpace) :
    (moved (s.writeAll src).1, (s.writeAll src).2) =
      (min src.length s.freeSpace, s.copyIn src (min src.length s.freeSpace)) := by
  rw [Nat.min_eq_left hfit]
  by_cases hsrc : src = []
  · subst hsrc
    rw [List.length_nil, copyIn_zero h]
    rfl
  · rw [writeAll, if_neg (by rwa [List.isEmpty_iff])]
    simp only [if_neg (show ¬ s.freeSpace < src.length by omega)]
    rfl

theorem writeAll_full {src : List UInt8} (hfull : s.freeSpace < src.length) :
    s.writeAll src = (.error .insufficientSpace, s) := by
  have hsrc : ¬ src.isEmpty = true := by
    rw [List.isEmpty_iff]
    rintro rfl
    cases hfull
  rw [writeAll, if_neg hsrc]
  simp only [if_pos hfull]

/-! ## Copies out -/

theorem advance_zero (h : s.WF) : s.advance 0 = s := by
  have hpos : wrapPos CAPACITY s.rPos = s.rPos := by
    rw [wrapPos_eq_wrap, wrap_eq_self h.rPos_lt]
  calc s.advance 0 = { s with rPos := wrapPos CAPACITY s.rPos } := rfl
    _ = s := by rw [hpos]

theorem advance_advance (h : s.WF) {n : Nat} (hn : n + 1 ≤ s.len) :
    (s.advance 1).advance n = s.advance (n + 1) := by
  have hr := h.rPos_lt
  have hle := h.len_le
  have hpos : wrapPos CAPACITY (wrapPos CAPACITY (s.rPos + 1) + n) =
      wrapPos CAPACITY (s.rPos + (n + 1)) := by
    rw [wrapPos_eq_wrap, wrapPos_eq_wrap, wrapPos_eq_wrap, wrap_wrap_add (by omega),
      Nat.add_assoc, Nat.add_comm 1]
  simp only [advance, hpos, Nat.sub_sub, Nat.add_comm 1]

/-- The loop of `read_byte` takes off what is there, up to the end of the destination. -/
theorem readBytes_eq (h : s.WF) (dest : List UInt8) :
    s.readBytes dest = (min dest.length s.len, s.advance (min dest.length s.len),
      s.queue.take (min dest.length s.len) ++ dest.drop (min dest.length s.len)) := by
  induction dest generalizing s with
  | nil =>
    rw [List.length_nil, Nat.zero_min, advance_zero h]
    rfl
  | cons place dest ih =>
    cases hq : s.queue with
    | nil =>
      rw [h.len_of_nil hq, Nat.min_zero, advance_zero h]
      simp only [readBytes, readByte_of_nil h hq]
      rfl
    | cons byte rest =>
      have hlen := h.len_of_cons hq
      obtain ⟨hone, hrest⟩ := advance_one h hq
      have hmin : min (place :: dest).length s.len =
          min dest.length (s.advance 1).len + 1 := by
        show _ = min dest.length (s.len - 1) + 1
        rw [List.length_cons]
        omega
      have hadvance := advance_advance h (n := min dest.length (s.advance 1).len) (by omega)
      simp only [readBytes, readByte_eq h hq, ih hone, hrest]
      rw [hadvance, hmin, List.take_succ_cons, List.drop_succ_cons, List.cons_append]

theorem moved_read (h : s.WF) (dest : List UInt8) :
    (moved (s.read dest).1, (s.read dest).2) =
      (min dest.length s.len, s.advance (min dest.length s.len),
        s.queue.take (min dest.length s.len) ++ dest.drop (min dest.length s.len)) := by
  by_cases hdest : dest = []
  · subst hdest
    rw [List.length_nil, Nat.zero_min, advance_zero h]
    rfl
  · by_cases hq : s.queue = []
    · rw [h.len_of_nil hq, Nat.min_zero, advance_zero h, read_of_nil h hdest hq]
      rfl
    · rw [read_eq h hdest hq]
      rfl

/-- What a read up to a terminator moves: up to it if it is within reach, else all in reach. -/
def reachTo (s : ConstCircularBuffer CAPACITY) (term : UInt8) (n : Nat) : Bool × Nat :=
  match (s.queue.take n).findIdx? (· == term) with
  | some i => (true, i + 1)
  | none => (false, n)

theorem reachTo_le (s : ConstCircularBuffer CAPACITY) (term : UInt8) (n : Nat) :
    (s.reachTo term n).2 ≤ n := by
  unfold reachTo
  split
  · rename_i i hi
    have hlt := (List.findIdx?_eq_some_iff_getElem.mp hi).1
    rw [List.length_take] at hlt
    show i + 1 ≤ n
    omega
  · exact Nat.le_refl n

theorem reachTo_advance (h : s.WF) {byte : UInt8} {rest : List UInt8} (term : UInt8) (n : Nat)
    (hq : s.queue = byte :: rest) (hne : (byte == term) = false) :
    s.reachTo term (n + 1) =
      (((s.advance 1).reachTo term n).1, ((s.advance 1).reachTo term n).2 + 1) := by
  have hrest := (advance_one h hq).2
  simp only [reachTo, hq, hrest, List.take_succ_cons, List.findIdx?_cons, hne,
    Bool.false_eq_true, if_false]
  cases (rest.take n).findIdx? (· == term) with
  | none => rfl
  | some i => rfl

/-- The loop of `read_byte` takes off what is in reach up to the terminator. -/
theorem readBytesTo_eq (h : s.WF) (term : UInt8) (dest : List UInt8) :
    s.readBytesTo term dest =
      let r := s.reachTo term (min dest.length s.len)
      (r.1, r.2, s.advance r.2, s.queue.take r.2 ++ dest.drop r.2) := by
  induction dest generalizing s with
  | nil =>
    have hzero : s.reachTo term (min ([] : List UInt8).length s.len) = (false, 0) := by
      rw [List.length_nil, Nat.zero_min]
      rfl
    rw [hzero]
    simp only [advance_zero h]
    rfl
  | cons place dest ih =>
    cases hq : s.queue with
    | nil =>
      have hzero : s.reachTo term (min (place :: dest).length s.len) = (false, 0) := by
        rw [h.len_of_nil hq, Nat.min_zero]
        rfl
      rw [hzero]
      simp only [advance_zero h, readBytesTo, readByte_of_nil h hq]
      rfl
    | cons byte rest =>
      have hlen := h.len_of_cons hq
      obtain ⟨hone, hrest⟩ := advance_one h hq
      have hmin : min (place :: dest).length s.len =
          min dest.length (s.advance 1).len + 1 := by
        show _ = min dest.length (s.len - 1) + 1
        rw [List.length_cons]
        omega
      rw [hmin]
      cases hterm : byte == term with
      | true =>
        have hfound : s.reachTo term (min dest.length (s.advance 1).len + 1) = (true, 1) := by
          simp only [reachTo, hq, List.take_succ_cons, List.findIdx?_cons, hterm, if_true]
        rw [hfound]
        simp only [readBytesTo, readByte_eq h hq, hterm, if_true]
        rfl
      | false =>
        have hle := reachTo_le (s.advance 1) term (min dest.length (s.advance 1).len)
        have hadvance := advance_advance h
          (n := ((s.advance 1).reachTo term (min dest.length (s.advance 1).len)).2) (by omega)
        rw [reachTo_advance h term _ hq hterm]
        simp only [readBytesTo, readByte_eq h hq, hterm, Bool.false_eq_true, if_false, ih hone,
          hrest]
        rw [hadvance, List.take_succ_cons, List.drop_succ_cons, List.cons_append]

theorem movedTo_readTo (h : s.WF) (term : UInt8) (dest : List UInt8) :
    ((movedTo (s.readTo term dest).1).1, (movedTo (s.readTo term dest).1).2,
        (s.readTo term dest).2) =
      let r := s.reachTo term (min dest.length s.len)
      (r.1, r.2, s.advance r.2, s.queue.take r.2 ++ dest.drop r.2) := by
  by_cases hdest : dest = []
  · subst hdest
    rw [← readBytesTo_eq h]
    rfl
  · by_cases hq : s.queue = []
    · have hzero : s.reachTo term (min dest.length s.len) = (false, 0) := by
        rw [h.len_of_nil hq, Nat.min_zero]
        rfl
      rw [hzero, readTo_of_nil h term hdest hq]
      simp only [advance_zero h]
      rfl
    · rw [readTo_eq h term hdest hq, reachTo]
      cases (s.queue.take (min dest.length s.len)).findIdx? (· == term) with
      | none => rfl
      | some i => rfl

end Composition

/-! ## Agreement -/

/-- The places of `dest'` from `n` on are those of `dest`. -/
def Untouched (n : Nat) (dest dest' : List UInt8) : Prop :=
  dest'.length = dest.length ∧ dest'.drop n = dest.drop n

theorem untouched_of_append {s : ConstCircularBuffer CAPACITY} (h : s.WF) {n : Nat}
    {dest : List UInt8} (hlen : n ≤ s.len) (hdest : n ≤ dest.length) :
    Untouched n dest (s.queue.take n ++ dest.drop n) := by
  have htake : (s.queue.take n).length = n := by
    rw [List.length_take, h.length_queue]
    omega
  constructor
  · rw [List.length_append, htake, List.length_drop]
    omega
  · rw [List.drop_append_of_le_length (by omega), List.drop_of_length_le (by omega),
      List.nil_append]

/-- After any calls, every block operation ends in the very state of the loop of byte
operations, with its count, its destination and its `Complete`; `write_all` is that loop if
the bytes fit and no step at all if not. -/
theorem block_copies_agree (CAPACITY : Nat) (hcap : 1 ≤ CAPACITY) (cs : List Call) :
    let s := ((new CAPACITY).runCalls cs).2
    (∀ src, (moved (s.write src).1, (s.write src).2) = s.writeBytes src) ∧
    (∀ dest, (moved (s.read dest).1, (s.read dest).2) = s.readBytes dest ∧
      Untouched (moved (s.read dest).1) dest (s.read dest).2.2) ∧
    (∀ term dest, ((movedTo (s.readTo term dest).1).1, (movedTo (s.readTo term dest).1).2,
        (s.readTo term dest).2) = s.readBytesTo term dest ∧
      Untouched (movedTo (s.readTo term dest).1).2 dest (s.readTo term dest).2.2) ∧
    (∀ src, src.length ≤ s.freeSpace →
      (moved (s.writeAll src).1, (s.writeAll src).2) = s.writeBytes src) ∧
    (∀ src, s.freeSpace < src.length →
      s.writeAll src = (.error .insufficientSpace, s)) := by
  intro s
  have h : s.WF := (runCalls_simulates hcap (represents_new hcap) cs).2.1
  refine ⟨?_, ?_, ?_, ?_, ?_⟩
  · intro src
    rw [moved_write h, writeBytes_eq h]
  · intro dest
    obtain ⟨hcount, hrest⟩ := Prod.mk.inj (moved_read h dest)
    constructor
    · rw [hcount, hrest, readBytes_eq h]
    · rw [hcount, hrest]
      exact untouched_of_append h (Nat.min_le_right ..) (Nat.min_le_left ..)
  · intro term dest
    have hle := reachTo_le s term (min dest.length s.len)
    obtain ⟨hfound, hrest⟩ := Prod.mk.inj (movedTo_readTo h term dest)
    obtain ⟨hcount, hrest⟩ := Prod.mk.inj hrest
    constructor
    · rw [hfound, hcount, hrest, readBytesTo_eq h]
    · rw [hcount, hrest]
      exact untouched_of_append h (by omega) (by omega)
  · intro src hfit
    rw [moved_writeAll_fits h hfit, writeBytes_eq h]
  · intro src hfull
    exact writeAll_full hfull

/-- Around the end of a ring of three bytes. -/
theorem block_copies_agree_three :
    (moved (((new 3).runCalls [.write [1, 2], .readByte]).2.write [3, 4, 5]).1,
      (((new 3).runCalls [.write [1, 2], .readByte]).2.write [3, 4, 5]).2) =
      ((new 3).runCalls [.write [1, 2], .readByte]).2.writeBytes [3, 4, 5] :=
  (block_copies_agree 3 (by decide) [.write [1, 2], .readByte]).1 [3, 4, 5]

end AvrBridge.ConstCircularBuffer
