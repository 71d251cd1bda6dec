import AvrBridge.ConstRefinement

/-! `ConstCircularBuffer` on a target whose `usize` has 16 bits. Here every sum and difference,
every index, every slice and every raw copy is tested before it is made. The calls answer as they
do untested, so no test ever fails: what the raw copies leave unchecked holds. -/

namespace AvrBridge.ConstCircularBuffer

open Rust Window Fifo

variable {CAPACITY : Nat}

namespace Checked

/-! ## Tests -/

/-- A `usize` past its range, an index or a slice past its array, a raw copy past its source or
past its destination. -/
inductive Fault where
  | usize
  | index
  | slice
  | copySource
  | copyDestination
  deriving DecidableEq, Repr

/-- `usize::MAX`. -/
def usizeMax : Nat := 65535

def add (a b : Nat) : Except Fault Nat :=
  if a + b ≤ usizeMax then .ok (a + b) else .error .usize

def sub (a b : Nat) : Except Fault Nat := if b ≤ a then .ok (a - b) else .error .usize

def load (buf : List UInt8) (i : Nat) : Except Fault UInt8 :=
  if i < buf.length then .ok (buf.getD i 0) else .error .index

def store (buf : List UInt8) (i : Nat) (byte : UInt8) : Except Fault (List UInt8) :=
  if i < buf.length then .ok (buf.set i byte) else .error .index

def slice (buf : List UInt8) (lo hi : Nat) : Except Fault (List UInt8) :=
  if lo ≤ hi ∧ hi ≤ buf.length then .ok (ConstCircularBuffer.slice buf lo hi) else .error .slice

def copyNonoverlapping (src : List UInt8) (srcOff : Nat) (dst : List UInt8) (dstOff n : Nat) :
    Except Fault (List UInt8) :=
  if src.length < srcOff + n then .error .copySource
  else if dst.length < dstOff + n then .error .copyDestination
  else .ok (Rust.copyNonoverlapping src srcOff dst dstOff n)

theorem add_ok {a b : Nat} (h : a + b ≤ 65535) : add a b = .ok (a + b) := if_pos h

theorem sub_ok {a b : Nat} (h : b ≤ a) : sub a b = .ok (a - b) := if_pos h

theorem load_ok {buf : List UInt8} {i : Nat} (h : i < buf.length) :
    load buf i = .ok (buf.getD i 0) := if_pos h

theorem store_ok {buf : List UInt8} {i : Nat} (h : i < buf.length) (byte : UInt8) :
    store buf i byte = .ok (buf.set i byte) := if_pos h

theorem slice_ok {buf : List UInt8} {lo hi : Nat} (hlo : lo ≤ hi) (hhi : hi ≤ buf.length) :
    slice buf lo hi = .ok (ConstCircularBuffer.slice buf lo hi) := if_pos ⟨hlo, hhi⟩

theorem copy_ok {src dst : List UInt8} {srcOff dstOff n : Nat} (hsrc : srcOff + n ≤ src.length)
    (hdst : dstOff + n ≤ dst.length) :
    copyNonoverlapping src srcOff dst dstOff n =
      .ok (Rust.copyNonoverlapping src srcOff dst dstOff n) := by
  rw [copyNonoverlapping, if_neg (Nat.not_lt.mpr hsrc), if_neg (Nat.not_lt.mpr hdst)]

theorem length_copy (src : List UInt8) (srcOff : Nat) {dst : List UInt8} {dstOff n : Nat}
    (hdst : dstOff + n ≤ dst.length) :
    (Rust.copyNonoverlapping src srcOff dst dstOff n).length = dst.length := by
  apply length_splice
  rw [List.length_take]
  omega

/-! ## The operations -/

def freeSpace (s : ConstCircularBuffer CAPACITY) : Except Fault Nat := sub CAPACITY s.len

def readByte (s : ConstCircularBuffer CAPACITY) :
    Except Fault (Except ReadError UInt8 × ConstCircularBuffer CAPACITY) :=
  if s.isEmpty then .ok (.error .sourceEmpty, s)
  else do
    let byte ← load s.buf s.rPos
    let rPos ← add s.rPos 1
    let rPos := if rPos = CAPACITY then 0 else rPos
    let len ← sub s.len 1
    return (.ok byte, { s with rPos := rPos, len := len })

def wrapPos (CAPACITY pos : Nat) : Except Fault Nat :=
  if pos ≥ CAPACITY then sub pos CAPACITY else .ok pos

def copyOut (firstHalf : List UInt8) (firstOff : Nat) (secondHalf dest : List UInt8)
    (firstCopyLen len : Nat) : Except Fault (List UInt8) := do
  let dest ← copyNonoverlapping firstHalf firstOff dest 0 firstCopyLen
  let secondCopyLen ← sub len firstCopyLen
  if secondCopyLen > 0 then copyNonoverlapping secondHalf 0 dest firstCopyLen secondCopyLen
  else return dest

/-- The common tail of `read` and `read_to`. -/
def advance (s : ConstCircularBuffer CAPACITY) (n : Nat) :
    Except Fault (ConstCircularBuffer CAPACITY) := do
  let rPos ← add s.rPos n
  let rPos ← wrapPos CAPACITY rPos
  let len ← sub s.len n
  return { s with rPos := rPos, len := len }

def read (s : ConstCircularBuffer CAPACITY) (dest : List UInt8) :
    Except Fault (Except ReadError Nat × ConstCircularBuffer CAPACITY × List UInt8) :=
  if dest.isEmpty then .ok (.error .destinationEmpty, s, dest)
  else if s.isEmpty then .ok (.error .sourceEmpty, s, dest)
  else do
    let len := min dest.length s.len
    let lenToEnd ← sub CAPACITY s.rPos
    let firstCopyLen := min len lenToEnd
    let dest ← copyOut s.buf s.rPos s.buf dest firstCopyLen len
    let s ← advance s len
    return (.ok len, s, dest)

def halves (s : ConstCircularBuffer CAPACITY) (lenAllowed lenToEnd : Nat) :
    Except Fault (List UInt8 × List UInt8) :=
  if lenAllowed ≤ lenToEnd then do
    let hi ← add s.rPos lenAllowed
    let firstHalf ← slice s.buf s.rPos hi
    let secondHalf ← slice s.buf 0 0
    return (firstHalf, secondHalf)
  else do
    let firstHalf ← slice s.buf s.rPos CAPACITY
    let hi ← sub lenAllowed lenToEnd
    let secondHalf ← slice s.buf 0 hi
    return (firstHalf, secondHalf)

def findTerm (firstHalf secondHalf : List UInt8) (term : UInt8) (lenAllowed : Nat) :
    Except Fault (Bool × Nat) :=
  match firstHalf.findIdx? (· == term) with
  | some pos => do
      let len ← add pos 1
      return (true, len)
  | none =>
    match secondHalf.findIdx? (· == term) with
    | some pos => do
        let len ← add firstHalf.length pos
        let len ← add len 1
        return (true, len)
    | none => return (false, lenAllowed)

def readTo (s : ConstCircularBuffer CAPACITY) (term : UInt8) (dest : List UInt8) :
    Except Fault (Except ReadError ReadStatus × ConstCircularBuffer CAPACITY × List UInt8) :=
  if dest.isEmpty then .ok (.error .destinationEmpty, s, dest)
  else if s.isEmpty then .ok (.error .sourceEmpty, s, dest)
  else do
    let lenAllowed := min dest.length s.len
    let lenToEnd ← sub CAPACITY s.rPos
    let (firstHalf, secondHalf) ← halves s lenAllowed lenToEnd
    let (termFound, len) ← findTerm firstHalf secondHalf term lenAllowed
    let firstCopyLen := min len lenToEnd
    let dest ← copyOut firstHalf 0 secondHalf dest firstCopyLen len
    let s ← advance s len
    if termFound then return (.ok (.complete len), s, dest)
    else return (.ok (.partialRead len), s, dest)

def writeByte (s : ConstCircularBuffer CAPACITY) (byte : UInt8) :
    Except Fault (Except BufferError Unit × ConstCircularBuffer CAPACITY) :=
  if s.isFull then .ok (.error .insufficientSpace, s)
  else do
    let buf ← store s.buf s.wPos byte
    let wPos ← add s.wPos 1
    let wPos := if wPos = CAPACITY then 0 else wPos
    let len ← add s.len 1
    return (.ok (), { s with buf := buf, wPos := wPos, len := len })

/-- The common tail of `write_all` and `write`. -/
def copyIn (s : ConstCircularBuffer CAPACITY) (src : List UInt8) (len : Nat) :
    Except Fault (ConstCircularBuffer CAPACITY) := do
  let lenToEnd ← sub CAPACITY s.wPos
  let firstCopyLen := min len lenToEnd
  let buf ← copyNonoverlapping src 0 s.buf s.wPos firstCopyLen
  let secondCopyLen ← sub len firstCopyLen
  let buf ←
    if secondCopyLen > 0 then copyNonoverlapping src firstCopyLen buf 0 secondCopyLen
    else .ok buf
  let wPos ← add s.wPos len
  let wPos ← wrapPos CAPACITY wPos
  let len ← add s.len len
  return { s with buf := buf, wPos := wPos, len := len }

def writeAll (s : ConstCircularBuffer CAPACITY) (src : List UInt8) :
    Except Fault (Except WriteError Nat × ConstCircularBuffer CAPACITY) :=
  if src.isEmpty then .ok (.error .sourceEmpty, s)
  else do
    let len := src.length
    let free ← freeSpace s
    if free < len then return (.error .insufficientSpace, s)
    else do
      let s ← copyIn s src len
      return (.ok len, s)

def write (s : ConstCircularBuffer CAPACITY) (src : List UInt8) :
    Except Fault (Except WriteError Nat × ConstCircularBuffer CAPACITY) :=
  if src.isEmpty then .ok (.error .sourceEmpty, s)
  else if s.isFull then .ok (.error .destinationFull, s)
  else do
    let free ← freeSpace s
    let len := min src.length free
    let s ← copyIn s src len
    return (.ok len, s)

def writeStr (s : ConstCircularBuffer CAPACITY) (str : String) :
    Except Fault (Except FmtError Unit × ConstCircularBuffer CAPACITY) := do
  let (result, s) ← write s (strAsBytes str)
  match result with
  | .ok _ => return (.ok (), s)
  | .error e => return (.error e.toFmtError, s)

def call (s : ConstCircularBuffer CAPACITY) :
    Call → Except Fault (Answer × ConstCircularBuffer CAPACITY)
  | .new => return (.new, ConstCircularBuffer.new CAPACITY)
  | .reset => return (.reset s.reset.1, s.reset.2)
  | .readByte => do
      let (result, s) ← readByte s
      return (.readByte result, s)
  | .read dest => do
      let (result, s, dest) ← read s dest
      return (.read result dest, s)
  | .readTo term dest => do
      let (result, s, dest) ← readTo s term dest
      return (.readTo result dest, s)
  | .writeByte byte => do
      let (result, s) ← writeByte s byte
      return (.writeByte result, s)
  | .writeAll src => do
      let (result, s) ← writeAll s src
      return (.write result, s)
  | .write src => do
      let (result, s) ← write s src
      return (.write result, s)

/-- The calls one after another, up to the first test that fails. -/
def runCalls (s : ConstCircularBuffer CAPACITY) :
    List Call → Except Fault (List Answer × ConstCircularBuffer CAPACITY)
  | [] => return ([], s)
  | c :: cs => do
      let (answer, s) ← call s c
      let (answers, s) ← runCalls s cs
      return (answer :: answers, s)

/-! ## No test fails -/

section InRange

variable {s : ConstCircularBuffer CAPACITY}

theorem wrapPos_ok (CAPACITY pos : Nat) :
    wrapPos CAPACITY pos = .ok (ConstCircularBuffer.wrapPos CAPACITY pos) := by
  unfold wrapPos ConstCircularBuffer.wrapPos
  split
  · exact sub_ok ‹_›
  · rfl

/-- Two copies of `len` bytes stay inside sources and a destination of that size. -/
theorem copyOut_ok {firstHalf secondHalf dest : List UInt8} {off f len : Nat} (hf : f ≤ len)
    (hlen : len ≤ dest.length) (hfirst : off + f ≤ firstHalf.length)
    (hsecond : len - f ≤ secondHalf.length) :
    copyOut firstHalf off secondHalf dest f len =
      .ok (ConstCircularBuffer.copyOut firstHalf off secondHalf dest f len) := by
  have hcopied : (Rust.copyNonoverlapping firstHalf off dest 0 f).length = dest.length :=
    length_copy firstHalf off (by omega)
  unfold copyOut ConstCircularBuffer.copyOut
  rw [copy_ok hfirst (by omega), ok_bind, sub_ok hf, ok_bind]
  by_cases hsplit : len - f > 0
  · simp only [if_pos hsplit]
    exact copy_ok (by omega) (by omega)
  · simp only [if_neg hsplit]
    rfl

/-- The sum is formed before the wrap test, so it needs the array to be at most half of the
range of `usize`. -/
theorem advance_ok (hcap : CAPACITY ≤ 32767) (h : s.WF) {n : Nat} (hn : n ≤ s.len) :
    advance s n = .ok (s.advance n) := by
  have hr := h.rPos_lt
  have hl := h.len_le
  unfold advance
  rw [add_ok (by omega), ok_bind, wrapPos_ok, ok_bind, sub_ok hn, ok_bind]
  rfl

theorem readByte_ok (hcap : CAPACITY ≤ 32767) (h : s.WF) : readByte s = .ok s.readByte := by
  have hb := h.length_buf
  have hr := h.rPos_lt
  unfold readByte ConstCircularBuffer.readByte
  split
  · rfl
  · rename_i hempty
    have hne : s.len ≠ 0 := by simpa [isEmpty] using hempty
    rw [load_ok (by omega), ok_bind, add_ok (by omega), ok_bind, sub_ok (by omega), ok_bind]
    rfl

theorem read_ok (hcap : CAPACITY ≤ 32767) (h : s.WF) (dest : List UInt8) :
    read s dest = .ok (s.read dest) := by
  have hb := h.length_buf
  have hr := h.rPos_lt
  have hl := h.len_le
  unfold read ConstCircularBuffer.read
  split
  · rfl
  · split
    · rfl
    · have hn : min dest.length s.len ≤ s.len := Nat.min_le_right ..
      have hd : min dest.length s.len ≤ dest.length := Nat.min_le_left ..
      generalize min dest.length s.len = n at hn hd
      have hcopy : copyOut s.buf s.rPos s.buf dest (min n (CAPACITY - s.rPos)) n = .ok
          (ConstCircularBuffer.copyOut s.buf s.rPos s.buf dest (min n (CAPACITY - s.rPos)) n) :=
        copyOut_ok (by omega) hd (by omega) (by omega)
      simp only [sub_ok (Nat.le_of_lt hr), ok_bind, hcopy, advance_ok hcap h hn]
      rfl

theorem halves_ok (hcap : CAPACITY ≤ 32767) (h : s.WF) {n : Nat} (hn : n ≤ s.len) :
    halves s n (CAPACITY - s.rPos) = .ok (s.halves n (CAPACITY - s.rPos)) := by
  have hb := h.length_buf
  have hr := h.rPos_lt
  have hl := h.len_le
  unfold halves ConstCircularBuffer.halves
  split
  · rw [add_ok (by omega), ok_bind, slice_ok (by omega) (by omega), ok_bind,
      slice_ok (Nat.le_refl 0) (Nat.zero_le _), ok_bind]
    rfl
  · rw [slice_ok (by omega) (by omega), ok_bind, sub_ok (by omega), ok_bind,
      slice_ok (Nat.zero_le _) (by omega), ok_bind]
    rfl

/-- The terminator's place, counted over both halves, is at most the bytes they hold. -/
theorem findTerm_ok {firstHalf secondHalf : List UInt8}
    (hlen : firstHalf.length + secondHalf.length ≤ 65535) (term : UInt8) (lenAllowed : Nat) :
    findTerm firstHalf secondHalf term lenAllowed =
      .ok (ConstCircularBuffer.findTerm firstHalf secondHalf term lenAllowed) := by
  unfold findTerm ConstCircularBuffer.findTerm
  cases hfirst : firstHalf.findIdx? (· == term) with
  | some pos =>
    have hpos := (List.findIdx?_eq_some_iff_getElem.mp hfirst).1
    simp only [add_ok (show pos + 1 ≤ 65535 by omega), ok_bind]
    rfl
  | none =>
    cases hsecond : secondHalf.findIdx? (· == term) with
    | some pos =>
      have hpos := (List.findIdx?_eq_some_iff_getElem.mp hsecond).1
      simp only [add_ok (show firstHalf.length + pos ≤ 65535 by omega), ok_bind,
        add_ok (show firstHalf.length + pos + 1 ≤ 65535 by omega)]
      rfl
    | none => rfl

/-- What is found does not reach past the bytes that may be read. -/
theorem findTerm_le {firstHalf secondHalf : List UInt8} (term : UInt8) {lenAllowed : Nat}
    (hlen : firstHalf.length + secondHalf.length = lenAllowed) :
    (ConstCircularBuffer.findTerm firstHalf secondHalf term lenAllowed).2 ≤ lenAllowed := by
  rw [findTerm_eq]
  cases hfound : (firstHalf ++ secondHalf).findIdx? (· == term) with
  | some pos =>
    have hpos := (List.findIdx?_eq_some_iff_getElem.mp hfound).1
    rw [List.length_append, hlen] at hpos
    exact hpos
  | none => exact Nat.le_refl _

theorem readTo_ok (hcap : CAPACITY ≤ 32767) (h : s.WF) (term : UInt8) (dest : List UInt8) :
    readTo s term dest = .ok (s.readTo term dest) := by
  have hr := h.rPos_lt
  have hl := h.len_le
  unfold readTo ConstCircularBuffer.readTo
  split
  · rfl
  · split
    · rfl
    · have hn : min dest.length s.len ≤ s.len := Nat.min_le_right ..
      have hd : min dest.length s.len ≤ dest.length := Nat.min_le_left ..
      generalize min dest.length s.len = n at hn hd
      have hfirst := (halves_spec h hn).2
      have hboth := length_halves h hn
      simp only [sub_ok (Nat.le_of_lt hr), ok_bind, halves_ok hcap h hn]
      generalize s.halves n (CAPACITY - s.rPos) = halves at hfirst hboth
      obtain ⟨firstHalf, secondHalf⟩ := halves
      dsimp only at hfirst hboth
      have hle := findTerm_le term hboth
      simp only [findTerm_ok (show firstHalf.length + secondHalf.length ≤ 65535 by omega), ok_bind]
      generalize ConstCircularBuffer.findTerm firstHalf secondHalf term n = found at hle
      obtain ⟨termFound, len⟩ := found
      dsimp only at hle
      have hcopy : copyOut firstHalf 0 secondHalf dest (min len (CAPACITY - s.rPos)) len = .ok
          (ConstCircularBuffer.copyOut firstHalf 0 secondHalf dest
            (min len (CAPACITY - s.rPos)) len) := by
        apply copyOut_ok
        all_goals omega
      have hadvance : advance s len = .ok (s.advance len) := advance_ok hcap h (by omega)
      simp only [hcopy, ok_bind, hadvance]
      split <;> rfl

theorem writeByte_ok (hcap : CAPACITY ≤ 32767) (h : s.WF) (byte : UInt8) :
    writeByte s byte = .ok (s.writeByte byte) := by
  have hb := h.length_buf
  have hw := h.wPos_lt
  have hl := h.len_le
  unfold writeByte ConstCircularBuffer.writeByte
  split
  · rfl
  · rw [store_ok (by omega), ok_bind, add_ok (by omega), ok_bind, add_ok (by omega), ok_bind]
    rfl

theorem copyIn_ok (hcap : CAPACITY ≤ 32767) (h : s.WF) {src : List UInt8} {len : Nat}
    (hlen : len ≤ src.length) (hfit : s.len + len ≤ CAPACITY) :
    copyIn s src len = .ok (s.copyIn src len) := by
  have hb := h.length_buf
  have hw := h.wPos_lt
  have hpos : s.wPos + len ≤ 65535 := by omega
  have hsum : s.len + len ≤ 65535 := by omega
  unfold copyIn ConstCircularBuffer.copyIn
  simp only [sub_ok (Nat.le_of_lt hw), ok_bind]
  have hf : min len (CAPACITY - s.wPos) ≤ len := Nat.min_le_left ..
  have hsplit : len - min len (CAPACITY - s.wPos) ≤ CAPACITY := by omega
  have hend : s.wPos + min len (CAPACITY - s.wPos) ≤ s.buf.length := by omega
  generalize min len (CAPACITY - s.wPos) = f at hf hsplit hend
  have hcopied := length_copy src 0 hend
  simp only [copy_ok (show 0 + f ≤ src.length by omega) hend, ok_bind, sub_ok hf]
  by_cases hsecond : len - f > 0
  · have hwrapped : copyNonoverlapping src f (Rust.copyNonoverlapping src 0 s.buf s.wPos f) 0
        (len - f) = .ok (Rust.copyNonoverlapping src f
          (Rust.copyNonoverlapping src 0 s.buf s.wPos f) 0 (len - f)) := by
      apply copy_ok
      · omega
      · omega
    simp only [if_pos hsecond, hwrapped, ok_bind, add_ok hpos, wrapPos_ok, add_ok hsum]
    rfl
  · simp only [if_neg hsecond, ok_bind, add_ok hpos, wrapPos_ok, add_ok hsum]
    rfl

theorem writeAll_ok (hcap : CAPACITY ≤ 32767) (h : s.WF) (src : List UInt8) :
    writeAll s src = .ok (s.writeAll src) := by
  have hl := h.len_le
  have hfree : s.freeSpace = CAPACITY - s.len := rfl
  unfold writeAll ConstCircularBuffer.writeAll
  split
  · rfl
  · simp only [freeSpace, sub_ok hl, ok_bind, ← hfree]
    by_cases hroom : s.freeSpace < src.length
    · simp only [if_pos hroom]
      rfl
    · have hin : copyIn s src src.length = .ok (s.copyIn src src.length) :=
        copyIn_ok hcap h (Nat.le_refl _) (by omega)
      simp only [if_neg hroom, hin, ok_bind]
      rfl

theorem write_ok (hcap : CAPACITY ≤ 32767) (h : s.WF) (src : List UInt8) :
    write s src = .ok (s.write src) := by
  have hl := h.len_le
  have hfree : s.freeSpace = CAPACITY - s.len := rfl
  unfold write ConstCircularBuffer.write
  split
  · rfl
  · split
    · rfl
    · have hin : copyIn s src (min src.length s.freeSpace) =
          .ok (s.copyIn src (min src.length s.freeSpace)) :=
        copyIn_ok hcap h (Nat.min_le_left ..) (by omega)
      simp only [freeSpace, sub_ok hl, ok_bind, ← hfree, hin]
      rfl

theorem writeStr_ok (hcap : CAPACITY ≤ 32767) (h : s.WF) (str : String) :
    writeStr s str = .ok (s.writeStr str) := by
  unfold writeStr ConstCircularBuffer.writeStr
  simp only [write_ok hcap h, ok_bind]
  generalize s.write (strAsBytes str) = out
  obtain ⟨result, s'⟩ := out
  cases result with
  | ok n => rfl
  | error e => rfl

/-- **Every test of a call passes.** -/
theorem call_ok (hcap : CAPACITY ≤ 32767) (h : s.WF) (c : Call) : call s c = .ok (s.call c) := by
  cases c with
  | new => rfl
  | reset => rfl
  | readByte =>
    simp only [call, readByte_ok hcap h, ok_bind]
    rfl
  | read dest =>
    simp only [call, read_ok hcap h, ok_bind]
    rfl
  | readTo term dest =>
    simp only [call, readTo_ok hcap h, ok_bind]
    rfl
  | writeByte byte =>
    simp only [call, writeByte_ok hcap h, ok_bind]
    rfl
  | writeAll src =>
    simp only [call, writeAll_ok hcap h, ok_bind]
    rfl
  | write src =>
    simp only [call, write_ok hcap h, ok_bind]
    rfl

/-- **Every test of a run passes**, from any state that represents a queue. -/
theorem runCalls_ok {q : BoundedFifo UInt8 CAPACITY} (hone : 1 ≤ CAPACITY)
    (hcap : CAPACITY ≤ 32767) (h : Represents s q) (cs : List Call) :
    runCalls s cs = .ok (s.runCalls cs) := by
  induction cs generalizing s q with
  | nil => rfl
  | cons c cs ih =>
    obtain ⟨-, hnext⟩ := call_simulates hone h c
    simp only [runCalls, call_ok hcap h.1, ok_bind, ih hnext]
    rfl

end InRange

/-- Whatever is called on a new ring, with slices of any length, no test fails; nor does one in
`free_space` or in `write_str`, which leaves the ring as `write` does. -/
theorem tests_pass (CAPACITY : Nat) (hone : 1 ≤ CAPACITY) (hcap : CAPACITY ≤ 32767)
    (cs : List Call) :
    let run := (ConstCircularBuffer.new CAPACITY).runCalls cs
    runCalls (ConstCircularBuffer.new CAPACITY) cs = .ok run ∧
      freeSpace run.2 = .ok run.2.freeSpace ∧
      ∀ str, writeStr run.2 str = .ok (run.2.writeStr str) := by
  intro run
  have hwf : run.2.WF := (runCalls_simulates hone (represents_new hone) cs).2.1
  refine ⟨runCalls_ok hone hcap (represents_new hone) cs, sub_ok hwf.len_le, ?_⟩
  intro str
  exact writeStr_ok hcap hwf str

/-- A ring of three bytes, written and read over its end. -/
theorem tests_pass_three :
    runCalls (ConstCircularBuffer.new 3)
        [.writeAll [1, 2], .readByte, .write [3, 4, 5], .readTo 4 [0, 0, 0, 0], .writeAll [6]] =
      .ok ([.write (.ok 2), .readByte (.ok 1), .write (.ok 2),
        .readTo (.ok (.complete 3)) [2, 3, 4, 0], .write (.ok 1)], ⟨1, 2, 1, [4, 6, 3]⟩) :=
  (tests_pass 3 (by decide) (by decide) _).1.trans rfl

end Checked

end AvrBridge.ConstCircularBuffer
