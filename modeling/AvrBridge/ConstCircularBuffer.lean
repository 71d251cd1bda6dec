import AvrBridge.BufferHandle

/-! Model of `const_circular_buffer.rs`. Each operation returns its result, the
buffer after the call and, where it fills one, the destination slice. The raw
copies are split at the physical end exactly where the source splits them. -/

namespace AvrBridge

open Rust

structure ConstCircularBuffer (CAPACITY : Nat) where
  rPos : Nat
  wPos : Nat
  len : Nat
  buf : List UInt8
  deriving DecidableEq, Repr

namespace ConstCircularBuffer

variable {CAPACITY : Nat}

def new (CAPACITY : Nat) : ConstCircularBuffer CAPACITY :=
  ⟨0, 0, 0, List.replicate CAPACITY 0⟩

def freeSpace (s : ConstCircularBuffer CAPACITY) : Nat := CAPACITY - s.len

def isFull (s : ConstCircularBuffer CAPACITY) : Bool := s.len == CAPACITY

def isEmpty (s : ConstCircularBuffer CAPACITY) : Bool := s.len == 0

def reset (s : ConstCircularBuffer CAPACITY) : Nat × ConstCircularBuffer CAPACITY :=
  (CAPACITY, { s with rPos := 0, wPos := 0, len := 0 })

/-- `if self.pos >= CAPACITY { self.pos -= CAPACITY }`, also for the `==` test
of the byte operations, where `pos` is at most `CAPACITY`. -/
def wrapPos (CAPACITY pos : Nat) : Nat := if pos ≥ CAPACITY then pos - CAPACITY else pos

def readByte (s : ConstCircularBuffer CAPACITY) :
    Except ReadError UInt8 × ConstCircularBuffer CAPACITY :=
  if s.isEmpty then (.error .sourceEmpty, s)
  else
    let byte := s.buf.getD s.rPos 0
    let rPos := if s.rPos + 1 = CAPACITY then 0 else s.rPos + 1
    (.ok byte, { s with rPos := rPos, len := s.len - 1 })

/-- The two copies of `read` and `read_to`: `len` bytes out of `firstHalf` and, past
`firstCopyLen`, out of `secondHalf`. -/
def copyOut (firstHalf : List UInt8) (firstOff : Nat) (secondHalf dest : List UInt8)
    (firstCopyLen len : Nat) : List UInt8 :=
  let dest := copyNonoverlapping firstHalf firstOff dest 0 firstCopyLen
  let secondCopyLen := len - firstCopyLen
  if secondCopyLen > 0 then copyNonoverlapping secondHalf 0 dest firstCopyLen secondCopyLen
  else dest

def read (s : ConstCircularBuffer CAPACITY) (dest : List UInt8) :
    Except ReadError Nat × ConstCircularBuffer CAPACITY × List UInt8 :=
  if dest.isEmpty then (.error .destinationEmpty, s, dest)
  else if s.isEmpty then (.error .sourceEmpty, s, dest)
  else
    let len := min dest.length s.len
    let lenToEnd := CAPACITY - s.rPos
    let firstCopyLen := min len lenToEnd
    let dest := copyOut s.buf s.rPos s.buf dest firstCopyLen len
    (.ok len, { s with rPos := wrapPos CAPACITY (s.rPos + len), len := s.len - len }, dest)

/-- `&buf[lo..hi]`. -/
def slice (buf : List UInt8) (lo hi : Nat) : List UInt8 := (buf.drop lo).take (hi - lo)

/-- The wrapped bytes a read may take, as the slices before and after the physical end. -/
def halves (s : ConstCircularBuffer CAPACITY) (lenAllowed lenToEnd : Nat) :
    List UInt8 × List UInt8 :=
  if lenAllowed ≤ lenToEnd then (slice s.buf s.rPos (s.rPos + lenAllowed), slice s.buf 0 0)
  else (slice s.buf s.rPos CAPACITY, slice s.buf 0 (lenAllowed - lenToEnd))

/-- `(term_found, len)`: up to and including the terminator, else all that may be read. -/
def findTerm (firstHalf secondHalf : List UInt8) (term : UInt8) (lenAllowed : Nat) : Bool × Nat :=
  match firstHalf.findIdx? (· == term) with
  | some pos => (true, pos + 1)
  | none =>
    match secondHalf.findIdx? (· == term) with
    | some pos => (true, firstHalf.length + pos + 1)
    | none => (false, lenAllowed)

def readTo (s : ConstCircularBuffer CAPACITY) (term : UInt8) (dest : List UInt8) :
    Except ReadError ReadStatus × ConstCircularBuffer CAPACITY × List UInt8 :=
  if dest.isEmpty then (.error .destinationEmpty, s, dest)
  else if s.isEmpty then (.error .sourceEmpty, s, dest)
  else
    let lenAllowed := min dest.length s.len
    let lenToEnd := CAPACITY - s.rPos
    let (firstHalf, secondHalf) := s.halves lenAllowed lenToEnd
    let (termFound, len) := findTerm firstHalf secondHalf term lenAllowed
    let firstCopyLen := min len lenToEnd
    let dest := copyOut firstHalf 0 secondHalf dest firstCopyLen len
    let s := { s with rPos := wrapPos CAPACITY (s.rPos + len), len := s.len - len }
    if termFound then (.ok (.complete len), s, dest) else (.ok (.partialRead len), s, dest)

def writeByte (s : ConstCircularBuffer CAPACITY) (byte : UInt8) :
    Except BufferError Unit × ConstCircularBuffer CAPACITY :=
  if s.isFull then (.error .insufficientSpace, s)
  else
    let wPos := if s.wPos + 1 = CAPACITY then 0 else s.wPos + 1
    (.ok (), { s with buf := s.buf.set s.wPos byte, wPos := wPos, len := s.len + 1 })

/-- The common tail of `write_all` and `write`: `len` bytes of `src` go in at `w_pos`. -/
def copyIn (s : ConstCircularBuffer CAPACITY) (src : List UInt8) (len : Nat) :
    ConstCircularBuffer CAPACITY :=
  let lenToEnd := CAPACITY - s.wPos
  let firstCopyLen := min len lenToEnd
  let buf := copyNonoverlapping src 0 s.buf s.wPos firstCopyLen
  let secondCopyLen := len - firstCopyLen
  let buf :=
    if secondCopyLen > 0 then copyNonoverlapping src firstCopyLen buf 0 secondCopyLen else buf
  { s with buf := buf, wPos := wrapPos CAPACITY (s.wPos + len), len := s.len + len }

def writeAll (s : ConstCircularBuffer CAPACITY) (src : List UInt8) :
    Except WriteError Nat × ConstCircularBuffer CAPACITY :=
  if src.isEmpty then (.error .sourceEmpty, s)
  else
    let len := src.length
    if s.freeSpace < len then (.error .insufficientSpace, s)
    else (.ok len, s.copyIn src len)

def write (s : ConstCircularBuffer CAPACITY) (src : List UInt8) :
    Except WriteError Nat × ConstCircularBuffer CAPACITY :=
  if src.isEmpty then (.error .sourceEmpty, s)
  else if s.isFull then (.error .destinationFull, s)
  else
    let len := min src.length s.freeSpace
    (.ok len, s.copyIn src len)

def writeStr (s : ConstCircularBuffer CAPACITY) (str : String) :
    Except FmtError Unit × ConstCircularBuffer CAPACITY :=
  match s.write (strAsBytes str) with
  | (.ok _, s) => (.ok (), s)
  | (.error e, s) => (.error e.toFmtError, s)

end ConstCircularBuffer

end AvrBridge
