import AvrBridge.BufferHandle

/-! Model of `circular_buffer.rs`. A pointer is an address and the memory behind
`[start_ptr, end_ptr)` is a list. The model stops where the source would touch memory
outside that range or where a length comes out negative. -/

namespace AvrBridge

open Rust

structure CircularBuffer where
  startPtr : Nat
  endPtr : Nat
  capacity : Nat
  readPtr : Nat
  writePtr : Nat
  storage : List UInt8
  deriving DecidableEq, Repr

namespace CircularBuffer

/-- `new` on memory that holds these bytes. -/
def new (ptr capacity : Nat) (storage : List UInt8) : CircularBuffer :=
  ⟨ptr, ptr + capacity, capacity, ptr, ptr, storage⟩

/-- `offset as usize`. -/
def asUsize (offset : Int) : Except Panic Nat :=
  if 0 ≤ offset then .ok offset.toNat else .error .arithmeticOverflow

/-- `ptr.read_volatile()`. -/
def load (s : CircularBuffer) (ptr : Nat) : Except Panic UInt8 :=
  if s.startPtr ≤ ptr ∧ ptr < s.endPtr then index s.storage (ptr - s.startPtr)
  else .error .indexOutOfBounds

/-- `slice::from_raw_parts_mut(ptr, bytes.len()).copy_from_slice(bytes)`, also for the one
byte of `write_volatile`. -/
def store (s : CircularBuffer) (ptr : Nat) (bytes : List UInt8) : Except Panic CircularBuffer :=
  if s.startPtr ≤ ptr ∧ ptr + bytes.length ≤ s.endPtr then
    .ok { s with storage := Window.splice s.storage (ptr - s.startPtr) bytes }
  else .error .indexOutOfBounds

/-- `if ptr == self.end_ptr { ptr = self.start_ptr }`. -/
def wrapPtr (s : CircularBuffer) (ptr : Nat) : Nat := if ptr = s.endPtr then s.startPtr else ptr

def len (s : CircularBuffer) : Except Panic Nat :=
  let offset : Int := s.writePtr - s.readPtr
  asUsize (if offset < 0 then s.capacity + offset else offset)

def freeSpace (s : CircularBuffer) : Except Panic Nat := do
  let len ← s.len
  let rest ← subUsize s.capacity len
  subUsize rest 1

def isFull (s : CircularBuffer) : Except Panic Bool := do
  let freeSpace ← s.freeSpace
  return freeSpace == 0

def reset (s : CircularBuffer) : Except Panic (Nat × CircularBuffer) := do
  let capacity ← subUsize s.capacity 1
  return (capacity, { s with readPtr := s.startPtr, writePtr := s.startPtr })

def readByte (s : CircularBuffer) : Except Panic (Except BufferError UInt8 × CircularBuffer) :=
  if s.readPtr = s.writePtr then return (.error .bufferEmpty, s)
  else do
    let byte ← s.load s.readPtr
    return (.ok byte, { s with readPtr := s.wrapPtr (s.readPtr + 1) })

def writeByte (s : CircularBuffer) (byte : UInt8) :
    Except Panic (Except BufferError Unit × CircularBuffer) :=
  let nextWritePtr := s.wrapPtr (s.writePtr + 1)
  if nextWritePtr = s.readPtr then return (.error .insufficientSpace, s)
  else do
    let s ← s.store s.writePtr [byte]
    return (.ok (), { s with writePtr := nextWritePtr })

def write (s : CircularBuffer) (bytes : List UInt8) :
    Except Panic (Except BufferError Nat × CircularBuffer) := do
  let freeSpace ← s.freeSpace
  if freeSpace < bytes.length then return (.error .insufficientSpace, s)
  else
    let spaceToEnd ← asUsize (s.endPtr - s.writePtr)
    let firstCopyLen := min bytes.length spaceToEnd
    let first ← sliceOf bytes 0 firstCopyLen
    let s ← s.store s.writePtr first
    let s := { s with writePtr := s.wrapPtr (s.writePtr + firstCopyLen) }
    let secondCopyLen ← subUsize bytes.length firstCopyLen
    if secondCopyLen > 0 then
      let second ← sliceOf bytes firstCopyLen bytes.length
      let s ← s.store s.startPtr second
      return (.ok bytes.length, { s with writePtr := s.startPtr + secondCopyLen })
    else return (.ok bytes.length, s)

def writeStr (s : CircularBuffer) (str : String) :
    Except Panic (Except FmtError Unit × CircularBuffer) := do
  let (result, s) ← s.write (strAsBytes str)
  match result with
  | .ok _ => return (.ok (), s)
  | .error e => return (.error e.toFmtError, s)

end CircularBuffer

end AvrBridge
