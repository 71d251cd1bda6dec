import AvrBridge.BufferHandle

/-! Model of `flat_buffer.rs`. Indexing and slicing trap past the storage, so
every operation returns in `Except Panic`; the storage keeps its length. -/

namespace AvrBridge

open Rust

structure FlatBuffer where
  rPos : Nat
  wPos : Nat
  len : Nat
  buf : List UInt8
  deriving DecidableEq, Repr

namespace FlatBuffer

def new (storage : List UInt8) : FlatBuffer := ⟨0, 0, 0, storage⟩

def freeSpace (f : FlatBuffer) : Except Panic Nat := subUsize f.buf.length f.len

def isFull (f : FlatBuffer) : Bool := f.len == f.buf.length

def isEmpty (f : FlatBuffer) : Bool := f.len == 0

def reset (f : FlatBuffer) : Nat × FlatBuffer :=
  (f.buf.length, { f with rPos := 0, wPos := 0, len := 0 })

def readByte (f : FlatBuffer) : Except Panic (Except BufferError UInt8 × FlatBuffer) :=
  if f.isEmpty then .ok (.error .bufferEmpty, f)
  else do
    let byte ← index f.buf f.rPos
    let len ← subUsize f.len 1
    return (.ok byte, { f with rPos := f.rPos + 1, len := len })

def writeByte (f : FlatBuffer) (byte : UInt8) :
    Except Panic (Except BufferError Unit × FlatBuffer) :=
  if f.isFull then .ok (.error .insufficientSpace, f)
  else do
    let _ ← index f.buf f.wPos
    return (.ok (), { f with
      buf := f.buf.set f.wPos byte, wPos := f.wPos + 1, len := f.len + 1 })

def write (f : FlatBuffer) (bytes : List UInt8) :
    Except Panic (Except BufferError Nat × FlatBuffer) :=
  if f.isFull then .ok (.error .insufficientSpace, f)
  else do
    let free ← f.freeSpace
    let len := min bytes.length free
    let src ← sliceOf bytes 0 len
    let buf ← copyFromSlice f.buf f.wPos (f.wPos + len) src
    return (.ok len, { f with buf := buf, wPos := f.wPos + len, len := f.len + len })

def writeAll (f : FlatBuffer) (bytes : List UInt8) :
    Except Panic (Except BufferError Nat × FlatBuffer) := do
  let len := bytes.length
  let free ← f.freeSpace
  if free < len then return (.error .insufficientSpace, f)
  let src ← sliceOf bytes 0 len
  let buf ← copyFromSlice f.buf f.wPos (f.wPos + len) src
  return (.ok len, { f with buf := buf, wPos := f.wPos + len, len := f.len + len })

/-- `fmt::Write::write_str`: whether the whole string was stored. -/
def writeStr (f : FlatBuffer) (bytes : List UInt8) : Except Panic (Bool × FlatBuffer) := do
  let (result, f) ← f.writeAll bytes
  return (result.toBool, f)

/-- `AsRef<[u8]>`. -/
def asRef (f : FlatBuffer) : Except Panic (List UInt8) := sliceOf f.buf f.rPos (f.rPos + f.len)

/-- `AsMut<[u8]>`: the storage from the write position on. -/
def asMut (f : FlatBuffer) : Except Panic (List UInt8) := sliceOf f.buf f.wPos f.buf.length

end FlatBuffer

end AvrBridge
