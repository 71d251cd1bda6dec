import AvrBridge.Rust

/-! Model of `buffer_handle.rs`: the status and error types shared by the
buffers, and the handle of one pool slot. The `Display` texts are left out. -/

namespace AvrBridge

open Rust

inductive ReadStatus where
  /-- read completed with bytes read -/
  | complete (len : Nat)
  /-- partial read complete with bytes read -/
  | partialRead (len : Nat)
  /-- read complete because buffer has been filled with bytes -/
  | bufferFull (len : Nat)
  deriving DecidableEq, Repr

inductive ReadError where
  | destinationEmpty
  | sourceEmpty
  | disconnected
  deriving DecidableEq, Repr

inductive WriteError where
  | destinationFull
  | sourceEmpty
  | insufficientSpace
  | disconnected
  deriving DecidableEq, Repr

inductive BufferError where
  | bufferEmpty
  | insufficientSpace
  | partialRead (len : Nat)
  deriving DecidableEq, Repr

/-- `impl From<WriteError> for fmt::Error`. -/
def WriteError.toFmtError (_ : WriteError) : FmtError := .error

/-- `impl From<BufferError> for fmt::Error`. -/
def BufferError.toFmtError (_ : BufferError) : FmtError := .error

/-- Number of bytes a status reports. -/
def ReadStatus.count : ReadStatus → Nat
  | .complete len | .partialRead len | .bufferFull len => len

/-- A `BufferHandle`. The pool is one array of rows, so a pointer to the start
of a row is the number of the row. -/
structure BufferHandle where
  ptr : Nat
  capacity : Nat
  poolIdx : Nat
  deriving DecidableEq, Repr

end AvrBridge
