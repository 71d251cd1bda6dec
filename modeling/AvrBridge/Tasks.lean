import AvrBridge.FlatBuffer
import AvrBridge.Ft240x

/-! Model of the messages the two tasks of `main.rs` put together in their transmit
buffers. The results of the writes are discarded, so a piece that does not fit is
left out. The LEDs are left out of the model. -/

namespace AvrBridge.Tasks

open Rust

/-- `as_bytes` of an ASCII text. -/
def asBytes (s : String) : List UInt8 := s.toList.map fun c => UInt8.ofNat c.toNat

/-- `len as u8 + 0x30`. -/
def digit (p : Profile) (len : Nat) : Except Panic UInt8 := do
  let n ← p.addU8 (asU8 len) 0x30
  return UInt8.ofNat n

/-- The payload and the three annotation pieces behind it. -/
def writeReport (p : Profile) (tx : FlatBuffer) (payload : List UInt8) (len : Nat) :
    Except Panic FlatBuffer := do
  let (_, tx) ← tx.writeAll payload
  let (_, tx) ← tx.writeStr (asBytes " bytes: ")
  let byte ← digit p len
  let (_, tx) ← tx.writeByte byte
  let (_, tx) ← tx.writeStr (asBytes "\r\n")
  return tx

/-- A frame of `usart1_reader_task` under its title. -/
def writeFrame (p : Profile) (title : String) (tx : FlatBuffer) (rx : List UInt8) (len : Nat) :
    Except Panic FlatBuffer := do
  let (_, tx) ← tx.writeStr (asBytes title)
  let last ← subUsize len 1
  let payload ← sliceOf rx 0 last
  writeReport p tx payload len

/-- What `usart1_reader_task` writes for the answer of `read_to`. -/
def usart1Message (p : Profile) (tx : FlatBuffer) (rx : List UInt8) :
    Except ReadError ReadStatus → Except Panic FlatBuffer
  | .ok (.complete len) => writeFrame p "Complete: " tx rx len
  | .ok (.partialRead len) => writeFrame p "Partial: " tx rx len
  | .ok (.bufferFull len) => writeFrame p "BufferFull: " tx rx len
  | .error _ => do
      let (_, tx) ← tx.writeStr (asBytes "Error: ")
      return tx

/-- What `ft240_reader_task` writes for the answer of `read`. -/
def ft240Message (p : Profile) (tx : FlatBuffer) (rx : List UInt8) :
    Except ErrorKind Nat → Except Panic FlatBuffer
  | .ok len => do
      let payload ← sliceOf rx 0 len
      writeReport p tx payload len
  | .error _ => return tx

/-- The rest of an iteration of `usart1_reader_task` once `read_to` has answered: the
bytes strobed into the FT240 while the pins show these levels. -/
def usart1Iteration (p : Profile) (tx : FlatBuffer) (rx : List UInt8)
    (packet : Except ReadError ReadStatus) (samples : List Levels) :
    Except Panic (List UInt8 × UsbWrite) := do
  let tx := tx.reset.2
  let tx ← usart1Message p tx rx packet
  let buf ← tx.asRef
  UsbWrite.run buf (UsbWrite.enter buf) samples

end AvrBridge.Tasks
