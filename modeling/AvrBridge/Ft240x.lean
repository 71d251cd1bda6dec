import AvrBridge.Rust

/-! Model of `ft240x.rs`. Pins are levels, `true` is high, and every level is
sampled when the source samples it, so a run is driven by the levels seen. The two
polls and the two interrupt routines are lists of single accesses to a pin, a
register or a waker slot: their order is what they promise. A strobe carries its byte here
(the accesses behind it are in `Ft240xBus`); the setting of the edge sense in `init` is
left out. -/

namespace AvrBridge

open Rust

/-- The `embedded_io::ErrorKind`s of the driver. -/
inductive ErrorKind where
  | notConnected
  | invalidInput
  | outOfMemory
  deriving DecidableEq, Repr

/-- Levels of the three input pins at one instant. -/
structure Levels where
  sense : Bool
  rxf : Bool
  txe : Bool
  deriving DecidableEq, Repr

namespace Ft240x

def rxExtInt6 : BitVec 8 := 1#8 <<< 6
def txExtInt5 : BitVec 8 := 1#8 <<< 5

/-- The two handshake lines. -/
inductive Line where
  | rxf
  | txe
  deriving DecidableEq, Repr

def Line.bit : Line → BitVec 8
  | .rxf => rxExtInt6
  | .txe => txExtInt5

/-- One access of the driver. `isLow` is `can_read` or `can_write`; `wake` takes the
stored waker and wakes it. -/
inductive Access where
  | isConnected
  | isLow (line : Line)
  | storeWaker (line : Line) (w : Waker)
  | wake (line : Line)
  | writeEifr (bits : BitVec 8)
  | setEimsk (bits : BitVec 8)
  | clearEimsk (bits : BitVec 8)
  deriving DecidableEq, Repr

def intDisable (bit : BitVec 8) : List Access := [.clearEimsk bit, .writeEifr bit]
def intEnable (bit : BitVec 8) : List Access := [.writeEifr bit, .setEimsk bit]

def rxfIntDisable : List Access := intDisable rxExtInt6
def rxfIntEnable : List Access := intEnable rxExtInt6
def txeIntEnable : List Access := intEnable txExtInt5
def txeIntDisable : List Access := intDisable txExtInt5

def int6 : List Access := .wake .rxf :: rxfIntDisable
def int5 : List Access := .wake .txe :: txeIntDisable

/-- The common body of the two polls. -/
def canPoll (line : Line) (enable : List Access) (w : Waker) : List Access :=
  .isConnected :: .isLow line :: .storeWaker line w :: enable

def canRead (w : Waker) : List Access := canPoll .rxf rxfIntEnable w
def canWrite (w : Waker) : List Access := canPoll .txe txeIntEnable w

/-- The poll that waits for a line, and the interrupt routine of its falling edge. -/
def Line.poll : Line → Waker → List Access
  | .rxf => canRead
  | .txe => canWrite

def Line.isr : Line → List Access
  | .rxf => int6
  | .txe => int5

theorem Line.poll_eq (line : Line) (w : Waker) :
    line.poll w = [.isConnected, .isLow line, .storeWaker line w, .writeEifr line.bit,
      .setEimsk line.bit] := by
  cases line <;> rfl

theorem Line.isr_eq (line : Line) :
    line.isr = [.wake line, .clearEimsk line.bit, .writeEifr line.bit] := by
  cases line <;> rfl

/-- Whether a line is low when the pins have these levels. -/
def Line.isLow (pins : Levels) : Line → Bool
  | .rxf => !pins.rxf
  | .txe => !pins.txe

/-- The answer with which an access ends the poll it belongs to. -/
def Access.answer (pins : Levels) : Access → Option (Except ErrorKind Unit)
  | .isConnected => if pins.sense then none else some (.error .notConnected)
  | .isLow line => if line.isLow pins then some (.ok ()) else none
  | _ => none

/-- The answer of a poll that sees these levels. -/
def pollAnswer (program : List Access) (pins : Levels) : Poll (Except ErrorKind Unit) :=
  match program.findSome? (·.answer pins) with
  | some answer => .ready answer
  | none => .pending

theorem pollAnswer_poll (line : Line) (w : Waker) (pins : Levels) :
    pollAnswer (line.poll w) pins =
      if pins.sense then if line.isLow pins then .ready (.ok ()) else .pending
      else .ready (.error .notConnected) := by
  rw [line.poll_eq, pollAnswer]
  cases hs : pins.sense <;> cases hl : line.isLow pins <;>
    simp [List.findSome?, Access.answer, hs, hl]

end Ft240x

open Ft240x

/-- One RD strobe: the byte the chip presents, and SENSE and RXF as sampled after it. -/
structure Strobe where
  data : UInt8
  sense : Bool
  rxf : Bool
  deriving DecidableEq, Repr

/-- Where a `Ft240xReaderHandle::read` stands: it awaits `Ft240xCanRead`, is about to
enter the critical section, or has returned. -/
inductive UsbRead where
  | canRead
  | take
  | done (result : Except ErrorKind Nat)
  deriving DecidableEq, Repr

namespace UsbRead

/-- The call, up to its await. -/
def enter (buf : List UInt8) : UsbRead :=
  if buf.isEmpty then .done (.error .invalidInput) else .canRead

/-- A poll of `Ft240xCanRead`; its waker plays no part in the answer. -/
def await (pins : Levels) : UsbRead :=
  match pollAnswer (Ft240x.canRead 0) pins with
  | .ready (.ok ()) => .take
  | .ready (.error e) => .done (.error e)
  | .pending => .canRead

/-- The walk over the buffer after `bytes` places: the places after it, the bytes taken
from the chip, and the result. `none` if more strobes are made than given. -/
def walk : Nat → List UInt8 → List Strobe →
    Option (List UInt8 × List UInt8 × Except ErrorKind Nat)
  | bytes, [], _ => some ([], [], .ok bytes)
  | _, _ :: _, [] => none
  | bytes, _ :: places, strobe :: strobes =>
      let bytes := bytes + 1
      if !strobe.sense then some (strobe.data :: places, [strobe.data], .error .notConnected)
      else if strobe.rxf then some (strobe.data :: places, [strobe.data], .ok bytes)
      else
        match walk bytes places strobes with
        | some (places, taken, result) =>
            some (strobe.data :: places, strobe.data :: taken, result)
        | none => none

/-- The critical section. -/
def serve (buf : List UInt8) (sense : Bool) (strobes : List Strobe) :
    Option (List UInt8 × List UInt8 × Except ErrorKind Nat) :=
  if !sense then some (buf, [], .error .notConnected) else walk 0 buf strobes

end UsbRead

/-- Where a `Ft240xWriterHandle::write` stands: it awaits `Ft240xCanWrite`, is about to
strobe the byte with this number, or has returned. -/
inductive UsbWrite where
  | canWrite
  | writing (bytesWritten : Nat)
  | done (result : Except ErrorKind Nat)
  deriving DecidableEq, Repr

namespace UsbWrite

/-- The call, up to its await. -/
def enter (buf : List UInt8) : UsbWrite :=
  if buf.length == 0 then .done (.error .invalidInput) else .canWrite

/-- A poll of `Ft240xCanWrite`; its waker plays no part in the answer. -/
def await (pins : Levels) : UsbWrite :=
  match pollAnswer (Ft240x.canWrite 0) pins with
  | .ready (.ok ()) => .writing 0
  | .ready (.error e) => .done (.error e)
  | .pending => .canWrite

/-- One pass of the loop: the byte it strobes into the chip, and where it stands after
sampling the pins. -/
def strobe (buf : List UInt8) (pins : Levels) (bytesWritten : Nat) :
    Except Panic (UInt8 × UsbWrite) := do
  let byte ← index buf bytesWritten
  let bytesWritten := bytesWritten + 1
  let finished := bytesWritten == buf.length || !Line.txe.isLow pins || !pins.sense
  return (byte, if finished then .done (.ok bytesWritten) else .writing bytesWritten)

/-- The bytes strobed while the pins show these levels, one sample for each poll and one
for each pass of the loop. -/
def run (buf : List UInt8) : UsbWrite → List Levels → Except Panic (List UInt8 × UsbWrite)
  | w, [] => .ok ([], w)
  | .canWrite, pins :: rest => run buf (await pins) rest
  | .writing n, pins :: rest => do
      let (byte, w) ← strobe buf pins n
      let (bytes, w) ← run buf w rest
      return (byte :: bytes, w)
  | .done result, _ :: _ => .ok ([], .done result)

end UsbWrite

end AvrBridge
