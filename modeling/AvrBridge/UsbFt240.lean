import AvrBridge.CircularBuffer
import AvrBridge.FlatBuffer

/-! Model of the receiving half of `usb_ft240.rs` and of `driver.rs`. A critical section and
an interrupt routine are one step each. Of the external interrupts the model keeps EIMSK, of
the data bus the byte that `read_byte` returns; EIFR and the pins are left out. -/

namespace AvrBridge

open Rust

inductive DriverError where
  | missingDriver
  | missingGlobalState
  | missingGlobalBuffer
  | missingFutureBuffer
  | bufferEmpty
  | insufficientSpace
  deriving DecidableEq, Repr

structure RxState where
  buffer : CircularBuffer
  waker : Option Waker
  error : Option DriverError
  deriving DecidableEq, Repr

def RxState.new (buffer : CircularBuffer) : RxState := ⟨buffer, none, none⟩

namespace UsbFt240

def rxExtInt6 : BitVec 8 := 1#8 <<< 6

def rxIntEnable (eimsk : BitVec 8) : BitVec 8 := eimsk ||| rxExtInt6
def rxIntDisable (eimsk : BitVec 8) : BitVec 8 := eimsk &&& ~~~rxExtInt6
def rxIntEnabled (eimsk : BitVec 8) : Bool := eimsk &&& rxExtInt6 ≠ 0

/-- `INT6` with this byte next in the chip: whether it takes the byte, the waker it wakes,
EIMSK and the state after it. -/
def int6 (eimsk : BitVec 8) (state : Option RxState) (byte : UInt8) :
    Except Panic (Bool × Option Waker × BitVec 8 × Option RxState) :=
  match state with
  | none => .ok (false, none, rxIntDisable eimsk, none)
  | some rx => do
      let full ← rx.buffer.isFull
      if !full then
        let (_, buffer) ← rx.buffer.writeByte byte
        return (true, rx.waker, eimsk, some ⟨buffer, none, rx.error⟩)
      else
        return (false, rx.waker, rxIntDisable eimsk,
          some ⟨rx.buffer, none, some .insufficientSpace⟩)

end UsbFt240

/-- `UsbDriver::init`. -/
def UsbDriver.init (eimsk : BitVec 8) (buffer : CircularBuffer) : BitVec 8 × Option RxState :=
  (UsbFt240.rxIntEnable eimsk, some (.new buffer))

structure UsbRxFuture where
  buffer : Option FlatBuffer
  deriving DecidableEq, Repr

/-- `UsbDriver::read`. -/
def UsbDriver.read (buffer : FlatBuffer) : UsbRxFuture := ⟨some buffer⟩

namespace UsbRxFuture

/-- How the loop of `poll` ends. -/
inductive Exit where
  | noByte
  | packetDetected
  | overFlow
  deriving DecidableEq, Repr

/-- The loop of `poll`, `none` if it is not over after so many passes. The byte is out of the
ring before the packet buffer is tested. -/
def receive : Nat → CircularBuffer → FlatBuffer →
    Except Panic (Option (Exit × CircularBuffer × FlatBuffer))
  | 0, _, _ => .ok none
  | passes + 1, ring, packet => do
      let (result, ring) ← ring.readByte
      match result with
      | .error _ => return some (.noByte, ring, packet)
      | .ok byte =>
          if !packet.isFull then
            let (_, packet) ← packet.writeByte byte
            if byte == 0x0d then return some (.packetDetected, ring, packet)
            else receive passes ring packet
          else return some (.overFlow, ring, packet)

/-- `UsbRxFuture::poll`: the answer, EIMSK, the state and the future after it. A ring of
`capacity` bytes is empty after fewer passes than that. -/
def poll (eimsk : BitVec 8) (state : Option RxState) (future : UsbRxFuture) (waker : Waker) :
    Except Panic (Option (Poll (Except DriverError FlatBuffer) × BitVec 8 × Option RxState ×
      UsbRxFuture)) :=
  match state with
  | none => .ok (some (.ready (.error .missingGlobalState), eimsk, none, future))
  | some rx =>
      match future.buffer with
      | none => .ok (some (.ready (.error .missingFutureBuffer), eimsk, some rx, future))
      | some packet => do
          let received ← receive (rx.buffer.capacity + 1) rx.buffer packet
          match received with
          | none => return none
          | some (exit, ring, packet) =>
              let eimsk := UsbFt240.rxIntEnable eimsk
              match exit with
              | .packetDetected =>
                  return some (.ready (.ok packet), eimsk, some { rx with buffer := ring }, ⟨none⟩)
              | .overFlow =>
                  return some (.ready (.error .insufficientSpace), eimsk,
                    some { rx with buffer := ring }, ⟨some packet⟩)
              | .noByte =>
                  return some (.pending, eimsk,
                    some { rx with buffer := ring, waker := some waker }, ⟨some packet⟩)

end UsbRxFuture

end AvrBridge
