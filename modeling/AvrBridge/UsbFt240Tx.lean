import AvrBridge.UsbFt240

/-! Model of the transmitting half of `usb_ft240.rs`. What a routine has the chip do is part of
its result. The pins and the edge sense that the two setups choose are left out. -/

namespace AvrBridge

open Rust

structure TxState where
  buffer : FlatBuffer
  result : Option (Except DriverError Unit)
  waker : Option Waker
  deriving DecidableEq, Repr

def TxState.new (buffer : FlatBuffer) : TxState := ⟨buffer, none, none⟩

def TxState.error (buffer : FlatBuffer) (error : DriverError) : TxState :=
  ⟨buffer, some (.error error), none⟩

/-- EIMSK and EIFR. -/
structure ExtInt where
  eimsk : BitVec 8
  eifr : BitVec 8
  deriving DecidableEq, Repr

/-- Ones written to EIFR clear flags. -/
def ExtInt.writeEifr (e : ExtInt) (bits : BitVec 8) : ExtInt :=
  { e with eifr := e.eifr &&& ~~~bits }

namespace UsbFt240

def txExtInt5 : BitVec 8 := 1#8 <<< 5

def rxIntSetup (e : ExtInt) : ExtInt := e.writeEifr rxExtInt6
def txIntSetup (e : ExtInt) : ExtInt := e.writeEifr txExtInt5

/-- Only EIMSK is written, so a flag that is set stays set. -/
def txIntEnable (e : ExtInt) : ExtInt := { e with eimsk := e.eimsk ||| txExtInt5 }

def txIntDisable (e : ExtInt) : ExtInt :=
  { e with eimsk := e.eimsk &&& ~~~txExtInt5 }.writeEifr txExtInt5

def txIntEnabled (e : ExtInt) : Bool := e.eimsk &&& txExtInt5 ≠ 0

/-- What a routine has the chip do. -/
inductive ChipCall where
  | writeByte (data : UInt8)
  | flush
  deriving DecidableEq, Repr

/-- `INT5`: what it has the chip do, the waker it wakes, and the registers and the state after
it. -/
def int5 (e : ExtInt) (state : Option TxState) :
    Except Panic (Option ChipCall × Option Waker × ExtInt × Option TxState) :=
  match state with
  | none => .ok (none, none, txIntDisable e, none)
  | some tx => do
      let (result, buffer) ← tx.buffer.readByte
      match result with
      | .ok byte => return (some (.writeByte byte), none, e, some { tx with buffer := buffer })
      | .error _ =>
          return (some .flush, tx.waker, txIntDisable e, some ⟨buffer, some (.ok ()), none⟩)

end UsbFt240

/-- `UsbDriver::write` while TXE has this level. The result of writing the star is discarded. -/
def UsbDriver.write (txe : Bool) (e : ExtInt) (buffer : FlatBuffer) :
    Except Panic (Option UsbFt240.ChipCall × ExtInt × Option TxState) := do
  let (result, buffer) ← buffer.readByte
  match result with
  | .ok byte =>
      let buffer ← if txe then do
          let (_, buffer) ← buffer.writeByte 0x2a
          pure buffer
        else pure buffer
      return (some (.writeByte byte), UsbFt240.txIntEnable e, some (.new buffer))
  | .error _ => return (none, UsbFt240.txIntDisable e, some (.error buffer .bufferEmpty))

/-- `UsbTxFuture::poll`: the answer and the state after it. -/
def UsbTxFuture.poll (state : Option TxState) (waker : Waker) :
    Poll (Except DriverError FlatBuffer) × Option TxState :=
  match state with
  | none => (.ready (.error .missingGlobalState), none)
  | some tx =>
      match tx.result with
      | some (.ok ()) => (.ready (.ok tx.buffer), none)
      | some (.error e) => (.ready (.error e), none)
      | none => (.pending, some { tx with waker := some waker })

end AvrBridge
