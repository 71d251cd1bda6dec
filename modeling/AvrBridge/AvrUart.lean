import AvrBridge.ConstCircularBuffer

/-! Model of `avr_uart.rs`. Critical sections and interrupt routines are single steps
on the shared reader and writer. Of the peripheral the model keeps UCSR1B and the
bytes written to UDR1, of the pins the level of CTS; the baud rate, the character
format and the control signals are left out. -/

namespace AvrBridge

open Rust

def bufferCapacity : Nat := 64

/-! ## Receiving -/

/-- `UsartReader`; `cts` is the level of the pin, `true` is high. -/
structure UsartReader where
  cts : Bool
  buffer : ConstCircularBuffer bufferCapacity
  waker : Option Waker
  deriving DecidableEq, Repr

namespace UsartReader

def deassertThreshold : Nat := bufferCapacity / 4
def reassertThreshold : Nat := bufferCapacity / 2

/-- The static reader, its pin driven low as `into_output` leaves it. -/
def new : UsartReader := ⟨false, .new bufferCapacity, none⟩

/-- `USART1_RX` with this byte in UDR1: the waker it wakes and the reader after it. The
result of the write is discarded. -/
def usart1Rx (r : UsartReader) (byte : UInt8) : Option Waker × UsartReader :=
  let (_, buffer) := r.buffer.writeByte byte
  let cts := if buffer.freeSpace < deassertThreshold then true else r.cts
  (r.waker, ⟨cts, buffer, none⟩)

/-- `Usart1CanRead::poll`. -/
def canRead (r : UsartReader) (w : Waker) : Poll (Except ReadError Unit) × UsartReader :=
  if r.buffer.len > 0 then (.ready (.ok ()), r)
  else (.pending, { r with waker := some w })

/-- The pin after a critical section that left this buffer behind. -/
def reassert (r : UsartReader) (buffer : ConstCircularBuffer bufferCapacity) : UsartReader :=
  { r with buffer := buffer, cts := if reassertThreshold < buffer.freeSpace then false else r.cts }

/-- The critical section of `Usart1ReaderHandle::try_read_to`. -/
def takeTo (r : UsartReader) (term : UInt8) (dest : List UInt8) :
    Except ReadError ReadStatus × UsartReader × List UInt8 :=
  let (result, buffer, dest) := r.buffer.readTo term dest
  (result, r.reassert buffer, dest)

/-- The critical section of `Usart1ReaderHandle::read`. -/
def take (r : UsartReader) (dest : List UInt8) :
    Except ReadError Nat × UsartReader × List UInt8 :=
  let (result, buffer, dest) := r.buffer.read dest
  (result, r.reassert buffer, dest)

end UsartReader

/-- Where a `Usart1ReaderHandle::read_to` stands that has read `total` bytes: it awaits
`Usart1CanRead`, is about to enter the critical section, or has returned. -/
inductive UartReadTo where
  | canRead (total : Nat)
  | take (total : Nat)
  | done (result : Except ReadError ReadStatus)
  deriving DecidableEq, Repr

namespace UartReadTo

/-- The call of `try_read_to` on `&mut buf[total_len..]`, up to its await. -/
def enter (buf : List UInt8) (total : Nat) : Except Panic UartReadTo := do
  let rest ← sliceOf buf total buf.length
  return if rest.isEmpty then .done (.error .destinationEmpty) else .canRead total

/-- A poll of `Usart1CanRead`. -/
def await (r : UsartReader) (w : Waker) (total : Nat) : UartReadTo × UsartReader :=
  match r.canRead w with
  | (.ready (.ok ()), r) => (.take total, r)
  | (.ready (.error e), r) => (.done (.error e), r)
  | (.pending, r) => (.canRead total, r)

/-- The critical section and what the loop does with its result. -/
def serve (r : UsartReader) (term : UInt8) (buf : List UInt8) (total : Nat) :
    Except Panic (UartReadTo × UsartReader × List UInt8) := do
  let rest ← sliceOf buf total buf.length
  let (result, r, rest) := r.takeTo term rest
  let buf := Window.splice buf total rest
  match result with
  | .error e => return (.done (.error e), r, buf)
  | .ok (.partialRead len) =>
      let next ← enter buf (total + len)
      return (next, r, buf)
  | .ok (.complete len) => return (.done (.ok (.complete (total + len))), r, buf)
  | .ok (.bufferFull len) => return (.done (.ok (.bufferFull (total + len))), r, buf)

end UartReadTo

/-! ## Transmitting -/

/-- UCSR1B and the bytes written to UDR1. -/
structure Usart1 where
  ucsr1b : BitVec 8
  udr1 : List UInt8
  deriving DecidableEq, Repr

/-- The bit UDRIE1 of UCSR1B. -/
def udrie1 : BitVec 8 := 1#8 <<< 5

def rxcie1 : BitVec 8 := 1#8 <<< 7
def txcie1 : BitVec 8 := 1#8 <<< 6
def rxen1 : BitVec 8 := 1#8 <<< 4
def txen1 : BitVec 8 := 1#8 <<< 3
def ucsz12 : BitVec 8 := 1#8 <<< 2

/-- UCSR1B after `AvrUart::init` modified it. -/
def AvrUart.init (ucsr1b : BitVec 8) : BitVec 8 :=
  ((((((ucsr1b ||| rxcie1) &&& ~~~txcie1) &&& ~~~udrie1) ||| rxen1) ||| txen1) &&& ~~~ucsz12)

structure UsartWriter where
  flushCharOpt : Option UInt8
  buffer : ConstCircularBuffer bufferCapacity
  wakerOpt : Option Waker
  txIdle : Bool
  deriving DecidableEq, Repr

namespace UsartWriter

def new : UsartWriter := ⟨none, .new bufferCapacity, none, true⟩

def startTxIfNeeded (u : Usart1) (w : UsartWriter) : Usart1 × UsartWriter :=
  if w.txIdle && !w.buffer.isEmpty then
    match w.buffer.readByte with
    | (.ok byte, buffer) =>
        (⟨u.ucsr1b ||| udrie1, u.udr1 ++ [byte]⟩, { w with buffer := buffer, txIdle := false })
    | (.error _, buffer) => (u, { w with buffer := buffer })
  else (u, w)

/-- `send_byte`, once UDRE1 is set. -/
def sendByte (u : Usart1) (byte : UInt8) : Usart1 := { u with udr1 := u.udr1 ++ [byte] }

/-- `USART1_UDRE`: `write` on UCSR1B starts from the reset value, zero. -/
def usart1Udre (u : Usart1) (w : UsartWriter) : Option Waker × Usart1 × UsartWriter :=
  match w.buffer.readByte with
  | (.ok byte, buffer) =>
      (w.wakerOpt, sendByte u byte, { w with buffer := buffer, wakerOpt := none })
  | (.error _, buffer) =>
      (w.wakerOpt, { u with ucsr1b := 0 },
        { w with buffer := buffer, wakerOpt := none, txIdle := true })

/-- `Usart1CanWrite::poll`. -/
def canWrite (u : Usart1) (w : UsartWriter) (waker : Waker) :
    Poll (Except WriteError Unit) × Usart1 × UsartWriter :=
  if !w.buffer.isFull then (.ready (.ok ()), u, w)
  else
    let (u, w) := startTxIfNeeded u w
    (.pending, u, { w with wakerOpt := some waker })

/-- The critical section of `Usart1WriterHandle::flush`. The result of the write is
discarded. -/
def queueFlush (u : Usart1) (w : UsartWriter) : Usart1 × UsartWriter :=
  let buffer := match w.flushCharOpt with
    | some flushChar => (w.buffer.writeByte flushChar).2
    | none => w.buffer
  startTxIfNeeded u { w with buffer := buffer }

/-- `Usart1TxBufferEmpty::poll`. -/
def txBufferEmpty (u : Usart1) (w : UsartWriter) (waker : Waker) :
    Poll (Except WriteError Unit) × Usart1 × UsartWriter :=
  if w.buffer.isEmpty then (.ready (.ok ()), u, w)
  else
    let (u, w) := startTxIfNeeded u w
    (.pending, u, { w with wakerOpt := some waker })

/-- The critical section of `Usart1WriterHandle::write`. -/
def send (u : Usart1) (buf : List UInt8) : Except WriteError Nat × Usart1 :=
  (.ok buf.length, buf.foldl sendByte u)

end UsartWriter

/-- Where a `Usart1WriterHandle::write` stands: it awaits `Usart1CanWrite`, is about to
enter the critical section, or has returned. -/
inductive UartWrite where
  | canWrite
  | send
  | done (result : Except WriteError Nat)
  deriving DecidableEq, Repr

namespace UartWrite

/-- The call, up to its await. -/
def enter (buf : List UInt8) : UartWrite :=
  if buf.isEmpty then .done (.error .sourceEmpty) else .canWrite

/-- A poll of `Usart1CanWrite`. -/
def await (u : Usart1) (w : UsartWriter) (waker : Waker) : UartWrite × Usart1 × UsartWriter :=
  match UsartWriter.canWrite u w waker with
  | (.ready (.ok ()), u, w) => (.send, u, w)
  | (.ready (.error e), u, w) => (.done (.error e), u, w)
  | (.pending, u, w) => (.canWrite, u, w)

end UartWrite

/-- Where a `Usart1WriterHandle::flush` stands: it awaits `Usart1CanWrite`, is about to
enter the critical section, awaits `Usart1TxBufferEmpty`, or has returned. -/
inductive UartFlush where
  | canWrite
  | queue
  | drain
  | done (result : Except WriteError Unit)
  deriving DecidableEq, Repr

namespace UartFlush

/-- A poll of `Usart1CanWrite`. -/
def awaitCanWrite (u : Usart1) (w : UsartWriter) (waker : Waker) :
    UartFlush × Usart1 × UsartWriter :=
  match UsartWriter.canWrite u w waker with
  | (.ready (.ok ()), u, w) => (.queue, u, w)
  | (.ready (.error e), u, w) => (.done (.error e), u, w)
  | (.pending, u, w) => (.canWrite, u, w)

/-- A poll of `Usart1TxBufferEmpty`. -/
def awaitDrained (u : Usart1) (w : UsartWriter) (waker : Waker) :
    UartFlush × Usart1 × UsartWriter :=
  match UsartWriter.txBufferEmpty u w waker with
  | (.ready result, u, w) => (.done result, u, w)
  | (.pending, u, w) => (.drain, u, w)

end UartFlush

end AvrBridge
