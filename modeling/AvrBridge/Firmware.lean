import AvrBridge.AvrUart
import AvrBridge.BufferPool
import AvrBridge.Tasks

/-! The whole program: the two tasks of `main.rs`, the pool they share, both directions
of the UART and its two interrupts. A step is what a task does between two places
where it can be interrupted or give way, so every order in which `Join` polls the
tasks is a run. The delay of `ft240_reader_task` ends at any time. -/

namespace AvrBridge.Firmware

open Rust Tasks

/-- A poll of `BufferRequest.await.into()`: the storage, once a handle was ready. -/
def request {N C : Nat} (p : Profile) (kind : StorageKind) (b : BufferPool N C) (w : Waker) :
    Except Panic (Option Storage × BufferPool N C) := do
  let (answer, b) ← b.poll p w
  match answer with
  | .ready h =>
      let (storage, b) ← Storage.fromHandle p kind b h
      return (some storage, b)
  | .pending => return (none, b)

/-- A `FlatBuffer` whose storage is a row of the pool. -/
structure TxBuffer where
  slot : Nat
  rPos : Nat
  wPos : Nat
  len : Nat
  deriving DecidableEq, Repr

namespace TxBuffer

def new (storage : Storage) : TxBuffer := ⟨storage.ptr, 0, 0, 0⟩

def reset (t : TxBuffer) : TxBuffer := ⟨t.slot, 0, 0, 0⟩

/-- The buffer with the row it is made from. -/
def load (rows : List (List UInt8)) (t : TxBuffer) : Except Panic FlatBuffer := do
  let row ← index rows t.slot
  return ⟨t.rPos, t.wPos, t.len, row⟩

/-- The bytes of `as_ref`. -/
def asRef (rows : List (List UInt8)) (t : TxBuffer) : Except Panic (List UInt8) := do
  let f ← t.load rows
  f.asRef

/-- The rows and the buffer after its content became `f`. -/
def save (rows : List (List UInt8)) (t : TxBuffer) (f : FlatBuffer) :
    List (List UInt8) × TxBuffer :=
  (rows.set t.slot f.buf, ⟨t.slot, f.rPos, f.wPos, f.len⟩)

end TxBuffer

/-- Where `ft240_reader_task` stands. Behind a read the bytes taken from the chip are
kept with its result. -/
inductive Ft240Task where
  | requestRx
  | requestTx (rx : Storage)
  | greet (rx : Storage) (tx : TxBuffer) (w : UartWrite)
  | delay (rx : Storage) (tx : TxBuffer)
  | read (rx : Storage) (tx : TxBuffer) (r : UsbRead)
  | compose (rx : Storage) (tx : TxBuffer) (taken : List UInt8) (result : Except ErrorKind Nat)
  | write (rx : Storage) (tx : TxBuffer) (taken : List UInt8) (result : Except ErrorKind Nat)
      (w : UartWrite)
  deriving DecidableEq, Repr

/-- Where `usart1_reader_task` stands. -/
inductive Usart1Task where
  | greet (w : UsbWrite)
  | requestRx
  | requestTx (rx : Storage)
  | read (rx : Storage) (tx : TxBuffer) (r : UartReadTo)
  | compose (rx : Storage) (tx : TxBuffer) (result : Except ReadError ReadStatus)
  | write (rx : Storage) (tx : TxBuffer) (w : UsbWrite)
  deriving DecidableEq, Repr

/-- A finished iteration of `ft240_reader_task`: what its read took and returned, and the
message its write sent. -/
structure Iteration where
  taken : List UInt8
  result : Except ErrorKind Nat
  message : List UInt8
  deriving DecidableEq, Repr

structure State where
  pool : BufferPool numBuffers bufferSize
  reader : UsartReader
  uart : Usart1
  writer : UsartWriter
  ft240Task : Ft240Task
  usart1Task : Usart1Task
  log : List Iteration
  deriving DecidableEq, Repr

def usbGreeting : List UInt8 := asBytes "usb reader starting\r\n"
def uartGreeting : List UInt8 := asBytes "uart reader starting\r\n"
def term : UInt8 := 0x0a

/-! ## `ft240_reader_task` -/

/-- The top of the loop: reset the buffer and call `read`. -/
def nextRead (rows : List (List UInt8)) (rx : Storage) (tx : TxBuffer) :
    Except Panic Ft240Task := do
  let row ← index rows rx.ptr
  return match UsbRead.enter row with
    | .done result => .compose rx tx.reset [] result
    | r => .read rx tx.reset r

inductive Ft240Act where
  | request (w : Waker)
  | canWrite (w : Waker)
  | send
  | delayed
  | canRead (pins : Levels)
  | take (sense : Bool) (strobes : List Strobe)
  | compose
  deriving DecidableEq, Repr

def ft240Step (p : Profile) (s : State) (act : Ft240Act) : Option State :=
  match act, s.ft240Task with
  | .request w, .requestRx => do
      let (storage, pool) ← (request p .slice s.pool w).toOption
      let task := match storage with
        | some rx => .requestTx rx
        | none => .requestRx
      return { s with pool := pool, ft240Task := task }
  | .request w, .requestTx rx => do
      let (storage, pool) ← (request p .flatBuffer s.pool w).toOption
      let task := match storage with
        | some tx => .greet rx (.new tx) (UartWrite.enter usbGreeting)
        | none => .requestTx rx
      return { s with pool := pool, ft240Task := task }
  | .canWrite waker, .greet rx tx .canWrite =>
      let (w, uart, writer) := UartWrite.await s.uart s.writer waker
      let task := match w with
        | .done _ => .delay rx tx
        | w => .greet rx tx w
      some { s with uart := uart, writer := writer, ft240Task := task }
  | .send, .greet rx tx .send =>
      let (_, uart) := UsartWriter.send s.uart usbGreeting
      some { s with uart := uart, ft240Task := .delay rx tx }
  | .delayed, .delay rx tx => do
      let task ← (nextRead s.pool.pool rx tx).toOption
      return { s with ft240Task := task }
  | .canRead pins, .read rx tx .canRead =>
      let task := match UsbRead.await pins with
        | .done result => .compose rx tx [] result
        | r => .read rx tx r
      some { s with ft240Task := task }
  | .take sense strobes, .read rx tx .take => do
      let row ← (index s.pool.pool rx.ptr).toOption
      let (row, taken, result) ← UsbRead.serve row sense strobes
      return { s with
        pool := { s.pool with pool := s.pool.pool.set rx.ptr row }
        ft240Task := .compose rx tx taken result }
  | .compose, .compose rx tx taken result => do
      let row ← (index s.pool.pool rx.ptr).toOption
      let f ← (tx.load s.pool.pool).toOption
      let f ← (ft240Message p f row result).toOption
      let (rows, tx) := tx.save s.pool.pool f
      let buf ← (tx.asRef rows).toOption
      match UartWrite.enter buf with
      | .done _ =>
          let task ← (nextRead rows rx tx).toOption
          return { s with
            pool := { s.pool with pool := rows }
            ft240Task := task
            log := s.log ++ [⟨taken, result, []⟩] }
      | w => return { s with
            pool := { s.pool with pool := rows }
            ft240Task := .write rx tx taken result w }
  | .canWrite waker, .write rx tx taken result .canWrite => do
      let (w, uart, writer) := UartWrite.await s.uart s.writer waker
      match w with
      | .done _ =>
          let task ← (nextRead s.pool.pool rx tx).toOption
          return { s with
            uart := uart
            writer := writer
            ft240Task := task
            log := s.log ++ [⟨taken, result, []⟩] }
      | w => return { s with
          uart := uart
          writer := writer
          ft240Task := .write rx tx taken result w }
  | .send, .write rx tx taken result .send => do
      let buf ← (tx.asRef s.pool.pool).toOption
      let (_, uart) := UsartWriter.send s.uart buf
      let task ← (nextRead s.pool.pool rx tx).toOption
      return { s with
        uart := uart
        ft240Task := task
        log := s.log ++ [⟨taken, result, buf⟩] }
  | _, _ => none

/-! ## `usart1_reader_task` -/

/-- The top of the loop: reset the buffer and call `read_to`. -/
def nextReadTo (rows : List (List UInt8)) (rx : Storage) (tx : TxBuffer) :
    Except Panic Usart1Task := do
  let row ← index rows rx.ptr
  let r ← UartReadTo.enter row 0
  return match r with
    | .done result => .compose rx tx.reset result
    | r => .read rx tx.reset r

inductive Usart1Act where
  | canWrite (pins : Levels)
  | strobe (pins : Levels)
  | request (w : Waker)
  | canRead (w : Waker)
  | take
  | compose
  deriving DecidableEq, Repr

def usart1Step (p : Profile) (s : State) (act : Usart1Act) : Option State :=
  match act, s.usart1Task with
  | .canWrite pins, .greet .canWrite =>
      let task := match UsbWrite.await pins with
        | .done _ => .requestRx
        | w => .greet w
      some { s with usart1Task := task }
  | .strobe pins, .greet (.writing n) => do
      let (_, w) ← (UsbWrite.strobe uartGreeting pins n).toOption
      let task := match w with
        | .done _ => .requestRx
        | w => .greet w
      return { s with usart1Task := task }
  | .request w, .requestRx => do
      let (storage, pool) ← (request p .slice s.pool w).toOption
      let task := match storage with
        | some rx => .requestTx rx
        | none => .requestRx
      return { s with pool := pool, usart1Task := task }
  | .request w, .requestTx rx => do
      let (storage, pool) ← (request p .flatBuffer s.pool w).toOption
      let task ← match storage with
        | some tx => (nextReadTo pool.pool rx (.new tx)).toOption
        | none => some (.requestTx rx)
      return { s with pool := pool, usart1Task := task }
  | .canRead w, .read rx tx (.canRead total) =>
      let (r, reader) := UartReadTo.await s.reader w total
      let task := match r with
        | .done result => .compose rx tx result
        | r => .read rx tx r
      some { s with reader := reader, usart1Task := task }
  | .take, .read rx tx (.take total) => do
      let row ← (index s.pool.pool rx.ptr).toOption
      let (r, reader, row) ← (UartReadTo.serve s.reader term row total).toOption
      let task := match r with
        | .done result => .compose rx tx result
        | r => .read rx tx r
      return { s with
        pool := { s.pool with pool := s.pool.pool.set rx.ptr row }
        reader := reader
        usart1Task := task }
  | .compose, .compose rx tx result => do
      let row ← (index s.pool.pool rx.ptr).toOption
      let f ← (tx.load s.pool.pool).toOption
      let f ← (usart1Message p f row result).toOption
      let (rows, tx) := tx.save s.pool.pool f
      let buf ← (tx.asRef rows).toOption
      let task ← match UsbWrite.enter buf with
        | .done _ => (nextReadTo rows rx tx).toOption
        | w => some (.write rx tx w)
      return { s with pool := { s.pool with pool := rows }, usart1Task := task }
  | .canWrite pins, .write rx tx .canWrite => do
      let task ← match UsbWrite.await pins with
        | .done _ => (nextReadTo s.pool.pool rx tx).toOption
        | w => some (.write rx tx w)
      return { s with usart1Task := task }
  | .strobe pins, .write rx tx (.writing n) => do
      let buf ← (tx.asRef s.pool.pool).toOption
      let (_, w) ← (UsbWrite.strobe buf pins n).toOption
      let task ← match w with
        | .done _ => (nextReadTo s.pool.pool rx tx).toOption
        | w => some (.write rx tx w)
      return { s with usart1Task := task }
  | _, _ => none

/-! ## The program -/

inductive Act where
  | ft240 (act : Ft240Act)
  | usart1 (act : Usart1Act)
  | usart1Rx (byte : UInt8)
  | usart1Udre
  deriving DecidableEq, Repr

def step (p : Profile) (s : State) : Act → Option State
  | .ft240 act => ft240Step p s act
  | .usart1 act => usart1Step p s act
  | .usart1Rx byte => some { s with reader := (s.reader.usart1Rx byte).2 }
  | .usart1Udre =>
      if s.uart.ucsr1b &&& udrie1 = 0 then none
      else
        let (_, uart, writer) := UsartWriter.usart1Udre s.uart s.writer
        some { s with uart := uart, writer := writer }

/-- UCSR1B as `init` leaves it: RXCIE1, RXEN1 and TXEN1. -/
def initUcsr1b : BitVec 8 := 0b10011000#8

/-- The first polls find both tasks at their beginnings. -/
def start : State where
  pool := .new numBuffers bufferSize
  reader := .new
  uart := ⟨initUcsr1b, []⟩
  writer := .new
  ft240Task := .requestRx
  usart1Task := .greet (UsbWrite.enter uartGreeting)
  log := []

end AvrBridge.Firmware
