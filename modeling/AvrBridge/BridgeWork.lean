import AvrBridge.BridgeSteps
import AvrBridge.FirmwareFlow

/-! The work of the tasks is paid for. A potential counts the steps that are left to the two tasks
before they give way: each step of theirs lowers it, and only a poll of the `Join`, an answer of
the chip to a poll of RXF and a byte from the UART raise it. -/

namespace AvrBridge.Firmware

open Rust Tasks
open Bridge (ft240Polls usart1Polls)

variable {p : Profile} {s t : State}

/-! ## The steps left -/

/-- The steps of `ft240_reader_task` up to its next place to give way, that of a read counted as
one that finds RXF high. -/
def Ft240Task.left : Ft240Task → Nat
  | .requestRx => 7
  | .requestTx _ => 6
  | .greet _ _ .canWrite => 5
  | .greet _ _ _ => 4
  | .delay _ _ => 3
  | .read _ _ .take => 5
  | .read _ _ _ => 1
  | .compose _ _ _ _ => 4
  | .write _ _ _ _ .canWrite => 3
  | .write _ _ _ _ _ => 2

def UsbWrite.left : UsbWrite → Nat
  | .canWrite => bufferSize + 1
  | .writing n => bufferSize - n
  | .done _ => 0

def Usart1Task.left : Usart1Task → Nat
  | .greet w => UsbWrite.left w + 5
  | .requestRx => 4
  | .requestTx _ => 3
  | .read _ _ (.canRead _) => 2
  | .read _ _ _ => 1
  | .compose _ _ _ => bufferSize + 4
  | .write _ _ w => UsbWrite.left w + 2

/-- A byte of the ring may end a frame, which is answered byte by byte. -/
def perByte : Nat := bufferSize + 4

def State.usart1Left (s : State) : Nat := perByte * s.reader.buffer.len + s.usart1Task.left

theorem Ft240Task.left_pos (task : Ft240Task) : 1 ≤ task.left := by
  unfold Ft240Task.left
  split <;> decide

theorem Ft240Task.left_le (task : Ft240Task) : task.left ≤ 7 := by
  unfold Ft240Task.left
  split <;> decide

theorem UsbWrite.left_le (w : UsbWrite) : UsbWrite.left w ≤ bufferSize + 1 := by
  unfold UsbWrite.left
  split <;> omega

theorem Usart1Task.left_le (task : Usart1Task) : task.left ≤ bufferSize + 6 := by
  unfold Usart1Task.left
  split
  case h_1 w | h_7 w =>
    have hle := UsbWrite.left_le w
    omega
  all_goals omega

/-! ## Steps of `ft240_reader_task` -/

/-- At the top of the loop there is a row to read into. -/
theorem left_nextRead {rows : List (List UInt8)} {rx : Storage} {tx : TxBuffer}
    {task : Ft240Task} (h : nextRead rows rx tx = .ok task)
    (hrows : ∀ i ∈ task.slots, ∃ row, rows[i]? = some row ∧ row.length = bufferSize) :
    task.left = 1 := by
  have hslot : rx.ptr ∈ task.slots := by
    obtain ⟨row, -, h⟩ := bind_eq_ok.mp h
    cases hread : UsbRead.enter row with
    | canRead | take | done _ =>
      rw [hread] at h
      cases h
      exact List.mem_cons_self ..
  obtain ⟨row, hrow, hlen⟩ := hrows _ hslot
  rw [nextRead_eq hrow hlen] at h
  cases h
  rfl

/-- **Each step** of the task leaves less to do, but a poll that answers Pending and the one of
RXF. -/
theorem ft240Step_left {act : Ft240Act} (hinv : Inv s) (hs : ft240Step p s act = some t)
    (hact : ∀ pins, act ≠ .canRead pins) :
    t.ft240Task.left < s.ft240Task.left ∨
      (ft240Polls act = true ∧ t.ft240Task = s.ft240Task) := by
  have hrows : ∀ i ∈ t.ft240Task.slots,
      ∃ row, t.pool.pool[i]? = some row ∧ row.length = bufferSize :=
    fun i hi => ((inv_ft240 hinv hs).own hi).2
  unfold ft240Step at hs
  split at hs
  case h_1 htask =>
    obtain ⟨⟨storage, pool⟩, -, hs⟩ := Option.bind_eq_some_iff.mp hs
    cases hs
    rw [htask]
    cases storage with
    | none => exact .inr ⟨rfl, rfl⟩
    | some rx => exact .inl (by simp [Ft240Task.left])
  case h_2 htask =>
    obtain ⟨⟨storage, pool⟩, -, hs⟩ := Option.bind_eq_some_iff.mp hs
    cases hs
    rw [htask]
    cases storage with
    | none => exact .inr ⟨rfl, rfl⟩
    | some tx =>
      have henter : UartWrite.enter usbGreeting = .canWrite := rfl
      exact .inl (by simp [Ft240Task.left, henter])
  case h_3 waker rx tx htask =>
    generalize UartWrite.await s.uart s.writer waker = out at hs
    obtain ⟨w, uart, writer⟩ := out
    cases hs
    rw [htask]
    cases w with
    | canWrite => exact .inr ⟨rfl, rfl⟩
    | send => exact .inl (by simp [Ft240Task.left])
    | done _ => exact .inl (by simp [Ft240Task.left])
  case h_4 htask =>
    cases hs
    rw [htask]
    exact .inl (by simp [Ft240Task.left])
  case h_5 htask =>
    obtain ⟨task, hnext, hs⟩ := Option.bind_eq_some_iff.mp hs
    cases hs
    rw [htask, left_nextRead (toOption_eq_some.mp hnext) hrows]
    exact .inl (by simp [Ft240Task.left])
  case h_6 => exact absurd rfl (hact _)
  case h_7 htask =>
    obtain ⟨row, -, hs⟩ := Option.bind_eq_some_iff.mp hs
    obtain ⟨⟨row', taken, result⟩, -, hs⟩ := Option.bind_eq_some_iff.mp hs
    cases hs
    rw [htask]
    exact .inl (by simp [Ft240Task.left])
  case h_8 htask =>
    obtain ⟨row, -, hs⟩ := Option.bind_eq_some_iff.mp hs
    obtain ⟨f, -, hs⟩ := Option.bind_eq_some_iff.mp hs
    obtain ⟨f', -, hs⟩ := Option.bind_eq_some_iff.mp hs
    obtain ⟨buf, -, hs⟩ := Option.bind_eq_some_iff.mp hs
    dsimp only at hs
    rw [htask]
    split at hs
    · obtain ⟨task, hnext, hs⟩ := Option.bind_eq_some_iff.mp hs
      cases hs
      rw [left_nextRead (toOption_eq_some.mp hnext) hrows]
      exact .inl (by simp [Ft240Task.left])
    · cases hs
      refine .inl ?_
      unfold UartWrite.enter
      split <;> simp [Ft240Task.left]
  case h_9 waker rx tx taken result htask =>
    generalize UartWrite.await s.uart s.writer waker = out at hs
    obtain ⟨w, uart, writer⟩ := out
    rw [htask]
    cases w with
    | canWrite =>
      cases hs
      exact .inr ⟨rfl, rfl⟩
    | send =>
      cases hs
      exact .inl (by simp [Ft240Task.left])
    | done _ =>
      obtain ⟨task, hnext, hs⟩ := Option.bind_eq_some_iff.mp hs
      cases hs
      rw [left_nextRead (toOption_eq_some.mp hnext) hrows]
      exact .inl (by simp [Ft240Task.left])
  case h_10 htask =>
    obtain ⟨buf, -, hs⟩ := Option.bind_eq_some_iff.mp hs
    obtain ⟨task, hnext, hs⟩ := Option.bind_eq_some_iff.mp hs
    cases hs
    rw [htask, left_nextRead (toOption_eq_some.mp hnext) hrows]
    exact .inl (by simp [Ft240Task.left])
  case h_11 => cases hs

/-- Behind the delay the task is at the top of its loop. -/
theorem delayed_left (hinv : Inv s) (hs : ft240Step p s .delayed = some t) :
    t.ft240Task.left = 1 := by
  have hrows : ∀ i ∈ t.ft240Task.slots,
      ∃ row, t.pool.pool[i]? = some row ∧ row.length = bufferSize :=
    fun i hi => ((inv_ft240 hinv hs).own hi).2
  have hwaits := ft240Step_awaits hs
  cases ht : s.ft240Task with
  | delay rx tx =>
    unfold ft240Step at hs
    simp only [ht] at hs
    obtain ⟨task, hnext, hs⟩ := Option.bind_eq_some_iff.mp hs
    cases hs
    exact left_nextRead (toOption_eq_some.mp hnext) hrows
  | requestRx | requestTx _ | greet _ _ _ | read _ _ _ | compose _ _ _ _ | write _ _ _ _ _ =>
    rw [ht] at hwaits
    cases hwaits

/-- A poll of RXF that answers. -/
theorem canRead_left {pins : Levels} (hs : ft240Step p s (.canRead pins) = some t) :
    s.ft240Task.left = 1 ∧ t.ft240Task.left ≤ 5 := by
  have hwaits := ft240Step_awaits hs
  cases ht : s.ft240Task with
  | read rx tx r =>
    cases r with
    | canRead =>
      unfold ft240Step at hs
      simp only [ht] at hs
      cases hs
      refine ⟨rfl, ?_⟩
      cases UsbRead.await pins with
      | canRead | take | done _ => simp [Ft240Task.left]
    | take | done _ =>
      rw [ht] at hwaits
      cases hwaits
  | requestRx | requestTx _ | greet _ _ _ | delay _ _ | compose _ _ _ _ | write _ _ _ _ _ =>
    rw [ht] at hwaits
    cases hwaits

/-! ## Steps of `usart1_reader_task` -/

theorem left_nextReadTo {rows : List (List UInt8)} {rx : Storage} {tx : TxBuffer}
    {task : Usart1Task} {r : UsartReader} {a : Account}
    (h : nextReadTo rows rx tx = .ok task) (hat : task.At rows r a) : task.left ≤ 2 := by
  obtain ⟨row, hrow, hrest⟩ := bind_eq_ok.mp h
  obtain ⟨call, -, hrest⟩ := bind_eq_ok.mp hrest
  cases call with
  | canRead total =>
    cases hrest
    exact Nat.le_refl _
  | take total =>
    cases hrest
    exact Nat.le_succ _
  | done result =>
    -- that row would be empty
    cases hrest
    obtain ⟨-, -, -, past, frame, row', -, -, hrow', hlen, -⟩ := hat
    have hwhole : Whole rows rx.ptr := ⟨row', hrow', hlen⟩
    rw [nextReadTo_eq hwhole] at h
    cases h

/-- The byte to be strobed is one of the message. -/
theorem At.left_writing {rows : List (List UInt8)} {rx : Storage} {tx : TxBuffer} {n : Nat}
    {r : UsartReader} {a : Account} (hat : (Usart1Task.write rx tx (.writing n)).At rows r a) :
    n < bufferSize := by
  obtain ⟨-, -, past, frame, k, row, -, ⟨rfl, hlt⟩, -, hfilled⟩ := hat
  have hle := hfilled.length_le
  omega

/-- One more byte strobed. -/
theorem left_strobe {buf : List UInt8} {pins : Levels} {n : Nat} {byte : UInt8} {w : UsbWrite}
    (h : UsbWrite.strobe buf pins n = .ok (byte, w)) (hn : n < bufferSize) :
    UsbWrite.left w < UsbWrite.left (.writing n) := by
  obtain ⟨byte', -, h⟩ := bind_eq_ok.mp h
  cases h
  split
  · show 0 < bufferSize - n
    omega
  · show bufferSize - (n + 1) < bufferSize - n
    omega

/-- A critical section takes a byte at least. -/
theorem take_left {a : Account} (hacc : Accounts s a)
    (hs : usart1Step p s .take = some t) :
    t.reader.buffer.len < s.reader.buffer.len ∧ t.usart1Task.left ≤ bufferSize + 4 ∧
      1 ≤ s.usart1Task.left := by
  have hwaits := usart1Step_awaits hs
  have hat := hacc.task
  cases ht : s.usart1Task with
  | read rx tx call =>
    rw [ht] at hat
    cases call with
    | take total =>
      obtain ⟨-, -, ⟨row, hrow, hlen, htake⟩, hcall⟩ := hat
      obtain ⟨rfl, hne⟩ : total = a.part.length ∧ s.reader.buffer.queue ≠ [] := by
        simpa using hcall
      obtain ⟨k, future, r', row', hserve, hstores, hfuture⟩ :=
        serve_stores hacc.ring hne hlen hacc.part htake
      unfold usart1Step at hs
      simp only [ht, index_ok hrow, Except.toOption, Option.bind_eq_bind, Option.bind_some,
        hserve] at hs
      cases hs
      refine ⟨?_, ?_, Nat.le_refl _⟩
      · have hlong := List.length_pos_iff.mpr hne
        have hpos := hstores.pos
        show r'.buffer.len < s.reader.buffer.len
        rw [← hstores.wf.length_queue, ← hacc.ring.length_queue, hstores.queue, List.length_drop]
        omega
      · rcases hfuture with ⟨rfl, -⟩ | ⟨rfl, -⟩
        · simp [Usart1Task.left]
        · simp [Usart1Task.left]
    | canRead _ | done _ =>
      rw [ht] at hwaits
      cases hwaits
  | greet _ | requestRx | requestTx _ | compose _ _ _ | write _ _ _ =>
    rw [ht] at hwaits
    cases hwaits

/-- The other steps of the task. -/
theorem usart1Step_task {act : Usart1Act} {a b : Account} (hacc : Accounts s a)
    (haccs : Accounts t b) (hs : usart1Step p s act = some t) (hact : act ≠ .take) :
    t.usart1Task.left < s.usart1Task.left ∨
      (usart1Polls act = true ∧ t.usart1Task = s.usart1Task) := by
  have hat := hacc.task
  have hats := haccs.task
  unfold usart1Step at hs
  split at hs
  case h_1 pins htask =>
    cases hs
    rw [htask]
    cases UsbWrite.await pins with
    | canWrite => exact .inr ⟨rfl, rfl⟩
    | writing n =>
      left
      show bufferSize - n + 5 < bufferSize + 1 + 5
      omega
    | done _ => exact .inl (by simp [Usart1Task.left])
  case h_2 pins n htask =>
    obtain ⟨⟨byte, w⟩, hstrobe, hs⟩ := Option.bind_eq_some_iff.mp hs
    cases hs
    rw [htask] at hat ⊢
    obtain ⟨-, -, k, ⟨rfl, hlt⟩, -⟩ := hat
    have hgreeting : uartGreeting.length < bufferSize := by decide
    have hleft := left_strobe (toOption_eq_some.mp hstrobe) (by omega)
    left
    cases w with
    | canWrite | writing k => exact Nat.add_lt_add_right hleft 5
    | done _ =>
      show 4 < UsbWrite.left (.writing n) + 5
      omega
  case h_3 htask =>
    obtain ⟨⟨storage, pool⟩, -, hs⟩ := Option.bind_eq_some_iff.mp hs
    cases hs
    rw [htask]
    cases storage with
    | none => exact .inr ⟨rfl, rfl⟩
    | some rx => exact .inl (by simp [Usart1Task.left])
  case h_4 htask =>
    obtain ⟨⟨storage, pool⟩, -, hs⟩ := Option.bind_eq_some_iff.mp hs
    cases storage with
    | none =>
      cases hs
      exact .inr ⟨rfl, htask.symm⟩
    | some tx =>
      obtain ⟨task, hnext, hs⟩ := Option.bind_eq_some_iff.mp hs
      cases hs
      rw [htask]
      exact .inl (Nat.lt_succ_of_le (left_nextReadTo (toOption_eq_some.mp hnext) hats))
  case h_5 w rx tx total htask =>
    by_cases hlen : s.reader.buffer.len > 0
    · simp only [UartReadTo.await, UsartReader.canRead, if_pos hlen] at hs
      cases hs
      rw [htask]
      exact .inl (by simp [Usart1Task.left])
    · simp only [UartReadTo.await, UsartReader.canRead, if_neg hlen] at hs
      cases hs
      exact .inr ⟨rfl, htask.symm⟩
  case h_6 => exact absurd rfl hact
  case h_7 htask =>
    obtain ⟨row, -, hs⟩ := Option.bind_eq_some_iff.mp hs
    obtain ⟨f, -, hs⟩ := Option.bind_eq_some_iff.mp hs
    obtain ⟨f', -, hs⟩ := Option.bind_eq_some_iff.mp hs
    obtain ⟨buf, -, hs⟩ := Option.bind_eq_some_iff.mp hs
    dsimp only at hs
    rw [htask]
    left
    split at hs
    · obtain ⟨task, hnext, hs⟩ := Option.bind_eq_some_iff.mp hs
      cases hs
      have hleft := left_nextReadTo (toOption_eq_some.mp hnext) hats
      show task.left < bufferSize + 4
      omega
    · cases hs
      have hleft := UsbWrite.left_le (UsbWrite.enter buf)
      show UsbWrite.left (UsbWrite.enter buf) + 2 < bufferSize + 4
      omega
  case h_8 pins rx tx htask =>
    dsimp only at hs
    generalize UsbWrite.await pins = w at hs
    cases w with
    | canWrite =>
      cases hs
      exact .inr ⟨rfl, htask.symm⟩
    | writing n =>
      cases hs
      rw [htask]
      left
      show bufferSize - n + 2 < bufferSize + 1 + 2
      omega
    | done _ =>
      obtain ⟨task, hnext, hs⟩ := Option.bind_eq_some_iff.mp hs
      cases hs
      have hleft := left_nextReadTo (toOption_eq_some.mp hnext) hats
      rw [htask]
      left
      show task.left < bufferSize + 1 + 2
      omega
  case h_9 pins rx tx n htask =>
    obtain ⟨buf, -, hs⟩ := Option.bind_eq_some_iff.mp hs
    obtain ⟨⟨byte, w⟩, hstrobe, hs⟩ := Option.bind_eq_some_iff.mp hs
    rw [htask] at hat
    have hleft := left_strobe (toOption_eq_some.mp hstrobe) (At.left_writing hat)
    rw [htask]
    left
    cases w with
    | canWrite | writing k =>
      cases hs
      exact Nat.add_lt_add_right hleft 2
    | done _ =>
      obtain ⟨task, hnext, hs⟩ := Option.bind_eq_some_iff.mp hs
      cases hs
      have hnext := left_nextReadTo (toOption_eq_some.mp hnext) hats
      show task.left < UsbWrite.left (.writing n) + 2
      omega
  case h_10 => cases hs

theorem usart1Rx_len (r : UsartReader) (byte : UInt8) :
    (r.usart1Rx byte).2.buffer.len ≤ r.buffer.len + 1 := by
  show (r.buffer.writeByte byte).2.len ≤ r.buffer.len + 1
  unfold ConstCircularBuffer.writeByte
  split
  · exact Nat.le_succ _
  · exact Nat.le_refl _

/-- **Each step** of `usart1_reader_task` leaves less to do, but a poll that answers Pending. -/
theorem usart1Step_left {act : Usart1Act} {a : Account} (hinv : Inv s) (hacc : Accounts s a)
    (hs : usart1Step p s act = some t) :
    t.usart1Left < s.usart1Left ∨
      (usart1Polls act = true ∧ t.usart1Task = s.usart1Task ∧ t.usart1Left = s.usart1Left) := by
  have hstep : step p s (.usart1 act) = some t := hs
  obtain ⟨b, hcarries⟩ := step_carries hinv hacc hstep
  by_cases htake : act = .take
  · subst htake
    obtain ⟨hlen, hleft, hpos⟩ := take_left hacc hs
    left
    have hbyte : perByte = bufferSize + 4 := rfl
    have hmul : perByte * (t.reader.buffer.len + 1) ≤ perByte * s.reader.buffer.len :=
      Nat.mul_le_mul_left _ hlen
    rw [Nat.mul_succ] at hmul
    unfold State.usart1Left
    omega
  · have hbuffer : t.reader.buffer = s.reader.buffer := by
      rcases usart1Step_reader hs with ⟨heq, -⟩ | ⟨-, hbuffer, -⟩
      · exact absurd heq htake
      · exact hbuffer
    unfold State.usart1Left
    rw [hbuffer]
    rcases usart1Step_task hacc hcarries.accounts hs htake with hlt | ⟨hpolls, hsame⟩
    · exact .inl (Nat.add_lt_add_left hlt _)
    · rw [hsame]
      exact .inr ⟨hpolls, rfl, rfl⟩

end AvrBridge.Firmware

namespace AvrBridge.Bridge

open Rust Lts Ft240x Firmware

variable {p : Profile} {autoClear rxfLow txeLow : Bool}

/-! ## The potential -/

/-- The steps `ft240_reader_task` has left in its turn. -/
def Env.ft240Left (e : Env) : Nat :=
  match e.delay with
  | .none => e.firmware.ft240Task.left
  | .polls _ => 2
  | .storing _ => 1

def Env.turnLeft (e : Env) : Nat :=
  match e.turn with
  | .ft240 => e.ft240Left + 1
  | .usart1 => 1
  | .done => 0

def Env.left (e : Env) : Nat := e.turnLeft + e.firmware.usart1Left

theorem Env.ft240Left_le (e : Env) : e.ft240Left ≤ 7 := by
  unfold Env.ft240Left
  split
  · exact Ft240Task.left_le _
  · decide
  · decide

theorem Env.turnLeft_le (e : Env) : e.turnLeft ≤ 8 := by
  have hle := e.ft240Left_le
  unfold Env.turnLeft
  split <;> omega

/-- The bytes that come with an interrupt. -/
def Interrupt.bytes : Interrupt → Nat
  | .usart1Rx _ => 1
  | .usart1Udre | .timer1Compa | .line _ _ => 0

/-- What a run has come to. -/
structure Count where
  works : Nat
  polls : Nat
  answers : Nat
  bytes : Nat
  deriving DecidableEq, Repr

/-- The step `act` from `s` to `t`. A poll of RXF has answered if it leaves the task elsewhere. -/
def Count.next (n : Count) (s t : State) : Act → Count
  | .run (.work (.ft240 (.canRead _ _))) => { n with
      works := n.works + 1
      answers := if t.env.firmware.ft240Task = s.env.firmware.ft240Task then n.answers
        else n.answers + 1 }
  | .run (.work _) => { n with works := n.works + 1 }
  | .run .swap => if s.signal then { n with polls := n.polls + 1 } else n
  | .run (.interrupt i) => { n with bytes := n.bytes + i.bytes }
  | .run _ | .edge _ => n

/-- What this pays for. -/
def Count.paid (n : Count) : Nat := 8 * n.polls + 5 * n.answers + perByte * n.bytes

theorem Count.next_ft240 (n : Count) (s t : State) (w : Ft240Work) :
    (n.next s t (.run (.work (.ft240 w)))).works = n.works + 1 ∧
      n.paid ≤ (n.next s t (.run (.work (.ft240 w)))).paid := by
  cases w with
  | canRead sense falls =>
    refine ⟨rfl, ?_⟩
    simp only [Count.next, Count.paid]
    split <;> omega
  | plain _ | take _ _ | delay | readTick | storeWaker => exact ⟨rfl, Nat.le_refl _⟩

def workedStep (p : Profile) (autoClear : Bool) (x : State × Count) (act : Act) :
    Option (State × Count) := do
  let t ← step p autoClear x.1 act
  return (t, x.2.next x.1 t act)

/-- The program from `s` on, with the count. -/
def worked (p : Profile) (autoClear : Bool) (s : State) : System (State × Count) Act :=
  .ofFun (s, ⟨0, 0, 0, 0⟩) (workedStep p autoClear)

/-! ## Steps -/

section Steps

variable {e e' : Env}

theorem left_of_turn (hleft : e'.firmware.usart1Left = e.firmware.usart1Left)
    (hturn : e.turn = .ft240) (hpos : 1 ≤ e.ft240Left)
    (hnext : e'.turn = .usart1 ∨ e'.turn = .ft240 ∧ e'.ft240Left + 1 ≤ e.ft240Left) :
    e'.left + 1 ≤ e.left := by
  unfold Env.left Env.turnLeft
  rw [hturn, hleft]
  rcases hnext with hnext | ⟨hnext, hlt⟩
  · rw [hnext]
    show 1 + e.firmware.usart1Left + 1 ≤ e.ft240Left + 1 + e.firmware.usart1Left
    omega
  · rw [hnext]
    show e'.ft240Left + 1 + e.firmware.usart1Left + 1 ≤ e.ft240Left + 1 + e.firmware.usart1Left
    omega

theorem usart1Left_ft240 {act : Ft240Act} (hgoes : Ft240Goes p e act e') :
    e'.firmware.usart1Left = e.firmware.usart1Left := by
  have hspares := ft240Step_spares hgoes.step
  unfold State.usart1Left
  rw [hspares.reader, hspares.usart1Task]

/-- Without a delay, or at its end. -/
theorem ft240Left_none (h : e.delay = .none) : e.ft240Left = e.firmware.ft240Task.left := by
  unfold Env.ft240Left
  rw [h]

/-- **Each step** of the task in its turn leaves less to do, but a poll of RXF that answers. -/
theorem left_ft240 {w : Ft240Work} (h : Sound p e) (hturn : e.turn = .ft240)
    (hmoves : Ft240Moves p autoClear e w e') :
    e'.left + 1 ≤ e.left ∨ (e'.left + 1 ≤ e.left + 5 ∧ (∃ sense falls, w = .canRead sense falls) ∧
      e'.firmware.ft240Task ≠ e.firmware.ft240Task) := by
  have hinv := inv_reachable h.firmware
  have hpos := e.firmware.ft240Task.left_pos
  cases hmoves with
  | goes act hgoes hact hw husb hdelay =>
    left
    have hsteps := ft240Step_left hinv hgoes.step hact
    rcases hdelay with ⟨rfl, hnone, timer, hpolls, -⟩ | ⟨hne, hsame⟩
    · -- the delay is over
      have hleft : e.ft240Left = 2 := by
        unfold Env.ft240Left
        rw [hpolls]
      refine left_of_turn (usart1Left_ft240 hgoes) hturn (by omega) (.inr ⟨?_, ?_⟩)
      · rcases hgoes.turn with hsame | ⟨-, hfalse, -⟩
        · exact hsame
        · cases hfalse
      · have hone := delayed_left hinv hgoes.step
        rw [ft240Left_none hnone]
        omega
    · have hnone : e.delay = .none := by
        by_contra hdelay
        exact hne (awaits_delayed (h.delay hdelay) (ft240Step_awaits hgoes.step))
      have hleft := ft240Left_none hnone
      refine left_of_turn (usart1Left_ft240 hgoes) hturn (by omega) ?_
      rcases hgoes.turn with hkeeps | ⟨hnext, -, -⟩
      · refine .inr ⟨hkeeps, ?_⟩
        rw [hleft, ft240Left_none (hsame.trans hnone)]
        rcases hsteps with hlt | ⟨hpolls, htask⟩
        · exact hlt
        · exact absurd htask (hgoes.moves hpolls hkeeps)
      · exact .inl hnext
  | polls sense falls hgoes husb hdelay =>
    obtain ⟨hone, hle⟩ := canRead_left hgoes.step
    have hnone : e.delay = .none := by
      by_contra hdelay'
      cases awaits_delayed (h.delay hdelay') (ft240Step_awaits hgoes.step)
    have hleft := ft240Left_none hnone
    have hleft' := ft240Left_none (hdelay.trans hnone)
    rcases hgoes.turn with hkeeps | ⟨hnext, -, -⟩
    · refine .inr ⟨?_, ⟨sense, falls, rfl⟩, hgoes.moves rfl hkeeps⟩
      unfold Env.left Env.turnLeft
      rw [hturn, hkeeps, usart1Left_ft240 hgoes]
      show e'.ft240Left + 1 + e.firmware.usart1Left + 1 ≤
        e.ft240Left + 1 + e.firmware.usart1Left + 5
      omega
    · exact .inl (left_of_turn (usart1Left_ft240 hgoes) hturn (by omega) (.inl hnext))
  | makesDelay htask hdelay =>
    have hthree : e.ft240Left = 3 := by
      rw [ft240Left_none hdelay]
      cases hread : e.firmware.ft240Task with
      | delay rx tx => rfl
      | requestRx | requestTx _ | greet _ _ _ | read _ _ _ | compose _ _ _ _ | write _ _ _ _ _ =>
        rw [hread] at htask
        cases htask
    refine .inl (left_of_turn rfl hturn (by omega) (.inr ⟨hturn, ?_⟩))
    rw [hthree]
    exact Nat.le_refl _
  | readsTick timer hdelay =>
    have htwo : e.ft240Left = 2 := by
      unfold Env.ft240Left
      rw [hdelay]
    refine .inl (left_of_turn rfl hturn (by omega) (.inr ⟨hturn, ?_⟩))
    rw [htwo]
    exact Nat.le_refl _
  | storesWaker timer hdelay =>
    have hone : e.ft240Left = 1 := by
      unfold Env.ft240Left
      rw [hdelay]
    exact .inl (left_of_turn rfl hturn (by omega) (.inl rfl))

theorem left_usart1 {w : Usart1Work} (h : Sound p e) (hturn : e.turn = .usart1)
    (hmoves : Usart1Moves p autoClear e w e') : e'.left + 1 ≤ e.left := by
  obtain ⟨act, hgoes⟩ : ∃ act, Usart1Goes p e act e' := by
    cases hmoves with
    | goes act hgoes hact husb => exact ⟨act, hgoes⟩
    | polls sense falls hgoes husb => exact ⟨_, hgoes⟩
  obtain ⟨a, hacc⟩ := accounts_of_reachable h.firmware
  have hleft := usart1Step_left (inv_reachable h.firmware) hacc hgoes.step
  unfold Env.left Env.turnLeft
  rw [hturn]
  rcases hgoes.turn with hsame | ⟨hnext, -, -⟩
  · rw [hsame]
    rcases hleft with hlt | ⟨hpolls, htask, -⟩
    · exact Nat.add_le_add_left hlt 1
    · exact absurd htask (hgoes.moves hpolls hsame)
  · rw [hnext]
    rcases hleft with hlt | ⟨-, -, heq⟩
    · show 0 + e'.firmware.usart1Left + 1 ≤ 1 + e.firmware.usart1Left
      omega
    · show 0 + e'.firmware.usart1Left + 1 ≤ 1 + e.firmware.usart1Left
      omega

theorem left_interrupt {i : Interrupt} {wakes : Bool}
    (hs : interrupt p autoClear e i = some (wakes, e')) :
    e'.left ≤ e.left + perByte * i.bytes := by
  cases i with
  | usart1Rx byte =>
    cases hs
    have hlen := usart1Rx_len e.firmware.reader byte
    have hmul := Nat.mul_le_mul_left perByte hlen
    rw [Nat.mul_add] at hmul
    show e.turnLeft + (perByte * (e.firmware.reader.usart1Rx byte).2.buffer.len +
      e.firmware.usart1Task.left) ≤ e.turnLeft + (perByte * e.firmware.reader.buffer.len +
      e.firmware.usart1Task.left) + perByte * 1
    omega
  | usart1Udre =>
    obtain ⟨t, ht, hs⟩ := Option.bind_eq_some_iff.mp hs
    cases hs
    simp only [Firmware.step] at ht
    split at ht
    · cases ht
    · cases ht
      exact Nat.le_add_right _ _
  | timer1Compa =>
    simp only [interrupt] at hs
    split at hs
    · cases hs
      exact Nat.le_add_right _ _
    · cases hs
      exact Nat.le_add_right _ _
  | line line falls =>
    obtain ⟨usb, -, hs⟩ := Option.bind_eq_some_iff.mp hs
    cases hs
    exact Nat.le_add_right _ _

/-- Into a poll of the `Join`. -/
theorem left_enter (p : Profile) (autoClear : Bool) (e : Env) :
    ((program p autoClear).enter e).left ≤ e.left + 8 := by
  have hle := Env.turnLeft_le { e with turn := .ft240 }
  show Env.turnLeft { e with turn := .ft240 } + e.firmware.usart1Left ≤
    e.turnLeft + e.firmware.usart1Left + 8
  omega

end Steps

/-- **Step lemma.** Every step of a task is paid for. -/
theorem left_step {s t : State} {a : Act} (h : Sound p s.env) (hs : step p autoClear s a = some t)
    (n : Count) :
    (n.next s t a).works + t.env.left + n.paid ≤
      n.works + s.env.left + (n.next s t a).paid := by
  have hbyte : perByte = 132 := rfl
  cases a with
  | run act =>
    obtain ⟨rfl, -, ⟨hsignal, rfl⟩ | ⟨hsignal, rfl⟩⟩ | ⟨w, wakes, env, rfl, -, hw, rfl⟩ |
      ⟨answer, pc, rfl, -, -, -, rfl⟩ | ⟨rfl, -, rfl⟩ | ⟨i, wakes, env, rfl, hint, rfl⟩ :=
      Executor.step_cases (run_step hs).2
    · have hle := left_enter p autoClear s.env
      simp only [Count.next, hsignal, if_true, Count.paid]
      omega
    · simp only [Count.next, hsignal, Bool.false_eq_true, if_false]
      omega
    · obtain ⟨w', rfl, hturn, hmoves⟩ | ⟨w', rfl, hturn, hmoves⟩ := work_cases h.main hw
      · rcases left_ft240 h hturn hmoves with hlt | ⟨hle, ⟨sense, falls, rfl⟩, hne⟩
        · obtain ⟨hworks, hpaid⟩ := n.next_ft240 s ⟨.polling, s.signal || wakes, env⟩ w'
          rw [hworks]
          show n.works + 1 + env.left + n.paid ≤ _
          omega
        · simp only [Count.next, if_neg hne, Count.paid]
          omega
      · have hle := left_usart1 h hturn hmoves
        simp only [Count.next, Count.paid]
        omega
    · exact Nat.le_refl _
    · exact Nat.le_refl _
    · have hle := left_interrupt hint
      simp only [Count.next, Count.paid, Nat.mul_add]
      omega
  | edge edge =>
    obtain ⟨usb, -, hs⟩ := Option.bind_eq_some_iff.mp hs
    cases hs
    exact Nat.le_refl _

/-- No state has more than this left. -/
theorem left_le {e : Env} (h : Sound p e) : e.left ≤ 8590 := by
  obtain ⟨a, hacc⟩ := accounts_of_reachable h.firmware
  have hring : e.firmware.reader.buffer.len ≤ bufferCapacity := hacc.ring.len_le
  have hmul := Nat.mul_le_mul_left perByte hring
  have hturn := e.turnLeft_le
  have htask := e.firmware.usart1Task.left_le
  have hfull : perByte * bufferCapacity = 8448 := rfl
  have hcap : bufferSize = 128 := rfl
  show e.turnLeft + (perByte * e.firmware.reader.buffer.len + e.firmware.usart1Task.left) ≤ 8590
  omega

/-- **The work is paid for.** From any state the program reaches, and however it goes on, the steps
that the two tasks make are at most those the state has left, and eight more for each poll of the
`Join`, five for each poll of RXF that answers and 132 for each byte from the UART. -/
theorem work_is_paid (p : Profile) (autoClear rxfLow txeLow : Bool) (s : State)
    (h : (system p autoClear rxfLow txeLow).Reachable s) (t : State) (n : Count)
    (hrun : (worked p autoClear s).Reachable (t, n)) :
    n.works + t.env.left ≤
      s.env.left + (8 * n.polls + 5 * n.answers + 132 * n.bytes) ∧ s.env.left ≤ 8590 := by
  have hsound := (sound_of_reachable h).1
  have hall : Sound p t.env ∧ n.works + t.env.left ≤ s.env.left + n.paid := by
    refine System.Reachable.invariant (I := fun x => Sound p x.1.env ∧
      x.2.works + x.1.env.left ≤ s.env.left + x.2.paid) ?_ ?_ hrun
    · rintro x rfl
      refine ⟨hsound, ?_⟩
      show 0 + s.env.left ≤ s.env.left + _
      omega
    · rintro ⟨u, m⟩ a ⟨v, k⟩ ⟨hu, hle⟩ hs
      obtain ⟨v', hv, heq⟩ := Option.bind_eq_some_iff.mp hs
      cases heq
      have hstep : (m.next u v a).works + v.env.left + m.paid ≤
        m.works + u.env.left + (m.next u v a).paid := left_step hu hv m
      have hle' : m.works + u.env.left ≤ s.env.left + m.paid := hle
      refine ⟨sound_step hu hv, ?_⟩
      show (m.next u v a).works + v.env.left ≤ s.env.left + (m.next u v a).paid
      omega
  exact ⟨hall.2, left_le hsound⟩

/-- From the start on, the first poll and the first bytes. -/
theorem work_is_paid_greetings :
    ∃ t n, (worked .release true (start false true)).Reachable (t, n) ∧ n = ⟨33, 1, 0, 0⟩ ∧
      n.works + t.env.left ≤
        (start false true).env.left + (8 * n.polls + 5 * n.answers + 132 * n.bytes) ∧
      (start false true).env.left ≤ 8590 := by
  obtain ⟨⟨t, n⟩, hrun, htest⟩ := exists_reachable_of_runFun greetings
    (fun x => x.2 == (⟨33, 1, 0, 0⟩ : Count))
    (show (worked .release true (start false true)).Reachable (start false true, ⟨0, 0, 0, 0⟩) from
      .init rfl) (by decide +kernel)
  exact ⟨t, n, hrun, beq_iff_eq.mp htest,
    work_is_paid .release true false true (start false true) (.init rfl) t n hrun⟩

end AvrBridge.Bridge
