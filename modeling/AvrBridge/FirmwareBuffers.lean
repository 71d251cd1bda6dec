import AvrBridge.FirmwareProgress

/-! The buffers of the whole program. Each task gets two rows of the pool and keeps them; no row
has two tasks, and a step writes only into rows of its own task. So nothing that one task stores
or forwards is touched by the other or by an interrupt. -/

namespace AvrBridge.Firmware

open Rust Lts Tasks

variable {p : Profile} {s t : State}

/-- The rows a step may write. -/
def Act.slots (s : State) : Act → List Nat
  | .ft240 _ => s.ft240Task.slots
  | .usart1 _ => s.usart1Task.slots
  | .usart1Rx _ | .usart1Udre => []

/-! ## What a task holds it keeps -/

theorem slots_nextRead {rows : List (List UInt8)} {rx : Storage} {tx : TxBuffer}
    {task : Ft240Task} (h : nextRead rows rx tx = .ok task) :
    task.slots = [rx.ptr, tx.slot] := by
  obtain ⟨row, -, h⟩ := bind_eq_ok.mp h
  generalize UsbRead.enter row = r at h
  cases r with
  | canRead | take | done _ =>
    cases h
    rfl

theorem ft240Step_slots {act : Ft240Act} (hs : ft240Step p s act = some t) :
    ∃ new, t.ft240Task.slots = s.ft240Task.slots ++ new := by
  unfold ft240Step at hs
  split at hs
  case h_1 w htask =>
    obtain ⟨⟨storage, pool⟩, -, hs⟩ := Option.bind_eq_some_iff.mp hs
    cases hs
    rw [htask]
    exact ⟨_, rfl⟩
  case h_2 w rx htask =>
    obtain ⟨⟨storage, pool⟩, -, hs⟩ := Option.bind_eq_some_iff.mp hs
    cases hs
    rw [htask]
    cases storage with
    | none => exact ⟨[], rfl⟩
    | some tx => exact ⟨[tx.ptr], rfl⟩
  case h_3 waker rx tx htask =>
    generalize UartWrite.await s.uart s.writer waker = out at hs
    obtain ⟨w, uart, writer⟩ := out
    cases hs
    rw [htask]
    cases w with
    | canWrite | send | done _ => exact ⟨[], rfl⟩
  case h_4 rx tx htask =>
    cases hs
    rw [htask]
    exact ⟨[], rfl⟩
  case h_5 rx tx htask =>
    obtain ⟨task, hnext, hs⟩ := Option.bind_eq_some_iff.mp hs
    cases hs
    rw [htask]
    exact ⟨[], slots_nextRead (toOption_eq_some.mp hnext)⟩
  case h_6 pins rx tx htask =>
    cases hs
    rw [htask]
    generalize UsbRead.await pins = r
    cases r with
    | canRead | take | done _ => exact ⟨[], rfl⟩
  case h_7 rx tx htask =>
    obtain ⟨row, -, hs⟩ := Option.bind_eq_some_iff.mp hs
    obtain ⟨⟨row', taken, result⟩, -, hs⟩ := Option.bind_eq_some_iff.mp hs
    cases hs
    rw [htask]
    exact ⟨[], rfl⟩
  case h_8 rx tx taken result htask =>
    obtain ⟨row, -, hs⟩ := Option.bind_eq_some_iff.mp hs
    obtain ⟨f, -, hs⟩ := Option.bind_eq_some_iff.mp hs
    obtain ⟨f', -, hs⟩ := Option.bind_eq_some_iff.mp hs
    obtain ⟨buf, -, hs⟩ := Option.bind_eq_some_iff.mp hs
    dsimp only at hs
    rw [htask]
    split at hs
    · obtain ⟨task, hnext, hs⟩ := Option.bind_eq_some_iff.mp hs
      cases hs
      exact ⟨[], slots_nextRead (toOption_eq_some.mp hnext)⟩
    · cases hs
      exact ⟨[], rfl⟩
  case h_9 waker rx tx taken result htask =>
    generalize UartWrite.await s.uart s.writer waker = out at hs
    obtain ⟨w, uart, writer⟩ := out
    rw [htask]
    cases w with
    | canWrite | send =>
      cases hs
      exact ⟨[], rfl⟩
    | done _ =>
      obtain ⟨task, hnext, hs⟩ := Option.bind_eq_some_iff.mp hs
      cases hs
      exact ⟨[], slots_nextRead (toOption_eq_some.mp hnext)⟩
  case h_10 rx tx taken result htask =>
    obtain ⟨buf, -, hs⟩ := Option.bind_eq_some_iff.mp hs
    obtain ⟨task, hnext, hs⟩ := Option.bind_eq_some_iff.mp hs
    cases hs
    rw [htask]
    exact ⟨[], slots_nextRead (toOption_eq_some.mp hnext)⟩
  case h_11 => cases hs

/-- **What a step does to the buffers.** -/
structure StepBuffers (s : State) (act : Act) (t : State) : Prop where
  ft240 : ∃ new, t.ft240Task.slots = s.ft240Task.slots ++ new
  usart1 : ∃ new, t.usart1Task.slots = s.usart1Task.slots ++ new
  rows : ∀ i ∉ act.slots s, t.pool.pool[i]? = s.pool.pool[i]?

theorem step_buffers {act : Act} (hs : step p s act = some t) : StepBuffers s act t := by
  cases act with
  | ft240 act =>
    have hspares := ft240Step_spares hs
    refine ⟨ft240Step_slots hs, ⟨[], ?_⟩, hspares.rows⟩
    rw [hspares.usart1Task, List.append_nil]
  | usart1 act =>
    obtain ⟨hapart, hreq | ⟨hslots, rows, hpool, -, hrows⟩⟩ := usart1Step_cases hs
    · obtain ⟨kind, w, storage, hreq, hslots⟩ := hreq
      refine ⟨⟨[], ?_⟩, ⟨_, hslots⟩, ?_⟩
      · rw [hapart.ft240Task, List.append_nil]
      · intro i hi
        rw [request_pool hreq]
    · refine ⟨⟨[], ?_⟩, ⟨[], ?_⟩, ?_⟩
      · rw [hapart.ft240Task, List.append_nil]
      · rw [hslots, List.append_nil]
      · intro i hi
        rw [hpool]
        exact hrows i hi
  | usart1Rx byte =>
    cases hs
    exact ⟨⟨[], (List.append_nil _).symm⟩, ⟨[], (List.append_nil _).symm⟩, fun _ _ => rfl⟩
  | usart1Udre =>
    simp only [step] at hs
    split at hs
    · cases hs
    · cases hs
      exact ⟨⟨[], (List.append_nil _).symm⟩, ⟨[], (List.append_nil _).symm⟩, fun _ _ => rfl⟩

/-! ## Every row is whole -/

theorem Usart1Task.At.whole {rows : List (List UInt8)} {r : UsartReader} {a : Account}
    {task : Usart1Task} (h : task.At rows r a) {i : Nat} (hi : i ∈ task.slots) :
    Whole rows i := by
  cases task with
  | greet w => cases hi
  | requestRx => cases hi
  | requestTx rx =>
    cases List.mem_singleton.mp hi
    exact h.2.2
  | read rx tx call =>
    obtain ⟨-, htx, ⟨row, hrow, hlen, -⟩, -⟩ := h
    rcases List.mem_pair.mp hi with rfl | rfl
    · exact ⟨row, hrow, hlen⟩
    · exact htx
  | compose rx tx result =>
    obtain ⟨-, htx, -, past, frame, row, -, -, hrow, hlen, -⟩ := h
    rcases List.mem_pair.mp hi with rfl | rfl
    · exact ⟨row, hrow, hlen⟩
    · exact htx
  | write rx tx w =>
    obtain ⟨hrx, -, past, frame, n, row, -, -, hrow, hfilled⟩ := h
    rcases List.mem_pair.mp hi with rfl | rfl
    · exact hrx
    · exact ⟨row, hrow, hfilled.length_buf⟩

theorem whole_of_reachable (h : (system p).Reachable s) {i : Nat} (hi : i < numBuffers) :
    Whole s.pool.pool i := by
  by_cases hown : i ∈ s.usart1Task.slots
  · obtain ⟨a, hacc⟩ := accounts_of_reachable h
    exact hacc.task.whole hown
  · exact (inv_reachable h).rows i hi hown

/-- **The buffers keep apart.** In every state the rows of the two tasks are different ones, at
most two for each, and every row of the pool has its 128 bytes; and every step leaves each task
the rows it has and writes only into rows of the task that makes it. -/
theorem buffers_apart (p : Profile) (s : State) (h : (system p).Reachable s) :
    (s.ft240Task.slots ++ s.usart1Task.slots).Nodup ∧
    s.ft240Task.slots.length ≤ 2 ∧ s.usart1Task.slots.length ≤ 2 ∧
    (∀ i < numBuffers, ∃ row, s.pool.pool[i]? = some row ∧ row.length = bufferSize) ∧
    ∀ act t, step p s act = some t → StepBuffers s act t := by
  refine ⟨(inv_reachable h).nodup, s.ft240Task.length_slots_le,
    s.usart1Task.length_slots_le, ?_, ?_⟩
  · intro i hi
    exact whole_of_reachable h hi
  · intro act t hs
    exact step_buffers hs

/-- The tasks take their rows in turns. -/
def inTurns : List Act :=
  [.ft240 (.request 0), .usart1 (.canWrite ⟨false, true, true⟩), .usart1 (.request 0),
    .ft240 (.request 0), .usart1 (.request 0)]

theorem buffers_apart_inTurns :
    ∃ s, (system .dev).Reachable s ∧ s.ft240Task.slots = [0, 2] ∧ s.usart1Task.slots = [1, 3] ∧
      (s.ft240Task.slots ++ s.usart1Task.slots).Nodup ∧
      s.ft240Task.slots.length ≤ 2 ∧ s.usart1Task.slots.length ≤ 2 ∧
      (∀ i < numBuffers, ∃ row, s.pool.pool[i]? = some row ∧ row.length = bufferSize) ∧
      ∀ act t, step .dev s act = some t → StepBuffers s act t := by
  obtain ⟨s, hs, htest⟩ := exists_reachable_of_runFun inTurns
    (fun s => s.ft240Task.slots == [0, 2] && s.usart1Task.slots == [1, 3])
    (show (system .dev).Reachable start from .init rfl) (by decide +kernel)
  rw [Bool.and_eq_true, beq_iff_eq, beq_iff_eq] at htest
  exact ⟨s, hs, htest.1, htest.2, buffers_apart .dev s hs⟩

end AvrBridge.Firmware
