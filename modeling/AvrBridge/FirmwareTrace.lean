import AvrBridge.FirmwareInvariant
import AvrBridge.Framing
import AvrBridge.UartToUsb
import AvrBridge.Usart1Overrun

/-! The way from the UART to USB, as it can be seen from outside: the bytes that come and those
that `USART1_RX` stores, the answers of `read_to` with the bytes they cover, and the bytes
strobed into the FT240. The trace is kept beside the state and decides no step. -/

namespace AvrBridge.Firmware

open Rust Lts Tasks Framing

inductive Event where
  | frame (bytes : List UInt8) (result : Except ReadError ReadStatus)
  | strobe (byte : UInt8)
  deriving DecidableEq, Repr

/-- `sinceHigh` counts the bytes that came since CTS went high. -/
structure Trace where
  received : List UInt8
  sinceHigh : Nat
  accepted : List UInt8
  events : List Event
  deriving DecidableEq, Repr

def Trace.empty : Trace := ⟨[], 0, [], []⟩

def comes : Act → List UInt8
  | .usart1Rx byte => [byte]
  | _ => []

/-- The byte that `USART1_RX` stores: none while the ring is full. -/
def accepts (s : State) : Act → List UInt8
  | .usart1Rx byte => if s.reader.buffer.isFull then [] else [byte]
  | _ => []

/-- The byte of one pass of the loop in `write`. -/
def passByte : Except Panic (UInt8 × UsbWrite) → List UInt8
  | .ok (byte, _) => [byte]
  | .error _ => []

def strobes (s : State) : Act → List UInt8
  | .usart1 (.strobe pins) =>
      match s.usart1Task with
      | .greet (.writing n) => passByte (UsbWrite.strobe uartGreeting pins n)
      | .write _ tx (.writing n) => passByte do
          let buf ← tx.asRef s.pool.pool
          UsbWrite.strobe buf pins n
      | _ => []
  | _ => []

/-- What an answer of `read_to` covers of the buffer: the bytes it counts, or all of it. -/
def covered (row : List UInt8) : Except ReadError ReadStatus → List UInt8
  | .ok status => row.take status.count
  | .error _ => row

/-- The answer that a step of the task has brought. -/
def answers (t : State) : Act → List Event
  | .usart1 _ =>
      match t.usart1Task with
      | .compose rx _ result => [.frame (covered (t.pool.pool.getD rx.ptr []) result) result]
      | _ => []
  | _ => []

def countSince (n : Nat) (s : State) (act : Act) (t : State) : Nat :=
  match act with
  | .usart1Rx _ => if s.reader.cts && t.reader.cts then n + 1 else 0
  | .usart1 .take => if t.reader.cts then n else 0
  | _ => n

/-- The trace after the step `act` from `s` to `t`. -/
def Trace.record (tr : Trace) (s : State) (act : Act) (t : State) : Trace where
  received := tr.received ++ comes act
  sinceHigh := countSince tr.sinceHigh s act t
  accepted := tr.accepted ++ accepts s act
  events := tr.events ++ (strobes s act).map .strobe ++ answers t act

def tracedStep (p : Profile) (x : State × Trace) (act : Act) : Option (State × Trace) := do
  let t ← step p x.1 act
  return (t, x.2.record x.1 act t)

def traced (p : Profile) : System (State × Trace) Act :=
  .ofFun (start, .empty) (tracedStep p)

variable {p : Profile} {s t : State} {tr : Trace}

/-- A step of the traced program is a step of the program. -/
theorem tracedStep_eq_some {x y : State × Trace} {act : Act} :
    tracedStep p x act = some y ↔
      ∃ t, step p x.1 act = some t ∧ y = (t, x.2.record x.1 act t) := by
  unfold tracedStep
  rw [Option.bind_eq_bind, Option.bind_eq_some_iff]
  constructor
  · rintro ⟨t, hs, hy⟩
    exact ⟨t, hs, (Option.some.inj hy).symm⟩
  · rintro ⟨t, hs, rfl⟩
    exact ⟨t, hs, rfl⟩

theorem reachable_of_traced (h : (traced p).Reachable (s, tr)) : (system p).Reachable s := by
  refine System.Reachable.invariant (I := fun x => (system p).Reachable x.1) ?_ ?_ h
  · rintro x rfl
    exact .init rfl
  · intro x act y hx hy
    obtain ⟨t, ht, rfl⟩ := tracedStep_eq_some.mp hy
    exact System.ReachedWhile.step hx trivial ht

/-- Every run can be traced. -/
theorem traced_of_reachable (h : (system p).Reachable s) : ∃ tr, (traced p).Reachable (s, tr) := by
  refine System.Reachable.invariant (I := fun u => ∃ tr, (traced p).Reachable (u, tr)) ?_ ?_ h
  · rintro u rfl
    exact ⟨.empty, .init rfl⟩
  · rintro u act v ⟨tr, htr⟩ hv
    exact ⟨tr.record u act v, .step htr trivial (tracedStep_eq_some.mpr ⟨v, hv, rfl⟩)⟩

/-! ## What the steps of the other task leave alone -/

/-- The receiving task, its reader and the rows outside the slots of `ft240_reader_task`. -/
structure Spares (s t : State) : Prop where
  usart1Task : t.usart1Task = s.usart1Task
  reader : t.reader = s.reader
  rows : ∀ i ∉ s.ft240Task.slots, t.pool.pool[i]? = s.pool.pool[i]?

theorem request_pool {N C : Nat} {kind : StorageKind} {b b' : BufferPool N C} {w : Waker}
    {storage : Option Storage} (h : request p kind b w = .ok (storage, b')) :
    b'.pool = b.pool := by
  obtain ⟨⟨answer, b₁⟩, hpoll, h⟩ := bind_eq_ok.mp h
  obtain ⟨_, _, _, _, _, _, _, hpool⟩ := BufferPool.poll_inv hpoll
  cases answer with
  | pending =>
    cases h
    exact hpool
  | ready handle =>
    obtain ⟨⟨st, b₂⟩, hfrom, h⟩ := bind_eq_ok.mp h
    cases h
    obtain ⟨b₃, hdrop, hst⟩ := bind_eq_ok.mp hfrom
    cases hst
    obtain ⟨⟨result, woken, b₄⟩, hrel, hb⟩ := bind_eq_ok.mp hdrop
    cases hb
    rw [BufferPool.pool_releaseBuffer hrel, hpool]

theorem spares_of_pool_eq (htask : t.usart1Task = s.usart1Task) (hreader : t.reader = s.reader)
    (hpool : t.pool.pool = s.pool.pool) : Spares s t :=
  ⟨htask, hreader, fun _ _ => by rw [hpool]⟩

theorem spares_of_set {i : Nat} {row : List UInt8} (hi : i ∈ s.ft240Task.slots)
    (htask : t.usart1Task = s.usart1Task) (hreader : t.reader = s.reader)
    (hpool : t.pool.pool = s.pool.pool.set i row) : Spares s t := by
  refine ⟨htask, hreader, ?_⟩
  intro j hj
  rw [hpool]
  apply List.getElem?_set_ne
  rintro rfl
  exact hj hi

theorem ft240Step_spares {act : Ft240Act} (hs : ft240Step p s act = some t) : Spares s t := by
  unfold ft240Step at hs
  split at hs
  case h_1 =>
    obtain ⟨⟨storage, pool⟩, hreq, hs⟩ := Option.bind_eq_some_iff.mp hs
    cases hs
    exact spares_of_pool_eq rfl rfl (request_pool (toOption_eq_some.mp hreq))
  case h_2 =>
    obtain ⟨⟨storage, pool⟩, hreq, hs⟩ := Option.bind_eq_some_iff.mp hs
    cases hs
    exact spares_of_pool_eq rfl rfl (request_pool (toOption_eq_some.mp hreq))
  case h_3 =>
    cases hs
    exact spares_of_pool_eq rfl rfl rfl
  case h_4 =>
    cases hs
    exact spares_of_pool_eq rfl rfl rfl
  case h_5 =>
    obtain ⟨task, htask, hs⟩ := Option.bind_eq_some_iff.mp hs
    cases hs
    exact spares_of_pool_eq rfl rfl rfl
  case h_6 =>
    cases hs
    exact spares_of_pool_eq rfl rfl rfl
  case h_7 rx tx htask =>
    obtain ⟨row, hrow, hs⟩ := Option.bind_eq_some_iff.mp hs
    obtain ⟨⟨row', taken, result⟩, hserve, hs⟩ := Option.bind_eq_some_iff.mp hs
    cases hs
    refine spares_of_set (i := rx.ptr) ?_ rfl rfl rfl
    rw [htask]
    exact List.mem_cons_self ..
  case h_8 rx tx taken result htask =>
    have hmem : tx.slot ∈ s.ft240Task.slots := by
      rw [htask]
      exact List.mem_cons_of_mem _ (List.mem_cons_self ..)
    obtain ⟨row, hrow, hs⟩ := Option.bind_eq_some_iff.mp hs
    obtain ⟨f, hf, hs⟩ := Option.bind_eq_some_iff.mp hs
    obtain ⟨f', hf', hs⟩ := Option.bind_eq_some_iff.mp hs
    obtain ⟨buf, hbuf, hs⟩ := Option.bind_eq_some_iff.mp hs
    split at hs
    · obtain ⟨task, hnext, hs⟩ := Option.bind_eq_some_iff.mp hs
      cases hs
      exact spares_of_set hmem rfl rfl rfl
    · cases hs
      exact spares_of_set hmem rfl rfl rfl
  case h_9 =>
    dsimp only at hs
    split at hs
    · obtain ⟨task, hnext, hs⟩ := Option.bind_eq_some_iff.mp hs
      cases hs
      exact spares_of_pool_eq rfl rfl rfl
    · cases hs
      exact spares_of_pool_eq rfl rfl rfl
  case h_10 =>
    obtain ⟨buf, hbuf, hs⟩ := Option.bind_eq_some_iff.mp hs
    obtain ⟨task, hnext, hs⟩ := Option.bind_eq_some_iff.mp hs
    cases hs
    exact spares_of_pool_eq rfl rfl rfl
  case h_11 => cases hs

end AvrBridge.Firmware
