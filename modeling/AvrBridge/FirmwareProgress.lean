import AvrBridge.FirmwareFrames

/-! The tasks go on. Wherever they stand they wait for a step, and the step they wait for
ends neither in a panic nor in a place without a way out: no index and no slice is out of range,
no `unwrap` fails and no counter of theirs overflows, under either profile. What does overflow
under one of them is the tick of `timer.rs`, and the panic of its routine stops them both. -/

namespace AvrBridge.UsbRead

variable {places : List UInt8} {strobes : List Strobe}

/-- A walk over this many places makes these strobes: it ends behind one that finds SENSE low or
RXF high, or at the last place. -/
def Makes : Nat → List Strobe → Prop
  | 0, strobes => strobes = []
  | _ + 1, [] => False
  | room + 1, strobe :: strobes =>
      if strobe.sense && !strobe.rxf then Makes room strobes else strobes = []

/-- Each of them takes its byte. -/
theorem exists_walk (n : Nat) (h : Makes places.length strobes) :
    ∃ places' taken result, walk n places strobes = some (places', taken, result) ∧
      taken.length = strobes.length := by
  induction places generalizing n strobes with
  | nil =>
    obtain rfl : strobes = [] := h
    exact ⟨_, _, _, rfl, rfl⟩
  | cons place places ih =>
    cases strobes with
    | nil => cases h
    | cons strobe strobes =>
      change if strobe.sense && !strobe.rxf then Makes places.length strobes else strobes = [] at h
      simp only [walk]
      cases hsense : strobe.sense with
      | false =>
        rw [hsense] at h
        obtain rfl : strobes = [] := h
        exact ⟨_, _, _, rfl, rfl⟩
      | true =>
        cases hrxf : strobe.rxf with
        | true =>
          rw [hsense, hrxf] at h
          obtain rfl : strobes = [] := h
          exact ⟨_, _, _, rfl, rfl⟩
        | false =>
          rw [hsense, hrxf] at h
          obtain ⟨places', taken, result, hwalk, hlen⟩ := ih (n + 1) h
          rw [hwalk]
          exact ⟨_, _, _, rfl, congrArg (· + 1) hlen⟩

/-- The strobes of a whole read, which makes none if it finds SENSE low. -/
def Reads (room : Nat) (sense : Bool) (strobes : List Strobe) : Prop :=
  if sense then Makes room strobes else strobes = []

theorem exists_serve {sense : Bool} (h : Reads places.length sense strobes) :
    ∃ places' taken result, serve places sense strobes = some (places', taken, result) ∧
      taken.length = strobes.length := by
  cases sense with
  | false =>
    obtain rfl : strobes = [] := h
    exact ⟨_, _, _, rfl, rfl⟩
  | true => exact exists_walk 0 h

/-- And a walk in which each took its byte makes these. -/
theorem makes_of_walk {n : Nat} {places' taken : List UInt8} {result : Except ErrorKind Nat}
    (h : walk n places strobes = some (places', taken, result))
    (hlen : taken.length = strobes.length) : Makes places.length strobes := by
  induction places generalizing n strobes places' taken result with
  | nil =>
    cases h
    exact List.length_eq_zero_iff.mp hlen.symm
  | cons place places ih =>
    cases strobes with
    | nil => cases h
    | cons strobe strobes =>
      change if strobe.sense && !strobe.rxf then Makes places.length strobes else strobes = []
      simp only [walk] at h
      cases hsense : strobe.sense with
      | false =>
        rw [hsense] at h
        cases h
        exact List.length_eq_zero_iff.mp (Nat.succ.inj hlen).symm
      | true =>
        cases hrxf : strobe.rxf with
        | true =>
          rw [hsense, hrxf] at h
          cases h
          exact List.length_eq_zero_iff.mp (Nat.succ.inj hlen).symm
        | false =>
          rw [hsense, hrxf] at h
          cases hwalk : walk (n + 1) places strobes with
          | none =>
            rw [hwalk] at h
            cases h
          | some out =>
            obtain ⟨places', taken, result⟩ := out
            rw [hwalk] at h
            cases h
            exact ih hwalk (Nat.succ.inj hlen)

theorem reads_of_serve {sense : Bool} {places' taken : List UInt8}
    {result : Except ErrorKind Nat} (h : serve places sense strobes = some (places', taken, result))
    (hlen : taken.length = strobes.length) : Reads places.length sense strobes := by
  cases sense with
  | false =>
    cases h
    exact List.length_eq_zero_iff.mp hlen.symm
  | true => exact makes_of_walk h hlen

end AvrBridge.UsbRead

namespace AvrBridge.Firmware

open Rust Lts Tasks

variable {p : Profile} {s t : State}

def Ft240Task.Waits (task : Ft240Task) : Prop := ∃ act, task.Awaits act

def Usart1Task.Waits (task : Usart1Task) : Prop := ∃ act, task.Awaits act

/-- The strobes given are those that the read makes. The chip presents a byte for each, whether or
not it has one, so nothing about the chip is assumed here. -/
def Served : Ft240Act → Prop
  | .take sense strobes => UsbRead.Reads bufferSize sense strobes
  | _ => True

/-- Which step a task awaits does not depend on what the step finds. -/
theorem Ft240Task.Awaits.alike {task : Ft240Task} {a b : Ft240Act} (h : task.Awaits a)
    (hab : a.ctorIdx = b.ctorIdx) : task.Awaits b := by
  unfold Ft240Task.Awaits at h
  split at h
  -- the last alternative is a step at another place
  case h_11 => exact h.elim
  all_goals
    cases b with
    | request _ | canWrite _ | send | delayed | canRead _ | take _ _ | compose =>
      first
        | trivial
        | cases hab

theorem Usart1Task.Awaits.alike {task : Usart1Task} {a b : Usart1Act} (h : task.Awaits a)
    (hab : a.ctorIdx = b.ctorIdx) : task.Awaits b := by
  unfold Usart1Task.Awaits at h
  split at h
  case h_10 => exact h.elim
  all_goals
    cases b with
    | canWrite _ | strobe _ | request _ | canRead _ | take | compose =>
      first
        | trivial
        | cases hab

/-! ## Each step leads to a place with a way out -/

theorem waits_of_nextRead {rows : List (List UInt8)} {rx : Storage} {tx : TxBuffer}
    {task : Ft240Task} (h : nextRead rows rx tx = .ok task) : task.Waits := by
  obtain ⟨row, -, h⟩ := bind_eq_ok.mp h
  rw [UsbRead.enter] at h
  cases hrow : row.isEmpty with
  | true =>
    rw [hrow] at h
    cases h
    exact ⟨.compose, trivial⟩
  | false =>
    rw [hrow] at h
    cases h
    exact ⟨.canRead ⟨true, true, true⟩, trivial⟩

theorem ft240Step_waits {act : Ft240Act} (hs : ft240Step p s act = some t) :
    t.ft240Task.Waits := by
  unfold ft240Step at hs
  split at hs
  case h_1 =>
    obtain ⟨⟨storage, pool⟩, -, hs⟩ := Option.bind_eq_some_iff.mp hs
    cases hs
    cases storage with
    | none => exact ⟨.request 0, trivial⟩
    | some rx => exact ⟨.request 0, trivial⟩
  case h_2 =>
    obtain ⟨⟨storage, pool⟩, -, hs⟩ := Option.bind_eq_some_iff.mp hs
    cases hs
    cases storage with
    | none => exact ⟨.request 0, trivial⟩
    | some tx => exact ⟨.canWrite 0, trivial⟩
  case h_3 waker rx tx _ =>
    generalize UartWrite.await s.uart s.writer waker = out at hs
    obtain ⟨w, uart, writer⟩ := out
    cases hs
    cases w with
    | canWrite => exact ⟨.canWrite 0, trivial⟩
    | send => exact ⟨.send, trivial⟩
    | done _ => exact ⟨.delayed, trivial⟩
  case h_4 =>
    cases hs
    exact ⟨.delayed, trivial⟩
  case h_5 =>
    obtain ⟨task, htask, hs⟩ := Option.bind_eq_some_iff.mp hs
    cases hs
    exact waits_of_nextRead (toOption_eq_some.mp htask)
  case h_6 pins rx tx _ =>
    cases hs
    generalize UsbRead.await pins = r
    cases r with
    | canRead => exact ⟨.canRead pins, trivial⟩
    | take => exact ⟨.take true [], trivial⟩
    | done _ => exact ⟨.compose, trivial⟩
  case h_7 =>
    obtain ⟨row, -, hs⟩ := Option.bind_eq_some_iff.mp hs
    obtain ⟨⟨row', taken, result⟩, -, hs⟩ := Option.bind_eq_some_iff.mp hs
    cases hs
    exact ⟨.compose, trivial⟩
  case h_8 =>
    obtain ⟨row, -, hs⟩ := Option.bind_eq_some_iff.mp hs
    obtain ⟨f, -, hs⟩ := Option.bind_eq_some_iff.mp hs
    obtain ⟨f', -, hs⟩ := Option.bind_eq_some_iff.mp hs
    obtain ⟨buf, -, hs⟩ := Option.bind_eq_some_iff.mp hs
    dsimp only at hs
    split at hs
    · obtain ⟨task, htask, hs⟩ := Option.bind_eq_some_iff.mp hs
      cases hs
      exact waits_of_nextRead (toOption_eq_some.mp htask)
    · rename_i hne
      cases hs
      unfold UartWrite.enter at hne ⊢
      split
      · rename_i hempty
        rw [if_pos hempty] at hne
        exact absurd rfl (hne _)
      · exact ⟨.canWrite 0, trivial⟩
  case h_9 waker rx tx taken result _ =>
    generalize UartWrite.await s.uart s.writer waker = out at hs
    obtain ⟨w, uart, writer⟩ := out
    cases w with
    | canWrite =>
      cases hs
      exact ⟨.canWrite 0, trivial⟩
    | send =>
      cases hs
      exact ⟨.send, trivial⟩
    | done _ =>
      obtain ⟨task, htask, hs⟩ := Option.bind_eq_some_iff.mp hs
      cases hs
      exact waits_of_nextRead (toOption_eq_some.mp htask)
  case h_10 =>
    obtain ⟨buf, -, hs⟩ := Option.bind_eq_some_iff.mp hs
    obtain ⟨task, htask, hs⟩ := Option.bind_eq_some_iff.mp hs
    cases hs
    exact waits_of_nextRead (toOption_eq_some.mp htask)
  case h_11 => cases hs

/-- Where the other task stands in an account it has a way out. -/
theorem Usart1Task.At.waits {rows : List (List UInt8)} {r : UsartReader} {a : Account}
    {task : Usart1Task} (h : task.At rows r a) : task.Waits := by
  have hsends : ∀ message n w, Sends message n w → w = .canWrite ∨ w = .writing n := by
    intro message n w hw
    cases w with
    | canWrite => exact .inl rfl
    | writing k => exact .inr (congrArg UsbWrite.writing hw.1)
    | done _ => cases hw
  cases task with
  | greet w =>
    obtain ⟨-, -, n, hw, -⟩ := h
    rcases hsends _ _ _ hw with rfl | rfl
    · exact ⟨.canWrite ⟨true, true, true⟩, trivial⟩
    · exact ⟨.strobe ⟨true, true, true⟩, trivial⟩
  | requestRx => exact ⟨.request 0, trivial⟩
  | requestTx rx => exact ⟨.request 0, trivial⟩
  | read rx tx call =>
    obtain ⟨-, -, -, rfl | ⟨rfl, -⟩⟩ := h
    · exact ⟨.canRead 0, trivial⟩
    · exact ⟨.take, trivial⟩
  | compose rx tx result => exact ⟨.compose, trivial⟩
  | write rx tx w =>
    obtain ⟨-, -, -, frame, n, -, -, hw, -⟩ := h
    rcases hsends _ _ _ hw with rfl | rfl
    · exact ⟨.canWrite ⟨true, true, true⟩, trivial⟩
    · exact ⟨.strobe ⟨true, true, true⟩, trivial⟩

/-! ## No step traps -/

theorem ft240_isSome (hinv : Inv s) {act : Ft240Act} (hwaits : s.ft240Task.Awaits act)
    (hserved : Served act) : (ft240Step p s act).isSome = true := by
  have hown : ∀ i ∈ s.ft240Task.slots, Whole s.pool.pool i := fun i hi => (hinv.own hi).2
  have hheld := hinv.task
  have hlt := (whole_next hinv).1
  unfold Ft240Task.Awaits at hwaits
  split at hwaits
  case h_1 w htask =>
    obtain ⟨capacity, pool, hreq, -, -⟩ := request_eq (p := p) hinv.pool hlt .slice w
    unfold ft240Step
    simp only [htask, hreq]
    rfl
  case h_2 w rx htask =>
    obtain ⟨capacity, pool, hreq, -, -⟩ := request_eq (p := p) hinv.pool hlt .flatBuffer w
    unfold ft240Step
    simp only [htask, hreq]
    rfl
  case h_3 waker rx tx htask =>
    unfold ft240Step
    simp only [htask]
    rfl
  case h_4 waker rx tx taken result htask =>
    unfold ft240Step
    simp only [htask, hinv.writer, await_new]
    rfl
  case h_5 rx tx htask =>
    unfold ft240Step
    simp only [htask]
    rfl
  case h_6 rx tx taken result htask =>
    rw [htask] at hown hheld
    obtain ⟨rxRow, hrx, hrxLen⟩ := hown rx.ptr (List.mem_cons_self ..)
    obtain ⟨-, row, hrow, hfilled⟩ := hheld
    have hbuf : tx.asRef s.pool.pool = .ok (report taken result) := asRef_eq hrow hfilled
    unfold ft240Step
    simp only [htask, hbuf, nextRead_eq hrx hrxLen]
    rfl
  case h_7 rx tx htask =>
    rw [htask] at hown
    obtain ⟨rxRow, hrx, hrxLen⟩ := hown rx.ptr (List.mem_cons_self ..)
    unfold ft240Step
    simp only [htask, nextRead_eq hrx hrxLen]
    rfl
  case h_8 pins rx tx htask =>
    unfold ft240Step
    simp only [htask]
    rfl
  case h_9 sense strobes rx tx htask =>
    rw [htask] at hown
    obtain ⟨rxRow, hrx, hrxLen⟩ := hown rx.ptr (List.mem_cons_self ..)
    have hreads : UsbRead.Reads rxRow.length sense strobes := by
      rw [hrxLen]
      exact hserved
    obtain ⟨row', taken, result, hserve, -⟩ := UsbRead.exists_serve hreads
    unfold ft240Step
    simp only [htask, index_ok hrx, Except.toOption, Option.bind_eq_bind, Option.bind_some,
      hserve]
    rfl
  case h_10 rx tx taken result htask =>
    obtain ⟨t, hs, -, -⟩ := ft240_compose (p := p) hinv htask
    rw [hs]
    rfl
  case h_11 => exact hwaits.elim

theorem ft240_waits (h : (system p).Reachable s) : s.ft240Task.Waits := by
  refine System.Reachable.invariant (I := fun s => s.ft240Task.Waits) ?_ ?_ h
  · rintro s rfl
    exact ⟨.request 0, trivial⟩
  · intro s act t hw hs
    cases act with
    | ft240 act => exact ft240Step_waits hs
    | usart1 act =>
      rw [(usart1Step_cases hs).1.ft240Task]
      exact hw
    | usart1Rx byte =>
      cases hs
      exact hw
    | usart1Udre =>
      change step p s .usart1Udre = some t at hs
      simp only [step] at hs
      split at hs
      · cases hs
      · cases hs
        exact hw

/-- In every state the program reaches both tasks wait for a step, and every step that a task waits
for returns. -/
theorem goes_on (h : (system p).Reachable s) :
    s.ft240Task.Waits ∧ s.usart1Task.Waits ∧
    (∀ act, s.ft240Task.Awaits act → Served act → (ft240Step p s act).isSome = true) ∧
    (∀ act, s.usart1Task.Awaits act → (usart1Step p s act).isSome = true) := by
  have hinv := inv_reachable h
  obtain ⟨a, hacc⟩ := accounts_of_reachable h
  refine ⟨ft240_waits h, hacc.task.waits, ?_, ?_⟩
  · intro act hwaits hserved
    exact ft240_isSome hinv hwaits hserved
  · intro act hwaits
    obtain ⟨t, -, hs, -⟩ := usart1_carries (p := p) hinv hacc hwaits
    rw [hs]
    rfl

end AvrBridge.Firmware
