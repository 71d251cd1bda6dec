import AvrBridge.FirmwareFrames
import AvrBridge.Ft240Chip
import AvrBridge.UsbToUart

/-! The tasks with the chip at the end of their bus. Each pass of a task over the chip is one
critical section: the calls it makes of `ft240x.rs` are made access by access on the bus, and what
its reads found is what the chip presented. So what is known of the bytes that the tasks move holds
of the bytes that the chip is told and of those it presents. -/

namespace AvrBridge.Firmware

open Rust Lts

variable {p : Profile} {s t : State}

/-- What `ft240_reader_task` has taken from the chip and not yet sent on. -/
def Ft240Task.taken : Ft240Task → List UInt8
  | .compose _ _ taken _ | .write _ _ taken _ _ => taken
  | .requestRx | .requestTx _ | .greet _ _ _ | .delay _ _ | .read _ _ _ => []

/-- All that the reads have taken from the chip. -/
def State.taken (s : State) : List UInt8 :=
  (s.log.map Iteration.taken).flatten ++ s.ft240Task.taken

/-- What the reads of a step have taken, which leads to `t`. -/
def readsOf (t : State) : Act → List UInt8
  | .ft240 (.take _ _) => t.ft240Task.taken
  | _ => []

/-- The calls that a step from `s` to `t` makes of the chip. -/
def callsOf (s t : State) (act : Act) : List Ft240xBus.Call :=
  (readsOf t act).map (fun _ => .readByte) ++ (strobes s act).map .writeByte

theorem taken_nextRead {rows : List (List UInt8)} {rx : Storage} {tx : TxBuffer}
    {task : Ft240Task} (h : nextRead rows rx tx = .ok task) : task.taken = [] := by
  obtain ⟨row, -, h⟩ := bind_eq_ok.mp h
  cases hread : UsbRead.enter row with
  | canRead | take | done _ =>
    rw [hread] at h
    cases h
    rfl

theorem taken_ft240 {act : Ft240Act} (hs : ft240Step p s act = some t) :
    t.taken = s.taken ++ readsOf t (.ft240 act) := by
  unfold ft240Step at hs
  unfold State.taken
  split at hs
  case h_1 htask | h_2 htask =>
    obtain ⟨⟨storage, pool⟩, -, hs⟩ := Option.bind_eq_some_iff.mp hs
    cases hs
    cases storage with
    | none | some _ => simp [htask, Ft240Task.taken, readsOf]
  case h_3 waker rx tx htask =>
    generalize UartWrite.await s.uart s.writer waker = out at hs
    obtain ⟨w, uart, writer⟩ := out
    cases hs
    cases w with
    | canWrite | send | done _ => simp [htask, Ft240Task.taken, readsOf]
  case h_4 htask =>
    cases hs
    simp [htask, Ft240Task.taken, readsOf]
  case h_5 htask =>
    obtain ⟨task, hnext, hs⟩ := Option.bind_eq_some_iff.mp hs
    cases hs
    simp only [htask, taken_nextRead (toOption_eq_some.mp hnext), readsOf]
    simp [Ft240Task.taken]
  case h_6 pins rx tx htask =>
    cases hs
    cases UsbRead.await pins with
    | canRead | take | done _ => simp [htask, Ft240Task.taken, readsOf]
  case h_7 htask =>
    obtain ⟨row, -, hs⟩ := Option.bind_eq_some_iff.mp hs
    obtain ⟨⟨row', taken, result⟩, -, hs⟩ := Option.bind_eq_some_iff.mp hs
    cases hs
    simp [htask, Ft240Task.taken, readsOf]
  case h_8 htask =>
    obtain ⟨row, -, hs⟩ := Option.bind_eq_some_iff.mp hs
    obtain ⟨f, -, hs⟩ := Option.bind_eq_some_iff.mp hs
    obtain ⟨f', -, hs⟩ := Option.bind_eq_some_iff.mp hs
    obtain ⟨buf, -, hs⟩ := Option.bind_eq_some_iff.mp hs
    dsimp only at hs
    split at hs
    · obtain ⟨task, hnext, hs⟩ := Option.bind_eq_some_iff.mp hs
      cases hs
      simp only [htask, taken_nextRead (toOption_eq_some.mp hnext), readsOf]
      simp [Ft240Task.taken]
    · cases hs
      simp [htask, Ft240Task.taken, readsOf]
  case h_9 waker rx tx taken result htask =>
    generalize UartWrite.await s.uart s.writer waker = out at hs
    obtain ⟨w, uart, writer⟩ := out
    cases w with
    | canWrite | send =>
      cases hs
      simp [htask, Ft240Task.taken, readsOf]
    | done _ =>
      obtain ⟨task, hnext, hs⟩ := Option.bind_eq_some_iff.mp hs
      cases hs
      simp only [htask, taken_nextRead (toOption_eq_some.mp hnext), readsOf]
      simp [Ft240Task.taken]
  case h_10 htask =>
    obtain ⟨buf, -, hs⟩ := Option.bind_eq_some_iff.mp hs
    obtain ⟨task, hnext, hs⟩ := Option.bind_eq_some_iff.mp hs
    cases hs
    simp only [htask, taken_nextRead (toOption_eq_some.mp hnext), readsOf]
    simp [Ft240Task.taken]
  case h_11 => cases hs

/-- **What is taken** is taken by reads, and none of it is dropped from the record. -/
theorem taken_step {act : Act} (hs : step p s act = some t) :
    t.taken = s.taken ++ readsOf t act := by
  cases act with
  | ft240 act => exact taken_ft240 hs
  | usart1 act =>
    have hapart := (usart1Step_cases hs).1
    rw [State.taken, hapart.log, hapart.ft240Task]
    exact (List.append_nil _).symm
  | usart1Rx byte =>
    cases hs
    exact (List.append_nil _).symm
  | usart1Udre =>
    simp only [step] at hs
    split at hs
    · cases hs
    · cases hs
      exact (List.append_nil _).symm

/-- The bytes strobed among the events. -/
def strobed (events : List Event) : List UInt8 :=
  events.filterMap fun
    | .strobe byte => some byte
    | .frame _ _ => none

theorem strobed_append (xs ys : List Event) : strobed (xs ++ ys) = strobed xs ++ strobed ys :=
  List.filterMap_append

theorem strobed_strobes (bytes : List UInt8) : strobed (bytes.map .strobe) = bytes := by
  rw [strobed, List.filterMap_map]
  exact List.filterMap_some

theorem strobed_answers (t : State) (act : Act) : strobed (answers t act) = [] := by
  unfold answers
  split
  · split <;> rfl
  · rfl

theorem strobed_forwards (forwards : List Forward) :
    strobed (forwards.flatMap Forward.events) = forwards.flatMap Forward.strobed := by
  induction forwards with
  | nil => rfl
  | cons f forwards ih =>
    have hone : strobed f.events = f.strobed := strobed_strobes f.strobed
    rw [List.flatMap_cons, strobed_append, hone, ih, List.flatMap_cons]

end AvrBridge.Firmware

/-! ## The chip -/

namespace AvrBridge.Ft240Chip

variable {d : Driver} {s t : State}

/-- The calls that have begun. -/
def State.begun (s : State) : List Ft240xBus.Call := s.calls ++ s.call.toList

theorem begun_call {c : Ft240xBus.Call} (hs : step d s (.call c) = some t) :
    t.begun = s.begun ++ [c] := by
  cases hcall : s.call with
  | none =>
    simp only [step, hcall] at hs
    cases hs
    simp [State.begun, hcall]
  | some c' => simp [step, hcall] at hs

theorem begun_access {pinc next : UInt8} (hs : step d s (.access pinc next) = some t) :
    t.begun = s.begun := by
  cases hcall : s.call with
  | none => simp [step, hcall] at hs
  | some c =>
    cases hrest : s.rest with
    | nil => simp [step, hcall, hrest] at hs
    | cons a rest =>
      simp only [step, hcall, hrest] at hs
      split at hs
      · obtain ⟨chip, -, hs⟩ := Option.bind_eq_some_iff.mp hs
        split at hs
        · cases hs
          simp [State.begun, hcall]
        · cases hs
          simp [State.begun, hcall]
      · cases hs

theorem begun_sample {byte : UInt8} (hs : step d s (.sample byte) = some t) :
    t.begun = s.begun := by
  simp only [step] at hs
  split at hs
  · cases hs
    rfl
  · cases hs

end AvrBridge.Ft240Chip

/-! ## The system -/

namespace AvrBridge.FirmwareChip

open Rust Lts Firmware Framing
open Ft240Chip (Told toldOf)

/-- The tasks with their trace, the bus and the chip; the calls that the critical section in
progress has still to make, and what the reads so far are to have found. -/
structure State where
  firmware : Firmware.State
  trace : Trace
  chip : Ft240Chip.State
  due : List Ft240xBus.Call
  found : List UInt8
  deriving DecidableEq, Repr

inductive Act where
  | firmware (act : Firmware.Act)
  | chip (act : Ft240Chip.Act)
  deriving DecidableEq

/-- No critical section is in progress, and the reads of the last one have found what the chip
presented. -/
def State.Rests (s : State) : Prop :=
  s.due = [] ∧ s.chip.call = none ∧ s.chip.reads = s.found

instance (s : State) : Decidable s.Rests := inferInstanceAs (Decidable (_ ∧ _))

/-- A step of the tasks begins with the section before it at its end; then its calls are made in
their order. -/
def step (p : Profile) (s : State) : Act → Option State
  | .firmware act =>
      if s.Rests then do
        let t ← Firmware.step p s.firmware act
        return ⟨t, s.trace.record s.firmware act t, s.chip, callsOf s.firmware t act,
          s.found ++ readsOf t act⟩
      else none
  | .chip (.call c) =>
      match s.due with
      | [] => none
      | c' :: due =>
          if c = c' then do
            let chip ← Ft240Chip.step .ft240x s.chip (.call c)
            return { s with chip := chip, due := due }
          else none
  | .chip act => do
      let chip ← Ft240Chip.step .ft240x s.chip act
      return { s with chip := chip }

/-- The bus as `Ft240x::new` leaves it, and the tasks at their beginnings. -/
def start (bus : Ft240xBus.Bus) : State :=
  ⟨Firmware.start, .empty, ⟨bus, ⟨none, false, false, [], []⟩, none, [], [], []⟩, [], []⟩

def system (p : Profile) : System State Act :=
  .ofFunFrom (fun s => ∃ bus, Ft240Chip.Driver.Starts .ft240x bus ∧ s = start bus) (step p)

variable {p : Profile} {s t : State}

/-- The bus, the chip and the tasks each make a run of their own, and they meet in the calls. -/
structure Inv (p : Profile) (s : State) : Prop where
  firmware : (traced p).Reachable (s.firmware, s.trace)
  chip : (Ft240Chip.system .ft240x).Reachable s.chip
  calls : (s.chip.begun ++ s.due).flatMap toldOf = (strobed s.trace.events).map .byte
  found : s.found = s.firmware.taken

theorem toldOf_callsOf (s t : Firmware.State) (act : Firmware.Act) :
    (callsOf s t act).flatMap toldOf = (strobes s act).map .byte := by
  have hreads : ∀ bytes : List UInt8,
      (bytes.map fun _ => Ft240xBus.Call.readByte).flatMap toldOf = [] := by
    intro bytes
    rw [List.flatMap_eq_nil_iff]
    intro c hc
    obtain ⟨byte, -, rfl⟩ := List.mem_map.mp hc
    rfl
  have hwrites : ∀ bytes : List UInt8,
      (bytes.map Ft240xBus.Call.writeByte).flatMap toldOf = bytes.map .byte := by
    intro bytes
    induction bytes with
    | nil => rfl
    | cons byte bytes ih => exact congrArg (Told.byte byte :: ·) ih
  rw [callsOf, List.flatMap_append, hreads, hwrites, List.nil_append]

/-- **Step lemma.** -/
theorem inv_step {act : Act} (h : Inv p s) (hs : step p s act = some t) : Inv p t := by
  cases act with
  | firmware act =>
    simp only [step] at hs
    split at hs
    · rename_i hrests
      obtain ⟨hdue, hcall, -⟩ := hrests
      obtain ⟨u, hu, hs⟩ := Option.bind_eq_some_iff.mp hs
      cases hs
      refine ⟨.step h.firmware trivial (tracedStep_eq_some.mpr ⟨u, hu, rfl⟩), h.chip, ?_, ?_⟩
      · have hcalls := h.calls
        rw [hdue, List.append_nil] at hcalls
        show (s.chip.begun ++ callsOf s.firmware u act).flatMap toldOf =
          (strobed (s.trace.events ++ (strobes s.firmware act).map .strobe ++
            answers u act)).map .byte
        rw [List.flatMap_append, hcalls, toldOf_callsOf, strobed_append, strobed_append,
          strobed_strobes, strobed_answers, List.append_nil, List.map_append]
      · show s.found ++ readsOf u act = u.taken
        rw [h.found, taken_step hu]
    · cases hs
  | chip act =>
    cases act with
    | call c =>
      simp only [step] at hs
      split at hs
      · cases hs
      · rename_i c' due hdue
        split at hs
        · rename_i heq
          obtain ⟨chip, hchip, hs⟩ := Option.bind_eq_some_iff.mp hs
          cases hs
          refine ⟨h.firmware, .step h.chip trivial hchip, ?_, h.found⟩
          have hcalls := h.calls
          rw [hdue, ← heq] at hcalls
          show (chip.begun ++ due).flatMap toldOf = _
          rw [Ft240Chip.begun_call hchip, List.append_assoc]
          exact hcalls
        · cases hs
    | access pinc next =>
      obtain ⟨chip, hchip, hs⟩ := Option.bind_eq_some_iff.mp hs
      cases hs
      refine ⟨h.firmware, .step h.chip trivial hchip, ?_, h.found⟩
      show (chip.begun ++ s.due).flatMap toldOf = _
      rw [Ft240Chip.begun_access hchip]
      exact h.calls
    | sample byte =>
      obtain ⟨chip, hchip, hs⟩ := Option.bind_eq_some_iff.mp hs
      cases hs
      refine ⟨h.firmware, .step h.chip trivial hchip, ?_, h.found⟩
      show (chip.begun ++ s.due).flatMap toldOf = _
      rw [Ft240Chip.begun_sample hchip]
      exact h.calls

theorem inv_of_reachable (h : (system p).Reachable s) : Inv p s := by
  refine System.Reachable.invariant (I := Inv p) ?_ (fun s act t hi hs => inv_step hi hs) h
  rintro s ⟨bus, hbus, rfl⟩
  exact ⟨.init rfl, .init ⟨bus, hbus, rfl⟩, rfl, rfl⟩

/-- **From end to end.** In every run of the tasks with the chip, between two critical sections:
the bytes taken off the ring of the UART are cut into frames, and the chip has been told a beginning
of the greeting and for each frame in turn a beginning of its report, and nothing else; and what the
chip has presented are the bytes taken by the finished iterations and the present one, each read
that returned `Ok` forwarded by its message, and UDR1 has received the greeting and the messages. -/
theorem bytes_end_to_end (p : Profile) (s : State) (h : (system p).Reachable s)
    (hrests : s.Rests) :
    (∃ (taken greeting : List UInt8) (forwards : List Forward),
      s.trace.accepted = taken ++ s.firmware.reader.buffer.queue ∧
      forwards.map Forward.frame = (cut endsFrame bufferSize taken).1 ∧
      s.chip.chip.told = (greeting ++ forwards.flatMap Forward.strobed).map .byte ∧
      greeting <+: uartGreeting ∧ ∀ f ∈ forwards, f.strobed <+: uartReport f.frame) ∧
    s.chip.chip.presented =
      (s.firmware.log.map Iteration.taken).flatten ++ s.firmware.ft240Task.taken ∧
    s.firmware.uart.udr1 = s.firmware.ft240Task.sent s.firmware.log ∧
    ∀ it ∈ s.firmware.log, ∀ len, it.result = .ok len → it.Forwards len := by
  obtain ⟨hdue, hcall, hreads⟩ := hrests
  have hinv := inv_of_reachable h
  have hfirmware := inv_reachable (reachable_of_traced hinv.firmware)
  obtain ⟨a, hacc, haccepted, hevents⟩ := accounts_of_traced hinv.firmware
  have hchip := Ft240Chip.inv_of_reachable hinv.chip
  simp only [Ft240Chip.Inv, hcall] at hchip
  obtain ⟨-, -, hrest⟩ := hchip
  have hcalls : s.chip.calls.flatMap toldOf = (strobed s.trace.events).map .byte := by
    have hbegun := hinv.calls
    rw [hdue, List.append_nil, Ft240Chip.State.begun, hcall, Option.toList_none,
      List.append_nil] at hbegun
    exact hbegun
  refine ⟨⟨a.taken, a.greeting, a.forwards, haccepted, ?_, ?_, hacc.greeting, ?_⟩, ?_,
    hfirmware.udr1, fun it hit len hres => (hfirmware.log it hit).forwards hres⟩
  · rw [hacc.cut_taken]
  · rw [hrest.told, hcalls, hevents, Account.events, strobed_append, strobed_strobes,
      strobed_forwards]
  · intro f hf
    exact (hacc.forwards f hf).2
  · rw [hrest.presented, hreads, hinv.found]
    rfl

/-- The host's byte comes while the task greets it, and the chip turns busy behind the first byte
of the greeting. -/
def bothWays : List Act :=
  [.firmware (.usart1 (.canWrite ⟨true, true, false⟩)),
    .firmware (.usart1 (.strobe ⟨true, true, true⟩)), .chip (.call (.writeByte 117)),
    .chip (.access 0 0), .chip (.access 0 0), .chip (.access 0 0), .chip (.access 0 0),
    .chip (.sample 117), .chip (.access 0 0), .chip (.access 0 0),
    .firmware (.ft240 (.request 0)), .firmware (.ft240 (.request 0)),
    .firmware (.ft240 (.canWrite 0)), .firmware (.ft240 .send), .firmware (.ft240 .delayed),
    .firmware (.ft240 (.canRead ⟨true, false, true⟩)),
    .firmware (.ft240 (.take true [⟨104, true, true⟩])), .chip (.call .readByte),
    .chip (.access 0 0), .chip (.access 0 0), .chip (.access 0 0), .chip (.access 0 104),
    .chip (.access 0 0), .chip (.access 104 0), .chip (.access 0 0)]

def newBus : Ft240xBus.Bus := ⟨0x00, 0x00, true, true, true, .unknown, 0⟩

theorem bytes_end_to_end_bothWays :
    ∃ s, (system .dev).Reachable s ∧ s.Rests ∧ s.chip.chip.told = [.byte 117] ∧
      s.chip.chip.presented = [104] ∧
      (∃ (taken greeting : List UInt8) (forwards : List Forward),
        s.trace.accepted = taken ++ s.firmware.reader.buffer.queue ∧
        forwards.map Forward.frame = (cut endsFrame bufferSize taken).1 ∧
        s.chip.chip.told = (greeting ++ forwards.flatMap Forward.strobed).map .byte ∧
        greeting <+: uartGreeting ∧ ∀ f ∈ forwards, f.strobed <+: uartReport f.frame) ∧
      s.chip.chip.presented =
        (s.firmware.log.map Iteration.taken).flatten ++ s.firmware.ft240Task.taken ∧
      s.firmware.uart.udr1 = s.firmware.ft240Task.sent s.firmware.log ∧
      ∀ it ∈ s.firmware.log, ∀ len, it.result = .ok len → it.Forwards len := by
  obtain ⟨s, hs, htest⟩ := exists_reachable_of_runFun bothWays
    (fun s : State => decide s.Rests && s.chip.chip.told == [.byte 117] &&
      s.chip.chip.presented == [104])
    (show (system .dev).Reachable (start newBus) from
      .init ⟨newBus, ⟨⟨rfl, rfl, rfl⟩, rfl⟩, rfl⟩) (by decide +kernel)
  simp only [Bool.and_eq_true, decide_eq_true_eq, beq_iff_eq] at htest
  obtain ⟨⟨hrests, htold⟩, hpresented⟩ := htest
  exact ⟨s, hs, hrests, htold, hpresented, bytes_end_to_end .dev s hs hrests⟩

end AvrBridge.FirmwareChip
