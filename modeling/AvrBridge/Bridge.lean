import AvrBridge.Executor
import AvrBridge.Firmware
import AvrBridge.Ft240xEdges
import AvrBridge.Timer

/-! The program as `main` runs it: the two tasks under the `Join` of `Executor::run`, with the
statics their futures leave wakers in, the five interrupts and the two lines of the FT240. In
`Firmware` any order of the steps of the tasks is allowed and a delay ends at any time; here a
poll of the pair goes through the one task and then through the other, and a task goes on until
a future it awaits answers Pending. -/

namespace AvrBridge.Bridge

open Rust Lts Ft240x Firmware

/-- Every waker is a clone of `signal_waker`. -/
def signalWaker : Waker := 0

/-- The task that the poll of the `Join` is in. -/
inductive Turn where
  | ft240
  | usart1
  | done
  deriving DecidableEq, Repr

/-- The delay of `ft240_reader_task`; `storing` is between the two critical sections of
`Timer::poll`. -/
inductive Delay where
  | none
  | polls (timer : Timer)
  | storing (timer : Timer)
  deriving DecidableEq, Repr

/-- Once a routine has panicked, `panic` loops with the interrupts off: it is `trapped`. -/
structure Env where
  firmware : Firmware.State
  usb : Ft240x.State
  timer : TimerStatics
  delay : Delay
  turn : Turn
  trapped : Bool
  deriving DecidableEq, Repr

/-! ## Critical sections on the FT240 -/

/-- A change of a line: it falls, or it rises after a strobe. -/
inductive Edge where
  | fall (line : Line)
  | rise (line : Line)
  deriving DecidableEq, Repr

def Edge.act : Edge → Ft240x.Act
  | .fall line => .fall line
  | .rise line => .rise line

/-- The accesses of a poll that finds these levels. Its line may fall behind the sample; an edge
at any other place of the section does what it does before or behind it. -/
def pollActs (line : Line) (pins : Levels) (falls : Bool) : List Ft240x.Act :=
  .startPoll line signalWaker ::
    match pollAnswer (line.poll signalWaker) pins with
    | .ready (.error _) => [.access pins.sense]
    | .ready (.ok ()) => [.access pins.sense, .access pins.sense]
    | .pending => [.access pins.sense, .access pins.sense] ++
        (if falls then [.fall line] else []) ++
        [.access pins.sense, .access pins.sense, .access pins.sense, .leave]

/-- The accesses of a routine; the line may fall before it clears the flag. -/
def isrActs (line : Line) (falls : Bool) : List Ft240x.Act :=
  [.startIsr line, .access true, .access true] ++ (if falls then [.fall line] else []) ++
    [.access true, .leave]

/-- A strobe and the edges up to the sample behind it. -/
def strobeActs (line : Line) (edges : List Edge) : List Ft240x.Act :=
  .strobe line :: edges.map Edge.act

/-- The strobes of `read`, each with the edges up to its samples. -/
def readStrobes (autoClear : Bool) (usb : Ft240x.State) :
    List (Strobe × List Edge) → Option Ft240x.State
  | [] => some usb
  | (strobe, edges) :: rest => do
      let usb ← runFun (Ft240x.step autoClear) usb (strobeActs .rxf edges)
      if Line.rxf.isLow (usb.levels strobe.sense) = !strobe.rxf then
        readStrobes autoClear usb rest
      else none

/-! ## The tasks -/

/-- The steps of `ft240_reader_task`. `plain` is a step that keeps to the pool, the buffers and
the UART. -/
inductive Ft240Work where
  | plain (act : Ft240Act)
  | canRead (sense falls : Bool)
  | take (sense : Bool) (strobes : List (Strobe × List Edge))
  | delay
  | readTick
  | storeWaker
  deriving DecidableEq, Repr

inductive Usart1Work where
  | plain (act : Usart1Act)
  | canWrite (sense falls : Bool)
  | strobe (sense : Bool) (edges : List Edge)
  deriving DecidableEq, Repr

inductive Work where
  | ft240 (work : Ft240Work)
  | usart1 (work : Usart1Work)
  deriving DecidableEq, Repr

/-- The steps that are polls of a future. -/
def ft240Polls : Ft240Act → Bool
  | .request _ | .canWrite _ | .canRead _ => true
  | .send | .delayed | .take _ _ | .compose => false

def usart1Polls : Usart1Act → Bool
  | .canWrite _ | .request _ | .canRead _ => true
  | .strobe _ | .take | .compose => false

/-- `ft240_reader_task` makes a step. A poll that leaves it where it was has answered Pending,
and the `Join` goes on to the other task. -/
def Env.ft240 (p : Profile) (e : Env) (act : Ft240Act) : Option Env := do
  let firmware ← ft240Step p e.firmware act
  let pending := ft240Polls act && firmware.ft240Task == e.firmware.ft240Task
  return { e with firmware := firmware, turn := if pending then .usart1 else .ft240 }

def Env.usart1 (p : Profile) (e : Env) (act : Usart1Act) : Option Env := do
  let firmware ← usart1Step p e.firmware act
  let pending := usart1Polls act && firmware.usart1Task == e.firmware.usart1Task
  return { e with firmware := firmware, turn := if pending then .done else .usart1 }

def ft240Plain : List Ft240Act := [.request signalWaker, .canWrite signalWaker, .send, .compose]

def usart1Plain : List Usart1Act := [.request signalWaker, .canRead signalWaker, .take, .compose]

/-- The release of a buffer wakes the task that waits for one. -/
def releaseWakes (e e' : Env) : Bool :=
  e.firmware.pool.waker.isSome && e'.firmware.pool.waker.isNone

def ft240Work (p : Profile) (autoClear : Bool) (e : Env) : Ft240Work → Option Env
  | .plain act => if act ∈ ft240Plain then e.ft240 p act else none
  | .canRead sense falls => do
      let pins := e.usb.levels sense
      let usb ← runFun (Ft240x.step autoClear) e.usb (pollActs .rxf pins falls)
      Env.ft240 p { e with usb := usb } (.canRead pins)
  | .take sense strobes => do
      let usb ← readStrobes autoClear e.usb strobes
      let e ← Env.ft240 p { e with usb := usb } (.take sense (strobes.map (·.1)))
      match e.firmware.ft240Task with
      | .compose _ _ taken _ => if taken.length = strobes.length then some e else none
      | _ => none
  | .delay =>
      match e.firmware.ft240Task, e.delay with
      | .delay _ _, .none => some { e with delay := .polls (Timer.delay e.timer 1000) }
      | _, _ => none
  | .readTick =>
      match e.delay with
      | .polls timer =>
          if timer.expired e.timer.tickCount then Env.ft240 p { e with delay := .none } .delayed
          else some { e with delay := .storing timer }
      | _ => none
  | .storeWaker =>
      match e.delay with
      | .storing timer => some { e with
          timer := Timer.storeWaker e.timer signalWaker
          delay := .polls timer
          turn := .usart1 }
      | _ => none

def usart1Work (p : Profile) (autoClear : Bool) (e : Env) : Usart1Work → Option Env
  | .plain act => if act ∈ usart1Plain then e.usart1 p act else none
  | .canWrite sense falls => do
      let pins := e.usb.levels sense
      let usb ← runFun (Ft240x.step autoClear) e.usb (pollActs .txe pins falls)
      Env.usart1 p { e with usb := usb } (.canWrite pins)
  | .strobe sense edges => do
      let usb ← runFun (Ft240x.step autoClear) e.usb (strobeActs .txe edges)
      Env.usart1 p { e with usb := usb } (.strobe (usb.levels sense))

def work (p : Profile) (autoClear : Bool) (e : Env) (w : Work) : Option (Bool × Env) := do
  let e' ← match w with
    | .ft240 w => if e.turn = .ft240 then ft240Work p autoClear e w else none
    | .usart1 w => if e.turn = .usart1 then usart1Work p autoClear e w else none
  return (releaseWakes e e', e')

/-! ## The interrupts -/

inductive Interrupt where
  | usart1Rx (byte : UInt8)
  | usart1Udre
  | timer1Compa
  | line (line : Line) (falls : Bool)
  deriving DecidableEq, Repr

def interrupt (p : Profile) (autoClear : Bool) (e : Env) : Interrupt → Option (Bool × Env)
  | .usart1Rx byte => do
      let firmware ← Firmware.step p e.firmware (.usart1Rx byte)
      return (e.firmware.reader.waker.isSome, { e with firmware := firmware })
  | .usart1Udre => do
      let firmware ← Firmware.step p e.firmware .usart1Udre
      let (waker, _, _) := UsartWriter.usart1Udre e.firmware.uart e.firmware.writer
      return (waker.isSome, { e with firmware := firmware })
  | .timer1Compa =>
      match Timer.timer1Compa p e.timer with
      | .ok (waker, timer) => some (waker.isSome, { e with timer := timer })
      | .error _ => some (false, { e with trapped := true })
  | .line line falls => do
      let usb ← runFun (Ft240x.step autoClear) e.usb (isrActs line falls)
      return ((e.usb.side line).waker.isSome, { e with usb := usb })

/-! ## The program -/

/-- `Join` answers Pending once it is through both tasks. -/
def program (p : Profile) (autoClear : Bool) : Executor.Program Env Work Interrupt where
  enter e := { e with turn := .ft240 }
  work := work p autoClear
  answer e := if e.turn = .done then some .pending else none
  interrupt := interrupt p autoClear

abbrev State := Executor.State Env

inductive Act where
  | run (act : Executor.Act Work Interrupt)
  | edge (edge : Edge)
  deriving DecidableEq

/-- A step of the processor, which makes none in `panic`, or an edge, which by itself ends no
sleep. -/
def step (p : Profile) (autoClear : Bool) (s : State) : Act → Option State
  | .run act => if s.env.trapped then none else Executor.step (program p autoClear) s act
  | .edge edge => do
      let usb ← Ft240x.step autoClear s.env.usb edge.act
      return { s with env := { s.env with usb := usb } }

/-- `main` up to `executor.run()`. -/
def start (rxfLow txeLow : Bool) : State :=
  Executor.start ⟨Firmware.start, Ft240x.start rxfLow txeLow, ⟨0, none⟩, .none, .ft240, false⟩

def system (p : Profile) (autoClear rxfLow txeLow : Bool) : System State Act :=
  .ofFun (start rxfLow txeLow) (step p autoClear)

end AvrBridge.Bridge
