import AvrBridge.Executor
import AvrBridge.Timer
import AvrBridge.Usart1FlowControl

/-! The tasks under the executor, cut down to what they do with the receive ring and the
timer. A future that answered Pending has its waker stored, or its waker was taken and
called since: then SIGNAL is set until the executor polls again. -/

namespace AvrBridge.Wakeups

open Rust Lts

/-! ## The program -/

/-- What a task awaits: the ring, a timer, or anything else. -/
inductive Leaf where
  | canRead
  | timer (timer : Timer)
  | other
  deriving DecidableEq, Repr

/-- Where a task stands. `awaiting` has not polled its leaf yet, `storing` is between the
two critical sections of `Timer::poll`, and the last poll of a `waiting` leaf answered
Pending. -/
inductive Task where
  | running
  | awaiting (leaf : Leaf)
  | storing (timer : Timer)
  | waiting (leaf : Leaf)
  | finished
  deriving DecidableEq, Repr

/-- The leaf a poll of the task goes to first. -/
def Task.leaf : Task → Option Leaf
  | .awaiting leaf | .waiting leaf => some leaf
  | .running | .storing _ | .finished => none

/-- The statics, and the leaves of the tree of `Join`s in the order a poll reaches them:
those it is past and those still to come. -/
structure Env where
  reader : UsartReader
  timer : TimerStatics
  polled : List Task
  todo : List Task
  deriving DecidableEq, Repr

/-- A step of the task under the poll: a critical section on the ring, a call of a waker,
an await, a critical section of its leaf, or its end. -/
inductive Work where
  | serve (c : UsartReader.Call)
  | wake
  | await (leaf : Leaf)
  | pollLeaf
  | pollOther (ready : Bool)
  | store
  | finish
  deriving DecidableEq, Repr

inductive Interrupt where
  | usart1Rx (byte : UInt8)
  | timer1Compa
  | other (wakes : Bool)
  deriving DecidableEq, Repr

def signalWaker : Waker := 0

/-- The poll goes on with the task in this state. -/
def Env.resume (e : Env) (task : Task) : Env := { e with todo := task :: e.todo.tail }

/-- The poll of the task ends and leaves it in this state. -/
def Env.leave (e : Env) (task : Task) : Env :=
  { e with polled := e.polled ++ [task], todo := e.todo.tail }

/-- The first critical section of the poll of a leaf. -/
def pollLeaf (e : Env) : Leaf → Option Env
  | .canRead =>
      match e.reader.canRead signalWaker with
      | (.ready _, reader) => some ({ e with reader := reader }.resume .running)
      | (.pending, reader) => some ({ e with reader := reader }.leave (.waiting .canRead))
  | .timer timer =>
      if timer.expired e.timer.tickCount then some (e.resume .running)
      else some (e.resume (.storing timer))
  | .other => none

def workOn (e : Env) (task : Task) : Work → Option (Bool × Env)
  | .serve c =>
      if task = .running then some (false, { e with reader := (e.reader.serve c).2 }) else none
  | .wake => if task = .running then some (true, e) else none
  | .await leaf => if task = .running then some (false, e.resume (.awaiting leaf)) else none
  | .pollLeaf => task.leaf.bind fun leaf => (pollLeaf e leaf).map fun e => (false, e)
  | .pollOther ready =>
      if task.leaf = some .other then
        some (false, if ready then e.resume .running else e.leave (.waiting .other))
      else none
  | .store =>
      match task with
      | .storing timer =>
          some (false, { e with timer := Timer.storeWaker e.timer signalWaker }.leave
            (.waiting (.timer timer)))
      | _ => none
  | .finish => if task = .running then some (false, e.leave .finished) else none

def work (e : Env) (w : Work) : Option (Bool × Env) :=
  match e.todo with
  | [] => none
  | task :: _ => workOn e task w

/-- `Join` answers Pending, a task alone what it answers itself. -/
def answer (e : Env) : Option (Poll Unit) :=
  match e.todo, e.polled with
  | [], [.finished] => some (.ready ())
  | [], _ => some .pending
  | _ :: _, _ => none

def interrupt (p : Profile) (e : Env) : Interrupt → Option (Bool × Env)
  | .usart1Rx byte =>
      let (waker, reader) := e.reader.usart1Rx byte
      some (waker.isSome, { e with reader := reader })
  | .timer1Compa =>
      match Timer.timer1Compa p e.timer with
      | .ok (waker, timer) => some (waker.isSome, { e with timer := timer })
      | .error _ => none
  | .other wakes => some (wakes, e)

def program (p : Profile) : Executor.Program Env Work Interrupt where
  enter e := { e with polled := [], todo := e.polled }
  work := work
  answer := answer
  interrupt := interrupt p

/-- `n` tasks that were never polled. -/
def start (reader : UsartReader) (timer : TimerStatics) (n : Nat) : Env :=
  ⟨reader, timer, List.replicate n .running, []⟩

def system (p : Profile) (reader : UsartReader) (timer : TimerStatics) (n : Nat) :
    System (Executor.State Env) (Executor.Act Work Interrupt) :=
  Executor.system (program p) (start reader timer n)

/-! ## Armed futures -/

/-- The next event that the leaf waits for finds a waker. -/
def Armed (e : Env) : Leaf → Prop
  | .canRead => e.reader.buffer.isEmpty = true ∧ e.reader.waker.isSome = true
  | .timer _ => e.timer.timerWaker.isSome = true
  | .other => True

/-- If the task waits for a leaf then the leaf is armed or SIGNAL is set. -/
def Served (e : Env) (signal : Bool) (task : Task) : Prop :=
  ∀ leaf, task = .waiting leaf → Armed e leaf ∨ signal = true

/-- Every leaf armed in `e` is armed in `e'`. -/
def Keeps (e e' : Env) : Prop := ∀ leaf, Armed e leaf → Armed e' leaf

theorem Keeps.of_statics {e e' : Env} (hr : e'.reader = e.reader) (ht : e'.timer = e.timer) :
    Keeps e e' := by
  intro leaf h
  cases leaf with
  | canRead => rwa [Armed, hr]
  | timer => rwa [Armed, ht]
  | other => trivial

/-- A critical section finds nothing in an empty ring. -/
theorem serve_empty {r : UsartReader} (h : r.buffer.isEmpty = true) (c : UsartReader.Call) :
    (r.serve c).2.buffer = r.buffer := by
  cases c with
  | read dest =>
    have hread : ∃ e, r.buffer.read dest = (.error e, r.buffer, dest) := by
      unfold ConstCircularBuffer.read
      split <;> exact ⟨_, rfl⟩
    obtain ⟨e, he⟩ := hread
    simp only [UsartReader.serve, UsartReader.take, he]
    rfl
  | tryReadTo term dest =>
    have hread : ∃ e, r.buffer.readTo term dest = (.error e, r.buffer, dest) := by
      unfold ConstCircularBuffer.readTo
      split <;> exact ⟨_, rfl⟩
    obtain ⟨e, he⟩ := hread
    simp only [UsartReader.serve, UsartReader.takeTo, he]
    rfl

theorem serve_waker (r : UsartReader) (c : UsartReader.Call) :
    (r.serve c).2.waker = r.waker := by
  cases c with
  | read dest =>
    rcases hread : r.buffer.read dest with ⟨result, buffer, dest'⟩
    cases result <;> simp only [UsartReader.serve, UsartReader.take, hread] <;> rfl
  | tryReadTo term dest =>
    rcases hread : r.buffer.readTo term dest with ⟨result, buffer, dest'⟩
    cases result <;> simp only [UsartReader.serve, UsartReader.takeTo, hread] <;> rfl

/-- The poll of `Usart1CanRead`: there is a byte, or its waker is in the slot now. -/
theorem canRead_cases (r : UsartReader) (w : Waker) :
    (∃ answer, r.canRead w = (.ready answer, r)) ∨
      r.buffer.isEmpty = true ∧ r.canRead w = (.pending, { r with waker := some w }) := by
  unfold UsartReader.canRead
  split
  · exact .inl ⟨_, rfl⟩
  · rename_i hlen
    refine .inr ⟨?_, rfl⟩
    simp only [ConstCircularBuffer.isEmpty, beq_iff_eq]
    omega

/-- The first section of the poll of a leaf keeps what is armed, and arms a
`Usart1CanRead` that it leaves waiting. -/
theorem pollLeaf_spec {e e' : Env} {leaf : Leaf} (hs : pollLeaf e leaf = some e') :
    Keeps e e' ∧
      ∀ task ∈ e'.polled, task ∈ e.polled ∨ ∀ leaf, task = .waiting leaf → Armed e' leaf := by
  cases leaf with
  | canRead =>
    rcases canRead_cases e.reader signalWaker with ⟨answer, hpoll⟩ | ⟨hempty, hpoll⟩
    · simp only [pollLeaf, hpoll] at hs
      cases hs
      exact ⟨.of_statics rfl rfl, fun task h => .inl h⟩
    · simp only [pollLeaf, hpoll] at hs
      cases hs
      constructor
      · intro leaf h
        cases leaf with
        | canRead => exact ⟨hempty, rfl⟩
        | timer => exact h
        | other => trivial
      · intro task h
        rcases List.mem_append.mp h with h | h
        · exact .inl h
        · cases List.mem_singleton.mp h
          refine .inr fun leaf heq => ?_
          cases heq
          exact ⟨hempty, rfl⟩
  | timer timer =>
    simp only [pollLeaf] at hs
    split at hs <;> cases hs <;> exact ⟨.of_statics rfl rfl, fun task h => .inl h⟩
  | other => cases hs

/-- A poll that ends keeps the statics; the task it leaves is the last one. -/
theorem leave_spec {e : Env} {task : Task} (htask : ∀ leaf, task = .waiting leaf → Armed e leaf) :
    ∀ task' ∈ (e.leave task).polled,
      task' ∈ e.polled ∨ ∀ leaf, task' = .waiting leaf → Armed (e.leave task) leaf := by
  intro task' h
  rcases List.mem_append.mp h with h | h
  · exact .inl h
  · rw [List.mem_singleton.mp h]
    exact .inr fun leaf heq => Keeps.of_statics rfl rfl leaf (htask leaf heq)

/-- **Step lemma** for a step within a poll: it keeps what is armed, and a task that it
leaves waiting is armed. -/
theorem work_spec {e e' : Env} {w : Work} {wakes : Bool} (hs : work e w = some (wakes, e')) :
    Keeps e e' ∧
      ∀ task ∈ e'.polled, task ∈ e.polled ∨ ∀ leaf, task = .waiting leaf → Armed e' leaf := by
  unfold work at hs
  cases htodo : e.todo with
  | nil => simp [htodo] at hs
  | cons task todo =>
    simp only [htodo] at hs
    cases w with
    | serve c =>
      simp only [workOn] at hs
      split at hs
      · cases hs
        refine ⟨fun leaf h => ?_, fun task h => .inl h⟩
        cases leaf with
        | canRead =>
          obtain ⟨hempty, hwaker⟩ := h
          refine ⟨?_, ?_⟩
          · show (e.reader.serve c).2.buffer.isEmpty = true
            rw [serve_empty hempty c, hempty]
          · show (e.reader.serve c).2.waker.isSome = true
            rw [serve_waker, hwaker]
        | timer => exact h
        | other => trivial
      · cases hs
    | wake =>
      simp only [workOn] at hs
      split at hs
      · cases hs
        exact ⟨.of_statics rfl rfl, fun task h => .inl h⟩
      · cases hs
    | await leaf =>
      simp only [workOn] at hs
      split at hs
      · cases hs
        exact ⟨.of_statics rfl rfl, fun task h => .inl h⟩
      · cases hs
    | pollLeaf =>
      simp only [workOn, Option.bind_eq_some_iff, Option.map_eq_some_iff] at hs
      obtain ⟨leaf, -, _, hpoll, heq⟩ := hs
      cases heq
      exact pollLeaf_spec hpoll
    | pollOther ready =>
      simp only [workOn] at hs
      split at hs
      · cases hs
        cases ready with
        | true => exact ⟨.of_statics rfl rfl, fun task h => .inl h⟩
        | false =>
          refine ⟨.of_statics rfl rfl, leave_spec fun leaf heq => ?_⟩
          cases heq
          trivial
      · cases hs
    | store =>
      simp only [workOn] at hs
      split at hs
      · cases hs
        constructor
        · intro leaf h
          cases leaf with
          | canRead => exact h
          | timer => rfl
          | other => trivial
        · apply leave_spec
          intro leaf heq
          cases heq
          rfl
      · cases hs
    | finish =>
      simp only [workOn] at hs
      split at hs
      · cases hs
        refine ⟨.of_statics rfl rfl, leave_spec fun leaf heq => ?_⟩
        cases heq
      · cases hs

/-- **Step lemma** for a routine: a leaf stays armed or the routine wakes. -/
theorem interrupt_spec {p : Profile} {e e' : Env} {i : Interrupt} {wakes : Bool}
    (hs : interrupt p e i = some (wakes, e')) :
    e'.polled = e.polled ∧ e'.todo = e.todo ∧
      ∀ leaf, Armed e leaf → Armed e' leaf ∨ wakes = true := by
  cases i with
  | usart1Rx byte =>
    cases hs
    refine ⟨rfl, rfl, fun leaf h => ?_⟩
    cases leaf with
    | canRead => exact .inr h.2
    | timer => exact .inl h
    | other => exact .inl trivial
  | timer1Compa =>
    simp only [interrupt] at hs
    split at hs
    · rename_i waker timer hrun
      cases hs
      have hwaker : waker = e.timer.timerWaker := by
        obtain ⟨tickCount, -, hrun⟩ := bind_eq_ok.mp hrun
        cases hrun
        rfl
      refine ⟨rfl, rfl, fun leaf h => ?_⟩
      cases leaf with
      | canRead => exact .inl h
      | timer => exact .inr (hwaker ▸ h)
      | other => exact .inl trivial
    · cases hs
  | other wakes' =>
    cases hs
    exact ⟨rfl, rfl, fun leaf h => .inl h⟩

/-! ## Runs -/

theorem Served.work {e e' : Env} {signal wakes : Bool} {task : Task} (h : Served e signal task)
    (hkeeps : Keeps e e') : Served e' (signal || wakes) task := by
  intro leaf heq
  rcases h leaf heq with harmed | hsignal
  · exact .inl (hkeeps leaf harmed)
  · exact .inr (by rw [hsignal, Bool.true_or])

theorem Served.interrupt {p : Profile} {e e' : Env} {i : Interrupt} {signal wakes : Bool}
    {task : Task} (h : Served e signal task) (hs : interrupt p e i = some (wakes, e')) :
    Served e' (signal || wakes) task := by
  intro leaf heq
  rcases h leaf heq with harmed | hsignal
  · rcases (interrupt_spec hs).2.2 leaf harmed with harmed | hwakes
    · exact .inl harmed
    · exact .inr (by rw [hwakes, Bool.or_true])
  · exact .inr (by rw [hsignal, Bool.true_or])

/-- All tasks are served between two polls, the tasks already polled also during one. -/
theorem served_reachable {p : Profile} {reader : UsartReader} {timer : TimerStatics} {n : Nat}
    {s : Executor.State Env} (h : (system p reader timer n).Reachable s) :
    (s.pc = .polling → ∀ task ∈ s.env.polled, Served s.env s.signal task) ∧
      (s.pc ≠ .polling → ∀ task ∈ s.env.polled ++ s.env.todo, Served s.env s.signal task) := by
  refine Executor.reachable_invariant
    (fun e signal => ∀ task ∈ e.polled, Served e signal task)
    (fun e signal => ∀ task ∈ e.polled ++ e.todo, Served e signal task)
    ?_ ?_ ?_ ?_ ?_ ?_ h
  · intro e _ task htask
    cases htask
  · intro e signal w wakes e' hi hs task htask
    obtain ⟨hkeeps, hnew⟩ := work_spec hs
    rcases hnew task htask with hold | harmed
    · exact (hi task hold).work hkeeps
    · exact fun leaf heq => .inl (harmed leaf heq)
  · intro e signal a hi hans task htask
    have htodo : e.todo = [] := by
      simp only [program, answer] at hans
      split at hans
      · assumption
      · assumption
      · cases hans
    rw [htodo, List.append_nil] at htask
    exact hi task htask
  · intro e signal i wakes e' hi hs task htask
    rw [(interrupt_spec hs).1] at htask
    exact (hi task htask).interrupt hs
  · intro e signal i wakes e' hi hs task htask
    obtain ⟨hpolled, htodo, -⟩ := interrupt_spec hs
    rw [hpolled, htodo] at htask
    exact (hi task htask).interrupt hs
  · exact fun task htask leaf heq => .inr rfl

/-- **No lost wake-up.** Between two polls of the executor a `Usart1CanRead` whose last poll
answered Pending has an empty ring and a stored waker, and a `Timer` a waker in the slot
that all timers share, unless SIGNAL is set. -/
theorem no_lost_wakeup (p : Profile) (reader : UsartReader) (timer : TimerStatics) (n : Nat)
    (s : Executor.State Env) (h : (system p reader timer n).Reachable s)
    (hpc : s.pc ≠ .polling) (task : Task) (htask : task ∈ s.env.polled ++ s.env.todo) :
    (task = .waiting .canRead →
      (s.env.reader.buffer.isEmpty = true ∧ s.env.reader.waker.isSome = true) ∨
        s.signal = true) ∧
    (∀ timer, task = .waiting (.timer timer) →
      s.env.timer.timerWaker.isSome = true ∨ s.signal = true) := by
  have hserved : Served s.env s.signal task := (served_reachable h).2 hpc task htask
  exact ⟨fun heq => hserved .canRead heq, fun timer heq => hserved (.timer timer) heq⟩

/-- One task waits for a byte and two for timers, which share the slot of the waker; the executor
is about to sleep. -/
def twoTimers : Executor.State Env :=
  ⟨.sleep, false, ⟨{ UsartReader.new with waker := some 0 }, ⟨0, some 0⟩,
    [.waiting .canRead, .waiting (.timer ⟨5⟩), .waiting (.timer ⟨9⟩)], []⟩⟩

theorem no_lost_wakeup_twoTimers :
    (Task.waiting (.timer ⟨5⟩) = .waiting .canRead →
      (twoTimers.env.reader.buffer.isEmpty = true ∧
        twoTimers.env.reader.waker.isSome = true) ∨ twoTimers.signal = true) ∧
    (∀ timer, Task.waiting (.timer ⟨5⟩) = .waiting (.timer timer) →
      twoTimers.env.timer.timerWaker.isSome = true ∨ twoTimers.signal = true) :=
  no_lost_wakeup .dev .new ⟨0, none⟩ 3 twoTimers
    (reachable_of_runFun [.swap, .work (.await .canRead), .work .pollLeaf,
      .work (.await (.timer ⟨5⟩)), .work .pollLeaf, .work .store, .work (.await (.timer ⟨9⟩)),
      .work .pollLeaf, .work .store, .answer] (.init rfl) (by decide))
    (by decide) (.waiting (.timer ⟨5⟩)) (by decide)

end AvrBridge.Wakeups
