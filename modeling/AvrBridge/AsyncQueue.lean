import AvrBridge.Rust
import AvrBridge.Lts

/-! Model of `async_queue.rs`: a bounded queue with two synchronous and two
asynchronous entry points. `try_push` reads the capacity test the wrong way
round, so a queue that starts empty stays empty; the section on runs states
exactly what is left of the FIFO law. -/

namespace AvrBridge

open Rust

inductive QueueError where
  | full
  | empty
  | noItem
  deriving DecidableEq, Repr

structure AsyncQueueInner (T : Type) (CAPACITY : Nat) where
  count : Nat
  wIdx : Nat
  rIdx : Nat
  buf : List (Option T)
  waker : Option Waker
  deriving DecidableEq, Repr

namespace AsyncQueueInner

variable {T : Type} {CAPACITY : Nat}

def new (T : Type) (CAPACITY : Nat) : AsyncQueueInner T CAPACITY :=
  ⟨0, 0, 0, List.replicate CAPACITY none, none⟩

def hasSpace (q : AsyncQueueInner T CAPACITY) : Bool := q.count < asU8 CAPACITY

def isEmpty (q : AsyncQueueInner T CAPACITY) : Bool := q.count == 0

def push (p : Profile) (q : AsyncQueueInner T CAPACITY) (item : T) :
    Except Panic (AsyncQueueInner T CAPACITY) := do
  let _ ← index q.buf q.wIdx
  let next ← p.addU8 q.wIdx 1
  let count ← p.addU8 q.count 1
  return { q with
    buf := q.buf.set q.wIdx (some item), wIdx := next % asU8 CAPACITY, count := count }

/-- The result, the waker woken, and the queue after the call. -/
def tryPush (p : Profile) (q : AsyncQueueInner T CAPACITY) (item : T) :
    Except Panic (Except QueueError Unit × Option Waker × AsyncQueueInner T CAPACITY) :=
  match q.hasSpace with
  | true => .ok (.error .full, none, q)
  | false => do
    let q' ← push p { q with waker := none } item
    return (.ok (), q.waker, q')

def pop (p : Profile) (q : AsyncQueueInner T CAPACITY) :
    Except Panic (Option T × AsyncQueueInner T CAPACITY) := do
  let item ← index q.buf q.rIdx
  let next ← p.addU8 q.rIdx 1
  let count ← p.subU8 q.count 1
  return (item, { q with
    buf := q.buf.set q.rIdx none, rIdx := next % asU8 CAPACITY, count := count })

def tryPop (p : Profile) (q : AsyncQueueInner T CAPACITY) :
    Except Panic (Except QueueError T × Option Waker × AsyncQueueInner T CAPACITY) :=
  match q.isEmpty with
  | true => .ok (.error .empty, none, q)
  | false => do
    let (item, q') ← pop p { q with waker := none }
    match item with
    | some t => return (.ok t, q.waker, q')
    | none => return (.error .noItem, q.waker, q')

/-- The stored items, oldest first. -/
def items (q : AsyncQueueInner T CAPACITY) : List T :=
  (Window.window q.buf q.rIdx q.count).filterMap id

end AsyncQueueInner

/-- A `PushFuture`, with the item until a poll takes it. -/
structure PushFuture (T : Type) where
  item : Option T
  deriving DecidableEq, Repr

/-- `PushFuture::poll`: the answer, the future and the queue after it. -/
def PushFuture.poll {T : Type} {CAPACITY : Nat} (p : Profile) (f : PushFuture T)
    (q : AsyncQueueInner T CAPACITY) (w : Waker) :
    Except Panic (Poll (Except QueueError Unit) × PushFuture T × AsyncQueueInner T CAPACITY) :=
  match q.hasSpace with
  | true =>
    match f.item with
    | some item => do
      let (result, _, q) ← q.tryPush p item
      return (.ready result, ⟨none⟩, q)
    | none => .error .unwrapNone
  | false => .ok (.pending, f, { q with waker := some w })

/-- `PopFuture::poll`. -/
def PopFuture.poll {T : Type} {CAPACITY : Nat} (p : Profile) (q : AsyncQueueInner T CAPACITY)
    (w : Waker) :
    Except Panic (Poll (Except QueueError T) × AsyncQueueInner T CAPACITY) :=
  match q.isEmpty with
  | true => .ok (.pending, { q with waker := some w })
  | false => do
    let (result, _, q) ← q.tryPop p
    return (.ready result, q)

/-! ## Runs -/

namespace AsyncQueue

open Lts

variable {T : Type} {CAPACITY : Nat} {p : Profile}

/-- The queue, the push futures made so far, and what went in and came out. -/
structure State (T : Type) (CAPACITY : Nat) where
  queue : AsyncQueueInner T CAPACITY
  futures : List (PushFuture T)
  pushed : List T
  popped : List T
  deriving DecidableEq, Repr

inductive Op (T : Type) where
  | tryPush (item : T)
  | push (item : T)
  | pollPush (k : Nat) (w : Waker)
  | tryPop
  | pollPop (w : Waker)
  deriving DecidableEq, Repr

/-- What an operation answered. -/
inductive Event (T : Type) where
  | created
  | push (answer : Poll (Except QueueError Unit))
  | pop (answer : Poll (Except QueueError T))
  deriving DecidableEq, Repr

/-- Record a push that returned `Ok`. -/
def State.logPush (s : State T CAPACITY) (item : T) : Except QueueError Unit → List T
  | .ok () => s.pushed ++ [item]
  | .error _ => s.pushed

/-- Record a pop that returned an item. -/
def State.logPop (s : State T CAPACITY) : Except QueueError T → List T
  | .ok item => s.popped ++ [item]
  | .error _ => s.popped

/-- One call or poll; a trap has no result. -/
def step (p : Profile) (s : State T CAPACITY) : Op T → Option (Event T × State T CAPACITY)
  | .tryPush item =>
      match s.queue.tryPush p item with
      | .ok (r, _, q) => some (.push (.ready r), { s with queue := q, pushed := s.logPush item r })
      | .error _ => none
  | .push item => some (.created, { s with futures := s.futures ++ [⟨some item⟩] })
  | .pollPush k w =>
      match s.futures[k]? with
      | none => none
      | some f =>
          match f.poll p s.queue w with
          | .ok (.pending, f', q) =>
              some (.push .pending, { s with queue := q, futures := s.futures.set k f' })
          | .ok (.ready r, f', q) =>
              some (.push (.ready r), { s with
                queue := q
                futures := s.futures.set k f'
                pushed := f.item.elim s.pushed (s.logPush · r) })
          | .error _ => none
  | .tryPop =>
      match s.queue.tryPop p with
      | .ok (r, _, q) => some (.pop (.ready r), { s with queue := q, popped := s.logPop r })
      | .error _ => none
  | .pollPop w =>
      match PopFuture.poll p s.queue w with
      | .ok (.pending, q) => some (.pop .pending, { s with queue := q })
      | .ok (.ready r, q) =>
          some (.pop (.ready r), { s with queue := q, popped := s.logPop r })
      | .error _ => none

def system (p : Profile) (T : Type) (CAPACITY : Nat) : System (State T CAPACITY) (Op T) :=
  .ofFun ⟨.new T CAPACITY, [], [], []⟩ fun s op => (step p s op).map (·.2)

/-- Popped items followed by the queued ones are the pushed ones. -/
def Conserves (s : State T CAPACITY) : Prop := s.popped ++ s.queue.items = s.pushed

/-- A push succeeds whenever fewer than `CAPACITY` items are queued; it is refused,
the queue unchanged, only when `CAPACITY` items are queued. -/
def PushLaw (s : State T CAPACITY) : Event T → State T CAPACITY → Prop
  | .push answer, t =>
      (s.queue.items.length < CAPACITY → answer = .ready (.ok ())) ∧
      (answer ≠ .ready (.ok ()) → (answer = .ready (.error .full) ∨ answer = .pending) ∧
        t.queue.items = s.queue.items ∧ s.queue.items.length = CAPACITY)
  | _, _ => True

/-- The operation is a push, or the poll of one. -/
def Op.isPush : Op T → Bool
  | .tryPush _ | .pollPush .. => true
  | _ => false

/-- Nothing is queued and nothing ever was. -/
structure Idle (s : State T CAPACITY) : Prop where
  count : s.queue.count = 0
  pushed : s.pushed = []
  popped : s.popped = []

theorem Idle.items {s : State T CAPACITY} (h : Idle s) : s.queue.items = [] := by
  rw [AsyncQueueInner.items, h.count, Window.window_zero]
  rfl

/-- On an empty queue both ways to push are answered with `Full`, both ways to pop
find nothing. -/
theorem step_idle (hcap₁ : 1 ≤ CAPACITY) (hcap : CAPACITY ≤ 255) {s t : State T CAPACITY}
    {op : Op T} {ev : Event T} (h : Idle s) (hs : step p s op = some (ev, t)) :
    Idle t ∧ (op.isPush = true → ev = .push (.ready (.error .full))) ∧
      (op.isPush = false → ∀ answer, ev ≠ .push answer) := by
  have hspace : s.queue.hasSpace = true := by
    rw [AsyncQueueInner.hasSpace, h.count, asU8_of_lt (by omega), decide_eq_true_eq]
    omega
  have hempty : s.queue.isEmpty = true := by rw [AsyncQueueInner.isEmpty, h.count]; rfl
  cases op with
  | tryPush item =>
    simp only [step, AsyncQueueInner.tryPush, hspace, Option.some.injEq, Prod.mk.injEq] at hs
    obtain ⟨rfl, rfl⟩ := hs
    exact ⟨⟨h.count, h.pushed, h.popped⟩, fun _ => rfl, nofun⟩
  | push item =>
    simp only [step, Option.some.injEq, Prod.mk.injEq] at hs
    obtain ⟨rfl, rfl⟩ := hs
    exact ⟨⟨h.count, h.pushed, h.popped⟩, nofun, nofun⟩
  | pollPush k w =>
    simp only [step] at hs
    split at hs
    · cases hs
    · rename_i f hk
      cases hf : f.item with
      | none =>
        simp only [PushFuture.poll, hspace, hf] at hs
        cases hs
      | some item =>
        simp only [PushFuture.poll, AsyncQueueInner.tryPush, hspace, hf, ok_bind] at hs
        cases hs
        exact ⟨⟨h.count, h.pushed, h.popped⟩, fun _ => rfl, nofun⟩
  | tryPop =>
    simp only [step, AsyncQueueInner.tryPop, hempty, Option.some.injEq, Prod.mk.injEq] at hs
    obtain ⟨rfl, rfl⟩ := hs
    exact ⟨⟨h.count, h.pushed, h.popped⟩, nofun, nofun⟩
  | pollPop w =>
    simp only [step, PopFuture.poll, hempty, Option.some.injEq, Prod.mk.injEq] at hs
    obtain ⟨rfl, rfl⟩ := hs
    exact ⟨⟨h.count, h.pushed, h.popped⟩, nofun, nofun⟩

theorem reachable_idle (hcap₁ : 1 ≤ CAPACITY) (hcap : CAPACITY ≤ 255) {s : State T CAPACITY}
    (h : (system p T CAPACITY).Reachable s) : Idle s := by
  refine System.Reachable.invariant ?_ ?_ h
  · rintro s rfl
    exact ⟨rfl, rfl, rfl⟩
  · intro s op t hi hs
    obtain ⟨⟨ev, u⟩, hev, rfl⟩ := Option.map_eq_some_iff.mp hs
    exact (step_idle hcap₁ hcap hi hev).1

/-- **The FIFO law, exactly.** On every run what was popped and what is queued is
what was pushed, and a step obeys the law of pushes exactly if it pushes nothing. -/
theorem fifo_iff_no_push (p : Profile) (T : Type) (CAPACITY : Nat) (hcap₁ : 1 ≤ CAPACITY)
    (hcap : CAPACITY ≤ 255) (s : State T CAPACITY) (h : (system p T CAPACITY).Reachable s) :
    Conserves s ∧ ∀ op ev t, step p s op = some (ev, t) → (PushLaw s ev t ↔ op.isPush = false) := by
  have hi := reachable_idle hcap₁ hcap h
  refine ⟨by rw [Conserves, hi.items, hi.popped, hi.pushed]; rfl, fun op ev t hs => ?_⟩
  obtain ⟨_, hpush, hother⟩ := step_idle hcap₁ hcap hi hs
  cases hop : op.isPush with
  | true =>
    rw [hpush hop]
    refine ⟨fun hlaw => ?_, nofun⟩
    have := hlaw.1 (by rw [hi.items]; exact hcap₁)
    cases this
  | false =>
    refine ⟨fun _ => rfl, fun _ => ?_⟩
    cases ev with
    | push answer => exact absurd rfl (hother hop answer)
    | created => trivial
    | pop answer => trivial

/-- A fresh queue of four places, which `try_push(7)` leaves as it is. -/
def freshFour : State Nat 4 := ⟨.new Nat 4, [], [], []⟩

theorem fifo_iff_no_push_four :
    Conserves freshFour ∧ (PushLaw freshFour (.push (.ready (.error .full))) freshFour ↔
      (Op.tryPush 7).isPush = false) := by
  obtain ⟨hconserves, hlaw⟩ :=
    fifo_iff_no_push .dev Nat 4 (by decide) (by decide) freshFour (.init rfl)
  exact ⟨hconserves, hlaw (.tryPush 7) _ _ rfl⟩

/-- The first push into an empty queue of four places is refused. -/
theorem pushLaw_false :
    ¬ ∀ s : State Nat 4, (system .dev Nat 4).Reachable s →
      Conserves s ∧ ∀ op ev t, step .dev s op = some (ev, t) → PushLaw s ev t := by
  intro h
  have hlaw := (h freshFour (.init rfl)).2 (.tryPush 7) (.push (.ready (.error .full)))
    freshFour rfl
  exact absurd (hlaw.1 (by decide)) (by decide)

end AsyncQueue

end AvrBridge
