import AvrBridge.Rust

/-! Model of `timer.rs`. `Timer::poll` reads the tick and stores its waker in two
critical sections, so the two are separate here. -/

namespace AvrBridge

open Rust

/-- `TICK_COUNT` and `TIMER_WAKER`. -/
structure TimerStatics where
  tickCount : Nat
  timerWaker : Option Waker
  deriving DecidableEq, Repr

structure Timer where
  targetTick : Nat
  deriving DecidableEq, Repr

namespace Timer

def delay (s : TimerStatics) (delay : Nat) : Timer := ⟨wrappingAddU16 s.tickCount delay⟩

/-- What `poll` decides on the tick it has read. -/
def expired (t : Timer) (tickCounter : Nat) : Bool :=
  wrappingSubU16 tickCounter t.targetTick < 1 <<< 15

/-- The second critical section of `poll`. -/
def storeWaker (s : TimerStatics) (w : Waker) : TimerStatics := { s with timerWaker := some w }

/-- `TIMER1_COMPA`: the waker it wakes and the statics after it. -/
def timer1Compa (p : Profile) (s : TimerStatics) : Except Panic (Option Waker × TimerStatics) := do
  let tickCount ← p.addU16 s.tickCount 1
  return (s.timerWaker, ⟨tickCount, none⟩)

end Timer

end AvrBridge
