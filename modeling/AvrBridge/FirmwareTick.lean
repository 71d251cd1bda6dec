import AvrBridge.FirmwareProgress
import AvrBridge.TimerRuns

/-! The tasks with the tick of `timer.rs`. Nothing the tasks do stops them; what does is the panic
of `TIMER1_COMPA`, from which `panic` makes a loop with the interrupts off. -/

namespace AvrBridge.Firmware

open Rust Lts

/-- The program, the statics of the timer, the interrupts the timer has made, and whether one of
them has panicked. -/
structure Ticked where
  program : State
  timer : TimerStatics
  ticks : Nat
  trapped : Bool
  deriving DecidableEq, Repr

inductive TickedAct where
  | step (act : Act)
  | timer1Compa
  deriving DecidableEq, Repr

/-- The delay of `ft240_reader_task` ends at any time here, so of the statics only the tick
counts. -/
def tickedStep (p : Profile) (s : Ticked) (act : TickedAct) : Option Ticked :=
  if s.trapped then none
  else
    match act with
    | .step act => (step p s.program act).map fun program => { s with program := program }
    | .timer1Compa =>
        match Timer.timer1Compa p s.timer with
        | .ok (_, timer) => some { s with timer := timer, ticks := s.ticks + 1 }
        | .error _ => some { s with ticks := s.ticks + 1, trapped := true }

def ticked (p : Profile) : System Ticked TickedAct :=
  .ofFun ⟨start, ⟨0, none⟩, 0, false⟩ (tickedStep p)

structure Ticks (p : Profile) (s : Ticked) : Prop where
  program : (system p).Reachable s.program
  running : s.trapped = false →
    s.timer.tickCount = s.ticks % 65536 ∧ (p.overflowChecks = true → s.ticks < 65536)
  trapped : s.trapped = true → p.overflowChecks = true ∧ s.ticks = 65536

section Steps

variable {p : Profile} {s t : Ticked}

/-- **What a step does**, until one traps. -/
theorem tickedStep_cases {act : TickedAct} (hs : tickedStep p s act = some t) :
    s.trapped = false ∧
      ((∃ act' program, act = .step act' ∧ step p s.program act' = some program ∧
          t = { s with program := program }) ∨
        (act = .timer1Compa ∧ ∃ waker timer, Timer.timer1Compa p s.timer = .ok (waker, timer) ∧
          t = { s with timer := timer, ticks := s.ticks + 1 }) ∨
        (act = .timer1Compa ∧ ∃ panic, Timer.timer1Compa p s.timer = .error panic ∧
          t = { s with ticks := s.ticks + 1, trapped := true })) := by
  unfold tickedStep at hs
  split at hs
  · cases hs
  · rename_i hgoes
    refine ⟨Bool.eq_false_iff.mpr hgoes, ?_⟩
    cases act with
    | step act =>
      obtain ⟨program, hprogram, rfl⟩ := Option.map_eq_some_iff.mp hs
      exact .inl ⟨act, program, rfl, hprogram, rfl⟩
    | timer1Compa =>
      cases htick : Timer.timer1Compa p s.timer with
      | ok out =>
        obtain ⟨waker, timer⟩ := out
        simp only [htick] at hs
        cases hs
        exact .inr (.inl ⟨rfl, waker, timer, rfl, rfl⟩)
      | error panic =>
        simp only [htick] at hs
        cases hs
        exact .inr (.inr ⟨rfl, panic, rfl, rfl⟩)

theorem ticks_step {act : TickedAct} (h : Ticks p s) (hs : tickedStep p s act = some t) :
    Ticks p t := by
  obtain ⟨hgoes, ⟨act, program, -, hprogram, rfl⟩ | ⟨-, waker, timer, hok, rfl⟩ |
    ⟨-, panic, herror, rfl⟩⟩ := tickedStep_cases hs
  · exact ⟨.step h.program trivial hprogram, h.running, h.trapped⟩
  · obtain ⟨hcount, hdev⟩ := h.running hgoes
    have hlt : s.timer.tickCount < 65536 := by omega
    rcases TimerRuns.timer1Compa_spec p hlt with ⟨-, panic, herror⟩ | ⟨hroom, hnext⟩
    · rw [herror] at hok
      cases hok
    · rw [hnext] at hok
      cases hok
      refine ⟨h.program, ?_, ?_⟩
      · intro _
        constructor
        · show (s.timer.tickCount + 1) % 65536 = (s.ticks + 1) % 65536
          omega
        · intro hp
          have hbound := hdev hp
          have hbelow : s.timer.tickCount ≠ 65535 := fun htop => hroom ⟨hp, htop⟩
          show s.ticks + 1 < 65536
          omega
      · intro htrapped
        rw [show s.trapped = true from htrapped] at hgoes
        cases hgoes
  · obtain ⟨hcount, hdev⟩ := h.running hgoes
    have hlt : s.timer.tickCount < 65536 := by omega
    rcases TimerRuns.timer1Compa_spec p hlt with ⟨⟨hp, htop⟩, -⟩ | ⟨-, hnext⟩
    · refine ⟨h.program, nofun, ?_⟩
      intro _
      have hbound := hdev hp
      refine ⟨hp, ?_⟩
      show s.ticks + 1 = 65536
      omega
    · rw [hnext] at herror
      cases herror

theorem ticks_of_reachable (h : (ticked p).Reachable s) : Ticks p s := by
  refine h.invariant (I := Ticks p) ?_ ?_
  · rintro _ rfl
    refine ⟨.init rfl, ?_, nofun⟩
    intro _
    exact ⟨rfl, fun _ => Nat.succ_pos _⟩
  · intro s act t hi hs
    exact ticks_step hi hs

end Steps

/-- **The tasks go on.** The program stops exactly at the 65536th interrupt of the timer, and only
with overflow checks. In every state it reaches before that, and without the checks in every state,
both tasks wait for a step, and every step that a task waits for returns. -/
theorem tasks_go_on (p : Profile) (s : Ticked) (h : (ticked p).Reachable s) :
    (s.trapped = true ↔ p.overflowChecks = true ∧ s.ticks = 65536) ∧
    (s.trapped = true → ∀ act, tickedStep p s act = none) ∧
    (s.trapped = false →
      s.program.ft240Task.Waits ∧ s.program.usart1Task.Waits ∧
      (∀ act, s.program.ft240Task.Awaits act → Served act →
        (tickedStep p s (.step (.ft240 act))).isSome = true) ∧
      (∀ act, s.program.usart1Task.Awaits act →
        (tickedStep p s (.step (.usart1 act))).isSome = true)) := by
  have hticks := ticks_of_reachable h
  refine ⟨⟨hticks.trapped, ?_⟩, ?_, ?_⟩
  · rintro ⟨hp, htop⟩
    by_contra hgoes
    have hbound := (hticks.running (Bool.eq_false_iff.mpr hgoes)).2 hp
    omega
  · intro htrapped act
    exact if_pos htrapped
  · intro hgoes
    obtain ⟨hft240, husart1, hft240Step, husart1Step⟩ := goes_on hticks.program
    have hstep : ∀ act, tickedStep p s (.step act) =
        (step p s.program act).map fun program => { s with program := program } := by
      intro act
      rw [tickedStep, hgoes]
      rfl
    refine ⟨hft240, husart1, ?_, ?_⟩
    · intro act hwaits hserved
      rw [hstep, Option.isSome_map]
      exact hft240Step act hwaits hserved
    · intro act hwaits
      rw [hstep, Option.isSome_map]
      exact husart1Step act hwaits

/-- A line comes in, and the timer runs twice. -/
theorem tasks_go_on_oneLine :
    ∃ s, (ticked .dev).Reachable s ∧ s.ticks = 2 ∧ s.program.reader.buffer.len = 1 ∧
      s.trapped = false ∧ s.program.ft240Task.Waits ∧ s.program.usart1Task.Waits ∧
      (∀ act, s.program.ft240Task.Awaits act → Served act →
        (tickedStep .dev s (.step (.ft240 act))).isSome = true) ∧
      (∀ act, s.program.usart1Task.Awaits act →
        (tickedStep .dev s (.step (.usart1 act))).isSome = true) := by
  obtain ⟨s, hs, htest⟩ := exists_reachable_of_runFun
    (.timer1Compa :: oneLine.map TickedAct.step ++ [.timer1Compa])
    (fun s => s.ticks == 2 && s.program.reader.buffer.len == 1 && !s.trapped)
    (show (ticked .dev).Reachable ⟨start, ⟨0, none⟩, 0, false⟩ from .init rfl) (by decide +kernel)
  simp only [Bool.and_eq_true, beq_iff_eq, Bool.not_eq_true'] at htest
  obtain ⟨⟨hticks, hlen⟩, hgoes⟩ := htest
  exact ⟨s, hs, hticks, hlen, hgoes, (tasks_go_on .dev s hs).2.2 hgoes⟩

end AvrBridge.Firmware
