import AvrBridge.BridgeWakeups
import AvrBridge.TimerRuns

/-! The delay of `ft240_reader_task` in the whole program. The task reads nothing from the chip
until 1000 interrupts of the timer have come since it made its delay, however its polls fall
between them, and a poll behind the thousandth lets it go. -/

namespace AvrBridge.Bridge

open Rust Lts Ft240x Firmware TimerRuns

variable {p : Profile} {autoClear rxfLow txeLow : Bool}

/-- The interrupts of the timer since the delay was made. -/
def countTicks (n : Nat) : Act → Nat
  | .run (.work (.ft240 .delay)) => 0
  | .run (.interrupt .timer1Compa) => n + 1
  | _ => n

/-- An interrupt that panics does not count. -/
def countedStep (p : Profile) (autoClear : Bool) (x : State × Nat) (act : Act) :
    Option (State × Nat) := do
  let s ← step p autoClear x.1 act
  return (s, if s.env.trapped then x.2 else countTicks x.2 act)

/-- The program with the count. -/
def counted (p : Profile) (autoClear rxfLow txeLow : Bool) : System (State × Nat) Act :=
  .ofFun (start rxfLow txeLow, 0) (countedStep p autoClear)

/-- The task has its delay behind it. -/
def Past : Ft240Task → Prop
  | .read _ _ _ | .compose _ _ _ _ | .write _ _ _ _ _ => True
  | .requestRx | .requestTx _ | .greet _ _ _ | .delay _ _ => False

/-- The delay with the count, as a timer of `TimerRuns`. -/
def started (timer : Timer) (n : Nat) : Started := ⟨timer, 1000, n⟩

def Delay.timer : Delay → Option Timer
  | .none => Option.none
  | .polls timer | .storing timer => some timer

structure OnDelay (e : Env) (n : Nat) : Prop where
  tick_lt : e.timer.tickCount < 65536
  onTime : ∀ timer, e.delay.timer = some timer → OnTime e.timer.tickCount (started timer n)
  past : Past e.firmware.ft240Task → 1000 ≤ n

section Steps

variable {e e' : Env} {n : Nat}

theorem not_past_of_tick {task : Ft240Task} (h : WaitsTick task) : ¬ Past task := by
  cases task with
  | delay rx tx => exact id
  | requestRx | requestTx _ | greet _ _ _ | read _ _ _ | compose _ _ _ _ | write _ _ _ _ _ =>
    cases h

/-- Only the end of the delay leads behind it. -/
theorem past_of_step {s t : Firmware.State} {act : Ft240Act} (hs : ft240Step p s act = some t)
    (hact : act ≠ .delayed) (hpast : Past t.ft240Task) : Past s.ft240Task := by
  unfold ft240Step at hs
  split at hs
  case h_1 =>
    obtain ⟨⟨storage, pool⟩, -, hs⟩ := Option.bind_eq_some_iff.mp hs
    cases hs
    cases storage <;> cases hpast
  case h_2 =>
    obtain ⟨⟨storage, pool⟩, -, hs⟩ := Option.bind_eq_some_iff.mp hs
    cases hs
    cases storage <;> cases hpast
  case h_3 waker rx tx _ =>
    generalize UartWrite.await s.uart s.writer waker = out at hs
    obtain ⟨w, uart, writer⟩ := out
    cases hs
    cases w <;> cases hpast
  case h_4 =>
    cases hs
    cases hpast
  case h_5 => exact absurd rfl hact
  case h_6 htask | h_7 htask | h_8 htask | h_9 htask | h_10 htask =>
    rw [htask]
    trivial
  case h_11 => cases hs

/-- A timer that has expired is 1000 interrupts old. -/
theorem le_of_expired {timer : Timer} (h : OnDelay e n) (hdelay : e.delay = .polls timer)
    (hexpired : timer.expired e.timer.tickCount = true) : 1000 ≤ n := by
  have honTime := h.onTime timer (by rw [hdelay]; rfl)
  have hdue := (honTime.expired_iff h.tick_lt).mp hexpired
  have hlt : (n + 65536 - 1000) % 65536 < 32768 := hdue
  by_contra hearly
  omega

theorem onTime_made (timer : TimerStatics) :
    OnTime timer.tickCount (started (Timer.delay timer 1000) 0) := by
  have htoNat : (1000 : UInt16).toNat = 1000 := by decide
  have honTime := onTime_delay timer 1000
  rw [htoNat] at honTime
  exact honTime

theorem onDelay_ft240 {w : Ft240Work} (h : OnDelay e n)
    (hmoves : Ft240Moves p autoClear e w e') :
    OnDelay e' (countTicks n (.run (.work (.ft240 w)))) := by
  cases hmoves with
  | goes act hgoes hact hw husb hdelay =>
    have hcount : countTicks n (.run (.work (.ft240 w))) = n := by
      cases w with
      | delay => exact absurd rfl hw
      | plain _ | canRead _ _ | take _ _ | readTick | storeWaker => rfl
    rw [hcount]
    rcases hdelay with ⟨-, hnone, timer, hpolls, hexpired⟩ | ⟨hne, hsame⟩
    · refine ⟨hgoes.timer ▸ h.tick_lt, ?_, fun _ => le_of_expired h hpolls hexpired⟩
      intro timer' htimer
      rw [hnone] at htimer
      cases htimer
    · refine ⟨hgoes.timer ▸ h.tick_lt, ?_, fun hpast => h.past (past_of_step hgoes.step hne hpast)⟩
      rw [hsame, hgoes.timer]
      exact h.onTime
  | polls sense falls hgoes husb hdelay =>
    refine ⟨hgoes.timer ▸ h.tick_lt, ?_, fun hpast => h.past (past_of_step hgoes.step nofun hpast)⟩
    rw [hdelay, hgoes.timer]
    exact h.onTime
  | makesDelay htask hdelay =>
    refine ⟨h.tick_lt, ?_, fun hpast => absurd hpast (not_past_of_tick htask)⟩
    intro timer htimer
    obtain rfl : Timer.delay e.timer 1000 = timer := Option.some.inj htimer
    exact onTime_made e.timer
  | readsTick timer hdelay =>
    refine ⟨h.tick_lt, ?_, h.past⟩
    intro timer' htimer
    refine h.onTime timer' ?_
    rw [hdelay]
    exact htimer
  | storesWaker timer hdelay =>
    refine ⟨h.tick_lt, ?_, h.past⟩
    intro timer' htimer
    refine h.onTime timer' ?_
    rw [hdelay]
    exact htimer

theorem onDelay_usart1 {w : Usart1Work} (h : OnDelay e n)
    (hmoves : Usart1Moves p autoClear e w e') : OnDelay e' n := by
  have hgoes : ∃ act, Usart1Goes p e act e' := by
    cases hmoves with
    | goes act hgoes hact husb => exact ⟨act, hgoes⟩
    | polls sense falls hgoes husb => exact ⟨_, hgoes⟩
  obtain ⟨act, hgoes⟩ := hgoes
  refine ⟨hgoes.timer ▸ h.tick_lt, ?_, ?_⟩
  · rw [hgoes.delay, hgoes.timer]
    exact h.onTime
  · rw [(usart1Step_cases hgoes.step).1.ft240Task]
    exact h.past

theorem onDelay_interrupt {i : Interrupt} {wakes : Bool} (h : OnDelay e n)
    (hs : interrupt p autoClear e i = some (wakes, e')) (hgoes : e'.trapped = false) :
    OnDelay e' (countTicks n (.run (.interrupt i))) := by
  cases i with
  | usart1Rx byte =>
    cases hs
    exact ⟨h.tick_lt, h.onTime, h.past⟩
  | usart1Udre =>
    obtain ⟨t, ht, hs⟩ := Option.bind_eq_some_iff.mp hs
    cases hs
    simp only [Firmware.step] at ht
    split at ht
    · cases ht
    · cases ht
      exact ⟨h.tick_lt, h.onTime, h.past⟩
  | timer1Compa =>
    simp only [interrupt] at hs
    split at hs
    · rename_i waker timer htick
      cases hs
      obtain ⟨-, rfl⟩ := timer1Compa_eq_ok h.tick_lt htick
      refine ⟨Nat.mod_lt _ (by omega), ?_, fun hpast => Nat.le_succ_of_le (h.past hpast)⟩
      intro timer htimer
      exact (h.onTime timer htimer).tick
    · cases hs
      cases hgoes
  | line line falls =>
    obtain ⟨usb, -, hs⟩ := Option.bind_eq_some_iff.mp hs
    cases hs
    exact ⟨h.tick_lt, h.onTime, h.past⟩

end Steps

/-- What panics leaves the delay as it was, and so do the lines behind it. -/
theorem onDelay_trapped {s t : State} {n : Nat} {act : Act} (h : OnDelay s.env n)
    (hsound : Sound p s.env) (hticks : Ticks p s.env) (hs : step p autoClear s act = some t)
    (hstopped : t.env.trapped = true) : OnDelay t.env n := by
  rcases (ticks_step hsound hticks hs).2.mp hstopped with hbefore | ⟨rfl, hp, htop⟩
  · cases act with
    | run act =>
      rw [(run_step hs).1] at hbefore
      cases hbefore
    | edge edge =>
      obtain ⟨usb, -, hs⟩ := Option.bind_eq_some_iff.mp hs
      cases hs
      exact ⟨h.tick_lt, h.onTime, h.past⟩
  · obtain ⟨⟨wakes, env⟩, hsome, rfl⟩ := Option.map_eq_some_iff.mp (run_step hs).2
    have hint : interrupt p autoClear s.env .timer1Compa = some (wakes, env) := hsome
    rcases interrupt_counts hticks hint with ⟨-, -, -, rfl⟩ | ⟨hnot, -, -⟩
    · exact ⟨h.tick_lt, h.onTime, h.past⟩
    · exact absurd ⟨rfl, hp, htop⟩ hnot

/-- **Step lemma** of the count. -/
theorem onDelay_step {s t : State} {n : Nat} {act : Act} (h : OnDelay s.env n)
    (hsound : Sound p s.env) (hs : step p autoClear s act = some t)
    (hgoes : t.env.trapped = false) : OnDelay t.env (countTicks n act) := by
  cases act with
  | run act =>
    obtain ⟨rfl, -, ⟨-, rfl⟩ | ⟨-, rfl⟩⟩ | ⟨w, wakes, env, rfl, -, hw, rfl⟩ |
      ⟨answer, pc, rfl, -, -, -, rfl⟩ | ⟨rfl, -, rfl⟩ | ⟨i, wakes, env, rfl, hint, rfl⟩ :=
      Executor.step_cases (run_step hs).2
    · exact ⟨h.tick_lt, h.onTime, h.past⟩
    · exact h
    · obtain ⟨w', rfl, -, hmoves⟩ | ⟨w', rfl, -, hmoves⟩ := work_cases hsound.main hw
      · exact onDelay_ft240 h hmoves
      · exact onDelay_usart1 h hmoves
    · exact h
    · exact h
    · exact onDelay_interrupt h hint hgoes
  | edge edge =>
    obtain ⟨usb, husb, hs⟩ := Option.bind_eq_some_iff.mp hs
    cases hs
    exact ⟨h.tick_lt, h.onTime, h.past⟩

theorem onDelay_of_reachable {s : State} {n : Nat}
    (h : (counted p autoClear rxfLow txeLow).Reachable (s, n)) : OnDelay s.env n := by
  have hall : Sound p s.env ∧ Ticks p s.env ∧ OnDelay s.env n := by
    refine System.Reachable.invariant
      (I := fun x : State × Nat => Sound p x.1.env ∧ Ticks p x.1.env ∧ OnDelay x.1.env x.2) ?_ ?_ h
    · rintro x rfl
      refine ⟨⟨.init rfl, rfl, fun hdelay => absurd rfl hdelay⟩, ⟨Nat.succ_pos _, nofun⟩,
        Nat.succ_pos _, ?_, ?_⟩
      · intro timer htimer
        cases htimer
      · intro hpast
        cases hpast
    · rintro ⟨s, n⟩ act ⟨t, m⟩ ⟨hsound, hticks, hdelay⟩ hs
      obtain ⟨u, hu, heq⟩ := Option.bind_eq_some_iff.mp hs
      cases heq
      refine ⟨sound_step hsound hu, (ticks_step hsound hticks hu).1, ?_⟩
      cases hstopped : t.env.trapped with
      | true => exact onDelay_trapped hdelay hsound hticks hu hstopped
      | false => exact onDelay_step hdelay hsound hu hstopped
  exact hall.2.2

/-- **The chip is left alone for the delay.** In every run of the program the task reads from the
chip only behind 1000 interrupts of the timer since it made its delay; and a poll that reads the
tick lets it go exactly if 1000 of them have come, up to the next 32768. -/
theorem reads_after_delay (p : Profile) (autoClear rxfLow txeLow : Bool) (s : State) (n : Nat)
    (h : (counted p autoClear rxfLow txeLow).Reachable (s, n)) :
    (Past s.env.firmware.ft240Task → 1000 ≤ n) ∧
    ∀ timer, s.env.delay = .polls timer → n < 1000 + 32768 →
      (timer.expired s.env.timer.tickCount = true ↔ 1000 ≤ n) := by
  have hdelay := onDelay_of_reachable h
  refine ⟨hdelay.past, ?_⟩
  intro timer hpolls hlate
  refine ⟨le_of_expired hdelay hpolls, ?_⟩
  intro hle
  have honTime := hdelay.onTime timer (by rw [hpolls]; rfl)
  refine (honTime.expired_iff hdelay.tick_lt).mpr ?_
  show (n + 65536 - 1000) % 65536 < 32768
  omega

def reads : Ft240Task → Bool
  | .read _ _ _ => true
  | _ => false

theorem past_of_reads {task : Ft240Task} (h : reads task = true) : Past task := by
  cases task with
  | read rx tx r => trivial
  | requestRx | requestTx _ | greet _ _ _ | delay _ _ | compose _ _ _ _ | write _ _ _ _ _ =>
    cases h

theorem reads_after_delay_listening :
    ∃ s n, (counted .release true false true).Reachable (s, n) ∧ n = 1000 ∧
      Past s.env.firmware.ft240Task ∧
      (Past s.env.firmware.ft240Task → 1000 ≤ n) ∧
      ∀ timer, s.env.delay = .polls timer → n < 1000 + 32768 →
        (timer.expired s.env.timer.tickCount = true ↔ 1000 ≤ n) := by
  obtain ⟨⟨s, n⟩, hs, htest⟩ := exists_reachable_of_runFun listening
    (fun x => x.2 == 1000 && reads x.1.env.firmware.ft240Task)
    (show (counted .release true false true).Reachable (start false true, 0) from .init rfl)
    (by decide +kernel)
  rw [Bool.and_eq_true, beq_iff_eq] at htest
  obtain ⟨hn, htask⟩ := htest
  exact ⟨s, n, hs, hn, past_of_reads htask, reads_after_delay .release true false true s n hs⟩

end AvrBridge.Bridge
