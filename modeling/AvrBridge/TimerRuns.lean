import AvrBridge.Lts
import AvrBridge.Timer

/-! Timers while `TIMER1_COMPA` counts. A tick may come at any step, also between the two
critical sections of `Timer::poll`. Each timer is kept with the interrupts since it was
made: the tick counter forgets them beyond 65536. -/

namespace AvrBridge.TimerRuns

open Rust Lts

/-! ## The system -/

/-- A timer, the delay it was made with and the interrupts since. -/
structure Started where
  timer : Timer
  delay : UInt16
  elapsed : Nat
  deriving DecidableEq, Repr

/-- A finished poll: the timer as it was when `poll` read the tick. -/
structure Answered where
  of : Started
  waker : Waker
  poll : Poll Unit
  deriving DecidableEq, Repr

/-- `storing` is the poll between its two critical sections; `answered` are the polls that
returned since the last interrupt, the newest first. -/
structure State where
  statics : TimerStatics
  interrupts : Nat
  timers : List Started
  storing : Option (Started × Waker)
  answered : List Answered
  trapped : Bool
  deriving DecidableEq, Repr

inductive Act where
  | delay (delay : UInt16)
  | poll (i : Nat) (waker : Waker)
  | storeWaker
  | timer1Compa
  deriving DecidableEq, Repr

/-- `Timer::delay`, the two halves of `Timer::poll`, the interrupt. A trap stops the run. -/
def step (p : Profile) (s : State) (act : Act) : Option State :=
  if s.trapped then none
  else match act with
    | .delay delay =>
        match s.storing with
        | none => some { s with
            timers := s.timers ++ [⟨Timer.delay s.statics delay.toNat, delay, 0⟩] }
        | some _ => none
    | .poll i waker =>
        match s.storing, s.timers[i]? with
        | none, some started =>
            if started.timer.expired s.statics.tickCount then
              some { s with answered := ⟨started, waker, .ready ()⟩ :: s.answered }
            else some { s with storing := some (started, waker) }
        | _, _ => none
    | .storeWaker =>
        match s.storing with
        | some (started, waker) => some { s with
            statics := Timer.storeWaker s.statics waker
            storing := none
            answered := ⟨started, waker, .pending⟩ :: s.answered }
        | none => none
    | .timer1Compa =>
        match Timer.timer1Compa p s.statics with
        | .ok (_, statics) => some { s with
            statics := statics
            interrupts := s.interrupts + 1
            timers := s.timers.map fun started => { started with elapsed := started.elapsed + 1 }
            answered := [] }
        | .error _ => some { s with interrupts := s.interrupts + 1, trapped := true }

def start (tickCount : UInt16) : State := ⟨⟨tickCount.toNat, none⟩, 0, [], none, [], false⟩

def system (p : Profile) (tickCount : UInt16) : System State Act :=
  .ofFun (start tickCount) (step p)

/-- The waker of the newest poll since the last interrupt that was left pending. -/
def State.waiting (s : State) : Option Waker :=
  (s.answered.find? fun a => a.poll == .pending).map (·.waker)

/-! ## What every run keeps -/

/-- What `poll` compares, on interrupts counted without bound. -/
def Started.Due (x : Started) : Prop := (x.elapsed + 65536 - x.delay.toNat) % 65536 < 32768

/-- The target of a timer lies its delay, less the interrupts since, ahead of the tick. -/
def OnTime (tickCount : Nat) (x : Started) : Prop :=
  x.timer.targetTick < 65536 ∧
    (x.timer.targetTick + x.elapsed) % 65536 = (tickCount + x.delay.toNat) % 65536

theorem toNat_delay_lt (x : Started) : x.delay.toNat < 65536 := x.delay.toNat_lt

theorem onTime_delay (s : TimerStatics) (delay : UInt16) :
    OnTime s.tickCount ⟨Timer.delay s delay.toNat, delay, 0⟩ := by
  unfold OnTime Timer.delay wrappingAddU16
  constructor
  · exact Nat.mod_lt _ (by omega)
  · simp

theorem OnTime.tick {tickCount : Nat} {x : Started} (h : OnTime tickCount x) :
    OnTime ((tickCount + 1) % 65536) { x with elapsed := x.elapsed + 1 } := by
  obtain ⟨htarget, hsum⟩ := h
  constructor
  · exact htarget
  · show (x.timer.targetTick + (x.elapsed + 1)) % 65536 =
      ((tickCount + 1) % 65536 + x.delay.toNat) % 65536
    omega

theorem OnTime.expired_iff {tickCount : Nat} {x : Started} (h : OnTime tickCount x)
    (htick : tickCount < 65536) : x.timer.expired tickCount = true ↔ x.Due := by
  obtain ⟨htarget, hsum⟩ := h
  have hdelay := toNat_delay_lt x
  have hhalf : (1 <<< 15 : Nat) = 32768 := by decide
  rw [Timer.expired, decide_eq_true_iff, wrappingSubU16, hhalf, Started.Due]
  omega

/-- With overflow checks the interrupt traps at the top of the count. -/
theorem timer1Compa_spec (p : Profile) {s : TimerStatics} (htick : s.tickCount < 65536) :
    ((p.overflowChecks = true ∧ s.tickCount = 65535) ∧
      ∃ panic, Timer.timer1Compa p s = .error panic) ∨
    (¬ (p.overflowChecks = true ∧ s.tickCount = 65535) ∧
      Timer.timer1Compa p s = .ok (s.timerWaker, ⟨(s.tickCount + 1) % 65536, none⟩)) := by
  by_cases hroom : s.tickCount + 1 < 65536
  · right
    refine ⟨by omega, ?_⟩
    rw [Timer.timer1Compa, Profile.addU16, if_pos hroom, Nat.mod_eq_of_lt hroom]
    rfl
  · rw [Timer.timer1Compa, Profile.addU16, if_neg hroom]
    cases hchecks : p.overflowChecks with
    | true =>
      left
      exact ⟨⟨rfl, by omega⟩, .arithmeticOverflow, rfl⟩
    | false =>
      right
      exact ⟨nofun, rfl⟩

theorem timer1Compa_eq_ok {p : Profile} {s t : TimerStatics} {woken : Option Waker}
    (htick : s.tickCount < 65536) (h : Timer.timer1Compa p s = .ok (woken, t)) :
    woken = s.timerWaker ∧ t = ⟨(s.tickCount + 1) % 65536, none⟩ := by
  obtain ⟨-, panic, htraps⟩ | ⟨-, hcounts⟩ := timer1Compa_spec p htick
  · rw [htraps] at h
    cases h
  · rw [hcounts] at h
    cases h
    exact ⟨rfl, rfl⟩

structure Sound (s : State) : Prop where
  tick_lt : s.statics.tickCount < 65536
  onTime : ∀ x ∈ s.timers, OnTime s.statics.tickCount x
  storing : ∀ x w, s.storing = some (x, w) → ¬ x.Due
  answered : ∀ a ∈ s.answered, a.poll = .ready () ↔ a.of.Due
  waiting : ∀ w, s.waiting = some w → s.statics.timerWaker = some w

theorem start_sound (tickCount : UInt16) : Sound (start tickCount) := by
  constructor
  · exact tickCount.toNat_lt
  · intro x hx
    cases hx
  · intro x w h
    cases h
  · intro a ha
    cases ha
  · intro w h
    cases h

theorem delay_sound {s : State} (hs : Sound s) (delay : UInt16) :
    Sound { s with timers := s.timers ++ [⟨Timer.delay s.statics delay.toNat, delay, 0⟩] } := by
  refine ⟨hs.tick_lt, ?_, hs.storing, hs.answered, hs.waiting⟩
  intro x hx
  rcases List.mem_append.mp hx with hx | hx
  · exact hs.onTime x hx
  · rw [List.mem_singleton.mp hx]
    exact onTime_delay s.statics delay

theorem ready_sound {s : State} (hs : Sound s) {x : Started} (waker : Waker) (hx : x.Due) :
    Sound { s with answered := ⟨x, waker, .ready ()⟩ :: s.answered } := by
  refine ⟨hs.tick_lt, hs.onTime, hs.storing, ?_, hs.waiting⟩
  intro a ha
  rcases List.mem_cons.mp ha with rfl | ha
  · simp [hx]
  · exact hs.answered a ha

theorem read_sound {s : State} (hs : Sound s) {x : Started} (waker : Waker) (hx : ¬ x.Due) :
    Sound { s with storing := some (x, waker) } := by
  refine ⟨hs.tick_lt, hs.onTime, ?_, hs.answered, hs.waiting⟩
  intro y w h
  cases h
  exact hx

theorem pending_sound {s : State} (hs : Sound s) {x : Started} {waker : Waker}
    (h : s.storing = some (x, waker)) :
    Sound { s with
      statics := Timer.storeWaker s.statics waker
      storing := none
      answered := ⟨x, waker, .pending⟩ :: s.answered } := by
  have hx := hs.storing x waker h
  constructor
  · exact hs.tick_lt
  · exact hs.onTime
  · intro y w hy
    cases hy
  · intro a ha
    rcases List.mem_cons.mp ha with rfl | ha
    · simp [hx]
    · exact hs.answered a ha
  · intro w hw
    simpa [State.waiting, Timer.storeWaker] using hw

theorem tick_sound {s : State} (hs : Sound s) :
    Sound { s with
      statics := ⟨(s.statics.tickCount + 1) % 65536, none⟩
      interrupts := s.interrupts + 1
      timers := s.timers.map fun x => { x with elapsed := x.elapsed + 1 }
      answered := [] } := by
  constructor
  · exact Nat.mod_lt _ (by omega)
  · intro x hx
    obtain ⟨y, hy, rfl⟩ := List.mem_map.mp hx
    exact (hs.onTime y hy).tick
  · exact hs.storing
  · intro a ha
    cases ha
  · intro w hw
    cases hw

/-- One step: a poll decides by `Due`, whichever of its halves the interrupt falls between. -/
theorem step_sound {p : Profile} {s t : State} {act : Act} (hs : Sound s)
    (h : step p s act = some t) : Sound t := by
  unfold step at h
  split at h
  · cases h
  · cases act with
    | delay delay =>
      simp only at h
      split at h
      · cases h
        exact delay_sound hs delay
      · cases h
    | poll i waker =>
      simp only at h
      split at h
      · rename_i x _ hx
        have hiff := (hs.onTime x (List.mem_of_getElem? hx)).expired_iff hs.tick_lt
        split at h
        · rename_i hexpired
          cases h
          exact ready_sound hs waker (hiff.mp hexpired)
        · rename_i hexpired
          cases h
          exact read_sound hs waker (fun hdue => hexpired (hiff.mpr hdue))
      · cases h
    | storeWaker =>
      simp only at h
      split at h
      · rename_i x waker hstoring
        cases h
        exact pending_sound hs hstoring
      · cases h
    | timer1Compa =>
      simp only at h
      split at h
      · rename_i woken statics htick
        cases h
        rw [(timer1Compa_eq_ok hs.tick_lt htick).2]
        exact tick_sound hs
      · cases h
        exact ⟨hs.tick_lt, hs.onTime, hs.storing, hs.answered, hs.waiting⟩

theorem sound_of_reachable {p : Profile} {tickCount : UInt16} {s : State}
    (h : (system p tickCount).Reachable s) : Sound s := by
  apply System.Reachable.invariant (I := Sound) ?_ (fun _ _ _ hs h => step_sound hs h) h
  intro s hs
  rw [hs]
  exact start_sound tickCount

/-- The interrupts the counter has taken: plain addition stops at the 65536th value. -/
structure Counted (p : Profile) (tickCount : UInt16) (s : State) : Prop where
  running : s.trapped = false →
    s.statics.tickCount = (tickCount.toNat + s.interrupts) % 65536 ∧
      (p.overflowChecks = true → tickCount.toNat + s.interrupts ≤ 65535)
  trapped : s.trapped = true → p.overflowChecks = true ∧ tickCount.toNat + s.interrupts = 65536

theorem Counted.of_same {p : Profile} {tickCount : UInt16} {s t : State}
    (hs : Counted p tickCount s) (htrapped : t.trapped = s.trapped)
    (htick : t.statics.tickCount = s.statics.tickCount)
    (hinterrupts : t.interrupts = s.interrupts) :
    Counted p tickCount t := by
  constructor
  · rw [htrapped, htick, hinterrupts]
    exact hs.running
  · rw [htrapped, hinterrupts]
    exact hs.trapped

theorem step_counted {p : Profile} {tickCount : UInt16} {s t : State} {act : Act}
    (hs : Counted p tickCount s) (h : step p s act = some t) : Counted p tickCount t := by
  unfold step at h
  split at h
  · cases h
  · rename_i htrapped
    have hrunning : s.trapped = false := by simpa using htrapped
    obtain ⟨htick, hbound⟩ := hs.running hrunning
    cases act with
    | delay delay =>
      simp only at h
      split at h
      · cases h
        exact hs.of_same rfl rfl rfl
      · cases h
    | poll i waker =>
      simp only at h
      split at h
      · split at h
        · cases h
          exact hs.of_same rfl rfl rfl
        · cases h
          exact hs.of_same rfl rfl rfl
      · cases h
    | storeWaker =>
      simp only at h
      split at h
      · cases h
        exact hs.of_same rfl rfl rfl
      · cases h
    | timer1Compa =>
      simp only at h
      have hlt : s.statics.tickCount < 65536 := by omega
      obtain ⟨⟨hchecks, htop⟩, panic, htraps⟩ | ⟨hnot, hcounts⟩ := timer1Compa_spec p hlt
      · rw [htraps] at h
        cases h
        refine ⟨fun hfalse => (by cases hfalse), fun _ => ⟨hchecks, ?_⟩⟩
        have := hbound hchecks
        show tickCount.toNat + (s.interrupts + 1) = 65536
        omega
      · rw [hcounts] at h
        cases h
        refine ⟨fun _ => ⟨?_, ?_⟩, fun htrap => absurd htrap htrapped⟩
        · show (s.statics.tickCount + 1) % 65536 = (tickCount.toNat + (s.interrupts + 1)) % 65536
          omega
        · intro hchecks
          have := hbound hchecks
          have htop : s.statics.tickCount ≠ 65535 := fun htop => hnot ⟨hchecks, htop⟩
          show tickCount.toNat + (s.interrupts + 1) ≤ 65535
          omega

theorem counted_of_reachable {p : Profile} {tickCount : UInt16} {s : State}
    (h : (system p tickCount).Reachable s) : Counted p tickCount s := by
  apply System.Reachable.invariant (I := Counted p tickCount) ?_
    (fun _ _ _ hs h => step_counted hs h) h
  intro s hs
  have htick : tickCount.toNat < 65536 := tickCount.toNat_lt
  rw [hs]
  constructor
  · intro _
    constructor
    · exact (Nat.mod_eq_of_lt htick).symm
    · intro _
      exact Nat.le_of_lt_succ htick
  · intro htrap
    cases htrap

/-! ## Early answers -/

/-- A poll right after `Timer::delay` answers from the delay alone. -/
theorem poll_at_once (p : Profile) (tickCount delay : UInt16) (waker : Waker)
    (hdelay : 32768 < delay.toNat) :
    ∃ s, (system p tickCount).Reachable s ∧ ∃ timer,
      s.answered = [⟨⟨timer, delay, 0⟩, waker, .ready ()⟩] := by
  have hstart : (system p tickCount).Reachable (start tickCount) := .init rfl
  have htick : (start tickCount).statics.tickCount < 65536 := tickCount.toNat_lt
  have hexpired := ((onTime_delay (start tickCount).statics delay).expired_iff htick).mpr (by
    have := delay.toNat_lt
    show (0 + 65536 - delay.toNat) % 65536 < 32768
    omega)
  let timer := Timer.delay (start tickCount).statics delay.toNat
  let made : State := { start tickCount with timers := [⟨timer, delay, 0⟩] }
  let asked : State := { made with answered := [⟨⟨timer, delay, 0⟩, waker, .ready ()⟩] }
  have hmade : (system p tickCount).Reachable made :=
    .step (a := Act.delay delay) hstart trivial rfl
  have hpoll : step p made (.poll 0 waker) = some asked := by
    simp only [step, made, start, Bool.false_eq_true, if_false, List.getElem?_cons_zero]
    exact if_pos hexpired
  exact ⟨asked, .step hmade trivial hpoll, timer, rfl⟩

/-- No poll of a timer with this delay answers `Ready` before its delay is over, in any run,
if and only if the delay is at most half the range of the counter. -/
theorem never_early_iff (p : Profile) (tickCount delay : UInt16) :
    (∀ s, (system p tickCount).Reachable s → ∀ a ∈ s.answered, a.of.delay = delay →
        a.poll = .ready () → delay.toNat ≤ a.of.elapsed) ↔
      delay.toNat ≤ 32768 := by
  constructor
  · intro hnever
    by_contra hlong
    obtain ⟨s, hs, timer, hanswered⟩ := poll_at_once p tickCount delay 0 (by omega)
    have hzero := hnever s hs _ (by rw [hanswered]; exact List.mem_singleton_self _) rfl rfl
    have : delay.toNat ≤ 0 := hzero
    omega
  · intro hshort s hs a ha hdelay hready
    have hdue : a.of.Due := ((sound_of_reachable hs).answered a ha).mp hready
    unfold Started.Due at hdue
    rw [hdelay] at hdue
    omega

/-- A timer of 40000 interrupts is answered `Ready` before the first of them. -/
theorem never_early_fails : ∃ s, (system .release 0).Reachable s ∧
    ∃ a ∈ s.answered, a.of.delay = 40000 ∧ a.poll = .ready () ∧ a.of.elapsed = 0 := by
  obtain ⟨s, hs, hanswered⟩ := exists_reachable_of_runFun (f := step .release)
    [.delay 40000, .poll 0 7]
    (fun s => s.answered.any fun a =>
      a.of.delay == 40000 && a.poll == .ready () && a.of.elapsed == 0)
    (.init (M := system .release 0) rfl) (by decide)
  obtain ⟨a, ha, htest⟩ := List.any_eq_true.mp hanswered
  simp only [Bool.and_eq_true, beq_iff_eq] at htest
  exact ⟨s, hs, a, ha, htest.1.1, htest.1.2, htest.2⟩

/-! ## Exact answers -/

/-- Within half a range of its end a timer answers `Ready` exactly from its end on, and a
poll left pending has a waker in place, which the next interrupt takes out of the slot and
wakes. -/
theorem expiry_exact {tickCount : UInt16} {s : State}
    (h : (system .release tickCount).Reachable s) {a : Answered} (ha : a ∈ s.answered)
    (hdelay : a.of.delay.toNat ≤ 32768) (hwindow : a.of.elapsed < a.of.delay.toNat + 32768) :
    (a.poll = .ready () ↔ a.of.delay.toNat ≤ a.of.elapsed) ∧
      (a.poll = .pending → ∃ waker statics, s.waiting = some waker ∧
        Timer.timer1Compa .release s.statics = .ok (some waker, statics) ∧
        statics.timerWaker = none) := by
  have hsound := sound_of_reachable h
  constructor
  · rw [hsound.answered a ha, Started.Due]
    omega
  · intro hpending
    have hsome : s.waiting.isSome = true := by
      rw [State.waiting, Option.isSome_map, List.find?_isSome]
      exact ⟨a, ha, by rw [hpending]; rfl⟩
    obtain ⟨waker, hwaiting⟩ := Option.isSome_iff_exists.mp hsome
    have hstored := hsound.waiting waker hwaiting
    obtain ⟨⟨hchecks, -⟩, -⟩ | ⟨-, htick⟩ := timer1Compa_spec .release hsound.tick_lt
    · cases hchecks
    · rw [hstored] at htick
      exact ⟨waker, _, hwaiting, htick, rfl⟩

/-- Across a rollover: one interrupt into a delay of two, the counter has gone from 65535 to
zero and the poll leaves its waker. -/
theorem expiry_exact_rollover : ∃ s, (system .release 65535).Reachable s ∧
    ∃ a ∈ s.answered, a.of.elapsed = 1 ∧ a.of.delay = 2 ∧ a.poll = .pending ∧
      ¬ a.of.delay.toNat ≤ a.of.elapsed ∧
      ∃ waker statics, s.waiting = some waker ∧
        Timer.timer1Compa .release s.statics = .ok (some waker, statics) ∧
        statics.timerWaker = none := by
  obtain ⟨s, hs, htest⟩ := exists_reachable_of_runFun (f := step .release)
    [.delay 2, .timer1Compa, .poll 0 7, .storeWaker]
    (fun s => s.answered.any fun a => a.of.elapsed == 1 && a.of.delay == 2 && a.poll == .pending)
    (.init (M := system .release 65535) rfl) (by decide)
  obtain ⟨a, ha, htest⟩ := List.any_eq_true.mp htest
  simp only [Bool.and_eq_true, beq_iff_eq] at htest
  obtain ⟨⟨helapsed, hdelay⟩, hpoll⟩ := htest
  have hnat : a.of.delay.toNat = 2 := by
    rw [hdelay]
    rfl
  have hexact := expiry_exact hs ha (by omega) (by omega)
  exact ⟨s, hs, a, ha, helapsed, hdelay, hpoll, by omega, hexact.2 hpoll⟩

/-! ## The counter under checked arithmetic -/

/-- With overflow checks the counter follows the interrupts up to the last `u16`; the next
interrupt traps. -/
theorem uptime_iff {s : State} (h : (system .dev 0).Reachable s) :
    (s.trapped = false ∧ s.statics.tickCount = s.interrupts % 65536) ↔
      s.interrupts ≤ 65535 := by
  obtain ⟨hrunning, htrapped⟩ := counted_of_reachable h
  rw [UInt16.toNat_zero, Nat.zero_add] at hrunning htrapped
  constructor
  · rintro ⟨hfalse, -⟩
    exact (hrunning hfalse).2 rfl
  · intro hbound
    cases htrap : s.trapped with
    | false => exact ⟨rfl, (hrunning htrap).1⟩
    | true =>
      have := (htrapped htrap).2
      omega

theorem uptime_iff_two : ∃ s, (system .dev 0).Reachable s ∧ s.interrupts = 2 ∧
    s.trapped = false ∧ s.statics.tickCount = s.interrupts % 65536 := by
  obtain ⟨s, hs, htest⟩ := exists_reachable_of_runFun (f := step .dev)
    [.delay 1, .timer1Compa, .poll 0 7, .timer1Compa] (fun s => s.interrupts == 2)
    (.init (M := system .dev 0) rfl) (by decide)
  have htwo : s.interrupts = 2 := by simpa using htest
  exact ⟨s, hs, htwo, (uptime_iff hs).mpr (by omega)⟩

/-- Interrupts alone take the counter to any `u16`. -/
theorem reachable_after_interrupts (n : Nat) (hn : n ≤ 65535) :
    (system .dev 0).Reachable ⟨⟨n, none⟩, n, [], none, [], false⟩ := by
  induction n with
  | zero => exact .init rfl
  | succ n ih =>
    have hadd : Profile.dev.addU16 n 1 = .ok (n + 1) := if_pos (by omega)
    apply System.ReachedWhile.step (a := Act.timer1Compa) (ih (by omega)) trivial
    show step .dev _ .timer1Compa = _
    simp only [step, Timer.timer1Compa, hadd, Bool.false_eq_true, if_false]
    rfl

/-- The 65536th interrupt traps. -/
theorem uptime_fails : ∃ s, (system .dev 0).Reachable s ∧ s.interrupts = 65536 ∧
    s.trapped = true := by
  have hlast := reachable_after_interrupts 65535 (Nat.le_refl _)
  exact ⟨⟨⟨65535, none⟩, 65536, [], none, [], true⟩,
    .step (a := Act.timer1Compa) hlast trivial rfl, rfl, rfl⟩

end AvrBridge.TimerRuns
