import AvrBridge.BridgeLines
import AvrBridge.FirmwareProgress

/-! What a step of the program is to the tasks. A poll of the `Join` makes steps of `Firmware`,
the interrupts make the others, and what is left of the program the tasks do not see; so a run of
the program is a run of `Firmware`, and what holds there holds here. -/

namespace AvrBridge.Bridge

open Rust Lts Ft240x Firmware

variable {p : Profile} {autoClear rxfLow txeLow : Bool}

/-! ## What the tasks wait for -/

def WaitsTick : Ft240Task → Prop
  | .delay _ _ => True
  | _ => False

def WaitsRxf : Ft240Task → Prop
  | .read _ _ .canRead => True
  | _ => False

def WaitsTxe : Usart1Task → Prop
  | .greet .canWrite | .write _ _ .canWrite => True
  | _ => False

def WaitsByte : Usart1Task → Prop
  | .read _ _ (.canRead _) => True
  | _ => False

section Pending

variable {s t : Firmware.State}

/-- Of the futures of `ft240_reader_task` that are polled in one step only `Ft240xCanRead`
answers Pending: there is always a buffer, and the ring of the UART is always empty. -/
theorem ft240_pending {act : Ft240Act} (hinv : Firmware.Inv s) (hs : ft240Step p s act = some t)
    (hpolls : ft240Polls act = true) (hsame : t.ft240Task = s.ft240Task) :
    ∃ pins, act = .canRead pins ∧ WaitsRxf s.ft240Task ∧
      pollAnswer (Ft240x.canRead 0) pins = .pending := by
  have hwaits := ft240Step_awaits hs
  cases act with
  | request w =>
    have hlt := (whole_next hinv).1
    cases ht : s.ft240Task with
    | requestRx =>
      obtain ⟨capacity, pool, hreq, -, -⟩ := request_eq (p := p) hinv.pool hlt .slice w
      unfold ft240Step at hs
      simp only [ht, hreq] at hs
      cases hs
      rw [ht] at hsame
      cases hsame
    | requestTx rx =>
      obtain ⟨capacity, pool, hreq, -, -⟩ := request_eq (p := p) hinv.pool hlt .flatBuffer w
      unfold ft240Step at hs
      simp only [ht, hreq] at hs
      cases hs
      rw [ht] at hsame
      cases hsame
    | greet _ _ _ | delay _ _ | read _ _ _ | compose _ _ _ _ | write _ _ _ _ _ =>
      rw [ht] at hwaits
      cases hwaits
  | canWrite waker =>
    cases ht : s.ft240Task with
    | greet rx tx w =>
      cases w with
      | canWrite =>
        unfold ft240Step at hs
        simp only [ht, hinv.writer, await_new] at hs
        cases hs
        rw [ht] at hsame
        cases hsame
      | send | done _ =>
        rw [ht] at hwaits
        cases hwaits
    | write rx tx taken result w =>
      cases w with
      | canWrite =>
        unfold ft240Step at hs
        simp only [ht, hinv.writer, await_new] at hs
        cases hs
        rw [ht] at hsame
        cases hsame
      | send | done _ =>
        rw [ht] at hwaits
        cases hwaits
    | requestRx | requestTx _ | delay _ _ | read _ _ _ | compose _ _ _ _ =>
      rw [ht] at hwaits
      cases hwaits
  | canRead pins =>
    cases ht : s.ft240Task with
    | read rx tx r =>
      cases r with
      | canRead =>
        refine ⟨pins, rfl, trivial, ?_⟩
        unfold ft240Step at hs
        simp only [ht, UsbRead.await] at hs
        cases hs
        rw [ht] at hsame
        cases hans : pollAnswer (Ft240x.canRead 0) pins with
        | pending => rfl
        | ready answer =>
          rw [hans] at hsame
          cases answer with
          | ok _ => cases hsame
          | error _ => cases hsame
      | take | done _ =>
        rw [ht] at hwaits
        cases hwaits
    | requestRx | requestTx _ | greet _ _ _ | delay _ _ | compose _ _ _ _ | write _ _ _ _ _ =>
      rw [ht] at hwaits
      cases hwaits
  | send | delayed | take _ _ | compose => cases hpolls

/-- The top of the loop is no place to wait for the chip. -/
theorem nextReadTo_cases {rows : List (List UInt8)} {rx : Storage} {tx : TxBuffer}
    {task : Usart1Task} (h : nextReadTo rows rx tx = .ok task) :
    (∃ rx tx r, task = .read rx tx r) ∨ ∃ rx tx result, task = .compose rx tx result := by
  obtain ⟨row, -, h⟩ := bind_eq_ok.mp h
  obtain ⟨r, -, h⟩ := bind_eq_ok.mp h
  cases r with
  | canRead total =>
    cases h
    exact .inl ⟨_, _, _, rfl⟩
  | take total =>
    cases h
    exact .inl ⟨_, _, _, rfl⟩
  | done result =>
    cases h
    exact .inr ⟨_, _, _, rfl⟩

theorem usart1_pending {act : Usart1Act} (hinv : Firmware.Inv s) (hs : usart1Step p s act = some t)
    (hpolls : usart1Polls act = true) (hsame : t.usart1Task = s.usart1Task) :
    (∃ pins, act = .canWrite pins ∧ WaitsTxe s.usart1Task ∧
      pollAnswer (Ft240x.canWrite 0) pins = .pending) ∨
    (∃ w, act = .canRead w ∧ WaitsByte s.usart1Task ∧ t.reader.buffer.isEmpty = true ∧
      t.reader.waker = some w) := by
  have hwaits := usart1Step_awaits hs
  cases act with
  | canWrite pins =>
    refine .inl ⟨pins, rfl, ?_⟩
    cases ht : s.usart1Task with
    | greet w =>
      cases w with
      | canWrite =>
        refine ⟨trivial, ?_⟩
        unfold usart1Step at hs
        simp only [ht, UsbWrite.await] at hs
        cases hs
        rw [ht] at hsame
        cases hans : pollAnswer (Ft240x.canWrite 0) pins with
        | pending => rfl
        | ready answer =>
          rw [hans] at hsame
          cases answer with
          | ok _ => cases hsame
          | error _ => cases hsame
      | writing _ | done _ =>
        rw [ht] at hwaits
        cases hwaits
    | write rx tx w =>
      cases w with
      | canWrite =>
        refine ⟨trivial, ?_⟩
        unfold usart1Step at hs
        simp only [ht, UsbWrite.await] at hs
        cases hans : pollAnswer (Ft240x.canWrite 0) pins with
        | pending => rfl
        | ready answer =>
          rw [hans] at hs
          cases answer with
          | ok _ =>
            cases hs
            rw [ht] at hsame
            cases hsame
          | error _ =>
            obtain ⟨task, htask, hs⟩ := Option.bind_eq_some_iff.mp hs
            cases hs
            rw [ht] at hsame
            obtain ⟨_, _, _, heq⟩ | ⟨_, _, _, heq⟩ := nextReadTo_cases (toOption_eq_some.mp htask)
            · rw [heq] at hsame
              cases hsame
            · rw [heq] at hsame
              cases hsame
      | writing _ | done _ =>
        rw [ht] at hwaits
        cases hwaits
    | requestRx | requestTx _ | read _ _ _ | compose _ _ _ =>
      rw [ht] at hwaits
      cases hwaits
  | request w =>
    have hlt := (whole_next hinv).1
    cases ht : s.usart1Task with
    | requestRx =>
      obtain ⟨capacity, pool, hreq, -, -⟩ := request_eq (p := p) hinv.pool hlt .slice w
      unfold usart1Step at hs
      simp only [ht, hreq] at hs
      cases hs
      rw [ht] at hsame
      cases hsame
    | requestTx rx =>
      obtain ⟨capacity, pool, hreq, -, -⟩ := request_eq (p := p) hinv.pool hlt .flatBuffer w
      unfold usart1Step at hs
      simp only [ht, hreq] at hs
      obtain ⟨⟨storage, pool'⟩, hst, hs⟩ := Option.bind_eq_some_iff.mp hs
      cases hst
      obtain ⟨task, htask, hs⟩ := Option.bind_eq_some_iff.mp hs
      cases hs
      rw [ht] at hsame
      obtain ⟨_, _, _, heq⟩ | ⟨_, _, _, heq⟩ := nextReadTo_cases (toOption_eq_some.mp htask)
      · rw [heq] at hsame
        cases hsame
      · rw [heq] at hsame
        cases hsame
    | greet _ | read _ _ _ | compose _ _ _ | write _ _ _ =>
      rw [ht] at hwaits
      cases hwaits
  | canRead w =>
    refine .inr ⟨w, rfl, ?_⟩
    cases ht : s.usart1Task with
    | read rx tx r =>
      cases r with
      | canRead total =>
        refine ⟨trivial, ?_⟩
        unfold usart1Step at hs
        by_cases hlen : s.reader.buffer.len > 0
        · simp only [ht, UartReadTo.await, UsartReader.canRead, if_pos hlen] at hs
          cases hs
          rw [ht] at hsame
          cases hsame
        · simp only [ht, UartReadTo.await, UsartReader.canRead, if_neg hlen] at hs
          cases hs
          refine ⟨?_, rfl⟩
          show (s.reader.buffer.len == 0) = true
          rw [beq_iff_eq]
          omega
      | take _ | done _ =>
        rw [ht] at hwaits
        cases hwaits
    | greet _ | requestRx | requestTx _ | compose _ _ _ | write _ _ _ =>
      rw [ht] at hwaits
      cases hwaits
  | strobe _ | take | compose => cases hpolls

end Pending

/-! ## What a step of a task does -/

section Steps

variable {e e' : Env}

/-- `ft240_reader_task` has made this step; it gives way only behind a poll that left it where
it was. -/
structure Ft240Goes (p : Profile) (e : Env) (act : Ft240Act) (e' : Env) : Prop where
  step : ft240Step p e.firmware act = some e'.firmware
  turn : e'.turn = .ft240 ∨ (e'.turn = .usart1 ∧ ft240Polls act = true ∧
    e'.firmware.ft240Task = e.firmware.ft240Task)
  moves : ft240Polls act = true → e'.turn = .ft240 →
    e'.firmware.ft240Task ≠ e.firmware.ft240Task
  timer : e'.timer = e.timer
  trapped : e'.trapped = e.trapped

structure Usart1Goes (p : Profile) (e : Env) (act : Usart1Act) (e' : Env) : Prop where
  step : usart1Step p e.firmware act = some e'.firmware
  turn : e'.turn = .usart1 ∨ (e'.turn = .done ∧ usart1Polls act = true ∧
    e'.firmware.usart1Task = e.firmware.usart1Task)
  moves : usart1Polls act = true → e'.turn = .usart1 →
    e'.firmware.usart1Task ≠ e.firmware.usart1Task
  timer : e'.timer = e.timer
  delay : e'.delay = e.delay
  trapped : e'.trapped = e.trapped

theorem ft240_goes {act : Ft240Act} (h : e.ft240 p act = some e') :
    Ft240Goes p e act e' ∧ e'.usb = e.usb ∧ e'.delay = e.delay := by
  obtain ⟨t, ht, h⟩ := Option.bind_eq_some_iff.mp h
  cases h
  refine ⟨⟨ht, ?_, ?_, rfl, rfl⟩, rfl, rfl⟩
  · cases hpending : ft240Polls act && t.ft240Task == e.firmware.ft240Task with
    | false => exact .inl rfl
    | true =>
      rw [Bool.and_eq_true, beq_iff_eq] at hpending
      exact .inr ⟨rfl, hpending⟩
  · intro hpolls hturn hsame
    simp [hpolls] at hturn
    exact hturn hsame

theorem usart1_goes {act : Usart1Act} (h : e.usart1 p act = some e') :
    Usart1Goes p e act e' ∧ e'.usb = e.usb := by
  obtain ⟨t, ht, h⟩ := Option.bind_eq_some_iff.mp h
  cases h
  refine ⟨⟨ht, ?_, ?_, rfl, rfl, rfl⟩, rfl⟩
  · cases hpending : usart1Polls act && t.usart1Task == e.firmware.usart1Task with
    | false => exact .inl rfl
    | true =>
      rw [Bool.and_eq_true, beq_iff_eq] at hpending
      exact .inr ⟨rfl, hpending⟩
  · intro hpolls hturn hsame
    simp [hpolls] at hturn
    exact hturn hsame

/-- The delay ends with a poll that finds its tick, and no other step of the task touches it. -/
def DelayGoes (e : Env) (act : Ft240Act) (e' : Env) : Prop :=
  (act = .delayed ∧ e'.delay = .none ∧
    ∃ timer, e.delay = .polls timer ∧ timer.expired e.timer.tickCount = true) ∨
  (act ≠ .delayed ∧ e'.delay = e.delay)

/-- **What a step of `ft240_reader_task` does.** -/
inductive Ft240Moves (p : Profile) (autoClear : Bool) (e : Env) : Ft240Work → Env → Prop
  | goes {w : Ft240Work} {e' : Env} (act : Ft240Act) (goes : Ft240Goes p e act e')
      (hact : ∀ pins, act ≠ .canRead pins) (hw : w ≠ .delay)
      (usb : Keeps autoClear e.usb e'.usb) (delay : DelayGoes e act e') :
      Ft240Moves p autoClear e w e'
  | polls {e' : Env} (sense falls : Bool)
      (goes : Ft240Goes p e (.canRead (e.usb.levels sense)) e')
      (usb : runFun (Ft240x.step autoClear) e.usb (pollActs .rxf (e.usb.levels sense) falls) =
        some e'.usb) (delay : e'.delay = e.delay) :
      Ft240Moves p autoClear e (.canRead sense falls) e'
  | makesDelay (task : WaitsTick e.firmware.ft240Task) (delay : e.delay = .none) :
      Ft240Moves p autoClear e .delay { e with delay := .polls (Timer.delay e.timer 1000) }
  | readsTick (timer : Timer) (delay : e.delay = .polls timer) :
      Ft240Moves p autoClear e .readTick { e with delay := .storing timer }
  | storesWaker (timer : Timer) (delay : e.delay = .storing timer) :
      Ft240Moves p autoClear e .storeWaker { e with
        timer := Timer.storeWaker e.timer signalWaker
        delay := .polls timer
        turn := .usart1 }

theorem ft240Work_moves {w : Ft240Work} (hmain : e.usb.pc = .main)
    (hs : ft240Work p autoClear e w = some e') : Ft240Moves p autoClear e w e' := by
  cases w with
  | plain act =>
    simp only [ft240Work] at hs
    split at hs
    · rename_i hplain
      obtain ⟨hgoes, husb, hdelay⟩ := ft240_goes hs
      refine .goes act hgoes ?_ nofun (keeps_self hmain husb) (.inr ⟨?_, hdelay⟩)
      · rintro pins rfl
        simp [ft240Plain] at hplain
      · rintro rfl
        simp [ft240Plain] at hplain
    · cases hs
  | canRead sense falls =>
    obtain ⟨usb, husb, hs⟩ := Option.bind_eq_some_iff.mp hs
    obtain ⟨hgoes, husb', hdelay⟩ := ft240_goes hs
    exact .polls sense falls ⟨hgoes.step, hgoes.turn, hgoes.moves, hgoes.timer, hgoes.trapped⟩
      (husb' ▸ husb) hdelay
  | take sense strobes =>
    obtain ⟨usb, husb, hs⟩ := Option.bind_eq_some_iff.mp hs
    obtain ⟨u, hu, hs⟩ := Option.bind_eq_some_iff.mp hs
    obtain ⟨hgoes, husb', hdelay⟩ := ft240_goes hu
    split at hs
    · split at hs
      · cases hs
        refine .goes (.take sense (strobes.map (·.1)))
          ⟨hgoes.step, hgoes.turn, hgoes.moves, hgoes.timer, hgoes.trapped⟩ nofun
          nofun (husb' ▸ keeps_strobes hmain husb) (.inr ⟨nofun, hdelay⟩)
      · cases hs
    · cases hs
  | delay =>
    simp only [ft240Work] at hs
    split at hs
    · rename_i htask hdelay
      cases hs
      refine .makesDelay ?_ hdelay
      rw [htask]
      trivial
    · cases hs
  | readTick =>
    simp only [ft240Work] at hs
    split at hs
    · rename_i timer hdelay
      split at hs
      · rename_i hexpired
        obtain ⟨hgoes, husb, hnone⟩ := ft240_goes hs
        exact .goes .delayed
          ⟨hgoes.step, hgoes.turn, hgoes.moves, hgoes.timer, hgoes.trapped⟩ nofun nofun
          (keeps_self hmain husb) (.inl ⟨rfl, hnone, timer, hdelay, hexpired⟩)
      · cases hs
        exact .readsTick timer hdelay
    · cases hs
  | storeWaker =>
    simp only [ft240Work] at hs
    split at hs
    · rename_i timer hdelay
      cases hs
      exact .storesWaker timer hdelay
    · cases hs

/-- **What a step of `usart1_reader_task` does.** -/
inductive Usart1Moves (p : Profile) (autoClear : Bool) (e : Env) : Usart1Work → Env → Prop
  | goes {w : Usart1Work} {e' : Env} (act : Usart1Act) (goes : Usart1Goes p e act e')
      (hact : ∀ pins, act ≠ .canWrite pins) (usb : Keeps autoClear e.usb e'.usb) :
      Usart1Moves p autoClear e w e'
  | polls {e' : Env} (sense falls : Bool)
      (goes : Usart1Goes p e (.canWrite (e.usb.levels sense)) e')
      (usb : runFun (Ft240x.step autoClear) e.usb (pollActs .txe (e.usb.levels sense) falls) =
        some e'.usb) :
      Usart1Moves p autoClear e (.canWrite sense falls) e'

theorem usart1Work_moves {w : Usart1Work} (hmain : e.usb.pc = .main)
    (hs : usart1Work p autoClear e w = some e') : Usart1Moves p autoClear e w e' := by
  cases w with
  | plain act =>
    simp only [usart1Work] at hs
    split at hs
    · rename_i hplain
      obtain ⟨hgoes, husb⟩ := usart1_goes hs
      refine .goes act hgoes ?_ (keeps_self hmain husb)
      rintro pins rfl
      simp [usart1Plain] at hplain
    · cases hs
  | canWrite sense falls =>
    obtain ⟨usb, husb, hs⟩ := Option.bind_eq_some_iff.mp hs
    obtain ⟨hgoes, husb'⟩ := usart1_goes hs
    exact .polls sense falls
      ⟨hgoes.step, hgoes.turn, hgoes.moves, hgoes.timer, hgoes.delay, hgoes.trapped⟩ (husb' ▸ husb)
  | strobe sense edges =>
    obtain ⟨usb, husb, hs⟩ := Option.bind_eq_some_iff.mp hs
    obtain ⟨hgoes, husb'⟩ := usart1_goes hs
    exact .goes (.strobe (usb.levels sense))
      ⟨hgoes.step, hgoes.turn, hgoes.moves, hgoes.timer, hgoes.delay, hgoes.trapped⟩
      nofun (husb' ▸ keeps_quiet (strobeActs_quiet .txe edges) hmain husb)

/-! ## The program is a run of `Firmware` -/

structure Sound (p : Profile) (e : Env) : Prop where
  firmware : (Firmware.system p).Reachable e.firmware
  main : e.usb.pc = .main
  delay : e.delay ≠ .none → WaitsTick e.firmware.ft240Task

theorem awaits_delayed {task : Ft240Task} {act : Ft240Act} (h : WaitsTick task)
    (hwaits : task.Awaits act) : act = .delayed := by
  cases task with
  | delay rx tx =>
    cases act with
    | delayed => rfl
    | request _ | canWrite _ | send | canRead _ | take _ _ | compose => cases hwaits
  | requestRx | requestTx _ | greet _ _ _ | read _ _ _ | compose _ _ _ _ | write _ _ _ _ _ =>
    cases h

theorem Ft240Goes.sound {act : Ft240Act} (hgoes : Ft240Goes p e act e') (h : Sound p e)
    (hmain : e'.usb.pc = .main) (hdelay : DelayGoes e act e') : Sound p e' := by
  refine ⟨?_, hmain, ?_⟩
  · have hstep : Firmware.step p e.firmware (.ft240 act) = some e'.firmware := hgoes.step
    exact .step h.firmware trivial hstep
  · intro hsome
    rcases hdelay with ⟨-, hnone, -⟩ | ⟨hact, hsame⟩
    · exact absurd hnone hsome
    · rw [hsame] at hsome
      exact absurd (awaits_delayed (h.delay hsome) (ft240Step_awaits hgoes.step)) hact

theorem Usart1Goes.sound {act : Usart1Act} (hgoes : Usart1Goes p e act e') (h : Sound p e)
    (hmain : e'.usb.pc = .main) : Sound p e' := by
  refine ⟨?_, hmain, ?_⟩
  · have hstep : Firmware.step p e.firmware (.usart1 act) = some e'.firmware := hgoes.step
    exact .step h.firmware trivial hstep
  · rw [hgoes.delay, (usart1Step_cases hgoes.step).1.ft240Task]
    exact h.delay

/-- What a step within a poll is. -/
theorem work_cases {w : Work} {wakes : Bool} (hmain : e.usb.pc = .main)
    (hs : work p autoClear e w = some (wakes, e')) :
    (∃ w', w = .ft240 w' ∧ e.turn = .ft240 ∧ Ft240Moves p autoClear e w' e') ∨
      ∃ w', w = .usart1 w' ∧ e.turn = .usart1 ∧ Usart1Moves p autoClear e w' e' := by
  cases w with
  | ft240 w' =>
    by_cases hturn : e.turn = .ft240
    · simp only [work, if_pos hturn] at hs
      obtain ⟨u, hu, hs⟩ := Option.bind_eq_some_iff.mp hs
      cases hs
      exact .inl ⟨w', rfl, hturn, ft240Work_moves hmain hu⟩
    · simp only [work, if_neg hturn] at hs
      cases hs
  | usart1 w' =>
    by_cases hturn : e.turn = .usart1
    · simp only [work, if_pos hturn] at hs
      obtain ⟨u, hu, hs⟩ := Option.bind_eq_some_iff.mp hs
      cases hs
      exact .inr ⟨w', rfl, hturn, usart1Work_moves hmain hu⟩
    · simp only [work, if_neg hturn] at hs
      cases hs

theorem sound_work {w : Work} {wakes : Bool} (h : Sound p e)
    (hs : work p autoClear e w = some (wakes, e')) : Sound p e' := by
  obtain ⟨w', -, -, hmoves⟩ | ⟨w', -, -, hmoves⟩ := work_cases h.main hs
  · cases hmoves with
    | goes act hgoes hact hw husb hdelay => exact hgoes.sound h husb.main hdelay
    | polls sense falls hgoes husb hdelay =>
      obtain ⟨usb, hrun, hsection, -⟩ := exists_polled autoClear h.main .rxf sense falls
      rw [husb] at hrun
      cases hrun
      exact hgoes.sound h hsection.main (.inr ⟨nofun, hdelay⟩)
    | makesDelay htask hdelay => exact ⟨h.firmware, h.main, fun _ => htask⟩
    | readsTick timer hdelay =>
      refine ⟨h.firmware, h.main, fun _ => h.delay ?_⟩
      rw [hdelay]
      exact nofun
    | storesWaker timer hdelay =>
      refine ⟨h.firmware, h.main, fun _ => h.delay ?_⟩
      rw [hdelay]
      exact nofun
  · cases hmoves with
    | goes act hgoes hact husb => exact hgoes.sound h husb.main
    | polls sense falls hgoes husb =>
      obtain ⟨usb, hrun, hsection, -⟩ := exists_polled autoClear h.main .txe sense falls
      rw [husb] at hrun
      cases hrun
      exact hgoes.sound h hsection.main

/-- **What an interrupt does.** It leaves the tasks where they are, and each of the places where
they left wakers as it was, unless it is the interrupt of that place. -/
structure Interrupted (p : Profile) (e : Env) (wakes : Bool) (e' : Env) : Prop where
  firmware : e'.firmware = e.firmware ∨ ∃ act, Firmware.step p e.firmware act = some e'.firmware
  ft240Task : e'.firmware.ft240Task = e.firmware.ft240Task
  usart1Task : e'.firmware.usart1Task = e.firmware.usart1Task
  main : e'.usb.pc = .main
  delay : e'.delay = e.delay
  turn : e'.turn = e.turn
  timer : e'.timer = e.timer ∨ wakes = e.timer.timerWaker.isSome
  reader : e'.firmware.reader = e.firmware.reader ∨ wakes = e.firmware.reader.waker.isSome
  lines : ∀ l, (e'.usb.side l).waiting = (e.usb.side l).waiting ∨
    wakes = (e.usb.side l).waker.isSome

theorem woken_of_tick {waker : Option Waker} {timer timer' : TimerStatics}
    (h : Timer.timer1Compa p timer = .ok (waker, timer')) : waker = timer.timerWaker := by
  obtain ⟨count, -, heq⟩ := bind_eq_ok.mp h
  cases heq
  rfl

theorem interrupt_does {i : Interrupt} {wakes : Bool} (hmain : e.usb.pc = .main)
    (hs : interrupt p autoClear e i = some (wakes, e')) : Interrupted p e wakes e' := by
  cases i with
  | usart1Rx byte =>
    cases hs
    exact ⟨.inr ⟨.usart1Rx byte, rfl⟩, rfl, rfl, hmain, rfl, rfl, .inl rfl, .inr rfl,
      fun _ => .inl rfl⟩
  | usart1Udre =>
    obtain ⟨t, ht, hs⟩ := Option.bind_eq_some_iff.mp hs
    cases hs
    have ht' := ht
    simp only [Firmware.step] at ht'
    split at ht'
    · cases ht'
    · cases ht'
      exact ⟨.inr ⟨.usart1Udre, ht⟩, rfl, rfl, hmain, rfl, rfl, .inl rfl, .inl rfl,
        fun _ => .inl rfl⟩
  | timer1Compa =>
    simp only [interrupt] at hs
    split at hs
    · rename_i waker timer htick
      cases hs
      exact ⟨.inl rfl, rfl, rfl, hmain, rfl, rfl,
        .inr (congrArg Option.isSome (woken_of_tick htick)), .inl rfl, fun _ => .inl rfl⟩
    · cases hs
      exact ⟨.inl rfl, rfl, rfl, hmain, rfl, rfl, .inl rfl, .inl rfl, fun _ => .inl rfl⟩
  | line line falls =>
    obtain ⟨usb, husb, hs⟩ := Option.bind_eq_some_iff.mp hs
    cases hs
    have hsection := served_of_run hmain husb
    refine ⟨.inl rfl, rfl, rfl, hsection.main, rfl, rfl, .inl rfl, .inl rfl, ?_⟩
    intro l
    by_cases hl : l = line
    · rw [hl]
      exact .inr rfl
    · exact .inl (hsection.other l hl)

theorem sound_interrupt {i : Interrupt} {wakes : Bool} (h : Sound p e)
    (hs : interrupt p autoClear e i = some (wakes, e')) : Sound p e' := by
  have hleaves := interrupt_does h.main hs
  refine ⟨?_, hleaves.main, ?_⟩
  · rcases hleaves.firmware with heq | ⟨act, hstep⟩
    · rw [heq]
      exact h.firmware
    · exact .step h.firmware trivial hstep
  · rw [hleaves.delay, hleaves.ft240Task]
    exact h.delay

end Steps

/-- The processor makes a step only until a routine panics, and then one of the executor. -/
theorem run_step {s t : State} {act : Executor.Act Work Interrupt}
    (hs : step p autoClear s (.run act) = some t) :
    s.env.trapped = false ∧ Executor.step (program p autoClear) s act = some t := by
  simp only [step] at hs
  split at hs
  · cases hs
  · rename_i hgoes
    exact ⟨Bool.eq_false_iff.mpr hgoes, hs⟩

theorem step_run {s : State} (h : s.env.trapped = false) (act : Executor.Act Work Interrupt) :
    step p autoClear s (.run act) = Executor.step (program p autoClear) s act := by
  rw [step, h]
  rfl

theorem sound_step {s t : State} {act : Act} (h : Sound p s.env)
    (hs : step p autoClear s act = some t) : Sound p t.env := by
  cases act with
  | run act =>
    obtain ⟨-, -, ⟨-, rfl⟩ | ⟨-, rfl⟩⟩ | ⟨w, wakes, env, -, -, hw, rfl⟩ |
      ⟨answer, pc, -, -, -, -, rfl⟩ | ⟨-, -, rfl⟩ | ⟨i, wakes, env, -, hint, rfl⟩ :=
      Executor.step_cases (run_step hs).2
    · exact ⟨h.firmware, h.main, h.delay⟩
    · exact h
    · exact sound_work h hw
    · exact h
    · exact h
    · exact sound_interrupt h hint
  | edge edge =>
    obtain ⟨usb, husb, hs⟩ := Option.bind_eq_some_iff.mp hs
    cases hs
    have hquiet : Quiet edge.act := by
      cases edge <;> trivial
    exact ⟨h.firmware, (quiet_step hquiet h.main husb).2.1, h.delay⟩

/-- A step of a task is one within a poll. -/
theorem run_work {s t : State} {w : Work} (hs : step p autoClear s (.run (.work w)) = some t) :
    ∃ wakes e, s.pc = .polling ∧ work p autoClear s.env w = some (wakes, e) ∧
      t = ⟨.polling, s.signal || wakes, e⟩ := by
  have hrun := (run_step hs).2
  obtain ⟨heq, -⟩ | ⟨w', wakes, e, heq, hpc, hw, ht⟩ | ⟨_, _, heq, -⟩ | ⟨heq, -⟩ |
    ⟨_, _, _, heq, -⟩ := Executor.step_cases hrun
  · cases heq
  · cases heq
    exact ⟨wakes, e, hpc, hw, ht⟩
  · cases heq
  · cases heq
  · cases heq

/-- `Join` never answers Ready. -/
theorem pc_step {s t : State} {act : Act} (h : s.pc ≠ .finished)
    (hs : step p autoClear s act = some t) : t.pc ≠ .finished := by
  cases act with
  | run act =>
    obtain ⟨-, -, ⟨-, rfl⟩ | ⟨-, rfl⟩⟩ | ⟨w, wakes, env, -, -, -, rfl⟩ |
      ⟨answer, pc, rfl, hpolling, hanswer, hpc, rfl⟩ | ⟨-, -, rfl⟩ | ⟨i, wakes, env, -, -, rfl⟩ :=
      Executor.step_cases (run_step hs).2
    · intro hpc
      cases hpc
    · exact h
    · intro hpc
      cases hpc
    · have hpending : answer = .pending := by
        change (if s.env.turn = .done then some Poll.pending else none) = some answer at hanswer
        split at hanswer
        · cases hanswer
          rfl
        · cases hanswer
      rw [hpending] at hanswer
      have hrun := (run_step hs).2
      simp only [Executor.step, hpolling, hanswer] at hrun
      cases hrun
      intro hpc
      cases hpc
    · intro hpc
      cases hpc
    · show (if s.pc = .asleep then Executor.Pc.top else s.pc) ≠ .finished
      split
      · intro hpc
        cases hpc
      · exact h
  | edge edge =>
    obtain ⟨usb, -, hs⟩ := Option.bind_eq_some_iff.mp hs
    cases hs
    exact h

/-! ## Runs of the program -/

theorem sound_of_reachable {s : State} (h : (system p autoClear rxfLow txeLow).Reachable s) :
    Sound p s.env ∧ s.pc ≠ .finished := by
  refine System.Reachable.invariant (I := fun s => Sound p s.env ∧ s.pc ≠ .finished) ?_ ?_ h
  · rintro s rfl
    exact ⟨⟨.init rfl, rfl, fun hdelay => absurd rfl hdelay⟩, nofun⟩
  · rintro s act t ⟨hsound, hpc⟩ hs
    exact ⟨sound_step hsound hs, pc_step hpc hs⟩

/-- The first poll of the program with a chip that takes every byte: both greetings, then the one
task waits for its delay and the other for a byte. -/
def greetings : List Act :=
  [.run .swap] ++
  ([.plain (.request signalWaker), .plain (.request signalWaker), .plain (.canWrite signalWaker),
    .plain .send, .delay, .readTick, .storeWaker] : List Ft240Work).map
      (fun w => .run (.work (.ft240 w))) ++
  ([.canWrite true false] ++ List.replicate 22 (.strobe true []) ++
    [.plain (.request signalWaker), .plain (.request signalWaker),
      .plain (.canRead signalWaker)] : List Usart1Work).map (fun w => .run (.work (.usart1 w))) ++
  [.run .answer]

end AvrBridge.Bridge
