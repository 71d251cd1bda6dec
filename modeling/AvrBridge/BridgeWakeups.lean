import AvrBridge.BridgeProgress

/-! The wakeups of the program. While SIGNAL is clear between two polls of the executor, both
tasks wait, and whatever brings what one of them waits for sets SIGNAL. A poll keeps this for the
tasks it is through with, as long as no line falls in the window of its own poll. -/

namespace AvrBridge.Bridge

open Rust Lts Ft240x Firmware

variable {p : Profile} {autoClear rxfLow txeLow : Bool}

/-- No line falls in the window of its own poll. -/
def OutsideWindow (_ : State) : Act → Prop
  | .run (.work (.ft240 (.canRead _ falls))) => falls = false
  | .run (.work (.usart1 (.canWrite _ falls))) => falls = false
  | _ => True

instance (s : State) (act : Act) : Decidable (OutsideWindow s act) := by
  unfold OutsideWindow
  split <;> infer_instance

/-- `ft240_reader_task` waits, and what it waits for finds its waker. -/
def Ft240Waits (e : Env) : Prop :=
  (WaitsTick e.firmware.ft240Task ∧ e.timer.timerWaker.isSome = true) ∨
  (WaitsRxf e.firmware.ft240Task ∧ e.usb.rxf.waiting = some signalWaker)

def Usart1Waits (e : Env) : Prop :=
  (WaitsTxe e.firmware.usart1Task ∧ e.usb.txe.waiting = some signalWaker) ∨
  (WaitsByte e.firmware.usart1Task ∧ e.firmware.reader.buffer.isEmpty = true ∧
    e.firmware.reader.waker.isSome = true)

/-- The tasks that a poll at this turn is through with wait. -/
def Behind (e : Env) : Turn → Prop
  | .ft240 => True
  | .usart1 => Ft240Waits e
  | .done => Ft240Waits e ∧ Usart1Waits e

section Steps

variable {e e' : Env}

/-! ## The steps of the tasks -/

/-- `usart1_reader_task` leaves what the other task waits for. -/
theorem ft240Waits_usart1 {w : Usart1Work} (hmain : e.usb.pc = .main)
    (hmoves : Usart1Moves p autoClear e w e') (h : Ft240Waits e) : Ft240Waits e' := by
  have hkeeps : e'.firmware.ft240Task = e.firmware.ft240Task ∧ e'.timer = e.timer ∧
      e'.usb.rxf.waiting = e.usb.rxf.waiting := by
    cases hmoves with
    | goes act hgoes hact husb =>
      exact ⟨(usart1Step_cases hgoes.step).1.ft240Task, hgoes.timer, husb.waiting .rxf⟩
    | polls sense falls hgoes husb =>
      obtain ⟨usb, hrun, hsection, -⟩ := exists_polled autoClear hmain .txe sense falls
      rw [husb] at hrun
      cases hrun
      exact ⟨(usart1Step_cases hgoes.step).1.ft240Task, hgoes.timer, hsection.other .rxf nofun⟩
  obtain ⟨htask, htimer, hwaiting⟩ := hkeeps
  unfold Ft240Waits
  rw [htask, htimer, hwaiting]
  exact h

/-- When `ft240_reader_task` gives way, it waits. -/
theorem behind_ft240 {w : Ft240Work} (h : Sound p e) (hturn : e.turn = .ft240)
    (hmoves : Ft240Moves p autoClear e w e') : Behind e' e'.turn := by
  have hinv := inv_reachable h.firmware
  cases hmoves with
  | goes act hgoes hact hw husb hdelay =>
    rcases hgoes.turn with hsame | ⟨-, hpolls, htask⟩
    · rw [hsame]
      trivial
    · obtain ⟨pins, rfl, -⟩ := ft240_pending hinv hgoes.step hpolls htask
      exact absurd rfl (hact pins)
  | polls sense falls hgoes husb hdelay =>
    rcases hgoes.turn with hsame | ⟨hnext, hpolls, htask⟩
    · rw [hsame]
      trivial
    · obtain ⟨pins, hpins, hwaits, hanswer⟩ := ft240_pending hinv hgoes.step hpolls htask
      cases hpins
      obtain ⟨usb, hrun, -, hwaiting⟩ := exists_polled autoClear h.main .rxf sense falls
      rw [husb] at hrun
      cases hrun
      rw [(pollAnswer_eq_pending e.usb .rxf sense).mp hanswer] at hwaiting
      rw [hnext]
      refine .inr ⟨?_, hwaiting⟩
      rw [htask]
      exact hwaits
  | makesDelay htask hdelay =>
    show Behind _ e.turn
    rw [hturn]
    trivial
  | readsTick timer hdelay =>
    show Behind _ e.turn
    rw [hturn]
    trivial
  | storesWaker timer hdelay =>
    refine .inl ⟨h.delay ?_, rfl⟩
    rw [hdelay]
    exact nofun

theorem behind_usart1 {w : Usart1Work} (h : Sound p e) (hbehind : Ft240Waits e)
    (hmoves : Usart1Moves p autoClear e w e') : Behind e' e'.turn := by
  have hinv := inv_reachable h.firmware
  have hft240 := ft240Waits_usart1 h.main hmoves hbehind
  cases hmoves with
  | goes act hgoes hact husb =>
    rcases hgoes.turn with hsame | ⟨hnext, hpolls, htask⟩
    · rw [hsame]
      exact hft240
    · obtain ⟨pins, rfl, -⟩ | ⟨waker, -, hwaits, hempty, hwaker⟩ :=
        usart1_pending hinv hgoes.step hpolls htask
      · exact absurd rfl (hact pins)
      · rw [hnext]
        refine ⟨hft240, .inr ⟨?_, hempty, ?_⟩⟩
        · rw [htask]
          exact hwaits
        · rw [hwaker]
          rfl
  | polls sense falls hgoes husb =>
    rcases hgoes.turn with hsame | ⟨hnext, hpolls, htask⟩
    · rw [hsame]
      exact hft240
    · obtain ⟨pins, hpins, hwaits, hanswer⟩ | ⟨waker, hwaker, -⟩ :=
        usart1_pending hinv hgoes.step hpolls htask
      · cases hpins
        obtain ⟨usb, hrun, -, hwaiting⟩ := exists_polled autoClear h.main .txe sense falls
        rw [husb] at hrun
        cases hrun
        rw [(pollAnswer_eq_pending e.usb .txe sense).mp hanswer] at hwaiting
        rw [hnext]
        refine ⟨hft240, .inl ⟨?_, hwaiting⟩⟩
        rw [htask]
        exact hwaits
      · cases hwaker

/-! ## The interrupts -/

/-- An interrupt that wakes nobody leaves who waits. -/
theorem ft240Waits_interrupt {i : Interrupt} (hlines : Lines autoClear rxfLow txeLow e.usb)
    (hs : interrupt p autoClear e i = some (false, e')) (h : Ft240Waits e) : Ft240Waits e' := by
  have hdoes := interrupt_does hlines.main hs
  unfold Ft240Waits
  rw [hdoes.ft240Task]
  rcases h with ⟨htask, hwaker⟩ | ⟨htask, hwaiting⟩
  · rcases hdoes.timer with hsame | hwakes
    · rw [hsame]
      exact .inl ⟨htask, hwaker⟩
    · rw [hwaker] at hwakes
      cases hwakes
  · rcases hdoes.lines .rxf with hsame | hwakes
    · exact .inr ⟨htask, hsame.trans hwaiting⟩
    · rw [(hlines.alert .rxf signalWaker hwaiting).2.1] at hwakes
      cases hwakes

theorem usart1Waits_interrupt {i : Interrupt} (hlines : Lines autoClear rxfLow txeLow e.usb)
    (hs : interrupt p autoClear e i = some (false, e')) (h : Usart1Waits e) : Usart1Waits e' := by
  have hdoes := interrupt_does hlines.main hs
  unfold Usart1Waits
  rw [hdoes.usart1Task]
  rcases h with ⟨htask, hwaiting⟩ | ⟨htask, hempty, hwaker⟩
  · rcases hdoes.lines .txe with hsame | hwakes
    · exact .inl ⟨htask, hsame.trans hwaiting⟩
    · rw [(hlines.alert .txe signalWaker hwaiting).2.1] at hwakes
      cases hwakes
  · rcases hdoes.reader with hsame | hwakes
    · rw [hsame]
      exact .inr ⟨htask, hempty, hwaker⟩
    · rw [hwaker] at hwakes
      cases hwakes

theorem behind_interrupt {i : Interrupt} (hlines : Lines autoClear rxfLow txeLow e.usb)
    (hs : interrupt p autoClear e i = some (false, e')) {turn : Turn} (h : Behind e turn) :
    Behind e' turn := by
  cases turn with
  | ft240 => trivial
  | usart1 => exact ft240Waits_interrupt hlines hs h
  | done => exact ⟨ft240Waits_interrupt hlines hs h.1, usart1Waits_interrupt hlines hs h.2⟩

/-- An edge by itself wakes nobody. -/
theorem behind_edge {usb : Ft240x.State} (hwaiting : ∀ l, (usb.side l).waiting =
    (e.usb.side l).waiting) {turn : Turn} (h : Behind e turn) :
    Behind { e with usb := usb } turn := by
  have hft240 : Ft240Waits e → Ft240Waits { e with usb := usb } := by
    rintro (htick | ⟨htask, hrxf⟩)
    · exact .inl htick
    · exact .inr ⟨htask, (hwaiting .rxf).trans hrxf⟩
  have husart1 : Usart1Waits e → Usart1Waits { e with usb := usb } := by
    rintro (⟨htask, htxe⟩ | hbyte)
    · exact .inl ⟨htask, (hwaiting .txe).trans htxe⟩
    · exact .inr hbyte
  cases turn with
  | ft240 => trivial
  | usart1 => exact hft240 h
  | done => exact ⟨hft240 h.1, husart1 h.2⟩

end Steps

/-! ## Runs of the program -/

/-- The turn up to which the tasks wait; between two polls it is the end of one. -/
def turnOf (s : State) : Turn := if s.pc = .polling then s.env.turn else .done

/-- What holds of every state of a run that no line falls in a window of. -/
structure Watched (p : Profile) (autoClear rxfLow txeLow : Bool) (s : State) : Prop where
  sound : Sound p s.env
  lines : Lines autoClear rxfLow txeLow s.env.usb
  behind : s.signal = false → Behind s.env (turnOf s)

theorem lines_work {e e' : Env} {s : State} {w : Work} {wakes : Bool}
    (hoff : OutsideWindow s (.run (.work w)))
    (hlines : Lines autoClear rxfLow txeLow e.usb)
    (hs : work p autoClear e w = some (wakes, e')) : Lines autoClear rxfLow txeLow e'.usb := by
  obtain ⟨w', rfl, -, hmoves⟩ | ⟨w', rfl, -, hmoves⟩ := work_cases hlines.main hs
  · cases hmoves with
    | goes act hgoes hact hw husb hdelay => exact husb.lines rxfLow txeLow hlines
    | polls sense falls hgoes husb hdelay =>
      have hfalls : falls = false := hoff
      rw [hfalls] at husb
      exact hlines.polled husb
    | makesDelay htask hdelay => exact hlines
    | readsTick timer hdelay => exact hlines
    | storesWaker timer hdelay => exact hlines
  · cases hmoves with
    | goes act hgoes hact husb => exact husb.lines rxfLow txeLow hlines
    | polls sense falls hgoes husb =>
      have hfalls : falls = false := hoff
      rw [hfalls] at husb
      exact hlines.polled husb

theorem lines_interrupt {e e' : Env} {i : Interrupt} {wakes : Bool}
    (hlines : Lines autoClear rxfLow txeLow e.usb)
    (hs : interrupt p autoClear e i = some (wakes, e')) :
    Lines autoClear rxfLow txeLow e'.usb := by
  cases i with
  | usart1Rx byte =>
    cases hs
    exact hlines
  | usart1Udre =>
    obtain ⟨t, -, hs⟩ := Option.bind_eq_some_iff.mp hs
    cases hs
    exact hlines
  | timer1Compa =>
    simp only [interrupt] at hs
    split at hs
    · cases hs
      exact hlines
    · cases hs
      exact hlines
  | line line falls =>
    obtain ⟨usb, husb, hs⟩ := Option.bind_eq_some_iff.mp hs
    cases hs
    exact hlines.served husb

/-- **Step lemma** of the program. -/
theorem watched_step {s t : State} {act : Act} (h : Watched p autoClear rxfLow txeLow s)
    (hoff : OutsideWindow s act) (hs : step p autoClear s act = some t) :
    Watched p autoClear rxfLow txeLow t := by
  have hsound := sound_step h.sound hs
  cases act with
  | run act =>
    obtain ⟨rfl, hpc, ⟨hsignal, rfl⟩ | ⟨-, rfl⟩⟩ | ⟨w, wakes, env, rfl, hpc, hw, rfl⟩ |
      ⟨answer, pc, rfl, hpc, hanswer, hpc', rfl⟩ | ⟨rfl, hpc, rfl⟩ |
      ⟨i, wakes, env, rfl, hint, rfl⟩ := Executor.step_cases (run_step hs).2
    · exact ⟨hsound, h.lines, fun _ => trivial⟩
    · exact h
    · refine ⟨hsound, lines_work hoff h.lines hw, ?_⟩
      intro hclear
      rw [Bool.or_eq_false_iff] at hclear
      have hbehind := h.behind hclear.1
      rw [turnOf, if_pos hpc] at hbehind
      rw [turnOf, if_pos rfl]
      obtain ⟨w', -, hturn, hmoves⟩ | ⟨w', -, hturn, hmoves⟩ := work_cases h.lines.main hw
      · exact behind_ft240 h.sound hturn hmoves
      · rw [hturn] at hbehind
        exact behind_usart1 h.sound hbehind hmoves
    · refine ⟨hsound, h.lines, ?_⟩
      intro hclear
      have hbehind := h.behind hclear
      rw [turnOf, if_pos hpc] at hbehind
      have hdone : s.env.turn = .done := by
        change (if s.env.turn = .done then some Poll.pending else none) = some answer at hanswer
        split at hanswer
        · assumption
        · cases hanswer
      rw [hdone] at hbehind
      rcases hpc' with rfl | rfl
      · exact hbehind
      · exact hbehind
    · refine ⟨hsound, h.lines, ?_⟩
      intro hclear
      have hbehind := h.behind hclear
      rw [turnOf, if_neg (by rw [hpc]; exact nofun)] at hbehind
      exact hbehind
    · have hdoes := interrupt_does h.lines.main hint
      refine ⟨hsound, lines_interrupt h.lines hint, ?_⟩
      intro hclear
      obtain ⟨hsignal, hwakes⟩ := Bool.or_eq_false_iff.mp hclear
      rw [hwakes] at hint
      have hbehind := behind_interrupt h.lines hint (h.behind hsignal)
      have hpolling : ((if s.pc = .asleep then Executor.Pc.top else s.pc) = .polling) =
          (s.pc = .polling) := by
        cases s.pc <;> simp
      have hturn : turnOf ⟨if s.pc = .asleep then .top else s.pc, s.signal || wakes, env⟩ =
          turnOf s := by
        simp only [turnOf, hpolling, hdoes.turn]
      rw [hturn]
      exact hbehind
  | edge edge =>
    obtain ⟨usb, husb, hs⟩ := Option.bind_eq_some_iff.mp hs
    cases hs
    have hquiet : Quiet edge.act := by
      cases edge <;> trivial
    obtain ⟨houtside, hmain, hwaiting⟩ := quiet_step hquiet h.lines.main husb
    refine ⟨hsound, ⟨.step h.lines.reached houtside husb, hmain⟩, ?_⟩
    intro hclear
    exact behind_edge hwaiting (h.behind hclear)

theorem watched_of_run {s : State}
    (h : (system p autoClear rxfLow txeLow).ReachedWhile OutsideWindow s) :
    Watched p autoClear rxfLow txeLow s := by
  refine h.invariant ?_ ?_
  · rintro s rfl
    refine ⟨⟨.init rfl, rfl, fun hdelay => absurd rfl hdelay⟩, ⟨.init rfl, rfl⟩, ?_⟩
    intro hclear
    cases hclear
  · intro s act t hi hoff hs
    exact watched_step hi hoff hs

/-- The interrupts that bring what a task waits for. -/
def Awaited (s : Firmware.State) : Interrupt → Prop
  | .timer1Compa => WaitsTick s.ft240Task
  | .line .rxf _ => WaitsRxf s.ft240Task
  | .line .txe _ => WaitsTxe s.usart1Task
  | .usart1Rx _ => WaitsByte s.usart1Task
  | .usart1Udre => False

section Waits

variable {e e' : Env}

/-- A task waits in one place. -/
theorem not_rxf_of_tick {task : Ft240Task} (htick : WaitsTick task) : ¬ WaitsRxf task := by
  cases task with
  | delay rx tx => exact id
  | requestRx | requestTx _ | greet _ _ _ | read _ _ _ | compose _ _ _ _ | write _ _ _ _ _ =>
    cases htick

theorem not_byte_of_txe {task : Usart1Task} (htxe : WaitsTxe task) : ¬ WaitsByte task := by
  cases task with
  | greet w => exact id
  | write rx tx w => exact id
  | requestRx | requestTx _ | read _ _ _ | compose _ _ _ => cases htxe

theorem waiting_of_awaited {line : Line} {falls : Bool} (hft240 : Ft240Waits e)
    (husart1 : Usart1Waits e) (hawaited : Awaited e.firmware (.line line falls)) :
    (e.usb.side line).waiting = some signalWaker := by
  cases line with
  | rxf =>
    rcases hft240 with ⟨htick, -⟩ | ⟨-, hwaiting⟩
    · exact absurd hawaited (not_rxf_of_tick htick)
    · exact hwaiting
  | txe =>
    rcases husart1 with ⟨-, hwaiting⟩ | ⟨hbyte, -⟩
    · exact hwaiting
    · exact absurd hbyte (not_byte_of_txe hawaited)

/-- What a task waits for wakes it, unless its routine panics. -/
theorem wakes_of_awaited {i : Interrupt} {wakes : Bool}
    (hlines : Lines autoClear rxfLow txeLow e.usb) (hft240 : Ft240Waits e)
    (husart1 : Usart1Waits e) (hawaited : Awaited e.firmware i)
    (hs : interrupt p autoClear e i = some (wakes, e')) (hgoes : e'.trapped = false) :
    wakes = true := by
  cases i with
  | usart1Rx byte =>
    cases hs
    rcases husart1 with ⟨htxe, -⟩ | ⟨-, -, hwaker⟩
    · exact absurd hawaited (not_byte_of_txe htxe)
    · exact hwaker
  | usart1Udre => cases hawaited
  | timer1Compa =>
    simp only [interrupt] at hs
    rcases hft240 with ⟨-, hwaker⟩ | ⟨hrxf, -⟩
    · split at hs
      · rename_i waker timer htick
        cases hs
        rw [woken_of_tick htick]
        exact hwaker
      · cases hs
        cases hgoes
    · exact absurd hrxf (not_rxf_of_tick hawaited)
  | line line falls =>
    obtain ⟨usb, husb, hs⟩ := Option.bind_eq_some_iff.mp hs
    cases hs
    have hwaiting := waiting_of_awaited hft240 husart1 hawaited
    rw [(hlines.alert line signalWaker hwaiting).2.1]
    rfl

end Waits

/-- **No event is lost.** In a run that no line falls in a window of, while SIGNAL is clear between
two polls both tasks wait: the one for a tick or for RXF, the other for TXE or, with its ring
empty, for a byte. Each interrupt that brings what one of them waits for sets SIGNAL, if it does
not panic, and that of a line is due when the line is low, if none has panicked. -/
theorem awaited_sets_signal (p : Profile) (autoClear rxfLow txeLow : Bool) (s : State)
    (h : (system p autoClear rxfLow txeLow).ReachedWhile OutsideWindow s)
    (hpc : s.pc ≠ .polling) (hclear : s.signal = false) :
    (WaitsTick s.env.firmware.ft240Task ∨ WaitsRxf s.env.firmware.ft240Task) ∧
    (WaitsTxe s.env.firmware.usart1Task ∨ WaitsByte s.env.firmware.usart1Task ∧
      s.env.firmware.reader.buffer.isEmpty = true) ∧
    (∀ i t, Awaited s.env.firmware i → step p autoClear s (.run (.interrupt i)) = some t →
      t.signal = true ∨ Traps p s (.run (.interrupt i))) ∧
    (s.env.trapped = false →
      ∀ line, Awaited s.env.firmware (.line line false) → (s.env.usb.side line).low = true →
        (step p autoClear s (.run (.interrupt (.line line false)))).isSome = true) := by
  have hwatched := watched_of_run h
  have hbehind := hwatched.behind hclear
  rw [turnOf, if_neg hpc] at hbehind
  obtain ⟨hft240, husart1⟩ := hbehind
  refine ⟨?_, ?_, ?_, ?_⟩
  · exact hft240.imp And.left And.left
  · exact husart1.imp And.left fun hbyte => ⟨hbyte.1, hbyte.2.1⟩
  · intro i t hawaited hs
    obtain ⟨hgoes, hrun⟩ := run_step hs
    have htraps := (ticks_step hwatched.sound (ticks_of_reachable h.reachable) hs).2
    obtain ⟨⟨wakes, env⟩, hint, rfl⟩ := Option.map_eq_some_iff.mp hrun
    cases hstopped : env.trapped with
    | true =>
      rcases htraps.mp hstopped with hbefore | hnow
      · rw [hgoes] at hbefore
        cases hbefore
      · exact .inr hnow
    | false =>
      left
      show (s.signal || wakes) = true
      rw [wakes_of_awaited hwatched.lines hft240 husart1 hawaited hint hstopped, Bool.or_true]
  · intro hgoes line hawaited hlow
    have hwaiting := waiting_of_awaited hft240 husart1 hawaited
    obtain ⟨hmask, -, hflag⟩ := hwatched.lines.alert line signalWaker hwaiting
    obtain ⟨usb, husb⟩ :=
      exists_served autoClear hwatched.lines.main hmask (hflag hlow)
    rw [step_run hgoes]
    simp [Executor.step, program, interrupt, husb]

/-- Behind the greetings and the delay both tasks wait for their peers. -/
def listening : List Act :=
  greetings ++ [.run .sleep] ++ List.replicate 1000 (.run (.interrupt .timer1Compa)) ++
  [.run .swap, .run (.work (.ft240 .readTick)), .run (.work (.ft240 (.canRead true false))),
    .run (.work (.usart1 (.plain (.canRead signalWaker)))), .run .answer, .run .sleep]

theorem awaited_sets_signal_listening :
    ∃ s, (system .release true false true).ReachedWhile OutsideWindow s ∧ s.pc = .asleep ∧
      s.signal = false ∧
      (WaitsTick s.env.firmware.ft240Task ∨ WaitsRxf s.env.firmware.ft240Task) ∧
      (WaitsTxe s.env.firmware.usart1Task ∨ WaitsByte s.env.firmware.usart1Task ∧
        s.env.firmware.reader.buffer.isEmpty = true) ∧
      (∀ i t, Awaited s.env.firmware i → step .release true s (.run (.interrupt i)) = some t →
        t.signal = true ∨ Traps .release s (.run (.interrupt i))) ∧
      (s.env.trapped = false →
        ∀ line, Awaited s.env.firmware (.line line false) → (s.env.usb.side line).low = true →
          (step .release true s (.run (.interrupt (.line line false)))).isSome = true) := by
  obtain ⟨s, hs, htest⟩ := exists_reachedWhile_of_runFun listening
    (fun s => s.pc == .asleep && s.signal == false)
    (show (system .release true false true).ReachedWhile OutsideWindow (start false true) from
      .init rfl) (by decide +kernel)
  rw [Bool.and_eq_true, beq_iff_eq, beq_iff_eq] at htest
  obtain ⟨hpc, hclear⟩ := htest
  have hpolling : s.pc ≠ .polling := by
    rw [hpc]
    exact nofun
  exact ⟨s, hs, hpc, hclear, awaited_sets_signal .release true false true s hs hpolling hclear⟩

end AvrBridge.Bridge
