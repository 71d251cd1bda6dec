import AvrBridge.BridgeDelay

/-! A cable that is not plugged in. With SENSE low `read` fails at once, the message of a failed
read is empty and the write of an empty message fails at once, so from the end of its delay on
`ft240_reader_task` finds no place to give way: the poll it is in never ends, and the processor
neither sleeps nor goes on to the other task. -/

namespace AvrBridge.Firmware

open Rust Tasks

/-- The message of a failed read is empty, is refused at once, and the next read begins. -/
theorem ft240_compose_error {p : Profile} {s : State} {rx : Storage} {tx : TxBuffer}
    {taken : List UInt8} {e : ErrorKind} (h : Inv s)
    (ht : s.ft240Task = .compose rx tx taken (.error e)) :
    ∃ t, ft240Step p s .compose = some t ∧ t.ft240Task = .read rx ⟨tx.slot, 0, 0, 0⟩ .canRead ∧
      t.log = s.log ++ [⟨taken, .error e, []⟩] := by
  obtain ⟨rxRow, txRow, f, hrx, hrxLen, htx, htxLen, hload, hmsg, hf⟩ :=
    compose_report (p := p) h ht
  have hnodup := h.nodup
  rw [ht] at hnodup
  have hne : tx.slot ≠ rx.ptr := by
    rintro heq
    rw [Ft240Task.slots, List.cons_append, List.nodup_cons, ← heq] at hnodup
    exact hnodup.1 (List.mem_cons_self ..)
  have hi : tx.slot < s.pool.pool.length := (List.getElem?_eq_some_iff.mp htx).1
  have hasRef : (⟨tx.slot, f.rPos, f.wPos, f.len⟩ : TxBuffer).asRef
      (s.pool.pool.set tx.slot f.buf) = .ok (report taken (.error e)) :=
    asRef_eq (List.getElem?_set_self hi) hf
  have hrx' : (s.pool.pool.set tx.slot f.buf)[rx.ptr]? = some rxRow := by
    rw [List.getElem?_set_ne hne, hrx]
  simp only [ft240Step, ht, index_ok hrx, hload, Except.toOption, Option.bind_eq_bind,
    Option.bind_some, hmsg, TxBuffer.save, hasRef, nextRead_eq hrx' hrxLen]
  exact ⟨_, rfl, rfl, rfl⟩

end AvrBridge.Firmware

namespace AvrBridge.Bridge

open Rust Lts Ft240x Firmware

variable {p : Profile} {autoClear rxfLow txeLow : Bool}

/-- A poll of RXF that finds SENSE high. -/
def seesHost : Act → Bool
  | .run (.work (.ft240 (.canRead sense _))) => sense
  | _ => false

/-- `ft240_reader_task` finds SENSE low in this step, if it looks. -/
def Unplugged (_ : State) (act : Act) : Prop := seesHost act = false

instance (s : State) (act : Act) : Decidable (Unplugged s act) :=
  inferInstanceAs (Decidable (_ = _))

/-- At the top of the loop, or with the error of a read. -/
def Fails : Ft240Task → Prop
  | .read _ _ .canRead | .compose _ _ _ (.error _) => True
  | _ => False

/-- Within a poll the task goes around its loop. -/
structure Spins (s : State) : Prop where
  pc : s.pc = .polling
  turn : s.env.turn = .ft240
  task : Fails s.env.firmware.ft240Task

section Tasks

variable {s t : Firmware.State}

theorem not_tick_of_fails {task : Ft240Task} (h : Fails task) : ¬ WaitsTick task := by
  cases task with
  | delay rx tx => cases h
  | requestRx | requestTx _ | greet _ _ _ | read _ _ _ | compose _ _ _ _ | write _ _ _ _ _ =>
    exact id

/-- A poll with SENSE low fails. -/
theorem fails_canRead {pins : Levels} (hsense : pins.sense = false)
    (hs : ft240Step p s (.canRead pins) = some t) :
    Fails t.ft240Task ∧ t.ft240Task ≠ s.ft240Task := by
  have hanswer := pollAnswer_poll .rxf 0 pins
  rw [hsense] at hanswer
  have herror : pollAnswer (Ft240x.canRead 0) pins = .ready (.error .notConnected) := hanswer
  have hwaits := ft240Step_awaits hs
  cases ht : s.ft240Task with
  | read rx tx r =>
    cases r with
    | canRead =>
      unfold ft240Step at hs
      simp only [ht, UsbRead.await, herror] at hs
      cases hs
      refine ⟨trivial, ?_⟩
      intro heq
      cases heq
    | take | done _ =>
      rw [ht] at hwaits
      cases hwaits
  | requestRx | requestTx _ | greet _ _ _ | delay _ _ | compose _ _ _ _ | write _ _ _ _ _ =>
    rw [ht] at hwaits
    cases hwaits

theorem fails_compose (hinv : Firmware.Inv s) (hfails : Fails s.ft240Task)
    (hs : ft240Step p s .compose = some t) : Fails t.ft240Task := by
  have hwaits := ft240Step_awaits hs
  cases ht : s.ft240Task with
  | compose rx tx taken result =>
    cases result with
    | error e =>
      obtain ⟨u, hu, htask, -⟩ := ft240_compose_error (p := p) hinv ht
      rw [hu] at hs
      cases hs
      rw [htask]
      trivial
    | ok len =>
      rw [ht] at hfails
      cases hfails
  | requestRx | requestTx _ | greet _ _ _ | delay _ _ | read _ _ _ | write _ _ _ _ _ =>
    rw [ht] at hwaits
    cases hwaits

/-- The end of the delay is the top of the loop. -/
theorem fails_delayed (hinv : Firmware.Inv s) (hs : ft240Step p s .delayed = some t) :
    Fails t.ft240Task := by
  have hwaits := ft240Step_awaits hs
  cases ht : s.ft240Task with
  | delay rx tx =>
    obtain ⟨-, row, hrow, hlen⟩ := hinv.own (i := rx.ptr) (by
      rw [ht]
      exact List.mem_cons_self ..)
    unfold ft240Step at hs
    simp only [ht, nextRead_eq hrow hlen] at hs
    cases hs
    trivial
  | requestRx | requestTx _ | greet _ _ _ | read _ _ _ | compose _ _ _ _ | write _ _ _ _ _ =>
    rw [ht] at hwaits
    cases hwaits

/-- Around the loop there is nothing else to do. -/
theorem compose_of_fails {act : Ft240Act} (hfails : Fails s.ft240Task)
    (hwaits : s.ft240Task.Awaits act) (hact : ∀ pins, act ≠ .canRead pins) : act = .compose := by
  cases act with
  | compose => rfl
  | canRead pins => exact absurd rfl (hact pins)
  | request _ | canWrite _ | send | delayed | take _ _ =>
    cases ht : s.ft240Task with
    | read rx tx r =>
      rw [ht] at hfails hwaits
      cases r with
      | canRead => cases hwaits
      | take | done _ => cases hfails
    | compose rx tx taken result =>
      rw [ht] at hwaits
      cases hwaits
    | requestRx | requestTx _ | greet _ _ _ | delay _ _ | write _ _ _ _ _ =>
      rw [ht] at hfails
      cases hfails

end Tasks

section Steps

variable {e e' : Env}

/-- **Around the loop** the task keeps its turn. -/
theorem fails_step {w : Ft240Work} (h : Sound p e) (hfails : Fails e.firmware.ft240Task)
    (hturn : e.turn = .ft240) (hsense : ∀ sense falls, w = .canRead sense falls → sense = false)
    (hmoves : Ft240Moves p autoClear e w e') :
    Fails e'.firmware.ft240Task ∧ e'.turn = .ft240 ∧
      e'.firmware.usart1Task = e.firmware.usart1Task := by
  have hinv := inv_reachable h.firmware
  cases hmoves with
  | goes act hgoes hact hw husb hdelay =>
    obtain rfl := compose_of_fails hfails (ft240Step_awaits hgoes.step) hact
    refine ⟨fails_compose hinv hfails hgoes.step, ?_, (ft240Step_spares hgoes.step).usart1Task⟩
    rcases hgoes.turn with hsame | ⟨-, hpolls, -⟩
    · exact hsame
    · cases hpolls
  | polls sense falls hgoes husb hdelay =>
    obtain rfl := hsense sense falls rfl
    obtain ⟨hfails', hmoved⟩ := fails_canRead rfl hgoes.step
    refine ⟨hfails', ?_, (ft240Step_spares hgoes.step).usart1Task⟩
    rcases hgoes.turn with hsame | ⟨-, -, htask⟩
    · exact hsame
    · exact absurd htask hmoved
  | makesDelay htask hdelay => exact absurd htask (not_tick_of_fails hfails)
  | readsTick timer hdelay => exact ⟨hfails, hturn, rfl⟩
  | storesWaker timer hdelay =>
    have htick := h.delay (by rw [hdelay]; exact nofun)
    exact absurd htick (not_tick_of_fails hfails)

/-- The task comes to its loop only at the end of its delay. -/
theorem spins_of_past {w : Ft240Work} (h : Sound p e) (hbefore : ¬ Past e.firmware.ft240Task)
    (hmoves : Ft240Moves p autoClear e w e') (hpast : Past e'.firmware.ft240Task) :
    Fails e'.firmware.ft240Task ∧ e'.turn = .ft240 := by
  cases hmoves with
  | goes act hgoes hact hw husb hdelay =>
    by_cases hdelayed : act = .delayed
    · subst hdelayed
      refine ⟨fails_delayed (inv_reachable h.firmware) hgoes.step, ?_⟩
      rcases hgoes.turn with hsame | ⟨-, hpolls, -⟩
      · exact hsame
      · cases hpolls
    · exact absurd (past_of_step hgoes.step hdelayed hpast) hbefore
  | polls sense falls hgoes husb hdelay =>
    exact absurd (past_of_step hgoes.step nofun hpast) hbefore
  | makesDelay htask hdelay => exact absurd hpast hbefore
  | readsTick timer hdelay => exact absurd hpast hbefore
  | storesWaker timer hdelay => exact absurd hpast hbefore

end Steps

/-! ## Runs -/

section Runs

variable {s t : State}

/-- **Step lemma.** What spins goes on spinning, and the other task stays where it is. -/
theorem spins_step {a : Act} (h : Sound p s.env) (hspins : Spins s) (hsense : Unplugged s a)
    (hs : step p autoClear s a = some t) :
    Spins t ∧ t.env.firmware.usart1Task = s.env.firmware.usart1Task := by
  obtain ⟨hpc, hturn, hfails⟩ := hspins
  cases a with
  | run act =>
    obtain ⟨-, htop, -⟩ | ⟨w, wakes, env, rfl, -, hw, rfl⟩ |
      ⟨answer, pc, -, -, hanswer, -, rfl⟩ | ⟨-, hsleep, -⟩ | ⟨i, wakes, env, -, hint, rfl⟩ :=
      Executor.step_cases (run_step hs).2
    · rw [hpc] at htop
      cases htop
    · obtain ⟨w', rfl, -, hmoves⟩ | ⟨w', rfl, husart1, -⟩ := work_cases h.main hw
      · have hlow : ∀ sense falls, w' = .canRead sense falls → sense = false := by
          rintro sense falls rfl
          exact hsense
        obtain ⟨hfails', hturn', husart1⟩ := fails_step h hfails hturn hlow hmoves
        exact ⟨⟨rfl, hturn', hfails'⟩, husart1⟩
      · rw [hturn] at husart1
        cases husart1
    · change (if s.env.turn = .done then some Poll.pending else none) = some answer at hanswer
      rw [hturn] at hanswer
      cases hanswer
    · rw [hpc] at hsleep
      cases hsleep
    · have hdoes := interrupt_does h.main hint
      refine ⟨⟨?_, hdoes.turn.trans hturn, ?_⟩, hdoes.usart1Task⟩
      · rw [hpc]
        rfl
      · rw [hdoes.ft240Task]
        exact hfails
  | edge edge =>
    obtain ⟨usb, -, hs⟩ := Option.bind_eq_some_iff.mp hs
    cases hs
    exact ⟨⟨hpc, hturn, hfails⟩, rfl⟩

theorem spins_of_step {a : Act} (h : Sound p s.env) (hbefore : ¬ Past s.env.firmware.ft240Task)
    (hs : step p autoClear s a = some t) (hpast : Past t.env.firmware.ft240Task) : Spins t := by
  cases a with
  | run act =>
    obtain ⟨-, -, ⟨-, rfl⟩ | ⟨-, rfl⟩⟩ | ⟨w, wakes, env, rfl, -, hw, rfl⟩ |
      ⟨answer, pc, -, -, -, -, rfl⟩ | ⟨-, -, rfl⟩ | ⟨i, wakes, env, -, hint, rfl⟩ :=
      Executor.step_cases (run_step hs).2
    · exact absurd hpast hbefore
    · exact absurd hpast hbefore
    · obtain ⟨w', rfl, -, hmoves⟩ | ⟨w', rfl, -, hmoves⟩ := work_cases h.main hw
      · obtain ⟨hfails, hturn⟩ := spins_of_past h hbefore hmoves hpast
        exact ⟨rfl, hturn, hfails⟩
      · have htask : env.firmware.ft240Task = s.env.firmware.ft240Task := by
          cases hmoves with
          | goes act hgoes hact husb => exact (usart1Step_cases hgoes.step).1.ft240Task
          | polls sense falls hgoes husb => exact (usart1Step_cases hgoes.step).1.ft240Task
        rw [htask] at hpast
        exact absurd hpast hbefore
    · exact absurd hpast hbefore
    · exact absurd hpast hbefore
    · rw [(interrupt_does h.main hint).ft240Task] at hpast
      exact absurd hpast hbefore
  | edge edge =>
    obtain ⟨usb, -, hs⟩ := Option.bind_eq_some_iff.mp hs
    cases hs
    exact absurd hpast hbefore

/-- There is always a way around the loop. -/
theorem next_of_spins {o : Outside} (ho : o.Legal autoClear) (hsense : o.sense 0 = false)
    (h : Sound p s.env) (hspins : Spins s) (hgoes : s.env.trapped = false) :
    (step p autoClear s (.run (next autoClear o s))).isSome = true ∧
      ∃ w, next autoClear o s = .work (.ft240 w) ∧ Unplugged s (.run (.work (.ft240 w))) := by
  have hawake : s.pc ≠ .finished ∧ s.pc ≠ .asleep := by
    rw [hspins.pc]
    exact ⟨nofun, nofun⟩
  refine ⟨exists_next ho h hgoes hawake.1 hawake.2, s.env.nextFt240 autoClear o, ?_, ?_⟩
  · rw [next, hspins.pc, hspins.turn]
  · have hfails := hspins.task
    unfold Env.nextFt240
    split
    · rfl
    · rfl
    · cases htask : s.env.firmware.ft240Task with
      | read rx tx r =>
        cases r with
        | canRead => exact hsense
        | take | done _ =>
          rw [htask] at hfails
          cases hfails
      | compose rx tx taken result => rfl
      | requestRx | requestTx _ | greet _ _ _ | delay _ _ | write _ _ _ _ _ =>
        rw [htask] at hfails
        cases hfails

theorem spins_of_run (h : (system p autoClear rxfLow txeLow).ReachedWhile Unplugged s)
    (hpast : Past s.env.firmware.ft240Task) : Spins s := by
  have hspins : Sound p s.env ∧ (Past s.env.firmware.ft240Task → Spins s) := by
    refine System.ReachedWhile.invariant
      (I := fun s => Sound p s.env ∧ (Past s.env.firmware.ft240Task → Spins s)) ?_ ?_ h
    · rintro s rfl
      refine ⟨⟨.init rfl, rfl, fun hdelay => absurd rfl hdelay⟩, ?_⟩
      intro hpast
      cases hpast
    · rintro s a t ⟨hsound, hspins⟩ hsense hs
      refine ⟨sound_step hsound hs, ?_⟩
      intro hpast
      by_cases hbefore : Past s.env.firmware.ft240Task
      · exact (spins_step hsound (hspins hbefore) hsense hs).1
      · exact spins_of_step hsound hbefore hs hpast
  exact hspins.2 hpast

/-- **Unplugged, the poll never ends.** In every run in which `ft240_reader_task` finds SENSE low
whenever it looks, once its delay is over the program is within one poll and in the turn of this
task, and so it is in whatever the run goes on to: the processor never sleeps,
`usart1_reader_task` stays where it is, and until `TIMER1_COMPA` panics there is always a step of
the task to make, whatever else it finds at the pins. -/
theorem poll_never_ends (p : Profile) (autoClear rxfLow txeLow : Bool) (s : State)
    (h : (system p autoClear rxfLow txeLow).ReachedWhile Unplugged s)
    (hpast : Past s.env.firmware.ft240Task) (t : State)
    (hgoes : (System.ofFun s (step p autoClear)).ReachedWhile Unplugged t) :
    t.pc = .polling ∧ t.env.turn = .ft240 ∧
    t.env.firmware.usart1Task = s.env.firmware.usart1Task ∧
    (t.env.trapped = true → p.overflowChecks = true ∧ t.env.timer.tickCount = 65535) ∧
    (t.env.trapped = false →
      (∀ o : Outside, o.Legal autoClear → o.sense 0 = false →
        (step p autoClear t (.run (next autoClear o t))).isSome = true) ∧
      ∃ w, Unplugged t (.run (.work (.ft240 w))) ∧
        (step p autoClear t (.run (.work (.ft240 w)))).isSome = true) := by
  have hall : Sound p t.env ∧ Ticks p t.env ∧ Spins t ∧
      t.env.firmware.usart1Task = s.env.firmware.usart1Task := by
    refine System.ReachedWhile.invariant (I := fun u => Sound p u.env ∧ Ticks p u.env ∧ Spins u ∧
      u.env.firmware.usart1Task = s.env.firmware.usart1Task) ?_ ?_ hgoes
    · rintro u rfl
      exact ⟨(sound_of_reachable h.reachable).1, ticks_of_reachable h.reachable,
        spins_of_run h hpast, rfl⟩
    · rintro u a v ⟨hsound, hticks, hspins, htask⟩ hsense hs
      obtain ⟨hspins', hsame⟩ := spins_step hsound hspins hsense hs
      exact ⟨sound_step hsound hs, (ticks_step hsound hticks hs).1, hspins', hsame.trans htask⟩
  obtain ⟨hsound, hticks, hspins, htask⟩ := hall
  refine ⟨hspins.pc, hspins.turn, htask, hticks.trapped, ?_⟩
  intro hrunning
  refine ⟨fun o ho hsense => (next_of_spins ho hsense hsound hspins hrunning).1, ?_⟩
  obtain ⟨hnext, w, heq, hlow⟩ :=
    next_of_spins (legal_still autoClear) rfl hsound hspins hrunning
  rw [heq] at hnext
  exact ⟨w, hlow, hnext⟩

end Runs

/-- The delay passes without a host. -/
def nobodyThere : List Act :=
  [.run .swap] ++
  ([.plain (.request signalWaker), .plain (.request signalWaker), .plain (.canWrite signalWaker),
    .plain .send, .delay, .readTick, .storeWaker] : List Ft240Work).map
      (fun w => .run (.work (.ft240 w))) ++
  ([.canWrite false false, .plain (.request signalWaker), .plain (.request signalWaker),
    .plain (.canRead signalWaker)] : List Usart1Work).map (fun w => .run (.work (.usart1 w))) ++
  [.run .answer, .run .sleep] ++ List.replicate 1000 (.run (.interrupt .timer1Compa)) ++
  [.run .swap, .run (.work (.ft240 .readTick))]

theorem poll_never_ends_nobodyThere :
    ∃ s, (system .release true false true).ReachedWhile Unplugged s ∧
      Past s.env.firmware.ft240Task ∧
      ∀ t, (System.ofFun s (step .release true)).ReachedWhile Unplugged t →
        t.pc = .polling ∧ t.env.turn = .ft240 ∧
        t.env.firmware.usart1Task = s.env.firmware.usart1Task ∧
        (t.env.trapped = true →
          Profile.release.overflowChecks = true ∧ t.env.timer.tickCount = 65535) ∧
        (t.env.trapped = false →
          (∀ o : Outside, o.Legal true → o.sense 0 = false →
            (step .release true t (.run (next true o t))).isSome = true) ∧
          ∃ w, Unplugged t (.run (.work (.ft240 w))) ∧
            (step .release true t (.run (.work (.ft240 w)))).isSome = true) := by
  obtain ⟨s, hs, htest⟩ := exists_reachedWhile_of_runFun nobodyThere
    (fun s => reads s.env.firmware.ft240Task)
    (show (system .release true false true).ReachedWhile Unplugged (start false true) from
      .init rfl) (by decide +kernel)
  have hpast := past_of_reads htest
  exact ⟨s, hs, hpast, poll_never_ends .release true false true s hs hpast⟩

end AvrBridge.Bridge
