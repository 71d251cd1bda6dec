import AvrBridge.BridgeWakeups
import AvrBridge.UsbToUart

/-! One task can keep the other from its turn. A poll of the `Join` goes on to `usart1_reader_task`
only when `ft240_reader_task` finds RXF high or its delay unexpired; a host that has the next byte
ready whenever the task looks keeps it in the same poll for any number of reads. -/

namespace AvrBridge.Firmware

open Rust Tasks

/-! ## One read and its message -/

section Round

variable {p : Profile} {s : State} {rx : Storage} {tx : TxBuffer} {taken : List UInt8}
  {result : Except ErrorKind Nat}

theorem ft240_canRead_ready (ht : s.ft240Task = .read rx tx .canRead) {pins : Levels}
    (hready : Ft240x.pollAnswer (Ft240x.canRead 0) pins = .ready (.ok ())) :
    ft240Step p s (.canRead pins) = some { s with ft240Task := .read rx tx .take } := by
  unfold ft240Step
  simp only [ht, UsbRead.await, hready]

/-- A read of one byte. -/
theorem ft240_take_one (h : Inv s) (ht : s.ft240Task = .read rx tx .take) (byte : UInt8) :
    ∃ t, ft240Step p s (.take true [⟨byte, true, true⟩]) = some t ∧
      t.ft240Task = .compose rx tx [byte] (.ok 1) ∧ t.log = s.log := by
  obtain ⟨-, row, hrow, hlen⟩ := h.own (i := rx.ptr) (by
    rw [ht]
    exact List.mem_cons_self ..)
  cases row with
  | nil => cases hlen
  | cons place places =>
    unfold ft240Step
    simp only [ht, index_ok hrow]
    exact ⟨_, rfl, rfl, rfl⟩

theorem ft240_canWrite_ready (h : Inv s) (ht : s.ft240Task = .write rx tx taken result .canWrite)
    (w : Waker) :
    ft240Step p s (.canWrite w) =
      some { s with ft240Task := .write rx tx taken result .send } := by
  unfold ft240Step
  simp only [ht, h.writer, await_new]
  rw [← h.writer]
  rfl

theorem ft240_send (h : Inv s) (ht : s.ft240Task = .write rx tx taken result .send) :
    ∃ t tx', ft240Step p s .send = some t ∧ t.ft240Task = .read rx tx' .canRead ∧
      t.log = s.log ++ [⟨taken, result, report taken result⟩] := by
  have htask := h.task
  rw [ht] at htask
  obtain ⟨-, row, hrow, hfilled⟩ := htask
  have hbuf : tx.asRef s.pool.pool = .ok (report taken result) := asRef_eq hrow hfilled
  obtain ⟨-, rxRow, hrx, hrxLen⟩ := h.own (i := rx.ptr) (by
    rw [ht]
    exact List.mem_cons_self ..)
  unfold ft240Step
  simp only [ht, hbuf, nextRead_eq hrx hrxLen]
  exact ⟨_, _, rfl, rfl, rfl⟩

end Round

end AvrBridge.Firmware

namespace AvrBridge.Bridge

open Rust Lts Ft240x Firmware

variable {p : Profile} {autoClear rxfLow txeLow : Bool}

/-! ## When a task gives way -/

/-- **`ft240_reader_task` gives way** only to a high RXF or to its delay. -/
theorem gives_way {s t : State} {w : Work} (h : (system p autoClear rxfLow txeLow).Reachable s)
    (hturn : s.env.turn = .ft240) (hs : step p autoClear s (.run (.work w)) = some t)
    (hnext : t.env.turn ≠ .ft240) :
    (∃ falls, w = .ft240 (.canRead true falls) ∧ s.env.usb.rxf.low = false) ∨
      w = .ft240 .storeWaker := by
  obtain ⟨hsound, -⟩ := sound_of_reachable h
  have hinv := inv_reachable hsound.firmware
  obtain ⟨wakes, env, -, hw, rfl⟩ := run_work hs
  obtain ⟨w', rfl, -, hmoves⟩ | ⟨w', rfl, husart1, -⟩ := work_cases hsound.main hw
  · cases hmoves with
    | goes act hgoes hact hw' husb hdelay =>
      rcases hgoes.turn with hsame | ⟨-, hpolls, htask⟩
      · exact absurd hsame hnext
      · obtain ⟨pins, rfl, -⟩ := ft240_pending hinv hgoes.step hpolls htask
        exact absurd rfl (hact pins)
    | polls sense falls hgoes husb hdelay =>
      rcases hgoes.turn with hsame | ⟨-, hpolls, htask⟩
      · exact absurd hsame hnext
      · obtain ⟨pins, hpins, -, hanswer⟩ := ft240_pending hinv hgoes.step hpolls htask
        cases hpins
        have hlevels := (pollAnswer_eq_pending s.env.usb .rxf sense).mp hanswer
        rw [Bool.and_eq_true, Bool.not_eq_true'] at hlevels
        obtain ⟨rfl, hhigh⟩ := hlevels
        exact .inl ⟨falls, rfl, hhigh⟩
    | makesDelay htask hdelay => exact absurd hturn hnext
    | readsTick timer hdelay => exact absurd hturn hnext
    | storesWaker timer hdelay => exact .inr rfl
  · rw [hturn] at husart1
    cases husart1

/-! ## A host that is always ready -/

/-- The steps of `ft240_reader_task` and the edges of the lines. -/
def ByFt240 : Act → Prop
  | .run (.work (.ft240 _)) | .edge _ => True
  | _ => False

/-- One byte on its way: the read takes it and the chip has nothing more, then its message goes to
the UART, and before the task looks again the chip has the next. -/
def forwardOne (byte : UInt8) : List Act :=
  [.run (.work (.ft240 (.canRead true false))),
    .run (.work (.ft240 (.take true [(⟨byte, true, true⟩, [.rise .rxf])]))), .edge (.fall .rxf),
    .run (.work (.ft240 (.plain .compose))), .run (.work (.ft240 (.plain (.canWrite signalWaker)))),
    .run (.work (.ft240 (.plain .send)))]

theorem forwardOne_byFt240 (byte : UInt8) : ∀ a ∈ forwardOne byte, ByFt240 a := by
  intro a ha
  simp only [forwardOne, List.mem_cons, List.not_mem_nil, or_false] at ha
  rcases ha with rfl | rfl | rfl | rfl | rfl | rfl <;> trivial

/-- Within a poll `ft240_reader_task` has the turn and is here. -/
structure At (p : Profile) (task : Ft240Task) (low : Bool) (s : State) : Prop where
  sound : Sound p s.env
  goes : s.env.trapped = false
  pc : s.pc = .polling
  turn : s.env.turn = .ft240
  task : s.env.firmware.ft240Task = task
  low : s.env.usb.rxf.low = low

section Segment

variable {s : State} {task task' : Ft240Task} {low : Bool} {rx : Storage} {tx : TxBuffer}

/-- A step in the turn of the task. -/
theorem At.work {w : Ft240Work} {e : Env} (h : At p task low s)
    (hw : ft240Work p autoClear s.env w = some e) (hturn : e.turn = .ft240)
    (htask : e.firmware.ft240Task = task') :
    ∃ t, step p autoClear s (.run (.work (.ft240 w))) = some t ∧ At p task' e.usb.rxf.low t ∧
      t.env = e := by
  obtain ⟨pc, signal, env⟩ := s
  have hpc : pc = .polling := h.pc
  subst hpc
  have hwork : Bridge.work p autoClear env (.ft240 w) = some (releaseWakes env e, e) := by
    have henv : env.turn = .ft240 := h.turn
    simp only [Bridge.work, henv, if_true, hw, Option.bind_eq_bind, Option.bind_some]
    rfl
  have hstep : step p autoClear ⟨.polling, signal, env⟩ (.run (.work (.ft240 w))) =
      some ⟨.polling, signal || releaseWakes env e, e⟩ := by
    rw [step_run h.goes]
    simp only [Executor.step, program, hwork]
    rfl
  have hgoes : e.trapped = false := (work_counts h.sound.main hwork).2.trans h.goes
  exact ⟨_, hstep, ⟨sound_step h.sound hstep, hgoes, rfl, hturn, htask, rfl⟩, rfl⟩

theorem ft240_elsewhere {e : Env} {act : Ft240Act} {t : Firmware.State}
    (hstep : ft240Step p e.firmware act = some t) (hmoves : t.ft240Task ≠ e.firmware.ft240Task) :
    e.ft240 p act = some { e with firmware := t, turn := .ft240 } := by
  have hother : (t.ft240Task == e.firmware.ft240Task) = false := by
    rw [beq_eq_false_iff_ne]
    exact hmoves
  rw [Env.ft240, hstep]
  simp only [Option.bind_eq_bind, Option.bind_some, hother, Bool.and_false]
  rfl

/-- The poll of a low RXF. -/
theorem pollActs_low {usb : Ft240x.State} (hmain : usb.pc = .main) (hlow : usb.rxf.low = true) :
    runFun (Ft240x.step autoClear) usb (pollActs .rxf (usb.levels true) false) =
      some { usb with rxf := { usb.rxf with waiting := Option.none } } := by
  obtain ⟨eimsk, eifr, ⟨waker, low, strobed, waiting⟩, txe, pc⟩ := usb
  subst hmain
  subst hlow
  rfl

/-- One strobe, behind which the chip has nothing more. -/
theorem readStrobes_one {usb : Ft240x.State} (hmain : usb.pc = .main) (hlow : usb.rxf.low = true)
    (byte : UInt8) :
    readStrobes autoClear usb [(⟨byte, true, true⟩, [.rise .rxf])] =
      some { usb with rxf := { usb.rxf with low := false, strobed := false } } := by
  obtain ⟨eimsk, eifr, ⟨waker, low, strobed, waiting⟩, txe, pc⟩ := usb
  subst hmain
  subst hlow
  rfl

/-- The poll finds the byte. -/
theorem At.canRead (autoClear : Bool) (h : At p (.read rx tx .canRead) true s) :
    ∃ t, step p autoClear s (.run (.work (.ft240 (.canRead true false)))) = some t ∧
      At p (.read rx tx .take) true t ∧ t.env.firmware.log = s.env.firmware.log := by
  have hready : pollAnswer (Ft240x.canRead 0) (s.env.usb.levels true) = .ready (.ok ()) := by
    have hlevels : s.env.usb.levels true = ⟨true, false, !s.env.usb.txe.low⟩ := by
      rw [State.levels, h.low]
      rfl
    rw [hlevels]
    exact pollAnswer_poll .rxf 0 ⟨true, false, !s.env.usb.txe.low⟩
  have hstep := ft240_canRead_ready (p := p) h.task hready
  have helse := ft240_elsewhere (e := { s.env with
    usb := { s.env.usb with rxf := { s.env.usb.rxf with waiting := Option.none } } }) hstep (by
    rw [h.task]
    intro heq
    cases heq)
  have hwork : ft240Work p autoClear s.env (.canRead true false) = some { s.env with
      firmware := { s.env.firmware with ft240Task := .read rx tx .take }
      usb := { s.env.usb with rxf := { s.env.usb.rxf with waiting := Option.none } }
      turn := .ft240 } := by
    simp only [ft240Work, pollActs_low h.sound.main h.low, Option.bind_eq_bind, Option.bind_some,
      helse]
  obtain ⟨t, ht, hat, henv⟩ := h.work hwork rfl rfl
  have hlow : s.env.usb.rxf.low = true := h.low
  rw [hlow] at hat
  exact ⟨t, ht, hat, by rw [henv]⟩

/-- The read takes it. -/
theorem At.take (autoClear : Bool) (h : At p (.read rx tx .take) true s) (byte : UInt8) :
    ∃ t, step p autoClear s (.run (.work (.ft240 (.take true
        [(⟨byte, true, true⟩, [.rise .rxf])])))) = some t ∧
      At p (.compose rx tx [byte] (.ok 1)) false t ∧
      t.env.firmware.log = s.env.firmware.log := by
  obtain ⟨firmware, hstep, htask, hlog⟩ :=
    ft240_take_one (p := p) (inv_reachable h.sound.firmware) h.task byte
  have helse := ft240_elsewhere (e := { s.env with
    usb := { s.env.usb with rxf := { s.env.usb.rxf with low := false, strobed := false } } })
    hstep (by
      rw [htask, h.task]
      intro heq
      cases heq)
  have hwork : ft240Work p autoClear s.env (.take true [(⟨byte, true, true⟩, [.rise .rxf])]) =
      some { s.env with
        firmware := firmware
        usb := { s.env.usb with rxf := { s.env.usb.rxf with low := false, strobed := false } }
        turn := .ft240 } := by
    simp only [ft240Work, readStrobes_one h.sound.main h.low, Option.bind_eq_bind,
      Option.bind_some, List.map_cons, List.map_nil, helse, htask]
    rfl
  obtain ⟨t, ht, hat, henv⟩ := h.work hwork rfl htask
  exact ⟨t, ht, hat, by rw [henv]; exact hlog⟩

/-- The chip has the next byte. -/
theorem At.fall (autoClear : Bool) (h : At p task false s) :
    ∃ t, step p autoClear s (.edge (.fall .rxf)) = some t ∧ At p task true t ∧
      t.env.firmware = s.env.firmware := by
  obtain ⟨usb, husb, hlow⟩ : ∃ usb, Ft240x.step autoClear s.env.usb (.fall .rxf) = some usb ∧
      usb.rxf.low = true := by
    have hhigh : (s.env.usb.side .rxf).low = false := h.low
    simp only [Ft240x.step, hhigh]
    exact ⟨_, rfl, rfl⟩
  have hstep : step p autoClear s (.edge (.fall .rxf)) =
      some { s with env := { s.env with usb := usb } } := by
    simp only [step, Edge.act, husb, Option.bind_eq_bind, Option.bind_some]
    rfl
  exact ⟨_, hstep, ⟨sound_step h.sound hstep, h.goes, h.pc, h.turn, h.task, hlow⟩, rfl⟩

/-- A step that keeps to the buffers and the UART. -/
theorem At.plain (autoClear : Bool) (act : Ft240Act) {firmware : Firmware.State}
    (h : At p task low s) (hact : act ∈ ft240Plain)
    (hstep : ft240Step p s.env.firmware act = some firmware)
    (htask : firmware.ft240Task = task') (hmoves : task' ≠ task) :
    ∃ t, step p autoClear s (.run (.work (.ft240 (.plain act)))) = some t ∧ At p task' low t ∧
      t.env.firmware = firmware := by
  have hwork : ft240Work p autoClear s.env (.plain act) =
      some { s.env with firmware := firmware, turn := .ft240 } := by
    simp only [ft240Work, if_pos hact]
    refine ft240_elsewhere hstep ?_
    rw [htask, h.task]
    exact hmoves
  obtain ⟨t, ht, hat, henv⟩ := h.work hwork rfl htask
  have hlow : s.env.usb.rxf.low = low := h.low
  rw [hlow] at hat
  exact ⟨t, ht, hat, by rw [henv]⟩

/-- **One byte** and its message: the task is where it was, and the poll goes on. -/
theorem At.forwardOne (autoClear : Bool) (h : At p (.read rx tx .canRead) true s) (byte : UInt8) :
    ∃ t tx', runFun (step p autoClear) s (forwardOne byte) = some t ∧
      At p (.read rx tx' .canRead) true t ∧
      t.env.firmware.log =
        s.env.firmware.log ++ [⟨[byte], .ok 1, report [byte] (.ok 1)⟩] := by
  obtain ⟨s₁, hs₁, h₁, hlog₁⟩ := h.canRead autoClear
  obtain ⟨s₂, hs₂, h₂, hlog₂⟩ := h₁.take autoClear byte
  obtain ⟨s₃, hs₃, h₃, hfirmware₃⟩ := h₂.fall autoClear
  have hne : report [byte] (.ok 1) ≠ [] := by
    intro hnil
    have htake : (report [byte] (.ok 1)).take 1 = [byte] := report_take rfl (by decide)
    rw [hnil] at htake
    cases htake
  obtain ⟨f₄, hf₄, -, hwrite⟩ :=
    ft240_compose (p := p) (inv_reachable h₃.sound.firmware) h₃.task
  obtain ⟨hlog₄, tx', htask₄⟩ := hwrite hne
  obtain ⟨s₄, hs₄, h₄, hfirmware₄⟩ :=
    h₃.plain autoClear .compose (by decide) hf₄ htask₄ (by intro heq; cases heq)
  have hf₅ := ft240_canWrite_ready (p := p) (inv_reachable h₄.sound.firmware) h₄.task signalWaker
  obtain ⟨s₅, hs₅, h₅, hfirmware₅⟩ :=
    h₄.plain autoClear (.canWrite signalWaker) (by decide) hf₅ rfl (by intro heq; cases heq)
  obtain ⟨f₆, tx'', hf₆, htask₆, hlog₆⟩ :=
    ft240_send (p := p) (inv_reachable h₅.sound.firmware) h₅.task
  obtain ⟨s₆, hs₆, h₆, hfirmware₆⟩ :=
    h₅.plain autoClear .send (by decide) hf₆ htask₆ (by intro heq; cases heq)
  refine ⟨s₆, tx'', ?_, h₆, ?_⟩
  · rw [Bridge.forwardOne, runFun_cons_of_eq hs₁, runFun_cons_of_eq hs₂, runFun_cons_of_eq hs₃,
      runFun_cons_of_eq hs₄, runFun_cons_of_eq hs₅, runFun_cons_of_eq hs₆]
    rfl
  · have hlog₅ : s₅.env.firmware.log = s₄.env.firmware.log := by
      rw [hfirmware₅]
    rw [hfirmware₆, hlog₆, hlog₅, hfirmware₄, hlog₄, hfirmware₃, hlog₂, hlog₁]

/-- What `usart1_reader_task` does not see. -/
theorem usart1Task_byFt240 {t : State} {a : Act} (ha : ByFt240 a) (h : Sound p s.env)
    (hs : step p autoClear s a = some t) :
    t.env.firmware.usart1Task = s.env.firmware.usart1Task := by
  cases a with
  | run act =>
    cases act with
    | work w =>
      obtain ⟨wakes, env, -, hw, rfl⟩ := run_work hs
      obtain ⟨w', rfl, -, hmoves⟩ | ⟨w', rfl, -, -⟩ := work_cases h.main hw
      · cases hmoves with
        | goes act hgoes hact hw' husb hdelay => exact (ft240Step_spares hgoes.step).usart1Task
        | polls sense falls hgoes husb hdelay => exact (ft240Step_spares hgoes.step).usart1Task
        | makesDelay htask hdelay => rfl
        | readsTick timer hdelay => rfl
        | storesWaker timer hdelay => rfl
      · cases ha
    | swap | answer | sleep | interrupt _ => cases ha
  | edge edge =>
    obtain ⟨usb, -, hs⟩ := Option.bind_eq_some_iff.mp hs
    cases hs
    rfl

/-- The poll goes on for as long as the host has bytes. -/
theorem At.forward (autoClear : Bool) (bytes : List UInt8)
    (h : At p (.read rx tx .canRead) true s) :
    ∃ t tx', runFun (step p autoClear) s (bytes.flatMap Bridge.forwardOne) = some t ∧
      At p (.read rx tx' .canRead) true t ∧
      t.env.firmware.log = s.env.firmware.log ++
        bytes.map (fun byte => ⟨[byte], .ok 1, report [byte] (.ok 1)⟩) := by
  induction bytes generalizing s tx with
  | nil => exact ⟨s, tx, rfl, h, (List.append_nil _).symm⟩
  | cons byte bytes ih =>
    obtain ⟨u, tx', hrun, hu, hlog⟩ := h.forwardOne autoClear byte
    obtain ⟨t, tx'', hruns, ht, hlogs⟩ := ih hu
    refine ⟨t, tx'', ?_, ht, ?_⟩
    · rw [List.flatMap_cons, runFun_append, hrun]
      exact hruns
    · rw [hlogs, hlog, List.append_assoc, List.map_cons]
      rfl

end Segment

/-- **The turn is kept.** While the poll of the `Join` is in `ft240_reader_task` it goes on to the
other task only behind a poll that finds RXF high or one that finds the delay unexpired. A host that
has the next byte ready whenever the task looks keeps it there: whatever the bytes, all are read
and forwarded within that one poll, and `usart1_reader_task` stays where it is; but for a panic of
`TIMER1_COMPA`, behind which nothing is. -/
theorem turn_is_kept (p : Profile) (autoClear rxfLow txeLow : Bool) (s : State)
    (h : (system p autoClear rxfLow txeLow).Reachable s) (hpc : s.pc = .polling)
    (hturn : s.env.turn = .ft240) :
    (∀ w t, step p autoClear s (.run (.work w)) = some t → t.env.turn ≠ .ft240 →
      (∃ falls, w = .ft240 (.canRead true falls) ∧ s.env.usb.rxf.low = false) ∨
        w = .ft240 .storeWaker) ∧
    (s.env.trapped = false →
      ∀ rx tx, s.env.firmware.ft240Task = .read rx tx .canRead → s.env.usb.rxf.low = true →
      ∀ bytes : List UInt8, ∃ t tx',
        runFun (step p autoClear) s (bytes.flatMap forwardOne) = some t ∧
        t.pc = .polling ∧ t.env.turn = .ft240 ∧
        t.env.firmware.usart1Task = s.env.firmware.usart1Task ∧
        t.env.firmware.ft240Task = .read rx tx' .canRead ∧
        t.env.firmware.log = s.env.firmware.log ++
          bytes.map (fun byte => ⟨[byte], .ok 1, report [byte] (.ok 1)⟩)) := by
  constructor
  · intro w t hs hnext
    exact gives_way h hturn hs hnext
  · intro hgoes rx tx htask hlow bytes
    have hsound := (sound_of_reachable h).1
    have hat : At p (.read rx tx .canRead) true s := ⟨hsound, hgoes, hpc, hturn, htask, hlow⟩
    obtain ⟨t, tx', hrun, ht, hlog⟩ := hat.forward autoClear bytes
    have hspares : Sound p t.env ∧ t.env.firmware.usart1Task = s.env.firmware.usart1Task := by
      refine runFun_invariant (I := fun u => Sound p u.env ∧
        u.env.firmware.usart1Task = s.env.firmware.usart1Task) ⟨hsound, rfl⟩ ?_ hrun
      intro a ha u v hu hs
      obtain ⟨byte, -, hbyte⟩ := List.mem_flatMap.mp ha
      have hby := forwardOne_byFt240 byte a hbyte
      exact ⟨sound_step hu.1 hs, (usart1Task_byFt240 hby hu.1 hs).trans hu.2⟩
    exact ⟨t, tx', hrun, ht.pc, ht.turn, hspares.2, ht.task, hlog⟩

/-- Behind the delay, with a byte from the host. -/
def hostReady : List Act :=
  greetings ++ [.run .sleep] ++ List.replicate 1000 (.run (.interrupt .timer1Compa)) ++
  [.run .swap, .run (.work (.ft240 .readTick)), .edge (.fall .rxf)]

def looks (s : State) : Bool :=
  s.pc == .polling && s.env.turn == .ft240 && s.env.usb.rxf.low && !s.env.trapped &&
    match s.env.firmware.ft240Task with
    | .read _ _ .canRead => true
    | _ => false

theorem turn_is_kept_hostReady :
    ∃ s rx tx, (system .release true false true).Reachable s ∧ s.pc = .polling ∧
      s.env.turn = .ft240 ∧ s.env.firmware.ft240Task = .read rx tx .canRead ∧
      s.env.usb.rxf.low = true ∧
      ∀ bytes : List UInt8, ∃ t tx',
        runFun (step .release true) s (bytes.flatMap forwardOne) = some t ∧
        t.pc = .polling ∧ t.env.turn = .ft240 ∧
        t.env.firmware.usart1Task = s.env.firmware.usart1Task ∧
        t.env.firmware.ft240Task = .read rx tx' .canRead ∧
        t.env.firmware.log = s.env.firmware.log ++
          bytes.map (fun byte => ⟨[byte], .ok 1, report [byte] (.ok 1)⟩) := by
  obtain ⟨s, hs, htest⟩ := exists_reachable_of_runFun hostReady looks
    (show (system .release true false true).Reachable (start false true) from .init rfl)
    (by decide +kernel)
  rw [looks, Bool.and_eq_true, Bool.and_eq_true, Bool.and_eq_true, Bool.and_eq_true, beq_iff_eq,
    beq_iff_eq, Bool.not_eq_true'] at htest
  obtain ⟨⟨⟨⟨hpc, hturn⟩, hlow⟩, hgoes⟩, htask⟩ := htest
  have hkept := (turn_is_kept .release true false true s hs hpc hturn).2 hgoes
  split at htask
  · rename_i rx tx heq
    exact ⟨s, rx, tx, hs, hpc, hturn, heq, hlow, hkept rx tx heq hlow⟩
  · cases htask

end AvrBridge.Bridge
