import AvrBridge.BridgeSteps
import AvrBridge.TimerRuns

/-! What the program does next. It has one step of its own, which goes by what it finds at the
pins, and the step is there whatever that is: until the processor sleeps, or the panic of
`TIMER1_COMPA` stops it, it goes on. Interrupts apart it makes no other. -/

namespace AvrBridge.Bridge

open Rust Lts Ft240x Firmware

variable {p : Profile} {autoClear rxfLow txeLow : Bool}

/-! ## What a step finds -/

/-- What a step finds at the pins: the levels of SENSE by the number of the sample, whether the line
falls in the window of a poll, the bytes that the chip presents, and the edges behind each strobe,
which may go by the lines. -/
structure Outside where
  sense : Nat → Bool
  falls : Bool
  data : Nat → UInt8
  edges : Line → Nat → Ft240x.State → List Edge

/-- The edges are such as the lines make. -/
def Outside.Legal (o : Outside) (autoClear : Bool) : Prop :=
  ∀ line n (usb : Ft240x.State), usb.pc = .main →
    (runFun (Ft240x.step autoClear) usb (strobeActs line (o.edges line n usb))).isSome = true

/-- Nobody is there, and nothing happens. -/
def still : Outside := ⟨fun _ => false, false, fun _ => 0, fun _ _ _ => []⟩

theorem legal_still (autoClear : Bool) : still.Legal autoClear := by
  intro line n usb hmain
  have hstrobe : Ft240x.step autoClear usb (.strobe line) =
      some (usb.setSide line { usb.side line with strobed := true }) := if_pos hmain
  show (runFun (Ft240x.step autoClear) usb (strobeActs line [])).isSome = true
  rw [strobeActs, runFun_cons_of_eq hstrobe]
  rfl

/-- The strobes that a read makes from its number `n` on, with so many places left. -/
def Outside.strobes (o : Outside) (autoClear : Bool) :
    Nat → Nat → Ft240x.State → List (Strobe × List Edge)
  | 0, _, _ => []
  | room + 1, n, usb =>
      let edges := o.edges .rxf n usb
      match runFun (Ft240x.step autoClear) usb (strobeActs .rxf edges) with
      | none => []
      | some usb =>
          let sense := o.sense (n + 1)
          let strobe : Strobe := ⟨o.data n, sense, !Line.rxf.isLow (usb.levels sense)⟩
          (strobe, edges) ::
            if strobe.sense && !strobe.rxf then o.strobes autoClear room (n + 1) usb else []

/-- The next step of `ft240_reader_task`. -/
def Env.nextFt240 (e : Env) (autoClear : Bool) (o : Outside) : Ft240Work :=
  match e.delay with
  | .storing _ => .storeWaker
  | .polls _ => .readTick
  | .none =>
      match e.firmware.ft240Task with
      | .requestRx | .requestTx _ => .plain (.request signalWaker)
      | .greet _ _ .send | .write _ _ _ _ .send => .plain .send
      | .greet _ _ _ | .write _ _ _ _ _ => .plain (.canWrite signalWaker)
      | .delay _ _ => .delay
      | .read _ _ .canRead => .canRead (o.sense 0) o.falls
      | .read _ _ _ =>
          .take (o.sense 0) (if o.sense 0 then o.strobes autoClear bufferSize 0 e.usb else [])
      | .compose _ _ _ _ => .plain .compose

/-- The next step of `usart1_reader_task`. -/
def Env.nextUsart1 (e : Env) (o : Outside) : Usart1Work :=
  match e.firmware.usart1Task with
  | .greet (.writing _) | .write _ _ (.writing _) => .strobe (o.sense 0) (o.edges .txe 0 e.usb)
  | .greet _ | .write _ _ _ => .canWrite (o.sense 0) o.falls
  | .requestRx | .requestTx _ => .plain (.request signalWaker)
  | .read _ _ (.canRead _) => .plain (.canRead signalWaker)
  | .read _ _ _ => .plain .take
  | .compose _ _ _ => .plain .compose

/-- The next step of the processor while it is awake. -/
def next (autoClear : Bool) (o : Outside) (s : State) : Executor.Act Work Interrupt :=
  match s.pc with
  | .top => .swap
  | .polling =>
      match s.env.turn with
      | .ft240 => .work (.ft240 (s.env.nextFt240 autoClear o))
      | .usart1 => .work (.usart1 (s.env.nextUsart1 o))
      | .done => .answer
  | .sleep | .asleep | .finished => .sleep

/-! ## The strobes of a read -/

section Strobes

variable {o : Outside} {usb : Ft240x.State}

/-- They are those of a whole read, and the lines go along. -/
theorem strobes_spec (ho : o.Legal autoClear) (room n : Nat) (hmain : usb.pc = .main) :
    UsbRead.Makes room ((o.strobes autoClear room n usb).map Prod.fst) ∧
      ∃ usb', readStrobes autoClear usb (o.strobes autoClear room n usb) = some usb' := by
  induction room generalizing n usb with
  | zero => exact ⟨rfl, usb, rfl⟩
  | succ room ih =>
    obtain ⟨v, hv⟩ := Option.isSome_iff_exists.mp (ho .rxf n usb hmain)
    have hmain' : v.pc = .main := (quiet_run (strobeActs_quiet .rxf _) hmain hv).1
    simp only [Outside.strobes, hv]
    by_cases hmore : (o.sense (n + 1) && !!Line.rxf.isLow (v.levels (o.sense (n + 1)))) = true
    · obtain ⟨hmakes, usb', hreads⟩ := ih (n + 1) hmain'
      rw [if_pos hmore]
      constructor
      · rw [List.map_cons, UsbRead.Makes, if_pos hmore]
        exact hmakes
      · refine ⟨usb', ?_⟩
        simp only [readStrobes, hv, Option.bind_eq_bind, Option.bind_some, Bool.not_not, if_true]
        exact hreads
    · rw [if_neg hmore]
      constructor
      · rw [List.map_cons, UsbRead.Makes, if_neg hmore]
        rfl
      · refine ⟨v, ?_⟩
        simp only [readStrobes, hv, Option.bind_eq_bind, Option.bind_some, Bool.not_not, if_true]

end Strobes

/-! ## The steps of the tasks -/

section Tasks

variable {e : Env} {o : Outside}

theorem exists_ft240 {act : Ft240Act} (h : (ft240Step p e.firmware act).isSome = true) :
    ∃ e', e.ft240 p act = some e' := by
  obtain ⟨t, ht⟩ := Option.isSome_iff_exists.mp h
  rw [Env.ft240, ht]
  exact ⟨_, rfl⟩

theorem exists_usart1 {act : Usart1Act} (h : (usart1Step p e.firmware act).isSome = true) :
    ∃ e', e.usart1 p act = some e' := by
  obtain ⟨t, ht⟩ := Option.isSome_iff_exists.mp h
  rw [Env.usart1, ht]
  exact ⟨_, rfl⟩

/-- A read takes a byte with each of its strobes. -/
theorem exists_take {rx : Storage} {tx : TxBuffer} {sense : Bool}
    {strobes : List (Strobe × List Edge)} {usb : Ft240x.State} (h : Sound p e)
    (htask : e.firmware.ft240Task = .read rx tx .take)
    (hreads : UsbRead.Reads bufferSize sense (strobes.map Prod.fst))
    (husb : readStrobes autoClear e.usb strobes = some usb) :
    ∃ e', ft240Work p autoClear e (.take sense strobes) = some e' := by
  obtain ⟨row, hrow, hlen⟩ := ((inv_reachable h.firmware).own (i := rx.ptr) (by
    rw [htask]
    exact List.mem_cons_self ..)).2
  rw [← hlen] at hreads
  obtain ⟨row', taken, result, hserve, htaken⟩ := UsbRead.exists_serve hreads
  rw [List.length_map] at htaken
  have hstep : ft240Step p e.firmware (.take sense (strobes.map (·.1))) = some { e.firmware with
      pool := { e.firmware.pool with pool := e.firmware.pool.pool.set rx.ptr row' }
      ft240Task := .compose rx tx taken result } := by
    unfold ft240Step
    simp only [htask, index_ok hrow, Except.toOption, Option.bind_eq_bind, Option.bind_some,
      hserve]
    rfl
  have hgoes : Env.ft240 p { e with usb := usb } (.take sense (strobes.map (·.1))) = some { e with
      firmware := { e.firmware with
        pool := { e.firmware.pool with pool := e.firmware.pool.pool.set rx.ptr row' }
        ft240Task := .compose rx tx taken result }
      usb := usb
      turn := .ft240 } := by
    rw [Env.ft240, hstep]
    rfl
  simp only [ft240Work, husb, Option.bind_eq_bind, Option.bind_some, hgoes, if_pos htaken]
  exact ⟨_, rfl⟩

/-- The step of `ft240_reader_task` in its turn. -/
theorem exists_nextFt240 (ho : o.Legal autoClear) (h : Sound p e) :
    ∃ e', ft240Work p autoClear e (e.nextFt240 autoClear o) = some e' := by
  obtain ⟨⟨act, hact⟩, -, hnever, -⟩ := goes_on h.firmware
  have hplain : ∀ act ∈ ft240Plain, e.firmware.ft240Task.Awaits act →
      ∃ e', ft240Work p autoClear e (.plain act) = some e' := by
    intro act hmem hwaits
    have hserved : Served act := by
      simp only [ft240Plain, List.mem_cons, List.not_mem_nil, or_false] at hmem
      rcases hmem with rfl | rfl | rfl | rfl <;> trivial
    obtain ⟨e', he⟩ := exists_ft240 (hnever act hwaits hserved)
    exact ⟨e', by rw [ft240Work, if_pos hmem, he]⟩
  cases hdelay : e.delay with
  | storing timer =>
    simp only [Env.nextFt240, hdelay, ft240Work]
    exact ⟨_, rfl⟩
  | polls timer =>
    simp only [Env.nextFt240, hdelay, ft240Work]
    by_cases hexpired : timer.expired e.timer.tickCount = true
    · rw [if_pos hexpired]
      have htask := h.delay (fun hnone => by rw [hdelay] at hnone; cases hnone)
      refine exists_ft240 (e := { e with delay := .none }) (hnever .delayed ?_ trivial)
      cases hrx : e.firmware.ft240Task with
      | delay rx tx => trivial
      | requestRx | requestTx _ | greet _ _ _ | read _ _ _ | compose _ _ _ _ | write _ _ _ _ _ =>
        rw [hrx] at htask
        cases htask
    · rw [if_neg hexpired]
      exact ⟨_, rfl⟩
  | none =>
    cases htask : e.firmware.ft240Task with
    | requestRx | requestTx rx =>
      simp only [Env.nextFt240, hdelay, htask]
      exact hplain (.request signalWaker) (by decide) (by rw [htask]; trivial)
    | delay rx tx =>
      simp only [Env.nextFt240, hdelay, htask, ft240Work]
      exact ⟨_, rfl⟩
    | compose rx tx taken result =>
      simp only [Env.nextFt240, hdelay, htask]
      exact hplain .compose (by decide) (by rw [htask]; trivial)
    | greet rx tx w | write rx tx taken result w =>
      cases w with
      | canWrite =>
        simp only [Env.nextFt240, hdelay, htask]
        exact hplain (.canWrite signalWaker) (by decide) (by rw [htask]; trivial)
      | send =>
        simp only [Env.nextFt240, hdelay, htask]
        exact hplain .send (by decide) (by rw [htask]; trivial)
      | done result =>
        rw [htask] at hact
        cases act <;> cases hact
    | read rx tx r =>
      cases r with
      | canRead =>
        obtain ⟨usb, husb, -, -⟩ := exists_polled autoClear h.main .rxf (o.sense 0) o.falls
        obtain ⟨e', he⟩ := exists_ft240 (e := { e with usb := usb })
          (hnever (.canRead (e.usb.levels (o.sense 0))) (by rw [htask]; trivial) trivial)
        have hnext : e.nextFt240 autoClear o = .canRead (o.sense 0) o.falls := by
          simp only [Env.nextFt240, hdelay, htask]
        refine ⟨e', ?_⟩
        rw [hnext]
        simp only [ft240Work, husb]
        exact he
      | take =>
        simp only [Env.nextFt240, hdelay, htask]
        cases hsense : o.sense 0 with
        | false => exact exists_take h htask rfl rfl
        | true =>
          obtain ⟨hmakes, usb, husb⟩ := strobes_spec ho bufferSize 0 h.main
          exact exists_take h htask hmakes husb
      | done result =>
        rw [htask] at hact
        cases act <;> cases hact

theorem exists_nextUsart1 (ho : o.Legal autoClear) (h : Sound p e) :
    ∃ e', usart1Work p autoClear e (e.nextUsart1 o) = some e' := by
  obtain ⟨-, ⟨act, hact⟩, -, hnever⟩ := goes_on h.firmware
  have hplain : ∀ act ∈ usart1Plain, e.firmware.usart1Task.Awaits act →
      ∃ e', usart1Work p autoClear e (.plain act) = some e' := by
    intro act hmem hwaits
    obtain ⟨e', he⟩ := exists_usart1 (hnever act hwaits)
    exact ⟨e', by rw [usart1Work, if_pos hmem, he]⟩
  have hpolls : (∀ pins, e.firmware.usart1Task.Awaits (.canWrite pins)) →
      ∃ e', usart1Work p autoClear e (.canWrite (o.sense 0) o.falls) = some e' := by
    intro hwaits
    obtain ⟨usb, husb, -, -⟩ := exists_polled autoClear h.main .txe (o.sense 0) o.falls
    obtain ⟨e', he⟩ := exists_usart1 (e := { e with usb := usb })
      (hnever (.canWrite (e.usb.levels (o.sense 0))) (hwaits _))
    refine ⟨e', ?_⟩
    simp only [usart1Work, husb]
    exact he
  have hstrobes : (∀ pins, e.firmware.usart1Task.Awaits (.strobe pins)) →
      ∃ e', usart1Work p autoClear e (.strobe (o.sense 0) (o.edges .txe 0 e.usb)) = some e' := by
    intro hwaits
    obtain ⟨usb, husb⟩ := Option.isSome_iff_exists.mp (ho .txe 0 e.usb h.main)
    obtain ⟨e', he⟩ := exists_usart1 (e := { e with usb := usb })
      (hnever (.strobe (usb.levels (o.sense 0))) (hwaits _))
    refine ⟨e', ?_⟩
    simp only [usart1Work, husb]
    exact he
  cases htask : e.firmware.usart1Task with
  | requestRx | requestTx rx =>
    simp only [Env.nextUsart1, htask]
    exact hplain (.request signalWaker) (by decide) (by rw [htask]; trivial)
  | compose rx tx result =>
    simp only [Env.nextUsart1, htask]
    exact hplain .compose (by decide) (by rw [htask]; trivial)
  | read rx tx r =>
    cases r with
    | canRead total =>
      simp only [Env.nextUsart1, htask]
      exact hplain (.canRead signalWaker) (by decide) (by rw [htask]; trivial)
    | take total =>
      simp only [Env.nextUsart1, htask]
      exact hplain .take (by decide) (by rw [htask]; trivial)
    | done result =>
      rw [htask] at hact
      cases act <;> cases hact
  | greet w | write rx tx w =>
    cases w with
    | canWrite =>
      simp only [Env.nextUsart1, htask]
      exact hpolls fun pins => by rw [htask]; trivial
    | writing n =>
      simp only [Env.nextUsart1, htask]
      exact hstrobes fun pins => by rw [htask]; trivial
    | done result =>
      rw [htask] at hact
      cases act <;> cases hact

end Tasks

/-! ## No other step -/

/-- The edges behind the strobes of a read, or behind the one of a write. -/
def edgesBehind (strobes : List (Strobe × List Edge)) (edges : List Edge) : Line → Nat → List Edge
  | .rxf, n => strobes[n]?.elim [] (·.2)
  | .txe, _ => edges

/-- What a step has found that went by these levels and edges. -/
def found (autoClear sense falls : Bool) (strobes : List (Strobe × List Edge))
    (edges : List Edge) : Outside where
  sense
    | 0 => sense
    | n + 1 => strobes[n]?.any (·.1.sense)
  falls := falls
  data n := strobes[n]?.elim 0 (·.1.data)
  edges line n usb :=
    let edges := edgesBehind strobes edges line n
    if (runFun (Ft240x.step autoClear) usb (strobeActs line edges)).isSome then edges else []

theorem legal_found (autoClear sense falls : Bool) (strobes : List (Strobe × List Edge))
    (edges : List Edge) : (found autoClear sense falls strobes edges).Legal autoClear := by
  intro line n usb hmain
  simp only [found]
  split
  · assumption
  · exact legal_still autoClear line n usb hmain

/-- The strobes that these make are those that have been made. -/
theorem strobes_of_reads {o : Outside} {strobes : List (Strobe × List Edge)}
    {usb usb' : Ft240x.State} {room n : Nat}
    (ho : ∀ k strobe, strobes[k]? = some strobe →
      o.data (n + k) = strobe.1.data ∧ o.sense (n + k + 1) = strobe.1.sense ∧
      ∀ v, (runFun (Ft240x.step autoClear) v (strobeActs .rxf strobe.2)).isSome = true →
        o.edges .rxf (n + k) v = strobe.2)
    (hmakes : UsbRead.Makes room (strobes.map Prod.fst))
    (hreads : readStrobes autoClear usb strobes = some usb') :
    o.strobes autoClear room n usb = strobes := by
  induction strobes generalizing room n usb with
  | nil =>
    cases room with
    | zero => rfl
    | succ room => exact hmakes.elim
  | cons strobe strobes ih =>
    cases room with
    | zero => cases hmakes
    | succ room =>
      obtain ⟨⟨data, sense, rxf⟩, edges⟩ := strobe
      obtain ⟨hdata, hsense, hedges⟩ := ho 0 _ rfl
      obtain ⟨v, hv, hrest⟩ := Option.bind_eq_some_iff.mp hreads
      have hline := hedges usb (Option.isSome_iff_exists.mpr ⟨v, hv⟩)
      rw [Nat.add_zero] at hdata hsense hline
      split at hrest
      case isTrue hrxf =>
        have hrxf' : (!Line.rxf.isLow (v.levels sense)) = rxf := by
          rw [hrxf, Bool.not_not]
        have hafter : ∀ k strobe, strobes[k]? = some strobe →
            o.data (n + 1 + k) = strobe.1.data ∧ o.sense (n + 1 + k + 1) = strobe.1.sense ∧
            ∀ v, (runFun (Ft240x.step autoClear) v (strobeActs .rxf strobe.2)).isSome = true →
              o.edges .rxf (n + 1 + k) v = strobe.2 := by
          intro k strobe hk
          have hnext := ho (k + 1) strobe hk
          rwa [show n + (k + 1) = n + 1 + k by omega] at hnext
        simp only [Outside.strobes, hline, hdata, hsense]
        rw [hv]
        simp only [hrxf']
        congr 1
        change if sense && !rxf then UsbRead.Makes room (strobes.map Prod.fst)
          else strobes.map Prod.fst = [] at hmakes
        split at hmakes
        · rename_i hmore
          rw [if_pos hmore]
          exact ih hafter hmakes hrest
        · rename_i hmore
          rw [if_neg hmore]
          exact (List.map_eq_nil_iff.mp hmakes).symm
      case isFalse => cases hrest

theorem strobes_found {sense falls : Bool} {strobes : List (Strobe × List Edge)}
    {edges : List Edge} {usb usb' : Ft240x.State} {room : Nat}
    (hmakes : UsbRead.Makes room (strobes.map Prod.fst))
    (hreads : readStrobes autoClear usb strobes = some usb') :
    (found autoClear sense falls strobes edges).strobes autoClear room 0 usb = strobes := by
  refine strobes_of_reads ?_ hmakes hreads
  intro k strobe hk
  rw [Nat.zero_add]
  refine ⟨?_, ?_, ?_⟩
  · simp only [found, hk, Option.elim_some]
  · simp only [found, hk, Option.any_some]
  · intro v hv
    simp only [found, edgesBehind, hk, Option.elim_some, if_pos hv]

section Tasks

variable {e e' : Env}

theorem delay_of_awaits {act : Ft240Act} (h : Sound p e) (hwaits : e.firmware.ft240Task.Awaits act)
    (hact : act ≠ .delayed) : e.delay = .none := by
  by_contra hdelay
  exact hact (awaits_delayed (h.delay hdelay) hwaits)

theorem read_of_canRead {task : Ft240Task} {pins : Levels} (h : task.Awaits (.canRead pins)) :
    ∃ rx tx, task = .read rx tx .canRead := by
  cases task with
  | read rx tx r =>
    cases r with
    | canRead => exact ⟨rx, tx, rfl⟩
    | take | done _ => cases h
  | requestRx | requestTx _ | greet _ _ _ | delay _ _ | compose _ _ _ _ | write _ _ _ _ _ => cases h

theorem read_of_take {task : Ft240Task} {sense : Bool} {strobes : List Strobe}
    (h : task.Awaits (.take sense strobes)) : ∃ rx tx, task = .read rx tx .take := by
  cases task with
  | read rx tx r =>
    cases r with
    | take => exact ⟨rx, tx, rfl⟩
    | canRead | done _ => cases h
  | requestRx | requestTx _ | greet _ _ _ | delay _ _ | compose _ _ _ _ | write _ _ _ _ _ => cases h

/-- The strobes that each took a byte are those of a whole read. -/
theorem reads_of_take {f : Firmware.State} {t : Firmware.State} {sense : Bool}
    {strobes : List Strobe} {rx rx' : Storage} {tx tx' : TxBuffer} {taken : List UInt8}
    {result : Except ErrorKind Nat} (h : (Firmware.system p).Reachable f)
    (htask : f.ft240Task = .read rx tx .take)
    (hs : ft240Step p f (.take sense strobes) = some t)
    (ht : t.ft240Task = .compose rx' tx' taken result) (hlen : taken.length = strobes.length) :
    UsbRead.Reads bufferSize sense strobes := by
  obtain ⟨row, hrow, hlength⟩ := ((inv_reachable h).own (i := rx.ptr) (by
    rw [htask]
    exact List.mem_cons_self ..)).2
  unfold ft240Step at hs
  simp only [htask] at hs
  obtain ⟨buf, hbuf, hs⟩ := Option.bind_eq_some_iff.mp hs
  rw [index_ok hrow] at hbuf
  cases hbuf
  obtain ⟨⟨row', taken', result'⟩, hserve, hs⟩ := Option.bind_eq_some_iff.mp hs
  cases hs
  cases ht
  rw [← hlength]
  exact UsbRead.reads_of_serve hserve hlen

theorem ft240Plain_is_next {act : Ft240Act} (o : Outside) (h : Sound p e) (hmem : act ∈ ft240Plain)
    (hwaits : e.firmware.ft240Task.Awaits act) : .plain act = e.nextFt240 autoClear o := by
  have hdelay : e.delay = .none := by
    apply delay_of_awaits h hwaits
    rintro rfl
    exact absurd hmem (by decide)
  simp only [Env.nextFt240, hdelay]
  simp only [ft240Plain, List.mem_cons, List.not_mem_nil, or_false] at hmem
  unfold Ft240Task.Awaits at hwaits
  split at hwaits
  case h_11 => exact hwaits.elim
  all_goals
    rename_i htask
    rcases hmem with heq | heq | heq | heq <;> cases heq <;> rw [htask]

theorem ft240_awaits {f : Env} {act : Ft240Act} (hs : f.ft240 p act = some e') :
    f.firmware.ft240Task.Awaits act := by
  obtain ⟨t, ht, -⟩ := Option.bind_eq_some_iff.mp hs
  exact ft240Step_awaits ht

/-- A read that has been made took a byte with each of its strobes. -/
theorem made_of_take {sense : Bool} {strobes : List (Strobe × List Edge)} (h : Sound p e)
    (hs : ft240Work p autoClear e (.take sense strobes) = some e') :
    ∃ rx tx usb, e.delay = .none ∧ e.firmware.ft240Task = .read rx tx .take ∧
      UsbRead.Reads bufferSize sense (strobes.map Prod.fst) ∧
      readStrobes autoClear e.usb strobes = some usb := by
  obtain ⟨usb, hreads, hs⟩ := Option.bind_eq_some_iff.mp hs
  obtain ⟨u, hgoes, hs⟩ := Option.bind_eq_some_iff.mp hs
  have hwaits : e.firmware.ft240Task.Awaits (.take sense (strobes.map (·.1))) :=
    ft240_awaits (f := { e with usb := usb }) hgoes
  obtain ⟨rx, tx, htask⟩ := read_of_take hwaits
  obtain ⟨t, ht, hu⟩ := Option.bind_eq_some_iff.mp hgoes
  cases hu
  dsimp only at hs
  split at hs
  case h_2 => cases hs
  rename_i rx' tx' taken result hcompose
  split at hs
  case isFalse => cases hs
  rename_i hlen
  have hmade := reads_of_take h.firmware htask ht hcompose (hlen.trans (List.length_map _).symm)
  exact ⟨rx, tx, usb, delay_of_awaits h hwaits (by simp), htask, hmade, hreads⟩

/-- A step that `ft240_reader_task` makes is its next one, for what it has found. -/
theorem ft240_is_next {w : Ft240Work} (h : Sound p e) (hs : ft240Work p autoClear e w = some e') :
    ∃ o : Outside, o.Legal autoClear ∧ w = e.nextFt240 autoClear o := by
  cases w with
  | plain act =>
    simp only [ft240Work] at hs
    split at hs
    · rename_i hmem
      exact ⟨still, legal_still autoClear, ft240Plain_is_next still h hmem (ft240_awaits hs)⟩
    · cases hs
  | canRead sense falls =>
    obtain ⟨usb, -, hgoes⟩ := Option.bind_eq_some_iff.mp hs
    have hwaits := ft240_awaits hgoes
    obtain ⟨rx, tx, htask⟩ := read_of_canRead hwaits
    have hdelay := delay_of_awaits h hwaits (by simp)
    refine ⟨found autoClear sense falls [] [], legal_found autoClear _ _ _ _, ?_⟩
    change e.firmware.ft240Task = _ at htask
    simp only [Env.nextFt240, hdelay, htask]
    rfl
  | take sense strobes =>
    obtain ⟨rx, tx, usb, hdelay, htask, hmade, hreads⟩ := made_of_take h hs
    refine ⟨found autoClear sense false strobes [], legal_found autoClear _ _ _ _, ?_⟩
    simp only [Env.nextFt240, hdelay, htask]
    cases sense with
    | false =>
      obtain rfl : strobes = [] := List.map_eq_nil_iff.mp hmade
      rfl
    | true => exact congrArg (Ft240Work.take true) (strobes_found hmade hreads).symm
  | delay =>
    simp only [ft240Work] at hs
    split at hs
    · rename_i htask hdelay
      refine ⟨still, legal_still autoClear, ?_⟩
      simp only [Env.nextFt240, hdelay, htask]
    · cases hs
  | readTick =>
    simp only [ft240Work] at hs
    split at hs
    · rename_i timer hdelay
      refine ⟨still, legal_still autoClear, ?_⟩
      simp only [Env.nextFt240, hdelay]
    · cases hs
  | storeWaker =>
    simp only [ft240Work] at hs
    split at hs
    · rename_i timer hdelay
      refine ⟨still, legal_still autoClear, ?_⟩
      simp only [Env.nextFt240, hdelay]
    · cases hs

theorem usart1_awaits {f : Env} {act : Usart1Act} (hs : f.usart1 p act = some e') :
    f.firmware.usart1Task.Awaits act := by
  obtain ⟨t, ht, -⟩ := Option.bind_eq_some_iff.mp hs
  exact usart1Step_awaits ht

theorem usart1Plain_is_next {act : Usart1Act} (o : Outside) (hmem : act ∈ usart1Plain)
    (hwaits : e.firmware.usart1Task.Awaits act) : .plain act = e.nextUsart1 o := by
  simp only [Env.nextUsart1]
  simp only [usart1Plain, List.mem_cons, List.not_mem_nil, or_false] at hmem
  unfold Usart1Task.Awaits at hwaits
  split at hwaits
  case h_10 => exact hwaits.elim
  all_goals
    rename_i htask
    rcases hmem with heq | heq | heq | heq <;> cases heq <;> rw [htask]

theorem nextUsart1_of_canWrite {pins : Levels} (o : Outside)
    (hwaits : e.firmware.usart1Task.Awaits (.canWrite pins)) :
    e.nextUsart1 o = .canWrite (o.sense 0) o.falls := by
  cases htask : e.firmware.usart1Task with
  | greet w | write rx tx w =>
    rw [htask] at hwaits
    cases w with
    | canWrite => simp only [Env.nextUsart1, htask]
    | writing _ | done _ => cases hwaits
  | requestRx | requestTx _ | read _ _ _ | compose _ _ _ =>
    rw [htask] at hwaits
    cases hwaits

theorem nextUsart1_of_strobe {pins : Levels} (o : Outside)
    (hwaits : e.firmware.usart1Task.Awaits (.strobe pins)) :
    e.nextUsart1 o = .strobe (o.sense 0) (o.edges .txe 0 e.usb) := by
  cases htask : e.firmware.usart1Task with
  | greet w | write rx tx w =>
    rw [htask] at hwaits
    cases w with
    | writing n => simp only [Env.nextUsart1, htask]
    | canWrite | done _ => cases hwaits
  | requestRx | requestTx _ | read _ _ _ | compose _ _ _ =>
    rw [htask] at hwaits
    cases hwaits

/-- And so is one that `usart1_reader_task` makes. -/
theorem usart1_is_next {w : Usart1Work} (hs : usart1Work p autoClear e w = some e') :
    ∃ o : Outside, o.Legal autoClear ∧ w = e.nextUsart1 o := by
  cases w with
  | plain act =>
    simp only [usart1Work] at hs
    split at hs
    · rename_i hmem
      exact ⟨still, legal_still autoClear, usart1Plain_is_next still hmem (usart1_awaits hs)⟩
    · cases hs
  | canWrite sense falls =>
    obtain ⟨usb, -, hgoes⟩ := Option.bind_eq_some_iff.mp hs
    refine ⟨found autoClear sense falls [] [], legal_found autoClear _ _ _ _, ?_⟩
    have hwaits := usart1_awaits hgoes
    rw [nextUsart1_of_canWrite (e := e) _ hwaits]
    rfl
  | strobe sense edges =>
    obtain ⟨usb, husb, hgoes⟩ := Option.bind_eq_some_iff.mp hs
    refine ⟨found autoClear sense false [] edges, legal_found autoClear _ _ _ _, ?_⟩
    have hmade : (runFun (Ft240x.step autoClear) e.usb (strobeActs .txe edges)).isSome = true :=
      Option.isSome_iff_exists.mpr ⟨usb, husb⟩
    have hedges : (found autoClear sense false [] edges).edges .txe 0 e.usb = edges := if_pos hmade
    have hwaits := usart1_awaits hgoes
    rw [nextUsart1_of_strobe (e := e) _ hwaits, hedges]
    rfl

theorem work_is_next {w : Work} {wakes : Bool} (h : Sound p e)
    (hs : work p autoClear e w = some (wakes, e')) :
    ∃ o : Outside, o.Legal autoClear ∧
      ((e.turn = .ft240 ∧ w = .ft240 (e.nextFt240 autoClear o)) ∨
        (e.turn = .usart1 ∧ w = .usart1 (e.nextUsart1 o))) := by
  cases w with
  | ft240 w =>
    by_cases hturn : e.turn = .ft240
    · simp only [work, if_pos hturn] at hs
      obtain ⟨u, hu, -⟩ := Option.bind_eq_some_iff.mp hs
      obtain ⟨o, ho, rfl⟩ := ft240_is_next h hu
      exact ⟨o, ho, .inl ⟨hturn, rfl⟩⟩
    · simp only [work, if_neg hturn] at hs
      cases hs
  | usart1 w =>
    by_cases hturn : e.turn = .usart1
    · simp only [work, if_pos hturn] at hs
      obtain ⟨u, hu, -⟩ := Option.bind_eq_some_iff.mp hs
      obtain ⟨o, ho, rfl⟩ := usart1_is_next hu
      exact ⟨o, ho, .inr ⟨hturn, rfl⟩⟩
    · simp only [work, if_neg hturn] at hs
      cases hs

end Tasks

/-- The program makes no step of its own but its next one. -/
theorem step_is_next {s t : State} {act : Executor.Act Work Interrupt} (h : Sound p s.env)
    (hs : step p autoClear s (.run act) = some t) (hact : ∀ i, act ≠ .interrupt i) :
    ∃ o : Outside, o.Legal autoClear ∧ act = next autoClear o s := by
  obtain ⟨rfl, hpc, -⟩ | ⟨w, wakes, env, rfl, hpc, hw, rfl⟩ |
    ⟨answer, pc, rfl, hpc, hanswer, -⟩ | ⟨rfl, hpc, -⟩ | ⟨i, wakes, env, rfl, -, -⟩ :=
    Executor.step_cases (run_step hs).2
  · refine ⟨still, legal_still autoClear, ?_⟩
    rw [next, hpc]
  · obtain ⟨o, ho, ⟨hturn, rfl⟩ | ⟨hturn, rfl⟩⟩ := work_is_next h hw
    · refine ⟨o, ho, ?_⟩
      simp only [next, hpc, hturn]
    · refine ⟨o, ho, ?_⟩
      simp only [next, hpc, hturn]
  · refine ⟨still, legal_still autoClear, ?_⟩
    simp only [program] at hanswer
    split at hanswer
    · rename_i hturn
      simp only [next, hpc, hturn]
    · cases hanswer
  · refine ⟨still, legal_still autoClear, ?_⟩
    rw [next, hpc]
  · exact absurd rfl (hact i)

/-! ## The panic -/

/-- The count of the timer, and where its routine panics. -/
structure Ticks (p : Profile) (e : Env) : Prop where
  tick_lt : e.timer.tickCount < 65536
  trapped : e.trapped = true → p.overflowChecks = true ∧ e.timer.tickCount = 65535

/-- The step in which the routine panics. -/
def Traps (p : Profile) (s : State) (act : Act) : Prop :=
  act = .run (.interrupt .timer1Compa) ∧ p.overflowChecks = true ∧ s.env.timer.tickCount = 65535

section Panic

variable {e e' : Env}

/-- The tasks do not count. -/
theorem work_counts {w : Work} {wakes : Bool} (hmain : e.usb.pc = .main)
    (hs : work p autoClear e w = some (wakes, e')) :
    e'.timer.tickCount = e.timer.tickCount ∧ e'.trapped = e.trapped := by
  obtain ⟨w', rfl, -, hmoves⟩ | ⟨w', rfl, -, hmoves⟩ := work_cases hmain hs
  · cases hmoves with
    | goes act hgoes hact hw husb hdelay =>
      exact ⟨congrArg TimerStatics.tickCount hgoes.timer, hgoes.trapped⟩
    | polls sense falls hgoes husb hdelay =>
      exact ⟨congrArg TimerStatics.tickCount hgoes.timer, hgoes.trapped⟩
    | makesDelay htask hdelay => exact ⟨rfl, rfl⟩
    | readsTick timer hdelay => exact ⟨rfl, rfl⟩
    | storesWaker timer hdelay => exact ⟨rfl, rfl⟩
  · cases hmoves with
    | goes act hgoes hact husb =>
      exact ⟨congrArg TimerStatics.tickCount hgoes.timer, hgoes.trapped⟩
    | polls sense falls hgoes husb =>
      exact ⟨congrArg TimerStatics.tickCount hgoes.timer, hgoes.trapped⟩

/-- The routine of the timer counts, or panics; the others do neither. -/
theorem interrupt_counts {i : Interrupt} {wakes : Bool} (h : Ticks p e)
    (hs : interrupt p autoClear e i = some (wakes, e')) :
    (i = .timer1Compa ∧ p.overflowChecks = true ∧ e.timer.tickCount = 65535 ∧
      e' = { e with trapped := true }) ∨
    (¬ (i = .timer1Compa ∧ p.overflowChecks = true ∧ e.timer.tickCount = 65535) ∧
      e'.timer.tickCount < 65536 ∧ e'.trapped = e.trapped) := by
  cases i with
  | usart1Rx byte =>
    cases hs
    refine .inr ⟨?_, h.tick_lt, rfl⟩
    rintro ⟨htimer, -⟩
    cases htimer
  | usart1Udre =>
    obtain ⟨t, -, hs⟩ := Option.bind_eq_some_iff.mp hs
    cases hs
    refine .inr ⟨?_, h.tick_lt, rfl⟩
    rintro ⟨htimer, -⟩
    cases htimer
  | timer1Compa =>
    simp only [interrupt] at hs
    rcases TimerRuns.timer1Compa_spec p h.tick_lt with ⟨⟨hp, htop⟩, panic, heq⟩ | ⟨hroom, heq⟩
    · rw [heq] at hs
      cases hs
      exact .inl ⟨rfl, hp, htop, rfl⟩
    · rw [heq] at hs
      cases hs
      exact .inr ⟨fun htop => hroom htop.2, Nat.mod_lt _ (by decide), rfl⟩
  | line line falls =>
    obtain ⟨usb, -, hs⟩ := Option.bind_eq_some_iff.mp hs
    cases hs
    refine .inr ⟨?_, h.tick_lt, rfl⟩
    rintro ⟨htimer, -⟩
    cases htimer

/-- **Step lemma.** -/
theorem ticks_step {s t : State} {act : Act} (hsound : Sound p s.env) (h : Ticks p s.env)
    (hs : step p autoClear s act = some t) :
    Ticks p t.env ∧ (t.env.trapped = true ↔ s.env.trapped = true ∨ Traps p s act) := by
  -- a step that leaves the count and the flag
  have of_same : t.env.timer.tickCount = s.env.timer.tickCount →
      t.env.trapped = s.env.trapped → ¬ Traps p s act →
      Ticks p t.env ∧ (t.env.trapped = true ↔ s.env.trapped = true ∨ Traps p s act) := by
    intro htick htrapped hnot
    refine ⟨⟨?_, ?_⟩, ?_⟩
    · rw [htick]
      exact h.tick_lt
    · rw [htick, htrapped]
      exact h.trapped
    · rw [htrapped]
      exact ⟨.inl, fun h => h.resolve_right hnot⟩
  cases act with
  | run act =>
    obtain ⟨hgoes, hrun⟩ := run_step hs
    obtain ⟨rfl, -, ⟨-, rfl⟩ | ⟨-, rfl⟩⟩ | ⟨w, wakes, env, rfl, -, hw, rfl⟩ |
      ⟨answer, pc, rfl, -, -, -, rfl⟩ | ⟨rfl, -, rfl⟩ | ⟨i, wakes, env, rfl, hint, rfl⟩ :=
      Executor.step_cases hrun
    · exact of_same rfl rfl nofun
    · exact of_same rfl rfl nofun
    · obtain ⟨htick, htrapped⟩ := work_counts hsound.main hw
      exact of_same htick htrapped nofun
    · exact of_same rfl rfl nofun
    · exact of_same rfl rfl nofun
    · rcases interrupt_counts h hint with ⟨rfl, hp, htop, rfl⟩ | ⟨hnot, hlt, htrapped⟩
      · refine ⟨⟨h.tick_lt, fun _ => ⟨hp, htop⟩⟩, ?_⟩
        exact ⟨fun _ => .inr ⟨rfl, hp, htop⟩, fun _ => rfl⟩
      · refine ⟨⟨hlt, ?_⟩, ?_⟩
        · intro hstopped
          rw [show s.env.trapped = true from htrapped.symm.trans hstopped] at hgoes
          cases hgoes
        · constructor
          · intro hstopped
            exact .inl (htrapped.symm.trans hstopped)
          · rintro (hstopped | ⟨heq, htop⟩)
            · exact htrapped.trans hstopped
            · cases heq
              exact absurd ⟨rfl, htop⟩ hnot
  | edge edge =>
    obtain ⟨usb, -, hs⟩ := Option.bind_eq_some_iff.mp hs
    cases hs
    exact of_same rfl rfl nofun

theorem ticks_of_reachable {s : State} (h : (system p autoClear rxfLow txeLow).Reachable s) :
    Ticks p s.env := by
  have hboth : Sound p s.env ∧ Ticks p s.env := by
    refine System.Reachable.invariant (I := fun s => Sound p s.env ∧ Ticks p s.env) ?_ ?_ h
    · rintro s rfl
      exact ⟨⟨.init rfl, rfl, fun hdelay => absurd rfl hdelay⟩, Nat.succ_pos _, nofun⟩
    · rintro s act t ⟨hsound, hticks⟩ hs
      exact ⟨sound_step hsound hs, (ticks_step hsound hticks hs).1⟩
  exact hboth.2

end Panic

/-! ## The program goes on -/

theorem exists_next {s : State} {o : Outside} (ho : o.Legal autoClear) (h : Sound p s.env)
    (hgoes : s.env.trapped = false) (hfinished : s.pc ≠ .finished) (hasleep : s.pc ≠ .asleep) :
    (step p autoClear s (.run (next autoClear o s))).isSome = true := by
  rw [step_run hgoes]
  obtain ⟨pc, signal, env⟩ := s
  cases pc with
  | top => cases signal <;> rfl
  | polling =>
    cases hturn : env.turn with
    | ft240 =>
      obtain ⟨e', he⟩ := exists_nextFt240 ho h
      simp [next, hturn, Executor.step, program, work, he]
    | usart1 =>
      obtain ⟨e', he⟩ := exists_nextUsart1 ho h
      simp [next, hturn, Executor.step, program, work, he]
    | done => simp [next, hturn, Executor.step, program]
  | sleep => rfl
  | asleep => exact absurd rfl hasleep
  | finished => exact absurd rfl hfinished

/-- **The program keeps to its tasks and goes on.** Whatever the `Join`, the interrupts and the
chip make of a run, to the tasks it is a run of `Firmware`. It stops exactly with the panic of
`TIMER1_COMPA`, behind which only the lines move; before that, and until the processor sleeps, it
has its next step, whatever it finds at the pins, and interrupts apart no other. -/
theorem tasks_of_run (p : Profile) (autoClear rxfLow txeLow : Bool) (s : State)
    (h : (system p autoClear rxfLow txeLow).Reachable s) :
    (Firmware.system p).Reachable s.env.firmware ∧ s.pc ≠ .finished ∧
    (∀ act t, step p autoClear s act = some t →
      (t.env.trapped = true ↔ s.env.trapped = true ∨ Traps p s act)) ∧
    (s.env.trapped = true → ∀ act, step p autoClear s (.run act) = none) ∧
    (s.env.trapped = false → s.pc ≠ .asleep → ∀ o : Outside, o.Legal autoClear →
      (step p autoClear s (.run (next autoClear o s))).isSome = true) ∧
    (∀ act t, step p autoClear s (.run act) = some t → (∀ i, act ≠ .interrupt i) →
      ∃ o : Outside, o.Legal autoClear ∧ act = next autoClear o s) := by
  obtain ⟨hsound, hfinished⟩ := sound_of_reachable h
  have hticks := ticks_of_reachable h
  refine ⟨hsound.firmware, hfinished, ?_, ?_, ?_, ?_⟩
  · intro act t hs
    exact (ticks_step hsound hticks hs).2
  · intro hstopped act
    exact if_pos hstopped
  · intro hgoes hasleep o ho
    exact exists_next ho hsound hgoes hfinished hasleep
  · intro act t hs hact
    exact step_is_next hsound hs hact

theorem tasks_of_run_greetings :
    ∃ s, (system .release true false true).Reachable s ∧ s.pc = .sleep ∧
      s.env.firmware.uart.udr1 = usbGreeting ∧ s.env.trapped = false ∧
      (Firmware.system .release).Reachable s.env.firmware ∧ s.pc ≠ .finished ∧
      (s.env.trapped = false → s.pc ≠ .asleep → ∀ o : Outside, o.Legal true →
        (step .release true s (.run (next true o s))).isSome = true) ∧
      (∀ act t, step .release true s (.run act) = some t → (∀ i, act ≠ .interrupt i) →
        ∃ o : Outside, o.Legal true ∧ act = next true o s) := by
  obtain ⟨s, hs, htest⟩ := exists_reachable_of_runFun greetings
    (fun s => s.pc == .sleep && s.env.firmware.uart.udr1 == usbGreeting && !s.env.trapped)
    (show (system .release true false true).Reachable (start false true) from .init rfl)
    (by decide +kernel)
  simp only [Bool.and_eq_true, beq_iff_eq, Bool.not_eq_true'] at htest
  obtain ⟨⟨hpc, hudr1⟩, hgoes⟩ := htest
  obtain ⟨hfirmware, hfinished, -, -, hnext, honly⟩ := tasks_of_run .release true false true s hs
  exact ⟨s, hs, hpc, hudr1, hgoes, hfirmware, hfinished, hnext, honly⟩

end AvrBridge.Bridge
