import AvrBridge.FirmwareTrace

/-! The frames that `usart1_reader_task` receives. Whatever the timing, they are the frames into
which the bytes in the order of their arrival are cut, behind a line feed or behind as many bytes
as the buffer has places; what is strobed into the FT240 for each of them begins its report. -/

namespace AvrBridge.Firmware

open Rust Lts Tasks Framing ConstCircularBuffer

/-! ## Frames and reports -/

def endsFrame (byte : UInt8) : Bool := byte == term

/-- What `read_to` answers for a frame: a full buffer is an error. -/
def answerOf (frame : List UInt8) : Except ReadError ReadStatus :=
  if term ∈ frame then .ok (.complete frame.length) else .error .destinationEmpty

/-- The message for a frame. -/
def uartReport (frame : List UInt8) : List UInt8 :=
  if term ∈ frame then frameMessage frame frame.length else asBytes "Error: "

theorem uartReport_ne_nil (frame : List UInt8) : uartReport frame ≠ [] := by
  unfold uartReport
  split
  · exact frameMessage_ne_nil
  · decide

theorem quiet_iff {xs : List UInt8} : (∀ x ∈ xs, endsFrame x = false) ↔ term ∉ xs := by
  constructor
  · intro h hmem
    have := h term hmem
    rw [endsFrame, beq_self_eq_true] at this
    cases this
  · intro h x hx
    rw [endsFrame, beq_eq_false_iff_ne]
    rintro rfl
    exact h hx

/-- The answer for a frame covers the frame. -/
theorem covered_answerOf {frame row : List UInt8} (h : Frame endsFrame bufferSize frame)
    (hrow : row.length = bufferSize) (htake : row.take frame.length = frame) :
    covered row (answerOf frame) = frame := by
  unfold answerOf
  split
  · exact htake
  · rename_i hterm
    have hlen := h.length_eq (quiet_iff.mpr hterm)
    rw [hlen, ← hrow, List.take_length] at htake
    exact htake

/-! ## The critical section of `read_to` -/

section Serve

variable {r : UsartReader} {row part : List UInt8}

/-- What a critical section leaves that has stored the next `k` bytes of the ring behind the
stretch `part`. -/
structure Stores (r : UsartReader) (part : List UInt8) (k : Nat) (r' : UsartReader)
    (row' : List UInt8) : Prop where
  pos : 0 < k
  length_eq : (part ++ r.buffer.queue.take k).length = part.length + k
  wf : r'.buffer.WF
  queue : r'.buffer.queue = r.buffer.queue.drop k
  length_row : row'.length = bufferSize
  take_row : row'.take (part.length + k) = part ++ r.buffer.queue.take k

theorem stores_advance (hwf : r.buffer.WF) (hrow : row.length = bufferSize)
    (htake : row.take part.length = part) {k : Nat} (hpos : 0 < k) (hk : k ≤ r.buffer.len)
    (hfit : part.length + k ≤ bufferSize) :
    Stores r part k (r.reassert (r.buffer.advance k))
      (Window.splice row part.length (r.buffer.queue.take k ++ (row.drop part.length).drop k)) := by
  have hcur : row = (part ++ r.buffer.queue).take part.length ++ row.drop part.length := by
    have hsplit := List.take_append_drop part.length row
    rw [htake] at hsplit
    rw [List.take_left, hsplit]
  have hp : UartReadTo.Progress (part ++ r.buffer.queue) row r row [] part.length :=
    ⟨hwf, hcur, by rw [List.append_nil, List.drop_left]⟩
  have hstream : (part ++ r.buffer.queue).length = part.length + r.buffer.len := by
    rw [List.length_append, hwf.length_queue]
  have hadv := hp.advance (by omega) (by omega) hk
  have htaken : ((part ++ r.buffer.queue).take (part.length + k)).length = part.length + k := by
    rw [List.length_take]
    omega
  refine ⟨hpos, ?_, hadv.wf, ?_, (hadv.length_cur (by omega) (by omega)).trans hrow, ?_⟩
  · rw [List.length_append, List.length_take, hwf.length_queue]
    omega
  · rw [← List.append_nil (UsartReader.buffer _).queue, hadv.stream_eq,
      List.drop_length_add_append]
  · rw [hadv.cur_eq, List.take_left' htaken, List.take_length_add_append]

/-- **The critical section** on a stretch that goes on takes bytes off the ring, and is over
exactly with the last byte of a frame. -/
theorem serve_stores (hwf : r.buffer.WF) (hqueue : r.buffer.queue ≠ [])
    (hrow : row.length = bufferSize) (hpart : Unfinished endsFrame bufferSize part)
    (htake : row.take part.length = part) :
    ∃ k future r' row', UartReadTo.serve r term row part.length = .ok (future, r', row') ∧
      Stores r part k r' row' ∧
      ((future = .canRead (part.length + k) ∧
          Unfinished endsFrame bufferSize (part ++ r.buffer.queue.take k)) ∨
        (future = .done (answerOf (part ++ r.buffer.queue.take k)) ∧
          Frame endsFrame bufferSize (part ++ r.buffer.queue.take k))) := by
  have hlt := hpart.length_lt
  have hlen := hwf.length_queue
  have hrest : sliceOf row part.length row.length = .ok (row.drop part.length) :=
    sliceOf_length (by omega)
  have hdest : row.drop part.length ≠ [] := by
    rw [Ne, List.drop_eq_nil_iff]
    omega
  have hread := readTo_eq hwf term hdest hqueue
  obtain ⟨n, hmin⟩ : ∃ n, n = min (row.drop part.length).length r.buffer.len := ⟨_, rfl⟩
  rw [← hmin] at hread
  rw [List.length_drop] at hmin
  have hpos := List.length_pos_iff.mpr hqueue
  simp only [UartReadTo.serve, hrest, ok_bind, UsartReader.takeTo, hread]
  cases hfind : (r.buffer.queue.take n).findIdx? (· == term) with
  | some i =>
    obtain ⟨hi, hhit, hbefore⟩ := List.findIdx?_eq_some_iff_getElem.mp hfind
    rw [List.length_take] at hi
    rw [List.getElem_take] at hhit
    have hiq : i < r.buffer.queue.length := by omega
    have hstores := stores_advance hwf hrow htake (k := i + 1) (by omega) (by omega) (by omega)
    have hquiet : ∀ x ∈ r.buffer.queue.take i, endsFrame x = false := by
      intro x hx
      obtain ⟨j, hj, rfl⟩ := List.getElem_of_mem hx
      rw [List.length_take] at hj
      have hmiss := hbefore j (by omega)
      rw [List.getElem_take] at hmiss
      rw [List.getElem_take]
      exact Bool.eq_false_iff.mpr hmiss
    have hbody : Unfinished endsFrame bufferSize (part ++ r.buffer.queue.take i) := by
      apply hpart.append hquiet
      rw [List.length_take]
      omega
    have hsplit : part ++ r.buffer.queue.take (i + 1) =
        (part ++ r.buffer.queue.take i) ++ [r.buffer.queue[i]] := by
      rw [List.append_assoc, List.take_append_getElem hiq]
    have hframe : Frame endsFrame bufferSize (part ++ r.buffer.queue.take (i + 1)) := by
      rw [hsplit]
      exact hbody.frame hhit
    have hmem : term ∈ part ++ r.buffer.queue.take (i + 1) := by
      rw [hsplit, ← beq_iff_eq.mp hhit]
      exact List.mem_append_right _ (List.mem_singleton_self _)
    have hanswer : answerOf (part ++ r.buffer.queue.take (i + 1)) =
        .ok (.complete (part.length + (i + 1))) := by
      rw [answerOf, if_pos hmem, List.length_append, List.length_take]
      congr 2
      omega
    exact ⟨i + 1, _, _, _, rfl, hstores, .inr ⟨by rw [hanswer], hframe⟩⟩
  | none =>
    have hstores := stores_advance hwf hrow htake (k := n) (by omega) (by omega) (by omega)
    have hquiet : ∀ x ∈ r.buffer.queue.take n, endsFrame x = false :=
      List.findIdx?_eq_none_iff.mp hfind
    by_cases hfull : part.length + n = bufferSize
    · have henter := UartReadTo.enter_full
        (Window.splice row part.length (r.buffer.queue.take n ++ (row.drop part.length).drop n))
      rw [hstores.length_row, ← hfull] at henter
      have hall : ∀ x ∈ part ++ r.buffer.queue.take n, endsFrame x = false := by
        intro x hx
        rcases List.mem_append.mp hx with hx | hx
        · exact hpart.quiet x hx
        · exact hquiet x hx
      have hlength : (part ++ r.buffer.queue.take n).length = bufferSize := by
        rw [List.length_append, List.length_take]
        omega
      have hanswer : answerOf (part ++ r.buffer.queue.take n) = .error .destinationEmpty :=
        if_neg (quiet_iff.mp hall)
      simp only [henter, ok_bind]
      exact ⟨n, _, _, _, rfl, hstores,
        .inr ⟨by rw [hanswer], frame_of_length_eq hall hlength (by decide)⟩⟩
    · have henter : UartReadTo.enter
          (Window.splice row part.length (r.buffer.queue.take n ++ (row.drop part.length).drop n))
          (part.length + n) = .ok (.canRead (part.length + n)) := by
        apply UartReadTo.enter_of_lt
        rw [hstores.length_row]
        omega
      have hgoes : Unfinished endsFrame bufferSize (part ++ r.buffer.queue.take n) := by
        apply hpart.append hquiet
        rw [List.length_take]
        omega
      simp only [henter, ok_bind]
      exact ⟨n, _, _, _, rfl, hstores, .inl ⟨rfl, hgoes⟩⟩

end Serve

/-! ## The account of a run -/

/-- An iteration of the task: its frame and what has been strobed of its report. -/
structure Forward where
  frame : List UInt8
  strobed : List UInt8
  deriving DecidableEq, Repr

def Forward.events (f : Forward) : List Event :=
  .frame f.frame (answerOf f.frame) :: f.strobed.map .strobe

/-- What has been strobed of the greeting, the iterations, and the stretch in the buffer that
is no frame yet. -/
structure Account where
  greeting : List UInt8
  forwards : List Forward
  part : List UInt8
  deriving DecidableEq, Repr

namespace Account

/-- The bytes taken off the ring. -/
def taken (a : Account) : List UInt8 := (a.forwards.map Forward.frame).flatten ++ a.part

def events (a : Account) : List Event :=
  a.greeting.map .strobe ++ a.forwards.flatMap Forward.events

end Account

/-- A row of the size the tasks rely on. -/
def Whole (rows : List (List UInt8)) (i : Nat) : Prop :=
  ∃ row, rows[i]? = some row ∧ row.length = bufferSize

/-- `n` bytes of the message have been strobed, and the call is not over. -/
def Sends (message : List UInt8) (n : Nat) : UsbWrite → Prop
  | .canWrite => n = 0
  | .writing k => k = n ∧ n < message.length
  | .done _ => False

/-- What `usart1_reader_task` relies on at its place, under this account. -/
def Usart1Task.At (rows : List (List UInt8)) (r : UsartReader) (a : Account) : Usart1Task → Prop
  | .greet w => a.forwards = [] ∧ a.part = [] ∧
      ∃ n, Sends uartGreeting n w ∧ a.greeting = uartGreeting.take n
  | .requestRx => a.forwards = [] ∧ a.part = []
  | .requestTx rx => a.forwards = [] ∧ a.part = [] ∧ Whole rows rx.ptr
  | .read rx tx call => tx = tx.reset ∧ Whole rows tx.slot ∧
      (∃ row, rows[rx.ptr]? = some row ∧ row.length = bufferSize ∧
        row.take a.part.length = a.part) ∧
      (call = .canRead a.part.length ∨ call = .take a.part.length ∧ r.buffer.queue ≠ [])
  | .compose rx tx result => tx = tx.reset ∧ Whole rows tx.slot ∧ a.part = [] ∧
      ∃ past frame row, a.forwards = past ++ [⟨frame, []⟩] ∧ result = answerOf frame ∧
        rows[rx.ptr]? = some row ∧ row.length = bufferSize ∧ row.take frame.length = frame
  | .write rx tx w => Whole rows rx.ptr ∧ a.part = [] ∧
      ∃ past frame n row, a.forwards = past ++ [⟨frame, (uartReport frame).take n⟩] ∧
        Sends (uartReport frame) n w ∧ rows[tx.slot]? = some row ∧
        Filled ⟨tx.rPos, tx.wPos, tx.len, row⟩ bufferSize (uartReport frame)

structure Accounts (s : State) (a : Account) : Prop where
  ring : s.reader.buffer.WF
  greeting : a.greeting <+: uartGreeting
  forwards : ∀ f ∈ a.forwards, Frame endsFrame bufferSize f.frame ∧
    f.strobed <+: uartReport f.frame
  part : Unfinished endsFrame bufferSize a.part
  task : s.usart1Task.At s.pool.pool s.reader a

/-- The step `act` from `s` to `t` takes the account `a` to `b`. -/
structure Carries (s : State) (act : Act) (t : State) (a b : Account) : Prop where
  accounts : Accounts t b
  bytes : b.taken ++ t.reader.buffer.queue = a.taken ++ s.reader.buffer.queue ++ accepts s act
  events : b.events = a.events ++ (strobes s act).map .strobe ++ answers t act

section Carries

variable {p : Profile} {s t : State} {a b : Account} {act : Act}

/-- A step that moves no byte. -/
theorem carries_self (h : Accounts s a) (hreader : t.reader.buffer = s.reader.buffer)
    (haccepts : accepts s act = []) (hstrobes : strobes s act = []) (hanswers : answers t act = [])
    (htask : t.usart1Task.At t.pool.pool t.reader a) : Carries s act t a a := by
  constructor
  · refine ⟨?_, h.greeting, h.forwards, h.part, htask⟩
    rw [hreader]
    exact h.ring
  · rw [hreader, haccepts, List.append_nil]
  · rw [hstrobes, hanswers, List.map_nil, List.append_nil, List.append_nil]

/-- What the task relies on is in its own rows and in a ring that is not emptied by others. -/
theorem Usart1Task.At.frame {task : Usart1Task} {rows rows' : List (List UInt8)}
    {r r' : UsartReader} (h : task.At rows r a) (hrows : ∀ i ∈ task.slots, rows'[i]? = rows[i]?)
    (hqueue : r.buffer.queue ≠ [] → r'.buffer.queue ≠ []) : task.At rows' r' a := by
  cases task with
  | greet w => exact h
  | requestRx => exact h
  | requestTx rx =>
    have hrx := hrows rx.ptr (List.mem_singleton_self _)
    simp only [Usart1Task.At, Whole] at h ⊢
    rw [hrx]
    exact h
  | read rx tx call =>
    have hrx := hrows rx.ptr (List.mem_cons_self ..)
    have htx := hrows tx.slot (List.mem_cons_of_mem _ (List.mem_cons_self ..))
    obtain ⟨hreset, hwhole, hrow, hcall⟩ := h
    simp only [Usart1Task.At, Whole]
    rw [hrx, htx]
    refine ⟨hreset, hwhole, hrow, hcall.imp_right ?_⟩
    rintro ⟨htake, hne⟩
    exact ⟨htake, hqueue hne⟩
  | compose rx tx result =>
    have hrx := hrows rx.ptr (List.mem_cons_self ..)
    have htx := hrows tx.slot (List.mem_cons_of_mem _ (List.mem_cons_self ..))
    simp only [Usart1Task.At, Whole] at h ⊢
    rw [hrx, htx]
    exact h
  | write rx tx w =>
    have hrx := hrows rx.ptr (List.mem_cons_self ..)
    have htx := hrows tx.slot (List.mem_cons_of_mem _ (List.mem_cons_self ..))
    simp only [Usart1Task.At, Whole] at h ⊢
    rw [hrx, htx]
    exact h

/-! ## The interrupt and the other task -/

theorem usart1Rx_carries (h : Accounts s a) (byte : UInt8) :
    ∃ t, step p s (.usart1Rx byte) = some t ∧ Carries s (.usart1Rx byte) t a a := by
  refine ⟨{ s with reader := (s.reader.usart1Rx byte).2 }, rfl, ?_⟩
  rcases Nat.lt_or_eq_of_le h.ring.len_le with hroom | hfull
  · obtain ⟨hwf, hqueue⟩ := UsartReader.usart1Rx_of_room h.ring hroom byte
    have haccepts : accepts s (.usart1Rx byte) = [byte] := by
      rw [accepts, if_neg]
      rw [isFull_iff]
      exact Nat.ne_of_lt hroom
    constructor
    · refine ⟨hwf, h.greeting, h.forwards, h.part, ?_⟩
      refine h.task.frame (fun i hi => rfl) ?_
      intro hne hnil
      rw [hqueue] at hnil
      exact hne (List.append_eq_nil_iff.mp hnil).1
    · rw [haccepts]
      show a.taken ++ (s.reader.usart1Rx byte).2.buffer.queue = _
      rw [hqueue, List.append_assoc]
    · show a.events = a.events ++ [] ++ []
      rw [List.append_nil, List.append_nil]
  · have hbuffer := UsartReader.usart1Rx_of_full hfull byte
    have haccepts : accepts s (.usart1Rx byte) = [] := by
      rw [accepts, if_pos (isFull_iff.mpr hfull)]
    refine carries_self h hbuffer haccepts rfl rfl ?_
    refine h.task.frame (fun i hi => rfl) ?_
    intro hne
    rw [hbuffer]
    exact hne

theorem ft240_carries {act : Ft240Act} (hinv : Inv s) (h : Accounts s a)
    (hs : ft240Step p s act = some t) : Carries s (.ft240 act) t a a := by
  obtain ⟨htask, hreader, hrows⟩ := ft240Step_spares hs
  refine carries_self h (by rw [hreader]) rfl rfl rfl ?_
  rw [htask, hreader]
  refine h.task.frame ?_ id
  intro i hi
  apply hrows
  intro hmem
  exact List.disjoint_of_nodup_append hinv.nodup hmem hi

/-! ## The steps of `usart1_reader_task` -/

section NextRead

variable {rows : List (List UInt8)} {rx : Storage}

theorem nextReadTo_eq (h : Whole rows rx.ptr) (tx : TxBuffer) :
    nextReadTo rows rx tx = .ok (.read rx tx.reset (.canRead 0)) := by
  obtain ⟨row, hrow, hlen⟩ := h
  have henter : UartReadTo.enter row 0 = .ok (.canRead 0) := by
    apply UartReadTo.enter_of_lt
    rw [hlen]
    decide
  simp only [nextReadTo, index_ok hrow, henter, ok_bind]
  rfl

theorem at_nextReadTo {tx : TxBuffer} (hrx : Whole rows rx.ptr) (htx : Whole rows tx.slot)
    (hpart : a.part = []) (r : UsartReader) :
    (Usart1Task.read rx tx.reset (.canRead 0)).At rows r a := by
  obtain ⟨row, hrow, hlen⟩ := hrx
  refine ⟨rfl, htx, ⟨row, hrow, hlen, ?_⟩, .inl ?_⟩
  · rw [hpart]
    rfl
  · rw [hpart]
    rfl

end NextRead

theorem canWrite_carries (h : Accounts s a) {pins : Levels}
    (hwaits : s.usart1Task.Awaits (.canWrite pins)) :
    ∃ t, usart1Step p s (.canWrite pins) = some t ∧
      Carries s (.usart1 (.canWrite pins)) t a a := by
  have hat := h.task
  cases ht : s.usart1Task with
  | greet w =>
    rw [ht] at hat
    cases w with
    | canWrite =>
      obtain ⟨hforwards, hpart, n, rfl, hgreeting⟩ := hat
      rcases UsbWrite.await_cases pins with hw | hw | hw
      · refine ⟨{ s with usart1Task := .greet .canWrite }, ?_, carries_self h rfl rfl rfl rfl ?_⟩
        · unfold usart1Step
          simp only [ht, hw]
        · exact ⟨hforwards, hpart, 0, rfl, hgreeting⟩
      · refine ⟨{ s with usart1Task := .greet (.writing 0) }, ?_,
          carries_self h rfl rfl rfl rfl ?_⟩
        · unfold usart1Step
          simp only [ht, hw]
        · exact ⟨hforwards, hpart, 0, ⟨rfl, by decide⟩, hgreeting⟩
      · refine ⟨{ s with usart1Task := .requestRx }, ?_, carries_self h rfl rfl rfl rfl ?_⟩
        · unfold usart1Step
          simp only [ht, hw]
        · exact ⟨hforwards, hpart⟩
    | writing _ | done _ =>
      rw [ht] at hwaits
      cases hwaits
  | write rx tx w =>
    rw [ht] at hat
    cases w with
    | canWrite =>
      obtain ⟨hrx, hpart, past, frame, n, row, hforwards, rfl, hrow, hfilled⟩ := hat
      have hpos := List.length_pos_iff.mpr (uartReport_ne_nil frame)
      rcases UsbWrite.await_cases pins with hw | hw | hw
      · refine ⟨{ s with usart1Task := .write rx tx .canWrite }, ?_,
          carries_self h rfl rfl rfl rfl ?_⟩
        · unfold usart1Step
          simp only [ht, hw]
          rfl
        · exact ⟨hrx, hpart, past, frame, 0, row, hforwards, rfl, hrow, hfilled⟩
      · refine ⟨{ s with usart1Task := .write rx tx (.writing 0) }, ?_,
          carries_self h rfl rfl rfl rfl ?_⟩
        · unfold usart1Step
          simp only [ht, hw]
          rfl
        · exact ⟨hrx, hpart, past, frame, 0, row, hforwards, ⟨rfl, hpos⟩, hrow, hfilled⟩
      · refine ⟨{ s with usart1Task := .read rx tx.reset (.canRead 0) }, ?_,
          carries_self h rfl rfl rfl rfl ?_⟩
        · unfold usart1Step
          simp only [ht, hw, nextReadTo_eq hrx]
          rfl
        · exact at_nextReadTo hrx ⟨row, hrow, hfilled.length_buf⟩ hpart _
    | writing _ | done _ =>
      rw [ht] at hwaits
      cases hwaits
  | requestRx | requestTx _ | read _ _ _ | compose _ _ _ =>
    rw [ht] at hwaits
    cases hwaits

/-- One more byte strobed of the last report. -/
theorem events_strobe (greeting : List UInt8) (past : List Forward)
    (frame strobed part : List UInt8) (byte : UInt8) :
    Account.events ⟨greeting, past ++ [⟨frame, strobed ++ [byte]⟩], part⟩ =
      Account.events ⟨greeting, past ++ [⟨frame, strobed⟩], part⟩ ++ [.strobe byte] := by
  simp [Account.events, Forward.events]

theorem strobe_carries (h : Accounts s a) {pins : Levels}
    (hwaits : s.usart1Task.Awaits (.strobe pins)) :
    ∃ t b, usart1Step p s (.strobe pins) = some t ∧
      Carries s (.usart1 (.strobe pins)) t a b := by
  have hat := h.task
  cases ht : s.usart1Task with
  | greet w =>
    rw [ht] at hat
    cases w with
    | writing n =>
      obtain ⟨hforwards, hpart, _, ⟨rfl, hn⟩, hgreeting⟩ := hat
      have hbyte := UsbWrite.strobe_eq hn pins
      have hstrobes : strobes s (.usart1 (.strobe pins)) = [uartGreeting[n]] := by
        simp only [strobes, ht, hbyte]
        rfl
      have hcarries : ∀ t : State, t.reader = s.reader →
          t.usart1Task.At t.pool.pool t.reader { a with greeting := uartGreeting.take (n + 1) } →
          answers t (.usart1 (.strobe pins)) = [] →
          Carries s (.usart1 (.strobe pins)) t a
            { a with greeting := uartGreeting.take (n + 1) } := by
        intro t hreader htask hanswers
        refine ⟨⟨?_, List.take_prefix .., h.forwards, h.part, htask⟩, ?_, ?_⟩
        · rw [hreader]
          exact h.ring
        · rw [hreader]
          exact (List.append_nil _).symm
        · have htake := (List.take_append_getElem hn).symm
          rw [hstrobes, hanswers, Account.events, Account.events, hforwards, hgreeting, htake]
          simp only [List.map_append, List.flatMap_nil, List.append_nil]
      by_cases hstop : n + 1 = uartGreeting.length ∨ pins.txe = true ∨ pins.sense = false
      · refine ⟨{ s with usart1Task := .requestRx }, _, ?_, hcarries _ rfl ?_ rfl⟩
        · unfold usart1Step
          simp only [ht, hbyte, if_pos hstop]
          rfl
        · exact ⟨hforwards, hpart⟩
      · refine ⟨{ s with usart1Task := .greet (.writing (n + 1)) }, _, ?_, hcarries _ rfl ?_ rfl⟩
        · unfold usart1Step
          simp only [ht, hbyte, if_neg hstop]
          rfl
        · exact ⟨hforwards, hpart, n + 1, ⟨rfl, by omega⟩, rfl⟩
    | canWrite | done _ =>
      rw [ht] at hwaits
      cases hwaits
  | write rx tx w =>
    rw [ht] at hat
    cases w with
    | writing n =>
      obtain ⟨hrx, hpart, past, frame, _, row, hforwards, ⟨rfl, hn⟩, hrow, hfilled⟩ := hat
      have hbyte := UsbWrite.strobe_eq hn pins
      have hbuf : tx.asRef s.pool.pool = .ok (uartReport frame) := asRef_eq hrow hfilled
      have hstrobes : strobes s (.usart1 (.strobe pins)) = [(uartReport frame)[n]] := by
        simp only [strobes, ht, hbuf, ok_bind, hbyte]
        rfl
      obtain ⟨b, hb⟩ : ∃ b : Account,
        b = ⟨a.greeting, past ++ [⟨frame, (uartReport frame).take (n + 1)⟩], a.part⟩ := ⟨_, rfl⟩
      have hmem : (⟨frame, (uartReport frame).take n⟩ : Forward) ∈ a.forwards := by
        rw [hforwards]
        exact List.mem_append_right _ (List.mem_singleton_self _)
      have hcarries : ∀ t : State, t.reader = s.reader →
          t.usart1Task.At t.pool.pool t.reader b →
          answers t (.usart1 (.strobe pins)) = [] → Carries s (.usart1 (.strobe pins)) t a b := by
        intro t hreader htask hanswers
        subst hb
        refine ⟨⟨?_, h.greeting, ?_, h.part, htask⟩, ?_, ?_⟩
        · rw [hreader]
          exact h.ring
        · intro f hf
          rcases List.mem_append.mp hf with hf | hf
          · apply h.forwards f
            rw [hforwards]
            exact List.mem_append_left _ hf
          · rw [List.mem_singleton.mp hf]
            exact ⟨(h.forwards _ hmem).1, List.take_prefix ..⟩
        · rw [hreader, Account.taken, Account.taken, hforwards, List.map_append, List.map_append]
          exact (List.append_nil _).symm
        · rw [hstrobes, hanswers, List.append_nil, List.map_singleton,
            ← List.take_append_getElem hn, events_strobe, ← hforwards]
      by_cases hstop : n + 1 = (uartReport frame).length ∨ pins.txe = true ∨ pins.sense = false
      · refine ⟨{ s with usart1Task := .read rx tx.reset (.canRead 0) }, b, ?_,
          hcarries _ rfl ?_ rfl⟩
        · unfold usart1Step
          simp only [ht, hbuf, Except.toOption, Option.bind_eq_bind, Option.bind_some, hbyte,
            if_pos hstop, nextReadTo_eq hrx]
          rfl
        · subst hb
          exact at_nextReadTo hrx ⟨row, hrow, hfilled.length_buf⟩ hpart _
      · refine ⟨{ s with usart1Task := .write rx tx (.writing (n + 1)) }, b, ?_,
          hcarries _ rfl ?_ rfl⟩
        · unfold usart1Step
          simp only [ht, hbuf, Except.toOption, Option.bind_eq_bind, Option.bind_some, hbyte,
            if_neg hstop]
          rfl
        · subst hb
          exact ⟨hrx, hpart, past, frame, n + 1, row, rfl, ⟨rfl, by omega⟩, hrow, hfilled⟩
    | canWrite | done _ =>
      rw [ht] at hwaits
      cases hwaits
  | requestRx | requestTx _ | read _ _ _ | compose _ _ _ =>
    rw [ht] at hwaits
    cases hwaits

/-- The slot that the next request gets has a whole row. -/
theorem whole_next (hinv : Inv s) :
    (s.ft240Task.slots ++ s.usart1Task.slots).length < numBuffers ∧
      Whole s.pool.pool (s.ft240Task.slots ++ s.usart1Task.slots).length := by
  have ha := s.ft240Task.length_slots_le
  have hb := s.usart1Task.length_slots_le
  have hcap : numBuffers = 8 := rfl
  have hlt : (s.ft240Task.slots ++ s.usart1Task.slots).length < numBuffers := by
    rw [List.length_append]
    omega
  refine ⟨hlt, hinv.rows _ hlt ?_⟩
  intro hmem
  have hrange := List.mem_range.mp (hinv.pool.slots.subset (List.mem_append_right _ hmem))
  exact Nat.lt_irrefl _ hrange

theorem request_carries (hinv : Inv s) (h : Accounts s a) {w : Waker}
    (hwaits : s.usart1Task.Awaits (.request w)) :
    ∃ t, usart1Step p s (.request w) = some t ∧ Carries s (.usart1 (.request w)) t a a := by
  have hat := h.task
  obtain ⟨hlt, hnext⟩ := whole_next hinv
  cases ht : s.usart1Task with
  | requestRx =>
    rw [ht] at hat
    obtain ⟨hforwards, hpart⟩ := hat
    obtain ⟨capacity, pool, hreq, hrows, -⟩ := request_eq (p := p) hinv.pool hlt .slice w
    rw [← hrows] at hnext
    generalize (s.ft240Task.slots ++ s.usart1Task.slots).length = i at hreq hnext
    refine ⟨{ s with pool := pool, usart1Task := .requestTx ⟨.slice, i, capacity⟩ }, ?_,
      carries_self h rfl rfl rfl rfl ⟨hforwards, hpart, hnext⟩⟩
    unfold usart1Step
    simp only [ht, hreq]
    rfl
  | requestTx rx =>
    rw [ht] at hat
    obtain ⟨hforwards, hpart, hrx⟩ := hat
    obtain ⟨capacity, pool, hreq, hrows, -⟩ := request_eq (p := p) hinv.pool hlt .flatBuffer w
    rw [← hrows] at hrx hnext
    generalize (s.ft240Task.slots ++ s.usart1Task.slots).length = i at hreq hnext
    have htask := at_nextReadTo hrx (show Whole _ (TxBuffer.slot ⟨i, 0, 0, 0⟩) from hnext) hpart
      s.reader
    refine ⟨{ s with pool := pool, usart1Task := .read rx ⟨i, 0, 0, 0⟩ (.canRead 0) }, ?_,
      carries_self h rfl rfl rfl rfl htask⟩
    unfold usart1Step
    simp only [ht, hreq, Except.toOption, Option.bind_eq_bind, Option.bind_some,
      nextReadTo_eq hrx]
    rfl
  | greet _ | read _ _ _ | compose _ _ _ | write _ _ _ =>
    rw [ht] at hwaits
    cases hwaits

theorem canRead_carries (h : Accounts s a) {w : Waker}
    (hwaits : s.usart1Task.Awaits (.canRead w)) :
    ∃ t, usart1Step p s (.canRead w) = some t ∧ Carries s (.usart1 (.canRead w)) t a a := by
  have hat := h.task
  cases ht : s.usart1Task with
  | read rx tx call =>
    rw [ht] at hat
    cases call with
    | canRead total =>
      obtain ⟨hreset, htx, hrx, hcall⟩ := hat
      obtain rfl : total = a.part.length := by simpa using hcall
      by_cases hpos : 0 < s.reader.buffer.len
      · have hne : s.reader.buffer.queue ≠ [] := by
          rw [← List.length_pos_iff, h.ring.length_queue]
          exact hpos
        refine ⟨{ s with usart1Task := .read rx tx (.take a.part.length) }, ?_,
          carries_self h rfl rfl rfl rfl ⟨hreset, htx, hrx, .inr ⟨rfl, hne⟩⟩⟩
        unfold usart1Step
        simp only [ht, UartReadTo.await_ready hpos]
      · have hpending : UartReadTo.await s.reader w a.part.length =
            (.canRead a.part.length, { s.reader with waker := some w }) := by
          rw [UartReadTo.await, UsartReader.canRead, if_neg hpos]
        refine ⟨{ s with
            reader := { s.reader with waker := some w }
            usart1Task := .read rx tx (.canRead a.part.length) }, ?_,
          carries_self h rfl rfl rfl rfl ⟨hreset, htx, hrx, .inl rfl⟩⟩
        unfold usart1Step
        simp only [ht, hpending]
    | take _ | done _ =>
      rw [ht] at hwaits
      cases hwaits
  | greet _ | requestRx | requestTx _ | compose _ _ _ | write _ _ _ =>
    rw [ht] at hwaits
    cases hwaits

theorem take_carries (hinv : Inv s) (h : Accounts s a) (hwaits : s.usart1Task.Awaits .take) :
    ∃ t b, usart1Step p s .take = some t ∧ Carries s (.usart1 .take) t a b := by
  have hat := h.task
  have hnodup := hinv.nodup
  cases ht : s.usart1Task with
  | read rx tx call =>
    rw [ht] at hat hnodup
    cases call with
    | take total =>
      obtain ⟨hreset, ⟨txRow, htx, htxLen⟩, ⟨row, hrow, hlen, htake⟩, hcall⟩ := hat
      obtain ⟨rfl, hne⟩ : total = a.part.length ∧ s.reader.buffer.queue ≠ [] := by
        simpa using hcall
      have hslots : rx.ptr ≠ tx.slot := by
        have hpair := (List.nodup_append.mp hnodup).2.1
        simp only [Usart1Task.slots, List.nodup_cons, List.mem_singleton] at hpair
        exact hpair.1
      obtain ⟨k, future, r', row', hserve, hstores, hfuture⟩ :=
        serve_stores h.ring hne hlen h.part htake
      have hi : rx.ptr < s.pool.pool.length := (List.getElem?_eq_some_iff.mp hrow).1
      have hrow' : (s.pool.pool.set rx.ptr row')[rx.ptr]? = some row' := List.getElem?_set_self hi
      have htx' : Whole (s.pool.pool.set rx.ptr row') tx.slot := by
        refine ⟨txRow, ?_, htxLen⟩
        rw [List.getElem?_set_ne hslots, htx]
      have hsplit : s.reader.buffer.queue.take k ++ r'.buffer.queue = s.reader.buffer.queue := by
        rw [hstores.queue, List.take_append_drop]
      have hbytes : a.taken ++ s.reader.buffer.queue.take k ++ r'.buffer.queue =
          a.taken ++ s.reader.buffer.queue ++ accepts s (.usart1 .take) := by
        rw [List.append_assoc, hsplit]
        exact (List.append_nil _).symm
      obtain ⟨part, hpart⟩ : ∃ part, part = a.part ++ s.reader.buffer.queue.take k := ⟨_, rfl⟩
      have hlength : part.length = a.part.length + k := by rw [hpart, hstores.length_eq]
      have htaken : row'.take part.length = part := by
        rw [hlength, hstores.take_row, hpart]
      rw [← hpart, ← hlength] at hfuture
      rcases hfuture with ⟨rfl, hgoes⟩ | ⟨rfl, hframe⟩
      · refine ⟨{ s with
            pool := { s.pool with pool := s.pool.pool.set rx.ptr row' }
            reader := r'
            usart1Task := .read rx tx (.canRead part.length) }, { a with part := part }, ?_, ?_⟩
        · unfold usart1Step
          simp only [ht, index_ok hrow, Except.toOption, Option.bind_eq_bind, Option.bind_some,
            hserve]
          rfl
        · refine ⟨⟨hstores.wf, h.greeting, h.forwards, hgoes, hreset, htx',
            ⟨row', hrow', hstores.length_row, htaken⟩, .inl rfl⟩, ?_, ?_⟩
          · rw [← hbytes, Account.taken, Account.taken, hpart, List.append_assoc _ a.part]
          · show _ = _ ++ [] ++ []
            rw [List.append_nil, List.append_nil]
            rfl
      · obtain ⟨t, hdef⟩ : ∃ t : State, t = { s with
            pool := { s.pool with pool := s.pool.pool.set rx.ptr row' }
            reader := r'
            usart1Task := .compose rx tx (answerOf part) } := ⟨_, rfl⟩
        have hanswers : answers t (.usart1 .take) = [.frame part (answerOf part)] := by
          have hget : (s.pool.pool.set rx.ptr row').getD rx.ptr [] = row' := by
            rw [List.getD_eq_getElem?_getD, hrow', Option.getD_some]
          rw [hdef]
          simp only [answers, hget, covered_answerOf hframe hstores.length_row htaken]
        refine ⟨t, ⟨a.greeting, a.forwards ++ [⟨part, []⟩], []⟩, ?_, ?_, ?_, ?_⟩
        · rw [hdef]
          unfold usart1Step
          simp only [ht, index_ok hrow, Except.toOption, Option.bind_eq_bind, Option.bind_some,
            hserve]
          rfl
        · rw [hdef]
          refine ⟨hstores.wf, h.greeting, ?_, unfinished_nil (by decide), hreset, htx', rfl,
            a.forwards, part, row', rfl, rfl, hrow', hstores.length_row, htaken⟩
          intro f hf
          rcases List.mem_append.mp hf with hf | hf
          · exact h.forwards f hf
          · rw [List.mem_singleton.mp hf]
            exact ⟨hframe, List.nil_prefix⟩
        · rw [← hbytes, hdef, Account.taken, Account.taken, List.map_append, List.flatten_append,
            hpart, List.append_nil, List.append_assoc _ a.part]
          simp
        · rw [hanswers, Account.events, Account.events, List.flatMap_append]
          simp [Forward.events, strobes]
    | canRead _ | done _ =>
      rw [ht] at hwaits
      cases hwaits
  | greet _ | requestRx | requestTx _ | compose _ _ _ | write _ _ _ =>
    rw [ht] at hwaits
    cases hwaits

/-- The message for a frame that stands in the receive buffer. -/
theorem usart1Message_eq {tx : FlatBuffer} {row frame : List UInt8}
    (htx : Filled tx bufferSize []) (hframe : Frame endsFrame bufferSize frame)
    (htake : row.take frame.length = frame) :
    ∃ tx', usart1Message p tx row (answerOf frame) = .ok tx' ∧
      Filled tx' bufferSize (uartReport frame) := by
  unfold answerOf uartReport
  split
  · have hpos := List.length_pos_iff.mpr hframe.ne_nil
    have hle : frame.length ≤ row.length := by
      have hlen := congrArg List.length htake
      rw [List.length_take] at hlen
      omega
    obtain ⟨tx', heq, hf⟩ := writeFrame_eq (p := p) "Complete: " htx hpos hframe.length_le hle
    refine ⟨tx', heq, ?_⟩
    have hpayload : frame.take (frame.length - 1) = row.take (frame.length - 1) := by
      have htwice := List.take_take (l := row) (i := frame.length - 1) (j := frame.length)
      rw [htake, Nat.min_eq_left (Nat.sub_le ..)] at htwice
      exact htwice
    rw [frameMessage, hpayload]
    exact hf
  · obtain ⟨_, tx', heq, hf⟩ := htx.writeStr (asBytes "Error: ")
    refine ⟨tx', ?_, hf⟩
    simp only [usart1Message, heq, ok_bind]
    rfl

theorem compose_carries (hinv : Inv s) (h : Accounts s a)
    (hwaits : s.usart1Task.Awaits .compose) :
    ∃ t, usart1Step p s .compose = some t ∧ Carries s (.usart1 .compose) t a a := by
  have hat := h.task
  have hnodup := hinv.nodup
  cases ht : s.usart1Task with
  | compose rx tx result =>
    rw [ht] at hat hnodup
    obtain ⟨hreset, ⟨txRow, htx, htxLen⟩, hpart, past, frame, row, hforwards, rfl, hrow, hlen,
      htake⟩ := hat
    have hslots : tx.slot ≠ rx.ptr := by
      have hpair := (List.nodup_append.mp hnodup).2.1
      simp only [Usart1Task.slots, List.nodup_cons, List.mem_singleton] at hpair
      exact Ne.symm hpair.1
    have hmem : (⟨frame, []⟩ : Forward) ∈ a.forwards := by
      rw [hforwards]
      exact List.mem_append_right _ (List.mem_singleton_self _)
    have hload : tx.load s.pool.pool = .ok ⟨0, 0, 0, txRow⟩ := by
      rw [TxBuffer.load, index_ok htx, hreset]
      rfl
    have hempty : Filled ⟨0, 0, 0, txRow⟩ bufferSize [] := by
      have hfilled := filled_reset ⟨0, 0, 0, txRow⟩
      rw [show (FlatBuffer.mk 0 0 0 txRow).buf.length = bufferSize from htxLen] at hfilled
      exact hfilled
    obtain ⟨f, hmsg, hf⟩ := usart1Message_eq (p := p) hempty (h.forwards _ hmem).1 htake
    have hi : tx.slot < s.pool.pool.length := (List.getElem?_eq_some_iff.mp htx).1
    have hset : (s.pool.pool.set tx.slot f.buf)[tx.slot]? = some f.buf :=
      List.getElem?_set_self hi
    have hbuf : (⟨tx.slot, f.rPos, f.wPos, f.len⟩ : TxBuffer).asRef
        (s.pool.pool.set tx.slot f.buf) = .ok (uartReport frame) := asRef_eq hset hf
    have hwrites : UsbWrite.enter (uartReport frame) = .canWrite := by
      rw [UsbWrite.enter, if_neg]
      simpa using uartReport_ne_nil frame
    refine ⟨{ s with
        pool := { s.pool with pool := s.pool.pool.set tx.slot f.buf }
        usart1Task := .write rx ⟨tx.slot, f.rPos, f.wPos, f.len⟩ .canWrite }, ?_,
      carries_self h rfl rfl rfl rfl ?_⟩
    · unfold usart1Step
      simp only [ht, index_ok hrow, hload, hmsg, Except.toOption, Option.bind_eq_bind,
        Option.bind_some, TxBuffer.save, hbuf, hwrites]
      rfl
    · refine ⟨⟨row, ?_, hlen⟩, hpart, past, frame, 0, f.buf, hforwards, rfl, hset, hf⟩
      rw [List.getElem?_set_ne hslots, hrow]
  | greet _ | requestRx | requestTx _ | read _ _ _ | write _ _ _ =>
    rw [ht] at hwaits
    cases hwaits

/-- **Step lemma** of `usart1_reader_task`: the step it waits for is taken, and accounted for. -/
theorem usart1_carries {act : Usart1Act} (hinv : Inv s) (h : Accounts s a)
    (hwaits : s.usart1Task.Awaits act) :
    ∃ t b, usart1Step p s act = some t ∧ Carries s (.usart1 act) t a b := by
  cases act with
  | canWrite pins =>
    obtain ⟨t, hs, hc⟩ := canWrite_carries (p := p) h hwaits
    exact ⟨t, a, hs, hc⟩
  | strobe pins => exact strobe_carries h hwaits
  | request w =>
    obtain ⟨t, hs, hc⟩ := request_carries (p := p) hinv h hwaits
    exact ⟨t, a, hs, hc⟩
  | canRead w =>
    obtain ⟨t, hs, hc⟩ := canRead_carries (p := p) h hwaits
    exact ⟨t, a, hs, hc⟩
  | take => exact take_carries hinv h hwaits
  | compose =>
    obtain ⟨t, hs, hc⟩ := compose_carries (p := p) hinv h hwaits
    exact ⟨t, a, hs, hc⟩

/-- **Step lemma** of the program. -/
theorem step_carries (hinv : Inv s) (h : Accounts s a) (hs : step p s act = some t) :
    ∃ b, Carries s act t a b := by
  cases act with
  | ft240 act => exact ⟨a, ft240_carries hinv h hs⟩
  | usart1 act =>
    obtain ⟨u, b, hu, hc⟩ := usart1_carries (p := p) hinv h (usart1Step_awaits hs)
    rw [step, hu] at hs
    cases hs
    exact ⟨b, hc⟩
  | usart1Rx byte =>
    obtain ⟨u, hu, hc⟩ := usart1Rx_carries (p := p) h byte
    rw [hu] at hs
    cases hs
    exact ⟨a, hc⟩
  | usart1Udre =>
    have hoff : initUcsr1b &&& udrie1 = 0 := by decide
    rw [step, hinv.ucsr1b, if_pos hoff] at hs
    cases hs

end Carries

/-! ## Whole runs -/

section Runs

variable {p : Profile} {s : State} {tr : Trace}

theorem accounts_start : Accounts start ⟨[], [], []⟩ := by
  refine ⟨new_wf (by decide), List.nil_prefix, ?_, unfinished_nil (by decide), rfl, rfl, 0, rfl,
    rfl⟩
  intro f hf
  cases hf

/-- Every run has an account of its trace. -/
theorem accounts_of_traced (h : (traced p).Reachable (s, tr)) :
    ∃ a, Accounts s a ∧ tr.accepted = a.taken ++ s.reader.buffer.queue ∧
      tr.events = a.events := by
  have hboth : Inv s ∧ ∃ a, Accounts s a ∧ tr.accepted = a.taken ++ s.reader.buffer.queue ∧
      tr.events = a.events := by
    refine System.Reachable.invariant (I := fun x => Inv x.1 ∧ ∃ a, Accounts x.1 a ∧
      x.2.accepted = a.taken ++ x.1.reader.buffer.queue ∧ x.2.events = a.events) ?_ ?_ h
    · rintro x rfl
      exact ⟨inv_start, ⟨[], [], []⟩, accounts_start, rfl, rfl⟩
    · rintro ⟨s, tr⟩ act y ⟨hinv, a, hacc, haccepted, hevents⟩ hy
      obtain ⟨t, ht, rfl⟩ := tracedStep_eq_some.mp hy
      obtain ⟨b, hb⟩ := step_carries hinv hacc ht
      refine ⟨inv_step hinv ht, b, hb.accounts, ?_, ?_⟩
      · rw [hb.bytes, ← haccepted]
        rfl
      · rw [hb.events, ← hevents]
        rfl
  exact hboth.2

theorem accounts_of_reachable (h : (system p).Reachable s) : ∃ a, Accounts s a := by
  obtain ⟨tr, htr⟩ := traced_of_reachable h
  obtain ⟨a, hacc, -, -⟩ := accounts_of_traced htr
  exact ⟨a, hacc⟩

/-- What the frames of an account come from. -/
theorem Accounts.cut_taken {a : Account} (h : Accounts s a) :
    cut endsFrame bufferSize a.taken = (a.forwards.map Forward.frame, a.part) := by
  apply cut_flatten_append
  · intro f hf
    obtain ⟨g, hg, rfl⟩ := List.mem_map.mp hf
    exact (h.forwards g hg).1
  · exact h.part

/-- The frames among the events. -/
def frames (events : List Event) : List (List UInt8) :=
  events.filterMap fun
    | .frame bytes _ => some bytes
    | .strobe _ => none

theorem frames_events (a : Account) : frames a.events = a.forwards.map Forward.frame := by
  have hstrobes : ∀ bytes : List UInt8, frames (bytes.map .strobe) = [] := by
    intro bytes
    rw [frames, List.filterMap_map]
    exact List.filterMap_eq_nil_iff.mpr fun _ _ => rfl
  have hall : ∀ forwards : List Forward,
      frames (forwards.flatMap Forward.events) = forwards.map Forward.frame := by
    intro forwards
    induction forwards with
    | nil => rfl
    | cons f forwards ih =>
      have hone : frames f.events = [f.frame] := congrArg (f.frame :: ·) (hstrobes f.strobed)
      rw [List.flatMap_cons, frames, List.filterMap_append]
      exact congrArg₂ (· ++ ·) hone ih
  rw [frames, Account.events, List.filterMap_append]
  exact congrArg₂ (· ++ ·) (hstrobes a.greeting) (hall a.forwards)

/-- **UART to USB.** In every run the frames received are those into which the bytes taken off
the ring are cut, each answered as its last byte says, and the FT240 has been given a beginning
of the greeting and for each frame in turn a beginning of its report. -/
theorem usb_traffic_of_run (p : Profile) (s : State) (tr : Trace)
    (h : (traced p).Reachable (s, tr)) :
    ∃ (taken greeting : List UInt8) (forwards : List Forward),
      tr.accepted = taken ++ s.reader.buffer.queue ∧
      forwards.map Forward.frame = (cut endsFrame bufferSize taken).1 ∧
      tr.events = greeting.map .strobe ++ forwards.flatMap Forward.events ∧
      greeting <+: uartGreeting ∧ ∀ f ∈ forwards, f.strobed <+: uartReport f.frame := by
  obtain ⟨a, hacc, haccepted, hevents⟩ := accounts_of_traced h
  refine ⟨a.taken, a.greeting, a.forwards, haccepted, ?_, hevents, hacc.greeting, ?_⟩
  · rw [hacc.cut_taken]
  · intro f hf
    exact (hacc.forwards f hf).2

/-- The host is away while the task greets it, a line of two bytes comes from the UART, and the
chip turns busy behind the first byte of the report. -/
def oneLine : List Act :=
  [.usart1 (.canWrite ⟨false, true, true⟩), .usart1 (.request 0), .usart1 (.request 0),
    .usart1Rx 104, .usart1 (.canRead 0), .usart1 .take, .usart1 (.canRead 0), .usart1Rx 10,
    .usart1Rx 105, .usart1 (.canRead 0), .usart1 .take, .usart1 .compose,
    .usart1 (.canWrite ⟨true, true, false⟩), .usart1 (.strobe ⟨true, true, true⟩)]

theorem usb_traffic_of_run_oneLine :
    ∃ s tr, (traced .dev).Reachable (s, tr) ∧
      tr.events = [.frame [104, 10] (.ok (.complete 2)), .strobe 67] ∧
      ∃ (taken greeting : List UInt8) (forwards : List Forward),
        tr.accepted = taken ++ s.reader.buffer.queue ∧
        forwards.map Forward.frame = (cut endsFrame bufferSize taken).1 ∧
        tr.events = greeting.map .strobe ++ forwards.flatMap Forward.events ∧
        greeting <+: uartGreeting ∧ ∀ f ∈ forwards, f.strobed <+: uartReport f.frame := by
  obtain ⟨⟨s, tr⟩, hs, hevents⟩ := exists_reachable_of_runFun oneLine
    (fun x => x.2.events == [.frame [104, 10] (.ok (.complete 2)), .strobe 67])
    (show (traced .dev).Reachable (start, .empty) from .init rfl) (by decide +kernel)
  exact ⟨s, tr, hs, beq_iff_eq.mp hevents, usb_traffic_of_run .dev s tr hs⟩

/-- **Frames do not depend on timing.** Two runs, under any profiles and schedules, receive the
same frames as far as both have come, if what the one has stored begins what the other has. -/
theorem frames_of_same_bytes (p q : Profile) (s t : State) (tr ur : Trace)
    (hs : (traced p).Reachable (s, tr)) (ht : (traced q).Reachable (t, ur))
    (hbytes : tr.accepted <+: ur.accepted) :
    frames tr.events <+: frames ur.events ∨ frames ur.events <+: frames tr.events := by
  obtain ⟨a, ha, hatr, haev⟩ := accounts_of_traced hs
  obtain ⟨b, hb, hbur, hbev⟩ := accounts_of_traced ht
  have hcuts : ∀ {u : State} {c : Account}, Accounts u c →
      frames c.events = (cut endsFrame bufferSize c.taken).1 := by
    intro u c hc
    rw [frames_events, hc.cut_taken]
  have hpre : a.taken <+: ur.accepted := by
    rw [hatr] at hbytes
    exact (List.prefix_append ..).trans hbytes
  have hpost : b.taken <+: ur.accepted := by
    rw [hbur]
    exact List.prefix_append ..
  rw [haev, hbev, hcuts ha, hcuts hb]
  exact (List.prefix_or_prefix_of_prefix hpre hpost).imp cut_prefix cut_prefix

/-- The line comes in one piece, and before the task has its buffers. -/
def oneLineAtOnce : List Act :=
  [.usart1Rx 104, .usart1Rx 10, .usart1Rx 105, .usart1 (.canWrite ⟨false, true, true⟩),
    .usart1 (.request 0), .usart1 (.request 0), .usart1 (.canRead 0), .usart1 .take]

theorem frames_of_same_bytes_oneLine :
    ∃ s t tr ur, (traced .dev).Reachable (s, tr) ∧ (traced .release).Reachable (t, ur) ∧
      tr.accepted = [104, 10, 105] ∧ ur.accepted = [104, 10, 105] ∧
      (frames tr.events <+: frames ur.events ∨ frames ur.events <+: frames tr.events) := by
  obtain ⟨⟨s, tr⟩, hs, htr⟩ := exists_reachable_of_runFun oneLine
    (fun x => x.2.accepted == [104, 10, 105])
    (show (traced .dev).Reachable (start, .empty) from .init rfl) (by decide +kernel)
  obtain ⟨⟨t, ur⟩, ht, hur⟩ := exists_reachable_of_runFun oneLineAtOnce
    (fun x => x.2.accepted == [104, 10, 105])
    (show (traced .release).Reachable (start, .empty) from .init rfl) (by decide +kernel)
  have htr : tr.accepted = [104, 10, 105] := beq_iff_eq.mp htr
  have hur : ur.accepted = [104, 10, 105] := beq_iff_eq.mp hur
  have hsame : tr.accepted <+: ur.accepted := (htr.trans hur.symm) ▸ List.prefix_refl _
  exact ⟨s, t, tr, ur, hs, ht, htr, hur,
    frames_of_same_bytes .dev .release s t tr ur hs ht hsame⟩

end Runs

end AvrBridge.Firmware
