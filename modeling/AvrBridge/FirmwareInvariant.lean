import AvrBridge.Firmware
import AvrBridge.Ft240xTransfers
import AvrBridge.Lts
import AvrBridge.Messages
import AvrBridge.PoolRing

/-! What holds in every state of the program. The allocator rotates, so the four requests
get four slots in whatever order they are made; each task writes its own two rows, and
what `ft240_reader_task` has read and composed stays in them until it is sent. -/

namespace AvrBridge.Firmware

open Rust Lts Tasks

variable {p : Profile}

/-! ## The four slots -/

/-- After as many requests as there are slots in use, the ring has turned that far. -/
structure PoolInv (b : BufferPool numBuffers bufferSize) (slots : List Nat) : Prop where
  sound : b.Sound
  free : b.allocator.free = (List.range numBuffers).drop slots.length ++
    (List.range numBuffers).take slots.length
  slots : slots.Perm (List.range slots.length)

theorem poolInv_new : PoolInv (.new numBuffers bufferSize) [] where
  sound := BufferPool.new_sound (by decide) (by decide)
  free := BufferAllocator.new_free (by decide)
  slots := List.Perm.refl _

/-- **A request** gets the next slot, and gives it back at once. -/
theorem request_eq {b : BufferPool numBuffers bufferSize} {slots : List Nat} (h : PoolInv b slots)
    (hlt : slots.length < numBuffers) (kind : StorageKind) (w : Waker) :
    ∃ capacity b', request p kind b w = .ok (some ⟨kind, slots.length, capacity⟩, b') ∧
      b'.pool = b.pool ∧ ∀ slots', slots'.Perm (slots.length :: slots) → PoolInv b' slots' := by
  have hlen : (List.range numBuffers).length = numBuffers := List.length_range
  have hdrop : (List.range numBuffers).drop slots.length =
      slots.length :: (List.range numBuffers).drop (slots.length + 1) := by
    rw [List.drop_eq_getElem_cons (by rwa [hlen]), List.getElem_range]
  have htake : (List.range numBuffers).take (slots.length + 1) =
      (List.range numBuffers).take slots.length ++ [slots.length] := by
    rw [List.take_succ_eq_append_getElem (by rwa [hlen]), List.getElem_range]
  have hcount : 0 < b.allocator.count := by
    rw [← h.sound.allocator.length_free, h.free, hdrop, List.cons_append, List.length_cons]
    exact Nat.succ_pos _
  obtain ⟨i, capacity, b₁, hpoll, hfree₁, hs₁, -, -, hout₁⟩ :=
    b.poll_of_pos (p := p) (by decide) h.sound hcount w
  rw [h.free, hdrop, List.cons_append, List.cons.injEq] at hfree₁
  obtain ⟨hi, hfree₁⟩ := hfree₁
  subst hi
  obtain ⟨b₂, hrel, hfree₂, hs₂, -, -⟩ :=
    b₁.releaseBuffer_of_outstanding (p := p) (by decide) hs₁ hlt
      (by rw [hout₁, decide_eq_true rfl, Bool.or_true])
  refine ⟨capacity, b₂, ?_, ?_, fun slots' hperm => ?_⟩
  · simp only [request, hpoll, Storage.fromHandle, BufferPool.dropHandle, hrel, ok_bind]
    rfl
  · obtain ⟨_, _, _, _, _, _, _, hpool⟩ := BufferPool.poll_inv hpoll
    rw [BufferPool.pool_releaseBuffer hrel, hpool]
  · have hl : slots'.length = slots.length + 1 := hperm.length_eq
    refine ⟨hs₂, ?_, ?_⟩
    · rw [hfree₂, ← hfree₁, hl, htake, List.append_assoc]
    · rw [hl, List.range_succ]
      exact hperm.trans ((h.slots.cons _).trans (List.perm_append_singleton ..).symm)

/-- Storing into rows changes neither the ring nor the number of rows. -/
theorem PoolInv.set {b : BufferPool numBuffers bufferSize} {slots : List Nat} (h : PoolInv b slots)
    {rows : List (List UInt8)} (hlen : rows.length = b.pool.length) :
    PoolInv { b with pool := rows } slots :=
  ⟨⟨h.sound.allocator, hlen.trans h.sound.rows⟩, h.free, h.slots⟩

/-! ## The invariant -/

/-- The slots a task has been given. -/
def Ft240Task.slots : Ft240Task → List Nat
  | .requestRx => []
  | .requestTx rx => [rx.ptr]
  | .greet rx tx _ | .delay rx tx | .read rx tx _ | .compose rx tx _ _ | .write rx tx _ _ _ =>
      [rx.ptr, tx.slot]

def Usart1Task.slots : Usart1Task → List Nat
  | .greet _ | .requestRx => []
  | .requestTx rx => [rx.ptr]
  | .read rx tx _ | .compose rx tx _ | .write rx tx _ => [rx.ptr, tx.slot]

/-- The greeting has been sent. -/
def Ft240Task.greeted : Ft240Task → Bool
  | .requestRx | .requestTx _ | .greet _ _ _ => false
  | _ => true

/-- What `ft240_reader_task` has written to UDR1: its greeting and its messages. -/
def Ft240Task.sent (task : Ft240Task) (log : List Iteration) : List UInt8 :=
  (if task.greeted then usbGreeting else []) ++ (log.map Iteration.message).flatten

/-- A read that returned `Ok(len)` took `len` bytes, at least one and at most a buffer full. -/
def ReadOk (taken : List UInt8) (result : Except ErrorKind Nat) : Prop :=
  ∀ len, result = .ok len → 1 ≤ len ∧ len ≤ bufferSize ∧ taken.length = len

/-- The message for a read: its bytes and the annotation pieces that still fit. -/
def report (taken : List UInt8) : Except ErrorKind Nat → List UInt8
  | .ok len => greedy bufferSize (taken :: trailer len)
  | .error _ => []

/-- What `ft240_reader_task` relies on in the rows of the pool. -/
def Ft240Task.Holds (rows : List (List UInt8)) : Ft240Task → Prop
  | .compose rx tx taken result => tx = tx.reset ∧ ReadOk taken result ∧
      ∀ len, result = .ok len → ∃ row, rows[rx.ptr]? = some row ∧ row.take len = taken
  | .write _ tx taken result _ => ReadOk taken result ∧ ∃ row, rows[tx.slot]? = some row ∧
      Filled ⟨tx.rPos, tx.wPos, tx.len, row⟩ bufferSize (report taken result)
  | .read _ tx _ => tx = tx.reset
  | _ => True

/-- A finished iteration sent the report of what its read took. -/
def Iteration.Complete (it : Iteration) : Prop :=
  ReadOk it.taken it.result ∧ it.message = report it.taken it.result

structure Inv (s : State) : Prop where
  pool : PoolInv s.pool (s.ft240Task.slots ++ s.usart1Task.slots)
  rows : ∀ i < numBuffers, i ∉ s.usart1Task.slots →
    ∃ row, s.pool.pool[i]? = some row ∧ row.length = bufferSize
  task : s.ft240Task.Holds s.pool.pool
  writer : s.writer = .new
  ucsr1b : s.uart.ucsr1b = initUcsr1b
  udr1 : s.uart.udr1 = s.ft240Task.sent s.log
  early : s.ft240Task.greeted = false → s.log = []
  log : ∀ it ∈ s.log, it.Complete

theorem inv_start : Inv start where
  pool := poolInv_new
  rows i hi _ := by
    refine ⟨List.replicate bufferSize 0, ?_, List.length_replicate⟩
    exact List.getElem?_replicate_of_lt hi
  task := trivial
  writer := rfl
  ucsr1b := rfl
  udr1 := rfl
  early _ := rfl
  log := nofun

section Slots

variable {s : State}

theorem Ft240Task.length_slots_le (task : Ft240Task) : task.slots.length ≤ 2 := by
  cases task <;> simp [Ft240Task.slots]

theorem Usart1Task.length_slots_le (task : Usart1Task) : task.slots.length ≤ 2 := by
  cases task <;> simp [Usart1Task.slots]

theorem Inv.nodup (h : Inv s) : (s.ft240Task.slots ++ s.usart1Task.slots).Nodup :=
  h.pool.slots.nodup_iff.mpr List.nodup_range

/-- The rows of `ft240_reader_task` are whole and not those of the other task. -/
theorem Inv.own (h : Inv s) {i : Nat} (hi : i ∈ s.ft240Task.slots) :
    i ∉ s.usart1Task.slots ∧ ∃ row, s.pool.pool[i]? = some row ∧ row.length = bufferSize := by
  have hnot : i ∉ s.usart1Task.slots := fun hb =>
    List.disjoint_of_nodup_append h.nodup hi hb
  have hlt := List.mem_range.mp (h.pool.slots.subset (List.mem_append_left _ hi))
  have ha := s.ft240Task.length_slots_le
  have hb := s.usart1Task.length_slots_le
  rw [List.length_append] at hlt
  have hcap : numBuffers = 8 := rfl
  exact ⟨hnot, h.rows i (by omega) hnot⟩

/-- What the task relies on is in its own rows. -/
theorem Ft240Task.Holds.frame {task : Ft240Task} {rows rows' : List (List UInt8)}
    (h : task.Holds rows) (hrows : ∀ i ∈ task.slots, rows'[i]? = rows[i]?) : task.Holds rows' := by
  cases task with
  | compose rx tx taken result =>
    obtain ⟨hreset, hok, hrow⟩ := h
    refine ⟨hreset, hok, fun len hlen => ?_⟩
    rw [hrows rx.ptr (by simp [Ft240Task.slots])]
    exact hrow len hlen
  | write rx tx taken result w =>
    obtain ⟨hok, row, hrow, hfilled⟩ := h
    exact ⟨hok, row, by rw [hrows tx.slot (by simp [Ft240Task.slots])]; exact hrow, hfilled⟩
  | read rx tx r => exact h
  | requestRx | requestTx _ | greet _ _ _ | delay _ _ => trivial

end Slots

/-! ## The steps of `ft240_reader_task` -/

theorem map_length_set {rows : List (List UInt8)} {i : Nat} {row row' : List UInt8}
    (hrow : rows[i]? = some row) (hlen : row'.length = row.length) :
    (rows.set i row').map List.length = rows.map List.length := by
  obtain ⟨hi, rfl⟩ := List.getElem?_eq_some_iff.mp hrow
  have hi' : i < (rows.map List.length).length := by rwa [List.length_map]
  rw [List.map_set, hlen, ← List.getElem_map List.length (h := hi'), List.set_getElem_self]

section Ft240

variable {s t : State} {rx : Storage} {tx : TxBuffer}

/-- The steps a task waits for at its place. -/
def Ft240Task.Awaits (act : Ft240Act) (task : Ft240Task) : Prop :=
  match act, task with
  | .request _, .requestRx | .request _, .requestTx _ => True
  | .canWrite _, .greet _ _ .canWrite | .canWrite _, .write _ _ _ _ .canWrite => True
  | .send, .greet _ _ .send | .send, .write _ _ _ _ .send => True
  | .delayed, .delay _ _ => True
  | .canRead _, .read _ _ .canRead | .take _ _, .read _ _ .take => True
  | .compose, .compose _ _ _ _ => True
  | _, _ => False

theorem ft240Step_awaits {act : Ft240Act} (hs : ft240Step p s act = some t) :
    s.ft240Task.Awaits act := by
  unfold ft240Step at hs
  split at hs
  -- the last alternative refuses every other step
  case h_11 => cases hs
  all_goals
    rename_i htask
    rw [htask]
    trivial

/-- A step of the task that keeps its slots and the lengths of the rows. -/
theorem Inv.ft240 (h : Inv s) {rows : List (List UInt8)} {uart : Usart1} {task : Ft240Task}
    {log : List Iteration} (hrows : rows.map List.length = s.pool.pool.map List.length)
    (hslots : task.slots = s.ft240Task.slots) (hholds : task.Holds rows)
    (hucsr1b : uart.ucsr1b = s.uart.ucsr1b)
    (hudr1 : uart.udr1 = task.sent log) (hearly : task.greeted = true ∨ log = [])
    (hlog : ∀ it ∈ log, it.Complete) :
    Inv { s with
      pool := { s.pool with pool := rows }, uart := uart, ft240Task := task, log := log } where
  pool := by
    have hlen := congrArg List.length hrows
    rw [List.length_map, List.length_map] at hlen
    rw [hslots]
    exact h.pool.set hlen
  rows i hi hnot := by
    obtain ⟨row, hrow, hlen⟩ := h.rows i hi hnot
    have hmap : (rows.map List.length)[i]? = some bufferSize := by
      rw [hrows, List.getElem?_map, hrow, Option.map_some, hlen]
    rw [List.getElem?_map, Option.map_eq_some_iff] at hmap
    exact hmap
  task := hholds
  writer := h.writer
  ucsr1b := hucsr1b.trans h.ucsr1b
  udr1 := hudr1
  early hg := hearly.resolve_left (by rw [hg]; exact Bool.false_ne_true)
  log := hlog

theorem await_new (u : Usart1) (waker : Waker) :
    UartWrite.await u .new waker = (.send, u, .new) := rfl

theorem nextRead_eq {rows : List (List UInt8)} {row : List UInt8} (hrow : rows[rx.ptr]? = some row)
    (hlen : row.length = bufferSize) (tx : TxBuffer) :
    nextRead rows rx tx = .ok (.read rx tx.reset .canRead) := by
  have hne : row.isEmpty = false := by
    cases row with
    | nil => cases hlen
    | cons _ _ => rfl
  rw [nextRead, index_ok hrow, ok_bind, UsbRead.enter, hne]
  rfl

theorem asRef_eq {rows : List (List UInt8)} {row message : List UInt8} {cap : Nat}
    (hrow : rows[tx.slot]? = some row)
    (hf : Filled ⟨tx.rPos, tx.wPos, tx.len, row⟩ cap message) : tx.asRef rows = .ok message := by
  rw [TxBuffer.asRef, TxBuffer.load, index_ok hrow]
  exact hf.asRef

/-- An iteration that sends the report of what it took. -/
theorem complete_report {taken : List UInt8} {result : Except ErrorKind Nat}
    (hok : ReadOk taken result) :
    Iteration.Complete ⟨taken, result, report taken result⟩ := ⟨hok, rfl⟩

/-- A finished iteration that is complete joins the log. -/
theorem complete_append {log : List Iteration} {it : Iteration} (hlog : ∀ it ∈ log, it.Complete)
    (hit : it.Complete) : ∀ it' ∈ log ++ [it], it'.Complete := by
  intro it' hmem
  rcases List.mem_append.mp hmem with hmem | hmem
  · exact hlog it' hmem
  · rw [List.mem_singleton] at hmem
    rw [hmem]
    exact hit

theorem inv_ft240_request (h : Inv s) {w : Waker} (hs : ft240Step p s (.request w) = some t) :
    Inv t := by
  have hwaits := ft240Step_awaits hs
  have hb := s.usart1Task.length_slots_le
  have hcap : numBuffers = 8 := rfl
  cases ht : s.ft240Task with
  | requestRx =>
    have hpool := h.pool
    have hudr1 := h.udr1
    rw [ht] at hpool hudr1
    obtain ⟨capacity, b, hreq, hrows, hperm⟩ := request_eq (p := p) hpool
      (by rw [List.length_append]; simp only [Ft240Task.slots, List.length_nil]; omega) .slice w
    unfold ft240Step at hs
    simp only [ht, hreq] at hs
    cases hs
    exact ⟨hperm _ (List.Perm.refl _), by rw [hrows]; exact h.rows, trivial, h.writer, h.ucsr1b,
      hudr1, fun _ => h.early (by rw [ht]; rfl), h.log⟩
  | requestTx rx =>
    have hpool := h.pool
    have hudr1 := h.udr1
    rw [ht] at hpool hudr1
    obtain ⟨capacity, b, hreq, hrows, hperm⟩ := request_eq (p := p) hpool
      (by rw [List.length_append]; simp only [Ft240Task.slots, List.length_singleton]; omega)
      .flatBuffer w
    unfold ft240Step at hs
    simp only [ht, hreq] at hs
    cases hs
    exact ⟨hperm _ (List.Perm.swap ..), by rw [hrows]; exact h.rows, trivial, h.writer, h.ucsr1b,
      hudr1, fun _ => h.early (by rw [ht]; rfl), h.log⟩
  | greet _ _ _ | delay _ _ | read _ _ _ | compose _ _ _ _ | write _ _ _ _ _ =>
    rw [ht] at hwaits
    cases hwaits

theorem inv_ft240_canWrite (h : Inv s) {waker : Waker}
    (hs : ft240Step p s (.canWrite waker) = some t) : Inv t := by
  have hwaits := ft240Step_awaits hs
  have hwriter := h.writer
  have hudr1 := h.udr1
  have htask := h.task
  cases ht : s.ft240Task with
  | greet rx tx w =>
    rw [ht] at hudr1
    cases w with
    | canWrite =>
      unfold ft240Step at hs
      simp only [ht, hwriter, await_new] at hs
      cases hs
      rw [← hwriter]
      exact h.ft240 rfl (by rw [ht]; rfl) trivial rfl hudr1
        (.inr (h.early (by rw [ht]; rfl))) h.log
    | send | done _ =>
      rw [ht] at hwaits
      cases hwaits
  | write rx tx taken result w =>
    rw [ht] at hudr1 htask
    cases w with
    | canWrite =>
      unfold ft240Step at hs
      simp only [ht, hwriter, await_new] at hs
      cases hs
      rw [← hwriter]
      exact h.ft240 rfl (by rw [ht]; rfl) htask rfl hudr1 (.inl rfl) h.log
    | send | done _ =>
      rw [ht] at hwaits
      cases hwaits
  | requestRx | requestTx _ | delay _ _ | read _ _ _ | compose _ _ _ _ =>
    rw [ht] at hwaits
    cases hwaits

/-- `send` appends to what has been written to UDR1. -/
theorem send_eq (u : Usart1) (buf : List UInt8) :
    (UsartWriter.send u buf).2 = { u with udr1 := u.udr1 ++ buf } := by
  unfold UsartWriter.send
  induction buf generalizing u with
  | nil => simp
  | cons byte buf ih =>
    rw [List.foldl_cons]
    refine (ih _).trans ?_
    simp [UsartWriter.sendByte]

theorem inv_ft240_send (h : Inv s) (hs : ft240Step p s .send = some t) : Inv t := by
  have hwaits := ft240Step_awaits hs
  have hudr1 := h.udr1
  have htask := h.task
  cases ht : s.ft240Task with
  | greet rx tx w =>
    rw [ht] at hudr1
    cases w with
    | send =>
      unfold ft240Step at hs
      simp only [ht] at hs
      cases hs
      have hlog : s.log = [] := h.early (by rw [ht]; rfl)
      refine h.ft240 rfl (by rw [ht]; rfl) trivial (by rw [send_eq]) ?_ (.inl rfl) h.log
      rw [send_eq, hudr1, hlog]
      rfl
    | canWrite | done _ =>
      rw [ht] at hwaits
      cases hwaits
  | write rx tx taken result w =>
    rw [ht] at hudr1 htask
    cases w with
    | send =>
      obtain ⟨hok, row, hrow, hfilled⟩ := htask
      obtain ⟨-, rxRow, hrxRow, hrxLen⟩ := h.own (i := rx.ptr) (by rw [ht]; simp [Ft240Task.slots])
      unfold ft240Step at hs
      simp only [ht, asRef_eq hrow hfilled, nextRead_eq hrxRow hrxLen] at hs
      cases hs
      refine h.ft240 rfl (by rw [ht]; rfl) rfl (by rw [send_eq]) ?_ (.inl rfl)
        (complete_append h.log (complete_report hok))
      rw [send_eq, hudr1]
      simp [Ft240Task.sent, Ft240Task.greeted]
    | canWrite | done _ =>
      rw [ht] at hwaits
      cases hwaits
  | requestRx | requestTx _ | delay _ _ | read _ _ _ | compose _ _ _ _ =>
    rw [ht] at hwaits
    cases hwaits

theorem inv_ft240_delayed (h : Inv s) (hs : ft240Step p s .delayed = some t) : Inv t := by
  have hwaits := ft240Step_awaits hs
  have hudr1 := h.udr1
  cases ht : s.ft240Task with
  | delay rx tx =>
    rw [ht] at hudr1
    obtain ⟨-, row, hrow, hlen⟩ := h.own (i := rx.ptr) (by rw [ht]; simp [Ft240Task.slots])
    unfold ft240Step at hs
    simp only [ht, nextRead_eq hrow hlen] at hs
    cases hs
    exact h.ft240 rfl (by rw [ht]; rfl) rfl rfl hudr1 (.inl rfl) h.log
  | requestRx | requestTx _ | greet _ _ _ | read _ _ _ | compose _ _ _ _ | write _ _ _ _ _ =>
    rw [ht] at hwaits
    cases hwaits

theorem inv_ft240_canRead (h : Inv s) {pins : Levels}
    (hs : ft240Step p s (.canRead pins) = some t) : Inv t := by
  have hwaits := ft240Step_awaits hs
  have hudr1 := h.udr1
  have htask := h.task
  cases ht : s.ft240Task with
  | read rx tx r =>
    rw [ht] at hudr1 htask
    cases r with
    | canRead =>
      unfold ft240Step at hs
      simp only [ht] at hs
      cases hs
      have hslots : [rx.ptr, tx.slot] = s.ft240Task.slots := by rw [ht]; rfl
      rcases UsbRead.await_cases pins with hr | hr | hr <;> rw [hr]
      · exact h.ft240 rfl hslots htask rfl hudr1 (.inl rfl) h.log
      · exact h.ft240 rfl hslots htask rfl hudr1 (.inl rfl) h.log
      · exact h.ft240 rfl hslots ⟨htask, nofun, nofun⟩ rfl hudr1 (.inl rfl) h.log
    | take | done _ =>
      rw [ht] at hwaits
      cases hwaits
  | requestRx | requestTx _ | greet _ _ _ | delay _ _ | compose _ _ _ _ | write _ _ _ _ _ =>
    rw [ht] at hwaits
    cases hwaits

theorem inv_ft240_take (h : Inv s) {sense : Bool} {strobes : List Strobe}
    (hs : ft240Step p s (.take sense strobes) = some t) : Inv t := by
  have hwaits := ft240Step_awaits hs
  have hudr1 := h.udr1
  have htask := h.task
  cases ht : s.ft240Task with
  | read rx tx r =>
    rw [ht] at hudr1 htask
    cases r with
    | take =>
      obtain ⟨-, row, hrow, hlen⟩ := h.own (i := rx.ptr) (by rw [ht]; simp [Ft240Task.slots])
      have hne : row ≠ [] := by
        rintro rfl
        cases hlen
      cases hserve : UsbRead.serve row sense strobes with
      | none =>
        unfold ft240Step at hs
        simp only [ht, index_ok hrow, Except.toOption, Option.bind_eq_bind,
          Option.bind_some, hserve] at hs
        cases hs
      | some out =>
        obtain ⟨row', taken, result⟩ := out
        obtain ⟨hlen', hok⟩ := UsbRead.serve_eq hne hserve
        unfold ft240Step at hs
        simp only [ht, index_ok hrow, Except.toOption, Option.bind_eq_bind,
          Option.bind_some, hserve] at hs
        cases hs
        have hi : rx.ptr < s.pool.pool.length := (List.getElem?_eq_some_iff.mp hrow).1
        refine h.ft240 (map_length_set hrow hlen') (by rw [ht]; rfl)
          ⟨htask, fun len hres => ?_, fun len hres => ⟨row', ?_, (hok len hres).2.2.2⟩⟩ rfl hudr1
          (.inl rfl) h.log
        · rw [← hlen]
          exact ⟨(hok len hres).1, (hok len hres).2.1, (hok len hres).2.2.1⟩
        · rw [List.getElem?_set_self hi]
    | canRead | done _ =>
      rw [ht] at hwaits
      cases hwaits
  | requestRx | requestTx _ | greet _ _ _ | delay _ _ | compose _ _ _ _ | write _ _ _ _ _ =>
    rw [ht] at hwaits
    cases hwaits

/-- The message is the report of what was taken, and composing it does not trap. -/
theorem ft240Message_report {f : FlatBuffer} {row taken : List UInt8}
    {result : Except ErrorKind Nat} (hf : Filled f bufferSize []) (hrow : row.length = bufferSize)
    (hok : ReadOk taken result) (htaken : ∀ len, result = .ok len → row.take len = taken) :
    ∃ f', ft240Message p f row result = .ok f' ∧ Filled f' bufferSize (report taken result) := by
  cases result with
  | error e => exact ⟨f, rfl, hf⟩
  | ok len =>
    obtain ⟨-, hle, -⟩ := hok len rfl
    obtain ⟨f', hmsg, hf'⟩ := ft240Message_eq (p := p) hf hle (by rw [hrow]; exact hle)
    rw [htaken len rfl] at hf'
    exact ⟨f', hmsg, hf'⟩

/-- A step that composes starts from two whole rows, and ends with the report in the
second. -/
theorem compose_report (h : Inv s) {taken : List UInt8} {result : Except ErrorKind Nat}
    (ht : s.ft240Task = .compose rx tx taken result) :
    ∃ rxRow txRow f, s.pool.pool[rx.ptr]? = some rxRow ∧ rxRow.length = bufferSize ∧
      s.pool.pool[tx.slot]? = some txRow ∧ txRow.length = bufferSize ∧
      tx.load s.pool.pool = .ok ⟨0, 0, 0, txRow⟩ ∧
      ft240Message p ⟨0, 0, 0, txRow⟩ rxRow result = .ok f ∧
      Filled f bufferSize (report taken result) := by
  have htask := h.task
  rw [ht] at htask
  obtain ⟨hreset, hok, htaken⟩ := htask
  obtain ⟨-, rxRow, hrx, hrxLen⟩ := h.own (i := rx.ptr) (by rw [ht]; simp [Ft240Task.slots])
  obtain ⟨-, txRow, htx, htxLen⟩ := h.own (i := tx.slot) (by rw [ht]; simp [Ft240Task.slots])
  have hempty : Filled ⟨0, 0, 0, txRow⟩ bufferSize [] := htxLen ▸ filled_reset ⟨0, 0, 0, txRow⟩
  obtain ⟨f, hmsg, hf⟩ := ft240Message_report (p := p) hempty hrxLen hok fun len hres => by
    obtain ⟨row, hrow, htake⟩ := htaken len hres
    rw [hrx, Option.some.injEq] at hrow
    rw [hrow, htake]
  refine ⟨rxRow, txRow, f, hrx, hrxLen, htx, htxLen, ?_, hmsg, hf⟩
  rw [TxBuffer.load, index_ok htx, ok_bind, hreset]
  rfl

/-- **Composing** the message of a read always succeeds, and a message that is not empty
is to be written next. -/
theorem ft240_compose (h : Inv s) {taken : List UInt8} {result : Except ErrorKind Nat}
    (ht : s.ft240Task = .compose rx tx taken result) :
    ∃ t, ft240Step p s .compose = some t ∧ Inv t ∧ (report taken result ≠ [] →
      t.log = s.log ∧ ∃ tx', t.ft240Task = .write rx tx' taken result .canWrite) := by
  have hudr1 := h.udr1
  have htask := h.task
  have hnodup := h.nodup
  rw [ht] at hudr1 htask hnodup
  have hne : tx.slot ≠ rx.ptr := by
    rintro heq
    rw [Ft240Task.slots, List.cons_append, List.nodup_cons, ← heq] at hnodup
    exact hnodup.1 (List.mem_cons_self ..)
  obtain ⟨rxRow, txRow, f, hrx, hrxLen, htx, htxLen, hload, hmsg, hf⟩ :=
    compose_report (p := p) h ht
  have hi : tx.slot < s.pool.pool.length := (List.getElem?_eq_some_iff.mp htx).1
  have hset : (s.pool.pool.set tx.slot f.buf)[tx.slot]? = some f.buf := List.getElem?_set_self hi
  have hshape := map_length_set htx (hf.length_buf.trans htxLen.symm)
  have hasRef : (⟨tx.slot, f.rPos, f.wPos, f.len⟩ : TxBuffer).asRef
      (s.pool.pool.set tx.slot f.buf) = .ok (report taken result) := asRef_eq hset hf
  have hrx' : (s.pool.pool.set tx.slot f.buf)[rx.ptr]? = some rxRow := by
    rw [List.getElem?_set_ne hne, hrx]
  cases hrep : report taken result with
  | nil =>
    -- an empty message is refused at once, and the next read begins
    rw [hrep] at hasRef
    have hstep : ft240Step p s .compose = some { s with
        pool := { s.pool with pool := s.pool.pool.set tx.slot f.buf }
        ft240Task := .read rx ⟨tx.slot, 0, 0, 0⟩ .canRead
        log := s.log ++ [⟨taken, result, []⟩] } := by
      simp only [ft240Step, ht, index_ok hrx, hload, Except.toOption, Option.bind_eq_bind,
        Option.bind_some, hmsg, TxBuffer.save, hasRef, nextRead_eq hrx' hrxLen]
      rfl
    refine ⟨_, hstep, h.ft240 hshape (by rw [ht]; rfl) rfl rfl ?_ (.inl rfl)
      (complete_append h.log ⟨htask.2.1, hrep.symm⟩), fun hne => absurd rfl hne⟩
    rw [hudr1]
    simp [Ft240Task.sent, Ft240Task.greeted]
  | cons byte rest =>
    rw [hrep] at hasRef
    have hstep : ft240Step p s .compose = some { s with
        pool := { s.pool with pool := s.pool.pool.set tx.slot f.buf }
        ft240Task := .write rx ⟨tx.slot, f.rPos, f.wPos, f.len⟩ taken result .canWrite } := by
      simp only [ft240Step, ht, index_ok hrx, hload, Except.toOption, Option.bind_eq_bind,
        Option.bind_some, hmsg, TxBuffer.save, hasRef]
      rfl
    exact ⟨_, hstep,
      h.ft240 hshape (by rw [ht]; rfl) ⟨htask.2.1, f.buf, hset, hf⟩ rfl hudr1 (.inl rfl) h.log,
      fun _ => ⟨rfl, _, rfl⟩⟩

/-- **Step lemma** of `ft240_reader_task`. -/
theorem inv_ft240 {act : Ft240Act} (h : Inv s) (hs : ft240Step p s act = some t) : Inv t := by
  cases act with
  | request w => exact inv_ft240_request h hs
  | canWrite w => exact inv_ft240_canWrite h hs
  | send => exact inv_ft240_send h hs
  | delayed => exact inv_ft240_delayed h hs
  | canRead pins => exact inv_ft240_canRead h hs
  | take sense strobes => exact inv_ft240_take h hs
  | compose =>
    have hwaits := ft240Step_awaits hs
    cases ht : s.ft240Task with
    | compose rx tx taken result =>
      obtain ⟨t', ht', hinv, -⟩ := ft240_compose (p := p) h ht
      rw [ht'] at hs
      cases hs
      exact hinv
    | requestRx | requestTx _ | greet _ _ _ | delay _ _ | read _ _ _ | write _ _ _ _ _ =>
      rw [ht] at hwaits
      cases hwaits

end Ft240

/-! ## The steps of `usart1_reader_task` -/

section Usart1

variable {s t : State}

def Usart1Task.Awaits (act : Usart1Act) (task : Usart1Task) : Prop :=
  match act, task with
  | .canWrite _, .greet .canWrite | .canWrite _, .write _ _ .canWrite => True
  | .strobe _, .greet (.writing _) | .strobe _, .write _ _ (.writing _) => True
  | .request _, .requestRx | .request _, .requestTx _ => True
  | .canRead _, .read _ _ (.canRead _) | .take, .read _ _ (.take _) => True
  | .compose, .compose _ _ _ => True
  | _, _ => False

theorem usart1Step_awaits {act : Usart1Act} (hs : usart1Step p s act = some t) :
    s.usart1Task.Awaits act := by
  unfold usart1Step at hs
  split at hs
  case h_10 => cases hs
  all_goals
    rename_i htask
    rw [htask]
    trivial

theorem slots_nextReadTo {rows : List (List UInt8)} {rx : Storage} {tx : TxBuffer}
    {task : Usart1Task} (h : nextReadTo rows rx tx = .ok task) :
    task.slots = [rx.ptr, tx.slot] := by
  obtain ⟨row, -, h⟩ := bind_eq_ok.mp h
  obtain ⟨r, -, h⟩ := bind_eq_ok.mp h
  cases r <;> cases h <;> rfl

/-- What the other task, its messages and the UART are after a step of `usart1_reader_task`. -/
structure Apart (s t : State) : Prop where
  ft240Task : t.ft240Task = s.ft240Task
  log : t.log = s.log
  uart : t.uart = s.uart
  writer : t.writer = s.writer

/-- A step that stores at most into the slots the task has. -/
def StoresOwn (s t : State) : Prop :=
  t.usart1Task.slots = s.usart1Task.slots ∧ ∃ rows, t.pool = { s.pool with pool := rows } ∧
    rows.length = s.pool.pool.length ∧ ∀ i ∉ s.usart1Task.slots, rows[i]? = s.pool.pool[i]?

/-- A step that requests a slot. -/
def Requests (p : Profile) (s t : State) : Prop :=
  ∃ kind w storage, request p kind s.pool w = .ok (storage, t.pool) ∧
    t.usart1Task.slots = s.usart1Task.slots ++ (storage.map Storage.ptr).toList

theorem storesOwn_of_pool_eq (hslots : t.usart1Task.slots = s.usart1Task.slots)
    (hpool : t.pool = s.pool) : StoresOwn s t :=
  ⟨hslots, s.pool.pool, hpool, rfl, fun _ _ => rfl⟩

theorem storesOwn_set {i : Nat} {row : List UInt8} (hi : i ∈ s.usart1Task.slots)
    (hslots : t.usart1Task.slots = s.usart1Task.slots)
    (hpool : t.pool = { s.pool with pool := s.pool.pool.set i row }) : StoresOwn s t :=
  ⟨hslots, _, hpool, List.length_set, fun j hj =>
    List.getElem?_set_ne (by rintro rfl; exact hj hi)⟩

theorem usart1_canWrite {pins : Levels} (hs : usart1Step p s (.canWrite pins) = some t) :
    Apart s t ∧ StoresOwn s t := by
  have hwaits := usart1Step_awaits hs
  cases ht : s.usart1Task with
  | greet w =>
    cases w with
    | canWrite =>
      unfold usart1Step at hs
      simp only [ht] at hs
      cases hs
      refine ⟨⟨rfl, rfl, rfl, rfl⟩, storesOwn_of_pool_eq ?_ rfl⟩
      rw [ht]
      cases UsbWrite.await pins <;> rfl
    | writing _ | done _ =>
      rw [ht] at hwaits
      cases hwaits
  | write rx tx w =>
    cases w with
    | canWrite =>
      unfold usart1Step at hs
      simp only [ht] at hs
      split at hs
      · obtain ⟨task, htask, hs⟩ := Option.bind_eq_some_iff.mp hs
        cases hs
        refine ⟨⟨rfl, rfl, rfl, rfl⟩, storesOwn_of_pool_eq ?_ rfl⟩
        rw [ht]
        exact slots_nextReadTo (toOption_eq_some.mp htask)
      · cases hs
        exact ⟨⟨rfl, rfl, rfl, rfl⟩, storesOwn_of_pool_eq (by rw [ht]; rfl) rfl⟩
    | writing _ | done _ =>
      rw [ht] at hwaits
      cases hwaits
  | requestRx | requestTx _ | read _ _ _ | compose _ _ _ =>
    rw [ht] at hwaits
    cases hwaits

theorem usart1_strobe {pins : Levels} (hs : usart1Step p s (.strobe pins) = some t) :
    Apart s t ∧ StoresOwn s t := by
  have hwaits := usart1Step_awaits hs
  cases ht : s.usart1Task with
  | greet w =>
    cases w with
    | writing n =>
      unfold usart1Step at hs
      simp only [ht] at hs
      obtain ⟨⟨byte, w⟩, -, hs⟩ := Option.bind_eq_some_iff.mp hs
      cases hs
      refine ⟨⟨rfl, rfl, rfl, rfl⟩, storesOwn_of_pool_eq ?_ rfl⟩
      rw [ht]
      cases w <;> rfl
    | canWrite | done _ =>
      rw [ht] at hwaits
      cases hwaits
  | write rx tx w =>
    cases w with
    | writing n =>
      unfold usart1Step at hs
      simp only [ht] at hs
      obtain ⟨buf, -, hs⟩ := Option.bind_eq_some_iff.mp hs
      obtain ⟨⟨byte, w⟩, -, hs⟩ := Option.bind_eq_some_iff.mp hs
      dsimp only at hs
      split at hs
      · obtain ⟨task, htask, hs⟩ := Option.bind_eq_some_iff.mp hs
        cases hs
        refine ⟨⟨rfl, rfl, rfl, rfl⟩, storesOwn_of_pool_eq ?_ rfl⟩
        rw [ht]
        exact slots_nextReadTo (toOption_eq_some.mp htask)
      · cases hs
        exact ⟨⟨rfl, rfl, rfl, rfl⟩, storesOwn_of_pool_eq (by rw [ht]; rfl) rfl⟩
    | canWrite | done _ =>
      rw [ht] at hwaits
      cases hwaits
  | requestRx | requestTx _ | read _ _ _ | compose _ _ _ =>
    rw [ht] at hwaits
    cases hwaits

theorem usart1_request {w : Waker} (hs : usart1Step p s (.request w) = some t) :
    Apart s t ∧ Requests p s t := by
  have hwaits := usart1Step_awaits hs
  cases ht : s.usart1Task with
  | requestRx =>
    unfold usart1Step at hs
    simp only [ht] at hs
    obtain ⟨⟨storage, pool⟩, hreq, hs⟩ := Option.bind_eq_some_iff.mp hs
    cases hs
    refine ⟨⟨rfl, rfl, rfl, rfl⟩, .slice, w, storage, toOption_eq_some.mp hreq, ?_⟩
    rw [ht]
    cases storage <;> rfl
  | requestTx rx =>
    unfold usart1Step at hs
    simp only [ht] at hs
    obtain ⟨⟨storage, pool⟩, hreq, hs⟩ := Option.bind_eq_some_iff.mp hs
    have hreq := toOption_eq_some.mp hreq
    cases storage with
    | none =>
      cases hs
      exact ⟨⟨rfl, rfl, rfl, rfl⟩, .flatBuffer, w, none, hreq, by rw [ht]; rfl⟩
    | some tx =>
      obtain ⟨task, htask, hs⟩ := Option.bind_eq_some_iff.mp hs
      cases hs
      refine ⟨⟨rfl, rfl, rfl, rfl⟩, .flatBuffer, w, some tx, hreq, ?_⟩
      rw [ht]
      exact slots_nextReadTo (toOption_eq_some.mp htask)
  | greet _ | read _ _ _ | compose _ _ _ | write _ _ _ =>
    rw [ht] at hwaits
    cases hwaits

theorem usart1_canRead {w : Waker} (hs : usart1Step p s (.canRead w) = some t) :
    Apart s t ∧ StoresOwn s t := by
  have hwaits := usart1Step_awaits hs
  cases ht : s.usart1Task with
  | read rx tx r =>
    cases r with
    | canRead total =>
      unfold usart1Step at hs
      simp only [ht] at hs
      generalize UartReadTo.await s.reader w total = out at hs
      cases hs
      refine ⟨⟨rfl, rfl, rfl, rfl⟩, storesOwn_of_pool_eq ?_ rfl⟩
      rw [ht]
      cases out.1 <;> rfl
    | take _ | done _ =>
      rw [ht] at hwaits
      cases hwaits
  | greet _ | requestRx | requestTx _ | compose _ _ _ | write _ _ _ =>
    rw [ht] at hwaits
    cases hwaits

theorem usart1_take (hs : usart1Step p s .take = some t) : Apart s t ∧ StoresOwn s t := by
  have hwaits := usart1Step_awaits hs
  cases ht : s.usart1Task with
  | read rx tx r =>
    cases r with
    | take total =>
      unfold usart1Step at hs
      simp only [ht] at hs
      obtain ⟨row, -, hs⟩ := Option.bind_eq_some_iff.mp hs
      obtain ⟨⟨r, reader, row'⟩, -, hs⟩ := Option.bind_eq_some_iff.mp hs
      cases hs
      refine ⟨⟨rfl, rfl, rfl, rfl⟩, storesOwn_set (i := rx.ptr) ?_ ?_ rfl⟩
      · rw [ht]
        exact List.mem_cons_self ..
      · rw [ht]
        cases r <;> rfl
    | canRead _ | done _ =>
      rw [ht] at hwaits
      cases hwaits
  | greet _ | requestRx | requestTx _ | compose _ _ _ | write _ _ _ =>
    rw [ht] at hwaits
    cases hwaits

theorem usart1_compose (hs : usart1Step p s .compose = some t) : Apart s t ∧ StoresOwn s t := by
  have hwaits := usart1Step_awaits hs
  cases ht : s.usart1Task with
  | compose rx tx result =>
    have hmem : tx.slot ∈ s.usart1Task.slots := by
      rw [ht]
      exact List.mem_cons_of_mem _ (List.mem_cons_self ..)
    unfold usart1Step at hs
    simp only [ht] at hs
    obtain ⟨row, -, hs⟩ := Option.bind_eq_some_iff.mp hs
    obtain ⟨f, -, hs⟩ := Option.bind_eq_some_iff.mp hs
    obtain ⟨f', -, hs⟩ := Option.bind_eq_some_iff.mp hs
    obtain ⟨buf, -, hs⟩ := Option.bind_eq_some_iff.mp hs
    split at hs
    · obtain ⟨task, htask, hs⟩ := Option.bind_eq_some_iff.mp hs
      cases hs
      refine ⟨⟨rfl, rfl, rfl, rfl⟩, storesOwn_set hmem ?_ rfl⟩
      rw [ht]
      exact slots_nextReadTo (toOption_eq_some.mp htask)
    · cases hs
      exact ⟨⟨rfl, rfl, rfl, rfl⟩, storesOwn_set hmem (by rw [ht]; rfl) rfl⟩
  | greet _ | requestRx | requestTx _ | read _ _ _ | write _ _ _ =>
    rw [ht] at hwaits
    cases hwaits

/-- **What a step of `usart1_reader_task` does**: it is apart from the other task, and it
requests a slot or stores into its own. -/
theorem usart1Step_cases {act : Usart1Act} (hs : usart1Step p s act = some t) :
    Apart s t ∧ (Requests p s t ∨ StoresOwn s t) := by
  cases act with
  | canWrite pins => exact (usart1_canWrite hs).imp_right .inr
  | strobe pins => exact (usart1_strobe hs).imp_right .inr
  | request w => exact (usart1_request hs).imp_right .inl
  | canRead w => exact (usart1_canRead hs).imp_right .inr
  | take => exact (usart1_take hs).imp_right .inr
  | compose => exact (usart1_compose hs).imp_right .inr

/-- **Step lemma** of `usart1_reader_task`. -/
theorem inv_usart1 {act : Usart1Act} (h : Inv s) (hs : usart1Step p s act = some t) : Inv t := by
  obtain ⟨⟨htask, hlog, huart, hwriter⟩, hreq | ⟨hslots, rows, hpool, hlen, hrows⟩⟩ :=
    usart1Step_cases hs
  · obtain ⟨kind, w, storage, hreq, hslots⟩ := hreq
    have ha := s.ft240Task.length_slots_le
    have hb := s.usart1Task.length_slots_le
    have hcap : numBuffers = 8 := rfl
    obtain ⟨capacity, b, hreq', hrows, hperm⟩ := request_eq (p := p) h.pool
      (by rw [List.length_append]; omega) kind w
    rw [hreq', Except.ok.injEq, Prod.mk.injEq] at hreq
    obtain ⟨rfl, hpool⟩ := hreq
    have hnew : t.usart1Task.slots =
        s.usart1Task.slots ++ [(s.ft240Task.slots ++ s.usart1Task.slots).length] := hslots
    refine ⟨?_, ?_, ?_, hwriter.trans h.writer, by rw [huart]; exact h.ucsr1b,
      by rw [huart, htask, hlog]; exact h.udr1, by rw [htask, hlog]; exact h.early,
      by rw [hlog]; exact h.log⟩
    · rw [htask, hnew, ← hpool, ← List.append_assoc]
      exact hperm _ (List.perm_append_singleton ..)
    · rw [hnew, ← hpool, hrows]
      exact fun i hi hnot => h.rows i hi fun hmem => hnot (List.mem_append_left _ hmem)
    · rw [htask, ← hpool, hrows]
      exact h.task
  · refine ⟨?_, ?_, ?_, hwriter.trans h.writer, by rw [huart]; exact h.ucsr1b,
      by rw [huart, htask, hlog]; exact h.udr1, by rw [htask, hlog]; exact h.early,
      by rw [hlog]; exact h.log⟩
    · rw [htask, hslots, hpool]
      exact h.pool.set hlen
    · rw [hslots, hpool]
      intro i hi hnot
      rw [hrows i hnot]
      exact h.rows i hi hnot
    · rw [htask, hpool]
      exact h.task.frame fun i hi => hrows i (h.own hi).1

end Usart1

/-! ## Whole runs -/

section Runs

variable {s t : State}

/-- The invariant says nothing about what the UART receives. -/
theorem Inv.setReader (h : Inv s) (reader : UsartReader) : Inv { s with reader := reader } :=
  ⟨h.pool, h.rows, h.task, h.writer, h.ucsr1b, h.udr1, h.early, h.log⟩

/-- **Step lemma** of the program. UDRIE1 is never set, so `USART1_UDRE` never runs. -/
theorem inv_step {act : Act} (h : Inv s) (hs : step p s act = some t) : Inv t := by
  cases act with
  | ft240 act => exact inv_ft240 h hs
  | usart1 act => exact inv_usart1 h hs
  | usart1Rx byte =>
    cases hs
    exact h.setReader _
  | usart1Udre =>
    have hoff : initUcsr1b &&& udrie1 = 0 := by decide
    rw [step, h.ucsr1b, if_pos hoff] at hs
    cases hs

/-- The program. -/
abbrev system (p : Profile) : System State Act := .ofFun start (step p)

theorem inv_reachable (h : (system p).Reachable s) : Inv s := by
  refine System.Reachable.invariant ?_ ?_ h
  · rintro s rfl
    exact inv_start
  · exact fun s a t hi hs => inv_step hi hs

end Runs

end AvrBridge.Firmware
