import AvrBridge.FirmwareInvariant

/-! Packets on their way from USB to the UART. What a read took is in the row of the task
when the message is composed, and the message is in its other row when it is sent. -/

namespace AvrBridge.Firmware

open Rust Lts Tasks

variable {p : Profile} {s : State}

/-- The message of a read begins with the bytes it took. -/
theorem report_take {taken : List UInt8} {len : Nat} (hlen : taken.length = len)
    (hle : len ≤ bufferSize) : (report taken (.ok len)).take len = taken := by
  subst hlen
  have hfit : appendFit bufferSize [] taken = taken :=
    if_pos (by rw [List.length_nil, Nat.zero_add]; exact hle)
  have hprefix : taken <+: report taken (.ok taken.length) := by
    rw [report, greedy, List.foldl_cons, hfit]
    exact prefix_foldl_appendFit ..
  exact (List.prefix_iff_eq_take.mp hprefix).symm

/-- An iteration whose read returned `Ok(len)` forwards what it took. -/
structure Iteration.Forwards (it : Iteration) (len : Nat) : Prop where
  pos : 1 ≤ len
  le : len ≤ bufferSize
  digit : asU8 len + 0x30 < 256
  taken : it.taken.length = len
  payload : it.message.take len = it.taken
  message : it.message = greedy bufferSize (it.taken :: trailer len)

theorem Iteration.Complete.forwards {it : Iteration} (h : it.Complete) {len : Nat}
    (hres : it.result = .ok len) : it.Forwards len := by
  obtain ⟨hok, hmsg⟩ := h
  obtain ⟨hpos, hle, htaken⟩ := hok len hres
  rw [hres] at hmsg
  have hcap : bufferSize = 128 := rfl
  refine ⟨hpos, hle, ?_, htaken, ?_, hmsg⟩
  · rw [asU8_of_lt (by omega)]
    omega
  · rw [hmsg]
    exact report_take htaken hle

/-- What `ft240_reader_task` does after a read. -/
def sendRun (w : Waker) : List Act := [.ft240 .compose, .ft240 (.canWrite w), .ft240 .send]

/-- **Once a read returned `Ok(len)`**, nothing stops its message. -/
theorem sendRun_eq (h : Inv s) {rx : Storage} {tx : TxBuffer} {taken : List UInt8} {len : Nat}
    (ht : s.ft240Task = .compose rx tx taken (.ok len)) (w : Waker) :
    ∃ t, runFun (step p) s (sendRun w) = some t ∧
      t.log = s.log ++ [⟨taken, .ok len, report taken (.ok len)⟩] := by
  have htask := h.task
  rw [ht] at htask
  obtain ⟨hpos, hle, hlen⟩ := htask.2.1 len rfl
  have hne : report taken (.ok len) ≠ [] := by
    intro hnil
    have htake := report_take hlen hle
    rw [hnil, List.take_nil] at htake
    rw [← htake, List.length_nil] at hlen
    omega
  obtain ⟨s₁, hs₁, hinv₁, hwrite⟩ := ft240_compose (p := p) h ht
  obtain ⟨hlog₁, tx', ht₁⟩ := hwrite hne
  have hs₂ : ft240Step p s₁ (.canWrite w) =
      some { s₁ with ft240Task := .write rx tx' taken (.ok len) .send } := by
    unfold ft240Step
    simp only [ht₁, hinv₁.writer, await_new]
    rw [← hinv₁.writer]
    rfl
  have hinv₂ := inv_ft240 hinv₁ hs₂
  obtain ⟨-, row, hrow, hfilled⟩ := hinv₂.task
  have hbuf : tx'.asRef s₁.pool.pool = .ok (report taken (.ok len)) := asRef_eq hrow hfilled
  obtain ⟨-, rxRow, hrxRow, hrxLen⟩ := hinv₂.own (i := rx.ptr) (List.mem_cons_self ..)
  simp only [runFun, sendRun, List.foldlM_cons, List.foldlM_nil, step, hs₁, hs₂,
    Option.bind_eq_bind, Option.bind_some]
  unfold ft240Step
  simp only [hbuf, nextRead_eq hrxRow hrxLen, hlog₁]
  exact ⟨_, rfl, rfl⟩

/-- **USB to UART.** In every run of the two tasks UDR1 has received the greeting and the
messages of the finished iterations, each read that returned `Ok(len)` is forwarded,
and none is held up. -/
theorem forwards_every_read (p : Profile) {s : State} (h : (system p).Reachable s) :
    s.uart.udr1 = s.ft240Task.sent s.log ∧
    (∀ it ∈ s.log, ∀ len, it.result = .ok len → it.Forwards len) ∧
    ∀ rx tx taken len w, s.ft240Task = .compose rx tx taken (.ok len) →
      ∃ t it, runFun (step p) s (sendRun w) = some t ∧ t.log = s.log ++ [it] ∧
        it.taken = taken ∧ it.Forwards len := by
  have hinv := inv_reachable h
  refine ⟨hinv.udr1, fun it hit len hres => (hinv.log it hit).forwards hres, ?_⟩
  intro rx tx taken len w ht
  obtain ⟨t, hrun, hlog⟩ := sendRun_eq (p := p) hinv ht w
  have htask := hinv.task
  rw [ht] at htask
  exact ⟨t, _, hrun, hlog, rfl, (complete_report htask.2.1).forwards rfl⟩

/-- The other task makes its requests in between, and one read takes two bytes. -/
def twoBytes : List Act :=
  [.ft240 (.request 0), .usart1 (.canWrite ⟨false, true, true⟩), .usart1 (.request 0),
    .ft240 (.request 0), .ft240 (.canWrite 0), .usart1 (.request 0), .ft240 .send,
    .ft240 .delayed, .ft240 (.canRead ⟨true, false, true⟩),
    .ft240 (.take true [⟨104, true, false⟩, ⟨105, true, true⟩])] ++ sendRun 0

theorem forwards_every_read_twoBytes :
    ∃ s, (system .dev).Reachable s ∧ (s.log.map Iteration.taken) = [[104, 105]] ∧
      s.uart.udr1 = s.ft240Task.sent s.log ∧
      ∀ it ∈ s.log, ∀ len, it.result = .ok len → it.Forwards len := by
  obtain ⟨s, hs, htaken⟩ := exists_reachable_of_runFun twoBytes
    (fun s => s.log.map Iteration.taken == [[104, 105]])
    (show (system .dev).Reachable start from .init rfl) (by decide +kernel)
  obtain ⟨hudr1, hall, -⟩ := forwards_every_read .dev hs
  exact ⟨s, hs, beq_iff_eq.mp htaken, hudr1, hall⟩

end AvrBridge.Firmware
