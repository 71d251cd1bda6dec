import AvrBridge.Ft240xTransfers
import AvrBridge.Lts

/-! `Ft240xWriterHandle::write` sample by sample and strobe by strobe, while SENSE and TXE
change between any two of its accesses. The strobe and the test after it are two critical
sections, and the await tests for the first byte only. -/

namespace AvrBridge.UsbWrite

open Rust Lts Ft240x

namespace Strobes

/-! ## The system -/

/-- Where the call stands; `testTxe n` and `testSense n` are before the two samples of the
done condition after `n` bytes. -/
inductive Pc where
  | call (u : UsbWrite)
  | pollTxe
  | testTxe (bytesWritten : Nat)
  | testSense (bytesWritten : Nat)
  | panicked (e : Panic)
  deriving DecidableEq, Repr

/-- The call, the two pins, and of the past: the bytes strobed; whether TXE was low when
sampled last with no strobe since (`txeLow`); whether a strobe waits for its answer on TXE
(`mayRise`); whether TXE was sampled high or SENSE low after the last strobe (`refused`);
whether a strobe was ever made without `txeLow` (`blind`) or while the pin was high (`busy`),
and whether TXE ever rose without a strobe to answer (`unprompted`). -/
structure State where
  pc : Pc
  sense : Bool
  txe : Bool
  strobed : List UInt8
  txeLow : Bool
  mayRise : Bool
  refused : Bool
  blind : Bool
  busy : Bool
  unprompted : Bool
  deriving DecidableEq, Repr

inductive Act where
  | setSense (level : Bool)
  | setTxe (level : Bool)
  | run
  deriving DecidableEq, Repr

/-- `is_connected`. -/
def sampleSense (s : State) (pc : Pc) : State :=
  { s with pc := pc, refused := s.refused || !s.sense }

/-- `can_write`. -/
def sampleTxe (s : State) (pc : Pc) : State :=
  { s with pc := pc, txeLow := !s.txe, mayRise := false, refused := s.refused || s.txe }

/-- `write_byte`. -/
def strobeByte (s : State) (byte : UInt8) (pc : Pc) : State :=
  { s with
    pc := pc
    strobed := s.strobed ++ [byte]
    txeLow := false
    mayRise := true
    refused := false
    blind := s.blind || !s.txeLow
    busy := s.busy || s.txe }

/-- A pin changes, or the call makes its next access. -/
def step (buf : List UInt8) (s : State) : Act → Option State
  | .setSense level => some { s with sense := level }
  | .setTxe level => some { s with
      txe := level
      unprompted := s.unprompted || (level && !s.txe && !s.mayRise) }
  | .run =>
      match s.pc with
      | .call .canWrite =>
          some (sampleSense s
            (if s.sense then .pollTxe else .call (.done (.error .notConnected))))
      | .pollTxe =>
          some (sampleTxe s (if s.txe then .call .canWrite else .call (.writing 0)))
      | .call (.writing bytesWritten) =>
          match index buf bytesWritten with
          | .ok byte => some (strobeByte s byte (.testTxe (bytesWritten + 1)))
          | .error e => some { s with pc := .panicked e }
      | .testTxe bytesWritten =>
          if bytesWritten == buf.length then
            some { s with pc := .call (.done (.ok bytesWritten)) }
          else
            some (sampleTxe s
              (if s.txe then .call (.done (.ok bytesWritten)) else .testSense bytesWritten))
      | .testSense bytesWritten =>
          some (sampleSense s
            (if s.sense then .call (.writing bytesWritten)
              else .call (.done (.ok bytesWritten))))
      | .call (.done _) | .panicked _ => none

/-- A call on pins at any levels, perhaps with the answer to an earlier strobe to come. -/
def start (buf : List UInt8) (sense txe mayRise : Bool) : State :=
  ⟨.call (UsbWrite.enter buf), sense, txe, [], false, mayRise, false, false, false, false⟩

def system (buf : List UInt8) : System State Act :=
  .ofFunFrom (fun s => ∃ sense txe mayRise, s = start buf sense txe mayRise) (step buf)

/-! ## The coarser model -/

section Coarse

variable {buf : List UInt8} {s : State} {n : Nat}

/-- The pins take these levels. -/
theorem exists_levels (buf : List UInt8) (s : State) (pins : Levels) :
    ∃ u, (∀ acts, runFun (step buf) s (.setSense pins.sense :: .setTxe pins.txe :: acts) =
        runFun (step buf) u acts) ∧
      u.pc = s.pc ∧ u.strobed = s.strobed ∧ u.sense = pins.sense ∧ u.txe = pins.txe :=
  ⟨_, fun _ => rfl, rfl, rfl, rfl, rfl⟩

/-- A poll of `Ft240xCanWrite` on given levels. -/
theorem runFun_await (hpc : s.pc = .call .canWrite) (pins : Levels) :
    ∃ acts t, runFun (step buf) s acts = some t ∧ t.pc = .call (UsbWrite.await pins) ∧
      t.strobed = s.strobed := by
  have hawait : UsbWrite.await pins =
      if pins.sense then if pins.txe then .canWrite else .writing 0
      else .done (.error .notConnected) := by
    rw [UsbWrite.await, show Ft240x.canWrite 0 = Line.txe.poll 0 from rfl, pollAnswer_poll]
    cases pins.sense <;> cases ht : pins.txe <;> simp [Line.isLow, ht]
  obtain ⟨u, hlevels, hupc, hstrobed, husense, hutxe⟩ := exists_levels buf s pins
  have hfirst : step buf u .run = some (sampleSense u
      (if pins.sense then .pollTxe else .call (.done (.error .notConnected)))) := by
    simp only [step, hupc, hpc, husense]
  rw [hawait]
  cases hsense : pins.sense with
  | false =>
    rw [hsense] at hfirst
    refine ⟨_, _, (hlevels [.run]).trans (runFun_cons_of_eq hfirst []), rfl, hstrobed⟩
  | true =>
    rw [hsense] at hfirst
    have hsecond : step buf (sampleSense u .pollTxe) .run = some (sampleTxe
        (sampleSense u .pollTxe) (if pins.txe then .call .canWrite else .call (.writing 0))) := by
      simp only [step, sampleSense, hutxe]
    refine ⟨_, _, (hlevels [.run, .run]).trans
      ((runFun_cons_of_eq hfirst [.run]).trans (runFun_cons_of_eq hsecond [])), ?_, hstrobed⟩
    cases pins.txe <;> rfl

/-- A pass of the loop on levels that stay as they are after the strobe. -/
theorem runFun_pass (hpc : s.pc = .call (.writing n)) (pins : Levels) {byte : UInt8}
    {u : UsbWrite} (hstrobe : UsbWrite.strobe buf pins n = .ok (byte, u)) :
    ∃ acts t, runFun (step buf) s acts = some t ∧ t.pc = .call u ∧
      t.strobed = s.strobed ++ [byte] := by
  obtain ⟨byte', hindex, -⟩ := bind_eq_ok.mp hstrobe
  obtain ⟨hn, hget⟩ := List.getElem?_eq_some_iff.mp (index_eq_ok.mp hindex)
  obtain ⟨hbyte, hu⟩ := Prod.mk.inj (Except.ok.inj (hstrobe.symm.trans (strobe_eq hn pins)))
  rw [hget] at hbyte
  subst hbyte
  have hwrite : step buf s .run = some (strobeByte s byte (.testTxe (n + 1))) := by
    simp only [step, hpc, hindex]
  obtain ⟨v, hlevels, hvpc, hstrobed, hvsense, hvtxe⟩ :=
    exists_levels buf (strobeByte s byte (.testTxe (n + 1))) pins
  have hfirst : ∀ acts, runFun (step buf) s
      (.run :: .setSense pins.sense :: .setTxe pins.txe :: acts) = runFun (step buf) v acts := by
    intro acts
    exact (runFun_cons_of_eq hwrite _).trans (hlevels acts)
  have htest : v.pc = .testTxe (n + 1) := hvpc
  by_cases hlast : n + 1 = buf.length
  · have hstep : step buf v .run = some { v with pc := .call (.done (.ok (n + 1))) } := by
      simp [step, htest, hlast]
    refine ⟨_, _, (hfirst [.run]).trans (runFun_cons_of_eq hstep []), ?_, hstrobed⟩
    rw [hu, if_pos (.inl hlast)]
  · have hne : (n + 1 == buf.length) = false := by simpa using hlast
    have hstep : step buf v .run = some (sampleTxe v
        (if pins.txe then .call (.done (.ok (n + 1))) else .testSense (n + 1))) := by
      simp only [step, htest, hne, hvtxe, Bool.false_eq_true, if_false]
    cases htxe : pins.txe with
    | true =>
      rw [htxe] at hstep
      refine ⟨_, _, (hfirst [.run]).trans (runFun_cons_of_eq hstep []), ?_, hstrobed⟩
      rw [hu]
      simp [sampleTxe, htxe]
    | false =>
      rw [htxe] at hstep
      have hsecond : step buf (sampleTxe v (.testSense (n + 1))) .run =
          some (sampleSense (sampleTxe v (.testSense (n + 1)))
            (if pins.sense then .call (.writing (n + 1)) else .call (.done (.ok (n + 1))))) := by
        simp only [step, sampleTxe, hvsense]
      refine ⟨_, _, (hfirst [.run, .run]).trans
        ((runFun_cons_of_eq hstep [.run]).trans (runFun_cons_of_eq hsecond [])), ?_, hstrobed⟩
      rw [hu]
      cases hsense : pins.sense <;> simp [sampleSense, hlast, htxe]

/-- **The coarser model's runs are runs here.** -/
theorem runFun_of_run {u u' : UsbWrite} {samples : List Levels} {bytes : List UInt8}
    (hpc : s.pc = .call u) (hrun : UsbWrite.run buf u samples = .ok (bytes, u')) :
    ∃ acts t, runFun (step buf) s acts = some t ∧ t.pc = .call u' ∧
      t.strobed = s.strobed ++ bytes := by
  induction samples generalizing s u bytes with
  | nil =>
    cases u <;> cases hrun <;> exact ⟨[], s, rfl, hpc, (List.append_nil _).symm⟩
  | cons pins rest ih =>
    cases u with
    | canWrite =>
      obtain ⟨acts, v, hacts, hvpc, hvstrobed⟩ := runFun_await hpc pins
      obtain ⟨acts', t, hacts', htpc, htstrobed⟩ := ih hvpc hrun
      refine ⟨acts ++ acts', t, ?_, htpc, by rw [htstrobed, hvstrobed]⟩
      rw [runFun_append, hacts]
      exact hacts'
    | writing n =>
      obtain ⟨⟨byte, w⟩, hstrobe, hrun⟩ := bind_eq_ok.mp hrun
      obtain ⟨⟨tail, w'⟩, htail, hret⟩ := bind_eq_ok.mp hrun
      cases hret
      obtain ⟨acts, v, hacts, hvpc, hvstrobed⟩ := runFun_pass hpc pins hstrobe
      obtain ⟨acts', t, hacts', htpc, htstrobed⟩ := ih hvpc htail
      refine ⟨acts ++ acts', t, ?_, htpc, ?_⟩
      · rw [runFun_append, hacts]
        exact hacts'
      · rw [htstrobed, hvstrobed, List.append_assoc, List.singleton_append]
    | done result =>
      cases hrun
      exact ⟨[], s, rfl, hpc, (List.append_nil _).symm⟩

end Coarse

/-! ## What every run keeps -/

/-- What holds where the call stands. -/
def At (buf : List UInt8) (s : State) : Pc → Prop
  | .call .canWrite | .pollTxe => s.strobed = [] ∧ 0 < buf.length
  | .call (.writing n) => n < buf.length ∧ s.strobed = buf.take n ∧ s.txeLow = true
  | .testTxe n => 1 ≤ n ∧ n ≤ buf.length ∧ s.strobed = buf.take n
  | .testSense n => 1 ≤ n ∧ n < buf.length ∧ s.strobed = buf.take n ∧ s.txeLow = true
  | .call (.done (.ok n)) => 1 ≤ n ∧ n ≤ buf.length ∧ s.strobed = buf.take n ∧
      (n < buf.length → s.refused = true)
  | .call (.done (.error _)) => s.strobed = []
  | .panicked _ => False

structure Inv (buf : List UInt8) (s : State) : Prop where
  place : At buf s s.pc
  blind : s.blind = false
  low : s.txeLow = true → s.mayRise = false ∧ (s.unprompted = false → s.txe = false)
  busy : s.unprompted = false → s.busy = false

variable {buf : List UInt8} {s t : State}

theorem start_inv (buf : List UInt8) (sense txe mayRise : Bool) :
    Inv buf (start buf sense txe mayRise) := by
  constructor
  · show At buf (start buf sense txe mayRise) (.call (UsbWrite.enter buf))
    unfold UsbWrite.enter
    split
    · rfl
    · rename_i hlen
      exact ⟨rfl, by simpa [Nat.pos_iff_ne_zero] using hlen⟩
  · rfl
  · intro h
    cases h
  · intro _
    rfl

theorem at_of_same {pc : Pc} (h : At buf s pc) (hstrobed : t.strobed = s.strobed)
    (hlow : t.txeLow = s.txeLow) (hrefused : t.refused = s.refused) : At buf t pc := by
  unfold At at *
  rw [hstrobed, hlow, hrefused]
  exact h

/-- A level changes: no sample and no strobe. -/
theorem setTxe_inv (h : Inv buf s) (level : Bool) :
    Inv buf { s with
      txe := level
      unprompted := s.unprompted || (level && !s.txe && !s.mayRise) } := by
  constructor
  · exact at_of_same h.place rfl rfl rfl
  · exact h.blind
  · intro hlow
    obtain ⟨hrise, htxe⟩ := h.low hlow
    constructor
    · exact hrise
    · intro hprompted
      simp only [Bool.or_eq_false_iff] at hprompted
      obtain ⟨hbefore, hnow⟩ := hprompted
      rw [htxe hbefore, hrise] at hnow
      simpa using hnow
  · intro hprompted
    simp only [Bool.or_eq_false_iff] at hprompted
    exact h.busy hprompted.1

theorem sampleSense_inv (h : Inv buf s) {pc : Pc} (hat : At buf (sampleSense s pc) pc) :
    Inv buf (sampleSense s pc) :=
  ⟨hat, h.blind, h.low, h.busy⟩

theorem sampleTxe_inv (h : Inv buf s) {pc : Pc} (hat : At buf (sampleTxe s pc) pc) :
    Inv buf (sampleTxe s pc) := by
  refine ⟨hat, h.blind, ?_, h.busy⟩
  intro hlow
  exact ⟨rfl, fun _ => by simpa [sampleTxe] using hlow⟩

/-- A strobe is made after a sample with TXE low, so the pin is low unless it rose unprompted. -/
theorem strobeByte_inv (h : Inv buf s) (hlow : s.txeLow = true) {byte : UInt8} {pc : Pc}
    (hat : At buf (strobeByte s byte pc) pc) : Inv buf (strobeByte s byte pc) := by
  refine ⟨hat, ?_, ?_, ?_⟩
  · show (s.blind || !s.txeLow) = false
    rw [h.blind, hlow]
    rfl
  · intro hfalse
    cases hfalse
  · intro hprompted
    show (s.busy || s.txe) = false
    rw [h.busy hprompted, (h.low hlow).2 hprompted]
    rfl

/-- The call's own accesses, one place after the other. -/
theorem run_inv (h : Inv buf s) (hs : step buf s .run = some t) : Inv buf t := by
  have hat := h.place
  cases hpc : s.pc with
  | pollTxe =>
    rw [hpc] at hat
    simp only [step, hpc] at hs
    cases hs
    cases htxe : s.txe with
    | true => exact sampleTxe_inv h hat
    | false => exact sampleTxe_inv h ⟨hat.2, hat.1, by simp [sampleTxe, htxe]⟩
  | testTxe n =>
    rw [hpc] at hat
    obtain ⟨hpos, hle, hstrobed⟩ := hat
    simp only [step, hpc] at hs
    by_cases hlast : n = buf.length
    · rw [if_pos (by simpa using hlast)] at hs
      cases hs
      exact ⟨⟨hpos, hle, hstrobed, fun hlt => absurd hlast (Nat.ne_of_lt hlt)⟩, h.blind, h.low,
        h.busy⟩
    · rw [if_neg (by simpa using hlast)] at hs
      cases hs
      cases htxe : s.txe with
      | true => exact sampleTxe_inv h ⟨hpos, hle, hstrobed, fun _ => by simp [sampleTxe, htxe]⟩
      | false => exact sampleTxe_inv h ⟨hpos, by omega, hstrobed, by simp [sampleTxe, htxe]⟩
  | testSense n =>
    rw [hpc] at hat
    obtain ⟨hpos, hlt, hstrobed, hlow⟩ := hat
    simp only [step, hpc] at hs
    cases hs
    cases hsense : s.sense with
    | true => exact sampleSense_inv h ⟨hlt, hstrobed, hlow⟩
    | false =>
      exact sampleSense_inv h
        ⟨hpos, Nat.le_of_lt hlt, hstrobed, fun _ => by simp [sampleSense, hsense]⟩
  | panicked e =>
    rw [hpc] at hat
    exact absurd hat id
  | call u =>
    rw [hpc] at hat
    cases u with
    | canWrite =>
      simp only [step, hpc] at hs
      cases hs
      cases hsense : s.sense with
      | true => exact sampleSense_inv h hat
      | false => exact sampleSense_inv h hat.1
    | writing n =>
      obtain ⟨hlt, hstrobed, hlow⟩ := hat
      have hindex : index buf n = .ok buf[n] := index_ok (List.getElem?_eq_getElem hlt)
      simp only [step, hpc, hindex] at hs
      cases hs
      apply strobeByte_inv h hlow
      refine ⟨Nat.le_add_left .., hlt, ?_⟩
      show s.strobed ++ [buf[n]] = buf.take (n + 1)
      rw [hstrobed, List.take_append_getElem hlt]
    | done result =>
      simp only [step, hpc] at hs
      cases hs

theorem step_inv {act : Act} (h : Inv buf s) (hs : step buf s act = some t) : Inv buf t := by
  cases act with
  | setSense level =>
    cases hs
    exact ⟨at_of_same h.place rfl rfl rfl, h.blind, h.low, h.busy⟩
  | setTxe level =>
    cases hs
    exact setTxe_inv h level
  | run => exact run_inv h hs

theorem inv_of_reachable (h : (system buf).Reachable s) : Inv buf s := by
  apply System.Reachable.invariant (I := Inv buf) ?_ (fun _ _ _ hi hs => step_inv hi hs) h
  rintro s ⟨sense, txe, mayRise, rfl⟩
  exact start_inv buf sense txe mayRise

/-- Whatever the pins do, an error means that nothing was strobed and `Ok(n)` that the first
`n` bytes were, fewer than all only if the chip was then found busy or gone; every strobe
follows a sample of TXE low, on a pin still low unless TXE rises unprompted; no index is out
of bounds. -/
theorem write_sends_prefix (buf : List UInt8) {s : State} (h : (system buf).Reachable s) :
    (∀ e, s.pc = .call (.done (.error e)) → s.strobed = []) ∧
      (∀ n, s.pc = .call (.done (.ok n)) → 1 ≤ n ∧ n ≤ buf.length ∧ s.strobed = buf.take n ∧
        (n < buf.length → s.refused = true)) ∧
      s.blind = false ∧ (s.unprompted = false → s.busy = false) ∧
      ∀ e, s.pc ≠ .panicked e := by
  have hinv := inv_of_reachable h
  have hat := hinv.place
  refine ⟨?_, ?_, hinv.blind, hinv.busy, ?_⟩
  · intro e hpc
    rw [hpc] at hat
    exact hat
  · intro n hpc
    rw [hpc] at hat
    exact hat
  · intro e hpc
    rw [hpc] at hat
    exact hat

/-- The chip answers the second of three strobes with TXE high. -/
def twoOfThree : List Act :=
  [.run, .run, .run, .run, .run, .run, .setTxe true, .run]

theorem write_sends_prefix_twoOfThree : ∃ s, (system [1, 2, 3]).Reachable s ∧
    s.pc = .call (.done (.ok 2)) ∧ s.strobed = [1, 2] ∧ s.unprompted = false ∧
    s.refused = true ∧ s.busy = false := by
  have hstart : (system [1, 2, 3]).Reachable (start [1, 2, 3] true false false) :=
    .init ⟨true, false, false, rfl⟩
  have hrun : runFun (step [1, 2, 3]) (start [1, 2, 3] true false false) twoOfThree =
      some ⟨.call (.done (.ok 2)), true, true, [1, 2], false, false, true, false, false,
        false⟩ := by
    decide
  have hreached := reachable_of_runFun _ hstart hrun
  obtain ⟨-, hok, -, hbusy, -⟩ := write_sends_prefix [1, 2, 3] hreached
  exact ⟨_, hreached, rfl, (hok 2 rfl).2.2.1, rfl, (hok 2 rfl).2.2.2 (by decide), hbusy rfl⟩

end Strobes

end AvrBridge.UsbWrite
