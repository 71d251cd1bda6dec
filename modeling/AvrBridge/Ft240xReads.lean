import AvrBridge.Ft240xTransfers
import AvrBridge.Lts

/-! `Ft240xReaderHandle::read` strobe by strobe. A byte leaves the chip with the strobe, but
the call answers only once SENSE and RXF have been sampled after it: if SENSE is low
then, it answers an error, and the bytes it has taken are not reported. -/

namespace AvrBridge.UsbRead

open Rust Lts Ft240x

namespace Strobes

/-! ## The system -/

/-- Where the call stands; `walk n` is before the strobe for place `n`. -/
inductive Pc where
  | call (u : UsbRead)
  | walk (bytes : Nat)
  deriving DecidableEq, Repr

/-- The call and its buffer, the bytes strobed out of the chip, whether RXF was low when
sampled last with no strobe since, and whether a strobe was made without that. -/
structure State where
  pc : Pc
  buf : List UInt8
  taken : List UInt8
  rxfLow : Bool
  blind : Bool
  deriving DecidableEq, Repr

inductive Act where
  | poll (pins : Levels)
  | enter (sense : Bool)
  | strobe (s : Strobe)
  deriving DecidableEq, Repr

/-- A poll of `Ft240xCanRead`, the check at the start of the critical section, and one pass
of its loop. -/
def step (s : State) : Act → Option State
  | .poll pins =>
      match s.pc with
      | .call .canRead => some { s with
          pc := .call (await pins)
          rxfLow := pins.sense && Line.rxf.isLow pins }
      | _ => none
  | .enter sense =>
      match s.pc with
      | .call .take =>
          some { s with pc := if !sense then .call (.done (.error .notConnected)) else .walk 0 }
      | _ => none
  | .strobe strobe =>
      match s.pc with
      | .walk n =>
          if n < s.buf.length then
            let bytes := n + 1
            let pc :=
              if !strobe.sense then .call (.done (.error .notConnected))
              else if strobe.rxf then .call (.done (.ok bytes))
              else if bytes = s.buf.length then .call (.done (.ok bytes))
              else .walk bytes
            some {
              pc := pc
              buf := s.buf.set n strobe.data
              taken := s.taken ++ [strobe.data]
              rxfLow := strobe.sense && !strobe.rxf
              blind := s.blind || !s.rxfLow }
          else none
      | _ => none

def start (buf : List UInt8) : State := ⟨.call (UsbRead.enter buf), buf, [], false, false⟩

def system (buf : List UInt8) : System State Act := .ofFun (start buf) step

/-- SENSE is high when it is sampled after a strobe. -/
def StaysConnected (_ : State) : Act → Prop
  | .strobe strobe => strobe.sense = true
  | .poll _ | .enter _ => True

instance (s : State) (act : Act) : Decidable (StaysConnected s act) :=
  match act with
  | .strobe _ => inferInstanceAs (Decidable (_ = _))
  | .poll _ | .enter _ => inferInstanceAs (Decidable True)

/-- One pass: where it leads and what it leaves in the buffer. -/
theorem strobe_step {n : Nat} {s : State} (strobe : Strobe) (hpc : s.pc = .walk n)
    (hn : n < s.buf.length) :
    ∃ t, step s (.strobe strobe) = some t ∧
      t.buf = s.buf.take n ++ strobe.data :: s.buf.drop (n + 1) ∧
      t.taken = s.taken ++ [strobe.data] ∧ t.blind = (s.blind || !s.rxfLow) ∧
      (strobe.sense = false ∧ t.pc = .call (.done (.error .notConnected)) ∨
        strobe.sense = true ∧ (strobe.rxf = true ∨ n + 1 = s.buf.length) ∧
          t.pc = .call (.done (.ok (n + 1))) ∨
        strobe.sense = true ∧ strobe.rxf = false ∧ n + 1 ≠ s.buf.length ∧
          t.pc = .walk (n + 1) ∧ t.rxfLow = true) := by
  have hset : s.buf.set n strobe.data = s.buf.take n ++ strobe.data :: s.buf.drop (n + 1) := by
    rw [List.set_eq_take_append_cons_drop, if_pos hn]
  refine ⟨_, by simp only [step, hpc, if_pos hn]; rfl, hset, rfl, rfl, ?_⟩
  cases hsense : strobe.sense with
  | false => exact .inl ⟨rfl, rfl⟩
  | true =>
    cases hrxf : strobe.rxf with
    | true => exact .inr (.inl ⟨rfl, .inl rfl, rfl⟩)
    | false =>
      by_cases hlast : n + 1 = s.buf.length
      · exact .inr (.inl ⟨rfl, .inr hlast, by simp [hlast]⟩)
      · exact .inr (.inr ⟨rfl, rfl, hlast, by simp [hlast], rfl⟩)

/-- The passes of the loop are the walk over the rest of the buffer. -/
theorem runFun_of_walk {n : Nat} {strobes : List Strobe} {places places' taken : List UInt8}
    {result : Except ErrorKind Nat} {s : State} (hpc : s.pc = .walk n)
    (hplaces : s.buf.drop n = places) (hne : places ≠ [])
    (hwalk : UsbRead.walk n places strobes = some (places', taken, result)) :
    ∃ t, runFun step s ((strobes.take taken.length).map .strobe) = some t ∧
      t.pc = .call (.done result) ∧ t.buf = s.buf.take n ++ places' ∧
      t.taken = s.taken ++ taken := by
  induction places generalizing n strobes places' taken s with
  | nil => exact absurd rfl hne
  | cons place places ih =>
    cases strobes with
    | nil => cases hwalk
    | cons strobe strobes =>
      have hn : n < s.buf.length := by
        have hlen := congrArg List.length hplaces
        rw [List.length_drop, List.length_cons] at hlen
        omega
      have hdrop : s.buf.drop (n + 1) = places := by
        rw [List.drop_eq_getElem_cons hn] at hplaces
        exact (List.cons.inj hplaces).2
      obtain ⟨u, hstep, hbuf, htaken, -, hpcs⟩ := strobe_step strobe hpc hn
      rw [hdrop] at hbuf
      have hlast : n + 1 = s.buf.length ↔ places = [] := by
        rw [← hdrop, List.drop_eq_nil_iff]
        omega
      simp only [UsbRead.walk] at hwalk
      rcases hpcs with ⟨hsense, hu⟩ | ⟨hsense, hstop, hu⟩ | ⟨hsense, hrxf, hmore, hu, -⟩
      · simp only [hsense, Bool.not_false, if_true] at hwalk
        cases hwalk
        exact ⟨u, runFun_cons_of_eq hstep [], hu, hbuf, htaken⟩
      · have hrest : taken = [strobe.data] ∧ places' = strobe.data :: places ∧
            result = .ok (n + 1) := by
          simp only [hsense, Bool.not_true, Bool.false_eq_true, if_false] at hwalk
          split at hwalk
          · cases hwalk
            exact ⟨rfl, rfl, rfl⟩
          · rename_i hrxf
            rw [hlast.mp (hstop.resolve_left hrxf)] at hwalk ⊢
            cases hwalk
            exact ⟨rfl, rfl, rfl⟩
        obtain ⟨rfl, rfl, rfl⟩ := hrest
        exact ⟨u, runFun_cons_of_eq hstep [], hu, hbuf, htaken⟩
      · simp only [hsense, hrxf, Bool.not_true, Bool.false_eq_true, if_false] at hwalk
        split at hwalk
        · rename_i places'' taken' result' hrec
          cases hwalk
          have hsplit : u.buf = (s.buf.take n ++ [strobe.data]) ++ places := by
            rw [hbuf, List.append_assoc]
            rfl
          have hlen : (s.buf.take n ++ [strobe.data]).length = n + 1 := by
            rw [List.length_append, List.length_take, List.length_singleton]
            omega
          have hudrop : u.buf.drop (n + 1) = places := by
            rw [hsplit, List.drop_left' hlen]
          obtain ⟨t, hrun, ht, htbuf, httaken⟩ :=
            ih hu hudrop (fun hnil => hmore (hlast.mpr hnil)) hrec
          refine ⟨t, ?_, ht, ?_, ?_⟩
          · rw [List.length_cons, List.take_succ_cons, List.map_cons, runFun_cons_of_eq hstep]
            exact hrun
          · rw [htbuf, hsplit, List.take_left' hlen, List.append_assoc]
            rfl
          · rw [httaken, htaken, List.append_assoc]
            rfl
        · cases hwalk

/-- **The critical section** of the call is a run from `take`. -/
theorem runFun_of_serve {sense : Bool} {strobes : List Strobe} {buf' taken : List UInt8}
    {result : Except ErrorKind Nat} {s : State} (hpc : s.pc = .call .take) (hne : s.buf ≠ [])
    (hserve : UsbRead.serve s.buf sense strobes = some (buf', taken, result)) :
    ∃ t, runFun step s (.enter sense :: (strobes.take taken.length).map .strobe) = some t ∧
      t.pc = .call (.done result) ∧ t.buf = buf' ∧ t.taken = s.taken ++ taken := by
  cases sense with
  | false =>
    cases hserve
    refine ⟨{ s with pc := .call (.done (.error .notConnected)) }, ?_, rfl, rfl, ?_⟩
    · refine runFun_cons_of_eq ?_ []
      simp only [step, hpc]
      rfl
    · exact (List.append_nil _).symm
  | true =>
    have hstep : step s (.enter true) = some { s with pc := .walk 0 } := by
      simp only [step, hpc]
      rfl
    obtain ⟨t, hrun, ht, hbuf, htaken⟩ :=
      runFun_of_walk (s := { s with pc := .walk 0 }) rfl rfl hne hserve
    refine ⟨t, ?_, ht, hbuf, htaken⟩
    exact (runFun_cons_of_eq hstep _).trans hrun

/-! ## What is reported -/

/-- What an answer reports: a count is the number of strobes, with their
bytes in front of the buffer, an error stands for no strobe, and each strobe came after
RXF was sampled low. -/
structure Reported (buf : List UInt8) (s : State) : Prop where
  ok : ∀ n, s.pc = .call (.done (.ok n)) →
    s.taken.length = n ∧ 1 ≤ n ∧ n ≤ buf.length ∧ s.buf.take n = s.taken
  error : ∀ e, s.pc = .call (.done (.error e)) → s.taken = []
  sampled : s.blind = false

/-- Where a call that is not over stands: before its loop nothing is strobed, before the
strobe of place `n` the first `n` places hold what was. -/
def Standing (buf : List UInt8) (s : State) : Prop :=
  match s.pc with
  | .call .canRead => s.taken = [] ∧ s.buf = buf
  | .call .take => s.taken = [] ∧ s.buf = buf ∧ s.rxfLow = true
  | .call (.done _) => True
  | .walk n => n < buf.length ∧ s.taken.length = n ∧ s.buf = s.taken ++ buf.drop n ∧
      s.rxfLow = true

variable {buf : List UInt8} {s t : State} {act : Act}

theorem await_take {pins : Levels} (h : await pins = .take) :
    (pins.sense && Line.rxf.isLow pins) = true := by
  rw [await, show Ft240x.canRead 0 = Line.rxf.poll 0 from rfl, pollAnswer_poll] at h
  cases hsense : pins.sense <;> cases hlow : Line.rxf.isLow pins <;> simp_all

/-- **Where a step is taken**, and what the poll and the check at the start do. -/
theorem step_cases (hs : step s act = some t) :
    (∃ pins, act = .poll pins ∧ s.pc = .call .canRead ∧
      t = { s with pc := .call (await pins), rxfLow := pins.sense && Line.rxf.isLow pins }) ∨
    (∃ sense, act = .enter sense ∧ s.pc = .call .take ∧
      t = { s with pc := if !sense then .call (.done (.error .notConnected)) else .walk 0 }) ∨
    (∃ strobe n, act = .strobe strobe ∧ s.pc = .walk n) := by
  cases act with
  | poll pins =>
    simp only [step] at hs
    split at hs
    · rename_i hpc
      cases hs
      exact .inl ⟨pins, rfl, hpc, rfl⟩
    · cases hs
  | enter sense =>
    simp only [step] at hs
    split at hs
    · rename_i hpc
      cases hs
      exact .inr (.inl ⟨sense, rfl, hpc, rfl⟩)
    · cases hs
  | strobe strobe =>
    simp only [step] at hs
    split at hs
    · rename_i n hpc
      exact .inr (.inr ⟨strobe, n, rfl, hpc⟩)
    · cases hs

/-- Before the strobe for place `n`. -/
theorem standing_walk {n : Nat} (h : Standing buf s) (hpc : s.pc = .walk n) :
    n < s.buf.length ∧ s.buf.length = buf.length ∧ s.taken.length = n ∧
      s.buf = s.taken ++ buf.drop n ∧ s.rxfLow = true := by
  simp only [Standing, hpc] at h
  obtain ⟨hn, hlen, hsbuf, hlow⟩ := h
  have hslen : s.buf.length = buf.length := by
    rw [hsbuf, List.length_append, List.length_drop]
    omega
  exact ⟨hslen ▸ hn, hslen, hlen, hsbuf, hlow⟩

theorem standing_step (hbuf : buf ≠ []) (h : Standing buf s) (hs : step s act = some t) :
    Standing buf t := by
  obtain ⟨pins, rfl, hpc, rfl⟩ | ⟨sense, rfl, hpc, rfl⟩ | ⟨strobe, n, rfl, hpc⟩ := step_cases hs
  · simp only [Standing, hpc] at h
    rcases await_cases pins with ha | ha | ha
    · simpa only [Standing, ha] using h
    · simp only [Standing, ha]
      exact ⟨h.1, h.2, await_take ha⟩
    · simp only [Standing, ha]
  · simp only [Standing, hpc] at h
    cases sense with
    | false => trivial
    | true =>
      refine ⟨List.length_pos_iff.mpr hbuf, ?_, ?_, h.2.2⟩
      · rw [h.1, List.length_nil]
      · rw [h.1, h.2.1]
        rfl
  · obtain ⟨hn, hslen, hlen, hsbuf, -⟩ := standing_walk h hpc
    obtain ⟨u, hu, hubuf, hutaken, -, hpcs⟩ := strobe_step strobe hpc hn
    cases hu.symm.trans hs
    rcases hpcs with ⟨-, hupc⟩ | ⟨-, -, hupc⟩ | ⟨-, -, hmore, hupc, hlow⟩
    · simp only [Standing, hupc]
    · simp only [Standing, hupc]
    · simp only [Standing, hupc]
      have hdrop : s.buf.drop (n + 1) = buf.drop (n + 1) := by
        rw [hsbuf, ← List.drop_drop, List.drop_left' hlen, List.drop_drop]
      refine ⟨by omega, ?_, ?_, hlow⟩
      · rw [hutaken, List.length_append, hlen, List.length_singleton]
      · rw [hubuf, hutaken, hdrop, hsbuf, List.take_left' hlen, List.append_assoc]
        rfl

/-- **Step lemma.** A step keeps the report exactly if SENSE is high at its sample. -/
theorem reported_step (h : Standing buf s) (hr : Reported buf s) (hs : step s act = some t) :
    Reported buf t ↔ StaysConnected s act := by
  obtain ⟨pins, rfl, hpc, rfl⟩ | ⟨sense, rfl, hpc, rfl⟩ | ⟨strobe, n, rfl, hpc⟩ := step_cases hs
  · simp only [Standing, hpc] at h
    refine iff_of_true ⟨?_, fun _ _ => h.1, hr.sampled⟩ trivial
    intro n hdone
    rcases await_cases pins with ha | ha | ha <;> rw [ha] at hdone <;> cases hdone
  · simp only [Standing, hpc] at h
    refine iff_of_true ⟨?_, fun _ _ => h.1, hr.sampled⟩ trivial
    intro n hdone
    cases sense <;> cases hdone
  · obtain ⟨hn, hslen, hlen, hsbuf, hlow⟩ := standing_walk h hpc
    obtain ⟨u, hu, hubuf, hutaken, hublind, hpcs⟩ := strobe_step strobe hpc hn
    cases hu.symm.trans hs
    have hsampled : t.blind = false := by rw [hublind, hr.sampled, hlow]; rfl
    have htlen : t.taken.length = n + 1 := by
      rw [hutaken, List.length_append, hlen, List.length_singleton]
    rcases hpcs with ⟨hsense, hupc⟩ | ⟨hsense, -, hupc⟩ | ⟨hsense, -, -, hupc, -⟩
    · -- the byte that was taken with this strobe is lost
      refine iff_of_false (fun ht => ?_) fun hc => Bool.false_ne_true (hsense.symm.trans hc)
      rw [ht.error _ hupc] at htlen
      cases htlen
    · refine iff_of_true ⟨?_, ?_, hsampled⟩ hsense
      · intro m hm
        rw [hupc] at hm
        cases hm
        have hbuf' : t.buf = t.taken ++ s.buf.drop (n + 1) := by
          rw [hubuf, hutaken, List.append_assoc, hsbuf, List.take_left' hlen]
          rfl
        refine ⟨htlen, Nat.succ_pos n, by omega, ?_⟩
        rw [hbuf', List.take_left' htlen]
      · intro e he
        rw [hupc] at he
        cases he
    · refine iff_of_true ⟨?_, ?_, hsampled⟩ hsense
      · intro m hm
        rw [hupc] at hm
        cases hm
      · intro e he
        rw [hupc] at he
        cases he

/-- **Strobes and reports, exactly.** On every run on which SENSE is high whenever it is
sampled after a strobe the call reports each strobe, and the next step keeps that exactly
if it does not sample a low SENSE after a strobe. -/
theorem read_reports_each_strobe (buf : List UInt8) (hbuf : buf ≠ []) (s : State)
    (h : (system buf).ReachedWhile StaysConnected s) :
    Reported buf s ∧
      ∀ act t, step s act = some t → (Reported buf t ↔ StaysConnected s act) := by
  have hinv : Standing buf s ∧ Reported buf s := by
    refine h.invariant (I := fun s => Standing buf s ∧ Reported buf s) ?_ fun s act t hi hg hs =>
      ⟨standing_step hbuf hi.1 hs, (reported_step hi.1 hi.2 hs).mpr hg⟩
    rintro s rfl
    have henter : UsbRead.enter buf = .canRead := by
      rw [UsbRead.enter, if_neg (by rwa [List.isEmpty_iff])]
    refine ⟨?_, ⟨fun n hdone => ?_, fun e hdone => ?_, rfl⟩⟩
    · simp only [Standing, start, henter, and_self]
    · rw [start, henter] at hdone
      cases hdone
    · rfl
  exact ⟨hinv.2, fun act t hs => reported_step hinv.1 hinv.2 hs⟩

/-- Two places, two strobes. -/
def readBoth : State := ⟨.call (.done (.ok 2)), [7, 8], [7, 8], false, false⟩

theorem read_reports_each_strobe_readBoth :
    Reported [0, 0] readBoth ∧
      ∀ act t, step readBoth act = some t →
        (Reported [0, 0] t ↔ StaysConnected readBoth act) :=
  read_reports_each_strobe [0, 0] (by decide) readBoth
    (reachedWhile_of_runFun [.poll ⟨true, false, true⟩, .enter true, .strobe ⟨7, true, false⟩,
      .strobe ⟨8, true, true⟩] (.init rfl) (by decide))

/-- The host goes away while the only byte is read. -/
theorem read_reports_each_strobe_false :
    ¬ ∀ (buf : List UInt8), buf ≠ [] → ∀ s, (system buf).Reachable s → Reported buf s := by
  intro h
  obtain ⟨s, hs, hlost⟩ := exists_reachable_of_runFun
    [.poll ⟨true, false, true⟩, .enter true, .strobe ⟨7, false, true⟩]
    (fun s => s.pc == .call (.done (.error .notConnected)) && s.taken == [7])
    (show (system [0]).Reachable _ from .init rfl) (by decide)
  obtain ⟨hpc, htaken⟩ := Bool.and_eq_true_iff.mp hlost
  have hnone := (h [0] (by decide) s hs).error _ (beq_iff_eq.mp hpc)
  rw [beq_iff_eq.mp htaken] at hnone
  cases hnone

end Strobes

end AvrBridge.UsbRead
