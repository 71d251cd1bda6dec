import AvrBridge.Bridge

/-! The critical sections of the program on the FT240: what a poll, a routine and the strobes
make of the two lines. To the lines each of them is a run, so what holds of the runs of the
lines holds in the program. -/

namespace AvrBridge.Bridge

open Rust Lts Ft240x

variable {autoClear falls : Bool} {usb usb' : Ft240x.State} {line : Line}

/-- A section on a line ends in the main program, and the future of the other line waits as it
did. -/
structure Section (usb : Ft240x.State) (line : Line) (usb' : Ft240x.State) : Prop where
  main : usb'.pc = .main
  other : ∀ l, l ≠ line → (usb'.side l).waiting = (usb.side l).waiting

/-! ## Polls -/

/-- A poll that finds the line high waits afterwards. -/
theorem exists_polled (autoClear : Bool) (hmain : usb.pc = .main) (line : Line)
    (sense falls : Bool) :
    ∃ usb', runFun (Ft240x.step autoClear) usb (pollActs line (usb.levels sense) falls) =
        some usb' ∧ Section usb line usb' ∧
      (usb'.side line).waiting =
        if sense && !(usb.side line).low then some signalWaker else none := by
  obtain ⟨eimsk, eifr, rxf, txe, pc⟩ := usb
  subst hmain
  cases line with
  | rxf =>
    obtain ⟨waker, low, strobed, waiting⟩ := rxf
    cases sense <;> cases low <;> cases falls
    all_goals
      refine ⟨_, rfl, ⟨rfl, ?_⟩, rfl⟩
      intro l hl
      cases l with
      | rxf => exact absurd rfl hl
      | txe => rfl
  | txe =>
    obtain ⟨waker, low, strobed, waiting⟩ := txe
    cases sense <;> cases low <;> cases falls
    all_goals
      refine ⟨_, rfl, ⟨rfl, ?_⟩, rfl⟩
      intro l hl
      cases l with
      | rxf => rfl
      | txe => exact absurd rfl hl

/-- The only poll of a line that answers Pending finds SENSE high and the line high. -/
theorem pollAnswer_eq_pending (usb : Ft240x.State) (line : Line) (sense : Bool) :
    pollAnswer (line.poll 0) (usb.levels sense) = .pending ↔
      (sense && !(usb.side line).low) = true := by
  rw [pollAnswer_poll]
  cases line with
  | rxf => cases sense <;> cases h : usb.rxf.low <;> simp [Line.isLow, State.levels, State.side, h]
  | txe => cases sense <;> cases h : usb.txe.low <;> simp [Line.isLow, State.levels, State.side, h]

/-- Without a fall in the window the poll is a run whose edges all come outside it. -/
theorem pollActs_outside (line : Line) (pins : Levels) :
    ∀ a ∈ pollActs line pins false, ∀ u, EdgeOutside u a := by
  intro a ha u
  cases a with
  | fall l =>
    rw [pollActs, List.mem_cons] at ha
    rcases ha with ha | ha
    · cases ha
    · split at ha
      · simp at ha
      · simp at ha
      · simp at ha
  | rise l | strobe l | startPoll l w | startIsr l | access sense | leave => trivial

/-! ## Routines -/

theorem served_of_run (hmain : usb.pc = .main)
    (h : runFun (Ft240x.step autoClear) usb (isrActs line falls) = some usb') :
    Section usb line usb' := by
  obtain ⟨eimsk, eifr, rxf, txe, pc⟩ := usb
  subst hmain
  rw [isrActs, List.cons_append, List.cons_append, runFun_cons] at h
  obtain ⟨u, hu, h⟩ := Option.bind_eq_some_iff.mp h
  simp only [Ft240x.step] at hu
  split at hu
  · cases hu
    cases line with
    | rxf =>
      obtain ⟨waker, low, strobed, waiting⟩ := rxf
      cases falls <;> cases low <;> cases h
      all_goals
        refine ⟨rfl, ?_⟩
        intro l hl
        cases l with
        | rxf => exact absurd rfl hl
        | txe => rfl
    | txe =>
      obtain ⟨waker, low, strobed, waiting⟩ := txe
      cases falls <;> cases low <;> cases h
      all_goals
        refine ⟨rfl, ?_⟩
        intro l hl
        cases l with
        | rxf => rfl
        | txe => exact absurd rfl hl
  · cases hu

theorem exists_served (autoClear : Bool) (hmain : usb.pc = .main) (hmask : usb.unmasked line = true)
    (hflag : usb.flag line = true) :
    ∃ usb', runFun (Ft240x.step autoClear) usb (isrActs line false) = some usb' := by
  have hstart : Ft240x.step autoClear usb (.startIsr line) = some { usb with
      eifr := if autoClear then usb.eifr &&& ~~~line.bit else usb.eifr
      pc := .isr line line.isr } := if_pos ⟨hmain, hmask, hflag⟩
  rw [isrActs, List.cons_append, List.cons_append, runFun_cons_of_eq hstart]
  cases line with
  | rxf => exact ⟨_, rfl⟩
  | txe => exact ⟨_, rfl⟩

/-- A step of a routine, with an edge inside it. -/
theorem isr_step {a : Ft240x.Act} (ha : a ∈ isrActs line falls)
    (hpc : ∀ l w rest, usb.pc ≠ .poll l w rest) (hs : Ft240x.step autoClear usb a = some usb') :
    EdgeOutside usb a ∧ ∀ l w rest, usb'.pc ≠ .poll l w rest := by
  cases a with
  | fall l =>
    constructor
    · intro hwindow
      unfold InWindow at hwindow
      split at hwindow
      · rename_i hpoll
        exact hpc _ _ _ hpoll
      · exact hwindow
    · simp only [Ft240x.step] at hs
      split at hs
      · cases hs
      · cases hs
        cases l with
        | rxf => exact hpc
        | txe => exact hpc
  | startIsr l =>
    simp only [Ft240x.step] at hs
    split at hs
    · cases hs
      refine ⟨trivial, ?_⟩
      intro l w rest hpoll
      cases hpoll
    · cases hs
  | access sense =>
    simp only [Ft240x.step] at hs
    split at hs
    · rename_i hpoll
      exact absurd hpoll (hpc _ _ _)
    · cases hs
      refine ⟨trivial, ?_⟩
      intro l w rest hpoll
      cases hpoll
    · cases hs
  | leave =>
    simp only [Ft240x.step] at hs
    split at hs
    · rename_i hpoll
      exact absurd hpoll (hpc _ _ _)
    · cases hs
      refine ⟨trivial, ?_⟩
      intro l w rest hpoll
      cases hpoll
    · cases hs
  | rise l | strobe l | startPoll l w =>
    rw [isrActs, List.mem_append, List.mem_append] at ha
    cases falls <;> simp at ha

/-! ## Edges and strobes -/

/-- The acts of the lines and of strobes. -/
def Quiet : Ft240x.Act → Prop
  | .fall _ | .rise _ | .strobe _ => True
  | _ => False

theorem quiet_step {a : Ft240x.Act} (ha : Quiet a) (hmain : usb.pc = .main)
    (hs : Ft240x.step autoClear usb a = some usb') :
    EdgeOutside usb a ∧ usb'.pc = .main ∧
      ∀ l, (usb'.side l).waiting = (usb.side l).waiting := by
  have houtside : EdgeOutside usb a := by
    cases a with
    | fall l =>
      rw [EdgeOutside, InWindow, hmain]
      exact id
    | rise l | strobe l | startPoll l w | startIsr l | access sense | leave => trivial
  refine ⟨houtside, ?_⟩
  cases a with
  | fall line =>
    simp only [Ft240x.step] at hs
    split at hs
    · cases hs
    · cases hs
      cases line with
      | rxf => exact ⟨hmain, fun l => by cases l <;> rfl⟩
      | txe => exact ⟨hmain, fun l => by cases l <;> rfl⟩
  | rise line =>
    simp only [Ft240x.step] at hs
    split at hs
    · cases hs
      cases line with
      | rxf => exact ⟨hmain, fun l => by cases l <;> rfl⟩
      | txe => exact ⟨hmain, fun l => by cases l <;> rfl⟩
    · cases hs
  | strobe line =>
    simp only [Ft240x.step, if_pos hmain] at hs
    cases hs
    cases line with
    | rxf => exact ⟨hmain, fun l => by cases l <;> rfl⟩
    | txe => exact ⟨hmain, fun l => by cases l <;> rfl⟩
  | startPoll l w | startIsr l | access sense | leave => cases ha

/-! ## Runs of the lines -/

/-- What holds of the lines between two sections: some run of them alone leads there. -/
structure Lines (autoClear rxfLow txeLow : Bool) (usb : Ft240x.State) : Prop where
  reached : (Ft240x.system autoClear rxfLow txeLow).ReachedWhile EdgeOutside usb
  main : usb.pc = .main

/-- Strobes and edges keep whoever waits. -/
theorem quiet_run {acts : List Ft240x.Act} (hacts : ∀ a ∈ acts, Quiet a) (hmain : usb.pc = .main)
    (h : runFun (Ft240x.step autoClear) usb acts = some usb') :
    usb'.pc = .main ∧ ∀ l, (usb'.side l).waiting = (usb.side l).waiting := by
  refine runFun_invariant
    (I := fun u => u.pc = .main ∧ ∀ l, (u.side l).waiting = (usb.side l).waiting)
    ⟨hmain, fun _ => rfl⟩ ?_ h
  rintro a ha u v ⟨hpc, hwaiting⟩ hv
  obtain ⟨-, hpc', hkeeps⟩ := quiet_step (hacts a ha) hpc hv
  exact ⟨hpc', fun l => (hkeeps l).trans (hwaiting l)⟩

theorem strobeActs_quiet (line : Line) (edges : List Edge) :
    ∀ a ∈ strobeActs line edges, Quiet a := by
  intro a ha
  rcases List.mem_cons.mp ha with rfl | ha
  · trivial
  · obtain ⟨edge, -, rfl⟩ := List.mem_map.mp ha
    cases edge with
    | fall line => trivial
    | rise line => trivial

/-- The strobes of a read. -/
theorem readStrobes_invariant {strobes : List (Strobe × List Edge)} {I : Ft240x.State → Prop}
    (hs : I usb)
    (hstep : ∀ edges u v, I u → runFun (Ft240x.step autoClear) u (strobeActs .rxf edges) = some v →
      I v)
    (h : readStrobes autoClear usb strobes = some usb') : I usb' := by
  induction strobes generalizing usb with
  | nil =>
    cases h
    exact hs
  | cons x strobes ih =>
    obtain ⟨strobe, edges⟩ := x
    obtain ⟨u, hu, h⟩ := Option.bind_eq_some_iff.mp h
    split at h
    · exact ih (hstep edges usb u hs hu) h
    · cases h

/-- A section in which nobody begins or ends to wait. -/
structure Keeps (autoClear : Bool) (usb usb' : Ft240x.State) : Prop where
  main : usb'.pc = .main
  waiting : ∀ l, (usb'.side l).waiting = (usb.side l).waiting
  lines : ∀ rxfLow txeLow, Lines autoClear rxfLow txeLow usb → Lines autoClear rxfLow txeLow usb'

theorem keeps_self (hmain : usb.pc = .main) (h : usb' = usb) : Keeps autoClear usb usb' := by
  rw [h]
  exact ⟨hmain, fun _ => rfl, fun _ _ hlines => hlines⟩

theorem keeps_quiet {acts : List Ft240x.Act} (hacts : ∀ a ∈ acts, Quiet a)
    (hmain : usb.pc = .main) (h : runFun (Ft240x.step autoClear) usb acts = some usb') :
    Keeps autoClear usb usb' := by
  obtain ⟨hmain', hwaiting⟩ := quiet_run hacts hmain h
  refine ⟨hmain', hwaiting, ?_⟩
  intro rxfLow txeLow hlines
  refine runFun_invariant (I := Lines autoClear rxfLow txeLow) hlines ?_ h
  intro a ha u v hu hv
  obtain ⟨houtside, hpc, -⟩ := quiet_step (hacts a ha) hu.main hv
  exact ⟨.step hu.reached houtside hv, hpc⟩

theorem keeps_strobes {strobes : List (Strobe × List Edge)} (hmain : usb.pc = .main)
    (h : readStrobes autoClear usb strobes = some usb') : Keeps autoClear usb usb' := by
  refine readStrobes_invariant (I := Keeps autoClear usb) (keeps_self hmain rfl) ?_ h
  intro edges u v hu hv
  have hnext := keeps_quiet (strobeActs_quiet .rxf edges) hu.main hv
  refine ⟨hnext.main, ?_, ?_⟩
  · intro l
    exact (hnext.waiting l).trans (hu.waiting l)
  · intro rxfLow txeLow hlines
    exact hnext.lines rxfLow txeLow (hu.lines rxfLow txeLow hlines)

section Runs

variable {rxfLow txeLow : Bool}

theorem Lines.polled {sense : Bool} (hlines : Lines autoClear rxfLow txeLow usb)
    (h : runFun (Ft240x.step autoClear) usb (pollActs line (usb.levels sense) false) =
      some usb') : Lines autoClear rxfLow txeLow usb' := by
  obtain ⟨u, hu, hsection, -⟩ := exists_polled autoClear hlines.main line sense false
  rw [h] at hu
  cases hu
  refine ⟨?_, hsection.main⟩
  refine runFun_invariant
    (I := (Ft240x.system autoClear rxfLow txeLow).ReachedWhile EdgeOutside) hlines.reached ?_ h
  intro a ha u v hu hv
  exact .step hu (pollActs_outside line (usb.levels sense) a ha u) hv

/-- An edge inside a routine is outside every window. -/
theorem Lines.served (hlines : Lines autoClear rxfLow txeLow usb)
    (h : runFun (Ft240x.step autoClear) usb (isrActs line falls) = some usb') :
    Lines autoClear rxfLow txeLow usb' := by
  have hboth : (Ft240x.system autoClear rxfLow txeLow).ReachedWhile EdgeOutside usb' ∧
      ∀ l w rest, usb'.pc ≠ .poll l w rest := by
    refine runFun_invariant (I := fun u =>
      (Ft240x.system autoClear rxfLow txeLow).ReachedWhile EdgeOutside u ∧
        ∀ l w rest, u.pc ≠ .poll l w rest) ⟨hlines.reached, ?_⟩ ?_ h
    · intro l w rest
      rw [hlines.main]
      exact nofun
    · rintro a ha u v ⟨hu, hpc⟩ hv
      obtain ⟨houtside, hpc'⟩ := isr_step ha hpc hv
      exact ⟨.step hu houtside hv, hpc'⟩
  exact ⟨hboth.1, (served_of_run hlines.main h).main⟩

/-- Who waits for a line is woken by it. -/
theorem Lines.alert (hlines : Lines autoClear rxfLow txeLow usb) (line : Line) : Alert usb line :=
  no_lost_edge autoClear rxfLow txeLow usb hlines.reached hlines.main line

end Runs

end AvrBridge.Bridge
