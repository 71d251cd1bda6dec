import AvrBridge.Ft240x
import AvrBridge.Lts

/-! Falling edges of RXF and TXE against the two polls and their interrupt routines,
one access at a time. The hardware pulls a line low at any instant and lets it rise
only after a strobe; routines start in the main program, never in a critical section. -/

namespace AvrBridge.Ft240x

open Rust Lts

/-- One handshake line: the stored waker, the level, whether the chip has been strobed
since the line fell, and the waker of a future whose last poll answered `Pending` and
which the line's routine has not woken since. -/
structure Side where
  waker : Option Waker
  low : Bool
  strobed : Bool
  waiting : Option Waker
  deriving DecidableEq, Repr

/-- Where the processor is; a poll and a routine carry the accesses still to make. -/
inductive Pc where
  | main
  | poll (line : Line) (w : Waker) (rest : List Access)
  | isr (line : Line) (rest : List Access)
  deriving DecidableEq, Repr

structure State where
  eimsk : BitVec 8
  eifr : BitVec 8
  rxf : Side
  txe : Side
  pc : Pc
  deriving DecidableEq, Repr

namespace State

def side (s : State) : Line → Side
  | .rxf => s.rxf
  | .txe => s.txe

def setSide (s : State) (line : Line) (side : Side) : State :=
  match line with
  | .rxf => { s with rxf := side }
  | .txe => { s with txe := side }

end State

/-- The number of the interrupt of a line. -/
def Line.num : Line → Nat
  | .rxf => 6
  | .txe => 5

def State.unmasked (s : State) (line : Line) : Bool := s.eimsk.getLsbD line.num
def State.flag (s : State) (line : Line) : Bool := s.eifr.getLsbD line.num

/-- What an access does to the registers and the waker slots. -/
def Access.perform (s : State) : Access → State
  | .isConnected | .isLow _ => s
  | .storeWaker line w => s.setSide line { s.side line with waker := some w }
  | .wake line =>
      let side := s.side line
      let waiting := if side.waker.isSome && side.waiting == side.waker then none else side.waiting
      s.setSide line { side with waker := none, waiting := waiting }
  | .writeEifr bits => { s with eifr := s.eifr &&& ~~~bits }
  | .setEimsk bits => { s with eimsk := s.eimsk ||| bits }
  | .clearEimsk bits => { s with eimsk := s.eimsk &&& ~~~bits }

def State.levels (s : State) (sense : Bool) : Levels := ⟨sense, !s.rxf.low, !s.txe.low⟩

inductive Act where
  | fall (line : Line)
  | rise (line : Line)
  | strobe (line : Line)
  | startPoll (line : Line) (w : Waker)
  | startIsr (line : Line)
  | access (sense : Bool)
  | leave
  deriving DecidableEq, Repr

/-- One step; `autoClear` tells whether the hardware clears the flag of a routine that starts. -/
def step (autoClear : Bool) (s : State) : Act → Option State
  | .fall line =>
      if (s.side line).low then none
      else some ({ s with eifr := s.eifr ||| line.bit }.setSide line
        { s.side line with low := true, strobed := false })
  | .rise line =>
      if (s.side line).low && (s.side line).strobed then
        some (s.setSide line { s.side line with low := false, strobed := false })
      else none
  | .strobe line =>
      if s.pc = .main then some (s.setSide line { s.side line with strobed := true }) else none
  | .startPoll line w =>
      if s.pc = .main then some { s with pc := .poll line w (line.poll w) } else none
  | .startIsr line =>
      if s.pc = .main ∧ s.unmasked line = true ∧ s.flag line = true then
        some { s with
          eifr := if autoClear then s.eifr &&& ~~~line.bit else s.eifr
          pc := .isr line line.isr }
      else none
  | .access sense =>
      match s.pc with
      | .poll line w (a :: rest) =>
          match a.answer (s.levels sense) with
          | some _ => some { s.setSide line { s.side line with waiting := none } with pc := .main }
          | none => some { a.perform s with pc := .poll line w rest }
      | .isr line (a :: rest) => some { a.perform s with pc := .isr line rest }
      | _ => none
  | .leave =>
      match s.pc with
      | .poll line w [] =>
          some { s.setSide line { s.side line with waiting := some w } with pc := .main }
      | .isr _ [] => some { s with pc := .main }
      | _ => none

/-- After `init`: both interrupts masked, both flags clear, the lines at any level. -/
def start (rxfLow txeLow : Bool) : State :=
  ⟨0, 0, ⟨none, rxfLow, false, none⟩, ⟨none, txeLow, false, none⟩, .main⟩

def system (autoClear rxfLow txeLow : Bool) : System State Act :=
  .ofFun (start rxfLow txeLow) (step autoClear)

/-- A pending future is woken by the next falling edge, or by one that has been flagged. -/
def Alert (s : State) (line : Line) : Prop :=
  ∀ w, (s.side line).waiting = some w →
    s.unmasked line = true ∧ (s.side line).waker = some w ∧
      ((s.side line).low = true → s.flag line = true)

/-- A poll of the line has sampled the pin and not yet cleared the flag. -/
def InWindow (s : State) (line : Line) : Prop :=
  match s.pc with
  | .poll l _ rest => l = line ∧ .isLow l ∉ rest ∧ .writeEifr l.bit ∈ rest
  | _ => False

/-- The step is no falling edge of a line whose poll is in its window. -/
def EdgeOutside (s : State) : Act → Prop
  | .fall line => ¬ InWindow s line
  | _ => True

instance (s : State) (line : Line) : Decidable (InWindow s line) :=
  match h : s.pc with
  | .poll l _ rest =>
      decidable_of_iff (l = line ∧ .isLow l ∉ rest ∧ .writeEifr l.bit ∈ rest) (by rw [InWindow, h])
  | .main | .isr _ _ => .isFalse (by simp [InWindow, h])

instance (s : State) (a : Act) : Decidable (EdgeOutside s a) :=
  match a with
  | .fall line => inferInstanceAs (Decidable (¬ InWindow s line))
  | .rise _ | .strobe _ | .startPoll .. | .startIsr _ | .access _ | .leave =>
      inferInstanceAs (Decidable True)

/-! ## Registers and lines -/

@[simp] theorem getLsbD_bit (l l' : Line) : l.bit.getLsbD l'.num = decide (l = l') := by
  cases l <;> cases l' <;> rfl

theorem num_lt (line : Line) : line.num < 8 := by
  cases line <;> decide

section Registers

variable {s : State} {l line : Line}

@[simp] theorem side_setSide_self {side : Side} : (s.setSide l side).side l = side := by
  cases l <;> rfl

theorem side_setSide_of_ne {side : Side} (h : l ≠ line) :
    (s.setSide l side).side line = s.side line := by
  cases l <;> cases line <;> first | rfl | exact absurd rfl h

@[simp] theorem eimsk_setSide {side : Side} : (s.setSide l side).eimsk = s.eimsk := by
  cases l <;> rfl

@[simp] theorem eifr_setSide {side : Side} : (s.setSide l side).eifr = s.eifr := by
  cases l <;> rfl

@[simp] theorem unmasked_setSide {side : Side} :
    (s.setSide l side).unmasked line = s.unmasked line := by
  rw [State.unmasked, eimsk_setSide, State.unmasked]

@[simp] theorem flag_setSide {side : Side} : (s.setSide l side).flag line = s.flag line := by
  rw [State.flag, eifr_setSide, State.flag]

theorem getLsbD_or_bit (x : BitVec 8) :
    (x ||| l.bit).getLsbD line.num = (x.getLsbD line.num || decide (l = line)) := by
  rw [BitVec.getLsbD_or, getLsbD_bit]

theorem getLsbD_andNot_bit (x : BitVec 8) :
    (x &&& ~~~l.bit).getLsbD line.num = (x.getLsbD line.num && !decide (l = line)) := by
  rw [BitVec.getLsbD_and, BitVec.getLsbD_not, getLsbD_bit, decide_eq_true (num_lt line),
    Bool.true_and]

end Registers

/-! ## The invariant -/

/-- What holds of a line whose poll has these accesses still to make. -/
inductive Polling (s : State) (line : Line) (w : Waker) : List Access → Prop
  | start : Polling s line w (line.poll w)
  | connected :
      Polling s line w [.isLow line, .storeWaker line w, .writeEifr line.bit, .setEimsk line.bit]
  | sampled : (s.side line).low = false →
      Polling s line w [.storeWaker line w, .writeEifr line.bit, .setEimsk line.bit]
  | stored : (s.side line).low = false → (s.side line).waker = some w →
      Polling s line w [.writeEifr line.bit, .setEimsk line.bit]
  | cleared : (s.side line).waker = some w → ((s.side line).low = true → s.flag line = true) →
      Polling s line w [.setEimsk line.bit]
  | enabled : (s.side line).waker = some w → ((s.side line).low = true → s.flag line = true) →
      s.unmasked line = true → Polling s line w []

/-- What holds of a line whose routine has these accesses still to make. -/
inductive Serving (s : State) (line : Line) : List Access → Prop
  | start : (∀ w, (s.side line).waiting = some w → (s.side line).waker = some w) →
      Serving s line line.isr
  | woken {rest : List Access} : (s.side line).waiting = none → rest <:+ intDisable line.bit →
      Serving s line rest

/-- What holds of a line at a place of the processor. -/
def HoldsAt (s : State) (line : Line) : Pc → Prop
  | .main => Alert s line
  | .poll l w rest => if l = line then Polling s line w rest else Alert s line
  | .isr l rest => if l = line then Serving s line rest else Alert s line

def Inv (s : State) : Prop := ∀ line, HoldsAt s line s.pc

/-- A step from `s` to `t` that does not act for this line. -/
structure Kept (s t : State) (line : Line) : Prop where
  waker : (t.side line).waker = (s.side line).waker
  waiting : (t.side line).waiting = (s.side line).waiting
  unmasked : t.unmasked line = s.unmasked line
  flagged : ((s.side line).low = true → s.flag line = true) →
    (t.side line).low = true → t.flag line = true

section Kept

variable {s t : State} {l line : Line} {w : Waker} {rest : List Access}

theorem Kept.of_eq (hside : t.side line = s.side line) (hmask : t.unmasked line = s.unmasked line)
    (hflag : t.flag line = s.flag line) : Kept s t line :=
  ⟨by rw [hside], by rw [hside], hmask, fun h => by rw [hside, hflag]; exact h⟩

theorem Kept.alert (hk : Kept s t line) (h : Alert s line) : Alert t line := by
  intro w hw
  rw [hk.waiting] at hw
  obtain ⟨hmask, hwaker, hflag⟩ := h w hw
  exact ⟨hk.unmasked.trans hmask, hk.waker.trans hwaker, hk.flagged hflag⟩

theorem Kept.polling (hk : Kept s t line) (h : Polling s line w rest)
    (hlow : .isLow line ∉ rest → .writeEifr line.bit ∈ rest →
      (s.side line).low = false → (t.side line).low = false) : Polling t line w rest := by
  cases h with
  | start => exact .start
  | connected => exact .connected
  | sampled hs => exact .sampled (hlow (by simp) (by simp) hs)
  | stored hs hw => exact .stored (hlow (by simp) (by simp) hs) (hk.waker.trans hw)
  | cleared hw hf => exact .cleared (hk.waker.trans hw) (hk.flagged hf)
  | enabled hw hf hm =>
    exact .enabled (hk.waker.trans hw) (hk.flagged hf) (hk.unmasked.trans hm)

theorem Kept.serving (hk : Kept s t line) (h : Serving s line rest) : Serving t line rest := by
  cases h with
  | start hw => exact .start fun w h => hk.waker.trans (hw w (hk.waiting.symm.trans h))
  | woken hn hsuf => exact .woken (hk.waiting.trans hn) hsuf

theorem holdsAt_poll_self : HoldsAt s l (.poll l w rest) ↔ Polling s l w rest := by
  simp [HoldsAt]

theorem holdsAt_poll_of_ne (h : l ≠ line) : HoldsAt s line (.poll l w rest) ↔ Alert s line := by
  simp [HoldsAt, h]

theorem holdsAt_isr_self : HoldsAt s l (.isr l rest) ↔ Serving s l rest := by
  simp [HoldsAt]

theorem holdsAt_isr_of_ne (h : l ≠ line) : HoldsAt s line (.isr l rest) ↔ Alert s line := by
  simp [HoldsAt, h]

/-- A step that keeps a line keeps what holds of it, unless a poll is in its window
and the line falls. -/
theorem Kept.holdsAt (hk : Kept s t line) {pc : Pc} (h : HoldsAt s line pc)
    (hlow : ∀ w rest, pc = .poll line w rest → .isLow line ∉ rest → .writeEifr line.bit ∈ rest →
      (s.side line).low = false → (t.side line).low = false) : HoldsAt t line pc := by
  cases pc with
  | main => exact hk.alert h
  | poll l w rest =>
    by_cases hl : l = line
    · subst hl
      rw [holdsAt_poll_self] at h ⊢
      exact hk.polling h (hlow w rest rfl)
    · rw [holdsAt_poll_of_ne hl] at h ⊢
      exact hk.alert h
  | isr l rest =>
    by_cases hl : l = line
    · subst hl
      rw [holdsAt_isr_self] at h ⊢
      exact hk.serving h
    · rw [holdsAt_isr_of_ne hl] at h ⊢
      exact hk.alert h

/-- The access is made for this line. -/
def Access.isFor (line : Line) : Access → Prop
  | .isConnected => True
  | .isLow l | .storeWaker l _ | .wake l => l = line
  | .writeEifr bits | .setEimsk bits | .clearEimsk bits => bits = line.bit

theorem perform_kept {a : Access} (ha : a.isFor l) (hne : l ≠ line) :
    Kept s (a.perform s) line := by
  have hd : decide (l = line) = false := decide_eq_false hne
  cases a with
  | isConnected | isLow _ => exact .of_eq rfl rfl rfl
  | storeWaker _ _ | wake _ =>
    cases ha
    exact .of_eq (side_setSide_of_ne hne) unmasked_setSide flag_setSide
  | writeEifr _ =>
    cases ha
    refine .of_eq (by cases line <;> rfl) rfl ?_
    rw [State.flag, Access.perform, getLsbD_andNot_bit, hd, Bool.not_false, Bool.and_true,
      State.flag]
  | setEimsk _ =>
    cases ha
    refine .of_eq (by cases line <;> rfl) ?_ rfl
    rw [State.unmasked, Access.perform, getLsbD_or_bit, hd, Bool.or_false, State.unmasked]
  | clearEimsk _ =>
    cases ha
    refine .of_eq (by cases line <;> rfl) ?_ rfl
    rw [State.unmasked, Access.perform, getLsbD_andNot_bit, hd, Bool.not_false, Bool.and_true,
      State.unmasked]

theorem Polling.isFor {a : Access} (h : Polling s l w (a :: rest)) : a.isFor l := by
  generalize hp : a :: rest = program at h
  cases h with
  | start =>
    rw [Line.poll_eq] at hp
    cases hp
    trivial
  | connected | sampled _ | stored _ _ | cleared _ _ =>
    cases hp
    rfl
  | enabled _ _ _ => cases hp

theorem Polling.at_end (h : Polling s l w []) : s.unmasked l = true ∧
    (s.side l).waker = some w ∧ ((s.side l).low = true → s.flag l = true) := by
  generalize hp : [] = program at h
  cases h with
  | start =>
    rw [Line.poll_eq] at hp
    cases hp
  | connected | sampled _ | stored _ _ | cleared _ _ => cases hp
  | enabled hw hf hm => exact ⟨hm, hw, hf⟩

theorem Serving.at_end (h : Serving s l []) : (s.side l).waiting = none := by
  generalize hp : [] = program at h
  cases h with
  | start _ =>
    rw [Line.isr_eq] at hp
    cases hp
  | woken hn _ => exact hn

theorem Serving.isFor {a : Access} (h : Serving s l (a :: rest)) : a.isFor l := by
  generalize hp : a :: rest = program at h
  cases h with
  | start _ =>
    rw [Line.isr_eq] at hp
    cases hp
    rfl
  | woken _ hsuf =>
    have ha : a ∈ intDisable l.bit := hsuf.subset (hp ▸ List.mem_cons_self ..)
    rcases List.mem_cons.mp ha with rfl | ha
    · rfl
    · rw [List.mem_singleton] at ha
      rw [ha]
      rfl

/-- **One access of a poll** that does not end it. -/
theorem Polling.perform {a : Access} {sense : Bool} (h : Polling s l w (a :: rest))
    (ha : a.answer (s.levels sense) = none) : Polling (a.perform s) l w rest := by
  generalize hp : a :: rest = program at h
  cases h with
  | start =>
    rw [Line.poll_eq] at hp
    cases hp
    exact .connected
  | connected =>
    cases hp
    refine .sampled ?_
    change (s.side l).low = false
    cases l <;> simpa [Access.answer, Line.isLow, State.levels, State.side] using ha
  | sampled hlow =>
    cases hp
    refine .stored ?_ ?_
    · rw [Access.perform, side_setSide_self]
      exact hlow
    · rw [Access.perform, side_setSide_self]
  | stored hlow hw =>
    cases hp
    have hside : (Access.perform s (.writeEifr l.bit)).side l = s.side l := by cases l <;> rfl
    refine .cleared (by rw [hside]; exact hw) fun ht => ?_
    rw [hside, hlow] at ht
    cases ht
  | cleared hw hf =>
    cases hp
    have hside : (Access.perform s (.setEimsk l.bit)).side l = s.side l := by cases l <;> rfl
    refine .enabled (by rw [hside]; exact hw) (by rw [hside]; exact hf) ?_
    rw [State.unmasked, Access.perform, getLsbD_or_bit, decide_eq_true rfl, Bool.or_true]
  | enabled _ _ _ => cases hp

/-- **One access of a routine.** -/
theorem Serving.perform {a : Access} (h : Serving s l (a :: rest)) :
    Serving (a.perform s) l rest := by
  generalize hp : a :: rest = program at h
  cases h with
  | start hw =>
    rw [Line.isr_eq] at hp
    cases hp
    refine .woken ?_ (List.suffix_refl _)
    rw [Access.perform, side_setSide_self]
    cases hwait : (s.side l).waiting with
    | none => simp
    | some w => simp [hw w hwait]
  | woken hn hsuf =>
    have ha : a ∈ intDisable l.bit := hsuf.subset (hp ▸ List.mem_cons_self ..)
    have hside : (a.perform s).side l = s.side l := by
      rcases List.mem_cons.mp ha with rfl | ha
      · cases l <;> rfl
      · rw [List.mem_singleton] at ha
        rw [ha]
        cases l <;> rfl
    refine .woken (by rw [hside]; exact hn) ((List.suffix_cons a rest).trans (hp ▸ hsuf))

end Kept

/-! ## Steps and runs -/

theorem inv_start (rxfLow txeLow : Bool) : Inv (start rxfLow txeLow) := by
  intro line w hw
  cases line <;> cases hw

section Step

variable {s t : State} {autoClear : Bool}

theorem side_setPc {pc : Pc} (line : Line) :
    ({ s with pc := pc } : State).side line = s.side line := by
  cases line <;> rfl

/-- What holds of the lines does not depend on the state's own place. -/
theorem inv_setPc {pc : Pc} (h : ∀ line, HoldsAt s line pc) : Inv { s with pc := pc } :=
  fun line => Kept.holdsAt (.of_eq (side_setPc line) rfl rfl) (h line)
    fun _ _ _ _ _ hlow => by rw [side_setPc]; exact hlow

theorem inv_fall {line : Line} (h : Inv s) (hg : EdgeOutside s (.fall line))
    (hs : step autoClear s (.fall line) = some t) : Inv t := by
  simp only [step] at hs
  split at hs
  · cases hs
  · cases hs
    intro l
    have hpc : ({ s with eifr := s.eifr ||| line.bit }.setSide line
        { s.side line with low := true, strobed := false }).pc = s.pc := by cases line <;> rfl
    rw [hpc]
    by_cases hl : line = l
    · subst hl
      refine Kept.holdsAt ⟨?_, ?_, ?_, fun _ _ => ?_⟩ (h line) fun w rest hp hin hout _ => ?_
      · rw [side_setSide_self]
      · rw [side_setSide_self]
      · rw [unmasked_setSide]
        rfl
      · rw [flag_setSide, State.flag, getLsbD_or_bit, decide_eq_true rfl, Bool.or_true]
      · exact absurd (by rw [InWindow, hp]; exact ⟨rfl, hin, hout⟩) hg
    · have hside : ({ s with eifr := s.eifr ||| line.bit }.setSide line
          { s.side line with low := true, strobed := false }).side l = s.side l := by
        rw [side_setSide_of_ne hl]
        cases l <;> rfl
      refine Kept.holdsAt (.of_eq hside ?_ ?_) (h l) fun _ _ _ _ _ hlow => by rw [hside]; exact hlow
      · rw [unmasked_setSide]
        rfl
      · rw [flag_setSide, State.flag, getLsbD_or_bit, decide_eq_false hl, Bool.or_false, State.flag]

/-- Changing one side in a way that keeps its waker and its future, and lets it at most rise. -/
theorem inv_setSide {line : Line} {side : Side} (h : Inv s)
    (hwaker : side.waker = (s.side line).waker) (hwait : side.waiting = (s.side line).waiting)
    (hlow : side.low = true → (s.side line).low = true) : Inv (s.setSide line side) := by
  intro l
  have hpc : (s.setSide line side).pc = s.pc := by cases line <;> rfl
  rw [hpc]
  by_cases hl : line = l
  · subst hl
    refine Kept.holdsAt ⟨?_, ?_, unmasked_setSide, fun hf hlow' => ?_⟩ (h line)
      fun _ _ _ _ _ hfalse => ?_
    · rw [side_setSide_self, hwaker]
    · rw [side_setSide_self, hwait]
    · rw [side_setSide_self] at hlow'
      rw [flag_setSide]
      exact hf (hlow hlow')
    · rw [side_setSide_self, Bool.eq_false_iff]
      exact fun ht => by rw [hlow ht] at hfalse; cases hfalse
  · exact Kept.holdsAt (.of_eq (side_setSide_of_ne hl) unmasked_setSide flag_setSide) (h l)
      fun _ _ _ _ _ hfalse => by rw [side_setSide_of_ne hl]; exact hfalse

theorem inv_startIsr {line : Line} (h : Inv s) (hs : step autoClear s (.startIsr line) = some t) :
    Inv t := by
  simp only [step] at hs
  split at hs
  · rename_i hc
    cases hs
    have hmain : ∀ l, Alert s l := fun l => by
      have := h l
      rwa [hc.1] at this
    have hside : ∀ l, ({ s with eifr := if autoClear then s.eifr &&& ~~~line.bit else s.eifr } :
        State).side l = s.side l := fun l => by cases l <;> rfl
    refine inv_setPc (s := { s with
      eifr := if autoClear then s.eifr &&& ~~~line.bit else s.eifr }) fun l => ?_
    by_cases hl : line = l
    · subst hl
      refine holdsAt_isr_self.mpr (.start fun w hw => ?_)
      rw [hside] at hw ⊢
      exact (hmain line w hw).2.1
    · refine (holdsAt_isr_of_ne hl).mpr (Kept.alert (.of_eq (hside l) rfl ?_) (hmain l))
      cases autoClear with
      | false => rfl
      | true =>
        simp only [State.flag, if_true]
        rw [getLsbD_andNot_bit, decide_eq_false hl, Bool.not_false, Bool.and_true]
  · cases hs

theorem inv_startPoll {line : Line} {w : Waker} (h : Inv s)
    (hs : step autoClear s (.startPoll line w) = some t) : Inv t := by
  simp only [step] at hs
  split at hs
  · rename_i hmain
    cases hs
    refine inv_setPc fun l => ?_
    have hl := h l
    rw [hmain] at hl
    by_cases hne : line = l
    · subst hne
      exact holdsAt_poll_self.mpr .start
    · exact (holdsAt_poll_of_ne hne).mpr hl
  · cases hs

/-- A poll that returns leaves its future with this answer: pending with a waker, or done. -/
theorem inv_return {line : Line} {waiting : Option Waker} (h : ∀ l, line ≠ l → Alert s l)
    (hself : ∀ w, waiting = some w → Polling s line w []) :
    Inv { s.setSide line { s.side line with waiting := waiting } with pc := .main } := by
  refine inv_setPc fun l => ?_
  by_cases hl : line = l
  · subst hl
    intro w hw
    rw [side_setSide_self] at hw ⊢
    rw [unmasked_setSide, flag_setSide]
    exact (hself w hw).at_end
  · exact Kept.alert (.of_eq (side_setSide_of_ne hl) unmasked_setSide flag_setSide) (h l hl)

theorem inv_access {sense : Bool} (h : Inv s) (hs : step autoClear s (.access sense) = some t) :
    Inv t := by
  simp only [step] at hs
  split at hs
  · rename_i line w a rest hpc
    have hself := h line
    rw [hpc, holdsAt_poll_self] at hself
    have hother : ∀ l, line ≠ l → Alert s l := fun l hl => by
      have := h l
      rwa [hpc, holdsAt_poll_of_ne hl] at this
    split at hs
    · cases hs
      exact inv_return hother nofun
    · rename_i hans
      cases hs
      refine inv_setPc fun l => ?_
      by_cases hl : line = l
      · subst hl
        exact holdsAt_poll_self.mpr (hself.perform hans)
      · exact (holdsAt_poll_of_ne hl).mpr ((perform_kept hself.isFor hl).alert (hother l hl))
  · rename_i line a rest hpc
    cases hs
    have hself := h line
    rw [hpc, holdsAt_isr_self] at hself
    refine inv_setPc fun l => ?_
    by_cases hl : line = l
    · subst hl
      exact holdsAt_isr_self.mpr hself.perform
    · have hother := h l
      rw [hpc, holdsAt_isr_of_ne hl] at hother
      exact (holdsAt_isr_of_ne hl).mpr ((perform_kept hself.isFor hl).alert hother)
  · cases hs

theorem inv_leave (h : Inv s) (hs : step autoClear s .leave = some t) : Inv t := by
  simp only [step] at hs
  split at hs
  · rename_i line w hpc
    cases hs
    refine inv_return (fun l hl => ?_) fun w' hw' => ?_
    · have := h l
      rwa [hpc, holdsAt_poll_of_ne hl] at this
    · cases hw'
      have := h line
      rwa [hpc, holdsAt_poll_self] at this
  · rename_i line hpc
    cases hs
    refine inv_setPc fun l => ?_
    have hl := h l
    rw [hpc] at hl
    by_cases hne : line = l
    · subst hne
      intro w hw
      rw [(holdsAt_isr_self.mp hl).at_end] at hw
      cases hw
    · exact (holdsAt_isr_of_ne hne).mp hl
  · cases hs

/-- **Step lemma.** -/
theorem inv_step {a : Act} (h : Inv s) (hg : EdgeOutside s a) (hs : step autoClear s a = some t) :
    Inv t := by
  cases a with
  | fall line => exact inv_fall h hg hs
  | rise line =>
    simp only [step] at hs
    split at hs
    · cases hs
      exact inv_setSide h rfl rfl nofun
    · cases hs
  | strobe line =>
    simp only [step] at hs
    split at hs
    · cases hs
      exact inv_setSide h rfl rfl id
    · cases hs
  | startPoll line w => exact inv_startPoll h hs
  | startIsr line => exact inv_startIsr h hs
  | access sense => exact inv_access h hs
  | leave => exact inv_leave h hs

end Step

/-- **No edge is lost** on a run whose falling edges all come outside the window between
the sample of the pin and the clearing of the flag. -/
theorem no_lost_edge (autoClear rxfLow txeLow : Bool) (s : State)
    (h : (system autoClear rxfLow txeLow).ReachedWhile EdgeOutside s) (hmain : s.pc = .main)
    (line : Line) : Alert s line := by
  have hinv : Inv s := by
    refine h.invariant ?_ fun s a t hi hg hs => inv_step hi hg hs
    rintro s rfl
    exact inv_start rxfLow txeLow
  have hl := hinv line
  rwa [hmain] at hl

/-- A poll of RXF that finds the chip empty and waits, and then the edge it waits for. -/
def emptyRead : List Act :=
  [.startPoll .rxf 1, .access true, .access true, .access true, .access true, .access true, .leave,
    .fall .rxf]

/-- The state after `emptyRead`: RXF is low, INT6 unmasked and its flag set. -/
def waitingRead : State := ⟨64, 64, ⟨some 1, true, false, some 1⟩, ⟨none, true, false, none⟩, .main⟩

theorem no_lost_edge_waitingRead : Alert waitingRead .rxf :=
  no_lost_edge true false true waitingRead
    (reachedWhile_of_runFun emptyRead (.init rfl) (by decide)) rfl .rxf

/-- The same poll with RXF falling right after its pin was sampled. -/
def lostEdge : List Act :=
  [.startPoll .rxf 1, .access true, .access true, .fall .rxf, .access true, .access true,
    .access true, .leave]

/-- RXF is low, its flag clear, and its future waits. -/
def stranded : State := ⟨64, 0, ⟨some 1, true, false, some 1⟩, ⟨none, true, false, none⟩, .main⟩

theorem no_lost_edge_false :
    ¬ ∀ (autoClear rxfLow txeLow : Bool) (s : State), (system autoClear rxfLow txeLow).Reachable s →
      s.pc = .main → ∀ line, Alert s line := by
  intro h
  have hr : (system true false true).Reachable stranded :=
    reachable_of_runFun lostEdge (.init rfl) (by decide)
  exact absurd ((h true false true stranded hr rfl .rxf 1 rfl).2.2 rfl) (by decide)

end AvrBridge.Ft240x
