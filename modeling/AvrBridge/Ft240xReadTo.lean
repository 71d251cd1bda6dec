import AvrBridge.FlatRuns
import AvrBridge.Ft240x

/-! `Ft240xReaderHandle::read_to`: the loop around `try_read_to` and the strobes inside it
share one `FlatBuffer`. Every strobed byte is appended, but a strobe that fills the buffer
ends the call with the error for a lost connection, not with the one that
`try_read_to` returns when it is called with a full buffer. -/

namespace AvrBridge

open Rust Lts Ft240x FlatBuffer

/-- Where a `Ft240xReaderHandle::read_to` stands: it calls `try_read_to`, awaits
`Ft240xCanRead`, is about to enter the critical section, is before a strobe, or has
returned. -/
inductive UsbReadTo where
  | enter
  | canRead
  | take
  | strobing
  | done (result : Except ErrorKind Bool)
  deriving DecidableEq, Repr

namespace UsbReadTo

/-- The check of `try_read_to` for a full buffer. -/
def checkFull (f : FlatBuffer) : UsbReadTo :=
  if f.isFull then .done (.error .outOfMemory) else .canRead

/-- A poll of `Ft240xCanRead`; its waker plays no part in the answer. -/
def await (pins : Levels) : UsbReadTo :=
  match pollAnswer (Ft240x.canRead 0) pins with
  | .ready (.ok ()) => .take
  | .ready (.error e) => .done (.error e)
  | .pending => .canRead

/-- One pass of the loop over `byte`. The result of the write is discarded; `Ok(false)` goes
back to `read_to`, which calls `try_read_to` again. -/
def pass (term : UInt8) (f : FlatBuffer) (strobe : Strobe) :
    Except Panic (UsbReadTo × FlatBuffer) := do
  let (_, f) ← f.writeByte strobe.data
  if strobe.data = term then return (.done (.ok true), f)
  else if f.isFull then return (.done (.error .notConnected), f)
  else if !strobe.sense then return (.done (.error .notConnected), f)
  else if strobe.rxf then return (.enter, f)
  else return (.strobing, f)

/-! ## The system -/

/-- The call and its buffer, the bytes strobed out of the chip, and whether SENSE was low
when it was sampled. -/
structure State where
  future : UsbReadTo
  flat : FlatBuffer
  taken : List UInt8
  senseLow : Bool
  deriving DecidableEq, Repr

inductive Act where
  | checkFull
  | poll (pins : Levels)
  | enter (sense : Bool)
  | strobe (s : Strobe)
  deriving DecidableEq, Repr

def step (term : UInt8) (s : State) : Act → Option State
  | .checkFull =>
      match s.future with
      | .enter => some { s with future := UsbReadTo.checkFull s.flat }
      | _ => none
  | .poll pins =>
      match s.future with
      | .canRead => some { s with future := await pins, senseLow := s.senseLow || !pins.sense }
      | _ => none
  | .enter sense =>
      match s.future with
      | .take => some { s with
          future := if !sense then .done (.error .notConnected) else .strobing
          senseLow := s.senseLow || !sense }
      | _ => none
  | .strobe strobe =>
      match s.future with
      | .strobing =>
          match pass term s.flat strobe with
          | .ok (future, flat) =>
              -- SENSE is sampled behind the two checks of the byte
              let sampled := strobe.data != term && !flat.isFull
              some ⟨future, flat, s.taken ++ [strobe.data], s.senseLow || sampled && !strobe.sense⟩
          | .error _ => none
      | _ => none

/-- The call on this buffer. -/
def system (term : UInt8) (f : FlatBuffer) : System State Act :=
  .ofFun ⟨.enter, f, [], false⟩ (step term)

/-- A byte that takes the last free place is the terminator. -/
def FillsWithTerm (term : UInt8) (s : State) : Act → Prop
  | .strobe strobe => s.flat.len + 1 = s.flat.buf.length → strobe.data = term
  | .checkFull | .poll _ | .enter _ => True

instance (term : UInt8) (s : State) (act : Act) : Decidable (FillsWithTerm term s act) :=
  match act with
  | .strobe _ => inferInstanceAs (Decidable (_ → _))
  | .checkFull | .poll _ | .enter _ => inferInstanceAs (Decidable True)

/-! ## The account of a call -/

/-- Every strobed byte is behind the bytes `unread` that the buffer held, and the answer of
the call is the right one. -/
structure Accounted (term : UInt8) (unread : List UInt8) (s : State) : Prop where
  appended : s.flat.asRef = .ok (unread ++ s.taken)
  found : s.future = .done (.ok true) ↔ s.taken.getLast? = some term ∧ term ∉ s.taken.dropLast
  notConnected : s.future = .done (.error .notConnected) → s.senseLow = true
  outOfMemory : ∀ result, s.future = .done result → s.flat.isFull = true →
    s.taken.getLast? ≠ some term → result = .error .outOfMemory

/-- What holds in every run: the buffer is good and starts at its first place, and as long
as the call is not over no terminator has come and, past the check, a place is free. -/
structure Standing (term : UInt8) (unread : List UInt8) (s : State) : Prop where
  good : Good ⟨s.flat, unread ++ s.taken⟩
  rPos_eq : s.flat.rPos = 0
  absent : (∀ result, s.future ≠ .done result) → term ∉ s.taken
  room : s.future = .canRead ∨ s.future = .take ∨ s.future = .strobing → s.flat.isFull = false

variable {term : UInt8} {unread : List UInt8} {s t : State} {act : Act}

/-- Where a byte that left the buffer so sends the call. -/
def next (term : UInt8) (f : FlatBuffer) (strobe : Strobe) : UsbReadTo :=
  if strobe.data = term then .done (.ok true)
  else if f.isFull then .done (.error .notConnected)
  else if !strobe.sense then .done (.error .notConnected)
  else if strobe.rxf then .enter
  else .strobing

theorem pass_eq {strobe : Strobe} {f f' : FlatBuffer}
    (hwrite : f.writeByte strobe.data = .ok (.ok (), f')) :
    pass term f strobe = .ok (next term f' strobe, f') := by
  rw [pass, hwrite, ok_bind, next]
  dsimp only
  repeat' split
  all_goals rfl

/-- **One pass**: the byte is appended, and the checks behind it decide where the call goes. -/
theorem pass_step (strobe : Strobe) (h : Standing term unread s) (hf : s.future = .strobing) :
    ∃ t, step term s (.strobe strobe) = some t ∧ t.taken = s.taken ++ [strobe.data] ∧
      Good ⟨t.flat, unread ++ t.taken⟩ ∧ t.flat.rPos = 0 ∧
      (t.flat.isFull = true ↔ s.flat.len + 1 = s.flat.buf.length) ∧
      (strobe.data = term ∧ t.future = .done (.ok true) ∨
        strobe.data ≠ term ∧ t.flat.isFull = true ∧ t.future = .done (.error .notConnected) ∨
        strobe.data ≠ term ∧ t.flat.isFull = false ∧ t.senseLow = true ∧
          t.future = .done (.error .notConnected) ∨
        strobe.data ≠ term ∧ t.flat.isFull = false ∧
          (t.future = .enter ∨ t.future = .strobing)) := by
  have hroom := h.room (.inr (.inr hf))
  have hle := h.good.len_le
  have hw := h.good.wPos_eq
  have hstore : s.flat.wPos + 1 ≤ s.flat.buf.length := by
    simp only [isFull, beq_eq_false_iff_ne] at hroom
    simp only [h.rPos_eq] at hw
    simp only at hle
    omega
  have hwrite := writeByte_eq (s := ⟨s.flat, unread ++ s.taken⟩) strobe.data hroom
  rw [if_pos hstore] at hwrite
  have hgood : Good ⟨s.flat.stored [strobe.data], unread ++ (s.taken ++ [strobe.data])⟩ := by
    rw [← List.append_assoc]
    exact h.good.stored hstore
  have hfull : (s.flat.stored [strobe.data]).isFull = true ↔
      s.flat.len + 1 = s.flat.buf.length := by
    rw [isFull, beq_iff_eq, stored, Window.length_splice (by simpa using hstore)]
    rfl
  refine ⟨⟨next term (s.flat.stored [strobe.data]) strobe, s.flat.stored [strobe.data],
    s.taken ++ [strobe.data], s.senseLow || (strobe.data != term &&
      !(s.flat.stored [strobe.data]).isFull) && !strobe.sense⟩,
    by simp only [step, hf, pass_eq hwrite], rfl, hgood, h.rPos_eq, hfull, ?_⟩
  by_cases hterm : strobe.data = term
  · exact .inl ⟨hterm, if_pos hterm⟩
  cases hfull' : (s.flat.stored [strobe.data]).isFull with
  | true => exact .inr (.inl ⟨hterm, rfl, by simp [next, hterm, hfull']⟩)
  | false =>
    cases hsense : strobe.sense with
    | false =>
      exact .inr (.inr (.inl ⟨hterm, rfl, by simp [hterm], by simp [next, hterm, hsense]⟩))
    | true =>
      refine .inr (.inr (.inr ⟨hterm, rfl, ?_⟩))
      cases hrxf : strobe.rxf with
      | true => exact .inl (by simp [next, hterm, hfull', hsense, hrxf])
      | false => exact .inr (by simp [next, hterm, hfull', hsense, hrxf])

theorem await_cases (pins : Levels) : (await pins = .canRead ∨ await pins = .take) ∨
    await pins = .done (.error .notConnected) ∧ pins.sense = false := by
  rw [await, show Ft240x.canRead 0 = Line.rxf.poll 0 from rfl, pollAnswer_poll]
  cases pins.sense <;> cases Line.rxf.isLow pins <;> simp

/-- **What a step does** outside the strobes, and where it is taken. -/
theorem step_cases (hs : step term s act = some t) :
    (act = .checkFull ∧ s.future = .enter ∧ t = { s with future := checkFull s.flat }) ∨
    (∃ pins, act = .poll pins ∧ s.future = .canRead ∧
      t = { s with future := await pins, senseLow := s.senseLow || !pins.sense }) ∨
    (∃ sense, act = .enter sense ∧ s.future = .take ∧
      t = { s with
        future := if !sense then .done (.error .notConnected) else .strobing
        senseLow := s.senseLow || !sense }) ∨
    (∃ strobe, act = .strobe strobe ∧ s.future = .strobing) := by
  cases act with
  | checkFull =>
    simp only [step] at hs
    split at hs
    · rename_i hf
      cases hs
      exact .inl ⟨rfl, hf, rfl⟩
    · cases hs
  | poll pins =>
    simp only [step] at hs
    split at hs
    · rename_i hf
      cases hs
      exact .inr (.inl ⟨pins, rfl, hf, rfl⟩)
    · cases hs
  | enter sense =>
    simp only [step] at hs
    split at hs
    · rename_i hf
      cases hs
      exact .inr (.inr (.inl ⟨sense, rfl, hf, rfl⟩))
    · cases hs
  | strobe strobe =>
    simp only [step] at hs
    split at hs
    · rename_i hf
      exact .inr (.inr (.inr ⟨strobe, rfl, hf⟩))
    · cases hs

/-- A call that takes a step is not over. -/
theorem ne_done_of_step (hs : step term s act = some t) (result : Except ErrorKind Bool) :
    s.future ≠ .done result := by
  intro hdone
  rcases step_cases hs with ⟨-, hf, -⟩ | ⟨-, -, hf, -⟩ | ⟨-, -, hf, -⟩ | ⟨-, -, hf⟩ <;>
    cases hf.symm.trans hdone

/-- A strobe that brings no terminator leaves the bytes without one. -/
theorem absent_append {taken : List UInt8} {byte : UInt8} (h : term ∉ taken) (hne : byte ≠ term) :
    term ∉ taken ++ [byte] := by
  rw [List.mem_append, List.mem_singleton, not_or]
  exact ⟨h, hne.symm⟩

/-- Every step keeps what holds in every run. -/
theorem standing_step (h : Standing term unread s) (hs : step term s act = some t) :
    Standing term unread t := by
  have habsent := h.absent (ne_done_of_step hs)
  obtain ⟨rfl, -, rfl⟩ | ⟨pins, rfl, hf, rfl⟩ | ⟨sense, rfl, hf, rfl⟩ | ⟨strobe, rfl, hf⟩ :=
    step_cases hs
  · refine ⟨h.good, h.rPos_eq, fun _ => habsent, ?_⟩
    intro hwait
    cases hfull : s.flat.isFull with
    | false => rfl
    | true =>
      simp only [checkFull, hfull, if_true] at hwait
      rcases hwait with hwait | hwait | hwait <;> cases hwait
  · exact ⟨h.good, h.rPos_eq, fun _ => habsent, fun _ => h.room (.inl hf)⟩
  · exact ⟨h.good, h.rPos_eq, fun _ => habsent, fun _ => h.room (.inr (.inl hf))⟩
  · obtain ⟨u, hu, htaken, hgood, hrPos, -, hcases⟩ := pass_step strobe h hf
    cases hu.symm.trans hs
    refine ⟨hgood, hrPos, ?_, ?_⟩
    · intro hne
      rw [htaken]
      rcases hcases with ⟨-, hdone⟩ | ⟨hterm, -⟩ | ⟨hterm, -⟩ | ⟨hterm, -⟩
      · exact absurd hdone (hne _)
      all_goals exact absent_append habsent hterm
    · intro hwait
      rcases hcases with ⟨-, hdone⟩ | ⟨-, -, hdone⟩ | ⟨-, hroom, -⟩ | ⟨-, hroom, -⟩
      · rw [hdone] at hwait
        rcases hwait with hwait | hwait | hwait <;> cases hwait
      · rw [hdone] at hwait
        rcases hwait with hwait | hwait | hwait <;> cases hwait
      · exact hroom
      · exact hroom

/-- A call that is not over, or that an error ends which fits the levels and the buffer. -/
theorem accounted_of_absent (h : Standing term unread t) (habsent : term ∉ t.taken)
    (hdone : ∀ result, t.future = .done result →
      result = .error .outOfMemory ∨
        result = .error .notConnected ∧ t.senseLow = true ∧ t.flat.isFull = false) :
    Accounted term unread t where
  appended := h.good.asRef_eq
  found := by
    refine iff_of_false (fun hf => ?_) fun hlast => habsent (List.mem_of_getLast? hlast.1)
    rcases hdone _ hf with herr | ⟨herr, -⟩ <;> cases herr
  notConnected hf := by
    rcases hdone _ hf with herr | ⟨-, hlow, -⟩
    · cases herr
    · exact hlow
  outOfMemory result hf hfull _ := by
    rcases hdone result hf with rfl | ⟨-, -, hroom⟩
    · rfl
    · exact absurd (hroom.symm.trans hfull) Bool.false_ne_true

/-- **Step lemma.** A step keeps the account exactly if it does not fill the buffer with a
byte that is not the terminator. -/
theorem accounted_step (h : Standing term unread s) (hs : step term s act = some t) :
    Accounted term unread t ↔ FillsWithTerm term s act := by
  have ht := standing_step h hs
  have habsent := h.absent (ne_done_of_step hs)
  obtain ⟨rfl, -, rfl⟩ | ⟨pins, rfl, hf, rfl⟩ | ⟨sense, rfl, hf, rfl⟩ | ⟨strobe, rfl, hf⟩ :=
    step_cases hs
  · refine iff_of_true (accounted_of_absent ht habsent ?_) trivial
    intro result hdone
    simp only [checkFull] at hdone
    split at hdone <;> cases hdone
    exact .inl rfl
  · refine iff_of_true (accounted_of_absent ht habsent ?_) trivial
    intro result hdone
    rcases await_cases pins with (ha | ha) | ⟨ha, hsense⟩
    · cases ha.symm.trans hdone
    · cases ha.symm.trans hdone
    · cases ha.symm.trans hdone
      exact .inr ⟨rfl, by rw [hsense, Bool.not_false, Bool.or_true], h.room (.inl hf)⟩
  · refine iff_of_true (accounted_of_absent ht habsent ?_) trivial
    intro result hdone
    cases sense with
    | true => cases hdone
    | false =>
      cases hdone
      exact .inr ⟨rfl, by rw [Bool.not_false, Bool.or_true], h.room (.inr (.inl hf))⟩
  · obtain ⟨u, hu, htaken, hgood, -, hfull, hcases⟩ := pass_step strobe h hf
    cases hu.symm.trans hs
    have hlast : t.taken.getLast? = some strobe.data := by rw [htaken, List.getLast?_concat]
    have habsent' (hterm : strobe.data ≠ term) : term ∉ t.taken := by
      rw [htaken]
      exact absent_append habsent hterm
    rcases hcases with ⟨hterm, hdone⟩ | ⟨hterm, hfull', hdone⟩ | ⟨hterm, hroom, hlow, hdone⟩ |
      ⟨hterm, hroom, hgoes⟩
    · refine iff_of_true ⟨hgood.asRef_eq, iff_of_true hdone ⟨by rw [hlast, hterm], ?_⟩, ?_, ?_⟩
        fun _ => hterm
      · rwa [htaken, List.dropLast_concat]
      · intro herr
        cases hdone.symm.trans herr
      · intro result _ _ hne
        exact absurd (hlast.trans (congrArg some hterm)) hne
    · -- the buffer is full, and the call says that the chip is not connected
      refine iff_of_false (fun hacc => ?_) fun hc => hterm (hc (hfull.mp hfull'))
      have hne : t.taken.getLast? ≠ some term := fun heq =>
        hterm (Option.some.inj (hlast.symm.trans heq))
      cases hacc.outOfMemory _ hdone hfull' hne
    · refine iff_of_true (accounted_of_absent ht (habsent' hterm) ?_)
        fun hc => absurd (hfull.mpr hc) (by rw [hroom]; exact Bool.false_ne_true)
      intro result hr
      cases hdone.symm.trans hr
      exact .inr ⟨rfl, hlow, hroom⟩
    · refine iff_of_true (accounted_of_absent ht (habsent' hterm) ?_)
        fun hc => absurd (hfull.mpr hc) (by rw [hroom]; exact Bool.false_ne_true)
      intro result hr
      rcases hgoes with hgoes | hgoes <;> cases hgoes.symm.trans hr

/-- **The account of `read_to`, exactly.** On every run every strobed byte is appended in
order, and `Ok(true)` is the answer to the first terminator; on every run on which only
the terminator takes the last free place every error is the right one, and the next
step keeps that exactly if it does not fill the buffer with another byte. -/
theorem readTo_accounts (term : UInt8) (f : FlatBuffer) (unread : List UInt8)
    (hgood : Good ⟨f, unread⟩) (hr : f.rPos = 0) (s : State) :
    ((system term f).Reachable s → s.flat.asRef = .ok (unread ++ s.taken)) ∧
    ((system term f).ReachedWhile (FillsWithTerm term) s → Accounted term unread s ∧
      ∀ act t, step term s act = some t →
        (Accounted term unread t ↔ FillsWithTerm term s act)) := by
  have hstart : Standing term unread ⟨.enter, f, [], false⟩ := by
    refine ⟨by rwa [List.append_nil], hr, fun _ => List.not_mem_nil, fun hwait => ?_⟩
    rcases hwait with hwait | hwait | hwait <;> cases hwait
  constructor
  · intro h
    have hinv : Standing term unread s := by
      refine System.Reachable.invariant (I := Standing term unread) ?_
        (fun s act t hi hs => standing_step hi hs) h
      rintro s rfl
      exact hstart
    exact hinv.good.asRef_eq
  · intro h
    have hinv : Standing term unread s ∧ Accounted term unread s := by
      refine h.invariant (I := fun s => Standing term unread s ∧ Accounted term unread s) ?_
        fun s act t hi hg hs => ⟨standing_step hi.1 hs, (accounted_step hi.1 hs).mpr hg⟩
      rintro s rfl
      exact ⟨hstart, accounted_of_absent hstart List.not_mem_nil fun result hdone => by
        cases hdone⟩
    exact ⟨hinv.2, fun act t hs => accounted_step hinv.1 hs⟩

/-- `b` and the terminator, into a buffer of three places. -/
def line : State := ⟨.done (.ok true), ⟨0, 2, 2, [98, 10, 0]⟩, [98, 10], false⟩

theorem readTo_accounts_line :
    (FlatBuffer.asRef ⟨0, 2, 2, [98, 10, 0]⟩ = .ok [98, 10]) ∧ Accounted 10 [] line ∧
      ∀ act t, step 10 line act = some t →
        (Accounted 10 [] t ↔ FillsWithTerm 10 line act) :=
  have h := readTo_accounts 10 (.new [0, 0, 0]) [] (good_new _) rfl line
  ⟨h.1 (reachable_of_runFun [.checkFull, .poll ⟨true, false, true⟩, .enter true,
      .strobe ⟨98, true, false⟩, .strobe ⟨10, true, true⟩] (.init rfl) (by decide)),
    h.2 (reachedWhile_of_runFun [.checkFull, .poll ⟨true, false, true⟩, .enter true,
      .strobe ⟨98, true, false⟩, .strobe ⟨10, true, true⟩] (.init rfl) (by decide))⟩

/-- The host stays connected, and the only place goes to a byte that is not the
terminator. -/
theorem readTo_accounts_false :
    ¬ ∀ (term : UInt8) (f : FlatBuffer) (unread : List UInt8), Good ⟨f, unread⟩ → f.rPos = 0 →
      ∀ s, (system term f).Reachable s → Accounted term unread s := by
  intro h
  obtain ⟨s, hs, hwrong⟩ := exists_reachable_of_runFun
    [.checkFull, .poll ⟨true, false, true⟩, .enter true, .strobe ⟨7, true, false⟩]
    (fun s => s.future == .done (.error .notConnected) && !s.senseLow)
    (show (system 10 (.new [0])).Reachable _ from .init rfl) (by decide)
  obtain ⟨hdone, hhigh⟩ := Bool.and_eq_true_iff.mp hwrong
  have hlow := (h 10 (.new [0]) [] (good_new _) rfl s hs).notConnected (beq_iff_eq.mp hdone)
  rw [hlow] at hhigh
  cases hhigh

end UsbReadTo

end AvrBridge
