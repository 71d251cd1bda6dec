import AvrBridge.Wakeups

/-! When `Executor::run` sleeps. It clears SIGNAL before a poll and sleeps right after an
answer of Pending, without a second look: a waker called in between, by an interrupt
routine or by the poll itself, is not noticed until the next interrupt. -/

namespace AvrBridge.Executor

open Rust Lts

variable {σ α ι : Type}

/-- No waker is called between the swap that starts a poll and the end of the poll, nor by an
interrupt between its Pending and the sleep. -/
def Quiet (P : Program σ α ι) (s : State σ) : Act α ι → Prop
  | .work a => (P.work s.env a).any (·.1) = false
  | .interrupt i => s.pc = .polling ∨ s.pc = .sleep → (P.interrupt s.env i).any (·.1) = false
  | .swap | .answer | .sleep => True

instance (P : Program σ α ι) (s : State σ) (act : Act α ι) : Decidable (Quiet P s act) :=
  match act with
  | .work _ => inferInstanceAs (Decidable (_ = _))
  | .interrupt _ => inferInstanceAs (Decidable (_ → _))
  | .swap | .answer | .sleep => inferInstanceAs (Decidable True)

variable {P : Program σ α ι} {s t : State σ} {act : Act α ι}

/-- SIGNAL is clear from the swap to the sleep. -/
def Clear (s : State σ) : Prop := s.pc = .polling ∨ s.pc = .sleep → s.signal = false

theorem clear_step (h : Clear s) (hq : Quiet P s act) (hs : step P s act = some t) : Clear t := by
  obtain ⟨-, -, ⟨-, rfl⟩ | ⟨-, rfl⟩⟩ | ⟨a, wakes, env, rfl, hpc, hw, rfl⟩ |
    ⟨answer, pc, -, hpc, -, -, rfl⟩ | ⟨-, -, rfl⟩ | ⟨i, wakes, env, rfl, hint, rfl⟩ :=
    step_cases hs
  · exact fun _ => rfl
  · exact h
  · intro _
    have hwakes : wakes = false := by simpa [Quiet, hw] using hq
    rw [h (.inl hpc), hwakes, Bool.or_false]
  · exact fun _ => h (.inl hpc)
  · rintro (hpc | hpc) <;> cases hpc
  · intro hpc
    have hpc' : s.pc = .polling ∨ s.pc = .sleep := by
      by_cases ha : s.pc = .asleep
      · simp [ha] at hpc
      · simpa [ha] using hpc
    have hwakes : wakes = false := by simpa [hint] using hq hpc'
    rw [h hpc', hwakes, Bool.or_false]

/-- Only the swap clears SIGNAL. -/
theorem signal_step (h : s.signal = true) (hswap : act ≠ .swap) (hs : step P s act = some t) :
    t.signal = true := by
  obtain ⟨hact, -⟩ | ⟨a, wakes, env, -, -, -, rfl⟩ | ⟨answer, pc, -, -, -, -, rfl⟩ | ⟨-, -, rfl⟩ |
    ⟨i, wakes, env, -, -, rfl⟩ := step_cases hs
  · exact absurd hact hswap
  · rw [h, Bool.true_or]
  · exact h
  · exact h
  · rw [h, Bool.true_or]

/-- A step that is not quiet sets SIGNAL. -/
theorem signal_of_not_quiet (hq : ¬ Quiet P s act) (hs : step P s act = some t) :
    t.signal = true := by
  obtain ⟨rfl, -⟩ | ⟨a, wakes, env, rfl, -, hw, rfl⟩ | ⟨answer, pc, rfl, -, -, -, rfl⟩ |
    ⟨rfl, -, rfl⟩ | ⟨i, wakes, env, rfl, hint, rfl⟩ := step_cases hs
  · exact absurd trivial hq
  · have hwakes : wakes = true := by simpa [Quiet, hw] using hq
    rw [hwakes, Bool.or_true]
  · exact absurd trivial hq
  · exact absurd trivial hq
  · have hwakes : wakes = true := by
      have hany : ¬ (P.interrupt s.env i).any (·.1) = false := fun hnone => hq fun _ => hnone
      simpa [hint] using hany
    rw [hwakes, Bool.or_true]

/-- **Sleep, exactly.** As long as no waker is called between a swap and the sleep after
it, no sleep is executed with SIGNAL set. After a call there SIGNAL is set until the next
swap, and so also at the sleep if the poll answers Pending. -/
theorem sleeps_with_signal_clear (P : Program σ α ι) (e : σ) (s : State σ)
    (h : (system P e).ReachedWhile (Quiet P) s) :
    (∀ t, step P s .sleep = some t → s.signal = false) ∧
      ∀ act t, step P s act = some t → ¬ Quiet P s act →
        ∀ u, (System.ofFun t (step P)).ReachedWhile (fun _ a => a ≠ .swap) u →
          u.signal = true := by
  have hclear : Clear s := by
    refine h.invariant ?_ fun s act t hi hg hs => clear_step hi hg hs
    rintro s rfl (hpc | hpc) <;> cases hpc
  constructor
  · intro t hs
    obtain ⟨hact, -⟩ | ⟨_, _, _, hact, -⟩ | ⟨_, _, hact, -⟩ | ⟨-, hpc, -⟩ | ⟨_, _, _, hact, -⟩ :=
      step_cases hs
    · cases hact
    · cases hact
    · cases hact
    · exact hclear (.inr hpc)
    · cases hact
  · intro act t hs hq u hu
    refine hu.invariant (I := fun s => s.signal = true) ?_
      fun s act t hi hg hs => signal_step hi hg hs
    rintro s rfl
    exact signal_of_not_quiet hq hs

/-- A task that waits for a byte, before the sleep. -/
def waitsForByte : State Wakeups.Env :=
  ⟨.sleep, false, ⟨{ UsartReader.new with waker := some 0 }, ⟨0, none⟩,
    [.waiting .canRead], []⟩⟩

theorem sleeps_with_signal_clear_waitsForByte :
    (∀ t, step (Wakeups.program .dev) waitsForByte .sleep = some t →
        waitsForByte.signal = false) ∧
      ∀ act t, step (Wakeups.program .dev) waitsForByte act = some t →
        ¬ Quiet (Wakeups.program .dev) waitsForByte act →
        ∀ u, (System.ofFun t (step (Wakeups.program .dev))).ReachedWhile
          (fun _ a => a ≠ .swap) u → u.signal = true :=
  sleeps_with_signal_clear (Wakeups.program .dev) (Wakeups.start .new ⟨0, none⟩ 1) waitsForByte
    (reachedWhile_of_runFun [.swap, .work (.await .canRead), .work .pollLeaf, .answer]
      (.init rfl) (by decide))

/-- A byte that comes between the answer of the poll and the sleep. -/
theorem sleeps_with_signal_clear_false :
    ¬ ∀ (σ α ι : Type) (P : Program σ α ι) (e : σ) (s : State σ), (system P e).Reachable s →
      ∀ t, step P s .sleep = some t → s.signal = false := by
  intro h
  obtain ⟨s, hs, hgap⟩ := exists_reachable_of_runFun
    [.swap, .work (.await .canRead), .work .pollLeaf, .answer, .interrupt (.usart1Rx 7)]
    (fun s => s.pc == .sleep && s.signal)
    (show (system (Wakeups.program .dev) (Wakeups.start .new ⟨0, none⟩ 1)).Reachable _ from
      .init rfl) (by decide)
  obtain ⟨hpc, hsignal⟩ := Bool.and_eq_true_iff.mp hgap
  have hstep : step (Wakeups.program .dev) s .sleep = some { s with pc := .asleep } := by
    simp only [step, beq_iff_eq.mp hpc]
  have hclear := h _ _ _ (Wakeups.program .dev) _ s hs _ hstep
  exact Bool.false_ne_true (hclear.symm.trans hsignal)

end AvrBridge.Executor
