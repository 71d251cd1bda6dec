import AvrBridge.Lts
import AvrBridge.Rust

/-! Model of `Executor::run` of `executor.rs`. The future and the statics it shares with
the interrupt routines are a parameter; its polls are cut where an interrupt may run. Every
waker in use is a clone of `signal_waker`, so of a call to one only SIGNAL remains. -/

namespace AvrBridge.Executor

open Rust Lts

/-- A future with its statics: how a poll begins, the steps of one, what it answers at its
end, and the interrupt routines. The flag of a step says whether it woke a waker. -/
structure Program (σ α ι : Type) where
  enter : σ → σ
  work : σ → α → Option (Bool × σ)
  answer : σ → Option (Poll Unit)
  interrupt : σ → ι → Option (Bool × σ)

inductive Pc where
  | top
  | polling
  | sleep
  | asleep
  | finished
  deriving DecidableEq, Repr

/-- Where the loop stands, SIGNAL, and the future with its statics. -/
structure State (σ : Type) where
  pc : Pc
  signal : Bool
  env : σ
  deriving DecidableEq, Repr

inductive Act (α ι : Type) where
  | swap
  | work (a : α)
  | answer
  | sleep
  | interrupt (i : ι)
  deriving DecidableEq, Repr

variable {σ α ι : Type}

/-- `if should_poll`, the match on the answer of the poll and `sleep`; an interrupt also
ends the sleep. -/
def step (P : Program σ α ι) (s : State σ) : Act α ι → Option (State σ)
  | .swap =>
      match s.pc with
      | .top =>
          if s.signal then some ⟨.polling, false, P.enter s.env⟩
          else some { s with signal := false }
      | _ => none
  | .work a =>
      match s.pc with
      | .polling => (P.work s.env a).map fun (wakes, env) => ⟨.polling, s.signal || wakes, env⟩
      | _ => none
  | .answer =>
      match s.pc, P.answer s.env with
      | .polling, some (.ready _) => some { s with pc := .finished }
      | .polling, some .pending => some { s with pc := .sleep }
      | _, _ => none
  | .sleep =>
      match s.pc with
      | .sleep => some { s with pc := .asleep }
      | _ => none
  | .interrupt i => (P.interrupt s.env i).map fun (wakes, env) =>
      ⟨if s.pc = .asleep then .top else s.pc, s.signal || wakes, env⟩

def start (e : σ) : State σ := ⟨.top, true, e⟩

def system (P : Program σ α ι) (e : σ) : System (State σ) (Act α ι) := .ofFun (start e) (step P)

/-- **What a step does.** -/
theorem step_cases {P : Program σ α ι} {s t : State σ} {act : Act α ι}
    (hs : step P s act = some t) :
    (act = .swap ∧ s.pc = .top ∧
      (s.signal = true ∧ t = ⟨.polling, false, P.enter s.env⟩ ∨ s.signal = false ∧ t = s)) ∨
    (∃ a wakes env, act = .work a ∧ s.pc = .polling ∧ P.work s.env a = some (wakes, env) ∧
      t = ⟨.polling, s.signal || wakes, env⟩) ∨
    (∃ answer pc, act = .answer ∧ s.pc = .polling ∧ P.answer s.env = some answer ∧
      (pc = .finished ∨ pc = .sleep) ∧ t = { s with pc := pc }) ∨
    (act = .sleep ∧ s.pc = .sleep ∧ t = { s with pc := .asleep }) ∨
    (∃ i wakes env, act = .interrupt i ∧ P.interrupt s.env i = some (wakes, env) ∧
      t = ⟨if s.pc = .asleep then .top else s.pc, s.signal || wakes, env⟩) := by
  cases act with
  | swap =>
    refine .inl ?_
    cases hpc : s.pc with
    | top =>
      cases hsig : s.signal with
      | true =>
        simp only [step, hpc, hsig, if_true] at hs
        cases hs
        exact ⟨rfl, rfl, .inl ⟨rfl, rfl⟩⟩
      | false =>
        simp only [step, hpc, hsig, Bool.false_eq_true, if_false] at hs
        cases hs
        refine ⟨rfl, rfl, .inr ⟨rfl, ?_⟩⟩
        rw [← hsig, ← hpc]
    | polling | sleep | asleep | finished => simp [step, hpc] at hs
  | work a =>
    refine .inr (.inl ?_)
    cases hpc : s.pc with
    | polling =>
      simp only [step, hpc, Option.map_eq_some_iff] at hs
      obtain ⟨⟨wakes, env⟩, hwork, rfl⟩ := hs
      exact ⟨a, wakes, env, rfl, rfl, hwork, rfl⟩
    | top | sleep | asleep | finished => simp [step, hpc] at hs
  | answer =>
    refine .inr (.inr (.inl ?_))
    cases hpc : s.pc with
    | polling =>
      cases hans : P.answer s.env with
      | none => simp [step, hpc, hans] at hs
      | some answer =>
        cases answer with
        | pending =>
          simp only [step, hpc, hans] at hs
          cases hs
          exact ⟨.pending, .sleep, rfl, rfl, rfl, .inr rfl, rfl⟩
        | ready value =>
          simp only [step, hpc, hans] at hs
          cases hs
          exact ⟨.ready value, .finished, rfl, rfl, rfl, .inl rfl, rfl⟩
    | top | sleep | asleep | finished => simp [step, hpc] at hs
  | sleep =>
    refine .inr (.inr (.inr (.inl ?_)))
    cases hpc : s.pc with
    | sleep =>
      simp only [step, hpc] at hs
      cases hs
      exact ⟨rfl, rfl, rfl⟩
    | top | polling | asleep | finished => simp [step, hpc] at hs
  | interrupt i =>
    refine .inr (.inr (.inr (.inr ?_)))
    simp only [step, Option.map_eq_some_iff] at hs
    obtain ⟨⟨wakes, env⟩, hint, rfl⟩ := hs
    exact ⟨i, wakes, env, rfl, hint, rfl⟩

/-- **Invariant rule.** What holds before a poll with SIGNAL cleared, survives each of its
steps and the interrupts, and carries over to the time between two polls, holds always. -/
theorem reachable_invariant {P : Program σ α ι} (inside outside : σ → Bool → Prop)
    (henter : ∀ e, outside e true → inside (P.enter e) false)
    (hwork : ∀ e signal a wakes e', inside e signal → P.work e a = some (wakes, e') →
      inside e' (signal || wakes))
    (hanswer : ∀ e signal answer, inside e signal → P.answer e = some answer → outside e signal)
    (hinside : ∀ e signal i wakes e', inside e signal → P.interrupt e i = some (wakes, e') →
      inside e' (signal || wakes))
    (houtside : ∀ e signal i wakes e', outside e signal → P.interrupt e i = some (wakes, e') →
      outside e' (signal || wakes))
    {e : σ} (hstart : outside e true) {s : State σ} (h : (system P e).Reachable s) :
    (s.pc = .polling → inside s.env s.signal) ∧ (s.pc ≠ .polling → outside s.env s.signal) := by
  refine System.Reachable.invariant (M := system P e) (I := fun s =>
    (s.pc = .polling → inside s.env s.signal) ∧ (s.pc ≠ .polling → outside s.env s.signal)) ?_ ?_ h
  · rintro s rfl
    exact ⟨fun hpc => (by cases hpc), fun _ => hstart⟩
  · intro s act t hi hs
    obtain ⟨-, hpc, ⟨hsig, rfl⟩ | ⟨-, rfl⟩⟩ | ⟨a, wakes, env, -, hpc, hw, rfl⟩ |
      ⟨answer, pc, -, hpc, hans, hpc', rfl⟩ | ⟨-, hpc, rfl⟩ | ⟨i, wakes, env, -, hint, rfl⟩ :=
      step_cases hs
    · have hout := hi.2 (by simp [hpc])
      rw [hsig] at hout
      exact ⟨fun _ => henter _ hout, fun hne => absurd rfl hne⟩
    · exact hi
    · exact ⟨fun _ => hwork _ _ _ _ _ (hi.1 hpc) hw, fun hne => absurd rfl hne⟩
    · refine ⟨fun hp => ?_, fun _ => hanswer _ _ _ (hi.1 hpc) hans⟩
      rcases hpc' with rfl | rfl <;> cases hp
    · exact ⟨fun hp => (by cases hp), fun _ => hi.2 (by simp [hpc])⟩
    · by_cases hp : s.pc = .polling
      · refine ⟨fun _ => hinside _ _ _ _ _ (hi.1 hp) hint, fun hne => absurd ?_ hne⟩
        simp [hp]
      · refine ⟨fun hq => absurd hq ?_, fun _ => houtside _ _ _ _ _ (hi.2 hp) hint⟩
        by_cases ha : s.pc = .asleep
        · simp [ha]
        · simpa [ha] using hp

end AvrBridge.Executor
