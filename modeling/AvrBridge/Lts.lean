import Mathlib.Logic.Basic

/-! Labelled transition systems. A run is *guarded* when every step of it meets
a condition on the state before the step and the label; the plain runs are the
guarded ones with a trivial guard. The induction rules here are the only place
where a run is taken apart: a client proves what one step preserves. -/

namespace AvrBridge.Lts

universe u v

/-- Initial states and labelled steps. -/
structure System (σ : Type u) (α : Type v) where
  init : σ → Prop
  step : σ → α → σ → Prop

variable {σ : Type u} {α : Type v}

/-- The system of a partial step function. -/
def System.ofFunFrom (init : σ → Prop) (f : σ → α → Option σ) : System σ α :=
  ⟨init, fun s a t => f s a = some t⟩

/-- The system of a partial step function started in one state. -/
abbrev System.ofFun (s₀ : σ) (f : σ → α → Option σ) : System σ α := .ofFunFrom (fun s => s = s₀) f

/-- The states some guarded run from an initial state reaches. -/
inductive System.ReachedWhile (M : System σ α) (guard : σ → α → Prop) : σ → Prop
  | init {s : σ} : M.init s → ReachedWhile M guard s
  | step {s t : σ} {a : α} :
      ReachedWhile M guard s → guard s a → M.step s a t → ReachedWhile M guard t

/-- The reachable states. -/
def System.Reachable (M : System σ α) : σ → Prop := M.ReachedWhile fun _ _ => True

theorem System.Reachable.init {M : System σ α} {s : σ} (h : M.init s) : M.Reachable s :=
  ReachedWhile.init h

/-- **Invariant rule** for guarded runs. -/
theorem System.ReachedWhile.invariant {M : System σ α} {guard : σ → α → Prop} {I : σ → Prop}
    (hinit : ∀ s, M.init s → I s)
    (hstep : ∀ s a t, I s → guard s a → M.step s a t → I t)
    {s : σ} (h : M.ReachedWhile guard s) : I s := by
  induction h with
  | init hs => exact hinit _ hs
  | step _ hg hs ih => exact hstep _ _ _ ih hg hs

/-- Guarded runs are runs. -/
theorem System.ReachedWhile.reachable {M : System σ α} {guard : σ → α → Prop} {s : σ}
    (h : M.ReachedWhile guard s) : M.Reachable s :=
  h.invariant (fun _ hs => .init hs) (fun _ _ _ hi _ hs => .step hi trivial hs)

/-- **Invariant rule** for all runs. -/
theorem System.Reachable.invariant {M : System σ α} {I : σ → Prop}
    (hinit : ∀ s, M.init s → I s) (hstep : ∀ s a t, I s → M.step s a t → I t)
    {s : σ} (h : M.Reachable s) : I s :=
  ReachedWhile.invariant hinit (fun s a t hi _ hs => hstep s a t hi hs) h

/-- Execute a partial step function on the labels `as`. -/
def runFun (f : σ → α → Option σ) (s : σ) (as : List α) : Option σ := as.foldlM f s

theorem runFun_cons (f : σ → α → Option σ) (s : σ) (a : α) (as : List α) :
    runFun f s (a :: as) = (f s a).bind fun t => runFun f t as := rfl

/-- A run whose first step is known. -/
theorem runFun_cons_of_eq {f : σ → α → Option σ} {s t : σ} {a : α} (h : f s a = some t)
    (as : List α) : runFun f s (a :: as) = runFun f t as := by
  rw [runFun_cons, h]
  rfl

theorem runFun_append (f : σ → α → Option σ) (s : σ) (as bs : List α) :
    runFun f s (as ++ bs) = (runFun f s as).bind fun t => runFun f t bs := List.foldlM_append

/-- A step function that refuses what does not meet the guard. -/
def guarded (guard : σ → α → Prop) [∀ s a, Decidable (guard s a)] (f : σ → α → Option σ) :
    σ → α → Option σ :=
  fun s a => if guard s a then f s a else none

/-- An executed guarded run ends in a state that guarded runs reach. -/
theorem reachedWhile_of_runFun {guard : σ → α → Prop} [∀ s a, Decidable (guard s a)]
    {init : σ → Prop} {f : σ → α → Option σ} (as : List α) {s t : σ}
    (hs : (System.ofFunFrom init f).ReachedWhile guard s)
    (h : runFun (guarded guard f) s as = some t) :
    (System.ofFunFrom init f).ReachedWhile guard t := by
  induction as generalizing s with
  | nil =>
    cases h
    exact hs
  | cons a as ih =>
    simp only [runFun, List.foldlM_cons, guarded] at h
    by_cases hg : guard s a
    · rw [if_pos hg] at h
      cases ha : f s a with
      | none => simp [ha] at h
      | some u =>
        simp only [ha] at h
        exact ih (.step hs hg ha) h
    · simp [hg] at h

/-- **Invariant rule** for an executed run. -/
theorem runFun_invariant {f : σ → α → Option σ} {as : List α} {I : σ → Prop} {s t : σ} (hs : I s)
    (hstep : ∀ a ∈ as, ∀ u v, I u → f u a = some v → I v) (h : runFun f s as = some t) : I t := by
  induction as generalizing s with
  | nil =>
    cases h
    exact hs
  | cons a as ih =>
    rw [runFun_cons] at h
    obtain ⟨u, hu, h⟩ := Option.bind_eq_some_iff.mp h
    have hiu := hstep a (List.mem_cons_self ..) s u hs hu
    exact ih hiu (fun b hb => hstep b (List.mem_cons_of_mem _ hb)) h

/-- An executed run ends in a reachable state. -/
theorem reachable_of_runFun {init : σ → Prop} {f : σ → α → Option σ} (as : List α) {s t : σ}
    (hs : (System.ofFunFrom init f).Reachable s) (h : runFun f s as = some t) :
    (System.ofFunFrom init f).Reachable t := by
  have hf : guarded (fun _ _ => True) f = f := by
    funext s a
    exact if_pos trivial
  rw [← hf] at h
  exact reachedWhile_of_runFun as hs h

/-- An executed guarded run whose last state passes a test reaches such a state. -/
theorem exists_reachedWhile_of_runFun {guard : σ → α → Prop} [∀ s a, Decidable (guard s a)]
    {init : σ → Prop} {f : σ → α → Option σ} (as : List α) {s : σ} (test : σ → Bool)
    (hs : (System.ofFunFrom init f).ReachedWhile guard s)
    (h : (runFun (guarded guard f) s as).any test = true) :
    ∃ t, (System.ofFunFrom init f).ReachedWhile guard t ∧ test t = true := by
  obtain ⟨t, ht, htest⟩ := (Option.any_eq_true ..).mp h
  exact ⟨t, reachedWhile_of_runFun as hs ht, htest⟩

/-- An executed run whose last state passes a test reaches such a state. -/
theorem exists_reachable_of_runFun {init : σ → Prop} {f : σ → α → Option σ} (as : List α) {s : σ}
    (test : σ → Bool) (hs : (System.ofFunFrom init f).Reachable s)
    (h : (runFun f s as).any test = true) :
    ∃ t, (System.ofFunFrom init f).Reachable t ∧ test t = true := by
  obtain ⟨t, ht, htest⟩ := (Option.any_eq_true ..).mp h
  exact ⟨t, reachable_of_runFun as hs ht, htest⟩

end AvrBridge.Lts
