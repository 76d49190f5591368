import Mathlib.Logic.Basic

/-!
# Runs of a transition system

A system is a relation between a state, what happens, and the state after it. A
run is a list of events that take one state to another; it grows at its end, so
that an invariant may speak of everything that has happened so far
(`CortxMio.Lib.Run.inv`). A system given by a function can be executed, and what
is executed is a run (`CortxMio.Lib.run_of_exec`), and the other way round
(`CortxMio.Lib.exec_of_run`).
-/

namespace CortxMio.Lib

section Run

variable {σ ε : Type*} {Step : σ → ε → σ → Prop}

/-- A run of events from one state to another. -/
inductive Run (Step : σ → ε → σ → Prop) (s : σ) : List ε → σ → Prop
  /-- Nothing has happened. -/
  | refl : Run Step s [] s
  /-- One more event. -/
  | snoc {es : List ε} {t u : σ} {e : ε} :
      Run Step s es t → Step t e u → Run Step s (es ++ [e]) u

/-- **The invariant rule**: what holds at the start, of an empty history, and is
kept by every step, holds after every run. -/
theorem Run.inv (Inv : List ε → σ → Prop) {s : σ} (init : Inv [] s)
    (step : ∀ es e t u, Inv es t → Step t e u → Inv (es ++ [e]) u)
    {es : List ε} {t : σ} (h : Run Step s es t) : Inv es t := by
  induction h with
  | refl => exact init
  | snoc _ hstep ih => exact step _ _ _ _ ih hstep

/-- A run of one system is a run of any that can do as much. -/
theorem Run.mono {Step' : σ → ε → σ → Prop} (hstep : ∀ s e t, Step s e t → Step' s e t) {s t : σ}
    {es : List ε} (h : Run Step s es t) : Run Step' s es t := by
  induction h with
  | refl => exact .refl
  | snoc _ hlast ih => exact ih.snoc (hstep _ _ _ hlast)

/-- A run after a run. -/
theorem Run.append {s t u : σ} {es es' : List ε} (h : Run Step s es t) (h' : Run Step t es' u) :
    Run Step s (es ++ es') u := by
  induction h' with
  | refl => rwa [List.append_nil]
  | snoc _ hstep ih =>
    rw [← List.append_assoc]
    exact ih.snoc hstep

end Run

section Exec

variable {σ α β : Type*}

/-- The steps of a system in which what is done determines, if it can be done at
all, what comes of it: an event is the one together with the other. -/
def StepOf (step : σ → α → Option (β × σ)) (s : σ) (e : α × β) (t : σ) : Prop :=
  step s e.1 = some (e.2, t)

/-- Do one thing after the other. -/
def exec (step : σ → α → Option (β × σ)) : σ → List α → Option (List (α × β) × σ)
  | s, [] => some ([], s)
  | s, a :: as =>
      match step s a with
      | none => none
      | some (b, t) =>
          match exec step t as with
          | none => none
          | some (es, u) => some ((a, b) :: es, u)

/-- **What is executed is a run.** -/
theorem run_of_exec {step : σ → α → Option (β × σ)} (as : List α) {s u : σ} {es : List (α × β)}
    (h : exec step s as = some (es, u)) : Run (StepOf step) s es u := by
  induction as generalizing s es with
  | nil =>
    obtain ⟨rfl, rfl⟩ : [] = es ∧ s = u := by simpa [exec] using h
    exact .refl
  | cons a as ih =>
    rw [exec] at h
    split at h
    · exact absurd h (by simp)
    · next b t hstep =>
      split at h
      · exact absurd h (by simp)
      · next es' u' hexec =>
        obtain ⟨rfl, rfl⟩ : (a, b) :: es' = es ∧ u' = u := by simpa using h
        exact (Run.refl.snoc (show StepOf step s (a, b) t from hstep)).append (ih hexec)

theorem exec_snoc {step : σ → α → Option (β × σ)} {a : α} {b : β} {t u : σ} :
    ∀ {as : List α} {s : σ} {es : List (α × β)}, exec step s as = some (es, t) →
      step t a = some (b, u) → exec step s (as ++ [a]) = some (es ++ [(a, b)], u) := by
  intro as
  induction as with
  | nil =>
    intro s es h hstep
    obtain ⟨rfl, rfl⟩ : [] = es ∧ s = t := by simpa [exec] using h
    simp [exec, hstep]
  | cons a' as ih =>
    intro s es h hstep
    rw [exec] at h
    split at h
    · exact absurd h (by simp)
    · next b' t' hfirst =>
      split at h
      · exact absurd h (by simp)
      · next es' u' hexec =>
        obtain ⟨rfl, rfl⟩ : (a', b') :: es' = es ∧ u' = t := by simpa using h
        simp [exec, hfirst, ih hexec hstep]

/-- **A run is what is executed.** -/
theorem exec_of_run {step : σ → α → Option (β × σ)} {s u : σ} {es : List (α × β)}
    (h : Run (StepOf step) s es u) : exec step s (es.map Prod.fst) = some (es, u) := by
  induction h with
  | refl => rfl
  | snoc _ hstep ih =>
    rw [List.map_append]
    exact exec_snoc ih hstep

/-- The events are what has been done. -/
theorem map_fst_of_exec {step : σ → α → Option (β × σ)} {as : List α} {s u : σ}
    {es : List (α × β)} (h : exec step s as = some (es, u)) : es.map Prod.fst = as := by
  induction as generalizing s es with
  | nil =>
    obtain ⟨rfl, -⟩ : [] = es ∧ s = u := by simpa [exec] using h
    rfl
  | cons a as ih =>
    rw [exec] at h
    split at h
    · exact absurd h (by simp)
    · split at h
      · exact absurd h (by simp)
      · next es' u' hexec =>
        obtain ⟨rfl, rfl⟩ : (a, _) :: es' = es ∧ u' = u := by simpa using h
        rw [List.map_cons, ih hexec]

end Exec

end CortxMio.Lib
