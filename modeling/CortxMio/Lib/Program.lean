import Mathlib.Order.Basic

/-!
# Programs that may be cut off

A program moves a state and returns a value, or it is cut off on the way: it ends
abnormally, and whatever state it has reached by then stays behind
(`CortxMio.Lib.Prog`). What is said of a program has therefore two postconditions
(`CortxMio.Lib.Triple`): one of what it returns, and one of what it leaves behind when it
is cut off. The rules go with the ways in which programs are put together, and
`CortxMio.Lib.Triple.repeatN` is the one for loops.
-/

namespace CortxMio.Lib

/-- A program on states `σ` that returns an `α`, or is cut off with an `ε`. -/
abbrev Prog (ε σ α : Type) := EStateM ε σ α

variable {ε σ α β τ : Type}

/-- Started in `P`, the program returns with `Q`, or is cut off in `C`. -/
def Triple (P : σ → Prop) (p : Prog ε σ α) (Q : α → σ → Prop) (C : σ → Prop) : Prop :=
  ∀ s, P s → match p s with
    | .ok a s' => Q a s'
    | .error _ s' => C s'

namespace Triple

variable {P P' C C' : σ → Prop} {Q Q' : α → σ → Prop} {R : β → σ → Prop} {p : Prog ε σ α}

theorem pure {a : α} (h : ∀ s, P s → Q a s) : Triple P (pure a : Prog ε σ α) Q C :=
  fun s hs => h s hs

theorem throw {e : ε} (h : ∀ s, P s → C s) : Triple P (throw e : Prog ε σ α) Q C :=
  fun s hs => h s hs

/-- **One program after another.** Whichever of the two is cut off, the same is left
behind. -/
theorem bind {f : α → Prog ε σ β} (hp : Triple P p Q C) (hf : ∀ a, Triple (Q a) (f a) R C) :
    Triple P (p >>= f) R C := by
  intro s hs
  have h := hp s hs
  show match EStateM.bind p f s with
    | .ok b s' => R b s'
    | .error _ s' => C s'
  rw [EStateM.bind]
  cases hrun : p s with
  | ok a s' =>
    rw [hrun] at h
    exact hf a s' h
  | error e s' =>
    rw [hrun] at h
    exact h

/-- More is asked for, less is promised. -/
theorem consequence (h : Triple P p Q C) (hpre : ∀ s, P' s → P s) (hpost : ∀ a s, Q a s → Q' a s)
    (hcut : ∀ s, C s → C' s) : Triple P' p Q' C' := by
  intro s hs
  have h := h s (hpre s hs)
  cases hrun : p s with
  | ok a s' =>
    rw [hrun] at h
    exact hpost a s' h
  | error e s' =>
    rw [hrun] at h
    exact hcut s' h

/-- What is promised in two ways. -/
theorem and (h : Triple P p Q C) (h' : Triple P p Q' C') :
    Triple P p (fun a s => Q a s ∧ Q' a s) (fun s => C s ∧ C' s) := by
  intro s hs
  have h := h s hs
  have h' := h' s hs
  cases hrun : p s with
  | ok a s' =>
    rw [hrun] at h h'
    exact ⟨h, h'⟩
  | error e s' =>
    rw [hrun] at h h'
    exact ⟨h, h'⟩

/-- A fact that does not depend on the state. -/
theorem of_fact {F : Prop} (h : F → Triple P p Q C) : Triple (fun s => F ∧ P s) p Q C :=
  fun s hs => h hs.1 s hs.2

/-- Fix the state a program starts in. -/
theorem of_start (h : ∀ s, P s → Triple (fun t => t = s) p Q C) : Triple P p Q C :=
  fun s hs => h s hs s rfl

/-- Look at the state. -/
theorem get_bind {f : σ → Prog ε σ β} (h : ∀ s, P s → Triple (fun t => t = s) (f s) R C) :
    Triple P (get >>= f) R C := fun s hs => h s hs s rfl

/-- What is promised of a run. -/
theorem ok_of_run (h : Triple P p Q C) {s s' : σ} {a : α} (hs : P s) (hrun : p s = .ok a s') :
    Q a s' := by
  have h := h s hs
  rwa [hrun] at h

theorem error_of_run (h : Triple P p Q C) {s s' : σ} {e : ε} (hs : P s)
    (hrun : p s = .error e s') : C s' := by
  have h := h s hs
  rwa [hrun] at h

/-- A program that is not cut off returns. -/
theorem exists_ok {F : Prop} (h : Triple P p Q fun _ => F) {s : σ} (hs : P s) :
    F ∨ ∃ a s', p s = .ok a s' := by
  have h := h s hs
  cases hrun : p s with
  | ok a s' => exact Or.inr ⟨a, s', rfl⟩
  | error e s' =>
    rw [hrun] at h
    exact Or.inl h

end Triple

/-! ### Loops -/

/-- Run the body of a loop for at most `n` times: a body that returns on the left goes
round again, one that returns on the right leaves the loop. A loop that has not been left
by then is cut off with `stuck`. -/
def repeatN (stuck : ε) (body : τ → Prog ε σ (τ ⊕ α)) : ℕ → τ → Prog ε σ α
  | 0, _ => throw stuck
  | n + 1, t => do
      match ← body t with
      | .inl t' => repeatN stuck body n t'
      | .inr a => pure a

/-- **The rule for loops.** The invariant says what holds with `n` more rounds to go; with
none to go, the loop is cut off. -/
theorem Triple.repeatN_rounds {stuck : ε} {body : τ → Prog ε σ (τ ⊕ α)} {C : σ → Prop}
    {Q : α → σ → Prop} (I : ℕ → τ → σ → Prop)
    (h : ∀ n t, Triple (I (n + 1) t) (body t) (Sum.elim (I n) Q) C)
    (hstuck : ∀ t s, I 0 t s → C s) (n : ℕ) (t : τ) :
    Triple (I n t) (Lib.repeatN stuck body n t) Q C := by
  induction n generalizing t with
  | zero => exact Triple.throw (hstuck t)
  | succ n ih =>
    refine Triple.bind (h n t) fun r => ?_
    cases r with
    | inl t' => exact ih t'
    | inr a => exact Triple.pure fun s hs => hs

/-- **The rule for loops that come to an end**: with a measure that every round lowers and
enough rounds, the loop is left, unless it is cut off in its body. -/
theorem Triple.repeatN {stuck : ε} {body : τ → Prog ε σ (τ ⊕ α)} {C : σ → Prop}
    {Q : α → σ → Prop} (I : τ → σ → Prop) (μ : τ → ℕ)
    (h : ∀ t, Triple (I t) (body t) (Sum.elim (fun t' s => μ t' < μ t ∧ I t' s) Q) C) (n : ℕ)
    (t : τ) (hn : μ t < n) : Triple (I t) (Lib.repeatN stuck body n t) Q C := by
  refine (Triple.repeatN_rounds (fun n t s => μ t < n ∧ I t s) (fun n t => ?_) ?_ n t).consequence
    (fun s hs => ⟨hn, hs⟩) (fun _ _ hq => hq) fun _ hc => hc
  · refine Triple.of_fact fun hlt => (h t).consequence (fun _ hs => hs) ?_ fun _ hc => hc
    rintro (t' | a) s hs
    · exact ⟨by have := hs.1; omega, hs.2⟩
    · exact hs
  · rintro t s ⟨hlt, -⟩
    exact absurd hlt (Nat.not_lt_zero _)

end CortxMio.Lib
