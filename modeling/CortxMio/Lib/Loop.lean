import Mathlib.Order.Basic

/-!
# Loops with a fuel bound, and their total-correctness rule

A loop is a step function `σ → σ ⊕ ρ`: a state either goes on to another state
or stops with a result. `CortxMio.Lib.loopN` runs it for a bounded number of
steps, so that it can be evaluated, and
`CortxMio.Lib.loopN_spec` is the rule under which the bound is no restriction:
an invariant kept by every step, a measure that every step lowers, and a
postcondition that holds of every result.

A loop that may never stop is followed state by state (`CortxMio.Lib.after`), and
what it stops with, if it does, is `CortxMio.Lib.Stops`. All states of a run at
once are its `CortxMio.Lib.trace`.
-/

namespace CortxMio

namespace Lib

variable {σ ρ : Type*}

/-- Run a loop for at most `n` steps; `none` when it has not stopped by then. -/
def loopN (step : σ → σ ⊕ ρ) : ℕ → σ → Option ρ
  | 0, _ => none
  | n + 1, s => match step s with
      | .inl s' => loopN step n s'
      | .inr r => some r

/-- **The rule for loops.** With an invariant `I`, a measure `μ` and enough fuel
the loop stops, and its result satisfies the postcondition. -/
theorem loopN_spec (step : σ → σ ⊕ ρ) (I : σ → Prop) (μ : σ → ℕ) (Q : ρ → Prop)
    (hnext : ∀ s s', I s → step s = .inl s' → I s' ∧ μ s' < μ s)
    (hdone : ∀ s r, I s → step s = .inr r → Q r) :
    ∀ (n : ℕ) (s : σ), I s → μ s < n → ∃ r, loopN step n s = some r ∧ Q r := by
  intro n
  induction n with
  | zero =>
    intro s _ hn
    omega
  | succ n ih =>
    intro s hI hn
    rw [loopN]
    cases hs : step s with
    | inl s' =>
      obtain ⟨hI', hμ⟩ := hnext s s' hI hs
      exact ih s' hI' (by omega)
    | inr r => exact ⟨r, rfl, hdone s r hI hs⟩

/-- **The rule for loops that do stop**: the invariant alone gives the
postcondition of whatever result is reached. -/
theorem loopN_inv (step : σ → σ ⊕ ρ) (I : σ → Prop) (Q : ρ → Prop)
    (hnext : ∀ s s', I s → step s = .inl s' → I s')
    (hdone : ∀ s r, I s → step s = .inr r → Q r) :
    ∀ (n : ℕ) (s : σ) (r : ρ), I s → loopN step n s = some r → Q r := by
  intro n
  induction n with
  | zero =>
    intro s r _ h
    simp [loopN] at h
  | succ n ih =>
    intro s r hI h
    rw [loopN] at h
    cases hs : step s with
    | inl s' =>
      rw [hs] at h
      exact ih s' r (hnext s s' hI hs) h
    | inr r' =>
      rw [hs] at h
      obtain rfl : r' = r := by simpa using h
      exact hdone s r' hI hs

/-! ### Loops that need not stop -/

/-- The state before the `n + 1`-st step; `none` when the loop has stopped by
then. -/
def after (step : σ → σ ⊕ ρ) (s : σ) : ℕ → Option σ
  | 0 => some s
  | n + 1 => match after step s n with
      | none => none
      | some t => match step t with
          | .inl u => some u
          | .inr _ => none

/-- The loop stops at its `n + 1`-st step, with the result `r`. -/
def Stops (step : σ → σ ⊕ ρ) (s : σ) (n : ℕ) (r : ρ) : Prop :=
  ∃ t, after step s n = some t ∧ step t = .inr r

section After

variable {step : σ → σ ⊕ ρ} {s t u : σ} {n m : ℕ} {r r' : ρ}

/-- One step more. -/
theorem after_succ (ht : after step s n = some t) (hstep : step t = .inl u) :
    after step s (n + 1) = some u := by
  simp only [after, ht, hstep]

/-- Where a state comes from. -/
theorem after_succ_inv (h : after step s (n + 1) = some u) :
    ∃ t, after step s n = some t ∧ step t = .inl u := by
  simp only [after] at h
  split at h
  · exact absurd h (by simp)
  · next t ht =>
    split at h
    · next hstep => exact ⟨t, ht, by simpa [hstep] using h⟩
    · exact absurd h (by simp)

/-- The first step leads to where the rest starts. -/
theorem after_of_step (hstep : step s = .inl t) : ∀ n, after step s (n + 1) = after step t n := by
  intro n
  induction n with
  | zero => simp only [after, hstep]
  | succ n ih => rw [after, ih, after]

/-- A state that is passed has all the ones before it passed. -/
theorem after_le (h : after step s n = some t) (hm : m ≤ n) : ∃ u, after step s m = some u := by
  induction n generalizing t with
  | zero =>
    obtain rfl : m = 0 := by omega
    exact ⟨t, h⟩
  | succ n ih =>
    by_cases hmn : m = n + 1
    · exact ⟨t, hmn ▸ h⟩
    · obtain ⟨u, hu, -⟩ := after_succ_inv h
      exact ih hu (by omega)

/-- After a loop has stopped there is no further state. -/
theorem Stops.le (h : Stops step s n r) (hm : after step s m = some t) : m ≤ n := by
  by_contra hlt
  obtain ⟨u, hu⟩ := after_le hm (show n + 1 ≤ m by omega)
  obtain ⟨v, hv, hstep⟩ := after_succ_inv hu
  obtain ⟨v', hv', hstep'⟩ := h
  obtain rfl : v = v' := Option.some.inj (hv.symm.trans hv')
  rw [hstep] at hstep'
  exact absurd hstep' (by simp)

/-- A loop stops once. -/
theorem Stops.unique (h : Stops step s n r) (h' : Stops step s m r') : n = m ∧ r = r' := by
  obtain ⟨t, ht, hstep⟩ := h
  obtain ⟨t', ht', hstep'⟩ := h'
  obtain rfl : n = m :=
    Nat.le_antisymm (Stops.le ⟨t', ht', hstep'⟩ ht) (Stops.le ⟨t, ht, hstep⟩ ht')
  obtain rfl : t = t' := Option.some.inj (ht.symm.trans ht')
  exact ⟨rfl, Sum.inr.inj (hstep.symm.trans hstep')⟩

/-- A loop may stop at once. -/
theorem Stops.here (hstep : step s = .inr r) : Stops step s 0 r := ⟨s, rfl, hstep⟩

/-- A loop that goes on stops when the rest of it does. -/
theorem Stops.later (hstep : step s = .inl t) (h : Stops step t n r) : Stops step s (n + 1) r := by
  obtain ⟨u, hu, hr⟩ := h
  exact ⟨u, by rwa [after_of_step hstep], hr⟩

/-- A bounded run gives the result of the loop. -/
theorem stops_of_loopN (h : loopN step n s = some r) : ∃ m, Stops step s m r := by
  induction n generalizing s with
  | zero => exact absurd h (by simp [loopN])
  | succ n ih =>
    rw [loopN] at h
    cases hs : step s with
    | inl t =>
      rw [hs] at h
      obtain ⟨m, hm⟩ := ih h
      exact ⟨m + 1, hm.later hs⟩
    | inr r' =>
      rw [hs] at h
      obtain rfl : r' = r := by simpa using h
      exact ⟨0, .here hs⟩

/-- A bounded run stops within its bound. -/
theorem stops_lt_of_loopN (h : loopN step n s = some r) : ∃ m < n, Stops step s m r := by
  induction n generalizing s with
  | zero => exact absurd h (by simp [loopN])
  | succ n ih =>
    rw [loopN] at h
    cases hs : step s with
    | inl t =>
      rw [hs] at h
      obtain ⟨m, hlt, hm⟩ := ih h
      exact ⟨m + 1, Nat.succ_lt_succ hlt, hm.later hs⟩
    | inr r' =>
      rw [hs] at h
      obtain rfl : r' = r := by simpa using h
      exact ⟨0, Nat.succ_pos n, .here hs⟩

end After

/-! ### What a loop goes through -/

/-- The states a loop goes through in at most `n` steps, and what it stops with. -/
def trace (step : σ → σ ⊕ ρ) : ℕ → σ → Option (List σ × ρ)
  | 0, _ => none
  | n + 1, s => match step s with
      | .inl t => (trace step n t).map fun p => (s :: p.1, p.2)
      | .inr r => some ([s], r)

section Trace

variable {step : σ → σ ⊕ ρ} {s t : σ} {n : ℕ} {r : ρ} {ss : List σ}

theorem trace_stop (hstep : step s = .inr r) (n : ℕ) : trace step (n + 1) s = some ([s], r) := by
  simp only [trace, hstep]

theorem trace_next (hstep : step s = .inl t) (h : trace step n t = some (ss, r)) :
    trace step (n + 1) s = some (s :: ss, r) := by
  simp only [trace, hstep, h, Option.map_some]

end Trace

end Lib

end CortxMio
