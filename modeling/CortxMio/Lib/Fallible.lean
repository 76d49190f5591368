import Mathlib.Logic.Basic

/-!
# Computations that may fail

Rules for computations in `Except`. A composition succeeds when both of its parts do
(`CortxMio.Lib.bind_eq_ok_iff`), and what every step of a fold keeps, if it succeeds, is
kept by the fold (`CortxMio.Lib.foldlM_inv`).
-/

namespace CortxMio.Lib

universe u v w

variable {ε : Type u} {α β : Type v}

theorem ok_bind (a : α) (f : α → Except ε β) : (Except.ok a >>= f) = f a := rfl

theorem some_bind (a : α) (f : α → Option β) : (some a >>= f) = f a := rfl

/-- Both parts of a composition that succeeds do. -/
theorem bind_eq_ok_iff {x : Except ε α} {f : α → Except ε β} {b : β} :
    (x >>= f) = .ok b ↔ ∃ a, x = .ok a ∧ f a = .ok b := by
  cases x with
  | error e => simp [bind, Except.bind]
  | ok a => simp [bind, Except.bind]

/-- A part of a result is one of a computation that succeeds. -/
theorem map_eq_ok_iff {x : Except ε α} {f : α → β} {b : β} :
    x.map f = .ok b ↔ ∃ a, x = .ok a ∧ f a = b := by
  cases x with
  | error e => simp [Except.map]
  | ok a => simp [Except.map]

/-- **The invariant rule for folds.** -/
theorem foldlM_inv {α : Type w} {f : β → α → Except ε β} {I : β → Prop}
    (hstep : ∀ b a b', f b a = .ok b' → I b → I b') :
    ∀ {l : List α} {b b' : β}, l.foldlM f b = .ok b' → I b → I b' := by
  intro l
  induction l with
  | nil =>
    intro b b' h hb
    obtain rfl := Except.ok.inj h
    exact hb
  | cons a l ih =>
    intro b b' h hb
    rw [List.foldlM_cons] at h
    obtain ⟨c, hc, h⟩ := bind_eq_ok_iff.mp h
    exact ih h (hstep b a c hc hb)

end CortxMio.Lib
