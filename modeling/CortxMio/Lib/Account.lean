import CortxMio.Lib.Run
import Mathlib

/-!
# What a run leaves as it was, and what it uses up

Two ways in which a quantity of a system goes along with its runs. An account that every
step leaves as it was, but for what the event of the step is worth, tells what has happened
so far from what there is now (`CortxMio.Lib.Run.balance`). A rank that every step lowers, but
for events that are free, bounds how long a run can be (`CortxMio.Lib.Run.length_le`), and
takes a system that is never stuck to its end (`CortxMio.Lib.exists_run_end`).

Where the system is made of threads, quantities are sums over the places where the threads
are, and a thread that moves takes its part with it (`CortxMio.Lib.sum_map_set`).
-/

namespace CortxMio.Lib

/-! ### Sums over threads -/

section Threads

variable {π M : Type*}

/-- **A thread that moves** takes its part of a sum with it. -/
theorem sum_map_set [AddCommMonoid M] {l : List π} {i : ℕ} {p : π} (h : l[i]? = some p) (q : π)
    (f : π → M) : ((l.set i q).map f).sum + f p = (l.map f).sum + f q := by
  induction l generalizing i with
  | nil => exact absurd h (by simp)
  | cons x l ih =>
    cases i with
    | zero =>
      obtain rfl : x = p := by simpa using h
      rw [List.set_cons_zero, List.map_cons, List.map_cons, List.sum_cons, List.sum_cons,
        add_right_comm, add_comm (f q), add_right_comm, add_comm (f x)]
    | succ i =>
      rw [List.set_cons_succ, List.map_cons, List.map_cons, List.sum_cons, List.sum_cons,
        add_assoc, ih (by simpa using h), add_assoc]

/-- The other threads stay where they are. -/
theorem mem_set_of_ne {l : List π} {i : ℕ} {p q r : π} (h : l[i]? = some p) (hmem : r ∈ l)
    (hne : r ≠ p) : r ∈ l.set i q := by
  obtain ⟨j, hj⟩ := List.mem_iff_getElem?.mp hmem
  have hji : i ≠ j := by
    rintro rfl
    exact hne (Option.some.inj (hj.symm.trans h))
  exact List.mem_iff_getElem?.mpr ⟨j, by rw [List.getElem?_set_ne hji]; exact hj⟩

/-- Threads that all move at once, none of them for more than `c`. -/
theorem sum_map_map_le (l : List π) {f : π → ℕ} {g : π → π} {c : ℕ}
    (h : ∀ p, f (g p) ≤ f p + c) : ((l.map g).map f).sum ≤ (l.map f).sum + c * l.length := by
  induction l with
  | nil => exact le_rfl
  | cons p l ih =>
    have hp := h p
    simp only [List.map_cons, List.sum_cons, List.length_cons, Nat.mul_succ]
    omega

/-- Threads that have nothing. -/
theorem sum_map_eq_zero [AddCommMonoid M] {l : List π} {f : π → M} (h : ∀ p ∈ l, f p = 0) :
    (l.map f).sum = 0 :=
  List.sum_eq_zero fun x hx => by
    obtain ⟨p, hp, rfl⟩ := List.mem_map.mp hx
    exact h p hp

/-- What one thread has is no more than what all have. -/
theorem le_sum_map {l : List π} {f : π → ℤ} (h : ∀ p ∈ l, 0 ≤ f p) :
    0 ≤ (l.map f).sum ∧ ∀ p ∈ l, f p ≤ (l.map f).sum := by
  have hnonneg : ∀ x ∈ l.map f, 0 ≤ x := fun x hx => by
    obtain ⟨p, hp, rfl⟩ := List.mem_map.mp hx
    exact h p hp
  exact ⟨List.sum_nonneg hnonneg,
    fun p hp => List.single_le_sum hnonneg _ (List.mem_map_of_mem hp)⟩

end Threads

section Runs

variable {σ ε : Type*} {Step : σ → ε → σ → Prop}

/-! ### Accounts -/

/-- Every step takes out of the account what its event is worth. -/
def Balanced (Step : σ → ε → σ → Prop) (total : σ → ℤ) (worth : ε → ℤ) : Prop :=
  ∀ s e t, Step s e t → total t + worth e = total s

/-- **The account of a run**: what there is and what has been taken out is what there was. -/
theorem Run.balance {total : σ → ℤ} {worth : ε → ℤ} (hb : Balanced Step total worth) {s t : σ}
    {es : List ε} (h : Run Step s es t) : total t + (es.map worth).sum = total s := by
  induction h with
  | refl => simp
  | snoc _ hstep ih =>
    have hlast := hb _ _ _ hstep
    rw [List.map_append, List.sum_append, List.map_singleton, List.sum_singleton]
    omega

/-- Where an event is worth one or minus one, the events are counted. -/
theorem sum_map_worth {worth : ε → ℤ} {p q : ε → Bool}
    (h : ∀ e, worth e = (if p e then 1 else 0) - if q e then 1 else 0) (es : List ε) :
    (es.map worth).sum = (es.countP p : ℤ) - es.countP q := by
  induction es with
  | nil => simp
  | cons e es ih =>
    rw [List.map_cons, List.sum_cons, ih, h, List.countP_cons, List.countP_cons]
    cases p e <;> cases q e <;> simp <;> omega

/-! ### Ranks -/

/-- Every step lowers the rank, but for events that are free, which raise it by less than
`c`. -/
def Ranked (Step : σ → ε → σ → Prop) (rank : σ → ℕ) (free : ε → Bool) (c : ℕ) : Prop :=
  ∀ s e t, Step s e t → rank t + 1 ≤ rank s + if free e then c else 0

variable {rank : σ → ℕ} {free : ε → Bool} {c : ℕ}

/-- **A run is no longer than its rank**, but for free events. -/
theorem Run.length_le (hr : Ranked Step rank free c) {s t : σ} {es : List ε}
    (h : Run Step s es t) : es.length + rank t ≤ rank s + c * es.countP free := by
  induction h with
  | refl => simp
  | @snoc es t u e _ hstep ih =>
    have hlast := hr _ _ _ hstep
    rw [List.length_append, List.length_singleton, List.countP_append, List.countP_singleton,
      Nat.mul_add]
    split at hlast
    · next hfree =>
      rw [if_pos hfree]
      omega
    · next hfree =>
      rw [if_neg hfree]
      omega

/-- **Every run can come to an end**: if what is not at its end can go on, and not only with
free events, then each run goes on to its end. -/
theorem exists_run_end (hr : Ranked Step rank free c) {s : σ} {End : σ → Prop}
    (hlive : ∀ es t, Run Step s es t → End t ∨ ∃ e u, free e = false ∧ Step t e u) {es : List ε}
    {t : σ} (hrun : Run Step s es t) : ∃ es' u, Run Step t es' u ∧ End u := by
  induction hm : rank t using Nat.strong_induction_on generalizing es t with
  | _ m ih =>
    rcases hlive es t hrun with hend | ⟨e, u, hfree, hstep⟩
    · exact ⟨[], t, .refl, hend⟩
    · have hlt := hr _ _ _ hstep
      rw [if_neg (by simp [hfree])] at hlt
      obtain ⟨es', v, hrest, hv⟩ := ih (rank u) (by omega) (hrun.snoc hstep) rfl
      exact ⟨[e] ++ es', v, (Run.refl.snoc hstep).append hrest, hv⟩

end Runs

end CortxMio.Lib
