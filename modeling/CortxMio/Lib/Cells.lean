import CortxMio.Lib.Run
import Mathlib.Data.Set.Function

/-!
# Cells behind an address

Every action belongs to an owner and works on the owner's cell, which it finds by an
address. `CortxMio.Lib.cellStep` is the system of all owners. If owners have different
addresses, each of them might as well have a cell of its own
(`CortxMio.Lib.separate_of_run`): the replies are the same, and so is what is in the
cells.
-/

namespace CortxMio.Lib

variable {ο κ ι α β : Type*} [DecidableEq κ] [DecidableEq ο]

/-- One action: it reads and changes the cell at the address of its owner. -/
def cellStep (owner : α → ο) (act : α → ι → β × ι) (addr : ο → κ) (s : κ → ι) (a : α) :
    Option (β × (κ → ι)) :=
  let r := act a (s (addr (owner a)))
  some (r.1, Function.update s (addr (owner a)) r.2)

variable {owner : α → ο} {act : α → ι → β × ι} {addr : ο → κ} {W : Set ο}

/-- **Owners with different addresses have cells of their own.** -/
theorem separate_of_run (haddr : Set.InjOn addr W) {s s' : κ → ι} {es : List (α × β)}
    (h : Run (StepOf (cellStep owner act addr)) s es s') (hW : ∀ e ∈ es, owner e.1 ∈ W) :
    ∃ t, Run (StepOf (cellStep owner act id)) (fun o => s (addr o)) es t ∧
      ∀ o ∈ W, s' (addr o) = t o := by
  induction h with
  | refl => exact ⟨_, .refl, fun _ _ => rfl⟩
  | @snoc es u v e hrun hstep ih =>
    obtain ⟨t, hrun', hcells⟩ := ih fun f hf => hW f (List.mem_append_left _ hf)
    have he : owner e.1 ∈ W := hW e (by simp)
    obtain ⟨hreply, rfl⟩ : (act e.1 (u (addr (owner e.1)))).1 = e.2 ∧
        Function.update u (addr (owner e.1)) (act e.1 (u (addr (owner e.1)))).2 = v := by
      simpa [StepOf, cellStep] using hstep
    rw [hcells _ he] at hreply ⊢
    refine ⟨Function.update t (owner e.1) (act e.1 (t (owner e.1))).2, hrun'.snoc ?_, ?_⟩
    · simp [StepOf, cellStep, hreply]
    · intro o ho
      by_cases heq : o = owner e.1
      · rw [heq, Function.update_self, Function.update_self]
      · have hne : addr o ≠ addr (owner e.1) := fun h => heq (haddr ho he h)
        rw [Function.update_of_ne hne, Function.update_of_ne heq, hcells o ho]

end CortxMio.Lib
