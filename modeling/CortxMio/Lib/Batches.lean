import Mathlib.Algebra.Group.Action.Defs
import Mathlib.Algebra.Order.Ring.Nat
import Mathlib.Algebra.Order.BigOperators.Group.List

/-!
# Cutting a list into batches

A list of things of some size is cut into batches of at most a given total size,
each as large as possible (`CortxMio.Lib.Greedy`). What is left over starts with a
thing that is too large for any batch. A list is cut batch by batch
(`CortxMio.Lib.Greedy.cons`), and there is something left over exactly if
something is too large (`CortxMio.Lib.Greedy.rest_eq_nil_iff`).
-/

namespace CortxMio

namespace Lib

variable {α : Type*}

/-- **The list is cut into batches**, up to the rest. -/
structure Greedy (size : α → ℕ) (max : ℕ) (as : List α) (bs : List (List α)) (rest : List α) :
    Prop where
  /-- The batches and the rest are the list. -/
  split : bs.flatten ++ rest = as
  /-- No batch is empty. -/
  ne_nil : ∀ b ∈ bs, b ≠ []
  /-- No batch is too large. -/
  le : ∀ b ∈ bs, (b.map size).sum ≤ max
  /-- What comes after a batch does not fit into it. -/
  maximal : ∀ (pre : List (List α)) (b : List α) (post : List (List α)), bs = pre ++ b :: post →
    ∀ a ∈ (post.flatten ++ rest).head?, max < (b.map size).sum + size a
  /-- The rest starts with something too large. -/
  stuck : ∀ a ∈ rest.head?, max < size a

namespace Greedy

variable {size : α → ℕ} {max : ℕ} {as rest b : List α} {bs : List (List α)} {a : α}

/-- No batches. -/
theorem none (h : ∀ a ∈ as.head?, max < size a) : Greedy size max as [] as where
  split := rfl
  ne_nil b hb := absurd hb List.not_mem_nil
  le b hb := absurd hb List.not_mem_nil
  maximal pre b post h := absurd h (by simp)
  stuck := h

/-- One batch more, at the front. -/
theorem cons (hne : b ≠ []) (hle : (b.map size).sum ≤ max)
    (hmax : ∀ a ∈ as.head?, max < (b.map size).sum + size a) (h : Greedy size max as bs rest) :
    Greedy size max (b ++ as) (b :: bs) rest where
  split := by rw [List.flatten_cons, List.append_assoc, h.split]
  ne_nil := List.forall_mem_cons.mpr ⟨hne, h.ne_nil⟩
  le := List.forall_mem_cons.mpr ⟨hle, h.le⟩
  maximal pre c post heq a ha := by
    cases pre with
    | nil =>
      obtain ⟨rfl, rfl⟩ := List.cons.inj heq
      rw [h.split] at ha
      exact hmax a ha
    | cons d pre =>
      obtain ⟨-, rfl⟩ := List.cons.inj heq
      exact h.maximal pre c post rfl a ha
  stuck := h.stuck

/-- There are no more batches than things. -/
theorem length_le (h : Greedy size max as bs rest) : bs.length ≤ as.length := by
  have hone : ∀ n ∈ bs.map List.length, 1 ≤ n := by
    intro n hn
    obtain ⟨b, hb, rfl⟩ := List.mem_map.mp hn
    exact List.length_pos_of_ne_nil (h.ne_nil b hb)
  have hsum := List.card_nsmul_le_sum (bs.map List.length) 1 hone
  have hlen : as.length = (bs.map List.length).sum + rest.length := by
    rw [← h.split, List.length_append, List.length_flatten]
  rw [List.length_map, smul_eq_mul, mul_one] at hsum
  omega

/-- **Something is left over exactly if something is too large.** -/
theorem rest_eq_nil_iff (h : Greedy size max as bs rest) :
    rest = [] ↔ ∀ a ∈ as, size a ≤ max := by
  constructor
  · rintro rfl a ha
    rw [← h.split, List.append_nil] at ha
    obtain ⟨b, hb, hab⟩ := List.mem_flatten.mp ha
    exact le_trans (List.single_le_sum (fun _ _ => Nat.zero_le _) _ (List.mem_map_of_mem hab))
      (h.le b hb)
  · intro hall
    cases hrest : rest with
    | nil => rfl
    | cons a r =>
      have hmem : a ∈ as := by
        rw [← h.split, hrest]
        simp
      have hlt := h.stuck a (by simp [hrest])
      exact absurd (hall a hmem) (by omega)

end Greedy

end Lib

end CortxMio
