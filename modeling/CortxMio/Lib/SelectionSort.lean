import Mathlib.Data.List.Basic
import Mathlib.Data.List.GetD
import Mathlib.Order.Lattice

/-!
# Selection sort by swapping

The array version of selection sort: position by position, find the first least
key from there on and swap it into place. The position already handled is never
looked at again, so the function below recurses on the part of the array that is
still unsorted; the two indices of a swap are then the head of that part and the
index the scan returned.

`CortxMio.Lib.selectionSort_perm` and `CortxMio.Lib.selectionSort_sorted` are
the two halves of its correctness.
-/

namespace CortxMio

namespace Lib

variable {α κ : Type*} [LinearOrder κ] (key : α → κ)

/-- The scan for the least key: `minIdx` and `minKey` are the best so far, `j`
the index of the next element. Only a strictly smaller key replaces the best. -/
def scanMin (minIdx : ℕ) (minKey : κ) : ℕ → List α → ℕ
  | _, [] => minIdx
  | j, y :: ys => if key y < minKey then scanMin j (key y) (j + 1) ys
      else scanMin minIdx minKey (j + 1) ys

/-- Selection sort on an array of length `n`. -/
def selectionSortN : ℕ → List α → List α
  | 0, l => l
  | _ + 1, [] => []
  | n + 1, x :: xs =>
      match scanMin key 0 (key x) 1 xs with
      | 0 => x :: selectionSortN n xs
      | m + 1 => xs.getD m x :: selectionSortN n (xs.set m x)

/-- Selection sort. -/
def selectionSort (l : List α) : List α := selectionSortN key l.length l

/-! ### The scan -/

/-- The element at an index of the scanned list, counted from the element that
stands before it. -/
theorem scanMin_spec (x : α) : ∀ (l pre : List α) (minIdx : ℕ),
    minIdx ≤ pre.length →
    (∀ y ∈ x :: pre, key ((x :: pre).getD minIdx x) ≤ key y) →
    scanMin key minIdx (key ((x :: pre).getD minIdx x)) (pre.length + 1) l ≤ (pre ++ l).length ∧
    ∀ y ∈ x :: (pre ++ l),
      key ((x :: (pre ++ l)).getD
        (scanMin key minIdx (key ((x :: pre).getD minIdx x)) (pre.length + 1) l) x) ≤ key y := by
  intro l
  induction l with
  | nil =>
    intro pre minIdx hle hmin
    rw [scanMin, List.append_nil]
    exact ⟨hle, hmin⟩
  | cons z zs ih =>
    intro pre minIdx hle hmin
    have happ : pre ++ z :: zs = (pre ++ [z]) ++ zs := by simp
    have hlen : (pre ++ [z]).length + 1 = pre.length + 1 + 1 := by simp
    -- an index into the old prefix reads the same in the extended one
    have hold : (x :: (pre ++ [z])).getD minIdx x = (x :: pre).getD minIdx x := by
      rw [← List.cons_append, List.getD_append _ _ _ _ (by simpa using Nat.lt_succ_of_le hle)]
    have hnew : (x :: (pre ++ [z])).getD (pre.length + 1) x = z := by
      simp
    rw [scanMin, happ]
    by_cases hz : key z < key ((x :: pre).getD minIdx x)
    · rw [if_pos hz]
      have h := ih (pre ++ [z]) (pre.length + 1) (by simp) (by
        intro y hy
        rw [hnew]
        rcases List.mem_cons.mp hy with rfl | hy
        · exact (hz.trans_le (hmin y List.mem_cons_self)).le
        rcases List.mem_append.mp hy with hy | hy
        · exact (hz.trans_le (hmin y (List.mem_cons_of_mem _ hy))).le
        · rw [List.mem_singleton.mp hy])
      rw [hnew, hlen] at h
      exact h
    · rw [if_neg hz]
      have h := ih (pre ++ [z]) minIdx (by simp; omega) (by
        intro y hy
        rw [hold]
        rcases List.mem_cons.mp hy with rfl | hy
        · exact hmin y List.mem_cons_self
        rcases List.mem_append.mp hy with hy | hy
        · exact hmin y (List.mem_cons_of_mem _ hy)
        · rw [List.mem_singleton.mp hy]
          exact not_lt.mp hz)
      rw [hold, hlen] at h
      exact h

/-- The scan from the head returns the index of a least key. -/
theorem scanMin_head (x : α) (xs : List α) :
    scanMin key 0 (key x) 1 xs ≤ xs.length ∧
      ∀ y ∈ x :: xs, key ((x :: xs).getD (scanMin key 0 (key x) 1 xs) x) ≤ key y := by
  have h := scanMin_spec key x xs [] 0 (Nat.le_refl _) (by simp)
  simpa using h

/-! ### The sort -/

/-- Swapping the head with an element of the rest loses nothing. -/
theorem getD_cons_set_perm (x : α) : ∀ (xs : List α) (m : ℕ), m < xs.length →
    (xs.getD m x :: xs.set m x).Perm (x :: xs)
  | [], m, h => absurd h (Nat.not_lt_zero m)
  | y :: ys, 0, _ => by
    simpa using List.Perm.swap x y ys
  | y :: ys, m + 1, h => by
    have ih := getD_cons_set_perm x ys m (by simpa using h)
    have h1 : (ys.getD m x :: y :: ys.set m x).Perm (y :: ys.getD m x :: ys.set m x) :=
      List.Perm.swap _ _ _
    have h2 : (y :: x :: ys).Perm (x :: y :: ys) := List.Perm.swap _ _ _
    simpa using h1.trans ((ih.cons y).trans h2)

theorem selectionSortN_perm : ∀ (n : ℕ) (l : List α), (selectionSortN key n l).Perm l := by
  intro n
  induction n with
  | zero => exact fun l => List.Perm.refl l
  | succ n ih =>
    intro l
    cases l with
    | nil => exact List.Perm.refl []
    | cons x xs =>
      have hscan := (scanMin_head key x xs).1
      rw [selectionSortN]
      cases hm : scanMin key 0 (key x) 1 xs with
      | zero => exact (ih xs).cons x
      | succ m =>
        rw [hm] at hscan
        exact ((ih (xs.set m x)).cons _).trans (getD_cons_set_perm x xs m hscan)

/-- **The sort loses nothing and invents nothing.** -/
theorem selectionSort_perm (l : List α) : (selectionSort key l).Perm l :=
  selectionSortN_perm key l.length l

theorem selectionSortN_sorted : ∀ (n : ℕ) (l : List α), l.length ≤ n →
    (selectionSortN key n l).Pairwise fun a b => key a ≤ key b := by
  intro n
  induction n with
  | zero =>
    intro l hl
    obtain rfl : l = [] := List.length_eq_zero_iff.mp (Nat.le_zero.mp hl)
    exact List.Pairwise.nil
  | succ n ih =>
    intro l hl
    cases l with
    | nil => exact List.Pairwise.nil
    | cons x xs =>
      have hscan := scanMin_head key x xs
      have hlen : xs.length ≤ n := by simpa using hl
      rw [selectionSortN]
      cases hm : scanMin key 0 (key x) 1 xs with
      | zero =>
        rw [hm] at hscan
        refine List.pairwise_cons.mpr ⟨fun y hy => ?_, ih xs hlen⟩
        have hy' := (selectionSortN_perm key n xs).subset hy
        simpa using hscan.2 y (List.mem_cons_of_mem _ hy')
      | succ m =>
        rw [hm] at hscan
        refine List.pairwise_cons.mpr ⟨fun y hy => ?_, ih _ (by simpa using hlen)⟩
        have hy' : y ∈ xs.getD m x :: xs.set m x :=
          List.mem_cons_of_mem _ ((selectionSortN_perm key n _).subset hy)
        have hy'' := (getD_cons_set_perm x xs m hscan.1).subset hy'
        simpa using hscan.2 y hy''

/-- **The sort sorts.** -/
theorem selectionSort_sorted (l : List α) :
    (selectionSort key l).Pairwise fun a b => key a ≤ key b :=
  selectionSortN_sorted key l.length l (Nat.le_refl _)

end Lib

end CortxMio
