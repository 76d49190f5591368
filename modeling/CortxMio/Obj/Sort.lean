import CortxMio.Obj.Plan

/-!
# What the sort of the vectors establishes

`motr_obj_iovec_sort` sorts the vectors and then looks at neighbours only. For
ranges that do not wrap this is enough: sorted neighbours that do not overlap
are what it takes for the whole list to be in order
(`CortxMio.InOrder`), and on a write it yields the largest end of all ranges
(`CortxMio.maxEnd`). Ranges that are apart from each other always pass
(`CortxMio.motrObjIovecSort_of_apart`).
-/

namespace CortxMio

open Lib

/-! ### Ranges -/

/-- The range stays within 64 bits. -/
def MioIovec.NoWrap {π : Type} (v : MioIovec π) : Prop := v.stop < 2 ^ 64

instance {π : Type} (v : MioIovec π) : Decidable v.NoWrap := inferInstanceAs (Decidable (_ < _))

/-- Two ranges that do not overlap. -/
def MioIovec.Apart {π : Type} (v w : MioIovec π) : Prop := v.stop ≤ w.miovOff ∨ w.stop ≤ v.miovOff

instance {π : Type} (v w : MioIovec π) : Decidable (v.Apart w) :=
  inferInstanceAs (Decidable (_ ∨ _))

theorem MioIovec.Apart.symm {π : Type} {v w : MioIovec π} (h : v.Apart w) : w.Apart v := Or.symm h

theorem MioIovec.off_le_stop {π : Type} (v : MioIovec π) : v.miovOff ≤ v.stop :=
  Nat.le_add_right _ _

/-- Ranges in increasing order, none reaching into a later one. -/
def InOrder {π : Type} (l : List (MioIovec π)) : Prop :=
  l.Pairwise fun v w => v.stop ≤ w.miovOff

/-- Ranges in order have no byte in common. -/
theorem InOrder.disjoint {l : List (MioIovec ℕ)} (h : InOrder l) :
    l.Pairwise fun v w => ∀ x, ¬(v.Has x ∧ w.Has x) := by
  refine List.Pairwise.imp ?_ h
  rintro v w hle x ⟨⟨-, hv⟩, ⟨hw, -⟩⟩
  omega

/-- The largest end of a range, zero for none. -/
def maxEnd {π : Type} (l : List (MioIovec π)) : ℕ := l.foldr (fun v m => max v.stop m) 0

theorem stop_le_maxEnd {π : Type} {l : List (MioIovec π)} {v : MioIovec π} (h : v ∈ l) :
    v.stop ≤ maxEnd l := by
  induction l with
  | nil => exact absurd h List.not_mem_nil
  | cons w l ih =>
    change v.stop ≤ max w.stop (maxEnd l)
    rcases List.mem_cons.mp h with rfl | h
    · exact le_max_left _ _
    · exact (ih h).trans (le_max_right _ _)

theorem maxEnd_le {π : Type} {l : List (MioIovec π)} {n : ℕ} (h : ∀ v ∈ l, v.stop ≤ n) :
    maxEnd l ≤ n := by
  induction l with
  | nil => exact Nat.zero_le n
  | cons w l ih =>
    exact max_le (h w List.mem_cons_self) (ih fun v hv => h v (List.mem_cons_of_mem _ hv))

theorem maxEnd_perm {π : Type} {l l' : List (MioIovec π)} (h : l.Perm l') : maxEnd l = maxEnd l' :=
  le_antisymm (maxEnd_le fun _ hv => stop_le_maxEnd (h.subset hv))
    (maxEnd_le fun _ hv => stop_le_maxEnd (h.symm.subset hv))

@[simp] theorem maxEnd_cons {π : Type} (v : MioIovec π) (l : List (MioIovec π)) :
    maxEnd (v :: l) = max v.stop (maxEnd l) := rfl

theorem maxEnd_append {π : Type} (l l' : List (MioIovec π)) :
    maxEnd (l ++ l') = max (maxEnd l) (maxEnd l') := by
  induction l with
  | nil => exact (Nat.zero_max _).symm
  | cons v l ih => rw [List.cons_append, maxEnd_cons, maxEnd_cons, ih, max_assoc]

/-! ### The check of neighbours -/

/-- **What the check computes on a list in order**: success, and on a write the
largest end. -/
theorem motrObjIovecSortCheck_inOrder (isWrite : Bool) :
    ∀ (vs : List (MioIovec ℕ)) (prev : MioIovec ℕ) (m : ℕ),
      InOrder (prev :: vs) → (∀ v ∈ prev :: vs, v.NoWrap) →
      motrObjIovecSortCheck isWrite m prev vs = (0, if isWrite then max m (maxEnd vs) else m) := by
  intro vs
  induction vs with
  | nil =>
    intro prev m _ _
    cases isWrite <;> simp [motrObjIovecSortCheck, maxEnd]
  | cons v vs ih =>
    intro prev m hord hwrap
    have hp : u64 prev.stop = prev.stop := u64_of_lt (hwrap prev List.mem_cons_self)
    have hv : u64 v.stop = v.stop := u64_of_lt (hwrap v (by simp))
    have hle : prev.stop ≤ v.miovOff := List.rel_of_pairwise_cons hord List.mem_cons_self
    rw [motrObjIovecSortCheck, hp, hv, if_neg (Nat.not_lt.mpr hle),
      ih v _ (List.Pairwise.of_cons hord) fun w hw => hwrap w (List.mem_cons_of_mem _ hw)]
    cases isWrite with
    | false => simp
    | true =>
      simp only [true_and, if_true, maxEnd_cons, Prod.mk.injEq]
      by_cases hm : m < v.stop
      · rw [if_pos hm]
        omega
      · rw [if_neg hm]
        omega

/-- **A list that passes the check is in order.** The ranges need not be
non-empty for this. -/
theorem inOrder_of_motrObjIovecSortCheck (isWrite : Bool) :
    ∀ (vs : List (MioIovec ℕ)) (prev : MioIovec ℕ) (m : ℕ), (∀ v ∈ prev :: vs, v.NoWrap) →
      (motrObjIovecSortCheck isWrite m prev vs).1 = 0 → InOrder (prev :: vs) := by
  intro vs
  induction vs with
  | nil =>
    intro prev m _ _
    exact List.pairwise_singleton _ prev
  | cons v vs ih =>
    intro prev m hwrap h
    have hp : u64 prev.stop = prev.stop := u64_of_lt (hwrap prev List.mem_cons_self)
    rw [motrObjIovecSortCheck, hp] at h
    by_cases hlt : v.miovOff < prev.stop
    · rw [if_pos hlt] at h
      exact absurd h (show ¬(-EINVAL = 0) by decide)
    · rw [if_neg hlt] at h
      have hrest := ih v _ (fun w hw => hwrap w (List.mem_cons_of_mem _ hw)) h
      refine List.pairwise_cons.mpr ⟨fun w hw => ?_, hrest⟩
      rcases List.mem_cons.mp hw with rfl | hw
      · exact Nat.not_lt.mp hlt
      · exact (Nat.not_lt.mp hlt).trans
          (v.off_le_stop.trans (List.rel_of_pairwise_cons hrest hw))

/-- The check returns zero or `-EINVAL`. -/
theorem motrObjIovecSortCheck_rc (isWrite : Bool) :
    ∀ (vs : List (MioIovec ℕ)) (prev : MioIovec ℕ) (m : ℕ),
      (motrObjIovecSortCheck isWrite m prev vs).1 = 0 ∨
        (motrObjIovecSortCheck isWrite m prev vs).1 = -EINVAL := by
  intro vs
  induction vs with
  | nil => exact fun _ _ => Or.inl rfl
  | cons v vs ih =>
    intro prev m
    rw [motrObjIovecSortCheck]
    split
    · exact Or.inr rfl
    · exact ih v _

/-! ### The sort -/

/-- The sort leaves a permutation of the vectors, ordered by offset. -/
theorem motrObjIovecSort_sorted (args : MotrObjRwArgs) :
    (motrObjIovecSort args).2.rwaSortedIovs.Perm args.rwaOrigIovs ∧
      (motrObjIovecSort args).2.rwaSortedIovs.Pairwise fun v w => v.miovOff ≤ w.miovOff :=
  ⟨selectionSort_perm _ _, selectionSort_sorted _ _⟩

theorem motrObjIovecSort_rc (args : MotrObjRwArgs) :
    (motrObjIovecSort args).1 = 0 ∨ (motrObjIovecSort args).1 = -EINVAL := by
  rw [motrObjIovecSort]
  cases selectionSort MioIovec.miovOff args.rwaOrigIovs with
  | nil => exact Or.inl rfl
  | cons v vs => exact motrObjIovecSortCheck_rc _ vs v _

/-- Sorted ranges that are non-empty and apart are in order. -/
theorem inOrder_of_sorted {l : List (MioIovec ℕ)} (hlen : ∀ v ∈ l, 0 < v.miovLen)
    (hsort : l.Pairwise fun v w => v.miovOff ≤ w.miovOff)
    (hapart : l.Pairwise MioIovec.Apart) : InOrder l := by
  refine (hsort.and hapart).imp_of_mem fun {v w} _ hw h => ?_
  rcases h.2 with hvw | hwv
  · exact hvw
  · have hpos := hlen w hw
    have hle := h.1
    rw [MioIovec.stop] at hwv
    omega

/-- **What a successful sort gives**: the vectors are in order, and on a write
the largest end is known. -/
theorem motrObjIovecSort_inOrder {args : MotrObjRwArgs}
    (hwrap : ∀ v ∈ args.rwaOrigIovs, v.NoWrap) (hrc : (motrObjIovecSort args).1 = 0) :
    InOrder (motrObjIovecSort args).2.rwaSortedIovs ∧
      (args.rwaIsWrite = true →
        (motrObjIovecSort args).2.rwaMaxEow = maxEnd args.rwaOrigIovs) := by
  have hperm := selectionSort_perm MioIovec.miovOff args.rwaOrigIovs
  have hwrap' : ∀ v ∈ selectionSort MioIovec.miovOff args.rwaOrigIovs, v.NoWrap :=
    fun v hv => hwrap v (hperm.subset hv)
  rw [← maxEnd_perm hperm]
  rw [motrObjIovecSort] at hrc ⊢
  cases hl : selectionSort MioIovec.miovOff args.rwaOrigIovs with
  | nil =>
    refine ⟨List.Pairwise.nil, fun hw => ?_⟩
    simp [hw, maxEnd]
  | cons v vs =>
    rw [hl] at hrc hwrap'
    have hord := inOrder_of_motrObjIovecSortCheck _ vs v _ hwrap' hrc
    refine ⟨hord, fun hw => ?_⟩
    have hv : u64 v.stop = v.stop := u64_of_lt (hwrap' v List.mem_cons_self)
    have hcheck := motrObjIovecSortCheck_inOrder args.rwaIsWrite vs v v.stop hord hwrap'
    simp only [hv, hcheck]
    simp [hw]

/-- **Ranges that are apart pass the sort.** -/
theorem motrObjIovecSort_of_apart {args : MotrObjRwArgs}
    (hwrap : ∀ v ∈ args.rwaOrigIovs, v.NoWrap) (hlen : ∀ v ∈ args.rwaOrigIovs, 0 < v.miovLen)
    (hapart : args.rwaOrigIovs.Pairwise MioIovec.Apart) : (motrObjIovecSort args).1 = 0 := by
  have hperm := selectionSort_perm MioIovec.miovOff args.rwaOrigIovs
  have hord : InOrder (selectionSort MioIovec.miovOff args.rwaOrigIovs) :=
    inOrder_of_sorted (fun v hv => hlen v (hperm.subset hv)) (selectionSort_sorted _ _)
      ((hperm.pairwise_iff fun {v w} => MioIovec.Apart.symm).mpr hapart)
  have hwrap' : ∀ v ∈ selectionSort MioIovec.miovOff args.rwaOrigIovs, v.NoWrap :=
    fun v hv => hwrap v (hperm.subset hv)
  rw [motrObjIovecSort]
  cases hl : selectionSort MioIovec.miovOff args.rwaOrigIovs with
  | nil => rfl
  | cons v vs =>
    rw [hl] at hord hwrap'
    simp only [motrObjIovecSortCheck_inOrder args.rwaIsWrite vs v _ hord hwrap']

end CortxMio
