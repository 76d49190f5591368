import CortxMio.Lib.Fallible
import CortxMio.Obj.Sort

/-!
# The sort, in place

`motr_obj_iovec_sort` as it is written: three loops over the indices of one array, which
is copied from the vectors of the application and then sorted by swapping two vectors
at a time, field by field. Where an index does not belong to the array there is no
result.

For every list that is not empty there is one, and it is that of the function on lists
(`CortxMio.motrObjIovecSortLoop_eq`). So what is left in the array are the vectors that
were given, ordered by offset, no more than two of its neighbours have to be compared
to see whether any two ranges overlap, and the end of a write is the largest end
(`CortxMio.motrObjIovecSortLoop_spec`).
-/

namespace CortxMio

open Lib

/-- The inner loop, for its last turns: `minIdx` and `minOff` are the best so far, `j` is
the next index. -/
def sortScan (iovs : List (MioIovec ℕ)) : (turns j minIdx minOff : ℕ) → Option ℕ
  | 0, _, minIdx, _ => some minIdx
  | turns + 1, j, minIdx, minOff => do
      let v ← iovs[j]?
      if minOff > v.miovOff then sortScan iovs turns (j + 1) j v.miovOff
      else sortScan iovs turns (j + 1) minIdx minOff

/-- The body of the outer loop behind the scan: two vectors change places, first the
offset, then the length, and then the base. -/
def sortSwap (i minIdx : ℕ) (iovs : List (MioIovec ℕ)) : Option (List (MioIovec ℕ)) := do
  let old ← iovs[i]?
  let min ← iovs[minIdx]?
  let iovs := iovs.modify i fun v => { v with miovOff := min.miovOff }
  let iovs := iovs.modify i fun v => { v with miovLen := min.miovLen }
  let iovs := iovs.modify i fun v => { v with miovBase := min.miovBase }
  let iovs := iovs.modify minIdx fun v => { v with miovOff := old.miovOff }
  let iovs := iovs.modify minIdx fun v => { v with miovLen := old.miovLen }
  some (iovs.modify minIdx fun v => { v with miovBase := old.miovBase })

/-- The outer loop, for its last turns. -/
def sortLoop : (turns i : ℕ) → List (MioIovec ℕ) → Option (List (MioIovec ℕ))
  | 0, _, iovs => some iovs
  | turns + 1, i, iovs => do
      let v ← iovs[i]?
      let minIdx ← sortScan iovs turns (i + 1) i v.miovOff
      if minIdx = i then sortLoop turns (i + 1) iovs
      else do
        let iovs ← sortSwap i minIdx iovs
        sortLoop turns (i + 1) iovs

/-- The loop that looks for overlapping neighbours, for its last turns. -/
def sortCheckLoop (isWrite : Bool) (iovs : List (MioIovec ℕ)) :
    (turns i maxEow : ℕ) → Option (ℤ × ℕ)
  | 0, _, maxEow => some (0, maxEow)
  | turns + 1, i, maxEow => do
      let prev ← iovs[i - 1]?
      let v ← iovs[i]?
      if v.miovOff < u64 prev.stop then some (-EINVAL, maxEow)
      else
        let maxEow := if isWrite ∧ u64 v.stop > maxEow then u64 v.stop else maxEow
        sortCheckLoop isWrite iovs turns (i + 1) maxEow

/-- `motr_obj_iovec_sort`, in place. -/
def motrObjIovecSortLoop (args : MotrObjRwArgs) : Option (ℤ × MotrObjRwArgs) := do
  let origIovcnt := args.rwaOrigIovs.length
  let sorted ← sortLoop origIovcnt 0 args.rwaOrigIovs
  let first ← sorted[0]?
  let (rc, maxEow) ← sortCheckLoop args.rwaIsWrite sorted (origIovcnt - 1) 1 (u64 first.stop)
  some (rc, { args with
    rwaSortedIovs := sorted
    rwaMaxEow := if args.rwaIsWrite ∧ rc = 0 then maxEow else args.rwaMaxEow })

/-! ### The loops and the functions on lists -/

/-- The scan, behind some vectors that it does not come to. -/
theorem sortScan_eq (pre : List (MioIovec ℕ)) :
    ∀ (vs seen : List (MioIovec ℕ)) (minIdx minOff : ℕ),
      sortScan (pre ++ (seen ++ vs)) vs.length (pre.length + seen.length) (pre.length + minIdx)
          minOff =
        some (pre.length + scanMin MioIovec.miovOff minIdx minOff seen.length vs) := by
  intro vs
  induction vs with
  | nil => exact fun _ _ _ => rfl
  | cons v vs ih =>
    intro seen minIdx minOff
    have hget : (pre ++ (seen ++ v :: vs))[pre.length + seen.length]? = some v := by
      rw [List.getElem?_append_right (Nat.le_add_right _ _), Nat.add_sub_cancel_left,
        List.getElem?_append_right le_rfl, Nat.sub_self, List.getElem?_cons_zero]
    have hseen : seen ++ v :: vs = (seen ++ [v]) ++ vs := by simp
    have hlen : (seen ++ [v]).length = seen.length + 1 := by simp
    have hrest := ih (seen ++ [v])
    rw [← hseen, hlen, ← Nat.add_assoc] at hrest
    rw [List.length_cons, sortScan, hget, scanMin, some_bind]
    by_cases hlt : v.miovOff < minOff
    · rw [if_pos hlt, if_pos hlt, hrest]
    · rw [if_neg hlt, if_neg hlt, hrest]

/-- What is changed behind some vectors that stay where they are. -/
theorem modify_append_length (pre vs : List (MioIovec ℕ)) (n : ℕ)
    (f : MioIovec ℕ → MioIovec ℕ) :
    (pre ++ vs).modify (pre.length + n) f = pre ++ vs.modify n f := by
  induction pre with
  | nil => rw [List.length_nil, Nat.zero_add, List.nil_append, List.nil_append]
  | cons x pre ih =>
    rw [List.length_cons, Nat.succ_add, List.cons_append, List.modify_succ_cons, ih,
      List.cons_append]

/-- A swap, behind some vectors that stay where they are. -/
theorem sortSwap_eq (pre : List (MioIovec ℕ)) (v : MioIovec ℕ) {vs : List (MioIovec ℕ)} {m : ℕ}
    (hm : m < vs.length) :
    sortSwap pre.length (pre.length + (m + 1)) (pre ++ v :: vs) =
      some (pre ++ vs.getD m v :: vs.set m v) := by
  have hv : (pre ++ v :: vs)[pre.length]? = some v := by
    rw [List.getElem?_append_right le_rfl, Nat.sub_self, List.getElem?_cons_zero]
  have hw : (pre ++ v :: vs)[pre.length + (m + 1)]? = some (vs.getD m v) := by
    rw [List.getElem?_append_right (Nat.le_add_right _ _), Nat.add_sub_cancel_left,
      List.getElem?_cons_succ, List.getElem?_eq_getElem hm, List.getD_eq_getElem _ _ hm]
  have hhead : ∀ (w : MioIovec ℕ) f, (pre ++ w :: vs).modify pre.length f = pre ++ f w :: vs :=
    fun w f => modify_append_length pre (w :: vs) 0 f
  have htail : ∀ (w : MioIovec ℕ) (ws : List (MioIovec ℕ)) f,
      (pre ++ w :: ws).modify (pre.length + (m + 1)) f = pre ++ w :: ws.modify m f :=
    fun w ws f => modify_append_length pre (w :: ws) (m + 1) f
  -- three fields make a vector
  have hset : vs.modify m (fun _ => v) = vs.set m v :=
    haveI : Inhabited (MioIovec ℕ) := ⟨v⟩
    List.modify_eq_set _ _ _
  rw [sortSwap, hv, some_bind, hw, some_bind]
  simp only [hhead, htail, List.modify_modify_eq]
  exact congrArg (fun l => some (pre ++ vs.getD m v :: l)) hset

/-- **The outer loop**, from an index on: what is behind it is sorted. -/
theorem sortLoop_eq (turns : ℕ) : ∀ (pre vs : List (MioIovec ℕ)), vs.length = turns →
    sortLoop turns pre.length (pre ++ vs) =
      some (pre ++ selectionSortN MioIovec.miovOff turns vs) := by
  induction turns with
  | zero =>
    rintro pre vs hlen
    obtain rfl := List.length_eq_zero_iff.mp hlen
    rfl
  | succ turns ih =>
    rintro pre vs hlen
    cases vs with
    | nil => cases hlen
    | cons v vs =>
      have hvs : vs.length = turns := Nat.succ.inj hlen
      have hv : (pre ++ v :: vs)[pre.length]? = some v := by
        rw [List.getElem?_append_right le_rfl, Nat.sub_self, List.getElem?_cons_zero]
      have hscan := sortScan_eq pre vs [v] 0 v.miovOff
      have hbound := (scanMin_head MioIovec.miovOff v vs).1
      -- the vector at the index is in its place, and the loop goes on behind it
      have hnext : ∀ (w : MioIovec ℕ) (ws : List (MioIovec ℕ)), ws.length = turns →
          sortLoop turns (pre.length + 1) (pre ++ w :: ws) =
            some (pre ++ w :: selectionSortN MioIovec.miovOff turns ws) := by
        rintro w ws hws
        have hrest := ih (pre ++ [w]) ws hws
        rwa [List.length_append, List.length_singleton, List.append_assoc, List.append_assoc,
          List.singleton_append, List.singleton_append] at hrest
      rw [hvs, List.length_singleton, List.singleton_append] at hscan
      change sortScan _ _ _ pre.length _ = _ at hscan
      rw [sortLoop, hv, some_bind, hscan, some_bind, selectionSortN]
      cases hmin : scanMin MioIovec.miovOff 0 v.miovOff 1 vs with
      | zero =>
        rw [if_pos (Nat.add_zero _)]
        exact hnext v vs hvs
      | succ m =>
        rw [hmin] at hbound
        rw [if_neg (by omega), sortSwap_eq pre v hbound, some_bind]
        exact hnext _ _ (by rw [List.length_set, hvs])

/-- The check, from an index on. -/
theorem sortCheckLoop_eq (isWrite : Bool) :
    ∀ (vs pre : List (MioIovec ℕ)) (prev : MioIovec ℕ) (maxEow : ℕ),
      sortCheckLoop isWrite (pre ++ prev :: vs) vs.length (pre.length + 1) maxEow =
        some (motrObjIovecSortCheck isWrite maxEow prev vs) := by
  intro vs
  induction vs with
  | nil => exact fun _ _ _ => rfl
  | cons v vs ih =>
    intro pre prev maxEow
    have hprev : (pre ++ prev :: v :: vs)[pre.length + 1 - 1]? = some prev := by
      rw [Nat.add_sub_cancel, List.getElem?_append_right le_rfl, Nat.sub_self,
        List.getElem?_cons_zero]
    have hv : (pre ++ prev :: v :: vs)[pre.length + 1]? = some v := by
      rw [List.getElem?_append_right (Nat.le_add_right _ _), Nat.add_sub_cancel_left,
        List.getElem?_cons_succ, List.getElem?_cons_zero]
    have hrest := ih (pre ++ [prev]) v
    rw [List.length_append, List.length_singleton, List.append_assoc,
      List.singleton_append] at hrest
    rw [List.length_cons, sortCheckLoop, hprev, some_bind, hv,
      some_bind, motrObjIovecSortCheck]
    split
    · rfl
    · exact hrest _

/-- **The loops compute what the function on lists does**: no index leaves the array. -/
theorem motrObjIovecSortLoop_eq {args : MotrObjRwArgs} (hne : args.rwaOrigIovs ≠ []) :
    motrObjIovecSortLoop args = some (motrObjIovecSort args) := by
  have hsort := sortLoop_eq args.rwaOrigIovs.length [] args.rwaOrigIovs rfl
  have hlen := (selectionSort_perm MioIovec.miovOff args.rwaOrigIovs).length_eq
  rw [List.nil_append, List.nil_append, List.length_nil] at hsort
  change sortLoop _ 0 _ = some (selectionSort MioIovec.miovOff args.rwaOrigIovs) at hsort
  rw [motrObjIovecSortLoop, hsort, some_bind, motrObjIovecSort]
  cases hl : selectionSort MioIovec.miovOff args.rwaOrigIovs with
  | nil =>
    rw [hl] at hlen
    exact absurd (List.length_eq_zero_iff.mp hlen.symm) hne
  | cons v vs =>
    rw [hl, List.length_cons] at hlen
    have hcheck := sortCheckLoop_eq args.rwaIsWrite vs [] v (u64 v.stop)
    rw [List.nil_append, List.length_nil, Nat.zero_add] at hcheck
    rw [← hlen, Nat.add_sub_cancel, List.getElem?_cons_zero, some_bind, hcheck]
    rfl

/-! ### What the loops establish -/

/-- Two of the ranges, at different places of the list, have a byte in common. -/
def Overlapping (iov : List (MioIovec ℕ)) : Prop :=
  ∃ v w : MioIovec ℕ, [v, w].Sublist iov ∧ ∃ x, v.Has x ∧ w.Has x

/-- Ranges that are not empty and have no byte in common lie apart. -/
theorem MioIovec.apart_of_disjoint {v w : MioIovec ℕ} (hv : 0 < v.miovLen) (hw : 0 < w.miovLen)
    (h : ∀ x, ¬(v.Has x ∧ w.Has x)) : v.Apart w := by
  have hfirst := h (max v.miovOff w.miovOff)
  by_contra hnot
  obtain ⟨h1, h2⟩ := not_or.mp hnot
  refine hfirst ⟨⟨le_max_left _ _, ?_⟩, ⟨le_max_right _ _, ?_⟩⟩
  · have := v.off_le_stop
    rw [MioIovec.stop] at *
    omega
  · rw [MioIovec.stop] at *
    omega

/-- **When the sort turns ranges down.** -/
theorem motrObjIovecSort_overlapping_iff {args : MotrObjRwArgs}
    (hlen : ∀ v ∈ args.rwaOrigIovs, 0 < v.miovLen) (hwrap : ∀ v ∈ args.rwaOrigIovs, v.NoWrap) :
    (motrObjIovecSort args).1 = -EINVAL ↔ Overlapping args.rwaOrigIovs := by
  constructor
  · rintro hrc
    by_contra hnot
    have hapart : args.rwaOrigIovs.Pairwise MioIovec.Apart := by
      refine List.pairwise_iff_forall_sublist.mpr fun {v w} hsub => ?_
      have hv := hsub.subset List.mem_cons_self
      have hw := hsub.subset (List.mem_cons_of_mem _ List.mem_cons_self)
      exact MioIovec.apart_of_disjoint (hlen v hv) (hlen w hw)
        fun x hx => hnot ⟨v, w, hsub, x, hx⟩
    rw [motrObjIovecSort_of_apart hwrap hlen hapart] at hrc
    exact absurd hrc (by decide)
  · rintro ⟨v, w, hsub, x, hx⟩
    refine (motrObjIovecSort_rc args).resolve_left fun hrc => ?_
    have hdisjoint := (motrObjIovecSort_inOrder hwrap hrc).1.disjoint
    have hperm := (motrObjIovecSort_sorted args).1
    have hgiven := (hperm.pairwise_iff fun {v w} h x hx => h x hx.symm).mp hdisjoint
    exact List.pairwise_iff_forall_sublist.mp hgiven hsub x hx

/-- The largest end is that of one of the ranges. -/
theorem exists_stop_eq_maxEnd {l : List (MioIovec ℕ)} (hne : l ≠ []) :
    ∃ v ∈ l, v.stop = maxEnd l := by
  induction l with
  | nil => exact absurd rfl hne
  | cons v l ih =>
    rw [maxEnd_cons]
    by_cases hl : l = []
    · subst hl
      exact ⟨v, List.mem_cons_self, (Nat.max_zero _).symm⟩
    · obtain ⟨w, hw, hstop⟩ := ih hl
      rcases le_total v.stop (maxEnd l) with hle | hle
      · exact ⟨w, List.mem_cons_of_mem _ hw, by rw [max_eq_right hle, hstop]⟩
      · exact ⟨v, List.mem_cons_self, (max_eq_left hle).symm⟩

/-- **The sort, in place.** The vectors that were given are left in the array, ordered by
offset; it is an error just if two of the ranges overlap, and otherwise the end of a
write is the largest end of all. -/
theorem motrObjIovecSortLoop_spec {args : MotrObjRwArgs} (hne : args.rwaOrigIovs ≠ [])
    (hlen : ∀ v ∈ args.rwaOrigIovs, 0 < v.miovLen)
    (hwrap : ∀ v ∈ args.rwaOrigIovs, v.miovOff + v.miovLen < 2 ^ 64) :
    ∃ rc args', motrObjIovecSortLoop args = some (rc, args') ∧
      args'.rwaSortedIovs.Perm args.rwaOrigIovs ∧
      args'.rwaSortedIovs.Pairwise (fun v w => v.miovOff ≤ w.miovOff) ∧
      (rc = -EINVAL ↔ Overlapping args.rwaOrigIovs) ∧ (rc = 0 ∨ rc = -EINVAL) ∧
      (rc = 0 → args.rwaIsWrite = true →
        (∃ v ∈ args.rwaOrigIovs, v.miovOff + v.miovLen = args'.rwaMaxEow) ∧
          ∀ v ∈ args.rwaOrigIovs, v.miovOff + v.miovLen ≤ args'.rwaMaxEow) := by
  have hsorted := motrObjIovecSort_sorted args
  refine ⟨(motrObjIovecSort args).1, (motrObjIovecSort args).2, motrObjIovecSortLoop_eq hne,
    hsorted.1, hsorted.2, motrObjIovecSort_overlapping_iff hlen hwrap, motrObjIovecSort_rc args, ?_⟩
  rintro hrc hwrite
  rw [(motrObjIovecSort_inOrder hwrap hrc).2 hwrite]
  exact ⟨exists_stop_eq_maxEnd hne, fun v hv => stop_le_maxEnd hv⟩

/-- A write of three ranges, of which the first is the last. -/
def threeRangesArgs : MotrObjRwArgs :=
  ⟨true, 0, [⟨0, 4096, 8⟩, ⟨8, 0, 16⟩, ⟨24, 16, 8⟩], [], 0, [], 0, [], [], 0⟩

/-- The sort of three ranges that do not overlap. -/
theorem motrObjIovecSortLoop_threeRanges :
    ∃ rc args', motrObjIovecSortLoop threeRangesArgs = some (rc, args') ∧
      args'.rwaSortedIovs.Perm threeRangesArgs.rwaOrigIovs ∧
      args'.rwaSortedIovs.Pairwise (fun v w => v.miovOff ≤ w.miovOff) ∧
      (rc = -EINVAL ↔ Overlapping threeRangesArgs.rwaOrigIovs) ∧ (rc = 0 ∨ rc = -EINVAL) ∧
      (rc = 0 → threeRangesArgs.rwaIsWrite = true →
        (∃ v ∈ threeRangesArgs.rwaOrigIovs, v.miovOff + v.miovLen = args'.rwaMaxEow) ∧
          ∀ v ∈ threeRangesArgs.rwaOrigIovs, v.miovOff + v.miovLen ≤ args'.rwaMaxEow) :=
  motrObjIovecSortLoop_spec (by decide) (by decide) (by decide)

end CortxMio
