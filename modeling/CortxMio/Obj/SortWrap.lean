import CortxMio.Obj.Batch

/-!
# What the sort makes of ranges that wrap

Every end that `motr_obj_iovec_sort` compares is a sum in 64 bits. A range that
reaches `2 ^ 64` therefore ends, for the check, before it begins, and nothing that
follows it is ever taken to overlap with it. Such a range is turned down only if
something else is wrong with the request: if a range that does not wrap reaches
beyond the offset of one that is sorted behind it (`CortxMio.Clash`).

So a list passes the sort exactly if it has no clash (`CortxMio.motrObjIovecSort_iff`),
and what a successful sort is meant to say of a write is true exactly of the lists
without a range that wraps and of those that do have a clash
(`CortxMio.sortOk_iff`).
-/

namespace CortxMio

open Lib

/-- A range that stays within 64 bits reaches beyond the offset of a later one. -/
def Clash (l : List (MioIovec ℕ)) : Prop :=
  ∃ v w : MioIovec ℕ, [v, w].Sublist l ∧ v.NoWrap ∧ w.miovOff < v.stop

theorem not_clash_iff {l : List (MioIovec ℕ)} :
    ¬Clash l ↔ l.Pairwise fun v w => v.NoWrap → v.stop ≤ w.miovOff := by
  rw [List.pairwise_iff_forall_sublist]
  constructor
  · intro h v w hsub hwrap
    exact Nat.not_lt.mp fun hlt => h ⟨v, w, hsub, hwrap, hlt⟩
  · rintro h ⟨v, w, hsub, hwrap, hlt⟩
    exact absurd (h hsub hwrap) (Nat.not_le.mpr hlt)

/-- **What a successful sort of a write is meant to say**: no range wraps, no two
have a byte in common, and the end of the write is the largest end of all. -/
def SortOk (iov : List (MioIovec ℕ)) : Prop :=
  (motrObjIovecSort (freshArgs true iov)).1 = 0 →
    (∀ v ∈ iov, v.stop ≤ 2 ^ 64) ∧ iov.Pairwise (fun v w => ∀ x, ¬(v.Has x ∧ w.Has x)) ∧
      (sortedArgs true iov).rwaMaxEow = maxEnd iov

/-- The offsets and the lengths are 64-bit values, and no range is empty. -/
def MioIovec.Fits64 {π : Type} (v : MioIovec π) : Prop :=
  v.miovOff < 2 ^ 64 ∧ 0 < v.miovLen ∧ v.miovLen < 2 ^ 64

instance {π : Type} (v : MioIovec π) : Decidable v.Fits64 :=
  inferInstanceAs (Decidable (_ ∧ _))

/-- The end of a range that wraps, in 64 bits, lies before the range. -/
theorem u64_stop_of_wrap {v : MioIovec ℕ} (h : v.Fits64) (hwrap : ¬v.NoWrap) :
    u64 v.stop < v.miovOff := by
  obtain ⟨hoff, hpos, hlen⟩ := h
  have hge : 2 ^ 64 ≤ v.stop := Nat.not_lt.mp hwrap
  have hstop : v.stop = v.miovOff + v.miovLen := rfl
  rw [u64, Nat.mod_eq_sub_mod hge, Nat.mod_eq_of_lt (by omega)]
  omega

/-- **The check of neighbours**: on ranges sorted by offset it succeeds exactly if
there is no clash. -/
theorem motrObjIovecSortCheck_iff (isWrite : Bool) :
    ∀ (vs : List (MioIovec ℕ)) (prev : MioIovec ℕ) (m : ℕ), (∀ v ∈ prev :: vs, v.Fits64) →
      (prev :: vs).Pairwise (fun v w => v.miovOff ≤ w.miovOff) →
      ((motrObjIovecSortCheck isWrite m prev vs).1 = 0 ↔ ¬Clash (prev :: vs)) := by
  intro vs
  induction vs with
  | nil =>
    intro prev m _ _
    rw [not_clash_iff]
    exact iff_of_true rfl (List.pairwise_singleton _ prev)
  | cons v vs ih =>
    intro prev m h64 hsort
    have hle : prev.miovOff ≤ v.miovOff := List.rel_of_pairwise_cons hsort List.mem_cons_self
    rw [motrObjIovecSortCheck, not_clash_iff, List.pairwise_cons, ← not_clash_iff]
    split
    · next hlt =>
      -- only a range that does not wrap can end beyond the next offset
      have hwrap : prev.NoWrap := by
        by_contra hwrap
        have := u64_stop_of_wrap (h64 prev List.mem_cons_self) hwrap
        omega
      rw [u64_of_lt hwrap] at hlt
      refine iff_of_false (show ¬(-EINVAL = 0) by decide) fun hand => ?_
      exact absurd (hand.1 v List.mem_cons_self hwrap) (Nat.not_le.mpr hlt)
    · next hge =>
      rw [ih v _ (fun w hw => h64 w (List.mem_cons_of_mem _ hw)) hsort.of_cons,
        iff_and_self]
      intro _ w hw hwrap
      rw [u64_of_lt hwrap] at hge
      have hvw : v.miovOff ≤ w.miovOff := by
        rcases List.mem_cons.mp hw with rfl | hw
        · exact le_rfl
        · exact List.rel_of_pairwise_cons hsort.of_cons hw
      exact (Nat.not_lt.mp hge).trans hvw

/-- **When ranges pass the sort.** -/
theorem motrObjIovecSort_iff (isWrite : Bool) {iov : List (MioIovec ℕ)}
    (h64 : ∀ v ∈ iov, v.Fits64) :
    (motrObjIovecSort (freshArgs isWrite iov)).1 = 0 ↔
      ¬Clash (selectionSort MioIovec.miovOff iov) := by
  have hperm := selectionSort_perm MioIovec.miovOff iov
  have hsort := selectionSort_sorted MioIovec.miovOff iov
  rw [motrObjIovecSort]
  cases hl : selectionSort MioIovec.miovOff (freshArgs isWrite iov).rwaOrigIovs with
  | nil =>
    change selectionSort MioIovec.miovOff iov = [] at hl
    rw [hl, not_clash_iff]
    exact iff_of_true rfl List.Pairwise.nil
  | cons v vs =>
    change selectionSort MioIovec.miovOff iov = v :: vs at hl
    rw [hl] at hperm hsort ⊢
    exact motrObjIovecSortCheck_iff isWrite vs v _ (fun w hw => h64 w (hperm.subset hw)) hsort

/-- The end of a write is computed in 64 bits. -/
theorem motrObjIovecSortCheck_lt (isWrite : Bool) :
    ∀ (vs : List (MioIovec ℕ)) (prev : MioIovec ℕ) (m : ℕ), m < 2 ^ 64 →
      (motrObjIovecSortCheck isWrite m prev vs).2 < 2 ^ 64 := by
  intro vs
  induction vs with
  | nil => exact fun _ _ hm => hm
  | cons v vs ih =>
    intro prev m hm
    rw [motrObjIovecSortCheck]
    split
    · exact hm
    · refine ih v _ ?_
      split
      · exact u64_lt _
      · exact hm

theorem rwaMaxEow_lt (isWrite : Bool) (iov : List (MioIovec ℕ)) :
    (sortedArgs isWrite iov).rwaMaxEow < 2 ^ 64 := by
  rw [sortedArgs, motrObjIovecSort]
  cases selectionSort MioIovec.miovOff (freshArgs isWrite iov).rwaOrigIovs with
  | nil =>
    simp only
    split <;> exact Nat.two_pow_pos 64
  | cons v vs =>
    simp only
    split
    · exact motrObjIovecSortCheck_lt _ vs v _ (u64_lt _)
    · exact Nat.two_pow_pos 64

/-- A write that is accepted, if nothing wraps around. -/
theorem inOrder_freshArgs {iov : List (MioIovec ℕ)} (hwrap : ∀ v ∈ iov, v.NoWrap)
    (hrc : (motrObjIovecSort (freshArgs true iov)).1 = 0) :
    InOrder (motrObjIovecSort (freshArgs true iov)).2.rwaSortedIovs ∧
      (motrObjIovecSort (freshArgs true iov)).2.rwaMaxEow = maxEnd iov := by
  have hwrap' : ∀ v ∈ (freshArgs true iov).rwaOrigIovs, v.NoWrap := hwrap
  obtain ⟨hord, heow⟩ := motrObjIovecSort_inOrder hwrap' hrc
  exact ⟨hord, heow rfl⟩

/-- **When a successful sort means what it says**: for every list of ranges that are
not empty, exactly if none of them reaches `2 ^ 64`, or if the list is turned down
because a range that does not reach `2 ^ 64` overlaps with one sorted behind it. -/
theorem sortOk_iff {iov : List (MioIovec ℕ)} (h64 : ∀ v ∈ iov, v.Fits64) :
    SortOk iov ↔ (∀ v ∈ iov, v.NoWrap) ∨ Clash (selectionSort MioIovec.miovOff iov) := by
  have hiff := motrObjIovecSort_iff true h64
  constructor
  · intro hok
    by_contra hnot
    obtain ⟨hwrap, hclash⟩ := not_or.mp hnot
    obtain ⟨hstop, -, heow⟩ := hok (hiff.mpr hclash)
    refine hwrap fun v hv => ?_
    have h1 := stop_le_maxEnd hv
    have h2 := rwaMaxEow_lt true iov
    exact h1.trans_lt (heow ▸ h2)
  · rintro (hwrap | hclash) hrc
    · obtain ⟨hord, heow⟩ := inOrder_freshArgs hwrap hrc
      refine ⟨fun v hv => (hwrap v hv).le, ?_, heow⟩
      have hperm := (motrObjIovecSort_sorted (freshArgs true iov)).1
      refine (hperm.pairwise_iff fun {v w} h x => ?_).mp hord.disjoint
      exact fun hx => h x hx.symm
    · exact absurd hclash (hiff.mp hrc)

/-- Two ranges next to each other. -/
theorem sortOk_neighbours : SortOk [⟨0, 4096, 8⟩, ⟨8, 0, 4096⟩] :=
  (sortOk_iff (by decide)).mpr (.inl (by decide))

/-- A range that wraps is accepted as a write that ends at byte 1. -/
theorem not_sortOk_wrap : ¬SortOk [⟨0, 2 ^ 64 - 1, 2⟩] := by
  intro h
  have hstop := (h (by decide)).1 _ (List.mem_singleton.mpr rfl)
  exact absurd hstop (by decide)

end CortxMio
