import CortxMio.Obj.Optimise
import Mathlib.Data.List.TakeWhile

/-!
# Reads of nothing

The optimisation of the read-before-write vectors leaves a vector of length zero in
place of a page that the copies fill, “so this IO vector is not sent to motr”. But
nothing takes these vectors out, and the next batch is cut from the very same
array: an empty vector takes no room, and goes into the op like any other.

Which vectors are emptied is said for every plan of a write
(`CortxMio.MotrObjRwArgs.Spared`), also of ranges that wrap around; the planner is
taken apart with a rule for its invariants (`CortxMio.adjust_rule`). An op that
reads nothing is submitted exactly if one of the vectors is emptied that would go
into the first op anyway, or the one after these
(`CortxMio.readsOk_iff`).
-/

namespace CortxMio

open Lib

variable {conf : MioMotrConfig} {obj : MioObj} {args args' : MotrObjRwArgs}

/-! ### A rule for the planner -/

section Rule

variable {I : MotrObjRwArgs → Prop}
  (hpart : ∀ args off len base, I args → I (motrObjIovecPartialPage obj args off len base))
  (hclone : ∀ args a off len, I args →
    I { args with rwaAlignedIovs := args.rwaAlignedIovs ++ [⟨.app a, off, len⟩] })

theorem ite_ok_rule {p : Prop} [Decidable p] {a b : MotrObjRwArgs}
    (h : (if p then .ok a else .ok b : Except Fault MotrObjRwArgs) = .ok args') (ha : I a)
    (hb : I b) : I args' := by
  split at h
  · exact Except.ok.inj h ▸ ha
  · exact Except.ok.inj h ▸ hb

include hclone

theorem cloneLoop_rule (max stop : ℕ) :
    ∀ {fuel off len base : ℕ} {args args' : MotrObjRwArgs},
      motrObjIovecCloneLoop max stop fuel off len base args = .ok args' → I args → I args' := by
  intro fuel
  induction fuel with
  | zero =>
    intro off len base args args' h hI
    rw [motrObjIovecCloneLoop] at h
    split at h
    · exact absurd h (by simp)
    · exact Except.ok.inj h ▸ hI
  | succ fuel ih =>
    intro off len base args args' h hI
    rw [motrObjIovecCloneLoop] at h
    split at h
    · exact ih h (hclone _ _ _ _ hI)
    · exact Except.ok.inj h ▸ hI

theorem clone_rule {off len base : ℕ}
    (h : ignoreRc args (motrObjIovecClone conf obj args off len base) = .ok args') (hI : I args) :
    I args' := by
  cases hc : motrObjIovecClone conf obj args off len base with
  | error f =>
    rw [hc] at h
    cases f with
    | err rc => exact Except.ok.inj h ▸ hI
    | _ => exact absurd h (by simp [ignoreRc])
  | ok a =>
    rw [hc] at h
    obtain rfl := Except.ok.inj h
    obtain ⟨max, -, h⟩ := bind_eq_ok_iff.mp hc
    dsimp only at h
    split at h
    · exact absurd h (by simp)
    · exact cloneLoop_rule hclone _ _ h hI

include hpart

theorem split2_rule {v : MioIovec ℕ} (h : motrObjIovecSplit2 conf obj args v = .ok args')
    (hI : I args) : I args' := by
  -- the second part is the same after both ways of the first
  have hsecond : ∀ {args₁ : MotrObjRwArgs} {off len base : ℕ} {p : Prop} [Decidable p], I args₁ →
      (if p then ignoreRc args₁ (motrObjIovecClone conf obj args₁ off len base)
        else .ok (motrObjIovecPartialPage obj args₁ off len base)) = .ok args' → I args' := by
    intro args₁ off len base p _ hI₁ h
    split at h
    · exact clone_rule hclone h hI₁
    · exact Except.ok.inj h ▸ hpart _ _ _ _ hI₁
  rw [motrObjIovecSplit2] at h
  by_cases hoff : v.miovOff % motrObjIoPagesize obj = 0
  · simp only [if_pos hoff] at h
    obtain ⟨args₁, h₁, h⟩ := bind_eq_ok_iff.mp h
    exact hsecond (clone_rule hclone h₁ hI) h
  · simp only [if_neg hoff] at h
    exact hsecond (hpart _ _ _ _ hI) h

theorem split3_rule {v : MioIovec ℕ} (h : motrObjIovecSplit3 conf obj args v = .ok args')
    (hI : I args) : I args' := by
  rw [motrObjIovecSplit3] at h
  dsimp only at h
  split at h
  · exact absurd h (by simp)
  · obtain ⟨args₁, h₁, h⟩ := bind_eq_ok_iff.mp h
    have hI₁ : I args₁ := clone_rule hclone h₁ (hpart _ _ _ _ hI)
    exact ite_ok_rule h (hpart _ _ _ _ hI₁) hI₁

theorem adjustOne_rule {v : MioIovec ℕ} (h : motrObjIovecAdjustOne conf obj args v = .ok args')
    (hI : I args) : I args' := by
  rw [motrObjIovecAdjustOne] at h
  split at h
  · exact clone_rule hclone h hI
  · split at h
    · rw [motrObjIovecAdjustWithAlignedOff] at h
      split at h
      · exact split2_rule hpart hclone h hI
      · exact Except.ok.inj h ▸ hpart _ _ _ _ hI
    · rw [motrObjIovecAdjustWithNonalignedOff] at h
      split at h
      · exact Except.ok.inj h ▸ hpart _ _ _ _ hI
      · split at h
        · exact split2_rule hpart hclone h hI
        · exact split3_rule hpart hclone h hI

/-- **The rule for the planner**: what the part of a page and one more vector from
the application keep, the planner keeps. -/
theorem adjust_rule (h : motrObjIovecAdjust conf obj args = .ok args') (hI : I args) : I args' :=
  foldlM_inv (fun _ _ _ h => adjustOne_rule hpart hclone h) h hI

end Rule

/-! ### Which vectors are emptied -/

/-- The copies from the first one into the page of a vector on. -/
def copiesFrom (D : List (MioIovec Ptr)) (r : MioIovec Ptr) : List (MioIovec Ptr) :=
  D.dropWhile fun d => r.miovBase ≠ d.miovBase

/-- The copies at the front of the list fill the page from a position on, one after
the other and without a gap. -/
inductive FillsFrom (ps : ℕ) (page : Ptr) : ℕ → List (MioIovec Ptr) → Prop
  /-- The page is full. -/
  | full (D : List (MioIovec Ptr)) : FillsFrom ps page ps D
  /-- One copy more. -/
  | copy {len : ℕ} {d : MioIovec Ptr} {D : List (MioIovec Ptr)} (hpage : page = d.miovBase)
      (hoff : d.miovOff ≤ len) (h : FillsFrom ps page (len + d.miovLen) D) :
      FillsFrom ps page len (d :: D)

/-- The vector at a position is spared: the first copy into the page of every vector
before it is to the start of that page, and its own page is filled by the copies
from the first one into it on. -/
def SparedIn (ps : ℕ) (R D : List (MioIovec Ptr)) (i : ℕ) : Prop :=
  (∀ j < i, ∀ r, R[j]? = some r → ∃ d ∈ (copiesFrom D r).head?, d.miovOff = 0) ∧
    ∃ r, R[i]? = some r ∧ FillsFrom ps r.miovBase 0 (copiesFrom D r)

/-- The read-before-write vector at a position of a plan is spared. -/
def MotrObjRwArgs.Spared (args : MotrObjRwArgs) (ps i : ℕ) : Prop :=
  SparedIn ps args.rwaRbwIovs (args.rwaDcIovs.map Prod.snd) i

variable {ps : ℕ}

/-- The inner loop of the optimisation. -/
theorem rbwCoveredLen_eq_iff_fillsFrom {page : Ptr} :
    ∀ {D : List (MioIovec Ptr)} {len : ℕ},
      rbwCoveredLen ps page 0 len D = ps ↔ FillsFrom ps page len D := by
  intro D
  induction D with
  | nil =>
    intro len
    rw [rbwCoveredLen]
    constructor
    · rintro rfl
      exact .full _
    · rintro ⟨⟩
      rfl
  | cons d D ih =>
    intro len
    rw [rbwCoveredLen, Nat.zero_add]
    split
    · next h => exact iff_of_true h (h ▸ .full _)
    · next hlen =>
      split
      · next hpage =>
        refine iff_of_false hlen ?_
        rintro (_ | ⟨h, -, -⟩)
        · exact hlen rfl
        · exact hpage h
      · next hpage =>
        split
        · next hgt =>
          refine iff_of_false hlen ?_
          rintro (_ | ⟨-, h, -⟩)
          · exact hlen rfl
          · exact absurd h (by omega)
        · next hle =>
          rw [ih]
          refine ⟨fun h => .copy (not_not.mp hpage) (Nat.le_of_not_lt hle) h, ?_⟩
          rintro (_ | ⟨-, -, h⟩)
          · exact absurd rfl hlen
          · exact h

/-- What the scan relies on: every page has a copy, and its copies are not before
those of an earlier page. -/
structure ScanOk (R D : List (MioIovec Ptr)) : Prop where
  /-- Every vector has a copy into its page. -/
  copy : ∀ r ∈ R, ∃ d ∈ D, d.miovBase = r.miovBase
  /-- The pages are in order. -/
  order : R.Pairwise fun r r' =>
    ∀ d ∈ D.takeWhile (fun d => r.miovBase ≠ d.miovBase), d.miovBase ≠ r'.miovBase
  /-- The vectors are not empty. -/
  pos : ∀ r ∈ R, 0 < r.miovLen

section Scan

variable {r : MioIovec Ptr} {R D : List (MioIovec Ptr)}

theorem takeWhile_append_copiesFrom (D : List (MioIovec Ptr)) (r : MioIovec Ptr) :
    D.takeWhile (fun d => r.miovBase ≠ d.miovBase) ++ copiesFrom D r = D :=
  List.takeWhile_append_dropWhile

/-- The first copy into a page. -/
theorem ScanOk.exists_copy (h : ScanOk (r :: R) D) :
    ∃ d D', copiesFrom D r = d :: D' ∧ d.miovBase = r.miovBase := by
  obtain ⟨d, hd, hbase⟩ := h.copy r List.mem_cons_self
  obtain ⟨-, e, D', -, hdrop, he, -⟩ := exists_dropWhile
    (f := fun d : MioIovec Ptr => decide (r.miovBase ≠ d.miovBase)) ⟨d, hd, by simp [hbase]⟩
  exact ⟨e, D', hdrop, (not_not.mp (of_decide_eq_false he)).symm⟩

/-- For the later pages the scan may as well start at the first copy into this
one. -/
theorem ScanOk.copiesFrom_eq (h : ScanOk (r :: R) D) {r' : MioIovec Ptr} (hr' : r' ∈ R) :
    copiesFrom (copiesFrom D r) r' = copiesFrom D r' := by
  have hnot := List.rel_of_pairwise_cons h.order hr'
  have hdrop : copiesFrom (D.takeWhile (fun d => r.miovBase ≠ d.miovBase) ++ copiesFrom D r) r' =
      copiesFrom (copiesFrom D r) r' := by
    refine List.dropWhile_append_of_pos fun d hd => ?_
    simpa using (hnot d hd).symm
  rw [takeWhile_append_copiesFrom] at hdrop
  exact hdrop.symm

theorem ScanOk.tail (h : ScanOk (r :: R) D) : ScanOk R (copiesFrom D r) where
  copy r' hr' := by
    obtain ⟨d, hd, hbase⟩ := h.copy r' (List.mem_cons_of_mem _ hr')
    rw [← takeWhile_append_copiesFrom D r, List.mem_append] at hd
    rcases hd with hd | hd
    · exact absurd hbase (List.rel_of_pairwise_cons h.order hr' d hd)
    · exact ⟨d, hd, hbase⟩
  order := by
    refine (List.pairwise_cons.mp h.order).2.imp_of_mem fun {a b} ha hb hab d hd => hab d ?_
    rw [← takeWhile_append_copiesFrom D r, List.takeWhile_append_of_pos]
    · exact List.mem_append_right _ hd
    · intro e he
      simpa using (List.rel_of_pairwise_cons h.order ha e he).symm
  pos r' hr' := h.pos r' (List.mem_cons_of_mem _ hr')

/-- Sparing a later vector. -/
theorem ScanOk.sparedIn_succ (h : ScanOk (r :: R) D) {i : ℕ} :
    SparedIn ps (r :: R) D (i + 1) ↔
      (∃ d ∈ (copiesFrom D r).head?, d.miovOff = 0) ∧ SparedIn ps R (copiesFrom D r) i := by
  have heq : ∀ {j : ℕ} {r' : MioIovec Ptr}, R[j]? = some r' →
      copiesFrom (copiesFrom D r) r' = copiesFrom D r' :=
    fun hj => h.copiesFrom_eq (List.mem_of_getElem? hj)
  constructor
  · rintro ⟨hbegun, r', hr', hfill⟩
    refine ⟨hbegun 0 (by omega) r rfl, fun j hj q hq => ?_, r', hr', ?_⟩
    · rw [heq hq]
      exact hbegun (j + 1) (by omega) q hq
    · rw [heq hr']
      exact hfill
  · rintro ⟨hfirst, hbegun, r', hr', hfill⟩
    refine ⟨fun j hj q hq => ?_, r', hr', heq hr' ▸ hfill⟩
    cases j with
    | zero =>
      obtain rfl : r = q := Option.some.inj hq
      exact hfirst
    | succ j => exact heq hq ▸ hbegun j (by omega) q hq

/-- **What the scan leaves**: every vector, or an empty one in the place of a vector
that is spared. -/
theorem optimiseLoop_spared (hps : 0 < ps) :
    ∀ {R D : List (MioIovec Ptr)}, ScanOk R D →
      ∃ R', motrObjReadBeforeWriteOptimiseLoop ps R D = .ok R' ∧
        List.Forall₂ (fun r r' => r' = r ∨ r'.miovLen = 0) R R' ∧
        ∀ i, SparedIn ps R D i ↔ ∃ r, R'[i]? = some r ∧ r.miovLen = 0 := by
  intro R
  induction R with
  | nil =>
    intro D _
    refine ⟨[], rfl, .nil, fun i => iff_of_false ?_ (by simp)⟩
    rintro ⟨-, r, hr, -⟩
    simp at hr
  | cons r R ih =>
    intro D h
    obtain ⟨d, D', hD, hbase⟩ := h.exists_copy
    have hpos := h.pos r List.mem_cons_self
    rw [motrObjReadBeforeWriteOptimiseLoop, ← copiesFrom, hD]
    dsimp only
    by_cases hoff : d.miovOff = 0
    · obtain ⟨R', hR', hall, hspared⟩ := ih h.tail
      rw [hD] at hR'
      rw [if_neg (not_not.mpr hoff), hR']
      refine ⟨_, rfl, .cons ?_ hall, fun i => ?_⟩
      · split
        · exact .inr rfl
        · exact .inl rfl
      · cases i with
        | zero =>
          have hfirst : SparedIn ps (r :: R) D 0 ↔ FillsFrom ps r.miovBase d.miovLen D' := by
            constructor
            · rintro ⟨-, q, hq, hfill⟩
              obtain rfl : r = q := Option.some.inj hq
              rw [hD] at hfill
              rcases hfill with _ | ⟨-, -, hfill⟩
              · exact absurd hps (lt_irrefl 0)
              · rwa [Nat.zero_add] at hfill
            · intro hfill
              refine ⟨fun j hj => absurd hj (Nat.not_lt_zero j), r, rfl, ?_⟩
              rw [hD]
              exact .copy hbase.symm hoff.le (by rwa [Nat.zero_add])
          rw [hfirst, hoff, hbase, ← rbwCoveredLen_eq_iff_fillsFrom]
          constructor
          · intro hlen
            exact ⟨_, rfl, by rw [if_pos hlen]⟩
          · rintro ⟨q, hq, hzero⟩
            obtain rfl := Option.some.inj hq
            by_contra hlen
            rw [if_neg hlen] at hzero
            omega
        | succ i =>
          rw [h.sparedIn_succ, and_iff_right ⟨d, by simp [hD], hoff⟩, hspared i]
          rfl
    · -- the scan ends here
      have hno : ¬∃ e ∈ (copiesFrom D r).head?, e.miovOff = 0 := by
        simp [hD, hoff]
      rw [if_pos hoff]
      refine ⟨_, rfl, List.forall₂_same.mpr fun _ _ => .inl rfl, fun i => iff_of_false ?_ ?_⟩
      · cases i with
        | zero =>
          rintro ⟨-, q, hq, hfill⟩
          obtain rfl : r = q := Option.some.inj hq
          rw [hD] at hfill
          rcases hfill with _ | ⟨-, hle, -⟩
          · exact absurd hps (lt_irrefl 0)
          · omega
        | succ i => exact fun hs => hno (h.sparedIn_succ.mp hs).1
      · rintro ⟨q, hq, hzero⟩
        have := h.pos q (List.mem_of_getElem? hq)
        omega

end Scan

/-! ### What the planner makes sure of -/

/-- The extra pages of a plan, and the copies into them, are numbered in order. -/
structure PagesInv (obj : MioObj) (args : MotrObjRwArgs) : Prop where
  /-- It is the plan of a write. -/
  isWrite : args.rwaIsWrite = true
  /-- Nothing has been read yet. -/
  rbwProgress : args.rwaRbwProgress = 0
  /-- An extra page at the end of the vectors is the newest one. -/
  last : ∀ w ∈ args.rwaAlignedIovs.getLast?, ∀ k j, w.miovBase = .page k j →
    k + 1 = args.rwaNrExtraPages
  /-- Copies go into extra pages that there are. -/
  dst : ∀ d ∈ args.rwaDcIovs.map Prod.snd, ∀ k j, d.miovBase = .page k j → k < args.rwaNrExtraPages
  /-- They are in the order of the pages. -/
  dstOrder : (args.rwaDcIovs.map Prod.snd).Pairwise fun d d' => ∀ k j k' j',
    d.miovBase = .page k j → d'.miovBase = .page k' j' → k ≤ k'
  /-- What is read before the write are extra pages with a copy into them. -/
  rbw : ∀ r ∈ args.rwaRbwIovs, r.miovLen = motrObjIoPagesize obj ∧
    (∃ k < args.rwaNrExtraPages, r.miovBase = .page k 0) ∧
    ∃ d ∈ args.rwaDcIovs.map Prod.snd, d.miovBase = r.miovBase
  /-- These are in order too. -/
  rbwOrder : args.rwaRbwIovs.Pairwise fun r r' => ∀ k k',
    r.miovBase = .page k 0 → r'.miovBase = .page k' 0 → k < k'

/-- A copy into the newest page. -/
theorem PagesInv.copy (h : PagesInv obj args) {c : MioIovec Ptr × MioIovec Ptr}
    (hc : ∀ k j, c.2.miovBase = .page k j → k + 1 = args.rwaNrExtraPages) :
    PagesInv obj { args with rwaDcIovs := args.rwaDcIovs ++ [c] } where
  isWrite := h.isWrite
  rbwProgress := h.rbwProgress
  last := h.last
  dst := by
    simp only [List.map_append, List.map_cons, List.map_nil, List.forall_mem_append,
      List.forall_mem_singleton]
    exact ⟨h.dst, fun k j hk => by have := hc k j hk; omega⟩
  dstOrder := by
    simp only [List.map_append, List.map_cons, List.map_nil]
    refine List.pairwise_append.mpr ⟨h.dstOrder, List.pairwise_singleton _ _, ?_⟩
    intro d hd d' hd' k j k' j' hk hk'
    obtain rfl := List.mem_singleton.mp hd'
    have h1 := h.dst d hd k j hk
    have h2 := hc k' j' hk'
    omega
  rbw r hr := by
    obtain ⟨hlen, hpage, d, hd, hbase⟩ := h.rbw r hr
    exact ⟨hlen, hpage, d, by simp only [List.map_append]; exact List.mem_append_left _ hd, hbase⟩
  rbwOrder := h.rbwOrder

/-- A new page. -/
theorem PagesInv.newPage (h : PagesInv obj args) (off len : ℕ) :
    PagesInv obj { args with
      rwaAlignedIovs := args.rwaAlignedIovs ++ [⟨.page args.rwaNrExtraPages 0, off, len⟩]
      rwaNrExtraPages := args.rwaNrExtraPages + 1 } where
  isWrite := h.isWrite
  rbwProgress := h.rbwProgress
  last w hw k j hk := by
    obtain rfl : ⟨.page args.rwaNrExtraPages 0, off, len⟩ = w := by simpa using hw
    rw [Ptr.page.injEq] at hk
    exact congrArg (· + 1) hk.1.symm
  dst d hd k j hk := Nat.lt_succ_of_lt (h.dst d hd k j hk)
  dstOrder := h.dstOrder
  rbw r hr := by
    obtain ⟨hlen, ⟨k, hk, hbase⟩, hcopy⟩ := h.rbw r hr
    exact ⟨hlen, ⟨k, Nat.lt_succ_of_lt hk, hbase⟩, hcopy⟩
  rbwOrder := h.rbwOrder

/-- A new page together with the copy into it. -/
theorem PagesInv.getPage (h : PagesInv obj args) {c : MioIovec Ptr × MioIovec Ptr}
    (hc : c.2.miovBase = .page args.rwaNrExtraPages 0) (off : ℕ) :
    PagesInv obj { motrObjIovecGetPage obj args off with rwaDcIovs := args.rwaDcIovs ++ [c] } := by
  have hpage := (h.newPage off (motrObjIoPagesize obj)).copy (c := c) fun k j hk => by
    rw [hc, Ptr.page.injEq] at hk
    exact congrArg (· + 1) hk.1.symm
  by_cases hrbw : args.rwaIsWrite ∧ off < obj.size
  · simp only [motrObjIovecGetPage, if_pos hrbw]
    refine { hpage with rbw := ?_, rbwOrder := ?_ }
    · refine List.forall_mem_append.mpr ⟨hpage.rbw, List.forall_mem_singleton.mpr ?_⟩
      refine ⟨rfl, ⟨_, Nat.lt_succ_self _, rfl⟩, c.2, ?_, hc⟩
      simp
    · refine List.pairwise_append.mpr ⟨h.rbwOrder, List.pairwise_singleton _ _, ?_⟩
      intro r hr r' hr' k k' hk hk'
      obtain rfl := List.mem_singleton.mp hr'
      obtain ⟨-, ⟨n, hn, hbase⟩, -⟩ := h.rbw r hr
      simp only [Ptr.page.injEq] at hk'
      rw [hbase, Ptr.page.injEq] at hk
      omega
  · simp only [motrObjIovecGetPage, if_neg hrbw]
    exact hpage

/-- **The planner keeps the order.** -/
theorem PagesInv.partialPage (h : PagesInv obj args) (off len base : ℕ) :
    PagesInv obj (motrObjIovecPartialPage obj args off len base) := by
  rw [motrObjIovecPartialPage]
  split
  · exact h
  · cases hlast : args.rwaAlignedIovs.getLast? with
    | none => exact h.getPage (by simp [dcPair, motrObjIovecGetPage, h.isWrite]) _
    | some prev =>
      by_cases hprev : prev.miovOff = off / motrObjIoPagesize obj * motrObjIoPagesize obj
      · simp only [if_pos hprev]
        refine h.copy fun k j hk => h.last prev hlast k j ?_
        simpa [dcPair, h.isWrite] using hk
      · simp only [if_neg hprev]
        exact h.getPage (by simp [dcPair, motrObjIovecGetPage, h.isWrite]) _

/-- A vector from the application. -/
theorem PagesInv.app (h : PagesInv obj args) (a off len : ℕ) :
    PagesInv obj { args with rwaAlignedIovs := args.rwaAlignedIovs ++ [⟨.app a, off, len⟩] } :=
  { h with last := by simp }

/-- The plan of every write is in order. -/
theorem pagesInv_of_writePlan {iov : List (MioIovec ℕ)} (h : writePlan conf obj iov = .ok args) :
    PagesInv obj args := by
  obtain ⟨args₀, halloc, h⟩ := bind_eq_ok_iff.mp h
  obtain rfl : freshArgs true iov = args₀ := by
    rw [motrObjRwArgsAlloc] at halloc
    split at halloc
    · exact absurd halloc (by simp)
    · exact absurd halloc (by simp)
    · exact Except.ok.inj halloc
  dsimp only at h
  split at h
  · exact absurd h (by simp)
  · refine adjust_rule (fun _ off len base h => h.partialPage off len base)
      (fun _ a off len h => h.app a off len) h ?_
    exact ⟨rfl, rfl, by simp [motrObjIovecSort, freshArgs], by simp [motrObjIovecSort, freshArgs],
      List.Pairwise.nil, by simp [motrObjIovecSort, freshArgs], List.Pairwise.nil⟩

/-- **The scan finds what it looks for.** -/
theorem PagesInv.scanOk (h : PagesInv obj args) :
    ScanOk args.rwaRbwIovs (args.rwaDcIovs.map Prod.snd) where
  copy r hr := (h.rbw r hr).2.2
  order := by
    refine h.rbwOrder.imp_of_mem fun {r r'} hr hr' hlt d hd hbase => ?_
    obtain ⟨-, ⟨k, -, hk⟩, e, he, her⟩ := h.rbw r hr
    obtain ⟨-, ⟨k', -, hk'⟩, -⟩ := h.rbw r' hr'
    -- the copy into the earlier page comes later
    have he' : e ∈ copiesFrom (args.rwaDcIovs.map Prod.snd) r := by
      rw [← takeWhile_append_copiesFrom (args.rwaDcIovs.map Prod.snd) r, List.mem_append] at he
      refine he.resolve_left fun he => ?_
      exact absurd her.symm (by simpa using List.mem_takeWhile_imp he)
    have hmono := h.dstOrder
    rw [← takeWhile_append_copiesFrom (args.rwaDcIovs.map Prod.snd) r] at hmono
    have hle := (List.pairwise_append.mp hmono).2.2 d hd e he' k' 0 k 0 (hbase.trans hk')
      (her.trans hk)
    have := hlt k k' hk hk'
    omega
  pos r hr := by
    rw [(h.rbw r hr).1]
    exact motrObjIoPagesize_pos obj

/-! ### What goes into the first op -/

/-- **The first op holds no empty vector** exactly if none of the vectors is emptied
that it would hold anyway, and neither is the one after these. -/
theorem take_rwBatchCnt_pos_iff {max : ℕ} (hmax : max < 2 ^ 64) {R R' : List (MioIovec Ptr)}
    (h : List.Forall₂ (fun r r' => r' = r ∨ r'.miovLen = 0) R R') (hpos : ∀ r ∈ R, 0 < r.miovLen) :
    ∀ {ioSize : ℕ}, ioSize ≤ max →
      ((∀ r ∈ R'.take (rwBatchCnt max ioSize R'), 0 < r.miovLen) ↔
        ∀ i ≤ rwBatchCnt max ioSize R, ¬∃ r, R'[i]? = some r ∧ r.miovLen = 0) := by
  induction h with
  | nil => simp [rwBatchCnt]
  | @cons r r' R R' hr h ih =>
    intro ioSize hle
    obtain ⟨hrpos, hrest⟩ := List.forall_mem_cons.mp hpos
    by_cases hzero : r'.miovLen = 0
    · -- an empty vector fits into any op
      refine iff_of_false ?_ fun hno => hno 0 (Nat.zero_le _) ⟨r', rfl, hzero⟩
      rw [rwBatchCnt, hzero, Nat.add_zero, u64_of_lt (by omega), if_neg (by omega)]
      intro hall
      exact absurd (hall r' (by simp)) (by omega)
    · obtain rfl : r' = r := hr.resolve_right hzero
      have hsplit : ∀ n, (∀ i ≤ n + 1, ¬∃ q, (r' :: R')[i]? = some q ∧ q.miovLen = 0) ↔
          ∀ i ≤ n, ¬∃ q, R'[i]? = some q ∧ q.miovLen = 0 := by
        intro n
        refine ⟨fun hall i hi => hall (i + 1) (by omega), fun hall i hi => ?_⟩
        cases i with
        | zero =>
          rintro ⟨q, hq, hq0⟩
          obtain rfl := Option.some.inj hq
          exact hzero hq0
        | succ i => exact hall i (by omega)
      rw [rwBatchCnt, rwBatchCnt]
      split
      · -- nothing fits
        refine iff_of_true (by simp) fun i hi => ?_
        obtain rfl : i = 0 := by omega
        rintro ⟨q, hq, hq0⟩
        obtain rfl := Option.some.inj hq
        exact hzero hq0
      · next hfit =>
        rw [hsplit, List.take_succ_cons, List.forall_mem_cons, and_iff_right hrpos]
        exact ih hrest (Nat.le_of_not_lt hfit)

/-! ### The ops of a write -/

/-- A driver op that is no read, and whose post-processing function launches none. -/
def WritesOn (d : MioDriverOp) : Prop :=
  d.mdoPostProc ≠ .read ∧ ∀ ext, d.mdoOp ≠ .obj .read ext

/-- The first READ is of a batch of the read-before-write vectors. -/
theorem head_of_first_launchRbw {max : ℕ} (hmax : motrObjMaxSizePerOp conf obj = .ok max)
    {opcode : M0ObjOpcode} {mem : Mem} {op : RwOp}
    (h : launchRbw conf obj opcode args mem = .ok op) (hprogress : args.rwaRbwProgress = 0) :
    0 < rwBatchCnt max 0 args.rwaRbwIovs ∧
      op.head = ⟨.obj opcode (args.rwaRbwIovs.take (rwBatchCnt max 0 args.rwaRbwIovs)),
        .readBeforeWrite⟩ := by
  have hdrop : args.rwaRbwIovs.drop args.rwaRbwProgress = args.rwaRbwIovs := by
    rw [hprogress, List.drop_zero]
  rcases Nat.eq_zero_or_pos (rwBatchCnt max 0 args.rwaRbwIovs) with hzero | hpos
  · rw [launchRbw_error hmax (by rw [hdrop, hzero])] at h
    exact absurd h (by simp)
  · rw [launchRbw_eq hmax (by rw [hdrop]) hpos, hdrop] at h
    rw [← Except.ok.inj h]
    exact ⟨hpos, rfl⟩

/-- The ops after the first one of a write are no reads. -/
theorem writesOn_of_postProc {op op' : RwOp} {obj' : MioObj} {max : ℕ}
    (hmax : motrObjMaxSizePerOp conf obj = .ok max)
    (hpp : op.head.mdoPostProc ≠ .read) (h : postProc conf obj op = .ok (.next, obj', op')) :
    WritesOn op'.head ∧ motrObjMaxSizePerOp conf obj' = .ok max := by
  have haligned : ∀ {args mem op₁}, launchAligned conf obj .write .write args mem = .ok op₁ →
      WritesOn op₁.head := by
    intro args mem op₁ h₁
    obtain ⟨hpp₁, ext, hext⟩ := head_of_launchAligned h₁
    exact ⟨by simp [hpp₁], by simp [hext]⟩
  rw [postProc] at h
  split at h
  · rw [motrObjWritePp] at h
    split at h
    · obtain ⟨op₁, h₁, h⟩ := bind_eq_ok_iff.mp h
      simp only [Except.ok.injEq, Prod.mk.injEq, true_and] at h
      exact ⟨h.2 ▸ haligned h₁, h.1 ▸ hmax⟩
    · split at h
      · simp at h
      · simp only [Except.ok.injEq, Prod.mk.injEq, true_and] at h
        refine ⟨?_, h.1 ▸ hmax⟩
        rw [← h.2]
        exact ⟨by simp, by simp⟩
  · rw [motrObjReadBeforeWritePp] at h
    dsimp only at h
    split at h
    · obtain ⟨op₁, h₁, h⟩ := bind_eq_ok_iff.mp h
      simp only [Except.ok.injEq, Prod.mk.injEq, true_and] at h
      exact ⟨h.2 ▸ haligned h₁, h.1 ▸ hmax⟩
    · obtain ⟨op₁, h₁, h⟩ := bind_eq_ok_iff.mp h
      simp only [Except.ok.injEq, Prod.mk.injEq, true_and] at h
      refine ⟨?_, h.1 ▸ hmax⟩
      obtain ⟨hpp₁, ext, hext⟩ := head_of_launchRbw h₁
      rw [← h.2]
      exact ⟨by simp [hpp₁], by simp [hext]⟩
  · next hread => exact absurd hread hpp
  · simp at h

/-- All ops after the first one of a write are no reads. -/
theorem writesOn_of_after {max : ℕ} (hmax : motrObjMaxSizePerOp conf obj = .ok max)
    {cluster : Cluster} {op : RwOp} (hpp : op.head.mdoPostProc ≠ .read) :
    ∀ {n : ℕ} {s : IoState}, after (chainStep conf) ⟨cluster, obj, op⟩ (n + 1) = some s →
      WritesOn s.op.head ∧ motrObjMaxSizePerOp conf s.obj = .ok max := by
  have hstep : ∀ {t s : IoState}, motrObjMaxSizePerOp conf t.obj = .ok max →
      t.op.head.mdoPostProc ≠ .read → chainStep conf t = .inl s →
      WritesOn s.op.head ∧ motrObjMaxSizePerOp conf s.obj = .ok max := by
    intro t s ht htpp h
    simp only [chainStep] at h
    split at h
    · exact absurd h (by simp)
    · next hrc =>
      obtain rfl := Sum.inl.inj h
      refine writesOn_of_postProc ht ?_ hrc
      exact htpp
    · exact absurd h (by simp)
  intro n
  induction n with
  | zero =>
    intro s h
    obtain ⟨t, ht, h⟩ := after_succ_inv h
    obtain rfl := Option.some.inj ht
    exact hstep hmax hpp h
  | succ n ih =>
    intro s h
    obtain ⟨t, ht, h⟩ := after_succ_inv h
    obtain ⟨⟨htpp, -⟩, htmax⟩ := ih ht
    exact hstep htmax htpp h

/-- **No read of nothing**: in every run of the write, every READ op has only extents
of positive length, and if all vectors are emptied there is none. -/
def ReadsOk (conf : MioMotrConfig) (obj : MioObj) (iov : List (MioIovec ℕ))
    (args : MotrObjRwArgs) : Prop :=
  ∀ (app : ℕ → Byte) (cluster : Cluster) (op : RwOp), mioMotrObjWritev conf obj app iov = .ok op →
    ∀ n s, after (chainStep conf) ⟨cluster, obj, op⟩ n = some s →
      ∀ ext, s.op.head.mdoOp = .obj .read ext → (∀ v ∈ ext, 0 < v.miovLen) ∧
        ¬∀ args', motrObjReadBeforeWriteOptimise obj args = .ok args' →
          ∀ r ∈ args'.rwaRbwIovs, r.miovLen = 0

/-- **When no op reads nothing.** -/
theorem readsOk_iff {iov : List (MioIovec ℕ)} {max : ℕ}
    (hmax : motrObjMaxSizePerOp conf obj = .ok max) (hplan : writePlan conf obj iov = .ok args) :
    ReadsOk conf obj iov args ↔
      ∀ i ≤ rwBatchCnt max 0 args.rwaRbwIovs, ¬args.Spared (motrObjIoPagesize obj) i := by
  have hscan := (pagesInv_of_writePlan hplan).scanOk
  obtain ⟨R', hloop, hall, hspared⟩ := optimiseLoop_spared (motrObjIoPagesize_pos obj) hscan
  have hopt : motrObjReadBeforeWriteOptimise obj args = .ok { args with rwaRbwIovs := R' } := by
    rw [motrObjReadBeforeWriteOptimise, hloop]
    rfl
  have hiff := take_rwBatchCnt_pos_iff (motrObjMaxSizePerOp_lt hmax) hall hscan.pos (Nat.zero_le _)
  simp only [MotrObjRwArgs.Spared, hspared, ← hiff]
  rw [ReadsOk]
  simp only [mioMotrObjWritev_eq_writePlan, hplan]
  change (∀ (app : ℕ → Byte) (cluster : Cluster) (op : RwOp), (if args.rwaRbwIovs ≠ [] then
    motrObjReadBeforeWriteOptimise obj args >>= fun args =>
      launchRbw conf obj .read args (Mem.init app) else _) = .ok op → _) ↔ _
  by_cases hnil : args.rwaRbwIovs = []
  · -- nothing is to be read
    rw [hnil] at hall
    cases hall
    refine iff_of_true (fun app cluster op hop n s hs ext hext => ?_) (by simp)
    rw [if_neg (not_not.mpr hnil)] at hop
    obtain ⟨hpp, ext', hhead⟩ := head_of_launchAligned hop
    cases n with
    | zero =>
      obtain rfl := Option.some.inj hs
      rw [hhead] at hext
      simp at hext
    | succ n =>
      exact absurd hext ((writesOn_of_after hmax (by simp [hpp]) hs).1.2 ext)
  · simp only [if_pos hnil, hopt]
    change (∀ (app : ℕ → Byte) (cluster : Cluster) (op : RwOp),
      launchRbw conf obj .read { args with rwaRbwIovs := R' } (Mem.init app) = .ok op → _) ↔ _
    have hprogress := (pagesInv_of_writePlan hplan).rbwProgress
    constructor
    · intro hreads
      rcases Nat.eq_zero_or_pos (rwBatchCnt max 0 R') with hzero | hpos
      · simp [hzero]
      · have hcnt : rwBatchCnt max 0 (R'.drop args.rwaRbwProgress) = rwBatchCnt max 0 R' := by
          rw [hprogress, List.drop_zero]
        obtain ⟨op, hop⟩ : ∃ op, launchRbw conf obj .read { args with rwaRbwIovs := R' }
          (Mem.init fun _ => 0) = .ok op := ⟨_, launchRbw_eq hmax hcnt hpos⟩
        obtain ⟨-, hhead⟩ := head_of_first_launchRbw hmax hop hprogress
        exact (hreads _ ⟨fun _ => 0, none⟩ op hop 0 _ rfl _ (by rw [hhead])).1
    · intro hpos app cluster op hop n s hs ext hext
      obtain ⟨hcnt, hhead⟩ := head_of_first_launchRbw hmax hop hprogress
      cases n with
      | zero =>
        obtain rfl := Option.some.inj hs
        rw [hhead] at hext
        obtain rfl := (M0Op.obj.inj hext).2
        refine ⟨hpos, fun hzero => ?_⟩
        -- the op has an extent, and it is one of the vectors
        obtain ⟨r, hr⟩ := List.exists_mem_of_length_pos
          (show 0 < (R'.take (rwBatchCnt max 0 R')).length by
            rw [List.length_take]
            exact lt_min hcnt (lt_of_lt_of_le hcnt (rwBatchCnt_le_length max 0 R')))
        have h0 := hzero _ rfl r (List.mem_of_mem_take hr)
        exact absurd (hpos r hr) (by omega)
      | succ n =>
        exact absurd hext ((writesOn_of_after hmax (by rw [hhead]; simp) hs).1.2 ext)

/-- The end of a page, and two halves of the next one: the scan does not get to
these. -/
theorem readsOk_endFirst :
    ∃ args, writePlan ⟨2⟩ fourByteObj [⟨0, 1, 1⟩, ⟨8, 2, 1⟩, ⟨16, 3, 1⟩] = .ok args ∧
      ReadsOk ⟨2⟩ fourByteObj [⟨0, 1, 1⟩, ⟨8, 2, 1⟩, ⟨16, 3, 1⟩] args := by
  have hmax : motrObjMaxSizePerOp ⟨2⟩ fourByteObj = .ok 2 := by decide
  have hplan : writePlan ⟨2⟩ fourByteObj [⟨0, 1, 1⟩, ⟨8, 2, 1⟩, ⟨16, 3, 1⟩] =
      .ok (planArgs fourByteObj 2 true [⟨0, 1, 1⟩, ⟨8, 2, 1⟩, ⟨16, 3, 1⟩]) := by
    decide +kernel
  refine ⟨_, hplan, (readsOk_iff hmax hplan).mpr fun i _ hs => ?_⟩
  have hcopies : copiesFrom ((planArgs fourByteObj 2 true
      [⟨0, 1, 1⟩, ⟨8, 2, 1⟩, ⟨16, 3, 1⟩]).rwaDcIovs.map Prod.snd) ⟨.page 0 0, 0, 2⟩ =
      [⟨.page 0 0, 1, 1⟩, ⟨.page 1 0, 0, 1⟩, ⟨.page 1 0, 1, 1⟩] := by
    decide +kernel
  obtain ⟨hbegun, r, hr, hfill⟩ := hs
  cases i with
  | zero =>
    obtain rfl : r = ⟨.page 0 0, 0, 2⟩ := (Option.some.inj hr).symm
    rw [hcopies] at hfill
    rcases hfill with _ | ⟨-, hle, -⟩
    exact absurd hle (by decide)
  | succ i =>
    obtain ⟨d, hd, hoff⟩ := hbegun 0 (Nat.succ_pos i) ⟨.page 0 0, 0, 2⟩ (by decide +kernel)
    rw [hcopies] at hd
    obtain rfl : d = ⟨.page 0 0, 1, 1⟩ := (Option.some.inj hd).symm
    exact absurd hoff (by decide)

/-- **Two halves of a page**: there is nothing to read, and a READ op that reads
nothing. -/
theorem not_readsOk_halves :
    ∃ args, writePlan ⟨2⟩ fourByteObj [⟨0, 0, 1⟩, ⟨8, 1, 1⟩] = .ok args ∧
      ¬ReadsOk ⟨2⟩ fourByteObj [⟨0, 0, 1⟩, ⟨8, 1, 1⟩] args := by
  refine ⟨planArgs fourByteObj 2 true [⟨0, 0, 1⟩, ⟨8, 1, 1⟩], by decide +kernel, fun h => ?_⟩
  have hhead : (mioMotrObjWritev ⟨2⟩ fourByteObj (fun _ => 0) [⟨0, 0, 1⟩, ⟨8, 1, 1⟩]).map
      RwOp.head = .ok ⟨.obj .read [⟨.page 0 0, 0, 0⟩], .readBeforeWrite⟩ := by
    decide +kernel
  cases hop : mioMotrObjWritev ⟨2⟩ fourByteObj (fun _ => 0) [⟨0, 0, 1⟩, ⟨8, 1, 1⟩] with
  | error f =>
    rw [hop] at hhead
    exact absurd hhead (by simp [Except.map])
  | ok op =>
    rw [hop] at hhead
    have hread := (h _ ⟨fun _ => 0, none⟩ op hop 0 _ rfl [⟨.page 0 0, 0, 0⟩]
      (by rw [Except.ok.inj hhead])).1 _ List.mem_cons_self
    exact absurd hread (by decide)

end CortxMio
