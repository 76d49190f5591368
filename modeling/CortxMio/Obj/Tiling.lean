import CortxMio.Obj.PlanExec

/-!
# The pages of a write, and the room for its vectors

The aligned vectors of a write come in order, share no byte and cover exactly the
pages that its ranges touch (`CortxMio.aligned_tile`).

The arrays of a plan are allocated before the ranges are sorted and cut, with
sizes from a formula: two copies for each range, and for its aligned vectors two
more than the number of ops its length would fill. `CortxMio.countsLe_planArgs`
counts what the planner writes against that. The formula rounds up by adding the
maximum size of an op to the length, and the sum is one of 64 bits; as long as it
does not wrap around, there is room for all vectors
(`CortxMio.tiles_and_fits`). With a limit close to `2 ^ 64`, which is what a
negative number in the configuration gives, it does
(`CortxMio.not_fits_unlimited`).
-/

namespace CortxMio

open Lib

variable {conf : MioMotrConfig} {obj : MioObj} {max : ℕ} {iov : List (MioIovec ℕ)}

/-! ### Tiling -/

/-- **The aligned vectors tile the pages of the ranges.** -/
theorem aligned_tile (hpos : 0 < max) (hord : InOrder (writeSorted iov)) (x : ℕ) :
    PlanHas obj max iov x ↔
      ∃ v ∈ iov, ∃ y, v.Has y ∧ y / motrObjIoPagesize obj = x / motrObjIoPagesize obj := by
  have hps := motrObjIoPagesize_pos obj
  have hle : ∀ z, z / motrObjIoPagesize obj * motrObjIoPagesize obj ≤ z := fun z =>
    Nat.div_mul_le_self _ _
  have hlt : ∀ z, z < z / motrObjIoPagesize obj * motrObjIoPagesize obj + motrObjIoPagesize obj :=
    fun z => Nat.lt_div_mul_add hps
  constructor
  · rintro ⟨w, hw, hx⟩
    rcases (planInv_planArgs obj hpos true iov).vec w hw with
      ⟨p, hp, -, hdir, -⟩ | ⟨p, hp, hpw, k, -, rfl⟩
    · obtain ⟨v, hv, hpv⟩ := mem_reqPieces.mp hp
      have hof := (of_mem_rangePieces hps hpv).2
      refine ⟨v, hv, x, ⟨?_, ?_⟩, rfl⟩
      · exact le_trans hof.off (le_trans hdir.off hx.1)
      · exact lt_of_lt_of_le hx.2 (le_trans hdir.stop hof.stop)
    · obtain ⟨v, hv, hpv⟩ := mem_reqPieces.mp hp
      have hof := (of_mem_rangePieces hps hpv).2
      have hlen := (ok_of_mem_reqPieces hp).pos
      have hstop : p.off + p.len ≤ v.stop := hof.stop
      refine ⟨v, hv, p.off, ⟨hof.off, by omega⟩, ?_⟩
      obtain ⟨h1, h2⟩ := hx
      simp only [Piece.pageOff, MioIovec.stop] at h1 h2
      exact (Nat.div_eq_of_lt_le h1 (by rwa [Nat.succ_mul])).symm
  · rintro ⟨v, hv, y, hy, hpage⟩
    obtain ⟨p, hp, hpy, -⟩ : ∃ p ∈ reqPieces obj true iov, p.Has y ∧ _ :=
      exists_piece_of_has hv hy
    have h1 := hle x
    have h2 := hlt x
    cases hw : p.whole with
    | true =>
      have h3 := hle y
      have h4 := hlt y
      obtain ⟨h5, h6⟩ := (ok_of_mem_reqPieces hp).contains_page hw hpy h3 h4
      rw [hpage] at h5 h6
      exact planHas_of_piece hpos hord hp ⟨le_trans h5 h1, lt_of_lt_of_le h2 h6⟩
    | false =>
      have hq := (ok_of_mem_reqPieces hp).page_eq hw hpy (hle y) (hlt y)
      rw [hpage] at hq
      refine planHas_of_part hpos hord (mem_parts.mpr ⟨hp, hw⟩) ?_ ?_
      · rwa [hq]
      · rwa [hq]

/-! ### Counting -/

/-- A plan fits into arrays of these sizes: that of the aligned vectors, and those
of the read-before-write vectors, the copies and the extra pages. -/
structure CountsLe (args : MotrObjRwArgs) (alignedCnt dcCnt : ℕ) : Prop where
  /-- The aligned vectors. -/
  aligned : args.rwaAlignedIovs.length ≤ alignedCnt
  /-- The read-before-write vectors. -/
  rbw : args.rwaRbwIovs.length ≤ dcCnt
  /-- The copies. -/
  dc : args.rwaDcIovs.length ≤ dcCnt
  /-- The extra pages. -/
  pages : args.rwaNrExtraPages ≤ dcCnt

/-- How many chunks there are. -/
theorem length_chunks_le (hpos : 0 < max) :
    ∀ (fuel off len base : ℕ), (chunks max fuel off len base).length ≤ (len + max - 1) / max := by
  intro fuel
  induction fuel with
  | zero => exact fun _ _ _ => Nat.zero_le _
  | succ fuel ih =>
    intro off len base
    rw [chunks]
    split
    · exact Nat.zero_le _
    · next hlen =>
      rw [List.length_cons]
      refine le_trans (Nat.succ_le_succ (ih _ _ _)) ?_
      rcases Nat.lt_or_ge max len with hlt | hge
      · rw [Nat.min_eq_right (by omega), show len - max + max - 1 = len - 1 by omega,
          show len + max - 1 = len - 1 + max by omega, Nat.add_div_right _ hpos]
      · rw [Nat.min_eq_left hge, Nat.sub_self, Nat.zero_add,
          Nat.div_eq_of_lt (by omega : max - 1 < max)]
        exact (Nat.one_le_div_iff hpos).mpr (by omega)

section Count

variable {args : MotrObjRwArgs} {a c : ℕ}

variable (obj) in
/-- A new page takes one place in each array but that of the copies. -/
theorem countsLe_getPage (h : CountsLe args a c) (alignedOff : ℕ) :
    CountsLe (motrObjIovecGetPage obj args alignedOff) (a + 1) (c + 1) ∧
      (motrObjIovecGetPage obj args alignedOff).rwaDcIovs = args.rwaDcIovs := by
  obtain ⟨h1, h2, h3, h4⟩ := h
  refine ⟨⟨?_, ?_, Nat.le_succ_of_le h3, Nat.succ_le_succ h4⟩, rfl⟩
  · rw [motrObjIovecGetPage, List.length_append]
    exact Nat.succ_le_succ h1
  · rw [motrObjIovecGetPage]
    split
    · rw [List.length_append]
      exact Nat.succ_le_succ h2
    · exact Nat.le_succ_of_le h2

variable (obj max) in
/-- A part of a page takes at most one place in each array. -/
theorem CountsLe.addPiece_part (h : CountsLe args a c) (off len base : ℕ) :
    CountsLe (addPiece obj max args ⟨off, len, base, false⟩) (a + 1) (c + 1) := by
  rw [addPiece, if_neg (by simp), motrObjIovecPartialPage]
  have hsame : CountsLe args (a + 1) (c + 1) :=
    ⟨Nat.le_succ_of_le h.aligned, Nat.le_succ_of_le h.rbw, Nat.le_succ_of_le h.dc,
      Nat.le_succ_of_le h.pages⟩
  -- one copy more
  have hcopy : ∀ args' : MotrObjRwArgs, CountsLe args' (a + 1) (c + 1) →
      args'.rwaDcIovs = args.rwaDcIovs → ∀ d,
      CountsLe { args' with rwaDcIovs := args'.rwaDcIovs ++ [d] } (a + 1) (c + 1) := by
    intro args' h' hdc d
    refine ⟨h'.aligned, h'.rbw, ?_, h'.pages⟩
    rw [hdc, List.length_append]
    exact Nat.succ_le_succ h.dc
  split
  · exact hsame
  · obtain ⟨hnew, hdc⟩ := countsLe_getPage obj h
      (off / motrObjIoPagesize obj * motrObjIoPagesize obj)
    cases args.rwaAlignedIovs.getLast? with
    | none => exact hcopy _ hnew hdc _
    | some prev =>
      by_cases hprev : prev.miovOff = off / motrObjIoPagesize obj * motrObjIoPagesize obj
      · simp only [if_pos hprev]
        exact hcopy _ hsame rfl _
      · simp only [if_neg hprev]
        exact hcopy _ hnew hdc _

variable (obj) in
/-- Whole pages take as many places as there are chunks. -/
theorem CountsLe.addPiece_whole (h : CountsLe args a c) (hpos : 0 < max) (off len base : ℕ) :
    CountsLe (addPiece obj max args ⟨off, len, base, true⟩) (a + (len + max - 1) / max) c := by
  rw [addPiece, if_pos rfl]
  refine ⟨?_, h.rbw, h.dc, h.pages⟩
  rw [List.length_append]
  exact Nat.add_le_add h.aligned (length_chunks_le hpos _ _ _ _)

variable (obj) in
/-- **The room that one range takes**, wherever it is and even if it is empty. -/
theorem CountsLe.range (h : CountsLe args a c) (hpos : 0 < max) (v : MioIovec ℕ) :
    CountsLe ((rangePieces (motrObjIoPagesize obj) v).foldl (addPiece obj max) args)
      (a + ((v.miovLen + max - 1) / max + 2)) (c + 2) := by
  have hmid : midLen (motrObjIoPagesize obj) v.miovOff v.miovLen ≤ v.miovLen := by
    have := head_mid_tail (motrObjIoPagesize obj) v.miovOff v.miovLen
    omega
  rw [foldl_rangePieces]
  generalize headLen (motrObjIoPagesize obj) v.miovOff v.miovLen = hd
  generalize midLen (motrObjIoPagesize obj) v.miovOff v.miovLen = md at hmid ⊢
  have hhead := h.addPiece_part obj max v.miovOff hd v.miovBase
  have hwhole := hhead.addPiece_whole obj hpos (v.miovOff + hd) md (v.miovBase + hd)
  have hall := hwhole.addPiece_part obj max (v.miovOff + hd + md)
    (tailLen (motrObjIoPagesize obj) v.miovOff v.miovLen) (v.miovBase + hd + md)
  refine ⟨le_trans hall.aligned ?_, hall.rbw, hall.dc, hall.pages⟩
  have hdiv : (md + max - 1) / max ≤ (v.miovLen + max - 1) / max := Nat.div_le_div_right (by omega)
  omega

variable (obj) in
theorem CountsLe.ranges (hpos : 0 < max) (vs : List (MioIovec ℕ)) :
    ∀ {args : MotrObjRwArgs} {a c : ℕ}, CountsLe args a c →
      CountsLe ((allPieces (motrObjIoPagesize obj) vs).foldl (addPiece obj max) args)
        (a + (vs.map fun v => (v.miovLen + max - 1) / max + 2).sum) (c + 2 * vs.length) := by
  induction vs with
  | nil => exact fun h => h
  | cons v vs ih =>
    intro args a c h
    have hrest := ih (h.range obj hpos v)
    rw [← List.foldl_append] at hrest
    refine ⟨le_trans hrest.aligned ?_, le_trans hrest.rbw ?_, le_trans hrest.dc ?_,
      le_trans hrest.pages ?_⟩
    · rw [List.map_cons, List.sum_cons]
      omega
    all_goals
      rw [List.length_cons]
      omega

end Count

/-- What the planner writes, for all ranges, overlapping or not. -/
theorem countsLe_planArgs (obj : MioObj) (hpos : 0 < max) (isWrite : Bool)
    (iov : List (MioIovec ℕ)) :
    CountsLe (planArgs obj max isWrite iov)
      (iov.map fun v => (v.miovLen + max - 1) / max + 2).sum (2 * iov.length) := by
  have hperm := sortedArgs_perm isWrite iov
  have hfresh : CountsLe (sortedArgs isWrite iov) 0 0 := ⟨le_rfl, le_rfl, le_rfl, le_rfl⟩
  have h := CountsLe.ranges obj hpos (sortedArgs isWrite iov).rwaSortedIovs hfresh
  rwa [Nat.zero_add, Nat.zero_add, (hperm.map _).sum_nat, hperm.length_eq] at h

/-! ### What is promised -/

/-- The vectors of a write are in order, not empty, and cover exactly the pages
that the ranges touch. -/
def PlanTiles (obj : MioObj) (iov : List (MioIovec ℕ)) (args : MotrObjRwArgs) : Prop :=
  InOrder args.rwaAlignedIovs ∧ (∀ w ∈ args.rwaAlignedIovs, 0 < w.miovLen) ∧
    ∀ x, (∃ w ∈ args.rwaAlignedIovs, w.Has x) ↔
      ∃ v ∈ iov, ∃ y, v.Has y ∧ y / motrObjIoPagesize obj = x / motrObjIoPagesize obj

/-- What the planner writes fits into the arrays that are allocated for it. -/
def PlanFits (conf : MioMotrConfig) (obj : MioObj) (isWrite : Bool) (iov : List (MioIovec ℕ)) :
    Prop :=
  ∀ alignedCnt dcCnt args,
    motrObjRwArgsEstimateIovcnts conf obj iov = .ok (alignedCnt, dcCnt) →
    motrObjIovecAdjust conf obj (motrObjIovecSort (freshArgs isWrite iov)).2 = .ok args →
    CountsLe args alignedCnt dcCnt

/-- Without a wrap-around the formula rounds up. -/
theorem estimateAlignedCnt_eq (hpos : 0 < max) {len : ℕ} (h : len + max ≤ 2 ^ 64) :
    estimateAlignedCnt max len = (len + max - 1) / max + 2 := by
  rw [estimateAlignedCnt]
  rcases Nat.lt_or_eq_of_le h with hlt | heq
  · rw [u64_of_lt hlt, u64Sub_of_le (by omega) hlt]
  · rw [heq]
    rfl

/-- **The vectors tile the pages, and there is room for them.** The first for all
ranges of a write that are not empty and do not overlap; the second for all ranges
whatsoever whose lengths, plus the maximum size of an op, stay within 64 bits. -/
theorem tiles_and_fits (hmax : motrObjMaxSizePerOp conf obj = .ok max) (hpos : 0 < max) :
    (∀ iov : List (MioIovec ℕ), (∀ v ∈ iov, 0 < v.miovLen) → iov.Pairwise MioIovec.Apart →
      (∀ v ∈ iov, v.NoWrap) →
      ∃ args, writePlan conf obj iov = .ok args ∧ PlanTiles obj iov args) ∧
    ∀ (isWrite : Bool) (iov : List (MioIovec ℕ)), (∀ v ∈ iov, v.NoWrap) →
      (∀ v ∈ iov, v.miovLen + max ≤ 2 ^ 64) → PlanFits conf obj isWrite iov := by
  constructor
  · intro iov hlen hapart hwrap
    have hrc : (motrObjIovecSort (freshArgs true iov)).1 = 0 :=
      motrObjIovecSort_of_apart hwrap hlen hapart
    have hord : InOrder (writeSorted iov) := (motrObjIovecSort_inOrder hwrap hrc).1
    refine ⟨_, writePlan_eq hmax hpos hwrap hrc, (writeInv_planArgs obj hpos hord).order, ?_,
      aligned_tile hpos hord⟩
    exact fun w hw => (planInv_planArgs obj hpos true iov).pos hw
  · intro isWrite iov hwrap hsum alignedCnt dcCnt args hest hadjust
    obtain rfl : planArgs obj max isWrite iov = args :=
      Except.ok.inj ((motrObjIovecAdjust_sortedArgs hmax hpos isWrite hwrap).symm.trans hadjust)
    have hcnt := countsLe_planArgs obj hpos isWrite iov
    rw [motrObjRwArgsEstimateIovcnts, hmax] at hest
    obtain ⟨rfl, rfl⟩ : (iov.map fun v => estimateAlignedCnt max v.miovLen).sum = alignedCnt ∧
        2 * iov.length = dcCnt := by
      have hif : ¬(max = 0 ∧ iov ≠ []) := fun h => hpos.ne' h.1
      simpa [bind, Except.bind, hif] using hest
    rwa [List.map_congr_left fun v hv => estimateAlignedCnt_eq hpos (hsum v hv)]

/-- A range in three pages, and an empty one, with an op of one page. -/
theorem tiles_and_fits_threePages :
    PlanFits ⟨2⟩ (.zeroed ⟨1, some ⟨1, 0, 1⟩, by decide⟩) true [⟨0, 1, 4⟩, ⟨9, 4, 0⟩] ∧
      ∃ args, writePlan ⟨2⟩ (.zeroed ⟨1, some ⟨1, 0, 1⟩, by decide⟩) [⟨0, 1, 4⟩] = .ok args ∧
        PlanTiles (.zeroed ⟨1, some ⟨1, 0, 1⟩, by decide⟩) [⟨0, 1, 4⟩] args := by
  have hmax : motrObjMaxSizePerOp ⟨2⟩ (.zeroed ⟨1, some ⟨1, 0, 1⟩, by decide⟩) = .ok 2 := by decide
  have h := tiles_and_fits hmax (by decide)
  exact ⟨h.2 true _ (by decide) (by decide), h.1 _ (by decide) (by decide) (by decide)⟩

/-- **Without a limit on the size of an op there is no room for the third page**
of the same range. -/
theorem not_fits_unlimited :
    ¬PlanFits ⟨2 ^ 64 - 1⟩ (.zeroed ⟨1, some ⟨1, 0, 1⟩, by decide⟩) true [⟨0, 1, 4⟩] := by
  intro h
  have hmax : motrObjMaxSizePerOp ⟨2 ^ 64 - 1⟩ (.zeroed ⟨1, some ⟨1, 0, 1⟩, by decide⟩) =
      .ok (2 ^ 64 - 1) := by
    decide +kernel
  have hlen := (h 2 2 _ (by decide +kernel)
    (motrObjIovecAdjust_sortedArgs hmax (by decide) true (by decide))).aligned
  exact absurd hlen (by decide +kernel)

end CortxMio
