import CortxMio.Obj.Batch

/-!
# Vectors of whole pages

What goes to Motr should start at a page boundary and be made of whole pages. The
extra pages are, but a range's whole pages are cut into chunks of the maximum size
of an op, which comes from the geometry of the pool and need not be a multiple of
the page size. `CortxMio.planAligned_iff` says exactly when all vectors of a plan
are of whole pages: when the maximum is a multiple of the page size, or no range
has more whole pages than fit into one op (`CortxMio.clonedLen`). It holds for all
lists of ranges, also of such as overlap, are empty or wrap around.
-/

namespace CortxMio

open Lib

/-- A vector of whole pages. -/
def MioIovec.PageAligned (ps : ℕ) (w : MioIovec Ptr) : Prop :=
  w.miovOff % ps = 0 ∧ 0 < w.miovLen ∧ w.miovLen % ps = 0

/-- All aligned vectors of the plan are of whole pages. -/
def PlanAligned (ps : ℕ) (args : MotrObjRwArgs) : Prop :=
  ∀ w ∈ args.rwaAlignedIovs, w.PageAligned ps

/-- How much of a range goes to Motr straight from application memory: its whole
pages. Of a range that wraps around these are whole pages at the start of the
object, and only if it starts inside the last page. -/
def clonedLen (ps : ℕ) (v : MioIovec ℕ) : ℕ :=
  if v.NoWrap then midLen ps v.miovOff v.miovLen
  else if v.miovOff % ps ≠ 0 ∧ (v.miovOff / ps + 1) * ps = 2 ^ 64 ∧
      v.stop - 2 ^ 64 ≤ v.miovOff / ps * ps then (v.stop - 2 ^ 64) / ps * ps
  else 0

/-! ### Chunks -/

/-- **Chunks are of whole pages** if the limit is, or if there is only one. -/
theorem chunks_pageAligned_iff {ps max : ℕ} (hpos : 0 < max) :
    ∀ {fuel off len base : ℕ}, off % ps = 0 → len % ps = 0 → len ≤ fuel →
      ((∀ w ∈ chunks max fuel off len base, w.PageAligned ps) ↔ len ≤ max ∨ ps ∣ max) := by
  intro fuel
  induction fuel with
  | zero =>
    intro off len base _ _ hfuel
    simp [chunks, show len = 0 by omega]
  | succ fuel ih =>
    intro off len base hoff hlen hfuel
    rw [chunks]
    split
    · next h0 => simp [h0]
    · next h0 =>
      rcases Nat.lt_or_ge max len with hlt | hle
      · -- the first chunk is as long as the limit
        rw [Nat.min_eq_right (by omega), List.forall_mem_cons]
        constructor
        · rintro ⟨⟨-, -, hmod⟩, -⟩
          exact .inr (Nat.dvd_of_mod_eq_zero hmod)
        · rintro (h | hdvd)
          · omega
          · have hmod : max % ps = 0 := Nat.mod_eq_zero_of_dvd hdvd
            refine ⟨⟨hoff, hpos, hmod⟩, (ih ?_ ?_ (by omega)).mpr (.inr hdvd)⟩
            · rw [Nat.add_mod, hoff, hmod, Nat.zero_mod]
            · exact Nat.mod_eq_zero_of_dvd
                ((Nat.dvd_sub (Nat.dvd_of_mod_eq_zero hlen) hdvd))
      · rw [Nat.min_eq_left hle, Nat.sub_self, chunks_len_zero, List.forall_mem_cons]
        refine iff_of_true ⟨⟨hoff, Nat.pos_of_ne_zero h0, hlen⟩, by simp⟩ (.inl hle)

section Plan

variable {conf : MioMotrConfig} {obj : MioObj} {max : ℕ} {args args' : MotrObjRwArgs}

/-! ### What the parts of the planner do -/

/-- Parts of pages are sent as whole pages. -/
theorem planAligned_partialPage (off len base : ℕ) :
    PlanAligned (motrObjIoPagesize obj) (motrObjIovecPartialPage obj args off len base) ↔
      PlanAligned (motrObjIoPagesize obj) args := by
  have hps := motrObjIoPagesize_pos obj
  have hpage : PlanAligned (motrObjIoPagesize obj) (motrObjIovecGetPage obj args
      (off / motrObjIoPagesize obj * motrObjIoPagesize obj)) ↔
      PlanAligned (motrObjIoPagesize obj) args := by
    simp only [PlanAligned, motrObjIovecGetPage, List.forall_mem_append, List.forall_mem_singleton]
    exact and_iff_left ⟨Nat.mul_mod_left _ _, hps, Nat.mod_self _⟩
  rw [motrObjIovecPartialPage]
  split
  · exact Iff.rfl
  · cases args.rwaAlignedIovs.getLast? with
    | none => exact hpage
    | some prev =>
      by_cases hprev : prev.miovOff = off / motrObjIoPagesize obj * motrObjIoPagesize obj
      · simp only [if_pos hprev]
        exact Iff.rfl
      · simp only [if_neg hprev]
        exact hpage

/-- Whole pages are sent in chunks. -/
theorem planAligned_whole (hpos : 0 < max) {off len base : ℕ}
    (hoff : off % motrObjIoPagesize obj = 0) (hlen : len % motrObjIoPagesize obj = 0) :
    PlanAligned (motrObjIoPagesize obj) (addPiece obj max args ⟨off, len, base, true⟩) ↔
      PlanAligned (motrObjIoPagesize obj) args ∧ (len ≤ max ∨ motrObjIoPagesize obj ∣ max) := by
  rw [addPiece, if_pos rfl, PlanAligned, List.forall_mem_append]
  exact and_congr_right fun _ => chunks_pageAligned_iff hpos hoff hlen le_rfl

theorem planAligned_part {off len base : ℕ} :
    PlanAligned (motrObjIoPagesize obj) (addPiece obj max args ⟨off, len, base, false⟩) ↔
      PlanAligned (motrObjIoPagesize obj) args := by
  rw [addPiece, if_neg (by simp)]
  exact planAligned_partialPage off len base

/-! ### Ranges that stay within 64 bits -/

theorem midLen_mod (ps off len : ℕ) : midLen ps off len % ps = 0 := Nat.mul_mod_left _ _

/-- The middle of a range starts at a page boundary, if there is one. -/
theorem mid_off_mod {ps : ℕ} (hps : 0 < ps) (off len : ℕ) :
    midLen ps off len = 0 ∨ (off + headLen ps off len) % ps = 0 := by
  rcases Nat.lt_or_ge (headLen ps off len) len with hlt | hge
  · exact .inr (headLen_boundary hps hlt)
  · refine .inl ?_
    rw [midLen, Nat.sub_eq_zero_of_le hge, Nat.zero_div, Nat.zero_mul]

theorem planAligned_rangePieces (hpos : 0 < max) (v : MioIovec ℕ) :
    PlanAligned (motrObjIoPagesize obj)
        ((rangePieces (motrObjIoPagesize obj) v).foldl (addPiece obj max) args) ↔
      PlanAligned (motrObjIoPagesize obj) args ∧
        (midLen (motrObjIoPagesize obj) v.miovOff v.miovLen ≤ max ∨
          motrObjIoPagesize obj ∣ max) := by
  rw [foldl_rangePieces, planAligned_part]
  rcases mid_off_mod (motrObjIoPagesize_pos obj) v.miovOff v.miovLen with h0 | hoff
  · rw [h0, addPiece_whole_zero, planAligned_part]
    exact (and_iff_left (.inl (Nat.zero_le _))).symm
  · rw [planAligned_whole hpos hoff (midLen_mod _ _ _), planAligned_part]

/-! ### Ranges that wrap around -/

section Wrap

/-- Page sizes are powers of two. -/
theorem motrObjIoPagesize_dvd (obj : MioObj) : motrObjIoPagesize obj ∣ 2 ^ 64 := by
  rw [motrObjIoPagesize, Nat.one_shiftLeft]
  exact Nat.pow_dvd_pow 2 (by have := obj.moDrvObj.oaBshift_lt; omega)

variable (obj) in
/-- The page of an offset ends within 64 bits. -/
theorem page_end_le {off : ℕ} (hoff : off < 2 ^ 64) :
    off / motrObjIoPagesize obj * motrObjIoPagesize obj + motrObjIoPagesize obj ≤ 2 ^ 64 := by
  have hps := motrObjIoPagesize_pos obj
  obtain ⟨M, hM⟩ := motrObjIoPagesize_dvd obj
  have hlt : off / motrObjIoPagesize obj < M := by
    rw [Nat.div_lt_iff_lt_mul hps, Nat.mul_comm, ← hM]
    exact hoff
  calc off / motrObjIoPagesize obj * motrObjIoPagesize obj + motrObjIoPagesize obj
      = (off / motrObjIoPagesize obj + 1) * motrObjIoPagesize obj := by ring
    _ ≤ M * motrObjIoPagesize obj := Nat.mul_le_mul_right _ hlt
    _ = 2 ^ 64 := by rw [hM, Nat.mul_comm]

theorem u64_of_wrap {n : ℕ} (h1 : 2 ^ 64 ≤ n) (h2 : n < 2 * 2 ^ 64) : u64 n = n - 2 ^ 64 := by
  rw [u64, Nat.mod_eq_sub_mod h1, Nat.mod_eq_of_lt (by omega)]

theorem u64Sub_of_lt {a b : ℕ} (h : a < b) (hb : b < 2 ^ 64) : u64Sub a b = a + 2 ^ 64 - b := by
  rw [u64Sub, u64_of_lt hb, u64_of_lt (by omega)]
  omega

theorem u64_mul_of_wrap {k ps : ℕ} (hps : 0 < ps) (hk : k * ps ≤ 2 ^ 64) :
    u64 ((2 ^ 64 - k) * ps) = u64 (2 ^ 64 - k * ps) := by
  have hsplit : (2 ^ 64 - k) * ps = 2 ^ 64 * (ps - 1) + (2 ^ 64 - k * ps) := by
    rw [Nat.sub_mul, Nat.mul_sub, Nat.mul_one]
    have hle : 2 ^ 64 ≤ 2 ^ 64 * ps := Nat.le_mul_of_pos_right _ hps
    omega
  rw [hsplit, u64, Nat.mul_add_mod, u64]

/-- Nothing is cloned if the end wraps around. -/
theorem ignoreRc_clone_wrap (hmax : motrObjMaxSizePerOp conf obj = .ok max) {off len : ℕ}
    (base : ℕ) (hoff : off < 2 ^ 64) (hlen : len < 2 ^ 64) (hwrap : 2 ^ 64 ≤ off + len) :
    ignoreRc args (motrObjIovecClone conf obj args off len base) = .ok args := by
  rw [motrObjIovecClone, hmax]
  change ignoreRc args (if _ then _ else _) = _
  split
  · rfl
  · rw [motrObjIovecCloneLoop.eq_def]
    dsimp only
    rw [u64_of_wrap hwrap (by omega), if_neg (by omega)]
    rfl

/-- What the end of a range that wraps around is. -/
structure Wraps (off len s : ℕ) : Prop where
  /-- The offset is one of 64 bits. -/
  off_lt : off < 2 ^ 64
  /-- So is the length. -/
  len_lt : len < 2 ^ 64
  /-- The end is `2 ^ 64` and this much more. -/
  stop : off + len = 2 ^ 64 + s

theorem Wraps.u64_stop {off len s : ℕ} (h : Wraps off len s) : u64 (off + len) = s := by
  obtain ⟨h1, h2, h3⟩ := h
  rw [u64_of_wrap (by omega) (by omega)]
  omega

variable (hmax : motrObjMaxSizePerOp conf obj = .ok max) (hpos : 0 < max)

include hmax

/-- A range that starts at a page boundary. -/
theorem split2_wrap_aligned {v : MioIovec ℕ} {s : ℕ} (hw : Wraps v.miovOff v.miovLen s)
    (hoff : v.miovOff % motrObjIoPagesize obj = 0)
    (h : motrObjIovecSplit2 conf obj args v = .ok args') :
    PlanAligned (motrObjIoPagesize obj) args' ↔ PlanAligned (motrObjIoPagesize obj) args := by
  obtain ⟨base, off, len⟩ := v
  have hps := motrObjIoPagesize_pos obj
  have hu := hw.u64_stop
  obtain ⟨h1, h2, h3⟩ := hw
  simp only at h1 h2 h3 hu hoff
  have hmod := Nat.mod_lt s hps
  have hle := Nat.mod_le s (motrObjIoPagesize obj)
  have hlen1 : u64Sub len (s % motrObjIoPagesize obj) = len - s % motrObjIoPagesize obj :=
    u64Sub_of_le (by omega) h2
  have hlen2 : u64Sub len (len - s % motrObjIoPagesize obj) = s % motrObjIoPagesize obj := by
    rw [u64Sub_of_le (by omega) h2]
    omega
  rw [motrObjIovecSplit2] at h
  simp only [hoff, if_true, hu, hlen1, hlen2] at h
  rw [ignoreRc_clone_wrap hmax base h1 (by omega) (by omega)] at h
  change (if _ then _ else _) = _ at h
  rw [if_neg (by omega)] at h
  obtain rfl := Except.ok.inj h
  exact planAligned_partialPage _ _ _

omit hmax in
/-- The whole pages before an end that is in the page `l`. -/
theorem whole_pages_of_end {ps l s : ℕ} (h1 : l * ps < s) (h2 : s ≤ l * ps + ps) :
    s / ps * ps = if s % ps ≠ 0 then l * ps else l * ps + ps := by
  rcases Nat.lt_or_ge s (l * ps + ps) with hlt | hge
  · have hdiv : s / ps = l := by
      refine Nat.div_eq_of_lt_le h1.le ?_
      rw [Nat.add_mul, Nat.one_mul]
      exact hlt
    have hdm := Nat.div_add_mod' s ps
    rw [hdiv] at hdm ⊢
    rw [if_pos (by omega)]
  · obtain rfl : s = l * ps + ps := le_antisymm h2 hge
    rw [if_neg (by simp), Nat.div_mul_cancel ⟨l + 1, by ring⟩]

omit hmax in
variable (obj) in
/-- The last page of a range that wraps around: the last page of all, or one
before its offset. -/
theorem Wraps.lastPage {off len s : ℕ} (hw : Wraps off len s) :
    (s = 0 ∧ u64Sub s 1 / motrObjIoPagesize obj * motrObjIoPagesize obj +
        motrObjIoPagesize obj = 2 ^ 64) ∨
      (0 < s ∧ s < off ∧ u64Sub s 1 / motrObjIoPagesize obj * motrObjIoPagesize obj < s ∧
        s ≤ u64Sub s 1 / motrObjIoPagesize obj * motrObjIoPagesize obj +
          motrObjIoPagesize obj) := by
  obtain ⟨h1, h2, h3⟩ := hw
  have hps := motrObjIoPagesize_pos obj
  rcases Nat.eq_zero_or_pos s with rfl | hs
  · have hlt := @Nat.lt_div_mul_add (2 ^ 64 - 1) _ hps
    have hle := page_end_le obj (show 2 ^ 64 - 1 < 2 ^ 64 by omega)
    rw [u64Sub_of_lt (by omega) (by omega), Nat.zero_add]
    exact .inl ⟨rfl, by omega⟩
  · have hlt := @Nat.lt_div_mul_add (s - 1) _ hps
    have hle := Nat.div_mul_le_self (s - 1) (motrObjIoPagesize obj)
    have hu : u64Sub s 1 = s - 1 := u64Sub_of_le hs (by omega)
    rw [hu]
    exact .inr ⟨hs, by omega, by omega, by omega⟩

/-- The start of the second part of a range split in three. -/
def secondOff (ps off : ℕ) : ℕ := u64 (off + (ps - off % ps))

/-- Its length. -/
def secondLen (ps off s : ℕ) : ℕ :=
  if s % ps ≠ 0 then u64 (u64Sub (u64Sub (u64Sub s 1 / ps) (off / ps)) 1 * ps)
  else u64 (u64Sub (u64Sub s 1 / ps) (off / ps) * ps)

omit hmax in
/-- The second part of a range that wraps around wraps around too, unless it starts
again at the start of the object. -/
theorem Wraps.second {off len s : ℕ} (hw : Wraps off len s)
    (hne : off / motrObjIoPagesize obj ≠ u64Sub s 1 / motrObjIoPagesize obj) :
    ((off / motrObjIoPagesize obj + 1) * motrObjIoPagesize obj ≠ 2 ^ 64 ∧
        2 ^ 64 ≤ secondOff (motrObjIoPagesize obj) off + secondLen (motrObjIoPagesize obj) off s) ∨
      ((off / motrObjIoPagesize obj + 1) * motrObjIoPagesize obj = 2 ^ 64 ∧
        s ≤ off / motrObjIoPagesize obj * motrObjIoPagesize obj ∧
        secondOff (motrObjIoPagesize obj) off = 0 ∧
        secondLen (motrObjIoPagesize obj) off s =
          s / motrObjIoPagesize obj * motrObjIoPagesize obj) := by
  have hps := motrObjIoPagesize_pos obj
  have hlast := hw.lastPage obj
  have hend := page_end_le obj hw.off_lt
  have hmod := Nat.mod_lt off hps
  have hdm := Nat.div_add_mod' off (motrObjIoPagesize obj)
  have hsm := Nat.div_add_mod' s (motrObjIoPagesize obj)
  have hsl := Nat.mod_lt s hps
  rw [secondOff, secondLen]
  generalize motrObjIoPagesize obj = ps at *
  generalize u64Sub s 1 / ps = l at *
  generalize off / ps = f at *
  obtain ⟨h1, h2, h3⟩ := hw
  rw [Nat.add_mul, Nat.one_mul]
  rcases hlast with ⟨rfl, hl⟩ | ⟨hs, hlt, hls, hsl'⟩
  · -- the end is that of the last page
    have hfl : f < l := by
      rcases lt_or_gt_of_ne hne with h | h
      · exact h
      · have := Nat.mul_le_mul_right ps h
        rw [Nat.succ_mul] at this
        omega
    have hmul := Nat.mul_le_mul_right ps hfl
    rw [Nat.succ_mul] at hmul
    have hl64 : l < 2 ^ 64 := by
      have := Nat.le_mul_of_pos_right l hps
      omega
    rw [if_neg (by simp), u64Sub_of_le hfl.le hl64, Nat.sub_mul, u64_of_lt (by omega),
      u64_of_lt (by omega)]
    exact .inl ⟨by omega, by omega⟩
  · -- the end is in a page before
    have hlf : l < f := by
      rcases lt_or_gt_of_ne hne with h | h
      · have := Nat.mul_le_mul_right ps h
        rw [Nat.succ_mul] at this
        omega
      · exact h
    have hmul := Nat.mul_le_mul_right ps hlf
    rw [Nat.succ_mul] at hmul
    have hf64 : f < 2 ^ 64 := by
      have := Nat.le_mul_of_pos_right f hps
      omega
    have hD : u64Sub l f = 2 ^ 64 - (f - l) := by
      rw [u64Sub_of_lt hlf hf64]
      omega
    have hD1 : u64Sub (2 ^ 64 - (f - l)) 1 = 2 ^ 64 - (f - l + 1) := by
      rw [u64Sub_of_le (by omega) (by omega)]
      omega
    have hk : (f - l + 1) * ps = f * ps - l * ps + ps := by
      rw [Nat.add_mul, Nat.one_mul, Nat.sub_mul]
    rw [hD, hD1, u64_mul_of_wrap hps (by omega), u64_mul_of_wrap hps (by rw [Nat.sub_mul]; omega),
      hk, Nat.sub_mul]
    have hdiv := whole_pages_of_end hls hsl'
    rcases Nat.lt_or_ge (f * ps + ps) (2 ^ 64) with h | h
    · rw [u64_of_lt (by omega)]
      refine .inl ⟨by omega, ?_⟩
      split
      · rw [u64_of_lt (by omega)]
        omega
      · rw [u64_of_lt (by omega)]
        omega
    · rw [u64_of_wrap (by omega) (by omega)]
      refine .inr ⟨by omega, by omega, by omega, ?_⟩
      rw [hdiv]
      split
      · rw [u64_of_lt (by omega)]
        omega
      · rw [u64_of_lt (by omega)]
        omega

/-- An offset inside a page: the code takes this way only for a range that ends
in the page after, which is the last one of all. -/
theorem split2_wrap_nonaligned {v : MioIovec ℕ} (hoff : v.miovOff % motrObjIoPagesize obj ≠ 0)
    (hw : Wraps v.miovOff v.miovLen 0)
    (h : motrObjIovecSplit2 conf obj args v = .ok args') :
    PlanAligned (motrObjIoPagesize obj) args' ↔ PlanAligned (motrObjIoPagesize obj) args := by
  obtain ⟨base, off, len⟩ := v
  obtain ⟨h1, h2, h3⟩ := hw
  simp only at h1 h2 h3 hoff
  have hmod := Nat.mod_lt off (motrObjIoPagesize_pos obj)
  have hend := page_end_le obj h1
  have hdm := Nat.div_add_mod' off (motrObjIoPagesize obj)
  rw [motrObjIovecSplit2] at h
  simp only [hoff, if_false] at h
  change (if _ then _ else _) = _ at h
  rw [u64Sub_of_le (by omega) h2] at h
  split at h
  · next hlen =>
    rw [u64_of_lt (by omega), ignoreRc_clone_wrap hmax _ (by omega) (by omega) (by omega)] at h
    obtain rfl := Except.ok.inj h
    exact planAligned_partialPage _ _ _
  · obtain rfl := Except.ok.inj h
    rw [planAligned_partialPage, planAligned_partialPage]

omit hmax in
/-- What is cloned of a range that wraps around, in terms of its end. -/
theorem clonedLen_of_wraps {v : MioIovec ℕ} {s : ℕ} (hw : Wraps v.miovOff v.miovLen s) (ps : ℕ) :
    clonedLen ps v = if v.miovOff % ps ≠ 0 ∧ (v.miovOff / ps + 1) * ps = 2 ^ 64 ∧
      s ≤ v.miovOff / ps * ps then s / ps * ps else 0 := by
  have hstop : v.stop = 2 ^ 64 + s := hw.stop
  rw [clonedLen, if_neg (by rw [MioIovec.NoWrap]; omega), hstop, Nat.add_sub_cancel_left]

include hpos in
/-- An offset inside a page, and an end far from it. -/
theorem split3_wrap {v : MioIovec ℕ} {s : ℕ} (hw : Wraps v.miovOff v.miovLen s)
    (hoff : v.miovOff % motrObjIoPagesize obj ≠ 0)
    (hne : v.miovOff / motrObjIoPagesize obj ≠ u64Sub s 1 / motrObjIoPagesize obj)
    (h : motrObjIovecSplit3 conf obj args v = .ok args') :
    PlanAligned (motrObjIoPagesize obj) args' ↔ PlanAligned (motrObjIoPagesize obj) args ∧
      (clonedLen (motrObjIoPagesize obj) v ≤ max ∨ motrObjIoPagesize obj ∣ max) := by
  have hsecond := hw.second hne
  have hoff2 : secondOff (motrObjIoPagesize obj) v.miovOff < 2 ^ 64 := u64_lt _
  have hlen2 : secondLen (motrObjIoPagesize obj) v.miovOff s < 2 ^ 64 := by
    rw [secondLen]
    split <;> exact u64_lt _
  rw [clonedLen_of_wraps hw]
  rw [motrObjIovecSplit3] at h
  simp only [hw.u64_stop] at h
  split at h
  · simp at h
  · rw [← secondOff, ← secondLen] at h
    -- the third part is at most a part of a page
    rcases hsecond with ⟨hnot, hwrap⟩ | ⟨heq, hle, hzero, hlen⟩
    · rw [ignoreRc_clone_wrap hmax _ hoff2 hlen2 hwrap] at h
      rw [if_neg fun h => hnot h.2.1]
      change (if _ then _ else _) = _ at h
      split at h
      · obtain rfl := Except.ok.inj h
        simp [planAligned_partialPage]
      · obtain rfl := Except.ok.inj h
        simp [planAligned_partialPage]
    · rw [hzero, hlen, motrObjIovecClone_eq hmax hpos _ _
        (by rw [Nat.zero_add, ← hlen]; exact hlen2) (Nat.zero_mod _) (Nat.mul_mod_left _ _)] at h
      rw [if_pos ⟨hoff, heq, hle⟩]
      change (if _ then _ else _) = _ at h
      split at h
      · obtain rfl := Except.ok.inj h
        rw [planAligned_partialPage, planAligned_whole hpos (Nat.zero_mod _) (Nat.mul_mod_left _ _),
          planAligned_partialPage]
      · obtain rfl := Except.ok.inj h
        rw [planAligned_whole hpos (Nat.zero_mod _) (Nat.mul_mod_left _ _),
          planAligned_partialPage]

include hpos in
/-- **One range that wraps around.** -/
theorem planAligned_adjustOne_wrap {v : MioIovec ℕ} {s : ℕ} (hw : Wraps v.miovOff v.miovLen s)
    (h : motrObjIovecAdjustOne conf obj args v = .ok args') :
    PlanAligned (motrObjIoPagesize obj) args' ↔ PlanAligned (motrObjIoPagesize obj) args ∧
      (clonedLen (motrObjIoPagesize obj) v ≤ max ∨ motrObjIoPagesize obj ∣ max) := by
  rw [motrObjIovecAdjustOne] at h
  by_cases hoff : v.miovOff % motrObjIoPagesize obj = 0
  · -- nothing is cloned of a range that starts at a page boundary
    rw [clonedLen_of_wraps hw, if_neg fun h => h.1 hoff,
      and_iff_left (.inl (Nat.zero_le _))]
    split at h
    · rw [ignoreRc_clone_wrap hmax _ hw.off_lt hw.len_lt (by have := hw.stop; omega)] at h
      obtain rfl := Except.ok.inj h
      exact Iff.rfl
    · next hnot =>
      rw [if_pos ⟨hoff, fun hl => hnot ⟨hoff, hl⟩⟩, motrObjIovecAdjustWithAlignedOff] at h
      split at h
      · exact split2_wrap_aligned hmax hw hoff h
      · obtain rfl := Except.ok.inj h
        exact planAligned_partialPage _ _ _
  · have hlast := hw.lastPage obj
    have hps := motrObjIoPagesize_pos obj
    have hlt := @Nat.lt_div_mul_add v.miovOff _ hps
    have hf64 : v.miovOff / motrObjIoPagesize obj + 1 < 2 ^ 64 := by
      have hmod := Nat.mod_lt v.miovOff hps
      have hdm := Nat.div_add_mod' v.miovOff (motrObjIoPagesize obj)
      have htwo := Nat.mul_le_mul_left (v.miovOff / motrObjIoPagesize obj)
        (show 2 ≤ motrObjIoPagesize obj by omega)
      have := hw.off_lt
      omega
    rw [if_neg fun h => hoff h.1, if_neg fun h => hoff h.1,
      motrObjIovecAdjustWithNonalignedOff] at h
    simp only [hw.u64_stop] at h
    split at h
    · next heq =>
      -- the range ends in the page it starts in
      obtain rfl := Except.ok.inj h
      rw [planAligned_partialPage, clonedLen_of_wraps hw]
      refine (and_iff_left (.inl ?_)).symm
      rcases hlast with ⟨rfl, -⟩ | ⟨-, -, hlt, -⟩
      · simp
      · rw [← heq] at hlt
        rw [if_neg fun h => by omega]
        exact Nat.zero_le _
    · next hne =>
      split at h
      · next hsucc =>
        rw [u64_of_lt hf64] at hsucc
        rw [hsucc, Nat.add_mul, Nat.one_mul] at hlast
        obtain ⟨rfl, hend⟩ : s = 0 ∧ _ := hlast.resolve_right fun h => by omega
        have hnot : (v.miovOff / motrObjIoPagesize obj + 1) * motrObjIoPagesize obj ≠ 2 ^ 64 := by
          rw [Nat.add_mul, Nat.one_mul]
          omega
        rw [clonedLen_of_wraps hw, if_neg fun h => hnot h.2.1,
          and_iff_left (.inl (Nat.zero_le _))]
        exact split2_wrap_nonaligned hmax hoff hw h
      · exact split3_wrap hmax hpos hw hoff hne h

end Wrap

/-! ### The whole plan -/

/-- **One range**: it leaves whole pages behind unless too many of its own are cut. -/
theorem planAligned_adjustOne (hmax : motrObjMaxSizePerOp conf obj = .ok max) (hpos : 0 < max)
    {v : MioIovec ℕ} (hoff : v.miovOff < 2 ^ 64) (hlen : v.miovLen < 2 ^ 64)
    (h : motrObjIovecAdjustOne conf obj args v = .ok args') :
    PlanAligned (motrObjIoPagesize obj) args' ↔ PlanAligned (motrObjIoPagesize obj) args ∧
      (clonedLen (motrObjIoPagesize obj) v ≤ max ∨ motrObjIoPagesize obj ∣ max) := by
  by_cases hwrap : v.NoWrap
  · rw [motrObjIovecAdjustOne_eq hmax hpos args hwrap] at h
    obtain rfl := Except.ok.inj h
    rw [planAligned_rangePieces hpos, clonedLen, if_pos hwrap]
  · have hstop : 2 ^ 64 ≤ v.miovOff + v.miovLen := Nat.le_of_not_lt hwrap
    exact planAligned_adjustOne_wrap hmax hpos ⟨hoff, hlen, (Nat.add_sub_of_le hstop).symm⟩ h

/-- **All ranges**, by induction on the list. -/
theorem planAligned_foldlM (hmax : motrObjMaxSizePerOp conf obj = .ok max) (hpos : 0 < max) :
    ∀ {vs : List (MioIovec ℕ)} {args args' : MotrObjRwArgs},
      (∀ v ∈ vs, v.miovOff < 2 ^ 64 ∧ v.miovLen < 2 ^ 64) →
      vs.foldlM (motrObjIovecAdjustOne conf obj) args = .ok args' →
      (PlanAligned (motrObjIoPagesize obj) args' ↔ PlanAligned (motrObjIoPagesize obj) args ∧
        ∀ v ∈ vs, clonedLen (motrObjIoPagesize obj) v ≤ max ∨ motrObjIoPagesize obj ∣ max) := by
  intro vs
  induction vs with
  | nil =>
    intro args args' _ h
    obtain rfl := Except.ok.inj h
    simp
  | cons v vs ih =>
    intro args args' hvs h
    rw [List.foldlM_cons] at h
    obtain ⟨hv, hrest⟩ := List.forall_mem_cons.mp hvs
    obtain ⟨args₁, hone, h⟩ := bind_eq_ok_iff.mp h
    rw [ih hrest h, planAligned_adjustOne hmax hpos hv.1 hv.2 hone, List.forall_mem_cons,
      and_assoc]

/-- **When the vectors of a plan are of whole pages**: exactly if the maximum size
of an op is, or if it is not reached by the whole pages of any range. -/
theorem planAligned_iff {isWrite : Bool} {iov : List (MioIovec ℕ)} {alloced : MotrObjRwArgs}
    (hmax : motrObjMaxSizePerOp conf obj = .ok max)
    (h64 : ∀ v ∈ iov, v.miovOff < 2 ^ 64 ∧ v.miovLen < 2 ^ 64)
    (halloc : motrObjRwArgsAlloc conf obj isWrite iov = .ok alloced)
    (hadjust : motrObjIovecAdjust conf obj (motrObjIovecSort alloced).2 = .ok args) :
    PlanAligned (motrObjIoPagesize obj) args ↔
      motrObjIoPagesize obj ∣ max ∨ ∀ v ∈ iov, clonedLen (motrObjIoPagesize obj) v ≤ max := by
  have hempty : PlanAligned (motrObjIoPagesize obj) (sortedArgs isWrite iov) := by
    intro w hw
    rw [(fresh_sortedArgs isWrite iov).aligned] at hw
    simp at hw
  obtain ⟨rfl, max', hmax', hnil⟩ := motrObjRwArgsAlloc_ok halloc
  obtain rfl : max = max' := Except.ok.inj (hmax.symm.trans hmax')
  rcases Nat.eq_zero_or_pos max with hzero | hpos
  · -- without a maximum only no ranges at all are planned for
    obtain rfl := hnil hzero
    obtain rfl : sortedArgs isWrite [] = args := Except.ok.inj hadjust
    exact iff_of_true hempty (.inr (by simp))
  · have hperm := sortedArgs_perm isWrite iov
    have hiff := planAligned_foldlM hmax hpos (fun v hv => h64 v (hperm.subset hv)) hadjust
    rw [← sortedArgs, and_iff_right hempty] at hiff
    simp only [hperm.mem_iff] at hiff
    rw [hiff]
    constructor
    · intro h
      by_cases hdvd : motrObjIoPagesize obj ∣ max
      · exact .inl hdvd
      · exact .inr fun v hv => (h v hv).resolve_right hdvd
    · rintro (hdvd | h) v hv
      · exact .inr hdvd
      · exact .inl (h v hv)

end Plan

/-- An object in a pool that gives ops of one and a half pages. -/
def halfPageObj : MioObj := .zeroed ⟨12, some ⟨1, 1, 3⟩, by decide⟩

/-- The plan of one whole page and parts of two others. -/
theorem planAligned_onePage :
    ∃ args, motrObjIovecAdjust ⟨4096⟩ halfPageObj (sortedArgs true [⟨0, 100, 8192⟩]) = .ok args ∧
      PlanAligned 4096 args := by
  have hplan : motrObjIovecAdjust ⟨4096⟩ halfPageObj (sortedArgs true [⟨0, 100, 8192⟩]) =
      .ok (planArgs halfPageObj 6144 true [⟨0, 100, 8192⟩]) := by
    decide +kernel
  have hmax : motrObjMaxSizePerOp ⟨4096⟩ halfPageObj = .ok 6144 := by decide +kernel
  have halloc : motrObjRwArgsAlloc ⟨4096⟩ halfPageObj true [⟨0, 100, 8192⟩] =
      .ok (freshArgs true [⟨0, 100, 8192⟩]) := by
    decide +kernel
  exact ⟨_, hplan, (planAligned_iff hmax (by decide) halloc hplan).mpr (.inr (by decide +kernel))⟩

/-- **Of three whole pages the second is cut in the middle.** -/
theorem not_planAligned_threePages :
    ∃ alloced args, motrObjRwArgsAlloc ⟨4096⟩ halfPageObj true [⟨0, 0, 12288⟩] = .ok alloced ∧
      motrObjIovecAdjust ⟨4096⟩ halfPageObj (motrObjIovecSort alloced).2 = .ok args ∧
      ¬PlanAligned (motrObjIoPagesize halfPageObj) args := by
  refine ⟨freshArgs true [⟨0, 0, 12288⟩], planArgs halfPageObj 6144 true [⟨0, 0, 12288⟩],
    by decide +kernel, by decide +kernel, ?_⟩
  intro h
  have hvec := h ⟨.app 0, 0, 6144⟩ (by decide +kernel)
  exact absurd hvec.2.2 (by decide +kernel)

end CortxMio
