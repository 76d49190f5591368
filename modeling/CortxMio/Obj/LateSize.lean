import CortxMio.Obj.Optimise
import CortxMio.Obj.Whole

/-!
# Writes planned with different sizes

A write is planned with the size of the object that the handle has when the write
is submitted. The size decides one thing only: which of the pages that the write
covers in part are read first. Two plans made with different sizes have the same
aligned vectors and the same copies (`CortxMio.planArgs_congr`), and their reads
differ in pages beyond the smaller size. The bytes of such pages are zero, and so
is an extra page that has not been read; the final bytes are the same
(`CortxMio.bytesEnd_congr`). Not even the limit on the size of an op makes a
difference, since the pages that are read either way come first.
-/

namespace CortxMio

open Lib

variable {obj obj' : MioObj} {max : ℕ} {app : ℕ → Byte} {iov : List (MioIovec ℕ)}

/-! ### Plans of handles on the same object -/

section Congr

variable (hdrv : obj'.moDrvObj = obj.moDrvObj)

include hdrv

theorem motrObjIovecGetPage_congr (args : MotrObjRwArgs) (rbw : List (MioIovec Ptr))
    (alignedOff : ℕ) :
    ∃ rbw', motrObjIovecGetPage obj' { args with rwaRbwIovs := rbw } alignedOff =
      { motrObjIovecGetPage obj args alignedOff with rwaRbwIovs := rbw' } := by
  simp only [motrObjIovecGetPage, motrObjIoPagesize_congr hdrv]
  exact ⟨_, rfl⟩

theorem motrObjIovecPartialPage_congr (args : MotrObjRwArgs) (rbw : List (MioIovec Ptr))
    (off len base : ℕ) :
    ∃ rbw', motrObjIovecPartialPage obj' { args with rwaRbwIovs := rbw } off len base =
      { motrObjIovecPartialPage obj args off len base with rwaRbwIovs := rbw' } := by
  simp only [motrObjIovecPartialPage, motrObjIoPagesize_congr hdrv]
  by_cases hlen : len = 0
  · simp only [if_pos hlen]
    exact ⟨_, rfl⟩
  · simp only [if_neg hlen]
    obtain ⟨rbw', hpage⟩ := motrObjIovecGetPage_congr hdrv args rbw
      (off / motrObjIoPagesize obj * motrObjIoPagesize obj)
    cases args.rwaAlignedIovs.getLast? with
    | none =>
      simp only [hpage]
      exact ⟨_, rfl⟩
    | some prev =>
      by_cases hprev : prev.miovOff = off / motrObjIoPagesize obj * motrObjIoPagesize obj
      · simp only [if_pos hprev]
        exact ⟨_, rfl⟩
      · simp only [if_neg hprev, hpage]
        exact ⟨_, rfl⟩

theorem addPiece_congr (max : ℕ) (args : MotrObjRwArgs) (rbw : List (MioIovec Ptr)) (p : Piece) :
    ∃ rbw', addPiece obj' max { args with rwaRbwIovs := rbw } p =
      { addPiece obj max args p with rwaRbwIovs := rbw' } := by
  simp only [addPiece]
  by_cases hw : p.whole
  · simp only [if_pos hw]
    exact ⟨_, rfl⟩
  · simp only [if_neg hw]
    exact motrObjIovecPartialPage_congr hdrv args rbw _ _ _

/-- **Only the reads of a plan depend on the size.** -/
theorem planArgs_congr (max : ℕ) (isWrite : Bool) (iov : List (MioIovec ℕ)) :
    ∃ rbw, planArgs obj' max isWrite iov = { planArgs obj max isWrite iov with
      rwaRbwIovs := rbw } := by
  rw [planArgs, planArgs, motrObjIoPagesize_congr hdrv]
  -- any two plans that differ in their reads do so after another piece
  suffices h : ∀ (l : List Piece) (args : MotrObjRwArgs) (rbw : List (MioIovec Ptr)),
      ∃ rbw', l.foldl (addPiece obj' max) { args with rwaRbwIovs := rbw } =
        { l.foldl (addPiece obj max) args with rwaRbwIovs := rbw' } from
    h _ (sortedArgs isWrite iov) (sortedArgs isWrite iov).rwaRbwIovs
  intro l
  induction l with
  | nil => exact fun args rbw => ⟨rbw, rfl⟩
  | cons p l ih =>
    intro args rbw
    obtain ⟨rbw', hstep⟩ := addPiece_congr hdrv max args rbw p
    rw [List.foldl_cons, List.foldl_cons, hstep]
    exact ih _ _

theorem planArgs_aligned_congr (max : ℕ) (iov : List (MioIovec ℕ)) :
    (planArgs obj' max true iov).rwaAlignedIovs = (planArgs obj max true iov).rwaAlignedIovs := by
  obtain ⟨rbw, h⟩ := planArgs_congr hdrv max true iov
  rw [h]

theorem writePages_congr : writePages obj' max iov = writePages obj max iov := by
  rw [writePages, writePages, planArgs_aligned_congr hdrv, motrObjIoPagesize_congr hdrv]

theorem reqPieces_congr (isWrite : Bool) :
    reqPieces obj' isWrite iov = reqPieces obj isWrite iov := by
  rw [reqPieces, reqPieces, motrObjIoPagesize_congr hdrv]

end Congr

/-! ### The pages that are read first -/

/-- The numbers of the pages before a place, among numbers in order, come before
all others. -/
theorem filter_lt_append (ps : ℕ) {s s' : ℕ} (hle : s ≤ s') {qs : List ℕ}
    (hsorted : qs.Pairwise (· < ·)) :
    ∃ l, qs.filter (fun q => q * ps < s') = qs.filter (fun q => q * ps < s) ++ l ∧
      ∀ q ∈ l, s ≤ q * ps := by
  induction qs with
  | nil => exact ⟨[], rfl, fun q hq => absurd hq List.not_mem_nil⟩
  | cons q qs ih =>
    obtain ⟨hlt, hsorted⟩ := List.pairwise_cons.mp hsorted
    by_cases hq : q * ps < s
    · obtain ⟨l, hl, hmem⟩ := ih hsorted
      refine ⟨l, ?_, hmem⟩
      rw [List.filter_cons_of_pos (by simpa using hq.trans_le hle),
        List.filter_cons_of_pos (by simpa using hq), hl, List.cons_append]
    · -- nothing after the first page beyond the place lies before it
      have hge : ∀ q' ∈ q :: qs, s ≤ q' * ps := by
        intro q' hq'
        rcases List.mem_cons.mp hq' with rfl | hq'
        · omega
        · exact (Nat.not_lt.mp hq).trans (Nat.mul_le_mul_right ps (hlt q' hq').le)
      have hnil : (q :: qs).filter (fun q => q * ps < s) = [] :=
        List.filter_eq_nil_iff.mpr fun q' hq' => by simpa using hge q' hq'
      refine ⟨(q :: qs).filter (fun q => q * ps < s'), ?_, fun q' hq' =>
        hge q' (List.mem_filter.mp hq').1⟩
      rw [hnil, List.nil_append]

section Reads

variable (hdrv : obj'.moDrvObj = obj.moDrvObj) (hsize : obj.size ≤ obj'.size) (hpos : 0 < max)
  (hord : InOrder (writeSorted iov)) (bytes bytes' : ℕ → Byte)

include hdrv hsize hpos hord

/-- **A page below the smaller size is read first by both writes, or by none.** -/
theorem pageVec_mem_first_congr {q : ℕ} (hq : q * motrObjIoPagesize obj < obj.size) :
    pageVec (motrObjIoPagesize obj) (writePages obj max iov) q ∈
        (writeCtx obj' max app iov bytes').rbw.take (writeCtx obj' max app iov bytes').cnt ↔
      pageVec (motrObjIoPagesize obj) (writePages obj max iov) q ∈
        (writeCtx obj max app iov bytes).rbw.take (writeCtx obj max app iov bytes).cnt := by
  have hps := motrObjIoPagesize_pos obj
  obtain ⟨l, hl, hbeyond⟩ := filter_lt_append (motrObjIoPagesize obj) hsize
    (writeInv_planArgs obj hpos hord).sorted
  obtain ⟨rest, happ, hrest⟩ := rbwKept_append (motrObjIoPagesize obj)
    (writePages obj max iov) (parts (reqPieces obj true iov))
    ((writePages obj max iov).filter fun q => q * motrObjIoPagesize obj < obj.size) l
  have hrbw : (writeCtx obj' max app iov bytes').rbw =
      (writeCtx obj max app iov bytes).rbw ++ rest := by
    rw [writeCtx_rbw, writeCtx_rbw, writePages_congr hdrv, reqPieces_congr hdrv,
      motrObjIoPagesize_congr hdrv, hl, happ]
  have hcnt' : (writeCtx obj' max app iov bytes').cnt =
      rwBatchCnt max 0 ((writeCtx obj max app iov bytes).rbw ++ rest) := by
    rw [← hrbw]
    rfl
  have hcnt : (writeCtx obj max app iov bytes).cnt =
      min (writeCtx obj max app iov bytes).rbw.length (writeCtx obj' max app iov bytes').cnt := by
    rw [hcnt']
    exact rwBatchCnt_append max _ rest 0
  rw [hrbw, hcnt, List.take_append, List.mem_append, min_comm, ← List.take_eq_take_min,
    or_iff_left]
  intro hmem
  obtain ⟨q', hq', heq⟩ := hrest _ (List.mem_of_mem_take hmem) hps
  have := hbeyond q' hq'
  rw [← pageVec_inj hps heq] at this
  omega

/-- **The final bytes do not depend on the size** that a write was planned with, as
long as the object has nothing beyond the smaller size. -/
theorem bytesEnd_congr (hzero : ZeroFrom obj.size bytes)
    (hbytes : ∀ x, (writeCtx obj max app iov bytes).Own x → bytes' x = bytes x) {x : ℕ}
    (hown : (writeCtx obj max app iov bytes).Own x) :
    (writeCtx obj' max app iov bytes').bytesEnd x =
      (writeCtx obj max app iov bytes).bytesEnd x := by
  rw [bytesEnd_eq_planBytes, bytesEnd_eq_planBytes]
  by_cases hx : ∃ v ∈ iov, v.Has x
  · rw [planBytes_of_mem readsPages_first hpos hord hx bytes,
      planBytes_of_mem readsPages_first hpos hord hx bytes]
  · have hno : ∀ v ∈ iov, ¬v.Has x := by simpa using hx
    obtain ⟨q, hq, h1, h2⟩ := exists_page_of_planHas hpos hord hown (not_has_of_not_mem hno)
    have hq' : q ∈ writePages obj' max iov := by rwa [writePages_congr hdrv]
    have hps := motrObjIoPagesize_congr hdrv
    rw [planBytes_of_page readsPages_first hpos hord hq h1 h2 (not_has_of_not_mem hno),
      planBytes_of_page readsPages_first hpos hord hq' (by rwa [hps]) (by rwa [hps])
        (not_has_of_not_mem hno), hbytes x hown, writePages_congr hdrv, hps]
    by_cases hbelow : q * motrObjIoPagesize obj < obj.size
    · simp only [pageVec_mem_first_congr hdrv hsize hpos hord bytes bytes' hbelow]
    · rw [hzero x (by omega), ite_self, ite_self]

end Reads

end CortxMio
