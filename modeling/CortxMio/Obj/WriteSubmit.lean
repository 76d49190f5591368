import CortxMio.Obj.Writev

/-!
# Submitting a write, and running it alone

`CortxMio.mioMotrObjWritev_ok` says what a submitted write is: an operation at
the first stage of a context that the request, the handle and the bytes of the
object determine (`CortxMio.writeCtx`). `CortxMio.runChain_writev` then runs the
chain to its end with nothing else going on: it completes if every aligned
vector fits into an op, the bytes are those that the context promises, the size
in the handle is raised to the end of the write, and a record is stored exactly
when that changes the size.
-/

namespace CortxMio

open Lib

variable {conf : MioMotrConfig} {obj : MioObj} {max : ℕ} {app : ℕ → Byte}
  {iov : List (MioIovec ℕ)}

/-! ### The context of a request -/

/-- The numbers of the extra pages among some aligned vectors. -/
def pageNos (ps : ℕ) (A : List (MioIovec Ptr)) : List ℕ :=
  (A.filter fun v => v.miovBase.isPage).map fun v => v.miovOff / ps

theorem WriteInv.pageNos_eq {P : List Piece} {qs : List ℕ} {args : MotrObjRwArgs}
    (h : WriteInv obj P qs args) :
    pageNos (motrObjIoPagesize obj) args.rwaAlignedIovs = qs := by
  have hps := motrObjIoPagesize_pos obj
  rw [pageNos, h.pages, List.map_map]
  refine (List.map_congr_left fun q _ => ?_).trans (List.map_id qs)
  exact Nat.mul_div_cancel q hps

variable (obj max iov) in
/-- The numbers of the pages that a write covers only in part. -/
def writePages : List ℕ :=
  pageNos (motrObjIoPagesize obj) (planArgs obj max true iov).rwaAlignedIovs

variable (obj max iov) in
/-- The plan of a write as it is executed. -/
def writeArgs : MotrObjRwArgs :=
  { planArgs obj max true iov with
    rwaRbwIovs := rbwKept (motrObjIoPagesize obj) (writePages obj max iov)
      (parts (reqPieces obj true iov))
      ((writePages obj max iov).filter fun q => q * motrObjIoPagesize obj < obj.size) }

variable (obj max app iov) in
/-- The context of a write. -/
def writeCtx (bytes : ℕ → Byte) : WriteCtx where
  args := writeArgs obj max iov
  mem := Mem.init app
  bytes := bytes
  cnt := rwBatchCnt max 0 (writeArgs obj max iov).rwaRbwIovs

theorem writeCtx_rbw (bytes : ℕ → Byte) : (writeCtx obj max app iov bytes).rbw =
    rbwKept (motrObjIoPagesize obj) (writePages obj max iov) (parts (reqPieces obj true iov))
      ((writePages obj max iov).filter fun q => q * motrObjIoPagesize obj < obj.size) := rfl

/-- The end of a write is the largest end of its ranges. -/
theorem writeArgs_maxEow (hwrap : ∀ v ∈ iov, v.NoWrap)
    (hrc : (motrObjIovecSort (freshArgs true iov)).1 = 0) :
    (writeArgs obj max iov).rwaMaxEow = maxEnd iov := by
  have hmax := (motrObjIovecSort_inOrder hwrap hrc).2 rfl
  rw [writeArgs, planArgs_rest]
  exact hmax

/-- The sorted ranges of a write. -/
def writeSorted (iov : List (MioIovec ℕ)) : List (MioIovec ℕ) :=
  (sortedArgs true iov).rwaSortedIovs

/-- The plan of a write of ranges in order keeps the invariant. -/
theorem writeInv_planArgs (obj : MioObj) (hpos : 0 < max) (hord : InOrder (writeSorted iov)) :
    WriteInv obj (reqPieces obj true iov) (writePages obj max iov)
      (planArgs obj max true iov) := by
  obtain ⟨qs, hqs⟩ := writeInv_foldl hpos rfl
    (fresh_sortedArgs true iov) (reqPieces obj true iov) (fun _ hp => ok_of_mem_reqPieces hp)
    (allPieces_pairwise (motrObjIoPagesize_pos obj) hord)
  have hqs' : WriteInv obj (reqPieces obj true iov) qs (planArgs obj max true iov) := hqs
  rw [writePages, hqs'.pageNos_eq]
  exact hqs'

theorem reqPieces_pairwise (hord : InOrder (writeSorted iov)) :
    (reqPieces obj true iov).Pairwise fun p q => p.stop ≤ q.off :=
  allPieces_pairwise (motrObjIoPagesize_pos obj) hord

theorem motrObjIoPagesize_lt (obj : MioObj) : motrObjIoPagesize obj < 2 ^ 32 := by
  rw [motrObjIoPagesize, Nat.one_shiftLeft]
  exact Nat.pow_lt_pow_right (by omega) (lt_trans obj.moDrvObj.oaBshift_lt (by omega))

/-- The context of a write of ranges in order is as the chain needs it. -/
theorem ok_writeCtx (app : ℕ → Byte) (hpos : 0 < max) (hord : InOrder (writeSorted iov))
    (hne : (planArgs obj max true iov).rwaAlignedIovs ≠ []) (bytes : ℕ → Byte) :
    (writeCtx obj max app iov bytes).Ok max where
  ne := hne
  rbw r hr := by
    obtain ⟨q, hq, hrq⟩ := mem_rbwKept hr
    rcases hrq with rfl | ⟨rfl, -⟩
    · exact Or.inl ((writeInv_planArgs obj hpos hord).pageVec_mem (List.mem_filter.mp hq).1)
    · exact Or.inr rfl
  small v hv := by
    rcases (planInv_planArgs obj hpos true iov).vec v hv with
      ⟨_, _, _, _, hle⟩ | ⟨_, _, _, _, _, rfl⟩
    · exact Or.inl hle
    · exact Or.inr (motrObjIoPagesize_lt obj)

/-! ### Submission -/

theorem writeArgs_rbw_eq_nil_iff (obj : MioObj) (hpos : 0 < max)
    (hord : InOrder (writeSorted iov)) :
    (writeArgs obj max iov).rwaRbwIovs = [] ↔ (planArgs obj max true iov).rwaRbwIovs = [] := by
  rw [(writeInv_planArgs obj hpos hord).rbw, ← List.length_eq_zero_iff,
    ← List.length_eq_zero_iff, List.length_map]
  change (rbwKept _ _ _ _).length = 0 ↔ _
  rw [length_rbwKept]

/-- **What the submission of a write comes to**, when the ranges pass the sort. -/
theorem mioMotrObjWritev_eq (hmax : motrObjMaxSizePerOp conf obj = .ok max) (hpos : 0 < max)
    (hwrap : ∀ v ∈ iov, v.NoWrap) (hrc : (motrObjIovecSort (freshArgs true iov)).1 = 0) :
    mioMotrObjWritev conf obj app iov =
      if (writeArgs obj max iov).rwaRbwIovs ≠ [] then
        launchRbw conf obj .read (writeArgs obj max iov) (Mem.init app)
      else launchAligned conf obj .write .write (writeArgs obj max iov)
        (motrObjDataCopy (writeArgs obj max iov) (Mem.init app)) := by
  have hord : InOrder (writeSorted iov) := (motrObjIovecSort_inOrder hwrap hrc).1
  have hinv := writeInv_planArgs obj hpos hord
  have hadjust := motrObjIovecAdjust_sortedArgs hmax hpos true hwrap
  have hopt := motrObjReadBeforeWriteOptimise_eq hinv (fun _ hp => ok_of_mem_reqPieces hp)
    (reqPieces_pairwise hord)
  have hnil := writeArgs_rbw_eq_nil_iff obj hpos hord
  rw [mioMotrObjWritev, motrObjRwArgsAlloc_eq hmax hpos]
  change (if (motrObjIovecSort (freshArgs true iov)).1 < 0 then _ else
    motrObjIovecAdjust conf obj (sortedArgs true iov) >>= _) = _
  rw [hrc, if_neg (by decide), hadjust]
  change (if _ then _ else _) = _
  by_cases hrbw : (planArgs obj max true iov).rwaRbwIovs = []
  · rw [if_neg (not_not.mpr hrbw), if_neg (not_not.mpr (hnil.mpr hrbw))]
    have hempty := hnil.mpr hrbw
    have hargs : writeArgs obj max iov = planArgs obj max true iov := by
      rw [writeArgs] at hempty ⊢
      simp only at hempty
      rw [hempty, ← hrbw]
    rw [hargs]
  · rw [if_pos hrbw, if_pos (mt hnil.mp hrbw), hopt]
    rfl

/-- Ranges that do not pass the sort are turned down. -/
theorem mioMotrObjWritev_error (hmax : motrObjMaxSizePerOp conf obj = .ok max) (hpos : 0 < max)
    (hrc : (motrObjIovecSort (freshArgs true iov)).1 ≠ 0) :
    mioMotrObjWritev conf obj app iov = .error (.err (-EINVAL)) := by
  have hneg := (motrObjIovecSort_rc (freshArgs true iov)).resolve_left hrc
  rw [mioMotrObjWritev, motrObjRwArgsAlloc_eq hmax hpos]
  change (if (motrObjIovecSort (freshArgs true iov)).1 < 0 then
    Except.error (Fault.err (motrObjIovecSort (freshArgs true iov)).1) else _) = _
  rw [hneg, if_pos (by decide)]

/-- A submitted write has been planned with a limit on the size of an op. -/
theorem exists_max_of_mioMotrObjWritev {op : RwOp}
    (h : mioMotrObjWritev conf obj app iov = .ok op) :
    ∃ max, motrObjMaxSizePerOp conf obj = .ok max ∧ 0 < max := by
  obtain ⟨alloced, halloc, h⟩ := bind_eq_ok_iff.mp h
  obtain ⟨rfl, max, hmax, hnil⟩ := motrObjRwArgsAlloc_ok halloc
  refine ⟨max, hmax, Nat.pos_of_ne_zero fun hzero => ?_⟩
  obtain rfl := hnil hzero
  -- no ranges: nothing is planned, and there is no op to launch
  have hlaunch : ∀ (pp : MotrObjPp) (mem : Mem), launchAligned conf obj .write pp
      (sortedArgs true []) mem = .error (.err (-E2BIG)) :=
    fun pp mem => launchAligned_error hmax rfl
  have herr := hlaunch .write (motrObjDataCopy (sortedArgs true []) (Mem.init app))
  exact absurd (herr.symm.trans h) (by simp)

/-- **What a submitted write is**: an operation at the first stage of its
context, whatever the bytes of the object are. -/
theorem mioMotrObjWritev_ok {op : RwOp} (hwrap : ∀ v ∈ iov, v.NoWrap)
    (h : mioMotrObjWritev conf obj app iov = .ok op) :
    ∃ max, motrObjMaxSizePerOp conf obj = .ok max ∧ 0 < max ∧ InOrder (writeSorted iov) ∧
      (writeArgs obj max iov).rwaMaxEow = maxEnd iov ∧
      ∀ bytes, (writeCtx obj max app iov bytes).Ok max ∧
        ∃ st, op = (writeCtx obj max app iov bytes).opAt st ∧
          (writeCtx obj max app iov bytes).Valid max st ∧
          (writeCtx obj max app iov bytes).before st = bytes ∧ WriteCtx.putOf st = none := by
  obtain ⟨max, hmax, hpos⟩ := exists_max_of_mioMotrObjWritev h
  by_cases hrc : (motrObjIovecSort (freshArgs true iov)).1 = 0
  · have hord : InOrder (writeSorted iov) := (motrObjIovecSort_inOrder hwrap hrc).1
    have hinv := writeInv_planArgs obj hpos hord
    rw [mioMotrObjWritev_eq hmax hpos hwrap hrc] at h
    refine ⟨max, hmax, hpos, hord, writeArgs_maxEow hwrap hrc, fun bytes => ?_⟩
    have hprog : (writeArgs obj max iov).rwaRbwProgress = 0 := planArgs_rbwProgress true iov
    have hprog' : (writeArgs obj max iov).rwaAlignedProgress = 0 :=
      planArgs_alignedProgress true iov
    by_cases hrbw : (writeArgs obj max iov).rwaRbwIovs = []
    · -- nothing to read: the aligned vectors are written at once
      rw [if_neg (not_not.mpr hrbw)] at h
      have hnil : (writeCtx obj max app iov bytes).rbw = [] := hrbw
      rcases Nat.eq_zero_or_pos (rwBatchCnt max 0 ((writeArgs obj max iov).rwaAlignedIovs.drop
        (writeArgs obj max iov).rwaAlignedProgress)) with h0 | hn
      · rw [launchAligned_error hmax h0] at h
        exact absurd h (by simp)
      · rw [launchAligned_eq hmax rfl hn] at h
        rw [hprog', List.drop_zero, Nat.zero_add] at h
        rw [hprog', List.drop_zero] at hn
        have hle := rwBatchCnt_le_length max 0 (writeArgs obj max iov).rwaAlignedIovs
        have hne : (planArgs obj max true iov).rwaAlignedIovs ≠ [] := by
          intro hnil
          have hnil' : (writeArgs obj max iov).rwaAlignedIovs = [] := hnil
          rw [hnil'] at hn
          exact absurd hn (by simp [rwBatchCnt])
        have hok := ok_writeCtx app hpos hord hne bytes
        refine ⟨hok, .data 0 (rwBatchCnt max 0 (writeArgs obj max iov).rwaAlignedIovs), ?_, ?_,
          WriteCtx.before_data_zero hnil _, rfl⟩
        · rw [← Except.ok.inj h, WriteCtx.opAt_data_zero hnil hprog]
          rfl
        · refine ⟨?_, by rw [Nat.zero_add]; exact hle, fun v hv => ?_⟩
          · exact rwBatchCnt_le_length _ _ _
          · rw [Nat.zero_add] at hv
            exact WriteCtx.miovLen_le_of_mem_batch (Nat.zero_le _) hok.small v hv
    · -- the first read-before-write op
      rw [if_pos hrbw] at h
      rcases Nat.eq_zero_or_pos (rwBatchCnt max 0 ((writeArgs obj max iov).rwaRbwIovs.drop
        (writeArgs obj max iov).rwaRbwProgress)) with h0 | hn
      · rw [launchRbw_error hmax h0] at h
        exact absurd h (by simp)
      · rw [launchRbw_eq hmax rfl hn] at h
        rw [hprog, List.drop_zero, Nat.zero_add] at h
        have hne : (planArgs obj max true iov).rwaAlignedIovs ≠ [] := by
          obtain ⟨r, hr⟩ := List.exists_mem_of_ne_nil _ hrbw
          obtain ⟨q, hq, -⟩ := mem_rbwKept hr
          exact List.ne_nil_of_mem (hinv.pageVec_mem (List.mem_filter.mp hq).1)
        refine ⟨ok_writeCtx app hpos hord hne bytes, .read, ?_, rwBatchCnt_le_length _ _ _,
          rfl, rfl⟩
        rw [← Except.ok.inj h, WriteCtx.opAt_read hprog']
        rfl
  · rw [mioMotrObjWritev_error hmax hpos hrc] at h
    exact absurd h (by simp)

/-- A write whose vectors fit into ops is submitted. -/
theorem exists_mioMotrObjWritev_of_fit (app : ℕ → Byte)
    (hmax : motrObjMaxSizePerOp conf obj = .ok max) (hpos : 0 < max)
    (hwrap : ∀ v ∈ iov, v.NoWrap) (hrc : (motrObjIovecSort (freshArgs true iov)).1 = 0)
    (hne : (planArgs obj max true iov).rwaAlignedIovs ≠ [])
    (hfit : ∀ v ∈ (planArgs obj max true iov).rwaAlignedIovs, v.miovLen ≤ max) :
    ∃ op, mioMotrObjWritev conf obj app iov = .ok op := by
  have hlt := motrObjMaxSizePerOp_lt hmax
  have hord : InOrder (writeSorted iov) := (motrObjIovecSort_inOrder hwrap hrc).1
  rw [mioMotrObjWritev_eq hmax hpos hwrap hrc]
  split
  · next hrbw =>
    have hprog : (writeArgs obj max iov).rwaRbwProgress = 0 := planArgs_rbwProgress true iov
    refine ⟨_, launchRbw_eq hmax rfl ?_⟩
    rw [hprog, List.drop_zero]
    refine rwBatchCnt_pos hlt hrbw fun r hr => ?_
    rcases (ok_writeCtx app hpos hord hne (fun _ => 0)).rbw r hr with hmem | hzero
    · exact hfit r hmem
    · omega
  · have hprog : (writeArgs obj max iov).rwaAlignedProgress = 0 :=
      planArgs_alignedProgress true iov
    refine ⟨_, launchAligned_eq hmax rfl ?_⟩
    rw [hprog, List.drop_zero]
    exact rwBatchCnt_pos hlt hne hfit

/-! ### A write alone -/

/-- What a completed write leaves behind, when nothing else was going on. -/
structure WriteDone (c : WriteCtx) (cl : Cluster) (obj : MioObj) (s : IoState) : Prop where
  /-- The bytes on its pages. -/
  own : ∀ x, c.Own x → s.cluster.bytes x = c.bytesEnd x
  /-- All other bytes. -/
  other : ∀ x, ¬c.Own x → s.cluster.bytes x = cl.bytes x
  /-- The size, in the handle and in the record. -/
  attrs : (c.args.rwaMaxEow ≤ obj.size ∧ s.obj = obj ∧ s.cluster.attrs = cl.attrs) ∨
    (obj.size < c.args.rwaMaxEow ∧ s.obj = obj.setSize c.args.rwaMaxEow ∧
      s.cluster.attrs = some (motrObjAttrsMem2wire (obj.setSize c.args.rwaMaxEow)))

/-- A write on its way, when nothing else is going on. -/
structure WriteAt (c : WriteCtx) (max : ℕ) (cl : Cluster) (obj : MioObj) (st : WriteStage)
    (s : IoState) : Prop where
  /-- The operation is at the stage. -/
  op : s.op = c.opAt st
  /-- The stage is one of the chain. -/
  valid : c.Valid max st
  /-- The bytes on its pages. -/
  own : ∀ x, c.Own x → s.cluster.bytes x = c.before st x
  /-- All other bytes. -/
  other : ∀ x, ¬c.Own x → s.cluster.bytes x = cl.bytes x
  /-- The record. -/
  stored : s.cluster.attrs = cl.attrs
  /-- The size in the handle. -/
  attrs : (WriteCtx.putOf st = none ∧ s.obj = obj) ∨
    (obj.size < c.args.rwaMaxEow ∧ s.obj = obj.setSize c.args.rwaMaxEow ∧
      st = .put (motrObjAttrsMem2wire (obj.setSize c.args.rwaMaxEow)))

/-- What one turn of the chain of a write does. -/
theorem WriteAt.chainStep {c : WriteCtx} {cl : Cluster} {st : WriteStage} {s : IoState}
    (hmax : motrObjMaxSizePerOp conf obj = .ok max) (hok : c.Ok max)
    (h : WriteAt c max cl obj st s) :
    (∃ s', CortxMio.chainStep conf s = .inr (some (.err (-E2BIG)), s') ∧
      (∃ v ∈ c.aligned, max < v.miovLen) ∧ s'.obj = obj ∧ s'.cluster.attrs = cl.attrs) ∨
    (∃ st' s', CortxMio.chainStep conf s = .inl s' ∧ WriteAt c max cl obj st' s' ∧
      c.rank st' < c.rank st) ∨
    ∃ s', CortxMio.chainStep conf s = .inr (none, s') ∧ WriteDone c cl obj s' ∧
      ∀ v ∈ c.aligned, v.miovLen ≤ max := by
  obtain ⟨cluster, obj', op⟩ := s
  obtain rfl : op = c.opAt st := h.op
  obtain ⟨bytes, hexec, hown, hother⟩ := WriteCtx.exec_opAt hok h.own
  have hother' : ∀ x, ¬c.Own x → bytes x = cl.bytes x :=
    fun x hx => (hother x hx).trans (h.other x hx)
  have hstored : cluster.attrs = cl.attrs := h.stored
  have hmax' : motrObjMaxSizePerOp conf obj' = .ok max := by
    rcases h.attrs with ⟨-, rfl⟩ | ⟨-, hobj, -⟩
    · exact hmax
    · obtain rfl : obj' = obj.setSize c.args.rwaMaxEow := hobj
      exact hmax
  have hobj_of : WriteCtx.putOf st = none → obj' = obj := by
    intro hput
    rcases h.attrs with hattrs | ⟨-, -, rfl⟩
    · exact hattrs.2
    · exact absurd hput (by simp [WriteCtx.putOf])
  rcases WriteCtx.postProc_opAt hmax' hok h.valid with
    ⟨hpp, hlarge, hput⟩ | ⟨st', hpp, hvalid, hbytes, hput, hrank⟩ |
    ⟨hpp, hbytes, hsize, hput, hfit⟩ |
    ⟨hpp, hbytes, hsize, hput, hfit, hrank⟩ | ⟨hpp, val, rfl⟩
  · refine Or.inl ⟨_, chainStep_error hexec hpp, hlarge, hobj_of hput, ?_⟩
    rw [hput]
    exact hstored
  · have hobj : WriteCtx.putOf st = none ∧ obj' = obj := by
      rcases h.attrs with hattrs | ⟨-, -, rfl⟩
      · exact hattrs
      · cases st' <;> simp [WriteCtx.rank] at hrank
    refine Or.inr (Or.inl ⟨st', _, chainStep_next hexec hpp, ⟨rfl, hvalid, ?_, hother', ?_,
      Or.inl ⟨hput, hobj.2⟩⟩, hrank⟩)
    · rw [hbytes]
      exact hown
    · rw [hobj.1]
      exact hstored
  · obtain rfl := hobj_of hput
    refine Or.inr (Or.inr ⟨_, chainStep_final hexec hpp, ⟨?_, hother', Or.inl ⟨hsize, rfl, ?_⟩⟩,
      hfit⟩)
    · rw [← hbytes]
      exact hown
    · rw [hput]
      exact hstored
  · obtain rfl := hobj_of hput
    refine Or.inr (Or.inl ⟨.put (motrObjAttrsMem2wire (obj'.setSize c.args.rwaMaxEow)), _,
      chainStep_next hexec hpp, ⟨rfl, hfit, ?_, hother', ?_, Or.inr ⟨hsize, rfl, rfl⟩⟩, hrank⟩)
    · change ∀ x, c.Own x → bytes x = c.bytesEnd x
      rw [← hbytes]
      exact hown
    · rw [hput]
      exact hstored
  · rcases h.attrs with ⟨hput, -⟩ | ⟨hsize, hobj, hval⟩
    · exact absurd hput (by simp [WriteCtx.putOf])
    · have hval' : val = motrObjAttrsMem2wire (obj.setSize c.args.rwaMaxEow) := by
        simpa using hval
      have hfit : ∀ v ∈ c.aligned, v.miovLen ≤ max := h.valid
      have hdone : WriteDone c cl obj ⟨⟨bytes, some val⟩, obj', c.doneAt (.put val)⟩ :=
        ⟨hown, hother', Or.inr ⟨hsize, hobj, by rw [hval']⟩⟩
      exact Or.inr (Or.inr ⟨_, chainStep_final hexec hpp, hdone, hfit⟩)

/-- **The chain of a write runs to its end**: it completes, or a vector does not
fit into an op. -/
theorem runChain_opAt {c : WriteCtx} {cl : Cluster} {st : WriteStage}
    (hmax : motrObjMaxSizePerOp conf obj = .ok max) (hok : c.Ok max) {s : IoState}
    (h : WriteAt c max cl obj st s) :
    (∃ s', runChain conf s = some (none, s') ∧ WriteDone c cl obj s' ∧
      ∀ v ∈ c.aligned, v.miovLen ≤ max) ∨
    ∃ s', runChain conf s = some (some (.err (-E2BIG)), s') ∧
      (∃ v ∈ c.aligned, max < v.miovLen) ∧ s'.obj = obj ∧ s'.cluster.attrs = cl.attrs := by
  have key : ∀ (n : ℕ) (st : WriteStage) (s : IoState), WriteAt c max cl obj st s →
      c.rank st < n →
      (∃ s', loopN (CortxMio.chainStep conf) n s = some (none, s') ∧ WriteDone c cl obj s' ∧
        ∀ v ∈ c.aligned, v.miovLen ≤ max) ∨
      ∃ s', loopN (CortxMio.chainStep conf) n s = some (some (.err (-E2BIG)), s') ∧
        (∃ v ∈ c.aligned, max < v.miovLen) ∧ s'.obj = obj ∧ s'.cluster.attrs = cl.attrs := by
    intro n
    induction n with
    | zero => exact fun st s _ hn => absurd hn (Nat.not_lt_zero _)
    | succ n ih =>
      intro st s h hn
      rw [loopN]
      rcases h.chainStep hmax hok with ⟨s', hstep, hlarge⟩ | ⟨st', s', hstep, h', hrank⟩ |
        ⟨s', hstep, hdone⟩
      · rw [hstep]
        exact Or.inr ⟨s', rfl, hlarge⟩
      · rw [hstep]
        exact ih st' s' h' (by omega)
      · rw [hstep]
        exact Or.inl ⟨s', rfl, hdone⟩
  refine key _ st s h ?_
  rw [h.op]
  have hbound : chainBound (c.opAt st).args = c.rbw.length + c.aligned.length + 4 := by
    cases st <;> rfl
  rw [hbound]
  cases st <;> simp only [WriteCtx.rank] <;> omega

/-- **A submitted write, run alone**: it completes and leaves what its context
says, or it fails because a vector does not fit into an op. -/
theorem runChain_writev {op : RwOp} (hwrap : ∀ v ∈ iov, v.NoWrap)
    (h : mioMotrObjWritev conf obj app iov = .ok op) (cl : Cluster) :
    ∃ max, motrObjMaxSizePerOp conf obj = .ok max ∧ 0 < max ∧ InOrder (writeSorted iov) ∧
      (writeArgs obj max iov).rwaMaxEow = maxEnd iov ∧
      ((∃ s, runChain conf ⟨cl, obj, op⟩ = some (none, s) ∧
        WriteDone (writeCtx obj max app iov cl.bytes) cl obj s ∧
        ∀ v ∈ (writeCtx obj max app iov cl.bytes).aligned, v.miovLen ≤ max) ∨
      ∃ s, runChain conf ⟨cl, obj, op⟩ = some (some (.err (-E2BIG)), s) ∧
        (∃ v ∈ (writeCtx obj max app iov cl.bytes).aligned, max < v.miovLen) ∧
        s.obj = obj ∧ s.cluster.attrs = cl.attrs) := by
  obtain ⟨max, hmax, hpos, hord, heow, hctx⟩ := mioMotrObjWritev_ok hwrap h
  obtain ⟨hok, st, rfl, hvalid, hbefore, hput⟩ := hctx cl.bytes
  refine ⟨max, hmax, hpos, hord, heow, ?_⟩
  refine runChain_opAt hmax hok ⟨rfl, hvalid, fun x _ => ?_, fun _ _ => rfl, rfl,
    Or.inl ⟨hput, rfl⟩⟩
  rw [hbefore]

end CortxMio
