import CortxMio.Lib.Fallible
import CortxMio.Obj.Api
import CortxMio.Obj.Readv
import CortxMio.Obj.WriteBytes

/-!
# What whole reads and writes do to the world

The results on chains, put together for the calls `mio_obj_writev` and
`mio_obj_readv`. A read leaves the object and its record alone, whatever becomes
of it (`CortxMio.mioObjReadv_frame`); a write leaves the hints alone
(`CortxMio.mioObjWritev_frame`). A write that completes raises the size in the
handle to the end of the write and stores a record exactly when that changes the
size; one that fails leaves size and record alone
(`CortxMio.mioObjWritev_none`, `CortxMio.mioObjWritev_some`).
-/

namespace CortxMio

open Lib

variable {conf : MioMotrConfig}

/-- No byte at or beyond the size differs from zero. -/
def ZeroFrom (size : ℕ) (bytes : ℕ → Byte) : Prop := ∀ x, size ≤ x → bytes x = 0

theorem ZeroFrom.mono {size size' : ℕ} {bytes : ℕ → Byte} (h : ZeroFrom size bytes)
    (hle : size ≤ size') : ZeroFrom size' bytes := fun x hx => h x (hle.trans hx)

theorem maxEnd_lt {iov : List (MioIovec ℕ)} (hwrap : ∀ v ∈ iov, v.NoWrap) :
    maxEnd iov < 2 ^ 64 := by
  have h : maxEnd iov ≤ 2 ^ 64 - 1 := maxEnd_le fun v hv => by
    have : v.stop < 2 ^ 64 := hwrap v hv
    omega
  omega

/-! ### Reads -/

/-- An operation whose head is a READ of the chain of a read. -/
def RwOp.IsRead (op : RwOp) : Prop :=
  op.head.mdoPostProc = .read ∧ ∃ ext, op.head.mdoOp = .obj .read ext

/-- The post-processing function of a read leaves the handle alone. -/
theorem postProc_read {obj obj' : MioObj} (op : RwOp) {op' : RwOp} {rc : DrvOpRc}
    (hpp : op.head.mdoPostProc = .read) (h : postProc conf obj op = .ok (rc, obj', op')) :
    obj' = obj ∧ (rc = .next → op'.IsRead) := by
  rw [postProc, hpp] at h
  simp only [motrObjReadPp] at h
  split at h
  · simp only [Except.ok.injEq, Prod.mk.injEq] at h
    obtain ⟨rfl, rfl, -⟩ := h
    exact ⟨rfl, fun hnext => absurd hnext (by simp)⟩
  · obtain ⟨op'', hl, h⟩ := bind_eq_ok_iff.mp h
    simp only [Except.ok.injEq, Prod.mk.injEq] at h
    obtain ⟨-, rfl, rfl⟩ := h
    exact ⟨rfl, fun _ => head_of_launchAligned hl⟩

/-- A turn of the chain of a read leaves the object and the handle alone. -/
theorem chainStep_isRead (conf : MioMotrConfig) {s : IoState} (hs : s.op.IsRead) :
    match chainStep conf s with
    | .inl s' => s'.cluster = s.cluster ∧ s'.obj = s.obj ∧ s'.op.IsRead
    | .inr r => r.2.cluster = s.cluster ∧ r.2.obj = s.obj := by
  obtain ⟨cluster, obj, op⟩ := s
  obtain ⟨hpp, ext, hop⟩ := hs
  have hexec : op.head.mdoOp.exec cluster op.mem =
      (cluster, readVecs cluster.bytes ext op.mem) := by
    simp only at hop
    rw [hop]
    rfl
  cases hres : postProc conf obj { op with mem := readVecs cluster.bytes ext op.mem } with
  | error f =>
    rw [chainStep_error hexec hres]
    exact ⟨rfl, rfl⟩
  | ok r =>
    obtain ⟨rc, obj', op'⟩ := r
    obtain ⟨rfl, hnext⟩ := postProc_read
      { op with mem := readVecs cluster.bytes ext op.mem } hpp hres
    cases rc with
    | next =>
      rw [chainStep_next hexec hres]
      exact ⟨rfl, rfl, hnext rfl⟩
    | final =>
      rw [chainStep_final hexec hres]
      exact ⟨rfl, rfl⟩

/-- A chain of READ ops leaves everything but memory alone. -/
theorem runChain_read_frame {cl : Cluster} {obj : MioObj} {op : RwOp} (hop : op.IsRead)
    {r : Option Fault × IoState} (h : runChain conf ⟨cl, obj, op⟩ = some r) :
    r.2.cluster = cl ∧ r.2.obj = obj := by
  refine loopN_inv (chainStep conf)
    (fun s => s.cluster = cl ∧ s.obj = obj ∧ s.op.IsRead)
    (fun r => r.2.cluster = cl ∧ r.2.obj = obj) ?_ ?_ _ _ r ⟨rfl, rfl, hop⟩ h
  · rintro s s' ⟨rfl, rfl, hs⟩ hstep
    have := chainStep_isRead conf hs
    rwa [hstep] at this
  · rintro s r ⟨rfl, rfl, hs⟩ hstep
    have := chainStep_isRead conf hs
    rwa [hstep] at this

/-- A submitted read is one. -/
theorem isRead_of_mioMotrObjReadv {obj : MioObj} {app : ℕ → Byte} {iov : List (MioIovec ℕ)}
    {op : RwOp} (h : mioMotrObjReadv conf obj app iov = .ok op) : op.IsRead := by
  rw [mioMotrObjReadv] at h
  obtain ⟨args, -, h⟩ := bind_eq_ok_iff.mp h
  obtain ⟨args', -, h⟩ := bind_eq_ok_iff.mp h
  exact head_of_launchAligned h

/-- **A read leaves the object and its record alone**, and of the handle changes
the statistics only. This holds for any ranges, and whether or not the read
completes. -/
theorem mioObjReadv_frame (conf : MioMotrConfig) (w : World) (now : UInt64) (app : ℕ → Byte)
    (iov : List (MioIovec ℕ)) :
    (mioObjReadv conf w now app iov).2.1 = ⟨w.cluster, objStatsUpdate w.obj false now iov⟩ := by
  rw [mioObjReadv]
  cases hsub : mioMotrObjReadv conf (objStatsUpdate w.obj false now iov) app iov with
  | error f => rfl
  | ok op =>
    simp only [runSubmitted]
    cases hrun : runChain conf ⟨w.cluster, objStatsUpdate w.obj false now iov, op⟩ with
    | none => rfl
    | some r =>
      obtain ⟨hcl, hobj⟩ := runChain_read_frame (isRead_of_mioMotrObjReadv hsub) hrun
      simp only [hcl, hobj]

/-! ### Writes, whatever becomes of them -/

theorem MioObj.setSize_size (obj : MioObj) : obj.setSize obj.size = obj := by
  rw [MioObj.setSize, MioObj.size, UInt64.ofNat_toNat]

/-- An operation whose head is an op on the data of a write. -/
def RwOp.IsWrite (op : RwOp) : Prop :=
  (op.head.mdoPostProc = .write ∨ op.head.mdoPostProc = .readBeforeWrite) ∧
    ∃ opcode ext, op.head.mdoOp = .obj opcode ext

theorem isWrite_of_launchAligned {obj : MioObj} {opcode : M0ObjOpcode} {args : MotrObjRwArgs}
    {mem : Mem} {op : RwOp} (h : launchAligned conf obj opcode .write args mem = .ok op) :
    op.IsWrite := by
  obtain ⟨hpp, ext, hop⟩ := head_of_launchAligned h
  exact ⟨Or.inl hpp, opcode, ext, hop⟩

theorem isWrite_of_launchRbw {obj : MioObj} {opcode : M0ObjOpcode} {args : MotrObjRwArgs}
    {mem : Mem} {op : RwOp} (h : launchRbw conf obj opcode args mem = .ok op) : op.IsWrite := by
  obtain ⟨hpp, ext, hop⟩ := head_of_launchRbw h
  exact ⟨Or.inr hpp, opcode, ext, hop⟩

/-- The post-processing functions of a write leave the handle alone, or change
its size and have the record stored. -/
theorem postProc_isWrite {obj obj' : MioObj} (op : RwOp) {op' : RwOp} {rc : DrvOpRc}
    (hop : op.IsWrite)
    (h : postProc conf obj op = .ok (rc, obj', op')) :
    (obj' = obj ∧ (rc = .next → op'.IsWrite)) ∨
      ∃ n, obj' = obj.setSize n ∧
        op'.head = ⟨.idxPut (motrObjAttrsMem2wire obj'), .attrsQueryFree⟩ := by
  rcases hop.1 with hpp | hpp
  · rw [postProc, hpp] at h
    simp only [motrObjWritePp] at h
    split at h
    · obtain ⟨op'', hl, h⟩ := bind_eq_ok_iff.mp h
      simp only [Except.ok.injEq, Prod.mk.injEq] at h
      obtain ⟨-, rfl, rfl⟩ := h
      exact Or.inl ⟨rfl, fun _ => isWrite_of_launchAligned hl⟩
    · split at h
      · simp only [Except.ok.injEq, Prod.mk.injEq] at h
        obtain ⟨rfl, rfl, -⟩ := h
        exact Or.inl ⟨rfl, fun hnext => absurd hnext (by simp)⟩
      · simp only [Except.ok.injEq, Prod.mk.injEq] at h
        obtain ⟨-, rfl, rfl⟩ := h
        exact Or.inr ⟨_, rfl, rfl⟩
  · rw [postProc, hpp] at h
    simp only [motrObjReadBeforeWritePp] at h
    split at h
    · obtain ⟨op'', hl, h⟩ := bind_eq_ok_iff.mp h
      simp only [Except.ok.injEq, Prod.mk.injEq] at h
      obtain ⟨-, rfl, rfl⟩ := h
      exact Or.inl ⟨rfl, fun _ => isWrite_of_launchAligned hl⟩
    · obtain ⟨op'', hl, h⟩ := bind_eq_ok_iff.mp h
      simp only [Except.ok.injEq, Prod.mk.injEq] at h
      obtain ⟨-, rfl, rfl⟩ := h
      exact Or.inl ⟨rfl, fun _ => isWrite_of_launchRbw hl⟩

/-- What a write leaves alone: the handle but for the size, and the record but
for one made of such a handle. -/
structure WriteFrame (cl : Cluster) (obj : MioObj) (cl' : Cluster) (obj' : MioObj) : Prop where
  /-- The handle. -/
  handle : ∃ n, obj' = obj.setSize n
  /-- The record. -/
  attrs : cl'.attrs = cl.attrs ∨ ∃ n, cl'.attrs = some (motrObjAttrsMem2wire (obj.setSize n))

theorem WriteFrame.refl (cl : Cluster) (obj : MioObj) : WriteFrame cl obj cl obj :=
  ⟨⟨_, obj.setSize_size.symm⟩, Or.inl rfl⟩

/-- The head of the chain of a write: an op on the data, or the storing of the
record. -/
def RwOp.IsWriteOrPut (obj : MioObj) (op : RwOp) : Prop :=
  op.IsWrite ∨ ∃ n, op.head = ⟨.idxPut (motrObjAttrsMem2wire (obj.setSize n)), .attrsQueryFree⟩

/-- A turn of the chain of a write. -/
theorem WriteFrame.chainStep (conf : MioMotrConfig) {cl : Cluster} {obj : MioObj} {s : IoState}
    (h : WriteFrame cl obj s.cluster s.obj) (hop : s.op.IsWriteOrPut obj) :
    match chainStep conf s with
    | .inl s' => WriteFrame cl obj s'.cluster s'.obj ∧ s'.op.IsWriteOrPut obj
    | .inr r => WriteFrame cl obj r.2.cluster r.2.obj := by
  obtain ⟨cluster, obj', op⟩ := s
  obtain ⟨n, hobj⟩ := h.handle
  simp only at hobj
  rcases hop with hop | ⟨m, hop⟩
  · obtain ⟨opcode, ext, hdo⟩ := hop.2
    simp only at hdo
    obtain ⟨cluster', mem, hexec, hattrs⟩ : ∃ cluster' mem,
        op.head.mdoOp.exec cluster op.mem = (cluster', mem) ∧ cluster'.attrs = cluster.attrs := by
      rw [hdo]
      cases opcode with
      | read => exact ⟨_, _, rfl, rfl⟩
      | write => exact ⟨_, _, rfl, rfl⟩
    have hattrs' : cluster'.attrs = cl.attrs ∨
        ∃ n, cluster'.attrs = some (motrObjAttrsMem2wire (obj.setSize n)) := by
      rw [hattrs]
      exact h.attrs
    cases hres : postProc conf obj' { op with mem := mem } with
    | error f =>
      rw [chainStep_error hexec hres]
      exact ⟨h.handle, hattrs'⟩
    | ok r =>
      obtain ⟨rc, obj'', op'⟩ := r
      have hcases := postProc_isWrite { op with mem := mem } hop hres
      have hobj'' : ∃ n, obj'' = obj.setSize n := by
        rcases hcases with ⟨rfl, -⟩ | ⟨m, rfl, -⟩
        · exact ⟨n, hobj⟩
        · exact ⟨m, by rw [hobj]; rfl⟩
      cases rc with
      | next =>
        rw [chainStep_next hexec hres]
        refine ⟨⟨hobj'', hattrs'⟩, ?_⟩
        rcases hcases with ⟨-, hnext⟩ | ⟨m, -, hhead⟩
        · exact Or.inl (hnext rfl)
        · obtain ⟨k, rfl⟩ := hobj''
          exact Or.inr ⟨k, hhead⟩
      | final =>
        rw [chainStep_final hexec hres]
        exact ⟨hobj'', hattrs'⟩
  · simp only at hop
    have hexec : op.head.mdoOp.exec cluster op.mem =
        ({ cluster with attrs := some (motrObjAttrsMem2wire (obj.setSize m)) }, op.mem) := by
      rw [hop]
      rfl
    have hres : postProc conf obj' op = .ok (.final, obj', op) := by
      rw [postProc, hop]
    rw [chainStep_final hexec hres]
    exact ⟨h.handle, Or.inr ⟨m, rfl⟩⟩

/-- A submitted write is one. -/
theorem isWrite_of_mioMotrObjWritev {obj : MioObj} {app : ℕ → Byte} {iov : List (MioIovec ℕ)}
    {op : RwOp} (h : mioMotrObjWritev conf obj app iov = .ok op) : op.IsWrite := by
  rw [mioMotrObjWritev] at h
  obtain ⟨args, -, h⟩ := bind_eq_ok_iff.mp h
  simp only at h
  split at h
  · exact absurd h (by simp)
  · obtain ⟨args', -, h⟩ := bind_eq_ok_iff.mp h
    split at h
    · obtain ⟨args'', -, h⟩ := bind_eq_ok_iff.mp h
      exact isWrite_of_launchRbw h
    · exact isWrite_of_launchAligned h

/-- **A write leaves hints alone**: whatever its ranges are, and whether or not
it completes, of the handle it changes the statistics and the size only, and it
stores no record but one made of such a handle. -/
theorem mioObjWritev_frame (conf : MioMotrConfig) (w : World) (now : UInt64) (app : ℕ → Byte)
    (iov : List (MioIovec ℕ)) :
    WriteFrame w.cluster (objStatsUpdate w.obj true now iov)
      (mioObjWritev conf w now app iov).2.cluster (mioObjWritev conf w now app iov).2.obj := by
  rw [mioObjWritev]
  cases hsub : mioMotrObjWritev conf (objStatsUpdate w.obj true now iov) app iov with
  | error f => exact WriteFrame.refl _ _
  | ok op =>
    simp only [runSubmitted]
    cases hrun : runChain conf ⟨w.cluster, objStatsUpdate w.obj true now iov, op⟩ with
    | none => exact WriteFrame.refl _ _
    | some r =>
      refine loopN_inv (chainStep conf)
        (fun s => WriteFrame w.cluster (objStatsUpdate w.obj true now iov) s.cluster s.obj ∧
          s.op.IsWriteOrPut (objStatsUpdate w.obj true now iov))
        (fun r => WriteFrame w.cluster (objStatsUpdate w.obj true now iov) r.2.cluster r.2.obj)
        ?_ ?_ _ _ r ⟨WriteFrame.refl _ _, Or.inl (isWrite_of_mioMotrObjWritev hsub)⟩ hrun
      · rintro s s' ⟨hs, hop⟩ hstep
        have := WriteFrame.chainStep conf hs hop
        rwa [hstep] at this
      · rintro s r ⟨hs, hop⟩ hstep
        have := WriteFrame.chainStep conf hs hop
        rwa [hstep] at this

/-! ### Writes of ranges that do not wrap -/

/-- A write that is submitted has something to write. -/
theorem maxEnd_pos_of_mioMotrObjWritev {obj : MioObj} {app : ℕ → Byte} {iov : List (MioIovec ℕ)}
    {op : RwOp} (hwrap : ∀ v ∈ iov, v.NoWrap) (h : mioMotrObjWritev conf obj app iov = .ok op) :
    0 < maxEnd iov := by
  obtain ⟨m, -, -, -, -, hctx⟩ := mioMotrObjWritev_ok hwrap h
  have hne : (planArgs obj m true iov).rwaAlignedIovs ≠ [] := (hctx fun _ => 0).1.ne
  refine Nat.pos_of_ne_zero fun hzero => hne ?_
  -- ranges that end at zero have no pieces, and without pieces nothing is planned
  have hnil : reqPieces obj true iov = [] := by
    refine List.eq_nil_iff_forall_not_mem.mpr fun p hp => ?_
    obtain ⟨v, hv, hpv⟩ := mem_reqPieces.mp hp
    obtain ⟨hok, hof⟩ := of_mem_rangePieces (motrObjIoPagesize_pos obj) hpv
    have h1 := hok.pos
    have h2 := hof.stop
    have h3 := stop_le_maxEnd hv
    have h4 : p.stop = p.off + p.len := rfl
    omega
  have hplan : planArgs obj m true iov = sortedArgs true iov := by
    change (reqPieces obj true iov).foldl (addPiece obj m) (sortedArgs true iov) = _
    rw [hnil, List.foldl_nil]
  rw [hplan]
  rfl

/-- What a completed write does to the world. -/
structure WritevDone (w w' : World) (now : UInt64) (iov : List (MioIovec ℕ)) : Prop where
  /-- There was something to write. -/
  pos : 0 < maxEnd iov
  /-- The handle: statistics, and the size if the write ends beyond it. -/
  obj : w'.obj = if maxEnd iov ≤ w.obj.size then objStatsUpdate w.obj true now iov
    else (objStatsUpdate w.obj true now iov).setSize (maxEnd iov)
  /-- The record, which is stored only with a new size. -/
  attrs : w'.cluster.attrs = if maxEnd iov ≤ w.obj.size then w.cluster.attrs
    else some (motrObjAttrsMem2wire w'.obj)
  /-- Nothing beyond the size. -/
  zero : ZeroFrom w.obj.size w.cluster.bytes → ZeroFrom w'.obj.size w'.cluster.bytes

section Writev

variable {w : World} {now : UInt64} {app : ℕ → Byte} {iov : List (MioIovec ℕ)}

/-- The size after a write. -/
theorem WritevDone.size {w' : World} (h : WritevDone w w' now iov) (hwrap : ∀ v ∈ iov, v.NoWrap) :
    w'.obj.size = max w.obj.size (maxEnd iov) := by
  rw [h.obj]
  split
  · rw [objStatsUpdate_size]
    omega
  · rw [MioObj.size_setSize _ (maxEnd_lt hwrap)]
    omega

theorem WritevDone.moDrvObj {w' : World} (h : WritevDone w w' now iov) :
    w'.obj.moDrvObj = w.obj.moDrvObj := by
  rw [h.obj]
  split <;> rfl

/-- How a write ends: its chain completes, or it is turned down or fails. -/
theorem mioObjWritev_cases (hwrap : ∀ v ∈ iov, v.NoWrap) :
    (∃ max s, motrObjMaxSizePerOp conf (objStatsUpdate w.obj true now iov) = .ok max ∧ 0 < max ∧
      InOrder (writeSorted iov) ∧ 0 < maxEnd iov ∧
      (writeArgs (objStatsUpdate w.obj true now iov) max iov).rwaMaxEow = maxEnd iov ∧
      WriteDone (writeCtx (objStatsUpdate w.obj true now iov) max app iov w.cluster.bytes)
        w.cluster (objStatsUpdate w.obj true now iov) s ∧
      mioObjWritev conf w now app iov = (none, ⟨s.cluster, s.obj⟩)) ∨
    ∃ f w', mioObjWritev conf w now app iov = (some f, w') ∧
      w'.obj = objStatsUpdate w.obj true now iov ∧ w'.cluster.attrs = w.cluster.attrs := by
  obtain ⟨obj, hobj⟩ : ∃ obj, obj = objStatsUpdate w.obj true now iov := ⟨_, rfl⟩
  rw [mioObjWritev, ← hobj]
  cases hsub : mioMotrObjWritev conf obj app iov with
  | error f => exact Or.inr ⟨f, _, rfl, rfl, rfl⟩
  | ok op =>
    obtain ⟨max, hmax, hpos, hord, heow, hrun⟩ := runChain_writev hwrap hsub w.cluster
    rcases hrun with ⟨s, hrun, hdone, -⟩ | ⟨s, hrun, -, hs, hattrs⟩
    · have heowpos := maxEnd_pos_of_mioMotrObjWritev hwrap hsub
      exact Or.inl ⟨max, s, hmax, hpos, hord, heowpos, heow, hdone,
        by simp only [runSubmitted, hrun]⟩
    · exact Or.inr ⟨.err (-E2BIG), ⟨s.cluster, s.obj⟩, by simp only [runSubmitted, hrun], hs,
        hattrs⟩

/-- **A write whose vectors fit into ops completes.** -/
theorem mioObjWritev_of_fit {limit : ℕ} (now : UInt64) (app : ℕ → Byte)
    (hmax : motrObjMaxSizePerOp conf w.obj = .ok limit) (hpos : 0 < limit)
    (hwrap : ∀ v ∈ iov, v.NoWrap) (hrc : (motrObjIovecSort (freshArgs true iov)).1 = 0)
    (hne : (planArgs w.obj limit true iov).rwaAlignedIovs ≠ [])
    (hfit : ∀ v ∈ (planArgs w.obj limit true iov).rwaAlignedIovs, v.miovLen ≤ limit) :
    ∃ s, WriteDone (writeCtx (objStatsUpdate w.obj true now iov) limit app iov w.cluster.bytes)
        w.cluster (objStatsUpdate w.obj true now iov) s ∧
      mioObjWritev conf w now app iov = (none, ⟨s.cluster, s.obj⟩) := by
  have hmax' : motrObjMaxSizePerOp conf (objStatsUpdate w.obj true now iov) = .ok limit := hmax
  obtain ⟨op, hsub⟩ := exists_mioMotrObjWritev_of_fit app hmax' hpos hwrap hrc hne hfit
  obtain ⟨limit', hmax'', -, -, -, hrun⟩ := runChain_writev hwrap hsub w.cluster
  obtain rfl : limit = limit' := Except.ok.inj (hmax'.symm.trans hmax'')
  rcases hrun with ⟨s, hrun, hdone, -⟩ | ⟨-, -, ⟨v, hv, hlarge⟩, -⟩
  · refine ⟨s, hdone, ?_⟩
    simp only [mioObjWritev, runSubmitted, hsub, hrun]
  · exact absurd (hfit v hv) (Nat.not_le.mpr hlarge)

/-- A completed write. -/
theorem writevDone_of_writeDone (hwrap : ∀ v ∈ iov, v.NoWrap) {m : ℕ} (hpos : 0 < m)
    (hord : InOrder (writeSorted iov)) (hend : 0 < maxEnd iov) {s : IoState}
    (heow : (writeArgs (objStatsUpdate w.obj true now iov) m iov).rwaMaxEow = maxEnd iov)
    (h : WriteDone (writeCtx (objStatsUpdate w.obj true now iov) m app iov w.cluster.bytes)
      w.cluster (objStatsUpdate w.obj true now iov) s) :
    WritevDone w ⟨s.cluster, s.obj⟩ now iov := by
  have hattrs := h.attrs
  have heow' : (writeCtx (objStatsUpdate w.obj true now iov) m app iov
      w.cluster.bytes).args.rwaMaxEow = maxEnd iov := heow
  rw [heow', objStatsUpdate_size] at hattrs
  have hobj : s.obj = if maxEnd iov ≤ w.obj.size then objStatsUpdate w.obj true now iov
      else (objStatsUpdate w.obj true now iov).setSize (maxEnd iov) := by
    rcases hattrs with ⟨hle, hobj, -⟩ | ⟨hlt, hobj, -⟩
    · rw [if_pos hle, hobj]
    · rw [if_neg (by omega), hobj]
  refine ⟨hend, hobj, ?_, fun hzero x hx => ?_⟩
  · rcases hattrs with ⟨hle, -, hattrs⟩ | ⟨hlt, hobj', hattrs⟩
    · rw [if_pos hle, hattrs]
    · rw [if_neg (by omega), hattrs, hobj']
  · have hsize : w.obj.size ≤ x ∧ maxEnd iov ≤ x := by
      simp only [hobj] at hx
      split at hx
      · rw [objStatsUpdate_size] at hx
        omega
      · rw [MioObj.size_setSize _ (maxEnd_lt hwrap)] at hx
        omega
    by_cases hown : (writeCtx (objStatsUpdate w.obj true now iov) m app iov
        w.cluster.bytes).Own x
    · simp only [h.own x hown]
      exact bytesEnd_eq_zero hpos hord hzero hown hsize.1 hsize.2
    · simp only [h.other x hown]
      exact hzero x hsize.1

/-- **A write that completes.** -/
theorem mioObjWritev_none (hwrap : ∀ v ∈ iov, v.NoWrap) {w' : World}
    (h : mioObjWritev conf w now app iov = (none, w')) : WritevDone w w' now iov := by
  rcases mioObjWritev_cases (w := w) hwrap with
    ⟨m, s, -, hpos, hord, hend, heow, hdone, hres⟩ | ⟨f, w'', hres, -⟩
  · rw [h] at hres
    obtain rfl : w' = ⟨s.cluster, s.obj⟩ := by simpa using hres
    exact writevDone_of_writeDone hwrap hpos hord hend heow hdone
  · rw [h] at hres
    exact absurd hres (by simp)

/-- **A write that fails.** -/
theorem mioObjWritev_some (hwrap : ∀ v ∈ iov, v.NoWrap) {w' : World} {f : Fault}
    (h : mioObjWritev conf w now app iov = (some f, w')) :
    w'.obj = objStatsUpdate w.obj true now iov ∧ w'.cluster.attrs = w.cluster.attrs := by
  rcases mioObjWritev_cases (w := w) hwrap with
    ⟨m, s, -, -, -, -, -, -, hres⟩ | ⟨f', w'', hres, hobj, hattrs⟩
  · rw [h] at hres
    exact absurd hres (by simp)
  · rw [h] at hres
    obtain ⟨-, rfl⟩ : _ ∧ w' = w'' := by simpa using hres
    exact ⟨hobj, hattrs⟩

end Writev

end CortxMio
