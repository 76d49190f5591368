import CortxMio.Obj.Rbw

/-!
# The chain of a write

The chain of a write, followed from its submission to its end. What the write
has been given – its plan, its memory, the bytes of the object as they were, the
size of its first read-before-write op – is its context
(`CortxMio.WriteCtx`), and the context determines everything that comes later:
the memory after the reads, the memory after the copies, and the bytes after each
op. A stage (`CortxMio.WriteStage`) says how far the chain has come.

* `CortxMio.WriteCtx.exec_opAt`: when Motr executes the op of a stage, the bytes
  go from those before the stage to those after it, on the pages of the write;
  all other bytes stay.
* `CortxMio.WriteCtx.postProc_opAt`: the post-processing function goes to a
  stage that starts where this one ended, or ends the chain, or fails because a
  vector does not fit into an op.

Only the pages of the write matter in the first statement, so other writes may
be under way on other pages. The vectors that did not fit into the first
read-before-write op are written, not read; the bytes and the memory of the
stages are those of the code as it is.
-/

namespace CortxMio

open Lib

/-! ### Reading agreeing bytes -/

theorem readVecs_cons (bytes : ℕ → Byte) (v : MioIovec Ptr) (ext : List (MioIovec Ptr))
    (mem : Mem) : readVecs bytes (v :: ext) mem =
      readVecs bytes ext (blit v.miovBase v.miovLen (fun i => bytes (v.miovOff + i)) mem) := rfl

/-- A READ depends on the bytes of its extents only. -/
theorem readVecs_congr {bytes bytes' : ℕ → Byte} {ext : List (MioIovec Ptr)}
    (h : ∀ v ∈ ext, ∀ x, v.Has x → bytes x = bytes' x) (mem : Mem) :
    readVecs bytes ext mem = readVecs bytes' ext mem := by
  induction ext generalizing mem with
  | nil => rfl
  | cons v ext ih =>
    have hv : blit v.miovBase v.miovLen (fun i => bytes (v.miovOff + i)) mem =
        blit v.miovBase v.miovLen (fun i => bytes' (v.miovOff + i)) mem := by
      funext a
      by_cases hrun : InRun v.miovBase v.miovLen a
      · obtain ⟨i, hi, rfl⟩ := hrun
        rw [blit_shift hi, blit_shift hi]
        exact h v List.mem_cons_self _ ⟨Nat.le_add_right _ _, Nat.add_lt_add_left hi _⟩
      · rw [blit_of_not_inRun hrun, blit_of_not_inRun hrun]
    rw [readVecs_cons, readVecs_cons, hv]
    exact ih (fun w hw => h w (List.mem_cons_of_mem _ hw)) _

/-! ### Contexts and stages -/

/-- What a write is given. -/
structure WriteCtx where
  /-- The plan. -/
  args : MotrObjRwArgs
  /-- The memory at submission. -/
  mem : Mem
  /-- The bytes of the object. -/
  bytes : ℕ → Byte
  /-- The number of vectors in the first read-before-write op. -/
  cnt : ℕ

/-- How far a write has come: the first read-before-write op is under way, or a
later one, or one that writes the aligned vectors, or the storing of the
attributes. The two numbers count the vectors that ops of this kind have
transferred and those that are under way. -/
inductive WriteStage
  /-- The first read-before-write op. -/
  | read
  /-- A later read-before-write op. -/
  | rbw (j n : ℕ)
  /-- An op on the aligned vectors. -/
  | data (j n : ℕ)
  /-- The storing of the attributes. -/
  | put (val : List Byte)

namespace WriteCtx

variable (c : WriteCtx)

/-- The aligned vectors. -/
def aligned : List (MioIovec Ptr) := c.args.rwaAlignedIovs

/-- The read-before-write vectors. -/
def rbw : List (MioIovec Ptr) := c.args.rwaRbwIovs

/-- The read-before-write vectors that did not fit into the first op. -/
def rest : List (MioIovec Ptr) := c.rbw.drop c.cnt

/-- The memory after the first read-before-write op. -/
def memRead : Mem := readVecs c.bytes (c.rbw.take c.cnt) c.mem

/-- The memory after the copies. -/
def memFull : Mem := motrObjDataCopy c.args c.memRead

/-- The bytes after all read-before-write ops. -/
def bytesRbw : ℕ → Byte := writeVecs c.memRead c.rest c.bytes

/-- The bytes in the end. -/
def bytesEnd : ℕ → Byte := writeVecs c.memFull c.aligned c.bytesRbw

/-- The operation at a stage. -/
def opAt : WriteStage → RwOp
  | .read => ⟨{ c.args with rwaRbwProgress := c.cnt, rwaAlignedProgress := 0 }, c.mem,
      ⟨.obj .read (c.rbw.take c.cnt), .readBeforeWrite⟩⟩
  | .rbw j n => ⟨{ c.args with rwaRbwProgress := c.cnt + j + n, rwaAlignedProgress := 0 },
      c.memRead, ⟨.obj .write ((c.rest.drop j).take n), .readBeforeWrite⟩⟩
  | .data j n => ⟨{ c.args with
        rwaRbwProgress := c.rbw.length, rwaAlignedProgress := j + n },
      c.memFull, ⟨.obj .write ((c.aligned.drop j).take n), .write⟩⟩
  | .put val => ⟨{ c.args with
        rwaRbwProgress := c.rbw.length, rwaAlignedProgress := c.aligned.length },
      c.memFull, ⟨.idxPut val, .attrsQueryFree⟩⟩

/-- The memory once the op of a stage has been executed. -/
def memAfter : WriteStage → Mem
  | .read | .rbw _ _ => c.memRead
  | .data _ _ | .put _ => c.memFull

/-- The operation once the op of a stage has been executed. -/
def doneAt (st : WriteStage) : RwOp := { c.opAt st with mem := c.memAfter st }

/-- The bytes before the op of a stage. -/
def before : WriteStage → ℕ → Byte
  | .read => c.bytes
  | .rbw j _ => writeVecs c.memRead (c.rest.take j) c.bytes
  | .data j _ => writeVecs c.memFull (c.aligned.take j) c.bytesRbw
  | .put _ => c.bytesEnd

/-- The bytes after the op of a stage. -/
def after : WriteStage → ℕ → Byte
  | .read => c.bytes
  | .rbw j n => writeVecs c.memRead (c.rest.take (j + n)) c.bytes
  | .data j n => writeVecs c.memFull (c.aligned.take (j + n)) c.bytesRbw
  | .put _ => c.bytesEnd

/-- The record the op of a stage stores. -/
def putOf : WriteStage → Option (List Byte)
  | .put val => some val
  | _ => none

/-- A stage the chain can be at. What has been sent was small enough. -/
def Valid (max : ℕ) : WriteStage → Prop
  | .read => c.cnt ≤ c.rbw.length
  | .rbw j n => c.cnt + j + n ≤ c.rbw.length
  | .data j n => c.cnt ≤ c.rbw.length ∧ j + n ≤ c.aligned.length ∧
      ∀ v ∈ c.aligned.take (j + n), v.miovLen ≤ max
  | .put _ => ∀ v ∈ c.aligned, v.miovLen ≤ max

/-- How many turns are left at most. -/
def rank : WriteStage → ℕ
  | .read => c.rbw.length + c.aligned.length + 3
  | .rbw j n => c.rbw.length - (c.cnt + j + n) + c.aligned.length + 2
  | .data j n => c.aligned.length - (j + n) + 1
  | .put _ => 0

/-- A byte on the pages of the write. -/
def Own (x : ℕ) : Prop := ∃ v ∈ c.aligned, v.Has x

/-- A context that a submission leads to. -/
structure Ok (max : ℕ) : Prop where
  /-- There is something to write. -/
  ne : c.aligned ≠ []
  /-- A read-before-write vector is an aligned one, or empty. -/
  rbw : ∀ r ∈ c.rbw, r ∈ c.aligned ∨ r.miovLen = 0
  /-- An aligned vector is a chunk or a page. -/
  small : ∀ v ∈ c.aligned, v.miovLen ≤ max ∨ v.miovLen < 2 ^ 32

/-! ### The first stage -/

section First

variable {c}

/-- A write that reads first. -/
theorem opAt_read (h : c.args.rwaAlignedProgress = 0) :
    c.opAt .read = ⟨{ c.args with rwaRbwProgress := c.cnt }, c.mem,
      ⟨.obj .read (c.rbw.take c.cnt), .readBeforeWrite⟩⟩ := by
  rw [opAt, ← h]

variable (hrbw : c.rbw = [])

include hrbw

/-- A write that does not has its bytes as they were. -/
theorem before_data_zero (n : ℕ) : c.before (.data 0 n) = c.bytes := by
  rw [before, bytesRbw, rest, hrbw, List.drop_nil]
  rfl

/-- And it is ready to write. -/
theorem opAt_data_zero (h : c.args.rwaRbwProgress = 0) (n : ℕ) :
    c.opAt (.data 0 n) = ⟨{ c.args with rwaAlignedProgress := n },
      motrObjDataCopy c.args c.mem, ⟨.obj .write (c.aligned.take n), .write⟩⟩ := by
  have hmem : c.memFull = motrObjDataCopy c.args c.mem := by
    rw [memFull, memRead, hrbw, List.take_nil]
    rfl
  rw [opAt, hmem, hrbw, List.length_nil, Nat.zero_add, List.drop_zero, ← h]

end First

/-! ### Executing the op of a stage -/

section Exec

variable {c} {max : ℕ} (hok : c.Ok max)

include hok

/-- A byte of a read-before-write vector is on the pages of the write. -/
theorem own_of_mem_rbw {r : MioIovec Ptr} (hr : r ∈ c.rbw) {x : ℕ} (hx : r.Has x) : c.Own x := by
  rcases hok.rbw r hr with h | h
  · exact ⟨r, h, hx⟩
  · obtain ⟨h1, h2⟩ := hx
    rw [MioIovec.stop] at h2
    omega

/-- The extents of the op of a stage are on the pages of the write. -/
theorem own_of_opAt (st : WriteStage) {opcode : M0ObjOpcode} {ext : List (MioIovec Ptr)}
    (h : (c.opAt st).head.mdoOp = .obj opcode ext) {v : MioIovec Ptr} (hv : v ∈ ext) {x : ℕ}
    (hx : v.Has x) : c.Own x := by
  cases st with
  | read =>
    simp only [opAt, M0Op.obj.injEq] at h
    obtain ⟨-, rfl⟩ := h
    exact own_of_mem_rbw hok (List.mem_of_mem_take hv) hx
  | rbw j n =>
    simp only [opAt, M0Op.obj.injEq] at h
    obtain ⟨-, rfl⟩ := h
    exact own_of_mem_rbw hok (List.mem_of_mem_drop (List.mem_of_mem_drop
      (List.mem_of_mem_take hv))) hx
  | data j n =>
    simp only [opAt, M0Op.obj.injEq] at h
    obtain ⟨-, rfl⟩ := h
    exact ⟨v, List.mem_of_mem_drop (List.mem_of_mem_take hv), hx⟩
  | put val => simp [opAt] at h

/-- **Executing the op of a stage.** On the pages of the write the bytes go from
those before the stage to those after it; the other bytes stay. -/
theorem exec_opAt {cl : Cluster} {st : WriteStage}
    (hb : ∀ x, c.Own x → cl.bytes x = c.before st x) :
    ∃ bytes, (c.opAt st).head.mdoOp.exec cl (c.opAt st).mem =
        (⟨bytes, (putOf st).or cl.attrs⟩, c.memAfter st) ∧
      (∀ x, c.Own x → bytes x = c.after st x) ∧ ∀ x, ¬c.Own x → bytes x = cl.bytes x := by
  -- a WRITE of extents on the pages of the write
  have hwrite : ∀ {mem : Mem} {ext : List (MioIovec Ptr)},
      (∀ v ∈ ext, ∀ x, v.Has x → c.Own x) → ∀ x, ¬c.Own x →
      writeVecs mem ext cl.bytes x = cl.bytes x :=
    fun hext x hx => writeVecs_of_not_mem fun v hv hvx => hx (hext v hv x hvx)
  cases st with
  | read =>
    refine ⟨cl.bytes, ?_, hb, fun _ _ => rfl⟩
    have hread : readVecs cl.bytes (c.rbw.take c.cnt) c.mem = c.memRead :=
      readVecs_congr (fun v hv x hx => hb x (own_of_mem_rbw hok (List.mem_of_mem_take hv) hx)) _
    simp only [opAt, M0Op.exec, hread, memAfter, putOf, Option.none_or]
  | rbw j n =>
    refine ⟨writeVecs c.memRead ((c.rest.drop j).take n) cl.bytes, rfl, fun x hx => ?_,
      hwrite fun v hv x hx => own_of_opAt hok (.rbw j n) rfl hv hx⟩
    rw [after, ← writeVecs_take_add]
    exact writeVecs_congr (hb x hx)
  | data j n =>
    refine ⟨writeVecs c.memFull ((c.aligned.drop j).take n) cl.bytes, rfl, fun x hx => ?_,
      hwrite fun v hv x hx => own_of_opAt hok (.data j n) rfl hv hx⟩
    rw [after, ← writeVecs_take_add]
    exact writeVecs_congr (hb x hx)
  | put val => exact ⟨cl.bytes, rfl, hb, fun _ _ => rfl⟩

end Exec

/-! ### Launching the next op -/

section Launch

variable {c} {conf : MioMotrConfig} {obj : MioObj} {max : ℕ}

/-- A vector in a batch fits into an op. -/
theorem miovLen_le_of_mem_batch :
    ∀ {vs : List (MioIovec Ptr)} {ioSize : ℕ}, ioSize ≤ max →
      (∀ v ∈ vs, v.miovLen ≤ max ∨ v.miovLen < 2 ^ 32) →
      ∀ v ∈ vs.take (rwBatchCnt max ioSize vs), v.miovLen ≤ max := by
  intro vs
  induction vs with
  | nil =>
    intro ioSize _ _ v hv
    simp at hv
  | cons w vs ih =>
    intro ioSize hio hsmall v hv
    rw [rwBatchCnt] at hv
    split at hv
    · simp at hv
    · next hle =>
      rw [List.take_succ_cons] at hv
      rcases List.mem_cons.mp hv with rfl | hv
      · rcases hsmall v List.mem_cons_self with h | h
        · exact h
        · -- a sum of small numbers does not wrap
          by_contra hgt
          rw [u64_of_lt (by omega)] at hle
          omega
      · exact ih (by omega) (fun u hu => hsmall u (List.mem_cons_of_mem _ hu)) v hv

/-- A batch of vectors that leaves nothing out and yet is empty has a vector too
large for an op. -/
theorem exists_large_of_batch (hlt : max < 2 ^ 64) {vs : List (MioIovec Ptr)} (hne : vs ≠ [])
    (h : rwBatchCnt max 0 vs = 0) : ∃ v ∈ vs, max < v.miovLen := by
  by_contra hcon
  simp only [not_exists, not_and, Nat.not_lt] at hcon
  have := rwBatchCnt_pos hlt hne hcon
  omega

variable (hmax : motrObjMaxSizePerOp conf obj = .ok max) (hok : c.Ok max)

include hmax hok

/-- The next op on the aligned vectors. -/
theorem launchAligned_opAt (hcnt : c.cnt ≤ c.rbw.length) {j : ℕ} (hj : j < c.aligned.length)
    (hsent : ∀ v ∈ c.aligned.take j, v.miovLen ≤ max) (mem : Mem) (hmem : mem = c.memFull) :
    (launchAligned conf obj .write .write
        { c.args with rwaRbwProgress := c.rbw.length, rwaAlignedProgress := j } mem =
      .error (.err (-E2BIG)) ∧ ∃ v ∈ c.aligned, max < v.miovLen) ∨
    ∃ n, 0 < n ∧ c.Valid max (.data j n) ∧
      launchAligned conf obj .write .write
        { c.args with rwaRbwProgress := c.rbw.length, rwaAlignedProgress := j } mem =
      .ok (c.opAt (.data j n)) := by
  subst hmem
  have hne : c.aligned.drop j ≠ [] := by
    rw [Ne, List.drop_eq_nil_iff]
    omega
  rcases Nat.eq_zero_or_pos (rwBatchCnt max 0 (c.aligned.drop j)) with h0 | hpos
  · obtain ⟨v, hv, hlarge⟩ := exists_large_of_batch (motrObjMaxSizePerOp_lt hmax) hne h0
    exact Or.inl ⟨launchAligned_error hmax h0, v, List.mem_of_mem_drop hv, hlarge⟩
  · have hle := rwBatchCnt_le_length max 0 (c.aligned.drop j)
    rw [List.length_drop] at hle
    refine Or.inr ⟨rwBatchCnt max 0 (c.aligned.drop j), hpos, ⟨hcnt, by omega, ?_⟩,
      launchAligned_eq hmax rfl hpos⟩
    intro v hv
    rw [List.take_add] at hv
    rcases List.mem_append.mp hv with hv | hv
    · exact hsent v hv
    · exact miovLen_le_of_mem_batch (Nat.zero_le _)
        (fun w hw => hok.small w (List.mem_of_mem_drop hw)) v hv

/-- The next read-before-write op, after the first one. -/
theorem launchRbw_opAt {j : ℕ} (hj : c.cnt + j < c.rbw.length) :
    (launchRbw conf obj .write
        { c.args with rwaRbwProgress := c.cnt + j, rwaAlignedProgress := 0 } c.memRead =
      .error (.err (-E2BIG)) ∧ ∃ v ∈ c.aligned, max < v.miovLen) ∨
    ∃ n, 0 < n ∧ c.Valid max (.rbw j n) ∧
      launchRbw conf obj .write
        { c.args with rwaRbwProgress := c.cnt + j, rwaAlignedProgress := 0 } c.memRead =
      .ok (c.opAt (.rbw j n)) := by
  have hdrop : c.rbw.drop (c.cnt + j) = c.rest.drop j := by rw [rest, List.drop_drop]
  have hne : c.rbw.drop (c.cnt + j) ≠ [] := by
    rw [Ne, List.drop_eq_nil_iff]
    omega
  rcases Nat.eq_zero_or_pos (rwBatchCnt max 0 (c.rbw.drop (c.cnt + j))) with h0 | hpos
  · obtain ⟨v, hv, hlarge⟩ := exists_large_of_batch (motrObjMaxSizePerOp_lt hmax) hne h0
    refine Or.inl ⟨launchRbw_error hmax h0, v, ?_, hlarge⟩
    exact (hok.rbw v (List.mem_of_mem_drop hv)).resolve_right (by omega)
  · have hle := rwBatchCnt_le_length max 0 (c.rbw.drop (c.cnt + j))
    rw [List.length_drop] at hle
    refine Or.inr ⟨rwBatchCnt max 0 (c.rbw.drop (c.cnt + j)), hpos, ?_, ?_⟩
    · change c.cnt + j + _ ≤ c.rbw.length
      omega
    · rw [opAt, ← hdrop]
      exact launchRbw_eq hmax rfl hpos

end Launch

/-! ### The post-processing function of a stage -/

section PostProc

variable {c} {conf : MioMotrConfig} {obj : MioObj} {max : ℕ}

/-- What follows a stage. -/
inductive Next (conf : MioMotrConfig) (obj : MioObj) (max : ℕ) (st : WriteStage) : Prop
  /-- A vector does not fit into an op. -/
  | error (h : postProc conf obj (c.doneAt st) = .error (.err (-E2BIG)))
      (large : ∃ v ∈ c.aligned, max < v.miovLen) (put : putOf st = none)
  /-- Another op on the data. -/
  | next (st' : WriteStage) (h : postProc conf obj (c.doneAt st) = .ok (.next, obj, c.opAt st'))
      (valid : c.Valid max st') (bytes : c.before st' = c.after st) (put : putOf st' = none)
      (rank : c.rank st' < c.rank st)
  /-- The data is there, and the size of the object has not changed. -/
  | final (h : postProc conf obj (c.doneAt st) = .ok (.final, obj, c.doneAt st))
      (bytes : c.after st = c.bytesEnd) (size : c.args.rwaMaxEow ≤ obj.size) (put : putOf st = none)
      (fit : ∀ v ∈ c.aligned, v.miovLen ≤ max)
  /-- The data is there, and the new size is to be stored. -/
  | put (h : postProc conf obj (c.doneAt st) = .ok (.next, obj.setSize c.args.rwaMaxEow,
        c.opAt (.put (motrObjAttrsMem2wire (obj.setSize c.args.rwaMaxEow)))))
      (bytes : c.after st = c.bytesEnd) (size : obj.size < c.args.rwaMaxEow) (put : putOf st = none)
      (fit : ∀ v ∈ c.aligned, v.miovLen ≤ max) (rank : 0 < c.rank st)
  /-- The attributes are stored. -/
  | stored (h : postProc conf obj (c.doneAt st) = .ok (.final, obj, c.doneAt st))
      (put : ∃ val, st = .put val)

variable (hmax : motrObjMaxSizePerOp conf obj = .ok max) (hok : c.Ok max)

include hmax hok

/-- After the last read-before-write op the aligned vectors are written. -/
theorem next_of_rbw_done {st : WriteStage} (hcnt : c.cnt ≤ c.rbw.length)
    (hargs : (c.doneAt st).args =
      { c.args with rwaRbwProgress := c.rbw.length, rwaAlignedProgress := 0 })
    (hmem : (c.doneAt st).mem = c.memRead)
    (hhead : (c.doneAt st).head.mdoPostProc = .readBeforeWrite)
    (hbytes : c.after st = c.bytesRbw) (hrank : c.aligned.length + 1 < c.rank st)
    (hput : putOf st = none) :
    Next (c := c) conf obj max st := by
  have hpp : postProc conf obj (c.doneAt st) =
      (launchAligned conf obj .write .write
        { c.args with rwaRbwProgress := c.rbw.length, rwaAlignedProgress := 0 } c.memFull >>=
        fun op => .ok (.next, obj, op)) := by
    rw [postProc, hhead]
    simp only [motrObjReadBeforeWritePp, hargs, hmem]
    rw [if_pos (by rfl)]
    rfl
  have hlen : 0 < c.aligned.length := List.length_pos_iff.mpr hok.ne
  rcases launchAligned_opAt hmax hok hcnt hlen (by simp) c.memFull rfl with
    ⟨herr, hlarge⟩ | ⟨n, hn, hvalid, hlaunch⟩
  · exact .error (by rw [hpp, herr]; rfl) hlarge hput
  · refine .next (.data 0 n) (by rw [hpp, hlaunch]; rfl) hvalid ?_ rfl ?_
    · rw [hbytes]
      rfl
    · refine lt_of_le_of_lt ?_ hrank
      simp only [rank]
      omega

/-- **The post-processing function of a stage** leads to a stage that starts where
this one ended, or ends the chain. -/
theorem postProc_opAt {st : WriteStage} (hvalid : c.Valid max st) :
    Next (c := c) conf obj max st := by
  cases st with
  | read =>
    have hcnt : c.cnt ≤ c.rbw.length := hvalid
    rcases Nat.lt_or_eq_of_le hcnt with hlt | heq
    · -- the rest of the read-before-write vectors
      have hpp : postProc conf obj (c.doneAt .read) =
          (launchRbw conf obj .write
            { c.args with rwaRbwProgress := c.cnt + 0, rwaAlignedProgress := 0 } c.memRead >>=
            fun op => .ok (.next, obj, op)) :=
        if_neg (Nat.ne_of_lt hlt)
      rcases launchRbw_opAt hmax hok (j := 0) hlt with ⟨herr, hlarge⟩ | ⟨n, hn, hvalid', hlaunch⟩
      · exact .error (by rw [hpp, herr]; rfl) hlarge rfl
      · refine .next (.rbw 0 n) (by rw [hpp, hlaunch]; rfl) hvalid' rfl rfl ?_
        simp only [rank]
        omega
    · refine next_of_rbw_done hmax hok hcnt ?_ rfl rfl ?_ ?_ rfl
      · simp only [doneAt, opAt, heq]
      · have hrest : c.rest = [] := by rw [rest, heq, List.drop_length]
        rw [bytesRbw, hrest]
        rfl
      · simp only [rank]
        omega
  | rbw j n =>
    have hle : c.cnt + j + n ≤ c.rbw.length := hvalid
    rcases Nat.lt_or_eq_of_le hle with hlt | heq
    · have hpp : postProc conf obj (c.doneAt (.rbw j n)) =
          (launchRbw conf obj .write
            { c.args with rwaRbwProgress := c.cnt + (j + n), rwaAlignedProgress := 0 }
            c.memRead >>= fun op => .ok (.next, obj, op)) := by
        rw [← Nat.add_assoc]
        exact if_neg (Nat.ne_of_lt hlt)
      rcases launchRbw_opAt hmax hok (j := j + n) (by omega) with
        ⟨herr, hlarge⟩ | ⟨n', hn', hvalid', hlaunch⟩
      · exact .error (by rw [hpp, herr]; rfl) hlarge rfl
      · refine .next (.rbw (j + n) n') (by rw [hpp, hlaunch]; rfl) hvalid' rfl rfl ?_
        have : c.cnt + (j + n) + n' ≤ c.rbw.length := hvalid'
        simp only [rank]
        omega
    · refine next_of_rbw_done hmax hok (by omega) ?_ rfl rfl ?_ ?_ rfl
      · simp only [doneAt, opAt, heq]
      · have hlen : c.rest.length = j + n := by
          rw [rest, List.length_drop]
          omega
        rw [after, ← hlen, List.take_length]
        rfl
      · simp only [rank]
        omega
  | data j n =>
    obtain ⟨hcnt, hle, hsent⟩ := hvalid
    rcases Nat.lt_or_eq_of_le hle with hlt | heq
    · have hpp : postProc conf obj (c.doneAt (.data j n)) =
          (launchAligned conf obj .write .write
            { c.args with rwaRbwProgress := c.rbw.length, rwaAlignedProgress := j + n }
            c.memFull >>= fun op => .ok (.next, obj, op)) :=
        if_pos (Nat.ne_of_lt hlt)
      rcases launchAligned_opAt hmax hok hcnt hlt hsent c.memFull rfl with
        ⟨herr, hlarge⟩ | ⟨n', hn', hvalid', hlaunch⟩
      · exact .error (by rw [hpp, herr]; rfl) hlarge rfl
      · refine .next (.data (j + n) n') (by rw [hpp, hlaunch]; rfl) hvalid' rfl rfl ?_
        have := hvalid'.2.1
        simp only [rank]
        omega
    · have hfit : ∀ v ∈ c.aligned, v.miovLen ≤ max := by
        rwa [heq, List.take_length] at hsent
      have hbytes : c.after (.data j n) = c.bytesEnd := by
        rw [after, heq, List.take_length]
        rfl
      have hpp : postProc conf obj (c.doneAt (.data j n)) =
          if c.args.rwaMaxEow ≤ obj.size then .ok (.final, obj, c.doneAt (.data j n))
          else .ok (.next, obj.setSize c.args.rwaMaxEow, { c.doneAt (.data j n) with
            head := ⟨.idxPut (motrObjAttrsMem2wire (obj.setSize c.args.rwaMaxEow)),
              .attrsQueryFree⟩ }) :=
        if_neg (not_not.mpr heq)
      by_cases hsize : c.args.rwaMaxEow ≤ obj.size
      · exact .final (by rw [hpp, if_pos hsize]) hbytes hsize rfl hfit
      · refine .put ?_ hbytes (Nat.not_le.mp hsize) rfl hfit (by simp only [rank]; omega)
        rw [hpp, if_neg hsize]
        simp only [doneAt, opAt, memAfter, heq]
  | put val => exact .stored rfl ⟨val, rfl⟩

end PostProc

end WriteCtx

end CortxMio
