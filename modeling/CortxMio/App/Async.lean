import CortxMio.App.Files
import CortxMio.Lib.Join

/-!
# Reading and writing with callbacks

`mio_cmd_obj_read_async` and `mio_cmd_obj_write_async` start one op after the other, each
with a callback, count them under a mutex, wait until the callbacks have counted down to
zero, and finalise the ops. The callback of a read writes what has been read to a file
first, without the mutex.

The number of slots for the ops is computed before the number of blocks for each op is cut
down to `MIO_CMD_MAX_BLOCK_COUNT_PER_OP`, so that some runs store beyond the slots, and it
is known which (`CortxMio.exists_overrun_iff`). Otherwise all is well with the ops, in
whatever order the threads go on (`CortxMio.async_waits`); and the file has what the object
has just if no two callbacks write to it at a time (`CortxMio.readAsync_file_iff`).
-/

namespace CortxMio

open Lib

/-! ### The threads -/

/-- How far an op and its callback are. -/
inductive CbStage
  /-- The op is on its way. -/
  | flying
  /-- The callback is in front of the `fseek`. -/
  | seek
  /-- It is in front of an `fwrite`. -/
  | write (j : ℕ)
  /-- It is in front of `obj_cleanup_iovecs`. -/
  | clean
  /-- It has freed the vectors and `obj_io_cb_args`. -/
  | freed
  deriving DecidableEq

/-- `obj_io_cb_args`, and what becomes of the op. -/
structure AsyncOp where
  /-- `ica_iovecs`. -/
  icaIovecs : List (MioIovec ℕ)
  /-- Whether the op or an `fwrite` has failed. -/
  failed : Bool
  /-- How far it is. -/
  stage : CbStage

/-- What a call is about. -/
structure AsyncJob where
  /-- Whether it reads. -/
  reads : Bool
  /-- Whether callbacks do not write to the file at the same time. -/
  serial : Bool
  /-- Whether anything may fail. -/
  fails : Bool
  /-- The bytes of the object that is read. -/
  content : ℕ → Byte
  /-- `block_size`. -/
  blockSize : ℕ
  /-- `max_index`. -/
  maxIndex : ℕ
  /-- `async_step`, in the loop. -/
  asyncStep : ℕ

/-- The variables of a call, and `obj_io_ops`. -/
structure AsyncVars where
  /-- `rc`. -/
  rc : ℤ
  /-- `block_count`. -/
  blockCount : ℕ
  /-- `last_index`. -/
  lastIndex : ℕ
  /-- `obj_io_ops`. -/
  objIoOps : List (Option ℕ)
  /-- Whether something has been stored beyond `obj_io_ops`. -/
  overrun : Bool
  /-- The ops. -/
  ops : List AsyncOp
  /-- The file that is written. -/
  file : CFile
  /-- The loop variable of `obj_io_async_fini`. -/
  fini : ℕ
  /-- The ops that `mio_op_fini` has been called for. -/
  finalised : List ℕ

/-- `obj_io_nr_ops_todo`, which is an `int`, as `bcount` is. -/
def objIoNrOpsTodo (bcount asyncStep : UInt64) : Int32 :=
  ((bcount.toInt64.toInt32.toInt64.toUInt64 + asyncStep - 1) / asyncStep).toInt64.toInt32

/-- The number of slots that `obj_io_async_init` allocates. -/
def objIoSlots (bcount asyncStep : UInt64) : ℕ :=
  ((objIoNrOpsTodo bcount asyncStep).toInt64.toUInt64 * 8).toNat / 8

/-- `async_step`, as it is cut down after `obj_io_async_init`. -/
def asyncStepOf (asyncStep : UInt64) : ℕ :=
  if asyncStep.toNat > mioCmdMaxBlockCountPerOp then mioCmdMaxBlockCountPerOp
  else asyncStep.toNat

/-- The start of the loop, after `obj_io_async_init`. -/
def asyncStart (blockCount asyncStep : UInt64) : AsyncVars where
  rc := 0
  blockCount := blockCount.toNat
  lastIndex := 0
  objIoOps := List.replicate (objIoSlots blockCount asyncStep) none
  overrun := false
  ops := []
  file := .new
  fini := 0
  finalised := []

variable (job : AsyncJob)

/-- The number of blocks of the next op. -/
def AsyncJob.bcount (d : AsyncVars) : ℕ :=
  if d.blockCount > job.asyncStep then job.asyncStep else d.blockCount

/-- The next op, with buffers at `base`, and the variables after it. -/
def asyncLaunch (base : ℕ) (d : AsyncVars) : AsyncVars :=
  let bcount := job.bcount d
  { d with
    rc := 0
    blockCount := d.blockCount - bcount
    lastIndex := u64 (d.lastIndex + u64 (bcount * job.blockSize))
    ops := d.ops ++ [⟨objIovecs base bcount job.blockSize d.lastIndex job.maxIndex, false,
      .flying⟩] }

/-- `obj_io_ops[op_idx] = op`, for the last op. -/
def asyncEnter (opIdx : ℤ) (d : AsyncVars) : AsyncVars :=
  if 0 ≤ opIdx ∧ opIdx < d.objIoOps.length then
    { d with objIoOps := d.objIoOps.set opIdx.toNat (some (d.ops.length - 1)) }
  else { d with overrun := true }

/-- An op goes on. -/
def AsyncVars.setOp (d : AsyncVars) (i : ℕ) (op : AsyncOp) : AsyncVars :=
  { d with ops := d.ops.set i op }

/-- Whether the callback is writing to the file. -/
def CbStage.writing : CbStage → Bool
  | .write _ => true
  | _ => false

/-- What an op and its callback do. -/
inductive AsyncWork (d : AsyncVars) (i : ℕ) (op : AsyncOp) : AsyncVars → Prop
  /-- The op succeeds, and `obj_read_cb` is called. -/
  | read (h : op.stage = .flying) (hr : job.reads = true) :
      AsyncWork d i op (d.setOp i { op with stage := .seek })
  /-- The op succeeds, and `obj_write_cb` is called. -/
  | written (h : op.stage = .flying) (hr : job.reads = false) :
      AsyncWork d i op (d.setOp i { op with stage := .clean })
  /-- The op fails, and the callback is called. -/
  | failed (h : op.stage = .flying) (hf : job.fails = true) :
      AsyncWork d i op (d.setOp i { op with stage := .clean, failed := true })
  /-- `fseek`. -/
  | seek {v : MioIovec ℕ} (h : op.stage = .seek) (hv : op.icaIovecs[0]? = some v)
      (hserial : job.serial = true → ∀ o ∈ d.ops, o.stage.writing = false) :
      AsyncWork d i op
        { d.setOp i { op with stage := .write 0 } with file := d.file.fseek v.miovOff }
  /-- `fwrite`, of a vector that the op has filled. -/
  | fwrite {j : ℕ} {v : MioIovec ℕ} (h : op.stage = .write j) (hv : op.icaIovecs[j]? = some v) :
      AsyncWork d i op
        { d.setOp i { op with stage := .write (j + 1) } with
          file := d.file.fwrite v.miovLen fun x => job.content (v.miovOff + x) }
  /-- An `fwrite` that comes to no good end. -/
  | short {j n : ℕ} {v : MioIovec ℕ} (h : op.stage = .write j) (hv : op.icaIovecs[j]? = some v)
      (hf : job.fails = true) (hn : n < v.miovLen) :
      AsyncWork d i op
        { d.setOp i { op with stage := .clean, failed := true } with
          file := d.file.fwrite n fun x => job.content (v.miovOff + x) }
  /-- All vectors have been written. -/
  | done {j : ℕ} (h : op.stage = .write j) (hj : op.icaIovecs.length ≤ j) :
      AsyncWork d i op (d.setOp i { op with stage := .clean })

/-- One round of `obj_io_async_fini`. -/
def asyncFini (d : AsyncVars) : AsyncVars :=
  { d with
    fini := d.fini + 1
    finalised := d.finalised ++ ((d.objIoOps[d.fini]?).bind id).toList }

/-- **The threads of a call.** -/
def asyncSys : JoinSys AsyncVars where
  launch := fun _ d d' => 0 < d.blockCount ∧ ∃ base, d' = asyncLaunch job base d
  enter := fun opIdx d d' => d' = asyncEnter opIdx d
  stop := fun d d' => (d.blockCount = 0 ∧ d' = d) ∨
    (0 < d.blockCount ∧ job.fails = true ∧ ∃ rc, d' = { d with rc := rc })
  work := fun i d d' => ∃ op, d.ops[i]? = some op ∧ AsyncWork job d i op d'
  finish := fun i d d' => ∃ op, d.ops[i]? = some op ∧ op.stage = .clean ∧
    d' = d.setOp i { op with stage := .freed }
  after := fun d d' => d.fini < d.objIoOps.length ∧ d' = asyncFini d

/-! ### The number of slots -/

/-- A number that fits into an `int` stays what it is. -/
theorem toUInt64_toInt32 {x : UInt64} (h : x.toNat < 2 ^ 31) :
    x.toInt64.toInt32.toInt64.toUInt64 = x := by
  have hx : x.toInt64.toInt = x.toNat := by
    conv_lhs => rw [← UInt64.ofNat_toNat (x := x)]
    rw [UInt64.toInt64_ofNat', Int64.toInt_ofNat_of_lt (by omega)]
  have hsame : x.toInt64.toInt32.toInt64 = x.toInt64 := by
    refine Int64.toInt.inj ?_
    rw [Int32.toInt_toInt64, Int64.toInt_toInt32, hx, Int.bmod_eq_of_le (by omega) (by omega)]
  rw [hsame, UInt64.toUInt64_toInt64]

/-- The number of slots, as long as the numbers fit into an `int`. -/
theorem objIoSlots_eq {bc as : UInt64} (hpos : 0 < as.toNat)
    (hlt : bc.toNat + as.toNat ≤ 2 ^ 31) :
    objIoSlots bc as = (bc.toNat + as.toNat - 1) / as.toNat := by
  have hsum : (bc + as - 1).toNat = bc.toNat + as.toNat - 1 := by
    have hadd : (bc + as).toNat = bc.toNat + as.toNat := by
      rw [UInt64.toNat_add, Nat.mod_eq_of_lt (by omega)]
    rw [UInt64.toNat_sub_of_le, hadd, UInt64.toNat_one]
    rw [UInt64.le_iff_toNat_le, hadd, UInt64.toNat_one]
    omega
  have hdiv : ((bc + as - 1) / as).toNat = (bc.toNat + as.toNat - 1) / as.toNat := by
    rw [UInt64.toNat_div, hsum]
  have hle := Nat.div_le_self (bc.toNat + as.toNat - 1) as.toNat
  rw [objIoSlots, objIoNrOpsTodo, toUInt64_toInt32 (x := bc) (by omega),
    toUInt64_toInt32 (by omega), UInt64.toNat_mul, hdiv,
    show (8 : UInt64).toNat = 8 from rfl, Nat.mod_eq_of_lt (by omega),
    Nat.mul_div_cancel _ (by decide)]

/-! ### The ops and their slots -/

section Slots

variable {job} {total nrSlots n : ℕ} {b : List Bool} {d d' : AsyncVars}

/-- An op that goes on stays the same op, and only the file is written. -/
theorem AsyncWork.frame {i : ℕ} {op : AsyncOp} (h : AsyncWork job d i op d') :
    op.stage ≠ .freed ∧ ∃ op' file, op'.icaIovecs = op.icaIovecs ∧ op'.stage ≠ .freed ∧
      d' = { d.setOp i op' with file := file } := by
  cases h with
  | read h _ => exact ⟨by simp [h], { op with stage := .seek }, d.file, rfl, by simp, rfl⟩
  | written h _ => exact ⟨by simp [h], { op with stage := .clean }, d.file, rfl, by simp, rfl⟩
  | failed h _ =>
    exact ⟨by simp [h], { op with stage := .clean, failed := true }, d.file, rfl, by simp, rfl⟩
  | seek h _ _ => exact ⟨by simp [h], { op with stage := .write 0 }, _, rfl, by simp, rfl⟩
  | @fwrite j _ h _ =>
    exact ⟨by simp [h], { op with stage := .write (j + 1) }, _, rfl, by simp, rfl⟩
  | short h _ _ _ =>
    exact ⟨by simp [h], { op with stage := .clean, failed := true }, _, rfl, by simp, rfl⟩
  | done h _ => exact ⟨by simp [h], { op with stage := .clean }, d.file, rfl, by simp, rfl⟩

/-- The loop has started `l` ops, and stored `n` of them. -/
structure AsyncLoop (job : AsyncJob) (total nrSlots n l : ℕ) (d : AsyncVars) : Prop where
  /-- The ops. -/
  length : d.ops.length = l
  /-- Every op has vectors. -/
  iovecs : ∀ op ∈ d.ops, op.icaIovecs ≠ []
  /-- The blocks that are left. -/
  left : d.blockCount = total - l * job.asyncStep
  /-- There were blocks for every op. -/
  started : ∀ i < l, i * job.asyncStep < total
  /-- The slots. -/
  slots : ∀ k, d.objIoOps[k]? =
    if k < nrSlots then some (if k < n then some k else none) else none
  /-- Whether there were too few of them. -/
  overrun : d.overrun = true ↔ nrSlots < n

/-- What there is before the wait is over. -/
structure AsyncInv (job : AsyncJob) (total nrSlots n : ℕ) (b : List Bool) (d : AsyncVars) :
    Prop where
  /-- The loop. -/
  loop : AsyncLoop job total nrSlots n b.length d
  /-- An op whose callback is at work has its memory. -/
  freed : ∀ (i : ℕ) (op : AsyncOp), d.ops[i]? = some op → (op.stage = .freed ↔ b[i]? = some false)
  /-- No op has been finalised. -/
  fini : d.fini = 0 ∧ d.finalised = []

/-- What there is after that. -/
structure AsyncGone (job : AsyncJob) (total nrSlots n : ℕ) (d : AsyncVars) : Prop where
  /-- The loop. -/
  loop : AsyncLoop job total nrSlots n n d
  /-- All callbacks are over. -/
  freed : ∀ op ∈ d.ops, op.stage = .freed
  /-- The ops that have been finalised. -/
  fini : d.fini ≤ nrSlots ∧ d.finalised = List.range (min d.fini n)

/-- A change of an op that is not the loop's. -/
theorem AsyncLoop.setOp {l i : ℕ} {op op' : AsyncOp} {file : CFile}
    (h : AsyncLoop job total nrSlots n l d) (hi : d.ops[i]? = some op)
    (hiov : op'.icaIovecs = op.icaIovecs) :
    AsyncLoop job total nrSlots n l { d.setOp i op' with file := file } := by
  refine ⟨(List.length_set ..).trans h.length, fun o ho => ?_, h.left, h.started, h.slots,
    h.overrun⟩
  rcases List.mem_or_eq_of_mem_set ho with ho | rfl
  · exact h.iovecs o ho
  · rw [hiov]
    exact h.iovecs op (List.mem_of_getElem? hi)

theorem AsyncJob.bcount_pos (hstep : 0 < job.asyncStep) (hpos : 0 < d.blockCount) :
    0 < job.bcount d := by
  rw [AsyncJob.bcount]
  split
  · exact hstep
  · exact hpos

/-- One more op. -/
theorem AsyncLoop.launch {base : ℕ} (h : AsyncLoop job total nrSlots n n d)
    (hstep : 0 < job.asyncStep) (hpos : 0 < d.blockCount) :
    AsyncLoop job total nrSlots n (n + 1) (asyncLaunch job base d) := by
  have hleft := h.left
  have hmul : (n + 1) * job.asyncStep = n * job.asyncStep + job.asyncStep := Nat.succ_mul _ _
  refine ⟨?_, fun op hop => ?_, ?_, fun i hi => ?_, h.slots, h.overrun⟩
  · simp [asyncLaunch, h.length]
  · rcases List.mem_append.mp hop with hop | hop
    · exact h.iovecs op hop
    · obtain rfl := List.mem_singleton.mp hop
      have hbcount := AsyncJob.bcount_pos hstep hpos
      simpa [objIovecs] using hbcount.ne'
  · simp only [asyncLaunch, AsyncJob.bcount]
    split
    · omega
    · omega
  · rcases Nat.lt_succ_iff_lt_or_eq.mp hi with hlt | rfl
    · exact h.started i hlt
    · omega

theorem AsyncLoop.length_slots {l : ℕ} (h : AsyncLoop job total nrSlots n l d) :
    d.objIoOps.length = nrSlots := by
  refine le_antisymm ?_ ?_
  · by_contra hlt
    have hslot := h.slots nrSlots
    rw [if_neg (lt_irrefl _)] at hslot
    exact hlt (List.getElem?_eq_none_iff.mp hslot)
  · rcases Nat.eq_zero_or_pos nrSlots with hzero | hpos
    · omega
    · have hslot := h.slots (nrSlots - 1)
      rw [if_pos (by omega)] at hslot
      have := (List.getElem?_eq_some_iff.mp hslot).1
      omega

/-- It is stored. -/
theorem AsyncLoop.enter (h : AsyncLoop job total nrSlots n (n + 1) d) :
    AsyncLoop job total nrSlots (n + 1) (n + 1) (asyncEnter n d) := by
  have hlength := h.length_slots
  rw [asyncEnter]
  by_cases hin : n < nrSlots
  · rw [if_pos ⟨by omega, by omega⟩]
    refine ⟨h.length, h.iovecs, h.left, h.started, fun k => ?_, ?_⟩
    · simp only [Int.toNat_natCast, h.length, Nat.add_sub_cancel, List.getElem?_set, h.slots k]
      by_cases hk : n = k
      · subst hk
        simp [hlength, hin]
      · rw [if_neg hk]
        by_cases hlt : k < n
        · rw [if_pos hlt, if_pos (show k < n + 1 by omega)]
        · rw [if_neg hlt, if_neg (show ¬k < n + 1 by omega)]
    · simp only [h.overrun]
      omega
  · rw [if_neg (by omega)]
    refine ⟨h.length, h.iovecs, h.left, h.started, fun k => ?_, ?_⟩
    · rw [h.slots k]
      by_cases hk : k < nrSlots
      · simp only [if_pos hk, if_pos (show k < n by omega), if_pos (show k < n + 1 by omega)]
      · simp only [if_neg hk]
    · exact ⟨fun _ => by omega, fun _ => rfl⟩

/-- A callback that goes on and has its memory, or frees it. -/
theorem AsyncInv.setOp {i : ℕ} {op op' : AsyncOp} {x : Bool}
    (h : AsyncInv job total nrSlots n b d) (file : CFile) (hi : d.ops[i]? = some op)
    (hiov : op'.icaIovecs = op.icaIovecs) (hx : op'.stage = .freed ↔ x = false) :
    AsyncInv job total nrSlots n (b.set i x) { d.setOp i op' with file := file } := by
  have hlt : i < d.ops.length := (List.getElem?_eq_some_iff.mp hi).1
  have hlt' : i < b.length := by rw [← h.loop.length]; exact hlt
  refine ⟨by rw [List.length_set]; exact h.loop.setOp hi hiov, fun j o ho => ?_, h.fini⟩
  simp only [AsyncVars.setOp, List.getElem?_set] at ho ⊢
  by_cases hj : i = j
  · subst hj
    rw [if_pos rfl, if_pos hlt] at ho
    obtain rfl := Option.some.inj ho
    rw [if_pos rfl, if_pos hlt', hx, Option.some.injEq]
  · rw [if_neg hj] at ho ⊢
    exact h.freed j o ho

/-- **All threads keep the ops and their slots.** -/
theorem asyncKeeps (hstep : 0 < job.asyncStep) (total nrSlots : ℕ) :
    (asyncSys job).Keeps (AsyncInv job total nrSlots) (AsyncGone job total nrSlots) where
  launch := by
    rintro n b d d' h rfl ⟨hpos, base, rfl⟩
    refine ⟨?_, fun i op hop => ?_, h.fini⟩
    · rw [List.length_append, List.length_singleton]
      exact h.loop.launch hstep hpos
    · simp only [asyncLaunch, List.getElem?_append, h.loop.length] at hop ⊢
      split at hop
      · next hlt =>
        rw [if_pos hlt]
        exact h.freed i op hop
      · next hge =>
        rw [if_neg hge]
        rcases Nat.eq_zero_or_pos (i - b.length) with hzero | hpos'
        · rw [hzero] at hop ⊢
          obtain rfl := Option.some.inj hop
          simp
        · rw [List.getElem?_eq_none (by simp; omega)] at hop
          exact absurd hop (by simp)
  enter := by
    rintro n b d d' h hb rfl
    have hloop := h.loop
    rw [hb] at hloop
    have hfini : (asyncEnter n d).fini = d.fini ∧ (asyncEnter n d).finalised = d.finalised ∧
        (asyncEnter n d).ops = d.ops := by
      rw [asyncEnter]
      split <;> exact ⟨rfl, rfl, rfl⟩
    refine ⟨by rw [hb]; exact hloop.enter, ?_, ?_⟩
    · rw [hfini.2.2]
      exact h.freed
    · rw [hfini.1, hfini.2.1]
      exact h.fini
  stop := by
    rintro n b d d' h - (⟨-, rfl⟩ | ⟨-, -, rc, rfl⟩)
    · exact h
    · exact ⟨⟨h.loop.length, h.loop.iovecs, h.loop.left, h.loop.started, h.loop.slots,
        h.loop.overrun⟩, h.freed, h.fini⟩
  work := by
    rintro n b d d' i h hb ⟨op, hi, hwork⟩
    obtain ⟨-, op', file, hiov, hstage, rfl⟩ := hwork.frame
    have hnext := h.setOp (x := true) file hi hiov (by simp [hstage])
    obtain ⟨hlt, heq⟩ := List.getElem?_eq_some_iff.mp hb
    rw [← heq, List.set_getElem_self hlt] at hnext
    exact hnext
  finish := by
    rintro n b d d' i h - ⟨op, hi, -, rfl⟩
    exact h.setOp d.file hi rfl (by simp)
  gone := by
    rintro n b d h rfl hb
    refine ⟨h.loop, fun op hop => ?_, by rw [h.fini.1]; exact Nat.zero_le _, ?_⟩
    · obtain ⟨i, hi⟩ := List.mem_iff_getElem?.mp hop
      have hlt : i < b.length := by
        rw [← h.loop.length]
        exact (List.getElem?_eq_some_iff.mp hi).1
      rw [h.freed i op hi, List.getElem?_eq_getElem hlt, hb _ (List.getElem_mem hlt)]
    · rw [h.fini.1, h.fini.2, Nat.zero_min]
      rfl
  after := by
    rintro n d d' h ⟨hlt, rfl⟩
    have hlength := h.loop.length_slots
    refine ⟨⟨h.loop.length, h.loop.iovecs, h.loop.left, h.loop.started, h.loop.slots,
      h.loop.overrun⟩, h.freed, by simp only [asyncFini]; omega, ?_⟩
    simp only [asyncFini, h.loop.slots, h.fini.2, if_pos (show d.fini < nrSlots by omega)]
    by_cases hn : d.fini < n
    · rw [if_pos hn, Nat.min_eq_left hn.le, Nat.min_eq_left (by omega), List.range_succ]
      rfl
    · rw [if_neg hn, Nat.min_eq_right (by omega), Nat.min_eq_right (by omega)]
      exact List.append_nil _

/-- The start. -/
theorem asyncInv_start {bc as : UInt64} :
    AsyncInv job bc.toNat (objIoSlots bc as) 0 [] (asyncStart bc as) := by
  refine ⟨⟨rfl, fun op h => absurd h (by simp [asyncStart]), ?_,
    fun i hi => absurd hi (Nat.not_lt_zero i), fun k => ?_, ?_⟩,
    fun i op h => absurd h (by simp [asyncStart]), rfl, rfl⟩
  · simp [asyncStart]
  · simp [asyncStart, List.getElem?_replicate]
  · simp [asyncStart]

/-- **A run and its ops.** -/
theorem asyncInv_of_run (hstep : 0 < job.asyncStep) {bc as : UInt64} {es : List JoinEvent}
    {s : JoinState AsyncVars}
    (hrun : Run (JoinStep (asyncSys job)) (joinInit (asyncStart bc as)) es s) :
    JoinInv s ∧ s.Kept (AsyncInv job bc.toNat (objIoSlots bc as))
      (AsyncGone job bc.toNat (objIoSlots bc as)) :=
  (asyncKeeps hstep _ _).run asyncInv_start hrun

/-- How much an op and its callback may have to do, at most. -/
def AsyncOp.rest (op : AsyncOp) : ℕ :=
  match op.stage with
  | .flying => op.icaIovecs.length + 3
  | .seek => op.icaIovecs.length + 2
  | .write j => op.icaIovecs.length - j + 1
  | .clean | .freed => 0

/-- How much there may be to do, at most. -/
def AsyncVars.rest (d : AsyncVars) : ℕ :=
  5 * d.blockCount + (d.ops.map AsyncOp.rest).sum + (d.objIoOps.length - d.fini)

theorem sum_rest_set {ops : List AsyncOp} {i : ℕ} {op : AsyncOp} (h : ops[i]? = some op)
    (op' : AsyncOp) :
    ((ops.set i op').map AsyncOp.rest).sum + op.rest = (ops.map AsyncOp.rest).sum + op'.rest := by
  induction ops generalizing i with
  | nil => exact absurd h (by simp)
  | cons o ops ih =>
    cases i with
    | zero =>
      obtain rfl : o = op := by simpa using h
      simp only [List.set_cons_zero, List.map_cons, List.sum_cons]
      omega
    | succ i =>
      have ih := ih (i := i) (by simpa using h)
      simp only [List.set_cons_succ, List.map_cons, List.sum_cons]
      omega

/-- What an op and its callback do makes what is left less. -/
theorem AsyncWork.rest_lt {i : ℕ} {op : AsyncOp} (hi : d.ops[i]? = some op)
    (h : AsyncWork job d i op d') : d'.rest < d.rest := by
  have hlt : ∀ {op' : AsyncOp} (file : CFile), op'.rest < op.rest →
      ({ d.setOp i op' with file := file } : AsyncVars).rest < d.rest := by
    intro op' file hop
    have hsum := sum_rest_set hi op'
    simp only [AsyncVars.rest, AsyncVars.setOp]
    omega
  cases h with
  | read h _ => exact hlt d.file (by simp [AsyncOp.rest, h])
  | written h _ => exact hlt d.file (by simp [AsyncOp.rest, h])
  | failed h _ => exact hlt d.file (by simp [AsyncOp.rest, h])
  | seek h _ _ => exact hlt _ (by simp [AsyncOp.rest, h])
  | fwrite h hv =>
    have hj := (List.getElem?_eq_some_iff.mp hv).1
    exact hlt _ (by simp only [AsyncOp.rest, h]; omega)
  | short h _ _ _ => exact hlt _ (by simp [AsyncOp.rest, h])
  | done h _ => exact hlt d.file (by simp [AsyncOp.rest, h])

/-- **What is left to be done is bounded.** -/
theorem asyncBounded (hstep : 0 < job.asyncStep) : (asyncSys job).Bounded AsyncVars.rest where
  launch := by
    rintro c d d' ⟨hpos, base, rfl⟩
    have hbcount := AsyncJob.bcount_pos hstep hpos
    have hle : job.bcount d ≤ d.blockCount := by
      rw [AsyncJob.bcount]
      split <;> omega
    simp [AsyncVars.rest, asyncLaunch, AsyncOp.rest, objIovecs]
    omega
  enter := by
    rintro c d d' rfl
    rw [asyncEnter]
    split
    · simp [AsyncVars.rest]
    · exact le_rfl
  stop := by
    rintro d d' (⟨-, rfl⟩ | ⟨-, -, rc, rfl⟩)
    · exact le_rfl
    · exact le_rfl
  work := by
    rintro i d d' ⟨op, hi, hwork⟩
    exact hwork.rest_lt hi
  finish := by
    rintro i d d' ⟨op, hi, hclean, rfl⟩
    have hsum := sum_rest_set hi { op with stage := .freed }
    simp only [AsyncVars.rest, AsyncVars.setOp]
    simp only [AsyncOp.rest] at hsum ⊢
    omega
  after := by
    rintro d d' ⟨hlt, rfl⟩
    simp only [AsyncVars.rest, asyncFini]
    omega

/-- The tasks with work to do are those of the callbacks that have their memory. -/
theorem AsyncInv.task_work {s : JoinState AsyncVars} {m : ℕ}
    (h : AsyncInv job total nrSlots m s.busy s.data) {i : ℕ} {op : AsyncOp}
    (hi : s.data.ops[i]? = some op) : op.stage ≠ .freed ↔ s.tasks[i]? = some .work := by
  have hlength : s.data.ops.length = s.tasks.length := h.loop.length.trans (List.length_map _)
  have hlt : i < s.tasks.length := by
    rw [← hlength]
    exact (List.getElem?_eq_some_iff.mp hi).1
  rw [Ne, h.freed i op hi, JoinState.busy, List.getElem?_map, List.getElem?_eq_getElem hlt]
  simp

/-- The thread that starts the ops, and the callbacks, can go on. -/
theorem asyncLive {s : JoinState AsyncVars} (hinv : JoinInv s)
    (hkept : s.Kept (AsyncInv job total nrSlots) (AsyncGone job total nrSlots)) :
    (asyncSys job).Live s where
  launch := fun _ => by
    rcases Nat.eq_zero_or_pos s.data.blockCount with hzero | hpos
    · exact Or.inr ⟨_, Or.inl ⟨hzero, rfl⟩⟩
    · exact Or.inl ⟨_, hpos, 0, rfl⟩
  enter := fun _ => ⟨_, rfl⟩
  work := fun hmem => by
    have hne : s.waiter ≠ .gone := fun hw => absurd (hinv.ended (Or.inr hw) _ hmem) (by simp)
    rw [JoinState.Kept, if_neg hne] at hkept
    have hlength : s.data.ops.length = s.tasks.length :=
      hkept.loop.length.trans (List.length_map _)
    by_cases hwriting : ∃ (i : ℕ) (op : AsyncOp),
        s.data.ops[i]? = some op ∧ op.stage.writing = true
    · -- the callback that writes to the file can go on
      obtain ⟨i, op, hi, hw⟩ := hwriting
      obtain ⟨j, hj⟩ : ∃ j, op.stage = .write j := by
        cases hstage : op.stage with
        | write j => exact ⟨j, rfl⟩
        | _ => exact absurd hw (by simp [hstage, CbStage.writing])
      refine ⟨i, (hkept.task_work hi).mp (by simp [hj]), Or.inl ?_⟩
      cases hv : op.icaIovecs[j]? with
      | none => exact ⟨_, op, hi, .done hj (List.getElem?_eq_none_iff.mp hv)⟩
      | some v => exact ⟨_, op, hi, .fwrite hj hv⟩
    · obtain ⟨i, hi⟩ := List.mem_iff_getElem?.mp hmem
      have hlt : i < s.data.ops.length := by
        rw [hlength]
        exact (List.getElem?_eq_some_iff.mp hi).1
      have hop := List.getElem?_eq_getElem hlt
      have hfreed := (hkept.task_work hop).mpr hi
      refine ⟨i, hi, ?_⟩
      cases hstage : s.data.ops[i].stage with
      | flying =>
        cases hr : job.reads with
        | true => exact Or.inl ⟨_, _, hop, .read hstage hr⟩
        | false => exact Or.inl ⟨_, _, hop, .written hstage hr⟩
      | seek =>
        obtain ⟨v, hv⟩ : ∃ v, s.data.ops[i].icaIovecs[0]? = some v := by
          have hne := hkept.loop.iovecs _ (List.getElem_mem hlt)
          exact ⟨_, List.getElem?_eq_getElem (List.length_pos_iff.mpr hne)⟩
        refine Or.inl ⟨_, _, hop, .seek hstage hv fun _ o ho => ?_⟩
        obtain ⟨k, hk⟩ := List.mem_iff_getElem?.mp ho
        by_contra hw
        exact hwriting ⟨k, o, hk, by simpa using hw⟩
      | write j => exact absurd ⟨i, _, hop, by rw [hstage]; rfl⟩ hwriting
      | clean => exact Or.inr ⟨_, _, hop, hstage, rfl⟩
      | freed => exact absurd hstage hfreed

/-- **The wait for the callbacks.** In whatever order the threads go on, nobody is stuck,
and but for waits that end without a signal there are only so many steps; and when
`obj_wait_on_all_ops` returns, every callback is over and has freed its memory, and every op
that has a slot is finalised, once. -/
theorem async_waits (hstep : 0 < job.asyncStep) {bc as : UInt64} {es : List JoinEvent}
    {s : JoinState AsyncVars}
    (hrun : Run (JoinStep (asyncSys job)) (joinInit (asyncStart bc as)) es s) :
    (s.waiter ≠ .gone → ∃ e s', e ≠ .spurious ∧ JoinStep (asyncSys job) s e s') ∧
    es.length ≤ 60 * bc.toNat + 12 * objIoSlots bc as + 7 + 3 * es.count .spurious ∧
    (s.waiter = .gone → (∀ op ∈ s.data.ops, op.stage = .freed) ∧
      s.data.finalised = List.range (min s.data.fini s.data.ops.length)) := by
  obtain ⟨hinv, hkept⟩ := asyncInv_of_run hstep hrun
  refine ⟨fun hgone => hinv.progress (asyncLive hinv hkept) hgone, ?_, fun hgone => ?_⟩
  · have hlength := length_le_of_run (asyncBounded hstep) hrun
    have hstart : (joinInit (asyncStart bc as)).measure AsyncVars.rest =
        60 * bc.toNat + 12 * objIoSlots bc as + 7 := by
      simp [JoinState.measure, joinInit, asyncStart, AsyncVars.rest, WaitPc.rank]
      omega
    omega
  · rw [JoinState.Kept, if_pos hgone] at hkept
    refine ⟨hkept.freed, ?_⟩
    rw [hkept.loop.length]
    exact hkept.fini.2

theorem asyncEnter_ops (opIdx : ℤ) (d : AsyncVars) : (asyncEnter opIdx d).ops = d.ops := by
  rw [asyncEnter]
  split <;> rfl

/-- Some run of three ops comes to the end of the wait. -/
theorem waits_three : ∃ es s, Run (JoinStep (asyncSys ⟨true, false, true, fun _ => 0, 4096,
    241 * 4096, 120⟩)) (joinInit (asyncStart 241 120)) es s ∧
    (∀ op ∈ s.data.ops, op.stage = .freed) ∧
    s.data.finalised = List.range (min s.data.fini s.data.ops.length) := by
  obtain ⟨es, s, hrun, hgone⟩ := exists_run_gone (asyncBounded (by decide))
    (fun es s h => asyncLive (asyncInv_of_run (by decide) h).1 (asyncInv_of_run (by decide) h).2)
    (show Run (JoinStep (asyncSys ⟨true, false, true, fun _ => 0, 4096, 241 * 4096, 120⟩))
      (joinInit (asyncStart 241 120)) [] (joinInit (asyncStart 241 120)) from .refl)
  exact ⟨es, s, hrun, (async_waits (by decide) hrun).2.2 hgone⟩

/-- As long as there are blocks, one more op can be started and stored. -/
theorem exists_run_launch (hstep : 0 < job.asyncStep) (bc as : UInt64) {l : ℕ}
    (h : ∀ i < l, i * job.asyncStep < bc.toNat) :
    ∃ es s, Run (JoinStep (asyncSys job)) (joinInit (asyncStart bc as)) es s ∧
      s.waiter = .launch ∧ s.tasks.length = l ∧ ∀ op ∈ s.data.ops, op.stage = .flying := by
  induction l with
  | zero => exact ⟨[], _, .refl, rfl, rfl, fun op h => absurd h List.not_mem_nil⟩
  | succ l ih =>
    obtain ⟨es, s, hrun, hw, hl, hflying⟩ := ih fun i hi => h i (Nat.lt_succ_of_lt hi)
    obtain ⟨-, hkept⟩ := asyncInv_of_run hstep hrun
    rw [JoinState.Kept, if_neg (by simp [hw])] at hkept
    have hpos : 0 < s.data.blockCount := by
      have hleft := hkept.loop.left
      rw [JoinState.busy, List.length_map, hl] at hleft
      have := h l (Nat.lt_succ_self l)
      omega
    refine ⟨_, _, (hrun.snoc (.launch hw ⟨hpos, 0, rfl⟩)).snoc (.enter rfl rfl), rfl,
      by simp [hl], fun op hop => ?_⟩
    rw [asyncEnter_ops] at hop
    rcases List.mem_append.mp hop with hop | hop
    · exact hflying op hop
    · rw [List.mem_singleton.mp hop]

theorem asyncStepOf_pos {as : UInt64} (has : 0 < as.toNat) : 0 < asyncStepOf as := by
  rw [asyncStepOf]
  split
  · exact Nat.succ_pos _
  · exact has

/-- **When there are too few slots**: some run stores an op beyond `obj_io_ops` just if there
are blocks left after as many ops as there are slots. -/
theorem exists_overrun_iff (bc as : UInt64) (has : 0 < as.toNat)
    (hjob : job.asyncStep = asyncStepOf as) :
    (∃ es s, Run (JoinStep (asyncSys job)) (joinInit (asyncStart bc as)) es s ∧
      s.data.overrun = true) ↔ objIoSlots bc as * asyncStepOf as < bc.toNat := by
  have hstep := asyncStepOf_pos has
  rw [← hjob] at hstep ⊢
  constructor
  · rintro ⟨es, s, hrun, hover⟩
    obtain ⟨hinv, hkept⟩ := asyncInv_of_run hstep hrun
    rw [JoinState.Kept] at hkept
    split at hkept
    · exact hkept.loop.started _ (hkept.loop.overrun.mp hover)
    · refine hkept.loop.started _ (lt_of_lt_of_le (hkept.loop.overrun.mp hover) ?_)
      rw [JoinState.busy, List.length_map]
      exact Nat.sub_le _ _
  · intro h
    obtain ⟨es, s, hrun, hw, hl, -⟩ := exists_run_launch hstep bc as (l := objIoSlots bc as + 1)
      fun i hi => lt_of_le_of_lt (Nat.mul_le_mul_right _ (Nat.lt_succ_iff.mp hi)) h
    obtain ⟨-, hkept⟩ := asyncInv_of_run hstep hrun
    rw [JoinState.Kept, if_neg (by simp [hw])] at hkept
    refine ⟨es, s, hrun, hkept.loop.overrun.mpr ?_⟩
    rw [JoinState.counted, if_neg (by simp [hw]), hl]
    omega

/-- 241 blocks in steps of 240, which are cut down to 120, need three slots, and there are
two. -/
theorem overruns_two : ∃ es s, Run (JoinStep (asyncSys ⟨false, false, false, fun _ => 0, 4096,
    241 * 4096, 120⟩)) (joinInit (asyncStart 241 240)) es s ∧ s.data.overrun = true := by
  refine (exists_overrun_iff 241 240 (by decide) rfl).mpr ?_
  rw [objIoSlots_eq (by decide) (by decide)]
  decide

end Slots
/-! ### What a read writes to the file -/

section File

variable {job} {total nrSlots n : ℕ} {b : List Bool} {d d' : AsyncVars}

/-- A read of the blocks of an object. -/
structure AsyncReads (job : AsyncJob) (total : ℕ) : Prop where
  /-- It reads. -/
  reads : job.reads = true
  /-- The numbers of blocks and bytes. -/
  blocks : BlocksFit job.blockSize job.maxIndex
  /-- There are blocks in an op. -/
  pos : 0 < job.asyncStep
  /-- There are not too many. -/
  le : job.asyncStep ≤ mioCmdMaxBlockCountPerOp
  /-- All blocks are in the object. -/
  starts : 0 < total → (total - 1) * job.blockSize < job.maxIndex

/-- The number of blocks of an op. -/
def asyncBlocks (job : AsyncJob) (total i : ℕ) : ℕ :=
  min (total - i * job.asyncStep) job.asyncStep

/-- Where the bytes of an op start. -/
def asyncIndex (job : AsyncJob) (i : ℕ) : ℕ := i * job.asyncStep * job.blockSize

/-- The vectors of an op. -/
def AsyncVectors (job : AsyncJob) (total i : ℕ) (iov : List (MioIovec ℕ)) : Prop :=
  i * job.asyncStep < total ∧ ∃ base,
    iov = objIovecs base (asyncBlocks job total i) job.blockSize (asyncIndex job i) job.maxIndex

/-- Whether a callback has written a vector. -/
def CbStage.Wrote (stage : CbStage) (j : ℕ) : Prop :=
  match stage with
  | .flying | .seek => False
  | .write k => j < k
  | .clean | .freed => True

/-- The places of the ops in the object. -/
structure AsyncPlaces (job : AsyncJob) (total : ℕ) (d : AsyncVars) : Prop where
  /-- Where the next op starts. -/
  index : 0 < d.blockCount → d.lastIndex = asyncIndex job d.ops.length
  /-- The vectors. -/
  vectors : ∀ (i : ℕ) (op : AsyncOp), d.ops[i]? = some op → AsyncVectors job total i op.icaIovecs

/-- What has been written to the file is what the object has. -/
structure FileOk (job : AsyncJob) (total : ℕ) (d : AsyncVars) : Prop where
  /-- What has been written. -/
  wrote : ∀ op ∈ d.ops, op.failed = false → ∀ (j : ℕ) (v : MioIovec ℕ),
    op.icaIovecs[j]? = some v → op.stage.Wrote j →
    v.stop ≤ d.file.size ∧ ∀ x, v.miovOff ≤ x → x < v.stop → d.file.bytes x = job.content x
  /-- Where the next bytes are written. -/
  pos : ∀ op ∈ d.ops, ∀ (j : ℕ) (v : MioIovec ℕ), op.stage = .write j →
    op.icaIovecs[j]? = some v → d.file.pos = v.miovOff
  /-- One callback writes at a time. -/
  alone : ∀ (i i' : ℕ) (op op' : AsyncOp), d.ops[i]? = some op → d.ops[i']? = some op' →
    op.stage.writing = true → op'.stage.writing = true → i = i'
  /-- The size of the file. -/
  size : d.file.size ≤ min (total * job.blockSize) job.maxIndex

/-- The bytes of an op. -/
theorem AsyncReads.stretch (hjob : AsyncReads job total) {i : ℕ} {iov : List (MioIovec ℕ)}
    (h : AsyncVectors job total i iov) :
    Stretch iov (asyncIndex job i)
        (min (asyncIndex job i + asyncBlocks job total i * job.blockSize) job.maxIndex) ∧
      InRow iov (asyncIndex job i) ∧
      min (asyncIndex job i + asyncBlocks job total i * job.blockSize) job.maxIndex ≤
        min (total * job.blockSize) job.maxIndex := by
  obtain ⟨hlt, base, rfl⟩ := h
  have hpos := hjob.pos
  have hblocks : 0 < asyncBlocks job total i := Nat.lt_min.mpr ⟨by omega, hpos⟩
  have hmax : asyncBlocks job total i ≤ mioCmdMaxBlockCountPerOp :=
    (Nat.min_le_right _ _).trans hjob.le
  have hle : i * job.asyncStep + asyncBlocks job total i ≤ total := by
    have : asyncBlocks job total i ≤ total - i * job.asyncStep := Nat.min_le_left _ _
    omega
  have hsum : asyncIndex job i + asyncBlocks job total i * job.blockSize ≤
      total * job.blockSize := by
    rw [asyncIndex, ← Nat.add_mul]
    exact Nat.mul_le_mul_right _ hle
  have hoff : asyncIndex job i + (asyncBlocks job total i - 1) * job.blockSize <
      job.maxIndex := by
    refine lt_of_le_of_lt ?_ (hjob.starts (by omega))
    rw [asyncIndex, ← Nat.add_mul]
    exact Nat.mul_le_mul_right _ (by omega)
  exact ⟨stretch_objIovecs hjob.blocks base hblocks hmax hoff,
    inRow_objIovecs hjob.blocks base hmax hoff, min_le_min_right _ hsum⟩

/-- An op that goes on stays the same op, and another one is what it was. -/
theorem AsyncVars.getElem?_setOp {i : ℕ} {op op' : AsyncOp} (hi : d.ops[i]? = some op) {k : ℕ}
    {o : AsyncOp} (ho : (d.setOp i op').ops[k]? = some o) :
    (k = i ∧ o = op') ∨ (k ≠ i ∧ d.ops[k]? = some o) := by
  rw [AsyncVars.setOp, List.getElem?_set] at ho
  by_cases hk : i = k
  · subst hk
    rw [if_pos rfl, if_pos (List.getElem?_eq_some_iff.mp hi).1] at ho
    exact Or.inl ⟨rfl, (Option.some.inj ho).symm⟩
  · rw [if_neg hk] at ho
    exact Or.inr ⟨Ne.symm hk, ho⟩

/-- Nothing but the loop and its ends has changed. -/
theorem AsyncPlaces.congr (h : AsyncPlaces job total d) (hindex : d'.lastIndex = d.lastIndex)
    (hcount : d'.blockCount = d.blockCount) (hops : d'.ops = d.ops) : AsyncPlaces job total d' :=
  ⟨by rw [hindex, hcount, hops]; exact h.index, by rw [hops]; exact h.vectors⟩

/-- An op goes on where it is. -/
theorem AsyncPlaces.setOp (h : AsyncPlaces job total d) {i : ℕ} {op op' : AsyncOp}
    (file : CFile) (hi : d.ops[i]? = some op) (hiov : op'.icaIovecs = op.icaIovecs) :
    AsyncPlaces job total { d.setOp i op' with file := file } := by
  refine ⟨fun hcount => ?_, fun k o ho => ?_⟩
  · simp only [AsyncVars.setOp, List.length_set]
    exact h.index hcount
  · rcases AsyncVars.getElem?_setOp hi ho with ⟨rfl, rfl⟩ | ⟨-, hold⟩
    · rw [hiov]
      exact h.vectors k op hi
    · exact h.vectors k o hold

/-- The ops and the file are what they were. -/
theorem FileOk.congr (h : FileOk job total d) (hops : d'.ops = d.ops) (hfile : d'.file = d.file) :
    FileOk job total d' :=
  ⟨by rw [hops, hfile]; exact h.wrote, by rw [hops, hfile]; exact h.pos,
    by rw [hops]; exact h.alone, by rw [hfile]; exact h.size⟩

/-- **A callback goes on**: what it writes to the file is what the object has. -/
theorem FileOk.step (h : FileOk job total d) {i : ℕ} {op op' : AsyncOp}
    (file : CFile) (hi : d.ops[i]? = some op) (hiov : op'.icaIovecs = op.icaIovecs)
    (hgrow : d.file.size ≤ file.size)
    (hkeep : ∀ x, d.file.bytes x = job.content x → file.bytes x = job.content x)
    (hsize : file.size ≤ min (total * job.blockSize) job.maxIndex)
    (hwrote : op'.failed = false → ∀ (j : ℕ) (v : MioIovec ℕ), op.icaIovecs[j]? = some v →
      op'.stage.Wrote j → v.stop ≤ file.size ∧
        ∀ x, v.miovOff ≤ x → x < v.stop → file.bytes x = job.content x)
    (hpos : ∀ (j : ℕ) (v : MioIovec ℕ), op'.stage = .write j → op.icaIovecs[j]? = some v →
      file.pos = v.miovOff)
    (hothers : (∀ (k : ℕ) (o : AsyncOp), d.ops[k]? = some o → k ≠ i → o.stage.writing = false) ∨
      (op'.stage.writing = false ∧ file.pos = d.file.pos)) :
    FileOk job total { d.setOp i op' with file := file } := by
  refine ⟨fun o ho hf j v hv hw => ?_, fun o ho j v hs hv => ?_,
    fun k k' o o' ho ho' hw hw' => ?_, hsize⟩
  · obtain ⟨k, hk⟩ := List.mem_iff_getElem?.mp ho
    rcases AsyncVars.getElem?_setOp hi hk with ⟨-, rfl⟩ | ⟨-, hk⟩
    · rw [hiov] at hv
      exact hwrote hf j v hv hw
    · obtain ⟨hstop, hbytes⟩ := h.wrote o (List.mem_of_getElem? hk) hf j v hv hw
      exact ⟨hstop.trans hgrow, fun x hx hx' => hkeep x (hbytes x hx hx')⟩
  · obtain ⟨k, hk⟩ := List.mem_iff_getElem?.mp ho
    rcases AsyncVars.getElem?_setOp hi hk with ⟨-, rfl⟩ | ⟨hne, hk⟩
    · rw [hiov] at hv
      exact hpos j v hs hv
    · rcases hothers with hothers | ⟨-, hsame⟩
      · have := hothers k o hk hne
        rw [hs] at this
        exact absurd this (by simp [CbStage.writing])
      · exact hsame.trans (h.pos o (List.mem_of_getElem? hk) j v hs hv)
  · rcases AsyncVars.getElem?_setOp hi ho with ⟨rfl, rfl⟩ | ⟨hne, hold⟩
    · rcases AsyncVars.getElem?_setOp hi ho' with ⟨rfl, rfl⟩ | ⟨hne', hold'⟩
      · rfl
      · rcases hothers with hothers | ⟨hnot, -⟩
        · exact absurd hw' (by simp [hothers k' o' hold' hne'])
        · exact absurd hw (by simp [hnot])
    · rcases AsyncVars.getElem?_setOp hi ho' with ⟨rfl, rfl⟩ | ⟨hne', hold'⟩
      · rcases hothers with hothers | ⟨hnot, -⟩
        · exact absurd hw (by simp [hothers k o hold hne])
        · exact absurd hw' (by simp [hnot])
      · exact h.alone k k' o o' hold hold' hw hw'

/-- The bytes of an `fwrite` at the right place. -/
theorem fwrite_bytes {f : CFile} {v : MioIovec ℕ} {content : ℕ → Byte} {len x : ℕ}
    (hpos : f.pos = v.miovOff) (hx : f.bytes x = content x ∨ v.miovOff ≤ x ∧ x < v.miovOff + len) :
    (f.fwrite len fun y => content (v.miovOff + y)).bytes x = content x := by
  simp only [CFile.fwrite, hpos]
  split
  · next hin => rw [Nat.add_sub_cancel' hin.1]
  · next hout => exact hx.resolve_right hout

/-- **What the callbacks do keeps the file right.** -/
theorem FileOk.work (hjob : AsyncReads job total)
    (hserial : job.serial = true ∨ total ≤ job.asyncStep) (hplaces : AsyncPlaces job total d)
    (h : FileOk job total d) {i : ℕ} {op : AsyncOp} (hi : d.ops[i]? = some op)
    (hwork : AsyncWork job d i op d') : FileOk job total d' := by
  have hmem := List.mem_of_getElem? hi
  obtain ⟨hstretch, hrow, hbound⟩ := hjob.stretch (hplaces.vectors i op hi)
  -- while the callback writes, no other one does
  have halone : op.stage.writing = true → ∀ (k : ℕ) (o : AsyncOp), d.ops[k]? = some o → k ≠ i →
      o.stage.writing = false := by
    intro hw k o ho hne
    by_contra hw'
    exact hne (h.alone k i o op ho hi (by simpa using hw') hw)
  -- the end of what is written is that of a vector at most
  have hend : ∀ {j : ℕ} {v : MioIovec ℕ}, op.icaIovecs[j]? = some v →
      v.stop ≤ min (total * job.blockSize) job.maxIndex := fun hv =>
    ((hstretch.inside (List.mem_of_getElem? hv)).2).trans hbound
  cases hwork with
  | read hs _ =>
    exact h.step d.file hi rfl le_rfl (fun _ hx => hx) h.size
      (fun _ _ _ _ hw => absurd hw (by simp [CbStage.Wrote])) (fun _ _ hw => absurd hw (by simp))
      (Or.inr ⟨rfl, rfl⟩)
  | written _ hr => exact absurd hr (by simp [hjob.reads])
  | failed hs _ =>
    exact h.step d.file hi rfl le_rfl (fun _ hx => hx) h.size
      (fun hf => absurd hf (by simp)) (fun _ _ hw => absurd hw (by simp)) (Or.inr ⟨rfl, rfl⟩)
  | seek hs hv halone' =>
    refine h.step _ hi rfl le_rfl (fun _ hx => hx) h.size
      (fun _ _ _ _ hw => absurd hw (by simp [CbStage.Wrote])) (fun j w hw hv' => ?_)
      (Or.inl fun k o ho hne => ?_)
    · obtain rfl : 0 = j := by simpa using hw
      rw [hv] at hv'
      exact congrArg MioIovec.miovOff (Option.some.inj hv')
    · rcases hserial with hserial | hone
      · exact halone' hserial o (List.mem_of_getElem? ho)
      · -- there are no two ops
        have hk := Nat.lt_of_mul_lt_mul_right (a := job.asyncStep)
          (lt_of_lt_of_le (hplaces.vectors k o ho).1 (hone.trans_eq (Nat.one_mul _).symm))
        have hi' := Nat.lt_of_mul_lt_mul_right (a := job.asyncStep)
          (lt_of_lt_of_le (hplaces.vectors i op hi).1 (hone.trans_eq (Nat.one_mul _).symm))
        omega
  | @fwrite j v hs hv =>
    have hpos := h.pos op hmem j v hs hv
    have hstop : v.miovOff + v.miovLen = v.stop := rfl
    have hsize := hend hv
    refine h.step _ hi rfl (CFile.size_le_fwrite _ _ _) (fun x hx => fwrite_bytes hpos (Or.inl hx))
      ?_ ?_ ?_ (Or.inl (halone (by rw [hs]; rfl)))
    · exact CFile.fwrite_size_le h.size (by omega) _
    · intro hf k w hw hk
      rcases Nat.lt_succ_iff_lt_or_eq.mp (show k < j + 1 from hk) with hlt | rfl
      · obtain ⟨hstop', hbytes⟩ := h.wrote op hmem hf k w hw (by rw [hs]; exact hlt)
        exact ⟨hstop'.trans (CFile.size_le_fwrite _ _ _), fun x hx hx' =>
          fwrite_bytes hpos (Or.inl (hbytes x hx hx'))⟩
      · obtain rfl : v = w := Option.some.inj (hv.symm.trans hw)
        refine ⟨?_, fun x hx hx' => fwrite_bytes hpos (Or.inr ⟨hx, hx'⟩)⟩
        rw [CFile.size_fwrite (hstretch.ok.pos v (List.mem_of_getElem? hv)), hpos, hstop]
        exact Nat.le_max_right _ _
    · intro k w hk hw
      obtain rfl : j + 1 = k := by simpa using hk
      simp only [CFile.fwrite, hpos, hstop]
      exact (hrow.next j v w hv hw).symm
  | @short j len v hs hv _ hlen =>
    have hpos := h.pos op hmem j v hs hv
    have hstop : v.miovOff + v.miovLen = v.stop := rfl
    have hsize := hend hv
    refine h.step _ hi rfl (CFile.size_le_fwrite _ _ _)
      (fun x hx => fwrite_bytes hpos (Or.inl hx)) ?_ (fun hf => absurd hf (by simp))
      (fun _ _ hw => absurd hw (by simp)) (Or.inl (halone (by rw [hs]; rfl)))
    exact CFile.fwrite_size_le h.size (by omega) _
  | @done j hs hj =>
    refine h.step d.file hi rfl le_rfl (fun _ hx => hx) h.size (fun hf k w hw _ => ?_)
      (fun _ _ hw => absurd hw (by simp)) (Or.inr ⟨rfl, rfl⟩)
    refine h.wrote op hmem hf k w hw ?_
    have hk := (List.getElem?_eq_some_iff.mp hw).1
    rw [hs]
    exact lt_of_lt_of_le hk hj

/-- An op is one of those before, or the new one. -/
theorem getElem?_asyncLaunch {base k : ℕ} {o : AsyncOp}
    (ho : (asyncLaunch job base d).ops[k]? = some o) :
    d.ops[k]? = some o ∨ k = d.ops.length ∧ o.stage = .flying ∧ o.icaIovecs =
      objIovecs base (job.bcount d) job.blockSize d.lastIndex job.maxIndex := by
  simp only [asyncLaunch, List.getElem?_append] at ho
  split at ho
  · exact Or.inl ho
  · next hge =>
    rcases Nat.eq_zero_or_pos (k - d.ops.length) with hzero | hpos
    · rw [hzero] at ho
      obtain rfl := Option.some.inj ho
      exact Or.inr ⟨by omega, rfl, rfl⟩
    · rw [List.getElem?_eq_none (by simp; omega)] at ho
      exact absurd ho (by simp)

/-- **The next op has its place.** -/
theorem AsyncPlaces.launch (hjob : AsyncReads job total) (h : AsyncPlaces job total d)
    (hloop : AsyncLoop job total nrSlots n n d) (hcount : 0 < d.blockCount) (base : ℕ) :
    AsyncPlaces job total (asyncLaunch job base d) := by
  have hleft := hloop.left
  have hlength := hloop.length
  have hindex := h.index hcount
  have hblocks : job.bcount d = asyncBlocks job total n := by
    rw [AsyncJob.bcount, asyncBlocks, hleft]
    split <;> omega
  refine ⟨fun hmore => ?_, fun k o ho => ?_⟩
  · -- there are blocks left, so all the bytes before them are in the object
    have hmore : 0 < d.blockCount - job.bcount d := hmore
    have hstep : job.bcount d = job.asyncStep := by
      rw [AsyncJob.bcount] at hmore ⊢
      split at hmore
      · next hgt => rw [if_pos hgt]
      · omega
    have hsum : n * job.asyncStep + job.asyncStep < total := by omega
    have hle : (n * job.asyncStep + job.asyncStep) * job.blockSize ≤
        (total - 1) * job.blockSize := Nat.mul_le_mul_right _ (by omega)
    have hstarts := hjob.starts (by omega)
    have hfit := hjob.blocks.stop
    have hnext : asyncIndex job n + job.asyncStep * job.blockSize = asyncIndex job (n + 1) := by
      rw [asyncIndex, asyncIndex, ← Nat.add_mul, Nat.succ_mul]
    have hbound : asyncIndex job n + job.asyncStep * job.blockSize < 2 ^ 64 := by
      rw [asyncIndex, ← Nat.add_mul]
      omega
    simp only [asyncLaunch, List.length_append, List.length_singleton, hlength, hstep]
    rw [hindex, hlength, u64_of_lt (n := job.asyncStep * job.blockSize) (by omega),
      u64_of_lt hbound, hnext]
  · rcases getElem?_asyncLaunch ho with ho | ⟨rfl, -, hiov⟩
    · exact h.vectors k o ho
    · refine ⟨by rw [hlength]; omega, base, ?_⟩
      rw [hiov, hblocks, hindex, hlength]

/-- One more op, whose callback has written nothing yet. -/
theorem FileOk.launch (h : FileOk job total d) (base : ℕ) :
    FileOk job total (asyncLaunch job base d) := by
  have hold : ∀ {o : AsyncOp}, o ∈ (asyncLaunch job base d).ops → o.stage ≠ .flying →
      o ∈ d.ops := by
    intro o ho hstage
    obtain ⟨k, hk⟩ := List.mem_iff_getElem?.mp ho
    rcases getElem?_asyncLaunch hk with hk | ⟨-, hflying, -⟩
    · exact List.mem_of_getElem? hk
    · exact absurd hflying hstage
  refine ⟨fun o ho hf j v hv hw => ?_, fun o ho j v hs hv => ?_,
    fun k k' o o' ho ho' hw hw' => ?_, h.size⟩
  · have hstage : o.stage ≠ .flying := by
      intro hflying
      rw [hflying] at hw
      exact hw
    exact h.wrote o (hold ho hstage) hf j v hv hw
  · exact h.pos o (hold ho (by simp [hs])) j v hs hv
  · rcases getElem?_asyncLaunch ho with ho | ⟨-, hflying, -⟩
    · rcases getElem?_asyncLaunch ho' with ho' | ⟨-, hflying, -⟩
      · exact h.alone k k' o o' ho ho' hw hw'
      · exact absurd hw' (by simp [hflying, CbStage.writing])
    · exact absurd hw (by simp [hflying, CbStage.writing])

/-- **All threads keep the places of the ops**, and the file right if the callbacks write one
after the other. -/
theorem fileKeeps (hjob : AsyncReads job total) (nrSlots : ℕ) :
    (asyncSys job).Keeps
      (fun n b d => AsyncInv job total nrSlots n b d ∧ AsyncPlaces job total d ∧
        (job.serial = true ∨ total ≤ job.asyncStep → FileOk job total d))
      (fun n d => AsyncGone job total nrSlots n d ∧ AsyncPlaces job total d ∧
        (job.serial = true ∨ total ≤ job.asyncStep → FileOk job total d)) where
  launch := by
    rintro n b d d' ⟨h, hplaces, hfile⟩ hb ⟨hpos, base, rfl⟩
    refine ⟨(asyncKeeps hjob.pos total nrSlots).launch h hb ⟨hpos, base, rfl⟩, ?_,
      fun hserial => (hfile hserial).launch base⟩
    have hloop := h.loop
    rw [hb] at hloop
    exact hplaces.launch hjob hloop hpos base
  enter := by
    rintro n b d d' ⟨h, hplaces, hfile⟩ hb rfl
    refine ⟨(asyncKeeps hjob.pos total nrSlots).enter h hb rfl, ?_⟩
    rw [asyncEnter]
    split
    · exact ⟨hplaces.congr rfl rfl rfl, fun hserial => (hfile hserial).congr rfl rfl⟩
    · exact ⟨hplaces.congr rfl rfl rfl, fun hserial => (hfile hserial).congr rfl rfl⟩
  stop := by
    rintro n b d d' ⟨h, hplaces, hfile⟩ hb hstop
    refine ⟨(asyncKeeps hjob.pos total nrSlots).stop h hb hstop, ?_⟩
    rcases hstop with ⟨-, rfl⟩ | ⟨-, -, rc, rfl⟩
    · exact ⟨hplaces, hfile⟩
    · exact ⟨hplaces.congr rfl rfl rfl, fun hserial => (hfile hserial).congr rfl rfl⟩
  work := by
    rintro n b d d' i ⟨h, hplaces, hfile⟩ hb hwork
    refine ⟨(asyncKeeps hjob.pos total nrSlots).work h hb hwork, ?_⟩
    obtain ⟨op, hi, hwork⟩ := hwork
    refine ⟨?_, fun hserial => (hfile hserial).work hjob hserial hplaces hi hwork⟩
    obtain ⟨-, op', file, hiov, -, rfl⟩ := hwork.frame
    exact hplaces.setOp file hi hiov
  finish := by
    rintro n b d d' i ⟨h, hplaces, hfile⟩ hb hfin
    refine ⟨(asyncKeeps hjob.pos total nrSlots).finish h hb hfin, ?_⟩
    obtain ⟨op, hi, hclean, rfl⟩ := hfin
    refine ⟨hplaces.setOp d.file hi rfl, fun hserial => ?_⟩
    have hok := hfile hserial
    refine hok.step d.file hi rfl le_rfl (fun _ hx => hx) hok.size
      (fun hf k w hw _ => ?_) (fun _ _ hw => absurd hw (by simp)) (Or.inr ⟨rfl, rfl⟩)
    exact hok.wrote op (List.mem_of_getElem? hi) hf k w hw (by rw [hclean]; trivial)
  gone := by
    rintro n b d ⟨h, hplaces, hfile⟩ hb hover
    exact ⟨(asyncKeeps hjob.pos total nrSlots).gone h hb hover, hplaces, hfile⟩
  after := by
    rintro n d d' ⟨h, hplaces, hfile⟩ hafter
    refine ⟨(asyncKeeps hjob.pos total nrSlots).after h hafter, ?_⟩
    obtain ⟨-, rfl⟩ := hafter
    exact ⟨hplaces.congr rfl rfl rfl, fun hserial => (hfile hserial).congr rfl rfl⟩

/-- **A run and the places of its ops.** -/
theorem fileOk_of_run {bc as : UInt64} (hjob : AsyncReads job bc.toNat) {es : List JoinEvent}
    {s : JoinState AsyncVars}
    (hrun : Run (JoinStep (asyncSys job)) (joinInit (asyncStart bc as)) es s) :
    AsyncPlaces job bc.toNat s.data ∧
      (job.serial = true ∨ bc.toNat ≤ job.asyncStep → FileOk job bc.toNat s.data) := by
  have hkept := ((fileKeeps hjob (objIoSlots bc as)).run (d := asyncStart bc as) ⟨asyncInv_start,
    ⟨fun _ => by simp [asyncStart, asyncIndex], fun i op h => absurd h (by simp [asyncStart])⟩,
    fun _ => ⟨fun op h => absurd h (by simp [asyncStart]),
      fun op h => absurd h (by simp [asyncStart]),
      fun i i' op op' h => absurd h (by simp [asyncStart]), Nat.zero_le _⟩⟩ hrun).2
  rw [JoinState.Kept] at hkept
  split at hkept
  · exact hkept.2
  · exact hkept.2

/-- Every byte that is read belongs to an op. -/
theorem AsyncReads.exists_op (hjob : AsyncReads job total)
    (hloop : AsyncLoop job total nrSlots n n d) (hplaces : AsyncPlaces job total d)
    (hcount : d.blockCount = 0) {x : ℕ}
    (hx : x < min (total * job.blockSize) job.maxIndex) :
    ∃ op ∈ d.ops, CoversByte op.icaIovecs x := by
  have hbs := hjob.blocks.pos
  have hstep := hjob.pos
  obtain ⟨hx, hmax⟩ := Nat.lt_min.mp hx
  -- the block of the byte, and the op of the block
  have hblock : x / job.blockSize < total := (Nat.div_lt_iff_lt_mul hbs).mpr hx
  have hle := Nat.div_mul_le_self x job.blockSize
  have hlt := Nat.lt_div_mul_add (a := x) hbs
  have hle' := Nat.div_mul_le_self (x / job.blockSize) job.asyncStep
  have hlt' := Nat.lt_div_mul_add (a := x / job.blockSize) hstep
  obtain ⟨k, hk⟩ : ∃ k, x / job.blockSize = k := ⟨_, rfl⟩
  obtain ⟨i, hi⟩ : ∃ i, k / job.asyncStep = i := ⟨_, rfl⟩
  rw [hk] at hblock hle hlt hle' hlt'
  rw [hi] at hle' hlt'
  have hin : i < n := by
    have hleft := hloop.left
    by_contra hge
    have hmul : n * job.asyncStep ≤ i * job.asyncStep := Nat.mul_le_mul_right _ (by omega)
    omega
  obtain ⟨op, hget⟩ : ∃ op, d.ops[i]? = some op :=
    ⟨_, List.getElem?_eq_getElem (show i < d.ops.length by rw [hloop.length]; exact hin)⟩
  obtain ⟨hstretch, -, -⟩ := hjob.stretch (hplaces.vectors i _ hget)
  refine ⟨_, List.mem_of_getElem? hget, (hstretch.covers x).mpr ⟨?_, Nat.lt_min.mpr ⟨?_, hmax⟩⟩⟩
  · exact (Nat.mul_le_mul_right _ hle').trans hle
  · have hblocks : k + 1 ≤ i * job.asyncStep + asyncBlocks job total i := by
      rw [asyncBlocks]
      omega
    have hmul := Nat.mul_le_mul_right job.blockSize hblocks
    rw [Nat.succ_mul, Nat.add_mul] at hmul
    rw [asyncIndex]
    omega

/-- A file after a read: it has the bytes of every op that has not failed; and if all blocks
have been read and no op has failed, then it has what there is in the blocks and nothing
else. -/
structure FileRead (job : AsyncJob) (total : ℕ) (d : AsyncVars) : Prop where
  /-- The bytes of an op. -/
  op : ∀ op ∈ d.ops, op.failed = false → ∀ x, CoversByte op.icaIovecs x →
    x < d.file.size ∧ d.file.bytes x = job.content x
  /-- All bytes. -/
  all : d.blockCount = 0 → (∀ op ∈ d.ops, op.failed = false) →
    d.file.size = min (total * job.blockSize) job.maxIndex ∧
    ∀ x < d.file.size, d.file.bytes x = job.content x

/-- **A read whose callbacks write one after the other**, in whatever order. -/
theorem fileRead_of_run {bc as : UInt64} (hjob : AsyncReads job bc.toNat)
    (hserial : job.serial = true ∨ bc.toNat ≤ job.asyncStep) {es : List JoinEvent}
    {s : JoinState AsyncVars}
    (hrun : Run (JoinStep (asyncSys job)) (joinInit (asyncStart bc as)) es s)
    (hgone : s.waiter = .gone) : FileRead job bc.toNat s.data := by
  obtain ⟨hplaces, hfile⟩ := fileOk_of_run hjob hrun
  have hok := hfile hserial
  obtain ⟨-, hkept⟩ := asyncInv_of_run hjob.pos hrun
  rw [JoinState.Kept, if_pos hgone] at hkept
  have hops : ∀ op ∈ s.data.ops, op.failed = false → ∀ x, CoversByte op.icaIovecs x →
      x < s.data.file.size ∧ s.data.file.bytes x = job.content x := by
    rintro op hop hf x ⟨v, hv, hle, hlt⟩
    obtain ⟨j, hj⟩ := List.mem_iff_getElem?.mp hv
    obtain ⟨hstop, hbytes⟩ := hok.wrote op hop hf j v hj (by rw [hkept.freed op hop]; trivial)
    exact ⟨lt_of_lt_of_le hlt hstop, hbytes x hle hlt⟩
  refine ⟨hops, fun hcount hall => ?_⟩
  have hbytes : ∀ x < min (bc.toNat * job.blockSize) job.maxIndex,
      x < s.data.file.size ∧ s.data.file.bytes x = job.content x := fun x hx => by
    obtain ⟨op, hop, hcovers⟩ := hjob.exists_op hkept.loop hplaces hcount hx
    exact hops op hop (hall op hop) x hcovers
  refine ⟨le_antisymm hok.size ?_, fun x hx => (hbytes x (lt_of_lt_of_le hx hok.size)).2⟩
  by_contra hlt
  exact absurd (hbytes s.data.file.size (by omega)).1 (lt_irrefl _)

/-! ### Callbacks that write at the same time -/

/-- A callback goes on: only its op and the file change. -/
theorem exists_work {s : JoinState AsyncVars} {i : ℕ} {op op' : AsyncOp} {file : CFile}
    (htask : s.tasks[i]? = some .work) (hi : s.data.ops[i]? = some op)
    (hwork : AsyncWork job s.data i op { s.data.setOp i op' with file := file }) :
    ∃ s', JoinStep (asyncSys job) s (.work i) s' ∧ s'.tasks = s.tasks ∧ s'.data.file = file ∧
      s'.data.ops[i]? = some op' ∧ ∀ k ≠ i, s'.data.ops[k]? = s.data.ops[k]? := by
  refine ⟨_, .work htask ⟨op, hi, hwork⟩, rfl, rfl, ?_, fun k hk => ?_⟩
  · exact List.getElem?_set_self (List.getElem?_eq_some_iff.mp hi).1
  · exact List.getElem?_set_ne (Ne.symm hk)

/-- A callback that writes all its vectors, without another one in between. -/
theorem exists_run_fwrites {s : JoinState AsyncVars} {i start : ℕ} {op : AsyncOp}
    (htask : s.tasks[i]? = some .work) (hi : s.data.ops[i]? = some op)
    (hstage : op.stage = .write 0) (hrow : InRow op.icaIovecs start)
    (hpos : s.data.file.pos = start) :
    ∀ j ≤ op.icaIovecs.length, ∃ es s', Run (JoinStep (asyncSys job)) s es s' ∧
      s'.tasks = s.tasks ∧ s'.data.ops[i]? = some { op with stage := .write j } ∧
      (∀ k ≠ i, s'.data.ops[k]? = s.data.ops[k]?) ∧
      (j = 0 ∧ s'.data.file.pos = start ∨
        ∃ k v, j = k + 1 ∧ op.icaIovecs[k]? = some v ∧ s'.data.file.pos = v.stop) := by
  intro j
  induction j with
  | zero =>
    intro _
    exact ⟨[], s, .refl, rfl, by rw [hi, ← hstage], fun _ _ => rfl, .inl ⟨rfl, hpos⟩⟩
  | succ j ih =>
    intro hj
    obtain ⟨es, t, hrun, htasks, hop, hothers, hat⟩ := ih (by omega)
    have hv := List.getElem?_eq_getElem (show j < op.icaIovecs.length by omega)
    obtain ⟨u, hstep, htasks', hfile, hop', hothers'⟩ := exists_work (by rw [htasks]; exact htask)
      hop (.fwrite rfl hv)
    refine ⟨_, u, hrun.snoc hstep, htasks'.trans htasks, hop',
      fun k hk => (hothers' k hk).trans (hothers k hk), .inr ⟨j, _, rfl, hv, ?_⟩⟩
    have hoff : t.data.file.pos = op.icaIovecs[j].miovOff := by
      rcases hat with ⟨rfl, hat⟩ | ⟨k, w, rfl, hw, hat⟩
      · exact hat.trans (hrow.head _ hv).symm
      · exact hat.trans (hrow.next k w _ hw hv).symm
    rw [hfile, CFile.fwrite, hoff]
    rfl

/-- The end of a stretch in a row is where its last vector ends. -/
theorem Stretch.stop_eq_of_inRow {iov : List (MioIovec ℕ)} {start stop : ℕ}
    (h : Stretch iov start stop) (hrow : InRow iov start) {v : MioIovec ℕ}
    (hv : iov[iov.length - 1]? = some v) : v.stop = stop := by
  have hlt := h.lt
  refine le_antisymm (h.inside (List.mem_of_getElem? hv)).2 ?_
  obtain ⟨w, hw, -, hstop⟩ := (h.covers (stop - 1)).mpr ⟨by omega, by omega⟩
  obtain ⟨k, hk⟩ := List.mem_iff_getElem?.mp hw
  have hle := (h.inside hw).2
  have hklt := (List.getElem?_eq_some_iff.mp hk).1
  by_cases hlast : k = iov.length - 1
  · rw [hlast, hv] at hk
    rw [Option.some.inj hk]
    omega
  · -- there is one more vector, beyond the end
    have hnext := List.getElem?_eq_getElem (show k + 1 < iov.length by omega)
    have hmem := List.getElem_mem (show k + 1 < iov.length by omega)
    have hoff := hrow.next k w _ hk hnext
    have hpos := h.ok.pos _ hmem
    have hend := (h.inside hmem).2
    simp only [MioIovec.stop] at hoff hend hstop
    omega

/-- **Two callbacks that write at the same time**: in some run the last one but one has moved
to its place in the file, and so has the last one and written all it has read, when the
other one writes behind it. -/
theorem exists_run_overlap {bc : UInt64} (as : UInt64) (hjob : AsyncReads job bc.toNat)
    (hserial : job.serial = false) (htwo : job.asyncStep < bc.toNat) :
    ∃ es s, Run (JoinStep (asyncSys job)) (joinInit (asyncStart bc as)) es s ∧
      min (bc.toNat * job.blockSize) job.maxIndex < s.data.file.size := by
  have hstep := hjob.pos
  obtain ⟨a, ha⟩ : ∃ a, (bc.toNat - 1) / job.asyncStep = a + 1 := by
    have : 0 < (bc.toNat - 1) / job.asyncStep := Nat.div_pos (by omega) hstep
    exact ⟨_, (Nat.succ_pred_eq_of_pos this).symm⟩
  have hle := Nat.div_mul_le_self (bc.toNat - 1) job.asyncStep
  have hlt := Nat.lt_div_mul_add (a := bc.toNat - 1) hstep
  rw [ha] at hle hlt
  obtain ⟨es, s, hrun, hw, hl, hflying⟩ := exists_run_launch hstep bc as (l := a + 2)
    fun i hi => by
      have := Nat.mul_le_mul_right job.asyncStep (show i ≤ a + 1 by omega)
      omega
  obtain ⟨-, hkept⟩ := asyncInv_of_run hstep hrun
  rw [JoinState.Kept, if_neg (by simp [hw])] at hkept
  have hlength : s.data.ops.length = a + 2 := by
    rw [hkept.loop.length, JoinState.busy, List.length_map, hl]
  obtain ⟨hplaces, -⟩ := fileOk_of_run hjob hrun
  -- the last op but one, and the last one
  obtain ⟨opa, hopa⟩ : ∃ o, s.data.ops[a]? = some o :=
    ⟨_, List.getElem?_eq_getElem (show a < s.data.ops.length by omega)⟩
  obtain ⟨opb, hopb⟩ : ∃ o, s.data.ops[a + 1]? = some o :=
    ⟨_, List.getElem?_eq_getElem (show a + 1 < s.data.ops.length by omega)⟩
  have hfa := hflying opa (List.mem_of_getElem? hopa)
  have hfb := hflying opb (List.mem_of_getElem? hopb)
  have hta := (hkept.task_work hopa).mp (by simp [hfa])
  have htb := (hkept.task_work hopb).mp (by simp [hfb])
  obtain ⟨hsa, -, -⟩ := hjob.stretch (hplaces.vectors _ _ hopa)
  obtain ⟨hsb, hrow, -⟩ := hjob.stretch (hplaces.vectors _ _ hopb)
  have hend : min (asyncIndex job (a + 1) + asyncBlocks job bc.toNat (a + 1) * job.blockSize)
      job.maxIndex = min (bc.toNat * job.blockSize) job.maxIndex := by
    rw [asyncIndex, ← Nat.add_mul, asyncBlocks, Nat.min_eq_left (a := _ - _) (by omega),
      Nat.add_sub_cancel' (by omega)]
  rw [hend] at hsb
  have hva := List.getElem?_eq_getElem (List.length_pos_iff.mpr hsa.ne_nil)
  have hvb := List.getElem?_eq_getElem (List.length_pos_iff.mpr hsb.ne_nil)
  have hnot : ∀ {d : AsyncVars}, job.serial = true → ∀ o ∈ d.ops, o.stage.writing = false :=
    fun h => absurd h (by simp [hserial])
  -- both move to their places in the file
  obtain ⟨s₁, h₁, ht₁, -, hopa₁, ho₁⟩ := exists_work hta hopa (.read hfa hjob.reads)
  obtain ⟨s₂, h₂, ht₂, -, hopb₂, ho₂⟩ := exists_work (by rw [ht₁]; exact htb)
    ((ho₁ (a + 1) (by omega)).trans hopb) (.read hfb hjob.reads)
  obtain ⟨s₃, h₃, ht₃, -, hopa₃, ho₃⟩ := exists_work (by rw [ht₂, ht₁]; exact hta)
    ((ho₂ a (by omega)).trans hopa₁) (.seek rfl hva hnot)
  obtain ⟨s₄, h₄, ht₄, hfile₄, hopb₄, ho₄⟩ := exists_work (by rw [ht₃, ht₂, ht₁]; exact htb)
    ((ho₃ (a + 1) (by omega)).trans hopb₂) (.seek rfl hvb hnot)
  -- the last one writes
  obtain ⟨es', s₅, h₅, ht₅, -, ho₅, hat⟩ := exists_run_fwrites
    (by rw [ht₄, ht₃, ht₂, ht₁]; exact htb) hopb₄ rfl hrow
    (by rw [hfile₄]; exact hrow.head _ hvb) _ le_rfl
  have hpos : s₅.data.file.pos = min (bc.toNat * job.blockSize) job.maxIndex := by
    rcases hat with ⟨hzero, -⟩ | ⟨k, v, hk, hv, hat⟩
    · exact absurd (List.length_eq_zero_iff.mp hzero) hsb.ne_nil
    · rw [hat]
      refine hsb.stop_eq_of_inRow hrow ?_
      rw [hk]
      exact hv
  -- and then the one before it
  obtain ⟨s₆, h₆, -, hfile₆, -, -⟩ := exists_work (by rw [ht₅, ht₄, ht₃, ht₂, ht₁]; exact hta)
    ((ho₅ a (by omega)).trans ((ho₄ a (by omega)).trans hopa₃)) (.fwrite rfl hva)
  refine ⟨_, s₆, (((((hrun.snoc h₁).snoc h₂).snoc h₃).snoc h₄).append h₅).snoc h₆, ?_⟩
  have hlen := hsa.ok.pos _ (List.mem_of_getElem? hva)
  rw [hfile₆, CFile.size_fwrite hlen, hpos]
  exact lt_of_lt_of_le (Nat.lt_add_of_pos_right hlen) (Nat.le_max_right _ _)

/-- The file never becomes shorter. -/
theorem size_le_of_step {s s' : JoinState AsyncVars} {e : JoinEvent}
    (h : JoinStep (asyncSys job) s e s') : s.data.file.size ≤ s'.data.file.size := by
  cases h with
  | launch _ hd =>
    obtain ⟨-, base, rfl⟩ := hd
    exact le_rfl
  | enter _ hd =>
    obtain rfl := hd
    simp only [asyncEnter]
    split <;> exact le_rfl
  | stop _ hd =>
    rcases hd with ⟨-, rfl⟩ | ⟨-, -, rc, rfl⟩
    · exact le_rfl
    · exact le_rfl
  | after _ hd =>
    obtain ⟨-, rfl⟩ := hd
    exact le_rfl
  | work _ hd =>
    obtain ⟨op, -, hwork⟩ := hd
    cases hwork with
    | fwrite _ _ => exact CFile.size_le_fwrite _ _ _
    | short _ _ _ _ => exact CFile.size_le_fwrite _ _ _
    | _ => exact le_rfl
  | finish _ hd =>
    obtain ⟨op, -, -, rfl⟩ := hd
    exact le_rfl
  | _ => exact le_rfl

/-- If nothing fails, then no op does, and the loop goes on until no blocks are left. -/
theorem all_of_run {bc as : UInt64} (hfails : job.fails = false) {es : List JoinEvent}
    {s : JoinState AsyncVars}
    (hrun : Run (JoinStep (asyncSys job)) (joinInit (asyncStart bc as)) es s) :
    (∀ op ∈ s.data.ops, op.failed = false) ∧
      (s.waiter = .launch ∨ s.waiter = .enter ∨ s.data.blockCount = 0) := by
  refine hrun.inv (fun _ t => (∀ op ∈ t.data.ops, op.failed = false) ∧
    (t.waiter = .launch ∨ t.waiter = .enter ∨ t.data.blockCount = 0))
    ⟨fun op h => absurd h List.not_mem_nil, .inl rfl⟩ ?_
  rintro - e t u ⟨hops, hcount⟩ hstep
  have hset : ∀ {i : ℕ} {op op' : AsyncOp}, t.data.ops[i]? = some op → op'.failed = op.failed →
      ∀ o ∈ t.data.ops.set i op', o.failed = false := by
    intro i op op' hi hsame o ho
    rcases List.mem_or_eq_of_mem_set ho with ho | rfl
    · exact hops o ho
    · rw [hsame]
      exact hops op (List.mem_of_getElem? hi)
  cases hstep with
  | launch _ hd =>
    obtain ⟨-, base, rfl⟩ := hd
    refine ⟨fun op hop => ?_, .inr (.inl rfl)⟩
    rcases List.mem_append.mp hop with hop | hop
    · exact hops op hop
    · rw [List.mem_singleton.mp hop]
  | enter _ hd =>
    obtain rfl := hd
    refine ⟨?_, .inl rfl⟩
    rw [asyncEnter_ops]
    exact hops
  | stop _ hd =>
    rcases hd with ⟨hzero, rfl⟩ | ⟨-, hf, -⟩
    · exact ⟨hops, .inr (.inr hzero)⟩
    · exact absurd hf (by simp [hfails])
  | after hw hd =>
    obtain ⟨-, rfl⟩ := hd
    exact ⟨hops, hcount⟩
  | work _ hd =>
    obtain ⟨op, hi, hwork⟩ := hd
    cases hwork with
    | failed _ hf => exact absurd hf (by simp [hfails])
    | short _ _ hf _ => exact absurd hf (by simp [hfails])
    | _ => exact ⟨hset hi rfl, hcount⟩
  | finish _ hd =>
    obtain ⟨op, hi, -, rfl⟩ := hd
    exact ⟨hset hi rfl, hcount⟩
  | taskSignal _ =>
    refine ⟨hops, ?_⟩
    rcases hcount with hw | hw | hzero
    · simp [hw]
    · simp [hw]
    · exact .inr (.inr hzero)
  | taskLock _ _ => exact ⟨hops, hcount⟩
  | taskCount _ => exact ⟨hops, hcount⟩
  | taskUnlock _ => exact ⟨hops, hcount⟩
  | unlock hw | lock hw _ | wait hw _ | seen hw _ | leave hw | spurious hw =>
    exact ⟨hops, .inr (.inr (by simpa [hw] using hcount))⟩

end File

end CortxMio
