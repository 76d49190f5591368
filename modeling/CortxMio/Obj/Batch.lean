import CortxMio.Lib.Fallible
import CortxMio.Obj.Aligned
import CortxMio.Obj.Chain

/-!
# Batches

One op carries as many of the remaining vectors as fit into it, so the transfer
of a list of vectors is made in batches. A batch is never empty as long as each
vector fits into an op on its own (`CortxMio.rwBatchCnt_pos`), and it is all of
the rest when the rest fits (`CortxMio.rwBatchCnt_eq_length`). The batches put
together transfer the list (`CortxMio.readVecs_take_add`,
`CortxMio.writeVecs_take_add`).

The first section has the two ways in which the plan of a request is made.
-/

namespace CortxMio

open Lib

variable {conf : MioMotrConfig} {obj : MioObj} {max : ℕ}

/-! ### Plans -/

theorem motrObjMaxSizePerOp_lt (h : motrObjMaxSizePerOp conf obj = .ok max) : max < 2 ^ 64 := by
  rw [motrObjMaxSizePerOp] at h
  cases hp : obj.moDrvObj.oaPver with
  | none => simp [hp] at h
  | some pa =>
    simp only [hp] at h
    split at h
    · simp at h
    · obtain rfl := by simpa using h
      exact lt_of_le_of_lt (Nat.div_le_self _ _) (u64_lt _)

/-- The plan before anything is in it. -/
def freshArgs (isWrite : Bool) (iov : List (MioIovec ℕ)) : MotrObjRwArgs :=
  ⟨isWrite, 0, iov, [], 0, [], 0, [], [], 0⟩

/-- The plan after the sort. -/
def sortedArgs (isWrite : Bool) (iov : List (MioIovec ℕ)) : MotrObjRwArgs :=
  (motrObjIovecSort (freshArgs isWrite iov)).2

theorem fresh_sortedArgs (isWrite : Bool) (iov : List (MioIovec ℕ)) :
    (sortedArgs isWrite iov).Fresh := ⟨rfl, rfl, rfl, rfl, rfl, rfl⟩

theorem sortedArgs_perm (isWrite : Bool) (iov : List (MioIovec ℕ)) :
    (sortedArgs isWrite iov).rwaSortedIovs.Perm iov :=
  (motrObjIovecSort_sorted (freshArgs isWrite iov)).1

variable (obj max) in
/-- The plan of a request, without the treatment of its read-before-write
vectors. -/
def planArgs (isWrite : Bool) (iov : List (MioIovec ℕ)) : MotrObjRwArgs :=
  (allPieces (motrObjIoPagesize obj) (sortedArgs isWrite iov).rwaSortedIovs).foldl
    (addPiece obj max) (sortedArgs isWrite iov)

/-- What the plan takes over from the sort. -/
theorem planArgs_rest (isWrite : Bool) (iov : List (MioIovec ℕ)) :
    planArgs obj max isWrite iov = { sortedArgs isWrite iov with
      rwaAlignedIovs := (planArgs obj max isWrite iov).rwaAlignedIovs
      rwaRbwIovs := (planArgs obj max isWrite iov).rwaRbwIovs
      rwaDcIovs := (planArgs obj max isWrite iov).rwaDcIovs
      rwaNrExtraPages := (planArgs obj max isWrite iov).rwaNrExtraPages } :=
  foldl_addPiece_rest _ _

theorem planArgs_isWrite (isWrite : Bool) (iov : List (MioIovec ℕ)) :
    (planArgs obj max isWrite iov).rwaIsWrite = isWrite := by
  rw [planArgs_rest]
  rfl

theorem planArgs_alignedProgress (isWrite : Bool) (iov : List (MioIovec ℕ)) :
    (planArgs obj max isWrite iov).rwaAlignedProgress = 0 := by
  rw [planArgs_rest]
  rfl

/-- Nothing has been sent yet. -/
theorem planArgs_progress_zero (isWrite : Bool) (iov : List (MioIovec ℕ)) :
    { planArgs obj max isWrite iov with rwaAlignedProgress := 0 } =
      planArgs obj max isWrite iov := by
  rw [← planArgs_alignedProgress isWrite iov]

theorem planArgs_rbwProgress (isWrite : Bool) (iov : List (MioIovec ℕ)) :
    (planArgs obj max isWrite iov).rwaRbwProgress = 0 := by
  rw [planArgs_rest]
  rfl

/-- The pieces of a request. -/
def reqPieces (obj : MioObj) (isWrite : Bool) (iov : List (MioIovec ℕ)) : List Piece :=
  allPieces (motrObjIoPagesize obj) (sortedArgs isWrite iov).rwaSortedIovs

/-- A piece of a request is a piece of one of its ranges. -/
theorem mem_reqPieces {isWrite : Bool} {iov : List (MioIovec ℕ)} {p : Piece} :
    p ∈ reqPieces obj isWrite iov ↔ ∃ v ∈ iov, p ∈ rangePieces (motrObjIoPagesize obj) v := by
  rw [reqPieces, mem_allPieces]
  simp only [(sortedArgs_perm isWrite iov).mem_iff]

theorem ok_of_mem_reqPieces {isWrite : Bool} {iov : List (MioIovec ℕ)} {p : Piece}
    (h : p ∈ reqPieces obj isWrite iov) : p.Ok (motrObjIoPagesize obj) :=
  ok_of_mem_allPieces (motrObjIoPagesize_pos obj) h

/-- **The plan of a request keeps the invariant of the planner.** -/
theorem planInv_planArgs (obj : MioObj) (hpos : 0 < max) (isWrite : Bool)
    (iov : List (MioIovec ℕ)) :
    PlanInv obj max (reqPieces obj isWrite iov) (planArgs obj max isWrite iov) :=
  planInv_foldl hpos (fresh_sortedArgs isWrite iov) _ fun _ hp => ok_of_mem_reqPieces hp

/-- The plan is what the code computes. -/
theorem motrObjIovecAdjust_sortedArgs (hmax : motrObjMaxSizePerOp conf obj = .ok max)
    (hpos : 0 < max) (isWrite : Bool) {iov : List (MioIovec ℕ)} (hwrap : ∀ v ∈ iov, v.NoWrap) :
    motrObjIovecAdjust conf obj (sortedArgs isWrite iov) = .ok (planArgs obj max isWrite iov) :=
  motrObjIovecAdjust_eq hmax hpos _ fun v hv =>
    hwrap v ((sortedArgs_perm isWrite iov).subset hv)

/-- A fresh plan is allocated. -/
theorem motrObjRwArgsAlloc_eq (hmax : motrObjMaxSizePerOp conf obj = .ok max) (hpos : 0 < max)
    (isWrite : Bool) (iov : List (MioIovec ℕ)) :
    motrObjRwArgsAlloc conf obj isWrite iov = .ok (freshArgs isWrite iov) := by
  have hne : ¬(max = 0 ∧ iov ≠ []) := fun h => by omega
  have hcnts : motrObjRwArgsEstimateIovcnts conf obj iov =
      .ok ((iov.map fun v => estimateAlignedCnt max v.miovLen).sum, 2 * iov.length) := by
    rw [motrObjRwArgsEstimateIovcnts, hmax]
    exact if_neg hne
  rw [motrObjRwArgsAlloc, hcnts]
  rfl

/-- An allocated plan is fresh. The limit it was estimated with is zero only if
there are no ranges to divide by it. -/
theorem motrObjRwArgsAlloc_ok {isWrite : Bool} {iov : List (MioIovec ℕ)} {args : MotrObjRwArgs}
    (h : motrObjRwArgsAlloc conf obj isWrite iov = .ok args) :
    args = freshArgs isWrite iov ∧
      ∃ max, motrObjMaxSizePerOp conf obj = .ok max ∧ (max = 0 → iov = []) := by
  rw [motrObjRwArgsAlloc] at h
  split at h
  · exact absurd h (by simp)
  · exact absurd h (by simp)
  · next hcnts =>
    obtain ⟨max, hmax, hest⟩ := bind_eq_ok_iff.mp hcnts
    refine ⟨(Except.ok.inj h).symm, max, hmax, fun hzero => ?_⟩
    by_contra hne
    rw [if_pos ⟨hzero, hne⟩] at hest
    exact absurd hest (by simp)

/-! ### Batches -/

theorem rwBatchCnt_le_length (max : ℕ) :
    ∀ (ioSize : ℕ) (vs : List (MioIovec Ptr)), rwBatchCnt max ioSize vs ≤ vs.length := by
  intro ioSize vs
  induction vs generalizing ioSize with
  | nil => exact le_rfl
  | cons v vs ih =>
    rw [rwBatchCnt]
    split
    · exact Nat.zero_le _
    · exact Nat.succ_le_succ (ih _)

/-- A batch is not empty if the first vector fits. -/
theorem rwBatchCnt_pos (hlt : max < 2 ^ 64) {vs : List (MioIovec Ptr)} (hne : vs ≠ [])
    (hfit : ∀ v ∈ vs, v.miovLen ≤ max) : 0 < rwBatchCnt max 0 vs := by
  cases vs with
  | nil => exact absurd rfl hne
  | cons v vs =>
    have hv := hfit v List.mem_cons_self
    rw [rwBatchCnt, Nat.zero_add, u64_of_lt (by omega), if_neg (by omega)]
    exact Nat.succ_pos _

/-- A batch is the whole rest if the rest fits. -/
theorem rwBatchCnt_eq_length (hlt : max < 2 ^ 64) :
    ∀ {vs : List (MioIovec Ptr)} {ioSize : ℕ}, ioSize + (vs.map MioIovec.miovLen).sum ≤ max →
      rwBatchCnt max ioSize vs = vs.length := by
  intro vs
  induction vs with
  | nil => exact fun _ => rfl
  | cons v vs ih =>
    intro ioSize h
    rw [List.map_cons, List.sum_cons] at h
    rw [rwBatchCnt, u64_of_lt (by omega), if_neg (by omega), ih (by omega), List.length_cons]

/-- The batch of a list that starts like another one. -/
theorem rwBatchCnt_append (max : ℕ) (vs ws : List (MioIovec Ptr)) :
    ∀ ioSize : ℕ, rwBatchCnt max ioSize vs = min vs.length (rwBatchCnt max ioSize (vs ++ ws)) := by
  induction vs with
  | nil => intro ioSize; simp [rwBatchCnt]
  | cons v vs ih =>
    intro ioSize
    rw [List.cons_append, rwBatchCnt, rwBatchCnt]
    split
    · simp
    · rw [ih, List.length_cons]
      omega

/-- **What the launch of a batch is**, when there is something left and it
fits. -/
theorem motrObjRwAligned_eq (hmax : motrObjMaxSizePerOp conf obj = .ok max)
    {iovs : List (MioIovec Ptr)} {cursor : ℕ} (opcode : M0ObjOpcode)
    (hcnt : 0 < rwBatchCnt max 0 (iovs.drop cursor)) :
    motrObjRwAligned conf obj iovs cursor opcode =
      .ok (cursor + rwBatchCnt max 0 (iovs.drop cursor),
        .obj opcode ((iovs.drop cursor).take (rwBatchCnt max 0 (iovs.drop cursor)))) := by
  rw [motrObjRwAligned, hmax]
  change (if _ then _ else _) = _
  rw [if_neg (by omega)]

/-- The launch of an empty batch fails. -/
theorem motrObjRwAligned_error (hmax : motrObjMaxSizePerOp conf obj = .ok max)
    {iovs : List (MioIovec Ptr)} {cursor : ℕ} (opcode : M0ObjOpcode)
    (hcnt : rwBatchCnt max 0 (iovs.drop cursor) = 0) :
    motrObjRwAligned conf obj iovs cursor opcode = .error (.err (-E2BIG)) := by
  rw [motrObjRwAligned, hmax]
  change (if _ then _ else _) = _
  rw [if_pos hcnt]

/-- What a launched op looks like. -/
theorem head_of_motrObjRwAligned {iovs : List (MioIovec Ptr)} {cursor : ℕ}
    {opcode : M0ObjOpcode} {r : ℕ × M0Op}
    (h : motrObjRwAligned conf obj iovs cursor opcode = .ok r) : ∃ ext, r.2 = .obj opcode ext := by
  obtain ⟨max, -, h⟩ := bind_eq_ok_iff.mp h
  dsimp only at h
  split at h
  · exact absurd h (by simp)
  · obtain rfl := Except.ok.inj h
    exact ⟨_, rfl⟩

theorem head_of_launchAligned {opcode : M0ObjOpcode} {pp : MotrObjPp} {args : MotrObjRwArgs}
    {mem : Mem} {op : RwOp} (h : launchAligned conf obj opcode pp args mem = .ok op) :
    op.head.mdoPostProc = pp ∧ ∃ ext, op.head.mdoOp = .obj opcode ext := by
  obtain ⟨r, hop, h⟩ := bind_eq_ok_iff.mp h
  obtain rfl := Except.ok.inj h
  exact ⟨rfl, head_of_motrObjRwAligned hop⟩

theorem head_of_launchRbw {opcode : M0ObjOpcode} {args : MotrObjRwArgs} {mem : Mem} {op : RwOp}
    (h : launchRbw conf obj opcode args mem = .ok op) :
    op.head.mdoPostProc = .readBeforeWrite ∧ ∃ ext, op.head.mdoOp = .obj opcode ext := by
  obtain ⟨r, hop, h⟩ := bind_eq_ok_iff.mp h
  obtain rfl := Except.ok.inj h
  exact ⟨rfl, head_of_motrObjRwAligned hop⟩

section Launch

variable (hmax : motrObjMaxSizePerOp conf obj = .ok max) {args : MotrObjRwArgs} {mem : Mem}

include hmax

theorem launchAligned_eq {opcode : M0ObjOpcode} {pp : MotrObjPp} {n : ℕ}
    (hn : rwBatchCnt max 0 (args.rwaAlignedIovs.drop args.rwaAlignedProgress) = n) (hpos : 0 < n) :
    launchAligned conf obj opcode pp args mem =
      .ok ⟨{ args with rwaAlignedProgress := args.rwaAlignedProgress + n }, mem,
        ⟨.obj opcode ((args.rwaAlignedIovs.drop args.rwaAlignedProgress).take n), pp⟩⟩ := by
  subst hn
  rw [launchAligned, motrObjRwAligned_eq hmax opcode hpos]
  rfl

theorem launchAligned_error {opcode : M0ObjOpcode} {pp : MotrObjPp}
    (hcnt : rwBatchCnt max 0 (args.rwaAlignedIovs.drop args.rwaAlignedProgress) = 0) :
    launchAligned conf obj opcode pp args mem = .error (.err (-E2BIG)) := by
  rw [launchAligned, motrObjRwAligned_error hmax opcode hcnt]
  rfl

theorem launchRbw_eq {opcode : M0ObjOpcode} {n : ℕ}
    (hn : rwBatchCnt max 0 (args.rwaRbwIovs.drop args.rwaRbwProgress) = n) (hpos : 0 < n) :
    launchRbw conf obj opcode args mem =
      .ok ⟨{ args with rwaRbwProgress := args.rwaRbwProgress + n }, mem,
        ⟨.obj opcode ((args.rwaRbwIovs.drop args.rwaRbwProgress).take n), .readBeforeWrite⟩⟩ := by
  subst hn
  rw [launchRbw, motrObjRwAligned_eq hmax opcode hpos]
  rfl

theorem launchRbw_error {opcode : M0ObjOpcode}
    (hcnt : rwBatchCnt max 0 (args.rwaRbwIovs.drop args.rwaRbwProgress) = 0) :
    launchRbw conf obj opcode args mem = .error (.err (-E2BIG)) := by
  rw [launchRbw, motrObjRwAligned_error hmax opcode hcnt]
  rfl

end Launch

/-- Reading batch by batch. -/
theorem readVecs_take_add (bytes : ℕ → Byte) (A : List (MioIovec Ptr)) (j n : ℕ) (mem : Mem) :
    readVecs bytes ((A.drop j).take n) (readVecs bytes (A.take j) mem) =
      readVecs bytes (A.take (j + n)) mem := by
  rw [readVecs, readVecs, readVecs, ← blitAll_append, ← List.map_append, ← List.take_add]

/-- Writing batch by batch. -/
theorem writeVecs_take_add (mem : Mem) (A : List (MioIovec Ptr)) (j n : ℕ) (bytes : ℕ → Byte) :
    writeVecs mem ((A.drop j).take n) (writeVecs mem (A.take j) bytes) =
      writeVecs mem (A.take (j + n)) bytes := by
  rw [writeVecs, writeVecs, writeVecs, ← blitAll_append, ← List.map_append, ← List.take_add]

/-! ### Ends of transfers -/

/-- An address that no vector of a READ fills. -/
theorem readVecs_of_not_mem {bytes : ℕ → Byte} {ext : List (MioIovec Ptr)} {mem : Mem} {a : Ptr}
    (h : ∀ v ∈ ext, ¬InRun v.miovBase v.miovLen a) : readVecs bytes ext mem a = mem a := by
  refine blitAll_of_not_covered ?_ mem
  rintro ⟨mv, hmv, hrun⟩
  obtain ⟨v, hv, rfl⟩ := List.mem_map.mp hmv
  exact h v hv hrun

/-- An address that vectors of a READ fill, all with the same byte. -/
theorem readVecs_of_mem {bytes : ℕ → Byte} {ext : List (MioIovec Ptr)} {mem : Mem} {a : Ptr}
    {c : Byte} (hall : ∀ v ∈ ext, ∀ i < v.miovLen, a = v.miovBase.add i → bytes (v.miovOff + i) = c)
    (h : ∃ v ∈ ext, InRun v.miovBase v.miovLen a) : readVecs bytes ext mem a = c := by
  refine blitAll_of_covered (T := fun _ => c) ?_ ?_ mem
  · intro mv hmv i hi ha
    obtain ⟨v, hv, rfl⟩ := List.mem_map.mp hmv
    exact hall v hv i hi ha
  · obtain ⟨v, hv, hrun⟩ := h
    exact ⟨_, List.mem_map_of_mem hv, hrun⟩

/-- A byte that no vector of a WRITE stores. -/
theorem writeVecs_of_not_mem {mem : Mem} {ext : List (MioIovec Ptr)} {bytes : ℕ → Byte} {x : ℕ}
    (h : ∀ v ∈ ext, ¬v.Has x) : writeVecs mem ext bytes x = bytes x := by
  refine blitAll_of_not_covered ?_ bytes
  rintro ⟨mv, hmv, hrun⟩
  obtain ⟨v, hv, rfl⟩ := List.mem_map.mp hmv
  exact h v hv (MioIovec.has_iff_inRun.mpr hrun)

/-- A byte that vectors of a WRITE store, all with the same value. -/
theorem writeVecs_of_mem {mem : Mem} {ext : List (MioIovec Ptr)} {bytes : ℕ → Byte} {x : ℕ}
    {c : Byte} (hall : ∀ v ∈ ext, v.Has x → mem (v.miovBase.add (x - v.miovOff)) = c)
    (h : ∃ v ∈ ext, v.Has x) : writeVecs mem ext bytes x = c := by
  refine blitAll_of_covered (T := fun _ => c) ?_ ?_ bytes
  · intro mv hmv i hi hx
    obtain ⟨v, hv, rfl⟩ := List.mem_map.mp hmv
    obtain rfl : x = v.miovOff + i := hx
    have hhas : v.Has (v.miovOff + i) :=
      ⟨Nat.le_add_right _ _, Nat.add_lt_add_left hi _⟩
    have := hall v hv hhas
    rwa [Nat.add_sub_cancel_left] at this
  · obtain ⟨v, hv, hx⟩ := h
    exact ⟨_, List.mem_map_of_mem hv, MioIovec.has_iff_inRun.mp hx⟩

/-- What a WRITE leaves at an offset depends on what was at that offset. -/
theorem writeVecs_congr {mem : Mem} {ext : List (MioIovec Ptr)} {bytes bytes' : ℕ → Byte} {x : ℕ}
    (h : bytes x = bytes' x) : writeVecs mem ext bytes x = writeVecs mem ext bytes' x :=
  blitAll_congr h

end CortxMio
