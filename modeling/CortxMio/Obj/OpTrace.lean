import CortxMio.Lib.Batches
import CortxMio.Obj.Batch

/-!
# The ops of a chain

A large read or write is divided into several ops, each of at most the maximum
size, which are launched one after another by the post-processing function of the
op before. The cursor into the aligned vectors is all that these functions share.

`CortxMio.submittedOps` is the list of all ops that a chain submits, each with the
position of the cursor after its launch, and what the chain ends with. For reads
and for the data of writes `CortxMio.submittedOps_batches` finds this list: the
vectors cut into batches (`CortxMio.Lib.Greedy`), one op for each, and the failure
`-E2BIG` exactly if the vectors before which it stops start with one that is too
large.
-/

namespace CortxMio

open Lib

variable {conf : MioMotrConfig} {obj : MioObj} {max : ℕ}

/-! ### Ops -/

/-- The driver ops of a run, with the cursor after the launch of each, and how the
run fails, if it does. -/
def opsOf (p : List IoState × Option Fault × IoState) : List (MioDriverOp × ℕ) × Option Fault :=
  (p.1.map fun s => (s.op.head, s.op.args.rwaAlignedProgress), p.2.1)

variable (conf) in
/-- The driver ops that a chain submits, and how it fails. -/
def submittedOps (cluster : Cluster) (obj : MioObj) :
    Except Fault RwOp → Option (List (MioDriverOp × ℕ) × Option Fault)
  | .error f => some ([], some f)
  | .ok op => (trace (chainStep conf) (chainBound op.args) ⟨cluster, obj, op⟩).map opsOf

/-- The post-processing function of the data ops of reads and of writes. -/
def dataPp : M0ObjOpcode → MotrObjPp
  | .read => .read
  | .write => .write

/-- One op for each batch, from a position of the cursor on. -/
def batchOps (opcode : M0ObjOpcode) : ℕ → List (List (MioIovec Ptr)) → List (MioDriverOp × ℕ)
  | _, [] => []
  | cursor, b :: bs =>
      (⟨.obj opcode b, dataPp opcode⟩, cursor + b.length) :: batchOps opcode (cursor + b.length) bs

/-- After its data, a write that makes the object larger submits one more op. -/
def sizeOps (obj : MioObj) (args : MotrObjRwArgs) :
    M0ObjOpcode → List (MioDriverOp × ℕ)
  | .read => []
  | .write =>
      if args.rwaMaxEow ≤ obj.size then []
      else [(⟨.idxPut (motrObjAttrsMem2wire (obj.setSize args.rwaMaxEow)), .attrsQueryFree⟩,
        args.rwaAlignedIovs.length)]

/-! ### One batch -/

/-- **A batch is as large as possible.** -/
theorem rwBatchCnt_spec : ∀ {vs : List (MioIovec Ptr)} {ioSize : ℕ},
    ioSize + (vs.map MioIovec.miovLen).sum < 2 ^ 64 → ioSize ≤ max →
    ioSize + ((vs.take (rwBatchCnt max ioSize vs)).map MioIovec.miovLen).sum ≤ max ∧
      ∀ v ∈ (vs.drop (rwBatchCnt max ioSize vs)).head?,
        max < ioSize + ((vs.take (rwBatchCnt max ioSize vs)).map MioIovec.miovLen).sum +
          v.miovLen := by
  intro vs
  induction vs with
  | nil =>
    intro ioSize _ hle
    simpa [rwBatchCnt] using hle
  | cons v vs ih =>
    intro ioSize hsum hle
    rw [List.map_cons, List.sum_cons] at hsum
    rw [rwBatchCnt, u64_of_lt (by omega)]
    split
    · next hgt => simpa using ⟨hle, hgt⟩
    · next hle' =>
      obtain ⟨h1, h2⟩ := ih (by omega) (Nat.le_of_not_lt hle')
      rw [List.take_succ_cons, List.drop_succ_cons, List.map_cons, List.sum_cons, ← Nat.add_assoc]
      exact ⟨h1, h2⟩

/-- A batch is empty only if the next vector is too large for any. -/
theorem lt_of_rwBatchCnt_eq_zero {vs : List (MioIovec Ptr)}
    (hsum : (vs.map MioIovec.miovLen).sum < 2 ^ 64) (hcnt : rwBatchCnt max 0 vs = 0) :
    ∀ v ∈ vs.head?, max < v.miovLen := by
  have h := (@rwBatchCnt_spec max vs 0 (by omega) (Nat.zero_le _)).2
  simpa [hcnt] using h

/-- The rest after a batch is cut further. -/
theorem greedy_cons_batch {vs rest : List (MioIovec Ptr)} {bs : List (List (MioIovec Ptr))} {n : ℕ}
    (hsum : (vs.map MioIovec.miovLen).sum < 2 ^ 64) (hn : rwBatchCnt max 0 vs = n) (hpos : 0 < n)
    (h : Greedy MioIovec.miovLen max (vs.drop n) bs rest) :
    Greedy MioIovec.miovLen max vs (vs.take n :: bs) rest := by
  obtain ⟨hfit, hnext⟩ := @rwBatchCnt_spec max vs 0 (by rwa [Nat.zero_add]) (Nat.zero_le _)
  have hle := rwBatchCnt_le_length max 0 vs
  simp only [hn, Nat.zero_add] at hfit hnext hle
  have hne : vs.take n ≠ [] := by
    refine List.ne_nil_of_length_pos ?_
    rw [List.length_take]
    omega
  have hcons := h.cons hne hfit hnext
  rwa [List.take_append_drop] at hcons

theorem sum_drop_lt {vs : List (MioIovec Ptr)} (hsum : (vs.map MioIovec.miovLen).sum < 2 ^ 64)
    (n : ℕ) : ((vs.drop n).map MioIovec.miovLen).sum < 2 ^ 64 := by
  rw [← List.take_append_drop n vs, List.map_append, List.sum_append] at hsum
  omega

/-! ### One turn of the chain -/

/-- As long as there is something left, the function launches the next batch. -/
theorem postProc_data {op : RwOp} (opcode : M0ObjOpcode)
    (hpp : op.head.mdoPostProc = dataPp opcode)
    (hleft : op.args.rwaAlignedProgress ≠ op.args.rwaAlignedIovs.length) :
    postProc conf obj op = (do
      let op ← launchAligned conf obj opcode (dataPp opcode) op.args op.mem
      .ok (.next, obj, op)) := by
  rw [postProc, hpp]
  cases opcode with
  | read =>
    change motrObjReadPp conf obj op = _
    rw [motrObjReadPp, if_neg hleft.symm]
    rfl
  | write =>
    change motrObjWritePp conf obj op = _
    rw [motrObjWritePp, if_pos hleft]
    rfl

section Turn

variable {s : IoState} (opcode : M0ObjOpcode) (hpp : s.op.head.mdoPostProc = dataPp opcode)

include hpp

/-- A turn after which nothing is left. -/
theorem trace_end (hend : s.op.args.rwaAlignedProgress = s.op.args.rwaAlignedIovs.length)
    {fuel : ℕ} (hfuel : 2 ≤ fuel) :
    (trace (chainStep conf) fuel s).map opsOf =
      some ((s.op.head, s.op.args.rwaAlignedProgress) :: sizeOps s.obj s.op.args opcode, none) := by
  obtain ⟨fuel, rfl⟩ : ∃ n, fuel = n + 2 := ⟨fuel - 2, by omega⟩
  obtain ⟨⟨cluster, mem⟩, hexec⟩ : ∃ p, s.op.head.mdoOp.exec s.cluster s.op.mem = p := ⟨_, rfl⟩
  cases opcode with
  | read =>
    have hrc : postProc conf s.obj { s.op with mem := mem } =
        .ok (.final, s.obj, { s.op with mem := motrObjDataCopy s.op.args mem }) := by
      simp only [postProc, hpp, dataPp, motrObjReadPp, if_pos hend.symm]
    rw [trace_stop (chainStep_final hexec hrc)]
    rfl
  | write =>
    by_cases hsize : s.op.args.rwaMaxEow ≤ s.obj.size
    · have hrc : postProc conf s.obj { s.op with mem := mem } =
          .ok (.final, s.obj, { s.op with mem := mem }) := by
        simp only [postProc, hpp, dataPp, motrObjWritePp, hend, ne_eq, not_true_eq_false, if_false,
          if_pos hsize]
      rw [trace_stop (chainStep_final hexec hrc)]
      simp [opsOf, sizeOps, hsize]
    · have hrc : postProc conf s.obj { s.op with mem := mem } =
          .ok (.next, s.obj.setSize s.op.args.rwaMaxEow, ⟨s.op.args, mem,
            ⟨.idxPut (motrObjAttrsMem2wire (s.obj.setSize s.op.args.rwaMaxEow)),
              .attrsQueryFree⟩⟩) := by
        simp only [postProc, hpp, dataPp, motrObjWritePp, hend, ne_eq, not_true_eq_false, if_false,
          if_neg hsize]
      rw [trace_next (chainStep_next hexec hrc) (trace_stop (chainStep_final rfl rfl) fuel)]
      simp [opsOf, sizeOps, hsize, hend]

variable (hmax : motrObjMaxSizePerOp conf s.obj = .ok max)
  (hleft : s.op.args.rwaAlignedProgress ≠ s.op.args.rwaAlignedIovs.length)

include hmax hleft

/-- A turn that finds a vector too large for any op. -/
theorem chainStep_stuck
    (hn : rwBatchCnt max 0 (s.op.args.rwaAlignedIovs.drop s.op.args.rwaAlignedProgress) = 0) :
    ∃ t, chainStep conf s = .inr (some (.err (-E2BIG)), t) := by
  obtain ⟨⟨cluster, mem⟩, hexec⟩ : ∃ p, s.op.head.mdoOp.exec s.cluster s.op.mem = p := ⟨_, rfl⟩
  have hrc : postProc conf s.obj ⟨s.op.args, mem, s.op.head⟩ = _ :=
    postProc_data opcode hpp hleft
  rw [launchAligned_error hmax hn] at hrc
  exact ⟨_, chainStep_error hexec hrc⟩

/-- A turn that launches the next batch. -/
theorem chainStep_batch {n : ℕ}
    (hn : rwBatchCnt max 0 (s.op.args.rwaAlignedIovs.drop s.op.args.rwaAlignedProgress) = n)
    (hpos : 0 < n) :
    ∃ t, chainStep conf s = .inl t ∧ t.obj = s.obj ∧
      t.op.args = { s.op.args with rwaAlignedProgress := s.op.args.rwaAlignedProgress + n } ∧
      t.op.head = ⟨.obj opcode
        ((s.op.args.rwaAlignedIovs.drop s.op.args.rwaAlignedProgress).take n), dataPp opcode⟩ := by
  obtain ⟨⟨cluster, mem⟩, hexec⟩ : ∃ p, s.op.head.mdoOp.exec s.cluster s.op.mem = p := ⟨_, rfl⟩
  have hrc : postProc conf s.obj ⟨s.op.args, mem, s.op.head⟩ = _ :=
    postProc_data opcode hpp hleft
  rw [launchAligned_eq hmax hn hpos] at hrc
  exact ⟨_, chainStep_next hexec hrc, rfl, rfl, rfl⟩

end Turn

/-! ### The whole chain -/

/-- **All turns of the chain**, by induction on what is left. -/
theorem trace_batches (hmax : motrObjMaxSizePerOp conf obj = .ok max) (opcode : M0ObjOpcode) :
    ∀ (k : ℕ) {s : IoState} {fuel : ℕ}, s.obj = obj → s.op.head.mdoPostProc = dataPp opcode →
      s.op.args.rwaAlignedProgress + k = s.op.args.rwaAlignedIovs.length → k + 2 ≤ fuel →
      ((s.op.args.rwaAlignedIovs.drop s.op.args.rwaAlignedProgress).map MioIovec.miovLen).sum <
        2 ^ 64 →
      ∃ bs rest, Greedy MioIovec.miovLen max
          (s.op.args.rwaAlignedIovs.drop s.op.args.rwaAlignedProgress) bs rest ∧
        (trace (chainStep conf) fuel s).map opsOf =
          some ((s.op.head, s.op.args.rwaAlignedProgress) ::
              batchOps opcode s.op.args.rwaAlignedProgress bs ++
                (if rest = [] then sizeOps obj s.op.args opcode else []),
            if rest = [] then none else some (.err (-E2BIG))) := by
  intro k
  induction k using Nat.strong_induction_on with
  | _ k ih =>
    intro s fuel hobj hpp hk hfuel hsum
    rcases Nat.eq_zero_or_pos k with rfl | hpos
    · refine ⟨[], [], ?_, ?_⟩
      · rw [List.drop_of_length_le (by omega)]
        exact .none (by simp)
      · rw [trace_end opcode hpp (by omega) (by omega), hobj]
        simp [batchOps]
    · obtain ⟨fuel, rfl⟩ : ∃ n, fuel = n + 1 := ⟨fuel - 1, by omega⟩
      subst hobj
      have hleft : s.op.args.rwaAlignedProgress ≠ s.op.args.rwaAlignedIovs.length := by omega
      obtain ⟨n, hn⟩ : ∃ n, rwBatchCnt max 0
        (s.op.args.rwaAlignedIovs.drop s.op.args.rwaAlignedProgress) = n := ⟨_, rfl⟩
      have hlen : (s.op.args.rwaAlignedIovs.drop s.op.args.rwaAlignedProgress).length = k := by
        rw [List.length_drop]
        omega
      rcases Nat.eq_zero_or_pos n with rfl | hnpos
      · -- the next vector is too large
        obtain ⟨t, ht⟩ := chainStep_stuck opcode hpp hmax hleft hn
        have hne : s.op.args.rwaAlignedIovs.drop s.op.args.rwaAlignedProgress ≠ [] :=
          List.ne_nil_of_length_pos (by omega)
        refine ⟨[], _, .none (lt_of_rwBatchCnt_eq_zero hsum hn), ?_⟩
        rw [trace_stop ht, if_neg hne, if_neg hne]
        simp [opsOf, batchOps]
      · obtain ⟨t, ht, hobj, hargs, hhead⟩ := chainStep_batch opcode hpp hmax hleft hn hnpos
        have hle : n ≤ k := hlen ▸ hn ▸ rwBatchCnt_le_length max 0 _
        have hsum' := sum_drop_lt hsum n
        rw [List.drop_drop] at hsum'
        have hk' : t.op.args.rwaAlignedProgress + (k - n) = t.op.args.rwaAlignedIovs.length := by
          simp only [hargs]
          omega
        have hfuel' : k - n + 2 ≤ fuel := by omega
        obtain ⟨bs, rest, hgreedy, htrace⟩ :=
          ih (k - n) (by omega) hobj (by rw [hhead]) hk' hfuel' (by rw [hargs]; exact hsum')
        rw [hargs] at hgreedy htrace
        rw [← List.drop_drop] at hgreedy
        refine ⟨_, rest, greedy_cons_batch hsum hn hnpos hgreedy, ?_⟩
        obtain ⟨⟨ss, r⟩, hrun, hops⟩ := Option.map_eq_some_iff.mp htrace
        rw [trace_next ht hrun, batchOps, List.length_take, hlen, Nat.min_eq_left hle]
        simp only [opsOf, hhead, Prod.mk.injEq] at hops
        simp only [Option.map_some, opsOf, List.map_cons, hops.1, hops.2]
        rfl

/-- **The ops of a read, or of the data of a write.** The vectors are cut into
batches, each as large as possible; there is one op for each batch, in order, and
the cursor is then at the end of the batch. There are no more ops than vectors.
The chain gets to its end exactly if nothing is left over, which is if all vectors
fit into an op, and otherwise fails with `-E2BIG`, in front of a vector that alone
is too large. -/
theorem submittedOps_batches (hmax : motrObjMaxSizePerOp conf obj = .ok max)
    (opcode : M0ObjOpcode) {args : MotrObjRwArgs} (hne : args.rwaAlignedIovs ≠ [])
    (hstart : args.rwaAlignedProgress = 0)
    (hsum : (args.rwaAlignedIovs.map MioIovec.miovLen).sum < 2 ^ 64) (cluster : Cluster)
    (mem : Mem) :
    ∃ bs rest, Greedy MioIovec.miovLen max args.rwaAlignedIovs bs rest ∧
      bs.length ≤ args.rwaAlignedIovs.length ∧
      (rest = [] ↔ ∀ v ∈ args.rwaAlignedIovs, v.miovLen ≤ max) ∧
      submittedOps conf cluster obj (launchAligned conf obj opcode (dataPp opcode) args mem) =
        some (batchOps opcode 0 bs ++ (if rest = [] then sizeOps obj args opcode else []),
          if rest = [] then none else some (.err (-E2BIG))) := by
  obtain ⟨n, hn⟩ : ∃ n, rwBatchCnt max 0 args.rwaAlignedIovs = n := ⟨_, rfl⟩
  have hn' : rwBatchCnt max 0 (args.rwaAlignedIovs.drop args.rwaAlignedProgress) = n := by
    rw [hstart]
    exact hn
  rcases Nat.eq_zero_or_pos n with rfl | hpos
  · -- nothing is launched at all
    have hnone := Greedy.none (lt_of_rwBatchCnt_eq_zero hsum hn)
    refine ⟨[], _, hnone, Nat.zero_le _, hnone.rest_eq_nil_iff, ?_⟩
    rw [launchAligned_error hmax hn', if_neg hne, if_neg hne]
    rfl
  · have hle : n ≤ args.rwaAlignedIovs.length := hn ▸ rwBatchCnt_le_length max 0 _
    rw [launchAligned_eq hmax hn' hpos, hstart]
    obtain ⟨s, hs⟩ : ∃ s : IoState, s = ⟨cluster, obj, { args with rwaAlignedProgress := n }, mem,
      ⟨.obj opcode (args.rwaAlignedIovs.take n), dataPp opcode⟩⟩ := ⟨_, rfl⟩
    have hk : s.op.args.rwaAlignedProgress + (args.rwaAlignedIovs.length - n) =
        s.op.args.rwaAlignedIovs.length := by
      rw [hs]
      exact Nat.add_sub_of_le hle
    have hfuel : args.rwaAlignedIovs.length - n + 2 ≤ chainBound s.op.args := by
      simp only [hs, chainBound]
      omega
    obtain ⟨bs, rest, hgreedy, htrace⟩ := trace_batches hmax opcode _ (by rw [hs]) (by rw [hs]) hk
      hfuel (by rw [hs]; exact sum_drop_lt hsum n)
    rw [hs] at hgreedy htrace
    have hcut := greedy_cons_batch hsum hn hpos hgreedy
    refine ⟨_, rest, hcut, hcut.length_le, hcut.rest_eq_nil_iff, ?_⟩
    rw [batchOps, List.length_take, Nat.min_eq_left hle, Nat.zero_add]
    simp only [submittedOps, List.drop_zero]
    exact htrace

/-- Vectors of two bytes, ops of four, and a vector too large for any. -/
def fiveVecs : MotrObjRwArgs :=
  { freshArgs true [] with
    rwaAlignedIovs := [⟨.app 0, 0, 2⟩, ⟨.app 2, 2, 2⟩, ⟨.app 4, 4, 2⟩, ⟨.app 6, 6, 6⟩,
      ⟨.app 12, 12, 2⟩] }

/-- The write of these vectors stops in front of the fourth. -/
theorem submittedOps_fiveVecs :
    ∃ bs rest, Greedy MioIovec.miovLen 4 fiveVecs.rwaAlignedIovs bs rest ∧ rest ≠ [] ∧
      submittedOps ⟨4⟩ ⟨fun _ => 0, none⟩ (.zeroed ⟨1, some ⟨1, 0, 1⟩, by decide⟩)
          (launchAligned ⟨4⟩ (.zeroed ⟨1, some ⟨1, 0, 1⟩, by decide⟩) .write .write fiveVecs
            (Mem.init fun _ => 0)) =
        some (batchOps .write 0 bs, some (.err (-E2BIG))) := by
  have hmax : motrObjMaxSizePerOp ⟨4⟩ (.zeroed ⟨1, some ⟨1, 0, 1⟩, by decide⟩) = .ok 4 := by decide
  obtain ⟨bs, rest, hgreedy, -, hrest, hops⟩ := submittedOps_batches hmax .write
    (show fiveVecs.rwaAlignedIovs ≠ [] by decide) rfl (by decide) ⟨fun _ => 0, none⟩
    (Mem.init fun _ => 0)
  have hne : rest ≠ [] := fun h => absurd (hrest.mp h) (by decide)
  refine ⟨bs, rest, hgreedy, hne, ?_⟩
  rw [if_neg hne, if_neg hne, List.append_nil] at hops
  exact hops

end CortxMio
