import CortxMio.Lib.Loop
import CortxMio.Obj.Attrs
import CortxMio.Obj.Plan

/-!
# The chain of driver ops behind a read or a write

A `readv` or `writev` is not one Motr op but a chain of them. Each driver op of
the chain carries a post-processing function, which is called when the op has
completed and either launches the next op (`MIO_DRV_OP_NEXT`), declares the
operation finished (`MIO_DRV_OP_FINAL`) or fails with a negative code. This file
models the ops, the functions and one operation run to its end.

Of Motr it is assumed that an object op transfers exactly the extents it is
given, that bytes never written read as zero, and that an index op on the record
of the object stores what it is given; `CortxMio.M0Op.exec` says so.
-/

namespace CortxMio

open Lib

/-! ### Motr -/

/-- What Motr keeps for one object: its bytes and its record in the attributes
index. -/
structure Cluster where
  /-- The bytes of the object. -/
  bytes : ℕ → Byte
  /-- The record of the object, if there is one. -/
  attrs : Option (List Byte)

/-- `enum m0_obj_opcode`, as far as it is used. -/
inductive M0ObjOpcode
  /-- `M0_OC_READ`. -/
  | read
  /-- `M0_OC_WRITE`. -/
  | write
  deriving DecidableEq, Repr

/-- A Motr op in the chain of a read or a write: one on the object's data, with
the memory area of each extent, or the storing of the attributes. -/
inductive M0Op
  /-- `m0_obj_op`. -/
  | obj (opcode : M0ObjOpcode) (ext : List (MioIovec Ptr))
  /-- `m0_idx_op` with `M0_IC_PUT`. -/
  | idxPut (val : List Byte)
  deriving DecidableEq

/-- The transfer of one extent from the object to memory. -/
def readMove (bytes : ℕ → Byte) (v : MioIovec Ptr) : Move Ptr Byte where
  start := v.miovBase
  len := v.miovLen
  src i := bytes (v.miovOff + i)

/-- The transfer of one extent from memory to the object. -/
def writeMove (mem : Mem) (v : MioIovec Ptr) : Move ℕ Byte where
  start := v.miovOff
  len := v.miovLen
  src i := mem (v.miovBase.add i)

/-- A READ of the extents. -/
def readVecs (bytes : ℕ → Byte) (ext : List (MioIovec Ptr)) (mem : Mem) : Mem :=
  blitAll (ext.map (readMove bytes)) mem

/-- A WRITE of the extents. -/
def writeVecs (mem : Mem) (ext : List (MioIovec Ptr)) (bytes : ℕ → Byte) : ℕ → Byte :=
  blitAll (ext.map (writeMove mem)) bytes

/-- What an op does when Motr executes it. -/
def M0Op.exec (cl : Cluster) (mem : Mem) : M0Op → Cluster × Mem
  | .obj .read ext => (cl, readVecs cl.bytes ext mem)
  | .obj .write ext => ({ cl with bytes := writeVecs mem ext cl.bytes }, mem)
  | .idxPut val => ({ cl with attrs := some val }, mem)

/-! ### Driver ops -/

/-- The post-processing functions of reads and writes. -/
inductive MotrObjPp
  /-- `motr_obj_write_pp`. -/
  | write
  /-- `motr_obj_read_before_write_pp`. -/
  | readBeforeWrite
  /-- `motr_obj_read_pp`. -/
  | read
  /-- `motr_obj_attrs_query_free_pp`. -/
  | attrsQueryFree
  deriving DecidableEq, Repr

/-- `struct mio_driver_op`. -/
structure MioDriverOp where
  /-- The Motr op. -/
  mdoOp : M0Op
  /-- Its post-processing function. -/
  mdoPostProc : MotrObjPp
  deriving DecidableEq

/-- A read or write in flight: its plan, its view of memory and the driver op at
the head of its chain. -/
structure RwOp where
  /-- The plan. -/
  args : MotrObjRwArgs
  /-- The application's memory, and the extra pages of the plan. -/
  mem : Mem
  /-- `mdoc_head`. -/
  head : MioDriverOp

/-- What a post-processing function returns, when it does not fail. -/
inductive DrvOpRc
  /-- `MIO_DRV_OP_NEXT`. -/
  | next
  /-- `MIO_DRV_OP_FINAL`. -/
  | final
  deriving DecidableEq, Repr

variable (conf : MioMotrConfig)

/-- The loop of `motr_obj_rw_aligned`: how many of the vectors fit into one
op. -/
def rwBatchCnt (max : ℕ) : ℕ → List (MioIovec Ptr) → ℕ
  | _, [] => 0
  | ioSize, v :: vs =>
      if u64 (ioSize + v.miovLen) > max then 0 else rwBatchCnt max (u64 (ioSize + v.miovLen)) vs + 1

/-- `motr_obj_rw_aligned`: the new position of the cursor, and the op that
`motr_obj_rw_one_op` launches. -/
def motrObjRwAligned (obj : MioObj) (iovs : List (MioIovec Ptr)) (cursor : ℕ)
    (opcode : M0ObjOpcode) : Except Fault (ℕ × M0Op) := do
  let max ← motrObjMaxSizePerOp conf obj
  let cnt := rwBatchCnt max 0 (iovs.drop cursor)
  if cnt = 0 then .error (.err (-E2BIG))
  else .ok (cursor + cnt, .obj opcode ((iovs.drop cursor).take cnt))

/-- Launch the next op on the aligned vectors. -/
def launchAligned (obj : MioObj) (opcode : M0ObjOpcode) (pp : MotrObjPp) (args : MotrObjRwArgs)
    (mem : Mem) : Except Fault RwOp := do
  let (progress, op) ← motrObjRwAligned conf obj args.rwaAlignedIovs args.rwaAlignedProgress opcode
  .ok ⟨{ args with rwaAlignedProgress := progress }, mem, ⟨op, pp⟩⟩

/-- Launch the next op on the read-before-write vectors. -/
def launchRbw (obj : MioObj) (opcode : M0ObjOpcode) (args : MotrObjRwArgs)
    (mem : Mem) : Except Fault RwOp := do
  let (progress, op) ← motrObjRwAligned conf obj args.rwaRbwIovs args.rwaRbwProgress opcode
  .ok ⟨{ args with rwaRbwProgress := progress }, mem, ⟨op, .readBeforeWrite⟩⟩

/-- `motr_obj_write_pp`. -/
def motrObjWritePp (obj : MioObj) (op : RwOp) : Except Fault (DrvOpRc × MioObj × RwOp) :=
  if op.args.rwaAlignedProgress ≠ op.args.rwaAlignedIovs.length then do
    let op ← launchAligned conf obj .write .write op.args op.mem
    .ok (.next, obj, op)
  else if op.args.rwaMaxEow ≤ obj.size then .ok (.final, obj, op)
  else
    let obj := obj.setSize op.args.rwaMaxEow
    .ok (.next, obj, { op with head := ⟨.idxPut (motrObjAttrsMem2wire obj), .attrsQueryFree⟩ })

/-- `motr_obj_read_before_write_pp`: the vectors that did not fit into the first
op are sent with the opcode `M0_OC_WRITE`. -/
def motrObjReadBeforeWritePp (obj : MioObj) (op : RwOp) :
    Except Fault (DrvOpRc × MioObj × RwOp) := do
  if op.args.rwaRbwProgress = op.args.rwaRbwIovs.length then
    let mem := motrObjDataCopy op.args op.mem
    let op ← launchAligned conf obj .write .write op.args mem
    .ok (.next, obj, op)
  else
    let op ← launchRbw conf obj .write op.args op.mem
    .ok (.next, obj, op)

/-- `motr_obj_read_pp`. -/
def motrObjReadPp (obj : MioObj) (op : RwOp) : Except Fault (DrvOpRc × MioObj × RwOp) :=
  if op.args.rwaAlignedIovs.length = op.args.rwaAlignedProgress then
    .ok (.final, obj, { op with mem := motrObjDataCopy op.args op.mem })
  else do
    let op ← launchAligned conf obj .read .read op.args op.mem
    .ok (.next, obj, op)

/-- Call the post-processing function at the head of the chain. -/
def postProc (obj : MioObj) (op : RwOp) : Except Fault (DrvOpRc × MioObj × RwOp) :=
  match op.head.mdoPostProc with
  | .write => motrObjWritePp conf obj op
  | .readBeforeWrite => motrObjReadBeforeWritePp conf obj op
  | .read => motrObjReadPp conf obj op
  | .attrsQueryFree => .ok (.final, obj, op)

/-! ### Submission -/

/-- `mio_motr_obj_writev`. -/
def mioMotrObjWritev (obj : MioObj) (app : ℕ → Byte) (iov : List (MioIovec ℕ)) :
    Except Fault RwOp := do
  let args ← motrObjRwArgsAlloc conf obj true iov
  let (rc, args) := motrObjIovecSort args
  if rc < 0 then .error (.err rc)
  else
    let args ← motrObjIovecAdjust conf obj args
    if args.rwaRbwIovs ≠ [] then
      let args ← motrObjReadBeforeWriteOptimise obj args
      launchRbw conf obj .read args (Mem.init app)
    else launchAligned conf obj .write .write args (motrObjDataCopy args (Mem.init app))

/-- `mio_motr_obj_readv`: the result of the sort is not looked at. -/
def mioMotrObjReadv (obj : MioObj) (app : ℕ → Byte) (iov : List (MioIovec ℕ)) :
    Except Fault RwOp := do
  let args ← motrObjRwArgsAlloc conf obj false iov
  let args ← motrObjIovecAdjust conf obj (motrObjIovecSort args).2
  launchAligned conf obj .read .read args (Mem.init app)

/-! ### One operation run to its end -/

/-- Everything one operation can reach. -/
structure IoState where
  /-- Motr's side. -/
  cluster : Cluster
  /-- The handle. -/
  obj : MioObj
  /-- The operation. -/
  op : RwOp

/-- One turn of the chain: Motr completes the op at the head, and its
post-processing function is called. A function that fails has launched nothing
and leaves the operation as it is. -/
def chainStep (s : IoState) : IoState ⊕ Option Fault × IoState :=
  let (cluster, mem) := s.op.head.mdoOp.exec s.cluster s.op.mem
  let op := { s.op with mem := mem }
  match postProc conf s.obj op with
  | .error f => .inr (some f, ⟨cluster, s.obj, op⟩)
  | .ok (.next, obj, op) => .inl ⟨cluster, obj, op⟩
  | .ok (.final, obj, op) => .inr (none, ⟨cluster, obj, op⟩)

section Step

variable {conf} {s : IoState} {cluster : Cluster} {mem : Mem}
  (hexec : s.op.head.mdoOp.exec s.cluster s.op.mem = (cluster, mem))

include hexec

/-- A turn after which the chain goes on. -/
theorem chainStep_next {obj : MioObj} {op : RwOp}
    (hpp : postProc conf s.obj { s.op with mem := mem } = .ok (.next, obj, op)) :
    chainStep conf s = .inl ⟨cluster, obj, op⟩ := by
  simp only [chainStep, hexec, hpp]

/-- A turn that ends the chain. -/
theorem chainStep_final {obj : MioObj} {op : RwOp}
    (hpp : postProc conf s.obj { s.op with mem := mem } = .ok (.final, obj, op)) :
    chainStep conf s = .inr (none, ⟨cluster, obj, op⟩) := by
  simp only [chainStep, hexec, hpp]

/-- A turn that fails. -/
theorem chainStep_error {f : Fault}
    (hpp : postProc conf s.obj { s.op with mem := mem } = .error f) :
    chainStep conf s = .inr (some f, ⟨cluster, s.obj, { s.op with mem := mem }⟩) := by
  simp only [chainStep, hexec, hpp]

end Step

/-- More turns than any chain takes. -/
def chainBound (args : MotrObjRwArgs) : ℕ := args.rwaRbwIovs.length + args.rwaAlignedIovs.length + 4

/-- Run the chain of a launched operation: how it failed, if it did, and what it
left behind. -/
def runChain (s : IoState) : Option (Option Fault × IoState) :=
  loopN (chainStep conf) (chainBound s.op.args) s

end CortxMio
