import CortxMio.Lib.Program
import CortxMio.Obj.Id
import CortxMio.Obj.Session
import CortxMio.Pool.Pools

/-!
# A store of objects whose ops may fail

The calls on objects that open, create, delete, read and write, over everything that Motr
keeps: the objects, and next to them the index of their attributes
(`CortxMio.MotrStore`). Every Motr op is finished in one of three ways
(`CortxMio.Verdict`): as it should be, with a failure, or not at all, because the process
of the client is gone. What an op that is not finished leaves behind is bounded by what it
was asked to do (`CortxMio.IoState.left`), and is otherwise up to Motr.

A call is therefore a program that may be cut off (`CortxMio.StoreM`), and it asks its
surroundings (`CortxMio.Env`) about everything that it does not determine itself.
-/

namespace CortxMio

open Lib

/-! ### What Motr keeps -/

/-- An object in Motr. -/
structure M0Entity where
  /-- The pool it is in. -/
  pool : MioPoolId
  /-- Its geometry. -/
  drv : M0Obj
  /-- Its bytes. -/
  bytes : ℕ → Byte

/-- The objects in Motr, and `mio_obj_attrs_kvs`, the index of their attributes. -/
structure MotrStore where
  /-- The objects. -/
  entities : MioObjId → Option M0Entity
  /-- The records. -/
  attrs : MioObjId → Option (List Byte)

/-- An object that has just been created, or has been removed. -/
def MotrStore.setEntity (m : MotrStore) (oid : MioObjId) (e : Option M0Entity) : MotrStore :=
  { m with entities := Function.update m.entities oid e }

/-- A record that has been stored, or removed. -/
def MotrStore.setAttrs (m : MotrStore) (oid : MioObjId) (val : Option (List Byte)) : MotrStore :=
  { m with attrs := Function.update m.attrs oid val }

/-- What an op on an object finds. -/
def MotrStore.cluster (m : MotrStore) (oid : MioObjId) (e : M0Entity) : Cluster :=
  ⟨e.bytes, m.attrs oid⟩

/-- What an op on an object leaves. -/
def MotrStore.setCluster (m : MotrStore) (oid : MioObjId) (e : M0Entity) (cl : Cluster) :
    MotrStore :=
  (m.setEntity oid (some { e with bytes := cl.bytes })).setAttrs oid cl.attrs

/-! ### Ops that are not finished -/

/-- What Motr makes of the memory and of the bytes of an op that it does not finish, and
whether a change of an index or of the set of objects has been made all the same. -/
structure Leftover where
  /-- Bytes of the object. -/
  bytes : ℕ → Byte
  /-- Bytes of memory. -/
  mem : Mem
  /-- Whether the change has been made. -/
  applied : Bool

/-- How a Motr op ends. -/
inductive Verdict
  /-- `M0_OS_STABLE`. -/
  | stable
  /-- `M0_OS_FAILED`, with the code that `m0_rc` returns. -/
  | failed (rc : ℤ) (neg : rc < 0) (left : Leftover)
  /-- Before it ends, the process is gone. -/
  | killed (left : Leftover)

/-- What an op of a read or a write leaves that is not finished: a READ has filled its
buffers with anything, a WRITE has written anything on its extents, and a record is the
new one or the old one. -/
def IoState.left (l : Leftover) (s : IoState) : IoState :=
  match s.op.head.mdoOp with
  | .obj .read ext =>
      let moves := ext.map fun v => ⟨v.miovBase, v.miovLen, fun i => l.mem (v.miovBase.add i)⟩
      { s with op := { s.op with mem := blitAll moves s.op.mem } }
  | .obj .write ext =>
      let moves := ext.map fun v => ⟨v.miovOff, v.miovLen, fun i => l.bytes (v.miovOff + i)⟩
      { s with cluster := { s.cluster with bytes := blitAll moves s.cluster.bytes } }
  | .idxPut val => if l.applied then { s with cluster := { s.cluster with attrs := some val } }
      else s

/-! ### Programs -/

/-- The surroundings of the client. -/
structure Env where
  /-- The configuration of the driver. -/
  conf : MioMotrConfig
  /-- How Motr ops end, one after the other. -/
  verdict : ℕ → Verdict
  /-- What `malloc` returns. -/
  malloc : ℕ → Option ℕ
  /-- `mio_now`. -/
  now : ℕ → UInt64
  /-- Where Motr puts an object for which no pool is asked. -/
  motrPool : MioPoolId
  /-- The geometry of the objects of a pool. -/
  geometry : MioPoolId → M0Obj

/-- What a program moves. -/
structure Sys where
  /-- Motr. -/
  store : MotrStore
  /-- How often the surroundings have been asked. -/
  tick : ℕ

/-- How a program is cut off. -/
inductive AppEnd
  /-- The process has been killed. -/
  | killed
  /-- The program does not return, for a reason of its own. -/
  | fault (f : Fault)
  /-- It goes through a null pointer. -/
  | null
  deriving DecidableEq

/-- A program of the client. -/
abbrev StoreM (α : Type) := Prog AppEnd Sys α

/-- Ask the surroundings. -/
def ask {α : Type} (answer : ℕ → α) : StoreM α := do
  let s ← get
  set { s with tick := s.tick + 1 }
  pure (answer s.tick)

/-- Change what Motr keeps. -/
def setStore (m : MotrStore) : StoreM Unit := modify fun s => { s with store := m }

/-- What does not return takes the program with it. -/
def returns {α : Type} : Except Fault α → StoreM α
  | .ok a => pure a
  | .error f => throw (.fault f)

variable (env : Env)

/-- A Motr op other than on data, and the wait for its end: what Motr makes of it and
returns, and what it leaves when it does not finish it. -/
def motrOp (run : MotrStore → ℤ × MotrStore) (left : Leftover → MotrStore → MotrStore) :
    StoreM ℤ := do
  let v ← ask env.verdict
  let s ← get
  match v with
  | .stable => do
      setStore (run s.store).2
      pure (run s.store).1
  | .failed rc _ l => do
      setStore (left l s.store)
      pure rc
  | .killed l => do
      setStore (left l s.store)
      throw .killed

/-! ### Objects -/

/-- An open handle. -/
structure ObjHandle where
  /-- `mo_id`. -/
  moId : MioObjId
  /-- The pool that `mio_obj_pool_id` returns. -/
  pool : MioPoolId
  /-- The rest of it. -/
  obj : MioObj

/-- `m0_entity_open`. -/
def m0EntityOpen (oid : MioObjId) (m : MotrStore) : ℤ × MotrStore :=
  match m.entities oid with
  | none => (-ENOENT, m)
  | some _ => (0, m)

/-- `mio_obj_open` and the wait for its end: the object is opened, then its attributes are
fetched. A handle that is not opened stays as `obj_init` leaves it. -/
def mioObjOpenOp (oid : MioObjId) : StoreM (ℤ × ObjHandle) := do
  let closed : ObjHandle := ⟨oid, env.motrPool, objInit (env.geometry env.motrPool)⟩
  let rc ← motrOp env (m0EntityOpen oid) fun _ m => m
  if rc < 0 then pure (rc, closed)
  else
    let s ← get
    match s.store.entities oid with
    | none => pure (rc, closed)
    | some e => do
        let rc ← motrOp env (fun m => (0, m)) fun _ m => m
        if rc < 0 then pure (rc, ⟨oid, e.pool, objInit e.drv⟩)
        else
          let obj ← returns (motrObjAttrsGetPp (s.store.attrs oid) (objInit e.drv))
          pure (0, ⟨oid, e.pool, obj⟩)

/-- A new object. -/
def freshEntity (pool : MioPoolId) : M0Entity := ⟨pool, env.geometry pool, fun _ => 0⟩

/-- `m0_entity_create`. -/
def m0EntityCreate (oid : MioObjId) (pool : MioPoolId) (m : MotrStore) : ℤ × MotrStore :=
  match m.entities oid with
  | some _ => (-EEXIST, m)
  | none => (0, m.setEntity oid (some (freshEntity env pool)))

/-- `mio_motr_obj_create` and the wait for its end. -/
def mioObjCreateOp (pool : Option MioPoolId) (oid : MioObjId) : StoreM (ℤ × ObjHandle) := do
  let pool := pool.getD env.motrPool
  let rc ← motrOp env (m0EntityCreate env oid pool) fun l m =>
    if l.applied then (m0EntityCreate env oid pool m).2 else m
  pure (rc, ⟨oid, pool, objInit (env.geometry pool)⟩)

/-- `mio_obj_delete` and the wait for its end: the object is opened, the object is removed,
its record is removed. -/
def mioObjDeleteOp (oid : MioObjId) : StoreM ℤ := do
  let rc ← motrOp env (m0EntityOpen oid) fun _ m => m
  if rc < 0 then pure rc
  else
    let rc ← motrOp env (fun m => (0, m.setEntity oid none)) fun l m =>
      if l.applied then m.setEntity oid none else m
    if rc < 0 then pure rc
    else
      motrOp env (fun m => (0, m.setAttrs oid none)) fun l m =>
        if l.applied then m.setAttrs oid none else m

/-- `mio_obj_close`: the attributes are stored if they have changed, and whether this
succeeds is not looked at. -/
def mioObjCloseOp (h : ObjHandle) : StoreM Unit := do
  if h.obj.moAttrsUpdated then
    let val := motrObjAttrsMem2wire (h.obj.withHints (mioHintMapFini h.obj.moHints))
    let _ ← motrOp env (fun m => (0, m.setAttrs h.moId (some val))) fun l m =>
      if l.applied then m.setAttrs h.moId (some val) else m

/-! ### Reads and writes -/

/-- One turn of the chain of a read or a write, under `mio_op_poll`: a post-processing
function that fails runs into an assertion. -/
def chainRound (oid : MioObjId) (e : M0Entity) (s : IoState) :
    StoreM (IoState ⊕ ℤ × IoState) := do
  let v ← ask env.verdict
  let sys ← get
  match v with
  | .stable =>
      match chainStep env.conf s with
      | .inl s' => pure (.inl s')
      | .inr (none, s') => pure (.inr (0, s'))
      | .inr (some (.err _), s') => do
          setStore (sys.store.setCluster oid e s'.cluster)
          throw (.fault .abort)
      | .inr (some f, s') => do
          setStore (sys.store.setCluster oid e s'.cluster)
          throw (.fault f)
  | .failed rc _ l => pure (.inr (rc, s.left l))
  | .killed l => do
      setStore (sys.store.setCluster oid e (s.left l).cluster)
      throw .killed

/-- Submit a read or a write and wait for its end: the return code, the handle and
memory. -/
def runOp (h : ObjHandle) (mem : Mem) (sub : Except Fault RwOp) :
    StoreM (ℤ × ObjHandle × Mem) :=
  match sub with
  | .error (.err rc) => pure (rc, h, mem)
  | .error f => throw (.fault f)
  | .ok op => do
      let s ← get
      match s.store.entities h.moId with
      | none => pure (-ENOENT, h, mem)
      | some e => do
          let (rc, io) ← repeatN (.fault .diverge) (chainRound env h.moId e) (chainBound op.args)
            ⟨s.store.cluster h.moId e, h.obj, op⟩
          let s ← get
          setStore (s.store.setCluster h.moId e io.cluster)
          pure (rc, { h with obj := io.obj }, io.op.mem)

/-- `mio_obj_writev` and the wait for its end. -/
def mioObjWritevOp (h : ObjHandle) (app : ℕ → Byte) (iov : List (MioIovec ℕ)) :
    StoreM (ℤ × ObjHandle) := do
  let now ← ask env.now
  let obj := objStatsUpdate h.obj true now iov
  let (rc, h, _) ← runOp env { h with obj := obj } (Mem.init app)
    (mioMotrObjWritev env.conf obj app iov)
  pure (rc, h)

/-- `mio_obj_readv` and the wait for its end. -/
def mioObjReadvOp (h : ObjHandle) (app : ℕ → Byte) (iov : List (MioIovec ℕ)) :
    StoreM (ℤ × ObjHandle × (ℕ → Byte)) := do
  let now ← ask env.now
  let obj := objStatsUpdate h.obj false now iov
  let (rc, h, mem) ← runOp env { h with obj := obj } (Mem.init app)
    (mioMotrObjReadv env.conf obj app iov)
  pure (rc, h, fun a => mem (.app a))

end CortxMio
