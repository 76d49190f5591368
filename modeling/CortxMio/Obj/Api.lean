import CortxMio.Obj.Chain

/-!
# Operations on an open object

The calls of the library on one object, each run through all its driver ops
before the next one starts: `mio_obj_open`, `mio_obj_create`, `mio_obj_close`,
`mio_obj_writev`, `mio_obj_readv`, `mio_obj_size` and those on hints. A world
(`CortxMio.World`) is what Motr keeps for the object together with the handle.

Motr ops succeed; what can still go wrong is an argument that is turned down, or
a vector too large for an op, and then the world is as the code leaves it.
-/

namespace CortxMio

open Lib

/-- An open handle on an object. -/
structure World where
  /-- Motr's side. -/
  cluster : Cluster
  /-- The handle. -/
  obj : MioObj

variable (conf : MioMotrConfig)

/-! ### Reads and writes -/

/-- One round of the loop of `obj_stats_update`. -/
def MioObjStats.count (stats : MioObjStats) (isWrite : Bool) (now : UInt64) (len : ℕ) :
    MioObjStats :=
  if isWrite then { stats with
    mosWcount := stats.mosWcount + 1
    mosWbytes := stats.mosWbytes + UInt64.ofNat len
    mosWtime := now }
  else { stats with
    mosRcount := stats.mosRcount + 1
    mosRbytes := stats.mosRbytes + UInt64.ofNat len
    mosRtime := now }

/-- Replace the access statistics. -/
def MioObj.setStats (obj : MioObj) (stats : MioObjStats) : MioObj :=
  { obj with moAttrs := { obj.moAttrs with moaStats := stats } }

/-- `obj_stats_update`. -/
def objStatsUpdate (obj : MioObj) (isWrite : Bool) (now : UInt64) (iov : List (MioIovec ℕ)) :
    MioObj :=
  { obj.setStats (iov.foldl (fun stats v => stats.count isWrite now v.miovLen)
      obj.moAttrs.moaStats) with moAttrsUpdated := true }

/-- Run the chain of a submitted operation, if it was. -/
def runSubmitted (cluster : Cluster) (obj : MioObj) (mem : Mem) (sub : Except Fault RwOp) :
    Option Fault × World × Mem :=
  match sub with
  | .error f => (some f, ⟨cluster, obj⟩, mem)
  | .ok op =>
      match runChain conf ⟨cluster, obj, op⟩ with
      | none => (some .diverge, ⟨cluster, obj⟩, mem)
      | some (rc, s) => (rc, ⟨s.cluster, s.obj⟩, s.op.mem)

/-- `mio_obj_writev`, run to its end: how it failed, if it did, and the world. -/
def mioObjWritev (w : World) (now : UInt64) (app : ℕ → Byte) (iov : List (MioIovec ℕ)) :
    Option Fault × World :=
  let obj := objStatsUpdate w.obj true now iov
  let (rc, w, _) := runSubmitted conf w.cluster obj (Mem.init app)
    (mioMotrObjWritev conf obj app iov)
  (rc, w)

/-- `mio_obj_readv`, run to its end: how it failed, if it did, the world, and
memory. -/
def mioObjReadv (w : World) (now : UInt64) (app : ℕ → Byte) (iov : List (MioIovec ℕ)) :
    Option Fault × World × Mem :=
  let obj := objStatsUpdate w.obj false now iov
  runSubmitted conf w.cluster obj (Mem.init app) (mioMotrObjReadv conf obj app iov)

/-! ### Attributes -/

/-- `motr_obj_attrs_update_sync`. -/
def motrObjAttrsUpdateSync (w : World) : World :=
  { w with cluster := { w.cluster with attrs := some (motrObjAttrsMem2wire w.obj) } }

/-- `mio_obj_size`, run to its end. -/
def mioObjSize (w : World) : Except Fault World := do
  let obj ← motrObjAttrsGetPp w.cluster.attrs w.obj
  .ok { w with obj := obj }

/-! ### Hints -/

/-- A pair of a key and a value that is kept with the object. -/
def isPersistent (kv : Int32 × UInt64) : Bool := mioHintType kv.1 = some .persistent

/-- The map of persistent hints that `obj_hint_store` builds. -/
def phintsOf (hints : MioHintMap) : MioHintMap :=
  let kept := hints.pairs.filter isPersistent
  let map := mioHintMapInit mioObjHintNum
  { map with
    mhmNrSet := kept.length
    mhmKeys := overwrite (kept.map Prod.fst) map.mhmKeys
    mhmValues := overwrite (kept.map Prod.snd) map.mhmValues }

/-- Replace the map of persistent hints. -/
def MioObj.setPhints (obj : MioObj) (map : MioHintMap) : MioObj :=
  { obj with moAttrs := { obj.moAttrs with moaPhints := map } }

/-- `obj_hint_store`. -/
def objHintStore (w : World) : World :=
  motrObjAttrsUpdateSync { w with obj := w.obj.setPhints (phintsOf w.obj.moHints) }

/-- `mio_obj_hint_set`. -/
def mioObjHintSet (w : World) (key : Int32) (value : UInt64) : Except Fault World := do
  let map ← mioHintMapSet w.obj.moHints key value
  .ok (objHintStore { w with obj := w.obj.withHints map })

/-- `mio_obj_hints_set`. -/
def mioObjHintsSet (w : World) (hints : MioHintMap) : Except Fault World := do
  let map ← mioHintMapCopy w.obj.moHints hints
  .ok (objHintStore { w with obj := w.obj.withHints map })

/-- `obj_hot_index_cal`. -/
def objHotIndexCal (obj : MioObj) : Except Fault MioObj := do
  let hotness := obj.moAttrs.moaStats.mosRcount + obj.moAttrs.moaStats.mosWcount
  let map ← mioHintMapSet obj.moHints mioHintObjHotIndex hotness
  .ok (obj.withHints map)

/-- `obj_dyn_hint_update`. -/
def objDynHintUpdate (obj : MioObj) (key : Int32) : Except Fault MioObj :=
  if key = mioHintObjHotIndex then objHotIndexCal obj else .ok obj

/-- `mio_obj_hint_get`: the handle and the value, the latter only if the hint is
set. -/
def mioObjHintGet (obj : MioObj) (key : Int32) : Except Fault (MioObj × Except Fault UInt64) := do
  let obj ← objDynHintUpdate obj key
  .ok (obj, mioHintMapGet obj.moHints key)

/-- `mio_obj_hints_get`. -/
def mioObjHintsGet (obj : MioObj) (hints : MioHintMap) : Except Fault MioHintMap :=
  mioHintMapCopy hints obj.moHints

/-! ### Sessions -/

/-- `obj_init` on a handle in cleared memory. -/
def objInit (drv : M0Obj) : MioObj := (MioObj.zeroed drv).withHints (mioHintMapInit mioObjHintNum)

/-- `mio_obj_create`, run to its end. -/
def mioObjCreate (drv : M0Obj) (cluster : Cluster) : World := ⟨cluster, objInit drv⟩

/-- `mio_obj_open`, run to its end: the object is opened, then its attributes are
fetched. -/
def mioObjOpen (drv : M0Obj) (cluster : Cluster) : Except Fault World := do
  let obj ← motrObjAttrsGetPp cluster.attrs (objInit drv)
  .ok ⟨cluster, obj⟩

/-- `mio_obj_close`: what Motr has when the handle is gone. -/
def mioObjClose (w : World) : Cluster :=
  let w := { w with obj := w.obj.withHints (mioHintMapFini w.obj.moHints) }
  if w.obj.moAttrsUpdated then (motrObjAttrsUpdateSync w).cluster else w.cluster

/-! ### What stays the same -/

section Frame

variable (obj : MioObj)

@[simp] theorem objStatsUpdate_size (isWrite : Bool) (now : UInt64) (iov : List (MioIovec ℕ)) :
    (objStatsUpdate obj isWrite now iov).size = obj.size := rfl

@[simp] theorem MioObj.withHints_moaPhints (map : MioHintMap) :
    (obj.withHints map).moAttrs.moaPhints = obj.moAttrs.moaPhints := rfl

/-- The geometry of an object is that of the driver's object. -/
theorem motrObjIoPagesize_congr {obj obj' : MioObj} (h : obj'.moDrvObj = obj.moDrvObj) :
    motrObjIoPagesize obj' = motrObjIoPagesize obj := by
  rw [motrObjIoPagesize, motrObjIoPagesize, h]

theorem motrObjMaxSizePerOp_congr {obj obj' : MioObj} (h : obj'.moDrvObj = obj.moDrvObj) :
    motrObjMaxSizePerOp conf obj' = motrObjMaxSizePerOp conf obj := by
  rw [motrObjMaxSizePerOp, motrObjMaxSizePerOp, h]

end Frame

end CortxMio
