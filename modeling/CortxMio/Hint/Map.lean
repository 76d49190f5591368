import CortxMio.Basic

/-!
# Hint maps

The small map from `int` keys to `uint64_t` values in which hints are kept
(`struct mio_hint_map`): two parallel arrays of `mhm_nr_entries` slots, of which
the first `mhm_nr_set` are in use. The arrays are lists, so a slot past
`mhm_nr_set` keeps whatever was stored there before.
-/

namespace CortxMio

/-- `struct mio_hint_map`. -/
structure MioHintMap where
  /-- The number of slots. -/
  mhmNrEntries : ℕ
  /-- The number of slots in use. -/
  mhmNrSet : ℕ
  /-- The keys. -/
  mhmKeys : List Int32
  /-- The values. -/
  mhmValues : List UInt64
  deriving DecidableEq, Repr

/-- A map in cleared memory. -/
def MioHintMap.zeroed : MioHintMap := ⟨0, 0, [], []⟩

/-- `MIO_HINT_INVALID`. -/
def mioHintInvalid : Int32 := -1

/-- `MIO_OBJ_HINT_NUM`. -/
def mioObjHintNum : ℕ := 32

/-- `mio_hint_map_init`. -/
def mioHintMapInit (nrEntries : ℕ) : MioHintMap where
  mhmNrEntries := nrEntries
  mhmNrSet := 0
  mhmKeys := List.replicate nrEntries mioHintInvalid
  mhmValues := List.replicate nrEntries 0

/-- `mio_hint_map_fini`: the arrays are given back. -/
def mioHintMapFini (_map : MioHintMap) : MioHintMap := ⟨0, 0, [], []⟩

/-- The keys in use. -/
def MioHintMap.setKeys (map : MioHintMap) : List Int32 := map.mhmKeys.take map.mhmNrSet

/-- The loop that looks a key up: its index, or `mhm_nr_set`. -/
def MioHintMap.find (map : MioHintMap) (key : Int32) : ℕ := map.setKeys.idxOf key

/-- Store a key and a value in slot `i`. -/
def MioHintMap.put (map : MioHintMap) (i : ℕ) (key : Int32) (value : UInt64) : MioHintMap :=
  { map with mhmKeys := map.mhmKeys.set i key, mhmValues := map.mhmValues.set i value }

/-- `mio_hint_map_set`. -/
def mioHintMapSet (map : MioHintMap) (key : Int32) (value : UInt64) : Except Fault MioHintMap :=
  let i := map.find key
  if i = map.mhmNrSet then
    if map.mhmNrSet = map.mhmNrEntries then .error (.err (-EINVAL))
    else .ok ({ map with mhmNrSet := map.mhmNrSet + 1 }.put i key value)
  else .ok (map.put i key value)

/-- `mio_hint_map_get`. -/
def mioHintMapGet (map : MioHintMap) (key : Int32) : Except Fault UInt64 :=
  let i := map.find key
  if i = map.mhmNrSet then .error (.err (-ENOENT)) else .ok (map.mhmValues.getD i 0)

/-- The pairs in use, in the order of their slots. -/
def MioHintMap.pairs (map : MioHintMap) : List (Int32 × UInt64) :=
  (map.mhmKeys.zip map.mhmValues).take map.mhmNrSet

/-- The second loop of `mio_hint_map_copy`: one hint after the other. -/
def mioHintMapCopyLoop (dst : MioHintMap) (pairs : List (Int32 × UInt64)) : MioHintMap :=
  pairs.foldl (fun dst kv =>
    let j := dst.find kv.1
    if j = dst.mhmNrSet then { dst with mhmNrSet := dst.mhmNrSet + 1 }.put j kv.1 kv.2
    else dst.put j kv.1 kv.2) dst

/-- `mio_hint_map_copy`: the count of new keys is taken before anything is
stored. An empty target takes the size of the source, which
`mio_hint_map_init` insists is not zero. -/
def mioHintMapCopy (dst src : MioHintMap) : Except Fault MioHintMap :=
  if dst.mhmNrEntries = 0 ∧ src.mhmNrEntries = 0 then .error .abort
  else
    let dst := if dst.mhmNrEntries = 0 then mioHintMapInit src.mhmNrEntries else dst
    let nrNew := (src.pairs.filter fun kv => dst.find kv.1 = dst.mhmNrSet).length
    if dst.mhmNrSet + nrNew > dst.mhmNrEntries then .error (.err (-E2BIG))
    else .ok (mioHintMapCopyLoop dst src.pairs)

/-! ### Types of hints -/

/-- `enum mio_hint_type`. -/
inductive MioHintType
  /-- `MIO_HINT_SESSION`. -/
  | session
  /-- `MIO_HINT_PERSISTENT`. -/
  | persistent
  deriving DecidableEq, Repr

/-- `MIO_HINT_OBJ_LIFETIME`. -/
def mioHintObjLifetime : Int32 := 0

/-- `MIO_HINT_OBJ_WHERE`. -/
def mioHintObjWhere : Int32 := 1

/-- `MIO_HINT_OBJ_HOT_INDEX`. -/
def mioHintObjHotIndex : Int32 := 2

/-- `obj_hint_table`, by key. -/
def objHintTable : List MioHintType := [.persistent, .session, .persistent]

/-- `mio_hint_type` for the scope of objects; `none` stands for the `-EINVAL`
that no comparison with a type accepts. -/
def mioHintType (key : Int32) : Option MioHintType :=
  if 0 ≤ key then objHintTable[key.toNatClampNeg]? else none

end CortxMio
