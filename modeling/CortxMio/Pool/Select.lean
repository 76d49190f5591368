import CortxMio.Conf.Scan
import CortxMio.Hint.Lookup

/-!
# The choice of a pool

Where a new object goes: to the pool that is asked for, else to one that a hint stands
for, else to the default pool, else to wherever Motr puts it
(`CortxMio.objCreatePoolId`). A hint names a pool by its place in the list, which goes
from the fastest to the slowest, or it says how hot the object is. Hot objects go to the
first pool, cold ones to the last, and others to one in between, by their distance from
the threshold (`CortxMio.mioObjHotnessToPoolIdx`).

The numbers are those of C: a distance of 64 bits is divided by one that has been
narrowed to an `int`, and the index is narrowed once more. That a pool is logged shows
that its place is read.
-/

namespace CortxMio

/-! ### Hints -/

/-- `MIO_HINT_HOT_OBJ_THRESHOLD`. -/
def mioHintHotObjThreshold : Int32 := 0

/-- `MIO_HINT_COLD_OBJ_THRESHOLD`. -/
def mioHintColdObjThreshold : Int32 := 1

/-- `MIO_DEFAULT_COLD_OBJ_THLD`. -/
def mioDefaultColdObjThld : ℕ := 16

/-- `MIO_DEFAULT_HOT_OBJ_THLD`. -/
def mioDefaultHotObjThld : ℕ := 128

/-- `MIO_HINT_VALUE_NULL`. -/
def mioHintValueNull : UInt64 := 0

/-- `MIO_POOL_GOLD`. -/
def mioPoolGold : UInt64 := 0x100

/-- `MIO_POOL_SILVER`. -/
def mioPoolSilver : UInt64 := 0x101

/-- `MIO_POOL_BRONZE`. -/
def mioPoolBronze : UInt64 := 0x102

/-- `mio_hint_is_set`. -/
def mioHintIsSet (hints : MioHintMap) (key : Int32) : Bool :=
  match mioHintMapGet hints key with
  | .error _ => false
  | .ok value => value ≠ mioHintValueNull

/-- `mio_sys_hint_get`, or a default. -/
def sysHintOr (sysHints : MioHintMap) (key : Int32) (default : ℕ) : ℕ :=
  match mioHintMapGet sysHints key with
  | .error _ => default
  | .ok value => value.toNat

/-- `hot_thld`. -/
def hotThld (sysHints : MioHintMap) : ℕ :=
  sysHintOr sysHints mioHintHotObjThreshold mioDefaultHotObjThld

/-- `cold_thld`. -/
def coldThld (sysHints : MioHintMap) : ℕ :=
  sysHintOr sysHints mioHintColdObjThreshold mioDefaultColdObjThld

/-! ### Hotness -/

/-- The `int` that a number is converted to. -/
def intOf (x : ℤ) : ℤ := x.bmod (2 ^ 32)

/-- `warm_interv`. -/
def warmInterv (nrPools hot cold : ℕ) : ℤ := intOf (u64Sub hot cold / (nrPools - 2) : ℕ)

/-- `warm_pool_idx`: the quotient is one of `uint64_t`, to which a negative interval is
converted. -/
def warmPoolIdx (nrPools hot cold hotness : ℕ) : Except Fault ℤ :=
  let coldPoolIdx : ℤ := nrPools - 1
  if nrPools ≤ 2 then .ok coldPoolIdx
  else
    let interv := u64OfInt (warmInterv nrPools hot cold)
    if interv = 0 then .error .divByZero
    else .ok (intOf (u64OfInt (coldPoolIdx - (u64Sub hotness cold / interv : ℕ) - 1)))

variable (pools : MioPools) (sysHints : MioHintMap)

/-- Log the id of a pool, and return its index. -/
def loggedIdx (idx : ℤ) : Except Fault ℤ := do
  let _ ← pools.idAt idx
  .ok idx

/-- `mio_obj_hotness_to_pool_idx`. -/
def mioObjHotnessToPoolIdx (hotness : UInt64) : Except Fault ℤ :=
  let hotPoolIdx : ℤ := 0
  let coldPoolIdx : ℤ := pools.mpsNrPools - 1
  if pools.mpsNrPools < 1 then .error .abort
  else if hotness.toNat > hotThld sysHints then loggedIdx pools hotPoolIdx
  else if hotness.toNat < coldThld sysHints then loggedIdx pools coldPoolIdx
  else do
    let idx ← warmPoolIdx pools.mpsNrPools (hotThld sysHints) (coldThld sysHints) hotness.toNat
    if hotPoolIdx ≤ idx ∧ idx ≤ coldPoolIdx then loggedIdx pools idx else .error .abort

/-- `mio_obj_hotness_to_pool_id`. -/
def mioObjHotnessToPoolId (hotness : UInt64) : Except Fault MioPoolId := do
  let idx ← mioObjHotnessToPoolIdx pools sysHints hotness
  pools.idAt idx

/-! ### Hints of the caller -/

variable (hints : MioHintMap)

/-- `obj_pool_select_by_perf_hint`; a hint that is not there would not have been
written. -/
def objPoolSelectByPerfHint : Except Fault ℤ :=
  let gold : ℤ := 0
  let silver : ℤ := if 1 ≥ pools.mpsNrPools then gold else 1
  let bronze : ℤ := if 2 ≥ pools.mpsNrPools then silver else 2
  match mioHintMapGet hints mioHintObjWhere with
  | .error _ => .error .oob
  | .ok value =>
      if value = mioPoolGold then .ok gold
      else if value = mioPoolSilver then .ok silver
      else if value = mioPoolBronze then .ok bronze
      else .error (.err (-EINVAL))

/-- `obj_pool_select_by_hotness`. -/
def objPoolSelectByHotness : Except Fault ℤ := do
  let hotness ← mioHintMapGet hints mioHintObjHotIndex
  mioObjHotnessToPoolIdx pools sysHints hotness

/-- `obj_pool_select`. -/
def objPoolSelect : Except Fault ℤ :=
  if pools.mpsNrPools = 0 then .error (.err (-EINVAL))
  else if mioHintIsSet hints mioHintObjWhere then objPoolSelectByPerfHint pools hints
  else if mioHintIsSet hints mioHintObjHotIndex then objPoolSelectByHotness pools sysHints hints
  else .error (.err (-EINVAL))

/-- The pool that hints stand for, if `obj_pool_select` succeeds. -/
def objPoolIdOfHints : Except Fault (Option MioPoolId) :=
  match objPoolSelect pools sysHints hints with
  | .ok idx => (pools.idAt idx).map some
  | .error (.err _) => .ok none
  | .error f => .error f

variable (st : ConfStatics)

/-- The default pool, if there is one. -/
def defaultPoolId : Except Fault (Option MioPoolId) := do
  if ← mioConfDefaultPoolHasSet st.mioDefaultPoolName then
    (st.mioPools.idAt st.mioPools.mpsDefaultPoolIdx).map some
  else .ok none

/-- The pool that `mio_obj_create` hands to the driver. -/
def objCreatePoolId (poolId : Option MioPoolId) (hints : Option MioHintMap) :
    Except Fault (Option MioPoolId) :=
  match poolId with
  | some id => .ok (some id)
  | none => do
      let selected ← match hints with
        | none => .ok none
        | some hints => objPoolIdOfHints st.mioPools sysHints hints
      match selected with
      | some id => .ok (some id)
      | none => defaultPoolId st

/-! ### Moving objects -/

/-- What `hsm_obj_if_move` returns. -/
inductive HsmMove
  /-- `HSM_OBJ_MOVE`. -/
  | objMove
  /-- `HSM_OBJ_NOT_MOVE`. -/
  | objNotMove
  deriving DecidableEq, Repr

/-- `hsm_obj_if_move`, for an object that is in the pool given. -/
def hsmObjIfMove (poolId : MioPoolId) (hotness : UInt64) : Except Fault HsmMove := do
  let newPoolId ← mioObjHotnessToPoolId pools sysHints hotness
  .ok (if mioObjPoolIdCmp poolId newPoolId then .objNotMove else .objMove)

end CortxMio
