import CortxMio.Basic

/-!
# Pools

The pools that the configuration lists (`struct mio_pools`). The array of pools is
allocated when the list of pools begins in the file; it is the list of those entries of
it that are in use, so its length is `mps_nr_pools`.
-/

namespace CortxMio

/-- `MIO_MOTR_MAX_POOL_CNT`. -/
abbrev mioMotrMaxPoolCnt : ℕ := 16

/-- `MIO_POOL_MAX_NAME_LEN`. -/
abbrev mioPoolMaxNameLen : ℕ := 32

/-- `struct mio_pool_id`. -/
structure MioPoolId where
  /-- `mpi_hi`. -/
  mpiHi : UInt64
  /-- `mpi_lo`. -/
  mpiLo : UInt64
  deriving DecidableEq, Repr

/-- `mio_obj_pool_id_cmp`. -/
def mioObjPoolIdCmp (id1 id2 : MioPoolId) : Bool := id1.mpiHi == id2.mpiHi && id1.mpiLo == id2.mpiLo

theorem mioObjPoolIdCmp_self (id : MioPoolId) : mioObjPoolIdCmp id id = true := by
  rw [mioObjPoolIdCmp, beq_self_eq_true, beq_self_eq_true]
  rfl

/-- `enum mio_pool_type`. -/
inductive MioPoolType
  /-- `MIO_POOL_TYPE_NVM`. -/
  | nvm
  /-- `MIO_POOL_TYPE_SSD`. -/
  | ssd
  /-- `MIO_POOL_TYPE_HDD`. -/
  | hdd
  deriving DecidableEq, Repr

/-- `struct mio_pool`, as far as the configuration fills it in. -/
structure MioPool where
  /-- `mp_name`, an array. -/
  mpName : List Byte
  /-- `mp_id`. -/
  mpId : MioPoolId
  /-- `mp_type`. -/
  mpType : MioPoolType
  deriving DecidableEq, Repr

/-- A pool in cleared memory. -/
def MioPool.zeroed : MioPool := ⟨List.replicate (mioPoolMaxNameLen + 1) 0, ⟨0, 0⟩, .nvm⟩

/-- `struct mio_pools`. -/
structure MioPools where
  /-- `mps_default_pool_idx`. -/
  mpsDefaultPoolIdx : ℕ
  /-- `mps_default_pool_name`, an array. -/
  mpsDefaultPoolName : List Byte
  /-- `mps_pools`, `none` for `NULL`. -/
  mpsPools : Option (List MioPool)
  deriving DecidableEq, Repr

/-- The pools in cleared memory. -/
def MioPools.zeroed : MioPools := ⟨0, List.replicate (mioPoolMaxNameLen + 1) 0, none⟩

/-- The pools in use. -/
def MioPools.list (pools : MioPools) : List MioPool := pools.mpsPools.getD []

/-- `mps_nr_pools`. -/
def MioPools.mpsNrPools (pools : MioPools) : ℕ := pools.list.length

/-- The id of the pool at an index of the array. -/
def MioPools.idAt (pools : MioPools) (idx : ℤ) : Except Fault MioPoolId :=
  if idx < 0 then .error .oob
  else match pools.list[idx.toNat]? with
    | some pool => .ok pool.mpId
    | none => .error .oob

theorem MioPools.exists_idAt {pools : MioPools} {idx : ℤ} (h0 : 0 ≤ idx)
    (hlt : idx < pools.mpsNrPools) : ∃ id, pools.idAt idx = .ok id := by
  have hlen : idx.toNat < pools.list.length := by
    rw [MioPools.mpsNrPools] at hlt
    omega
  rw [MioPools.idAt, if_neg (by omega), List.getElem?_eq_getElem hlen]
  exact ⟨_, rfl⟩

theorem MioPools.idAt_ok {pools : MioPools} {idx : ℤ} {id : MioPoolId}
    (h : pools.idAt idx = .ok id) :
    0 ≤ idx ∧ idx < pools.mpsNrPools := by
  rw [MioPools.idAt] at h
  split at h
  · exact absurd h (by simp)
  · split at h
    · next hpool =>
      have hlt := (List.getElem?_eq_some_iff.mp hpool).1
      rw [MioPools.mpsNrPools]
      omega
    · exact absurd h (by simp)

end CortxMio
