import CortxMio.Log.Logger

/-!
# The keys of a configuration file

Every entry of a configuration file is introduced by a key. All keys are in one table
(`conf_table`), for the library itself and for its drivers, and a key is looked up by
its name in the order of the table. What is compared with a name is not the key itself
but what `strstr` finds in it, so a key passes for the first name that it ends in, if
the name does not occur in it earlier (`CortxMio.confTokenToKey`).
-/

namespace CortxMio

open Lib

/-- `enum conf_key`. -/
inductive ConfKey
  /-- `MIO_CONFIG`. -/
  | mioConfig
  /-- `MIO_LOG_LEVEL`. -/
  | mioLogLevel
  /-- `MIO_LOG_DIR`. -/
  | mioLogDir
  /-- `MIO_DRIVER`. -/
  | mioDriver
  /-- `MIO_TELEMETRY_STORE`. -/
  | mioTelemetryStore
  /-- `MIO_TELEMETRY_PREFIX`. -/
  | mioTelemetryPrefix
  /-- `MOTR_CONFIG`. -/
  | motrConfig
  /-- `MOTR_INST_ADDR`. -/
  | motrInstAddr
  /-- `MOTR_HA_ADDR`. -/
  | motrHaAddr
  /-- `MOTR_PROFILE`. -/
  | motrProfile
  /-- `MOTR_PROCESS_FID`. -/
  | motrProcessFid
  /-- `MOTR_IS_OOSTORE`. -/
  | motrIsOostore
  /-- `MOTR_IS_READ_VERIFY`. -/
  | motrIsReadVerify
  /-- `MOTR_TM_RECV_QUEUE_MIN_LEN`. -/
  | motrTmRecvQueueMinLen
  /-- `MOTR_MAX_RPC_MSG_SIZE`. -/
  | motrMaxRpcMsgSize
  /-- `MOTR_MAX_IOSIZE_PER_DEV`. -/
  | motrMaxIosizePerDev
  /-- `MOTR_DEFAULT_UNIT_SIZE`. -/
  | motrDefaultUnitSize
  /-- `MOTR_USER_GROUP`. -/
  | motrUserGroup
  /-- `MOTR_POOLS`. -/
  | motrPools
  /-- `MOTR_POOL_NAME`. -/
  | motrPoolName
  /-- `MOTR_POOL_ID`. -/
  | motrPoolId
  /-- `MOTR_POOL_TYPE`. -/
  | motrPoolType
  /-- `MOTR_POOL_DEFAULT`. -/
  | motrPoolDefault
  deriving DecidableEq, Repr

/-- `enum conf_type`; nothing in the table is of the type `CEPH`. -/
inductive ConfType
  /-- `MIO`. -/
  | mio
  /-- `MOTR`. -/
  | motr
  deriving DecidableEq, Repr

/-- `struct conf_entry`. -/
structure ConfEntry where
  /-- The key that the entry is at. -/
  key : ConfKey
  /-- `name`. -/
  name : List Byte
  /-- `type`. -/
  type : ConfType

/-- `conf_table`. -/
def confTable : List ConfEntry :=
  [⟨.mioConfig, ascii "MIO_CONFIG", .mio⟩,
   ⟨.mioLogLevel, ascii "MIO_LOG_LEVEL", .mio⟩,
   ⟨.mioLogDir, ascii "MIO_LOG_DIR", .mio⟩,
   ⟨.mioDriver, ascii "MIO_DRIVER", .mio⟩,
   ⟨.mioTelemetryStore, ascii "MIO_TELEMETRY_STORE", .mio⟩,
   ⟨.mioTelemetryPrefix, ascii "MIO_TELEMETRY_PREFIX", .mio⟩,
   ⟨.motrConfig, ascii "MOTR_CONFIG", .motr⟩,
   ⟨.motrInstAddr, ascii "MOTR_INST_ADDR", .motr⟩,
   ⟨.motrHaAddr, ascii "MOTR_HA_ADDR", .motr⟩,
   ⟨.motrProfile, ascii "MOTR_PROFILE", .motr⟩,
   ⟨.motrProcessFid, ascii "MOTR_PROCESS_FID", .motr⟩,
   ⟨.motrIsOostore, ascii "MOTR_IS_OOSTORE", .motr⟩,
   ⟨.motrIsReadVerify, ascii "MOTR_IS_READ_VERIFY", .motr⟩,
   ⟨.motrTmRecvQueueMinLen, ascii "MOTR_TM_RECV_QUEUE_MIN_LEN", .motr⟩,
   ⟨.motrMaxRpcMsgSize, ascii "MOTR_MAX_RPC_MSG_SIZE", .motr⟩,
   ⟨.motrMaxIosizePerDev, ascii "MOTR_MAX_IOSIZE_PER_DEV", .motr⟩,
   ⟨.motrDefaultUnitSize, ascii "MOTR_DEFAULT_UNIT_SIZE", .motr⟩,
   ⟨.motrUserGroup, ascii "MOTR_USER_GROUP", .motr⟩,
   ⟨.motrPools, ascii "MOTR_POOLS", .motr⟩,
   ⟨.motrPoolName, ascii "MOTR_POOL_NAME", .motr⟩,
   ⟨.motrPoolId, ascii "MOTR_POOL_ID", .motr⟩,
   ⟨.motrPoolType, ascii "MOTR_POOL_TYPE", .motr⟩,
   ⟨.motrPoolDefault, ascii "MOTR_POOL_DEFAULT", .motr⟩]

/-- `conf_token_to_key`: the entry of a key, if it has one. -/
def confTokenToKey (token : CStr) : Option ConfEntry :=
  confTable.find? fun e => strstr token.bytes e.name = some e.name

end CortxMio
