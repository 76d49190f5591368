import CortxMio.Conf.Table
import CortxMio.Lib.CNumber
import CortxMio.Obj.Handle
import CortxMio.Pool.Pools

/-!
# The configuration

`mio_conf_init` takes a configuration file from the YAML scanner token by token. It has
no notion of the structure of the file: a scalar after a key token is a key, any other
scalar is a value of the key that came last, and every entry of a sequence adds a pool
as soon as the list of pools has begun.

What is configured is kept in variables of the file `mio_conf.c`, which stay what they
are from one call to the next (`CortxMio.ConfStatics`), and in the instance, which is
new in every call (`CortxMio.MioInst`). Numbers are whatever `atoi` makes of their text.

The scanner is the list of its tokens. When there are no more, it goes on to yield
tokens that are not the end of the stream, and the loop is never left.
-/

namespace CortxMio

open Lib

/-! ### The scanner -/

/-- A token of the scanner. -/
inductive YamlToken
  /-- `YAML_KEY_TOKEN`. -/
  | key
  /-- `YAML_VALUE_TOKEN`. -/
  | value
  /-- `YAML_SCALAR_TOKEN`. -/
  | scalar (value : CStr)
  /-- `YAML_BLOCK_MAPPING_START_TOKEN`. -/
  | blockMappingStart
  /-- `YAML_BLOCK_SEQUENCE_START_TOKEN`. -/
  | blockSequenceStart
  /-- `YAML_BLOCK_ENTRY_TOKEN`. -/
  | blockEntry
  /-- `YAML_BLOCK_END_TOKEN`. -/
  | blockEnd
  /-- `YAML_STREAM_END_TOKEN`. -/
  | streamEnd
  /-- Any other, `YAML_NO_TOKEN` among them. -/
  | other
  deriving DecidableEq

/-! ### What is configured -/

/-- `YAML_MAX_VAL_LEN`. -/
abbrev yamlMaxValLen : ℕ := 128

/-- `MIO_CONF_INVALID`. -/
abbrev mioConfInvalid : ℤ := -1

/-- `enum mio_driver_id`. -/
inductive MioDriverId
  /-- `MIO_DRIVER_INVALID`. -/
  | invalid
  /-- `MIO_MOTR`. -/
  | motr
  deriving DecidableEq, Repr

/-- `enum mio_telemetry_store_type`; no text stands for `MIO_TM_ST_INVALID`. -/
inductive MioTelemetryStoreType
  /-- `MIO_TM_ST_NONE`. -/
  | none
  /-- `MIO_TM_ST_LOG`. -/
  | log
  /-- `MIO_TM_ST_ADDB`. -/
  | addb
  deriving DecidableEq, Repr

/-- `MIO_MOTR_DEFAULT_IOSIZE_PER_DEV`. -/
def mioMotrDefaultIosizePerDev : ℕ := 128 * 4096

/-- `struct mio_motr_config`, as far as `mio_conf.c` fills it in by itself. It is
allocated without being cleared: `none` is a field that has not been written. A string
is the memory that it has been copied to. -/
structure MotrConf extends MioMotrConfig where
  /-- `mc_motr_local_addr`. -/
  mcMotrLocalAddr : Option (List Byte)
  /-- `mc_ha_addr`. -/
  mcHaAddr : Option (List Byte)
  /-- `mc_profile`. -/
  mcProfile : Option (List Byte)
  /-- `mc_process_fid`. -/
  mcProcessFid : Option (List Byte)
  /-- `mc_motr_group`. -/
  mcMotrGroup : Option (List Byte)
  /-- `mc_tm_recv_queue_min_len`. -/
  mcTmRecvQueueMinLen : Option ℕ
  /-- `mc_max_rpc_msg_size`. -/
  mcMaxRpcMsgSize : Option ℕ
  /-- `mc_unit_size`. -/
  mcUnitSize : Option ℤ
  /-- `mc_is_oostore`. -/
  mcIsOostore : Option Bool
  /-- `mc_is_read_verify`. -/
  mcIsReadVerify : Option Bool
  deriving DecidableEq

/-- The variables of `mio_conf.c`. -/
structure ConfStatics where
  /-- `conf_which_blk_seq`: whether it is `CONF_BLK_SEQ_MOTR_POOLS`. -/
  confWhichBlkSeq : Bool
  /-- `mio_inst_drv_id`. -/
  mioInstDrvId : MioDriverId
  /-- `mio_inst_telem_store_type`. -/
  mioInstTelemStoreType : MioTelemetryStoreType
  /-- `motr_conf`, and with it `mio_driver_confs[MIO_MOTR]`. -/
  motrConf : Option MotrConf
  /-- `mio_default_pool_name`, an array. -/
  mioDefaultPoolName : List Byte
  /-- `mio_pools`. -/
  mioPools : MioPools
  deriving DecidableEq

/-- The variables when the process starts. -/
def ConfStatics.initial : ConfStatics :=
  ⟨false, .motr, .none, none, List.replicate (mioPoolMaxNameLen + 1) 0, .zeroed⟩

/-- `struct mio`, as far as `mio_conf.c` fills it in; a log level of `none` is
`MIO_LOG_INVALID`. -/
structure MioInst where
  /-- `m_log_level`. -/
  mLogLevel : Option MioLogLevel
  /-- `m_log_dir`. -/
  mLogDir : Option (List Byte)
  /-- `m_telem_prefix`. -/
  mTelemPrefix : Option (List Byte)
  /-- `m_driver_id`. -/
  mDriverId : MioDriverId
  /-- `m_telem_store_type`. -/
  mTelemStoreType : MioTelemetryStoreType
  /-- `m_driver_confs`. -/
  mDriverConfs : Option MotrConf
  deriving DecidableEq

/-- The instance as `mio_init` allocates it. -/
def MioInst.zeroed : MioInst := ⟨some .error, none, none, .motr, .none, none⟩

/-- All that a call of `mio_conf_init` can reach: its local variables, those of the
file, and the instance. -/
structure ConfState extends ConfStatics where
  /-- Whether the next scalar is a key. -/
  isKey : Bool
  /-- The last key, `none` for `MIO_CONF_INVALID`. -/
  key : Option ConfKey
  /-- `mio_instance`. -/
  inst : MioInst
  deriving DecidableEq

/-! ### Values -/

/-- `conf_get_driver_id`. -/
def confGetDriverId (str : CStr) : MioDriverId :=
  if str.bytes = ascii "MOTR" then .motr else .invalid

/-- `conf_get_telem_store_type`. -/
def confGetTelemStoreType (str : CStr) : MioTelemetryStoreType :=
  if str.bytes = ascii "ADDB" then .addb else if str.bytes = ascii "LOG" then .log else .none

/-- `conf_get_log_level`. -/
def confGetLogLevel (str : CStr) : Option MioLogLevel :=
  if str.bytes = ascii "MIO_ERROR" then some .error
  else if str.bytes = ascii "MIO_WARN" then some .warn
  else if str.bytes = ascii "MIO_INFO" then some .info
  else if str.bytes = ascii "MIO_TRACE" then some .trace
  else if str.bytes = ascii "MIO_TELEMETRY" then some .telemetry
  else if str.bytes = ascii "MIO_DEBUG" then some .debug
  else none

/-- `conf_copy_str` of a string as it lies in memory: `len` bytes are allocated, and
`strncpy` fills them. -/
def confCopyStr (src : CStr) (len : ℕ) : List Byte :=
  (src.bytes ++ List.replicate len 0).take len

/-- `conf_extract_pool_type`. -/
def confExtractPoolType (typeStr : CStr) : Option MioPoolType :=
  if typeStr.bytes = ascii "NVM" then some .nvm
  else if typeStr.bytes = ascii "SSD" then some .ssd
  else if typeStr.bytes = ascii "HDD" then some .hdd
  else none

/-- The `sscanf` of `conf_pool_id_sscanf`: what it returns, and the numbers that it
has stored. -/
def poolIdSscanf (s : List Byte) : ℤ × Option UInt64 × Option UInt64 :=
  match scanHex s with
  | .error .input => (-1, none, none)
  | .error .matching => (0, none, none)
  | .ok (u1, rest) =>
      match rest.dropWhile isspace with
      | [] => (1, some u1, none)
      | b :: rest =>
          if b ≠ 58 then (1, some u1, none)
          else match scanHex rest with
            | .error _ => (1, some u1, none)
            | .ok (u2, _) => (2, some u1, some u2)

/-- `conf_pool_id_sscanf`: the local variables hold what the stack held before,
unless a number has been stored there. -/
def confPoolIdSscanf (stack : MioPoolId) (idStr : CStr) : Except ℤ MioPoolId :=
  let (rc, u1, u2) := poolIdSscanf idStr.bytes
  if rc < 0 then .error rc else .ok ⟨u1.getD stack.mpiHi, u2.getD stack.mpiLo⟩

/-- The `uint64_t` that an `int` is converted to. -/
def u64OfInt (x : ℤ) : ℕ := (x % 2 ^ 64).toNat

/-- The `uint32_t` that an `int` is converted to. -/
def u32OfInt (x : ℤ) : ℕ := (x % 2 ^ 32).toNat

/-! ### Entries -/

/-- What a function of the parser does: its return code and the state, unless the
process does not survive it. -/
abbrev ConfResult := Except Fault (ℤ × ConfState)

variable (st : ConfState)

/-- `conf_alloc_driver`. -/
def confAllocDriver (type : ConfType) : ConfState :=
  match type with
  | .mio => st
  | .motr =>
      match st.motrConf with
      | some _ => st
      | none => { st with motrConf := some ⟨⟨mioMotrDefaultIosizePerDev⟩,
          none, none, none, none, none, none, none, none, none, none⟩ }

/-- `conf_extract_key`. -/
def confExtractKey (token : CStr) : ℤ × ConfState :=
  match confTokenToKey token with
  | none => (mioConfInvalid, st)
  | some e => (0, { confAllocDriver st e.type with key := some e.key })

/-- Write to the configuration of the Motr driver. -/
def ConfState.setMotr (f : MotrConf → MotrConf) : ConfResult :=
  match st.motrConf with
  | none => .error .oob
  | some conf => .ok (0, { st with motrConf := some (f conf) })

/-- Write to the last pool in use. -/
def ConfState.setPool (f : MioPool → MioPool) : ConfResult :=
  match st.mioPools.list.getLast? with
  | none => .error .oob
  | some pool => .ok (0, { st with mioPools :=
      { st.mioPools with mpsPools := some (st.mioPools.list.dropLast ++ [f pool]) } })

/-- `conf_extract_value`: a string is longer than `MIO_POOL_MAX_NAME_LEN` if
`strnlen`, with this limit, says so. -/
def confExtractValue (stack : MioPoolId) (key : Option ConfKey) (value : CStr) (vlen : ℕ) :
    ConfResult :=
  let slen := strnlen mioPoolMaxNameLen value.buf
  match key with
  | some .mioDriver =>
      let id := confGetDriverId value
      .ok (if id = .invalid then -EINVAL else 0, { st with mioInstDrvId := id })
  | some .mioTelemetryStore =>
      .ok (0, { st with mioInstTelemStoreType := confGetTelemStoreType value })
  | some .mioTelemetryPrefix =>
      .ok (0, { st with inst := { st.inst with mTelemPrefix := some (confCopyStr value vlen) } })
  | some .mioLogLevel =>
      let level := confGetLogLevel value
      .ok (if level = none then -EINVAL else 0,
        { st with inst := { st.inst with mLogLevel := level } })
  | some .mioLogDir =>
      .ok (0, { st with inst := { st.inst with mLogDir := some (confCopyStr value vlen) } })
  | some .motrInstAddr =>
      st.setMotr fun c => { c with mcMotrLocalAddr := some (confCopyStr value vlen) }
  | some .motrHaAddr => st.setMotr fun c => { c with mcHaAddr := some (confCopyStr value vlen) }
  | some .motrProfile => st.setMotr fun c => { c with mcProfile := some (confCopyStr value vlen) }
  | some .motrProcessFid =>
      st.setMotr fun c => { c with mcProcessFid := some (confCopyStr value vlen) }
  | some .motrTmRecvQueueMinLen =>
      st.setMotr fun c => { c with mcTmRecvQueueMinLen := some (u32OfInt (atoi value.bytes)) }
  | some .motrMaxRpcMsgSize =>
      st.setMotr fun c => { c with mcMaxRpcMsgSize := some (u32OfInt (atoi value.bytes)) }
  | some .motrMaxIosizePerDev =>
      st.setMotr fun c => { c with mcMaxIosizePerDev := u64OfInt (atoi value.bytes) }
  | some .motrDefaultUnitSize =>
      st.setMotr fun c => { c with mcUnitSize := some (atoi value.bytes) }
  | some .motrIsOostore =>
      st.setMotr fun c => { c with mcIsOostore := some (atoi value.bytes != 0) }
  | some .motrIsReadVerify =>
      st.setMotr fun c => { c with mcIsReadVerify := some (atoi value.bytes != 0) }
  | some .motrUserGroup =>
      st.setMotr fun c => { c with mcMotrGroup := some (confCopyStr value vlen) }
  | some .motrPoolDefault =>
      if slen > mioPoolMaxNameLen then .ok (-EINVAL, st)
      else .ok (0, { st with
        mioDefaultPoolName := putAt 0 (value.buf.take (slen + 1)) st.mioDefaultPoolName })
  | some .motrPoolName =>
      if slen > mioPoolMaxNameLen then .ok (-EINVAL, st)
      else st.setPool fun p => { p with mpName := putAt 0 (value.buf.take (slen + 1)) p.mpName }
  | some .motrPoolId =>
      match confPoolIdSscanf stack value with
      | .error rc => .ok (rc, st)
      | .ok id => st.setPool fun p => { p with mpId := id }
  | some .motrPoolType =>
      match confExtractPoolType value with
      | none => .ok (-EINVAL, st)
      | some type => st.setPool fun p => { p with mpType := type }
  | some .mioConfig | some .motrConfig | some .motrPools | none => .ok (0, st)

/-- `conf_extract_blk_seq`, with `conf_alloc_mio_pools`. -/
def confExtractBlkSeq (key : Option ConfKey) : ℤ × ConfState :=
  match key with
  | some .motrPools =>
      (0, { st with
        confWhichBlkSeq := true
        mioPools := { MioPools.zeroed with mpsPools := some [] } })
  | _ => (0, st)

/-- `conf_start_block`. -/
def confStartBlock : ConfResult :=
  if st.confWhichBlkSeq then
    if st.mioPools.mpsNrPools + 1 = mioMotrMaxPoolCnt then .ok (-E2BIG, st)
    else match st.mioPools.mpsPools with
      | none => .error .oob
      | some pools => .ok (0, { st with mioPools :=
          { st.mioPools with mpsPools := some (pools ++ [.zeroed]) } })
  else .ok (0, st)

/-! ### The file -/

/-- One turn of the loop of `mio_conf_init`, on any token but the last. -/
def confToken (stack : MioPoolId) : YamlToken → ConfResult
  | .key => .ok (0, { st with isKey := true })
  | .value => .ok (0, { st with isKey := false })
  | .scalar s =>
      if st.isKey then .ok (confExtractKey st s)
      else confExtractValue st stack st.key s (strnlen yamlMaxValLen s.buf)
  | .blockSequenceStart => .ok (confExtractBlkSeq st st.key)
  | .blockEntry => confStartBlock st
  | .blockMappingStart | .blockEnd | .streamEnd | .other => .ok (0, st)

/-- The loop of `mio_conf_init`; `stack i` is what the stack holds at the `i`-th
token. -/
def confScan : (stack : ℕ → MioPoolId) → List YamlToken → ConfState → ConfResult
  | _, [], _ => .error .diverge
  | stack, tok :: toks, st =>
      if tok = .streamEnd then .ok (0, st)
      else do
        let (rc, st) ← confToken st (stack 0) tok
        if rc < 0 then .ok (rc, st) else confScan (fun i => stack (i + 1)) toks st

/-- `mio_default_pool_null_str`. -/
def mioDefaultPoolNullStr : CStr := ⟨ascii "MIO_DEFAULT_POOL_NULL", by decide⟩

/-- `mio_conf_default_pool_has_set`: comparing strings may lead beyond the end of
the array. -/
def mioConfDefaultPoolHasSet (name : List Byte) : Except Fault Bool :=
  match strEq name mioDefaultPoolNullStr.buf with
  | none => .error .oob
  | some eq => .ok !eq

/-- The search for the default pool: its index, or the number of pools. -/
def findDefaultPool (name : List Byte) : ℕ → List MioPool → Except Fault ℕ
  | i, [] => .ok i
  | i, pool :: pools =>
      match strEq pool.mpName name with
      | none => .error .oob
      | some true => .ok i
      | some false => findDefaultPool name (i + 1) pools

/-- The last part of `mio_conf_init`: the driver, and the default pool. -/
def confFinish : ConfResult := do
  if st.mioInstDrvId = .invalid then .error .oob
  else
    let st := { st with inst := { st.inst with
      mDriverId := st.mioInstDrvId
      mTelemStoreType := st.mioInstTelemStoreType
      mDriverConfs := st.motrConf } }
    let hasSet ← mioConfDefaultPoolHasSet st.mioDefaultPoolName
    if hasSet then
      let i ← findDefaultPool st.mioDefaultPoolName 0 st.mioPools.list
      match st.mioPools.list[i]? with
      | none => .ok (-EINVAL, st)
      | some pool => .ok (0, { st with mioPools :=
          { st.mioPools with mpsDefaultPoolIdx := i, mpsDefaultPoolName := pool.mpName } })
    else .ok (0, st)

/-- The state in which `mio_conf_init` comes to the first token. -/
def ConfStatics.start (statics : ConfStatics) : ConfState where
  toConfStatics := { statics with
    mioDefaultPoolName := putAt 0 mioDefaultPoolNullStr.buf statics.mioDefaultPoolName }
  isKey := true
  key := none
  inst := .zeroed

/-- `mio_conf_init` on a file that can be opened: the return code, the variables, and
the instance. -/
def mioConfInit (statics : ConfStatics) (stack : ℕ → MioPoolId) (toks : List YamlToken) :
    Except Fault (ℤ × ConfStatics × MioInst) := do
  let (rc, st) ← confScan stack toks statics.start
  if rc < 0 then .ok (rc, { st.toConfStatics with motrConf := none }, st.inst)
  else
    let (rc, st) ← confFinish st
    .ok (rc, st.toConfStatics, st.inst)

end CortxMio
