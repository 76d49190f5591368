import CortxMio.Conf.SelfContained
import CortxMio.Lib.Run

/-!
# What earlier calls leave behind

The configuration is kept in variables of the process, and no call clears all of them.
`mio_conf_fini` frees the pools and the configuration of the driver, but leaves behind
that a list of pools has begun, the driver, and the store for telemetry. A file that
is turned down leaves its pools as well.

Which of this is left behind, and so what a file finds, is a matter of all the calls that
have been made (`CortxMio.History`). For most of the variables there are calls that
leave a value a new process does not have: memory that is freed behind a list that has
begun (`CortxMio.exists_freed`), a driver that is none (`CortxMio.exists_invalid`), a
store (`CortxMio.exists_addb`), a pool with any name one likes (`CortxMio.exists_pool`).
So the outcome is a matter of the file alone just if the file itself sets all of them
(`CortxMio.historyFree_iff`).
-/

namespace CortxMio

open Lib

/-! ### Calls -/

/-- `mio_instance`, as far as `mio_fini` looks at it. -/
inductive MioInstance
  /-- `NULL`. -/
  | null
  /-- It is in use. -/
  | live
  /-- It has been freed by `mio_fini`, but the pointer is still there. -/
  | freed
  deriving DecidableEq

/-- What a process keeps from one call to the next. -/
structure MioProcess where
  /-- The variables of `mio_conf.c`. -/
  statics : ConfStatics
  /-- The instance. -/
  inst : MioInstance

/-- A new process. -/
def MioProcess.initial : MioProcess := ⟨.initial, .null⟩

/-- A call. -/
inductive MioCall
  /-- `mio_init`: the tokens of the file, if it can be opened, what the stack holds, and what
  the other sub-systems return, which are initialised after the configuration. -/
  | init (file : Option (List YamlToken)) (stack : ℕ → MioPoolId) (later : ℤ)
  /-- `mio_fini`. -/
  | fini

/-- `mio_conf_fini`. -/
def ConfStatics.mioConfFini (statics : ConfStatics) : ConfStatics :=
  { statics with motrConf := none, mioPools := .zeroed }

/-- `mio_init`: nothing, if the process does not survive it. -/
def MioProcess.mioInit (p : MioProcess) (file : Option (List YamlToken))
    (stack : ℕ → MioPoolId) (later : ℤ) : Option MioProcess :=
  match file with
  | none => some ⟨p.statics.start.toConfStatics, .null⟩
  | some toks =>
      match mioConfInit p.statics stack toks with
      | .error _ => none
      | .ok (rc, statics, _) =>
          if rc < 0 then some ⟨statics, .null⟩
          else if later < 0 then some ⟨statics.mioConfFini, .null⟩
          else some ⟨statics, .live⟩

/-- `mio_fini`: the driver of an instance that has been freed cannot be asked for. -/
def MioProcess.mioFini (p : MioProcess) : Option MioProcess :=
  match p.inst with
  | .null => some p
  | .live => some ⟨p.statics.mioConfFini, .freed⟩
  | .freed => none

/-- One call. -/
def MioProcess.call (p : MioProcess) : MioCall → Option MioProcess
  | .init file stack later => p.mioInit file stack later
  | .fini => p.mioFini

/-- A history of calls in a process. -/
abbrev History : List MioCall → MioProcess → Prop :=
  Run (fun p c q => MioProcess.call p c = some q) MioProcess.initial

/-- **The outcome is a matter of the file alone**: it is the same in any two processes,
and none of them reaches beyond an array on the way to it. -/
structure HistoryFree (toks : List YamlToken) : Prop where
  /-- The same outcome. -/
  same : ∀ calls₁ p₁ calls₂ p₂, History calls₁ p₁ → History calls₂ p₂ → ∀ stack₁ stack₂,
    confOutcome p₁.statics stack₁ toks = confOutcome p₂.statics stack₂ toks
  /-- It is one. -/
  survives : ∀ calls p, History calls p → ∀ stack, confOutcome p.statics stack toks ≠ .error .oob

variable {st₁ st₂ : ConfState} {rc : ℤ}

/-! ### Histories -/

/-- `mio_conf_fini` leaves the variables sound. -/
theorem sound_mioConfFini {statics : ConfStatics} (h : statics.Sound) :
    statics.mioConfFini.Sound :=
  ⟨Nat.zero_lt_succ 15, fun mem hmem => (by cases hmem), h.default, readBack_replicate⟩

/-- **One call** leaves the variables sound. -/
theorem sound_call {p q : MioProcess} {c : MioCall} (h : p.statics.Sound)
    (hcall : p.call c = some q) : q.statics.Sound := by
  cases c with
  | init file stack later =>
    rw [MioProcess.call, MioProcess.mioInit.eq_def] at hcall
    split at hcall
    · obtain rfl := Option.some.inj hcall
      exact sound_start h
    · split at hcall
      · cases hcall
      · next rc statics inst hinit =>
        have hstatics := sound_mioConfInit h hinit
        split at hcall
        · obtain rfl := Option.some.inj hcall
          exact hstatics
        · split at hcall
          · obtain rfl := Option.some.inj hcall
            exact sound_mioConfFini hstatics
          · obtain rfl := Option.some.inj hcall
            exact hstatics
  | fini =>
    rw [MioProcess.call, MioProcess.mioFini.eq_def] at hcall
    split at hcall
    · obtain rfl := Option.some.inj hcall
      exact h
    · obtain rfl := Option.some.inj hcall
      exact sound_mioConfFini h
    · cases hcall

/-- **Every history** leaves the variables sound. -/
theorem sound_of_history {calls : List MioCall} {p : MioProcess} (h : History calls p) :
    p.statics.Sound :=
  h.inv (fun _ p => p.statics.Sound) sound_initial fun _ _ _ _ hp hcall => sound_call hp hcall

/-! ### What may be left behind -/

/-- Calls that can be made are a history. -/
theorem history_of_foldlM {calls : List MioCall} {p : MioProcess}
    (h : calls.foldlM MioProcess.call MioProcess.initial = some p) : History calls p := by
  induction calls using List.reverseRecOn generalizing p with
  | nil =>
    obtain rfl := Option.some.inj h
    exact .refl
  | append_singleton calls c ih =>
    rw [List.foldlM_append] at h
    obtain ⟨q, hq, hlast⟩ := Option.bind_eq_some_iff.mp h
    obtain ⟨r, hr, hnil⟩ := Option.bind_eq_some_iff.mp hlast
    obtain rfl := Option.some.inj hnil
    exact (ih hq).snoc hr

theorem exists_history {α : Type} {calls : List MioCall} {f : MioProcess → α} {a : α}
    (h : (calls.foldlM MioProcess.call MioProcess.initial).map f = some a) :
    ∃ p, History calls p ∧ f p = a := by
  obtain ⟨p, hp, hf⟩ := Option.map_eq_some_iff.mp h
  exact ⟨p, history_of_foldlM hp, hf⟩

/-- The addresses of a driver. -/
def addrToks : List YamlToken :=
  [.blockMappingStart,
    .key, .scalar (literal "MOTR_INST_ADDR"), .value, .scalar (literal "a"),
    .key, .scalar (literal "MOTR_HA_ADDR"), .value, .scalar (literal "a"),
    .key, .scalar (literal "MOTR_PROFILE"), .value, .scalar (literal "a"),
    .key, .scalar (literal "MOTR_PROCESS_FID"), .value, .scalar (literal "a")]

/-- A list of one pool with a name. -/
def poolToks (name : CStr) : List YamlToken :=
  [.key, .scalar (literal "MOTR_POOLS"), .value, .blockSequenceStart, .blockEntry,
    .blockMappingStart, .key, .scalar (literal "MOTR_POOL_NAME"), .value, .scalar name,
    .blockEnd, .blockEnd]

/-- A value of a key of the library, and a key that is none. -/
def brokenToks (key value : CStr) : List YamlToken :=
  [.blockMappingStart, .key, .scalar key, .value, .scalar value, .key,
    .scalar (literal "NOT_A_KEY")]

/-- A driver and a list of one pool, with what is said of it. -/
def fileToks (more : List YamlToken) : List YamlToken :=
  addrToks ++ [.key, .scalar (literal "MIO_DRIVER"), .value,
    .scalar (literal "MOTR")] ++ more ++ poolToks (literal "p0") ++
      [.blockEnd, .streamEnd]

/-- A store for telemetry. -/
def telemToks : List YamlToken :=
  [.key, .scalar (literal "MIO_TELEMETRY_STORE"), .value,
    .scalar (literal "LOG")]

/-- A list of pools has begun, and its memory is freed. -/
theorem exists_freed : ∃ calls p, History calls p ∧ p.statics.confWhichBlkSeq = true ∧
    p.statics.mioPools.mpsPools = none := by
  have hfini : ([.init (some (addrToks ++ poolToks (literal "p0") ++
      [.blockEnd, .streamEnd])) zeroStack 0, .fini].foldlM MioProcess.call
        MioProcess.initial).map (fun p => (p.statics.confWhichBlkSeq,
          p.statics.mioPools.mpsPools)) = some (true, none) := by decide +kernel
  obtain ⟨p, hp, hboth⟩ := exists_history hfini
  obtain ⟨hwhich, hpools⟩ := Prod.mk.inj hboth
  exact ⟨_, p, hp, hwhich, hpools⟩

/-- The driver is none. -/
theorem exists_invalid : ∃ calls p, History calls p ∧ p.statics.mioInstDrvId = .invalid := by
  have hbroken : ([.init (some (brokenToks (literal "MIO_DRIVER")
      (literal "CEPH"))) zeroStack 0].foldlM MioProcess.call
        MioProcess.initial).map (fun p => p.statics.mioInstDrvId) = some .invalid := by
    decide +kernel
  obtain ⟨p, hp, hdrv⟩ := exists_history hbroken
  exact ⟨_, p, hp, hdrv⟩

/-- The store for telemetry is not the one of a new process. -/
theorem exists_addb : ∃ calls p, History calls p ∧ p.statics.mioInstTelemStoreType = .addb := by
  have hbroken : ([.init (some (brokenToks (literal "MIO_TELEMETRY_STORE")
      (literal "ADDB"))) zeroStack 0].foldlM MioProcess.call
        MioProcess.initial).map (fun p => p.statics.mioInstTelemStoreType) = some .addb := by
    decide +kernel
  obtain ⟨p, hp, htelem⟩ := exists_history hbroken
  exact ⟨_, p, hp, htelem⟩

/-- A file up to the name of a pool. -/
def toName : List YamlToken := addrToks ++ (poolToks (literal "")).take 9

/-- The rest of a file that is turned down behind its list of pools. -/
def brokenRest : List YamlToken :=
  [.blockEnd, .blockEnd, .key, .scalar (literal "NOT_A_KEY")]

theorem confScan_brokenRest (stack : ℕ → MioPoolId) (st : ConfState) :
    ∃ st', confScan stack brokenRest st = .ok (mioConfInvalid, st') ∧
      st'.mioPools = st.mioPools := by
  have hnone : confTokenToKey (literal "NOT_A_KEY") = none := by decide +kernel
  refine ⟨{ st with isKey := true }, ?_, rfl⟩
  simp [brokenRest, confScan, confToken, confExtractKey, hnone, ok_bind]

/-- **There is a pool with any name.** -/
theorem exists_pool (name : CStr) : ∃ calls p pool, History calls p ∧
    p.statics.mioPools.list = [pool] ∧ nameBytes name <+: pool.mpName := by
  have hbefore : (confAfter zeroStack toName ConfStatics.initial.start).map
      (fun st => (st.isKey, st.key, st.mioPools.list)) =
        some (false, some .motrPoolName, [.zeroed]) := by decide +kernel
  obtain ⟨st, hafter, hst⟩ := Option.map_eq_some_iff.mp hbefore
  obtain ⟨hisKey, hst⟩ := Prod.mk.inj hst
  obtain ⟨hkey, hlist⟩ := Prod.mk.inj hst
  have hname := setPool_of_list (show st.mioPools.list = [] ++ [MioPool.zeroed] from hlist)
    fun p => { p with mpName := putAt 0 (nameBytes name) p.mpName }
  have hafter' := confAfter_concat.mpr ⟨st, 0, hafter, (by simp : YamlToken.scalar name ≠ _), by
    rw [confToken, hisKey, if_neg (by decide), hkey, confExtractValue_poolName, hname], by decide⟩
  obtain ⟨st', hrest, hpools⟩ := confScan_brokenRest _ _
  have hscan := (confScan_append hafter' brokenRest).trans hrest
  refine ⟨[.init (some (toName ++ [.scalar name] ++ brokenRest)) zeroStack 0],
    ⟨{ st'.toConfStatics with motrConf := none }, .null⟩,
    { MioPool.zeroed with mpName := putAt 0 (nameBytes name) MioPool.zeroed.mpName },
    Run.refl.snoc ?_, ?_, prefix_putAt List.nil_prefix rfl _⟩
  · rw [MioProcess.call, MioProcess.mioInit.eq_def]
    have hinit : mioConfInit MioProcess.initial.statics zeroStack
        (toName ++ [.scalar name] ++ brokenRest) =
          .ok (mioConfInvalid, { st'.toConfStatics with motrConf := none }, st'.inst) := by
      rw [mioConfInit, show MioProcess.initial.statics = .initial from rfl, hscan, ok_bind]
      exact if_pos (by decide)
    simp only [hinit]
    exact if_pos (by decide)
  · show st'.mioPools.list = _
    rw [hpools]
    rfl

/-! ### What is asked of a file -/

theorem confOutcome_oob {statics : ConfStatics} {stack : ℕ → MioPoolId}
    {toks pre : List YamlToken} {tok : YamlToken} {st : ConfState} (hpre : pre ++ [tok] <+: toks)
    (h : confAfter stack pre statics.start = some st) (htok : tok ≠ .streamEnd)
    (hoob : confToken st (stack pre.length) tok = .error .oob) :
    confOutcome statics stack toks = .error .oob := by
  obtain ⟨post, rfl⟩ := hpre
  rw [List.append_assoc, List.singleton_append]
  exact confOutcome_of_error (confScan_stop h htok hoob fun _ _ hc => by cases hc)

/-- **Until the list of pools begins** the pools are what they were: a list has begun and
its memory is freed. -/
theorem poolTrack_freed {statics : ConfStatics} (hwhich : statics.confWhichBlkSeq = true)
    (hnone : statics.mioPools.mpsPools = none) (toks : List YamlToken) :
    (poolTrack statics toks).isKey = (poolTrack .initial toks).isKey ∧
      (poolTrack statics toks).key = (poolTrack .initial toks).key ∧
        ((poolTrack .initial toks).started = false → (poolTrack statics toks).started = true ∧
          (poolTrack statics toks).allocated = false) := by
  induction toks using List.reverseRecOn with
  | nil => exact ⟨rfl, rfl, fun _ => ⟨hwhich, congrArg Option.isSome hnone⟩⟩
  | append_singleton toks tok ih =>
    obtain ⟨hisKey, hkey, hfreed⟩ := ih
    rw [poolTrack, poolTrack, List.foldl_concat, List.foldl_concat, ← poolTrack, ← poolTrack]
    cases tok with
    | key | value => exact ⟨rfl, hkey, hfreed⟩
    | blockMappingStart | blockEnd | streamEnd | other => exact ⟨hisKey, hkey, hfreed⟩
    | blockSequenceStart =>
      rw [PoolTrack.token, PoolTrack.token, hkey]
      split
      · exact ⟨hisKey, rfl, fun hc => by cases hc⟩
      · exact ⟨hisKey, rfl, hfreed⟩
    | blockEntry =>
      obtain ⟨hisKey₁, hkey₁, hstarted₁, -⟩ := token_blockEntry (poolTrack .initial toks)
      obtain ⟨hisKey₂, hkey₂, hstarted₂, hallocated₂⟩ := token_blockEntry (poolTrack statics toks)
      rw [hisKey₁, hkey₁, hstarted₁, hisKey₂, hkey₂, hstarted₂, hallocated₂]
      exact ⟨hisKey, hkey, hfreed⟩
    | scalar s =>
      rw [PoolTrack.token, PoolTrack.token, hisKey]
      split
      · split
        · exact ⟨hisKey, hkey, hfreed⟩
        · exact ⟨rfl, rfl, hfreed⟩
      · exact ⟨hisKey, hkey, hfreed⟩

/-- **An entry before the list of pools** is not survived behind `mio_conf_fini`. -/
theorem started_of_historyFree {toks pre : List YamlToken} {st : ConfState}
    (h : HistoryFree toks) (hpre : pre ++ [.blockEntry] <+: toks) (hentry : NoEntryBefore pre)
    (hafter : confAfter zeroStack pre ConfStatics.initial.start = some st) :
    (poolTrack .initial pre).started = true := by
  obtain ⟨calls, p, hp, hwhich, hnone⟩ := exists_freed
  have hsound := sound_of_history hp
  obtain ⟨st₂, hafter₂, -⟩ := sameFile_confAfter hsound (K := fun _ => True) zeroStack
    (fun _ => trivial) hentry List.prefix_rfl hafter
  by_contra hstarted
  obtain ⟨-, -, hfreed⟩ := poolTrack_freed hwhich hnone pre
  obtain ⟨hstarted₂, hallocated⟩ := hfreed (Bool.eq_false_iff.mpr hstarted)
  have hagrees := poolTrack_agrees hsound.nrPools hafter₂
  have hpools : st₂.mioPools.mpsPools = none := by
    rw [← Option.not_isSome_iff_eq_none, ← hagrees.allocated, hallocated]
    simp
  have hfull : st₂.mioPools.mpsNrPools + 1 ≠ mioMotrMaxPoolCnt := by
    rw [MioPools.mpsNrPools, MioPools.list, hpools]
    decide
  have htouch : confTouch st₂ .blockEntry =
      some ((st₂.mioPools.mpsNrPools : ℤ), st₂.mioPools.mpsNrPools + 1) :=
    if_pos ⟨hagrees.started.symm.trans hstarted₂, hfull⟩
  have hoob := (confToken_oob_iff htouch (zeroStack pre.length)).mpr (.inl hpools)
  exact h.survives calls p hp zeroStack (confOutcome_oob hpre hafter₂ (by simp) hoob)

/-- **Something said of a pool before there is one** is not survived in a new process. -/
theorem entries_of_historyFree {toks pre : List YamlToken} {s : CStr} {st : ConfState}
    (h : HistoryFree toks) (hpre : pre ++ [.scalar s] <+: toks)
    (hafter : confAfter zeroStack pre ConfStatics.initial.start = some st)
    (hisKey : (poolTrack .initial pre).isKey = false)
    (hstored : storedInPool (poolTrack .initial pre).key s = true) :
    0 < (poolTrack .initial pre).own + (poolTrack .initial pre).others := by
  have hagrees := poolTrack_agrees sound_initial.nrPools hafter
  by_contra hzero
  rw [hagrees.entries] at hzero
  have htouch : confTouch st (.scalar s) =
      some ((st.mioPools.mpsNrPools : ℤ) - 1, st.mioPools.mpsNrPools) :=
    if_pos ⟨hagrees.isKey.symm.trans hisKey, hagrees.key ▸ hstored⟩
  have hoob := (confToken_oob_iff htouch (zeroStack pre.length)).mpr (.inr (by omega))
  exact h.survives [] .initial .refl zeroStack (confOutcome_oob hpre hafter (by simp) hoob)

/-- **Before the list of pools** there is nothing about pools, token by token. -/
theorem nothingBefore_of_historyFree {toks : List YamlToken} (h : HistoryFree toks)
    {pre : List YamlToken} (hpre : pre <+: toks) : NoEntryBefore pre ∧ NoValueBefore pre := by
  induction pre using List.reverseRecOn with
  | nil =>
    constructor
    · exact fun pre hpre => absurd (List.prefix_nil.mp hpre) (by simp)
    · exact fun pre s hpre => absurd (List.prefix_nil.mp hpre) (by simp)
  | append_singleton pre tok ih =>
    obtain ⟨hentry, hvalue⟩ := ih ((List.prefix_append _ _).trans hpre)
    constructor
    · intro pre' hpre' hreached
      rcases prefix_concat hpre' with ⟨rfl, rfl⟩ | hpre'
      · obtain ⟨st, hafter⟩ := confAfter_of_reached hentry hvalue List.prefix_rfl hreached
        exact started_of_historyFree h hpre hentry hafter
      · exact hentry pre' hpre' hreached
    · intro pre' s hpre' hreached
      rcases prefix_concat hpre' with ⟨rfl, rfl⟩ | hpre'
      · obtain ⟨st, hafter⟩ := confAfter_of_reached hentry hvalue List.prefix_rfl hreached
        exact entries_of_historyFree h hpre hafter
      · exact hvalue pre' s hpre' hreached

theorem noEntryBefore_of_historyFree {toks : List YamlToken} (h : HistoryFree toks) :
    NoEntryBefore toks := (nothingBefore_of_historyFree h List.prefix_rfl).1

theorem noValueBefore_of_historyFree {toks : List YamlToken} (h : HistoryFree toks) :
    NoValueBefore toks := (nothingBefore_of_historyFree h List.prefix_rfl).2

/-- A file that is read to its end is so in a new process. -/
theorem exists_of_readToEnd {toks : List YamlToken} (h : HistoryFree toks)
    (hend : ReadToEnd toks) :
    ∃ st, confScan zeroStack toks ConfStatics.initial.start = .ok (0, st) :=
  confScan_of_readToEnd (noEntryBefore_of_historyFree h) (noValueBefore_of_historyFree h) hend

/-- **Without a driver** a call is not survived behind one that has been none. -/
theorem driver_of_historyFree {toks : List YamlToken} (h : HistoryFree toks)
    (hend : ReadToEnd toks) : (lastText .mioDriver true none none toks).isSome := by
  obtain ⟨calls, p, hp, hinvalid⟩ := exists_invalid
  obtain ⟨st₁, hscan₁⟩ := exists_of_readToEnd h hend
  obtain ⟨st₂, hscan₂, -⟩ := sameFile_confScan (sound_of_history hp) (K := fun _ => True) zeroStack
    (fun _ => trivial) (noEntryBefore_of_historyFree h) hscan₁
  by_contra hnone
  have hdriver := driverIs_of_confScan hscan₂ (by decide)
  have hdrv : st₂.mioInstDrvId = .invalid := by
    by_contra hc
    rcases hdriver.mp hc with hold | hsome
    · exact hold hinvalid
    · exact hnone hsome
  refine h.survives calls p hp zeroStack ?_
  rw [confOutcome_of_end hscan₂, confFinish, if_pos hdrv]
  rfl

/-- **Names that begin alike** are not survived in a new process. -/
theorem names_of_historyFree {toks : List YamlToken} (h : HistoryFree toks)
    (hend : ReadToEnd toks) : ¬ Overrun toks := by
  obtain ⟨st, hscan⟩ := exists_of_readToEnd h hend
  intro hover
  have hdrv := (driverIs_of_confScan hscan (by decide)).mpr (.inr (driver_of_historyFree h hend))
  obtain ⟨fault, hfinish⟩ := (confFinish_error_iff hscan hdrv).mpr hover
  refine h.survives [] .initial .refl zeroStack ?_
  show confOutcome .initial zeroStack toks = _
  rw [confOutcome_of_end hscan, hfinish, (confFinish_error_cases hfinish).1]
  rfl

/-- Values leave the pools alone that are not stored in one. -/
theorem mioPools_confExtractValue {st st' : ConfState} {stack : MioPoolId}
    {key : Option ConfKey} {value : CStr} {vlen : ℕ}
    (h : confExtractValue st stack key value vlen = .ok (rc, st'))
    (hstored : ¬ storedInPool key value = true) : st'.mioPools = st.mioPools := by
  rw [confExtractValue.eq_def] at h
  dsimp only at h
  split at h
  case h_17 =>
    split at h
    all_goals
      obtain ⟨-, rfl⟩ := Prod.mk.inj (Except.ok.inj h)
      rfl
  case h_18 => exact absurd (decide_eq_true (strnlen_le _ _)) hstored
  case h_19 =>
    rw [confPoolIdSscanf_eq, if_pos] at h
    · obtain ⟨-, rfl⟩ := Prod.mk.inj (Except.ok.inj h)
      rfl
    · by_contra hc
      exact hstored (decide_eq_true (not_lt.mp hc))
  case h_20 =>
    split at h
    · obtain ⟨-, rfl⟩ := Prod.mk.inj (Except.ok.inj h)
      rfl
    · next htype => exact absurd (Option.isSome_iff_exists.mpr ⟨_, htype⟩) hstored
  all_goals first
    | obtain ⟨-, rfl⟩ := Prod.mk.inj (Except.ok.inj h)
      rfl
    | obtain ⟨conf, -, rfl⟩ := exists_of_setMotr h
      rfl

/-- **One token** leaves the pools alone, unless it is about pools. -/
theorem mioPools_confToken {st st' : ConfState} {stack : MioPoolId} {tok : YamlToken}
    (h : confToken st stack tok = .ok (rc, st')) (hentry : tok ≠ .blockEntry)
    (hseq : tok = .blockSequenceStart → st.key ≠ some .motrPools)
    (hstored : ∀ s, tok = .scalar s → st.isKey = false → ¬ storedInPool st.key s = true) :
    st'.mioPools = st.mioPools := by
  cases tok with
  | key | value | blockMappingStart | blockEnd | streamEnd | other =>
    obtain ⟨-, rfl⟩ := Prod.mk.inj (Except.ok.inj h)
    rfl
  | blockEntry => exact absurd rfl hentry
  | blockSequenceStart =>
    rw [confToken, confExtractBlkSeq.eq_def] at h
    simp only at h
    split at h
    · next hkey => exact absurd hkey (hseq rfl)
    · obtain ⟨-, rfl⟩ := Prod.mk.inj (Except.ok.inj h)
      rfl
  | scalar s =>
    rw [confToken] at h
    split at h
    · rw [confExtractKey] at h
      split at h
      · obtain ⟨-, rfl⟩ := Prod.mk.inj (Except.ok.inj h)
        rfl
      · next e he =>
        obtain ⟨-, rfl⟩ := Prod.mk.inj (Except.ok.inj h)
        obtain ⟨conf, hconf⟩ := exists_confAllocDriver st e.type
        rw [hconf]
    · next hisKey =>
      exact mioPools_confExtractValue h (hstored s rfl (Bool.eq_false_iff.mpr hisKey))

/-- Once it has begun, the list of pools has begun. -/
theorem started_token {t : PoolTrack} {tok : YamlToken} (h : (t.token tok).started = false) :
    t.started = false ∧ (tok = .blockSequenceStart → t.key ≠ some .motrPools) := by
  by_cases htok : tok = .blockSequenceStart
  · subst htok
    rw [PoolTrack.token] at h
    split at h
    · cases h
    · next hkey => exact ⟨h, fun _ => hkey⟩
  · exact ⟨(started_token_eq htok).symm.trans h, fun hc => absurd hc htok⟩

/-- **Until the list of pools begins** a file leaves the pools alone. -/
theorem mioPools_of_confAfter {toks : List YamlToken} (h : HistoryFree toks)
    {statics : ConfStatics} (hsound : statics.Sound) {pre : List YamlToken} (hpre : pre <+: toks)
    (hafter : confAfter zeroStack pre ConfStatics.initial.start = some st₁)
    (hstarted : (poolTrack .initial pre).started = false) :
    ∃ st₂, confAfter zeroStack pre statics.start = some st₂ ∧ SameFile st₁ st₂ ∧
      st₂.mioPools = statics.mioPools := by
  refine confAfter_inv (I := fun pre st₁ => (poolTrack .initial pre).started = false →
    ∃ st₂, confAfter zeroStack pre statics.start = some st₂ ∧ SameFile st₁ st₂ ∧
      st₂.mioPools = statics.mioPools) ?_ ?_ hpre hafter hstarted
  · exact fun _ => ⟨statics.start, rfl, sameFile_start hsound, rfl⟩
  · intro pre post tok st₁ st₁' rc htoks htok hafter ih hok hrc hstarted'
    rw [poolTrack, List.foldl_concat, ← poolTrack] at hstarted'
    obtain ⟨hstarted, hseq⟩ := started_token hstarted'
    obtain ⟨st₂, hafter₂, hsame, hpools⟩ := ih hstarted
    have hagrees := poolTrack_agrees sound_initial.nrPools hafter
    have hwhich : st₁.confWhichBlkSeq = false := hagrees.started.symm.trans hstarted
    have hentry : tok ≠ .blockEntry := by
      rintro rfl
      have hc := noEntryBefore_of_historyFree h pre (prefix_of_eq_append htoks)
        (reached_of_confAfter hafter)
      rw [hstarted] at hc
      cases hc
    obtain ⟨st₂', hok₂, hsame'⟩ := sameFile_confToken (zeroStack pre.length) hsame
      (fun hc => absurd hc hentry) hok
    refine ⟨st₂', confAfter_concat.mpr ⟨st₂, rc, hafter₂, htok, hok₂, hrc⟩, hsame', ?_⟩
    rw [← hpools]
    refine mioPools_confToken hok₂ hentry (fun hc => ?_) fun s hs hisKey hstored => ?_
    · rw [hsame.key, ← hagrees.key]
      exact hseq hc
    · subst hs
      -- a pool there would have to be, and there is none in a new process
      have hpos := entries_of_historyFree h (prefix_of_eq_append htoks) hafter
        (hagrees.isKey.trans (hsame.isKey.symm.trans hisKey))
        (by rwa [hagrees.key, ← hsame.key])
      rw [hagrees.entries, MioPools.mpsNrPools, MioPools.list, hsame.fresh hwhich] at hpos
      exact absurd hpos (by simp)

/-- The only pool is the default pool, if its name is not another one. -/
theorem rc_confFinish_of_single {st st' : ConfState} {pool : MioPool}
    (hlist : st.mioPools.list = [pool])
    (hname : strEq pool.mpName st.mioDefaultPoolName ≠ some false)
    (h : confFinish st = .ok (rc, st')) : rc = 0 := by
  obtain ⟨-, hasSet, -, hcases⟩ := confFinish_cases h
  rcases hcases with ⟨-, hrc, -⟩ | ⟨-, i, hfind, ⟨hnone, -, -⟩ | ⟨-, -, hrc, -⟩⟩
  · exact hrc
  · rw [hlist, findDefaultPool] at hfind
    split at hfind
    · cases hfind
    · obtain rfl := Except.ok.inj hfind
      rw [hlist] at hnone
      cases hnone
    · next hne => exact absurd hne hname
  · exact hrc

/-- A name in full, or as much of it as fits. -/
theorem zero_mem_or_length_nameBytes (s : CStr) :
    0 ∈ nameBytes s ∨ (nameBytes s).length = mioPoolMaxNameLen + 1 := by
  by_cases hs : s.length ≤ mioPoolMaxNameLen
  · rw [nameBytes_eq_buf hs, CStr.buf]
    exact .inl (List.mem_append_right _ List.mem_cons_self)
  · exact .inr (nameBytes_of_long (not_le.mp hs)).1

/-- A file whose default pool is found is accepted by a new process. -/
theorem exists_of_defaultFound {toks : List YamlToken} (h : HistoryFree toks)
    (hend : ReadToEnd toks) (hfound : DefaultFound toks) :
    ∃ st st', confScan zeroStack toks ConfStatics.initial.start = .ok (0, st) ∧
      confFinish st = .ok (0, st') := by
  obtain ⟨st, hscan⟩ := exists_of_readToEnd h hend
  have hdrv := (driverIs_of_confScan hscan (by decide)).mpr (.inr (driver_of_historyFree h hend))
  obtain ⟨st', hfinish⟩ := (confFinish_zero_iff hscan hdrv).mpr hfound
  exact ⟨st, st', hscan, hfinish⟩

/-- **Of a file that is accepted** the outcome says what the pools are, and the store. -/
theorem same_of_accepted {statics₁ statics₂ : ConfStatics} {stack₁ stack₂ : ℕ → MioPoolId}
    {toks : List YamlToken} {st₁' : ConfState}
    (h : confOutcome statics₁ stack₁ toks = confOutcome statics₂ stack₂ toks)
    (hscan₁ : confScan stack₁ toks statics₁.start = .ok (0, st₁))
    (hfinish₁ : confFinish st₁ = .ok (0, st₁'))
    (hscan₂ : confScan stack₂ toks statics₂.start = .ok (0, st₂)) :
    st₂.mioPools.list = st₁.mioPools.list ∧
      st₂.mioInstTelemStoreType = st₁.mioInstTelemStoreType := by
  rw [confOutcome_of_end hscan₁, confOutcome_of_end hscan₂, hfinish₁] at h
  obtain ⟨⟨rc, st₂'⟩, hfinish₂, hr⟩ := map_eq_ok_iff.mp h.symm
  obtain ⟨rfl, hconfig⟩ := Prod.mk.inj hr
  obtain ⟨-, idx₁, name₁, rfl⟩ := exists_of_confFinish hfinish₁
  obtain ⟨-, idx₂, name₂, rfl⟩ := exists_of_confFinish hfinish₂
  obtain ⟨-, htelem, hpools, -⟩ := (MioConfig.mk.injEq ..).mp (Option.some.inj hconfig)
  exact ⟨hpools, htelem⟩

/-- **Without a list of pools** the pools are those of the call before. -/
theorem list_of_historyFree {toks : List YamlToken} (h : HistoryFree toks)
    (hend : ReadToEnd toks) : (poolTrack .initial (streamToks toks)).started = true := by
  obtain ⟨st₁, hscan₁⟩ := exists_of_readToEnd h hend
  have hafter₁ := confAfter_of_confScan hscan₁ (by decide)
  have hagrees := poolTrack_agrees sound_initial.nrPools hafter₁
  by_contra hc
  have hstarted := Bool.eq_false_iff.mpr hc
  -- the pool that is left behind has the name of the default pool, and is found
  obtain ⟨calls, p, pool, hp, hlist, hname⟩ := exists_pool
    ((lastText .motrPoolDefault true none none toks).getD mioDefaultPoolNullStr)
  have hsound := sound_of_history hp
  obtain ⟨st₂, hafter₂, hsame, hpools⟩ := mioPools_of_confAfter h hsound
    (List.takeWhile_prefix _) hafter₁ hstarted
  have hscan₂ := confScan_of_confAfter hend.1 hafter₂
  have hlist₁ : st₁.mioPools.list = [] := by
    rw [MioPools.list, hsame.fresh (hagrees.started.symm.trans hstarted), Option.getD_none]
  have hlist₂ : st₂.mioPools.list = [pool] := by
    rw [hpools, hlist]
  cases hfinish₂ : confFinish st₂ with
  | error fault =>
    refine h.survives calls p hp zeroStack ?_
    rw [confOutcome_of_end hscan₂, hfinish₂, (confFinish_error_cases hfinish₂).1]
    rfl
  | ok r =>
    obtain ⟨rc, st₂'⟩ := r
    have hlen : pool.mpName.length = mioPoolMaxNameLen + 1 :=
      hsound.names _ (List.mem_map_of_mem (hlist ▸ List.mem_singleton_self pool))
    have hne : strEq pool.mpName st₂.mioDefaultPoolName ≠ some false :=
      strEq_ne_of_begin hname (defaultIs_of_confScan hscan₂ (by decide))
        (hlen.trans hsame.length.2.symm)
        ((zero_mem_or_length_nameBytes _).imp_right fun hfull => hfull.trans hlen.symm)
    obtain rfl := rc_confFinish_of_single hlist₂ hne hfinish₂
    have hboth := same_of_accepted (h.same calls p [] .initial hp .refl zeroStack zeroStack)
      hscan₂ hfinish₂ hscan₁
    rw [hlist₁, hlist₂] at hboth
    exact absurd hboth.1 (by simp)

/-- **Without a store for telemetry** it is the one of the call before. -/
theorem telem_of_historyFree {toks : List YamlToken} (h : HistoryFree toks)
    (hend : ReadToEnd toks) (hfound : DefaultFound toks) :
    (lastText .mioTelemetryStore true none none toks).isSome := by
  obtain ⟨st₁, st₁', hscan₁, hfinish₁⟩ := exists_of_defaultFound h hend hfound
  obtain ⟨calls, p, hp, haddb⟩ := exists_addb
  obtain ⟨st₂, hscan₂, -⟩ := sameFile_confScan (sound_of_history hp) (K := fun _ => True) zeroStack
    (fun _ => trivial) (noEntryBefore_of_historyFree h) hscan₁
  obtain ⟨-, htelem⟩ := same_of_accepted
    (h.same [] .initial calls p .refl hp zeroStack zeroStack) hscan₁ hfinish₁ hscan₂
  by_contra hnone
  have htelem₁ := telemIs_of_confScan hscan₁ (by decide)
  have htelem₂ := telemIs_of_confScan hscan₂ (by decide)
  rw [TelemIs, Option.not_isSome_iff_eq_none.mp hnone] at htelem₁ htelem₂
  rw [htelem₁, htelem₂] at htelem
  exact absurd (haddb.symm.trans htelem) (by decide)

/-- A part of an id that does not come from the stack has been read. -/
theorem full_of_idOf {s : CStr} {id : MioPoolId} (h₀ : IdOf (· = ⟨0, 0⟩) (some s) id)
    (h₁ : IdOf (· = ⟨1, 1⟩) (some s) id) : (poolIdSscanf s.bytes).1 = 2 := by
  obtain ⟨_, rfl, hid₀⟩ := h₀
  obtain ⟨_, rfl, hid₁⟩ := h₁
  obtain ⟨hhi, hlo⟩ := (MioPoolId.mk.injEq ..).mp (hid₀.symm.trans hid₁)
  rw [poolIdSscanf_eq_two_iff]
  rcases hboth : (poolIdSscanf s.bytes).2 with ⟨_ | u, _ | v⟩
  · rw [hboth] at hhi
    exact absurd hhi (by simp)
  · rw [hboth] at hhi
    exact absurd hhi (by simp)
  · rw [hboth] at hlo
    exact absurd hlo (by simp)
  · exact ⟨u, v, rfl⟩

/-- **An id that is not two numbers** is filled up from the stack. -/
theorem ids_of_historyFree {toks : List YamlToken} (h : HistoryFree toks)
    (hend : ReadToEnd toks) (hfound : DefaultFound toks) {s : CStr}
    (hs : some s ∈ entryTexts .motrPoolId .initial (streamToks toks)) :
    (poolIdSscanf s.bytes).1 = 2 := by
  obtain ⟨st, st', hscan, hfinish⟩ := exists_of_defaultFound h hend hfound
  have hstarted := list_of_historyFree h hend
  have hentry := noEntryBefore_of_historyFree h
  obtain ⟨st₀, hscan₀, -, hids₀⟩ := sameFile_confScan sound_initial (K := (· = ⟨0, 0⟩)) zeroStack
    (fun _ => rfl) hentry hscan
  obtain ⟨st₁, hscan₁, -, hids₁⟩ := sameFile_confScan sound_initial (K := (· = ⟨1, 1⟩))
    (fun _ => ⟨1, 1⟩) (fun _ => rfl) hentry hscan
  obtain ⟨-, rfl⟩ := Prod.mk.inj (Except.ok.inj (hscan.symm.trans hscan₀))
  obtain ⟨hlist, -⟩ := same_of_accepted
    (h.same [] .initial [] .initial .refl .refl zeroStack fun _ => ⟨1, 1⟩) hscan hfinish hscan₁
  have hpoolIds : st₁.poolIds = st.poolIds := congrArg (List.map MioPool.mpId) hlist
  have hids := hids₁ hstarted
  rw [hpoolIds] at hids
  have hboth := List.Forall₂.mp (fun _ _ => And.intro) (hids₀ hstarted) hids
  obtain ⟨id, -, hid₀, hid₁⟩ := exists_left_of_forall₂ hboth.flip hs
  exact full_of_idOf hid₀ hid₁

/-- What is asked of the tokens before one of them is asked of the beginnings of the file. -/
theorem of_prefix {P : List YamlToken → YamlToken → Prop} {toks pre : List YamlToken}
    {tok : YamlToken} (h : ∀ n : Fin toks.length, P (toks.take n) toks[n])
    (hpre : pre ++ [tok] <+: toks) : P pre tok := by
  obtain ⟨post, rfl⟩ := hpre
  have hlt : pre.length < (pre ++ [tok] ++ post).length := by
    rw [List.length_append, List.length_append, List.length_singleton]
    omega
  simpa using h ⟨pre.length, hlt⟩

/-- A file that says all. -/
example : SelfContained (fileToks telemToks) where
  entry := by
    intro pre hpre _
    exact of_prefix (P := fun pre tok => tok = .blockEntry →
      (poolTrack .initial pre).started = true) (by decide +kernel) hpre rfl
  value := by
    intro pre s hpre _ hisKey hstored
    exact of_prefix (P := fun pre tok => (poolTrack .initial pre).isKey = false →
      ∀ s ∈ (match tok with | .scalar s => some s | _ => none : Option CStr),
        storedInPool (poolTrack .initial pre).key s = true →
          0 < (poolTrack .initial pre).own + (poolTrack .initial pre).others)
      (by decide +kernel) hpre hisKey s rfl hstored
  driver := fun _ => by decide +kernel
  list := fun _ => by decide +kernel
  names := by
    rintro - ⟨d, s, hd, -⟩
    have hnone : lastText .motrPoolDefault true none none (fileToks telemToks) = none := by
      decide +kernel
    rw [hnone] at hd
    cases hd
  telem := fun _ _ => by decide +kernel
  ids := by
    intro _ _ s hs
    have hnone : entryTexts .motrPoolId .initial (streamToks (fileToks telemToks)) = [none] := by
      decide +kernel
    rw [hnone] at hs
    simp at hs

end CortxMio
