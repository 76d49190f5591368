import CortxMio.Conf.Names

/-!
# The strings of a configuration

Where a string of the file goes depends on its key. An address or a directory is copied
to memory of its own, of just as many bytes as `strnlen` finds in it, so there is no room
for the terminator, and reading it back runs on behind the copy
(`CortxMio.readBack_confCopyStr`). The name of a pool goes to an array together with its
terminator, and is never turned down. The name of the default pool is looked for
among those of the pools, unless it is the one that stands for no name at all.

So strings are kept only where nothing is copied to memory of its own, but for scalars
that are too long to count, and where no name of a pool is longer than the limit
(`CortxMio.stringsKept_iff`).
-/

namespace CortxMio

open Lib

/-! ### What is configured -/

/-- The keys whose values are copied to memory of their own. -/
def stringKeys : List ConfKey :=
  [.mioLogDir, .mioTelemetryPrefix, .motrInstAddr, .motrHaAddr, .motrProfile, .motrProcessFid,
    .motrUserGroup]

/-- The memory that the value of such a key is copied to. -/
def paramOf (inst : MioInst) (conf : Option MotrConf) : ConfKey → Option (List Byte)
  | .mioLogDir => inst.mLogDir
  | .mioTelemetryPrefix => inst.mTelemPrefix
  | .motrInstAddr => conf.bind fun c => c.mcMotrLocalAddr
  | .motrHaAddr => conf.bind fun c => c.mcHaAddr
  | .motrProfile => conf.bind fun c => c.mcProfile
  | .motrProcessFid => conf.bind fun c => c.mcProcessFid
  | .motrUserGroup => conf.bind fun c => c.mcMotrGroup
  | _ => none

/-- A string parameter of the instance. -/
def MioInst.param (inst : MioInst) (k : ConfKey) : Option (List Byte) :=
  paramOf inst inst.mDriverConfs k

/-- A string parameter while the file is read. -/
def ConfState.param (st : ConfState) (k : ConfKey) : Option (List Byte) :=
  paramOf st.inst st.motrConf k

/-- **The strings are kept.** Read back they are what the file says, a name that is too
long is turned down, and the default pool is the first one with its name. -/
structure StringsKept (statics : ConfStatics) (stack : ℕ → MioPoolId) (toks : List YamlToken) :
    Prop where
  /-- The parameters. -/
  params : ∀ statics' inst, mioConfInit statics stack toks = .ok (0, statics', inst) →
    ∀ k ∈ stringKeys, ∀ s, lastText k true none none toks = some s → s.length < yamlMaxValLen →
      (inst.param k).bind readBack = some s
  /-- The names of the pools. -/
  names : ∀ statics' inst, mioConfInit statics stack toks = .ok (0, statics', inst) →
    ∀ (i : ℕ) s, (entryTexts .motrPoolName statics (streamToks toks))[i]? = some (some s) →
      (statics'.mioPools.list[i]?).bind (fun pool => readBack pool.mpName) = some s
  /-- A name that is too long. -/
  tooLong : ∀ pre s post st, toks = pre ++ .scalar s :: post →
    confAfter stack pre statics.start = some st → st.isKey = false →
      st.key = some .motrPoolName ∨ st.key = some .motrPoolDefault →
        mioPoolMaxNameLen < s.length →
          ∃ st', confToken st (stack pre.length) (.scalar s) = .ok (-EINVAL, st')
  /-- The default pool. -/
  default : ∀ statics' inst, mioConfInit statics stack toks = .ok (0, statics', inst) →
    ∀ s, lastText .motrPoolDefault true none none toks = some s →
      readBack statics'.mioDefaultPoolName = some s ∧
        readBack statics'.mioPools.mpsDefaultPoolName = some s ∧
          firstNamed statics'.mioPools s = some statics'.mioPools.mpsDefaultPoolIdx
  /-- A default pool that is none of the pools. -/
  missing : ∀ s st, lastText .motrPoolDefault true none none toks = some s →
    confScan stack toks statics.start = .ok (0, st) → firstNamed st.mioPools s = none →
      ∃ out, mioConfInit statics stack toks = .ok (-EINVAL, out)

/-- **What is kept by the code**, as far as the file is read. -/
structure StringsFit (statics : ConfStatics) (stack : ℕ → MioPoolId) (toks : List YamlToken) :
    Prop where
  /-- A parameter of an accepted file is too long to count. -/
  params : (∃ statics' inst, mioConfInit statics stack toks = .ok (0, statics', inst)) →
    ∀ k ∈ stringKeys, ∀ s, lastText k true none none toks = some s → yamlMaxValLen ≤ s.length
  /-- No name is too long. -/
  names : ∀ pre s post st, toks = pre ++ .scalar s :: post →
    confAfter stack pre statics.start = some st → st.isKey = false →
      st.key = some .motrPoolName ∨ st.key = some .motrPoolDefault →
        s.length ≤ mioPoolMaxNameLen
  /-- The default pool of an accepted file is not called `MIO_DEFAULT_POOL_NULL`. -/
  default : (∃ statics' inst, mioConfInit statics stack toks = .ok (0, statics', inst)) →
    lastText .motrPoolDefault true none none toks ≠ some mioDefaultPoolNullStr
  /-- If it is none of the pools, there is a driver. -/
  driver : ∀ s st, lastText .motrPoolDefault true none none toks = some s →
    confScan stack toks statics.start = .ok (0, st) → firstNamed st.mioPools s = none →
      statics.mioInstDrvId ≠ .invalid ∨ (lastText .mioDriver true none none toks).isSome

variable {st st' : ConfState} {rc : ℤ}

/-! ### Memory of their own -/

/-- **A copy is never read back** as what has been copied: there is no room for the
terminator. -/
theorem readBack_confCopyStr (s : CStr) (n : ℕ) :
    readBack (confCopyStr s (strnlen n s.buf)) ≠ some s := by
  intro h
  have hlt := length_lt_of_readBack h
  have hle : (confCopyStr s (strnlen n s.buf)).length ≤ strnlen n s.buf :=
    List.length_take_le _ _
  have hmin : strnlen n s.buf ≤ s.length := (strnlen_buf n s).trans_le (min_le_right n s.length)
  omega

/-- **A value** is copied if it is one of a string parameter. -/
theorem param_confExtractValue {stack : MioPoolId} {key : Option ConfKey} {value : CStr}
    {vlen : ℕ} (h : confExtractValue st stack key value vlen = .ok (rc, st')) (k : ConfKey) :
    st'.param k = if key = some k ∧ k ∈ stringKeys then some (confCopyStr value vlen)
      else st.param k := by
  rw [confExtractValue.eq_def] at h
  dsimp only at h
  split at h
  case h_17 =>
    split at h
    all_goals
      obtain ⟨-, rfl⟩ := Prod.mk.inj (Except.ok.inj h)
      cases k <;> rfl
  case h_18 | h_19 | h_20 =>
    split at h
    · obtain ⟨-, rfl⟩ := Prod.mk.inj (Except.ok.inj h)
      cases k <;> rfl
    · obtain ⟨pools, pool, -, rfl⟩ := exists_of_setPool h
      cases k <;> rfl
  case h_6 | h_7 | h_8 | h_9 | h_10 | h_11 | h_12 | h_13 | h_14 | h_15 | h_16 =>
    obtain ⟨conf, hconf, rfl⟩ := exists_of_setMotr h
    rw [ConfState.param, ConfState.param, hconf]
    cases k <;> rfl
  all_goals
    obtain ⟨-, rfl⟩ := Prod.mk.inj (Except.ok.inj h)
    cases k <;> rfl

/-- What a string parameter is, after the last value of its key. -/
def ParamIs (k : ConfKey) (text : Option CStr) (st : ConfState) : Prop :=
  ∀ s, text = some s → st.param k = some (confCopyStr s (strnlen yamlMaxValLen s.buf))

theorem ParamIs.kept {k : ConfKey} {text : Option CStr} (h : ParamIs k text st)
    (hk : st'.param k = st.param k) : ParamIs k text st' := fun s hs => hk.trans (h s hs)

/-- The configuration of a driver is allocated without strings. -/
theorem ParamIs.unvalued {k : ConfKey} {text : Option CStr} (hparam : ParamIs k text st)
    (h : Unvalued st st') : ParamIs k text st' := by
  refine hparam.kept ?_
  rw [ConfState.param, ConfState.param, h.inst]
  rcases h.conf with hconf | ⟨hnone, hconf⟩
  · rw [hconf]
  · rw [hconf, hnone]
    cases k <;> rfl

/-- A value of a key. -/
theorem ParamIs.value {k : ConfKey} (hk : k ∈ stringKeys) {text : Option CStr}
    {stack : MioPoolId} {s : CStr} (hparam : ParamIs k text st)
    (h : confExtractValue st stack st.key s (strnlen yamlMaxValLen s.buf) = .ok (rc, st')) :
    ParamIs k (if st.key = some k then some s else text) st' := by
  have hvalue := param_confExtractValue h k
  by_cases hkey : st.key = some k
  · rw [if_pos ⟨hkey, hk⟩] at hvalue
    rw [if_pos hkey]
    rintro s' hs
    obtain rfl := Option.some.inj hs
    exact hvalue
  · rw [if_neg fun hc => hkey hc.1] at hvalue
    rw [if_neg hkey]
    exact hparam.kept hvalue

/-- **One token.** -/
theorem ParamIs.token {k : ConfKey} (hk : k ∈ stringKeys) {text : Option CStr}
    {stack : MioPoolId} {tok : YamlToken} (hparam : ParamIs k text st)
    (h : confToken st stack tok = .ok (rc, st')) :
    ParamIs k (textAfter k st.isKey st.key text tok) st' :=
  confToken_lastText h hparam.unvalued fun _ => hparam.value hk

/-- **The string parameters of an accepted file** are copies without a terminator. -/
theorem param_of_mioConfInit {statics statics' : ConfStatics} {stack : ℕ → MioPoolId}
    {toks : List YamlToken} {inst : MioInst} {k : ConfKey} {s : CStr}
    (h : mioConfInit statics stack toks = .ok (0, statics', inst)) (hk : k ∈ stringKeys)
    (hs : lastText k true none none toks = some s) :
    inst.param k = some (confCopyStr s (strnlen yamlMaxValLen s.buf)) := by
  obtain ⟨rc, st, st', hscan, hrc, hfinish, -, rfl⟩ := confScan_of_mioConfInit h
  have hstart : ParamIs k none statics.start := fun _ hc => by cases hc
  have hparam := confScan_lastText (fun hI htok _ => hI.token hk htok) hstart hscan hrc s hs
  obtain ⟨-, idx, name, rfl⟩ := exists_of_confFinish hfinish
  exact hparam

/-! ### The driver and the store -/

/-- What a value of any other key leaves alone. -/
theorem choice_confExtractValue {stack : MioPoolId} {key : Option ConfKey} {value : CStr}
    {vlen : ℕ} (h : confExtractValue st stack key value vlen = .ok (rc, st')) :
    (key ≠ some .mioDriver → st'.mioInstDrvId = st.mioInstDrvId) ∧
      (key ≠ some .mioTelemetryStore →
        st'.mioInstTelemStoreType = st.mioInstTelemStoreType) := by
  rw [confExtractValue.eq_def] at h
  dsimp only at h
  split at h
  case h_1 =>
    obtain ⟨-, rfl⟩ := Prod.mk.inj (Except.ok.inj h)
    exact ⟨fun hkey => absurd rfl hkey, fun _ => rfl⟩
  case h_2 =>
    obtain ⟨-, rfl⟩ := Prod.mk.inj (Except.ok.inj h)
    exact ⟨fun _ => rfl, fun hkey => absurd rfl hkey⟩
  case h_17 | h_18 | h_19 | h_20 =>
    split at h
    all_goals first
      | obtain ⟨-, rfl⟩ := Prod.mk.inj (Except.ok.inj h)
        exact ⟨fun _ => rfl, fun _ => rfl⟩
      | obtain ⟨pools, pool, -, rfl⟩ := exists_of_setPool h
        exact ⟨fun _ => rfl, fun _ => rfl⟩
  all_goals first
    | obtain ⟨-, rfl⟩ := Prod.mk.inj (Except.ok.inj h)
      exact ⟨fun _ => rfl, fun _ => rfl⟩
    | obtain ⟨conf, -, rfl⟩ := exists_of_setMotr h
      exact ⟨fun _ => rfl, fun _ => rfl⟩

/-- What the driver is, after the last value of its key. -/
def DriverIs (old : MioDriverId) (text : Option CStr) (st : ConfState) : Prop :=
  st.mioInstDrvId ≠ .invalid ↔ old ≠ .invalid ∨ text.isSome

theorem DriverIs.kept {old : MioDriverId} {text : Option CStr} (h : DriverIs old text st)
    (hk : st'.mioInstDrvId = st.mioInstDrvId) : DriverIs old text st' := by
  rw [DriverIs, hk]
  exact h

/-- A value of its key is a driver, or it is turned down. -/
theorem DriverIs.value {old : MioDriverId} {text : Option CStr} {stack : MioPoolId} {s : CStr}
    {vlen : ℕ} (hdriver : DriverIs old text st)
    (h : confExtractValue st stack st.key s vlen = .ok (rc, st')) (hrc : ¬ rc < 0) :
    DriverIs old (if st.key = some .mioDriver then some s else text) st' := by
  by_cases hkey : st.key = some .mioDriver
  · rw [if_pos hkey]
    rw [hkey, confExtractValue] at h
    obtain ⟨rfl, rfl⟩ := Prod.mk.inj (Except.ok.inj h)
    refine iff_of_true (fun hinvalid => hrc ?_) (.inr rfl)
    rw [if_pos hinvalid]
    decide
  · rw [if_neg hkey]
    exact hdriver.kept ((choice_confExtractValue h).1 hkey)

/-- **One token.** -/
theorem DriverIs.token {old : MioDriverId} {text : Option CStr} {stack : MioPoolId}
    {tok : YamlToken} (hdriver : DriverIs old text st)
    (h : confToken st stack tok = .ok (rc, st')) (hrc : ¬ rc < 0) :
    DriverIs old (textAfter .mioDriver st.isKey st.key text tok) st' :=
  confToken_lastText h (fun hquiet => hdriver.kept hquiet.drvId) fun _ hvalue =>
    hdriver.value hvalue hrc

/-- **Whether there is a driver**, behind all tokens. -/
theorem driverIs_of_confScan {statics : ConfStatics} {stack : ℕ → MioPoolId}
    {toks : List YamlToken} (h : confScan stack toks statics.start = .ok (rc, st))
    (hrc : ¬ rc < 0) :
    DriverIs statics.mioInstDrvId (lastText .mioDriver true none none toks) st := by
  have hstart : DriverIs statics.mioInstDrvId none statics.start := by
    rw [DriverIs]
    simp [ConfStatics.start]
  exact confScan_lastText (fun hI htok hrc => hI.token htok hrc) hstart h hrc

/-- What the store for telemetry is, after the last value of its key. -/
def TelemIs (old : MioTelemetryStoreType) (text : Option CStr) (st : ConfState) : Prop :=
  st.mioInstTelemStoreType = (text.map confGetTelemStoreType).getD old

theorem TelemIs.value {old : MioTelemetryStoreType} {text : Option CStr} {stack : MioPoolId}
    {s : CStr} {vlen : ℕ} (htelem : TelemIs old text st)
    (h : confExtractValue st stack st.key s vlen = .ok (rc, st')) :
    TelemIs old (if st.key = some .mioTelemetryStore then some s else text) st' := by
  by_cases hkey : st.key = some .mioTelemetryStore
  · rw [if_pos hkey]
    rw [hkey, confExtractValue] at h
    obtain ⟨-, rfl⟩ := Prod.mk.inj (Except.ok.inj h)
    rfl
  · rw [if_neg hkey, TelemIs, (choice_confExtractValue h).2 hkey]
    exact htelem

/-- **What the store is**, behind all tokens. -/
theorem telemIs_of_confScan {statics : ConfStatics} {stack : ℕ → MioPoolId}
    {toks : List YamlToken} (h : confScan stack toks statics.start = .ok (rc, st))
    (hrc : ¬ rc < 0) : TelemIs statics.mioInstTelemStoreType
      (lastText .mioTelemetryStore true none none toks) st := by
  have hstart : TelemIs statics.mioInstTelemStoreType none statics.start := rfl
  refine confScan_lastText (I := TelemIs statics.mioInstTelemStoreType) ?_ hstart h hrc
  intro text st st' stack tok rc htelem htok _
  exact confToken_lastText htok (fun hquiet => hquiet.telem.trans htelem) fun _ => htelem.value

/-! ### The file -/

/-- No name that is reached is too long. -/
def NamesFit (statics : ConfStatics) (stack : ℕ → MioPoolId) (toks : List YamlToken) : Prop :=
  ∀ pre s post st, toks = pre ++ .scalar s :: post →
    confAfter stack pre statics.start = some st → st.isKey = false →
      st.key = some .motrPoolName ∨ st.key = some .motrPoolDefault →
        s.length ≤ mioPoolMaxNameLen

/-- **The name of the default pool of a file that is read to its end.** -/
theorem readBack_default {statics : ConfStatics} {stack : ℕ → MioPoolId} {toks : List YamlToken}
    (hlen : NamesFit statics stack toks) (h : confScan stack toks statics.start = .ok (rc, st))
    (hrc : ¬ rc < 0) : readBack st.mioDefaultPoolName =
      some ((lastText .motrPoolDefault true none none toks).getD mioDefaultPoolNullStr) := by
  refine readBack_of_nameBytes (defaultIs_of_confScan h hrc) ?_
  cases hs : lastText .motrPoolDefault true none none toks with
  | none => decide
  | some s =>
    rcases exists_of_lastText h hrc hs with hnone | ⟨pre, post, st₁, htoks, hafter, hisKey, hkey⟩
    · cases hnone
    · exact hlen pre s post st₁ htoks hafter hisKey (.inr hkey)

/-- **The names of its pools.** -/
theorem readBack_names {statics : ConfStatics} {stack : ℕ → MioPoolId} {toks : List YamlToken}
    (hstatics : statics.mioPools.mpsNrPools < mioMotrMaxPoolCnt)
    (hlen : NamesFit statics stack toks) (h : confScan stack toks statics.start = .ok (rc, st))
    (hrc : ¬ rc < 0) {i : ℕ} {s : CStr}
    (hs : (entryTexts .motrPoolName statics (streamToks toks))[i]? = some (some s)) :
    (st.mioPools.list[i]?).bind (fun pool => readBack pool.mpName) = some s := by
  have hafter : confAfter stack (streamToks toks) statics.start = some st :=
    confAfter_of_confScan h hrc
  have hnames := named_of_confAfter (P := fun _ => True) trivial (fun _ _ => trivial) hstatics
    hafter
  obtain ⟨hi, hget⟩ := List.getElem?_eq_some_iff.mp hs
  have hlt : i < st.mioPools.list.length := by
    have hlength := hnames.length_eq
    rw [ConfStatics.poolNames, List.length_map] at hlength
    omega
  have hname := hnames.get hi (by rw [ConfStatics.poolNames, List.length_map]; exact hlt)
  rw [List.get_eq_getElem, hget] at hname
  obtain ⟨pre, post, st₁, htoks, hreached, hisKey, hkey⟩ :=
    exists_of_mem_entryTexts hstatics hafter (List.mem_of_getElem? hs)
  have hstream : streamToks toks <+: toks := List.takeWhile_prefix _
  obtain ⟨rest, hrest⟩ := hstream
  have hfit := hlen pre s (post ++ rest) st₁ (by rw [← hrest, htoks]; simp) hreached hisKey
    (.inl hkey)
  rw [List.getElem?_eq_getElem hlt, Option.bind_some]
  simp only [ConfStatics.poolNames, List.get_eq_getElem, List.getElem_map] at hname
  exact readBack_of_nameBytes hname hfit

/-- A file that is read to its end, and what the call returns for it. -/
theorem mioConfInit_of_confScan {statics : ConfStatics} {stack : ℕ → MioPoolId}
    {toks : List YamlToken} (hscan : confScan stack toks statics.start = .ok (0, st))
    (hfinish : confFinish st = .ok (rc, st')) :
    mioConfInit statics stack toks = .ok (rc, st'.toConfStatics, st'.inst) := by
  rw [mioConfInit, hscan, ok_bind]
  simp only
  rw [if_neg (by decide), hfinish, ok_bind]

/-- **The strings are kept just if they fit.** -/
theorem stringsKept_iff {statics : ConfStatics} (hsound : statics.Sound)
    (stack : ℕ → MioPoolId) (toks : List YamlToken) :
    StringsKept statics stack toks ↔ StringsFit statics stack toks := by
  constructor
  · rintro ⟨hparams, -, htooLong, hdefault, hmissing⟩
    have hlen : NamesFit statics stack toks := by
      intro pre s post st htoks hafter hisKey hkey
      by_contra hlong
      obtain ⟨st', hdown⟩ := htooLong pre s post st htoks hafter hisKey hkey (not_le.mp hlong)
      exact confToken_name_ne hisKey hkey hdown
    refine ⟨?_, hlen, ?_, ?_⟩
    · rintro ⟨statics', inst, hinit⟩ k hk s hs
      by_contra hshort
      have hback := hparams statics' inst hinit k hk s hs (not_le.mp hshort)
      rw [param_of_mioConfInit hinit hk hs] at hback
      exact readBack_confCopyStr s _ hback
    · rintro ⟨statics', inst, hinit⟩ hs
      obtain ⟨-, hmps, -⟩ := hdefault statics' inst hinit _ hs
      obtain ⟨rc, st, st', hscan, hrc, hfinish, rfl, rfl⟩ := confScan_of_mioConfInit hinit
      have hst := sound_confScan hsound hscan
      have hname := readBack_default hlen hscan hrc
      rw [hs] at hname
      rw [confFinish_null (exists_of_confFinish hfinish).1 hst hname] at hfinish
      obtain ⟨-, rfl⟩ := Prod.mk.inj (Except.ok.inj hfinish)
      exact hst.mps hmps
    · intro s st hs hscan hnone
      have hdriver := driverIs_of_confScan hscan (by decide)
      refine hdriver.mp fun hinvalid => ?_
      obtain ⟨out, hinit⟩ := hmissing s st hs hscan hnone
      rw [mioConfInit, hscan, ok_bind] at hinit
      simp only at hinit
      rw [if_neg (by decide), confFinish, if_pos hinvalid] at hinit
      cases hinit
  · rintro ⟨hparams, hlen, hdefault, hdriver⟩
    refine ⟨?_, ?_, ?_, ?_, ?_⟩
    · intro statics' inst hinit k hk s hs hshort
      exact absurd (hparams ⟨statics', inst, hinit⟩ k hk s hs) (not_le.mpr hshort)
    · intro statics' inst hinit i s hs
      obtain ⟨rc, st, st', hscan, hrc, hfinish, rfl, rfl⟩ := confScan_of_mioConfInit hinit
      have hback := readBack_names hsound.nrPools hlen hscan hrc hs
      obtain ⟨-, idx, name, rfl⟩ := exists_of_confFinish hfinish
      exact hback
    · intro pre s post st htoks hafter hisKey hkey hlong
      exact absurd (hlen pre s post st htoks hafter hisKey hkey) (not_le.mpr hlong)
    · intro statics' inst hinit s hs
      have hnull := hdefault ⟨statics', inst, hinit⟩
      obtain ⟨rc, st, st', hscan, hrc, hfinish, rfl, rfl⟩ := confScan_of_mioConfInit hinit
      have hname := readBack_default hlen hscan hrc
      rw [hs] at hname hnull
      obtain ⟨hkept, hmps, hfirst⟩ := exists_of_confFinish_ok (sound_confScan hsound hscan) hname
        (fun hc => hnull (congrArg some hc)) hfinish
      exact ⟨hkept ▸ hname, hmps, hfirst⟩
    · intro s st hs hscan hnone
      have hdrv := (driverIs_of_confScan hscan (by decide)).mpr (hdriver s st hs hscan hnone)
      have hst := sound_confScan hsound hscan
      have hname := readBack_default hlen hscan (by decide)
      rw [hs] at hname
      have hnull : s ≠ mioDefaultPoolNullStr := by
        rintro rfl
        have hinit := mioConfInit_of_confScan hscan (confFinish_null hdrv hst hname)
        exact hdefault ⟨_, _, hinit⟩ hs
      exact ⟨_, mioConfInit_of_confScan hscan (confFinish_none hdrv hst hname hnull hnone)⟩

/-- The list of one pool is read in a new process. -/
theorem stringsKept_onePoolToks :
    StringsKept .initial (fun _ => ⟨0, 0⟩) onePoolToks ↔
      StringsFit .initial (fun _ => ⟨0, 0⟩) onePoolToks :=
  stringsKept_iff sound_initial _ _

/-- A file with a directory for the log. -/
def logDirToks : List YamlToken :=
  [.blockMappingStart, .key, .scalar (literal "MIO_LOG_DIR"), .value,
    .scalar (literal "/tmp"), .blockEnd, .streamEnd]

/-- A pool whose name is longer than the limit by one. -/
def longNameToks : List YamlToken :=
  [.blockMappingStart, .key, .scalar (literal "MOTR_POOLS"), .value,
    .blockSequenceStart, .blockEntry, .blockMappingStart, .key,
    .scalar (literal "MOTR_POOL_NAME"), .value,
    .scalar ⟨List.replicate 33 112, by decide⟩, .blockEnd, .blockEnd, .blockEnd, .streamEnd]

/-- A default pool with the name that stands for none, and no pools. -/
def nullDefaultToks : List YamlToken :=
  [.blockMappingStart, .key, .scalar (literal "MOTR_POOL_DEFAULT"), .value,
    .scalar mioDefaultPoolNullStr, .blockEnd, .streamEnd]

/-- **A directory is copied without its terminator**, a name is not turned down although it
is too long, and a default pool that is none of the pools is accepted. -/
theorem not_stringsKept :
    (¬ StringsKept .initial (fun _ => ⟨0, 0⟩) logDirToks ∧
      (mioConfInit .initial (fun _ => ⟨0, 0⟩) logDirToks).map
        (fun r => (r.1, r.2.2.mLogDir)) = .ok (0, some (ascii "/tmp"))) ∧
    (¬ StringsKept .initial (fun _ => ⟨0, 0⟩) longNameToks ∧
      (mioConfInit .initial (fun _ => ⟨0, 0⟩) longNameToks).map
        (fun r => (r.1, r.2.1.mioPools.list.map fun pool => readBack pool.mpName)) =
          .ok (0, [none])) ∧
    (¬ StringsKept .initial (fun _ => ⟨0, 0⟩) nullDefaultToks ∧
      (mioConfInit .initial (fun _ => ⟨0, 0⟩) nullDefaultToks).map
        (fun r => (r.1, r.2.1.mioPools.list)) = .ok (0, [])) := by
  have hlog : (mioConfInit .initial (fun _ => ⟨0, 0⟩) logDirToks).map
      (fun r => (r.1, r.2.2.mLogDir)) = .ok (0, some (ascii "/tmp")) := by decide +kernel
  have hname : (mioConfInit .initial (fun _ => ⟨0, 0⟩) longNameToks).map
      (fun r => (r.1, r.2.1.mioPools.list.map fun pool => readBack pool.mpName)) =
        .ok (0, [none]) := by decide +kernel
  have hnull : (mioConfInit .initial (fun _ => ⟨0, 0⟩) nullDefaultToks).map
      (fun r => (r.1, r.2.1.mioPools.list)) = .ok (0, []) := by decide +kernel
  refine ⟨⟨fun h => ?_, hlog⟩, ⟨fun h => ?_, hname⟩, ⟨fun h => ?_, hnull⟩⟩
  · obtain ⟨⟨rc, statics', inst⟩, hinit, hr⟩ := map_eq_ok_iff.mp hlog
    obtain ⟨rfl, hdir⟩ := Prod.mk.inj hr
    have hback := h.params statics' inst hinit .mioLogDir (by decide) (literal "/tmp")
      (by decide +kernel) (by decide)
    rw [show inst.param .mioLogDir = _ from hdir] at hback
    cases hback
  · obtain ⟨⟨rc, statics', inst⟩, hinit, hr⟩ := map_eq_ok_iff.mp hname
    obtain ⟨rfl, hpools⟩ := Prod.mk.inj hr
    have hback := h.names statics' inst hinit 0 ⟨List.replicate 33 112, by decide⟩
      (by decide +kernel)
    obtain ⟨pool, hpool, hsome⟩ := Option.bind_eq_some_iff.mp hback
    have hnone := congrArg (fun l => l[0]?) hpools
    simp only [List.getElem?_map, hpool, Option.map_some, hsome] at hnone
    cases hnone
  · obtain ⟨⟨rc, statics', inst⟩, hinit, hr⟩ := map_eq_ok_iff.mp hnull
    obtain ⟨rfl, hpools⟩ := Prod.mk.inj hr
    obtain ⟨-, -, hfirst⟩ := h.default statics' inst hinit mioDefaultPoolNullStr
      (by decide +kernel)
    rw [firstNamed, show statics'.mioPools.list = [] from hpools] at hfirst
    cases hfirst

end CortxMio
