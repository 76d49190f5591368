import CortxMio.Conf.Spelling

/-!
# The names of the pools

A name is copied to its array together with its terminator. But `strnlen` is called with
the limit of a name, and what it returns is compared with the same limit, so no name
is ever too long (`CortxMio.confToken_name_ne`): of a long one 33 bytes are copied and none
of them is the terminator.

What a token does to the names is said once (`CortxMio.NamesStep`). From this follows
what every call leaves behind (`CortxMio.sound_mioConfInit`), and that the names are the
last ones that the tokens give (`CortxMio.named_of_confAfter`). The default pool is the
first one with the name that is looked for, if its terminator has been copied
(`CortxMio.confFinish_search`); there is a name that stands for none
(`CortxMio.confFinish_null`).
-/

namespace CortxMio

open Lib

/-! ### What the tokens say -/

/-- What the tokens of a file say about pools, and about a key of theirs. -/
structure EntryTrack extends PoolTrack where
  /-- For every pool the last value of the key. -/
  texts : List (Option CStr)

/-- Before the first token: the pools of an earlier call have no values here. -/
def EntryTrack.start (statics : ConfStatics) : EntryTrack where
  toPoolTrack := .start statics
  texts := statics.mioPools.list.map fun _ => none

/-- The last values of a key, after a token. -/
def textsAfter (k : ConfKey) (t : PoolTrack) (texts : List (Option CStr)) :
    YamlToken → List (Option CStr)
  | .scalar s => if t.isKey = false ∧ t.key = some k then texts.dropLast ++ [some s] else texts
  | .blockSequenceStart => if t.key = some .motrPools then [] else texts
  | .blockEntry => if t.started then texts ++ [none] else texts
  | _ => texts

/-- One more token. -/
def EntryTrack.token (k : ConfKey) (t : EntryTrack) (tok : YamlToken) : EntryTrack where
  toPoolTrack := t.toPoolTrack.token tok
  texts := textsAfter k t.toPoolTrack t.texts tok

/-- What some tokens say. -/
def entryTrack (k : ConfKey) (statics : ConfStatics) (toks : List YamlToken) : EntryTrack :=
  toks.foldl (EntryTrack.token k) (.start statics)

/-- The last values of a key, for every pool. -/
def entryTexts (k : ConfKey) (statics : ConfStatics) (toks : List YamlToken) :
    List (Option CStr) := (entryTrack k statics toks).texts

/-- The tokens up to the end of the stream. -/
abbrev streamToks (toks : List YamlToken) : List YamlToken :=
  toks.takeWhile fun tok => tok ≠ .streamEnd

/-! ### What is left behind -/

/-- The names of the pools. -/
def ConfStatics.poolNames (st : ConfStatics) : List (List Byte) :=
  st.mioPools.list.map MioPool.mpName

/-- The first pool with a name. -/
def firstNamed (pools : MioPools) (name : CStr) : Option ℕ :=
  pools.list.findIdx? fun pool => readBack pool.mpName = some name

/-- What every call leaves behind. -/
structure ConfStatics.Sound (st : ConfStatics) : Prop where
  /-- The number of pools is limited. -/
  nrPools : st.mioPools.mpsNrPools < mioMotrMaxPoolCnt
  /-- The names of the pools are arrays. -/
  names : ∀ mem ∈ st.poolNames, mem.length = mioPoolMaxNameLen + 1
  /-- So is the name of the default pool. -/
  default : st.mioDefaultPoolName.length = mioPoolMaxNameLen + 1
  /-- No default pool has been called `MIO_DEFAULT_POOL_NULL`. -/
  mps : readBack st.mioPools.mpsDefaultPoolName ≠ some mioDefaultPoolNullStr

variable {st st' : ConfState} {rc : ℤ}

/-! ### What is written -/

/-- What is written to a driver's configuration. -/
theorem exists_of_setMotr {f : MotrConf → MotrConf} (h : st.setMotr f = .ok (rc, st')) :
    ∃ conf, st.motrConf = some conf ∧ st' = { st with motrConf := some (f conf) } := by
  rw [ConfState.setMotr] at h
  split at h
  · cases h
  · next conf hconf =>
    obtain ⟨-, rfl⟩ := Prod.mk.inj (Except.ok.inj h)
    exact ⟨conf, hconf, rfl⟩

/-- What is written to a pool. -/
theorem setPool_of_list {pools : List MioPool} {pool : MioPool}
    (h : st.mioPools.list = pools ++ [pool]) (f : MioPool → MioPool) :
    st.setPool f = .ok (0, { st with mioPools :=
      { st.mioPools with mpsPools := some (pools ++ [f pool]) } }) := by
  rw [ConfState.setPool, h, List.getLast?_concat]
  simp only [List.dropLast_concat]

theorem exists_of_setPool {f : MioPool → MioPool} (h : st.setPool f = .ok (rc, st')) :
    ∃ pools pool, st.mioPools.list = pools ++ [pool] ∧ st' = { st with mioPools :=
      { st.mioPools with mpsPools := some (pools ++ [f pool]) } } := by
  have hne : st.mioPools.list ≠ [] := fun hnil => by
    rw [(setPool_oob_iff st f).mpr (congrArg List.length hnil)] at h
    cases h
  obtain ⟨pools, pool, hpools⟩ := (List.eq_nil_or_concat' _).resolve_left hne
  rw [setPool_of_list hpools] at h
  obtain ⟨-, rfl⟩ := Prod.mk.inj (Except.ok.inj h)
  exact ⟨pools, pool, hpools, rfl⟩

/-- **What the last part does**: it chooses the default pool. -/
theorem exists_of_confFinish (h : confFinish st = .ok (rc, st')) :
    st.mioInstDrvId ≠ .invalid ∧ ∃ idx name, st' = { st.finished with mioPools :=
      { st.mioPools with mpsDefaultPoolIdx := idx, mpsDefaultPoolName := name } } := by
  obtain ⟨hdrv, hasSet, -, hcases⟩ := confFinish_cases h
  rcases hcases with ⟨-, -, rfl⟩ | ⟨-, i, -, ⟨-, -, rfl⟩ | ⟨pool, -, -, rfl⟩⟩
  · exact ⟨hdrv, _, _, rfl⟩
  · exact ⟨hdrv, _, _, rfl⟩
  · exact ⟨hdrv, _, _, rfl⟩

/-! ### Names -/

/-- What is copied of a name. -/
def nameBytes (s : CStr) : List Byte :=
  s.buf.take (strnlen mioPoolMaxNameLen s.buf + 1)

/-- What a value leaves alone that is no name. -/
structure NamesKept (st st' : ConfState) : Prop where
  /-- The names of the pools. -/
  names : st'.poolNames = st.poolNames
  /-- The name to look for. -/
  default : st'.mioDefaultPoolName = st.mioDefaultPoolName
  /-- The name of the default pool. -/
  mps : st'.mioPools.mpsDefaultPoolName = st.mioPools.mpsDefaultPoolName

theorem NamesKept.refl (st : ConfState) : NamesKept st st := ⟨rfl, rfl, rfl⟩

theorem namesKept_of_ok {u : ConfState} {rc' : ℤ}
    (h : (.ok (rc', u) : ConfResult) = .ok (rc, st')) (hu : NamesKept st u) :
    NamesKept st st' := by
  obtain ⟨-, rfl⟩ := Prod.mk.inj (Except.ok.inj h)
  exact hu

theorem namesKept_setMotr {f : MotrConf → MotrConf} (h : st.setMotr f = .ok (rc, st')) :
    NamesKept st st' := by
  obtain ⟨conf, -, rfl⟩ := exists_of_setMotr h
  exact ⟨rfl, rfl, rfl⟩

theorem namesKept_setPool {f : MioPool → MioPool} (h : st.setPool f = .ok (rc, st'))
    (hf : ∀ p, (f p).mpName = p.mpName) : NamesKept st st' := by
  obtain ⟨pools, pool, hpools, rfl⟩ := exists_of_setPool h
  refine ⟨?_, rfl, rfl⟩
  rw [ConfStatics.poolNames, ConfStatics.poolNames, hpools, List.map_append, List.map_singleton,
    ← hf pool, ← List.map_singleton (f := MioPool.mpName), ← List.map_append]
  rfl

theorem namesKept_confAllocDriver (st : ConfState) (type : ConfType) :
    NamesKept st (confAllocDriver st type) := by
  cases type with
  | mio => exact .refl st
  | motr =>
    rw [confAllocDriver]
    split
    · exact .refl st
    · exact ⟨rfl, rfl, rfl⟩

/-- **A value that is no name.** -/
theorem namesKept_confExtractValue {stack : MioPoolId} {key : Option ConfKey} {value : CStr}
    {vlen : ℕ} (h : confExtractValue st stack key value vlen = .ok (rc, st'))
    (hname : key ≠ some .motrPoolName) (hdefault : key ≠ some .motrPoolDefault) :
    NamesKept st st' := by
  rw [confExtractValue.eq_def] at h
  dsimp only at h
  split at h
  case h_17 => exact absurd rfl hdefault
  case h_18 => exact absurd rfl hname
  case h_19 | h_20 =>
    -- the id and the type of a pool
    split at h
    · exact namesKept_of_ok h (.refl st)
    · exact namesKept_setPool h fun _ => rfl
  all_goals first
    | exact namesKept_of_ok h ⟨rfl, rfl, rfl⟩
    | exact namesKept_setMotr h

/-- **The name of a pool** is never too long. -/
theorem confExtractValue_poolName (st : ConfState) (stack : MioPoolId) (value : CStr) (vlen : ℕ) :
    confExtractValue st stack (some .motrPoolName) value vlen =
      st.setPool fun p => { p with mpName := putAt 0 (nameBytes value) p.mpName } :=
  if_neg (not_lt.mpr (strnlen_le _ _))

/-- Nor is the name of the default pool. -/
theorem confExtractValue_poolDefault (st : ConfState) (stack : MioPoolId) (value : CStr)
    (vlen : ℕ) : confExtractValue st stack (some .motrPoolDefault) value vlen = .ok (0, { st with
      mioDefaultPoolName := putAt 0 (nameBytes value) st.mioDefaultPoolName }) :=
  if_neg (not_lt.mpr (strnlen_le _ _))

/-- **No name is turned down.** -/
theorem confToken_name_ne {stack : MioPoolId} {s : CStr} (hisKey : st.isKey = false)
    (hkey : st.key = some .motrPoolName ∨ st.key = some .motrPoolDefault) :
    confToken st stack (.scalar s) ≠ .ok (-EINVAL, st') := by
  have hrc : (0 : ℤ) ≠ -EINVAL := by decide
  intro h
  rw [confToken, hisKey, if_neg (by decide)] at h
  rcases hkey with hkey | hkey
  · rw [hkey, confExtractValue_poolName, ConfState.setPool] at h
    split at h
    · cases h
    · exact hrc (Prod.mk.inj (Except.ok.inj h)).1
  · rw [hkey, confExtractValue_poolDefault] at h
    exact hrc (Prod.mk.inj (Except.ok.inj h)).1

theorem length_putAt_nameBytes (s : CStr) {mem : List Byte}
    (hmem : mem.length = mioPoolMaxNameLen + 1) :
    (putAt 0 (nameBytes s) mem).length = mioPoolMaxNameLen + 1 := by
  rw [length_putAt, hmem]
  have htake : (nameBytes s).length ≤ strnlen mioPoolMaxNameLen s.buf + 1 :=
    List.length_take_le _ _
  have hlen := strnlen_le mioPoolMaxNameLen s.buf
  omega

theorem nameBytes_eq_buf {s : CStr} (hs : s.length ≤ mioPoolMaxNameLen) : nameBytes s = s.buf := by
  rw [nameBytes, strnlen_buf, Nat.min_eq_right hs]
  exact List.take_of_length_le (List.length_append).le

/-- A name that is too long fills the array, and nothing in it is a terminator. -/
theorem nameBytes_of_long {s : CStr} (hs : mioPoolMaxNameLen < s.length) :
    (nameBytes s).length = mioPoolMaxNameLen + 1 ∧ 0 ∉ nameBytes s := by
  have hlen : mioPoolMaxNameLen + 1 ≤ s.bytes.length := hs
  have hbytes : nameBytes s = s.bytes.take (mioPoolMaxNameLen + 1) := by
    rw [nameBytes, strnlen_buf, Nat.min_eq_left hs.le, CStr.buf,
      List.take_append_of_le_length hlen]
  rw [hbytes, List.length_take, Nat.min_eq_left hlen]
  exact ⟨rfl, fun hc => s.noNul (List.mem_of_mem_take hc)⟩

/-- **A name that is not too long** is copied with its terminator. -/
theorem readBack_of_nameBytes {s : CStr} {mem : List Byte} (h : nameBytes s <+: mem)
    (hs : s.length ≤ mioPoolMaxNameLen) : readBack mem = some s :=
  readBack_eq_some_iff.mpr (nameBytes_eq_buf hs ▸ h)

/-- The array of a name, cleared. -/
theorem readBack_replicate : readBack (List.replicate (mioPoolMaxNameLen + 1) 0) ≠
    some mioDefaultPoolNullStr := by decide +kernel

/-- A token that says nothing of a name. -/
def Nameless (isKey : Bool) (key : Option ConfKey) (started : Bool) : YamlToken → Prop
  | .scalar _ => isKey = true ∨ key ≠ some .motrPoolName ∧ key ≠ some .motrPoolDefault
  | .blockSequenceStart => key ≠ some .motrPools
  | .blockEntry => started = false
  | _ => True

/-- **What a token does to the names.** -/
inductive NamesStep (st : ConfState) : YamlToken → ℤ → ConfState → Prop
  /-- Nothing. -/
  | kept {tok : YamlToken} {rc : ℤ} {st' : ConfState} (hkept : NamesKept st st')
      (htok : ¬ rc < 0 → Nameless st.isKey st.key st.confWhichBlkSeq tok) : NamesStep st tok rc st'
  /-- The last pool gets its name. -/
  | name (s : CStr) {rc : ℤ} {st' : ConfState} {names : List (List Byte)} {mem : List Byte}
      (hisKey : st.isKey = false) (hkey : st.key = some .motrPoolName)
      (hold : st.poolNames = names ++ [mem])
      (hnew : st'.poolNames = names ++ [putAt 0 (nameBytes s) mem])
      (hdefault : st'.mioDefaultPoolName = st.mioDefaultPoolName)
      (hmps : st'.mioPools.mpsDefaultPoolName = st.mioPools.mpsDefaultPoolName) :
      NamesStep st (.scalar s) rc st'
  /-- The default pool gets its name. -/
  | default (s : CStr) {rc : ℤ} {st' : ConfState} (hisKey : st.isKey = false)
      (hkey : st.key = some .motrPoolDefault) (hnames : st'.poolNames = st.poolNames)
      (hdefault : st'.mioDefaultPoolName = putAt 0 (nameBytes s) st.mioDefaultPoolName)
      (hmps : st'.mioPools.mpsDefaultPoolName = st.mioPools.mpsDefaultPoolName) :
      NamesStep st (.scalar s) rc st'
  /-- A list of pools begins. -/
  | list {rc : ℤ} {st' : ConfState} (hkey : st.key = some .motrPools)
      (hnames : st'.poolNames = [])
      (hdefault : st'.mioDefaultPoolName = st.mioDefaultPoolName)
      (hmps : readBack st'.mioPools.mpsDefaultPoolName ≠ some mioDefaultPoolNullStr) :
      NamesStep st .blockSequenceStart rc st'
  /-- A pool is added. -/
  | entry {rc : ℤ} {st' : ConfState} (hstarted : st.confWhichBlkSeq = true)
      (hnames : st'.poolNames = st.poolNames ++ [MioPool.zeroed.mpName])
      (hdefault : st'.mioDefaultPoolName = st.mioDefaultPoolName)
      (hmps : st'.mioPools.mpsDefaultPoolName = st.mioPools.mpsDefaultPoolName) :
      NamesStep st .blockEntry rc st'

/-- The names, after a value. -/
theorem namesStep_confExtractValue {stack : MioPoolId} {s : CStr} {vlen : ℕ}
    (hisKey : st.isKey = false)
    (h : confExtractValue st stack st.key s vlen = .ok (rc, st')) :
    NamesStep st (.scalar s) rc st' := by
  by_cases hname : st.key = some .motrPoolName
  · rw [hname, confExtractValue_poolName] at h
    obtain ⟨pools, pool, hpools, rfl⟩ := exists_of_setPool h
    have hold : st.poolNames = pools.map MioPool.mpName ++ [pool.mpName] := by
      rw [ConfStatics.poolNames, hpools, List.map_append, List.map_singleton]
    exact .name s hisKey hname hold List.map_append rfl rfl
  · by_cases hdefault : st.key = some .motrPoolDefault
    · rw [hdefault, confExtractValue_poolDefault] at h
      obtain ⟨-, rfl⟩ := Prod.mk.inj (Except.ok.inj h)
      exact .default s hisKey hdefault rfl rfl rfl
    · exact .kept (namesKept_confExtractValue h hname hdefault) fun _ => .inr ⟨hname, hdefault⟩

theorem namesStep_confStartBlock (h : confStartBlock st = .ok (rc, st')) :
    NamesStep st .blockEntry rc st' := by
  rw [confStartBlock] at h
  split at h
  · next hwhich =>
    split at h
    · obtain ⟨rfl, rfl⟩ := Prod.mk.inj (Except.ok.inj h)
      exact .kept (.refl st) fun hrc => absurd (by decide) hrc
    · split at h
      · cases h
      · next pools hpools =>
        obtain ⟨-, rfl⟩ := Prod.mk.inj (Except.ok.inj h)
        refine .entry hwhich ?_ rfl rfl
        rw [ConfStatics.poolNames, ConfStatics.poolNames, MioPools.list, MioPools.list, hpools,
          Option.getD_some, List.map_append]
        rfl
  · next hwhich =>
    obtain ⟨-, rfl⟩ := Prod.mk.inj (Except.ok.inj h)
    exact .kept (.refl st) fun _ => Bool.eq_false_iff.mpr hwhich

/-- **The names, after a token.** -/
theorem namesStep_confToken {stack : MioPoolId} {tok : YamlToken}
    (h : confToken st stack tok = .ok (rc, st')) : NamesStep st tok rc st' := by
  cases tok with
  | key | value | blockMappingStart | blockEnd | streamEnd | other =>
    obtain ⟨-, rfl⟩ := Prod.mk.inj (Except.ok.inj h)
    exact .kept ⟨rfl, rfl, rfl⟩ fun _ => trivial
  | blockSequenceStart =>
    have hst : (confExtractBlkSeq st st.key).2 = st' := congrArg Prod.snd (Except.ok.inj h)
    rw [← hst, confExtractBlkSeq.eq_def]
    split
    · next hkey => exact .list hkey rfl rfl readBack_replicate
    · next hkey => exact .kept (.refl st) fun _ => hkey
  | blockEntry => exact namesStep_confStartBlock h
  | scalar s =>
    rw [confToken] at h
    split at h
    · next hisKey =>
      refine .kept ?_ fun _ => .inl hisKey
      rw [confExtractKey] at h
      split at h
      · exact namesKept_of_ok h (.refl st)
      · next e he =>
        obtain ⟨hnames, hdefault, hmps⟩ := namesKept_confAllocDriver st e.type
        exact namesKept_of_ok h ⟨hnames, hdefault, hmps⟩
    · next hisKey => exact namesStep_confExtractValue (Bool.eq_false_iff.mpr hisKey) h

/-! ### What a call leaves behind -/

theorem ConfStatics.Sound.step {tok : YamlToken} {rc : ℤ} (hsound : st.Sound)
    (hnr : st'.mioPools.mpsNrPools < mioMotrMaxPoolCnt) (h : NamesStep st tok rc st') :
    st'.Sound := by
  cases h with
  | kept hkept htok =>
    obtain ⟨hnames, hdefault, hmps⟩ := hkept
    exact ⟨hnr, hnames ▸ hsound.names, hdefault ▸ hsound.default, hmps ▸ hsound.mps⟩
  | name s hisKey hkey hold hnew hdefault hmps =>
    refine ⟨hnr, ?_, hdefault ▸ hsound.default, hmps ▸ hsound.mps⟩
    rw [hnew]
    have hnames := hsound.names
    rw [hold] at hnames
    intro mem hmem
    rcases List.mem_append.mp hmem with hmem | hmem
    · exact hnames mem (List.mem_append_left _ hmem)
    · obtain rfl := List.mem_singleton.mp hmem
      exact length_putAt_nameBytes _ (hnames _ (List.mem_append_right _ List.mem_cons_self))
  | default s hisKey hkey hnames hdefault hmps =>
    refine ⟨hnr, hnames ▸ hsound.names, ?_, hmps ▸ hsound.mps⟩
    rw [hdefault]
    exact length_putAt_nameBytes _ hsound.default
  | list hkey hnames hdefault hmps =>
    refine ⟨hnr, ?_, hdefault ▸ hsound.default, hmps⟩
    rw [hnames]
    exact fun mem hmem => by cases hmem
  | entry hstarted hnames hdefault hmps =>
    refine ⟨hnr, ?_, hdefault ▸ hsound.default, hmps ▸ hsound.mps⟩
    rw [hnames]
    intro mem hmem
    rcases List.mem_append.mp hmem with hmem | hmem
    · exact hsound.names mem hmem
    · obtain rfl := List.mem_singleton.mp hmem
      exact List.length_replicate

/-- The variables when the process starts. -/
theorem sound_initial : ConfStatics.initial.Sound :=
  ⟨by decide, fun mem hmem => (by cases hmem), List.length_replicate, readBack_replicate⟩

theorem length_mioDefaultPoolNullStr :
    mioDefaultPoolNullStr.length < mioPoolMaxNameLen + 1 := by decide

/-- The name of the default pool, before the first token. -/
theorem sound_start {statics : ConfStatics} (h : statics.Sound) : statics.start.Sound := by
  refine ⟨h.nrPools, h.names, ?_, h.mps⟩
  show (putAt 0 mioDefaultPoolNullStr.buf statics.mioDefaultPoolName).length = _
  rw [length_putAt]
  · exact h.default
  · rw [h.default]
    decide

/-- **Whether a default pool is asked for.** -/
theorem hasSet_eq {name : List Byte} (hlen : name.length = mioPoolMaxNameLen + 1) :
    mioConfDefaultPoolHasSet name =
      .ok !decide (readBack name = some mioDefaultPoolNullStr) := by
  have hnull : readBack mioDefaultPoolNullStr.buf = some mioDefaultPoolNullStr :=
    readBack_eq_some_iff.mpr List.prefix_rfl
  rw [mioConfDefaultPoolHasSet, strEq_of_readBack hnull (hlen ▸ length_mioDefaultPoolNullStr)]

theorem hasSet_of_readBack {name : List Byte} {s : CStr}
    (hlen : name.length = mioPoolMaxNameLen + 1) (h : readBack name = some s) :
    mioConfDefaultPoolHasSet name = .ok !decide (s = mioDefaultPoolNullStr) := by
  rw [hasSet_eq hlen, h]
  simp only [Option.some.injEq]

theorem le_of_findDefaultPool {name : List Byte} {i j : ℕ} {pools : List MioPool}
    (h : findDefaultPool name i pools = .ok j) : i ≤ j := by
  induction pools generalizing i with
  | nil => exact (Except.ok.inj h).le
  | cons p pools ih =>
    rw [findDefaultPool] at h
    split at h
    · cases h
    · exact (Except.ok.inj h).le
    · exact (Nat.le_succ i).trans (ih h)

/-- The pool that is found has the name. -/
theorem strEq_of_findDefaultPool {name : List Byte} {i j : ℕ} {pools : List MioPool}
    {pool : MioPool} (h : findDefaultPool name i pools = .ok (i + j))
    (hpool : pools[j]? = some pool) : strEq pool.mpName name = some true := by
  induction pools generalizing i j with
  | nil => cases hpool
  | cons p pools ih =>
    rw [findDefaultPool] at h
    split at h
    · cases h
    · next heq =>
      have hj : j = 0 := by
        have := Except.ok.inj h
        omega
      subst hj
      obtain rfl := Option.some.inj hpool
      exact heq
    · next hne =>
      cases j with
      | zero =>
        have hle := le_of_findDefaultPool h
        omega
      | succ j =>
        rw [show i + (j + 1) = i + 1 + j by omega] at h
        exact ih h hpool

/-- **The last part** takes the name of the default pool from one that is not called
`MIO_DEFAULT_POOL_NULL`. -/
theorem ConfStatics.Sound.finish (hsound : st.Sound) (h : confFinish st = .ok (rc, st')) :
    st'.Sound := by
  obtain ⟨hnr, hnames, hdefault, hmps⟩ := hsound
  obtain ⟨-, hasSet, hset, hcases⟩ := confFinish_cases h
  rcases hcases with ⟨-, -, rfl⟩ | ⟨hyes, i, hfind, ⟨-, -, rfl⟩ | ⟨pool, hpool, -, rfl⟩⟩
  · exact ⟨hnr, hnames, hdefault, hmps⟩
  · exact ⟨hnr, hnames, hdefault, hmps⟩
  · refine ⟨hnr, hnames, hdefault, fun hnull => ?_⟩
    have hfound := strEq_of_findDefaultPool ((Nat.zero_add i).symm ▸ hfind) hpool
    obtain ⟨s, hs, hname⟩ := exists_of_strEq hfound
    obtain rfl := Option.some.inj (hs.symm.trans hnull)
    have hno := Except.ok.inj ((hasSet_of_readBack hdefault hname).symm.trans hset)
    rw [hyes, decide_eq_true rfl] at hno
    cases hno

/-- The variables are sound as long as tokens are read. -/
theorem sound_confScan {statics : ConfStatics} {stack : ℕ → MioPoolId} {toks : List YamlToken}
    (hsound : statics.Sound) (h : confScan stack toks statics.start = .ok (rc, st)) :
    st.Sound :=
  confScan_inv (I := fun st => st.Sound)
    (fun hst htok => hst.step (nrPools_confToken hst.nrPools htok) (namesStep_confToken htok))
    (sound_start hsound) h

/-- **Every call of `mio_conf_init`** leaves the variables sound, whatever it returns. -/
theorem sound_mioConfInit {statics statics' : ConfStatics} {stack : ℕ → MioPoolId}
    {toks : List YamlToken} {inst : MioInst} (hsound : statics.Sound)
    (h : mioConfInit statics stack toks = .ok (rc, statics', inst)) : statics'.Sound := by
  obtain ⟨rc₁, st₁, hscan, hcases⟩ := mioConfInit_cases h
  have hst₁ := sound_confScan hsound hscan
  rcases hcases with ⟨-, -, rfl⟩ | ⟨-, st₂, hfinish, rfl, -⟩
  · exact ⟨hst₁.nrPools, hst₁.names, hst₁.default, hst₁.mps⟩
  · exact hst₁.finish hfinish

/-! ### The names and the tokens -/

theorem entryTrack_concat (k : ConfKey) (statics : ConfStatics) (toks : List YamlToken)
    (tok : YamlToken) :
    entryTrack k statics (toks ++ [tok]) = (entryTrack k statics toks).token k tok :=
  List.foldl_concat _ _ _ _

theorem toPoolTrack_entryTrack (k : ConfKey) (statics : ConfStatics) (toks : List YamlToken) :
    (entryTrack k statics toks).toPoolTrack = poolTrack statics toks := by
  induction toks using List.reverseRecOn with
  | nil => rfl
  | append_singleton toks tok ih =>
    rw [entryTrack_concat, poolTrack, List.foldl_concat]
    exact congrArg (fun t => PoolTrack.token t tok) ih

theorem entryTexts_concat (k : ConfKey) (statics : ConfStatics) (toks : List YamlToken)
    (tok : YamlToken) : entryTexts k statics (toks ++ [tok]) =
      textsAfter k (poolTrack statics toks) (entryTexts k statics toks) tok := by
  rw [entryTexts, entryTrack_concat, ← toPoolTrack_entryTrack k]
  rfl

/-- The array of a name that is given to a pool, or of a pool that is given none. -/
def Named (P : List Byte → Prop) (text : Option CStr) (mem : List Byte) : Prop :=
  match text with
  | none => P mem
  | some s => nameBytes s <+: mem

/-- A token that says nothing of a name. -/
theorem textsAfter_nameless {t : PoolTrack} {tok : YamlToken} (texts : List (Option CStr))
    (h : Nameless t.isKey t.key t.started tok) : textsAfter .motrPoolName t texts tok = texts := by
  cases tok with
  | scalar s =>
    rcases h with hisKey | ⟨hname, -⟩
    · have hno : ¬ (t.isKey = false ∧ t.key = some .motrPoolName) := fun hc => by
        rw [hisKey] at hc
        cases hc.1
      exact if_neg hno
    · exact if_neg fun hc => hname hc.2
  | blockSequenceStart => exact if_neg h
  | blockEntry => exact if_neg (Bool.eq_false_iff.mp h)
  | _ => rfl

/-- **The names of the pools, after a token.** -/
theorem named_step {P : List Byte → Prop} {t : PoolTrack} {texts : List (Option CStr)}
    {tok : YamlToken} {rc : ℤ} (hP : P MioPool.zeroed.mpName) (ht : t.Agrees st)
    (hnames : List.Forall₂ (Named P) texts st.poolNames) (h : NamesStep st tok rc st')
    (hrc : ¬ rc < 0) :
    List.Forall₂ (Named P) (textsAfter .motrPoolName t texts tok) st'.poolNames := by
  cases h with
  | kept hkept htok =>
    have hquiet := htok hrc
    rw [← ht.isKey, ← ht.key, ← ht.started] at hquiet
    rw [textsAfter_nameless texts hquiet, hkept.names]
    exact hnames
  | name s hisKey hkey hold hnew =>
    rw [hold] at hnames
    have hlast : texts.dropLast = texts.take _ := List.dropLast_eq_take
    rw [hnames.length_eq, List.length_append, List.length_singleton, Nat.add_sub_cancel] at hlast
    have hafter : textsAfter .motrPoolName t texts (.scalar s) = texts.dropLast ++ [some s] :=
      if_pos ⟨ht.isKey.trans hisKey, ht.key.trans hkey⟩
    rw [hafter, hnew, hlast]
    exact List.rel_append (List.forall₂_take_append _ _ _ hnames)
      (.cons (prefix_putAt List.nil_prefix rfl _) .nil)
  | default s hisKey hkey hsame =>
    have hafter : textsAfter .motrPoolName t texts (.scalar s) = texts := if_neg fun hc => by
      have hname := ht.key.symm.trans hc.2
      rw [hkey] at hname
      cases hname
    rw [hafter, hsame]
    exact hnames
  | list hkey hnil =>
    rw [textsAfter, if_pos (ht.key.trans hkey), hnil]
    exact .nil
  | entry hstarted hnew =>
    rw [textsAfter, if_pos (ht.started.trans hstarted), hnew]
    exact List.rel_append hnames (.cons hP .nil)

/-- **The names of the pools**, behind all tokens that are reached. -/
theorem named_of_confAfter {P : List Byte → Prop} {statics : ConfStatics}
    {stack : ℕ → MioPoolId} {toks : List YamlToken} (hP : P MioPool.zeroed.mpName)
    (hold : ∀ mem ∈ statics.poolNames, P mem)
    (hstatics : statics.mioPools.mpsNrPools < mioMotrMaxPoolCnt)
    (h : confAfter stack toks statics.start = some st) :
    List.Forall₂ (Named P) (entryTexts .motrPoolName statics toks) st.poolNames := by
  refine confAfter_inv (I := fun pre st =>
    List.Forall₂ (Named P) (entryTexts .motrPoolName statics pre) st.poolNames) ?_ ?_
      (List.prefix_rfl : toks <+: toks) h
  · have htexts : entryTexts .motrPoolName statics [] = statics.poolNames.map fun _ => none := by
      rw [ConfStatics.poolNames, List.map_map]
      rfl
    rw [htexts]
    exact List.forall₂_map_left_iff.mpr (List.forall₂_same.mpr hold)
  · intro pre post tok st₁ st₂ rc _ _ hafter hnames hok hrc
    rw [entryTexts_concat]
    exact named_step hP (poolTrack_agrees hstatics hafter) hnames (namesStep_confToken hok) hrc

/-- **A value of a pool** is one that is reached. -/
theorem exists_of_mem_entryTexts {k : ConfKey} {statics : ConfStatics} {stack : ℕ → MioPoolId}
    {toks : List YamlToken} {s : CStr}
    (hstatics : statics.mioPools.mpsNrPools < mioMotrMaxPoolCnt)
    (h : confAfter stack toks statics.start = some st) (hs : some s ∈ entryTexts k statics toks) :
    ∃ pre post st₁, toks = pre ++ .scalar s :: post ∧
      confAfter stack pre statics.start = some st₁ ∧ st₁.isKey = false ∧ st₁.key = some k := by
  revert hs
  refine confAfter_inv (I := fun pre' _ => some s ∈ entryTexts k statics pre' →
    ∃ pre post st₁, pre' = pre ++ .scalar s :: post ∧
      confAfter stack pre statics.start = some st₁ ∧ st₁.isKey = false ∧ st₁.key = some k) ?_ ?_
      (List.prefix_rfl : toks <+: toks) h
  · intro hs
    obtain ⟨-, -, hnone⟩ := List.mem_map.mp hs
    cases hnone
  · intro pre' post' tok st₁ st₂ rc _ _ hafter ih hok hrc hs
    have hagrees := poolTrack_agrees hstatics hafter
    have hold : some s ∈ entryTexts k statics pre' → ∃ pre post st₁,
        pre' ++ [tok] = pre ++ .scalar s :: post ∧
          confAfter stack pre statics.start = some st₁ ∧ st₁.isKey = false ∧
            st₁.key = some k := by
      intro hmem
      obtain ⟨pre, post, st₃, rfl, hrest⟩ := ih hmem
      exact ⟨pre, post ++ [tok], st₃, by simp, hrest⟩
    rw [entryTexts_concat] at hs
    cases tok with
    | scalar s' =>
      rw [textsAfter] at hs
      split at hs
      · next hvalue =>
        rcases List.mem_append.mp hs with hmem | hmem
        · exact hold (List.dropLast_subset _ hmem)
        · obtain rfl := Option.some.inj (List.mem_singleton.mp hmem)
          exact ⟨pre', [], st₁, rfl, hafter, hagrees.isKey.symm.trans hvalue.1,
            hagrees.key.symm.trans hvalue.2⟩
      · exact hold hs
    | blockSequenceStart =>
      rw [textsAfter] at hs
      split at hs
      · cases hs
      · exact hold hs
    | blockEntry =>
      rw [textsAfter] at hs
      split at hs
      · rcases List.mem_append.mp hs with hmem | hmem
        · exact hold hmem
        · cases List.mem_singleton.mp hmem
      · exact hold hs
    | key | value | blockMappingStart | blockEnd | streamEnd | other => exact hold hs

/-- The last value of a key is one that is reached. -/
theorem exists_of_lastText {k : ConfKey} {stack : ℕ → MioPoolId} {toks : List YamlToken}
    {text : Option CStr} {s : CStr} (h : confScan stack toks st = .ok (rc, st')) (hrc : ¬ rc < 0)
    (hs : lastText k st.isKey st.key text toks = some s) : text = some s ∨
      ∃ pre post st₁, toks = pre ++ .scalar s :: post ∧ confAfter stack pre st = some st₁ ∧
        st₁.isKey = false ∧ st₁.key = some k := by
  induction toks generalizing stack st text with
  | nil => cases h
  | cons tok toks ih =>
    rw [confScan] at h
    split at h
    · next htok =>
      subst htok
      exact .inl hs
    · next htok =>
      obtain ⟨⟨rc₁, st₁⟩, htoken, h⟩ := bind_eq_ok_iff.mp h
      simp only at h
      split at h
      · next hneg =>
        obtain ⟨rfl, -⟩ := Prod.mk.inj (Except.ok.inj h)
        exact absurd hneg hrc
      · next hrc₁ =>
        obtain ⟨hisKey, hkey⟩ := position_confToken htoken hrc₁
        rw [lastText_cons htok, ← hisKey, ← hkey] at hs
        rcases ih h hs with hnow | ⟨pre, post, st₂, htoks, hafter, hvalue⟩
        · cases tok with
          | scalar s' =>
            rw [textAfter] at hnow
            split at hnow
            · exact .inl hnow
            · next hval =>
              split at hnow
              · next hk =>
                obtain rfl := Option.some.inj hnow
                exact .inr ⟨[], toks, st, rfl, rfl, Bool.eq_false_iff.mpr hval, hk⟩
              · exact .inl hnow
          | _ => exact .inl hnow
        · refine .inr ⟨tok :: pre, post, st₂, by rw [htoks]; rfl, ?_, hvalue⟩
          rw [confAfter, if_neg htok, htoken]
          exact (if_neg hrc₁).trans hafter

/-- The name of the default pool, after the last value of its key. -/
def DefaultIs (text : Option CStr) (st : ConfState) : Prop :=
  nameBytes (text.getD mioDefaultPoolNullStr) <+: st.mioDefaultPoolName

/-- **One token.** -/
theorem DefaultIs.token {text : Option CStr} {tok : YamlToken} {rc : ℤ}
    (hdefault : DefaultIs text st) (h : NamesStep st tok rc st') (hrc : ¬ rc < 0) :
    DefaultIs (textAfter .motrPoolDefault st.isKey st.key text tok) st' := by
  rw [DefaultIs] at hdefault ⊢
  cases h with
  | kept hkept htok =>
    rw [hkept.default]
    cases tok with
    | scalar s =>
      rw [textAfter]
      rcases htok hrc with hisKey | ⟨-, hkey⟩
      · rw [if_pos hisKey]
        exact hdefault
      · rw [if_neg hkey, ite_self]
        exact hdefault
    | _ => exact hdefault
  | name s hisKey hkey hold hnew hsame =>
    rw [hsame, textAfter, hisKey, hkey]
    exact hdefault
  | default s hisKey hkey hnames hnew =>
    rw [hnew, textAfter, hisKey, hkey]
    exact prefix_putAt List.nil_prefix rfl _
  | list hkey hnames hsame =>
    rw [hsame]
    exact hdefault
  | entry hstarted hnames hsame =>
    rw [hsame]
    exact hdefault

/-- **The name of the default pool**, behind all tokens. -/
theorem defaultIs_of_confScan {statics : ConfStatics} {stack : ℕ → MioPoolId}
    {toks : List YamlToken} (h : confScan stack toks statics.start = .ok (rc, st))
    (hrc : ¬ rc < 0) : DefaultIs (lastText .motrPoolDefault true none none toks) st := by
  have hstart : DefaultIs none statics.start := prefix_putAt List.nil_prefix rfl _
  exact confScan_lastText (fun hI htok hrc => hI.token (namesStep_confToken htok) hrc) hstart h hrc

/-! ### The default pool -/

/-- **The search for the default pool** finds the first one with its name. -/
theorem findDefaultPool_eq {name : List Byte} {s : CStr} {pools : List MioPool} (i : ℕ)
    (hname : readBack name = some s) (hlen : ∀ pool ∈ pools, s.length < pool.mpName.length) :
    findDefaultPool name i pools =
      .ok (i + pools.findIdx fun pool => readBack pool.mpName = some s) := by
  induction pools generalizing i with
  | nil => rfl
  | cons pool pools ih =>
    have heq := strEq_of_readBack hname (hlen pool List.mem_cons_self)
    rw [findDefaultPool, heq, List.findIdx_cons]
    by_cases hpool : readBack pool.mpName = some s
    · rw [decide_eq_true hpool]
      rfl
    · rw [decide_eq_false hpool]
      simp only [cond_false]
      rw [ih (i + 1) fun p hp => hlen p (List.mem_cons_of_mem _ hp)]
      congr 1
      omega

/-- **No default pool is asked for** by the name that stands for none. -/
theorem confFinish_null (hdrv : st.mioInstDrvId ≠ .invalid) (hsound : st.Sound)
    (hname : readBack st.mioDefaultPoolName = some mioDefaultPoolNullStr) :
    confFinish st = .ok (0, st.finished) := by
  have hset := hasSet_of_readBack hsound.default hname
  rw [decide_eq_true rfl] at hset
  rw [confFinish, if_neg hdrv]
  simp only
  rw [hset, ok_bind]
  rfl

/-- **Any other name is looked for.** -/
theorem confFinish_search {s : CStr} (hdrv : st.mioInstDrvId ≠ .invalid) (hsound : st.Sound)
    (hname : readBack st.mioDefaultPoolName = some s) (hs : s ≠ mioDefaultPoolNullStr) :
    confFinish st = match st.mioPools.list[st.mioPools.list.findIdx
        fun pool => readBack pool.mpName = some s]? with
      | none => .ok (-EINVAL, st.finished)
      | some pool => .ok (0, { st.finished with mioPools :=
          { st.mioPools with
            mpsDefaultPoolIdx := st.mioPools.list.findIdx fun pool => readBack pool.mpName = some s
            mpsDefaultPoolName := pool.mpName } }) := by
  have hset := hasSet_of_readBack hsound.default hname
  rw [decide_eq_false hs] at hset
  have hlen : s.length < mioPoolMaxNameLen + 1 := hsound.default ▸ length_lt_of_readBack hname
  have hfind := findDefaultPool_eq 0 hname fun pool hpool =>
    (hsound.names pool.mpName (List.mem_map_of_mem hpool)).symm ▸ hlen
  rw [Nat.zero_add] at hfind
  rw [confFinish, if_neg hdrv]
  simp only
  rw [hset, ok_bind, Bool.not_false, if_pos rfl, hfind, ok_bind]
  rfl

/-- The default pool is none of the pools. -/
theorem confFinish_none {s : CStr} (hdrv : st.mioInstDrvId ≠ .invalid) (hsound : st.Sound)
    (hname : readBack st.mioDefaultPoolName = some s) (hs : s ≠ mioDefaultPoolNullStr)
    (hnone : firstNamed st.mioPools s = none) :
    confFinish st = .ok (-EINVAL, st.finished) := by
  rw [confFinish_search hdrv hsound hname hs, List.findIdx?_eq_none_iff_findIdx_eq.mp hnone,
    List.getElem?_eq_none le_rfl]

/-- The default pool is the first one with its name. -/
theorem exists_of_confFinish_ok {s : CStr} (hsound : st.Sound)
    (hname : readBack st.mioDefaultPoolName = some s) (hs : s ≠ mioDefaultPoolNullStr)
    (h : confFinish st = .ok (0, st')) : st'.mioDefaultPoolName = st.mioDefaultPoolName ∧
      readBack st'.mioPools.mpsDefaultPoolName = some s ∧
        firstNamed st'.mioPools s = some st'.mioPools.mpsDefaultPoolIdx := by
  have hdrv := (exists_of_confFinish h).1
  rw [confFinish_search hdrv hsound hname hs] at h
  split at h
  · exact absurd (Prod.mk.inj (Except.ok.inj h)).1 (by decide)
  · next pool hpool =>
    obtain ⟨-, rfl⟩ := Prod.mk.inj (Except.ok.inj h)
    obtain ⟨hlt, hget⟩ := List.getElem?_eq_some_iff.mp hpool
    refine ⟨rfl, ?_, List.findIdx?_eq_some_iff_findIdx_eq.mpr ⟨hlt, rfl⟩⟩
    rw [← hget]
    exact of_decide_eq_true (List.findIdx_getElem (w := hlt))

end CortxMio
