import CortxMio.Conf.Strings

/-!
# One file in two processes

What the tokens of a file do to the variables of a new process they do to those of any
other, whatever earlier calls have left there. What the two have in common after each
token is a relation between them (`CortxMio.SameFile`): the last key is the same, the name
of the default pool cannot be told apart by any comparison, and once a list of pools
has begun the pools are the same but for their ids.

For this no entry of a sequence may come before the list of pools: behind an earlier
call there it is a new pool. The ids are left out because an id that is not two numbers
is filled up from the stack; what they are is said by the values that are given and by
what the stacks may hold (`CortxMio.IdOf`). So every process comes to the token that a
new one comes to (`CortxMio.sameFile_confAfter`), and then finds the same default pool
(`CortxMio.sameFile_confFinish`).
-/

namespace CortxMio

open Lib

variable {st₁ st₂ st₁' : ConfState} {rc : ℤ}

/-! ### Two processes -/

/-- Two arrays that no comparison tells apart. -/
def SameText (a b : List Byte) : Prop := ∀ x, strEq x a = strEq x b

/-- A pool but for its id. -/
def MioPool.anon (pool : MioPool) : MioPool := { pool with mpId := ⟨0, 0⟩ }

/-- The pools but for their ids. -/
structure PoolsAlike (pools₁ pools₂ : MioPools) : Prop where
  /-- The index of the default pool. -/
  idx : pools₁.mpsDefaultPoolIdx = pools₂.mpsDefaultPoolIdx
  /-- Its name. -/
  name : pools₁.mpsDefaultPoolName = pools₂.mpsDefaultPoolName
  /-- There is memory for the pools. -/
  isSome : pools₁.mpsPools.isSome ∧ pools₂.mpsPools.isSome
  /-- The pools. -/
  pools : pools₁.list.map MioPool.anon = pools₂.list.map MioPool.anon

/-- The keys of the configuration of the driver. -/
def motrKeys : List ConfKey :=
  [.motrInstAddr, .motrHaAddr, .motrProfile, .motrProcessFid, .motrTmRecvQueueMinLen,
    .motrMaxRpcMsgSize, .motrMaxIosizePerDev, .motrDefaultUnitSize, .motrIsOostore,
    .motrIsReadVerify, .motrUserGroup]

/-- Behind such a key there is a configuration. -/
def ConfState.MotrReady (st : ConfState) : Prop :=
  ∀ k ∈ motrKeys, st.key = some k → st.motrConf.isSome

/-- **The same file is read in two processes**, the first of which is a new one. -/
structure SameFile (st₁ st₂ : ConfState) : Prop where
  /-- What the next scalar is. -/
  isKey : st₂.isKey = st₁.isKey
  /-- The last key. -/
  key : st₂.key = st₁.key
  /-- There is a configuration behind the keys of the driver. -/
  ready : st₁.MotrReady ∧ st₂.MotrReady
  /-- Before the list of pools there are no pools in the new process. -/
  fresh : st₁.confWhichBlkSeq = false → st₁.mioPools.mpsPools = none
  /-- From there on the pools are alike. -/
  pools : st₁.confWhichBlkSeq = true →
    st₂.confWhichBlkSeq = true ∧ PoolsAlike st₁.mioPools st₂.mioPools
  /-- The arrays of the default pool. -/
  length : st₁.mioDefaultPoolName.length = mioPoolMaxNameLen + 1 ∧
    st₂.mioDefaultPoolName.length = mioPoolMaxNameLen + 1
  /-- The name of the default pool. -/
  default : SameText st₁.mioDefaultPoolName st₂.mioDefaultPoolName

/-- **A name that is copied** hides what has been in the array. -/
theorem sameText_putAt (s : CStr) {a b : List Byte} (ha : a.length = mioPoolMaxNameLen + 1)
    (hb : b.length = mioPoolMaxNameLen + 1) :
    SameText (putAt 0 (nameBytes s) a) (putAt 0 (nameBytes s) b) := by
  intro x
  rw [putAt, putAt, List.take_zero, List.take_zero, List.nil_append, Nat.zero_add]
  by_cases hs : s.length ≤ mioPoolMaxNameLen
  · refine strEq_append_of_zero ?_ x _ _
    rw [nameBytes_eq_buf hs, CStr.buf]
    exact List.mem_append_right _ List.mem_cons_self
  · have hlen := (nameBytes_of_long (not_le.mp hs)).1
    rw [List.drop_of_length_le (by omega), List.drop_of_length_le (by omega)]

theorem anon_eq_iff {p q : MioPool} :
    p.anon = q.anon ↔ p.mpName = q.mpName ∧ p.mpType = q.mpType := by
  rw [MioPool.anon, MioPool.anon, MioPool.mk.injEq]
  simp

theorem anon_eq_of_append {pools₁ pools₂ : List MioPool} {pool₁ : MioPool}
    (h : (pools₁ ++ [pool₁]).map MioPool.anon = pools₂.map MioPool.anon) :
    ∃ init pool₂, pools₂ = init ++ [pool₂] ∧ pools₁.map MioPool.anon = init.map MioPool.anon ∧
      pool₁.anon = pool₂.anon := by
  rw [List.map_append] at h
  obtain ⟨init, last, rfl, hinit, hlast⟩ := List.map_eq_append_iff.mp h.symm
  obtain ⟨pool₂, rfl, hpool⟩ := List.map_eq_singleton_iff.mp hlast
  exact ⟨init, pool₂, rfl, hinit.symm, hpool.symm⟩

/-- **A pool is written to** in both processes. -/
theorem sameFile_setPool {f g : MioPool → MioPool} (h : SameFile st₁ st₂)
    (hfg : ∀ p q : MioPool, p.anon = q.anon → (f p).anon = (g q).anon)
    (hok : st₁.setPool f = .ok (rc, st₁')) :
    ∃ st₂', st₂.setPool g = .ok (rc, st₂') ∧ SameFile st₁' st₂' := by
  obtain ⟨pools₁, pool₁, hpools₁, -⟩ := exists_of_setPool hok
  rw [setPool_of_list hpools₁] at hok
  obtain ⟨rfl, rfl⟩ := Prod.mk.inj (Except.ok.inj hok)
  have hwhich : st₁.confWhichBlkSeq = true := by
    by_contra hc
    rw [MioPools.list, h.fresh (Bool.eq_false_iff.mpr hc)] at hpools₁
    simp at hpools₁
  obtain ⟨hwhich₂, halike⟩ := h.pools hwhich
  have hanon := halike.pools
  rw [hpools₁] at hanon
  obtain ⟨pools₂, pool₂, hpools₂, hinit, hlast⟩ := anon_eq_of_append hanon
  refine ⟨_, setPool_of_list hpools₂ g, ⟨h.isKey, h.key, h.ready, ?_, ?_, h.length, h.default⟩⟩
  · exact fun hc => absurd hwhich (Bool.eq_false_iff.mp hc)
  · refine fun _ => ⟨hwhich₂, halike.idx, halike.name, ⟨rfl, rfl⟩, ?_⟩
    show (pools₁ ++ [f pool₁]).map MioPool.anon = (pools₂ ++ [g pool₂]).map MioPool.anon
    rw [List.map_append, List.map_append, hinit, List.map_singleton, List.map_singleton,
      hfg _ _ hlast]

/-- **The configuration of the driver is written to** in both processes. -/
theorem sameFile_setMotr {f : MotrConf → MotrConf} (h : SameFile st₁ st₂)
    (hconf : st₂.motrConf.isSome) (hok : st₁.setMotr f = .ok (rc, st₁')) :
    ∃ st₂', st₂.setMotr f = .ok (rc, st₂') ∧ SameFile st₁' st₂' := by
  obtain ⟨conf₂, hconf₂⟩ := Option.isSome_iff_exists.mp hconf
  rw [ConfState.setMotr] at hok ⊢
  rw [hconf₂]
  split at hok
  · cases hok
  · obtain ⟨rfl, rfl⟩ := Prod.mk.inj (Except.ok.inj hok)
    exact ⟨_, rfl, h.isKey, h.key, ⟨fun _ _ _ => rfl, fun _ _ _ => rfl⟩, h.fresh, h.pools,
      h.length, h.default⟩

/-- **A value** does the same in both processes, whatever the stacks hold. -/
theorem sameFile_confExtractValue {stack₁ stack₂ : MioPoolId} {key : Option ConfKey}
    {value : CStr} {vlen : ℕ} (h : SameFile st₁ st₂) (hkey : st₁.key = key)
    (hok : confExtractValue st₁ stack₁ key value vlen = .ok (rc, st₁')) :
    ∃ st₂', confExtractValue st₂ stack₂ key value vlen = .ok (rc, st₂') ∧ SameFile st₁' st₂' := by
  have hready : ∀ k ∈ motrKeys, key = some k → st₂.motrConf.isSome := fun k hk hc =>
    h.ready.2 k hk (h.key.trans (hkey.trans hc))
  rw [confExtractValue.eq_def] at hok ⊢
  dsimp only at hok ⊢
  split at hok
  case h_17 =>
    -- the name of the default pool
    have hlen : ¬ strnlen mioPoolMaxNameLen value.buf > mioPoolMaxNameLen :=
      not_lt.mpr (strnlen_le _ _)
    rw [if_neg hlen] at hok
    obtain ⟨rfl, rfl⟩ := Prod.mk.inj (Except.ok.inj hok)
    refine ⟨_, if_neg hlen, h.isKey, h.key, h.ready, h.fresh, h.pools, ?_, ?_⟩
    · exact ⟨length_putAt_nameBytes value h.length.1, length_putAt_nameBytes value h.length.2⟩
    · exact sameText_putAt value h.length.1 h.length.2
  case h_18 =>
    -- the name of a pool
    have hlen : ¬ strnlen mioPoolMaxNameLen value.buf > mioPoolMaxNameLen :=
      not_lt.mpr (strnlen_le _ _)
    rw [if_neg hlen] at hok ⊢
    refine sameFile_setPool h (fun p q hpq => ?_) hok
    obtain ⟨hname, htype⟩ := anon_eq_iff.mp hpq
    exact anon_eq_iff.mpr ⟨congrArg (putAt 0 (nameBytes value)) hname, htype⟩
  case h_19 =>
    -- the id of a pool
    rw [confPoolIdSscanf_eq] at hok ⊢
    by_cases hneg : (poolIdSscanf value.bytes).1 < 0
    · rw [if_pos hneg] at hok ⊢
      obtain ⟨rfl, rfl⟩ := Prod.mk.inj (Except.ok.inj hok)
      exact ⟨_, rfl, h⟩
    · rw [if_neg hneg] at hok ⊢
      refine sameFile_setPool h (fun p q hpq => ?_) hok
      exact anon_eq_iff.mpr (anon_eq_iff.mp hpq)
  case h_20 =>
    -- the type of a pool
    split at hok
    · obtain ⟨rfl, rfl⟩ := Prod.mk.inj (Except.ok.inj hok)
      exact ⟨_, rfl, h⟩
    · refine sameFile_setPool h (fun p q hpq => ?_) hok
      exact anon_eq_iff.mpr ⟨(anon_eq_iff.mp hpq).1, rfl⟩
  case h_6 | h_7 | h_8 | h_9 | h_10 | h_11 | h_12 | h_13 | h_14 | h_15 | h_16 =>
    exact sameFile_setMotr h (hready _ (by decide) rfl) hok
  all_goals
    obtain ⟨rfl, rfl⟩ := Prod.mk.inj (Except.ok.inj hok)
    exact ⟨_, rfl, h.isKey, h.key, h.ready, h.fresh, h.pools, h.length, h.default⟩

/-- A key that is one of the driver has its configuration allocated. -/
theorem type_of_motrKeys : ∀ e ∈ confTable, e.key ∈ motrKeys → e.type = .motr := by decide

theorem motrReady_confAllocDriver {e : ConfEntry} (he : e ∈ confTable) (st : ConfState) :
    ({ confAllocDriver st e.type with key := some e.key } : ConfState).MotrReady := by
  intro k hk hkey
  obtain rfl := Option.some.inj hkey
  rw [type_of_motrKeys e he hk]
  show (confAllocDriver st .motr).motrConf.isSome = true
  rw [confAllocDriver]
  cases hconf : st.motrConf with
  | some conf =>
    simp only
    rw [hconf]
    rfl
  | none => rfl

theorem exists_confAllocDriver (st : ConfState) (type : ConfType) :
    ∃ conf, confAllocDriver st type = { st with motrConf := conf } := by
  cases type with
  | mio => exact ⟨st.motrConf, rfl⟩
  | motr =>
    rw [confAllocDriver]
    split
    · exact ⟨st.motrConf, rfl⟩
    · exact ⟨_, rfl⟩

/-- A list of pools begins in both processes. -/
theorem sameFile_confExtractBlkSeq (h : SameFile st₁ st₂) (key : Option ConfKey) :
    SameFile (confExtractBlkSeq st₁ key).2 (confExtractBlkSeq st₂ key).2 ∧
      (confExtractBlkSeq st₁ key).1 = (confExtractBlkSeq st₂ key).1 := by
  unfold confExtractBlkSeq
  split
  · refine ⟨⟨h.isKey, h.key, h.ready, ?_, ?_, h.length, h.default⟩, rfl⟩
    · exact fun hc => by cases hc
    · exact fun _ => ⟨rfl, rfl, rfl, ⟨rfl, rfl⟩, rfl⟩
  · exact ⟨h, rfl⟩

/-- A pool is added in both processes. -/
theorem sameFile_confStartBlock (h : SameFile st₁ st₂) (hwhich : st₁.confWhichBlkSeq = true)
    (hok : confStartBlock st₁ = .ok (rc, st₁')) :
    ∃ st₂', confStartBlock st₂ = .ok (rc, st₂') ∧ SameFile st₁' st₂' := by
  obtain ⟨hwhich₂, halike⟩ := h.pools hwhich
  have hnr : st₁.mioPools.mpsNrPools = st₂.mioPools.mpsNrPools := by
    have hlen := congrArg List.length halike.pools
    rwa [List.length_map, List.length_map] at hlen
  obtain ⟨pools₁, hpools₁⟩ := Option.isSome_iff_exists.mp halike.isSome.1
  obtain ⟨pools₂, hpools₂⟩ := Option.isSome_iff_exists.mp halike.isSome.2
  have hanon := halike.pools
  rw [MioPools.list, MioPools.list, hpools₁, hpools₂] at hanon
  rw [confStartBlock, if_pos hwhich, hpools₁] at hok
  rw [confStartBlock, if_pos hwhich₂, hpools₂, ← hnr]
  split at hok
  · next hmax =>
    obtain ⟨rfl, rfl⟩ := Prod.mk.inj (Except.ok.inj hok)
    exact ⟨_, if_pos hmax, h⟩
  · next hmax =>
    obtain ⟨rfl, rfl⟩ := Prod.mk.inj (Except.ok.inj hok)
    refine ⟨_, if_neg hmax, h.isKey, h.key, h.ready, ?_, ?_, h.length, h.default⟩
    · exact fun hc => absurd hwhich (Bool.eq_false_iff.mp hc)
    · refine fun _ => ⟨hwhich₂, halike.idx, halike.name, ⟨rfl, rfl⟩, ?_⟩
      show (pools₁ ++ [MioPool.zeroed]).map MioPool.anon =
        (pools₂ ++ [MioPool.zeroed]).map MioPool.anon
      rw [List.map_append, List.map_append]
      exact congrArg (· ++ _) hanon

/-- **One token** does the same in both processes, but for the entry of a sequence before
the list of pools. -/
theorem sameFile_confToken {stack₁ : MioPoolId} (stack₂ : MioPoolId) {tok : YamlToken}
    (h : SameFile st₁ st₂) (hentry : tok = .blockEntry → st₁.confWhichBlkSeq = true)
    (hok : confToken st₁ stack₁ tok = .ok (rc, st₁')) :
    ∃ st₂', confToken st₂ stack₂ tok = .ok (rc, st₂') ∧ SameFile st₁' st₂' := by
  cases tok with
  | key | value =>
    obtain ⟨rfl, rfl⟩ := Prod.mk.inj (Except.ok.inj hok)
    exact ⟨_, rfl, rfl, h.key, h.ready, h.fresh, h.pools, h.length, h.default⟩
  | blockMappingStart | blockEnd | streamEnd | other =>
    obtain ⟨rfl, rfl⟩ := Prod.mk.inj (Except.ok.inj hok)
    exact ⟨_, rfl, h⟩
  | blockSequenceStart =>
    rw [confToken] at hok ⊢
    rw [h.key]
    obtain ⟨hsame, hrc⟩ := sameFile_confExtractBlkSeq h st₁.key
    rw [Except.ok.inj hok] at hsame hrc
    exact ⟨(confExtractBlkSeq st₂ st₁.key).2, congrArg Except.ok (Prod.ext hrc.symm rfl), hsame⟩
  | blockEntry => exact sameFile_confStartBlock h (hentry rfl) hok
  | scalar s =>
    rw [confToken] at hok ⊢
    rw [h.isKey, h.key]
    split at hok
    · next hisKey =>
      rw [if_pos hisKey]
      rw [confExtractKey] at hok ⊢
      cases he : confTokenToKey s with
      | none =>
        rw [he] at hok
        obtain ⟨rfl, rfl⟩ := Prod.mk.inj (Except.ok.inj hok)
        exact ⟨_, rfl, h⟩
      | some e =>
        rw [he] at hok
        obtain ⟨rfl, rfl⟩ := Prod.mk.inj (Except.ok.inj hok)
        have hmem := (suffix_of_confTokenToKey he).1
        have hready₁ := motrReady_confAllocDriver hmem st₁
        have hready₂ := motrReady_confAllocDriver hmem st₂
        obtain ⟨conf₁, hconf₁⟩ := exists_confAllocDriver st₁ e.type
        obtain ⟨conf₂, hconf₂⟩ := exists_confAllocDriver st₂ e.type
        rw [hconf₁] at hready₁ ⊢
        rw [hconf₂] at hready₂
        simp only [hconf₂]
        exact ⟨_, rfl, h.isKey, rfl, ⟨hready₁, hready₂⟩, h.fresh, h.pools, h.length, h.default⟩
    · next hisKey =>
      rw [if_neg hisKey]
      exact sameFile_confExtractValue h rfl hok

/-! ### What is turned down -/

/-- A value that is turned down. -/
def valueTurnedDown (key : Option ConfKey) (value : CStr) : Bool :=
  match key with
  | some .mioDriver => confGetDriverId value = .invalid
  | some .mioLogLevel => (confGetLogLevel value).isNone
  | some .motrPoolId => (poolIdSscanf value.bytes).1 < 0
  | some .motrPoolType => (confExtractPoolType value).isNone
  | _ => false

/-- A token that is turned down, behind what has been said. -/
def PoolTrack.turnsDown (t : PoolTrack) : YamlToken → Bool
  | .scalar s => if t.isKey then (confTokenToKey s).isNone else valueTurnedDown t.key s
  | .blockEntry => t.started && t.own + t.others + 1 = mioMotrMaxPoolCnt
  | _ => false

/-- Some tokens are not the end of a stream, and none of them is turned down by a new
process. -/
def Reached (toks : List YamlToken) : Prop :=
  ∀ pre tok, pre ++ [tok] <+: toks →
    tok ≠ .streamEnd ∧ (poolTrack .initial pre).turnsDown tok = false

theorem prefix_of_eq_append {toks pre post : List YamlToken} {tok : YamlToken}
    (h : toks = pre ++ tok :: post) : pre ++ [tok] <+: toks := by
  refine ⟨post, ?_⟩
  rw [h, List.append_assoc, List.singleton_append]

/-- The last token is the only one that has not been asked about. -/
theorem prefix_concat {toks pre : List YamlToken} {tok tok' : YamlToken}
    (h : pre ++ [tok] <+: toks ++ [tok']) : (pre = toks ∧ tok = tok') ∨ pre ++ [tok] <+: toks := by
  rcases List.prefix_concat_iff.mp h with heq | hpre
  · obtain ⟨rfl, hlast⟩ := List.append_inj' heq rfl
    exact .inl ⟨rfl, List.singleton_inj.mp hlast⟩
  · exact .inr hpre

theorem reached_concat {toks : List YamlToken} {tok : YamlToken} :
    Reached (toks ++ [tok]) ↔ Reached toks ∧
      tok ≠ .streamEnd ∧ (poolTrack .initial toks).turnsDown tok = false := by
  constructor
  · intro h
    exact ⟨fun pre tok' hpre => h pre tok' (hpre.trans (List.prefix_append _ _)),
      h toks tok List.prefix_rfl⟩
  · rintro ⟨htoks, hlast⟩ pre tok' hpre
    rcases prefix_concat hpre with ⟨rfl, rfl⟩ | hpre
    · exact hlast
    · exact htoks pre tok' hpre

theorem setPool_rc {f : MioPool → MioPool} {st st' : ConfState}
    (h : st.setPool f = .ok (rc, st')) : rc = 0 := by
  rw [ConfState.setPool] at h
  split at h
  · cases h
  · exact (Prod.mk.inj (Except.ok.inj h)).1.symm

theorem setMotr_rc {f : MotrConf → MotrConf} {st st' : ConfState}
    (h : st.setMotr f = .ok (rc, st')) : rc = 0 := by
  rw [ConfState.setMotr] at h
  split at h
  · cases h
  · exact (Prod.mk.inj (Except.ok.inj h)).1.symm

/-- **A value is turned down** by what it is. -/
theorem rc_confExtractValue {st st' : ConfState} {stack : MioPoolId} {key : Option ConfKey}
    {value : CStr} {vlen : ℕ} (h : confExtractValue st stack key value vlen = .ok (rc, st')) :
    rc < 0 ↔ valueTurnedDown key value = true := by
  have hslen : ¬ strnlen mioPoolMaxNameLen value.buf > mioPoolMaxNameLen :=
    not_lt.mpr (strnlen_le _ _)
  rw [confExtractValue.eq_def] at h
  dsimp only at h
  split at h
  case h_1 =>
    obtain ⟨rfl, -⟩ := Prod.mk.inj (Except.ok.inj h)
    rw [valueTurnedDown, decide_eq_true_iff]
    split
    · next hid => simp [hid, EINVAL]
    · next hid => simp [hid]
  case h_4 =>
    obtain ⟨rfl, -⟩ := Prod.mk.inj (Except.ok.inj h)
    rw [valueTurnedDown, Option.isNone_iff_eq_none]
    split
    · next hlevel => simp [hlevel, EINVAL]
    · next hlevel => simp [hlevel]
  case h_17 =>
    rw [if_neg hslen] at h
    obtain ⟨rfl, -⟩ := Prod.mk.inj (Except.ok.inj h)
    simp [valueTurnedDown]
  case h_18 =>
    rw [if_neg hslen] at h
    obtain rfl := setPool_rc h
    simp [valueTurnedDown]
  case h_19 =>
    rw [confPoolIdSscanf_eq] at h
    rw [valueTurnedDown, decide_eq_true_iff]
    by_cases hneg : (poolIdSscanf value.bytes).1 < 0
    · rw [if_pos hneg] at h
      obtain ⟨rfl, -⟩ := Prod.mk.inj (Except.ok.inj h)
      exact Iff.rfl
    · rw [if_neg hneg] at h
      obtain rfl := setPool_rc h
      exact iff_of_false (lt_irrefl 0) hneg
  case h_20 =>
    rw [valueTurnedDown]
    split at h
    · next hnone =>
      obtain ⟨rfl, -⟩ := Prod.mk.inj (Except.ok.inj h)
      simp [hnone, EINVAL]
    · next hsome =>
      obtain rfl := setPool_rc h
      simp [hsome]
  all_goals first
    | obtain ⟨rfl, -⟩ := Prod.mk.inj (Except.ok.inj h)
      simp [valueTurnedDown]
    | obtain rfl := setMotr_rc h
      simp [valueTurnedDown]

/-- **A token is turned down** by what it is, and by what has been said. -/
theorem rc_confToken {t : PoolTrack} {st st' : ConfState} {stack : MioPoolId} {tok : YamlToken}
    (ht : t.Agrees st) (h : confToken st stack tok = .ok (rc, st')) :
    rc < 0 ↔ t.turnsDown tok = true := by
  cases tok with
  | key | value | blockMappingStart | blockEnd | streamEnd | other =>
    obtain ⟨rfl, -⟩ := Prod.mk.inj (Except.ok.inj h)
    simp [PoolTrack.turnsDown]
  | blockSequenceStart =>
    rw [confToken, confExtractBlkSeq.eq_def] at h
    simp only at h
    split at h
    · obtain ⟨rfl, -⟩ := Prod.mk.inj (Except.ok.inj h)
      simp [PoolTrack.turnsDown]
    · obtain ⟨rfl, -⟩ := Prod.mk.inj (Except.ok.inj h)
      simp [PoolTrack.turnsDown]
  | blockEntry =>
    rw [PoolTrack.turnsDown, ht.started, ht.entries]
    rw [confToken, confStartBlock] at h
    split at h
    · next hwhich =>
      split at h
      · next hmax =>
        obtain ⟨rfl, -⟩ := Prod.mk.inj (Except.ok.inj h)
        simp [hwhich, hmax, E2BIG]
      · next hmax =>
        split at h
        · cases h
        · obtain ⟨rfl, -⟩ := Prod.mk.inj (Except.ok.inj h)
          simp [hwhich, hmax]
    · next hwhich =>
      obtain ⟨rfl, -⟩ := Prod.mk.inj (Except.ok.inj h)
      simp [hwhich]
  | scalar s =>
    rw [PoolTrack.turnsDown, ht.isKey, ht.key]
    rw [confToken] at h
    split at h
    · next hisKey =>
      rw [if_pos hisKey]
      rw [confExtractKey] at h
      split at h
      · next hnone =>
        obtain ⟨rfl, -⟩ := Prod.mk.inj (Except.ok.inj h)
        simp [hnone, mioConfInvalid]
      · next hsome =>
        obtain ⟨rfl, -⟩ := Prod.mk.inj (Except.ok.inj h)
        simp [hsome]
    · next hisKey =>
      rw [if_neg hisKey]
      exact rc_confExtractValue h

/-- What is reached is not turned down. -/
theorem reached_of_confAfter {stack : ℕ → MioPoolId} {toks : List YamlToken} {st : ConfState}
    (h : confAfter stack toks ConfStatics.initial.start = some st) : Reached toks := by
  refine confAfter_inv (I := fun pre _ => Reached pre) ?_ ?_ (List.prefix_rfl : toks <+: toks) h
  · intro pre tok hpre
    exact absurd (List.prefix_nil.mp hpre) (by simp)
  · intro pre post tok st₁ st₂ rc _ htok hafter hreached hok hrc
    have hagrees := poolTrack_agrees sound_initial.nrPools hafter
    exact reached_concat.mpr ⟨hreached, htok,
      Bool.eq_false_iff.mpr fun hc => hrc ((rc_confToken hagrees hok).mpr hc)⟩

/-! ### Ids -/

/-- What the id of a pool is, after a value, if the stacks hold what they may. -/
def IdOf (K : MioPoolId → Prop) (text : Option CStr) (id : MioPoolId) : Prop :=
  match text with
  | none => id = ⟨0, 0⟩
  | some s => ∃ k, K k ∧ id = ⟨(poolIdSscanf s.bytes).2.1.getD k.mpiHi,
      (poolIdSscanf s.bytes).2.2.getD k.mpiLo⟩

/-- The ids of the pools. -/
def ConfStatics.poolIds (st : ConfStatics) : List MioPoolId := st.mioPools.list.map MioPool.mpId

section Ids

variable {st st' : ConfState} {K : MioPoolId → Prop}

theorem poolIds_setPool {f : MioPool → MioPool} (h : st.setPool f = .ok (rc, st')) :
    ∃ ids pool, st.poolIds = ids ++ [pool.mpId] ∧ st'.poolIds = ids ++ [(f pool).mpId] := by
  obtain ⟨pools, pool, hpools, rfl⟩ := exists_of_setPool h
  refine ⟨pools.map MioPool.mpId, pool, ?_, List.map_append⟩
  rw [ConfStatics.poolIds, hpools, List.map_append, List.map_singleton]

/-- A value of any other key leaves the ids alone. -/
theorem poolIds_confExtractValue {stack : MioPoolId} {key : Option ConfKey} {value : CStr}
    {vlen : ℕ} (h : confExtractValue st stack key value vlen = .ok (rc, st'))
    (hkey : key ≠ some .motrPoolId) : st'.poolIds = st.poolIds := by
  rw [confExtractValue.eq_def] at h
  dsimp only at h
  split at h
  case h_19 => exact absurd rfl hkey
  case h_17 =>
    split at h
    all_goals
      obtain ⟨-, rfl⟩ := Prod.mk.inj (Except.ok.inj h)
      rfl
  case h_18 | h_20 =>
    -- the name and the type of a pool
    split at h
    · obtain ⟨-, rfl⟩ := Prod.mk.inj (Except.ok.inj h)
      rfl
    · obtain ⟨ids, pool, hold, hnew⟩ := poolIds_setPool h
      rw [hold, hnew]
  all_goals first
    | obtain ⟨-, rfl⟩ := Prod.mk.inj (Except.ok.inj h)
      rfl
    | obtain ⟨conf, -, rfl⟩ := exists_of_setMotr h
      rfl

/-- **The ids, after a value.** -/
theorem idOf_value {texts : List (Option CStr)} {stack : MioPoolId} {key : Option ConfKey}
    {s : CStr} {vlen : ℕ} (hids : List.Forall₂ (IdOf K) texts st.poolIds) (hK : K stack)
    (h : confExtractValue st stack key s vlen = .ok (rc, st')) (hrc : ¬ rc < 0) :
    List.Forall₂ (IdOf K) (if key = some .motrPoolId then texts.dropLast ++ [some s] else texts)
      st'.poolIds := by
  by_cases hkey : key = some .motrPoolId
  · rw [if_pos hkey]
    rw [hkey] at h
    simp only [confExtractValue, confPoolIdSscanf_eq] at h
    by_cases hneg : (poolIdSscanf s.bytes).1 < 0
    · rw [if_pos hneg] at h
      obtain ⟨rfl, -⟩ := Prod.mk.inj (Except.ok.inj h)
      exact absurd hneg hrc
    · rw [if_neg hneg] at h
      obtain ⟨ids, pool, hold, hnew⟩ := poolIds_setPool h
      rw [hold] at hids
      have hlast : texts.dropLast = texts.take _ := List.dropLast_eq_take
      rw [hids.length_eq, List.length_append, List.length_singleton, Nat.add_sub_cancel] at hlast
      rw [hnew, hlast]
      exact List.rel_append (List.forall₂_take_append _ _ _ hids) (.cons ⟨stack, hK, rfl⟩ .nil)
  · rw [if_neg hkey, poolIds_confExtractValue h hkey]
    exact hids

/-- **The ids, after an entry**, which is a new pool. -/
theorem idOf_entry {texts : List (Option CStr)} (hwhich : st.confWhichBlkSeq = true)
    (hids : List.Forall₂ (IdOf K) texts st.poolIds) (h : confStartBlock st = .ok (rc, st'))
    (hrc : ¬ rc < 0) : List.Forall₂ (IdOf K) (texts ++ [none]) st'.poolIds := by
  rw [confStartBlock, if_pos hwhich] at h
  split at h
  · obtain ⟨rfl, -⟩ := Prod.mk.inj (Except.ok.inj h)
    exact absurd (by decide) hrc
  · split at h
    · cases h
    · next pools hpools =>
      obtain ⟨-, rfl⟩ := Prod.mk.inj (Except.ok.inj h)
      rw [ConfStatics.poolIds, MioPools.list, hpools] at hids
      rw [ConfStatics.poolIds, MioPools.list, Option.getD_some, List.map_append]
      exact List.rel_append hids (.cons rfl .nil)

/-- **The ids, after a token.** -/
theorem idOf_step {t : PoolTrack} {texts : List (Option CStr)} {stack : MioPoolId}
    {tok : YamlToken} (hisKey : t.isKey = st.isKey) (hkey : t.key = st.key)
    (hwhich : t.started = true → st.confWhichBlkSeq = true)
    (hids : t.started = true → List.Forall₂ (IdOf K) texts st.poolIds) (hK : K stack)
    (hok : confToken st stack tok = .ok (rc, st')) (hrc : ¬ rc < 0)
    (hstarted : (t.token tok).started = true) :
    List.Forall₂ (IdOf K) (textsAfter .motrPoolId t texts tok) st'.poolIds := by
  cases tok with
  | key | value | blockMappingStart | blockEnd | streamEnd | other =>
    obtain ⟨-, rfl⟩ := Prod.mk.inj (Except.ok.inj hok)
    exact hids hstarted
  | blockSequenceStart =>
    have hst : (confExtractBlkSeq st st.key).2 = st' := congrArg Prod.snd (Except.ok.inj hok)
    rw [← hst, textsAfter, hkey]
    by_cases hpools : st.key = some .motrPools
    · rw [if_pos hpools, hpools]
      exact .nil
    · rw [PoolTrack.token, hkey, if_neg hpools] at hstarted
      rw [if_neg hpools, confExtractBlkSeq.eq_def]
      split
      · next hc => exact absurd hc hpools
      · exact hids hstarted
  | blockEntry =>
    have hold := (started_token_eq (by simp)).symm.trans hstarted
    rw [textsAfter, if_pos hold]
    exact idOf_entry (hwhich hold) (hids hold) hok hrc
  | scalar s =>
    have hold := (started_token_eq (by simp)).symm.trans hstarted
    rw [confToken] at hok
    rw [textsAfter, hisKey, hkey]
    split at hok
    · next hval =>
      rw [hval, if_neg (by simp)]
      rw [confExtractKey] at hok
      split at hok
      · obtain ⟨-, rfl⟩ := Prod.mk.inj (Except.ok.inj hok)
        exact hids hold
      · next e he =>
        obtain ⟨-, rfl⟩ := Prod.mk.inj (Except.ok.inj hok)
        obtain ⟨conf, hconf⟩ := exists_confAllocDriver st e.type
        rw [hconf]
        exact hids hold
    · next hval =>
      have hvalue := idOf_value (hids hold) hK hok hrc
      rw [Bool.eq_false_iff.mpr hval]
      simp only [true_and]
      exact hvalue

end Ids

/-! ### The same tokens -/

/-- The stack, cleared. -/
def zeroStack : ℕ → MioPoolId := fun _ => ⟨0, 0⟩

/-- There is no entry of a sequence before the list of pools. -/
def NoEntryBefore (toks : List YamlToken) : Prop :=
  ∀ pre, pre ++ [.blockEntry] <+: toks → Reached pre → (poolTrack .initial pre).started = true

theorem sameFile_start {statics : ConfStatics} (hsound : statics.Sound) :
    SameFile ConfStatics.initial.start statics.start where
  isKey := rfl
  key := rfl
  ready := ⟨fun _ _ hc => (by cases hc), fun _ _ hc => (by cases hc)⟩
  fresh := fun _ => rfl
  pools := fun hc => by cases hc
  length := ⟨(sound_start sound_initial).default, (sound_start hsound).default⟩
  default := by
    have hsame := sameText_putAt mioDefaultPoolNullStr sound_initial.default hsound.default
    rwa [nameBytes_eq_buf (by decide)] at hsame

/-- **What a new process comes to**, every other one does. -/
theorem sameFile_confAfter {statics : ConfStatics} (hsound : statics.Sound)
    {K : MioPoolId → Prop} (stack : ℕ → MioPoolId) (hK : ∀ i, K (stack i))
    {toks : List YamlToken} (hentry : NoEntryBefore toks) {pre : List YamlToken}
    (hpre : pre <+: toks) (h : confAfter zeroStack pre ConfStatics.initial.start = some st₁) :
    ∃ st₂, confAfter stack pre statics.start = some st₂ ∧ SameFile st₁ st₂ ∧
      ((poolTrack .initial pre).started = true →
        List.Forall₂ (IdOf K) (entryTexts .motrPoolId .initial pre) st₂.poolIds) := by
  refine confAfter_inv (I := fun pre st₁ => ∃ st₂, confAfter stack pre statics.start = some st₂ ∧
    SameFile st₁ st₂ ∧ ((poolTrack .initial pre).started = true →
      List.Forall₂ (IdOf K) (entryTexts .motrPoolId .initial pre) st₂.poolIds)) ?_ ?_ hpre h
  · exact ⟨statics.start, rfl, sameFile_start hsound, fun hc => by cases hc⟩
  · rintro pre post tok st₁ st₁' rc htoks htok hafter ⟨st₂, hafter₂, hsame, hids⟩ hok hrc
    have hagrees := poolTrack_agrees sound_initial.nrPools hafter
    obtain ⟨st₂', hok₂, hsame'⟩ := sameFile_confToken (stack pre.length) hsame
      (fun hblock => by
        subst hblock
        exact hagrees.started.symm.trans
          (hentry pre (prefix_of_eq_append htoks) (reached_of_confAfter hafter))) hok
    refine ⟨st₂', confAfter_concat.mpr ⟨st₂, rc, hafter₂, htok, hok₂, hrc⟩, hsame', ?_⟩
    intro hstarted
    rw [poolTrack, List.foldl_concat] at hstarted
    rw [entryTexts_concat]
    exact idOf_step (hagrees.isKey.trans hsame.isKey.symm) (hagrees.key.trans hsame.key.symm)
      (fun hc => (hsame.pools (hagrees.started.symm.trans hc)).1) hids (hK _) hok₂ hrc hstarted

theorem eq_append_of_streamEnd {toks : List YamlToken} (h : YamlToken.streamEnd ∈ toks) :
    ∃ rest, toks = streamToks toks ++ .streamEnd :: rest := by
  induction toks with
  | nil => cases h
  | cons tok toks ih =>
    by_cases htok : tok = .streamEnd
    · refine ⟨toks, ?_⟩
      rw [streamToks, List.takeWhile_cons_of_neg (by simpa using htok), htok, List.nil_append]
    · obtain ⟨rest, hrest⟩ := ih ((List.mem_cons.mp h).resolve_left (Ne.symm htok))
      refine ⟨rest, ?_⟩
      rw [streamToks, List.takeWhile_cons_of_pos (by simpa using htok), List.cons_append, ← hrest]

/-- A file that is read to its end has one. -/
theorem streamEnd_mem_of_confScan {stack : ℕ → MioPoolId} {toks : List YamlToken}
    {st st' : ConfState} (h : confScan stack toks st = .ok (rc, st')) (hrc : ¬ rc < 0) :
    YamlToken.streamEnd ∈ toks := by
  induction toks generalizing stack st with
  | nil => cases h
  | cons tok toks ih =>
    rw [confScan] at h
    split at h
    · next htok => exact htok ▸ List.mem_cons_self
    · next htok =>
      obtain ⟨⟨rc₁, st₁⟩, hok, h⟩ := bind_eq_ok_iff.mp h
      simp only at h
      split at h
      · next hneg =>
        obtain ⟨rfl, -⟩ := Prod.mk.inj (Except.ok.inj h)
        exact absurd hneg hrc
      · exact List.mem_cons_of_mem _ (ih h)

/-- A file that is reached up to its end is read to it. -/
theorem confScan_of_confAfter {stack : ℕ → MioPoolId} {toks : List YamlToken}
    {st st' : ConfState} (hend : YamlToken.streamEnd ∈ toks)
    (h : confAfter stack (streamToks toks) st = some st') :
    confScan stack toks st = .ok (0, st') := by
  obtain ⟨rest, hrest⟩ := eq_append_of_streamEnd hend
  rw [hrest, confScan_append h, confScan, if_pos rfl]

/-- **What a new process reads to its end**, every other one does. -/
theorem sameFile_confScan {statics : ConfStatics} (hsound : statics.Sound)
    {K : MioPoolId → Prop} (stack : ℕ → MioPoolId) (hK : ∀ i, K (stack i))
    {toks : List YamlToken} (hentry : NoEntryBefore toks)
    (h : confScan zeroStack toks ConfStatics.initial.start = .ok (0, st₁)) :
    ∃ st₂, confScan stack toks statics.start = .ok (0, st₂) ∧ SameFile st₁ st₂ ∧
      ((poolTrack .initial (streamToks toks)).started = true →
        List.Forall₂ (IdOf K) (entryTexts .motrPoolId .initial (streamToks toks))
          st₂.poolIds) := by
  have hafter₁ : confAfter zeroStack (streamToks toks) ConfStatics.initial.start = some st₁ :=
    confAfter_of_confScan h (by decide)
  obtain ⟨st₂, hafter₂, hboth⟩ := sameFile_confAfter hsound stack hK hentry
    (List.takeWhile_prefix _) hafter₁
  exact ⟨st₂, confScan_of_confAfter (streamEnd_mem_of_confScan h (by decide)) hafter₂, hboth⟩

/-! ### The default pool -/

theorem hasSet_congr {a b : List Byte} (h : SameText a b) :
    mioConfDefaultPoolHasSet a = mioConfDefaultPoolHasSet b := by
  rw [mioConfDefaultPoolHasSet, mioConfDefaultPoolHasSet, strEq_comm a, strEq_comm b, h]

theorem findDefaultPool_congr {a b : List Byte} (h : SameText a b) {pools₁ pools₂ : List MioPool}
    (hpools : pools₁.map MioPool.anon = pools₂.map MioPool.anon) (i : ℕ) :
    findDefaultPool a i pools₁ = findDefaultPool b i pools₂ := by
  induction pools₁ generalizing pools₂ i with
  | nil =>
    obtain rfl := List.map_eq_nil_iff.mp hpools.symm
    rfl
  | cons pool₁ pools₁ ih =>
    obtain ⟨pool₂, pools₂, rfl, hpool, hrest⟩ := List.map_eq_cons_iff.mp hpools.symm
    rw [findDefaultPool, findDefaultPool, (anon_eq_iff.mp hpool).1, h, ih hrest.symm]

/-- What the last part leaves of the pools, but for their ids. -/
def finishView (out : ℤ × ConfState) : ℤ × ℕ × List Byte × List MioPool :=
  (out.1, out.2.mioPools.mpsDefaultPoolIdx, out.2.mioPools.mpsDefaultPoolName,
    out.2.mioPools.list.map MioPool.anon)

/-- **The last part** does the same in both processes, if they have a driver and the file
has a list of pools. -/
theorem sameFile_confFinish (h : SameFile st₁ st₂) (hwhich : st₁.confWhichBlkSeq = true)
    (hdrv₁ : st₁.mioInstDrvId ≠ .invalid) (hdrv₂ : st₂.mioInstDrvId ≠ .invalid) :
    (confFinish st₁).map finishView = (confFinish st₂).map finishView := by
  obtain ⟨-, halike⟩ := h.pools hwhich
  have hview : ∀ (rc : ℤ), finishView (rc, st₁.finished) = finishView (rc, st₂.finished) := by
    intro rc
    rw [finishView, finishView]
    simp only [ConfState.finished, halike.idx, halike.name, halike.pools]
  rw [confFinish, if_neg hdrv₁, confFinish, if_neg hdrv₂]
  simp only
  rw [← hasSet_congr h.default, ← findDefaultPool_congr h.default halike.pools]
  cases mioConfDefaultPoolHasSet st₁.mioDefaultPoolName with
  | error fault => rfl
  | ok hasSet =>
    rw [ok_bind, ok_bind]
    cases hasSet with
    | false => exact congrArg Except.ok (hview 0)
    | true =>
      rw [if_pos rfl, if_pos rfl]
      cases findDefaultPool st₁.mioDefaultPoolName 0 st₁.mioPools.list with
      | error fault => rfl
      | ok i =>
        rw [ok_bind, ok_bind]
        have hpool := congrArg (fun l => l[i]?) halike.pools
        simp only [List.getElem?_map] at hpool
        cases hpool₁ : st₁.mioPools.list[i]? with
        | none =>
          rw [hpool₁] at hpool
          rw [Option.map_eq_none_iff.mp hpool.symm]
          exact congrArg Except.ok (hview (-EINVAL))
        | some pool₁ =>
          rw [hpool₁] at hpool
          obtain ⟨pool₂, hpool₂, hanon⟩ := Option.map_eq_some_iff.mp hpool.symm
          rw [hpool₂]
          refine congrArg Except.ok ?_
          rw [finishView, finishView]
          simp only [(anon_eq_iff.mp hanon).1]
          exact congrArg (fun l => ((0 : ℤ), i, pool₁.mpName, l)) halike.pools

end CortxMio
