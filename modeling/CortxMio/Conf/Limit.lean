import CortxMio.Conf.Scan
import CortxMio.Lib.Fallible

/-!
# The limit on what is sent to one device

Where the value of `mc_max_iosize_per_dev` comes from: from the last value in the file
whose key is `MOTR_MAX_IOSIZE_PER_DEV` (`CortxMio.lastText`), through `atoi`, and
otherwise from the default that the configuration of the driver is allocated with, or
from whatever an earlier call has left behind. No text is turned down
(`CortxMio.iosize_of_mioConfInit`).
-/

namespace CortxMio

open Lib

/-- The last value of a key among the tokens, from a state of the parser on; `text` is
the one before. -/
def lastText (k : ConfKey) (isKey : Bool) (key : Option ConfKey) (text : Option CStr) :
    List YamlToken → Option CStr
  | [] => text
  | .key :: toks => lastText k true key text toks
  | .value :: toks => lastText k false key text toks
  | .scalar s :: toks =>
      if isKey then lastText k isKey ((confTokenToKey s).map ConfEntry.key) text toks
      else lastText k isKey key (if key = some k then some s else text) toks
  | .streamEnd :: _ => text
  | _ :: toks => lastText k isKey key text toks

/-- The limit that is configured, if there is a configuration. -/
def ConfStatics.iosize (st : ConfStatics) : Option ℕ :=
  st.motrConf.map fun conf => conf.mcMaxIosizePerDev

/-- The limit for a text. -/
def iosizeOf (old : ℕ) (text : Option CStr) : ℕ :=
  match text with
  | none => old
  | some s => u64OfInt (atoi s.bytes)

/-- The limit that a file configures, after what an earlier call has left behind. -/
def configuredIosize (statics : ConfStatics) (toks : List YamlToken) : ℕ :=
  iosizeOf (statics.iosize.getD mioMotrDefaultIosizePerDev)
    (lastText .motrMaxIosizePerDev true none none toks)

variable {st st' : ConfState} {rc : ℤ}

/-! ### What an entry does to the limit -/

/-- The parser stays where it is, and so does the limit. -/
structure LimitKept (st st' : ConfState) : Prop where
  /-- What the next scalar is. -/
  isKey : st'.isKey = st.isKey
  /-- The last key. -/
  key : st'.key = st.key
  /-- The limit. -/
  iosize : st'.iosize = st.iosize

theorem LimitKept.refl (st : ConfState) : LimitKept st st := ⟨rfl, rfl, rfl⟩

/-- A function that leaves all of this alone. -/
theorem limitKept_of_ok {u : ConfState} {rc' : ℤ} (h : (.ok (rc', u) : ConfResult) = .ok (rc, st'))
    (hu : LimitKept st u) : LimitKept st st' := by
  obtain ⟨-, rfl⟩ := Prod.mk.inj (Except.ok.inj h)
  exact hu

/-- What a value leaves alone: in addition to that, the number of pools. -/
structure ValueKept (st st' : ConfState) : Prop extends LimitKept st st' where
  /-- The number of pools. -/
  nrPools : st'.mioPools.mpsNrPools = st.mioPools.mpsNrPools

theorem ValueKept.refl (st : ConfState) : ValueKept st st := ⟨.refl st, rfl⟩

theorem valueKept_of_ok {u : ConfState} {rc' : ℤ} (h : (.ok (rc', u) : ConfResult) = .ok (rc, st'))
    (hu : ValueKept st u) : ValueKept st st' := by
  obtain ⟨-, rfl⟩ := Prod.mk.inj (Except.ok.inj h)
  exact hu

theorem valueKept_setMotr {f : MotrConf → MotrConf} (h : st.setMotr f = .ok (rc, st'))
    (hf : ∀ c, (f c).mcMaxIosizePerDev = c.mcMaxIosizePerDev) : ValueKept st st' := by
  rw [ConfState.setMotr] at h
  split at h
  · exact absurd h (by simp)
  · next conf hconf =>
    refine valueKept_of_ok h ⟨⟨rfl, rfl, ?_⟩, rfl⟩
    simp only [ConfStatics.iosize, hconf, Option.map_some, hf]

/-- The last pool is changed in its place. -/
theorem valueKept_setPool {f : MioPool → MioPool} (h : st.setPool f = .ok (rc, st')) :
    ValueKept st st' := by
  rw [ConfState.setPool] at h
  split at h
  · exact absurd h (by simp)
  · next pool hpool =>
    refine valueKept_of_ok h ⟨⟨rfl, rfl, rfl⟩, ?_⟩
    have hne : st.mioPools.list ≠ [] := by
      intro hnil
      rw [hnil] at hpool
      exact absurd hpool (by simp)
    change (st.mioPools.list.dropLast ++ [f pool]).length = st.mioPools.list.length
    have hpos := List.length_pos_iff.mpr hne
    rw [List.length_append, List.length_dropLast, List.length_singleton]
    omega

/-- **A value of any other key** leaves the limit alone. -/
theorem valueKept_confExtractValue {stack : MioPoolId} {key : Option ConfKey} {value : CStr}
    {vlen : ℕ} (h : confExtractValue st stack key value vlen = .ok (rc, st'))
    (hkey : key ≠ some .motrMaxIosizePerDev) : ValueKept st st' := by
  rw [confExtractValue.eq_def] at h
  dsimp only at h
  split at h
  case h_12 => exact absurd rfl hkey
  case h_17 =>
    -- the name of the default pool
    split at h
    · exact valueKept_of_ok h (.refl st)
    · exact valueKept_of_ok h ⟨⟨rfl, rfl, rfl⟩, rfl⟩
  case h_18 | h_19 | h_20 =>
    -- the name, the id and the type of a pool
    split at h
    · exact valueKept_of_ok h (.refl st)
    · exact valueKept_setPool h
  all_goals first
    | exact valueKept_of_ok h ⟨⟨rfl, rfl, rfl⟩, rfl⟩
    | exact valueKept_setMotr h fun _ => rfl

/-- **A value of the key** sets it. -/
theorem iosize_confExtractValue {stack : MioPoolId} {value : CStr} {vlen : ℕ}
    (h : confExtractValue st stack (some .motrMaxIosizePerDev) value vlen = .ok (rc, st')) :
    st'.isKey = st.isKey ∧ st'.key = st.key ∧
      st'.iosize = some (u64OfInt (atoi value.bytes)) ∧
      st'.mioPools.mpsNrPools = st.mioPools.mpsNrPools := by
  simp only [confExtractValue, ConfState.setMotr] at h
  split at h
  · exact absurd h (by simp)
  · obtain ⟨-, rfl⟩ := Prod.mk.inj (Except.ok.inj h)
    exact ⟨rfl, rfl, rfl, rfl⟩

theorem isKey_confAllocDriver (st : ConfState) (type : ConfType) :
    (confAllocDriver st type).isKey = st.isKey := by
  cases type with
  | mio => rfl
  | motr =>
    rw [confAllocDriver]
    split
    · rfl
    · rfl

theorem limitKept_confStartBlock (h : confStartBlock st = .ok (rc, st')) : LimitKept st st' := by
  rw [confStartBlock] at h
  split at h
  · split at h
    · exact limitKept_of_ok h (.refl st)
    · split at h
      · exact absurd h (by simp)
      · exact limitKept_of_ok h ⟨rfl, rfl, rfl⟩
  · exact limitKept_of_ok h (.refl st)

theorem limitKept_confExtractBlkSeq (st : ConfState) (key : Option ConfKey) :
    LimitKept st (confExtractBlkSeq st key).2 := by
  unfold confExtractBlkSeq
  split
  · exact ⟨rfl, rfl, rfl⟩
  · exact .refl st

/-! ### Where the parser is -/

/-- What the next scalar is, after a token. -/
def isKeyAfter (isKey : Bool) : YamlToken → Bool
  | .key => true
  | .value => false
  | _ => isKey

/-- The last key, after a token. -/
def keyAfter (isKey : Bool) (key : Option ConfKey) : YamlToken → Option ConfKey
  | .scalar s => if isKey then (confTokenToKey s).map ConfEntry.key else key
  | _ => key

/-- The last value of a key, after a token. -/
def textAfter (k : ConfKey) (isKey : Bool) (key : Option ConfKey) (text : Option CStr) :
    YamlToken → Option CStr
  | .scalar s => if isKey then text else if key = some k then some s else text
  | _ => text

/-- **One token** moves the parser. -/
theorem position_confToken {stack : MioPoolId} {tok : YamlToken}
    (h : confToken st stack tok = .ok (rc, st')) (hrc : ¬ rc < 0) :
    st'.isKey = isKeyAfter st.isKey tok ∧ st'.key = keyAfter st.isKey st.key tok := by
  cases tok with
  | key | value | blockMappingStart | blockEnd | streamEnd | other =>
    obtain ⟨-, rfl⟩ := Prod.mk.inj (Except.ok.inj h)
    exact ⟨rfl, rfl⟩
  | blockSequenceStart =>
    have hk := limitKept_confExtractBlkSeq st st.key
    rw [show confExtractBlkSeq st st.key = (rc, st') from Except.ok.inj h] at hk
    exact ⟨hk.isKey, hk.key⟩
  | blockEntry =>
    have hk := limitKept_confStartBlock h
    exact ⟨hk.isKey, hk.key⟩
  | scalar s =>
    rw [confToken] at h
    change st'.isKey = st.isKey ∧ st'.key =
      if st.isKey then (confTokenToKey s).map ConfEntry.key else st.key
    split at h
    · next hisKey =>
      rw [if_pos hisKey]
      rw [confExtractKey] at h
      split at h
      · obtain ⟨rfl, -⟩ := Prod.mk.inj (Except.ok.inj h)
        exact absurd (by decide) hrc
      · next e he =>
        obtain ⟨-, rfl⟩ := Prod.mk.inj (Except.ok.inj h)
        rw [he]
        exact ⟨isKey_confAllocDriver st e.type, rfl⟩
    · next hisKey =>
      rw [if_neg hisKey]
      by_cases hkey : st.key = some .motrMaxIosizePerDev
      · rw [hkey] at h
        obtain ⟨h1, h2, -⟩ := iosize_confExtractValue h
        exact ⟨h1, h2⟩
      · have hk := valueKept_confExtractValue h hkey
        exact ⟨hk.isKey, hk.key⟩

theorem lastText_cons {k : ConfKey} {isKey : Bool} {key : Option ConfKey} {text : Option CStr}
    {tok : YamlToken} (htok : tok ≠ .streamEnd) (toks : List YamlToken) :
    lastText k isKey key text (tok :: toks) =
      lastText k (isKeyAfter isKey tok) (keyAfter isKey key tok) (textAfter k isKey key text tok)
        toks := by
  cases tok with
  | streamEnd => exact absurd rfl htok
  | scalar s =>
    cases isKey with
    | true => rfl
    | false => rfl
  | _ => rfl

/-- **The rule for the last value of a key**: what every token keeps, of the last value so
far, holds of the last value in the file. -/
theorem confScan_lastText {k : ConfKey} {I : Option CStr → ConfState → Prop}
    (hstep : ∀ {text : Option CStr} {st st' : ConfState} {stack : MioPoolId} {tok : YamlToken}
      {rc : ℤ}, I text st → confToken st stack tok = .ok (rc, st') → ¬ rc < 0 →
        I (textAfter k st.isKey st.key text tok) st') :
    ∀ {toks : List YamlToken} {stack : ℕ → MioPoolId} {text : Option CStr} {st : ConfState},
      I text st → confScan stack toks st = .ok (rc, st') → ¬rc < 0 →
      I (lastText k st.isKey st.key text toks) st' := by
  intro toks
  induction toks with
  | nil => exact fun _ h => absurd h (by simp [confScan])
  | cons tok toks ih =>
    intro stack text st hinv hscan hrc
    rw [confScan] at hscan
    split at hscan
    · next htok =>
      subst htok
      obtain ⟨-, rfl⟩ := Prod.mk.inj (Except.ok.inj hscan)
      exact hinv
    · next htok =>
      obtain ⟨⟨rc₁, st₁⟩, htoken, h⟩ := bind_eq_ok_iff.mp hscan
      simp only at h
      split at h
      · next hneg =>
        obtain ⟨rfl, -⟩ := Prod.mk.inj (Except.ok.inj h)
        exact absurd hneg hrc
      · next hrc₁ =>
        obtain ⟨hisKey, hkey⟩ := position_confToken htoken hrc₁
        rw [lastText_cons htok, ← hisKey, ← hkey]
        exact ih (hstep hinv htoken hrc₁) h hrc

/-! ### What is no value -/

/-- What a token leaves alone that is no value: at most the configuration of the driver is
allocated. -/
structure Unvalued (st st' : ConfState) : Prop where
  /-- The configuration. -/
  conf : st'.motrConf = st.motrConf ∨ st.motrConf = none ∧ st'.motrConf =
    some ⟨⟨mioMotrDefaultIosizePerDev⟩, none, none, none, none, none, none, none, none, none, none⟩
  /-- The instance. -/
  inst : st'.inst = st.inst
  /-- The driver. -/
  drvId : st'.mioInstDrvId = st.mioInstDrvId
  /-- The store for telemetry. -/
  telem : st'.mioInstTelemStoreType = st.mioInstTelemStoreType
  /-- The name of the default pool. -/
  default : st'.mioDefaultPoolName = st.mioDefaultPoolName

theorem Unvalued.refl (st : ConfState) : Unvalued st st := ⟨.inl rfl, rfl, rfl, rfl, rfl⟩

theorem unvalued_of_ok {u : ConfState} {rc' : ℤ} (h : (.ok (rc', u) : ConfResult) = .ok (rc, st'))
    (hu : Unvalued st u) : Unvalued st st' := by
  obtain ⟨-, rfl⟩ := Prod.mk.inj (Except.ok.inj h)
  exact hu

theorem unvalued_confAllocDriver (st : ConfState) (type : ConfType) :
    Unvalued st (confAllocDriver st type) := by
  cases type with
  | mio => exact .refl st
  | motr =>
    rw [confAllocDriver]
    split
    · exact .refl st
    · next hconf => exact ⟨.inr ⟨hconf, rfl⟩, rfl, rfl, rfl, rfl⟩

/-- **A token that is no value.** -/
theorem unvalued_confToken {stack : MioPoolId} {tok : YamlToken}
    (h : confToken st stack tok = .ok (rc, st'))
    (htok : ∀ s, tok = .scalar s → st.isKey = true) : Unvalued st st' := by
  cases tok with
  | key | value | blockMappingStart | blockEnd | streamEnd | other =>
    exact unvalued_of_ok h ⟨.inl rfl, rfl, rfl, rfl, rfl⟩
  | blockSequenceStart =>
    have hst : (confExtractBlkSeq st st.key).2 = st' := congrArg Prod.snd (Except.ok.inj h)
    rw [← hst, confExtractBlkSeq.eq_def]
    split
    · exact ⟨.inl rfl, rfl, rfl, rfl, rfl⟩
    · exact .refl st
  | blockEntry =>
    rw [confToken, confStartBlock] at h
    split at h
    · split at h
      · exact unvalued_of_ok h (.refl st)
      · split at h
        · cases h
        · exact unvalued_of_ok h ⟨.inl rfl, rfl, rfl, rfl, rfl⟩
    · exact unvalued_of_ok h (.refl st)
  | scalar s =>
    rw [confToken, if_pos (htok s rfl), confExtractKey] at h
    split at h
    · exact unvalued_of_ok h (.refl st)
    · next e he =>
      obtain ⟨hconf, hinst, hdrv, htelem, hdefault⟩ := unvalued_confAllocDriver st e.type
      exact unvalued_of_ok h ⟨hconf, hinst, hdrv, htelem, hdefault⟩

/-- **The rule for one token**: what is said of the last value of a key so far is a
matter of values alone. -/
theorem confToken_lastText {k : ConfKey} {I : Option CStr → ConfState → Prop} {text : Option CStr}
    {stack : MioPoolId} {tok : YamlToken} (h : confToken st stack tok = .ok (rc, st'))
    (hquiet : Unvalued st st' → I text st')
    (hvalue : ∀ s, confExtractValue st stack st.key s (strnlen yamlMaxValLen s.buf) =
      .ok (rc, st') → I (if st.key = some k then some s else text) st') :
    I (textAfter k st.isKey st.key text tok) st' := by
  cases tok with
  | scalar s =>
    rw [textAfter]
    cases hisKey : st.isKey with
    | true => exact hquiet (unvalued_confToken h fun _ _ => hisKey)
    | false =>
      rw [confToken, hisKey, if_neg (by decide)] at h
      exact hvalue s h
  | _ => exact hquiet (unvalued_confToken h (by nofun))

/-! ### The file -/

/-- The limit is that of the last text, or not there yet. -/
def LimitInv (old : Option ℕ) (text : Option CStr) (st : ConfState) : Prop :=
  st.iosize = some (iosizeOf (old.getD mioMotrDefaultIosizePerDev) text) ∨
    st.iosize = none ∧ old = none ∧ text = none

theorem LimitInv.kept {old : Option ℕ} {text : Option CStr} (h : LimitInv old text st)
    (hk : LimitKept st st') : LimitInv old text st' := by
  rw [LimitInv, hk.iosize]
  exact h

/-- A value of a key. -/
theorem LimitInv.value {old : Option ℕ} {text : Option CStr} {stack : MioPoolId} {s : CStr}
    {vlen : ℕ} (hinv : LimitInv old text st)
    (h : confExtractValue st stack st.key s vlen = .ok (rc, st')) :
    LimitInv old (if st.key = some .motrMaxIosizePerDev then some s else text) st' := by
  by_cases hkey : st.key = some .motrMaxIosizePerDev
  · rw [hkey] at h
    rw [if_pos hkey]
    exact .inl (iosize_confExtractValue h).2.2.1
  · rw [if_neg hkey]
    exact hinv.kept (valueKept_confExtractValue h hkey).toLimitKept

/-- Anything else: the configuration of the driver may be allocated. -/
theorem LimitInv.unvalued {old : Option ℕ} {text : Option CStr} (hinv : LimitInv old text st)
    (h : Unvalued st st') : LimitInv old text st' := by
  rw [LimitInv, ConfStatics.iosize] at hinv ⊢
  rcases h.conf with hconf | ⟨hnone, hconf⟩
  · rw [hconf]
    exact hinv
  · rw [hnone] at hinv
    rw [hconf]
    rcases hinv with hsome | ⟨-, rfl, rfl⟩
    · cases hsome
    · exact .inl rfl

/-- **A token**: the limit is always that of the last text so far. -/
theorem LimitInv.token {old : Option ℕ} {text : Option CStr} {stack : MioPoolId}
    {tok : YamlToken} (hinv : LimitInv old text st)
    (h : confToken st stack tok = .ok (rc, st')) :
    LimitInv old (textAfter .motrMaxIosizePerDev st.isKey st.key text tok) st' :=
  confToken_lastText h hinv.unvalued fun _ => hinv.value

theorem limitInv_start (statics : ConfStatics) :
    LimitInv statics.iosize none statics.start := by
  have hio : statics.start.iosize = statics.iosize := rfl
  rw [LimitInv, hio]
  cases statics.iosize with
  | none => exact .inr ⟨rfl, rfl, rfl⟩
  | some n => exact .inl rfl

/-! ### The end of the call -/

/-- The state behind the last part of `mio_conf_init`, but for the default pool. -/
def ConfState.finished (st : ConfState) : ConfState :=
  { st with inst := { st.inst with
    mDriverId := st.mioInstDrvId
    mTelemStoreType := st.mioInstTelemStoreType
    mDriverConfs := st.motrConf } }

/-- **What the last part does**, if it is survived: no default pool is asked for, or it is
none of the pools, or it is one of them. -/
theorem confFinish_cases (h : confFinish st = .ok (rc, st')) :
    st.mioInstDrvId ≠ .invalid ∧ ∃ hasSet,
      mioConfDefaultPoolHasSet st.mioDefaultPoolName = .ok hasSet ∧
        (hasSet = false ∧ rc = 0 ∧ st' = st.finished ∨ hasSet = true ∧
          ∃ i, findDefaultPool st.mioDefaultPoolName 0 st.mioPools.list = .ok i ∧
            (st.mioPools.list[i]? = none ∧ rc = -EINVAL ∧ st' = st.finished ∨
              ∃ pool, st.mioPools.list[i]? = some pool ∧ rc = 0 ∧
                st' = { st.finished with mioPools := { st.mioPools with
                  mpsDefaultPoolIdx := i, mpsDefaultPoolName := pool.mpName } })) := by
  rw [confFinish] at h
  split at h
  · cases h
  · next hdrv =>
    obtain ⟨hasSet, hset, h⟩ := bind_eq_ok_iff.mp h
    refine ⟨hdrv, hasSet, hset, ?_⟩
    split at h
    · next hyes =>
      obtain ⟨i, hfind, h⟩ := bind_eq_ok_iff.mp h
      refine .inr ⟨hyes, i, hfind, ?_⟩
      split at h
      · next hnone =>
        obtain ⟨rfl, rfl⟩ := Prod.mk.inj (Except.ok.inj h)
        exact .inl ⟨hnone, rfl, rfl⟩
      · next pool hpool =>
        obtain ⟨rfl, rfl⟩ := Prod.mk.inj (Except.ok.inj h)
        exact .inr ⟨pool, hpool, rfl, rfl⟩
    · next hno =>
      obtain ⟨rfl, rfl⟩ := Prod.mk.inj (Except.ok.inj h)
      exact .inl ⟨Bool.eq_false_iff.mpr hno, rfl, rfl⟩

/-- **What the call does**, if it is survived: a token is turned down, or the last part
decides. -/
theorem mioConfInit_cases {statics statics' : ConfStatics} {stack : ℕ → MioPoolId}
    {toks : List YamlToken} {inst : MioInst}
    (h : mioConfInit statics stack toks = .ok (rc, statics', inst)) :
    ∃ rc₁ st, confScan stack toks statics.start = .ok (rc₁, st) ∧
      (rc₁ < 0 ∧ rc = rc₁ ∧ statics' = { st.toConfStatics with motrConf := none } ∨
        ¬ rc₁ < 0 ∧ ∃ st', confFinish st = .ok (rc, st') ∧ statics' = st'.toConfStatics ∧
          inst = st'.inst) := by
  rw [mioConfInit] at h
  obtain ⟨⟨rc₁, st⟩, hscan, h⟩ := bind_eq_ok_iff.mp h
  refine ⟨rc₁, st, hscan, ?_⟩
  simp only at h
  split at h
  · next hneg =>
    obtain ⟨hrc, hout⟩ := Prod.mk.inj (Except.ok.inj h)
    exact .inl ⟨hneg, hrc.symm, (Prod.mk.inj hout).1.symm⟩
  · next hnn =>
    obtain ⟨⟨rc', st'⟩, hfinish, h⟩ := bind_eq_ok_iff.mp h
    obtain ⟨rfl, hout⟩ := Prod.mk.inj (Except.ok.inj h)
    obtain ⟨rfl, rfl⟩ := Prod.mk.inj hout
    exact .inr ⟨hnn, st', hfinish, rfl, rfl⟩

/-- The scan of a file that is accepted. -/
theorem confScan_of_mioConfInit {statics statics' : ConfStatics} {stack : ℕ → MioPoolId}
    {toks : List YamlToken} {inst : MioInst}
    (h : mioConfInit statics stack toks = .ok (0, statics', inst)) :
    ∃ rc st st', confScan stack toks statics.start = .ok (rc, st) ∧ ¬ rc < 0 ∧
      confFinish st = .ok (0, st') ∧ statics' = st'.toConfStatics ∧ inst = st'.inst := by
  obtain ⟨rc, st, hscan, ⟨hneg, hrc, -⟩ | ⟨hnn, st', hfinish, hst', hinst⟩⟩ := mioConfInit_cases h
  · exact absurd hneg (by omega)
  · exact ⟨rc, st, st', hscan, hnn, hfinish, hst', hinst⟩

/-- The instance gets the configuration of the driver. -/
theorem mDriverConfs_confFinish (h : confFinish st = .ok (rc, st')) :
    st'.inst.mDriverConfs = st.motrConf := by
  obtain ⟨-, hasSet, -, hcases⟩ := confFinish_cases h
  rcases hcases with ⟨-, -, rfl⟩ | ⟨-, i, -, ⟨-, -, rfl⟩ | ⟨pool, -, -, rfl⟩⟩
  · rfl
  · rfl
  · rfl

/-- **The limit of an accepted file.** -/
theorem iosize_of_mioConfInit {statics statics' : ConfStatics} {stack : ℕ → MioPoolId}
    {toks : List YamlToken} {inst : MioInst} {conf : MotrConf}
    (h : mioConfInit statics stack toks = .ok (0, statics', inst))
    (hconf : inst.mDriverConfs = some conf) :
    conf.mcMaxIosizePerDev = configuredIosize statics toks := by
  obtain ⟨rc, st, st', hscan, hrc, hfinish, -, rfl⟩ := confScan_of_mioConfInit h
  have hlim := confScan_lastText (fun hinv h _ => hinv.token h)
    (limitInv_start statics) hscan hrc
  rw [LimitInv, ConfStatics.iosize, ← mDriverConfs_confFinish hfinish, hconf] at hlim
  rcases hlim with hsome | ⟨hnone, -⟩
  · exact Option.some.inj hsome
  · exact absurd hnone (by simp)

end CortxMio
