import CortxMio.Conf.SameFile

/-!
# A file that says all

Four things decide what the outcome of `mio_conf_init` owes to the file: the driver, the
store for telemetry, the list of pools, and the ids of these. A file that gives all of
them, as far as it is read and as far as they matter, has the same outcome in every
process (`CortxMio.outcome_of_selfContained`).

How far a file is read is said by the tokens: which of them are turned down is a matter of
what they are and of what has come before (`CortxMio.rc_confToken`). Whether the default
pool is found is said by the names that are given (`CortxMio.confFinish_zero_iff`), and so
is whether the search for it leads beyond an array (`CortxMio.confFinish_error_iff`): two
names that are too long for their arrays have no terminators there, and comparing them
does not end where they do.
-/

namespace CortxMio

open Lib

/-! ### Outcomes -/

/-- What a file configures. -/
structure MioConfig where
  /-- `m_driver_id`. -/
  driverId : MioDriverId
  /-- `m_telem_store_type`. -/
  telemStoreType : MioTelemetryStoreType
  /-- The pools. -/
  pools : List MioPool
  /-- `mps_default_pool_idx`. -/
  defaultPoolIdx : ℕ
  /-- `mps_default_pool_name`. -/
  defaultPoolName : List Byte
  deriving DecidableEq

/-- What the call returns, and what is configured if the file is accepted. -/
def outcomeOf (rc : ℤ) (statics : ConfStatics) (inst : MioInst) : ℤ × Option MioConfig :=
  (rc, if rc < 0 then none else some ⟨inst.mDriverId, inst.mTelemStoreType,
    statics.mioPools.list, statics.mioPools.mpsDefaultPoolIdx,
    statics.mioPools.mpsDefaultPoolName⟩)

/-- The outcome of `mio_conf_init` on a file. -/
def confOutcome (statics : ConfStatics) (stack : ℕ → MioPoolId) (toks : List YamlToken) :
    Except Fault (ℤ × Option MioConfig) :=
  (mioConfInit statics stack toks).map fun r => outcomeOf r.1 r.2.1 r.2.2

/-- The default pool and a pool have names that are too long and begin alike. -/
def Overrun (toks : List YamlToken) : Prop :=
  ∃ d s, lastText .motrPoolDefault true none none toks = some d ∧
    some s ∈ entryTexts .motrPoolName .initial (streamToks toks) ∧
      mioPoolMaxNameLen < d.length ∧ mioPoolMaxNameLen < s.length ∧ nameBytes s = nameBytes d

/-- Nothing is said of a pool before there is one. -/
def NoValueBefore (toks : List YamlToken) : Prop :=
  ∀ pre s, pre ++ [.scalar s] <+: toks → Reached pre → (poolTrack .initial pre).isKey = false →
    storedInPool (poolTrack .initial pre).key s = true →
      0 < (poolTrack .initial pre).own + (poolTrack .initial pre).others

/-- The file has an end, and nothing is turned down up to there. -/
def ReadToEnd (toks : List YamlToken) : Prop := .streamEnd ∈ toks ∧ Reached (streamToks toks)

/-- The default pool is one of the pools, or none is asked for. -/
def DefaultFound (toks : List YamlToken) : Prop :=
  ∀ d, lastText .motrPoolDefault true none none toks = some d →
    d.length ≤ mioPoolMaxNameLen ∧ (d = mioDefaultPoolNullStr ∨
      ∃ text ∈ entryTexts .motrPoolName .initial (streamToks toks), text.getD (literal "") = d)

/-- **A file says all that is asked of it**, as far as it is read. -/
structure SelfContained (toks : List YamlToken) : Prop where
  /-- There is no entry of a sequence before its list of pools. -/
  entry : NoEntryBefore toks
  /-- Nothing is said of a pool before there is one. -/
  value : NoValueBefore toks
  /-- If it is read to its end, it has a driver. -/
  driver : ReadToEnd toks → (lastText .mioDriver true none none toks).isSome
  /-- It has a list of pools. -/
  list : ReadToEnd toks → (poolTrack .initial (streamToks toks)).started = true
  /-- Its default pool and a pool do not have names that are too long and begin alike. -/
  names : ReadToEnd toks → ¬ Overrun toks
  /-- If the default pool is found, it has a store for telemetry. -/
  telem : ReadToEnd toks → DefaultFound toks →
    (lastText .mioTelemetryStore true none none toks).isSome
  /-- The id of a pool is two numbers, if it is given. -/
  ids : ReadToEnd toks → DefaultFound toks →
    ∀ s, some s ∈ entryTexts .motrPoolId .initial (streamToks toks) →
      (poolIdSscanf s.bytes).1 = 2

variable {st₁ st₂ : ConfState} {rc : ℤ}

/-! ### The search for the default pool -/

/-- An array that a name has been copied to, and that holds no terminator. -/
theorem long_of_nameBytes {s : CStr} {mem : List Byte} (h : nameBytes s <+: mem)
    (hmem : mem.length = mioPoolMaxNameLen + 1) (hzero : 0 ∉ mem) :
    mioPoolMaxNameLen < s.length ∧ nameBytes s = mem := by
  have hlong : mioPoolMaxNameLen < s.length := by
    by_contra hc
    have hterm : 0 ∈ nameBytes s := by
      rw [nameBytes_eq_buf (not_lt.mp hc), CStr.buf]
      exact List.mem_append_right _ List.mem_cons_self
    exact hzero (h.subset hterm)
  exact ⟨hlong, h.eq_of_length ((nameBytes_of_long hlong).1.trans hmem.symm)⟩

theorem exists_of_findDefaultPool_error {name : List Byte} {i : ℕ} {pools : List MioPool}
    {fault : Fault} (h : findDefaultPool name i pools = .error fault) :
    fault = .oob ∧ ∃ pool ∈ pools, strEq pool.mpName name = none := by
  induction pools generalizing i with
  | nil => cases h
  | cons pool pools ih =>
    rw [findDefaultPool] at h
    split at h
    · next hnone => exact ⟨(Except.error.inj h).symm, pool, List.mem_cons_self, hnone⟩
    · cases h
    · obtain ⟨hfault, pool', hmem, hnone⟩ := ih h
      exact ⟨hfault, pool', List.mem_cons_of_mem _ hmem, hnone⟩

/-- **The last part fails** because there is no driver, or because a comparison leads beyond
an array. -/
theorem confFinish_error_cases {st : ConfState} {fault : Fault}
    (h : confFinish st = .error fault) : fault = .oob ∧ (st.mioInstDrvId = .invalid ∨
      mioConfDefaultPoolHasSet st.mioDefaultPoolName = .error .oob ∨
        ∃ pool ∈ st.mioPools.list, strEq pool.mpName st.mioDefaultPoolName = none) := by
  rw [confFinish] at h
  split at h
  · next hdrv => exact ⟨(Except.error.inj h).symm, .inl hdrv⟩
  · simp only at h
    cases hset : mioConfDefaultPoolHasSet st.mioDefaultPoolName with
    | error fault' =>
      rw [hset] at h
      have hfault : fault' = .oob := by
        rw [mioConfDefaultPoolHasSet] at hset
        split at hset
        · exact (Except.error.inj hset).symm
        · cases hset
      exact ⟨(Except.error.inj h).symm.trans hfault, .inr (.inl (congrArg _ hfault))⟩
    | ok hasSet =>
      rw [hset, ok_bind] at h
      split at h
      · cases hfind : findDefaultPool st.mioDefaultPoolName 0 st.mioPools.list with
        | error fault' =>
          rw [hfind] at h
          obtain ⟨hfault, hpool⟩ := exists_of_findDefaultPool_error hfind
          exact ⟨(Except.error.inj h).symm.trans hfault, .inr (.inr hpool)⟩
        | ok i =>
          rw [hfind, ok_bind] at h
          split at h
          · cases h
          · cases h
      · cases h

theorem findDefaultPool_oob {name : List Byte} {pools : List MioPool} {pool : MioPool}
    (hpool : pool ∈ pools) (hnone : strEq pool.mpName name = none) (hzero : 0 ∉ name) (i : ℕ) :
    findDefaultPool name i pools = .error .oob := by
  induction pools generalizing i with
  | nil => cases hpool
  | cons pool' pools ih =>
    rw [findDefaultPool]
    split
    · rfl
    · next heq =>
      obtain ⟨s, -, hs⟩ := exists_of_strEq heq
      have hterm : 0 ∈ name :=
        (readBack_eq_some_iff.mp hs).subset (List.mem_append_right _ List.mem_cons_self)
      exact absurd hterm hzero
    · next hne =>
      rcases List.mem_cons.mp hpool with rfl | hmem
      · rw [hnone] at hne
        cases hne
      · exact ih hmem (i + 1)

theorem exists_left_of_forall₂ {α β : Type} {R : α → β → Prop} {l₁ : List α} {l₂ : List β}
    (h : List.Forall₂ R l₁ l₂) {b : β} (hb : b ∈ l₂) : ∃ a ∈ l₁, R a b := by
  induction h with
  | nil => cases hb
  | cons hr _ ih =>
    rcases List.mem_cons.mp hb with rfl | hmem
    · exact ⟨_, List.mem_cons_self, hr⟩
    · obtain ⟨a, ha, hab⟩ := ih hmem
      exact ⟨a, List.mem_cons_of_mem _ ha, hab⟩

/-- **The search in a new process** leads beyond an array just if there are such names. -/
theorem confFinish_error_iff {toks : List YamlToken} {st : ConfState}
    (hscan : confScan zeroStack toks ConfStatics.initial.start = .ok (0, st))
    (hdrv : st.mioInstDrvId ≠ .invalid) :
    (∃ fault, confFinish st = .error fault) ↔ Overrun toks := by
  have hsound := sound_confScan sound_initial hscan
  have hafter : confAfter zeroStack (streamToks toks) ConfStatics.initial.start = some st :=
    confAfter_of_confScan hscan (by decide)
  have hnames := named_of_confAfter (P := fun mem => 0 ∈ mem) (by decide +kernel)
    (fun mem hmem => by cases hmem) sound_initial.nrPools hafter
  have hdefault := defaultIs_of_confScan hscan (by decide)
  constructor
  · rintro ⟨fault, h⟩
    obtain ⟨-, hinvalid | hset | ⟨pool, hpool, hnone⟩⟩ := confFinish_error_cases h
    · exact absurd hinvalid hdrv
    · rw [hasSet_eq hsound.default] at hset
      cases hset
    · have hmem : pool.mpName ∈ st.poolNames := List.mem_map_of_mem hpool
      have hlen := hsound.names _ hmem
      obtain ⟨heq, hzero⟩ := (strEq_eq_none_iff (hlen.trans hsound.default.symm)).mp hnone
      obtain ⟨text, htext, hnamed⟩ := exists_left_of_forall₂ hnames hmem
      cases text with
      | none => exact absurd hnamed hzero
      | some s =>
        obtain ⟨hslong, hs⟩ := long_of_nameBytes hnamed hlen hzero
        obtain ⟨hdlong, hd⟩ := long_of_nameBytes hdefault hsound.default (heq ▸ hzero)
        cases htext' : lastText .motrPoolDefault true none none toks with
        | none =>
          rw [htext'] at hdlong
          exact absurd hdlong (by decide)
        | some d =>
          rw [htext'] at hdlong hd
          exact ⟨d, s, htext', htext, hdlong, hslong, hs.trans (heq.trans hd.symm)⟩
  · rintro ⟨d, s, hd, hs, hdlong, hslong, hsame⟩
    obtain ⟨hlen, hzero⟩ := nameBytes_of_long hdlong
    rw [DefaultIs, hd] at hdefault
    have hname : nameBytes d = st.mioDefaultPoolName :=
      hdefault.eq_of_length (hlen.trans hsound.default.symm)
    rw [hname] at hzero
    obtain ⟨mem, hmem, hnamed⟩ := exists_left_of_forall₂ hnames.flip hs
    obtain ⟨pool, hpool, rfl⟩ := List.mem_map.mp hmem
    have hpoolName : nameBytes s = pool.mpName :=
      List.IsPrefix.eq_of_length hnamed
        ((nameBytes_of_long hslong).1.trans (hsound.names _ hmem).symm)
    have hnone : strEq pool.mpName st.mioDefaultPoolName = none := by
      rw [← hpoolName, hsame, hname]
      exact (strEq_eq_none_iff rfl).mpr ⟨rfl, hzero⟩
    refine ⟨.oob, ?_⟩
    rw [confFinish, if_neg hdrv]
    simp only
    rw [hasSet_eq hsound.default, ok_bind, findDefaultPool_oob hpool hnone hzero 0]
    have hset : readBack st.mioDefaultPoolName ≠ some mioDefaultPoolNullStr := by
      rw [readBack, if_neg hzero]
      simp
    rw [decide_eq_false hset]
    rfl

/-- A name that is read back from its array has been copied to it in full. -/
theorem length_le_of_readBack {s t : CStr} {mem : List Byte} (h : nameBytes s <+: mem)
    (hmem : mem.length = mioPoolMaxNameLen + 1) (hread : readBack mem = some t) :
    s.length ≤ mioPoolMaxNameLen ∧ s = t := by
  have hs : s.length ≤ mioPoolMaxNameLen := by
    by_contra hc
    obtain ⟨hlen, hzero⟩ := nameBytes_of_long (not_le.mp hc)
    rw [← h.eq_of_length (hlen.trans hmem.symm), readBack, if_neg hzero] at hread
    cases hread
  exact ⟨hs, Option.some.inj ((readBack_of_nameBytes h hs).symm.trans hread)⟩

/-- The name of a pool, cleared. -/
theorem readBack_zeroed : readBack MioPool.zeroed.mpName = some (literal "") := by decide +kernel

/-- **The search in a new process** ends with a pool just if the file has it. -/
theorem confFinish_zero_iff {toks : List YamlToken} {st : ConfState}
    (hscan : confScan zeroStack toks ConfStatics.initial.start = .ok (0, st))
    (hdrv : st.mioInstDrvId ≠ .invalid) :
    (∃ st', confFinish st = .ok (0, st')) ↔ DefaultFound toks := by
  have hsound := sound_confScan sound_initial hscan
  have hafter : confAfter zeroStack (streamToks toks) ConfStatics.initial.start = some st :=
    confAfter_of_confScan hscan (by decide)
  have hnames := named_of_confAfter (P := fun mem => readBack mem = some (literal ""))
    readBack_zeroed (fun mem hmem => by cases hmem) sound_initial.nrPools hafter
  have hdefault := defaultIs_of_confScan hscan (by decide)
  rw [DefaultIs] at hdefault
  constructor
  · rintro ⟨st', h⟩ d hd
    rw [hd, Option.getD_some] at hdefault
    obtain ⟨-, hasSet, hset, hcases⟩ := confFinish_cases h
    rw [hasSet_eq hsound.default] at hset
    rcases hcases with ⟨rfl, -, -⟩ | ⟨-, i, hfind, ⟨-, hrc, -⟩ | ⟨pool, hpool, -, -⟩⟩
    · have hnull := of_decide_eq_true (Bool.not_eq_eq_eq_not.mp (Except.ok.inj hset))
      obtain ⟨hlen, heq⟩ := length_le_of_readBack hdefault hsound.default hnull
      exact ⟨hlen, .inl heq⟩
    · exact absurd hrc (by decide)
    · have heq := strEq_of_findDefaultPool ((Nat.zero_add i).symm ▸ hfind) hpool
      obtain ⟨t, hname, hdef⟩ := exists_of_strEq heq
      obtain ⟨hlen, rfl⟩ := length_le_of_readBack hdefault hsound.default hdef
      have hmem : pool.mpName ∈ st.poolNames := List.mem_map_of_mem (List.mem_of_getElem? hpool)
      obtain ⟨text, htext, hnamed⟩ := exists_left_of_forall₂ hnames hmem
      refine ⟨hlen, .inr ⟨text, htext, ?_⟩⟩
      cases text with
      | none => exact Option.some.inj (Eq.trans (Eq.symm hnamed) hname)
      | some s => exact (length_le_of_readBack hnamed (hsound.names _ hmem) hname).2
  · intro h
    cases hd : lastText .motrPoolDefault true none none toks with
    | none =>
      rw [hd] at hdefault
      exact ⟨_, confFinish_null hdrv hsound (readBack_of_nameBytes hdefault (by decide))⟩
    | some d =>
      rw [hd, Option.getD_some] at hdefault
      obtain ⟨hlen, hpool⟩ := h d hd
      have hname := readBack_of_nameBytes hdefault hlen
      by_cases hnull : d = mioDefaultPoolNullStr
      · exact ⟨_, confFinish_null hdrv hsound (hnull ▸ hname)⟩
      · obtain ⟨text, htext, rfl⟩ := hpool.resolve_left hnull
        obtain ⟨mem, hmem, hnamed⟩ := exists_left_of_forall₂ hnames.flip htext
        have hread : readBack mem = some (text.getD (literal "")) := by
          cases text with
          | none => exact hnamed
          | some s => exact readBack_of_nameBytes hnamed hlen
        obtain ⟨pool, hpool, rfl⟩ := List.mem_map.mp hmem
        have hlt : st.mioPools.list.findIdx (fun pool =>
            readBack pool.mpName = some (text.getD (literal ""))) < st.mioPools.list.length :=
          List.findIdx_lt_length_of_exists ⟨pool, hpool, decide_eq_true hread⟩
        rw [confFinish_search hdrv hsound hname hnull, List.getElem?_eq_getElem hlt]
        exact ⟨_, rfl⟩

/-! ### A file that says all -/

theorem setPool_ne_error {st : ConfState} {f : MioPool → MioPool} {fault : Fault}
    (h : 0 < st.mioPools.mpsNrPools) : st.setPool f ≠ .error fault := by
  have hne : st.mioPools.list ≠ [] := List.length_pos_iff.mp h
  obtain ⟨pools, pool, hpools⟩ := (List.eq_nil_or_concat' _).resolve_left hne
  rw [setPool_of_list hpools]
  simp

theorem setMotr_ne_error {st : ConfState} {f : MotrConf → MotrConf} {fault : Fault}
    (h : st.motrConf.isSome) : st.setMotr f ≠ .error fault := by
  obtain ⟨conf, hconf⟩ := Option.isSome_iff_exists.mp h
  rw [ConfState.setMotr, hconf]
  simp

/-- A value is survived if it finds what it is written to. -/
theorem confExtractValue_ne_error {st : ConfState} {stack : MioPoolId} {key : Option ConfKey}
    {value : CStr} {vlen : ℕ} {fault : Fault}
    (hready : ∀ k ∈ motrKeys, key = some k → st.motrConf.isSome)
    (hpos : storedInPool key value = true → 0 < st.mioPools.mpsNrPools) :
    confExtractValue st stack key value vlen ≠ .error fault := by
  by_cases hstored : storedInPool key value = true
  · obtain ⟨f, hf⟩ := confExtractValue_of_stored hstored st stack vlen
    rw [hf]
    exact setPool_ne_error (hpos hstored)
  · rw [confExtractValue.eq_def]
    dsimp only
    split
    case h_17 =>
      rw [if_neg (not_lt.mpr (strnlen_le _ _))]
      simp
    case h_18 => exact absurd (decide_eq_true (strnlen_le _ _)) hstored
    case h_19 =>
      rw [confPoolIdSscanf_eq, if_pos]
      · simp
      · by_contra hc
        exact hstored (decide_eq_true (not_lt.mp hc))
    case h_20 =>
      split
      · simp
      · next htype => exact absurd (Option.isSome_iff_exists.mpr ⟨_, htype⟩) hstored
    case h_6 | h_7 | h_8 | h_9 | h_10 | h_11 | h_12 | h_13 | h_14 | h_15 | h_16 =>
      exact setMotr_ne_error (hready _ (by decide) rfl)
    all_goals simp

/-- **A new process survives a token**, if it is no entry before the list of pools and
says nothing of a pool before there is one. -/
theorem confToken_ne_error {st : ConfState} {stack : MioPoolId} {tok : YamlToken} {fault : Fault}
    (hready : st.MotrReady)
    (hpools : tok = .blockEntry → st.confWhichBlkSeq = true → st.mioPools.mpsPools.isSome)
    (hvalue : ∀ s, tok = .scalar s → st.isKey = false → storedInPool st.key s = true →
      0 < st.mioPools.mpsNrPools) : confToken st stack tok ≠ .error fault := by
  cases tok with
  | key | value | blockMappingStart | blockEnd | streamEnd | other | blockSequenceStart =>
    simp [confToken]
  | blockEntry =>
    rw [confToken, confStartBlock]
    split
    · next hwhich =>
      obtain ⟨pools, hsome⟩ := Option.isSome_iff_exists.mp (hpools rfl hwhich)
      rw [hsome]
      split
      · simp
      · simp
    · simp
  | scalar s =>
    rw [confToken]
    split
    · simp
    · next hisKey =>
      exact confExtractValue_ne_error hready (hvalue s rfl (Bool.eq_false_iff.mpr hisKey))

/-- **The next token is survived** by a new process. -/
theorem exists_of_confToken {toks : List YamlToken} (hentry : NoEntryBefore toks)
    (hvalue : NoValueBefore toks) {pre : List YamlToken} {tok : YamlToken} {st : ConfState}
    (hpre : pre ++ [tok] <+: toks)
    (hafter : confAfter zeroStack pre ConfStatics.initial.start = some st) :
    ∃ rc st', confToken st (zeroStack pre.length) tok = .ok (rc, st') := by
  obtain ⟨st₂, -, hsame, -⟩ := sameFile_confAfter sound_initial (K := fun _ => True) zeroStack
    (fun _ => trivial) hentry ((List.prefix_append _ _).trans hpre) hafter
  have hagrees := poolTrack_agrees sound_initial.nrPools hafter
  cases hok : confToken st (zeroStack pre.length) tok with
  | ok r => exact ⟨r.1, r.2, rfl⟩
  | error fault =>
    refine absurd hok (confToken_ne_error hsame.ready.1 ?_ ?_)
    · exact fun _ hwhich => (hsame.pools hwhich).2.isSome.1
    · rintro s rfl hisKey hstored
      rw [← hagrees.entries]
      exact hvalue pre s hpre (reached_of_confAfter hafter) (hagrees.isKey.trans hisKey)
        (hagrees.key ▸ hstored)

/-- **What is not turned down is reached** in a new process. -/
theorem confAfter_of_reached {toks : List YamlToken} (hentry : NoEntryBefore toks)
    (hvalue : NoValueBefore toks) {pre : List YamlToken} (hpre : pre <+: toks)
    (h : Reached pre) : ∃ st, confAfter zeroStack pre ConfStatics.initial.start = some st := by
  induction pre using List.reverseRecOn with
  | nil => exact ⟨_, rfl⟩
  | append_singleton pre tok ih =>
    obtain ⟨hreached, htok, hkept⟩ := reached_concat.mp h
    obtain ⟨st, hafter⟩ := ih ((List.prefix_append _ _).trans hpre) hreached
    obtain ⟨rc, st', hok⟩ := exists_of_confToken hentry hvalue hpre hafter
    refine ⟨st', confAfter_concat.mpr ⟨st, rc, hafter, htok, hok, fun hc => ?_⟩⟩
    have hagrees := poolTrack_agrees sound_initial.nrPools hafter
    rw [(rc_confToken hagrees hok).mp hc] at hkept
    cases hkept

/-- What a new process reads to its end has one, and is not turned down. -/
theorem readToEnd_of_confScan {toks : List YamlToken} {st : ConfState}
    (h : confScan zeroStack toks ConfStatics.initial.start = .ok (0, st)) : ReadToEnd toks := by
  exact ⟨streamEnd_mem_of_confScan h (by decide),
    reached_of_confAfter (confAfter_of_confScan h (by decide))⟩

theorem confScan_of_readToEnd {toks : List YamlToken} (hentry : NoEntryBefore toks)
    (hvalue : NoValueBefore toks) (h : ReadToEnd toks) :
    ∃ st, confScan zeroStack toks ConfStatics.initial.start = .ok (0, st) := by
  obtain ⟨hend, hreached⟩ := h
  obtain ⟨st, hafter⟩ := confAfter_of_reached hentry hvalue (List.takeWhile_prefix _) hreached
  exact ⟨st, confScan_of_confAfter hend hafter⟩

section Outcome

variable {statics : ConfStatics} {stack : ℕ → MioPoolId} {toks : List YamlToken} {st : ConfState}

theorem confOutcome_of_error {fault : Fault}
    (h : confScan stack toks statics.start = .error fault) :
    confOutcome statics stack toks = .error fault := by
  rw [confOutcome, mioConfInit, h]
  rfl

theorem confOutcome_of_neg (h : confScan stack toks statics.start = .ok (rc, st)) (hrc : rc < 0) :
    confOutcome statics stack toks = .ok (rc, none) := by
  rw [confOutcome, mioConfInit, h, ok_bind]
  simp only
  rw [if_pos hrc]
  simp only [Except.map, outcomeOf, if_pos hrc]

theorem confOutcome_of_end (h : confScan stack toks statics.start = .ok (0, st)) :
    confOutcome statics stack toks =
      (confFinish st).map fun r => outcomeOf r.1 r.2.toConfStatics r.2.inst := by
  rw [confOutcome, mioConfInit, h, ok_bind]
  simp only
  rw [if_neg (by decide)]
  cases confFinish st with
  | error fault => rfl
  | ok r => rfl

/-- A stream without an end. -/
theorem confOutcome_diverge (h : confAfter stack toks statics.start = some st) :
    confOutcome statics stack toks = .error .diverge := by
  refine confOutcome_of_error ?_
  rw [← List.append_nil toks, confScan_append h]
  rfl

/-- A token that is turned down. -/
theorem confOutcome_turnedDown {tok : YamlToken} {st' : ConfState}
    (h : confAfter stack toks statics.start = some st) (htok : tok ≠ .streamEnd)
    (hok : confToken st (stack toks.length) tok = .ok (rc, st')) (hrc : rc < 0)
    (rest : List YamlToken) : confOutcome statics stack (toks ++ tok :: rest) = .ok (rc, none) := by
  refine confOutcome_of_neg (confScan_stop h htok hok fun rc' u hu => ?_) hrc
  obtain ⟨rfl, -⟩ := Prod.mk.inj (Except.ok.inj hu)
  exact hrc

end Outcome

/-- The last part returns one of two codes. -/
theorem rc_confFinish {st st' : ConfState} (h : confFinish st = .ok (rc, st')) :
    rc = 0 ∨ rc = -EINVAL := by
  obtain ⟨-, hasSet, -, hcases⟩ := confFinish_cases h
  rcases hcases with ⟨-, hrc, -⟩ | ⟨-, i, -, ⟨-, hrc, -⟩ | ⟨pool, -, hrc, -⟩⟩
  · exact .inl hrc
  · exact .inr hrc
  · exact .inl hrc

/-- Pools are the same if they are but for their ids, and these are the same. -/
theorem pools_ext {pools₁ pools₂ : List MioPool}
    (hanon : pools₁.map MioPool.anon = pools₂.map MioPool.anon)
    (hids : pools₁.map MioPool.mpId = pools₂.map MioPool.mpId) : pools₁ = pools₂ := by
  induction pools₁ generalizing pools₂ with
  | nil => exact (List.map_eq_nil_iff.mp hanon.symm).symm
  | cons pool₁ pools₁ ih =>
    obtain ⟨pool₂, pools₂, rfl, hpool, hrest⟩ := List.map_eq_cons_iff.mp hanon.symm
    obtain ⟨hid, hids⟩ := List.cons.inj hids
    obtain ⟨hname, htype⟩ := anon_eq_iff.mp hpool
    rw [ih hrest.symm hids]
    congr 1
    exact (MioPool.mk.injEq ..).mpr ⟨hname.symm, hid, htype.symm⟩

/-- `sscanf` has read two numbers if it returns 2. -/
theorem poolIdSscanf_eq_two_iff (s : List Byte) :
    (poolIdSscanf s).1 = 2 ↔ ∃ u v, (poolIdSscanf s).2 = (some u, some v) := by
  rw [poolIdSscanf]
  split
  · simp
  · simp
  · split
    · simp
    · split
      · simp
      · split
        · simp
        · simp

/-- **A pair of numbers is the id**, whatever the stack has held. -/
theorem id_eq_of_idOf {K : MioPoolId → Prop} {text : Option CStr} {id₁ id₂ : MioPoolId}
    (hfull : ∀ s, text = some s → (poolIdSscanf s.bytes).1 = 2) (h₁ : IdOf K text id₁)
    (h₂ : IdOf K text id₂) : id₁ = id₂ := by
  cases text with
  | none => exact Eq.trans h₁ (Eq.symm h₂)
  | some s =>
    obtain ⟨k₁, -, rfl⟩ := h₁
    obtain ⟨k₂, -, rfl⟩ := h₂
    obtain ⟨u, v, hboth⟩ := (poolIdSscanf_eq_two_iff _).mp (hfull s rfl)
    rw [hboth]
    rfl

/-- The ids of two processes are the same if they are given as pairs. -/
theorem poolIds_eq {K : MioPoolId → Prop} {texts : List (Option CStr)} {ids₁ ids₂ : List MioPoolId}
    (hfull : ∀ s, some s ∈ texts → (poolIdSscanf s.bytes).1 = 2)
    (h₁ : List.Forall₂ (IdOf K) texts ids₁) (h₂ : List.Forall₂ (IdOf K) texts ids₂) :
    ids₁ = ids₂ := by
  induction h₁ generalizing ids₂ with
  | nil =>
    cases h₂
    rfl
  | cons hid₁ _ ih =>
    cases h₂ with
    | cons hid₂ hrest =>
      rw [ih (fun s hs => hfull s (List.mem_cons_of_mem _ hs)) hrest,
        id_eq_of_idOf (fun s hs => hfull s (hs ▸ List.mem_cons_self)) hid₁ hid₂]

/-- A driver that is one. -/
theorem eq_motr_of_ne_invalid {id : MioDriverId} (h : id ≠ .invalid) : id = .motr := by
  cases id with
  | invalid => exact absurd rfl h
  | motr => rfl

/-- The store for telemetry that a file says. -/
theorem telem_eq_of_confScan {toks : List YamlToken} {statics : ConfStatics}
    {stack₁ stack₂ : ℕ → MioPoolId}
    (h : (lastText .mioTelemetryStore true none none toks).isSome)
    (hscan₁ : confScan stack₁ toks ConfStatics.initial.start = .ok (0, st₁))
    (hscan₂ : confScan stack₂ toks statics.start = .ok (0, st₂)) :
    st₂.mioInstTelemStoreType = st₁.mioInstTelemStoreType := by
  obtain ⟨s, hs⟩ := Option.isSome_iff_exists.mp h
  have htelem₁ := telemIs_of_confScan hscan₁ (by decide)
  have htelem₂ := telemIs_of_confScan hscan₂ (by decide)
  rw [TelemIs, hs] at htelem₁ htelem₂
  exact htelem₂.trans htelem₁.symm

/-- **The end of a file that says all** is the same in every process. -/
theorem outcome_of_end {toks : List YamlToken} (h : SelfContained toks) {statics : ConfStatics}
    {stack : ℕ → MioPoolId} (hsame : SameFile st₁ st₂)
    (hscan₁ : confScan zeroStack toks ConfStatics.initial.start = .ok (0, st₁))
    (hscan₂ : confScan stack toks statics.start = .ok (0, st₂))
    (hids₁ : List.Forall₂ (IdOf fun _ => True)
      (entryTexts .motrPoolId .initial (streamToks toks)) st₁.poolIds)
    (hids₂ : List.Forall₂ (IdOf fun _ => True)
      (entryTexts .motrPoolId .initial (streamToks toks)) st₂.poolIds) :
    confOutcome statics stack toks = confOutcome .initial zeroStack toks ∧
      confOutcome .initial zeroStack toks ≠ .error .oob := by
  have hend := readToEnd_of_confScan hscan₁
  have hwhich : st₁.confWhichBlkSeq = true := by
    have hagrees := poolTrack_agrees sound_initial.nrPools
      (confAfter_of_confScan hscan₁ (by decide))
    exact hagrees.started.symm.trans (h.list hend)
  have hdrv₁ := (driverIs_of_confScan hscan₁ (by decide)).mpr (.inr (h.driver hend))
  have hdrv₂ := (driverIs_of_confScan hscan₂ (by decide)).mpr (.inr (h.driver hend))
  have hview := sameFile_confFinish hsame hwhich hdrv₁ hdrv₂
  rw [confOutcome_of_end hscan₁, confOutcome_of_end hscan₂]
  cases hfinish₁ : confFinish st₁ with
  | error fault =>
    exact absurd ((confFinish_error_iff hscan₁ hdrv₁).mp ⟨fault, hfinish₁⟩) (h.names hend)
  | ok r₁ =>
    obtain ⟨rc, st₁'⟩ := r₁
    rw [hfinish₁] at hview
    obtain ⟨⟨rc', st₂'⟩, hfinish₂, hr⟩ := map_eq_ok_iff.mp hview.symm
    rw [hfinish₂]
    obtain ⟨rfl, hr⟩ := Prod.mk.inj hr
    obtain ⟨hidx, hr⟩ := Prod.mk.inj hr
    obtain ⟨hname, hanon⟩ := Prod.mk.inj hr
    simp only [Except.map]
    refine ⟨congrArg Except.ok ?_, by simp⟩
    rw [outcomeOf, outcomeOf]
    by_cases hneg : rc' < 0
    · rw [if_pos hneg, if_pos hneg]
    · rw [if_neg hneg, if_neg hneg]
      have hrc : rc' = 0 := by
        rcases rc_confFinish hfinish₂ with hzero | hinval
        · exact hzero
        · rw [hinval] at hneg
          exact absurd (by decide) hneg
      subst hrc
      have hfound := (confFinish_zero_iff hscan₁ hdrv₁).mp ⟨st₁', hfinish₁⟩
      obtain ⟨-, idx₁, name₁, rfl⟩ := exists_of_confFinish hfinish₁
      obtain ⟨-, idx₂, name₂, rfl⟩ := exists_of_confFinish hfinish₂
      have hpools : st₂.mioPools.list = st₁.mioPools.list :=
        pools_ext hanon (poolIds_eq (h.ids hend hfound) hids₂ hids₁)
      have htelem := telem_eq_of_confScan (h.telem hend hfound) hscan₁ hscan₂
      have hdrv : st₂.mioInstDrvId = st₁.mioInstDrvId :=
        (eq_motr_of_ne_invalid hdrv₂).trans (eq_motr_of_ne_invalid hdrv₁).symm
      obtain rfl : idx₂ = idx₁ := hidx
      obtain rfl : name₂ = name₁ := hname
      show (0, some (MioConfig.mk st₂.mioInstDrvId st₂.mioInstTelemStoreType st₂.mioPools.list
        idx₂ name₂)) = (0, some (MioConfig.mk st₁.mioInstDrvId st₁.mioInstTelemStoreType
          st₁.mioPools.list idx₂ name₂))
      rw [hdrv, htelem, hpools]

/-- **The outcome of a file that says all** is the one in a new process. -/
theorem outcome_of_selfContained {toks : List YamlToken} (h : SelfContained toks)
    {statics : ConfStatics} (hsound : statics.Sound) (stack : ℕ → MioPoolId) :
    confOutcome statics stack toks = confOutcome .initial zeroStack toks ∧
      confOutcome .initial zeroStack toks ≠ .error .oob := by
  obtain ⟨pre, post, st₁, htoks, hafter₁, hpost⟩ :=
    exists_stop zeroStack toks ConfStatics.initial.start
  have hpre : pre <+: toks := ⟨post, htoks.symm⟩
  obtain ⟨st₂, hafter₂, hsame, hids₂⟩ := sameFile_confAfter hsound (K := fun _ => True)
    stack (fun _ => trivial) h.entry hpre hafter₁
  obtain ⟨st₁', hafter₁', -, hids₁⟩ := sameFile_confAfter sound_initial
    (K := fun _ => True) zeroStack (fun _ => trivial) h.entry hpre hafter₁
  obtain rfl := Option.some.inj (hafter₁.symm.trans hafter₁')
  have hagrees := poolTrack_agrees sound_initial.nrPools hafter₁
  rcases hpost with rfl | ⟨rest, rfl⟩ | ⟨tok, rest, rfl, htok, hstop⟩
  · -- the stream has no end
    rw [List.append_nil] at htoks
    subst htoks
    rw [confOutcome_diverge hafter₁, confOutcome_diverge hafter₂]
    exact ⟨rfl, by simp⟩
  · -- the end of the stream is reached
    have hend : YamlToken.streamEnd ∈ toks :=
      htoks ▸ List.mem_append_right _ List.mem_cons_self
    have hstream : streamToks toks = pre := by
      rw [htoks, streamToks, List.takeWhile_append_of_pos, List.takeWhile_cons_of_neg (by simp),
        List.append_nil]
      intro tok htok
      have hne : tok ≠ .streamEnd := fun hc => streamEnd_notMem_of_confAfter hafter₁ (hc ▸ htok)
      simpa using hne
    rw [← hstream] at hafter₁ hafter₂ hids₁ hids₂
    have hscan₁ := confScan_of_confAfter hend hafter₁
    have hstarted := h.list (readToEnd_of_confScan hscan₁)
    exact outcome_of_end h hsame hscan₁ (confScan_of_confAfter hend hafter₂) (hids₁ hstarted)
      (hids₂ hstarted)
  · -- a token is turned down
    have htok' := prefix_of_eq_append htoks
    obtain ⟨rc, st₁', hok₁⟩ := exists_of_confToken h.entry h.value htok' hafter₁
    have hneg := hstop rc st₁' hok₁
    obtain ⟨st₂', hok₂, -⟩ := sameFile_confToken (stack pre.length) hsame
      (fun hblock => by
        subst hblock
        exact hagrees.started.symm.trans (h.entry pre htok' (reached_of_confAfter hafter₁))) hok₁
    rw [htoks, confOutcome_turnedDown hafter₁ htok hok₁ hneg,
      confOutcome_turnedDown hafter₂ htok hok₂ hneg]
    exact ⟨rfl, by simp⟩

end CortxMio
