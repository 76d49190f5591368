import CortxMio.Conf.Limit

/-!
# The pools of an accepted configuration

An accepted file configures less than `MIO_MOTR_MAX_POOL_CNT` pools, and a default pool
that it names is one of them (`CortxMio.poolsOk_of_mioConfInit`). The former is an
invariant of the tokens (`CortxMio.confScan_inv`), the latter is checked at the end.
-/

namespace CortxMio

open Lib

/-- The pools can be chosen from. -/
structure ConfStatics.PoolsOk (st : ConfStatics) : Prop where
  /-- Their number is limited. -/
  nrPools : st.mioPools.mpsNrPools < mioMotrMaxPoolCnt
  /-- The default pool, if one is set, is one of them. -/
  default : ∃ hasSet, mioConfDefaultPoolHasSet st.mioDefaultPoolName = .ok hasSet ∧
    (hasSet = true → st.mioPools.mpsDefaultPoolIdx < st.mioPools.mpsNrPools)

variable {st st' : ConfState} {rc : ℤ}

/-- **The rule for the tokens**: what every token keeps is kept by the scan. -/
theorem confScan_inv {I : ConfState → Prop}
    (hstep : ∀ {st st' : ConfState} {stack : MioPoolId} {tok : YamlToken} {rc : ℤ}, I st →
      confToken st stack tok = .ok (rc, st') → I st') :
    ∀ {toks : List YamlToken} {stack : ℕ → MioPoolId} {st : ConfState}, I st →
      confScan stack toks st = .ok (rc, st') → I st' := by
  intro toks
  induction toks with
  | nil => exact fun _ h => absurd h (by simp [confScan])
  | cons tok toks ih =>
    intro stack st hst hscan
    rw [confScan] at hscan
    split at hscan
    · obtain ⟨-, rfl⟩ := Prod.mk.inj (Except.ok.inj hscan)
      exact hst
    · obtain ⟨⟨rc₁, st₁⟩, htoken, h⟩ := bind_eq_ok_iff.mp hscan
      have hst₁ := hstep hst htoken
      simp only at h
      split at h
      · obtain ⟨-, rfl⟩ := Prod.mk.inj (Except.ok.inj h)
        exact hst₁
      · exact ih hst₁ h

/-! ### The number of pools -/

/-- A function that leaves the number of pools alone. -/
theorem nrPools_of_ok {u : ConfState} {rc' : ℤ} (h : (.ok (rc', u) : ConfResult) = .ok (rc, st'))
    (hu : u.mioPools.mpsNrPools = st.mioPools.mpsNrPools) :
    st'.mioPools.mpsNrPools = st.mioPools.mpsNrPools := by
  obtain ⟨-, rfl⟩ := Prod.mk.inj (Except.ok.inj h)
  exact hu

/-- A value, whatever its key is. -/
theorem nrPools_confExtractValue {stack : MioPoolId} {key : Option ConfKey} {value : CStr}
    {vlen : ℕ} (h : confExtractValue st stack key value vlen = .ok (rc, st')) :
    st'.mioPools.mpsNrPools = st.mioPools.mpsNrPools := by
  by_cases hkey : key = some .motrMaxIosizePerDev
  · subst hkey
    obtain ⟨-, -, -, hnr⟩ := iosize_confExtractValue h
    exact hnr
  · exact (valueKept_confExtractValue h hkey).nrPools

theorem nrPools_confAllocDriver (st : ConfState) (type : ConfType) :
    (confAllocDriver st type).mioPools = st.mioPools := by
  cases type with
  | mio => rfl
  | motr =>
    rw [confAllocDriver]
    split
    · rfl
    · rfl

/-- **An entry** adds a pool only if it may. -/
theorem nrPools_confStartBlock (hst : st.mioPools.mpsNrPools < mioMotrMaxPoolCnt)
    (h : confStartBlock st = .ok (rc, st')) : st'.mioPools.mpsNrPools < mioMotrMaxPoolCnt := by
  rw [confStartBlock] at h
  split at h
  · split at h
    · rwa [nrPools_of_ok h rfl]
    · next hmax =>
      split at h
      · exact absurd h (by simp)
      · next pools hpools =>
        obtain ⟨-, rfl⟩ := Prod.mk.inj (Except.ok.inj h)
        have hlen : st.mioPools.mpsNrPools = pools.length := by
          rw [MioPools.mpsNrPools, MioPools.list, hpools]
          rfl
        change (pools ++ [MioPool.zeroed]).length < mioMotrMaxPoolCnt
        rw [List.length_append, List.length_singleton]
        omega
  · rwa [nrPools_of_ok h rfl]

theorem nrPools_confToken (hst : st.mioPools.mpsNrPools < mioMotrMaxPoolCnt) {stack : MioPoolId}
    {tok : YamlToken} (h : confToken st stack tok = .ok (rc, st')) :
    st'.mioPools.mpsNrPools < mioMotrMaxPoolCnt := by
  cases tok with
  | key | value | blockMappingStart | blockEnd | streamEnd | other =>
    rwa [nrPools_of_ok h rfl]
  | blockEntry => exact nrPools_confStartBlock hst h
  | blockSequenceStart =>
    rw [confToken] at h
    unfold confExtractBlkSeq at h
    split at h
    · obtain ⟨-, rfl⟩ := Prod.mk.inj (Except.ok.inj h)
      exact Nat.zero_lt_succ 15
    · rwa [nrPools_of_ok h rfl]
  | scalar s =>
    rw [confToken] at h
    split at h
    · rw [confExtractKey] at h
      split at h
      · rwa [nrPools_of_ok h rfl]
      · refine lt_of_eq_of_lt (nrPools_of_ok h ?_) hst
        rw [nrPools_confAllocDriver]
    · rwa [nrPools_confExtractValue h]

/-! ### The default pool -/

/-- The end of `mio_conf_init`. -/
theorem poolsOk_confFinish (hst : st.mioPools.mpsNrPools < mioMotrMaxPoolCnt)
    (h : confFinish st = .ok (0, st')) : st'.PoolsOk := by
  obtain ⟨-, hasSet, hset, hcases⟩ := confFinish_cases h
  rcases hcases with ⟨hno, -, rfl⟩ | ⟨-, i, -, ⟨-, hrc, -⟩ | ⟨pool, hpool, -, rfl⟩⟩
  · exact ⟨hst, hasSet, hset, fun hyes => absurd (hno.symm.trans hyes) (by simp)⟩
  · exact absurd hrc (by decide)
  · exact ⟨hst, hasSet, hset, fun _ => (List.getElem?_eq_some_iff.mp hpool).1⟩

/-- **The pools of an accepted file.** -/
theorem poolsOk_of_mioConfInit {statics statics' : ConfStatics} {stack : ℕ → MioPoolId}
    {toks : List YamlToken} {inst : MioInst}
    (hstatics : statics.mioPools.mpsNrPools < mioMotrMaxPoolCnt)
    (h : mioConfInit statics stack toks = .ok (0, statics', inst)) : statics'.PoolsOk := by
  obtain ⟨rc, st, st', hscan, -, hfinish, rfl, -⟩ := confScan_of_mioConfInit h
  have hstart : statics.start.mioPools.mpsNrPools < mioMotrMaxPoolCnt := hstatics
  have hnr := confScan_inv (I := fun st => st.mioPools.mpsNrPools < mioMotrMaxPoolCnt)
    (fun hst htoken => nrPools_confToken hst htoken) hstart hscan
  exact poolsOk_confFinish hnr hfinish

end CortxMio
