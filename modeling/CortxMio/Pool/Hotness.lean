import CortxMio.Conf.Accepted
import CortxMio.Pool.Select

/-!
# Hotness and the order of pools

What `mio_obj_hotness_to_pool_idx` makes of hotness. Below the cold threshold and above
the hot one there is nothing to be computed, and with one or two pools there is not
either. In between the index goes down by one with each step of hotness, and the width
of a step is what is left of the quotient of the distance of the thresholds and the
number of pools in between, once it is an `int` (`CortxMio.warmStep`): it may be zero or
negative, and the number of steps is narrowed once more.

* `CortxMio.placementOk_iff` says when an object can be placed at all. Even with the
  default thresholds it cannot for every hotness (`CortxMio.not_placementOk_default`).
* `CortxMio.hotterFirst_iff` says for which thresholds a hotter object is never put
  behind a colder one.
-/

namespace CortxMio

open Lib

/-! ### Narrowing -/

theorem intOf_u64OfInt (x : ℤ) : intOf (u64OfInt x) = intOf x := by
  have hcast : ((u64OfInt x : ℕ) : ℤ) = x % 2 ^ 64 := Int.toNat_of_nonneg (by omega)
  rw [hcast, intOf, intOf, Int.bmod_def, Int.bmod_def]
  omega

/-- The width of a step of hotness: the low half of the interval. -/
def warmStep (nrPools hot cold : ℕ) : ℕ := (hot - cold) / (nrPools - 2) % 2 ^ 32

/-- An interval that is too wide is negative as an `int`, and wider still as the
`uint64_t` that this is converted to. -/
theorem u64OfInt_intOf (q : ℕ) : u64OfInt (intOf q) =
    if q % 2 ^ 32 < 2 ^ 31 then q % 2 ^ 32 else 2 ^ 64 - 2 ^ 32 + q % 2 ^ 32 := by
  rw [u64OfInt, intOf, Int.bmod_def]
  split_ifs <;> omega

/-- The index after a number of steps. -/
theorem intOf_steps {n : ℕ} (q : ℕ) (hn : n < 2 ^ 31) (h : (q + 1) % 2 ^ 32 < n) :
    intOf ((n : ℤ) - 1 - q - 1) = (n : ℤ) - 1 - ((q + 1) % 2 ^ 32 : ℕ) := by
  rw [intOf, Int.bmod_def]
  omega

/-- After too many there is none. -/
theorem intOf_steps_not {n : ℕ} (q : ℕ) (hn : n < 2 ^ 31) (h : n ≤ (q + 1) % 2 ^ 32) :
    ¬(0 ≤ intOf ((n : ℤ) - 1 - q - 1) ∧ intOf ((n : ℤ) - 1 - q - 1) ≤ (n : ℤ) - 1) := by
  rw [intOf, Int.bmod_def]
  omega

/-! ### Where hotness leads -/

theorem sysHintOr_lt (sysHints : MioHintMap) (key : Int32) {d : ℕ} (hd : d < 2 ^ 64) :
    sysHintOr sysHints key d < 2 ^ 64 := by
  rw [sysHintOr]
  split
  · exact hd
  · exact UInt64.toNat_lt _

section Idx

variable {pools : MioPools} {sysHints : MioHintMap} {hotness : UInt64}

theorem loggedIdx_ok {idx : ℤ} (h0 : 0 ≤ idx) (hlt : idx < pools.mpsNrPools) :
    loggedIdx pools idx = .ok idx := by
  obtain ⟨id, hid⟩ := MioPools.exists_idAt h0 hlt
  rw [loggedIdx, hid]
  rfl

variable (hnr : 1 ≤ pools.mpsNrPools)

include hnr

/-- A hot object goes to the first pool. -/
theorem poolIdx_hot (hhot : hotThld sysHints < hotness.toNat) :
    mioObjHotnessToPoolIdx pools sysHints hotness = .ok 0 := by
  rw [mioObjHotnessToPoolIdx]
  simp only [if_neg (Nat.not_lt.mpr hnr), if_pos hhot]
  exact loggedIdx_ok le_rfl (by omega)

variable (hhot : hotness.toNat ≤ hotThld sysHints)

include hhot

/-- A cold one goes to the last. -/
theorem poolIdx_cold (hcold : hotness.toNat < coldThld sysHints) :
    mioObjHotnessToPoolIdx pools sysHints hotness = .ok ((pools.mpsNrPools : ℤ) - 1) := by
  rw [mioObjHotnessToPoolIdx]
  simp only [if_neg (Nat.not_lt.mpr hnr), if_neg (Nat.not_lt.mpr hhot), if_pos hcold]
  exact loggedIdx_ok (by omega) (by omega)

variable (hcold : coldThld sysHints ≤ hotness.toNat)

include hcold

/-- The others go where the distance says, if there is such a pool. -/
theorem poolIdx_of_warm : mioObjHotnessToPoolIdx pools sysHints hotness =
    warmPoolIdx pools.mpsNrPools (hotThld sysHints) (coldThld sysHints) hotness.toNat >>=
      fun idx => if 0 ≤ idx ∧ idx ≤ (pools.mpsNrPools : ℤ) - 1 then .ok idx else .error .abort := by
  rw [mioObjHotnessToPoolIdx]
  simp only [if_neg (Nat.not_lt.mpr hnr), if_neg (Nat.not_lt.mpr hhot),
    if_neg (Nat.not_lt.mpr hcold)]
  refine congrArg _ (funext fun idx => ?_)
  split
  · next hrange => exact loggedIdx_ok hrange.1 (by omega)
  · rfl

/-- With one or two pools that is the last. -/
theorem poolIdx_few (hfew : pools.mpsNrPools ≤ 2) :
    mioObjHotnessToPoolIdx pools sysHints hotness = .ok ((pools.mpsNrPools : ℤ) - 1) := by
  rw [poolIdx_of_warm hnr hhot hcold, warmPoolIdx]
  simp only [if_pos hfew]
  exact if_pos ⟨by omega, le_rfl⟩

/-- **With more pools**: no step at all, a step too wide to be taken twice, or as many
steps as are narrowed to a pool. -/
theorem poolIdx_many (hmany : 2 < pools.mpsNrPools) (hint : pools.mpsNrPools < 2 ^ 31) {step : ℕ}
    (hstep : warmStep pools.mpsNrPools (hotThld sysHints) (coldThld sysHints) = step) :
    mioObjHotnessToPoolIdx pools sysHints hotness =
      if step = 0 then .error .divByZero
      else if 2 ^ 31 ≤ step then .ok ((pools.mpsNrPools : ℤ) - 2 -
        ((hotness.toNat - coldThld sysHints) / (2 ^ 64 - 2 ^ 32 + step) : ℕ))
      else if ((hotness.toNat - coldThld sysHints) / step + 1) % 2 ^ 32 < pools.mpsNrPools then
        .ok ((pools.mpsNrPools : ℤ) - 1 -
          (((hotness.toNat - coldThld sysHints) / step + 1) % 2 ^ 32 : ℕ))
      else .error .abort := by
  have hlt := hotness.toNat_lt
  have hlthot : hotThld sysHints < 2 ^ 64 := sysHintOr_lt sysHints _ (by decide)
  obtain ⟨n, hn⟩ : ∃ n, pools.mpsNrPools = n := ⟨_, rfl⟩
  obtain ⟨d, hd⟩ : ∃ d, hotness.toNat - coldThld sysHints = d := ⟨_, rfl⟩
  have hinterv : u64OfInt (warmInterv n (hotThld sysHints) (coldThld sysHints)) =
      if step < 2 ^ 31 then step else 2 ^ 64 - 2 ^ 32 + step := by
    rw [warmInterv, u64Sub_of_le (hcold.trans hhot) hlthot, u64OfInt_intOf, ← hstep, hn]
    rfl
  rw [poolIdx_of_warm hnr hhot hcold, warmPoolIdx]
  simp only [hn, hd, u64Sub_of_le hcold hlt, hinterv] at hmany hint ⊢
  rw [if_neg (Nat.not_le.mpr hmany)]
  by_cases hzero : step = 0
  · rw [if_pos hzero, hzero]
    rfl
  · rw [if_neg hzero]
    by_cases hwide : 2 ^ 31 ≤ step
    · -- a negative interval
      obtain ⟨w, hw⟩ : ∃ w, 2 ^ 64 - 2 ^ 32 + step = w := ⟨_, rfl⟩
      have hdiv : d / w ≤ 1 := Nat.lt_succ_iff.mp (Nat.div_lt_of_lt_mul (by omega))
      have hmod : (d / w + 1) % 2 ^ 32 = d / w + 1 := Nat.mod_eq_of_lt (by omega)
      rw [if_neg (Nat.not_lt.mpr hwide), hw, if_neg (by omega), if_pos hwide, intOf_u64OfInt,
        intOf_steps (d / w) hint (by omega), hmod]
      refine (if_pos ⟨by omega, by omega⟩).trans (congrArg _ ?_)
      omega
    · rw [if_pos (Nat.not_le.mp hwide), if_neg hzero, if_neg hwide, intOf_u64OfInt]
      by_cases hin : (d / step + 1) % 2 ^ 32 < n
      · rw [if_pos hin, intOf_steps (d / step) hint hin]
        exact if_pos ⟨by omega, by omega⟩
      · rw [if_neg hin]
        exact if_neg (intOf_steps_not (d / step) hint (Nat.not_lt.mp hin))

end Idx

/-! ### Placing objects -/

/-- **An object of some hotness can be placed**: there is a pool for it, and whatever
other hints it is created with, `mio_obj_create` comes to the call of the driver. -/
structure PlacementOk (st : ConfStatics) (sysHints : MioHintMap) (hotness : UInt64) : Prop where
  /-- `mio_obj_hotness_to_pool_idx`. -/
  idx : ∃ idx, mioObjHotnessToPoolIdx st.mioPools sysHints hotness = .ok idx ∧
    0 ≤ idx ∧ idx < st.mioPools.mpsNrPools
  /-- `mio_obj_hotness_to_pool_id`. -/
  id : ∃ id, mioObjHotnessToPoolId st.mioPools sysHints hotness = .ok id
  /-- `mio_obj_create`. -/
  create : ∀ hints, mioHintMapGet hints mioHintObjHotIndex = .ok hotness →
    ∃ id, objCreatePoolId sysHints st none (some hints) = .ok id

/-- Hotness that leads to a pool: it is not between the thresholds, or there are not
more than two pools, or the step is too wide for an `int`, or it is not zero and there
are no more steps from the cold threshold on than there are pools, in 32 bits. -/
def PlacementWhen (nrPools hot cold hotness : ℕ) : Prop :=
  hot < hotness ∨ hotness < cold ∨ nrPools ≤ 2 ∨ 2 ^ 31 ≤ warmStep nrPools hot cold ∨
    (hotness - cold + warmStep nrPools hot cold) % (2 ^ 32 * warmStep nrPools hot cold) <
      nrPools * warmStep nrPools hot cold

/-- Counting steps. -/
theorem steps_lt_iff (d n : ℕ) {step : ℕ} (hpos : 0 < step) :
    (d + step) % (2 ^ 32 * step) < n * step ↔ (d / step + 1) % 2 ^ 32 < n := by
  rw [← Nat.div_lt_iff_lt_mul hpos, Nat.mul_comm, Nat.mod_mul_right_div_self,
    Nat.add_div_right _ hpos]

section Placement

variable {st : ConfStatics} {sysHints : MioHintMap} {hotness : UInt64}

/-- **When there is a pool.** -/
theorem exists_poolIdx_iff {pools : MioPools} (hnr : 1 ≤ pools.mpsNrPools)
    (hint : pools.mpsNrPools < 2 ^ 31) :
    (∃ idx, mioObjHotnessToPoolIdx pools sysHints hotness = .ok idx ∧
        0 ≤ idx ∧ idx < pools.mpsNrPools) ↔
      PlacementWhen pools.mpsNrPools (hotThld sysHints) (coldThld sysHints) hotness.toNat := by
  rw [PlacementWhen]
  rcases Nat.lt_or_ge (hotThld sysHints) hotness.toNat with hhot | hhot
  · exact iff_of_true ⟨0, poolIdx_hot hnr hhot, le_rfl, by omega⟩ (.inl hhot)
  · rw [or_iff_right (Nat.not_lt.mpr hhot)]
    rcases Nat.lt_or_ge hotness.toNat (coldThld sysHints) with hcold | hcold
    · exact iff_of_true ⟨_, poolIdx_cold hnr hhot hcold, by omega, by omega⟩ (.inl hcold)
    · rw [or_iff_right (Nat.not_lt.mpr hcold)]
      rcases Nat.lt_or_ge 2 pools.mpsNrPools with hmany | hfew
      swap
      · exact iff_of_true ⟨_, poolIdx_few hnr hhot hcold hfew, by omega, by omega⟩ (.inl hfew)
      · rw [or_iff_right (Nat.not_le.mpr hmany)]
        obtain ⟨step, hstep⟩ :
          ∃ step, warmStep pools.mpsNrPools (hotThld sysHints) (coldThld sysHints) = step :=
          ⟨_, rfl⟩
        have heq := poolIdx_many hnr hhot hcold hmany hint hstep
        rw [hstep]
        by_cases hzero : step = 0
        · rw [if_pos hzero] at heq
          rw [hzero, heq]
          exact iff_of_false (by simp) (by omega)
        · rw [if_neg hzero] at heq
          by_cases hwide : 2 ^ 31 ≤ step
          · rw [if_pos hwide] at heq
            have hlt := hotness.toNat_lt
            obtain ⟨q, hq⟩ :
              ∃ q, (hotness.toNat - coldThld sysHints) / (2 ^ 64 - 2 ^ 32 + step) = q := ⟨_, rfl⟩
            have hdiv : q ≤ 1 := hq ▸ Nat.lt_succ_iff.mp (Nat.div_lt_of_lt_mul (by omega))
            rw [hq] at heq
            exact iff_of_true ⟨_, heq, by omega, by omega⟩ (.inl hwide)
          · rw [if_neg hwide] at heq
            rw [or_iff_right hwide, steps_lt_iff _ _ (Nat.pos_of_ne_zero hzero)]
            by_cases hin :
              ((hotness.toNat - coldThld sysHints) / step + 1) % 2 ^ 32 < pools.mpsNrPools
            · rw [if_pos hin] at heq
              exact iff_of_true ⟨_, heq, by omega, by omega⟩ hin
            · rw [if_neg hin] at heq
              rw [heq]
              exact iff_of_false (by simp) hin

/-- A selection: a pool, or a code. -/
def Selects (pools : MioPools) (r : Except Fault ℤ) : Prop :=
  (∃ idx, r = .ok idx ∧ 0 ≤ idx ∧ idx < pools.mpsNrPools) ∨ ∃ rc, r = .error (.err rc)

theorem selects_byPerfHint {pools : MioPools} (hnr : 1 ≤ pools.mpsNrPools) {hints : MioHintMap}
    (hset : mioHintIsSet hints mioHintObjWhere = true) :
    Selects pools (objPoolSelectByPerfHint pools hints) := by
  rw [mioHintIsSet] at hset
  rw [objPoolSelectByPerfHint]
  split at hset
  · exact absurd hset (by simp)
  · split
    · exact .inl ⟨_, rfl, by omega, by omega⟩
    · split
      · exact .inl ⟨_, rfl, by split <;> omega, by split <;> omega⟩
      · split
        · exact .inl ⟨_, rfl, by split_ifs <;> omega, by split_ifs <;> omega⟩
        · exact .inr ⟨_, rfl⟩

/-- The default pool is one of the pools. -/
theorem exists_defaultPoolId (hst : st.PoolsOk) : ∃ id, defaultPoolId st = .ok id := by
  obtain ⟨hasSet, hset, hidx⟩ := hst.default
  rw [defaultPoolId, hset]
  cases hasSet with
  | false => exact ⟨none, rfl⟩
  | true =>
    have hlt : (st.mioPools.mpsDefaultPoolIdx : ℤ) < st.mioPools.mpsNrPools := by
      exact_mod_cast hidx rfl
    obtain ⟨id, hid⟩ := MioPools.exists_idAt (Int.natCast_nonneg _) hlt
    refine ⟨some id, ?_⟩
    change (st.mioPools.idAt st.mioPools.mpsDefaultPoolIdx).map some = _
    rw [hid]
    rfl

/-- A selection is all that `mio_obj_create` needs. -/
theorem exists_objCreatePoolId (hst : st.PoolsOk) {hints : MioHintMap}
    (hsel : Selects st.mioPools (objPoolSelect st.mioPools sysHints hints)) :
    ∃ id, objCreatePoolId sysHints st none (some hints) = .ok id := by
  have hhints : ∃ o, objPoolIdOfHints st.mioPools sysHints hints = .ok o := by
    rw [objPoolIdOfHints]
    rcases hsel with ⟨idx, hidx, h0, hlt⟩ | ⟨rc, hrc⟩
    · obtain ⟨id, hid⟩ := MioPools.exists_idAt h0 hlt
      rw [hidx]
      exact ⟨some id, congrArg (Except.map some) hid⟩
    · rw [hrc]
      exact ⟨none, rfl⟩
  obtain ⟨o, ho⟩ := hhints
  rw [objCreatePoolId]
  simp only [ho]
  cases o with
  | some id => exact ⟨some id, rfl⟩
  | none => exact exists_defaultPoolId hst

/-- **When an object can be placed**, for every configuration that is accepted, all
thresholds and every hotness. -/
theorem placementOk_iff (hst : st.PoolsOk) (hnr : 1 ≤ st.mioPools.mpsNrPools)
    (sysHints : MioHintMap) (hotness : UInt64) :
    PlacementOk st sysHints hotness ↔
      PlacementWhen st.mioPools.mpsNrPools (hotThld sysHints) (coldThld sysHints)
        hotness.toNat := by
  have hint : st.mioPools.mpsNrPools < 2 ^ 31 := hst.nrPools.trans (by decide)
  rw [← exists_poolIdx_iff hnr hint]
  refine ⟨fun h => h.idx, fun hidx => ⟨hidx, ?_, fun hints hget => ?_⟩⟩
  · obtain ⟨idx, heq, h0, hlt⟩ := hidx
    rw [mioObjHotnessToPoolId, heq]
    exact MioPools.exists_idAt h0 hlt
  · refine exists_objCreatePoolId hst ?_
    rw [objPoolSelect, if_neg (Nat.ne_of_gt hnr)]
    split
    · next hwhere => exact selects_byPerfHint hnr hwhere
    · split
      · rw [objPoolSelectByHotness, hget]
        exact .inl hidx
      · exact .inr ⟨_, rfl⟩

end Placement

/-- A number of pools, and no default pool. -/
def poolsConf (n : ℕ) : ConfStatics :=
  { ConfStatics.initial.start.toConfStatics with
    mioPools := { MioPools.zeroed with
      mpsPools := some ((List.range n).map fun i =>
        { MioPool.zeroed with mpId := ⟨0, UInt64.ofNat i⟩ }) } }

/-- Thresholds that have been set. -/
def thresholds (hot cold : UInt64) : MioHintMap :=
  ((mioHintMapInit mioObjHintNum).store mioHintHotObjThreshold hot).store mioHintColdObjThreshold
    cold

/-- Three pools, with the default thresholds. -/
theorem placementOk_default : PlacementOk (poolsConf 3) (mioHintMapInit mioObjHintNum) 100 := by
  refine (placementOk_iff ⟨by decide, false, rfl, by decide⟩ (by decide) _ _).mpr ?_
  exact .inr (.inr (.inr (.inr (by decide))))

/-- **As many pools as can be configured**: with the default thresholds an object of
hotness 128 fails an assertion, and thresholds that are close to each other have an
object divide by zero. -/
theorem not_placementOk_default :
    (poolsConf 15).PoolsOk ∧ ¬PlacementOk (poolsConf 15) (mioHintMapInit mioObjHintNum) 128 ∧
      ¬PlacementOk (poolsConf 15) (thresholds 17 16) 16 := by
  refine ⟨⟨by decide, false, rfl, by decide⟩, fun h => ?_, fun h => ?_⟩
  · obtain ⟨idx, hidx, -⟩ := h.idx
    have habort : mioObjHotnessToPoolIdx (poolsConf 15).mioPools (mioHintMapInit mioObjHintNum)
      128 = .error .abort := by decide +kernel
    exact absurd (hidx.symm.trans habort) (by simp)
  · obtain ⟨idx, hidx, -⟩ := h.idx
    have hzero : mioObjHotnessToPoolIdx (poolsConf 15).mioPools (thresholds 17 16) 16 =
      .error .divByZero := by decide +kernel
    exact absurd (hidx.symm.trans hzero) (by simp)

/-! ### The order of pools -/

/-- **A hotter object is never in a slower pool** than a colder one, if both can be
placed. -/
def HotterFirst (pools : MioPools) (sysHints : MioHintMap) : Prop :=
  ∀ h1 h2 : UInt64, h1 ≤ h2 → ∀ i1 i2,
    mioObjHotnessToPoolIdx pools sysHints h1 = .ok i1 →
    mioObjHotnessToPoolIdx pools sysHints h2 = .ok i2 → i2 ≤ i1

/-- Thresholds for which this is so: there are not more than two pools, or nothing is
between the thresholds, or there is no step, or it is too wide for an `int`, or there
are less than `2 ^ 32` steps between the thresholds. -/
def HotterFirstWhen (nrPools hot cold : ℕ) : Prop :=
  nrPools ≤ 2 ∨ hot < cold ∨ warmStep nrPools hot cold = 0 ∨ 2 ^ 31 ≤ warmStep nrPools hot cold ∨
    hot - cold < (2 ^ 32 - 1) * warmStep nrPools hot cold

section Order

variable {pools : MioPools} {sysHints : MioHintMap}

theorem of_loggedIdx {idx i : ℤ} (h : loggedIdx pools idx = .ok i) :
    0 ≤ i ∧ i < pools.mpsNrPools := by
  obtain ⟨id, hid, h⟩ := bind_eq_ok_iff.mp h
  obtain rfl := Except.ok.inj h
  exact MioPools.idAt_ok hid

/-- An index that is returned is one of a pool. -/
theorem poolIdx_range {h : UInt64} {i : ℤ} (heq : mioObjHotnessToPoolIdx pools sysHints h = .ok i) :
    0 ≤ i ∧ i < pools.mpsNrPools := by
  rw [mioObjHotnessToPoolIdx] at heq
  split at heq
  · exact absurd heq (by simp)
  · split at heq
    · exact of_loggedIdx heq
    · split at heq
      · exact of_loggedIdx heq
      · obtain ⟨idx, -, heq⟩ := bind_eq_ok_iff.mp heq
        split at heq
        · exact of_loggedIdx heq
        · exact absurd heq (by simp)

/-- Two objects between the thresholds. -/
theorem hotterFirst_warm (hmany : 2 < pools.mpsNrPools) (hint : pools.mpsNrPools < 2 ^ 31)
    {h1 h2 : UInt64} (hle : h1.toNat ≤ h2.toNat) (hcold : coldThld sysHints ≤ h1.toNat)
    (hhot : h2.toNat ≤ hotThld sysHints)
    (hwhen : HotterFirstWhen pools.mpsNrPools (hotThld sysHints) (coldThld sysHints)) {i1 i2 : ℤ}
    (heq1 : mioObjHotnessToPoolIdx pools sysHints h1 = .ok i1)
    (heq2 : mioObjHotnessToPoolIdx pools sysHints h2 = .ok i2) : i2 ≤ i1 := by
  obtain ⟨step, hstep⟩ :
    ∃ step, warmStep pools.mpsNrPools (hotThld sysHints) (coldThld sysHints) = step := ⟨_, rfl⟩
  rw [poolIdx_many (by omega) (hle.trans hhot) hcold hmany hint hstep] at heq1
  rw [poolIdx_many (by omega) hhot (hcold.trans hle) hmany hint hstep] at heq2
  rw [HotterFirstWhen, hstep] at hwhen
  obtain ⟨d1, hd1⟩ : ∃ d, h1.toNat - coldThld sysHints = d := ⟨_, rfl⟩
  obtain ⟨d2, hd2⟩ : ∃ d, h2.toNat - coldThld sysHints = d := ⟨_, rfl⟩
  have hd : d1 ≤ d2 := by omega
  rw [hd1] at heq1
  rw [hd2] at heq2
  by_cases hzero : step = 0
  · rw [if_pos hzero] at heq1
    exact absurd heq1 (by simp)
  · rw [if_neg hzero] at heq1 heq2
    by_cases hwide : 2 ^ 31 ≤ step
    · rw [if_pos hwide] at heq1 heq2
      have hdiv := Nat.div_le_div_right hd (c := 2 ^ 64 - 2 ^ 32 + step)
      obtain rfl := Except.ok.inj heq1
      obtain rfl := Except.ok.inj heq2
      exact Int.sub_le_sub_left (Int.ofNat_le.mpr hdiv) _
    · -- there are not enough steps for their number to be narrowed
      have hfew : hotThld sysHints - coldThld sysHints < (2 ^ 32 - 1) * step := by omega
      have hdiv := Nat.div_le_div_right hd (c := step)
      have hlt : d2 / step < 2 ^ 32 - 1 :=
        (Nat.div_lt_iff_lt_mul (Nat.pos_of_ne_zero hzero)).mpr (by omega)
      rw [if_neg hwide, Nat.mod_eq_of_lt (by omega)] at heq1 heq2
      split at heq1
      · split at heq2
        · obtain rfl := Except.ok.inj heq1
          obtain rfl := Except.ok.inj heq2
          omega
        · exact absurd heq2 (by simp)
      · exact absurd heq1 (by simp)

/-- With `2 ^ 32` steps or more, the object at the cold threshold is ahead of the one
that is one step short of `2 ^ 32`. -/
theorem not_hotterFirst (hmany : 2 < pools.mpsNrPools) (hint : pools.mpsNrPools < 2 ^ 31)
    (hle : coldThld sysHints ≤ hotThld sysHints) {step : ℕ}
    (hstep : warmStep pools.mpsNrPools (hotThld sysHints) (coldThld sysHints) = step)
    (hpos : step ≠ 0) (hwide : ¬2 ^ 31 ≤ step)
    (hsteps : (2 ^ 32 - 1) * step ≤ hotThld sysHints - coldThld sysHints) :
    ¬HotterFirst pools sysHints := by
  intro hfirst
  have hlthot : hotThld sysHints < 2 ^ 64 := sysHintOr_lt sysHints _ (by decide)
  obtain ⟨c, hc⟩ : ∃ c, coldThld sysHints = c := ⟨_, rfl⟩
  obtain ⟨d, hd⟩ : ∃ d, (2 ^ 32 - 1) * step = d := ⟨_, rfl⟩
  have hc64 : c < 2 ^ 64 := by omega
  have hd64 : c + d < 2 ^ 64 := by omega
  have h1 : (UInt64.ofNat c).toNat = c := UInt64.toNat_ofNat_of_lt' hc64
  have h2 : (UInt64.ofNat (c + d)).toNat = c + d := UInt64.toNat_ofNat_of_lt' hd64
  have hhot1 : (UInt64.ofNat c).toNat ≤ hotThld sysHints := by omega
  have hhot2 : (UInt64.ofNat (c + d)).toNat ≤ hotThld sysHints := by omega
  have heq1 := poolIdx_many (by omega) hhot1 (by omega) hmany hint hstep
  have heq2 := poolIdx_many (by omega) hhot2 (by omega) hmany hint hstep
  -- no step from the threshold, and `2 ^ 32 - 1` of them
  have hq1 : ((UInt64.ofNat c).toNat - coldThld sysHints) / step = 0 := by
    rw [h1, hc, Nat.sub_self, Nat.zero_div]
  have hq2 : ((UInt64.ofNat (c + d)).toNat - coldThld sysHints) / step = 2 ^ 32 - 1 := by
    rw [h2, hc, Nat.add_sub_cancel_left, ← hd, Nat.mul_div_cancel _ (Nat.pos_of_ne_zero hpos)]
  rw [if_neg hpos, if_neg hwide, hq1, if_pos (by omega)] at heq1
  rw [if_neg hpos, if_neg hwide, hq2, if_pos (by omega)] at heq2
  have hle12 : UInt64.ofNat c ≤ UInt64.ofNat (c + d) := by
    rw [UInt64.le_iff_toNat_le, h1, h2]
    exact Nat.le_add_right c d
  have hidx := hfirst _ _ hle12 _ _ heq1 heq2
  omega

/-- **When a hotter object is never in a slower pool**, for every number of pools and
all thresholds. -/
theorem hotterFirst_iff (hint : pools.mpsNrPools < 2 ^ 31) (sysHints : MioHintMap) :
    HotterFirst pools sysHints ↔
      HotterFirstWhen pools.mpsNrPools (hotThld sysHints) (coldThld sysHints) := by
  constructor
  · intro hfirst
    by_contra hwhen
    simp only [HotterFirstWhen, not_or, not_lt, not_le] at hwhen
    obtain ⟨hmany, hle, hpos, hwide, hsteps⟩ := hwhen
    exact not_hotterFirst hmany hint hle rfl hpos (Nat.not_le.mpr hwide) hsteps hfirst
  · intro hwhen h1 h2 hle i1 i2 heq1 heq2
    have hr1 := poolIdx_range heq1
    have hr2 := poolIdx_range heq2
    have hle' : h1.toNat ≤ h2.toNat := UInt64.le_iff_toNat_le.mp hle
    have hnr : 1 ≤ pools.mpsNrPools := by omega
    rcases Nat.lt_or_ge (hotThld sysHints) h2.toNat with hhot | hhot
    · -- the hotter one is hot
      obtain rfl := Except.ok.inj ((poolIdx_hot hnr hhot).symm.trans heq2)
      exact hr1.1
    · rcases Nat.lt_or_ge h1.toNat (coldThld sysHints) with hcold | hcold
      · -- the colder one is cold
        obtain rfl := Except.ok.inj ((poolIdx_cold hnr (hle'.trans hhot) hcold).symm.trans heq1)
        omega
      · rcases Nat.lt_or_ge 2 pools.mpsNrPools with hmany | hfew
        · exact hotterFirst_warm hmany hint hle' hcold hhot hwhen heq1 heq2
        · obtain rfl := Except.ok.inj
            ((poolIdx_few hnr (hle'.trans hhot) hcold hfew).symm.trans heq1)
          omega

end Order

/-- The default thresholds. -/
theorem hotterFirst_default : HotterFirst (poolsConf 3).mioPools (mioHintMapInit mioObjHintNum) :=
  (hotterFirst_iff (by decide) _).mpr (.inr (.inr (.inr (.inr (by decide)))))

/-- Three pools, and thresholds that are `2 ^ 32 + 1` apart: the object of no hotness is
in the second pool, and one of hotness `2 ^ 32 - 1` in the third. -/
theorem not_hotterFirst_far : ¬HotterFirst (poolsConf 3).mioPools (thresholds 4294967297 0) := by
  intro h
  have hidx := h 0 4294967295 (by decide) 1 2 (by decide +kernel) (by decide +kernel)
  exact absurd hidx (by decide)

end CortxMio
