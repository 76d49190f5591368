import CortxMio.Conf.Limit
import CortxMio.Obj.PageAligned

/-!
# Configurations that cannot be planned for

The planner divides by the maximum size of an op, and cuts a range into chunks of it.
This size is itself a quotient: the configured limit for one device, times the data
units and the width of the pool, by the units of a parity group. The limit is whatever
`atoi` has made of the text in the file, so it may be zero; the product may wrap
around; and the quotient is zero as soon as the product is less than the divisor.

With a size other than zero nothing can go wrong but a return code, whatever the ranges
are (`CortxMio.graceful_planIo`). With a size of zero the estimate of the number of
vectors divides by it, for the first range there is. So planning is safe exactly for
the limits for which the product is not less than the divisor, and for no ranges at all
(`CortxMio.planSafe_iff`).
-/

namespace CortxMio

open Lib

variable {conf : MioMotrConfig} {obj : MioObj} {max : ℕ}

/-! ### Functions that fail with a return code only -/

/-- A function that does not succeed returns a code. -/
def Graceful {α : Type} (r : Except Fault α) : Prop := ∀ f, r = .error f → ∃ rc, f = .err rc

theorem graceful_ok {α : Type} (a : α) : Graceful (.ok a) := fun _ h => absurd h (by simp)

theorem graceful_err {α : Type} (rc : ℤ) : Graceful (.error (.err rc) : Except Fault α) :=
  fun _ h => ⟨rc, (Except.error.inj h).symm⟩

theorem graceful_ite_ok {α : Type} (p : Prop) [Decidable p] (a b : α) :
    Graceful (if p then .ok a else .ok b) := by
  split <;> exact graceful_ok _

theorem Graceful.bind {α β : Type} {r : Except Fault α} {g : α → Except Fault β} (hr : Graceful r)
    (hg : ∀ a, r = .ok a → Graceful (g a)) : Graceful (r >>= g) := by
  cases r with
  | error f =>
    obtain ⟨rc, rfl⟩ := hr f rfl
    exact graceful_err rc
  | ok a => exact hg a rfl

theorem Graceful.foldlM {α β : Type} {g : β → α → Except Fault β} {l : List α}
    (hg : ∀ b, ∀ a ∈ l, Graceful (g b a)) (b : β) : Graceful (l.foldlM g b) := by
  induction l generalizing b with
  | nil => exact graceful_ok b
  | cons a l ih =>
    rw [List.foldlM_cons]
    exact (hg b a List.mem_cons_self).bind fun c _ =>
      ih (fun b a ha => hg b a (List.mem_cons_of_mem _ ha)) c

/-! ### The planner with a limit -/

theorem u64Sub_lt (a b : ℕ) : u64Sub a b < 2 ^ 64 := u64_lt _

section Limit

variable (hmax : motrObjMaxSizePerOp conf obj = .ok max) (hpos : 0 < max)

include hmax hpos

/-- **The chunks of a range come to an end**, also if the end of the range wraps. -/
theorem graceful_clone (args : MotrObjRwArgs) {off len : ℕ} (base : ℕ) (hoff : off < 2 ^ 64)
    (hlen : len < 2 ^ 64) :
    Graceful (ignoreRc args (motrObjIovecClone conf obj args off len base)) := by
  rcases Nat.lt_or_ge (off + len) (2 ^ 64) with hwrap | hwrap
  · by_cases hal : off % motrObjIoPagesize obj = 0 ∧ len % motrObjIoPagesize obj = 0
    · rw [motrObjIovecClone_eq hmax hpos args base hwrap hal.1 hal.2]
      exact graceful_ok _
    · have hcond : off % motrObjIoPagesize obj ≠ 0 ∨ len % motrObjIoPagesize obj ≠ 0 :=
        not_and_or.mp hal
      rw [motrObjIovecClone, hmax]
      change Graceful (ignoreRc args (if _ then _ else _))
      rw [if_pos hcond]
      exact graceful_ok _
  · rw [ignoreRc_clone_wrap hmax base hoff hlen hwrap]
    exact graceful_ok _

theorem graceful_split2 (args : MotrObjRwArgs) {v : MioIovec ℕ} (hoff : v.miovOff < 2 ^ 64) :
    Graceful (motrObjIovecSplit2 conf obj args v) := by
  have hsecond : ∀ (args₁ : MotrObjRwArgs) (off len base : ℕ) (p : Prop) [Decidable p],
      Graceful (if p then ignoreRc args₁ (motrObjIovecClone conf obj args₁ (u64 off)
          (u64Sub v.miovLen len) base)
        else .ok (motrObjIovecPartialPage obj args₁ (u64 off) (u64Sub v.miovLen len) base)) := by
    intro args₁ off len base p _
    split
    · exact graceful_clone hmax hpos args₁ base (u64_lt _) (u64Sub_lt _ _)
    · exact graceful_ok _
  rw [motrObjIovecSplit2]
  by_cases hal : v.miovOff % motrObjIoPagesize obj = 0
  · simp only [if_pos hal]
    exact (graceful_clone hmax hpos args _ hoff (u64Sub_lt _ _)).bind fun args₁ _ =>
      hsecond args₁ _ _ _ _
  · simp only [if_neg hal]
    exact hsecond _ _ _ _ _

theorem graceful_split3 (args : MotrObjRwArgs) (v : MioIovec ℕ) :
    Graceful (motrObjIovecSplit3 conf obj args v) := by
  rw [motrObjIovecSplit3]
  dsimp only
  split
  · exact graceful_err _
  · refine Graceful.bind ?_ fun args₁ _ => ?_
    · refine graceful_clone hmax hpos _ _ (u64_lt _) ?_
      split <;> exact u64_lt _
    · exact graceful_ite_ok _ _ _

theorem graceful_adjustOne (args : MotrObjRwArgs) {v : MioIovec ℕ} (hoff : v.miovOff < 2 ^ 64)
    (hlen : v.miovLen < 2 ^ 64) : Graceful (motrObjIovecAdjustOne conf obj args v) := by
  rw [motrObjIovecAdjustOne]
  split
  · exact graceful_clone hmax hpos args _ hoff hlen
  · split
    · rw [motrObjIovecAdjustWithAlignedOff]
      split
      · exact graceful_split2 hmax hpos args hoff
      · exact graceful_ok _
    · rw [motrObjIovecAdjustWithNonalignedOff]
      split
      · exact graceful_ok _
      · split
        · exact graceful_split2 hmax hpos args hoff
        · exact graceful_split3 hmax hpos args v

end Limit

/-! ### The planning of a request -/

/-- What a `writev` or a `readv` does before it launches an op: a write looks at the
result of the sort. -/
def planIo (conf : MioMotrConfig) (obj : MioObj) (isWrite : Bool) (iov : List (MioIovec ℕ)) :
    Except Fault MotrObjRwArgs := do
  let args ← motrObjRwArgsAlloc conf obj isWrite iov
  let (rc, args) := motrObjIovecSort args
  if isWrite ∧ rc < 0 then .error (.err rc) else motrObjIovecAdjust conf obj args

/-- **Planning is safe**: it does not divide by zero, and it terminates. -/
def PlanSafe (conf : MioMotrConfig) (obj : MioObj) (isWrite : Bool) (iov : List (MioIovec ℕ)) :
    Prop :=
  planIo conf obj isWrite iov ≠ .error .divByZero ∧ planIo conf obj isWrite iov ≠ .error .diverge

section PlanIo

variable {isWrite : Bool} {iov : List (MioIovec ℕ)}

theorem Graceful.planSafe (h : Graceful (planIo conf obj isWrite iov)) :
    PlanSafe conf obj isWrite iov := by
  constructor
  · intro hf
    obtain ⟨rc, hrc⟩ := h _ hf
    exact absurd hrc (by simp)
  · intro hf
    obtain ⟨rc, hrc⟩ := h _ hf
    exact absurd hrc (by simp)

/-- With a limit the planning of any ranges ends in a plan or in a code. -/
theorem graceful_planIo (hmax : motrObjMaxSizePerOp conf obj = .ok max) (hpos : 0 < max)
    (h64 : ∀ v ∈ iov, v.miovOff < 2 ^ 64 ∧ v.miovLen < 2 ^ 64) :
    Graceful (planIo conf obj isWrite iov) := by
  rw [planIo, motrObjRwArgsAlloc_eq hmax hpos]
  change Graceful (if isWrite = true ∧ (motrObjIovecSort (freshArgs isWrite iov)).1 < 0 then _
    else motrObjIovecAdjust conf obj (sortedArgs isWrite iov))
  split
  · exact graceful_err _
  · refine Graceful.foldlM (fun args v hv => ?_) _
    have hv' : v ∈ iov := (sortedArgs_perm isWrite iov).subset hv
    exact graceful_adjustOne hmax hpos args (h64 v hv').1 (h64 v hv').2

/-- With a limit of zero only a list without ranges can be planned for. -/
theorem planSafe_zero (hmax : motrObjMaxSizePerOp conf obj = .ok 0) :
    PlanSafe conf obj isWrite iov ↔ iov = [] := by
  cases iov with
  | nil =>
    refine iff_of_true (Graceful.planSafe ?_) rfl
    rw [planIo, motrObjRwArgsAlloc, motrObjRwArgsEstimateIovcnts, hmax]
    cases isWrite <;> exact graceful_ok _
  | cons v vs =>
    refine iff_of_false (fun h => h.1 ?_) (by simp)
    rw [planIo, motrObjRwArgsAlloc, motrObjRwArgsEstimateIovcnts, hmax]
    rfl

/-- The maximum size of an op, for a pool that is as wide as its parity groups and
their spares. -/
theorem motrObjMaxSizePerOp_of_pver {pa : M0PdclustAttr} (hpver : obj.moDrvObj.oaPver = some pa)
    (hN : 1 ≤ pa.paN) (hP : pa.paN + 2 * pa.paK ≤ pa.paP) (hP32 : pa.paP < 2 ^ 32) :
    motrObjMaxSizePerOp conf obj =
      .ok (u64 (u64 (conf.mcMaxIosizePerDev * pa.paN) * pa.paP) / (pa.paN + pa.paK)) := by
  have hmod : (pa.paN + pa.paK) % 2 ^ 32 = pa.paN + pa.paK := Nat.mod_eq_of_lt (by omega)
  rw [motrObjMaxSizePerOp, hpver]
  simp only [hmod]
  rw [if_neg (by omega)]

/-- **When planning is safe**: for every file that is accepted, every pool and all
ranges, exactly if there are no ranges, or if the limit in the file, times the data
units and the width of the pool in 64 bits, is no less than the number of units in a
parity group. -/
theorem planSafe_iff {statics statics' : ConfStatics} {stack : ℕ → MioPoolId}
    {toks : List YamlToken} {inst : MioInst} {mc : MotrConf} {pa : M0PdclustAttr}
    (haccept : mioConfInit statics stack toks = .ok (0, statics', inst))
    (hmc : inst.mDriverConfs = some mc) (hpver : obj.moDrvObj.oaPver = some pa)
    (hN : 1 ≤ pa.paN) (hP : pa.paN + 2 * pa.paK ≤ pa.paP) (hP32 : pa.paP < 2 ^ 32)
    (h64 : ∀ v ∈ iov, v.miovOff < 2 ^ 64 ∧ v.miovLen < 2 ^ 64) :
    PlanSafe mc.toMioMotrConfig obj isWrite iov ↔
      iov = [] ∨ pa.paN + pa.paK ≤ u64 (u64 (configuredIosize statics toks * pa.paN) * pa.paP) := by
  have hmax : motrObjMaxSizePerOp mc.toMioMotrConfig obj = _ :=
    motrObjMaxSizePerOp_of_pver hpver hN hP hP32
  rw [iosize_of_mioConfInit haccept hmc] at hmax
  rcases Nat.lt_or_ge (u64 (u64 (configuredIosize statics toks * pa.paN) * pa.paP))
    (pa.paN + pa.paK) with hlt | hge
  · rw [Nat.div_eq_of_lt hlt] at hmax
    rw [planSafe_zero hmax, or_iff_left (Nat.not_le.mpr hlt)]
  · exact iff_of_true (graceful_planIo hmax (Nat.div_pos hge (by omega)) h64).planSafe (.inr hge)

end PlanIo

/-- The tokens of a file with the limit in it and nothing else. -/
def iosizeFile (text : CStr) : List YamlToken :=
  [.other, .blockMappingStart, .key, .scalar ⟨ascii "MOTR_MAX_IOSIZE_PER_DEV", by decide⟩, .value,
    .scalar text, .blockEnd, .streamEnd]

/-- A limit of one page. -/
theorem planSafe_page :
    ∃ statics inst mc, mioConfInit .initial (fun _ => ⟨0, 0⟩)
        (iosizeFile ⟨ascii "4096", by decide⟩) = .ok (0, statics, inst) ∧
      inst.mDriverConfs = some mc ∧
      PlanSafe mc.toMioMotrConfig (.zeroed .twoBytePages) true [⟨0, 0, 2⟩] := by
  have haccept : mioConfInit .initial (fun _ => ⟨0, 0⟩)
    (iosizeFile ⟨ascii "4096", by decide⟩) = .ok (0, _, _) := rfl
  have hpver : (MioObj.zeroed .twoBytePages).moDrvObj.oaPver = some ⟨1, 0, 1⟩ := rfl
  have hlimit : 1 ≤ u64 (u64 (configuredIosize .initial
    (iosizeFile ⟨ascii "4096", by decide⟩) * 1) * 1) := by decide +kernel
  exact ⟨_, _, _, haccept, rfl, (planSafe_iff haccept rfl hpver (by decide) (by decide) (by decide)
    (by decide)).mpr (.inr hlimit)⟩

/-- A limit of zero is accepted, and the planning of one page divides by it. -/
theorem not_planSafe_zero_limit :
    ∃ statics inst mc, mioConfInit .initial (fun _ => ⟨0, 0⟩)
        (iosizeFile ⟨ascii "0", by decide⟩) = .ok (0, statics, inst) ∧
      inst.mDriverConfs = some mc ∧
      ¬PlanSafe mc.toMioMotrConfig (.zeroed .twoBytePages) true [⟨0, 0, 2⟩] :=
  ⟨_, _, _, rfl, rfl, fun h => h.1 rfl⟩

end CortxMio
