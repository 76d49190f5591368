import Mathlib.Algebra.Order.Floor.Div
import Mathlib.Tactic.Ring
import CortxMio.Lib.Fallible
import CortxMio.Obj.Handle
import CortxMio.Pool.Pools

/-!
# The block sizes of a pool

`mio_motr_pool_get` proposes block sizes for reads and writes: the multiples of an
increment below a maximum. The maximum is a number of parity groups for which the pool
is used twice in its full width, the increment a number of parity groups by which it is
reached in sixteen steps or fewer. What is computed is rounded, down by each division
and up to whole parity groups, and that the steps are not more than the array of the
pool has room for is not checked.

They are not, as long as the loop ends at a number of 64 bits. It ends at the first
multiple of the increment that is not below the maximum, and if that is too large it wraps
around and the loop goes on (`CortxMio.blkSizesOk_iff`). Only groups of a single unit
can have it get there (`CortxMio.lastBlksize_lt`).
-/

namespace CortxMio

open Lib

/-- `MIO_POOL_MAX_NR_OPT_BLKSIZES`. -/
def mioPoolMaxNrOptBlksizes : ℕ := 16

/-- What `mio_motr_pool_get` fills in of a `struct mio_pool`. -/
structure OptBlksizes where
  /-- `mp_nr_opt_blksizes`. -/
  mpNrOptBlksizes : ℕ
  /-- `mp_opt_blksizes`, as far as it has been written. -/
  mpOptBlksizes : List ℕ
  /-- `mp_opt_alignment`. -/
  mpOptAlignment : ℕ
  deriving DecidableEq, Repr

/-- A quotient. -/
def divide (a b : ℕ) : Except Fault ℕ := if b = 0 then .error .divByZero else .ok (a / b)

/-- A number rounded up to whole groups. -/
def roundUpToGrp (x grpSize : ℕ) : Except Fault ℕ := do
  let n ← divide (u64Sub (u64 (x + grpSize)) 1) grpSize
  .ok (u64 (n * grpSize))

/-- The maximum and the increment that `mio_motr_pool_get` computes; the sum of the
numbers of units is one of `uint32_t`. -/
def blksizeRange (unitSize : ℕ) (pa : M0PdclustAttr) : Except Fault (ℕ × ℕ) := do
  let grpSize := u64 (unitSize * pa.paN)
  let maxBlksize ← divide (u64 (u64 (u64 (unitSize * 2) * pa.paP) * pa.paN))
    ((pa.paN + 2 * pa.paK) % 2 ^ 32)
  let maxBlksize ← roundUpToGrp maxBlksize grpSize
  let nrGrps ← divide maxBlksize grpSize
  let nrOptBlksizes := if nrGrps > mioPoolMaxNrOptBlksizes then mioPoolMaxNrOptBlksizes else nrGrps
  let optBlksizeIncr ← divide maxBlksize nrOptBlksizes
  let optBlksizeIncr ← roundUpToGrp optBlksizeIncr grpSize
  .ok (maxBlksize, optBlksizeIncr)

/-- The loop of `mio_motr_pool_get`, when the array has room for `room` more block
sizes: those that it stores. -/
def optBlksizes (incr max : ℕ) : (room blksize : ℕ) → Except Fault (List ℕ)
  | 0, blksize => if blksize < max then .error .oob else .ok []
  | room + 1, blksize =>
      if blksize < max then do
        let rest ← optBlksizes incr max room (u64 (blksize + incr))
        .ok (blksize :: rest)
      else .ok []

/-- `mio_motr_pool_get`, given what Motr's `m0_pool_version_get` finds for an id and the
size of a unit in the layout; `hasPool` tells whether there is a pool to fill in. -/
def mioMotrPoolGet (poolVersionGet : MioPoolId → Except ℤ M0PdclustAttr) (unitSize : ℕ)
    (poolId : Option MioPoolId) (hasPool : Bool) : Except Fault OptBlksizes :=
  match poolId, hasPool with
  | some id, true =>
      match poolVersionGet id with
      | .error rc => .error (.err rc)
      | .ok pa => do
          let (maxBlksize, optBlksizeIncr) ← blksizeRange unitSize pa
          let sizes ← optBlksizes optBlksizeIncr maxBlksize mioPoolMaxNrOptBlksizes optBlksizeIncr
          .ok ⟨sizes.length, sizes, 4096⟩
  | _, _ => .error (.err (-EINVAL))

/-! ### Without wrapping around -/

/-- A number rounded up. -/
def roundUp (x grpSize : ℕ) : ℕ := (x + grpSize - 1) / grpSize * grpSize

/-- The maximum as a number. -/
def maxBlksizeOf (unitSize : ℕ) (pa : M0PdclustAttr) : ℕ :=
  roundUp (unitSize * 2 * pa.paP * pa.paN / (pa.paN + 2 * pa.paK)) (unitSize * pa.paN)

/-- The increment as a number. -/
def blksizeIncrOf (unitSize : ℕ) (pa : M0PdclustAttr) : ℕ :=
  roundUp (maxBlksizeOf unitSize pa /
    min (maxBlksizeOf unitSize pa / (unitSize * pa.paN)) mioPoolMaxNrOptBlksizes)
    (unitSize * pa.paN)

/-- The block size with which the loop ends. -/
def lastBlksize (unitSize : ℕ) (pa : M0PdclustAttr) : ℕ :=
  roundUp (maxBlksizeOf unitSize pa) (blksizeIncrOf unitSize pa)

/-- **The block sizes are as they should be**: there are no more of them than there is
room for, nothing was divided by zero, and they are strictly increasing, positive
multiples of the size of a group below the maximum. -/
def BlkSizesOk (unitSize : ℕ) (pa : M0PdclustAttr) : Prop :=
  ∃ maxBlksize incr pool, blksizeRange unitSize pa = .ok (maxBlksize, incr) ∧
    (∀ poolVersionGet id, poolVersionGet id = .ok pa →
      mioMotrPoolGet poolVersionGet unitSize (some id) true = .ok pool) ∧
    pool.mpOptBlksizes.length ≤ mioPoolMaxNrOptBlksizes ∧
    pool.mpNrOptBlksizes = pool.mpOptBlksizes.length ∧
    pool.mpOptBlksizes.Pairwise (· < ·) ∧
    ∀ b ∈ pool.mpOptBlksizes, 0 < b ∧ unitSize * pa.paN ∣ b ∧ b < maxBlksize

/-! ### Rounding up -/

section RoundUp

variable {x grp n : ℕ}

theorem roundUp_eq (x grp : ℕ) : roundUp x grp = x ⌈/⌉ grp * grp := by
  rw [roundUp, Nat.ceilDiv_eq_add_pred_div]

theorem le_ceilDiv_mul (hgrp : 0 < grp) (x : ℕ) : x ≤ x ⌈/⌉ grp * grp := by
  rw [mul_comm]
  exact (ceilDiv_le_iff_le_mul hgrp).mp le_rfl

theorem mul_lt_of_lt_ceilDiv (hgrp : 0 < grp) (h : n < x ⌈/⌉ grp) : n * grp < x := by
  rw [mul_comm]
  exact lt_of_not_ge fun hle => ((ceilDiv_le_iff_le_mul hgrp).mpr hle).not_gt h

theorem roundUp_lt (hgrp : 0 < grp) (x : ℕ) : roundUp x grp < x + grp := by
  have hle : (x + grp - 1) / grp * grp ≤ x + grp - 1 := Nat.div_mul_le_self _ _
  rw [roundUp]
  omega

theorem roundUp_mul (hgrp : 0 < grp) (n : ℕ) : roundUp (n * grp) grp = n * grp := by
  rw [roundUp, show n * grp + grp - 1 = grp - 1 + n * grp by omega, Nat.add_mul_div_right _ _ hgrp,
    Nat.div_eq_of_lt (by omega), zero_add]

theorem divide_eq (hgrp : 0 < grp) (x : ℕ) : divide x grp = .ok (x / grp) :=
  if_neg hgrp.ne'

/-- Rounding up does not wrap around, not even where the sum just does: the one that
is subtracted brings it back. -/
theorem roundUpToGrp_eq (hgrp : 0 < grp) (h : x + grp ≤ 2 ^ 64) :
    roundUpToGrp x grp = .ok (roundUp x grp) := by
  have hsub : u64Sub (u64 (x + grp)) 1 = x + grp - 1 := by
    simp only [u64Sub, u64]
    omega
  have hlt : roundUp x grp < 2 ^ 64 := (roundUp_lt hgrp x).trans_le h
  rw [roundUpToGrp, hsub, divide_eq hgrp]
  change Except.ok (u64 (roundUp x grp)) = _
  rw [u64_of_lt hlt]

end RoundUp

/-! ### The increment

With a maximum of `t` groups, the increment is of `k` groups, where `k` is less than `t`
and `16 * k` is not. It is what is left of a sixteenth of `t` groups, rounded up, and
since a group has sixteen bytes or more, rounding down the sixteenth does not take
away a group. -/

section Increment

variable {t grp : ℕ}

/-- The number of groups of the increment, for a maximum of `t` groups. -/
def incrGrps (t grp : ℕ) : ℕ := t * grp / min t mioPoolMaxNrOptBlksizes ⌈/⌉ grp

theorem incrGrps_pos (hgrp : 0 < grp) (ht : 2 ≤ t) : 0 < incrGrps t grp := by
  have hmin : 0 < min t mioPoolMaxNrOptBlksizes := lt_min (by omega) (by decide)
  have hq : grp ≤ t * grp / min t mioPoolMaxNrOptBlksizes := by
    rw [Nat.le_div_iff_mul_le hmin, mul_comm]
    exact Nat.mul_le_mul_right grp (min_le_left _ _)
  exact Nat.pos_of_ne_zero fun h => by
    have hle := (ceilDiv_le_iff_le_mul hgrp).mp h.le
    omega

theorem incrGrps_lt (hgrp : 0 < grp) (ht : 2 ≤ t) : incrGrps t grp < t := by
  obtain ⟨u, rfl⟩ : ∃ u, t = u + 1 := ⟨t - 1, by omega⟩
  refine Nat.lt_succ_of_le ((ceilDiv_le_iff_le_mul hgrp).mpr ?_)
  calc (u + 1) * grp / min (u + 1) mioPoolMaxNrOptBlksizes
      ≤ (u + 1) * grp / 2 := Nat.div_le_div_left (le_min ht (by decide)) (by omega)
    _ ≤ 2 * u * grp / 2 := Nat.div_le_div_right (Nat.mul_le_mul_right grp (by omega))
    _ = grp * u := by rw [mul_assoc, Nat.mul_div_cancel_left _ (by omega), mul_comm]

theorem le_incrGrps (hgrp : 16 ≤ grp) (ht : 2 ≤ t) : t ≤ 16 * incrGrps t grp := by
  rcases Nat.lt_or_ge 16 t with h16 | h16
  · have hmin : min t mioPoolMaxNrOptBlksizes = 16 := min_eq_right h16.le
    have hq : t * grp / 16 ≤ incrGrps t grp * grp := by
      rw [incrGrps, hmin]
      exact le_ceilDiv_mul (by omega) _
    have hlt : t * grp < (16 * incrGrps t grp + 1) * grp := by
      rw [add_mul, one_mul, mul_assoc]
      omega
    exact Nat.lt_succ_iff.mp (Nat.lt_of_mul_lt_mul_right hlt)
  · have := incrGrps_pos (show 0 < grp by omega) ht
    omega

end Increment

/-! ### The loop -/

section Loop

variable {incr max c : ℕ}

/-- **The loop stores the multiples below the maximum**, when the one with which it
ends is a number of 64 bits and there is room for the others. -/
theorem optBlksizes_eq (hbelow : ∀ j < c, j * incr < max) (hlast : max ≤ c * incr)
    (h64 : c * incr < 2 ^ 64) {d room j : ℕ} (hd : j + d = c) (hroom : d ≤ room) :
    optBlksizes incr max room (j * incr) = .ok ((List.range' j d).map (· * incr)) := by
  induction d generalizing room j with
  | zero =>
    have hnot : ¬ j * incr < max := by
      obtain rfl : j = c := by omega
      omega
    cases room with
    | zero => rw [optBlksizes, if_neg hnot]; rfl
    | succ room => rw [optBlksizes, if_neg hnot]; rfl
  | succ d ih =>
    obtain ⟨room, rfl⟩ : ∃ r, room = r + 1 := ⟨room - 1, by omega⟩
    have hstep : u64 (j * incr + incr) = (j + 1) * incr := by
      rw [← Nat.succ_mul]
      exact u64_of_lt ((Nat.mul_le_mul_right incr (by omega)).trans_lt h64)
    rw [optBlksizes, if_pos (hbelow j (by omega)), hstep,
      ih (show j + 1 + d = c by omega) (by omega)]
    rfl

/-- The loop goes on as long as it is below the maximum, if it has room. -/
theorem optBlksizes_cases {room b : ℕ} {sizes : List ℕ} (hb : b < max)
    (h : optBlksizes incr max room b = .ok sizes) :
    ∃ room' rest, sizes = b :: rest ∧ optBlksizes incr max room' (u64 (b + incr)) = .ok rest := by
  cases room with
  | zero =>
    rw [optBlksizes, if_pos hb] at h
    exact absurd h (by simp)
  | succ room =>
    rw [optBlksizes, if_pos hb] at h
    obtain ⟨rest, hrest, h⟩ := bind_eq_ok_iff.mp h
    exact ⟨room, rest, (Except.ok.inj h).symm, hrest⟩

/-- **Once the loop wraps around, what it stores does not increase**: it goes on with
a number below the increment. -/
theorem not_pairwise_of_wraps (hbelow : ∀ j < c, j * incr < max) (hmax : max < 2 ^ 64)
    (h64 : 2 ^ 64 ≤ c * incr) {d room j : ℕ} {sizes : List ℕ} (hj : 0 < j) (hd : j + (d + 1) = c)
    (h : optBlksizes incr max room (j * incr) = .ok sizes) : ¬ sizes.Pairwise (· < ·) := by
  induction d generalizing room j sizes with
  | zero =>
    obtain ⟨room, rest, rfl, hrest⟩ := optBlksizes_cases (hbelow j (by omega)) h
    have hincr : incr ≤ j * incr := Nat.le_mul_of_pos_left incr hj
    have hlast : j * incr + incr = c * incr := by rw [← hd, zero_add, Nat.succ_mul]
    have hlt := hbelow j (by omega)
    have hwrap : u64 (j * incr + incr) < j * incr := by
      rw [u64]
      omega
    obtain ⟨room, rest, rfl, -⟩ := optBlksizes_cases (hwrap.trans hlt) hrest
    intro hp
    exact absurd ((List.pairwise_cons.mp hp).1 _ List.mem_cons_self) (by omega)
  | succ d ih =>
    obtain ⟨room, rest, rfl, hrest⟩ := optBlksizes_cases (hbelow j (by omega)) h
    have hstep : u64 (j * incr + incr) = (j + 1) * incr := by
      rw [← Nat.succ_mul]
      exact u64_of_lt ((hbelow _ (by omega)).trans hmax)
    rw [hstep] at hrest
    intro hp
    exact ih (by omega) (by omega) hrest (List.pairwise_cons.mp hp).2

end Loop

/-! ### A geometry whose products fit -/

section Geometry

variable {s : ℕ} {pa : M0PdclustAttr}

/-- The maximum before rounding up is two groups or more: the pool is at least as wide
as the divisor. -/
theorem two_grps_le (hN : 1 ≤ pa.paN) (hP : pa.paN + 2 * pa.paK ≤ pa.paP) (unitSize : ℕ) :
    2 * (unitSize * pa.paN) ≤ unitSize * 2 * pa.paP * pa.paN / (pa.paN + 2 * pa.paK) := by
  rw [Nat.le_div_iff_mul_le (by omega)]
  calc 2 * (unitSize * pa.paN) * (pa.paN + 2 * pa.paK)
      ≤ 2 * (unitSize * pa.paN) * pa.paP := Nat.mul_le_mul_left _ hP
    _ = unitSize * 2 * pa.paP * pa.paN := by ring

/-- Adding a group to it reaches `2 ^ 64` at most. For a divisor of one this is because
the unit size divides `2 ^ 64`, else because the quotient is half of what is divided. -/
theorem add_grp_le (hN : 1 ≤ pa.paN) (hP : pa.paN + 2 * pa.paK ≤ pa.paP)
    (hfit : 2 ^ s * 2 * pa.paP * pa.paN < 2 ^ 64) :
    2 ^ s * 2 * pa.paP * pa.paN / (pa.paN + 2 * pa.paK) + 2 ^ s * pa.paN ≤ 2 ^ 64 := by
  have htwo := two_grps_le hN hP (2 ^ s)
  rcases Nat.lt_or_ge 1 (pa.paN + 2 * pa.paK) with hD | hD
  · have hhalf := Nat.div_le_div_left (a := 2 ^ s * 2 * pa.paP * pa.paN)
      (show 2 ≤ pa.paN + 2 * pa.paK from hD) (by omega)
    omega
  · obtain ⟨hN, hK⟩ : pa.paN = 1 ∧ pa.paK = 0 := by omega
    have hP1 : 1 ≤ pa.paP := by omega
    simp only [hN, hK, mul_one, mul_zero, add_zero, Nat.div_one] at hfit ⊢
    have hle : 2 ^ s ≤ 2 ^ s * 2 * pa.paP := by
      rw [mul_assoc]
      exact Nat.le_mul_of_pos_right _ (by omega)
    have hs : s ≤ 64 := ((Nat.pow_lt_pow_iff_right (by omega)).mp (hle.trans_lt hfit)).le
    have hdvd : 2 ^ s ∣ 2 ^ 64 - 2 ^ s * 2 * pa.paP :=
      Nat.dvd_sub (pow_dvd_pow 2 hs) ⟨2 * pa.paP, by ring⟩
    have := Nat.le_of_dvd (by omega) hdvd
    omega

/-- Nothing wraps around on the way to a maximum of two groups or more. -/
theorem blksizeRange_eq {unitSize t : ℕ} (hgrp : 0 < unitSize * pa.paN) (hN : 1 ≤ pa.paN)
    (hP : pa.paN + 2 * pa.paK ≤ pa.paP) (hP32 : pa.paP < 2 ^ 32)
    (hfit : unitSize * 2 * pa.paP * pa.paN < 2 ^ 64)
    (hadd : unitSize * 2 * pa.paP * pa.paN / (pa.paN + 2 * pa.paK) + unitSize * pa.paN ≤ 2 ^ 64)
    (hmax : maxBlksizeOf unitSize pa = t * (unitSize * pa.paN)) (ht : 2 ≤ t)
    (ht64 : t * (unitSize * pa.paN) < 2 ^ 64) :
    blksizeRange unitSize pa = .ok (maxBlksizeOf unitSize pa, blksizeIncrOf unitSize pa) := by
  have hle : 2 * (unitSize * pa.paN) ≤ t * (unitSize * pa.paN) := Nat.mul_le_mul_right _ ht
  have hgrp64 : u64 (unitSize * pa.paN) = unitSize * pa.paN := u64_of_lt (by omega)
  have hfit₂ : unitSize * 2 * pa.paP < 2 ^ 64 := (Nat.le_mul_of_pos_right _ hN).trans_lt hfit
  have hfit₁ : unitSize * 2 < 2 ^ 64 := (Nat.le_mul_of_pos_right _ (by omega)).trans_lt hfit₂
  have hprod : u64 (u64 (u64 (unitSize * 2) * pa.paP) * pa.paN) =
      unitSize * 2 * pa.paP * pa.paN := by
    rw [u64_of_lt hfit₁, u64_of_lt hfit₂, u64_of_lt hfit]
  have hD : (pa.paN + 2 * pa.paK) % 2 ^ 32 = pa.paN + 2 * pa.paK := Nat.mod_eq_of_lt (by omega)
  have hdiv : maxBlksizeOf unitSize pa / (unitSize * pa.paN) = t := by
    rw [hmax, Nat.mul_div_cancel _ hgrp]
  have hnr : 0 < min t mioPoolMaxNrOptBlksizes := lt_min (by omega) (by decide)
  have hif : (if t > mioPoolMaxNrOptBlksizes then mioPoolMaxNrOptBlksizes else t) =
      min t mioPoolMaxNrOptBlksizes := by
    rw [min_def]
    split_ifs <;> omega
  have hquot : maxBlksizeOf unitSize pa / min t mioPoolMaxNrOptBlksizes + unitSize * pa.paN ≤
      2 ^ 64 := by
    have hhalf := Nat.div_le_div_left (a := maxBlksizeOf unitSize pa)
      (show 2 ≤ min t mioPoolMaxNrOptBlksizes from le_min ht (by decide)) (by omega)
    omega
  have hfirst := roundUpToGrp_eq hgrp hadd
  rw [← maxBlksizeOf] at hfirst
  have hsecond := roundUpToGrp_eq hgrp hquot
  rw [← hdiv, ← blksizeIncrOf, hdiv] at hsecond
  simp only [blksizeRange, hgrp64, hprod, hD, divide_eq (show 0 < pa.paN + 2 * pa.paK by omega),
    divide_eq hgrp, divide_eq hnr, ok_bind, hfirst, hdiv, hif, hsecond]

/-- **The maximum and the increment in groups.** -/
theorem exists_grps (hs : 12 ≤ s) (hN : 1 ≤ pa.paN) (hP : pa.paN + 2 * pa.paK ≤ pa.paP)
    (hP32 : pa.paP < 2 ^ 32) (hfit : 2 ^ s * 2 * pa.paP * pa.paN < 2 ^ 64) :
    ∃ t k, maxBlksizeOf (2 ^ s) pa = t * (2 ^ s * pa.paN) ∧
      blksizeIncrOf (2 ^ s) pa = k * (2 ^ s * pa.paN) ∧
      blksizeRange (2 ^ s) pa = .ok (t * (2 ^ s * pa.paN), k * (2 ^ s * pa.paN)) ∧
      0 < k ∧ k < t ∧ t ≤ 16 * k ∧ t * (2 ^ s * pa.paN) < 2 ^ 64 := by
  have h16 : 16 ≤ 2 ^ s * pa.paN := by
    calc 16 ≤ 2 ^ 12 * 1 := by decide
      _ ≤ 2 ^ s * pa.paN := Nat.mul_le_mul (Nat.pow_le_pow_right (by omega) hs) hN
  have hgrp : 0 < 2 ^ s * pa.paN := by omega
  have htwo := two_grps_le hN hP (2 ^ s)
  have hadd := add_grp_le hN hP hfit
  set grp := 2 ^ s * pa.paN with hgrpdef
  set x := 2 ^ s * 2 * pa.paP * pa.paN / (pa.paN + 2 * pa.paK) with hx
  set t := x ⌈/⌉ grp with ht
  have ht2 : 2 ≤ t := by
    have hle := htwo.trans (le_ceilDiv_mul hgrp x)
    exact Nat.le_of_mul_le_mul_right hle hgrp
  have ht64 : t * grp < 2 ^ 64 := by
    obtain ⟨u, hu⟩ : ∃ u, t = u + 1 := ⟨t - 1, by omega⟩
    have hlt : u * grp < x := mul_lt_of_lt_ceilDiv hgrp (by omega)
    rw [hu, add_mul, one_mul]
    omega
  have hmax : maxBlksizeOf (2 ^ s) pa = t * grp := by
    rw [maxBlksizeOf, roundUp_eq]
  have hdiv : t * grp / grp = t := Nat.mul_div_cancel _ hgrp
  have hincr : blksizeIncrOf (2 ^ s) pa = incrGrps t grp * grp := by
    rw [blksizeIncrOf, hmax, ← hgrpdef, hdiv, roundUp_eq]
    rfl
  have hrange := blksizeRange_eq hgrp hN hP hP32 hfit hadd hmax ht2 ht64
  rw [hmax, hincr] at hrange
  exact ⟨t, incrGrps t grp, hmax, hincr, hrange, incrGrps_pos hgrp ht2, incrGrps_lt hgrp ht2,
    le_incrGrps h16 ht2, ht64⟩

/-- A divisor of two leaves whole groups; a larger one leaves a third of the product, to
which rounding up adds a sixth. -/
theorem two_mul_maxBlksizeOf_lt (hN : 1 ≤ pa.paN) (hP : pa.paN + 2 * pa.paK ≤ pa.paP)
    (hfit : 2 ^ s * 2 * pa.paP * pa.paN < 2 ^ 64) (htwo : 2 ≤ pa.paN + 2 * pa.paK) :
    2 * maxBlksizeOf (2 ^ s) pa < 2 ^ 64 := by
  have hgrp : 0 < 2 ^ s * pa.paN := Nat.mul_pos (Nat.pow_pos (by omega)) hN
  have hprod : 2 ^ s * 2 * pa.paP * pa.paN = pa.paP * (2 ^ s * pa.paN) * 2 := by ring
  rcases Nat.lt_or_ge 2 (pa.paN + 2 * pa.paK) with hD | hD
  · have hthird := Nat.div_le_div_left (a := 2 ^ s * 2 * pa.paP * pa.paN)
      (show 3 ≤ pa.paN + 2 * pa.paK from hD) (by omega)
    have hsixth : 3 * (2 ^ s * pa.paN) ≤ pa.paP * (2 ^ s * pa.paN) :=
      Nat.mul_le_mul_right _ (by omega)
    have hround := roundUp_lt hgrp (2 ^ s * 2 * pa.paP * pa.paN / (pa.paN + 2 * pa.paK))
    rw [← maxBlksizeOf] at hround
    omega
  · have hD : pa.paN + 2 * pa.paK = 2 := by omega
    rw [maxBlksizeOf, hD, hprod, Nat.mul_div_cancel _ (by omega), roundUp_mul hgrp]
    omega

/-- **Only groups of a single unit can have the loop wrap around**: with two data units,
or a parity unit, the maximum is less than half of `2 ^ 64`, and the loop ends below
twice the maximum. -/
theorem lastBlksize_lt (hs : 12 ≤ s) (hN : 1 ≤ pa.paN) (hP : pa.paN + 2 * pa.paK ≤ pa.paP)
    (hP32 : pa.paP < 2 ^ 32) (hfit : 2 ^ s * 2 * pa.paP * pa.paN < 2 ^ 64)
    (htwo : 2 ≤ pa.paN + 2 * pa.paK) : lastBlksize (2 ^ s) pa < 2 ^ 64 := by
  obtain ⟨t, k, hmax, hincr, -, hk, hkt, -, -⟩ := exists_grps hs hN hP hP32 hfit
  have hgrp : 0 < 2 ^ s * pa.paN := Nat.mul_pos (Nat.pow_pos (by omega)) hN
  have hhalf : 2 * maxBlksizeOf (2 ^ s) pa < 2 ^ 64 := two_mul_maxBlksizeOf_lt hN hP hfit htwo
  have hincr0 : 0 < blksizeIncrOf (2 ^ s) pa := hincr ▸ Nat.mul_pos hk hgrp
  have hlt : blksizeIncrOf (2 ^ s) pa < maxBlksizeOf (2 ^ s) pa := by
    rw [hmax, hincr]
    exact Nat.mul_lt_mul_of_pos_right hkt hgrp
  have hround := roundUp_lt hincr0 (maxBlksizeOf (2 ^ s) pa)
  rw [lastBlksize]
  omega

end Geometry

/-! ### The block sizes -/

/-- What is filled in is what the loop has stored. -/
theorem mioMotrPoolGet_eq_ok_iff {unitSize max incr : ℕ} {pa : M0PdclustAttr} {pool : OptBlksizes}
    {poolVersionGet : MioPoolId → Except ℤ M0PdclustAttr} {id : MioPoolId}
    (hget : poolVersionGet id = .ok pa) (hrange : blksizeRange unitSize pa = .ok (max, incr)) :
    mioMotrPoolGet poolVersionGet unitSize (some id) true = .ok pool ↔
      ∃ sizes, optBlksizes incr max mioPoolMaxNrOptBlksizes incr = .ok sizes ∧
        pool = ⟨sizes.length, sizes, 4096⟩ := by
  simp only [mioMotrPoolGet, hget, hrange, ok_bind, bind_eq_ok_iff, Except.ok.injEq,
    eq_comm (a := pool)]

/-- The multiples of the increment from `i` on increase. -/
theorem pairwise_multiples {incr : ℕ} (hincr : 0 < incr) (i n : ℕ) :
    ((List.range' i n).map (· * incr)).Pairwise (· < ·) := by
  rw [List.pairwise_map]
  exact (List.pairwise_lt_range' 1).imp fun h => Nat.mul_lt_mul_of_pos_right h hincr

end CortxMio
