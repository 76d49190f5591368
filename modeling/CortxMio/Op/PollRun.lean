import CortxMio.Op.Poll

/-!
# When polling works

A call of `mio_op_poll` from its start to its return. What it promises
(`CortxMio.PollOk`) is that the post-processing function of every completed driver
op is called once, that the number returned is the number of operations that have
ended, and that without a timeout it returns when all of them have.

`CortxMio.pollOk_iff` is the exact condition. A call keeps its promises if every
operation is on the fly until the last round begins, and only then: an operation
that ends earlier is counted in the round in which it ends and in the last one,
and if its last driver op has a post-processing function, that is called again.
Without a timeout the last round is the one in which the counter happens to be
the number of operations, so all chains must have the same length.
-/

namespace CortxMio

open Lib

variable {σ : Type*} {d : DrvOps σ}

/-! ### The clock -/

section Clock

variable (now : ℕ → UInt64) (timeout : UInt64)

/-- What is left of the timeout after a round. -/
def nextTimeout (timeout : UInt64) (round : ℕ) : UInt64 :=
  if timeout = mioTimeNever then timeout else timeout - elapsed now round

/-- The timeout before the `r`-th round. -/
def timeoutAt : ℕ → UInt64
  | 0 => timeout
  | r + 1 => nextTimeout now (timeoutAt r) r

/-- The last round of a call with a finite timeout: the first after which no time
is left. -/
def LastRound (R : ℕ) : Prop :=
  (∀ r < R, elapsed now r < timeoutAt now timeout r) ∧ ¬elapsed now R < timeoutAt now timeout R

variable {now timeout}

/-- A finite timeout stays finite, and never grows, while there is time left. -/
theorem timeoutAt_le (hfinite : timeout ≠ mioTimeNever) {r : ℕ}
    (h : ∀ r' < r, elapsed now r' < timeoutAt now timeout r') :
    timeoutAt now timeout r ≤ timeout ∧ timeoutAt now timeout r ≠ mioTimeNever := by
  induction r with
  | zero => exact ⟨UInt64.le_refl _, hfinite⟩
  | succ r ih =>
    obtain ⟨hle, hne⟩ := ih fun r' hr' => h r' (by omega)
    have hlt := h r (by omega)
    have hsub : timeoutAt now timeout (r + 1) ≤ timeoutAt now timeout r := by
      rw [timeoutAt, nextTimeout, if_neg hne, UInt64.le_iff_toNat_le,
        UInt64.toNat_sub_of_le _ _ (UInt64.le_of_lt hlt)]
      omega
    refine ⟨UInt64.le_trans hsub hle, fun h => hfinite ?_⟩
    rw [h] at hsub
    -- nothing is above `MIO_TIME_NEVER`
    refine UInt64.le_antisymm ?_ (UInt64.le_trans hsub hle)
    rw [UInt64.le_iff_toNat_le]
    exact Nat.le_of_lt_succ timeout.toNat_lt

/-- Where time passes there is a last round. -/
theorem exists_lastRound (hfinite : timeout ≠ mioTimeNever) (h : ∃ r, timeout ≤ elapsed now r) :
    ∃ R, LastRound now timeout R := by
  classical
  have hex : ∃ r, ¬elapsed now r < timeoutAt now timeout r := by
    by_contra hall
    push Not at hall
    obtain ⟨r, hr⟩ := h
    have hle := (timeoutAt_le hfinite fun r' (_ : r' < r) => hall r').1
    exact absurd (hall r) (UInt64.not_lt.mpr (UInt64.le_trans hle hr))
  refine ⟨Nat.find hex, fun r hr => ?_, Nat.find_spec hex⟩
  exact not_not.mp (Nat.find_min hex hr)

end Clock

/-! ### From one round to the next -/

section Step

variable {now : ℕ → UInt64} {s : PollState σ} {ops : List (PollOp σ)} {n : ℕ}

/-- The condition under which the code goes back to `again`. -/
def PollAgain (now : ℕ → UInt64) (timeout : UInt64) (round nrDone nrOps : ℕ) : Prop :=
  if timeout = mioTimeNever then nrDone ≠ nrOps else elapsed now round < timeout

instance (timeout : UInt64) (round nrDone nrOps : ℕ) :
    Decidable (PollAgain now timeout round nrDone nrOps) := by
  unfold PollAgain
  infer_instance

theorem pollStep_eq (h : pollRound d s.timeout s.round s.ops s.nrDone = .ok (ops, n)) :
    pollStep d now s =
      if PollAgain now s.timeout s.round n ops.length then
        .inl ⟨ops, n, nextTimeout now s.timeout s.round, s.round + 1⟩
      else .inr (.ok (n, ops)) := by
  simp only [pollStep, h, PollAgain, nextTimeout]
  by_cases hnever : s.timeout = mioTimeNever <;> simp [hnever]

theorem pollStep_error {f : Fault}
    (h : pollRound d s.timeout s.round s.ops s.nrDone = .error f) :
    pollStep d now s = .inr (.error f) := by
  simp only [pollStep, h]

/-- A call that goes on has gone through a round. -/
theorem pollRound_of_inl {s' : PollState σ} (h : pollStep d now s = .inl s') :
    ∃ ops n, pollRound d s.timeout s.round s.ops s.nrDone = .ok (ops, n) ∧
      PollAgain now s.timeout s.round n ops.length ∧
      s' = ⟨ops, n, nextTimeout now s.timeout s.round, s.round + 1⟩ := by
  cases hround : pollRound d s.timeout s.round s.ops s.nrDone with
  | error f =>
    rw [pollStep_error hround] at h
    exact absurd h (by simp)
  | ok x =>
    obtain ⟨ops, n⟩ := x
    rw [pollStep_eq hround] at h
    split_ifs at h with hagain
    exact ⟨ops, n, rfl, hagain, (Sum.inl.inj h).symm⟩

/-- So has a call that returns. -/
theorem pollRound_of_inr (h : pollStep d now s = .inr (.ok (n, ops))) :
    pollRound d s.timeout s.round s.ops s.nrDone = .ok (ops, n) ∧
      ¬PollAgain now s.timeout s.round n ops.length := by
  cases hround : pollRound d s.timeout s.round s.ops s.nrDone with
  | error f =>
    rw [pollStep_error hround] at h
    exact absurd h (by simp)
  | ok x =>
    obtain ⟨ops', n'⟩ := x
    rw [pollStep_eq hround] at h
    split_ifs at h with hagain
    obtain ⟨rfl, rfl⟩ : n' = n ∧ ops' = ops := by simpa using h
    exact ⟨rfl, hagain⟩

end Step

/-! ### A call -/

section Call

variable (now : ℕ → UInt64) (qs : List (PollReq d)) (timeout : UInt64)

/-- The operations as they are at some point of a call: after a round, or when it
returns. -/
def PollPasses (ops : List (PollOp σ)) : Prop :=
  (∃ r s, after (pollStep d now) (pollInit qs timeout) r = some s ∧ s.ops = ops) ∨
    ∃ r n, Stops (pollStep d now) (pollInit qs timeout) r (.ok (n, ops))

/-- What a call promises. -/
structure PollOk : Prop where
  /-- The post-processing function of each completed driver op has been called
  exactly once. -/
  once : ∀ ops, PollPasses now qs timeout ops → ∀ p ∈ ops, p.PpOnce
  /-- What is returned is the number of operations whose whole chain has finished
  or failed. -/
  count : ∀ r res, Stops (pollStep d now) (pollInit qs timeout) r res →
    ∃ ops, res = .ok (ops.countP PollOp.ended, ops) ∧ ops.length = qs.length
  /-- Without a timeout the call returns when all have. -/
  never : timeout = mioTimeNever →
    ∃ r ops, Stops (pollStep d now) (pollInit qs timeout) r (.ok (qs.length, ops)) ∧
      ∀ p ∈ ops, p.mpRetstate = .completed ∨ p.mpRetstate = .failed

/-- Without a timeout, all chains have the same length, and no post-processing
function fails. With one, no chain has ended when the last round begins, and none
ends in it by a failing post-processing function. -/
def InStep : Prop :=
  if timeout = mioTimeNever then
    (∀ q ∈ qs, q.how.Orderly) ∧ ∀ q ∈ qs, ∀ q' ∈ qs, q.len = q'.len
  else ∀ R, LastRound now timeout R → ∀ q ∈ qs, q.seen timeout R < q.len ∧
    (q.len ≤ q.seen timeout (R + 1) → q.how.Orderly)

/-- The variables of a call before its `r`-th round. -/
structure PollVars (r : ℕ) (s : PollState σ) : Prop where
  /-- Rounds are counted. -/
  round : s.round = r
  /-- What is left of the timeout. -/
  left : s.timeout = timeoutAt now timeout r
  /-- There was time left after every round. -/
  gone : timeout ≠ mioTimeNever → ∀ r' < r, elapsed now r' < timeoutAt now timeout r'

/-- A call in which nothing has been post-processed twice, before its `r`-th
round. -/
structure PollInv (r : ℕ) (s : PollState σ) : Prop extends PollVars now timeout r s where
  /-- Each operation is on the fly or has ended. -/
  tie : List.Forall₂ (fun q p => q.Tie timeout r p) qs s.ops
  /-- Those that have ended are counted. -/
  counted : s.nrDone = 0 → ∀ p ∈ s.ops, p.ended = false

/-- A call before whose `r`-th round every operation is on the fly. -/
structure PollFresh (r : ℕ) (s : PollState σ) : Prop extends PollVars now timeout r s where
  /-- Every operation is on the fly. -/
  fresh : List.Forall₂ (fun q p => q.Fresh timeout r p) qs s.ops
  /-- None is counted. -/
  nrDone : s.nrDone = 0

variable {now qs timeout} {r : ℕ} {s : PollState σ} {ops : List (PollOp σ)} {n : ℕ}

theorem pollVars_init : PollVars now timeout 0 (pollInit qs timeout) :=
  ⟨rfl, rfl, fun _ _ h => absurd h (by omega)⟩

theorem fresh_init (qs : List (PollReq d)) (timeout : UInt64) :
    List.Forall₂ (fun q p => q.Fresh timeout 0 p) qs (qs.map PollReq.init) := by
  rw [List.forall₂_map_right_iff, List.forall₂_same]
  exact fun q _ => q.fresh_init timeout

theorem pollFresh_init : PollFresh now qs timeout 0 (pollInit qs timeout) :=
  ⟨pollVars_init, fresh_init qs timeout, rfl⟩

theorem pollInv_init : PollInv now qs timeout 0 (pollInit qs timeout) := by
  refine ⟨pollVars_init, (fresh_init qs timeout).imp fun _ _ h => .inl h, ?_⟩
  intro _ p hp
  obtain ⟨q, -, h⟩ := exists_left_of_mem (fresh_init qs timeout) hp
  exact h.ended

/-- Whether there is a timeout does not change. -/
theorem PollVars.never (h : PollVars now timeout r s) :
    s.timeout = mioTimeNever ↔ timeout = mioTimeNever := by
  constructor
  · intro hs
    by_contra hfinite
    rw [h.left] at hs
    exact (timeoutAt_le hfinite (h.gone hfinite)).2 hs
  · rintro rfl
    rw [h.left]
    clear h
    induction r with
    | zero => rfl
    | succ r ih => rw [timeoutAt, nextTimeout, if_pos ih, ih]

/-- A round sees of the timeout only whether there is one. -/
theorem PollVars.pollRound (h : PollVars now timeout r s) :
    pollRound d s.timeout s.round s.ops s.nrDone = pollRound d timeout r s.ops s.nrDone := by
  rw [pollRound_congr h.never, h.round]

theorem PollVars.pollAgain (h : PollVars now timeout r s) (n m : ℕ) :
    PollAgain now s.timeout s.round n m ↔
      if timeout = mioTimeNever then n ≠ m else elapsed now r < timeoutAt now timeout r := by
  rw [PollAgain, h.round, ← h.left]
  simp only [h.never]

/-- The variables after one more round. -/
theorem PollVars.next (h : PollVars now timeout r s)
    (hagain : timeout ≠ mioTimeNever → elapsed now r < timeoutAt now timeout r) :
    PollVars now timeout (r + 1) ⟨ops, n, nextTimeout now s.timeout s.round, s.round + 1⟩ := by
  refine ⟨by rw [h.round], by rw [timeoutAt, ← h.left, h.round], ?_⟩
  intro hfinite r' hr'
  rcases Nat.lt_succ_iff_lt_or_eq.mp hr' with hr' | rfl
  · exact h.gone hfinite r' hr'
  · exact hagain hfinite

/-! ### The calls that keep their promises -/

/-- One more round in which no chain ends. -/
theorem PollFresh.next (h : PollFresh now qs timeout r s)
    (hlt : ∀ q ∈ qs, q.seen timeout (r + 1) < q.len)
    (hagain : if timeout = mioTimeNever then 0 ≠ qs.length
      else elapsed now r < timeoutAt now timeout r) :
    ∃ s', pollStep d now s = .inl s' ∧ PollFresh now qs timeout (r + 1) s' := by
  obtain ⟨ops, hround, hupto⟩ := upto_of_fresh (n := 0) h.fresh fun q hq hle =>
    absurd (hlt q hq) (not_lt.mpr hle)
  obtain ⟨hfresh, hcount⟩ := fresh_of_upto hupto hlt
  rw [hcount] at hround
  have hround' : pollRound d s.timeout s.round s.ops s.nrDone = .ok (ops, 0) := by
    rw [h.toPollVars.pollRound, h.nrDone, hround]
  have hlen : ops.length = qs.length := hfresh.length_eq.symm
  refine ⟨⟨ops, 0, nextTimeout now s.timeout s.round, s.round + 1⟩, ?_, ?_, hfresh, rfl⟩
  · rw [pollStep_eq hround', if_pos ((h.toPollVars.pollAgain _ _).mpr (by rwa [hlen]))]
  · refine h.toPollVars.next fun hfinite => ?_
    rwa [if_neg hfinite] at hagain

/-- The last round. -/
theorem PollFresh.last (h : PollFresh now qs timeout r s)
    (hend : ∀ q ∈ qs, q.len ≤ q.seen timeout (r + 1) → q.how.Orderly)
    (hstop : if timeout = mioTimeNever then ∀ q ∈ qs, q.len ≤ q.seen timeout (r + 1)
      else ¬elapsed now r < timeoutAt now timeout r) :
    ∃ ops, pollStep d now s = .inr (.ok (ops.countP PollOp.ended, ops)) ∧
      List.Forall₂ (fun q p => q.Upto timeout (r + 1) p) qs ops := by
  obtain ⟨ops, hround, hupto⟩ := upto_of_fresh (n := 0) h.fresh hend
  rw [Nat.zero_add] at hround
  have hround' : pollRound d s.timeout s.round s.ops s.nrDone =
      .ok (ops, ops.countP PollOp.ended) := by
    rw [h.toPollVars.pollRound, h.nrDone, hround]
  refine ⟨ops, ?_, hupto⟩
  rw [pollStep_eq hround', if_neg]
  rw [h.toPollVars.pollAgain]
  split_ifs at hstop ⊢ with hnever
  · rw [not_not, List.countP_eq_length]
    intro p hp
    obtain ⟨q, hq, hfresh | ⟨hover, -⟩⟩ := exists_left_of_mem hupto hp
    · exact absurd (hstop q hq) (not_le.mpr (hfresh.pos ▸ hfresh.lt))
    · exact hover.ended
  · exact hstop

/-- The rounds before the last. -/
theorem pollFresh_of_le {R : ℕ} (hlt : ∀ q ∈ qs, q.seen timeout R < q.len)
    (hagain : ∀ r < R, if timeout = mioTimeNever then 0 ≠ qs.length
      else elapsed now r < timeoutAt now timeout r) :
    ∀ r ≤ R, ∃ s, after (pollStep d now) (pollInit qs timeout) r = some s ∧
      PollFresh now qs timeout r s := by
  intro r hr
  induction r with
  | zero => exact ⟨_, rfl, pollFresh_init⟩
  | succ r ih =>
    obtain ⟨s, hs, hfresh⟩ := ih (by omega)
    obtain ⟨s', hstep, hfresh'⟩ := hfresh.next
      (fun q hq => lt_of_le_of_lt (q.seen_mono timeout hr) (hlt q hq)) (hagain r (by omega))
    exact ⟨s', after_succ hs hstep, hfresh'⟩

/-- **A call whose operations are all on the fly until its last round** keeps its
promises. -/
theorem pollOk_of_last {R : ℕ} (hlt : ∀ q ∈ qs, q.seen timeout R < q.len)
    (hagain : ∀ r < R, if timeout = mioTimeNever then 0 ≠ qs.length
      else elapsed now r < timeoutAt now timeout r)
    (hend : ∀ q ∈ qs, q.len ≤ q.seen timeout (R + 1) → q.how.Orderly)
    (hstop : if timeout = mioTimeNever then ∀ q ∈ qs, q.len ≤ q.seen timeout (R + 1)
      else ¬elapsed now R < timeoutAt now timeout R) : PollOk now qs timeout := by
  have hrun := pollFresh_of_le hlt hagain
  obtain ⟨s, hs, hfresh⟩ := hrun R (le_refl R)
  obtain ⟨ops, hstep, hupto⟩ := hfresh.last hend hstop
  have hstops : Stops (pollStep d now) (pollInit qs timeout) R
      (.ok (ops.countP PollOp.ended, ops)) := ⟨s, hs, hstep⟩
  have hlen : ops.length = qs.length := hupto.length_eq.symm
  refine ⟨?_, ?_, ?_⟩
  · rintro ops' (⟨r, s', hs', rfl⟩ | ⟨r, n, hstops'⟩) p hp
    · obtain ⟨s'', hs'', hfresh'⟩ := hrun r (hstops.le hs')
      obtain rfl : s' = s'' := Option.some.inj (hs'.symm.trans hs'')
      obtain ⟨q, -, h⟩ := exists_left_of_mem hfresh'.fresh hp
      exact h.ppOnce
    · obtain ⟨-, hres⟩ := hstops.unique hstops'
      obtain ⟨-, rfl⟩ : _ = n ∧ ops = ops' := by simpa using hres
      obtain ⟨q, -, h | ⟨-, -, honce, -⟩⟩ := exists_left_of_mem hupto hp
      · exact h.ppOnce
      · exact honce
  · intro r res hstops'
    exact ⟨ops, (hstops.unique hstops').2.symm, hlen⟩
  · intro hnever
    rw [if_pos hnever] at hstop
    have hended : ∀ p ∈ ops, p.ended = true ∧ p.mpRetstate ≠ .onfly := by
      intro p hp
      obtain ⟨q, hq, hfresh | ⟨hover, -, -, hret⟩⟩ := exists_left_of_mem hupto hp
      · exact absurd (hstop q hq) (not_le.mpr (hfresh.pos ▸ hfresh.lt))
      · exact ⟨hover.ended, hret⟩
    refine ⟨R, ops, ?_, fun p hp => ?_⟩
    · rwa [List.countP_eq_length.mpr fun p hp => (hended p hp).1, hlen] at hstops
    · cases hp' : p.mpRetstate with
      | onfly => exact absurd hp' (hended p hp).2
      | completed => exact .inl rfl
      | failed => exact .inr rfl

/-! ### The other calls -/

/-- Where each is called once, none is called twice. -/
theorem PollOp.PpOnce.le_one {p : PollOp σ} (h : p.PpOnce) (j : ℕ) : p.callsOf j ≤ 1 := by
  rw [h j]
  split_ifs <;> omega

/-- One more round, if nothing is post-processed twice in it. -/
theorem PollInv.next (h : PollInv now qs timeout r s) {s' : PollState σ}
    (hstep : pollStep d now s = .inl s') (honce : ∀ p ∈ s'.ops, p.PpOnce) :
    PollInv now qs timeout (r + 1) s' := by
  obtain ⟨ops, n, hround, hagain, rfl⟩ := pollRound_of_inl hstep
  rw [h.toPollVars.pollRound] at hround
  rw [h.toPollVars.pollAgain] at hagain
  obtain ⟨htie, hcount⟩ := tie_of_pollRound h.tie hround fun p hp => (honce p hp).le_one
  refine ⟨h.toPollVars.next fun hfinite => by rwa [if_neg hfinite] at hagain, htie, ?_⟩
  rintro (rfl : n = 0) p hp
  have hzero : ops.countP PollOp.ended = 0 := by omega
  simpa using List.countP_eq_zero.mp hzero p hp

/-- The rounds of a call that keeps its promises. -/
theorem PollOk.pollInv (hok : PollOk now qs timeout) :
    ∀ r s, after (pollStep d now) (pollInit qs timeout) r = some s →
      PollInv now qs timeout r s := by
  intro r
  induction r with
  | zero =>
    rintro s hs
    obtain rfl : pollInit qs timeout = s := Option.some.inj hs
    exact pollInv_init
  | succ r ih =>
    intro s' hs'
    obtain ⟨s, hs, hstep⟩ := after_succ_inv hs'
    exact (ih s hs).next hstep (hok.once _ (.inl ⟨r + 1, s', hs', rfl⟩))

/-- **What the return of a call that keeps its promises says about its
operations**: none had ended before the last round. -/
theorem PollOk.stops (hok : PollOk now qs timeout) {R : ℕ}
    (hstops : Stops (pollStep d now) (pollInit qs timeout) R (.ok (n, ops))) :
    (∀ q ∈ qs, q.seen timeout R < q.len) ∧
      List.Forall₂ (fun q p => q.Tie timeout (R + 1) p) qs ops ∧ n = ops.countP PollOp.ended ∧
      (timeout ≠ mioTimeNever → LastRound now timeout R) := by
  have honce : ∀ p ∈ ops, p.PpOnce := hok.once ops (.inr ⟨R, n, hstops⟩)
  obtain ⟨ops', hres, -⟩ := hok.count R _ hstops
  obtain ⟨hn, rfl⟩ : n = ops'.countP PollOp.ended ∧ ops = ops' := by simpa using hres
  obtain ⟨s, hs, hstep⟩ := hstops
  have hinv := hok.pollInv R s hs
  obtain ⟨hround, hagain⟩ := pollRound_of_inr hstep
  rw [hinv.toPollVars.pollRound] at hround
  rw [hinv.toPollVars.pollAgain] at hagain
  obtain ⟨htie, hcount⟩ := tie_of_pollRound hinv.tie hround fun p hp => (honce p hp).le_one
  refine ⟨?_, htie, hn, fun hfinite => ⟨hinv.gone hfinite, by rwa [if_neg hfinite] at hagain⟩⟩
  -- what was counted before the last round is counted twice
  intro q hq
  obtain ⟨p, hp, hfresh | ⟨hover, -⟩⟩ := exists_right_of_mem hinv.tie hq
  · exact hfresh.pos ▸ hfresh.lt
  · have hended := hinv.counted (by omega) p hp
    rw [hover.ended] at hended
    exact absurd hended (by simp)

/-- A chain all of whose driver ops have been seen has ended in order. -/
theorem orderly_of_tie (h : List.Forall₂ (fun q p => q.Tie timeout r p) qs ops)
    {q : PollReq d} (hq : q ∈ qs) (hle : q.len ≤ q.seen timeout r) : q.how.Orderly := by
  obtain ⟨p, -, hfresh | ⟨-, -, hend⟩⟩ := exists_right_of_mem h hq
  · exact absurd hle (not_le.mpr (hfresh.pos ▸ hfresh.lt))
  · exact hend

/-- A call that has not aborted before its last round comes to it. -/
theorem PollOk.reaches (hok : PollOk now qs timeout) (hfinite : timeout ≠ mioTimeNever) {R : ℕ}
    (hlast : LastRound now timeout R) :
    ∃ n ops, Stops (pollStep d now) (pollInit qs timeout) R (.ok (n, ops)) := by
  have hrun : ∀ r ≤ R, ∃ s, after (pollStep d now) (pollInit qs timeout) r = some s := by
    intro r hr
    induction r with
    | zero => exact ⟨_, rfl⟩
    | succ r ih =>
      obtain ⟨s, hs⟩ := ih (by omega)
      cases hstep : pollStep d now s with
      | inl s' => exact ⟨s', after_succ hs hstep⟩
      | inr res =>
        obtain ⟨ops, rfl, -⟩ := hok.count r res ⟨s, hs, hstep⟩
        have hstop := ((hok.stops ⟨s, hs, hstep⟩).2.2.2 hfinite).2
        exact absurd (hlast.1 r (by omega)) hstop
  obtain ⟨s, hs⟩ := hrun R (le_refl R)
  cases hstep : pollStep d now s with
  | inl s' =>
    have hinv := hok.pollInv (R + 1) s' (after_succ hs hstep)
    exact absurd (hinv.gone hfinite R (by omega)) hlast.2
  | inr res =>
    obtain ⟨ops, rfl, -⟩ := hok.count R res ⟨s, hs, hstep⟩
    exact ⟨_, ops, s, hs, hstep⟩

/-- Without a timeout every round finds one more driver op finished. -/
theorem PollReq.seen_never (q : PollReq d) (r : ℕ) : q.seen mioTimeNever r = r := by
  rw [PollReq.seen, Nat.count_of_forall]
  simp

/-- **When a call of `mio_op_poll` keeps its promises.** For all chains, all orders
in which their driver ops finish, all outcomes and all timeouts: the
post-processing functions are called once each, the number of ended operations is
returned, and without a timeout all have ended on return, if and only if the
operations are in step. -/
theorem pollOk_iff (hclock : timeout ≠ mioTimeNever → ∃ r, timeout ≤ elapsed now r) :
    PollOk now qs timeout ↔ InStep now qs timeout := by
  by_cases hnever : timeout = mioTimeNever
  · rw [InStep, if_pos hnever]
    subst hnever
    constructor
    · intro hok
      obtain ⟨R, ops, hstops, -⟩ := hok.never rfl
      obtain ⟨hlt, htie, hcount, -⟩ := hok.stops hstops
      have hlen : ops.length = qs.length := htie.length_eq.symm
      have hall : ∀ p ∈ ops, p.ended = true := List.countP_eq_length.mp (by omega)
      have hle : ∀ q ∈ qs, q.len ≤ q.seen mioTimeNever (R + 1) := by
        intro q hq
        obtain ⟨p, hp, hfresh | ⟨-, hle, -⟩⟩ := exists_right_of_mem htie hq
        · have := hall p hp
          rw [hfresh.ended] at this
          exact absurd this (by simp)
        · exact hle
      refine ⟨fun q hq => orderly_of_tie htie hq (hle q hq), fun q hq q' hq' => ?_⟩
      have h1 := hlt q hq
      have h2 := hle q hq
      have h3 := hlt q' hq'
      have h4 := hle q' hq'
      simp only [PollReq.seen_never] at h1 h2 h3 h4
      omega
    · rintro ⟨hend, hlen⟩
      rcases qs with - | ⟨q₀, qs⟩
      · exact pollOk_of_last (R := 0) (by simp) (by simp) (by simp) (by simp)
      · have hpos := q₀.ends.pos
        have hall : ∀ q ∈ q₀ :: qs, q.len = q₀.len := fun q hq => hlen q hq q₀ (by simp)
        refine pollOk_of_last (R := q₀.len - 1) ?_ ?_ (fun q hq _ => hend q hq) ?_
        · intro q hq
          rw [PollReq.seen_never, hall q hq]
          omega
        · intro r _
          rw [if_pos rfl]
          exact (Nat.succ_ne_zero _).symm
        · rw [if_pos rfl]
          intro q hq
          rw [PollReq.seen_never, hall q hq]
          omega
  · rw [InStep, if_neg hnever]
    constructor
    · intro hok R hlast q hq
      obtain ⟨n, ops, hstops⟩ := hok.reaches hnever hlast
      obtain ⟨hlt, htie, -⟩ := hok.stops hstops
      exact ⟨hlt q hq, orderly_of_tie htie hq⟩
    · intro hstep
      obtain ⟨R, hlast⟩ := exists_lastRound hnever (hclock hnever)
      refine pollOk_of_last (fun q hq => (hstep R hlast q hq).1) ?_
        (fun q hq => (hstep R hlast q hq).2) ?_
      · intro r hr
        rw [if_neg hnever]
        exact hlast.1 r hr
      · rw [if_neg hnever]
        exact hlast.2

end Call

/-! ### Two writes -/

/-- A write of the ranges to an object of the given size, with pages of 2 bytes
and so many bytes in an op: what is in flight when it has been submitted. -/
def submittedWrite (max size : ℕ) (iov : List (MioIovec ℕ)) : Option IoState :=
  let obj := (MioObj.zeroed .twoBytePages).setSize size
  (mioMotrObjWritev ⟨max⟩ obj (fun _ => 9) iov).toOption.map fun op =>
    ⟨⟨fun _ => 0, none⟩, obj, op⟩

/-- A write of one page inside an object, with room for one page in an op: its only
driver op is the write. -/
def overwriteReq : PollReq (motrObjDrvOps ⟨2⟩) where
  st := (submittedWrite 2 4 [⟨0, 0, 2⟩]).get (by decide +kernel)
  fins _ := true
  len := 1
  how := .completed
  ends := DrvOps.ends_of_findEnd (x := (1, .completed)) 2 (by decide +kernel)

/-- A write that makes an object grow: two ops for its two pages, and a third to
store the size. -/
def growingReq : PollReq (motrObjDrvOps ⟨2⟩) where
  st := (submittedWrite 2 0 [⟨0, 0, 4⟩]).get (by decide +kernel)
  fins _ := true
  len := 3
  how := .completed
  ends := DrvOps.ends_of_findEnd (x := (3, .completed)) 4 (by decide +kernel)

/-- Two growing writes are polled as they should be. -/
theorem pollOk_growing : PollOk (fun _ => 0) [growingReq, growingReq] mioTimeNever := by
  refine (pollOk_iff fun h => absurd rfl h).mpr ?_
  rw [InStep, if_pos rfl]
  exact ⟨by simp [growingReq, OpEnd.Orderly], by simp⟩

/-- **A growing write together with one that is not** is reported as done when it
is on the fly, and the other one is post-processed twice. -/
theorem not_pollOk_mixed : ¬PollOk (fun _ => 0) [overwriteReq, growingReq] mioTimeNever := by
  intro hok
  have hrun : (loopN (pollStep (motrObjDrvOps ⟨2⟩) fun _ => 0) 3
      (pollInit [overwriteReq, growingReq] mioTimeNever)).map (fun res => res.toOption.map fun x =>
        (x.1, x.2.map fun p => (p.ended, p.callsOf 0))) =
      some (some (2, [(true, 2), (false, 1)])) := by
    decide +kernel
  obtain ⟨res, hres, hval⟩ := Option.map_eq_some_iff.mp hrun
  obtain ⟨r, hstops⟩ := stops_of_loopN hres
  obtain ⟨ops, rfl, -⟩ := hok.count r res hstops
  obtain ⟨hcount, hops⟩ : ops.countP PollOp.ended = 2 ∧
      (ops.map fun p => (p.ended, p.callsOf 0)) = [(true, 2), (false, 1)] := by
    simpa [Except.toOption] using hval
  have hended : ops.map PollOp.ended = [true, false] := by
    have h := congrArg (List.map Prod.fst) hops
    rwa [List.map_map] at h
  have : (ops.map PollOp.ended).countP id = 2 := by rwa [List.countP_map]
  rw [hended] at this
  exact absurd this (by decide)

end CortxMio
