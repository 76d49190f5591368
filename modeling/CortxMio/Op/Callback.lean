import CortxMio.Op.PollRun

/-!
# Polling and callbacks

An application that has set callbacks does not poll: Motr calls
`motr_op_cb_complete` or `motr_op_cb_failed` when the op at the head of the chain
has finished, and these call the post-processing function and, when nothing is
left to do, the application. The two ways of driving a chain are compared here
(`CortxMio.paths_spec`).

They call the same post-processing functions, and they report the same for a
chain that completes and for one in which a Motr op fails. A chain that ends
because a post-processing function fails is reported by neither: `mio_op_poll`
stops at an assertion, and `motr_op_cb_complete` falls through to the callback for
success. `CortxMio.pathsAgree_iff` says that these chains, and no others, are
reported in the wrong way.
-/

namespace CortxMio

open Lib

variable {σ : Type*}

/-! ### Callbacks -/

/-- A call of one of the callbacks of the application, with `mop_rc` at that
time. -/
inductive AppCb
  /-- `moc_cb_complete`. -/
  | complete (mopRc : ℤ)
  /-- `moc_cb_failed`. -/
  | failed (mopRc : ℤ)
  deriving DecidableEq, Repr

/-- `mio_driver_op_invoke_real_cb`. -/
def mioDriverOpInvokeRealCb (rc : ℤ) : AppCb := if rc = 0 then .complete rc else .failed rc

/-- An operation with callbacks: its state, and the states in which
post-processing functions have been called. -/
structure CbOp (σ : Type*) where
  /-- The operation and the driver op at the head of its chain. -/
  st : σ
  /-- The calls so far. -/
  calls : List σ

variable (d : DrvOps σ)

/-- What `motr_op_cb_complete` does when the op at the head is stable. -/
def motrOpCbComplete (s : CbOp σ) : CbOp σ ⊕ Except Fault AppCb × List σ :=
  match d.postProc s.st with
  | none => .inr (.ok (mioDriverOpInvokeRealCb 0), s.calls)
  | some (.error f) => .inr (.error f, s.calls)
  | some (.ok (rc, st)) =>
      if rc = mioDrvOpNext then .inl ⟨st, s.calls ++ [s.st]⟩
      else .inr (.ok (mioDriverOpInvokeRealCb 0), s.calls ++ [s.st])

/-- What `motr_op_cb_failed` does when the op at the head has failed. -/
def motrOpCbFailed (s : CbOp σ) : CbOp σ ⊕ Except Fault AppCb × List σ :=
  .inr (.ok (mioDriverOpInvokeRealCb (d.m0Rc s.st)), s.calls)

/-- Motr finishes the op at the head and calls back. -/
def cbStep (s : CbOp σ) : CbOp σ ⊕ Except Fault AppCb × List σ :=
  if d.m0Rc s.st < 0 then motrOpCbFailed d s else motrOpCbComplete d s

/-- What the application is told by a callback when a chain has ended. -/
def OpEnd.cbReport : OpEnd → AppCb
  | .completed => .complete 0
  | .failed rc => .failed rc
  | .ppErr _ => .complete 0

/-- What the application is told by `mio_op_poll` when a chain has ended, and which
calls have been made for it. -/
def OpEnd.PollReports (seq : List σ) (res : Except Fault (ℕ × List (PollOp σ))) : OpEnd → Prop
  | .completed => ∃ p, res = .ok (1, [p]) ∧ p.mpRetstate = .completed ∧ p.mopRc = 0 ∧
      p.calls.map Prod.snd = seq
  | .failed rc => ∃ p, res = .ok (1, [p]) ∧ p.mpRetstate = .failed ∧ p.mopRc = rc ∧
      p.calls.map Prod.snd = seq
  | .ppErr _ => res = .error .abort

/-! ### One chain in both ways -/

variable {d} {now : ℕ → UInt64}

section Single

variable {p p' : PollOp σ} {r : ℕ}

/-- A round for a single operation that is not done. -/
theorem pollStep_single_next (h : pollOne d mioTimeNever r p = .ok (p', false)) :
    pollStep d now ⟨[p], 0, mioTimeNever, r⟩ = .inl ⟨[p'], 0, mioTimeNever, r + 1⟩ := by
  have hround : pollRound d mioTimeNever r [p] 0 = .ok ([p'], 0) := by
    simp [pollRound, h, bind, Except.bind]
  rw [pollStep_eq hround]
  simp [PollAgain, nextTimeout]

/-- A round for a single operation that is done. -/
theorem pollStep_single_done (h : pollOne d mioTimeNever r p = .ok (p', true)) :
    pollStep d now ⟨[p], 0, mioTimeNever, r⟩ = .inr (.ok (1, [p'])) := by
  have hround : pollRound d mioTimeNever r [p] 0 = .ok ([p'], 1) := by
    simp [pollRound, h, bind, Except.bind]
  rw [pollStep_eq hround]
  simp [PollAgain]

/-- A round that is not survived. -/
theorem pollStep_single_error {f : Fault} (h : pollOne d mioTimeNever r p = .error f) :
    pollStep d now ⟨[p], 0, mioTimeNever, r⟩ = .inr (.error f) := by
  refine pollStep_error ?_
  simp [pollRound, h, bind, Except.bind]

/-- Without a timeout the op at the head is finished when the wait is over. -/
theorem finished_never (p : PollOp σ) (r : ℕ) :
    (p.finished || (mioTimeNever == mioTimeNever || p.fins r)) = true := by
  rw [beq_self_eq_true, Bool.true_or, Bool.or_true]

end Single

/-- **Both ways through a chain.** They make the same calls, and each tells the
application how the chain has ended as `PollReports` and `cbReport` say. -/
theorem paths_spec (now : ℕ → UInt64) {s : σ} {n : ℕ} {e : OpEnd} (h : d.Ends s n e) :
    ∃ seq : List σ,
      (∀ (p : PollOp σ) (r : ℕ), p.st = s → ∃ R res,
        Stops (pollStep d now) ⟨[p], 0, mioTimeNever, r⟩ R res ∧
          e.PollReports (p.calls.map Prod.snd ++ seq) res) ∧
      ∀ cs : List σ, ∃ R, Stops (cbStep d) ⟨s, cs⟩ R (.ok e.cbReport, cs ++ seq) := by
  induction h with
  | @failed s hrc =>
    refine ⟨[], ?_, fun cs => ⟨0, .here ?_⟩⟩
    · rintro p r rfl
      refine ⟨0, _, .here (pollStep_single_done (pollOne_failed (finished_never p r) hrc)), ?_⟩
      exact ⟨_, rfl, rfl, rfl, by simp⟩
    · have hne : d.m0Rc s ≠ 0 := by omega
      simp [cbStep, hrc, motrOpCbFailed, mioDriverOpInvokeRealCb, OpEnd.cbReport, hne]
  | @noPp s hrc hpp =>
    refine ⟨[], ?_, fun cs => ⟨0, .here ?_⟩⟩
    · rintro p r rfl
      refine ⟨0, _, .here (pollStep_single_done (pollOne_noPp (finished_never p r) hrc hpp)), ?_⟩
      exact ⟨_, rfl, rfl, rfl, by simp⟩
    · simp [cbStep, not_lt.mpr hrc, motrOpCbComplete, hpp, mioDriverOpInvokeRealCb, OpEnd.cbReport]
  | @final s s' hrc hpp =>
    refine ⟨[s], ?_, fun cs => ⟨0, .here ?_⟩⟩
    · rintro p r rfl
      have hone := pollOne_pp (finished_never p r) hrc hpp
      rw [if_neg (by decide), if_pos rfl] at hone
      exact ⟨0, _, .here (pollStep_single_done hone), _, rfl, rfl, rfl, by simp⟩
    · simp [cbStep, not_lt.mpr hrc, motrOpCbComplete, hpp, mioDriverOpInvokeRealCb, OpEnd.cbReport]
  | @ppErr s s' rc hrc hpp hnext hfinal =>
    refine ⟨[s], ?_, fun cs => ⟨0, .here ?_⟩⟩
    · rintro p r rfl
      have hone := pollOne_pp (finished_never p r) hrc hpp
      rw [if_neg hnext, if_neg hfinal] at hone
      exact ⟨0, _, .here (pollStep_single_error hone), rfl⟩
    · simp [cbStep, not_lt.mpr hrc, motrOpCbComplete, hpp, hnext, mioDriverOpInvokeRealCb,
        OpEnd.cbReport]
  | @next s s' n e hrc hpp _ ih =>
    obtain ⟨seq, hpoll, hcb⟩ := ih
    refine ⟨s :: seq, ?_, fun cs => ?_⟩
    · rintro p r rfl
      have hone := pollOne_pp (finished_never p r) hrc hpp
      rw [if_pos rfl] at hone
      obtain ⟨R, res, hstops, hrep⟩ := hpoll { p with
        st := s', finished := false, mopRc := 0, mpRetstate := .onfly, pos := p.pos + 1
        calls := p.calls ++ [(p.pos, p.st)], headPp := false } (r + 1) rfl
      refine ⟨R + 1, res, hstops.later (pollStep_single_next hone), ?_⟩
      simpa using hrep
    · obtain ⟨R, hstops⟩ := hcb (cs ++ [s])
      refine ⟨R + 1, Stops.later ?_ (by simpa using hstops)⟩
      simp [cbStep, not_lt.mpr hrc, motrOpCbComplete, hpp]

/-! ### What the application is told -/

variable (now)

/-- What is promised about an operation that is polled without a timeout or has
callbacks set. -/
structure PathsAgree (q : PollReq d) : Prop where
  /-- If a post-processing function fails, both ways report the failure and its
  code. -/
  failure : ∀ rc < 0, q.how = .ppErr rc →
    (∃ R p, Stops (pollStep d now) (pollInit [q] mioTimeNever) R (.ok (1, [p])) ∧
      p.mpRetstate = .failed ∧ p.mopRc = rc) ∧
    ∃ R seq, Stops (cbStep d) ⟨q.st, []⟩ R (.ok (.failed rc), seq)
  /-- If nothing fails, both ways make the same calls and report success. -/
  success : q.how = .completed → ∃ seq,
    (∃ R p, Stops (pollStep d now) (pollInit [q] mioTimeNever) R (.ok (1, [p])) ∧
      p.mpRetstate = .completed ∧ p.mopRc = 0 ∧ p.calls.map Prod.snd = seq) ∧
    ∃ R, Stops (cbStep d) ⟨q.st, []⟩ R (.ok (.complete 0), seq)

/-- **Both ways report what they should if and only if no post-processing function
of the chain fails.** -/
theorem pathsAgree_iff (q : PollReq d) : PathsAgree now q ↔ ∀ rc < 0, q.how ≠ .ppErr rc := by
  obtain ⟨seq, hpoll, hcb⟩ := paths_spec now q.ends
  constructor
  · intro hagree rc hrc hhow
    obtain ⟨-, R, seq', hfailed⟩ := hagree.failure rc hrc hhow
    obtain ⟨R', hcomplete⟩ := hcb []
    rw [hhow] at hcomplete
    exact absurd (hfailed.unique hcomplete).2 (by simp [OpEnd.cbReport])
  · intro hhow
    refine ⟨fun rc hrc h => absurd h (hhow rc hrc), fun h => ⟨seq, ?_, ?_⟩⟩
    · obtain ⟨R, res, hstops, hrep⟩ := hpoll q.init 0 rfl
      rw [h] at hrep
      obtain ⟨p, rfl, hret, hrc, hcalls⟩ := hrep
      exact ⟨R, p, hstops, hret, hrc, hcalls⟩
    · obtain ⟨R, hstops⟩ := hcb []
      rw [h] at hstops
      exact ⟨R, hstops⟩

/-- A write of three bytes with pages of two bytes and room for one byte in an op:
each byte of the first page goes in an op of its own, and the second page, which
is written as a whole, is too large for one. -/
def tooBigReq : PollReq (motrObjDrvOps ⟨1⟩) where
  st := (submittedWrite 1 0 [⟨0, 0, 3⟩]).get (by decide +kernel)
  fins _ := true
  len := 2
  how := .ppErr (-E2BIG)
  ends := DrvOps.ends_of_findEnd (x := (2, .ppErr (-E2BIG))) 3 (by decide +kernel)

/-- **A write that cannot be finished is reported as a success.** -/
theorem not_pathsAgree_tooBig : ¬PathsAgree (fun _ => 0) tooBigReq := by
  intro hagree
  obtain ⟨-, R, seq, hfailed⟩ := hagree.failure (-E2BIG) (by decide) rfl
  have hrun : (loopN (cbStep (motrObjDrvOps ⟨1⟩)) 3 ⟨tooBigReq.st, []⟩).map
      (fun res => res.1.toOption) = some (some (.complete 0)) := by
    decide +kernel
  obtain ⟨res, hres, hval⟩ := Option.map_eq_some_iff.mp hrun
  obtain ⟨R', hstops⟩ := stops_of_loopN hres
  obtain rfl := (hfailed.unique hstops).2
  exact absurd hval (by simp [Except.toOption])

end CortxMio
