import CortxMio.Obj.Chain

/-!
# Driver ops as the library sees them

Behind one operation of the application stands a chain of driver ops, of which
only the head is in flight. The library knows two things about it: the return
code of the Motr op at the head, once that op has finished, and the
post-processing function of the head, which may put a new driver op there
(`CortxMio.DrvOps`). The function returns `MIO_DRV_OP_NEXT` if it has launched a
new op and `MIO_DRV_OP_FINAL` if it has not; it fails with a negative code.

How long a chain is and how it ends does not depend on who drives it
(`CortxMio.DrvOps.Ends`). Two drivers do: `mio_op_poll` and the callbacks set on
the Motr ops.
-/

namespace CortxMio

/-- `MIO_DRV_OP_NEXT`. -/
abbrev mioDrvOpNext : ℤ := 0

/-- `MIO_DRV_OP_FINAL`. -/
abbrev mioDrvOpFinal : ℤ := 1

/-- `ETIMEDOUT`. -/
abbrev ETIMEDOUT : ℤ := 110

/-- The driver ops behind an operation in state `s`, the head of the chain being
part of the state. -/
structure DrvOps (σ : Type*) where
  /-- `m0_rc` of the Motr op at the head, when it has finished. -/
  m0Rc : σ → ℤ
  /-- `mdo_post_proc` of the head: `none` if it is not set, otherwise what a call
  returns and what it makes of the operation, or why it does not return. -/
  postProc : σ → Option (Except Fault (ℤ × σ))

/-- How a chain ends. -/
inductive OpEnd
  /-- The last driver op has completed, and nothing is left to do. -/
  | completed
  /-- A Motr op has failed with this code. -/
  | failed (rc : ℤ)
  /-- A post-processing function has returned this code. -/
  | ppErr (rc : ℤ)
  deriving DecidableEq, Repr

variable {σ : Type*}

/-- From the state `s` on the chain has `n` driver ops, the last of which ends it
in the given way. -/
inductive DrvOps.Ends (d : DrvOps σ) : σ → ℕ → OpEnd → Prop
  /-- The Motr op fails. -/
  | failed {s : σ} (hrc : d.m0Rc s < 0) : Ends d s 1 (.failed (d.m0Rc s))
  /-- There is nothing to be done after the op. -/
  | noPp {s : σ} (hrc : 0 ≤ d.m0Rc s) (hpp : d.postProc s = none) : Ends d s 1 .completed
  /-- The post-processing function says so. -/
  | final {s s' : σ} (hrc : 0 ≤ d.m0Rc s) (hpp : d.postProc s = some (.ok (mioDrvOpFinal, s'))) :
      Ends d s 1 .completed
  /-- The post-processing function fails. -/
  | ppErr {s s' : σ} {rc : ℤ} (hrc : 0 ≤ d.m0Rc s) (hpp : d.postProc s = some (.ok (rc, s')))
      (hnext : rc ≠ mioDrvOpNext) (hfinal : rc ≠ mioDrvOpFinal) : Ends d s 1 (.ppErr rc)
  /-- The post-processing function launches another op. -/
  | next {s s' : σ} {n : ℕ} {e : OpEnd} (hrc : 0 ≤ d.m0Rc s)
      (hpp : d.postProc s = some (.ok (mioDrvOpNext, s'))) (hrest : Ends d s' n e) :
      Ends d s (n + 1) e

/-- A chain has at least one driver op. -/
theorem DrvOps.Ends.pos {d : DrvOps σ} {s : σ} {n : ℕ} {e : OpEnd} (h : d.Ends s n e) : 0 < n := by
  cases h <;> omega

/-- Follow a chain for at most so many driver ops: its length, and how it
ends. -/
def DrvOps.findEnd (d : DrvOps σ) : ℕ → σ → Option (ℕ × OpEnd)
  | 0, _ => none
  | fuel + 1, s =>
      if d.m0Rc s < 0 then some (1, .failed (d.m0Rc s))
      else match d.postProc s with
        | none => some (1, .completed)
        | some (.error _) => none
        | some (.ok (rc, s')) =>
            if rc = mioDrvOpNext then (d.findEnd fuel s').map fun x => (x.1 + 1, x.2)
            else if rc = mioDrvOpFinal then some (1, .completed)
            else some (1, .ppErr rc)

/-- What is found is so. -/
theorem DrvOps.ends_of_findEnd {d : DrvOps σ} (fuel : ℕ) {s : σ} {x : ℕ × OpEnd}
    (h : d.findEnd fuel s = some x) : d.Ends s x.1 x.2 := by
  induction fuel generalizing s x with
  | zero => exact absurd h (by simp [findEnd])
  | succ fuel ih =>
    rw [findEnd] at h
    split_ifs at h with hrc
    · obtain rfl := Option.some.inj h
      exact .failed hrc
    · rw [not_lt] at hrc
      split at h
      · next hpp =>
        obtain rfl := Option.some.inj h
        exact .noPp hrc hpp
      · exact absurd h (by simp)
      · next rc s' hpp =>
        split_ifs at h with hnext hfinal
        · obtain ⟨y, hy, rfl⟩ := Option.map_eq_some_iff.mp h
          exact .next hrc (hnext ▸ hpp) (ih hy)
        · obtain rfl := Option.some.inj h
          exact .final hrc (hfinal ▸ hpp)
        · obtain rfl := Option.some.inj h
          exact .ppErr hrc hpp hnext hfinal

/-! ### Motr -/

/-- `enum mio_op_state`. -/
inductive MioOpState
  /-- `MIO_OP_ONFLY`. -/
  | onfly
  /-- `MIO_OP_COMPLETED`. -/
  | completed
  /-- `MIO_OP_FAILED`. -/
  | failed
  deriving DecidableEq, Repr

/-- `mio_motr_op_wait`, with what `m0_op_wait` and `m0_rc` return: the return code
and the state of the operation. -/
def mioMotrOpWait (rc m0Rc : ℤ) : ℤ × MioOpState :=
  if rc = 0 then
    if m0Rc < 0 then (m0Rc, .failed) else (rc, .completed)
  else if rc = -ETIMEDOUT then (rc, .onfly)
  else (rc, .failed)

/-- The return code of a post-processing function. -/
def DrvOpRc.code : DrvOpRc → ℤ
  | .next => mioDrvOpNext
  | .final => mioDrvOpFinal

/-- The driver ops behind a read or a write, when all Motr ops succeed: Motr
completes the op at the head, then the post-processing function is called. -/
def motrObjDrvOps (conf : MioMotrConfig) : DrvOps IoState where
  m0Rc _ := 0
  postProc s :=
    let (cluster, mem) := s.op.head.mdoOp.exec s.cluster s.op.mem
    let op := { s.op with mem := mem }
    match postProc conf s.obj op with
    | .ok (rc, obj, op) => some (.ok (rc.code, ⟨cluster, obj, op⟩))
    | .error (.err rc) => some (.ok (rc, ⟨cluster, s.obj, op⟩))
    | .error f => some (.error f)

end CortxMio
