import CortxMio.Lib.Fallible
import CortxMio.Op.Driver
import Mathlib.Data.Nat.Count
import Mathlib.Data.List.Forall2

/-!
# Polling operations

`mio_op_poll` waits for a number of operations. It goes round after round over all
of them, waits for the driver op at the head of each chain, calls the
post-processing function of the head when that op has completed, and counts the
operations that are done, in one counter over all rounds. An operation that is
done is not taken out: it is polled, post-processed and counted again in every
further round.

`CortxMio.pollOk_iff` says for which requests this does no harm: with
`MIO_TIME_NEVER` those whose chains all have the same length, and with a finite
timeout those none of whose chains ends before the last round.
-/

namespace CortxMio

open Lib

/-- `MIO_TIME_NEVER`. -/
def mioTimeNever : UInt64 := 0xFFFFFFFFFFFFFFFF

variable {σ : Type*}

/-! ### The loop -/

/-- `struct mio_pollop` with the operation it points to. -/
structure PollOp (σ : Type*) where
  /-- The operation and the driver op at the head of its chain. -/
  st : σ
  /-- In which rounds `m0_op_wait` finds the Motr op at the head finished before
  the timeout. -/
  fins : ℕ → Bool
  /-- The Motr op at the head has finished. -/
  finished : Bool
  /-- `mp_retstate`. -/
  mpRetstate : MioOpState
  /-- `mop_rc`. -/
  mopRc : ℤ
  /-- How many driver ops of the chain came before the head. -/
  pos : ℕ
  /-- The calls of post-processing functions so far: the driver op of the chain
  each belonged to, and the state in which it was made. -/
  calls : List (ℕ × σ)
  /-- The driver op at the head has completed, and a post-processing function
  was set for it. -/
  headPp : Bool
  /-- The whole chain has finished or failed. -/
  ended : Bool

variable (d : DrvOps σ)

/-- One operation in one round, and whether it is done (`op_done`). A wait
without timeout ends only when the Motr op has finished, and a finished op stays
finished. -/
def pollOne (timeout : UInt64) (round : ℕ) (p : PollOp σ) : Except Fault (PollOp σ × Bool) :=
  let finished := p.finished || (timeout == mioTimeNever || p.fins round)
  let (mopRc, retstate) := mioMotrOpWait (if finished then 0 else -ETIMEDOUT) (d.m0Rc p.st)
  let p := { p with finished := finished, mopRc := mopRc, mpRetstate := retstate }
  match retstate with
  | .completed =>
      match d.postProc p.st with
      | some (.error f) => .error f
      | some (.ok (rc, st)) =>
          let p := { p with st := st, calls := p.calls ++ [(p.pos, p.st)], headPp := true }
          if rc = mioDrvOpNext then
            .ok ({ p with
              mpRetstate := .onfly, finished := false, pos := p.pos + 1, headPp := false }, false)
          else if rc = mioDrvOpFinal then .ok ({ p with ended := true }, true)
          else .error .abort
      | none => .ok ({ p with ended := true }, true)
  | .failed => .ok ({ p with ended := true }, true)
  | .onfly => .ok (p, false)

/-- The loop over all operations, with `nr_done`. -/
def pollRound (timeout : UInt64) (round : ℕ) :
    List (PollOp σ) → ℕ → Except Fault (List (PollOp σ) × ℕ)
  | [], nrDone => .ok ([], nrDone)
  | p :: ps, nrDone => do
      let (p, opDone) ← pollOne d timeout round p
      let (ps, nrDone) ← pollRound timeout round ps (if opDone then nrDone + 1 else nrDone)
      .ok (p :: ps, nrDone)

/-- The variables of `mio_op_poll`. -/
structure PollState (σ : Type*) where
  /-- `ops`. -/
  ops : List (PollOp σ)
  /-- `nr_done`. -/
  nrDone : ℕ
  /-- `timeout`. -/
  timeout : UInt64
  /-- How often the loop has come to `again`. -/
  round : ℕ

/-- `end - start` after a round. The clock is read at the start and then after
each round. -/
def elapsed (now : ℕ → UInt64) (round : ℕ) : UInt64 := now (round + 1) - now 0

/-- `mio_op_poll` from one `again` to the next. -/
def pollStep (now : ℕ → UInt64) (s : PollState σ) :
    PollState σ ⊕ Except Fault (ℕ × List (PollOp σ)) :=
  match pollRound d s.timeout s.round s.ops s.nrDone with
  | .error f => .inr (.error f)
  | .ok (ops, nrDone) =>
      if s.timeout = mioTimeNever ∧ nrDone ≠ ops.length then
        .inl ⟨ops, nrDone, s.timeout, s.round + 1⟩
      else if s.timeout ≠ mioTimeNever ∧ elapsed now s.round < s.timeout then
        .inl ⟨ops, nrDone, s.timeout - elapsed now s.round, s.round + 1⟩
      else .inr (.ok (nrDone, ops))

/-- An operation handed to `mio_op_poll`: its chain is finite. -/
structure PollReq where
  /-- The operation and the driver op in flight. -/
  st : σ
  /-- In which rounds the Motr op at the head is found finished. -/
  fins : ℕ → Bool
  /-- The length of the chain. -/
  len : ℕ
  /-- How it ends. -/
  how : OpEnd
  /-- That it does. -/
  ends : d.Ends st len how

/-- The operation before it is polled. -/
def PollReq.init {d : DrvOps σ} (q : PollReq d) : PollOp σ where
  st := q.st
  fins := q.fins
  finished := false
  mpRetstate := .onfly
  mopRc := 0
  pos := 0
  calls := []
  headPp := false
  ended := false

/-- The start of `mio_op_poll`. -/
def pollInit {d : DrvOps σ} (qs : List (PollReq d)) (timeout : UInt64) : PollState σ :=
  ⟨qs.map PollReq.init, 0, timeout, 0⟩

/-! ### One operation in one round -/

/-- How often the post-processing function of the `j`-th driver op has been
called. -/
def PollOp.callsOf (p : PollOp σ) (j : ℕ) : ℕ := (p.calls.map Prod.fst).count j

/-- The driver op of the chain has completed, and a post-processing function was
set for it. -/
def PollOp.Completed (p : PollOp σ) (j : ℕ) : Prop := j < p.pos ∨ j = p.pos ∧ p.headPp = true

instance (p : PollOp σ) (j : ℕ) : Decidable (p.Completed j) := inferInstanceAs (Decidable (_ ∨ _))

/-- The post-processing function of every completed driver op has been called
exactly once, and no other. -/
def PollOp.PpOnce (p : PollOp σ) : Prop := ∀ j, p.callsOf j = if p.Completed j then 1 else 0

/-- How many driver ops of the chain are found finished in the first `r`
rounds. -/
def PollReq.seen {d : DrvOps σ} (q : PollReq d) (timeout : UInt64) (r : ℕ) : ℕ :=
  Nat.count (fun i => (timeout == mioTimeNever || q.fins i) = true) r

/-- The end of a chain that a post-processing function has not brought about by
failing. -/
def OpEnd.Orderly (e : OpEnd) : Prop := ∀ rc, e ≠ .ppErr rc

variable {d}

/-- An operation that is still on the fly after `r` rounds. -/
structure PollReq.Fresh (q : PollReq d) (timeout : UInt64) (r : ℕ) (p : PollOp σ) : Prop where
  /-- It has not ended. -/
  ended : p.ended = false
  /-- The Motr op at the head has not finished. -/
  finished : p.finished = false
  /-- Nor has it completed. -/
  headPp : p.headPp = false
  /-- When it will is up to the environment. -/
  fins : p.fins = q.fins
  /-- Every driver op that was found finished has made place for the next. -/
  pos : p.pos = q.seen timeout r
  /-- Each of them has been post-processed. -/
  calls : p.calls.map Prod.fst = List.range p.pos
  /-- There are driver ops left. -/
  lt : p.pos < q.len
  /-- That is, the rest of the chain. -/
  rest : d.Ends p.st (q.len - p.pos) q.how

/-- An operation that has ended and is polled again: if it is post-processed
again, it is for the driver op that has been post-processed before. -/
structure PollOp.Over (d : DrvOps σ) (p : PollOp σ) : Prop where
  /-- It has ended. -/
  ended : p.ended = true
  /-- The Motr op at the head has finished. -/
  finished : p.finished = true
  /-- Why. -/
  why : 1 ≤ p.callsOf p.pos ∨ d.m0Rc p.st < 0 ∨ d.postProc p.st = none

section One

variable {q : PollReq d} {timeout : UInt64} {r : ℕ} {p p' : PollOp σ} {opDone : Bool}

theorem PollReq.fresh_init (q : PollReq d) (timeout : UInt64) : q.Fresh timeout 0 q.init where
  ended := rfl
  finished := rfl
  headPp := rfl
  fins := rfl
  pos := by simp [PollReq.init, PollReq.seen]
  calls := rfl
  lt := q.ends.pos
  rest := q.ends

theorem PollReq.Fresh.ppOnce (h : q.Fresh timeout r p) : p.PpOnce := by
  intro j
  have hcompleted : p.Completed j ↔ j < p.pos := by simp [PollOp.Completed, h.headPp]
  rw [PollOp.callsOf, h.calls, List.nodup_range.count]
  simp only [List.mem_range, hcompleted]

theorem PollReq.seen_succ (q : PollReq d) (timeout : UInt64) (r : ℕ) : q.seen timeout (r + 1) =
    q.seen timeout r + if (timeout == mioTimeNever || q.fins r) = true then 1 else 0 :=
  Nat.count_succ _ _

/-- An operation whose head has not finished stays as it is. -/
theorem pollOne_waiting (hfin : (p.finished || (timeout == mioTimeNever || p.fins r)) = false) :
    pollOne d timeout r p =
      .ok ({ p with finished := false, mopRc := -ETIMEDOUT, mpRetstate := .onfly }, false) := by
  simp [pollOne, hfin, mioMotrOpWait]

/-- An operation whose head has failed is done. -/
theorem pollOne_failed (hfin : (p.finished || (timeout == mioTimeNever || p.fins r)) = true)
    (hrc : d.m0Rc p.st < 0) :
    pollOne d timeout r p = .ok ({ p with
      finished := true, mopRc := d.m0Rc p.st, mpRetstate := .failed, ended := true }, true) := by
  simp [pollOne, hfin, mioMotrOpWait, hrc]

/-- An operation whose head has completed is done if there is nothing to be done
after it. -/
theorem pollOne_noPp (hfin : (p.finished || (timeout == mioTimeNever || p.fins r)) = true)
    (hrc : 0 ≤ d.m0Rc p.st) (hpp : d.postProc p.st = none) :
    pollOne d timeout r p = .ok ({ p with
      finished := true, mopRc := 0, mpRetstate := .completed, ended := true }, true) := by
  simp [pollOne, hfin, mioMotrOpWait, not_lt.mpr hrc, hpp]

/-- An operation whose head has completed is post-processed. -/
theorem pollOne_pp {rc : ℤ} {st : σ}
    (hfin : (p.finished || (timeout == mioTimeNever || p.fins r)) = true)
    (hrc : 0 ≤ d.m0Rc p.st) (hpp : d.postProc p.st = some (.ok (rc, st))) :
    pollOne d timeout r p =
      if rc = mioDrvOpNext then
        .ok ({ p with
          st := st, finished := false, mopRc := 0, mpRetstate := .onfly, pos := p.pos + 1
          calls := p.calls ++ [(p.pos, p.st)], headPp := false }, false)
      else if rc = mioDrvOpFinal then
        .ok ({ p with
          st := st, finished := true, mopRc := 0, mpRetstate := .completed
          calls := p.calls ++ [(p.pos, p.st)], headPp := true, ended := true }, true)
      else .error .abort := by
  simp [pollOne, hfin, mioMotrOpWait, not_lt.mpr hrc, hpp]

/-- One more round for an operation whose next driver op, if it is found finished,
is not the last. -/
theorem PollReq.Fresh.next (h : q.Fresh timeout r p) (hlt : q.seen timeout (r + 1) < q.len) :
    ∃ p', pollOne d timeout r p = .ok (p', false) ∧ q.Fresh timeout (r + 1) p' := by
  have hseen := q.seen_succ timeout r
  by_cases hfin : (timeout == mioTimeNever || q.fins r) = true
  · rw [if_pos hfin] at hseen
    have hhead : (p.finished || (timeout == mioTimeNever || p.fins r)) = true := by
      rw [h.fins, hfin, Bool.or_true]
    have hrest := h.rest
    obtain ⟨n, hn⟩ : ∃ n, q.len - p.pos = n + 1 + 1 := ⟨q.len - p.pos - 2, by
      have := h.pos
      omega⟩
    rw [hn] at hrest
    cases hrest with
    | next hrc hpp hrest =>
      refine ⟨_, by rw [pollOne_pp hhead hrc hpp, if_pos rfl], ?_⟩
      refine ⟨h.ended, rfl, rfl, h.fins, by rw [h.pos, hseen], ?_, ?_, ?_⟩
      · rw [List.map_append, h.calls, List.range_succ]
        rfl
      · have := h.pos
        show p.pos + 1 < q.len
        omega
      · rwa [show q.len - (p.pos + 1) = n + 1 by omega]
  · rw [if_neg hfin, Nat.add_zero] at hseen
    refine ⟨_, pollOne_waiting (by simpa [h.finished, h.fins] using hfin), ?_⟩
    exact ⟨h.ended, rfl, h.headPp, h.fins, by rw [h.pos, hseen, Nat.add_zero], h.calls, h.lt,
      h.rest⟩

/-- The round in which the last driver op of a chain is found finished. -/
theorem PollReq.Fresh.last (h : q.Fresh timeout r p) (hle : q.len ≤ q.seen timeout (r + 1)) :
    (p.finished || (timeout == mioTimeNever || p.fins r)) = true ∧ d.Ends p.st 1 q.how := by
  have hseen := q.seen_succ timeout r
  have hlt := h.lt
  rw [h.pos] at hlt
  by_cases hfin : (timeout == mioTimeNever || q.fins r) = true
  · refine ⟨by rw [h.fins, hfin, Bool.or_true], ?_⟩
    rw [if_pos hfin] at hseen
    have hrest := h.rest
    rwa [h.pos, show q.len - q.seen timeout r = 1 by omega] at hrest
  · rw [if_neg hfin] at hseen
    omega

/-- A chain that a failing post-processing function ends takes the whole call
with it. -/
theorem PollReq.Fresh.abort (h : q.Fresh timeout r p) (hle : q.len ≤ q.seen timeout (r + 1))
    (herr : ¬q.how.Orderly) : pollOne d timeout r p = .error .abort := by
  obtain ⟨hfin, hend⟩ := h.last hle
  obtain ⟨rc, hrc⟩ : ∃ rc, q.how = .ppErr rc := by simpa [OpEnd.Orderly] using herr
  rw [hrc] at hend
  cases hend with
  | ppErr hm0 hpp hnext hfinal => rw [pollOne_pp hfin hm0 hpp, if_neg hnext, if_neg hfinal]
  | next _ _ hrest => exact absurd hrest.pos (lt_irrefl 0)

/-- A chain that ends otherwise is done in that round, and has been
post-processed as it should be. -/
theorem PollReq.Fresh.done (h : q.Fresh timeout r p) (hle : q.len ≤ q.seen timeout (r + 1))
    (hend : q.how.Orderly) :
    ∃ p', pollOne d timeout r p = .ok (p', true) ∧ p'.Over d ∧ p'.PpOnce ∧
      p'.mpRetstate ≠ .onfly := by
  obtain ⟨hfin, hlast⟩ := h.last hle
  have honce := h.ppOnce
  generalize q.how = e at hlast hend
  cases hlast with
  | failed hrc =>
    exact ⟨_, pollOne_failed hfin hrc, ⟨rfl, rfl, .inr (.inl hrc)⟩, honce, by simp⟩
  | noPp hrc hpp =>
    exact ⟨_, pollOne_noPp hfin hrc hpp, ⟨rfl, rfl, .inr (.inr hpp)⟩, honce, by simp⟩
  | final hrc hpp =>
    refine ⟨_, by rw [pollOne_pp hfin hrc hpp, if_neg (by decide), if_pos rfl], ?_, ?_, by simp⟩
    · refine ⟨rfl, rfl, .inl ?_⟩
      simp [PollOp.callsOf]
    · intro j
      have hj := honce j
      simp only [PollOp.callsOf, PollOp.Completed, h.headPp, List.map_append, List.count_append,
        List.map_cons, List.map_nil] at hj ⊢
      by_cases hpos : p.pos = j
      · simp_all
      · rw [hj]
        simp [hpos, Ne.symm hpos]
  | ppErr => exact absurd rfl (hend _)
  | next _ _ hrest => exact absurd hrest.pos (lt_irrefl 0)

/-- An operation that has ended is done again, or it is post-processed a second
time. -/
theorem PollOp.Over.again (h : p.Over d) (hone : pollOne d timeout r p = .ok (p', opDone)) :
    (∃ j, 2 ≤ p'.callsOf j) ∨ p'.Over d ∧ opDone = true := by
  have hfin : (p.finished || (timeout == mioTimeNever || p.fins r)) = true := by
    rw [h.finished, Bool.true_or]
  by_cases hrc : d.m0Rc p.st < 0
  · rw [pollOne_failed hfin hrc] at hone
    obtain ⟨rfl, rfl⟩ : _ = p' ∧ true = opDone := by simpa using hone
    exact .inr ⟨⟨rfl, rfl, .inr (.inl hrc)⟩, rfl⟩
  · rw [not_lt] at hrc
    rcases hpp : d.postProc p.st with - | (f | ⟨rc, st⟩)
    · rw [pollOne_noPp hfin hrc hpp] at hone
      obtain ⟨rfl, rfl⟩ : _ = p' ∧ true = opDone := by simpa using hone
      exact .inr ⟨⟨rfl, rfl, .inr (.inr hpp)⟩, rfl⟩
    · simp [pollOne, hfin, mioMotrOpWait, not_lt.mpr hrc, hpp] at hone
    · have hcalled : 1 ≤ p.callsOf p.pos := by
        rcases h.why with hwhy | hwhy | hwhy
        · exact hwhy
        · omega
        · rw [hpp] at hwhy
          exact absurd hwhy (by simp)
      rw [pollOne_pp hfin hrc hpp] at hone
      refine .inl ⟨p.pos, ?_⟩
      have hcalls : p'.calls = p.calls ++ [(p.pos, p.st)] := by
        split_ifs at hone <;> simp_all <;> rw [← hone.1]
      rw [PollOp.callsOf] at hcalled ⊢
      rw [hcalls, List.map_append, List.count_append]
      simpa using hcalled

end One

/-! ### One round -/

/-- An element of the second of two lists that go together has one of the first
that goes with it. -/
theorem exists_left_of_mem {α β : Type*} {R : α → β → Prop} {as : List α} {bs : List β}
    (h : List.Forall₂ R as bs) {b : β} (hb : b ∈ bs) : ∃ a ∈ as, R a b := by
  induction h with
  | nil => exact absurd hb (by simp)
  | @cons a b' as bs hab _ ih =>
    rcases List.mem_cons.mp hb with rfl | hb
    · exact ⟨a, by simp, hab⟩
    · obtain ⟨a', ha', h⟩ := ih hb
      exact ⟨a', by simp [ha'], h⟩

/-- The same the other way round. -/
theorem exists_right_of_mem {α β : Type*} {R : α → β → Prop} {as : List α} {bs : List β}
    (h : List.Forall₂ R as bs) {a : α} (ha : a ∈ as) : ∃ b ∈ bs, R a b :=
  exists_left_of_mem h.flip ha

section Round

variable {timeout timeout' : UInt64} {r : ℕ} {ps : List (PollOp σ)} {n : ℕ}

/-- A round polls every operation, and counts those that are done. -/
theorem pollRound_ok {ps' : List (PollOp σ)} {n' : ℕ}
    (h : pollRound d timeout r ps n = .ok (ps', n')) :
    ∃ xs, List.Forall₂ (fun p x => pollOne d timeout r p = .ok x) ps xs ∧
      ps' = xs.map Prod.fst ∧ n' = n + xs.countP Prod.snd := by
  induction ps generalizing n ps' with
  | nil =>
    obtain ⟨rfl, rfl⟩ : [] = ps' ∧ n = n' := by simpa [pollRound] using h
    exact ⟨[], .nil, rfl, rfl⟩
  | cons p ps ih =>
    rw [pollRound] at h
    obtain ⟨x, hone, h⟩ := bind_eq_ok_iff.mp h
    obtain ⟨y, hrest, h⟩ := bind_eq_ok_iff.mp h
    obtain ⟨rfl, rfl⟩ : x.1 :: y.1 = ps' ∧ y.2 = n' := by simpa using h
    obtain ⟨xs, hxs, hfst, hcnt⟩ := ih hrest
    refine ⟨x :: xs, .cons hone hxs, by rw [hfst, List.map_cons], ?_⟩
    rw [hcnt, List.countP_cons]
    split_ifs <;> omega

/-- A round in which every operation can be polled. -/
theorem pollRound_eq {xs : List (PollOp σ × Bool)}
    (h : List.Forall₂ (fun p x => pollOne d timeout r p = .ok x) ps xs) :
    pollRound d timeout r ps n = .ok (xs.map Prod.fst, n + xs.countP Prod.snd) := by
  induction h generalizing n with
  | nil => rfl
  | cons hone _ ih =>
    rw [pollRound, hone]
    show (do
      let (ps, nrDone) ← pollRound d timeout r _ _
      Except.ok (_ :: ps, nrDone)) = _
    rw [ih, List.countP_cons]
    show Except.ok _ = _
    congr 2
    split_ifs <;> omega

/-- Only whether the timeout is `MIO_TIME_NEVER` matters for a round. -/
theorem pollRound_congr (h : timeout = mioTimeNever ↔ timeout' = mioTimeNever) :
    pollRound d timeout r ps n = pollRound d timeout' r ps n := by
  have hnever : (timeout == mioTimeNever) = (timeout' == mioTimeNever) := by
    rw [Bool.eq_iff_iff, beq_iff_eq, beq_iff_eq, h]
  induction ps generalizing n with
  | nil => rfl
  | cons p ps ih => simp only [pollRound, pollOne, hnever, ih]

end Round

/-! ### All operations in one round -/

/-- An operation after `r` rounds: on the fly, or ended in one of them. -/
def PollReq.Tie (q : PollReq d) (timeout : UInt64) (r : ℕ) (p : PollOp σ) : Prop :=
  q.Fresh timeout r p ∨ p.Over d ∧ q.len ≤ q.seen timeout r ∧ q.how.Orderly

/-- An operation that was on the fly before the `r`-th round, after it. -/
def PollReq.Upto (q : PollReq d) (timeout : UInt64) (r : ℕ) (p : PollOp σ) : Prop :=
  q.Fresh timeout r p ∨
    p.Over d ∧ q.len ≤ q.seen timeout r ∧ p.PpOnce ∧ p.mpRetstate ≠ .onfly

section All

variable {timeout : UInt64} {r : ℕ} {qs : List (PollReq d)} {ps ps' : List (PollOp σ)} {n n' : ℕ}

theorem PollReq.seen_mono (q : PollReq d) (timeout : UInt64) {r r' : ℕ} (h : r ≤ r') :
    q.seen timeout r ≤ q.seen timeout r' :=
  Nat.count_monotone _ h

/-- Polling an operation, whether it has ended or not. -/
theorem PollReq.Tie.step {q : PollReq d} {p p' : PollOp σ} {opDone : Bool}
    (h : q.Tie timeout r p) (hone : pollOne d timeout r p = .ok (p', opDone)) :
    (∃ j, 2 ≤ p'.callsOf j) ∨ q.Tie timeout (r + 1) p' ∧ opDone = p'.ended := by
  rcases h with h | ⟨hover, hle, hend⟩
  · by_cases hlt : q.seen timeout (r + 1) < q.len
    · obtain ⟨p'', hone', hfresh⟩ := h.next hlt
      obtain ⟨rfl, rfl⟩ : p'' = p' ∧ false = opDone := by simpa [hone'] using hone
      exact .inr ⟨.inl hfresh, hfresh.ended.symm⟩
    · rw [not_lt] at hlt
      by_cases hend : q.how.Orderly
      · obtain ⟨p'', hone', hover, -⟩ := h.done hlt hend
        obtain ⟨rfl, rfl⟩ : p'' = p' ∧ true = opDone := by simpa [hone'] using hone
        exact .inr ⟨.inr ⟨hover, hlt, hend⟩, hover.ended.symm⟩
      · rw [h.abort hlt hend] at hone
        exact absurd hone (by simp)
  · rcases hover.again hone with htwice | ⟨hover', rfl⟩
    · exact .inl htwice
    · refine .inr ⟨.inr ⟨hover', hle.trans (q.seen_mono timeout (by omega)), hend⟩, ?_⟩
      exact hover'.ended.symm

/-- Where an operation is done just if it has ended, as many are done as have
ended. -/
theorem countP_snd {xs : List (PollOp σ × Bool)}
    (h : List.Forall₂ (fun (_ : PollReq d) x => x.2 = x.1.ended) qs xs) :
    xs.countP Prod.snd = (xs.map Prod.fst).countP PollOp.ended := by
  induction h with
  | nil => rfl
  | cons hx _ ih => rw [List.countP_cons, List.map_cons, List.countP_cons, ih, hx]

/-- **A round**, as long as nothing is post-processed twice: the counter goes up by
the number of all operations that have ended so far. -/
theorem tie_of_pollRound (h : List.Forall₂ (fun q p => q.Tie timeout r p) qs ps)
    (hround : pollRound d timeout r ps n = .ok (ps', n'))
    (honce : ∀ p ∈ ps', ∀ j, p.callsOf j ≤ 1) :
    List.Forall₂ (fun q p => q.Tie timeout (r + 1) p) qs ps' ∧
      n' = n + ps'.countP PollOp.ended := by
  obtain ⟨xs, hxs, rfl, rfl⟩ := pollRound_ok hround
  have key : List.Forall₂ (fun q x => q.Tie timeout (r + 1) x.1 ∧ x.2 = x.1.ended) qs xs := by
    clear hround
    induction h generalizing xs with
    | nil =>
      cases hxs
      exact .nil
    | cons htie _ ih =>
      cases hxs with
      | @cons _ x _ xs hone hxs =>
        refine .cons ?_ (ih xs hxs fun p hp => honce p (List.mem_cons_of_mem _ hp))
        rcases htie.step hone with ⟨j, hj⟩ | h
        · have := honce x.1 (by simp) j
          omega
        · exact h
  constructor
  · rw [List.forall₂_map_right_iff]
    exact key.imp fun _ _ h => h.1
  · rw [countP_snd (key.imp fun _ _ h => h.2)]

/-- **A round before which every operation is on the fly.** If no failing
post-processing function ends a chain in it, the counter goes up by the number of
operations that end in it. -/
theorem upto_of_fresh (h : List.Forall₂ (fun q p => q.Fresh timeout r p) qs ps)
    (hend : ∀ q ∈ qs, q.len ≤ q.seen timeout (r + 1) → q.how.Orderly) :
    ∃ ps', pollRound d timeout r ps n = .ok (ps', n + ps'.countP PollOp.ended) ∧
      List.Forall₂ (fun q p => q.Upto timeout (r + 1) p) qs ps' := by
  have key : ∃ xs, List.Forall₂ (fun p x => pollOne d timeout r p = .ok x) ps xs ∧
      List.Forall₂ (fun q x => q.Upto timeout (r + 1) x.1 ∧ x.2 = x.1.ended) qs xs := by
    induction h with
    | nil => exact ⟨[], .nil, .nil⟩
    | @cons q p qs ps hfresh _ ih =>
      obtain ⟨xs, hxs, hupto⟩ := ih fun q hq => hend q (List.mem_cons_of_mem _ hq)
      by_cases hlt : q.seen timeout (r + 1) < q.len
      · obtain ⟨p', hone, hnext⟩ := hfresh.next hlt
        exact ⟨_, .cons hone hxs, .cons ⟨.inl hnext, hnext.ended.symm⟩ hupto⟩
      · rw [not_lt] at hlt
        obtain ⟨p', hone, hover, honce, hret⟩ := hfresh.done hlt (hend q (by simp) hlt)
        exact ⟨_, .cons hone hxs,
          .cons ⟨.inr ⟨hover, hlt, honce, hret⟩, hover.ended.symm⟩ hupto⟩
  obtain ⟨xs, hxs, hupto⟩ := key
  refine ⟨xs.map Prod.fst, ?_, ?_⟩
  · rw [pollRound_eq hxs, countP_snd (hupto.imp fun _ _ h => h.2)]
  · rw [List.forall₂_map_right_iff]
    exact hupto.imp fun _ _ h => h.1

/-- Operations that have not come to their ends are on the fly. -/
theorem fresh_of_upto (h : List.Forall₂ (fun q p => q.Upto timeout r p) qs ps)
    (hlt : ∀ q ∈ qs, q.seen timeout r < q.len) :
    List.Forall₂ (fun q p => q.Fresh timeout r p) qs ps ∧ ps.countP PollOp.ended = 0 := by
  induction h with
  | nil => exact ⟨.nil, rfl⟩
  | @cons q p qs ps hupto _ ih =>
    obtain ⟨hrest, hcount⟩ := ih fun q hq => hlt q (List.mem_cons_of_mem _ hq)
    rcases hupto with hfresh | ⟨-, hle, -⟩
    · exact ⟨.cons hfresh hrest, by simp [hcount, hfresh.ended]⟩
    · exact absurd (hlt q (by simp)) (not_lt.mpr hle)

end All

end CortxMio
