import CortxMio.Api.Entry
import CortxMio.Lib.Run
import Mathlib.Data.List.Count
import Mathlib.Data.List.Nodup

/-!
# Locks

`mio_obj_lock` and `mio_obj_unlock` on one handle, and what they call of Motr. The handle
has one field for this, `mo_drv_obj_lock`. It is set when a lock has been acquired, and
`mio_obj_unlock` returns what it points to; nothing sets it to `NULL` again, not when
the lock is returned and not when the object is opened.

So from the first lock on an unlock goes to Motr whether a lock is held or not, and a
second lock that is acquired takes the place of the first, which is never returned.
As long as an application does neither, every lock is returned once
(`CortxMio.locksPaired_iff`).

Which answers Motr gives is left open. Requests are numbered as they are allocated; none
of those that have been put into the handle is ever freed.
-/

namespace CortxMio

open Lib

/-! ### The calls -/

/-- A `struct m0_rm_lock_req` that `mo_drv_obj_lock` may point to. -/
inductive RmLockReq
  /-- What was in the memory of the handle before it was opened. -/
  | stale
  /-- A request by its number. -/
  | req (n : ℕ)
  deriving DecidableEq, Repr

/-- A call of Motr, and what it returns. -/
inductive M0LockCall
  /-- `m0_obj_lock_init`. -/
  | init (rc : ℤ)
  /-- `m0_obj_write_lock_get_sync`. -/
  | writeLockGetSync (n : ℕ) (rc : ℤ)
  /-- `m0_obj_lock_put`. -/
  | put (lock : RmLockReq)
  /-- `m0_obj_lock_fini`. -/
  | fini
  deriving DecidableEq, Repr

/-- `struct mio_obj`, as far as locks are concerned, and how many requests have been
allocated. -/
structure LockObj where
  /-- Whether `moo_lock` of `mo_drv_obj_ops` is set. -/
  mooLock : Bool
  /-- Whether `moo_unlock` is set. -/
  mooUnlock : Bool
  /-- Whether `mo_drv_obj` is set. -/
  moDrvObj : Bool
  /-- `mo_drv_obj_lock`, `none` for `NULL`. -/
  moDrvObjLock : Option RmLockReq
  /-- The number of requests so far. -/
  nrReqs : ℕ
  deriving DecidableEq

/-- What a call finds: the answers of Motr and whether there is memory. -/
structure LockAnswers where
  /-- What `m0_obj_lock_init` returns. -/
  initRc : ℤ
  /-- Whether a request can be allocated. -/
  alloc : Bool
  /-- What `m0_obj_write_lock_get_sync` returns. -/
  getRc : ℤ
  deriving DecidableEq

/-- What is returned, and what has been called. -/
abbrev LockReply := ℤ × List M0LockCall

/-- `mio_motr_obj_lock`. -/
def mioMotrObjLock (ans : LockAnswers) (obj : LockObj) : LockReply × LockObj :=
  if obj.moDrvObj = false then ((-EINVAL, []), obj)
  else if ans.initRc ≠ 0 then ((ans.initRc, [.init ans.initRc]), obj)
  else if ans.alloc = false then ((-ENOMEM, [.init 0, .fini]), obj)
  else
    let n := obj.nrReqs
    let obj := { obj with nrReqs := n + 1 }
    if ans.getRc < 0 then ((ans.getRc, [.init 0, .writeLockGetSync n ans.getRc, .fini]), obj)
    else ((0, [.init 0, .writeLockGetSync n ans.getRc]),
      { obj with moDrvObjLock := some (.req n) })

/-- `mio_motr_obj_unlock`. -/
def mioMotrObjUnlock (obj : LockObj) : LockReply × LockObj :=
  if obj.moDrvObj = false then ((-EINVAL, []), obj)
  else match obj.moDrvObjLock with
    | none => ((-EINVAL, []), obj)
    | some rmLock => ((0, [.put rmLock, .fini]), obj)

/-- `obj_lock_check`. -/
def objLockCheck (inst : Option Entry.Mio) (obj : Option LockObj) : ℤ :=
  if Entry.mioInstanceCheck inst < 0 then Entry.mioInstanceCheck inst
  else match obj with
    | none => -EINVAL
    | some obj => if obj.mooLock = false ∨ obj.mooUnlock = false then -EOPNOTSUPP else 0

/-- `mio_obj_lock`. -/
def mioObjLock (inst : Option Entry.Mio) (ans : LockAnswers) (obj : LockObj) :
    LockReply × LockObj :=
  if objLockCheck inst (some obj) ≠ 0 then ((objLockCheck inst (some obj), []), obj)
  else mioMotrObjLock ans obj

/-- `mio_obj_unlock`. -/
def mioObjUnlock (inst : Option Entry.Mio) (obj : LockObj) : LockReply × LockObj :=
  if objLockCheck inst (some obj) ≠ 0 then ((objLockCheck inst (some obj), []), obj)
  else mioMotrObjUnlock obj

/-! ### Histories -/

/-- A call on a handle. -/
inductive LockCall
  /-- `mio_obj_lock`. -/
  | lock (ans : LockAnswers)
  /-- `mio_obj_unlock`. -/
  | unlock
  deriving DecidableEq

/-- One call. -/
def lockStep (inst : Option Entry.Mio) (obj : LockObj) : LockCall → Option (LockReply × LockObj)
  | .lock ans => some (mioObjLock inst ans obj)
  | .unlock => some (mioObjUnlock inst obj)

/-- A handle that has been opened with the Motr driver, in an instance that is set up. -/
structure OpenedObj where
  /-- `mio_instance`. -/
  inst : Option Entry.Mio
  /-- It passes its check. -/
  instanceCheck : Entry.mioInstanceCheck inst = 0
  /-- `mo_drv_obj_lock`, which opening an object leaves as it is. -/
  moDrvObjLock : Option RmLockReq

/-- The handle before the first call. -/
def OpenedObj.obj (o : OpenedObj) : LockObj := ⟨true, true, true, o.moDrvObjLock, 0⟩

/-- What has been called, with what it came to. -/
abbrev LockHistory := List (LockCall × LockReply)

/-- All calls of Motr. -/
def motrCalls (es : LockHistory) : List M0LockCall := es.flatMap fun e => e.2.2

/-- The requests with which a lock has been acquired. -/
def locksGot (es : LockHistory) : List ℕ :=
  (motrCalls es).filterMap fun
    | .writeLockGetSync n rc => if rc < 0 then none else some n
    | _ => none

/-- The requests that have been returned. -/
def locksPut (es : LockHistory) : List RmLockReq :=
  (motrCalls es).filterMap fun
    | .put lock => some lock
    | _ => none

/-- How often `m0_obj_lock_init` has succeeded. -/
def nrInits (es : LockHistory) : ℕ := (motrCalls es).count (.init 0)

/-- How often `m0_obj_lock_fini` has been called. -/
def nrFinis (es : LockHistory) : ℕ := (motrCalls es).count .fini

/-- The lock that is held after one more call. -/
def heldAfter (held : Option ℕ) (e : LockCall × LockReply) : Option ℕ :=
  match e.1 with
  | .unlock => none
  | .lock _ => match locksGot [e] with
      | [] => held
      | n :: _ => some n

/-- The lock that the handle holds: the last one acquired, unless there was an unlock
since then. -/
def heldLock (es : LockHistory) : Option ℕ := es.foldl heldAfter none

/-- **Locks are paired**, up to now. -/
structure LocksPaired (es : LockHistory) : Prop where
  /-- A lock that has been acquired is returned once, or held and not returned yet. -/
  puts : ∀ n ∈ locksGot es,
    (locksPut es).count (.req n) = if heldLock es = some n then 0 else 1
  /-- What is finalised has been initialised. -/
  finis : nrFinis es ≤ nrInits es
  /-- An unlock without a lock is an error, and does not come to Motr. -/
  refused : ∀ pre reply, pre ++ [(.unlock, reply)] <+: es → heldLock pre = none →
    reply = (-EINVAL, [])

/-- Motr grants the lock. -/
def LockAnswers.Grants (ans : LockAnswers) : Prop :=
  ans.initRc = 0 ∧ ans.alloc = true ∧ 0 ≤ ans.getRc

instance (ans : LockAnswers) : Decidable ans.Grants := inferInstanceAs (Decidable (_ ∧ _))

/-- A call that the field of the handle is up to: an unlock when a lock is held, or
while there is nothing in the field yet, and no lock that is granted while one is
held. -/
def CallInOrder (o : OpenedObj) (pre : LockHistory) : LockCall → Prop
  | .lock ans => ans.Grants → heldLock pre = none
  | .unlock => (heldLock pre).isSome ∨ o.moDrvObjLock = none ∧ locksGot pre = []

/-- All calls are. -/
def LocksInOrder (o : OpenedObj) (es : LockHistory) : Prop :=
  ∀ pre e, pre ++ [e] <+: es → CallInOrder o pre e.1

/-! ### What a call does -/

/-- The handle of an object that is open. -/
structure LockObj.Opened (obj : LockObj) : Prop where
  /-- `moo_lock`. -/
  lock : obj.mooLock = true
  /-- `moo_unlock`. -/
  unlock : obj.mooUnlock = true
  /-- `mo_drv_obj`. -/
  drvObj : obj.moDrvObj = true

/-- **What a call can come to.** -/
inductive LockEffect (obj : LockObj) : LockCall → LockReply → LockObj → Prop
  /-- A lock that is not granted: what has been initialised is finalised. -/
  | denied {ans : LockAnswers} {reply : LockReply} {n : ℕ} :
      ¬ ans.Grants → locksGot [(.lock ans, reply)] = [] → locksPut [(.lock ans, reply)] = [] →
      nrFinis [(.lock ans, reply)] = nrInits [(.lock ans, reply)] → obj.nrReqs ≤ n →
      LockEffect obj (.lock ans) reply { obj with nrReqs := n }
  /-- A lock that is granted. -/
  | granted {ans : LockAnswers} : ans.Grants →
      LockEffect obj (.lock ans) (0, [.init 0, .writeLockGetSync obj.nrReqs ans.getRc])
        { obj with nrReqs := obj.nrReqs + 1, moDrvObjLock := some (.req obj.nrReqs) }
  /-- An unlock, with nothing in the field. -/
  | refused : obj.moDrvObjLock = none → LockEffect obj .unlock (-EINVAL, []) obj
  /-- An unlock that comes to Motr. -/
  | put {lock : RmLockReq} : obj.moDrvObjLock = some lock →
      LockEffect obj .unlock (0, [.put lock, .fini]) obj

theorem objLockCheck_opened {o : OpenedObj} {obj : LockObj} (hobj : obj.Opened) :
    objLockCheck o.inst (some obj) = 0 := by
  simp [objLockCheck, o.instanceCheck, hobj.lock, hobj.unlock]

theorem lockEffect_lock {obj : LockObj} (hobj : obj.Opened) (ans : LockAnswers) :
    LockEffect obj (.lock ans) (mioMotrObjLock ans obj).1 (mioMotrObjLock ans obj).2 := by
  rw [mioMotrObjLock, if_neg (by simp [hobj.drvObj])]
  split
  · next hinit =>
    refine .denied (fun hgrants => hinit hgrants.1) rfl rfl ?_ le_rfl
    simp [nrFinis, nrInits, motrCalls, hinit]
  · next hinit =>
    split
    · next halloc =>
      exact .denied (fun hgrants => by simp [hgrants.2.1] at halloc) rfl rfl rfl le_rfl
    · next halloc =>
      dsimp only
      split
      · next hget =>
        refine .denied (fun hgrants => not_lt.mpr hgrants.2.2 hget) ?_ rfl rfl (Nat.le_succ _)
        simp [locksGot, motrCalls, hget]
      · next hget =>
        exact .granted ⟨not_not.mp hinit, by simpa using halloc, not_lt.mp hget⟩

theorem lockEffect_unlock {obj : LockObj} (hobj : obj.Opened) :
    LockEffect obj .unlock (mioMotrObjUnlock obj).1 (mioMotrObjUnlock obj).2 := by
  rw [mioMotrObjUnlock, if_neg (by simp [hobj.drvObj])]
  split
  · next hnone => exact .refused hnone
  · next hsome => exact .put hsome

/-- **The effect of one call.** -/
theorem lockEffect_of_step {o : OpenedObj} {obj obj' : LockObj} {e : LockCall × LockReply}
    (hobj : obj.Opened) (h : StepOf (lockStep o.inst) obj e obj') :
    LockEffect obj e.1 e.2 obj' := by
  obtain ⟨call, reply⟩ := e
  have hcheck := objLockCheck_opened (o := o) hobj
  cases call with
  | lock ans =>
    rw [StepOf, lockStep, mioObjLock, hcheck, if_neg (not_not.mpr rfl)] at h
    have heffect := lockEffect_lock hobj ans
    rwa [Option.some.inj h] at heffect
  | unlock =>
    rw [StepOf, lockStep, mioObjUnlock, hcheck, if_neg (not_not.mpr rfl)] at h
    have heffect := lockEffect_unlock hobj
    rwa [Option.some.inj h] at heffect

/-! ### Histories that grow -/

variable (es : LockHistory) (e : LockCall × LockReply)

theorem locksGot_concat : locksGot (es ++ [e]) = locksGot es ++ locksGot [e] := by
  simp [locksGot, motrCalls]

theorem locksPut_concat : locksPut (es ++ [e]) = locksPut es ++ locksPut [e] := by
  simp [locksPut, motrCalls]

theorem nrInits_concat : nrInits (es ++ [e]) = nrInits es + nrInits [e] := by
  simp [nrInits, motrCalls]

theorem nrFinis_concat : nrFinis (es ++ [e]) = nrFinis es + nrFinis [e] := by
  simp [nrFinis, motrCalls]

theorem heldLock_concat : heldLock (es ++ [e]) = heldAfter (heldLock es) e := by
  simp [heldLock]

/-- A lock that was granted is the one that is held. -/
theorem acquired_granted {ans : LockAnswers} (h : ans.Grants) (n : ℕ) :
    locksGot [(.lock ans, (0, [.init 0, .writeLockGetSync n ans.getRc]))] = [n] := by
  simp [locksGot, motrCalls, not_lt.mpr h.2.2]

variable {es e} {o : OpenedObj} {obj obj' : LockObj}

/-- **What a handle has to do with its history**: the field is that of the last lock
acquired, held or not. -/
structure LockInv (o : OpenedObj) (es : LockHistory) (obj : LockObj) : Prop where
  /-- The object is open. -/
  opened : obj.Opened
  /-- The field. -/
  field : obj.moDrvObjLock = match (locksGot es).getLast? with
    | none => o.moDrvObjLock
    | some n => some (.req n)
  /-- The requests. -/
  lt : ∀ n ∈ locksGot es, n < obj.nrReqs
  /-- Every request is a new one. -/
  nodup : (locksGot es).Nodup
  /-- What is held is the last one. -/
  held : ∀ n, heldLock es = some n → (locksGot es).getLast? = some n

/-- What has been acquired so far is not what is acquired next. -/
theorem LockInv.ne (h : LockInv o es obj) {n : ℕ} (hn : n ∈ locksGot es) : n ≠ obj.nrReqs :=
  (h.lt n hn).ne

/-- A call that acquires nothing. -/
theorem LockInv.unchanged (h : LockInv o es obj) (hopened : obj'.Opened)
    (hfield : obj'.moDrvObjLock = obj.moDrvObjLock) (hreqs : obj.nrReqs ≤ obj'.nrReqs)
    (hacq : locksGot [e] = []) : LockInv o (es ++ [e]) obj' := by
  have hsame : locksGot (es ++ [e]) = locksGot es := by
    rw [locksGot_concat, hacq, List.append_nil]
  refine ⟨hopened, ?_, ?_, ?_, ?_⟩
  · rw [hsame, hfield, h.field]
  · rw [hsame]
    exact fun n hn => (h.lt n hn).trans_le hreqs
  · rw [hsame]
    exact h.nodup
  · intro n hn
    rw [hsame]
    refine h.held n ?_
    rw [heldLock_concat, heldAfter, hacq] at hn
    split at hn
    · cases hn
    · exact hn

/-- **One call** keeps what a handle has to do with its history. -/
theorem LockInv.step {call : LockCall} {reply : LockReply} (h : LockInv o es obj)
    (heffect : LockEffect obj call reply obj') : LockInv o (es ++ [(call, reply)]) obj' := by
  cases heffect with
  | denied hno hacq hret hfini hreqs =>
    exact h.unchanged ⟨h.opened.lock, h.opened.unlock, h.opened.drvObj⟩ rfl hreqs hacq
  | refused hnone => exact h.unchanged h.opened rfl le_rfl rfl
  | put hsome => exact h.unchanged h.opened rfl le_rfl rfl
  | granted hgrants =>
    have hnew := acquired_granted hgrants obj.nrReqs
    refine ⟨⟨h.opened.lock, h.opened.unlock, h.opened.drvObj⟩, ?_, ?_, ?_, ?_⟩
    · rw [locksGot_concat, hnew, List.getLast?_concat]
    · rw [locksGot_concat, hnew]
      intro n hn
      rcases List.mem_append.mp hn with hn | hn
      · exact (h.lt n hn).trans (Nat.lt_succ_self _)
      · rw [List.mem_singleton.mp hn]
        exact Nat.lt_succ_self _
    · rw [locksGot_concat, hnew]
      refine List.nodup_append.mpr ⟨h.nodup, by simp, ?_⟩
      rintro n hn m hm
      rw [List.mem_singleton.mp hm]
      exact h.ne hn
    · intro n hn
      rw [heldLock_concat, heldAfter, hnew] at hn
      rw [locksGot_concat, hnew, List.getLast?_concat]
      exact hn

/-- **After every history** of an open handle. -/
theorem lockInv_of_run (h : Run (StepOf (lockStep o.inst)) o.obj es obj) : LockInv o es obj := by
  refine h.inv (fun es obj => LockInv o es obj) ?_ ?_
  · exact ⟨⟨rfl, rfl, rfl⟩, rfl, by simp [locksGot, motrCalls], List.nodup_nil, by simp [heldLock]⟩
  · intro es e obj obj' hinv hstep
    exact hinv.step (lockEffect_of_step hinv.opened hstep)

/-! ### Calls in order -/

/-- **What is so as long as calls are in order.** -/
structure LocksOrdered (es : LockHistory) : Prop where
  /-- Locks are returned in the order in which they are acquired. -/
  pairs : (locksGot es).map RmLockReq.req =
    locksPut es ++ (heldLock es).toList.map RmLockReq.req
  /-- Only a lock that is held keeps something initialised. -/
  balance : nrFinis es + (heldLock es).toList.length = nrInits es
  /-- An unlock without a lock is an error, and does not come to Motr. -/
  refused : ∀ pre reply, pre ++ [(.unlock, reply)] <+: es → heldLock pre = none →
    reply = (-EINVAL, [])

/-- The calls of a longer history are in order if those of the shorter are, and the last. -/
theorem locksInOrder_concat_iff :
    LocksInOrder o (es ++ [e]) ↔ LocksInOrder o es ∧ CallInOrder o es e.1 := by
  constructor
  · intro h
    exact ⟨fun pre e' hpre => h pre e' (hpre.trans (List.prefix_append _ _)),
      h es e (List.prefix_refl _)⟩
  · rintro ⟨h, hlast⟩ pre e' hpre
    rcases List.prefix_concat_iff.mp hpre with heq | hpre
    · obtain ⟨rfl, hlast'⟩ := List.append_inj' heq rfl
      obtain rfl := List.singleton_inj.mp hlast'
      exact hlast
    · exact h pre e' hpre

/-- A field with nothing in it. -/
theorem LockInv.acquired_eq_nil (h : LockInv o es obj) (hnone : obj.moDrvObjLock = none) :
    o.moDrvObjLock = none ∧ locksGot es = [] := by
  have hfield := h.field
  rw [hnone] at hfield
  split at hfield
  · next hlast => exact ⟨hfield.symm, List.getLast?_eq_none_iff.mp hlast⟩
  · cases hfield

/-- An unlock that is refused is one more of its kind. -/
theorem refused_concat {call : LockCall} {reply : LockReply}
    (h : ∀ pre reply, pre ++ [(.unlock, reply)] <+: es → heldLock pre = none →
      reply = (-EINVAL, []))
    (hlast : call = .unlock → heldLock es = none → reply = (-EINVAL, [])) (pre : LockHistory)
    (reply' : LockReply) (hpre : pre ++ [(.unlock, reply')] <+: es ++ [(call, reply)])
    (hheld : heldLock pre = none) : reply' = (-EINVAL, []) := by
  rcases List.prefix_concat_iff.mp hpre with heq | hpre
  · obtain ⟨rfl, hlast'⟩ := List.append_inj' heq rfl
    obtain ⟨rfl, rfl⟩ := Prod.mk.inj (List.singleton_inj.mp hlast')
    exact hlast rfl hheld
  · exact h pre reply' hpre hheld

/-- **One call in order** keeps the locks in order. -/
theorem LocksOrdered.step {call : LockCall} {reply : LockReply} (h : LocksOrdered es)
    (hinv : LockInv o es obj) (heffect : LockEffect obj call reply obj')
    (hcall : CallInOrder o es call) : LocksOrdered (es ++ [(call, reply)]) := by
  have hpairs := h.pairs
  have hbalance := h.balance
  cases heffect with
  | @denied ans reply n hno hacq hret hfini hreqs =>
    have hheld : heldLock (es ++ [(.lock ans, reply)]) = heldLock es := by
      rw [heldLock_concat, heldAfter, hacq]
    refine ⟨?_, ?_, refused_concat h.refused (by nofun)⟩
    · rw [locksGot_concat, locksPut_concat, hacq, hret, hheld, List.append_nil, List.append_nil]
      exact hpairs
    · rw [nrFinis_concat, nrInits_concat, hfini, hheld]
      omega
  | @granted ans hgrants =>
    have hnone : heldLock es = none := hcall hgrants
    have hnew := acquired_granted hgrants obj.nrReqs
    rw [hnone, Option.toList_none, List.map_nil, List.append_nil] at hpairs
    rw [hnone, Option.toList_none, List.length_nil, Nat.add_zero] at hbalance
    refine ⟨?_, ?_, refused_concat h.refused (by nofun)⟩
    · have hret : locksPut [(.lock ans, (0, [.init 0, .writeLockGetSync obj.nrReqs ans.getRc]))] =
          [] := rfl
      rw [locksGot_concat, locksPut_concat, heldLock_concat, heldAfter, hnew, hret,
        List.map_append, hpairs, List.append_nil]
      rfl
    · rw [nrFinis_concat, nrInits_concat, heldLock_concat, heldAfter, hnew, hbalance]
      rfl
  | refused hnone =>
    have hacq := (hinv.acquired_eq_nil hnone).2
    have hheld : heldLock es = none := by
      cases hn : heldLock es with
      | none => rfl
      | some n =>
        have hlast := hinv.held n hn
        rw [hacq] at hlast
        cases hlast
    rw [hheld] at hpairs hbalance
    refine ⟨?_, ?_, refused_concat h.refused fun _ _ => rfl⟩
    · have hnew : locksGot [(.unlock, (-EINVAL, []))] = [] := rfl
      have hret : locksPut [(.unlock, (-EINVAL, []))] = [] := rfl
      rw [locksGot_concat, locksPut_concat, heldLock_concat, hnew, hret, List.append_nil,
        List.append_nil]
      exact hpairs
    · rw [nrFinis_concat, nrInits_concat, heldLock_concat]
      exact hbalance
  | @put lock hsome =>
    have hheld : (heldLock es).isSome := by
      rcases hcall with hheld | ⟨ho, hacq⟩
      · exact hheld
      · have hfield := hinv.field
        rw [hacq, ho, hsome] at hfield
        cases hfield
    obtain ⟨n, hn⟩ := Option.isSome_iff_exists.mp hheld
    -- what is returned is the lock that is held
    have hlock : lock = .req n := by
      have hfield := hinv.field
      rw [hinv.held n hn, hsome] at hfield
      exact Option.some.inj hfield
    rw [hn] at hpairs hbalance
    refine ⟨?_, ?_, refused_concat h.refused fun _ hnone => ?_⟩
    · have hnew : locksGot [(.unlock, (0, [.put lock, .fini]))] = [] := rfl
      have hret : locksPut [(.unlock, (0, [.put lock, .fini]))] = [lock] := rfl
      rw [locksGot_concat, locksPut_concat, heldLock_concat, hnew, hret, hlock, List.append_nil]
      exact hpairs.trans (List.append_nil _).symm
    · rw [nrFinis_concat, nrInits_concat, heldLock_concat]
      exact hbalance
    · rw [hn] at hnone
      cases hnone

/-- **Locks that are in order are paired.** -/
theorem LocksOrdered.paired (h : LocksOrdered es) (hinv : LockInv o es obj) : LocksPaired es := by
  refine ⟨?_, by have := h.balance; omega, h.refused⟩
  intro n hn
  have hinj : Function.Injective RmLockReq.req := fun _ _ => RmLockReq.req.inj
  have hone : ((locksGot es).map RmLockReq.req).count (.req n) = 1 := by
    rw [List.count_map_of_injective _ _ hinj]
    exact List.count_eq_one_of_mem hinv.nodup hn
  rw [h.pairs, List.count_append, List.count_map_of_injective _ _ hinj] at hone
  split
  · next hheld =>
    rw [hheld, Option.toList_some, List.count_singleton_self] at hone
    omega
  · next hheld =>
    have hzero : (heldLock es).toList.count n = 0 :=
      List.count_eq_zero.mpr fun hmem => hheld (Option.mem_toList.mp hmem)
    omega

/-- A call that is not in order breaks the pairing. -/
theorem callInOrder_of_paired {call : LockCall} {reply : LockReply} (hinv : LockInv o es obj)
    (heffect : LockEffect obj call reply obj') (hbefore : LocksPaired es)
    (hafter : LocksPaired (es ++ [(call, reply)])) : CallInOrder o es call := by
  cases heffect with
  | denied hno => exact fun hgrants => absurd hgrants hno
  | @granted ans hgrants =>
    -- the lock that was held is neither returned nor held any more
    intro _
    by_contra hheld
    obtain ⟨m, hm⟩ := Option.ne_none_iff_exists'.mp hheld
    have hmem := List.mem_of_getLast? (hinv.held m hm)
    have hnew := acquired_granted hgrants obj.nrReqs
    have hzero := hbefore.puts m hmem
    have hone := hafter.puts m (by rw [locksGot_concat]; exact List.mem_append_left _ hmem)
    rw [if_pos hm] at hzero
    rw [locksPut_concat, heldLock_concat, heldAfter, hnew, List.count_append, hzero,
      if_neg fun hc => hinv.ne hmem (Option.some.inj hc).symm] at hone
    exact absurd hone (by simp [locksPut, motrCalls])
  | refused hnone => exact .inr (hinv.acquired_eq_nil hnone)
  | put hsome =>
    refine .inl (Option.isSome_iff_ne_none.mpr fun hnone => ?_)
    have hreply := hafter.refused es _ (List.prefix_refl _) hnone
    have hrc : (0 : ℤ) = -EINVAL := congrArg Prod.fst hreply
    exact absurd hrc (by decide)

/-- **Locks are paired just if all calls are in order.** -/
theorem locksPaired_iff (h : Run (StepOf (lockStep o.inst)) o.obj es obj) :
    (∀ es', es' <+: es → LocksPaired es') ↔ LocksInOrder o es := by
  constructor
  · have hrun := h.inv (fun es obj => LockInv o es obj ∧
      ((∀ es', es' <+: es → LocksPaired es') → LocksInOrder o es)) ?_ ?_
    · exact hrun.2
    · refine ⟨lockInv_of_run .refl, fun _ pre e hpre => ?_⟩
      exact absurd (List.prefix_nil.mp hpre) (by simp)
    · rintro es ⟨call, reply⟩ obj obj' ⟨hinv, hstep⟩ hcall
      have heffect := lockEffect_of_step hinv.opened hcall
      refine ⟨hinv.step heffect, fun hpaired => locksInOrder_concat_iff.mpr ⟨hstep ?_, ?_⟩⟩
      · exact fun es' hpre => hpaired es' (hpre.trans (List.prefix_append _ _))
      · exact callInOrder_of_paired hinv heffect (hpaired es (List.prefix_append _ _))
          (hpaired _ (List.prefix_refl _))
  · have hrun := h.inv (fun es obj => LockInv o es obj ∧ (LocksInOrder o es → LocksOrdered es ∧
      ∀ es', es' <+: es → LocksPaired es')) ?_ ?_
    · exact fun horder => (hrun.2 horder).2
    · have hnil : LocksOrdered ([] : LockHistory) :=
        ⟨rfl, rfl, fun pre reply hpre => absurd (List.prefix_nil.mp hpre) (by simp)⟩
      refine ⟨lockInv_of_run .refl, fun _ => ⟨hnil, fun es' hpre => ?_⟩⟩
      rw [List.prefix_nil.mp hpre]
      exact hnil.paired (lockInv_of_run (o := o) .refl)
    · rintro es ⟨call, reply⟩ obj obj' ⟨hinv, hstep⟩ hcall
      have heffect := lockEffect_of_step hinv.opened hcall
      refine ⟨hinv.step heffect, fun horder => ?_⟩
      obtain ⟨hbefore, hlast⟩ := locksInOrder_concat_iff.mp horder
      obtain ⟨hordered, hpaired⟩ := hstep hbefore
      have hordered' := hordered.step hinv heffect hlast
      refine ⟨hordered', fun es' hpre => ?_⟩
      rcases List.prefix_concat_iff.mp hpre with rfl | hpre
      · exact hordered'.paired (hinv.step heffect)
      · exact hpaired es' hpre

/-- A handle in memory that was cleared before the object was opened. -/
def clearedObj : OpenedObj := ⟨some ⟨some ⟨true, true, none, none, none⟩⟩, rfl, none⟩

/-- A lock that Motr grants. -/
def lockGranted : LockCall := .lock ⟨0, true, 0⟩

/-- A lock and an unlock. -/
def onceHistory : LockHistory :=
  [(lockGranted, (0, [.init 0, .writeLockGetSync 0 0])), (.unlock, (0, [.put (.req 0), .fini]))]

/-- A lock that is returned is paired. -/
theorem locksPaired_once : LocksInOrder clearedObj onceHistory ∧ LocksPaired onceHistory := by
  have hrun : Run (StepOf (lockStep clearedObj.inst)) clearedObj.obj onceHistory
      ⟨true, true, true, some (.req 0), 1⟩ := run_of_exec [lockGranted, .unlock] rfl
  have hnil : LocksInOrder clearedObj [] :=
    fun pre e hpre => absurd (List.prefix_nil.mp hpre) (by simp)
  have hlock : LocksInOrder clearedObj ([] ++ [onceHistory[0]]) :=
    locksInOrder_concat_iff.mpr ⟨hnil, fun _ => rfl⟩
  have hunlock : CallInOrder clearedObj ([] ++ [onceHistory[0]]) .unlock := Or.inl rfl
  have horder : LocksInOrder clearedObj onceHistory :=
    locksInOrder_concat_iff.mpr ⟨hlock, hunlock⟩
  exact ⟨horder, (locksPaired_iff hrun).mpr horder onceHistory List.prefix_rfl⟩

/-- A lock and two unlocks. -/
def twiceHistory : LockHistory := onceHistory ++ [(.unlock, (0, [.put (.req 0), .fini]))]

/-- Two locks and an unlock. -/
def lostHistory : LockHistory :=
  [(lockGranted, (0, [.init 0, .writeLockGetSync 0 0])),
    (lockGranted, (0, [.init 0, .writeLockGetSync 1 0])), (.unlock, (0, [.put (.req 1), .fini]))]

/-- **A second unlock returns the lock again**, and of two locks one is never returned. -/
theorem not_locksPaired :
    (Run (StepOf (lockStep clearedObj.inst)) clearedObj.obj twiceHistory
        ⟨true, true, true, some (.req 0), 1⟩ ∧ ¬ LocksPaired twiceHistory) ∧
      Run (StepOf (lockStep clearedObj.inst)) clearedObj.obj lostHistory
        ⟨true, true, true, some (.req 1), 2⟩ ∧ ¬ LocksPaired lostHistory := by
  refine ⟨⟨run_of_exec [lockGranted, .unlock, .unlock] rfl, fun h => ?_⟩,
    run_of_exec [lockGranted, lockGranted, .unlock] rfl, fun h => ?_⟩
  · exact absurd (h.puts 0 (by decide)) (by decide)
  · exact absurd (h.puts 0 (by decide)) (by decide)

end CortxMio
