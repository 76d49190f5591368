import CortxMio.Obj.InFlight
import CortxMio.Obj.Sparse

/-!
# An object shared by several clients

Clients that share an object are told to open it, take the lock, do their I/O,
release the lock and close the object. The lock is exclusive, so writes do not
interleave. But a handle knows the size of the object from the time it was opened,
which is before the lock was taken, and it is the size that decides which pages a
write reads first; and closing a handle stores the size it knows, which happens
after the lock was released. `CortxMio.SharedState.step` has one step for each
call, Motr op and post-processing function of any client.

A handle that is opened while another client is writing may have a size that is
too small. A write on it then overwrites with zeros what others have written to a
page that it covers in part, and closing it makes the stored size too small
(`CortxMio.not_sharedOk`). If no write meets such a page, and the last handle to
store its attributes has the right size (`CortxMio.UpToDate`), bytes and size come
out as if the writes had been applied to a byte array, in the order in which they
were made (`CortxMio.sharedOk_of_upToDate`).
-/

namespace CortxMio

open Lib

/-! ### The system -/

/-- Where a client is. -/
inductive ClientPhase
  /-- It has not opened the object. -/
  | away
  /-- It has a handle. -/
  | opened (obj : MioObj)
  /-- It holds the lock. -/
  | locked (obj : MioObj)
  /-- It holds the lock, and a write is under way. -/
  | writing (obj : MioObj) (fl : Flight)
  /-- It has released the lock. -/
  | unlocked (obj : MioObj)
  /-- It has closed the object. -/
  | closed

namespace ClientPhase

/-- The open handle of a client. -/
def handle : ClientPhase → Option MioObj
  | .opened obj | .locked obj | .writing obj _ | .unlocked obj => some obj
  | .away | .closed => none

/-- The client has a handle that will store its attributes when it is closed. -/
def HasUpdates (p : ClientPhase) : Prop := ∃ obj ∈ p.handle, obj.moAttrsUpdated = true

instance (p : ClientPhase) : Decidable p.HasUpdates :=
  inferInstanceAs (Decidable (∃ obj ∈ p.handle, obj.moAttrsUpdated = true))

/-- The client holds the lock. -/
def Holds : ClientPhase → Prop
  | .locked _ | .writing _ _ => True
  | _ => False

end ClientPhase

/-- Motr's side of an object, its lock, the clients, and the writes that have been
submitted so far. -/
structure SharedState (ι : Type) where
  /-- Motr's side. -/
  cluster : Cluster
  /-- Who holds the lock. -/
  lock : Option ι
  /-- The clients. -/
  clients : ι → ClientPhase
  /-- The writes, in the order of submission. -/
  writes : List WriteReq

/-- What a client, or Motr on its behalf, can do. -/
inductive SharedAct (ι : Type)
  /-- `mio_obj_open`, run to its end. -/
  | opn (i : ι)
  /-- `mio_obj_lock`. -/
  | lock (i : ι)
  /-- `mio_obj_writev`. -/
  | submit (i : ι) (req : WriteReq)
  /-- Motr completes an op of the write. -/
  | complete (i : ι)
  /-- The post-processing function of the op is called. -/
  | post (i : ι)
  /-- `mio_obj_unlock`. -/
  | unlock (i : ι)
  /-- `mio_obj_close`. -/
  | close (i : ι)

variable {ι : Type}

section Step

variable [DecidableEq ι] (conf : MioMotrConfig) (drv : M0Obj)

/-- A client moves on. -/
def SharedState.setClient (s : SharedState ι) (i : ι) (p : ClientPhase) : SharedState ι :=
  { s with clients := Function.update s.clients i p }

/-- One step, if it can be made: what the call returns, and the state after it. -/
def SharedState.step (s : SharedState ι) : SharedAct ι → Option (Option Fault × SharedState ι)
  | .opn i =>
      match s.clients i with
      | .away =>
          match mioObjOpen drv s.cluster with
          | .error f => some (some f, s)
          | .ok w => some (none, s.setClient i (.opened w.obj))
      | _ => none
  | .lock i =>
      match s.clients i, s.lock with
      | .opened obj, none => some (none, { s.setClient i (.locked obj) with lock := some i })
      | _, _ => none
  | .submit i req =>
      match s.clients i with
      | .locked obj =>
          let obj := objStatsUpdate obj true req.now req.iov
          match mioMotrObjWritev conf obj req.app req.iov with
          | .error f => some (some f, s.setClient i (.locked obj))
          | .ok op => some (none, { s.setClient i (.writing obj ⟨req, op, .launched⟩) with
              writes := s.writes ++ [req] })
      | _ => none
  | .complete i =>
      match s.clients i with
      | .writing obj ⟨req, op, .launched⟩ =>
          let (cluster, mem) := op.head.mdoOp.exec s.cluster op.mem
          some (none, { s.setClient i (.writing obj ⟨req, { op with mem := mem }, .executed⟩) with
            cluster := cluster })
      | _ => none
  | .post i =>
      match s.clients i with
      | .writing obj ⟨req, op, .executed⟩ =>
          match postPhase conf obj op with
          | (.completed, obj, _) => some (none, s.setClient i (.locked obj))
          | (.failed f, obj, _) => some (some f, s.setClient i (.locked obj))
          | (phase, obj, op) => some (none, s.setClient i (.writing obj ⟨req, op, phase⟩))
      | _ => none
  | .unlock i =>
      match s.clients i with
      | .locked obj => some (none, { s.setClient i (.unlocked obj) with lock := none })
      | _ => none
  | .close i =>
      match s.clients i with
      | .unlocked obj => some (none, { s.setClient i .closed with
          cluster := mioObjClose ⟨s.cluster, obj⟩ })
      | _ => none

end Step

/-- An object that nobody has opened. -/
def SharedState.init (ι : Type) (cl : Cluster) : SharedState ι := ⟨cl, none, fun _ => .away, []⟩

/-! ### What is promised, and when -/

/-- Writes applied to a byte array, one after the other. -/
def plainBytes (bytes : ℕ → Byte) (reqs : List WriteReq) : ℕ → Byte :=
  reqs.foldl (fun b r => writeRanges r.app r.iov b) bytes

theorem plainBytes_snoc (bytes : ℕ → Byte) (reqs : List WriteReq) (r : WriteReq) :
    plainBytes bytes (reqs ++ [r]) = writeRanges r.app r.iov (plainBytes bytes reqs) := by
  rw [plainBytes, List.foldl_append]
  rfl

/-- The size that an object should have after some writes. -/
def plainSize (cl : Cluster) (reqs : List WriteReq) : ℕ := max (storedSize cl.attrs) (endOf reqs)

/-- **What is promised**: when no handle is open, the bytes of the object and the
size in its record are those of applying the writes to what was there at first. -/
def SharedOk (cl : Cluster) (s : SharedState ι) : Prop :=
  (∀ i, (s.clients i).handle = none) →
    s.cluster.bytes = plainBytes cl.bytes s.writes ∧
      storedSize s.cluster.attrs = plainSize cl s.writes

/-- **A write that the size in its handle does not mislead**, on an object that should
have the given size: no page below that size which the write covers in part lies
beyond the size in the handle, and the pages it has to read first fit into an op. -/
def WriteSafe (conf : MioMotrConfig) (obj : MioObj) (size : ℕ) (iov : List (MioIovec ℕ)) : Prop :=
  (∀ q < size, q * motrObjIoPagesize obj < size → obj.size ≤ q * motrObjIoPagesize obj →
    ¬∃ v ∈ iov, v.CutsPage (motrObjIoPagesize obj) q) ∧
  (rbwPages (motrObjIoPagesize obj) obj.size iov).length * motrObjIoPagesize obj ≤
    ((motrObjMaxSizePerOp conf obj).toOption.getD 0)

instance (conf : MioMotrConfig) (obj : MioObj) (size : ℕ) (iov : List (MioIovec ℕ)) :
    Decidable (WriteSafe conf obj size iov) := inferInstanceAs (Decidable (_ ∧ _))

/-- **A step that does not go wrong**: a write is safe, and a handle that stores its
attributes on closing has the size that the object should have, or another one
will store its attributes later. -/
def UpToDate (conf : MioMotrConfig) (cl : Cluster) (s : SharedState ι) : SharedAct ι → Prop
  | .submit i req => ∀ obj ∈ (s.clients i).handle,
      WriteSafe conf obj (plainSize cl s.writes) req.iov
  | .close i => ∀ obj ∈ (s.clients i).handle, obj.moAttrsUpdated = true →
      plainSize cl s.writes ≤ obj.size ∨ ∃ j, j ≠ i ∧ (s.clients j).HasUpdates
  | _ => True

instance [Fintype ι] [DecidableEq ι] (conf : MioMotrConfig) (cl : Cluster) (s : SharedState ι) :
    (a : SharedAct ι) → Decidable (UpToDate conf cl s a)
  | .submit _ _ => inferInstanceAs (Decidable (∀ obj ∈ _, _))
  | .close _ => inferInstanceAs (Decidable (∀ obj ∈ _, _))
  | .opn _ | .lock _ | .complete _ | .post _ | .unlock _ => isTrue trivial

/-! ### What a step can do -/

variable {conf : MioMotrConfig} {drv : M0Obj}

section Effect

variable [DecidableEq ι]

/-- The effect of a step that succeeds. -/
inductive SharedEffect (conf : MioMotrConfig) (drv : M0Obj) (s : SharedState ι) :
    SharedAct ι → SharedState ι → Prop
  /-- A client opens the object. -/
  | opn (i : ι) (w : World) (phase : s.clients i = .away)
      (load : mioObjOpen drv s.cluster = .ok w) :
      SharedEffect conf drv s (.opn i) (s.setClient i (.opened w.obj))
  /-- A client gets the lock. -/
  | lock (i : ι) (obj : MioObj) (phase : s.clients i = .opened obj) (free : s.lock = none) :
      SharedEffect conf drv s (.lock i) { s.setClient i (.locked obj) with lock := some i }
  /-- A write is submitted. -/
  | submit (i : ι) (req : WriteReq) (obj : MioObj) (op : RwOp) (phase : s.clients i = .locked obj)
      (launch : mioMotrObjWritev conf (objStatsUpdate obj true req.now req.iov) req.app req.iov =
        .ok op) :
      SharedEffect conf drv s (.submit i req)
        { s.setClient i
            (.writing (objStatsUpdate obj true req.now req.iov) ⟨req, op, .launched⟩) with
          writes := s.writes ++ [req] }
  /-- An op is executed. -/
  | complete (i : ι) (obj : MioObj) (req : WriteReq) (op : RwOp) (cluster : Cluster) (mem : Mem)
      (phase : s.clients i = .writing obj ⟨req, op, .launched⟩)
      (exec : op.head.mdoOp.exec s.cluster op.mem = (cluster, mem)) :
      SharedEffect conf drv s (.complete i)
        { s.setClient i (.writing obj ⟨req, { op with mem := mem }, .executed⟩) with
          cluster := cluster }
  /-- A write goes on. -/
  | next (i : ι) (obj : MioObj) (req : WriteReq) (op : RwOp) (phase' : FlightPhase) (obj' : MioObj)
      (op' : RwOp) (phase : s.clients i = .writing obj ⟨req, op, .executed⟩)
      (post : postPhase conf obj op = (phase', obj', op')) :
      SharedEffect conf drv s (.post i) (s.setClient i (.writing obj' ⟨req, op', phase'⟩))
  /-- A write has completed. -/
  | final (i : ι) (obj : MioObj) (req : WriteReq) (op : RwOp) (obj' : MioObj) (op' : RwOp)
      (phase : s.clients i = .writing obj ⟨req, op, .executed⟩)
      (post : postPhase conf obj op = (.completed, obj', op')) :
      SharedEffect conf drv s (.post i) (s.setClient i (.locked obj'))
  /-- A client releases the lock. -/
  | unlock (i : ι) (obj : MioObj) (phase : s.clients i = .locked obj) :
      SharedEffect conf drv s (.unlock i) { s.setClient i (.unlocked obj) with lock := none }
  /-- A client closes the object. -/
  | close (i : ι) (obj : MioObj) (phase : s.clients i = .unlocked obj) :
      SharedEffect conf drv s (.close i)
        { s.setClient i .closed with cluster := mioObjClose ⟨s.cluster, obj⟩ }

/-- A step that succeeds has one of these effects. -/
theorem sharedEffect {s s' : SharedState ι} {a : SharedAct ι}
    (h : SharedState.step conf drv s a = some (none, s')) : SharedEffect conf drv s a s' := by
  have hinj : ∀ {rc : Option Fault} {u : SharedState ι}, some (rc, u) = some (none, s') →
      rc = none ∧ u = s' := fun h => Prod.mk.inj (Option.some.inj h)
  cases a with
  | opn i =>
    simp only [SharedState.step] at h
    split at h
    · next hphase =>
      split at h
      · exact absurd (hinj h).1 (by simp)
      · next w hload =>
        obtain ⟨-, rfl⟩ := hinj h
        exact .opn i w hphase hload
    · exact absurd h (by simp)
  | lock i =>
    simp only [SharedState.step] at h
    split at h
    · next obj hphase hfree =>
      obtain ⟨-, rfl⟩ := hinj h
      exact .lock i obj hphase hfree
    · exact absurd h (by simp)
  | submit i req =>
    simp only [SharedState.step] at h
    split at h
    · next obj hphase =>
      split at h
      · exact absurd (hinj h).1 (by simp)
      · next op hsub =>
        obtain ⟨-, rfl⟩ := hinj h
        exact .submit i req obj op hphase hsub
    · exact absurd h (by simp)
  | complete i =>
    simp only [SharedState.step] at h
    split at h
    · next obj req op hphase =>
      obtain ⟨-, rfl⟩ := hinj h
      exact .complete i obj req op _ _ hphase rfl
    · exact absurd h (by simp)
  | post i =>
    simp only [SharedState.step] at h
    split at h
    · next obj req op hphase =>
      split at h
      · next obj' op' hpost =>
        obtain ⟨-, rfl⟩ := hinj h
        exact .final i obj req op obj' op' hphase hpost
      · exact absurd (hinj h).1 (by simp)
      · next phase obj' op' _ _ hpost =>
        obtain ⟨-, rfl⟩ := hinj h
        exact .next i obj req op phase obj' op' hphase hpost
    · exact absurd h (by simp)
  | unlock i =>
    simp only [SharedState.step] at h
    split at h
    · next obj hphase =>
      obtain ⟨-, rfl⟩ := hinj h
      exact .unlock i obj hphase
    · exact absurd h (by simp)
  | close i =>
    simp only [SharedState.step] at h
    split at h
    · next obj hphase =>
      obtain ⟨-, rfl⟩ := hinj h
      exact .close i obj hphase
    · exact absurd h (by simp)

end Effect

/-! ### The write under way -/

theorem plainSize_snoc (cl : Cluster) (reqs : List WriteReq) (r : WriteReq) :
    plainSize cl (reqs ++ [r]) = max (plainSize cl reqs) (maxEnd r.iov) := by
  rw [plainSize, plainSize, endOf_snoc, max_assoc]

/-- A byte array has nothing beyond its size. -/
theorem zeroFrom_plainBytes {cl : Cluster} (hzero : ZeroFrom (storedSize cl.attrs) cl.bytes)
    (reqs : List WriteReq) : ZeroFrom (plainSize cl reqs) (plainBytes cl.bytes reqs) := by
  induction reqs using List.reverseRecOn with
  | nil =>
    rw [plainSize]
    exact hzero.mono (le_max_left _ _)
  | append_singleton reqs r ih =>
    intro x hx
    rw [plainSize_snoc] at hx
    rw [plainBytes_snoc, writeRanges_of_not_mem]
    · exact ih x ((le_max_left _ _).trans hx)
    · intro v hv hvx
      have h1 := stop_le_maxEnd hv
      have h2 := hvx.2
      have h3 := (le_max_right _ _).trans hx
      omega

/-- The write that is under way, given the bytes of the object: it has been planned
with the writes before it in place, and in the end it will have overwritten its
ranges. -/
def WritingOk (conf : MioMotrConfig) (cl : Cluster) (bytes : ℕ → Byte) (writes : List WriteReq)
    (obj : MioObj) (fl : Flight) : Prop :=
  ∃ prev obj₀ limit, writes = prev ++ [fl.req] ∧
    Planned conf ⟨⟨plainBytes cl.bytes prev, none⟩, obj₀⟩ fl.req obj₀ limit ∧
    obj.moDrvObj = obj₀.moDrvObj ∧ obj.moAttrsUpdated = true ∧
    PhaseOk (writeCtx obj₀ limit fl.req.app fl.req.iov (plainBytes cl.bytes prev)) limit obj.size
      bytes fl.op fl.phase ∧
    (∀ x, ¬(writeCtx obj₀ limit fl.req.app fl.req.iov (plainBytes cl.bytes prev)).Own x →
      bytes x = plainBytes cl.bytes prev x) ∧
    ∀ x, (writeCtx obj₀ limit fl.req.app fl.req.iov (plainBytes cl.bytes prev)).Own x →
      (writeCtx obj₀ limit fl.req.app fl.req.iov (plainBytes cl.bytes prev)).bytesEnd x =
        writeRanges fl.req.app fl.req.iov (plainBytes cl.bytes prev) x

section Writing

variable {cl : Cluster} {bytes : ℕ → Byte} {writes : List WriteReq} {obj : MioObj} {req : WriteReq}
  {op : RwOp}

/-- **A safe write overwrites its ranges**, even if the size in its handle is too
small. -/
theorem writingOk_of_submit (hzero : ZeroFrom (plainSize cl writes) (plainBytes cl.bytes writes))
    (hwrap : ∀ v ∈ req.iov, v.NoWrap) (hsafe : WriteSafe conf obj (plainSize cl writes) req.iov)
    (hsub : mioMotrObjWritev conf (objStatsUpdate obj true req.now req.iov) req.app req.iov =
      .ok op) :
    WritingOk conf cl (plainBytes cl.bytes writes) (writes ++ [req])
      (objStatsUpdate obj true req.now req.iov) ⟨req, op, .launched⟩ := by
  obtain ⟨obj₀, hobj₀⟩ : ∃ obj₀, obj₀ = objStatsUpdate obj true req.now req.iov := ⟨_, rfl⟩
  have hps : motrObjIoPagesize obj₀ = motrObjIoPagesize obj := by rw [hobj₀]; rfl
  have hsize : obj₀.size = obj.size := by rw [hobj₀]; rfl
  obtain ⟨limit, hplan, hphase⟩ := planned_of_mioMotrObjWritev
    (w := ⟨⟨plainBytes cl.bytes writes, none⟩, objStatsUpdate obj true req.now req.iov⟩) rfl le_rfl
    hwrap hsub
  rw [← hobj₀] at hplan hphase ⊢
  have hmax : motrObjMaxSizePerOp conf obj₀ = .ok limit := hplan.maxSize
  have hmax' : motrObjMaxSizePerOp conf obj = .ok limit := by
    rw [← hmax, hobj₀]
    rfl
  obtain ⟨hcut, hfit⟩ := hsafe
  rw [hmax', ← hps, ← hsize] at hfit
  refine ⟨writes, obj₀, limit, rfl, hplan, rfl, by rw [hobj₀]; rfl, hphase _, fun _ _ => rfl,
    fun x hx => ?_⟩
  refine bytesEnd_eq_writeRanges hplan.pos hplan.inOrder (fun q hq hbeyond y hy => ?_) ?_ hx
  · -- a page that is cut and not read lies beyond the size that the object should have
    have hcuts := exists_part_iff_cutsPage.mp
      (((writeInv_planArgs obj₀ hplan.pos hplan.inOrder).mem_qs q).mp hq)
    refine hzero y (Nat.not_lt.mp fun hlt => ?_)
    rw [hps] at hcuts hbeyond hy
    rw [hsize] at hbeyond
    have hqsize : q * motrObjIoPagesize obj < plainSize cl writes := by omega
    exact hcut q (lt_of_le_of_lt (Nat.le_mul_of_pos_right q (motrObjIoPagesize_pos obj)) hqsize)
      hqsize hbeyond hcuts
  · exact rbw_length_le_cnt hplan.pos (motrObjMaxSizePerOp_lt hmax) hplan.inOrder hfit req.app _

/-- Motr executes an op of the write. -/
theorem WritingOk.exec {cl₀ cluster : Cluster} {mem : Mem}
    (h : WritingOk conf cl cl₀.bytes writes obj ⟨req, op, .launched⟩)
    (hexec : op.head.mdoOp.exec cl₀ op.mem = (cluster, mem)) :
    WritingOk conf cl cluster.bytes writes obj ⟨req, { op with mem := mem }, .executed⟩ ∧
      (cluster.attrs = cl₀.attrs ∨ storedSize cluster.attrs = maxEnd req.iov) := by
  obtain ⟨prev, obj₀, limit, hwrites, hplan, hdrv, hupd, hphase, hother, hend⟩ := h
  obtain ⟨hphase', hother', hattrs⟩ := PhaseOk.exec hplan.ok hphase hexec
  refine ⟨⟨prev, obj₀, limit, hwrites, hplan, hdrv, hupd, hphase', fun x hx => ?_, hend⟩, ?_⟩
  · exact (hother' x hx).trans (hother x hx)
  · rwa [hplan.maxEow] at hattrs

/-- A post-processing function of the write is called. -/
theorem WritingOk.post {phase : FlightPhase} {obj' : MioObj} {op' : RwOp}
    (h : WritingOk conf cl bytes writes obj ⟨req, op, .executed⟩)
    (hpost : postPhase conf obj op = (phase, obj', op')) :
    WritingOk conf cl bytes writes obj' ⟨req, op', phase⟩ ∧ obj'.moDrvObj = obj.moDrvObj ∧
      obj'.size ≤ max obj.size (maxEnd req.iov) := by
  obtain ⟨prev, obj₀, limit, hwrites, hplan, hdrv, hupd, hphase, hother, hend⟩ := h
  have hmax : motrObjMaxSizePerOp conf obj = .ok limit := by
    rw [motrObjMaxSizePerOp_congr conf hdrv]
    exact hplan.maxSize
  have heow : (writeCtx obj₀ limit req.app req.iov (plainBytes cl.bytes prev)).args.rwaMaxEow =
      maxEnd req.iov := hplan.maxEow
  have hlt := maxEnd_lt hplan.noWrap
  obtain ⟨hphase', hobj⟩ := PhaseOk.post hplan.ok hmax (by rwa [heow]) hphase hpost
  rw [heow] at hobj
  rcases hobj with rfl | ⟨-, rfl⟩
  · exact ⟨⟨prev, obj₀, limit, hwrites, hplan, hdrv, hupd, hphase', hother, hend⟩, rfl,
      le_max_left _ _⟩
  · refine ⟨⟨prev, obj₀, limit, hwrites, hplan, hdrv, hupd, hphase', hother, hend⟩, rfl, ?_⟩
    rw [MioObj.size_setSize _ hlt]
    exact le_max_right _ _

/-- **The write has completed**: the object is as it should be after it. -/
theorem WritingOk.completed (h : WritingOk conf cl bytes writes obj ⟨req, op, .completed⟩) :
    bytes = plainBytes cl.bytes writes := by
  obtain ⟨prev, obj₀, limit, rfl, hplan, -, -, hphase, hother, hend⟩ := h
  obtain ⟨hown, -, -⟩ := hphase
  funext x
  rw [plainBytes_snoc]
  by_cases hx : (writeCtx obj₀ limit req.app req.iov (plainBytes cl.bytes prev)).Own x
  · exact (hown x hx).trans (hend x hx)
  · rw [hother x hx, writeRanges_of_not_mem]
    intro v hv hvx
    obtain ⟨p, hp, hpx, -⟩ := exists_piece_of_has hv hvx
    exact hx (own_of_piece hplan.pos hplan.inOrder hp hpx)

end Writing

/-! ### All clients -/

/-- What is known of a client. -/
structure ClientOk (conf : MioMotrConfig) (drv : M0Obj) (cl : Cluster) (s : SharedState ι) (i : ι)
    (p : ClientPhase) : Prop where
  /-- Only one client holds the lock. -/
  lock : p.Holds → s.lock = some i
  /-- The size in its handle is not too large. -/
  handle : ∀ obj, p.handle = some obj → obj.moDrvObj = drv ∧ obj.size ≤ plainSize cl s.writes
  /-- Its write is under way. -/
  writing : ∀ obj fl, p = .writing obj fl → WritingOk conf cl s.cluster.bytes s.writes obj fl

/-- **The invariant of a shared object**, which was as in the cluster when nobody had
opened it. -/
structure SharedInv (conf : MioMotrConfig) (drv : M0Obj) (cl : Cluster) (s : SharedState ι) :
    Prop where
  /-- The clients. -/
  clients : ∀ i, ClientOk conf drv cl s i (s.clients i)
  /-- The stored size is not too large. -/
  stored_le : storedSize s.cluster.attrs ≤ plainSize cl s.writes
  /-- It is right, or somebody has attributes to store. -/
  stored : (∃ i, (s.clients i).HasUpdates) ∨ storedSize s.cluster.attrs = plainSize cl s.writes
  /-- The bytes are right when no write is under way. -/
  bytes : (∀ i obj fl, s.clients i ≠ .writing obj fl) →
    s.cluster.bytes = plainBytes cl.bytes s.writes

section Inv

variable {cl : Cluster} {s : SharedState ι} {i : ι}

theorem sharedInv_init (cl : Cluster) : SharedInv conf drv cl (.init ι cl) where
  clients i := ⟨False.elim, fun obj h => absurd h (by simp [SharedState.init, ClientPhase.handle]),
    fun obj fl h => absurd h (by simp [SharedState.init])⟩
  stored_le := le_max_left _ _
  stored := .inr (Nat.max_zero _).symm
  bytes _ := rfl

/-- What is known of a client stays known, as long as nobody else writes while it
holds the lock. -/
theorem ClientOk.mono {p : ClientPhase} (h : ClientOk conf drv cl s i p) {s' : SharedState ι}
    (hsize : plainSize cl s.writes ≤ plainSize cl s'.writes)
    (hholds : p.Holds → s'.lock = s.lock ∧ s'.writes = s.writes ∧
      s'.cluster.bytes = s.cluster.bytes) : ClientOk conf drv cl s' i p where
  lock hp := (hholds hp).1.trans (h.lock hp)
  handle obj hobj := ⟨(h.handle obj hobj).1, (h.handle obj hobj).2.trans hsize⟩
  writing obj fl hp := by
    obtain ⟨-, hwrites, hbytes⟩ := hholds (by rw [hp]; trivial)
    rw [hwrites, hbytes]
    exact h.writing obj fl hp

/-- Nobody else holds the lock. -/
theorem SharedInv.not_holds (h : SharedInv conf drv cl s) (hi : (s.clients i).Holds) {j : ι}
    (hij : j ≠ i) : ¬(s.clients j).Holds := by
  intro hj
  have hlock := ((h.clients i).lock hi).symm.trans ((h.clients j).lock hj)
  exact hij (Option.some.inj hlock).symm

theorem ClientPhase.holds_of_writing {obj : MioObj} {fl : Flight}
    (h : s.clients i = .writing obj fl) : (s.clients i).Holds := by
  rw [h]
  trivial

variable [DecidableEq ι]

@[simp] theorem SharedState.setClient_self (s : SharedState ι) (i : ι) (p : ClientPhase) :
    (s.setClient i p).clients i = p := by
  simp [setClient]

theorem SharedState.setClient_of_ne (s : SharedState ι) {i j : ι} (p : ClientPhase) (h : j ≠ i) :
    (s.setClient i p).clients j = s.clients j := by
  simp [setClient, h]

/-- The clients after one of them has moved on. -/
theorem SharedInv.clients_of_move (h : SharedInv conf drv cl s) {s' : SharedState ι}
    {p : ClientPhase} (hclients : s'.clients = (s.setClient i p).clients)
    (hsize : plainSize cl s.writes ≤ plainSize cl s'.writes)
    (hholds : ∀ j, j ≠ i → (s.clients j).Holds → s'.lock = s.lock ∧ s'.writes = s.writes ∧
      s'.cluster.bytes = s.cluster.bytes)
    (hp : ClientOk conf drv cl s' i p) (j : ι) : ClientOk conf drv cl s' j (s'.clients j) := by
  rw [hclients]
  by_cases hij : j = i
  · subst hij
    rwa [SharedState.setClient_self]
  · rw [SharedState.setClient_of_ne s p hij]
    exact (h.clients j).mono hsize (hholds j hij)

/-- Attributes that are to be stored still are, unless they are those of the client
that moves on. -/
theorem hasUpdates_of_move {p : ClientPhase} (hex : ∃ j, (s.clients j).HasUpdates)
    (hp : (s.clients i).HasUpdates → p.HasUpdates) :
    ∃ j, ((s.setClient i p).clients j).HasUpdates := by
  obtain ⟨j, hj⟩ := hex
  by_cases hij : j = i
  · subst hij
    exact ⟨j, by rw [SharedState.setClient_self]; exact hp hj⟩
  · exact ⟨j, by rwa [SharedState.setClient_of_ne s p hij]⟩

/-- A client that does not start a write leaves the bytes right. -/
theorem SharedInv.bytes_of_move (h : SharedInv conf drv cl s) {p : ClientPhase}
    (hi : ∀ obj fl, s.clients i ≠ .writing obj fl)
    (hno : ∀ j obj fl, (s.setClient i p).clients j ≠ .writing obj fl) :
    s.cluster.bytes = plainBytes cl.bytes s.writes := by
  refine h.bytes fun j obj fl hj => ?_
  by_cases hij : j = i
  · subst hij
    exact hi obj fl hj
  · exact hno j obj fl (by rwa [SharedState.setClient_of_ne s p hij])

/-- Opening the object gives a handle with the stored size. -/
theorem SharedInv.opn (h : SharedInv conf drv cl s) {w : World} (hphase : s.clients i = .away)
    (hload : mioObjOpen drv s.cluster = .ok w) :
    SharedInv conf drv cl (s.setClient i (.opened w.obj)) := by
  obtain ⟨obj, hget, hw⟩ := bind_eq_ok_iff.mp hload
  obtain rfl := Except.ok.inj hw
  obtain ⟨hsize, hdrv⟩ := motrObjAttrsGetPp_size rfl hget
  have hok : ClientOk conf drv cl (s.setClient i (.opened obj)) i (.opened obj) := by
    refine ⟨False.elim, fun obj' hobj' => ?_, fun _ _ hp => absurd hp (by simp)⟩
    obtain rfl := Option.some.inj hobj'
    exact ⟨hdrv, hsize ▸ h.stored_le⟩
  refine ⟨h.clients_of_move rfl le_rfl (fun _ _ _ => ⟨rfl, rfl, rfl⟩) hok, h.stored_le, ?_,
    h.bytes_of_move (by simp [hphase])⟩
  refine h.stored.imp_left fun hex => hasUpdates_of_move hex fun hupd => ?_
  simp [hphase, ClientPhase.HasUpdates, ClientPhase.handle] at hupd

/-- Getting the lock, or releasing it, leaves the handle as it is. -/
theorem SharedInv.relock (h : SharedInv conf drv cl s) {p : ClientPhase} {obj : MioObj}
    (hobj : (s.clients i).handle = some obj) (hp : p.handle = some obj)
    (hw : ∀ obj fl, s.clients i ≠ .writing obj fl) (hw' : ∀ obj fl, p ≠ .writing obj fl)
    {lock : Option ι} (hlock : p.Holds → lock = some i)
    (hothers : ∀ j, j ≠ i → ¬(s.clients j).Holds) :
    SharedInv conf drv cl { s.setClient i p with lock := lock } := by
  have hok : ClientOk conf drv cl { s.setClient i p with lock := lock } i p :=
    ⟨hlock, fun obj' hobj' => (h.clients i).handle obj' (hobj.trans (hp.symm.trans hobj')),
      fun obj fl hp' => absurd hp' (hw' obj fl)⟩
  refine ⟨h.clients_of_move rfl le_rfl (fun j hij hj => absurd hj (hothers j hij)) hok,
    h.stored_le, ?_, h.bytes_of_move hw⟩
  refine h.stored.imp_left fun hex => hasUpdates_of_move hex ?_
  rintro ⟨obj', hobj', hupd⟩
  exact ⟨obj', hp.trans (hobj.symm.trans hobj'), hupd⟩

/-- A safe write is submitted. -/
theorem SharedInv.submit (h : SharedInv conf drv cl s)
    (hzero : ZeroFrom (storedSize cl.attrs) cl.bytes) {req : WriteReq} {obj : MioObj} {op : RwOp}
    (hphase : s.clients i = .locked obj) (hwrap : ∀ v ∈ req.iov, v.NoWrap)
    (hsafe : WriteSafe conf obj (plainSize cl s.writes) req.iov)
    (hsub : mioMotrObjWritev conf (objStatsUpdate obj true req.now req.iov) req.app req.iov =
      .ok op) :
    SharedInv conf drv cl
      { s.setClient i (.writing (objStatsUpdate obj true req.now req.iov) ⟨req, op, .launched⟩) with
        writes := s.writes ++ [req] } := by
  have hholds : (s.clients i).Holds := by rw [hphase]; trivial
  have hsize : plainSize cl s.writes ≤ plainSize cl (s.writes ++ [req]) := by
    rw [plainSize_snoc]
    exact le_max_left _ _
  have hbytes : s.cluster.bytes = plainBytes cl.bytes s.writes := by
    refine h.bytes fun j obj' fl hj => ?_
    by_cases hij : j = i
    · rw [hij, hphase] at hj
      exact absurd hj (by simp)
    · exact h.not_holds hholds hij (ClientPhase.holds_of_writing hj)
  have hok : ClientOk conf drv cl
      { s.setClient i (.writing (objStatsUpdate obj true req.now req.iov) ⟨req, op, .launched⟩) with
        writes := s.writes ++ [req] } i
      (.writing (objStatsUpdate obj true req.now req.iov) ⟨req, op, .launched⟩) := by
    refine ⟨fun _ => (h.clients i).lock hholds, fun obj' hobj' => ?_, fun obj' fl hp => ?_⟩
    · obtain rfl := Option.some.inj hobj'
      obtain ⟨hdrv, hle⟩ := (h.clients i).handle obj (by rw [hphase]; rfl)
      exact ⟨hdrv, hle.trans hsize⟩
    · obtain ⟨rfl, rfl⟩ := ClientPhase.writing.inj hp
      have hwok := writingOk_of_submit (zeroFrom_plainBytes hzero s.writes) hwrap hsafe hsub
      rwa [← hbytes] at hwok
  refine ⟨h.clients_of_move rfl hsize (fun j hij hj => absurd hj (h.not_holds hholds hij)) hok,
    h.stored_le.trans hsize, .inl ⟨i, ?_⟩, fun hno => ?_⟩
  · change ((s.setClient i _).clients i).HasUpdates
    rw [SharedState.setClient_self]
    exact ⟨_, rfl, rfl⟩
  · exact absurd (s.setClient_self i _) (hno i _ _)

/-- A write that is under way has made progress. -/
theorem SharedInv.progress (h : SharedInv conf drv cl s) {obj obj' : MioObj} {fl fl' : Flight}
    {cluster : Cluster} (hphase : s.clients i = .writing obj fl)
    (hok : WritingOk conf cl cluster.bytes s.writes obj' fl')
    (hdrv : obj'.moDrvObj = obj.moDrvObj) (hsize : obj'.size ≤ plainSize cl s.writes)
    (hstored : storedSize cluster.attrs ≤ plainSize cl s.writes) :
    SharedInv conf drv cl { s.setClient i (.writing obj' fl') with cluster := cluster } := by
  have hholds := ClientPhase.holds_of_writing hphase
  have hclient :
      ClientOk conf drv cl { s.setClient i (.writing obj' fl') with cluster := cluster } i
      (.writing obj' fl') := by
    refine ⟨fun _ => (h.clients i).lock hholds, fun obj'' hobj'' => ?_, fun obj'' fl'' hp => ?_⟩
    · obtain rfl := Option.some.inj hobj''
      exact ⟨hdrv.trans ((h.clients i).handle obj (by rw [hphase]; rfl)).1, hsize⟩
    · obtain ⟨rfl, rfl⟩ := ClientPhase.writing.inj hp
      exact hok
  refine ⟨h.clients_of_move rfl le_rfl (fun j hij hj => absurd hj (h.not_holds hholds hij)) hclient,
    hstored, .inl ⟨i, ?_⟩, fun hno => absurd (s.setClient_self i _) (hno i _ _)⟩
  change ((s.setClient i _).clients i).HasUpdates
  rw [SharedState.setClient_self]
  obtain ⟨-, -, -, -, -, -, hupd, -⟩ := hok
  exact ⟨_, rfl, hupd⟩

/-- A write has completed. -/
theorem SharedInv.final (h : SharedInv conf drv cl s) {obj obj' : MioObj} {fl : Flight}
    {req : WriteReq} {op : RwOp} (hphase : s.clients i = .writing obj fl)
    (hok : WritingOk conf cl s.cluster.bytes s.writes obj' ⟨req, op, .completed⟩)
    (hdrv : obj'.moDrvObj = obj.moDrvObj) (hsize : obj'.size ≤ plainSize cl s.writes) :
    SharedInv conf drv cl (s.setClient i (.locked obj')) := by
  have hholds := ClientPhase.holds_of_writing hphase
  have hclient : ClientOk conf drv cl (s.setClient i (.locked obj')) i (.locked obj') := by
    refine ⟨fun _ => (h.clients i).lock hholds, fun obj'' hobj'' => ?_,
      fun _ _ hp => absurd hp (by simp)⟩
    obtain rfl := Option.some.inj hobj''
    exact ⟨hdrv.trans ((h.clients i).handle obj (by rw [hphase]; rfl)).1, hsize⟩
  refine ⟨h.clients_of_move rfl le_rfl (fun j hij hj => absurd hj (h.not_holds hholds hij)) hclient,
    h.stored_le, .inl ⟨i, ?_⟩, fun _ => hok.completed⟩
  rw [SharedState.setClient_self]
  obtain ⟨-, -, -, -, -, -, hupd, -⟩ := hok
  exact ⟨_, rfl, hupd⟩

/-- A handle is closed that has the right size, or is not the last with attributes to
store. -/
theorem SharedInv.close (h : SharedInv conf drv cl s) {obj : MioObj}
    (hphase : s.clients i = .unlocked obj)
    (hup : obj.moAttrsUpdated = true → plainSize cl s.writes ≤ obj.size ∨
      ∃ j, j ≠ i ∧ (s.clients j).HasUpdates) :
    SharedInv conf drv cl
      { s.setClient i .closed with cluster := mioObjClose ⟨s.cluster, obj⟩ } := by
  have hbytes : (mioObjClose ⟨s.cluster, obj⟩).bytes = s.cluster.bytes := by
    simp only [mioObjClose]
    split <;> rfl
  have hok : ClientOk conf drv cl
      { s.setClient i .closed with cluster := mioObjClose ⟨s.cluster, obj⟩ } i .closed :=
    ⟨False.elim, fun _ hobj => absurd hobj (by simp [ClientPhase.handle]),
      fun _ _ hp => absurd hp (by simp)⟩
  have hsize := ((h.clients i).handle obj (by rw [hphase]; rfl)).2
  -- who else has attributes to store still has them
  have hother : (∃ j, j ≠ i ∧ (s.clients j).HasUpdates) →
      ∃ j, ((s.setClient i .closed).clients j).HasUpdates := by
    rintro ⟨j, hij, hj⟩
    exact ⟨j, by rwa [SharedState.setClient_of_ne s _ hij]⟩
  have hstored : storedSize (mioObjClose ⟨s.cluster, obj⟩).attrs ≤ plainSize cl s.writes ∧
      ((∃ j, ((s.setClient i .closed).clients j).HasUpdates) ∨
        storedSize (mioObjClose ⟨s.cluster, obj⟩).attrs = plainSize cl s.writes) := by
    cases hupd : obj.moAttrsUpdated with
    | true =>
      have hattrs : storedSize (mioObjClose ⟨s.cluster, obj⟩).attrs = obj.size := by
        simp only [mioObjClose, MioObj.withHints, hupd, if_true]
        exact storedSize_mem2wire _
      rw [hattrs]
      refine ⟨hsize, ?_⟩
      rcases hup hupd with hle | hex
      · exact .inr (le_antisymm hsize hle)
      · exact .inl (hother hex)
    | false =>
      have hattrs : (mioObjClose ⟨s.cluster, obj⟩).attrs = s.cluster.attrs := by
        simp [mioObjClose, MioObj.withHints, hupd]
      rw [hattrs]
      refine ⟨h.stored_le, h.stored.imp_left fun hex => ?_⟩
      obtain ⟨j, hj⟩ := hex
      refine hother ⟨j, fun hij => ?_, hj⟩
      subst hij
      obtain ⟨obj', hobj', hupd'⟩ := hj
      rw [hphase] at hobj'
      obtain rfl := Option.some.inj hobj'
      exact absurd (hupd.symm.trans hupd') (by simp)
  refine ⟨h.clients_of_move rfl le_rfl (fun _ _ _ => ⟨rfl, rfl, hbytes⟩) hok, hstored.1, hstored.2,
    fun hno => ?_⟩
  change (mioObjClose ⟨s.cluster, obj⟩).bytes = _
  rw [hbytes]
  exact h.bytes_of_move (by simp [hphase]) hno

/-- **A step that does not go wrong keeps the invariant.** -/
theorem SharedInv.step (h : SharedInv conf drv cl s)
    (hzero : ZeroFrom (storedSize cl.attrs) cl.bytes) {s' : SharedState ι} {a : SharedAct ι}
    (hwrap : ∀ r ∈ s'.writes, ∀ v ∈ r.iov, v.NoWrap) (hup : UpToDate conf cl s a)
    (heff : SharedEffect conf drv s a s') : SharedInv conf drv cl s' := by
  -- the end of the write under way counts already
  have hend : ∀ {i obj fl}, s.clients i = .writing obj fl →
      obj.size ≤ plainSize cl s.writes ∧ maxEnd fl.req.iov ≤ plainSize cl s.writes := by
    intro i obj fl hphase
    refine ⟨((h.clients i).handle obj (by rw [hphase]; rfl)).2, ?_⟩
    obtain ⟨prev, -, -, hwrites, -⟩ := (h.clients i).writing obj fl hphase
    rw [hwrites, plainSize_snoc]
    exact le_max_right _ _
  cases heff with
  | opn i w phase load => exact h.opn phase load
  | lock i obj phase free =>
    refine h.relock (by rw [phase]; rfl) rfl (by simp [phase]) (by simp)
      (fun _ => rfl) fun j _ hj => ?_
    exact absurd (free.symm.trans ((h.clients j).lock hj)) (by simp)
  | submit i req obj op phase launch =>
    refine h.submit hzero phase (hwrap req ?_) (hup obj (by rw [phase]; rfl)) launch
    exact List.mem_append_right _ (List.mem_singleton_self req)
  | complete i obj req op cluster mem phase exec =>
    obtain ⟨hok, hattrs⟩ := ((h.clients i).writing _ _ phase).exec exec
    refine h.progress phase hok rfl (hend phase).1 ?_
    rcases hattrs with hattrs | hattrs
    · rw [hattrs]
      exact h.stored_le
    · rw [hattrs]
      exact (hend phase).2
  | next i obj req op phase' obj' op' phase post =>
    obtain ⟨hok, hdrv, hsize⟩ := ((h.clients i).writing _ _ phase).post post
    exact h.progress phase hok hdrv (hsize.trans (max_le (hend phase).1 (hend phase).2))
      h.stored_le
  | final i obj req op obj' op' phase post =>
    obtain ⟨hok, hdrv, hsize⟩ := ((h.clients i).writing _ _ phase).post post
    exact h.final phase hok hdrv (hsize.trans (max_le (hend phase).1 (hend phase).2))
  | unlock i obj phase =>
    refine h.relock (by rw [phase]; rfl) rfl (by simp [phase]) (by simp)
      False.elim fun j hij => ?_
    exact h.not_holds (by rw [phase]; trivial) hij
  | close i obj phase => exact h.close phase (hup obj (by rw [phase]; rfl))

/-- Writes are only ever added. -/
theorem SharedEffect.writes_sublist {s' : SharedState ι} {a : SharedAct ι}
    (h : SharedEffect conf drv s a s') : s.writes.Sublist s'.writes := by
  cases h with
  | submit i req obj op phase launch => exact List.sublist_append_left _ _
  | _ => exact List.Sublist.refl _

/-- A step that succeeds and does not go wrong. -/
def CarefulStep (conf : MioMotrConfig) (drv : M0Obj) (cl : Cluster) (s : SharedState ι)
    (e : SharedAct ι × Option Fault) (s' : SharedState ι) : Prop :=
  StepOf (SharedState.step conf drv) s e s' ∧ e.2 = none ∧ UpToDate conf cl s e.1

/-- **A shared object is as it should be, as long as no handle is out of date where it
matters.** For any number of clients, and however their calls, the ops of Motr and
the calls of post-processing functions interleave. -/
theorem sharedOk_of_upToDate {es : List (SharedAct ι × Option Fault)}
    (hrun : Run (CarefulStep conf drv cl) (.init ι cl) es s)
    (hzero : ZeroFrom (storedSize cl.attrs) cl.bytes)
    (hwrap : ∀ r ∈ s.writes, ∀ v ∈ r.iov, v.NoWrap) : SharedOk cl s := by
  have hinv : SharedInv conf drv cl s := by
    refine Run.inv (fun _ s => (∀ r ∈ s.writes, ∀ v ∈ r.iov, v.NoWrap) → SharedInv conf drv cl s)
      (fun _ => sharedInv_init cl) (fun es e t u ih hstep hwrap => ?_) hrun hwrap
    obtain ⟨hstep, hrc, hup⟩ := hstep
    rw [StepOf, hrc] at hstep
    have heff := sharedEffect hstep
    exact (ih fun r hr => hwrap r (heff.writes_sublist.subset hr)).step hzero hwrap hup heff
  intro hclosed
  refine ⟨hinv.bytes fun i obj fl hi => ?_, hinv.stored.resolve_left ?_⟩
  · have := hclosed i
    rw [hi] at this
    exact absurd this (by simp [ClientPhase.handle])
  · rintro ⟨i, obj, hobj, -⟩
    exact absurd (hobj.symm.trans (hclosed i)) (by simp)

end Inv

/-- Make a step only if it succeeds and does not go wrong. -/
def SharedState.carefulStep [Fintype ι] [DecidableEq ι] (conf : MioMotrConfig) (drv : M0Obj)
    (cl : Cluster) (s : SharedState ι) (a : SharedAct ι) :
    Option (Option Fault × SharedState ι) :=
  if UpToDate conf cl s a then (s.step conf drv a).filter fun r => r.1.isNone else none

theorem carefulStep_of_stepOf [Fintype ι] [DecidableEq ι] {cl : Cluster} {s s' : SharedState ι}
    {e : SharedAct ι × Option Fault}
    (h : StepOf (SharedState.carefulStep conf drv cl) s e s') :
    CarefulStep conf drv cl s e s' := by
  rw [StepOf, SharedState.carefulStep] at h
  split at h
  · next hup =>
    obtain ⟨hstep, hrc⟩ := Option.filter_eq_some_iff.mp h
    exact ⟨hstep, Option.isNone_iff_eq_none.mp hrc, hup⟩
  · exact absurd h (by simp)

/-! ### Two clients -/

/-- An object that has never been written. -/
def emptyCluster : Cluster := ⟨fun _ => 0, none⟩

/-- What happens while a client holds the lock, if it makes a write that needs one op
for its data and ends beyond the size in the handle. -/
def lockedWrite (i : Bool) (req : WriteReq) : List (SharedAct Bool) :=
  [.lock i, .submit i req, .complete i, .post i, .complete i, .post i, .unlock i]

/-- Two clients open the object, then each writes two pages. The first to write is the
first to close. -/
def appendActs : List (SharedAct Bool) :=
  [.opn false, .opn true] ++ lockedWrite false ⟨1, fun _ => 7, [⟨0, 0, 4⟩]⟩ ++
    lockedWrite true ⟨2, fun _ => 9, [⟨0, 4, 4⟩]⟩ ++ [.close false, .close true]

/-- This comes out right, although the second write is made on a handle that does not
know of the first. -/
theorem sharedOk_appendActs :
    ∃ es s, exec (SharedState.carefulStep ⟨4⟩ .twoBytePages emptyCluster) (.init Bool emptyCluster)
        appendActs = some (es, s) ∧ (∀ i, (s.clients i).handle = none) ∧
      s.writes.map WriteReq.iov = [[⟨0, 0, 4⟩], [⟨0, 4, 4⟩]] ∧
      s.cluster.bytes = plainBytes emptyCluster.bytes s.writes ∧
      storedSize s.cluster.attrs = plainSize emptyCluster s.writes := by
  have hexec : ((exec (SharedState.carefulStep ⟨4⟩ .twoBytePages emptyCluster)
      (.init Bool emptyCluster) appendActs).map fun r =>
        ((r.2.clients false).handle, (r.2.clients true).handle, r.2.writes.map WriteReq.iov)) =
      some (none, none, [[⟨0, 0, 4⟩], [⟨0, 4, 4⟩]]) := by
    decide +kernel
  obtain ⟨⟨es, s⟩, hres, hval⟩ := Option.map_eq_some_iff.mp hexec
  obtain ⟨hfalse, hval⟩ := Prod.mk.inj hval
  obtain ⟨htrue, hiovs⟩ := Prod.mk.inj hval
  have hclosed : ∀ i, (s.clients i).handle = none := Bool.forall_bool.mpr ⟨hfalse, htrue⟩
  have hwrap : ∀ r ∈ s.writes, ∀ v ∈ r.iov, v.NoWrap := by
    intro r hr
    have hmem : r.iov ∈ s.writes.map WriteReq.iov := List.mem_map_of_mem hr
    rw [hiovs] at hmem
    rcases List.mem_pair.mp hmem with h | h
    · rw [h]
      decide
    · rw [h]
      decide
  obtain ⟨hbytes, hstored⟩ := sharedOk_of_upToDate
    ((run_of_exec _ hres).mono fun _ _ _ => carefulStep_of_stepOf) (fun _ _ => rfl) hwrap hclosed
  exact ⟨es, s, hres, hclosed, hiovs, hbytes, hstored⟩

/-- Two clients open the object. The first writes three bytes, then the second writes
one of them again. -/
def staleActs : List (SharedAct Bool) :=
  [.opn false, .opn true] ++ lockedWrite false ⟨1, fun _ => 7, [⟨0, 0, 3⟩]⟩ ++ [.close false] ++
    lockedWrite true ⟨2, fun _ => 9, [⟨0, 1, 1⟩]⟩ ++ [.close true]

/-- **A handle that is out of date destroys data**: the byte before the one that the
second client writes is gone, and so is the last byte, for the stored size is that
of the second client. -/
theorem not_sharedOk :
    ∃ es s, exec (SharedState.step ⟨4⟩ .twoBytePages) (.init Bool emptyCluster) staleActs =
        some (es, s) ∧ (∀ e ∈ es, e.2 = none) ∧ (∀ r ∈ s.writes, ∀ v ∈ r.iov, v.NoWrap) ∧
      (s.cluster.bytes 0 = 0 ∧ plainBytes emptyCluster.bytes s.writes 0 = 7) ∧
      (storedSize s.cluster.attrs = 2 ∧ plainSize emptyCluster s.writes = 3) ∧
      ¬SharedOk emptyCluster s := by
  have hexec : ((exec (SharedState.step ⟨4⟩ .twoBytePages) (.init Bool emptyCluster)
      staleActs).map fun r => decide ((∀ e ∈ r.1, e.2 = none) ∧
        (∀ q ∈ r.2.writes, ∀ v ∈ q.iov, v.NoWrap) ∧
        ((r.2.clients false).handle = none ∧ (r.2.clients true).handle = none) ∧
        (r.2.cluster.bytes 0 = 0 ∧ plainBytes emptyCluster.bytes r.2.writes 0 = 7) ∧
        storedSize r.2.cluster.attrs = 2 ∧ plainSize emptyCluster r.2.writes = 3)) =
      some true := by
    decide +kernel
  obtain ⟨⟨es, s⟩, hres, hval⟩ := Option.map_eq_some_iff.mp hexec
  obtain ⟨hrc, hwrap, hclosed, hbytes, hsize⟩ := of_decide_eq_true hval
  refine ⟨es, s, hres, hrc, hwrap, hbytes, hsize, fun hok => ?_⟩
  have hstored := (hok (Bool.forall_bool.mpr hclosed)).2
  rw [hsize.1, hsize.2] at hstored
  exact absurd hstored (by decide)

end CortxMio
