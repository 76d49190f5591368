import CortxMio.Api.Entry
import CortxMio.Obj.SizeCall

/-!
# Requests that are turned down

`mio_obj_writev` and `mio_obj_readv` as they return, with the op of the request not yet
executed: a return code, the handle, and the driver ops in the chain of the operation. A
request may be turned down for its arguments, for the instance, by the sort, by the
adjustment of its ranges or because no op takes them. None of these leaves a driver op
behind (`CortxMio.ofRejected`).

The statistics are another matter. They are updated before anything but the pointers has
been looked at, and with them the flag that has the attributes stored on close. So a
request that is turned down leaves the handle as it was only if it does not get that
far, or if it has no ranges and the flag was set already (`CortxMio.untouched_iff`).
-/

namespace CortxMio

open Lib

variable (conf : MioMotrConfig) (inst : Option Entry.Mio)

/-! ### Calls as they return -/

/-- What a call returns and leaves behind. -/
structure Submitted where
  /-- The return code. -/
  rc : ℤ
  /-- The handle. -/
  obj : MioObj
  /-- `mop_drv_op_chain`, the head first, if there is an operation. -/
  chain : Option (List MioDriverOp)

/-- `mio_obj_writev` and `mio_obj_readv`, given the function of the driver. -/
def objRwSubmit (isWrite : Bool) (submit : MioObj → Except Fault RwOp) (obj : MioObj)
    (now : UInt64) (iov : List (MioIovec ℕ)) (op : Option (List MioDriverOp)) :
    Except Fault Submitted :=
  match op with
  | none => .ok ⟨-EINVAL, obj, op⟩
  | some chain =>
      let obj := objStatsUpdate obj isWrite now iov
      -- `mio_obj_op_init`
      if Entry.mioInstanceCheck inst ≠ 0 then .ok ⟨Entry.mioInstanceCheck inst, obj, op⟩
      else match submit obj with
        | .error (.err rc) => .ok ⟨rc, obj, op⟩
        | .error f => .error f
        | .ok rw => .ok ⟨0, obj, some (rw.head :: chain)⟩

/-- `mio_obj_writev`. -/
def objWritevSubmit (obj : MioObj) (now : UInt64) (app : ℕ → Byte) (iov : List (MioIovec ℕ))
    (op : Option (List MioDriverOp)) : Except Fault Submitted :=
  objRwSubmit inst true (fun obj => mioMotrObjWritev conf obj app iov) obj now iov op

/-- `mio_obj_readv`. -/
def objReadvSubmit (obj : MioObj) (now : UInt64) (app : ℕ → Byte) (iov : List (MioIovec ℕ))
    (op : Option (List MioDriverOp)) : Except Fault Submitted :=
  objRwSubmit inst false (fun obj => mioMotrObjReadv conf obj app iov) obj now iov op

/-- Either of them. -/
def objSubmit (isWrite : Bool) (obj : MioObj) (now : UInt64) (app : ℕ → Byte)
    (iov : List (MioIovec ℕ)) (op : Option (List MioDriverOp)) : Except Fault Submitted :=
  if isWrite then objWritevSubmit conf inst obj now app iov op
  else objReadvSubmit conf inst obj now app iov op

/-- **Nothing has happened**: the handle is as it was, no driver op has been added, the
next close stores the same, and the object is as hot as it was. -/
structure Untouched (obj : MioObj) (op : Option (List MioDriverOp)) (s : Submitted) : Prop where
  /-- The handle: its size, statistics, hints and the flag. -/
  handle : s.obj = obj
  /-- The chain. -/
  chain : s.chain = op
  /-- What the next close stores. -/
  close : ∀ cluster, mioObjClose ⟨cluster, s.obj⟩ = mioObjClose ⟨cluster, obj⟩
  /-- The hotness. -/
  hotness : objHotIndexCal s.obj = objHotIndexCal obj

variable {conf inst} {obj : MioObj} {now : UInt64} {app : ℕ → Byte} {iov : List (MioIovec ℕ)}
  {op : Option (List MioDriverOp)} {isWrite : Bool} {s : Submitted}

theorem untouched_of_eq (hobj : s.obj = obj) (hchain : s.chain = op) : Untouched obj op s := by
  refine ⟨hobj, hchain, fun cluster => ?_, ?_⟩
  · rw [hobj]
  · rw [hobj]

/-- Both are instances of the one. -/
theorem exists_submit (conf : MioMotrConfig) (inst : Option Entry.Mio) (isWrite : Bool)
    (app : ℕ → Byte) (iov : List (MioIovec ℕ)) :
    ∃ submit, ∀ obj now op, objSubmit conf inst isWrite obj now app iov op =
      objRwSubmit inst isWrite submit obj now iov op := by
  cases isWrite with
  | true => exact ⟨fun obj => mioMotrObjWritev conf obj app iov, fun _ _ _ => rfl⟩
  | false => exact ⟨fun obj => mioMotrObjReadv conf obj app iov, fun _ _ _ => rfl⟩

/-! ### The statistics -/

/-- The ranges of a request are counted. -/
theorem objStatsUpdate_ne (hne : iov ≠ []) (hcnt : iov.length < 2 ^ 31) :
    objStatsUpdate obj isWrite now iov ≠ obj := by
  intro heq
  have hgrown := grown_objStatsUpdate obj isWrite now iov
  rw [heq] at hgrown
  have hpos : 0 < iov.length := List.length_pos_iff.mpr hne
  have hzero : UInt64.ofNat iov.length = 0 := by
    cases isWrite with
    | true => exact left_eq_add.mp hgrown.wcount
    | false => exact left_eq_add.mp hgrown.rcount
  have hnat : iov.length % 2 ^ 64 = 0 := by
    have h := congrArg UInt64.toNat hzero
    rwa [UInt64.toNat_ofNat'] at h
  omega

/-- An update without ranges sets the flag. -/
theorem objStatsUpdate_nil_iff :
    objStatsUpdate obj isWrite now [] = obj ↔ obj.moAttrsUpdated = true := by
  constructor
  · intro h
    rw [← h]
    rfl
  · intro h
    obtain ⟨hints, updated, attrs, drv⟩ := obj
    subst h
    rfl

/-- **When an update of the statistics leaves the handle alone.** -/
theorem objStatsUpdate_eq_iff (hcnt : iov.length < 2 ^ 31) :
    objStatsUpdate obj isWrite now iov = obj ↔ iov = [] ∧ obj.moAttrsUpdated = true := by
  by_cases hnil : iov = []
  · subst hnil
    rw [objStatsUpdate_nil_iff, eq_self_iff_true, true_and]
  · exact iff_of_false (objStatsUpdate_ne hnil hcnt) fun h => hnil h.1

/-! ### Rejected requests -/

/-- **A rejected request** adds no driver op, and the handle is as `obj_stats_update`
has left it, if it was called. -/
theorem ofRejected (h : objSubmit conf inst isWrite obj now app iov op = .ok s) (hrc : s.rc < 0) :
    s.chain = op ∧
      s.obj = if op = none then obj else objStatsUpdate obj isWrite now iov := by
  obtain ⟨submit, hsubmit⟩ := exists_submit conf inst isWrite app iov
  rw [hsubmit] at h
  cases op with
  | none =>
    obtain rfl := Except.ok.inj h
    exact ⟨rfl, rfl⟩
  | some chain =>
    rw [if_neg (by simp)]
    rw [objRwSubmit] at h
    split at h
    · obtain rfl := Except.ok.inj h
      exact ⟨rfl, rfl⟩
    · split at h
      · obtain rfl := Except.ok.inj h
        exact ⟨rfl, rfl⟩
      · exact absurd h (by simp)
      · -- the request has been launched
        obtain rfl := Except.ok.inj h
        exact absurd hrc (lt_irrefl 0)

/-- **When a rejected request leaves everything as it was**: for every handle, instance
and operation, and all ranges that an `int` counts, exactly if there is no operation, or
if there are no ranges and the attributes were to be stored anyway. -/
theorem untouched_iff (h : objSubmit conf inst isWrite obj now app iov op = .ok s)
    (hrc : s.rc < 0) (hcnt : iov.length < 2 ^ 31) :
    Untouched obj op s ↔ op = none ∨ iov = [] ∧ obj.moAttrsUpdated = true := by
  obtain ⟨hchain, hobj⟩ := ofRejected h hrc
  by_cases hop : op = none
  · rw [if_pos hop] at hobj
    exact iff_of_true (untouched_of_eq hobj hchain) (.inl hop)
  · rw [if_neg hop] at hobj
    rw [or_iff_right hop, ← objStatsUpdate_eq_iff hcnt, ← hobj]
    exact ⟨fun hs => hs.handle, fun heq => untouched_of_eq heq hchain⟩

/-- An instance with a driver that has all it takes. -/
def Entry.Mio.ready : Entry.Mio := ⟨some ⟨true, true, none, none, none⟩⟩

/-- An object without a pool version, and with attributes to be stored. -/
def noPver : MioObj :=
  { MioObj.zeroed { M0Obj.twoBytePages with oaPver := none } with moAttrsUpdated := true }

/-- No ranges for an object without a pool version. -/
theorem untouched_noPver :
    ∃ s, objSubmit ⟨2⟩ (some .ready) true noPver 0 (fun _ => 0) [] (some []) = .ok s ∧
      s.rc < 0 ∧ Untouched noPver (some []) s := by
  have hsubmit : objSubmit ⟨2⟩ (some .ready) true noPver 0 (fun _ => 0) [] (some []) =
    .ok ⟨-ENOMEM, noPver, some []⟩ := rfl
  have huntouched := (untouched_iff hsubmit (by decide) (by decide)).mpr (.inr ⟨rfl, rfl⟩)
  exact ⟨_, hsubmit, by decide, huntouched⟩

/-- Two ranges that overlap. -/
theorem not_untouched_overlap :
    ∃ s, objSubmit ⟨2⟩ (some .ready) true (.zeroed .twoBytePages) 0 (fun _ => 0)
        [⟨0, 0, 2⟩, ⟨0, 1, 2⟩] (some []) = .ok s ∧
      s.rc < 0 ∧ ¬Untouched (.zeroed .twoBytePages) (some []) s := by
  refine ⟨⟨-EINVAL, _, _⟩, rfl, by decide, fun h => ?_⟩
  have hcount : (2 : UInt64) = 0 := congrArg (fun obj => obj.moAttrs.moaStats.mosWcount) h.handle
  exact absurd hcount (by decide)

end CortxMio
