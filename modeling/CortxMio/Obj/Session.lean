import CortxMio.Lib.Run
import CortxMio.Obj.Hints
import CortxMio.Obj.Whole

/-!
# Sessions on an object

What one client can do with one object: create it, open it, use the handle and
close it again, as often as it likes (`CortxMio.Call`, `CortxMio.Session.step`).
Calls may fail and are then part of the history all the same.

What a call on an open handle can do to the world is said once
(`CortxMio.callEffect`). It keeps the maps of hints in place and the record of
the object one that the encoder has made and the decoder takes
(`CortxMio.CallEffect.hintsOk`, `CortxMio.CallEffect.recordOk`).
-/

namespace CortxMio

open Lib

/-! ### Calls on an open handle -/

/-- A call on an open handle. -/
inductive ObjCall
  /-- `mio_obj_writev`, at a given time and with given application memory. -/
  | writev (now : UInt64) (app : ℕ → Byte) (iov : List (MioIovec ℕ))
  /-- `mio_obj_readv`. -/
  | readv (now : UInt64) (app : ℕ → Byte) (iov : List (MioIovec ℕ))
  /-- `mio_obj_size`. -/
  | size
  /-- `mio_obj_hint_set`. -/
  | hintSet (key : Int32) (value : UInt64)
  /-- `mio_obj_hints_set`. -/
  | hintsSet (hints : MioHintMap)
  /-- `mio_obj_hint_get`. -/
  | hintGet (key : Int32)
  /-- `mio_obj_hints_get`. -/
  | hintsGet (hints : MioHintMap)

/-- A call that may fail, on a world that it then leaves alone. -/
def orElse (w : World) : Except Fault World → Option Fault × World
  | .ok w' => (none, w')
  | .error f => (some f, w)

variable (conf : MioMotrConfig)

/-- A call, run to its end: how it failed, if it did, and the world. -/
def World.call (w : World) : ObjCall → Option Fault × World
  | .writev now app iov => mioObjWritev conf w now app iov
  | .readv now app iov =>
      let (rc, w, _) := mioObjReadv conf w now app iov
      (rc, w)
  | .size => orElse w (mioObjSize w)
  | .hintSet key value => orElse w (mioObjHintSet w key value)
  | .hintsSet hints => orElse w (mioObjHintsSet w hints)
  | .hintGet key =>
      match mioObjHintGet w.obj key with
      | .error f => (some f, w)
      | .ok (obj, .error f) => (some f, { w with obj := obj })
      | .ok (obj, .ok _) => (none, { w with obj := obj })
  | .hintsGet hints =>
      match mioObjHintsGet w.obj hints with
      | .error f => (some f, w)
      | .ok _ => (none, w)

/-! ### Sessions -/

/-- What there is of an object: Motr's side, whether the object has been
created, and the client's handle, if one is open. -/
structure Session where
  /-- Whether the object exists. -/
  created : Bool
  /-- Motr's side. -/
  cluster : Cluster
  /-- The open handle. -/
  handle : Option MioObj

/-- Nothing there yet. -/
def Session.fresh : Session := ⟨false, ⟨fun _ => 0, none⟩, none⟩

/-- What the client can do. -/
inductive Call
  /-- `mio_obj_create`, which leaves the object open. -/
  | create
  /-- `mio_obj_open`. -/
  | opn
  /-- `mio_obj_close`. -/
  | close
  /-- A call on the open handle. -/
  | obj (c : ObjCall)

/-- One call, if it can be made, and how it ended. An object is created once, and
a handle is opened, on cleared memory, only when none is open. -/
def Session.step (drv : M0Obj) (s : Session) : Call → Option (Option Fault × Session)
  | .create =>
      if s.created then none
      else match s.handle with
        | some _ => none
        | none => some (none, ⟨true, s.cluster, some (mioObjCreate drv s.cluster).obj⟩)
  | .opn =>
      if s.created then
        match s.handle with
        | some _ => none
        | none =>
            match mioObjOpen drv s.cluster with
            | .error f => some (some f, s)
            | .ok w => some (none, ⟨true, w.cluster, some w.obj⟩)
      else none
  | .close =>
      match s.handle with
      | none => none
      | some obj => some (none, ⟨s.created, mioObjClose ⟨s.cluster, obj⟩, none⟩)
  | .obj c =>
      match s.handle with
      | none => none
      | some obj =>
          let (rc, w) := World.call conf ⟨s.cluster, obj⟩ c
          some (rc, ⟨s.created, w.cluster, some w.obj⟩)

/-- A call and how it ended. -/
abbrev Event := Call × Option Fault

/-- The history of an object from before its creation. -/
abbrev SessionRun (drv : M0Obj) : List Event → Session → Prop :=
  Run (StepOf (Session.step conf drv)) Session.fresh

/-! ### The record of an object -/

/-- A record that the encoder has made of a handle with the maps in place. -/
def RecordOk (attrs : Option (List Byte)) : Prop :=
  ∀ buf, attrs = some buf →
    ∃ src : MioObj, src.moAttrs.moaPhints.Wf ∧ buf = motrObjAttrsMem2wire src

theorem recordOk_none : RecordOk none := fun _ h => absurd h (by simp)

theorem recordOk_mem2wire {src : MioObj} (h : src.moAttrs.moaPhints.Wf) :
    RecordOk (some (motrObjAttrsMem2wire src)) := by
  rintro buf hbuf
  obtain rfl := Option.some.inj hbuf
  exact ⟨src, h, rfl⟩

/-- **Loading what is stored** succeeds: there is nothing, or the handle takes
over what the record was made of. -/
theorem motrObjAttrsGetPp_cases {attrs : Option (List Byte)} (h : RecordOk attrs) (obj : MioObj) :
    (attrs = none ∧ motrObjAttrsGetPp attrs obj = .ok obj) ∨
      ∃ src : MioObj, src.moAttrs.moaPhints.Wf ∧ attrs = some (motrObjAttrsMem2wire src) ∧
        motrObjAttrsGetPp attrs obj = .ok (obj.load src) := by
  cases hattrs : attrs with
  | none => exact Or.inl ⟨rfl, rfl⟩
  | some buf =>
    obtain ⟨src, hsrc, rfl⟩ := h buf hattrs
    exact Or.inr ⟨src, hsrc, rfl, motrObjAttrsGetPp_mem2wire obj hsrc⟩

/-- What opening the object would find in its record. -/
def storedObj (attrs : Option (List Byte)) : MioObj :=
  match motrObjAttrsGetPp attrs (objInit ⟨0, none, by decide⟩) with
  | .ok obj => obj
  | .error _ => objInit ⟨0, none, by decide⟩

theorem storedObj_mem2wire (src : MioObj) (h : src.moAttrs.moaPhints.Wf) :
    storedObj (some (motrObjAttrsMem2wire src)) = (objInit ⟨0, none, by decide⟩).load src := by
  rw [storedObj, motrObjAttrsGetPp_mem2wire _ h]

/-! ### What a call can do -/

/-- A read or a write. -/
def ObjCall.IsIo : ObjCall → Prop
  | .writev .. | .readv .. => True
  | _ => False

/-- A call that sets hints. -/
def ObjCall.IsSet : ObjCall → Prop
  | .hintSet .. | .hintsSet .. => True
  | _ => False

/-- The hints that a call sets. -/
def ObjCall.sets : ObjCall → List (Int32 × UInt64)
  | .hintSet key value => [(key, value)]
  | .hintsSet hints => hints.pairs
  | _ => []

/-- What a call on an open handle can do to the world. -/
inductive CallEffect (w : World) : ObjCall → Option Fault → World → Prop
  /-- A write. -/
  | writev {now : UInt64} {app : ℕ → Byte} {iov : List (MioIovec ℕ)} {rc : Option Fault}
      {w' : World}
      (frame : WriteFrame w.cluster (objStatsUpdate w.obj true now iov) w'.cluster w'.obj) :
      CallEffect w (.writev now app iov) rc w'
  /-- A read. -/
  | readv {now : UInt64} {app : ℕ → Byte} {iov : List (MioIovec ℕ)} {rc : Option Fault} :
      CallEffect w (.readv now app iov) rc ⟨w.cluster, objStatsUpdate w.obj false now iov⟩
  /-- A record is loaded. -/
  | load {src : MioObj} (wf : src.moAttrs.moaPhints.Wf)
      (attrs : w.cluster.attrs = some (motrObjAttrsMem2wire src)) :
      CallEffect w .size none ⟨w.cluster, w.obj.load src⟩
  /-- Hints are set and stored. -/
  | set {c : ObjCall} {map : MioHintMap} (isSet : c.IsSet) (wf : map.Wf)
      (nrEntries : map.mhmNrEntries = mioObjHintNum)
      (lookup : map.lookup = updateAll w.obj.moHints.lookup c.sets) :
      CallEffect w c none (objHintStore { w with obj := w.obj.withHints map })
  /-- The dynamic hint is computed. -/
  | hot {map : MioHintMap} {rc : Option Fault} (wf : map.Wf)
      (nrEntries : map.mhmNrEntries = mioObjHintNum)
      (lookup : map.lookup = Function.update w.obj.moHints.lookup mioHintObjHotIndex
        (some (w.obj.moAttrs.moaStats.mosRcount + w.obj.moAttrs.moaStats.mosWcount))) :
      CallEffect w (.hintGet mioHintObjHotIndex) rc { w with obj := w.obj.withHints map }
  /-- Nothing is changed. -/
  | same {c : ObjCall} {rc : Option Fault} (notIo : ¬c.IsIo) (notSet : c.IsSet → rc ≠ none) :
      CallEffect w c rc w

section Effect

variable {conf} {w w' : World} {rc : Option Fault} (hobj : w.obj.HintsOk)

theorem orElse_ok {r : Except Fault World} {u : World} (h : r = .ok u) :
    orElse w r = (none, u) := by
  rw [h]
  rfl

theorem orElse_error {r : Except Fault World} {f : Fault} (h : r = .error f) :
    orElse w r = (some f, w) := by
  rw [h]
  rfl

/-- Setting hints through a map that is computed first. -/
theorem callEffect_set {c : ObjCall} {r : Except Fault MioHintMap} (hc : c.IsSet) (hio : ¬c.IsIo)
    (hr : ∀ map, r = .ok map → map.Wf ∧ map.mhmNrEntries = mioObjHintNum ∧
      map.lookup = updateAll w.obj.moHints.lookup c.sets)
    (h : orElse w (r >>= fun map => .ok (objHintStore { w with obj := w.obj.withHints map })) =
      (rc, w')) : CallEffect w c rc w' := by
  cases r with
  | error f =>
    obtain ⟨rfl, rfl⟩ : some f = rc ∧ w = w' := by simpa using (orElse_error rfl).symm.trans h
    exact .same hio fun _ => by simp
  | ok map =>
    obtain ⟨rfl, rfl⟩ : none = rc ∧ objHintStore { w with obj := w.obj.withHints map } = w' := by
      simpa using (orElse_ok rfl).symm.trans h
    obtain ⟨hwf, hnr, hlookup⟩ := hr map rfl
    exact .set hc hwf hnr hlookup

include hobj

/-- Querying a hint. -/
theorem callEffect_hintGet {key : Int32}
    (h : World.call conf w (.hintGet key) = (rc, w')) : CallEffect w (.hintGet key) rc w' := by
  simp only [World.call, mioObjHintGet, objDynHintUpdate] at h
  by_cases hkey : key = mioHintObjHotIndex
  · subst hkey
    rw [if_pos rfl, objHotIndexCal] at h
    cases hset : mioHintMapSet w.obj.moHints mioHintObjHotIndex
        (w.obj.moAttrs.moaStats.mosRcount + w.obj.moAttrs.moaStats.mosWcount) with
    | error f =>
      simp only [hset, bind, Except.bind, Prod.mk.injEq] at h
      obtain ⟨rfl, rfl⟩ := h
      exact .same id fun hset => hset.elim
    | ok map =>
      have hst := mioHintMapSet_spec hobj.hints _ hset
      have hw' : w' = { w with obj := w.obj.withHints map } := by
        simp only [hset, bind, Except.bind] at h
        split at h
        · next heq => exact absurd heq (by simp)
        · next heq =>
          simp only [Except.ok.injEq, Prod.mk.injEq] at heq h
          rw [← h.2, ← heq.1]
        · next heq =>
          simp only [Except.ok.injEq, Prod.mk.injEq] at heq h
          rw [← h.2, ← heq.1]
      subst hw'
      exact .hot hst.wf (hst.nrEntries.trans hobj.nrEntries) hst.lookup
  · have hw' : w' = w := by
      rw [if_neg hkey] at h
      simp only [bind, Except.bind] at h
      split at h
      · next heq => exact absurd heq (by simp)
      · next heq =>
        simp only [Except.ok.injEq, Prod.mk.injEq] at heq h
        rw [← h.2, ← heq.1]
      · next heq =>
        simp only [Except.ok.injEq, Prod.mk.injEq] at heq h
        rw [← h.2, ← heq.1]
    subst hw'
    exact .same id fun hset => hset.elim

/-- **What a call on an open handle can do**, said once. -/
theorem callEffect {c : ObjCall} (hrec : RecordOk w.cluster.attrs)
    (h : World.call conf w c = (rc, w')) : CallEffect w c rc w' := by
  cases c with
  | writev now app iov =>
    have hframe := mioObjWritev_frame conf w now app iov
    simp only [World.call] at h
    rw [h] at hframe
    exact .writev hframe
  | readv now app iov =>
    have hframe := mioObjReadv_frame conf w now app iov
    simp only [World.call, Prod.mk.injEq] at h
    rw [h.2] at hframe
    rw [hframe]
    exact .readv
  | size =>
    rcases motrObjAttrsGetPp_cases hrec w.obj with ⟨-, hget⟩ | ⟨src, hsrc, hattrs, hget⟩
    · have hsize : mioObjSize w = .ok w := by rw [mioObjSize, hget]; rfl
      obtain ⟨rfl, rfl⟩ : none = rc ∧ w = w' := by simpa using (orElse_ok hsize).symm.trans h
      exact .same id fun hset => hset.elim
    · have hsize : mioObjSize w = .ok ⟨w.cluster, w.obj.load src⟩ := by rw [mioObjSize, hget]; rfl
      obtain ⟨rfl, rfl⟩ : none = rc ∧ ⟨w.cluster, w.obj.load src⟩ = w' := by
        simpa using (orElse_ok hsize).symm.trans h
      exact .load hsrc hattrs
  | hintSet key value =>
    refine callEffect_set trivial id (fun map hmap => ?_) h
    have hst := mioHintMapSet_spec hobj.hints value hmap
    exact ⟨hst.wf, hst.nrEntries.trans hobj.nrEntries, hst.lookup⟩
  | hintsSet hints =>
    refine callEffect_set trivial id (fun map hmap => ?_) h
    have hne : w.obj.moHints.mhmNrEntries ≠ 0 := by
      rw [hobj.nrEntries]
      decide
    obtain ⟨hwf, hnr, hlookup⟩ := mioHintMapCopy_spec hobj.hints hne hmap
    exact ⟨hwf, hnr.trans hobj.nrEntries, hlookup⟩
  | hintGet key => exact callEffect_hintGet hobj h
  | hintsGet hints =>
    have hw' : w' = w := by
      simp only [World.call] at h
      split at h
      · exact (Prod.mk.inj h).2.symm
      · exact (Prod.mk.inj h).2.symm
    subst hw'
    exact .same id fun hset => hset.elim

end Effect

/-- **Calls keep the maps of hints in place.** -/
theorem CallEffect.hintsOk {w w' : World} {c : ObjCall} {rc : Option Fault}
    (h : CallEffect w c rc w') (hobj : w.obj.HintsOk) : w'.obj.HintsOk := by
  cases h with
  | writev frame =>
    obtain ⟨n, hobj'⟩ := frame.handle
    rw [hobj']
    exact ⟨hobj.hints, hobj.nrEntries, hobj.phints⟩
  | readv => exact ⟨hobj.hints, hobj.nrEntries, hobj.phints⟩
  | load wf attrs => exact hobj.load wf
  | set isSet wf nrEntries lookup => exact ⟨wf, nrEntries, wf_phintsOf wf⟩
  | hot wf nrEntries lookup => exact ⟨wf, nrEntries, hobj.phints⟩
  | same notIo notSet => exact hobj

/-- **Calls keep the record sound.** -/
theorem CallEffect.recordOk {w w' : World} {c : ObjCall} {rc : Option Fault}
    (h : CallEffect w c rc w') (hobj : w.obj.HintsOk) (hrec : RecordOk w.cluster.attrs) :
    RecordOk w'.cluster.attrs := by
  cases h with
  | writev frame =>
    rcases frame.attrs with hattrs | ⟨n, hattrs⟩
    · rw [hattrs]
      exact hrec
    · rw [hattrs]
      exact recordOk_mem2wire hobj.phints
  | readv => exact hrec
  | load wf attrs => exact hrec
  | set isSet wf nrEntries lookup => exact recordOk_mem2wire (wf_phintsOf wf)
  | hot wf nrEntries lookup => exact hrec
  | same notIo notSet => exact hrec

/-! ### What a step of a session can do -/

/-- A session with its maps and its record in place. -/
structure Session.Ok (s : Session) : Prop where
  /-- The record. -/
  record : RecordOk s.cluster.attrs
  /-- The open handle. -/
  hints : ∀ obj, s.handle = some obj → obj.HintsOk
  /-- Before its creation there is nothing of an object. -/
  fresh : s.created = false → s.cluster.attrs = none ∧ s.handle = none

theorem Session.ok_fresh : Session.fresh.Ok :=
  ⟨recordOk_none, fun _ h => absurd h (by simp [Session.fresh]), fun _ => ⟨rfl, rfl⟩⟩

/-- An open object has been created. -/
theorem Session.Ok.created {s : Session} (h : s.Ok) {obj : MioObj} (hobj : s.handle = some obj) :
    s.created = true := by
  cases hc : s.created with
  | true => rfl
  | false => exact absurd (hobj.symm.trans (h.fresh hc).2) (by simp)

variable (drv : M0Obj)

/-- What a step of a session can do. -/
inductive SessionEffect (s : Session) : Event → Session → Prop
  /-- The object is created. -/
  | create (closed : s.handle = none) (attrs : s.cluster.attrs = none) :
      SessionEffect s (.create, none) ⟨true, s.cluster, some (objInit drv)⟩
  /-- The object is opened and has no record. -/
  | opn (closed : s.handle = none) (attrs : s.cluster.attrs = none) :
      SessionEffect s (.opn, none) ⟨true, s.cluster, some (objInit drv)⟩
  /-- The object is opened and its record loaded. -/
  | load {src : MioObj} (closed : s.handle = none) (wf : src.moAttrs.moaPhints.Wf)
      (attrs : s.cluster.attrs = some (motrObjAttrsMem2wire src)) :
      SessionEffect s (.opn, none) ⟨true, s.cluster, some ((objInit drv).load src)⟩
  /-- The object is closed. -/
  | close {obj : MioObj} (handle : s.handle = some obj) (created : s.created = true) :
      SessionEffect s (.close, none) ⟨true, mioObjClose ⟨s.cluster, obj⟩, none⟩
  /-- A call on the open handle. -/
  | obj {obj : MioObj} {c : ObjCall} {rc : Option Fault} {w : World} (handle : s.handle = some obj)
      (created : s.created = true) (call : World.call conf ⟨s.cluster, obj⟩ c = (rc, w))
      (effect : CallEffect ⟨s.cluster, obj⟩ c rc w) :
      SessionEffect s (.obj c, rc) ⟨true, w.cluster, some w.obj⟩

section Step

variable {conf} {drv} {s s' : Session} {e : Event}

/-- **What a step of a session can do**, said once. -/
theorem sessionEffect (hok : s.Ok) (h : StepOf (Session.step conf drv) s e s') :
    SessionEffect conf drv s e s' := by
  obtain ⟨call, rc⟩ := e
  obtain ⟨created, cl, handle⟩ := s
  cases call with
  | create =>
    simp only [StepOf, Session.step] at h
    split at h
    · exact absurd h (by simp)
    · next hc =>
      obtain ⟨hattrs, hclosed⟩ := hok.fresh (by simpa using hc)
      obtain rfl : handle = none := hclosed
      obtain ⟨rfl, rfl⟩ := Prod.mk.inj (Option.some.inj h)
      exact .create rfl hattrs
  | opn =>
    simp only [StepOf, Session.step] at h
    cases handle with
    | some obj => simp at h
    | none =>
      cases created with
      | false => simp at h
      | true =>
        rcases motrObjAttrsGetPp_cases hok.record (objInit drv) with
          ⟨hattrs, hget⟩ | ⟨src, hsrc, hattrs, hget⟩
        · have hopen : mioObjOpen drv cl = .ok ⟨cl, objInit drv⟩ := by
            rw [mioObjOpen, hget]
            rfl
          simp only [hopen, if_true, Option.some.injEq, Prod.mk.injEq] at h
          obtain ⟨rfl, rfl⟩ := h
          exact .opn rfl hattrs
        · have hopen : mioObjOpen drv cl = .ok ⟨cl, (objInit drv).load src⟩ := by
            rw [mioObjOpen, hget]
            rfl
          simp only [hopen, if_true, Option.some.injEq, Prod.mk.injEq] at h
          obtain ⟨rfl, rfl⟩ := h
          exact .load rfl hsrc hattrs
  | close =>
    simp only [StepOf, Session.step] at h
    cases handle with
    | none => simp at h
    | some obj =>
      obtain rfl : created = true := hok.created rfl
      obtain ⟨rfl, rfl⟩ := Prod.mk.inj (Option.some.inj h)
      exact .close rfl rfl
  | obj c =>
    simp only [StepOf, Session.step] at h
    cases handle with
    | none => simp at h
    | some obj =>
      obtain rfl : created = true := hok.created rfl
      obtain ⟨rfl, rfl⟩ := Prod.mk.inj (Option.some.inj h)
      exact .obj rfl rfl rfl (callEffect (hok.hints obj rfl) hok.record rfl)

/-- Closing stores a sound record. -/
theorem recordOk_mioObjClose {w : World} (hobj : w.obj.HintsOk) (hrec : RecordOk w.cluster.attrs) :
    RecordOk (mioObjClose w).attrs := by
  rw [mioObjClose]
  simp only
  split
  · exact recordOk_mem2wire hobj.phints
  · exact hrec

/-- **Steps keep a session sound.** -/
theorem SessionEffect.ok (h : SessionEffect conf drv s e s') (hok : s.Ok) : s'.Ok := by
  have hcreated : ∀ {cl : Cluster} {obj : MioObj}, RecordOk cl.attrs → obj.HintsOk →
      Session.Ok ⟨true, cl, some obj⟩ := by
    intro cl obj hrec hobj
    refine ⟨hrec, fun obj' hobj' => ?_, fun hc => absurd hc (by simp)⟩
    obtain rfl := Option.some.inj hobj'
    exact hobj
  cases h with
  | create closed attrs => exact hcreated hok.record (hintsOk_objInit drv)
  | opn closed attrs => exact hcreated hok.record (hintsOk_objInit drv)
  | load closed wf attrs => exact hcreated hok.record ((hintsOk_objInit drv).load wf)
  | close handle created =>
    exact ⟨recordOk_mioObjClose (hok.hints _ handle) hok.record,
      fun _ hobj => absurd hobj (by simp), fun hc => absurd hc (by simp)⟩
  | obj handle created call effect =>
    exact hcreated (effect.recordOk (hok.hints _ handle) hok.record)
      (effect.hintsOk (hok.hints _ handle))

/-- **The invariant rule for sessions**: what holds before the creation and is
kept by whatever a step can do to a sound session. -/
theorem SessionRun.inv (Inv : List Event → Session → Prop) (init : Inv [] Session.fresh)
    (step : ∀ es e s s', s.Ok → Inv es s → SessionEffect conf drv s e s' → Inv (es ++ [e]) s')
    {es : List Event} (h : SessionRun conf drv es s) : Inv es s := by
  have hrun := Run.inv (fun es s => s.Ok ∧ Inv es s) ⟨Session.ok_fresh, init⟩ ?_ h
  · exact hrun.2
  · rintro es e t u ⟨hok, hinv⟩ hstep
    have heff := sessionEffect hok hstep
    exact ⟨heff.ok hok, step es e t u hok hinv heff⟩

/-- A session stays sound over its whole history. -/
theorem SessionRun.ok {es : List Event} (h : SessionRun conf drv es s) : s.Ok :=
  Run.inv (fun _ s => s.Ok) Session.ok_fresh
    (fun _ _ _ _ hok hstep => (sessionEffect hok hstep).ok hok) h

end Step

end CortxMio
