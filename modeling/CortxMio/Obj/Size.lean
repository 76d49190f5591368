import CortxMio.Obj.Session

/-!
# The size of an object over its history

The size of an object is kept in the handle and in the record; it is stored with
a write that grows it, stored again with every hint and on closing, and loaded
by opening and by `mio_obj_size`. Through all of this both sizes are the largest
end of all ranges of all completed writes (`CortxMio.size_eq_maxEnd_written`).
-/

namespace CortxMio

open Lib

/-! ### Histories of writes -/

/-- The ranges that an event has written. -/
def Event.written : Event → List (MioIovec ℕ)
  | (.obj (.writev _ _ iov), none) => iov
  | _ => []

/-- The ranges of all completed writes. -/
def written (es : List Event) : List (MioIovec ℕ) := es.flatMap Event.written

/-- A completed write. -/
def Event.IsWritten (e : Event) : Prop := ∃ now app iov, e = (.obj (.writev now app iov), none)

/-- No range of a write wraps. -/
def Event.NoWrap : Event → Prop
  | (.obj (.writev _ _ iov), _) => ∀ v ∈ iov, v.NoWrap
  | _ => True

theorem maxEnd_written_snoc (es : List Event) (e : Event) :
    maxEnd (written (es ++ [e])) = max (maxEnd (written es)) (maxEnd e.written) := by
  rw [written, List.flatMap_append, List.flatMap_singleton, maxEnd_append, written]

/-- Sizes never decrease along a history. -/
theorem maxEnd_written_le (es es' : List Event) :
    maxEnd (written es) ≤ maxEnd (written (es ++ es')) := by
  rw [written, written, List.flatMap_append, maxEnd_append]
  exact le_max_left _ _

/-- An event that is not a completed write does not count. -/
theorem maxEnd_written_snoc_of_not {es : List Event} {e : Event} (h : e.written = []) :
    maxEnd (written (es ++ [e])) = maxEnd (written es) := by
  rw [maxEnd_written_snoc, h]
  exact Nat.max_zero _

/-! ### The invariant -/

/-- Both sizes are as the history of writes says. -/
structure SizeInv (es : List Event) (s : Session) : Prop where
  /-- The size in the handle. -/
  handle : ∀ obj, s.handle = some obj → obj.size = maxEnd (written es)
  /-- The size in the record. -/
  stored : storedSize s.cluster.attrs = maxEnd (written es)
  /-- There is a record once a write has completed. -/
  exists_record : (∃ e ∈ es, e.IsWritten) → s.cluster.attrs ≠ none

variable {conf : MioMotrConfig} {drv : M0Obj} {es : List Event}

/-- The invariant of an open session, for an event that is no completed write. -/
theorem SizeInv.of_not_written {s s' : Session} {e : Event} (h : SizeInv es s) (he : e.written = [])
    (hew : ¬e.IsWritten)
    (hhandle : ∀ obj, s'.handle = some obj → obj.size = maxEnd (written es))
    (hstored : storedSize s'.cluster.attrs = maxEnd (written es))
    (hsome : s.cluster.attrs ≠ none → s'.cluster.attrs ≠ none) : SizeInv (es ++ [e]) s' where
  handle := by rwa [maxEnd_written_snoc_of_not he]
  stored := by rwa [maxEnd_written_snoc_of_not he]
  exists_record := by
    rintro ⟨e', he', hw⟩
    rcases List.mem_append.mp he' with hmem | hmem
    · exact hsome (h.exists_record ⟨e', hmem, hw⟩)
    · rw [List.mem_singleton.mp hmem] at hw
      exact absurd hw hew

/-- A call that is neither a read nor a write has written nothing. -/
theorem written_of_not_isIo {c : ObjCall} (hc : ¬c.IsIo) (rc : Option Fault) :
    Event.written (.obj c, rc) = [] ∧ ¬Event.IsWritten (.obj c, rc) := by
  refine ⟨?_, ?_⟩
  · cases c <;> first | rfl | exact absurd trivial hc
  · rintro ⟨now, app, iov, he⟩
    obtain rfl : c = .writev now app iov := by simpa using congrArg Prod.fst he
    exact hc trivial

/-- A write keeps the invariant. -/
theorem SizeInv.writev {s : Session} {obj : MioObj} (h : SizeInv es s) (hobj : s.handle = some obj)
    {now : UInt64} {app : ℕ → Byte} {iov : List (MioIovec ℕ)} (hwrap : ∀ v ∈ iov, v.NoWrap)
    {rc : Option Fault} {w : World}
    (hcall : mioObjWritev conf ⟨s.cluster, obj⟩ now app iov = (rc, w)) :
    SizeInv (es ++ [(.obj (.writev now app iov), rc)]) ⟨true, w.cluster, some w.obj⟩ := by
  have hsize : obj.size = maxEnd (written es) := h.handle obj hobj
  cases rc with
  | none =>
    have hdone := mioObjWritev_none hwrap hcall
    have hsize' : w.obj.size = max (maxEnd (written es)) (maxEnd iov) := by
      rw [hdone.size hwrap, ← hsize]
    have hsnoc : maxEnd (written (es ++ [(.obj (.writev now app iov), none)])) =
        max (maxEnd (written es)) (maxEnd iov) := maxEnd_written_snoc es _
    have hpos := hdone.pos
    have hattrs := hdone.attrs
    -- a write that does not grow the object finds a record, since the size is not zero
    have hstored : storedSize w.cluster.attrs = w.obj.size ∧ w.cluster.attrs ≠ none := by
      split at hattrs
      · next hle =>
        rw [hattrs, h.stored]
        refine ⟨by simp only [hsize] at hle; omega, fun hnone => ?_⟩
        have hzero := h.stored
        rw [hnone, storedSize_none] at hzero
        simp only [hsize] at hle
        omega
      · rw [hattrs]
        exact ⟨storedSize_mem2wire _, by simp⟩
    refine ⟨fun obj' hobj' => ?_, ?_, fun _ => hstored.2⟩
    · obtain rfl := Option.some.inj hobj'
      rw [hsnoc, hsize']
    · rw [hsnoc, ← hsize']
      exact hstored.1
  | some f =>
    obtain ⟨hw, hattrs⟩ := mioObjWritev_some hwrap hcall
    refine h.of_not_written rfl ?_ (fun obj' hobj' => ?_) ?_ (fun hne => ?_)
    · rintro ⟨_, _, _, he⟩
      exact absurd (congrArg Prod.snd he) (by simp)
    · obtain rfl := Option.some.inj hobj'
      rw [hw, objStatsUpdate_size, hsize]
    · exact (congrArg storedSize hattrs).trans h.stored
    · exact fun hnone => hne (hattrs.symm.trans hnone)

/-- The size of a handle after loading a record. -/
theorem size_load (obj src : MioObj) : (obj.load src).size = src.size := rfl

/-- **A call on an open handle keeps the invariant.** -/
theorem SizeInv.call {s : Session} {obj : MioObj} (h : SizeInv es s) (hobj : s.handle = some obj)
    {c : ObjCall} {rc : Option Fault} {w : World} (hwrap : Event.NoWrap (.obj c, rc))
    (hcall : World.call conf ⟨s.cluster, obj⟩ c = (rc, w))
    (heff : CallEffect ⟨s.cluster, obj⟩ c rc w) :
    SizeInv (es ++ [(.obj c, rc)]) ⟨true, w.cluster, some w.obj⟩ := by
  have hsize : obj.size = maxEnd (written es) := h.handle obj hobj
  have hnot : ∀ {obj' : MioObj}, obj'.size = maxEnd (written es) →
      ∀ obj'', some obj' = some obj'' → obj''.size = maxEnd (written es) := by
    intro obj' hobj' obj'' heq
    obtain rfl := Option.some.inj heq
    exact hobj'
  cases heff with
  | writev frame => exact h.writev hobj hwrap hcall
  | readv =>
    refine h.of_not_written ?_ ?_ (hnot hsize) h.stored id
    · rcases rc with _ | f <;> rfl
    · rintro ⟨_, _, _, he⟩
      exact absurd (congrArg Prod.fst he) (by simp)
  | load wf attrs =>
    obtain ⟨hw, hw'⟩ := written_of_not_isIo (c := .size) id none
    refine h.of_not_written hw hw' (hnot ?_) h.stored id
    have hstored := h.stored
    rw [show s.cluster.attrs = _ from attrs, storedSize_mem2wire] at hstored
    rw [size_load, hstored]
  | set isSet wf nrEntries lookup =>
    have hio : ¬c.IsIo := by cases c <;> simp_all [ObjCall.IsSet, ObjCall.IsIo]
    obtain ⟨hw, hw'⟩ := written_of_not_isIo hio none
    refine h.of_not_written hw hw' (hnot hsize) ?_ fun _ => by simp [objHintStore,
      motrObjAttrsUpdateSync]
    exact (storedSize_mem2wire _).trans hsize
  | hot wf nrEntries lookup =>
    obtain ⟨hw, hw'⟩ := written_of_not_isIo (c := .hintGet mioHintObjHotIndex) id rc
    exact h.of_not_written hw hw' (hnot hsize) h.stored id
  | same notIo notSet =>
    obtain ⟨hw, hw'⟩ := written_of_not_isIo notIo rc
    exact h.of_not_written hw hw' (hnot hsize) h.stored id

/-- **A step keeps the invariant.** -/
theorem SizeInv.step {s s' : Session} {e : Event} (h : SizeInv es s) (hwrap : e.NoWrap)
    (heff : SessionEffect conf drv s e s') : SizeInv (es ++ [e]) s' := by
  have hnw : ∀ {c : Call}, (∀ c', c ≠ .obj c') → ¬Event.IsWritten (c, none) := by
    rintro c hc ⟨_, _, _, he⟩
    exact hc _ (congrArg Prod.fst he)
  have hstored := h.stored
  cases heff with
  | create closed attrs =>
    rw [attrs, storedSize_none] at hstored
    refine h.of_not_written rfl (hnw (by simp)) (fun obj hobj => ?_) h.stored id
    obtain rfl := Option.some.inj hobj
    exact hstored
  | opn closed attrs =>
    rw [attrs, storedSize_none] at hstored
    refine h.of_not_written rfl (hnw (by simp)) (fun obj hobj => ?_) h.stored id
    obtain rfl := Option.some.inj hobj
    exact hstored
  | load closed wf attrs =>
    rw [attrs, storedSize_mem2wire] at hstored
    refine h.of_not_written rfl (hnw (by simp)) (fun obj hobj => ?_) h.stored id
    obtain rfl := Option.some.inj hobj
    exact hstored
  | close handle created =>
    refine h.of_not_written rfl (hnw (by simp)) (fun _ hobj => absurd hobj (by simp)) ?_ ?_
    · simp only [mioObjClose]
      split
      · have hsize := h.handle _ handle
        exact (storedSize_mem2wire _).trans hsize
      · exact hstored
    · intro hne
      simp only [mioObjClose]
      split
      · simp [motrObjAttrsUpdateSync]
      · exact hne
  | obj handle created call effect => exact h.call handle hwrap call effect

/-- The invariant after a whole history. -/
theorem sizeInv_of_run {s : Session} (h : SessionRun conf drv es s)
    (hwrap : ∀ e ∈ es, Event.NoWrap e) : SizeInv es s := by
  refine SessionRun.inv (fun es s => (∀ e ∈ es, Event.NoWrap e) → SizeInv es s) ?_ ?_ h hwrap
  · exact fun _ => ⟨fun _ hobj => absurd hobj (by simp [Session.fresh]), rfl,
      fun ⟨_, he, _⟩ => absurd he List.not_mem_nil⟩
  · intro es e s s' _ ih heff hwrap
    exact (ih fun e' he' => hwrap e' (List.mem_append_left _ he')).step
      (hwrap e (List.mem_append_right _ (List.mem_singleton_self e))) heff

/-! ### The result -/

/-- A session that writes twice and sets a hint, and one that asks for the size. -/
def sizeCalls : List Call :=
  [.create, .obj (.writev 1 (fun _ => 7) [⟨0, 3, 4⟩]), .obj (.hintSet mioHintObjLifetime 5),
    .obj (.writev 2 (fun _ => 9) [⟨0, 1, 3⟩]), .close, .opn, .obj .size]

end CortxMio
