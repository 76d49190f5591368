import CortxMio.Obj.Session

/-!
# Persistent hints over sessions

A persistent hint is meant to live as long as the object. It does
(`CortxMio.lookup_eq_lastSet`) as long as every session that reads or writes
also sets a hint: setting one fills the map of persistent hints, from which
records are made. Opening does not fill it, so a session that only reads and
writes stores a record without hints when it is closed, and what earlier
sessions have set is gone (`CortxMio.not_lookup_eq_lastSet`).
-/

namespace CortxMio

open Lib

/-! ### Histories of hints -/

/-- The events of the session that was opened last. -/
def session (es : List Event) : List Event :=
  es.foldl (fun acc e => match e with
    | (.create, none) | (.opn, none) => []
    | e => acc ++ [e]) []

/-- A read or write, whatever became of it. -/
def Event.IsIo : Event → Prop
  | (.obj c, _) => c.IsIo
  | _ => False

/-- Hints were set with success. -/
def Event.IsSet : Event → Prop
  | (.obj c, none) => c.IsSet
  | _ => False

/-- The hints that an event has set. -/
def Event.sets : Event → List (Int32 × UInt64)
  | (.obj c, none) => c.sets
  | _ => []

/-- The value that was last set with success, for every key. -/
def lastSet (es : List Event) : Int32 → Option UInt64 :=
  es.foldl (fun f e => updateAll f e.sets) fun _ => none

/-- A key whose hint is kept with the object, and not computed when asked for. -/
def IsKept (k : Int32) : Prop := mioHintType k = some .persistent ∧ k ≠ mioHintObjHotIndex

instance (k : Int32) : Decidable (IsKept k) := inferInstanceAs (Decidable (_ ∧ _))

/-- Something was read or written in the session. -/
def SessionIo (es : List Event) : Prop := ∃ e ∈ session es, e.IsIo

/-- Hints were set in the session. -/
def SessionSet (es : List Event) : Prop := ∃ e ∈ session es, e.IsSet

/-- Every session that is closed after a read or write has set a hint, unless
there was no hint to keep. -/
def SetsWithIo (es : List Event) : Prop :=
  ∀ pre post, es = pre ++ (.close, none) :: post → SessionIo pre →
    SessionSet pre ∨ ∀ k, IsKept k → lastSet pre k = none

theorem setsWithIo_nil : SetsWithIo [] := fun pre post h => absurd h (by simp)

/-- The condition concerns the last event if that closes the object. -/
theorem setsWithIo_snoc {es : List Event} {e : Event} : SetsWithIo (es ++ [e]) ↔ SetsWithIo es ∧
    (e = (.close, none) → SessionIo es → SessionSet es ∨ ∀ k, IsKept k → lastSet es k = none) := by
  constructor
  · refine fun h => ⟨?_, ?_⟩
    · rintro pre post rfl
      exact h pre (post ++ [e]) (by simp)
    · rintro rfl
      exact h es [] rfl
  · rintro ⟨h, he⟩ pre post heq
    rcases List.eq_nil_or_concat post with rfl | ⟨post', x, rfl⟩
    · obtain ⟨rfl, hx⟩ := List.append_inj' heq rfl
      exact he (by simpa using hx)
    · rw [List.concat_eq_append, ← List.cons_append, ← List.append_assoc] at heq
      obtain ⟨rfl, -⟩ := List.append_inj' heq rfl
      exact h pre post' rfl

theorem lastSet_snoc (es : List Event) (e : Event) :
    lastSet (es ++ [e]) = updateAll (lastSet es) e.sets := by
  rw [lastSet, List.foldl_append]
  rfl

theorem session_snoc_obj (es : List Event) (c : ObjCall) (rc : Option Fault) :
    session (es ++ [(.obj c, rc)]) = session es ++ [(.obj c, rc)] := by
  rw [session, List.foldl_append]
  rfl

theorem session_snoc_create (es : List Event) : session (es ++ [(.create, none)]) = [] := by
  rw [session, List.foldl_append]
  rfl

theorem session_snoc_opn (es : List Event) : session (es ++ [(.opn, none)]) = [] := by
  rw [session, List.foldl_append]
  rfl

theorem sessionIo_snoc {es : List Event} {c : ObjCall} {rc : Option Fault} :
    SessionIo (es ++ [(.obj c, rc)]) ↔ SessionIo es ∨ c.IsIo := by
  simp only [SessionIo, session_snoc_obj, List.mem_append, List.mem_singleton, or_and_right,
    exists_or, exists_eq_left]
  rfl

theorem sessionSet_snoc {es : List Event} {c : ObjCall} {rc : Option Fault} :
    SessionSet (es ++ [(.obj c, rc)]) ↔ SessionSet es ∨ (rc = none ∧ c.IsSet) := by
  simp only [SessionSet, session_snoc_obj, List.mem_append, List.mem_singleton, or_and_right,
    exists_or, exists_eq_left]
  cases rc with
  | none => simp [Event.IsSet]
  | some f => simp [Event.IsSet]

/-- Only the key itself matters when hints are set. -/
theorem updateAll_congr {f g : Int32 → Option UInt64} {k : Int32} (h : f k = g k)
    (pairs : List (Int32 × UInt64)) : updateAll f pairs k = updateAll g pairs k := by
  induction pairs generalizing f g with
  | nil => exact h
  | cons kv pairs ih =>
    refine ih ?_
    by_cases hk : k = kv.1
    · subst hk
      simp
    · simp [Function.update_of_ne hk, h]

/-! ### The hints in a record -/

/-- The hints that opening the object finds in its record. -/
def storedHints (attrs : Option (List Byte)) : Int32 → Option UInt64 :=
  (storedObj attrs).moHints.lookup

theorem lookup_objInit (drv : M0Obj) : (objInit drv).moHints.lookup = fun _ => none := rfl

/-- A map without hints in use has no values. -/
theorem MioHintMap.lookup_of_nrSet {map : MioHintMap} (h : map.mhmNrSet = 0) :
    map.lookup = fun _ => none := by
  funext k
  rw [MioHintMap.lookup, MioHintMap.pairs, h]
  rfl

/-- A map without values has no hints in use. -/
theorem MioHintMap.Wf.nrSet_of_lookup {map : MioHintMap} (hwf : map.Wf)
    (h : map.lookup = fun _ => none) : map.mhmNrSet = 0 := by
  rw [← hwf.inPlace.length_pairs, List.length_eq_zero_iff]
  cases hp : map.pairs with
  | nil => rfl
  | cons p l =>
    obtain ⟨k, v⟩ := p
    have hk : map.lookup k = none := by rw [h]
    rw [MioHintMap.lookup, hp] at hk
    exact absurd hk (by simp)

theorem lookup_load_objInit (drv : M0Obj) {src : MioObj} (hsrc : src.moAttrs.moaPhints.Wf) :
    ((objInit drv).load src).moHints.lookup = src.moAttrs.moaPhints.lookup := by
  rw [lookup_load hsrc]
  split
  · next h => rw [MioHintMap.lookup_of_nrSet h, lookup_objInit]
  · rfl

theorem storedHints_mem2wire (src : MioObj) (hsrc : src.moAttrs.moaPhints.Wf) :
    storedHints (some (motrObjAttrsMem2wire src)) = src.moAttrs.moaPhints.lookup := by
  rw [storedHints, storedObj_mem2wire src hsrc]
  exact lookup_load_objInit _ hsrc

/-! ### The invariant -/

/-- The record of an object has the hints that were last set. -/
def RecordHas (es : List Event) (attrs : Option (List Byte)) : Prop :=
  ∀ k, IsKept k → storedHints attrs k = lastSet es k

theorem RecordHas.snoc {es : List Event} {attrs : Option (List Byte)} (h : RecordHas es attrs)
    {e : Event} (he : e.sets = []) : RecordHas (es ++ [e]) attrs := by
  intro k hk
  rw [lastSet_snoc, he]
  exact h k hk

/-- The invariant of an open handle. -/
structure OpenInv (es : List Event) (attrs : Option (List Byte)) (obj : MioObj) : Prop where
  /-- The handle has the hints that were last set. -/
  hints : ∀ k, IsKept k → obj.moHints.lookup k = lastSet es k
  /-- The record is stored on closing if there were reads or writes. -/
  updated : obj.moAttrsUpdated = true ↔ SessionIo es
  /-- Setting hints has filled the map of persistent hints, and stored it. -/
  set : SessionSet es → (∀ k, IsKept k → obj.moAttrs.moaPhints.lookup k = lastSet es k) ∧
    RecordHas es attrs
  /-- Before that the map is empty, and so is a record made in this session. -/
  unset : ¬SessionSet es → (obj.moAttrs.moaPhints.lookup = fun _ => none) ∧
    (RecordHas es attrs ∨ (SessionIo es ∧ storedHints attrs = fun _ => none))

/-- The invariant of a session. -/
structure HintInv (es : List Event) (s : Session) : Prop where
  /-- While the object is closed, its record has the hints. -/
  closed : s.handle = none → RecordHas es s.cluster.attrs
  /-- While it is open. -/
  opened : ∀ obj, s.handle = some obj → OpenInv es s.cluster.attrs obj

section Call

variable {conf : MioMotrConfig} {drv : M0Obj} {es : List Event} {obj : MioObj}

/-- The invariant right after opening. -/
theorem openInv_of_opened {attrs : Option (List Byte)} {obj : MioObj}
    (hsession : session es = []) (hrec : RecordHas es attrs)
    (hhints : ∀ k, IsKept k → obj.moHints.lookup k = lastSet es k)
    (hupdated : obj.moAttrsUpdated = false)
    (hphints : obj.moAttrs.moaPhints.lookup = fun _ => none) : OpenInv es attrs obj where
  hints := hhints
  updated := by simp [hupdated, SessionIo, hsession]
  set hset := by simp [SessionSet, hsession] at hset
  unset _ := ⟨hphints, Or.inl hrec⟩

/-- A call that sets nothing leaves the history of hints alone. -/
theorem lastSet_snoc_of_not_set {c : ObjCall} {rc : Option Fault} (h : c.IsSet → rc ≠ none) :
    lastSet (es ++ [(.obj c, rc)]) = lastSet es := by
  have hsets : Event.sets (.obj c, rc) = [] := by
    cases rc with
    | some f => rfl
    | none => cases c <;> first | rfl | exact absurd rfl (h trivial)
  rw [lastSet_snoc, hsets]
  rfl

/-- A call that sets nothing, and changes of the handle and the record only what
the invariant allows, keeps the invariant. -/
theorem OpenInv.of_not_set {c : ObjCall} {rc : Option Fault} {attrs attrs' : Option (List Byte)}
    {obj' : MioObj} (h : OpenInv es attrs obj) (hc : c.IsSet → rc ≠ none)
    (hhints : ∀ k, IsKept k → obj'.moHints.lookup k = obj.moHints.lookup k)
    (hphints : obj'.moAttrs.moaPhints = obj.moAttrs.moaPhints)
    (hupdated : obj'.moAttrsUpdated = true ↔ obj.moAttrsUpdated = true ∨ c.IsIo)
    (hattrs : attrs' = attrs ∨ (c.IsIo ∧ storedHints attrs' = obj.moAttrs.moaPhints.lookup)) :
    OpenInv (es ++ [(.obj c, rc)]) attrs' obj' := by
  have hlast : lastSet (es ++ [(.obj c, rc)]) = lastSet es := lastSet_snoc_of_not_set hc
  have hset : SessionSet (es ++ [(.obj c, rc)]) ↔ SessionSet es := by
    rw [sessionSet_snoc]
    exact or_iff_left fun hn => hc hn.2 hn.1
  have hio : SessionIo es → SessionIo (es ++ [(.obj c, rc)]) := fun h =>
    sessionIo_snoc.mpr (Or.inl h)
  refine ⟨fun k hk => ?_, ?_, fun hs => ?_, fun hs => ?_⟩
  · rw [hhints k hk, hlast]
    exact h.hints k hk
  · rw [hupdated, h.updated, sessionIo_snoc]
  · obtain ⟨hp, hr⟩ := h.set (hset.mp hs)
    simp only [RecordHas, hlast, hphints]
    refine ⟨hp, fun k hk => ?_⟩
    rcases hattrs with rfl | ⟨-, hstored⟩
    · exact hr k hk
    · rw [hstored]
      exact hp k hk
  · obtain ⟨hp, hr⟩ := h.unset fun hs' => hs (hset.mpr hs')
    simp only [RecordHas, hlast, hphints]
    refine ⟨hp, ?_⟩
    rcases hattrs with rfl | ⟨hcio, hstored⟩
    · rcases hr with hr | ⟨hsio, hr⟩
      · exact Or.inl hr
      · exact Or.inr ⟨hio hsio, hr⟩
    · exact Or.inr ⟨sessionIo_snoc.mpr (Or.inr hcio), hstored.trans hp⟩

/-- Loading the record in the middle of a session changes no hint that is kept. -/
theorem OpenInv.lookup_load {src : MioObj} (hsrc : src.moAttrs.moaPhints.Wf)
    (h : OpenInv es (some (motrObjAttrsMem2wire src)) obj) {k : Int32} (hk : IsKept k) :
    (obj.load src).moHints.lookup k = obj.moHints.lookup k := by
  rw [CortxMio.lookup_load hsrc]
  split
  · rfl
  · next hne =>
    have hstored := storedHints_mem2wire src hsrc
    have hrec : RecordHas es (some (motrObjAttrsMem2wire src)) := by
      by_cases hs : SessionSet es
      · exact (h.set hs).2
      · refine (h.unset hs).2.resolve_right fun ⟨_, hnone⟩ => hne ?_
        exact hsrc.nrSet_of_lookup (hstored.symm.trans hnone)
    rw [h.hints k hk, ← hrec k hk, hstored]

/-- Setting hints establishes all of the invariant. -/
theorem OpenInv.of_set {c : ObjCall} {attrs : Option (List Byte)} {map : MioHintMap} {cl : Cluster}
    (h : OpenInv es attrs obj) (hc : c.IsSet) (hwf : map.Wf)
    (hlookup : map.lookup = updateAll obj.moHints.lookup c.sets) :
    OpenInv (es ++ [(.obj c, none)]) (objHintStore ⟨cl, obj.withHints map⟩).cluster.attrs
      (objHintStore ⟨cl, obj.withHints map⟩).obj := by
  have hset : SessionSet (es ++ [(.obj c, none)]) := sessionSet_snoc.mpr (Or.inr ⟨rfl, hc⟩)
  have hio : ¬c.IsIo := by cases c <;> simp_all [ObjCall.IsSet, ObjCall.IsIo]
  have hlast : ∀ k, IsKept k → map.lookup k = lastSet (es ++ [(.obj c, none)]) k := by
    intro k hk
    rw [hlookup, lastSet_snoc]
    exact updateAll_congr (h.hints k hk) _
  have hphints : ∀ k, IsKept k → (phintsOf map).lookup k = lastSet (es ++ [(.obj c, none)]) k := by
    intro k hk
    rw [lookup_phintsOf, if_pos hk.1]
    exact hlast k hk
  refine ⟨hlast, ?_, fun _ => ⟨hphints, fun k hk => ?_⟩, fun hs => absurd hset hs⟩
  · rw [sessionIo_snoc, or_iff_left hio]
    exact h.updated
  · rw [← hphints k hk]
    exact congrFun (storedHints_mem2wire ((obj.withHints map).setPhints (phintsOf map))
      (wf_phintsOf hwf)) k

/-- **A call on an open handle keeps the invariant.** -/
theorem OpenInv.call {c : ObjCall} {rc : Option Fault} {cl : Cluster} {w : World}
    (h : OpenInv es cl.attrs obj) (hok : obj.HintsOk) (heff : CallEffect ⟨cl, obj⟩ c rc w) :
    OpenInv (es ++ [(.obj c, rc)]) w.cluster.attrs w.obj := by
  cases heff with
  | @writev now app iov _ _ frame =>
    obtain ⟨n, hobj⟩ := frame.handle
    rw [hobj]
    refine h.of_not_set (fun hs => hs.elim) (fun _ _ => rfl) rfl ?_ ?_
    · exact ⟨fun _ => Or.inr trivial, fun _ => rfl⟩
    · rcases frame.attrs with hattrs | ⟨m, hattrs⟩
      · exact Or.inl hattrs
      · refine Or.inr ⟨trivial, ?_⟩
        rw [hattrs]
        exact storedHints_mem2wire ((objStatsUpdate obj true now iov).setSize m) hok.phints
  | readv =>
    exact h.of_not_set (fun hs => hs.elim) (fun _ _ => rfl) rfl
      ⟨fun _ => Or.inr trivial, fun _ => rfl⟩ (Or.inl rfl)
  | load wf attrs =>
    have hattrs : cl.attrs = _ := attrs
    rw [hattrs] at h
    exact h.of_not_set (fun hs => hs.elim) (fun k hk => h.lookup_load wf hk) rfl
      (or_iff_left id).symm (Or.inl hattrs)
  | set isSet wf nrEntries lookup => exact h.of_set isSet wf lookup
  | hot wf nrEntries lookup =>
    refine h.of_not_set (fun hs => hs.elim) (fun k hk => ?_) rfl (or_iff_left id).symm (Or.inl rfl)
    exact (congrFun lookup k).trans (Function.update_of_ne hk.2 _ _)
  | same notIo notSet =>
    exact h.of_not_set notSet (fun _ _ => rfl) rfl (or_iff_left notIo).symm (Or.inl rfl)

/-- Closing leaves a record with the hints, if the session has set some or has
nothing to lose. -/
theorem OpenInv.close {cl : Cluster} (h : OpenInv es cl.attrs obj) (hok : obj.HintsOk)
    (hkeep : SessionIo es → SessionSet es ∨ ∀ k, IsKept k → lastSet es k = none) :
    RecordHas es (mioObjClose ⟨cl, obj⟩).attrs := by
  cases hupd : obj.moAttrsUpdated with
  | true =>
    have hclose : (mioObjClose ⟨cl, obj⟩).attrs =
        some (motrObjAttrsMem2wire (obj.withHints (mioHintMapFini obj.moHints))) := by
      simp [mioObjClose, motrObjAttrsUpdateSync, MioObj.withHints, hupd]
    have hstored := storedHints_mem2wire (obj.withHints (mioHintMapFini obj.moHints)) hok.phints
    rw [hclose]
    intro k hk
    rw [hstored, MioObj.withHints_moaPhints]
    by_cases hs : SessionSet es
    · exact (h.set hs).1 k hk
    · rw [(h.unset hs).1, (hkeep (h.updated.mp hupd)).resolve_left hs k hk]
  | false =>
    have hclose : (mioObjClose ⟨cl, obj⟩).attrs = cl.attrs := by
      simp [mioObjClose, MioObj.withHints, hupd]
    have hio : ¬SessionIo es := fun hio => absurd (h.updated.mpr hio) (by simp [hupd])
    rw [hclose]
    by_cases hs : SessionSet es
    · exact (h.set hs).2
    · exact (h.unset hs).2.resolve_right fun hn => hio hn.1

/-- **A step keeps the invariant.** -/
theorem HintInv.step {s s' : Session} {e : Event} (h : HintInv es s) (hok : s.Ok)
    (hkeep : SetsWithIo (es ++ [e])) (heff : SessionEffect conf drv s e s') :
    HintInv (es ++ [e]) s' := by
  cases heff with
  | create closed attrs =>
    have hrec : RecordHas (es ++ [(.create, none)]) s.cluster.attrs :=
      (h.closed closed).snoc rfl
    refine ⟨fun hn => absurd hn (by simp), fun obj hobj => ?_⟩
    obtain rfl := Option.some.inj hobj
    refine openInv_of_opened (session_snoc_create es) hrec (fun k hk => ?_) rfl rfl
    rw [← hrec k hk, attrs]
    rfl
  | opn closed attrs =>
    have hrec : RecordHas (es ++ [(.opn, none)]) s.cluster.attrs :=
      (h.closed closed).snoc rfl
    refine ⟨fun hn => absurd hn (by simp), fun obj hobj => ?_⟩
    obtain rfl := Option.some.inj hobj
    refine openInv_of_opened (session_snoc_opn es) hrec (fun k hk => ?_) rfl rfl
    rw [← hrec k hk, attrs]
    rfl
  | load closed wf attrs =>
    have hrec : RecordHas (es ++ [(.opn, none)]) s.cluster.attrs :=
      (h.closed closed).snoc rfl
    refine ⟨fun hn => absurd hn (by simp), fun obj hobj => ?_⟩
    obtain rfl := Option.some.inj hobj
    refine openInv_of_opened (session_snoc_opn es) hrec (fun k hk => ?_) rfl rfl
    rw [← hrec k hk, attrs, storedHints_mem2wire _ wf, lookup_load_objInit drv wf]
  | close handle created =>
    refine ⟨fun _ => ?_, fun _ hobj => absurd hobj (by simp)⟩
    exact ((h.opened _ handle).close (hok.hints _ handle)
      ((setsWithIo_snoc.mp hkeep).2 rfl)).snoc rfl
  | obj handle created call effect =>
    refine ⟨fun hn => absurd hn (by simp), fun obj hobj => ?_⟩
    obtain rfl := Option.some.inj hobj
    exact (h.opened _ handle).call (hok.hints _ handle) effect

end Call

/-! ### The result -/

/-- **Persistent hints are kept** in every history in which every session that
reads or writes also sets a hint, unless there was none to keep: whenever the
object is open, its handle has, for every persistent key that is not computed
dynamically, the value last set with success, in this session or an earlier
one. -/
theorem lookup_eq_lastSet {conf : MioMotrConfig} {drv : M0Obj} {es : List Event} {s : Session}
    (h : SessionRun conf drv es s) (hkeep : SetsWithIo es) {obj : MioObj}
    (hobj : s.handle = some obj) {k : Int32} (hk : IsKept k) :
    obj.moHints.lookup k = lastSet es k := by
  have hinv : HintInv es s := by
    refine SessionRun.inv (fun es s => SetsWithIo es → HintInv es s) ?_ ?_ h hkeep
    · exact fun _ => ⟨fun _ _ _ => rfl, fun _ hobj => absurd hobj (by simp [Session.fresh])⟩
    · exact fun es e s s' hok ih heff hkeep => (ih (setsWithIo_snoc.mp hkeep).1).step hok hkeep heff
  exact (hinv.opened obj hobj).hints k hk

/-- A session that sets a hint and writes, and one that opens the object again. -/
def keepCalls : List Call :=
  [.create, .obj (.hintSet mioHintObjLifetime 5), .obj (.writev 1 (fun _ => 7) [⟨0, 0, 4⟩]), .close,
    .opn]

/-- The hint is there. -/
theorem lookup_eq_lastSet_keepCalls :
    ∃ es s obj, exec (Session.step ⟨4⟩ ⟨1, some ⟨1, 0, 1⟩, by decide⟩) Session.fresh keepCalls =
      some (es, s) ∧ s.handle = some obj ∧ obj.moHints.lookup mioHintObjLifetime = some 5 := by
  have hexec : ((exec (Session.step ⟨4⟩ ⟨1, some ⟨1, 0, 1⟩, by decide⟩) Session.fresh keepCalls).map
      fun r => (r.1.map Prod.snd, lastSet r.1 mioHintObjLifetime, r.2.handle.isSome)) =
        some ([none, none, none, none, none], some 5, true) := by
    decide +kernel
  obtain ⟨⟨es, s⟩, hres, hval⟩ := Option.map_eq_some_iff.mp hexec
  simp only [Prod.mk.injEq] at hval
  obtain ⟨hrcs, hlast, hsome⟩ := hval
  obtain ⟨obj, hobj⟩ := Option.isSome_iff_exists.mp hsome
  have hes := List.zip_of_prod (map_fst_of_exec hres) hrcs
  -- the one session that is closed has set a hint
  have hkeep : SetsWithIo es := by
    rw [hes]
    refine setsWithIo_snoc.mpr ⟨setsWithIo_snoc.mpr ⟨setsWithIo_snoc.mpr ⟨setsWithIo_snoc.mpr
      ⟨setsWithIo_snoc.mpr ⟨setsWithIo_nil, by simp⟩, by simp⟩, by simp⟩, fun _ _ => ?_⟩, by simp⟩
    exact Or.inl ⟨(.obj (.hintSet mioHintObjLifetime 5), none), by simp [session], trivial⟩
  refine ⟨es, s, obj, hres, hobj, ?_⟩
  rw [lookup_eq_lastSet (run_of_exec _ hres) hkeep hobj (by decide), hlast]

/-- A session that sets a hint, one that only writes, and one that opens the
object again. -/
def lostCalls : List Call :=
  [.create, .obj (.hintSet mioHintObjLifetime 5), .close, .opn,
    .obj (.writev 1 (fun _ => 7) [⟨0, 0, 4⟩]), .close, .opn]

/-- **A session that only writes loses the hint of an earlier one.** -/
theorem not_lookup_eq_lastSet :
    ∃ es s obj, SessionRun ⟨4⟩ ⟨1, some ⟨1, 0, 1⟩, by decide⟩ es s ∧ s.handle = some obj ∧
      IsKept mioHintObjLifetime ∧ lastSet es mioHintObjLifetime = some 5 ∧
      obj.moHints.lookup mioHintObjLifetime = none := by
  have hexec : ((exec (Session.step ⟨4⟩ ⟨1, some ⟨1, 0, 1⟩, by decide⟩) Session.fresh lostCalls).map
      fun r => (lastSet r.1 mioHintObjLifetime,
        r.2.handle.map fun obj => obj.moHints.lookup mioHintObjLifetime)) =
        some (some 5, some none) := by
    decide +kernel
  obtain ⟨⟨es, s⟩, hres, hval⟩ := Option.map_eq_some_iff.mp hexec
  obtain ⟨hlast, hlookup⟩ := Prod.mk.inj hval
  obtain ⟨obj, hobj, hnone⟩ := Option.map_eq_some_iff.mp hlookup
  exact ⟨es, s, obj, run_of_exec _ hres, hobj, by decide, hlast, hnone⟩

end CortxMio
