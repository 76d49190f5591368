import CortxMio.Obj.Session

/-!
# Asking for the size in the middle of a session

`mio_obj_size` is meant to refresh the size and nothing else. It loads the whole
record, so it also puts the statistics and the hints of the record in the place
of those of the handle. As long as the record is up to date whenever the size is
asked for (`CortxMio.World.UpToDate`), this makes no difference, and the size
calls of a session can be left out (`CortxMio.sameUse_withoutSize`). In general
it does: counters go back and hints disappear
(`CortxMio.not_sameUse_withoutSize`).
-/

namespace CortxMio

open Lib

/-! ### Sequences of calls -/

/-- Calls one after the other. -/
def World.calls (conf : MioMotrConfig) (w : World) (cs : List ObjCall) : World :=
  cs.foldl (fun w c => (World.call conf w c).2) w

/-- Whether a call asks for the size. -/
def ObjCall.isSize : ObjCall → Bool
  | .size => true
  | _ => false

/-- The other calls. -/
def withoutSize (cs : List ObjCall) : List ObjCall := cs.filter fun c => !c.isSize

/-- The same access statistics and the same hints. -/
structure MioObj.SameUse (obj obj' : MioObj) : Prop where
  /-- The statistics. -/
  stats : obj.moAttrs.moaStats = obj'.moAttrs.moaStats
  /-- The hints. -/
  hints : obj.moHints = obj'.moHints

theorem MioObj.SameUse.symm {obj obj' : MioObj} (h : obj.SameUse obj') : obj'.SameUse obj :=
  ⟨h.stats.symm, h.hints.symm⟩

theorem MioObj.SameUse.trans {obj obj' obj'' : MioObj} (h : obj.SameUse obj')
    (h' : obj'.SameUse obj'') : obj.SameUse obj'' :=
  ⟨h.stats.trans h'.stats, h.hints.trans h'.hints⟩

/-- The record has nothing to say that the handle does not know: there is none,
or its statistics are those of the handle, and its hints, if it has any, are
those of the handle. -/
def World.UpToDate (w : World) : Prop :=
  w.cluster.attrs = none ∨
    ((storedObj w.cluster.attrs).moAttrs.moaStats = w.obj.moAttrs.moaStats ∧
      ((storedObj w.cluster.attrs).moHints.pairs = [] ∨
        (storedObj w.cluster.attrs).moHints.pairs = w.obj.moHints.pairs))

instance (w : World) : Decidable w.UpToDate := inferInstanceAs (Decidable (_ ∨ _))

variable {conf : MioMotrConfig}

/-! ### Calls other than for the size -/

section Congr

variable {w w' : World} (h : w.obj.SameUse w'.obj)

include h

/-- Statistics are counted from statistics. -/
theorem MioObj.SameUse.objStatsUpdate (isWrite : Bool) (now : UInt64) (iov : List (MioIovec ℕ)) :
    (objStatsUpdate w.obj isWrite now iov).SameUse (objStatsUpdate w'.obj isWrite now iov) where
  stats := by simp only [CortxMio.objStatsUpdate, MioObj.setStats, h.stats]
  hints := h.hints

omit h in
variable (conf w) in
theorem writev_sameUse (now : UInt64) (app : ℕ → Byte) (iov : List (MioIovec ℕ)) :
    (World.call conf w (.writev now app iov)).2.obj.SameUse
      (CortxMio.objStatsUpdate w.obj true now iov) := by
  obtain ⟨n, hobj⟩ := (mioObjWritev_frame conf w now app iov).handle
  simp only [World.call]
  rw [hobj]
  exact ⟨rfl, rfl⟩

omit h in
variable (conf w) in
theorem readv_sameUse (now : UInt64) (app : ℕ → Byte) (iov : List (MioIovec ℕ)) :
    (World.call conf w (.readv now app iov)).2.obj.SameUse
      (CortxMio.objStatsUpdate w.obj false now iov) := by
  simp only [World.call, mioObjReadv_frame]
  exact ⟨rfl, rfl⟩

/-- Storing hints that were computed from the hints. -/
theorem orElse_sameUse (r : Except Fault MioHintMap) :
    (orElse w
      (r >>= fun map => .ok (objHintStore { w with obj := w.obj.withHints map }))).2.obj.SameUse
      (orElse w' (r >>= fun map =>
        .ok (objHintStore { w' with obj := w'.obj.withHints map }))).2.obj := by
  cases r with
  | error f => exact h
  | ok map => exact ⟨h.stats, rfl⟩

/-- What a hint query leaves behind. -/
theorem hintGet_sameUse (key : Int32) :
    (World.call conf w (.hintGet key)).2.obj.SameUse
      (World.call conf w' (.hintGet key)).2.obj := by
  have hobj : ∀ u : World, (World.call conf u (.hintGet key)).2.obj =
      (objDynHintUpdate u.obj key).toOption.getD u.obj := by
    intro u
    simp only [World.call, mioObjHintGet]
    cases objDynHintUpdate u.obj key with
    | error f => rfl
    | ok obj =>
      simp only [bind, Except.bind]
      cases mioHintMapGet obj.moHints key <;> rfl
  rw [hobj, hobj]
  simp only [objDynHintUpdate]
  by_cases hkey : key = mioHintObjHotIndex
  · simp only [if_pos hkey, objHotIndexCal, h.stats, h.hints]
    cases mioHintMapSet w'.obj.moHints mioHintObjHotIndex
        (w'.obj.moAttrs.moaStats.mosRcount + w'.obj.moAttrs.moaStats.mosWcount) with
    | error f => exact h
    | ok map => exact ⟨h.stats, rfl⟩
  · simp only [if_neg hkey]
    exact h

/-- **Statistics and hints after a call depend on statistics and hints only**,
unless the call asks for the size. -/
theorem MioObj.SameUse.call {c : ObjCall} (hc : c.isSize = false) :
    (World.call conf w c).2.obj.SameUse (World.call conf w' c).2.obj := by
  cases c with
  | writev now app iov =>
    have h1 := writev_sameUse conf w now app iov
    have h2 := writev_sameUse conf w' now app iov
    have h3 := h.objStatsUpdate true now iov
    exact h1.trans (h3.trans h2.symm)
  | readv now app iov =>
    have h1 := readv_sameUse conf w now app iov
    have h2 := readv_sameUse conf w' now app iov
    have h3 := h.objStatsUpdate false now iov
    exact h1.trans (h3.trans h2.symm)
  | size => exact absurd hc (by simp [ObjCall.isSize])
  | hintSet key value =>
    simp only [World.call, mioObjHintSet, h.hints]
    exact orElse_sameUse h _
  | hintsSet hints =>
    simp only [World.call, mioObjHintsSet, h.hints]
    exact orElse_sameUse h _
  | hintGet key => exact hintGet_sameUse h key
  | hintsGet hints =>
    simp only [World.call]
    split <;> split <;> exact h

end Congr

/-! ### Asking for the size -/

/-- Overwriting the start of an array with itself. -/
theorem overwrite_take {α : Type} {l : List α} {n : ℕ} (h : n ≤ l.length) :
    overwrite (l.take n) l = l := by
  rw [overwrite, List.length_take, Nat.min_eq_left h, List.take_append_drop]

/-- Loading hints that are there already. -/
theorem moHints_load {obj src : MioObj} (h : obj.HintsOk) (hsrc : src.moAttrs.moaPhints.Wf)
    (hpairs : src.moAttrs.moaPhints.pairs = obj.moHints.pairs) :
    (obj.load src).moHints = obj.moHints := by
  have hn : src.moAttrs.moaPhints.mhmNrSet = obj.moHints.mhmNrSet := by
    rw [← hsrc.inPlace.length_pairs, ← h.hints.inPlace.length_pairs, hpairs]
  have hle : obj.moHints.mhmNrSet ≤ obj.moHints.mhmNrEntries := h.hints.nrSet
  have hkeys : src.moAttrs.moaPhints.mhmKeys.take obj.moHints.mhmNrSet =
      obj.moHints.mhmKeys.take obj.moHints.mhmNrSet := by
    have hk : src.moAttrs.moaPhints.setKeys = obj.moHints.setKeys := by
      rw [hsrc.inPlace.setKeys_eq, h.hints.inPlace.setKeys_eq, hpairs]
    rwa [MioHintMap.setKeys, hn] at hk
  have hvalues : src.moAttrs.moaPhints.mhmValues.take obj.moHints.mhmNrSet =
      obj.moHints.mhmValues.take obj.moHints.mhmNrSet := by
    have hv := hsrc.inPlace.setValues_eq
    rw [hn, hpairs, ← h.hints.inPlace.setValues_eq] at hv
    exact hv
  simp only [MioObj.load, hn, hkeys, hvalues]
  split
  · rfl
  · rw [overwrite_take (by rw [h.hints.keys]; exact hle),
      overwrite_take (by rw [h.hints.values]; exact hle)]

/-- **A size call that finds the record up to date** changes neither statistics
nor hints. -/
theorem size_sameUse {w : World} (hobj : w.obj.HintsOk) (hrec : RecordOk w.cluster.attrs)
    (h : w.UpToDate) : (World.call conf w .size).2.obj.SameUse w.obj := by
  simp only [World.call, mioObjSize]
  rcases motrObjAttrsGetPp_cases hrec w.obj with ⟨-, hget⟩ | ⟨src, hsrc, hattrs, hget⟩
  · rw [hget]
    exact ⟨rfl, rfl⟩
  · rw [hget]
    rcases h with hnone | ⟨hstats, hpairs⟩
    · exact absurd (hnone.symm.trans hattrs) (by simp)
    · rw [hattrs, storedObj_mem2wire src hsrc] at hstats hpairs
      refine ⟨hstats, ?_⟩
      change (w.obj.load src).moHints = w.obj.moHints
      by_cases hzero : src.moAttrs.moaPhints.mhmNrSet = 0
      · simp only [MioObj.load, if_pos hzero]
      · rw [pairs_load hsrc hzero] at hpairs
        refine moHints_load hobj hsrc (hpairs.resolve_left fun hnil => hzero ?_)
        rw [← hsrc.inPlace.length_pairs, hnil]
        rfl

/-! ### Growth -/

/-- The number of ranges that a call reads. -/
def ObjCall.reads : ObjCall → ℕ
  | .readv _ _ iov => iov.length
  | _ => 0

/-- The number of ranges that a call writes. -/
def ObjCall.writes : ObjCall → ℕ
  | .writev _ _ iov => iov.length
  | _ => 0

/-- Counters have gone up by the numbers given, and no hint is gone. -/
structure MioObj.Grown (obj obj' : MioObj) (r w : ℕ) : Prop where
  /-- Reads. -/
  rcount : obj'.moAttrs.moaStats.mosRcount = obj.moAttrs.moaStats.mosRcount + UInt64.ofNat r
  /-- Writes. -/
  wcount : obj'.moAttrs.moaStats.mosWcount = obj.moAttrs.moaStats.mosWcount + UInt64.ofNat w
  /-- Hints. -/
  hints : ∀ k, (obj.moHints.lookup k).isSome → (obj'.moHints.lookup k).isSome

theorem MioObj.SameUse.grown {obj obj' : MioObj} (h : obj'.SameUse obj) : obj.Grown obj' 0 0 := by
  refine ⟨?_, ?_, fun k hk => ?_⟩
  · rw [h.stats]
    exact (UInt64.add_zero _).symm
  · rw [h.stats]
    exact (UInt64.add_zero _).symm
  · rwa [h.hints]

theorem MioObj.Grown.trans {obj obj' obj'' : MioObj} {r w r' w' : ℕ} (h : obj.Grown obj' r w)
    (h' : obj'.Grown obj'' r' w') : obj.Grown obj'' (r + r') (w + w') := by
  refine ⟨?_, ?_, fun k hk => h'.hints k (h.hints k hk)⟩
  · rw [h'.rcount, h.rcount, UInt64.ofNat_add, UInt64.add_assoc]
  · rw [h'.wcount, h.wcount, UInt64.ofNat_add, UInt64.add_assoc]

/-- The counters after `obj_stats_update`. -/
theorem foldl_count (isWrite : Bool) (now : UInt64) (iov : List (MioIovec ℕ))
    (stats : MioObjStats) :
    (iov.foldl (fun stats v => stats.count isWrite now v.miovLen) stats).mosRcount =
        stats.mosRcount + UInt64.ofNat (if isWrite then 0 else iov.length) ∧
      (iov.foldl (fun stats v => stats.count isWrite now v.miovLen) stats).mosWcount =
        stats.mosWcount + UInt64.ofNat (if isWrite then iov.length else 0) := by
  induction iov generalizing stats with
  | nil => cases isWrite <;> simp
  | cons v iov ih =>
    rw [List.foldl_cons]
    obtain ⟨h1, h2⟩ := ih (stats.count isWrite now v.miovLen)
    rw [h1, h2]
    cases isWrite
    · simp [MioObjStats.count, UInt64.ofNat_add, UInt64.add_assoc, UInt64.add_comm]
    · simp [MioObjStats.count, UInt64.ofNat_add, UInt64.add_assoc, UInt64.add_comm]

theorem grown_objStatsUpdate (obj : MioObj) (isWrite : Bool) (now : UInt64)
    (iov : List (MioIovec ℕ)) : obj.Grown (objStatsUpdate obj isWrite now iov)
      (if isWrite then 0 else iov.length) (if isWrite then iov.length else 0) := by
  obtain ⟨h1, h2⟩ := foldl_count isWrite now iov obj.moAttrs.moaStats
  exact ⟨h1, h2, fun _ hk => hk⟩

theorem isSome_updateAll {f : Int32 → Option UInt64} {k : Int32} (h : (f k).isSome)
    (pairs : List (Int32 × UInt64)) : (updateAll f pairs k).isSome := by
  induction pairs generalizing f with
  | nil => exact h
  | cons kv pairs ih =>
    refine ih ?_
    by_cases hk : k = kv.1
    · subst hk
      simp
    · simp only [Function.update_of_ne hk]
      exact h

/-- A call other than for the size lets statistics and hints grow. -/
theorem CallEffect.grown {w w' : World} {c : ObjCall} {rc : Option Fault}
    (h : CallEffect w c rc w') (hc : c.isSize = false) :
    w.obj.Grown w'.obj c.reads c.writes := by
  have hnone : ∀ c : ObjCall, ¬c.IsIo → c.reads = 0 ∧ c.writes = 0 := by
    intro c hio
    cases c <;> first | exact ⟨rfl, rfl⟩ | exact absurd trivial hio
  cases h with
  | @writev now app iov _ _ frame =>
    obtain ⟨n, hobj⟩ := frame.handle
    have hg := grown_objStatsUpdate w.obj true now iov
    rw [hobj]
    exact ⟨hg.rcount, hg.wcount, hg.hints⟩
  | @readv now app iov _ => exact grown_objStatsUpdate w.obj false now iov
  | load wf attrs => exact absurd hc (by simp [ObjCall.isSize])
  | @set _ map isSet wf nrEntries lookup =>
    have hio : ¬c.IsIo := by cases c <;> simp_all [ObjCall.IsSet, ObjCall.IsIo]
    obtain ⟨hr, hw⟩ := hnone c hio
    rw [hr, hw]
    refine ⟨(UInt64.add_zero _).symm, (UInt64.add_zero _).symm, fun k hk => ?_⟩
    change (map.lookup k).isSome
    rw [lookup]
    exact isSome_updateAll hk _
  | @hot map _ wf nrEntries lookup =>
    refine ⟨(UInt64.add_zero _).symm, (UInt64.add_zero _).symm, fun k hk => ?_⟩
    change (map.lookup k).isSome
    rw [lookup, Function.update_apply]
    split
    · rfl
    · exact hk
  | same notIo notSet =>
    obtain ⟨hr, hw⟩ := hnone c notIo
    rw [hr, hw]
    exact MioObj.SameUse.grown ⟨rfl, rfl⟩

/-! ### The result -/

/-- The record is up to date whenever the size is asked for. -/
def SizeUpToDate (conf : MioMotrConfig) (w : World) (cs : List ObjCall) : Prop :=
  ∀ pre post, cs = pre ++ .size :: post → (World.calls conf w pre).UpToDate

theorem sizeUpToDate_nil (w : World) : SizeUpToDate conf w [] :=
  fun pre post h => absurd h (by simp)

theorem sizeUpToDate_cons {w : World} {c : ObjCall} {cs : List ObjCall} :
    SizeUpToDate conf w (c :: cs) ↔
      (c = .size → w.UpToDate) ∧ SizeUpToDate conf (World.call conf w c).2 cs := by
  constructor
  · refine fun h => ⟨?_, ?_⟩
    · rintro rfl
      exact h [] cs rfl
    · rintro pre post rfl
      exact h (c :: pre) post rfl
  · rintro ⟨h1, h2⟩ pre post heq
    cases pre with
    | nil => exact h1 (List.cons.inj heq).1
    | cons c' pre =>
      obtain ⟨rfl, heq'⟩ := List.cons.inj heq
      exact h2 pre post heq'

/-- Two sequences of calls side by side, one of them without the size calls. -/
theorem calls_sameUse {cs : List ObjCall} {w w' : World} (hobj : w.obj.HintsOk)
    (hrec : RecordOk w.cluster.attrs) (huse : w.obj.SameUse w'.obj)
    (h : SizeUpToDate conf w cs) :
    (World.calls conf w cs).obj.SameUse (World.calls conf w' (withoutSize cs)).obj := by
  induction cs generalizing w w' with
  | nil => exact huse
  | cons c cs ih =>
    have heff : CallEffect w c (World.call conf w c).1 (World.call conf w c).2 :=
      callEffect hobj hrec rfl
    have hobj' := heff.hintsOk hobj
    have hrec' := heff.recordOk hobj hrec
    cases hc : c.isSize with
    | true =>
      obtain rfl : c = .size := by
        cases c <;> simp_all [ObjCall.isSize]
      have hsize : (World.call conf w .size).2.obj.SameUse w.obj :=
        size_sameUse hobj hrec ((sizeUpToDate_cons.mp h).1 rfl)
      have hskip : withoutSize (.size :: cs) = withoutSize cs := rfl
      rw [hskip]
      exact ih hobj' hrec' (hsize.trans huse) (sizeUpToDate_cons.mp h).2
    | false =>
      have hkeep : withoutSize (c :: cs) = c :: withoutSize cs := by
        rw [withoutSize, List.filter_cons, hc]
        rfl
      rw [hkeep]
      exact ih hobj' hrec' (huse.call hc) (sizeUpToDate_cons.mp h).2

/-- The growth over a sequence of calls. -/
theorem calls_grown {cs : List ObjCall} {w : World} (hobj : w.obj.HintsOk)
    (hrec : RecordOk w.cluster.attrs) (h : SizeUpToDate conf w cs) :
    w.obj.Grown (World.calls conf w cs).obj (cs.map ObjCall.reads).sum
      (cs.map ObjCall.writes).sum := by
  induction cs generalizing w with
  | nil => exact MioObj.SameUse.grown ⟨rfl, rfl⟩
  | cons c cs ih =>
    have heff : CallEffect w c (World.call conf w c).1 (World.call conf w c).2 :=
      callEffect hobj hrec rfl
    have hstep : w.obj.Grown (World.call conf w c).2.obj c.reads c.writes := by
      cases hc : c.isSize with
      | true =>
        obtain rfl : c = .size := by
          cases c <;> simp_all [ObjCall.isSize]
        exact (size_sameUse hobj hrec ((sizeUpToDate_cons.mp h).1 rfl)).grown
      | false => exact heff.grown hc
    rw [List.map_cons, List.sum_cons, List.map_cons, List.sum_cons]
    exact hstep.trans (ih (heff.hintsOk hobj) (heff.recordOk hobj hrec) (sizeUpToDate_cons.mp h).2)

/-- **Asking for the size makes no difference to statistics and hints**, in any
sequence of calls on an open object in which the record is up to date whenever
the size is asked for: they end up as without the size calls. In particular the
counters have gone up by what was read and written, and no hint is gone. -/
theorem sameUse_withoutSize {drv : M0Obj} {es : List Event} {s : Session} {obj : MioObj}
    {cs : List ObjCall} (h : SessionRun conf drv es s) (hobj : s.handle = some obj)
    (hup : SizeUpToDate conf ⟨s.cluster, obj⟩ cs) :
    (World.calls conf ⟨s.cluster, obj⟩ cs).obj.SameUse
        (World.calls conf ⟨s.cluster, obj⟩ (withoutSize cs)).obj ∧
      obj.Grown (World.calls conf ⟨s.cluster, obj⟩ cs).obj (cs.map ObjCall.reads).sum
        (cs.map ObjCall.writes).sum := by
  have hok : s.Ok := SessionRun.ok h
  exact ⟨calls_sameUse (hok.hints obj hobj) hok.record ⟨rfl, rfl⟩ hup,
    calls_grown (hok.hints obj hobj) hok.record hup⟩

/-- A hint, a write that grows the object, a question for the size, a read. -/
def freshCalls : List ObjCall :=
  [.hintSet mioHintObjLifetime 5, .writev 1 (fun _ => 7) [⟨0, 0, 4⟩], .size,
    .readv 2 (fun _ => 0) [⟨0, 0, 4⟩]]

/-- Both the hint and the write have stored the record. -/
theorem sameUse_withoutSize_freshCalls :
    ∃ es s obj, SessionRun ⟨4⟩ ⟨1, some ⟨1, 0, 1⟩, by decide⟩ es s ∧ s.handle = some obj ∧
      (World.calls ⟨4⟩ ⟨s.cluster, obj⟩ freshCalls).obj.SameUse
        (World.calls ⟨4⟩ ⟨s.cluster, obj⟩ (withoutSize freshCalls)).obj ∧
      (World.calls ⟨4⟩ ⟨s.cluster, obj⟩ freshCalls).obj.moAttrs.moaStats.mosRcount =
        obj.moAttrs.moaStats.mosRcount + 1 := by
  have hrun : SessionRun ⟨4⟩ ⟨1, some ⟨1, 0, 1⟩, by decide⟩ [(.create, none)]
      ⟨true, ⟨fun _ => 0, none⟩, some (objInit ⟨1, some ⟨1, 0, 1⟩, by decide⟩)⟩ :=
    run_of_exec [.create] rfl
  have hup : SizeUpToDate ⟨4⟩ ⟨⟨fun _ => 0, none⟩, objInit ⟨1, some ⟨1, 0, 1⟩, by decide⟩⟩
      freshCalls := by
    refine sizeUpToDate_cons.mpr ⟨by simp, sizeUpToDate_cons.mpr ⟨by simp, sizeUpToDate_cons.mpr
      ⟨fun _ => ?_, sizeUpToDate_cons.mpr ⟨by simp, sizeUpToDate_nil _⟩⟩⟩⟩
    decide +kernel
  obtain ⟨hsame, hgrown⟩ := sameUse_withoutSize hrun rfl hup
  exact ⟨_, _, _, hrun, rfl, hsame, hgrown.rcount⟩

/-- A hint of the session, a hint to keep, a write, a read, and a question for
the size. -/
def staleCalls : List ObjCall :=
  [.hintSet mioHintObjWhere 1, .hintSet mioHintObjLifetime 5, .writev 1 (fun _ => 7) [⟨0, 0, 4⟩],
    .readv 2 (fun _ => 0) [⟨0, 0, 4⟩], .size]

/-- **Asking for the size takes back the count of the read and drops the hint of
the session.** -/
theorem not_sameUse_withoutSize :
    ∃ es s obj, SessionRun ⟨4⟩ ⟨1, some ⟨1, 0, 1⟩, by decide⟩ es s ∧ s.handle = some obj ∧
      (World.calls ⟨4⟩ ⟨s.cluster, obj⟩ staleCalls).obj.moAttrs.moaStats.mosRcount = 0 ∧
      (World.calls ⟨4⟩ ⟨s.cluster, obj⟩
        (withoutSize staleCalls)).obj.moAttrs.moaStats.mosRcount = 1 ∧
      (World.calls ⟨4⟩ ⟨s.cluster, obj⟩ staleCalls).obj.moHints.lookup mioHintObjWhere = none ∧
      (World.calls ⟨4⟩ ⟨s.cluster, obj⟩ (withoutSize staleCalls)).obj.moHints.lookup
        mioHintObjWhere = some 1 := by
  have hrun : SessionRun ⟨4⟩ ⟨1, some ⟨1, 0, 1⟩, by decide⟩ [(.create, none)]
      ⟨true, ⟨fun _ => 0, none⟩, some (objInit ⟨1, some ⟨1, 0, 1⟩, by decide⟩)⟩ :=
    run_of_exec [.create] rfl
  refine ⟨_, _, _, hrun, rfl, ?_, ?_, ?_, ?_⟩ <;> decide +kernel

end CortxMio
