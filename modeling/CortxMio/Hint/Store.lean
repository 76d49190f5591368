import CortxMio.Hint.Lookup
import CortxMio.Lib.BoundedMap

/-!
# Hint maps in memory

The hint maps of a process, and the calls on them, as they leave all maps behind, also
where they fail, and also where a map is copied to itself
(`CortxMio.HintMapCall.exec`). Each map has been initialised before. The same calls on
finite maps of bounded capacity (`CortxMio.HintMapCall.absExec`) say what they are for: a
map is made empty, a key is set, one map is merged into another, each unless there is no
room.

`CortxMio.hintMapRun_refines` is the refinement: any sequence of calls returns the codes
that it has on the finite maps, and leaves maps that stand for them. Counts are numbers
here, which takes for granted that two of them can be added in an `int`.
-/

namespace CortxMio

open Lib

variable {ι : Type*} [DecidableEq ι]

/-! ### Calls -/

/-- `mio_hint_map_init` on one of the maps. -/
def hintMapInit (maps : ι → MioHintMap) (i : ι) (nrEntries : ℕ) :
    Except Fault (ℤ × (ι → MioHintMap)) :=
  if nrEntries = 0 then .error .abort
  else .ok (0, Function.update maps i (mioHintMapInit nrEntries))

/-- `mio_hint_map_set` on one of the maps. -/
def hintMapSet (maps : ι → MioHintMap) (i : ι) (key : Int32) (value : UInt64) :
    ℤ × (ι → MioHintMap) :=
  if (maps i).find key = (maps i).mhmNrSet ∧ (maps i).mhmNrSet = (maps i).mhmNrEntries then
    (-EINVAL, maps)
  else (0, Function.update maps i ((maps i).store key value))

/-- What slot `i` of a map holds. -/
def MioHintMap.slot (map : MioHintMap) (i : ℕ) : Int32 × UInt64 :=
  (map.mhmKeys.getD i 0, map.mhmValues.getD i 0)

/-- One round of the second loop of `mio_hint_map_copy`: the source may be the target. -/
def hintMapCopyRound (dst src : ι) (maps : ι → MioHintMap) (i : ℕ) : ι → MioHintMap :=
  let kv := (maps src).slot i
  Function.update maps dst ((maps dst).store kv.1 kv.2)

/-- `mio_hint_map_copy` from one of the maps to another: the number of hints of the source
stays what it is in the loop, for a map that is copied to itself has no new keys. -/
def hintMapCopy (maps : ι → MioHintMap) (dst src : ι) : Except Fault (ℤ × (ι → MioHintMap)) := do
  let (_, maps) ← if (maps dst).mhmNrEntries = 0 then
      hintMapInit maps dst (maps src).mhmNrEntries
    else .ok (0, maps)
  let nrNew := ((maps src).pairs.filter fun kv =>
    (maps dst).find kv.1 = (maps dst).mhmNrSet).length
  if (maps dst).mhmNrSet + nrNew > (maps dst).mhmNrEntries then .ok (-E2BIG, maps)
  else .ok (0, (List.range (maps src).mhmNrSet).foldl (hintMapCopyRound dst src) maps)

/-- A call on hint maps. -/
inductive HintMapCall (ι : Type*)
  /-- `mio_hint_map_init`. -/
  | init (i : ι) (nrEntries : ℕ) (pos : 0 < nrEntries)
  /-- `mio_hint_map_set`. -/
  | set (i : ι) (key : Int32) (value : UInt64)
  /-- `mio_hint_map_copy`. -/
  | copy (dst src : ι)

/-- What a call returns and leaves behind. -/
def HintMapCall.exec (maps : ι → MioHintMap) : HintMapCall ι → Except Fault (ℤ × (ι → MioHintMap))
  | .init i nrEntries _ => hintMapInit maps i nrEntries
  | .set i key value => .ok (hintMapSet maps i key value)
  | .copy dst src => hintMapCopy maps dst src

/-- A sequence of calls: all codes, and the maps in the end. -/
def hintMapRun : List (HintMapCall ι) → (ι → MioHintMap) →
    Except Fault (List ℤ × (ι → MioHintMap))
  | [], maps => .ok ([], maps)
  | c :: cs, maps => do
      let (rc, maps) ← c.exec maps
      let (rcs, maps) ← hintMapRun cs maps
      .ok (rc :: rcs, maps)

/-! ### What they are for -/

/-- A finite map of hints. -/
abbrev HintFinmap := BoundedMap Int32 UInt64

/-- A call on finite maps. -/
def HintMapCall.absExec (abs : ι → HintFinmap) : HintMapCall ι → ℤ × (ι → HintFinmap)
  | .init i nrEntries _ => (0, Function.update abs i (.empty nrEntries))
  | .set i key value =>
      match (abs i).set key value with
      | none => (-EINVAL, abs)
      | some m => (0, Function.update abs i m)
  | .copy dst src =>
      match (abs dst).merge (abs src) with
      | none => (-E2BIG, abs)
      | some m => (0, Function.update abs dst m)

/-- A sequence of calls on finite maps. -/
def hintMapAbsRun : List (HintMapCall ι) → (ι → HintFinmap) → List ℤ × (ι → HintFinmap)
  | [], abs => ([], abs)
  | c :: cs, abs =>
      let (rc, abs) := c.absExec abs
      let (rcs, abs) := hintMapAbsRun cs abs
      (rc :: rcs, abs)

/-- A map that stands for a finite one: it has slots, no more of them in use than there
are, with distinct keys, and it is looked up in as the finite map is. -/
structure MioHintMap.StandsFor (map : MioHintMap) (m : HintFinmap) : Prop where
  /-- The arrays are in place. -/
  inPlace : map.InPlace
  /-- There are slots. -/
  pos : 0 < map.mhmNrEntries
  /-- The pairs in use are those of the finite map. -/
  rep : m.RepresentedBy map.mhmNrEntries map.pairs

/-! ### The copying loop -/

theorem MioHintMap.InPlace.map_slot {map : MioHintMap} (h : map.InPlace) :
    (List.range map.mhmNrSet).map map.slot = map.pairs := by
  refine List.ext_getElem? fun i => ?_
  rcases Nat.lt_or_ge i map.mhmNrSet with hi | hi
  · rw [h.getElem?_pairs hi, List.getElem?_map, List.getElem?_range hi]
    rfl
  · rw [List.getElem?_eq_none (by simpa using hi),
      List.getElem?_eq_none (by rw [h.length_pairs]; exact hi)]

/-- A map that is copied to another one. -/
theorem foldl_copyRound_of_ne {dst src : ι} (hne : src ≠ dst) (is : List ℕ)
    (maps : ι → MioHintMap) :
    is.foldl (hintMapCopyRound dst src) maps =
      Function.update maps dst (mioHintMapCopyLoop (maps dst) (is.map (maps src).slot)) := by
  induction is generalizing maps with
  | nil => exact (Function.update_eq_self dst maps).symm
  | cons i is ih =>
    rw [List.foldl_cons, ih, hintMapCopyRound]
    simp only [Function.update_of_ne hne, Function.update_self, Function.update_idem]
    rfl

/-- A pair that is there is stored in its own slot. -/
theorem MioHintMap.InPlace.store_slot {map : MioHintMap} (h : map.InPlace)
    (hnodup : (map.pairs.map Prod.fst).Nodup) {i : ℕ} (hi : i < map.mhmNrSet) :
    map.store (map.slot i).1 (map.slot i).2 = map := by
  have h1 := h.keys
  have h2 := h.values
  have h3 := h.nrSet
  have hi1 : i < map.mhmKeys.length := by omega
  have hi2 : i < map.mhmValues.length := by omega
  have hslot : map.slot i = (map.mhmKeys[i], map.mhmValues[i]) := by
    rw [MioHintMap.slot, List.getD_eq_getElem _ _ hi1, List.getD_eq_getElem _ _ hi2]
  have hi' : i < map.setKeys.length := by rwa [h.length_setKeys]
  have hfind : map.find map.mhmKeys[i] = i := by
    have hkey : map.setKeys[i] = map.mhmKeys[i] := List.getElem_take
    rw [MioHintMap.find, ← hkey]
    rw [← h.setKeys_eq] at hnodup
    exact hnodup.idxOf_getElem i hi'
  rw [hslot, MioHintMap.store]
  simp only [hfind, if_neg (Nat.ne_of_lt hi), MioHintMap.put, List.set_getElem_self]

/-- A map that is copied to itself. -/
theorem foldl_copyRound_self {dst : ι} {maps : ι → MioHintMap} (h : (maps dst).InPlace)
    (hnodup : ((maps dst).pairs.map Prod.fst).Nodup) {is : List ℕ}
    (his : ∀ i ∈ is, i < (maps dst).mhmNrSet) :
    is.foldl (hintMapCopyRound dst dst) maps = maps := by
  induction is with
  | nil => rfl
  | cons i is ih =>
    have hround : hintMapCopyRound dst dst maps i = maps := by
      rw [hintMapCopyRound]
      simp only [h.store_slot hnodup (his i List.mem_cons_self), Function.update_eq_self]
    rw [List.foldl_cons, hround]
    exact ih fun j hj => his j (List.mem_cons_of_mem i hj)

/-! ### Refinement -/

section Refines

variable {maps : ι → MioHintMap} {abs : ι → HintFinmap}

/-- A map whose pairs have changed stands for another finite map. -/
theorem MioHintMap.Became.standsFor {map map' : MioHintMap} {pairs : List (Int32 × UInt64)}
    {m : HintFinmap} (h : map.Became pairs map') (hpos : 0 < map.mhmNrEntries)
    (hrep : m.RepresentedBy map.mhmNrEntries pairs) : map'.StandsFor m := by
  refine ⟨h.inPlace, ?_, ?_⟩
  · rwa [h.nrEntries]
  · rwa [h.nrEntries, h.pairs]

theorem standsFor_mioHintMapInit {n : ℕ} (hpos : 0 < n) :
    (mioHintMapInit n).StandsFor (.empty n) :=
  ⟨inPlace_mioHintMapInit n, hpos, .empty n⟩

/-- A family of maps of which one has changed. -/
theorem standsFor_update (h : ∀ i, (maps i).StandsFor (abs i)) {i : ι} {map : MioHintMap}
    {m : HintFinmap} (hmap : map.StandsFor m) (j : ι) :
    (Function.update maps i map j).StandsFor (Function.update abs i m j) := by
  by_cases hj : j = i
  · subst hj
    rwa [Function.update_self, Function.update_self]
  · rw [Function.update_of_ne hj, Function.update_of_ne hj]
    exact h j

/-- The copying loop, whether or not the source is the target. -/
theorem foldl_copyRound {dst src : ι} (hdst : (maps dst).StandsFor (abs dst))
    (hsrc : (maps src).StandsFor (abs src))
    (hroom : (maps dst).pairs.length + (newPairs (maps dst).pairs (maps src).pairs).length ≤
      (maps dst).mhmNrEntries) :
    ∃ map, (List.range (maps src).mhmNrSet).foldl (hintMapCopyRound dst src) maps =
        Function.update maps dst map ∧
      (maps dst).Became (assocPutAll (maps dst).pairs (maps src).pairs) map := by
  by_cases hself : src = dst
  · subst hself
    refine ⟨maps src, ?_, hsrc.inPlace, rfl, ?_⟩
    · rw [Function.update_eq_self]
      exact foldl_copyRound_self hsrc.inPlace hsrc.rep.nodup fun i hi => List.mem_range.mp hi
    · exact (assocPutAll_of_subset hsrc.rep.nodup fun _ hkv => hkv).symm
  · refine ⟨_, foldl_copyRound_of_ne hself _ maps, ?_⟩
    rw [hsrc.inPlace.map_slot]
    exact hdst.inPlace.copyLoop hroom

/-- **Setting a hint.** -/
theorem hintMapSet_spec {i : ι} (h : (maps i).InPlace) (key : Int32) (value : UInt64) :
    if key ∉ (maps i).pairs.map Prod.fst ∧ (maps i).pairs.length = (maps i).mhmNrEntries then
      hintMapSet maps i key value = (-EINVAL, maps)
    else ∃ map, hintMapSet maps i key value = (0, Function.update maps i map) ∧
      (maps i).Became (assocPut (maps i).pairs key value) map := by
  rw [hintMapSet]
  split
  · next hfull => rw [if_pos ((h.full_iff key).mpr hfull)]
  · next hroom =>
    rw [if_neg fun hc => hroom ((h.full_iff key).mp hc)]
    exact ⟨_, rfl, h.store key value (h.room hroom)⟩

/-- A target with slots. -/
theorem hintMapCopy_eq {dst : ι} (src : ι) (hne : (maps dst).mhmNrEntries ≠ 0) :
    hintMapCopy maps dst src =
      if (maps dst).mhmNrSet + ((maps src).pairs.filter fun kv =>
          (maps dst).find kv.1 = (maps dst).mhmNrSet).length > (maps dst).mhmNrEntries then
        .ok (-E2BIG, maps)
      else .ok (0, (List.range (maps src).mhmNrSet).foldl (hintMapCopyRound dst src) maps) := by
  rw [hintMapCopy, if_neg hne]
  rfl

/-- **Copying a map.** -/
theorem hintMapCopy_spec {dst src : ι} (hdst : (maps dst).StandsFor (abs dst))
    (hsrc : (maps src).StandsFor (abs src)) :
    if (maps dst).mhmNrEntries <
        (maps dst).pairs.length + (newPairs (maps dst).pairs (maps src).pairs).length then
      hintMapCopy maps dst src = .ok (-E2BIG, maps)
    else ∃ map, hintMapCopy maps dst src = .ok (0, Function.update maps dst map) ∧
      (maps dst).Became (assocPutAll (maps dst).pairs (maps src).pairs) map := by
  have heq := hintMapCopy_eq src (Nat.ne_of_gt hdst.pos)
  rw [hdst.inPlace.filter_find_eq, ← hdst.inPlace.length_pairs] at heq
  split
  · next hfull => rw [heq, if_pos hfull]
  · next hroom =>
    obtain ⟨map, hloop, hmap⟩ := foldl_copyRound hdst hsrc (Nat.not_lt.mp hroom)
    rw [heq, if_neg hroom, hloop]
    exact ⟨map, rfl, hmap⟩

/-- **One call** returns what it has to, and leaves what it has to. -/
theorem exec_refines (h : ∀ i, (maps i).StandsFor (abs i)) (c : HintMapCall ι) :
    ∃ maps', c.exec maps = .ok ((c.absExec abs).1, maps') ∧
      ∀ j, (maps' j).StandsFor ((c.absExec abs).2 j) := by
  cases c with
  | init i nrEntries hpos =>
    refine ⟨_, if_neg (Nat.ne_of_gt hpos), ?_⟩
    exact standsFor_update h (standsFor_mioHintMapInit hpos)
  | set i key value =>
    have hspec := hintMapSet_spec (h i).inPlace key value
    have hset := (h i).rep.set key value
    rw [HintMapCall.exec, HintMapCall.absExec]
    split at hspec
    · next hfull =>
      rw [if_pos hfull] at hset
      rw [hspec, hset]
      exact ⟨maps, rfl, h⟩
    · next hroom =>
      obtain ⟨map, heq, hmap⟩ := hspec
      rw [if_neg hroom] at hset
      obtain ⟨m, hm, hrep⟩ := hset
      rw [heq, hm]
      exact ⟨_, rfl, standsFor_update h (hmap.standsFor (h i).pos hrep)⟩
  | copy dst src =>
    have hspec := hintMapCopy_spec (h dst) (h src)
    have hmerge := (h dst).rep.merge (h src).rep
    rw [HintMapCall.exec, HintMapCall.absExec]
    split at hspec
    · next hfull =>
      rw [if_pos hfull] at hmerge
      rw [hspec, hmerge]
      exact ⟨maps, rfl, h⟩
    · next hroom =>
      obtain ⟨map, heq, hmap⟩ := hspec
      rw [if_neg hroom] at hmerge
      obtain ⟨m, hm, hrep⟩ := hmerge
      rw [heq, hm]
      exact ⟨_, rfl, standsFor_update h (hmap.standsFor (h dst).pos hrep)⟩

/-- **A sequence of calls**, by induction. -/
theorem hintMapRun_standsFor (h : ∀ i, (maps i).StandsFor (abs i)) (cs : List (HintMapCall ι)) :
    ∃ maps', hintMapRun cs maps = .ok ((hintMapAbsRun cs abs).1, maps') ∧
      ∀ j, (maps' j).StandsFor ((hintMapAbsRun cs abs).2 j) := by
  induction cs generalizing maps abs with
  | nil => exact ⟨maps, rfl, h⟩
  | cons c cs ih =>
    obtain ⟨maps₁, hexec, h₁⟩ := exec_refines h c
    obtain ⟨maps₂, hrun, h₂⟩ := ih h₁
    refine ⟨maps₂, ?_, h₂⟩
    rw [hintMapRun, hexec]
    change (hintMapRun cs maps₁ >>= _) = _
    rw [hrun]
    rfl

/-! ### In their own terms -/

/-- Reading a hint through its value. -/
theorem mioHintMapGet_congr {map map' : MioHintMap} (h : map.InPlace) (h' : map'.InPlace)
    {key : Int32} (heq : map'.lookup key = map.lookup key) :
    mioHintMapGet map' key = mioHintMapGet map key := by
  rw [mioHintMapGet_eq h', mioHintMapGet_eq h, heq]

/-- **What is promised of hint maps**: they have no more slots in use than there are, with
distinct keys. Setting a hint fails exactly if its key is absent and the map is full.
Copying a map fails exactly if the keys of both are more than the slots of the target.
A call that fails changes nothing, and one that does not gives the keys in question
their new values. -/
structure HintMapsOk (maps : ι → MioHintMap) : Prop where
  /-- The slots in use. -/
  nrSet : ∀ i, (maps i).mhmNrSet ≤ (maps i).mhmNrEntries
  /-- Their keys. -/
  nodup : ∀ i, (maps i).setKeys.Nodup
  /-- `mio_hint_map_set`. -/
  set : ∀ i key value,
    if key ∉ (maps i).setKeys ∧ (maps i).mhmNrSet = (maps i).mhmNrEntries then
      hintMapSet maps i key value = (-EINVAL, maps)
    else ∃ map, hintMapSet maps i key value = (0, Function.update maps i map) ∧
      ∀ k, mioHintMapGet map k = if k = key then .ok value else mioHintMapGet (maps i) k
  /-- `mio_hint_map_copy`. -/
  copy : ∀ dst src,
    if (maps dst).mhmNrEntries <
        ((maps dst).setKeys.toFinset ∪ (maps src).setKeys.toFinset).card then
      hintMapCopy maps dst src = .ok (-E2BIG, maps)
    else ∃ map, hintMapCopy maps dst src = .ok (0, Function.update maps dst map) ∧
      ∀ k, mioHintMapGet map k = if k ∈ (maps src).setKeys then mioHintMapGet (maps src) k
        else mioHintMapGet (maps dst) k

theorem hintMapsOk (h : ∀ i, (maps i).StandsFor (abs i)) : HintMapsOk maps where
  nrSet i := (h i).inPlace.nrSet
  nodup i := by
    rw [(h i).inPlace.setKeys_eq]
    exact (h i).rep.nodup
  set i key value := by
    have hin := (h i).inPlace
    have hspec := hintMapSet_spec hin key value
    rw [hin.setKeys_eq, ← hin.length_pairs]
    split at hspec
    · next hfull => rwa [if_pos hfull]
    · next hroom =>
      obtain ⟨map, heq, hmap⟩ := hspec
      rw [if_neg hroom]
      refine ⟨map, heq, fun k => ?_⟩
      have hlookup : map.lookup k = Function.update (maps i).lookup key (some value) k := by
        rw [MioHintMap.lookup, hmap.pairs]
        exact congrFun (lookup_assocPut (maps i).pairs key value) k
      rw [Function.update_apply] at hlookup
      split
      · next hk =>
        rw [if_pos hk] at hlookup
        rw [mioHintMapGet_eq hmap.inPlace, hlookup]
      · next hk =>
        rw [if_neg hk] at hlookup
        exact mioHintMapGet_congr hin hmap.inPlace hlookup
  copy dst src := by
    have hin := (h src).inPlace
    have hspec := hintMapCopy_spec (h dst) (h src)
    rw [(h dst).inPlace.setKeys_eq, hin.setKeys_eq,
      ← length_add_newPairs (h dst).rep.nodup (h src).rep.nodup]
    split at hspec
    · next hfull => rwa [if_pos hfull]
    · next hroom =>
      obtain ⟨map, heq, hmap⟩ := hspec
      rw [if_neg hroom]
      refine ⟨map, heq, fun k => ?_⟩
      have hlookup : map.lookup k = ((maps src).lookup k).or ((maps dst).lookup k) := by
        rw [MioHintMap.lookup, hmap.pairs]
        exact lookup_assocPutAll_of_nodup (h src).rep.nodup _ k
      split
      · next hk =>
        obtain ⟨v, hv⟩ := Option.isSome_iff_exists.mp (isSome_lookup_iff.mpr hk)
        have hv' : (maps src).lookup k = some v := hv
        rw [hv', Option.some_or, ← hv'] at hlookup
        exact mioHintMapGet_congr hin hmap.inPlace hlookup
      · next hk =>
        have hnone : (maps src).lookup k = none := lookup_eq_none_of_notMem hk
        rw [hnone, Option.none_or] at hlookup
        exact mioHintMapGet_congr (h dst).inPlace hmap.inPlace hlookup

end Refines

/-- **Hint maps are finite maps of bounded capacity**, over any sequence of calls on maps
that have been initialised with slots: the calls return what they return on finite maps;
the maps that they leave keep all that is promised of them; the capacity is the number
of slots; and what `mio_hint_map_get` reads is the value that the finite map has. -/
theorem hintMapRun_refines (caps : ι → ℕ) (hcaps : ∀ i, 0 < caps i) (cs : List (HintMapCall ι)) :
    ∃ maps, hintMapRun cs (fun i => mioHintMapInit (caps i)) =
        .ok ((hintMapAbsRun cs fun i => .empty (caps i)).1, maps) ∧
      HintMapsOk maps ∧
      ∀ i, ((hintMapAbsRun cs fun i => .empty (caps i)).2 i).cap = (maps i).mhmNrEntries ∧
        ∀ key, mioHintMapGet (maps i) key =
          match ((hintMapAbsRun cs fun i => .empty (caps i)).2 i).lookup key with
          | some value => .ok value
          | none => .error (.err (-ENOENT)) := by
  have hstart : ∀ i, (mioHintMapInit (caps i)).StandsFor (.empty (caps i)) := fun i =>
    standsFor_mioHintMapInit (hcaps i)
  obtain ⟨maps, hrun, hmaps⟩ := hintMapRun_standsFor hstart cs
  refine ⟨maps, hrun, hintMapsOk hmaps, fun i => ⟨(hmaps i).rep.cap, fun key => ?_⟩⟩
  rw [(hmaps i).rep.lookup]
  exact mioHintMapGet_eq (hmaps i).inPlace key

/-- Two maps of one slot: the one does not take the hint of the other, and takes its
own. -/
theorem hintMapRun_full :
    ∃ maps, hintMapRun [.set true 5 7, .set false 6 8, .copy true false, .copy true true]
        (fun _ : Bool => mioHintMapInit 1) = .ok ([0, 0, -E2BIG, 0], maps) ∧
      HintMapsOk maps := by
  obtain ⟨maps, hrun, hok, -⟩ := hintMapRun_refines (fun _ : Bool => 1) (fun _ => Nat.one_pos)
    [.set true 5 7, .set false 6 8, .copy true false, .copy true true]
  exact ⟨maps, hrun, hok⟩

end CortxMio
