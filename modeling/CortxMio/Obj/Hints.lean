import CortxMio.Hint.Lookup
import CortxMio.Obj.Api

/-!
# What the operations do to hints

A hint map is read through `CortxMio.MioHintMap.lookup`. In these terms setting
a hint updates one key (`CortxMio.mioHintMapSet_spec`), copying a map updates
one key after the other (`CortxMio.mioHintMapCopy_spec`), the map of persistent
hints agrees with the map it is built from on persistent keys
(`CortxMio.lookup_phintsOf`), and a record with hints in it replaces the map
altogether (`CortxMio.lookup_load`).
-/

namespace CortxMio

open Lib

/-! ### Storing hints -/

theorem MioHintMap.Wf.inPlace {map : MioHintMap} (h : map.Wf) : map.InPlace :=
  ⟨h.keys, h.values, h.nrSet⟩

/-- What storing one hint does. -/
structure Stored (map map' : MioHintMap) (key : Int32) (value : UInt64) : Prop where
  /-- The map stays sound. -/
  wf : map'.Wf
  /-- The number of slots stays. -/
  nrEntries : map'.mhmNrEntries = map.mhmNrEntries
  /-- The key has the value. -/
  lookup : map'.lookup = Function.update map.lookup key (some value)
  /-- The keys in use. -/
  keys : ∀ k, k ∈ map'.pairs.map Prod.fst ↔ k = key ∨ k ∈ map.pairs.map Prod.fst

theorem MioHintMap.Became.stored {map map' : MioHintMap} {key : Int32} {value : UInt64}
    (h : map.Wf) (hmap : map.Became (assocPut map.pairs key value) map') :
    Stored map map' key value := by
  refine ⟨⟨?_, ?_, ?_, ?_⟩, hmap.nrEntries, ?_, fun k => ?_⟩
  · exact hmap.inPlace.keys
  · exact hmap.inPlace.values
  · exact hmap.inPlace.nrSet
  · exact hmap.nrEntries.trans_le h.nrEntries
  · unfold MioHintMap.lookup
    rw [hmap.pairs, lookup_assocPut]
  · rw [hmap.pairs, mem_keys_assocPut]

/-- **Setting a hint** updates one key. -/
theorem mioHintMapSet_spec {map map' : MioHintMap} (h : map.Wf) {key : Int32} (value : UInt64)
    (hset : mioHintMapSet map key value = .ok map') : Stored map map' key value := by
  have hspec := h.inPlace.set key value
  split at hspec
  · exact absurd (hset.symm.trans hspec) (by simp)
  · obtain ⟨map'', hmap, hst⟩ := hspec
    obtain rfl := Except.ok.inj (hset.symm.trans hmap)
    exact hst.stored h

/-! ### Copying maps -/

/-- Setting one hint after the other. -/
def updateAll (f : Int32 → Option UInt64) (pairs : List (Int32 × UInt64)) : Int32 → Option UInt64 :=
  pairs.foldl (fun f kv => Function.update f kv.1 (some kv.2)) f

/-- **Copying a map** into one that has slots sets one hint after the other,
whatever the map that is copied looks like. -/
theorem mioHintMapCopy_spec {dst src map : MioHintMap} (h : dst.Wf) (hne : dst.mhmNrEntries ≠ 0)
    (hcopy : mioHintMapCopy dst src = .ok map) :
    map.Wf ∧ map.mhmNrEntries = dst.mhmNrEntries ∧
      map.lookup = updateAll dst.lookup src.pairs := by
  rw [mioHintMapCopy, if_neg (fun hc => hne hc.1)] at hcopy
  simp only [if_neg hne, h.inPlace.filter_find_eq] at hcopy
  split at hcopy
  · exact absurd hcopy (by simp)
  · next hroom =>
    obtain rfl := Except.ok.inj hcopy
    rw [← h.inPlace.length_pairs] at hroom
    obtain ⟨hin, hnr, hpairs⟩ := h.inPlace.copyLoop (Nat.not_lt.mp hroom)
    refine ⟨⟨hin.keys, hin.values, hin.nrSet, hnr.trans_le h.nrEntries⟩, hnr, ?_⟩
    unfold MioHintMap.lookup
    rw [hpairs, lookup_assocPutAll]
    rfl

/-! ### Persistent hints -/

/-- A map whose arrays start with given keys and values. -/
theorem pairs_overwrite (n : ℕ) (l : List (Int32 × UInt64)) (keys : List Int32)
    (values : List UInt64) :
    (MioHintMap.mk n l.length (overwrite (l.map Prod.fst) keys)
      (overwrite (l.map Prod.snd) values)).pairs = l := by
  have hzip : (l.map Prod.fst).zip (l.map Prod.snd) = l := by
    rw [List.zip_map', List.map_id'']
    exact fun x => rfl
  rw [MioHintMap.pairs, overwrite, overwrite, List.zip_append (by simp), hzip, List.take_left]

theorem length_overwrite {α : Type} {new old : List α} (h : new.length ≤ old.length) :
    (overwrite new old).length = old.length := by
  rw [overwrite, List.length_append, List.length_drop]
  omega

section Phints

variable {hints : MioHintMap} (h : hints.Wf)

include h

theorem length_kept_le : (hints.pairs.filter isPersistent).length ≤ mioObjHintNum := by
  have h1 := List.length_filter_le isPersistent hints.pairs
  rw [h.inPlace.length_pairs] at h1
  exact h1.trans (h.nrSet.trans h.nrEntries)

theorem wf_phintsOf : (phintsOf hints).Wf := by
  have hle := length_kept_le h
  refine ⟨?_, ?_, hle, le_rfl⟩
  · refine (length_overwrite ?_).trans (List.length_replicate ..)
    rw [List.length_map]
    exact hle.trans (List.length_replicate ..).ge
  · refine (length_overwrite ?_).trans (List.length_replicate ..)
    rw [List.length_map]
    exact hle.trans (List.length_replicate ..).ge

omit h in
theorem pairs_phintsOf : (phintsOf hints).pairs = hints.pairs.filter isPersistent :=
  pairs_overwrite ..

omit h in
/-- **The map of persistent hints** has the persistent keys, with their
values. -/
theorem lookup_phintsOf (k : Int32) : (phintsOf hints).lookup k =
    if mioHintType k = some .persistent then hints.lookup k else none := by
  rw [MioHintMap.lookup, pairs_phintsOf,
    lookup_filter_of_key isPersistent (fun k => decide (mioHintType k = some .persistent))
      (fun _ => rfl)]
  simp only [decide_eq_true_eq]
  rfl

end Phints

/-! ### Handles -/

/-- A handle with its maps in place. -/
structure MioObj.HintsOk (obj : MioObj) : Prop where
  /-- The map of hints. -/
  hints : obj.moHints.Wf
  /-- `obj_init` has given it all its slots. -/
  nrEntries : obj.moHints.mhmNrEntries = mioObjHintNum
  /-- The map of persistent hints. -/
  phints : obj.moAttrs.moaPhints.Wf

theorem hintsOk_objInit (drv : M0Obj) : (objInit drv).HintsOk :=
  ⟨⟨rfl, rfl, Nat.zero_le _, le_rfl⟩, rfl, MioHintMap.wf_zeroed⟩

section Load

variable {obj src : MioObj} (h : obj.HintsOk) (hsrc : src.moAttrs.moaPhints.Wf)

include hsrc

/-- The map after a record with hints in it was loaded. -/
theorem pairs_load (hne : src.moAttrs.moaPhints.mhmNrSet ≠ 0) :
    (obj.load src).moHints.pairs = src.moAttrs.moaPhints.pairs := by
  have hlen := hsrc.inPlace.length_pairs
  have hfst : src.moAttrs.moaPhints.mhmKeys.take src.moAttrs.moaPhints.mhmNrSet =
      src.moAttrs.moaPhints.pairs.map Prod.fst := hsrc.inPlace.setKeys_eq
  simp only [MioObj.load, if_neg hne, hfst, hsrc.inPlace.setValues_eq]
  rw [← hlen]
  exact pairs_overwrite ..

/-- **Loading a record** replaces the hints, if the record has any. -/
theorem lookup_load : (obj.load src).moHints.lookup =
    if src.moAttrs.moaPhints.mhmNrSet = 0 then obj.moHints.lookup
    else src.moAttrs.moaPhints.lookup := by
  split
  · next h0 => simp only [MioObj.load, if_pos h0]
  · next hne =>
    unfold MioHintMap.lookup
    rw [pairs_load hsrc hne]

include h

theorem MioObj.HintsOk.load : (obj.load src).HintsOk := by
  have h1 := hsrc.keys
  have h2 := hsrc.values
  have h3 := hsrc.nrSet
  have h4 := hsrc.nrEntries
  have h5 := h.nrEntries
  refine ⟨?_, ?_, h.phints⟩
  · simp only [MioObj.load]
    split
    · exact h.hints
    · refine ⟨?_, ?_, ?_, h.hints.nrEntries⟩
      · refine (length_overwrite ?_).trans h.hints.keys
        rw [List.length_take, h.hints.keys]
        omega
      · refine (length_overwrite ?_).trans h.hints.values
        rw [List.length_take, h.hints.values]
        omega
      · change src.moAttrs.moaPhints.mhmNrSet ≤ obj.moHints.mhmNrEntries
        omega
  · simp only [MioObj.load]
    split
    · exact h5
    · exact h5

end Load

end CortxMio
