import CortxMio.Hint.Map
import CortxMio.Lib.AssocList
import Mathlib.Data.List.GetD

/-!
# Hint maps as association lists

A map of which the arrays are in place (`CortxMio.MioHintMap.InPlace`) is the list of the
pairs in use, read by `CortxMio.MioHintMap.lookup`; this is what `mio_hint_map_get` does
(`CortxMio.mioHintMapGet_eq`). Storing a pair, by `mio_hint_map_set` or in a round of
`mio_hint_map_copy`, puts it into the list (`CortxMio.MioHintMap.InPlace.store`), if there
is a slot, and the copying loop puts one after the other
(`CortxMio.MioHintMap.InPlace.copyLoop`).
-/

namespace CortxMio

open Lib

/-! ### Looking hints up -/

/-- The value of a hint, if it is set. -/
def MioHintMap.lookup (map : MioHintMap) (key : Int32) : Option UInt64 := map.pairs.lookup key

/-- A map with its arrays in place: of the slots for `mhm_nr_entries` hints no more are
in use than there are. -/
structure MioHintMap.InPlace (map : MioHintMap) : Prop where
  /-- The array of keys is allocated. -/
  keys : map.mhmKeys.length = map.mhmNrEntries
  /-- The array of values is allocated. -/
  values : map.mhmValues.length = map.mhmNrEntries
  /-- The slots in use exist. -/
  nrSet : map.mhmNrSet ≤ map.mhmNrEntries

theorem inPlace_mioHintMapInit (nrEntries : ℕ) : (mioHintMapInit nrEntries).InPlace :=
  ⟨List.length_replicate .., List.length_replicate .., Nat.zero_le _⟩

section InPlace

variable {map : MioHintMap} (h : map.InPlace)

include h

theorem MioHintMap.InPlace.length_pairs : map.pairs.length = map.mhmNrSet := by
  have h1 := h.keys
  have h2 := h.values
  have h3 := h.nrSet
  simp only [MioHintMap.pairs, List.length_take, List.length_zip]
  omega

theorem MioHintMap.InPlace.setKeys_eq : map.setKeys = map.pairs.map Prod.fst := by
  rw [MioHintMap.setKeys, MioHintMap.pairs, List.map_take, List.map_fst_zip]
  rw [h.keys, h.values]

theorem MioHintMap.InPlace.setValues_eq :
    map.mhmValues.take map.mhmNrSet = map.pairs.map Prod.snd := by
  rw [MioHintMap.pairs, List.map_take, List.map_snd_zip]
  rw [h.keys, h.values]

theorem MioHintMap.InPlace.length_setKeys : map.setKeys.length = map.mhmNrSet := by
  rw [h.setKeys_eq, List.length_map, h.length_pairs]

/-- The search comes to the end of the keys in use when the key is not there. -/
theorem MioHintMap.InPlace.find_eq_iff (key : Int32) :
    map.find key = map.mhmNrSet ↔ key ∉ map.pairs.map Prod.fst := by
  rw [MioHintMap.find, ← h.length_setKeys, List.idxOf_eq_length_iff, h.setKeys_eq]

theorem MioHintMap.InPlace.find_lt {key : Int32} (hkey : key ∈ map.pairs.map Prod.fst) :
    map.find key < map.mhmNrSet := by
  rw [MioHintMap.find, ← h.length_setKeys, List.idxOf_lt_length_iff, h.setKeys_eq]
  exact hkey

/-- The pairs of which the search does not find the key. -/
theorem MioHintMap.InPlace.filter_find_eq (ps : List (Int32 × UInt64)) :
    (ps.filter fun kv => map.find kv.1 = map.mhmNrSet) = newPairs map.pairs ps := by
  refine List.filter_congr fun kv _ => ?_
  rw [decide_eq_decide, h.find_eq_iff]

/-- The pair in a slot that is in use. -/
theorem MioHintMap.InPlace.getElem?_pairs {i : ℕ} (hi : i < map.mhmNrSet) :
    map.pairs[i]? = some (map.mhmKeys.getD i 0, map.mhmValues.getD i 0) := by
  have h1 := h.keys
  have h2 := h.values
  have h3 := h.nrSet
  rw [MioHintMap.pairs, List.getElem?_take_of_lt hi,
    List.getElem?_eq_getElem (by rw [List.length_zip]; omega), List.getElem_zip,
    List.getD_eq_getElem _ _ (by omega), List.getD_eq_getElem _ _ (by omega)]

/-- **Looking up is what `mio_hint_map_get` does.** -/
theorem mioHintMapGet_eq (key : Int32) :
    mioHintMapGet map key = match map.lookup key with
      | some v => .ok v
      | none => .error (.err (-ENOENT)) := by
  rw [mioHintMapGet]
  by_cases hkey : key ∈ map.pairs.map Prod.fst
  · have hlt := h.find_lt hkey
    have hlookup : map.lookup key = (map.pairs[map.find key]?).map Prod.snd := by
      rw [MioHintMap.lookup, lookup_eq_getElem?, ← h.setKeys_eq]
      rfl
    rw [if_neg (Nat.ne_of_lt hlt), hlookup, h.getElem?_pairs hlt]
    rfl
  · rw [if_pos ((h.find_eq_iff key).mpr hkey)]
    rw [MioHintMap.lookup, lookup_eq_none_of_notMem hkey]

end InPlace

/-! ### Storing hints -/

theorem zip_set {α β : Type} (l : List α) (l' : List β) (i : ℕ) (a : α) (b : β) :
    (l.set i a).zip (l'.set i b) = (l.zip l').set i (a, b) := by
  induction l generalizing l' i with
  | nil => simp
  | cons x l ih =>
    cases l' with
    | nil => simp
    | cons y l' =>
      cases i with
      | zero => rfl
      | succ i => simp [ih]

/-- Store a pair in the slot of its key, or in the next one. -/
def MioHintMap.store (map : MioHintMap) (key : Int32) (value : UInt64) : MioHintMap :=
  let j := map.find key
  if j = map.mhmNrSet then { map with mhmNrSet := map.mhmNrSet + 1 }.put j key value
  else map.put j key value

/-- Setting a hint stores it, if there is a slot. -/
theorem mioHintMapSet_eq (map : MioHintMap) (key : Int32) (value : UInt64) :
    mioHintMapSet map key value =
      if map.find key = map.mhmNrSet ∧ map.mhmNrSet = map.mhmNrEntries then
        .error (.err (-EINVAL))
      else .ok (map.store key value) := by
  rw [mioHintMapSet, MioHintMap.store]
  by_cases hfind : map.find key = map.mhmNrSet
  · simp only [hfind, true_and, if_true]
  · simp only [hfind, false_and, if_false]

/-- The copying loop stores one pair after the other. -/
theorem mioHintMapCopyLoop_cons (dst : MioHintMap) (kv : Int32 × UInt64)
    (pairs : List (Int32 × UInt64)) :
    mioHintMapCopyLoop dst (kv :: pairs) = mioHintMapCopyLoop (dst.store kv.1 kv.2) pairs := rfl

/-- A map in which a number of pairs have been put. -/
structure MioHintMap.Became (map : MioHintMap) (pairs : List (Int32 × UInt64)) (map' : MioHintMap) :
    Prop where
  /-- The arrays stay in place. -/
  inPlace : map'.InPlace
  /-- The number of slots stays. -/
  nrEntries : map'.mhmNrEntries = map.mhmNrEntries
  /-- The pairs. -/
  pairs : map'.pairs = pairs

section Store

variable {map : MioHintMap} (h : map.InPlace)

include h

/-- **Storing a pair** puts it into the list. -/
theorem MioHintMap.InPlace.store (key : Int32) (value : UInt64)
    (hroom : key ∈ map.pairs.map Prod.fst ∨ map.mhmNrSet < map.mhmNrEntries) :
    map.Became (assocPut map.pairs key value) (map.store key value) := by
  have h1 := h.keys
  have h2 := h.values
  rw [MioHintMap.store, assocPut]
  by_cases hkey : key ∈ map.pairs.map Prod.fst
  · -- the key keeps its slot
    simp only [if_neg (Nat.ne_of_lt (h.find_lt hkey)), if_pos hkey]
    refine ⟨⟨?_, ?_, h.nrSet⟩, rfl, ?_⟩
    · exact (List.length_set ..).trans h1
    · exact (List.length_set ..).trans h2
    · rw [← h.setKeys_eq]
      simp only [MioHintMap.pairs, MioHintMap.put, zip_set, List.take_set]
      rfl
  · have hlt := hroom.resolve_left hkey
    simp only [if_neg hkey, (h.find_eq_iff key).mpr hkey, if_true]
    refine ⟨⟨?_, ?_, hlt⟩, rfl, ?_⟩
    · exact (List.length_set ..).trans h1
    · exact (List.length_set ..).trans h2
    · simp only [MioHintMap.pairs, MioHintMap.put, zip_set]
      rw [List.take_add_one, List.take_set_of_le (Nat.le_refl _), List.getElem?_set_self
        (by rw [List.length_zip]; omega)]
      rfl

/-- There is no slot for a key. -/
theorem MioHintMap.InPlace.full_iff (key : Int32) :
    map.find key = map.mhmNrSet ∧ map.mhmNrSet = map.mhmNrEntries ↔
      key ∉ map.pairs.map Prod.fst ∧ map.pairs.length = map.mhmNrEntries := by
  rw [h.find_eq_iff, h.length_pairs]

/-- There is one. -/
theorem MioHintMap.InPlace.room {key : Int32}
    (hroom : ¬(key ∉ map.pairs.map Prod.fst ∧ map.pairs.length = map.mhmNrEntries)) :
    key ∈ map.pairs.map Prod.fst ∨ map.mhmNrSet < map.mhmNrEntries := by
  have h3 := h.nrSet
  rw [h.length_pairs] at hroom
  by_contra hnot
  obtain ⟨hkey, hle⟩ := not_or.mp hnot
  exact hroom ⟨hkey, by omega⟩

/-- **Setting a hint** fails if it has no slot and there is none; else it is stored. -/
theorem MioHintMap.InPlace.set (key : Int32) (value : UInt64) :
    if key ∉ map.pairs.map Prod.fst ∧ map.pairs.length = map.mhmNrEntries then
      mioHintMapSet map key value = .error (.err (-EINVAL))
    else ∃ map', mioHintMapSet map key value = .ok map' ∧
      map.Became (assocPut map.pairs key value) map' := by
  rw [mioHintMapSet_eq]
  split
  · next hfull => rw [if_pos ((h.full_iff key).mpr hfull)]
  · next hroom =>
    rw [if_neg fun hc => hroom ((h.full_iff key).mp hc)]
    exact ⟨_, rfl, h.store key value (h.room hroom)⟩

/-- **The copying loop** puts all pairs, if at the start there was a slot for each that
is new. -/
theorem MioHintMap.InPlace.copyLoop {ps : List (Int32 × UInt64)}
    (hroom : map.pairs.length + (newPairs map.pairs ps).length ≤ map.mhmNrEntries) :
    map.Became (assocPutAll map.pairs ps) (mioHintMapCopyLoop map ps) := by
  induction ps generalizing map with
  | nil => exact ⟨h, rfl, rfl⟩
  | cons kv ps ih =>
    have hslot : kv.1 ∈ map.pairs.map Prod.fst ∨ map.mhmNrSet < map.mhmNrEntries := by
      by_cases hkey : kv.1 ∈ map.pairs.map Prod.fst
      · exact .inl hkey
      · rw [newPairs_cons, if_neg hkey, List.length_cons, h.length_pairs] at hroom
        exact .inr (by omega)
    have hst := h.store kv.1 kv.2 hslot
    have hle := length_assocPut_add_le map.pairs kv ps
    obtain ⟨hin, hnr, hpairs⟩ := ih hst.inPlace (by rw [hst.pairs, hst.nrEntries]; omega)
    rw [mioHintMapCopyLoop_cons, assocPutAll_cons, ← hst.pairs]
    exact ⟨hin, hnr.trans hst.nrEntries, hpairs⟩

end Store

end CortxMio
