import CortxMio.Lib.AssocList
import Mathlib.Data.Finmap

/-!
# Finite maps of bounded capacity

A finite map with a limit on the number of its keys. A key is set unless it is a new one
and there is no room (`CortxMio.Lib.BoundedMap.set_eq_none_iff`), and a map is merged
into another unless their keys together are too many
(`CortxMio.Lib.BoundedMap.merge_eq_none_iff`), in which case the values of the source
win (`CortxMio.Lib.BoundedMap.lookup_of_merge`).

`CortxMio.Lib.BoundedMap.RepresentedBy` is the representation of such a map by an
association list with distinct keys; putting pairs into the list is setting and merging
(`CortxMio.Lib.BoundedMap.RepresentedBy.set`,
`CortxMio.Lib.BoundedMap.RepresentedBy.merge`).
-/

namespace CortxMio

namespace Lib

/-- A finite map with no more than `cap` keys. -/
structure BoundedMap (α β : Type*) where
  /-- The capacity. -/
  cap : ℕ
  /-- The map. -/
  map : Finmap fun _ : α => β
  /-- It has room. -/
  card_le : map.keys.card ≤ cap

namespace BoundedMap

variable {α β : Type*} [DecidableEq α]

/-- A map without keys. -/
def empty (cap : ℕ) : BoundedMap α β := ⟨cap, ∅, Nat.zero_le _⟩

/-- The value of a key. -/
def lookup (m : BoundedMap α β) (k : α) : Option β := m.map.lookup k

/-- A finite map, if there is room for it. -/
def ofMap (cap : ℕ) (f : Finmap fun _ : α => β) : Option (BoundedMap α β) :=
  if h : f.keys.card ≤ cap then some ⟨cap, f, h⟩ else none

/-- Set a key, if there is room. -/
def set (m : BoundedMap α β) (k : α) (v : β) : Option (BoundedMap α β) :=
  ofMap m.cap (m.map.insert k v)

/-- Give all keys of `src` the values that they have there, if there is room. -/
def merge (m src : BoundedMap α β) : Option (BoundedMap α β) := ofMap m.cap (src.map ∪ m.map)

variable {m m' src : BoundedMap α β} {k : α} {v : β}

theorem keys_insert (f : Finmap fun _ : α => β) (k : α) (v : β) :
    (f.insert k v).keys = insert k f.keys := by
  ext k'
  rw [Finmap.mem_keys, Finmap.mem_insert, Finset.mem_insert, Finmap.mem_keys]

theorem mem_keys_iff : k ∈ m.map.keys ↔ (m.lookup k).isSome := by
  rw [Finmap.mem_keys, lookup, Finmap.lookup_isSome]

omit [DecidableEq α] in
theorem ofMap_eq_none_iff {cap : ℕ} {f : Finmap fun _ : α => β} :
    ofMap cap f = none ↔ cap < f.keys.card := by
  rw [ofMap]
  split
  · next h => exact iff_of_false (by simp) (Nat.not_lt.mpr h)
  · next h => exact iff_of_true rfl (Nat.not_le.mp h)

omit [DecidableEq α] in
theorem of_ofMap {cap : ℕ} {f : Finmap fun _ : α => β} (h : ofMap cap f = some m) :
    m.cap = cap ∧ m.map = f := by
  rw [ofMap] at h
  split at h
  · obtain rfl := Option.some.inj h
    exact ⟨rfl, rfl⟩
  · exact absurd h (by simp)

/-- **Setting a key fails** exactly if the key is absent and the map is full. -/
theorem set_eq_none_iff : m.set k v = none ↔ k ∉ m.map.keys ∧ m.map.keys.card = m.cap := by
  have hle := m.card_le
  rw [set, ofMap_eq_none_iff, keys_insert]
  by_cases hk : k ∈ m.map.keys
  · rw [Finset.insert_eq_of_mem hk]
    exact iff_of_false (Nat.not_lt.mpr hle) fun h => h.1 hk
  · rw [Finset.card_insert_of_notMem hk, and_iff_right hk]
    omega

/-- A key that was set has its value; the others have theirs. -/
theorem lookup_of_set (h : m.set k v = some m') :
    m'.cap = m.cap ∧ m'.lookup = Function.update m.lookup k (some v) := by
  obtain ⟨hcap, hmap⟩ := of_ofMap h
  refine ⟨hcap, funext fun k' => ?_⟩
  rw [Function.update_apply, lookup, hmap]
  split
  · next hk =>
    rw [hk]
    exact Finmap.lookup_insert m.map
  · next hk => exact Finmap.lookup_insert_of_ne m.map hk

/-- **Merging fails** exactly if the keys of both are too many. -/
theorem merge_eq_none_iff :
    m.merge src = none ↔ m.cap < (m.map.keys ∪ src.map.keys).card := by
  rw [merge, ofMap_eq_none_iff, Finmap.keys_union, Finset.union_comm]

/-- The keys of the source have their values from there, the others what they had. -/
theorem lookup_of_merge (h : m.merge src = some m') :
    m'.cap = m.cap ∧ ∀ k, m'.lookup k = (src.lookup k).or (m.lookup k) := by
  obtain ⟨hcap, hmap⟩ := of_ofMap h
  refine ⟨hcap, fun k => ?_⟩
  rw [lookup, hmap]
  by_cases hk : k ∈ src.map
  · obtain ⟨v, hv⟩ := Finmap.mem_iff.mp hk
    rw [Finmap.lookup_union_left hk, lookup, hv, Option.some_or]
  · rw [Finmap.lookup_union_right hk, lookup, Finmap.lookup_eq_none.mpr hk, Option.none_or]
    rfl

/-! ### Representation -/

/-- A list of pairs, with room for `cap`, that stands for the map. -/
structure RepresentedBy (m : BoundedMap α β) (cap : ℕ) (l : List (α × β)) : Prop where
  /-- The capacity. -/
  cap : m.cap = cap
  /-- No key is there twice. -/
  nodup : (l.map Prod.fst).Nodup
  /-- Keys have the same values. -/
  lookup : ∀ k, m.lookup k = l.lookup k

variable {cap : ℕ} {l ps : List (α × β)}

namespace RepresentedBy

theorem empty (cap : ℕ) : (empty cap : BoundedMap α β).RepresentedBy cap [] :=
  ⟨rfl, List.nodup_nil, fun _ => rfl⟩

theorem keys_eq (h : m.RepresentedBy cap l) : m.map.keys = (l.map Prod.fst).toFinset := by
  ext k
  rw [mem_keys_iff, h.lookup, isSome_lookup_iff, List.mem_toFinset]

theorem card_eq (h : m.RepresentedBy cap l) : m.map.keys.card = l.length := by
  rw [h.keys_eq, List.toFinset_card_of_nodup h.nodup, List.length_map]

/-- **Setting a key** is putting a pair. -/
theorem set (h : m.RepresentedBy cap l) (k : α) (v : β) :
    if k ∉ l.map Prod.fst ∧ l.length = cap then m.set k v = none
    else ∃ m', m.set k v = some m' ∧ m'.RepresentedBy cap (assocPut l k v) := by
  have hnone : m.set k v = none ↔ k ∉ l.map Prod.fst ∧ l.length = cap := by
    rw [set_eq_none_iff, h.card_eq, h.cap, h.keys_eq, List.mem_toFinset]
  split
  · next hfull => exact hnone.mpr hfull
  · next hroom =>
    obtain ⟨m', hm'⟩ := Option.ne_none_iff_exists'.mp fun hn => hroom (hnone.mp hn)
    obtain ⟨hcap, hlookup⟩ := lookup_of_set hm'
    refine ⟨m', hm', hcap.trans h.cap, nodup_keys_assocPut l k v h.nodup, fun k' => ?_⟩
    rw [congrFun (lookup_assocPut l k v) k', hlookup]
    congr 1
    exact funext h.lookup

/-- **Merging** is putting all pairs. -/
theorem merge {scap : ℕ} (h : m.RepresentedBy cap l) (hsrc : src.RepresentedBy scap ps) :
    if cap < l.length + (newPairs l ps).length then m.merge src = none
    else ∃ m', m.merge src = some m' ∧ m'.RepresentedBy cap (assocPutAll l ps) := by
  have hnone : m.merge src = none ↔ cap < l.length + (newPairs l ps).length := by
    rw [merge_eq_none_iff, h.cap, h.keys_eq, hsrc.keys_eq, length_add_newPairs h.nodup hsrc.nodup]
  split
  · next hfull => exact hnone.mpr hfull
  · next hroom =>
    obtain ⟨m', hm'⟩ := Option.ne_none_iff_exists'.mp fun hn => hroom (hnone.mp hn)
    obtain ⟨hcap, hlookup⟩ := lookup_of_merge hm'
    refine ⟨m', hm', hcap.trans h.cap, nodup_keys_assocPutAll h.nodup ps, fun k => ?_⟩
    rw [hlookup, lookup_assocPutAll_of_nodup hsrc.nodup, h.lookup, hsrc.lookup]

end RepresentedBy

end BoundedMap

end Lib

end CortxMio
