import Mathlib.Data.Finset.Card
import Mathlib.Data.List.Nodup
import Mathlib.Data.List.Perm.Subperm
import Mathlib.Logic.Function.Basic

/-!
# Association lists

Lists of pairs of a key and a value, read by `List.lookup`. A pair is put into a list in
the place of the pair with its key, or at the end (`CortxMio.Lib.assocPut`). To a reader
this updates the function that looks keys up (`CortxMio.Lib.lookup_assocPut`), and keys
that are distinct stay so (`CortxMio.Lib.nodup_keys_assocPut`). Pairs that are put into a
list one after the other (`CortxMio.Lib.assocPutAll`) take no more room than there are
new keys among them (`CortxMio.Lib.newPairs`).
-/

namespace CortxMio

namespace Lib

variable {α β : Type*} [DecidableEq α]

/-! ### Looking keys up -/

/-- The value at the place of a key. -/
theorem lookup_eq_getElem? (l : List (α × β)) (k : α) :
    l.lookup k = (l[(l.map Prod.fst).idxOf k]?).map Prod.snd := by
  induction l with
  | nil => rfl
  | cons p l ih =>
    obtain ⟨a, b⟩ := p
    rw [List.lookup_cons, List.map_cons]
    by_cases hk : k = a
    · subst hk
      simp
    · have hbeq : (k == a) = false := by simpa using hk
      rw [List.idxOf_cons_ne _ (Ne.symm hk), hbeq]
      exact ih

/-- A key that is not there has no value. -/
theorem lookup_eq_none_of_notMem {l : List (α × β)} {k : α} (hk : k ∉ l.map Prod.fst) :
    l.lookup k = none := by
  rw [List.lookup_eq_none_iff]
  intro p hp
  rw [bne_iff_ne]
  rintro rfl
  exact hk (List.mem_map_of_mem hp)

/-- A key that is there has one. -/
theorem isSome_lookup_iff {l : List (α × β)} {k : α} :
    (l.lookup k).isSome ↔ k ∈ l.map Prod.fst := by
  constructor
  · intro h
    by_contra hk
    rw [lookup_eq_none_of_notMem hk] at h
    exact absurd h (by simp)
  · intro hk
    have hlt := List.idxOf_lt_length_of_mem hk
    rw [List.length_map] at hlt
    rw [lookup_eq_getElem?, Option.isSome_map, List.getElem?_eq_getElem hlt]
    rfl

/-- Looking up as a function of the key. -/
theorem lookup_cons_eq_update (k : α) (v : β) (l : List (α × β)) :
    (fun k' => ((k, v) :: l).lookup k') = Function.update (fun k' => l.lookup k') k (some v) := by
  funext k'
  rw [List.lookup_cons, Function.update_apply]
  by_cases hk : k' = k
  · simp [hk]
  · have hbeq : (k' == k) = false := by simpa using hk
    rw [hbeq, if_neg hk]

/-- Choosing pairs by their keys. -/
theorem lookup_filter_of_key (p : α × β → Bool) (q : α → Bool) (hpq : ∀ kv, p kv = q kv.1)
    (l : List (α × β)) (k : α) : (l.filter p).lookup k = if q k then l.lookup k else none := by
  induction l with
  | nil => simp
  | cons kv l ih =>
    obtain ⟨a, b⟩ := kv
    rw [List.filter_cons, hpq]
    by_cases hk : k = a
    · subst hk
      by_cases hq : q k
      · simp [hq]
      · simp only [hq, Bool.false_eq_true, if_false] at ih ⊢
        exact ih
    · have hbeq : (k == a) = false := by simpa using hk
      rw [List.lookup_cons, hbeq, ← ih]
      split
      · rw [List.lookup_cons, hbeq]
      · rfl

/-! ### Putting one pair -/

/-- Put a pair in the place of the one with its key, or at the end. -/
def assocPut (l : List (α × β)) (k : α) (v : β) : List (α × β) :=
  if k ∈ l.map Prod.fst then l.set ((l.map Prod.fst).idxOf k) (k, v) else l ++ [(k, v)]

/-- Writing an element over itself. -/
theorem set_idxOf_self (l : List α) (k : α) : l.set (l.idxOf k) k = l := by
  induction l with
  | nil => rfl
  | cons a l ih =>
    by_cases ha : a = k
    · subst ha
      rw [List.idxOf_cons_self, List.set_cons_zero]
    · rw [List.idxOf_cons_ne _ ha, List.set_cons_succ, ih]

/-- Replacing the pair of a key updates the key. -/
theorem lookup_set_idxOf {l : List (α × β)} {k : α} (hk : k ∈ l.map Prod.fst) (v : β) :
    (fun k' => (l.set ((l.map Prod.fst).idxOf k) (k, v)).lookup k') =
      Function.update (fun k' => l.lookup k') k (some v) := by
  induction l with
  | nil => simp at hk
  | cons p l ih =>
    obtain ⟨a, b⟩ := p
    rw [List.map_cons, lookup_cons_eq_update a b l]
    by_cases ha : a = k
    · subst ha
      rw [List.idxOf_cons_self, List.set_cons_zero, lookup_cons_eq_update, Function.update_idem]
    · have hk' : k ∈ l.map Prod.fst := by
        rcases List.mem_cons.mp hk with h | h
        · exact absurd h.symm ha
        · exact h
      rw [List.idxOf_cons_ne _ ha, List.set_cons_succ, lookup_cons_eq_update, ih hk',
        Function.update_comm (Ne.symm ha)]

/-- A new pair at the end of the list. -/
theorem lookup_append_new {l : List (α × β)} {k : α} (hk : k ∉ l.map Prod.fst) (v : β) :
    (fun k' => (l ++ [(k, v)]).lookup k') = Function.update (fun k' => l.lookup k') k (some v) := by
  funext k'
  rw [List.lookup_append, List.lookup_cons, List.lookup_nil, Function.update_apply]
  by_cases hk' : k' = k
  · subst hk'
    simp [lookup_eq_none_of_notMem hk]
  · have hbeq : (k' == k) = false := by simpa using hk'
    rw [hbeq, if_neg hk', Option.or_none]

section Put

variable (l : List (α × β)) (k : α) (v : β)

/-- **Putting a pair updates its key.** -/
theorem lookup_assocPut : (fun k' => (assocPut l k v).lookup k') =
    Function.update (fun k' => l.lookup k') k (some v) := by
  rw [assocPut]
  split
  · next hk => exact lookup_set_idxOf hk v
  · next hk => exact lookup_append_new hk v

theorem keys_assocPut : (assocPut l k v).map Prod.fst =
    if k ∈ l.map Prod.fst then l.map Prod.fst else l.map Prod.fst ++ [k] := by
  rw [assocPut]
  split
  · rw [List.map_set, set_idxOf_self]
  · rw [List.map_append, List.map_singleton]

theorem mem_keys_assocPut {k' : α} :
    k' ∈ (assocPut l k v).map Prod.fst ↔ k' = k ∨ k' ∈ l.map Prod.fst := by
  rw [keys_assocPut]
  split
  · next hk =>
    refine ⟨.inr, fun h => ?_⟩
    rcases h with rfl | h
    · exact hk
    · exact h
  · rw [List.mem_append, List.mem_singleton, or_comm]

/-- **Keys stay distinct.** -/
theorem nodup_keys_assocPut (h : (l.map Prod.fst).Nodup) :
    ((assocPut l k v).map Prod.fst).Nodup := by
  rw [keys_assocPut]
  split
  · exact h
  · next hk => exact h.append (List.nodup_singleton k) (by simpa using hk)

/-- **A pair that is there** is put into its own place. -/
theorem assocPut_self {l : List (α × β)} {k : α} {v : β} (h : (l.map Prod.fst).Nodup)
    (hmem : (k, v) ∈ l) : assocPut l k v = l := by
  obtain ⟨i, hi, hget⟩ := List.mem_iff_getElem.mp hmem
  have hk : k ∈ l.map Prod.fst := List.mem_map_of_mem hmem
  have hidx : (l.map Prod.fst).idxOf k = i := by
    have hi' : i < (l.map Prod.fst).length := by rwa [List.length_map]
    have hki : (l.map Prod.fst)[i] = k := by rw [List.getElem_map, hget]
    rw [← hki]
    exact h.idxOf_getElem i hi'
  rw [assocPut, if_pos hk, hidx, ← hget, List.set_getElem_self]

end Put

/-! ### Putting many -/

/-- Put one pair after the other. -/
def assocPutAll (l ps : List (α × β)) : List (α × β) :=
  ps.foldl (fun l kv => assocPut l kv.1 kv.2) l

/-- The pairs whose key is not in a list. -/
def newPairs (l ps : List (α × β)) : List (α × β) := ps.filter fun kv => kv.1 ∉ l.map Prod.fst

variable {l ps : List (α × β)}

theorem assocPutAll_cons (l : List (α × β)) (kv : α × β) (ps : List (α × β)) :
    assocPutAll l (kv :: ps) = assocPutAll (assocPut l kv.1 kv.2) ps := rfl

theorem lookup_assocPutAll (l ps : List (α × β)) : (fun k => (assocPutAll l ps).lookup k) =
    ps.foldl (fun (f : α → Option β) kv => Function.update f kv.1 (some kv.2))
      fun k => l.lookup k := by
  induction ps generalizing l with
  | nil => rfl
  | cons kv ps ih => rw [assocPutAll_cons, ih, lookup_assocPut, List.foldl_cons]

/-- **Looking up after all were put**, if their keys are distinct: they come first. -/
theorem lookup_assocPutAll_of_nodup (hps : (ps.map Prod.fst).Nodup) (l : List (α × β)) (k : α) :
    (assocPutAll l ps).lookup k = (ps.lookup k).or (l.lookup k) := by
  induction ps generalizing l with
  | nil => rfl
  | cons kv ps ih =>
    obtain ⟨a, b⟩ := kv
    rw [List.map_cons, List.nodup_cons] at hps
    rw [assocPutAll_cons, ih hps.2, congrFun (lookup_assocPut l a b) k, List.lookup_cons,
      Function.update_apply]
    by_cases hk : k = a
    · subst hk
      simp [lookup_eq_none_of_notMem hps.1]
    · have hbeq : (k == a) = false := by simpa using hk
      rw [if_neg hk, hbeq]

theorem nodup_keys_assocPutAll (h : (l.map Prod.fst).Nodup) (ps : List (α × β)) :
    ((assocPutAll l ps).map Prod.fst).Nodup := by
  induction ps generalizing l with
  | nil => exact h
  | cons kv ps ih => exact ih (nodup_keys_assocPut l kv.1 kv.2 h)

/-- Pairs that are there already change nothing. -/
theorem assocPutAll_of_subset (h : (l.map Prod.fst).Nodup) (hsub : ∀ kv ∈ ps, kv ∈ l) :
    assocPutAll l ps = l := by
  induction ps with
  | nil => rfl
  | cons kv ps ih =>
    rw [assocPutAll_cons, assocPut_self h (hsub kv List.mem_cons_self)]
    exact ih fun kv' hkv' => hsub kv' (List.mem_cons_of_mem kv hkv')

/-- A list with more keys has fewer new ones to take. -/
theorem length_newPairs_le {l' : List (α × β)}
    (hkeys : ∀ k ∈ l.map Prod.fst, k ∈ l'.map Prod.fst) (ps : List (α × β)) :
    (newPairs l' ps).length ≤ (newPairs l ps).length := by
  refine (List.monotone_filter_right ps fun kv hkv => ?_).length_le
  rw [decide_eq_true_iff] at hkv ⊢
  exact fun hk => hkv (hkeys _ hk)

theorem length_assocPut (l : List (α × β)) (k : α) (v : β) :
    (assocPut l k v).length = if k ∈ l.map Prod.fst then l.length else l.length + 1 := by
  rw [assocPut]
  split
  · exact List.length_set ..
  · exact List.length_append

theorem newPairs_cons (l : List (α × β)) (kv : α × β) (ps : List (α × β)) :
    newPairs l (kv :: ps) = if kv.1 ∈ l.map Prod.fst then newPairs l ps
      else kv :: newPairs l ps := by
  rw [newPairs, List.filter_cons]
  by_cases hk : kv.1 ∈ l.map Prod.fst
  · rw [if_pos hk, if_neg (by simpa using hk)]
    rfl
  · rw [if_neg hk, if_pos (decide_eq_true hk)]
    rfl

/-- **One after the other needs no more room** than all at once. -/
theorem length_assocPut_add_le (l : List (α × β)) (kv : α × β) (ps : List (α × β)) :
    (assocPut l kv.1 kv.2).length + (newPairs (assocPut l kv.1 kv.2) ps).length ≤
      l.length + (newPairs l (kv :: ps)).length := by
  have hle : (newPairs (assocPut l kv.1 kv.2) ps).length ≤ (newPairs l ps).length :=
    length_newPairs_le (fun k hk => (mem_keys_assocPut l kv.1 kv.2).mpr (.inr hk)) ps
  rw [length_assocPut, newPairs_cons]
  split
  · omega
  · rw [List.length_cons]
    omega

/-- **What is put takes the room of what is new**, if all keys are distinct: the keys of
both together. -/
theorem length_add_newPairs (hl : (l.map Prod.fst).Nodup) (hps : (ps.map Prod.fst).Nodup) :
    l.length + (newPairs l ps).length =
      ((l.map Prod.fst).toFinset ∪ (ps.map Prod.fst).toFinset).card := by
  have hnew : ∀ k, k ∈ (newPairs l ps).map Prod.fst ↔ k ∈ ps.map Prod.fst ∧ k ∉ l.map Prod.fst := by
    intro k
    simp only [newPairs, List.mem_map, List.mem_filter, decide_eq_true_iff]
    constructor
    · rintro ⟨kv, ⟨hkv, hk⟩, rfl⟩
      exact ⟨⟨kv, hkv, rfl⟩, hk⟩
    · rintro ⟨⟨kv, hkv, rfl⟩, hk⟩
      exact ⟨kv, ⟨hkv, hk⟩, rfl⟩
  have hnodup : (l.map Prod.fst ++ (newPairs l ps).map Prod.fst).Nodup := by
    refine hl.append (hps.sublist (List.filter_sublist.map _)) fun k hk hk' => ?_
    exact ((hnew k).mp hk').2 hk
  have hset : (l.map Prod.fst).toFinset ∪ (ps.map Prod.fst).toFinset =
      (l.map Prod.fst ++ (newPairs l ps).map Prod.fst).toFinset := by
    ext k
    simp only [Finset.mem_union, List.mem_toFinset, List.mem_append, hnew]
    tauto
  rw [hset, List.toFinset_card_of_nodup hnodup, List.length_append, List.length_map,
    List.length_map]

end Lib

end CortxMio
