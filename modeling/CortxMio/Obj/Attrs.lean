import CortxMio.Lib.Fallible
import CortxMio.Lib.LittleEndian
import CortxMio.Obj.Handle

/-!
# The stored attributes of an object

Motr does not keep the size of an object, so MIO stores it itself, with the
access statistics and the persistent hints, as one record in an index
(`motr_obj_attrs_mem2wire`, `motr_obj_attrs_wire2mem`). The record is the raw
memory of the fixed part, the number of hints, then all keys and all values.

The encoder takes the hints from `moa_phints`, the decoder puts them into
`mo_hints`. What is proved here is the round trip of a record through the store
(`CortxMio.motrObjAttrsWire2mem_mem2wire`), in which this difference is plain.
-/

namespace CortxMio

open Lib

/-! ### Encoding -/

/-- The statistics in the order of the C structure. -/
def MioObjStats.words (s : MioObjStats) : List UInt64 :=
  [s.mosRcount, s.mosRbytes, s.mosRtime, s.mosWcount, s.mosWbytes, s.mosWtime]

/-- The statistics read from memory. -/
def MioObjStats.ofWords (l : List ℕ) : MioObjStats where
  mosRcount := UInt64.ofNat (l.getD 0 0)
  mosRbytes := UInt64.ofNat (l.getD 1 0)
  mosRtime := UInt64.ofNat (l.getD 2 0)
  mosWcount := UInt64.ofNat (l.getD 3 0)
  mosWbytes := UInt64.ofNat (l.getD 4 0)
  mosWtime := UInt64.ofNat (l.getD 5 0)

/-- `motr_obj_attr_nonhint_size`. -/
def motrObjAttrNonhintSize : ℕ := 8 + 6 * 8

/-- The raw memory of the fixed part of the attributes. -/
def MioObjAttrs.nonhintBytes (a : MioObjAttrs) : List Byte :=
  (a.moaSize.toNat :: a.moaStats.words.map UInt64.toNat).flatMap (leBytes 8)

/-- The number of hints that `motr_obj_attrs_mem2wire` stores. -/
def MioHintMap.wireNr (map : MioHintMap) : ℕ :=
  if map.mhmNrSet > map.mhmNrEntries then map.mhmNrEntries else map.mhmNrSet

/-- `motr_obj_attrs_mem2wire`. -/
def motrObjAttrsMem2wire (obj : MioObj) : List Byte :=
  let map := obj.moAttrs.moaPhints
  let nr := map.wireNr
  obj.moAttrs.nonhintBytes ++ leBytes 4 nr ++
    ((map.mhmKeys.take nr).map fun k => k.toUInt32.toNat).flatMap (leBytes 4) ++
    ((map.mhmValues.take nr).map UInt64.toNat).flatMap (leBytes 8)

/-! ### Decoding -/

/-- Overwrite the start of an array. -/
def overwrite {α : Type} (new old : List α) : List α := new ++ old.drop new.length

/-- Copy the fixed part of a record over the attributes of a handle. -/
def MioObj.loadNonhint (obj : MioObj) (buf : List Byte) : MioObj :=
  let words := leNats 8 7 buf
  { obj with moAttrs :=
    { obj.moAttrs with
      moaSize := UInt64.ofNat (words.getD 0 0)
      moaStats := MioObjStats.ofWords words.tail } }

/-- Replace the map of hints of a handle. -/
def MioObj.withHints (obj : MioObj) (map : MioHintMap) : MioObj := { obj with moHints := map }

/-- `motr_obj_attrs_wire2mem`, whose `attr_size` is the length of the buffer:
the return code and the handle. The fixed part is copied first, the number of
hints is checked next, and the number of hints in use is set before the size is
compared. -/
def motrObjAttrsWire2mem (obj : MioObj) (buf : List Byte) : Except Fault (ℤ × MioObj) :=
  if buf.length < motrObjAttrNonhintSize + 4 then .error .oob
  else
    let obj := obj.loadNonhint buf
    let ptr := buf.drop motrObjAttrNonhintSize
    let nrHints := (UInt32.ofNat (leNat (ptr.take 4))).toInt32.toInt
    let ptr := ptr.drop 4
    if nrHints < 0 ∨ nrHints > mioObjHintNum then .ok (- EIO, obj)
    else if nrHints = 0 then .ok (0, obj)
    else
      let nr := nrHints.toNat
      let map := { obj.moHints with mhmNrSet := nr }
      if buf.length ≠ motrObjAttrNonhintSize + 4 + nr * (4 + 8) then
        .ok (- EIO, obj.withHints map)
      else
        let keys := (leNats 4 nr ptr).map fun n => (UInt32.ofNat n).toInt32
        let values := (leNats 8 nr (ptr.drop (nr * 4))).map UInt64.ofNat
        .ok (0, obj.withHints { map with
          mhmKeys := overwrite keys map.mhmKeys
          mhmValues := overwrite values map.mhmValues })

/-- `motr_obj_attrs_get_pp` on the value that a GET has returned; an object with
no record comes back with an empty value, and the return code of the decoder is
dropped. -/
def motrObjAttrsGetPp (val : Option (List Byte)) (obj : MioObj) : Except Fault MioObj :=
  match val with
  | none => .ok obj
  | some buf =>
      if buf.length ≠ 0 then do
        let (_, obj) ← motrObjAttrsWire2mem obj buf
        .ok obj
      else .ok obj

/-! ### The round trip -/

theorem length_nonhintBytes (a : MioObjAttrs) :
    a.nonhintBytes.length = motrObjAttrNonhintSize := by
  simp [MioObjAttrs.nonhintBytes, MioObjStats.words, motrObjAttrNonhintSize]

/-- Reading the fixed part back. -/
theorem leNats_nonhintBytes (a : MioObjAttrs) (rest : List Byte) :
    leNats 8 7 (a.nonhintBytes ++ rest) =
      a.moaSize.toNat :: a.moaStats.words.map UInt64.toNat := by
  refine leNats_flatMap (a.moaSize.toNat :: a.moaStats.words.map UInt64.toNat) ?_ rest
  intro x hx
  have h256 : (256 : ℕ) ^ 8 = 2 ^ 64 := by norm_num
  rw [h256]
  simp only [MioObjStats.words, List.map_cons, List.map_nil, List.mem_cons, List.not_mem_nil,
    or_false] at hx
  rcases hx with rfl | rfl | rfl | rfl | rfl | rfl | rfl <;> exact UInt64.toNat_lt _

/-- **The fixed part of a record survives the store.** -/
theorem loadNonhint_nonhintBytes (obj : MioObj) (a : MioObjAttrs) (rest : List Byte) :
    obj.loadNonhint (a.nonhintBytes ++ rest) =
      { obj with moAttrs :=
        { obj.moAttrs with moaSize := a.moaSize, moaStats := a.moaStats } } := by
  simp [MioObj.loadNonhint, leNats_nonhintBytes, MioObjStats.ofWords, MioObjStats.words]

theorem toInt32_ofNat_toNat (n : ℕ) (h : n < 2 ^ 31) : (UInt32.ofNat n).toInt32.toInt = n := by
  have h1 : (UInt32.ofNat n).toInt32.toInt = (UInt32.ofNat n).toBitVec.toInt := rfl
  rw [h1, BitVec.toInt_eq_toNat_of_lt]
  · simp
    omega
  · simp
    omega

@[simp] theorem ofNat_toUInt32_toInt32 (k : Int32) :
    (UInt32.ofNat k.toUInt32.toNat).toInt32 = k := by
  simp

/-- A map with its arrays in place: slots for `mhm_nr_entries` hints, no more of
them in use than there are, and no more than a record may hold. -/
structure MioHintMap.Wf (map : MioHintMap) : Prop where
  /-- The array of keys is allocated. -/
  keys : map.mhmKeys.length = map.mhmNrEntries
  /-- The array of values is allocated. -/
  values : map.mhmValues.length = map.mhmNrEntries
  /-- The slots in use exist. -/
  nrSet : map.mhmNrSet ≤ map.mhmNrEntries
  /-- The record has room. -/
  nrEntries : map.mhmNrEntries ≤ mioObjHintNum

theorem MioHintMap.wf_zeroed : MioHintMap.zeroed.Wf := ⟨rfl, rfl, le_rfl, Nat.zero_le _⟩

theorem MioHintMap.Wf.wireNr_eq {map : MioHintMap} (h : map.Wf) : map.wireNr = map.mhmNrSet := by
  rw [MioHintMap.wireNr, if_neg (Nat.not_lt.mpr h.nrSet)]

theorem length_mem2wire {obj : MioObj} (h : obj.moAttrs.moaPhints.Wf) :
    (motrObjAttrsMem2wire obj).length =
      motrObjAttrNonhintSize + 4 + obj.moAttrs.moaPhints.mhmNrSet * (4 + 8) := by
  have hk := h.keys
  have hv := h.values
  have hn := h.nrSet
  simp only [motrObjAttrsMem2wire, h.wireNr_eq, List.length_append, length_nonhintBytes,
    length_leBytes, length_flatMap_leBytes, List.length_map, List.length_take]
  omega

/-- What a record brings into a handle: the size and the statistics, and the
stored hints at the front of the map of hints, if there are any. -/
def MioObj.load (obj src : MioObj) : MioObj :=
  let ph := src.moAttrs.moaPhints
  { obj with
    moAttrs := { obj.moAttrs with
      moaSize := src.moAttrs.moaSize
      moaStats := src.moAttrs.moaStats }
    moHints := if ph.mhmNrSet = 0 then obj.moHints
      else { obj.moHints with
        mhmNrSet := ph.mhmNrSet
        mhmKeys := overwrite (ph.mhmKeys.take ph.mhmNrSet) obj.moHints.mhmKeys
        mhmValues := overwrite (ph.mhmValues.take ph.mhmNrSet) obj.moHints.mhmValues } }

/-- **The round trip of a record.** Decoding into any handle what was encoded
from a handle with a sound map of persistent hints succeeds, and brings in
exactly the size, the statistics and the persistent hints of the latter. -/
theorem motrObjAttrsWire2mem_mem2wire (obj : MioObj) {src : MioObj}
    (h : src.moAttrs.moaPhints.Wf) :
    motrObjAttrsWire2mem obj (motrObjAttrsMem2wire src) = .ok (0, obj.load src) := by
  have hlen := length_mem2wire h
  have hk := h.keys
  have hv := h.values
  have hn := h.nrSet
  have hnr : src.moAttrs.moaPhints.mhmNrSet ≤ 32 := hn.trans h.nrEntries
  obtain ⟨map, hmap⟩ : ∃ map, src.moAttrs.moaPhints = map := ⟨_, rfl⟩
  rw [hmap] at hlen hk hv hn hnr
  have hnr' := h.wireNr_eq
  rw [hmap] at hnr'
  obtain ⟨n, hnset⟩ : ∃ n, map.mhmNrSet = n := ⟨_, rfl⟩
  -- the record, taken apart
  obtain ⟨kb, hkb⟩ : ∃ kb, kb =
    ((map.mhmKeys.take n).map fun k : Int32 => k.toUInt32.toNat).flatMap (leBytes 4) := ⟨_, rfl⟩
  obtain ⟨vb, hvb⟩ : ∃ vb, vb =
    ((map.mhmValues.take n).map UInt64.toNat).flatMap (leBytes 8) := ⟨_, rfl⟩
  have hwire : motrObjAttrsMem2wire src =
      src.moAttrs.nonhintBytes ++ (leBytes 4 n ++ (kb ++ vb)) := by
    rw [motrObjAttrsMem2wire, hmap, hnr', hnset, ← hkb, ← hvb]
    simp only [List.append_assoc]
  rw [hnset] at hlen hn hnr
  have hkb_len : kb.length = n * 4 := by
    rw [hkb, length_flatMap_leBytes, List.length_map, List.length_take]
    omega
  have hdrop : (motrObjAttrsMem2wire src).drop motrObjAttrNonhintSize =
      leBytes 4 n ++ (kb ++ vb) := by
    rw [hwire, List.drop_left' (length_nonhintBytes _)]
  have hcount : (UInt32.ofNat (leNat ((leBytes 4 n ++ (kb ++ vb)).take 4))).toInt32.toInt = n := by
    rw [List.take_left' (length_leBytes 4 n), leNat_leBytes (by omega),
      toInt32_ofNat_toNat n (by omega)]
  have hkeys : (leNats 4 n (kb ++ vb)).map (fun n => (UInt32.ofNat n).toInt32) =
      map.mhmKeys.take n := by
    rw [hkb]
    refine leNats_map ofNat_toUInt32_toInt32
      (fun k => lt_of_lt_of_eq (UInt32.toNat_lt _) (by norm_num)) _ ?_ vb
    rw [List.length_take]
    omega
  have hvals : (leNats 8 n ((kb ++ vb).drop (n * 4))).map UInt64.ofNat =
      map.mhmValues.take n := by
    rw [List.drop_left' hkb_len, hvb, ← List.append_nil (List.flatMap _ _)]
    refine leNats_map (fun v => by simp)
      (fun v => lt_of_lt_of_eq (UInt64.toNat_lt _) (by norm_num)) _ ?_ []
    rw [List.length_take]
    omega
  have hload : obj.loadNonhint (motrObjAttrsMem2wire src) = { obj with moAttrs :=
      { obj.moAttrs with moaSize := src.moAttrs.moaSize, moaStats := src.moAttrs.moaStats } } := by
    rw [hwire, loadNonhint_nonhintBytes]
  rw [motrObjAttrsWire2mem, if_neg (by omega)]
  simp only [hdrop, hcount, hload, MioObj.load, hmap, hnset,
    List.drop_left' (length_leBytes 4 n), hlen, MioObj.withHints]
  rw [if_neg (by simp only [mioObjHintNum]; omega)]
  rcases Nat.eq_zero_or_pos n with rfl | hpos
  · simp
  · rw [if_neg (by omega)]
    simp only [Int.toNat_natCast, ne_eq, not_true_eq_false, if_false, hkeys, hvals]
    rw [if_neg (by omega)]

/-- The same for the post-processing function of a GET. -/
theorem motrObjAttrsGetPp_mem2wire (obj : MioObj) {src : MioObj}
    (h : src.moAttrs.moaPhints.Wf) :
    motrObjAttrsGetPp (some (motrObjAttrsMem2wire src)) obj = .ok (obj.load src) := by
  have hlen := length_mem2wire h
  have hpos : (motrObjAttrsMem2wire src).length ≠ 0 := by
    rw [hlen, motrObjAttrNonhintSize]
    omega
  rw [motrObjAttrsGetPp]
  simp only [if_pos hpos, motrObjAttrsWire2mem_mem2wire obj h]
  rfl

/-! ### The stored size -/

/-- The size in a record of the attributes index, zero where there is none. -/
def storedSize (val : Option (List Byte)) : ℕ :=
  match val with
  | none => 0
  | some buf => (leNats 8 7 buf).getD 0 0

@[simp] theorem storedSize_none : storedSize none = 0 := rfl

@[simp] theorem storedSize_mem2wire (obj : MioObj) :
    storedSize (some (motrObjAttrsMem2wire obj)) = obj.size := by
  simp only [storedSize, motrObjAttrsMem2wire, List.append_assoc, leNats_nonhintBytes]
  rfl

theorem size_loadNonhint (obj : MioObj) (buf : List Byte) :
    (obj.loadNonhint buf).size = storedSize (some buf) := by
  refine UInt64.toNat_ofNat_of_lt' ?_
  have hlt := leNat_lt (buf.take 8)
  have hle : 256 ^ (buf.take 8).length ≤ 256 ^ 8 :=
    Nat.pow_le_pow_right (by decide) (List.length_take_le 8 buf)
  exact hlt.trans_le hle

/-- What fetching the attributes does to the size and to the driver's object,
whatever is stored. -/
theorem motrObjAttrsGetPp_size {val : Option (List Byte)} {obj obj' : MioObj}
    (hobj : obj.size = 0) (h : motrObjAttrsGetPp val obj = .ok obj') :
    obj'.size = storedSize val ∧ obj'.moDrvObj = obj.moDrvObj := by
  cases val with
  | none =>
    obtain rfl := Except.ok.inj h
    exact ⟨hobj, rfl⟩
  | some buf =>
    have hload := size_loadNonhint obj buf
    rw [motrObjAttrsGetPp] at h
    split at h
    · obtain ⟨⟨rc, obj''⟩, hwire, hobj''⟩ := bind_eq_ok_iff.mp h
      obtain rfl := Except.ok.inj hobj''
      rw [motrObjAttrsWire2mem] at hwire
      split at hwire
      · exact absurd hwire (by simp)
      · -- every way out leaves the fixed part as it has been copied
        simp only at hwire
        repeat' split at hwire
        all_goals
          obtain ⟨-, rfl⟩ := Prod.mk.inj (Except.ok.inj hwire)
          exact ⟨hload, rfl⟩
    · next hlen =>
      obtain rfl := Except.ok.inj h
      rw [List.eq_nil_of_length_eq_zero (not_not.mp hlen)]
      exact ⟨hobj, rfl⟩

end CortxMio
