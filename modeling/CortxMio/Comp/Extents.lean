import CortxMio.Lib.Fallible
import CortxMio.Obj.Id
import Mathlib.Data.Int.Init
import Mathlib.Data.List.Forall2

/-!
# Extents of a layer

The extents of the layers of a composite object are kept in an index of Motr, under the
layer and the offset. A query for the extents of one layer is a NEXT op on this index,
from the key of the layer and an offset on, with as many slots as extents are asked for
(`CortxMio.mioMotrCompObjGetExtents`).

What the function that goes through the reply leaves out is to look where the extents
of the layer end. The number it returns is the number of slots, always; behind the last
extent of the layer come those of the next one, and behind the last pair of the index
slots that were never filled. So the answer is right if the layer has as many extents as
are asked for, and wrong in every other case (`CortxMio.getExtents_iff`).
-/

namespace CortxMio

open Lib

/-! ### The index -/

/-- `struct mio_obj_ext`. -/
structure MioObjExt where
  /-- The offset, an `off_t`. -/
  moeOff : Int64
  /-- The size. -/
  moeSize : UInt64
  deriving DecidableEq

/-- `struct m0_composite_layer_idx_key`. -/
structure M0CompositeLayerIdxKey where
  /-- The layer. -/
  cekLayerId : M0Uint128
  /-- The offset. -/
  cekOff : UInt64
  deriving DecidableEq

/-- `struct m0_composite_layer_idx_val`. -/
structure M0CompositeLayerIdxVal where
  /-- The length of the extent. -/
  cevLen : UInt64
  deriving DecidableEq

/-- Keys are ordered by layer and offset: the place of a key among all keys. -/
def M0CompositeLayerIdxKey.pos (k : M0CompositeLayerIdxKey) : ℕ :=
  (k.cekLayerId.uHi.toNat * 2 ^ 64 + k.cekLayerId.uLo.toNat) * 2 ^ 64 + k.cekOff.toNat

/-- The index with the extents of all layers: its pairs, in the order of their keys. -/
structure LayerIdx where
  /-- The pairs. -/
  pairs : List (M0CompositeLayerIdxKey × M0CompositeLayerIdxVal)
  /-- Their keys increase. -/
  sorted : pairs.Pairwise fun a b => a.1.pos < b.1.pos

/-- The pairs from a key on. -/
def LayerIdx.from (idx : LayerIdx) (start : M0CompositeLayerIdxKey) :
    List (M0CompositeLayerIdxKey × M0CompositeLayerIdxVal) :=
  idx.pairs.filter fun e => start.pos ≤ e.1.pos

/-- A slot of the reply: the buffers of a key and a value, which may be null, and the
code of the item. -/
structure IdxSlot where
  /-- `keys->ov_buf[i]`. -/
  key : Option (List Byte)
  /-- `vals->ov_buf[i]`. -/
  val : Option (List Byte)
  /-- `rcs[i]`. -/
  rc : ℤ
  deriving DecidableEq

/-- What Motr does with the index and with buffers. -/
structure M0LayerIdxOps where
  /-- `m0_composite_layer_idx_key_to_buf`. -/
  keyToBuf : M0CompositeLayerIdxKey → List Byte
  /-- `m0_composite_layer_idx_key_from_buf`. -/
  keyFromBuf : Option (List Byte) → Except Fault M0CompositeLayerIdxKey
  /-- `m0_composite_layer_idx_val_from_buf`. -/
  valFromBuf : List Byte → Except Fault M0CompositeLayerIdxVal
  /-- An `M0_IC_NEXT` op with a start key and this many slots. -/
  next : LayerIdx → List Byte → ℕ → List IdxSlot

/-- A slot that is filled with a pair. -/
structure IdxSlot.Filled (m : M0LayerIdxOps)
    (e : M0CompositeLayerIdxKey × M0CompositeLayerIdxVal) (s : IdxSlot) : Prop where
  /-- The key can be read back. -/
  key : m.keyFromBuf s.key = .ok e.1
  /-- There is a value, and it can be read back. -/
  val : ∃ b, s.val = some b ∧ m.valFromBuf b = .ok e.2
  /-- The code is that of success. -/
  rc : s.rc = 0

/-- A slot that is not filled. -/
structure IdxSlot.Empty (s : IdxSlot) : Prop where
  /-- No key. -/
  key : s.key = none
  /-- No value. -/
  val : s.val = none
  /-- The code says so. -/
  rc : s.rc < 0

/-- What the driver relies on: NEXT fills one slot for each pair from the start key on,
and leaves the others empty. What comes of a key that is read from an empty slot is not
said. -/
structure M0LayerIdxOps.Lawful (m : M0LayerIdxOps) : Prop where
  /-- NEXT. -/
  next : ∀ idx start n, ∃ found rest, m.next idx (m.keyToBuf start) n = found ++ rest ∧
    List.Forall₂ (IdxSlot.Filled m) ((idx.from start).take n) found ∧
    (∀ s ∈ rest, s.Empty) ∧ found.length + rest.length = n

/-! ### The query -/

section Query

variable (m : M0LayerIdxOps)

/-- The body of the loop of `motr_comp_obj_exts_get_pp`. -/
def motrCompObjExtsGetSlot (s : IdxSlot) (ext : MioObjExt) : Except Fault MioObjExt := do
  let ekey ← m.keyFromBuf s.key
  let ext := { ext with moeOff := ekey.cekOff.toInt64 }
  match s.val with
  | none => return ext
  | some buf =>
    let eval ← m.valFromBuf buf
    return { ext with moeSize := eval.cevLen }

/-- `motr_comp_obj_exts_get_pp`: the number that is returned, and the extents. -/
def motrCompObjExtsGetPp (slots : List IdxSlot) (exts : List MioObjExt) :
    Except Fault (ℕ × List MioObjExt) := do
  let retExts ← (slots.zip exts).mapM fun x => motrCompObjExtsGetSlot m x.1 x.2
  return (slots.length, retExts)

/-- `motr_comp_obj_extent_query` for a NEXT op: only the first key is set. -/
def motrCompObjExtentQuery (idx : LayerIdx) (layerId : MioObjId) (exts : List MioObjExt) :
    Except Fault (List IdxSlot) :=
  match exts with
  | [] => .error .oob
  | ext :: _ =>
    let key : M0CompositeLayerIdxKey := ⟨mioObjIdToUint128 layerId, ext.moeOff.toUInt64⟩
    .ok (m.next idx (m.keyToBuf key) exts.length)

/-- `mio_motr_comp_obj_get_extents`, run to its end. -/
def mioMotrCompObjGetExtents (idx : LayerIdx) (layerId : MioObjId) (offset : Int64)
    (nrExts : ℕ) : Except Fault (ℕ × List MioObjExt) := do
  let exts := (List.replicate nrExts (⟨0, 0⟩ : MioObjExt)).modifyHead
    ({ · with moeOff := offset })
  let slots ← motrCompObjExtentQuery m idx layerId exts
  motrCompObjExtsGetPp m slots exts

end Query

/-! ### What is asked for -/

/-- The extents of a layer from an offset on, with increasing offsets. Offsets compare as
they do in the index, where an `off_t` below zero comes last. -/
def LayerIdx.extents (idx : LayerIdx) (layerId : MioObjId) (offset : Int64) : List MioObjExt :=
  (idx.pairs.filter fun e =>
    e.1.cekLayerId = mioObjIdToUint128 layerId ∧ offset.toUInt64 ≤ e.1.cekOff).map fun e =>
      ⟨e.1.cekOff.toInt64, e.2.cevLen⟩

/-- Of a list that is ordered, those elements come first that have a property which is
inherited downwards. -/
theorem filter_append_of_pairwise {α : Type} {r : α → α → Prop} {l : List α}
    (hl : l.Pairwise r) {p : α → Bool} (hp : ∀ a ∈ l, ∀ b ∈ l, r a b → p b = true → p a = true) :
    l.filter p ++ l.filter (fun a => !p a) = l := by
  induction l with
  | nil => rfl
  | cons a l ih =>
    obtain ⟨hal, hl⟩ := List.pairwise_cons.mp hl
    have ih := ih hl fun x hx y hy => hp x (List.mem_cons_of_mem _ hx) y
      (List.mem_cons_of_mem _ hy)
    cases ha : p a with
    | true =>
      rw [List.filter_cons_of_pos ha, List.filter_cons_of_neg (by simp [ha]), List.cons_append, ih]
    | false =>
      have hno : ∀ b ∈ l, p b = false := fun b hb => by
        by_contra hc
        have := hp a List.mem_cons_self b (List.mem_cons_of_mem _ hb) (hal b hb)
          (Bool.not_eq_false _ ▸ hc)
        rw [ha] at this
        cases this
      rw [List.filter_cons_of_neg (by simp [ha]), List.filter_cons_of_pos (by simp [ha]),
        List.filter_eq_nil_iff.mpr (fun b hb => by simp [hno b hb]), List.nil_append,
        List.filter_eq_self.mpr (fun b hb => by simp [hno b hb])]

/-- Within a layer the keys are ordered by the offset. -/
theorem pos_le_iff {k k' : M0CompositeLayerIdxKey} (h : k.cekLayerId = k'.cekLayerId) :
    k.pos ≤ k'.pos ↔ k.cekOff ≤ k'.cekOff := by
  rw [M0CompositeLayerIdxKey.pos, M0CompositeLayerIdxKey.pos, h, UInt64.le_iff_toNat_le]
  omega

/-- Between two keys of a layer there is none of another. -/
theorem cekLayerId_eq_of_between {k k' k'' : M0CompositeLayerIdxKey} (hle : k.pos ≤ k'.pos)
    (hlt : k'.pos < k''.pos) (h : k''.cekLayerId = k.cekLayerId) :
    k'.cekLayerId = k.cekLayerId := by
  have hhi := k'.cekLayerId.uHi.toNat_lt
  have hlo := k'.cekLayerId.uLo.toNat_lt
  have hoff := k'.cekOff.toNat_lt
  have hlo' := k.cekLayerId.uLo.toNat_lt
  have hoff' := k''.cekOff.toNat_lt
  rw [M0CompositeLayerIdxKey.pos, M0CompositeLayerIdxKey.pos] at hle hlt
  rw [h] at hlt
  have h1 : k'.cekLayerId.uHi = k.cekLayerId.uHi := UInt64.toNat_inj.mp (by omega)
  have h2 : k'.cekLayerId.uLo = k.cekLayerId.uLo := UInt64.toNat_inj.mp (by
    rw [h1] at hle hlt
    omega)
  exact M0Uint128.mk.injEq _ _ _ _ ▸ ⟨h1, h2⟩

/-- An extent as the query returns it. -/
def toExt (e : M0CompositeLayerIdxKey × M0CompositeLayerIdxVal) : MioObjExt :=
  ⟨e.1.cekOff.toInt64, e.2.cevLen⟩

/-- **The pairs from a key on begin with the extents of the layer.** -/
theorem LayerIdx.map_from (idx : LayerIdx) (layerId : MioObjId) (offset : Int64) :
    ∃ others, (idx.from ⟨mioObjIdToUint128 layerId, offset.toUInt64⟩).map toExt =
      idx.extents layerId offset ++ others := by
  have hsplit := filter_append_of_pairwise
    (l := idx.from ⟨mioObjIdToUint128 layerId, offset.toUInt64⟩) (idx.sorted.filter _)
    (p := fun e => decide (e.1.cekLayerId = mioObjIdToUint128 layerId)) (by
      intro a ha b hb hab hlayer
      simp only [decide_eq_true_eq] at hlayer ⊢
      rw [LayerIdx.from, List.mem_filter, decide_eq_true_eq] at ha
      exact cekLayerId_eq_of_between ha.2 hab hlayer)
  have hextents : ((idx.from ⟨mioObjIdToUint128 layerId, offset.toUInt64⟩).filter fun e =>
      decide (e.1.cekLayerId = mioObjIdToUint128 layerId)).map toExt =
        idx.extents layerId offset := by
    rw [LayerIdx.from, List.filter_filter, LayerIdx.extents]
    refine congrArg _ (List.filter_congr fun e _ => ?_)
    rw [← Bool.decide_and, decide_eq_decide]
    exact and_congr_right fun hlayer => pos_le_iff hlayer.symm
  have h := congrArg (List.map toExt) hsplit
  rw [List.map_append, hextents] at h
  exact ⟨_, h.symm⟩

/-! ### The answer -/

section Answer

variable {m : M0LayerIdxOps}

/-- A slot that is filled gives the extent, whatever the entry held before. -/
theorem motrCompObjExtsGetSlot_filled {e : M0CompositeLayerIdxKey × M0CompositeLayerIdxVal}
    {s : IdxSlot} (h : s.Filled m e) (ext : MioObjExt) :
    motrCompObjExtsGetSlot m s ext = .ok (toExt e) := by
  obtain ⟨b, hb, hval⟩ := h.val
  rw [motrCompObjExtsGetSlot, h.key, ok_bind, hb]
  simp only [hval]
  rfl

/-- **The slots that are filled give the extents**, in order. -/
theorem mapM_motrCompObjExtsGetSlot
    {es : List (M0CompositeLayerIdxKey × M0CompositeLayerIdxVal)} {slots : List IdxSlot}
    (h : List.Forall₂ (IdxSlot.Filled m) es slots) {exts : List MioObjExt}
    (hlen : exts.length = slots.length) :
    (slots.zip exts).mapM (fun x => motrCompObjExtsGetSlot m x.1 x.2) =
      .ok (es.map toExt) := by
  induction h generalizing exts with
  | nil => rfl
  | cons hfilled _ ih =>
    obtain ⟨ext, exts, rfl⟩ := List.exists_cons_of_length_eq_add_one hlen
    have hlen' := Nat.succ.inj hlen
    rw [List.zip_cons_cons, List.mapM_cons, motrCompObjExtsGetSlot_filled hfilled, ok_bind,
      ih hlen']
    rfl

/-- The answer to a query: as many extents as there are, up to what is asked for, and the
first ones. -/
def GetExtentsOk (m : M0LayerIdxOps) (idx : LayerIdx) (layerId : MioObjId) (offset : Int64)
    (nrExts : ℕ) : Prop :=
  ∃ nrRetExts exts, mioMotrCompObjGetExtents m idx layerId offset nrExts =
      .ok (nrRetExts, exts) ∧
    nrRetExts = min nrExts (idx.extents layerId offset).length ∧
    exts.take nrRetExts = (idx.extents layerId offset).take nrRetExts

/-- The query, its slots laid out. -/
theorem mioMotrCompObjGetExtents_eq (idx : LayerIdx) (layerId : MioObjId) (offset : Int64)
    {n : ℕ} (hn : 1 ≤ n) :
    ∃ exts : List MioObjExt, exts.length = n ∧
      mioMotrCompObjGetExtents m idx layerId offset n =
        motrCompObjExtsGetPp m
          (m.next idx (m.keyToBuf ⟨mioObjIdToUint128 layerId, offset.toUInt64⟩) n) exts := by
  obtain ⟨k, rfl⟩ : ∃ k, n = k + 1 := ⟨n - 1, by omega⟩
  refine ⟨⟨offset, 0⟩ :: List.replicate k ⟨0, 0⟩, by simp, ?_⟩
  have hlen : ((⟨offset, 0⟩ : MioObjExt) :: List.replicate k ⟨0, 0⟩).length = k + 1 := by simp
  have hquery : motrCompObjExtentQuery m idx layerId
      (⟨offset, 0⟩ :: List.replicate k ⟨0, 0⟩) =
        .ok (m.next idx (m.keyToBuf ⟨mioObjIdToUint128 layerId, offset.toUInt64⟩) (k + 1)) := by
    rw [motrCompObjExtentQuery, hlen]
  show (motrCompObjExtentQuery m idx layerId _ >>= _) = _
  rw [List.replicate_succ, List.modifyHead_cons, hquery]
  rfl

/-- **The extents of a layer are found if it has as many as are asked for**, and only
then: the number that is returned is the number asked for. -/
theorem getExtents_iff (hm : m.Lawful) (idx : LayerIdx) (layerId : MioObjId) (offset : Int64)
    {n : ℕ} (hn : 1 ≤ n) :
    GetExtentsOk m idx layerId offset n ↔ n ≤ (idx.extents layerId offset).length := by
  obtain ⟨exts, hexts, hget⟩ := mioMotrCompObjGetExtents_eq (m := m) idx layerId offset hn
  obtain ⟨found, rest, hnext, hfound, -, hslots⟩ :=
    hm.next idx ⟨mioObjIdToUint128 layerId, offset.toUInt64⟩ n
  constructor
  · rintro ⟨nrRetExts, ret, hok, hnr, -⟩
    rw [hget, hnext, motrCompObjExtsGetPp] at hok
    obtain ⟨r, -, hok⟩ := bind_eq_ok_iff.mp hok
    have hlen : (found ++ rest).length = nrRetExts := (Prod.mk.inj (Except.ok.inj hok)).1
    rw [List.length_append, hslots] at hlen
    omega
  · intro hle
    obtain ⟨others, hfrom⟩ := idx.map_from layerId offset
    have htake : ((idx.from ⟨mioObjIdToUint128 layerId, offset.toUInt64⟩).take n).map toExt =
        (idx.extents layerId offset).take n := by
      rw [List.map_take, hfrom, List.take_append_of_le_length hle]
    -- all slots are filled, with extents of the layer
    have hlen : found.length = n := by
      have h := congrArg List.length htake
      rw [List.length_map, hfound.length_eq, List.length_take, Nat.min_eq_left hle] at h
      exact h
    obtain rfl : rest = [] := List.length_eq_zero_iff.mp (by omega)
    rw [List.append_nil] at hnext
    refine ⟨n, (idx.extents layerId offset).take n, ?_, (Nat.min_eq_left hle).symm, ?_⟩
    · rw [hget, hnext, motrCompObjExtsGetPp,
        mapM_motrCompObjExtsGetSlot hfound (hexts.trans hlen.symm), ok_bind, htake, hlen]
      rfl
    · rw [List.take_take, Nat.min_self]

end Answer

/-! ### An index -/

/-- The buffer of a key, its numbers big-endian. -/
def beKeyToBuf (k : M0CompositeLayerIdxKey) : List Byte :=
  mioByteorderCpuToBe64 k.cekLayerId.uHi ++ mioByteorderCpuToBe64 k.cekLayerId.uLo ++
    mioByteorderCpuToBe64 k.cekOff

/-- The key of a buffer. -/
def beKeyFromBuf (b : List Byte) : M0CompositeLayerIdxKey :=
  ⟨⟨mioByteorderBe64ToCpu (b.take 8), mioByteorderBe64ToCpu ((b.drop 8).take 8)⟩,
    mioByteorderBe64ToCpu (b.drop 16)⟩

/-- An index whose pairs are kept in buffers; a null pointer is read as a key of zeros. -/
def beLayerIdxOps : M0LayerIdxOps where
  keyToBuf := beKeyToBuf
  keyFromBuf b := .ok (b.elim ⟨⟨0, 0⟩, 0⟩ beKeyFromBuf)
  valFromBuf b := .ok ⟨mioByteorderBe64ToCpu b⟩
  next idx start n :=
    let found := ((idx.from (beKeyFromBuf start)).take n).map fun e =>
      (⟨some (beKeyToBuf e.1), some (mioByteorderCpuToBe64 e.2.cevLen), 0⟩ : IdxSlot)
    found ++ List.replicate (n - found.length) ⟨none, none, - ENOENT⟩

theorem beKeyFromBuf_keyToBuf (k : M0CompositeLayerIdxKey) :
    beKeyFromBuf (beKeyToBuf k) = k := by
  have hlen : ∀ x, (mioByteorderCpuToBe64 x).length = 8 := fun x => by
    rw [mioByteorderCpuToBe64, List.length_reverse, length_leBytes]
  obtain ⟨⟨hi, lo⟩, off⟩ := k
  have h1 : (beKeyToBuf ⟨⟨hi, lo⟩, off⟩).take 8 = mioByteorderCpuToBe64 hi := by
    rw [beKeyToBuf, List.append_assoc, List.take_left' (hlen hi)]
  have h2 : (beKeyToBuf ⟨⟨hi, lo⟩, off⟩).drop 8 =
      mioByteorderCpuToBe64 lo ++ mioByteorderCpuToBe64 off := by
    rw [beKeyToBuf, List.append_assoc, List.drop_left' (hlen hi)]
  have h3 : (beKeyToBuf ⟨⟨hi, lo⟩, off⟩).drop 16 = mioByteorderCpuToBe64 off := by
    rw [beKeyToBuf, List.drop_left' (by rw [List.length_append, hlen, hlen])]
  rw [beKeyFromBuf, h1, h2, h3, List.take_left' (hlen lo), mioByteorderBe64ToCpu_cpuToBe64,
    mioByteorderBe64ToCpu_cpuToBe64, mioByteorderBe64ToCpu_cpuToBe64]

theorem lawful_beLayerIdxOps : beLayerIdxOps.Lawful where
  next idx start n := by
    refine ⟨_, _, rfl, ?_, ?_, ?_⟩
    · show List.Forall₂ _ ((idx.from start).take n)
        (((idx.from (beKeyFromBuf (beKeyToBuf start))).take n).map _)
      rw [beKeyFromBuf_keyToBuf, List.forall₂_map_right_iff]
      refine List.forall₂_same.mpr fun e _ => ?_
      refine ⟨congrArg Except.ok (beKeyFromBuf_keyToBuf e.1), ⟨_, rfl, ?_⟩, rfl⟩
      show Except.ok (⟨mioByteorderBe64ToCpu _⟩ : M0CompositeLayerIdxVal) = _
      rw [mioByteorderBe64ToCpu_cpuToBe64]
    · intro s hs
      obtain rfl := List.eq_of_mem_replicate hs
      exact ⟨rfl, rfl, by decide⟩
    · rw [List.length_replicate]
      refine Nat.add_sub_cancel' ?_
      rw [List.length_map]
      exact List.length_take_le _ _

/-- The layer of an example. -/
def extLayer : MioObjId := ⟨List.replicate 16 3, rfl⟩

/-- Two extents of it, and one of another layer. -/
def twoLayersIdx : LayerIdx where
  pairs := [(⟨mioObjIdToUint128 extLayer, 0⟩, ⟨4096⟩), (⟨mioObjIdToUint128 extLayer, 4096⟩, ⟨512⟩),
    (⟨⟨2 ^ 63, 0⟩, 0⟩, ⟨1⟩)]
  sorted := by decide +kernel

/-- The extents of the layer are asked for. -/
theorem getExtents_twoLayersIdx :
    GetExtentsOk beLayerIdxOps twoLayersIdx extLayer 0 2 ↔
      2 ≤ (twoLayersIdx.extents extLayer 0).length :=
  getExtents_iff lawful_beLayerIdxOps twoLayersIdx extLayer 0 (by decide)

/-- **An extent of another layer is returned**, and one that was never stored. -/
theorem not_getExtentsOk_twoLayersIdx :
    mioMotrCompObjGetExtents beLayerIdxOps twoLayersIdx extLayer 0 4 =
        .ok (4, [⟨0, 4096⟩, ⟨4096, 512⟩, ⟨0, 1⟩, ⟨0, 0⟩]) ∧
      twoLayersIdx.extents extLayer 0 = [⟨0, 4096⟩, ⟨4096, 512⟩] ∧
      ¬ GetExtentsOk beLayerIdxOps twoLayersIdx extLayer 0 4 := by
  have hget : mioMotrCompObjGetExtents beLayerIdxOps twoLayersIdx extLayer 0 4 =
      .ok (4, [⟨0, 4096⟩, ⟨4096, 512⟩, ⟨0, 1⟩, ⟨0, 0⟩]) := by decide +kernel
  have hext : twoLayersIdx.extents extLayer 0 = [⟨0, 4096⟩, ⟨4096, 512⟩] := by decide +kernel
  refine ⟨hget, hext, ?_⟩
  rintro ⟨nrRetExts, exts, hok, hnr, -⟩
  rw [hget] at hok
  obtain ⟨rfl, -⟩ := Prod.mk.inj (Except.ok.inj hok)
  rw [hext] at hnr
  exact absurd hnr (by decide)

end CortxMio
