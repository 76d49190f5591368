import CortxMio.Telem.Advertise
import Mathlib.Algebra.BigOperators.Group.List.Basic

/-!
# The length of a packed record

The encoder of the Motr driver knows the length of a record twice: from the sum that
gives it the size of its buffer (`CortxMio.motrAddbRecLen`), and from the bytes that it
writes there (`CortxMio.motrAddbRecAddRec`). The sum has a byte for the length of a
prefix that is absent, and none for the type; the two errors cancel unless there is
both a prefix and an array, which has a byte of its own for the count. The buffer is
rounded up to whole words, so the byte that is missing then shows only if the sum is a
multiple of eight (`CortxMio.length_written_le_len_iff`).

The payload of a measurement in ADDB is limited to 15 words. The encoder bounds the
strings and the arrays one by one and never adds them up: nothing turns a record down
for its length (`CortxMio.mioMotrAddbEncode_ne_e2big`), and the records for which this
makes no difference are those that fit anyway (`CortxMio.addbPayloadKept_iff`).
-/

namespace CortxMio

open Lib

/-! ### What is written -/

/-- The bytes of a value, without the count of an array. -/
def MioTelemetryValue.byteLen : MioTelemetryValue → ℕ
  | uint16 _ => 2
  | uint32 _ => 4
  | uint64 _ | timespan _ | timepoint _ => 8
  | arrayUint16 arr => arr.mtaElms.length * 2
  | arrayUint32 arr => arr.mtaElms.length * 4
  | arrayUint64 arr => arr.mtaElms.length * 8
  | none | string _ | invalid | other _ => 0

/-- Whether a value is an array. -/
def MioTelemetryValue.isArray : MioTelemetryValue → Bool
  | arrayUint16 _ | arrayUint32 _ | arrayUint64 _ => true
  | _ => false

/-- Whether a value is of a type that the encoder supports. -/
def MioTelemetryValue.packable : MioTelemetryValue → Bool
  | none | string _ | invalid | other _ => false
  | _ => true

/-- What the encoder takes of a string. -/
def addbStrLen (s : CStr) : ℕ := strnlen mioMotrAddbMaxPayload s.buf

theorem addbStrLen_eq (s : CStr) : addbStrLen s = min 120 s.length := strnlen_buf _ _

theorem addbStrLen_le (s : CStr) : addbStrLen s ≤ 120 := strnlen_le _ _

theorem length_motrAddbRecAdd {α : Type} [LeWord α] (rec : List Byte) (val : α) :
    (motrAddbRecAdd rec val).length = rec.length + LeWord.width α := by
  rw [motrAddbRecAdd, List.length_append, length_wordBytes]

theorem length_motrAddbRecAddString (rec : List Byte) (s : CStr) :
    (motrAddbRecAddString rec s).length = rec.length + 1 + addbStrLen s := by
  have hle : addbStrLen s ≤ s.bytes.length := by
    rw [addbStrLen_eq]
    exact Nat.min_le_right _ _
  rw [motrAddbRecAddString, List.length_append, length_motrAddbRecAdd, List.length_take]
  exact congrArg _ (Nat.min_eq_left hle)

theorem length_motrAddbRecAddPrefix (rec : List Byte) (pre : Option CStr) :
    (motrAddbRecAddPrefix rec pre).length =
      rec.length + 1 + pre.elim 0 (fun s => 1 + addbStrLen s) := by
  cases pre with
  | none => exact length_motrAddbRecAdd _ _
  | some s =>
    rw [motrAddbRecAddPrefix, length_motrAddbRecAddString, length_motrAddbRecAdd]
    show rec.length + 1 + 1 + addbStrLen s = rec.length + 1 + (1 + addbStrLen s)
    omega

/-- **An array that is accepted** fits into a payload, and follows its count. -/
theorem motrAddbRecAddArray_spec {α : Type} [LeWord α] {rec rec' : List Byte}
    {arr : MioTelemetryArray α} (h : motrAddbRecAddArray rec arr = .ok rec') :
    arr.mtaNrElms = arr.mtaElms.length ∧ arr.mtaElms.length * LeWord.width α ≤ 120 ∧
      rec'.length = rec.length + 1 + arr.mtaElms.length * LeWord.width α := by
  rw [motrAddbRecAddArray] at h
  by_cases hnr : arr.mtaNrElms ≤ 0 ∨
      ((mioMotrAddbMaxPayload / LeWord.width α : ℕ) : ℤ) ≤ arr.mtaNrElms
  · rw [if_pos hnr] at h
    cases h
  · rw [if_neg hnr, Except.ok.injEq] at h
    push Not at hnr
    have hlen := arr.length_mtaElms
    have hcount : arr.mtaElms.length ≤ mioMotrAddbMaxPayload / LeWord.width α := by omega
    refine ⟨by omega, (Nat.mul_le_mul_right _ hcount).trans (Nat.div_mul_le_self _ _), ?_⟩
    rw [← h, foldl_motrAddbRecAdd, List.length_append, length_motrAddbRecAdd]
    simp only [List.length_flatMap, length_wordBytes, List.map_const', List.sum_replicate,
      Nat.nsmul_eq_mul]
    rfl

/-- The value's part of the record is as long as the value, and a byte for the count of
an array. -/
theorem motrAddbRecAddValue_spec {rec rec' : List Byte} {value : MioTelemetryValue}
    (hv : value.packable = true) (h : motrAddbRecAddValue rec value = .ok rec') :
    motrAddbRecValueLen value = value.byteLen ∧ value.byteLen ≤ 120 ∧
      rec'.length = rec.length + value.isArray.toNat + value.byteLen := by
  -- the products of the three arrays do not wrap
  have hwrap : ∀ n : ℕ, n ≤ 120 → toInt32 n = n := fun n hn => by
    rw [toInt32, Int.bmod_def]
    omega
  cases value with
  | none => cases hv
  | uint16 x | uint32 x | uint64 x | timespan x | timepoint x =>
    refine ⟨rfl, Nat.le_of_ble_eq_true rfl, ?_⟩
    rw [← Except.ok.inj h]
    exact length_motrAddbRecAdd _ _
  | string s => cases hv
  | arrayUint16 arr | arrayUint32 arr | arrayUint64 arr =>
    obtain ⟨hnr, hle, hlen⟩ := motrAddbRecAddArray_spec h
    refine ⟨?_, hle, hlen⟩
    rw [motrAddbRecValueLen, hnr]
    exact hwrap _ hle
  | invalid => cases hv
  | other code => cases hv

/-- The sum that `motr_addb_rec_len` computes for a value that it supports. -/
def addbRecSum (pre : Option CStr) (topic : CStr) (value : MioTelemetryValue) : ℕ :=
  6 + pre.elim 0 addbStrLen + addbStrLen topic + value.byteLen

/-- The sum is within the range of an `int`, if the value fits into a payload. -/
theorem motrAddbRecLen_eq {pre : Option CStr} {topic : CStr} {value : MioTelemetryValue}
    (hval : motrAddbRecValueLen value = value.byteLen) (hle : value.byteLen ≤ 120) :
    motrAddbRecLen pre (some topic) value = .ok (addbRecSum pre topic value : ℕ) := by
  have hpre : pre.elim 0 addbStrLen ≤ 120 := by
    cases pre with
    | none => exact Nat.zero_le _
    | some s => exact addbStrLen_le s
  have htopic := addbStrLen_le topic
  have hlen : motrAddbRecLen pre (some topic) value =
      .ok (toInt32 (2 + (pre.elim 0 addbStrLen : ℕ) + 2 + addbStrLen topic + 1 +
        value.byteLen + 1)) := by
    unfold motrAddbRecLen
    simp only [hval]
    rw [if_neg (by omega)]
    cases pre <;> rfl
  rw [hlen, addbRecSum, toInt32, Int.bmod_def]
  refine congrArg _ ?_
  omega

/-- Only a supported value has a length that is not negative. -/
theorem packable_of_motrAddbRecLen {pre topic : Option CStr} {value : MioTelemetryValue}
    {recLen : ℤ} (h : motrAddbRecLen pre topic value = .ok recLen) (hnn : ¬ recLen < 0) :
    ∃ t, topic = some t ∧ value.packable = true := by
  cases topic with
  | none => cases h
  | some t =>
    refine ⟨t, rfl, ?_⟩
    cases value with
    | none | string _ | invalid | other _ =>
      obtain rfl : - EINVAL = recLen := Except.ok.inj h
      exact absurd (by decide) hnn
    | _ => rfl

/-- **What the encoder leaves**: a buffer of whole words that holds the sum, and the
bytes that were written. -/
theorem mioMotrAddbEncode_spec {rec : MioTelemetryRec} {b : AddbBuf}
    (h : mioMotrAddbEncode rec = .ok b) :
    ∃ topic, rec.mtrTopic = some topic ∧ rec.mtrValue.packable = true ∧
      b.len = (addbRecSum rec.mtrPrefix topic rec.mtrValue + 7) / 8 * 8 ∧
      b.written.length + rec.mtrPrefix.isNone.toNat =
        addbRecSum rec.mtrPrefix topic rec.mtrValue + rec.mtrValue.isArray.toNat := by
  obtain ⟨-, hwritten⟩ := exists_of_mioMotrAddbEncode h
  rw [mioMotrAddbEncode] at h
  split at h
  · cases h
  · obtain ⟨recLen, hrecLen, h⟩ := bind_eq_ok_iff.mp h
    split at h
    · cases h
    · next hnn =>
      obtain ⟨w, hw, h⟩ := bind_eq_ok_iff.mp h
      obtain rfl := Except.ok.inj h
      obtain ⟨topic, htopic, hpack⟩ := packable_of_motrAddbRecLen hrecLen hnn
      rw [motrAddbRecAddRec] at hwritten
      rw [htopic] at hrecLen
      simp only [htopic] at hwritten
      obtain ⟨hval, hle, hlen⟩ := motrAddbRecAddValue_spec hpack hwritten
      rw [motrAddbRecLen_eq hval hle] at hrecLen
      obtain rfl := Except.ok.inj hrecLen
      refine ⟨topic, htopic, hpack, Int.toNat_natCast _, ?_⟩
      rw [hlen, length_motrAddbRecAdd, length_motrAddbRecAddString,
        length_motrAddbRecAddPrefix, length_motrAddbRecAdd, addbRecSum]
      have h16 : LeWord.width UInt16 = 2 := rfl
      have h8 : LeWord.width UInt8 = 1 := rfl
      cases rec.mtrPrefix <;>
        simp only [List.length_nil, Option.elim_none, Option.elim_some, Option.isNone_none,
          Option.isNone_some, Bool.toNat_true, Bool.toNat_false, h16, h8] <;> omega

/-! ### The buffer -/

/-- **The byte without room**: the record has a prefix and an array, and the lengths add
up to whole words. -/
def AddbNoRoom (rec : MioTelemetryRec) : Prop :=
  ∃ pre topic, rec.mtrPrefix = some pre ∧ rec.mtrTopic = some topic ∧
    rec.mtrValue.isArray = true ∧
    8 ∣ 6 + min 120 pre.length + min 120 topic.length + rec.mtrValue.byteLen

/-- The bytes handed to ADDB begin with those that were written, if there are as many. -/
theorem value_mioMotrAddbStore (id : UInt64) {b : AddbBuf} (hlen : 8 ∣ b.len)
    (hle : b.written.length ≤ b.len) : b.written <+: (mioMotrAddbStore id b).value := by
  have hdvd : b.len / 8 * 8 = b.len := Nat.div_mul_cancel hlen
  have hval : (mioMotrAddbStore id b).value =
      b.written ++ List.replicate (b.len - b.written.length) 0 := by
    rw [mioMotrAddbStore, hdvd, AddbBuf.payload, List.take_take, Nat.min_self]
    refine List.take_of_length_le ?_
    rw [List.length_append, List.length_replicate]
    omega
  rw [hval]
  exact List.prefix_append _ _

/-- **The written bytes are within the buffer**, and all of them reach ADDB, unless a
prefix and an array come to whole words. -/
theorem length_written_le_len_iff {rec : MioTelemetryRec} {b : AddbBuf}
    (h : mioMotrAddbEncode rec = .ok b) (id : UInt64) :
    (b.written.length ≤ b.len ∧ b.written <+: (mioMotrAddbStore id b).value) ↔
      ¬ AddbNoRoom rec := by
  obtain ⟨topic, htopic, -, hlen, hwritten⟩ := mioMotrAddbEncode_spec h
  have hdvd : 8 ∣ b.len := hlen ▸ Nat.dvd_mul_left 8 _
  have hfits : b.written.length ≤ b.len ↔ ¬ AddbNoRoom rec := by
    obtain ⟨time, pre, topic', value⟩ := rec
    obtain rfl : topic' = some topic := htopic
    cases pre with
    | none =>
      -- the byte of the sum for the length of the prefix makes up for the type
      have hno : ¬ AddbNoRoom ⟨time, none, some topic, value⟩ := by
        rintro ⟨pre, -, hpre, -⟩
        cases hpre
      have harr := Bool.toNat_le value.isArray
      refine iff_of_true ?_ hno
      replace hlen : b.len = (addbRecSum none topic value + 7) / 8 * 8 := hlen
      replace hwritten : b.written.length + 1 =
          addbRecSum none topic value + value.isArray.toNat := hwritten
      omega
    | some pre =>
      have hroom : AddbNoRoom ⟨time, some pre, some topic, value⟩ ↔
          value.isArray = true ∧ 8 ∣ addbRecSum (some pre) topic value := by
        rw [addbRecSum, Option.elim_some, addbStrLen_eq, addbStrLen_eq]
        constructor
        · rintro ⟨p, t, hp, ht, harr, hdvd⟩
          obtain rfl := Option.some.inj hp
          obtain rfl := Option.some.inj ht
          exact ⟨harr, hdvd⟩
        · rintro ⟨harr, hdvd⟩
          exact ⟨pre, topic, rfl, rfl, harr, hdvd⟩
      replace hlen : b.len = (addbRecSum (some pre) topic value + 7) / 8 * 8 := hlen
      replace hwritten : b.written.length =
          addbRecSum (some pre) topic value + value.isArray.toNat := hwritten
      rw [hroom]
      cases harr : value.isArray with
      | false =>
        rw [harr, Bool.toNat_false] at hwritten
        exact iff_of_true (by omega) (by simp)
      | true =>
        rw [harr, Bool.toNat_true] at hwritten
        simp only [true_and]
        omega
  refine ⟨fun h => hfits.mp h.1, fun h => ?_⟩
  exact ⟨hfits.mpr h, value_mioMotrAddbStore id hdvd (hfits.mpr h)⟩

/-- Fourteen bytes by the sum, fifteen that are written, sixteen in the buffer. -/
theorem length_written_addbArrayRec :
    (addbArrayBuf.written.length ≤ addbArrayBuf.len ∧
      addbArrayBuf.written <+: (mioMotrAddbStore 0 addbArrayBuf).value) ↔
        ¬ AddbNoRoom addbArrayRec := by
  have henc : mioMotrAddbEncode addbArrayRec = .ok addbArrayBuf := by decide +kernel
  exact length_written_le_len_iff henc 0

/-- The record with two more bytes in the topic. -/
def addbFullRec : MioTelemetryRec :=
  { addbArrayRec with mtrTopic := some ⟨[0x61, 0x62, 0x63], by decide⟩ }

/-- Its bytes, and the length of its payload. -/
def addbFullBuf : AddbBuf where
  written := [0x2e, 0x20, 1, 3, 0x6d, 0x69, 0x6f, 3, 0x61, 0x62, 0x63, 8, 2, 2, 1, 0xff, 0xff]
  len := 16

/-- **The last byte is written behind the buffer**, and does not reach ADDB. -/
theorem addbFullRec_overruns :
    mioMotrAddbEncode addbFullRec = .ok addbFullBuf ∧
      ¬ addbFullBuf.written.length ≤ addbFullBuf.len ∧
      ¬ addbFullBuf.written <+: (mioMotrAddbStore 0 addbFullBuf).value := by
  decide +kernel

/-! ### The limit on the payload -/

/-- The length of a packed record: the magic, the sign and the prefix, the topic, the type
and the value, each string and each array after its length. -/
def addbPackedLen (rec : MioTelemetryRec) : ℕ :=
  2 + (1 + rec.mtrPrefix.elim 0 fun pre => 1 + pre.length) +
    rec.mtrTopic.elim 0 (fun topic => 1 + topic.length) + 1 +
    (rec.mtrValue.isArray.toNat + rec.mtrValue.byteLen)

theorem motrAddbRecValueLen_even (value : MioTelemetryValue) :
    motrAddbRecValueLen value % 2 = 0 ∧ motrAddbRecValueLen value < 2 ^ 31 := by
  cases value with
  | arrayUint16 arr | arrayUint32 arr | arrayUint64 arr =>
    rw [motrAddbRecValueLen, toInt32, Int.bmod_def]
    omega
  | uint16 x | uint32 x | uint64 x | timespan x | timepoint x => exact ⟨rfl, by
      rw [motrAddbRecValueLen]
      decide⟩
  | none | string s | invalid | other code => exact ⟨rfl, by
      rw [motrAddbRecValueLen]
      decide⟩

/-- The code of a length that is turned down is not `-E2BIG`, as it is even or, where
the sum has wrapped, far below. -/
theorem motrAddbRecLen_ne_e2big {pre topic : Option CStr} {value : MioTelemetryValue}
    {recLen : ℤ} (h : motrAddbRecLen pre topic value = .ok recLen) : recLen ≠ - E2BIG := by
  obtain ⟨heven, hlt⟩ := motrAddbRecValueLen_even value
  cases topic with
  | none => cases h
  | some topic =>
    have htopic := addbStrLen_le topic
    have hpre : pre.elim 0 addbStrLen ≤ 120 := by
      cases pre with
      | none => exact Nat.zero_le _
      | some s => exact addbStrLen_le s
    have hlen : motrAddbRecLen pre (some topic) value =
        if motrAddbRecValueLen value < 0 then .ok (motrAddbRecValueLen value)
        else .ok (toInt32 (2 + (pre.elim 0 addbStrLen : ℕ) + 2 + addbStrLen topic + 1 +
          motrAddbRecValueLen value + 1)) := by
      cases pre <;> rfl
    rw [hlen] at h
    split at h
    · rw [← Except.ok.inj h]
      rintro hc
      rw [hc] at heven
      exact absurd heven (by decide)
    · have hbig : E2BIG = 7 := rfl
      rw [← Except.ok.inj h, toInt32, Int.bmod_def]
      omega

/-- An array that is turned down is turned down with `-EINVAL`. -/
theorem motrAddbRecAddValue_ne_e2big (rec : List Byte) (value : MioTelemetryValue) :
    motrAddbRecAddValue rec value ≠ .error (.err (- E2BIG)) := by
  have harr : ∀ {α : Type} [LeWord α] (arr : MioTelemetryArray α),
      motrAddbRecAddArray rec arr ≠ .error (.err (- E2BIG)) := by
    intro α _ arr
    rw [motrAddbRecAddArray]
    split
    · rintro h
      cases h
    · rintro h
      cases h
  cases value with
  | arrayUint16 arr | arrayUint32 arr | arrayUint64 arr => exact harr arr
  | _ => exact fun h => by cases h

/-- **Nothing is too long for the encoder.** -/
theorem mioMotrAddbEncode_ne_e2big (rec : MioTelemetryRec) :
    mioMotrAddbEncode rec ≠ .error (.err (- E2BIG)) := by
  rw [mioMotrAddbEncode]
  split
  · exact fun h => by cases h
  · cases hrecLen : motrAddbRecLen rec.mtrPrefix rec.mtrTopic rec.mtrValue with
    | error e =>
      -- the assertion on the topic
      cases htopic : rec.mtrTopic with
      | none =>
        rw [htopic] at hrecLen
        obtain rfl : Fault.abort = e := Except.error.inj hrecLen
        exact fun h => by cases h
      | some topic =>
        rw [htopic] at hrecLen
        unfold motrAddbRecLen at hrecLen
        simp only at hrecLen
        split at hrecLen <;> cases hrecLen
    | ok recLen =>
      rw [ok_bind]
      split
      · rintro h
        exact motrAddbRecLen_ne_e2big hrecLen (Fault.err.inj (Except.error.inj h))
      · rw [motrAddbRecAddRec]
        cases rec.mtrTopic with
        | none => exact fun h => by cases h
        | some topic =>
          rintro h
          simp only at h
          generalize hv : motrAddbRecAddValue _ rec.mtrValue = r at h
          cases r with
          | ok w => cases h
          | error e =>
            obtain rfl : e = Fault.err (- E2BIG) := Except.error.inj h
            exact motrAddbRecAddValue_ne_e2big _ _ hv

/-- **The limit on the payload is kept for a record**: it is turned down with `-E2BIG`
just if it is too long, and it never reaches ADDB in more than 15 words, whichever
function advertises it. -/
structure AddbPayloadKept (id : UInt64) (rec : MioTelemetryRec) : Prop where
  /-- The code. -/
  tooBig : mioMotrAddbEncode rec = .error (.err (- E2BIG)) ↔
    mioMotrAddbMaxPayload < addbPackedLen rec
  /-- A value is advertised. -/
  advertised : ∀ adds, mioTelemetryAdvertise (some (mioMotrAddbRecOps id)) rec.mtrPrefix
    rec.mtrTopic rec.mtrValue = .ok adds → ∀ a ∈ adds, a.nr ≤ 15
  /-- A list of numbers is advertised, and makes this value. -/
  arrayAdvertised : ∀ type nrElms valist adds,
    telemetryArrayValue type nrElms valist = .ok rec.mtrValue →
    mioTelemetryArrayAdvertise (some (mioMotrAddbRecOps id)) rec.mtrPrefix rec.mtrTopic type
      nrElms valist = .ok adds → ∀ a ∈ adds, a.nr ≤ 15

/-- **A record that fits**: packed it is no longer than a payload, and a byte shorter if
it has neither a prefix nor an array, as the buffer is then a byte too long. -/
def AddbFits (rec : MioTelemetryRec) : Prop :=
  addbPackedLen rec ≤ mioMotrAddbMaxPayload ∧
    (rec.mtrPrefix = none → rec.mtrValue.isArray = false →
      addbPackedLen rec < mioMotrAddbMaxPayload)

/-- The two lengths differ by the byte for the length of the prefix and the byte for the
count of an array. -/
theorem addbRecSum_add_isArray (time : List Byte) {pre : Option CStr} {topic : CStr}
    {value : MioTelemetryValue}
    (h : addbPackedLen ⟨time, pre, some topic, value⟩ ≤ mioMotrAddbMaxPayload) :
    addbRecSum pre topic value + value.isArray.toNat =
      addbPackedLen ⟨time, pre, some topic, value⟩ + pre.isNone.toNat := by
  have hmax : mioMotrAddbMaxPayload = 120 := rfl
  simp only [addbPackedLen, Option.elim_some] at h ⊢
  have htopic : addbStrLen topic = topic.length := by
    rw [addbStrLen_eq]
    omega
  rw [addbRecSum, htopic]
  cases pre with
  | none =>
    have hone : (none : Option CStr).isNone.toNat = 1 := rfl
    simp only [Option.elim_none] at *
    omega
  | some pre =>
    have hzero : (some pre).isNone.toNat = 0 := rfl
    have hpre : addbStrLen pre = pre.length := by
      rw [addbStrLen_eq]
      simp only [Option.elim_some] at h
      omega
    simp only [Option.elim_some, hpre] at *
    omega

/-- The words that are advertised are those of the buffer. -/
theorem nr_of_telemetryDoAdvertise {id : UInt64} {pre : Option CStr} {topic : CStr}
    {value : MioTelemetryValue} {adds : List M0Addb2Add}
    (h : telemetryDoAdvertise (some (mioMotrAddbRecOps id)) pre true (some topic) value =
      .ok adds) : ∀ a ∈ adds, a.nr = (addbRecSum pre topic value + 7) / 8 := by
  obtain ⟨b, hb, rfl⟩ := exists_of_telemetryDoAdvertise h
  obtain ⟨t, ht, -, hlen, -⟩ := mioMotrAddbEncode_spec hb
  obtain rfl := Option.some.inj ht
  rintro a ha
  rw [List.mem_singleton.mp ha, mioMotrAddbStore]
  show b.len / 8 = _
  rw [hlen]
  exact Nat.mul_div_cancel _ (by decide)

/-- A record with a single number is never turned down. -/
theorem exists_telemetryDoAdvertise (id : UInt64) (pre : Option CStr) (topic : CStr)
    {value : MioTelemetryValue} (hpack : value.packable = true)
    (harr : value.isArray = false) :
    ∃ a, telemetryDoAdvertise (some (mioMotrAddbRecOps id)) pre true (some topic) value =
      .ok [a] := by
  have hcode : ¬ (value.mtrType.code ≤ MioTelemetryType.invalid.code ∨
      mioTmTypeNr ≤ value.mtrType.code) := by
    cases value with
    | uint16 x | uint32 x | uint64 x | timespan x | timepoint x => exact of_decide_eq_true rfl
    | none | string _ | invalid | other _ => cases hpack
    | arrayUint16 arr | arrayUint32 arr | arrayUint64 arr => cases harr
  have hadd : ∀ rec, ∃ rec', motrAddbRecAddValue rec value = .ok rec' := by
    intro rec
    cases value with
    | uint16 x | uint32 x | uint64 x | timespan x | timepoint x => exact ⟨_, rfl⟩
    | none | string _ | invalid | other _ => cases hpack
    | arrayUint16 arr | arrayUint32 arr | arrayUint64 arr => cases harr
  obtain ⟨w, hw⟩ : ∃ w, motrAddbRecAddRec ⟨[], pre, some topic, value⟩ = .ok w := hadd _
  obtain ⟨rec', hrec'⟩ := hadd []
  obtain ⟨hval, hle, -⟩ := motrAddbRecAddValue_spec hpack hrec'
  have hencode : ∃ b, mioMotrAddbEncode ⟨[], pre, some topic, value⟩ = .ok b := by
    rw [mioMotrAddbEncode, if_neg hcode, motrAddbRecLen_eq hval hle, ok_bind,
      if_neg (by omega), hw]
    exact ⟨_, rfl⟩
  obtain ⟨b, hb⟩ := hencode
  refine ⟨mioMotrAddbStore id b, ?_⟩
  show (mioMotrAddbEncode ⟨[], pre, some topic, value⟩ >>= _) = _
  rw [hb]
  rfl

/-- **The limit is kept for the records that fit, and for no others.** -/
theorem addbPayloadKept_iff (id : UInt64) (time : List Byte) (pre : Option CStr)
    (topic : CStr) {value : MioTelemetryValue} (hpack : value.packable = true) :
    AddbPayloadKept id ⟨time, pre, some topic, value⟩ ↔
      AddbFits ⟨time, pre, some topic, value⟩ := by
  have hmax : mioMotrAddbMaxPayload = 120 := rfl
  constructor
  · rintro ⟨htooBig, hadv, -⟩
    have hle : addbPackedLen ⟨time, pre, some topic, value⟩ ≤ mioMotrAddbMaxPayload :=
      not_lt.mp fun hlt => mioMotrAddbEncode_ne_e2big _ (htooBig.mpr hlt)
    refine ⟨hle, fun hpre harr => ?_⟩
    obtain ⟨a, ha⟩ := exists_telemetryDoAdvertise id pre topic hpack harr
    have hnr := hadv _ ha a (List.mem_singleton_self a)
    have hsum := addbRecSum_add_isArray time hle
    rw [nr_of_telemetryDoAdvertise ha a (List.mem_singleton_self a)] at hnr
    obtain rfl : pre = none := hpre
    obtain harr : value.isArray = false := harr
    have hone : (none : Option CStr).isNone.toNat = 1 := rfl
    rw [harr, hone, Bool.toNat_false] at hsum
    show addbPackedLen ⟨time, none, some topic, value⟩ < _
    omega
  · rintro ⟨hle, hlt⟩
    have hsum := addbRecSum_add_isArray time hle
    have hwords : ∀ adds, telemetryDoAdvertise (some (mioMotrAddbRecOps id)) pre true
        (some topic) value = .ok adds → ∀ a ∈ adds, a.nr ≤ 15 := by
      rintro adds hadds a ha
      rw [nr_of_telemetryDoAdvertise hadds a ha]
      cases pre with
      | none =>
        have hone : (none : Option CStr).isNone.toNat = 1 := rfl
        cases harr : value.isArray with
        | false =>
          have := hlt rfl harr
          rw [harr, hone, Bool.toNat_false] at hsum
          omega
        | true =>
          rw [harr, hone, Bool.toNat_true] at hsum
          omega
      | some pre =>
        have hzero : (some pre).isNone.toNat = 0 := rfl
        omega
    refine ⟨iff_of_false (mioMotrAddbEncode_ne_e2big _) (not_lt.mpr hle), hwords, ?_⟩
    rintro type nrElms valist adds hvalue hadds a ha
    rcases exists_of_telemetryDoArrayAdvertise hadds with rfl | ⟨value', hvalue', hadds'⟩
    · cases ha
    · obtain rfl := Except.ok.inj (hvalue.symm.trans hvalue')
      exact hwords adds hadds' a ha

/-- A record of 15 words, with a prefix and a topic of 53 bytes each. -/
theorem addbPayloadKept_fifteen :
    AddbPayloadKept 0 ⟨[], some ⟨List.replicate 53 0x70, by decide⟩,
        some ⟨List.replicate 53 0x74, by decide⟩, .uint64 7⟩ ↔
      AddbFits ⟨[], some ⟨List.replicate 53 0x70, by decide⟩,
        some ⟨List.replicate 53 0x74, by decide⟩, .uint64 7⟩ :=
  addbPayloadKept_iff 0 [] _ _ rfl

/-- A record with a topic of 120 bytes. -/
def addbLongRec : MioTelemetryRec where
  mtrTimeStr := []
  mtrPrefix := none
  mtrTopic := some ⟨List.replicate 120 0x74, by decide⟩
  mtrValue := .uint64 7

/-- **A long record is advertised** without an error, in 17 words. -/
theorem addbLongRec_advertised :
    mioMotrAddbMaxPayload < addbPackedLen addbLongRec ∧
      mioMotrAddbEncode addbLongRec ≠ .error (.err (- E2BIG)) ∧
      ∃ adds, mioTelemetryAdvertise (some (mioMotrAddbRecOps 0)) none addbLongRec.mtrTopic
        addbLongRec.mtrValue = .ok adds ∧ adds.map M0Addb2Add.nr = [17] := by
  refine ⟨by decide +kernel, by decide +kernel, [mioMotrAddbStore 0 ⟨[0x2e, 0x20, 0, 120] ++
    List.replicate 120 0x74 ++ [4, 7, 0, 0, 0, 0, 0, 0, 0], 136⟩], by decide +kernel, rfl⟩

end CortxMio
