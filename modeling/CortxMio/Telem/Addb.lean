import CortxMio.Lib.Cursor
import CortxMio.Lib.Fallible
import CortxMio.Telem.Rec

/-!
# Telemetry records in ADDB

The Motr driver packs a telemetry record into the payload of an ADDB measurement:
two bytes of magic, a flag and the prefix, the topic, the type and the value, each
string and each array after its length, padded to whole words
(`CortxMio.mioMotrAddbEncode`). The parser goes through the payload with a cursor
(`CortxMio.mioMotrAddbDecode`).

The encoder computes the length of its buffer before it writes, from a sum of its own.
What it writes is kept apart from the length that it reports; if it fits, the
decoder finds in that many bytes the record that was packed
(`CortxMio.mioMotrAddbDecode_mioMotrAddbEncode`).
-/

namespace CortxMio

open Lib

/-! ### The format -/

/-- `motr_addb_magic`. -/
abbrev motrAddbMagic : UInt16 := 0x202e

/-- `MOTR_ADDB_NO_PREFIX_SIGN`. -/
abbrev motrAddbNoPrefixSign : UInt8 := 0

/-- `MOTR_ADDB_PREFIX_SIGN`. -/
abbrev motrAddbPrefixSign : UInt8 := 1

/-- `MIO_MOTR_ADDB_MAX_PAYLOAD`. -/
abbrev mioMotrAddbMaxPayload : ℕ := 120

/-- The value of an `int` to which a wider value is converted. -/
def toInt32 (n : ℤ) : ℤ := n.bmod (2 ^ 32)

/-- `motr_addb_rec_value_len`. -/
def motrAddbRecValueLen : MioTelemetryValue → ℤ
  | .uint16 _ => 2
  | .uint32 _ => 4
  | .uint64 _ | .timespan _ | .timepoint _ => 8
  | .arrayUint16 arr => toInt32 (arr.mtaNrElms * 2)
  | .arrayUint32 arr => toInt32 (arr.mtaNrElms * 4)
  | .arrayUint64 arr => toInt32 (arr.mtaNrElms * 8)
  | .none | .string _ | .invalid | .other _ => - EINVAL

/-- `motr_addb_rec_len`. -/
def motrAddbRecLen (pre : Option CStr) (topic : Option CStr) (value : MioTelemetryValue) :
    Except Fault ℤ :=
  let prefixLen := match pre with
    | none => 0
    | some s => strnlen mioMotrAddbMaxPayload s.buf
  match topic with
  | none => .error .abort
  | some topic =>
    let topicLen := strnlen mioMotrAddbMaxPayload topic.buf
    let valLen := motrAddbRecValueLen value
    if valLen < 0 then .ok valLen
    -- magic; sign and prefix; length and topic; length and value
    else .ok (toInt32 (2 + prefixLen + 2 + topicLen + 1 + valLen + 1))

/-! ### Packing -/

/-- `motr_addb_rec_add_u8`, `_u16`, `_u32` and `_u64`. -/
def motrAddbRecAdd {α : Type} [LeWord α] (rec : List Byte) (val : α) : List Byte :=
  rec ++ wordBytes val

/-- `motr_addb_rec_add_array`, for elements of a given width. -/
def motrAddbRecAddArray {α : Type} [LeWord α] (rec : List Byte) (arr : MioTelemetryArray α) :
    Except Fault (List Byte) :=
  let maxNrElms : ℤ := (mioMotrAddbMaxPayload / LeWord.width α : ℕ)
  if arr.mtaNrElms ≤ 0 ∨ maxNrElms ≤ arr.mtaNrElms then .error (.err (- EINVAL))
  else .ok (arr.mtaElms.foldl motrAddbRecAdd
    (motrAddbRecAdd rec (UInt8.ofNat arr.mtaNrElms.toNat)))

/-- `motr_addb_rec_add_string`. -/
def motrAddbRecAddString (rec : List Byte) (string : CStr) : List Byte :=
  let strLen := strnlen mioMotrAddbMaxPayload string.buf
  motrAddbRecAdd rec (UInt8.ofNat strLen) ++ string.bytes.take strLen

/-- `motr_addb_rec_add_value`. The types of its default branch are turned down by
`motr_addb_rec_value_len`. -/
def motrAddbRecAddValue (rec : List Byte) : MioTelemetryValue → Except Fault (List Byte)
  | .uint16 x => .ok (motrAddbRecAdd rec x)
  | .uint32 x => .ok (motrAddbRecAdd rec x)
  | .uint64 x | .timespan x | .timepoint x => .ok (motrAddbRecAdd rec x)
  | .arrayUint16 arr => motrAddbRecAddArray rec arr
  | .arrayUint32 arr => motrAddbRecAddArray rec arr
  | .arrayUint64 arr => motrAddbRecAddArray rec arr
  | .none => .ok rec
  | .string _ | .invalid | .other _ => .error .abort

/-- What the encoder leaves: the bytes it has written from the start of its buffer,
and the length it reports, which is the length of the buffer. -/
structure AddbBuf where
  /-- The bytes written. -/
  written : List Byte
  /-- `*len`. -/
  len : ℕ
  deriving DecidableEq

/-- The `*len` bytes at `*buf`: what is not written is padded with zeros. -/
def AddbBuf.payload (b : AddbBuf) : List Byte :=
  (b.written ++ List.replicate (b.len - b.written.length) 0).take b.len

/-- The part of `mio_motr_addb_encode` that writes the prefix. -/
def motrAddbRecAddPrefix (rec : List Byte) : Option CStr → List Byte
  | some pre => motrAddbRecAddString (motrAddbRecAdd rec motrAddbPrefixSign) pre
  | none => motrAddbRecAdd rec motrAddbNoPrefixSign

/-- The part of `mio_motr_addb_encode` that writes. -/
def motrAddbRecAddRec (rec : MioTelemetryRec) : Except Fault (List Byte) :=
  let cursor := motrAddbRecAdd [] motrAddbMagic
  let cursor := motrAddbRecAddPrefix cursor rec.mtrPrefix
  match rec.mtrTopic with
  | none => .error .abort
  | some topic =>
    let cursor := motrAddbRecAddString cursor topic
    let cursor := motrAddbRecAdd cursor (UInt8.ofNat rec.mtrValue.mtrType.code)
    motrAddbRecAddValue cursor rec.mtrValue

/-- `mio_motr_addb_encode`. -/
def mioMotrAddbEncode (rec : MioTelemetryRec) : Except Fault AddbBuf :=
  let type := rec.mtrValue.mtrType.code
  if type ≤ MioTelemetryType.invalid.code ∨ mioTmTypeNr ≤ type then .error (.err (- EINVAL))
  else do
    let recLen ← motrAddbRecLen rec.mtrPrefix rec.mtrTopic rec.mtrValue
    if recLen < 0 then .error (.err recLen)
    else do
      let written ← motrAddbRecAddRec rec
      -- rounded to multiples of 8
      return ⟨written, (((recLen + 7) / 8) * 8).toNat⟩

/-- A call of `m0_addb2_add`: the identifier of the measurement, the number of words, and
the bytes of these words. -/
structure M0Addb2Add where
  /-- `id`. -/
  id : UInt64
  /-- `nr`. -/
  nr : ℕ
  /-- The words at `value`. -/
  value : List Byte
  deriving DecidableEq

/-- `mio_motr_addb_store`. The identifier `MIO_MOTR_ADDB_ID` is one of the range that Motr
sets aside. -/
def mioMotrAddbStore (mioMotrAddbId : UInt64) (buf : AddbBuf) : M0Addb2Add :=
  let nrU64 := buf.len / 8
  ⟨mioMotrAddbId, nrU64, buf.payload.take (nrU64 * 8)⟩

/-! ### Parsing -/

/-- `motr_addb_rec_get_u8`, `_u16`, `_u32` and `_u64`. -/
def motrAddbRecGet (α : Type) [LeWord α] : Cursor Fault α := getWord .oob α

/-- `motr_addb_rec_get_array`, for elements of a given width, as
`motr_addb_rec_get_value` calls it: the code it returns is dropped, and the array is
then the one that `mio_telemetry_alloc_value` has cleared. -/
def motrAddbRecGetArray (α : Type) [LeWord α] : Cursor Fault (MioTelemetryArray α) := do
  let nrElms ← motrAddbRecGet UInt8
  if mioMotrAddbMaxPayload / LeWord.width α ≤ nrElms.toNat then
    return .ofList []
  let elms ← getMany (motrAddbRecGet α) nrElms.toNat
  return .ofList elms

/-- `motr_addb_rec_get_string`. -/
def motrAddbRecGetString : Cursor Fault (Option CStr) := do
  let len ← motrAddbRecGet UInt8
  if len = 0 ∨ mioMotrAddbMaxPayload ≤ len.toNat then
    return none
  let bytes ← getBytes .oob len.toNat
  return some (.ofBuf bytes)

/-- `motr_addb_rec_get_value`. The types it has no branch for are turned down by
`mio_telemetry_alloc_value`. -/
def motrAddbRecGetValue : MioTelemetryType → Cursor Fault MioTelemetryValue
  | .none => return .none
  | .uint16 => return .uint16 (← motrAddbRecGet UInt16)
  | .uint32 => return .uint32 (← motrAddbRecGet UInt32)
  | .uint64 => return .uint64 (← motrAddbRecGet UInt64)
  | .timespan => return .timespan (← motrAddbRecGet UInt64)
  | .timepoint => return .timepoint (← motrAddbRecGet UInt64)
  | .arrayUint16 => return .arrayUint16 (← motrAddbRecGetArray UInt16)
  | .arrayUint32 => return .arrayUint32 (← motrAddbRecGetArray UInt32)
  | .arrayUint64 => return .arrayUint64 (← motrAddbRecGetArray UInt64)
  | .invalid | .string | .other _ => throw (.err (- EINVAL))

/-- The part of `mio_motr_addb_decode` that reads the prefix. -/
def motrAddbRecGetPrefix : Cursor Fault (Option CStr) := do
  let hasPrefix ← motrAddbRecGet UInt8
  if hasPrefix = motrAddbPrefixSign then motrAddbRecGetString else return none

/-- The part of `mio_motr_addb_decode` that moves the cursor. -/
def motrAddbRecGetRec (timeStr : List Byte) : Cursor Fault MioTelemetryRec := do
  let magic ← motrAddbRecGet UInt16
  if magic ≠ motrAddbMagic then throw (.err (- EINVAL))
  let pre ← motrAddbRecGetPrefix
  let topic ← motrAddbRecGetString
  let typeU8 ← motrAddbRecGet UInt8
  let value ← motrAddbRecGetValue (.ofCode typeU8.toNat)
  return ⟨timeStr, pre, topic, value⟩

/-- `mio_motr_addb_decode`. The buffer and the head may be null pointers; the tail is
not used. -/
def mioMotrAddbDecode (buf : Option (List Byte)) (head : Option CStr) :
    Except Fault MioTelemetryRec :=
  match buf, head with
  | some buf, some head =>
    let timeStr := head.buf.take (strnlen mioMotrAddbMaxPayload head.buf + 1)
    (motrAddbRecGetRec timeStr).run' buf
  | _, _ => .error (.err (- EINVAL))

/-! ### The round trip -/

/-- The encoder's strings: a length and the bytes. -/
def addbStringBytes (s : CStr) : List Byte := wordBytes (UInt8.ofNat s.length) ++ s.bytes

theorem motrAddbRecAddString_eq (rec : List Byte) {s : CStr}
    (hs : s.length ≤ 119) :
    motrAddbRecAddString rec s = rec ++ addbStringBytes s := by
  have hlen : strnlen mioMotrAddbMaxPayload s.buf = s.length := by
    rw [strnlen_buf, Nat.min_eq_right (hs.trans (by decide))]
  rw [motrAddbRecAddString, hlen, CStr.length, List.take_length, motrAddbRecAdd,
    List.append_assoc, addbStringBytes, CStr.length]

/-- **A string is read back**, unless it is empty or too long. -/
theorem reads_motrAddbRecGetString {s : CStr} (hpos : 1 ≤ s.length) (hs : s.length ≤ 119) :
    Reads motrAddbRecGetString (addbStringBytes s) (some s) := by
  have hnat : (UInt8.ofNat s.length).toNat = s.length := by
    rw [UInt8.toNat_ofNat']
    exact Nat.mod_eq_of_lt (by omega)
  have hne : ¬ (UInt8.ofNat s.length = 0 ∨
      mioMotrAddbMaxPayload ≤ (UInt8.ofNat s.length).toNat) := by
    rw [hnat]
    rintro (h | h)
    · have h0 := congrArg UInt8.toNat h
      rw [hnat] at h0
      exact (Nat.lt_of_succ_le hpos).ne' h0
    · exact absurd (h.trans hs) (by decide)
  refine (reads_getWord Fault.oob _).bind ?_
  rw [if_neg hne, hnat]
  have h := (reads_getBytes Fault.oob s.bytes).map fun bytes => some (CStr.ofBuf bytes)
  rwa [CStr.ofBuf_bytes] at h

theorem foldl_motrAddbRecAdd {α : Type} [LeWord α] (elms : List α) (rec : List Byte) :
    elms.foldl motrAddbRecAdd rec = rec ++ elms.flatMap wordBytes := by
  induction elms generalizing rec with
  | nil => simp
  | cons x elms ih =>
    rw [List.foldl_cons, ih, motrAddbRecAdd, List.flatMap_cons, List.append_assoc]

/-- **An array is read back**: the decoder's limit on the count is the encoder's. -/
theorem reads_motrAddbRecGetArray {α : Type} [LeWord α] {rec rec' : List Byte}
    {arr : MioTelemetryArray α} (h : motrAddbRecAddArray rec arr = .ok rec') :
    ∃ bs, rec' = rec ++ bs ∧ Reads (motrAddbRecGetArray α) bs arr := by
  rw [motrAddbRecAddArray] at h
  by_cases hnr : arr.mtaNrElms ≤ 0 ∨
      ((mioMotrAddbMaxPayload / LeWord.width α : ℕ) : ℤ) ≤ arr.mtaNrElms
  · rw [if_pos hnr] at h
    cases h
  · rw [if_neg hnr, Except.ok.injEq] at h
    push Not at hnr
    rw [foldl_motrAddbRecAdd, motrAddbRecAdd, List.append_assoc] at h
    refine ⟨_, h.symm, ?_⟩
    have hmax : mioMotrAddbMaxPayload / LeWord.width α ≤ 120 := Nat.div_le_self _ _
    have hlen := arr.length_mtaElms
    have hnat : (UInt8.ofNat arr.mtaNrElms.toNat).toNat = arr.mtaElms.length := by
      rw [UInt8.toNat_ofNat', hlen]
      exact Nat.mod_eq_of_lt (by omega)
    refine (reads_getWord Fault.oob _).bind ?_
    rw [hnat, if_neg (by omega)]
    have helms := (reads_getMany (reads_getWord (α := α) Fault.oob) arr.mtaElms).map
      MioTelemetryArray.ofList
    rwa [MioTelemetryArray.ofList_mtaElms hnr.1.le] at helms

/-- **A value is read back**, under the type it was packed with. -/
theorem reads_motrAddbRecGetValue {rec rec' : List Byte} {value : MioTelemetryValue}
    (h : motrAddbRecAddValue rec value = .ok rec') :
    ∃ bs, rec' = rec ++ bs ∧ Reads (motrAddbRecGetValue value.mtrType) bs value := by
  cases value with
  | none => exact ⟨[], by simpa using (Except.ok.inj h).symm, Reads.pure _⟩
  | uint16 x => exact ⟨_, (Except.ok.inj h).symm, (reads_getWord .oob x).map _⟩
  | uint32 x => exact ⟨_, (Except.ok.inj h).symm, (reads_getWord .oob x).map _⟩
  | uint64 x => exact ⟨_, (Except.ok.inj h).symm, (reads_getWord .oob x).map _⟩
  | timespan x => exact ⟨_, (Except.ok.inj h).symm, (reads_getWord .oob x).map _⟩
  | timepoint x => exact ⟨_, (Except.ok.inj h).symm, (reads_getWord .oob x).map _⟩
  | arrayUint16 arr =>
    obtain ⟨bs, hbs, hreads⟩ := reads_motrAddbRecGetArray h
    exact ⟨bs, hbs, hreads.map _⟩
  | arrayUint32 arr =>
    obtain ⟨bs, hbs, hreads⟩ := reads_motrAddbRecGetArray h
    exact ⟨bs, hbs, hreads.map _⟩
  | arrayUint64 arr =>
    obtain ⟨bs, hbs, hreads⟩ := reads_motrAddbRecGetArray h
    exact ⟨bs, hbs, hreads.map _⟩
  | string s => cases h
  | invalid => cases h
  | other code => cases h

theorem ofCode_code (type : MioTelemetryType) : MioTelemetryType.ofCode type.code = type := by
  cases type <;> rfl

/-- A record that is packed has a type and a topic. -/
theorem exists_of_mioMotrAddbEncode {rec : MioTelemetryRec} {b : AddbBuf}
    (h : mioMotrAddbEncode rec = .ok b) :
    rec.mtrValue.mtrType.code < mioTmTypeNr ∧ motrAddbRecAddRec rec = .ok b.written := by
  rw [mioMotrAddbEncode] at h
  split at h
  · cases h
  · next htype =>
    obtain ⟨recLen, -, h⟩ := bind_eq_ok_iff.mp h
    split at h
    · cases h
    · obtain ⟨written, hwritten, h⟩ := bind_eq_ok_iff.mp h
      obtain rfl := Except.ok.inj h
      exact ⟨by omega, hwritten⟩

/-- **The prefix is read back**: the flag says whether there is one. -/
theorem reads_motrAddbRecGetPrefix {pre : Option CStr} (rec : List Byte)
    (hpre : ∀ s ∈ pre, 1 ≤ s.length ∧ s.length ≤ 119) :
    ∃ bs, motrAddbRecAddPrefix rec pre = rec ++ bs ∧ Reads motrAddbRecGetPrefix bs pre := by
  cases pre with
  | none =>
    refine ⟨wordBytes motrAddbNoPrefixSign, rfl, ?_⟩
    have h := (reads_getWord Fault.oob motrAddbNoPrefixSign).bind
      (f := fun hasPrefix => if hasPrefix = motrAddbPrefixSign then motrAddbRecGetString
        else return none) (Reads.pure none)
    rwa [List.append_nil] at h
  | some s =>
    obtain ⟨hpos, hlt⟩ := hpre s rfl
    refine ⟨wordBytes motrAddbPrefixSign ++ addbStringBytes s, ?_, ?_⟩
    · rw [motrAddbRecAddPrefix, motrAddbRecAddString_eq _ hlt, motrAddbRecAdd,
        List.append_assoc]
    · exact (reads_getWord Fault.oob motrAddbPrefixSign).bind
        (reads_motrAddbRecGetString hpos hlt)

/-- **The decoder goes through what the encoder has written.** -/
theorem reads_motrAddbRecGetRec {rec : MioTelemetryRec} {written : List Byte}
    (hpre : ∀ pre ∈ rec.mtrPrefix, 1 ≤ pre.length ∧ pre.length ≤ 119)
    (htopic : ∀ topic ∈ rec.mtrTopic, 1 ≤ topic.length ∧ topic.length ≤ 119)
    (htype : rec.mtrValue.mtrType.code < mioTmTypeNr)
    (h : motrAddbRecAddRec rec = .ok written) (timeStr : List Byte) :
    Reads (motrAddbRecGetRec timeStr) written { rec with mtrTimeStr := timeStr } := by
  obtain ⟨time, pre, topic, value⟩ := rec
  cases topic with
  | none => cases h
  | some topic =>
    obtain ⟨hpos, hlt⟩ := htopic topic rfl
    obtain ⟨bs, hbs, hvalue⟩ := reads_motrAddbRecGetValue h
    have hcode : (UInt8.ofNat value.mtrType.code).toNat = value.mtrType.code := by
      rw [UInt8.toNat_ofNat']
      exact Nat.mod_eq_of_lt (htype.trans (by decide))
    obtain ⟨ps, hps, hprefix⟩ := reads_motrAddbRecGetPrefix (motrAddbRecAdd [] motrAddbMagic) hpre
    -- what is written, in the order in which it is read
    rw [hbs, hps, motrAddbRecAddString_eq _ hlt, motrAddbRecAdd, motrAddbRecAdd,
      List.nil_append, List.append_assoc, List.append_assoc, List.append_assoc]
    refine (reads_getWord Fault.oob motrAddbMagic).bind ?_
    rw [if_neg (by decide)]
    refine hprefix.bind ((reads_motrAddbRecGetString hpos hlt).bind ?_)
    refine (reads_getWord Fault.oob _).bind ?_
    rw [hcode, ofCode_code]
    exact hvalue.map _

/-- **Records survive ADDB**: if what the encoder writes fits into the length it
reports, the decoder finds the prefix, the topic, the type and the value in that many
bytes, under any head. -/
theorem mioMotrAddbDecode_mioMotrAddbEncode {rec : MioTelemetryRec} {b : AddbBuf}
    (hpre : ∀ pre ∈ rec.mtrPrefix, 1 ≤ pre.length ∧ pre.length ≤ 119)
    (htopic : ∀ topic ∈ rec.mtrTopic, 1 ≤ topic.length ∧ topic.length ≤ 119)
    (h : mioMotrAddbEncode rec = .ok b) (hfit : b.written.length ≤ b.len) (head : CStr) :
    ∃ rec', mioMotrAddbDecode (some b.payload) (some head) = .ok rec' ∧
      rec'.mtrPrefix = rec.mtrPrefix ∧ rec'.mtrTopic = rec.mtrTopic ∧
      rec'.mtrValue = rec.mtrValue := by
  obtain ⟨htype, hwritten⟩ := exists_of_mioMotrAddbEncode h
  have hpayload : b.payload = b.written ++ List.replicate (b.len - b.written.length) 0 := by
    rw [AddbBuf.payload]
    refine List.take_of_length_le ?_
    rw [List.length_append, List.length_replicate]
    omega
  have hreads := reads_motrAddbRecGetRec hpre htopic htype hwritten
    (head.buf.take (strnlen mioMotrAddbMaxPayload head.buf + 1))
  have hdecode : mioMotrAddbDecode (some b.payload) (some head) = .ok
      { rec with mtrTimeStr := head.buf.take (strnlen mioMotrAddbMaxPayload head.buf + 1) } := by
    rw [hpayload, mioMotrAddbDecode, StateT.run'_eq, hreads]
    rfl
  exact ⟨_, hdecode, rfl, rfl, rfl⟩

/-- A record with a prefix and an array. -/
def addbArrayRec : MioTelemetryRec where
  mtrTimeStr := []
  mtrPrefix := some ⟨[0x6d, 0x69, 0x6f], by decide⟩
  mtrTopic := some ⟨[0x74], by decide⟩
  mtrValue := .arrayUint16 (.ofList [0x102, 0xffff])

/-- Its bytes, and the length of its payload. -/
def addbArrayBuf : AddbBuf where
  written := [0x2e, 0x20, 1, 3, 0x6d, 0x69, 0x6f, 1, 0x74, 8, 2, 2, 1, 0xff, 0xff]
  len := 16

/-- The record is packed into two words, and found there. -/
theorem mioMotrAddbDecode_addbArrayRec :
    mioMotrAddbEncode addbArrayRec = .ok addbArrayBuf ∧
      ∃ rec', mioMotrAddbDecode (some addbArrayBuf.payload) (some ⟨[0x30], by decide⟩) = .ok rec' ∧
        rec'.mtrPrefix = addbArrayRec.mtrPrefix ∧ rec'.mtrTopic = addbArrayRec.mtrTopic ∧
        rec'.mtrValue = addbArrayRec.mtrValue := by
  have henc : mioMotrAddbEncode addbArrayRec = .ok addbArrayBuf := by decide +kernel
  exact ⟨henc, mioMotrAddbDecode_mioMotrAddbEncode (by decide +kernel) (by decide +kernel) henc
    (by decide) _⟩

end CortxMio
