import CortxMio.Lib.CNumber
import CortxMio.Lib.Traced
import CortxMio.Telem.Log

/-!
# Decoding telemetry records of the log

The text of a record is taken apart with a cursor that is moved over blanks and to the
next blank, field by field (`CortxMio.mioTelemLogDecode`). Strings are cut off where the
field ends; numbers are copied to a local buffer, `val_str`, and read from there. Nothing
ends the text in this buffer, so that digits that it happens to hold behind the copy are
read as well; what it holds is a parameter here, and so is what the two other local
variables hold that may be used before they are set (`CortxMio.DecodeStack`).

The fields that are looked for, and what is found, are recorded in a trace
(`CortxMio.TelemCut`).
-/

namespace CortxMio

open Lib

/-! ### Fields -/

/-- The fields of a text. An element has a number and a place among all of its array,
and elements have a width. -/
inductive TelemField
  | sign
  | pre
  | topic
  | type
  | value
  | count
  | elm (nrElms width index : ℕ)
  deriving DecidableEq

/-- `nr_bytes`, a `uint16_t`. -/
def telemLogNrBytes (nrElms width : ℕ) : ℕ := nrElms * width % 2 ^ 16

/-- The number of a field is stored inside the memory that is there for it. -/
def TelemField.Inside : TelemField → Prop
  | elm nrElms width index => (index + 1) * width ≤ telemLogNrBytes nrElms width
  | _ => True

instance (field : TelemField) : Decidable field.Inside := by
  cases field <;> unfold TelemField.Inside <;> infer_instance

/-- A field that has been looked for. -/
structure TelemCut where
  /-- The field. -/
  field : TelemField
  /-- The type of the number; `string`, if it is not one. -/
  type : MioTelemetryType
  /-- Where the cursor was. -/
  start : List Byte
  /-- What was cut out. -/
  slice : List Byte
  /-- Where the field was found to end. -/
  stop : List Byte
  /-- The number that was stored. -/
  number : Option ℕ
  deriving DecidableEq

/-- A part of the decoder: its state is the cursor. -/
abbrev TelemScan (α : Type) := TraceM Fault (List Byte) TelemCut α

/-! ### Decoding -/

/-- What is on the stack when it has not been written to. -/
structure DecodeStack where
  /-- `has_prefix`. -/
  hasPrefix : UInt16
  /-- `nr_elms`. -/
  nrElms : UInt16
  /-- The bytes from `val_str` on, when the cursor is at a number. It is nowhere twice, so
  this is any contents for each of the numbers. -/
  valStr : List Byte → List Byte

/-- A stack of zeros. -/
def zeroDecodeStack : DecodeStack := ⟨0, 0, fun _ => []⟩

/-- `telem_log_rec_get_string`: the length is a `uint8_t`. -/
def telemLogRecGetString (field : TelemField) : TelemScan (List Byte) := do
  let start := (← get).state
  let cursor ← TraceM.lift (telemLogSkipDelimiter start)
  let endOfStr ← TraceM.lift (telemLogJumpToDelimiter cursor)
  let len := (cursor.length - endOfStr.length) % 256
  TraceM.record ⟨field, .string, start, cursor.take len, endOfStr, none⟩ (cursor.drop len)
  return cursor.take len

/-- The conversions of `telem_log_rec_get_scalar`. -/
def telemLogConvert (type : MioTelemetryType) (valStr : List Byte) : Option ℕ :=
  match type with
  | .uint16 => some (UInt16.ofInt (atoi valStr)).toNat
  | .uint32 => some (UInt32.ofInt (atoi valStr)).toNat
  | .uint64 | .timespan | .timepoint =>
    match scanDecimal valStr with
    | .ok (val, _) => some val.toNat
    | .error _ => none
  | _ => none

/-- What `telem_log_rec_get_scalar` makes of a value, which it copies to the start of
`val_str`. -/
def telemLogScalar (type : MioTelemetryType) (valStr val : List Byte) : Option ℕ :=
  if val.length = 0 ∨ 32 < val.length then none
  else telemLogConvert type (val ++ valStr.drop val.length)

section Decode

variable (stack : DecodeStack)

/-- `telem_log_rec_get_scalar`: the number that is stored, if there is one. -/
def telemLogRecGetScalar (field : TelemField) (type : MioTelemetryType) :
    TelemScan (Option ℕ) := do
  let cursor := (← get).state
  let endOfVal ← TraceM.lift (telemLogSkipDelimiter cursor)
  let endOfVal ← TraceM.lift (telemLogJumpToDelimiter endOfVal)
  let val := cursor.take (cursor.length - endOfVal.length)
  let number := telemLogScalar type (stack.valStr cursor) val
  TraceM.record ⟨field, type, cursor, val, endOfVal, number⟩ endOfVal
  if number.isSome ∧ ¬ field.Inside then throw .oob
  return number

/-- The types that `telem_log_rec_get_u16`, `_u32` and `_u64` ask for. -/
class TelemScalar (α : Type) extends LeWord α where
  /-- The type. -/
  type : MioTelemetryType

instance : TelemScalar UInt16 := ⟨.uint16⟩

instance : TelemScalar UInt32 := ⟨.uint32⟩

instance : TelemScalar UInt64 := ⟨.uint64⟩

/-- `telem_log_rec_get_u16`, `_u32` and `_u64`, which store to memory that holds a value
already. -/
def telemLogRecGet (α : Type) [TelemScalar α] (field : TelemField) (val : α) : TelemScan α := do
  let number ← telemLogRecGetScalar stack field (TelemScalar.type α)
  return number.elim val LeWord.ofNat

/-- The loop of `telem_log_rec_get_array`, with the elements that are left of it. Their
memory has been cleared. -/
def telemLogRecGetElms (α : Type) [TelemScalar α] (nrElms : ℕ) : ℕ → TelemScan (List α)
  | 0 => return []
  | left + 1 => do
    let elm ← telemLogRecGet stack α
      (.elm nrElms (LeWord.width α) (nrElms - (left + 1))) (LeWord.ofNat 0)
    let elms ← telemLogRecGetElms α nrElms left
    return elm :: elms

/-- `telem_log_rec_get_array`. -/
def telemLogRecGetArray (α : Type) [TelemScalar α] : TelemScan (MioTelemetryArray α) := do
  let nrElms ← telemLogRecGet stack UInt16 .count stack.nrElms
  let elms ← telemLogRecGetElms stack α nrElms.toNat nrElms.toNat
  return .ofList elms

/-- `telem_log_rec_get_value`. The types it has no branch for are turned down by
`mio_telemetry_alloc_value`, which clears the memory for the others. -/
def telemLogRecGetValue : MioTelemetryType → TelemScan MioTelemetryValue
  | .none => return .none
  | .uint16 => return .uint16 (← telemLogRecGet stack UInt16 .value 0)
  | .uint32 => return .uint32 (← telemLogRecGet stack UInt32 .value 0)
  | .uint64 => return .uint64 (← telemLogRecGet stack UInt64 .value 0)
  | .timespan => return .timespan (← telemLogRecGet stack UInt64 .value 0)
  | .timepoint => return .timepoint (← telemLogRecGet stack UInt64 .value 0)
  | .arrayUint16 => return .arrayUint16 (← telemLogRecGetArray stack UInt16)
  | .arrayUint32 => return .arrayUint32 (← telemLogRecGetArray stack UInt32)
  | .arrayUint64 => return .arrayUint64 (← telemLogRecGetArray stack UInt64)
  | .invalid | .string | .other _ => throw (.err (- EINVAL))

/-- The loop of `telem_log_rec_get_value_type`. -/
def telemTypeOfName (typeStr : List Byte) : Option MioTelemetryType :=
  ((List.range' 2 (mioTmTypeNr - 2)).map MioTelemetryType.ofCode).find? fun type =>
    telemDataTypeNames type == some (CStr.ofBuf typeStr).bytes

/-- `telem_log_rec_get_value_type`, as `mio_telem_log_decode` calls it: the code it returns
is dropped, and the type is then the invalid one. -/
def telemLogRecGetValueType : TelemScan MioTelemetryType := do
  let typeStr ← telemLogRecGetString .type
  return (telemTypeOfName typeStr).getD .invalid

/-- The part of `mio_telem_log_decode` that reads the prefix. -/
def telemLogRecGetPrefix : TelemScan (Option CStr) := do
  let hasPrefix ← telemLogRecGet stack UInt16 .sign stack.hasPrefix
  if hasPrefix = telemLogPrefixSign then
    let pre ← telemLogRecGetString .pre
    return some (.ofBuf pre)
  else return none

/-- The part of `mio_telem_log_decode` that moves the cursor. -/
def telemLogRecGetRec (timeStr : List Byte) : TelemScan MioTelemetryRec := do
  let pre ← telemLogRecGetPrefix stack
  let topic ← telemLogRecGetString .topic
  let type ← telemLogRecGetValueType
  let value ← telemLogRecGetValue stack type
  return ⟨timeStr, pre, some (.ofBuf topic), value⟩

/-- `mio_telem_log_decode`, with the memory from the text on. The buffer and the head may
be null pointers; the tail is not used. -/
def mioTelemLogDecode (buf : Option (List Byte)) (head : Option CStr) :
    EStateM.Result Fault (Traced (List Byte) TelemCut) MioTelemetryRec :=
  match buf, head with
  | some buf, some head =>
    telemLogRecGetRec stack (head.buf.take (strnlen mioLogMaxRecLen head.buf + 1)) ⟨buf, []⟩
  | _, _ => .error (.err (- EINVAL)) ⟨[], []⟩

theorem mioTelemLogDecode_some (buf : List Byte) (head : CStr) :
    mioTelemLogDecode stack (some buf) (some head) =
      telemLogRecGetRec stack (head.buf.take (strnlen mioLogMaxRecLen head.buf + 1))
        ⟨buf, []⟩ := rfl

end Decode

/-! ### Single fields -/

/-- What is looked for is put on record, whether it is there or not. -/
theorem telemLogRecGetString_eq (field : TelemField) {s : Traced (List Byte) TelemCut}
    {cursor stop : List Byte} (hskip : telemLogSkipDelimiter s.state = .ok cursor)
    (hjump : telemLogJumpToDelimiter cursor = .ok stop) :
    telemLogRecGetString field s =
      .ok (cursor.take ((cursor.length - stop.length) % 256))
        ⟨cursor.drop ((cursor.length - stop.length) % 256), s.trace ++
          [⟨field, .string, s.state, cursor.take ((cursor.length - stop.length) % 256), stop,
            none⟩]⟩ := by
  rw [telemLogRecGetString, TraceM.get_bind, TraceM.lift_bind_of_ok hskip,
    TraceM.lift_bind_of_ok hjump]
  rfl

theorem telemLogRecGetScalar_eq (stack : DecodeStack) (field : TelemField)
    (type : MioTelemetryType) {s : Traced (List Byte) TelemCut} {cursor stop : List Byte}
    (hskip : telemLogSkipDelimiter s.state = .ok cursor)
    (hjump : telemLogJumpToDelimiter cursor = .ok stop) :
    telemLogRecGetScalar stack field type s =
      let val := s.state.take (s.state.length - stop.length)
      let number := telemLogScalar type (stack.valStr s.state) val
      let s' := ⟨stop, s.trace ++ [⟨field, type, s.state, val, stop, number⟩]⟩
      if number.isSome ∧ ¬ field.Inside then .error .oob s' else .ok number s' := by
  rw [telemLogRecGetScalar, TraceM.get_bind, TraceM.lift_bind_of_ok hskip,
    TraceM.lift_bind_of_ok hjump]
  dsimp only
  rw [TraceM.record_bind]
  split <;> rfl

/-- Where a field is looked for: it is found, or memory ends before it does. -/
theorem lookup_cases (state : List Byte) :
    (∃ cursor stop, telemLogSkipDelimiter state = .ok cursor ∧
      telemLogJumpToDelimiter cursor = .ok stop) ∨
    telemLogSkipDelimiter state = .error .oob ∨
    ∃ cursor, telemLogSkipDelimiter state = .ok cursor ∧
      telemLogJumpToDelimiter cursor = .error .oob := by
  have hskip : ∀ e, telemLogSkipDelimiter state = .error e → e = .oob := by
    intro e h
    rw [telemLogSkipDelimiter] at h
    split at h <;> cases h
    rfl
  have hjump : ∀ cursor e, telemLogJumpToDelimiter cursor = .error e → e = .oob := by
    intro cursor e h
    rw [telemLogJumpToDelimiter] at h
    split at h <;> cases h
    rfl
  cases hc : telemLogSkipDelimiter state with
  | error e => exact .inr (.inl (congrArg Except.error (hskip e hc)))
  | ok cursor =>
    cases hs : telemLogJumpToDelimiter cursor with
    | error e =>
      exact .inr (.inr ⟨cursor, rfl, hs.trans (congrArg Except.error (hjump cursor e hs))⟩)
    | ok stop => exact .inl ⟨cursor, stop, rfl, hs⟩

theorem telemLogRecGetString_oob (field : TelemField) {s : Traced (List Byte) TelemCut}
    (h : telemLogSkipDelimiter s.state = .error .oob ∨
      ∃ cursor, telemLogSkipDelimiter s.state = .ok cursor ∧
        telemLogJumpToDelimiter cursor = .error .oob) :
    telemLogRecGetString field s = .error .oob s := by
  rw [telemLogRecGetString, TraceM.get_bind]
  rcases h with hskip | ⟨cursor, hskip, hjump⟩
  · rw [TraceM.lift_bind_of_error hskip]
  · rw [TraceM.lift_bind_of_ok hskip, TraceM.lift_bind_of_error hjump]

theorem telemLogRecGetScalar_oob (stack : DecodeStack) (field : TelemField)
    (type : MioTelemetryType) {s : Traced (List Byte) TelemCut}
    (h : telemLogSkipDelimiter s.state = .error .oob ∨
      ∃ cursor, telemLogSkipDelimiter s.state = .ok cursor ∧
        telemLogJumpToDelimiter cursor = .error .oob) :
    telemLogRecGetScalar stack field type s = .error .oob s := by
  rw [telemLogRecGetScalar, TraceM.get_bind]
  rcases h with hskip | ⟨cursor, hskip, hjump⟩
  · rw [TraceM.lift_bind_of_error hskip]
  · rw [TraceM.lift_bind_of_ok hskip, TraceM.lift_bind_of_error hjump]

theorem grows_telemLogRecGetString (field : TelemField) : Grows (telemLogRecGetString field) :=
  .bind .get fun _ => .bind (.lift _) fun _ => .bind (.lift _) fun _ => .bind (.record _ _) fun _ =>
    .pure _

theorem grows_telemLogRecGetScalar (stack : DecodeStack) (field : TelemField)
    (type : MioTelemetryType) : Grows (telemLogRecGetScalar stack field type) := by
  refine .bind .get fun _ => .bind (.lift _) fun _ => .bind (.lift _) fun _ =>
    .bind (.record _ _) fun _ => ?_
  dsimp only
  split
  · exact .throw _
  · exact .pure _

/-! ### The decoder from its fields -/

/-- The types of which a value is read. -/
def MioTelemetryType.IsReadable : MioTelemetryType → Prop
  | .invalid | .string | .other _ => False
  | _ => True

section Watched

variable {stack : DecodeStack} {I : List Byte → Prop} {pre post : TelemCut → Prop}
  {harm : Fault → Prop}
  (hscalar : ∀ field type, field ≠ .type →
    Watched I pre post harm (telemLogRecGetScalar stack field type))

include hscalar

theorem watched_telemLogRecGet (α : Type) [TelemScalar α] {field : TelemField}
    (hfield : field ≠ .type) (val : α) :
    Watched I pre post harm (telemLogRecGet stack α field val) :=
  (hscalar field _ hfield).bind fun _ => .pure _

theorem watched_telemLogRecGetElms (α : Type) [TelemScalar α] (nrElms left : ℕ) :
    Watched I pre post harm (telemLogRecGetElms stack α nrElms left) := by
  induction left with
  | zero => exact .pure _
  | succ left ih =>
    exact (watched_telemLogRecGet hscalar α (by nofun) _).bind fun _ => ih.bind fun _ => .pure _

theorem watched_telemLogRecGetArray (α : Type) [TelemScalar α] :
    Watched I pre post harm (telemLogRecGetArray stack α) :=
  (watched_telemLogRecGet hscalar UInt16 (by nofun) _).bind fun _ =>
    (watched_telemLogRecGetElms hscalar α _ _).bind fun _ => .pure _

theorem watched_telemLogRecGetValue {type : MioTelemetryType}
    (htype : type.IsReadable ∨ ¬ harm (.err (- EINVAL))) :
    Watched I pre post harm (telemLogRecGetValue stack type) := by
  cases type with
  | none => exact .pure _
  | uint16 | uint32 | uint64 | timespan | timepoint =>
    exact (watched_telemLogRecGet hscalar _ (by nofun) _).bind fun _ => .pure _
  | arrayUint16 | arrayUint32 | arrayUint64 =>
    exact (watched_telemLogRecGetArray hscalar _).bind fun _ => .pure _
  | invalid | string | other => exact .throw (htype.resolve_left id)

theorem watched_telemLogRecGetPrefix (hpre : Watched I pre post harm (telemLogRecGetString .pre)) :
    Watched I pre post harm (telemLogRecGetPrefix stack) := by
  refine (watched_telemLogRecGet hscalar UInt16 (by nofun) _).bind fun hasPrefix => ?_
  split
  · exact hpre.bind fun _ => .pure _
  · exact .pure _

/-- **The decoder is watched** if its fields are. -/
theorem watched_telemLogRecGetRec
    (hstring : ∀ field, Watched I pre post harm (telemLogRecGetString field))
    (hcode : ¬ harm (.err (- EINVAL))) (timeStr : List Byte) :
    Watched I pre post harm (telemLogRecGetRec stack timeStr) :=
  (watched_telemLogRecGetPrefix hscalar (hstring _)).bind fun _ => (hstring _).bind fun _ =>
    ((hstring _).bind fun _ => .pure _).bind fun _ =>
      (watched_telemLogRecGetValue hscalar (.inr hcode)).bind fun _ => .pure _

end Watched

section Grows

variable (stack : DecodeStack)

theorem grows_telemLogRecGetElms (α : Type) [TelemScalar α] (nrElms left : ℕ) :
    Grows (telemLogRecGetElms stack α nrElms left) :=
  (watched_telemLogRecGetElms
    (fun field type _ => .of_grows (grows_telemLogRecGetScalar stack field type)) α nrElms
      left).grows

theorem grows_telemLogRecGetValue (type : MioTelemetryType) :
    Grows (telemLogRecGetValue stack type) :=
  (watched_telemLogRecGetValue
    (fun field type _ => .of_grows (grows_telemLogRecGetScalar stack field type)) (.inr id)).grows

end Grows

end CortxMio
