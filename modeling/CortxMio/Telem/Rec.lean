import CortxMio.Basic
import CortxMio.Lib.CString

/-!
# Telemetry records

A data point of the telemetry interface has a topic, an optional prefix, and a value
of one of a few types. In C the value is an untyped pointer next to a type code; here
the two are one, so that a value cannot be under the wrong type
(`CortxMio.MioTelemetryValue`).
-/

namespace CortxMio

open Lib

/-- `enum mio_telemetry_type`. -/
inductive MioTelemetryType
  | invalid
  | none
  | uint16
  | uint32
  | uint64
  | timespan
  | timepoint
  | string
  | arrayUint16
  | arrayUint32
  | arrayUint64
  /-- A number that is the code of no type. -/
  | other (code : ℕ)
  deriving DecidableEq, Repr

/-- `MIO_TM_TYPE_NR`. -/
abbrev mioTmTypeNr : ℕ := 11

/-- The number of a type. -/
def MioTelemetryType.code : MioTelemetryType → ℕ
  | invalid => 0
  | none => 1
  | uint16 => 2
  | uint32 => 3
  | uint64 => 4
  | timespan => 5
  | timepoint => 6
  | string => 7
  | arrayUint16 => 8
  | arrayUint32 => 9
  | arrayUint64 => 10
  | other code => code + mioTmTypeNr

/-- The type of a number. -/
def MioTelemetryType.ofCode : ℕ → MioTelemetryType
  | 0 => invalid
  | 1 => none
  | 2 => uint16
  | 3 => uint32
  | 4 => uint64
  | 5 => timespan
  | 6 => timepoint
  | 7 => string
  | 8 => arrayUint16
  | 9 => arrayUint32
  | 10 => arrayUint64
  | code + 11 => other code

/-- `struct mio_telemetry_array`: a count and the elements it covers. -/
structure MioTelemetryArray (α : Type) where
  /-- The count, an `int`. -/
  mtaNrElms : ℤ
  /-- The elements. -/
  mtaElms : List α
  /-- None are covered by a negative count. -/
  length_mtaElms : mtaElms.length = mtaNrElms.toNat
  deriving DecidableEq

/-- The array of a list. -/
def MioTelemetryArray.ofList {α : Type} (elms : List α) : MioTelemetryArray α where
  mtaNrElms := elms.length
  mtaElms := elms
  length_mtaElms := (Int.toNat_natCast _).symm

theorem MioTelemetryArray.ofList_injective {α : Type} :
    Function.Injective (ofList : List α → MioTelemetryArray α) :=
  fun _ _ h => congrArg mtaElms h

/-- An array is its elements, unless its count is negative. -/
theorem MioTelemetryArray.ofList_mtaElms {α : Type} {arr : MioTelemetryArray α}
    (h : 0 ≤ arr.mtaNrElms) : ofList arr.mtaElms = arr := by
  obtain ⟨nr, elms, hlen⟩ := arr
  have hnr : (elms.length : ℤ) = nr := by
    rw [hlen]
    exact Int.toNat_of_nonneg h
  subst hnr
  rfl

/-- `mtr_type` and what `mtr_value` points to. -/
inductive MioTelemetryValue
  /-- No value is attached. -/
  | none
  | uint16 (x : UInt16)
  | uint32 (x : UInt32)
  | uint64 (x : UInt64)
  | timespan (x : UInt64)
  | timepoint (x : UInt64)
  | string (s : CStr)
  | arrayUint16 (arr : MioTelemetryArray UInt16)
  | arrayUint32 (arr : MioTelemetryArray UInt32)
  | arrayUint64 (arr : MioTelemetryArray UInt64)
  /-- Anything, under `MIO_TM_TYPE_INVALID`. -/
  | invalid
  /-- Anything, under the code of no type. -/
  | other (code : ℕ)
  deriving DecidableEq

/-- `mtr_type`. -/
def MioTelemetryValue.mtrType : MioTelemetryValue → MioTelemetryType
  | none => .none
  | uint16 _ => .uint16
  | uint32 _ => .uint32
  | uint64 _ => .uint64
  | timespan _ => .timespan
  | timepoint _ => .timepoint
  | string _ => .string
  | arrayUint16 _ => .arrayUint16
  | arrayUint32 _ => .arrayUint32
  | arrayUint64 _ => .arrayUint64
  | invalid => .invalid
  | other code => .other code

/-- `struct mio_telemetry_rec`. Its pointers may be null. -/
structure MioTelemetryRec where
  /-- The buffer with the time, once a record is decoded. -/
  mtrTimeStr : List Byte
  /-- The prefix. -/
  mtrPrefix : Option CStr
  /-- The topic. -/
  mtrTopic : Option CStr
  /-- The type and the value. -/
  mtrValue : MioTelemetryValue
  deriving DecidableEq

end CortxMio
