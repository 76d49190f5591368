import CortxMio.Telem.Addb

/-!
# Advertising a data point

The telemetry interface hands a data point to the backend that was selected, which
packs and stores it (`CortxMio.telemetryDoAdvertise`). A list of numbers is made an
array first (`CortxMio.telemetryDoArrayAdvertise`).
-/

namespace CortxMio

open Lib

variable {β γ : Type}

/-- `struct mio_telemetry_rec_ops`, as far as records are stored: `β` is what a record
is packed into, `γ` what is stored. A backend may lack a function. -/
structure MioTelemetryRecOps (β γ : Type) where
  /-- `mtro_encode`. -/
  mtroEncode : Option (MioTelemetryRec → Except Fault β)
  /-- `mtro_store`. -/
  mtroStore : Option (β → Except Fault γ)

/-- `telemetry_do_advertise`, under `mio_telem_rec_ops` and `mio_telem_conf`: what is
stored. -/
def telemetryDoAdvertise (mioTelemRecOps : Option (MioTelemetryRecOps β γ))
    (mtcPrefix : Option CStr) (withPrefix : Bool) (topic : Option CStr)
    (value : MioTelemetryValue) : Except Fault (List γ) :=
  match mioTelemRecOps with
  -- no telemetry store is selected
  | none => .ok []
  | some ⟨some encode, some store⟩ => do
    let buf ← encode ⟨[], if withPrefix then mtcPrefix else none, topic, value⟩
    let stored ← store buf
    return [stored]
  | some _ => .error (.err (- EOPNOTSUPP))

/-- `mio_telemetry_advertise`. -/
def mioTelemetryAdvertise (mioTelemRecOps : Option (MioTelemetryRecOps β γ))
    (mtcPrefix topic : Option CStr) (value : MioTelemetryValue) : Except Fault (List γ) :=
  telemetryDoAdvertise mioTelemRecOps mtcPrefix true topic value

/-- `mio_telemetry_advertise_noprefix`. -/
def mioTelemetryAdvertiseNoprefix (mioTelemRecOps : Option (MioTelemetryRecOps β γ))
    (mtcPrefix topic : Option CStr) (value : MioTelemetryValue) : Except Fault (List γ) :=
  telemetryDoAdvertise mioTelemRecOps mtcPrefix false topic value

/-- `MIO_TM_ARRAY_MAX_NR_ELMS`. -/
abbrev mioTmArrayMaxNrElms : ℤ := 32

/-- `telemetry_array_alloc`, and the loop that fetches the elements from the variable
arguments. The size of an array with a negative count is beyond any memory. -/
def telemetryArrayFetch {α : Type} [LeWord α] (nrElms : ℤ) (valist : ℕ → UInt64) :
    Except Fault (MioTelemetryArray α) :=
  if toInt32 (LeWord.width α * nrElms) < 0 then .error (.err (- ENOMEM))
  else .ok ⟨nrElms, (List.range nrElms.toNat).map fun i => LeWord.ofNat (valist i).toNat,
    by rw [List.length_map, List.length_range]⟩

/-- The part of `telemetry_do_array_advertise` that makes the value. -/
def telemetryArrayValue (type : MioTelemetryType) (nrElms : ℤ) (valist : ℕ → UInt64) :
    Except Fault MioTelemetryValue :=
  match type with
  | .arrayUint64 => (telemetryArrayFetch nrElms valist).map .arrayUint64
  | .arrayUint32 => (telemetryArrayFetch nrElms valist).map .arrayUint32
  | .arrayUint16 => (telemetryArrayFetch nrElms valist).map .arrayUint16
  | _ => .error (.err (- EINVAL))

/-- `telemetry_do_array_advertise`. It drops the code of `telemetry_do_advertise`. -/
def telemetryDoArrayAdvertise (mioTelemRecOps : Option (MioTelemetryRecOps β γ))
    (mtcPrefix : Option CStr) (withPrefix : Bool) (topic : Option CStr)
    (type : MioTelemetryType) (nrElms : ℤ) (valist : ℕ → UInt64) : Except Fault (List γ) :=
  match mioTelemRecOps with
  | none => .ok []
  | some ⟨some encode, some store⟩ =>
    if mioTmArrayMaxNrElms < nrElms then .error (.err (- EINVAL))
    else do
      let array ← telemetryArrayValue type nrElms valist
      ignoreRc [] (telemetryDoAdvertise (some ⟨some encode, some store⟩) mtcPrefix withPrefix
        topic array)
  | some _ => .error (.err (- EOPNOTSUPP))

/-- `mio_telemetry_array_advertise`. -/
def mioTelemetryArrayAdvertise (mioTelemRecOps : Option (MioTelemetryRecOps β γ))
    (mtcPrefix topic : Option CStr) (type : MioTelemetryType) (nrElms : ℤ)
    (valist : ℕ → UInt64) : Except Fault (List γ) :=
  telemetryDoArrayAdvertise mioTelemRecOps mtcPrefix true topic type nrElms valist

/-- `mio_telemetry_array_advertise_noprefix`. -/
def mioTelemetryArrayAdvertiseNoprefix (mioTelemRecOps : Option (MioTelemetryRecOps β γ))
    (mtcPrefix topic : Option CStr) (type : MioTelemetryType) (nrElms : ℤ)
    (valist : ℕ → UInt64) : Except Fault (List γ) :=
  telemetryDoArrayAdvertise mioTelemRecOps mtcPrefix false topic type nrElms valist

/-- `mio_motr_addb_rec_ops`, as far as records are stored. -/
def mioMotrAddbRecOps (mioMotrAddbId : UInt64) : MioTelemetryRecOps AddbBuf M0Addb2Add where
  mtroEncode := some mioMotrAddbEncode
  mtroStore := some fun buf => .ok (mioMotrAddbStore mioMotrAddbId buf)

/-- **What an advertised record stores** is what it was packed into. -/
theorem exists_of_telemetryDoAdvertise {id : UInt64} {pre : Option CStr} {withPrefix : Bool}
    {topic : Option CStr} {value : MioTelemetryValue} {adds : List M0Addb2Add}
    (h : telemetryDoAdvertise (some (mioMotrAddbRecOps id)) pre withPrefix topic value =
      .ok adds) :
    ∃ b, mioMotrAddbEncode ⟨[], if withPrefix then pre else none, topic, value⟩ = .ok b ∧
      adds = [mioMotrAddbStore id b] := by
  obtain ⟨b, hb, h⟩ := bind_eq_ok_iff.mp h
  exact ⟨b, hb, (Except.ok.inj h).symm⟩

/-- What is left after a call whose code is dropped was there before, or is the result. -/
theorem eq_or_of_ignoreRc {α : Type} {old a : α} {r : Except Fault α}
    (h : ignoreRc old r = .ok a) : a = old ∨ r = .ok a := by
  cases r with
  | ok b => exact Or.inr h
  | error e =>
    cases e with
    | err rc => exact Or.inl (Except.ok.inj h).symm
    | _ => cases h

/-- An array is stored as any other value is, or not at all. -/
theorem exists_of_telemetryDoArrayAdvertise {id : UInt64} {pre : Option CStr}
    {withPrefix : Bool} {topic : Option CStr} {type : MioTelemetryType} {nrElms : ℤ}
    {valist : ℕ → UInt64} {adds : List M0Addb2Add}
    (h : telemetryDoArrayAdvertise (some (mioMotrAddbRecOps id)) pre withPrefix topic type
      nrElms valist = .ok adds) :
    adds = [] ∨ ∃ value, telemetryArrayValue type nrElms valist = .ok value ∧
      telemetryDoAdvertise (some (mioMotrAddbRecOps id)) pre withPrefix topic value =
        .ok adds := by
  simp only [telemetryDoArrayAdvertise, mioMotrAddbRecOps] at h
  split at h
  · cases h
  · obtain ⟨value, hvalue, h⟩ := bind_eq_ok_iff.mp h
    exact (eq_or_of_ignoreRc h).imp_right fun h => ⟨value, hvalue, h⟩

end CortxMio
