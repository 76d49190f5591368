import CortxMio.Pool.Hotness

/-!
# Placing an object by its hotness

The pool of an object of some hotness is looked for in two ways: to decide whether the
object has to be moved, its hotness is asked for a pool; to move it, a new object is
created with the hotness as a hint. The two agree, and a second move finds nothing to
do, but for a hotness of zero (`CortxMio.objCreatePoolId_hotness`). Zero is
`MIO_HINT_VALUE_NULL`, and a hint of this value counts as one that is not set, so the
object is created as if there were no hints.
-/

namespace CortxMio

open Lib

/-- Hints that hold nothing but a hotness. -/
structure MioHintMap.OnlyHotness (hints : MioHintMap) (hotness : UInt64) : Prop where
  /-- The arrays are in place. -/
  inPlace : hints.InPlace
  /-- What is in use of them. -/
  pairs : hints.pairs = [(mioHintObjHotIndex, hotness)]

section OnlyHotness

variable {hints : MioHintMap} {hotness : UInt64} (h : hints.OnlyHotness hotness)

include h

theorem MioHintMap.OnlyHotness.get_hotness :
    mioHintMapGet hints mioHintObjHotIndex = .ok hotness := by
  rw [mioHintMapGet_eq h.inPlace, MioHintMap.lookup, h.pairs]
  rfl

theorem MioHintMap.OnlyHotness.isSet_hotness :
    mioHintIsSet hints mioHintObjHotIndex = decide (hotness ≠ mioHintValueNull) := by
  rw [mioHintIsSet, h.get_hotness]

theorem MioHintMap.OnlyHotness.isSet_where : mioHintIsSet hints mioHintObjWhere = false := by
  rw [mioHintIsSet, mioHintMapGet_eq h.inPlace, MioHintMap.lookup, h.pairs]
  rfl

end OnlyHotness

/-- The hints that `mio_cmd_obj_copy` creates an object with. -/
def hotnessHints (hotness : UInt64) : MioHintMap :=
  (mioHintMapInit mioObjHintNum).store mioHintObjHotIndex hotness

end CortxMio
