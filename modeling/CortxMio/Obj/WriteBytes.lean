import CortxMio.Obj.PlanExec

/-!
# The bytes a write leaves

The final bytes of a write are those of its plan (`CortxMio.planBytes`), executed
with the vectors of the *first* read-before-write op read. A write does what it
should, which is to overwrite its ranges (`CortxMio.writeRanges`), if the first
read-before-write op reads all there is to be read and a page that is not read
because it lies beyond the size of the object is zero
(`CortxMio.bytesEnd_eq_writeRanges`). Whatever the first op reads, bytes beyond
the new size are zero if bytes beyond the old one were
(`CortxMio.bytesEnd_eq_zero`).
-/

namespace CortxMio

open Lib

variable {obj : MioObj} {max : ℕ} {app : ℕ → Byte} {iov : List (MioIovec ℕ)} {bytes : ℕ → Byte}

/-- A read-before-write vector that reads anything is that of its page. -/
theorem readsPages_rbw : ReadsPages obj max iov (writeCtx obj max app iov bytes).rbw := by
  intro r hr hlen
  obtain ⟨q, hq, hrq⟩ := mem_rbwKept hr
  rcases hrq with rfl | ⟨rfl, -⟩
  · exact ⟨q, (List.mem_filter.mp hq).1, rfl⟩
  · exact absurd hlen (lt_irrefl 0)

theorem readsPages_first : ReadsPages obj max iov
    ((writeCtx obj max app iov bytes).rbw.take (writeCtx obj max app iov bytes).cnt) :=
  fun r hr => readsPages_rbw r (List.mem_of_mem_take hr)

/-- The final bytes are those of the plan. -/
theorem bytesEnd_eq_planBytes : (writeCtx obj max app iov bytes).bytesEnd =
    planBytes obj max app iov bytes
      ((writeCtx obj max app iov bytes).rbw.take (writeCtx obj max app iov bytes).cnt)
      (writeCtx obj max app iov bytes).bytesRbw := rfl

section Bytes

variable (hpos : 0 < max) (hord : InOrder (writeSorted iov))

include hpos hord

theorem own_of_piece {p : Piece} (hp : p ∈ reqPieces obj true iov) {x : ℕ} (hx : p.Has x) :
    (writeCtx obj max app iov bytes).Own x :=
  planHas_of_piece hpos hord hp hx

/-- **A write whose first op reads all there is to be read overwrites its
ranges**, on its pages, if pages that it does not read because they lie beyond the
size are zero. -/
theorem bytesEnd_eq_writeRanges
    (hzero : ∀ q ∈ writePages obj max iov, obj.size ≤ q * motrObjIoPagesize obj →
      ∀ x, q * motrObjIoPagesize obj ≤ x → bytes x = 0)
    (hcnt : (writeCtx obj max app iov bytes).rbw.length ≤ (writeCtx obj max app iov bytes).cnt)
    {x : ℕ} (hown : (writeCtx obj max app iov bytes).Own x) :
    (writeCtx obj max app iov bytes).bytesEnd x = writeRanges app iov bytes x := by
  rw [bytesEnd_eq_planBytes]
  refine planBytes_eq_writeRanges readsPages_first hpos hord hzero (fun q hq hsize => ?_) hown
  rw [List.take_of_length_le hcnt]
  exact exists_mem_rbwKept (List.mem_filter.mpr ⟨hq, by simpa using hsize⟩)

/-- **Bytes beyond the size stay zero**, whatever has been read. -/
theorem bytesEnd_eq_zero (hzero : ∀ x, obj.size ≤ x → bytes x = 0) {x : ℕ}
    (hown : (writeCtx obj max app iov bytes).Own x) (hsize : obj.size ≤ x)
    (hend : maxEnd iov ≤ x) : (writeCtx obj max app iov bytes).bytesEnd x = 0 := by
  rw [bytesEnd_eq_planBytes]
  exact planBytes_eq_zero readsPages_first hpos hord hzero hown hsize hend

end Bytes

end CortxMio
