import CortxMio.Lib.LittleEndian
import CortxMio.Basic

/-!
# Object identifiers

An identifier of MIO is 16 bytes, one of Motr a pair of 64-bit numbers. The
driver goes from one to the other by reading each half as a big-endian number;
nothing is lost on the way (`CortxMio.mioUint128ToObjId_objIdToUint128`).
-/

namespace CortxMio

open Lib

/-- `MIO_OBJ_ID_LEN`. -/
abbrev mioObjIdLen : ℕ := 16

/-- `struct mio_obj_id`. -/
structure MioObjId where
  /-- The bytes. -/
  moiBytes : List Byte
  /-- Their number. -/
  length_moiBytes : moiBytes.length = mioObjIdLen
  deriving DecidableEq

/-- `struct m0_uint128`. -/
structure M0Uint128 where
  /-- The high half. -/
  uHi : UInt64
  /-- The low half. -/
  uLo : UInt64
  deriving DecidableEq, Repr

/-- `mio_byteorder_be64_to_cpu` of eight bytes of memory. -/
def mioByteorderBe64ToCpu (bytes : List Byte) : UInt64 := UInt64.ofNat (leNat bytes.reverse)

/-- The eight bytes of memory of a `mio_byteorder_cpu_to_be64`. -/
def mioByteorderCpuToBe64 (x : UInt64) : List Byte := (leBytes 8 x.toNat).reverse

/-- `mio__obj_id_to_uint128`. -/
def mioObjIdToUint128 (oid : MioObjId) : M0Uint128 where
  uHi := mioByteorderBe64ToCpu (oid.moiBytes.take 8)
  uLo := mioByteorderBe64ToCpu (oid.moiBytes.drop 8)

/-- `mio__uint128_to_obj_id`. -/
def mioUint128ToObjId (u : M0Uint128) : MioObjId where
  moiBytes := mioByteorderCpuToBe64 u.uHi ++ mioByteorderCpuToBe64 u.uLo
  length_moiBytes := by simp [mioByteorderCpuToBe64]

theorem mioByteorderBe64ToCpu_cpuToBe64 (x : UInt64) :
    mioByteorderBe64ToCpu (mioByteorderCpuToBe64 x) = x := by
  rw [mioByteorderBe64ToCpu, mioByteorderCpuToBe64, List.reverse_reverse,
    leNat_leBytes (lt_of_lt_of_eq x.toNat_lt (by norm_num)), UInt64.ofNat_toNat]

theorem mioByteorderCpuToBe64_be64ToCpu {bytes : List Byte} (h : bytes.length = 8) :
    mioByteorderCpuToBe64 (mioByteorderBe64ToCpu bytes) = bytes := by
  have hlen : bytes.reverse.length = 8 := by rw [List.length_reverse, h]
  have hlt : leNat bytes.reverse < 2 ^ 64 := by
    have := leNat_lt bytes.reverse
    rw [hlen] at this
    exact lt_of_lt_of_eq this (by norm_num)
  rw [mioByteorderCpuToBe64, mioByteorderBe64ToCpu, UInt64.toNat_ofNat_of_lt' hlt, ← hlen,
    leBytes_leNat, List.reverse_reverse]

/-- **An identifier comes back from Motr as it was given to it.** -/
theorem mioUint128ToObjId_objIdToUint128 (oid : MioObjId) :
    mioUint128ToObjId (mioObjIdToUint128 oid) = oid := by
  obtain ⟨bytes, hlen⟩ := oid
  have hlen' : bytes.length = 16 := hlen
  have h1 : (bytes.take 8).length = 8 := by rw [List.length_take, hlen']; rfl
  have h2 : (bytes.drop 8).length = 8 := by rw [List.length_drop, hlen']
  simp only [mioUint128ToObjId, mioObjIdToUint128, mioByteorderCpuToBe64_be64ToCpu h1,
    mioByteorderCpuToBe64_be64ToCpu h2, List.take_append_drop]

theorem mioObjIdToUint128_injective : Function.Injective mioObjIdToUint128 :=
  Function.LeftInverse.injective mioUint128ToObjId_objIdToUint128

end CortxMio
