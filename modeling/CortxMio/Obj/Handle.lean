import CortxMio.Hint.Map

/-!
# Object handles and their I/O geometry

The in-memory object handle (`struct mio_obj`) with the attributes that are
stored for the object, and the two numbers the I/O path takes from Motr: the
page size of the object and the largest amount of data one op may carry.
-/

namespace CortxMio

/-! ### Handles -/

/-- `struct mio_obj_stats`. -/
structure MioObjStats where
  /-- Number of reads. -/
  mosRcount : UInt64
  /-- Bytes read. -/
  mosRbytes : UInt64
  /-- Time of the last read. -/
  mosRtime : UInt64
  /-- Number of writes. -/
  mosWcount : UInt64
  /-- Bytes written. -/
  mosWbytes : UInt64
  /-- Time of the last write. -/
  mosWtime : UInt64
  deriving DecidableEq, Repr

/-- `struct mio_obj_attrs`: what is stored for an object, besides its data. -/
structure MioObjAttrs where
  /-- The size of the object. -/
  moaSize : UInt64
  /-- Access statistics. -/
  moaStats : MioObjStats
  /-- Persistent hints only. -/
  moaPhints : MioHintMap
  deriving DecidableEq, Repr

/-- `struct m0_pdclust_attr`, as far as it is read: the geometry of a pool. -/
structure M0PdclustAttr where
  /-- Data units of a parity group. -/
  paN : ℕ
  /-- Parity units of a parity group. -/
  paK : ℕ
  /-- Width of the pool. -/
  paP : ℕ
  deriving DecidableEq, Repr

/-- `struct m0_obj`, as far as it is read: the block shift, which keeps
`1 << oa_bshift` an `int`, and the geometry of the object's pool version, if
Motr knows one. -/
structure M0Obj where
  /-- Logarithm of the page size. -/
  oaBshift : ℕ
  /-- The pool version that `m0_pool_version_find` finds. -/
  oaPver : Option M0PdclustAttr
  /-- The page size is an `int`. -/
  oaBshift_lt : oaBshift < 31
  deriving DecidableEq

/-- An object with pages of 2 bytes, in a pool of one device. -/
def M0Obj.twoBytePages : M0Obj := ⟨1, some ⟨1, 0, 1⟩, by decide⟩

/-- `struct mio_obj`. -/
structure MioObj where
  /-- Hints of this session, persistent and not. -/
  moHints : MioHintMap
  /-- Whether the attributes have to be stored on close. -/
  moAttrsUpdated : Bool
  /-- The attributes. -/
  moAttrs : MioObjAttrs
  /-- The driver's object. -/
  moDrvObj : M0Obj
  deriving DecidableEq

/-- A handle in cleared memory, given the driver's object. -/
def MioObj.zeroed (drv : M0Obj) : MioObj :=
  ⟨.zeroed, false, ⟨0, ⟨0, 0, 0, 0, 0, 0⟩, .zeroed⟩, drv⟩

/-- `struct mio_motr_config`, as far as it is read. -/
structure MioMotrConfig where
  /-- The limit on the data sent to one device. -/
  mcMaxIosizePerDev : ℕ
  deriving DecidableEq, Repr

/-- The size of the object as the handle has it. -/
def MioObj.size (obj : MioObj) : ℕ := obj.moAttrs.moaSize.toNat

/-- Set the size of the object in the handle. -/
def MioObj.setSize (obj : MioObj) (n : ℕ) : MioObj :=
  { obj with moAttrs := { obj.moAttrs with moaSize := UInt64.ofNat n } }

theorem MioObj.size_setSize (obj : MioObj) {n : ℕ} (h : n < 2 ^ 64) : (obj.setSize n).size = n :=
  UInt64.toNat_ofNat_of_lt' h

/-! ### Page size and size of an op -/

/-- `motr_obj_io_pagesize`. -/
def motrObjIoPagesize (obj : MioObj) : ℕ := 1 <<< obj.moDrvObj.oaBshift

theorem motrObjIoPagesize_pos (obj : MioObj) : 0 < motrObjIoPagesize obj := by
  rw [motrObjIoPagesize, Nat.one_shiftLeft]
  exact Nat.two_pow_pos _

/-- `motr_obj_max_size_per_op`: the sum of the two `uint32_t` numbers of units
is taken in 32 bits. -/
def motrObjMaxSizePerOp (conf : MioMotrConfig) (obj : MioObj) : Except Fault ℕ :=
  match obj.moDrvObj.oaPver with
  | none => .error (.err (-EINVAL))
  | some pa =>
      if (pa.paN + pa.paK) % 2 ^ 32 = 0 then .error .divByZero
      else .ok (u64 (u64 (conf.mcMaxIosizePerDev * pa.paN) * pa.paP) /
        ((pa.paN + pa.paK) % 2 ^ 32))

end CortxMio
