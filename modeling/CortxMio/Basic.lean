import CortxMio.Lib.Blit
import Mathlib.Algebra.Order.Ring.Nat

/-!
# Machine-level vocabulary

What the C code of the library is written in: error numbers, 64-bit arithmetic,
pointers into the memory an operation can reach, and I/O vectors.

Unsigned 64-bit quantities are natural numbers, and every sum, difference or
product that the code computes in `uint64_t` goes through `CortxMio.u64`, so a
wrap-around is visible in the definitions. Memory is a function from pointers to
bytes; a pointer is an address of application memory or a position in one of the
extra pages that an operation allocates for itself, and the two never alias.
Allocations succeed.
-/

namespace CortxMio

open Lib

/-! ### Error numbers and abnormal ends -/

/-- `ENOENT`. -/
abbrev ENOENT : ℤ := 2

/-- `EIO`. -/
abbrev EIO : ℤ := 5

/-- `E2BIG`. -/
abbrev E2BIG : ℤ := 7

/-- `ENOMEM`. -/
abbrev ENOMEM : ℤ := 12

/-- `EEXIST`. -/
abbrev EEXIST : ℤ := 17

/-- `EINVAL`. -/
abbrev EINVAL : ℤ := 22

/-- `EOPNOTSUPP`. -/
abbrev EOPNOTSUPP : ℤ := 95

/-- How a function can end other than by returning success: with a negative
return code, or without returning at all. -/
inductive Fault
  /-- The function returns this negative code. -/
  | err (rc : ℤ)
  /-- An integer division by zero. -/
  | divByZero
  /-- A read or write outside an array. -/
  | oob
  /-- A failed assertion. -/
  | abort
  /-- A loop that is never left. -/
  | diverge
  deriving DecidableEq, Repr

/-- Call a function and drop its return code: a function that returns an error
has changed nothing, one that does not return takes the caller with it. -/
def ignoreRc {α : Type} (old : α) : Except Fault α → Except Fault α
  | .error (.err _) => .ok old
  | r => r

/-! ### 64-bit arithmetic -/

/-- The value of a `uint64_t` expression whose exact value is `n`. -/
def u64 (n : ℕ) : ℕ := n % 2 ^ 64

@[simp] theorem u64_of_lt {n : ℕ} (h : n < 2 ^ 64) : u64 n = n := Nat.mod_eq_of_lt h

theorem u64_lt (n : ℕ) : u64 n < 2 ^ 64 := Nat.mod_lt _ (by omega)

/-- Subtraction of `uint64_t` values. -/
def u64Sub (a b : ℕ) : ℕ := u64 (a + (2 ^ 64 - u64 b))

theorem u64Sub_of_le {a b : ℕ} (h : b ≤ a) (ha : a < 2 ^ 64) : u64Sub a b = a - b := by
  have hb : u64 b = b := u64_of_lt (by omega)
  rw [u64Sub, hb, show a + (2 ^ 64 - b) = (a - b) + 2 ^ 64 by omega, u64, Nat.add_mod_right]
  exact Nat.mod_eq_of_lt (by omega)

/-! ### Memory -/

/-- A byte. -/
abbrev Byte := UInt8

/-- A pointer: an address of the application's memory, or a position in the
`k`-th extra page of the operation at hand. -/
inductive Ptr
  /-- An address of application memory. -/
  | app (addr : ℕ)
  /-- A position in an extra page. -/
  | page (k j : ℕ)
  deriving DecidableEq, Repr

/-- Pointer arithmetic stays inside its region. -/
def Ptr.add : Ptr → ℕ → Ptr
  | .app a, i => .app (a + i)
  | .page k j, i => .page k (j + i)

/-- The distance from a base pointer to a pointer of the same region. -/
def Ptr.pos : Ptr → Ptr → Option ℕ
  | .app b, .app a => if b ≤ a then some (a - b) else none
  | .page k j, .page k' j' => if k = k' ∧ j ≤ j' then some (j' - j) else none
  | _, _ => none

instance : Addr Ptr where
  shift := Ptr.add
  pos := Ptr.pos
  pos_eq_some {b a i} := by
    cases b <;> cases a <;> simp only [Ptr.pos, Ptr.add, Ptr.app.injEq, Ptr.page.injEq,
      reduceCtorEq, iff_self]
    · split <;> simp <;> omega
    · split <;> simp <;> omega

@[simp] theorem shift_app (a i : ℕ) : Addr.shift (Ptr.app a) i = Ptr.app (a + i) := rfl

@[simp] theorem shift_page (k j i : ℕ) : Addr.shift (Ptr.page k j) i = Ptr.page k (j + i) := rfl

/-- The memory an operation can reach. -/
abbrev Mem := Ptr → Byte

/-- The memory at the start of an operation: what the application holds, and
extra pages that `mio_mem_alloc` has cleared. -/
def Mem.init (app : ℕ → Byte) : Mem
  | .app a => app a
  | .page _ _ => 0

/-! ### I/O vectors -/

/-- `struct mio_iovec`: a memory area and the byte range of an object it goes
with. The application's vectors have `π = ℕ`, plain addresses; the driver's
point into application memory or into its own pages. -/
structure MioIovec (π : Type) where
  /-- Base address. -/
  miovBase : π
  /-- Offset. -/
  miovOff : ℕ
  /-- Length. -/
  miovLen : ℕ
  deriving DecidableEq, Repr

/-- The end of a byte range. -/
def MioIovec.stop {π : Type} (v : MioIovec π) : ℕ := v.miovOff + v.miovLen

/-- A byte of the object that the vector's range contains. -/
def MioIovec.Has {π : Type} (v : MioIovec π) (x : ℕ) : Prop := v.miovOff ≤ x ∧ x < v.stop

instance {π : Type} (v : MioIovec π) (x : ℕ) : Decidable (v.Has x) :=
  inferInstanceAs (Decidable (_ ∧ _))

theorem MioIovec.has_iff_inRun {π : Type} {v : MioIovec π} {x : ℕ} :
    v.Has x ↔ InRun v.miovOff v.miovLen x :=
  inRun_nat.symm

end CortxMio
