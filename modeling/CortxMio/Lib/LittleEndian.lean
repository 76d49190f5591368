import Mathlib.Data.Nat.Basic
import Mathlib.Data.UInt
import Mathlib.Tactic.Ring
import Mathlib.Tactic.NormNum

/-!
# Little-endian numbers

Numbers as runs of bytes, least significant byte first, and arrays of such
numbers one after the other. `CortxMio.Lib.leNat_leBytes`,
`CortxMio.Lib.leBytes_leNat` and `CortxMio.Lib.leNats_map` are the round trips.
-/

namespace CortxMio

namespace Lib

/-- The `w` low bytes of `x`, the lowest first. -/
def leBytes : ℕ → ℕ → List UInt8
  | 0, _ => []
  | w + 1, x => UInt8.ofNat x :: leBytes w (x / 256)

/-- The number a run of bytes stands for. -/
def leNat : List UInt8 → ℕ
  | [] => 0
  | b :: bs => b.toNat + 256 * leNat bs

@[simp] theorem length_leBytes (w x : ℕ) : (leBytes w x).length = w := by
  induction w generalizing x with
  | zero => rfl
  | succ w ih => simp [leBytes, ih]

/-- **A number is read back as it was stored**, up to its width. -/
theorem leNat_leBytes_mod (w x : ℕ) : leNat (leBytes w x) = x % 256 ^ w := by
  induction w generalizing x with
  | zero => simp [leBytes, leNat, Nat.mod_one]
  | succ w ih =>
    have hb : (UInt8.ofNat x).toNat = x % 256 := by simp
    rw [leBytes, leNat, ih, hb, Nat.pow_succ, Nat.mul_comm (256 ^ w) 256, Nat.mod_mul]

theorem leNat_leBytes {w x : ℕ} (h : x < 256 ^ w) : leNat (leBytes w x) = x := by
  rw [leNat_leBytes_mod, Nat.mod_eq_of_lt h]

/-- A run of bytes is stored as it was read. -/
theorem leBytes_leNat (l : List UInt8) : leBytes l.length (leNat l) = l := by
  induction l with
  | nil => rfl
  | cons b l ih =>
    have hb : b.toNat < 256 := b.toNat_lt
    have hhead : UInt8.ofNat (b.toNat + 256 * leNat l) = b := by
      refine UInt8.toNat_inj.mp ?_
      rw [UInt8.toNat_ofNat']
      omega
    have htail : (b.toNat + 256 * leNat l) / 256 = leNat l := by omega
    rw [List.length_cons, leNat, leBytes, hhead, htail, ih]

/-- Runs of the same length that stand for the same number are the same. -/
theorem leNat_inj {l l' : List UInt8} (hlen : l.length = l'.length) :
    leNat l = leNat l' ↔ l = l' := by
  refine ⟨fun h => ?_, congrArg leNat⟩
  rw [← leBytes_leNat l, ← leBytes_leNat l', hlen, h]

theorem leNat_append (l l' : List UInt8) :
    leNat (l ++ l') = leNat l + 256 ^ l.length * leNat l' := by
  induction l with
  | nil => simp [leNat]
  | cons b l ih =>
    rw [List.cons_append, leNat, leNat, ih, List.length_cons, Nat.pow_succ]
    ring

theorem leNat_lt (l : List UInt8) : leNat l < 256 ^ l.length := by
  induction l with
  | nil => exact Nat.one_pos
  | cons b l ih =>
    have hb : b.toNat < 256 := b.toNat_lt
    rw [leNat, List.length_cons, Nat.pow_succ]
    omega

/-- Read `n` numbers of `w` bytes each. -/
def leNats (w : ℕ) : ℕ → List UInt8 → List ℕ
  | 0, _ => []
  | n + 1, bs => leNat (bs.take w) :: leNats w n (bs.drop w)

@[simp] theorem length_leNats (w n : ℕ) (bs : List UInt8) : (leNats w n bs).length = n := by
  induction n generalizing bs with
  | zero => rfl
  | succ n ih => rw [leNats, List.length_cons, ih]

/-- Numbers of `w` bytes are bounded. -/
theorem leNats_lt {w n : ℕ} {bs : List UInt8} : ∀ x ∈ leNats w n bs, x < 256 ^ w := by
  induction n generalizing bs with
  | zero => exact fun x hx => absurd hx List.not_mem_nil
  | succ n ih =>
    intro x hx
    rcases List.mem_cons.mp hx with rfl | hx
    · exact (leNat_lt _).trans_le (Nat.pow_le_pow_right (by decide) (List.length_take_le w bs))
    · exact ih x hx

@[simp] theorem length_flatMap_leBytes (w : ℕ) (xs : List ℕ) :
    (xs.flatMap (leBytes w)).length = xs.length * w := by
  induction xs with
  | nil => simp
  | cons x xs ih =>
    rw [List.flatMap_cons, List.length_append, length_leBytes, ih, List.length_cons]
    ring

/-- **An array of numbers is read back as it was stored.** -/
theorem leNats_flatMap {w : ℕ} (xs : List ℕ) (h : ∀ x ∈ xs, x < 256 ^ w) (rest : List UInt8) :
    leNats w xs.length (xs.flatMap (leBytes w) ++ rest) = xs := by
  induction xs with
  | nil => rfl
  | cons x xs ih =>
    have hx := leNat_leBytes (h x List.mem_cons_self)
    rw [List.length_cons, List.flatMap_cons, List.append_assoc, leNats,
      List.take_left' (length_leBytes w x), List.drop_left' (length_leBytes w x), hx,
      ih fun y hy => h y (List.mem_cons_of_mem _ hy)]

/-- The same for an array of anything that is stored as a number. -/
theorem leNats_map {γ : Type*} {w : ℕ} {enc : γ → ℕ} {dec : ℕ → γ} (hdec : ∀ c, dec (enc c) = c)
    (henc : ∀ c, enc c < 256 ^ w) {n : ℕ} (cs : List γ) (hn : cs.length = n)
    (rest : List UInt8) :
    (leNats w n ((cs.map enc).flatMap (leBytes w) ++ rest)).map dec = cs := by
  have h := leNats_flatMap (w := w) (cs.map enc) (by
    intro x hx
    obtain ⟨c, -, rfl⟩ := List.mem_map.mp hx
    exact henc c) rest
  rw [List.length_map, hn] at h
  rw [h, List.map_map]
  exact List.map_id'' hdec cs

end Lib

end CortxMio
