import CortxMio.Lib.LittleEndian

/-!
# Reading a buffer with a cursor

A parser of a binary format holds a cursor into a buffer; its state is the rest of
the buffer. `CortxMio.Lib.Reads` says of a parser and a run of bytes that the parser
consumes just these bytes, whatever follows them, and what it makes of them. The rules
below follow the way parsers are put together, so that a round trip is proved by
walking through the decoder once, next to the encoder.

Numbers of a fixed width are read and written little-endian. What is needed of such a
type is in `CortxMio.Lib.LeWord`.
-/

namespace CortxMio.Lib

variable {ε α β : Type}

/-! ### Words -/

/-- A type of numbers that take a fixed number of bytes. -/
class LeWord (α : Type) where
  /-- The number of bytes. -/
  width : ℕ
  /-- The number. -/
  toNat : α → ℕ
  /-- The word of a number. -/
  ofNat : ℕ → α
  ofNat_toNat : ∀ x, ofNat (toNat x) = x
  toNat_lt : ∀ x, toNat x < 256 ^ width

instance : LeWord UInt8 := ⟨1, UInt8.toNat, UInt8.ofNat, fun _ => UInt8.ofNat_toNat, UInt8.toNat_lt⟩

instance : LeWord UInt16 :=
  ⟨2, UInt16.toNat, UInt16.ofNat, fun _ => UInt16.ofNat_toNat, UInt16.toNat_lt⟩

instance : LeWord UInt32 :=
  ⟨4, UInt32.toNat, UInt32.ofNat, fun _ => UInt32.ofNat_toNat, UInt32.toNat_lt⟩

instance : LeWord UInt64 :=
  ⟨8, UInt64.toNat, UInt64.ofNat, fun _ => UInt64.ofNat_toNat, UInt64.toNat_lt⟩

/-- The bytes of a word. -/
def wordBytes [LeWord α] (x : α) : List UInt8 := leBytes (LeWord.width α) (LeWord.toNat x)

@[simp] theorem length_wordBytes [LeWord α] (x : α) : (wordBytes x).length = LeWord.width α :=
  length_leBytes _ _

/-! ### Parsers -/

/-- A parser: it may fail, and its state is the part of the buffer that is left. -/
abbrev Cursor (ε α : Type) := StateT (List UInt8) (Except ε) α

/-- The next `n` bytes. A parser that runs past the end of the buffer ends with `e`. -/
def getBytes (e : ε) (n : ℕ) : Cursor ε (List UInt8) := fun bs =>
  if n ≤ bs.length then .ok (bs.take n, bs.drop n) else .error e

/-- The next word. -/
def getWord (e : ε) (α : Type) [LeWord α] : Cursor ε α := do
  let bs ← getBytes e (LeWord.width α)
  return LeWord.ofNat (leNat bs)

/-- The same parser `n` times. -/
def getMany (p : Cursor ε α) : ℕ → Cursor ε (List α)
  | 0 => pure []
  | n + 1 => do
    let x ← p
    let xs ← getMany p n
    return x :: xs

/-- The parser takes these bytes off the buffer and yields this value, whatever comes
after them. -/
def Reads (p : Cursor ε α) (bs : List UInt8) (a : α) : Prop :=
  ∀ rest, p.run (bs ++ rest) = .ok (a, rest)

theorem Reads.pure (a : α) : Reads (ε := ε) (Pure.pure a) [] a := fun _ => rfl

/-- **The rule for a parser after another.** -/
theorem Reads.bind {p : Cursor ε α} {f : α → Cursor ε β} {bs bs' : List UInt8} {a : α} {b : β}
    (hp : Reads p bs a) (hf : Reads (f a) bs' b) : Reads (p >>= f) (bs ++ bs') b := by
  intro rest
  rw [StateT.run_bind, List.append_assoc, hp]
  exact hf rest

/-- The last parser of a sequence: only its result is changed. -/
theorem Reads.map {p : Cursor ε α} {bs : List UInt8} {a : α} (hp : Reads p bs a) (f : α → β) :
    Reads (do let x ← p; return f x) bs (f a) := by
  intro rest
  rw [StateT.run_bind, hp]
  rfl

theorem reads_getBytes (e : ε) (bs : List UInt8) : Reads (getBytes e bs.length) bs bs := by
  intro rest
  show getBytes e bs.length (bs ++ rest) = _
  rw [getBytes, if_pos (by simp), List.take_left, List.drop_left]

/-- **A word is read back as it was stored.** -/
theorem reads_getWord (e : ε) [LeWord α] (x : α) : Reads (getWord e α) (wordBytes x) x := by
  have h := reads_getBytes e (wordBytes x)
  rw [length_wordBytes] at h
  have hx : LeWord.ofNat (leNat (wordBytes x)) = x := by
    rw [wordBytes, leNat_leBytes (LeWord.toNat_lt x), LeWord.ofNat_toNat]
  have hw := h.map (fun bs => (LeWord.ofNat (leNat bs) : α))
  rwa [hx] at hw

/-- **A sequence is read back as it was stored**, if every element is. -/
theorem reads_getMany {p : Cursor ε α} {enc : α → List UInt8} (hp : ∀ x, Reads p (enc x) x)
    (xs : List α) : Reads (getMany p xs.length) (xs.flatMap enc) xs := by
  induction xs with
  | nil => exact Reads.pure []
  | cons x xs ih => exact (hp x).bind (ih.map (x :: ·))

end CortxMio.Lib
