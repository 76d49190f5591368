import CortxMio.Lib.Text
import Mathlib.Data.Int.Init

/-!
# Numbers in text, as C reads them

`atoi` (`CortxMio.Lib.atoi`) and the conversion `%lx` of `sscanf`
(`CortxMio.Lib.scanHex`) take what they can from the start of a text and do not mind
what follows. Neither reports that a number is too large: `atoi` cuts off the upper
half of the `long` it has read, which has stopped at the largest one, and `%lx` yields
the largest number there is. A number that was printed in hexadecimal
(`CortxMio.Lib.hexText`) is read back (`CortxMio.Lib.scanHex_hexText`).

The text is that of a string, without the zero that ends it.
-/

namespace CortxMio.Lib

/-- The digit that a byte stands for. -/
def digitVal (base : ℕ) (b : UInt8) : Option ℕ :=
  let d :=
    if 48 ≤ b ∧ b ≤ 57 then b.toNat - 48
    else if 65 ≤ b ∧ b ≤ 90 then b.toNat - 55
    else if 97 ≤ b ∧ b ≤ 122 then b.toNat - 87
    else base
  if d < base then some d else none

/-- Read digits as long as there are any: the number, and what follows. -/
def readDigits (base : ℕ) : ℕ → List UInt8 → ℕ × List UInt8
  | n, [] => (n, [])
  | n, b :: bs =>
      match digitVal base b with
      | some d => readDigits base (n * base + d) bs
      | none => (n, b :: bs)

/-- Read a sign, if there is one: whether it is a minus, and what follows. -/
def readSign : List UInt8 → Bool × List UInt8
  | [] => (false, [])
  | b :: bs => if b = 45 then (true, bs) else if b = 43 then (false, bs) else (false, b :: bs)

/-- `strtol` in base 10. -/
def strtol (s : List UInt8) : ℤ :=
  let (neg, s) := readSign (s.dropWhile isspace)
  let n : ℤ := (readDigits 10 0 s).1
  max (-2 ^ 63) (min (if neg then -n else n) (2 ^ 63 - 1))

/-- `atoi`. -/
def atoi (s : List UInt8) : ℤ := (strtol s).bmod (2 ^ 32)

/-- Why a conversion of `sscanf` yields nothing. -/
inductive ScanFailure
  /-- There is no more text. -/
  | input
  /-- The text is not of the kind. -/
  | matching
  deriving DecidableEq, Repr

/-- The digits of a hexadecimal number, after its sign; `0x` alone counts as a
zero. -/
def hexDigits : List UInt8 → Option (ℕ × List UInt8)
  | [] => none
  | b :: bs =>
      match digitVal 16 b with
      | none => none
      | some _ =>
          match bs with
          | [] => some (readDigits 16 0 [b])
          | x :: rest =>
              if b = 48 ∧ (x = 120 ∨ x = 88) then some (readDigits 16 0 rest)
              else some (readDigits 16 0 (b :: x :: rest))

/-- The conversion `%lx` of `sscanf`. -/
def scanHex (s : List UInt8) : Except ScanFailure (UInt64 × List UInt8) :=
  match s.dropWhile isspace with
  | [] => .error .input
  | b :: bs =>
      let (neg, s) := readSign (b :: bs)
      match hexDigits s with
      | none => .error .matching
      | some (n, rest) =>
          .ok (if 2 ^ 64 ≤ n then -1 else if neg then -UInt64.ofNat n else UInt64.ofNat n, rest)

/-- The digits of a decimal number, after its sign. -/
def decimalDigits : List UInt8 → Option (ℕ × List UInt8)
  | [] => none
  | b :: bs =>
      match digitVal 10 b with
      | none => none
      | some _ => some (readDigits 10 0 (b :: bs))

/-- The conversion `%lu` of `sscanf`. -/
def scanDecimal (s : List UInt8) : Except ScanFailure (UInt64 × List UInt8) :=
  match s.dropWhile isspace with
  | [] => .error .input
  | b :: bs =>
      let (neg, s) := readSign (b :: bs)
      match decimalDigits s with
      | none => .error .matching
      | some (n, rest) =>
          .ok (if 2 ^ 64 ≤ n then -1 else if neg then -UInt64.ofNat n else UInt64.ofNat n, rest)

example : atoi [32, 45, 49, 50, 56, 75] = -128 := by decide

example : scanHex [48, 120, 54, 102, 58] = .ok (111, [58]) := by decide

/-! ### Numbers that were printed -/

/-- Digits are read as the number they stand for. -/
theorem readDigits_map {base : ℕ} {enc : ℕ → UInt8} {ds : List ℕ}
    (henc : ∀ d ∈ ds, digitVal base (enc d) = some d) (n : ℕ) (rest : List UInt8) :
    readDigits base n (ds.map enc ++ rest) =
      readDigits base (ds.foldl (fun m d => m * base + d) n) rest := by
  induction ds generalizing n with
  | nil => rfl
  | cons d ds ih =>
    rw [List.map_cons, List.cons_append, readDigits, henc d List.mem_cons_self]
    exact ih (fun e he => henc e (List.mem_cons_of_mem _ he)) _

/-- The digits of a number stand for it. -/
theorem foldl_reverse_digits (base n : ℕ) :
    (Nat.digits base n).reverse.foldl (fun m d => m * base + d) 0 = n := by
  have hofDigits : ∀ ds : List ℕ, ds.foldr (fun d m => m * base + d) 0 = Nat.ofDigits base ds := by
    intro ds
    induction ds with
    | nil => rfl
    | cons d ds ih =>
      rw [List.foldr_cons, ih, Nat.ofDigits_cons, Nat.mul_comm, Nat.add_comm]
  rw [List.foldl_reverse, hofDigits, Nat.ofDigits_digits]

theorem digitVal_decimal {d : ℕ} (h : d < 10) : digitVal 10 (UInt8.ofNat (48 + d)) = some d := by
  interval_cases d <;> rfl

theorem length_decimal_pos (n : ℕ) : 0 < (decimal n).length := by
  rw [decimal]
  split
  · decide
  · next hn =>
    rw [List.length_map, List.length_reverse]
    exact List.length_pos_iff.mpr (Nat.digits_ne_nil_iff_ne_zero.mpr hn)

/-- A number that is followed by more digits is read on. -/
theorem readDigits_decimal (n : ℕ) (rest : List UInt8) :
    readDigits 10 0 (decimal n ++ rest) = readDigits 10 n rest := by
  rw [decimal]
  split
  · next hn =>
    subst hn
    rfl
  · rw [readDigits_map fun d hd => digitVal_decimal
      (Nat.digits_lt_base (by decide) (List.mem_reverse.mp hd)), foldl_reverse_digits]

theorem exists_of_mem_decimal {n : ℕ} {b : UInt8} (h : b ∈ decimal n) :
    ∃ d, d < 10 ∧ b = UInt8.ofNat (48 + d) := by
  rw [decimal] at h
  split at h
  · exact ⟨0, by decide, List.mem_singleton.mp h⟩
  · obtain ⟨d, hd, rfl⟩ := List.mem_map.mp h
    exact ⟨d, Nat.digits_lt_base (by decide) (List.mem_reverse.mp hd), rfl⟩

/-- Blanks before a number are passed over, and there is no sign to be read. -/
theorem exists_decimal {blanks : List UInt8} (hblanks : ∀ b ∈ blanks, isspace b = true) (n : ℕ)
    (rest : List UInt8) : ∃ b bs d,
      (blanks ++ (decimal n ++ rest)).dropWhile isspace = b :: bs ∧
        decimal n ++ rest = b :: bs ∧ readSign (b :: bs) = (false, b :: bs) ∧
          digitVal 10 b = some d := by
  obtain ⟨b, bs, hb⟩ := List.exists_cons_of_length_pos (length_decimal_pos n)
  obtain ⟨d, hd, hbd⟩ := exists_of_mem_decimal (hb ▸ List.mem_cons_self : b ∈ decimal n)
  have hspecial : isspace b = false ∧ b ≠ 43 ∧ b ≠ 45 := by
    rw [hbd]
    interval_cases d <;> decide
  refine ⟨b, bs ++ rest, d, ?_, by rw [hb]; rfl, ?_, hbd ▸ digitVal_decimal hd⟩
  · rw [List.dropWhile_append_of_pos hblanks, hb, List.cons_append,
      List.dropWhile_cons_of_neg (by simp [hspecial.1])]
  · rw [readSign, if_neg hspecial.2.2, if_neg hspecial.2.1]

/-- **`atoi` reads on** from a number, as long as there are digits. -/
theorem atoi_decimal {blanks : List UInt8} (hblanks : ∀ b ∈ blanks, isspace b = true) (n : ℕ)
    (rest : List UInt8) :
    atoi (blanks ++ (decimal n ++ rest)) =
      (min ((readDigits 10 n rest).1 : ℤ) (2 ^ 63 - 1)).bmod (2 ^ 32) := by
  obtain ⟨b, bs, d, hdrop, hbs, hsign, -⟩ := exists_decimal hblanks n rest
  have hread := readDigits_decimal n rest
  rw [hbs] at hread
  rw [atoi, strtol, hdrop]
  simp only [hsign, hread]
  rw [if_neg Bool.false_ne_true, max_eq_right]
  omega

/-- **`%lu` reads on** from a number, as long as there are digits. -/
theorem scanDecimal_decimal {blanks : List UInt8} (hblanks : ∀ b ∈ blanks, isspace b = true)
    (n : ℕ) (rest : List UInt8) :
    scanDecimal (blanks ++ (decimal n ++ rest)) =
      .ok (if 2 ^ 64 ≤ (readDigits 10 n rest).1 then -1 else UInt64.ofNat (readDigits 10 n rest).1,
        (readDigits 10 n rest).2) := by
  obtain ⟨b, bs, d, hdrop, hbs, hsign, hdigit⟩ := exists_decimal hblanks n rest
  have hread := readDigits_decimal n rest
  rw [hbs] at hread
  rw [scanDecimal, hdrop]
  simp only [hsign, decimalDigits, hdigit, hread]
  rw [if_neg Bool.false_ne_true]

/-- Reading ends where there are no more digits. -/
theorem readDigits_cons_of_none {base : ℕ} {b : UInt8} (hb : digitVal base b = none) (n : ℕ)
    (rest : List UInt8) : readDigits base n (b :: rest) = (n, b :: rest) := by
  rw [readDigits, hb]

/-- A digit of a hexadecimal number, in lower case. -/
def hexDigit (d : ℕ) : UInt8 := UInt8.ofNat (if d < 10 then 48 + d else 87 + d)

/-- A number in hexadecimal. -/
def hexText (n : ℕ) : List UInt8 :=
  if n = 0 then [48] else (Nat.digits 16 n).reverse.map hexDigit

theorem digitVal_hexDigit {d : ℕ} (h : d < 16) : digitVal 16 (hexDigit d) = some d := by
  interval_cases d <;> rfl

/-- The bytes of a number are digits. -/
theorem exists_of_mem_hexText {n : ℕ} {b : UInt8} (h : b ∈ hexText n) :
    ∃ d, d < 16 ∧ b = hexDigit d := by
  rw [hexText] at h
  split at h
  · exact ⟨0, by decide, List.mem_singleton.mp h⟩
  · obtain ⟨d, hd, rfl⟩ := List.mem_map.mp h
    exact ⟨d, Nat.digits_lt_base (by decide) (List.mem_reverse.mp hd), rfl⟩

/-- Digits are none of the other bytes that a number may begin with. -/
theorem not_special_of_mem_hexText {n : ℕ} {b : UInt8} (h : b ∈ hexText n) :
    isspace b = false ∧ b ≠ 43 ∧ b ≠ 45 ∧ b ≠ 88 ∧ b ≠ 120 := by
  obtain ⟨d, hd, rfl⟩ := exists_of_mem_hexText h
  interval_cases d <;> decide

theorem length_hexText_pos (n : ℕ) : 0 < (hexText n).length := by
  rw [hexText]
  split
  · decide
  · next hn =>
    rw [List.length_map, List.length_reverse]
    exact List.length_pos_iff.mpr (Nat.digits_ne_nil_iff_ne_zero.mpr hn)

theorem length_hexText_le {w n : ℕ} (hw : 1 ≤ w) (hn : n < 16 ^ w) : (hexText n).length ≤ w := by
  rw [hexText]
  split
  · exact hw
  · rw [List.length_map, List.length_reverse]
    exact (Nat.digits_length_le_iff (by decide) n).mpr hn

theorem readDigits_hexText (n : ℕ) (rest : List UInt8) :
    readDigits 16 0 (hexText n ++ rest) = readDigits 16 n rest := by
  rw [hexText]
  split
  · next hn =>
    subst hn
    rfl
  · rw [readDigits_map fun d hd => digitVal_hexDigit
      (Nat.digits_lt_base (by decide) (List.mem_reverse.mp hd)), foldl_reverse_digits]

/-- **A hexadecimal number is read back**, up to a byte that is no digit. -/
theorem scanHex_hexText {n : ℕ} (hn : n < 2 ^ 64) {b : UInt8} (hb : digitVal 16 b = none)
    (hx : b ≠ 120 ∧ b ≠ 88) (rest : List UInt8) :
    scanHex (hexText n ++ b :: rest) = .ok (UInt64.ofNat n, b :: rest) := by
  obtain ⟨c, cs, hcs⟩ := List.exists_cons_of_length_pos (length_hexText_pos n)
  obtain ⟨x, t, hx'⟩ : ∃ x t, cs ++ b :: rest = x :: t := by
    cases cs with
    | nil => exact ⟨b, rest, rfl⟩
    | cons x cs => exact ⟨x, cs ++ b :: rest, rfl⟩
  obtain ⟨hspace, hplus, hminus, -⟩ :=
    not_special_of_mem_hexText (hcs ▸ List.mem_cons_self : c ∈ hexText n)
  have hread : readDigits 16 0 (c :: x :: t) = (n, b :: rest) := by
    have h := readDigits_hexText n (b :: rest)
    rw [hcs, List.cons_append, hx', readDigits_cons_of_none hb] at h
    exact h
  have hsign : readSign (c :: x :: t) = (false, c :: x :: t) := by
    rw [readSign, if_neg hminus, if_neg hplus]
  have hno : ¬ (x = 120 ∨ x = 88) := by
    cases cs with
    | nil =>
      obtain rfl := (List.cons.inj hx').1
      exact not_or.mpr hx
    | cons y cs =>
      obtain rfl := (List.cons.inj hx').1
      obtain ⟨-, -, -, h88, h120⟩ := not_special_of_mem_hexText
        (hcs ▸ List.mem_cons_of_mem _ List.mem_cons_self : y ∈ hexText n)
      exact not_or.mpr ⟨h120, h88⟩
  have hdigits : hexDigits (c :: x :: t) = some (n, b :: rest) := by
    obtain ⟨d, hd, hc⟩ := exists_of_mem_hexText (hcs ▸ List.mem_cons_self : c ∈ hexText n)
    rw [hexDigits, hc, digitVal_hexDigit hd, ← hc]
    simp only
    rw [if_neg fun h => hno h.2, hread]
  rw [hcs, List.cons_append, hx', scanHex, List.dropWhile_cons_of_neg (by simp [hspace])]
  simp only [hsign, hdigits]
  rw [if_neg (not_le.mpr hn), if_neg (by decide)]

end CortxMio.Lib
