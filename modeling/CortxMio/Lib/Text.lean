import CortxMio.Lib.CString
import Mathlib.Data.Nat.Digits.Lemmas

/-!
# Text

Blanks, words and decimal numbers, as C programs read and write them in byte buffers.

* `CortxMio.Lib.words` are the runs of bytes between the blanks of a text; a blank
  anywhere splits them (`CortxMio.Lib.words_append_cons`).
* `CortxMio.Lib.decimal` is how `printf` writes a number, and
  `CortxMio.Lib.zeroPad` how it does so to a given width.
* `CortxMio.Lib.putAt` overwrites part of a buffer. A buffer that is filled from the
  left begins with everything that has been put there
  (`CortxMio.Lib.prefix_putAt`).
* `CortxMio.Lib.scanWhile` is a cursor that moves on as long as it is at bytes of a
  kind.
-/

namespace CortxMio.Lib

/-! ### Blanks and words -/

/-- `isspace`. -/
def isspace (b : UInt8) : Bool := (9 ≤ b && b ≤ 13) || b == 32

/-- The words of a text. -/
def words (text : List UInt8) : List (List UInt8) :=
  (text.splitOnP isspace).filter fun w => !w.isEmpty

/-- **A blank separates words.** -/
theorem words_append_cons (l l' : List UInt8) {b : UInt8} (hb : isspace b = true) :
    words (l ++ b :: l') = words l ++ words l' := by
  rw [words, List.splitOnP_append_cons l l' hb, List.filter_append]
  rfl

@[simp] theorem words_nil : words [] = [] := by
  rw [words, List.splitOnP_nil]
  rfl

/-- A text that is not blank has a word. -/
theorem words_ne_nil {l : List UInt8} {b : UInt8} (hb : isspace b = false) (hmem : b ∈ l) :
    words l ≠ [] := by
  induction l with
  | nil => cases hmem
  | cons c l ih =>
    by_cases hc : isspace c = true
    · have hmem : b ∈ l := by
        rcases List.mem_cons.mp hmem with rfl | hmem
        · rw [hc] at hb
          cases hb
        · exact hmem
      rw [← List.nil_append (c :: l), words_append_cons [] l hc, words_nil, List.nil_append]
      exact ih hmem
    · obtain ⟨w, ws, hws⟩ := List.exists_cons_of_ne_nil (List.splitOnP_ne_nil isspace l)
      rw [words, List.splitOnP_cons_eq_if_modifyHead, if_neg hc, hws]
      simp

/-! ### Decimal numbers -/

/-- A number in decimal. -/
def decimal (n : ℕ) : List UInt8 :=
  if n = 0 then [48] else (Nat.digits 10 n).reverse.map fun d => UInt8.ofNat (48 + d)

/-- A number in decimal, filled with zeros to a width. -/
def zeroPad (w n : ℕ) : List UInt8 := (decimal n).leftpad w 48

/-- The bytes of a number are digits. -/
theorem mem_decimal {n : ℕ} {b : UInt8} (h : b ∈ decimal n) : 48 ≤ b ∧ b ≤ 57 := by
  rw [decimal] at h
  split at h
  · rw [List.mem_singleton] at h
    subst h
    decide
  · obtain ⟨d, hd, rfl⟩ := List.mem_map.mp h
    have hlt : d < 10 := Nat.digits_lt_base (by decide) (List.mem_reverse.mp hd)
    interval_cases d <;> decide

theorem length_decimal_le {w n : ℕ} (hw : 1 ≤ w) (hn : n < 10 ^ w) : (decimal n).length ≤ w := by
  rw [decimal]
  split
  · exact hw
  · rw [List.length_map, List.length_reverse]
    exact (Nat.digits_length_le_iff (by decide) n).mpr hn

theorem mem_zeroPad {w n : ℕ} {b : UInt8} (h : b ∈ zeroPad w n) : 48 ≤ b ∧ b ≤ 57 := by
  rw [zeroPad, List.leftpad, List.mem_append] at h
  rcases h with h | h
  · rw [List.eq_of_mem_replicate h]
    decide
  · exact mem_decimal h

theorem length_zeroPad {w n : ℕ} (hw : 1 ≤ w) (hn : n < 10 ^ w) : (zeroPad w n).length = w := by
  have h := length_decimal_le hw hn
  rw [zeroPad, List.leftpad, List.length_append, List.length_replicate]
  omega

/-! ### Buffers -/

/-- Overwrite a buffer from a position on. -/
def putAt (pos : ℕ) (bs buf : List UInt8) : List UInt8 :=
  buf.take pos ++ bs ++ buf.drop (pos + bs.length)

@[simp] theorem length_putAt {pos : ℕ} {bs buf : List UInt8} (h : pos + bs.length ≤ buf.length) :
    (putAt pos bs buf).length = buf.length := by
  rw [putAt, List.length_append, List.length_append, List.length_take, List.length_drop]
  omega

/-- **A buffer is filled from the left**: what is put behind the part that is filled
becomes part of it. -/
theorem prefix_putAt {pos : ℕ} {pre buf : List UInt8} (h : pre <+: buf) (hpos : pre.length = pos)
    (bs : List UInt8) : pre ++ bs <+: putAt pos bs buf := by
  obtain ⟨rest, rfl⟩ := h
  rw [putAt, List.take_left' hpos]
  exact List.prefix_append _ _

/-! ### Cursors -/

/-- How far the loop `while (p(*cursor)) { cursor++; if (cursor - buf >= len) break; }`
moves, from position `i` on; nothing if it leaves the memory it may read. -/
def scanWhile (p : UInt8 → Bool) (len : ℕ) : ℕ → List UInt8 → Option ℕ
  | _, [] => none
  | i, b :: bs =>
    if p b then
      if len ≤ i + 1 then some (i + 1) else scanWhile p len (i + 1) bs
    else some i

/-- The loop stops at the first byte that is not of the kind, if that is before the
limit. -/
theorem scanWhile_append {p : UInt8 → Bool} {len i : ℕ} {l rest : List UInt8} {b : UInt8}
    (hl : ∀ c ∈ l, p c = true) (hb : p b = false) (hlen : i + l.length < len) :
    scanWhile p len i (l ++ b :: rest) = some (i + l.length) := by
  induction l generalizing i with
  | nil => simp [scanWhile, hb]
  | cons c l ih =>
    rw [List.length_cons] at hlen
    have hc : p c = true := hl c List.mem_cons_self
    rw [List.cons_append, scanWhile, if_pos hc, if_neg (by omega),
      ih (fun d hd => hl d (List.mem_cons_of_mem _ hd)) (by omega), List.length_cons]
    congr 1
    omega

/-- The loop stops at the limit. -/
theorem scanWhile_limit {p : UInt8 → Bool} {len i : ℕ} {l : List UInt8} (rest : List UInt8)
    (hl : ∀ c ∈ l, p c = true) (hne : l ≠ []) (hlen : i + l.length = len) :
    scanWhile p len i (l ++ rest) = some len := by
  induction l generalizing i with
  | nil => exact absurd rfl hne
  | cons c l ih =>
    rw [List.length_cons] at hlen
    rw [List.cons_append, scanWhile, if_pos (hl c List.mem_cons_self)]
    by_cases hl0 : l = []
    · subst hl0
      rw [List.length_nil] at hlen
      rw [if_pos (by omega)]
      congr 1
    · have hpos := List.length_pos_of_ne_nil hl0
      rw [if_neg (by omega), ih (fun d hd => hl d (List.mem_cons_of_mem _ hd)) hl0 (by omega)]

/-- In a string, with the limit that `strnlen` finds, the loop stops at the first byte
that is not of the kind. -/
theorem scanWhile_strnlen {p : UInt8 → Bool} {lim : ℕ} {l : List UInt8} {b : UInt8}
    (hl : ∀ c ∈ l, p c = true) (hb : p b = false) (hzero : 0 ∉ l) (hne : b ≠ 0)
    (hlen : l.length < lim) (rest : List UInt8) :
    scanWhile p (strnlen lim (l ++ b :: rest)) 0 (l ++ b :: rest) = some l.length := by
  rw [scanWhile_append hl hb, Nat.zero_add]
  rw [Nat.zero_add]
  exact length_lt_strnlen hzero hne hlen rest

/-- A run that is as long as the limit or longer is passed up to the limit. -/
theorem scanWhile_strnlen_limit {p : UInt8 → Bool} {lim : ℕ} {l : List UInt8}
    (hl : ∀ c ∈ l, p c = true) (hzero : 0 ∉ l) (hpos : 0 < lim) (hlen : lim ≤ l.length)
    (rest : List UInt8) : scanWhile p (strnlen lim (l ++ rest)) 0 (l ++ rest) = some lim := by
  have htake : (l.take lim).length = lim := by
    rw [List.length_take, Nat.min_eq_left hlen]
  have hsplit : l ++ rest = l.take lim ++ (l.drop lim ++ rest) := by
    rw [← List.append_assoc, List.take_append_drop]
  rw [strnlen_append_of_le hzero hlen, hsplit,
    scanWhile_limit _ (fun c hc => hl c (List.mem_of_mem_take hc)) _ (by omega)]
  exact List.ne_nil_of_length_pos (by omega)

/-- A run up to the end of the string is passed as a whole. -/
theorem scanWhile_strnlen_end {p : UInt8 → Bool} {lim : ℕ} {l : List UInt8}
    (hl : ∀ c ∈ l, p c = true) (hzero : 0 ∉ l) (hp : p 0 = false) (hlen : l.length ≤ lim)
    (junk : List UInt8) :
    scanWhile p (strnlen lim (l ++ 0 :: junk)) 0 (l ++ 0 :: junk) = some l.length := by
  rw [strnlen_append_cons lim hzero, Nat.min_eq_right hlen]
  rcases List.eq_nil_or_concat l with rfl | ⟨_, _, rfl⟩
  · rw [List.nil_append, scanWhile, hp]
    rfl
  · exact scanWhile_limit _ hl (by simp) (Nat.zero_add _)

/-- How far the loop moves in a string that is not empty, or whose end is not of the
kind. -/
theorem scanWhile_strnlen_text {p : UInt8 → Bool} {lim : ℕ} {l : List UInt8} (hlim : 0 < lim)
    (hzero : 0 ∉ l) (hp : p 0 = false ∨ l ≠ []) (junk : List UInt8) :
    scanWhile p (strnlen lim (l ++ 0 :: junk)) 0 (l ++ 0 :: junk) =
      some (min lim (l.takeWhile p).length) := by
  have hrun : ∀ c ∈ l.takeWhile p, p c = true := fun c hc => List.mem_takeWhile_imp hc
  have hsplit := List.takeWhile_append_dropWhile (p := p) (l := l)
  have hzero' : 0 ∉ l.takeWhile p := fun h => hzero ((List.takeWhile_sublist p).subset h)
  rcases Nat.lt_or_ge (l.takeWhile p).length lim with hlt | hge
  · rw [Nat.min_eq_right hlt.le]
    cases hrest : l.dropWhile p with
    | nil =>
      rw [hrest, List.append_nil] at hsplit
      rw [hsplit] at hrun hlt ⊢
      rcases hp with hp | hne
      · exact scanWhile_strnlen_end hrun hzero hp hlt.le junk
      · rw [strnlen_append_cons lim hzero, Nat.min_eq_right hlt.le]
        exact scanWhile_limit _ hrun hne (Nat.zero_add _)
    | cons b rest =>
      rw [hrest] at hsplit
      have hb : p b = false := by
        have h := List.head_dropWhile_not p (l := l) (by simp [hrest])
        simpa [hrest] using h
      have hne : b ≠ 0 := by
        rintro rfl
        exact hzero (hsplit ▸ List.mem_append_right _ List.mem_cons_self)
      have h := scanWhile_strnlen hrun hb hzero' hne hlt (rest ++ 0 :: junk)
      rwa [← List.cons_append, ← List.append_assoc, hsplit] at h
  · rw [Nat.min_eq_left hge]
    have h := scanWhile_strnlen_limit hrun hzero' hlim hge (l.dropWhile p ++ 0 :: junk)
    rwa [← List.append_assoc, hsplit] at h

end CortxMio.Lib
