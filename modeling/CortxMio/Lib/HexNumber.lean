import CortxMio.Lib.CNumber

/-!
# Hexadecimal numbers as they are written

What is a number in a text is said by a grammar: one digit or more, of either case, and
`0x` in front of them or not (`CortxMio.Lib.HexNumber`). A reader that takes nothing
else (`CortxMio.Lib.readHex`) is compared with it, in both directions
(`CortxMio.Lib.exists_of_readHex`, `CortxMio.Lib.readHex_hexNumber`).

The conversion `%lx` of `sscanf` agrees with this reader where the reader takes anything
(`CortxMio.Lib.scanHex_of_readHex`). It takes more: a sign, a `0x` without digits, and
numbers of any length, which all come out as the largest one.
-/

namespace CortxMio.Lib

/-- A hexadecimal digit, of either case. -/
def isHexDigit (b : UInt8) : Bool := (digitVal 16 b).isSome

/-- The number that digits stand for. -/
def hexValue (ds : List UInt8) : ℕ := ds.foldl (fun n d => n * 16 + (digitVal 16 d).getD 0) 0

/-- **A hexadecimal number, as it is written.** -/
inductive HexNumber : List UInt8 → ℕ → Prop
  /-- Digits. -/
  | plain {ds : List UInt8} : ds ≠ [] → (∀ d ∈ ds, isHexDigit d = true) →
      HexNumber ds (hexValue ds)
  /-- Digits behind `0x`. -/
  | marked {x : UInt8} {ds : List UInt8} : x = 120 ∨ x = 88 → ds ≠ [] →
      (∀ d ∈ ds, isHexDigit d = true) → HexNumber (48 :: x :: ds) (hexValue ds)

/-- Go on behind a `0x`, if there is one. -/
def skipMarker : List UInt8 → List UInt8
  | b :: x :: s => if b = 48 ∧ (x = 120 ∨ x = 88) then s else b :: x :: s
  | s => s

/-- Read a number, behind blanks or not: the number, and what follows. -/
def readHex (s : List UInt8) : Option (ℕ × List UInt8) :=
  let s := skipMarker (s.dropWhile isspace)
  if s.takeWhile isHexDigit = [] then none
  else some (hexValue (s.takeWhile isHexDigit), s.dropWhile isHexDigit)

/-- What cannot be taken for part of a number in front of it. -/
def NoHex (s : List UInt8) : Prop :=
  ∀ b ∈ s.head?, isHexDigit b = false ∧ b ≠ 120 ∧ b ≠ 88

/-- The bytes that are digits. -/
theorem toNat_of_isHexDigit {b : UInt8} (h : isHexDigit b = true) :
    48 ≤ b.toNat ∧ b.toNat ≤ 57 ∨ 65 ≤ b.toNat ∧ b.toNat ≤ 70 ∨
      97 ≤ b.toNat ∧ b.toNat ≤ 102 := by
  have hsmall : ∀ d : ℕ, (if d < 16 then some d else none : Option ℕ).isSome = true → d < 16 := by
    intro d hd
    by_contra hge
    rw [if_neg hge] at hd
    cases hd
  rw [isHexDigit, digitVal] at h
  simp only [UInt8.le_iff_toNat_le] at h
  split at h
  · next h1 => exact .inl h1
  · split at h
    · next h1 =>
      have hlt := hsmall _ h
      exact .inr (.inl ⟨h1.1, by omega⟩)
    · split at h
      · next h1 =>
        have hlt := hsmall _ h
        exact .inr (.inr ⟨h1.1, by omega⟩)
      · cases h

/-- Digits are none of the other bytes that matter. -/
theorem not_special_of_isHexDigit {b : UInt8} (h : isHexDigit b = true) :
    isspace b = false ∧ b ≠ 43 ∧ b ≠ 45 ∧ b ≠ 120 ∧ b ≠ 88 := by
  have hrange := toNat_of_isHexDigit h
  refine ⟨?_, ?_, ?_, ?_, ?_⟩
  · by_contra hspace
    rw [Bool.not_eq_false, isspace] at hspace
    simp only [Bool.or_eq_true, Bool.and_eq_true, decide_eq_true_eq, beq_iff_eq,
      UInt8.le_iff_toNat_le] at hspace
    rcases hspace with ⟨-, hle⟩ | rfl
    · change b.toNat ≤ 13 at hle
      omega
    · exact absurd hrange (by decide)
  all_goals
    rintro rfl
    exact absurd hrange (by decide)

/-- Digits are read as long as there are any. -/
theorem readDigits_eq (n : ℕ) (s : List UInt8) :
    readDigits 16 n s =
      ((s.takeWhile isHexDigit).foldl (fun n d => n * 16 + (digitVal 16 d).getD 0) n,
        s.dropWhile isHexDigit) := by
  induction s generalizing n with
  | nil => rfl
  | cons b s ih =>
    rw [readDigits]
    cases hb : digitVal 16 b with
    | none =>
      have hno : isHexDigit b = false := by rw [isHexDigit, hb]; rfl
      simp only [List.takeWhile_cons, List.dropWhile_cons, hno]
      rfl
    | some d =>
      have hyes : isHexDigit b = true := by rw [isHexDigit, hb]; rfl
      simp only [List.takeWhile_cons, List.dropWhile_cons, hyes, if_true, List.foldl_cons, hb,
        Option.getD_some]
      exact ih _

/-! ### The reader and the grammar -/

/-- A `0x` is skipped, or there is none. -/
theorem skipMarker_cases (s : List UInt8) :
    skipMarker s = s ∨ ∃ x, (x = 120 ∨ x = 88) ∧ s = 48 :: x :: skipMarker s := by
  unfold skipMarker
  split
  · next b x s =>
    split
    · next hmark =>
      obtain ⟨rfl, hx⟩ := hmark
      exact .inr ⟨x, hx, rfl⟩
    · exact .inl rfl
  · exact .inl rfl

/-- **What the reader takes is a number.** -/
theorem exists_of_readHex {s rest : List UInt8} {n : ℕ} (h : readHex s = some (n, rest)) :
    ∃ w t, s = w ++ (t ++ rest) ∧ (∀ b ∈ w, isspace b = true) ∧ HexNumber t n := by
  rw [readHex] at h
  split at h
  · cases h
  · next hne =>
    obtain ⟨rfl, rfl⟩ := Prod.mk.inj (Option.some.inj h)
    have hsplit := List.takeWhile_append_dropWhile (p := isspace) (l := s)
    have hdigits := List.takeWhile_append_dropWhile (p := isHexDigit)
      (l := skipMarker (s.dropWhile isspace))
    have hspaces : ∀ b ∈ s.takeWhile isspace, isspace b = true := fun b hb =>
      List.mem_takeWhile_imp hb
    have hhex : ∀ b ∈ (skipMarker (s.dropWhile isspace)).takeWhile isHexDigit,
        isHexDigit b = true := fun b hb => List.mem_takeWhile_imp hb
    rcases skipMarker_cases (s.dropWhile isspace) with hsame | ⟨x, hx, hmark⟩
    · refine ⟨_, _, ?_, hspaces, .plain hne hhex⟩
      rw [hdigits, hsame, hsplit]
    · refine ⟨_, _, ?_, hspaces, .marked hx hne hhex⟩
      rw [List.cons_append, List.cons_append, hdigits, ← hmark, hsplit]

/-- A run of digits ends where there are no more. -/
theorem takeWhile_isHexDigit {ds rest : List UInt8} (hds : ∀ d ∈ ds, isHexDigit d = true)
    (hrest : NoHex rest) :
    (ds ++ rest).takeWhile isHexDigit = ds ∧ (ds ++ rest).dropWhile isHexDigit = rest := by
  rw [List.takeWhile_append_of_pos hds, List.dropWhile_append_of_pos hds]
  cases rest with
  | nil => exact ⟨List.append_nil _, rfl⟩
  | cons b rest =>
    have hb := (hrest b rfl).1
    rw [List.takeWhile_cons_of_neg (by simp [hb]), List.dropWhile_cons_of_neg (by simp [hb])]
    exact ⟨List.append_nil _, rfl⟩

/-- **A number is read**, up to what cannot be part of it. -/
theorem readHex_hexNumber {w t rest : List UInt8} {n : ℕ} (hw : ∀ b ∈ w, isspace b = true)
    (ht : HexNumber t n) (hrest : NoHex rest) : readHex (w ++ (t ++ rest)) = some (n, rest) := by
  rw [readHex, List.dropWhile_append_of_pos hw]
  cases ht with
  | plain hne hds =>
    obtain ⟨d, ds, rfl⟩ := List.exists_cons_of_ne_nil hne
    have hspace := (not_special_of_isHexDigit (hds d List.mem_cons_self)).1
    obtain ⟨htake, hdrop⟩ := takeWhile_isHexDigit hds hrest
    -- what follows the first digit is not an `x`
    have hskip : skipMarker (d :: ds ++ rest) = d :: ds ++ rest := by
      refine (skipMarker_cases _).resolve_right ?_
      rintro ⟨x, hx, hmark⟩
      rw [List.cons_append, List.cons.injEq] at hmark
      cases ds with
      | nil =>
        rw [List.nil_append] at hmark
        have hno := hrest x (by rw [hmark.2]; rfl)
        exact hx.elim hno.2.1 hno.2.2
      | cons e ds =>
        obtain ⟨rfl, -⟩ := List.cons.inj hmark.2
        have hno := not_special_of_isHexDigit (hds e (by simp))
        exact hx.elim hno.2.2.2.1 hno.2.2.2.2
    rw [List.cons_append, List.dropWhile_cons_of_neg (by simp [hspace]), ← List.cons_append, hskip]
    simp only [htake, hdrop]
    exact if_neg hne
  | @marked x ds hx hne hds =>
    obtain ⟨htake, hdrop⟩ := takeWhile_isHexDigit hds hrest
    have hskip : skipMarker (48 :: x :: (ds ++ rest)) = ds ++ rest := if_pos ⟨rfl, hx⟩
    rw [List.cons_append, List.cons_append, List.dropWhile_cons_of_neg (by decide), hskip]
    simp only [htake, hdrop]
    exact if_neg hne

/-- **What `%lx` makes of a number.** -/
theorem scanHex_of_readHex {s rest : List UInt8} {n : ℕ} (h : readHex s = some (n, rest)) :
    scanHex s = .ok (if 2 ^ 64 ≤ n then -1 else UInt64.ofNat n, rest) := by
  rw [readHex] at h
  split at h
  · cases h
  · next hne =>
    have hread : readDigits 16 0 (skipMarker (s.dropWhile isspace)) = (n, rest) := by
      rw [readDigits_eq]
      exact Option.some.inj h
    rw [scanHex]
    cases hs : s.dropWhile isspace with
    | nil =>
      rw [hs] at hne
      exact absurd rfl hne
    | cons b bs =>
      rw [hs] at hne hread
      have hb : isHexDigit b = true := by
        rcases skipMarker_cases (b :: bs) with hsame | ⟨x, hx, hmark⟩
        · rw [hsame] at hne
          by_contra hb
          exact hne (List.takeWhile_cons_of_neg hb)
        · rw [(List.cons.inj hmark).1]
          rfl
      obtain ⟨d, hd⟩ := Option.isSome_iff_exists.mp hb
      obtain ⟨-, hplus, hminus, -⟩ := not_special_of_isHexDigit hb
      have hsign : readSign (b :: bs) = (false, b :: bs) := by
        rw [readSign, if_neg hminus, if_neg hplus]
      have hdigits : hexDigits (b :: bs) = some (n, rest) := by
        rw [← hread]
        cases bs with
        | nil =>
          rw [hexDigits, hd]
          rfl
        | cons x bs =>
          rw [hexDigits, hd, skipMarker]
          dsimp only
          split
          · rfl
          · rfl
      simp only [hsign, hdigits]
      rfl

end CortxMio.Lib
