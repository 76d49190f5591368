import CortxMio.Lib.CNumber
import CortxMio.Telem.Addb
import CortxMio.Telem.Log

/-!
# Reading records of an ADDB dump

The records that went to ADDB come back as lines of text: a time, the identifier of the
measurement, the words of the payload, each in hexadecimal between two question marks,
and labels. The loader takes such a line apart with a cursor that it moves over
delimiters, or to the next one (`CortxMio.mioMotrAddbLoad`).

The cursor never moves further than the bytes of a payload at once; and if there is no
label to mark the end of the words, the end is taken to be as many bytes behind the
start of the line. This is a limit on words, used for their text, which is more than
twice as long. What is read of a record are all of its words exactly if there is room for
them as numbers, and the cursor does not happen to stop at the end of the record before
it has got to the last of them (`CortxMio.motrAddbCleanRec_iff`).
-/

namespace CortxMio

open Lib

/-! ### The loader -/

/-- `*`. -/
abbrev asterisk : Byte := 42

/-- `?`. -/
abbrev questionMark : Byte := 63

/-- `,`. -/
abbrev comma : Byte := 44

/-- `|`. -/
abbrev verticalBar : Byte := 124

/-- What the cursor skips, and jumps to. -/
def isAddbDelimiter (b : Byte) : Bool := isspace b || b == questionMark || b == comma

/-- `motr_addb_skip_delimiter`: the cursor at the rest of a buffer. -/
def motrAddbSkipDelimiter (buf : List Byte) : Except Fault (List Byte) :=
  match scanWhile isAddbDelimiter (strnlen mioMotrAddbMaxPayload buf) 0 buf with
  | none => .error .oob
  | some n => .ok (buf.drop n)

/-- `motr_addb_jump_to_delimiter`. -/
def motrAddbJumpToDelimiter (buf : List Byte) : Except Fault (List Byte) :=
  match scanWhile (fun b => !isAddbDelimiter b) (strnlen mioMotrAddbMaxPayload buf) 0 buf with
  | none => .error .oob
  | some n => .ok (buf.drop n)

/-- The loop of `motr_addb_clean_rec`, which every turn takes at least one byte further:
`endOfRec` is how much of the buffer is behind the end of the record, and `cleaned` what
has been written to the `recLen` bytes that were allocated. -/
def motrAddbCleanLoop (recLen endOfRec : ℤ) :
    ℕ → List Byte → List Byte → Except Fault (List Byte)
  | 0, _, _ => .error .diverge
  | fuel + 1, cursor, cleaned =>
    if cursor.length = endOfRec then .ok cleaned
    else do
      let cursor ← motrAddbSkipDelimiter cursor
      match scanHex (CStr.ofBuf cursor).bytes with
      | .error _ => .ok cleaned
      | .ok (value, _) =>
        let endOfValue ← motrAddbJumpToDelimiter cursor
        if recLen < cleaned.length + 8 then .error .oob
        else motrAddbCleanLoop recLen endOfRec fuel endOfValue (cleaned ++ wordBytes value)

/-- `motr_addb_clean_rec`. No memory is as large as a negative length. -/
def motrAddbCleanRec (recBuf : List Byte) (recLen : ℤ) : Except Fault (List Byte) :=
  if recLen < 0 then .error (.err (- ENOMEM))
  else motrAddbCleanLoop recLen (recBuf.length - recLen) (recBuf.length + 1) recBuf []

/-- The two buffers that `mio_motr_addb_load` returns. -/
structure AddbEntry where
  /-- `*rec_buf`. -/
  recBuf : List Byte
  /-- `*head`. -/
  head : List Byte
  deriving DecidableEq

/-- How much of a buffer is behind the end of the words: `|`, if there is one from
`stOfRec` on, and otherwise the limit on a payload, or the end of the line. -/
def addbEndOfRec (buf stOfRec : List Byte) : ℤ :=
  let string := (CStr.ofBuf stOfRec).bytes
  if verticalBar ∈ string then
    stOfRec.length - (string.takeWhile (· ≠ verticalBar)).length
  else buf.length - strnlen mioMotrAddbMaxPayload buf

/-- The part of `mio_motr_addb_load` behind the loop. A record in which nothing was found
is reallocated to nothing. -/
def motrAddbSplit (buf clock addbId : List Byte) (timeStrLen : ℕ) :
    Except Fault AddbEntry := do
  let stOfRec ← motrAddbJumpToDelimiter addbId
  let recLen := toInt32 (stOfRec.length - addbEndOfRec buf stOfRec)
  match motrAddbCleanRec stOfRec recLen with
  | .error (.err _) => .error (.err (- EIO))
  | .error fault => .error fault
  | .ok cleaned =>
    if cleaned = [] then .error (.err (- EIO))
    else .ok ⟨cleaned, clock.take timeStrLen ++ [0]⟩

variable (mioMotrAddbId : UInt64)

/-- `mio_motr_addb_load`, with the lines that are left of the dump; behind each of them,
in memory, is `junk`. What is left of the dump comes with the entry, which there is none
of at the end of the file. -/
def mioMotrAddbLoad (junk : List Byte) :
    List (List Byte) → Except Fault (Option AddbEntry × List (List Byte))
  | [] => .ok (none, [])
  | line :: lines =>
    if line.head? ≠ some asterisk then mioMotrAddbLoad junk lines
    else do
      let buf := line ++ 0 :: junk
      let clock ← motrAddbSkipDelimiter (buf.drop 1)
      let endOfTime ← motrAddbJumpToDelimiter clock
      let timeStrLen := clock.length - endOfTime.length
      let addbId ← motrAddbSkipDelimiter endOfTime
      match scanHex (CStr.ofBuf addbId).bytes with
      | .error _ => mioMotrAddbLoad junk lines
      | .ok (id, _) =>
        if id = mioMotrAddbId then do
          let entry ← motrAddbSplit buf clock addbId timeStrLen
          return (some entry, lines)
        else mioMotrAddbLoad junk lines

/-! ### The cursor -/

theorem isAddbDelimiter_zero : isAddbDelimiter 0 = false := by decide

theorem ne_zero_of_isAddbDelimiter {b : Byte} (h : isAddbDelimiter b = true) : b ≠ 0 := by
  rintro rfl
  rw [isAddbDelimiter_zero] at h
  cases h

/-- The cursor is moved over delimiters. -/
theorem motrAddbSkipDelimiter_eq {ds : List Byte} {b : Byte}
    (hds : ∀ c ∈ ds, isAddbDelimiter c = true) (hb : isAddbDelimiter b = false) (hne : b ≠ 0)
    (hlen : ds.length < 120) (rest : List Byte) :
    motrAddbSkipDelimiter (ds ++ b :: rest) = .ok (b :: rest) := by
  have hzero : 0 ∉ ds := fun h => ne_zero_of_isAddbDelimiter (hds 0 h) rfl
  rw [motrAddbSkipDelimiter, scanWhile_strnlen hds hb hzero hne hlen]
  simp

/-- The cursor is moved to the end of the line. -/
theorem motrAddbSkipDelimiter_end {ds : List Byte} (hds : ∀ c ∈ ds, isAddbDelimiter c = true)
    (hlen : ds.length ≤ 120) (junk : List Byte) :
    motrAddbSkipDelimiter (ds ++ 0 :: junk) = .ok (0 :: junk) := by
  have hzero : 0 ∉ ds := fun h => ne_zero_of_isAddbDelimiter (hds 0 h) rfl
  rw [motrAddbSkipDelimiter, scanWhile_strnlen_end hds hzero isAddbDelimiter_zero hlen]
  simp

/-- The cursor is moved to the next delimiter. -/
theorem motrAddbJumpToDelimiter_eq {w : List Byte} {b : Byte}
    (hw : ∀ c ∈ w, isAddbDelimiter c = false ∧ c ≠ 0) (hb : isAddbDelimiter b = true)
    (hlen : w.length ≤ 120) (rest : List Byte) :
    motrAddbJumpToDelimiter (w ++ b :: rest) = .ok (b :: rest) := by
  have hp : ∀ c ∈ w, (!isAddbDelimiter c) = true := fun c hc => by simp [(hw c hc).1]
  have hzero : 0 ∉ w := fun h => (hw 0 h).2 rfl
  rw [motrAddbJumpToDelimiter]
  rcases Nat.lt_or_eq_of_le hlen with hlt | heq
  · rw [scanWhile_strnlen hp (by simp [hb]) hzero (ne_zero_of_isAddbDelimiter hb) hlt]
    simp
  · rw [scanWhile_strnlen_limit hp hzero (by decide) heq.ge]
    simp [← heq]

/-- The cursor is not moved further than the limit. -/
theorem motrAddbJumpToDelimiter_limit {w : List Byte}
    (hw : ∀ c ∈ w, isAddbDelimiter c = false ∧ c ≠ 0) (hlen : 120 ≤ w.length) (rest : List Byte) :
    motrAddbJumpToDelimiter (w ++ rest) = .ok (w.drop 120 ++ rest) := by
  have hp : ∀ c ∈ w, (!isAddbDelimiter c) = true := fun c hc => by simp [(hw c hc).1]
  have hzero : 0 ∉ w := fun h => (hw 0 h).2 rfl
  rw [motrAddbJumpToDelimiter, scanWhile_strnlen_limit hp hzero (by decide) hlen]
  simp only
  rw [List.drop_append_of_le_length hlen]

/-- The cursor is where digits follow, behind the blanks and marks. -/
theorem not_isAddbDelimiter_of_mem_hexText {n : ℕ} {b : Byte} (h : b ∈ hexText n) :
    isAddbDelimiter b = false ∧ b ≠ 0 := by
  obtain ⟨d, hd, rfl⟩ := exists_of_mem_hexText h
  interval_cases d <;> decide

theorem isAddbDelimiter_of_mem_replicate {n : ℕ} {b : Byte} (h : b ∈ List.replicate n blank) :
    isAddbDelimiter b = true := by
  rw [List.eq_of_mem_replicate h]
  rfl

/-- A number in a dump is read back. -/
theorem scanHex_ofBuf {w : UInt64} {b : Byte} (hb : b = blank ∨ b = questionMark)
    (more : List Byte) :
    scanHex (CStr.ofBuf (hexText w.toNat ++ b :: more)).bytes =
      .ok (w, b :: (CStr.ofBuf more).bytes) := by
  have hb' : b ≠ 0 ∧ digitVal 16 b = none ∧ b ≠ 120 ∧ b ≠ 88 := by
    rcases hb with rfl | rfl <;> decide
  have hzero : 0 ∉ hexText w.toNat ++ [b] := by
    intro h
    rcases List.mem_append.mp h with h | h
    · exact (not_isAddbDelimiter_of_mem_hexText h).2 rfl
    · exact hb'.1 (List.mem_singleton.mp h).symm
  rw [← List.singleton_append, ← List.append_assoc, CStr.bytes_ofBuf_append hzero,
    List.append_assoc, List.singleton_append, scanHex_hexText w.toNat_lt hb'.2.1 hb'.2.2,
    UInt64.ofNat_toNat]

/-- From blanks and marks in front of a number, the cursor gets to the number. -/
theorem motrAddbSkipDelimiter_hexText {ds : List Byte}
    (hds : ∀ c ∈ ds, isAddbDelimiter c = true) (hlen : ds.length < 120) (n : ℕ)
    (more : List Byte) :
    motrAddbSkipDelimiter (ds ++ (hexText n ++ more)) = .ok (hexText n ++ more) := by
  obtain ⟨c, cs, hcs⟩ := List.exists_cons_of_length_pos (length_hexText_pos n)
  have hc := not_isAddbDelimiter_of_mem_hexText (hcs ▸ List.mem_cons_self : c ∈ hexText n)
  rw [hcs]
  exact motrAddbSkipDelimiter_eq hds hc.1 hc.2 hlen _

/-- From a number, the cursor gets behind it. -/
theorem motrAddbJumpToDelimiter_hexText {w : UInt64} {b : Byte}
    (hb : b = blank ∨ b = questionMark) (more : List Byte) :
    motrAddbJumpToDelimiter (hexText w.toNat ++ b :: more) = .ok (b :: more) := by
  have hlen : (hexText w.toNat).length ≤ 16 :=
    length_hexText_le (by decide) (by simpa using w.toNat_lt)
  refine motrAddbJumpToDelimiter_eq (fun c hc => not_isAddbDelimiter_of_mem_hexText hc) ?_
    (by omega) more
  rcases hb with rfl | rfl <;> rfl

/-! ### The words of a line -/

/-- The text of a word: sixteen bytes between question marks. -/
def addbWordText (w : UInt64) : List Byte :=
  questionMark :: ((hexText w.toNat).leftpad 16 blank ++ [questionMark])

/-- The words that are left of a payload, from the mark behind a word on. -/
def wordsFrom (more : List Byte) : List UInt64 → List Byte
  | [] => questionMark :: more
  | w :: ws =>
      questionMark :: comma :: questionMark ::
        ((hexText w.toNat).leftpad 16 blank ++ wordsFrom more ws)

theorem length_leftpad_hexText (w : UInt64) :
    ((hexText w.toNat).leftpad 16 blank).length = 16 := by
  have hlen : (hexText w.toNat).length ≤ 16 :=
    length_hexText_le (by decide) (by simpa using w.toNat_lt)
  rw [List.leftpad, List.length_append, List.length_replicate]
  omega

theorem length_wordsFrom (more : List Byte) (ws : List UInt64) :
    (wordsFrom more ws).length = 1 + 19 * ws.length + more.length := by
  induction ws with
  | nil => simp only [wordsFrom, List.length_cons, List.length_nil]; omega
  | cons w ws ih =>
    simp only [wordsFrom, List.length_cons, List.length_append, length_leftpad_hexText, ih]
    omega

/-- The text of a payload, from its first word on. -/
theorem intercalate_addbWordText (w : UInt64) (ws : List UInt64) (more : List Byte) :
    [comma].intercalate ((w :: ws).map addbWordText) ++ more =
      questionMark :: ((hexText w.toNat).leftpad 16 blank ++ wordsFrom more ws) := by
  induction ws generalizing w with
  | nil => simp [wordsFrom, addbWordText]
  | cons v ws ih =>
    rw [List.map_cons, List.map_cons, List.intercalate_cons_cons, ← List.map_cons,
      List.append_assoc, ih v]
    simp [wordsFrom, addbWordText]

/-- A text begins with a mark. -/
theorem exists_wordsFrom (more : List Byte) (ws : List UInt64) :
    ∃ t, wordsFrom more ws = questionMark :: t := by
  cases ws <;> exact ⟨_, rfl⟩

/-- A byte in the words is one of theirs, neither a bar nor the end of the string. -/
theorem mem_wordsFrom {more : List Byte} {ws : List UInt64} {c : Byte}
    (hc : c ∈ wordsFrom more ws) : c ∈ more ∨ (c ≠ verticalBar ∧ c ≠ 0) := by
  have hhex : ∀ n : ℕ, c ∈ hexText n → c ≠ verticalBar ∧ c ≠ 0 := by
    intro n hn
    obtain ⟨d, hd, rfl⟩ := exists_of_mem_hexText hn
    interval_cases d <;> decide
  induction ws with
  | nil =>
    rcases List.mem_cons.mp hc with rfl | hc
    · exact .inr (by decide)
    · exact .inl hc
  | cons w ws ih =>
    simp only [wordsFrom, List.leftpad, List.mem_cons, List.mem_append] at hc
    rcases hc with rfl | rfl | rfl | (hc | hc) | hc
    · exact .inr (by decide)
    · exact .inr (by decide)
    · exact .inr (by decide)
    · rw [List.eq_of_mem_replicate hc]
      exact .inr (by decide)
    · exact .inr (hhex _ hc)
    · exact ih hc

section Loop

variable {recLen endOfRec : ℤ}

/-- One turn of the loop reads one word, if there is room for it. -/
theorem motrAddbCleanLoop_word {ds : List Byte} (hds : ∀ c ∈ ds, isAddbDelimiter c = true)
    (hlen : ds.length < 100) (w : UInt64) (ws : List UInt64) (more : List Byte) (fuel : ℕ)
    (cleaned : List Byte)
    (hend : (ds.length + 16 + (wordsFrom more ws).length : ℕ) ≠ endOfRec) :
    motrAddbCleanLoop recLen endOfRec (fuel + 1)
        (ds ++ ((hexText w.toNat).leftpad 16 blank ++ wordsFrom more ws)) cleaned =
      if recLen < cleaned.length + 8 then .error .oob
      else motrAddbCleanLoop recLen endOfRec fuel (wordsFrom more ws)
        (cleaned ++ wordBytes w) := by
  obtain ⟨t, ht⟩ := exists_wordsFrom more ws
  have hcursor : (ds ++ ((hexText w.toNat).leftpad 16 blank ++ wordsFrom more ws)).length =
      ds.length + 16 + (wordsFrom more ws).length := by
    rw [List.length_append, List.length_append, length_leftpad_hexText, Nat.add_assoc]
  have hskip : motrAddbSkipDelimiter
      (ds ++ ((hexText w.toNat).leftpad 16 blank ++ wordsFrom more ws)) =
        .ok (hexText w.toNat ++ wordsFrom more ws) := by
    rw [List.leftpad, List.append_assoc, ← List.append_assoc]
    refine motrAddbSkipDelimiter_hexText ?_ ?_ _ _
    · intro c hc
      rcases List.mem_append.mp hc with hc | hc
      exacts [hds c hc, isAddbDelimiter_of_mem_replicate hc]
    · rw [List.length_append, List.length_replicate]
      omega
  rw [motrAddbCleanLoop, if_neg (by rw [hcursor]; exact hend), hskip]
  simp only [ht, bind, Except.bind, scanHex_ofBuf (.inr rfl),
    motrAddbJumpToDelimiter_hexText (.inr rfl)]

/-- Behind the last word, the loop ends. -/
theorem motrAddbCleanLoop_last {ds : List Byte} (hds : ∀ c ∈ ds, isAddbDelimiter c = true)
    (hlen : ds.length < 100) {b : Byte} (hb : b = verticalBar ∨ b = 0) (more : List Byte)
    (fuel : ℕ) (cleaned : List Byte) :
    motrAddbCleanLoop recLen endOfRec (fuel + 1) (ds ++ b :: more) cleaned = .ok cleaned := by
  have hskip : motrAddbSkipDelimiter (ds ++ b :: more) = .ok (b :: more) := by
    rcases hb with rfl | rfl
    · exact motrAddbSkipDelimiter_eq hds rfl (by decide) (by omega) more
    · exact motrAddbSkipDelimiter_end hds (by omega) more
  have hscan : ∃ e, scanHex (CStr.ofBuf (b :: more)).bytes = .error e := by
    rcases hb with rfl | rfl
    · exact ⟨.matching, rfl⟩
    · exact ⟨.input, rfl⟩
  obtain ⟨e, he⟩ := hscan
  rw [motrAddbCleanLoop]
  split
  · rfl
  · rw [hskip]
    simp only [bind, Except.bind, he]

end Loop

section Run

variable {ds : List Byte} {b : Byte} (more : List Byte)

/-- **The loop reads all words** if there is room for them and the record ends at none of
the marks in front of a word that is left. -/
theorem motrAddbCleanLoop_iff (hds : ∀ c ∈ ds, isAddbDelimiter c = true)
    (hlen : ds.length < 99) (hb : b = verticalBar ∨ b = 0) {recLen endOfRec : ℤ}
    (ws : List UInt64) {fuel : ℕ} (hfuel : ws.length < fuel) {cleaned : List Byte}
    (hroom : (cleaned.length : ℤ) ≤ recLen) :
    motrAddbCleanLoop recLen endOfRec fuel (wordsFrom (ds ++ b :: more) ws) cleaned =
        .ok (cleaned ++ ws.flatMap wordBytes) ↔
      (cleaned.length : ℤ) + 8 * ws.length ≤ recLen ∧
        ∀ i, 1 ≤ i → i ≤ ws.length →
          ((1 + 19 * i + (ds ++ b :: more).length : ℕ) : ℤ) ≠ endOfRec := by
  induction ws generalizing fuel cleaned with
  | nil =>
    obtain ⟨fuel, rfl⟩ : ∃ k, fuel = k + 1 := ⟨fuel - 1, by simp at hfuel; omega⟩
    have hds' : ∀ c ∈ questionMark :: ds, isAddbDelimiter c = true :=
      List.forall_mem_cons.mpr ⟨rfl, hds⟩
    have h : motrAddbCleanLoop recLen endOfRec (fuel + 1)
        (questionMark :: (ds ++ b :: more)) cleaned = .ok cleaned :=
      motrAddbCleanLoop_last hds' (Nat.succ_lt_succ hlen) hb more fuel cleaned
    rw [wordsFrom, h, List.flatMap_nil, List.append_nil]
    refine iff_of_true rfl ⟨by simpa using hroom, fun i h1 h2 => ?_⟩
    rw [List.length_nil] at h2
    omega
  | cons w ws ih =>
    obtain ⟨fuel, rfl⟩ : ∃ k, fuel = k + 1 := ⟨fuel - 1, by simp at hfuel; omega⟩
    rw [List.length_cons] at hfuel ⊢
    have hdelims : ∀ c ∈ [questionMark, comma, questionMark], isAddbDelimiter c = true :=
      List.all_eq_true.mp rfl
    have hcursor := length_wordsFrom (ds ++ b :: more) (w :: ws)
    rw [List.length_cons] at hcursor
    by_cases hend : (((wordsFrom (ds ++ b :: more) (w :: ws)).length : ℕ) : ℤ) = endOfRec
    · -- the record ends here, and nothing more is read
      rw [motrAddbCleanLoop, if_pos hend]
      refine iff_of_false (fun h => ?_) fun h => h.2 (ws.length + 1) (by omega) le_rfl ?_
      · have h := congrArg List.length (Except.ok.inj h)
        simp only [List.flatMap_cons, List.length_append, length_wordBytes, LeWord.width] at h
        omega
      · rw [← hend, hcursor]
    · have hstep : motrAddbCleanLoop recLen endOfRec (fuel + 1)
          (wordsFrom (ds ++ b :: more) (w :: ws)) cleaned = _ :=
        motrAddbCleanLoop_word hdelims (by decide) w ws (ds ++ b :: more) fuel cleaned (by
          rw [length_wordsFrom] at hend ⊢
          simpa [Nat.add_comm, Nat.add_left_comm, Nat.mul_add] using hend)
      rw [hstep]
      split
      · next hfull =>
        refine iff_of_false nofun fun h => ?_
        omega
      · next hfree =>
        have hlength : (cleaned ++ wordBytes w).length = cleaned.length + 8 := by
          rw [List.length_append, length_wordBytes]
          rfl
        rw [List.flatMap_cons, ← List.append_assoc,
          ih (by omega) (by rw [hlength]; push_cast; omega), hlength]
        refine and_congr (by push_cast; constructor <;> intro h <;> omega) ⟨fun h i h1 h2 => ?_,
          fun h i h1 h2 => h i h1 (by omega)⟩
        rcases Nat.lt_or_eq_of_le h2 with hlt | rfl
        · exact h i h1 (by omega)
        · rw [hcursor] at hend
          exact hend

/-- **A record is read as its words** if there is room for them and it ends at none of
the marks behind a word but the last. -/
theorem motrAddbCleanRec_iff (hds : ∀ c ∈ ds, isAddbDelimiter c = true)
    (hlen : ds.length < 99) (hb : b = verticalBar ∨ b = 0) {gap : ℕ} (hgap : gap ≤ 32)
    (w : UInt64) (ws : List UInt64) (recLen : ℤ) :
    motrAddbCleanRec (List.replicate gap blank ++
        (questionMark :: ((hexText w.toNat).leftpad 16 blank ++ wordsFrom (ds ++ b :: more) ws)))
        recLen = .ok ((w :: ws).flatMap wordBytes) ↔
      8 * ((w :: ws).length : ℤ) ≤ recLen ∧
        ∀ i, i + 1 < (w :: ws).length → ((gap + 19 * i + 17 : ℕ) : ℤ) ≠ recLen := by
  have hdelims : ∀ c ∈ List.replicate gap blank ++ [questionMark], isAddbDelimiter c = true := by
    intro c hc
    rcases List.mem_append.mp hc with hc | hc
    · exact isAddbDelimiter_of_mem_replicate hc
    · rw [List.mem_singleton.mp hc]
      rfl
  set rest := ds ++ b :: more with hrest
  have hsplit : List.replicate gap blank ++
      (questionMark :: ((hexText w.toNat).leftpad 16 blank ++ wordsFrom rest ws)) =
        (List.replicate gap blank ++ [questionMark]) ++
          ((hexText w.toNat).leftpad 16 blank ++ wordsFrom rest ws) := by
    rw [List.append_assoc, List.singleton_append]
  have hlength : ((List.replicate gap blank ++ [questionMark]) ++
      ((hexText w.toNat).leftpad 16 blank ++ wordsFrom rest ws)).length =
        gap + 18 + 19 * ws.length + rest.length := by
    simp only [List.length_append, List.length_replicate, List.length_singleton,
      length_leftpad_hexText, length_wordsFrom]
    omega
  have hbytes : ((w :: ws).flatMap wordBytes).length = 8 + (ws.flatMap wordBytes).length := by
    rw [List.flatMap_cons, List.length_append, length_wordBytes]
    rfl
  rw [hsplit, motrAddbCleanRec, hlength, List.length_cons]
  split
  · refine iff_of_false nofun fun h => ?_
    omega
  · by_cases hzero : recLen = 0
    · -- nothing is read
      rw [motrAddbCleanLoop, hlength, if_pos (by rw [hzero, sub_zero])]
      refine iff_of_false (fun h => ?_) fun h => ?_
      · have h := congrArg List.length (Except.ok.inj h)
        rw [hbytes, List.length_nil] at h
        omega
      · have := h.1
        omega
    · rw [motrAddbCleanLoop_word hdelims (by simp; omega) w ws rest _ [] (by
        rw [length_wordsFrom, List.length_append, List.length_replicate, List.length_singleton]
        push_cast
        omega)]
      split
      · next hfull =>
        refine iff_of_false nofun fun h => ?_
        rw [List.length_nil] at hfull
        have := h.1
        omega
      · next hfree =>
        rw [List.length_nil] at hfree
        have hroom : ((([] : List Byte) ++ wordBytes w).length : ℤ) ≤ recLen := by
          rw [List.nil_append, length_wordBytes]
          exact not_lt.mp hfree
        rw [List.flatMap_cons, ← List.nil_append (wordBytes w ++ _), ← List.append_assoc,
          motrAddbCleanLoop_iff more hds hlen hb ws (by omega) hroom, ← hrest, List.nil_append,
          length_wordBytes]
        refine and_congr (by push_cast [LeWord.width]; omega)
          ⟨fun h i h1 h2 => ?_, fun h i h1 h2 h3 => ?_⟩
        · exact h (ws.length - i) (by omega) (by omega) (by push_cast; omega)
        · exact h (ws.length - i) (by omega) (by push_cast at h3 ⊢; omega)

end Run

/-! ### Entries -/

/-- What is behind the loop of `mio_motr_addb_load` returns what was read. -/
theorem motrAddbSplit_eq_ok_iff {buf clock addbId stOfRec : List Byte} {timeStrLen : ℕ}
    (hjump : motrAddbJumpToDelimiter addbId = .ok stOfRec) {e : AddbEntry} :
    motrAddbSplit buf clock addbId timeStrLen = .ok e ↔
      motrAddbCleanRec stOfRec (toInt32 (stOfRec.length - addbEndOfRec buf stOfRec)) =
          .ok e.recBuf ∧
        e.recBuf ≠ [] ∧ e.head = clock.take timeStrLen ++ [0] := by
  rw [motrAddbSplit, hjump]
  simp only [bind, Except.bind]
  cases hclean : motrAddbCleanRec stOfRec
      (toInt32 (stOfRec.length - addbEndOfRec buf stOfRec)) with
  | error fault => cases fault <;> simp
  | ok cleaned =>
    simp only [Except.ok.injEq]
    split
    · next hnil =>
      subst hnil
      refine iff_of_false nofun fun h => h.2.1 h.1.symm
    · next hne =>
      obtain ⟨recBuf, head⟩ := e
      simp only [Except.ok.injEq, AddbEntry.mk.injEq]
      exact ⟨fun h => ⟨h.1, h.1 ▸ hne, h.2.symm⟩, fun h => ⟨h.1, h.2.2.symm⟩⟩

section Load

variable {mioMotrAddbId : UInt64} {junk : List Byte}

/-- Lines that hold no measurement are passed. -/
theorem mioMotrAddbLoad_skipped {skipped : List (List Byte)}
    (h : ∀ line ∈ skipped, line.head? ≠ some asterisk) (lines : List (List Byte)) :
    mioMotrAddbLoad mioMotrAddbId junk (skipped ++ lines) =
      mioMotrAddbLoad mioMotrAddbId junk lines := by
  induction skipped with
  | nil => rfl
  | cons line skipped ih =>
    rw [List.cons_append, mioMotrAddbLoad, if_pos (h line List.mem_cons_self)]
    exact ih fun l hl => h l (List.mem_cons_of_mem _ hl)

/-- The head of an entry is what the cursor finds first. -/
theorem head_of_mioMotrAddbLoad {line clock endOfTime : List Byte} {e : AddbEntry}
    (hskip : motrAddbSkipDelimiter ((line ++ 0 :: junk).drop 1) = .ok clock)
    (hjump : motrAddbJumpToDelimiter clock = .ok endOfTime)
    (h : mioMotrAddbLoad mioMotrAddbId junk [line] = .ok (some e, [])) :
    e.head = clock.take (clock.length - endOfTime.length) ++ [0] := by
  rw [mioMotrAddbLoad] at h
  split at h
  · cases h
  · simp only [hskip, hjump, bind, Except.bind] at h
    cases hid : motrAddbSkipDelimiter endOfTime with
    | error fault => simp only [hid, reduceCtorEq] at h
    | ok addbId =>
      simp only [hid] at h
      split at h
      · cases h
      · next id rest hscan =>
        split at h
        · split at h
          · cases h
          · next entry hsplit =>
            cases h
            cases hst : motrAddbJumpToDelimiter addbId with
            | error fault =>
              rw [motrAddbSplit, hst] at hsplit
              cases hsplit
            | ok stOfRec => exact ((motrAddbSplit_eq_ok_iff hst).mp hsplit).2.2
        · cases h

end Load

end CortxMio
