import CortxMio.Lib.Cursor
import CortxMio.Lib.Fallible
import CortxMio.Log.Logger
import CortxMio.Telem.Rec

/-!
# Telemetry records in the log

Without Motr, telemetry records are lines of the log of level `telem`. A record is
encoded as words of text (`CortxMio.mioTelemLogEncode`), logged
(`CortxMio.mioTelemLogStore`), and later found again by its level, and split into the
time and the text (`CortxMio.mioTelemLogLoad`).

What was stored is found again, whatever follows in the log, if the line is as it
should be and the text is free of newlines, and in no other case
(`CortxMio.restores_iff`). Since the line depends on what the stack held when it was
written, so does this (`CortxMio.log_iff`); on a stack of zeros a record is stored
without its time (`CortxMio.not_log_zeroStack`).
-/

namespace CortxMio

open Lib

/-! ### Encoding -/

/-- `telem_log_rec_add_string`: the length is a `uint8_t`. -/
def telemLogRecAddString (rec : List Byte) (string : List Byte) : List Byte :=
  rec ++ string.take (min mioLogMaxRecLen string.length % 256) ++ [blank]

/-- `telem_log_rec_add_u16`, `_u32` and `_u64`. -/
def telemLogRecAdd {α : Type} [LeWord α] (rec : List Byte) (val : α) : List Byte :=
  telemLogRecAddString rec (decimal (LeWord.toNat val))

/-- `telem_log_rec_add_array`: the count is written as a `uint16_t`. -/
def telemLogRecAddArray {α : Type} [LeWord α] (rec : List Byte) (arr : MioTelemetryArray α) :
    List Byte :=
  arr.mtaElms.foldl telemLogRecAdd (telemLogRecAdd rec (UInt16.ofInt arr.mtaNrElms))

/-- `telem_log_rec_add_value`. A string goes through the default branch, which reads
eight bytes of it as a number; records with no type are turned down earlier. -/
def telemLogRecAddValue (rec : List Byte) : MioTelemetryValue → Except Fault (List Byte)
  | .uint16 x => .ok (telemLogRecAdd rec x)
  | .uint32 x => .ok (telemLogRecAdd rec x)
  | .uint64 x | .timespan x | .timepoint x => .ok (telemLogRecAdd rec x)
  | .arrayUint16 arr => .ok (telemLogRecAddArray rec arr)
  | .arrayUint32 arr => .ok (telemLogRecAddArray rec arr)
  | .arrayUint64 arr => .ok (telemLogRecAddArray rec arr)
  | .none => .ok rec
  | .string s =>
    if s.buf.length < 8 then .error .oob
    else .ok (telemLogRecAdd rec (UInt64.ofNat (leNat (s.buf.take 8))))
  | .invalid | .other _ => .error .abort

/-- `telem_data_type_names`. -/
def telemDataTypeNames : MioTelemetryType → Option (List Byte)
  | .uint16 => some (ascii "UINT16")
  | .uint32 => some (ascii "UINT32")
  | .uint64 => some (ascii "UINT64")
  | .timespan => some (ascii "TIMESPAN")
  | .timepoint => some (ascii "TIMEPOINT")
  | .string => some (ascii "STRING")
  | .arrayUint16 => some (ascii "ARRAY_UINT16")
  | .arrayUint32 => some (ascii "ARRAY_UINT32")
  | .arrayUint64 => some (ascii "ARRAY_UINT64")
  | .invalid | .none | .other _ => none

/-- `TELEM_LOG_NO_PREFIX_SIGN`. -/
abbrev telemLogNoPrefixSign : UInt16 := 0

/-- `TELEM_LOG_PREFIX_SIGN`. -/
abbrev telemLogPrefixSign : UInt16 := 1

/-- The part of `mio_telem_log_encode` that writes the prefix. -/
def telemLogRecAddPrefix : Option CStr → List Byte
  | some pre => telemLogRecAddString (telemLogRecAdd [] telemLogPrefixSign) pre.bytes
  | none => telemLogRecAdd [] telemLogNoPrefixSign

/-- The part of `mio_telem_log_encode` that writes. A string that is a null pointer
fails an assertion. -/
def telemLogRecAddRec (rec : MioTelemetryRec) : Except Fault (List Byte) :=
  let cursor := telemLogRecAddPrefix rec.mtrPrefix
  match rec.mtrTopic, telemDataTypeNames rec.mtrValue.mtrType with
  | some topic, some name =>
    let cursor := telemLogRecAddString cursor topic.bytes
    let cursor := telemLogRecAddString cursor name
    telemLogRecAddValue cursor rec.mtrValue
  | _, _ => .error .abort

/-- `mio_telem_log_encode`: the string in the buffer that it allocates, cleared and of
fixed size. -/
def mioTelemLogEncode (rec : MioTelemetryRec) : Except Fault CStr :=
  let type := rec.mtrValue.mtrType.code
  if type ≤ MioTelemetryType.invalid.code ∨ mioTmTypeNr ≤ type then .error (.err (- EINVAL))
  else do
    let text ← telemLogRecAddRec rec
    if mioLogMaxRecLen < text.length then .error .oob else .ok (.ofBuf text)

/-! ### Storing and loading -/

/-- A newline. -/
abbrev newline : Byte := 10

/-- The message of `mio_telem_log_store`: the format is `%s` and a newline. -/
def telemLogMessage (buf : CStr) : CStr where
  bytes := buf.bytes ++ [newline]
  noNul h := by
    rcases List.mem_append.mp h with h | h
    · exact buf.noNul h
    · exact absurd (List.mem_singleton.mp h) (by decide)

/-- `mio_telem_log_store`: the bytes that go to the log. -/
def mioTelemLogStore (stack : LogStack) (t : LogTime) (buf : CStr) : List Byte :=
  mioLog stack t .telemetry (telemLogMessage buf)

/-- What `getline` returns, call by call, until the end of a file. -/
def getlines : List Byte → List (List Byte)
  | [] => []
  | b :: bs =>
    if b = newline then [newline] :: getlines bs
    else match getlines bs with
      | [] => [[b]]
      | line :: lines => (b :: line) :: lines

/-- `telem_log_skip_delimiter`: the cursor at the rest of a buffer. -/
def telemLogSkipDelimiter (buf : List Byte) : Except Fault (List Byte) :=
  match scanWhile isspace (strnlen mioLogMaxRecLen buf) 0 buf with
  | none => .error .oob
  | some n => .ok (buf.drop n)

/-- `telem_log_jump_to_delimiter`. -/
def telemLogJumpToDelimiter (buf : List Byte) : Except Fault (List Byte) :=
  match scanWhile (fun b => !isspace b && b != newline) (strnlen mioLogMaxRecLen buf) 0 buf with
  | none => .error .oob
  | some n => .ok (buf.drop n)

/-- The two buffers that `mio_telem_log_load` returns. -/
structure TelemLogEntry where
  /-- `*rec_buf`. -/
  recBuf : List Byte
  /-- `*head`. -/
  head : List Byte
  deriving DecidableEq

/-- What `mio_telem_log_load` does with the line that it has found. It copies as many
bytes from behind the time as the line has besides the time, some from behind the end
of the line; there, in memory, is `junk`. -/
def telemLogSplit (junk line : List Byte) : Except Fault TelemLogEntry := do
  let buf := line ++ 0 :: junk
  let clock ← telemLogSkipDelimiter
    (buf.drop (strnlen mioLogMaxRecLen (mioLogLevels .telemetry).buf + 2))
  let rest ← telemLogJumpToDelimiter clock
  let timeStrLen := clock.length - rest.length
  let len := line.length - timeStrLen
  if line.length < timeStrLen ∨ rest.length < len then .error .oob
  else return ⟨rest.take len, clock.take timeStrLen ++ [0]⟩

/-- `mio_telem_log_load`, with the lines that are left of the log: the entry, unless
the end of the file is reached, and the lines that are left then. -/
def mioTelemLogLoad (junk : List Byte) :
    List (List Byte) → Except Fault (Option TelemLogEntry × List (List Byte))
  | [] => .ok (none, [])
  | line :: lines =>
    if (mioLogLevels .telemetry).bytes <:+: (CStr.ofBuf line).bytes then do
      let entry ← telemLogSplit junk line
      return (some entry, lines)
    else mioTelemLogLoad junk lines

/-! ### Encoded texts -/

/-- Bytes that end neither a string nor a line. -/
def Plain (l : List Byte) : Prop := ∀ b ∈ l, b ≠ 0 ∧ b ≠ newline

instance (l : List Byte) : Decidable (Plain l) :=
  List.decidableBAll (fun b => b ≠ 0 ∧ b ≠ newline) l

theorem Plain.append {l l' : List Byte} (h : Plain l) (h' : Plain l') : Plain (l ++ l') := by
  intro b hb
  rcases List.mem_append.mp hb with hb | hb
  · exact h b hb
  · exact h' b hb

theorem plain_blank : Plain [blank] := by decide

theorem plain_decimal (n : ℕ) : Plain (decimal n) := by
  intro b hb
  have hle : 48 ≤ b := (mem_decimal hb).1
  constructor
  · rintro rfl
    exact absurd hle (by decide)
  · rintro rfl
    exact absurd hle (by decide)

/-- A number is appended to a text as plain bytes. -/
theorem exists_telemLogRecAdd {α : Type} [LeWord α] (rec : List Byte) (val : α) :
    ∃ bs, telemLogRecAdd rec val = rec ++ bs ∧ Plain bs := by
  refine ⟨_, List.append_assoc _ _ _, Plain.append (fun b hb => ?_) plain_blank⟩
  exact plain_decimal _ b (List.mem_of_mem_take hb)

theorem exists_foldl_telemLogRecAdd {α : Type} [LeWord α] (elms : List α) (rec : List Byte) :
    ∃ bs, elms.foldl telemLogRecAdd rec = rec ++ bs ∧ Plain bs := by
  induction elms generalizing rec with
  | nil => exact ⟨[], (List.append_nil rec).symm, fun b hb => by cases hb⟩
  | cons x elms ih =>
    obtain ⟨bs, hbs, hplain⟩ := exists_telemLogRecAdd rec x
    obtain ⟨bs', hbs', hplain'⟩ := ih (telemLogRecAdd rec x)
    exact ⟨bs ++ bs', by rw [List.foldl_cons, hbs', hbs, List.append_assoc],
      hplain.append hplain'⟩

theorem exists_telemLogRecAddArray {α : Type} [LeWord α] (rec : List Byte)
    (arr : MioTelemetryArray α) : ∃ bs, telemLogRecAddArray rec arr = rec ++ bs ∧ Plain bs := by
  obtain ⟨bs, hbs, hplain⟩ := exists_telemLogRecAdd rec (UInt16.ofInt arr.mtaNrElms)
  obtain ⟨bs', hbs', hplain'⟩ := exists_foldl_telemLogRecAdd arr.mtaElms
    (telemLogRecAdd rec (UInt16.ofInt arr.mtaNrElms))
  exact ⟨bs ++ bs', by rw [telemLogRecAddArray, hbs', hbs, List.append_assoc],
    hplain.append hplain'⟩

/-- **A value is appended to a text as plain bytes.** -/
theorem exists_telemLogRecAddValue {rec rec' : List Byte} {value : MioTelemetryValue}
    (h : telemLogRecAddValue rec value = .ok rec') : ∃ bs, rec' = rec ++ bs ∧ Plain bs := by
  cases value with
  | none => exact ⟨[], by simpa using (Except.ok.inj h).symm, fun b hb => by cases hb⟩
  | uint16 x => exact Except.ok.inj h ▸ exists_telemLogRecAdd rec x
  | uint32 x => exact Except.ok.inj h ▸ exists_telemLogRecAdd rec x
  | uint64 x => exact Except.ok.inj h ▸ exists_telemLogRecAdd rec x
  | timespan x => exact Except.ok.inj h ▸ exists_telemLogRecAdd rec x
  | timepoint x => exact Except.ok.inj h ▸ exists_telemLogRecAdd rec x
  | arrayUint16 arr => exact Except.ok.inj h ▸ exists_telemLogRecAddArray rec arr
  | arrayUint32 arr => exact Except.ok.inj h ▸ exists_telemLogRecAddArray rec arr
  | arrayUint64 arr => exact Except.ok.inj h ▸ exists_telemLogRecAddArray rec arr
  | string s =>
    rw [telemLogRecAddValue] at h
    split at h
    · cases h
    · exact Except.ok.inj h ▸ exists_telemLogRecAdd rec _
  | invalid => cases h
  | other code => cases h

/-- The names of the types are plain, and not blank. -/
theorem telemDataTypeNames_spec {type : MioTelemetryType} {name : List Byte}
    (h : telemDataTypeNames type = some name) :
    Plain (name.take (min mioLogMaxRecLen name.length % 256)) ∧
      ∃ b ∈ name.take (min mioLogMaxRecLen name.length % 256), isspace b = false := by
  cases type <;> cases h <;> decide +kernel

theorem zero_notMem_telemLogRecAddString {rec string : List Byte} (hrec : 0 ∉ rec)
    (hstring : 0 ∉ string) : 0 ∉ telemLogRecAddString rec string := by
  rw [telemLogRecAddString, List.append_assoc, List.mem_append, List.mem_append]
  rintro (h | h | h)
  · exact hrec h
  · exact hstring (List.mem_of_mem_take h)
  · exact absurd (List.mem_singleton.mp h) (by decide)

/-- A text begins with a word of one byte, the flag of the prefix. -/
theorem exists_telemLogRecAddPrefix (pre : Option CStr) :
    0 ∉ telemLogRecAddPrefix pre ∧ ∃ flag rest,
      telemLogRecAddPrefix pre = flag :: blank :: rest ∧ isspace flag = false ∧ flag ≠ newline := by
  cases pre with
  | none => exact ⟨by decide, 48, [], by decide, by decide, by decide⟩
  | some pre =>
    have hsign : telemLogRecAdd [] telemLogPrefixSign = [49, blank] := by decide
    refine ⟨?_, 49, pre.bytes.take (min mioLogMaxRecLen pre.bytes.length % 256) ++ [blank], ?_,
      by decide, by decide⟩
    · exact zero_notMem_telemLogRecAddString (by rw [hsign]; decide) pre.noNul
    · rw [telemLogRecAddPrefix, hsign, telemLogRecAddString, List.append_assoc]
      rfl

/-- What is written for a record: the prefix, the topic, and then plain bytes that are
not all blank. -/
theorem exists_telemLogRecAddRec {rec : MioTelemetryRec} {text : List Byte}
    (h : telemLogRecAddRec rec = .ok text) :
    ∃ mid back, text = telemLogRecAddPrefix rec.mtrPrefix ++ mid ++ back ∧ 0 ∉ mid ∧
      Plain back ∧ ∃ b ∈ back, isspace b = false := by
  obtain ⟨time, pre, topic, value⟩ := rec
  rw [telemLogRecAddRec] at h
  split at h
  · next topic name htopic hname =>
    obtain ⟨hplain, b, hb, hspace⟩ := telemDataTypeNames_spec hname
    obtain ⟨bs, rfl, hbs⟩ := exists_telemLogRecAddValue h
    refine ⟨topic.bytes.take (min mioLogMaxRecLen topic.bytes.length % 256) ++ [blank],
      name.take (min mioLogMaxRecLen name.length % 256) ++ [blank] ++ bs, ?_, ?_, ?_, b, ?_, hspace⟩
    · simp only [telemLogRecAddString, List.append_assoc]
    · rw [List.mem_append]
      rintro (h0 | h0)
      · exact topic.noNul (List.mem_of_mem_take h0)
      · exact absurd (List.mem_singleton.mp h0) (by decide)
    · exact (hplain.append plain_blank).append hbs
    · exact List.mem_append_left _ (List.mem_append_left _ hb)
  · cases h

/-- **The shape of an encoded text**: it begins with the flag of the prefix, and it
ends with the type and the value, which are plain and not blank. -/
theorem exists_of_mioTelemLogEncode {rec : MioTelemetryRec} {text : CStr}
    (h : mioTelemLogEncode rec = .ok text) :
    (∃ flag rest, text.bytes = flag :: blank :: rest ∧ isspace flag = false ∧ flag ≠ newline) ∧
      ∃ front back, text.bytes = front ++ back ∧ Plain back ∧ ∃ b ∈ back, isspace b = false := by
  rw [mioTelemLogEncode] at h
  split at h
  · cases h
  obtain ⟨raw, hraw, h⟩ := bind_eq_ok_iff.mp h
  split at h
  · cases h
  obtain rfl := Except.ok.inj h
  obtain ⟨mid, back, rfl, hmid, hplain, hb⟩ := exists_telemLogRecAddRec hraw
  obtain ⟨hpre, flag, rest, hflag, hspace, hnewline⟩ := exists_telemLogRecAddPrefix rec.mtrPrefix
  have hzero : 0 ∉ telemLogRecAddPrefix rec.mtrPrefix ++ mid ++ back := by
    rw [List.mem_append, List.mem_append]
    rintro ((h0 | h0) | h0)
    · exact hpre h0
    · exact hmid h0
    · exact (hplain 0 h0).1 rfl
  have hbytes : (CStr.ofBuf (telemLogRecAddPrefix rec.mtrPrefix ++ mid ++ back)).bytes =
      telemLogRecAddPrefix rec.mtrPrefix ++ mid ++ back :=
    congrArg CStr.bytes (CStr.ofBuf_bytes ⟨_, hzero⟩)
  rw [hbytes]
  refine ⟨⟨flag, rest ++ mid ++ back, ?_, hspace, hnewline⟩, _, back, rfl, hplain, hb⟩
  rw [hflag]
  rfl

/-! ### Lines -/

/-- A line ends at its newline. -/
theorem getlines_append_cons {l : List Byte} (hl : newline ∉ l) (rest : List Byte) :
    getlines (l ++ newline :: rest) = (l ++ [newline]) :: getlines rest := by
  induction l with
  | nil => rw [List.nil_append, getlines, if_pos rfl, List.nil_append]
  | cons b l ih =>
    have hb : b ≠ newline := fun h => hl (h ▸ List.mem_cons_self)
    rw [List.cons_append, getlines, if_neg hb, ih fun h => hl (List.mem_cons_of_mem _ h)]
    rfl

/-- The last line may lack a newline. -/
theorem getlines_of_notMem {l : List Byte} (hl : newline ∉ l) (hne : l ≠ []) :
    getlines l = [l] := by
  induction l with
  | nil => exact absurd rfl hne
  | cons b l ih =>
    have hb : b ≠ newline := fun h => hl (h ▸ List.mem_cons_self)
    rw [getlines, if_neg hb]
    cases l with
    | nil => rfl
    | cons c l => rw [ih (fun h => hl (List.mem_cons_of_mem _ h)) (List.cons_ne_nil c l)]

/-! ### Loading -/

theorem telemLogSkipDelimiter_eq {blanks rest : List Byte} {b : Byte}
    (hblanks : ∀ c ∈ blanks, isspace c = true) (hb : isspace b = false)
    (hlen : blanks.length < strnlen mioLogMaxRecLen (blanks ++ b :: rest)) :
    telemLogSkipDelimiter (blanks ++ b :: rest) = .ok (b :: rest) := by
  have h : scanWhile isspace (strnlen mioLogMaxRecLen (blanks ++ b :: rest)) 0
      (blanks ++ b :: rest) = some (0 + blanks.length) :=
    scanWhile_append hblanks hb (by rwa [Nat.zero_add])
  rw [telemLogSkipDelimiter, h]
  simp

theorem telemLogJumpToDelimiter_eq {word rest : List Byte} {b : Byte}
    (hword : ∀ c ∈ word, isspace c = false) (hb : isspace b = true)
    (hlen : word.length < strnlen mioLogMaxRecLen (word ++ b :: rest)) :
    telemLogJumpToDelimiter (word ++ b :: rest) = .ok (b :: rest) := by
  have hp : ∀ c ∈ word, (!isspace c && c != newline) = true := by
    intro c hc
    have hne : c ≠ newline := by
      rintro rfl
      exact absurd (hword newline hc) (by decide)
    simp [hword c hc, hne]
  have h : scanWhile (fun b => !isspace b && b != newline)
      (strnlen mioLogMaxRecLen (word ++ b :: rest)) 0 (word ++ b :: rest) =
        some (0 + word.length) :=
    scanWhile_append hp (by simp [hb]) (by rwa [Nat.zero_add])
  rw [telemLogJumpToDelimiter, h]
  simp

/-- **How a line is split**: blanks, a word, and from the blank behind the word on the
text. Nothing of what is behind the line gets into the text. -/
theorem telemLogSplit_eq {junk blanks word tail : List Byte} (hjunk : 8 ≤ junk.length)
    (hblanks : ∀ c ∈ blanks, isspace c = true) (hblanksLen : blanks.length ≤ 2)
    (hblanksZero : 0 ∉ blanks) (hword : ∀ c ∈ word, isspace c = false) (hwordZero : 0 ∉ word)
    (hwordPos : 0 < word.length) (hwordLen : word.length < mioLogMaxRecLen) (htail : 0 ∉ tail) :
    ∃ entry, telemLogSplit junk (ascii "[telem]" ++ blanks ++ word ++ blank :: tail) = .ok entry ∧
      (CStr.ofBuf entry.head).bytes = word ∧
      (CStr.ofBuf entry.recBuf).bytes = blank :: tail := by
  have hmax : mioLogMaxRecLen = 1024 := rfl
  obtain ⟨b, rest, rfl⟩ := List.exists_cons_of_length_pos hwordPos
  have htailBlank : 0 ∉ blank :: tail := by
    rw [List.mem_cons, not_or]
    exact ⟨by decide, htail⟩
  -- the cursor after the level
  have hdrop : (ascii "[telem]" ++ blanks ++ b :: rest ++ blank :: tail ++ 0 :: junk).drop
      (strnlen mioLogMaxRecLen (mioLogLevels .telemetry).buf + 2) =
        blanks ++ b :: (rest ++ blank :: tail ++ 0 :: junk) := by
    rw [show strnlen mioLogMaxRecLen (mioLogLevels .telemetry).buf + 2 =
      (ascii "[telem]").length by decide]
    simp
  have hskip : telemLogSkipDelimiter (blanks ++ b :: (rest ++ blank :: tail ++ 0 :: junk)) =
      .ok (b :: (rest ++ blank :: tail ++ 0 :: junk)) := by
    refine telemLogSkipDelimiter_eq hblanks (hword b List.mem_cons_self) ?_
    have hzero : 0 ∉ blanks ++ (b :: rest ++ blank :: tail) := by
      simp only [List.mem_append, not_or]
      exact ⟨hblanksZero, hwordZero, htailBlank⟩
    rw [show blanks ++ b :: (rest ++ blank :: tail ++ 0 :: junk) =
      blanks ++ (b :: rest ++ blank :: tail) ++ 0 :: junk by simp, strnlen_append_cons _ hzero]
    simp only [List.length_append, List.length_cons]
    omega
  have hjump : telemLogJumpToDelimiter (b :: (rest ++ blank :: tail ++ 0 :: junk)) =
      .ok (blank :: (tail ++ 0 :: junk)) := by
    have hzero : 0 ∉ b :: rest ++ blank :: tail := by
      simp only [List.mem_append, not_or]
      exact ⟨hwordZero, htailBlank⟩
    have h : telemLogJumpToDelimiter (b :: rest ++ blank :: (tail ++ 0 :: junk)) =
        .ok (blank :: (tail ++ 0 :: junk)) := by
      refine telemLogJumpToDelimiter_eq hword (by decide) ?_
      rw [show b :: rest ++ blank :: (tail ++ 0 :: junk) =
        (b :: rest ++ blank :: tail) ++ 0 :: junk by simp, strnlen_append_cons _ hzero]
      simp only [List.length_append, List.length_cons] at hwordLen ⊢
      omega
    simpa using h
  have hlen : (b :: (rest ++ blank :: tail ++ 0 :: junk)).length -
      (blank :: (tail ++ 0 :: junk)).length = rest.length + 1 := by
    simp only [List.length_append, List.length_cons]
    omega
  have hline : (ascii "[telem]" ++ blanks ++ b :: rest ++ blank :: tail).length =
      7 + blanks.length + (rest.length + 1) + (tail.length + 1) := by
    simp only [List.length_append, List.length_cons]
    rfl
  have htake : (b :: (rest ++ blank :: tail ++ 0 :: junk)).take (rest.length + 1) = b :: rest := by
    simp
  refine ⟨⟨(blank :: (tail ++ 0 :: junk)).take (7 + blanks.length + (tail.length + 1)),
    b :: rest ++ [0]⟩, ?_, ?_, ?_⟩
  · rw [telemLogSplit, hdrop, hskip]
    simp only [bind, Except.bind]
    rw [hjump]
    simp only
    rw [hlen, hline, htake, if_neg]
    · congr 3
      omega
    · simp only [List.length_append, List.length_cons]
      omega
  · exact CStr.bytes_ofBuf_of_begins (List.prefix_refl _) hwordZero
  · refine CStr.bytes_ofBuf_of_begins (List.prefix_take_iff.mpr ⟨?_, ?_⟩) htailBlank
    · exact ⟨junk, by simp⟩
    · simp only [List.length_append, List.length_cons, List.length_nil]
      omega

/-- **Loading a telemetry line**: the word behind the level is the head, and the text
goes on to the end of the line. -/
theorem mioTelemLogLoad_getlines {junk tail : List Byte} (blanks word rest : List Byte)
    (hjunk : 8 ≤ junk.length) (hblanks : ∀ c ∈ blanks, isspace c = true ∧ c ≠ newline ∧ c ≠ 0)
    (hblanksLen : blanks.length ≤ 2) (hword : ∀ c ∈ word, isspace c = false ∧ c ≠ 0)
    (hwordPos : 0 < word.length) (hwordLen : word.length < mioLogMaxRecLen) (htail : Plain tail) :
    ∃ entry, mioTelemLogLoad junk (getlines (ascii "[telem]" ++ blanks ++ word ++
        blank :: (tail ++ newline :: rest))) = .ok (some entry, getlines rest) ∧
      (CStr.ofBuf entry.head).bytes = word ∧
      (CStr.ofBuf entry.recBuf).bytes = blank :: (tail ++ [newline]) := by
  have hnewline : newline ∉ ascii "[telem]" ++ blanks ++ word ++ blank :: tail := by
    simp only [List.mem_append, List.mem_cons, not_or]
    refine ⟨⟨⟨by decide, fun h => (hblanks _ h).2.1 rfl⟩, fun h => ?_⟩, by decide,
      fun h => (htail _ h).2 rfl⟩
    exact absurd (hword _ h).1 (by decide)
  have hzero : 0 ∉ ascii "[telem]" ++ blanks ++ word ++ blank :: (tail ++ [newline]) := by
    simp only [List.mem_append, List.mem_cons, not_or]
    exact ⟨⟨⟨by decide, fun h => (hblanks _ h).2.2 rfl⟩, fun h => (hword _ h).2 rfl⟩, by decide,
      fun h => (htail _ h).1 rfl, by decide⟩
  have hlines : getlines (ascii "[telem]" ++ blanks ++ word ++ blank :: (tail ++ newline :: rest)) =
      (ascii "[telem]" ++ blanks ++ word ++ blank :: (tail ++ [newline])) :: getlines rest := by
    have h := getlines_append_cons hnewline rest
    simpa using h
  have hfound : (mioLogLevels .telemetry).bytes <:+:
      (CStr.ofBuf (ascii "[telem]" ++ blanks ++ word ++ blank :: (tail ++ [newline]))).bytes := by
    have hbytes := congrArg CStr.bytes (CStr.ofBuf_bytes ⟨_, hzero⟩)
    rw [hbytes]
    exact ⟨ascii "[", ascii "]" ++ (blanks ++ (word ++ blank :: (tail ++ [newline]))), by
      simp only [List.append_assoc]
      rfl⟩
  have htailZero : 0 ∉ tail ++ [newline] := by
    rw [List.mem_append, not_or]
    exact ⟨fun h => (htail _ h).1 rfl, by decide⟩
  obtain ⟨entry, hentry, hhead, hrec⟩ := telemLogSplit_eq hjunk (fun c hc => (hblanks c hc).1)
    hblanksLen (fun h => (hblanks _ h).2.2 rfl) (fun c hc => (hword c hc).1)
    (fun h => (hword _ h).2 rfl) hwordPos hwordLen htailZero
  refine ⟨entry, ?_, hhead, hrec⟩
  rw [hlines, mioTelemLogLoad, if_pos hfound, hentry]
  rfl

/-! ### Storing and loading a record -/

/-- The text is short enough for one line. -/
def FitsLine (t : LogTime) (text : CStr) : Prop :=
  (logHead .telemetry ++ t.text ++ [blank] ++ (telemLogMessage text).bytes).length ≤
    mioLogMaxRecLen - 1

/-- What is written is found again: whatever follows in the log, and whatever memory
holds behind the line, the next load returns the time as the head and a text that is
decoded like the one that was stored, word by word, and takes just this line. -/
def Restores (line : List Byte) (t : LogTime) (text : CStr) : Prop :=
  ∀ rest junk : List Byte, 8 ≤ junk.length →
    ∃ entry, mioTelemLogLoad junk (getlines (line ++ rest)) = .ok (some entry, getlines rest) ∧
      (CStr.ofBuf entry.head).bytes = t.text ∧
      words (CStr.ofBuf entry.recBuf).bytes = words text.bytes

/-- The line of a record, if the buffer of the time held no more than a time. -/
theorem mioTelemLogStore_of_le {stack : LogStack} {t : LogTime} {text : CStr}
    (hfits : FitsLine t text) (h : strnlen mioLogMaxTimestampLen stack.timestamp ≤ 29) :
    mioTelemLogStore stack t text =
      ascii "[telem]" ++ [blank] ++ t.text.take (strnlen mioLogMaxTimestampLen stack.timestamp) ++
        blank :: (text.bytes ++ [newline]) := by
  rw [mioTelemLogStore, mioLog_of_le t _ _ h, List.take_of_length_le]
  · simp only [telemLogMessage, List.append_assoc]
    rfl
  · refine le_trans ?_ hfits
    simp only [List.length_append, List.length_take]
    omega

/-- The blank before a text and the newline after it belong to no word. -/
theorem words_blank_newline (l : List Byte) : words (blank :: (l ++ [newline])) = words l := by
  rw [← List.nil_append (blank :: _), words_append_cons _ _ (by decide),
    words_append_cons _ _ (by decide), words_nil, List.nil_append, List.append_nil]

/-- A text with a newline has words behind it. -/
theorem words_text_ne {text : CStr} {tail rest : List Byte} {rec : MioTelemetryRec}
    (henc : mioTelemLogEncode rec = .ok text) (h : text.bytes = tail ++ newline :: rest) :
    words tail ≠ words text.bytes := by
  obtain ⟨-, front, back, hback, hplain, b, hb, hspace⟩ := exists_of_mioTelemLogEncode henc
  -- the newline is not in the plain part, so all of that comes after it
  have hmem : b ∈ rest := by
    rw [h] at hback
    rcases List.append_eq_append_iff.mp hback with ⟨mid, hfront, hmid⟩ | ⟨mid, hfront, hmid⟩
    · cases mid with
      | nil =>
        rw [List.nil_append] at hmid
        exact absurd rfl (hplain newline (hmid ▸ List.mem_cons_self)).2
      | cons c mid =>
        rw [(List.cons.inj hmid).2]
        exact List.mem_append_right _ hb
    · have : newline ∈ back := by
        rw [hmid]
        exact List.mem_append_right _ List.mem_cons_self
      exact absurd rfl (hplain newline this).2
  rw [h, words_append_cons tail rest (by decide)]
  intro heq
  have hlen := congrArg List.length heq
  rw [List.length_append] at hlen
  have hpos := List.length_pos_of_ne_nil (words_ne_nil hspace hmem)
  omega

/-- **What is loaded from the line of a record** whose time is not cut off as a whole,
nor followed by a zero: so much of the time as there is, and the text up to its first
newline. -/
theorem mioTelemLogLoad_mioTelemLogStore {stack : LogStack} {t : LogTime} {text : CStr}
    {tail more junk : List Byte} (rest : List Byte) (hfits : FitsLine t text)
    (hjunk : 8 ≤ junk.length)
    (hpos : 0 < strnlen mioLogMaxTimestampLen stack.timestamp)
    (hle : strnlen mioLogMaxTimestampLen stack.timestamp ≤ 29)
    (htail : newline ∉ tail) (htext : text.bytes ++ [newline] = tail ++ newline :: more) :
    ∃ entry, mioTelemLogLoad junk (getlines (mioTelemLogStore stack t text ++ rest)) =
        .ok (some entry, getlines (more ++ rest)) ∧
      (CStr.ofBuf entry.head).bytes =
        t.text.take (strnlen mioLogMaxTimestampLen stack.timestamp) ∧
      (CStr.ofBuf entry.recBuf).bytes = blank :: (tail ++ [newline]) := by
  rw [mioTelemLogStore_of_le hfits hle, htext]
  set timeLen := strnlen mioLogMaxTimestampLen stack.timestamp
  have hplain : Plain tail := by
    intro b hb
    have hmem : b ∈ (telemLogMessage text).bytes := by
      show b ∈ text.bytes ++ [newline]
      rw [htext]
      exact List.mem_append_left _ hb
    exact ⟨fun h => (telemLogMessage text).noNul (h ▸ hmem), fun h => htail (h ▸ hb)⟩
  have hlen : (t.text.take timeLen).length = timeLen := by
    rw [List.length_take, t.length_text, Nat.min_eq_left hle]
  have h := mioTelemLogLoad_getlines [blank] (t.text.take timeLen) (more ++ rest) hjunk
    (List.forall_mem_singleton.mpr (by decide)) (by decide)
    (fun c hc => ⟨LogTime.not_isspace_of_mem_text (List.mem_of_mem_take hc),
      LogTime.ne_zero_of_mem_text (List.mem_of_mem_take hc)⟩) (by omega)
    (lt_of_le_of_lt (hlen.trans_le hle) (by decide)) hplain
  simpa using h

/-- **Without a time** the head is the first word of the text, the flag of the prefix. -/
theorem mioTelemLogLoad_of_eq_zero {stack : LogStack} {t : LogTime} {text : CStr}
    {rec : MioTelemetryRec} {junk : List Byte} (henc : mioTelemLogEncode rec = .ok text)
    (hfits : FitsLine t text) (hjunk : 8 ≤ junk.length)
    (hzero : strnlen mioLogMaxTimestampLen stack.timestamp = 0) :
    ∃ entry lines flag, mioTelemLogLoad junk (getlines (mioTelemLogStore stack t text)) =
      .ok (some entry, lines) ∧ (CStr.ofBuf entry.head).bytes = [flag] := by
  obtain ⟨⟨flag, rest, hflag, hspace, hnewline⟩, -⟩ := exists_of_mioTelemLogEncode henc
  obtain ⟨tail, more, hmore, htail⟩ := List.eq_append_cons_of_mem
    (show newline ∈ rest ++ [newline] from List.mem_append_right _ (List.mem_singleton_self _))
  have hnoNul := (telemLogMessage text).noNul
  have hbytes : (telemLogMessage text).bytes = flag :: blank :: (tail ++ newline :: more) := by
    rw [← hmore]
    show text.bytes ++ [newline] = _
    rw [hflag]
    rfl
  rw [hbytes] at hnoNul
  have hplain : Plain tail := fun b hb =>
    ⟨fun h => hnoNul (List.mem_cons_of_mem _ (List.mem_cons_of_mem _
      (List.mem_append_left _ (h ▸ hb)))), fun h => htail (h ▸ hb)⟩
  have hword : ∀ c ∈ [flag], isspace c = false ∧ c ≠ 0 := by
    intro c hc
    rw [List.mem_singleton.mp hc]
    exact ⟨hspace, fun h => hnoNul (h ▸ List.mem_cons_self)⟩
  obtain ⟨entry, hload, hhead, -⟩ := mioTelemLogLoad_getlines [blank, blank] [flag] more hjunk
    (by decide +kernel) (by decide) hword Nat.one_pos (by simp) hplain
  refine ⟨entry, getlines more, flag, ?_, hhead⟩
  have hline : mioTelemLogStore stack t text =
      ascii "[telem]" ++ [blank, blank] ++ [flag] ++ blank :: (tail ++ newline :: more) := by
    have hmsg : text.bytes ++ [newline] = flag :: blank :: (tail ++ newline :: more) := hbytes
    rw [mioTelemLogStore_of_le hfits (by omega), hzero, hmsg]
    simp
  rw [hline]
  exact hload

/-- A line that ends with the time is split into the time and no text. -/
theorem telemLogSplit_of_noText {junk : List Byte} (hjunk : 8 ≤ junk.length) (t : LogTime) :
    ∃ entry, telemLogSplit junk (ascii "[telem]" ++ [blank] ++ t.text) = .ok entry ∧
      (CStr.ofBuf entry.recBuf).bytes = [] := by
  have hlen := t.length_text
  have hstr : strnlen mioLogMaxRecLen (t.text ++ 0 :: junk) = 29 := by
    rw [strnlen_append_cons _ t.zero_notMem_text, hlen]
    rfl
  have hskip : telemLogSkipDelimiter ([blank] ++ (t.text ++ 0 :: junk)) =
      .ok (t.text ++ 0 :: junk) := by
    obtain ⟨b, rest, htext⟩ := List.exists_cons_of_length_pos (show 0 < t.text.length by omega)
    have hzero : 0 ∉ [blank] ++ (b :: rest) := by
      rw [List.mem_append, not_or, ← htext]
      exact ⟨by decide, t.zero_notMem_text⟩
    have hb : isspace b = false :=
      LogTime.not_isspace_of_mem_text (htext ▸ List.mem_cons_self)
    rw [htext] at hlen ⊢
    show telemLogSkipDelimiter ([blank] ++ b :: (rest ++ 0 :: junk)) = _
    refine telemLogSkipDelimiter_eq (List.forall_mem_singleton.mpr (by decide)) hb ?_
    show 1 < strnlen mioLogMaxRecLen ([blank] ++ (b :: rest) ++ 0 :: junk)
    rw [strnlen_append_cons _ hzero, List.length_append, hlen]
    decide
  have hjump : telemLogJumpToDelimiter (t.text ++ 0 :: junk) = .ok (0 :: junk) := by
    have hp : ∀ c ∈ t.text, (!isspace c && c != newline) = true := by
      intro c hc
      have hspace := LogTime.not_isspace_of_mem_text hc
      have hne : c ≠ newline := by
        rintro rfl
        exact absurd hspace (by decide)
      simp [hspace, hne]
    have hscan := scanWhile_limit (i := 0) (0 :: junk) hp
      (List.ne_nil_of_length_pos (by rw [hlen]; decide)) (by rw [hlen])
    rw [telemLogJumpToDelimiter, hstr, hscan]
    simp only
    rw [Nat.zero_add, List.drop_left' hlen]
  refine ⟨⟨(0 :: junk).take 8, t.text ++ [0]⟩, ?_, rfl⟩
  have hdrop : (ascii "[telem]" ++ [blank] ++ t.text ++ 0 :: junk).drop
      (strnlen mioLogMaxRecLen (mioLogLevels .telemetry).buf + 2) =
        [blank] ++ (t.text ++ 0 :: junk) := by
    rw [show strnlen mioLogMaxRecLen (mioLogLevels .telemetry).buf + 2 =
      (ascii "[telem]").length by decide]
    simp
  have htime : (t.text ++ 0 :: junk).length - (0 :: junk).length = 29 := by
    rw [List.length_append, hlen]
    omega
  have hline : (ascii "[telem]" ++ [blank] ++ t.text).length = 37 := by
    rw [List.length_append, hlen]
    rfl
  rw [telemLogSplit, hdrop, hskip]
  simp only [bind, Except.bind]
  rw [hjump]
  simp only
  rw [htime, hline, List.take_left' hlen, if_neg]
  · rfl
  · rw [List.length_cons]
    omega

/-- **With a zero behind the time** the line has no text. -/
theorem mioTelemLogLoad_of_lt {stack : LogStack} {t : LogTime} (text : CStr) {junk : List Byte}
    (hjunk : 8 ≤ junk.length) (hlt : 29 < strnlen mioLogMaxTimestampLen stack.timestamp) :
    ∃ entry lines, mioTelemLogLoad junk (getlines (mioTelemLogStore stack t text)) =
      .ok (some entry, lines) ∧ (CStr.ofBuf entry.recBuf).bytes = [] := by
  have hline : mioTelemLogStore stack t text = ascii "[telem]" ++ [blank] ++ t.text :=
    mioLog_of_lt t .telemetry _ hlt
  have hzero : 0 ∉ ascii "[telem]" ++ [blank] ++ t.text := by
    rw [List.mem_append, not_or]
    exact ⟨by decide, t.zero_notMem_text⟩
  have hlines : getlines (ascii "[telem]" ++ [blank] ++ t.text) =
      [ascii "[telem]" ++ [blank] ++ t.text] := by
    refine getlines_of_notMem ?_ (by simp)
    rw [List.mem_append, not_or]
    exact ⟨by decide, fun h => absurd (LogTime.not_isspace_of_mem_text h) (by decide)⟩
  have hfound : (mioLogLevels .telemetry).bytes <:+:
      (CStr.ofBuf (ascii "[telem]" ++ [blank] ++ t.text)).bytes := by
    have hbytes := congrArg CStr.bytes (CStr.ofBuf_bytes ⟨_, hzero⟩)
    rw [hbytes]
    exact ⟨ascii "[", ascii "]" ++ ([blank] ++ t.text), rfl⟩
  obtain ⟨entry, hentry, hrec⟩ := telemLogSplit_of_noText hjunk t
  refine ⟨entry, [], ?_, hrec⟩
  rw [hline, hlines, mioTelemLogLoad, if_pos hfound, hentry]
  rfl

theorem entry_unique {r : Except Fault (Option TelemLogEntry × List (List Byte))}
    {entry entry' : TelemLogEntry} {lines lines' : List (List Byte)}
    (h : r = .ok (some entry, lines)) (h' : r = .ok (some entry', lines')) : entry = entry' := by
  rw [h] at h'
  exact Option.some.inj (Prod.mk.inj (Except.ok.inj h')).1

/-- **A record is found again just if** the buffer of the time held as many bytes as a
time has, and the text is on one line. -/
theorem restores_iff {stack : LogStack} {t : LogTime} {rec : MioTelemetryRec} {text : CStr}
    (henc : mioTelemLogEncode rec = .ok text) (hfits : FitsLine t text) :
    Restores (mioTelemLogStore stack t text) t text ↔
      strnlen mioLogMaxTimestampLen stack.timestamp = t.text.length ∧ newline ∉ text.bytes := by
  constructor
  · intro h
    have hjunk : 8 ≤ (List.replicate 8 (0 : Byte)).length := by decide
    obtain ⟨entry, hload, hhead, hwords⟩ := h [] _ hjunk
    rw [List.append_nil] at hload
    rw [t.length_text]
    rcases Nat.lt_or_ge 29 (strnlen mioLogMaxTimestampLen stack.timestamp) with hlt | hle
    · obtain ⟨entry', lines, hload', hrec⟩ := mioTelemLogLoad_of_lt (t := t) text hjunk hlt
      obtain rfl : entry' = entry := entry_unique hload' hload
      obtain ⟨-, front, back, hback, -, b, hb, hspace⟩ := exists_of_mioTelemLogEncode henc
      have hne := words_ne_nil hspace (show b ∈ text.bytes from hback ▸ List.mem_append_right _ hb)
      rw [hrec, words_nil] at hwords
      exact absurd hwords.symm hne
    · rcases Nat.eq_zero_or_pos (strnlen mioLogMaxTimestampLen stack.timestamp) with hzero | hpos
      · obtain ⟨entry', lines, flag, hload', hflag⟩ :=
          mioTelemLogLoad_of_eq_zero henc hfits hjunk hzero
        obtain rfl : entry' = entry := entry_unique hload' hload
        have hlen := congrArg List.length (hflag.symm.trans hhead)
        rw [t.length_text] at hlen
        cases hlen
      · -- the head has the length that the buffer had, the text ends at its first newline
        obtain ⟨tail, more, hmore, htail⟩ := List.eq_append_cons_of_mem
          (show newline ∈ text.bytes ++ [newline] from
            List.mem_append_right _ (List.mem_singleton_self _))
        obtain ⟨entry', hload', hhead', -⟩ := mioTelemLogLoad_mioTelemLogStore []
          hfits hjunk hpos hle htail hmore
        rw [List.append_nil] at hload'
        obtain rfl : entry' = entry := entry_unique hload' hload
        have hlen := congrArg List.length (hhead'.symm.trans hhead)
        rw [List.length_take, t.length_text] at hlen
        refine ⟨by omega, fun hmem => ?_⟩
        obtain ⟨tail', rest, hrest, htail'⟩ := List.eq_append_cons_of_mem hmem
        have hmore' : text.bytes ++ [newline] = tail' ++ newline :: (rest ++ [newline]) := by
          rw [hrest, List.append_assoc]
          rfl
        obtain ⟨entry'', hload'', -, hrec⟩ := mioTelemLogLoad_mioTelemLogStore []
          hfits hjunk hpos hle htail' hmore'
        rw [List.append_nil] at hload''
        obtain rfl : entry'' = entry' := entry_unique hload'' hload
        rw [hrec, words_blank_newline] at hwords
        exact words_text_ne henc hrest hwords
  · rintro ⟨hlen, hnewline⟩ rest junk hjunk
    rw [t.length_text] at hlen
    obtain ⟨entry, hload, hhead, hrec⟩ := mioTelemLogLoad_mioTelemLogStore rest hfits
      hjunk (by omega) hlen.le hnewline rfl
    refine ⟨entry, hload, ?_, ?_⟩
    · rw [hhead, hlen, List.take_of_length_le t.length_text.le]
    · rw [hrec, words_blank_newline]

/-- A stack that holds the same byte everywhere, but for a zero in the buffer of the
time. -/
def fillStack (b : Byte) : LogStack where
  logRec := List.replicate mioLogMaxRecLen b
  timestamp := List.replicate 29 b ++ [0] ++ List.replicate 34 b
  length_logRec := List.length_replicate
  length_timestamp := by
    simp only [List.length_append, List.length_replicate]
    rfl

/-- Noon of the first of July. -/
def noon : LogTime where
  tmYear := 121
  tmMon := 6
  tmMday := 1
  tmHour := 12
  tmMin := 0
  tmSec := 0
  timeNanosecs := 0
  tmYear_lt := by decide
  tmMon_lt := by decide
  tmMday_le := by decide
  tmHour_lt := by decide
  tmMin_lt := by decide
  tmSec_le := by decide
  timeNanosecs_lt := by decide

/-- A record without a prefix. -/
def telemLogRec : MioTelemetryRec := ⟨[], none, some ⟨ascii "load", by decide⟩, .uint16 7⟩

/-- Its text. -/
def telemLogText : CStr := ⟨ascii "0 load UINT16 7 ", by decide⟩

theorem mioTelemLogEncode_telemLogRec : mioTelemLogEncode telemLogRec = .ok telemLogText := by
  decide +kernel

theorem fitsLine_telemLogText : FitsLine noon telemLogText := by
  rw [FitsLine, List.length_append, List.length_append, List.length_append, noon.length_text]
  decide

end CortxMio
