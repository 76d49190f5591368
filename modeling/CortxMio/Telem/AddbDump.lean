import CortxMio.Telem.AddbLoad

/-!
# The lines of an ADDB dump

A line with up to fifteen words, which is what a payload holds, is read as its time and
its words exactly if its time is not too long, and it has a label, or is short, or its
words happen to fit where the loader takes a line without a label to end
(`CortxMio.AddbLine.loads_iff`). A full payload without a label is not
(`CortxMio.AddbLine.not_loads_fullLine`).
-/

namespace CortxMio

open Lib

/-! ### Lines -/

/-- A line of a dump. Its parts are up to 32 blanks apart. -/
structure AddbLine where
  /-- The time. -/
  timestamp : List Byte
  /-- The words of the measurement. -/
  words : List UInt64
  /-- The labels, behind the bar. -/
  label : Option (List Byte)
  /-- The blanks before the time. -/
  gapTime : ℕ
  /-- The blanks before the identifier. -/
  gapId : ℕ
  /-- The blanks before the words. -/
  gapWords : ℕ
  /-- The blanks before the label. -/
  gapLabel : ℕ
  noDelimiter : ∀ b ∈ timestamp, isAddbDelimiter b = false ∧ b ≠ 0
  words_pos : 0 < words.length
  words_le : words.length ≤ 15
  plain : ∀ l ∈ label, Plain l
  gapTime_le : gapTime ≤ 32
  gapId_pos : 0 < gapId
  gapId_le : gapId ≤ 32
  gapWords_le : gapWords ≤ 32
  gapLabel_le : gapLabel ≤ 32

namespace AddbLine

/-- The words, separated by commas. -/
def payload (l : AddbLine) : List Byte := [comma].intercalate (l.words.map addbWordText)

/-- What is behind the words. -/
def tail (l : AddbLine) : List Byte :=
  List.replicate l.gapLabel blank ++ (l.label.elim [] (verticalBar :: ·) ++ [newline])

/-- What is behind the identifier. -/
def record (l : AddbLine) : List Byte :=
  List.replicate l.gapWords blank ++ (l.payload ++ l.tail)

variable (mioMotrAddbId : UInt64)

/-- What is behind the time. -/
def measurement (l : AddbLine) : List Byte :=
  List.replicate l.gapId blank ++ (hexText mioMotrAddbId.toNat ++ l.record)

/-- The bytes of the line, with its newline. -/
def bytes (l : AddbLine) : List Byte :=
  asterisk :: (List.replicate l.gapTime blank ++ (l.timestamp ++ l.measurement mioMotrAddbId))

/-- Where the record starts in the line, behind the identifier. -/
def start (l : AddbLine) : ℕ :=
  1 + l.gapTime + l.timestamp.length + l.gapId + (hexText mioMotrAddbId.toNat).length

/-- Where the mark behind a word is. -/
def closing (l : AddbLine) (i : ℕ) : ℕ := l.start mioMotrAddbId + l.gapWords + 19 * i + 17

/-- **The line is loaded**, whatever comes after it and whatever memory holds behind it:
the head is the time, and the record the bytes of the words, for which there was room. -/
def Loads (l : AddbLine) : Prop :=
  ∀ skipped rest : List (List Byte), (∀ line ∈ skipped, line.head? ≠ some asterisk) →
    ∀ junk, mioMotrAddbLoad mioMotrAddbId junk (skipped ++ l.bytes mioMotrAddbId :: rest) =
      .ok (some ⟨l.words.flatMap wordBytes, l.timestamp ++ [0]⟩, rest)

/-- **What makes a line loadable**: the time has up to 120 bytes; and there is a label,
or the line has up to 120 bytes, or the words fit in front of the 120th byte as numbers
and none of them but the last ends there. -/
def Loadable (l : AddbLine) : Prop :=
  (1 ≤ l.timestamp.length ∧ l.timestamp.length ≤ 120) ∧
    (l.label ≠ none ∨ (l.bytes mioMotrAddbId).length ≤ 120 ∨
      (l.start mioMotrAddbId + 8 * l.words.length ≤ 120 ∧
        ∀ i, i + 1 < l.words.length → l.closing mioMotrAddbId i ≠ 120))

/-! ### The parts of a line -/

variable (l : AddbLine)

/-- The words and the blanks around them. -/
def front : List Byte :=
  List.replicate l.gapWords blank ++ (l.payload ++ List.replicate l.gapLabel blank)

theorem record_eq_front :
    l.record = l.front ++ (l.label.elim [] (verticalBar :: ·) ++ [newline]) := by
  simp only [record, front, tail, List.append_assoc]

/-- The first word of a line, and the others. -/
theorem exists_words : ∃ w ws, l.words = w :: ws :=
  List.exists_cons_of_length_pos l.words_pos

theorem length_payload : l.payload.length + 1 = 19 * l.words.length := by
  obtain ⟨w, ws, hws⟩ := l.exists_words
  have h := congrArg List.length (intercalate_addbWordText w ws [])
  rw [List.append_nil] at h
  rw [payload, hws, h, List.length_cons, List.length_append, length_leftpad_hexText,
    length_wordsFrom, List.length_nil, List.length_cons]
  omega

theorem length_front :
    l.front.length + 1 = l.gapWords + 19 * l.words.length + l.gapLabel := by
  have := l.length_payload
  simp only [front, List.length_append, List.length_replicate]
  omega

/-- There is no bar in front of the label. -/
theorem mem_front {c : Byte} (hc : c ∈ l.front) : c ≠ verticalBar ∧ c ≠ 0 := by
  have hblank : ∀ n, c ∈ List.replicate n blank → c ≠ verticalBar ∧ c ≠ 0 := by
    intro n hn
    rw [List.eq_of_mem_replicate hn]
    decide
  obtain ⟨w, ws, hws⟩ := l.exists_words
  have hpayload := intercalate_addbWordText w ws (List.replicate l.gapLabel blank)
  rw [← hws] at hpayload
  rw [front, payload, hpayload, List.mem_append, List.mem_cons, List.mem_append,
    List.leftpad, List.mem_append] at hc
  rcases hc with hc | rfl | (hc | hc) | hc
  · exact hblank _ hc
  · decide
  · exact hblank _ hc
  · obtain ⟨d, hd, rfl⟩ := exists_of_mem_hexText hc
    interval_cases d <;> decide
  · exact (mem_wordsFrom hc).elim (hblank _) id

theorem zero_notMem_record : 0 ∉ l.record := by
  rw [record_eq_front, List.mem_append, List.mem_append]
  rintro (h | h | h)
  · exact (l.mem_front h).2 rfl
  · have hplain := l.plain
    cases hlabel : l.label with
    | none => simp [hlabel] at h
    | some t =>
      rw [hlabel] at h hplain
      rcases List.mem_cons.mp h with h | h
      · exact absurd h (by decide)
      · exact (hplain t rfl 0 h).1 rfl
  · exact absurd (List.mem_singleton.mp h) (by decide)

theorem zero_notMem_bytes : 0 ∉ l.bytes mioMotrAddbId := by
  have hblank : ∀ n, (0 : Byte) ∉ List.replicate n blank := fun n h =>
    absurd (List.eq_of_mem_replicate h) (by decide)
  rw [bytes, measurement, List.mem_cons, List.mem_append, List.mem_append, List.mem_append,
    List.mem_append]
  rintro (h | h | h | h | h | h)
  · exact absurd h (by decide)
  · exact hblank _ h
  · exact (l.noDelimiter 0 h).2 rfl
  · exact hblank _ h
  · exact (not_isAddbDelimiter_of_mem_hexText h).2 rfl
  · exact l.zero_notMem_record h

theorem length_bytes :
    (l.bytes mioMotrAddbId).length = l.start mioMotrAddbId + l.record.length := by
  simp only [bytes, measurement, start, List.length_cons, List.length_append,
    List.length_replicate]
  omega

theorem length_record_of_none (h : l.label = none) :
    l.record.length = l.gapWords + 19 * l.words.length + l.gapLabel := by
  rw [record_eq_front, h, List.length_append, ← l.length_front]
  rfl

/-- How long the record is taken to be. -/
def recLen : ℤ :=
  if l.label = none then
    (min 120 (l.bytes mioMotrAddbId).length : ℕ) - (l.start mioMotrAddbId : ℤ)
  else l.front.length

theorem recLen_eq (junk : List Byte) :
    ((l.record ++ 0 :: junk).length : ℤ) -
        addbEndOfRec (l.bytes mioMotrAddbId ++ 0 :: junk) (l.record ++ 0 :: junk) =
      l.recLen mioMotrAddbId := by
  have hstring : (CStr.ofBuf (l.record ++ 0 :: junk)).bytes = l.record := by
    rw [CStr.bytes_ofBuf_append l.zero_notMem_record]
    exact List.append_nil _
  have hfront : ∀ c ∈ l.front, decide (c ≠ verticalBar) = true := fun c hc =>
    decide_eq_true (l.mem_front hc).1
  rw [addbEndOfRec, recLen, hstring]
  cases hlabel : l.label with
  | none =>
    have hmem : verticalBar ∉ l.record := by
      rw [record_eq_front, hlabel, List.mem_append]
      rintro (h | h)
      · exact (l.mem_front h).1 rfl
      · exact absurd (List.mem_singleton.mp h) (by decide)
    have hlength := l.length_bytes mioMotrAddbId
    rw [if_pos rfl, if_neg hmem, mioMotrAddbMaxPayload,
      strnlen_append_cons _ (l.zero_notMem_bytes mioMotrAddbId)]
    rw [List.length_append, List.length_append]
    push_cast
    omega
  | some t =>
    have hmem : verticalBar ∈ l.record := by
      rw [record_eq_front, hlabel]
      exact List.mem_append_right _ List.mem_cons_self
    rw [if_pos hmem, if_neg (Option.some_ne_none t)]
    have htake : l.record.takeWhile (· ≠ verticalBar) = l.front := by
      rw [record_eq_front, hlabel, List.takeWhile_append_of_pos hfront]
      simp
    rw [htake]
    omega

/-- The record is read as the words if there is room for them and it ends at none of the
marks between them. -/
theorem motrAddbCleanRec_record_iff (recLen : ℤ) (junk : List Byte) :
    motrAddbCleanRec (l.record ++ 0 :: junk) recLen = .ok (l.words.flatMap wordBytes) ↔
      8 * (l.words.length : ℤ) ≤ recLen ∧
        ∀ i, i + 1 < l.words.length → ((l.gapWords + 19 * i + 17 : ℕ) : ℤ) ≠ recLen := by
  have hblank : ∀ c ∈ List.replicate l.gapLabel blank, isAddbDelimiter c = true := fun c hc =>
    isAddbDelimiter_of_mem_replicate hc
  have hgap := l.gapLabel_le
  obtain ⟨ds, b, more, hds, hlen, hb, htail⟩ : ∃ ds b more,
      (∀ c ∈ ds, isAddbDelimiter c = true) ∧ ds.length < 99 ∧ (b = verticalBar ∨ b = 0) ∧
        l.tail ++ 0 :: junk = ds ++ b :: more := by
    cases hlabel : l.label with
    | none =>
      refine ⟨List.replicate l.gapLabel blank ++ [newline], 0, junk, ?_, ?_, .inr rfl, ?_⟩
      · intro c hc
        rcases List.mem_append.mp hc with hc | hc
        · exact hblank c hc
        · rw [List.mem_singleton.mp hc]
          rfl
      · rw [List.length_append, List.length_replicate, List.length_singleton]
        omega
      · simp [tail, hlabel]
    | some t =>
      refine ⟨List.replicate l.gapLabel blank, verticalBar, t ++ newline :: 0 :: junk, hblank,
        ?_, .inl rfl, ?_⟩
      · rw [List.length_replicate]
        omega
      · simp [tail, hlabel]
  obtain ⟨w, ws, hws⟩ := l.exists_words
  have hrecord : l.record ++ 0 :: junk = List.replicate l.gapWords blank ++
      (questionMark :: ((hexText w.toNat).leftpad 16 blank ++ wordsFrom (ds ++ b :: more) ws)) := by
    rw [record, payload, hws, List.append_assoc, List.append_assoc, intercalate_addbWordText,
      htail]
  rw [hrecord, hws]
  exact motrAddbCleanRec_iff more hds hlen hb l.gapWords_le w ws recLen

/-- The record is the words if the line has a label, or is short, or they fit in front of
the limit as numbers. -/
theorem recLen_iff :
    (8 * (l.words.length : ℤ) ≤ l.recLen mioMotrAddbId ∧
        ∀ i, i + 1 < l.words.length →
          ((l.gapWords + 19 * i + 17 : ℕ) : ℤ) ≠ l.recLen mioMotrAddbId) ↔
      (l.label ≠ none ∨ (l.bytes mioMotrAddbId).length ≤ 120 ∨
        (l.start mioMotrAddbId + 8 * l.words.length ≤ 120 ∧
          ∀ i, i + 1 < l.words.length → l.closing mioMotrAddbId i ≠ 120)) := by
  have hpos := l.words_pos
  rw [recLen]
  split
  · next hnone =>
    have hbytes := l.length_bytes mioMotrAddbId
    rw [l.length_record_of_none hnone] at hbytes
    rcases le_or_gt (l.bytes mioMotrAddbId).length 120 with hshort | hlong
    · refine iff_of_true ⟨?_, fun i hi => ?_⟩ (.inr (.inl hshort))
      · omega
      · omega
    · rw [Nat.min_eq_left hlong.le]
      refine ⟨fun h => .inr (.inr ⟨by omega, fun i hi hmark => h.2 i hi ?_⟩), ?_⟩
      · rw [closing] at hmark
        omega
      · rintro (h | h | ⟨hroom, hmark⟩)
        · exact absurd hnone h
        · omega
        · refine ⟨by omega, fun i hi h => hmark i hi ?_⟩
          rw [closing]
          omega
  · next hsome =>
    have hfront := l.length_front
    exact iff_of_true ⟨by omega, fun i hi => by omega⟩ (.inl hsome)

/-! ### What is loaded -/

variable (junk : List Byte)

/-- The cursor gets from the start of a line to its time, or to the identifier if there
is none. -/
theorem bytes_drop_one :
    (l.bytes mioMotrAddbId ++ 0 :: junk).drop 1 =
      List.replicate l.gapTime blank ++
        (l.timestamp ++ (l.measurement mioMotrAddbId ++ 0 :: junk)) := by
  simp [bytes]

/-- What is behind the identifier is a blank or a mark. -/
theorem exists_record :
    ∃ b more, (b = blank ∨ b = questionMark) ∧ l.record ++ 0 :: junk = b :: more := by
  obtain ⟨w, ws, hws⟩ := l.exists_words
  cases hgap : l.gapWords with
  | zero =>
    have h := intercalate_addbWordText w ws (l.tail ++ 0 :: junk)
    rw [← hws] at h
    refine ⟨questionMark, _, .inr rfl, Eq.trans ?_ h⟩
    rw [record, hgap, payload, List.replicate_zero, List.nil_append, List.append_assoc]
  | succ n =>
    refine ⟨blank, List.replicate n blank ++ (l.payload ++ (l.tail ++ 0 :: junk)), .inl rfl, ?_⟩
    simp [record, hgap, List.replicate_succ]

/-- What is behind the time. -/
theorem measurement_append :
    l.measurement mioMotrAddbId ++ 0 :: junk =
      List.replicate l.gapId blank ++
        (hexText mioMotrAddbId.toNat ++ (l.record ++ 0 :: junk)) := by
  simp [measurement]

/-- Over the blanks in front of it, the cursor gets to the identifier. -/
theorem motrAddbSkipDelimiter_measurement {n : ℕ} (hn : n ≤ 64) :
    motrAddbSkipDelimiter (List.replicate n blank ++
        (hexText mioMotrAddbId.toNat ++ (l.record ++ 0 :: junk))) =
      .ok (hexText mioMotrAddbId.toNat ++ (l.record ++ 0 :: junk)) := by
  refine motrAddbSkipDelimiter_hexText (fun c hc => isAddbDelimiter_of_mem_replicate hc) ?_ _ _
  rw [List.length_replicate]
  omega

/-- A time is found behind the blanks in front of it. -/
theorem motrAddbSkipDelimiter_timestamp (hpos : 1 ≤ l.timestamp.length) :
    motrAddbSkipDelimiter ((l.bytes mioMotrAddbId ++ 0 :: junk).drop 1) =
      .ok (l.timestamp ++ (l.measurement mioMotrAddbId ++ 0 :: junk)) := by
  obtain ⟨t, ts, hts⟩ := List.exists_cons_of_length_pos hpos
  have ht := l.noDelimiter t (hts ▸ List.mem_cons_self)
  have hgap := l.gapTime_le
  rw [bytes_drop_one, hts]
  refine motrAddbSkipDelimiter_eq (fun c hc => isAddbDelimiter_of_mem_replicate hc) ht.1 ht.2 ?_ _
  rw [List.length_replicate]
  omega

theorem motrAddbJumpToDelimiter_record :
    motrAddbJumpToDelimiter (hexText mioMotrAddbId.toNat ++ (l.record ++ 0 :: junk)) =
      .ok (l.record ++ 0 :: junk) := by
  obtain ⟨b, more, hb, hrecord⟩ := l.exists_record junk
  rw [hrecord]
  exact motrAddbJumpToDelimiter_hexText hb more

/-- The length of the record is that of a short line. -/
theorem toInt32_recLen (hle : l.timestamp.length ≤ 120) :
    toInt32 (l.recLen mioMotrAddbId) = l.recLen mioMotrAddbId := by
  have hhex : (hexText mioMotrAddbId.toNat).length ≤ 16 :=
    length_hexText_le (by decide) (by simpa using mioMotrAddbId.toNat_lt)
  have hfront := l.length_front
  have h1 := l.gapTime_le
  have h2 := l.gapId_le
  have h3 := l.gapWords_le
  have h4 := l.gapLabel_le
  have h5 := l.words_le
  have hbounds : -400 ≤ l.recLen mioMotrAddbId ∧ l.recLen mioMotrAddbId ≤ 400 := by
    rw [recLen]
    split
    · rw [start]
      omega
    · omega
  exact Int.bmod_eq_of_le (by omega) (by omega)

/-- A line with a time that is not too long is loaded if its record is. -/
theorem mioMotrAddbLoad_iff (hpos : 1 ≤ l.timestamp.length) (hle : l.timestamp.length ≤ 120)
    (lines : List (List Byte)) :
    mioMotrAddbLoad mioMotrAddbId junk (l.bytes mioMotrAddbId :: lines) =
        .ok (some ⟨l.words.flatMap wordBytes, l.timestamp ++ [0]⟩, lines) ↔
      8 * (l.words.length : ℤ) ≤ l.recLen mioMotrAddbId ∧
        ∀ i, i + 1 < l.words.length →
          ((l.gapWords + 19 * i + 17 : ℕ) : ℤ) ≠ l.recLen mioMotrAddbId := by
  have hgap := l.gapId_le
  have hjumpTime : motrAddbJumpToDelimiter
      (l.timestamp ++ (l.measurement mioMotrAddbId ++ 0 :: junk)) =
        .ok (l.measurement mioMotrAddbId ++ 0 :: junk) := by
    obtain ⟨g, hg⟩ : ∃ g, l.gapId = g + 1 := ⟨l.gapId - 1, by have := l.gapId_pos; omega⟩
    rw [measurement_append, hg, List.replicate_succ, List.cons_append]
    exact motrAddbJumpToDelimiter_eq l.noDelimiter rfl hle _
  have hskipId : motrAddbSkipDelimiter (l.measurement mioMotrAddbId ++ 0 :: junk) =
      .ok (hexText mioMotrAddbId.toNat ++ (l.record ++ 0 :: junk)) := by
    rw [measurement_append]
    exact l.motrAddbSkipDelimiter_measurement mioMotrAddbId junk (by omega)
  have hscan : ∃ rest, scanHex (CStr.ofBuf
      (hexText mioMotrAddbId.toNat ++ (l.record ++ 0 :: junk))).bytes =
        .ok (mioMotrAddbId, rest) := by
    obtain ⟨b, more, hb, hrecord⟩ := l.exists_record junk
    rw [hrecord]
    exact ⟨_, scanHex_ofBuf hb more⟩
  obtain ⟨rest, hscan⟩ := hscan
  have htime : (l.timestamp ++ (l.measurement mioMotrAddbId ++ 0 :: junk)).length -
      (l.measurement mioMotrAddbId ++ 0 :: junk).length = l.timestamp.length := by
    rw [List.length_append, Nat.add_sub_cancel]
  have hne : l.words.flatMap wordBytes ≠ [] := by
    obtain ⟨w, ws, hws⟩ := l.exists_words
    rw [hws, List.flatMap_cons]
    exact List.append_ne_nil_of_left_ne_nil (List.ne_nil_of_length_eq_add_one rfl) _
  rw [mioMotrAddbLoad, if_neg (by simp [bytes])]
  simp only [l.motrAddbSkipDelimiter_timestamp mioMotrAddbId junk hpos, hjumpTime, hskipId, hscan,
    htime, bind, Except.bind, if_true]
  rw [← l.motrAddbCleanRec_record_iff (l.recLen mioMotrAddbId) junk,
    ← l.toInt32_recLen mioMotrAddbId hle, ← l.recLen_eq mioMotrAddbId junk]
  have hsplit : motrAddbSplit (l.bytes mioMotrAddbId ++ 0 :: junk)
      (l.timestamp ++ (l.measurement mioMotrAddbId ++ 0 :: junk)) _ l.timestamp.length =
        .ok ⟨l.words.flatMap wordBytes, l.timestamp ++ [0]⟩ ↔ _ :=
    motrAddbSplit_eq_ok_iff (l.motrAddbJumpToDelimiter_record mioMotrAddbId junk)
  refine Iff.trans ?_ (hsplit.trans (and_iff_left ⟨hne, by rw [List.take_left]⟩))
  split
  · next hres => simp [hres]
  · next hres => simp [hres, pure, Except.pure]

/-- **A line of a dump is loaded** exactly if its time has up to 120 bytes, and it has a
label, or up to 120 bytes, or words that fit in front of the 120th byte as numbers, with
none but the last of them ending there. -/
theorem loads_iff : l.Loads mioMotrAddbId ↔ l.Loadable mioMotrAddbId := by
  constructor
  · intro h
    have hload := h [] [] (fun _ hmem => absurd hmem List.not_mem_nil) []
    rw [List.nil_append] at hload
    rcases Nat.eq_zero_or_pos l.timestamp.length with hzero | hpos
    · -- the identifier is taken for the time
      have hskip : motrAddbSkipDelimiter ((l.bytes mioMotrAddbId ++ [0]).drop 1) =
          .ok (hexText mioMotrAddbId.toNat ++ (l.record ++ [0])) := by
        have h1 := l.gapTime_le
        have h2 := l.gapId_le
        rw [bytes_drop_one, List.length_eq_zero_iff.mp hzero, List.nil_append,
          measurement_append, ← List.append_assoc, List.replicate_append_replicate]
        exact l.motrAddbSkipDelimiter_measurement mioMotrAddbId [] (by omega)
      have hhead := head_of_mioMotrAddbLoad hskip
        (l.motrAddbJumpToDelimiter_record mioMotrAddbId []) hload
      have hlen := congrArg List.length hhead
      have hhex := length_hexText_pos mioMotrAddbId.toNat
      simp only [List.length_append, List.length_take] at hlen
      omega
    · rcases le_or_gt l.timestamp.length 120 with hle | hlong
      · exact ⟨⟨hpos, hle⟩, (l.recLen_iff mioMotrAddbId).mp
          ((l.mioMotrAddbLoad_iff mioMotrAddbId [] hpos hle []).mp hload)⟩
      · -- the time is cut off
        have hhead := head_of_mioMotrAddbLoad
          (l.motrAddbSkipDelimiter_timestamp mioMotrAddbId [] hpos)
          (motrAddbJumpToDelimiter_limit l.noDelimiter hlong.le _) hload
        have hlen := congrArg List.length hhead
        simp only [List.length_append, List.length_take, List.length_drop] at hlen
        omega
  · rintro ⟨⟨hpos, hle⟩, hfits⟩ skipped rest hskipped junk
    rw [mioMotrAddbLoad_skipped hskipped]
    exact (l.mioMotrAddbLoad_iff mioMotrAddbId junk hpos hle rest).mpr
      ((l.recLen_iff mioMotrAddbId).mpr hfits)

/-- Fifteen words, which is as many as a payload has, and no label. -/
def fullLine : AddbLine where
  timestamp := [49]
  words := List.replicate 15 7
  label := none
  gapTime := 1
  gapId := 1
  gapWords := 1
  gapLabel := 1
  noDelimiter := List.forall_mem_singleton.mpr ⟨rfl, by decide⟩
  words_pos := by decide
  words_le := by decide
  plain := nofun
  gapTime_le := by decide
  gapId_pos := by decide
  gapId_le := by decide
  gapWords_le := by decide
  gapLabel_le := by decide

/-- A full payload without a label is not loaded: there is no room for its words. -/
theorem not_loads_fullLine : ¬ fullLine.Loads 65536 := by
  intro h
  have hroom := ((fullLine.mioMotrAddbLoad_iff 65536 [] (by decide) (by decide) []).mp
    (h [] [] (fun _ hmem => absurd hmem List.not_mem_nil) [])).1
  have hwords : fullLine.words.length = 15 := List.length_replicate
  have hlabel : fullLine.label = none := rfl
  rw [recLen, if_pos hlabel, start] at hroom
  omega

end AddbLine

end CortxMio
