import CortxMio.Basic
import CortxMio.Lib.Text

/-!
# The logger

`mio_log` puts a line together in a buffer on its stack: the level in brackets, the
time, and the message, each behind the last. The time is formatted in a second
buffer, but the number of bytes that are copied from there is taken before it is
filled: it is the distance to the first zero in what the stack happened to hold
(`CortxMio.mioLog`). With fewer bytes than the time has, the time is cut short; with
more, the zero behind the time ends the line.

So what is written depends on the stack (`CortxMio.mioLog_eq`), and it is the line
that it should be (`CortxMio.logLine`) just if the old contents of the buffer are as
long as a time (`CortxMio.mioLog_eq_logLine_iff`).
-/

namespace CortxMio

open Lib

/-! ### Levels and times -/

/-- `MIO_LOG_MAX_REC_LEN`. -/
abbrev mioLogMaxRecLen : ℕ := 1024

/-- `MIO_LOG_MAX_TIMESTAMP_LEN`. -/
abbrev mioLogMaxTimestampLen : ℕ := 64

/-- `MIO_LOG_LEVEL_NAME_MAX`. -/
abbrev mioLogLevelNameMax : ℕ := 16

/-- `enum mio_log_level`. -/
inductive MioLogLevel
  | error
  | warn
  | info
  | trace
  | telemetry
  | debug
  deriving DecidableEq, Repr

/-- The bytes of a text of plain characters. -/
def ascii (s : String) : List Byte := s.toList.map fun c => UInt8.ofNat c.toNat

/-- A string literal. -/
def literal (s : String) : CStr where
  bytes := (ascii s).takeWhile fun b => b ≠ 0
  noNul := fun h => by simpa using List.mem_takeWhile_imp h

/-- A blank. -/
abbrev blank : Byte := 32

/-- `mio_log_levels`. -/
def mioLogLevels : MioLogLevel → CStr
  | .error => ⟨ascii "error", by decide⟩
  | .warn => ⟨ascii "warning", by decide⟩
  | .info => ⟨ascii "info", by decide⟩
  | .trace => ⟨ascii "trace", by decide⟩
  | .telemetry => ⟨ascii "telem", by decide⟩
  | .debug => ⟨ascii "debug", by decide⟩

/-- What `localtime_r` makes of the current time, and its nanoseconds. The library
counts nanoseconds in 64 bits, so the year has four digits. -/
structure LogTime where
  /-- Years since 1900. -/
  tmYear : ℕ
  /-- Months since January. -/
  tmMon : ℕ
  /-- Day of the month. -/
  tmMday : ℕ
  /-- Hours. -/
  tmHour : ℕ
  /-- Minutes. -/
  tmMin : ℕ
  /-- Seconds. -/
  tmSec : ℕ
  /-- Nanoseconds. -/
  timeNanosecs : ℕ
  tmYear_lt : 1900 + tmYear < 10000
  tmMon_lt : tmMon < 12
  tmMday_le : tmMday ≤ 31
  tmHour_lt : tmHour < 24
  tmMin_lt : tmMin < 60
  tmSec_le : tmSec ≤ 60
  timeNanosecs_lt : timeNanosecs < 1000000000

/-- The time as `log_time` formats it for a line: `%04d-%02d-%02d-%02d:%02d:%02d.%09`. -/
def LogTime.text (t : LogTime) : List Byte :=
  zeroPad 4 (1900 + t.tmYear) ++ ascii "-" ++ zeroPad 2 t.tmMon ++ ascii "-" ++
    zeroPad 2 t.tmMday ++ ascii "-" ++ zeroPad 2 t.tmHour ++ ascii ":" ++
    zeroPad 2 t.tmMin ++ ascii ":" ++ zeroPad 2 t.tmSec ++ ascii "." ++
    zeroPad 9 t.timeNanosecs

/-- A formatted time has 29 bytes. -/
@[simp] theorem LogTime.length_text (t : LogTime) : t.text.length = 29 := by
  have hyear := length_zeroPad (w := 4) (by decide) t.tmYear_lt
  have hmon := length_zeroPad (w := 2) (by decide) (t.tmMon_lt.trans (by decide))
  have hmday := length_zeroPad (w := 2) (by decide) (t.tmMday_le.trans_lt (by decide))
  have hhour := length_zeroPad (w := 2) (by decide) (t.tmHour_lt.trans (by decide))
  have hmin := length_zeroPad (w := 2) (by decide) (t.tmMin_lt.trans (by decide))
  have hsec := length_zeroPad (w := 2) (by decide) (t.tmSec_le.trans_lt (by decide))
  have hnano := length_zeroPad (w := 9) (by decide) t.timeNanosecs_lt
  simp only [text, List.length_append, hyear, hmon, hmday, hhour, hmin, hsec, hnano]
  rfl

/-- The bytes of a time are digits and three kinds of marks. -/
theorem LogTime.mem_text {t : LogTime} {b : Byte} (h : b ∈ t.text) : 45 ≤ b ∧ b ≤ 58 := by
  have hdigit : ∀ {w n : ℕ}, b ∈ zeroPad w n → 45 ≤ b ∧ b ≤ 58 := fun hb =>
    ⟨UInt8.le_trans (show (45 : Byte) ≤ 48 by decide) (mem_zeroPad hb).1,
      UInt8.le_trans (mem_zeroPad hb).2 (show (57 : Byte) ≤ 58 by decide)⟩
  have hmark : ∀ {c : Byte}, (45 ≤ c ∧ c ≤ 58) → b ∈ [c] → 45 ≤ b ∧ b ≤ 58 := fun hc hb => by
    rw [List.mem_singleton.mp hb]
    exact hc
  have hdash : b ∈ ascii "-" → 45 ≤ b ∧ b ≤ 58 := hmark (by decide)
  have hcolon : b ∈ ascii ":" → 45 ≤ b ∧ b ≤ 58 := hmark (by decide)
  have hdot : b ∈ ascii "." → 45 ≤ b ∧ b ≤ 58 := hmark (by decide)
  simp only [text, List.mem_append] at h
  rcases h with (((((((((((h | h) | h) | h) | h) | h) | h) | h) | h) | h) | h) | h) | h
  all_goals first | exact hdigit h | exact hdash h | exact hcolon h | exact hdot h

theorem LogTime.ne_zero_of_mem_text {t : LogTime} {b : Byte} (h : b ∈ t.text) : b ≠ 0 := by
  rintro rfl
  exact absurd (mem_text h).1 (by decide)

theorem LogTime.not_isspace_of_mem_text {t : LogTime} {b : Byte} (h : b ∈ t.text) :
    isspace b = false := by
  obtain ⟨hlo, hhi⟩ := mem_text h
  rw [UInt8.le_iff_toNat_le] at hlo hhi
  have hne : b ≠ 32 := by
    rintro rfl
    exact absurd hlo (by decide)
  have hnot : ¬ b ≤ 13 := by
    rw [UInt8.le_iff_toNat_le]
    exact fun hle => absurd (hlo.trans hle) (by decide)
  simp [isspace, hne, hnot]

/-! ### A line -/

/-- The level in brackets and a blank. -/
def logHead (lev : MioLogLevel) : List Byte :=
  ascii "[" ++ (mioLogLevels lev).bytes ++ ascii "]" ++ [blank]

/-- The line that `mio_log` is to write, up to the record limit. -/
def logLine (t : LogTime) (lev : MioLogLevel) (msg : CStr) : List Byte :=
  (logHead lev ++ t.text ++ [blank] ++ msg.bytes).take (mioLogMaxRecLen - 1)

/-- What the stack holds when `mio_log` is called, where its two buffers are. -/
structure LogStack where
  /-- `log_rec`. -/
  logRec : List Byte
  /-- `timestamp`. -/
  timestamp : List Byte
  length_logRec : logRec.length = mioLogMaxRecLen
  length_timestamp : timestamp.length = mioLogMaxTimestampLen

/-- `snprintf` of a text into a buffer, from a position on. -/
def snprintf (pos size : ℕ) (text buf : List Byte) : List Byte :=
  putAt pos (text.take (size - 1) ++ [0]) buf

/-- `mio_log` with a message that is already formatted: the bytes that go to the log
file. -/
def mioLog (stack : LogStack) (t : LogTime) (lev : MioLogLevel) (msg : CStr) : List Byte :=
  let name := mioLogLevels lev
  let headLen := strnlen mioLogLevelNameMax name.buf + 3
  let logRec := snprintf 0 headLen (ascii "[" ++ name.bytes ++ ascii "]") stack.logRec
  let logRec := putAt (headLen - 1) ([blank]) logRec
  -- before `log_time` is called
  let timeLen := strnlen mioLogMaxTimestampLen stack.timestamp
  let timestamp := snprintf 0 mioLogMaxTimestampLen t.text stack.timestamp
  if mioLogMaxTimestampLen < t.text.length ∨ mioLogMaxRecLen - headLen < timeLen then []
  else
    let logRec := putAt headLen (timestamp.take timeLen) logRec
    let logRec := putAt (headLen + timeLen) ([blank]) logRec
    let pos := headLen + timeLen + 1
    let logRec := snprintf pos (mioLogMaxRecLen - pos) msg.bytes logRec
    logRec.take (strnlen mioLogMaxRecLen logRec)

theorem length_mioLogLevels_le (lev : MioLogLevel) : (mioLogLevels lev).length ≤ 7 := by
  cases lev <;> decide

theorem length_logHead (lev : MioLogLevel) :
    (logHead lev).length = (mioLogLevels lev).length + 3 := by
  simp [logHead, CStr.length, ascii]

theorem zero_notMem_logHead (lev : MioLogLevel) : 0 ∉ logHead lev := by
  cases lev <;> decide

theorem LogTime.zero_notMem_text (t : LogTime) : 0 ∉ t.text :=
  fun h => ne_zero_of_mem_text h rfl

/-- What the buffer of the time holds once it is formatted. -/
theorem prefix_timestamp (stack : LogStack) (t : LogTime) :
    t.text ++ [0] <+: snprintf 0 mioLogMaxTimestampLen t.text stack.timestamp := by
  rw [snprintf, List.take_of_length_le (by rw [t.length_text]; decide)]
  have h := prefix_putAt (List.nil_prefix (l := stack.timestamp)) rfl (t.text ++ [0])
  rwa [List.nil_append] at h

/-- What the buffer of the line holds in the end: the head, `timeLen` bytes from the
other buffer, a blank, and as much of the message as there is room for. -/
theorem exists_prefix_mioLog (stack : LogStack) (t : LogTime) (lev : MioLogLevel) (msg : CStr) :
    let timeLen := strnlen mioLogMaxTimestampLen stack.timestamp
    let pos := (logHead lev).length + timeLen + 1
    ∃ logRec : List Byte, mioLog stack t lev msg = logRec.take (strnlen mioLogMaxRecLen logRec) ∧
      logHead lev ++ (snprintf 0 mioLogMaxTimestampLen t.text stack.timestamp).take timeLen ++
        [blank] ++ (msg.bytes.take (mioLogMaxRecLen - pos - 1) ++ [0]) <+: logRec := by
  intro timeLen pos
  have hname := length_mioLogLevels_le lev
  have hlen := length_logHead lev
  have htime : timeLen ≤ mioLogMaxTimestampLen := strnlen_le _ _
  have hheadLen : strnlen mioLogLevelNameMax (mioLogLevels lev).buf + 3 = (logHead lev).length := by
    rw [strnlen_buf, Nat.min_eq_right (hname.trans (by decide)), hlen]
  have hstamp : (snprintf 0 mioLogMaxTimestampLen t.text stack.timestamp).length =
      mioLogMaxTimestampLen := by
    rw [snprintf, length_putAt, stack.length_timestamp]
    rw [stack.length_timestamp, List.length_append, List.length_take, t.length_text]
    decide
  have hcopy : ((snprintf 0 mioLogMaxTimestampLen t.text stack.timestamp).take timeLen).length =
      timeLen := by
    rw [List.length_take, hstamp, Nat.min_eq_left htime]
  have hgo : ¬ (mioLogMaxTimestampLen < t.text.length ∨
      mioLogMaxRecLen - (logHead lev).length < timeLen) := by
    rw [t.length_text, hlen]
    have : timeLen ≤ 64 := htime
    simp only [mioLogMaxTimestampLen, mioLogMaxRecLen]
    omega
  rw [mioLog]
  simp only [hheadLen]
  rw [if_neg hgo]
  refine ⟨_, rfl, ?_⟩
  -- the buffer is filled from the left, piece by piece
  set name := ascii "[" ++ (mioLogLevels lev).bytes ++ ascii "]" with hname_def
  have hnameLen : name.length = (logHead lev).length - 1 := by
    simp [hname_def, hlen, CStr.length, ascii]
  have hbracket : name <+: snprintf 0 (logHead lev).length name stack.logRec := by
    have h := prefix_putAt (List.nil_prefix (l := stack.logRec)) rfl
      (name.take ((logHead lev).length - 1) ++ [0])
    rw [List.take_of_length_le hnameLen.le, List.nil_append] at h
    rw [snprintf, List.take_of_length_le hnameLen.le]
    exact (List.prefix_append _ _).trans h
  have hhead : logHead lev <+: _ := prefix_putAt hbracket hnameLen ([blank])
  have hstamped := prefix_putAt hhead rfl
    ((snprintf 0 mioLogMaxTimestampLen t.text stack.timestamp).take timeLen)
  have hblank := prefix_putAt hstamped (by rw [List.length_append, hcopy]) ([blank])
  refine prefix_putAt hblank ?_ _
  rw [List.length_append, List.length_append, hcopy]
  rfl

/-- **What a short time leaves of the line**: the time is cut, and everything behind it
moves up. -/
theorem mioLog_of_le {stack : LogStack} (t : LogTime) (lev : MioLogLevel) (msg : CStr)
    (h : strnlen mioLogMaxTimestampLen stack.timestamp ≤ 29) :
    mioLog stack t lev msg =
      (logHead lev ++ t.text.take (strnlen mioLogMaxTimestampLen stack.timestamp) ++ [blank] ++
        msg.bytes).take (mioLogMaxRecLen - 1) := by
  obtain ⟨logRec, hlog, hrec⟩ := exists_prefix_mioLog stack t lev msg
  set timeLen := strnlen mioLogMaxTimestampLen stack.timestamp with htimeLen
  have hmax : mioLogMaxRecLen = 1024 := rfl
  have hname := length_mioLogLevels_le lev
  have hhead := length_logHead lev
  have hstamp : (snprintf 0 mioLogMaxTimestampLen t.text stack.timestamp).take timeLen =
      t.text.take timeLen := by
    obtain ⟨rest, hrest⟩ := prefix_timestamp stack t
    rw [← hrest, List.append_assoc, List.take_append_of_le_length (by simpa using h)]
  have htake : (t.text.take timeLen).length = timeLen := by
    rw [List.length_take, t.length_text, Nat.min_eq_left h]
  have hpos : (logHead lev ++ t.text.take timeLen ++ [blank]).length =
      (logHead lev).length + timeLen + 1 := by
    rw [List.length_append, List.length_append, htake, List.length_singleton]
  have hcut : (logHead lev ++ t.text.take timeLen ++ [blank] ++ msg.bytes).take
      (mioLogMaxRecLen - 1) = logHead lev ++ t.text.take timeLen ++ [blank] ++
        msg.bytes.take (mioLogMaxRecLen - ((logHead lev).length + timeLen + 1) - 1) := by
    rw [List.take_append, List.take_of_length_le (by rw [hpos]; omega), hpos, Nat.sub_right_comm]
  rw [hstamp, ← List.append_assoc] at hrec
  rw [hlog, hcut]
  refine take_strnlen_of_begins hrec ?_ ?_
  · simp only [List.mem_append, not_or]
    refine ⟨⟨⟨zero_notMem_logHead lev, fun h => t.zero_notMem_text (List.mem_of_mem_take h)⟩,
      by decide⟩, fun h => msg.noNul (List.mem_of_mem_take h)⟩
  · rw [List.length_append, hpos, List.length_take]
    omega

/-- **What a long time leaves of the line**: nothing behind the time. -/
theorem mioLog_of_lt {stack : LogStack} (t : LogTime) (lev : MioLogLevel) (msg : CStr)
    (h : 29 < strnlen mioLogMaxTimestampLen stack.timestamp) :
    mioLog stack t lev msg = logHead lev ++ t.text := by
  obtain ⟨logRec, hlog, hrec⟩ := exists_prefix_mioLog stack t lev msg
  have hstamp : t.text ++ [0] <+: (snprintf 0 mioLogMaxTimestampLen t.text stack.timestamp).take
      (strnlen mioLogMaxTimestampLen stack.timestamp) := by
    refine List.prefix_take_iff.mpr ⟨prefix_timestamp stack t, ?_⟩
    rw [List.length_append, t.length_text]
    exact h
  have hline : logHead lev ++ t.text ++ [0] <+: logRec := by
    rw [List.append_assoc]
    refine List.IsPrefix.trans ?_ hrec
    rw [List.append_assoc, List.append_assoc]
    refine (List.prefix_append_right_inj _).mpr (hstamp.trans (List.prefix_append _ _))
  rw [hlog]
  refine take_strnlen_of_begins hline ?_ ?_
  · rw [List.mem_append, not_or]
    exact ⟨zero_notMem_logHead lev, t.zero_notMem_text⟩
  · have := length_mioLogLevels_le lev
    rw [List.length_append, t.length_text, length_logHead]
    exact (show (mioLogLevels lev).length + 3 + 29 ≤ 39 by omega).trans_lt (by decide)

/-- **The line is right just if the buffer held as many bytes as a time has.** -/
theorem mioLog_eq_logLine_iff (stack : LogStack) (t : LogTime) (lev : MioLogLevel) (msg : CStr) :
    mioLog stack t lev msg = logLine t lev msg ↔
      strnlen mioLogMaxTimestampLen stack.timestamp = t.text.length := by
  have hname := length_mioLogLevels_le lev
  have hhead := length_logHead lev
  have hmax : mioLogMaxRecLen = 1024 := rfl
  rw [t.length_text]
  constructor
  · intro h
    rcases Nat.lt_trichotomy (strnlen mioLogMaxTimestampLen stack.timestamp) 29 with hlt | heq | hgt
    · -- the blank behind the time stands where the time goes on
      rw [mioLog_of_le t lev msg hlt.le, logLine] at h
      set timeLen := strnlen mioLogMaxTimestampLen stack.timestamp
      have htake : (logHead lev ++ t.text.take timeLen).length =
          (logHead lev).length + timeLen := by
        rw [List.length_append, List.length_take, t.length_text, Nat.min_eq_left hlt.le]
      have hblank : (logHead lev ++ t.text.take timeLen ++ [blank] ++ msg.bytes)[
          (logHead lev).length + timeLen]? = some blank := by
        rw [List.append_assoc, List.getElem?_append_right htake.le, htake, Nat.sub_self]
        rfl
      have htext : (logHead lev ++ t.text ++ [blank] ++ msg.bytes)[
          (logHead lev).length + timeLen]? = t.text[timeLen]? := by
        rw [List.append_assoc, List.append_assoc, List.getElem?_append_right (by omega),
          Nat.add_sub_cancel_left, List.getElem?_append_left (by simpa using hlt)]
      have hat := congrArg (·[(logHead lev).length + timeLen]?) h
      rw [List.getElem?_take_of_lt (by omega), List.getElem?_take_of_lt (by omega), hblank,
        htext] at hat
      have hmem : blank ∈ t.text := List.mem_of_getElem? hat.symm
      exact absurd (LogTime.not_isspace_of_mem_text hmem) (by decide)
    · exact heq
    · -- the line ends before the blank
      rw [mioLog_of_lt t lev msg hgt, logLine] at h
      have hlen := congrArg List.length h
      simp only [List.length_append, List.length_take, t.length_text, List.length_singleton] at hlen
      omega
  · intro h
    rw [mioLog_of_le t lev msg h.le, h, List.take_of_length_le t.length_text.le, logLine]

end CortxMio
