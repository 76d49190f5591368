import CortxMio.Telem.Log

/-!
# Loading a whole log

A log has lines of all levels. The loader is called again and again until the end of
the file, and is to return the telemetry records: the lines that start with `[telem]`.
It looks for the name of the level anywhere in the line, though. A message that
mentions it is taken for a record, and what stands behind the seventh byte of its line
for a time.

So the records of a log are what is returned if no line of another level contains the
name (`CortxMio.loadsTelem_iff`), and only then, as each of these lines is one more
that is returned.
-/

namespace CortxMio

open Lib

/-! ### Logs -/

/-- A timestamp: a word, and shorter than the longest line that is logged. -/
structure LogStamp where
  /-- The bytes. -/
  bytes : List Byte
  /-- It has no blanks. -/
  noBlank : ∀ b ∈ bytes, isspace b = false ∧ b ≠ 0
  /-- It is a word. -/
  length_pos : 0 < bytes.length
  /-- It fits into a line. -/
  length_lt : bytes.length < mioLogMaxRecLen

/-- A line of a log. -/
structure LogLine where
  /-- The level. -/
  level : MioLogLevel
  /-- The time. -/
  timestamp : LogStamp
  /-- The message. -/
  message : List Byte
  /-- The message is on one line. -/
  plain : Plain message

/-- The bytes of a line, without the newline: `[level] timestamp message`. -/
def LogLine.text (l : LogLine) : List Byte :=
  logHead l.level ++ l.timestamp.bytes ++ blank :: l.message

/-- The bytes of a log. -/
def logFile (lines : List LogLine) : List Byte := lines.flatMap fun l => l.text ++ [newline]

/-- The line has the name of the telemetry level somewhere. -/
def LogLine.Mentions (l : LogLine) : Prop := (mioLogLevels .telemetry).bytes <:+: l.text

instance (l : LogLine) : Decidable l.Mentions :=
  inferInstanceAs (Decidable ((mioLogLevels .telemetry).bytes <:+: l.text))

/-! ### Loading -/

/-- What a number of successive calls of `mio_telem_log_load` return. Behind the line
that it has read, each of them finds other bytes in memory. -/
def mioTelemLogLoads (junk : ℕ → List Byte) :
    ℕ → List (List Byte) → Except Fault (List (Option TelemLogEntry))
  | 0, _ => .ok []
  | n + 1, lines => do
    let r ← mioTelemLogLoad (junk n) lines
    let rs ← mioTelemLogLoads junk n r.2
    return r.1 :: rs

/-- The strings in the two buffers of an entry: the time, and the rest of the line. -/
def TelemLogEntry.strings (e : TelemLogEntry) : List Byte × List Byte :=
  ((CStr.ofBuf e.head).bytes, (CStr.ofBuf e.recBuf).bytes)

/-- What is to be returned for a line of telemetry: the time, and the message with the
blank before it and the newline behind it. -/
def LogLine.strings (l : LogLine) : List Byte × List Byte :=
  (l.timestamp.bytes, blank :: (l.message ++ [newline]))

/-- The lines of telemetry. -/
def telemLines (lines : List LogLine) : List LogLine :=
  lines.filter fun l => l.level = .telemetry

/-- **The telemetry of a log is loaded**: successive calls return the lines of this
level, in order and each of them once, and then nothing any more. -/
def LoadsTelem (lines : List LogLine) : Prop :=
  ∀ junk : ℕ → List Byte, (∀ i, 8 ≤ (junk i).length) → ∀ n,
    ∃ rs, mioTelemLogLoads junk n (getlines (logFile lines)) = .ok rs ∧
      rs.map (Option.map TelemLogEntry.strings) =
        ((telemLines lines).map (fun l : LogLine => some l.strings) ++ List.replicate n none).take n

/-! ### Lines of a log -/

theorem LogLine.zero_notMem_text (l : LogLine) : 0 ∉ l.text := by
  simp only [text, List.mem_append, List.mem_cons, not_or]
  exact ⟨⟨by cases l.level <;> decide, fun h => (l.timestamp.noBlank _ h).2 rfl⟩, by decide,
    fun h => (l.plain _ h).1 rfl⟩

theorem LogLine.newline_notMem_text (l : LogLine) : newline ∉ l.text := by
  simp only [text, List.mem_append, List.mem_cons, not_or]
  refine ⟨⟨by cases l.level <;> decide, fun h => ?_⟩, by decide, fun h => (l.plain _ h).2 rfl⟩
  exact absurd (l.timestamp.noBlank _ h).1 (by decide)

/-- The log is read line by line. -/
theorem getlines_logFile (lines : List LogLine) :
    getlines (logFile lines) = lines.map fun l => l.text ++ [newline] := by
  induction lines with
  | nil => rfl
  | cons l lines ih =>
    have hcons : logFile (l :: lines) = l.text ++ newline :: logFile lines := by
      simp [logFile]
    rw [hcons, getlines_append_cons l.newline_notMem_text, ih, List.map_cons]

/-- Whether the loader stops at a line. -/
theorem mentions_iff (l : LogLine) :
    (mioLogLevels .telemetry).bytes <:+: (CStr.ofBuf (l.text ++ [newline])).bytes ↔
      l.Mentions := by
  have hzero : 0 ∉ l.text ++ [newline] := by
    rw [List.mem_append, not_or]
    exact ⟨l.zero_notMem_text, by decide⟩
  have hbytes : (CStr.ofBuf (l.text ++ [newline])).bytes = l.text ++ [newline] :=
    congrArg CStr.bytes (CStr.ofBuf_bytes ⟨_, hzero⟩)
  rw [hbytes, LogLine.Mentions]
  constructor
  · rintro ⟨front, back, h⟩
    -- the newline is not part of the name
    rcases List.eq_nil_or_concat back with rfl | ⟨back, b, rfl⟩
    · rw [List.append_nil] at h
      have hlast := congrArg List.getLast? h
      rw [List.getLast?_append, List.getLast?_append] at hlast
      have hname : (mioLogLevels .telemetry).bytes.getLast? = some 109 := by decide
      rw [hname] at hlast
      exact absurd (Option.some.inj hlast) (by decide)
    · rw [List.concat_eq_append, ← List.append_assoc] at h
      exact ⟨front, back, (List.append_inj' h rfl).1⟩
  · exact fun h => h.trans (List.prefix_append _ _).isInfix

/-- A line of telemetry has its name. -/
theorem mentions_of_telemetry {l : LogLine} (h : l.level = .telemetry) : l.Mentions := by
  rw [LogLine.Mentions, LogLine.text, h]
  exact ⟨ascii "[", ascii "]" ++ [blank] ++ l.timestamp.bytes ++ blank :: l.message, by
    simp only [List.append_assoc]
    rfl⟩

/-- **A line of telemetry is loaded.** -/
theorem mioTelemLogLoad_telemetry {junk : List Byte} (hjunk : 8 ≤ junk.length) {l : LogLine}
    (hl : l.level = .telemetry) (lines : List (List Byte)) :
    ∃ entry, mioTelemLogLoad junk ((l.text ++ [newline]) :: lines) = .ok (some entry, lines) ∧
      entry.strings = l.strings := by
  have htail : 0 ∉ l.message ++ [newline] := by
    rw [List.mem_append, not_or]
    exact ⟨fun h => (l.plain _ h).1 rfl, by decide⟩
  obtain ⟨entry, hentry, hhead, hrec⟩ := telemLogSplit_eq hjunk
    (show ∀ c ∈ [blank], isspace c = true from List.forall_mem_singleton.mpr (by decide))
    (by decide) (by decide)
    (fun c hc => (l.timestamp.noBlank c hc).1) (fun h => (l.timestamp.noBlank _ h).2 rfl)
    l.timestamp.length_pos l.timestamp.length_lt htail
  have hline : l.text ++ [newline] = ascii "[telem]" ++ [blank] ++ l.timestamp.bytes ++
      blank :: (l.message ++ [newline]) := by
    rw [LogLine.text, hl, List.append_assoc]
    rfl
  refine ⟨entry, ?_, Prod.ext hhead hrec⟩
  rw [mioTelemLogLoad, if_pos ((mentions_iff l).mpr (mentions_of_telemetry hl)), hline, hentry]
  rfl

/-- A line without the name is skipped. -/
theorem mioTelemLogLoads_skip {l : LogLine} (hl : ¬ l.Mentions) (junk : ℕ → List Byte) (n : ℕ)
    (lines : List (List Byte)) :
    mioTelemLogLoads junk n ((l.text ++ [newline]) :: lines) = mioTelemLogLoads junk n lines := by
  cases n with
  | zero => rfl
  | succ n =>
    rw [mioTelemLogLoads, mioTelemLogLoad, if_neg fun h => hl ((mentions_iff l).mp h)]
    rfl

/-! ### How many records are returned -/

/-- The number of lines the loader stops at. -/
def telemMatches (lines : List (List Byte)) : ℕ :=
  lines.countP fun line => (mioLogLevels .telemetry).bytes <:+: (CStr.ofBuf line).bytes

/-- **Each call takes one of the lines** with the name, and returns nothing only if there
is none. -/
theorem telemMatches_of_load {junk : List Byte} {lines rest : List (List Byte)}
    {r : Option TelemLogEntry} (h : mioTelemLogLoad junk lines = .ok (r, rest)) :
    telemMatches lines = telemMatches rest + r.isSome.toNat ∧ (r = none → rest = []) := by
  induction lines with
  | nil =>
    obtain ⟨rfl, rfl⟩ := Prod.mk.inj (Except.ok.inj h)
    exact ⟨rfl, fun _ => rfl⟩
  | cons line lines ih =>
    rw [mioTelemLogLoad] at h
    split at h
    · next hfound =>
      obtain ⟨entry, -, h⟩ := bind_eq_ok_iff.mp h
      obtain ⟨rfl, rfl⟩ := Prod.mk.inj (Except.ok.inj h)
      rw [telemMatches, List.countP_cons_of_pos (by simpa using hfound)]
      exact ⟨rfl, fun h => by cases h⟩
    · next hfound =>
      rw [telemMatches, List.countP_cons_of_neg (by simpa using hfound)]
      exact ih h

/-- **As many calls as there are such lines** all return an entry. -/
theorem isSome_of_mioTelemLogLoads {junk : ℕ → List Byte} {n : ℕ} {lines : List (List Byte)}
    {rs : List (Option TelemLogEntry)} (h : mioTelemLogLoads junk n lines = .ok rs)
    (hn : n ≤ telemMatches lines) : ∀ r ∈ rs, r.isSome = true := by
  induction n generalizing lines rs with
  | zero =>
    obtain rfl := Except.ok.inj h
    exact List.forall_mem_nil _
  | succ n ih =>
    obtain ⟨r, hr, h⟩ := bind_eq_ok_iff.mp h
    obtain ⟨rs', hrs', h⟩ := bind_eq_ok_iff.mp h
    obtain rfl := Except.ok.inj h
    obtain ⟨hcount, hnone⟩ := telemMatches_of_load hr
    have hle := Bool.toNat_le r.1.isSome
    have hsome : r.1.isSome = true := by
      cases hr1 : r.1 with
      | some entry => rfl
      | none =>
        -- the end of the file, before which there were no such lines
        rw [hnone hr1, hr1] at hcount
        rw [hcount] at hn
        exact absurd hn (Nat.not_succ_le_zero n)
    exact List.forall_mem_cons.mpr ⟨hsome, ih hrs' (by omega)⟩

/-- The lines of a log that the loader stops at: those of telemetry, and those of other
levels that have the name. -/
theorem telemMatches_logFile (lines : List LogLine) :
    telemMatches (getlines (logFile lines)) = (telemLines lines).length +
      lines.countP fun l => decide (l.level ≠ .telemetry ∧ l.Mentions) := by
  rw [getlines_logFile, telemMatches, List.countP_map, telemLines, ← List.countP_eq_length_filter]
  induction lines with
  | nil => rfl
  | cons l lines ih =>
    simp only [List.countP_cons, ih, Function.comp_apply, mentions_iff]
    by_cases hlevel : l.level = .telemetry
    · have hmentions := mentions_of_telemetry hlevel
      simp only [hlevel, hmentions, decide_true, if_true, ne_eq, not_true, false_and, decide_false,
        Bool.false_eq_true, if_false]
      omega
    · simp only [hlevel, ne_eq, not_false_iff, true_and, decide_false, Bool.false_eq_true,
        if_false]
      omega

/-- **The telemetry of a log is loaded just if** no line of another level has the name of
the telemetry level in it. -/
theorem loadsTelem_iff (lines : List LogLine) :
    LoadsTelem lines ↔ ∀ l ∈ lines, l.level ≠ .telemetry → ¬ l.Mentions := by
  constructor
  · intro h l hl hlevel hmentions
    have hlt : (telemLines lines).length < telemMatches (getlines (logFile lines)) := by
      rw [telemMatches_logFile]
      refine Nat.lt_add_of_pos_right (List.countP_pos_iff.mpr ⟨l, hl, ?_⟩)
      exact decide_eq_true ⟨hlevel, hmentions⟩
    -- one call more than there are records
    obtain ⟨rs, hrs, heq⟩ := h (fun _ => List.replicate 8 0) (fun _ => by decide)
      ((telemLines lines).length + 1)
    have hsome := isSome_of_mioTelemLogLoads hrs hlt
    have hnone : none ∈ rs.map (Option.map TelemLogEntry.strings) := by
      rw [heq, List.take_append, List.length_map, Nat.add_sub_cancel_left, List.take_replicate]
      exact List.mem_append_right _ (List.mem_replicate.mpr ⟨by omega, rfl⟩)
    obtain ⟨r, hr, hmap⟩ := List.mem_map.mp hnone
    rw [Option.map_eq_none_iff] at hmap
    have := hsome r hr
    rw [hmap] at this
    cases this
  · intro h junk hjunk n
    rw [getlines_logFile]
    induction lines generalizing n with
    | nil =>
      refine ⟨List.replicate n none, ?_, by simp [telemLines]⟩
      induction n with
      | zero => rfl
      | succ n ih =>
        show (mioTelemLogLoads junk n [] >>= fun rs => .ok (none :: rs)) = _
        rw [List.map_nil] at ih
        rw [ih]
        rfl
    | cons l lines ih =>
      have ih := ih fun l' hl' => h l' (List.mem_cons_of_mem _ hl')
      rw [List.map_cons]
      by_cases hlevel : l.level = .telemetry
      · have hcons : telemLines (l :: lines) = l :: telemLines lines :=
          List.filter_cons_of_pos (by simpa using hlevel)
        cases n with
        | zero => exact ⟨[], rfl, by simp⟩
        | succ n =>
          obtain ⟨entry, hload, hstrings⟩ := mioTelemLogLoad_telemetry (hjunk n) hlevel
            (lines.map fun l => l.text ++ [newline])
          obtain ⟨rs, hrs, heq⟩ := ih n
          have htake : ∀ xs : List (Option (List Byte × List Byte)),
              (xs ++ List.replicate n none).take n =
                (xs ++ List.replicate (n + 1) none).take n := by
            intro xs
            rw [List.replicate_succ', ← List.append_assoc]
            exact (List.take_append_of_le_length (by simp)).symm
          refine ⟨some entry :: rs, ?_, ?_⟩
          · rw [mioTelemLogLoads, hload, ok_bind, hrs]
            rfl
          · rw [List.map_cons, heq, hcons, List.map_cons, List.cons_append, List.take_succ_cons,
              Option.map_some, hstrings, htake]
      · have hcons : telemLines (l :: lines) = telemLines lines :=
          List.filter_cons_of_neg (by simpa using hlevel)
        rw [mioTelemLogLoads_skip (h l List.mem_cons_self hlevel), hcons]
        exact ih n

/-- A time of the logger. -/
def LogTime.stamp (t : LogTime) : LogStamp where
  bytes := t.text
  noBlank _ hb := ⟨not_isspace_of_mem_text hb, ne_zero_of_mem_text hb⟩
  length_pos := by
    rw [t.length_text]
    decide
  length_lt := by
    rw [t.length_text]
    decide

/-- A warning with the name of the telemetry level in its message. -/
def mentionLine : LogLine := ⟨.warn, noon.stamp, ascii "no telemetry", by decide⟩

/-- **A warning is returned as a record**, with what is left of its level for a time. -/
theorem not_loadsTelem_mentionLine :
    (∃ entry, mioTelemLogLoad (List.replicate 8 0) (getlines (logFile [mentionLine])) =
      .ok (some entry, []) ∧ (CStr.ofBuf entry.head).bytes = ascii "g]") ∧
      telemLines [mentionLine] = [] ∧ ¬ LoadsTelem [mentionLine] := by
  have hload : mioTelemLogLoad (List.replicate 8 0) (getlines (logFile [mentionLine])) =
      .ok (some ⟨ascii " 2021-06-01-12:00:00.000000000 no telemetry" ++
        [newline] ++ List.replicate 7 0, ascii "g]" ++ [0]⟩, []) := by
    decide +kernel
  refine ⟨⟨_, hload, by decide⟩, rfl, fun h => ?_⟩
  obtain ⟨rs, hrs, heq⟩ := h (fun _ => List.replicate 8 0) (fun _ => by decide) 1
  rw [mioTelemLogLoads, hload] at hrs
  obtain rfl := Except.ok.inj hrs
  cases heq

end CortxMio
