import CortxMio.Telem.DecodeText

/-!
# Taking encoded texts apart

Encoder and decoder of log records have no grammar in common: one appends words and
blanks, the other looks for the next blank. For records of numbers they agree on where the
fields are (`CortxMio.TelemLogRec.SlicedAsWritten`) as long as the decoder reads the two
numbers right that tell it what to look for: the sign of the prefix, and the count of an
array (`CortxMio.TelemLogRec.slicedAsWritten_iff`). It does not if `val_str` holds digits
behind them, or if the count is negative, of which the lower half is written
(`CortxMio.TelemLogRec.not_slicedAsWritten`).
-/

namespace CortxMio

open Lib

namespace TelemLogRec

variable (r : TelemLogRec)

/-! ### Texts -/

/-- The words between the sign and the numbers. -/
def strings : List (List Byte) :=
  (r.pre.elim [] fun w => [w.str.bytes]) ++ [r.topic.str.bytes, r.name]

/-- The words of the numbers. -/
def values : List (List Byte) := r.numbers.typed.map fun p => decimal p.2

theorem text_eq :
    r.text = decimal (telemSign r.pre) ++ blank :: telemText (r.strings ++ r.values) := by
  rw [text, fields, telemFields, strings, values, ← map_fields]
  cases r.pre with
  | none => rw [← telemText_cons]; rfl
  | some w => rw [← telemText_cons]; rfl

theorem telemSign_lt {α : Type} (pre : Option α) : telemSign pre < 2 := by
  rw [telemSign]
  split <;> decide

theorem isTelemWord_strings : ∀ w ∈ r.strings, IsTelemWord w := by
  intro w hw
  rcases List.mem_append.mp hw with hw | hw
  · cases hpre : r.pre with
    | none => simp [hpre] at hw
    | some p =>
      rw [hpre] at hw
      rw [List.mem_singleton.mp hw]
      exact p.isWord
  · simp only [List.mem_cons, List.not_mem_nil, or_false] at hw
    rcases hw with rfl | rfl
    · exact r.topic.isWord
    · exact (isTelemWord_name r.name_eq).1

theorem isTelemWord_values : ∀ w ∈ r.values, IsTelemWord w := by
  intro w hw
  obtain ⟨p, hp, rfl⟩ := List.mem_map.mp hw
  exact isTelemWord_decimal_of_lt (typed_spec r.numbers_eq p hp).2

theorem zero_notMem_text : 0 ∉ r.text := by
  have hsign : IsTelemWord (decimal (telemSign r.pre)) :=
    isTelemWord_decimal_of_lt ((telemSign_lt r.pre).trans (by decide))
  rw [text_eq, ← telemText_cons]
  refine zero_notMem_telemText (List.forall_mem_cons.mpr ⟨hsign, ?_⟩)
  exact List.forall_mem_append.mpr ⟨r.isTelemWord_strings, r.isTelemWord_values⟩

theorem length_text_le : r.text.length ≤ mioLogMaxRecLen := r.length_le

/-- There are not too many numbers for the text. -/
theorem length_typed_le : r.numbers.typed.length ≤ 1024 := by
  have hlen : ∀ ws : List (List Byte), ws.length ≤ (telemText ws).length := by
    intro ws
    induction ws with
    | nil => exact le_rfl
    | cons w ws ih =>
      rw [telemText_cons, List.length_append, List.length_cons, List.length_cons]
      omega
  have hle := r.length_text_le
  have hmax : mioLogMaxRecLen = 1024 := rfl
  have hvalues := hlen r.values
  rw [values, List.length_map, ← values] at hvalues
  rw [text_eq, telemText_append, List.length_append, List.length_cons, List.length_append] at hle
  omega

theorem telemLogRecAddPrefix_eq :
    telemLogRecAddPrefix (r.pre.map TelemWord.str) =
      telemText (decimal (telemSign r.pre) :: r.pre.elim [] fun w => [w.str.bytes]) := by
  cases r.pre with
  | none => exact telemLogRecAdd_eq (by decide) [] telemLogNoPrefixSign
  | some w =>
    have hsign := telemLogRecAdd_eq (by decide) [] telemLogPrefixSign
    rw [Option.map_some, telemLogRecAddPrefix, hsign,
      telemLogRecAddString_eq _ w.isWord.length_le, List.nil_append, ← telemText_append]
    rfl

/-- **What is written for a record** are its fields, with a blank behind each of them. -/
theorem mioTelemLogEncode_record :
    mioTelemLogEncode r.record = .ok ⟨r.text, r.zero_notMem_text⟩ := by
  have hcode : ¬ (r.record.mtrValue.mtrType.code ≤ MioTelemetryType.invalid.code ∨
      mioTmTypeNr ≤ r.record.mtrValue.mtrType.code) := by
    have hname := r.name_eq
    show ¬ (r.value.mtrType.code ≤ _ ∨ _ ≤ r.value.mtrType.code)
    cases htype : r.value.mtrType with
    | invalid | none | other => rw [htype] at hname; cases hname
    | _ => decide
  have htext : telemLogRecAddRec r.record = .ok r.text := by
    rw [telemLogRecAddRec]
    simp only [record, r.name_eq]
    rw [telemLogRecAddPrefix_eq, telemLogRecAddString_eq _ r.topic.isWord.length_le,
      telemLogRecAddString_eq _ (isTelemWord_name r.name_eq).1.length_le,
      telemLogRecAddValue_eq r.numbers_eq, ← telemText_append, ← telemText_append,
      ← telemText_append, text_eq, ← telemText_cons, map_fields]
    simp only [strings, values, List.cons_append, List.append_assoc, List.nil_append]
  have hbytes : CStr.ofBuf r.text = ⟨r.text, r.zero_notMem_text⟩ :=
    CStr.ofBuf_bytes ⟨r.text, r.zero_notMem_text⟩
  rw [mioTelemLogEncode, if_neg hcode, htext]
  show (if _ then _ else _) = _
  rw [if_neg (not_lt.mpr r.length_text_le), hbytes]

/-! ### The start of a text -/

section Start

variable (stack : DecodeStack) (junk : List Byte)

/-- What the sign is read as. -/
def signRead : ℕ :=
  telemNumberAt stack .uint16 (r.text ++ 0 :: junk) (decimal (telemSign r.pre)) (telemSign r.pre)

/-- What the trace begins with. -/
def signCut : TelemCut :=
  numberCut stack .sign .uint16 (r.text ++ 0 :: junk) [] (telemSign r.pre)
    (telemText (r.strings ++ r.values) ++ 0 :: junk)

/-- Behind the sign. -/
def afterSign : Traced (List Byte) TelemCut :=
  ⟨blank :: (telemText (r.strings ++ r.values) ++ 0 :: junk), [r.signCut stack junk]⟩

/-- The sign is read, and by it the prefix is looked for, or not. -/
theorem telemLogRecGetPrefix_eq :
    telemLogRecGetPrefix stack ⟨r.text ++ 0 :: junk, []⟩ =
      if r.signRead stack junk = 1 then
        (telemLogRecGetString .pre >>= fun pre => pure (some (.ofBuf pre))) (r.afterSign stack junk)
      else .ok none (r.afterSign stack junk) := by
  have hsign : telemSign r.pre < 2 ^ 64 := (telemSign_lt r.pre).trans (by decide)
  have hstate : r.text ++ 0 :: junk = [] ++ (decimal (telemSign r.pre) ++
      blank :: (telemText (r.strings ++ r.values) ++ 0 :: junk)) := by
    rw [text_eq, List.append_assoc]
    rfl
  have hget : telemLogRecGet stack UInt16 .sign stack.hasPrefix ⟨r.text ++ 0 :: junk, []⟩ =
      .ok (UInt16.ofNat (r.signRead stack junk)) (r.afterSign stack junk) :=
    telemLogRecGet_decimal stack (.inl rfl) (.inl rfl) hsign hstate
      (show TelemField.Inside .sign from trivial) stack.hasPrefix
  have hnr : (UInt16.ofNat (r.signRead stack junk)).toNat = r.signRead stack junk :=
    toNat_ofNat_telemNumberAt stack _ _ _
  have hone : UInt16.ofNat (r.signRead stack junk) = telemLogPrefixSign ↔
      r.signRead stack junk = 1 := by
    rw [← UInt16.toNat_inj, hnr]
    rfl
  rw [telemLogRecGetPrefix, TraceM.bind_of_ok hget]
  by_cases h : r.signRead stack junk = 1
  · rw [if_pos h, if_pos (hone.mpr h)]
  · rw [if_neg h, if_neg fun h' => h (hone.mp h')]
    rfl

/-- What is behind the topic in `mio_telem_log_decode`. -/
def getTyped (timeStr : List Byte) (pre : Option CStr) (topic : List Byte) :
    TelemScan MioTelemetryRec := do
  let type ← telemLogRecGetValueType
  let value ← telemLogRecGetValue stack type
  return ⟨timeStr, pre, some (.ofBuf topic), value⟩

/-- What is behind the prefix. -/
def getRest (timeStr : List Byte) (pre : Option CStr) : TelemScan MioTelemetryRec :=
  telemLogRecGetString .topic >>= getTyped stack timeStr pre

theorem telemLogRecGetRec_eq (timeStr : List Byte) :
    telemLogRecGetRec stack timeStr = telemLogRecGetPrefix stack >>= getRest stack timeStr := rfl

theorem grows_getTyped (timeStr : List Byte) (pre : Option CStr) (topic : List Byte) :
    Grows (getTyped stack timeStr pre topic) :=
  ((grows_telemLogRecGetString _).bind fun _ => .pure _).bind fun _ =>
    (grows_telemLogRecGetValue stack _).bind fun _ => .pure _

/-- The first word behind the sign. -/
theorem exists_afterSign : ∃ w more, IsTelemWord w ∧
    (r.afterSign stack junk).state = [blank] ++ (w ++ blank :: more) := by
  have hwords := r.isTelemWord_strings
  obtain ⟨w, ws, hws⟩ : ∃ w ws, r.strings = w :: ws := by
    rw [strings]
    cases r.pre with
    | none => exact ⟨_, _, rfl⟩
    | some p => exact ⟨_, _, rfl⟩
  rw [hws] at hwords
  refine ⟨w, telemText (ws ++ r.values) ++ 0 :: junk, hwords w List.mem_cons_self, ?_⟩
  rw [afterSign, hws, List.cons_append, telemText_cons, List.append_assoc]
  rfl

/-- What is looked for behind the sign is what the sign was read as. -/
theorem exists_second (timeStr : List Byte) : ∃ cut cuts,
    (ending (telemLogRecGetRec stack timeStr ⟨r.text ++ 0 :: junk, []⟩)).trace =
      r.signCut stack junk :: cut :: cuts ∧
        cut.field = if r.signRead stack junk = 1 then .pre else .topic := by
  obtain ⟨w, more, hw, hstate⟩ := r.exists_afterSign stack junk
  have hget := telemLogRecGetString_word (.inr rfl) hw hstate
  have hprefix := r.telemLogRecGetPrefix_eq stack junk
  rw [telemLogRecGetRec_eq]
  by_cases h : r.signRead stack junk = 1
  · rw [if_pos h, TraceM.bind_of_ok (hget .pre)] at hprefix
    obtain ⟨new, hnew⟩ := (grows_telemLogRecGetString .topic).bind
      (grows_getTyped stack timeStr (some (.ofBuf w))) ⟨blank :: more,
        (r.afterSign stack junk).trace ++ [wordCut .pre (r.afterSign stack junk).state w more]⟩
    have hend := congrArg (fun run => (ending run).trace)
      (TraceM.bind_of_ok (f := getRest stack timeStr) hprefix)
    exact ⟨_, new, hend.trans hnew, (if_pos h).symm⟩
  · rw [if_neg h] at hprefix
    obtain ⟨new, hnew⟩ := grows_getTyped stack timeStr none w ⟨blank :: more,
      (r.afterSign stack junk).trace ++ [wordCut .topic (r.afterSign stack junk).state w more]⟩
    refine ⟨wordCut .topic (r.afterSign stack junk).state w more, new, ?_, (if_neg h).symm⟩
    rw [TraceM.bind_of_ok hprefix, getRest, TraceM.bind_of_ok (hget .topic), hnew]
    rfl

/-- The part of the decoder that reads the value. -/
def getTail (timeStr : List Byte) (pre : Option CStr) : TelemScan MioTelemetryRec :=
  telemLogRecGetValue stack r.value.mtrType >>= fun value =>
    pure ⟨timeStr, pre, some (.ofBuf r.topic.str.bytes), value⟩

/-- The topic and the type are found where they have been written. -/
theorem getRest_eq {s : Traced (List Byte) TelemCut}
    (hstate : s.state =
      blank :: (telemText (r.topic.str.bytes :: r.name :: r.values) ++ 0 :: junk))
    (timeStr : List Byte) (pre : Option CStr) :
    ∃ cuts, getRest stack timeStr pre s =
        r.getTail stack timeStr pre ⟨blank :: (telemText r.values ++ 0 :: junk), s.trace ++ cuts⟩ ∧
      cuts.map TelemCut.text = [(.topic, r.topic.str.bytes), (.type, r.name)] ∧
      numbersOf cuts = [] := by
  obtain ⟨hname, htype⟩ := isTelemWord_name r.name_eq
  have htopic : s.state = [blank] ++ (r.topic.str.bytes ++
      blank :: (telemText (r.name :: r.values) ++ 0 :: junk)) := by
    rw [hstate, telemText_cons, List.append_assoc]
    rfl
  have hgetTopic := telemLogRecGetString_word (.inr rfl) r.topic.isWord htopic .topic
  set cut := wordCut .topic s.state r.topic.str.bytes
    (telemText (r.name :: r.values) ++ 0 :: junk) with hcut
  set s' : Traced (List Byte) TelemCut :=
    ⟨blank :: (telemText (r.name :: r.values) ++ 0 :: junk), s.trace ++ [cut]⟩ with hs'
  have hstate' : s'.state = [blank] ++ (r.name ++ blank :: (telemText r.values ++ 0 :: junk)) := by
    rw [hs', telemText_cons, List.append_assoc]
    rfl
  have hgetName := telemLogRecGetString_word (.inr rfl) hname hstate' .type
  set cut' := wordCut .type s'.state r.name (telemText r.values ++ 0 :: junk) with hcut'
  have hgetType : telemLogRecGetValueType s' = .ok r.value.mtrType
      ⟨blank :: (telemText r.values ++ 0 :: junk), s'.trace ++ [cut']⟩ := by
    rw [telemLogRecGetValueType, TraceM.bind_of_ok hgetName, htype]
    rfl
  refine ⟨[cut, cut'], ?_, ?_, rfl⟩
  · rw [getRest, TraceM.bind_of_ok hgetTopic, getTyped, TraceM.bind_of_ok hgetType, hs',
      List.append_assoc]
    rfl
  · rw [List.map_cons, List.map_singleton, hcut, hcut', text_wordCut r.topic.isWord,
      text_wordCut hname]

/-- **The strings of a record are found** if its sign is read as it was meant. -/
theorem telemLogRecGetRec_of_sign (hsign : r.signRead stack junk = 1 ↔ r.pre.isSome = true)
    (timeStr : List Byte) :
    ∃ pre cuts, telemLogRecGetRec stack timeStr ⟨r.text ++ 0 :: junk, []⟩ =
        r.getTail stack timeStr pre ⟨blank :: (telemText r.values ++ 0 :: junk), cuts⟩ ∧
      cuts.map TelemCut.text = (.sign, decimal (telemSign r.pre)) ::
        (r.pre.elim [] fun w => [(.pre, w.str.bytes)]) ++
          [(.topic, r.topic.str.bytes), (.type, r.name)] ∧
      numbersOf cuts = [some (r.signRead stack junk)] := by
  have hlt : telemSign r.pre < 2 ^ 64 := (telemSign_lt r.pre).trans (by decide)
  have hsignText : (r.signCut stack junk).text = (.sign, decimal (telemSign r.pre)) :=
    text_numberCut stack (.inl rfl) hlt _ _ _
  have hsignNumber : numbersOf [r.signCut stack junk] = [some (r.signRead stack junk)] :=
    numbersOf_numberCut (.inl rfl) _ _ _ _ _
  have hprefix := r.telemLogRecGetPrefix_eq stack junk
  rw [telemLogRecGetRec_eq]
  cases hpre : r.pre with
  | none =>
    rw [hpre] at hsign
    rw [if_neg fun h => by simpa using hsign.mp h] at hprefix
    have hstate : (r.afterSign stack junk).state =
        blank :: (telemText (r.topic.str.bytes :: r.name :: r.values) ++ 0 :: junk) := by
      rw [afterSign, strings, hpre]
      rfl
    obtain ⟨cuts, hrest, htext, hnumbers⟩ := r.getRest_eq stack junk hstate timeStr none
    refine ⟨none, r.signCut stack junk :: cuts, ?_, ?_, ?_⟩
    · rw [TraceM.bind_of_ok hprefix, hrest]
      rfl
    · rw [List.map_cons, htext, hsignText, hpre]
      rfl
    · rw [← List.singleton_append, numbersOf_append, hnumbers, hsignNumber, List.append_nil]
  | some w =>
    rw [hpre] at hsign
    have hstate : (r.afterSign stack junk).state = [blank] ++ (w.str.bytes ++
        blank :: (telemText (r.topic.str.bytes :: r.name :: r.values) ++ 0 :: junk)) := by
      rw [afterSign, strings, hpre]
      show blank :: (telemText (w.str.bytes :: _) ++ _) = _
      rw [telemText_cons, List.append_assoc]
      rfl
    have hget := telemLogRecGetString_word (.inr rfl) w.isWord hstate .pre
    set cut := wordCut .pre (r.afterSign stack junk).state w.str.bytes
      (telemText (r.topic.str.bytes :: r.name :: r.values) ++ 0 :: junk) with hcut
    rw [if_pos (hsign.mpr rfl), TraceM.bind_of_ok hget] at hprefix
    obtain ⟨cuts, hrest, htext, hnumbers⟩ := r.getRest_eq stack junk
      (s := ⟨blank :: (telemText (r.topic.str.bytes :: r.name :: r.values) ++ 0 :: junk),
        (r.afterSign stack junk).trace ++ [cut]⟩) rfl timeStr (some (.ofBuf w.str.bytes))
    refine ⟨some (.ofBuf w.str.bytes), r.signCut stack junk :: cut :: cuts, ?_, ?_, ?_⟩
    · exact (TraceM.bind_of_ok hprefix).trans hrest
    · rw [List.map_cons, List.map_cons, htext, hsignText, hcut, text_wordCut w.isWord, hpre]
      rfl
    · have hword : numbersOf (cut :: cuts) = numbersOf cuts := rfl
      rw [← List.singleton_append, numbersOf_append, hsignNumber, hword, hnumbers, List.append_nil]

/-- **A text is read** if its sign is read as it was meant, and the count of an array is:
what is put on record is that of the strings, and then that of the value. -/
theorem telemLogRecGetRec_spec (hsign : r.signRead stack junk = 1 ↔ r.pre.isSome = true)
    (timeStr : List Byte) :
    ∃ cuts cuts', (ending (telemLogRecGetRec stack timeStr ⟨r.text ++ 0 :: junk, []⟩)).trace =
        cuts ++ cuts' ∧
      cuts.map TelemCut.text = (.sign, decimal (telemSign r.pre)) ::
        (r.pre.elim [] fun w => [(.pre, w.str.bytes)]) ++
          [(.topic, r.topic.str.bytes), (.type, r.name)] ∧
      numbersOf cuts = [some (r.signRead stack junk)] ∧
      (cuts'.map TelemCut.text = r.numbers.fields ∨
        numbersOf cuts' = r.numbers.typed.map (fun p => some p.2) →
          r.numbers.CountRead stack junk) ∧
      (r.numbers.CountRead stack junk → ∃ rec,
        telemLogRecGetRec stack timeStr ⟨r.text ++ 0 :: junk, []⟩ =
          .ok rec ⟨blank :: 0 :: junk, cuts ++ cuts'⟩ ∧
        cuts'.map TelemCut.text = r.numbers.fields ∧
        numbersOf cuts' = (numbersRead stack junk r.numbers.typed).map some) := by
  obtain ⟨pre, cuts, hrun, htext, hnumbers⟩ := r.telemLogRecGetRec_of_sign stack junk hsign timeStr
  have hreads : ReadsNumbers stack junk r.numbers (r.getTail stack timeStr pre) :=
    (readsNumbers_telemLogRecGetValue stack junk r.numbers_eq r.length_typed_le).map _
  obtain ⟨cuts', htrace, htexts, hnums⟩ := hreads.trace
    (s := ⟨blank :: (telemText r.values ++ 0 :: junk), cuts⟩) rfl
  rw [hrun]
  refine ⟨cuts, cuts', htrace, htext, hnumbers, fun h => h.elim htexts hnums, fun hcount => ?_⟩
  obtain ⟨rec, cuts'', hvalue, htext', hnumbers'⟩ := hreads.ok
    (s := ⟨blank :: (telemText r.values ++ 0 :: junk), cuts⟩) rfl hcount
  rw [hvalue] at htrace
  obtain rfl := List.append_cancel_left htrace
  exact ⟨rec, hvalue, htext', hnumbers'⟩

end Start

/-! ### Taking a text apart -/

/-- **A text is taken apart as it was put together**: the decoder cuts out the strings that
the encoder wrote, as what they are and in their order, and leaves blanks. -/
def SlicedAsWritten (stack : DecodeStack) (junk : List Byte) (head : CStr) : Prop :=
  ∃ text rec s blanks, mioTelemLogEncode r.record = .ok text ∧
    mioTelemLogDecode stack (some (text.bytes ++ 0 :: junk)) (some head) = .ok rec s ∧
    s.trace.map TelemCut.text = r.fields ∧
    (∀ b ∈ blanks, isspace b = true) ∧ s.state = blanks ++ 0 :: junk

/-- The fields of a record are those in front of the value, and those of the value. -/
theorem fields_eq :
    r.fields = ((.sign, decimal (telemSign r.pre)) ::
      (r.pre.elim [] fun w => [(.pre, w.str.bytes)]) ++
        [(.topic, r.topic.str.bytes), (.type, r.name)]) ++ r.numbers.fields := by
  rw [fields, telemFields]
  simp only [List.cons_append, List.append_assoc, List.nil_append]

/-- The second field of a record. -/
theorem exists_fields_eq : ∃ w rest, r.fields =
    (.sign, decimal (telemSign r.pre)) ::
      ((if r.pre.isSome = true then .pre else .topic : TelemField), w) :: rest := by
  rw [fields, telemFields]
  cases r.pre with
  | none => exact ⟨_, _, rfl⟩
  | some w => exact ⟨_, _, rfl⟩

/-- **A text is taken apart as it was put together** exactly if the sign of the prefix is
read as one with a prefix and as anything else without, and the count of an array as the
number of its elements, with the digits that `val_str` holds behind them. -/
theorem slicedAsWritten_iff (stack : DecodeStack) (junk : List Byte) (head : CStr) :
    r.SlicedAsWritten stack junk head ↔
      (r.signRead stack junk = 1 ↔ r.pre.isSome = true) ∧ r.numbers.CountRead stack junk := by
  constructor
  · rintro ⟨text, rec, s, blanks, henc, hdec, htext, -, -⟩
    obtain rfl := Except.ok.inj (henc.symm.trans r.mioTelemLogEncode_record)
    rw [mioTelemLogDecode_some] at hdec
    have hsign : r.signRead stack junk = 1 ↔ r.pre.isSome = true := by
      obtain ⟨cut, cuts, htrace, hfield⟩ := r.exists_second stack junk
        (head.buf.take (strnlen mioLogMaxRecLen head.buf + 1))
      obtain ⟨w, rest, hfields⟩ := r.exists_fields_eq
      rw [hdec] at htrace
      have htrace : s.trace = r.signCut stack junk :: cut :: cuts := htrace
      rw [htrace, hfields, List.map_cons, List.map_cons] at htext
      have hsecond := congrArg Prod.fst (List.cons.inj (List.cons.inj htext).2).1
      rw [TelemCut.text, hfield] at hsecond
      by_cases h : r.signRead stack junk = 1 <;> by_cases h' : r.pre.isSome = true
      · exact iff_of_true h h'
      · rw [if_pos h, if_neg h'] at hsecond
        cases hsecond
      · rw [if_neg h, if_pos h'] at hsecond
        cases hsecond
      · exact iff_of_false h h'
    obtain ⟨cuts, cuts', htrace, hhead, -, hcount, -⟩ := r.telemLogRecGetRec_spec stack junk hsign
      (head.buf.take (strnlen mioLogMaxRecLen head.buf + 1))
    rw [hdec] at htrace
    have htrace : s.trace = cuts ++ cuts' := htrace
    rw [htrace, List.map_append, hhead, fields_eq] at htext
    exact ⟨hsign, hcount (.inl (List.append_cancel_left htext))⟩
  · rintro ⟨hsign, hcount⟩
    obtain ⟨cuts, cuts', -, hhead, -, -, hok⟩ := r.telemLogRecGetRec_spec stack junk hsign
      (head.buf.take (strnlen mioLogMaxRecLen head.buf + 1))
    obtain ⟨rec, hrun, htext, -⟩ := hok hcount
    refine ⟨_, rec, _, [blank], r.mioTelemLogEncode_record, hrun, ?_,
      isspace_of_mem_lead (.inr rfl), rfl⟩
    rw [List.map_append, hhead, htext, fields_eq]

/-- An array of which the count is negative. -/
def negativeArrayRec : TelemLogRec where
  pre := none
  topic := ⟨⟨ascii "t", by decide⟩, .of_all (by decide) rfl (by decide)⟩
  value := .arrayUint16 ⟨-1, [], rfl⟩
  name := ascii "ARRAY_UINT16"
  numbers := .array .uint16 2 65535 []
  name_eq := rfl
  numbers_eq := rfl
  length_le := by decide

/-- A number, without a prefix. -/
def smallNumberRec : TelemLogRec where
  pre := none
  topic := ⟨⟨ascii "t", by decide⟩, .of_all (by decide) rfl (by decide)⟩
  value := .uint16 5
  name := ascii "UINT16"
  numbers := .scalar .uint16 5
  name_eq := rfl
  numbers_eq := rfl
  length_le := by decide

/-- An array with a negative count is looked for elements that have not been written; and
a one that is left in `val_str` turns the sign of no prefix into that of a prefix. -/
theorem not_slicedAsWritten :
    (¬ negativeArrayRec.SlicedAsWritten zeroDecodeStack [] ⟨[], nofun⟩) ∧
      ¬ smallNumberRec.SlicedAsWritten ⟨0, 0, fun _ => ascii "01"⟩ [] ⟨[], nofun⟩ := by
  constructor
  · rintro ⟨text, rec, s, -, henc, hdec, -⟩
    obtain rfl := Except.ok.inj (henc.symm.trans negativeArrayRec.mioTelemLogEncode_record)
    have hrun : ∃ t, mioTelemLogDecode zeroDecodeStack (some (negativeArrayRec.text ++ [0]))
        (some ⟨[], nofun⟩) = .error .oob t := ⟨_, rfl⟩
    obtain ⟨t, hrun⟩ := hrun
    cases hdec.symm.trans hrun
  · rintro ⟨text, rec, s, -, henc, hdec, -⟩
    obtain rfl := Except.ok.inj (henc.symm.trans smallNumberRec.mioTelemLogEncode_record)
    have hrun : ∃ t, mioTelemLogDecode ⟨0, 0, fun _ => ascii "01"⟩
        (some (smallNumberRec.text ++ [0])) (some ⟨[], nofun⟩) = .error (.err (- EINVAL)) t :=
      ⟨_, rfl⟩
    obtain ⟨t, hrun⟩ := hrun
    cases hdec.symm.trans hrun

end TelemLogRec

end CortxMio
