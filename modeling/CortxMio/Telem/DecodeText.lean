import CortxMio.Telem.DecodeSafe

/-!
# Decoding encoded texts

The text that is written for a record is a list of words, each with a blank behind it
(`CortxMio.TelemLogRec.text`). In such a text the cursor is moved from word to word: a
string is cut out as it is (`CortxMio.telemLogRecGetString_word`), and a number with the
blank in front of it, to be read on into what `val_str` holds behind it
(`CortxMio.telemLogRecGetScalar_decimal`).

How far a value is read depends on its count alone
(`CortxMio.readsNumbers_telemLogRecGetValue`). If it is read right, all numbers are cut out
as they were written; and whether it is can be seen from what is cut out, and from the
numbers (`CortxMio.ReadsNumbers`).
-/

namespace CortxMio

open Lib

/-! ### Records of numbers -/

/-- A text without blanks that is as long as a `uint8_t` can tell. -/
structure IsTelemWord (w : List Byte) : Prop where
  pos : 0 < w.length
  noBlank : ∀ b ∈ w, isspace b = false ∧ b ≠ 0
  length_le : w.length ≤ 255

/-- A string that is a word. -/
structure TelemWord where
  /-- The string. -/
  str : CStr
  isWord : IsTelemWord str.bytes

/-- The numbers of a value, with the types that they are read as. -/
inductive TelemNumbers
  | scalar (type : MioTelemetryType) (n : ℕ)
  | array (type : MioTelemetryType) (width count : ℕ) (elms : List ℕ)

/-- The numbers of an array: the count that is written, and the elements. -/
def MioTelemetryArray.numbers {α : Type} [TelemScalar α] (arr : MioTelemetryArray α) :
    TelemNumbers :=
  .array (TelemScalar.type α) (LeWord.width α) (UInt16.ofInt arr.mtaNrElms).toNat
    (arr.mtaElms.map LeWord.toNat)

/-- The numbers of a value, if it is of an integer, a time or an array type. -/
def MioTelemetryValue.numbers : MioTelemetryValue → Option TelemNumbers
  | .uint16 x => some (.scalar .uint16 x.toNat)
  | .uint32 x => some (.scalar .uint32 x.toNat)
  | .uint64 x | .timespan x | .timepoint x => some (.scalar .uint64 x.toNat)
  | .arrayUint16 arr => some arr.numbers
  | .arrayUint32 arr => some arr.numbers
  | .arrayUint64 arr => some arr.numbers
  | .none | .string _ | .invalid | .other _ => Option.none

/-- Words with a blank behind each of them. -/
def telemText (ws : List (List Byte)) : List Byte := ws.flatMap (· ++ [blank])

/-- The fields of elements, from one on. -/
def elmFields (nrElms width : ℕ) : ℕ → List ℕ → List (TelemField × List Byte)
  | _, [] => []
  | i, x :: xs => (.elm nrElms width i, decimal x) :: elmFields nrElms width (i + 1) xs

namespace TelemNumbers

/-- The fields of a value. -/
def fields : TelemNumbers → List (TelemField × List Byte)
  | scalar _ n => [(.value, decimal n)]
  | array _ width count elms => (.count, decimal count) :: elmFields elms.length width 0 elms

/-- The numbers, with their types. -/
def typed : TelemNumbers → List (MioTelemetryType × ℕ)
  | scalar type n => [(type, n)]
  | array type _ count elms => (.uint16, count) :: elms.map (type, ·)

end TelemNumbers

/-- What the sign of a prefix is. -/
def telemSign {α : Type} (pre : Option α) : ℕ := if pre.isSome then 1 else 0

/-- The fields of a record. -/
def telemFields (pre : Option TelemWord) (topic : TelemWord) (name : List Byte)
    (numbers : TelemNumbers) : List (TelemField × List Byte) :=
  (.sign, decimal (telemSign pre)) :: (pre.elim [] fun w => [(.pre, w.str.bytes)]) ++
    (.topic, topic.str.bytes) :: (.type, name) :: numbers.fields

/-- A record of numbers, with strings that are words, which the encoder has room for. -/
structure TelemLogRec where
  /-- The prefix. -/
  pre : Option TelemWord
  /-- The topic. -/
  topic : TelemWord
  /-- The value. -/
  value : MioTelemetryValue
  /-- The name of its type. -/
  name : List Byte
  /-- Its numbers. -/
  numbers : TelemNumbers
  name_eq : telemDataTypeNames value.mtrType = some name
  numbers_eq : value.numbers = some numbers
  length_le : (telemText ((telemFields pre topic name numbers).map Prod.snd)).length ≤
    mioLogMaxRecLen

namespace TelemLogRec

variable (r : TelemLogRec)

/-- The record. -/
def record : MioTelemetryRec := ⟨[], r.pre.map TelemWord.str, some r.topic.str, r.value⟩

/-- The strings that are written for a record, and what they are. -/
def fields : List (TelemField × List Byte) := telemFields r.pre r.topic r.name r.numbers

/-- The text of the record. -/
def text : List Byte := telemText (r.fields.map Prod.snd)

end TelemLogRec

/-! ### What is written -/

theorem telemText_cons (w : List Byte) (ws : List (List Byte)) :
    telemText (w :: ws) = w ++ blank :: telemText ws := by
  simp [telemText]

theorem telemText_append (ws ws' : List (List Byte)) :
    telemText (ws ++ ws') = telemText ws ++ telemText ws' :=
  List.flatMap_append

/-- A string that is not too long is written as it is. -/
theorem telemLogRecAddString_eq (rec : List Byte) {w : List Byte} (h : w.length ≤ 255) :
    telemLogRecAddString rec w = rec ++ telemText [w] := by
  have hmax : mioLogMaxRecLen = 1024 := rfl
  have hlen : min mioLogMaxRecLen w.length % 256 = w.length := by
    rw [Nat.min_eq_right (by omega)]
    omega
  rw [telemLogRecAddString, hlen, List.take_length, telemText_cons, List.append_assoc]
  rfl

theorem length_decimal_word {α : Type} [LeWord α] (hwidth : LeWord.width α ≤ 8) (x : α) :
    (decimal (LeWord.toNat x)).length ≤ 20 := by
  refine length_decimal_le (by decide) (lt_of_lt_of_le (LeWord.toNat_lt x) ?_)
  exact (Nat.pow_le_pow_right (by decide) hwidth).trans (by decide)

theorem telemLogRecAdd_eq {α : Type} [LeWord α] (hwidth : LeWord.width α ≤ 8) (rec : List Byte)
    (x : α) : telemLogRecAdd rec x = rec ++ telemText [decimal (LeWord.toNat x)] :=
  telemLogRecAddString_eq rec ((length_decimal_word hwidth x).trans (by decide))

theorem foldl_telemLogRecAdd {α : Type} [LeWord α] (hwidth : LeWord.width α ≤ 8) (elms : List α)
    (rec : List Byte) :
    elms.foldl telemLogRecAdd rec =
      rec ++ telemText (elms.map fun x => decimal (LeWord.toNat x)) := by
  induction elms generalizing rec with
  | nil => exact (List.append_nil rec).symm
  | cons x elms ih =>
    rw [List.foldl_cons, ih, telemLogRecAdd_eq hwidth, List.append_assoc, ← telemText_append]
    rfl

theorem map_elmFields (nrElms width i : ℕ) (xs : List ℕ) :
    (elmFields nrElms width i xs).map Prod.snd = xs.map decimal := by
  induction xs generalizing i with
  | nil => rfl
  | cons x xs ih => rw [elmFields, List.map_cons, ih, List.map_cons]

theorem telemLogRecAddArray_eq {α : Type} [TelemScalar α] (hwidth : LeWord.width α ≤ 8)
    (rec : List Byte) (arr : MioTelemetryArray α) :
    telemLogRecAddArray rec arr = rec ++ telemText (arr.numbers.fields.map Prod.snd) := by
  rw [telemLogRecAddArray, foldl_telemLogRecAdd hwidth, telemLogRecAdd_eq (by decide),
    List.append_assoc, ← telemText_append, MioTelemetryArray.numbers, TelemNumbers.fields,
    List.map_cons, map_elmFields, List.map_map]
  rfl

/-- The numbers of a value are written as words. -/
theorem telemLogRecAddValue_eq {value : MioTelemetryValue} {numbers : TelemNumbers}
    (h : value.numbers = some numbers) (rec : List Byte) :
    telemLogRecAddValue rec value = .ok (rec ++ telemText (numbers.fields.map Prod.snd)) := by
  cases value with
  | uint16 x | uint32 x | uint64 x | timespan x | timepoint x =>
    cases h
    exact congrArg Except.ok (telemLogRecAdd_eq (by decide) rec x)
  | arrayUint16 arr | arrayUint32 arr | arrayUint64 arr =>
    cases h
    exact congrArg Except.ok (telemLogRecAddArray_eq (by decide) rec arr)
  | none | string | invalid | other => cases h

/-! ### Words -/

theorem IsTelemWord.of_all {w : List Byte} (hpos : 0 < w.length)
    (hall : w.all (fun b => !isspace b && b != 0) = true) (hle : w.length ≤ 255) :
    IsTelemWord w where
  pos := hpos
  noBlank := by simpa using hall
  length_le := hle

theorem isspace_of_mem_lead {lead : List Byte} (hlead : lead = [] ∨ lead = [blank]) :
    ∀ b ∈ lead, isspace b = true := by
  rcases hlead with rfl | rfl
  · nofun
  · exact List.forall_mem_singleton.mpr rfl

theorem isTelemWord_decimal {n : ℕ} (h : (decimal n).length ≤ 255) : IsTelemWord (decimal n) where
  pos := length_decimal_pos n
  noBlank b hb := by
    obtain ⟨d, hd, rfl⟩ := exists_of_mem_decimal hb
    interval_cases d <;> decide
  length_le := h

/-- The name of a type is a word, from which the type is found. -/
theorem isTelemWord_name {type : MioTelemetryType} {name : List Byte}
    (h : telemDataTypeNames type = some name) :
    IsTelemWord name ∧ telemTypeOfName name = some type := by
  have hname : (0 < name.length ∧ name.all (fun b => !isspace b && b != 0) = true ∧
      name.length ≤ 255) ∧ telemTypeOfName name = some type := by
    cases type <;> cases h <;> decide +kernel
  exact ⟨.of_all hname.1.1 hname.1.2.1 hname.1.2.2, hname.2⟩

theorem zero_notMem_telemText {ws : List (List Byte)} (h : ∀ w ∈ ws, IsTelemWord w) :
    0 ∉ telemText ws := by
  intro hmem
  obtain ⟨w, hw, hzero⟩ := List.mem_flatMap.mp hmem
  rcases List.mem_append.mp hzero with hzero | hzero
  · exact ((h w hw).noBlank 0 hzero).2 rfl
  · exact absurd (List.mem_singleton.mp hzero) (by decide)

/-- Behind a blank, the cursor is moved to the next word and to its end. -/
theorem lookup_word {lead w : List Byte} (hlead : lead = [] ∨ lead = [blank])
    (hw : IsTelemWord w) (more : List Byte) :
    telemLogSkipDelimiter (lead ++ (w ++ blank :: more)) = .ok (w ++ blank :: more) ∧
      telemLogJumpToDelimiter (w ++ blank :: more) = .ok (blank :: more) := by
  have hmax : mioLogMaxRecLen = 1024 := rfl
  obtain ⟨b, bs, rfl⟩ := List.exists_cons_of_length_pos hw.pos
  have hb := hw.noBlank b List.mem_cons_self
  have hle := hw.length_le
  have hspace := isspace_of_mem_lead hlead
  have hlen : lead.length ≤ 1 := by
    rcases hlead with rfl | rfl <;> decide
  have hzero : 0 ∉ lead := by
    rcases hlead with rfl | rfl <;> decide
  have hzero' : 0 ∉ b :: bs := fun h => (hw.noBlank 0 h).2 rfl
  have hp : ∀ c ∈ b :: bs, (!isspace c && c != newline) = true := by
    intro c hc
    have hne : c ≠ newline := by
      rintro rfl
      exact absurd (hw.noBlank newline hc).1 (by decide)
    simp [(hw.noBlank c hc).1, hne]
  constructor
  · rw [telemLogSkipDelimiter, List.cons_append,
      scanWhile_strnlen hspace hb.1 hzero hb.2 (by omega)]
    simp
  · rw [telemLogJumpToDelimiter,
      scanWhile_strnlen hp (by decide) hzero' (by decide) (by omega)]
    simp

/-! ### Numbers -/

/-- The types that numbers are read as. -/
def IsScalarType (type : MioTelemetryType) : Prop :=
  type = .uint16 ∨ type = .uint32 ∨ type = .uint64

/-- What is kept of a number that is read as a type. -/
def telemKeep : MioTelemetryType → ℕ → ℕ
  | .uint16, n => min n (2 ^ 63 - 1) % 2 ^ 16
  | .uint32, n => min n (2 ^ 63 - 1) % 2 ^ 32
  | _, n => min n (2 ^ 64 - 1)

/-- The number that is read where a number has been written: the digits that `val_str`
holds behind it are read on. -/
def telemNumberAt (stack : DecodeStack) (type : MioTelemetryType) (cursor slice : List Byte)
    (n : ℕ) : ℕ :=
  telemKeep type (readDigits 10 n ((stack.valStr cursor).drop slice.length)).1

/-- A conversion reads on from a number that has been written. -/
theorem telemLogConvert_decimal {type : MioTelemetryType} (htype : IsScalarType type)
    {blanks : List Byte} (hblanks : ∀ b ∈ blanks, isspace b = true) (n : ℕ) (rest : List Byte) :
    telemLogConvert type (blanks ++ (decimal n ++ rest)) =
      some (telemKeep type (readDigits 10 n rest).1) := by
  rcases htype with rfl | rfl | rfl
  · rw [telemLogConvert, atoi_decimal hblanks, Int.bmod_eq_self_sub_mul_bdiv]
    refine congrArg some ?_
    simp only [UInt16.ofInt, UInt16.toNat_ofNat', telemKeep]
    omega
  · rw [telemLogConvert, atoi_decimal hblanks, Int.bmod_eq_self_sub_mul_bdiv]
    refine congrArg some ?_
    simp only [UInt32.ofInt, UInt32.toNat_ofNat', telemKeep]
    omega
  · rw [telemLogConvert, scanDecimal_decimal hblanks]
    refine congrArg some ?_
    show UInt64.toNat (if _ then _ else _) = min _ _
    split
    · next hbig =>
      rw [Nat.min_eq_right (by omega)]
      rfl
    · next hsmall =>
      rw [Nat.min_eq_left (by omega), UInt64.toNat_ofNat_of_lt']
      exact not_le.mp hsmall

/-- The numbers of a value fit in 64 bits. -/
theorem typed_spec {value : MioTelemetryValue} {numbers : TelemNumbers}
    (h : value.numbers = some numbers) :
    ∀ p ∈ numbers.typed, IsScalarType p.1 ∧ p.2 < 2 ^ 64 := by
  have harray : ∀ {α : Type} [TelemScalar α] (arr : MioTelemetryArray α),
      IsScalarType (TelemScalar.type α) → LeWord.width α ≤ 8 →
        ∀ p ∈ arr.numbers.typed, IsScalarType p.1 ∧ p.2 < 2 ^ 64 := by
    intro α _ arr htype hwidth p hp
    rcases List.mem_cons.mp hp with rfl | hp
    · exact ⟨.inl rfl, (UInt16.toNat_lt _).trans (by decide)⟩
    · obtain ⟨x, hx, rfl⟩ := List.mem_map.mp hp
      obtain ⟨y, -, rfl⟩ := List.mem_map.mp hx
      refine ⟨htype, lt_of_lt_of_le (LeWord.toNat_lt y) ?_⟩
      exact (Nat.pow_le_pow_right (by decide) hwidth).trans (by decide)
  cases value with
  | uint16 x =>
    cases h
    exact List.forall_mem_singleton.mpr ⟨.inl rfl, x.toNat_lt.trans (by decide)⟩
  | uint32 x =>
    cases h
    exact List.forall_mem_singleton.mpr ⟨.inr (.inl rfl), x.toNat_lt.trans (by decide)⟩
  | uint64 x | timespan x | timepoint x =>
    cases h
    exact List.forall_mem_singleton.mpr ⟨.inr (.inr rfl), x.toNat_lt⟩
  | arrayUint16 arr =>
    cases h
    exact harray arr (.inl rfl) (by decide)
  | arrayUint32 arr =>
    cases h
    exact harray arr (.inr (.inl rfl)) (by decide)
  | arrayUint64 arr =>
    cases h
    exact harray arr (.inr (.inr rfl)) (by decide)
  | none | string | invalid | other => cases h

/-! ### Fields -/

/-- What was cut out, without the blanks in front of it. -/
def TelemCut.text (c : TelemCut) : TelemField × List Byte := (c.field, c.slice.dropWhile isspace)

/-- The numbers that were read. -/
def numbersOf (trace : List TelemCut) : List (Option ℕ) :=
  (trace.filter (·.type ≠ .string)).map TelemCut.number

/-- A word that is found. -/
def wordCut (field : TelemField) (cursor w more : List Byte) : TelemCut :=
  ⟨field, .string, cursor, w, blank :: more, none⟩

/-- A number that is found, behind `lead`. -/
def numberCut (stack : DecodeStack) (field : TelemField) (type : MioTelemetryType)
    (cursor lead : List Byte) (n : ℕ) (more : List Byte) : TelemCut :=
  ⟨field, type, cursor, lead ++ decimal n, blank :: more,
    some (telemNumberAt stack type cursor (lead ++ decimal n) n)⟩

theorem numbersOf_append (t t' : List TelemCut) :
    numbersOf (t ++ t') = numbersOf t ++ numbersOf t' := by
  rw [numbersOf, List.filter_append, List.map_append]
  rfl

theorem isTelemWord_decimal_of_lt {n : ℕ} (hn : n < 2 ^ 64) : IsTelemWord (decimal n) :=
  isTelemWord_decimal ((length_decimal_le (by decide)
    (hn.trans (by decide : 2 ^ 64 < 10 ^ 20))).trans (by decide))

theorem dropWhile_word {lead w : List Byte} (hlead : lead = [] ∨ lead = [blank])
    (hw : IsTelemWord w) : (lead ++ w).dropWhile isspace = w := by
  obtain ⟨b, bs, rfl⟩ := List.exists_cons_of_length_pos hw.pos
  have hb : ¬ isspace b = true := by simp [(hw.noBlank b List.mem_cons_self).1]
  rcases hlead with rfl | rfl
  · exact List.dropWhile_cons_of_neg hb
  · exact List.dropWhile_cons_of_neg hb

section Fields

variable (stack : DecodeStack) {s : Traced (List Byte) TelemCut} {lead more : List Byte}
  (hlead : lead = [] ∨ lead = [blank])

include hlead

/-- A word is cut out. -/
theorem telemLogRecGetString_word {w : List Byte} (hw : IsTelemWord w)
    (hstate : s.state = lead ++ (w ++ blank :: more)) (field : TelemField) :
    telemLogRecGetString field s =
      .ok w ⟨blank :: more, s.trace ++ [wordCut field s.state w more]⟩ := by
  obtain ⟨hskip, hjump⟩ := lookup_word hlead hw more
  have hle := hw.length_le
  have hlen : ((w ++ blank :: more).length - (blank :: more).length) % 256 = w.length := by
    rw [List.length_append, Nat.add_sub_cancel]
    omega
  rw [telemLogRecGetString_eq field (hstate ▸ hskip) hjump, hlen, List.take_left, List.drop_left]
  rfl

/-- A number is cut out, and read on. -/
theorem telemLogRecGetScalar_decimal {type : MioTelemetryType} (htype : IsScalarType type) {n : ℕ}
    (hn : n < 2 ^ 64) (hstate : s.state = lead ++ (decimal n ++ blank :: more))
    {field : TelemField} (hinside : field.Inside) :
    telemLogRecGetScalar stack field type s =
      .ok (some (telemNumberAt stack type s.state (lead ++ decimal n) n))
        ⟨blank :: more, s.trace ++ [numberCut stack field type s.state lead n more]⟩ := by
  have hle : (decimal n).length ≤ 20 := length_decimal_le (by decide) (hn.trans (by decide))
  have hpos := length_decimal_pos n
  obtain ⟨hskip, hjump⟩ := lookup_word hlead (isTelemWord_decimal_of_lt hn) more
  have hleadLen : lead.length ≤ 1 := by
    rcases hlead with rfl | rfl <;> decide
  have hblanks := isspace_of_mem_lead hlead
  have hsplit : s.state = (lead ++ decimal n) ++ blank :: more := by
    rw [hstate, List.append_assoc]
  have hlen : s.state.length = (lead ++ decimal n).length + (blank :: more).length := by
    rw [hsplit, List.length_append]
  have htake : s.state.take (s.state.length - (blank :: more).length) = lead ++ decimal n := by
    rw [hlen, Nat.add_sub_cancel, hsplit, List.take_left]
  have hnumber : telemLogScalar type (stack.valStr s.state) (lead ++ decimal n) =
      some (telemNumberAt stack type s.state (lead ++ decimal n) n) := by
    rw [telemLogScalar, if_neg (by rw [List.length_append]; omega), List.append_assoc,
      telemLogConvert_decimal htype hblanks]
    rfl
  rw [telemLogRecGetScalar_eq stack field type (hstate ▸ hskip) hjump]
  simp only [htake, hnumber]
  rw [if_neg fun h => h.2 hinside]
  rfl

/-- A number is read into memory of a type. -/
theorem telemLogRecGet_decimal {α : Type} [TelemScalar α]
    (htype : IsScalarType (TelemScalar.type α)) {n : ℕ} (hn : n < 2 ^ 64)
    (hstate : s.state = lead ++ (decimal n ++ blank :: more)) {field : TelemField}
    (hinside : field.Inside) (val : α) :
    telemLogRecGet stack α field val s =
      .ok (LeWord.ofNat (telemNumberAt stack (TelemScalar.type α) s.state (lead ++ decimal n) n))
        ⟨blank :: more,
          s.trace ++ [numberCut stack field (TelemScalar.type α) s.state lead n more]⟩ := by
  rw [telemLogRecGet,
    TraceM.bind_of_ok (telemLogRecGetScalar_decimal stack hlead htype hn hstate hinside)]
  rfl

theorem text_numberCut {n : ℕ} (hn : n < 2 ^ 64) (field : TelemField) (type : MioTelemetryType)
    (cursor : List Byte) :
    (numberCut stack field type cursor lead n more).text = (field, decimal n) :=
  congrArg (Prod.mk field) (dropWhile_word hlead (isTelemWord_decimal_of_lt hn))

end Fields

theorem text_wordCut {w : List Byte} (hw : IsTelemWord w) (field : TelemField)
    (cursor more : List Byte) : (wordCut field cursor w more).text = (field, w) :=
  congrArg (Prod.mk field) (dropWhile_word (.inl rfl) hw)

theorem numbersOf_numberCut {stack : DecodeStack} {type : MioTelemetryType}
    (htype : IsScalarType type) (field : TelemField) (cursor lead : List Byte) (n : ℕ)
    (more : List Byte) :
    numbersOf [numberCut stack field type cursor lead n more] =
      [some (telemNumberAt stack type cursor (lead ++ decimal n) n)] := by
  rcases htype with rfl | rfl | rfl <;> rfl

/-! ### Values -/

/-- The numbers that are read where numbers have been written, with the cursor at the blank
in front of the first one. -/
def numbersRead (stack : DecodeStack) (junk : List Byte) :
    List (MioTelemetryType × ℕ) → List ℕ
  | [] => []
  | p :: ps =>
    telemNumberAt stack p.1 (blank :: (telemText ((p :: ps).map fun q => decimal q.2) ++ 0 :: junk))
      (blank :: decimal p.2) p.2 :: numbersRead stack junk ps

section Values

variable (stack : DecodeStack) (junk : List Byte) {α : Type} [TelemScalar α]

theorem numbersRead_cons (type : MioTelemetryType) (x : ℕ) (xs : List ℕ) :
    numbersRead stack junk ((x :: xs).map (type, ·)) =
      telemNumberAt stack type (blank :: (telemText ((x :: xs).map decimal) ++ 0 :: junk))
        (blank :: decimal x) x :: numbersRead stack junk (xs.map (type, ·)) := by
  rw [List.map_cons, numbersRead, List.map_cons, List.map_cons, List.map_map]
  rfl

/-- **The elements are read**, each to the next blank. -/
theorem telemLogRecGetElms_eq (htype : IsScalarType (TelemScalar.type α)) {nrElms : ℕ}
    (hinside : ∀ i < nrElms, (TelemField.elm nrElms (LeWord.width α) i).Inside) (xs : List ℕ)
    (hxs : ∀ x ∈ xs, x < 2 ^ 64) (hle : xs.length ≤ nrElms) (s : Traced (List Byte) TelemCut)
    (hstate : s.state = blank :: (telemText (xs.map decimal) ++ 0 :: junk)) :
    ∃ cuts, telemLogRecGetElms stack α nrElms xs.length s =
        .ok ((numbersRead stack junk (xs.map (TelemScalar.type α, ·))).map LeWord.ofNat)
          ⟨blank :: 0 :: junk, s.trace ++ cuts⟩ ∧
      cuts.map TelemCut.text = elmFields nrElms (LeWord.width α) (nrElms - xs.length) xs ∧
      numbersOf cuts = (numbersRead stack junk (xs.map (TelemScalar.type α, ·))).map some := by
  induction xs generalizing s with
  | nil =>
    refine ⟨[], ?_, rfl, rfl⟩
    obtain ⟨state, trace⟩ := s
    obtain rfl : state = blank :: 0 :: junk := hstate
    rw [List.append_nil]
    rfl
  | cons x xs ih =>
    rw [List.forall_mem_cons] at hxs
    rw [List.length_cons] at hle
    have hcursor : s.state =
        [blank] ++ (decimal x ++ blank :: (telemText (xs.map decimal) ++ 0 :: junk)) := by
      rw [hstate, List.map_cons, telemText_cons, List.append_assoc]
      rfl
    have hfirst := telemLogRecGet_decimal stack (.inr rfl) htype hxs.1 hcursor
      (hinside (nrElms - (xs.length + 1)) (by omega)) (LeWord.ofNat 0)
    set cut := numberCut stack (.elm nrElms (LeWord.width α) (nrElms - (xs.length + 1)))
      (TelemScalar.type α) s.state [blank] x (telemText (xs.map decimal) ++ 0 :: junk) with hcut
    obtain ⟨cuts, hrest, htext, hnumbers⟩ := ih hxs.2 (by omega)
      ⟨blank :: (telemText (xs.map decimal) ++ 0 :: junk), s.trace ++ [cut]⟩ rfl
    rw [numbersRead_cons, ← hstate]
    refine ⟨cut :: cuts, ?_, ?_, ?_⟩
    · rw [List.length_cons, telemLogRecGetElms, TraceM.bind_of_ok hfirst,
        TraceM.bind_of_ok hrest, List.append_assoc]
      rfl
    · rw [List.map_cons, htext, List.length_cons, elmFields, hcut,
        text_numberCut stack (.inr rfl) hxs.1]
      congr 2
      omega
    · rw [← List.singleton_append, numbersOf_append, hnumbers, hcut, numbersOf_numberCut htype]
      rfl

/-- A field that is looked for in a text is put on record, well or not. -/
theorem exists_cut_telemLogRecGet {text : List Byte} (hzero : 0 ∉ text) (field : TelemField)
    (val : α) {s : Traced (List Byte) TelemCut} (hstate : s.state = text ++ 0 :: junk) :
    ∃ cut, (ending (telemLogRecGet stack α field val s)).trace = s.trace ++ [cut] ∧
      cut.field = field ∧ cut.type = TelemScalar.type α := by
  obtain ⟨cursor, stop, hskip, hjump, -⟩ := exists_lookup hzero junk
  have hrun := telemLogRecGetScalar_eq stack field (TelemScalar.type α) (hstate ▸ hskip) hjump
  dsimp only at hrun
  rw [telemLogRecGet]
  split at hrun
  · rw [TraceM.bind_of_error hrun]
    exact ⟨_, rfl, rfl, rfl⟩
  · rw [TraceM.bind_of_ok hrun]
    exact ⟨_, rfl, rfl, rfl⟩

/-- If elements are looked for, there is one that is the first. -/
theorem exists_cut_telemLogRecGetElms {text : List Byte} (hzero : 0 ∉ text) (nrElms : ℕ)
    {s : Traced (List Byte) TelemCut} (hstate : s.state = text ++ 0 :: junk) :
    ∃ cuts, (ending (telemLogRecGetElms stack α nrElms nrElms s)).trace = s.trace ++ cuts ∧
      ((nrElms = 0 ∧ cuts = []) ∨ ∃ cut more, cuts = cut :: more ∧
        cut.field = .elm nrElms (LeWord.width α) 0 ∧ cut.type = TelemScalar.type α) := by
  cases nrElms with
  | zero => exact ⟨[], (List.append_nil _).symm, .inl ⟨rfl, rfl⟩⟩
  | succ n =>
    obtain ⟨cut, hcut, hfield, htype⟩ := exists_cut_telemLogRecGet stack junk hzero
      (.elm (n + 1) (LeWord.width α) (n + 1 - (n + 1))) (LeWord.ofNat 0 : α) hstate
    rw [Nat.sub_self] at hfield
    rw [telemLogRecGetElms]
    cases hrun : telemLogRecGet stack α (.elm (n + 1) (LeWord.width α) (n + 1 - (n + 1)))
        (LeWord.ofNat 0) s with
    | error e r =>
      rw [hrun] at hcut
      rw [TraceM.bind_of_error hrun]
      exact ⟨[cut], hcut, .inr ⟨cut, [], rfl, hfield, htype⟩⟩
    | ok a r =>
      rw [hrun] at hcut
      have hcut : r.trace = s.trace ++ [cut] := hcut
      obtain ⟨new, hnew⟩ := (grows_telemLogRecGetElms stack α (n + 1) n).bind
        (fun elms => Grows.pure (a :: elms)) r
      rw [TraceM.bind_of_ok hrun]
      exact ⟨cut :: new, by rw [hnew, hcut, List.append_assoc]; rfl,
        .inr ⟨cut, new, rfl, hfield, htype⟩⟩

section Array

variable {count : ℕ} {elms : List ℕ} {s : Traced (List Byte) TelemCut}

/-- The first number of an array. -/
theorem telemLogRecGet_count (hcount : count < 2 ^ 64)
    (hstate : s.state = blank :: (telemText ((count :: elms).map decimal) ++ 0 :: junk)) :
    telemLogRecGet stack UInt16 .count stack.nrElms s =
      .ok (UInt16.ofNat (telemNumberAt stack .uint16 s.state (blank :: decimal count) count))
        ⟨blank :: (telemText (elms.map decimal) ++ 0 :: junk), s.trace ++
          [numberCut stack .count .uint16 s.state [blank] count
            (telemText (elms.map decimal) ++ 0 :: junk)]⟩ := by
  have hcursor : s.state =
      [blank] ++ (decimal count ++ blank :: (telemText (elms.map decimal) ++ 0 :: junk)) := by
    rw [hstate, List.map_cons, telemText_cons, List.append_assoc]
    rfl
  exact telemLogRecGet_decimal stack (.inr rfl) (.inl rfl) hcount hcursor
    (show TelemField.Inside .count from trivial) _

theorem toNat_ofNat_telemNumberAt (cursor slice : List Byte) (n : ℕ) :
    (UInt16.ofNat (telemNumberAt stack .uint16 cursor slice n)).toNat =
      telemNumberAt stack .uint16 cursor slice n := by
  refine UInt16.toNat_ofNat_of_lt' (Nat.mod_lt _ ?_)
  decide

/-- **An array is read** if its count is. -/
theorem telemLogRecGetArray_eq (htype : IsScalarType (TelemScalar.type α))
    (hfits : elms.length * LeWord.width α < 2 ^ 16) (hcount : count < 2 ^ 64)
    (helms : ∀ x ∈ elms, x < 2 ^ 64)
    (hstate : s.state = blank :: (telemText ((count :: elms).map decimal) ++ 0 :: junk))
    (hread : telemNumberAt stack .uint16 s.state (blank :: decimal count) count = elms.length) :
    ∃ cuts, telemLogRecGetArray stack α s =
        .ok (.ofList ((numbersRead stack junk (elms.map (TelemScalar.type α, ·))).map
          LeWord.ofNat)) ⟨blank :: 0 :: junk, s.trace ++ cuts⟩ ∧
      cuts.map TelemCut.text =
        (.count, decimal count) :: elmFields elms.length (LeWord.width α) 0 elms ∧
      numbersOf cuts = (elms.length ::
        numbersRead stack junk (elms.map (TelemScalar.type α, ·))).map some := by
  have hinside : ∀ i < elms.length, (TelemField.elm elms.length (LeWord.width α) i).Inside := by
    intro i hi
    rw [TelemField.Inside, telemLogNrBytes, Nat.mod_eq_of_lt hfits]
    exact Nat.mul_le_mul_right _ hi
  have hfirst := telemLogRecGet_count stack junk hcount hstate
  set cut := numberCut stack .count .uint16 s.state [blank] count
    (telemText (elms.map decimal) ++ 0 :: junk) with hcut
  obtain ⟨cuts, hrest, htext, hnumbers⟩ := telemLogRecGetElms_eq stack junk htype hinside elms helms
    le_rfl ⟨blank :: (telemText (elms.map decimal) ++ 0 :: junk), s.trace ++ [cut]⟩ rfl
  have hnr := toNat_ofNat_telemNumberAt stack s.state (blank :: decimal count) count
  rw [hread] at hnr hfirst
  rw [← hnr] at hrest
  refine ⟨cut :: cuts, ?_, ?_, ?_⟩
  · rw [telemLogRecGetArray, TraceM.bind_of_ok hfirst, TraceM.bind_of_ok hrest, List.append_assoc]
    rfl
  · rw [List.map_cons, htext, hcut, text_numberCut stack (.inr rfl) hcount, Nat.sub_self]
  · rw [← List.singleton_append, numbersOf_append, hnumbers, hcut, numbersOf_numberCut (.inl rfl),
      List.singleton_append, List.map_cons]
    exact congrArg (fun n => some n :: _) hread

/-- Whatever the count is read as, as many elements are looked for. -/
theorem exists_cuts_telemLogRecGetArray (hcount : count < 2 ^ 64)
    (helms : ∀ x ∈ elms, x < 2 ^ 64)
    (hstate : s.state = blank :: (telemText ((count :: elms).map decimal) ++ 0 :: junk)) {n : ℕ}
    (hread : telemNumberAt stack .uint16 s.state (blank :: decimal count) count = n) :
    ∃ cuts, (ending (telemLogRecGetArray stack α s)).trace = s.trace ++
        numberCut stack .count .uint16 s.state [blank] count
          (telemText (elms.map decimal) ++ 0 :: junk) :: cuts ∧
      ((n = 0 ∧ cuts = []) ∨ ∃ cut more, cuts = cut :: more ∧
        cut.field = .elm n (LeWord.width α) 0 ∧ cut.type = TelemScalar.type α) := by
  have hfirst := telemLogRecGet_count stack junk hcount hstate
  have hnr := toNat_ofNat_telemNumberAt stack s.state (blank :: decimal count) count
  have hzero : 0 ∉ blank :: telemText (elms.map decimal) := by
    rw [List.mem_cons, not_or]
    refine ⟨by decide, zero_notMem_telemText ?_⟩
    exact List.forall_mem_map.mpr fun x hx => isTelemWord_decimal_of_lt (helms x hx)
  set r : Traced (List Byte) TelemCut := ⟨blank :: (telemText (elms.map decimal) ++ 0 :: junk),
    s.trace ++ [numberCut stack .count .uint16 s.state [blank] count
      (telemText (elms.map decimal) ++ 0 :: junk)]⟩ with hr
  obtain ⟨cuts, htrace, hcuts⟩ := exists_cut_telemLogRecGetElms (α := α) stack junk hzero n
    (show r.state = _ from rfl)
  refine ⟨cuts, ?_, hcuts⟩
  rw [hread] at hnr hfirst
  rw [← hnr] at htrace
  have hcuts : r.trace ++ cuts = s.trace ++ numberCut stack .count .uint16 s.state [blank] count
      (telemText (elms.map decimal) ++ 0 :: junk) :: cuts := by
    rw [hr, List.append_assoc, List.singleton_append]
  rw [telemLogRecGetArray, TraceM.bind_of_ok hfirst, ← hcuts, ← htrace]
  cases hrun : telemLogRecGetElms stack α (UInt16.ofNat n).toNat (UInt16.ofNat n).toNat r with
  | error e t => rw [TraceM.bind_of_error hrun]; rfl
  | ok a t => rw [TraceM.bind_of_ok hrun]; rfl

end Array

theorem map_fields (numbers : TelemNumbers) :
    numbers.fields.map Prod.snd = numbers.typed.map fun p => decimal p.2 := by
  cases numbers with
  | scalar type n => rfl
  | array type width count elms =>
    rw [TelemNumbers.fields, TelemNumbers.typed, List.map_cons, List.map_cons, map_elmFields,
      List.map_map]
    rfl

/-- The count of an array is read as the number of its elements. -/
def TelemNumbers.CountRead : TelemNumbers → Prop
  | .scalar _ _ => True
  | .array type _ count elms =>
    (numbersRead stack junk ((.uint16, count) :: elms.map (type, ·))).head? = some elms.length

/-- What a part of the decoder does that reads the numbers of a value: they are all read if
the count is right, and this can be told from what is cut out, and from the numbers. -/
structure ReadsNumbers {β : Type} (numbers : TelemNumbers) (P : TelemScan β) : Prop where
  ok : ∀ {s : Traced (List Byte) TelemCut},
    s.state = blank :: (telemText (numbers.typed.map fun p => decimal p.2) ++ 0 :: junk) →
      numbers.CountRead stack junk →
        ∃ v cuts, P s = .ok v ⟨blank :: 0 :: junk, s.trace ++ cuts⟩ ∧
          cuts.map TelemCut.text = numbers.fields ∧
          numbersOf cuts = (numbersRead stack junk numbers.typed).map some
  trace : ∀ {s : Traced (List Byte) TelemCut},
    s.state = blank :: (telemText (numbers.typed.map fun p => decimal p.2) ++ 0 :: junk) →
      ∃ cuts, (ending (P s)).trace = s.trace ++ cuts ∧
        (cuts.map TelemCut.text = numbers.fields → numbers.CountRead stack junk) ∧
        (numbersOf cuts = numbers.typed.map (fun p => some p.2) → numbers.CountRead stack junk)

/-- What is made of the numbers in the end does not matter. -/
theorem ReadsNumbers.map {stack : DecodeStack} {junk : List Byte} {β γ : Type}
    {numbers : TelemNumbers} {P : TelemScan β} (hP : ReadsNumbers stack junk numbers P)
    (g : β → γ) : ReadsNumbers stack junk numbers (P >>= fun x => pure (g x)) where
  ok hstate hcount := by
    obtain ⟨v, cuts, hrun, hcuts⟩ := hP.ok hstate hcount
    exact ⟨_, cuts, TraceM.bind_of_ok hrun, hcuts⟩
  trace {s} hstate := by
    obtain ⟨cuts, htrace, hcuts⟩ := hP.trace hstate
    refine ⟨cuts, ?_, hcuts⟩
    rw [← htrace]
    cases hrun : P s with
    | error e t => rw [TraceM.bind_of_error hrun]; rfl
    | ok a t => rw [TraceM.bind_of_ok hrun]; rfl

theorem readsNumbers_scalar (htype : IsScalarType (TelemScalar.type α)) {n : ℕ} (hn : n < 2 ^ 64)
    (val : α) :
    ReadsNumbers stack junk (.scalar (TelemScalar.type α) n)
      (telemLogRecGet stack α .value val) := by
  have hrun : ∀ {s : Traced (List Byte) TelemCut},
      s.state = blank :: (telemText [decimal n] ++ 0 :: junk) →
        telemLogRecGet stack α .value val s =
          .ok (LeWord.ofNat (telemNumberAt stack (TelemScalar.type α) s.state
            ([blank] ++ decimal n) n))
          ⟨blank :: 0 :: junk, s.trace ++ [numberCut stack .value (TelemScalar.type α) s.state
            [blank] n (0 :: junk)]⟩ := by
    intro s hstate
    have hcursor : s.state = [blank] ++ (decimal n ++ blank :: (0 :: junk)) := by
      rw [hstate, telemText_cons, List.append_assoc]
      rfl
    exact telemLogRecGet_decimal stack (.inr rfl) htype hn hcursor
      (show TelemField.Inside .value from trivial) val
  constructor
  · intro s hstate _
    refine ⟨_, _, hrun hstate, ?_, ?_⟩
    · rw [List.map_singleton, text_numberCut stack (.inr rfl) hn]
      rfl
    · rw [numbersOf_numberCut htype, hstate]
      rfl
  · intro s hstate
    exact ⟨_, congrArg (fun run => (ending run).trace) (hrun hstate), fun _ => trivial,
      fun _ => trivial⟩

theorem numbersRead_array (type : MioTelemetryType) (count : ℕ) (elms : List ℕ) :
    numbersRead stack junk ((.uint16, count) :: elms.map (type, ·)) =
      telemNumberAt stack .uint16 (blank :: (telemText ((count :: elms).map decimal) ++ 0 :: junk))
        (blank :: decimal count) count :: numbersRead stack junk (elms.map (type, ·)) := by
  rw [numbersRead, List.map_cons, List.map_map]
  rfl

theorem countRead_array_iff {width count : ℕ} {elms : List ℕ} {type : MioTelemetryType} :
    (TelemNumbers.array type width count elms).CountRead stack junk ↔
      telemNumberAt stack .uint16 (blank :: (telemText ((count :: elms).map decimal) ++ 0 :: junk))
        (blank :: decimal count) count = elms.length := by
  rw [TelemNumbers.CountRead, numbersRead_array, List.head?_cons, Option.some_inj]

theorem readsNumbers_array (htype : IsScalarType (TelemScalar.type α))
    (hwidth : LeWord.width α ≤ 8) {count : ℕ} {elms : List ℕ} (hcount : count < 2 ^ 64)
    (helms : ∀ x ∈ elms, x < 2 ^ 64) (hfew : elms.length ≤ 1024)
    (heq : 0 < elms.length → count = elms.length) :
    ReadsNumbers stack junk (.array (TelemScalar.type α) (LeWord.width α) count elms)
      (telemLogRecGetArray stack α) := by
  have hmap : (TelemNumbers.array (TelemScalar.type α) (LeWord.width α) count elms).typed.map
      (fun p => decimal p.2) = (count :: elms).map decimal := by
    rw [TelemNumbers.typed, List.map_cons, List.map_cons, List.map_map]
    rfl
  constructor
  · intro s hstate hok
    rw [hmap] at hstate
    rw [countRead_array_iff, ← hstate] at hok
    have hfits : elms.length * LeWord.width α < 2 ^ 16 := by
      have h := Nat.mul_le_mul hfew hwidth
      omega
    obtain ⟨cuts, hrun, htext, hnums⟩ := telemLogRecGetArray_eq stack junk htype hfits hcount helms
      hstate hok
    refine ⟨_, cuts, hrun, htext, ?_⟩
    rw [hnums, TelemNumbers.typed, numbersRead_array, ← hstate, hok]
  · intro s hstate
    rw [hmap] at hstate
    rw [countRead_array_iff, ← hstate]
    obtain ⟨cuts, htrace, hcuts⟩ := exists_cuts_telemLogRecGetArray (α := α) stack junk hcount helms
      hstate rfl
    set read := telemNumberAt stack .uint16 s.state (blank :: decimal count) count with hread
    set first := numberCut stack .count .uint16 s.state [blank] count
      (telemText (elms.map decimal) ++ 0 :: junk) with hfirst
    refine ⟨first :: cuts, htrace, fun htext => ?_, fun hnums => ?_⟩
    · -- the first element tells how many are looked for
      rw [List.map_cons, TelemNumbers.fields] at htext
      have htext := (List.cons.inj htext).2
      cases elms with
      | nil =>
        rcases hcuts with ⟨hzero, -⟩ | ⟨cut, more, rfl, -⟩
        · exact hzero
        · cases htext
      | cons x xs =>
        rcases hcuts with ⟨-, rfl⟩ | ⟨cut, more, rfl, hfield, -⟩
        · cases htext
        · rw [List.map_cons, elmFields] at htext
          have hhead := congrArg Prod.fst (List.cons.inj htext).1
          rw [TelemCut.text, hfield] at hhead
          exact (TelemField.elm.inj hhead).1
    · rw [← List.singleton_append, numbersOf_append, hfirst, numbersOf_numberCut (.inl rfl),
        List.singleton_append, TelemNumbers.typed, List.map_cons, List.map_map] at hnums
      obtain ⟨hhead, hnums⟩ := List.cons.inj hnums
      have hhead : read = count := Option.some.inj hhead
      rcases hcuts with ⟨hzero, rfl⟩ | ⟨cut, more, rfl, -, hcut⟩
      · cases elms with
        | nil => exact hzero
        | cons x xs => cases hnums
      · cases elms with
        | nil =>
          have hne : cut.type ≠ .string := by
            rw [hcut]
            rcases htype with h | h | h <;> rw [h] <;> decide
          rw [numbersOf, List.filter_cons_of_pos (by simpa using hne)] at hnums
          cases hnums
        | cons x xs => rw [hhead, heq (Nat.succ_pos _)]

/-- The count that is written for an array with elements is right. -/
theorem toNat_ofInt_mtaNrElms {β : Type} {arr : MioTelemetryArray β}
    (hpos : 0 < arr.mtaElms.length) (hfew : arr.mtaElms.length ≤ 1024) :
    (UInt16.ofInt arr.mtaNrElms).toNat = arr.mtaElms.length := by
  have hlen := arr.length_mtaElms
  rw [UInt16.ofInt, UInt16.toNat_ofNat']
  omega

/-- **The value of a record is read** if the count of its elements is. -/
theorem readsNumbers_telemLogRecGetValue {value : MioTelemetryValue} {numbers : TelemNumbers}
    (h : value.numbers = some numbers) (hfew : numbers.typed.length ≤ 1024) :
    ReadsNumbers stack junk numbers (telemLogRecGetValue stack value.mtrType) := by
  have hspec := typed_spec h
  have harray : ∀ {α : Type} [TelemScalar α] {arr : MioTelemetryArray α}
      (g : MioTelemetryArray α → MioTelemetryValue), arr.numbers = numbers →
      IsScalarType (TelemScalar.type α) → LeWord.width α ≤ 8 →
        ReadsNumbers stack junk numbers (telemLogRecGetArray stack α >>= fun x => pure (g x)) := by
    intro α _ arr g harr htype hwidth
    subst harr
    have hlen : (arr.mtaElms.map LeWord.toNat).length = arr.mtaElms.length := List.length_map _
    have hlt : arr.mtaElms.length + 1 ≤ 1024 := by
      simpa [MioTelemetryArray.numbers, TelemNumbers.typed] using hfew
    refine (readsNumbers_array stack junk htype hwidth (hspec _ List.mem_cons_self).2
      (fun x hx => ?_) (by omega) fun hpos => ?_).map g
    · exact (hspec (_, x) (List.mem_cons_of_mem _ (List.mem_map_of_mem hx))).2
    · rw [hlen] at hpos ⊢
      exact toNat_ofInt_mtaNrElms hpos (by omega)
  have hscalar : ∀ {α : Type} [TelemScalar α] {n : ℕ} (g : α → MioTelemetryValue) (val : α),
      TelemNumbers.scalar (TelemScalar.type α) n = numbers → IsScalarType (TelemScalar.type α) →
        ReadsNumbers stack junk numbers
          (telemLogRecGet stack α .value val >>= fun x => pure (g x)) := by
    intro α _ n g val hnumbers htype
    subst hnumbers
    exact (readsNumbers_scalar stack junk htype (hspec _ List.mem_cons_self).2 val).map g
  cases value with
  | uint16 x => exact hscalar .uint16 0 (Option.some.inj h) (.inl rfl)
  | uint32 x => exact hscalar .uint32 0 (Option.some.inj h) (.inr (.inl rfl))
  | uint64 x => exact hscalar .uint64 0 (Option.some.inj h) (.inr (.inr rfl))
  | timespan x => exact hscalar .timespan 0 (Option.some.inj h) (.inr (.inr rfl))
  | timepoint x => exact hscalar .timepoint 0 (Option.some.inj h) (.inr (.inr rfl))
  | arrayUint16 arr => exact harray .arrayUint16 (Option.some.inj h) (.inl rfl) (by decide)
  | arrayUint32 arr => exact harray .arrayUint32 (Option.some.inj h) (.inr (.inl rfl)) (by decide)
  | arrayUint64 arr => exact harray .arrayUint64 (Option.some.inj h) (.inr (.inr rfl)) (by decide)
  | none | string | invalid | other => cases h

end Values

end CortxMio
