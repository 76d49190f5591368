import CortxMio.Telem.DecodeSlices

/-!
# What is left in the buffer of a number

Numbers are copied to `val_str` and read from there, without a zero behind them. What the
decoder returns should not depend on what else the buffer holds
(`CortxMio.SameResult`), and the numbers of a record that has been encoded should be read
as they were written (`CortxMio.TelemLogRec.NumbersAsWritten`).

Neither is so: digits that are left in the buffer are read on
(`CortxMio.not_freshlyDecoded`). How much of a difference they make is told by the numbers
that the decoder comes to (`CortxMio.freshlyDecoded_iff`). For this two runs of the decoder
are compared part by part (`CortxMio.agrees_telemLogRecGetRec`).
-/

namespace CortxMio

open Lib

/-! ### What becomes of a number -/

/-- What the memory of a field holds before a number is stored in it. -/
def DecodeStack.before (stack : DecodeStack) : TelemField → ℕ
  | .sign => stack.hasPrefix.toNat
  | .count => stack.nrElms.toNat
  | _ => 0

/-- What is made of the memory of a field: of a sign it only matters whether it is that of
a prefix. -/
def DecodeStack.kept (stack : DecodeStack) (field : TelemField) (number : Option ℕ) : ℕ :=
  let n := number.getD (stack.before field)
  if field = .sign then (if n = telemLogPrefixSign.toNat then 1 else 0) else n

/-- What comes of a number: it is kept, or stored where there is no memory for it. -/
def DecodeStack.stored (stack : DecodeStack) (field : TelemField) (number : Option ℕ) :
    Except Fault ℕ :=
  if number.isSome ∧ ¬ field.Inside then .error .oob else .ok (stack.kept field number)

/-- Other contents of `val_str` would not have made a difference. -/
def TelemCut.Settled (stack : DecodeStack) (valStr : List Byte → List Byte) (c : TelemCut) : Prop :=
  stack.stored c.field (telemLogScalar c.type (stack.valStr c.start) c.slice) =
    stack.stored c.field (telemLogScalar c.type (valStr c.start) c.slice)

/-- A number that is read fits the type it is read as. -/
def FitsWord (α : Type) [TelemScalar α] : Prop := ∀ (valStr val : List Byte) (n : ℕ),
  telemLogScalar (TelemScalar.type α) valStr val = some n → LeWord.toNat (LeWord.ofNat n : α) = n

theorem exists_of_telemLogScalar {type : MioTelemetryType} {valStr val : List Byte} {n : ℕ}
    (h : telemLogScalar type valStr val = some n) : ∃ s, telemLogConvert type s = some n := by
  rw [telemLogScalar] at h
  split at h
  · cases h
  · exact ⟨_, h⟩

theorem fitsWord_uint16 : FitsWord UInt16 := by
  intro valStr val n h
  obtain ⟨s, hs⟩ := exists_of_telemLogScalar h
  cases hs
  exact congrArg UInt16.toNat UInt16.ofNat_toNat

theorem fitsWord_uint32 : FitsWord UInt32 := by
  intro valStr val n h
  obtain ⟨s, hs⟩ := exists_of_telemLogScalar h
  cases hs
  exact congrArg UInt32.toNat UInt32.ofNat_toNat

theorem fitsWord_uint64 : FitsWord UInt64 := by
  intro valStr val n h
  obtain ⟨s, hs⟩ := exists_of_telemLogScalar h
  change telemLogConvert .uint64 s = some n at hs
  rw [telemLogConvert] at hs
  split at hs
  · cases hs
    exact congrArg UInt64.toNat UInt64.ofNat_toNat
  · cases hs

/-! ### Two runs -/

section Runs

variable (stack : DecodeStack) (valStr : List Byte → List Byte)

theorem settled_string (field : TelemField) (start slice stop : List Byte) (number : Option ℕ) :
    TelemCut.Settled stack valStr ⟨field, .string, start, slice, stop, number⟩ := by
  have hnone : ∀ v, telemLogScalar .string v slice = none := by
    intro v
    rw [telemLogScalar]
    split <;> rfl
  rw [TelemCut.Settled, hnone, hnone]

/-- A string does not depend on the buffer. -/
theorem agrees_telemLogRecGetString (field : TelemField) :
    Agrees (TelemCut.Settled stack valStr) (telemLogRecGetString field)
      (telemLogRecGetString field) where
  grows := grows_telemLogRecGetString field
  ok {s t a r new} hstate hrun htrace := by
    rcases lookup_cases s.state with ⟨cursor, stop, hskip, hjump⟩ | hoob
    · rw [telemLogRecGetString_eq field hskip hjump] at hrun
      cases hrun
      obtain rfl := List.append_cancel_left htrace
      have hrun' := telemLogRecGetString_eq field (hstate ▸ hskip) hjump
      refine ⟨iff_of_true ?_ ⟨_, hrun'⟩, fun h => ?_⟩
      · rw [List.forall_mem_singleton]
        exact settled_string stack valStr _ _ _ _ _
      · cases hrun'.symm.trans h
        rfl
    · rw [telemLogRecGetString_oob field hoob] at hrun
      cases hrun
  error {s t e r new} hstate hrun _ _ := by
    rcases lookup_cases s.state with ⟨cursor, stop, hskip, hjump⟩ | hoob
    · rw [telemLogRecGetString_eq field hskip hjump] at hrun
      cases hrun
    · rw [telemLogRecGetString_oob field hoob] at hrun
      cases hrun
      exact ⟨t, telemLogRecGetString_oob field (hstate ▸ hoob)⟩

/-- Two runs read the same of a number, exactly if the number is settled. -/
theorem agrees_telemLogRecGetScalar {α : Type} {field : TelemField} {type : MioTelemetryType}
    {g : Option ℕ → α}
    (hg : ∀ v v' val, g (telemLogScalar type v val) = g (telemLogScalar type v' val) ↔
      stack.kept field (telemLogScalar type v val) =
        stack.kept field (telemLogScalar type v' val)) :
    Agrees (TelemCut.Settled stack valStr)
      (telemLogRecGetScalar stack field type >>= fun number => pure (g number))
      (telemLogRecGetScalar { stack with valStr } field type >>= fun number => pure (g number))
    where
  grows := (grows_telemLogRecGetScalar stack field type).bind fun _ => .pure _
  ok {s t a r new} hstate hrun htrace := by
    rcases lookup_cases s.state with ⟨cursor, stop, hskip, hjump⟩ | hoob
    · have hfirst := telemLogRecGetScalar_eq stack field type hskip hjump
      have hsecond := telemLogRecGetScalar_eq { stack with valStr } field type
        (hstate ▸ hskip) hjump
      rw [hstate] at hsecond
      dsimp only at hfirst hsecond
      split at hfirst
      · rw [TraceM.bind_of_error hfirst] at hrun
        cases hrun
      · next hin =>
        rw [TraceM.bind_of_ok hfirst] at hrun
        cases hrun
        obtain rfl := List.append_cancel_left htrace
        rw [List.forall_mem_singleton, TelemCut.Settled, DecodeStack.stored, if_neg hin,
          DecodeStack.stored]
        split at hsecond
        · next hout =>
          rw [if_pos hout, TraceM.bind_of_error hsecond]
          exact ⟨iff_of_false nofun nofun, nofun⟩
        · next hin' =>
          rw [if_neg hin', TraceM.bind_of_ok hsecond]
          refine ⟨⟨fun h => ?_, fun ⟨r', h⟩ => ?_⟩, fun {r'} h => ?_⟩
          · have hsame := (hg _ _ _).mpr (Except.ok.inj h)
            exact ⟨_, congrArg (EStateM.Result.ok · _) hsame.symm⟩
          · exact congrArg Except.ok ((hg _ _ _).mp (EStateM.Result.ok.inj h).1.symm)
          · rw [← (EStateM.Result.ok.inj h).2]
    · rw [TraceM.bind_of_error (telemLogRecGetScalar_oob stack field type hoob)] at hrun
      cases hrun
  error {s t e r new} hstate hrun htrace hquiet := by
    rcases lookup_cases s.state with ⟨cursor, stop, hskip, hjump⟩ | hoob
    · have hfirst := telemLogRecGetScalar_eq stack field type hskip hjump
      have hsecond := telemLogRecGetScalar_eq { stack with valStr } field type
        (hstate ▸ hskip) hjump
      rw [hstate] at hsecond
      dsimp only at hfirst hsecond
      split at hfirst
      · next hout =>
        rw [TraceM.bind_of_error hfirst] at hrun
        cases hrun
        obtain rfl := List.append_cancel_left htrace
        have hsettled := List.forall_mem_singleton.mp hquiet
        rw [TelemCut.Settled, DecodeStack.stored, if_pos hout, DecodeStack.stored] at hsettled
        split at hsettled
        · next hout' =>
          rw [if_pos hout'] at hsecond
          exact ⟨_, TraceM.bind_of_error hsecond⟩
        · cases hsettled
      · rw [TraceM.bind_of_ok hfirst] at hrun
        cases hrun
    · rw [TraceM.bind_of_error (telemLogRecGetScalar_oob stack field type hoob)] at hrun
      cases hrun
      exact ⟨t, TraceM.bind_of_error (telemLogRecGetScalar_oob _ field type (hstate ▸ hoob))⟩

section Get

variable {α : Type} [TelemScalar α] (hα : FitsWord α)

include hα

theorem toNat_elim {v v' : List Byte} {val : α} {n : ℕ} (hval : LeWord.toNat val = n) :
    LeWord.toNat ((telemLogScalar (TelemScalar.type α) v v').elim val LeWord.ofNat) =
      (telemLogScalar (TelemScalar.type α) v v').getD n := by
  cases hnumber : telemLogScalar (TelemScalar.type α) v v' with
  | none => exact hval
  | some m => exact hα _ _ _ hnumber

theorem agrees_telemLogRecGet {field : TelemField} (hfield : field ≠ .sign) {val : α}
    (hval : LeWord.toNat val = stack.before field) :
    Agrees (TelemCut.Settled stack valStr) (telemLogRecGet stack α field val)
      (telemLogRecGet { stack with valStr } α field val) := by
  refine agrees_telemLogRecGetScalar stack valStr (g := fun m => m.elim val LeWord.ofNat) ?_
  intro v v' slice
  have hinj : Function.Injective (LeWord.toNat : α → ℕ) :=
    Function.LeftInverse.injective LeWord.ofNat_toNat
  rw [← hinj.eq_iff, toNat_elim hα hval, toNat_elim hα hval, DecodeStack.kept,
    DecodeStack.kept, if_neg hfield, if_neg hfield]

omit hα in
/-- As many elements are read as there are. -/
theorem yields_telemLogRecGetElms (nrElms left : ℕ) :
    Yields (fun elms : List α => elms.length = left)
      (telemLogRecGetElms stack α nrElms left) := by
  induction left with
  | zero => exact .pure rfl
  | succ left ih =>
    refine .of_bind fun elm => ih.bind fun elms helms => .pure ?_
    rw [List.length_cons, helms]

theorem agrees_telemLogRecGetElms (hzero : LeWord.toNat (LeWord.ofNat 0 : α) = 0)
    (nrElms left : ℕ) :
    Agrees (TelemCut.Settled stack valStr) (telemLogRecGetElms stack α nrElms left)
      (telemLogRecGetElms { stack with valStr } α nrElms left) := by
  induction left with
  | zero => exact .pure _
  | succ left ih =>
    refine (agrees_telemLogRecGet stack valStr hα (by nofun) hzero).bind
      (fun elm => ih.map List.cons_injective) ?_
    intro s t elm elm' r r' elms u u' _ _ _ hrun hrun'
    have hhead : ∀ (stack : DecodeStack) (elm : α), Yields (fun elms => elms.head? = some elm)
        (telemLogRecGetElms stack α nrElms left >>= fun elms => pure (elm :: elms)) :=
      fun _ _ => .of_bind fun _ => .pure rfl
    exact Option.some.inj ((hhead _ _ _ _ _ hrun).symm.trans (hhead _ _ _ _ _ hrun'))

theorem agrees_telemLogRecGetArray (hzero : LeWord.toNat (LeWord.ofNat 0 : α) = 0) :
    Agrees (TelemCut.Settled stack valStr) (telemLogRecGetArray stack α)
      (telemLogRecGetArray { stack with valStr } α) := by
  refine (agrees_telemLogRecGet stack valStr fitsWord_uint16 (by nofun) rfl).bind
    (fun nr => (agrees_telemLogRecGetElms stack valStr hα hzero _ _).map
      MioTelemetryArray.ofList_injective) ?_
  intro s t nr nr' r r' arr u u' _ _ _ hrun hrun'
  have hcount : ∀ (stack : DecodeStack) (nr : UInt16),
      Yields (fun arr : MioTelemetryArray α => arr.mtaElms.length = nr.toNat)
        (telemLogRecGetElms stack α nr.toNat nr.toNat >>= fun elms => pure (.ofList elms)) :=
    fun stack nr => (yields_telemLogRecGetElms stack nr.toNat nr.toNat).bind fun _ helms =>
      .pure helms
  exact UInt16.toNat_inj.mp ((hcount _ _ _ _ _ hrun).symm.trans (hcount _ _ _ _ _ hrun'))

end Get

theorem agrees_telemLogRecGetValue (type : MioTelemetryType) :
    Agrees (TelemCut.Settled stack valStr) (telemLogRecGetValue stack type)
      (telemLogRecGetValue { stack with valStr } type) := by
  cases type with
  | none => exact .pure _
  | uint16 =>
    exact (agrees_telemLogRecGet stack valStr fitsWord_uint16 (by nofun) rfl).map
      fun _ _ => MioTelemetryValue.uint16.inj
  | uint32 =>
    exact (agrees_telemLogRecGet stack valStr fitsWord_uint32 (by nofun) rfl).map
      fun _ _ => MioTelemetryValue.uint32.inj
  | uint64 =>
    exact (agrees_telemLogRecGet stack valStr fitsWord_uint64 (by nofun) rfl).map
      fun _ _ => MioTelemetryValue.uint64.inj
  | timespan =>
    exact (agrees_telemLogRecGet stack valStr fitsWord_uint64 (by nofun) rfl).map
      fun _ _ => MioTelemetryValue.timespan.inj
  | timepoint =>
    exact (agrees_telemLogRecGet stack valStr fitsWord_uint64 (by nofun) rfl).map
      fun _ _ => MioTelemetryValue.timepoint.inj
  | arrayUint16 =>
    exact (agrees_telemLogRecGetArray stack valStr fitsWord_uint16 rfl).map
      fun _ _ => MioTelemetryValue.arrayUint16.inj
  | arrayUint32 =>
    exact (agrees_telemLogRecGetArray stack valStr fitsWord_uint32 rfl).map
      fun _ _ => MioTelemetryValue.arrayUint32.inj
  | arrayUint64 =>
    exact (agrees_telemLogRecGetArray stack valStr fitsWord_uint64 rfl).map
      fun _ _ => MioTelemetryValue.arrayUint64.inj
  | invalid | string | other => exact .throw _

/-- What is done about a prefix, if it is known whether there is one. -/
def telemLogRecGetPre (hasPrefix : Bool) : TelemScan (Option CStr) :=
  if hasPrefix then telemLogRecGetString .pre >>= fun pre => pure (some (.ofBuf pre))
  else pure none

theorem telemLogRecGetPrefix_eq_bind :
    telemLogRecGetPrefix stack =
      (telemLogRecGetScalar stack .sign .uint16 >>= fun number =>
        pure (decide (number.elim stack.hasPrefix UInt16.ofNat = telemLogPrefixSign))) >>=
          telemLogRecGetPre := by
  rw [telemLogRecGetPrefix, telemLogRecGet, bind_assoc, bind_assoc]
  refine bind_congr fun number => ?_
  rw [pure_bind, pure_bind, telemLogRecGetPre]
  simp only [decide_eq_true_eq]
  rfl

theorem telemLogRecGetString_inj {field : TelemField} {s t r r' : Traced (List Byte) TelemCut}
    {w w' : List Byte} (hstate : t.state = s.state) (hrun : telemLogRecGetString field s = .ok w r)
    (hrun' : telemLogRecGetString field t = .ok w' r') : w = w' := by
  rcases lookup_cases s.state with ⟨cursor, stop, hskip, hjump⟩ | hoob
  · rw [telemLogRecGetString_eq field hskip hjump] at hrun
    rw [telemLogRecGetString_eq field (hstate ▸ hskip) hjump] at hrun'
    cases hrun
    cases hrun'
    rfl
  · rw [telemLogRecGetString_oob field hoob] at hrun
    cases hrun

theorem agrees_telemLogRecGetPrefix :
    Agrees (TelemCut.Settled stack valStr) (telemLogRecGetPrefix stack)
      (telemLogRecGetPrefix { stack with valStr }) := by
  rw [telemLogRecGetPrefix_eq_bind, telemLogRecGetPrefix_eq_bind]
  refine (agrees_telemLogRecGetScalar stack valStr fun v v' slice => ?_).bind
    (fun hasPrefix => ?_) ?_
  · have hnat : ∀ v, (telemLogScalar .uint16 v slice).elim stack.hasPrefix UInt16.ofNat =
        telemLogPrefixSign ↔ (telemLogScalar .uint16 v slice).getD (stack.before .sign) =
          telemLogPrefixSign.toNat := fun v => by
      rw [← UInt16.toNat_inj]
      exact iff_of_eq (congrArg (· = _) (toNat_elim fitsWord_uint16 rfl))
    rw [decide_eq_decide, hnat, hnat, DecodeStack.kept, DecodeStack.kept, if_pos rfl, if_pos rfl]
    split <;> split <;> simp_all
  · cases hasPrefix with
    | false => exact .pure _
    | true =>
      refine (agrees_telemLogRecGetString stack valStr .pre).bind (fun pre => .pure _) ?_
      intro s t pre pre' r r' _ _ _ hstate hrun hrun' _ _
      exact telemLogRecGetString_inj hstate hrun hrun'
  · intro s t b b' r r' pre u u' _ _ _ hrun hrun'
    have hsome : ∀ b, Yields (fun pre => pre.isSome = b) (telemLogRecGetPre b) := by
      intro b
      cases b with
      | false => exact .pure rfl
      | true => exact .of_bind fun _ => .pure rfl
    exact (hsome b _ _ _ hrun).symm.trans (hsome b' _ _ _ hrun')

theorem getTyped_eq_bind (timeStr : List Byte) (pre : Option CStr) (topic : List Byte) :
    TelemLogRec.getTyped stack timeStr pre topic =
      telemLogRecGetString .type >>= fun name =>
        telemLogRecGetValue stack ((telemTypeOfName name).getD .invalid) >>= fun value =>
          pure ⟨timeStr, pre, some (.ofBuf topic), value⟩ := by
  simp only [TelemLogRec.getTyped, telemLogRecGetValueType, bind_assoc, pure_bind]

/-- **Two runs of the decoder** yield the same record exactly if all numbers are settled. -/
theorem agrees_telemLogRecGetRec (timeStr : List Byte) :
    Agrees (TelemCut.Settled stack valStr) (telemLogRecGetRec stack timeStr)
      (telemLogRecGetRec { stack with valStr } timeStr) := by
  have htyped : ∀ pre topic, Agrees (TelemCut.Settled stack valStr)
      (TelemLogRec.getTyped stack timeStr pre topic)
      (TelemLogRec.getTyped { stack with valStr } timeStr pre topic) := by
    intro pre topic
    rw [getTyped_eq_bind, getTyped_eq_bind]
    refine (agrees_telemLogRecGetString stack valStr .type).bind (fun name => ?_) ?_
    · refine (agrees_telemLogRecGetValue stack valStr _).map ?_
      intro value value' h
      exact congrArg MioTelemetryRec.mtrValue h
    · intro s t name name' r r' _ _ _ hstate hrun hrun' _ _
      exact telemLogRecGetString_inj hstate hrun hrun'
  have hrest : ∀ pre, Agrees (TelemCut.Settled stack valStr)
      (TelemLogRec.getRest stack timeStr pre)
      (TelemLogRec.getRest { stack with valStr } timeStr pre) := by
    intro pre
    refine (agrees_telemLogRecGetString stack valStr .topic).bind (htyped pre) ?_
    intro s t topic topic' r r' _ _ _ hstate hrun hrun' _ _
    exact telemLogRecGetString_inj hstate hrun hrun'
  rw [TelemLogRec.telemLogRecGetRec_eq, TelemLogRec.telemLogRecGetRec_eq]
  refine (agrees_telemLogRecGetPrefix stack valStr).bind hrest ?_
  intro s t pre pre' r r' rec u u' _ _ _ hrun hrun'
  have hpre : ∀ (stack : DecodeStack) (pre : Option CStr),
      Yields (fun rec => rec.mtrPrefix = pre) (TelemLogRec.getRest stack timeStr pre) :=
    fun _ _ => .of_bind fun _ => .of_bind fun _ => .of_bind fun _ => .pure rfl
  exact (hpre _ _ _ _ _ hrun).symm.trans (hpre _ _ _ _ _ hrun')

end Runs

/-! ### Texts that are turned down -/

/-- The type that a text names is none of those that can be read. -/
def TelemCut.NoType (c : TelemCut) : Prop :=
  c.field = .type ∧ ¬ ((telemTypeOfName c.slice).getD .invalid).IsReadable

section NoType

variable (stack : DecodeStack)

section Plain

variable {pre : TelemCut → Prop} {harm : Fault → Prop} (hoob : ¬ harm .oob)

include hoob

/-- To look for a string does no harm, but memory may end. -/
theorem watched_telemLogRecGetString {field : TelemField} (hpre : ∀ c, c.field = field → pre c) :
    Watched (fun _ => True) pre (fun _ => True) harm (telemLogRecGetString field) where
  grows := grows_telemLogRecGetString field
  ok {s w r new} _ hrun htrace := by
    refine ⟨iff_of_true ?_ fun _ _ => trivial, fun _ => trivial⟩
    rcases lookup_cases s.state with ⟨cursor, stop, hskip, hjump⟩ | hend
    · rw [telemLogRecGetString_eq field hskip hjump] at hrun
      cases hrun
      obtain rfl := List.append_cancel_left htrace
      exact List.forall_mem_singleton.mpr (hpre _ rfl)
    · rw [telemLogRecGetString_oob field hend] at hrun
      cases hrun
  error {s e r new} _ hrun htrace := by
    rcases lookup_cases s.state with ⟨cursor, stop, hskip, hjump⟩ | hend
    · rw [telemLogRecGetString_eq field hskip hjump] at hrun
      cases hrun
    · rw [telemLogRecGetString_oob field hend] at hrun
      cases hrun
      obtain rfl := List.self_eq_append_right.mp htrace
      exact iff_of_true nofun ⟨nofun, hoob⟩

theorem watched_telemLogRecGetScalar {field : TelemField} (hpre : ∀ c, c.field = field → pre c)
    (type : MioTelemetryType) :
    Watched (fun _ => True) pre (fun _ => True) harm (telemLogRecGetScalar stack field type) where
  grows := grows_telemLogRecGetScalar stack field type
  ok {s w r new} _ hrun htrace := by
    refine ⟨iff_of_true ?_ fun _ _ => trivial, fun _ => trivial⟩
    rcases lookup_cases s.state with ⟨cursor, stop, hskip, hjump⟩ | hend
    · rw [telemLogRecGetScalar_eq stack field type hskip hjump] at hrun
      dsimp only at hrun
      split at hrun <;> cases hrun
      obtain rfl := List.append_cancel_left htrace
      exact List.forall_mem_singleton.mpr (hpre _ rfl)
    · rw [telemLogRecGetScalar_oob stack field type hend] at hrun
      cases hrun
  error {s e r new} _ hrun htrace := by
    rcases lookup_cases s.state with ⟨cursor, stop, hskip, hjump⟩ | hend
    · rw [telemLogRecGetScalar_eq stack field type hskip hjump] at hrun
      dsimp only at hrun
      split at hrun <;> cases hrun
      obtain rfl := List.append_cancel_left htrace
      exact iff_of_true (List.forall_mem_singleton.mpr (hpre _ rfl)) ⟨fun _ _ => trivial, hoob⟩
    · rw [telemLogRecGetScalar_oob stack field type hend] at hrun
      cases hrun
      obtain rfl := List.self_eq_append_right.mp htrace
      exact iff_of_true nofun ⟨nofun, hoob⟩

end Plain

/-- A part of the decoder that leaves memory, or turns a text down exactly if it names no
type. -/
abbrev TurnsDown {α : Type} (P : TelemScan α) : Prop :=
  Watched (fun _ => True) (fun c => ¬ c.NoType) (fun _ => True) (fun fault => fault ≠ .oob) P

theorem TelemCut.not_noType {field : TelemField} (hfield : field ≠ .type) :
    ∀ c : TelemCut, c.field = field → ¬ c.NoType := fun _ h hno => hfield (h.symm.trans hno.1)

/-- What is done once the type is known. -/
theorem turnsDown_telemLogRecGetValue {β : Type} (g : MioTelemetryValue → β)
    {type : MioTelemetryType} (h : type.IsReadable) :
    TurnsDown (telemLogRecGetValue stack type >>= fun value => pure (g value)) :=
  (watched_telemLogRecGetValue
    (fun _ type hfield =>
      watched_telemLogRecGetScalar stack (not_not.mpr rfl) (TelemCut.not_noType hfield) type)
    (.inl h)).bind fun _ => .pure _

theorem telemLogRecGetValue_of_not_isReadable {type : MioTelemetryType} (h : ¬ type.IsReadable) :
    telemLogRecGetValue stack type = throw (.err (- EINVAL)) := by
  cases type with
  | invalid | string | other => rfl
  | _ => exact absurd trivial h

theorem turnsDown_getTyped (timeStr : List Byte) (pre : Option CStr) (topic : List Byte) :
    TurnsDown (TelemLogRec.getTyped stack timeStr pre topic) := by
  rw [getTyped_eq_bind]
  refine .bind_of_step (grows_telemLogRecGetString .type)
    (fun name => (grows_telemLogRecGetValue stack _).bind fun _ => .pure _) fun s _ => ?_
  rcases lookup_cases s.state with ⟨cursor, stop, hskip, hjump⟩ | hoob
  · refine .inr ⟨_, _, _, telemLogRecGetString_eq .type hskip hjump, trivial, trivial, ?_⟩
    by_cases hread : ((telemTypeOfName
        (cursor.take ((cursor.length - stop.length) % 256))).getD .invalid).IsReadable
    · exact .inl ⟨fun h => h.2 hread, turnsDown_telemLogRecGetValue stack _ hread⟩
    · refine .inr ⟨not_not.mpr ⟨rfl, hread⟩, .err (- EINVAL), by decide, fun t => ?_⟩
      exact TraceM.bind_of_error
        (congrFun (telemLogRecGetValue_of_not_isReadable stack hread) t)
  · exact .inl ⟨.oob, not_not.mpr rfl, telemLogRecGetString_oob .type hoob⟩

/-- The decoder turns a text down exactly if it names no type that can be read. -/
theorem turnsDown_telemLogRecGetRec (timeStr : List Byte) :
    TurnsDown (telemLogRecGetRec stack timeStr) := by
  have hstring : ∀ field, field ≠ .type → TurnsDown (telemLogRecGetString field) :=
    fun _ hfield => watched_telemLogRecGetString (not_not.mpr rfl) (TelemCut.not_noType hfield)
  refine (watched_telemLogRecGetPrefix (fun _ type hfield => ?_) (hstring _ (by nofun))).bind
    fun pre => (hstring _ (by nofun)).bind (turnsDown_getTyped stack timeStr pre)
  exact watched_telemLogRecGetScalar stack (not_not.mpr rfl) (TelemCut.not_noType hfield) type

/-- There are two ways for the decoder to fail. -/
theorem fault_telemLogRecGetRec (timeStr : List Byte) {buf : List Byte} {fault : Fault}
    {s : Traced (List Byte) TelemCut}
    (h : telemLogRecGetRec stack timeStr ⟨buf, []⟩ = .error fault s) :
    fault = .oob ∨ fault = .err (- EINVAL) := by
  have hwatched : Watched (fun _ => True) (fun _ => True) (fun _ => True)
      (fun fault => fault ≠ .oob ∧ fault ≠ .err (- EINVAL)) (telemLogRecGetRec stack timeStr) :=
    watched_telemLogRecGetRec
      (fun _ type _ => watched_telemLogRecGetScalar stack (fun h => h.1 rfl) (fun _ _ => trivial)
        type)
      (fun _ => watched_telemLogRecGetString (fun h => h.1 rfl) fun _ _ => trivial)
      (fun h => h.2 rfl) timeStr
  have hharm := ((hwatched.error trivial h (List.nil_append _).symm).mp fun _ _ => trivial).2
  by_cases hoob : fault = .oob
  · exact .inl hoob
  · exact .inr (not_not.mp fun hcode => hharm ⟨hoob, hcode⟩)

theorem exists_noType_iff (timeStr buf : List Byte) :
    (∃ c ∈ (ending (telemLogRecGetRec stack timeStr ⟨buf, []⟩)).trace, c.NoType) ↔
      returned (telemLogRecGetRec stack timeStr ⟨buf, []⟩) = .error (.err (- EINVAL)) := by
  have hwatched := turnsDown_telemLogRecGetRec stack timeStr
  cases hrun : telemLogRecGetRec stack timeStr ⟨buf, []⟩ with
  | ok rec r =>
    have hnone := (hwatched.ok trivial hrun (List.nil_append _).symm).1.mpr fun _ _ => trivial
    exact iff_of_false (fun ⟨c, hc, hno⟩ => hnone c hc hno) nofun
  | error fault r =>
    have hiff := hwatched.error trivial hrun (List.nil_append _).symm
    constructor
    · rintro ⟨c, hc, hno⟩
      have hne : fault ≠ .oob := fun hoob =>
        hiff.mpr ⟨fun _ _ => trivial, not_not.mpr hoob⟩ c hc hno
      exact congrArg Except.error ((fault_telemLogRecGetRec stack timeStr hrun).resolve_left hne)
    · intro h
      obtain rfl : fault = .err (- EINVAL) := Except.error.inj h
      by_contra hnone
      have hnone : ∀ c ∈ r.trace, ¬ c.NoType := fun c hc hno => hnone ⟨c, hc, hno⟩
      exact (hiff.mp hnone).2 (by decide)

end NoType

/-! ### Two contents of the buffer -/

/-- What the decoder returns for two contents of `val_str` is the same. -/
def SameResult (stack : DecodeStack) (valStr : List Byte → List Byte) (buf : Option (List Byte))
    (head : Option CStr) : Prop :=
  returned (mioTelemLogDecode stack buf head) =
    returned (mioTelemLogDecode { stack with valStr } buf head)

/-- **Two contents of the buffer give the same result** exactly if the numbers that are read
with the one are settled, or the text names no type for either, or memory ends for both. -/
theorem sameResult_iff (stack : DecodeStack) (valStr : List Byte → List Byte)
    (buf : Option (List Byte)) (head : Option CStr) :
    SameResult stack valStr buf head ↔
      (∀ c ∈ (ending (mioTelemLogDecode stack buf head)).trace, c.Settled stack valStr) ∨
      ((∃ c ∈ (ending (mioTelemLogDecode stack buf head)).trace, c.NoType) ∧
        ∃ c ∈ (ending (mioTelemLogDecode { stack with valStr } buf head)).trace, c.NoType) ∨
      returned (mioTelemLogDecode stack buf head) = .error .oob ∧
        returned (mioTelemLogDecode { stack with valStr } buf head) = .error .oob := by
  rw [SameResult]
  cases buf with
  | none => exact iff_of_true rfl (.inl nofun)
  | some buf =>
    cases head with
    | none => exact iff_of_true rfl (.inl nofun)
    | some head =>
      rw [mioTelemLogDecode_some, mioTelemLogDecode_some, exists_noType_iff, exists_noType_iff]
      have hagrees := agrees_telemLogRecGetRec stack valStr
        (head.buf.take (strnlen mioLogMaxRecLen head.buf + 1))
      cases hrun : telemLogRecGetRec stack
          (head.buf.take (strnlen mioLogMaxRecLen head.buf + 1)) ⟨buf, []⟩ with
      | ok rec r =>
        have hiff := (hagrees.ok rfl hrun (List.nil_append _).symm).1
        refine eq_comm.trans (returned_eq_ok_iff.trans (hiff.symm.trans ⟨.inl, fun h => ?_⟩))
        rcases h with h | ⟨h, -⟩ | ⟨h, -⟩
        · exact h
        · cases h
        · cases h
      | error fault r =>
        constructor
        · intro h
          rcases fault_telemLogRecGetRec stack _ hrun with rfl | rfl
          · exact .inr (.inr ⟨rfl, h.symm⟩)
          · exact .inr (.inl ⟨rfl, h.symm⟩)
        · rintro (h | ⟨h, h'⟩ | ⟨h, h'⟩)
          · have hsame := hagrees.error rfl hrun (List.nil_append _).symm h
            exact (returned_eq_error_iff.mpr hsame).symm
          · exact h.trans h'.symm
          · exact h.trans h'.symm

/-! ### Numbers that have been written -/

/-- The count of an array is the number of its elements. -/
def TelemNumbers.CountRight : TelemNumbers → Prop
  | .scalar _ _ => True
  | .array _ _ count elms => count = elms.length

/-- If all numbers are read right, then the count is if it was right. -/
theorem TelemNumbers.countRead_iff {numbers : TelemNumbers} {stack : DecodeStack}
    {junk : List Byte}
    (h : numbersRead stack junk numbers.typed = numbers.typed.map Prod.snd) :
    numbers.CountRead stack junk ↔ numbers.CountRight := by
  cases numbers with
  | scalar type n => exact Iff.rfl
  | array type width count elms =>
    rw [typed] at h
    rw [CountRead, h, List.map_cons, List.head?_cons, Option.some_inj]
    exact Iff.rfl

namespace TelemLogRec

variable (r : TelemLogRec)

/-- **The numbers of a text are read as they were written**: the sign of the prefix, and
those of the value. -/
def NumbersAsWritten (stack : DecodeStack) (junk : List Byte) (head : CStr) : Prop :=
  ∃ text rec s, mioTelemLogEncode r.record = .ok text ∧
    mioTelemLogDecode stack (some (text.bytes ++ 0 :: junk)) (some head) = .ok rec s ∧
    numbersOf s.trace = (telemSign r.pre :: r.numbers.typed.map Prod.snd).map some

/-- **The numbers of a text are read as they were written** exactly if what `val_str` holds
behind each of them leaves it as it is, and the count of an array is right. -/
theorem numbersAsWritten_iff (stack : DecodeStack) (junk : List Byte) (head : CStr) :
    r.NumbersAsWritten stack junk head ↔
      r.signRead stack junk = telemSign r.pre ∧
        numbersRead stack junk r.numbers.typed = r.numbers.typed.map Prod.snd ∧
        r.numbers.CountRight := by
  have hone : r.signRead stack junk = telemSign r.pre →
      (r.signRead stack junk = 1 ↔ r.pre.isSome = true) := by
    intro h
    rw [h, telemSign]
    split <;> simp_all
  constructor
  · rintro ⟨text, rec, s, henc, hdec, hnumbers⟩
    obtain rfl := Except.ok.inj (henc.symm.trans r.mioTelemLogEncode_record)
    rw [mioTelemLogDecode_some] at hdec
    have hsign : r.signRead stack junk = telemSign r.pre := by
      obtain ⟨cut, cuts, htrace, -⟩ := r.exists_second stack junk
        (head.buf.take (strnlen mioLogMaxRecLen head.buf + 1))
      rw [hdec] at htrace
      have htrace : s.trace = [r.signCut stack junk] ++ (cut :: cuts) := htrace
      rw [htrace, numbersOf_append, signCut, numbersOf_numberCut (.inl rfl)] at hnumbers
      exact Option.some.inj (List.cons.inj hnumbers).1
    obtain ⟨cuts, cuts', htrace, -, hhead, hcount, hok⟩ :=
      r.telemLogRecGetRec_spec stack junk (hone hsign)
        (head.buf.take (strnlen mioLogMaxRecLen head.buf + 1))
    rw [hdec] at htrace
    have htrace : s.trace = cuts ++ cuts' := htrace
    rw [htrace, numbersOf_append, hhead, hsign, List.map_cons, List.singleton_append,
      List.map_map] at hnumbers
    have htail := (List.cons.inj hnumbers).2
    have hcount := hcount (.inr htail)
    obtain ⟨rec', -, -, hread⟩ := hok hcount
    rw [htail, ← List.map_map] at hread
    have hread := (List.map_injective_iff.mpr (Option.some_injective _) hread).symm
    exact ⟨hsign, hread, (TelemNumbers.countRead_iff hread).mp hcount⟩
  · rintro ⟨hsign, hread, hright⟩
    obtain ⟨cuts, cuts', -, -, hhead, -, hok⟩ :=
      r.telemLogRecGetRec_spec stack junk (hone hsign)
        (head.buf.take (strnlen mioLogMaxRecLen head.buf + 1))
    obtain ⟨rec, hrun, -, hnumbers⟩ := hok ((TelemNumbers.countRead_iff hread).mpr hright)
    refine ⟨_, rec, _, r.mioTelemLogEncode_record, hrun, ?_⟩
    rw [numbersOf_append, hhead, hnumbers, hsign, hread]
    rfl

end TelemLogRec

end CortxMio
