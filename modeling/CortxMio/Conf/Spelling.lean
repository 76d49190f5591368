import CortxMio.Conf.PoolEntries
import CortxMio.Lib.HexNumber

/-!
# How keys and pool ids are spelled

A key is looked for with `strstr`, so whatever ends in the name of a key counts as this
key, if the name does not occur in it before. And the id of a pool is accepted
whenever there is anything to be scanned: `sscanf` fails only on a text that is blank,
and what it has not read is taken from the stack.

What the id of a pool is, is said by a grammar: two hexadecimal numbers with a colon
between them, and blanks around these as the format of the code has them
(`CortxMio.PoolIdText`). A reader that takes nothing else decides which values are read
as they are written (`CortxMio.readPoolId_iff`). So an accepted file spells its keys and
ids just as it should if no key has anything in front of its name, and if the reader
takes every id that is not blank (`CortxMio.spelledExactly_iff`).
-/

namespace CortxMio

open Lib

/-! ### What is written -/

/-- A text of blanks. -/
def Blank (w : List Byte) : Prop := ∀ b ∈ w, isspace b = true

/-- **The id of a pool, as it is written.** -/
def PoolIdText (s : List Byte) (hi lo : ℕ) : Prop :=
  ∃ w₁ t₁ w₂ w₃ t₂ w₄, s = w₁ ++ (t₁ ++ (w₂ ++ 58 :: (w₃ ++ (t₂ ++ w₄)))) ∧
    Blank w₁ ∧ Blank w₂ ∧ Blank w₃ ∧ Blank w₄ ∧ HexNumber t₁ hi ∧ HexNumber t₂ lo

/-- A scalar of a configuration file. -/
inductive ConfItem
  /-- A key. -/
  | key (s : CStr)
  /-- A value, and the key before it. -/
  | value (key : Option CStr) (s : CStr)
  deriving DecidableEq

/-- The scalar that a token is. -/
def confItem (isKey : Bool) (key : Option CStr) : YamlToken → Option ConfItem
  | .scalar s => some (if isKey then .key s else .value key s)
  | _ => none

/-- The last key, as it is written, after a token. -/
def scalarAfter (isKey : Bool) (key : Option CStr) : YamlToken → Option CStr
  | .scalar s => if isKey then some s else key
  | _ => key

/-- The scalars of a file, up to the end of the stream. -/
def confItems (isKey : Bool) (key : Option CStr) : List YamlToken → List ConfItem
  | [] => []
  | tok :: toks =>
    if tok = .streamEnd then []
    else (confItem isKey key tok).toList ++
      confItems (isKeyAfter isKey tok) (scalarAfter isKey key tok) toks

/-- **Keys and ids are spelled exactly.** In a file that is accepted every key is one of
the names and every id of a pool a pair of numbers, and the id that is stored for a
value is the pair that is written there. -/
structure SpelledExactly (statics : ConfStatics) (toks : List YamlToken) : Prop where
  /-- The keys. -/
  keys : ∀ stack statics' inst, mioConfInit statics stack toks = .ok (0, statics', inst) →
    ∀ s, .key s ∈ confItems true none toks → s.bytes ∈ confTable.map ConfEntry.name
  /-- The ids. -/
  ids : ∀ stack statics' inst, mioConfInit statics stack toks = .ok (0, statics', inst) →
    ∀ k s, .value (some k) s ∈ confItems true none toks → k.bytes = ascii "MOTR_POOL_ID" →
      ∃ hi lo, PoolIdText s.bytes hi lo
  /-- What is stored. -/
  stored : ∀ stack pre s post st rc st', toks = pre ++ .scalar s :: post →
    confAfter stack pre statics.start = some st → st.isKey = false →
      st.key = some .motrPoolId → confToken st (stack pre.length) (.scalar s) = .ok (rc, st') →
        ¬ rc < 0 → ∃ hi lo pool, PoolIdText s.bytes hi lo ∧
          st'.mioPools.list.getLast? = some pool ∧ pool.mpId.mpiHi.toNat = hi ∧
            pool.mpId.mpiLo.toNat = lo

/-! ### What the code makes of it -/

/-- Read the id of a pool, and nothing but an id. -/
def readPoolId (s : List Byte) : Option (ℕ × ℕ) :=
  match readHex s with
  | none => none
  | some (hi, rest) =>
    match rest.dropWhile isspace with
    | [] => none
    | b :: rest =>
      if b ≠ 58 then none
      else match readHex rest with
        | none => none
        | some (lo, rest) =>
          if rest.all isspace ∧ hi < 2 ^ 64 ∧ lo < 2 ^ 64 then some (hi, lo) else none

/-- A key that ends in the name of a key, behind something else. -/
def LongKey (s : CStr) : Prop := ∃ e ∈ confTable, ∃ pre, pre ≠ [] ∧ s.bytes = pre ++ e.name

/-- **What is spelled in no other way**: no key of a file that is accepted has anything in
front of its name, and an id that is given to a pool is one to the reader, unless it is
blank. -/
structure SpelledPlainly (statics : ConfStatics) (toks : List YamlToken) : Prop where
  /-- The keys. -/
  keys : (∃ stack statics' inst, mioConfInit statics stack toks = .ok (0, statics', inst)) →
    ∀ s, .key s ∈ confItems true none toks → ¬ LongKey s
  /-- The ids. -/
  ids : ∀ stack pre s post st, toks = pre ++ .scalar s :: post →
    confAfter stack pre statics.start = some st → st.isKey = false →
      st.key = some .motrPoolId → 0 < st.mioPools.mpsNrPools → ¬ Blank s.bytes →
        (readPoolId s.bytes).isSome

/-! ### The reader and the grammar -/

/-- A blank or a colon does not belong to a number. -/
theorem noHex_blank {w rest : List Byte} (hw : Blank w) (hrest : NoHex rest) :
    NoHex (w ++ rest) := by
  cases w with
  | nil => exact hrest
  | cons b w =>
    intro c hc
    obtain rfl := Option.some.inj hc
    have hspace := hw _ List.mem_cons_self
    refine ⟨?_, ?_, ?_⟩
    · by_contra hhex
      rw [(not_special_of_isHexDigit (by simpa using hhex)).1] at hspace
      cases hspace
    · rintro rfl
      cases hspace
    · rintro rfl
      cases hspace

/-- **The reader takes ids, and no other text.** -/
theorem readPoolId_iff (s : List Byte) (hi lo : ℕ) :
    readPoolId s = some (hi, lo) ↔ PoolIdText s hi lo ∧ hi < 2 ^ 64 ∧ lo < 2 ^ 64 := by
  constructor
  · intro h
    rw [readPoolId] at h
    split at h
    · cases h
    · next hi' rest hfirst =>
      split at h
      · cases h
      · next b rest' hcolon =>
        split at h
        · cases h
        · next hb =>
          split at h
          · cases h
          · next lo' rest'' hsecond =>
            split at h
            · next hend =>
              obtain ⟨rfl, rfl⟩ := Prod.mk.inj (Option.some.inj h)
              obtain ⟨hblank, hhi, hlo⟩ := hend
              obtain ⟨w₁, t₁, rfl, hw₁, ht₁⟩ := exists_of_readHex hfirst
              obtain ⟨w₃, t₂, rfl, hw₃, ht₂⟩ := exists_of_readHex hsecond
              have hsplit := List.takeWhile_append_dropWhile (p := isspace) (l := rest)
              rw [hcolon, not_not.mp hb] at hsplit
              refine ⟨⟨w₁, t₁, rest.takeWhile isspace, w₃, t₂, rest'', ?_, hw₁, ?_, hw₃, ?_, ht₁,
                ht₂⟩, hhi, hlo⟩
              · rw [hsplit]
              · exact fun b hb => List.mem_takeWhile_imp hb
              · exact fun b hb => List.all_eq_true.mp hblank b hb
            · cases h
  · rintro ⟨⟨w₁, t₁, w₂, w₃, t₂, w₄, rfl, hw₁, hw₂, hw₃, hw₄, ht₁, ht₂⟩, hhi, hlo⟩
    have hnil : NoHex [] := fun b hb => by cases hb
    have hcolon : NoHex (58 :: (w₃ ++ (t₂ ++ w₄))) := by
      intro b hb
      obtain rfl := Option.some.inj hb
      exact ⟨by decide, by decide, by decide⟩
    have hsecond : NoHex w₄ := by
      have h := noHex_blank hw₄ hnil
      rwa [List.append_nil] at h
    have hdrop : (w₂ ++ 58 :: (w₃ ++ (t₂ ++ w₄))).dropWhile isspace =
        58 :: (w₃ ++ (t₂ ++ w₄)) := by
      rw [List.dropWhile_append_of_pos hw₂, List.dropWhile_cons_of_neg (by decide)]
    rw [readPoolId, readHex_hexNumber hw₁ ht₁ (noHex_blank hw₂ hcolon)]
    simp only [hdrop]
    rw [if_neg (by decide), readHex_hexNumber hw₃ ht₂ hsecond]
    exact if_pos ⟨List.all_eq_true.mpr hw₄, hhi, hlo⟩

/-- **What `sscanf` reads of an id.** -/
theorem poolIdSscanf_of_readPoolId {s : List Byte} {hi lo : ℕ} (h : readPoolId s = some (hi, lo)) :
    poolIdSscanf s = (2, some (UInt64.ofNat hi), some (UInt64.ofNat lo)) := by
  rw [readPoolId] at h
  split at h
  · cases h
  · next hi' rest hfirst =>
    split at h
    · cases h
    · next b rest' hcolon =>
      split at h
      · cases h
      · next hb =>
        split at h
        · cases h
        · next lo' rest'' hsecond =>
          split at h
          · next hend =>
            obtain ⟨rfl, rfl⟩ := Prod.mk.inj (Option.some.inj h)
            have hfirst' := scanHex_of_readHex hfirst
            have hsecond' := scanHex_of_readHex hsecond
            rw [if_neg (not_le.mpr hend.2.1)] at hfirst'
            rw [if_neg (not_le.mpr hend.2.2)] at hsecond'
            rw [poolIdSscanf, hfirst']
            simp only [hcolon]
            rw [if_neg hb, hsecond']
          · cases h

/-- `%lx` comes to the end of a text that is blank, and of no other. -/
theorem scanHex_input_iff (s : List Byte) : scanHex s = .error .input ↔ Blank s := by
  have hblank : s.dropWhile isspace = [] ↔ Blank s := List.dropWhile_eq_nil_iff
  rw [← hblank, scanHex]
  cases s.dropWhile isspace with
  | nil => simp
  | cons b bs =>
    simp only
    split
    · simp
    · simp

/-- `sscanf` fails on a text that is blank, and on no other. -/
theorem poolIdSscanf_neg_iff (s : List Byte) : (poolIdSscanf s).1 < 0 ↔ Blank s := by
  rw [← scanHex_input_iff, poolIdSscanf]
  split
  · next hinput => exact iff_of_true (by decide) hinput
  · next hmatching =>
    rw [hmatching]
    exact iff_of_false (by decide) (by simp)
  · next hok =>
    rw [hok]
    refine iff_of_false (not_lt.mpr ?_) (by simp)
    split
    · exact Int.one_nonneg
    · split
      · exact Int.one_nonneg
      · split
        · exact Int.one_nonneg
        · exact zero_le_two

theorem confPoolIdSscanf_eq (stack : MioPoolId) (s : CStr) :
    confPoolIdSscanf stack s =
      if (poolIdSscanf s.bytes).1 < 0 then .error (poolIdSscanf s.bytes).1
      else .ok ⟨(poolIdSscanf s.bytes).2.1.getD stack.mpiHi,
        (poolIdSscanf s.bytes).2.2.getD stack.mpiLo⟩ := rfl

/-- **The value of an id** is stored in the last pool, unless it is blank. -/
theorem confToken_poolId {st st' : ConfState} {stack : MioPoolId} {s : CStr} {rc : ℤ}
    (hisKey : st.isKey = false) (hkey : st.key = some .motrPoolId)
    (h : confToken st stack (.scalar s) = .ok (rc, st')) (hrc : ¬ rc < 0) :
    0 < st.mioPools.mpsNrPools ∧ ¬ Blank s.bytes ∧ ∃ pool,
      st'.mioPools.list.getLast? = some pool ∧
        confPoolIdSscanf stack s = .ok pool.mpId := by
  rw [confToken, hisKey, if_neg (by decide), hkey] at h
  simp only [confExtractValue] at h
  split at h
  · next rc' hid =>
    obtain ⟨rfl, -⟩ := Prod.mk.inj (Except.ok.inj h)
    rw [confPoolIdSscanf_eq] at hid
    split at hid
    · next hneg => exact absurd (Except.error.inj hid ▸ hneg) hrc
    · cases hid
  · next id hid =>
    have hpos : st.mioPools.mpsNrPools ≠ 0 := fun hzero => by
      rw [(setPool_oob_iff st _).mpr hzero] at h
      cases h
    refine ⟨Nat.pos_of_ne_zero hpos, fun hblank => ?_, ?_⟩
    · rw [confPoolIdSscanf_eq, if_pos ((poolIdSscanf_neg_iff _).mpr hblank)] at hid
      cases hid
    · rw [ConfState.setPool] at h
      split at h
      · cases h
      · next pool hpool =>
        obtain ⟨-, rfl⟩ := Prod.mk.inj (Except.ok.inj h)
        exact ⟨{ pool with mpId := id }, List.getLast?_concat, hid⟩

/-- It is stored if there is a pool. -/
theorem exists_confToken_poolId {st : ConfState} (stack : MioPoolId) {s : CStr}
    (hisKey : st.isKey = false) (hkey : st.key = some .motrPoolId)
    (hpos : 0 < st.mioPools.mpsNrPools) (hblank : ¬ Blank s.bytes) :
    ∃ st', confToken st stack (.scalar s) = .ok (0, st') := by
  rw [confToken, hisKey, if_neg (by decide), hkey]
  simp only [confExtractValue]
  rw [confPoolIdSscanf_eq, if_neg fun hneg => hblank ((poolIdSscanf_neg_iff _).mp hneg)]
  simp only [ConfState.setPool]
  split
  · next hnone =>
    rw [List.getLast?_eq_none_iff] at hnone
    rw [MioPools.mpsNrPools, hnone] at hpos
    exact absurd hpos (by decide)
  · exact ⟨_, rfl⟩

/-! ### Keys -/

/-- What `strstr` finds is the end of the text. -/
theorem suffix_of_strstr {s pat rest : List UInt8} (h : strstr s pat = some rest) :
    rest <:+ s := (List.mem_tails _ _).mp (List.mem_of_find?_eq_some h)

/-- **A key that is looked up** ends in the name that is found. -/
theorem suffix_of_confTokenToKey {s : CStr} {e : ConfEntry} (h : confTokenToKey s = some e) :
    e ∈ confTable ∧ e.name <:+ s.bytes := by
  rw [confTokenToKey] at h
  have hname := List.find?_some h
  exact ⟨List.mem_of_find?_eq_some h, suffix_of_strstr (of_decide_eq_true hname)⟩

/-- No name ends in another one. -/
theorem name_eq_of_suffix : ∀ e ∈ confTable, ∀ e' ∈ confTable, e.name <:+ e'.name →
    e.name = e'.name := by
  decide +kernel

/-- **A key that is accepted** is spelled exactly just if it is not a long one. -/
theorem mem_names_iff {s : CStr} {e : ConfEntry} (h : confTokenToKey s = some e) :
    s.bytes ∈ confTable.map ConfEntry.name ↔ ¬ LongKey s := by
  obtain ⟨he, pre, hpre⟩ := suffix_of_confTokenToKey h
  constructor
  · rintro hmem ⟨e₁, he₁, pre₁, hne, hlong⟩
    obtain ⟨e₂, he₂, hname⟩ := List.mem_map.mp hmem
    have hsuffix : e₁.name <:+ e₂.name := ⟨pre₁, by rw [hname, hlong]⟩
    have hsame := name_eq_of_suffix e₁ he₁ e₂ he₂ hsuffix
    rw [hsame, hname] at hlong
    exact hne (List.self_eq_append_left.mp hlong)
  · intro hnot
    have hnil : pre = [] := by
      by_contra hne
      exact hnot ⟨e, he, pre, hne, hpre.symm⟩
    rw [← hpre, hnil]
    exact List.mem_map_of_mem he

/-! ### The file -/

/-- A key is a scalar where a key is read. -/
theorem key_mem_confItem {isKey : Bool} {k : Option CStr} {tok : YamlToken} {s : CStr}
    (h : confItem isKey k tok = some (.key s)) : tok = .scalar s ∧ isKey = true := by
  cases tok with
  | scalar s' =>
    cases isKey with
    | true =>
      obtain rfl := ConfItem.key.inj (Option.some.inj h)
      exact ⟨rfl, rfl⟩
    | false => cases h
  | _ => cases h

/-- A value is a scalar where none is. -/
theorem value_mem_confItem {isKey : Bool} {k k' : Option CStr} {tok : YamlToken} {s : CStr}
    (h : confItem isKey k tok = some (.value k' s)) :
    tok = .scalar s ∧ isKey = false ∧ k = k' := by
  cases tok with
  | scalar s' =>
    cases isKey with
    | true => cases h
    | false =>
      obtain ⟨rfl, rfl⟩ := ConfItem.value.inj (Option.some.inj h)
      exact ⟨rfl, rfl, rfl⟩
  | _ => cases h

/-- A key that is not turned down is found in the table. -/
theorem exists_of_confExtractKey {st st' : ConfState} {stack : MioPoolId} {s : CStr} {rc : ℤ}
    (hisKey : st.isKey = true) (h : confToken st stack (.scalar s) = .ok (rc, st'))
    (hrc : ¬ rc < 0) : ∃ e, confTokenToKey s = some e := by
  rw [confToken, if_pos hisKey, confExtractKey] at h
  split at h
  · obtain ⟨rfl, -⟩ := Prod.mk.inj (Except.ok.inj h)
    exact absurd (by decide) hrc
  · next e he => exact ⟨e, he⟩

/-- **The scalars of a file that is accepted.** Every key is found in the table, and every
value is one that is reached behind its key. -/
theorem confItems_of_confScan {stack : ℕ → MioPoolId} {toks : List YamlToken}
    {st st' : ConfState} {rc : ℤ} {k : Option CStr}
    (hkey : st.key = k.bind fun k => (confTokenToKey k).map ConfEntry.key)
    (h : confScan stack toks st = .ok (rc, st')) (hrc : ¬ rc < 0) :
    (∀ s, .key s ∈ confItems st.isKey k toks → ∃ e, confTokenToKey s = some e) ∧
    ∀ k' s, .value k' s ∈ confItems st.isKey k toks → ∃ pre post st₁ rc₁ st₂,
      toks = pre ++ .scalar s :: post ∧ confAfter stack pre st = some st₁ ∧
        st₁.isKey = false ∧
          (st₁.key = k'.bind fun k => (confTokenToKey k).map ConfEntry.key) ∧
            confToken st₁ (stack pre.length) (.scalar s) = .ok (rc₁, st₂) ∧ ¬ rc₁ < 0 := by
  induction toks generalizing stack st k with
  | nil => cases h
  | cons tok toks ih =>
    rw [confScan] at h
    rw [confItems]
    split at h
    · next htok =>
      rw [if_pos htok]
      exact ⟨fun s hs => (by cases hs), fun k' s hs => (by cases hs)⟩
    · next htok =>
      obtain ⟨⟨rc₁, st₁⟩, htoken, h⟩ := bind_eq_ok_iff.mp h
      simp only at h
      split at h
      · next hneg =>
        obtain ⟨rfl, -⟩ := Prod.mk.inj (Except.ok.inj h)
        exact absurd hneg hrc
      · next hrc₁ =>
        obtain ⟨hisKey₁, hkey₁⟩ := position_confToken htoken hrc₁
        have hscalar : st₁.key =
            (scalarAfter st.isKey k tok).bind fun k => (confTokenToKey k).map ConfEntry.key := by
          rw [hkey₁, hkey]
          cases tok with
          | scalar s =>
            rw [keyAfter, scalarAfter]
            split
            · rfl
            · rfl
          | _ => rfl
        obtain ⟨hkeys, hvalues⟩ := ih hscalar h
        rw [hisKey₁] at hkeys hvalues
        rw [if_neg htok]
        constructor
        · intro s hs
          rcases List.mem_append.mp hs with hs | hs
          · obtain ⟨htok', hisKey⟩ := key_mem_confItem (Option.mem_toList.mp hs)
            subst htok'
            exact exists_of_confExtractKey hisKey htoken hrc₁
          · exact hkeys s hs
        · intro k' s hs
          rcases List.mem_append.mp hs with hs | hs
          · obtain ⟨htok', hisKey, hk'⟩ := value_mem_confItem (Option.mem_toList.mp hs)
            subst htok' hk'
            exact ⟨[], toks, st, rc₁, st₁, rfl, rfl, hisKey, hkey, htoken, hrc₁⟩
          · obtain ⟨pre, post, st₂, rc₂, st₃, htoks, hafter, hrest⟩ := hvalues k' s hs
            refine ⟨tok :: pre, post, st₂, rc₂, st₃, by rw [htoks]; rfl, ?_, hrest⟩
            rw [confAfter, if_neg htok, htoken]
            exact (if_neg hrc₁).trans hafter

/-- **What is stored for an id** that the reader takes. -/
theorem stored_of_readPoolId {st st' : ConfState} {stack : MioPoolId} {s : CStr} {rc : ℤ}
    {hi lo : ℕ} (hisKey : st.isKey = false) (hkey : st.key = some .motrPoolId)
    (h : confToken st stack (.scalar s) = .ok (rc, st')) (hrc : ¬ rc < 0)
    (hread : readPoolId s.bytes = some (hi, lo)) :
    ∃ pool, PoolIdText s.bytes hi lo ∧ st'.mioPools.list.getLast? = some pool ∧
      pool.mpId.mpiHi.toNat = hi ∧ pool.mpId.mpiLo.toNat = lo := by
  obtain ⟨-, -, pool, hpool, hid⟩ := confToken_poolId hisKey hkey h hrc
  obtain ⟨htext, hhi, hlo⟩ := (readPoolId_iff _ _ _).mp hread
  rw [confPoolIdSscanf_eq, poolIdSscanf_of_readPoolId hread,
    if_neg (not_lt.mpr zero_le_two)] at hid
  have hid' := Except.ok.inj hid
  refine ⟨pool, htext, hpool, ?_, ?_⟩
  · rw [← hid']
    exact UInt64.toNat_ofNat_of_lt hhi
  · rw [← hid']
    exact UInt64.toNat_ofNat_of_lt hlo

/-- **Keys and ids are spelled exactly just if they are spelled in no other way.** -/
theorem spelledExactly_iff (statics : ConfStatics) (toks : List YamlToken) :
    SpelledExactly statics toks ↔ SpelledPlainly statics toks := by
  constructor
  · rintro ⟨hkeys, -, hstored⟩
    refine ⟨?_, ?_⟩
    · rintro ⟨stack, statics', inst, hinit⟩ s hs
      obtain ⟨rc, st, st', hscan, hrc, -⟩ := confScan_of_mioConfInit hinit
      obtain ⟨e, he⟩ := (confItems_of_confScan (k := none) rfl hscan hrc).1 s hs
      exact (mem_names_iff he).mp (hkeys stack statics' inst hinit s hs)
    · rintro stack pre s post st htoks hafter hisKey hkey hpos hblank
      obtain ⟨st', htoken⟩ := exists_confToken_poolId (stack pre.length) hisKey hkey hpos hblank
      obtain ⟨hi, lo, pool, htext, -, rfl, rfl⟩ :=
        hstored stack pre s post st 0 st' htoks hafter hisKey hkey htoken (by decide)
      have hread := (readPoolId_iff s.bytes _ _).mpr
        ⟨htext, UInt64.toNat_lt _, UInt64.toNat_lt _⟩
      exact Option.isSome_iff_exists.mpr ⟨_, hread⟩
  · rintro ⟨hkeys, hids⟩
    have hstored : ∀ stack pre s post st rc st', toks = pre ++ .scalar s :: post →
        confAfter stack pre statics.start = some st → st.isKey = false →
          st.key = some .motrPoolId → confToken st (stack pre.length) (.scalar s) = .ok (rc, st') →
            ¬ rc < 0 → ∃ hi lo pool, PoolIdText s.bytes hi lo ∧
              st'.mioPools.list.getLast? = some pool ∧ pool.mpId.mpiHi.toNat = hi ∧
                pool.mpId.mpiLo.toNat = lo := by
      rintro stack pre s post st rc st' htoks hafter hisKey hkey htoken hrc
      obtain ⟨hpos, hblank, -⟩ := confToken_poolId hisKey hkey htoken hrc
      obtain ⟨⟨hi, lo⟩, hread⟩ := Option.isSome_iff_exists.mp
        (hids stack pre s post st htoks hafter hisKey hkey hpos hblank)
      exact ⟨hi, lo, stored_of_readPoolId hisKey hkey htoken hrc hread⟩
    refine ⟨?_, ?_, hstored⟩
    · rintro stack statics' inst hinit s hs
      obtain ⟨rc, st, st', hscan, hrc, -⟩ := confScan_of_mioConfInit hinit
      obtain ⟨e, he⟩ := (confItems_of_confScan (k := none) rfl hscan hrc).1 s hs
      exact (mem_names_iff he).mpr (hkeys ⟨stack, statics', inst, hinit⟩ s hs)
    · rintro stack statics' inst hinit k s hs hk
      obtain ⟨rc, st, st', hscan, hrc, -⟩ := confScan_of_mioConfInit hinit
      obtain ⟨pre, post, st₁, rc₁, st₂, htoks, hafter, hisKey, hkey, htoken, hrc₁⟩ :=
        (confItems_of_confScan (k := none) rfl hscan hrc).2 (some k) s hs
      have hid : st₁.key = some .motrPoolId := by
        have hname : (confTokenToKey ⟨ascii "MOTR_POOL_ID", by decide⟩).map ConfEntry.key =
          some .motrPoolId := by decide +kernel
        obtain rfl : k = ⟨ascii "MOTR_POOL_ID", by decide⟩ := CStr.ext hk
        exact hkey.trans hname
      obtain ⟨hi, lo, pool, htext, -⟩ :=
        hstored stack pre s post st₁ rc₁ st₂ htoks hafter hisKey hid htoken hrc₁
      exact ⟨hi, lo, htext⟩

/-- A file with a key in front of which there is something else. -/
def longKeyToks : List YamlToken :=
  [.blockMappingStart, .key, .scalar (literal "NO_MIO_LOG_DIR"), .value,
    .scalar (literal "/tmp"), .blockEnd, .streamEnd]

/-- A list of one pool, whose id is one number. -/
def halfIdToks : List YamlToken :=
  [.blockMappingStart, .key, .scalar (literal "MOTR_POOLS"), .value,
    .blockSequenceStart, .blockEntry, .blockMappingStart, .key,
    .scalar (literal "MOTR_POOL_ID"), .value, .scalar (literal "0x6f"),
    .blockEnd, .blockEnd, .blockEnd, .streamEnd]

/-- **A key that is none is accepted**, and an id of one number, which is completed with
what the stack holds. -/
theorem not_spelledExactly :
    ¬ SpelledExactly .initial longKeyToks ∧ ¬ SpelledExactly .initial halfIdToks ∧
      (mioConfInit .initial (fun _ => ⟨0, 0⟩) halfIdToks).map
        (fun r => (r.1, r.2.1.mioPools.list.map MioPool.mpId)) = .ok (0, [⟨0x6f, 0⟩]) ∧
      (mioConfInit .initial (fun _ => ⟨0, 7⟩) halfIdToks).map
        (fun r => (r.1, r.2.1.mioPools.list.map MioPool.mpId)) = .ok (0, [⟨0x6f, 7⟩]) := by
  have haccepted : ∀ toks ∈ [longKeyToks, halfIdToks], ∃ statics' inst,
      mioConfInit .initial (fun _ => ⟨0, 0⟩) toks = .ok (0, statics', inst) := by
    intro toks htoks
    have hrc : ∀ toks ∈ [longKeyToks, halfIdToks],
        (mioConfInit .initial (fun _ => ⟨0, 0⟩) toks).map Prod.fst = .ok 0 := by decide +kernel
    obtain ⟨⟨rc, statics', inst⟩, hinit, rfl⟩ := map_eq_ok_iff.mp (hrc toks htoks)
    exact ⟨statics', inst, hinit⟩
  refine ⟨fun h => ?_, fun h => ?_, by decide +kernel, by decide +kernel⟩
  · obtain ⟨statics', inst, hinit⟩ := haccepted longKeyToks (by simp)
    have hname := h.keys _ _ _ hinit (literal "NO_MIO_LOG_DIR") (by decide +kernel)
    exact absurd hname (by decide +kernel)
  · obtain ⟨statics', inst, hinit⟩ := haccepted halfIdToks (by simp)
    obtain ⟨hi, lo, w₁, t₁, w₂, w₃, t₂, w₄, htext, -⟩ :=
      h.ids _ _ _ hinit (literal "MOTR_POOL_ID") (literal "0x6f")
        (by decide +kernel) rfl
    -- there is no colon
    have hcolon : (58 : Byte) ∈ ascii "0x6f" := by
      rw [show ascii "0x6f" = _ from htext]
      simp
    exact absurd hcolon (by decide)

end CortxMio
