import Mathlib.Data.List.TakeWhile
import Mathlib.Data.UInt

/-!
# Strings of C

A string of C is a run of bytes other than zero; in memory a zero follows
(`CortxMio.Lib.CStr.buf`). Functions that are given a buffer rather than a string look
for the zero themselves, up to a limit (`CortxMio.Lib.strnlen`), and find what the
buffer happens to hold.
-/

namespace CortxMio.Lib

/-- A string of C, without its terminator. -/
structure CStr where
  /-- The bytes. -/
  bytes : List UInt8
  /-- None of them ends the string. -/
  noNul : 0 ∉ bytes
  deriving DecidableEq

namespace CStr

/-- The length of a string. -/
def length (s : CStr) : ℕ := s.bytes.length

/-- A string as it lies in memory. -/
def buf (s : CStr) : List UInt8 := s.bytes ++ [0]

/-- The string in a buffer. -/
def ofBuf (l : List UInt8) : CStr where
  bytes := l.takeWhile (· ≠ 0)
  noNul h := by simpa using List.mem_takeWhile_imp h

@[ext] theorem ext {s t : CStr} (h : s.bytes = t.bytes) : s = t := by
  cases s
  cases t
  congr

theorem takeWhile_bytes (s : CStr) : s.bytes.takeWhile (· ≠ 0) = s.bytes :=
  List.takeWhile_eq_self_iff.mpr fun b hb => by
    simpa using fun h : b = 0 => s.noNul (h ▸ hb)

theorem ofBuf_bytes (s : CStr) : ofBuf s.bytes = s := ext (takeWhile_bytes s)

/-- What stands behind the terminator is not part of the string. -/
theorem ofBuf_buf (s : CStr) (rest : List UInt8) : ofBuf (s.buf ++ rest) = s := by
  refine ext ?_
  show ((s.bytes ++ [0]) ++ rest).takeWhile (· ≠ 0) = s.bytes
  rw [List.append_assoc, List.takeWhile_append_of_pos]
  · simp
  · intro b hb
    simpa using fun h : b = 0 => s.noNul (h ▸ hb)

/-- A string goes on as long as there is no zero. -/
theorem bytes_ofBuf_append {l : List UInt8} (hl : 0 ∉ l) (rest : List UInt8) :
    (ofBuf (l ++ rest)).bytes = l ++ (ofBuf rest).bytes :=
  List.takeWhile_append_of_pos fun b hb => by simpa using fun h : b = 0 => hl (h ▸ hb)

/-- A buffer that begins with a run of bytes and a zero holds this string. -/
theorem bytes_ofBuf_of_begins {l buf : List UInt8} (h : l ++ [0] <+: buf) (hl : 0 ∉ l) :
    (ofBuf buf).bytes = l := by
  obtain ⟨rest, rfl⟩ := h
  exact congrArg bytes (ofBuf_buf ⟨l, hl⟩ rest)

end CStr

/-- `strstr`: the rest of a text from the first place on where a pattern stands. -/
def strstr (s pat : List UInt8) : Option (List UInt8) :=
  s.tails.find? fun t => pat.isPrefixOf t

/-- Whether `strcmp` finds two buffers to hold the same string; nothing if it has to
look beyond the end of one of them. -/
def strEq : List UInt8 → List UInt8 → Option Bool
  | a :: as, b :: bs =>
      if a ≠ b then some false else if a = 0 then some true else strEq as bs
  | _, _ => none

/-- What a buffer is read back as: the string in it, unless that runs on beyond its
end. -/
def readBack (mem : List UInt8) : Option CStr := if 0 ∈ mem then some (.ofBuf mem) else none

theorem readBack_eq_some_iff {mem : List UInt8} {s : CStr} :
    readBack mem = some s ↔ s.buf <+: mem := by
  rw [readBack]
  constructor
  · intro h
    split at h
    · next hmem =>
      obtain rfl := Option.some.inj h
      obtain ⟨l, rest, rfl, hl⟩ := List.eq_append_cons_of_mem hmem
      refine ⟨rest, ?_⟩
      rw [CStr.buf, CStr.bytes_ofBuf_append hl]
      simp [CStr.ofBuf]
    · cases h
  · rintro ⟨rest, rfl⟩
    rw [CStr.ofBuf_buf, if_pos]
    simp [CStr.buf]

/-- A buffer is longer than what it is read back as. -/
theorem length_lt_of_readBack {mem : List UInt8} {s : CStr} (h : readBack mem = some s) :
    s.length < mem.length := by
  have hle := (readBack_eq_some_iff.mp h).length_le
  rwa [CStr.buf, List.length_append, List.length_singleton] at hle

/-- **Comparing with a buffer that is read back** does not lead beyond the other one, if that
one is the longer one. -/
theorem strEq_of_readBack {a b : List UInt8} {s : CStr} (h : readBack b = some s)
    (hlen : s.length < a.length) : strEq a b = some (decide (readBack a = some s)) := by
  obtain ⟨rest, rfl⟩ := readBack_eq_some_iff.mp h
  simp only [readBack_eq_some_iff]
  obtain ⟨l, hl⟩ := s
  change l.length < a.length at hlen
  change strEq a (l ++ [0] ++ rest) = some (decide (l ++ [0] <+: a))
  clear h
  induction l generalizing a with
  | nil =>
    cases a with
    | nil => cases hlen
    | cons x a =>
      by_cases hx : x = 0
      · simp [strEq, hx]
      · simp [strEq, hx, Ne.symm hx]
  | cons y l ih =>
    cases a with
    | nil => cases hlen
    | cons x a =>
      have hy : y ≠ 0 := fun hc => hl (hc ▸ List.mem_cons_self)
      by_cases hxy : x = y
      · subst hxy
        have htail := ih (fun hc => hl (List.mem_cons_of_mem _ hc)) (Nat.lt_of_succ_lt_succ hlen)
        simp only [List.cons_append, strEq, hy, ne_eq, not_true_eq_false, if_false, htail,
          List.cons_prefix_cons, true_and]
      · simp [strEq, hxy, Ne.symm hxy]

theorem strEq_comm (a b : List UInt8) : strEq a b = strEq b a := by
  induction a generalizing b with
  | nil =>
    cases b with
    | nil => rfl
    | cons y b => rfl
  | cons x a ih =>
    cases b with
    | nil => rfl
    | cons y b =>
      rw [strEq, strEq]
      by_cases hxy : x = y
      · subst hxy
        rw [ih]
      · rw [if_pos hxy, if_pos (Ne.symm hxy)]

/-- What stands behind a terminator is not compared. -/
theorem strEq_append_of_zero {l : List UInt8} (hl : 0 ∈ l) (a rest rest' : List UInt8) :
    strEq a (l ++ rest) = strEq a (l ++ rest') := by
  induction l generalizing a with
  | nil => cases hl
  | cons y l ih =>
    cases a with
    | nil => rfl
    | cons x a =>
      rw [List.cons_append, List.cons_append, strEq, strEq]
      by_cases hx : x = 0
      · rw [if_pos hx, if_pos hx]
      · by_cases hxy : x = y
        · have hl' : 0 ∈ l := (List.mem_cons.mp hl).resolve_left fun hc => hx (hxy.trans hc.symm)
          rw [ih hl']
        · rw [if_pos hxy, if_pos hxy]

/-- Comparing two buffers of one length leads beyond their end if they are the same and
hold no string. -/
theorem strEq_eq_none_iff {a b : List UInt8} (h : a.length = b.length) :
    strEq a b = none ↔ a = b ∧ 0 ∉ a := by
  induction a generalizing b with
  | nil =>
    obtain rfl := List.eq_nil_of_length_eq_zero h.symm
    simp [strEq]
  | cons x a ih =>
    cases b with
    | nil => cases h
    | cons y b =>
      rw [strEq]
      by_cases hxy : x = y
      · subst hxy
        rw [if_neg (by simp)]
        by_cases hx : x = 0
        · simp [hx]
        · rw [if_neg hx, ih (Nat.succ.inj h)]
          simp [Ne.symm hx]
      · simp [hxy]

theorem strEq_self_ne (a : List UInt8) : strEq a a ≠ some false := by
  induction a with
  | nil => simp [strEq]
  | cons x a ih =>
    rw [strEq, if_neg (by simp)]
    split
    · simp
    · exact ih

/-- Two buffers of one length that begin alike, up to a terminator or their end, do not hold
different strings. -/
theorem strEq_ne_of_begin {a b l : List UInt8} (ha : l <+: a) (hb : l <+: b)
    (hlen : a.length = b.length) (hl : 0 ∈ l ∨ l.length = a.length) :
    strEq a b ≠ some false := by
  rcases hl with hzero | hfull
  · obtain ⟨rest, rfl⟩ := ha
    obtain ⟨rest', rfl⟩ := hb
    rw [strEq_append_of_zero hzero _ rest' rest]
    exact strEq_self_ne _
  · rw [← ha.eq_of_length hfull, ← hb.eq_of_length (hfull.trans hlen)]
    exact strEq_self_ne _

/-- Two buffers that hold the same string are read back as that. -/
theorem exists_of_strEq {a b : List UInt8} (h : strEq a b = some true) :
    ∃ s, readBack a = some s ∧ readBack b = some s := by
  simp only [readBack_eq_some_iff]
  induction a generalizing b with
  | nil => cases h
  | cons x a ih =>
    cases b with
    | nil => cases h
    | cons y b =>
      rw [strEq] at h
      split at h
      · cases h
      · next hxy =>
        obtain rfl := not_not.mp hxy
        split at h
        · next hx =>
          subst hx
          exact ⟨⟨[], List.not_mem_nil⟩, ⟨a, rfl⟩, ⟨b, rfl⟩⟩
        · next hx =>
          obtain ⟨s, ⟨u, hu⟩, ⟨v, hv⟩⟩ := ih h
          refine ⟨⟨x :: s.bytes, ?_⟩, ⟨u, ?_⟩, ⟨v, ?_⟩⟩
          · rw [List.mem_cons]
            rintro (hc | hc)
            · exact hx hc.symm
            · exact s.noNul hc
          · exact congrArg (x :: ·) hu
          · exact congrArg (x :: ·) hv

/-- `strnlen` of a buffer: where its first zero is, up to `n`. -/
def strnlen (n : ℕ) (l : List UInt8) : ℕ := ((l.take n).takeWhile (· ≠ 0)).length

theorem strnlen_le (n : ℕ) (l : List UInt8) : strnlen n l ≤ n :=
  (List.takeWhile_prefix _).length_le.trans (List.length_take_le n l)

/-- Of a string that is longer than the limit, `strnlen` returns the limit. -/
theorem strnlen_append_cons (n : ℕ) {l : List UInt8} (hl : 0 ∉ l) (rest : List UInt8) :
    strnlen n (l ++ 0 :: rest) = min n l.length := by
  have hne : ∀ b ∈ l, decide (b ≠ 0) = true := fun b hb => by
    simpa using fun h : b = 0 => hl (h ▸ hb)
  rw [strnlen]
  rcases Nat.lt_or_ge l.length n with hlt | hge
  · obtain ⟨k, rfl⟩ : ∃ k, n = l.length + (k + 1) := ⟨n - l.length - 1, by omega⟩
    rw [List.take_length_add_append, List.takeWhile_append_of_pos hne]
    simp
  · rw [List.take_append_of_le_length hge, Nat.min_eq_left hge,
      List.takeWhile_eq_self_iff.mpr fun b hb => hne b (List.mem_of_mem_take hb),
      List.length_take, Nat.min_eq_left hge]

/-- There is no zero in front of a run that is shorter than the limit, nor in it. -/
theorem length_lt_strnlen {n : ℕ} {l : List UInt8} {b : UInt8} (hl : 0 ∉ l) (hb : b ≠ 0)
    (hn : l.length < n) (rest : List UInt8) : l.length < strnlen n (l ++ b :: rest) := by
  obtain ⟨k, rfl⟩ : ∃ k, n = l.length + (k + 1) := ⟨n - l.length - 1, by omega⟩
  have hne : ∀ c ∈ l, decide (c ≠ 0) = true := fun c hc => by
    simpa using fun h : c = 0 => hl (h ▸ hc)
  rw [strnlen, List.take_length_add_append, List.takeWhile_append_of_pos hne, List.take_succ_cons,
    List.takeWhile_cons_of_pos (by simpa using hb), List.length_append, List.length_cons]
  omega

/-- A run without a zero that is as long as the limit. -/
theorem strnlen_append_of_le {n : ℕ} {l : List UInt8} (hl : 0 ∉ l) (hn : n ≤ l.length)
    (rest : List UInt8) : strnlen n (l ++ rest) = n := by
  rw [strnlen, List.take_append_of_le_length hn, List.takeWhile_eq_self_iff.mpr,
    List.length_take, Nat.min_eq_left hn]
  intro b hb
  simpa using fun h : b = 0 => hl (h ▸ List.mem_of_mem_take hb)

theorem strnlen_buf (n : ℕ) (s : CStr) : strnlen n s.buf = min n s.length :=
  strnlen_append_cons n s.noNul []

theorem strnlen_of_begins {n : ℕ} {l buf : List UInt8} (h : l ++ [0] <+: buf) (hl : 0 ∉ l)
    (hn : l.length < n) : strnlen n buf = l.length := by
  obtain ⟨rest, rfl⟩ := h
  rw [List.append_assoc, List.singleton_append, strnlen_append_cons n hl,
    Nat.min_eq_right hn.le]

theorem take_strnlen_of_begins {n : ℕ} {l buf : List UInt8} (h : l ++ [0] <+: buf) (hl : 0 ∉ l)
    (hn : l.length < n) : buf.take (strnlen n buf) = l := by
  rw [strnlen_of_begins h hl hn]
  obtain ⟨rest, rfl⟩ := h
  rw [List.append_assoc, List.take_left]

end CortxMio.Lib
