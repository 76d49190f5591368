import CortxMio.App.Rwt

/-!
# Writers and readers, from start to end

Every run of `mio_rw_threads`. No object is written twice, read before it has been written, or
removed before it has been read, and no two threads have the same one (`CortxMio.rwt_once`).
Runs are finite, but for waits that end without a signal; nobody is stuck before all threads
are over; and then the numbers of the report are those of what has happened
(`CortxMio.rwt_ends`).

This needs that the lists have been set up, which the program does not look at, and that no
write returns a positive code: otherwise no reader is ever over (`CortxMio.rwt_over`).
-/

namespace CortxMio

open Lib

variable {σ : Type*} {io : RwtIo σ}

/-! ### Once and in order -/

/-- An object has been written, with a code. -/
def RwtEvent.writes (ok : ℤ → Bool) (p : MioObjId → Bool) : RwtEvent → Bool
  | .write _ todo rc => ok rc && p todo.otOid
  | _ => false

/-- An object has been read, with a code. -/
def RwtEvent.reads (ok : ℤ → Bool) (p : MioObjId → Bool) : RwtEvent → Bool
  | .read _ todo rc => ok rc && p todo.otOid
  | _ => false

/-- An object has been removed. -/
def RwtEvent.removes (p : MioObjId → Bool) : RwtEvent → Bool
  | .remove _ todo => p todo.otOid
  | _ => false

/-- Any code. -/
def anyRc (_ : ℤ) : Bool := true

/-- The code of a success. -/
def zeroRc (rc : ℤ) : Bool := rc == 0

/-- The code of a failure. -/
def negRc (rc : ℤ) : Bool := decide (rc < 0)

/-- A code that is not one of a failure. -/
def nonnegRc (rc : ℤ) : Bool := decide (0 ≤ rc)

section Once

variable {a : RwtAccount} {s : RwtState σ} {es : List RwtEvent} {nrThreads : ℕ}
  {lists : Bool × RwtObjTodoList × RwtObjTodoList} {d : σ}

/-- Some of the objects. -/
def some01 (p : MioObjId → Bool) (oid : MioObjId) : ℤ := if p oid then 1 else 0

theorem some01_nonneg (p : MioObjId → Bool) (oid : MioObjId) : 0 ≤ some01 p oid := by
  rw [some01]
  split
  · exact Int.one_nonneg
  · exact le_rfl

theorem weightOf_nonneg {w : MioObjId → ℤ} (hw : ∀ oid, 0 ≤ w oid) (todos : List RwtObjTodo) :
    0 ≤ weightOf w todos := by
  refine List.sum_nonneg fun x hx => ?_
  obtain ⟨todo, -, rfl⟩ := List.mem_map.mp hx
  exact hw _

theorem weightOf_some01 (p : MioObjId → Bool) (todos : List RwtObjTodo) :
    weightOf (some01 p) todos = (todos.map RwtObjTodo.otOid).countP p := by
  induction todos with
  | nil => rfl
  | cons todo todos ih =>
    rw [weightOf, List.map_cons, List.sum_cons, List.map_cons, List.countP_cons, ← weightOf, ih,
      some01]
    split
    · simp
      omega
    · simp

/-- There is nothing less than nothing. -/
structure RwtAccount.Nonneg (a : RwtAccount) : Prop where
  /-- On the list of objects to write. -/
  toWrite : ∀ l, 0 ≤ a.toWrite l
  /-- On the list of objects to read. -/
  toRead : ∀ l, 0 ≤ a.toRead l
  /-- With a writer. -/
  writer : ∀ pc, 0 ≤ a.writer pc
  /-- With a reader. -/
  reader : ∀ pc, 0 ≤ a.reader pc

/-- What there is in one place is no more than all that there is. -/
theorem RwtAccount.Nonneg.le_total (h : a.Nonneg) (s : RwtState σ) :
    0 ≤ a.total s ∧ (∀ pc ∈ s.writers, a.writer pc ≤ a.total s) ∧
      ∀ pc ∈ s.readers, a.reader pc ≤ a.total s := by
  obtain ⟨hwriters, hwriter⟩ := le_sum_map fun pc (_ : pc ∈ s.writers) => h.writer pc
  obtain ⟨hreaders, hreader⟩ := le_sum_map fun pc (_ : pc ∈ s.readers) => h.reader pc
  have hwrite := h.toWrite s.objToWriteList
  have hread := h.toRead s.objToReadList
  rw [RwtAccount.total]
  refine ⟨by omega, fun pc hpc => ?_, fun pc hpc => ?_⟩
  · have hpc := hwriter pc hpc
    omega
  · have hpc := hreader pc hpc
    omega

/-- At the start, everything is on the lists. -/
theorem RwtAccount.total_start (hwriter : a.writer .take = 0) (hreader : a.reader .take = 0) :
    a.total (mioRwtStart nrThreads lists d) = a.toWrite lists.2.1 + a.toRead lists.2.2 := by
  simp [RwtAccount.total, mioRwtStart, List.map_replicate, hwriter, hreader]

/-- **The account of a run**, where what events are worth is counted. -/
theorem RwtAccount.Even.run (h : a.Even) {p q : RwtEvent → Bool}
    (hworth : ∀ e, a.worth e = (if p e then 1 else 0) - if q e then 1 else 0)
    (hwriter : a.writer .take = 0) (hreader : a.reader .take = 0)
    (hrun : Run (RwtStep io) (mioRwtStart nrThreads lists d) es s) :
    a.total s + es.countP p = a.toWrite lists.2.1 + a.toRead lists.2.2 + es.countP q := by
  have hbalance := hrun.balance h.balanced
  rw [RwtAccount.total_start hwriter hreader, sum_map_worth hworth] at hbalance
  omega

/-- How many objects have been written, and how many are still to be written. -/
theorem unwritten_run (hrun : Run (RwtStep io) (mioRwtStart nrThreads lists d) es s)
    (p : MioObjId → Bool) :
    (unwrittenAccount (some01 p)).total s + es.countP (RwtEvent.writes anyRc p) =
      (lists.2.1.otlHead.map RwtObjTodo.otOid).countP p := by
  have hrun := (even_unwritten (w := some01 p)).run (p := RwtEvent.writes anyRc p)
    (q := fun _ => false)
    (fun e => by
      cases e <;> simp [RwtAccount.worth, unwrittenAccount, RwtEvent.writes, anyRc, some01])
    rfl rfl hrun
  refine hrun.trans ?_
  rw [← weightOf_some01, List.countP_false]
  simp [unwrittenAccount]

/-- How many objects have been read, and how many are still to be read. -/
theorem unread_run (hrun : Run (RwtStep io) (mioRwtStart nrThreads lists d) es s)
    (hempty : lists.2.2.otlHead = []) (p : MioObjId → Bool) :
    (unreadAccount (some01 p)).total s + es.countP (RwtEvent.reads anyRc p) =
      es.countP (RwtEvent.writes zeroRc p) := by
  have hrun := (even_unread (w := some01 p)).run (p := RwtEvent.reads anyRc p)
    (q := RwtEvent.writes zeroRc p)
    (fun e => by
      cases e <;> simp [RwtAccount.worth, unreadAccount, RwtEvent.reads, RwtEvent.writes, anyRc,
        zeroRc, some01, ← ite_and])
    rfl rfl hrun
  refine hrun.trans ?_
  simp [unreadAccount, weightOf, hempty]

/-- How many objects have been removed, and how many are still to be removed. -/
theorem unremoved_run (hrun : Run (RwtStep io) (mioRwtStart nrThreads lists d) es s)
    (p : MioObjId → Bool) :
    (unremovedAccount (some01 p)).total s + es.countP (RwtEvent.removes p) =
      es.countP (RwtEvent.reads anyRc p) := by
  have hrun := (even_unremoved (w := some01 p)).run (p := RwtEvent.removes p)
    (q := RwtEvent.reads anyRc p)
    (fun e => by
      cases e with
      | remove i todo => exact (Int.sub_zero _).symm
      | _ => simp [RwtAccount.worth, unremovedAccount, RwtEvent.reads, RwtEvent.removes, anyRc,
          some01])
    rfl rfl hrun
  refine hrun.trans ?_
  simp [unremovedAccount]

/-- Who has an object that is to be written or has been written without a failure. -/
def RwtWriter.todo : RwtWriter → Option RwtObjTodo
  | .write todo => some todo
  | .put todo rc => if rc = 0 then some todo else none
  | .take | .exit | .ended | .abort => none

/-- The same for a reader. -/
def RwtReader.todo : RwtReader → Option RwtObjTodo
  | .read todo => some todo
  | .verify todo _ => some todo
  | .remove todo _ => some todo
  | .take | .wait | .exit | .ended | .null => none

/-- The objects that are on a list or with a thread. -/
def RwtState.held (s : RwtState σ) : List RwtObjTodo :=
  s.objToWriteList.otlHead ++ s.objToReadList.otlHead ++ s.writers.filterMap RwtWriter.todo ++
    s.readers.filterMap RwtReader.todo

theorem weightOf_append (w : MioObjId → ℤ) (todos todos' : List RwtObjTodo) :
    weightOf w (todos ++ todos') = weightOf w todos + weightOf w todos' := by
  rw [weightOf, List.map_append, List.sum_append, weightOf, weightOf]

theorem weightOf_filterMap {π : Type*} (w : MioObjId → ℤ) (f : π → Option RwtObjTodo)
    (threads : List π) : weightOf w (threads.filterMap f) =
      (threads.map fun pc => ((f pc).elim 0 fun todo => w todo.otOid)).sum := by
  induction threads with
  | nil => rfl
  | cons pc threads ih =>
    rw [List.map_cons, List.sum_cons, List.filterMap_cons, ← ih]
    cases f pc with
    | none => exact (Int.zero_add _).symm
    | some todo => rfl

/-- All that is held is to be written, to be read, or to be removed. -/
theorem weightOf_held (w : MioObjId → ℤ) (s : RwtState σ) :
    weightOf w s.held =
      (unwrittenAccount w).total s + (unreadAccount w).total s + (unremovedAccount w).total s := by
  have hwriters : (s.writers.map fun pc => (pc.todo.elim 0 fun todo => w todo.otOid)).sum =
      (s.writers.map (unwrittenAccount w).writer).sum +
        (s.writers.map (unreadAccount w).writer).sum := by
    rw [← List.sum_map_add]
    congr 1
    refine List.map_congr_left fun pc _ => ?_
    cases pc with
    | put todo rc =>
      simp only [RwtWriter.todo, unwrittenAccount, unreadAccount]
      split <;> simp
    | _ => simp [RwtWriter.todo, unwrittenAccount, unreadAccount]
  have hreaders : (s.readers.map fun pc => (pc.todo.elim 0 fun todo => w todo.otOid)).sum =
      (s.readers.map (unreadAccount w).reader).sum +
        (s.readers.map (unremovedAccount w).reader).sum := by
    rw [← List.sum_map_add]
    congr 1
    refine List.map_congr_left fun pc _ => ?_
    cases pc <;> simp [RwtReader.todo, unremovedAccount, unreadAccount]
  have hnone : (s.readers.map (unwrittenAccount w).reader).sum = 0 := by
    simp [unwrittenAccount]
  have hnone' : (s.writers.map (unremovedAccount w).writer).sum = 0 := by
    simp [unremovedAccount]
  rw [RwtState.held, weightOf_append, weightOf_append, weightOf_append, weightOf_filterMap,
    weightOf_filterMap, hwriters, hreaders, RwtAccount.total, RwtAccount.total, RwtAccount.total,
    hnone, hnone']
  simp only [unwrittenAccount, unreadAccount, unremovedAccount]
  omega

theorem nonneg_unwritten (p : MioObjId → Bool) : (unwrittenAccount (some01 p)).Nonneg where
  toWrite := fun _ => weightOf_nonneg (some01_nonneg p) _
  toRead := fun _ => le_rfl
  writer := fun pc => by
    cases pc with
    | write todo => exact some01_nonneg p _
    | _ => exact le_rfl
  reader := fun _ => le_rfl

theorem nonneg_unread (p : MioObjId → Bool) : (unreadAccount (some01 p)).Nonneg where
  toWrite := fun _ => le_rfl
  toRead := fun _ => weightOf_nonneg (some01_nonneg p) _
  writer := fun pc => by
    cases pc with
    | put todo rc =>
      simp only [unreadAccount]
      split
      · exact some01_nonneg p _
      · exact le_rfl
    | _ => exact le_rfl
  reader := fun pc => by
    cases pc with
    | read todo => exact some01_nonneg p _
    | _ => exact le_rfl

theorem nonneg_unremoved (p : MioObjId → Bool) : (unremovedAccount (some01 p)).Nonneg where
  toWrite := fun _ => le_rfl
  toRead := fun _ => le_rfl
  writer := fun _ => le_rfl
  reader := fun pc => by
    cases pc with
    | verify todo rc => exact some01_nonneg p _
    | remove todo readAllDone => exact some01_nonneg p _
    | _ => exact le_rfl

/-- Writes that succeed are writes. -/
theorem countP_writes_le (ok : ℤ → Bool) (p : MioObjId → Bool) (es : List RwtEvent) :
    es.countP (RwtEvent.writes ok p) ≤ es.countP (RwtEvent.writes anyRc p) := by
  refine List.countP_mono_left fun e _ h => ?_
  cases e with
  | write i todo rc => exact (Bool.and_eq_true _ _ ▸ h : _ ∧ _).2
  | _ => exact h

variable {malloc : ℕ → Option RwtObjTodo} {stOid : MioObjId} {nrObjs : ℤ} {bs bc : UInt32}

/-- Only the objects that have been asked for are on the list, each of them once. -/
theorem count_init_le (malloc : ℕ → Option RwtObjTodo) (stOid : MioObjId) (bs bc : UInt32)
    (hnr : nrObjs ≤ 2 ^ 64) (oid : MioObjId) :
    ((rwtTodoListsInit malloc stOid nrObjs bs bc).2.1.otlHead.map RwtObjTodo.otOid).count oid ≤
      if oid ∈ rwtOids stOid nrObjs then 1 else 0 := by
  rcases rwtTodoListsInit_cases malloc stOid nrObjs bs bc with ⟨todos, heq, hoids, -⟩ |
    ⟨k, -, heq⟩
  · rw [heq]
    simp only [hoids, List.count_reverse]
    split
    · exact List.nodup_iff_count_le_one.mp (nodup_rwtOids stOid hnr) oid
    · next hnot => exact (List.count_eq_zero_of_not_mem hnot).le
  · rw [heq]
    exact Nat.zero_le _

theorem empty_init (malloc : ℕ → Option RwtObjTodo) (stOid : MioObjId) (nrObjs : ℤ)
    (bs bc : UInt32) : (rwtTodoListsInit malloc stOid nrObjs bs bc).2.2 = .new nrObjs := by
  rcases rwtTodoListsInit_cases malloc stOid nrObjs bs bc with ⟨todos, heq, -, -⟩ | ⟨k, -, heq⟩
  · rw [heq]
  · rw [heq]

/-- **The books of a run** about one object. -/
theorem books_run (hnr : nrObjs ≤ 2 ^ 64) (hrun : Run (RwtStep io)
      (mioRwtStart nrThreads (rwtTodoListsInit malloc stOid nrObjs bs bc) d) es s)
    (oid : MioObjId) :
    (unwrittenAccount (some01 (· == oid))).total s +
        es.countP (RwtEvent.writes anyRc (· == oid)) ≤
          (if oid ∈ rwtOids stOid nrObjs then 1 else 0) ∧
      (unreadAccount (some01 (· == oid))).total s + es.countP (RwtEvent.reads anyRc (· == oid)) =
        es.countP (RwtEvent.writes zeroRc (· == oid)) ∧
      (unremovedAccount (some01 (· == oid))).total s + es.countP (RwtEvent.removes (· == oid)) =
        es.countP (RwtEvent.reads anyRc (· == oid)) := by
  refine ⟨?_, unread_run hrun (by rw [empty_init]; rfl) (· == oid),
    unremoved_run hrun (· == oid)⟩
  have hinit := count_init_le malloc stOid bs bc hnr oid
  rw [unwritten_run hrun (· == oid)]
  rw [List.count] at hinit
  by_cases hmem : oid ∈ rwtOids stOid nrObjs
  · rw [if_pos hmem] at hinit ⊢
    omega
  · rw [if_neg hmem] at hinit ⊢
    omega

/-- **Once and in order**: in every run, whatever threads have done so far, no object has been
written twice, none has been read that has not been written, and none has been removed that
has not been read; and each is on one list only, or with one thread. -/
theorem rwt_once (hnr : nrObjs ≤ 2 ^ 64) (hrun : Run (RwtStep io)
      (mioRwtStart nrThreads (rwtTodoListsInit malloc stOid nrObjs bs bc) d) es s) :
    (∀ oid, es.countP (RwtEvent.writes anyRc (· == oid)) ≤
        (if oid ∈ rwtOids stOid nrObjs then 1 else 0) ∧
      es.countP (RwtEvent.reads anyRc (· == oid)) ≤
        es.countP (RwtEvent.writes zeroRc (· == oid)) ∧
      es.countP (RwtEvent.removes (· == oid)) ≤ es.countP (RwtEvent.reads anyRc (· == oid))) ∧
    (s.held.map RwtObjTodo.otOid).Nodup := by
  constructor
  · intro oid
    obtain ⟨hwritten, hread, hremoved⟩ := books_run hnr hrun oid
    have hnonneg1 := ((nonneg_unwritten (· == oid)).le_total s).1
    have hnonneg2 := ((nonneg_unread (· == oid)).le_total s).1
    have hnonneg3 := ((nonneg_unremoved (· == oid)).le_total s).1
    split at hwritten
    · next hmem =>
      rw [if_pos hmem]
      omega
    · next hmem =>
      rw [if_neg hmem]
      omega
  · rw [List.nodup_iff_count_le_one]
    intro oid
    obtain ⟨hwritten, hread, hremoved⟩ := books_run hnr hrun oid
    have hok := countP_writes_le zeroRc (· == oid) es
    have hheld := weightOf_held (some01 (· == oid)) s
    rw [weightOf_some01] at hheld
    rw [List.count]
    split at hwritten <;> omega

end Once

/-! ### Nobody waits in vain -/

/-- All objects have been counted. -/
def RwtObjTodoList.AllDone (l : RwtObjTodoList) : Prop := l.otlNrDone + l.otlNrFailed = l.otlNrTodo

/-- A list is what it counts. -/
structure RwtObjTodoList.Ok (l : RwtObjTodoList) : Prop where
  /-- The objects on it. -/
  length : l.otlNrInList = l.otlHead.length
  /-- Those that are done. -/
  done : 0 ≤ l.otlNrDone
  /-- Those that have failed. -/
  failed : 0 ≤ l.otlNrFailed

/-- A reader that will look at the numbers, or has seen that all objects are done. -/
def RwtReader.awake : RwtReader → Prop
  | .take | .remove _ _ | .exit => True
  | .wait | .read _ | .verify _ _ | .ended | .null => False

/-- A reader that has seen that all objects are done. -/
def RwtReader.leaving : RwtReader → Prop
  | .exit | .ended | .remove _ true => True
  | .take | .wait | .read _ | .verify _ _ | .remove _ false | .null => False

/-- What holds in every state. -/
structure RwtInv (nrThreads : ℕ) (s : RwtState σ) : Prop where
  /-- The list of objects to write. -/
  toWrite : s.objToWriteList.Ok
  /-- The list of objects to read. -/
  toRead : s.objToReadList.Ok
  /-- The writers. -/
  nrWriters : s.writers.length = nrThreads
  /-- The readers. -/
  nrReaders : s.readers.length = nrThreads
  /-- No writer runs into its assertion. -/
  noAbort : RwtWriter.abort ∉ s.writers
  /-- No reader goes through a null pointer. -/
  noNull : RwtReader.null ∉ s.readers
  /-- Writers come to their end when nothing is to be written. -/
  exit : RwtWriter.exit ∈ s.writers ∨ RwtWriter.ended ∈ s.writers →
    s.objToWriteList.otlNrInList = 0
  /-- Readers wait when nothing is to be read. -/
  wait : RwtReader.wait ∈ s.readers → s.objToReadList.otlNrInList = 0
  /-- No signal is lost. -/
  woken : RwtReader.wait ∈ s.readers → s.objToReadList.AllDone → ∃ pc ∈ s.readers, pc.awake
  /-- Readers come to their end when all objects are done. -/
  left : ∀ pc ∈ s.readers, pc.leaving → s.objToReadList.AllDone

section Invariant

variable {l : RwtObjTodoList} {nrThreads : ℕ} {s s' : RwtState σ} {e : RwtEvent}

theorem RwtObjTodoList.Ok.writerTake (h : l.Ok) :
    (rwtWriterTake l).2.Ok ∧ (rwtWriterTake l).1 ≠ .abort := by
  have hlength := h.length
  rcases rwtWriterTake_cases l with ⟨-, hl⟩ | ⟨hne, hhead, -⟩ | ⟨-, todo, next, hhead, hl⟩
  · rw [hl]
    exact ⟨h, by simp⟩
  · rw [hhead] at hlength
    exact absurd hlength hne
  · rw [hhead, List.length_cons] at hlength
    rw [hl]
    exact ⟨⟨by simp only; omega, h.done, h.failed⟩, by simp⟩

theorem RwtObjTodoList.Ok.writerPut (h : l.Ok) (todo : RwtObjTodo) (rc : ℤ) :
    (rwtWriterPut todo rc l).Ok := by
  have hlength := h.length
  have hfailed := h.failed
  rw [rwtWriterPut]
  split
  · exact ⟨by simp only [List.length_cons]; omega, h.done, h.failed⟩
  · split
    · exact ⟨h.length, h.done, by simp only; omega⟩
    · exact h

theorem RwtObjTodoList.Ok.readerTake (h : l.Ok) :
    (rwtReaderTake l).2.Ok ∧ (rwtReaderTake l).1 ≠ .null := by
  have hlength := h.length
  rcases rwtReaderTake_cases l with
    ⟨-, -, hl⟩ | ⟨-, -, hl⟩ | ⟨hne, hhead, -⟩ | ⟨-, todo, next, hhead, hl⟩
  · rw [hl]
    exact ⟨h, by simp⟩
  · rw [hl]
    exact ⟨h, by simp⟩
  · rw [hhead] at hlength
    exact absurd hlength hne
  · rw [hhead, List.length_cons] at hlength
    rw [hl]
    exact ⟨⟨by simp only; omega, h.done, h.failed⟩, by simp⟩

theorem RwtObjTodoList.Ok.readerVerify (h : l.Ok) (todo : RwtObjTodo) (rc : ℤ) :
    (rwtReaderVerify todo rc l).2.Ok := by
  have hdone := h.done
  have hfailed := h.failed
  rw [rwtReaderVerify]
  split
  · exact ⟨h.length, h.done, by simp only; omega⟩
  · exact ⟨h.length, by simp only; omega, h.failed⟩

/-- After a broadcast, nobody waits. -/
theorem mem_wake {readers : List RwtReader} {pc : RwtReader} (h : pc ∈ readers.map .wake) :
    pc ≠ .wait ∧ (pc = .take ∨ pc ∈ readers) := by
  obtain ⟨q, hq, rfl⟩ := List.mem_map.mp h
  cases q <;> simp_all [RwtReader.wake]

/-- A broadcast does nothing to those who do not wait. -/
theorem RwtInv.broadcast (h : RwtInv nrThreads s) {writers : List RwtWriter}
    {toRead : RwtObjTodoList} (hok : toRead.Ok) (hnr : writers.length = nrThreads)
    (habort : RwtWriter.abort ∉ writers)
    (hexit : RwtWriter.exit ∈ writers ∨ RwtWriter.ended ∈ writers →
      s.objToWriteList.otlNrInList = 0)
    (hall : s.objToReadList.AllDone → toRead.AllDone) :
    RwtInv nrThreads { s with
      writers := writers, objToReadList := toRead, readers := s.readers.map .wake } where
  toWrite := h.toWrite
  toRead := hok
  nrWriters := hnr
  nrReaders := (List.length_map _).trans h.nrReaders
  noAbort := habort
  noNull := fun hmem => by
    rcases (mem_wake hmem).2 with heq | hmem
    · exact absurd heq (by simp)
    · exact h.noNull hmem
  exit := hexit
  wait := fun hmem => absurd rfl (mem_wake hmem).1
  woken := fun hmem => absurd rfl (mem_wake hmem).1
  left := fun pc hmem hleaving => by
    rcases (mem_wake hmem).2 with rfl | hmem
    · exact hleaving.elim
    · exact hall (h.left pc hmem hleaving)

/-- A writer that moves on. -/
theorem RwtInv.moveWriter (h : RwtInv nrThreads s) {i : ℕ} {pc : RwtWriter}
    {toWrite : RwtObjTodoList} {d : σ} (hok : toWrite.Ok) (hpc : pc ≠ .abort)
    (hexit : pc = .exit ∨ pc = .ended ∨ s.objToWriteList.otlNrInList = 0 →
      toWrite.otlNrInList = 0) :
    RwtInv nrThreads
      { s with writers := s.writers.set i pc, objToWriteList := toWrite, data := d } where
  toWrite := hok
  toRead := h.toRead
  nrWriters := List.length_set.trans h.nrWriters
  nrReaders := h.nrReaders
  noAbort := fun hmem => by
    rcases List.mem_or_eq_of_mem_set hmem with hmem | heq
    · exact h.noAbort hmem
    · exact hpc heq.symm
  noNull := h.noNull
  exit := fun hmem => by
    rcases hmem with hmem | hmem
    · rcases List.mem_or_eq_of_mem_set hmem with hmem | heq
      · exact hexit (Or.inr (Or.inr (h.exit (Or.inl hmem))))
      · exact hexit (Or.inl heq.symm)
    · rcases List.mem_or_eq_of_mem_set hmem with hmem | heq
      · exact hexit (Or.inr (Or.inr (h.exit (Or.inr hmem))))
      · exact hexit (Or.inr (Or.inl heq.symm))
  wait := h.wait
  woken := h.woken
  left := h.left

/-- A reader that moves on, from one place to another. -/
theorem RwtInv.moveReader (h : RwtInv nrThreads s) {i : ℕ} {p q : RwtReader}
    {toRead : RwtObjTodoList} {d : σ} (hi : s.readers[i]? = some p) (hok : toRead.Ok)
    (hnull : q ≠ .null) (hall : s.objToReadList.AllDone → toRead.AllDone)
    (hwait : q = .wait ∨ RwtReader.wait ∈ s.readers → toRead.otlNrInList = 0)
    (hawake : q = .wait ∨ RwtReader.wait ∈ s.readers → toRead.AllDone → q.awake ∨
      RwtReader.wait ∈ s.readers ∧ s.objToReadList.AllDone ∧ ¬p.awake)
    (hleft : q.leaving → toRead.AllDone) :
    RwtInv nrThreads
      { s with readers := s.readers.set i q, objToReadList := toRead, data := d } where
  toWrite := h.toWrite
  toRead := hok
  nrWriters := h.nrWriters
  nrReaders := List.length_set.trans h.nrReaders
  noAbort := h.noAbort
  noNull := fun hmem => by
    rcases List.mem_or_eq_of_mem_set hmem with hmem | heq
    · exact h.noNull hmem
    · exact hnull heq.symm
  exit := h.exit
  wait := fun hmem => by
    rcases List.mem_or_eq_of_mem_set hmem with hmem | heq
    · exact hwait (Or.inr hmem)
    · exact hwait (Or.inl heq.symm)
  woken := fun hmem hdone => by
    have hlt := (List.getElem?_eq_some_iff.mp hi).1
    have hmem' : q = .wait ∨ RwtReader.wait ∈ s.readers := by
      rcases List.mem_or_eq_of_mem_set hmem with hmem | heq
      · exact Or.inr hmem
      · exact Or.inl heq.symm
    rcases hawake hmem' hdone with hq | ⟨hold, hall, hp⟩
    · exact ⟨q, List.mem_set hlt q, hq⟩
    · obtain ⟨pc, hpc, hpcawake⟩ := h.woken hold hall
      exact ⟨pc, mem_set_of_ne hi hpc fun heq => hp (heq ▸ hpcawake), hpcawake⟩
  left := fun pc hmem hleaving => by
    rcases List.mem_or_eq_of_mem_set hmem with hmem | rfl
    · exact hall (h.left pc hmem hleaving)
    · exact hleft hleaving

/-- How many objects have not been counted yet, and are not lost. -/
def RwtState.pending (s : RwtState σ) : ℤ :=
  s.objToWriteList.otlHead.length + s.objToReadList.otlHead.length +
    (s.writers.map objectsAccount.writer).sum + (s.readers.map objectsAccount.reader).sum

theorem total_objects (s : RwtState σ) : objectsAccount.total s =
    s.pending + s.objToReadList.otlNrDone + s.objToReadList.otlNrFailed := by
  simp only [RwtAccount.total, RwtState.pending, objectsAccount]
  omega

/-- What a thread has is among what there is. -/
theorem le_pending (s : RwtState σ) :
    (∀ pc ∈ s.writers, objectsAccount.writer pc ≤ s.pending) ∧
      (∀ pc ∈ s.readers, objectsAccount.reader pc ≤ s.pending) ∧ 0 ≤ s.pending := by
  have hwriter : ∀ pc, 0 ≤ objectsAccount.writer pc := fun pc => by
    cases pc with
    | put todo rc =>
      simp only [objectsAccount]
      split <;> simp
    | _ => simp [objectsAccount]
  have hreader : ∀ pc, 0 ≤ objectsAccount.reader pc := fun pc => by
    cases pc <;> simp [objectsAccount]
  obtain ⟨hwriters, hwriter⟩ := le_sum_map fun pc (_ : pc ∈ s.writers) => hwriter pc
  obtain ⟨hreaders, hreader⟩ := le_sum_map fun pc (_ : pc ∈ s.readers) => hreader pc
  rw [RwtState.pending]
  refine ⟨fun pc hpc => ?_, fun pc hpc => ?_, by omega⟩
  · have hpc := hwriter pc hpc
    omega
  · have hpc := hreader pc hpc
    omega

/-- **Every step keeps the invariant**, if all objects are done only when none is left. -/
theorem rwtInv_step (h : RwtInv nrThreads s) (hnone : s.objToReadList.AllDone → s.pending = 0)
    (hstep : RwtStep io s e s') : RwtInv nrThreads s' := by
  obtain ⟨hwriters, hreaders, -⟩ := le_pending s
  cases hstep with
  | writerTake hi =>
    obtain ⟨hok, habort⟩ := h.toWrite.writerTake
    refine h.moveWriter hok habort fun hexit => ?_
    rcases rwtWriterTake_cases s.objToWriteList with ⟨hzero, hl⟩ | ⟨-, -, hl⟩ |
      ⟨hne, todo, next, -, hl⟩
    · rw [hl]
      exact hzero
    · exact absurd (congrArg Prod.fst hl) habort
    · rw [hl] at hexit
      exact absurd (hexit.resolve_left (by simp)) (by simp [hne])
  | write hi hd => exact h.moveWriter h.toWrite (by simp) (by simp)
  | @writerPut i todo rc hi =>
    have hmem := List.mem_of_getElem? hi
    refine h.broadcast (h.toRead.writerPut todo rc) (List.length_set.trans h.nrWriters)
      (fun hmem => ?_) (fun hmem => ?_) fun hall => ?_
    · exact h.noAbort ((List.mem_or_eq_of_mem_set hmem).resolve_right (by simp))
    · exact h.exit (hmem.imp (fun hmem => (List.mem_or_eq_of_mem_set hmem).resolve_right (by simp))
        fun hmem => (List.mem_or_eq_of_mem_set hmem).resolve_right (by simp))
    · rw [rwtWriterPut]
      split
      · exact hall
      · split
        · next hneg =>
          have hle := hwriters _ hmem
          simp only [objectsAccount, if_pos hneg.le] at hle
          have hzero := hnone hall
          omega
        · exact hall
  | @writerExit i hi =>
    have hmem := List.mem_of_getElem? hi
    refine h.broadcast h.toRead (List.length_set.trans h.nrWriters) (fun hmem => ?_)
      (fun _ => h.exit (Or.inl hmem)) id
    exact h.noAbort ((List.mem_or_eq_of_mem_set hmem).resolve_right (by simp))
  | @readerTake i hi =>
    obtain ⟨hok, hnull⟩ := h.toRead.readerTake
    rcases rwtReaderTake_cases s.objToReadList with
      ⟨hzero, hall, hl⟩ | ⟨hzero, hall, hl⟩ | ⟨-, -, hl⟩ | ⟨hne, todo, next, -, hl⟩
    · rw [hl]
      exact h.moveReader hi h.toRead (by simp) id (fun _ => hzero) (fun _ _ => Or.inl trivial)
        fun _ => hall
    · rw [hl]
      exact h.moveReader hi h.toRead (by simp) id (fun _ => hzero)
        (fun _ hdone => absurd hdone hall) fun hleaving => hleaving.elim
    · exact absurd (congrArg Prod.fst hl) hnull
    · rw [hl] at hok ⊢
      have hwait : ¬(RwtReader.read todo = .wait ∨ RwtReader.wait ∈ s.readers) := fun hwait =>
        hne (h.wait (hwait.resolve_left (by simp)))
      exact h.moveReader hi hok (by simp) id (fun hw => absurd hw hwait)
        (fun hw => absurd hw hwait) fun hleaving => hleaving.elim
  | @spurious i hi =>
    exact h.moveReader hi h.toRead (by simp) id (fun _ => h.wait (List.mem_of_getElem? hi))
      (fun _ _ => Or.inl trivial) fun hleaving => hleaving.elim
  | @read i todo rc md5sum d hi hd =>
    exact h.moveReader hi h.toRead (by simp) id (fun hw => h.wait (hw.resolve_left (by simp)))
      (fun hw hall => Or.inr ⟨hw.resolve_left (by simp), hall, id⟩) fun hleaving => hleaving.elim
  | @readerVerify i todo rc hi =>
    have hle := hreaders _ (List.mem_of_getElem? hi)
    have hnot : ¬s.objToReadList.AllDone := fun hall => by
      have hzero := hnone hall
      simp only [objectsAccount] at hle
      omega
    obtain ⟨readAllDone, hpc, hall⟩ := exists_rwtReaderVerify todo rc s.objToReadList
    have hnr : (rwtReaderVerify todo rc s.objToReadList).2.otlNrInList =
        s.objToReadList.otlNrInList := by
      rw [rwtReaderVerify]
      split <;> rfl
    rw [hpc]
    refine h.moveReader hi (h.toRead.readerVerify todo rc) (by simp) (fun hold => absurd hold hnot)
      (fun hw => hnr.trans (h.wait (hw.resolve_left (by simp)))) (fun _ _ => Or.inl trivial)
      fun hleaving => hall ?_
    cases readAllDone with
    | false => exact hleaving.elim
    | true => rfl
  | @remove i todo readAllDone d hi hd =>
    have hleft := h.left _ (List.mem_of_getElem? hi)
    refine h.moveReader hi h.toRead ?_ id (fun hw => ?_) (fun _ _ => Or.inl ?_) fun hleaving => ?_
    · split <;> simp
    · refine h.wait (hw.resolve_left ?_)
      split <;> simp
    · split <;> trivial
    · cases readAllDone with
      | false => exact hleaving.elim
      | true => exact hleft trivial
  | @readerExit i hi =>
    have hall := h.left _ (List.mem_of_getElem? hi) trivial
    have hb := h.broadcast h.toRead h.nrWriters h.noAbort h.exit id
    have hnot : ¬(RwtReader.ended = .wait ∨ RwtReader.wait ∈ s.readers.map RwtReader.wake) :=
      fun hw => (mem_wake (hw.resolve_left (by simp))).1 rfl
    rw [List.map_set]
    refine hb.moveReader (p := .exit) ?_ h.toRead (by simp [RwtReader.wake]) id
      (fun hw => absurd hw hnot)
      (fun hw => absurd hw hnot) fun _ => hall
    rw [List.getElem?_map, hi]
    rfl

end Invariant

section Runs

variable {a : RwtAccount} {s s' : RwtState σ} {es : List RwtEvent} {nrThreads : ℕ} {d : σ}
  {malloc : ℕ → Option RwtObjTodo} {stOid : MioObjId} {nrObjs : ℤ} {bs bc : UInt32}

/-- The start of a run with lists that have been set up. -/
theorem rwtInv_start (hinit : (rwtTodoListsInit malloc stOid nrObjs bs bc).1 = true) :
    RwtInv nrThreads (mioRwtStart nrThreads (rwtTodoListsInit malloc stOid nrObjs bs bc) d) := by
  rcases rwtTodoListsInit_cases malloc stOid nrObjs bs bc with ⟨todos, heq, -, -⟩ | ⟨k, -, heq⟩
  · rw [heq]
    have hnotin : ∀ {pc : RwtReader}, pc ∈ List.replicate nrThreads RwtReader.take →
        pc = .take := fun hpc => List.eq_of_mem_replicate hpc
    have hnotin' : ∀ {pc : RwtWriter}, pc ∈ List.replicate nrThreads RwtWriter.take →
        pc = .take := fun hpc => List.eq_of_mem_replicate hpc
    refine ⟨⟨rfl, le_rfl, le_rfl⟩, ⟨rfl, le_rfl, le_rfl⟩, List.length_replicate,
      List.length_replicate, fun hpc => ?_, fun hpc => ?_, fun hpc => ?_, fun hpc => ?_,
      fun hpc => ?_, fun pc hpc hleaving => ?_⟩
    · exact absurd (hnotin' hpc) (by simp)
    · exact absurd (hnotin hpc) (by simp)
    · rcases hpc with hpc | hpc
      · exact absurd (hnotin' hpc) (by simp)
      · exact absurd (hnotin' hpc) (by simp)
    · exact absurd (hnotin hpc) (by simp)
    · exact absurd (hnotin hpc) (by simp)
    · rw [hnotin hpc] at hleaving
      exact hleaving.elim
  · rw [heq] at hinit
    exact absurd hinit (by simp)

/-- Of a list that has been set up, how many objects are on it. -/
theorem length_init (hinit : (rwtTodoListsInit malloc stOid nrObjs bs bc).1 = true) :
    (rwtTodoListsInit malloc stOid nrObjs bs bc).2.1.otlHead.map RwtObjTodo.otOid =
        (rwtOids stOid nrObjs).reverse ∧
      (rwtTodoListsInit malloc stOid nrObjs bs bc).2.1.otlHead.length = nrObjs.toNat := by
  rcases rwtTodoListsInit_cases malloc stOid nrObjs bs bc with ⟨todos, heq, hoids, -⟩ | ⟨k, -, heq⟩
  · rw [heq]
    refine ⟨hoids, ?_⟩
    have hlength := congrArg List.length hoids
    simpa [rwtOids] using hlength
  · rw [heq] at hinit
    exact absurd hinit (by simp)

/-- A write whose code is positive loses the object. -/
def posRc (rc : ℤ) : Bool := decide (0 < rc)

/-- All objects. -/
def anyOid (_ : MioObjId) : Bool := true

/-- **What a number counts** has happened, but for what is still to be counted. -/
theorem number_run (number : RwtObjTodoList → ℤ) (put verify : RwtObjTodo → ℤ → ℤ)
    (p : RwtEvent → Bool)
    (hput : ∀ todo rc l, number (rwtWriterPut todo rc l) = number l + put todo rc)
    (htake : ∀ l, number (rwtReaderTake l).2 = number l)
    (hverify : ∀ todo rc l, number (rwtReaderVerify todo rc l).2 = number l + verify todo rc)
    (hworth : ∀ e, (numberAccount number put verify).worth e = -if p e then 1 else 0)
    (hrun : Run (RwtStep io) (mioRwtStart nrThreads
      (rwtTodoListsInit malloc stOid nrObjs bs bc) d) es s) :
    number s.objToReadList + (s.writers.map (numberAccount number put verify).writer).sum +
      (s.readers.map (numberAccount number put verify).reader).sum =
        number (.new nrObjs) + es.countP p := by
  have hrun := (even_number hput htake hverify).run (p := fun _ => false) (q := p)
    (fun e => by rw [hworth]; simp) rfl rfl hrun
  rw [empty_init, List.countP_false, Function.const_apply, RwtAccount.total] at hrun
  simp only [numberAccount] at hrun ⊢
  omega

/-- Taking an object changes no number but one. -/
theorem rwtReaderTake_numbers (l : RwtObjTodoList) :
    (rwtReaderTake l).2.otlNrTodo = l.otlNrTodo ∧ (rwtReaderTake l).2.otlNrDone = l.otlNrDone ∧
      (rwtReaderTake l).2.otlNrFailed = l.otlNrFailed ∧
        (rwtReaderTake l).2.otlNrMatched = l.otlNrMatched := by
  rcases rwtReaderTake_cases l with
    ⟨-, -, h⟩ | ⟨-, -, h⟩ | ⟨-, -, h⟩ | ⟨-, todo, next, -, h⟩ <;> rw [h] <;>
    exact ⟨rfl, rfl, rfl, rfl⟩

/-- The number of objects to do stays as it is. -/
theorem nrTodo_run (hrun : Run (RwtStep io) (mioRwtStart nrThreads
      (rwtTodoListsInit malloc stOid nrObjs bs bc) d) es s) :
    s.objToReadList.otlNrTodo = nrObjs := by
  have hput : ∀ todo rc l, (rwtWriterPut todo rc l).otlNrTodo = l.otlNrTodo + 0 := by
    intro todo rc l
    rw [rwtWriterPut]
    split
    · exact (Int.add_zero _).symm
    · split <;> exact (Int.add_zero _).symm
  have hverify : ∀ todo rc l, (rwtReaderVerify todo rc l).2.otlNrTodo = l.otlNrTodo + 0 := by
    intro todo rc l
    rw [rwtReaderVerify]
    split <;> exact (Int.add_zero _).symm
  have hrun := number_run RwtObjTodoList.otlNrTodo (fun _ _ => 0) (fun _ _ => 0) (fun _ => false)
    hput (fun l => (rwtReaderTake_numbers l).1) hverify (fun e => by cases e <;> rfl) hrun
  have hwriter : ∀ pc, (numberAccount RwtObjTodoList.otlNrTodo (fun _ _ => 0)
      fun _ _ => 0).writer pc = 0 := fun pc => by cases pc <;> rfl
  have hreader : ∀ pc, (numberAccount RwtObjTodoList.otlNrTodo (fun _ _ => 0)
      fun _ _ => 0).reader pc = 0 := fun pc => by cases pc <;> rfl
  rw [sum_map_eq_zero fun pc _ => hwriter pc, sum_map_eq_zero fun pc _ => hreader pc] at hrun
  simpa [RwtObjTodoList.new] using hrun

/-- All objects are done, pending, or lost. -/
theorem objects_run (hinit : (rwtTodoListsInit malloc stOid nrObjs bs bc).1 = true)
    (hrun : Run (RwtStep io) (mioRwtStart nrThreads
      (rwtTodoListsInit malloc stOid nrObjs bs bc) d) es s) :
    s.pending + s.objToReadList.otlNrDone + s.objToReadList.otlNrFailed +
      es.countP (RwtEvent.writes posRc anyOid) = nrObjs.toNat := by
  have hrun := even_objects.run (p := RwtEvent.writes posRc anyOid) (q := fun _ => false)
    (fun e => by
      cases e with
      | write i todo rc =>
        simp only [RwtAccount.worth, objectsAccount, RwtEvent.writes, posRc, anyOid,
          Bool.and_true, decide_eq_true_eq]
        split <;> split <;> simp <;> omega
      | _ => simp [RwtAccount.worth, objectsAccount, RwtEvent.writes])
    rfl rfl hrun
  rw [total_objects, List.countP_false, empty_init] at hrun
  simp only [objectsAccount, (length_init hinit).2] at hrun
  simpa [RwtObjTodoList.new] using hrun

/-- **The invariant of all runs.** -/
theorem rwtInv_of_run (hinit : (rwtTodoListsInit malloc stOid nrObjs bs bc).1 = true)
    (hrun : Run (RwtStep io) (mioRwtStart nrThreads
      (rwtTodoListsInit malloc stOid nrObjs bs bc) d) es s) : RwtInv nrThreads s := by
  induction hrun with
  | refl => exact rwtInv_start hinit
  | @snoc es t u e hbefore hstep ih =>
    refine rwtInv_step ih (fun hall => ?_) hstep
    have htodo := nrTodo_run hbefore
    have hobjects := objects_run hinit hbefore
    have hpending := (le_pending t).2.2
    have hdone := ih.toRead.done
    have hfailed := ih.toRead.failed
    rw [RwtObjTodoList.AllDone] at hall
    omega

/-! ### How long it takes -/

/-- What a writer has left to do, with so many readers to wake up. -/
def RwtWriter.rank (nrReaders : ℕ) : RwtWriter → ℕ
  | .write _ => 2 * nrReaders + 8
  | .put _ _ => 2 * nrReaders + 7
  | .take => nrReaders + 2
  | .exit => nrReaders + 1
  | .ended | .abort => 0

/-- What a reader has left to do, with so many readers to wake up. -/
def RwtReader.rank (nrReaders : ℕ) : RwtReader → ℕ
  | .read _ => nrReaders + 6
  | .verify _ _ => nrReaders + 5
  | .remove _ _ => nrReaders + 4
  | .take => nrReaders + 3
  | .wait => nrReaders + 2
  | .exit => nrReaders + 1
  | .ended | .null => 0

/-- What is left to do. -/
def RwtState.rank (s : RwtState σ) : ℕ :=
  s.objToWriteList.otlHead.length * (s.readers.length + 7) + s.objToReadList.otlHead.length * 4 +
    (s.writers.map (RwtWriter.rank s.readers.length)).sum +
      (s.readers.map (RwtReader.rank s.readers.length)).sum

/-- A wait ends without a signal. -/
def RwtEvent.isSpurious : RwtEvent → Bool
  | .spurious _ => true
  | .writer _ | .write _ _ _ | .reader _ | .read _ _ _ | .remove _ _ => false

theorem sum_rank_wake (n : ℕ) (readers : List RwtReader) :
    ((readers.map .wake).map (RwtReader.rank n)).sum ≤
      (readers.map (RwtReader.rank n)).sum + readers.length := by
  refine (sum_map_map_le readers (c := 1) fun pc => ?_).trans (by omega)
  cases pc <;> simp [RwtReader.wake, RwtReader.rank]

/-- **Every step gets something done**, but for a wait that ends without a signal. -/
theorem rwtRanked : Ranked (RwtStep io) RwtState.rank RwtEvent.isSpurious 2 := by
  intro s e t hstep
  cases hstep with
  | writerTake hi =>
    have hset := sum_map_set hi (rwtWriterTake s.objToWriteList).1
      (RwtWriter.rank s.readers.length)
    simp only [RwtState.rank, RwtEvent.isSpurious]
    rcases rwtWriterTake_cases s.objToWriteList with ⟨-, h⟩ | ⟨-, -, h⟩ | ⟨-, todo, next, hhead, h⟩
    · rw [h] at hset ⊢
      simp only [RwtWriter.rank] at hset ⊢
      omega
    · rw [h] at hset ⊢
      simp only [RwtWriter.rank] at hset ⊢
      omega
    · rw [h] at hset ⊢
      simp only [RwtWriter.rank, hhead, List.length_cons, Nat.succ_mul] at hset ⊢
      omega
  | @write i todo rc md5sum d hi hd =>
    have hset := sum_map_set hi (.put { todo with otMd5sumWrite := md5sum } rc)
      (RwtWriter.rank s.readers.length)
    simp only [RwtState.rank, RwtEvent.isSpurious, RwtWriter.rank] at hset ⊢
    omega
  | @writerPut i todo rc hi =>
    have hset := sum_map_set hi .take (RwtWriter.rank s.readers.length)
    have hwake := sum_rank_wake s.readers.length s.readers
    have hput : (rwtWriterPut todo rc s.objToReadList).otlHead.length ≤
        s.objToReadList.otlHead.length + 1 := by
      rw [rwtWriterPut]
      split
      · exact le_rfl
      · split <;> exact Nat.le_succ _
    simp only [RwtState.rank, RwtEvent.isSpurious, RwtWriter.rank, List.length_map] at hset ⊢
    omega
  | writerExit hi =>
    have hset := sum_map_set hi .ended (RwtWriter.rank s.readers.length)
    have hwake := sum_rank_wake s.readers.length s.readers
    simp only [RwtState.rank, RwtEvent.isSpurious, RwtWriter.rank, List.length_map] at hset ⊢
    omega
  | readerTake hi =>
    have hset := sum_map_set hi (rwtReaderTake s.objToReadList).1
      (RwtReader.rank s.readers.length)
    simp only [RwtState.rank, RwtEvent.isSpurious, List.length_set]
    rcases rwtReaderTake_cases s.objToReadList with
      ⟨-, -, h⟩ | ⟨-, -, h⟩ | ⟨-, -, h⟩ | ⟨-, todo, next, hhead, h⟩
    · rw [h] at hset ⊢
      simp only [RwtReader.rank] at hset ⊢
      omega
    · rw [h] at hset ⊢
      simp only [RwtReader.rank] at hset ⊢
      omega
    · rw [h] at hset ⊢
      simp only [RwtReader.rank] at hset ⊢
      omega
    · rw [h] at hset ⊢
      simp only [RwtReader.rank, hhead, List.length_cons] at hset ⊢
      omega
  | spurious hi =>
    have hset := sum_map_set hi .take (RwtReader.rank s.readers.length)
    simp only [RwtState.rank, RwtEvent.isSpurious, RwtReader.rank, List.length_set,
      if_true] at hset ⊢
    omega
  | @read i todo rc md5sum d hi hd =>
    have hset := sum_map_set hi (.verify { todo with otMd5sumRead := md5sum } rc)
      (RwtReader.rank s.readers.length)
    simp only [RwtState.rank, RwtEvent.isSpurious, RwtReader.rank, List.length_set] at hset ⊢
    omega
  | @readerVerify i todo rc hi =>
    obtain ⟨readAllDone, hpc, -⟩ := exists_rwtReaderVerify todo rc s.objToReadList
    have hset := sum_map_set hi (.remove todo readAllDone) (RwtReader.rank s.readers.length)
    have hhead : (rwtReaderVerify todo rc s.objToReadList).2.otlHead =
        s.objToReadList.otlHead := by
      rw [rwtReaderVerify]
      split <;> rfl
    simp only [RwtState.rank, RwtEvent.isSpurious, hpc, hhead, RwtReader.rank,
      List.length_set] at hset ⊢
    omega
  | @remove i todo readAllDone d hi hd =>
    have hset := sum_map_set hi (if readAllDone then .exit else .take)
      (RwtReader.rank s.readers.length)
    cases readAllDone <;>
      simp only [RwtState.rank, RwtEvent.isSpurious, RwtReader.rank, List.length_set, if_true,
        Bool.false_eq_true, if_false] at hset ⊢ <;>
      omega
  | @readerExit i hi =>
    have hset := sum_map_set hi .ended (RwtReader.rank s.readers.length)
    have hwake := sum_rank_wake s.readers.length (s.readers.set i .ended)
    simp only [RwtState.rank, RwtEvent.isSpurious, RwtReader.rank, List.length_set,
      List.length_map] at hset hwake ⊢
    omega

/-! ### To the end -/

/-- All threads are over. -/
def RwtState.Ended (s : RwtState σ) : Prop :=
  (∀ pc ∈ s.writers, pc = .ended) ∧ ∀ pc ∈ s.readers, pc = .ended

variable (io) in
/-- What threads do with objects, they can do. -/
structure RwtState.Live (s : RwtState σ) : Prop where
  /-- `rwt_obj_write` returns. -/
  write : ∀ todo, .write todo ∈ s.writers → ∃ rc md5sum d, io.write todo s.data rc md5sum d
  /-- `rwt_obj_read` returns. -/
  read : ∀ todo, .read todo ∈ s.readers → ∃ rc md5sum d, io.read todo s.data rc md5sum d
  /-- `obj_rm` returns. -/
  remove : ∀ todo readAllDone, .remove todo readAllDone ∈ s.readers → ∃ d, io.remove todo s.data d

/-- An object could not be written or read. -/
def RwtEvent.fails : RwtEvent → Bool
  | .write _ _ rc => negRc rc
  | .read _ _ rc => negRc rc
  | .writer _ | .reader _ | .remove _ _ | .spurious _ => false

/-- An object has been read, and the two digests are the same. -/
def RwtEvent.matched : RwtEvent → Bool
  | .read _ todo rc => nonnegRc rc && rwtObjVerifyMd5sums todo
  | .writer _ | .write _ _ _ | .reader _ | .remove _ _ | .spurious _ => false

/-- What `rwt_report` is to say, and what it tells of. -/
structure RwtReport (stOid : MioObjId) (nrObjs : ℤ) (es : List RwtEvent) (s : RwtState σ) :
    Prop where
  /-- `otl_nr_todo`. -/
  todo : s.objToReadList.otlNrTodo = nrObjs
  /-- `otl_nr_done`. -/
  done : s.objToReadList.otlNrDone = es.countP (RwtEvent.reads nonnegRc anyOid)
  /-- `otl_nr_failed`. -/
  failed : s.objToReadList.otlNrFailed = es.countP RwtEvent.fails
  /-- `otl_nr_matched`. -/
  matched : s.objToReadList.otlNrMatched = es.countP RwtEvent.matched
  /-- All objects are done or have failed. -/
  all : s.objToReadList.AllDone
  /-- Every object has been written, and if this has not failed, has been read and then
  removed. -/
  once : ∀ oid ∈ rwtOids stOid nrObjs,
    es.countP (RwtEvent.writes anyRc (· == oid)) = 1 ∧
    es.countP (RwtEvent.reads anyRc (· == oid)) =
      es.countP (RwtEvent.writes zeroRc (· == oid)) ∧
    es.countP (RwtEvent.removes (· == oid)) = es.countP (RwtEvent.reads anyRc (· == oid))

/-- When all threads are over, nothing is left in an account but what is on the lists. -/
theorem RwtState.Ended.total (hend : s.Ended) (hwriter : a.writer .ended = 0)
    (hreader : a.reader .ended = 0) :
    a.total s = a.toWrite s.objToWriteList + a.toRead s.objToReadList := by
  rw [RwtAccount.total, sum_map_eq_zero fun pc hpc => by rw [hend.1 pc hpc, hwriter],
    sum_map_eq_zero fun pc hpc => by rw [hend.2 pc hpc, hreader], Int.add_zero, Int.add_zero]

/-- When all threads are over, a number is what has happened. -/
theorem RwtState.Ended.number (hend : s.Ended) (number : RwtObjTodoList → ℤ)
    (put verify : RwtObjTodo → ℤ → ℤ) (p : RwtEvent → Bool)
    (hput : ∀ todo rc l, number (rwtWriterPut todo rc l) = number l + put todo rc)
    (htake : ∀ l, number (rwtReaderTake l).2 = number l)
    (hverify : ∀ todo rc l, number (rwtReaderVerify todo rc l).2 = number l + verify todo rc)
    (hworth : ∀ e, (numberAccount number put verify).worth e = -if p e then 1 else 0)
    (hzero : number (.new nrObjs) = 0)
    (hrun : Run (RwtStep io) (mioRwtStart nrThreads
      (rwtTodoListsInit malloc stOid nrObjs bs bc) d) es s) :
    number s.objToReadList = es.countP p := by
  have hrun := number_run number put verify p hput htake hverify hworth hrun
  rw [sum_map_eq_zero fun pc hpc => by rw [hend.1 pc hpc]; rfl,
    sum_map_eq_zero fun pc hpc => by rw [hend.2 pc hpc]; rfl, hzero] at hrun
  omega

/-- The numbers of objects that are done, that have failed, and that have matched. -/
theorem RwtState.Ended.numbers (hend : s.Ended) (hrun : Run (RwtStep io) (mioRwtStart nrThreads
      (rwtTodoListsInit malloc stOid nrObjs bs bc) d) es s) :
    s.objToReadList.otlNrDone = es.countP (RwtEvent.reads nonnegRc anyOid) ∧
      s.objToReadList.otlNrFailed = es.countP RwtEvent.fails ∧
      s.objToReadList.otlNrMatched = es.countP RwtEvent.matched := by
  refine ⟨?_, ?_, ?_⟩
  · refine hend.number RwtObjTodoList.otlNrDone (fun _ _ => 0)
      (fun _ rc => if rc < 0 then 0 else 1) _ (fun todo rc l => ?_)
      (fun l => (rwtReaderTake_numbers l).2.1) (fun todo rc l => ?_) (fun e => ?_) rfl hrun
    · rw [rwtWriterPut]
      split
      · exact (Int.add_zero _).symm
      · split <;> exact (Int.add_zero _).symm
    · rw [rwtReaderVerify]
      split
      · exact (Int.add_zero _).symm
      · rfl
    · cases e with
      | read i todo rc =>
        simp only [RwtAccount.worth, numberAccount, RwtEvent.reads, nonnegRc, anyOid,
          Bool.and_true, decide_eq_true_eq]
        split <;> split <;> simp <;> omega
      | _ => rfl
  · refine hend.number RwtObjTodoList.otlNrFailed (fun _ rc => if rc < 0 then 1 else 0)
      (fun _ rc => if rc < 0 then 1 else 0) _ (fun todo rc l => ?_)
      (fun l => (rwtReaderTake_numbers l).2.2.1) (fun todo rc l => ?_) (fun e => ?_) rfl hrun
    · rw [rwtWriterPut]
      split
      · next hzero => rw [hzero, if_neg (lt_irrefl _), Int.add_zero]
      · split
        · rfl
        · exact (Int.add_zero _).symm
    · rw [rwtReaderVerify]
      split
      · rfl
      · exact (Int.add_zero _).symm
    · cases e <;> simp [RwtAccount.worth, numberAccount, RwtEvent.fails, negRc]
  · refine hend.number RwtObjTodoList.otlNrMatched (fun _ _ => 0)
      (fun todo rc => if rc < 0 then 0 else if rwtObjVerifyMd5sums todo then 1 else 0) _
      (fun todo rc l => ?_) (fun l => (rwtReaderTake_numbers l).2.2.2) (fun todo rc l => ?_)
      (fun e => ?_) rfl hrun
    · rw [rwtWriterPut]
      split
      · exact (Int.add_zero _).symm
      · split <;> exact (Int.add_zero _).symm
    · rw [rwtReaderVerify]
      split
      · exact (Int.add_zero _).symm
      · simp only
        split <;> omega
    · cases e with
      | read i todo rc =>
        simp only [RwtAccount.worth, numberAccount, RwtEvent.matched, nonnegRc,
          Bool.and_eq_true, decide_eq_true_eq, ← Int.not_lt, ite_and]
        by_cases hneg : rc < 0 <;> simp [hneg]
      | _ => rfl

/-- **The report is true**, once all threads are over. -/
theorem rwtReport_of_ended (hinit : (rwtTodoListsInit malloc stOid nrObjs bs bc).1 = true)
    (hthreads : 0 < nrThreads) (hnr : nrObjs ≤ 2 ^ 64)
    (hrun : Run (RwtStep io) (mioRwtStart nrThreads
      (rwtTodoListsInit malloc stOid nrObjs bs bc) d) es s) (hend : s.Ended) :
    RwtReport stOid nrObjs es s := by
  have hinv := rwtInv_of_run hinit hrun
  have htodo := nrTodo_run hrun
  have hobjects := objects_run hinit hrun
  have hpending := (le_pending s).2.2
  obtain ⟨hdone, hfailed, hmatched⟩ := hend.numbers hrun
  -- some reader has seen that all objects are done, and some writer that none is left
  have hreader : RwtReader.ended ∈ s.readers := by
    have hmem := List.getElem_mem (lt_of_lt_of_eq hthreads hinv.nrReaders.symm)
    rwa [hend.2 _ hmem] at hmem
  have hwriter : RwtWriter.ended ∈ s.writers := by
    have hmem := List.getElem_mem (lt_of_lt_of_eq hthreads hinv.nrWriters.symm)
    rwa [hend.1 _ hmem] at hmem
  have hall : s.objToReadList.AllDone := hinv.left _ hreader trivial
  have hwritten : s.objToWriteList.otlHead = [] := by
    have hzero := hinv.exit (Or.inr hwriter)
    rw [hinv.toWrite.length] at hzero
    exact List.eq_nil_of_length_eq_zero (by omega)
  have hread : s.objToReadList.otlHead = [] := by
    have hnonneg := hinv.toRead.done
    have hnonneg' := hinv.toRead.failed
    have hle : s.pending = 0 := by
      rw [RwtObjTodoList.AllDone] at hall
      omega
    rw [RwtState.pending, sum_map_eq_zero fun pc hpc => by rw [hend.1 pc hpc]; rfl,
      sum_map_eq_zero fun pc hpc => by rw [hend.2 pc hpc]; rfl] at hle
    exact List.eq_nil_of_length_eq_zero (by omega)
  have hempty : (rwtTodoListsInit malloc stOid nrObjs bs bc).2.2.otlHead = [] := by
    rw [empty_init]
    rfl
  refine ⟨htodo, hdone, hfailed, hmatched, hall, fun oid hoid => ?_⟩
  have h1 := unwritten_run hrun (· == oid)
  have h2 := unread_run hrun hempty (· == oid)
  have h3 := unremoved_run hrun (· == oid)
  rw [hend.total rfl rfl] at h1 h2 h3
  have hcount := List.count_eq_one_of_mem (nodup_rwtOids stOid hnr) hoid
  rw [(length_init hinit).1, List.countP_reverse, ← List.count, hcount] at h1
  simp only [unwrittenAccount, unreadAccount, unremovedAccount, hwritten, hread, weightOf,
    List.map_nil, List.sum_nil] at h1 h2 h3
  omega

/-- **Nobody is stuck**: until all threads are over, some thread can go on, and not only
because its wait ends without a signal. -/
theorem RwtInv.progress (hinv : RwtInv nrThreads s) (hlive : s.Live io)
    (hall : s.pending = 0 → s.objToReadList.AllDone) :
    s.Ended ∨ ∃ e t, e.isSpurious = false ∧ RwtStep io s e t := by
  by_cases hgo : ∃ e t, e.isSpurious = false ∧ RwtStep io s e t
  · exact Or.inr hgo
  -- what a thread is that cannot go on
  have hwriters : ∀ pc ∈ s.writers, pc = .ended := by
    intro pc hpc
    obtain ⟨i, hi⟩ := List.mem_iff_getElem?.mp hpc
    cases pc with
    | take => exact absurd ⟨_, _, rfl, .writerTake hi⟩ hgo
    | write todo =>
      obtain ⟨rc, md5sum, d', hd⟩ := hlive.write todo hpc
      exact absurd ⟨_, _, rfl, .write hi hd⟩ hgo
    | put todo rc => exact absurd ⟨_, _, rfl, .writerPut hi⟩ hgo
    | exit => exact absurd ⟨_, _, rfl, .writerExit hi⟩ hgo
    | ended => rfl
    | abort => exact absurd hpc hinv.noAbort
  have hreaders : ∀ pc ∈ s.readers, pc = .ended ∨ pc = .wait := by
    intro pc hpc
    obtain ⟨i, hi⟩ := List.mem_iff_getElem?.mp hpc
    cases pc with
    | take => exact absurd ⟨_, _, rfl, .readerTake hi⟩ hgo
    | wait => exact Or.inr rfl
    | read todo =>
      obtain ⟨rc, md5sum, d', hd⟩ := hlive.read todo hpc
      exact absurd ⟨_, _, rfl, .read hi hd⟩ hgo
    | verify todo rc => exact absurd ⟨_, _, rfl, .readerVerify hi⟩ hgo
    | remove todo readAllDone =>
      obtain ⟨d', hd⟩ := hlive.remove todo readAllDone hpc
      exact absurd ⟨_, _, rfl, .remove hi hd⟩ hgo
    | exit => exact absurd ⟨_, _, rfl, .readerExit hi⟩ hgo
    | ended => exact Or.inl rfl
    | null => exact absurd hpc hinv.noNull
  refine Or.inl ⟨hwriters, fun pc hpc => (hreaders pc hpc).resolve_right ?_⟩
  rintro rfl
  -- a reader that waits would have been woken up
  have hwriter : 0 < s.writers.length := by
    rw [hinv.nrWriters, ← hinv.nrReaders]
    exact List.length_pos_of_mem hpc
  have hended : RwtWriter.ended ∈ s.writers := by
    have hmem := List.getElem_mem hwriter
    rwa [hwriters _ hmem] at hmem
  have hnone : s.pending = 0 := by
    have h1 := hinv.exit (Or.inr hended)
    have h2 := hinv.wait hpc
    rw [hinv.toWrite.length] at h1
    rw [hinv.toRead.length] at h2
    rw [RwtState.pending, h1, h2, sum_map_eq_zero fun pc hpc => by rw [hwriters pc hpc]; rfl,
      sum_map_eq_zero fun pc hpc => by rcases hreaders pc hpc with rfl | rfl <;> rfl]
    rfl
  obtain ⟨pc, hpc, hawake⟩ := hinv.woken hpc (hall hnone)
  rcases hreaders pc hpc with rfl | rfl
  · exact hawake.elim
  · exact hawake.elim

/-- When nothing is pending and nothing has been lost, all objects have been counted. -/
theorem allDone_of_pending (hinit : (rwtTodoListsInit malloc stOid nrObjs bs bc).1 = true)
    (hnonneg : 0 ≤ nrObjs) (hrun : Run (RwtStep io) (mioRwtStart nrThreads
      (rwtTodoListsInit malloc stOid nrObjs bs bc) d) es s)
    (hlost : ∀ e ∈ es, RwtEvent.writes posRc anyOid e = false) (hpending : s.pending = 0) :
    s.objToReadList.AllDone := by
  have hobjects := objects_run hinit hrun
  have htodo := nrTodo_run hrun
  have hnone : es.countP (RwtEvent.writes posRc anyOid) = 0 :=
    List.countP_eq_zero.mpr fun e he => Bool.eq_false_iff.mp (hlost e he)
  rw [RwtObjTodoList.AllDone]
  omega

/-- What there is when the lists could not be set up. -/
structure RwtUnset (nrObjs : ℤ) (s : RwtState σ) : Prop where
  /-- Nothing is to be written. -/
  toWrite : s.objToWriteList.otlHead = []
  /-- Nothing is to be read. -/
  toRead : s.objToReadList = .new nrObjs
  /-- The writers. -/
  writers : ∀ pc ∈ s.writers, pc = .take ∨ pc = .exit ∨ pc = .ended ∨ pc = .abort
  /-- The readers. -/
  readers : ∀ pc ∈ s.readers, pc = .take ∨ pc = .wait

/-- Threads that have nothing to do find nothing. -/
theorem rwtUnset_step {e : RwtEvent} (h : RwtUnset nrObjs s) (hpos : 0 < nrObjs)
    (hstep : RwtStep io s e s') : RwtUnset nrObjs s' := by
  have hset : ∀ {i : ℕ} {q : RwtWriter}, (q = .take ∨ q = .exit ∨ q = .ended ∨ q = .abort) →
      ∀ pc ∈ s.writers.set i q, pc = .take ∨ pc = .exit ∨ pc = .ended ∨ pc = .abort := by
    intro i q hq pc hpc
    rcases List.mem_or_eq_of_mem_set hpc with hpc | rfl
    · exact h.writers pc hpc
    · exact hq
  have hwake : ∀ pc ∈ s.readers.map RwtReader.wake, pc = .take ∨ pc = .wait := by
    intro pc hpc
    rcases (mem_wake hpc).2 with rfl | hpc
    · exact Or.inl rfl
    · exact h.readers pc hpc
  have hsetr : ∀ {i : ℕ} {q : RwtReader}, (q = .take ∨ q = .wait) →
      ∀ pc ∈ s.readers.set i q, pc = .take ∨ pc = .wait := by
    intro i q hq pc hpc
    rcases List.mem_or_eq_of_mem_set hpc with hpc | rfl
    · exact h.readers pc hpc
    · exact hq
  cases hstep with
  | writerTake hi =>
    rcases rwtWriterTake_cases s.objToWriteList with ⟨-, hl⟩ | ⟨-, -, hl⟩ | ⟨-, todo, next, hl, -⟩
    · rw [hl]
      exact ⟨h.toWrite, h.toRead, hset (by simp), h.readers⟩
    · rw [hl]
      exact ⟨h.toWrite, h.toRead, hset (by simp), h.readers⟩
    · exact absurd (h.toWrite.symm.trans hl) (by simp)
  | writerExit hi => exact ⟨h.toWrite, h.toRead, hset (by simp), hwake⟩
  | readerTake hi =>
    have hl : rwtReaderTake s.objToReadList = (.wait, s.objToReadList) := by
      have hne : ¬(0 + 0 : ℤ) = nrObjs := by omega
      rw [h.toRead, rwtReaderTake, RwtObjTodoList.new, if_pos rfl, if_neg hne]
    rw [hl]
    exact ⟨h.toWrite, h.toRead, h.writers, hsetr (Or.inr rfl)⟩
  | spurious hi => exact ⟨h.toWrite, h.toRead, h.writers, hsetr (Or.inl rfl)⟩
  | write hi hd => exact absurd (h.writers _ (List.mem_of_getElem? hi)) (by simp)
  | writerPut hi => exact absurd (h.writers _ (List.mem_of_getElem? hi)) (by simp)
  | read hi hd => exact absurd (h.readers _ (List.mem_of_getElem? hi)) (by simp)
  | readerVerify hi => exact absurd (h.readers _ (List.mem_of_getElem? hi)) (by simp)
  | remove hi hd => exact absurd (h.readers _ (List.mem_of_getElem? hi)) (by simp)
  | readerExit hi => exact absurd (h.readers _ (List.mem_of_getElem? hi)) (by simp)

/-- **No reader is over too early**, and some never are: if one is, then the lists have been
set up, no write has returned a positive code, and all objects have been counted. -/
theorem rwt_over (hrun : Run (RwtStep io) (mioRwtStart nrThreads
      (rwtTodoListsInit malloc stOid nrObjs bs bc) d) es s)
    (hover : RwtReader.exit ∈ s.readers ∨ RwtReader.ended ∈ s.readers) :
    (rwtTodoListsInit malloc stOid nrObjs bs bc).1 = true ∧ 0 ≤ nrObjs ∧
      (∀ e ∈ es, RwtEvent.writes posRc anyOid e = false) ∧
      s.objToReadList.otlNrDone + s.objToReadList.otlNrFailed = nrObjs := by
  rcases rwtTodoListsInit_cases malloc stOid nrObjs bs bc with ⟨todos, heq, -⟩ | ⟨k, hk, heq⟩
  · have hinit : (rwtTodoListsInit malloc stOid nrObjs bs bc).1 = true := by rw [heq]
    have hinv := rwtInv_of_run hinit hrun
    have htodo := nrTodo_run hrun
    have hobjects := objects_run hinit hrun
    have hpending := (le_pending s).2.2
    have hall : s.objToReadList.AllDone := by
      rcases hover with hpc | hpc
      · exact hinv.left _ hpc trivial
      · exact hinv.left _ hpc trivial
    have hdone := hinv.toRead.done
    have hfailed := hinv.toRead.failed
    rw [RwtObjTodoList.AllDone] at hall
    have hlost : es.countP (RwtEvent.writes posRc anyOid) = 0 := by omega
    exact ⟨hinit, by omega,
      fun e he => Bool.eq_false_iff.mpr (List.countP_eq_zero.mp hlost e he), by omega⟩
  · have hpos : 0 < nrObjs := by omega
    rw [heq] at hrun
    have hunset : RwtUnset nrObjs s := by
      refine hrun.inv (fun _ t => RwtUnset nrObjs t) ⟨rfl, rfl, fun pc hpc => ?_, fun pc hpc => ?_⟩
        fun _ _ _ _ h hstep => rwtUnset_step h hpos hstep
      · exact Or.inl (List.eq_of_mem_replicate hpc)
      · exact Or.inl (List.eq_of_mem_replicate hpc)
    rcases hover with hpc | hpc
    · exact absurd (hunset.readers _ hpc) (by simp)
    · exact absurd (hunset.readers _ hpc) (by simp)

end Runs

/-! ### An example -/

/-- Writes and reads that succeed. -/
def RwtIo.still : RwtIo Unit where
  write := fun _ _ rc md5sum _ => rc = 0 ∧ md5sum = .replicate _ 0
  read := fun _ _ rc md5sum _ => rc = 0 ∧ md5sum = .replicate _ 0
  remove := fun _ _ _ => True

/-- Memory for an object. -/
def RwtObjTodo.blank : RwtObjTodo := ⟨oidOf 0, 0, 0, .replicate _ 0, .replicate _ 0⟩

/-- The lists for one object. -/
def rwtListsOne : Bool × RwtObjTodoList × RwtObjTodoList :=
  rwtTodoListsInit (fun _ => some .blank) (oidOf 0) 1 4096 1

/-- One writer and one reader take one object all the way. -/
theorem exists_run_one : ∃ es s, Run (RwtStep .still) (mioRwtStart 1 rwtListsOne ()) es s ∧
    s.Ended ∧ RwtReader.ended ∈ s.readers ∧
      ∀ e ∈ es, RwtEvent.writes posRc anyOid e = false := by
  refine ⟨_, _, .snoc (.snoc (.snoc (.snoc (.snoc (.snoc (.snoc (.snoc (.snoc (.snoc .refl
    (.writerTake (i := 0) rfl)) (.write (i := 0) (d := ()) rfl ⟨rfl, rfl⟩))
    (.writerPut (i := 0) rfl)) (.readerTake (i := 0) rfl))
    (.read (i := 0) (d := ()) rfl ⟨rfl, rfl⟩)) (.readerVerify (i := 0) rfl))
    (.remove (i := 0) (d := ()) rfl trivial)) (.readerExit (i := 0) rfl))
    (.writerTake (i := 0) rfl)) (.writerExit (i := 0) rfl), ?_, ?_, ?_⟩
  · exact ⟨fun pc hpc => List.mem_singleton.mp hpc, fun pc hpc => List.mem_singleton.mp hpc⟩
  · exact List.mem_singleton.mpr rfl
  · intro e he
    simp at he
    rcases he with rfl | rfl | rfl | rfl | rfl | rfl | rfl | rfl | rfl | rfl <;> rfl

/-- The object goes through once. -/
theorem once_one : ∃ es s, Run (RwtStep .still) (mioRwtStart 1 rwtListsOne ()) es s ∧
    (∀ oid, es.countP (RwtEvent.writes anyRc (· == oid)) ≤
        (if oid ∈ rwtOids (oidOf 0) 1 then 1 else 0) ∧
      es.countP (RwtEvent.reads anyRc (· == oid)) ≤
        es.countP (RwtEvent.writes zeroRc (· == oid)) ∧
      es.countP (RwtEvent.removes (· == oid)) ≤ es.countP (RwtEvent.reads anyRc (· == oid))) ∧
    (s.held.map RwtObjTodo.otOid).Nodup := by
  obtain ⟨es, s, hrun, -⟩ := exists_run_one
  exact ⟨es, s, hrun, rwt_once (by decide) hrun⟩

/-- The reader is over, and so it should be. -/
theorem over_one : ∃ es s, Run (RwtStep .still) (mioRwtStart 1 rwtListsOne ()) es s ∧
    rwtListsOne.1 = true ∧ (0 : ℤ) ≤ 1 ∧ (∀ e ∈ es, RwtEvent.writes posRc anyOid e = false) ∧
    s.objToReadList.otlNrDone + s.objToReadList.otlNrFailed = 1 := by
  obtain ⟨es, s, hrun, -, hover, -⟩ := exists_run_one
  exact ⟨es, s, hrun, rwt_over hrun (Or.inr hover)⟩

end CortxMio
