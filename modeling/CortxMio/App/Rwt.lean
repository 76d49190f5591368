import CortxMio.Lib.Account
import CortxMio.App.IoThread

/-!
# Writers and readers

The example program `mio_rw_threads`. Writers take objects from one list, write them, and
put them on a second list; readers take them from there, read them back, compare the two
digests, and remove the object. The lists are only touched under their mutex, and what a
thread does between taking a mutex and letting it go is one step here; a reader that finds
nothing to read waits on a condition, and a wait may also end without a signal. What a write
and a read make of an object is left open (`CortxMio.RwtIo`).

What there is on the lists and with the threads is kept in accounts
(`CortxMio.RwtAccount`): what each thread keeps, the system keeps
(`CortxMio.RwtAccount.Even.balanced`).
-/

namespace CortxMio

open Lib

/-! ### The lists -/

/-- `struct rwt_obj_todo`. -/
structure RwtObjTodo where
  /-- `ot_oid`. -/
  otOid : MioObjId
  /-- `ot_block_size`. -/
  otBlockSize : UInt32
  /-- `ot_block_count`. -/
  otBlockCount : UInt32
  /-- `ot_md5sum_write`. -/
  otMd5sumWrite : Md5sum
  /-- `ot_md5sum_read`. -/
  otMd5sumRead : Md5sum
  deriving DecidableEq

/-- `struct rwt_obj_todo_list`, under its mutex. -/
structure RwtObjTodoList where
  /-- `otl_nr_in_list`. -/
  otlNrInList : ℤ
  /-- `otl_nr_todo`. -/
  otlNrTodo : ℤ
  /-- `otl_nr_done`. -/
  otlNrDone : ℤ
  /-- `otl_nr_failed`. -/
  otlNrFailed : ℤ
  /-- `otl_nr_matched`. -/
  otlNrMatched : ℤ
  /-- What is linked to `otl_head`. -/
  otlHead : List RwtObjTodo
  deriving DecidableEq

/-- `rwt_obj_verify_md5sums`. -/
def rwtObjVerifyMd5sums (todo : RwtObjTodo) : Bool := todo.otMd5sumWrite == todo.otMd5sumRead

/-- `rwt_set_obj_id`. -/
def rwtSetObjId (stOid : MioObjId) (idx : ℕ) : MioObjId :=
  let u1 := mioByteorderBe64ToCpu (stOid.moiBytes.take 8)
  let u2 := mioByteorderBe64ToCpu (stOid.moiBytes.drop 8)
  mioUint128ToObjId ⟨u1 + UInt64.ofNat idx, u2⟩

/-- An empty list. -/
def RwtObjTodoList.new (nrObjs : ℤ) : RwtObjTodoList := ⟨0, nrObjs, 0, 0, 0, []⟩

/-- The loop of `rwt_todo_lists_init`, from its `i`-th round on: `malloc` says whether there
is memory, and what is in it. -/
def rwtTodoListsFill (malloc : ℕ → Option RwtObjTodo) (stOid : MioObjId)
    (blockSize blockCount : UInt32) : ℕ → ℕ → RwtObjTodoList → Bool × RwtObjTodoList
  | 0, _, l => (true, l)
  | n + 1, i, l =>
      match malloc i with
      | none => (false, l)
      | some todo =>
          rwtTodoListsFill malloc stOid blockSize blockCount n (i + 1)
            { l with
              otlHead := { todo with
                otOid := rwtSetObjId stOid i
                otBlockSize := blockSize
                otBlockCount := blockCount } :: l.otlHead
              otlNrInList := l.otlNrInList + 1 }

/-- `rwt_todo_lists_fini` of a list: it is freed as far as it has been counted, and the
count stays. -/
def rwtTodoListFini (l : RwtObjTodoList) : RwtObjTodoList :=
  { l with otlHead := l.otlHead.drop l.otlNrInList.toNat }

/-- `rwt_todo_lists_init`: whether it succeeds, the list of objects to write and the one of
objects to read. -/
def rwtTodoListsInit (malloc : ℕ → Option RwtObjTodo) (stOid : MioObjId) (nrObjs : ℤ)
    (blockSize blockCount : UInt32) : Bool × RwtObjTodoList × RwtObjTodoList :=
  let (ok, toWrite) := rwtTodoListsFill malloc stOid blockSize blockCount nrObjs.toNat 0
    (.new nrObjs)
  let toRead : RwtObjTodoList := .new nrObjs
  if ok then (true, toWrite, toRead)
  else (false, rwtTodoListFini toWrite, rwtTodoListFini toRead)

/-! ### The threads -/

/-- Where a writer is. -/
inductive RwtWriter
  /-- At the head of its loop. -/
  | take
  /-- In `rwt_obj_write`. -/
  | write (todo : RwtObjTodo)
  /-- After it. -/
  | put (todo : RwtObjTodo) (rc : ℤ)
  /-- After its loop. -/
  | exit
  /-- It is over. -/
  | ended
  /-- It has run into its assertion. -/
  | abort
  deriving DecidableEq

/-- Where a reader is. -/
inductive RwtReader
  /-- At the head of its loop, or woken up. -/
  | take
  /-- It waits on the condition. -/
  | wait
  /-- In `rwt_obj_read`. -/
  | read (todo : RwtObjTodo)
  /-- After it. -/
  | verify (todo : RwtObjTodo) (rc : ℤ)
  /-- It is to remove the object and to free `todo`. -/
  | remove (todo : RwtObjTodo) (readAllDone : Bool)
  /-- After its loop. -/
  | exit
  /-- It is over. -/
  | ended
  /-- It has gone through a null pointer. -/
  | null
  deriving DecidableEq

/-- `rwt_writer`, where it takes an object. -/
def rwtWriterTake (l : RwtObjTodoList) : RwtWriter × RwtObjTodoList :=
  if l.otlNrInList = 0 then (.exit, l)
  else
    match l.otlHead with
    | [] => (.abort, l)
    | todo :: next => (.write todo, { l with otlHead := next, otlNrInList := l.otlNrInList - 1 })

/-- `rwt_writer`, where it hands the object on. -/
def rwtWriterPut (todo : RwtObjTodo) (rc : ℤ) (l : RwtObjTodoList) : RwtObjTodoList :=
  if rc = 0 then { l with otlHead := todo :: l.otlHead, otlNrInList := l.otlNrInList + 1 }
  else if rc < 0 then { l with otlNrFailed := l.otlNrFailed + 1 }
  else l

/-- `rwt_reader`, where it looks for an object. -/
def rwtReaderTake (l : RwtObjTodoList) : RwtReader × RwtObjTodoList :=
  if l.otlNrInList = 0 then
    if l.otlNrDone + l.otlNrFailed = l.otlNrTodo then (.exit, l) else (.wait, l)
  else
    match l.otlHead with
    | [] => (.null, l)
    | todo :: next => (.read todo, { l with otlHead := next, otlNrInList := l.otlNrInList - 1 })

/-- `rwt_reader`, where it counts the object: one that could not be read is not looked at to
see whether all are done. -/
def rwtReaderVerify (todo : RwtObjTodo) (rc : ℤ) (l : RwtObjTodoList) :
    RwtReader × RwtObjTodoList :=
  if rc < 0 then (.remove todo false, { l with otlNrFailed := l.otlNrFailed + 1 })
  else
    let l := { l with
      otlNrMatched := if rwtObjVerifyMd5sums todo then l.otlNrMatched + 1 else l.otlNrMatched
      otlNrDone := l.otlNrDone + 1 }
    (.remove todo (l.otlNrDone + l.otlNrFailed = l.otlNrTodo), l)

/-- `pthread_cond_broadcast`. -/
def RwtReader.wake : RwtReader → RwtReader
  | .wait => .take
  | pc => pc

/-- What a writer finds. -/
theorem rwtWriterTake_cases (l : RwtObjTodoList) :
    (l.otlNrInList = 0 ∧ rwtWriterTake l = (.exit, l)) ∨
      (l.otlNrInList ≠ 0 ∧ l.otlHead = [] ∧ rwtWriterTake l = (.abort, l)) ∨
      l.otlNrInList ≠ 0 ∧ ∃ todo next, l.otlHead = todo :: next ∧ rwtWriterTake l =
        (.write todo, { l with otlHead := next, otlNrInList := l.otlNrInList - 1 }) := by
  rw [rwtWriterTake]
  by_cases hzero : l.otlNrInList = 0
  · exact Or.inl ⟨hzero, if_pos hzero⟩
  · rw [if_neg hzero]
    cases hhead : l.otlHead with
    | nil => exact Or.inr (Or.inl ⟨hzero, rfl, rfl⟩)
    | cons todo next => exact Or.inr (Or.inr ⟨hzero, todo, next, rfl, rfl⟩)

/-- What a reader finds. -/
theorem rwtReaderTake_cases (l : RwtObjTodoList) :
    (l.otlNrInList = 0 ∧ l.otlNrDone + l.otlNrFailed = l.otlNrTodo ∧
        rwtReaderTake l = (.exit, l)) ∨
      (l.otlNrInList = 0 ∧ l.otlNrDone + l.otlNrFailed ≠ l.otlNrTodo ∧
        rwtReaderTake l = (.wait, l)) ∨
      (l.otlNrInList ≠ 0 ∧ l.otlHead = [] ∧ rwtReaderTake l = (.null, l)) ∨
      l.otlNrInList ≠ 0 ∧ ∃ todo next, l.otlHead = todo :: next ∧ rwtReaderTake l =
        (.read todo, { l with otlHead := next, otlNrInList := l.otlNrInList - 1 }) := by
  rw [rwtReaderTake]
  by_cases hzero : l.otlNrInList = 0
  · rw [if_pos hzero]
    by_cases hall : l.otlNrDone + l.otlNrFailed = l.otlNrTodo
    · exact Or.inl ⟨hzero, hall, if_pos hall⟩
    · exact Or.inr (Or.inl ⟨hzero, hall, if_neg hall⟩)
  · rw [if_neg hzero]
    cases hhead : l.otlHead with
    | nil => exact Or.inr (Or.inr (Or.inl ⟨hzero, rfl, rfl⟩))
    | cons todo next => exact Or.inr (Or.inr (Or.inr ⟨hzero, todo, next, rfl, rfl⟩))

/-- Where a reader goes on that has counted an object. -/
theorem exists_rwtReaderVerify (todo : RwtObjTodo) (rc : ℤ) (l : RwtObjTodoList) :
    ∃ readAllDone : Bool, (rwtReaderVerify todo rc l).1 = .remove todo readAllDone ∧
      (readAllDone → (rwtReaderVerify todo rc l).2.otlNrDone +
        (rwtReaderVerify todo rc l).2.otlNrFailed =
          (rwtReaderVerify todo rc l).2.otlNrTodo) := by
  rw [rwtReaderVerify]
  split
  · exact ⟨false, rfl, by simp⟩
  · exact ⟨_, rfl, fun h => of_decide_eq_true h⟩

/-! ### The system -/

/-- What there is. -/
structure RwtState (σ : Type*) where
  /-- `obj_to_write_list`. -/
  objToWriteList : RwtObjTodoList
  /-- `obj_to_read_list`. -/
  objToReadList : RwtObjTodoList
  /-- The writers. -/
  writers : List RwtWriter
  /-- The readers. -/
  readers : List RwtReader
  /-- What else there is. -/
  data : σ

/-- What the threads do with the objects. -/
structure RwtIo (σ : Type*) where
  /-- `rwt_obj_write`, with what it returns and the digest. -/
  write : RwtObjTodo → σ → ℤ → Md5sum → σ → Prop
  /-- `rwt_obj_read`, with what it returns and the digest. -/
  read : RwtObjTodo → σ → ℤ → Md5sum → σ → Prop
  /-- `obj_rm`. -/
  remove : RwtObjTodo → σ → σ → Prop

/-- What can happen. -/
inductive RwtEvent
  /-- A writer takes an object, hands one on, or comes to its end. -/
  | writer (i : ℕ)
  /-- It has written an object. -/
  | write (i : ℕ) (todo : RwtObjTodo) (rc : ℤ)
  /-- A reader looks for an object, counts one, or comes to its end. -/
  | reader (i : ℕ)
  /-- It has read an object. -/
  | read (i : ℕ) (todo : RwtObjTodo) (rc : ℤ)
  /-- It has removed an object. -/
  | remove (i : ℕ) (todo : RwtObjTodo)
  /-- A wait ends without a signal. -/
  | spurious (i : ℕ)
  deriving DecidableEq

variable {σ : Type*} (io : RwtIo σ)

/-- A step of one of the threads. -/
inductive RwtStep (s : RwtState σ) : RwtEvent → RwtState σ → Prop
  | writerTake {i : ℕ} (h : s.writers[i]? = some .take) :
      RwtStep s (.writer i)
        { s with
          writers := s.writers.set i (rwtWriterTake s.objToWriteList).1
          objToWriteList := (rwtWriterTake s.objToWriteList).2 }
  | write {i : ℕ} {todo : RwtObjTodo} {rc : ℤ} {md5sum : Md5sum} {d : σ}
      (h : s.writers[i]? = some (.write todo)) (hd : io.write todo s.data rc md5sum d) :
      RwtStep s (.write i { todo with otMd5sumWrite := md5sum } rc)
        { s with
          writers := s.writers.set i (.put { todo with otMd5sumWrite := md5sum } rc)
          data := d }
  | writerPut {i : ℕ} {todo : RwtObjTodo} {rc : ℤ} (h : s.writers[i]? = some (.put todo rc)) :
      RwtStep s (.writer i)
        { s with
          writers := s.writers.set i .take
          objToReadList := rwtWriterPut todo rc s.objToReadList
          readers := s.readers.map .wake }
  | writerExit {i : ℕ} (h : s.writers[i]? = some .exit) :
      RwtStep s (.writer i)
        { s with writers := s.writers.set i .ended, readers := s.readers.map .wake }
  | readerTake {i : ℕ} (h : s.readers[i]? = some .take) :
      RwtStep s (.reader i)
        { s with
          readers := s.readers.set i (rwtReaderTake s.objToReadList).1
          objToReadList := (rwtReaderTake s.objToReadList).2 }
  | spurious {i : ℕ} (h : s.readers[i]? = some .wait) :
      RwtStep s (.spurious i) { s with readers := s.readers.set i .take }
  | read {i : ℕ} {todo : RwtObjTodo} {rc : ℤ} {md5sum : Md5sum} {d : σ}
      (h : s.readers[i]? = some (.read todo)) (hd : io.read todo s.data rc md5sum d) :
      RwtStep s (.read i { todo with otMd5sumRead := md5sum } rc)
        { s with
          readers := s.readers.set i (.verify { todo with otMd5sumRead := md5sum } rc)
          data := d }
  | readerVerify {i : ℕ} {todo : RwtObjTodo} {rc : ℤ}
      (h : s.readers[i]? = some (.verify todo rc)) :
      RwtStep s (.reader i)
        { s with
          readers := s.readers.set i (rwtReaderVerify todo rc s.objToReadList).1
          objToReadList := (rwtReaderVerify todo rc s.objToReadList).2 }
  | remove {i : ℕ} {todo : RwtObjTodo} {readAllDone : Bool} {d : σ}
      (h : s.readers[i]? = some (.remove todo readAllDone)) (hd : io.remove todo s.data d) :
      RwtStep s (.remove i todo)
        { s with
          readers := s.readers.set i (if readAllDone then .exit else .take)
          data := d }
  | readerExit {i : ℕ} (h : s.readers[i]? = some .exit) :
      RwtStep s (.reader i) { s with readers := (s.readers.set i .ended).map .wake }

/-- `mio_rwt_start`: whatever the setting up of the lists returns, as many writers are
started as readers. -/
def mioRwtStart (nrThreads : ℕ) (lists : Bool × RwtObjTodoList × RwtObjTodoList) (d : σ) :
    RwtState σ :=
  ⟨lists.2.1, lists.2.2, List.replicate nrThreads .take, List.replicate nrThreads .take, d⟩

/-! ### Accounts -/

/-- What there is, as a sum over the lists and the threads, and what the work on an object
takes out of it. -/
structure RwtAccount where
  /-- On the list of objects to write. -/
  toWrite : RwtObjTodoList → ℤ
  /-- On the list of objects to read. -/
  toRead : RwtObjTodoList → ℤ
  /-- With a writer. -/
  writer : RwtWriter → ℤ
  /-- With a reader. -/
  reader : RwtReader → ℤ
  /-- An object has been written. -/
  write : RwtObjTodo → ℤ → ℤ
  /-- It has been read. -/
  read : RwtObjTodo → ℤ → ℤ
  /-- It has been removed. -/
  remove : RwtObjTodo → ℤ

section Accounts

variable (a : RwtAccount)

/-- All that there is. -/
def RwtAccount.total (s : RwtState σ) : ℤ :=
  a.toWrite s.objToWriteList + a.toRead s.objToReadList + (s.writers.map a.writer).sum +
    (s.readers.map a.reader).sum

/-- What an event is worth. -/
def RwtAccount.worth : RwtEvent → ℤ
  | .write _ todo rc => a.write todo rc
  | .read _ todo rc => a.read todo rc
  | .remove _ todo => a.remove todo
  | .writer _ | .reader _ | .spurious _ => 0

/-- What each thread does keeps the account. -/
structure RwtAccount.Even : Prop where
  /-- A writer takes an object. -/
  writerTake : ∀ l, a.toWrite (rwtWriterTake l).2 + a.writer (rwtWriterTake l).1 =
    a.toWrite l + a.writer .take
  /-- It has written an object. -/
  write : ∀ todo md5sum rc, a.writer (.put { todo with otMd5sumWrite := md5sum } rc) +
    a.write { todo with otMd5sumWrite := md5sum } rc = a.writer (.write todo)
  /-- It hands the object on. -/
  writerPut : ∀ todo rc l, a.toRead (rwtWriterPut todo rc l) + a.writer .take =
    a.toRead l + a.writer (.put todo rc)
  /-- It comes to its end. -/
  writerExit : a.writer .ended = a.writer .exit
  /-- A reader looks for an object. -/
  readerTake : ∀ l, a.toRead (rwtReaderTake l).2 + a.reader (rwtReaderTake l).1 =
    a.toRead l + a.reader .take
  /-- It has read an object. -/
  read : ∀ todo md5sum rc, a.reader (.verify { todo with otMd5sumRead := md5sum } rc) +
    a.read { todo with otMd5sumRead := md5sum } rc = a.reader (.read todo)
  /-- It counts the object. -/
  readerVerify : ∀ todo rc l, a.toRead (rwtReaderVerify todo rc l).2 +
    a.reader (rwtReaderVerify todo rc l).1 = a.toRead l + a.reader (.verify todo rc)
  /-- It has removed an object. -/
  remove : ∀ todo readAllDone, a.reader (if readAllDone then .exit else .take) + a.remove todo =
    a.reader (.remove todo readAllDone)
  /-- It comes to its end. -/
  readerExit : a.reader .ended = a.reader .exit
  /-- It is woken up. -/
  wake : a.reader .take = a.reader .wait

variable {a} {io}

theorem RwtAccount.Even.sum_wake (h : a.Even) (readers : List RwtReader) :
    ((readers.map .wake).map a.reader).sum = (readers.map a.reader).sum := by
  rw [List.map_map]
  congr 1
  refine List.map_congr_left fun pc _ => ?_
  cases pc with
  | wait => exact h.wake
  | _ => rfl

/-- **What each thread keeps, the system keeps.** -/
theorem RwtAccount.Even.balanced (h : a.Even) : Balanced (RwtStep io) a.total a.worth := by
  intro s e t hstep
  cases hstep with
  | writerTake hi =>
    have hset := sum_map_set hi (rwtWriterTake s.objToWriteList).1 a.writer
    have hlocal := h.writerTake s.objToWriteList
    simp only [RwtAccount.total, RwtAccount.worth]
    omega
  | @write i todo rc md5sum d hi hd =>
    have hset := sum_map_set hi (.put { todo with otMd5sumWrite := md5sum } rc) a.writer
    have hlocal := h.write todo md5sum rc
    simp only [RwtAccount.total, RwtAccount.worth]
    omega
  | @writerPut i todo rc hi =>
    have hset := sum_map_set hi .take a.writer
    have hlocal := h.writerPut todo rc s.objToReadList
    simp only [RwtAccount.total, RwtAccount.worth, h.sum_wake]
    omega
  | writerExit hi =>
    have hset := sum_map_set hi .ended a.writer
    have hlocal := h.writerExit
    simp only [RwtAccount.total, RwtAccount.worth, h.sum_wake]
    omega
  | readerTake hi =>
    have hset := sum_map_set hi (rwtReaderTake s.objToReadList).1 a.reader
    have hlocal := h.readerTake s.objToReadList
    simp only [RwtAccount.total, RwtAccount.worth]
    omega
  | spurious hi =>
    have hset := sum_map_set hi .take a.reader
    have hlocal := h.wake
    simp only [RwtAccount.total, RwtAccount.worth]
    omega
  | @read i todo rc md5sum d hi hd =>
    have hset := sum_map_set hi (.verify { todo with otMd5sumRead := md5sum } rc) a.reader
    have hlocal := h.read todo md5sum rc
    simp only [RwtAccount.total, RwtAccount.worth]
    omega
  | @readerVerify i todo rc hi =>
    have hset := sum_map_set hi (rwtReaderVerify todo rc s.objToReadList).1 a.reader
    have hlocal := h.readerVerify todo rc s.objToReadList
    simp only [RwtAccount.total, RwtAccount.worth]
    omega
  | @remove i todo readAllDone d hi hd =>
    have hset := sum_map_set hi (if readAllDone then .exit else .take) a.reader
    have hlocal := h.remove todo readAllDone
    simp only [RwtAccount.total, RwtAccount.worth]
    omega
  | readerExit hi =>
    have hset := sum_map_set hi .ended a.reader
    have hlocal := h.readerExit
    simp only [RwtAccount.total, RwtAccount.worth, h.sum_wake]
    omega

end Accounts

section Objects

variable (w : MioObjId → ℤ)

/-- The objects of a list, each with its weight. -/
def weightOf (todos : List RwtObjTodo) : ℤ := (todos.map fun todo => w todo.otOid).sum

/-- The objects that are still to be written. -/
def unwrittenAccount : RwtAccount where
  toWrite := fun l => weightOf w l.otlHead
  toRead := fun _ => 0
  writer := fun
    | .write todo => w todo.otOid
    | _ => 0
  reader := fun _ => 0
  write := fun todo _ => w todo.otOid
  read := fun _ _ => 0
  remove := fun _ => 0

/-- The objects that have been written and are still to be read. -/
def unreadAccount : RwtAccount where
  toWrite := fun _ => 0
  toRead := fun l => weightOf w l.otlHead
  writer := fun
    | .put todo rc => if rc = 0 then w todo.otOid else 0
    | _ => 0
  reader := fun
    | .read todo => w todo.otOid
    | _ => 0
  write := fun todo rc => -if rc = 0 then w todo.otOid else 0
  read := fun todo _ => w todo.otOid
  remove := fun _ => 0

/-- The objects that have been read and are still to be removed. -/
def unremovedAccount : RwtAccount where
  toWrite := fun _ => 0
  toRead := fun _ => 0
  writer := fun _ => 0
  reader := fun
    | .verify todo _ => w todo.otOid
    | .remove todo _ => w todo.otOid
    | _ => 0
  write := fun _ _ => 0
  read := fun todo _ => -w todo.otOid
  remove := fun todo => w todo.otOid

/-- What a number of the list of objects to read counts: writes with one code, and reads with
another. -/
def numberAccount (number : RwtObjTodoList → ℤ) (put verify : RwtObjTodo → ℤ → ℤ) :
    RwtAccount where
  toWrite := fun _ => 0
  toRead := number
  writer := fun
    | .put todo rc => put todo rc
    | _ => 0
  reader := fun
    | .verify todo rc => verify todo rc
    | _ => 0
  write := fun todo rc => -put todo rc
  read := fun todo rc => -verify todo rc
  remove := fun _ => 0

/-- All objects, wherever they are; those whose write returns a positive code get lost. -/
def objectsAccount : RwtAccount where
  toWrite := fun l => l.otlHead.length
  toRead := fun l => l.otlHead.length + l.otlNrDone + l.otlNrFailed
  writer := fun
    | .write _ => 1
    | .put _ rc => if rc ≤ 0 then 1 else 0
    | _ => 0
  reader := fun
    | .read _ => 1
    | .verify _ _ => 1
    | _ => 0
  write := fun _ rc => if rc ≤ 0 then 0 else 1
  read := fun _ _ => 0
  remove := fun _ => 0

variable {w}

theorem even_unwritten : (unwrittenAccount w).Even where
  writerTake := fun l => by
    rcases rwtWriterTake_cases l with ⟨-, h⟩ | ⟨-, -, h⟩ | ⟨-, todo, next, hhead, h⟩
    · rw [h]
      rfl
    · rw [h]
      rfl
    · rw [h]
      simp only [unwrittenAccount, weightOf, hhead, List.map_cons, List.sum_cons]
      omega
  write := fun _ _ _ => Int.zero_add _
  writerPut := fun _ _ _ => rfl
  writerExit := rfl
  readerTake := fun _ => rfl
  read := fun _ _ _ => rfl
  readerVerify := fun _ _ _ => rfl
  remove := fun _ _ => rfl
  readerExit := rfl
  wake := rfl

theorem even_unread : (unreadAccount w).Even where
  writerTake := fun l => by
    rcases rwtWriterTake_cases l with ⟨-, h⟩ | ⟨-, -, h⟩ | ⟨-, todo, next, -, h⟩ <;> rw [h] <;> rfl
  write := fun _ _ _ => Int.add_right_neg _
  writerPut := fun todo rc l => by
    simp only [unreadAccount, rwtWriterPut, weightOf]
    split
    · rw [List.map_cons, List.sum_cons]
      omega
    · split
      · rfl
      · rfl
  writerExit := rfl
  readerTake := fun l => by
    rcases rwtReaderTake_cases l with
      ⟨-, -, h⟩ | ⟨-, -, h⟩ | ⟨-, -, h⟩ | ⟨-, todo, next, hhead, h⟩
    · rw [h]
      rfl
    · rw [h]
      rfl
    · rw [h]
      rfl
    · rw [h]
      simp only [unreadAccount, weightOf, hhead, List.map_cons, List.sum_cons]
      omega
  read := fun _ _ _ => Int.zero_add _
  readerVerify := fun todo rc l => by
    rw [rwtReaderVerify]
    split
    · rfl
    · rfl
  remove := fun _ readAllDone => by cases readAllDone <;> rfl
  readerExit := rfl
  wake := rfl

theorem even_unremoved : (unremovedAccount w).Even where
  writerTake := fun _ => rfl
  write := fun _ _ _ => rfl
  writerPut := fun _ _ _ => rfl
  writerExit := rfl
  readerTake := fun l => by
    rcases rwtReaderTake_cases l with
      ⟨-, -, h⟩ | ⟨-, -, h⟩ | ⟨-, -, h⟩ | ⟨-, todo, next, -, h⟩ <;> rw [h] <;> rfl
  read := fun _ _ _ => Int.add_right_neg _
  readerVerify := fun todo rc l => by
    rw [rwtReaderVerify]
    split
    · rfl
    · rfl
  remove := fun _ readAllDone => by cases readAllDone <;> exact Int.zero_add _
  readerExit := rfl
  wake := rfl

theorem even_number {number : RwtObjTodoList → ℤ} {put verify : RwtObjTodo → ℤ → ℤ}
    (hput : ∀ todo rc l, number (rwtWriterPut todo rc l) = number l + put todo rc)
    (htake : ∀ l, number (rwtReaderTake l).2 = number l)
    (hverify : ∀ todo rc l, number (rwtReaderVerify todo rc l).2 = number l + verify todo rc) :
    (numberAccount number put verify).Even where
  writerTake := fun l => by
    rcases rwtWriterTake_cases l with ⟨-, h⟩ | ⟨-, -, h⟩ | ⟨-, todo, next, -, h⟩ <;> rw [h] <;> rfl
  write := fun _ _ _ => Int.add_right_neg _
  writerPut := fun todo rc l => by
    simp only [numberAccount, hput]
    omega
  writerExit := rfl
  readerTake := fun l => by
    have hnumber := htake l
    rcases rwtReaderTake_cases l with
      ⟨-, -, h⟩ | ⟨-, -, h⟩ | ⟨-, -, h⟩ | ⟨-, todo, next, -, h⟩ <;> rw [h] at hnumber ⊢ <;>
      exact congrArg (· + 0) hnumber
  read := fun _ _ _ => Int.add_right_neg _
  readerVerify := fun todo rc l => by
    obtain ⟨readAllDone, h, -⟩ := exists_rwtReaderVerify todo rc l
    rw [h]
    exact (Int.add_zero _).trans (hverify todo rc l)
  remove := fun _ readAllDone => by cases readAllDone <;> rfl
  readerExit := rfl
  wake := rfl

theorem even_objects : objectsAccount.Even where
  writerTake := fun l => by
    rcases rwtWriterTake_cases l with ⟨-, h⟩ | ⟨-, -, h⟩ | ⟨-, todo, next, hhead, h⟩
    · rw [h]
      rfl
    · rw [h]
      rfl
    · rw [h]
      simp only [objectsAccount, hhead, List.length_cons]
      omega
  write := fun _ _ rc => by
    simp only [objectsAccount]
    split
    · rfl
    · rfl
  writerPut := fun todo rc l => by
    simp only [objectsAccount, rwtWriterPut]
    split
    · next hrc =>
      simp only [List.length_cons, if_pos hrc.le]
      omega
    · next hrc =>
      split
      · next hneg =>
        rw [if_pos hneg.le]
        simp only
        omega
      · next hneg => rw [if_neg (by omega)]
  writerExit := rfl
  readerTake := fun l => by
    rcases rwtReaderTake_cases l with
      ⟨-, -, h⟩ | ⟨-, -, h⟩ | ⟨-, -, h⟩ | ⟨-, todo, next, hhead, h⟩
    · rw [h]
      rfl
    · rw [h]
      rfl
    · rw [h]
      rfl
    · rw [h]
      simp only [objectsAccount, hhead, List.length_cons]
      omega
  read := fun _ _ _ => rfl
  readerVerify := fun todo rc l => by
    simp only [objectsAccount, rwtReaderVerify]
    split
    · simp only
      omega
    · simp only
      omega
  remove := fun _ readAllDone => by cases readAllDone <;> rfl
  readerExit := rfl
  wake := rfl

end Objects

/-! ### Setting up the lists -/

theorem mioObjIdToUint128_uint128ToObjId (u : M0Uint128) :
    mioObjIdToUint128 (mioUint128ToObjId u) = u := by
  have hlen : (mioByteorderCpuToBe64 u.uHi).length = 8 := by simp [mioByteorderCpuToBe64]
  rw [mioObjIdToUint128, mioUint128ToObjId]
  simp only [List.take_left' hlen, List.drop_left' hlen, mioByteorderBe64ToCpu_cpuToBe64]

/-- **The objects are different ones.** -/
theorem rwtSetObjId_inj {stOid : MioObjId} {i j : ℕ} (hi : i < 2 ^ 64) (hj : j < 2 ^ 64)
    (h : rwtSetObjId stOid i = rwtSetObjId stOid j) : i = j := by
  have h := congrArg (M0Uint128.uHi ∘ mioObjIdToUint128) h
  simp only [Function.comp_apply, rwtSetObjId, mioObjIdToUint128_uint128ToObjId] at h
  have h := congrArg UInt64.toNat (UInt64.add_right_inj _ |>.mp h)
  rwa [UInt64.toNat_ofNat_of_lt' hi, UInt64.toNat_ofNat_of_lt' hj] at h

/-- The objects that are to be written and read. -/
def rwtOids (stOid : MioObjId) (nrObjs : ℤ) : List MioObjId :=
  (List.range nrObjs.toNat).map (rwtSetObjId stOid)

theorem nodup_rwtOids (stOid : MioObjId) {nrObjs : ℤ} (hnr : nrObjs ≤ 2 ^ 64) :
    (rwtOids stOid nrObjs).Nodup := by
  refine List.Nodup.map_on (fun i hi j hj h => ?_) List.nodup_range
  rw [List.mem_range] at hi hj
  exact rwtSetObjId_inj (by omega) (by omega) h

/-- What the loop has put on the list. -/
theorem rwtTodoListsFill_spec (malloc : ℕ → Option RwtObjTodo) (stOid : MioObjId)
    (bs bc : UInt32) (n i : ℕ) (l : RwtObjTodoList) :
    ∃ k todos, rwtTodoListsFill malloc stOid bs bc n i l =
        (decide (k = n), { l with
          otlHead := todos ++ l.otlHead, otlNrInList := l.otlNrInList + k }) ∧
      k ≤ n ∧ todos.map RwtObjTodo.otOid =
        ((List.range' i k).map (rwtSetObjId stOid)).reverse ∧
      ∀ todo ∈ todos, todo.otBlockSize = bs ∧ todo.otBlockCount = bc := by
  induction n generalizing i l with
  | zero => exact ⟨0, [], by simp [rwtTodoListsFill], le_rfl, rfl, by simp⟩
  | succ n ih =>
    rw [rwtTodoListsFill]
    cases malloc i with
    | none => exact ⟨0, [], by simp, Nat.zero_le _, rfl, by simp⟩
    | some todo =>
      obtain ⟨k, todos, heq, hk, hoids, hsizes⟩ := ih (i + 1) { l with
        otlHead := { todo with
          otOid := rwtSetObjId stOid i, otBlockSize := bs, otBlockCount := bc } :: l.otlHead
        otlNrInList := l.otlNrInList + 1 }
      refine ⟨k + 1, todos ++ [{ todo with
        otOid := rwtSetObjId stOid i, otBlockSize := bs, otBlockCount := bc }], ?_, by omega, ?_,
        ?_⟩
      · simp only [heq, List.append_assoc, List.singleton_append, Nat.add_right_cancel_iff,
          Int.natCast_add, Int.natCast_one, Int.add_assoc, Int.add_comm 1]
      · rw [List.map_append, hoids, List.range'_succ, List.map_cons, List.map_cons,
          List.reverse_cons]
        rfl
      · intro t ht
        rcases List.mem_append.mp ht with ht | ht
        · exact hsizes t ht
        · rw [List.mem_singleton] at ht
          rw [ht]
          exact ⟨rfl, rfl⟩

/-- **What is set up**: the objects are on the list of those to write, all of them; or the
list is empty, but counts more than that. -/
theorem rwtTodoListsInit_cases (malloc : ℕ → Option RwtObjTodo) (stOid : MioObjId) (nrObjs : ℤ)
    (bs bc : UInt32) :
    (∃ todos : List RwtObjTodo, rwtTodoListsInit malloc stOid nrObjs bs bc =
        (true, ⟨todos.length, nrObjs, 0, 0, 0, todos⟩, .new nrObjs) ∧
      todos.map RwtObjTodo.otOid = (rwtOids stOid nrObjs).reverse ∧
      ∀ todo ∈ todos, todo.otBlockSize = bs ∧ todo.otBlockCount = bc) ∨
    ∃ k : ℕ, k < nrObjs.toNat ∧ rwtTodoListsInit malloc stOid nrObjs bs bc =
      (false, ⟨k, nrObjs, 0, 0, 0, []⟩, .new nrObjs) := by
  obtain ⟨k, todos, heq, hk, hoids, hsizes⟩ := rwtTodoListsFill_spec malloc stOid bs bc nrObjs.toNat
    0 (.new nrObjs)
  have hlen : todos.length = k := by
    have := congrArg List.length hoids
    simpa using this
  rw [rwtTodoListsInit, heq]
  simp only [RwtObjTodoList.new, List.append_nil, Int.zero_add]
  by_cases hall : k = nrObjs.toNat
  · refine Or.inl ⟨todos, ?_, ?_, hsizes⟩
    · rw [hlen]
      simp [hall]
    · rw [hoids, hall, rwtOids, List.range_eq_range']
  · refine Or.inr ⟨k, by omega, ?_⟩
    simp [hall, rwtTodoListFini, hlen]

end CortxMio
