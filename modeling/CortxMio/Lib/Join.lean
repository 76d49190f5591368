import CortxMio.Lib.Account

/-!
# Waiting for tasks with a counter

One thread starts tasks and then waits for them, with a mutex, a condition variable and a
counter of the tasks that are on their way: it holds the mutex as long as it starts tasks,
counting up; each task does its work, and then takes the mutex, counts down, signals and
lets the mutex go; and the thread waits until the counter is zero
(`CortxMio.Lib.JoinStep`). What the starting and the work are is left open
(`CortxMio.Lib.JoinSys`). A wait may also end without a signal.

In every run there are as many tasks on their way as the counter says, and when the wait is
over so are all tasks (`CortxMio.Lib.JoinInv`); the threads are never stuck
(`CortxMio.Lib.JoinInv.progress`), and every run is finite but for waits that end without a
signal (`CortxMio.Lib.length_le_of_run`).
-/

namespace CortxMio.Lib

/-! ### The system -/

/-- Where the thread is that starts the tasks and waits for them. -/
inductive WaitPc
  /-- It holds the mutex and may start a task. -/
  | launch
  /-- It has started a task and has not counted it yet. -/
  | enter
  /-- It lets the mutex go. -/
  | unlock
  /-- It takes the mutex, to wait or in a wait that ends. -/
  | lock
  /-- It holds the mutex and looks at the counter. -/
  | test
  /-- It waits on the condition. -/
  | wait
  /-- It has seen that the counter is zero, and lets the mutex go. -/
  | leave
  /-- It has waited. -/
  | gone
  deriving DecidableEq

/-- Where a task is. -/
inductive TaskPc
  /-- It does its work. -/
  | work
  /-- It takes the mutex. -/
  | lock
  /-- It counts down. -/
  | count
  /-- It signals. -/
  | signal
  /-- It lets the mutex go. -/
  | unlock
  /-- It is over. -/
  | ended
  deriving DecidableEq

/-- Who holds the mutex. -/
inductive Holder
  /-- The thread that starts the tasks. -/
  | waiter
  /-- A task. -/
  | task (i : ℕ)
  deriving DecidableEq

/-- The state of all threads, and what else there is. -/
structure JoinState (σ : Type*) where
  /-- The thread that starts the tasks. -/
  waiter : WaitPc
  /-- The tasks, in the order they have been started. -/
  tasks : List TaskPc
  /-- The counter. -/
  counter : ℤ
  /-- The mutex. -/
  owner : Option Holder
  /-- What else there is. -/
  data : σ

/-- What the threads do besides. -/
structure JoinSys (σ : Type*) where
  /-- A task is started; the counter says which. -/
  launch : ℤ → σ → σ → Prop
  /-- It is counted. -/
  enter : ℤ → σ → σ → Prop
  /-- No more tasks are started. -/
  stop : σ → σ → Prop
  /-- A task does some of its work. -/
  work : ℕ → σ → σ → Prop
  /-- A task has done its work. -/
  finish : ℕ → σ → σ → Prop
  /-- The thread goes on after it has waited. -/
  after : σ → σ → Prop

/-- What can happen. -/
inductive JoinEvent
  /-- A task is started. -/
  | launch
  /-- No more tasks are started. -/
  | stop
  /-- Another step of the thread that starts the tasks. -/
  | waiter
  /-- A step of the work of a task. -/
  | work (i : ℕ)
  /-- The end of its work. -/
  | finish (i : ℕ)
  /-- Another step of a task. -/
  | task (i : ℕ)
  /-- A wait ends without a signal. -/
  | spurious
  /-- A step after the wait. -/
  | after
  deriving DecidableEq

section System

variable {σ : Type*} (sys : JoinSys σ)

/-- A step of one of the threads. -/
inductive JoinStep (s : JoinState σ) : JoinEvent → JoinState σ → Prop
  | launch {d : σ} (h : s.waiter = .launch) (hd : sys.launch s.counter s.data d) :
      JoinStep s .launch { s with waiter := .enter, tasks := s.tasks ++ [.work], data := d }
  | enter {d : σ} (h : s.waiter = .enter) (hd : sys.enter s.counter s.data d) :
      JoinStep s .waiter { s with waiter := .launch, counter := s.counter + 1, data := d }
  | stop {d : σ} (h : s.waiter = .launch) (hd : sys.stop s.data d) :
      JoinStep s .stop { s with waiter := .unlock, data := d }
  | unlock (h : s.waiter = .unlock) :
      JoinStep s .waiter { s with waiter := .lock, owner := none }
  | lock (h : s.waiter = .lock) (free : s.owner = none) :
      JoinStep s .waiter { s with waiter := .test, owner := some .waiter }
  | wait (h : s.waiter = .test) (hc : s.counter ≠ 0) :
      JoinStep s .waiter { s with waiter := .wait, owner := none }
  | seen (h : s.waiter = .test) (hc : s.counter = 0) :
      JoinStep s .waiter { s with waiter := .leave }
  | leave (h : s.waiter = .leave) :
      JoinStep s .waiter { s with waiter := .gone, owner := none }
  | spurious (h : s.waiter = .wait) :
      JoinStep s .spurious { s with waiter := .lock }
  | after {d : σ} (h : s.waiter = .gone) (hd : sys.after s.data d) :
      JoinStep s .after { s with data := d }
  | work {i : ℕ} {d : σ} (h : s.tasks[i]? = some .work) (hd : sys.work i s.data d) :
      JoinStep s (.work i) { s with data := d }
  | finish {i : ℕ} {d : σ} (h : s.tasks[i]? = some .work) (hd : sys.finish i s.data d) :
      JoinStep s (.finish i) { s with tasks := s.tasks.set i .lock, data := d }
  | taskLock {i : ℕ} (h : s.tasks[i]? = some .lock) (free : s.owner = none) :
      JoinStep s (.task i)
        { s with tasks := s.tasks.set i .count, owner := some (.task i) }
  | taskCount {i : ℕ} (h : s.tasks[i]? = some .count) :
      JoinStep s (.task i) { s with tasks := s.tasks.set i .signal, counter := s.counter - 1 }
  | taskSignal {i : ℕ} (h : s.tasks[i]? = some .signal) :
      JoinStep s (.task i)
        { s with
          tasks := s.tasks.set i .unlock
          waiter := if s.waiter = .wait then .lock else s.waiter }
  | taskUnlock {i : ℕ} (h : s.tasks[i]? = some .unlock) :
      JoinStep s (.task i) { s with tasks := s.tasks.set i .ended, owner := none }

/-- One system can do what another one can. -/
structure JoinSys.Le (sys sys' : JoinSys σ) : Prop where
  /-- A task is started. -/
  launch : ∀ {c d d'}, sys.launch c d d' → sys'.launch c d d'
  /-- It is counted. -/
  enter : ∀ {c d d'}, sys.enter c d d' → sys'.enter c d d'
  /-- No more tasks are started. -/
  stop : ∀ {d d'}, sys.stop d d' → sys'.stop d d'
  /-- A task does some of its work. -/
  work : ∀ {i d d'}, sys.work i d d' → sys'.work i d d'
  /-- A task has done its work. -/
  finish : ∀ {i d d'}, sys.finish i d d' → sys'.finish i d d'
  /-- The thread goes on after the wait. -/
  after : ∀ {d d'}, sys.after d d' → sys'.after d d'

variable {sys} in
theorem JoinStep.mono {sys' : JoinSys σ} (hle : sys.Le sys') {s t : JoinState σ} {e : JoinEvent}
    (h : JoinStep sys s e t) : JoinStep sys' s e t := by
  cases h with
  | launch h hd => exact .launch h (hle.launch hd)
  | enter h hd => exact .enter h (hle.enter hd)
  | stop h hd => exact .stop h (hle.stop hd)
  | unlock h => exact .unlock h
  | lock h free => exact .lock h free
  | wait h hc => exact .wait h hc
  | seen h hc => exact .seen h hc
  | leave h => exact .leave h
  | spurious h => exact .spurious h
  | after h hd => exact .after h (hle.after hd)
  | work h hd => exact .work h (hle.work hd)
  | finish h hd => exact .finish h (hle.finish hd)
  | taskLock h free => exact .taskLock h free
  | taskCount h => exact .taskCount h
  | taskSignal h => exact .taskSignal h
  | taskUnlock h => exact .taskUnlock h

/-- The thread that starts the tasks begins with the mutex. -/
def joinInit (d : σ) : JoinState σ := ⟨.launch, [], 0, some .waiter, d⟩

end System

/-! ### The invariant -/

/-- Whether the thread that starts the tasks holds the mutex. -/
def WaitPc.holds : WaitPc → Bool
  | .launch | .enter | .unlock | .test | .leave => true
  | .lock | .wait | .gone => false

/-- Whether a task holds the mutex. -/
def TaskPc.holds : TaskPc → Bool
  | .count | .signal | .unlock => true
  | .work | .lock | .ended => false

/-- Whether a task is still to count down. -/
def TaskPc.pending : TaskPc → Bool
  | .work | .lock | .count => true
  | .signal | .unlock | .ended => false

/-- The number of tasks that are still to count down. -/
def nrPending (tasks : List TaskPc) : ℕ := tasks.countP TaskPc.pending

/-- What holds in every state. -/
structure JoinInv {σ : Type*} (s : JoinState σ) : Prop where
  /-- Whether the thread that starts the tasks holds the mutex. -/
  waiter : s.owner = some .waiter ↔ s.waiter.holds
  /-- Whether a task holds the mutex. -/
  task : ∀ i, s.owner = some (.task i) ↔ ∃ pc, s.tasks[i]? = some pc ∧ pc.holds
  /-- The counter. -/
  counter : s.counter + (if s.waiter = .enter then 1 else 0) = nrPending s.tasks
  /-- A task that is to be counted has been started. -/
  entered : s.waiter = .enter → 0 < s.tasks.length
  /-- As long as tasks are started, none of them has counted down. -/
  early : s.waiter = .launch ∨ s.waiter = .enter ∨ s.waiter = .unlock →
    ∀ pc ∈ s.tasks, pc = .work ∨ pc = .lock
  /-- No signal is lost. -/
  wait : s.waiter = .wait → 0 < s.counter ∨ TaskPc.signal ∈ s.tasks
  /-- After the wait, all tasks are over. -/
  ended : s.waiter = .leave ∨ s.waiter = .gone → ∀ pc ∈ s.tasks, pc = .ended

section Tasks

variable {tasks : List TaskPc} {i : ℕ} {pc q : TaskPc}

/-- A task that moves on. -/
theorem nrPending_set (h : tasks[i]? = some pc) :
    nrPending (tasks.set i q) + (if pc.pending then 1 else 0) =
      nrPending tasks + (if q.pending then 1 else 0) := by
  induction tasks generalizing i with
  | nil => exact absurd h (by simp)
  | cons t tasks ih =>
    cases i with
    | zero =>
      obtain rfl : t = pc := by simpa using h
      simp only [nrPending, List.set_cons_zero, List.countP_cons]
      omega
    | succ i =>
      have ih := ih (i := i) (by simpa using h)
      simp only [nrPending, List.set_cons_succ, List.countP_cons] at ih ⊢
      omega

theorem holds_set (h : tasks[i]? = some pc) (j : ℕ) :
    (∃ pc', (tasks.set i q)[j]? = some pc' ∧ pc'.holds) ↔
      (j = i ∧ q.holds = true) ∨ (j ≠ i ∧ ∃ pc', tasks[j]? = some pc' ∧ pc'.holds) := by
  have hlt : i < tasks.length := (List.getElem?_eq_some_iff.mp h).1
  by_cases hj : j = i
  · subst hj
    simp [List.getElem?_set_self hlt]
  · simp [List.getElem?_set_ne (Ne.symm hj), hj]

end Tasks

section Invariant

variable {σ : Type*} {sys : JoinSys σ} {s s' : JoinState σ} {e : JoinEvent}

theorem joinInv_init (d : σ) : JoinInv (joinInit d) where
  waiter := ⟨fun _ => rfl, fun _ => rfl⟩
  task := fun i => ⟨fun h => absurd h (by simp [joinInit]), by simp [joinInit]⟩
  counter := by simp [joinInit, nrPending]
  entered := fun h => absurd h (by simp [joinInit])
  early := fun _ pc h => absurd h (by simp [joinInit])
  wait := fun h => absurd h (by simp [joinInit])
  ended := fun h => absurd h (by simp [joinInit])

/-- As long as the thread that starts the tasks holds the mutex, no task does. -/
theorem JoinInv.not_holds (h : JoinInv s) (hw : s.waiter.holds) {pc : TaskPc}
    (hpc : pc ∈ s.tasks) : ¬pc.holds := by
  intro hholds
  obtain ⟨i, hi⟩ := List.mem_iff_getElem?.mp hpc
  have howner := (h.task i).mpr ⟨pc, hi, hholds⟩
  rw [h.waiter.mpr hw] at howner
  exact absurd howner (by simp)

/-- When the counter is zero and no task holds the mutex, all tasks are over. -/
theorem JoinInv.all_over (h : JoinInv s) (hw : s.waiter = .test) (hc : s.counter = 0) :
    ∀ pc ∈ s.tasks, pc = .ended := by
  intro pc hpc
  have hnot := h.not_holds (by simp [WaitPc.holds, hw]) hpc
  have hcount := h.counter
  rw [hw, hc, if_neg (by simp)] at hcount
  have hzero : nrPending s.tasks = 0 := by omega
  have hpending := List.countP_eq_zero.mp hzero pc hpc
  cases pc <;> simp_all [TaskPc.pending, TaskPc.holds]

/-- A step of the thread that starts the tasks: it keeps what it holds, lets the mutex go
or takes it. -/
theorem JoinInv.move (h : JoinInv s) {pc : WaitPc} {owner : Option Holder} {d : σ}
    (howner : (owner = s.owner ∧ pc.holds = s.waiter.holds) ∨
      (s.owner = some .waiter ∧ owner = none ∧ pc.holds = false) ∨
      (s.owner = none ∧ owner = some .waiter ∧ pc.holds = true))
    (hfrom : s.waiter ≠ .enter) (hto : pc ≠ .launch ∧ pc ≠ .enter)
    (hearly : pc = .unlock → s.waiter = .launch)
    (hwait : pc = .wait → 0 < s.counter)
    (hover : pc = .leave ∨ pc = .gone → ∀ t ∈ s.tasks, t = .ended) :
    JoinInv { s with waiter := pc, owner := owner, data := d } := by
  refine ⟨?_, fun i => ?_, ?_, fun hpc => absurd hpc hto.2, ?_, fun hpc => Or.inl (hwait hpc),
    hover⟩
  · rcases howner with ⟨rfl, hholds⟩ | ⟨-, rfl, hholds⟩ | ⟨-, rfl, hholds⟩
    · simp only [hholds]
      exact h.waiter
    · simp [hholds]
    · simp [hholds]
  · rcases howner with ⟨rfl, -⟩ | ⟨hold, rfl, -⟩ | ⟨hold, rfl, -⟩
    · exact h.task i
    · simp only [← h.task i, hold]
      simp
    · simp only [← h.task i, hold]
      simp
  · have hcounter := h.counter
    rw [if_neg hfrom] at hcounter
    simp only [if_neg hto.2]
    exact hcounter
  · rintro (hpc | hpc | hpc)
    · exact absurd hpc hto.1
    · exact absurd hpc hto.2
    · exact h.early (Or.inl (hearly hpc))

/-- A step of a task: it keeps what it holds, lets the mutex go or takes it. -/
theorem JoinInv.moveTask (h : JoinInv s) {i : ℕ} {pc q : TaskPc} {owner : Option Holder}
    {counter : ℤ} {w : WaitPc} {d : σ} (hi : s.tasks[i]? = some pc)
    (howner : (owner = s.owner ∧ q.holds = pc.holds) ∨
      (s.owner = some (.task i) ∧ owner = none ∧ q.holds = false) ∨
      (s.owner = none ∧ owner = some (.task i) ∧ q.holds = true))
    (hcounter : counter + (if pc.pending then 1 else 0) =
      s.counter + (if q.pending then 1 else 0))
    (hearly : q = .lock ∨ s.owner ≠ some .waiter) (hpc : pc ≠ .ended)
    (hw : w = s.waiter ∨ s.waiter = .wait ∧ w = .lock)
    (hwait : w = .wait → 0 < counter ∨ TaskPc.signal ∈ s.tasks.set i q) :
    JoinInv ⟨w, s.tasks.set i q, counter, owner, d⟩ := by
  have hholds : w.holds = s.waiter.holds := by
    rcases hw with rfl | ⟨hs, rfl⟩
    · rfl
    · rw [hs]
      rfl
  have hnot : s.waiter.holds = true → s.owner = some .waiter := h.waiter.mpr
  refine ⟨?_, fun j => ?_, ?_, fun hpc => ?_, ?_, hwait, ?_⟩
  · simp only [hholds, ← h.waiter]
    rcases howner with ⟨rfl, -⟩ | ⟨hold, rfl, -⟩ | ⟨hold, rfl, -⟩
    · exact Iff.rfl
    · simp [hold]
    · simp [hold]
  · have htask := h.task i
    have hj := h.task j
    simp only [holds_set hi, ← hj]
    rcases howner with ⟨rfl, hq⟩ | ⟨hold, rfl, hq⟩ | ⟨hold, rfl, hq⟩
    · rw [hq]
      by_cases hji : j = i
      · subst hji
        simp [htask, hi]
      · simp [hji]
    · simp only [hq, hold]
      simp [eq_comm]
    · simp only [hq, hold]
      simp [eq_comm]
  · have hold := h.counter
    have hset := nrPending_set (q := q) hi
    have henter : (w = .enter) = (s.waiter = .enter) := by
      rcases hw with rfl | ⟨hs, rfl⟩
      · rfl
      · simp [hs]
    simp only [henter]
    split at hcounter <;> split at hcounter <;> simp_all <;> omega
  · have hlt := (List.getElem?_eq_some_iff.mp hi).1
    rw [List.length_set]
    omega
  · intro hearly'
    have hsame : w = s.waiter := by
      rcases hw with hw | ⟨-, rfl⟩
      · exact hw
      · simp at hearly'
    rw [hsame] at hearly'
    have howns : s.owner = some .waiter := by
      refine hnot ?_
      rcases hearly' with h | h | h <;> rw [h] <;> rfl
    intro t ht
    rcases List.mem_or_eq_of_mem_set ht with ht | rfl
    · exact h.early hearly' t ht
    · exact Or.inr (hearly.resolve_right fun h => h howns)
  · intro hgone
    have hsame : w = s.waiter := by
      rcases hw with hw | ⟨-, rfl⟩
      · exact hw
      · simp at hgone
    rw [hsame] at hgone
    exact absurd (h.ended hgone pc (List.mem_of_getElem? hi)) hpc

/-- **Every step keeps the invariant.** -/
theorem joinInv_step (h : JoinInv s) (hstep : JoinStep sys s e s') : JoinInv s' := by
  have howns : s.waiter.holds = true → s.owner = some .waiter := h.waiter.mpr
  have htask : ∀ {i pc}, s.tasks[i]? = some pc → pc.holds = true → s.owner = some (.task i) :=
    fun hi hpc => (h.task _).mpr ⟨_, hi, hpc⟩
  cases hstep with
  | launch hpc hd =>
    refine ⟨?_, fun i => ?_, ?_, fun _ => by simp, fun _ t ht => ?_, ?_, ?_⟩
    · simp only [h.waiter, hpc, WaitPc.holds]
    · have hi := h.task i
      have howner := howns (by rw [hpc]; rfl)
      simp only [howner] at hi ⊢
      simp only [List.getElem?_append, List.getElem?_singleton]
      grind [TaskPc.holds]
    · have hcounter := h.counter
      simp only [hpc] at hcounter
      simp [nrPending, TaskPc.pending] at hcounter ⊢
      omega
    · rcases List.mem_append.mp ht with ht | ht
      · exact h.early (Or.inl hpc) t ht
      · exact Or.inl (List.mem_singleton.mp ht)
    · simp
    · simp
  | enter hpc hd =>
    refine ⟨?_, h.task, ?_, by simp, fun _ => h.early (Or.inr (Or.inl hpc)), ?_, ?_⟩
    · simp only [h.waiter, hpc, WaitPc.holds]
    · have hcounter := h.counter
      rw [hpc, if_pos rfl] at hcounter
      simp only [reduceCtorEq, if_false]
      omega
    · simp
    · simp
  | stop hpc hd =>
    exact h.move (Or.inl ⟨rfl, by rw [hpc]; rfl⟩) (by simp [hpc]) (by simp) (fun _ => hpc)
      (by simp) (by simp)
  | unlock hpc =>
    exact h.move (Or.inr (Or.inl ⟨howns (by rw [hpc]; rfl), rfl, rfl⟩)) (by simp [hpc]) (by simp)
      (by simp) (by simp) (by simp)
  | lock hpc free =>
    exact h.move (Or.inr (Or.inr ⟨free, rfl, rfl⟩)) (by simp [hpc]) (by simp) (by simp) (by simp)
      (by simp)
  | wait hpc hc =>
    refine h.move (Or.inr (Or.inl ⟨howns (by rw [hpc]; rfl), rfl, rfl⟩)) (by simp [hpc]) (by simp)
      (by simp) (fun _ => ?_) (by simp)
    have hcounter := h.counter
    rw [hpc] at hcounter
    simp at hcounter
    omega
  | seen hpc hc =>
    exact h.move (Or.inl ⟨rfl, by rw [hpc]; rfl⟩) (by simp [hpc]) (by simp) (by simp) (by simp)
      (fun _ => h.all_over hpc hc)
  | leave hpc =>
    exact h.move (Or.inr (Or.inl ⟨howns (by rw [hpc]; rfl), rfl, rfl⟩)) (by simp [hpc]) (by simp)
      (by simp) (by simp) (fun _ => h.ended (Or.inl hpc))
  | spurious hpc =>
    exact h.move (Or.inl ⟨rfl, by rw [hpc]; rfl⟩) (by simp [hpc]) (by simp) (by simp) (by simp)
      (by simp)
  | after hpc hd =>
    exact ⟨h.waiter, h.task, h.counter, h.entered, h.early, h.wait, h.ended⟩
  | work hi hd => exact ⟨h.waiter, h.task, h.counter, h.entered, h.early, h.wait, h.ended⟩
  | finish hi hd =>
    exact h.moveTask hi (Or.inl ⟨rfl, rfl⟩) rfl (Or.inl rfl) (by simp) (Or.inl rfl)
      fun hpc => (h.wait hpc).imp id fun hs => mem_set_of_ne hi hs (by simp)
  | taskLock hi free =>
    exact h.moveTask hi (Or.inr (Or.inr ⟨free, rfl, rfl⟩)) rfl (Or.inr (by simp [free]))
      (by simp) (Or.inl rfl) fun hpc => (h.wait hpc).imp id fun hs => mem_set_of_ne hi hs (by simp)
  | taskCount hi =>
    exact h.moveTask hi (Or.inl ⟨rfl, rfl⟩) (by simp [TaskPc.pending])
      (Or.inr (by simp [htask hi rfl])) (by simp) (Or.inl rfl) fun _ => Or.inr
        (List.mem_set (List.getElem?_eq_some_iff.mp hi).1 _)
  | taskSignal hi =>
    refine h.moveTask hi (Or.inl ⟨rfl, rfl⟩) rfl (Or.inr (by simp [htask hi rfl])) (by simp) ?_ ?_
    · split
      · next hpc => exact Or.inr ⟨hpc, rfl⟩
      · exact Or.inl rfl
    · intro hpc
      split at hpc
      · exact absurd hpc (by simp)
      · next hne => exact absurd hpc hne
  | taskUnlock hi =>
    exact h.moveTask hi (Or.inr (Or.inl ⟨htask hi rfl, rfl, rfl⟩)) rfl
      (Or.inr (by simp [htask hi rfl])) (by simp) (Or.inl rfl)
      fun hpc => (h.wait hpc).imp id fun hs => mem_set_of_ne hi hs (by simp)

/-- **The invariant of all runs.** -/
theorem joinInv_of_run {d : σ} {es : List JoinEvent} (h : Run (JoinStep sys) (joinInit d) es s) :
    JoinInv s :=
  h.inv (fun _ t => JoinInv t) (joinInv_init d) fun _ _ _ _ hinv hstep => joinInv_step hinv hstep

/-- **While tasks are started**, the counter is their number. -/
theorem JoinInv.counter_eq (h : JoinInv s) (hw : s.waiter = .launch) :
    s.counter = s.tasks.length := by
  have hcounter := h.counter
  rw [hw, if_neg (by simp), Int.add_zero] at hcounter
  rw [hcounter, nrPending, List.countP_eq_length.mpr]
  intro pc hpc
  rcases h.early (Or.inl hw) pc hpc with rfl | rfl <;> rfl

/-! ### What else there is -/

/-- Which tasks have work to do. -/
def JoinState.busy (s : JoinState σ) : List Bool := s.tasks.map fun pc => pc == .work

/-- How many tasks have been counted. -/
def JoinState.counted (s : JoinState σ) : ℕ :=
  s.tasks.length - (if s.waiter = .enter then 1 else 0)

/-- What the starting of tasks, their counting, and their work keep: `I n busy d` says what
there is after `n` tasks have been counted, of which those that are busy have work to do,
and `G n d` what there is when the wait for `n` tasks is over. -/
structure JoinSys.Keeps (sys : JoinSys σ) (I : ℕ → List Bool → σ → Prop) (G : ℕ → σ → Prop) :
    Prop where
  /-- A task is started. -/
  launch : ∀ {n b d d'}, I n b d → b.length = n → sys.launch n d d' → I n (b ++ [true]) d'
  /-- It is counted. -/
  enter : ∀ {n b d d'}, I n b d → b.length = n + 1 → sys.enter n d d' → I (n + 1) b d'
  /-- No more tasks are started. -/
  stop : ∀ {n b d d'}, I n b d → b.length = n → sys.stop d d' → I n b d'
  /-- A task does some of its work. -/
  work : ∀ {n b d d' i}, I n b d → b[i]? = some true → sys.work i d d' → I n b d'
  /-- A task has done its work. -/
  finish : ∀ {n b d d' i}, I n b d → b[i]? = some true → sys.finish i d d' → I n (b.set i false) d'
  /-- The wait is over. -/
  gone : ∀ {n b d}, I n b d → b.length = n → (∀ x ∈ b, x = false) → G n d
  /-- The thread goes on after the wait. -/
  after : ∀ {n d d'}, G n d → sys.after d d' → G n d'

section Keeps

variable {I : ℕ → List Bool → σ → Prop} {G : ℕ → σ → Prop} (hkeeps : sys.Keeps I G)

/-- What there is in a state. -/
def JoinState.Kept (I : ℕ → List Bool → σ → Prop) (G : ℕ → σ → Prop) (s : JoinState σ) : Prop :=
  if s.waiter = .gone then G s.tasks.length s.data else I s.counted s.busy s.data

theorem busy_set (tasks : List TaskPc) (i : ℕ) (q : TaskPc) :
    (tasks.set i q).map (fun pc => pc == .work) =
      (tasks.map fun pc => pc == .work).set i (q == .work) := List.map_set

/-- A task that has done its work already is not busy and does not become busy. -/
theorem busy_set_self {i : ℕ} {pc q : TaskPc} {tasks : List TaskPc} (h : tasks[i]? = some pc)
    (hsame : (pc == TaskPc.work) = (q == TaskPc.work)) :
    (tasks.set i q).map (fun pc => pc == .work) = tasks.map fun pc => pc == .work := by
  refine List.ext_getElem? fun j => ?_
  rw [List.getElem?_map, List.getElem?_map]
  by_cases hj : i = j
  · subst hj
    rw [List.getElem?_set_self (List.getElem?_eq_some_iff.mp h).1, h, Option.map_some,
      Option.map_some, hsame]
  · rw [List.getElem?_set_ne hj]

include hkeeps

/-- **A step keeps what else there is.** -/
theorem JoinSys.Keeps.step (hinv : JoinInv s) (h : s.Kept I G) (hstep : JoinStep sys s e s') :
    s'.Kept I G := by
  have hlength : s.busy.length = s.tasks.length := List.length_map _
  have hsame : s.waiter ≠ .enter → s.counted = s.tasks.length := fun hw => by
    rw [JoinState.counted, if_neg hw, Nat.sub_zero]
  have hwork : ∀ {i : ℕ}, s.tasks[i]? = some TaskPc.work → s.busy[i]? = some true := fun hi => by
    rw [JoinState.busy, List.getElem?_map, hi]
    rfl
  -- after the wait, all tasks are over
  have hover : ∀ {i : ℕ} {pc : TaskPc}, s.tasks[i]? = some pc → pc ≠ .ended → s.waiter ≠ .gone :=
    fun hi hpc hw => hpc (hinv.ended (Or.inr hw) _ (List.mem_of_getElem? hi))
  have hbefore : s.waiter ≠ .gone → I s.counted s.busy s.data := fun hw => by
    rwa [JoinState.Kept, if_neg hw] at h
  -- a task that moves on without doing work
  have hmove : ∀ {i : ℕ} {pc q : TaskPc} {owner : Option Holder} {counter : ℤ} {w : WaitPc},
      s.tasks[i]? = some pc → (pc == TaskPc.work) = (q == TaskPc.work) → pc ≠ .ended →
      (w = .enter ↔ s.waiter = .enter) → (w = .gone ↔ s.waiter = .gone) →
      JoinState.Kept I G ⟨w, s.tasks.set i q, counter, owner, s.data⟩ := by
    intro i pc q owner counter w hi hq hpc hw hw'
    have hne := hover hi hpc
    rw [JoinState.Kept, if_neg (mt hw'.mp hne), JoinState.counted, JoinState.busy]
    simp only [busy_set_self hi hq, List.length_set, hw]
    exact hbefore hne
  -- the thread that starts the tasks moves on
  have hwait : ∀ {w : WaitPc} {owner : Option Holder}, s.waiter ≠ .enter → s.waiter ≠ .gone →
      w ≠ .enter → w ≠ .gone → JoinState.Kept I G ⟨w, s.tasks, s.counter, owner, s.data⟩ := by
    intro w owner hw hw' hnew hnew'
    rw [JoinState.Kept, if_neg hnew', JoinState.counted]
    simp only [if_neg hnew, Nat.sub_zero, ← hsame hw]
    exact hbefore hw'
  cases hstep with
  | launch hw hd =>
    have hn : s.counted = s.tasks.length := hsame (by simp [hw])
    rw [hinv.counter_eq hw, ← hn] at hd
    have hnext := hkeeps.launch (hbefore (by simp [hw])) (hlength.trans hn.symm) hd
    rw [JoinState.Kept, if_neg (by simp)]
    simp only [JoinState.counted, JoinState.busy, List.map_append, List.length_append] at hnext ⊢
    simpa [hw] using hnext
  | enter hw hd =>
    have hcounter := hinv.counter
    rw [hw, if_pos rfl, nrPending, List.countP_eq_length.mpr] at hcounter
    · have hn : s.counted = s.tasks.length - 1 := by rw [JoinState.counted, if_pos hw]
      have hpos := hinv.entered hw
      have hc : s.counter = (s.counted : ℤ) := by omega
      rw [hc] at hd
      have hnext := hkeeps.enter (hbefore (by simp [hw])) (by omega) hd
      have hn' : s.counted + 1 = s.tasks.length := by omega
      rw [hn'] at hnext
      exact hnext
    · intro pc hpc
      rcases hinv.early (Or.inr (Or.inl hw)) pc hpc with rfl | rfl <;> rfl
  | stop hw hd =>
    have hn : s.counted = s.tasks.length := hsame (by simp [hw])
    have hnext := hkeeps.stop (hbefore (by simp [hw])) (hlength.trans hn.symm) hd
    rw [hn] at hnext
    exact hnext
  | leave hw =>
    have hn : s.counted = s.tasks.length := hsame (by simp [hw])
    rw [JoinState.Kept, if_pos rfl]
    simp only [← hn]
    refine hkeeps.gone (hbefore (by simp [hw])) (hlength.trans hn.symm) fun x hx => ?_
    obtain ⟨pc, hpc, rfl⟩ := List.mem_map.mp hx
    rw [hinv.ended (Or.inl hw) pc hpc]
    rfl
  | after hw hd =>
    rw [JoinState.Kept, if_pos hw] at h ⊢
    exact hkeeps.after h hd
  | work hi hd =>
    have hne := hover hi (by simp)
    rw [JoinState.Kept, if_neg hne]
    exact hkeeps.work (hbefore hne) (hwork hi) hd
  | finish hi hd =>
    have hne := hover hi (by simp)
    have hnext := hkeeps.finish (hbefore hne) (hwork hi) hd
    rw [JoinState.Kept, if_neg hne, JoinState.counted, JoinState.busy]
    simp only [busy_set, List.length_set]
    exact hnext
  | unlock hw => exact hwait (by simp [hw]) (by simp [hw]) (by simp) (by simp)
  | lock hw _ => exact hwait (by simp [hw]) (by simp [hw]) (by simp) (by simp)
  | wait hw _ => exact hwait (by simp [hw]) (by simp [hw]) (by simp) (by simp)
  | seen hw _ => exact hwait (by simp [hw]) (by simp [hw]) (by simp) (by simp)
  | spurious hw => exact hwait (by simp [hw]) (by simp [hw]) (by simp) (by simp)
  | taskLock hi _ => exact hmove hi rfl (by simp) Iff.rfl Iff.rfl
  | taskCount hi => exact hmove hi rfl (by simp) Iff.rfl Iff.rfl
  | taskSignal hi =>
    refine hmove hi rfl (by simp) ?_ ?_
    · split
      · next hw => simp [hw]
      · exact Iff.rfl
    · split
      · next hw => simp [hw]
      · exact Iff.rfl
  | taskUnlock hi => exact hmove hi rfl (by simp) Iff.rfl Iff.rfl

/-- **Every run keeps what else there is.** -/
theorem JoinSys.Keeps.run {d : σ} (h0 : I 0 [] d) {es : List JoinEvent}
    (h : Run (JoinStep sys) (joinInit d) es s) : JoinInv s ∧ s.Kept I G := by
  refine h.inv (fun _ t => JoinInv t ∧ t.Kept I G) ⟨joinInv_init d, ?_⟩
    fun _ _ _ _ hinv hstep => ⟨joinInv_step hinv.1 hstep, hkeeps.step hinv.1 hinv.2 hstep⟩
  rw [JoinState.Kept, if_neg (by simp [joinInit])]
  exact h0

end Keeps

/-! ### Nobody is stuck -/

/-- The thread that starts the tasks can start one or stop, it can count it, and if there is
work to do then some task can do some. -/
structure JoinSys.Live (sys : JoinSys σ) (s : JoinState σ) : Prop where
  /-- It can start a task or stop. -/
  launch : s.waiter = .launch → (∃ d, sys.launch s.counter s.data d) ∨ ∃ d, sys.stop s.data d
  /-- It can count it. -/
  enter : s.waiter = .enter → ∃ d, sys.enter s.counter s.data d
  /-- The tasks can work. -/
  work : TaskPc.work ∈ s.tasks → ∃ i : ℕ, s.tasks[i]? = some .work ∧
    ((∃ d, sys.work i s.data d) ∨ ∃ d, sys.finish i s.data d)

/-- **Nobody is stuck**: until the wait is over, some thread can go on, and not only because
its wait ends without a signal. -/
theorem JoinInv.progress (h : JoinInv s) (hlive : sys.Live s) (hgone : s.waiter ≠ .gone) :
    ∃ e s', e ≠ .spurious ∧ JoinStep sys s e s' := by
  -- a task that holds the mutex can go on, and so can one that has its work to do
  have htask : ∀ (i : ℕ) (pc : TaskPc), s.tasks[i]? = some pc → pc.holds = true →
      ∃ e s', e ≠ .spurious ∧ JoinStep sys s e s' := by
    intro i pc hi hpc
    cases pc with
    | count => exact ⟨_, _, by simp, .taskCount hi⟩
    | signal => exact ⟨_, _, by simp, .taskSignal hi⟩
    | unlock => exact ⟨_, _, by simp, .taskUnlock hi⟩
    | _ => exact absurd hpc (by simp [TaskPc.holds])
  have hmutex : s.waiter.holds = false →
      s.owner = none ∨ ∃ e s', e ≠ .spurious ∧ JoinStep sys s e s' := by
    intro hw
    rcases howner : s.owner with _ | _ | i
    · exact Or.inl rfl
    · exact absurd (h.waiter.mp howner) (by simp [hw])
    · obtain ⟨pc, hi, hpc⟩ := (h.task i).mp howner
      exact Or.inr (htask i pc hi hpc)
  cases hw : s.waiter with
  | launch =>
    rcases hlive.launch hw with ⟨d, hd⟩ | ⟨d, hd⟩
    · exact ⟨_, _, by simp, .launch hw hd⟩
    · exact ⟨_, _, by simp, .stop hw hd⟩
  | enter =>
    obtain ⟨d, hd⟩ := hlive.enter hw
    exact ⟨_, _, by simp, .enter hw hd⟩
  | unlock => exact ⟨_, _, by simp, .unlock hw⟩
  | lock =>
    refine (hmutex (by rw [hw]; rfl)).elim (fun free => ?_) id
    exact ⟨_, _, by simp, .lock hw free⟩
  | test =>
    by_cases hc : s.counter = 0
    · exact ⟨_, _, by simp, .seen hw hc⟩
    · exact ⟨_, _, by simp, .wait hw hc⟩
  | wait =>
    rcases h.wait hw with hc | hs
    · -- some task is still to count down
      have hcounter := h.counter
      rw [hw, if_neg (by simp)] at hcounter
      obtain ⟨pc, hmem, hpc⟩ := List.countP_pos_iff.mp (show 0 < nrPending s.tasks by omega)
      obtain ⟨i, hi⟩ := List.mem_iff_getElem?.mp hmem
      cases pc with
      | work =>
        obtain ⟨j, hj, ⟨d, hd⟩ | ⟨d, hd⟩⟩ := hlive.work hmem
        · exact ⟨_, _, by simp, .work hj hd⟩
        · exact ⟨_, _, by simp, .finish hj hd⟩
      | lock =>
        refine (hmutex (by rw [hw]; rfl)).elim (fun free => ?_) id
        exact ⟨_, _, by simp, .taskLock hi free⟩
      | count => exact htask i _ hi rfl
      | _ => exact absurd hpc (by simp [TaskPc.pending])
    · obtain ⟨i, hi⟩ := List.mem_iff_getElem?.mp hs
      exact htask i _ hi rfl
  | leave => exact ⟨_, _, by simp, .leave hw⟩
  | gone => exact absurd hw hgone

end Invariant

/-! ### Runs are finite -/

/-- How many steps the thread that starts the tasks may be away from its end, at most. -/
def WaitPc.rank : WaitPc → ℕ
  | .enter => 8
  | .launch => 7
  | .unlock => 4
  | .lock => 3
  | .test => 2
  | .wait | .leave => 1
  | .gone => 0

/-- How many steps a task may be away from its end, at most, and those of a thread that it
wakes up. -/
def TaskPc.rank : TaskPc → ℕ
  | .work => 7
  | .lock => 6
  | .count => 5
  | .signal => 4
  | .unlock => 1
  | .ended => 0

section Measure

variable {σ : Type*} {sys : JoinSys σ}

/-- A bound on what is left to be done. -/
structure JoinSys.Bounded (sys : JoinSys σ) (rest : σ → ℕ) : Prop where
  /-- A task is started. -/
  launch : ∀ {c d d'}, sys.launch c d d' → rest d' < rest d
  /-- It is counted. -/
  enter : ∀ {c d d'}, sys.enter c d d' → rest d' ≤ rest d
  /-- No more tasks are started. -/
  stop : ∀ {d d'}, sys.stop d d' → rest d' ≤ rest d
  /-- A task does some of its work. -/
  work : ∀ {i d d'}, sys.work i d d' → rest d' < rest d
  /-- A task has done its work. -/
  finish : ∀ {i d d'}, sys.finish i d d' → rest d' ≤ rest d
  /-- The thread goes on after the wait. -/
  after : ∀ {d d'}, sys.after d d' → rest d' < rest d

/-- What every step lowers, but a wait that ends without a signal. -/
def JoinState.measure (rest : σ → ℕ) (s : JoinState σ) : ℕ :=
  12 * rest s.data + (s.tasks.map TaskPc.rank).sum + s.waiter.rank

theorem ranked_measure {rest : σ → ℕ} (hb : sys.Bounded rest) :
    Ranked (JoinStep sys) (JoinState.measure rest) (· == .spurious) 3 := by
  intro s e s' h
  cases h with
  | launch hw hd =>
    have hrest := hb.launch hd
    simp [JoinState.measure, hw, WaitPc.rank, TaskPc.rank]
    omega
  | enter hw hd =>
    have hrest := hb.enter hd
    simp [JoinState.measure, hw, WaitPc.rank]
    omega
  | stop hw hd =>
    have hrest := hb.stop hd
    simp [JoinState.measure, hw, WaitPc.rank]
    omega
  | after hw hd =>
    have hrest := hb.after hd
    simp [JoinState.measure]
    omega
  | unlock hw => simp [JoinState.measure, hw, WaitPc.rank]
  | lock hw _ => simp [JoinState.measure, hw, WaitPc.rank]
  | wait hw _ => simp [JoinState.measure, hw, WaitPc.rank]
  | seen hw _ => simp [JoinState.measure, hw, WaitPc.rank]
  | leave hw => simp [JoinState.measure, hw, WaitPc.rank]
  | spurious hw => simp [JoinState.measure, hw, WaitPc.rank]
  | work hi hd =>
    have hrest := hb.work hd
    simp [JoinState.measure]
    omega
  | finish hi hd =>
    have hrest := hb.finish hd
    have hsum := sum_map_set hi .lock TaskPc.rank
    simp [JoinState.measure, TaskPc.rank] at hsum ⊢
    omega
  | taskLock hi _ =>
    have hsum := sum_map_set hi .count TaskPc.rank
    simp [JoinState.measure, TaskPc.rank] at hsum ⊢
    omega
  | taskCount hi =>
    have hsum := sum_map_set hi .signal TaskPc.rank
    simp [JoinState.measure, TaskPc.rank] at hsum ⊢
    omega
  | taskSignal hi =>
    have hsum := sum_map_set hi .unlock TaskPc.rank
    have hwake : (if s.waiter = .wait then WaitPc.lock else s.waiter).rank ≤ s.waiter.rank + 2 := by
      split
      · next hw => rw [hw]; decide
      · omega
    simp [JoinState.measure, TaskPc.rank] at hsum ⊢
    omega
  | taskUnlock hi =>
    have hsum := sum_map_set hi .ended TaskPc.rank
    simp [JoinState.measure, TaskPc.rank] at hsum ⊢
    omega

/-- **Runs are finite**, but for waits that end without a signal. -/
theorem length_le_of_run {rest : σ → ℕ} (hb : sys.Bounded rest) {s s' : JoinState σ}
    {es : List JoinEvent} (h : Run (JoinStep sys) s es s') :
    es.length + s'.measure rest ≤ s.measure rest + 3 * es.count .spurious :=
  h.length_le (ranked_measure hb)

/-- **Every wait can come to its end**: if the threads never get stuck, then each run goes on
to where the wait is over. -/
theorem exists_run_gone {rest : σ → ℕ} (hb : sys.Bounded rest) {d : σ}
    (hlive : ∀ es s, Run (JoinStep sys) (joinInit d) es s → sys.Live s) {es : List JoinEvent}
    {s : JoinState σ} (hrun : Run (JoinStep sys) (joinInit d) es s) :
    ∃ es' s', Run (JoinStep sys) s es' s' ∧ s'.waiter = .gone := by
  refine exists_run_end (ranked_measure hb) (fun es t hrun => ?_) hrun
  by_cases hgone : t.waiter = .gone
  · exact Or.inl hgone
  · obtain ⟨e, u, hne, hstep⟩ := (joinInv_of_run hrun).progress (hlive es t hrun) hgone
    exact Or.inr ⟨e, u, beq_eq_false_iff_ne.mpr hne, hstep⟩

end Measure

end CortxMio.Lib
