import Mathlib.Data.List.Basic

/-!
# Programs that leave a trace

A program moves a state, may fail, and puts what it does on record
(`CortxMio.Lib.TraceM`). The trace is kept when the program fails, so that one can say
of any run what has been done in it.

* `CortxMio.Lib.Watched` says that what is done in a run is as it should be exactly if
  what it was done to was.
* `CortxMio.Lib.Agrees` says of two programs that they yield the same exactly if no entry
  of the trace of the first tells them apart.

Both are kept when programs are put together (`CortxMio.Lib.Watched.bind`,
`CortxMio.Lib.Agrees.bind`).
-/

namespace CortxMio.Lib

/-- A state, and what has been done. -/
structure Traced (σ κ : Type) where
  /-- The state. -/
  state : σ
  /-- The entries of the trace, the first one first. -/
  trace : List κ
  deriving DecidableEq

/-- A program with a trace. -/
abbrev TraceM (ε σ κ α : Type) := EStateM ε (Traced σ κ) α

variable {ε σ κ α β : Type}

/-- Where a run ends, well or not. -/
def ending : EStateM.Result ε (Traced σ κ) α → Traced σ κ
  | .ok _ s | .error _ s => s

/-- What a run returns. -/
def returned : EStateM.Result ε (Traced σ κ) α → Except ε α
  | .ok a _ => .ok a
  | .error e _ => .error e

theorem returned_eq_ok_iff {run : EStateM.Result ε (Traced σ κ) α} {a : α} :
    returned run = .ok a ↔ ∃ s, run = .ok a s := by
  cases run <;> simp [returned]

theorem returned_eq_error_iff {run : EStateM.Result ε (Traced σ κ) α} {e : ε} :
    returned run = .error e ↔ ∃ s, run = .error e s := by
  cases run <;> simp [returned]

/-- What a computation that may fail yields, without a change of the state. -/
def TraceM.lift (x : Except ε α) : TraceM ε σ κ α := fun s =>
  match x with
  | .ok a => .ok a s
  | .error e => .error e s

/-- Move on to a state, and put an entry on record. -/
def TraceM.record (c : κ) (state : σ) : TraceM ε σ κ Unit := fun s =>
  .ok () ⟨state, s.trace ++ [c]⟩

/-- A program goes on where its first part ended. -/
theorem TraceM.bind_of_ok {P : TraceM ε σ κ α} {f : α → TraceM ε σ κ β} {s r : Traced σ κ} {a : α}
    (h : P s = .ok a r) : (P >>= f) s = f a r := by
  show EStateM.bind P f s = f a r
  rw [EStateM.bind, h]

theorem TraceM.bind_of_error {P : TraceM ε σ κ α} {f : α → TraceM ε σ κ β} {s r : Traced σ κ}
    {e : ε} (h : P s = .error e r) : (P >>= f) s = .error e r := by
  show EStateM.bind P f s = .error e r
  rw [EStateM.bind, h]

theorem TraceM.get_bind (f : Traced σ κ → TraceM ε σ κ β) (s : Traced σ κ) :
    (get >>= f) s = f s s := rfl

theorem TraceM.lift_bind_of_ok {x : Except ε α} {a : α} (h : x = .ok a)
    (f : α → TraceM ε σ κ β) (s : Traced σ κ) : (TraceM.lift x >>= f) s = f a s := by
  rw [h]
  rfl

theorem TraceM.lift_bind_of_error {x : Except ε α} {e : ε} (h : x = .error e)
    (f : α → TraceM ε σ κ β) (s : Traced σ κ) : (TraceM.lift x >>= f) s = .error e s := by
  rw [h]
  rfl

theorem TraceM.record_bind (c : κ) (state : σ) (f : Unit → TraceM ε σ κ β) (s : Traced σ κ) :
    (TraceM.record c state >>= f) s = f () ⟨state, s.trace ++ [c]⟩ := rfl

/-! ### Traces grow -/

/-- Nothing is taken off the record. -/
def Grows (P : TraceM ε σ κ α) : Prop := ∀ s, ∃ new, (ending (P s)).trace = s.trace ++ new

theorem Grows.pure (a : α) : Grows (pure a : TraceM ε σ κ α) := fun _ =>
  ⟨[], (List.append_nil _).symm⟩

theorem Grows.throw (e : ε) : Grows (throw e : TraceM ε σ κ α) := fun _ =>
  ⟨[], (List.append_nil _).symm⟩

theorem Grows.get : Grows (get : TraceM ε σ κ (Traced σ κ)) := fun _ =>
  ⟨[], (List.append_nil _).symm⟩

theorem Grows.lift (x : Except ε α) : Grows (TraceM.lift x : TraceM ε σ κ α) := fun _ => by
  cases x <;> exact ⟨[], (List.append_nil _).symm⟩

theorem Grows.record (c : κ) (state : σ) : Grows (TraceM.record c state : TraceM ε σ κ Unit) :=
  fun _ => ⟨[c], rfl⟩

theorem Grows.bind {P : TraceM ε σ κ α} {f : α → TraceM ε σ κ β} (hP : Grows P)
    (hf : ∀ a, Grows (f a)) : Grows (P >>= f) := by
  intro s
  obtain ⟨new, hnew⟩ := hP s
  cases hrun : P s with
  | error e r =>
    rw [hrun] at hnew
    rw [TraceM.bind_of_error hrun]
    exact ⟨new, hnew⟩
  | ok a r =>
    rw [hrun] at hnew
    have hnew : r.trace = s.trace ++ new := hnew
    obtain ⟨new', hnew'⟩ := hf a r
    rw [TraceM.bind_of_ok hrun]
    exact ⟨new ++ new', by rw [hnew', hnew, List.append_assoc]⟩

/-- The trace of a composition is that of one part and then that of the other. -/
theorem Grows.split {P : TraceM ε σ κ α} {f : α → TraceM ε σ κ β} (hP : Grows P)
    (hf : ∀ a, Grows (f a)) {s r : Traced σ κ} {a : α} {total : List κ} (hfirst : P s = .ok a r)
    (htrace : (ending (f a r)).trace = s.trace ++ total) :
    ∃ new new', total = new ++ new' ∧ r.trace = s.trace ++ new ∧
      (ending (f a r)).trace = r.trace ++ new' := by
  obtain ⟨new, hnew⟩ := hP s
  obtain ⟨new', hnew'⟩ := hf a r
  have hr : r.trace = s.trace ++ new := by rwa [hfirst] at hnew
  refine ⟨new, new', ?_, hr, hnew'⟩
  rw [hnew', hr, List.append_assoc] at htrace
  exact (List.append_cancel_left htrace).symm

/-! ### Runs that are watched -/

section Watched

variable {I : σ → Prop} {pre post : κ → Prop} {harm : ε → Prop}

/-- In every run from a state with a property, all entries are good (`post`) and no harm
is done exactly if all were made for something good (`pre`); in this case the property is
kept. -/
structure Watched (I : σ → Prop) (pre post : κ → Prop) (harm : ε → Prop)
    (P : TraceM ε σ κ α) : Prop where
  grows : Grows P
  ok : ∀ {s a r new}, I s.state → P s = .ok a r → r.trace = s.trace ++ new →
    ((∀ c ∈ new, pre c) ↔ ∀ c ∈ new, post c) ∧ ((∀ c ∈ new, pre c) → I r.state)
  error : ∀ {s e r new}, I s.state → P s = .error e r → r.trace = s.trace ++ new →
    ((∀ c ∈ new, pre c) ↔ (∀ c ∈ new, post c) ∧ ¬ harm e)

/-- Of a program that starts in no state there is nothing to be said. -/
theorem Watched.of_grows {P : TraceM ε σ κ α} (hP : Grows P) :
    Watched (fun _ => False) (fun _ => True) (fun _ => True) (fun _ => False) P :=
  ⟨hP, fun hs => hs.elim, fun hs => hs.elim⟩

theorem Watched.pure (a : α) : Watched I pre post harm (pure a) where
  grows := .pure a
  ok hs hrun htrace := by
    cases hrun
    obtain rfl := List.self_eq_append_right.mp htrace
    exact ⟨iff_of_true nofun nofun, fun _ => hs⟩
  error _ hrun := nomatch hrun

/-- To fail without harm is all right. -/
theorem Watched.throw {e : ε} (he : ¬ harm e) :
    Watched I pre post harm (throw e : TraceM ε σ κ α) where
  grows := .throw e
  ok _ hrun := nomatch hrun
  error _ hrun htrace := by
    cases hrun
    obtain rfl := List.self_eq_append_right.mp htrace
    exact iff_of_true nofun ⟨nofun, he⟩

/-- **One part is watched after the other.** -/
theorem Watched.bind {P : TraceM ε σ κ α} {f : α → TraceM ε σ κ β}
    (hP : Watched I pre post harm P) (hf : ∀ a, Watched I pre post harm (f a)) :
    Watched I pre post harm (P >>= f) where
  grows := hP.grows.bind fun a => (hf a).grows
  ok {s b t total} hs hrun htrace := by
    cases hfirst : P s with
    | error e r =>
      rw [TraceM.bind_of_error hfirst] at hrun
      cases hrun
    | ok a r =>
      rw [TraceM.bind_of_ok hfirst] at hrun
      obtain ⟨new, new', rfl, hnew, hnew'⟩ := hP.grows.split (fun a => (hf a).grows) hfirst
        (by rw [hrun]; exact htrace)
      rw [hrun] at hnew'
      obtain ⟨hiff, hkeep⟩ := hP.ok hs hfirst hnew
      rw [List.forall_mem_append, List.forall_mem_append, ← hiff]
      by_cases hpre : ∀ c ∈ new, pre c
      · obtain ⟨hiff', hkeep'⟩ := (hf a).ok (hkeep hpre) hrun hnew'
        exact ⟨and_congr_right fun _ => hiff', fun h => hkeep' h.2⟩
      · exact ⟨iff_of_false (fun h => hpre h.1) fun h => hpre h.1, fun h => absurd h.1 hpre⟩
  error {s e t total} hs hrun htrace := by
    cases hfirst : P s with
    | error e' r =>
      rw [TraceM.bind_of_error hfirst] at hrun
      cases hrun
      exact hP.error hs hfirst htrace
    | ok a r =>
      rw [TraceM.bind_of_ok hfirst] at hrun
      obtain ⟨new, new', rfl, hnew, hnew'⟩ := hP.grows.split (fun a => (hf a).grows) hfirst
        (by rw [hrun]; exact htrace)
      rw [hrun] at hnew'
      obtain ⟨hiff, hkeep⟩ := hP.ok hs hfirst hnew
      rw [List.forall_mem_append, List.forall_mem_append, ← hiff, and_assoc]
      by_cases hpre : ∀ c ∈ new, pre c
      · exact and_congr_right fun _ => (hf a).error (hkeep hpre) hrun hnew'
      · exact iff_of_false (fun h => hpre h.1) fun h => hpre h.1

/-- What a first step does after which a program is watched: it fails without harm, or it
puts one entry on record, and harm is done at once if that was made for something bad. -/
def Watched.Step (I : σ → Prop) (pre post : κ → Prop) (harm : ε → Prop) (P : TraceM ε σ κ α)
    (f : α → TraceM ε σ κ β) (s : Traced σ κ) : Prop :=
  (∃ e, ¬ harm e ∧ P s = .error e s) ∨
    ∃ a c state, P s = .ok a ⟨state, s.trace ++ [c]⟩ ∧ I state ∧ post c ∧
      ((pre c ∧ Watched I pre post harm (f a)) ∨
        ¬ pre c ∧ ∃ e, harm e ∧ ∀ t, f a t = .error e t)

theorem Watched.bind_of_step {P : TraceM ε σ κ α} {f : α → TraceM ε σ κ β} (hP : Grows P)
    (hf : ∀ a, Grows (f a)) (hstep : ∀ s, I s.state → Watched.Step I pre post harm P f s) :
    Watched I pre post harm (P >>= f) where
  grows := hP.bind hf
  ok {s b t total} hs hrun htrace := by
    rcases hstep s hs with ⟨e, -, herror⟩ | ⟨a, c, state, hok, hstate, hpost, h⟩
    · rw [TraceM.bind_of_error herror] at hrun
      cases hrun
    · rw [TraceM.bind_of_ok hok] at hrun
      rcases h with ⟨hpre, hrest⟩ | ⟨-, e, -, herror⟩
      · obtain ⟨new, hnew⟩ := hrest.grows ⟨state, s.trace ++ [c]⟩
        rw [hrun] at hnew
        have hnew : t.trace = s.trace ++ [c] ++ new := hnew
        obtain ⟨hiff, hkeep⟩ := hrest.ok hstate hrun hnew
        rw [htrace, List.append_assoc] at hnew
        obtain rfl := List.append_cancel_left hnew
        rw [List.singleton_append, List.forall_mem_cons, List.forall_mem_cons, and_iff_right hpre,
          and_iff_right hpost]
        exact ⟨hiff, hkeep⟩
      · rw [herror] at hrun
        cases hrun
  error {s e t total} hs hrun htrace := by
    rcases hstep s hs with ⟨e', hharm, herror⟩ | ⟨a, c, state, hok, hstate, hpost, h⟩
    · rw [TraceM.bind_of_error herror] at hrun
      cases hrun
      obtain rfl := List.self_eq_append_right.mp htrace
      exact iff_of_true nofun ⟨nofun, hharm⟩
    · rw [TraceM.bind_of_ok hok] at hrun
      rcases h with ⟨hpre, hrest⟩ | ⟨hpre, e', hharm, herror⟩
      · obtain ⟨new, hnew⟩ := hrest.grows ⟨state, s.trace ++ [c]⟩
        rw [hrun] at hnew
        have hnew : t.trace = s.trace ++ [c] ++ new := hnew
        have hiff := hrest.error hstate hrun hnew
        rw [htrace, List.append_assoc] at hnew
        obtain rfl := List.append_cancel_left hnew
        rw [List.singleton_append, List.forall_mem_cons, List.forall_mem_cons, and_iff_right hpre,
          and_iff_right hpost]
        exact hiff
      · rw [herror] at hrun
        cases hrun
        obtain rfl := List.append_cancel_left htrace
        refine iff_of_false (fun h => hpre ?_) fun h => h.2 hharm
        exact h c (List.mem_singleton_self c)

end Watched

/-! ### What programs yield -/

/-- Whatever a program yields has a property. -/
def Yields (φ : α → Prop) (P : TraceM ε σ κ α) : Prop := ∀ s a r, P s = .ok a r → φ a

theorem Yields.pure {φ : α → Prop} {a : α} (ha : φ a) :
    Yields φ (Pure.pure a : TraceM ε σ κ α) := by
  intro s b r hrun
  cases hrun
  exact ha

theorem Yields.bind {φ : α → Prop} {ψ : β → Prop} {P : TraceM ε σ κ α} {f : α → TraceM ε σ κ β}
    (hP : Yields φ P) (hf : ∀ a, φ a → Yields ψ (f a)) : Yields ψ (P >>= f) := by
  intro s b t hrun
  cases hfirst : P s with
  | error e r =>
    rw [TraceM.bind_of_error hfirst] at hrun
    cases hrun
  | ok a r =>
    rw [TraceM.bind_of_ok hfirst] at hrun
    exact hf a (hP s a r hfirst) r b t hrun

/-- Of what a first part yields nothing need be known. -/
theorem Yields.of_bind {ψ : β → Prop} {P : TraceM ε σ κ α} {f : α → TraceM ε σ κ β}
    (hf : ∀ a, Yields ψ (f a)) : Yields ψ (P >>= f) :=
  Yields.bind (fun _ _ _ _ => trivial : Yields (fun _ => True) P) fun a _ => hf a

/-! ### Programs that agree -/

section Agrees

variable {quiet : κ → Prop}

/-- Two programs are started in the same state. The second one yields what the first one
does exactly if all entries of the trace of the first are quiet, and they are then in the
same state again; and it fails as the first one does if they are. -/
structure Agrees (quiet : κ → Prop) (P Q : TraceM ε σ κ α) : Prop where
  grows : Grows P
  ok : ∀ {s t a r new}, t.state = s.state → P s = .ok a r → r.trace = s.trace ++ new →
    ((∀ c ∈ new, quiet c) ↔ ∃ r', Q t = .ok a r') ∧ ∀ {r'}, Q t = .ok a r' → r'.state = r.state
  error : ∀ {s t e r new}, t.state = s.state → P s = .error e r → r.trace = s.trace ++ new →
    (∀ c ∈ new, quiet c) → ∃ r', Q t = .error e r'

theorem Agrees.pure (a : α) : Agrees quiet (pure a : TraceM ε σ κ α) (Pure.pure a) where
  grows := .pure a
  ok {s t b r new} hstate hrun htrace := by
    cases hrun
    obtain rfl := List.self_eq_append_right.mp htrace
    refine ⟨iff_of_true nofun ⟨t, rfl⟩, fun hrun' => ?_⟩
    cases hrun'
    exact hstate
  error _ hrun := nomatch hrun

theorem Agrees.throw (e : ε) : Agrees quiet (throw e : TraceM ε σ κ α) (MonadExcept.throw e) where
  grows := .throw e
  ok _ hrun := nomatch hrun
  error {_ t _ _ _} _ hrun _ _ := by
    cases hrun
    exact ⟨t, rfl⟩

/-- **Programs agree if their parts do**, and what is yielded in the end tells what their
first parts yielded. -/
theorem Agrees.bind {P Q : TraceM ε σ κ α} {f g : α → TraceM ε σ κ β} (hP : Agrees quiet P Q)
    (hf : ∀ a, Agrees quiet (f a) (g a))
    (htell : ∀ {s t a b r r' v u u'}, t.state = s.state → P s = .ok a r → Q t = .ok b r' →
      f a r = .ok v u → g b r' = .ok v u' → a = b) :
    Agrees quiet (P >>= f) (Q >>= g) where
  grows := hP.grows.bind fun a => (hf a).grows
  ok {s t v u total} hstate hrun htrace := by
    cases hfirst : P s with
    | error e r =>
      rw [TraceM.bind_of_error hfirst] at hrun
      cases hrun
    | ok a r =>
      rw [TraceM.bind_of_ok hfirst] at hrun
      obtain ⟨new, new', rfl, hnew, hnew'⟩ := hP.grows.split (fun a => (hf a).grows) hfirst
        (by rw [hrun]; exact htrace)
      rw [hrun] at hnew'
      obtain ⟨hiff, hsame⟩ := hP.ok hstate hfirst hnew
      -- a second run to the same end has been through the same middle
      have hback : ∀ {u'}, (Q >>= g) t = .ok v u' → ∃ r', Q t = .ok a r' ∧ g a r' = .ok v u' := by
        intro u' hrun'
        cases hfirst' : Q t with
        | error e r' =>
          rw [TraceM.bind_of_error hfirst'] at hrun'
          cases hrun'
        | ok b r' =>
          rw [TraceM.bind_of_ok hfirst'] at hrun'
          obtain rfl := htell hstate hfirst hfirst' hrun hrun'
          exact ⟨r', rfl, hrun'⟩
      rw [List.forall_mem_append]
      refine ⟨⟨fun hquiet => ?_, fun ⟨u', hrun'⟩ => ?_⟩, fun hrun' => ?_⟩
      · obtain ⟨r', hfirst'⟩ := hiff.mp hquiet.1
        rw [TraceM.bind_of_ok hfirst']
        exact ((hf a).ok (hsame hfirst') hrun hnew').1.mp hquiet.2
      · obtain ⟨r', hfirst', hrun'⟩ := hback hrun'
        exact ⟨hiff.mpr ⟨r', hfirst'⟩,
          ((hf a).ok (hsame hfirst') hrun hnew').1.mpr ⟨u', hrun'⟩⟩
      · obtain ⟨r', hfirst', hrun'⟩ := hback hrun'
        exact ((hf a).ok (hsame hfirst') hrun hnew').2 hrun'
  error {s t e u total} hstate hrun htrace hquiet := by
    cases hfirst : P s with
    | error e' r =>
      rw [TraceM.bind_of_error hfirst] at hrun
      cases hrun
      obtain ⟨r', hfirst'⟩ := hP.error hstate hfirst htrace hquiet
      exact ⟨r', TraceM.bind_of_error hfirst'⟩
    | ok a r =>
      rw [TraceM.bind_of_ok hfirst] at hrun
      obtain ⟨new, new', rfl, hnew, hnew'⟩ := hP.grows.split (fun a => (hf a).grows) hfirst
        (by rw [hrun]; exact htrace)
      rw [hrun] at hnew'
      rw [List.forall_mem_append] at hquiet
      obtain ⟨hiff, hsame⟩ := hP.ok hstate hfirst hnew
      obtain ⟨r', hfirst'⟩ := hiff.mp hquiet.1
      rw [TraceM.bind_of_ok hfirst']
      exact (hf a).error (hsame hfirst') hrun hnew' hquiet.2

/-- What is yielded may be packed up in the end. -/
theorem Agrees.map {P Q : TraceM ε σ κ α} (hP : Agrees quiet P Q) {g : α → β}
    (hg : Function.Injective g) :
    Agrees quiet (P >>= fun a => Pure.pure (g a)) (Q >>= fun a => Pure.pure (g a)) :=
  hP.bind (fun _ => .pure _) fun _ _ _ hrun hrun' =>
    hg ((EStateM.Result.ok.inj hrun).1.trans (EStateM.Result.ok.inj hrun').1.symm)

end Agrees

end CortxMio.Lib
