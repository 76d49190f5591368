import Mathlib.Data.Set.Basic
import Mathlib.Data.Option.Basic

/-!
# Blits: storing runs of values in an addressed memory

A memory is a total function `α → β` from addresses to values, and an address
type is anything in which one can walk forward from a base
(`CortxMio.Lib.Addr`): offsets of an object, or pointers with several regions.
A *move* stores `len` given values from a start address on; a *copy* stores
what the memory itself holds elsewhere. Lists of either are run in order.

The results are pointwise, and they avoid any argument about the order of the
moves. The idea is a *target* memory `T` that every move agrees with: then each
address that some move covers ends with its target value
(`CortxMio.Lib.blitAll_of_covered`, `CortxMio.Lib.copyAll_of_covered`), and
every other address is untouched.
-/

namespace CortxMio

namespace Lib

/-- Addresses: `shift b i` is the `i`-th address from `b` on, and `pos b a`
finds the `i` back. -/
class Addr (α : Type*) where
  /-- The `i`-th address from a base on. -/
  shift : α → ℕ → α
  /-- How far an address lies behind a base, if it does at all. -/
  pos : α → α → Option ℕ
  /-- The two agree. -/
  pos_eq_some : ∀ {b a : α} {i : ℕ}, pos b a = some i ↔ a = shift b i

/-- Offsets are addresses. -/
instance : Addr ℕ where
  shift b i := b + i
  pos b a := if b ≤ a then some (a - b) else none
  pos_eq_some {b a i} := by
    split <;> simp <;> omega

variable {α β : Type*} [Addr α]

@[simp] theorem pos_shift (b : α) (i : ℕ) : Addr.pos b (Addr.shift b i) = some i :=
  Addr.pos_eq_some.mpr rfl

/-- The addresses of a run of `len` values from `b` on. -/
def InRun (b : α) (len : ℕ) (a : α) : Prop := ∃ i, i < len ∧ a = Addr.shift b i

/-- A run of offsets is an interval. -/
theorem inRun_nat {b len x : ℕ} : InRun b len x ↔ b ≤ x ∧ x < b + len := by
  constructor
  · rintro ⟨i, hi, rfl⟩
    exact ⟨Nat.le_add_right b i, Nat.add_lt_add_left hi b⟩
  · rintro ⟨h1, h2⟩
    exact ⟨x - b, by omega, show x = b + (x - b) by omega⟩

/-! ### One move -/

/-- Store `src 0, …, src (len - 1)` from address `b` on. -/
def blit (b : α) (len : ℕ) (src : ℕ → β) (m : α → β) : α → β := fun a =>
  match Addr.pos b a with
  | some i => if i < len then src i else m a
  | none => m a

@[simp] theorem blit_shift {b : α} {len i : ℕ} (hi : i < len) (src : ℕ → β) (m : α → β) :
    blit b len src m (Addr.shift b i) = src i := by
  rw [blit, pos_shift]
  exact if_pos hi

theorem blit_of_not_inRun {b a : α} {len : ℕ} (h : ¬InRun b len a) (src : ℕ → β) (m : α → β) :
    blit b len src m a = m a := by
  rw [blit]
  cases hp : Addr.pos b a with
  | none => rfl
  | some i =>
    refine if_neg fun hi => h ⟨i, hi, ?_⟩
    exact Addr.pos_eq_some.mp hp

/-! ### A list of moves -/

/-- A move: where it starts, how long it is and what it stores. -/
structure Move (α β : Type*) where
  /-- The first address stored to. -/
  start : α
  /-- The number of values stored. -/
  len : ℕ
  /-- The values. -/
  src : ℕ → β

/-- Run the moves in order. -/
def blitAll (l : List (Move α β)) (m : α → β) : α → β :=
  l.foldl (fun m mv => blit mv.start mv.len mv.src m) m

@[simp] theorem blitAll_nil (m : α → β) : blitAll ([] : List (Move α β)) m = m := rfl

@[simp] theorem blitAll_cons (mv : Move α β) (l : List (Move α β)) (m : α → β) :
    blitAll (mv :: l) m = blitAll l (blit mv.start mv.len mv.src m) := rfl

theorem blitAll_append (l l' : List (Move α β)) (m : α → β) :
    blitAll (l ++ l') m = blitAll l' (blitAll l m) := by
  simp [blitAll]

/-- An address some move of the list stores to. -/
def Covered (l : List (Move α β)) (a : α) : Prop := ∃ mv ∈ l, InRun mv.start mv.len a

theorem blitAll_of_not_covered {l : List (Move α β)} {a : α} (h : ¬Covered l a) (m : α → β) :
    blitAll l m a = m a := by
  induction l generalizing m with
  | nil => rfl
  | cons mv l ih =>
    rw [blitAll_cons, ih fun ⟨mv', hmem, hrun⟩ => h ⟨mv', List.mem_cons_of_mem _ hmem, hrun⟩]
    exact blit_of_not_inRun (fun hrun => h ⟨mv, List.mem_cons_self, hrun⟩) _ m

/-- **Moves that agree with a target leave the target behind.** -/
theorem blitAll_of_covered {l : List (Move α β)} {T : α → β} {a : α}
    (hT : ∀ mv ∈ l, ∀ i, i < mv.len → a = Addr.shift mv.start i → mv.src i = T a)
    (h : Covered l a) (m : α → β) : blitAll l m a = T a := by
  induction l generalizing m with
  | nil =>
    obtain ⟨mv, hmem, -⟩ := h
    exact absurd hmem List.not_mem_nil
  | cons mv l ih =>
    rw [blitAll_cons]
    have hT' : ∀ mv' ∈ l, ∀ i, i < mv'.len → a = Addr.shift mv'.start i → mv'.src i = T a :=
      fun mv' hmem => hT mv' (List.mem_cons_of_mem _ hmem)
    by_cases hl : Covered l a
    · exact ih hT' hl _
    · -- the last word on `a` is the first move's
      rw [blitAll_of_not_covered hl]
      obtain ⟨mv', hmem, i, hi, ha⟩ := h
      rcases List.mem_cons.mp hmem with rfl | hmem
      · rw [ha, blit_shift hi, ← ha]
        exact hT mv' List.mem_cons_self i hi ha
      · exact absurd ⟨mv', hmem, i, hi, ha⟩ hl

/-- What a list of moves leaves at an address depends on the memory at that
address only. -/
theorem blitAll_congr {l : List (Move α β)} {m m' : α → β} {a : α} (h : m a = m' a) :
    blitAll l m a = blitAll l m' a := by
  induction l generalizing m m' with
  | nil => exact h
  | cons mv l ih =>
    rw [blitAll_cons, blitAll_cons]
    refine ih ?_
    by_cases hrun : InRun mv.start mv.len a
    · obtain ⟨i, hi, rfl⟩ := hrun
      rw [blit_shift hi, blit_shift hi]
    · rw [blit_of_not_inRun hrun, blit_of_not_inRun hrun, h]

/-! ### A list of copies -/

/-- A copy inside one memory. -/
structure Copy (α : Type*) where
  /-- The first address copied to. -/
  dst : α
  /-- The first address copied from. -/
  src : α
  /-- The number of values copied. -/
  len : ℕ

/-- Run the copies in order, each reading what the ones before it left. -/
def copyAll (l : List (Copy α)) (m : α → β) : α → β :=
  l.foldl (fun m c => blit c.dst c.len (fun i => m (Addr.shift c.src i)) m) m

@[simp] theorem copyAll_cons (c : Copy α) (l : List (Copy α)) (m : α → β) :
    copyAll (c :: l) m =
      copyAll l (blit c.dst c.len (fun i => m (Addr.shift c.src i)) m) := rfl

/-- An address some copy of the list stores to. -/
def CopyCovered (l : List (Copy α)) (a : α) : Prop := ∃ c ∈ l, InRun c.dst c.len a

theorem copyAll_of_not_covered {l : List (Copy α)} {a : α} (h : ¬CopyCovered l a) (m : α → β) :
    copyAll l m a = m a := by
  induction l generalizing m with
  | nil => rfl
  | cons c l ih =>
    rw [copyAll_cons, ih fun ⟨c', hmem, hrun⟩ => h ⟨c', List.mem_cons_of_mem _ hmem, hrun⟩]
    exact blit_of_not_inRun (fun hrun => h ⟨c, List.mem_cons_self, hrun⟩) _ m

/-- **Copies that agree with a target leave the target behind.** Each copy reads
an address that already holds its target value, and its destination has the same
target; the values being right where they are right at the start is what every
copy keeps. -/
theorem copyAll_of_covered {l : List (Copy α)} {T m : α → β} {a : α}
    (hT : ∀ c ∈ l, ∀ i, i < c.len → m (Addr.shift c.src i) = T (Addr.shift c.src i) ∧
      T (Addr.shift c.src i) = T (Addr.shift c.dst i))
    (h : CopyCovered l a) : copyAll l m a = T a := by
  induction l generalizing m with
  | nil =>
    obtain ⟨c, hmem, -⟩ := h
    exact absurd hmem List.not_mem_nil
  | cons c l ih =>
    rw [copyAll_cons]
    have hc := hT c List.mem_cons_self
    -- what one copy leaves is right wherever the memory was right before it
    have hkeep : ∀ a, (m a = T a ∨ InRun c.dst c.len a) →
        blit c.dst c.len (fun i => m (Addr.shift c.src i)) m a = T a := by
      intro a ha
      by_cases hrun : InRun c.dst c.len a
      · obtain ⟨i, hi, rfl⟩ := hrun
        rw [blit_shift hi, (hc i hi).1, (hc i hi).2]
      · rw [blit_of_not_inRun hrun]
        exact ha.resolve_right hrun
    by_cases hl : CopyCovered l a
    · refine ih (fun c' hmem i hi => ⟨?_, (hT c' (List.mem_cons_of_mem _ hmem) i hi).2⟩) hl
      exact hkeep _ (Or.inl (hT c' (List.mem_cons_of_mem _ hmem) i hi).1)
    · rw [copyAll_of_not_covered hl]
      obtain ⟨c', hmem, hrun⟩ := h
      rcases List.mem_cons.mp hmem with rfl | hmem
      · exact hkeep a (Or.inr hrun)
      · exact absurd ⟨c', hmem, hrun⟩ hl

/-- **Copies that do not feed each other** are moves of what the memory held at
the start. -/
theorem copyAll_eq_blitAll {l : List (Copy α)} {m : α → β}
    (h : ∀ c ∈ l, ∀ c' ∈ l, ∀ i, i < c'.len → ¬InRun c.dst c.len (Addr.shift c'.src i)) :
    ∀ a, copyAll l m a =
      blitAll (l.map fun c => ⟨c.dst, c.len, fun i => m (Addr.shift c.src i)⟩) m a := by
  -- a later copy reads what an earlier one has not touched
  have key : ∀ (l : List (Copy α)) (m' : α → β),
      (∀ c ∈ l, ∀ c' ∈ l, ∀ i, i < c'.len → ¬InRun c.dst c.len (Addr.shift c'.src i)) →
      (∀ c ∈ l, ∀ i, i < c.len → m' (Addr.shift c.src i) = m (Addr.shift c.src i)) →
      ∀ a, copyAll l m' a =
        blitAll (l.map fun c => ⟨c.dst, c.len, fun i => m (Addr.shift c.src i)⟩) m' a := by
    intro l
    induction l with
    | nil => exact fun _ _ _ _ => rfl
    | cons c l ih =>
      intro m' hl hsrc a
      have hblit : blit c.dst c.len (fun i => m' (Addr.shift c.src i)) m' =
          blit c.dst c.len (fun i => m (Addr.shift c.src i)) m' := by
        funext a
        by_cases hrun : InRun c.dst c.len a
        · obtain ⟨i, hi, rfl⟩ := hrun
          rw [blit_shift hi, blit_shift hi]
          exact hsrc c List.mem_cons_self i hi
        · rw [blit_of_not_inRun hrun, blit_of_not_inRun hrun]
      rw [copyAll_cons, List.map_cons, blitAll_cons, hblit]
      refine ih _ (fun c' hc' c'' hc'' => hl c' (List.mem_cons_of_mem _ hc') c''
        (List.mem_cons_of_mem _ hc'')) (fun c' hc' i hi => ?_) a
      rw [blit_of_not_inRun (hl c List.mem_cons_self c' (List.mem_cons_of_mem _ hc') i hi)]
      exact hsrc c' (List.mem_cons_of_mem _ hc') i hi
  exact key l m h fun _ _ _ _ => rfl

end Lib

end CortxMio
