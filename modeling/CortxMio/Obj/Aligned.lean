import CortxMio.Obj.Pieces
import Mathlib.Data.List.Induction

/-!
# What the planner leaves behind

The invariant of the planner (`CortxMio.PlanInv`), over the pieces it has taken
in. Every aligned vector is either a chunk of whole pages, with its memory in
the application's buffer at the place that goes with its offset, or an extra
page; every part of a page has a copy, to or from the memory of an aligned
vector that starts where the part's page starts and holds at least that page.
The vector is not always an extra page: a part may come to share a chunk of
whole pages with the range before it. What makes this sound is that the last
vector ends on a page boundary, so that a chunk which starts with the page is
not shorter than a page.

The invariant asks nothing of the order of the ranges, and so it holds for reads
of overlapping ranges too (`CortxMio.planInv_foldl`).
-/

namespace CortxMio

open Lib

/-! ### Chunks -/

/-- The vector is a chunk of the piece. -/
structure Direct (p : Piece) (v : MioIovec Ptr) : Prop where
  /-- It is not empty. -/
  pos : 0 < v.miovLen
  /-- It starts in the piece. -/
  off : p.off ≤ v.miovOff
  /-- It ends in the piece. -/
  stop : v.stop ≤ p.stop
  /-- Its memory is that of the piece. -/
  base : v.miovBase = .app (p.base + (v.miovOff - p.off))

section Chunks

variable {max : ℕ} (hpos : 0 < max)

include hpos

theorem direct_of_mem_chunks :
    ∀ {fuel off len base : ℕ} {v : MioIovec Ptr}, v ∈ chunks max fuel off len base →
      Direct ⟨off, len, base, true⟩ v := by
  intro fuel
  induction fuel with
  | zero =>
    intro off len base v h
    simp [chunks] at h
  | succ fuel ih =>
    intro off len base v h
    rw [chunks] at h
    split at h
    · exact absurd h List.not_mem_nil
    · next hlen =>
      rcases List.mem_cons.mp h with rfl | h
      · exact ⟨by simp; omega, le_rfl, by simp [MioIovec.stop, Piece.stop], by simp⟩
      · have hv := ih h
        have h1 : off + min len max ≤ v.miovOff := hv.off
        have h2 : v.stop ≤ off + min len max + (len - min len max) := hv.stop
        have h3 : v.miovBase = .app (base + min len max + (v.miovOff - (off + min len max))) :=
          hv.base
        refine ⟨hv.pos, (Nat.le_add_right _ _).trans h1, ?_, ?_⟩
        · simp only [Piece.stop]
          omega
        · rw [h3]
          congr 1
          simp only
          omega

/-- Chunks cover what they are chunks of. -/
theorem exists_mem_chunks :
    ∀ {fuel off len base x : ℕ}, len ≤ fuel → off ≤ x → x < off + len →
      ∃ v ∈ chunks max fuel off len base, v.Has x := by
  intro fuel
  induction fuel with
  | zero =>
    intro off len base x hfuel h1 h2
    omega
  | succ fuel ih =>
    intro off len base x hfuel h1 h2
    rw [chunks, if_neg (by omega)]
    rcases Nat.lt_or_ge x (off + min len max) with h | h
    · exact ⟨_, List.mem_cons_self, h1, h⟩
    · obtain ⟨v, hv, hx⟩ := @ih (off + min len max) (len - min len max)
        (base + min len max) x (by omega) h (by omega)
      exact ⟨v, List.mem_cons_of_mem _ hv, hx⟩

/-- Chunks come in order. -/
theorem inOrder_chunks : ∀ (fuel off len base : ℕ), InOrder (chunks max fuel off len base) := by
  intro fuel
  induction fuel with
  | zero =>
    intro off len base
    simp [chunks, InOrder]
  | succ fuel ih =>
    intro off len base
    rw [chunks]
    split
    · exact List.Pairwise.nil
    · exact List.pairwise_cons.mpr ⟨fun v hv => (direct_of_mem_chunks hpos hv).off, ih _ _ _⟩

/-- The last chunk ends where the whole ends. -/
theorem getLast?_chunks :
    ∀ {fuel off len base : ℕ}, 0 < len → len ≤ fuel →
      ∃ v, (chunks max fuel off len base).getLast? = some v ∧ v.stop = off + len := by
  intro fuel
  induction fuel with
  | zero =>
    intro off len base hlen hfuel
    omega
  | succ fuel ih =>
    intro off len base hlen hfuel
    rw [chunks, if_neg (by omega)]
    rcases Nat.eq_zero_or_pos (len - min len max) with h | h
    · refine ⟨⟨.app base, off, min len max⟩, by rw [h, chunks_len_zero]; rfl, ?_⟩
      simp only [MioIovec.stop]
      omega
    · obtain ⟨v, hv, hstop⟩ := ih h
        (by omega)
      exact ⟨v, by rw [List.getLast?_cons, hv]; rfl, by omega⟩

omit hpos in
theorem miovLen_le_of_mem_chunks :
    ∀ {fuel off len base : ℕ} {v : MioIovec Ptr}, v ∈ chunks max fuel off len base →
      v.miovLen ≤ max := by
  intro fuel
  induction fuel with
  | zero =>
    intro off len base v h
    simp [chunks] at h
  | succ fuel ih =>
    intro off len base v h
    rw [chunks] at h
    split at h
    · exact absurd h List.not_mem_nil
    · rcases List.mem_cons.mp h with rfl | h
      · exact Nat.min_le_right _ _
      · exact ih h

end Chunks

/-! ### The invariant -/

variable (obj : MioObj)

/-- The offset of the page of a part. -/
def Piece.pageOff (p : Piece) : ℕ := p.off / motrObjIoPagesize obj * motrObjIoPagesize obj

/-- The aligned vector holds the page of the part. -/
def HoldsPage (p : Piece) (v : MioIovec Ptr) : Prop :=
  v.miovOff = p.pageOff obj ∧ motrObjIoPagesize obj ≤ v.miovLen

/-- The copy between a part and the memory of the vector that holds its page. -/
def partCopy (isWrite : Bool) (p : Piece) (v : MioIovec Ptr) : MioIovec Ptr × MioIovec Ptr :=
  dcPair isWrite (motrObjIoPagesize obj) p.off p.len p.base v.miovBase

/-- **The invariant of the planner**, over the pieces taken in so far. -/
structure PlanInv (max : ℕ) (P : List Piece) (args : MotrObjRwArgs) : Prop where
  /-- An aligned vector is a chunk or an extra page. -/
  vec : ∀ v ∈ args.rwaAlignedIovs, (∃ p ∈ P, p.whole = true ∧ Direct p v ∧ v.miovLen ≤ max) ∨
    ∃ p ∈ P, p.whole = false ∧ ∃ k < args.rwaNrExtraPages,
      v = ⟨.page k 0, p.pageOff obj, motrObjIoPagesize obj⟩
  /-- An extra page belongs to one vector. -/
  page_inj : ∀ v ∈ args.rwaAlignedIovs, ∀ w ∈ args.rwaAlignedIovs, ∀ k,
    v.miovBase = .page k 0 → w.miovBase = .page k 0 → v = w
  /-- The last vector ends on a page boundary. -/
  last : ∀ v, args.rwaAlignedIovs.getLast? = some v →
    v.stop % motrObjIoPagesize obj = 0 ∧ 0 < v.miovLen
  /-- Whole pages are covered by their chunks. -/
  whole : ∀ p ∈ P, p.whole = true → ∀ x, p.Has x →
    ∃ v ∈ args.rwaAlignedIovs, Direct p v ∧ v.Has x
  /-- A part has its copy. -/
  part : ∀ p ∈ P, p.whole = false →
    ∃ v ∈ args.rwaAlignedIovs, HoldsPage obj p v ∧ partCopy obj args.rwaIsWrite p v ∈ args.rwaDcIovs
  /-- A copy is that of a part. -/
  dc : ∀ d ∈ args.rwaDcIovs, ∃ p ∈ P, p.whole = false ∧
    ∃ v ∈ args.rwaAlignedIovs, HoldsPage obj p v ∧ d = partCopy obj args.rwaIsWrite p v

variable {obj} {max : ℕ}

/-- A fresh plan. -/
structure MotrObjRwArgs.Fresh (args : MotrObjRwArgs) : Prop where
  /-- No aligned vectors. -/
  aligned : args.rwaAlignedIovs = []
  /-- No read-before-write vectors. -/
  rbw : args.rwaRbwIovs = []
  /-- No copies. -/
  dc : args.rwaDcIovs = []
  /-- No extra pages. -/
  pages : args.rwaNrExtraPages = 0
  /-- Nothing sent. -/
  alignedProgress : args.rwaAlignedProgress = 0
  /-- Nothing sent. -/
  rbwProgress : args.rwaRbwProgress = 0

theorem planInv_nil {args : MotrObjRwArgs} (h : args.Fresh) : PlanInv obj max [] args where
  vec v hv := by simp [h.aligned] at hv
  page_inj v hv := by simp [h.aligned] at hv
  last v hv := by simp [h.aligned] at hv
  whole p hp := absurd hp List.not_mem_nil
  part p hp := absurd hp List.not_mem_nil
  dc d hd := by simp [h.dc] at hd

/-- A part of a page lies in its page. -/
theorem Piece.Ok.pageOff_le {p : Piece} : p.pageOff obj ≤ p.off := Nat.div_mul_le_self _ _

/-- What the planner does with a part, apart from where the page comes from. -/
theorem addPiece_part {P : List Piece} {args : MotrObjRwArgs} {p : Piece} (hw : p.whole = false)
    (hpos : 0 < p.len) (h : PlanInv obj max P args) :
    (∃ prev, args.rwaAlignedIovs.getLast? = some prev ∧ HoldsPage obj p prev ∧
      addPiece obj max args p =
        { args with rwaDcIovs := args.rwaDcIovs ++ [partCopy obj args.rwaIsWrite p prev] }) ∨
    ((∀ prev, args.rwaAlignedIovs.getLast? = some prev → prev.miovOff ≠ p.pageOff obj) ∧
      addPiece obj max args p =
        { motrObjIovecGetPage obj args (p.pageOff obj) with
          rwaDcIovs := args.rwaDcIovs ++ [partCopy obj args.rwaIsWrite p
            ⟨.page args.rwaNrExtraPages 0, p.pageOff obj, motrObjIoPagesize obj⟩] }) := by
  have hps := motrObjIoPagesize_pos obj
  rw [addPiece, if_neg (by simp [hw]), motrObjIovecPartialPage, if_neg (by omega)]
  cases hl : args.rwaAlignedIovs.getLast? with
  | none =>
    refine Or.inr ⟨by simp, ?_⟩
    rfl
  | some prev =>
    simp only
    by_cases hoff : prev.miovOff = p.off / motrObjIoPagesize obj * motrObjIoPagesize obj
    · rw [if_pos hoff]
      -- the vector ends on a page boundary, so it is at least a page long
      obtain ⟨hstop, hlen⟩ := h.last prev hl
      refine Or.inl ⟨prev, rfl, ⟨hoff, ?_⟩, rfl⟩
      rw [MioIovec.stop, hoff, Nat.mul_add_mod_self_right] at hstop
      exact Nat.le_of_dvd hlen (Nat.dvd_of_mod_eq_zero hstop)
    · rw [if_neg hoff]
      refine Or.inr ⟨fun prev' hprev' => ?_, rfl⟩
      obtain rfl : prev = prev' := by simpa using hprev'
      exact hoff

theorem PlanInv.addPiece_whole {P : List Piece} {args : MotrObjRwArgs} (hmax : 0 < max) {p : Piece}
    (hok : p.Ok (motrObjIoPagesize obj)) (hw : p.whole = true) (h : PlanInv obj max P args) :
    PlanInv obj max (P ++ [p]) (addPiece obj max args p) := by
  obtain ⟨off, len, base, whole⟩ := p
  obtain rfl : whole = true := hw
  rw [addPiece, if_pos rfl]
  have hpos : 0 < len := hok.pos
  refine ⟨?_, ?_, ?_, ?_, ?_, ?_⟩
  · intro v hv
    rcases List.mem_append.mp hv with hv | hv
    · rcases h.vec v hv with ⟨q, hq, hrest⟩ | ⟨q, hq, hrest⟩
      · exact Or.inl ⟨q, List.mem_append_left _ hq, hrest⟩
      · exact Or.inr ⟨q, List.mem_append_left _ hq, hrest⟩
    · exact Or.inl ⟨_, List.mem_append_right _ List.mem_cons_self, rfl,
        direct_of_mem_chunks hmax hv, miovLen_le_of_mem_chunks hv⟩
  · -- a chunk is no extra page
    have hchunk : ∀ v ∈ chunks max len off len base, ∀ k, v.miovBase ≠ .page k 0 := by
      intro v hv k hk
      rw [(direct_of_mem_chunks hmax hv).base] at hk
      exact absurd hk (by simp)
    intro v hv w hw k hvk hwk
    rcases List.mem_append.mp hv with hv | hv
    · rcases List.mem_append.mp hw with hw | hw
      · exact h.page_inj v hv w hw k hvk hwk
      · exact absurd hwk (hchunk w hw k)
    · exact absurd hvk (hchunk v hv k)
  · intro v hv
    obtain ⟨w, hw, hstop⟩ := getLast?_chunks hmax hpos le_rfl
    rw [List.getLast?_append, hw] at hv
    obtain rfl : w = v := by simpa using hv
    refine ⟨by rw [hstop]; exact (hok.whole rfl).2, ?_⟩
    exact (direct_of_mem_chunks hmax (List.mem_of_getLast? hw)).pos
  · intro q hq hqw x hx
    rcases List.mem_append.mp hq with hq | hq
    · obtain ⟨v, hv, hrest⟩ := h.whole q hq hqw x hx
      exact ⟨v, List.mem_append_left _ hv, hrest⟩
    · obtain rfl := List.mem_singleton.mp hq
      obtain ⟨v, hv, hvx⟩ := exists_mem_chunks hmax le_rfl hx.1 hx.2
      exact ⟨v, List.mem_append_right _ hv, direct_of_mem_chunks hmax hv, hvx⟩
  · intro q hq hqw
    rcases List.mem_append.mp hq with hq | hq
    · obtain ⟨v, hv, hrest⟩ := h.part q hq hqw
      exact ⟨v, List.mem_append_left _ hv, hrest⟩
    · obtain rfl := List.mem_singleton.mp hq
      exact absurd hqw (by simp)
  · intro d hd
    obtain ⟨q, hq, hqw, v, hv, hrest⟩ := h.dc d hd
    exact ⟨q, List.mem_append_left _ hq, hqw, v, List.mem_append_left _ hv, hrest⟩

/-- The vectors and copies of the pieces, when a part is added with a vector that holds its
page. -/
theorem PlanInv.add_partCopy {P : List Piece} {args : MotrObjRwArgs} {p : Piece}
    (hw : p.whole = false) (h : PlanInv obj max P args) {A : List (MioIovec Ptr)}
    (hsub : ∀ v ∈ args.rwaAlignedIovs, v ∈ A) {v : MioIovec Ptr} (hv : v ∈ A)
    (hholds : HoldsPage obj p v) :
    (∀ q ∈ P ++ [p], q.whole = true → ∀ x, q.Has x → ∃ v ∈ A, Direct q v ∧ v.Has x) ∧
      (∀ q ∈ P ++ [p], q.whole = false → ∃ w ∈ A, HoldsPage obj q w ∧
        partCopy obj args.rwaIsWrite q w ∈
          args.rwaDcIovs ++ [partCopy obj args.rwaIsWrite p v]) ∧
      ∀ d ∈ args.rwaDcIovs ++ [partCopy obj args.rwaIsWrite p v], ∃ q ∈ P ++ [p],
        q.whole = false ∧ ∃ w ∈ A, HoldsPage obj q w ∧ d = partCopy obj args.rwaIsWrite q w := by
  refine ⟨fun q hq hqw x hx => ?_, fun q hq hqw => ?_, fun d hd => ?_⟩
  · rcases List.mem_append.mp hq with hq | hq
    · obtain ⟨w, hwA, hrest⟩ := h.whole q hq hqw x hx
      exact ⟨w, hsub w hwA, hrest⟩
    · obtain rfl := List.mem_singleton.mp hq
      exact absurd hqw (by simp [hw])
  · rcases List.mem_append.mp hq with hq | hq
    · obtain ⟨w, hwA, hwq, hd⟩ := h.part q hq hqw
      exact ⟨w, hsub w hwA, hwq, List.mem_append_left _ hd⟩
    · obtain rfl := List.mem_singleton.mp hq
      exact ⟨v, hv, hholds, List.mem_append_right _ List.mem_cons_self⟩
  · rcases List.mem_append.mp hd with hd | hd
    · obtain ⟨q, hq, hqw, w, hwA, hrest⟩ := h.dc d hd
      exact ⟨q, List.mem_append_left _ hq, hqw, w, hsub w hwA, hrest⟩
    · exact ⟨p, List.mem_append_right _ List.mem_cons_self, hw, v, hv, hholds,
        List.mem_singleton.mp hd⟩

theorem PlanInv.addPiece_part {P : List Piece} {args : MotrObjRwArgs} {p : Piece}
    (hok : p.Ok (motrObjIoPagesize obj)) (hw : p.whole = false) (h : PlanInv obj max P args) :
    PlanInv obj max (P ++ [p]) (addPiece obj max args p) := by
  have hps := motrObjIoPagesize_pos obj
  have hmem : p ∈ P ++ [p] := List.mem_append_right _ List.mem_cons_self
  rcases CortxMio.addPiece_part hw hok.pos h with ⟨prev, hl, hholds, heq⟩ | ⟨-, heq⟩
  · -- the page of the vector before
    rw [heq]
    obtain ⟨hwhole, hpart, hdc⟩ :=
      h.add_partCopy hw (fun _ hv => hv) (List.mem_of_getLast? hl) hholds
    refine ⟨?_, h.page_inj, h.last, hwhole, hpart, hdc⟩
    intro v hv
    rcases h.vec v hv with ⟨q, hq, hrest⟩ | ⟨q, hq, hrest⟩
    · exact Or.inl ⟨q, List.mem_append_left _ hq, hrest⟩
    · exact Or.inr ⟨q, List.mem_append_left _ hq, hrest⟩
  · -- a page of its own
    rw [heq]
    obtain ⟨nv, hnv⟩ : ∃ nv : MioIovec Ptr, nv =
      ⟨.page args.rwaNrExtraPages 0, p.pageOff obj, motrObjIoPagesize obj⟩ := ⟨_, rfl⟩
    have hA : (motrObjIovecGetPage obj args (p.pageOff obj)).rwaAlignedIovs =
        args.rwaAlignedIovs ++ [nv] := by rw [hnv]; rfl
    have hN : (motrObjIovecGetPage obj args (p.pageOff obj)).rwaNrExtraPages =
        args.rwaNrExtraPages + 1 := rfl
    have hW : (motrObjIovecGetPage obj args (p.pageOff obj)).rwaIsWrite = args.rwaIsWrite := rfl
    have hholds : HoldsPage obj p nv := by rw [hnv]; exact ⟨rfl, le_rfl⟩
    have hold : ∀ v ∈ args.rwaAlignedIovs, v.miovBase ≠ nv.miovBase := by
      intro v hv hb
      rw [hnv] at hb
      rcases h.vec v hv with ⟨q, -, -, hdir, -⟩ | ⟨q, -, -, k, hk, rfl⟩
      · rw [hdir.base] at hb
        exact absurd hb (by simp)
      · have : k = args.rwaNrExtraPages := by simpa using hb
        omega
    obtain ⟨hwhole, hpart, hdc⟩ := h.add_partCopy hw (A := args.rwaAlignedIovs ++ [nv])
      (fun _ hv => List.mem_append_left _ hv) (List.mem_append_right _ List.mem_cons_self) hholds
    rw [← hnv]
    refine ⟨?_, ?_, ?_, by rwa [← hA] at hwhole, by rwa [← hA, ← hW] at hpart,
      by rwa [← hA, ← hW] at hdc⟩
    · simp only [hA, hN]
      intro v hv
      rcases List.mem_append.mp hv with hv | hv
      · rcases h.vec v hv with ⟨q, hq, hrest⟩ | ⟨q, hq, hqw, k, hk, hrest⟩
        · exact Or.inl ⟨q, List.mem_append_left _ hq, hrest⟩
        · exact Or.inr ⟨q, List.mem_append_left _ hq, hqw, k, by omega, hrest⟩
      · obtain rfl := List.mem_singleton.mp hv
        exact Or.inr ⟨p, hmem, hw, args.rwaNrExtraPages, by omega, hnv⟩
    · simp only [hA]
      intro v hv w hw' k hvk hwk
      rcases List.mem_append.mp hv with hvA | hvN
      · rcases List.mem_append.mp hw' with hwA | hwN
        · exact h.page_inj v hvA w hwA k hvk hwk
        · rw [List.mem_singleton.mp hwN] at hwk
          exact absurd (hvk.trans hwk.symm) (hold v hvA)
      · rw [List.mem_singleton.mp hvN] at hvk ⊢
        rcases List.mem_append.mp hw' with hwA | hwN
        · exact absurd (hwk.trans hvk.symm) (hold w hwA)
        · exact (List.mem_singleton.mp hwN).symm
    · simp only [hA]
      intro v hv
      rw [List.getLast?_append] at hv
      obtain rfl : nv = v := by simpa using hv
      rw [hnv]
      refine ⟨?_, hps⟩
      rw [MioIovec.stop, Piece.pageOff, Nat.mul_add_mod_self_right, Nat.mod_self]

/-- **The planner keeps its invariant**, whatever the pieces. -/
theorem planInv_foldl (hmax : 0 < max) {args : MotrObjRwArgs} (hfresh : args.Fresh) :
    ∀ P : List Piece, (∀ p ∈ P, p.Ok (motrObjIoPagesize obj)) →
      PlanInv obj max P (P.foldl (addPiece obj max) args) := by
  intro P
  induction P using List.reverseRecOn with
  | nil => exact fun _ => planInv_nil hfresh
  | append_singleton P p ih =>
    intro hok
    have hP := ih fun q hq => hok q (List.mem_append_left _ hq)
    have hp := hok p (List.mem_append_right _ List.mem_cons_self)
    rw [List.foldl_append, List.foldl_cons, List.foldl_nil]
    cases hw : p.whole with
    | true => exact hP.addPiece_whole hmax hp hw
    | false => exact hP.addPiece_part hp hw

/-- Adding pieces leaves the rest of the plan alone. -/
theorem foldl_addPiece_rest (P : List Piece) (args : MotrObjRwArgs) :
    P.foldl (addPiece obj max) args = { args with
      rwaAlignedIovs := (P.foldl (addPiece obj max) args).rwaAlignedIovs
      rwaRbwIovs := (P.foldl (addPiece obj max) args).rwaRbwIovs
      rwaDcIovs := (P.foldl (addPiece obj max) args).rwaDcIovs
      rwaNrExtraPages := (P.foldl (addPiece obj max) args).rwaNrExtraPages } := by
  induction P generalizing args with
  | nil => rfl
  | cons p P ih =>
    rw [List.foldl_cons]
    have hstep : addPiece obj max args p = { args with
        rwaAlignedIovs := (addPiece obj max args p).rwaAlignedIovs
        rwaRbwIovs := (addPiece obj max args p).rwaRbwIovs
        rwaDcIovs := (addPiece obj max args p).rwaDcIovs
        rwaNrExtraPages := (addPiece obj max args p).rwaNrExtraPages } := by
      rw [addPiece]
      split
      · rfl
      · rw [motrObjIovecPartialPage]
        split
        · rfl
        · cases args.rwaAlignedIovs.getLast? with
          | none => rfl
          | some prev =>
            simp only
            split <;> rfl
    rw [ih, hstep]

end CortxMio
