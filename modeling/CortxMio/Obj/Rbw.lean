import CortxMio.Obj.WritePlan

/-!
# Which pages a write reads first

`motr_obj_read_before_write_optimise` goes through the read-before-write vectors
and leaves an empty vector in place of a page that the copies fill completely,
but it gives up at the first page whose first copy does not start the page. This
file proves that for a write planned from ranges in order the scan never runs
off the copies, and what exactly it computes
(`CortxMio.motrObjReadBeforeWriteOptimise_eq`): with the parts of pages given,
`CortxMio.rbwKept` is the list of vectors it leaves. A vector that it empties is
one whose page the parts fill (`CortxMio.mem_rbwKept`).
-/

namespace CortxMio

open Lib

variable {ps : ℕ}

/-! ### Pages and the parts in them -/

instance (p : Piece) (x : ℕ) : Decidable (p.Has x) := inferInstanceAs (Decidable (_ ∧ _))

/-- Some part starts the page. -/
def PageStarted (ps : ℕ) (Q : List Piece) (q : ℕ) : Prop := ∃ p ∈ Q, p.off = q * ps

instance (Q : List Piece) (q : ℕ) : Decidable (PageStarted ps Q q) :=
  inferInstanceAs (Decidable (∃ p ∈ Q, p.off = q * ps))

/-- The parts fill the page. -/
def PageFilled (ps : ℕ) (Q : List Piece) (q : ℕ) : Prop :=
  ∀ j, j < ps → ∃ p ∈ Q, p.Has (q * ps + j)

instance (Q : List Piece) (q : ℕ) : Decidable (PageFilled ps Q q) :=
  inferInstanceAs (Decidable (∀ j, j < ps → ∃ p ∈ Q, p.Has (q * ps + j)))

/-- Parts of pages in order, with the numbers of their pages. -/
structure PartsOk (ps : ℕ) (qs : List ℕ) (Q : List Piece) : Prop where
  /-- Pages are not empty. -/
  ps_pos : 0 < ps
  /-- The pieces are parts of pages. -/
  isPart : ∀ p ∈ Q, p.Ok ps ∧ p.whole = false
  /-- The pages have numbers. -/
  mem : ∀ p ∈ Q, p.off / ps ∈ qs
  /-- The parts are in order. -/
  order : Q.Pairwise fun p q => p.stop ≤ q.off

theorem PartsOk.ok {qs : List ℕ} {Q : List Piece} (h : PartsOk ps qs Q) {p : Piece} (hp : p ∈ Q) :
    0 < p.len ∧ p.stop ≤ p.off / ps * ps + ps :=
  ⟨(h.isPart p hp).1.pos, (h.isPart p hp).1.part (h.isPart p hp).2⟩

theorem PartsOk.of_append_right {qs : List ℕ} {Q Q' : List Piece} (h : PartsOk ps qs (Q ++ Q')) :
    PartsOk ps qs Q' where
  ps_pos := h.ps_pos
  isPart p hp := h.isPart p (List.mem_append_right _ hp)
  mem p hp := h.mem p (List.mem_append_right _ hp)
  order := (List.pairwise_append.mp h.order).2.1

theorem PartsOk.tail {qs : List ℕ} {p : Piece} {Q : List Piece} (h : PartsOk ps qs (p :: Q)) :
    PartsOk ps qs Q := PartsOk.of_append_right (Q := [p]) h

/-- The first part is the first. -/
theorem PartsOk.stop_le {qs : List ℕ} {p r : Piece} {Q : List Piece} (h : PartsOk ps qs (p :: Q))
    (hr : r ∈ Q) : p.stop ≤ r.off := List.rel_of_pairwise_cons h.order hr

/-- Where a copy to an extra page goes. -/
def copyDst (ps : ℕ) (qs : List ℕ) (p : Piece) : MioIovec Ptr :=
  ⟨.page (qs.idxOf (p.off / ps)) 0, p.off % ps, p.len⟩

/-- Two pages with numbers have the same extra page only if they are the same. -/
theorem page_idxOf_inj {qs : List ℕ} {q r : ℕ} (hq : q ∈ qs) :
    Ptr.page (qs.idxOf q) 0 = .page (qs.idxOf r) 0 ↔ q = r := by
  refine ⟨fun h => ?_, fun h => by rw [h]⟩
  simp only [Ptr.page.injEq, and_true] at h
  exact List.idxOf_inj hq |>.mp h

/-! ### The inner loop -/

/-- **The inner loop finds out whether the parts that follow fill the rest of the
page.** -/
theorem rbwCoveredLen_eq_iff {qs : List ℕ} {q : ℕ} (hq : q ∈ qs) :
    ∀ {Q : List Piece} {len : ℕ}, PartsOk ps qs Q → len ≤ ps → (∀ p ∈ Q, q * ps + len ≤ p.off) →
      (rbwCoveredLen ps (.page (qs.idxOf q) 0) 0 len (Q.map (copyDst ps qs)) = ps ↔
        ∀ x, q * ps + len ≤ x → x < q * ps + ps → ∃ p ∈ Q, p.Has x) := by
  intro Q
  induction Q with
  | nil =>
    intro len hQ hlen _
    rw [List.map_nil, rbwCoveredLen]
    constructor
    · intro heq x h1 h2
      omega
    · intro hall
      by_contra hne
      obtain ⟨p, hp, -⟩ := hall (q * ps + len) le_rfl (by omega)
      exact absurd hp List.not_mem_nil
  | cons p Q ih =>
    intro len hQ hlen hafter
    have hps := hQ.ps_pos
    obtain ⟨hpos, hstop⟩ := hQ.ok List.mem_cons_self
    have hoff := hafter p List.mem_cons_self
    have hdm := Nat.div_add_mod' p.off ps
    -- a byte before the next part is in none of the parts
    have hgap : ∀ x, x < p.off → ¬∃ r ∈ p :: Q, r.Has x := by
      rintro x hx ⟨r, hr, hrx⟩
      rcases List.mem_cons.mp hr with rfl | hr
      · exact absurd hrx.1 (by omega)
      · have h1 := hQ.stop_le hr
        have h2 := hrx.1
        simp only [Piece.stop] at h1
        omega
    have hmiss : len ≠ ps → q * ps + len < p.off →
        ((len = ps) ↔ ∀ x, q * ps + len ≤ x → x < q * ps + ps → ∃ r ∈ p :: Q, r.Has x) := by
      intro hne hlt
      refine ⟨fun h => absurd h hne, fun hall => ?_⟩
      exact absurd (hall (q * ps + len) le_rfl (by omega)) (hgap _ hlt)
    rw [List.map_cons, rbwCoveredLen]
    by_cases hfull : len = ps
    · rw [if_pos hfull]
      exact ⟨fun _ x h1 h2 => by omega, fun _ => hfull⟩
    · rw [if_neg hfull]
      by_cases hpage : q = p.off / ps
      · rw [if_neg (by simpa [copyDst] using (page_idxOf_inj hq).mpr hpage)]
        rw [← hpage] at hdm hstop
        rw [show (copyDst ps qs p).miovOff = p.off % ps from rfl]
        by_cases hgt : p.off % ps > 0 + len
        · rw [if_pos hgt]
          exact hmiss hfull (by omega)
        · -- the part goes on where the page is filled so far
          have heq : p.off = q * ps + len := by omega
          have hlen' : len + p.len ≤ ps := by
            simp only [Piece.stop] at hstop
            omega
          rw [if_neg hgt, show (copyDst ps qs p).miovLen = p.len from rfl,
            ih hQ.tail hlen' fun r hr => by
              have := hQ.stop_le hr
              simp only [Piece.stop] at this
              omega]
          constructor
          · intro hall x h1 h2
            rcases Nat.lt_or_ge x p.stop with hx | hx
            · exact ⟨p, List.mem_cons_self, by omega, hx⟩
            · simp only [Piece.stop] at hx
              obtain ⟨r, hr, hrx⟩ := hall x (by omega) h2
              exact ⟨r, List.mem_cons_of_mem _ hr, hrx⟩
          · intro hall x h1 h2
            obtain ⟨r, hr, hrx⟩ := hall x (by omega) h2
            rcases List.mem_cons.mp hr with rfl | hr
            · have := hrx.2
              simp only [Piece.stop] at this
              omega
            · exact ⟨r, hr, hrx⟩
      · -- the next part is in a later page
        rw [if_pos (by simpa [copyDst] using mt (page_idxOf_inj hq).mp hpage)]
        have hlt : q < p.off / ps := by
          have : q ≤ p.off / ps := (Nat.le_div_iff_mul_le hps).mpr (by omega)
          omega
        have hle : (q + 1) * ps ≤ p.off / ps * ps := Nat.mul_le_mul_right _ hlt
        rw [Nat.succ_mul] at hle
        exact hmiss hfull (by omega)

/-! ### The outer loop -/

/-- What the scan leaves of the read-before-write vectors: of each page it gets
to, nothing if the parts fill it. -/
def rbwKept (ps : ℕ) (qs : List ℕ) (Q : List Piece) : List ℕ → List (MioIovec Ptr)
  | [] => []
  | q :: l =>
      if PageStarted ps Q q then
        (if PageFilled ps Q q then { pageVec ps qs q with miovOff := 0, miovLen := 0 }
          else pageVec ps qs q) :: rbwKept ps qs Q l
      else (q :: l).map (pageVec ps qs)

/-- A list cut at the first element that a test does not pass. -/
theorem exists_dropWhile {α : Type*} {f : α → Bool} {l : List α} (h : ∃ a ∈ l, f a = false) :
    ∃ pre a post, l = pre ++ a :: post ∧ l.dropWhile f = a :: post ∧ f a = false ∧
      ∀ b ∈ pre, f b = true := by
  induction l with
  | nil => simp at h
  | cons b l ih =>
    cases hb : f b with
    | false => exact ⟨[], b, l, rfl, by simp [hb], hb, by simp⟩
    | true =>
      obtain ⟨a, ha, hfa⟩ := h
      have ha' : a ∈ l := by
        rcases List.mem_cons.mp ha with rfl | ha
        · rw [hb] at hfa
          exact absurd hfa (by simp)
        · exact ha
      obtain ⟨pre, c, post, hl, hdrop, hc, hpre⟩ := ih ⟨a, ha', hfa⟩
      refine ⟨b :: pre, c, post, by rw [hl]; rfl, by simp [hb, hdrop], hc, ?_⟩
      intro d hd
      rcases List.mem_cons.mp hd with rfl | hd
      · exact hb
      · exact hpre d hd

section FirstPart

variable {qs : List ℕ} {Q pre post : List Piece} {p : Piece} {q : ℕ}

/-- Parts of a page and of later ones are not before the first part of the page. -/
theorem PartsOk.mem_of_page_le (hQ : PartsOk ps qs (pre ++ p :: post))
    (hpre : ∀ r ∈ pre, r.off / ps ≠ q) (hpq : p.off / ps = q) {r : Piece}
    (hr : r ∈ pre ++ p :: post) (hqr : q ≤ r.off / ps) : r ∈ p :: post := by
  rcases List.mem_append.mp hr with hr | hr
  · have hle : r.stop ≤ p.off :=
      (List.pairwise_append.mp hQ.order).2.2 r hr p List.mem_cons_self
    have hle' : r.off / ps ≤ p.off / ps :=
      Nat.div_le_div_right (le_trans (Nat.le_add_right _ _) hle)
    have hne := hpre r hr
    omega
  · exact hr

/-- A page is started by its first part, or by none. -/
theorem PartsOk.pageStarted_iff (hok : PartsOk ps qs (p :: post)) (hp : p ∈ Q)
    (hpq : p.off / ps = q) (hon : ∀ r ∈ Q, r.off / ps = q → r ∈ p :: post) :
    PageStarted ps Q q ↔ p.off = q * ps := by
  constructor
  · rintro ⟨r, hr, hroff⟩
    have hrq : r.off / ps = q := by rw [hroff, Nat.mul_div_cancel _ hok.ps_pos]
    rcases List.mem_cons.mp (hon r hr hrq) with rfl | hr'
    · exact hroff
    · have hstop := hok.stop_le hr'
      have hdm := Nat.div_add_mod' p.off ps
      rw [hpq] at hdm
      simp only [Piece.stop] at hstop
      omega
  · exact fun h => ⟨p, hp, h⟩

/-- The parts from the first one of a page on cover it if all parts do. -/
theorem PartsOk.coveredLen_iff (hQ : PartsOk ps qs Q) (hok : PartsOk ps qs (p :: post))
    (hq : q ∈ qs) (hsub : ∀ r ∈ p :: post, r ∈ Q) (hpq : p.off / ps = q)
    (hon : ∀ r ∈ Q, r.off / ps = q → r ∈ p :: post) (hoff : p.off = q * ps) :
    rbwCoveredLen ps (.page (qs.idxOf q) 0) 0 p.len (post.map (copyDst ps qs)) = ps ↔
      PageFilled ps Q q := by
  have hps := hQ.ps_pos
  have hstop : p.off + p.len ≤ q * ps + ps := hpq ▸ (hok.ok List.mem_cons_self).2
  have hnext : ∀ r ∈ post, p.off + p.len ≤ r.off := fun r hr => hok.stop_le hr
  rw [rbwCoveredLen_eq_iff hq hok.tail (by omega) fun r hr => hoff ▸ hnext r hr]
  constructor
  · intro hall j hj
    rcases Nat.lt_or_ge j p.len with h | h
    · exact ⟨p, hsub p List.mem_cons_self, by omega, by simp only [Piece.stop]; omega⟩
    · obtain ⟨r, hr, hrx⟩ := hall (q * ps + j) (by omega) (by omega)
      exact ⟨r, hsub r (List.mem_cons_of_mem _ hr), hrx⟩
  · intro hall x h1 h2
    obtain ⟨r, hr, hrx⟩ := hall (x - q * ps) (by omega)
    rw [show q * ps + (x - q * ps) = x by omega] at hrx
    have hrq : r.off / ps = q :=
      (hQ.isPart r hr).1.page_eq (hQ.isPart r hr).2 hrx (by omega) h2
    rcases List.mem_cons.mp (hon r hr hrq) with rfl | hr'
    · have hlt : x < r.off + r.len := hrx.2
      omega
    · exact ⟨r, hr', hrx⟩

end FirstPart

/-- **What the scan computes.** The induction is on the pages still to be looked
at; the parts from the cursor on are all that matter for these pages, because
the pages come in order. -/
theorem optimiseLoop_eq {qs : List ℕ} {Q : List Piece} (hQ : PartsOk ps qs Q) :
    ∀ {l : List ℕ} {Q' : List Piece}, l.Pairwise (· < ·) → (∀ q ∈ l, q ∈ qs) →
      PartsOk ps qs Q' → (∀ p ∈ Q', p ∈ Q) →
      (∀ q ∈ l, ∀ p ∈ Q, p.off / ps = q → p ∈ Q') →
      (∀ q ∈ l, ∃ p ∈ Q, p.off / ps = q) →
      motrObjReadBeforeWriteOptimiseLoop ps (l.map (pageVec ps qs)) (Q'.map (copyDst ps qs)) =
        .ok (rbwKept ps qs Q l) := by
  intro l
  induction l with
  | nil => exact fun _ _ _ _ _ _ => rfl
  | cons q l ih =>
    intro Q' hsorted hmem hQ' hsub hsup hex
    have hps := hQ.ps_pos
    have hq := hmem q List.mem_cons_self
    -- the first part of the page
    obtain ⟨p₀, hp₀, hp₀q⟩ := hex q List.mem_cons_self
    have hp₀' := hsup q List.mem_cons_self p₀ hp₀ hp₀q
    obtain ⟨pre, p, post, rfl, hdrop, hp, hpre⟩ :=
      exists_dropWhile (f := fun p : Piece => decide (p.off / ps ≠ q)) (l := Q')
        ⟨p₀, hp₀', by simp [hp₀q]⟩
    have hpq : p.off / ps = q := by simpa using hp
    have hpre : ∀ r ∈ pre, r.off / ps ≠ q := fun r hr => by simpa using hpre r hr
    have hscan : ((pre ++ p :: post).map (copyDst ps qs)).dropWhile
        (fun d => decide ((pageVec ps qs q).miovBase ≠ d.miovBase)) =
        copyDst ps qs p :: post.map (copyDst ps qs) := by
      rw [List.dropWhile_map, ← List.map_cons]
      refine congrArg _ (Eq.trans ?_ hdrop)
      congr 1
      funext r
      simp only [Function.comp, pageVec, copyDst, ne_eq, page_idxOf_inj hq, decide_not]
      rw [decide_eq_decide.mpr eq_comm]
    have hokp : PartsOk ps qs (p :: post) := hQ'.of_append_right
    have hsubp : ∀ r ∈ p :: post, r ∈ Q := fun r hr => hsub r (List.mem_append_right _ hr)
    have hon : ∀ r ∈ Q, r.off / ps = q → r ∈ p :: post := fun r hr hrq =>
      hQ'.mem_of_page_le hpre hpq (hsup q List.mem_cons_self r hr hrq) hrq.ge
    have hstart := hokp.pageStarted_iff (hsubp p List.mem_cons_self) hpq hon
    have hdm := Nat.div_add_mod' p.off ps
    rw [hpq] at hdm
    rw [List.map_cons, motrObjReadBeforeWriteOptimiseLoop, hscan, rbwKept]
    by_cases hs : PageStarted ps Q q
    · have hoff := hstart.mp hs
      have hmod : p.off % ps = 0 := by omega
      have hfilled := hQ.coveredLen_iff hokp hq hsubp hpq hon hoff
      have hrest := ih hsorted.of_cons (fun r hr => hmem r (List.mem_cons_of_mem _ hr)) hokp hsubp
        (fun r hr s hs' hsr => hQ'.mem_of_page_le hpre hpq
          (hsup r (List.mem_cons_of_mem _ hr) s hs' hsr)
          (hsr ▸ (List.rel_of_pairwise_cons hsorted hr).le))
        (fun r hr => hex r (List.mem_cons_of_mem _ hr))
      rw [List.map_cons] at hrest
      simp only [copyDst, hmod, ne_eq, not_true_eq_false, if_false, hpq]
      simp only [copyDst, hmod, hpq] at hrest
      rw [hrest, if_pos hs]
      change Except.ok _ = _
      by_cases hf : PageFilled ps Q q
      · rw [if_pos (hfilled.mpr hf), if_pos hf]
      · rw [if_neg (mt hfilled.mp hf), if_neg hf]
    · have hmod : (copyDst ps qs p).miovOff ≠ 0 := by
        change p.off % ps ≠ 0
        intro hz
        exact hs (hstart.mpr (by omega))
      simp only [if_pos hmod, if_neg hs, List.map_cons]

/-! ### What is left -/

section Kept

variable {qs : List ℕ} {Q : List Piece}

/-- A vector that is left is that of its page, or empty, and then the parts fill
its page. -/
theorem mem_rbwKept {l : List ℕ} {r : MioIovec Ptr} (h : r ∈ rbwKept ps qs Q l) :
    ∃ q ∈ l, r = pageVec ps qs q ∨
      (r = { pageVec ps qs q with miovOff := 0, miovLen := 0 } ∧ PageFilled ps Q q) := by
  induction l with
  | nil => exact absurd h List.not_mem_nil
  | cons q l ih =>
    rw [rbwKept] at h
    split at h
    · rcases List.mem_cons.mp h with rfl | h
      · refine ⟨q, List.mem_cons_self, ?_⟩
        split
        · next hf => exact Or.inr ⟨rfl, hf⟩
        · exact Or.inl rfl
      · obtain ⟨q', hq', hr⟩ := ih h
        exact ⟨q', List.mem_cons_of_mem _ hq', hr⟩
    · obtain ⟨q', hq', rfl⟩ := List.mem_map.mp h
      exact ⟨q', hq', Or.inl rfl⟩

/-- Each page has its vector. -/
theorem exists_mem_rbwKept {l : List ℕ} {q : ℕ} (h : q ∈ l) :
    pageVec ps qs q ∈ rbwKept ps qs Q l ∨ PageFilled ps Q q := by
  induction l with
  | nil => exact absurd h List.not_mem_nil
  | cons q' l ih =>
    rw [rbwKept]
    by_cases hf : PageFilled ps Q q
    · exact Or.inr hf
    · refine Or.inl ?_
      split
      · rcases List.mem_cons.mp h with rfl | h
        · rw [if_neg hf]
          exact List.mem_cons_self
        · exact List.mem_cons_of_mem _ ((ih h).resolve_right hf)
      · exact List.mem_map_of_mem h

theorem length_rbwKept (l : List ℕ) : (rbwKept ps qs Q l).length = l.length := by
  induction l with
  | nil => rfl
  | cons q l ih =>
    rw [rbwKept]
    split
    · simp [ih]
    · simp

variable (ps qs Q) in
/-- More pages at the end do not change what is left of those before. -/
theorem rbwKept_append (l l' : List ℕ) :
    ∃ rest, rbwKept ps qs Q (l ++ l') = rbwKept ps qs Q l ++ rest ∧
      ∀ r ∈ rest, 0 < r.miovLen → ∃ q ∈ l', r = pageVec ps qs q := by
  induction l with
  | nil =>
    refine ⟨rbwKept ps qs Q l', rfl, fun r hr hlen => ?_⟩
    obtain ⟨q, hq, rfl | ⟨rfl, -⟩⟩ := mem_rbwKept hr
    · exact ⟨q, hq, rfl⟩
    · exact absurd hlen (lt_irrefl 0)
  | cons q l ih =>
    obtain ⟨rest, hrest, hmem⟩ := ih
    rw [List.cons_append, rbwKept, rbwKept]
    split
    · exact ⟨rest, by rw [hrest]; rfl, hmem⟩
    · refine ⟨l'.map (pageVec ps qs), by simp, fun r hr _ => ?_⟩
      obtain ⟨q', hq', rfl⟩ := List.mem_map.mp hr
      exact ⟨q', hq', rfl⟩

variable (ps Q) in
/-- The numbers of the pages that are left. -/
def rbwKeptNos : List ℕ → List ℕ
  | [] => []
  | q :: l =>
      if PageStarted ps Q q then
        if PageFilled ps Q q then rbwKeptNos l else q :: rbwKeptNos l
      else q :: l

/-- How much is to be read. -/
theorem sum_rbwKept (l : List ℕ) :
    ((rbwKept ps qs Q l).map MioIovec.miovLen).sum = (rbwKeptNos ps Q l).length * ps := by
  have hmap : ∀ l : List ℕ, ((l.map (pageVec ps qs)).map MioIovec.miovLen).sum = l.length * ps := by
    intro l
    induction l with
    | nil => simp
    | cons q l ih =>
      rw [List.map_cons, List.map_cons, List.sum_cons, ih, List.length_cons, Nat.succ_mul,
        Nat.add_comm]
      rfl
  induction l with
  | nil => simp [rbwKept, rbwKeptNos]
  | cons q l ih =>
    rw [rbwKept, rbwKeptNos]
    by_cases hs : PageStarted ps Q q
    · rw [if_pos hs, if_pos hs, List.map_cons, List.sum_cons, ih]
      by_cases hf : PageFilled ps Q q
      · rw [if_pos hf, if_pos hf, Nat.zero_add]
      · rw [if_neg hf, if_neg hf, List.length_cons, Nat.succ_mul, Nat.add_comm]
        rfl
    · rw [if_neg hs, if_neg hs, hmap]

theorem rbwKeptNos_sublist (ps : ℕ) (l : List ℕ) : (rbwKeptNos ps Q l).Sublist l := by
  induction l with
  | nil => exact List.Sublist.refl _
  | cons q l ih =>
    rw [rbwKeptNos]
    split
    · split
      · exact ih.cons q
      · exact ih.cons_cons q
    · exact List.Sublist.refl _

/-- Why a page is left: the parts do not fill it, or the scan has ended. -/
theorem mem_rbwKeptNos {l : List ℕ} (hsorted : l.Pairwise (· < ·)) {q : ℕ}
    (h : q ∈ rbwKeptNos ps Q l) :
    ¬PageFilled ps Q q ∨ ∃ q' ∈ l, q' ≤ q ∧ ¬PageStarted ps Q q' := by
  induction l with
  | nil => exact absurd h List.not_mem_nil
  | cons q₀ l ih =>
    have hrec : q ∈ rbwKeptNos ps Q l →
        ¬PageFilled ps Q q ∨ ∃ q' ∈ q₀ :: l, q' ≤ q ∧ ¬PageStarted ps Q q' := by
      intro hq
      rcases ih hsorted.of_cons hq with hf | ⟨q', hq', hle⟩
      · exact Or.inl hf
      · exact Or.inr ⟨q', List.mem_cons_of_mem _ hq', hle⟩
    rw [rbwKeptNos] at h
    split at h
    · split at h
      · exact hrec h
      · next hf =>
        rcases List.mem_cons.mp h with rfl | h
        · exact Or.inl hf
        · exact hrec h
    · next hs =>
      refine Or.inr ⟨q₀, List.mem_cons_self, ?_, hs⟩
      rcases List.mem_cons.mp h with rfl | h
      · exact le_rfl
      · exact Nat.le_of_lt (List.rel_of_pairwise_cons hsorted h)

/-- A part that has the first byte of a page starts it. -/
theorem PartsOk.pageStarted (hQ : PartsOk ps qs Q) {p : Piece} (hp : p ∈ Q) {q : ℕ}
    (hx : p.Has (q * ps)) : PageStarted ps Q q := by
  have hps := hQ.ps_pos
  have hpage := (hQ.isPart p hp).1.page_eq (hQ.isPart p hp).2 hx le_rfl (by omega)
  have hle := Nat.div_mul_le_self p.off ps
  rw [hpage] at hle
  exact ⟨p, hp, Nat.le_antisymm hx.1 hle⟩

end Kept

/-- The parts of a write are as the scan needs them. -/
theorem WriteInv.partsOk {obj : MioObj} {P : List Piece} {qs : List ℕ} {args : MotrObjRwArgs}
    (h : WriteInv obj P qs args) (hok : ∀ p ∈ P, p.Ok (motrObjIoPagesize obj))
    (hord : P.Pairwise fun p q => p.stop ≤ q.off) :
    PartsOk (motrObjIoPagesize obj) qs (parts P) where
  ps_pos := motrObjIoPagesize_pos obj
  isPart p hp := ⟨hok p (mem_parts.mp hp).1, (mem_parts.mp hp).2⟩
  mem p hp := (h.mem_qs _).mpr ⟨p, hp, rfl⟩
  order := hord.filter _

/-- **What the optimisation of a write does**: it never fails, and it leaves the
vectors of the pages that are still to be read. -/
theorem motrObjReadBeforeWriteOptimise_eq {obj : MioObj} {P : List Piece} {qs : List ℕ}
    {args : MotrObjRwArgs} (h : WriteInv obj P qs args)
    (hok : ∀ p ∈ P, p.Ok (motrObjIoPagesize obj))
    (hord : P.Pairwise fun p q => p.stop ≤ q.off) :
    motrObjReadBeforeWriteOptimise obj args = .ok { args with
      rwaRbwIovs := rbwKept (motrObjIoPagesize obj) qs (parts P)
        (qs.filter fun q => q * motrObjIoPagesize obj < obj.size) } := by
  have hparts := h.partsOk hok hord
  have hds : args.rwaDcIovs.map Prod.snd =
      (parts P).map (copyDst (motrObjIoPagesize obj) qs) := by
    rw [h.dc, List.map_map]
    rfl
  have hloop := optimiseLoop_eq hparts
    (l := qs.filter fun q => q * motrObjIoPagesize obj < obj.size) (h.sorted.filter _)
    (fun q hq => (List.mem_filter.mp hq).1) hparts (fun p hp => hp) (fun q _ p hp _ => hp)
    (fun q hq => (h.mem_qs q).mp (List.mem_filter.mp hq).1)
  rw [motrObjReadBeforeWriteOptimise, hds, h.rbw, hloop]
  rfl

end CortxMio
