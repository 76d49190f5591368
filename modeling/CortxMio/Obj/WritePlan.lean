import CortxMio.Obj.Batch

/-!
# The plan of a write

A write is planned from ranges in order, and then more is known than what the
invariant of the planner says for every request. The aligned vectors are in
order too, so no page is sent twice, and a part of a page always gets an extra
page: the vector before it, if it starts with the same page, is one. With
`qs` for the numbers of the pages that are covered only in part, in order, the
`i`-th extra page is that of the `i`-th number (`CortxMio.pageVec`), the
read-before-write vectors are the extra pages below the size of the object, and
the copies are those of the parts, in order. That is
`CortxMio.WriteInv`, and `CortxMio.writeInv_foldl` establishes it.
-/

namespace CortxMio

open Lib

/-- Whether a pointer points into an extra page. -/
def Ptr.isPage : Ptr → Bool
  | .app _ => false
  | .page _ _ => true

/-- The aligned vector of an extra page, given the numbers of all of them. -/
def pageVec (ps : ℕ) (qs : List ℕ) (q : ℕ) : MioIovec Ptr := ⟨.page (qs.idxOf q) 0, q * ps, ps⟩

/-- The copy of a part to its extra page. -/
def pageCopy (ps : ℕ) (qs : List ℕ) (p : Piece) : MioIovec Ptr × MioIovec Ptr :=
  dcPair true ps p.off p.len p.base (.page (qs.idxOf (p.off / ps)) 0)

/-- The parts among some pieces. -/
def parts (P : List Piece) : List Piece := P.filter fun p => !p.whole

theorem mem_parts {P : List Piece} {p : Piece} : p ∈ parts P ↔ p ∈ P ∧ p.whole = false := by
  simp [parts]

/-- Numbers that are there already keep their extra pages. -/
theorem pageVec_append {ps : ℕ} {qs : List ℕ} {q : ℕ} (h : q ∈ qs) (qs' : List ℕ) :
    pageVec ps (qs ++ qs') q = pageVec ps qs q := by
  rw [pageVec, pageVec, List.idxOf_append_of_mem h]

theorem pageCopy_append {ps : ℕ} {qs : List ℕ} {p : Piece} (h : p.off / ps ∈ qs)
    (qs' : List ℕ) : pageCopy ps (qs ++ qs') p = pageCopy ps qs p := by
  rw [pageCopy, pageCopy, List.idxOf_append_of_mem h]

/-- A chunk is no extra page. -/
theorem filter_isPage_chunks {max : ℕ} (hpos : 0 < max) (fuel off len base : ℕ) :
    (chunks max fuel off len base).filter (fun v => v.miovBase.isPage) = [] := by
  rw [List.filter_eq_nil_iff]
  intro v hv
  rw [(direct_of_mem_chunks hpos hv).base]
  simp [Ptr.isPage]

/-- **The invariant of the planner for a write of ranges in order.** -/
structure WriteInv (obj : MioObj) (P : List Piece) (qs : List ℕ) (args : MotrObjRwArgs) :
    Prop where
  /-- It is a write. -/
  isWrite : args.rwaIsWrite = true
  /-- The aligned vectors are in order. -/
  order : InOrder args.rwaAlignedIovs
  /-- The last vector does not reach beyond the page in which the pieces end. -/
  reach : ∀ v, args.rwaAlignedIovs.getLast? = some v → ∀ y, (∀ p ∈ P, p.stop ≤ y) →
    v.stop ≤ y / motrObjIoPagesize obj * motrObjIoPagesize obj ∨
      v.miovOff = y / motrObjIoPagesize obj * motrObjIoPagesize obj
  /-- The numbers are those of the pages of parts. -/
  mem_qs : ∀ q, q ∈ qs ↔ ∃ p ∈ parts P, p.off / motrObjIoPagesize obj = q
  /-- They are in order. -/
  sorted : qs.Pairwise (· < ·)
  /-- There is an extra page for each of them. -/
  pages : args.rwaAlignedIovs.filter (fun v => v.miovBase.isPage) =
    qs.map (pageVec (motrObjIoPagesize obj) qs)
  /-- And no other. -/
  nr : args.rwaNrExtraPages = qs.length
  /-- Pages below the size are read first. -/
  rbw : args.rwaRbwIovs = (qs.filter fun q => q * motrObjIoPagesize obj < obj.size).map
    (pageVec (motrObjIoPagesize obj) qs)
  /-- The copies are those of the parts. -/
  dc : args.rwaDcIovs = (parts P).map (pageCopy (motrObjIoPagesize obj) qs)

variable {obj : MioObj} {max : ℕ}

theorem writeInv_nil {args : MotrObjRwArgs} (hw : args.rwaIsWrite = true) (h : args.Fresh) :
    WriteInv obj [] [] args where
  isWrite := hw
  order := by rw [h.aligned]; exact List.Pairwise.nil
  reach v hv := by simp [h.aligned] at hv
  mem_qs q := by simp [parts]
  sorted := List.Pairwise.nil
  pages := by simp [h.aligned]
  nr := h.pages
  rbw := by simp [h.rbw]
  dc := by simp [h.dc, parts]

section Step

variable {P : List Piece} {qs : List ℕ} {args : MotrObjRwArgs} {p : Piece}

/-- An aligned vector starts before the end of the pieces. -/
theorem PlanInv.off_lt (hinv : PlanInv obj max P args)
    (hok : ∀ p ∈ P, p.Ok (motrObjIoPagesize obj)) {v : MioIovec Ptr}
    (hv : v ∈ args.rwaAlignedIovs) {y : ℕ} (hy : ∀ p ∈ P, p.stop ≤ y) : v.miovOff < y := by
  rcases hinv.vec v hv with ⟨q, hq, -, hdir, -⟩ | ⟨q, hq, -, k, -, rfl⟩
  · have h1 := hdir.pos
    have h2 : v.miovOff + v.miovLen ≤ q.stop := hdir.stop
    have h3 := hy q hq
    omega
  · have h1 : q.pageOff obj ≤ q.off := Piece.Ok.pageOff_le
    have h2 := (hok q hq).pos
    have h3 : q.off + q.len ≤ y := hy q hq
    simp only
    omega

/-- A vector that is not empty. -/
theorem PlanInv.pos (hinv : PlanInv obj max P args) {v : MioIovec Ptr}
    (hv : v ∈ args.rwaAlignedIovs) : 0 < v.miovLen := by
  rcases hinv.vec v hv with ⟨_, _, _, hdir, _⟩ | ⟨_, _, _, _, _, rfl⟩
  · exact hdir.pos
  · exact motrObjIoPagesize_pos obj

/-- In a list in order every vector ends before the last one starts, or is the
last one. -/
theorem InOrder.eq_or_stop_le {l : List (MioIovec Ptr)} (h : InOrder l) {last v : MioIovec Ptr}
    (hl : l.getLast? = some last) (hv : v ∈ l) : v = last ∨ v.stop ≤ last.miovOff := by
  obtain ⟨init, rfl⟩ := List.getLast?_eq_some_iff.mp hl
  rcases List.mem_append.mp hv with hv | hv
  · exact Or.inr ((List.pairwise_append.mp h).2.2 v hv last List.mem_cons_self)
  · exact Or.inl (List.mem_singleton.mp hv)

/-- A vector other than one that starts with the page at `y` ends before that
page. -/
theorem WriteInv.stop_le (h : WriteInv obj P qs args) {y : ℕ}
    (hy : ∀ p ∈ P, p.stop ≤ y)
    (hne : ∀ v, args.rwaAlignedIovs.getLast? = some v →
      v.miovOff ≠ y / motrObjIoPagesize obj * motrObjIoPagesize obj) {v : MioIovec Ptr}
    (hv : v ∈ args.rwaAlignedIovs) :
    v.stop ≤ y / motrObjIoPagesize obj * motrObjIoPagesize obj := by
  obtain ⟨last, hlast⟩ : ∃ last, args.rwaAlignedIovs.getLast? = some last :=
    ⟨_, List.getLast?_eq_some_getLast (List.ne_nil_of_mem hv)⟩
  have hreach := (h.reach last hlast y hy).resolve_right (hne last hlast)
  rcases h.order.eq_or_stop_le hlast hv with rfl | hle
  · exact hreach
  · exact (hle.trans last.off_le_stop).trans hreach

theorem WriteInv.addPiece_whole (hmax : 0 < max) (hok : p.Ok (motrObjIoPagesize obj))
    (hokP : ∀ p ∈ P, p.Ok (motrObjIoPagesize obj)) (hw : p.whole = true)
    (hafter : ∀ q ∈ P, q.stop ≤ p.off) (hinv : PlanInv obj max P args)
    (h : WriteInv obj P qs args) :
    WriteInv obj (P ++ [p]) qs (addPiece obj max args p) := by
  have hps := motrObjIoPagesize_pos obj
  have hparts : parts (P ++ [p]) = parts P := by simp [parts, hw]
  obtain ⟨halign, hend⟩ := hok.whole hw
  have hdiv : p.off / motrObjIoPagesize obj * motrObjIoPagesize obj = p.off :=
    Nat.div_mul_cancel (Nat.dvd_of_mod_eq_zero halign)
  have hpos : 0 < p.len := hok.pos
  rw [addPiece, if_pos hw]
  refine ⟨h.isWrite, ?_, ?_, ?_, h.sorted, ?_, h.nr, h.rbw, ?_⟩
  · -- everything so far ends before the piece
    refine List.pairwise_append.mpr ⟨h.order, inOrder_chunks hmax _ _ _ _, fun v hv w hw => ?_⟩
    have hne : ∀ last, args.rwaAlignedIovs.getLast? = some last →
        last.miovOff ≠ p.off / motrObjIoPagesize obj * motrObjIoPagesize obj := by
      intro last hlast
      have := hinv.off_lt hokP (List.mem_of_getLast? hlast) hafter
      omega
    have h1 := h.stop_le hafter hne hv
    have h2 : p.off ≤ w.miovOff := (direct_of_mem_chunks hmax hw).off
    omega
  · intro v hv y hy
    obtain ⟨last, hlast, hstop⟩ := getLast?_chunks hmax hpos le_rfl
    rw [List.getLast?_append, hlast] at hv
    obtain rfl : last = v := by simpa using hv
    have hpy : p.stop ≤ y := hy p (List.mem_append_right _ List.mem_cons_self)
    have hstop' : p.stop / motrObjIoPagesize obj * motrObjIoPagesize obj = p.stop :=
      Nat.div_mul_cancel (Nat.dvd_of_mod_eq_zero hend)
    refine Or.inl ?_
    rw [hstop, show p.off + p.len = p.stop from rfl, ← hstop']
    exact Nat.mul_le_mul_right _ (Nat.div_le_div_right hpy)
  · rw [hparts]
    exact h.mem_qs
  · rw [List.filter_append, filter_isPage_chunks hmax, List.append_nil]
    exact h.pages
  · rw [hparts]
    exact h.dc

/-- An extra page among the aligned vectors is that of its number. -/
theorem WriteInv.eq_pageVec (h : WriteInv obj P qs args) {v : MioIovec Ptr}
    (hv : v ∈ args.rwaAlignedIovs) (hpage : v.miovBase.isPage = true) :
    ∃ q ∈ qs, v = pageVec (motrObjIoPagesize obj) qs q := by
  have hmem : v ∈ args.rwaAlignedIovs.filter fun v => v.miovBase.isPage :=
    List.mem_filter.mpr ⟨hv, hpage⟩
  rw [h.pages] at hmem
  obtain ⟨q, hq, rfl⟩ := List.mem_map.mp hmem
  exact ⟨q, hq, rfl⟩

theorem WriteInv.pageVec_mem (h : WriteInv obj P qs args) {q : ℕ} (hq : q ∈ qs) :
    pageVec (motrObjIoPagesize obj) qs q ∈ args.rwaAlignedIovs := by
  have hmem : pageVec (motrObjIoPagesize obj) qs q ∈
      args.rwaAlignedIovs.filter fun v => v.miovBase.isPage := by
    rw [h.pages]
    exact List.mem_map_of_mem hq
  exact (List.mem_filter.mp hmem).1

/-- A vector that holds the page of a part in order is an extra page: a chunk
would overlap the part. -/
theorem PlanInv.isPage_of_holdsPage (hinv : PlanInv obj max P args)
    (hafter : ∀ q ∈ P, q.whole = true → q.stop ≤ p.off ∨ p.stop ≤ q.off)
    (hok : p.Ok (motrObjIoPagesize obj)) {v : MioIovec Ptr}
    (hv : v ∈ args.rwaAlignedIovs) (hholds : HoldsPage obj p v) : v.miovBase.isPage = true := by
  have hps := motrObjIoPagesize_pos obj
  rcases hinv.vec v hv with ⟨q, hq, hqw, hdir, -⟩ | ⟨_, _, _, _, _, rfl⟩
  · exfalso
    have h1 : v.miovOff + v.miovLen ≤ q.stop := hdir.stop
    have h2 := hdir.off
    have h3 := hok.pos
    obtain ⟨h4, h5⟩ := hholds
    have h6 : p.pageOff obj ≤ p.off := Piece.Ok.pageOff_le
    have h7 : p.off < p.pageOff obj + motrObjIoPagesize obj := by
      have := Nat.lt_div_mul_add (a := p.off) hps
      simpa [Piece.pageOff] using this
    rcases hafter q hq hqw with h | h
    · omega
    · simp only [Piece.stop] at h
      omega
  · rfl

theorem parts_append_of_part (hw : p.whole = false) (P : List Piece) :
    parts (P ++ [p]) = parts P ++ [p] := by
  simp [parts, hw]

/-- The pages of some parts and of one more. -/
theorem exists_mem_append_iff {l : List Piece} {ps q : ℕ} :
    (∃ r ∈ l ++ [p], r.off / ps = q) ↔ (∃ r ∈ l, r.off / ps = q) ∨ p.off / ps = q := by
  simp only [List.mem_append, List.mem_singleton, or_and_right, exists_or, exists_eq_left]

/-- The page of a part is the last one that the part reaches. -/
theorem Piece.stop_page_le {ps : ℕ} {v : MioIovec Ptr} (hoff : v.miovOff = p.off / ps * ps)
    (hlen : v.miovLen = ps) {y : ℕ} (hy : p.stop ≤ y) :
    v.stop ≤ y / ps * ps ∨ v.miovOff = y / ps * ps := by
  have hle : p.off / ps ≤ y / ps := Nat.div_le_div_right (le_trans (Nat.le_add_right _ _) hy)
  rcases Nat.lt_or_eq_of_le hle with hlt | heq
  · refine Or.inl ?_
    rw [MioIovec.stop, hoff, hlen, ← Nat.succ_mul]
    exact Nat.mul_le_mul_right _ hlt
  · exact Or.inr (by rw [hoff, heq])

theorem partCopy_pageVec (qs : List ℕ) :
    partCopy obj true p (pageVec (motrObjIoPagesize obj) qs (p.off / motrObjIoPagesize obj)) =
      pageCopy (motrObjIoPagesize obj) qs p := rfl

/-- A part whose page is the last extra page: only a copy is added. -/
theorem WriteInv.addPiece_held (hw : p.whole = false) (h : WriteInv obj P qs args)
    (hq : p.off / motrObjIoPagesize obj ∈ qs)
    (hl : args.rwaAlignedIovs.getLast? =
      some (pageVec (motrObjIoPagesize obj) qs (p.off / motrObjIoPagesize obj))) :
    WriteInv obj (P ++ [p]) qs { args with
      rwaDcIovs := args.rwaDcIovs ++ [partCopy obj args.rwaIsWrite p
        (pageVec (motrObjIoPagesize obj) qs (p.off / motrObjIoPagesize obj))] } where
  isWrite := h.isWrite
  order := h.order
  reach v hv y hy := by
    obtain rfl := Option.some.inj (hl.symm.trans hv)
    exact Piece.stop_page_le rfl rfl (hy p (List.mem_append_right _ List.mem_cons_self))
  mem_qs q := by
    rw [parts_append_of_part hw, exists_mem_append_iff, h.mem_qs]
    refine (or_iff_left_of_imp ?_).symm
    rintro rfl
    exact (h.mem_qs _).mp hq
  sorted := h.sorted
  pages := h.pages
  nr := h.nr
  rbw := h.rbw
  dc := by
    rw [parts_append_of_part hw, List.map_append, h.dc, h.isWrite, partCopy_pageVec]
    rfl

/-- The pages so far are in front of one that the last vector does not start with. -/
theorem WriteInv.page_lt (hafter : ∀ q ∈ P, q.stop ≤ p.off) (h : WriteInv obj P qs args)
    (hne : ∀ v, args.rwaAlignedIovs.getLast? = some v → v.miovOff ≠ p.pageOff obj) {q : ℕ}
    (hq : q ∈ qs) : q < p.off / motrObjIoPagesize obj := by
  have hstop : q * motrObjIoPagesize obj + motrObjIoPagesize obj ≤
      p.off / motrObjIoPagesize obj * motrObjIoPagesize obj :=
    h.stop_le hafter hne (h.pageVec_mem hq)
  rw [← Nat.succ_mul] at hstop
  exact Nat.le_of_mul_le_mul_right hstop (motrObjIoPagesize_pos obj)

/-- A part that gets a page of its own. -/
theorem WriteInv.addPiece_ownPage (hw : p.whole = false) (hafter : ∀ q ∈ P, q.stop ≤ p.off)
    (h : WriteInv obj P qs args)
    (hne : ∀ v, args.rwaAlignedIovs.getLast? = some v → v.miovOff ≠ p.pageOff obj) :
    WriteInv obj (P ++ [p]) (qs ++ [p.off / motrObjIoPagesize obj])
      { motrObjIovecGetPage obj args (p.pageOff obj) with
        rwaDcIovs := args.rwaDcIovs ++ [partCopy obj args.rwaIsWrite p
          ⟨.page args.rwaNrExtraPages 0, p.pageOff obj, motrObjIoPagesize obj⟩] } := by
  obtain ⟨ps, hpsdef⟩ : ∃ ps, ps = motrObjIoPagesize obj := ⟨_, rfl⟩
  have hoff : p.pageOff obj = p.off / ps * ps := by rw [Piece.pageOff, hpsdef]
  obtain ⟨nv, hnv⟩ : ∃ nv, nv = pageVec ps (qs ++ [p.off / ps]) (p.off / ps) := ⟨_, rfl⟩
  have hlt : ∀ q ∈ qs, q < p.off / ps := fun q hq => hpsdef ▸ h.page_lt hafter hne hq
  have hidx : (qs ++ [p.off / ps]).idxOf (p.off / ps) = qs.length := by
    rw [List.idxOf_append_of_notMem fun hmem => absurd (hlt _ hmem) (lt_irrefl _)]
    simp
  have hnv' : nv = ⟨.page args.rwaNrExtraPages 0, p.pageOff obj, motrObjIoPagesize obj⟩ := by
    rw [hnv, pageVec, hidx, h.nr, hoff, hpsdef]
  rw [← hnv', ← hpsdef]
  refine ⟨h.isWrite, ?_, ?_, ?_, ?_, ?_, ?_, ?_, ?_⟩
  · change InOrder (args.rwaAlignedIovs ++ [_])
    rw [← hnv']
    refine List.pairwise_append.mpr ⟨h.order, List.pairwise_singleton _ _, fun v hv w hw => ?_⟩
    obtain rfl := List.mem_singleton.mp hw
    have hstop := h.stop_le hafter hne hv
    rw [← hpsdef] at hstop
    rw [hnv]
    exact hstop
  · intro v hv y hy
    have hv' : (args.rwaAlignedIovs ++ [nv]).getLast? = some v := by
      rw [hnv']
      exact hv
    obtain rfl : nv = v := by simpa using hv'
    rw [← hpsdef, hnv]
    exact Piece.stop_page_le rfl rfl (hy p (List.mem_append_right _ List.mem_cons_self))
  · intro q
    rw [parts_append_of_part hw, exists_mem_append_iff, List.mem_append, h.mem_qs, ← hpsdef,
      List.mem_singleton, eq_comm (a := q)]
  · refine List.pairwise_append.mpr ⟨h.sorted, List.pairwise_singleton _ _, fun a ha b hb => ?_⟩
    obtain rfl := List.mem_singleton.mp hb
    exact hlt a ha
  · change (args.rwaAlignedIovs ++ [_]).filter _ = _
    have hpages : (qs ++ [p.off / ps]).map (pageVec ps (qs ++ [p.off / ps])) =
        qs.map (pageVec ps qs) ++ [nv] := by
      rw [List.map_append, hnv]
      congr 1
      exact List.map_congr_left fun q hq => pageVec_append hq _
    rw [← hnv', List.filter_append, h.pages, ← hpsdef, hpages]
    congr 1
    rw [hnv]
    rfl
  · simp only [motrObjIovecGetPage, h.nr, List.length_append, List.length_singleton]
  · simp only [motrObjIovecGetPage]
    rw [← hnv', h.isWrite, h.rbw, ← hpsdef, List.filter_append, List.map_append]
    have hold : ((qs.filter fun q => q * ps < obj.size).map
        (pageVec ps (qs ++ [p.off / ps]))) =
        (qs.filter fun q => q * ps < obj.size).map (pageVec ps qs) :=
      List.map_congr_left fun q hq => pageVec_append (List.mem_filter.mp hq).1 _
    rw [hold, hoff]
    by_cases hsize : p.off / ps * ps < obj.size
    · rw [if_pos ⟨rfl, hsize⟩]
      simp [hsize, hnv]
    · rw [if_neg (fun hc => hsize hc.2)]
      simp [hsize]
  · simp only
    rw [parts_append_of_part hw, List.map_append, h.dc, h.isWrite, hnv, hpsdef, partCopy_pageVec]
    congr 1
    refine List.map_congr_left fun r hr => ?_
    exact (pageCopy_append ((h.mem_qs _).mpr ⟨r, hr, rfl⟩) _).symm

/-- A part is put where its page is, or gets a page of its own. -/
theorem WriteInv.addPiece_part (hok : p.Ok (motrObjIoPagesize obj))
    (hw : p.whole = false) (hafter : ∀ q ∈ P, q.stop ≤ p.off) (hinv : PlanInv obj max P args)
    (h : WriteInv obj P qs args) :
    ∃ qs', WriteInv obj (P ++ [p]) qs' (addPiece obj max args p) := by
  rcases CortxMio.addPiece_part hw hok.pos hinv with ⟨prev, hl, hholds, heq⟩ | ⟨hne, heq⟩
  · -- the vector before holds the page, and it is an extra page
    have hprev := List.mem_of_getLast? hl
    have hpage := hinv.isPage_of_holdsPage (fun q hq _ => Or.inl (hafter q hq)) hok hprev hholds
    obtain ⟨q, hq, rfl⟩ := h.eq_pageVec hprev hpage
    obtain rfl : q = p.off / motrObjIoPagesize obj :=
      Nat.eq_of_mul_eq_mul_right (motrObjIoPagesize_pos obj) hholds.1
    exact ⟨qs, heq ▸ h.addPiece_held hw hq hl⟩
  · exact ⟨_, heq ▸ h.addPiece_ownPage hw hafter hne⟩

end Step

/-- **The planner keeps the invariant of a write**, as long as the pieces come in
order. -/
theorem writeInv_foldl (hmax : 0 < max) {args : MotrObjRwArgs} (hw : args.rwaIsWrite = true)
    (hfresh : args.Fresh) :
    ∀ P : List Piece, (∀ p ∈ P, p.Ok (motrObjIoPagesize obj)) →
      (P.Pairwise fun p q => p.stop ≤ q.off) →
      ∃ qs, WriteInv obj P qs (P.foldl (addPiece obj max) args) := by
  intro P
  induction P using List.reverseRecOn with
  | nil => exact fun _ _ => ⟨[], writeInv_nil hw hfresh⟩
  | append_singleton P p ih =>
    intro hok hord
    obtain ⟨hordP, -, hafter⟩ := List.pairwise_append.mp hord
    have hokP : ∀ q ∈ P, q.Ok (motrObjIoPagesize obj) :=
      fun q hq => hok q (List.mem_append_left _ hq)
    obtain ⟨qs, hqs⟩ := ih hokP hordP
    have hp := hok p (List.mem_append_right _ List.mem_cons_self)
    have hafter' : ∀ q ∈ P, q.stop ≤ p.off := fun q hq => hafter q hq p List.mem_cons_self
    have hinv := planInv_foldl hmax hfresh P hokP
    rw [List.foldl_append, List.foldl_cons, List.foldl_nil]
    cases hpw : p.whole with
    | true => exact ⟨qs, hqs.addPiece_whole hmax hp hokP hpw hafter' hinv⟩
    | false => exact hqs.addPiece_part hp hpw hafter' hinv

end CortxMio
