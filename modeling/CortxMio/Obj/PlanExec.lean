import CortxMio.Obj.WriteSubmit

/-!
# Executing the plan of a write

What the plan of a write amounts to, step by step, apart from the chain of ops
that carries it out: some vectors are read into their extra pages, the copies are
run (`CortxMio.copiedMem`), and the aligned vectors are written
(`CortxMio.planBytes`). Which vectors are read first is a parameter here. The
chain reads those of its first op; the plan as it is meant reads them all
(`CortxMio.execPlan`).

The bytes of the ranges are then those of the application's buffers
(`CortxMio.planBytes_of_piece`), and the bytes next to them on their pages those
that were there, if the page has been read, and zero otherwise
(`CortxMio.planBytes_of_page`). So a plan that is executed as it is meant
overwrites its ranges and nothing else (`CortxMio.execPlan_eq_writeRanges`).
-/

namespace CortxMio

open Lib

/-! ### What a write is for -/

/-- Overwrite ranges of a byte array with the bytes of their buffers. -/
def writeRanges (app : ℕ → Byte) (iov : List (MioIovec ℕ)) (bytes : ℕ → Byte) : ℕ → Byte := fun x =>
  match iov.find? fun v => v.Has x with
  | some v => app (v.miovBase + (x - v.miovOff))
  | none => bytes x

theorem writeRanges_of_not_mem {app : ℕ → Byte} {iov : List (MioIovec ℕ)} {bytes : ℕ → Byte}
    {x : ℕ} (h : ∀ v ∈ iov, ¬v.Has x) : writeRanges app iov bytes x = bytes x := by
  have hfind : (iov.find? fun v => v.Has x) = none := by
    rw [List.find?_eq_none]
    simpa using h
  rw [writeRanges, hfind]

/-- Of ranges that do not overlap, only one has a given byte. -/
theorem writeRanges_of_mem {app : ℕ → Byte} {iov : List (MioIovec ℕ)} {bytes : ℕ → Byte}
    {x : ℕ} {c : Byte} (hex : ∃ v ∈ iov, v.Has x)
    (h : ∀ v ∈ iov, v.Has x → app (v.miovBase + (x - v.miovOff)) = c) :
    writeRanges app iov bytes x = c := by
  cases hfind : iov.find? fun v => v.Has x with
  | none =>
    rw [List.find?_eq_none] at hfind
    obtain ⟨v, hv, hx⟩ := hex
    exact absurd hx (by simpa using hfind v hv)
  | some v =>
    rw [writeRanges, hfind]
    exact h v (List.mem_of_find?_eq_some hfind) (by simpa using List.find?_some hfind)

/-! ### The steps of a plan -/

section Defs

variable (obj : MioObj) (max : ℕ) (app : ℕ → Byte) (iov : List (MioIovec ℕ)) (bytes : ℕ → Byte)
  (R : List (MioIovec Ptr))

/-- The memory of a write that has read the given vectors and run its copies. -/
def copiedMem : Mem :=
  motrObjDataCopy (planArgs obj max true iov) (readVecs bytes R (Mem.init app))

/-- The bytes once the aligned vectors have been written. -/
def planBytes (old : ℕ → Byte) : ℕ → Byte :=
  writeVecs (copiedMem obj max app iov bytes R) (planArgs obj max true iov).rwaAlignedIovs old

/-- The byte is on the pages of the write. -/
def PlanHas (x : ℕ) : Prop := ∃ v ∈ (planArgs obj max true iov).rwaAlignedIovs, v.Has x

/-- A vector among these that reads anything reads an extra page of the plan. -/
def ReadsPages : Prop := ∀ r ∈ R, 0 < r.miovLen →
  ∃ q ∈ writePages obj max iov, r = pageVec (motrObjIoPagesize obj) (writePages obj max iov) q

end Defs

variable {obj : MioObj} {max : ℕ} {app : ℕ → Byte} {iov : List (MioIovec ℕ)} {bytes : ℕ → Byte}
  {R : List (MioIovec Ptr)}

/-! ### The memory of a write -/

section Memory

variable (hR : ReadsPages obj max iov R)

include hR

/-- Application memory is not read into. -/
theorem readVecs_app (a : ℕ) : readVecs bytes R (Mem.init app) (.app a) = app a := by
  rw [readVecs_of_not_mem]
  · rfl
  · rintro r hr ⟨i, hi, ha⟩
    obtain ⟨q, -, rfl⟩ := hR r hr (by omega)
    exact absurd ha (by simp [pageVec])

/-- What is read into an extra page. -/
theorem readVecs_page {q : ℕ} (hq : q ∈ writePages obj max iov) {j : ℕ}
    (hj : j < motrObjIoPagesize obj) :
    readVecs bytes R (Mem.init app) (.page ((writePages obj max iov).idxOf q) j) =
      if pageVec (motrObjIoPagesize obj) (writePages obj max iov) q ∈ R
      then bytes (q * motrObjIoPagesize obj + j) else 0 := by
  -- a vector that reaches the page is that of the page
  have honly : ∀ r ∈ R, ∀ i < r.miovLen,
      Ptr.page ((writePages obj max iov).idxOf q) j = r.miovBase.add i →
      r = pageVec (motrObjIoPagesize obj) (writePages obj max iov) q ∧ i = j := by
    intro r hr i hi ha
    obtain ⟨q', hq', rfl⟩ := hR r hr (by omega)
    simp only [pageVec, Ptr.add, Ptr.page.injEq, Nat.zero_add] at ha
    obtain ⟨hidx, rfl⟩ := ha
    obtain rfl := (List.idxOf_inj hq).mp hidx
    exact ⟨rfl, rfl⟩
  split
  · next hmem =>
    refine readVecs_of_mem (fun r hr i hi ha => ?_) ⟨_, hmem, j, hj, ?_⟩
    · obtain ⟨rfl, rfl⟩ := honly r hr i hi ha
      rfl
    · simp [pageVec]
  · next hmem =>
    rw [readVecs_of_not_mem]
    · rfl
    · rintro r hr ⟨i, hi, ha⟩
      obtain ⟨rfl, -⟩ := honly r hr i hi ha
      exact hmem hr

variable (hpos : 0 < max) (hord : InOrder (writeSorted iov))

include hpos hord

/-- The copies of a write go from application memory to extra pages. -/
theorem copiedMem_eq (a : Ptr) :
    copiedMem obj max app iov bytes R a =
      blitAll ((parts (reqPieces obj true iov)).map fun p =>
        ⟨.page ((writePages obj max iov).idxOf (p.off / motrObjIoPagesize obj))
          (p.off % motrObjIoPagesize obj), p.len, fun i => app (p.base + i)⟩)
        (readVecs bytes R (Mem.init app)) a := by
  have hdc : (planArgs obj max true iov).rwaDcIovs =
      (parts (reqPieces obj true iov)).map
        (pageCopy (motrObjIoPagesize obj) (writePages obj max iov)) :=
    (writeInv_planArgs obj hpos hord).dc
  have hfree : ∀ c ∈ (planArgs obj max true iov).rwaDcIovs.map dcCopy,
      ∀ c' ∈ (planArgs obj max true iov).rwaDcIovs.map dcCopy,
      ∀ i, i < c'.len → ¬InRun c.dst c.len (Addr.shift c'.src i) := by
    rw [hdc, List.map_map]
    rintro c hc c' hc' i - ⟨k, -, hk⟩
    obtain ⟨p, -, rfl⟩ := List.mem_map.mp hc
    obtain ⟨p', -, rfl⟩ := List.mem_map.mp hc'
    exact absurd hk (by simp [dcCopy, pageCopy, dcPair, Ptr.add])
  rw [copiedMem, motrObjDataCopy, copyAll_eq_blitAll hfree, hdc, List.map_map, List.map_map]
  congr 2
  funext p
  simp only [Function.comp, dcCopy, pageCopy, dcPair, if_true, Ptr.add, Nat.add_zero, Nat.zero_add,
    shift_app, Move.mk.injEq, true_and]
  funext i
  exact readVecs_app hR _

/-- Application memory is not copied into. -/
theorem copiedMem_app (a : ℕ) : copiedMem obj max app iov bytes R (.app a) = app a := by
  rw [copiedMem_eq hR hpos hord, blitAll_of_not_covered, readVecs_app hR]
  rintro ⟨mv, hmv, i, -, ha⟩
  obtain ⟨p, -, rfl⟩ := List.mem_map.mp hmv
  exact absurd ha (by simp)

variable (app bytes) in
/-- What an extra page holds where a part has been copied to it. -/
theorem copiedMem_part {p : Piece} (hp : p ∈ parts (reqPieces obj true iov)) {x : ℕ}
    (hx : p.Has x) :
    copiedMem obj max app iov bytes R
        (.page ((writePages obj max iov).idxOf (p.off / motrObjIoPagesize obj))
          (x - p.off / motrObjIoPagesize obj * motrObjIoPagesize obj)) =
      app (p.base + (x - p.off)) := by
  have hinv := writeInv_planArgs obj hpos hord
  have hparts := hinv.partsOk (fun _ h => ok_of_mem_reqPieces h) (reqPieces_pairwise hord)
  have hdm := Nat.div_add_mod' p.off (motrObjIoPagesize obj)
  obtain ⟨h1, h2⟩ := hx
  simp only [Piece.stop] at h2
  rw [copiedMem_eq hR hpos hord]
  refine blitAll_of_covered (T := fun _ => app (p.base + (x - p.off))) ?_ ?_ _
  · intro mv hmv i hi ha
    obtain ⟨r, hr, rfl⟩ := List.mem_map.mp hmv
    simp only [shift_page, Ptr.page.injEq] at ha
    obtain ⟨hidx, hoff⟩ := ha
    have hpage := (List.idxOf_inj (hparts.mem p hp)).mp hidx
    have hdm' := Nat.div_add_mod' r.off (motrObjIoPagesize obj)
    rw [← hpage] at hdm'
    -- two parts with a byte in common are the same
    have hrx : x = r.off + i := by omega
    obtain rfl : r = p := by
      by_contra hne
      have hapart := Piece.apart_of_pairwise hparts.order hr hp hne
      have hi' : i < r.len := hi
      simp only [Piece.stop] at hapart
      omega
    change app (r.base + i) = app (r.base + (x - r.off))
    rw [hrx, Nat.add_sub_cancel_left]
  · refine ⟨_, List.mem_map_of_mem hp, x - p.off, by simp only; omega, ?_⟩
    simp only [shift_page, Ptr.page.injEq, true_and]
    omega

/-- What an extra page holds elsewhere. -/
theorem copiedMem_page {q : ℕ} (hq : q ∈ writePages obj max iov) {j : ℕ}
    (hno : ∀ p ∈ parts (reqPieces obj true iov), ¬p.Has (q * motrObjIoPagesize obj + j)) :
    copiedMem obj max app iov bytes R (.page ((writePages obj max iov).idxOf q) j) =
      readVecs bytes R (Mem.init app) (.page ((writePages obj max iov).idxOf q) j) := by
  rw [copiedMem_eq hR hpos hord, blitAll_of_not_covered]
  rintro ⟨mv, hmv, i, hi, ha⟩
  obtain ⟨p, hp, rfl⟩ := List.mem_map.mp hmv
  simp only [shift_page, Ptr.page.injEq] at ha
  obtain ⟨hidx, hoff⟩ := ha
  have hpage := (List.idxOf_inj hq).mp hidx
  have hdm := Nat.div_add_mod' p.off (motrObjIoPagesize obj)
  have hi' : i < p.len := hi
  rw [← hpage] at hdm
  exact hno p hp ⟨by omega, by simp only [Piece.stop]; omega⟩

end Memory

/-! ### Ranges and pieces -/

section Geometry

/-- A byte of a range is on the pages of the write. -/
theorem exists_piece_of_has {v : MioIovec ℕ} (hv : v ∈ iov) {x : ℕ} (hx : v.Has x) :
    ∃ p ∈ reqPieces obj true iov,
      p.Has x ∧ p.base + (x - p.off) = v.miovBase + (x - v.miovOff) := by
  obtain ⟨p, hp, hpx⟩ := exists_mem_rangePieces (motrObjIoPagesize obj) hx
  have hof := (of_mem_rangePieces (motrObjIoPagesize_pos obj) hp).2
  refine ⟨p, mem_reqPieces.mpr ⟨v, hv, hp⟩, hpx, ?_⟩
  have h1 := hof.off
  have h2 := hof.base
  have h3 := hpx.1
  omega

/-- A byte of no range is in no piece. -/
theorem not_has_of_not_mem {x : ℕ} (h : ∀ v ∈ iov, ¬v.Has x) :
    ∀ p ∈ reqPieces obj true iov, ¬p.Has x := by
  intro p hp hpx
  obtain ⟨v, hv, hpv⟩ := mem_reqPieces.mp hp
  have hof := (of_mem_rangePieces (motrObjIoPagesize_pos obj) hpv).2
  exact h v hv ⟨le_trans hof.off hpx.1, lt_of_lt_of_le hpx.2 hof.stop⟩

variable (hpos : 0 < max) (hord : InOrder (writeSorted iov))

include hpos hord

/-- An aligned vector without a byte of the ranges in it is an extra page. -/
theorem exists_page_of_planHas {x : ℕ} (hhas : PlanHas obj max iov x)
    (hno : ∀ p ∈ reqPieces obj true iov, ¬p.Has x) :
    ∃ q ∈ writePages obj max iov, q * motrObjIoPagesize obj ≤ x ∧
      x < q * motrObjIoPagesize obj + motrObjIoPagesize obj := by
  obtain ⟨v, hv, hvx⟩ := hhas
  rcases (planInv_planArgs obj hpos true iov).vec v hv with
    ⟨p, hp, -, hdir, -⟩ | ⟨p, hp, hw, k, -, rfl⟩
  · exact absurd ⟨le_trans hdir.off hvx.1, lt_of_lt_of_le hvx.2 hdir.stop⟩ (hno p hp)
  · refine ⟨p.off / motrObjIoPagesize obj, ?_, hvx.1, hvx.2⟩
    exact ((writeInv_planArgs obj hpos hord).mem_qs _).mpr ⟨p, mem_parts.mpr ⟨hp, hw⟩, rfl⟩

/-- The whole page of a part is on the pages of the write. -/
theorem planHas_of_part {p : Piece} (hp : p ∈ parts (reqPieces obj true iov)) {x : ℕ}
    (h1 : p.off / motrObjIoPagesize obj * motrObjIoPagesize obj ≤ x)
    (h2 : x < p.off / motrObjIoPagesize obj * motrObjIoPagesize obj + motrObjIoPagesize obj) :
    PlanHas obj max iov x := by
  have hwinv := writeInv_planArgs obj hpos hord
  exact ⟨_, hwinv.pageVec_mem ((hwinv.mem_qs _).mpr ⟨p, hp, rfl⟩), h1, h2⟩

theorem planHas_of_piece {p : Piece} (hp : p ∈ reqPieces obj true iov) {x : ℕ} (hx : p.Has x) :
    PlanHas obj max iov x := by
  cases hw : p.whole with
  | true =>
    obtain ⟨v, hv, -, hvx⟩ := (planInv_planArgs obj hpos true iov).whole p hp hw x hx
    exact ⟨v, hv, hvx⟩
  | false =>
    have hpart := (ok_of_mem_reqPieces hp).part hw
    exact planHas_of_part hpos hord (mem_parts.mpr ⟨hp, hw⟩)
      (le_trans (Nat.div_mul_le_self _ _) hx.1) (lt_of_lt_of_le hx.2 hpart)

/-- Aligned vectors in order share no byte. -/
theorem eq_of_has {v w : MioIovec Ptr} (hv : v ∈ (planArgs obj max true iov).rwaAlignedIovs)
    (hw : w ∈ (planArgs obj max true iov).rwaAlignedIovs) {x : ℕ} (hvx : v.Has x) (hwx : w.Has x) :
    v = w := by
  have hpw : InOrder (planArgs obj max true iov).rwaAlignedIovs :=
    (writeInv_planArgs obj hpos hord).order
  have hsymm : (planArgs obj max true iov).rwaAlignedIovs.Pairwise MioIovec.Apart := hpw.imp Or.inl
  have : Std.Symm (MioIovec.Apart (π := Ptr)) := ⟨fun _ _ => MioIovec.Apart.symm⟩
  by_contra hne
  obtain ⟨h1, h2⟩ := hvx
  obtain ⟨h3, h4⟩ := hwx
  rcases hsymm.forall hv hw hne with h | h <;> omega

end Geometry

/-! ### The final bytes -/

section Bytes

variable {old : ℕ → Byte} (hR : ReadsPages obj max iov R) (hpos : 0 < max)
  (hord : InOrder (writeSorted iov))

/-- Bytes on other pages stay. -/
theorem planBytes_of_not_planHas {x : ℕ} (hno : ¬PlanHas obj max iov x) :
    planBytes obj max app iov bytes R old x = old x :=
  writeVecs_of_not_mem fun v hv hx => hno ⟨v, hv, hx⟩

include hR hpos hord

omit hR in
/-- The final byte that an aligned vector writes. -/
theorem planBytes_of_aligned {v : MioIovec Ptr}
    (hv : v ∈ (planArgs obj max true iov).rwaAlignedIovs) {x : ℕ} (hx : v.Has x) :
    planBytes obj max app iov bytes R old x =
      copiedMem obj max app iov bytes R (v.miovBase.add (x - v.miovOff)) := by
  refine writeVecs_of_mem (fun w hw hwx => ?_) ⟨v, hv, hx⟩
  rw [eq_of_has hpos hord hv hw hx hwx]

/-- **The final bytes of the ranges** are those of the buffers. -/
theorem planBytes_of_piece {p : Piece} (hp : p ∈ reqPieces obj true iov) {x : ℕ} (hx : p.Has x) :
    planBytes obj max app iov bytes R old x = app (p.base + (x - p.off)) := by
  have hinv := planInv_planArgs obj hpos true iov
  have hwinv := writeInv_planArgs obj hpos hord
  cases hw : p.whole with
  | true =>
    obtain ⟨v, hv, hdir, hvx⟩ := hinv.whole p hp hw x hx
    have h1 := hdir.off
    have h2 := hvx.1
    rw [planBytes_of_aligned hpos hord hv hvx, hdir.base, Ptr.add, copiedMem_app hR hpos hord]
    congr 1
    omega
  | false =>
    have hpp : p ∈ parts (reqPieces obj true iov) := mem_parts.mpr ⟨hp, hw⟩
    have hq : p.off / motrObjIoPagesize obj ∈ writePages obj max iov :=
      (hwinv.mem_qs _).mpr ⟨p, hpp, rfl⟩
    have hpart := (ok_of_mem_reqPieces hp).part hw
    have hle := Nat.div_mul_le_self p.off (motrObjIoPagesize obj)
    obtain ⟨h1, h2⟩ := hx
    have hvx : (pageVec (motrObjIoPagesize obj) (writePages obj max iov)
        (p.off / motrObjIoPagesize obj)).Has x :=
      ⟨le_trans hle h1, lt_of_lt_of_le h2 hpart⟩
    rw [planBytes_of_aligned hpos hord (hwinv.pageVec_mem hq) hvx]
    have hmem := copiedMem_part app bytes hR hpos hord hpp ⟨h1, h2⟩
    simpa [pageVec, Ptr.add] using hmem

/-- **The other bytes of a page that the write covers in part**: those that were
there, if the page has been read, and zeros if not. -/
theorem planBytes_of_page {q : ℕ} (hq : q ∈ writePages obj max iov) {x : ℕ}
    (h1 : q * motrObjIoPagesize obj ≤ x)
    (h2 : x < q * motrObjIoPagesize obj + motrObjIoPagesize obj)
    (hno : ∀ p ∈ reqPieces obj true iov, ¬p.Has x) :
    planBytes obj max app iov bytes R old x =
      if pageVec (motrObjIoPagesize obj) (writePages obj max iov) q ∈ R then bytes x else 0 := by
  have hwinv := writeInv_planArgs obj hpos hord
  have hx : q * motrObjIoPagesize obj + (x - q * motrObjIoPagesize obj) = x := by omega
  have hvx : (pageVec (motrObjIoPagesize obj) (writePages obj max iov) q).Has x := ⟨h1, h2⟩
  rw [planBytes_of_aligned hpos hord (hwinv.pageVec_mem hq) hvx]
  have hbase : (pageVec (motrObjIoPagesize obj) (writePages obj max iov) q).miovBase.add
      (x - (pageVec (motrObjIoPagesize obj) (writePages obj max iov) q).miovOff) =
      .page ((writePages obj max iov).idxOf q) (x - q * motrObjIoPagesize obj) := by
    simp [pageVec, Ptr.add]
  rw [hbase, copiedMem_page hR hpos hord hq, readVecs_page hR hq (by omega), hx]
  intro p hp
  rw [hx]
  exact hno p (mem_parts.mp hp).1

/-- The bytes of the ranges are what overwriting them gives. -/
theorem planBytes_of_mem {x : ℕ} (hx : ∃ v ∈ iov, v.Has x) (b : ℕ → Byte) :
    planBytes obj max app iov bytes R old x = writeRanges app iov b x := by
  refine (writeRanges_of_mem hx fun v hv hvx => ?_).symm
  obtain ⟨p, hp, hpx, hbase⟩ := exists_piece_of_has hv hvx
  rw [planBytes_of_piece hR hpos hord hp hpx, hbase]

/-- **A write that reads every page it has to overwrites its ranges**, on its
pages. -/
theorem planBytes_eq_writeRanges
    (hzero : ∀ q ∈ writePages obj max iov, obj.size ≤ q * motrObjIoPagesize obj →
      ∀ x, q * motrObjIoPagesize obj ≤ x → bytes x = 0)
    (hread : ∀ q ∈ writePages obj max iov, q * motrObjIoPagesize obj < obj.size →
      pageVec (motrObjIoPagesize obj) (writePages obj max iov) q ∈ R ∨
        PageFilled (motrObjIoPagesize obj) (parts (reqPieces obj true iov)) q)
    {x : ℕ} (hhas : PlanHas obj max iov x) :
    planBytes obj max app iov bytes R old x = writeRanges app iov bytes x := by
  by_cases hx : ∃ v ∈ iov, v.Has x
  · exact planBytes_of_mem hR hpos hord hx bytes
  · have hno : ∀ v ∈ iov, ¬v.Has x := by simpa using hx
    rw [writeRanges_of_not_mem hno]
    obtain ⟨q, hq, h1, h2⟩ := exists_page_of_planHas hpos hord hhas (not_has_of_not_mem hno)
    rw [planBytes_of_page hR hpos hord hq h1 h2 (not_has_of_not_mem hno)]
    -- a page that is not read lies beyond the size, or is filled by the ranges
    split
    · rfl
    · next hmem =>
      by_cases hsize : q * motrObjIoPagesize obj < obj.size
      · obtain ⟨p, hp, hpx⟩ := ((hread q hq hsize).resolve_left hmem)
          (x - q * motrObjIoPagesize obj) (by omega)
        rw [show q * motrObjIoPagesize obj + (x - q * motrObjIoPagesize obj) = x by omega] at hpx
        exact absurd hpx (not_has_of_not_mem hno p (mem_parts.mp hp).1)
      · exact (hzero q hq (Nat.not_lt.mp hsize) x h1).symm

/-- **Bytes beyond the size stay zero**, whatever has been read. -/
theorem planBytes_eq_zero (hzero : ∀ x, obj.size ≤ x → bytes x = 0) {x : ℕ}
    (hhas : PlanHas obj max iov x) (hsize : obj.size ≤ x) (hend : maxEnd iov ≤ x) :
    planBytes obj max app iov bytes R old x = 0 := by
  have hno : ∀ v ∈ iov, ¬v.Has x := by
    intro v hv hvx
    have h1 := stop_le_maxEnd hv
    have h2 := hvx.2
    omega
  obtain ⟨q, hq, h1, h2⟩ := exists_page_of_planHas hpos hord hhas (not_has_of_not_mem hno)
  rw [planBytes_of_page hR hpos hord hq h1 h2 (not_has_of_not_mem hno)]
  split
  · exact hzero x hsize
  · rfl

end Bytes

/-! ### The plan as it is meant -/

/-- The plan of a write, as `mio_motr_obj_writev` makes it before it sends
anything. -/
def writePlan (conf : MioMotrConfig) (obj : MioObj) (iov : List (MioIovec ℕ)) :
    Except Fault MotrObjRwArgs := do
  let args ← motrObjRwArgsAlloc conf obj true iov
  let (rc, args) := motrObjIovecSort args
  if rc < 0 then .error (.err rc) else motrObjIovecAdjust conf obj args

/-- Read every read-before-write vector, run the copies, write every aligned
vector. -/
def execPlan (args : MotrObjRwArgs) (app bytes : ℕ → Byte) : ℕ → Byte :=
  writeVecs (motrObjDataCopy args (readVecs bytes args.rwaRbwIovs (Mem.init app)))
    args.rwaAlignedIovs bytes

variable {conf : MioMotrConfig}

/-- A write is submitted with its plan. -/
theorem mioMotrObjWritev_eq_writePlan (app : ℕ → Byte) :
    mioMotrObjWritev conf obj app iov = (do
      let args ← writePlan conf obj iov
      if args.rwaRbwIovs ≠ [] then
        let args ← motrObjReadBeforeWriteOptimise obj args
        launchRbw conf obj .read args (Mem.init app)
      else launchAligned conf obj .write .write args (motrObjDataCopy args (Mem.init app))) := by
  rw [mioMotrObjWritev, writePlan]
  cases motrObjRwArgsAlloc conf obj true iov with
  | error f => rfl
  | ok args =>
    change (if (motrObjIovecSort args).1 < 0 then _ else _) =
      (if (motrObjIovecSort args).1 < 0 then _ else _) >>= _
    split <;> rfl

section Plan

variable (hmax : motrObjMaxSizePerOp conf obj = .ok max) (hpos : 0 < max)

include hmax hpos

theorem writePlan_eq (hwrap : ∀ v ∈ iov, v.NoWrap)
    (hrc : (motrObjIovecSort (freshArgs true iov)).1 = 0) :
    writePlan conf obj iov = .ok (planArgs obj max true iov) := by
  rw [writePlan, motrObjRwArgsAlloc_eq hmax hpos]
  change (if (motrObjIovecSort (freshArgs true iov)).1 < 0 then _ else
    motrObjIovecAdjust conf obj (sortedArgs true iov)) = _
  rw [hrc, if_neg (by decide), motrObjIovecAdjust_sortedArgs hmax hpos true hwrap]

/-- Only ranges in order have a plan. -/
theorem eq_planArgs_of_writePlan (hwrap : ∀ v ∈ iov, v.NoWrap) {args : MotrObjRwArgs}
    (h : writePlan conf obj iov = .ok args) :
    args = planArgs obj max true iov ∧ InOrder (writeSorted iov) := by
  rcases motrObjIovecSort_rc (freshArgs true iov) with hrc | hrc
  · rw [writePlan_eq hmax hpos hwrap hrc] at h
    exact ⟨(Except.ok.inj h).symm, (motrObjIovecSort_inOrder hwrap hrc).1⟩
  · rw [writePlan, motrObjRwArgsAlloc_eq hmax hpos] at h
    change (if (motrObjIovecSort (freshArgs true iov)).1 < 0 then
      Except.error (Fault.err (motrObjIovecSort (freshArgs true iov)).1) else _) = _ at h
    rw [hrc, if_pos (by decide)] at h
    exact absurd h (by simp)

/-- **The plan of a write overwrites its ranges.** For all ranges that are not
empty, do not overlap and stay within 64 bits, all page sizes, all limits and all
bytes of an object that are zero from its size on: there is a plan, and executed
as it is meant it leaves the old bytes with the ranges replaced. -/
theorem execPlan_eq_writeRanges (hlen : ∀ v ∈ iov, 0 < v.miovLen)
    (hapart : iov.Pairwise MioIovec.Apart) (hwrap : ∀ v ∈ iov, v.NoWrap) (app : ℕ → Byte)
    (hzero : ∀ x, obj.size ≤ x → bytes x = 0) :
    ∃ args, writePlan conf obj iov = .ok args ∧
      execPlan args app bytes = writeRanges app iov bytes := by
  have hrc : (motrObjIovecSort (freshArgs true iov)).1 = 0 :=
    motrObjIovecSort_of_apart hwrap hlen hapart
  have hord : InOrder (writeSorted iov) := (motrObjIovecSort_inOrder hwrap hrc).1
  have hrbw := (writeInv_planArgs obj hpos hord).rbw
  have hR : ReadsPages obj max iov (planArgs obj max true iov).rwaRbwIovs := by
    intro r hr _
    rw [hrbw] at hr
    obtain ⟨q, hq, rfl⟩ := List.mem_map.mp hr
    exact ⟨q, (List.mem_filter.mp hq).1, rfl⟩
  refine ⟨_, writePlan_eq hmax hpos hwrap hrc, ?_⟩
  funext x
  change planBytes obj max app iov bytes (planArgs obj max true iov).rwaRbwIovs bytes x = _
  by_cases hhas : PlanHas obj max iov x
  · refine planBytes_eq_writeRanges hR hpos hord (fun q _ hq x hx => hzero x (hq.trans hx))
      (fun q hq hsize => .inl ?_) hhas
    rw [hrbw]
    exact List.mem_map_of_mem (List.mem_filter.mpr ⟨hq, by simpa using hsize⟩)
  · rw [planBytes_of_not_planHas hhas, writeRanges_of_not_mem]
    intro v hv hx
    obtain ⟨p, hp, hpx, -⟩ := exists_piece_of_has hv hx
    exact hhas (planHas_of_piece hpos hord hp hpx)

end Plan

/-- Two ranges that share a page of four bytes, over an object of five bytes. -/
theorem execPlan_sharedPage :
    ∃ args, writePlan ⟨3⟩ ((MioObj.zeroed ⟨2, some ⟨1, 0, 1⟩, by decide⟩).setSize 5)
        [⟨8, 3, 6⟩, ⟨0, 1, 1⟩] = .ok args ∧
      execPlan args (fun a => UInt8.ofNat (100 + a)) (fun x => if x < 5 then 7 else 0) =
        writeRanges (fun a => UInt8.ofNat (100 + a)) [⟨8, 3, 6⟩, ⟨0, 1, 1⟩]
          (fun x => if x < 5 then 7 else 0) := by
  have hmax : motrObjMaxSizePerOp ⟨3⟩
      ((MioObj.zeroed ⟨2, some ⟨1, 0, 1⟩, by decide⟩).setSize 5) = .ok 3 := by decide
  refine execPlan_eq_writeRanges hmax (by decide) (by decide) (by decide) (by decide) _
    fun x hx => if_neg ?_
  have hsize : ((MioObj.zeroed ⟨2, some ⟨1, 0, 1⟩, by decide⟩).setSize 5).size = 5 := by decide
  omega

end CortxMio
