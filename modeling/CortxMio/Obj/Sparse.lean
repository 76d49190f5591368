import CortxMio.Obj.Whole

/-!
# An object as a sparse byte array

Seen from outside, an object is a byte array that is zero where it has not been
written: a `writev` overwrites its ranges, a `readv` returns what is there. A
series of requests behaves like this (`CortxMio.BehavesAsSparse`) as long as the
pages that a write has to read first fit into one op
(`CortxMio.behavesAsSparse_of_rbwFits`). Which pages these are can be said of
the request and the size of the object alone (`CortxMio.rbwPages`): the pages
below the size that some range covers in part, without those that the ranges
together fill, unless an earlier such page has its first byte uncovered.

If they do not fit, the rest of them is written instead of read, and what was on
them is lost (`CortxMio.not_behavesAsSparse`).
-/

namespace CortxMio

open Lib

/-! ### The pages a write has to read -/

/-- A byte of the object that some range covers. -/
def CoversByte (iov : List (MioIovec ℕ)) (x : ℕ) : Prop := ∃ v ∈ iov, v.Has x

instance (iov : List (MioIovec ℕ)) (x : ℕ) : Decidable (CoversByte iov x) :=
  inferInstanceAs (Decidable (∃ v ∈ iov, v.Has x))

/-- The range has some byte of the page, but not all of them. -/
def MioIovec.CutsPage (ps q : ℕ) (v : MioIovec ℕ) : Prop :=
  0 < v.miovLen ∧ v.miovOff < q * ps + ps ∧ q * ps < v.stop ∧
    ¬(v.miovOff ≤ q * ps ∧ q * ps + ps ≤ v.stop)

instance (ps q : ℕ) (v : MioIovec ℕ) : Decidable (v.CutsPage ps q) :=
  inferInstanceAs (Decidable (_ ∧ _))

/-- A page that a write with a given size of the object has to read first. -/
def ReadFirst (ps size : ℕ) (iov : List (MioIovec ℕ)) (q : ℕ) : Prop :=
  q * ps < size ∧ (∃ v ∈ iov, v.CutsPage ps q) ∧
    ((∃ j < ps, ¬CoversByte iov (q * ps + j)) ∨
      ∃ q' < q, (∃ v ∈ iov, v.CutsPage ps q') ∧ ¬CoversByte iov (q' * ps))

instance (ps size : ℕ) (iov : List (MioIovec ℕ)) (q : ℕ) : Decidable (ReadFirst ps size iov q) :=
  inferInstanceAs (Decidable (_ ∧ _))

/-- The pages that a write has to read first. -/
def rbwPages (ps size : ℕ) (iov : List (MioIovec ℕ)) : List ℕ :=
  (List.range (size / ps + 1)).filter fun q => ReadFirst ps size iov q

theorem mem_rbwPages {ps size : ℕ} {iov : List (MioIovec ℕ)} {q : ℕ} :
    q ∈ rbwPages ps size iov ↔ ReadFirst ps size iov q := by
  rw [rbwPages, List.mem_filter, List.mem_range, decide_eq_true_iff]
  refine ⟨fun h => h.2, fun h => ⟨?_, h⟩⟩
  rcases Nat.eq_zero_or_pos ps with rfl | hps
  · obtain ⟨-, ⟨v, -, hpos, h1, h2, h3⟩, -⟩ := h
    simp only [Nat.mul_zero, Nat.add_zero] at h1
    omega
  · exact Nat.lt_succ_of_le ((Nat.le_div_iff_mul_le hps).mpr (Nat.le_of_lt h.1))

section Pages

variable {obj : MioObj} {iov : List (MioIovec ℕ)}

/-- Pages that ranges cut are the pages of parts. -/
theorem exists_part_iff_cutsPage {q : ℕ} :
    (∃ p ∈ parts (reqPieces obj true iov), p.off / motrObjIoPagesize obj = q) ↔
      ∃ v ∈ iov, v.CutsPage (motrObjIoPagesize obj) q := by
  have hps := motrObjIoPagesize_pos obj
  constructor
  · rintro ⟨p, hp, rfl⟩
    obtain ⟨hpr, hw⟩ := mem_parts.mp hp
    obtain ⟨v, hv, hpv⟩ := mem_reqPieces.mp hpr
    obtain ⟨hok, hof⟩ := of_mem_rangePieces hps hpv
    have h1 := hok.pos
    have h2 := hok.part hw
    have h3 := hof.off
    have h4 := hof.stop
    have h5 := hof.part hw
    have h6 := Nat.div_mul_le_self p.off (motrObjIoPagesize obj)
    simp only [Piece.stop, MioIovec.stop] at h2 h4 h5
    refine ⟨v, hv, by omega, by omega, ?_, ?_⟩
    · simp only [MioIovec.stop]
      omega
    · simp only [MioIovec.stop]
      omega
  · rintro ⟨v, hv, hpos, h1, h2, h3⟩
    -- a byte of the range on the page
    obtain ⟨x, hvx, hx1, hx2⟩ : ∃ x, v.Has x ∧ q * motrObjIoPagesize obj ≤ x ∧
        x < q * motrObjIoPagesize obj + motrObjIoPagesize obj := by
      simp only [MioIovec.stop] at h2
      refine ⟨Nat.max v.miovOff (q * motrObjIoPagesize obj), ⟨Nat.le_max_left _ _, ?_⟩,
        Nat.le_max_right _ _, Nat.max_lt.mpr ⟨h1, by omega⟩⟩
      exact Nat.max_lt.mpr ⟨by simp only [MioIovec.stop]; omega, h2⟩
    obtain ⟨p, hp, hpx⟩ := exists_mem_rangePieces (motrObjIoPagesize obj) hvx
    obtain ⟨hok, hof⟩ := of_mem_rangePieces hps hp
    have hpr : p ∈ reqPieces obj true iov := mem_reqPieces.mpr ⟨v, hv, hp⟩
    cases hw : p.whole with
    | true =>
      obtain ⟨h5, h6⟩ := hok.contains_page hw hpx hx1 hx2
      exact absurd ⟨hof.off.trans h5, h6.trans hof.stop⟩ h3
    | false => exact ⟨p, mem_parts.mpr ⟨hpr, hw⟩, hok.page_eq hw hpx hx1 hx2⟩

/-- On a page with a part in it, what ranges in order cover they cover by
parts. -/
theorem exists_part_of_coversByte (hord : InOrder (writeSorted iov)) {q : ℕ}
    (hq : ∃ p ∈ parts (reqPieces obj true iov), p.off / motrObjIoPagesize obj = q) {x : ℕ}
    (h1 : q * motrObjIoPagesize obj ≤ x)
    (h2 : x < q * motrObjIoPagesize obj + motrObjIoPagesize obj) (hx : CoversByte iov x) :
    ∃ p ∈ parts (reqPieces obj true iov), p.Has x := by
  have hps := motrObjIoPagesize_pos obj
  obtain ⟨v, hv, hvx⟩ := hx
  obtain ⟨p, hp, hpx, -⟩ := exists_piece_of_has hv hvx
  cases hw : p.whole with
  | false => exact ⟨p, mem_parts.mpr ⟨hp, hw⟩, hpx⟩
  | true =>
    -- whole pages would overlap the part
    exfalso
    obtain ⟨r, hr, hrq⟩ := hq
    obtain ⟨hr', hrw⟩ := mem_parts.mp hr
    have hne : p ≠ r := fun h => by rw [h, hrw] at hw; exact absurd hw (by simp)
    have hapart := Piece.apart_of_pairwise (reqPieces_pairwise hord) hp hr' hne
    have hrok := ok_of_mem_reqPieces hr'
    have hrpos := hrok.pos
    have hrpart := hrok.part hrw
    have hrle := Nat.div_mul_le_self r.off (motrObjIoPagesize obj)
    rw [hrq] at hrpart hrle
    obtain ⟨h3, h4⟩ := (ok_of_mem_reqPieces hp).contains_page hw hpx h1 h2
    simp only [Piece.stop] at hapart hrpart h4
    omega

/-- **What the scan leaves to be read is what has to be read.** -/
theorem readFirst_of_mem_rbwKeptNos {max : ℕ} (hpos : 0 < max) (hord : InOrder (writeSorted iov))
    {q : ℕ} (hq : q ∈ rbwKeptNos (motrObjIoPagesize obj) (parts (reqPieces obj true iov))
      ((writePages obj max iov).filter fun q => q * motrObjIoPagesize obj < obj.size)) :
    ReadFirst (motrObjIoPagesize obj) obj.size iov q := by
  have hps := motrObjIoPagesize_pos obj
  have hinv := writeInv_planArgs obj hpos hord
  have hparts := hinv.partsOk (fun _ h => ok_of_mem_reqPieces h) (reqPieces_pairwise hord)
  obtain ⟨hqs, hsize⟩ := List.mem_filter.mp ((rbwKeptNos_sublist _ _).subset hq)
  have hpart := (hinv.mem_qs q).mp hqs
  -- a page that the parts do not fill has an uncovered byte
  have hopen : ¬PageFilled (motrObjIoPagesize obj) (parts (reqPieces obj true iov)) q →
      ∃ j < motrObjIoPagesize obj, ¬CoversByte iov (q * motrObjIoPagesize obj + j) := by
    intro hf
    by_contra hcon
    refine hf fun j hj => ?_
    have hcov : CoversByte iov (q * motrObjIoPagesize obj + j) := by
      by_contra hno
      exact hcon ⟨j, hj, hno⟩
    exact exists_part_of_coversByte hord hpart (by omega) (by omega) hcov
  refine ⟨by simpa using hsize, exists_part_iff_cutsPage.mp hpart, ?_⟩
  rcases mem_rbwKeptNos (hinv.sorted.filter _) hq with hf | ⟨q', hq', hle, hs⟩
  · exact Or.inl (hopen hf)
  · have hpart' := (hinv.mem_qs q').mp (List.mem_filter.mp hq').1
    have hunc : ¬CoversByte iov (q' * motrObjIoPagesize obj) := by
      intro hcov
      obtain ⟨p, hp, hpx⟩ := exists_part_of_coversByte hord hpart' le_rfl (by omega) hcov
      exact hs (hparts.pageStarted hp hpx)
    rcases Nat.lt_or_eq_of_le hle with hlt | rfl
    · exact Or.inr ⟨q', hlt, exists_part_iff_cutsPage.mp hpart', hunc⟩
    · exact Or.inl ⟨0, hps, hunc⟩

/-- **If the pages to be read fit into an op, the first op reads them all.** -/
theorem rbw_length_le_cnt {max : ℕ} (hpos : 0 < max) (hlt : max < 2 ^ 64)
    (hord : InOrder (writeSorted iov))
    (hfit : (rbwPages (motrObjIoPagesize obj) obj.size iov).length * motrObjIoPagesize obj ≤ max)
    (app bytes : ℕ → Byte) :
    (writeCtx obj max app iov bytes).rbw.length ≤ (writeCtx obj max app iov bytes).cnt := by
  refine Nat.le_of_eq (rwBatchCnt_eq_length hlt ?_).symm
  rw [Nat.zero_add]
  refine le_trans ?_ hfit
  rw [writeCtx_rbw, sum_rbwKept]
  refine Nat.mul_le_mul_right _ (List.Subperm.length_le ?_)
  refine List.subperm_of_subset ?_ fun q hq => mem_rbwPages.mpr
    (readFirst_of_mem_rbwKeptNos hpos hord hq)
  have hsorted := ((writeInv_planArgs obj hpos hord).sorted.filter
    fun q => decide (q * motrObjIoPagesize obj < obj.size)).sublist
      (rbwKeptNos_sublist (motrObjIoPagesize obj) (Q := parts (reqPieces obj true iov)) _)
  exact hsorted.imp fun h => Nat.ne_of_lt h

end Pages

/-! ### Requests -/

/-- A call of `mio_obj_writev` or `mio_obj_readv`, with the time at which it is
made and the memory of the application. -/
inductive Request
  /-- `mio_obj_writev`. -/
  | writev (now : UInt64) (app : ℕ → Byte) (iov : List (MioIovec ℕ))
  /-- `mio_obj_readv`. -/
  | readv (now : UInt64) (app : ℕ → Byte) (iov : List (MioIovec ℕ))

/-- Ranges that are not empty, do not wrap and do not overlap. -/
structure RangesOk (iov : List (MioIovec ℕ)) : Prop where
  /-- They are not empty. -/
  pos : ∀ v ∈ iov, 0 < v.miovLen
  /-- They do not wrap. -/
  noWrap : ∀ v ∈ iov, v.NoWrap
  /-- They do not overlap. -/
  apart : iov.Pairwise MioIovec.Apart

/-- A request with proper ranges; two ranges of a read are not read into the same
memory. -/
def Request.Ok : Request → Prop
  | .writev _ _ iov => RangesOk iov
  | .readv _ _ iov => RangesOk iov ∧ iov.Pairwise MioIovec.BufApart

/-- **The object behaves as a sparse byte array** under a series of requests: each
request with a range completes, a write overwrites its ranges and changes no
other byte, a read returns the bytes that are there and changes none. -/
def BehavesAsSparse (conf : MioMotrConfig) : World → List Request → Prop
  | _, [] => True
  | w, .writev now app iov :: reqs =>
      (iov ≠ [] → (mioObjWritev conf w now app iov).1 = none) ∧
      (∀ x, (mioObjWritev conf w now app iov).2.cluster.bytes x =
        writeRanges app iov w.cluster.bytes x) ∧
      BehavesAsSparse conf (mioObjWritev conf w now app iov).2 reqs
  | w, .readv now app iov :: reqs =>
      (iov ≠ [] → (mioObjReadv conf w now app iov).1 = none) ∧
      (∀ v ∈ iov, ∀ i < v.miovLen, (mioObjReadv conf w now app iov).2.2 (.app (v.miovBase + i)) =
        w.cluster.bytes (v.miovOff + i)) ∧
      (∀ x, (mioObjReadv conf w now app iov).2.1.cluster.bytes x = w.cluster.bytes x) ∧
      BehavesAsSparse conf (mioObjReadv conf w now app iov).2.1 reqs

/-- **The pages that each write has to read first fit into one op.** The size of
the object grows to the end of each write. -/
def RbwFits (ps limit : ℕ) : ℕ → List Request → Prop
  | _, [] => True
  | size, .writev _ _ iov :: reqs =>
      (rbwPages ps size iov).length * ps ≤ limit ∧ RbwFits ps limit (max size (maxEnd iov)) reqs
  | size, .readv _ _ _ :: reqs => RbwFits ps limit size reqs

instance (ps limit : ℕ) :
    (size : ℕ) → (reqs : List Request) → Decidable (RbwFits ps limit size reqs)
  | _, [] => isTrue trivial
  | size, .writev _ _ iov :: reqs =>
      have := instDecidableRbwFits ps limit (max size (maxEnd iov)) reqs
      inferInstanceAs (Decidable (_ ∧ _))
  | size, .readv _ _ _ :: reqs => instDecidableRbwFits ps limit size reqs

section Requests

variable {conf : MioMotrConfig} {limit : ℕ} {w : World} {now : UInt64} {app : ℕ → Byte}
  {iov : List (MioIovec ℕ)}

/-- Proper ranges pass the sort. -/
theorem RangesOk.sort (h : RangesOk iov) : (motrObjIovecSort (freshArgs true iov)).1 = 0 :=
  motrObjIovecSort_of_apart h.noWrap h.pos h.apart

/-- A write of no ranges is turned down. -/
theorem mioObjWritev_nil (now : UInt64) (app : ℕ → Byte)
    (hmax : motrObjMaxSizePerOp conf w.obj = .ok limit) (hpos : 0 < limit) :
    (mioObjWritev conf w now app []).2 = ⟨w.cluster, objStatsUpdate w.obj true now []⟩ := by
  have hsub : mioMotrObjWritev conf (objStatsUpdate w.obj true now []) app [] =
      .error (.err (-E2BIG)) := by
    have hmax' : motrObjMaxSizePerOp conf (objStatsUpdate w.obj true now []) = .ok limit := hmax
    rw [mioMotrObjWritev_eq hmax' hpos (fun v hv => absurd hv List.not_mem_nil) rfl]
    exact (if_neg fun h => h rfl).trans (launchAligned_error hmax' rfl)
  rw [mioObjWritev, hsub]
  rfl

/-- A write of proper ranges is submitted. -/
theorem exists_mioMotrObjWritev {obj : MioObj} (app : ℕ → Byte)
    (hmax : motrObjMaxSizePerOp conf obj = .ok limit) (hpage : motrObjIoPagesize obj ≤ limit)
    (h : RangesOk iov) (hne : iov ≠ []) :
    ∃ op, mioMotrObjWritev conf obj app iov = .ok op := by
  have hpos : 0 < limit := lt_of_lt_of_le (motrObjIoPagesize_pos obj) hpage
  obtain ⟨v, hv⟩ := List.exists_mem_of_ne_nil iov hne
  exact exists_mioMotrObjWritev_of_fit app hmax hpos h.noWrap h.sort
    (planArgs_aligned_ne_nil obj hpos true hv (h.pos v hv))
    fun v hv => miovLen_le_of_mem_planArgs hpage hv

/-- **A write of proper ranges overwrites them**, if the pages to be read first fit
into an op. -/
theorem mioObjWritev_spec (now : UInt64) (app : ℕ → Byte)
    (hmax : motrObjMaxSizePerOp conf w.obj = .ok limit)
    (hpage : motrObjIoPagesize w.obj ≤ limit) (hzero : ZeroFrom w.obj.size w.cluster.bytes)
    (h : RangesOk iov) (hne : iov ≠ [])
    (hfit : (rbwPages (motrObjIoPagesize w.obj) w.obj.size iov).length *
      motrObjIoPagesize w.obj ≤ limit) :
    ∃ w', mioObjWritev conf w now app iov = (none, w') ∧
      (∀ x, w'.cluster.bytes x = writeRanges app iov w.cluster.bytes x) ∧
      WritevDone w w' now iov := by
  have hpos : 0 < limit := lt_of_lt_of_le (motrObjIoPagesize_pos w.obj) hpage
  obtain ⟨obj, hobj⟩ : ∃ obj, obj = objStatsUpdate w.obj true now iov := ⟨_, rfl⟩
  have hdrv : obj.moDrvObj = w.obj.moDrvObj := by rw [hobj]; rfl
  have hmax' : motrObjMaxSizePerOp conf obj = .ok limit := by
    rw [motrObjMaxSizePerOp_congr conf hdrv, hmax]
  have hps : motrObjIoPagesize obj = motrObjIoPagesize w.obj := motrObjIoPagesize_congr hdrv
  have hsize : obj.size = w.obj.size := by rw [hobj]; rfl
  rw [← hps] at hpage
  rw [← hps, ← hsize] at hfit
  obtain ⟨op, hsub⟩ := exists_mioMotrObjWritev app hmax' hpage h hne
  obtain ⟨max, hmax'', -, hord, heow, hrun⟩ := runChain_writev h.noWrap hsub w.cluster
  obtain rfl : max = limit := by
    rw [hmax'] at hmax''
    exact (Except.ok.inj hmax'').symm
  rcases hrun with ⟨s, hrun, hdone, -⟩ | ⟨s, hrun, ⟨v, hv, hlarge⟩, -⟩
  · have hres : mioObjWritev conf w now app iov = (none, ⟨s.cluster, s.obj⟩) := by
      simp only [mioObjWritev, runSubmitted, ← hobj, hsub, hrun]
    refine ⟨_, hres, fun x => ?_, mioObjWritev_none h.noWrap hres⟩
    by_cases hown : (writeCtx obj max app iov w.cluster.bytes).Own x
    · simp only [hdone.own x hown]
      refine bytesEnd_eq_writeRanges hpos hord (fun q _ hq y hy => hzero y ?_) ?_ hown
      · rw [← hsize]
        exact hq.trans hy
      · exact rbw_length_le_cnt hpos (motrObjMaxSizePerOp_lt hmax') hord hfit app _
    · simp only [hdone.other x hown]
      refine (writeRanges_of_not_mem fun v hv hvx => hown ?_).symm
      obtain ⟨p, hp, hpx, -⟩ := exists_piece_of_has hv hvx
      exact own_of_piece hpos hord hp hpx
  · exact absurd (miovLen_le_of_mem_planArgs hpage hv) (Nat.not_le.mpr hlarge)

/-- **A read of proper ranges returns them.** -/
theorem mioObjReadv_spec (now : UInt64) (app : ℕ → Byte)
    (hmax : motrObjMaxSizePerOp conf w.obj = .ok limit)
    (hpage : motrObjIoPagesize w.obj ≤ limit) (h : RangesOk iov)
    (hbuf : iov.Pairwise MioIovec.BufApart) (hne : iov ≠ []) :
    (mioObjReadv conf w now app iov).1 = none ∧
      ∀ v ∈ iov, ∀ i < v.miovLen, (mioObjReadv conf w now app iov).2.2 (.app (v.miovBase + i)) =
        w.cluster.bytes (v.miovOff + i) := by
  obtain ⟨v, hv⟩ := List.exists_mem_of_ne_nil iov hne
  obtain ⟨op, s, hsub, hrun, -, -, hbytes, -⟩ := readv_completes
    (objStatsUpdate w.obj false now iov) hmax hpage w.cluster app ⟨v, hv, h.pos v hv⟩
    h.noWrap hbuf
  simp only [mioObjReadv, runSubmitted, hsub, hrun]
  exact ⟨trivial, hbytes⟩

end Requests

/-- **The object is a sparse byte array as long as what has to be read fits into
one op.** For every series of requests with proper ranges, on a handle whose size
is right and with room for at least one page in an op. -/
theorem behavesAsSparse_of_rbwFits {conf : MioMotrConfig} {limit : ℕ} {reqs : List Request}
    {w : World} (hmax : motrObjMaxSizePerOp conf w.obj = .ok limit)
    (hpage : motrObjIoPagesize w.obj ≤ limit) (hzero : ZeroFrom w.obj.size w.cluster.bytes)
    (hok : ∀ r ∈ reqs, r.Ok) (hfit : RbwFits (motrObjIoPagesize w.obj) limit w.obj.size reqs) :
    BehavesAsSparse conf w reqs := by
  have hpos : 0 < limit := lt_of_lt_of_le (motrObjIoPagesize_pos w.obj) hpage
  -- the handle keeps its geometry, and its size stays right
  induction reqs generalizing w with
  | nil => trivial
  | cons r reqs ih =>
    have hokr := hok r List.mem_cons_self
    have hokrest : ∀ r ∈ reqs, r.Ok := fun r hr => hok r (List.mem_cons_of_mem _ hr)
    cases r with
    | writev now app iov =>
      obtain ⟨hfit, hrest⟩ := hfit
      by_cases hne : iov = []
      · subst hne
        have hnil := mioObjWritev_nil now app hmax hpos
        refine ⟨fun h => absurd rfl h, fun x => ?_, ?_⟩
        · rw [hnil]
          rfl
        · rw [hnil]
          refine ih hmax hpage hzero hokrest ?_
          rwa [show max w.obj.size (maxEnd ([] : List (MioIovec ℕ))) = w.obj.size from
            Nat.max_eq_left (Nat.zero_le _)] at hrest
      · obtain ⟨w', hres, hbytes, hdone⟩ := mioObjWritev_spec now app hmax hpage
          hzero hokr hne hfit
        have hps := motrObjIoPagesize_congr hdone.moDrvObj
        refine ⟨fun _ => by rw [hres], fun x => by rw [hres]; exact hbytes x, ?_⟩
        rw [hres]
        refine ih ?_ ?_ (hdone.zero hzero) hokrest ?_
        · rw [motrObjMaxSizePerOp_congr conf hdone.moDrvObj, hmax]
        · rwa [hps]
        · rwa [hps, hdone.size hokr.noWrap]
    | readv now app iov =>
      have hframe := mioObjReadv_frame conf w now app iov
      have hspec : iov ≠ [] → _ := mioObjReadv_spec now app hmax hpage hokr.1
        hokr.2
      refine ⟨fun hne => (hspec hne).1, fun v hv => ?_, fun x => by rw [hframe], ?_⟩
      · exact (hspec (List.ne_nil_of_mem hv)).2 v hv
      · rw [hframe]
        exact ih hmax hpage hzero hokrest hfit

/-- A fresh object with pages of two bytes. -/
def freshWorld : World := ⟨⟨fun _ => 0, none⟩, .zeroed .twoBytePages⟩

/-- Four bytes are written, then the second and the last of them again. -/
def rewriteRequests : List Request :=
  [.writev 1 (fun _ => 7) [⟨0, 0, 4⟩], .writev 2 (fun _ => 9) [⟨0, 3, 1⟩, ⟨0, 1, 1⟩],
    .readv 3 (fun _ => 0) [⟨0, 0, 4⟩]]

theorem ok_rewriteRequests : ∀ r ∈ rewriteRequests, r.Ok := by
  intro r hr
  simp only [rewriteRequests, List.mem_cons, List.not_mem_nil, or_false] at hr
  rcases hr with rfl | rfl | rfl
  · exact ⟨by decide, by decide, by decide⟩
  · exact ⟨by decide, by decide, by decide⟩
  · exact ⟨⟨by decide, by decide, by decide⟩, by decide⟩

/-- With room for two pages in an op, the requests find the object a byte
array. -/
theorem behavesAsSparse_rewriteRequests : BehavesAsSparse ⟨4⟩ freshWorld rewriteRequests :=
  @behavesAsSparse_of_rbwFits _ 4 _ _ (by decide) (by decide) (fun _ _ => rfl)
    ok_rewriteRequests (by decide)

/-- **With room for one page in an op, they do not**: the second page to be read
before the second write is overwritten with zeros. -/
theorem not_behavesAsSparse :
    motrObjMaxSizePerOp ⟨2⟩ freshWorld.obj = .ok 2 ∧ motrObjIoPagesize freshWorld.obj ≤ 2 ∧
      ZeroFrom freshWorld.obj.size freshWorld.cluster.bytes ∧ (∀ r ∈ rewriteRequests, r.Ok) ∧
      ¬BehavesAsSparse ⟨2⟩ freshWorld rewriteRequests := by
  refine ⟨by decide, by decide, fun _ _ => rfl, ok_rewriteRequests, fun h => ?_⟩
  have hbyte := h.2.2.2.1 2
  exact absurd hbyte (by decide +kernel)

end CortxMio
