import CortxMio.Obj.Batch

/-!
# Reads

A `readv` transfers its aligned vectors batch by batch, some of them straight
into the application's buffers and some into extra pages, and copies the parts
of pages out at the end. The result is stated for every memory address
(`CortxMio.readv_completes`): each buffer holds the bytes of its range, and no
other byte of application memory has changed. The ranges may overlap and come in
any order; only the buffers have to be apart.

The proof compares memory with a *target* (`CortxMio.readTarget`), which says
for each address an aligned vector or a buffer covers what it has to hold in the
end. All transfers and all copies agree with the target, so their order does not
matter.
-/

namespace CortxMio

open Lib

/-! ### The memory after a read -/

/-- Two vectors whose memory areas do not overlap. -/
def MioIovec.BufApart (v w : MioIovec ℕ) : Prop :=
  v.miovBase + v.miovLen ≤ w.miovBase ∨ w.miovBase + w.miovLen ≤ v.miovBase

instance (v w : MioIovec ℕ) : Decidable (v.BufApart w) := inferInstanceAs (Decidable (_ ∨ _))

instance : Std.Symm MioIovec.BufApart := ⟨fun _ _ => Or.symm⟩

/-- An address in the memory area of a vector. -/
def MioIovec.BufHas (v : MioIovec ℕ) (a : ℕ) : Prop :=
  v.miovBase ≤ a ∧ a < v.miovBase + v.miovLen

/-- Vectors with memory areas apart are told apart by any address. -/
theorem eq_of_bufHas {iov : List (MioIovec ℕ)} (h : iov.Pairwise MioIovec.BufApart)
    {v w : MioIovec ℕ} (hv : v ∈ iov) (hw : w ∈ iov) {a : ℕ} (hva : v.BufHas a)
    (hwa : w.BufHas a) : v = w := by
  by_contra hne
  have hvw : v.BufApart w := h.forall hv hw hne
  rcases hvw with hvw | hvw
  · exact absurd hva.2 (by have := hwa.1; omega)
  · exact absurd hwa.2 (by have := hva.1; omega)

open Classical in
/-- What memory has to hold after a read of `iov`, given the aligned vectors. -/
noncomputable def readTarget (bytes app : ℕ → Byte) (iov : List (MioIovec ℕ))
    (A : List (MioIovec Ptr)) : Mem
  | .app a => if h : ∃ v ∈ iov, v.BufHas a
      then bytes (h.choose.miovOff + (a - h.choose.miovBase)) else app a
  | .page k j => if h : ∃ v ∈ A, v.miovBase = .page k 0
      then bytes (h.choose.miovOff + j) else 0

section Target

variable {obj : MioObj} {max : ℕ} {bytes app : ℕ → Byte} {iov : List (MioIovec ℕ)}
  {args : MotrObjRwArgs}

/-- The target in a buffer. -/
theorem readTarget_buf (bytes app : ℕ → Byte) (hbuf : iov.Pairwise MioIovec.BufApart)
    (A : List (MioIovec Ptr))
    {v : MioIovec ℕ} (hv : v ∈ iov) {i : ℕ} (hi : i < v.miovLen) :
    readTarget bytes app iov A (.app (v.miovBase + i)) = bytes (v.miovOff + i) := by
  have hhas : v.BufHas (v.miovBase + i) := ⟨Nat.le_add_right _ _, Nat.add_lt_add_left hi _⟩
  have hex : ∃ v ∈ iov, v.BufHas (v.miovBase + i) := ⟨v, hv, hhas⟩
  have hex' : ∃ w ∈ iov, w.BufHas (v.miovBase + i) := ⟨v, hv, hhas⟩
  obtain ⟨hmem, hch⟩ := hex'.choose_spec
  have heq : hex'.choose = v := eq_of_bufHas hbuf hmem hv hch hhas
  rw [readTarget, dif_pos hex', heq, Nat.add_sub_cancel_left]

theorem readTarget_of_not_buf {A : List (MioIovec Ptr)} {a : ℕ} (h : ∀ v ∈ iov, ¬v.BufHas a) :
    readTarget bytes app iov A (.app a) = app a := by
  rw [readTarget, dif_neg (by simpa using h)]

/-- The target in the memory of a piece. -/
theorem readTarget_piece (bytes app : ℕ → Byte) (hbuf : iov.Pairwise MioIovec.BufApart)
    (A : List (MioIovec Ptr))
    {p : Piece} (hp : p ∈ reqPieces obj false iov) {i : ℕ} (hi : i < p.len) :
    readTarget bytes app iov A (.app (p.base + i)) = bytes (p.off + i) := by
  obtain ⟨v, hv, hpv⟩ := mem_reqPieces.mp hp
  have hof := (of_mem_rangePieces (motrObjIoPagesize_pos obj) hpv).2
  have h1 := hof.off
  have h2 : p.off + p.len ≤ v.miovOff + v.miovLen := hof.stop
  have h := readTarget_buf bytes app hbuf A hv
    (i := p.off - v.miovOff + i) (by omega)
  rwa [← Nat.add_assoc, ← hof.base, show v.miovOff + (p.off - v.miovOff + i) = p.off + i by omega]
    at h

/-- The target in the memory of an aligned vector. -/
theorem readTarget_vec (hbuf : iov.Pairwise MioIovec.BufApart)
    (hinv : PlanInv obj max (reqPieces obj false iov) args) {v : MioIovec Ptr}
    (hv : v ∈ args.rwaAlignedIovs) {i : ℕ} (hi : i < v.miovLen) :
    readTarget bytes app iov args.rwaAlignedIovs (v.miovBase.add i) = bytes (v.miovOff + i) := by
  rcases hinv.vec v hv with ⟨p, hp, -, hdir, -⟩ | ⟨p, -, -, k, -, hvk⟩
  · have h1 := hdir.off
    have h2 : v.miovOff + v.miovLen ≤ p.off + p.len := hdir.stop
    have h := readTarget_piece bytes app hbuf args.rwaAlignedIovs hp
      (i := v.miovOff - p.off + i) (by omega)
    rw [hdir.base, Ptr.add, Nat.add_assoc, h]
    congr 1
    omega
  · have hbase : v.miovBase = .page k 0 := by rw [hvk]
    have hex : ∃ w ∈ args.rwaAlignedIovs, w.miovBase = .page k 0 := ⟨v, hv, hbase⟩
    obtain ⟨hmem, hch⟩ := hex.choose_spec
    have heq : hex.choose = v := hinv.page_inj _ hmem v hv k hch hbase
    rw [hbase, Ptr.add, Nat.zero_add, readTarget, dif_pos hex, heq]

/-- **After the transfers and the copies, memory is as the target says**: in the
buffers the bytes of the ranges, elsewhere what was there. -/
theorem readMem_spec (bytes app : ℕ → Byte) (hbuf : iov.Pairwise MioIovec.BufApart)
    (hw : args.rwaIsWrite = false)
    (hinv : PlanInv obj max (reqPieces obj false iov) args) (a : ℕ) :
    motrObjDataCopy args (readVecs bytes args.rwaAlignedIovs (Mem.init app)) (.app a) =
      readTarget bytes app iov args.rwaAlignedIovs (.app a) := by
  obtain ⟨T, hT⟩ : ∃ T, T = readTarget bytes app iov args.rwaAlignedIovs := ⟨_, rfl⟩
  have hvec : ∀ v ∈ args.rwaAlignedIovs, ∀ i < v.miovLen,
      bytes (v.miovOff + i) = T (v.miovBase.add i) := by
    intro v hv i hi
    rw [hT, readTarget_vec hbuf hinv hv hi]
  -- what a vector covers holds its target after the transfers
  have hread : ∀ v ∈ args.rwaAlignedIovs, ∀ i < v.miovLen,
      readVecs bytes args.rwaAlignedIovs (Mem.init app) (v.miovBase.add i) =
        T (v.miovBase.add i) := by
    intro v hv i hi
    refine readVecs_of_mem ?_ ⟨v, hv, i, hi, rfl⟩
    intro w hw j hj hwj
    rw [hwj]
    exact hvec w hw j hj
  -- the copies agree with the target
  have hcopy : ∀ c ∈ args.rwaDcIovs.map dcCopy, ∀ i, i < c.len →
      readVecs bytes args.rwaAlignedIovs (Mem.init app) (Addr.shift c.src i) =
        T (Addr.shift c.src i) ∧ T (Addr.shift c.src i) = T (Addr.shift c.dst i) := by
    intro c hc i hi
    obtain ⟨d, hd, rfl⟩ := List.mem_map.mp hc
    obtain ⟨p, hp, hpw, v, hv, ⟨hoff, hlen⟩, rfl⟩ := hinv.dc d hd
    have hok := ok_of_mem_reqPieces hp
    have hpart := hok.part hpw
    have hdm := Nat.div_add_mod' p.off (motrObjIoPagesize obj)
    rw [hw] at hi ⊢
    have hi' : i < p.len := hi
    have hsrc : Addr.shift (dcCopy (partCopy obj false p v)).src i =
        v.miovBase.add (p.off % motrObjIoPagesize obj + i) := by
      change (v.miovBase.add (p.off % motrObjIoPagesize obj)).add i = _
      cases v.miovBase <;> simp [Ptr.add, Nat.add_assoc]
    have hdst : Addr.shift (dcCopy (partCopy obj false p v)).dst i = .app (p.base + i) := by
      change ((Ptr.app p.base).add 0).add i = _
      simp [Ptr.add]
    have hlt : p.off % motrObjIoPagesize obj + i < v.miovLen := by
      simp only [Piece.stop] at hpart
      omega
    rw [hsrc, hdst, hread v hv _ hlt]
    refine ⟨rfl, ?_⟩
    rw [← hvec v hv _ hlt, hT, readTarget_piece bytes app hbuf _ hp hi', hoff, Piece.pageOff]
    congr 1
    omega
  by_cases hc : CopyCovered (args.rwaDcIovs.map dcCopy) (.app a)
  · rw [motrObjDataCopy, copyAll_of_covered hcopy hc, hT]
  · rw [motrObjDataCopy, copyAll_of_not_covered hc]
    by_cases hex : ∃ v ∈ args.rwaAlignedIovs, InRun v.miovBase v.miovLen (.app a)
    · obtain ⟨v, hv, i, hi, ha⟩ := hex
      rw [ha, ← hT]
      exact hread v hv i hi
    · -- an address that nothing has touched is in no buffer
      rw [readVecs_of_not_mem (by simpa using hex), readTarget_of_not_buf]
      · rfl
      · intro w hw' hwa
        have hwx : w.Has (w.miovOff + (a - w.miovBase)) := by
          refine ⟨Nat.le_add_right _ _, ?_⟩
          have := hwa.1
          have := hwa.2
          simp only [MioIovec.stop]
          omega
        obtain ⟨p, hp, hpx⟩ := exists_mem_rangePieces (motrObjIoPagesize obj) hwx
        have hof := (of_mem_rangePieces (motrObjIoPagesize_pos obj) hp).2
        have hpm : p ∈ reqPieces obj false iov := mem_reqPieces.mpr ⟨w, hw', hp⟩
        have h1 := hof.off
        have h2 := hof.base
        have h3 := hwa.1
        obtain ⟨h4, h5⟩ := hpx
        simp only [Piece.stop] at h5
        cases hpw : p.whole with
        | true =>
          obtain ⟨v, hv, hdir, hvx⟩ := hinv.whole p hpm hpw _ ⟨h4, h5⟩
          have h6 := hdir.off
          obtain ⟨h7, h8⟩ := hvx
          simp only [MioIovec.stop] at h8
          refine hex ⟨v, hv, w.miovOff + (a - w.miovBase) - v.miovOff, by omega, ?_⟩
          rw [hdir.base, shift_app]
          congr 1
          omega
        | false =>
          obtain ⟨v, -, -, hd⟩ := hinv.part p hpm hpw
          refine hc ⟨_, List.mem_map_of_mem hd, w.miovOff + (a - w.miovBase) - p.off, ?_, ?_⟩
          · rw [hw]
            change _ < p.len
            omega
          · rw [hw]
            change Ptr.app a = ((Ptr.app p.base).add 0).add _
            simp only [Ptr.add, Ptr.app.injEq]
            omega

end Target

/-! ### The chain of a read -/

section Chain

variable {conf : MioMotrConfig} {obj : MioObj} {max : ℕ}

/-- The read on its way: `j` vectors are there, the next `n` are under way. -/
def readOpAt (bytes : ℕ → Byte) (args : MotrObjRwArgs) (mem : Mem) (j n : ℕ) : RwOp where
  args := { args with rwaAlignedProgress := j + n }
  mem := readVecs bytes (args.rwaAlignedIovs.take j) mem
  head := ⟨.obj .read ((args.rwaAlignedIovs.drop j).take n), .read⟩

/-- The next batch of a read. -/
theorem launchAligned_read (hmax : motrObjMaxSizePerOp conf obj = .ok max)
    {bytes : ℕ → Byte} {args : MotrObjRwArgs} {mem : Mem} {j : ℕ}
    (hfit : ∀ v ∈ args.rwaAlignedIovs, v.miovLen ≤ max) (hj : j < args.rwaAlignedIovs.length) :
    ∃ n, 0 < n ∧ j + n ≤ args.rwaAlignedIovs.length ∧
      launchAligned conf obj .read .read { args with rwaAlignedProgress := j }
        (readVecs bytes (args.rwaAlignedIovs.take j) mem) = .ok (readOpAt bytes args mem j n) := by
  have hne : args.rwaAlignedIovs.drop j ≠ [] := by
    rw [Ne, List.drop_eq_nil_iff]
    omega
  have hpos := rwBatchCnt_pos (motrObjMaxSizePerOp_lt hmax) hne
    fun v hv => hfit v (List.mem_of_mem_drop hv)
  have hle := rwBatchCnt_le_length max 0 (args.rwaAlignedIovs.drop j)
  rw [List.length_drop] at hle
  refine ⟨rwBatchCnt max 0 (args.rwaAlignedIovs.drop j), hpos, by omega, ?_⟩
  exact launchAligned_eq hmax rfl hpos

/-- A turn of the chain transfers the batch under way. -/
theorem exec_readOpAt (cl : Cluster) (args : MotrObjRwArgs) (mem : Mem) (j n : ℕ) :
    (readOpAt cl.bytes args mem j n).head.mdoOp.exec cl (readOpAt cl.bytes args mem j n).mem =
      (cl, readVecs cl.bytes (args.rwaAlignedIovs.take (j + n)) mem) := by
  rw [← readVecs_take_add]
  rfl

/-- The turn that ends a read. -/
theorem chainStep_read_final {cl : Cluster} {args : MotrObjRwArgs} {mem : Mem} {j n : ℕ}
    (h : args.rwaAlignedIovs.length = j + n) :
    ∃ op, chainStep conf ⟨cl, obj, readOpAt cl.bytes args mem j n⟩ = .inr (none, ⟨cl, obj, op⟩) ∧
      op.mem = motrObjDataCopy args (readVecs cl.bytes args.rwaAlignedIovs mem) := by
  have hexec := exec_readOpAt cl args mem j n
  rw [← h, List.take_length] at hexec
  exact ⟨_, chainStep_final hexec (if_pos h), rfl⟩

/-- Any other turn of a read. -/
theorem chainStep_read_next (hmax : motrObjMaxSizePerOp conf obj = .ok max) {cl : Cluster}
    {args : MotrObjRwArgs} {mem : Mem} {j n : ℕ}
    (hfit : ∀ v ∈ args.rwaAlignedIovs, v.miovLen ≤ max) (h : j + n < args.rwaAlignedIovs.length) :
    ∃ n', 0 < n' ∧ j + n + n' ≤ args.rwaAlignedIovs.length ∧
      chainStep conf ⟨cl, obj, readOpAt cl.bytes args mem j n⟩ =
        .inl ⟨cl, obj, readOpAt cl.bytes args mem (j + n) n'⟩ := by
  obtain ⟨n', hn', hle, hlaunch⟩ := launchAligned_read hmax hfit h
  refine ⟨n', hn', hle, chainStep_next (exec_readOpAt cl args mem j n) ?_⟩
  refine (if_neg (Nat.ne_of_gt h)).trans ?_
  exact congrArg (fun r => r >>= fun op => Except.ok (DrvOpRc.next, obj, op)) hlaunch

/-- **The chain of a read runs to its end**, and leaves in memory what reading
all vectors and copying the parts gives. -/
theorem runChain_read (hmax : motrObjMaxSizePerOp conf obj = .ok max) {cl : Cluster}
    {args : MotrObjRwArgs} {mem : Mem} {n : ℕ}
    (hfit : ∀ v ∈ args.rwaAlignedIovs, v.miovLen ≤ max) (hn : n ≤ args.rwaAlignedIovs.length) :
    ∃ s, runChain conf ⟨cl, obj, readOpAt cl.bytes args mem 0 n⟩ = some (none, s) ∧
      s.cluster = cl ∧ s.obj = obj ∧
      s.op.mem = motrObjDataCopy args (readVecs cl.bytes args.rwaAlignedIovs mem) := by
  -- the invariant is the shape of the op; what is left to be read goes down
  have hspec := loopN_spec (chainStep conf)
    (fun s => ∃ j n, j + n ≤ args.rwaAlignedIovs.length ∧
      s = ⟨cl, obj, readOpAt cl.bytes args mem j n⟩)
    (fun s => args.rwaAlignedIovs.length - s.op.args.rwaAlignedProgress)
    (fun r => r.1 = none ∧ r.2.cluster = cl ∧ r.2.obj = obj ∧
      r.2.op.mem = motrObjDataCopy args (readVecs cl.bytes args.rwaAlignedIovs mem))
    (by
      rintro s s' ⟨j, n, hjn, rfl⟩ hstep
      rcases Nat.lt_or_eq_of_le hjn with hlt | hend
      · obtain ⟨n', hn', hle, hnext⟩ := chainStep_read_next hmax hfit hlt
        obtain rfl := Sum.inl.inj (hnext.symm.trans hstep)
        refine ⟨⟨j + n, n', hle, rfl⟩, ?_⟩
        simp only [readOpAt]
        omega
      · obtain ⟨op, hfinal, -⟩ := chainStep_read_final
          hend.symm
        exact absurd (hfinal.symm.trans hstep) (by simp))
    (by
      rintro s r ⟨j, n, hjn, rfl⟩ hstep
      rcases Nat.lt_or_eq_of_le hjn with hlt | hend
      · obtain ⟨n', -, -, hnext⟩ := chainStep_read_next hmax hfit hlt
        exact absurd (hnext.symm.trans hstep) (by simp)
      · obtain ⟨op, hfinal, hmem⟩ := chainStep_read_final
          hend.symm
        obtain rfl := Sum.inr.inj (hfinal.symm.trans hstep)
        exact ⟨rfl, rfl, rfl, hmem⟩)
  obtain ⟨⟨rc, s⟩, hrun, hrc, hs⟩ := hspec (chainBound args)
    ⟨cl, obj, readOpAt cl.bytes args mem 0 n⟩ ⟨0, n, by omega, rfl⟩
    (by simp only [chainBound]; omega)
  refine ⟨s, ?_, hs⟩
  obtain rfl : rc = none := hrc
  exact hrun

/-- What the submission of a read comes to. -/
theorem mioMotrObjReadv_eq (hmax : motrObjMaxSizePerOp conf obj = .ok max) (hpos : 0 < max)
    (app : ℕ → Byte) {iov : List (MioIovec ℕ)} (hwrap : ∀ v ∈ iov, v.NoWrap) :
    mioMotrObjReadv conf obj app iov =
      launchAligned conf obj .read .read (planArgs obj max false iov) (Mem.init app) := by
  have hadjust := motrObjIovecAdjust_sortedArgs hmax hpos false hwrap
  rw [mioMotrObjReadv, motrObjRwArgsAlloc_eq hmax hpos]
  change (motrObjIovecAdjust conf obj (sortedArgs false iov) >>= _) = _
  rw [hadjust]
  rfl

/-- Every aligned vector fits into an op. -/
theorem miovLen_le_of_mem_planArgs (hpage : motrObjIoPagesize obj ≤ max) {isWrite : Bool}
    {iov : List (MioIovec ℕ)} {v : MioIovec Ptr}
    (hv : v ∈ (planArgs obj max isWrite iov).rwaAlignedIovs) : v.miovLen ≤ max := by
  have hpos : 0 < max := lt_of_lt_of_le (motrObjIoPagesize_pos obj) hpage
  rcases (planInv_planArgs obj hpos isWrite iov).vec v hv with
    ⟨_, _, _, _, hle⟩ | ⟨_, _, _, _, _, rfl⟩
  · exact hle
  · exact hpage

/-- A request for some byte has an aligned vector. -/
theorem planArgs_aligned_ne_nil (obj : MioObj) (hpos : 0 < max) (isWrite : Bool)
    {iov : List (MioIovec ℕ)}
    {v : MioIovec ℕ} (hv : v ∈ iov) (hlen : 0 < v.miovLen) :
    (planArgs obj max isWrite iov).rwaAlignedIovs ≠ [] := by
  intro hnil
  have hinv := planInv_planArgs obj hpos isWrite iov
  have hx : v.Has v.miovOff := ⟨le_rfl, Nat.lt_add_of_pos_right hlen⟩
  obtain ⟨p, hp, hpx⟩ := exists_mem_rangePieces (motrObjIoPagesize obj) hx
  have hpm : p ∈ reqPieces obj isWrite iov := mem_reqPieces.mpr ⟨v, hv, hp⟩
  cases hw : p.whole with
  | true =>
    obtain ⟨w, hw', -⟩ := hinv.whole p hpm hw _ hpx
    simp [hnil] at hw'
  | false =>
    obtain ⟨w, hw', -⟩ := hinv.part p hpm hw
    simp [hnil] at hw'

/-- A read of some byte is submitted, runs to its end and leaves the target in
application memory. -/
theorem readv_completes (obj : MioObj) (hmax : motrObjMaxSizePerOp conf obj = .ok max)
    (hpage : motrObjIoPagesize obj ≤ max) (cl : Cluster) (app : ℕ → Byte)
    {iov : List (MioIovec ℕ)} (hne : ∃ v ∈ iov, 0 < v.miovLen) (hwrap : ∀ v ∈ iov, v.NoWrap)
    (hbuf : iov.Pairwise MioIovec.BufApart) :
    ∃ op s, mioMotrObjReadv conf obj app iov = .ok op ∧
      runChain conf ⟨cl, obj, op⟩ = some (none, s) ∧ s.cluster = cl ∧ s.obj = obj ∧
      (∀ v ∈ iov, ∀ i < v.miovLen,
        s.op.mem (.app (v.miovBase + i)) = cl.bytes (v.miovOff + i)) ∧
      ∀ a, (∀ v ∈ iov, ¬v.BufHas a) → s.op.mem (.app a) = app a := by
  have hpos : 0 < max := lt_of_lt_of_le (motrObjIoPagesize_pos obj) hpage
  obtain ⟨v, hv, hlen⟩ := hne
  have hA := planArgs_aligned_ne_nil obj hpos false hv hlen
  have hfit : ∀ v ∈ (planArgs obj max false iov).rwaAlignedIovs, v.miovLen ≤ max :=
    fun v hv => miovLen_le_of_mem_planArgs hpage hv
  obtain ⟨n, -, hn, hlaunch⟩ := launchAligned_read hmax
    (j := 0) hfit (List.length_pos_iff.mpr hA)
  obtain ⟨s, hrun, hcl, hobj, hmem⟩ := runChain_read hmax
    hfit (by omega : n ≤ _)
  have hsubmit : mioMotrObjReadv conf obj app iov =
      .ok (readOpAt cl.bytes (planArgs obj max false iov) (Mem.init app) 0 n) := by
    rw [mioMotrObjReadv_eq hmax hpos app hwrap, ← hlaunch, planArgs_progress_zero]
    rfl
  have hspec := readMem_spec cl.bytes app hbuf
    (planArgs_isWrite false iov) (planInv_planArgs obj hpos false iov)
  refine ⟨_, s, hsubmit, hrun, hcl, hobj, fun v hv i hi => ?_, fun a ha => ?_⟩
  · rw [hmem, hspec, readTarget_buf _ _ hbuf _ hv hi]
  · rw [hmem, hspec, readTarget_of_not_buf ha]

end Chain

/-! ### What a read returns -/

end CortxMio
