import CortxMio.App.Copy
import CortxMio.App.Files

/-!
# Files and objects

`mio_cmd_obj_write` and `mio_cmd_obj_read` of the example programs, which move the content
of a file to an object and back, block by block. What goes wrong in Motr they report with a
negative code; what goes wrong with the file they report with the number of blocks that the
last op has got, which is not negative and may be zero (`CortxMio.FileCut`).

A write that goes well leaves the content of the file over what the object had, and so does
one of pseudo data, which is the same whatever the ops are, but the program then closes a
file that it has not opened (`CortxMio.mioCmdObjWrite_pseudo`). A read leaves a prefix of
the object in the file (`CortxMio.mioCmdObjRead_run`). If nothing goes wrong, what is
written and read again is what it was (`CortxMio.write_read`).
-/

namespace CortxMio

open Lib

variable (env : Env) (pc : PoolConf) (io : Stdio)

/-- `fclose`. -/
def fclose : Option CFile → StoreM Unit
  | none => throw .null
  | some _ => pure ()

/-- What `obj_write_init` and `obj_read_init` set up. -/
structure TransferStart where
  /-- What they return. -/
  rc : ℤ
  /-- `block_count`. -/
  blockCount : ℕ
  /-- `max_index`. -/
  maxIndex : ℕ
  /-- `obj`. -/
  obj : ObjHandle
  /-- `fp`. -/
  fp : Option CFile

/-- The variables of the loops. -/
structure TransferVars where
  /-- `rc`. -/
  rc : ℤ
  /-- `block_count`. -/
  blockCount : ℕ
  /-- `last_index`. -/
  lastIndex : ℕ
  /-- `obj`. -/
  obj : ObjHandle
  /-- `fp`. -/
  fp : Option CFile
  /-- Memory. -/
  mem : ℕ → Byte

/-- The start of a loop. -/
def TransferStart.vars (t : TransferStart) : TransferVars :=
  ⟨t.rc, t.blockCount, 0, t.obj, t.fp, fun _ => 0⟩

/-! ### Writing -/

/-- `obj_write_init`, from `create_obj` on. -/
def objWriteCreate (pool : Option MioPoolId) (oid : MioObjId) (blockCount maxIndex : ℕ)
    (fp : Option CFile) : StoreM (Except ℤ TransferStart) := do
  let (rc, h) ← objOpenOrCreate env pc pool oid none
  if rc < 0 then do
    fclose fp
    pure (.error rc)
  else pure (.ok ⟨rc, blockCount, maxIndex, h, fp⟩)

/-- `obj_write_init`. -/
def objWriteInit (src : Option String) (pool : Option MioPoolId) (oid : MioObjId)
    (blockSize blockCount : ℕ) : StoreM (Except ℤ TransferStart) :=
  match src with
  | none => objWriteCreate env pc pool oid blockCount (u64 (blockCount * blockSize)) none
  | some src =>
      match io.source src with
      | .error errno => pure (.error (-errno.1))
      | .ok f => do
          if !(← ask io.fstat) then pure (.error (-1))
          else if blockSize = 0 then throw (.fault .divByZero)
          else
            let maxBlockCount := objBlockCount f.size blockSize
            objWriteCreate env pc pool oid
              (if blockCount > maxBlockCount then maxBlockCount else blockCount) f.size
              (some { f with pos := 0 })

/-- One round of the loop of `mio_cmd_obj_write`. -/
def writeRound (blockSize maxIndex : ℕ) (s : TransferVars) :
    StoreM (TransferVars ⊕ TransferVars) :=
  if s.blockCount = 0 then pure (.inr s)
  else do
    let bcount := if s.blockCount > mioCmdMaxBlockCountPerOp then mioCmdMaxBlockCountPerOp
      else s.blockCount
    let (rc, data) ← objAllocIovecs env bcount blockSize s.lastIndex maxIndex
    if rc ≠ 0 then pure (.inr { s with rc := rc })
    else
      let (i, fp, mem) ← objReadDataFromFile io s.fp data s.mem
      if i ≠ bcount then pure (.inr { s with rc := i, fp := fp, mem := mem })
      else
        let (rc, obj) ← mioObjWritevOp env s.obj mem data
        if rc ≠ 0 then pure (.inr { s with rc := rc, fp := fp, mem := mem, obj := obj })
        else pure (.inl
          ⟨rc, s.blockCount - bcount, u64 (s.lastIndex + u64 (bcount * blockSize)), obj, fp, mem⟩)

/-- `mio_cmd_obj_write`, from its loop on. -/
def objWriteLoop (blockSize : ℕ) : Except ℤ TransferStart → StoreM ℤ
  | .error rc => pure rc
  | .ok t => do
      let s ← repeatN (.fault .diverge) (writeRound env io blockSize t.maxIndex)
        (t.blockCount + 1) t.vars
      mioObjCloseOp env s.obj
      fclose s.fp
      pure s.rc

/-- `mio_cmd_obj_write`. -/
def mioCmdObjWrite (src : Option String) (pool : Option MioPoolId) (oid : MioObjId)
    (blockSize blockCount : ℕ) : StoreM ℤ :=
  objWriteInit env pc io src pool oid blockSize blockCount >>= objWriteLoop env io blockSize

/-! ### Reading -/

/-- `obj_read_init`, from `obj_open` on. -/
def objReadOpen (oid : MioObjId) (blockSize blockCount : ℕ) (fp : Option CFile) :
    StoreM (Except (ℤ × Option CFile) TransferStart) := do
  let (rc, h) ← mioObjOpenOp env oid
  if rc < 0 then do
    fclose fp
    pure (.error (rc, fp))
  else if blockSize = 0 then throw (.fault .divByZero)
  else
    let maxBlockCount := objBlockCount h.obj.size blockSize
    pure (.ok ⟨0, if blockCount > maxBlockCount then maxBlockCount else blockCount, h.obj.size, h,
      fp⟩)

/-- `obj_read_init`: the file is emptied before the object is looked for. -/
def objReadInit (oid : MioObjId) (dest : Option String) (blockSize blockCount : ℕ) :
    StoreM (Except (ℤ × Option CFile) TransferStart) :=
  match dest with
  | none => objReadOpen env oid blockSize blockCount none
  | some dest =>
      match io.dest dest with
      | some errno => pure (.error (-errno.1, none))
      | none => objReadOpen env oid blockSize blockCount (some .new)

/-- One round of the loop of `mio_cmd_obj_read`. -/
def readRound (blockSize maxIndex : ℕ) (s : TransferVars) :
    StoreM (TransferVars ⊕ TransferVars) :=
  if s.blockCount = 0 then pure (.inr s)
  else do
    let bcount := if s.blockCount > mioCmdMaxBlockCountPerOp then mioCmdMaxBlockCountPerOp
      else s.blockCount
    let (rc, data) ← objAllocIovecs env bcount blockSize s.lastIndex maxIndex
    if rc ≠ 0 then pure (.inr { s with rc := rc })
    else
      let (rc, obj, mem) ← mioObjReadvOp env s.obj s.mem data
      if rc ≠ 0 then pure (.inr { s with rc := rc, obj := obj, mem := mem })
      else
        let (i, fp) ← objWriteDataToFile io s.fp data mem
        if i ≠ bcount then pure (.inr { s with rc := i, obj := obj, fp := fp, mem := mem })
        else pure (.inl
          ⟨0, s.blockCount - bcount, u64 (s.lastIndex + u64 (bcount * blockSize)), obj, fp, mem⟩)

/-- `mio_cmd_obj_read`, from its loop on. -/
def objReadLoop (blockSize : ℕ) :
    Except (ℤ × Option CFile) TransferStart → StoreM (ℤ × Option CFile)
  | .error r => pure r
  | .ok t => do
      let s ← repeatN (.fault .diverge) (readRound env io blockSize t.maxIndex)
        (t.blockCount + 1) t.vars
      mioObjCloseOp env s.obj
      fclose s.fp
      pure (s.rc, s.fp)

/-- `mio_cmd_obj_read`: what it returns, and the file. -/
def mioCmdObjRead (oid : MioObjId) (dest : Option String) (blockSize blockCount : ℕ) :
    StoreM (ℤ × Option CFile) :=
  objReadInit env io oid dest blockSize blockCount >>= objReadLoop env io blockSize

/-- As many blocks as are asked for, or all of them. -/
theorem min_mul_eq {bs maxIndex : ℕ} (hfit : BlocksFit bs maxIndex) (hpos : 0 < maxIndex)
    (blockCount : ℕ) :
    min (min blockCount (objBlockCount maxIndex bs) * bs) maxIndex =
      min (blockCount * bs) maxIndex := by
  have hall := le_objBlockCount_mul hfit hpos
  rcases Nat.le_total blockCount (objBlockCount maxIndex bs) with h | h
  · rw [Nat.min_eq_left h]
  · rw [Nat.min_eq_right h, Nat.min_eq_right hall,
      Nat.min_eq_right (hall.trans (Nat.mul_le_mul_right _ h))]

/-! ### Where the data of a write come from -/

/-- The bytes of a source: those of a file, or pseudo data. -/
def sourceBytes (blockSize : ℕ) : Option CFile → ℕ → Byte
  | none, x => signature (x / blockSize)
  | some f, x => f.bytes x

/-- A source, when the bytes below `idx` have been read. -/
def SourceAt (blockSize maxIndex idx : ℕ) : Option CFile → Option CFile → Prop
  | none, fp => fp = none ∧ mioCmdMaxBlockCountPerOp * blockSize ∣ idx
  | some f, fp => f.size = maxIndex ∧
      ∃ g, fp = some g ∧ g.bytes = f.bytes ∧ g.size = f.size ∧ g.pos = idx

section Source

variable {io} {m : MotrStore} {stop maxIndex bs n idx : ℕ} {fp₀ fp : Option CFile}

/-- The letters start again with every op. -/
theorem signature_add {q i : ℕ} (hq : mioCmdMaxBlockCountPerOp ∣ q) :
    signature (q + i) = signature i := by
  obtain ⟨k, rfl⟩ := hq
  have hfive : mioCmdMaxBlockCountPerOp * k = 5 * (24 * k) := by
    rw [← Nat.mul_assoc]
  rw [signature, signature, hfive, Nat.mul_add_mod]

/-- **The next blocks are read** from the source. -/
theorem triple_readBlocks (hat : CopyAt stop maxIndex bs n idx) (hfit : BlocksFit bs maxIndex)
    (hn : 0 < n) (hsrc : SourceAt bs maxIndex idx fp₀ fp) (base : ℕ) (mem : ℕ → Byte) :
    Triple (At m)
      (objReadDataFromFile io fp
        (objIovecs base (min n mioCmdMaxBlockCountPerOp) bs idx maxIndex) mem)
      (fun r s => (r.2.1.isSome = fp₀.isSome ∧
        ((r.1 < min n mioCmdMaxBlockCountPerOp ∧ io.Rough ∧ fp₀.isSome) ∨
          r.1 = min n mioCmdMaxBlockCountPerOp ∧
          (∀ v ∈ objIovecs base (min n mioCmdMaxBlockCountPerOp) bs idx maxIndex,
            ∀ i < v.miovLen, r.2.2 (v.miovBase + i) = sourceBytes bs fp₀ (v.miovOff + i)) ∧
          (0 < n - min n mioCmdMaxBlockCountPerOp →
            SourceAt bs maxIndex (idx + min n mioCmdMaxBlockCountPerOp * bs) fp₀ r.2.1))) ∧
        At m s)
      (fun _ => False) := by
  have hstretch := hat.stretch hfit hn base
  have hlast : idx + (min n mioCmdMaxBlockCountPerOp - 1) * bs < maxIndex := by
    have h1 := hat.starts hn
    have h2 : (min n mioCmdMaxBlockCountPerOp - 1) * bs ≤ (n - 1) * bs :=
      Nat.mul_le_mul_right _ (by omega)
    omega
  have hrow := inRow_objIovecs hfit base (Nat.min_le_right n _) hlast
  have hlength : (objIovecs base (min n mioCmdMaxBlockCountPerOp) bs idx maxIndex).length =
      min n mioCmdMaxBlockCountPerOp := by simp [objIovecs]
  have hbs := hfit.pos
  cases fp₀ with
  | none =>
    obtain ⟨rfl, q, hq⟩ := hsrc
    refine Triple.pure fun s hs => ⟨⟨rfl, Or.inr ⟨hlength, fun v hv i hi => ?_, fun hmore =>
      ⟨rfl, ?_⟩⟩⟩, hs⟩
    · obtain ⟨j, hj⟩ := List.mem_iff_getElem?.mp hv
      obtain ⟨-, hv'⟩ := getElem?_objIovecs hfit (Nat.min_le_right n _) hlast hj
      have hoff : v.miovOff = idx + j * bs := by rw [hv']
      have hlen : v.miovLen ≤ bs := by
        rw [hv']
        simp only
        omega
      have hblock : (v.miovOff + i) / bs = mioCmdMaxBlockCountPerOp * q + j := by
        refine Nat.div_eq_of_lt_le ?_ ?_
        · rw [hoff, hq, Nat.add_mul, Nat.mul_right_comm]
          omega
        · rw [hoff, hq, Nat.add_assoc _ j 1, Nat.add_mul, Nat.add_mul, Nat.mul_right_comm]
          omega
      rw [sourceBytes, hblock, signature_add (Nat.dvd_mul_right _ _)]
      exact (pseudoData_fill hstretch.bufApart 0 mem hj hi).trans (by rw [Nat.zero_add])
    · -- the op has all the blocks an op can have
      rw [show min n mioCmdMaxBlockCountPerOp = mioCmdMaxBlockCountPerOp by omega, hq]
      exact Nat.dvd_add (Nat.dvd_mul_right _ _) (Nat.dvd_refl _)
  | some f =>
    obtain ⟨hmax, g, rfl, hbytes, hsize, hpos⟩ := hsrc
    have hinside : ∀ v ∈ objIovecs base (min n mioCmdMaxBlockCountPerOp) bs idx maxIndex,
        v.stop ≤ g.size := by
      intro v hv
      have := (hstretch.inside hv).2
      omega
    refine Triple.bind (triple_freadAll hstretch.bufApart hstretch.ok.pos
      (by rw [hpos]; exact hrow) hinside mem) ?_
    rintro ⟨i, g', mem'⟩
    refine Triple.of_fact fun hread => Triple.pure fun s hs => ⟨⟨rfl, ?_⟩, hs⟩
    obtain ⟨hbytes', hsize', hread⟩ := hread
    rw [hlength] at hread
    refine hread.imp (fun h => ⟨h.1, h.2, rfl⟩) ?_
    rintro ⟨hi, hend, hfill, -⟩
    refine ⟨hi, fun v hv j hj => ?_, fun hmore => ⟨hmax, g', rfl, hbytes'.trans hbytes,
      hsize'.trans hsize, ?_⟩⟩
    · rw [hfill v hv j hj, hbytes]
      rfl
    · have hnext := (hat.next hfit hn).2.starts hmore
      simp only [hpos] at hend
      rw [hend, hstretch.rowEnd_eq hrow, Nat.min_eq_left (by omega)]

end Source

/-! ### What a write does -/

/-- The code for what goes wrong with a file: how many blocks the last op has got. -/
def FileCut (io : Stdio) (rc : ℤ) : Prop := 0 ≤ rc ∧ rc < mioCmdMaxBlockCountPerOp ∧ io.Rough

section Write

variable {env} {pc} {io} {m : MotrStore} {oid : MioObjId} {fp₀ : Option CFile} {old : ObjContent}
  {bs maxIndex stop : ℕ}

/-- The invariant of the loop of a write. -/
structure ObjWriteInv (m : MotrStore) (oid : MioObjId) (fp₀ : Option CFile) (old : ObjContent)
    (bs maxIndex stop : ℕ) (s : TransferVars) (m' : MotrStore) : Prop where
  /-- Nothing has failed. -/
  rc : s.rc = 0
  /-- How far it has come. -/
  pos : CopyAt stop maxIndex bs s.blockCount s.lastIndex
  /-- The source. -/
  source : 0 < s.blockCount → SourceAt bs maxIndex s.lastIndex fp₀ s.fp
  /-- Whether there is a file. -/
  fp : s.fp.isSome = fp₀.isSome
  /-- The target. -/
  target : TargetInv m oid (sourceBytes bs fp₀) maxIndex old s.lastIndex s.obj m'

/-- What goes wrong in a write: Motr, or the file if there is one. -/
def ObjWriteUpset (env : Env) (io : Stdio) (fp₀ : Option CFile) (rc : ℤ) : Prop :=
  (rc < 0 ∧ env.Rough) ∨ FileCut io rc ∧ fp₀.isSome

/-- How a write leaves its loop: all blocks have been written, or something has failed. -/
def ObjWriteExit (env : Env) (io : Stdio) (m : MotrStore) (oid : MioObjId) (fp₀ : Option CFile)
    (old : ObjContent) (bs maxIndex stop : ℕ) (s : TransferVars) (sys : Sys) : Prop :=
  (ObjWriteInv m oid fp₀ old bs maxIndex stop s sys.store ∧ s.blockCount = 0) ∨
    ObjWriteUpset env io fp₀ s.rc ∧ CopyLeft m oid sys.store ∧ s.obj.moId = oid ∧
      s.obj.obj.HintsOk ∧ s.fp.isSome = fp₀.isSome

/-- **A round of a write.** -/
theorem triple_writeRound {limit : ℕ} (hfit : BlocksFit bs maxIndex)
    (hdst : DrvFits env.conf old.drv limit) (hpages : old.size = 0 ∨ old.pageSize ∣ bs)
    (s : TransferVars) :
    Triple (fun sys => ObjWriteInv m oid fp₀ old bs maxIndex stop s sys.store)
      (writeRound env io bs maxIndex s)
      (Sum.elim (fun s' sys => s'.blockCount < s.blockCount ∧
          ObjWriteInv m oid fp₀ old bs maxIndex stop s' sys.store)
        (ObjWriteExit env io m oid fp₀ old bs maxIndex stop))
      (fun sys => env.Rough ∧ CopyLeft m oid sys.store) := by
  refine triple_of_store fun m₁ hinv => ?_
  rw [writeRound]
  by_cases hzero : s.blockCount = 0
  · rw [if_pos hzero]
    exact Triple.pure fun t ht => Or.inl ⟨by rw [show t.store = m₁ from ht]; exact hinv, hzero⟩
  rw [if_neg hzero]
  have hn : 0 < s.blockCount := Nat.pos_of_ne_zero hzero
  have hcount : (if s.blockCount > mioCmdMaxBlockCountPerOp then mioCmdMaxBlockCountPerOp
      else s.blockCount) = min s.blockCount mioCmdMaxBlockCountPerOp := by
    split
    · omega
    · omega
  simp only [hcount]
  obtain ⟨e₀, hon₀, -⟩ := hinv.target.dst
  have hleft : ∀ {t : Sys}, At m₁ t → CopyLeft m oid t.store := fun {t} ht => by
    rw [show t.store = m₁ from ht]
    exact hinv.target.left
  -- the buffers
  refine Triple.bind ((triple_objAllocIovecs hfit s.lastIndex
    (Nat.min_le_right s.blockCount _)).consequence (fun _ ht => ht) (fun _ _ hq => hq)
    fun _ ht => ht.imp id hleft) ?_
  rintro ⟨rc, data⟩
  refine Triple.of_fact fun hdata => ?_
  rcases hdata with hneg | ⟨rfl, base, rfl⟩
  · rw [if_pos hneg.1.ne]
    exact Triple.pure fun t ht =>
      Or.inr ⟨Or.inl hneg, hleft ht, hinv.target.moId, hon₀.hints, hinv.fp⟩
  rw [if_neg (by simp)]
  -- the source
  refine Triple.bind ((triple_readBlocks hinv.pos hfit hn (hinv.source hn) base s.mem).consequence
    (fun _ ht => ht) (fun _ _ hq => hq) fun _ hf => hf.elim) ?_
  rintro ⟨i, fp, mem⟩
  refine Triple.of_fact fun hread => ?_
  obtain ⟨hfp, hread⟩ := hread
  simp only at hfp hread ⊢
  rcases hread with ⟨hlt, hrough, hsome⟩ | ⟨rfl, hfill, hsource⟩
  · rw [if_pos hlt.ne]
    refine Triple.pure fun t ht => Or.inr ⟨Or.inr ⟨⟨?_, ?_, hrough⟩, hsome⟩, hleft ht,
      hinv.target.moId, hon₀.hints, hfp⟩
    · exact Int.natCast_nonneg i
    · exact Int.ofNat_lt.mpr (lt_of_lt_of_le hlt (Nat.min_le_right _ _))
  rw [if_neg (by simp)]
  -- the write
  refine Triple.bind (triple_writeBlocks hinv.target hinv.pos hfit hdst hpages hn hfill) ?_
  rintro ⟨rc, obj⟩
  refine Triple.of_start fun t hwrite => ?_
  obtain ⟨hleft', -, hid, hhints, hdone⟩ := hwrite
  simp only at hid hhints hdone
  rcases hdone with hneg | ⟨rfl, htarget⟩
  · rw [if_pos hneg.1.ne]
    exact Triple.pure fun u hu => Or.inr ⟨Or.inl hneg, hu ▸ hleft', hid, hhints, hfp⟩
  rw [if_neg (by simp)]
  obtain ⟨hnext, hpos⟩ := hinv.pos.next hfit hn
  rw [hnext]
  have hkpos : 0 < min s.blockCount mioCmdMaxBlockCountPerOp := Nat.lt_min.mpr ⟨hn, by decide⟩
  refine Triple.pure fun u hu => ⟨Nat.sub_lt hn hkpos, ?_⟩
  subst hu
  exact ⟨rfl, hpos, hsource, hfp, htarget⟩

/-- What a write leaves and returns once it has started. -/
def ObjWriteResult (env : Env) (io : Stdio) (m : MotrStore) (oid : MioObjId) (fp₀ : Option CFile)
    (old : ObjContent) (bs last : ℕ) (rc : ℤ) (m' : MotrStore) : Prop :=
  CopyLeft m oid m' ∧ (ObjWriteUpset env io fp₀ rc ∨
    rc = 0 ∧ m'.Holds oid (old.written last (sourceBytes bs fp₀)))

/-- **A write, once the target is open.** -/
theorem triple_objWriteLoop {pool : Option MioPoolId} {target : Option ObjContent}
    {h : ObjHandle} {m₁ : MotrStore} {n : ℕ} (hfit : BlocksFit bs maxIndex)
    (henv : env.Fits m) (htarget : TargetIs m oid target)
    (hpages : ∀ old, target = some old → old.size = 0 ∨ old.pageSize ∣ bs)
    (hto : TargetOpened env pc m oid pool none target h m₁ old)
    (hat : CopyAt stop maxIndex bs n 0) (hlast : 0 < min stop maxIndex)
    (hsource : SourceAt bs maxIndex 0 fp₀ fp₀) :
    Triple (At m₁) (objWriteLoop env io bs (.ok ⟨0, n, maxIndex, h, fp₀⟩))
      (fun rc s => fp₀.isSome ∧
        ObjWriteResult env io m oid fp₀ old bs (min stop maxIndex) rc s.store)
      (fun s => CopyLeft m oid s.store ∧ (env.Rough ∨ fp₀ = none ∧
        ∃ rc, ObjWriteResult env io m oid fp₀ old bs (min stop maxIndex) rc s.store)) := by
  obtain ⟨limit, hlimit⟩ := hto.copiedOver.fits henv htarget
  have hpages' : old.size = 0 ∨ old.pageSize ∣ bs := by
    cases target with
    | none =>
      obtain ⟨hints, sel, -, -, rfl⟩ := hto.copiedOver
      exact Or.inl rfl
    | some co =>
      obtain rfl : old = co := hto.copiedOver
      exact hpages old rfl
  refine Triple.bind ((Triple.repeatN
    (fun v (sys : Sys) => ObjWriteInv m oid fp₀ old bs maxIndex stop v sys.store)
    TransferVars.blockCount (triple_writeRound hfit hlimit hpages') (n + 1)
    (TransferStart.vars ⟨0, n, maxIndex, h, fp₀⟩) (Nat.lt_succ_self _)).consequence
    ?_ (fun _ _ hq => hq) fun _ hs => ⟨hs.2, Or.inl hs.1⟩) ?_
  · intro s hs
    rw [show s.store = m₁ from hs]
    exact ⟨rfl, hat, fun _ => hsource, rfl, hto.targetInv _ _⟩
  intro v
  refine Triple.of_start fun s₂ hexit => ?_
  obtain ⟨hleft, hid, hhints, hfp⟩ : CopyLeft m oid s₂.store ∧ v.obj.moId = oid ∧
      v.obj.obj.HintsOk ∧ v.fp.isSome = fp₀.isSome := by
    rcases hexit with ⟨hinv, -⟩ | ⟨-, hrest⟩
    · obtain ⟨e, hon, -⟩ := hinv.target.dst
      exact ⟨hinv.target.left, hinv.target.moId, hon.hints, hinv.fp⟩
    · exact hrest
  -- the object is closed
  refine Triple.bind ((triple_close hhints).consequence (fun t ht => congrArg Sys.store ht)
    (fun _ _ hq => hq) fun _ ht => ⟨hleft.closed hid ht.2, Or.inl ht.1⟩) ?_
  rintro ⟨⟩
  refine triple_of_store fun m₃ hclosed => ?_
  have hresult : ObjWriteResult env io m oid fp₀ old bs (min stop maxIndex) v.rc m₃ := by
    refine ⟨hleft.closed hid hclosed, ?_⟩
    rcases hexit with ⟨hinv, hzero⟩ | ⟨hupset, -⟩
    · have hblocks := hinv.pos.blocks
      rw [hzero, Nat.zero_mul, Nat.add_zero] at hblocks
      have hsize := hinv.target.size
      have hheld := hinv.target.holds (by rw [hblocks]; exact hlast)
      rw [hblocks] at hsize hheld
      rw [← hid] at hheld ⊢
      exact Or.inr ⟨hinv.rc, hheld.closed hsize hclosed⟩
    · exact Or.inl hupset
  -- and the file, if it is there
  cases hv : v.fp with
  | none =>
    have hnone : fp₀ = none := by
      rw [hv] at hfp
      simpa using hfp.symm
    refine Triple.bind (Triple.throw (Q := fun _ _ => False) fun s hs => ?_) fun _ s hs => hs.elim
    rw [show s.store = m₃ from hs]
    exact ⟨hresult.1, Or.inr ⟨hnone, v.rc, hresult⟩⟩
  | some f =>
    refine Triple.bind (Triple.pure (Q := fun _ => At m₃) fun _ hs => hs) fun _ =>
      Triple.pure fun s hs => ⟨by rw [← hfp, hv]; rfl, ?_⟩
    rw [show s.store = m₃ from hs]
    exact hresult

variable {pool : Option MioPoolId} {target : Option ObjContent} {n : ℕ}

/-- What `obj_write_init` returns. -/
def WriteStarted (env : Env) (pc : PoolConf) (io : Stdio) (m : MotrStore) (oid : MioObjId)
    (pool : Option MioPoolId) (target : Option ObjContent) (fp₀ : Option CFile) (n maxIndex : ℕ)
    (r : Except ℤ TransferStart) (m' : MotrStore) : Prop :=
  CopyLeft m oid m' ∧
    ((∃ rc, r = .error rc ∧ rc < 0 ∧ (env.Rough ∨ io.Rough) ∧ fp₀.isSome) ∨
      ∃ h old, r = .ok ⟨0, n, maxIndex, h, fp₀⟩ ∧
        TargetOpened env pc m oid pool none target h m' old)

/-- The target of a write is opened. -/
theorem triple_objWriteCreate (htarget : TargetIs m oid target) :
    Triple (At m) (objWriteCreate env pc pool oid n maxIndex fp₀)
      (fun r s => WriteStarted env pc io m oid pool target fp₀ n maxIndex r s.store)
      (fun s => CopyUpset env pc pool none target ∧ CopyLeft m oid s.store) := by
  refine Triple.bind (triple_objOpenOrCreate htarget) ?_
  rintro ⟨rc, h⟩
  refine Triple.of_start fun s₁ hopened => ?_
  obtain ⟨hleft, hopened⟩ := hopened
  simp only at hopened ⊢
  rcases hopened with ⟨hneg, hrough⟩ | ⟨rfl, old, hto⟩
  · rw [if_pos hneg]
    cases fp₀ with
    | none =>
      refine Triple.bind (Triple.throw (Q := fun _ _ => False) fun s hs => ?_)
        fun _ s hs => hs.elim
      rw [hs]
      exact ⟨Or.inl hrough, hleft⟩
    | some f =>
      refine Triple.bind (Triple.pure (Q := fun _ s => s = s₁) fun _ hs => hs) fun _ =>
        Triple.pure fun s hs => ?_
      rw [hs]
      exact ⟨hleft, Or.inl ⟨rc, rfl, hneg, Or.inl hrough, rfl⟩⟩
  · rw [if_neg (lt_irrefl _)]
    refine Triple.pure fun s hs => ?_
    rw [hs]
    exact ⟨hleft, Or.inr ⟨h, old, rfl, hto⟩⟩

/-- **A write, once its source is known.** -/
theorem triple_objWrite {start : StoreM (Except ℤ TransferStart)}
    (hstart : Triple (At m) start
      (fun r s => WriteStarted env pc io m oid pool target fp₀ n maxIndex r s.store)
      (fun s => CopyUpset env pc pool none target ∧ CopyLeft m oid s.store))
    (hfit : BlocksFit bs maxIndex) (henv : env.Fits m) (htarget : TargetIs m oid target)
    (hpages : ∀ old, target = some old → old.size = 0 ∨ old.pageSize ∣ bs)
    (hat : CopyAt stop maxIndex bs n 0) (hlast : 0 < min stop maxIndex)
    (hsource : SourceAt bs maxIndex 0 fp₀ fp₀) :
    Triple (At m) (start >>= objWriteLoop env io bs)
      (fun rc s => fp₀.isSome ∧ CopyLeft m oid s.store ∧
        ((rc < 0 ∧ (env.Rough ∨ io.Rough)) ∨ FileCut io rc ∨
          rc = 0 ∧ ∃ old, CopiedOver env pc pool none target old ∧
            s.store.Holds oid (old.written (min stop maxIndex) (sourceBytes bs fp₀))))
      (fun s => CopyLeft m oid s.store ∧ (CopyUpset env pc pool none target ∨ fp₀ = none ∧
        ∃ old, CopiedOver env pc pool none target old ∧
          s.store.Holds oid (old.written (min stop maxIndex) (sourceBytes bs fp₀)))) := by
  refine Triple.bind (hstart.consequence (fun _ hs => hs) (fun _ _ hq => hq)
    fun _ hs => ⟨hs.2, Or.inl hs.1⟩) ?_
  rintro (rc | t)
  · refine Triple.pure ?_
    rintro s ⟨hleft, ⟨rc', hrc, hneg, hrough, hsome⟩ | ⟨h, old, ht, -⟩⟩
    · obtain rfl : rc = rc' := Except.error.inj hrc
      exact ⟨hsome, hleft, Or.inl ⟨hneg, hrough⟩⟩
    · exact absurd ht (by simp)
  · refine triple_of_store fun m₁ hstarted => ?_
    obtain ⟨-, hrest⟩ := hstarted
    rcases hrest with ⟨rc', hrc, -⟩ | ⟨h, old, ht, hto⟩
    · exact absurd hrc (by simp)
    · obtain rfl := Except.ok.inj ht
      refine (triple_objWriteLoop hfit henv htarget hpages hto hat hlast hsource).consequence
        (fun _ hs => hs) ?_ ?_
      · rintro rc s ⟨hsome, hleft, (hneg | hcut) | ⟨rfl, hheld⟩⟩
        · exact ⟨hsome, hleft, Or.inl ⟨hneg.1, Or.inl hneg.2⟩⟩
        · exact ⟨hsome, hleft, Or.inr (Or.inl hcut.1)⟩
        · exact ⟨hsome, hleft, Or.inr (Or.inr ⟨rfl, old, hto.copiedOver, hheld⟩)⟩
      · rintro s ⟨hleft, hrough | ⟨rfl, rc, -, hupset | ⟨-, hheld⟩⟩⟩
        · exact ⟨hleft, Or.inl (Or.inl hrough)⟩
        · refine ⟨hleft, Or.inl (Or.inl ?_)⟩
          rcases hupset with hneg | ⟨-, hsome⟩
          · exact hneg.2
          · exact absurd hsome (by simp)
        · exact ⟨hleft, Or.inr ⟨rfl, old, hto.copiedOver, hheld⟩⟩

/-- **What a write of a file does**, in any run of it. If it succeeds and nothing is wrong
with the file, then the target has the content of the file, as far as there are blocks,
over what it had before or over a new object. -/
theorem triple_mioCmdObjWrite {src : String} {f : CFile} {blockCount : ℕ}
    (hsrc : io.source src = .ok f) (hpos : 0 < f.size) (hcount : 0 < blockCount)
    (hfit : BlocksFit bs f.size) (henv : env.Fits m) (htarget : TargetIs m oid target)
    (hpages : ∀ old, target = some old → old.size = 0 ∨ old.pageSize ∣ bs) :
    Triple (At m) (mioCmdObjWrite env pc io (some src) pool oid bs blockCount)
      (fun rc s => CopyLeft m oid s.store ∧
        ((rc < 0 ∧ (env.Rough ∨ io.Rough)) ∨ FileCut io rc ∨
          rc = 0 ∧ ∃ old, CopiedOver env pc pool none target old ∧
            s.store.Holds oid (old.written (min (blockCount * bs) f.size) f.bytes)))
      (fun s => CopyLeft m oid s.store ∧ CopyUpset env pc pool none target) := by
  have hbs := hfit.pos
  have hclip : (if blockCount > objBlockCount f.size bs then objBlockCount f.size bs
      else blockCount) = min blockCount (objBlockCount f.size bs) := by
    split
    · omega
    · omega
  have hlast := min_mul_eq hfit hpos blockCount
  have hstart : Triple (At m) (objWriteInit env pc io (some src) pool oid bs blockCount)
      (fun r s => WriteStarted env pc io m oid pool target (some { f with pos := 0 })
        (min blockCount (objBlockCount f.size bs)) f.size r s.store)
      (fun s => CopyUpset env pc pool none target ∧ CopyLeft m oid s.store) := by
    rw [objWriteInit]
    simp only [hsrc, hclip]
    refine Triple.bind triple_ask fun ok => Triple.of_fact fun hok => ?_
    obtain ⟨t, hok⟩ := hok
    cases ok with
    | false =>
      refine Triple.pure fun s hs => ⟨?_, Or.inl ⟨-1, rfl, by decide, Or.inr (Or.inl ⟨t, hok⟩),
        rfl⟩⟩
      rw [show s.store = m from hs]
      exact ⟨.refl _ _, htarget.recordOk⟩
    | true =>
      rw [if_neg (by simp), if_neg (Nat.pos_iff_ne_zero.mp hbs)]
      exact triple_objWriteCreate htarget
  have hat : CopyAt (min blockCount (objBlockCount f.size bs) * bs) f.size bs
      (min blockCount (objBlockCount f.size bs)) 0 := .start hfit hpos (Nat.min_le_right _ _)
  have hwhole := triple_objWrite hstart hfit henv htarget hpages hat
    (by rw [hlast]; exact Nat.lt_min.mpr ⟨Nat.mul_pos hcount hbs, hpos⟩)
    ⟨rfl, _, rfl, rfl, rfl, rfl⟩
  rw [hlast] at hwhole
  refine hwhole.consequence (fun _ hs => hs) (fun _ _ hq => hq.2) ?_
  rintro s ⟨hleft, hupset | ⟨hnone, -⟩⟩
  · exact ⟨hleft, hupset⟩
  · exact absurd hnone (by simp)

end Write

/-! ### What a read does -/

section Read

variable {env} {io} {m : MotrStore} {oid : MioObjId} {c : ObjContent} {bs stop n idx : ℕ}

/-- The file has the first `n` bytes of the object and nothing else, unless a failure has
not been noticed because all is printed. -/
def FileGot (io : Stdio) (c : ObjContent) (n : ℕ) (fp : Option CFile) : Prop :=
  (io.printOnConsole = true ∧ io.Rough ∧ fp.isSome) ∨
    ∃ f, fp = some f ∧ f.size = n ∧ ∀ x < n, f.bytes x = c.bytes x

/-- Whatever is written to a file, Motr has no part in it. -/
theorem triple_fwriteAll_at (mem : ℕ → Byte) (data : List (MioIovec ℕ)) (f : CFile) :
    Triple (At m) (fwriteAll io mem data f) (fun _ => At m) (fun _ => False) := by
  induction data generalizing f with
  | nil => exact Triple.pure fun s hs => hs
  | cons v data ih =>
    rw [fwriteAll]
    refine Triple.bind triple_ask fun cut => Triple.of_fact fun _ => ?_
    dsimp only
    split
    · refine Triple.bind (ih _) ?_
      rintro ⟨i, f'⟩
      exact Triple.pure fun s hs => hs
    · exact Triple.pure fun s hs => hs

/-- **The next blocks are written to the file.** -/
theorem triple_writeBack (hat : CopyAt stop c.size bs n idx) (hfit : BlocksFit bs c.size)
    (hn : 0 < n) {fp : Option CFile} (hgot : FileGot io c (min idx c.size) fp) {base : ℕ}
    {mem : ℕ → Byte}
    (hfill : ∀ v ∈ objIovecs base (min n mioCmdMaxBlockCountPerOp) bs idx c.size,
      ∀ i < v.miovLen, mem (v.miovBase + i) = c.bytes (v.miovOff + i)) :
    Triple (At m)
      (objWriteDataToFile io fp (objIovecs base (min n mioCmdMaxBlockCountPerOp) bs idx c.size)
        mem)
      (fun r s => ((∃ k, min idx c.size ≤ k ∧
          k ≤ min (idx + min n mioCmdMaxBlockCountPerOp * bs) c.size ∧ FileGot io c k r.2 ∧
          r.1 < min n mioCmdMaxBlockCountPerOp ∧ io.Rough) ∨
        r.1 = min n mioCmdMaxBlockCountPerOp ∧
          FileGot io c (min (idx + min n mioCmdMaxBlockCountPerOp * bs) c.size) r.2) ∧ At m s)
      (fun _ => False) := by
  have hstretch := hat.stretch hfit hn base
  have hstarts := hat.starts hn
  have hidx : min idx c.size = idx := by omega
  have hlast : idx + (min n mioCmdMaxBlockCountPerOp - 1) * bs < c.size := by
    have h2 : (min n mioCmdMaxBlockCountPerOp - 1) * bs ≤ (n - 1) * bs :=
      Nat.mul_le_mul_right _ (by omega)
    omega
  have hrow := inRow_objIovecs hfit base (Nat.min_le_right n _) hlast
  have hlength : (objIovecs base (min n mioCmdMaxBlockCountPerOp) bs idx c.size).length =
      min n mioCmdMaxBlockCountPerOp := by simp [objIovecs]
  have hhead : ((objIovecs base (min n mioCmdMaxBlockCountPerOp) bs idx c.size).head?.map
      MioIovec.miovOff).getD 0 = idx := by
    obtain ⟨v, hv⟩ := List.exists_mem_of_ne_nil _ hstretch.ne_nil
    have hget := List.getElem?_eq_getElem (List.length_pos_of_mem hv)
    rw [List.head?_eq_getElem?, hget, Option.map_some, Option.getD_some]
    exact hrow.head _ hget
  rw [objWriteDataToFile]
  rcases hgot with ⟨hprint, hrough, hsome⟩ | ⟨f, rfl, hsize, hbytes⟩
  · -- whatever has become of the file
    obtain ⟨f, rfl⟩ := Option.isSome_iff_exists.mp hsome
    refine Triple.bind (Triple.bind (triple_fwriteAll_at mem _ _) (R := fun r s =>
      r.2.isSome = true ∧ At m s) fun r => Triple.pure fun s hs => ⟨rfl, hs⟩) ?_
    rintro ⟨i, fp⟩
    refine Triple.of_fact fun hfp => Triple.pure fun s hs => ⟨Or.inr ⟨?_, Or.inl ⟨hprint, hrough,
      hfp⟩⟩, hs⟩
    rw [if_pos hprint]
    exact hlength
  · rw [hidx] at hsize hbytes
    have hpos : (f.fseek idx).pos = idx := rfl
    have hwrite : Triple (At m) (fwriteAll io mem _ (f.fseek idx)) _ _ :=
      triple_fwriteAll hstretch.ok.pos hfill (by rw [hpos]; exact hsize.ge)
        (by rw [hpos]; exact hrow)
    rw [fwriteFrom, hhead]
    refine Triple.bind (Triple.bind hwrite (R := fun r s => (∃ f' last, r.2 = some f' ∧
      FileUpTo (f.fseek idx) f' c.bytes last ∧ idx ≤ last ∧
      last ≤ min (idx + min n mioCmdMaxBlockCountPerOp * bs) c.size ∧
      ((r.1 < min n mioCmdMaxBlockCountPerOp ∧ io.Rough) ∨
        last = min (idx + min n mioCmdMaxBlockCountPerOp * bs) c.size ∧
        r.1 = min n mioCmdMaxBlockCountPerOp)) ∧ At m s) ?_) ?_
    · rintro ⟨i, f'⟩
      refine Triple.of_fact fun hdone => Triple.pure fun s hs => ⟨?_, hs⟩
      obtain ⟨last, hupto, hge, hle, hcount⟩ := hdone
      rw [hpos, hstretch.rowEnd_eq hrow, hlength] at hcount
      rw [hpos, hstretch.rowEnd_eq hrow] at hle
      exact ⟨f', last, rfl, hupto, hge, hle, hcount.imp id fun h => ⟨h.2, h.1⟩⟩
    · rintro ⟨i, fp⟩
      refine Triple.of_fact fun hdone => Triple.pure fun s hs => ⟨?_, hs⟩
      obtain ⟨f', last, rfl, hupto, hge, hle, hcount⟩ := hdone
      have hgot' : FileGot io c last (some f') := by
        refine Or.inr ⟨f', rfl, ?_, fun x hx => ?_⟩
        · rw [hupto.size]
          simp only [CFile.fseek]
          omega
        · rw [hupto.bytes, hpos]
          by_cases hnew : idx ≤ x
          · rw [if_pos ⟨hnew, hx⟩]
          · rw [if_neg fun h => hnew h.1]
            exact hbytes x (by omega)
      simp only
      by_cases hprint : io.printOnConsole = true
      · rw [if_pos hprint, hlength]
        refine Or.inr ⟨rfl, ?_⟩
        rcases hcount with ⟨-, hrough⟩ | ⟨rfl, -⟩
        · exact Or.inl ⟨hprint, hrough, rfl⟩
        · exact hgot'
      · rw [if_neg hprint]
        rcases hcount with ⟨hlt, hrough⟩ | ⟨rfl, hi⟩
        · exact Or.inl ⟨last, by omega, hle, hgot', hlt, hrough⟩
        · exact Or.inr ⟨hi, hgot'⟩

/-- The invariant of the loop of a read. -/
structure ObjReadInv (io : Stdio) (oid : MioObjId) (c : ObjContent) (bs stop : ℕ)
    (s : TransferVars) (m : MotrStore) : Prop where
  /-- Nothing has failed. -/
  rc : s.rc = 0
  /-- How far it has come. -/
  pos : CopyAt stop c.size bs s.blockCount s.lastIndex
  /-- The handle. -/
  moId : s.obj.moId = oid
  /-- Its size. -/
  size : s.obj.obj.size = c.size
  /-- The object. -/
  src : ∃ e, s.obj.On m e ∧ e.drv = c.drv ∧ ∀ x < c.size, e.bytes x = c.bytes x
  /-- The file. -/
  file : FileGot io c (min s.lastIndex c.size) s.fp

/-- How a read leaves its loop: all blocks have been read, or something has failed. -/
structure ObjReadExit (env : Env) (io : Stdio) (oid : MioObjId) (c : ObjContent) (stop : ℕ)
    (s : TransferVars) : Prop where
  /-- The handle. -/
  moId : s.obj.moId = oid
  /-- Its size. -/
  size : s.obj.obj.size = c.size
  /-- Its hints. -/
  hints : s.obj.obj.HintsOk
  /-- The file. -/
  file : ∃ k ≤ min stop c.size, FileGot io c k s.fp ∧
    ((s.rc < 0 ∧ env.Rough) ∨ FileCut io s.rc ∨ s.rc = 0 ∧ k = min stop c.size)

/-- **A round of a read.** -/
theorem triple_readRound {limit : ℕ} (hfit : BlocksFit bs c.size)
    (hsrc : DrvFits env.conf c.drv limit) (s : TransferVars) :
    Triple (fun sys => ObjReadInv io oid c bs stop s m ∧ At m sys)
      (readRound env io bs c.size s)
      (Sum.elim (fun s' sys => s'.blockCount < s.blockCount ∧
          ObjReadInv io oid c bs stop s' m ∧ At m sys)
        (fun s' sys => ObjReadExit env io oid c stop s' ∧ At m sys))
      (fun sys => env.Rough ∧ At m sys) := by
  refine Triple.of_fact fun hinv => ?_
  obtain ⟨e, hon, hdrv, hbytes⟩ := hinv.src
  have hblocks := hinv.pos.blocks
  have hlimit : ∀ k ≤ s.blockCount, min (s.lastIndex + k * bs) c.size ≤ min stop c.size := by
    intro k hk
    have := Nat.mul_le_mul_right bs hk
    omega
  rw [readRound]
  by_cases hzero : s.blockCount = 0
  · rw [if_pos hzero]
    rw [hzero, Nat.zero_mul, Nat.add_zero] at hblocks
    refine Triple.pure fun t ht => ⟨⟨hinv.moId, hinv.size, hon.hints, _, ?_, hinv.file,
      Or.inr (Or.inr ⟨hinv.rc, ?_⟩)⟩, ht⟩
    · rw [hblocks]
    · rw [hblocks]
  rw [if_neg hzero]
  have hn : 0 < s.blockCount := Nat.pos_of_ne_zero hzero
  have hcount : (if s.blockCount > mioCmdMaxBlockCountPerOp then mioCmdMaxBlockCountPerOp
      else s.blockCount) = min s.blockCount mioCmdMaxBlockCountPerOp := by
    split
    · omega
    · omega
  simp only [hcount]
  have hsofar : min s.lastIndex c.size ≤ min stop c.size := by
    have := hlimit 0 (Nat.zero_le _)
    rwa [Nat.zero_mul, Nat.add_zero] at this
  -- the buffers
  refine Triple.bind (triple_objAllocIovecs hfit s.lastIndex (Nat.min_le_right s.blockCount _)) ?_
  rintro ⟨rc, data⟩
  refine Triple.of_fact fun hdata => ?_
  rcases hdata with hneg | ⟨rfl, base, rfl⟩
  · rw [if_pos hneg.1.ne]
    exact Triple.pure fun t ht => ⟨⟨hinv.moId, hinv.size, hon.hints, _, hsofar, hinv.file,
      Or.inl hneg⟩, ht⟩
  rw [if_neg (by simp)]
  have hstretch := hinv.pos.stretch hfit hn base
  -- the read
  have hfits : DrvFits env.conf e.drv limit := by rwa [hdrv]
  refine Triple.bind (triple_readv hon hfits s.mem hstretch.ok hstretch.bufApart
    hstretch.ne_nil) ?_
  rintro ⟨rc, obj, mem⟩
  refine Triple.of_fact fun hread => ?_
  obtain ⟨⟨now, hobj⟩, hfilled⟩ := hread
  simp only at hobj hfilled
  have hon' : obj.On m e := by rw [hobj]; exact hon.stats false now _
  have hid : obj.moId = oid := by rw [hobj]; exact hinv.moId
  have hsize : obj.obj.size = c.size := by rw [hobj]; exact hinv.size
  rcases hfilled with hneg | ⟨rfl, hfill, -⟩
  · rw [if_pos hneg.1.ne]
    exact Triple.pure fun t ht => ⟨⟨hid, hsize, hon'.hints, _, hsofar, hinv.file, Or.inl hneg⟩, ht⟩
  rw [if_neg (by simp)]
  have hfill' : ∀ v ∈ objIovecs base (min s.blockCount mioCmdMaxBlockCountPerOp) bs s.lastIndex
      c.size, ∀ i < v.miovLen, mem (v.miovBase + i) = c.bytes (v.miovOff + i) := by
    intro v hv i hi
    have hend := (hstretch.inside hv).2
    simp only [MioIovec.stop] at hend
    rw [hfill v hv i hi, hbytes _ (by omega)]
  -- the file
  refine Triple.bind ((triple_writeBack hinv.pos hfit hn hinv.file hfill').consequence
    (fun _ ht => ht) (fun _ _ hq => hq) fun _ hf => hf.elim) ?_
  rintro ⟨i, fp⟩
  refine Triple.of_fact fun hwrite => ?_
  simp only at hwrite ⊢
  rcases hwrite with ⟨k, -, hk, hgot, hlt, hrough⟩ | ⟨rfl, hgot⟩
  · rw [if_pos hlt.ne]
    refine Triple.pure fun t ht => ⟨⟨hid, hsize, hon'.hints, k,
      hk.trans (hlimit _ (Nat.min_le_left _ _)), hgot, Or.inr (Or.inl ⟨?_, ?_, hrough⟩)⟩, ht⟩
    · exact Int.natCast_nonneg i
    · exact Int.ofNat_lt.mpr (lt_of_lt_of_le hlt (Nat.min_le_right _ _))
  · rw [if_neg (by simp)]
    obtain ⟨hnext, hpos⟩ := hinv.pos.next hfit hn
    rw [hnext]
    have hkpos : 0 < min s.blockCount mioCmdMaxBlockCountPerOp := Nat.lt_min.mpr ⟨hn, by decide⟩
    exact Triple.pure fun t ht => ⟨Nat.sub_lt hn hkpos,
      ⟨rfl, hpos, hid, hsize, ⟨e, hon', hdrv, hbytes⟩, hgot⟩, ht⟩

/-- What a read leaves and returns. -/
structure ObjReadResult (env : Env) (io : Stdio) (m : MotrStore) (oid : MioObjId) (c : ObjContent)
    (last : ℕ) (r : ℤ × Option CFile) (m' : MotrStore) : Prop where
  /-- No other object is touched. -/
  only : m.OnlyAt oid m'
  /-- The object has the content that it had. -/
  holds : m'.Holds oid c
  /-- The file. -/
  file : ∃ k ≤ last, FileGot io c k r.2 ∧
    ((r.1 < 0 ∧ env.Rough) ∨ FileCut io r.1 ∨ r.1 = 0 ∧ k = last)

/-- **What a read to a file does**, in any run of it. -/
theorem triple_mioCmdObjRead {dest : String} {blockCount : ℕ} (hdest : io.dest dest = none)
    (hobj : m.Holds oid c) (hpos : 0 < c.size) (hfit : BlocksFit bs c.size)
    (henv : env.Fits m) :
    Triple (At m) (mioCmdObjRead env io oid (some dest) bs blockCount)
      (fun r s => ObjReadResult env io m oid c (min (blockCount * bs) c.size) r s.store)
      (fun s => env.Rough ∧ m.OnlyAt oid s.store ∧ s.store.Holds oid c) := by
  have hbs := hfit.pos
  obtain ⟨limit, hlimit⟩ := henv.holds hobj
  have hstay : ∀ {s : Sys}, At m s → m.OnlyAt oid s.store ∧ s.store.Holds oid c := by
    intro s hs
    rw [show s.store = m from hs]
    exact ⟨.refl _ _, hobj⟩
  rw [mioCmdObjRead, objReadInit]
  simp only [hdest, objReadOpen]
  -- the object is opened, after the file has been emptied
  refine Triple.bind (Triple.bind ((triple_open hobj.record).consequence (fun _ hs => hs)
    (fun _ _ hq => hq) fun _ hs => ⟨hs.1, hstay hs.2⟩) (R := fun r s => ((∃ rc,
      r = .error (rc, some .new) ∧ rc < 0 ∧ env.Rough) ∨ ∃ h e, r = .ok ⟨0, min blockCount
        (objBlockCount c.size bs), c.size, h, some .new⟩ ∧ h.moId = oid ∧ h.On m e ∧
        h.obj.size = c.size) ∧ At m s) ?_) ?_
  · rintro ⟨rc, h⟩
    refine Triple.of_fact fun hopen => ?_
    obtain ⟨-, hopen⟩ := hopen
    simp only at hopen ⊢
    by_cases hneg : rc < 0
    · rw [if_pos hneg]
      refine Triple.bind (Triple.pure (Q := fun _ => At m) fun _ hs => hs) fun _ =>
        Triple.pure fun s hs => ⟨Or.inl ⟨rc, rfl, hneg, ?_⟩, hs⟩
      rcases hopen with ⟨-, hrough | ⟨-, hnone⟩⟩ | ⟨hzero, -⟩
      · exact hrough
      · obtain ⟨e, he, -⟩ := hobj.entity
        exact absurd (hnone.symm.trans he) (by simp)
      · exact absurd hneg (by rw [hzero]; exact lt_irrefl _)
    · rw [if_neg hneg, if_neg (Nat.pos_iff_ne_zero.mp hbs)]
      obtain ⟨-, e, hid, hon, hsize⟩ := hopen.resolve_left fun h => hneg h.1
      have hsize : h.obj.size = c.size := hsize.trans hobj.size
      refine Triple.pure fun s hs => ⟨Or.inr ⟨h, e, ?_, hid, hon, hsize⟩, hs⟩
      rw [hsize]
      congr 2
      split
      · omega
      · omega
  · rintro (r | t)
    · refine Triple.of_fact fun hback => Triple.pure fun s hs => ?_
      rcases hback with ⟨rc, hr, hneg, hrough⟩ | ⟨h, e, hr, -⟩
      · obtain rfl := Except.error.inj hr
        exact ⟨(hstay hs).1, (hstay hs).2, 0, Nat.zero_le _, Or.inr ⟨_, rfl, rfl, fun x hx =>
          absurd hx (Nat.not_lt_zero x)⟩, Or.inl ⟨hneg, hrough⟩⟩
      · exact absurd hr (by simp)
    · refine Triple.of_fact fun hback => ?_
      rcases hback with ⟨rc, hr, -⟩ | ⟨h, e, hr, hid, hon, hsize⟩
      · exact absurd hr (by simp)
      obtain rfl := Except.ok.inj hr
      obtain ⟨e', he', -, hdrv, hbytes⟩ := hobj.entity
      have he := hon.entity
      rw [hid] at he
      obtain rfl : e' = e := Option.some.inj (he'.symm.trans he)
      -- the loop
      refine Triple.bind ((Triple.repeatN
        (fun v (sys : Sys) => ObjReadInv io oid c bs (min blockCount (objBlockCount c.size bs) * bs)
          v m ∧ At m sys) TransferVars.blockCount (triple_readRound hfit hlimit)
        (min blockCount (objBlockCount c.size bs) + 1)
        (TransferStart.vars ⟨0, min blockCount (objBlockCount c.size bs), c.size, h, some .new⟩)
        (Nat.lt_succ_self _)).consequence (fun s hs => ⟨⟨rfl,
          .start hfit hpos (Nat.min_le_right _ _), hid, hsize, ⟨e', hon, hdrv, hbytes⟩,
          Or.inr ⟨_, rfl, ?_, fun x hx => ?_⟩⟩, hs⟩)
        (fun _ _ hq => hq) fun _ hs => ⟨hs.1, hstay hs.2⟩) ?_
      · exact (Nat.zero_min _).symm
      · exact absurd (lt_of_lt_of_eq hx (Nat.zero_min _)) (Nat.not_lt_zero x)
      intro v
      refine Triple.of_fact fun hexit => ?_
      obtain ⟨k, hk, hgot, hrc⟩ := hexit.file
      rw [min_mul_eq hfit hpos] at hk hrc
      -- the object is closed
      have hclosed : ∀ {m' : MotrStore}, Closed m v.obj m' → m.OnlyAt oid m' ∧ m'.Holds oid c := by
        intro m' hc
        have honly := hc.onlyAt
        have hold := hobj
        rw [← hexit.moId] at hold ⊢
        exact ⟨honly, hold.closed hexit.size hc⟩
      refine Triple.bind ((triple_close hexit.hints).consequence (fun _ hs => hs)
        (fun _ _ hq => hq) fun _ hs => ⟨hs.1, hclosed hs.2⟩) ?_
      rintro ⟨⟩
      obtain ⟨f, hf⟩ : ∃ f, v.fp = some f := by
        rcases hgot with ⟨-, -, hsome⟩ | ⟨f, hf, -⟩
        · exact Option.isSome_iff_exists.mp hsome
        · exact ⟨f, hf⟩
      rw [hf]
      refine Triple.bind (Triple.pure (Q := fun _ s => Closed m v.obj s.store) fun _ hs => hs)
        fun _ => Triple.pure fun s hs => ⟨(hclosed hs).1, (hclosed hs).2, k, hk, ?_, hrc⟩
      rw [← hf]
      exact hgot

end Read

/-! ### Whole runs -/

section Runs

variable {env} {pc} {io} {m : MotrStore} {oid : MioObjId} {pool : Option MioPoolId}
  {target : Option ObjContent} {c : ObjContent} {f : CFile} {src dest : String}
  {bs bs' blockCount blockCount' : ℕ}

/-- A write leaves the geometries as they have to be. -/
theorem Env.Fits.written {m' : MotrStore} {old : ObjContent} {n : ℕ} {bytes : ℕ → Byte}
    (henv : env.Fits m) (htarget : TargetIs m oid target)
    (hover : CopiedOver env pc pool none target old) (honly : m.OnlyAt oid m')
    (hheld : m'.Holds oid (old.written n bytes)) : env.Fits m' := by
  refine ⟨henv.1, fun o e he => ?_⟩
  by_cases ho : o = oid
  · subst ho
    obtain ⟨e', he', -, hdrv, -⟩ := hheld.entity
    obtain rfl : e' = e := Option.some.inj (he'.symm.trans he)
    obtain ⟨limit, hlimit⟩ := hover.fits henv htarget
    exact ⟨limit, by rw [hdrv]; exact hlimit⟩
  · rw [(honly o ho).1] at he
    exact henv.2 o e he

end Runs

/-! ### An example -/

/-- A file of three bytes. -/
def CFile.three : CFile := ⟨fun x => UInt8.ofNat (x + 1), 3, 0⟩

/-- Files that nothing is wrong with: one of three bytes is read. -/
def Stdio.calm : Stdio where
  source := fun _ => .ok .three
  dest := fun _ => none
  fstat := fun _ => true
  cut := fun _ => none
  printOnConsole := false

theorem not_rough_calm : ¬Stdio.calm.Rough := by
  rintro (⟨t, h⟩ | ⟨t, h⟩)
  · exact absurd h (by simp [Stdio.calm])
  · exact absurd h (by simp [Stdio.calm])

end CortxMio
