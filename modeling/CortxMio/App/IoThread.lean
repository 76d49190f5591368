import CortxMio.App.Copy
import CortxMio.App.Files

/-!
# What the threads write and read

`io_thread_obj_write` and `io_thread_obj_read`, with which the threads of the example
programs write random data to an object and read them back, block by block, and take a
digest of the data on the way. The digest is that of the bytes, whatever ops they have been
written or read with: what a write returns (`CortxMio.triple_ioThreadObjWrite`) is what a read
of the object returns afterwards (`CortxMio.triple_ioThreadObjRead`).

The numbers of blocks and of bytes have 32 bits here, and what is said of them is said as long
as they do not wrap around.
-/

namespace CortxMio

open Lib

/-- `MD5_DIGEST_LENGTH`. -/
abbrev md5DigestLength : ℕ := 16

/-- A digest. -/
abbrev Md5sum := Vector Byte md5DigestLength

/-- `IO_THREAD_MAX_RAND_NUM`. -/
abbrev ioThreadMaxRandNum : UInt32 := 1024

/-- What the threads use of other libraries. -/
structure IoThreadEnv where
  /-- The digest of all bytes of the `MD5_Update`s, from `MD5_Init` to `MD5_Final`. -/
  md5 : List Byte → Md5sum
  /-- `random`. -/
  random : ℕ → UInt32

variable (env : Env) (th : IoThreadEnv)

/-- `bsize` bytes of memory. -/
def memBytes (mem : ℕ → Byte) (base bsize : ℕ) : List Byte :=
  (List.range bsize).map fun i => mem (base + i)

/-- The random number of a block is put in the block as often as there is room. -/
def ioThreadFill (rand : UInt32) (base bsize : ℕ) (mem : ℕ → Byte) : ℕ → Byte := fun a =>
  if base ≤ a ∧ a < base + bsize / 4 * 4 then (leBytes 4 rand.toNat).getD ((a - base) % 4) 0
  else mem a

/-- `io_thread_generate_data`: memory, and what has gone into the digest. -/
def ioThreadGenerateData (bsize : ℕ) :
    List (MioIovec ℕ) → (ℕ → Byte) → List Byte → StoreM ((ℕ → Byte) × List Byte)
  | [], mem, ctx => pure (mem, ctx)
  | v :: data, mem, ctx => do
      let rand ← ask fun t => th.random t % ioThreadMaxRandNum
      let mem := ioThreadFill rand v.miovBase bsize mem
      ioThreadGenerateData bsize data mem (ctx ++ memBytes mem v.miovBase bsize)

/-- The variables of the loops. -/
structure IoThreadVars where
  /-- `rc`. -/
  rc : ℤ
  /-- `block_count`. -/
  blockCount : ℕ
  /-- `last_index`. -/
  lastIndex : ℕ
  /-- `obj`. -/
  obj : ObjHandle
  /-- Memory. -/
  mem : ℕ → Byte
  /-- `md5_ctx`. -/
  md5Ctx : List Byte

/-- A number of 32 bits. -/
def u32 (n : ℕ) : ℕ := n % 2 ^ 32

/-- One round of the loop of `io_thread_obj_write`. -/
def ioThreadWriteRound (blockSize maxIndex : ℕ) (s : IoThreadVars) :
    StoreM (IoThreadVars ⊕ IoThreadVars) :=
  if s.blockCount = 0 then pure (.inr s)
  else do
    let bcount := if s.blockCount > mioCmdMaxBlockCountPerOp then mioCmdMaxBlockCountPerOp
      else s.blockCount
    let (rc, data) ← objAllocIovecs env bcount blockSize s.lastIndex maxIndex
    if rc ≠ 0 then pure (.inr { s with rc := rc })
    else
      let (mem, ctx) ← ioThreadGenerateData th blockSize data s.mem s.md5Ctx
      let (rc, obj) ← mioObjWritevOp env s.obj mem data
      if rc ≠ 0 then pure (.inr { s with rc := rc, obj := obj, mem := mem, md5Ctx := ctx })
      else pure (.inl ⟨rc, s.blockCount - bcount, u64 (s.lastIndex + u32 (bcount * blockSize)), obj,
        mem, ctx⟩)

/-- `io_thread_obj_write`: what it returns, the handle, and the digest. -/
def ioThreadObjWrite (obj : ObjHandle) (blockSize blockCount : ℕ) :
    StoreM (ℤ × ObjHandle × Md5sum) := do
  let maxIndex := u32 (blockSize * blockCount)
  let s ← repeatN (.fault .diverge) (ioThreadWriteRound env th blockSize maxIndex) (blockCount + 1)
    ⟨0, blockCount, 0, obj, fun _ => 0, []⟩
  pure (s.rc, s.obj, th.md5 s.md5Ctx)

/-- One round of the loop of `io_thread_obj_read`. -/
def ioThreadReadRound (blockSize maxIndex : ℕ) (s : IoThreadVars) :
    StoreM (IoThreadVars ⊕ IoThreadVars) :=
  if s.blockCount = 0 then pure (.inr s)
  else do
    let bcount := if s.blockCount > mioCmdMaxBlockCountPerOp then mioCmdMaxBlockCountPerOp
      else s.blockCount
    let (rc, data) ← objAllocIovecs env bcount blockSize s.lastIndex maxIndex
    if rc ≠ 0 then pure (.inr { s with rc := rc })
    else
      let (rc, obj, mem) ← mioObjReadvOp env s.obj s.mem data
      if rc ≠ 0 then pure (.inr { s with rc := rc, obj := obj, mem := mem })
      else
        let ctx := s.md5Ctx ++ data.flatMap fun v => memBytes mem v.miovBase blockSize
        pure (.inl ⟨rc, s.blockCount - bcount, u64 (s.lastIndex + u32 (bcount * blockSize)), obj,
          mem, ctx⟩)

/-- `io_thread_obj_read`: what it returns, the handle, and the digest. -/
def ioThreadObjRead (obj : ObjHandle) (blockSize blockCount : ℕ) :
    StoreM (ℤ × ObjHandle × Md5sum) := do
  let maxIndex := u32 (blockSize * blockCount)
  let s ← repeatN (.fault .diverge) (ioThreadReadRound env blockSize maxIndex) (blockCount + 1)
    ⟨0, blockCount, 0, obj, fun _ => 0, []⟩
  pure (s.rc, s.obj, th.md5 s.md5Ctx)

/-! ### The data of a write -/

/-- The bytes of a list, one after the other. -/
def byteAt (bytes : List Byte) (x : ℕ) : Byte := bytes.getD x 0

theorem length_memBytes (mem : ℕ → Byte) (base bsize : ℕ) :
    (memBytes mem base bsize).length = bsize := by
  simp [memBytes]

theorem byteAt_memBytes {mem : ℕ → Byte} {base bsize x : ℕ} (hx : x < bsize) :
    byteAt (memBytes mem base bsize) x = mem (base + x) := by
  simp [byteAt, memBytes, List.getD, List.getElem?_range hx]

theorem byteAt_append_left {bytes bytes' : List Byte} {x : ℕ} (hx : x < bytes.length) :
    byteAt (bytes ++ bytes') x = byteAt bytes x := by
  simp [byteAt, List.getD, List.getElem?_append_left hx]

theorem byteAt_append_right (bytes bytes' : List Byte) (x : ℕ) :
    byteAt (bytes ++ bytes') (bytes.length + x) = byteAt bytes' x := by
  simp [byteAt, List.getD, List.getElem?_append_right]

/-- Two lists of bytes with the same bytes. -/
theorem eq_of_byteAt {bytes bytes' : List Byte} (hlen : bytes.length = bytes'.length)
    (h : ∀ x < bytes.length, byteAt bytes x = byteAt bytes' x) : bytes = bytes' := by
  refine List.ext_getElem hlen fun x hx hx' => ?_
  have := h x hx
  simpa [byteAt, List.getD, List.getElem?_eq_getElem hx, List.getElem?_eq_getElem hx'] using this

/-- Buffers that lie one behind the other. -/
def InBuffers (base bsize : ℕ) (data : List (MioIovec ℕ)) : Prop :=
  ∀ j v, data[j]? = some v → v.miovBase = base + j * bsize

section Generate

variable {env} {th} {m : MotrStore} {bsize : ℕ}

theorem ioThreadFill_of_lt {rand : UInt32} {base a : ℕ} {mem : ℕ → Byte} (ha : a < base) :
    ioThreadFill rand base bsize mem a = mem a := by
  rw [ioThreadFill, if_neg (by omega)]

/-- **What is generated** is in the buffers, and goes into the digest. -/
theorem triple_ioThreadGenerateData (data : List (MioIovec ℕ)) (base : ℕ) (mem : ℕ → Byte)
    (ctx : List Byte) (hdata : InBuffers base bsize data) :
    Triple (At m) (ioThreadGenerateData th bsize data mem ctx)
      (fun r s => (∃ new, r.2 = ctx ++ new ∧ new.length = data.length * bsize ∧
        (∀ x < data.length * bsize, r.1 (base + x) = byteAt new x) ∧
        ∀ a < base, r.1 a = mem a) ∧ At m s)
      (fun _ => False) := by
  induction data generalizing base mem ctx with
  | nil =>
    exact Triple.pure fun s hs => ⟨⟨[], by simp, by simp, by simp, fun _ _ => rfl⟩, hs⟩
  | cons v data ih =>
    have hv : v.miovBase = base := by
      have := hdata 0 v rfl
      simpa using this
    have hrest : InBuffers (base + bsize) bsize data := fun j w hw => by
      have := hdata (j + 1) w (by simpa using hw)
      rw [this, Nat.succ_mul]
      omega
    rw [ioThreadGenerateData]
    refine Triple.bind triple_ask fun rand => Triple.of_fact fun _ => ?_
    simp only [hv]
    refine (ih (base + bsize) _ _ hrest).consequence (fun _ hs => hs) ?_ fun _ hf => hf
    rintro ⟨mem', ctx'⟩ s ⟨⟨new, hctx, hlen, hnew, hold⟩, hs⟩
    simp only at hctx hnew hold
    refine ⟨⟨memBytes (ioThreadFill rand base bsize mem) base bsize ++ new, ?_, ?_, ?_, ?_⟩, hs⟩
    · simp only [hctx, List.append_assoc]
    · rw [List.length_append, length_memBytes, hlen, List.length_cons, Nat.succ_mul, Nat.add_comm]
    · intro x hx
      rw [List.length_cons, Nat.succ_mul] at hx
      simp only
      by_cases hfirst : x < bsize
      · rw [hold _ (by omega), byteAt_append_left (by rwa [length_memBytes]),
          byteAt_memBytes hfirst]
      · obtain ⟨y, rfl⟩ := Nat.exists_eq_add_of_le (Nat.le_of_not_lt hfirst)
        have happend := byteAt_append_right
          (memBytes (ioThreadFill rand base bsize mem) base bsize) new y
        rw [length_memBytes] at happend
        rw [happend, ← hnew y (by omega), Nat.add_assoc]
    · intro a ha
      simp only
      rw [hold a (by omega), ioThreadFill_of_lt ha]

end Generate

/-! ### Writing -/

section Write

variable {env} {th} {m m' : MotrStore} {oid : MioObjId} {old : ObjContent} {bs total : ℕ}

/-- Only the bytes that have been written matter. -/
theorem TargetInv.congr {src src' : ℕ → Byte} {maxIndex idx : ℕ} {h : ObjHandle}
    (hinv : TargetInv m oid src maxIndex old idx h m')
    (hsame : ∀ x < min idx maxIndex, src x = src' x) :
    TargetInv m oid src' maxIndex old idx h m' := by
  obtain ⟨e, hon, hpool, hdrv, hbytes⟩ := hinv.dst
  refine ⟨hinv.left, hinv.moId, ⟨e, hon, hpool, hdrv, fun x hx => ?_⟩, hinv.size, hinv.stored⟩
  rw [hbytes x hx]
  split
  · next hlt => exact hsame x hlt
  · rfl

/-- The blocks of an op that are all of the same size. -/
theorem CopyAt.fullBlock {n idx j : ℕ} (hat : CopyAt total total bs n idx)
    (hfit : BlocksFit bs total) (hn : 0 < n) {base : ℕ} {v : MioIovec ℕ}
    (hv : (objIovecs base (min n mioCmdMaxBlockCountPerOp) bs idx total)[j]? = some v) :
    j < min n mioCmdMaxBlockCountPerOp ∧ v = ⟨base + j * bs, idx + j * bs, bs⟩ := by
  have hstarts := hat.starts hn
  have hblocks := hat.blocks
  have hlast : idx + (min n mioCmdMaxBlockCountPerOp - 1) * bs < total := by
    have := Nat.mul_le_mul_right bs (show min n mioCmdMaxBlockCountPerOp - 1 ≤ n - 1 by omega)
    omega
  obtain ⟨⟨hj, -⟩, rfl⟩ := getElem?_objIovecs hfit (Nat.min_le_right n _) hlast hv
  have hle : (j + 1) * bs ≤ n * bs := Nat.mul_le_mul_right bs (by omega)
  rw [Nat.succ_mul] at hle
  refine ⟨hj, ?_⟩
  congr 1
  omega

/-- The position that a number of whole blocks starts at. -/
theorem CopyAt.startFull {bc : ℕ} (hbs : 0 < bs) (hcount : 0 < bc) :
    CopyAt (bs * bc) (bs * bc) bs bc 0 := by
  refine ⟨Nat.dvd_zero _, by rw [Nat.zero_add, Nat.mul_comm], fun _ => ?_⟩
  have hsucc : (bc - 1) * bs + bs = bs * bc := by
    rw [← Nat.succ_mul, Nat.mul_comm bs]
    congr 1
    omega
  omega

/-- The position after the next blocks, where it has 32 bits. -/
theorem CopyAt.next32 {n idx : ℕ} (hat : CopyAt total total bs n idx) (hfit : BlocksFit bs total)
    (hn : 0 < n) (htotal : total < 2 ^ 32) :
    u64 (idx + u32 (min n mioCmdMaxBlockCountPerOp * bs)) =
        idx + min n mioCmdMaxBlockCountPerOp * bs ∧
      CopyAt total total bs (n - min n mioCmdMaxBlockCountPerOp)
        (idx + min n mioCmdMaxBlockCountPerOp * bs) := by
  have hblocks := hat.blocks
  have hle : min n mioCmdMaxBlockCountPerOp * bs ≤ n * bs :=
    Nat.mul_le_mul_right bs (Nat.min_le_left _ _)
  refine ⟨?_, (hat.next hfit hn).2⟩
  rw [u32, Nat.mod_eq_of_lt (by omega), u64_of_lt (by omega)]

/-- The invariant of the loop of a write: what has gone into the digest is what has been
written. -/
structure ThreadWriteInv (m : MotrStore) (oid : MioObjId) (old : ObjContent) (bs total : ℕ)
    (s : IoThreadVars) (m' : MotrStore) : Prop where
  /-- Nothing has failed. -/
  rc : s.rc = 0
  /-- How far it has come. -/
  pos : CopyAt total total bs s.blockCount s.lastIndex
  /-- What has gone into the digest. -/
  length : s.md5Ctx.length = s.lastIndex
  /-- The object. -/
  target : TargetInv m oid (byteAt s.md5Ctx) total old s.lastIndex s.obj m'

/-- How a write leaves its loop: all blocks have been written, or something has failed. -/
def ThreadWriteExit (env : Env) (m : MotrStore) (oid : MioObjId) (old : ObjContent)
    (bs total : ℕ) (s : IoThreadVars) (sys : Sys) : Prop :=
  (ThreadWriteInv m oid old bs total s sys.store ∧ s.blockCount = 0) ∨
    (s.rc < 0 ∧ env.Rough) ∧ CopyLeft m oid sys.store ∧ s.obj.moId = oid ∧ s.obj.obj.HintsOk

/-- **A round of a write.** -/
theorem triple_ioThreadWriteRound {limit : ℕ} (hfit : BlocksFit bs total)
    (htotal : total < 2 ^ 32) (hdst : DrvFits env.conf old.drv limit)
    (hpages : old.size = 0 ∨ old.pageSize ∣ bs) (s : IoThreadVars) :
    Triple (fun sys => ThreadWriteInv m oid old bs total s sys.store)
      (ioThreadWriteRound env th bs total s)
      (Sum.elim (fun s' sys => s'.blockCount < s.blockCount ∧
          ThreadWriteInv m oid old bs total s' sys.store)
        (ThreadWriteExit env m oid old bs total))
      (fun sys => env.Rough ∧ CopyLeft m oid sys.store) := by
  refine triple_of_store fun m₁ hinv => ?_
  rw [ioThreadWriteRound]
  by_cases hzero : s.blockCount = 0
  · rw [if_pos hzero]
    exact Triple.pure fun t ht => Or.inl ⟨by rw [show t.store = m₁ from ht]; exact hinv, hzero⟩
  rw [if_neg hzero]
  have hn : 0 < s.blockCount := Nat.pos_of_ne_zero hzero
  have hcount : (if s.blockCount > mioCmdMaxBlockCountPerOp then mioCmdMaxBlockCountPerOp
      else s.blockCount) = min s.blockCount mioCmdMaxBlockCountPerOp := by
    split
    · omega
    · omega
  simp only [hcount]
  obtain ⟨e₀, hon₀, -⟩ := hinv.target.dst
  have hleft : ∀ {t : Sys}, At m₁ t → CopyLeft m oid t.store := fun {t} ht => by
    rw [show t.store = m₁ from ht]
    exact hinv.target.left
  -- the buffers
  refine Triple.bind ((triple_objAllocIovecs hfit s.lastIndex
    (Nat.min_le_right s.blockCount _)).consequence (fun _ ht => ht) (fun _ _ hq => hq)
    fun _ ht => ht.imp id hleft) ?_
  rintro ⟨rc, data⟩
  refine Triple.of_fact fun hdata => ?_
  rcases hdata with hneg | ⟨rfl, base, rfl⟩
  · rw [if_pos hneg.1.ne]
    exact Triple.pure fun t ht => Or.inr ⟨hneg, hleft ht, hinv.target.moId, hon₀.hints⟩
  rw [if_neg (by simp)]
  have hlength : (objIovecs base (min s.blockCount mioCmdMaxBlockCountPerOp) bs s.lastIndex
      total).length = min s.blockCount mioCmdMaxBlockCountPerOp := by simp [objIovecs]
  -- the data
  refine Triple.bind ((triple_ioThreadGenerateData _ base s.mem s.md5Ctx fun j v hv => by
    rw [(hinv.pos.fullBlock hfit hn hv).2]).consequence (fun _ ht => ht) (fun _ _ hq => hq)
    fun _ hf => hf.elim) ?_
  rintro ⟨mem, ctx⟩
  refine Triple.of_fact fun hgen => ?_
  obtain ⟨new, rfl, hnewlen, hnew, -⟩ := hgen
  rw [hlength] at hnewlen hnew
  simp only at hnew ⊢
  have hfill : ∀ v ∈ objIovecs base (min s.blockCount mioCmdMaxBlockCountPerOp) bs s.lastIndex
      total, ∀ i < v.miovLen, mem (v.miovBase + i) = byteAt (s.md5Ctx ++ new) (v.miovOff + i) := by
    intro v hv i hi
    obtain ⟨j, hj⟩ := List.mem_iff_getElem?.mp hv
    obtain ⟨hlt, rfl⟩ := hinv.pos.fullBlock hfit hn hj
    have hle : (j + 1) * bs ≤ min s.blockCount mioCmdMaxBlockCountPerOp * bs :=
      Nat.mul_le_mul_right bs hlt
    rw [Nat.succ_mul] at hle
    simp only at hi ⊢
    rw [← hinv.length, Nat.add_assoc, Nat.add_assoc, byteAt_append_right, hnew _ (by omega)]
  have htarget : TargetInv m oid (byteAt (s.md5Ctx ++ new)) total old s.lastIndex s.obj m₁ :=
    hinv.target.congr fun x hx => (byteAt_append_left (by rw [hinv.length]; omega)).symm
  -- the write
  refine Triple.bind (triple_writeBlocks htarget hinv.pos hfit hdst hpages hn hfill) ?_
  rintro ⟨rc, obj⟩
  refine Triple.of_start fun t hwrite => ?_
  obtain ⟨hleft', -, hid, hhints, hdone⟩ := hwrite
  simp only at hid hhints hdone
  rcases hdone with hneg | ⟨rfl, htarget'⟩
  · rw [if_pos hneg.1.ne]
    exact Triple.pure fun u hu => Or.inr ⟨hneg, hu ▸ hleft', hid, hhints⟩
  rw [if_neg (by simp)]
  obtain ⟨hnext, hpos⟩ := hinv.pos.next32 hfit hn htotal
  rw [hnext]
  have hkpos : 0 < min s.blockCount mioCmdMaxBlockCountPerOp := Nat.lt_min.mpr ⟨hn, by decide⟩
  refine Triple.pure fun u hu => ⟨Nat.sub_lt hn hkpos, ?_⟩
  subst hu
  exact ⟨rfl, hpos, by rw [List.length_append, hinv.length, hnewlen], htarget'⟩

/-- What a write has returned. -/
def ThreadWritten (env : Env) (th : IoThreadEnv) (m : MotrStore) (oid : MioObjId)
    (old : ObjContent) (total : ℕ) (r : ℤ × ObjHandle × Md5sum) (m' : MotrStore) : Prop :=
  CopyLeft m oid m' ∧ r.2.1.moId = oid ∧ r.2.1.obj.HintsOk ∧ ((r.1 < 0 ∧ env.Rough) ∨
    r.1 = 0 ∧ ∃ bytes, bytes.length = total ∧ r.2.2 = th.md5 bytes ∧
      r.2.1.obj.size = max old.size total ∧ m'.Holds oid (old.written total (byteAt bytes)))

/-- **A write of random data**: if it succeeds, then what has been written is what the digest
is of. -/
theorem triple_ioThreadObjWrite {limit bc : ℕ} {h : ObjHandle} {m₁ : MotrStore}
    (hfit : BlocksFit bs (bs * bc)) (htotal : bs * bc < 2 ^ 32) (hcount : 0 < bc)
    (hdst : DrvFits env.conf old.drv limit) (hpages : old.size = 0 ∨ old.pageSize ∣ bs)
    (hto : ∀ src, TargetInv m oid src (bs * bc) old 0 h m₁) :
    Triple (At m₁) (ioThreadObjWrite env th h bs bc)
      (fun r s => ThreadWritten env th m oid old (bs * bc) r s.store)
      (fun s => env.Rough ∧ CopyLeft m oid s.store) := by
  have hbs := hfit.pos
  have hstart : CopyAt (bs * bc) (bs * bc) bs bc 0 := .startFull hbs hcount
  rw [ioThreadObjWrite, u32, Nat.mod_eq_of_lt htotal]
  refine Triple.bind ((Triple.repeatN
    (fun v (sys : Sys) => ThreadWriteInv m oid old bs (bs * bc) v sys.store)
    IoThreadVars.blockCount (triple_ioThreadWriteRound hfit htotal hdst hpages) (bc + 1)
    ⟨0, bc, 0, h, fun _ => 0, []⟩ (Nat.lt_succ_self _)).consequence ?_ (fun _ _ hq => hq)
    fun _ hs => hs) ?_
  · intro s hs
    rw [show s.store = m₁ from hs]
    exact ⟨rfl, hstart, rfl, hto _⟩
  intro v
  refine Triple.pure fun s hexit => ?_
  rcases hexit with ⟨hinv, hzero⟩ | ⟨hneg, hleft, hid, hhints⟩
  · have hblocks := hinv.pos.blocks
    rw [hzero, Nat.zero_mul, Nat.add_zero] at hblocks
    obtain ⟨e, hon, -⟩ := hinv.target.dst
    have hpos : 0 < min v.lastIndex (bs * bc) := by
      rw [hblocks, Nat.min_self]
      exact Nat.mul_pos hbs hcount
    have hheld := hinv.target.holds hpos
    have hsize := hinv.target.size
    rw [hblocks, Nat.min_self] at hheld hsize
    exact ⟨hinv.target.left, hinv.target.moId, hon.hints, Or.inr ⟨hinv.rc, v.md5Ctx,
      hinv.length.trans hblocks, rfl, hsize, hheld⟩⟩
  · exact ⟨hleft, hid, hhints, Or.inl hneg⟩

end Write

/-! ### Reading -/

section Read

variable {env} {th} {m : MotrStore} {oid : MioObjId} {c : ObjContent} {bs total : ℕ}

/-- What goes into the digest of the buffers of a read. -/
theorem flatMap_memBytes {base bsize : ℕ} {data : List (MioIovec ℕ)} (mem : ℕ → Byte)
    (hdata : InBuffers base bsize data) :
    data.flatMap (fun v => memBytes mem v.miovBase bsize) =
      memBytes mem base (data.length * bsize) := by
  induction data generalizing base with
  | nil => simp [memBytes]
  | cons v data ih =>
    have hv : v.miovBase = base := by
      have := hdata 0 v rfl
      simpa using this
    have hrest : InBuffers (base + bsize) bsize data := fun j w hw => by
      have := hdata (j + 1) w (by simpa using hw)
      rw [this, Nat.succ_mul]
      omega
    rw [List.flatMap_cons, ih hrest, hv, List.length_cons, Nat.succ_mul,
      Nat.add_comm (data.length * bsize) bsize,
      memBytes, memBytes, memBytes, List.range_add, List.map_append, List.map_map]
    congr 1
    refine List.map_congr_left fun i _ => ?_
    simp only [Function.comp_apply, Nat.add_assoc]

/-- The invariant of the loop of a read: what has gone into the digest is what the object
begins with. -/
structure ThreadReadInv (oid : MioObjId) (c : ObjContent) (bs total : ℕ) (s : IoThreadVars)
    (m : MotrStore) : Prop where
  /-- Nothing has failed. -/
  rc : s.rc = 0
  /-- How far it has come. -/
  pos : CopyAt total total bs s.blockCount s.lastIndex
  /-- The handle. -/
  moId : s.obj.moId = oid
  /-- Its size. -/
  size : s.obj.obj.size = c.size
  /-- The object. -/
  src : ∃ e, s.obj.On m e ∧ e.drv = c.drv ∧ ∀ x < c.size, e.bytes x = c.bytes x
  /-- What has gone into the digest. -/
  digest : s.md5Ctx = memBytes c.bytes 0 s.lastIndex

/-- How a read leaves its loop: all blocks have been read, or something has failed. -/
structure ThreadReadExit (env : Env) (oid : MioObjId) (c : ObjContent) (total : ℕ)
    (s : IoThreadVars) : Prop where
  /-- The handle. -/
  moId : s.obj.moId = oid
  /-- Its size. -/
  size : s.obj.obj.size = c.size
  /-- Its hints. -/
  hints : s.obj.obj.HintsOk
  /-- What has gone into the digest. -/
  digest : (s.rc < 0 ∧ env.Rough) ∨ s.rc = 0 ∧ s.md5Ctx = memBytes c.bytes 0 total

/-- **A round of a read.** -/
theorem triple_ioThreadReadRound {limit : ℕ} (hfit : BlocksFit bs total)
    (htotal : total < 2 ^ 32) (hsize : total ≤ c.size) (hsrc : DrvFits env.conf c.drv limit)
    (s : IoThreadVars) :
    Triple (fun sys => ThreadReadInv oid c bs total s m ∧ At m sys)
      (ioThreadReadRound env bs total s)
      (Sum.elim (fun s' sys => s'.blockCount < s.blockCount ∧
          ThreadReadInv oid c bs total s' m ∧ At m sys)
        (fun s' sys => ThreadReadExit env oid c total s' ∧ At m sys))
      (fun sys => env.Rough ∧ At m sys) := by
  refine Triple.of_fact fun hinv => ?_
  obtain ⟨e, hon, hdrv, hbytes⟩ := hinv.src
  have hblocks := hinv.pos.blocks
  rw [ioThreadReadRound]
  by_cases hzero : s.blockCount = 0
  · rw [if_pos hzero]
    rw [hzero, Nat.zero_mul, Nat.add_zero] at hblocks
    exact Triple.pure fun t ht => ⟨⟨hinv.moId, hinv.size, hon.hints,
      Or.inr ⟨hinv.rc, by rw [hinv.digest, hblocks]⟩⟩, ht⟩
  rw [if_neg hzero]
  have hn : 0 < s.blockCount := Nat.pos_of_ne_zero hzero
  have hcount : (if s.blockCount > mioCmdMaxBlockCountPerOp then mioCmdMaxBlockCountPerOp
      else s.blockCount) = min s.blockCount mioCmdMaxBlockCountPerOp := by
    split
    · omega
    · omega
  simp only [hcount]
  -- the buffers
  refine Triple.bind (triple_objAllocIovecs hfit s.lastIndex (Nat.min_le_right s.blockCount _)) ?_
  rintro ⟨rc, data⟩
  refine Triple.of_fact fun hdata => ?_
  rcases hdata with hneg | ⟨rfl, base, rfl⟩
  · rw [if_pos hneg.1.ne]
    exact Triple.pure fun t ht => ⟨⟨hinv.moId, hinv.size, hon.hints, Or.inl hneg⟩, ht⟩
  rw [if_neg (by simp)]
  have hstretch := hinv.pos.stretch hfit hn base
  -- the read
  have hfits : DrvFits env.conf e.drv limit := by rwa [hdrv]
  refine Triple.bind (triple_readv hon hfits s.mem hstretch.ok hstretch.bufApart
    hstretch.ne_nil) ?_
  rintro ⟨rc, obj, mem⟩
  refine Triple.of_fact fun hread => ?_
  obtain ⟨⟨now, hobj⟩, hfilled⟩ := hread
  simp only at hobj hfilled
  have hon' : obj.On m e := by rw [hobj]; exact hon.stats false now _
  have hid : obj.moId = oid := by rw [hobj]; exact hinv.moId
  have hsize' : obj.obj.size = c.size := by rw [hobj]; exact hinv.size
  rcases hfilled with hneg | ⟨rfl, hfill, -⟩
  · rw [if_pos hneg.1.ne]
    exact Triple.pure fun t ht => ⟨⟨hid, hsize', hon'.hints, Or.inl hneg⟩, ht⟩
  rw [if_neg (by simp)]
  obtain ⟨hnext, hpos⟩ := hinv.pos.next32 hfit hn htotal
  rw [hnext]
  have hkpos : 0 < min s.blockCount mioCmdMaxBlockCountPerOp := Nat.lt_min.mpr ⟨hn, by decide⟩
  refine Triple.pure fun t ht => ⟨Nat.sub_lt hn hkpos,
    ⟨rfl, hpos, hid, hsize', ⟨e, hon', hdrv, hbytes⟩, ?_⟩, ht⟩
  -- what goes into the digest
  have hlength : (objIovecs base (min s.blockCount mioCmdMaxBlockCountPerOp) bs s.lastIndex
      total).length = min s.blockCount mioCmdMaxBlockCountPerOp := by simp [objIovecs]
  have hbase : InBuffers base bs (objIovecs base (min s.blockCount mioCmdMaxBlockCountPerOp) bs
      s.lastIndex total) := fun j v hv => by rw [(hinv.pos.fullBlock hfit hn hv).2]
  simp only
  rw [flatMap_memBytes mem hbase, hlength, hinv.digest, memBytes, memBytes, memBytes,
    List.range_add, List.map_append, List.map_map]
  congr 1
  refine List.map_congr_left fun i hi => ?_
  rw [List.mem_range] at hi
  -- the block that the byte is in
  have hbs := hfit.pos
  have hdiv := Nat.div_add_mod i bs
  have hmod := Nat.mod_lt i hbs
  rw [Nat.mul_comm] at hdiv
  have hj : i / bs < min s.blockCount mioCmdMaxBlockCountPerOp := by
    rwa [Nat.div_lt_iff_lt_mul hbs]
  have hget := List.getElem?_eq_getElem (lt_of_lt_of_eq hj hlength.symm)
  have hv := (hinv.pos.fullBlock hfit hn hget).2
  have hmem := List.getElem_mem (lt_of_lt_of_eq hj hlength.symm)
  have hbyte := hfill _ hmem (i % bs) (by rw [hv]; exact hmod)
  rw [hv] at hbyte
  simp only at hbyte
  have hle : min s.blockCount mioCmdMaxBlockCountPerOp * bs ≤ s.blockCount * bs :=
    Nat.mul_le_mul_right bs (Nat.min_le_left _ _)
  rw [Nat.add_assoc, Nat.add_assoc, hdiv, hbytes _ (by omega)] at hbyte
  simpa using hbyte

/-- **A read takes the digest** of what the object begins with. -/
theorem triple_ioThreadObjRead {limit bc : ℕ} {h : ObjHandle} {e : M0Entity}
    (hfit : BlocksFit bs (bs * bc)) (htotal : bs * bc < 2 ^ 32) (hcount : 0 < bc)
    (hsize : bs * bc ≤ c.size) (hsrc : DrvFits env.conf c.drv limit) (hid : h.moId = oid)
    (hhandle : h.obj.size = c.size) (hon : h.On m e) (hdrv : e.drv = c.drv)
    (hbytes : ∀ x < c.size, e.bytes x = c.bytes x) :
    Triple (At m) (ioThreadObjRead env th h bs bc)
      (fun r s => (r.2.1.moId = oid ∧ r.2.1.obj.size = c.size ∧ r.2.1.obj.HintsOk ∧
        ((r.1 < 0 ∧ env.Rough) ∨
          r.1 = 0 ∧ r.2.2 = th.md5 (memBytes c.bytes 0 (bs * bc)))) ∧ At m s)
      (fun s => env.Rough ∧ At m s) := by
  have hstart : CopyAt (bs * bc) (bs * bc) bs bc 0 := .startFull hfit.pos hcount
  rw [ioThreadObjRead, u32, Nat.mod_eq_of_lt htotal]
  refine Triple.bind ((Triple.repeatN
    (fun v (sys : Sys) => ThreadReadInv oid c bs (bs * bc) v m ∧ At m sys)
    IoThreadVars.blockCount (triple_ioThreadReadRound hfit htotal hsize hsrc) (bc + 1)
    ⟨0, bc, 0, h, fun _ => 0, []⟩ (Nat.lt_succ_self _)).consequence (fun s hs =>
      ⟨⟨rfl, hstart, hid, hhandle, ⟨e, hon, hdrv, hbytes⟩, rfl⟩, hs⟩) (fun _ _ hq => hq)
    fun _ hs => hs) fun v => ?_
  refine Triple.of_fact fun hexit => Triple.pure fun s hs => ⟨⟨hexit.moId, hexit.size,
    hexit.hints, ?_⟩, hs⟩
  exact hexit.digest.imp id fun h => ⟨h.1, by rw [h.2]⟩

end Read

end CortxMio
