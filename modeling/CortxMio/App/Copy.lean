import CortxMio.App.Blocks
import CortxMio.Pool.Hotness

/-!
# Copying an object

`mio_cmd_obj_copy` of the example programs: the source is opened, the target is opened or
created, and the blocks go through a buffer one op after the other. Whatever fails, the
source keeps its content and no third object is touched; and if the copy succeeds, the
target has the content of the source, and beyond it what it had before
(`CortxMio.triple_copy`).
-/

namespace CortxMio

open Lib

/-- `struct mio_cmd_obj_hint`. -/
structure MioCmdObjHint where
  /-- `co_hkey`. -/
  coHkey : Int32
  /-- `co_hvalue`. -/
  coHvalue : UInt64
  deriving DecidableEq, Repr

/-- What the pool of a new object is chosen by. -/
structure PoolConf where
  /-- The hints of the system. -/
  sysHints : MioHintMap
  /-- The configuration file. -/
  statics : ConfStatics

variable (env : Env) (pc : PoolConf)

/-! ### Single calls -/

/-- The hints that `obj_do_create` makes of the one given. -/
def chintHints (chint : Option MioCmdObjHint) : Except Fault (Option MioHintMap) :=
  match chint with
  | none => .ok none
  | some chint =>
      (mioHintMapSet (mioHintMapInit mioObjHintNum) chint.coHkey chint.coHvalue).map some

/-- `obj_do_create`. -/
def objDoCreate (pool : Option MioPoolId) (oid : MioObjId) (chint : Option MioCmdObjHint) :
    StoreM (ℤ × ObjHandle) :=
  match chintHints chint with
  | .ok hints => do
      let selected ← returns (objCreatePoolId pc.sysHints pc.statics pool hints)
      mioObjCreateOp env selected oid
  | .error (.err rc) => pure (rc, ⟨oid, env.motrPool, objInit (env.geometry env.motrPool)⟩)
  | .error f => throw (.fault f)

/-- `obj_open_or_create`. -/
def objOpenOrCreate (pool : Option MioPoolId) (oid : MioObjId) (chint : Option MioCmdObjHint) :
    StoreM (ℤ × ObjHandle) := do
  let (rc, h) ← mioObjOpenOp env oid
  if rc = -ENOENT then objDoCreate env pc pool oid chint
  else pure (rc, h)

/-! ### The loop -/

/-- The variables of `mio_cmd_obj_copy`. -/
structure CopyVars where
  /-- `rc`. -/
  rc : ℤ
  /-- `block_count`. -/
  blockCount : ℕ
  /-- `last_index`. -/
  lastIndex : ℕ
  /-- `from_obj`. -/
  fromObj : ObjHandle
  /-- `to_obj`. -/
  toObj : ObjHandle
  /-- Memory. -/
  mem : ℕ → Byte

/-- One round of the loop of `mio_cmd_obj_copy`. -/
def copyRound (blockSize maxIndex : ℕ) (s : CopyVars) : StoreM (CopyVars ⊕ CopyVars) :=
  if s.blockCount = 0 then pure (.inr s)
  else do
    let bcount := if s.blockCount > mioCmdMaxBlockCountPerOp then mioCmdMaxBlockCountPerOp
      else s.blockCount
    let (rc, data) ← objAllocIovecs env bcount blockSize s.lastIndex maxIndex
    if rc ≠ 0 then pure (.inr { s with rc := rc })
    else
      let (rc, fromObj, mem) ← mioObjReadvOp env s.fromObj s.mem data
      if rc ≠ 0 then pure (.inr { s with rc := rc, fromObj := fromObj, mem := mem })
      else
        let (rc, toObj) ← mioObjWritevOp env s.toObj mem data
        if rc ≠ 0 then
          pure (.inr { s with rc := rc, fromObj := fromObj, toObj := toObj, mem := mem })
        else pure (.inl
          ⟨rc, s.blockCount - bcount, u64 (s.lastIndex + u64 (bcount * blockSize)), fromObj,
            toObj, mem⟩)

/-- `mio_cmd_obj_copy`. -/
def mioCmdObjCopy (fromOid : MioObjId) (toPool : Option MioPoolId) (toOid : MioObjId)
    (blockSize : ℕ) (chint : Option MioCmdObjHint) : StoreM ℤ := do
  let (rc, fromObj) ← mioObjOpenOp env fromOid
  if rc < 0 then
    mioObjCloseOp env fromObj
    pure rc
  else if blockSize = 0 then throw (.fault .divByZero)
  else
    let maxIndex := fromObj.obj.size
    let blockCount := objBlockCount maxIndex blockSize
    let (rc, toObj) ← objOpenOrCreate env pc toPool toOid chint
    if rc < 0 then
      mioObjCloseOp env fromObj
      pure rc
    else
      let s ← repeatN (.fault .diverge) (copyRound env blockSize maxIndex) (blockCount + 1)
        ⟨rc, blockCount, 0, fromObj, toObj, fun _ => 0⟩
      mioObjCloseOp env s.toObj
      mioObjCloseOp env s.fromObj
      pure s.rc

/-! ### Contents -/

/-- What there is to an object. -/
structure ObjContent where
  /-- Its pool. -/
  pool : MioPoolId
  /-- Its geometry. -/
  drv : M0Obj
  /-- Its size. -/
  size : ℕ
  /-- Its bytes, of which those below the size count. -/
  bytes : ℕ → Byte

/-- The page size of the object. -/
def ObjContent.pageSize (c : ObjContent) : ℕ := motrObjIoPagesize (.zeroed c.drv)

/-- A new object. -/
def ObjContent.empty (pool : MioPoolId) : ObjContent := ⟨pool, env.geometry pool, 0, fun _ => 0⟩

/-- The object with bytes written over its start. -/
def ObjContent.written (old : ObjContent) (n : ℕ) (bytes : ℕ → Byte) : ObjContent :=
  { old with
    size := max old.size n
    bytes := fun x => if x < n then bytes x else old.bytes x }

/-- The first object with the second copied over it. -/
def ObjContent.overlay (old c : ObjContent) : ObjContent := old.written c.size c.bytes

/-- The object is there, with this content, and with a sound record. -/
structure MotrStore.Holds (m : MotrStore) (oid : MioObjId) (c : ObjContent) : Prop where
  /-- The object. -/
  entity : ∃ e, m.entities oid = some e ∧ e.pool = c.pool ∧ e.drv = c.drv ∧
    ∀ x < c.size, e.bytes x = c.bytes x
  /-- The size in the record. -/
  size : storedSize (m.attrs oid) = c.size
  /-- The record. -/
  record : RecordOk (m.attrs oid)

/-- The two stores differ at two objects at most. -/
def MotrStore.OnlyAt₂ (oid oid' : MioObjId) (m m' : MotrStore) : Prop :=
  ∀ o, o ≠ oid → o ≠ oid' → m.SameAt m' o

section Holds

variable {m m' : MotrStore} {oid o : MioObjId} {c : ObjContent}

theorem MotrStore.Holds.same (h : m.Holds oid c) (hsame : m.SameAt m' oid) : m'.Holds oid c :=
  ⟨by rw [hsame.1]; exact h.entity, by rw [hsame.2]; exact h.size, by rw [hsame.2]; exact h.record⟩

/-- Closing changes one record. -/
theorem Closed.onlyAt {h : ObjHandle} (hc : Closed m h m') : m.OnlyAt h.moId m' := by
  rcases hc with rfl | ⟨src, -, -, rfl⟩
  · exact .refl _ _
  · exact m.onlyAt_setAttrs _ _

/-- Deleting changes one object. -/
theorem Deleted.onlyAt (hdel : Deleted m oid m') : m.OnlyAt oid m' := by
  rcases hdel with rfl | rfl | rfl
  · exact .refl _ _
  · exact m.onlyAt_setEntity _ _
  · exact (m.onlyAt_setEntity _ _).trans (MotrStore.onlyAt_setAttrs _ _ _)

/-- Closing a handle with the right size leaves the content as it is. -/
theorem MotrStore.Holds.closed {h : ObjHandle} (hold : m.Holds h.moId c)
    (hsize : h.obj.size = c.size) (hc : Closed m h m') : m'.Holds h.moId c := by
  rcases hc with rfl | ⟨src, hsrc, hsrcsize, rfl⟩
  · exact hold
  · refine ⟨hold.entity, ?_, ?_⟩
    · rw [MotrStore.attrs_setAttrs, storedSize_mem2wire, hsrcsize, hsize]
    · rw [MotrStore.attrs_setAttrs]
      exact recordOk_mem2wire hsrc

/-- Closing leaves a sound record. -/
theorem Closed.recordOk {h : ObjHandle} (hrec : RecordOk (m.attrs h.moId))
    (hc : Closed m h m') : RecordOk (m'.attrs h.moId) := by
  rcases hc with rfl | ⟨src, hsrc, -, rfl⟩
  · exact hrec
  · rw [MotrStore.attrs_setAttrs]
    exact recordOk_mem2wire hsrc

end Holds

/-! ### The target of a copy -/

/-- How far a copy has come: `n` blocks are to be copied from `idx` on, and they end at
`stop`. -/
structure CopyAt (stop maxIndex bs n idx : ℕ) : Prop where
  /-- Whole blocks have been copied. -/
  dvd : bs ∣ idx
  /-- The blocks that are left. -/
  blocks : idx + n * bs = stop
  /-- Each of them starts below the size. -/
  starts : 0 < n → idx + (n - 1) * bs < maxIndex

/-- What a copy that is not finished leaves behind. -/
structure CopyLeft (m : MotrStore) (toOid : MioObjId) (m' : MotrStore) : Prop where
  /-- The target is all that has changed. -/
  only : m.OnlyAt toOid m'
  /-- Its record is sound. -/
  record : RecordOk (m'.attrs toOid)

/-- The target of a copy, after the bytes of `src` below `idx` have been copied to it. -/
structure TargetInv (m : MotrStore) (toOid : MioObjId) (src : ℕ → Byte) (maxIndex : ℕ)
    (old : ObjContent) (idx : ℕ) (h : ObjHandle) (m' : MotrStore) : Prop where
  /-- Nothing else has changed. -/
  left : CopyLeft m toOid m'
  /-- The handle. -/
  moId : h.moId = toOid
  /-- The bytes. -/
  dst : ∃ e, h.On m' e ∧ e.pool = old.pool ∧ e.drv = old.drv ∧
    ∀ x < h.obj.size, e.bytes x = if x < min idx maxIndex then src x else old.bytes x
  /-- The size. -/
  size : h.obj.size = max old.size (min idx maxIndex)
  /-- The size in its record. -/
  stored : storedSize (m'.attrs toOid) = h.obj.size ∨ idx = 0 ∧ old.size = 0

section Target

variable {env} {m : MotrStore} {toOid : MioObjId} {src : ℕ → Byte} {maxIndex stop bs n idx : ℕ}
  {old : ObjContent} {h : ObjHandle} {m' : MotrStore}

/-- The next blocks. -/
theorem CopyAt.stretch (hat : CopyAt stop maxIndex bs n idx) (hfit : BlocksFit bs maxIndex)
    (hn : 0 < n) (base : ℕ) :
    Stretch (objIovecs base (min n mioCmdMaxBlockCountPerOp) bs idx maxIndex) idx
      (min (idx + min n mioCmdMaxBlockCountPerOp * bs) maxIndex) := by
  refine stretch_objIovecs hfit base (Nat.lt_min.mpr ⟨hn, by decide⟩) (Nat.min_le_right _ _) ?_
  have h1 := hat.starts hn
  have h2 : (min n mioCmdMaxBlockCountPerOp - 1) * bs ≤ (n - 1) * bs :=
    Nat.mul_le_mul_right _ (by omega)
  omega

/-- The position after the next blocks. -/
theorem CopyAt.next (hat : CopyAt stop maxIndex bs n idx) (hfit : BlocksFit bs maxIndex)
    (hn : 0 < n) :
    u64 (idx + u64 (min n mioCmdMaxBlockCountPerOp * bs)) =
        idx + min n mioCmdMaxBlockCountPerOp * bs ∧
      CopyAt stop maxIndex bs (n - min n mioCmdMaxBlockCountPerOp)
        (idx + min n mioCmdMaxBlockCountPerOp * bs) := by
  obtain ⟨k, hk⟩ : ∃ k, k = min n mioCmdMaxBlockCountPerOp := ⟨_, rfl⟩
  have hkpos : 0 < k := by
    rw [hk]
    exact Nat.lt_min.mpr ⟨hn, by decide⟩
  rw [← hk]
  have hstop := hfit.stop
  have hbuffer := hfit.buffer
  have h1 := hat.starts hn
  have h2 : (k - 1) * bs ≤ (n - 1) * bs := Nat.mul_le_mul_right _ (by omega)
  have h3 : k * bs = (k - 1) * bs + bs := by rw [← Nat.succ_mul]; congr 1; omega
  have h4 : n * bs = k * bs + (n - k) * bs := by rw [← Nat.add_mul]; congr 1; omega
  refine ⟨?_, Nat.dvd_add hat.dvd (Nat.dvd_mul_left _ _), ?_, fun hpos => ?_⟩
  · rw [u64_of_lt (n := k * bs) (by omega), u64_of_lt (by omega)]
  · have h5 := hat.blocks
    omega
  · have h5 : (n - 1) * bs = k * bs + (n - k - 1) * bs := by
      rw [← Nat.add_mul]
      congr 1
      omega
    omega

/-- The position a copy of the whole starts at. -/
theorem CopyAt.start (hfit : BlocksFit bs maxIndex) (hpos : 0 < maxIndex)
    (hn : n ≤ objBlockCount maxIndex bs) : CopyAt (n * bs) maxIndex bs n 0 := by
  rw [objBlockCount_eq hfit hpos] at hn
  refine ⟨Nat.dvd_zero _, Nat.zero_add _, fun _ => ?_⟩
  have hle : (n - 1) * bs ≤ (maxIndex - 1) / bs * bs := Nat.mul_le_mul_right _ (by omega)
  have hdiv := Nat.div_mul_le_self (maxIndex - 1) bs
  omega

/-- All blocks together have all bytes. -/
theorem le_objBlockCount_mul (hfit : BlocksFit bs maxIndex) (hpos : 0 < maxIndex) :
    maxIndex ≤ objBlockCount maxIndex bs * bs := by
  have hdiv := Nat.lt_div_mul_add (a := maxIndex - 1) hfit.pos
  rw [objBlockCount_eq hfit hpos, Nat.add_mul, Nat.one_mul]
  omega

/-- Closing the target. -/
theorem CopyLeft.closed {m'' : MotrStore} (hleft : CopyLeft m toOid m')
    (hid : h.moId = toOid) (hc : Closed m' h m'') : CopyLeft m toOid m'' := by
  subst hid
  exact ⟨hleft.only.trans hc.onlyAt, hc.recordOk hleft.record⟩

/-- At most one page of the target has to be read before the next blocks are written. -/
theorem TargetInv.length_rbwPages_le (hinv : TargetInv m toOid src maxIndex old idx h m')
    (hat : CopyAt stop maxIndex bs n idx) (hfit : BlocksFit bs maxIndex)
    (hpages : old.size = 0 ∨ old.pageSize ∣ bs) (hn : 0 < n) (base : ℕ) :
    (rbwPages (motrObjIoPagesize h.obj) h.obj.size
      (objIovecs base (min n mioCmdMaxBlockCountPerOp) bs idx maxIndex)).length ≤ 1 := by
  refine (hat.stretch hfit hn base).length_rbwPages_le ?_
  have h1 := hat.starts hn
  rcases hpages with hzero | hdvd
  · left
    rw [hinv.size, hzero]
    omega
  · right
    obtain ⟨e, hon, -, hdrv, -⟩ := hinv.dst
    have hps : motrObjIoPagesize h.obj = old.pageSize :=
      motrObjIoPagesize_congr (hon.drv.trans hdrv)
    have h2 : (min n mioCmdMaxBlockCountPerOp - 1) * bs ≤ (n - 1) * bs :=
      Nat.mul_le_mul_right _ (by omega)
    rw [hps]
    exact dvd_objIovecs hfit (Nat.min_le_right _ _) (by omega) hdvd (hdvd.trans hat.dvd)

/-- **When all has been copied**, the target has it over what it had. -/
theorem TargetInv.holds (hinv : TargetInv m toOid src maxIndex old idx h m')
    (hpos : 0 < min idx maxIndex) : m'.Holds toOid (old.written (min idx maxIndex) src) := by
  obtain ⟨e, hon, hpool, hdrv, hbytes⟩ := hinv.dst
  refine ⟨⟨e, ?_, hpool, hdrv, fun x hx => hbytes x (by rw [hinv.size]; exact hx)⟩, ?_,
    hinv.left.record⟩
  · rw [← hinv.moId]
    exact hon.entity
  · rcases hinv.stored with hstored | ⟨hidx, -⟩
    · rw [hstored, hinv.size]
      rfl
    · rw [hidx, Nat.zero_min] at hpos
      exact absurd hpos (lt_irrefl _)

/-- **The next blocks are written** from buffers that hold them. -/
theorem triple_writeBlocks {limit base : ℕ} {mem : ℕ → Byte}
    (hinv : TargetInv m toOid src maxIndex old idx h m') (hat : CopyAt stop maxIndex bs n idx)
    (hfit : BlocksFit bs maxIndex) (hdst : DrvFits env.conf old.drv limit)
    (hpages : old.size = 0 ∨ old.pageSize ∣ bs) (hn : 0 < n)
    (hfill : ∀ v ∈ objIovecs base (min n mioCmdMaxBlockCountPerOp) bs idx maxIndex,
      ∀ i < v.miovLen, mem (v.miovBase + i) = src (v.miovOff + i)) :
    Triple (At m')
      (mioObjWritevOp env h mem (objIovecs base (min n mioCmdMaxBlockCountPerOp) bs idx maxIndex))
      (fun r s => CopyLeft m toOid s.store ∧ m'.OnlyAt toOid s.store ∧ r.2.moId = toOid ∧
        r.2.obj.HintsOk ∧ ((r.1 < 0 ∧ env.Rough) ∨ r.1 = 0 ∧
          TargetInv m toOid src maxIndex old (idx + min n mioCmdMaxBlockCountPerOp * bs) r.2
            s.store))
      (fun s => env.Rough ∧ CopyLeft m toOid s.store) := by
  have hstretch := hat.stretch hfit hn base
  obtain ⟨e, hto, hpool, hdrv, hbytes⟩ := hinv.dst
  have hid := hinv.moId
  have hfits : DrvFits env.conf e.drv limit := by rwa [hdrv]
  have hpage : motrObjIoPagesize h.obj ≤ limit := hfits.page hto.drv
  have hleft : ∀ {cl : Cluster} {t : MotrStore}, RecordOk cl.attrs → t = m'.setCluster toOid e cl →
      CopyLeft m toOid t := by
    rintro cl t hrec rfl
    refine ⟨hinv.left.only.trans (m'.onlyAt_setCluster _ _ _), ?_⟩
    rw [MotrStore.attrs_setCluster]
    exact hrec
  refine (triple_writev hto (by rw [hid]; exact hinv.left.record) hfits mem hstretch.ok
    hstretch.ne_nil ?_).consequence (fun _ ht => ht) ?_ ?_
  · have hone := hinv.length_rbwPages_le hat hfit hpages hn base
    calc _ ≤ 1 * motrObjIoPagesize h.obj := Nat.mul_le_mul_right _ hone
      _ ≤ limit := by omega
  · rintro ⟨rc, toObj⟩ t hwrite
    obtain ⟨hid', cl, hrec, hstore, hto', hdone⟩ := hwrite
    have hstore : t.store = m'.setCluster h.moId e cl := hstore
    simp only at hid' hto' hdone
    rw [hid] at hstore
    refine ⟨hleft hrec hstore, ?_, hid'.trans hid, hto'.hints, hdone.imp id ?_⟩
    · rw [hstore]
      exact m'.onlyAt_setCluster _ _ _
    rintro ⟨rfl, hback⟩
    -- what has been copied now
    obtain ⟨last, hlast⟩ : ∃ last,
      last = min (idx + min n mioCmdMaxBlockCountPerOp * bs) maxIndex := ⟨_, rfl⟩
    rw [← hlast] at hstretch
    have hlt := hstretch.lt
    have hold := hinv.size
    have hsize : toObj.obj.size = max old.size last := by
      rw [hback.size, hstretch.maxEnd_eq, hold]
      omega
    refine ⟨rfl, hleft hrec hstore, hid'.trans hid, ?_, by rw [← hlast]; exact hsize, Or.inl ?_⟩
    · refine ⟨_, hto', hpool, hdrv, fun x hx => ?_⟩
      simp only [hsize] at hx
      simp only [← hlast]
      have hcov : x < h.obj.size ∨
          CoversByte (objIovecs base (min n mioCmdMaxBlockCountPerOp) bs idx maxIndex) x := by
        rcases Nat.lt_or_ge x h.obj.size with hlt' | hge
        · exact Or.inl hlt'
        · exact Or.inr ((hstretch.covers x).mpr ⟨by omega, by omega⟩)
      rw [hback.bytes x hcov, hstretch.writeRanges_eq hfill]
      by_cases hin : idx ≤ x ∧ x < last
      · rw [if_pos hin, if_pos hin.2]
      · rw [if_neg hin, hbytes x (by omega)]
        by_cases hbelow : x < last
        · rw [if_pos (by omega), if_pos hbelow]
        · rw [if_neg (by omega), if_neg hbelow]
    · rw [hstore, MotrStore.attrs_setCluster]
      refine hback.stored ?_
      rw [hstretch.maxEnd_eq, hid]
      rcases hinv.stored with hstored | ⟨hidx, hzero⟩
      · exact Or.inl hstored
      · right
        omega
  · rintro t ⟨hrough, cl, hrec, ht⟩
    rw [hid] at ht
    exact ⟨hrough, hleft hrec ht⟩

end Target

/-! ### The loop, as long as it goes well -/

section Loop

variable {env} {m : MotrStore} {fromOid toOid : MioObjId} {c old : ObjContent} {bs stop : ℕ}

/-- The handles of a copy. -/
structure CopyHandles (fromOid toOid : MioObjId) (c : ObjContent) (s : CopyVars) : Prop where
  /-- The source. -/
  moIdFrom : s.fromObj.moId = fromOid
  /-- Its size. -/
  size : s.fromObj.obj.size = c.size
  /-- Its hints. -/
  hintsFrom : s.fromObj.obj.HintsOk
  /-- The target. -/
  moIdTo : s.toObj.moId = toOid
  /-- Its hints. -/
  hintsTo : s.toObj.obj.HintsOk

/-- The invariant of the loop: what has been copied is over what there was. -/
structure CopyInv (m : MotrStore) (fromOid toOid : MioObjId) (c old : ObjContent) (bs stop : ℕ)
    (s : CopyVars) (m' : MotrStore) : Prop where
  /-- Nothing has failed. -/
  rc : s.rc = 0
  /-- How far the copy has come. -/
  pos : CopyAt stop c.size bs s.blockCount s.lastIndex
  /-- The handles. -/
  handles : CopyHandles fromOid toOid c s
  /-- The source. -/
  src : ∃ e, s.fromObj.On m' e ∧ e.drv = c.drv ∧ ∀ x < c.size, e.bytes x = c.bytes x
  /-- The target. -/
  target : TargetInv m toOid c.bytes c.size old s.lastIndex s.toObj m'

/-- **When no blocks are left**, the target has the content of the source. -/
theorem CopyInv.copied {s : CopyVars} {m' : MotrStore}
    (h : CopyInv m fromOid toOid c old bs stop s m') (hpos : 0 < c.size) (hstop : c.size ≤ stop)
    (hzero : s.blockCount = 0) :
    m'.Holds toOid (old.overlay c) ∧ s.toObj.obj.size = (old.overlay c).size := by
  have hblocks := h.pos.blocks
  rw [hzero, Nat.zero_mul, Nat.add_zero] at hblocks
  have hmin : min s.lastIndex c.size = c.size := by omega
  have hholds := h.target.holds (by rw [hmin]; exact hpos)
  have hsize := h.target.size
  rw [hmin] at hholds hsize
  exact ⟨hholds, hsize⟩

/-- How a copy leaves its loop: all blocks have been copied, or something has failed. -/
def CopyExit (env : Env) (m : MotrStore) (fromOid toOid : MioObjId) (c old : ObjContent)
    (bs stop : ℕ) (s : CopyVars) (sys : Sys) : Prop :=
  (CopyInv m fromOid toOid c old bs stop s sys.store ∧ s.blockCount = 0) ∨
    (s.rc < 0 ∧ env.Rough) ∧ CopyLeft m toOid sys.store ∧ CopyHandles fromOid toOid c s

/-- **A round of the copy.** -/
theorem triple_copyRound {lf lt : ℕ} (hne : fromOid ≠ toOid) (hfit : BlocksFit bs c.size)
    (hsrc : DrvFits env.conf c.drv lf) (hdst : DrvFits env.conf old.drv lt)
    (hpages : old.size = 0 ∨ old.pageSize ∣ bs) (s : CopyVars) :
    Triple (fun sys => CopyInv m fromOid toOid c old bs stop s sys.store)
      (copyRound env bs c.size s)
      (Sum.elim (fun s' sys => s'.blockCount < s.blockCount ∧
          CopyInv m fromOid toOid c old bs stop s' sys.store)
        (CopyExit env m fromOid toOid c old bs stop))
      (fun sys => env.Rough ∧ CopyLeft m toOid sys.store) := by
  refine triple_of_store fun m₁ hinv => ?_
  rw [copyRound]
  by_cases hzero : s.blockCount = 0
  · rw [if_pos hzero]
    exact Triple.pure fun t ht => Or.inl ⟨by rw [show t.store = m₁ from ht]; exact hinv, hzero⟩
  rw [if_neg hzero]
  have hn : 0 < s.blockCount := Nat.pos_of_ne_zero hzero
  have hcount : (if s.blockCount > mioCmdMaxBlockCountPerOp then mioCmdMaxBlockCountPerOp
      else s.blockCount) = min s.blockCount mioCmdMaxBlockCountPerOp := by
    split
    · omega
    · omega
  simp only [hcount]
  have hleft : ∀ {t : Sys}, At m₁ t → CopyLeft m toOid t.store := fun {t} ht => by
    rw [show t.store = m₁ from ht]
    exact hinv.target.left
  -- the buffers
  refine Triple.bind ((triple_objAllocIovecs hfit s.lastIndex
    (Nat.min_le_right s.blockCount _)).consequence (fun _ ht => ht) (fun _ _ hq => hq)
    fun _ ht => ht.imp id hleft) ?_
  rintro ⟨rc, data⟩
  refine Triple.of_fact fun hdata => ?_
  rcases hdata with hneg | ⟨rfl, base, rfl⟩
  · rw [if_pos hneg.1.ne]
    exact Triple.pure fun t ht => Or.inr ⟨hneg, hleft ht, hinv.handles.1, hinv.handles.2,
      hinv.handles.3, hinv.handles.4, hinv.handles.5⟩
  rw [if_neg (by simp)]
  have hstretch := hinv.pos.stretch hfit hn base
  -- the read
  obtain ⟨e, hon, hdrv, hbytes⟩ := hinv.src
  have hfits : DrvFits env.conf e.drv lf := by rwa [hdrv]
  refine Triple.bind ((triple_readv hon hfits s.mem hstretch.ok hstretch.bufApart
    hstretch.ne_nil).consequence (fun _ ht => ht) (fun _ _ hq => hq)
    fun _ ht => ht.imp id hleft) ?_
  rintro ⟨rc, fromObj, mem⟩
  refine Triple.of_fact fun hread => ?_
  obtain ⟨⟨now, hfrom⟩, hfilled⟩ := hread
  simp only at hfrom hfilled
  have hon' : fromObj.On m₁ e := by rw [hfrom]; exact hon.stats false now _
  have hhandles : CopyHandles fromOid toOid c { s with fromObj := fromObj } := by
    refine ⟨?_, ?_, hon'.hints, hinv.handles.4, hinv.handles.5⟩
    · rw [hfrom]
      exact hinv.handles.1
    · rw [hfrom]
      exact hinv.handles.2
  rcases hfilled with hneg | ⟨rfl, hfill, -⟩
  · rw [if_pos hneg.1.ne]
    exact Triple.pure fun t ht => Or.inr ⟨hneg, hleft ht, hhandles.1, hhandles.2, hhandles.3,
      hhandles.4, hhandles.5⟩
  rw [if_neg (by simp)]
  -- the buffers hold the content of the source
  have hfill' : ∀ v ∈ objIovecs base (min s.blockCount mioCmdMaxBlockCountPerOp) bs s.lastIndex
      c.size, ∀ i < v.miovLen, mem (v.miovBase + i) = c.bytes (v.miovOff + i) := by
    intro v hv i hi
    have hend := (hstretch.inside hv).2
    simp only [MioIovec.stop] at hend
    rw [hfill v hv i hi, hbytes _ (by omega)]
  -- the write
  refine Triple.bind (triple_writeBlocks hinv.target hinv.pos hfit hdst hpages hn hfill') ?_
  rintro ⟨rc, toObj⟩
  refine Triple.of_start fun t hwrite => ?_
  obtain ⟨hleft', honly, hid', hhints, hdone⟩ := hwrite
  simp only at hid' hhints hdone
  have hhandles' : ∀ {rc : ℤ} {n idx : ℕ},
      CopyHandles fromOid toOid c ⟨rc, n, idx, fromObj, toObj, mem⟩ :=
    ⟨hhandles.1, hhandles.2, hhandles.3, hid', hhints⟩
  rcases hdone with hneg | ⟨rfl, htarget⟩
  · rw [if_pos hneg.1.ne]
    exact Triple.pure fun u hu => Or.inr ⟨hneg, hu ▸ hleft', hhandles'⟩
  rw [if_neg (by simp)]
  obtain ⟨hnext, hpos'⟩ := hinv.pos.next hfit hn
  rw [hnext]
  have hkpos : 0 < min s.blockCount mioCmdMaxBlockCountPerOp := Nat.lt_min.mpr ⟨hn, by decide⟩
  refine Triple.pure fun u hu => ⟨Nat.sub_lt hn hkpos, ?_⟩
  subst hu
  refine ⟨rfl, hpos', hhandles', ⟨e, ⟨?_, hon'.drv, hon'.pool, hon'.hints⟩, hdrv, hbytes⟩, htarget⟩
  refine ((honly fromObj.moId ?_).1).trans hon'.entity
  rw [show fromObj.moId = fromOid from hhandles.moIdFrom]
  exact hne

end Loop

/-! ### Opening or creating the target -/

section Opening

variable {env} {pc} {m : MotrStore} {oid : MioObjId} {pool : Option MioPoolId}
  {chint : Option MioCmdObjHint}

/-- What a copy finds at the place of its target: nothing but perhaps an old record, or an
object. -/
def TargetIs (m : MotrStore) (oid : MioObjId) : Option ObjContent → Prop
  | none => m.entities oid = none ∧ RecordOk (m.attrs oid)
  | some c => m.Holds oid c

/-- What a copy goes over: the object there is, or a new one, which is empty. -/
def CopiedOver (env : Env) (pc : PoolConf) (pool : Option MioPoolId)
    (chint : Option MioCmdObjHint) : Option ObjContent → ObjContent → Prop
  | none, old => ∃ hints sel, chintHints chint = .ok hints ∧
      objCreatePoolId pc.sysHints pc.statics pool hints = .ok sel ∧
      old = .empty env (sel.getD env.motrPool)
  | some c, old => old = c

theorem TargetIs.recordOk {target : Option ObjContent} (h : TargetIs m oid target) :
    RecordOk (m.attrs oid) := by
  cases target with
  | none => exact h.2
  | some c => exact MotrStore.Holds.record h

/-- One hint always finds room. -/
theorem exists_chintHints (chint : Option MioCmdObjHint) :
    ∃ hints, chintHints chint = .ok hints := by
  cases chint with
  | none => exact ⟨_, rfl⟩
  | some chint => exact ⟨_, rfl⟩

/-- The target has been opened, or it has been created. -/
structure TargetOpened (env : Env) (pc : PoolConf) (m : MotrStore) (oid : MioObjId)
    (pool : Option MioPoolId) (chint : Option MioCmdObjHint) (target : Option ObjContent)
    (h : ObjHandle) (m' : MotrStore) (old : ObjContent) : Prop where
  /-- What the copy will go over. -/
  copiedOver : CopiedOver env pc pool chint target old
  /-- Nothing else has changed. -/
  left : CopyLeft m oid m'
  /-- The handle. -/
  moId : h.moId = oid
  /-- It is open on what the copy will go over. -/
  opened : ∃ e, h.On m' e ∧ e.pool = old.pool ∧ e.drv = old.drv ∧
    ∀ x < old.size, e.bytes x = old.bytes x
  /-- The size. -/
  size : h.obj.size = old.size
  /-- The size in the record, if that is not an old one. -/
  stored : storedSize (m'.attrs oid) = old.size ∨ old.size = 0

/-- The target at the start of a copy. -/
theorem TargetOpened.targetInv {target : Option ObjContent} {h : ObjHandle} {m' : MotrStore}
    {old : ObjContent} (hto : TargetOpened env pc m oid pool chint target h m' old)
    (src : ℕ → Byte) (maxIndex : ℕ) : TargetInv m oid src maxIndex old 0 h m' := by
  obtain ⟨e, hon, hpool, hdrv, hbytes⟩ := hto.opened
  refine ⟨hto.left, hto.moId, ⟨e, hon, hpool, hdrv, fun x hx => ?_⟩, ?_, ?_⟩
  · rw [if_neg (by simp)]
    exact hbytes x (by rw [← hto.size]; exact hx)
  · simp [hto.size]
  · exact hto.stored.imp (fun h => h.trans hto.size.symm) fun h => ⟨rfl, h⟩

/-- What can keep a copy from being made: something goes wrong in the surroundings, or no
pool can be chosen for the target. -/
def CopyUpset (env : Env) (pc : PoolConf) (pool : Option MioPoolId)
    (chint : Option MioCmdObjHint) (target : Option ObjContent) : Prop :=
  env.Rough ∨ target = none ∧ ∃ hints f, chintHints chint = .ok hints ∧
    objCreatePoolId pc.sysHints pc.statics pool hints = .error f

/-- What opening or creating the target leaves. -/
theorem Created.copyLeft {sel : Option MioPoolId} {m' : MotrStore}
    (h : Created env m sel oid m') (hrec : RecordOk (m.attrs oid)) : CopyLeft m oid m' := by
  rcases h with rfl | ⟨-, rfl⟩
  · exact ⟨.refl _ _, hrec⟩
  · exact ⟨m.onlyAt_setEntity _ _, hrec⟩

/-- **The target is created**, after it has not been found. -/
theorem triple_objDoCreate {target : Option ObjContent} (htarget : TargetIs m oid target)
    (hwhy : env.Rough ∨ target = none) :
    Triple (At m) (objDoCreate env pc pool oid chint)
      (fun r s => CopyLeft m oid s.store ∧ ((r.1 < 0 ∧ env.Rough) ∨
        r.1 = 0 ∧ ∃ old, TargetOpened env pc m oid pool chint target r.2 s.store old))
      (fun s => CopyUpset env pc pool chint target ∧ CopyLeft m oid s.store) := by
  have hrec := htarget.recordOk
  obtain ⟨hints, hhints⟩ := exists_chintHints chint
  rw [objDoCreate, hhints]
  dsimp only
  cases hsel : objCreatePoolId pc.sysHints pc.statics pool hints with
  | error f =>
    intro s hs
    refine ⟨hwhy.imp id fun h => ⟨h, hints, f, hhints, hsel⟩, ?_⟩
    rw [show s.store = m from hs]
    exact ⟨.refl _ _, hrec⟩
  | ok sel =>
    refine Triple.consequence (triple_create sel) (fun _ hs => hs) ?_
      fun s hs => ⟨Or.inl hs.1, hs.2.copyLeft hrec⟩
    rintro r s ⟨hmade, -, hopened⟩
    refine ⟨hmade.copyLeft hrec, ?_⟩
    rcases hopened with ⟨hneg, hrough⟩ | ⟨hzero, hid, hsize, hnone, hon⟩
    · refine Or.inl ⟨hneg, hrough.elim id fun hsome => hwhy.elim id fun h => ?_⟩
      subst h
      exact absurd htarget.1 hsome
    · have htgt : target = none := by
        cases target with
        | none => rfl
        | some c =>
          obtain ⟨e, he, -⟩ := MotrStore.Holds.entity htarget
          exact absurd (hnone.symm.trans he) (by simp)
      subst htgt
      exact Or.inr ⟨hzero, _, ⟨hints, sel, hhints, hsel, rfl⟩, hmade.copyLeft hrec, hid,
        ⟨_, hon, rfl, rfl, fun _ _ => rfl⟩, hsize, Or.inr rfl⟩

/-- **The target is opened or created**, and no other object is touched. -/
theorem triple_objOpenOrCreate {target : Option ObjContent} (htarget : TargetIs m oid target) :
    Triple (At m) (objOpenOrCreate env pc pool oid chint)
      (fun r s => CopyLeft m oid s.store ∧ ((r.1 < 0 ∧ env.Rough) ∨
        r.1 = 0 ∧ ∃ old, TargetOpened env pc m oid pool chint target r.2 s.store old))
      (fun s => CopyUpset env pc pool chint target ∧ CopyLeft m oid s.store) := by
  have hrec := htarget.recordOk
  have hsame : ∀ {s : Sys}, At m s → CopyLeft m oid s.store := by
    intro s hs
    rw [show s.store = m from hs]
    exact ⟨.refl _ _, hrec⟩
  refine Triple.bind ((triple_open hrec).consequence (fun _ hs => hs) (fun _ _ hq => hq)
    fun _ hs => ⟨Or.inl hs.1, hsame hs.2⟩) ?_
  rintro ⟨rc, h⟩
  refine Triple.of_fact fun hopen => ?_
  obtain ⟨-, hopen⟩ := hopen
  dsimp only at hopen ⊢
  by_cases hno : rc = -ENOENT
  · rw [if_pos hno]
    refine triple_objDoCreate htarget ?_
    rcases hopen with ⟨-, hrough | ⟨-, hnone⟩⟩ | ⟨hzero, -⟩
    · exact Or.inl hrough
    · right
      cases target with
      | none => rfl
      | some c =>
        obtain ⟨e, he, -⟩ := MotrStore.Holds.entity htarget
        exact absurd (hnone.symm.trans he) (by simp)
    · exact absurd (hno.symm.trans hzero) (by decide)
  rw [if_neg hno]
  refine Triple.pure fun s hs => ⟨hsame hs, ?_⟩
  rcases hopen with ⟨hneg, hrough | ⟨h, -⟩⟩ | ⟨rfl, e, hid, hon, hsize⟩
  · exact Or.inl ⟨hneg, hrough⟩
  · exact absurd h hno
  · have he := hon.entity
    rw [hid] at he
    cases target with
    | none => exact absurd (htarget.1.symm.trans he) (by simp)
    | some c =>
      have hold : m.Holds oid c := htarget
      obtain ⟨e', he', hpool, hdrv, hbytes⟩ := hold.entity
      obtain rfl : e' = e := Option.some.inj (he'.symm.trans he)
      refine Or.inr ⟨rfl, c, rfl, hsame hs, hid, ⟨e', ?_, hpool, hdrv, hbytes⟩, ?_, ?_⟩
      · rw [show s.store = m from hs]
        exact hon
      · exact hsize.trans hold.size
      · rw [show s.store = m from hs]
        exact Or.inl hold.size

end Opening

/-! ### The whole of it -/

section Whole

variable {env} {pc} {m : MotrStore} {fromOid toOid : MioObjId} {toPool : Option MioPoolId}
  {chint : Option MioCmdObjHint} {c : ObjContent} {target : Option ObjContent} {bs : ℕ}

/-- What every copy leaves behind, whatever becomes of it: the source with its content, and
all other objects but the target as they were. -/
structure CopyEnd (m : MotrStore) (fromOid toOid : MioObjId) (c : ObjContent) (m' : MotrStore) :
    Prop where
  /-- Other objects. -/
  only : m.OnlyAt₂ fromOid toOid m'
  /-- The source. -/
  src : m'.Holds fromOid c
  /-- The record of the target. -/
  record : RecordOk (m'.attrs toOid)

/-- Closing a handle with nothing to be stored. -/
theorem mioObjCloseOp_fresh {h : ObjHandle} (hfresh : h.obj.moAttrsUpdated = false) :
    mioObjCloseOp env h = pure () := by
  rw [mioObjCloseOp, if_neg (by rw [hfresh]; simp)]

/-- As long as only the target has changed, a copy can end. -/
theorem CopyLeft.copyEnd {m' : MotrStore} (h : CopyLeft m toOid m') (hne : fromOid ≠ toOid)
    (hsrc : m.Holds fromOid c) : CopyEnd m fromOid toOid c m' :=
  ⟨fun o _ ho => h.only o ho, hsrc.same (h.only fromOid hne), h.record⟩

/-- The geometry of every object leaves room for a page in an op. -/
def Env.Fits (env : Env) (m : MotrStore) : Prop :=
  (∀ pool, ∃ limit, DrvFits env.conf (env.geometry pool) limit) ∧
    ∀ oid e, m.entities oid = some e → ∃ limit, DrvFits env.conf e.drv limit

theorem Env.Fits.holds (henv : env.Fits m) {oid : MioObjId} (h : m.Holds oid c) :
    ∃ limit, DrvFits env.conf c.drv limit := by
  obtain ⟨e, he, -, hdrv, -⟩ := h.entity
  rw [← hdrv]
  exact henv.2 oid e he

/-- The geometry of what a copy goes over. -/
theorem CopiedOver.fits {old : ObjContent} (henv : env.Fits m) (htarget : TargetIs m toOid target)
    (h : CopiedOver env pc toPool chint target old) : ∃ limit, DrvFits env.conf old.drv limit := by
  cases target with
  | none =>
    obtain ⟨hints, sel, -, -, rfl⟩ := h
    exact henv.1 _
  | some co =>
    obtain rfl : old = co := h
    exact henv.holds htarget

/-- **A copy** of an object that is not empty. Whatever becomes of it, the source has the
content that it had, and no other object but the target is touched. If it succeeds, the
target has the content of the source, over what it had before or over a new object; and it
succeeds if nothing goes wrong. -/
theorem triple_copy (hne : fromOid ≠ toOid) (hsrc : m.Holds fromOid c) (hpos : 0 < c.size)
    (hfit : BlocksFit bs c.size) (henv : env.Fits m) (htarget : TargetIs m toOid target)
    (hpages : ∀ old, target = some old → old.size = 0 ∨ old.pageSize ∣ bs) :
    Triple (At m) (mioCmdObjCopy env pc fromOid toPool toOid bs chint)
      (fun rc s => CopyEnd m fromOid toOid c s.store ∧
        ((rc < 0 ∧ CopyUpset env pc toPool chint target) ∨
          rc = 0 ∧ ∃ old, CopiedOver env pc toPool chint target old ∧
            s.store.Holds toOid (old.overlay c)))
      (fun s => CopyUpset env pc toPool chint target ∧ CopyEnd m fromOid toOid c s.store) := by
  have hsame : CopyEnd m fromOid toOid c m :=
    CopyLeft.copyEnd ⟨.refl _ _, htarget.recordOk⟩ hne hsrc
  have hstay : ∀ {s : Sys}, At m s → CopyEnd m fromOid toOid c s.store := by
    intro s hs
    rw [show s.store = m from hs]
    exact hsame
  -- the source is opened
  refine Triple.bind ((triple_open hsrc.record).consequence (fun _ hs => hs) (fun _ _ hq => hq)
    fun _ hs => ⟨Or.inl hs.1, hstay hs.2⟩) ?_
  rintro ⟨rc, fromObj⟩
  refine Triple.of_fact fun hopen => ?_
  obtain ⟨hfresh, hopen⟩ := hopen
  dsimp only at hfresh hopen ⊢
  rw [mioObjCloseOp_fresh hfresh]
  by_cases hneg : rc < 0
  · rw [if_pos hneg]
    refine Triple.bind (Triple.pure (Q := fun _ => At m) fun _ hs => hs) fun _ =>
      Triple.pure fun s hs => ⟨hstay hs, Or.inl ⟨hneg, Or.inl ?_⟩⟩
    rcases hopen with ⟨-, hrough | ⟨-, hnone⟩⟩ | ⟨hzero, -⟩
    · exact hrough
    · obtain ⟨e, he, -⟩ := hsrc.entity
      exact absurd (hnone.symm.trans he) (by simp)
    · exact absurd hneg (by rw [hzero]; exact lt_irrefl _)
  rw [if_neg hneg, if_neg (Nat.pos_iff_ne_zero.mp hfit.pos)]
  obtain ⟨-, e, hid, hon, hsize⟩ := hopen.resolve_left fun h => hneg h.1
  have hsize : fromObj.obj.size = c.size := hsize.trans hsrc.size
  obtain ⟨e', he', -, hdrv, hbytes⟩ := hsrc.entity
  have he := hon.entity
  rw [hid] at he
  obtain rfl : e' = e := Option.some.inj (he'.symm.trans he)
  rw [hsize]
  -- the target is opened or created
  refine Triple.bind ((triple_objOpenOrCreate htarget).consequence (fun _ hs => hs)
    (fun _ _ hq => hq) fun _ hs => hs.imp id fun h => h.copyEnd hne hsrc) ?_
  rintro ⟨rc', toObj⟩
  dsimp only
  refine Triple.of_start fun s₁ hopened => ?_
  obtain ⟨hleft₁, hopened⟩ := hopened
  by_cases hneg' : rc' < 0
  · rw [if_pos hneg']
    refine Triple.bind (Triple.pure (Q := fun _ (s : Sys) => s = s₁) fun _ hs => hs) fun _ =>
      Triple.pure fun s hs => ⟨hs ▸ hleft₁.copyEnd hne hsrc, Or.inl ⟨hneg', Or.inl ?_⟩⟩
    rcases hopened with ⟨-, hrough⟩ | ⟨hzero, -⟩
    · exact hrough
    · exact absurd hneg' (by rw [hzero]; exact lt_irrefl _)
  rw [if_neg hneg']
  obtain ⟨rfl, old, hto⟩ := hopened.resolve_left fun h => hneg' h.1
  obtain ⟨lf, hlf⟩ := henv.holds hsrc
  obtain ⟨lt, hlt⟩ := hto.copiedOver.fits henv htarget
  have hold : old.size = 0 ∨ old.pageSize ∣ bs := by
    cases target with
    | none =>
      obtain ⟨hints, sel, -, -, rfl⟩ := hto.copiedOver
      exact Or.inl rfl
    | some co =>
      obtain rfl : old = co := hto.copiedOver
      exact hpages old rfl
  -- the loop
  refine Triple.bind ((Triple.repeatN
    (fun v (sys : Sys) => CopyInv m fromOid toOid c old bs (objBlockCount c.size bs * bs) v
      sys.store) CopyVars.blockCount
    (triple_copyRound hne hfit hlf hlt hold) (objBlockCount c.size bs + 1)
    ⟨0, objBlockCount c.size bs, 0, fromObj, toObj, fun _ => 0⟩ (Nat.lt_succ_self _)).consequence
    ?_ (fun _ _ hq => hq) fun _ hs => ⟨Or.inl hs.1, hs.2.copyEnd hne hsrc⟩) ?_
  · rintro s rfl
    obtain ⟨et, hont, -⟩ := hto.opened
    refine ⟨rfl, .start hfit hpos le_rfl, ⟨hid, hsize, hon.hints, hto.moId, hont.hints⟩,
      ⟨e', ⟨?_, hon.drv, hon.pool, hon.hints⟩, hdrv, hbytes⟩, hto.targetInv _ _⟩
    have hkept := (hto.left.only fromOid hne).1
    rw [← hid] at hkept
    exact hkept.trans hon.entity
  · intro v
    refine Triple.of_start fun s₂ hexit => ?_
    obtain ⟨hleft, hhandles⟩ : CopyLeft m toOid s₂.store ∧ CopyHandles fromOid toOid c v := by
      rcases hexit with ⟨hinv, -⟩ | ⟨-, hleft, hhandles⟩
      · exact ⟨hinv.target.left, hinv.handles⟩
      · exact ⟨hleft, hhandles⟩
    -- the target is closed
    refine Triple.bind ((triple_close (m := s₂.store) hhandles.hintsTo).consequence
      (fun t ht => congrArg Sys.store ht) (fun _ _ hq => hq) ?_) ?_
    · rintro t ⟨hrough, ht⟩
      exact ⟨Or.inl hrough, (hleft.closed hhandles.moIdTo ht).copyEnd hne hsrc⟩
    · rintro ⟨⟩
      refine triple_of_store fun m₃ hclosed => ?_
      have hleft' := hleft.closed hhandles.moIdTo hclosed
      have hsrc' : m₃.Holds fromOid c := hsrc.same (hleft'.only fromOid hne)
      -- the source is closed
      have hend : ∀ {m₄ : MotrStore}, Closed m₃ v.fromObj m₄ → CopyEnd m fromOid toOid c m₄ := by
        intro m₄ hc
        have honly := hc.onlyAt
        rw [hhandles.moIdFrom] at honly
        refine ⟨fun o hfrom ho => (hleft'.only o ho).trans (honly o hfrom), ?_, ?_⟩
        · rw [← hhandles.moIdFrom] at hsrc' ⊢
          exact hsrc'.closed hhandles.size hc
        · rw [(honly toOid hne.symm).2]
          exact hleft'.record
      refine Triple.bind ((triple_close hhandles.hintsFrom).consequence (fun _ ht => ht)
        (fun _ _ hq => hq) fun _ ht => ⟨Or.inl ht.1, hend ht.2⟩) ?_
      rintro ⟨⟩
      refine Triple.pure fun t ht => ⟨hend ht, ?_⟩
      rcases hexit with ⟨hinv, hzero⟩ | ⟨⟨hrc, hrough⟩, -⟩
      · right
        refine ⟨hinv.rc, old, hto.copiedOver, ?_⟩
        have honly := Closed.onlyAt ht
        rw [hhandles.moIdFrom] at honly
        refine MotrStore.Holds.same (m := m₃) ?_ (honly toOid hne.symm)
        obtain ⟨hcopied, hsize'⟩ := hinv.copied hpos (le_objBlockCount_mul hfit hpos) hzero
        rw [← hhandles.moIdTo] at hcopied ⊢
        exact hcopied.closed hsize' hclosed
      · exact Or.inl ⟨hrc, Or.inl hrough⟩

end Whole

/-! ### An example -/

/-- Surroundings in which nothing fails. -/
def Env.calm : Env where
  conf := ⟨4⟩
  verdict := fun _ => .stable
  malloc := fun _ => some 0
  now := fun _ => 0
  motrPool := ⟨0, 0⟩
  geometry := fun _ => .twoBytePages

/-- A pool, and no hints of the system. -/
def PoolConf.one : PoolConf := ⟨mioHintMapInit mioObjHintNum, poolsConf 1⟩

theorem not_copyUpset_calm : ¬CopyUpset .calm .one none none none := by
  rintro ((⟨t, h⟩ | ⟨t, h⟩) | ⟨-, hints, f, hhints, hsel⟩)
  · exact absurd h (by simp [Env.calm])
  · exact absurd h (by simp [Env.calm])
  · obtain rfl : none = hints := Except.ok.inj hhints
    have hnone : objCreatePoolId PoolConf.one.sysHints PoolConf.one.statics none none =
      .ok none := rfl
    exact absurd (hnone.symm.trans hsel) (by simp)

/-- The `n` bytes from `n` on. -/
def ObjContent.upTo (n : UInt64) : ObjContent :=
  ⟨⟨0, 0⟩, .twoBytePages, n.toNat, fun x => UInt8.ofNat (n.toNat + x)⟩

/-- A store without objects. -/
def MotrStore.empty : MotrStore := ⟨fun _ => none, fun _ => none⟩

/-- An object with these bytes. -/
def MotrStore.put (m : MotrStore) (oid : MioObjId) (n : UInt64) : MotrStore :=
  (m.setEntity oid (some ⟨⟨0, 0⟩, .twoBytePages, (ObjContent.upTo n).bytes⟩)).setAttrs oid
    (some (motrObjAttrsMem2wire ((MioObj.zeroed .twoBytePages).setSize n.toNat)))

theorem onlyAt_put (m : MotrStore) (oid : MioObjId) (n : UInt64) : m.OnlyAt oid (m.put oid n) :=
  (m.onlyAt_setEntity oid _).trans (MotrStore.onlyAt_setAttrs _ oid _)

theorem holds_put (m : MotrStore) (oid : MioObjId) (n : UInt64) :
    (m.put oid n).Holds oid (.upTo n) := by
  refine ⟨⟨_, MotrStore.entities_setEntity .., rfl, rfl, fun _ _ => rfl⟩, ?_, ?_⟩
  · rw [MotrStore.put, MotrStore.attrs_setAttrs, storedSize_mem2wire,
      MioObj.size_setSize _ n.toNat_lt]
    rfl
  · rw [MotrStore.put, MotrStore.attrs_setAttrs]
    exact recordOk_mem2wire (hintsOk_objInit .twoBytePages).phints

theorem targetIs_put {m : MotrStore} {oid oid' : MioObjId} {n : UInt64}
    (h : TargetIs m oid' none) (hne : oid' ≠ oid) : TargetIs (m.put oid n) oid' none := by
  obtain ⟨hentity, hattrs⟩ := onlyAt_put m oid n oid' hne
  exact ⟨hentity.trans h.1, by rw [hattrs]; exact h.2⟩

theorem fits_empty : Env.calm.Fits .empty := by
  have hfit : DrvFits ⟨4⟩ .twoBytePages 4 := ⟨by decide, by decide⟩
  exact ⟨fun _ => ⟨4, hfit⟩, fun _ _ h => absurd h (by simp [MotrStore.empty])⟩

theorem fits_put {m : MotrStore} (h : Env.calm.Fits m) (oid : MioObjId) (n : UInt64) :
    Env.calm.Fits (m.put oid n) := by
  refine ⟨h.1, fun o e he => ?_⟩
  by_cases ho : o = oid
  · subst ho
    rw [show (m.put o n).entities o = _ from MotrStore.entities_setEntity ..] at he
    obtain rfl := Option.some.inj he
    exact h.1 ⟨0, 0⟩
  · rw [(onlyAt_put m oid n o ho).1] at he
    exact h.2 o e he

/-- Names. -/
def oidOf (b : Byte) : MioObjId := ⟨List.replicate 16 b, List.length_replicate⟩

end CortxMio
