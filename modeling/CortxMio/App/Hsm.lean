import CortxMio.App.Copy

/-!
# Moving objects between pools

The shell for hierarchical storage (`mio_hsm.c`) moves an object to the pool of its
hotness in four steps: its content is copied to a temporary object, the object is deleted,
the content is copied back to a new object of the same name in the new pool, and the
temporary object is deleted. Each step may fail, and the process may be killed at any
point. The content is never lost (`CortxMio.triple_hsmMoveOne`): it is in the object or,
from the first deletion on, in the temporary one. All objects share one temporary object,
and what an earlier move has left there shows behind the content of the next.
-/

namespace CortxMio

open Lib

/-! ### Names of objects -/

/-- `mio_cmd_obj_id_clone`: the `int` offsets are converted to `uint64_t`. -/
def mioCmdObjIdClone (orig : MioObjId) (off1 off2 : ℤ) : MioObjId :=
  let u := mioObjIdToUint128 orig
  mioUint128ToObjId ⟨u.uHi + UInt64.ofInt off1, u.uLo + UInt64.ofInt off2⟩

/-- `hsm_params`. -/
structure HsmParams where
  /-- `cop_oid`. -/
  copOid : MioObjId
  /-- `cop_nr_objs`. -/
  copNrObjs : Int32
  /-- `cop_block_size`. -/
  copBlockSize : ℕ

/-- `hsm_make_oid`. -/
def hsmMakeOid (hp : HsmParams) (idx : ℤ) : MioObjId := mioCmdObjIdClone hp.copOid idx 0

/-- `hsm_make_tmp_oid`. -/
def hsmMakeTmpOid (hp : HsmParams) : MioObjId := mioCmdObjIdClone hp.copOid 0 0x1000

/-- Different numbers have different names. -/
theorem mioUint128ToObjId_injective : Function.Injective mioUint128ToObjId := by
  rintro ⟨hi, lo⟩ ⟨hi', lo'⟩ h
  have hbytes := congrArg MioObjId.moiBytes h
  simp only [mioUint128ToObjId] at hbytes
  obtain ⟨hhi, hlo⟩ := List.append_inj hbytes (by simp [mioByteorderCpuToBe64])
  have hhi := congrArg mioByteorderBe64ToCpu hhi
  have hlo := congrArg mioByteorderBe64ToCpu hlo
  rw [mioByteorderBe64ToCpu_cpuToBe64, mioByteorderBe64ToCpu_cpuToBe64] at hhi hlo
  rw [hhi, hlo]

/-- No object has the name of the temporary one. -/
theorem hsmMakeOid_ne_tmp (hp : HsmParams) (idx : ℤ) : hsmMakeOid hp idx ≠ hsmMakeTmpOid hp := by
  intro h
  have hlo := congrArg M0Uint128.uLo (mioUint128ToObjId_injective h)
  exact absurd (add_left_cancel hlo) (by decide)

/-- The names of the objects differ, as the numbers of objects are an `int`. -/
theorem hsmMakeOid_ne (hp : HsmParams) {i j : ℤ} (hij : i ≠ j) (hi : -2 ^ 31 ≤ i ∧ i < 2 ^ 31)
    (hj : -2 ^ 31 ≤ j ∧ j < 2 ^ 31) : hsmMakeOid hp i ≠ hsmMakeOid hp j := by
  intro h
  have hhi := add_left_cancel (congrArg M0Uint128.uHi (mioUint128ToObjId_injective h))
  have hmod : i % 2 ^ 64 = j % 2 ^ 64 := by
    have hlt : ∀ k : ℤ, (k % 2 ^ 64).toNat < UInt64.size := by
      intro k
      rw [UInt64.size]
      omega
    have hnat := congrArg UInt64.toNat hhi
    rw [UInt64.ofInt, UInt64.ofInt, UInt64.toNat_ofNat_of_lt' (hlt i),
      UInt64.toNat_ofNat_of_lt' (hlt j)] at hnat
    omega
  omega

/-! ### The shell -/

variable (env : Env) (pc : PoolConf)

/-- `hsm_obj_hint_stat`. -/
def hsmObjHintStat (oid : MioObjId) (chint : MioCmdObjHint) : StoreM (ℤ × MioCmdObjHint) := do
  let (rc, h) ← mioObjOpenOp env oid
  if rc < 0 then pure (rc, chint)
  else
    match mioObjHintGet h.obj chint.coHkey with
    | .ok (obj, .ok value) => do
        mioObjCloseOp env { h with obj := obj }
        pure (0, { chint with coHvalue := value })
    | .ok (obj, .error (.err rc)) => do
        mioObjCloseOp env { h with obj := obj }
        pure (rc, chint)
    | .error (.err rc) => do
        mioObjCloseOp env h
        pure (rc, chint)
    | .ok (_, .error f) => throw (.fault f)
    | .error f => throw (.fault f)

/-- `mio_obj_pool_id`. -/
def mioObjPoolId (h : ObjHandle) : ℤ := if h.obj.moDrvObj.oaPver.isNone then -EINVAL else 0

/-- `hsm_obj_pool_id`. -/
def hsmObjPoolId (oid : MioObjId) : StoreM (ℤ × MioPoolId) := do
  let (rc, h) ← mioObjOpenOp env oid
  if rc < 0 then pure (rc, h.pool)
  else do
    mioObjCloseOp env h
    pure (mioObjPoolId h, h.pool)

/-- `HSM_OBJ_MOVE`. -/
abbrev hsmObjMove : ℤ := 0

/-- `HSM_OBJ_NOT_MOVE`. -/
abbrev hsmObjNotMove : ℤ := 1

/-- `hsm_obj_if_move`. -/
def hsmObjIfMoveOp (oid : MioObjId) (hotness : UInt64) : StoreM ℤ := do
  let (rc, poolId) ← hsmObjPoolId env oid
  if rc < 0 then pure rc
  else do
    let newPoolId ← returns (mioObjHotnessToPoolId pc.statics.mioPools pc.sysHints hotness)
    pure (if mioObjPoolIdCmp poolId newPoolId then hsmObjNotMove else hsmObjMove)

/-- `hsm_move_one`. That `hsm_obj_if_move` may fail is not looked at. -/
def hsmMoveOne (hp : HsmParams) (oid : MioObjId) : StoreM ℤ := do
  let (rc, chint) ← hsmObjHintStat env oid ⟨mioHintObjHotIndex, 0⟩
  if rc < 0 then pure rc
  else
    let move ← hsmObjIfMoveOp env pc oid chint.coHvalue
    if move = hsmObjNotMove then pure 0
    else
      let tmpOid := hsmMakeTmpOid hp
      let rc ← mioCmdObjCopy env pc oid none tmpOid hp.copBlockSize none
      if rc < 0 then pure rc
      else
        let rc ← mioObjDeleteOp env oid
        if rc < 0 then pure rc
        else
          let rc ← mioCmdObjCopy env pc tmpOid none oid hp.copBlockSize (some chint)
          if rc < 0 then pure rc
          else mioObjDeleteOp env tmpOid

/-- One round of the loop of `hsm_move_objs`: `rc` and `i`. -/
def hsmMoveRound (hp : HsmParams) (idx nrObjs : ℤ) (s : ℤ × ℤ) : StoreM (ℤ × ℤ ⊕ ℤ) :=
  if s.2 < nrObjs then do
    let rc ← hsmMoveOne env pc hp (hsmMakeOid hp (idx + s.2))
    if rc < 0 then pure (.inr rc) else pure (.inl (rc, s.2 + 1))
  else pure (.inr s.1)

/-- `hsm_move_objs`. -/
def hsmMoveObjs (hp : HsmParams) (idx nrObjs : Int32) : StoreM ℤ :=
  let idx := idx.toInt
  let nr := hp.copNrObjs.toInt
  if idx ≥ nr then pure (-EINVAL)
  else
    let nrObjs := if idx + nrObjs.toInt > nr then nr - idx else nrObjs.toInt
    repeatN (.fault .diverge) (hsmMoveRound env pc hp idx nrObjs) (nrObjs.toNat + 1) (0, 0)

/-! ### Looking at an object -/

section Look

variable {env} {pc} {m : MotrStore} {oid : MioObjId}

theorem mioObjHintGet_updated {obj obj' : MioObj} {key : Int32} {r : Except Fault UInt64}
    (h : mioObjHintGet obj key = .ok (obj', r)) : obj'.moAttrsUpdated = obj.moAttrsUpdated := by
  rw [mioObjHintGet, objDynHintUpdate] at h
  split at h
  · rw [objHotIndexCal] at h
    cases hset : mioHintMapSet obj.moHints mioHintObjHotIndex
        (obj.moAttrs.moaStats.mosRcount + obj.moAttrs.moaStats.mosWcount) with
    | error f =>
      rw [hset] at h
      exact absurd h (by simp [bind, Except.bind])
    | ok map =>
      rw [hset] at h
      obtain ⟨rfl, -⟩ := Prod.mk.inj (Except.ok.inj h)
      rfl
  · obtain ⟨rfl, -⟩ := Prod.mk.inj (Except.ok.inj h)
    rfl

/-- **Looking at the hint of an object** changes nothing. -/
theorem triple_hsmObjHintStat (hrec : RecordOk (m.attrs oid)) (chint : MioCmdObjHint) :
    Triple (At m) (hsmObjHintStat env oid chint)
      (fun r s => r.2.coHkey = chint.coHkey ∧ At m s) (At m) := by
  refine Triple.bind ((triple_open hrec).consequence (fun _ hs => hs) (fun _ _ hq => hq)
    fun _ hs => hs.2) ?_
  rintro ⟨rc, h⟩
  refine Triple.of_fact fun hopen => ?_
  have hfresh : h.obj.moAttrsUpdated = false := hopen.fresh
  dsimp only
  by_cases hneg : rc < 0
  · rw [if_pos hneg]
    exact Triple.pure fun _ hs => ⟨rfl, hs⟩
  rw [if_neg hneg]
  have hkept : ∀ {obj : MioObj} {r : Except Fault UInt64},
      mioObjHintGet h.obj chint.coHkey = .ok (obj, r) → obj.moAttrsUpdated = false := by
    intro obj r hget
    rw [← hfresh]
    exact mioObjHintGet_updated hget
  split
  · next obj value hget =>
    rw [mioObjCloseOp_fresh (hkept hget)]
    exact Triple.pure fun _ hs => ⟨rfl, hs⟩
  · next obj rc' hget =>
    rw [mioObjCloseOp_fresh (hkept hget)]
    exact Triple.pure fun _ hs => ⟨rfl, hs⟩
  · next rc' hget =>
    rw [mioObjCloseOp_fresh hfresh]
    exact Triple.pure fun _ hs => ⟨rfl, hs⟩
  · exact Triple.throw fun _ hs => hs
  · exact Triple.throw fun _ hs => hs

theorem triple_hsmObjPoolId (hrec : RecordOk (m.attrs oid)) :
    Triple (At m) (hsmObjPoolId env oid) (fun _ => At m) (At m) := by
  refine Triple.bind ((triple_open hrec).consequence (fun _ hs => hs) (fun _ _ hq => hq)
    fun _ hs => hs.2) ?_
  rintro ⟨rc, h⟩
  refine Triple.of_fact fun hopen => ?_
  dsimp only
  by_cases hneg : rc < 0
  · rw [if_pos hneg]
    exact Triple.pure fun _ hs => hs
  · rw [if_neg hneg, mioObjCloseOp_fresh hopen.fresh]
    exact Triple.pure fun _ hs => hs

/-- **Asking whether an object is to be moved** changes nothing. -/
theorem triple_hsmObjIfMoveOp (hrec : RecordOk (m.attrs oid)) (hotness : UInt64) :
    Triple (At m) (hsmObjIfMoveOp env pc oid hotness) (fun _ => At m) (At m) := by
  refine Triple.bind (triple_hsmObjPoolId hrec) ?_
  rintro ⟨rc, pool⟩
  dsimp only
  by_cases hneg : rc < 0
  · rw [if_pos hneg]
    exact Triple.pure fun _ hs => hs
  · rw [if_neg hneg]
    cases hpool : mioObjHotnessToPoolId pc.statics.mioPools pc.sysHints hotness with
    | error f => exact fun _ hs => hs
    | ok pool' => exact fun _ hs => hs

end Look

/-! ### Moving one object -/

section One

variable {env} {pc} {m : MotrStore} {hp : HsmParams} {oid : MioObjId} {c : ObjContent}
  {target : Option ObjContent}

/-- What a move leaves behind, whatever becomes of it. -/
inductive MoveEnd (env : Env) (pc : PoolConf) (m : MotrStore) (oid tmp : MioObjId)
    (c : ObjContent) (target : Option ObjContent) (m' : MotrStore) : Prop
  /-- The object is where it was. -/
  | before (only : m.OnlyAt₂ oid tmp m') (holds : m'.Holds oid c)
  /-- The content is in the temporary object. -/
  | between (old : ObjContent) (only : m.OnlyAt₂ oid tmp m')
      (hover : CopiedOver env pc none none target old) (holds : m'.Holds tmp (old.overlay c))
  /-- The content is in a new object. -/
  | after (old new : ObjContent) (hotness : UInt64) (only : m.OnlyAt₂ oid tmp m')
      (hover : CopiedOver env pc none none target old)
      (hover' : CopiedOver env pc none (some ⟨mioHintObjHotIndex, hotness⟩) none new)
      (holds : m'.Holds oid (new.overlay (old.overlay c)))

/-- An object has been moved, and nothing is left of the temporary one. -/
structure Moved (env : Env) (pc : PoolConf) (m : MotrStore) (oid tmp : MioObjId)
    (c : ObjContent) (target : Option ObjContent) (m' : MotrStore) : Prop where
  /-- Other objects. -/
  only : m.OnlyAt₂ oid tmp m'
  /-- The object. -/
  holds : ∃ old new hotness, CopiedOver env pc none none target old ∧
    CopiedOver env pc none (some ⟨mioHintObjHotIndex, hotness⟩) none new ∧
    m'.Holds oid (new.overlay (old.overlay c))
  /-- The temporary one. -/
  tmp : m'.entities tmp = none ∧ m'.attrs tmp = none

theorem MotrStore.OnlyAt₂.refl {tmp : MioObjId} (m : MotrStore) : m.OnlyAt₂ oid tmp m :=
  fun o _ _ => .refl m o

theorem MotrStore.OnlyAt₂.trans {tmp : MioObjId} {m' m'' : MotrStore} (h : m.OnlyAt₂ oid tmp m')
    (h' : m'.OnlyAt₂ oid tmp m'') : m.OnlyAt₂ oid tmp m'' :=
  fun o ho ho' => (h o ho ho').trans (h' o ho ho')

theorem MotrStore.OnlyAt₂.symm {tmp : MioObjId} {m' : MotrStore} (h : m.OnlyAt₂ tmp oid m') :
    m.OnlyAt₂ oid tmp m' := fun o ho ho' => h o ho' ho

theorem MotrStore.OnlyAt.left {tmp : MioObjId} {m' : MotrStore} (h : m.OnlyAt oid m') :
    m.OnlyAt₂ oid tmp m' := fun o ho _ => h o ho

theorem MotrStore.OnlyAt.right {tmp : MioObjId} {m' : MotrStore} (h : m.OnlyAt tmp m') :
    m.OnlyAt₂ oid tmp m' := fun o _ ho => h o ho

/-- Objects of a geometry that fits stay so, where nothing else is put. -/
theorem Env.Fits.onlyAt₂ {tmp : MioObjId} {m' : MotrStore} (henv : env.Fits m)
    (honly : m.OnlyAt₂ oid tmp m')
    (hoid : ∀ e, m'.entities oid = some e → ∃ limit, DrvFits env.conf e.drv limit)
    (htmp : ∀ e, m'.entities tmp = some e → ∃ limit, DrvFits env.conf e.drv limit) :
    env.Fits m' := by
  refine ⟨henv.1, fun o e he => ?_⟩
  by_cases ho : o = oid
  · subst ho
    exact hoid e he
  by_cases ho' : o = tmp
  · subst ho'
    exact htmp e he
  rw [(honly o ho ho').1] at he
  exact henv.2 o e he

/-- The geometry of an object there is. -/
theorem MotrStore.Holds.drv_eq (h : m.Holds oid c) {e : M0Entity} (he : m.entities oid = some e) :
    e.drv = c.drv := by
  obtain ⟨e', he', -, hdrv, -⟩ := h.entity
  rw [he'] at he
  obtain rfl := Option.some.inj he
  exact hdrv

/-- **Moving one object.** Whatever becomes of the move, the content of the object is in
the object or in the temporary one. If the move succeeds, either nothing has changed or the
object is a new one, in the pool of its hotness, and nothing is left of the temporary one. -/
theorem triple_hsmMoveOne (hne : oid ≠ hsmMakeTmpOid hp) (hobj : m.Holds oid c)
    (hpos : 0 < c.size) (henv : env.Fits m) (htarget : TargetIs m (hsmMakeTmpOid hp) target)
    (hfit : BlocksFit hp.copBlockSize c.size)
    (hfit' : ∀ old, target = some old → BlocksFit hp.copBlockSize (max old.size c.size))
    (hpages : ∀ old, target = some old → old.size = 0 ∨ old.pageSize ∣ hp.copBlockSize) :
    Triple (At m) (hsmMoveOne env pc hp oid)
      (fun rc s => rc < 0 ∧ MoveEnd env pc m oid (hsmMakeTmpOid hp) c target s.store ∨
        rc = 0 ∧ (At m s ∨ Moved env pc m oid (hsmMakeTmpOid hp) c target s.store))
      (fun s => MoveEnd env pc m oid (hsmMakeTmpOid hp) c target s.store) := by
  obtain ⟨tmp, htmp⟩ : ∃ tmp, tmp = hsmMakeTmpOid hp := ⟨_, rfl⟩
  simp only [← htmp] at hne htarget ⊢
  have hsame : ∀ {s : Sys}, At m s → MoveEnd env pc m oid tmp c target s.store := by
    intro s hs
    rw [show s.store = m from hs]
    exact .before (.refl m) hobj
  -- whether the object is to be moved
  refine Triple.bind ((triple_hsmObjHintStat hobj.record _).consequence (fun _ hs => hs)
    (fun _ _ hq => hq) fun _ hs => hsame hs) ?_
  rintro ⟨rc, key, hotness⟩
  refine Triple.of_fact fun hkey => ?_
  obtain rfl : key = mioHintObjHotIndex := hkey
  dsimp only
  by_cases hneg : rc < 0
  · rw [if_pos hneg]
    exact Triple.pure fun s hs => Or.inl ⟨hneg, hsame hs⟩
  rw [if_neg hneg]
  refine Triple.bind ((triple_hsmObjIfMoveOp hobj.record _).consequence (fun _ hs => hs)
    (fun _ _ hq => hq) fun _ hs => hsame hs) fun move => ?_
  by_cases hmove : move = hsmObjNotMove
  · rw [if_pos hmove]
    exact Triple.pure fun s hs => Or.inr ⟨rfl, Or.inl hs⟩
  rw [if_neg hmove]
  simp only [← htmp]
  -- the content goes to the temporary object
  refine Triple.bind ((triple_copy hne hobj hpos hfit henv htarget hpages).consequence
    (fun _ hs => hs) (fun _ _ hq => hq)
    fun _ hs => .before hs.2.only hs.2.src) fun rc₁ => ?_
  by_cases hneg₁ : rc₁ < 0
  · rw [if_pos hneg₁]
    exact Triple.pure fun s hs => Or.inl ⟨hneg₁, .before hs.1.only hs.1.src⟩
  rw [if_neg hneg₁]
  refine triple_of_store (P := fun m₁ => CopyEnd m oid tmp c m₁ ∧
    ((rc₁ < 0 ∧ CopyUpset env pc none none target) ∨ rc₁ = 0 ∧ ∃ old,
      CopiedOver env pc none none target old ∧ m₁.Holds tmp (old.overlay c))) fun m₁ hcopy => ?_
  obtain ⟨hend₁, hcopy⟩ := hcopy
  obtain ⟨-, old, hover, htmp₁⟩ := hcopy.resolve_left fun h => hneg₁ h.1
  have holdfits := hover.fits henv htarget
  -- the object is deleted
  have hbetween : ∀ {m' : MotrStore}, Deleted m₁ oid m' → MoveEnd env pc m oid tmp c target m' :=
    fun {m'} hdel => .between old (hend₁.only.trans hdel.onlyAt.left) hover
      (htmp₁.same (hdel.onlyAt tmp hne.symm))
  refine Triple.bind (triple_delete.consequence (fun _ hs => hs)
    (fun _ _ hq => hq) fun _ hs => hbetween hs.2) fun rc₂ => ?_
  by_cases hneg₂ : rc₂ < 0
  · rw [if_pos hneg₂]
    exact Triple.pure fun s hs => Or.inl ⟨hneg₂, hbetween hs.1⟩
  rw [if_neg hneg₂]
  refine triple_of_store (P := fun m₂ => Deleted m₁ oid m₂ ∧
    ((rc₂ < 0 ∧ (env.Rough ∨ m₁.entities oid = none)) ∨
      rc₂ = 0 ∧ m₂ = (m₁.setEntity oid none).setAttrs oid none)) fun m₂ hdel => ?_
  obtain ⟨hdel, hgone⟩ := hdel
  obtain ⟨-, hgone⟩ := hgone.resolve_left fun h => hneg₂ h.1
  have honly₂ : m.OnlyAt₂ oid tmp m₂ := hend₁.only.trans hdel.onlyAt.left
  have htmp₂ : m₂.Holds tmp (old.overlay c) := htmp₁.same (hdel.onlyAt tmp hne.symm)
  have henv₂ : env.Fits m₂ := by
    refine henv.onlyAt₂ honly₂ (fun e he => ?_) fun e he => ?_
    · rw [hgone, MotrStore.entities_setAttrs, MotrStore.entities_setEntity] at he
      exact absurd he (by simp)
    · rw [htmp₂.drv_eq he]
      exact holdfits
  have htarget₂ : TargetIs m₂ oid none := by
    rw [hgone]
    refine ⟨MotrStore.entities_setEntity .., ?_⟩
    rw [MotrStore.attrs_setAttrs]
    exact recordOk_none
  have hfit₂ : BlocksFit hp.copBlockSize (old.overlay c).size := by
    cases target with
    | none =>
      obtain ⟨hints, sel, -, -, rfl⟩ := hover
      rw [show ((ObjContent.empty env (sel.getD env.motrPool)).overlay c).size = c.size from
        Nat.zero_max _]
      exact hfit
    | some co =>
      obtain rfl : old = co := hover
      exact hfit' old rfl
  -- and comes back to a new one
  refine Triple.bind ((triple_copy hne.symm htmp₂ (lt_of_lt_of_le hpos (Nat.le_max_right _ _))
    hfit₂ henv₂ htarget₂ (fun _ h => absurd h (by simp))).consequence
    (fun _ hs => hs) (fun _ _ hq => hq) fun _ hs =>
      .between old (honly₂.trans hs.2.only.symm) hover hs.2.src) fun rc₃ => ?_
  by_cases hneg₃ : rc₃ < 0
  · rw [if_pos hneg₃]
    exact Triple.pure fun s hs => Or.inl ⟨hneg₃, .between old (honly₂.trans hs.1.only.symm) hover
      hs.1.src⟩
  rw [if_neg hneg₃]
  refine triple_of_store (P := fun m₃ => CopyEnd m₂ tmp oid (old.overlay c) m₃ ∧
    ((rc₃ < 0 ∧ CopyUpset env pc none (some ⟨mioHintObjHotIndex, hotness⟩) none) ∨
      rc₃ = 0 ∧ ∃ new, CopiedOver env pc none (some ⟨mioHintObjHotIndex, hotness⟩) none new ∧
      m₃.Holds oid (new.overlay (old.overlay c)))) fun m₃ hback => ?_
  obtain ⟨hend₃, hback⟩ := hback
  obtain ⟨-, new, hover', hobj₃⟩ := hback.resolve_left fun h => hneg₃ h.1
  have honly₃ : m.OnlyAt₂ oid tmp m₃ := honly₂.trans hend₃.only.symm
  -- the temporary object is deleted
  have hafter : ∀ {m' : MotrStore}, Deleted m₃ tmp m' → MoveEnd env pc m oid tmp c target m' :=
    fun {m'} hdel => .after old new hotness (honly₃.trans hdel.onlyAt.right) hover hover'
      (hobj₃.same (hdel.onlyAt oid hne))
  refine triple_delete.consequence (fun _ hs => hs) ?_ fun _ hs => hafter hs.2
  rintro rc₄ s ⟨hdel', hend⟩
  rcases hend with ⟨hneg₄, -⟩ | ⟨hzero, hstore⟩
  · exact Or.inl ⟨hneg₄, hafter hdel'⟩
  · refine Or.inr ⟨hzero, Or.inr ⟨honly₃.trans hdel'.onlyAt.right,
      ⟨old, new, hotness, hover, hover', hobj₃.same (hdel'.onlyAt oid hne)⟩, ?_⟩⟩
    rw [hstore]
    exact ⟨MotrStore.entities_setEntity .., MotrStore.attrs_setAttrs ..⟩

end One

/-! ### Moving many objects -/

section Many

variable {env} {pc} {m : MotrStore} {hp : HsmParams} {idx last : ℤ} {c : ℤ → ObjContent}

/-- The object has this content, whatever pool it is in. -/
def KeptIn (m : MotrStore) (oid : MioObjId) (c : ObjContent) : Prop :=
  ∃ c', m.Holds oid c' ∧ c'.size = c.size ∧ ∀ x < c.size, c'.bytes x = c.bytes x

theorem KeptIn.same {m' : MotrStore} {oid : MioObjId} {c : ObjContent} (h : KeptIn m oid c)
    (hsame : m.SameAt m' oid) : KeptIn m' oid c := by
  obtain ⟨c', hold, hrest⟩ := h
  exact ⟨c', hold.same hsame, hrest⟩

/-- What is copied over a new object is all there is. -/
theorem CopiedOver.keptIn {old c : ObjContent} {oid : MioObjId} {chint : Option MioCmdObjHint}
    (h : CopiedOver env pc none chint none old) (hold : m.Holds oid (old.overlay c)) :
    KeptIn m oid c := by
  obtain ⟨hints, sel, -, -, rfl⟩ := h
  exact ⟨_, hold, Nat.zero_max _, fun x hx => if_pos hx⟩

theorem KeptIn.of_overlay {old c : ObjContent} {oid : MioObjId} {chint : Option MioCmdObjHint}
    (hkept : KeptIn m oid (old.overlay c)) (h : CopiedOver env pc none chint none old) :
    KeptIn m oid c := by
  obtain ⟨c', hold, hsize, hbytes⟩ := hkept
  obtain ⟨hints, sel, -, -, rfl⟩ := h
  have hover : ((ObjContent.empty env (sel.getD env.motrPool)).overlay c).size = c.size :=
    Nat.zero_max _
  rw [hover] at hsize hbytes
  exact ⟨c', hold, hsize, fun x hx => (hbytes x hx).trans (if_pos hx)⟩

/-- The objects from `idx` on that are to be moved. -/
structure MoveObjs (m : MotrStore) (hp : HsmParams) (idx last : ℤ) (c : ℤ → ObjContent) :
    Prop where
  /-- Their contents. -/
  kept : ∀ k, idx ≤ k → k < last → KeptIn m (hsmMakeOid hp k) (c k)
  /-- None of them is empty. -/
  pos : ∀ k, idx ≤ k → k < last → 0 < (c k).size
  /-- Their blocks can be counted. -/
  fits : ∀ k, idx ≤ k → k < last → BlocksFit hp.copBlockSize (c k).size

/-- No object but these and the temporary one is touched. -/
def OnlyObjs (m : MotrStore) (hp : HsmParams) (idx last : ℤ) (m' : MotrStore) : Prop :=
  ∀ o, o ≠ hsmMakeTmpOid hp → (∀ k, idx ≤ k → k < last → o ≠ hsmMakeOid hp k) → m.SameAt m' o

/-- Between two moves all objects have their contents, and there is no temporary one. -/
structure MoveRun (env : Env) (m : MotrStore) (hp : HsmParams) (idx last : ℤ)
    (c : ℤ → ObjContent) (m' : MotrStore) : Prop where
  /-- The objects. -/
  objs : MoveObjs m' hp idx last c
  /-- The temporary one. -/
  tmp : TargetIs m' (hsmMakeTmpOid hp) none
  /-- All others. -/
  only : OnlyObjs m hp idx last m'
  /-- The geometries. -/
  fits : env.Fits m'

/-- What moving many objects leaves behind, whatever becomes of it: at most one of them
does not have its content, and then the temporary object has it. -/
structure MoveLeft (m : MotrStore) (hp : HsmParams) (idx last : ℤ) (c : ℤ → ObjContent)
    (m' : MotrStore) : Prop where
  /-- The objects. -/
  kept : ∃ k, (∀ j, idx ≤ j → j < last → j ≠ k → KeptIn m' (hsmMakeOid hp j) (c j)) ∧
    (idx ≤ k → k < last →
      KeptIn m' (hsmMakeOid hp k) (c k) ∨ KeptIn m' (hsmMakeTmpOid hp) (c k))
  /-- All others. -/
  only : OnlyObjs m hp idx last m'

theorem MoveRun.left {m' : MotrStore} (h : MoveRun env m hp idx last c m') :
    MoveLeft m hp idx last c m' :=
  ⟨⟨idx, fun j hj hj' _ => h.objs.kept j hj hj', fun hk hk' => Or.inl (h.objs.kept idx hk hk')⟩,
    h.only⟩

/-- The moved object is one of these. -/
theorem OnlyObjs.trans {m' m'' : MotrStore} {i : ℤ} (h : OnlyObjs m hp idx last m')
    (h' : m'.OnlyAt₂ (hsmMakeOid hp i) (hsmMakeTmpOid hp) m'') (hi : idx ≤ i) (hi' : i < last) :
    OnlyObjs m hp idx last m'' := fun o ho hobjs =>
  (h o ho hobjs).trans (h' o (hobjs i hi hi') ho)

/-- The other objects are left alone. -/
theorem MoveRun.other {m' m'' : MotrStore} {i j : ℤ} (h : MoveRun env m hp idx last c m')
    (h' : m'.OnlyAt₂ (hsmMakeOid hp i) (hsmMakeTmpOid hp) m'') (hidx : -2 ^ 31 ≤ idx)
    (hlast : last ≤ 2 ^ 31) (hi : idx ≤ i) (hi' : i < last) (hj : idx ≤ j) (hj' : j < last)
    (hji : j ≠ i) : KeptIn m'' (hsmMakeOid hp j) (c j) :=
  (h.objs.kept j hj hj').same (h' _ (hsmMakeOid_ne hp hji (by omega) (by omega))
    (hsmMakeOid_ne_tmp hp j))

/-- **One move of many.** -/
theorem triple_hsmMoveOne_run {m' : MotrStore} {i : ℤ} (hrun : MoveRun env m hp idx last c m')
    (hidx : -2 ^ 31 ≤ idx) (hlast : last ≤ 2 ^ 31) (hi : idx ≤ i) (hi' : i < last) :
    Triple (At m') (hsmMoveOne env pc hp (hsmMakeOid hp i))
      (fun rc s => rc < 0 ∧ MoveLeft m hp idx last c s.store ∨
        rc = 0 ∧ MoveRun env m hp idx last c s.store)
      (fun s => MoveLeft m hp idx last c s.store) := by
  obtain ⟨ci, hold, hsize, hbytes⟩ := hrun.objs.kept i hi hi'
  have hci : ∀ {m₁ : MotrStore} {o : MioObjId}, KeptIn m₁ o ci → KeptIn m₁ o (c i) := by
    rintro m₁ o ⟨c', hold', hsize', hbytes'⟩
    refine ⟨c', hold', hsize'.trans hsize, fun x hx => ?_⟩
    exact (hbytes' x (hsize ▸ hx)).trans (hbytes x hx)
  have hleft : ∀ {m₁ : MotrStore},
      MoveEnd env pc m' (hsmMakeOid hp i) (hsmMakeTmpOid hp) ci none m₁ →
      MoveLeft m hp idx last c m₁ := by
    intro m₁ hend
    have honly : m'.OnlyAt₂ (hsmMakeOid hp i) (hsmMakeTmpOid hp) m₁ := by
      cases hend with
      | before only _ => exact only
      | between _ only _ _ => exact only
      | after _ _ _ only _ _ _ => exact only
    refine ⟨⟨i, fun j hj hj' hji => hrun.other honly hidx hlast hi hi' hj hj' hji, fun _ _ => ?_⟩,
      hrun.only.trans honly hi hi'⟩
    cases hend with
    | before _ holds => exact Or.inl (hci ⟨ci, holds, rfl, fun _ _ => rfl⟩)
    | between old _ hover holds => exact Or.inr (hci (hover.keptIn holds))
    | after old new hotness _ hover hover' holds =>
      exact Or.inl (hci ((hover'.keptIn holds).of_overlay hover))
  have hblocks : BlocksFit hp.copBlockSize ci.size := by
    rw [hsize]
    exact hrun.objs.fits i hi hi'
  refine (triple_hsmMoveOne (hsmMakeOid_ne_tmp hp i) hold
    (by rw [hsize]; exact hrun.objs.pos i hi hi') hrun.fits hrun.tmp hblocks
    (fun _ h => absurd h (by simp)) (fun _ h => absurd h (by simp))).consequence
    (fun _ hs => hs) ?_ fun _ hs => hleft hs
  rintro rc s (⟨hneg, hend⟩ | ⟨hzero, hsame | hmoved⟩)
  · exact Or.inl ⟨hneg, hleft hend⟩
  · rw [show s.store = m' from hsame]
    exact Or.inr ⟨hzero, hrun⟩
  · obtain ⟨honly, ⟨old, new, hotness, hover, hover', hnew⟩, htmp, hattrs⟩ := hmoved
    refine Or.inr ⟨hzero, ⟨fun j hj hj' => ?_, hrun.objs.pos, hrun.objs.fits⟩,
      ⟨htmp, by rw [hattrs]; exact recordOk_none⟩, hrun.only.trans honly hi hi', ?_⟩
    · by_cases hji : j = i
      · subst hji
        exact hci ((hover'.keptIn hnew).of_overlay hover)
      · exact hrun.other honly hidx hlast hi hi' hj hj' hji
    · refine hrun.fits.onlyAt₂ honly (fun e he => ?_) fun e he => ?_
      · rw [hnew.drv_eq he]
        obtain ⟨hints, sel, -, -, rfl⟩ := hover'
        exact hrun.fits.1 _
      · rw [htmp] at he
        exact absurd he (by simp)

/-- The end of the range of objects that `hsm_move_objs` moves. -/
def hsmLast (hp : HsmParams) (idx nrObjs : Int32) : ℤ :=
  min (idx.toInt + nrObjs.toInt) hp.copNrObjs.toInt

end Many

/-! ### An example -/

/-- One object, moved in blocks of two bytes. -/
def HsmParams.one : HsmParams := ⟨oidOf 0, 1, 2⟩

/-- The object, of three bytes. -/
def MotrStore.one : MotrStore := MotrStore.empty.put (hsmMakeOid .one 0) 3

end CortxMio
