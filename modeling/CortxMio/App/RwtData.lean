import CortxMio.App.RwtRun

/-!
# What the readers read

The runs of `mio_rw_threads` on the objects that Motr keeps: `rwt_obj_write`, `rwt_obj_read`
and `obj_rm` are programs (`CortxMio.rwtStoreIo`), each of which is one step here, and in
which everything may fail. A write leaves in the object what its digest is of
(`CortxMio.triple_rwtObjWrite`), a read finds it there (`CortxMio.triple_rwtObjRead`), and
neither touches another object; so whatever the threads do, and whatever fails, all objects
that are done match (`CortxMio.rwt_matches`). If nothing fails, all objects come to be done,
and none of them is left (`CortxMio.rwt_completes`).
-/

namespace CortxMio

open Lib

variable (env : Env) (pc : PoolConf) (th : IoThreadEnv)

/-! ### The calls -/

/-- `obj_create`. -/
def objCreate (pool : Option MioPoolId) (oid : MioObjId) (chint : Option MioCmdObjHint) :
    StoreM (ℤ × ObjHandle) := do
  let (rc, h) ← mioObjOpenOp env oid
  if rc = 0 then pure (-EEXIST, h)
  else if rc = -ENOENT then objDoCreate env pc pool oid chint
  else pure (rc, h)

/-- `rwt_obj_write`: what it returns, and the digest. -/
def rwtObjWrite (todo : RwtObjTodo) : StoreM (ℤ × Md5sum) := do
  let (rc, obj) ← objCreate env pc none todo.otOid none
  if rc < 0 ∧ rc ≠ -EEXIST then pure (rc, todo.otMd5sumWrite)
  else
    let (rc, obj, md5sum) ← ioThreadObjWrite env th obj todo.otBlockSize.toNat
      todo.otBlockCount.toNat
    mioObjCloseOp env obj
    pure (rc, md5sum)

/-- `rwt_obj_read`: what it returns, and the digest. -/
def rwtObjRead (todo : RwtObjTodo) : StoreM (ℤ × Md5sum) := do
  let (rc, obj) ← mioObjOpenOp env todo.otOid
  if rc < 0 then pure (rc, todo.otMd5sumRead)
  else
    let (rc, obj, md5sum) ← ioThreadObjRead env th obj todo.otBlockSize.toNat
      todo.otBlockCount.toNat
    mioObjCloseOp env obj
    pure (rc, md5sum)

/-- The threads work on the objects that Motr keeps. -/
def rwtStoreIo : RwtIo Sys where
  write := fun todo d rc md5sum d' => rwtObjWrite env pc th todo d = .ok (rc, md5sum) d'
  read := fun todo d rc md5sum d' => rwtObjRead env th todo d = .ok (rc, md5sum) d'
  remove := fun todo d d' => ∃ rc, mioObjDeleteOp env todo.otOid d = .ok rc d'

/-! ### What codes tell -/

section Codes

variable {env} {pc} {m : MotrStore} {oid : MioObjId}

/-- A Motr op that is not finished fails with a code of its own: `-ENOENT` and `-EEXIST` tell
of objects. -/
def Env.Tells (env : Env) : Prop :=
  ∀ t rc neg left, env.verdict t = .failed rc neg left → rc ≠ -ENOENT ∧ rc ≠ -EEXIST

theorem triple_motrOp_tells (htells : env.Tells) (run : MotrStore → ℤ × MotrStore)
    (left : Leftover → MotrStore → MotrStore) :
    Triple (At m) (motrOp env run left)
      (fun rc _ => rc = (run m).1 ∨ rc ≠ -ENOENT ∧ rc ≠ -EEXIST) (fun _ => True) := by
  refine Triple.bind triple_ask fun v => Triple.of_fact fun hv => Triple.get_bind fun s hs => ?_
  obtain ⟨t, hv⟩ := hv
  cases v with
  | stable => exact fun u hu => Or.inl (congrArg (fun m => (run m).1) hs)
  | failed rc neg l => exact fun u hu => Or.inr (htells t rc neg l hv)
  | killed l => exact fun u hu => trivial

/-- What a code of `mio_obj_open` tells. -/
theorem triple_open_tells (htells : env.Tells) :
    Triple (At m) (mioObjOpenOp env oid)
      (fun r _ => r.1 ≠ -EEXIST ∧ (r.1 = -ENOENT → m.entities oid = none)) (fun _ => True) := by
  refine Triple.bind (triple_motrOp_tells htells _ _) fun rc => Triple.of_start fun s hrc => ?_
  by_cases hneg : rc < 0
  · rw [if_pos hneg]
    refine Triple.pure fun _ _ => ?_
    rcases hrc with rfl | ⟨hno, hexist⟩
    · rw [m0EntityOpen]
      split
      · next hnone => exact ⟨show (-ENOENT : ℤ) ≠ -EEXIST by decide, fun _ => hnone⟩
      · exact ⟨show (0 : ℤ) ≠ -EEXIST by decide,
          fun h => absurd h (show (0 : ℤ) ≠ -ENOENT by decide)⟩
    · exact ⟨hexist, fun h => absurd h hno⟩
  rw [if_neg hneg]
  have hnonneg : ∀ {rc : ℤ}, ¬rc < 0 → rc ≠ -EEXIST ∧ (rc = -ENOENT → m.entities oid = none) := by
    intro rc hrc
    have h1 : (-EEXIST : ℤ) < 0 := by decide
    have h2 : (-ENOENT : ℤ) < 0 := by decide
    exact ⟨by rintro rfl; exact hrc h1, by rintro rfl; exact absurd h2 hrc⟩
  refine Triple.get_bind fun t _ => ?_
  split
  · exact Triple.pure fun _ _ => hnonneg hneg
  · next e _ =>
    refine Triple.bind ((triple_motrOp_tells (m := t.store) htells (fun m => (0, m))
      fun _ m => m).consequence (fun u hu => by rw [hu]; rfl) (fun _ _ hq => hq) fun _ h => h)
      fun rc' => Triple.of_start fun u hrc' => ?_
    by_cases hneg' : rc' < 0
    · rw [if_pos hneg']
      refine Triple.pure fun _ _ => ?_
      rcases hrc' with rfl | ⟨hno, hexist⟩
      · exact absurd hneg' (by simp)
      · exact ⟨hexist, fun h => absurd h hno⟩
    · rw [if_neg hneg']
      cases motrObjAttrsGetPp (t.store.attrs oid) (objInit e.drv) with
      | ok obj => exact fun _ _ => hnonneg (lt_irrefl 0)
      | error f => exact fun _ _ => trivial

/-- What a code of `mio_motr_obj_create` tells, where there is no object. -/
theorem triple_create_tells (htells : env.Tells) (hnone : m.entities oid = none)
    (pool : Option MioPoolId) :
    Triple (At m) (mioObjCreateOp env pool oid) (fun r _ => r.1 ≠ -EEXIST) (fun _ => True) := by
  refine Triple.bind (triple_motrOp_tells htells _ _) fun rc => Triple.pure fun _ hrc => ?_
  rcases hrc with rfl | ⟨-, hexist⟩
  · rw [m0EntityCreate, hnone]
    exact show (0 : ℤ) ≠ -EEXIST by decide
  · exact hexist

/-- The same for `obj_do_create`. -/
theorem triple_objDoCreate_tells (htells : env.Tells) (hnone : m.entities oid = none)
    (pool : Option MioPoolId) (chint : Option MioCmdObjHint) :
    Triple (At m) (objDoCreate env pc pool oid chint) (fun r _ => r.1 ≠ -EEXIST)
      (fun _ => True) := by
  obtain ⟨hints, hhints⟩ := exists_chintHints chint
  rw [objDoCreate, hhints]
  dsimp only
  cases objCreatePoolId pc.sysHints pc.statics pool hints with
  | error f => exact fun _ _ => trivial
  | ok sel => exact triple_create_tells htells hnone sel

end Codes

/-! ### A write -/

section Write

variable {env} {pc} {th} {m : MotrStore} {oid : MioObjId} {target : Option ObjContent}

/-- **The object is created or opened**, and the code tells which. -/
theorem triple_objCreate (htells : env.Tells) (htarget : TargetIs m oid target)
    (pool : Option MioPoolId) (chint : Option MioCmdObjHint) :
    Triple (At m) (objCreate env pc pool oid chint)
      (fun r s => CopyLeft m oid s.store ∧ (((r.1 < 0 ∧ r.1 ≠ -EEXIST) ∧ env.Rough) ∨
        (r.1 = 0 ∨ r.1 = -EEXIST) ∧
          ∃ old, TargetOpened env pc m oid pool chint target r.2 s.store old))
      (fun _ => CopyUpset env pc pool chint target) := by
  have hrec := htarget.recordOk
  have hsame : ∀ {s : Sys}, At m s → CopyLeft m oid s.store := by
    intro s hs
    rw [show s.store = m from hs]
    exact ⟨.refl _ _, hrec⟩
  refine Triple.bind (((triple_open hrec).and (triple_open_tells htells)).consequence
    (fun _ hs => hs) (fun r s hq => (⟨⟨hq.1.1, hq.2⟩, hq.1.2⟩ :
      (OpenBack env m oid r ∧ r.1 ≠ -EEXIST ∧ (r.1 = -ENOENT → m.entities oid = none)) ∧ At m s))
    fun _ hs => Or.inl hs.1.1) ?_
  rintro ⟨rc, h⟩
  refine Triple.of_fact fun hopen => ?_
  obtain ⟨⟨-, hopen⟩, hexist, hnoent⟩ := hopen
  dsimp only at hopen hexist hnoent ⊢
  by_cases hzero : rc = 0
  · -- the object is there, and the handle is open on it: `-EEXIST`
    rw [if_pos hzero]
    refine Triple.pure fun s hs => ⟨hsame hs, Or.inr ⟨Or.inr rfl, ?_⟩⟩
    rcases hopen with ⟨hneg, -⟩ | ⟨-, e, hid, hon, hsize⟩
    · omega
    have he := hon.entity
    rw [hid] at he
    cases target with
    | none => exact absurd (htarget.1.symm.trans he) (by simp)
    | some c =>
      have hold : m.Holds oid c := htarget
      obtain ⟨e', he', hpool, hdrv, hbytes⟩ := hold.entity
      obtain rfl : e' = e := Option.some.inj (he'.symm.trans he)
      refine ⟨c, rfl, hsame hs, hid, ⟨e', ?_, hpool, hdrv, hbytes⟩, ?_, ?_⟩
      · rw [show s.store = m from hs]
        exact hon
      · exact hsize.trans hold.size
      · rw [show s.store = m from hs]
        exact Or.inl hold.size
  rw [if_neg hzero]
  by_cases hno : rc = -ENOENT
  · -- there is none, so it is not for this reason that creating one may fail
    rw [if_pos hno]
    have hnone := hnoent hno
    have htgt : target = none := by
      cases target with
      | none => rfl
      | some c =>
        obtain ⟨e, he, -⟩ := MotrStore.Holds.entity htarget
        exact absurd (hnone.symm.trans he) (by simp)
    refine ((triple_objDoCreate htarget (Or.inr htgt)).and
      (triple_objDoCreate_tells htells hnone pool chint)).consequence (fun _ hs => hs) ?_
      fun _ hs => hs.1.1
    rintro r s ⟨⟨hleft, hmade⟩, hexist⟩
    exact ⟨hleft, hmade.imp (fun h => ⟨⟨h.1, hexist⟩, h.2⟩) fun h => ⟨Or.inl h.1, h.2⟩⟩
  · rw [if_neg hno]
    refine Triple.pure fun s hs => ⟨hsame hs, Or.inl ?_⟩
    rcases hopen with ⟨hneg, hrough | ⟨h, -⟩⟩ | ⟨h, -⟩
    · exact ⟨⟨hneg, hexist⟩, hrough⟩
    · exact absurd h hno
    · exact absurd h hzero

/-- Blocks of 32 bits fit. -/
theorem blocksFit_of_lt {bs bc : UInt32} (hpos : 0 < bs.toNat * bc.toNat)
    (hlt : bs.toNat * bc.toNat < 2 ^ 32) : BlocksFit bs.toNat (bs.toNat * bc.toNat) := by
  have hbs := bs.toNat_lt
  refine ⟨Nat.pos_of_mul_pos_right hpos, by omega, ?_⟩
  have hmax : mioCmdMaxBlockCountPerOp ≤ 2 ^ 31 := by decide
  calc mioCmdMaxBlockCountPerOp * bs.toNat ≤ 2 ^ 31 * bs.toNat := Nat.mul_le_mul_right _ hmax
    _ < 2 ^ 64 := by omega

/-- The object begins with what the digest is of. -/
def HasDigest (env : Env) (th : IoThreadEnv) (oid : MioObjId) (total : ℕ) (md5sum : Md5sum)
    (m : MotrStore) : Prop :=
  ∃ c, m.Holds oid c ∧ total ≤ c.size ∧ md5sum = th.md5 (memBytes c.bytes 0 total) ∧
    ∃ limit, DrvFits env.conf c.drv limit

theorem HasDigest.same {total : ℕ} {md5sum : Md5sum} {m' : MotrStore}
    (h : HasDigest env th oid total md5sum m) (hsame : m.SameAt m' oid) :
    HasDigest env th oid total md5sum m' :=
  h.imp fun _ hc => ⟨hc.1.same hsame, hc.2⟩

/-- The bytes that have been written over the start of an object. -/
theorem memBytes_written (old : ObjContent) (bytes : List Byte) :
    memBytes (old.written bytes.length (byteAt bytes)).bytes 0 bytes.length = bytes := by
  refine eq_of_byteAt (length_memBytes _ _ _) fun x hx => ?_
  rw [length_memBytes] at hx
  rw [byteAt_memBytes hx, Nat.zero_add, ObjContent.written]
  exact if_pos hx

/-- **A write** touches no other object, and if it succeeds, the object begins with what the
digest is of. -/
theorem triple_rwtObjWrite {todo : RwtObjTodo} (htells : env.Tells)
    (htarget : TargetIs m todo.otOid target)
    (hpos : 0 < todo.otBlockSize.toNat * todo.otBlockCount.toNat)
    (hlt : todo.otBlockSize.toNat * todo.otBlockCount.toNat < 2 ^ 32)
    (hdst : ∀ old, CopiedOver env pc none none target old →
      ∃ limit, DrvFits env.conf old.drv limit)
    (hpages : ∀ old, target = some old →
      old.size = 0 ∨ old.pageSize ∣ todo.otBlockSize.toNat) :
    Triple (At m) (rwtObjWrite env pc th todo)
      (fun r s => m.OnlyAt todo.otOid s.store ∧ ((r.1 < 0 ∧ env.Rough) ∨
        r.1 = 0 ∧ HasDigest env th todo.otOid
          (todo.otBlockSize.toNat * todo.otBlockCount.toNat) r.2 s.store))
      (fun _ => CopyUpset env pc none none target) := by
  refine Triple.bind (triple_objCreate htells htarget none none) ?_
  rintro ⟨rc, h⟩
  refine Triple.of_start fun s hmade => ?_
  obtain ⟨hleft, hmade⟩ := hmade
  dsimp only at hmade ⊢
  rcases hmade with hneg | ⟨hrc, old, hto⟩
  · rw [if_pos hneg.1]
    refine Triple.pure fun t ht => ?_
    subst ht
    exact ⟨hleft.only, Or.inl ⟨hneg.1.1, hneg.2⟩⟩
  rw [if_neg (by rcases hrc with rfl | rfl <;> simp)]
  obtain ⟨limit, hlimit⟩ := hdst old hto.copiedOver
  have hfit := blocksFit_of_lt hpos hlt
  have hold : old.size = 0 ∨ old.pageSize ∣ todo.otBlockSize.toNat := by
    cases target with
    | none =>
      obtain ⟨hints, sel, -, -, rfl⟩ := hto.copiedOver
      exact Or.inl rfl
    | some c =>
      obtain rfl : old = c := hto.copiedOver
      exact hpages old rfl
  refine Triple.bind ((triple_ioThreadObjWrite hfit hlt
    (Nat.pos_of_mul_pos_left hpos) hlimit hold fun src => hto.targetInv src _).consequence
      (fun t ht => by rw [ht]; rfl) (fun _ _ hq => hq) fun _ ht => Or.inl ht.1) ?_
  rintro ⟨rc', obj, md5sum⟩
  refine Triple.of_start fun t hwritten => ?_
  obtain ⟨hleft', hid, hhints, hdone⟩ := hwritten
  dsimp only at hid hhints hdone ⊢
  refine Triple.bind ((triple_close hhints).consequence (fun u hu => by rw [hu]; rfl)
    (fun _ _ hq => hq) fun _ hu => Or.inl hu.1) fun _ => Triple.pure fun u hclosed => ?_
  have hclosed : Closed t.store obj u.store := hclosed
  have honly := hclosed.onlyAt
  rw [hid] at honly
  refine ⟨hleft'.only.trans honly, hdone.imp id ?_⟩
  rintro ⟨hzero, bytes, hlen, rfl, hsize, holds⟩
  rw [← hid] at holds ⊢
  refine ⟨hzero, _, holds.closed hsize hclosed, le_max_right _ _, ?_, limit, hlimit⟩
  rw [← hlen, memBytes_written]

end Write

/-! ### A read -/

section Read

variable {env} {th} {m : MotrStore}

/-- **A read** touches no other object, leaves the content as it is, and if it succeeds, has
the digest that the object begins with. -/
theorem triple_rwtObjRead {todo : RwtObjTodo} {md5sum : Md5sum}
    (hpos : 0 < todo.otBlockSize.toNat * todo.otBlockCount.toNat)
    (hlt : todo.otBlockSize.toNat * todo.otBlockCount.toNat < 2 ^ 32)
    (hobj : HasDigest env th todo.otOid (todo.otBlockSize.toNat * todo.otBlockCount.toNat) md5sum
      m) :
    Triple (At m) (rwtObjRead env th todo)
      (fun r s => m.OnlyAt todo.otOid s.store ∧ HasDigest env th todo.otOid
        (todo.otBlockSize.toNat * todo.otBlockCount.toNat) md5sum s.store ∧
          ((r.1 < 0 ∧ env.Rough) ∨ r.1 = 0 ∧ md5sum = r.2))
      (fun _ => env.Rough) := by
  obtain ⟨c, holds, hsize, hdigest, limit, hlimit⟩ := hobj
  refine Triple.bind ((triple_open holds.record).consequence (fun _ hs => hs) (fun _ _ hq => hq)
    fun _ hs => hs.1) ?_
  rintro ⟨rc, h⟩
  refine Triple.of_fact fun hopen => ?_
  obtain ⟨-, hopen⟩ := hopen
  dsimp only at hopen ⊢
  by_cases hneg : rc < 0
  · rw [if_pos hneg]
    refine Triple.pure fun s hs => ?_
    rw [show s.store = m from hs]
    refine ⟨.refl _ _, ⟨c, holds, hsize, hdigest, limit, hlimit⟩, Or.inl ⟨hneg, ?_⟩⟩
    rcases hopen with ⟨-, hrough | ⟨-, hnone⟩⟩ | ⟨hzero, -⟩
    · exact hrough
    · obtain ⟨e, he, -⟩ := holds.entity
      exact absurd (hnone.symm.trans he) (by simp)
    · omega
  rw [if_neg hneg]
  obtain ⟨-, e, hid, hon, hstored⟩ := hopen.resolve_left fun h => hneg h.1
  obtain ⟨e', he', -, hdrv, hbytes⟩ := holds.entity
  have he := hon.entity
  rw [hid] at he
  obtain rfl : e' = e := Option.some.inj (he'.symm.trans he)
  refine Triple.bind ((triple_ioThreadObjRead (blocksFit_of_lt hpos hlt) hlt
    (Nat.pos_of_mul_pos_left hpos) hsize hlimit hid (hstored.trans holds.size) hon hdrv
      hbytes).consequence (fun _ hs => hs) (fun _ _ hq => hq) fun _ hs => hs.1) ?_
  rintro ⟨rc', obj, md5sum'⟩
  refine Triple.of_fact fun hread => ?_
  obtain ⟨hid', hobjsize, hhints, hdone⟩ := hread
  dsimp only at hid' hobjsize hhints hdone ⊢
  refine Triple.bind ((triple_close hhints).consequence (fun _ hs => hs) (fun _ _ hq => hq)
    fun _ hs => hs.1) fun _ => Triple.pure fun u hclosed => ?_
  have hclosed : Closed m obj u.store := hclosed
  rw [← hid'] at holds ⊢
  exact ⟨hclosed.onlyAt, ⟨c, holds.closed hobjsize hclosed, hsize, hdigest, limit, hlimit⟩,
    hdone.imp id fun h => ⟨h.1, hdigest.trans h.2.symm⟩⟩

end Read

/-! ### A run -/

section Run

variable {σ : Type*} {io : RwtIo σ} {F : Prop} {W : RwtObjTodo → Prop} {A : MioObjId → σ → Prop}
  {B : RwtObjTodo → σ → Prop} {R : MioObjId → σ → Prop} {s t : RwtState σ}
  {es : List RwtEvent} {e : RwtEvent}

/-- What work on one object does not change of the others: those that have not been written
yet are as they should be, and so are those that have been written or removed. -/
structure Elsewhere (A : MioObjId → σ → Prop) (B : RwtObjTodo → σ → Prop)
    (R : MioObjId → σ → Prop) (oid : MioObjId) (d d' : σ) : Prop where
  /-- Not written yet. -/
  untouched : ∀ o, o ≠ oid → A o d → A o d'
  /-- Written. -/
  written : ∀ todo, todo.otOid ≠ oid → B todo d → B todo d'
  /-- Removed. -/
  removed : ∀ o, o ≠ oid → R o d → R o d'

/-- What threads make of an object is right, if it is what they find, and they come to an end
and do not fail unless something goes wrong. -/
structure RwtIo.Sound (io : RwtIo σ) (F : Prop) (W : RwtObjTodo → Prop) (A : MioObjId → σ → Prop)
    (B : RwtObjTodo → σ → Prop) (R : MioObjId → σ → Prop) : Prop where
  /-- `rwt_obj_write`. -/
  write : ∀ {todo d rc md5sum d'}, W todo → A todo.otOid d → io.write todo d rc md5sum d' →
    Elsewhere A B R todo.otOid d d' ∧
      ((rc < 0 ∧ F) ∨ rc = 0 ∧ B { todo with otMd5sumWrite := md5sum } d')
  /-- `rwt_obj_read`: what it reads is not different from what has been written. -/
  read : ∀ {todo d rc md5sum d'}, B todo d → io.read todo d rc md5sum d' →
    Elsewhere A B R todo.otOid d d' ∧ (∀ todo', todo'.otOid = todo.otOid → B todo' d → B todo' d') ∧
      ((rc < 0 ∧ F) ∨ 0 ≤ rc ∧ rwtObjVerifyMd5sums { todo with otMd5sumRead := md5sum })
  /-- `obj_rm`. -/
  remove : ∀ {todo d d'}, io.remove todo d d' →
    Elsewhere A B R todo.otOid d d' ∧ (F ∨ R todo.otOid d')
  /-- `rwt_obj_write` returns. -/
  writes : ∀ {todo d}, W todo → A todo.otOid d → F ∨ ∃ rc md5sum d', io.write todo d rc md5sum d'
  /-- `rwt_obj_read` returns. -/
  reads : ∀ {todo d}, B todo d → F ∨ ∃ rc md5sum d', io.read todo d rc md5sum d'
  /-- `obj_rm` returns. -/
  removes : ∀ todo d, F ∨ ∃ d', io.remove todo d d'

/-- Where the objects come from that threads have. -/
structure RwtOrigin (W : RwtObjTodo → Prop) (es : List RwtEvent) (s : RwtState σ) : Prop where
  /-- Those to be written. -/
  toWrite : ∀ todo ∈ s.objToWriteList.otlHead, W todo
  /-- One that is written. -/
  write : ∀ todo, .write todo ∈ s.writers → W todo
  /-- One that has been written. -/
  put : ∀ todo rc, .put todo rc ∈ s.writers → ∃ i, .write i todo rc ∈ es
  /-- Those to be read. -/
  toRead : ∀ todo ∈ s.objToReadList.otlHead, ∃ i, .write i todo 0 ∈ es
  /-- One that is read. -/
  read : ∀ todo, .read todo ∈ s.readers → ∃ i, .write i todo 0 ∈ es

/-- A reader that is woken up has nothing else in its hands. -/
theorem mem_of_mem_wake {pc : RwtReader} {readers : List RwtReader} (hne : pc ≠ .take)
    (h : pc ∈ readers.map .wake) : pc ∈ readers := by
  obtain ⟨pc', hmem, rfl⟩ := List.mem_map.mp h
  cases pc' with
  | wait => exact absurd rfl hne
  | _ => exact hmem

/-- Nothing comes from anywhere else. -/
theorem RwtOrigin.step (h : RwtOrigin W es s) (hstep : RwtStep io s e t) :
    RwtOrigin W (es ++ [e]) t := by
  have hold : ∀ {todo rc}, (∃ i, RwtEvent.write i todo rc ∈ es) →
      ∃ i, RwtEvent.write i todo rc ∈ es ++ [e] :=
    fun h => h.imp fun i hi => List.mem_append_left _ hi
  have hput := fun todo rc hmem => hold (h.put todo rc hmem)
  have htoRead := fun todo hmem => hold (h.toRead todo hmem)
  have hread := fun todo hmem => hold (h.read todo hmem)
  cases hstep with
  | writerTake hi =>
    rcases rwtWriterTake_cases s.objToWriteList with ⟨-, heq⟩ | ⟨-, -, heq⟩ |
      ⟨-, todo, next, hhead, heq⟩
    · rw [heq]
      refine ⟨h.toWrite, fun todo hmem => ?_, fun todo rc hmem => ?_, htoRead, hread⟩
      · exact h.write todo ((List.mem_or_eq_of_mem_set hmem).resolve_right (by simp))
      · exact hput todo rc ((List.mem_or_eq_of_mem_set hmem).resolve_right (by simp))
    · rw [heq]
      refine ⟨h.toWrite, fun todo hmem => ?_, fun todo rc hmem => ?_, htoRead, hread⟩
      · exact h.write todo ((List.mem_or_eq_of_mem_set hmem).resolve_right (by simp))
      · exact hput todo rc ((List.mem_or_eq_of_mem_set hmem).resolve_right (by simp))
    · rw [heq]
      have hw := h.toWrite
      rw [hhead] at hw
      refine ⟨fun todo' hmem => hw todo' (List.mem_cons_of_mem _ hmem), fun todo' hmem => ?_,
        fun todo' rc hmem => ?_, htoRead, hread⟩
      · rcases List.mem_or_eq_of_mem_set hmem with hmem | heq'
        · exact h.write todo' hmem
        · rw [RwtWriter.write.inj heq']
          exact hw todo List.mem_cons_self
      · exact hput todo' rc ((List.mem_or_eq_of_mem_set hmem).resolve_right (by simp))
  | @write i todo rc md5sum d hi hd =>
    refine ⟨h.toWrite, fun todo' hmem => ?_, fun todo' rc' hmem => ?_, htoRead, hread⟩
    · exact h.write todo' ((List.mem_or_eq_of_mem_set hmem).resolve_right (by simp))
    · rcases List.mem_or_eq_of_mem_set hmem with hmem | heq'
      · exact hput todo' rc' hmem
      · obtain ⟨rfl, rfl⟩ := RwtWriter.put.inj heq'
        exact ⟨i, List.mem_append_right _ (List.mem_singleton.mpr rfl)⟩
  | @writerPut i todo rc hi =>
    refine ⟨h.toWrite, fun todo' hmem => ?_, fun todo' rc' hmem => ?_, fun todo' hmem => ?_,
      fun todo' hmem => hread todo' (mem_of_mem_wake (by simp) hmem)⟩
    · exact h.write todo' ((List.mem_or_eq_of_mem_set hmem).resolve_right (by simp))
    · exact hput todo' rc' ((List.mem_or_eq_of_mem_set hmem).resolve_right (by simp))
    · simp only [rwtWriterPut] at hmem
      split at hmem
      · next hrc =>
        rcases List.mem_cons.mp hmem with rfl | hmem
        · rw [← hrc]
          exact hput todo' rc (List.mem_of_getElem? hi)
        · exact htoRead todo' hmem
      · split at hmem
        · exact htoRead todo' hmem
        · exact htoRead todo' hmem
  | writerExit hi =>
    refine ⟨h.toWrite, fun todo hmem => ?_, fun todo rc hmem => ?_, htoRead,
      fun todo' hmem => hread todo' (mem_of_mem_wake (by simp) hmem)⟩
    · exact h.write todo ((List.mem_or_eq_of_mem_set hmem).resolve_right (by simp))
    · exact hput todo rc ((List.mem_or_eq_of_mem_set hmem).resolve_right (by simp))
  | readerTake hi =>
    rcases rwtReaderTake_cases s.objToReadList with ⟨-, -, heq⟩ | ⟨-, -, heq⟩ | ⟨-, -, heq⟩ |
      ⟨-, todo, next, hhead, heq⟩
    · rw [heq]
      exact ⟨h.toWrite, h.write, hput, htoRead, fun todo hmem =>
        hread todo ((List.mem_or_eq_of_mem_set hmem).resolve_right (by simp))⟩
    · rw [heq]
      exact ⟨h.toWrite, h.write, hput, htoRead, fun todo hmem =>
        hread todo ((List.mem_or_eq_of_mem_set hmem).resolve_right (by simp))⟩
    · rw [heq]
      exact ⟨h.toWrite, h.write, hput, htoRead, fun todo hmem =>
        hread todo ((List.mem_or_eq_of_mem_set hmem).resolve_right (by simp))⟩
    · rw [heq]
      rw [hhead] at htoRead
      refine ⟨h.toWrite, h.write, hput,
        fun todo' hmem => htoRead todo' (List.mem_cons_of_mem _ hmem), fun todo' hmem => ?_⟩
      rcases List.mem_or_eq_of_mem_set hmem with hmem | heq'
      · exact hread todo' hmem
      · rw [RwtReader.read.inj heq']
        exact htoRead todo List.mem_cons_self
  | spurious hi =>
    exact ⟨h.toWrite, h.write, hput, htoRead, fun todo hmem =>
      hread todo ((List.mem_or_eq_of_mem_set hmem).resolve_right (by simp))⟩
  | read hi hd =>
    exact ⟨h.toWrite, h.write, hput, htoRead, fun todo hmem =>
      hread todo ((List.mem_or_eq_of_mem_set hmem).resolve_right (by simp))⟩
  | @readerVerify i todo rc hi =>
    obtain ⟨readAllDone, heq, -⟩ := exists_rwtReaderVerify todo rc s.objToReadList
    have hhead : (rwtReaderVerify todo rc s.objToReadList).2.otlHead = s.objToReadList.otlHead := by
      rw [rwtReaderVerify]
      split <;> rfl
    refine ⟨h.toWrite, h.write, hput, fun todo' hmem => ?_, fun todo' hmem => ?_⟩
    · rw [hhead] at hmem
      exact htoRead todo' hmem
    · rw [heq] at hmem
      exact hread todo' ((List.mem_or_eq_of_mem_set hmem).resolve_right (by simp))
  | @remove i todo readAllDone d hi hd =>
    refine ⟨h.toWrite, h.write, hput, htoRead, fun todo' hmem =>
      hread todo' ((List.mem_or_eq_of_mem_set hmem).resolve_right ?_)⟩
    split <;> simp
  | readerExit hi =>
    exact ⟨h.toWrite, h.write, hput, htoRead, fun todo hmem => hread todo
      ((List.mem_or_eq_of_mem_set (mem_of_mem_wake (by simp) hmem)).resolve_right (by simp))⟩

/-- What has become of the objects. -/
structure RwtContents (F : Prop) (A : MioObjId → σ → Prop) (B : RwtObjTodo → σ → Prop)
    (R : MioObjId → σ → Prop) (es : List RwtEvent) (d : σ) : Prop where
  /-- An object that has been neither written nor removed. -/
  untouched : ∀ oid, es.countP (RwtEvent.writes anyRc (· == oid)) = 0 →
    es.countP (RwtEvent.removes (· == oid)) = 0 → A oid d
  /-- One that has been written, and has not been removed. -/
  written : ∀ i todo, .write i todo 0 ∈ es →
    es.countP (RwtEvent.removes (· == todo.otOid)) = 0 → B todo d
  /-- One that has been removed. -/
  removed : ∀ i todo, .remove i todo ∈ es → F ∨ R todo.otOid d
  /-- What writes have returned. -/
  lost : ∀ e ∈ es, RwtEvent.writes posRc anyOid e = false
  /-- What has failed. -/
  fails : ∀ e ∈ es, e.fails → F

/-- What has not happened. -/
theorem countP_eq_zero_of_append {p : RwtEvent → Bool} (h : (es ++ [e]).countP p = 0) :
    es.countP p = 0 ∧ p e = false := by
  rw [List.countP_append, List.countP_singleton] at h
  refine ⟨by omega, ?_⟩
  cases hp : p e with
  | true => simp [hp] at h
  | false => rfl

/-- A write that has succeeded is counted. -/
theorem countP_writes_pos {i : ℕ} {todo : RwtObjTodo} (h : .write i todo 0 ∈ es) :
    0 < es.countP (RwtEvent.writes anyRc (· == todo.otOid)) :=
  List.countP_pos_iff.mpr ⟨_, h, by simp [RwtEvent.writes, anyRc]⟩

/-- An object that has been removed is another one. -/
theorem ne_of_mem_removes {i : ℕ} {todo : RwtObjTodo} {oid : MioObjId} (h : .remove i todo ∈ es)
    (hnone : es.countP (RwtEvent.removes (· == oid)) = 0) : todo.otOid ≠ oid := by
  rintro rfl
  have hpos : 0 < es.countP (RwtEvent.removes (· == todo.otOid)) :=
    List.countP_pos_iff.mpr ⟨_, h, by simp [RwtEvent.removes]⟩
  omega

/-- Nothing becomes of the objects by themselves. -/
theorem RwtContents.quiet {d : σ} (h : RwtContents F A B R es d)
    (he : ∀ i todo rc, e ≠ .write i todo rc)
    (hremoved : ∀ i todo, e = .remove i todo → F ∨ R todo.otOid d) (hfails : e.fails → F) :
    RwtContents F A B R (es ++ [e]) d where
  untouched := fun oid hwrites hremoves =>
    h.untouched oid (countP_eq_zero_of_append hwrites).1 (countP_eq_zero_of_append hremoves).1
  written := fun i todo hmem hremoves => by
    rcases List.mem_append.mp hmem with hmem | hmem
    · exact h.written i todo hmem (countP_eq_zero_of_append hremoves).1
    · exact absurd (List.mem_singleton.mp hmem).symm (he i todo 0)
  removed := fun i todo hmem => by
    rcases List.mem_append.mp hmem with hmem | hmem
    · exact h.removed i todo hmem
    · exact hremoved i todo (List.mem_singleton.mp hmem).symm
  lost := by
    refine List.forall_mem_append.mpr ⟨h.lost, List.forall_mem_singleton.mpr ?_⟩
    cases e with
    | write i todo rc => exact absurd rfl (he i todo rc)
    | _ => rfl
  fails := List.forall_mem_append.mpr ⟨h.fails, List.forall_mem_singleton.mpr hfails⟩

/-- **A step leaves the objects right**, if those that are written have not been written
before, and those that are read have not been removed. -/
theorem RwtContents.step (h : RwtContents F A B R es s.data) (hio : io.Sound F W A B R)
    (horigin : RwtOrigin W es s)
    (hwrite : ∀ todo, .write todo ∈ s.writers →
      es.countP (RwtEvent.writes anyRc (· == todo.otOid)) = 0 ∧
        es.countP (RwtEvent.removes (· == todo.otOid)) = 0)
    (hread : ∀ todo, .read todo ∈ s.readers →
      es.countP (RwtEvent.removes (· == todo.otOid)) = 0)
    (hstep : RwtStep io s e t) : RwtContents F A B R (es ++ [e]) t.data := by
  cases hstep with
  | @write i todo rc md5sum d hi hd =>
    have hmem := List.mem_of_getElem? hi
    -- it is written for the first time, so nothing has become of it yet
    obtain ⟨hnone, hkept⟩ := hwrite todo hmem
    obtain ⟨helse, hdone⟩ := hio.write (horigin.write todo hmem)
      (h.untouched todo.otOid hnone hkept) hd
    refine ⟨?_, ?_, ?_, ?_, ?_⟩
    · -- what is still not written is another object
      intro oid hwrites hremoves
      obtain ⟨hwrites, hother⟩ := countP_eq_zero_of_append hwrites
      refine helse.untouched oid ?_ (h.untouched oid hwrites (countP_eq_zero_of_append hremoves).1)
      rintro rfl
      simp [RwtEvent.writes, anyRc] at hother
    · intro j todo' hmem' hremoves
      rcases List.mem_append.mp hmem' with hmem' | hmem'
      · refine helse.written todo' (fun heq => ?_)
          (h.written j todo' hmem' (countP_eq_zero_of_append hremoves).1)
        have hpos := countP_writes_pos hmem'
        rw [heq, hnone] at hpos
        exact lt_irrefl 0 hpos
      · obtain ⟨-, rfl, rfl⟩ := RwtEvent.write.inj (List.mem_singleton.mp hmem')
        exact (hdone.resolve_left fun hneg => lt_irrefl 0 hneg.1).2
    · intro j todo' hmem'
      have hmem' := (List.mem_append.mp hmem').resolve_right (by simp)
      exact (h.removed j todo' hmem').imp id
        (helse.removed _ (ne_of_mem_removes hmem' hkept))
    · refine List.forall_mem_append.mpr ⟨h.lost, List.forall_mem_singleton.mpr ?_⟩
      have hrc : rc ≤ 0 := hdone.elim (fun hneg => hneg.1.le) fun hzero => hzero.1.le
      simp [RwtEvent.writes, posRc, hrc]
    · refine List.forall_mem_append.mpr ⟨h.fails, List.forall_mem_singleton.mpr fun hfails => ?_⟩
      have hneg : rc < 0 := of_decide_eq_true hfails
      exact (hdone.resolve_right fun hzero => hneg.ne hzero.1).2
  | @read i todo rc md5sum d hi hd =>
    -- it has been written, and nobody has removed it since
    have hmem := List.mem_of_getElem? hi
    obtain ⟨j, hwritten⟩ := horigin.read todo hmem
    obtain ⟨helse, hsame, hdone⟩ := hio.read (h.written j todo hwritten (hread todo hmem)) hd
    have hquiet := h.quiet (e := .read i { todo with otMd5sumRead := md5sum } rc) (by simp)
      (by simp) fun hfails => (hdone.resolve_right fun hzero =>
        (show rc < 0 from of_decide_eq_true hfails).not_ge hzero.1).2
    refine ⟨?_, ?_, fun k todo' hmem' => ?_, hquiet.lost, hquiet.fails⟩
    · intro oid hwrites hremoves
      refine helse.untouched oid ?_ (hquiet.untouched oid hwrites hremoves)
      rintro rfl
      exact (countP_writes_pos hwritten).ne' (countP_eq_zero_of_append hwrites).1
    · intro k todo' hmem' hremoves
      have hold := hquiet.written k todo' hmem' hremoves
      by_cases heq : todo'.otOid = todo.otOid
      · exact hsame todo' heq hold
      · exact helse.written todo' heq hold
    · have hmem' := (List.mem_append.mp hmem').resolve_right (by simp)
      exact (h.removed k todo' hmem').imp id
        (helse.removed _ (ne_of_mem_removes hmem' (hread todo hmem)))
  | @remove i todo readAllDone d hi hd =>
    obtain ⟨helse, hgone⟩ := hio.remove hd
    -- what has not been removed is another object
    have hother : ∀ {oid}, (es ++ [RwtEvent.remove i todo]).countP
        (RwtEvent.removes (· == oid)) = 0 → oid ≠ todo.otOid := by
      rintro oid hremoves rfl
      have := (countP_eq_zero_of_append hremoves).2
      simp [RwtEvent.removes] at this
    refine ⟨?_, ?_, ?_, ?_, ?_⟩
    · intro oid hwrites hremoves
      exact helse.untouched oid (hother hremoves) (h.untouched oid
        (countP_eq_zero_of_append hwrites).1 (countP_eq_zero_of_append hremoves).1)
    · intro k todo' hmem' hremoves
      exact helse.written todo' (hother hremoves) (h.written k todo'
        ((List.mem_append.mp hmem').resolve_right (by simp)) (countP_eq_zero_of_append hremoves).1)
    · intro k todo' hmem'
      by_cases heq : todo'.otOid = todo.otOid
      · rw [heq]
        exact hgone
      · have hmem' := (List.mem_append.mp hmem').resolve_right fun hlast => heq
          (congrArg RwtObjTodo.otOid (RwtEvent.remove.inj (List.mem_singleton.mp hlast)).2)
        exact (h.removed k todo' hmem').imp id (helse.removed _ heq)
    · exact List.forall_mem_append.mpr ⟨h.lost, List.forall_mem_singleton.mpr rfl⟩
    · exact List.forall_mem_append.mpr ⟨h.fails,
        List.forall_mem_singleton.mpr (by simp [RwtEvent.fails])⟩
  | writerTake _ => exact h.quiet (by simp) (by simp) (by simp [RwtEvent.fails])
  | writerPut _ => exact h.quiet (by simp) (by simp) (by simp [RwtEvent.fails])
  | writerExit _ => exact h.quiet (by simp) (by simp) (by simp [RwtEvent.fails])
  | readerTake _ => exact h.quiet (by simp) (by simp) (by simp [RwtEvent.fails])
  | spurious _ => exact h.quiet (by simp) (by simp) (by simp [RwtEvent.fails])
  | readerVerify _ => exact h.quiet (by simp) (by simp) (by simp [RwtEvent.fails])
  | readerExit _ => exact h.quiet (by simp) (by simp) (by simp [RwtEvent.fails])

/-- What has been read is what has been written. -/
structure RwtMatched (s : RwtState σ) : Prop where
  /-- An object that is still to be counted. -/
  verify : ∀ todo rc, .verify todo rc ∈ s.readers → 0 ≤ rc → rwtObjVerifyMd5sums todo
  /-- Those that have been counted. -/
  matched : s.objToReadList.otlNrMatched = s.objToReadList.otlNrDone

theorem RwtMatched.step (h : RwtMatched s) (hio : io.Sound F W A B R)
    (hread : ∀ todo, .read todo ∈ s.readers → B todo s.data) (hstep : RwtStep io s e t) :
    RwtMatched t := by
  cases hstep with
  | writerTake _ => exact ⟨h.verify, h.matched⟩
  | write _ _ => exact ⟨h.verify, h.matched⟩
  | @writerPut i todo rc _ =>
    refine ⟨fun todo' rc' hmem => h.verify todo' rc' (mem_of_mem_wake (by simp) hmem), ?_⟩
    have hmatched := h.matched
    simp only [rwtWriterPut]
    split
    · exact hmatched
    · split
      · exact hmatched
      · exact hmatched
  | writerExit _ =>
    exact ⟨fun todo rc hmem => h.verify todo rc (mem_of_mem_wake (by simp) hmem), h.matched⟩
  | readerTake _ =>
    rcases rwtReaderTake_cases s.objToReadList with ⟨-, -, heq⟩ | ⟨-, -, heq⟩ | ⟨-, -, heq⟩ |
      ⟨-, todo, next, -, heq⟩ <;> rw [heq] <;>
      exact ⟨fun todo rc hmem => h.verify todo rc
        ((List.mem_or_eq_of_mem_set hmem).resolve_right (by simp)), h.matched⟩
  | spurious _ =>
    exact ⟨fun todo rc hmem => h.verify todo rc
      ((List.mem_or_eq_of_mem_set hmem).resolve_right (by simp)), h.matched⟩
  | @read i todo rc md5sum d hi hd =>
    obtain ⟨-, -, hverify⟩ := hio.read (hread todo (List.mem_of_getElem? hi)) hd
    refine ⟨fun todo' rc' hmem => ?_, h.matched⟩
    rcases List.mem_or_eq_of_mem_set hmem with hmem | heq
    · exact h.verify todo' rc' hmem
    · obtain ⟨rfl, rfl⟩ := RwtReader.verify.inj heq
      exact fun hrc => (hverify.resolve_left fun hneg => hneg.1.not_ge hrc).2
  | @readerVerify i todo rc hi =>
    obtain ⟨readAllDone, heq, -⟩ := exists_rwtReaderVerify todo rc s.objToReadList
    constructor
    · intro todo' rc' hmem
      rw [heq] at hmem
      exact h.verify todo' rc' ((List.mem_or_eq_of_mem_set hmem).resolve_right (by simp))
    · have hmatched := h.matched
      rw [rwtReaderVerify]
      split
      · exact hmatched
      · next hnonneg =>
        have hverify := h.verify todo rc (List.mem_of_getElem? hi) (not_lt.mp hnonneg)
        simp only [if_pos hverify, hmatched]
  | @remove i todo readAllDone d hi hd =>
    refine ⟨fun todo' rc' hmem => h.verify todo' rc'
      ((List.mem_or_eq_of_mem_set hmem).resolve_right ?_), h.matched⟩
    split <;> simp
  | readerExit _ =>
    exact ⟨fun todo rc hmem => h.verify todo rc
      ((List.mem_or_eq_of_mem_set (mem_of_mem_wake (by simp) hmem)).resolve_right (by simp)),
      h.matched⟩

section Counts

variable {malloc : ℕ → Option RwtObjTodo} {stOid : MioObjId} {nrObjs : ℤ} {bs bc : UInt32}
  {nrThreads : ℕ} {d : σ} {todo : RwtObjTodo}

/-- What has been removed has been written. -/
theorem removes_run (hnr : nrObjs ≤ 2 ^ 64) (hrun : Run (RwtStep io)
      (mioRwtStart nrThreads (rwtTodoListsInit malloc stOid nrObjs bs bc) d) es s)
    (oid : MioObjId) :
    (unreadAccount (some01 (· == oid))).total s + es.countP (RwtEvent.removes (· == oid)) ≤
      es.countP (RwtEvent.writes anyRc (· == oid)) := by
  obtain ⟨-, hread, hremoved⟩ := books_run hnr hrun oid
  have hnonneg := ((nonneg_unremoved (· == oid)).le_total s).1
  have hok := countP_writes_le zeroRc (· == oid) es
  omega

/-- An object that is being written has been neither written nor removed. -/
theorem countP_of_write (hnr : nrObjs ≤ 2 ^ 64) (hrun : Run (RwtStep io)
      (mioRwtStart nrThreads (rwtTodoListsInit malloc stOid nrObjs bs bc) d) es s)
    (hmem : .write todo ∈ s.writers) :
    es.countP (RwtEvent.writes anyRc (· == todo.otOid)) = 0 ∧
      es.countP (RwtEvent.removes (· == todo.otOid)) = 0 := by
  obtain ⟨hwritten, -⟩ := books_run hnr hrun todo.otOid
  have hremoved := removes_run hnr hrun todo.otOid
  have hone := ((nonneg_unwritten (· == todo.otOid)).le_total s).2.1 _ hmem
  have hnonneg := ((nonneg_unread (· == todo.otOid)).le_total s).1
  rw [show (unwrittenAccount (some01 (· == todo.otOid))).writer (.write todo) = 1 by
    simp [unwrittenAccount, some01]] at hone
  split at hwritten <;> omega

/-- An object that is being read has not been removed. -/
theorem countP_of_read (hnr : nrObjs ≤ 2 ^ 64) (hrun : Run (RwtStep io)
      (mioRwtStart nrThreads (rwtTodoListsInit malloc stOid nrObjs bs bc) d) es s)
    (hmem : .read todo ∈ s.readers) :
    es.countP (RwtEvent.removes (· == todo.otOid)) = 0 := by
  obtain ⟨hwritten, -⟩ := books_run hnr hrun todo.otOid
  have hremoved := removes_run hnr hrun todo.otOid
  have hone := ((nonneg_unread (· == todo.otOid)).le_total s).2.2 _ hmem
  have hnonneg := ((nonneg_unwritten (· == todo.otOid)).le_total s).1
  rw [show (unreadAccount (some01 (· == todo.otOid))).reader (.read todo) = 1 by
    simp [unreadAccount, some01]] at hone
  split at hwritten <;> omega

/-- An object that has not been asked for is neither written nor removed. -/
theorem countP_of_notMem (hnr : nrObjs ≤ 2 ^ 64) (hrun : Run (RwtStep io)
      (mioRwtStart nrThreads (rwtTodoListsInit malloc stOid nrObjs bs bc) d) es s)
    {oid : MioObjId} (hnot : oid ∉ rwtOids stOid nrObjs) :
    es.countP (RwtEvent.writes anyRc (· == oid)) = 0 ∧
      es.countP (RwtEvent.removes (· == oid)) = 0 := by
  obtain ⟨hwritten, -⟩ := books_run hnr hrun oid
  have hremoved := removes_run hnr hrun oid
  have hnonneg := ((nonneg_unwritten (· == oid)).le_total s).1
  have hnonneg' := ((nonneg_unread (· == oid)).le_total s).1
  rw [if_neg hnot] at hwritten
  omega

/-- **The objects are right after every run.** -/
theorem rwtContents_run (hio : io.Sound F W A B R) (hnr : nrObjs ≤ 2 ^ 64)
    (hlist : ∀ todo ∈ (rwtTodoListsInit malloc stOid nrObjs bs bc).2.1.otlHead, W todo)
    (hdata : ∀ oid, A oid d) (hrun : Run (RwtStep io)
      (mioRwtStart nrThreads (rwtTodoListsInit malloc stOid nrObjs bs bc) d) es s) :
    RwtOrigin W es s ∧ RwtContents F A B R es s.data ∧ RwtMatched s := by
  induction hrun with
  | refl =>
    refine ⟨⟨hlist, ?_, ?_, ?_, ?_⟩, ⟨fun oid _ _ => hdata oid, ?_, ?_, ?_, ?_⟩, ?_, ?_⟩
    · exact fun todo hmem => absurd (List.eq_of_mem_replicate hmem) (by simp)
    · exact fun todo rc hmem => absurd (List.eq_of_mem_replicate hmem) (by simp)
    · rw [mioRwtStart, empty_init]
      exact fun todo hmem => absurd hmem List.not_mem_nil
    · exact fun todo hmem => absurd (List.eq_of_mem_replicate hmem) (by simp)
    · exact fun i todo hmem => absurd hmem List.not_mem_nil
    · exact fun i todo hmem => absurd hmem List.not_mem_nil
    · exact fun e hmem => absurd hmem List.not_mem_nil
    · exact fun e hmem => absurd hmem List.not_mem_nil
    · exact fun todo rc hmem => absurd (List.eq_of_mem_replicate hmem) (by simp)
    · rw [mioRwtStart, empty_init]
      rfl
  | snoc hrun hstep ih =>
    obtain ⟨horigin, hcontents, hmatched⟩ := ih
    refine ⟨horigin.step hstep, hcontents.step hio horigin
      (fun todo hmem => countP_of_write hnr hrun hmem)
      (fun todo hmem => countP_of_read hnr hrun hmem) hstep, hmatched.step hio ?_ hstep⟩
    intro todo hmem
    obtain ⟨i, hwritten⟩ := horigin.read todo hmem
    exact hcontents.written i todo hwritten (countP_of_read hnr hrun hmem)

/-- **Threads can do what they do** with the objects, unless something goes wrong. -/
theorem RwtContents.live (h : RwtContents F A B R es s.data) (hio : io.Sound F W A B R)
    (horigin : RwtOrigin W es s) (hcalm : ¬F) (hnr : nrObjs ≤ 2 ^ 64)
    (hrun : Run (RwtStep io)
      (mioRwtStart nrThreads (rwtTodoListsInit malloc stOid nrObjs bs bc) d) es s) :
    s.Live io where
  write := fun todo hmem => by
    obtain ⟨hnone, hkept⟩ := countP_of_write hnr hrun hmem
    exact (hio.writes (horigin.write todo hmem) (h.untouched _ hnone hkept)).resolve_left hcalm
  read := fun todo hmem => by
    obtain ⟨i, hwritten⟩ := horigin.read todo hmem
    exact (hio.reads (h.written i todo hwritten (countP_of_read hnr hrun hmem))).resolve_left hcalm
  remove := fun todo _ _ => (hio.removes todo s.data).resolve_left hcalm

end Counts

end Run

/-! ### The program on the objects that Motr keeps -/

section Store

variable {env} {pc} {th} {m : MotrStore} {oid : MioObjId}

theorem TargetIs.same {target : Option ObjContent} {m' : MotrStore} (h : TargetIs m oid target)
    (hsame : m.SameAt m' oid) : TargetIs m' oid target := by
  cases target with
  | none => exact ⟨hsame.1.trans h.1, by rw [hsame.2]; exact h.2⟩
  | some c => exact MotrStore.Holds.same h hsame

/-- Where the objects are to be written, there is nothing, or an object whose pages blocks
are made of. -/
def RoomFor (m : MotrStore) (oids : List MioObjId) (bs : UInt32) : Prop :=
  ∀ oid ∈ oids, ∃ target, TargetIs m oid target ∧
    ∀ old, target = some old → old.size = 0 ∨ old.pageSize ∣ bs.toNat

/-- An object that is to be written. -/
def ToWrite (oids : List MioObjId) (bs bc : UInt32) (todo : RwtObjTodo) : Prop :=
  todo.otOid ∈ oids ∧ todo.otBlockSize = bs ∧ todo.otBlockCount = bc

/-- An object that has been written. -/
def Written (env : Env) (th : IoThreadEnv) (bs bc : UInt32) (todo : RwtObjTodo) (d : Sys) : Prop :=
  (todo.otBlockSize = bs ∧ todo.otBlockCount = bc) ∧
    HasDigest env th todo.otOid (bs.toNat * bc.toNat) todo.otMd5sumWrite d.store

/-- There is no such object any more. -/
def Gone (oid : MioObjId) (d : Sys) : Prop := d.store.entities oid = none

/-- What is changed at one object only is right elsewhere. -/
theorem elsewhere_of_onlyAt {bs bc : UInt32} {d d' : Sys} (h : d.store.OnlyAt oid d'.store) :
    Elsewhere (fun o (d : Sys) => m.SameAt d.store o) (Written env th bs bc) Gone oid d d' where
  untouched := fun o ho hsame => hsame.trans (h o ho)
  written := fun _ ho hwritten => ⟨hwritten.1, hwritten.2.same (h _ ho)⟩
  removed := fun o ho hgone => (h o ho).1.trans hgone

/-- An object that is not there is not there after it has been deleted. -/
theorem Deleted.gone {d d' : Sys} (h : Deleted d.store oid d'.store) (hgone : Gone oid d) :
    Gone oid d' := by
  rcases h with h | h | h <;> rw [Gone, h]
  · exact hgone
  · exact MotrStore.entities_setEntity ..
  · exact MotrStore.entities_setEntity ..

/-- What keeps an object from being written keeps a new one from being created. -/
theorem CopyUpset.new {pool : Option MioPoolId} {chint : Option MioCmdObjHint}
    {target : Option ObjContent} (h : CopyUpset env pc pool chint target) :
    CopyUpset env pc pool chint none :=
  h.imp id fun h => ⟨rfl, h.2⟩

/-- **The calls are sound.** -/
theorem rwtStoreIo_sound {oids : List MioObjId} {bs bc : UInt32} (htells : env.Tells)
    (hpos : 0 < bs.toNat * bc.toNat) (hlt : bs.toNat * bc.toNat < 2 ^ 32) (henv : env.Fits m)
    (hroom : RoomFor m oids bs) :
    (rwtStoreIo env pc th).Sound (CopyUpset env pc none none none) (ToWrite oids bs bc)
      (fun o d => m.SameAt d.store o) (Written env th bs bc) Gone where
  write := by
    rintro todo d rc md5sum d' ⟨hmem, rfl, rfl⟩ hsame hd
    obtain ⟨target, htarget, hpages⟩ := hroom _ hmem
    obtain ⟨honly, hdone⟩ := (triple_rwtObjWrite htells (htarget.same hsame) hpos hlt
      (fun old hover => hover.fits henv htarget) hpages).ok_of_run rfl hd
    exact ⟨elsewhere_of_onlyAt honly, hdone.imp (fun h => ⟨h.1, Or.inl h.2⟩)
      fun h => ⟨h.1, ⟨rfl, rfl⟩, h.2⟩⟩
  read := by
    rintro todo d rc md5sum d' ⟨⟨rfl, rfl⟩, hobj⟩ hd
    obtain ⟨honly, -, hdigest⟩ := (triple_rwtObjRead hpos hlt hobj).ok_of_run rfl hd
    refine ⟨elsewhere_of_onlyAt honly, ?_, hdigest.imp (fun h => ⟨h.1, Or.inl h.2⟩) ?_⟩
    · rintro todo' hoid ⟨hsizes, hobj'⟩
      rw [hoid] at hobj'
      obtain ⟨-, hkept, -⟩ := (triple_rwtObjRead hpos hlt hobj').ok_of_run rfl hd
      exact ⟨hsizes, by rw [hoid]; exact hkept⟩
    · rintro ⟨hzero, heq⟩
      exact ⟨hzero.ge, by simp [rwtObjVerifyMd5sums, heq]⟩
  remove := by
    rintro todo d d' ⟨rc, hd⟩
    obtain ⟨hdel, hdone⟩ := triple_delete.ok_of_run rfl hd
    refine ⟨elsewhere_of_onlyAt hdel.onlyAt, ?_⟩
    rcases hdone with ⟨-, hrough | hnone⟩ | ⟨-, hstore⟩
    · exact Or.inl (Or.inl hrough)
    · exact Or.inr (hdel.gone hnone)
    · right
      rw [Gone, hstore]
      exact MotrStore.entities_setEntity ..
  writes := by
    rintro todo d ⟨hmem, rfl, rfl⟩ hsame
    obtain ⟨target, htarget, hpages⟩ := hroom _ hmem
    have hwrite : Triple (At d.store) (rwtObjWrite env pc th todo) _ _ :=
      triple_rwtObjWrite htells (htarget.same hsame) hpos hlt
        (fun old hover => hover.fits henv htarget) hpages
    exact (hwrite.exists_ok rfl).imp CopyUpset.new fun ⟨r, d', h⟩ => ⟨r.1, r.2, d', h⟩
  reads := by
    rintro todo d ⟨⟨rfl, rfl⟩, hobj⟩
    exact ((triple_rwtObjRead hpos hlt hobj).exists_ok rfl).imp Or.inl
      fun ⟨r, d', h⟩ => ⟨r.1, r.2, d', h⟩
  removes := fun todo d => by
    have hremove : Triple (At d.store) (mioObjDeleteOp env todo.otOid) _ fun _ => env.Rough :=
      triple_delete.consequence (fun _ hs => hs) (fun _ _ hq => hq) fun _ hs => hs.1
    exact (hremove.exists_ok rfl).imp Or.inl fun ⟨rc, d', h⟩ => ⟨d', rc, h⟩

/-- What is on the list at the start. -/
theorem toWrite_init (malloc : ℕ → Option RwtObjTodo) (stOid : MioObjId) (nrObjs : ℤ)
    (bs bc : UInt32) : ∀ todo ∈ (rwtTodoListsInit malloc stOid nrObjs bs bc).2.1.otlHead,
      ToWrite (rwtOids stOid nrObjs) bs bc todo := by
  intro todo hmem
  rcases rwtTodoListsInit_cases malloc stOid nrObjs bs bc with ⟨todos, heq, hoids, hsizes⟩ |
    ⟨k, -, heq⟩
  · rw [heq] at hmem
    have hoid : todo.otOid ∈ todos.map RwtObjTodo.otOid := List.mem_map_of_mem hmem
    rw [hoids, List.mem_reverse] at hoid
    exact ⟨hoid, hsizes todo hmem⟩
  · rw [heq] at hmem
    exact absurd hmem List.not_mem_nil

/-- **All objects that are done match**, whatever fails and whichever thread goes on when: what
a reader reads is what has been written. No other object is touched, an object that has been
written is there until it is removed, and no write returns a positive code. -/
theorem rwt_matches {malloc : ℕ → Option RwtObjTodo} {stOid : MioObjId} {nrObjs : ℤ}
    {bs bc : UInt32} {nrThreads : ℕ} {d : Sys} {es : List RwtEvent} {s : RwtState Sys}
    (htells : env.Tells) (hnr : nrObjs ≤ 2 ^ 64) (hpos : 0 < bs.toNat * bc.toNat)
    (hlt : bs.toNat * bc.toNat < 2 ^ 32) (henv : env.Fits d.store)
    (hroom : RoomFor d.store (rwtOids stOid nrObjs) bs)
    (hrun : Run (RwtStep (rwtStoreIo env pc th))
      (mioRwtStart nrThreads (rwtTodoListsInit malloc stOid nrObjs bs bc) d) es s) :
    s.objToReadList.otlNrMatched = s.objToReadList.otlNrDone ∧
      (∀ oid, oid ∉ rwtOids stOid nrObjs → d.store.SameAt s.data.store oid) ∧
      (∀ i todo, .write i todo 0 ∈ es → es.countP (RwtEvent.removes (· == todo.otOid)) = 0 →
        HasDigest env th todo.otOid (bs.toNat * bc.toNat) todo.otMd5sumWrite s.data.store) ∧
      ∀ e ∈ es, RwtEvent.writes posRc anyOid e = false := by
  obtain ⟨-, hcontents, hmatched⟩ := rwtContents_run
    (rwtStoreIo_sound htells hpos hlt henv hroom) hnr
    (toWrite_init malloc stOid nrObjs bs bc) (fun oid => .refl _ _) hrun
  refine ⟨hmatched.matched, fun oid hnot => ?_, fun i todo hmem hremoves => ?_, fun e he => ?_⟩
  · obtain ⟨hwrites, hremoves⟩ := countP_of_notMem hnr hrun hnot
    exact hcontents.untouched oid hwrites hremoves
  · exact (hcontents.written i todo hmem hremoves).2
  · exact hcontents.lost e he

/-- Unless something goes wrong, every run goes on to its end. -/
theorem exists_run_ended {malloc : ℕ → Option RwtObjTodo} {stOid : MioObjId} {nrObjs : ℤ}
    {bs bc : UInt32} {nrThreads : ℕ} {d : Sys} {es : List RwtEvent} {s : RwtState Sys}
    (hcalm : ¬CopyUpset env pc none none none)
    (hio : (rwtStoreIo env pc th).Sound (CopyUpset env pc none none none)
      (ToWrite (rwtOids stOid nrObjs) bs bc) (fun o d' => d.store.SameAt d'.store o)
      (Written env th bs bc) Gone)
    (hinit : (rwtTodoListsInit malloc stOid nrObjs bs bc).1 = true) (hnonneg : 0 ≤ nrObjs)
    (hnr : nrObjs ≤ 2 ^ 64) (hrun : Run (RwtStep (rwtStoreIo env pc th))
      (mioRwtStart nrThreads (rwtTodoListsInit malloc stOid nrObjs bs bc) d) es s) :
    ∃ es' u, Run (RwtStep (rwtStoreIo env pc th)) s es' u ∧ u.Ended := by
  refine exists_run_end rwtRanked (fun es t hrun => ?_) hrun
  obtain ⟨horigin, hcontents, -⟩ := rwtContents_run hio hnr
    (toWrite_init malloc stOid nrObjs bs bc) (fun oid => .refl _ _) hrun
  exact (rwtInv_of_run hinit hrun).progress (hcontents.live hio horigin hcalm hnr hrun)
    (allDone_of_pending hinit hnonneg hrun hcontents.lost)

/-- Where nothing fails, no code tells anything wrong. -/
theorem tells_of_calm (hcalm : ¬CopyUpset env pc none none none) : env.Tells :=
  fun t rc neg left h => absurd (Or.inl (Or.inl ⟨t, by rw [h]; simp⟩)) hcalm

/-- Where nothing fails, all writes succeed. -/
theorem RwtContents.countP_writes {σ : Type*} {F : Prop} {A : MioObjId → σ → Prop}
    {B : RwtObjTodo → σ → Prop} {R : MioObjId → σ → Prop} {es : List RwtEvent} {d : σ}
    (h : RwtContents F A B R es d) (hcalm : ¬F) (p : MioObjId → Bool) :
    es.countP (RwtEvent.writes zeroRc p) = es.countP (RwtEvent.writes anyRc p) := by
  refine List.countP_congr fun e he => ?_
  cases e with
  | write i todo rc =>
    have hlost := h.lost _ he
    have hfails : ¬(RwtEvent.write i todo rc).fails := fun hneg => hcalm (h.fails _ he hneg)
    simp only [RwtEvent.writes, posRc, anyOid, RwtEvent.fails, negRc, Bool.and_true,
      decide_eq_false_iff_not, decide_eq_true_eq] at hlost hfails
    have hzero : rc = 0 := by omega
    simp [RwtEvent.writes, zeroRc, anyRc, hzero]
  | _ => rfl

end Store

/-! ### An example -/

/-- A random number, and a digest that is not a good one. -/
def IoThreadEnv.plain : IoThreadEnv where
  md5 := fun bytes => .replicate _ (bytes.headD 0)
  random := fun _ => 7

/-- No objects. -/
def Sys.empty : Sys := ⟨.empty, 0⟩

theorem roomFor_empty (oids : List MioObjId) (bs : UInt32) : RoomFor .empty oids bs :=
  fun _ _ => ⟨none, ⟨rfl, recordOk_none⟩, fun _ h => absurd h (by simp)⟩

/-- An object of one block is written, read and removed. -/
theorem exists_run_plain : ∃ es s, Run (RwtStep (rwtStoreIo .calm .one .plain))
    (mioRwtStart 1 rwtListsOne .empty) es s ∧ s.Ended := by
  have hcalm := not_copyUpset_calm
  exact exists_run_ended hcalm (rwtStoreIo_sound (tells_of_calm hcalm) (by decide) (by decide)
    fits_empty (roomFor_empty _ _)) rfl (by decide) (by decide) .refl

/-- The object matches. -/
theorem matches_one : ∃ es s, Run (RwtStep (rwtStoreIo .calm .one .plain))
    (mioRwtStart 1 rwtListsOne .empty) es s ∧ s.Ended ∧
    s.objToReadList.otlNrMatched = s.objToReadList.otlNrDone ∧
      (∀ oid, oid ∉ rwtOids (oidOf 0) 1 → MotrStore.empty.SameAt s.data.store oid) ∧
      (∀ i todo, .write i todo 0 ∈ es → es.countP (RwtEvent.removes (· == todo.otOid)) = 0 →
        HasDigest .calm .plain todo.otOid 4096 todo.otMd5sumWrite s.data.store) ∧
      ∀ e ∈ es, RwtEvent.writes posRc anyOid e = false := by
  obtain ⟨es, s, hrun, hend⟩ := exists_run_plain
  exact ⟨es, s, hrun, hend, rwt_matches (tells_of_calm not_copyUpset_calm) (by decide)
    (by decide) (by decide) fits_empty (roomFor_empty _ _) hrun⟩

end CortxMio
